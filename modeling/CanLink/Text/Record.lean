/-!
Named records as text: the name, then each field with its value, between braces.
-/

namespace CanLink.Text

/-- Texts separated by a comma and a blank. -/
def commaSeparated (texts : List String) : String := String.intercalate ", " texts

/-- A record with at least one field. -/
def record (name : String) (fields : List (String × String)) : String :=
  let body := commaSeparated (fields.map fun field => s!"{field.1}: {field.2}")
  s!"{name} \x7b {body} \x7d"

/-- Values in order, between brackets. -/
def list (values : List String) : String := s!"[{commaSeparated values}]"

end CanLink.Text
