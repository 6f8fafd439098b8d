import CanLink.Frame
import CanLink.Text.Numeral
import CanLink.Text.Record

/-! Frames as text: one line for a reader, and the fields by name for logs. -/

namespace CanLink.Frame

/-- Identifier, format, length in brackets, then the payload. -/
def render (f : Frame) : String :=
  let identifier := String.ofList (Text.padLeft 8 ' ' (Text.hexDigits .upper f.identifier.toNat))
  let format := if f.isFd then " FD" else ""
  let switch := if f.switchesBitRate then " BRS" else ""
  let payload :=
    if f.isRemote then "remote request"
    else String.intercalate " " (Text.hexBytes .upper f.payload)
  s!"{identifier}{format}{switch}   [{f.length}]  {payload}"

def renderFields (f : Frame) : String :=
  let identifier := Text.hex .upper 8 f.identifier.toNat
  let flags := Text.hex .upper 2 f.flags.toNat
  Text.record "CanFrame"
    [("can_id", s!"0x{identifier}"), ("flags", s!"0x{flags}"), ("len", s!"{f.length}"),
      ("data", Text.list (f.payload.map toString)), ("timestamp_us", s!"{f.timestamp}")]

end CanLink.Frame
