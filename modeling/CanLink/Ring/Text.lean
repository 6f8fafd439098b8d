import CanLink.Ring
import CanLink.Text.Record

/-! Rings as text, for logs. -/

namespace CanLink.Ring

def render (r : Ring) : String :=
  Text.record "RingChannel"
    [("capacity", s!"{r.capacity.word}"), ("put", s!"{r.put}"), ("get", s!"{r.get}")]

end CanLink.Ring
