import CanLink.Slot
import CanLink.Text.Numeral
import CanLink.Text.Record

/-! Slots as text, for logs. The payload of a frame is left out. -/

namespace CanLink

namespace FrameSlot

def render (s : FrameSlot) : String :=
  let identifier := Text.hex .upper 8 s.identifier.toNat
  let flags := Text.hex .upper 2 s.flags.toNat
  Text.record "FrameSlot"
    [("timestamp_us", s!"{s.timestamp}"), ("can_id", s!"0x{identifier}"), ("dlc", s!"{s.code}"),
      ("flags", s!"0x{flags}"), ("echo", s!"{s.echo}"), ("track_id", s!"{s.trackId}")]

end FrameSlot

namespace StatusSlot

def render (s : StatusSlot) : String :=
  Text.record "StatusSlot"
    [("timestamp_us", s!"{s.timestamp}"), ("flags", s!"{s.flags}"), ("bus_status", s!"{s.status}"),
      ("rx_lost", s!"{s.rxLost}"), ("tx_dropped", s!"{s.txDropped}"),
      ("rx_errors", s!"{s.rxErrors}"), ("tx_errors", s!"{s.txErrors}"),
      ("rx_fifo_size", s!"{s.rxFifo}"), ("tx_fifo_size", s!"{s.txFifo}")]

end StatusSlot

namespace ErrorSlot

def render (s : ErrorSlot) : String :=
  Text.record "ErrorSlot"
    [("timestamp_us", s!"{s.timestamp}"), ("flags", s!"{s.flags}"), ("code", s!"{s.code}")]

end ErrorSlot

namespace Slot

/-- A frame is written as such, any other slot inside its kind. -/
def render : Slot → String
  | rx s | tx s => s.render
  | status s => s!"Status({s.render})"
  | error s => s!"Error({s.render})"

end Slot

end CanLink
