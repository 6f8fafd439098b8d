import CanLink.Bus
import CanLink.Frame.Codec

/-!
Events: what a received slot means to an application. The slots of one stream are read in order
with one clock tracker, each slot once.
-/

namespace CanLink

inductive Event where
  | received (frame : Frame)
  /-- Receipt of a frame that was to be sent. -/
  | sent (frame : Frame) (trackId : UInt32) (echo dropped : Bool)
  | status (status : BusStatus)
  | error (error : BusError)
  deriving DecidableEq

namespace Event

/-- Extended device clock in microseconds. -/
def timestamp : Event → UInt64
  | received frame => frame.timestamp
  | sent frame .. => frame.timestamp
  | status s => s.timestamp
  | error e => e.timestamp

/-- The event in a slot. An error slot without an error is no event, but its timestamp still counts
for the tracker. -/
def ofSlot (s : Slot) (t : Clock.Tracker) : Option Event × Clock.Tracker :=
  match s with
  | .rx s =>
      let (frame, t) := Frame.decode s t
      (some (received frame), t)
  | .tx s =>
      let (frame, t) := Frame.decode s t
      (some (sent frame s.trackId s.echo (hasFlag s.flags FrameFlag.dropped)), t)
  | .status s =>
      let (time, t) := t.track s.timestamp
      (some (status (.ofSlot s time)), t)
  | .error s =>
      let (time, t) := t.track s.timestamp
      (if s.code = ErrorCause.noneCode then none else some (error (.ofSlot s time)), t)

/-- The events in a run of slots, and the tracker after them. -/
def ofSlots : List Slot → Clock.Tracker → List Event × Clock.Tracker
  | [], t => ([], t)
  | s :: rest, t =>
      let (event, t) := ofSlot s t
      let (events, t) := ofSlots rest t
      (event.toList ++ events, t)

end Event

end CanLink
