import CanLink.Clock
import CanLink.Frame

/-!
Frames to slots and back. `Frame.encode` refuses a frame that no bus could carry; `Frame.decode`
accepts any slot and normalises it, so that the frame it gives has a length, an identifier and flags
that fit together.
-/

namespace CanLink.Frame

/-- Largest identifier of a format, all of whose bits are set. -/
def identifierMask (isExtended : Bool) : UInt32 := if isExtended then 0x1FFFFFFF else 0x7FF

/-- The first `length` bytes of a payload, then zeros. -/
def cut (length : Nat) (data : PayloadBytes) : PayloadBytes :=
  Vector.ofFn fun i => if i < length then data[i] else 0

/-- The slot of a frame to be sent. Faults are looked for in the order identifier, flags, length; a
remote request carries the code of its length and no payload. -/
def encode (f : Frame) : Except FrameFault FrameSlot :=
  if identifierMask f.isExtended < f.identifier then .error .identifierOutOfRange
  else if f.isRemote && f.isFd then .error .remoteInFdFormat
  else if !f.isFd && (f.switchesBitRate || f.isErrorPassive) then .error .fdFlagsOnClassic
  else if !f.isFd && Payload.classicMaxLength < f.length then .error .classicTooLong
  else match Payload.code? f.length with
    | none => .error .lengthWithoutCode
    | some code => .ok
        { FrameSlot.blank with
          identifier := f.identifier
          code
          flags := f.flags &&& FrameFlag.ofFrame
          data := if f.isRemote then zeros _ else cut f.length f.data }

/-- The frame in a slot, with its timestamp extended. Flags that describe the delivery are dropped,
a classic length is limited to eight bytes and the identifier to the bits of its format. -/
def decode (s : FrameSlot) (t : Clock.Tracker) : Frame × Clock.Tracker :=
  let flags := s.flags &&& FrameFlag.ofFrame
  let coded := Payload.length s.code
  let length := if hasFlag flags FrameFlag.fd then coded else min coded Payload.classicMaxLength
  let (timestamp, t) := t.track s.timestamp
  ({ identifier := s.identifier &&& identifierMask (hasFlag flags FrameFlag.extended)
     flags
     length
     data := if hasFlag flags FrameFlag.remote then zeros _ else cut length s.data
     timestamp }, t)

end CanLink.Frame
