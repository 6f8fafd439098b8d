import CanLink.Control.Transport

/-! A transport that answers from a script. -/

namespace CanLink

structure Script where
  /-- Configuration access is held by another client. -/
  deny : Bool
  /-- Asking for access fails, for this reason. -/
  acquireFault : Option String
  /-- Giving access back fails, for this reason. -/
  releaseFault : Option String
  /-- Identities of the messages that are rejected. -/
  rejected : List UInt8
  /-- Number of messages accepted before all are rejected. -/
  budget : Option Nat
  deriving DecidableEq, Repr

namespace Script

def send (message : Bytes) (s : Script) : Except Error Unit × Script :=
  let id := message[0]?.getD 0
  if s.budget = some 0 ∨ id ∈ s.rejected then (.error (.controlRejected id "rejected"), s)
  else (.ok (), { s with budget := s.budget.map (· - 1) })

instance : Transport Script where
  acquire s :=
    match s.acquireFault with
    | some reason => (.error (.controlRejected 0 reason), s)
    | none => (.ok !s.deny, s)
  release s :=
    match s.releaseFault with
    | some reason => (.error (.controlRejected 255 reason), s)
    | none => (.ok (), s)
  send := send

end Script

end CanLink
