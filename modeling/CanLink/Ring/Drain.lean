import CanLink.Ring

/-!
Taking slots out of a ring. A drain covers the slots that were queued when it began; it yields those
that carry CAN data, in order, and skips the others. The ring gets its space back only when the
drain is released, up to the last slot that was visited; slots not visited stay queued.
-/

namespace CanLink

structure Drain where
  /-- Get index when the drain began. -/
  start : UInt32
  /-- Index of the next slot to visit. -/
  cursor : UInt32
  /-- Put index when the drain began. -/
  put : UInt32
  deriving DecidableEq, Repr

namespace Ring

/-- Begins to take out everything that is queued now. -/
def drain (r : Ring) : Except Error Drain :=
  r.occupancy.map fun _ => ⟨r.get, r.get, r.put⟩

/-- The first slot with CAN data among `count` slots from `index` on, and the index after it, or
after all of them if there is none. -/
def nextSlot (r : Ring) : (count : Nat) → (index : UInt32) → Option Slot × UInt32
  | 0, index => (none, index)
  | count + 1, index =>
      match Slot.ofRecord? (r.record index) with
      | some slot => (some slot, index + 1)
      | none => nextSlot r count (index + 1)

end Ring

namespace Drain

/-- Number of slots not visited yet, and so a bound on those still to come. -/
def remaining (d : Drain) : Nat := (d.put - d.cursor).toNat

/-- The next slot, read from the ring as it is now. -/
def next (r : Ring) (d : Drain) : Option Slot × Drain :=
  let (slot, cursor) := r.nextSlot d.remaining d.cursor
  (slot, { d with cursor })

/-- The next slots, at most `limit`, up to the end. -/
def take (r : Ring) : (limit : Nat) → Drain → List Slot × Drain
  | 0, d => ([], d)
  | limit + 1, d =>
      match d.next r with
      | (none, d) => ([], d)
      | (some slot, d) =>
          let (slots, d) := take r limit d
          (slot :: slots, d)

/-- Gives the visited slots back. A drain that visited none writes nothing. -/
def release (r : Ring) (d : Drain) : Ring :=
  if d.cursor = d.start then r else r.storeGet d.cursor

end Drain

namespace Ring

/-- Takes out everything that is queued. -/
def drainAll (r : Ring) : Except Error (List Slot × Ring) :=
  r.drain.map fun d =>
    let (slots, d) := d.take r d.remaining
    (slots, d.release r)

end Ring

end CanLink
