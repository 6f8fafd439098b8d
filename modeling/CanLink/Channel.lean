import CanLink.Ring.Drain
import CanLink.Wake

/-!
A channel is a ring together with the wake signal of its two sides: every slot put in notifies it,
and the side that takes slots out waits on it.
-/

namespace CanLink

structure Channel where
  ring : Ring
  wake : Wake

namespace Channel

/-- Puts a slot in; false if the ring is full. Only an accepted slot changes the channel. -/
def push (c : Channel) (slot : Slot) : Except Error Bool × Channel :=
  match c.ring.push slot with
  | .error e => (.error e, c)
  | .ok none => (.ok false, c)
  | .ok (some ring) => (.ok true, { ring, wake := c.wake.notify })

/-- Takes everything out. -/
def drainAll (c : Channel) : Except Error (List Slot) × Channel :=
  match c.ring.drainAll with
  | .error e => (.error e, c)
  | .ok (slots, ring) => (.ok slots, { c with ring })

/-- Discards what is queued and gives the number of discarded slots. -/
def reset (c : Channel) : UInt32 × Channel :=
  let (dropped, ring) := c.ring.reset
  (dropped, { c with ring })

/-- Has there been a notification since the last wait? -/
def wait (c : Channel) : Bool × Channel :=
  let (woken, wake) := c.wake.wait
  (woken, { c with wake })

end Channel

end CanLink
