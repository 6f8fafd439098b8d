import CanLink.Memory.Region
import CanLink.Slot.Layout

/-!
A ring of slots in shared memory, with one side that puts slots in and one that gets them out:

```text
0   put index   counts the slots ever put in, written by that side only
4   get index   counts the slots ever taken out, written by the other side only
8   slots       one after another, each of 80 bytes
```

Both indices are 32-bit words that count up and wrap. The number of queued slots is their
difference, and the slot of an index is its remainder by the capacity. Capacities are powers of two,
so the remainder goes on evenly where the index wraps.
-/

namespace CanLink

/-- Bytes before the first slot. -/
def headerSize : Nat := 8

/-- Bytes that a ring of `capacity` slots takes. -/
def requiredSize (capacity : Nat) : Nat := headerSize + capacity * slotSize

/-- The capacity of a ring, a power of two that fits a 32-bit word. -/
structure Capacity where
  exponent : Fin 32
  deriving DecidableEq

namespace Capacity

/-- Largest capacity of a ring. -/
def maximum : Nat := Nat.pow 2 31

/-- Capacity for callers that have no wish of their own. -/
def standard : Nat := 256

/-- Number of slots. -/
def slots (c : Capacity) : Nat := Nat.pow 2 c.exponent.val

def word (c : Capacity) : UInt32 := c.slots.toUInt32

def ofWord? (w : UInt32) : Option Capacity :=
  (List.finRange 32).findSome? fun e => if Nat.pow 2 e.val = w.toNat then some ⟨e⟩ else none

end Capacity

structure Ring where
  capacity : Capacity
  region : Region
  fits : requiredSize capacity.slots ≤ region.size
  aligned : region.isAligned 4

namespace Ring

def putOffset : Nat := 0

def getOffset : Nat := 4

/-- A ring over a region, whose bytes stay as they are. What is wrong is reported in the order
capacity, size, alignment. -/
def ofRegion (region : Region) (capacity : UInt32) : Except Error Ring :=
  match Capacity.ofWord? capacity with
  | none => .error (.invalidCapacity capacity)
  | some capacity =>
      if fits : requiredSize capacity.slots ≤ region.size then
        if aligned : region.isAligned 4 then .ok { capacity, region, fits, aligned }
        else .error .regionMisaligned
      else .error (.regionTooSmall (requiredSize capacity.slots) region.size)

/-- A ring over new memory, all of it zero. -/
def allocate (capacity : UInt32) : Except Error Ring := do
  let region ← Region.zeroed (requiredSize capacity.toNat)
  ofRegion region capacity

def put (r : Ring) : UInt32 := r.region.word putOffset

def get (r : Ring) : UInt32 := r.region.word getOffset

/-- Offset of the slot that an index stands for. -/
def slotOffset (r : Ring) (index : UInt32) : Nat :=
  headerSize + index.toNat % r.capacity.slots * slotSize

/-- Bytes of the slot that an index stands for. -/
def record (r : Ring) (index : UInt32) : Record :=
  Memory.window 80 (r.slotOffset index) r.region.bytes

def write (r : Ring) (start : Nat) (data : Bytes) : Ring :=
  { r with
    region := r.region.write start data
    fits := by simpa using r.fits
    aligned := r.aligned }

def storePut (r : Ring) (index : UInt32) : Ring :=
  r.write putOffset (LittleEndian.bytes32 index).toList

def storeGet (r : Ring) (index : UInt32) : Ring :=
  r.write getOffset (LittleEndian.bytes32 index).toList

def storeRecord (r : Ring) (index : UInt32) (record : Record) : Ring :=
  r.write (r.slotOffset index) record.toList

/-- Number of queued slots, or an error if the indices claim more than the ring holds. -/
def occupancy (r : Ring) : Except Error UInt32 :=
  let queued := r.put - r.get
  if r.capacity.word < queued then .error (.impossibleIndices r.put r.get r.capacity.word)
  else .ok queued

/-- Number of free slots. -/
def free (r : Ring) : Except Error UInt32 := r.occupancy.map (r.capacity.word - ·)

/-- Both indices at zero, for memory that nobody uses yet. -/
def clear (r : Ring) : Ring := (r.storePut 0).storeGet 0

/-- The ring with one more slot, or nothing if it is full. -/
def push (r : Ring) (slot : Slot) : Except Error (Option Ring) :=
  r.occupancy.map fun queued =>
    if queued = r.capacity.word then none
    else some ((r.storeRecord r.put slot.record).storePut (r.put + 1))

/-- The ring with all queued slots discarded, and their number as the indices have it. Works on
impossible indices too. -/
def reset (r : Ring) : UInt32 × Ring := (r.put - r.get, r.storeGet r.put)

attribute [irreducible] put get

end Ring

end CanLink
