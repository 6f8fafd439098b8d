import CanLink.Proofs.Ring.Fifo
import CanLink.Proofs.Ring.Programs
import Mathlib.Data.Set.Pairwise.Basic
import Mathlib.Order.CompletePartialOrder
import Mathlib.Order.Interval.Set.Disjoint

/-!
Where the slots of a ring are. As many consecutive indices as the ring has slots, from any index on
and across the wrap, stand for ranges of bytes that do not overlap and together are all the bytes
behind the header, up to the size that the capacity requires (`Ring.slots_partition`). So a slot put
in disturbs none that is queued (`Ring.takesSlot_pushed`), and no operation of a ring touches a byte
behind its last slot, whatever stands in the index words (`slot_addressing_is_sound`).
-/

namespace CanLink

namespace Capacity

theorem slots_of_ofWord? {w : UInt32} {c : Capacity} (found : ofWord? w = some c) :
    c.slots = w.toNat := by
  obtain ⟨e, -, matched⟩ := List.exists_of_findSome?_eq_some found
  split at matched
  next same =>
    cases matched
    exact same
  next => cases matched

/-- Each slot belongs to one of as many consecutive indices as there are slots. -/
theorem exists_index (c : Capacity) (start : UInt32) {place : Nat} (below : place < c.slots) :
    ∃ i < c.slots, (start + UInt32.ofNat i).toNat % c.slots = place := by
  have first : start.toNat % c.slots < c.slots := Nat.mod_lt _ c.slots_pos
  have around : start.toNat % c.slots + (place + (c.slots - start.toNat % c.slots)) =
      place + c.slots := by omega
  refine ⟨(place + (c.slots - start.toNat % c.slots)) % c.slots, Nat.mod_lt _ c.slots_pos, ?_⟩
  rw [c.toNat_add_ofNat_mod, Nat.add_mod_mod, ← Nat.mod_add_mod, around, Nat.add_mod_right,
    Nat.mod_eq_of_lt below]

end Capacity

namespace Ring

/-- A ring over a region has the region as its memory, and as many slots as asked for. -/
theorem ofRegion_eq_ok {region : Region} {capacity : UInt32} {r : Ring}
    (accepted : ofRegion region capacity = .ok r) :
    r.region = region ∧ r.capacity.slots = capacity.toNat := by
  rw [ofRegion] at accepted
  split at accepted
  next => cases accepted
  next c found =>
    split at accepted
    next =>
      split at accepted
      next =>
        cases accepted
        exact ⟨rfl, Capacity.slots_of_ofWord? found⟩
      next => cases accepted
    next => cases accepted

def headerBytes : Set Nat := Set.Iio headerSize

def putBytes : Set Nat := Set.Ico putOffset (putOffset + 4)

variable (r : Ring)

/-- Offsets of the bytes of the slot that an index stands for. -/
def slotBytes (index : UInt32) : Set Nat :=
  Set.Ico (r.slotOffset index) (r.slotOffset index + slotSize)

/-- The slots of so many indices from `start` on divide up the memory behind the header. -/
structure SlotsPartition (start : UInt32) : Prop where
  apart : (Set.Iio r.capacity.slots).PairwiseDisjoint fun i =>
    r.slotBytes (start + UInt32.ofNat i)
  offHeader : ∀ i < r.capacity.slots, Disjoint (r.slotBytes (start + UInt32.ofNat i)) headerBytes
  inside : ∀ i < r.capacity.slots,
    r.slotBytes (start + UInt32.ofNat i) ⊆ Set.Iio r.region.size
  together : ⋃ i < r.capacity.slots, r.slotBytes (start + UInt32.ofNat i) =
    Set.Ico headerSize (requiredSize r.capacity.slots)

theorem disjoint_slotBytes {i j : UInt32}
    (differ : i.toNat % r.capacity.slots ≠ j.toNat % r.capacity.slots) :
    Disjoint (r.slotBytes i) (r.slotBytes j) := by
  have apart := r.slotOffset_apart differ
  rw [slotBytes, slotBytes, Set.Ico_disjoint_Ico]
  omega

theorem disjoint_slotBytes_header (index : UInt32) : Disjoint (r.slotBytes index) headerBytes := by
  rw [Set.disjoint_left]
  intro byte inSlot inHeader
  have behind := (r.slotOffset_bounds index).1
  exact absurd (Set.mem_Iio.mp inHeader) (Nat.not_lt.mpr (Nat.le_trans behind inSlot.1))

/-- A byte behind the header belongs to the slot that its distance from the header gives. -/
theorem mem_slotBytes_iff (index : UInt32) (byte : Nat) :
    byte ∈ r.slotBytes index ↔
      headerSize ≤ byte ∧ (byte - headerSize) / slotSize = index.toNat % r.capacity.slots := by
  rw [slotBytes, Set.mem_Ico, slotOffset, slotSize]
  omega

theorem slots_partition (start : UInt32) : r.SlotsPartition start where
  apart := by
    intro i inside j inside' differ
    rw [Set.mem_Iio] at inside inside'
    apply r.disjoint_slotBytes
    rcases Nat.lt_or_gt_of_ne differ with before | before
    · exact r.capacity.index_apart start before (by omega)
    · exact (r.capacity.index_apart start before (by omega)).symm
  offHeader i _ := r.disjoint_slotBytes_header _
  inside i _ byte inSlot := Nat.lt_of_lt_of_le inSlot.2 (r.slotOffset_bounds _).2
  together := by
    ext byte
    simp only [Set.mem_iUnion, exists_prop, mem_slotBytes_iff, Set.mem_Ico, requiredSize, slotSize]
    constructor
    · rintro ⟨i, -, behind, place⟩
      have below : (start + UInt32.ofNat i).toNat % r.capacity.slots < r.capacity.slots :=
        Nat.mod_lt _ r.capacity.slots_pos
      exact ⟨behind, by omega⟩
    · rintro ⟨behind, before⟩
      have below : (byte - headerSize) / 80 < r.capacity.slots := by omega
      obtain ⟨i, inside, place⟩ := r.capacity.exists_index start below
      exact ⟨i, inside, behind, place.symm⟩

/-! ### Putting a slot in -/

/-- The slot was put in, and nothing else was disturbed. -/
structure TakesSlot (slot : Slot) (after : Ring) : Prop where
  capacity : after.capacity = r.capacity
  size : after.region.size = r.region.size
  record : after.record r.put = slot.record
  put : after.put = r.put + 1
  /-- Only the slot at the put index and the put index itself are written. -/
  writes : ∀ byte, byte ∉ r.slotBytes r.put ∪ putBytes →
    after.region.bytes[byte]? = r.region.bytes[byte]?
  queued : ∀ i < (r.put - r.get).toNat, ∀ byte ∈ r.slotBytes (r.get + UInt32.ofNat i),
    after.region.bytes[byte]? = r.region.bytes[byte]?
  get : after.get = r.get

variable {r}

theorem getElem?_bytes_pushed (slot : Slot) {byte : Nat}
    (outside : byte ∉ r.slotBytes r.put ∪ putBytes) :
    (r.pushed slot).region.bytes[byte]? = r.region.bytes[byte]? := by
  rw [Set.mem_union, not_or, slotBytes, putBytes, Set.mem_Ico, Set.mem_Ico, slotSize] at outside
  obtain ⟨outSlot, outPut⟩ := outside
  rw [pushed, storePut, getElem?_bytes_write _ (by simp; omega), storeRecord,
    getElem?_bytes_write _ (by simp; omega)]

/-- The slot at the put index is none of those queued, so long as there is room. -/
theorem disjoint_slotBytes_put (room : (r.put - r.get).toNat < r.capacity.slots) {i : Nat}
    (queued : i < (r.put - r.get).toNat) :
    Disjoint (r.slotBytes (r.get + UInt32.ofNat i)) (r.slotBytes r.put) := by
  have apart := (r.slots_partition r.get).apart (Nat.lt_trans queued room) room
    (Nat.ne_of_lt queued)
  simpa only [Function.onFun, index_eq_add_sub] using apart

theorem takesSlot_pushed (slot : Slot) (room : (r.put - r.get).toNat < r.capacity.slots) :
    r.TakesSlot slot (r.pushed slot) where
  capacity := r.capacity_pushed slot
  size := by simp [pushed, storePut, storeRecord, write]
  record := by rw [pushed, record_storePut, record_storeRecord_self]
  put := r.put_pushed slot
  writes byte outside := getElem?_bytes_pushed slot outside
  queued i queued byte inSlot := by
    apply getElem?_bytes_pushed
    rintro (atPut | inHeader)
    · exact Set.disjoint_left.mp (disjoint_slotBytes_put room queued) inSlot atPut
    · have header : byte ∈ headerBytes := Nat.lt_trans inHeader.2 (by decide)
      exact Set.disjoint_left.mp (r.disjoint_slotBytes_header _) inSlot header
  get := r.get_pushed slot

end Ring

/-- The slots of a ring never collide, and no operation leaves its memory. Let a ring be laid over a
region. Its slots at as many consecutive indices as it has, from any index on, divide up the bytes
behind the header, as far as the capacity requires and the region reaches. A slot is put in wherever
the index words leave room for it, in the bytes of its own slot and of the put index alone, so that
no queued slot and not the get index changes. And no operation touches a byte behind the last slot,
be it to read or to write, with whatever index words and drains. -/
theorem slot_addressing_is_sound {region : Region} {capacity : UInt32} {r : Ring}
    (accepted : Ring.ofRegion region capacity = .ok r) :
    r.region = region ∧ r.capacity.slots = capacity.toNat ∧
      (∀ start : UInt32, r.SlotsPartition start) ∧
      (∀ slot : Slot, (r.put - r.get).toNat < capacity.toNat →
        ∃ after, r.push slot = .ok (some after) ∧ r.TakesSlot slot after) ∧
      ∀ call : RingCall, call.Confined r (requiredSize capacity.toNat) := by
  obtain ⟨memory, slots⟩ := Ring.ofRegion_eq_ok accepted
  refine ⟨memory, slots, r.slots_partition, ?_, ?_⟩
  · intro slot room
    rw [← slots] at room
    have queued : r.queued.length < r.capacity.slots := by rwa [r.length_queued]
    exact ⟨r.pushed slot, Ring.push_of_room slot queued, Ring.takesSlot_pushed slot room⟩
  · intro call
    rw [← slots]
    exact call.confined r

/-- A ring of two slots in more memory than it needs. One slot is queued, at the last index before
the wrap. -/
def Ring.roomy : Ring where
  capacity := Ring.aboutToWrap.capacity
  region :=
    ⟨Array.replicate 4 0 ++ Array.replicate 4 0xff ++ Array.replicate 160 0 ++
      Array.replicate 32 0xaa, 4⟩
  fits := by
    simp [requiredSize, headerSize, slotSize, Capacity.slots, Region.size, Ring.aboutToWrap]
  aligned := by decide

/-- The slots on both sides of the wrap are the two there are, one more slot leaves the queued one
alone, and a drain that was never begun, with many more slots ahead than there are, does not see the
bytes behind the ring. -/
theorem slot_addressing_is_sound_across_wrap :
    Ring.ofRegion Ring.roomy.region 2 = .ok Ring.roomy ∧
      (Ring.roomy.put - Ring.roomy.get).toNat < (2 : UInt32).toNat ∧
      Ring.roomy.SlotsPartition 0xffffffff ∧
      (∃ after, Ring.roomy.push (.error ⟨0, 0, 1⟩) = .ok (some after) ∧
        Ring.roomy.TakesSlot (.error ⟨0, 0, 1⟩) after) ∧
      (RingCall.next ⟨0, 0x80000001, 0x7fffffff⟩).Confined Ring.roomy 168 := by
  have accepted : Ring.ofRegion Ring.roomy.region 2 = .ok Ring.roomy := by
    have two : Capacity.ofWord? 2 = some Ring.roomy.capacity := by decide +kernel
    rw [Ring.ofRegion, two]
    exact (dif_pos Ring.roomy.fits).trans (dif_pos Ring.roomy.aligned)
  have room : (Ring.roomy.put - Ring.roomy.get).toNat < (2 : UInt32).toNat := by decide +kernel
  obtain ⟨-, -, divided, taken, confined⟩ := slot_addressing_is_sound accepted
  exact ⟨accepted, room, divided 0xffffffff, taken (.error ⟨0, 0, 1⟩) room, confined _⟩

end CanLink
