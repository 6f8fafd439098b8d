import CanLink.Ring.Drain
import Mathlib.Algebra.Group.Nat.Defs

/-!
The memory of a ring. A ring owns two index words and one range of bytes for each slot, and these do
not overlap: what one store writes, every load of another part does not see. The slots of two
indices are the same bytes only if the indices agree modulo the capacity, and since the capacity
divides the range of an index this stays so where the index wraps.
-/

namespace CanLink

namespace Memory

theorem getElem_window (n start : Nat) (bytes : Array UInt8) (i : Nat) (inside : i < n) :
    (window n start bytes)[i] = bytes[start + i]?.getD 0 := by
  simp [window]

/-- A load does not see a store to other bytes. -/
theorem window_write_of_disjoint {n start at' : Nat} {data : Bytes} {bytes : Array UInt8}
    (apart : start + n ≤ at' ∨ at' + data.length ≤ start) :
    window n start (write at' data bytes) = window n start bytes := by
  apply Vector.ext
  intro i inside
  have outside : ¬ (at' ≤ start + i ∧ start + i < at' + data.length ∧ start + i < bytes.size) := by
    omega
  rw [getElem_window, getElem_window, getElem?_write, if_neg outside]

/-- A load of the bytes just stored gives them back. -/
theorem window_write_self {n start : Nat} (data : Vector UInt8 n) {bytes : Array UInt8}
    (fits : start + n ≤ bytes.size) :
    window n start (write start data.toList bytes) = data := by
  apply Vector.ext
  intro i inside
  have covered : start ≤ start + i ∧ start + i < start + data.toList.length ∧
      start + i < bytes.size := by
    simp only [Vector.length_toList]
    omega
  rw [getElem_window, getElem?_write, if_pos covered, Nat.add_sub_cancel_left]
  simp [inside]

end Memory

namespace Capacity

theorem slots_pos (c : Capacity) : 0 < c.slots := Nat.two_pow_pos _

theorem slots_le_maximum (c : Capacity) : c.slots ≤ maximum :=
  Nat.pow_le_pow_right (by decide) (Nat.le_of_lt_succ c.exponent.isLt)

/-- A capacity divides the range of an index. -/
theorem slots_dvd (c : Capacity) : c.slots ∣ 2 ^ 32 :=
  Nat.pow_dvd_pow 2 (Nat.le_of_lt c.exponent.isLt)

theorem toNat_word (c : Capacity) : c.word.toNat = c.slots := by
  have bound : c.slots ≤ 2 ^ 31 := c.slots_le_maximum
  simp only [word, Nat.toUInt32_eq, UInt32.toNat_ofNat']
  omega

end Capacity

namespace Ring

variable (r : Ring)

@[simp] theorem capacity_write (start : Nat) (data : Bytes) :
    (r.write start data).capacity = r.capacity := rfl

@[simp] theorem capacity_storePut (index : UInt32) :
    (r.storePut index).capacity = r.capacity := rfl

@[simp] theorem capacity_storeGet (index : UInt32) :
    (r.storeGet index).capacity = r.capacity := rfl

@[simp] theorem capacity_storeRecord (index : UInt32) (record : Record) :
    (r.storeRecord index record).capacity = r.capacity := rfl

/-- Each index has its slot behind the header and inside the region. -/
theorem slotOffset_bounds (index : UInt32) :
    headerSize ≤ r.slotOffset index ∧ r.slotOffset index + slotSize ≤ r.region.bytes.size := by
  have below : index.toNat % r.capacity.slots + 1 ≤ r.capacity.slots :=
    Nat.mod_lt _ r.capacity.slots_pos
  have scaled := Nat.mul_le_mul_right slotSize below
  have fits : headerSize + r.capacity.slots * slotSize ≤ r.region.bytes.size := r.fits
  simp only [slotOffset, slotSize, headerSize] at *
  omega

theorem header_fits : headerSize ≤ r.region.bytes.size := by
  have fits : headerSize + r.capacity.slots * slotSize ≤ r.region.bytes.size := r.fits
  omega

/-- Slots of indices that differ modulo the capacity do not overlap. -/
theorem slotOffset_apart {i j : UInt32}
    (differ : i.toNat % r.capacity.slots ≠ j.toNat % r.capacity.slots) :
    r.slotOffset i + slotSize ≤ r.slotOffset j ∨ r.slotOffset j + slotSize ≤ r.slotOffset i := by
  simp only [slotOffset, slotSize]
  omega

/-- A store leaves the bytes that it does not cover. -/
theorem getElem?_bytes_write {start : Nat} {data : Bytes} {i : Nat}
    (outside : i < start ∨ start + data.length ≤ i) :
    (r.write start data).region.bytes[i]? = r.region.bytes[i]? := by
  have uncovered : ¬ (start ≤ i ∧ i < start + data.length ∧ i < r.region.bytes.size) := by omega
  exact (Memory.getElem?_write ..).trans (if_neg uncovered)

/-- The two rings differ in the get index at most: every other byte is the same. -/
structure SameButGet (after : Ring) : Prop where
  capacity : after.capacity = r.capacity
  address : after.region.address = r.region.address
  bytes : ∀ i, i < getOffset ∨ getOffset + 4 ≤ i →
    after.region.bytes[i]? = r.region.bytes[i]?

theorem sameButGet_storeGet (index : UInt32) : r.SameButGet (r.storeGet index) where
  capacity := rfl
  address := rfl
  bytes i outside := r.getElem?_bytes_write (by simpa using outside)

/-! ### Index words -/

@[simp] theorem put_storePut (index : UInt32) : (r.storePut index).put = index := by
  have fits : 8 ≤ r.region.bytes.size := r.header_fits
  simp only [put, Region.word, storePut, write, Region.write]
  rw [Memory.window_write_self _ (by simp only [putOffset]; omega), LittleEndian.word32_bytes32]

@[simp] theorem get_storeGet (index : UInt32) : (r.storeGet index).get = index := by
  have fits : 8 ≤ r.region.bytes.size := r.header_fits
  simp only [get, Region.word, storeGet, write, Region.write]
  rw [Memory.window_write_self _ (by simp only [getOffset]; omega), LittleEndian.word32_bytes32]

@[simp] theorem get_storePut (index : UInt32) : (r.storePut index).get = r.get := by
  simp only [get, Region.word, storePut, write, Region.write]
  rw [Memory.window_write_of_disjoint (by simp [putOffset, getOffset])]

@[simp] theorem put_storeGet (index : UInt32) : (r.storeGet index).put = r.put := by
  simp only [put, Region.word, storeGet, write, Region.write]
  rw [Memory.window_write_of_disjoint (by simp [putOffset, getOffset])]

@[simp] theorem put_storeRecord (index : UInt32) (record : Record) :
    (r.storeRecord index record).put = r.put := by
  have bounds : 8 ≤ r.slotOffset index := (r.slotOffset_bounds index).1
  simp only [put, Region.word, storeRecord, write, Region.write]
  rw [Memory.window_write_of_disjoint (by simp only [putOffset]; omega)]

@[simp] theorem get_storeRecord (index : UInt32) (record : Record) :
    (r.storeRecord index record).get = r.get := by
  have bounds : 8 ≤ r.slotOffset index := (r.slotOffset_bounds index).1
  simp only [get, Region.word, storeRecord, write, Region.write]
  rw [Memory.window_write_of_disjoint (by simp only [getOffset]; omega)]

/-! ### Slots -/

/-- What a store leaves of the slots that it does not overlap. -/
theorem record_write_of_disjoint {start : Nat} {data : Bytes} {i : UInt32}
    (apart : r.slotOffset i + slotSize ≤ start ∨ start + data.length ≤ r.slotOffset i) :
    (r.write start data).record i = r.record i :=
  Memory.window_write_of_disjoint apart

@[simp] theorem record_storePut (index i : UInt32) : (r.storePut index).record i = r.record i := by
  have bounds : 8 ≤ r.slotOffset i := (r.slotOffset_bounds i).1
  exact r.record_write_of_disjoint (Or.inr (by simp [putOffset]; omega))

@[simp] theorem record_storeGet (index i : UInt32) : (r.storeGet index).record i = r.record i := by
  have bounds : 8 ≤ r.slotOffset i := (r.slotOffset_bounds i).1
  exact r.record_write_of_disjoint (Or.inr (by simp [getOffset]; omega))

theorem record_storeRecord_self (index : UInt32) (record : Record) :
    (r.storeRecord index record).record index = record :=
  Memory.window_write_self record (r.slotOffset_bounds index).2

theorem record_storeRecord_of_ne {index i : UInt32} (record : Record)
    (differ : i.toNat % r.capacity.slots ≠ index.toNat % r.capacity.slots) :
    (r.storeRecord index record).record i = r.record i :=
  r.record_write_of_disjoint (by simpa using r.slotOffset_apart differ)

end Ring

end CanLink
