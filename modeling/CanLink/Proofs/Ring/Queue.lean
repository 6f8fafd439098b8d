import CanLink.Proofs.Ring.Memory
import CanLink.Proofs.Slot.RoundTrip

/-!
A ring as a queue. `Ring.queued` lists the records between the two indices, oldest first, and each
operation has one equation about it: an accepted slot is appended (`queued_push`), a released drain
drops what it visited (`queued_storeGet`), a reset empties the queue (`queued_reset`). The equations
hold wherever the index words stand, also where they wrap.
-/

namespace CanLink

namespace Capacity

/-- Counting indices from a base on, modulo the capacity, does not notice the wrap. -/
theorem toNat_add_ofNat_mod (c : Capacity) (base : UInt32) (n : Nat) :
    (base + UInt32.ofNat n).toNat % c.slots = (base.toNat + n) % c.slots := by
  rw [UInt32.toNat_add, UInt32.toNat_ofNat', Nat.mod_mod_of_dvd _ c.slots_dvd,
    Nat.add_mod, Nat.mod_mod_of_dvd _ c.slots_dvd, ← Nat.add_mod]

/-- Indices less than one capacity apart stand for different slots. -/
theorem index_apart (c : Capacity) (base : UInt32) {i j : Nat} (before : i < j)
    (near : j < i + c.slots) :
    (base + UInt32.ofNat i).toNat % c.slots ≠ (base + UInt32.ofNat j).toNat % c.slots := by
  rw [c.toNat_add_ofNat_mod, c.toNat_add_ofNat_mod]
  intro same
  have divides : c.slots ∣ (base.toNat + j) - (base.toNat + i) :=
    Nat.dvd_of_mod_eq_zero (Nat.sub_mod_eq_zero_of_mod_eq same.symm)
  have large := Nat.le_of_dvd (by omega) divides
  omega

end Capacity

theorem index_succ (index : UInt32) (n : Nat) :
    index + 1 + UInt32.ofNat n = index + UInt32.ofNat (n + 1) := by
  rw [UInt32.ofNat_add, UInt32.add_assoc, UInt32.add_comm (UInt32.ofNat n)]
  rfl

/-- An index is another one plus their modular difference. -/
theorem index_eq_add_sub (low high : UInt32) : low + UInt32.ofNat (high - low).toNat = high := by
  rw [UInt32.ofNat_toNat, UInt32.add_comm, UInt32.sub_add_cancel]

/-- Counts from a base on keep their distance as index words, also where these wrap. -/
theorem toNat_sub_counts (base : UInt32) {low high : Nat} (order : low ≤ high)
    (near : high - low < 2 ^ 32) :
    ((base + UInt32.ofNat high) - (base + UInt32.ofNat low)).toNat = high - low := by
  obtain ⟨n, rfl⟩ := Nat.exists_eq_add_of_le order
  have difference : base + UInt32.ofNat (low + n) - (base + UInt32.ofNat low) = UInt32.ofNat n := by
    rw [UInt32.ofNat_add]
    grind
  rw [Nat.add_sub_cancel_left] at near ⊢
  rw [difference, UInt32.toNat_ofNat', Nat.mod_eq_of_lt near]

/-- Moving the lower of two indices up shortens their distance. -/
theorem toNat_sub_add_ofNat {low high : UInt32} {n : Nat} (within : n ≤ (high - low).toNat) :
    (high - (low + UInt32.ofNat n)).toNat = (high - low).toNat - n := by
  have bound := (high - low).toNat_lt
  have value : (UInt32.ofNat n).toNat = n := by
    rw [UInt32.toNat_ofNat', Nat.mod_eq_of_lt (by omega)]
  have split : high - (low + UInt32.ofNat n) = high - low - UInt32.ofNat n := by grind
  rw [split, UInt32.toNat_sub_of_le, value]
  rw [UInt32.le_iff_toNat_le, value]
  exact within

namespace Ring

/-- Records of `count` slots from `index` on. -/
def records (r : Ring) : (count : Nat) → (index : UInt32) → List Record
  | 0, _ => []
  | count + 1, index => r.record index :: r.records count (index + 1)

/-- Records of the queued slots, oldest first. -/
def queued (r : Ring) : List Record := r.records (r.put - r.get).toNat r.get

@[simp] theorem length_records (r : Ring) (count : Nat) (index : UInt32) :
    (r.records count index).length = count := by
  induction count generalizing index with
  | zero => rfl
  | succ count ih => rw [records, List.length_cons, ih]

theorem length_queued (r : Ring) : r.queued.length = (r.put - r.get).toNat := r.length_records ..

theorem records_add (r : Ring) (m n : Nat) (index : UInt32) :
    r.records (m + n) index = r.records m index ++ r.records n (index + UInt32.ofNat m) := by
  induction m generalizing index with
  | zero => simp [records]
  | succ m ih =>
      rw [Nat.add_right_comm, records, records, ih, index_succ, List.cons_append]

theorem getElem?_records (r : Ring) {count i : Nat} (index : UInt32) (inside : i < count) :
    (r.records count index)[i]? = some (r.record (index + UInt32.ofNat i)) := by
  induction count generalizing index i with
  | zero => omega
  | succ count ih =>
      cases i with
      | zero => simp [records]
      | succ i => rw [records, List.getElem?_cons_succ, ih _ (by omega), index_succ]

/-- Only the slots that are listed matter. -/
theorem records_congr {r r' : Ring} {count : Nat} {index : UInt32}
    (same : ∀ i < count, r'.record (index + UInt32.ofNat i) = r.record (index + UInt32.ofNat i)) :
    r'.records count index = r.records count index := by
  induction count generalizing index with
  | zero => rfl
  | succ count ih =>
      have first : r'.record index = r.record index := by simpa using same 0 (by omega)
      rw [records, records, first, ih]
      intro i inside
      rw [index_succ]
      exact same (i + 1) (by omega)

/-- Dropping records from the front is starting to list later. -/
theorem drop_records (r : Ring) {m count : Nat} (index : UInt32) (within : m ≤ count) :
    (r.records count index).drop m = r.records (count - m) (index + UInt32.ofNat m) := by
  obtain ⟨n, rfl⟩ := Nat.exists_eq_add_of_le within
  rw [records_add, List.drop_left' (r.length_records ..), Nat.add_sub_cancel_left]

/-- What stands behind the first part of a list of records is listed from there on. -/
theorem records_of_append {r : Ring} {count : Nat} {index : UInt32} {first rest : List Record}
    (split : r.records count index = first ++ rest) :
    r.records rest.length (index + UInt32.ofNat first.length) = rest := by
  have length := congrArg List.length split
  rw [r.length_records, List.length_append] at length
  have dropped := r.drop_records index (show first.length ≤ count by omega)
  have left : count - first.length = rest.length := by omega
  rw [split, List.drop_left, left] at dropped
  exact dropped.symm

theorem getElem?_queued {r : Ring} {i : Nat} (inside : i < r.queued.length) :
    r.queued[i]? = some (r.record (r.get + UInt32.ofNat i)) :=
  r.getElem?_records _ (by rwa [r.length_queued] at inside)

/-- The indices claim no more than the ring holds. -/
def Consistent (r : Ring) : Prop := r.queued.length ≤ r.capacity.slots

/-! ### What each operation does to the queue -/

theorem occupancy_of_consistent {r : Ring} (consistent : r.Consistent) :
    r.occupancy = .ok (r.put - r.get) := by
  have within : ¬ r.capacity.word < r.put - r.get := by
    rw [UInt32.lt_iff_toNat_lt, r.capacity.toNat_word, ← r.length_queued]
    exact Nat.not_lt.mpr consistent
  simp [occupancy, within]

/-- A full ring refuses a slot. -/
theorem push_of_full {r : Ring} (slot : Slot) (full : r.queued.length = r.capacity.slots) :
    r.push slot = .ok none := by
  have equal : r.put - r.get = r.capacity.word := by
    rw [← UInt32.toNat_inj, r.capacity.toNat_word, ← r.length_queued, full]
  rw [push, occupancy_of_consistent (Nat.le_of_eq full)]
  simp [Except.map, equal]

/-- The ring with a slot put in, where there is room for it. -/
def pushed (r : Ring) (slot : Slot) : Ring :=
  (r.storeRecord r.put slot.record).storePut (r.put + 1)

/-- A ring with room takes a slot. -/
theorem push_of_room {r : Ring} (slot : Slot) (room : r.queued.length < r.capacity.slots) :
    r.push slot = .ok (some (r.pushed slot)) := by
  have differ : r.put - r.get ≠ r.capacity.word := by
    rw [ne_eq, ← UInt32.toNat_inj, r.capacity.toNat_word, ← r.length_queued]
    omega
  rw [push, occupancy_of_consistent (Nat.le_of_lt room)]
  simp [Except.map, differ, pushed]

@[simp] theorem capacity_pushed (r : Ring) (slot : Slot) :
    (r.pushed slot).capacity = r.capacity := rfl

@[simp] theorem get_pushed (r : Ring) (slot : Slot) : (r.pushed slot).get = r.get := by
  simp [pushed]

@[simp] theorem put_pushed (r : Ring) (slot : Slot) : (r.pushed slot).put = r.put + 1 := by
  simp [pushed]

/-- A slot put in leaves the records of all queued slots as they were. -/
theorem record_pushed_of_lt {r : Ring} (slot : Slot) {i : Nat}
    (queued : i < r.queued.length) (room : r.queued.length < r.capacity.slots) :
    (r.pushed slot).record (r.get + UInt32.ofNat i) = r.record (r.get + UInt32.ofNat i) := by
  have apart := r.capacity.index_apart r.get queued (by omega)
  rw [r.length_queued, index_eq_add_sub] at apart
  rw [pushed, record_storePut, r.record_storeRecord_of_ne _ apart]

/-- The slot put in is the last one queued. -/
theorem queued_pushed {r : Ring} (slot : Slot) (room : r.queued.length < r.capacity.slots) :
    (r.pushed slot).queued = r.queued ++ [slot.record] := by
  have room' := room
  rw [r.length_queued] at room'
  have longer : (r.put + 1 - r.get).toNat = (r.put - r.get).toNat + 1 := by
    have bound : r.capacity.slots ≤ 2 ^ 31 := r.capacity.slots_le_maximum
    have commute : r.put + 1 - r.get = r.put - r.get + 1 := by grind
    rw [commute, UInt32.toNat_add]
    exact Nat.mod_eq_of_lt (by rw [UInt32.toNat_one]; omega)
  have earlier : (r.pushed slot).records (r.put - r.get).toNat r.get = r.queued :=
    records_congr fun i inside =>
      record_pushed_of_lt slot (by rwa [r.length_queued]) room
  have newest : (r.pushed slot).record r.put = slot.record := by
    rw [pushed, record_storePut, record_storeRecord_self]
  rw [Ring.queued, put_pushed, get_pushed, longer, records_add, earlier, index_eq_add_sub,
    records, newest, records]

/-- The queued records from some distance on. -/
theorem records_from {r : Ring} {passed : Nat} (within : passed ≤ r.queued.length) :
    r.records (r.put - (r.get + UInt32.ofNat passed)).toNat (r.get + UInt32.ofNat passed) =
      r.queued.drop passed := by
  rw [r.length_queued] at within
  rw [toNat_sub_add_ofNat within, Ring.queued, r.drop_records _ within]

/-- Moving the get index up drops the oldest records. -/
theorem queued_storeGet {r : Ring} {taken : Nat} (within : taken ≤ r.queued.length) :
    (r.storeGet (r.get + UInt32.ofNat taken)).queued = r.queued.drop taken := by
  rw [Ring.queued, put_storeGet, get_storeGet, ← records_from within]
  exact records_congr fun i _ => r.record_storeGet _ _

/-- A reset leaves nothing queued, whatever the indices were. -/
theorem queued_reset (r : Ring) : r.reset.2.queued = [] := by
  simp [Ring.queued, reset, records]

/-- A clear leaves nothing queued either. -/
theorem queued_clear (r : Ring) : r.clear.queued = [] := by
  simp [Ring.queued, clear, records]

theorem nextSlot_of_some {r : Ring} {count : Nat} {index : UInt32} {slot : Slot}
    (pos : 0 < count) (carries : Slot.ofRecord? (r.record index) = some slot) :
    r.nextSlot count index = (some slot, index + 1) := by
  obtain ⟨rest, rfl⟩ := Nat.exists_eq_add_of_lt pos
  simp [nextSlot, carries]

end Ring

/-- A drain at its end yields nothing and stays where it is. -/
theorem Drain.next_of_remaining_eq_zero {r : Ring} {d : Drain} (finished : d.remaining = 0) :
    d.next r = (none, d) := by
  rw [next, finished, Ring.nextSlot]

@[simp] theorem Drain.capacity_release (r : Ring) (d : Drain) :
    (d.release r).capacity = r.capacity := by
  rw [release]
  split <;> rfl

/-- A released drain leaves the get index where it stands, and changes nothing else. -/
theorem Drain.release_moves (r : Ring) (cursor put : UInt32) :
    (Drain.release r ⟨r.get, cursor, put⟩).get = cursor ∧
      r.SameButGet (Drain.release r ⟨r.get, cursor, put⟩) := by
  by_cases still : cursor = r.get
  · rw [release, if_pos still]
    exact ⟨still.symm, rfl, rfl, fun _ _ => rfl⟩
  · rw [release, if_neg still]
    exact ⟨r.get_storeGet cursor, r.sameButGet_storeGet cursor⟩

/-- A released drain gives back exactly the slots it moved past. -/
theorem Drain.queued_release {r : Ring} {taken : Nat} (put : UInt32)
    (within : taken ≤ r.queued.length) :
    (Drain.release r ⟨r.get, r.get + UInt32.ofNat taken, put⟩).queued = r.queued.drop taken := by
  by_cases still : r.get + UInt32.ofNat taken = r.get
  · -- A drain that went all the way round would look like one that did not move.
    have bound := (r.put - r.get).toNat_lt
    have none : taken = 0 := by
      have zero : UInt32.ofNat taken = 0 := by grind
      have value := congrArg UInt32.toNat zero
      rw [r.length_queued] at within
      rw [UInt32.toNat_ofNat', Nat.mod_eq_of_lt (by omega)] at value
      exact value
    simp [release, none]
  · rw [release, if_neg still, Ring.queued_storeGet within]

end CanLink
