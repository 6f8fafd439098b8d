import CanLink.Proofs.Bytes.Number

/-!
The canonical form of a record. Records that differ only in bytes that their kind of slot does not
use stand for the same slot, and so do frame records with different echo bytes that count as set.
Of these records the writer produces one: the form in which unused bytes are zero and a set echo
byte is one (`Slot.canonicalByte`). Reading and writing agree on it: a slot is read from exactly
those bytes whose canonical form is its record (`Slot.format_is_canonical`).
-/

namespace CanLink

open LittleEndian

namespace LittleEndian

theorem bytes16_word16 (b : Vector UInt8 2) : bytes16 (word16 b) = b := by
  have low := b[0].toNat_lt
  have high := b[1].toNat_lt
  have value : (word16 b).toNat = b[0].toNat + 256 * b[1].toNat := by
    simp [word16]
    omega
  apply Vector.ext
  intro i inside
  apply UInt8.toNat_inj.mp
  have place : i = 0 ∨ i = 1 := by omega
  rcases place with rfl | rfl
  all_goals simp [bytes16, value, Nat.shiftRight_eq_div_pow]
  omega

theorem bytes32_word32 (b : Vector UInt8 4) : bytes32 (word32 b) = b := by
  have byte0 := b[0].toNat_lt
  have byte1 := b[1].toNat_lt
  have byte2 := b[2].toNat_lt
  have byte3 := b[3].toNat_lt
  have value : (word32 b).toNat =
      b[0].toNat + 256 * (b[1].toNat + 256 * (b[2].toNat + 256 * b[3].toNat)) := by
    simp [word32]
    omega
  apply Vector.ext
  intro i inside
  apply UInt8.toNat_inj.mp
  have place : i = 0 ∨ i = 1 ∨ i = 2 ∨ i = 3 := by omega
  rcases place with rfl | rfl | rfl | rfl
  all_goals simp [bytes32, value, Nat.shiftRight_eq_div_pow]
  all_goals omega

end LittleEndian

/-- Fields that follow one another are one longer field. -/
theorem slice_append_slice {size : Nat} (bytes : Vector UInt8 size) {start m n : Nat}
    (first : start + m ≤ size) (second : start + m + n ≤ size) :
    (slice bytes start m first).toList ++ (slice bytes (start + m) n second).toList =
      (slice bytes start (m + n) (by omega)).toList := by
  apply List.ext_getElem
  · simp
  · intro i left right
    rw [List.getElem_append]
    split
    · simp [slice]
    · rename_i past
      have place : start + m + (i - m) = start + i := by simp at past; omega
      simp [slice, place]

/-- A record of which the writer sets the first four bytes, copies the next ones from another record
and leaves the others zero. -/
theorem getElem_padded_head (r : Record) (head : Vector UInt8 4) {copied : Nat}
    (fits : 4 + copied ≤ 80) (i : Nat) (inside : i < 80) :
    (Bytes.padded 80 (head.toList ++ (slice r 4 copied fits).toList))[i] =
      if _ : i < 4 then head[i] else if i < 4 + copied then r[i] else 0 := by
  rw [Bytes.getElem_padded]
  split
  · rename_i first
    rw [List.getElem?_append_left (by simpa using first)]
    simp [first]
  · rename_i later
    rw [List.getElem?_append_right (by simp; omega)]
    split
    · rename_i within
      have place : 4 + (i - 4) = i := by omega
      have within' : i - 4 < copied := by omega
      simp [slice, within', place]
    · rename_i beyond
      rw [List.getElem?_eq_none (by simp; omega)]
      rfl

/-- A record whose kind uses neither its second byte nor what follows the copied ones. -/
theorem getElem_padded_fields {tag : UInt8} {r : Record} {copied : Nat} (fits : 4 + copied ≤ 80)
    (tagged : r[0] = tag) {i : Nat} (inside : i < 80) :
    (Bytes.padded 80 (#v[tag, 0, r[2], r[3]].toList ++ (slice r 4 copied fits).toList))[i] =
      if i = 1 ∨ 4 + copied ≤ i then 0 else r[i] := by
  rw [getElem_padded_head]
  obtain rfl | rfl | rfl | rfl | later : i = 0 ∨ i = 1 ∨ i = 2 ∨ i = 3 ∨ 4 ≤ i := by omega
  · simp [tagged]
  · simp
  · simp [show ¬ 4 + copied ≤ 2 by omega]
  · simp [show ¬ 4 + copied ≤ 3 by omega]
  · have head : ¬ i < 4 := Nat.not_lt.mpr later
    rw [dif_neg head]
    by_cases within : i < 4 + copied
    · rw [if_pos within, if_neg (by omega)]
    · rw [if_neg within, if_pos (by omega)]

/-- A set flag is written as one, whatever byte it was read from. -/
theorem toUInt8_bne (byte : UInt8) : (byte != 0).toUInt8 = if byte = 0 then 0 else 1 := by
  by_cases unset : byte = 0
  · subst unset
    rfl
  · have set : (byte != 0) = true := by simpa using unset
    rw [set, if_neg unset]
    rfl

namespace FrameSlot

theorem record_ofRecord (tag : UInt8) (r : Record) :
    (ofRecord r).record tag =
      Bytes.padded 80 (#v[tag, r[1], r[2], (r[3] != 0).toUInt8].toList ++
        (slice r 4 76 (by decide)).toList) := by
  have fields : (slice r 4 76 (by decide)).toList =
      (slice r 4 4 (by decide)).toList ++ ((slice r 8 4 (by decide)).toList ++
        ((slice r 12 4 (by decide)).toList ++ (slice r 16 64 (by decide)).toList)) := by
    rw [slice_append_slice, slice_append_slice, slice_append_slice]
  simp only [record, ofRecord, bytes32_word32, fields, List.append_assoc]
  rfl

/-- A frame that was read is written as it was, but for the value of a set echo byte. -/
theorem getElem_record_ofRecord {tag : UInt8} {r : Record} (tagged : r[0] = tag) {i : Nat}
    (inside : i < 80) :
    ((ofRecord r).record tag)[i] = if i = 3 ∧ r[i] ≠ 0 then 1 else r[i] := by
  simp only [record_ofRecord, getElem_padded_head]
  obtain rfl | rfl | rfl | rfl | later : i = 0 ∨ i = 1 ∨ i = 2 ∨ i = 3 ∨ 4 ≤ i := by omega
  · exact tagged.symm
  · rfl
  · rfl
  · change (r[3] != 0).toUInt8 = _
    rw [toUInt8_bne]
    by_cases unset : r[3] = 0 <;> simp [unset]
  · have head : ¬ i < 4 := Nat.not_lt.mpr later
    have noEcho : ¬ (i = 3 ∧ r[i] ≠ 0) := fun both => head (by omega)
    rw [dif_neg head, if_pos inside, if_neg noEcho]

end FrameSlot

namespace StatusSlot

theorem record_ofRecord (r : Record) :
    (ofRecord r).record =
      Bytes.padded 80 (#v[SlotTag.status, 0, r[2], r[3]].toList ++
        (slice r 4 12 (by decide)).toList) := by
  have fields : (slice r 4 12 (by decide)).toList =
      (slice r 4 4 (by decide)).toList ++ ((slice r 8 2 (by decide)).toList ++
        ((slice r 10 2 (by decide)).toList ++ (slice r 12 4 (by decide)).toList)) := by
    rw [slice_append_slice, slice_append_slice, slice_append_slice]
  simp only [record, ofRecord, bytes32_word32, bytes16_word16, fields, List.append_assoc]
  rfl

/-- A status that was read is written without what stood beyond its fields. -/
theorem getElem_record_ofRecord {r : Record} (tagged : r[0] = SlotTag.status) {i : Nat}
    (inside : i < 80) :
    (ofRecord r).record[i] = if i = 1 ∨ 16 ≤ i then 0 else r[i] := by
  simp only [record_ofRecord]
  exact getElem_padded_fields _ tagged inside

end StatusSlot

namespace ErrorSlot

theorem record_ofRecord (r : Record) :
    (ofRecord r).record =
      Bytes.padded 80 (#v[SlotTag.error, 0, r[2], r[3]].toList ++
        (slice r 4 4 (by decide)).toList) := by
  simp only [record, ofRecord, bytes32_word32]
  rfl

/-- An error that was read is written without what stood beyond its fields. -/
theorem getElem_record_ofRecord {r : Record} (tagged : r[0] = SlotTag.error) {i : Nat}
    (inside : i < 80) :
    (ofRecord r).record[i] = if i = 1 ∨ 8 ≤ i then 0 else r[i] := by
  simp only [record_ofRecord]
  exact getElem_padded_fields _ tagged inside

end ErrorSlot

namespace Slot

/-- A byte of a record in its canonical form: a set echo byte is one, and bytes that the kind of
slot does not use are zero. -/
def canonicalByte (s : Slot) (i : Nat) (byte : UInt8) : UInt8 :=
  match s with
  | rx _ | tx _ => if i = 3 ∧ byte ≠ 0 then 1 else byte
  | status _ => if i = 1 ∨ 16 ≤ i then 0 else byte
  | error _ => if i = 1 ∨ 8 ≤ i then 0 else byte

/-- The canonical form keeps the tag. -/
theorem canonicalByte_tag (s : Slot) (byte : UInt8) : s.canonicalByte 0 byte = byte := by
  cases s <;> simp [canonicalByte]

/-- No two slots have the same record. -/
theorem record_injective {s s' : Slot} (same : s.record = s'.record) : s = s' := by
  have read := ofRecord?_record s
  rw [same, ofRecord?_record] at read
  exact (Option.some.inj read).symm

/-- How a slot is read: by its tag, which is one of four. -/
theorem ofRecord?_cases (r : Record) :
    (ofRecord? r = none ∧
        r[0] ∉ [SlotTag.status, SlotTag.rx, SlotTag.tx, SlotTag.error]) ∨
      (∃ s, ofRecord? r = some s ∧ r[0] = s.tag ∧
        (s = rx (.ofRecord r) ∨ s = tx (.ofRecord r) ∨ s = status (.ofRecord r) ∨
          s = error (.ofRecord r))) := by
  simp only [ofRecord?]
  repeat' split
  · rename_i tag
    exact .inr ⟨_, rfl, tag, .inl rfl⟩
  · rename_i tag
    exact .inr ⟨_, rfl, tag, .inr (.inl rfl)⟩
  · rename_i tag
    exact .inr ⟨_, rfl, tag, .inr (.inr (.inl rfl))⟩
  · rename_i tag
    exact .inr ⟨_, rfl, tag, .inr (.inr (.inr rfl))⟩
  · simp_all

/-- A record with the tag of a slot is read as a slot of that kind. -/
theorem ofRecord?_of_tag {r : Record} {s : Slot} (tag : r[0] = s.tag) :
    ∃ s', ofRecord? r = some s' ∧ s'.canonicalByte = s.canonicalByte := by
  cases s with
  | rx => exact ⟨rx (.ofRecord r), by simp only [ofRecord?, tag]; rfl, rfl⟩
  | tx => exact ⟨tx (.ofRecord r), by simp only [ofRecord?, tag]; rfl, rfl⟩
  | status => exact ⟨status (.ofRecord r), by simp only [ofRecord?, tag]; rfl, rfl⟩
  | error => exact ⟨error (.ofRecord r), by simp only [ofRecord?, tag]; rfl, rfl⟩

/-- Writing a slot that was read gives the canonical form of the record. -/
theorem getElem_record_of_ofRecord? {r : Record} {s : Slot} (read : ofRecord? r = some s)
    {i : Nat} (inside : i < 80) : s.record[i] = s.canonicalByte i r[i] := by
  rcases ofRecord?_cases r with ⟨nothing, -⟩ | ⟨s', read', tag, kind⟩
  · rw [nothing] at read
    cases read
  · rw [read'] at read
    cases read
    rcases kind with rfl | rfl | rfl | rfl
    · exact FrameSlot.getElem_record_ofRecord tag inside
    · exact FrameSlot.getElem_record_ofRecord tag inside
    · exact StatusSlot.getElem_record_ofRecord tag inside
    · exact ErrorSlot.getElem_record_ofRecord tag inside

/-- A slot is read from the records whose canonical form is its own record. -/
theorem ofRecord?_eq_some_iff {r : Record} {s : Slot} :
    ofRecord? r = some s ↔ ∀ i (inside : i < 80), s.record[i] = s.canonicalByte i r[i] := by
  constructor
  · exact fun read i inside => getElem_record_of_ofRecord? read inside
  · intro canonical
    have tag : r[0] = s.tag := by
      have first := canonical 0 (by decide)
      rw [canonicalByte_tag] at first
      exact first.symm.trans s.getElem_record_tag
    obtain ⟨s', read, kind⟩ := ofRecord?_of_tag tag
    have same : s'.record = s.record := by
      apply Vector.ext
      intro i inside
      rw [canonical i inside, getElem_record_of_ofRecord? read inside, kind]
    rw [read, record_injective same]

theorem ofRecord?_eq_none_iff {r : Record} :
    ofRecord? r = none ↔ r[0] ∉ [SlotTag.status, SlotTag.rx, SlotTag.tx, SlotTag.error] := by
  rcases ofRecord?_cases r with ⟨nothing, other⟩ | ⟨s, read, tag, -⟩
  · exact iff_of_true nothing other
  · refine iff_of_false (by simp [read]) fun other => other ?_
    rw [tag]
    cases s <;> simp [Slot.tag]

/-- Of a byte string the first 80 bytes are read as a record. -/
theorem ofBytes_of_enough {b : Bytes} (enough : 80 ≤ b.length) :
    ∃ r : Record, r.toList = b.take 80 ∧ ofBytes b = .ok (ofRecord? r) := by
  have read : b.leading slotSize = .ok _ := dif_pos enough
  exact ⟨_, Bytes.toList_of_leading read, by rw [ofBytes, read, Except.map]⟩

theorem ofBytes_of_short {b : Bytes} (short : b.length < 80) :
    ofBytes b = .error (.shortMessage 80 b.length) := by
  have refused : b.leading slotSize = .error _ := dif_neg (Nat.not_le.mpr short)
  rw [ofBytes, refused, Except.map]

theorem ofBytes_take (b : Bytes) : ofBytes (b.take 80) = ofBytes b := by
  rcases Nat.lt_or_ge b.length 80 with short | enough
  · rw [List.take_of_length_le (Nat.le_of_lt short)]
  · have enough' : 80 ≤ (b.take 80).length := by
      rw [List.length_take]
      omega
    obtain ⟨r, bytes, read⟩ := ofBytes_of_enough enough
    obtain ⟨r', bytes', read'⟩ := ofBytes_of_enough enough'
    rw [List.take_take, Nat.min_self, ← bytes] at bytes'
    rw [read, read', Vector.toList_inj.mp bytes']

/-- The canonical form of the bytes of a record, byte by byte. -/
theorem toList_record_eq_iff {r : Record} {s : Slot} :
    s.record.toList = r.toList.mapIdx s.canonicalByte ↔
      ∀ i (inside : i < 80), s.record[i] = s.canonicalByte i r[i] := by
  constructor
  · intro same i inside
    have here := congrArg (·[i]?) same
    simpa [inside] using here
  · intro same
    apply List.ext_getElem
    · simp
    · intro i left right
      simpa using same i (by simpa using left)

/-- Slots are encoded without loss, in one canonical form each. A slot is read back from its record.
Of a byte string only the first 80 bytes are read: fewer are an error, a first byte that is not one
of the four tags is no slot, and any other 80 bytes are a slot, the one whose record is their
canonical form. -/
theorem format_is_canonical :
    (∀ s : Slot, ofBytes s.record.toList = .ok (some s)) ∧
      ∀ b : Bytes,
        (∀ e, ofBytes b = .error e ↔ b.length < 80 ∧ e = .shortMessage 80 b.length) ∧
        (ofBytes b = .ok none ↔
          80 ≤ b.length ∧ b.head? ∉ [some 1, some 2, some 3, some 4]) ∧
        (∀ s, ofBytes b = .ok (some s) ↔
          80 ≤ b.length ∧ s.record.toList = (b.take 80).mapIdx s.canonicalByte) ∧
        ofBytes (b.take 80) = ofBytes b := by
  refine ⟨ofBytes_record, fun b => ?_⟩
  refine ⟨?_, ?_, ?_, ofBytes_take b⟩
  all_goals rcases Nat.lt_or_ge b.length 80 with short | enough
  · simp [ofBytes_of_short short, short, eq_comm]
  · obtain ⟨r, -, read⟩ := ofBytes_of_enough enough
    simp [read, Nat.not_lt.mpr enough]
  · simp [ofBytes_of_short short, Nat.not_le.mpr short]
  · obtain ⟨r, bytes, read⟩ := ofBytes_of_enough enough
    have head : b.head? = some r[0] := by
      have first := congrArg List.head? bytes
      rw [List.head?_take, if_neg (by decide)] at first
      rw [← first]
      simp [List.head?_eq_getElem?]
    rw [read, head, Except.ok.injEq, ofRecord?_eq_none_iff]
    simp [enough, SlotTag.status, SlotTag.rx, SlotTag.tx, SlotTag.error]
  · simp [ofBytes_of_short short, Nat.not_le.mpr short]
  · intro s
    obtain ⟨r, bytes, read⟩ := ofBytes_of_enough enough
    rw [read, ← bytes, toList_record_eq_iff, ← ofRecord?_eq_some_iff]
    simp [enough]

end Slot

end CanLink
