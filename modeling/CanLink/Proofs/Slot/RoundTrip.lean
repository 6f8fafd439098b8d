import CanLink.Slot.Layout

/-!
Reading a written slot. A record is a padded list of fields, and each field is read from the place
where the list has it, so every slot is read back as it was written.
-/

namespace CanLink

open LittleEndian

namespace Bytes

theorem getElem_padded {n : Nat} (bytes : Bytes) (i : Nat) (inside : i < n) :
    (padded n bytes)[i] = bytes[i]?.getD 0 := by
  simp [padded]

/-- A message is read whole. -/
theorem leading_toList {n : Nat} (message : Vector UInt8 n) :
    leading n message.toList = .ok message := by
  have enough : n ≤ message.toList.length := by simp
  rw [leading, dif_pos enough]
  congr 1
  apply Vector.ext
  intro i inside
  simp

end Bytes

/-- A field is read back from where it stands in a padded message; what follows it does not
matter. -/
theorem slice_padded {n k start : Nat} {bytes : Bytes} (field : Vector UInt8 k) (rest : Bytes)
    (fits : start + k ≤ n) (placed : bytes.drop start = field.toList ++ rest) :
    slice (Bytes.padded n bytes) start k fits = field := by
  apply Vector.ext
  intro i inside
  have here : bytes[start + i]? = some field[i] := by
    rw [← List.getElem?_drop, placed, List.getElem?_append_left (by simpa using inside)]
    simp [inside]
  simp [slice, Bytes.getElem_padded, here]

/-- A flag is stored as one byte that is zero or not. -/
theorem toUInt8_bne_zero (b : Bool) : (b.toUInt8 != 0) = b := by
  cases b <;> rfl

theorem FrameSlot.ofRecord_record (tag : UInt8) (s : FrameSlot) :
    ofRecord (s.record tag) = s := by
  have timestamp : slice (s.record tag) SlotOffset.timestamp 4 (by decide) = bytes32 s.timestamp :=
    slice_padded _ _ _ rfl
  have identifier : slice (s.record tag) SlotOffset.identifier 4 (by decide) =
      bytes32 s.identifier := slice_padded _ _ _ rfl
  have trackId : slice (s.record tag) SlotOffset.trackId 4 (by decide) = bytes32 s.trackId :=
    slice_padded _ _ _ rfl
  have data : slice (s.record tag) SlotOffset.data 64 (by decide) = s.data :=
    slice_padded _ [] _ (List.append_nil _).symm
  have echo : (s.record tag)[SlotOffset.info] = s.echo.toUInt8 := by
    simp [record, Bytes.getElem_padded]
  simp only [ofRecord, timestamp, identifier, trackId, data, echo, word32_bytes32,
    toUInt8_bne_zero]
  simp [record, Bytes.getElem_padded]

theorem StatusSlot.ofRecord_record (s : StatusSlot) : ofRecord s.record = s := by
  have timestamp : slice s.record SlotOffset.timestamp 4 (by decide) = bytes32 s.timestamp :=
    slice_padded _ _ _ rfl
  have rxLost : slice s.record 8 2 (by decide) = bytes16 s.rxLost := slice_padded _ _ _ rfl
  have txDropped : slice s.record 10 2 (by decide) = bytes16 s.txDropped := slice_padded _ _ _ rfl
  simp only [ofRecord, timestamp, rxLost, txDropped, word32_bytes32, word16_bytes16]
  simp [record, Bytes.getElem_padded]

theorem ErrorSlot.ofRecord_record (s : ErrorSlot) : ofRecord s.record = s := by
  have timestamp : slice s.record SlotOffset.timestamp 4 (by decide) = bytes32 s.timestamp :=
    slice_padded _ [] _ rfl
  simp only [ofRecord, timestamp, word32_bytes32]
  simp [record, Bytes.getElem_padded]

namespace Slot

/-- A record begins with the tag of its slot. -/
theorem getElem_record_tag (s : Slot) : s.record[SlotOffset.tag] = s.tag := by
  cases s <;> simp [record, tag, FrameSlot.record, StatusSlot.record, ErrorSlot.record,
    Bytes.getElem_padded]

/-- Every slot is read back from its record. -/
@[simp] theorem ofRecord?_record (s : Slot) : ofRecord? s.record = some s := by
  simp only [ofRecord?, getElem_record_tag]
  cases s with
  | rx s => exact congrArg (some ∘ rx) (FrameSlot.ofRecord_record SlotTag.rx s)
  | tx s => exact congrArg (some ∘ tx) (FrameSlot.ofRecord_record SlotTag.tx s)
  | status s => exact congrArg (some ∘ status) (StatusSlot.ofRecord_record s)
  | error s => exact congrArg (some ∘ error) (ErrorSlot.ofRecord_record s)

theorem ofBytes_record (s : Slot) : ofBytes s.record.toList = .ok (some s) := by
  rw [ofBytes, Bytes.leading_toList, Except.map, ofRecord?_record]

end Slot

end CanLink
