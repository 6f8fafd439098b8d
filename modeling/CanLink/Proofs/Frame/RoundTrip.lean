import CanLink.Frame.Codec
import CanLink.Proofs.Slot.RoundTrip
import Mathlib.Algebra.Group.Nat.Defs

/-!
Frames through slots and back. `Frame.IsCarriable` says, field by field, which frames a bus can
carry; these are the frames that `encode` accepts (`encode_of_carriable`, `carriable_of_encode`).
What `decode` makes of an accepted frame is the frame itself, without the flags of its delivery and
without the bytes beyond its payload (`decode_slot`), however the slot travelled.
-/

namespace CanLink

namespace Payload

/-- The lengths that have a code: all up to eight bytes, and seven longer ones. -/
def HasCode (length : Nat) : Prop := length ≤ 8 ∨ length ∈ [12, 16, 20, 24, 32, 48, 64]

theorem isSome_code?_iff {length : Nat} : (code? length).isSome = true ↔ HasCode length := by
  rw [code?, Option.isSome_map, List.findIdx?_isSome, HasCode]
  simp [lengths, Vector.toList]
  omega

/-- A code stands for the length that it was looked up for. -/
theorem length_of_code?_eq_some {n : Nat} {code : UInt8} (found : code? n = some code) :
    length code = n := by
  rw [code?, Option.map_eq_some_iff] at found
  obtain ⟨i, position, rfl⟩ := found
  obtain ⟨inside, holds, -⟩ := List.findIdx?_eq_some_iff_getElem.mp position
  have bound : i < 16 := by simpa using inside
  have same : i.toUInt8.toNat % 16 = i := by
    simp only [Nat.toUInt8_eq, UInt8.toNat_ofNat']
    omega
  have entry : lengths[i] = n := by simpa using holds
  simp only [length, same, entry]

theorem HasCode.le_maxLength {length : Nat} (coded : HasCode length) : length ≤ maxLength := by
  rcases coded with short | long
  · exact Nat.le_trans short (by decide)
  · revert length
    decide

end Payload

/-- Bits outside a mask do not matter to a flag inside it. -/
theorem hasFlag_and {mask flag : UInt8} (inside : mask &&& flag = flag) (flags : UInt8) :
    hasFlag (flags &&& mask) flag = hasFlag flags flag := by
  rw [hasFlag, UInt8.and_assoc, inside, hasFlag]

namespace Frame

theorem getElem_cut (length : Nat) (data : PayloadBytes) {i : Nat} (inside : i < 64) :
    (cut length data)[i] = if i < length then data[i] else 0 := by
  simp [cut]

@[simp] theorem cut_cut (length : Nat) (data : PayloadBytes) :
    cut length (cut length data) = cut length data := by
  apply Vector.ext
  intro i inside
  rw [getElem_cut, getElem_cut]
  split <;> rfl

/-- Cutting a payload keeps the bytes in front of the cut. -/
theorem take_cut (length : Nat) (data : PayloadBytes) :
    (cut length data).toList.take length = data.toList.take length := by
  apply List.ext_getElem
  · simp
  · intro i left right
    simp only [List.length_take, Vector.length_toList, Nat.lt_min] at left
    simp [getElem_cut, left.1]

/-- Number of bits of an identifier. -/
def identifierBits (isExtended : Bool) : Nat := if isExtended then 29 else 11

theorem toNat_identifierMask (isExtended : Bool) :
    (identifierMask isExtended).toNat = 2 ^ identifierBits isExtended - 1 := by
  cases isExtended <;> rfl

theorem identifierMask_lt_iff {isExtended : Bool} {identifier : UInt32} :
    identifierMask isExtended < identifier ↔ 2 ^ identifierBits isExtended ≤ identifier.toNat := by
  have positive := Nat.two_pow_pos (identifierBits isExtended)
  rw [UInt32.lt_iff_toNat_lt, toNat_identifierMask]
  omega

/-- An identifier that fits its format is not changed by the mask of the format. -/
theorem and_identifierMask {isExtended : Bool} {identifier : UInt32}
    (fits : identifier.toNat < 2 ^ identifierBits isExtended) :
    identifier &&& identifierMask isExtended = identifier := by
  apply UInt32.toNat_inj.mp
  rw [UInt32.toNat_and, toNat_identifierMask, Nat.and_two_pow_sub_one_eq_mod]
  exact Nat.mod_eq_of_lt fits

/-- A frame that a bus can carry. -/
structure IsCarriable (f : Frame) : Prop where
  identifier : f.identifier.toNat < 2 ^ identifierBits f.isExtended
  /-- CAN-FD has no remote requests. -/
  request : ¬ (f.isRemote = true ∧ f.isFd = true)
  fdFlags : f.isFd = false → f.switchesBitRate = false ∧ f.isErrorPassive = false
  classic : f.isFd = false → f.length ≤ 8
  coded : Payload.HasCode f.length

/-- The payload that a frame is sent with. A remote request has none, whatever its buffer holds. -/
def sentData (f : Frame) : PayloadBytes := if f.isRemote then zeros _ else cut f.length f.data

/-- The slot of a frame whose length has the given code. -/
def slot (f : Frame) (code : UInt8) : FrameSlot :=
  { FrameSlot.blank with
    identifier := f.identifier
    code
    flags := f.flags &&& FrameFlag.ofFrame
    data := f.sentData }

theorem carriable_of_encode {f : Frame} {s : FrameSlot} (encoded : f.encode = .ok s) :
    f.IsCarriable ∧ ∃ code, Payload.code? f.length = some code ∧ s = f.slot code := by
  rw [encode] at encoded
  split at encoded
  · cases encoded
  rename_i identifier
  split at encoded
  · cases encoded
  rename_i request
  split at encoded
  · cases encoded
  rename_i fdFlags
  split at encoded
  · cases encoded
  rename_i classic
  cases coded : Payload.code? f.length with
  | none =>
      rw [coded] at encoded
      cases encoded
  | some code =>
      rw [coded] at encoded
      cases encoded
      refine ⟨⟨?_, ?_, ?_, ?_, ?_⟩, code, rfl, rfl⟩
      · exact Nat.not_le.mp (mt identifierMask_lt_iff.mpr identifier)
      · simpa using request
      · intro isClassic
        simpa [isClassic] using fdFlags
      · intro isClassic
        rw [isClassic, Bool.not_false, Bool.true_and, decide_eq_true_iff] at classic
        exact Nat.not_lt.mp classic
      · rw [← Payload.isSome_code?_iff, coded]
        rfl

/-- A slot has CAN-FD format exactly if its frame has. -/
theorem hasFlag_fd_of_encode {f : Frame} {s : FrameSlot} (encoded : f.encode = .ok s) :
    hasFlag s.flags FrameFlag.fd = f.isFd := by
  obtain ⟨-, code, -, rfl⟩ := carriable_of_encode encoded
  exact hasFlag_and rfl f.flags

theorem encode_of_carriable {f : Frame} (carriable : f.IsCarriable) :
    ∃ code, Payload.code? f.length = some code ∧ f.encode = .ok (f.slot code) := by
  obtain ⟨code, coded⟩ := Option.isSome_iff_exists.mp
    (Payload.isSome_code?_iff.mpr carriable.coded)
  refine ⟨code, coded, ?_⟩
  rw [encode, if_neg, if_neg, if_neg, if_neg, coded]
  · rfl
  · intro long
    rw [Bool.and_eq_true, Bool.not_eq_true', decide_eq_true_iff] at long
    exact absurd (carriable.classic long.1) (Nat.not_le.mpr long.2)
  · intro flagged
    rw [Bool.and_eq_true, Bool.not_eq_true', Bool.or_eq_true] at flagged
    obtain ⟨isClassic, flagged⟩ := flagged
    obtain ⟨noSwitch, noIndicator⟩ := carriable.fdFlags isClassic
    rw [noSwitch, noIndicator] at flagged
    rcases flagged with switch | indicator
    · cases switch
    · cases indicator
  · rw [Bool.and_eq_true]
    exact carriable.request
  · rw [identifierMask_lt_iff]
    exact Nat.not_le.mpr carriable.identifier

/-- A frame as it arrives: with a timestamp, without the flags of its delivery and without the
bytes beyond its payload. -/
def arrived (f : Frame) (timestamp : UInt64) : Frame :=
  { f with flags := f.flags &&& FrameFlag.ofFrame, data := f.sentData, timestamp }

/-- The slot of a carriable frame holds all of the frame. -/
theorem decode_slot {f : Frame} {code : UInt8} (carriable : f.IsCarriable)
    (coded : Payload.code? f.length = some code) (t : Clock.Tracker) :
    (decode (f.slot code) t).1 = f.arrived (t.track 0).1 := by
  have flags : (f.flags &&& FrameFlag.ofFrame) &&& FrameFlag.ofFrame =
      f.flags &&& FrameFlag.ofFrame := by
    rw [UInt8.and_assoc, UInt8.and_self]
  have extended : hasFlag (f.flags &&& FrameFlag.ofFrame) FrameFlag.extended = f.isExtended :=
    hasFlag_and rfl f.flags
  have remote : hasFlag (f.flags &&& FrameFlag.ofFrame) FrameFlag.remote = f.isRemote :=
    hasFlag_and rfl f.flags
  have fd : hasFlag (f.flags &&& FrameFlag.ofFrame) FrameFlag.fd = f.isFd :=
    hasFlag_and rfl f.flags
  have identifier := and_identifierMask carriable.identifier
  have length : (if f.isFd = true then f.length else min f.length Payload.classicMaxLength) =
      f.length := by
    cases format : f.isFd with
    | false => exact Nat.min_eq_left (carriable.classic format)
    | true => rfl
  have data : (if f.isRemote = true then zeros _ else cut f.length f.sentData) = f.sentData := by
    rw [sentData]
    by_cases request : f.isRemote = true
    · simp only [if_pos request]
    · simp only [if_neg request, cut_cut]
  simp only [decode, slot, flags, extended, remote, fd, identifier,
    Payload.length_of_code?_eq_some coded, length, data, FrameSlot.blank, arrived]

@[simp] theorem isRemote_arrived (f : Frame) (timestamp : UInt64) :
    (f.arrived timestamp).isRemote = f.isRemote :=
  hasFlag_and rfl f.flags

theorem payload_arrived (f : Frame) (timestamp : UInt64) :
    (f.arrived timestamp).payload = f.payload := by
  rw [payload, payload, isRemote_arrived]
  cases request : f.isRemote with
  | true => rfl
  | false =>
      have data : (f.arrived timestamp).data = cut f.length f.data := by
        rw [arrived, sentData, request]
        rfl
      rw [data]
      exact take_cut f.length f.data

/-- Nothing is sent behind the payload. -/
theorem getElem_sentData_beyond (f : Frame) {i : Nat} (inside : i < 64)
    (beyond : f.payload.length ≤ i) : f.sentData[i] = 0 := by
  rw [payload] at beyond
  cases request : f.isRemote with
  | true => simp [sentData, request, zeros]
  | false =>
      rw [request, if_neg Bool.false_ne_true, List.length_take, Vector.length_toList] at beyond
      have outside : ¬ i < f.length := by omega
      simp [sentData, request, getElem_cut, outside]

/-- Nothing stands in the buffer of an arrived frame behind its payload. -/
theorem data_arrived_beyond (f : Frame) (timestamp : UInt64) {i : Nat} (inside : i < 64)
    (beyond : (f.arrived timestamp).payload.length ≤ i) : (f.arrived timestamp).data[i] = 0 := by
  rw [payload_arrived] at beyond
  exact f.getElem_sentData_beyond inside beyond

/-- Frame `g` is frame `f` as a receiver sees it: nothing of the frame is lost, and nothing comes
with it that is not part of it. -/
structure ArrivesAs (f g : Frame) : Prop where
  identifier : g.identifier = f.identifier
  flags : g.flags = f.flags &&& FrameFlag.ofFrame
  length : g.length = f.length
  payload : g.payload = f.payload
  clean : ∀ i (inside : i < 64), g.payload.length ≤ i → g.data[i] = 0

/-- Exactly the frames that a bus can carry are encoded, with all their bytes taken from inside the
buffer. A slot holds no flag but those of the frame and no payload of a remote request, and read
back from its bytes, as either kind of frame slot and with any clock, it gives the frame again. -/
theorem codec_carries_frames (f : Frame) :
    ((∃ s, f.encode = .ok s) ↔ f.IsCarriable) ∧
      (¬ f.IsCarriable → ∃ fault, f.encode = .error fault) ∧
      ∀ s, f.encode = .ok s →
        f.length ≤ Payload.maxLength ∧
        s.flags &&& ~~~FrameFlag.ofFrame = 0 ∧
        (f.isRemote = true → s.data = zeros _) ∧
        ∀ kind : FrameSlot → Slot, kind = .rx ∨ kind = .tx →
          Slot.ofBytes (kind s).record.toList = .ok (some (kind s)) ∧
            ∀ t, f.ArrivesAs (decode s t).1 := by
  refine ⟨⟨?_, ?_⟩, ?_, ?_⟩
  · rintro ⟨s, encoded⟩
    exact (carriable_of_encode encoded).1
  · intro carriable
    obtain ⟨code, -, encoded⟩ := encode_of_carriable carriable
    exact ⟨f.slot code, encoded⟩
  · intro notCarriable
    cases encoded : f.encode with
    | error fault => exact ⟨fault, rfl⟩
    | ok s => exact absurd (carriable_of_encode encoded).1 notCarriable
  · intro s encoded
    obtain ⟨carriable, code, coded, rfl⟩ := carriable_of_encode encoded
    refine ⟨carriable.coded.le_maxLength, ?_, ?_, ?_⟩
    · have outside : FrameFlag.ofFrame &&& ~~~FrameFlag.ofFrame = 0 := rfl
      rw [slot, UInt8.and_assoc, outside, UInt8.and_zero]
    · intro request
      rw [slot, sentData, if_pos request]
    · intro kind _
      refine ⟨Slot.ofBytes_record _, ?_⟩
      intro t
      rw [decode_slot carriable coded]
      exact ⟨rfl, rfl, rfl, payload_arrived f _, fun i => data_arrived_beyond f _⟩

/-- A frame with the longest identifier, out of a buffer that is full of other bytes, and with flags
that are not its own. -/
def crowded : Frame := ⟨0x1FFFFFFF, 0xED, 12, Vector.replicate 64 0xAA, 7⟩

theorem codec_carries_crowded_frame :
    crowded.encode = .ok (crowded.slot 9) ∧ (crowded.slot 9).flags = 0x0D ∧
      Slot.ofBytes (Slot.rx (crowded.slot 9)).record.toList = .ok (some (.rx (crowded.slot 9))) ∧
      (decode (crowded.slot 9) .fresh).1.payload = List.replicate 12 0xAA ∧
      crowded.ArrivesAs (decode (crowded.slot 9) .fresh).1 := by
  have encoded : crowded.encode = .ok (crowded.slot 9) := by rfl
  obtain ⟨-, -, -, travels⟩ := (codec_carries_frames crowded).2.2 (crowded.slot 9) encoded
  obtain ⟨read, arrives⟩ := travels .rx (.inl rfl)
  refine ⟨encoded, by rfl, read, ?_, arrives .fresh⟩
  rw [(arrives .fresh).payload]
  rfl

end Frame

end CanLink
