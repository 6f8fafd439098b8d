import CanLink.Proofs.Frame.RoundTrip

/-!
Frame slots in normal form. A peer may leave anything in a slot: high bits in the length code, a
long length in a classic frame, flags of the delivery, bytes behind the payload. `FrameSlot.normal`
is the slot without all this, and a slot is decoded as what its normal form says (`decode_eq`).
Encoding the frame gives the normal form back, unless flags were set that do not go together; that
is the only thing which decoding accepts and encoding refuses (`isCarriable_frame_iff`).
-/

namespace CanLink

namespace Payload

/-- The code of a coded length is the low half of the code. -/
theorem code?_length (code : UInt8) :
    code? (length code) = some (UInt8.ofNat (code.toNat % 16)) := by
  have every : ∀ i : Fin 16, code? lengths[i] = some (UInt8.ofNat i) := by decide
  exact every ⟨code.toNat % 16, Nat.mod_lt _ (by decide)⟩

theorem hasCode_length (code : UInt8) : HasCode (length code) := by
  rw [← isSome_code?_iff, code?_length]
  rfl

/-- Limiting a coded length to eight bytes is limiting its code to eight. -/
theorem min_length (code : UInt8) :
    min (length code) classicMaxLength = length (UInt8.ofNat (min (code.toNat % 16) 8)) := by
  have every : ∀ i : Fin 16,
      min lengths[i] classicMaxLength = length (UInt8.ofNat (min i.val 8)) := by decide
  exact every ⟨code.toNat % 16, Nat.mod_lt _ (by decide)⟩

theorem length_low (code : UInt8) : length (UInt8.ofNat (code.toNat % 16)) = length code := by
  have every : ∀ i : Fin 16, length (UInt8.ofNat i) = lengths[i] := by decide
  exact every ⟨code.toNat % 16, Nat.mod_lt _ (by decide)⟩

end Payload

namespace FrameSlot

/-- The low half of the length code, and at most eight for a classic frame. -/
def normalCode (s : FrameSlot) : UInt8 :=
  let low := s.code.toNat % 16
  UInt8.ofNat (if hasFlag s.flags FrameFlag.fd then low else min low 8)

/-- The slot with nothing in it but a frame: an identifier as long as its format has it, a code that
fits the format, the flags of the frame, and a payload that ends where the length says. -/
def normal (s : FrameSlot) : FrameSlot where
  timestamp := 0
  identifier := UInt32.ofNat
    (s.identifier.toNat % 2 ^ Frame.identifierBits (hasFlag s.flags FrameFlag.extended))
  code := s.normalCode
  flags := s.flags &&& FrameFlag.ofFrame
  echo := false
  trackId := 0
  data := Bytes.padded _
    (if hasFlag s.flags FrameFlag.remote then []
      else s.data.toList.take (Payload.length s.normalCode))

/-- Flags that do not go together: a remote request in CAN-FD format, or a flag of CAN-FD frames on
a classic one. -/
def Contradictory (s : FrameSlot) : Prop :=
  hasFlag s.flags FrameFlag.remote = true ∧ hasFlag s.flags FrameFlag.fd = true ∨
    hasFlag s.flags FrameFlag.fd = false ∧
      (hasFlag s.flags FrameFlag.bitRateSwitch = true ∨
        hasFlag s.flags FrameFlag.errorStateIndicator = true)

instance (s : FrameSlot) : Decidable s.Contradictory := inferInstanceAs (Decidable (_ ∨ _))

/-- The frame that a slot in normal form says. -/
def frame (s : FrameSlot) (timestamp : UInt64) : Frame :=
  ⟨s.identifier, s.flags, Payload.length s.code, s.data, timestamp⟩

variable (s : FrameSlot)

theorem length_normalCode :
    Payload.length s.normalCode =
      if hasFlag s.flags FrameFlag.fd then Payload.length s.code
      else min (Payload.length s.code) Payload.classicMaxLength := by
  rw [normalCode]
  cases hasFlag s.flags FrameFlag.fd with
  | true => exact Payload.length_low s.code
  | false => exact (Payload.min_length s.code).symm

theorem length_normalCode_of_classic (classic : hasFlag s.flags FrameFlag.fd = false) :
    Payload.length s.normalCode ≤ 8 := by
  rw [length_normalCode, classic]
  exact Nat.min_le_right ..

end FrameSlot

namespace Frame

theorem cut_eq_padded (length : Nat) (data : PayloadBytes) :
    cut length data = Bytes.padded _ (data.toList.take length) := by
  apply Vector.ext
  intro i inside
  rw [getElem_cut length data inside, Bytes.getElem_padded]
  by_cases before : i < length
  · rw [if_pos before, List.getElem?_take_of_lt before]
    simp [inside]
  · rw [if_neg before, List.getElem?_take_eq_none (Nat.not_lt.mp before)]
    rfl

theorem zeros_eq_padded : zeros 64 = Bytes.padded _ [] := by
  apply Vector.ext
  intro i inside
  simp [zeros, Bytes.getElem_padded]

/-- The mask of a format leaves the low bits of an identifier. -/
theorem and_identifierMask_eq (isExtended : Bool) (identifier : UInt32) :
    identifier &&& identifierMask isExtended =
      UInt32.ofNat (identifier.toNat % 2 ^ identifierBits isExtended) := by
  have small : identifier.toNat % 2 ^ identifierBits isExtended < 2 ^ 32 :=
    Nat.lt_of_le_of_lt (Nat.mod_le ..) identifier.toNat_lt
  apply UInt32.toNat_inj.mp
  rw [UInt32.toNat_and, toNat_identifierMask, Nat.and_two_pow_sub_one_eq_mod, UInt32.toNat_ofNat',
    Nat.mod_eq_of_lt small]

end Frame

open CanLink.Frame

namespace FrameSlot

variable (s : FrameSlot)

theorem data_normal :
    s.normal.data = if hasFlag s.flags FrameFlag.remote then zeros _
      else cut (Payload.length s.normalCode) s.data := by
  rw [normal]
  cases hasFlag s.flags FrameFlag.remote with
  | true => exact zeros_eq_padded.symm
  | false => exact (cut_eq_padded ..).symm

/-- A slot is decoded as what its normal form says. -/
theorem decode_eq (t : Clock.Tracker) :
    (decode s t).1 = s.normal.frame (t.track s.timestamp).1 := by
  have extended : hasFlag (s.flags &&& FrameFlag.ofFrame) FrameFlag.extended =
      hasFlag s.flags FrameFlag.extended := hasFlag_and rfl s.flags
  have remote : hasFlag (s.flags &&& FrameFlag.ofFrame) FrameFlag.remote =
      hasFlag s.flags FrameFlag.remote := hasFlag_and rfl s.flags
  have fd : hasFlag (s.flags &&& FrameFlag.ofFrame) FrameFlag.fd =
      hasFlag s.flags FrameFlag.fd := hasFlag_and rfl s.flags
  have data := s.data_normal
  simp only [decode, extended, remote, fd, and_identifierMask_eq, ← length_normalCode, ← data]
  rfl

/-! ### The normal form -/

theorem hasFlag_normal {flag : UInt8} (inside : FrameFlag.ofFrame &&& flag = flag) :
    hasFlag s.normal.flags flag = hasFlag s.flags flag := hasFlag_and inside s.flags

theorem toNat_normalCode :
    s.normalCode.toNat =
      if hasFlag s.flags FrameFlag.fd then s.code.toNat % 16 else min (s.code.toNat % 16) 8 := by
  rw [normalCode, UInt8.toNat_ofNat']
  split <;> omega

theorem identifier_normal :
    s.normal.identifier =
      s.identifier &&& identifierMask (hasFlag s.flags FrameFlag.extended) :=
  (and_identifierMask_eq ..).symm

theorem normalCode_normal : s.normal.normalCode = s.normalCode := by
  apply UInt8.toNat_inj.mp
  have code : s.normal.code.toNat = _ := s.toNat_normalCode
  rw [toNat_normalCode, toNat_normalCode, code, s.hasFlag_normal rfl]
  split <;> omega

/-- A normal form is its own normal form. -/
theorem normal_normal : s.normal.normal = s.normal := by
  have identifier : s.normal.normal.identifier = s.normal.identifier := by
    rw [identifier_normal, s.hasFlag_normal rfl, identifier_normal, UInt32.and_assoc,
      UInt32.and_self]
  have flags : s.normal.normal.flags = s.normal.flags := by
    change s.flags &&& FrameFlag.ofFrame &&& FrameFlag.ofFrame = s.flags &&& FrameFlag.ofFrame
    rw [UInt8.and_assoc, UInt8.and_self]
  have data : s.normal.normal.data = s.normal.data := by
    rw [data_normal, s.hasFlag_normal rfl, normalCode_normal, data_normal]
    split
    · rfl
    · exact cut_cut ..
  have code : s.normal.normal.code = s.normal.code := s.normalCode_normal
  have fields (n : FrameSlot) : n.normal =
      ⟨0, n.normal.identifier, n.normal.code, n.normal.flags, false, 0, n.normal.data⟩ := rfl
  rw [fields s.normal, identifier, code, flags, data]
  rfl

theorem identifier_normal_lt :
    s.normal.identifier.toNat <
      2 ^ identifierBits (hasFlag s.flags FrameFlag.extended) := by
  rw [identifier_normal, UInt32.toNat_and, toNat_identifierMask, Nat.and_two_pow_sub_one_eq_mod]
  exact Nat.mod_lt _ (Nat.two_pow_pos _)

/-! ### The frame of a slot -/

section

variable (timestamp : UInt64)

theorem isExtended_frame :
    (s.normal.frame timestamp).isExtended = hasFlag s.flags FrameFlag.extended :=
  s.hasFlag_normal rfl

theorem isRemote_frame :
    (s.normal.frame timestamp).isRemote = hasFlag s.flags FrameFlag.remote :=
  s.hasFlag_normal rfl

theorem isFd_frame : (s.normal.frame timestamp).isFd = hasFlag s.flags FrameFlag.fd :=
  s.hasFlag_normal rfl

theorem switchesBitRate_frame :
    (s.normal.frame timestamp).switchesBitRate = hasFlag s.flags FrameFlag.bitRateSwitch :=
  s.hasFlag_normal rfl

theorem isErrorPassive_frame :
    (s.normal.frame timestamp).isErrorPassive = hasFlag s.flags FrameFlag.errorStateIndicator :=
  s.hasFlag_normal rfl

/-- A frame that was decoded can be sent unless its flags contradict each other. -/
theorem isCarriable_frame_iff :
    (s.normal.frame timestamp).IsCarriable ↔ ¬ s.Contradictory := by
  constructor
  · rintro ⟨-, request, fdFlags, -, -⟩ (⟨remote, fd⟩ | ⟨classic, flagged⟩)
    · rw [isRemote_frame, isFd_frame] at request
      exact request ⟨remote, fd⟩
    · rw [isFd_frame, switchesBitRate_frame, isErrorPassive_frame] at fdFlags
      obtain ⟨noSwitch, noIndicator⟩ := fdFlags classic
      rw [noSwitch, noIndicator] at flagged
      rcases flagged with switch | indicator
      · cases switch
      · cases indicator
  · intro consistent
    constructor
    · rw [isExtended_frame]
      exact s.identifier_normal_lt
    · rw [isRemote_frame, isFd_frame]
      exact fun both => consistent (.inl both)
    · rw [isFd_frame, switchesBitRate_frame, isErrorPassive_frame]
      intro classic
      rw [← Bool.not_eq_true, ← Bool.not_eq_true]
      exact ⟨fun switch => consistent (.inr ⟨classic, .inl switch⟩),
        fun indicator => consistent (.inr ⟨classic, .inr indicator⟩)⟩
    · rw [isFd_frame]
      exact s.length_normalCode_of_classic
    · exact Payload.hasCode_length _

theorem sentData_frame : (s.normal.frame timestamp).sentData = s.normal.data := by
  rw [sentData, isRemote_frame]
  change (if _ then _ else cut (Payload.length s.normalCode) s.normal.data) = _
  rw [data_normal]
  split
  · rfl
  · exact cut_cut ..

/-- The slot of the frame is the normal form. -/
theorem slot_frame : (s.normal.frame timestamp).slot s.normalCode = s.normal := by
  have flags : s.normal.flags &&& FrameFlag.ofFrame = s.normal.flags :=
    congrArg flags s.normal_normal
  rw [slot, sentData_frame]
  change FrameSlot.mk 0 _ _ (s.normal.flags &&& FrameFlag.ofFrame) false 0 _ = _
  rw [flags]
  rfl

theorem encode_frame (consistent : ¬ s.Contradictory) :
    (s.normal.frame timestamp).encode = .ok s.normal := by
  obtain ⟨code, coded, encoded⟩ :=
    encode_of_carriable ((s.isCarriable_frame_iff timestamp).mpr consistent)
  have low : s.normalCode.toNat % 16 = s.normalCode.toNat := by
    rw [toNat_normalCode]
    split <;> omega
  have same : code = s.normalCode := by
    have found := Payload.code?_length s.normalCode
    rw [low, UInt8.ofNat_toNat] at found
    exact Option.some.inj (coded.symm.trans found)
  rw [encoded, same, slot_frame]

theorem encode_frame_eq_error_iff :
    (∃ fault, (s.normal.frame timestamp).encode = .error fault) ↔ s.Contradictory := by
  constructor
  · rintro ⟨fault, refused⟩
    by_cases contradictory : s.Contradictory
    · exact contradictory
    · rw [s.encode_frame timestamp contradictory] at refused
      cases refused
  · intro contradictory
    cases encoded : (s.normal.frame timestamp).encode with
    | error fault => exact ⟨fault, rfl⟩
    | ok slot =>
        have carriable := (carriable_of_encode encoded).1
        exact absurd contradictory ((s.isCarriable_frame_iff timestamp).mp carriable)

/-- Nothing stands in the buffer of the frame behind its payload. -/
theorem data_frame_beyond {i : Nat} (inside : i < 64)
    (beyond : (s.normal.frame timestamp).payload.length ≤ i) :
    (s.normal.frame timestamp).data[i] = 0 := by
  have cleared := (s.normal.frame timestamp).getElem_sentData_beyond inside beyond
  simp only [sentData_frame] at cleared
  exact cleared

end

/-- Decoding normalises. Whatever a slot holds, its frame has a length and an identifier that fit
the format, the flags of a frame only, and nothing behind its payload. Encoding the frame is refused
exactly if the flags of the slot contradict each other; otherwise it gives the normal form of the
slot. The normal form is decoded as the same frame, but for the timestamp. -/
theorem decode_normalises (t : Clock.Tracker) :
    let f := (decode s t).1
    f.length = Payload.length s.normalCode ∧ f.length ≤ 64 ∧ (f.isFd = false → f.length ≤ 8) ∧
      f.identifier.toNat < 2 ^ identifierBits f.isExtended ∧
      f.flags &&& ~~~FrameFlag.ofFrame = 0 ∧
      (∀ i (inside : i < 64), f.payload.length ≤ i → f.data[i] = 0) ∧
      ((∃ fault, f.encode = .error fault) ↔ s.Contradictory) ∧
      (¬ s.Contradictory → f.encode = .ok s.normal) ∧
      ∀ later, { (decode s.normal later).1 with timestamp := f.timestamp } = f := by
  intro f
  have frame : f = s.normal.frame (t.track s.timestamp).1 := s.decode_eq t
  rw [frame]
  refine ⟨rfl, Payload.length_le_maxLength _, ?_, ?_, ?_, ?_, ?_, ?_, ?_⟩
  · rw [isFd_frame]
    exact s.length_normalCode_of_classic
  · rw [isExtended_frame]
    exact s.identifier_normal_lt
  · have outside : FrameFlag.ofFrame &&& ~~~FrameFlag.ofFrame = 0 := rfl
    change s.flags &&& FrameFlag.ofFrame &&& ~~~FrameFlag.ofFrame = 0
    rw [UInt8.and_assoc, outside, UInt8.and_zero]
  · intro i inside beyond
    exact s.data_frame_beyond _ inside beyond
  · exact s.encode_frame_eq_error_iff _
  · intro consistent
    exact s.encode_frame _ consistent
  · intro later
    rw [decode_eq, normal_normal]
    rfl

/-- The slot of a classic frame as a careless peer may leave it: an identifier with more bits than
its format, the code of twelve bytes with its high half set, a flag of the delivery, and bytes all
over the payload. -/
def stray : FrameSlot := ⟨3, 0xFFFFF810, 0xF9, 0x20, true, 7, Vector.replicate 64 0xAB⟩

theorem decode_normalises_stray :
    ¬ stray.Contradictory ∧ stray.normalCode = 8 ∧ stray.normal.identifier = 0x10 ∧
      (decode stray .fresh).1.length = 8 ∧
      (decode stray .fresh).1.encode = .ok stray.normal ∧
      { (decode stray.normal .fresh).1 with timestamp := 3 } = (decode stray .fresh).1 := by
  have consistent : ¬ stray.Contradictory := by decide
  have code : stray.normalCode = 8 := by decide
  have timestamp : (decode stray .fresh).1.timestamp = 3 := by decide +kernel
  obtain ⟨length, -, -, -, -, -, -, encoded, again⟩ := decode_normalises stray .fresh
  rw [code] at length
  have same := again .fresh
  rw [timestamp] at same
  exact ⟨consistent, code, by decide, length, encoded consistent, same⟩

end FrameSlot

end CanLink
