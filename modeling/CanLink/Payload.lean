/-!
Payload lengths. A length is transmitted as a four-bit code; the sixteen codes stand for the
lengths in `lengths`. A length that is none of these has no code.
-/

namespace CanLink.Payload

/-- Longest payload of a CAN-FD frame. -/
abbrev maxLength : Nat := 64

/-- Longest payload of a classic frame. -/
def classicMaxLength : Nat := 8

/-- Largest code. -/
def maxCode : Nat := 15

/-- Length in bytes for each code. -/
def lengths : Vector Nat 16 := #v[0, 1, 2, 3, 4, 5, 6, 7, 8, 12, 16, 20, 24, 32, 48, 64]

/-- Length for a code, of which only the low four bits count. -/
def length (code : UInt8) : Nat := lengths[code.toNat % 16]

/-- The code of a length, if it has one. -/
def code? (length : Nat) : Option UInt8 :=
  (lengths.toList.findIdx? (· == length)).map Nat.toUInt8

theorem length_le_maxLength (code : UInt8) : length code ≤ maxLength := by
  have every : ∀ i : Fin 16, lengths[i] ≤ maxLength := by decide
  exact every ⟨code.toNat % 16, Nat.mod_lt _ (by decide)⟩

end CanLink.Payload
