import CanLink.Proofs.Slot.RoundTrip
import Mathlib.Algebra.Group.Nat.Defs

/-!
Numbers in byte strings. `Bytes.number` is the number that stands in some bytes, least significant
byte first; the words that are read from the fields of a message are such numbers.
-/

namespace CanLink

open LittleEndian

namespace Bytes

/-- The number in `n` bytes from offset `start` on. -/
def number (bytes : Bytes) (start : Nat) : (n : Nat) → Nat
  | 0 => 0
  | n + 1 => (bytes[start]?.getD 0).toNat + 256 * bytes.number (start + 1) n

theorem number_lt (bytes : Bytes) (start n : Nat) : bytes.number start n < 256 ^ n := by
  induction n generalizing start with
  | zero => exact Nat.one_pos
  | succ n ih =>
      have rest := ih (start + 1)
      have first := (bytes[start]?.getD 0).toNat_lt
      rw [number, Nat.pow_succ]
      omega

/-- A number is read from its own bytes only. -/
theorem number_take (bytes : Bytes) {start n k : Nat} (within : start + n ≤ k) :
    number (bytes.take k) start n = bytes.number start n := by
  induction n generalizing start with
  | zero => rfl
  | succ n ih =>
      rw [number, number, ih (by omega), List.getElem?_take_of_lt (by omega)]

/-- What is read of a message is its beginning. -/
theorem toList_of_leading {bytes : Bytes} {n : Nat} {message : Vector UInt8 n}
    (read : bytes.leading n = .ok message) : message.toList = bytes.take n := by
  rw [leading] at read
  split at read
  · rename_i enough
    cases read
    apply List.ext_getElem
    · simp [enough]
    · intro i left right
      simp
  · cases read

end Bytes

variable {size : Nat} (message : Vector UInt8 size)

theorem number_byte {i : Nat} (inside : i < size) :
    Bytes.number message.toList i 1 = message[i].toNat := by
  simp [Bytes.number, inside]

theorem number_word16 {start : Nat} (fits : start + 2 ≤ size) :
    Bytes.number message.toList start 2 = (word16 (slice message start 2 fits)).toNat := by
  have low := message[start].toNat_lt
  have high := message[start + 1].toNat_lt
  have first : start < size := by omega
  have second : start + 1 < size := by omega
  simp [Bytes.number, word16, slice, first, second]
  omega

theorem number_word32 {start : Nat} (fits : start + 4 ≤ size) :
    Bytes.number message.toList start 4 = (word32 (slice message start 4 fits)).toNat := by
  have byte0 := message[start].toNat_lt
  have byte1 := message[start + 1].toNat_lt
  have byte2 := message[start + 2].toNat_lt
  have byte3 := message[start + 3].toNat_lt
  have inside0 : start < size := by omega
  have inside1 : start + 1 < size := by omega
  have inside2 : start + 2 < size := by omega
  have inside3 : start + 3 < size := by omega
  simp [Bytes.number, word32, slice, Nat.add_assoc, inside0, inside1, inside2, inside3]
  omega

end CanLink
