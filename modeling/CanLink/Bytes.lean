import CanLink.Error

/-!
Byte strings and the words stored in them, least significant byte first. Reading the bytes of a
word gives the word back (`word16_bytes16`, `word32_bytes32`).
-/

namespace CanLink

abbrev Bytes := List UInt8

namespace Bytes

/-- The first `n` bytes of a message, or an error if it is shorter. -/
def leading (n : Nat) (bytes : Bytes) : Except Error (Vector UInt8 n) :=
  if enough : n ≤ bytes.length then .ok (Vector.ofFn fun i => bytes[i])
  else .error (.shortMessage n bytes.length)

/-- Exactly `n` bytes: the given ones as far as they go, zeros after them. -/
def padded (n : Nat) (bytes : Bytes) : Vector UInt8 n :=
  Vector.ofFn fun i => bytes[i.val]?.getD 0

end Bytes

def zeros (n : Nat) : Vector UInt8 n := Vector.replicate n 0

/-- The `n` bytes from offset `start` on. -/
def slice {size : Nat} (bytes : Vector UInt8 size) (start n : Nat) (fits : start + n ≤ size) :
    Vector UInt8 n :=
  Vector.ofFn fun i => bytes[start + i]

namespace LittleEndian

def bytes16 (w : UInt16) : Vector UInt8 2 := #v[w.toUInt8, (w >>> 8).toUInt8]

def bytes32 (w : UInt32) : Vector UInt8 4 :=
  #v[w.toUInt8, (w >>> 8).toUInt8, (w >>> 16).toUInt8, (w >>> 24).toUInt8]

def word16 (b : Vector UInt8 2) : UInt16 := b[0].toUInt16 + b[1].toUInt16 * 0x100

def word32 (b : Vector UInt8 4) : UInt32 :=
  let place : UInt32 := 0x100
  b[0].toUInt32 + place * (b[1].toUInt32 + place * (b[2].toUInt32 + place * b[3].toUInt32))

theorem word16_bytes16 (w : UInt16) : word16 (bytes16 w) = w := by
  apply UInt16.toNat_inj.mp
  have bound := w.toNat_lt
  simp [word16, bytes16, Nat.shiftRight_eq_div_pow]
  omega

theorem word32_bytes32 (w : UInt32) : word32 (bytes32 w) = w := by
  apply UInt32.toNat_inj.mp
  have bound := w.toNat_lt
  simp [word32, bytes32, Nat.shiftRight_eq_div_pow]
  omega

end LittleEndian

end CanLink
