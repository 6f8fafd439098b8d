import Mathlib.Algebra.Group.Nat.Defs

/-!
Arithmetic of machine words that notices when it goes wrong. Each operation gives a word only if the
word is the exact result: a sum or a product that does not fit the width, a difference below zero, a
zero divisor and a narrowing that changes the value all give nothing. On words of known numbers
(`BitVec.ofNat`) an operation is that of the numbers, as long as these fit.
-/

namespace CanLink.Numeric.Word

variable {w : Nat}

def add? (a b : BitVec w) : Option (BitVec w) :=
  if a.toNat + b.toNat < 2 ^ w then some (a + b) else none

def sub? (a b : BitVec w) : Option (BitVec w) :=
  if b.toNat ≤ a.toNat then some (a - b) else none

def mul? (a b : BitVec w) : Option (BitVec w) :=
  if a.toNat * b.toNat < 2 ^ w then some (a * b) else none

def div? (a b : BitVec w) : Option (BitVec w) := if b = 0 then none else some (a / b)

def rem? (a b : BitVec w) : Option (BitVec w) := if b = 0 then none else some (a % b)

/-- The word in fewer bits. -/
def narrow? (v : Nat) (a : BitVec w) : Option (BitVec v) :=
  if a.toNat < 2 ^ v then some (a.setWidth v) else none

/-- Difference of two words, whichever is the larger one. -/
def absDiff (a b : BitVec w) : BitVec w := if a ≤ b then b - a else a - b

def smaller (a b : BitVec w) : BitVec w := if a < b then a else b

def larger (a b : BitVec w) : BitVec w := if a < b then b else a

/-- A number as a word. -/
def ofNat? (w n : Nat) : Option (BitVec w) := if n < 2 ^ w then some (BitVec.ofNat w n) else none

/-! ### Words of known numbers -/

variable {a b : Nat}

theorem toNat_ofNat (small : a < 2 ^ w) : (BitVec.ofNat w a).toNat = a := by
  rw [BitVec.toNat_ofNat, Nat.mod_eq_of_lt small]

theorem ofNat_lt_iff (left : a < 2 ^ w) (right : b < 2 ^ w) :
    BitVec.ofNat w a < BitVec.ofNat w b ↔ a < b := by
  rw [BitVec.lt_def, toNat_ofNat left, toNat_ofNat right]

theorem ofNat_le_iff (left : a < 2 ^ w) (right : b < 2 ^ w) :
    BitVec.ofNat w a ≤ BitVec.ofNat w b ↔ a ≤ b := by
  rw [BitVec.le_def, toNat_ofNat left, toNat_ofNat right]

theorem ofNat_eq_zero_iff (small : a < 2 ^ w) : BitVec.ofNat w a = 0 ↔ a = 0 := by
  rw [← BitVec.toNat_inj, toNat_ofNat small]
  simp

theorem add?_ofNat (fits : a + b < 2 ^ w) :
    add? (BitVec.ofNat w a) (BitVec.ofNat w b) = some (BitVec.ofNat w (a + b)) := by
  rw [add?, toNat_ofNat (by omega), toNat_ofNat (by omega), if_pos fits, BitVec.ofNat_add]

theorem ofNat_sub_ofNat (small : a < 2 ^ w) (below : b ≤ a) :
    BitVec.ofNat w a - BitVec.ofNat w b = BitVec.ofNat w (a - b) := by
  have ordered := (ofNat_le_iff (Nat.lt_of_le_of_lt below small) small).mpr below
  rw [← BitVec.toNat_inj, BitVec.toNat_sub_of_le ordered, toNat_ofNat small,
    toNat_ofNat (by omega), toNat_ofNat (by omega)]

theorem sub?_ofNat (small : a < 2 ^ w) (below : b ≤ a) :
    sub? (BitVec.ofNat w a) (BitVec.ofNat w b) = some (BitVec.ofNat w (a - b)) := by
  rw [sub?, toNat_ofNat small, toNat_ofNat (by omega), if_pos below, ofNat_sub_ofNat small below]

theorem mul?_ofNat (left : a < 2 ^ w) (right : b < 2 ^ w) (fits : a * b < 2 ^ w) :
    mul? (BitVec.ofNat w a) (BitVec.ofNat w b) = some (BitVec.ofNat w (a * b)) := by
  rw [mul?, toNat_ofNat left, toNat_ofNat right, if_pos fits, BitVec.ofNat_mul]

theorem div?_ofNat (left : a < 2 ^ w) (right : b < 2 ^ w) (nonzero : b ≠ 0) :
    div? (BitVec.ofNat w a) (BitVec.ofNat w b) = some (BitVec.ofNat w (a / b)) := by
  have quotient : BitVec.ofNat w a / BitVec.ofNat w b = BitVec.ofNat w (a / b) := by
    rw [← BitVec.toNat_inj, BitVec.toNat_udiv, toNat_ofNat left, toNat_ofNat right,
      toNat_ofNat (Nat.lt_of_le_of_lt (Nat.div_le_self ..) left)]
  rw [div?, if_neg (mt (ofNat_eq_zero_iff right).mp nonzero), quotient]

theorem rem?_ofNat (left : a < 2 ^ w) (right : b < 2 ^ w) (nonzero : b ≠ 0) :
    rem? (BitVec.ofNat w a) (BitVec.ofNat w b) = some (BitVec.ofNat w (a % b)) := by
  have rest : BitVec.ofNat w a % BitVec.ofNat w b = BitVec.ofNat w (a % b) := by
    rw [← BitVec.toNat_inj, BitVec.toNat_umod, toNat_ofNat left, toNat_ofNat right,
      toNat_ofNat (Nat.lt_of_le_of_lt (Nat.mod_le ..) left)]
  rw [rem?, if_neg (mt (ofNat_eq_zero_iff right).mp nonzero), rest]

theorem setWidth_ofNat {v : Nat} (small : a < 2 ^ w) :
    (BitVec.ofNat w a).setWidth v = BitVec.ofNat v a := by
  rw [← BitVec.toNat_inj, BitVec.toNat_setWidth, toNat_ofNat small, BitVec.toNat_ofNat]

theorem narrow?_ofNat {v : Nat} (small : a < 2 ^ w) (fits : a < 2 ^ v) :
    narrow? v (BitVec.ofNat w a) = some (BitVec.ofNat v a) := by
  rw [narrow?, toNat_ofNat small, if_pos fits, setWidth_ofNat small]

theorem smaller_ofNat (left : a < 2 ^ w) (right : b < 2 ^ w) :
    smaller (BitVec.ofNat w a) (BitVec.ofNat w b) = BitVec.ofNat w (min a b) := by
  simp only [smaller, ofNat_lt_iff left right]
  split
  · rw [Nat.min_eq_left (by omega)]
  · rw [Nat.min_eq_right (by omega)]

theorem larger_ofNat (left : a < 2 ^ w) (right : b < 2 ^ w) :
    larger (BitVec.ofNat w a) (BitVec.ofNat w b) = BitVec.ofNat w (max a b) := by
  simp only [larger, ofNat_lt_iff left right]
  split
  · rw [Nat.max_eq_right (by omega)]
  · rw [Nat.max_eq_left (by omega)]

theorem absDiff_ofNat (left : a < 2 ^ w) (right : b < 2 ^ w) :
    absDiff (BitVec.ofNat w a) (BitVec.ofNat w b) = BitVec.ofNat w ((a - b) + (b - a)) := by
  rw [absDiff]
  rcases Nat.le_total a b with below | above
  · rw [if_pos ((ofNat_le_iff left right).mpr below), ofNat_sub_ofNat right below,
      Nat.sub_eq_zero_of_le below, Nat.zero_add]
  · rw [Nat.sub_eq_zero_of_le above, Nat.add_zero, ← ofNat_sub_ofNat left above]
    split
    · rename_i ordered
      rw [Nat.le_antisymm ((ofNat_le_iff left right).mp ordered) above]
    · rfl

end CanLink.Numeric.Word
