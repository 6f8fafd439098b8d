/-!
Rounding a quotient of natural numbers to an integer, with a half going either to the even
neighbour or up. Both functions return an integer within one half of the quotient;
they differ on ties only.
-/

namespace CanLink.Numeric

/-- The integer nearest to `num / den`; a half goes to the even neighbour. -/
def nearestEven (num den : Nat) : Nat :=
  let below := num / den
  let rest := 2 * (num % den)
  if rest < den then below
  else if den < rest then below + 1
  else below + below % 2

/-- The integer nearest to `num / den`; a half goes up. -/
def nearestUp (num den : Nat) : Nat :=
  (2 * num + den) / (2 * den)

/-- A quotient that is an integer rounds to it. -/
theorem nearestEven_mul (k den : Nat) (pos : 0 < den) : nearestEven (k * den) den = k := by
  simp [nearestEven, Nat.mul_mod_left, Nat.mul_div_cancel k pos, pos]

end CanLink.Numeric
