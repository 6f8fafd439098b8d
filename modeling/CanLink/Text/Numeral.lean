import CanLink.Numeric.Binary

/-!
Numerals as they appear in the program's texts: hexadecimal of a least width, and decimals with a
fixed number of places.
-/

namespace CanLink.Text

inductive LetterCase where
  | lower
  | upper
  deriving DecidableEq, Repr

/-- Text of at least `width` characters, filled with `fill` on the left. -/
def padLeft (width : Nat) (fill : Char) (text : List Char) : List Char :=
  List.leftpad width fill text

/-- Hexadecimal digits, most significant first, without leading zeros. -/
def hexDigits (letters : LetterCase) (n : Nat) : List Char :=
  let digits := Nat.toDigits 16 n
  match letters with
  | .lower => digits
  | .upper => digits.map Char.toUpper

/-- Hexadecimal numeral of at least `width` digits. -/
def hex (letters : LetterCase) (width n : Nat) : String :=
  String.ofList (padLeft width '0' (hexDigits letters n))

/-- Two digits for each byte, in order. -/
def hexBytes (letters : LetterCase) (bytes : List UInt8) : List String :=
  bytes.map fun b => hex letters 2 b.toNat

/-- The number with `places` digits after the point; a half goes to the even neighbour. -/
def fixed (places : Nat) (x : Numeric.Magnitude) : String :=
  let scaled := Numeric.nearestEven (x.numerator * Nat.pow 10 places) x.denominator
  let digits := padLeft (places + 1) '0' (Nat.toDigits 10 scaled)
  let whole := digits.length - places
  String.ofList (digits.take whole ++ '.' :: digits.drop whole)

end CanLink.Text
