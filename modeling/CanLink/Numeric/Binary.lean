import CanLink.Numeric.Rounding

/-!
Binary interchange formats. A number of a format is a bit pattern: a sign, an exponent field and a
fraction field. `Number.reading` says what a pattern stands for, and `Format.round` gives the value
of the format nearest to a quotient of naturals, a half going to the even significand.
-/

namespace CanLink.Numeric

/-- The nonnegative number `significand * 2 ^ exponent`. -/
structure Magnitude where
  significand : Nat
  exponent : Int
  deriving DecidableEq, Repr

namespace Magnitude

/-- Numerator of the number as a quotient of naturals. -/
def numerator (x : Magnitude) : Nat := x.significand * Nat.pow 2 x.exponent.toNat

/-- Denominator of the number as a quotient of naturals, a power of two. -/
def denominator (x : Magnitude) : Nat := Nat.pow 2 (-x.exponent).toNat

end Magnitude

/-- A binary format: `precision` significant bits, the leading one implied for normal numbers, and
an exponent field of `exponentBits` bits. -/
structure Format where
  precision : Nat
  exponentBits : Nat

namespace Format

def binary32 : Format := ⟨24, 8⟩

def binary64 : Format := ⟨53, 11⟩

/-- Bits of one number: sign, exponent field and fraction field. -/
abbrev width (f : Format) : Nat := f.precision + f.exponentBits

/-- Exponent of the last place of the smallest numbers of the format. -/
def leastExponent (f : Format) : Int := 3 - Nat.pow 2 (f.exponentBits - 1) - f.precision

/-- The largest `k` with `2 ^ k ≤ num / den`, for positive arguments. -/
def binade (num den : Nat) : Int :=
  let k : Int := (num.log2 : Int) - (den.log2 : Int)
  if den * Nat.pow 2 k.toNat ≤ num * Nat.pow 2 (-k).toNat then k else k - 1

/-- The number of the format nearest to `num / den`, with the exponent of its last place not below
`leastExponent`; its significand is at most `2 ^ precision`. -/
def round (f : Format) (num den : Nat) : Magnitude :=
  let exponent :=
    if num = 0 then f.leastExponent
    else max (binade num den - (f.precision - 1 : Nat)) f.leastExponent
  ⟨nearestEven (num * Nat.pow 2 (-exponent).toNat) (den * Nat.pow 2 exponent.toNat), exponent⟩

/-- Pattern of infinity: the exponent field is all ones and the fraction field is zero. -/
def infinityPattern (f : Format) : Nat :=
  (Nat.pow 2 f.exponentBits - 1) * Nat.pow 2 (f.precision - 1)

/-- Pattern of a rounded number. The exponent field counts up from `leastExponent`, and the leading
bit of the significand carries into it, so one sum serves subnormal and normal numbers alike. -/
def pattern (f : Format) (x : Magnitude) : Nat :=
  min ((x.exponent - f.leastExponent).toNat * Nat.pow 2 (f.precision - 1) + x.significand)
    f.infinityPattern

end Format

/-- A bit pattern of a format. -/
structure Number (f : Format) where
  bits : BitVec f.width
  deriving DecidableEq

abbrev Binary32 := Number .binary32

abbrev Binary64 := Number .binary64

/-- What a bit pattern stands for. -/
inductive Reading where
  | nan
  | infinite (negative : Bool)
  | finite (negative : Bool) (magnitude : Magnitude)
  deriving DecidableEq, Repr

namespace Number

/-- The nonnegative number nearest to `num / den`. -/
def ofQuotient (f : Format) (num den : Nat) : Number f :=
  ⟨BitVec.ofNat f.width (f.pattern (f.round num den))⟩

/-- The number nearest to the quotient of two rounded numbers. -/
def ofRatio (f : Format) (x y : Magnitude) : Number f :=
  ofQuotient f (x.numerator * y.denominator) (x.denominator * y.numerator)

variable {f : Format}

def isNegative (x : Number f) : Bool := x.bits.msb

def exponentField (x : Number f) : Nat :=
  x.bits.toNat / Nat.pow 2 (f.precision - 1) % Nat.pow 2 f.exponentBits

def fraction (x : Number f) : Nat := x.bits.toNat % Nat.pow 2 (f.precision - 1)

/-- Absolute value of a finite number. -/
def magnitude (x : Number f) : Magnitude :=
  if x.exponentField = 0 then ⟨x.fraction, f.leastExponent⟩
  else ⟨Nat.pow 2 (f.precision - 1) + x.fraction, f.leastExponent + (x.exponentField - 1 : Nat)⟩

def reading (x : Number f) : Reading :=
  if x.exponentField = Nat.pow 2 f.exponentBits - 1 then
    if x.fraction = 0 then .infinite x.isNegative else .nan
  else .finite x.isNegative x.magnitude

end Number

end CanLink.Numeric
