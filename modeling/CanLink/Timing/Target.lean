import CanLink.Timing.Constraints

/-!
Requested bit timings. A `Target` is what a caller asks for; `Target.request` turns it into a
`Request`, the integers that the search works with, or says what is wrong with it.
-/

namespace CanLink.Timing

open Numeric (Binary32 Magnitude Format Number)

inductive Phase where
  /-- Arbitration phase, and the only phase of a classic bus. -/
  | nominal
  /-- Data phase of CAN-FD frames. -/
  | data
  deriving DecidableEq, Repr

namespace Phase

/-- Highest bitrate of the phase, in bits per second. -/
def maxBitrate : Phase → Nat
  | nominal => 1000000
  | data => 15000000

/-- Sample point recommended for a bitrate, per mille. -/
def recommendedPermille (bitrate : Nat) : Phase → Nat
  | nominal => if 800000 < bitrate then 750 else if 500000 < bitrate then 800 else 875
  | data => if bitrate ≤ 2000000 then 700 else 750

end Phase

/-- Sample points are set to one part in this many of a bit. -/
def samplePointScale : Nat := 1000

/-- The sample point recommended for a bitrate, as a fraction of the bit. -/
def recommendedSamplePoint (bitrate : Nat) (phase : Phase) : Binary32 :=
  Number.ofQuotient .binary32 (phase.recommendedPermille bitrate) samplePointScale

/-- A sample point as a caller asks for it: a fraction of the bit, or the recommended one. -/
inductive SamplePoint where
  | recommended
  | explicit (fraction : Magnitude)
  deriving DecidableEq, Repr

namespace SamplePoint

/-- Zero of either sign asks for the recommended sample point. What is not a number, is negative or
exceeds one is no sample point. -/
def ofNumber? (x : Binary32) : Option SamplePoint :=
  match x.reading with
  | .nan | .infinite _ => none
  | .finite negative magnitude =>
      if magnitude.significand = 0 then some recommended
      else if negative || magnitude.denominator < magnitude.numerator then none
      else some (explicit magnitude)

/-- The sample point in parts of `samplePointScale`. An explicit fraction is scaled in double
precision before it is rounded, a half going up. -/
def permille (phase : Phase) (bitrate : Nat) : SamplePoint → Nat
  | recommended => phase.recommendedPermille bitrate
  | explicit fraction =>
      let scaled := Format.binary64.round (fraction.numerator * samplePointScale)
        fraction.denominator
      Numeric.nearestUp scaled.numerator scaled.denominator

end SamplePoint

structure Target where
  /-- Bits per second. -/
  bitrate : UInt32
  /-- Sample point in (0, 1], or zero for the recommended one. -/
  samplePoint : Binary32
  /-- Synchronisation jump width in quanta; zero or less asks for the largest feasible one. -/
  jumpWidth : Int32
  /-- Least number of quanta per bit. -/
  minQuanta : UInt32
  deriving DecidableEq

/-- A target as integers: the sample point in parts of `samplePointScale`, the jump width only if
one was asked for. -/
structure Request where
  bitrate : Nat
  permille : Nat
  jumpWidth : Option Nat
  minQuanta : Nat
  deriving DecidableEq, Repr

namespace Target

/-- Recommended sample point, largest feasible jump width, no least number of quanta. -/
def ofBitrate (bitrate : UInt32) : Target := ⟨bitrate, ⟨0⟩, 0, 0⟩

def explicitJumpWidth (t : Target) : Option Nat :=
  if 0 < t.jumpWidth.toInt then some t.jumpWidth.toInt.toNat else none

/-- Faults are looked for in the order bitrate, sample point, jump width. -/
def request (t : Target) (c : Constraints) (phase : Phase) : Except RequestFault Request :=
  let bitrate := t.bitrate.toNat
  if bitrate = 0 then .error .bitrateZero
  else if phase.maxBitrate < bitrate then .error .bitrateAboveMaximum
  else match SamplePoint.ofNumber? t.samplePoint with
    | none => .error .samplePointOutside
    | some samplePoint =>
        if t.explicitJumpWidth.any (c.jumpWidthMax.toNat < ·) then .error .jumpWidthAboveMaximum
        else .ok
          { bitrate
            permille := samplePoint.permille phase bitrate
            jumpWidth := t.explicitJumpWidth
            minQuanta := t.minQuanta.toNat }

end Target

end CanLink.Timing
