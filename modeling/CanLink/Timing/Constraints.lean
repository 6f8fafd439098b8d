import CanLink.Error

/-!
Register ranges of one bit-timing phase, as a device reports them. A bit lasts one synchronisation
quantum, then segment 1 up to the sample point, then segment 2; the prescaler sets the length of a
quantum in clock cycles.
-/

namespace CanLink.Timing

structure Constraints where
  /-- Clock of the CAN core, in Hz. -/
  clock : UInt32
  prescalerMin : UInt32
  prescalerMax : UInt32
  /-- Distance between two prescalers that can be set. -/
  prescalerStep : UInt32
  segment1Min : UInt32
  segment1Max : UInt32
  segment2Min : UInt32
  segment2Max : UInt32
  /-- Largest synchronisation jump width, in quanta. -/
  jumpWidthMax : UInt32
  deriving DecidableEq, Repr

namespace Constraints

/-- The first reason, if any, why the ranges describe no usable device. -/
def fault? (c : Constraints) : Option ConstraintFault :=
  if c.clock = 0 then some .clockZero
  else if c.prescalerMin = 0 then some .prescalerMinZero
  else if c.prescalerStep = 0 then some .prescalerStepZero
  else if c.prescalerMax < c.prescalerMin then some .prescalerRangeEmpty
  else if (c.prescalerMax - c.prescalerMin) % c.prescalerStep ≠ 0 then some .prescalerRangeUneven
  else if c.segment1Max < c.segment1Min then some .segment1RangeEmpty
  else if c.segment2Min = 0 then some .segment2MinZero
  else if c.segment2Max < c.segment2Min then some .segment2RangeEmpty
  else if c.jumpWidthMax = 0 then some .jumpWidthMaxZero
  else none

def validate (c : Constraints) : Except Error Unit :=
  match c.fault? with
  | some fault => .error (.invalidConstraints fault)
  | none => .ok ()

/-- Shortest bit the segment ranges admit, in quanta. -/
def minBitLength (c : Constraints) : Nat := 1 + c.segment1Min.toNat + c.segment2Min.toNat

/-- Longest bit the segment ranges admit, in quanta. -/
def maxBitLength (c : Constraints) : Nat := 1 + c.segment1Max.toNat + c.segment2Max.toNat

/-- Number of prescalers after the first one. -/
def prescalerSteps (c : Constraints) : Nat :=
  (c.prescalerMax.toNat - c.prescalerMin.toNat) / c.prescalerStep.toNat

end Constraints

end CanLink.Timing
