import CanLink.Timing.Settings
import CanLink.Timing.Target

/-!
The bit-timing search. Only exact bitrates are produced: the clock has to be a multiple of
prescaler times bitrate, and the quotient is the bit length. Of one bit length `split?` gives the
split with the sample point closest to the request, the longer segment 2 on a tie; of several
prescalers `Search.record` keeps the closest, the smaller prescaler on a tie. `search` tries the
prescalers upwards and ends with the first that makes the bit too short.
-/

namespace CanLink.Timing

/-- A prescaler, and the two segments of a bit. -/
structure Split where
  prescaler : Nat
  segment1 : Nat
  segment2 : Nat
  deriving DecidableEq, Repr

namespace Split

def bitLength (s : Split) : Nat := 1 + s.segment1 + s.segment2

/-- Distance of the sample point from the requested one, in parts of `samplePointScale` times the
bit length. -/
def deviation (permille : Nat) (s : Split) : Nat :=
  let reached := samplePointScale * (1 + s.segment1)
  let wanted := permille * s.bitLength
  (reached - wanted) + (wanted - reached)

/-- The sample point of `a` is strictly closer to the request than that of `b`. The two distances
are fractions of different bits and are compared by cross multiplication. -/
def closer (permille : Nat) (a b : Split) : Bool :=
  a.deviation permille * b.bitLength < b.deviation permille * a.bitLength

/-- Register values of a split, with the requested jump width or else the largest feasible one. -/
def settings (s : Split) (c : Constraints) (r : Request) : Settings where
  prescaler := s.prescaler.toUInt32
  segment1 := s.segment1.toUInt32
  segment2 := s.segment2.toUInt32
  jumpWidth := (r.jumpWidth.getD (min c.jumpWidthMax.toNat s.segment2)).toUInt32

end Split

/-- The closest split of a bit of `bitLength` quanta whose segments are in range, whose segment 1
is not empty and whose segment 2 has room for the requested jump width. The distance grows to both
sides of the requested sample point, so it is least at the end of the range or at the integer
nearest to the request; a half goes towards the longer segment 2. -/
def split? (c : Constraints) (r : Request) (prescaler bitLength : Nat) : Option Split :=
  let low := max (max c.segment2Min.toNat (r.jumpWidth.getD 0))
    (bitLength - 1 - c.segment1Max.toNat)
  let high := min (min c.segment2Max.toNat (bitLength - 2)) (bitLength - 1 - c.segment1Min.toNat)
  if low ≤ high then
    let wanted := (r.permille * bitLength + (samplePointScale / 2 - 1)) / samplePointScale
    let segment2 := max low (min high (bitLength - wanted))
    some ⟨prescaler, bitLength - 1 - segment2, segment2⟩
  else none

/-- What became of one prescaler. -/
inductive Trial where
  /-- The clock is no multiple of prescaler times bitrate. -/
  | inexact
  | failed (reason : NoSolution)
  | found (split : Split)
  deriving DecidableEq, Repr

/-- Bit length that a prescaler gives, rounded down. -/
def bitLengthAt (c : Constraints) (r : Request) (prescaler : Nat) : Nat :=
  c.clock.toNat / (prescaler * r.bitrate)

/-- Tries one prescaler. A bit length without a split is blamed on the jump width, also when it is
the ranges of the segments that leave none. -/
def trial (c : Constraints) (r : Request) (prescaler : Nat) : Trial :=
  if c.clock.toNat % (prescaler * r.bitrate) ≠ 0 then .inexact
  else
    let bitLength := bitLengthAt c r prescaler
    if bitLength < c.minBitLength ∨ c.maxBitLength < bitLength then .failed .bitLengthOutOfRange
    else if bitLength < r.minQuanta then .failed .minQuantaUnreachable
    else match split? c r prescaler bitLength with
      | none => .failed .jumpWidthUnreachable
      | some split => .found split

/-- The closest split so far, and how far the search got without one. -/
structure Search where
  best : Option Split
  reason : NoSolution
  deriving DecidableEq, Repr

namespace Search

def start : Search := ⟨none, .noIntegerBitLength⟩

/-- A later split replaces an earlier one only if it is strictly closer. -/
def record (permille : Nat) (s : Search) : Trial → Search
  | .inexact => s
  | .failed reason => { s with reason := s.reason.further reason }
  | .found split =>
      match s.best with
      | some best => if split.closer permille best then { s with best := some split } else s
      | none => { s with best := some split }

end Search

/-- The search over a prescaler and `steps` more. Bits only shrink as the prescaler grows, so the
first prescaler whose bit is too short is the last one tried. -/
def search (c : Constraints) (r : Request) (steps prescaler : Nat) (s : Search) : Search :=
  let next := s.record r.permille (trial c r prescaler)
  if bitLengthAt c r prescaler < c.minBitLength then next
  else match steps with
    | 0 => next
    | steps + 1 => search c r steps (prescaler + c.prescalerStep.toNat) next

/-- Register values for one phase. -/
def solve (c : Constraints) (t : Target) (phase : Phase) : Except Error Settings := do
  c.validate
  match t.request c phase with
  | .error fault => throw (.invalidRequest fault)
  | .ok r =>
      let found := search c r c.prescalerSteps c.prescalerMin.toNat .start
      match found.best with
      | some split => pure (split.settings c r)
      | none => throw (.noSolution found.reason)

/-- Register values for both phases of a CAN-FD bus. -/
structure FdSettings where
  nominal : Settings
  data : Settings
  deriving DecidableEq, Repr

/-- Both phases run from one clock; the nominal phase is solved first. -/
def solveFd (nominalRanges dataRanges : Constraints) (nominal data : Target) :
    Except Error FdSettings := do
  if nominalRanges.clock ≠ dataRanges.clock then
    throw (.invalidConstraints .clocksDiffer)
  let nominal ← solve nominalRanges nominal .nominal
  let data ← solve dataRanges data .data
  pure { nominal, data }

end CanLink.Timing
