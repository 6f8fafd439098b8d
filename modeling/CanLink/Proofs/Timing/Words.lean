import CanLink.Proofs.Numeric.Words
import CanLink.Timing.Solver

/-!
The solver in machine words. Registers are words of 32 bits, bit lengths and deviations words of 64,
and deviations of different bits are compared in 128. The splits of a bit length are tried one after
another. A computation gives nothing if an operation in it goes wrong, or if the search is not over
after as many prescalers as there are words.
-/

namespace CanLink.Timing.Words

open Numeric.Word

/-- A register in 64 bits. -/
def wide (x : UInt32) : BitVec 64 := x.toBitVec.setWidth 64

/-- The first reason, if any, why the ranges describe no usable device. -/
def fault? (c : Constraints) : Option (Option ConstraintFault) :=
  if c.clock = 0 then some (some .clockZero)
  else if c.prescalerMin = 0 then some (some .prescalerMinZero)
  else if c.prescalerStep = 0 then some (some .prescalerStepZero)
  else if c.prescalerMax < c.prescalerMin then some (some .prescalerRangeEmpty)
  else do
    let range ← sub? c.prescalerMax.toBitVec c.prescalerMin.toBitVec
    let rest ← rem? range c.prescalerStep.toBitVec
    if rest ≠ 0 then some (some .prescalerRangeUneven)
    else if c.segment1Max < c.segment1Min then some (some .segment1RangeEmpty)
    else if c.segment2Min = 0 then some (some .segment2MinZero)
    else if c.segment2Max < c.segment2Min then some (some .segment2RangeEmpty)
    else if c.jumpWidthMax = 0 then some (some .jumpWidthMaxZero)
    else some none

/-- Length of a bit with two segments, in 64 bits. -/
def wideBitLength (segment1 segment2 : UInt32) : Option (BitVec 64) := do
  let front ← add? 1#64 (wide segment1)
  add? front (wide segment2)

def minBitLength (c : Constraints) : Option (BitVec 64) := wideBitLength c.segment1Min c.segment2Min

def maxBitLength (c : Constraints) : Option (BitVec 64) := wideBitLength c.segment1Max c.segment2Max

/-- A validated target in words. -/
structure Request where
  bitrate : BitVec 64
  permille : BitVec 64
  jumpWidth : Option (BitVec 32)
  minQuanta : BitVec 64
  deriving DecidableEq

/-- The jump width that a target asks for. A signed word is read as an unsigned one, which has to be
the same number. -/
def explicitJumpWidth (t : Target) : Option (Option (BitVec 32)) :=
  if 0 < t.jumpWidth.toInt then
    let unsigned := t.jumpWidth.toBitVec
    if (unsigned.toNat : Int) = t.jumpWidth.toInt then some (some unsigned) else none
  else some none

def request (c : Constraints) (t : Target) (phase : Phase) :
    Option (Except RequestFault Request) :=
  if t.bitrate = 0 then some (.error .bitrateZero)
  else if phase.maxBitrate < t.bitrate.toNat then some (.error .bitrateAboveMaximum)
  else match SamplePoint.ofNumber? t.samplePoint with
    | none => some (.error .samplePointOutside)
    | some samplePoint => do
        let permille ← ofNat? 32 (samplePoint.permille phase t.bitrate.toNat)
        let jumpWidth ← explicitJumpWidth t
        if jumpWidth.any (c.jumpWidthMax.toBitVec < ·) then some (.error .jumpWidthAboveMaximum)
        else some (.ok
          { bitrate := wide t.bitrate
            permille := permille.setWidth 64
            jumpWidth
            minQuanta := wide t.minQuanta })

/-- A split with its deviation, in parts of `samplePointScale` times the bit length. -/
structure Candidate where
  settings : Settings
  deviation : BitVec 64
  bitLength : BitVec 64
  deriving DecidableEq

/-- Compares the two deviations as fractions of their bits. -/
def Candidate.beats (a b : Candidate) : Option Bool := do
  let left ← mul? (a.deviation.setWidth 128) (b.bitLength.setWidth 128)
  let right ← mul? (b.deviation.setWidth 128) (a.bitLength.setWidth 128)
  some (left < right)

/-- The best candidate so far and `count` more lengths of segment 2, from `segment2` on. -/
def scan (c : Constraints) (r : Request) (prescaler : UInt32) (bitLength target : BitVec 64) :
    (count : Nat) → (segment2 : BitVec 64) → Option Candidate → Option (Option Candidate)
  | 0, _, best => some best
  | count + 1, segment2, best => do
      let next ← add? segment2 1#64
      if bitLength ≤ next then some best
      else
        let rest ← sub? bitLength 1#64
        let segment1 ← sub? rest segment2
        if segment1 < wide c.segment1Min ∨ wide c.segment1Max < segment1 then
          scan c r prescaler bitLength target count next best
        else
          let front ← sub? bitLength segment2
          let reached ← mul? (BitVec.ofNat 64 samplePointScale) front
          let deviation := absDiff reached target
          if best.any (·.deviation < deviation) then
            scan c r prescaler bitLength target count next best
          else
            let register2 ← narrow? 32 segment2
            let register1 ← narrow? 32 segment1
            let jumpWidth := r.jumpWidth.getD (smaller c.jumpWidthMax.toBitVec register2)
            let settings : Settings :=
              ⟨prescaler, ⟨register1⟩, ⟨register2⟩, ⟨jumpWidth⟩⟩
            scan c r prescaler bitLength target count next
              (some ⟨settings, deviation, bitLength⟩)

/-- The best candidate of a bit length. -/
def bestSplit (c : Constraints) (r : Request) (prescaler : UInt32) (bitLength : BitVec 64) :
    Option (Option Candidate) := do
  let requested : BitVec 64 := r.jumpWidth.elim 0 (·.setWidth 64)
  let low := larger (wide c.segment2Min) requested
  let target ← mul? r.permille bitLength
  scan c r prescaler bitLength target ((wide c.segment2Max).toNat + 1 - low.toNat) low none

/-- The best candidate so far, and how far the search got without one. -/
structure Search where
  best : Option Candidate
  reason : NoSolution
  deriving DecidableEq

/-- The search with one more reason why a prescaler does not do. -/
def Search.failing (s : Search) (reason : NoSolution) : Search :=
  { s with reason := s.reason.further reason }

/-- Tries one prescaler, and says whether the search goes on. -/
def visit (c : Constraints) (r : Request) (shortest longest : BitVec 64) (prescaler : UInt32)
    (s : Search) : Option (Search × Bool) := do
  let divisor ← mul? (wide prescaler) r.bitrate
  let bitLength ← div? (wide c.clock) divisor
  let rest ← rem? (wide c.clock) divisor
  if bitLength < shortest then
    some (if rest = 0 then s.failing .bitLengthOutOfRange else s, false)
  else if rest = 0 then
    if bitLength < shortest ∨ longest < bitLength then
      some (s.failing .bitLengthOutOfRange, true)
    else if bitLength < r.minQuanta then some (s.failing .minQuantaUnreachable, true)
    else
      match ← bestSplit c r prescaler bitLength with
      | none => some (s.failing .jumpWidthUnreachable, true)
      | some candidate =>
          let better ← s.best.elim (some true) candidate.beats
          some (if better then { s with best := some candidate } else s, true)
  else some (s, true)

/-- The search from a prescaler on. The next prescaler may not fit a word; then the search is over,
and nothing went wrong. -/
def search (c : Constraints) (r : Request) (shortest longest : BitVec 64) :
    (turns : Nat) → (prescaler : UInt32) → Search → Option Search
  | 0, _, _ => none
  | turns + 1, prescaler, s => do
      let (s, more) ← visit c r shortest longest prescaler s
      if more then
        match add? prescaler.toBitVec c.prescalerStep.toBitVec with
        | some next =>
            if next ≤ c.prescalerMax.toBitVec then search c r shortest longest turns ⟨next⟩ s
            else some s
        | none => some s
      else some s

def solve (c : Constraints) (t : Target) (phase : Phase) : Option (Except Error Settings) := do
  match ← fault? c with
  | some fault => some (.error (.invalidConstraints fault))
  | none =>
      match ← request c t phase with
      | .error fault => some (.error (.invalidRequest fault))
      | .ok r =>
          let shortest ← minBitLength c
          let longest ← maxBitLength c
          let start : Search := ⟨none, .noIntegerBitLength⟩
          let found ← search c r shortest longest (2 ^ 32) c.prescalerMin start
          match found.best with
          | some candidate => some (.ok candidate.settings)
          | none => some (.error (.noSolution found.reason))

/-- Length of a bit in quanta. -/
def bitLength (s : Settings) : Option (BitVec 32) := do
  let front ← add? 1#32 s.segment1.toBitVec
  add? front s.segment2.toBitVec

/-- Bitrate reached with a clock. -/
def bitrate (s : Settings) (clock : UInt32) : Option (BitVec 32) := do
  let quanta ← bitLength s
  let divisor ← mul? (wide s.prescaler) (quanta.setWidth 64)
  if divisor = 0 then some 0
  else
    let reached ← div? (wide clock) divisor
    narrow? 32 reached

end CanLink.Timing.Words
