import CanLink.Timing.Solver
import Mathlib.Data.Prod.Lex
import Mathlib.Data.Rat.Defs
import Mathlib.Algebra.Order.Field.Rat
import Mathlib.Algebra.Order.Field.Basic
import Mathlib.Tactic.Ring
import Mathlib.Tactic.Positivity

/-!
The bit-timing search is exact. `Feasible` says, without any search, which splits a device admits
for a request, and `Split.rank` orders them by the rational distance of their sample point from the
requested one, then by prescaler, then by segment 2. The search ends with a split if and only if one
is feasible, and its split is the least of all feasible ones, the prescalers that it does not try
included.
-/

namespace CanLink.Timing

/-- Distance of the sample point of a split from the requested one. -/
def Split.sampleError (permille : Nat) (x : Split) : ℚ :=
  |(1 + x.segment1 : ℚ) / x.bitLength - permille / samplePointScale|

/-- The better of two splits has the lower rank: the smaller distance first, then the smaller
prescaler, then the longer segment 2. -/
def Split.rank (permille : Nat) (x : Split) : ℚ ×ₗ ℕ ×ₗ ℕᵒᵈ :=
  toLex (x.sampleError permille, toLex (x.prescaler, OrderDual.toDual x.segment2))

/-- The segments are in range, segment 1 is not empty and segment 2 has room for the requested jump
width. -/
structure Fits (c : Constraints) (r : Request) (x : Split) : Prop where
  segment1Least : max 1 c.segment1Min.toNat ≤ x.segment1
  segment1Most : x.segment1 ≤ c.segment1Max.toNat
  segment2Least : max c.segment2Min.toNat (r.jumpWidth.getD 0) ≤ x.segment2
  segment2Most : x.segment2 ≤ c.segment2Max.toNat

/-- The device can be set to the split, and then reaches the bitrate exactly. -/
structure Feasible (c : Constraints) (r : Request) (x : Split) : Prop where
  onStep : ∃ k, x.prescaler = c.prescalerMin.toNat + k * c.prescalerStep.toNat
  inRange : x.prescaler ≤ c.prescalerMax.toNat
  exactly : c.clock.toNat = r.bitrate * x.prescaler * x.bitLength
  fits : Fits c r x
  enoughQuanta : r.minQuanta ≤ x.bitLength

/-- What a search among some splits has to end with: their only best one, or nothing if there are
none. -/
def Optimum (permille : Nat) (among : Set Split) : Option Split → Prop
  | none => among = ∅
  | some x => x ∈ among ∧ ∀ y ∈ among, y ≠ x → x.rank permille < y.rank permille

namespace Split

theorem bitLength_pos (x : Split) : 0 < x.bitLength := by
  rw [bitLength]
  omega

/-- The integer deviation is the rational one over a common denominator. -/
theorem sampleError_eq (permille : Nat) (x : Split) :
    x.sampleError permille = x.deviation permille / (x.bitLength * samplePointScale) := by
  have length : (0 : ℚ) < x.bitLength := Nat.cast_pos.mpr x.bitLength_pos
  have scale : (0 : ℚ) < samplePointScale := by norm_num [samplePointScale]
  have distance : ∀ a b : Nat, (((a - b) + (b - a) : Nat) : ℚ) = |(a : ℚ) - b| := by
    intro a b
    rcases Nat.le_total a b with below | above
    · rw [Nat.sub_eq_zero_of_le below, Nat.zero_add, Nat.cast_sub below, abs_sub_comm,
        abs_of_nonneg (sub_nonneg.mpr (Nat.cast_le.mpr below))]
    · rw [Nat.sub_eq_zero_of_le above, Nat.add_zero, Nat.cast_sub above,
        abs_of_nonneg (sub_nonneg.mpr (Nat.cast_le.mpr above))]
  rw [sampleError, deviation, distance, div_sub_div _ _ length.ne' scale.ne', abs_div,
    abs_of_pos (mul_pos length scale)]
  push_cast
  ring_nf

theorem sampleError_lt_iff {permille : Nat} {x y : Split} :
    x.sampleError permille < y.sampleError permille ↔
      x.deviation permille * y.bitLength < y.deviation permille * x.bitLength := by
  have lengthX : (0 : ℚ) < x.bitLength := Nat.cast_pos.mpr x.bitLength_pos
  have lengthY : (0 : ℚ) < y.bitLength := Nat.cast_pos.mpr y.bitLength_pos
  have scale : (0 : ℚ) < samplePointScale := by norm_num [samplePointScale]
  rw [sampleError_eq, sampleError_eq,
    div_lt_div_iff₀ (mul_pos lengthX scale) (mul_pos lengthY scale), ← mul_assoc, ← mul_assoc,
    mul_lt_mul_iff_left₀ scale]
  exact_mod_cast Iff.rfl

/-- Cross multiplication compares the rational distances. -/
theorem closer_iff {permille : Nat} {x y : Split} :
    x.closer permille y = true ↔ x.sampleError permille < y.sampleError permille := by
  rw [sampleError_lt_iff, closer, decide_eq_true_iff]

theorem rank_lt_iff {permille : Nat} {x y : Split} :
    x.rank permille < y.rank permille ↔
      x.sampleError permille < y.sampleError permille ∨
        x.sampleError permille = y.sampleError permille ∧
          (x.prescaler < y.prescaler ∨ x.prescaler = y.prescaler ∧ y.segment2 < x.segment2) := by
  simp only [rank, Prod.Lex.toLex_lt_toLex, OrderDual.toDual_lt_toDual]

/-- Of one prescaler and one bit length the integer deviations decide. -/
theorem rank_lt_of_deviation {permille : Nat} {x y : Split} (prescaler : x.prescaler = y.prescaler)
    (bitLength : x.bitLength = y.bitLength)
    (better : x.deviation permille < y.deviation permille ∨
      x.deviation permille = y.deviation permille ∧ y.segment2 < x.segment2) :
    x.rank permille < y.rank permille := by
  rw [rank_lt_iff]
  rcases better with less | ⟨equal, longer⟩
  · left
    rw [sampleError_lt_iff, bitLength]
    exact Nat.mul_lt_mul_of_pos_right less y.bitLength_pos
  · right
    refine ⟨?_, .inr ⟨prescaler, longer⟩⟩
    rw [sampleError_eq, sampleError_eq, equal, bitLength]

end Split

/-- Shortest segment 2 of a bit of `bitLength` quanta that fits. -/
def lowest (c : Constraints) (r : Request) (bitLength : Nat) : Nat :=
  max (max c.segment2Min.toNat (r.jumpWidth.getD 0)) (bitLength - 1 - c.segment1Max.toNat)

/-- Longest segment 2 of a bit of `bitLength` quanta that fits. -/
def highest (c : Constraints) (bitLength : Nat) : Nat :=
  min (min c.segment2Max.toNat (bitLength - 2)) (bitLength - 1 - c.segment1Min.toNat)

/-- The splits of a bit length that fit are told apart by segment 2, which has a range to itself. -/
theorem fits_iff {c : Constraints} {r : Request} {x : Split} {bitLength : Nat}
    (segment2Pos : 0 < c.segment2Min.toNat) :
    x.bitLength = bitLength ∧ Fits c r x ↔
      lowest c r bitLength ≤ x.segment2 ∧ x.segment2 ≤ highest c bitLength ∧
        x.segment1 = bitLength - 1 - x.segment2 := by
  simp only [lowest, highest, Nat.max_le, Nat.le_min, Split.bitLength]
  constructor
  · rintro ⟨length, segment1Least, segment1Most, segment2Least, segment2Most⟩
    rw [Nat.max_le] at segment1Least segment2Least
    omega
  · rintro ⟨⟨⟨least, jumpWidth⟩, most1⟩, ⟨⟨most, least1⟩, least1'⟩, rest⟩
    refine ⟨by omega, ?_, ?_, ?_, ?_⟩
    · rw [Nat.max_le]
      omega
    · omega
    · exact Nat.max_le.mpr ⟨least, jumpWidth⟩
    · exact most

/-- Distance of the sample point from `target`, in parts of the bit length, if segment 2 of a bit of
`bitLength` quanta has `segment2` of them. -/
def distance (target bitLength segment2 : Nat) : Nat :=
  (samplePointScale * (bitLength - segment2) - target) +
    (target - samplePointScale * (bitLength - segment2))

theorem deviation_eq_distance {permille : Nat} {x : Split} {bitLength : Nat}
    (length : x.bitLength = bitLength) :
    x.deviation permille = distance (permille * bitLength) bitLength x.segment2 := by
  have sample : 1 + x.segment1 = bitLength - x.segment2 := by
    rw [Split.bitLength] at length
    omega
  rw [Split.deviation, distance, length, sample]

/-- The distance grows to both sides of the integer nearest to the request, so in a range it is
least at the end closest to that integer; a half counts towards the longer segment 2. -/
theorem nearest_le {low high bitLength target other : Nat} (lower : low ≤ other)
    (upper : other ≤ high) (within : high < bitLength)
    (different : other ≠ max low (min high (bitLength -
      (target + (samplePointScale / 2 - 1)) / samplePointScale))) :
    let best := max low (min high (bitLength -
      (target + (samplePointScale / 2 - 1)) / samplePointScale))
    distance target bitLength best < distance target bitLength other ∨
      distance target bitLength best = distance target bitLength other ∧ other < best := by
  simp only [distance, samplePointScale] at different ⊢
  omega

/-- The splits of one prescaler and bit length that fit. -/
def fitting (c : Constraints) (r : Request) (prescaler bitLength : Nat) : Set Split :=
  {x | x.prescaler = prescaler ∧ x.bitLength = bitLength ∧ Fits c r x}

/-- Of the splits of one bit length, segment 2 says which one it is. -/
theorem eq_of_mem_fitting {c : Constraints} {r : Request} {prescaler bitLength : Nat} {x : Split}
    (member : x ∈ fitting c r prescaler bitLength) :
    x = ⟨prescaler, bitLength - 1 - x.segment2, x.segment2⟩ := by
  obtain ⟨rfl, length, -⟩ := member
  obtain ⟨prescaler, segment1, segment2⟩ := x
  simp only [Split.bitLength] at length
  simp only [Split.mk.injEq, true_and, and_true]
  omega

/-- The split of a bit length is the best of those that fit. -/
theorem split?_optimum {c : Constraints} (r : Request) (segment2Pos : 0 < c.segment2Min.toNat)
    (prescaler bitLength : Nat) :
    Optimum r.permille (fitting c r prescaler bitLength) (split? c r prescaler bitLength) := by
  rw [split?, ← lowest, ← highest]
  by_cases nonempty : lowest c r bitLength ≤ highest c bitLength
  · rw [if_pos nonempty]
    set best := max (lowest c r bitLength) (min (highest c bitLength) (bitLength -
      (r.permille * bitLength + (samplePointScale / 2 - 1)) / samplePointScale)) with isBest
    have lower : lowest c r bitLength ≤ best := Nat.le_max_left ..
    have upper : best ≤ highest c bitLength := Nat.max_le.mpr ⟨nonempty, Nat.min_le_left ..⟩
    obtain ⟨length, fits⟩ := (fits_iff (x := ⟨prescaler, bitLength - 1 - best, best⟩)
      segment2Pos).mpr ⟨lower, upper, rfl⟩
    refine ⟨⟨rfl, length, fits⟩, ?_⟩
    rintro y member different
    have ⟨samePrescaler, lengthY, fitsY⟩ := member
    obtain ⟨lowerY, upperY, -⟩ := (fits_iff segment2Pos).mp ⟨lengthY, fitsY⟩
    have within : highest c bitLength < bitLength := by
      rw [Split.bitLength] at lengthY
      have most := Nat.min_le_right c.segment2Max.toNat (bitLength - 2)
      have least := Nat.min_le_left (min c.segment2Max.toNat (bitLength - 2))
        (bitLength - 1 - c.segment1Min.toNat)
      rw [highest]
      omega
    have segments : y.segment2 ≠ best := by
      intro same
      apply different
      rw [eq_of_mem_fitting member, same]
    refine Split.rank_lt_of_deviation samePrescaler.symm (length.trans lengthY.symm) ?_
    rw [deviation_eq_distance length, deviation_eq_distance lengthY]
    exact nearest_le lowerY upperY within segments
  · rw [if_neg nonempty]
    refine Set.eq_empty_of_forall_notMem ?_
    rintro y ⟨-, lengthY, fitsY⟩
    obtain ⟨lowerY, upperY, -⟩ := (fits_iff segment2Pos).mp ⟨lengthY, fitsY⟩
    exact nonempty (lowerY.trans upperY)

/-- The split that a trial came up with. -/
def Trial.split? : Trial → Option Split
  | found split => some split
  | _ => none

/-- The prescaler that the search tries after `k` others. -/
def nthPrescaler (c : Constraints) (k : Nat) : Nat :=
  c.prescalerMin.toNat + k * c.prescalerStep.toNat

/-- The feasible splits of one prescaler. -/
def feasibleAt (c : Constraints) (r : Request) (prescaler : Nat) : Set Split :=
  {x | Feasible c r x ∧ x.prescaler = prescaler}

/-- The feasible splits with a smaller prescaler. -/
def feasibleBelow (c : Constraints) (r : Request) (prescaler : Nat) : Set Split :=
  {x | Feasible c r x ∧ x.prescaler < prescaler}

/-- Register ranges and a request as the search finds them after both were validated. -/
structure Searchable (c : Constraints) (r : Request) : Prop where
  clockPos : 0 < c.clock.toNat
  prescalerPos : 0 < c.prescalerMin.toNat
  stepPos : 0 < c.prescalerStep.toNat
  rangeNonempty : c.prescalerMin.toNat ≤ c.prescalerMax.toNat
  segment2Pos : 0 < c.segment2Min.toNat
  bitratePos : 0 < r.bitrate
  jumpWidthMost : r.jumpWidth.getD 0 ≤ c.jumpWidthMax.toNat

namespace Feasible

variable {c : Constraints} {r : Request} {x : Split}

theorem prescaler_pos (searchable : Searchable c r) (feasible : Feasible c r x) :
    0 < x.prescaler := by
  obtain ⟨k, onStep⟩ := feasible.onStep
  have positive := searchable.prescalerPos
  omega

theorem divides (feasible : Feasible c r x) :
    c.clock.toNat % (x.prescaler * r.bitrate) = 0 := by
  rw [feasible.exactly, Nat.mul_comm r.bitrate, Nat.mul_mod_right]

/-- A feasible split has the one bit length that its prescaler gives. -/
theorem bitLengthAt_eq (searchable : Searchable c r) (feasible : Feasible c r x) :
    bitLengthAt c r x.prescaler = x.bitLength := by
  rw [bitLengthAt, feasible.exactly, Nat.mul_comm r.bitrate]
  exact Nat.mul_div_right _
    (Nat.mul_pos (feasible.prescaler_pos searchable) searchable.bitratePos)

theorem minBitLength_le (feasible : Feasible c r x) : c.minBitLength ≤ x.bitLength := by
  have least1 := (Nat.max_le.mp feasible.fits.segment1Least).2
  have least2 := (Nat.max_le.mp feasible.fits.segment2Least).1
  rw [Constraints.minBitLength, Split.bitLength]
  omega

theorem le_maxBitLength (feasible : Feasible c r x) : x.bitLength ≤ c.maxBitLength := by
  have most1 := feasible.fits.segment1Most
  have most2 := feasible.fits.segment2Most
  rw [Constraints.maxBitLength, Split.bitLength]
  omega

end Feasible

/-- Bits only shrink as the prescaler grows. -/
theorem bitLengthAt_le {c : Constraints} {r : Request} (bitratePos : 0 < r.bitrate)
    {smaller larger : Nat} (positive : 0 < smaller) (ordered : smaller ≤ larger) :
    bitLengthAt c r larger ≤ bitLengthAt c r smaller :=
  Nat.div_le_div_left (Nat.mul_le_mul_right _ ordered) (Nat.mul_pos positive bitratePos)

/-- A prescaler that divides the clock into enough quanta has as feasible splits all those of its
bit length that fit. -/
theorem feasibleAt_eq_fitting {c : Constraints} {r : Request} (searchable : Searchable c r)
    {prescaler : Nat} (onStep : ∃ k, prescaler = nthPrescaler c k)
    (inRange : prescaler ≤ c.prescalerMax.toNat)
    (divides : c.clock.toNat % (prescaler * r.bitrate) = 0)
    (enough : r.minQuanta ≤ bitLengthAt c r prescaler) :
    feasibleAt c r prescaler = fitting c r prescaler (bitLengthAt c r prescaler) := by
  have exactly : c.clock.toNat = r.bitrate * prescaler * bitLengthAt c r prescaler := by
    rw [bitLengthAt, Nat.mul_comm r.bitrate]
    exact (Nat.mul_div_cancel' (Nat.dvd_of_mod_eq_zero divides)).symm
  ext x
  constructor
  · rintro ⟨feasible, rfl⟩
    exact ⟨rfl, (feasible.bitLengthAt_eq searchable).symm, feasible.fits⟩
  · rintro ⟨rfl, length, fits⟩
    exact ⟨⟨onStep, inRange, length ▸ exactly, fits, length ▸ enough⟩, rfl⟩

/-- The trial of a prescaler comes up with the best of its feasible splits. -/
theorem trial_optimum {c : Constraints} {r : Request} (searchable : Searchable c r)
    {prescaler : Nat} (onStep : ∃ k, prescaler = nthPrescaler c k)
    (inRange : prescaler ≤ c.prescalerMax.toNat) :
    Optimum r.permille (feasibleAt c r prescaler) (trial c r prescaler).split? := by
  have noneAt (impossible : ∀ x, Feasible c r x → x.prescaler = prescaler → False) :
      Optimum r.permille (feasibleAt c r prescaler) none :=
    Set.eq_empty_of_forall_notMem fun x ⟨feasible, here⟩ => impossible x feasible here
  rw [trial]
  by_cases inexact : c.clock.toNat % (prescaler * r.bitrate) ≠ 0
  · rw [if_pos inexact]
    refine noneAt ?_
    rintro x feasible rfl
    exact inexact feasible.divides
  rw [if_neg inexact]
  by_cases outside : bitLengthAt c r prescaler < c.minBitLength ∨
      c.maxBitLength < bitLengthAt c r prescaler
  · rw [if_pos outside]
    refine noneAt ?_
    rintro x feasible rfl
    rw [feasible.bitLengthAt_eq searchable] at outside
    have least := feasible.minBitLength_le
    have most := feasible.le_maxBitLength
    omega
  rw [if_neg outside]
  by_cases tooFew : bitLengthAt c r prescaler < r.minQuanta
  · rw [if_pos tooFew]
    refine noneAt ?_
    rintro x feasible rfl
    rw [feasible.bitLengthAt_eq searchable] at tooFew
    exact absurd feasible.enoughQuanta (Nat.not_le.mpr tooFew)
  rw [if_neg tooFew]
  have optimum := split?_optimum r searchable.segment2Pos prescaler (bitLengthAt c r prescaler)
  rw [← feasibleAt_eq_fitting searchable onStep inRange (not_not.mp inexact)
    (Nat.le_of_not_lt tooFew)] at optimum
  cases fitted : split? c r prescaler (bitLengthAt c r prescaler) with
  | none =>
      rw [fitted] at optimum
      exact optimum
  | some split =>
      rw [fitted] at optimum
      exact optimum

/-- A split of a larger prescaler replaces the best one so far exactly if it is strictly closer. -/
theorem Search.record_optimum {permille : Nat} {seen tried : Set Split} {s : Search} {t : Trial}
    (best : Optimum permille seen s.best) (found : Optimum permille tried t.split?)
    (larger : ∀ x ∈ seen, ∀ y ∈ tried, x.prescaler < y.prescaler) :
    Optimum permille (seen ∪ tried) (s.record permille t).best := by
  cases t with
  | inexact =>
      have nothing : tried = ∅ := found
      rw [nothing, Set.union_empty]
      exact best
  | failed reason =>
      have nothing : tried = ∅ := found
      rw [nothing, Set.union_empty]
      exact best
  | found split =>
      obtain ⟨member, least⟩ := found
      cases held : s.best with
      | none =>
          rw [held, Optimum] at best
          simp only [record, held, best, Set.empty_union]
          exact ⟨member, least⟩
      | some old =>
          rw [held] at best
          obtain ⟨oldMember, oldLeast⟩ := best
          have prescaler := larger old oldMember split member
          simp only [record, held]
          by_cases closer : split.closer permille old = true
          · -- The new split beats the old one, and through it everything seen before.
            rw [if_pos closer]
            have beats : split.rank permille < old.rank permille :=
              Split.rank_lt_iff.mpr (.inl (Split.closer_iff.mp closer))
            refine ⟨.inr member, ?_⟩
            rintro y (before | now) different
            · by_cases same : y = old
              · rw [same]
                exact beats
              · exact beats.trans (oldLeast y before same)
            · exact least y now different
          · -- The old split has the smaller prescaler, which decides a tie.
            rw [if_neg closer]
            have beats : old.rank permille < split.rank permille := by
              rw [Split.rank_lt_iff]
              rcases lt_or_eq_of_le (not_lt.mp (mt Split.closer_iff.mpr closer)) with less | equal
              · exact .inl less
              · exact .inr ⟨equal, .inl prescaler⟩
            rw [held]
            refine ⟨.inl oldMember, ?_⟩
            rintro y (before | now) different
            · exact oldLeast y before different
            · by_cases same : y = split
              · rw [same]
                exact beats
              · exact beats.trans (least y now same)

theorem nthPrescaler_succ (c : Constraints) (k : Nat) :
    nthPrescaler c (k + 1) = nthPrescaler c k + c.prescalerStep.toNat := by
  rw [nthPrescaler, nthPrescaler]
  ring

theorem nthPrescaler_le {c : Constraints} {r : Request} (searchable : Searchable c r) {k : Nat} :
    nthPrescaler c k ≤ c.prescalerMax.toNat ↔ k ≤ c.prescalerSteps := by
  have nonempty := searchable.rangeNonempty
  rw [nthPrescaler, Constraints.prescalerSteps, Nat.le_div_iff_mul_le searchable.stepPos]
  omega

theorem nthPrescaler_lt_iff {c : Constraints} {r : Request} (searchable : Searchable c r)
    {j k : Nat} : nthPrescaler c j < nthPrescaler c k ↔ j < k := by
  rw [nthPrescaler, nthPrescaler, Nat.add_lt_add_iff_left,
    Nat.mul_lt_mul_right searchable.stepPos]

/-- No prescaler lies between two successive ones. -/
theorem feasibleBelow_succ {c : Constraints} {r : Request} (searchable : Searchable c r)
    (k : Nat) :
    feasibleBelow c r (nthPrescaler c (k + 1)) =
      feasibleBelow c r (nthPrescaler c k) ∪ feasibleAt c r (nthPrescaler c k) := by
  ext x
  constructor
  · rintro ⟨feasible, below⟩
    obtain ⟨j, onStep⟩ := feasible.onStep
    rw [← nthPrescaler] at onStep
    rw [onStep, nthPrescaler_lt_iff searchable, Nat.lt_succ_iff_lt_or_eq] at below
    rcases below with earlier | rfl
    · refine .inl ⟨feasible, ?_⟩
      rw [onStep]
      exact (nthPrescaler_lt_iff searchable).mpr earlier
    · exact .inr ⟨feasible, onStep⟩
  · rintro (⟨feasible, below⟩ | ⟨feasible, same⟩)
    · exact ⟨feasible, below.trans ((nthPrescaler_lt_iff searchable).mpr k.lt_succ_self)⟩
    · refine ⟨feasible, ?_⟩
      rw [same]
      exact (nthPrescaler_lt_iff searchable).mpr k.lt_succ_self

/-- Beyond a prescaler whose bit is too short no split is feasible. -/
theorem feasibleBelow_of_tooShort {c : Constraints} {r : Request} (searchable : Searchable c r)
    {prescaler : Nat} (positive : 0 < prescaler)
    (tooShort : bitLengthAt c r prescaler < c.minBitLength) :
    feasibleBelow c r prescaler = {x | Feasible c r x} := by
  ext x
  refine ⟨fun below => below.1, fun feasible => ⟨feasible, ?_⟩⟩
  by_contra beyond
  have shorter : bitLengthAt c r x.prescaler ≤ bitLengthAt c r prescaler :=
    bitLengthAt_le searchable.bitratePos positive (not_lt.mp beyond)
  rw [feasible.bitLengthAt_eq searchable] at shorter
  have least := feasible.minBitLength_le
  omega

theorem nthPrescaler_pos {c : Constraints} {r : Request} (searchable : Searchable c r) (k : Nat) :
    0 < nthPrescaler c k :=
  Nat.add_pos_left searchable.prescalerPos _

/-- One trial extends the best of the smaller prescalers by the prescaler it tries. -/
theorem search_step {c : Constraints} {r : Request} (searchable : Searchable c r) {k : Nat}
    {s : Search} (within : k ≤ c.prescalerSteps)
    (seen : Optimum r.permille (feasibleBelow c r (nthPrescaler c k)) s.best) :
    Optimum r.permille (feasibleBelow c r (nthPrescaler c (k + 1)))
      (s.record r.permille (trial c r (nthPrescaler c k))).best := by
  have tried := trial_optimum searchable ⟨k, rfl⟩ ((nthPrescaler_le searchable).mpr within)
  rw [feasibleBelow_succ searchable]
  refine Search.record_optimum seen tried ?_
  rintro x ⟨-, below⟩ y ⟨-, here⟩
  rw [here]
  exact below

/-- The search ends with the best of all feasible splits, those it does not try included. -/
theorem search_optimum {c : Constraints} {r : Request} (searchable : Searchable c r)
    {steps k : Nat} {s : Search} (left : k + steps = c.prescalerSteps)
    (seen : Optimum r.permille (feasibleBelow c r (nthPrescaler c k)) s.best) :
    Optimum r.permille {x | Feasible c r x} (search c r steps (nthPrescaler c k) s).best := by
  induction steps generalizing k s with
  | zero =>
      have next := search_step searchable (by omega : k ≤ c.prescalerSteps) seen
      have all : feasibleBelow c r (nthPrescaler c (k + 1)) = {x | Feasible c r x} := by
        ext x
        refine ⟨fun below => below.1, fun feasible => ⟨feasible, ?_⟩⟩
        have beyond := mt (nthPrescaler_le searchable).mp (by omega : ¬ k + 1 ≤ c.prescalerSteps)
        exact Nat.lt_of_le_of_lt feasible.inRange (not_le.mp beyond)
      rw [all] at next
      rw [search]
      simp only [ite_self]
      exact next
  | succ steps ih =>
      have next := search_step searchable (by omega : k ≤ c.prescalerSteps) seen
      rw [search]
      by_cases tooShort : bitLengthAt c r (nthPrescaler c k) < c.minBitLength
      · rw [if_pos tooShort]
        rw [feasibleBelow_succ searchable,
          feasibleBelow_of_tooShort searchable (nthPrescaler_pos searchable k) tooShort,
          Set.union_eq_self_of_subset_right fun x here => here.1] at next
        exact next
      · rw [if_neg tooShort]
        simp only [← nthPrescaler_succ]
        exact ih (by omega) next

theorem Constraints.fault?_of_validate {c : Constraints} (accepted : c.validate = .ok ()) :
    c.fault? = none := by
  rw [validate] at accepted
  cases faulty : c.fault? with
  | none => rfl
  | some fault =>
      rw [faulty] at accepted
      cases accepted

/-- Valid ranges have a clock, prescalers, a segment 2 and a jump width. -/
theorem Constraints.bounds_of_validate {c : Constraints} (accepted : c.validate = .ok ()) :
    0 < c.clock.toNat ∧ 0 < c.prescalerMin.toNat ∧ 0 < c.prescalerStep.toNat ∧
      c.prescalerMin.toNat ≤ c.prescalerMax.toNat ∧ 0 < c.segment2Min.toNat ∧
      0 < c.jumpWidthMax.toNat := by
  have faultless := fault?_of_validate accepted
  have positive : ∀ {x : UInt32}, x ≠ 0 → 0 < x.toNat := fun {x} nonzero =>
    Nat.pos_of_ne_zero fun zero => nonzero (UInt32.toNat_inj.mp zero)
  simp only [fault?] at faultless
  split_ifs at faultless with clock prescaler step range uneven range1 least2 range2 width
  exact ⟨positive clock, positive prescaler, positive step,
    UInt32.le_iff_toNat_le.mp (UInt32.not_lt.mp range), positive least2, positive width⟩

/-- The segment ranges of valid ranges are not empty. -/
theorem Constraints.segments_of_validate {c : Constraints} (accepted : c.validate = .ok ()) :
    c.segment1Min.toNat ≤ c.segment1Max.toNat ∧ c.segment2Min.toNat ≤ c.segment2Max.toNat := by
  have faultless := fault?_of_validate accepted
  simp only [fault?] at faultless
  split_ifs at faultless with clock prescaler step range uneven range1 least2 range2 width
  exact ⟨UInt32.le_iff_toNat_le.mp (UInt32.not_lt.mp range1),
    UInt32.le_iff_toNat_le.mp (UInt32.not_lt.mp range2)⟩

/-- A valid request has the bitrate and the jump width of its target, the one not zero and the other
allowed by the device. -/
theorem Target.bounds_of_request {c : Constraints} {t : Target} {phase : Phase} {r : Request}
    (requested : t.request c phase = .ok r) :
    r.bitrate = t.bitrate.toNat ∧ r.jumpWidth = t.explicitJumpWidth ∧ 0 < r.bitrate ∧
      r.jumpWidth.getD 0 ≤ c.jumpWidthMax.toNat := by
  simp only [request] at requested
  cases point : SamplePoint.ofNumber? t.samplePoint with
  | none =>
      rw [point] at requested
      split_ifs at requested
  | some samplePoint =>
      rw [point] at requested
      split_ifs at requested with bitrate tooFast tooWide
      cases requested
      refine ⟨rfl, rfl, Nat.pos_of_ne_zero bitrate, ?_⟩
      cases asked : t.explicitJumpWidth with
      | none => exact Nat.zero_le _
      | some jumpWidth =>
          rw [asked, Option.any_some, decide_eq_true_iff] at tooWide
          exact not_lt.mp tooWide

/-- What the validation of ranges and target leaves to the search. -/
theorem searchable_of_accepted {c : Constraints} {t : Target} {phase : Phase} {r : Request}
    (accepted : c.validate = .ok ()) (requested : t.request c phase = .ok r) : Searchable c r := by
  obtain ⟨clock, prescaler, step, range, segment2, -⟩ := Constraints.bounds_of_validate accepted
  obtain ⟨-, -, bitrate, jumpWidth⟩ := Target.bounds_of_request requested
  exact ⟨clock, prescaler, step, range, segment2, bitrate, jumpWidth⟩

/-- Ranges and target are looked at before the search, and never again. -/
theorem solve_eq {c : Constraints} {t : Target} {phase : Phase} {r : Request}
    (accepted : c.validate = .ok ()) (requested : t.request c phase = .ok r) :
    solve c t phase =
      match (search c r c.prescalerSteps c.prescalerMin.toNat .start).best with
      | some split => .ok (split.settings c r)
      | none => .error (.noSolution
          (search c r c.prescalerSteps c.prescalerMin.toNat .start).reason) := by
  rw [solve, accepted]
  simp only [requested]
  cases (search c r c.prescalerSteps c.prescalerMin.toNat .start).best <;> rfl

/-- The registers hold the values of a feasible split as they are. -/
theorem Feasible.settings_toNat {c : Constraints} {r : Request} {x : Split}
    (searchable : Searchable c r) (feasible : Feasible c r x) :
    (x.settings c r).prescaler.toNat = x.prescaler ∧
      (x.settings c r).segment1.toNat = x.segment1 ∧
      (x.settings c r).segment2.toNat = x.segment2 ∧
      (x.settings c r).jumpWidth.toNat =
        r.jumpWidth.getD (min c.jumpWidthMax.toNat x.segment2) := by
  have lossless : ∀ {n : Nat} (bound : UInt32), n ≤ bound.toNat → n.toUInt32.toNat = n :=
    fun bound within => UInt32.toNat_ofNat_of_lt' (within.trans_lt bound.toNat_lt)
  refine ⟨lossless _ feasible.inRange, lossless _ feasible.fits.segment1Most,
    lossless _ feasible.fits.segment2Most, lossless c.jumpWidthMax ?_⟩
  have most := searchable.jumpWidthMost
  cases asked : r.jumpWidth with
  | none => exact Nat.min_le_left ..
  | some jumpWidth =>
      rw [asked] at most
      exact most

/-- The search among all feasible splits, from its start. -/
theorem search_start_optimum {c : Constraints} {r : Request} (searchable : Searchable c r) :
    Optimum r.permille {x | Feasible c r x}
      (search c r c.prescalerSteps c.prescalerMin.toNat .start).best := by
  have first : nthPrescaler c 0 = c.prescalerMin.toNat := by
    rw [nthPrescaler, Nat.zero_mul, Nat.add_zero]
  rw [← first]
  refine search_optimum searchable (Nat.zero_add _) ?_
  refine Set.eq_empty_of_forall_notMem ?_
  rintro x ⟨feasible, below⟩
  obtain ⟨k, onStep⟩ := feasible.onStep
  omega

/-- For ranges and a target that pass validation, the solver gives register values exactly if some
split is feasible, and gives those of the only feasible split that ranks before all others, with the
requested jump width or else the largest that ranges and segment 2 allow. -/
theorem solve_is_optimal {c : Constraints} {t : Target} {phase : Phase} {r : Request}
    (accepted : c.validate = .ok ()) (requested : t.request c phase = .ok r) :
    ((∃ s, solve c t phase = .ok s) ↔ ∃ x, Feasible c r x) ∧
      ∀ s, solve c t phase = .ok s →
        ∃ x, Feasible c r x ∧
          (∀ y, Feasible c r y → y ≠ x → x.rank r.permille < y.rank r.permille) ∧
          s.prescaler.toNat = x.prescaler ∧ s.segment1.toNat = x.segment1 ∧
          s.segment2.toNat = x.segment2 ∧
          s.jumpWidth.toNat = r.jumpWidth.getD (min c.jumpWidthMax.toNat x.segment2) := by
  have searchable := searchable_of_accepted accepted requested
  have optimum := search_start_optimum searchable
  rw [solve_eq accepted requested]
  cases found : (search c r c.prescalerSteps c.prescalerMin.toNat .start).best with
  | none =>
      rw [found] at optimum
      have nothing : ∀ x, ¬ Feasible c r x := Set.eq_empty_iff_forall_notMem.mp optimum
      refine ⟨⟨?_, ?_⟩, ?_⟩
      · rintro ⟨s, solved⟩
        cases solved
      · rintro ⟨x, feasible⟩
        exact absurd feasible (nothing x)
      · rintro s solved
        cases solved
  | some x =>
      rw [found] at optimum
      obtain ⟨feasible, least⟩ := optimum
      refine ⟨⟨fun _ => ⟨x, feasible⟩, fun _ => ⟨_, rfl⟩⟩, ?_⟩
      rintro s solved
      cases solved
      exact ⟨x, feasible, least, feasible.settings_toNat searchable⟩

/-- Register ranges of a small controller that runs at 80 MHz. -/
def Constraints.at80MHz : Constraints := ⟨80000000, 1, 32, 1, 1, 16, 1, 8, 4⟩

/-- Prescalers 10 and 20 both reach 500 kbit/s from 80 MHz with the recommended sample point; the
smaller one is taken. -/
theorem solve_is_optimal_on_tie :
    Constraints.at80MHz.validate = .ok () ∧
      (Target.ofBitrate 500000).request .at80MHz .nominal = .ok ⟨500000, 875, none, 0⟩ ∧
      solve .at80MHz (.ofBitrate 500000) .nominal = .ok ⟨10, 13, 2, 2⟩ ∧
      Feasible .at80MHz ⟨500000, 875, none, 0⟩ ⟨10, 13, 2⟩ ∧
      ∀ y, Feasible .at80MHz ⟨500000, 875, none, 0⟩ y → y ≠ ⟨10, 13, 2⟩ →
        Split.rank 875 ⟨10, 13, 2⟩ < y.rank 875 := by
  have accepted : Constraints.at80MHz.validate = .ok () := by rfl
  have requested : (Target.ofBitrate 500000).request .at80MHz .nominal =
      .ok ⟨500000, 875, none, 0⟩ := by rfl
  have solved : solve .at80MHz (.ofBitrate 500000) .nominal = .ok ⟨10, 13, 2, 2⟩ := by rfl
  obtain ⟨x, feasible, least, prescaler, segment1, segment2, -⟩ :=
    (solve_is_optimal accepted requested).2 _ solved
  have split : x = ⟨10, 13, 2⟩ := by
    cases x
    cases prescaler
    cases segment1
    cases segment2
    rfl
  subst split
  exact ⟨accepted, requested, solved, feasible, least⟩

end CanLink.Timing
