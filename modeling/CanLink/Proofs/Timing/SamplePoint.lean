import CanLink.Proofs.Numeric.Exact
import CanLink.Proofs.Timing.Registers
import Mathlib.Algebra.Order.Round
import Mathlib.Tactic.Linarith

/-!
Sample points as a caller asks for them. A request in single precision is scaled by
`samplePointScale` in double precision, which changes nothing, and is then rounded to an integer
(`SamplePoint.permille_explicit`). The search is exact for the rounded request, and the rounded
request is off by half a part at most; so no split that the device admits comes closer to the sample
point that was asked for by more than one part (`sample_point_is_met_within_permille`).
-/

namespace CanLink.Timing

open Numeric (Binary32 Magnitude Format Number Reading)

namespace SamplePoint

/-- What is refused is not a number, below zero or above one. -/
theorem ofNumber?_eq_none_iff {x : Binary32} :
    ofNumber? x = none ↔ x.reading = .nan ∨ x.reading.Below 0 ∨ x.reading.Above 1 := by
  rw [ofNumber?]
  cases x.reading with
  | nan => simp
  | infinite negative => cases negative <;> simp [Reading.Below, Reading.Above]
  | finite negative m =>
      have nonneg := m.value_nonneg
      by_cases zero : m.significand = 0
      · have value := Magnitude.value_eq_zero_iff.mpr zero
        cases negative <;> simp [zero, Reading.Below, Reading.Above, Magnitude.signed, value]
      · have positive : 0 < m.value :=
          lt_of_le_of_ne nonneg fun same => zero (Magnitude.value_eq_zero_iff.mp same.symm)
        cases negative with
        | true => simp [zero, Reading.Below, Magnitude.signed, positive]
        | false =>
            simp [zero, Reading.Below, Reading.Above, Magnitude.signed, nonneg,
              Magnitude.one_lt_value_iff]

/-- Zero of either sign stands for the recommended sample point, and every other number up to one
for itself, however small it is. -/
theorem ofNumber?_of_denotes {x : Binary32} {v : ℚ} (denotes : x.Denotes v) (low : 0 ≤ v)
    (high : v ≤ 1) :
    (v = 0 → ofNumber? x = some .recommended) ∧
      (v ≠ 0 → ofNumber? x = some (.explicit x.magnitude) ∧ x.magnitude.value = v) := by
  obtain ⟨negative, m, reading, rfl⟩ := denotes
  obtain rfl := Number.magnitude_of_reading reading
  have nonneg := x.magnitude.value_nonneg
  have fits : x.magnitude.value = x.magnitude.signed negative := by
    cases negative with
    | true =>
        simp only [Magnitude.signed, if_true] at low ⊢
        linarith
    | false => rfl
  rw [← fits] at high ⊢
  rw [ofNumber?, reading]
  refine ⟨?_, ?_⟩
  · intro zero
    simp only [Magnitude.value_eq_zero_iff.mp zero, if_true]
  · intro nonzero
    have significand := mt Magnitude.value_eq_zero_iff.mpr nonzero
    have positive : negative = false := by
      cases negative with
      | true =>
          simp only [Magnitude.signed, if_true] at low fits
          exact absurd (by linarith) nonzero
      | false => rfl
    have atMost := mt Magnitude.one_lt_value_iff.mpr (not_lt.mpr high)
    simp [significand, positive, atMost]

/-- Scaling a number of single precision in double precision loses nothing. -/
theorem value_scaled (x : Binary32) :
    (Format.binary64.round (x.magnitude.numerator * samplePointScale)
      x.magnitude.denominator).value = samplePointScale * x.magnitude.value := by
  obtain ⟨small, coarse⟩ := x.magnitude_bounds (by decide)
  let scaled : Magnitude := ⟨x.magnitude.significand * samplePointScale, x.magnitude.exponent⟩
  have numerator : x.magnitude.numerator * samplePointScale = scaled.numerator :=
    Nat.mul_right_comm ..
  have fits : scaled.significand < 2 ^ Format.binary64.precision := by
    simp only [scaled, samplePointScale, Format.binary32, Format.binary64] at small ⊢
    omega
  have exact : Format.binary64.leastExponent ≤ scaled.exponent :=
    le_trans (by decide) coarse
  rw [numerator]
  refine (Format.value_round Format.binary64 fits exact).trans ?_
  simp only [Magnitude.value, scaled]
  push_cast
  ring

/-- An explicit sample point is rounded to the nearest part, a half going up. -/
theorem permille_explicit (x : Binary32) (phase : Phase) (bitrate : Nat) :
    ((explicit x.magnitude).permille phase bitrate : ℤ) =
      ⌊1000 * x.magnitude.value + 1 / 2⌋ := by
  have scale : ((samplePointScale : ℕ) : ℚ) = 1000 := by norm_num [samplePointScale]
  rw [permille, Numeric.nearestUp_eq_floor _ (Magnitude.denominator_pos _),
    ← Magnitude.value_eq_div, value_scaled, scale]

end SamplePoint

variable {c : Constraints} {t : Target} {phase : Phase} {r : Request} {s : Settings}

/-- All of a target but the sample point is as it should be. -/
structure Target.OtherwiseValid (t : Target) (c : Constraints) (phase : Phase) : Prop where
  bitratePos : t.bitrate.toNat ≠ 0
  bitrateMost : t.bitrate.toNat ≤ phase.maxBitrate
  jumpWidthMost : t.jumpWidth.toInt ≤ c.jumpWidthMax.toNat

/-- The request of a target with a sample point in parts of `samplePointScale`. -/
def Target.requestAt (t : Target) (permille : Nat) : Request where
  bitrate := t.bitrate.toNat
  permille
  jumpWidth := t.explicitJumpWidth
  minQuanta := t.minQuanta.toNat

theorem Target.OtherwiseValid.request_eq (valid : t.OtherwiseValid c phase) :
    t.request c phase =
      match SamplePoint.ofNumber? t.samplePoint with
      | none => .error .samplePointOutside
      | some samplePoint => .ok (t.requestAt (samplePoint.permille phase t.bitrate.toNat)) := by
  have narrow : t.explicitJumpWidth.any (c.jumpWidthMax.toNat < ·) = false := by
    have most := valid.jumpWidthMost
    rw [explicitJumpWidth]
    split
    · simp only [Option.any_some, decide_eq_false_iff_not]
      omega
    · rfl
  rw [request, if_neg valid.bitratePos, if_neg (Nat.not_lt.mpr valid.bitrateMost)]
  simp only [narrow]
  rfl

/-- The solver gives the values of a feasible split that no feasible one is closer than. -/
theorem closest_of_solve (requested : t.request c phase = .ok r)
    (solved : solve c t phase = .ok s) :
    ∃ x, Feasible c r x ∧ s.segment1.toNat = x.segment1 ∧ s.segment2.toNat = x.segment2 ∧
      ∀ y, Feasible c r y → x.sampleError r.permille ≤ y.sampleError r.permille := by
  obtain ⟨-, -, accepted, -⟩ := feasible_of_solve solved
  have searchable := searchable_of_accepted accepted requested
  have optimum := search_start_optimum searchable
  rw [solve_eq accepted requested] at solved
  cases found : (search c r c.prescalerSteps c.prescalerMin.toNat .start).best with
  | none =>
      rw [found] at solved
      cases solved
  | some x =>
      rw [found] at solved optimum
      cases solved
      obtain ⟨feasible, least⟩ := optimum
      obtain ⟨-, segment1, segment2, -⟩ := feasible.settings_toNat searchable
      refine ⟨x, feasible, segment1, segment2, ?_⟩
      intro y other
      by_cases same : y = x
      · rw [same]
      · rcases Split.rank_lt_iff.mp (least y other same) with closer | ⟨equal, -⟩
        · exact closer.le
        · exact equal.le

/-- The nearest part is half a part away at most. -/
theorem abs_permille_sub_le {v : ℚ} {permille : Nat}
    (rounded : (permille : ℤ) = ⌊1000 * v + 1 / 2⌋) :
    |(permille : ℚ) / samplePointScale - v| ≤ 1 / 2000 := by
  have half := abs_sub_round (1000 * v)
  rw [round_eq, ← rounded, Int.cast_natCast] at half
  have scaled : (permille : ℚ) / samplePointScale - v = -(1000 * v - permille) / 1000 := by
    norm_num [samplePointScale]
    ring
  rw [scaled, abs_div, abs_neg]
  norm_num at half ⊢
  linarith

/-- A number up to one is rounded to at most all parts. -/
theorem permille_le {v : ℚ} {permille : Nat} (rounded : (permille : ℤ) = ⌊1000 * v + 1 / 2⌋)
    (high : v ≤ 1) : permille ≤ samplePointScale := by
  have below : ⌊1000 * v + 1 / 2⌋ < 1001 := by
    rw [Int.floor_lt]
    push_cast
    linarith
  simp only [samplePointScale]
  omega

/-- Where the sample point of a split is `reached`, replacing the one that was asked for by a near
one costs that distance twice. -/
theorem abs_sub_le_of_near {reached other wanted rounded slack : ℚ}
    (near : |rounded - wanted| ≤ slack)
    (closest : |reached - rounded| ≤ |other - rounded|) :
    |reached - wanted| ≤ |other - wanted| + 2 * slack := by
  have first := abs_sub_le reached rounded wanted
  have second := abs_sub_le other wanted rounded
  rw [abs_sub_comm wanted rounded] at second
  linarith

/-- Sample points of requests that are valid otherwise. Refused is what is not a number, below zero
or above one. Zero of either sign asks for the recommended one. Every other number `v` is scaled
without loss and rounded to the nearest part, a half going up, and the sample point of the solution
is further from `v` than that of any feasible split by one part at most. -/
theorem sample_point_is_met_within_permille (valid : t.OtherwiseValid c phase) :
    (t.request c phase = .error .samplePointOutside ↔
        t.samplePoint.reading = .nan ∨ t.samplePoint.reading.Below 0 ∨
          t.samplePoint.reading.Above 1) ∧
      ∀ v, t.samplePoint.Denotes v → 0 ≤ v → v ≤ 1 →
        ∃ permille, t.request c phase = .ok (t.requestAt permille) ∧
          (v = 0 → permille = phase.recommendedPermille t.bitrate.toNat) ∧
          (v ≠ 0 →
            (∃ fraction, SamplePoint.ofNumber? t.samplePoint = some (.explicit fraction) ∧
              (Format.binary64.round (fraction.numerator * samplePointScale)
                fraction.denominator).value = 1000 * v) ∧
            (permille : ℤ) = ⌊1000 * v + 1 / 2⌋ ∧ permille ≤ 1000 ∧
            ∀ s, solve c t phase = .ok s → ∀ y, Feasible c (t.requestAt permille) y →
              |(1 + s.segment1.toNat : ℚ) / s.bitLength - v| ≤
                |(1 + y.segment1 : ℚ) / y.bitLength - v| + 1 / 1000) := by
  have request := valid.request_eq
  refine ⟨?_, ?_⟩
  · rw [← SamplePoint.ofNumber?_eq_none_iff, request]
    cases SamplePoint.ofNumber? t.samplePoint <;> simp
  intro v denotes low high
  obtain ⟨recommended, explicit⟩ := SamplePoint.ofNumber?_of_denotes denotes low high
  by_cases zero : v = 0
  · rw [recommended zero] at request
    exact ⟨_, request, fun _ => rfl, fun nonzero => absurd zero nonzero⟩
  obtain ⟨asked, value⟩ := explicit zero
  rw [asked] at request
  have rounded := SamplePoint.permille_explicit t.samplePoint phase t.bitrate.toNat
  rw [value] at rounded
  refine ⟨_, request, fun same => absurd same zero, fun _ => ⟨⟨_, asked, ?_⟩, rounded, ?_, ?_⟩⟩
  · rw [SamplePoint.value_scaled, value]
    norm_num [samplePointScale]
  · exact permille_le rounded high
  · intro s solved y feasible
    obtain ⟨x, -, segment1, segment2, closest⟩ := closest_of_solve request solved
    have bitLength : s.bitLength = x.bitLength := by
      rw [Settings.bitLength, Split.bitLength, segment1, segment2]
    rw [segment1, bitLength]
    have met := abs_sub_le_of_near (abs_permille_sub_le rounded) (closest y feasible)
    norm_num at met ⊢
    exact met

/-- 500 kbit/s with the sample point at 13/16 of the bit, half way between two parts. -/
def Target.halfWay : Target := ⟨500000, ⟨0x3f500000⟩, 0, 0⟩

theorem half_way_sample_point_is_met :
    let s : Settings := ⟨10, 12, 3, 3⟩
    let y : Split := ⟨8, 15, 4⟩
    Target.halfWay.OtherwiseValid .at80MHz .nominal ∧
      Target.halfWay.samplePoint.Denotes (13 / 16) ∧
      Target.halfWay.request .at80MHz .nominal = .ok (Target.halfWay.requestAt 813) ∧
      solve .at80MHz .halfWay .nominal = .ok s ∧
      Feasible .at80MHz (Target.halfWay.requestAt 813) y ∧
      |(1 + s.segment1.toNat : ℚ) / s.bitLength - 13 / 16| ≤
        |(1 + y.segment1 : ℚ) / y.bitLength - 13 / 16| + 1 / 1000 := by
  intro s y
  have valid : Target.halfWay.OtherwiseValid .at80MHz .nominal :=
    ⟨by decide, by decide, by decide⟩
  have denotes : Target.halfWay.samplePoint.Denotes (13 / 16) :=
    ⟨false, ⟨13 * 2 ^ 20, -24⟩, by decide, by norm_num [Magnitude.signed, Magnitude.value]⟩
  have solved : solve .at80MHz .halfWay .nominal = .ok s := by rfl
  have feasible : Feasible .at80MHz (Target.halfWay.requestAt 813) y :=
    ⟨⟨7, by decide⟩, by decide, by decide, ⟨by decide, by decide, by decide, by decide⟩, by decide⟩
  obtain ⟨permille, requested, -, explicit⟩ :=
    (sample_point_is_met_within_permille valid).2 _ denotes (by norm_num) (by norm_num)
  obtain ⟨-, rounded, -, met⟩ := explicit (by norm_num)
  obtain rfl : permille = 813 := by
    have half : ⌊(1000 * (13 / 16) + 1 / 2 : ℚ)⌋ = 813 := by norm_num
    rw [half] at rounded
    exact_mod_cast rounded
  exact ⟨valid, denotes, requested, solved, feasible, met s solved y feasible⟩

end CanLink.Timing
