import CanLink.Proofs.Timing.SamplePoint
import CanLink.Proofs.Timing.Scan
import CanLink.Proofs.Timing.Words

/-!
The arithmetic of the solver never goes wrong (`solver_arithmetic_is_exact`). Clock, prescaler,
bitrate and segments come from 32 bits each, so the product of a prescaler and a bitrate fits 64
bits; a bit length is part of the clock, so it fits 32 bits, and a deviation of a thousand parts of
it 64; and the cross product of two deviations fits 128. What is subtracted was compared before, and
what is divided by is a product of numbers that validation found to be positive. With these bounds a
search in words visits the same prescalers and splits as the search in numbers: `scan_eq` for the
splits of one bit, `visit_eq` for one prescaler, `search_eq` for all of them.
-/

namespace CanLink.Timing

open Numeric.Word

namespace Words

theorem wide_eq (x : UInt32) : wide x = BitVec.ofNat 64 x.toNat :=
  BitVec.eq_of_toNat_eq (by simp [wide])

theorem toBitVec_eq (x : UInt32) : x.toBitVec = BitVec.ofNat 32 x.toNat :=
  BitVec.eq_of_toNat_eq (by simp)

/-- Numbers of 32 bits fit 64. -/
theorem lt_wide {n : Nat} (small : n ≤ 2 ^ 32) : n < 2 ^ 64 := Nat.lt_of_le_of_lt small (by decide)

/-- A thousand parts of a number of 32 bits fit 64. -/
theorem parts_lt_wide {n : Nat} (small : n < 2 ^ 32) : samplePointScale * n < 2 ^ 64 := by
  rw [samplePointScale]
  omega

/-- The product of two numbers of 32 bits fits 64. -/
theorem product_lt_wide {a b : Nat} (left : a < 2 ^ 32) (right : b < 2 ^ 32) : a * b < 2 ^ 64 :=
  calc a * b < 2 ^ 32 * 2 ^ 32 := Nat.mul_lt_mul'' left right
    _ = 2 ^ 64 := by decide

theorem mul?_wide {x : UInt32} {a : Nat} (small : a < 2 ^ 32) :
    mul? (wide x) (BitVec.ofNat 64 a) = some (BitVec.ofNat 64 (x.toNat * a)) := by
  rw [wide_eq]
  exact mul?_ofNat (lt_wide x.toNat_lt.le) (lt_wide small.le) (product_lt_wide x.toNat_lt small)

theorem div?_wide {x : UInt32} {a : Nat} (small : a < 2 ^ 64) (nonzero : a ≠ 0) :
    div? (wide x) (BitVec.ofNat 64 a) = some (BitVec.ofNat 64 (x.toNat / a)) := by
  rw [wide_eq]
  exact div?_ofNat (lt_wide x.toNat_lt.le) small nonzero

theorem rem?_wide {x : UInt32} {a : Nat} (small : a < 2 ^ 64) (nonzero : a ≠ 0) :
    rem? (wide x) (BitVec.ofNat 64 a) = some (BitVec.ofNat 64 (x.toNat % a)) := by
  rw [wide_eq]
  exact rem?_ofNat (lt_wide x.toNat_lt.le) small nonzero

/-- Ranges are checked without going wrong: the difference is taken of an ordered range, and the
remainder by a step that is not zero. -/
theorem fault?_eq (c : Constraints) : fault? c = some c.fault? := by
  rw [fault?, Constraints.fault?]
  by_cases clock : c.clock = 0
  · rw [if_pos clock, if_pos clock]
  rw [if_neg clock, if_neg clock]
  by_cases least : c.prescalerMin = 0
  · rw [if_pos least, if_pos least]
  rw [if_neg least, if_neg least]
  by_cases step : c.prescalerStep = 0
  · rw [if_pos step, if_pos step]
  rw [if_neg step, if_neg step]
  by_cases range : c.prescalerMax < c.prescalerMin
  · rw [if_pos range, if_pos range]
  rw [if_neg range, if_neg range]
  have ordered : c.prescalerMin.toBitVec.toNat ≤ c.prescalerMax.toBitVec.toNat :=
    UInt32.le_iff_toNat_le.mp (UInt32.not_lt.mp range)
  have nonzero : c.prescalerStep.toBitVec ≠ 0 := fun zero => step (UInt32.toBitVec_inj.mp zero)
  have uneven : c.prescalerMax.toBitVec - c.prescalerMin.toBitVec =
      (c.prescalerMax - c.prescalerMin).toBitVec := rfl
  have rest : (c.prescalerMax - c.prescalerMin).toBitVec % c.prescalerStep.toBitVec ≠ 0 ↔
      (c.prescalerMax - c.prescalerMin) % c.prescalerStep ≠ 0 := UInt32.toBitVec_inj.not
  simp only [sub?, if_pos ordered, rem?, if_neg nonzero, uneven, Option.bind_eq_bind,
    Option.bind_some, rest]
  split_ifs <;> rfl

theorem wideBitLength_lt (segment1 segment2 : UInt32) :
    1 + segment1.toNat + segment2.toNat < 2 ^ 64 := by
  have front := segment1.toNat_lt
  have back := segment2.toNat_lt
  omega

theorem wideBitLength_eq (segment1 segment2 : UInt32) :
    wideBitLength segment1 segment2 =
      some (BitVec.ofNat 64 (1 + segment1.toNat + segment2.toNat)) := by
  have fits := wideBitLength_lt segment1 segment2
  rw [wideBitLength, wide_eq, wide_eq, add?_ofNat (by omega)]
  exact add?_ofNat fits

theorem minBitLength_lt (c : Constraints) : c.minBitLength < 2 ^ 64 := wideBitLength_lt ..

theorem maxBitLength_lt (c : Constraints) : c.maxBitLength < 2 ^ 64 := wideBitLength_lt ..

theorem minBitLength_eq (c : Constraints) :
    minBitLength c = some (BitVec.ofNat 64 c.minBitLength) := wideBitLength_eq ..

theorem maxBitLength_eq (c : Constraints) :
    maxBitLength c = some (BitVec.ofNat 64 c.maxBitLength) := wideBitLength_eq ..

/-! ### Requests -/

/-- The numbers of a request as words. -/
def Request.of (r : Timing.Request) : Request where
  bitrate := BitVec.ofNat 64 r.bitrate
  permille := BitVec.ofNat 64 r.permille
  jumpWidth := r.jumpWidth.map (BitVec.ofNat 32)
  minQuanta := BitVec.ofNat 64 r.minQuanta

/-- The words of a request as numbers. -/
def Request.toNumbers (r : Request) : Timing.Request where
  bitrate := r.bitrate.toNat
  permille := r.permille.toNat
  jumpWidth := r.jumpWidth.map BitVec.toNat
  minQuanta := r.minQuanta.toNat

/-- What words have to hold of a request. -/
structure Holdable (r : Timing.Request) : Prop where
  bitrate : r.bitrate < 2 ^ 32
  permille : r.permille ≤ samplePointScale
  jumpWidth : ∀ n ∈ r.jumpWidth, n < 2 ^ 32
  minQuanta : r.minQuanta < 2 ^ 32

theorem Holdable.toNumbers_of {r : Timing.Request} (holdable : Holdable r) :
    (Request.of r).toNumbers = r := by
  have bitrate := toNat_ofNat (lt_wide holdable.bitrate.le)
  have permille := toNat_ofNat (lt_wide (holdable.permille.trans (by decide)))
  have minQuanta := toNat_ofNat (lt_wide holdable.minQuanta.le)
  have jumpWidth : (r.jumpWidth.map (BitVec.ofNat 32)).map BitVec.toNat = r.jumpWidth := by
    cases width : r.jumpWidth with
    | none => rfl
    | some n => exact congrArg some (toNat_ofNat (holdable.jumpWidth n width))
  simp only [Request.toNumbers, Request.of, bitrate, permille, jumpWidth, minQuanta]

theorem permille_le_of_ofNumber? {x : Numeric.Binary32} {samplePoint : SamplePoint}
    (asked : SamplePoint.ofNumber? x = some samplePoint) (phase : Phase) (bitrate : Nat) :
    samplePoint.permille phase bitrate ≤ samplePointScale := by
  rw [SamplePoint.ofNumber?] at asked
  cases reading : x.reading with
  | nan => simp [reading] at asked
  | infinite negative => simp [reading] at asked
  | finite negative m =>
      obtain rfl := Numeric.Number.magnitude_of_reading reading
      simp only [reading] at asked
      split_ifs at asked with zero outside
      · cases asked
        rw [SamplePoint.permille]
        cases phase <;> simp only [Phase.recommendedPermille, samplePointScale] <;> split_ifs <;>
          omega
      · cases asked
        have atMost : ¬ 1 < x.magnitude.value := fun above => by
          simp [Numeric.Magnitude.one_lt_value_iff.mp above] at outside
        exact permille_le (SamplePoint.permille_explicit x phase bitrate) (not_lt.mp atMost)

/-- A jump width that is asked for is above zero, where signed and unsigned words are the same
numbers. -/
theorem explicitJumpWidth_eq (t : Target) :
    explicitJumpWidth t = some (t.explicitJumpWidth.map (BitVec.ofNat 32)) := by
  rw [explicitJumpWidth, Target.explicitJumpWidth]
  by_cases asked : 0 < t.jumpWidth.toInt
  · have same : (t.jumpWidth.toBitVec.toNat : Int) = t.jumpWidth.toInt := by
      rw [Int32.toInt, BitVec.toInt_eq_toNat_cond] at asked ⊢
      have small := t.jumpWidth.toBitVec.isLt
      split at asked <;> omega
    rw [if_pos asked, if_pos asked]
    simp only [same, if_true, Option.map_some]
    rw [← same, Int.toNat_natCast, BitVec.ofNat_toNat, BitVec.setWidth_eq]
  · rw [if_neg asked, if_neg asked]
    rfl

theorem explicitJumpWidth_lt (t : Target) : ∀ n ∈ t.explicitJumpWidth, n < 2 ^ 32 := by
  intro n asked
  rw [Target.explicitJumpWidth] at asked
  split at asked
  · cases asked
    have small := t.jumpWidth.toInt_lt
    omega
  · cases asked

theorem request_eq (c : Constraints) (t : Target) (phase : Phase) :
    request c t phase = some ((t.request c phase).map Request.of) := by
  rw [request, Target.request]
  have zero : t.bitrate = 0 ↔ t.bitrate.toNat = 0 := UInt32.toNat_inj.symm
  by_cases silent : t.bitrate = 0
  · rw [if_pos silent, if_pos (zero.mp silent)]
    rfl
  rw [if_neg silent, if_neg (mt zero.mpr silent)]
  by_cases above : phase.maxBitrate < t.bitrate.toNat
  · rw [if_pos above, if_pos above]
    rfl
  rw [if_neg above, if_neg above]
  cases asked : SamplePoint.ofNumber? t.samplePoint with
  | none => rfl
  | some samplePoint =>
      have parts := permille_le_of_ofNumber? asked phase t.bitrate.toNat
      simp only [samplePointScale] at parts
      have wider : (t.explicitJumpWidth.map (BitVec.ofNat 32)).any (c.jumpWidthMax.toBitVec < ·) =
          t.explicitJumpWidth.any (c.jumpWidthMax.toNat < ·) := by
        have small := explicitJumpWidth_lt t
        cases width : t.explicitJumpWidth with
        | none => rfl
        | some n =>
            simp only [Option.map_some, Option.any_some, toBitVec_eq,
              ofNat_lt_iff c.jumpWidthMax.toNat_lt (small n width)]
      simp only [ofNat?, if_pos (show samplePoint.permille phase t.bitrate.toNat < 2 ^ 32 by omega),
        explicitJumpWidth_eq, Option.bind_eq_bind, Option.bind_some, wider]
      split
      · rfl
      · simp only [Except.map, Request.of, wide_eq, setWidth_ofNat (w := 32)
          (show samplePoint.permille phase t.bitrate.toNat < 2 ^ 32 by omega)]

theorem holdable_of_request {c : Constraints} {t : Target} {phase : Phase} {r : Timing.Request}
    (requested : t.request c phase = .ok r) : Holdable r := by
  rw [Target.request] at requested
  cases asked : SamplePoint.ofNumber? t.samplePoint with
  | none =>
      rw [asked] at requested
      dsimp only at requested
      split_ifs at requested
  | some samplePoint =>
      rw [asked] at requested
      dsimp only at requested
      split_ifs at requested
      cases requested
      exact ⟨t.bitrate.toNat_lt, permille_le_of_ofNumber? asked phase _, explicitJumpWidth_lt t,
        t.minQuanta.toNat_lt⟩

/-! ### Splits -/

variable {c : Constraints} {r : Timing.Request}

/-- A split with its deviation as words. -/
def Candidate.of (c : Constraints) (r : Timing.Request) (x : Split) : Candidate where
  settings := x.settings c r
  deviation := BitVec.ofNat 64 (x.deviation r.permille)
  bitLength := BitVec.ofNat 64 x.bitLength

/-- A sample point is off by the whole bit at most. -/
theorem deviation_le {permille : Nat} (parts : permille ≤ samplePointScale) (x : Split) :
    x.deviation permille ≤ samplePointScale * x.bitLength := by
  have wanted : permille * x.bitLength ≤ samplePointScale * x.bitLength :=
    Nat.mul_le_mul_right _ parts
  have reached : samplePointScale * (1 + x.segment1) ≤ samplePointScale * x.bitLength :=
    Nat.mul_le_mul_left _ (Nat.le_add_right _ _)
  rw [Split.deviation]
  omega

theorem deviation_lt {x : Split} (holdable : Holdable r) (short : x.bitLength < 2 ^ 32) :
    x.deviation r.permille < 2 ^ 64 :=
  (deviation_le holdable.permille x).trans_lt (parts_lt_wide short)

/-- Products of two words of 64 bits always fit 128 bits. -/
theorem Candidate.beats_eq (a b : Candidate) :
    a.beats b = some (decide
      (a.deviation.toNat * b.bitLength.toNat < b.deviation.toNat * a.bitLength.toNat)) := by
  have widened : ∀ x : BitVec 64, x.setWidth 128 = BitVec.ofNat 128 x.toNat := fun x =>
    BitVec.eq_of_toNat_eq (by simp)
  have fits : ∀ x y : BitVec 64, x.toNat * y.toNat < 2 ^ 128 := fun x y =>
    calc x.toNat * y.toNat < 2 ^ 64 * 2 ^ 64 := Nat.mul_lt_mul'' x.isLt y.isLt
      _ = 2 ^ 128 := by decide
  have small : ∀ x : BitVec 64, x.toNat < 2 ^ 128 := fun x => Nat.lt_trans x.isLt (by decide)
  simp only [beats, widened, mul?_ofNat (small _) (small _) (fits _ _), Option.bind_eq_bind,
    Option.bind_some, ofNat_lt_iff (fits _ _) (fits _ _)]

theorem Candidate.beats_of {a b : Split} (holdable : Holdable r) (shortA : a.bitLength < 2 ^ 32)
    (shortB : b.bitLength < 2 ^ 32) :
    (Candidate.of c r a).beats (Candidate.of c r b) = some (a.closer r.permille b) := by
  rw [beats_eq, Split.closer]
  simp only [Candidate.of, toNat_ofNat (deviation_lt holdable shortA),
    toNat_ofNat (deviation_lt holdable shortB),
    toNat_ofNat (lt_wide shortA.le), toNat_ofNat (lt_wide shortB.le)]

/-- Register values from words are those of the split; without a jump width asked for, the words are
compared to find the largest feasible one. -/
theorem settings_eq (prescaler : UInt32) (segment1 : Nat) {segment2 : Nat}
    (fits : segment2 < 2 ^ 32) :
    Split.settings ⟨prescaler.toNat, segment1, segment2⟩ c r =
      ⟨prescaler, ⟨BitVec.ofNat 32 segment1⟩, ⟨BitVec.ofNat 32 segment2⟩,
        ⟨(Request.of r).jumpWidth.getD
          (smaller c.jumpWidthMax.toBitVec (BitVec.ofNat 32 segment2))⟩⟩ := by
  have jumpWidth : (r.jumpWidth.getD (min c.jumpWidthMax.toNat segment2)).toUInt32 =
      ⟨(Request.of r).jumpWidth.getD
        (smaller c.jumpWidthMax.toBitVec (BitVec.ofNat 32 segment2))⟩ := by
    rw [toBitVec_eq, smaller_ofNat c.jumpWidthMax.toNat_lt fits, Request.of]
    cases r.jumpWidth <;> rfl
  rw [Split.settings, jumpWidth, Nat.toUInt32_eq, UInt32.ofNat_toNat]
  rfl

theorem kept_eq {best : Option Split} {x : Split} (holdable : Holdable r)
    (shortBest : ∀ b ∈ best, b.bitLength < 2 ^ 32) (short : x.bitLength < 2 ^ 32) :
    (best.map (Candidate.of c r)).any
        (·.deviation < BitVec.ofNat 64 (x.deviation r.permille)) =
      best.any fun b => b.deviation r.permille < x.deviation r.permille := by
  cases best with
  | none => rfl
  | some b =>
      simp only [Option.map_some, Option.any_some, Candidate.of,
        ofNat_lt_iff (deviation_lt holdable (shortBest b rfl)) (deviation_lt holdable short)]

/-- The requested sample point, in parts of the bit, fits a word. -/
theorem target_lt (holdable : Holdable r) {bitLength : Nat} (short : bitLength < 2 ^ 32) :
    r.permille * bitLength < 2 ^ 64 :=
  (Nat.mul_le_mul_right bitLength holdable.permille).trans_lt (parts_lt_wide short)

/-- The scan in words goes through the same splits. What carries the induction is that the rest of
the range of segment 2 ends within 32 bits. -/
theorem scan_eq (holdable : Holdable r) (prescaler : UInt32) {bitLength : Nat}
    (short : bitLength < 2 ^ 32) (count segment2 : Nat) (best : Option Split)
    (range : segment2 + count ≤ 2 ^ 32) (alike : ∀ b ∈ best, b.bitLength = bitLength) :
    scan c (.of r) prescaler (BitVec.ofNat 64 bitLength)
        (BitVec.ofNat 64 (r.permille * bitLength)) count (BitVec.ofNat 64 segment2)
        (best.map (Candidate.of c r)) =
      some ((Timing.scan c r prescaler.toNat bitLength count segment2 best).map
        (Candidate.of c r)) := by
  induction count generalizing segment2 best with
  | zero => rfl
  | succ count ih =>
      rw [scan, Timing.scan, add?_ofNat (lt_wide (by omega))]
      simp only [Option.bind_eq_bind, Option.bind_some,
        ofNat_le_iff (lt_wide short.le) (lt_wide (by omega : segment2 + 1 ≤ 2 ^ 32))]
      by_cases room : bitLength ≤ segment2 + 1
      · rw [if_pos room, if_pos room]
      rw [if_neg room, if_neg room, sub?_ofNat (lt_wide short.le) (by omega), Option.bind_some,
        sub?_ofNat (by omega) (by omega), Option.bind_some]
      -- from here on the bit has room for segment 1, and no difference is below zero
      set split : Split := ⟨prescaler.toNat, bitLength - 1 - segment2, segment2⟩ with splitEq
      have length : split.bitLength = bitLength := by
        simp only [splitEq, Split.bitLength]
        omega
      have segment1 : bitLength - 1 - segment2 < 2 ^ 64 := by omega
      simp only [wide_eq, ofNat_lt_iff segment1 (lt_wide c.segment1Min.toNat_lt.le),
        ofNat_lt_iff (lt_wide c.segment1Max.toNat_lt.le) segment1]
      by_cases outside : bitLength - 1 - segment2 < c.segment1Min.toNat ∨
          c.segment1Max.toNat < bitLength - 1 - segment2
      · simp only [outside, if_true, true_or]
        exact ih (segment2 + 1) best (by omega) alike
      have below : segment2 ≤ bitLength := by omega
      have small := parts_lt_wide (Nat.lt_of_le_of_lt (Nat.sub_le bitLength segment2) short)
      have reached : mul? (BitVec.ofNat 64 samplePointScale)
          (BitVec.ofNat 64 (bitLength - segment2)) =
            some (BitVec.ofNat 64 (samplePointScale * (bitLength - segment2))) :=
        mul?_ofNat (by decide) (by omega) small
      have deviation : absDiff (BitVec.ofNat 64 (samplePointScale * (bitLength - segment2)))
          (BitVec.ofNat 64 (r.permille * bitLength)) =
            BitVec.ofNat 64 (split.deviation r.permille) := by
        rw [absDiff_ofNat small (target_lt holdable short), deviation_eq_distance length, distance]
      have kept := kept_eq (c := c) holdable (fun b same => (alike b same).trans_lt short)
        (length.trans_lt short)
      simp only [outside, if_false, false_or, sub?_ofNat (lt_wide short.le) below, reached,
        Option.bind_some, deviation, kept]
      split
      · exact ih (segment2 + 1) best (by omega) alike
      · rw [narrow?_ofNat (by omega) (by omega), Option.bind_some,
          narrow?_ofNat (by omega) (by omega), Option.bind_some]
        have candidate := ih (segment2 + 1) (some split) (by omega) fun b same => by
          cases same
          exact length
        rw [Option.map_some, Candidate.of, length, splitEq,
          settings_eq prescaler _ (by omega)] at candidate
        exact candidate

theorem bestSplit_eq (holdable : Holdable r) (segment2Pos : 0 < c.segment2Min.toNat)
    (prescaler : UInt32) {bitLength : Nat} (short : bitLength < 2 ^ 32) :
    bestSplit c (.of r) prescaler (BitVec.ofNat 64 bitLength) =
      some ((split? c r prescaler.toNat bitLength).map (Candidate.of c r)) := by
  have least := c.segment2Min.toNat_lt
  have most := c.segment2Max.toNat_lt
  have asked : r.jumpWidth.getD 0 < 2 ^ 32 := by
    cases width : r.jumpWidth with
    | none => decide
    | some n => exact holdable.jumpWidth n width
  have requested : (Request.of r).jumpWidth.elim 0 (·.setWidth 64) =
      BitVec.ofNat 64 (r.jumpWidth.getD 0) := by
    rw [Request.of]
    cases width : r.jumpWidth with
    | none => rfl
    | some n => exact setWidth_ofNat (holdable.jumpWidth n width)
  have low := larger_ofNat (lt_wide least.le) (lt_wide asked.le)
  have few := holdable.permille
  simp only [samplePointScale] at few
  have target : mul? (Request.of r).permille (BitVec.ofNat 64 bitLength) =
      some (BitVec.ofNat 64 (r.permille * bitLength)) :=
    mul?_ofNat (by omega) (by omega) (target_lt holdable short)
  simp only [bestSplit, requested, wide_eq, low, target, Option.bind_eq_bind, Option.bind_some,
    toNat_ofNat (w := 64) (a := c.segment2Max.toNat) (by omega),
    toNat_ofNat (w := 64) (a := max c.segment2Min.toNat (r.jumpWidth.getD 0)) (by omega)]
  -- the range may end before it begins, and then there is nothing to count
  rw [← scan_eq_split? r segment2Pos prescaler.toNat bitLength]
  exact scan_eq holdable prescaler short _ _ none (by omega) (fun b same => by cases same)

/-! ### Searches -/

/-- A search as words. -/
def Search.of (c : Constraints) (r : Timing.Request) (s : Timing.Search) : Search :=
  ⟨s.best.map (Candidate.of c r), s.reason⟩

/-- The best split so far has a bit that fits a word. -/
def Short (s : Timing.Search) : Prop := ∀ b ∈ s.best, b.bitLength < 2 ^ 32

theorem bitLengthAt_lt (c : Constraints) (r : Timing.Request) (prescaler : Nat) :
    bitLengthAt c r prescaler < 2 ^ 32 :=
  Nat.lt_of_le_of_lt (Nat.div_le_self ..) c.clock.toNat_lt

theorem bitLength_of_split? {prescaler bitLength : Nat} {x : Split}
    (segment2Pos : 0 < c.segment2Min.toNat) (found : split? c r prescaler bitLength = some x) :
    x.bitLength = bitLength := by
  have optimum := split?_optimum r segment2Pos prescaler bitLength
  rw [found] at optimum
  exact optimum.1.2.1

theorem bitLength_of_trial {prescaler : Nat} {x : Split} (segment2Pos : 0 < c.segment2Min.toNat)
    (found : trial c r prescaler = .found x) : x.bitLength = bitLengthAt c r prescaler := by
  simp only [trial] at found
  split_ifs at found
  split at found
  · cases found
  · cases found
    exact bitLength_of_split? segment2Pos ‹_›

theorem Short.record {s : Timing.Search} (short : Short s) (segment2Pos : 0 < c.segment2Min.toNat)
    (prescaler : Nat) : Short (s.record r.permille (trial c r prescaler)) := by
  cases tried : trial c r prescaler with
  | inexact => exact short
  | failed reason => exact short
  | found x =>
      have length := bitLength_of_trial segment2Pos tried
      have below := bitLengthAt_lt c r prescaler
      intro b best
      rw [Timing.Search.record] at best
      cases previous : s.best with
      | none =>
          simp only [previous] at best
          cases best
          omega
      | some y =>
          simp only [previous] at best
          split at best
          · cases best
            omega
          · exact short b best

/-- A split found next is compared with the best one in words as in numbers. -/
theorem record_found {s : Timing.Search} {x : Split} (holdable : Holdable r) (shortS : Short s)
    (shortX : x.bitLength < 2 ^ 32) :
    (((Search.of c r s).best.elim (some true) (Candidate.of c r x).beats).bind fun better =>
        some (if better then { Search.of c r s with best := some (.of c r x) }
          else Search.of c r s, true)) =
      some (Search.of c r (s.record r.permille (.found x)), true) := by
  obtain ⟨best, reason⟩ := s
  cases best with
  | none => rfl
  | some b =>
      have compared := Candidate.beats_of (c := c) holdable shortX (shortS b rfl)
      simp only [Search.of, Timing.Search.record, Option.map_some, Option.elim_some, compared,
        Option.bind_some]
      cases x.closer r.permille b <;> rfl

/-- One prescaler in words does what it does in numbers. The product of prescaler and bitrate is not
zero, and fits because both come from 32 bits. -/
theorem visit_eq (searchable : Searchable c r) (holdable : Holdable r) {prescaler : UInt32}
    (positive : 0 < prescaler.toNat) {s : Timing.Search} (short : Short s) :
    visit c (.of r) (BitVec.ofNat 64 c.minBitLength) (BitVec.ofNat 64 c.maxBitLength) prescaler
        (.of c r s) =
      some (.of c r (s.record r.permille (trial c r prescaler.toNat)),
        !decide (bitLengthAt c r prescaler.toNat < c.minBitLength)) := by
  have product := product_lt_wide prescaler.toNat_lt holdable.bitrate
  have nonzero : prescaler.toNat * r.bitrate ≠ 0 := (Nat.mul_pos positive searchable.bitratePos).ne'
  have divisor : mul? (wide prescaler) (Request.of r).bitrate =
      some (BitVec.ofNat 64 (prescaler.toNat * r.bitrate)) := mul?_wide holdable.bitrate
  have quotient : div? (wide c.clock) (BitVec.ofNat 64 (prescaler.toNat * r.bitrate)) =
      some (BitVec.ofNat 64 (bitLengthAt c r prescaler.toNat)) := div?_wide product nonzero
  have length := lt_wide (bitLengthAt_lt c r prescaler.toNat).le
  have whole := ofNat_eq_zero_iff (lt_wide
    ((Nat.mod_le c.clock.toNat (prescaler.toNat * r.bitrate)).trans c.clock.toNat_lt.le))
  have quanta : BitVec.ofNat 64 (bitLengthAt c r prescaler.toNat) < (Request.of r).minQuanta ↔
      bitLengthAt c r prescaler.toNat < r.minQuanta :=
    ofNat_lt_iff length (lt_wide holdable.minQuanta.le)
  simp only [visit, divisor, quotient, rem?_wide product nonzero, Option.bind_eq_bind,
    Option.bind_some, whole, quanta, ofNat_lt_iff length (minBitLength_lt c),
    ofNat_lt_iff (maxBitLength_lt c) length,
    bestSplit_eq holdable searchable.segment2Pos prescaler (bitLengthAt_lt c r prescaler.toNat)]
  rw [trial]
  by_cases divides : c.clock.toNat % (prescaler.toNat * r.bitrate) = 0
  · rw [if_neg (not_not.mpr divides)]
    by_cases tooShort : bitLengthAt c r prescaler.toNat < c.minBitLength
    · simp only [tooShort, divides, if_true, true_or]
      rfl
    by_cases tooLong : c.maxBitLength < bitLengthAt c r prescaler.toNat
    · simp only [tooShort, tooLong, divides, if_true, if_false, or_true]
      rfl
    by_cases tooFew : bitLengthAt c r prescaler.toNat < r.minQuanta
    · simp only [tooShort, tooLong, tooFew, divides, if_true, if_false, or_false]
      rfl
    simp only [tooShort, tooLong, tooFew, divides, if_true, if_false, or_false]
    cases found : split? c r prescaler.toNat (bitLengthAt c r prescaler.toNat) with
    | none => rfl
    | some x =>
        have exact := bitLength_of_split? searchable.segment2Pos found
        exact record_found holdable short
          (exact.trans_lt (bitLengthAt_lt c r prescaler.toNat))
  · rw [if_pos divides]
    by_cases tooShort : bitLengthAt c r prescaler.toNat < c.minBitLength
    · simp only [tooShort, divides, if_true, if_false]
      rfl
    · simp only [tooShort, divides, if_false]
      rfl

/-- A next prescaler in range fits a word. -/
theorem next_within (searchable : Searchable c r) {k : Nat} (more : k + 1 ≤ c.prescalerSteps)
    {prescaler : UInt32} (nth : prescaler.toNat = nthPrescaler c k) :
    ∃ next : UInt32, add? prescaler.toBitVec c.prescalerStep.toBitVec = some next.toBitVec ∧
      next.toBitVec ≤ c.prescalerMax.toBitVec ∧ next.toNat = nthPrescaler c (k + 1) ∧
      next.toNat = prescaler.toNat + c.prescalerStep.toNat := by
  have within := (nthPrescaler_le searchable).mpr more
  have small := Nat.lt_of_le_of_lt within c.prescalerMax.toNat_lt
  rw [nthPrescaler_succ, ← nth] at within small ⊢
  refine ⟨⟨BitVec.ofNat 32 (prescaler.toNat + c.prescalerStep.toNat)⟩, ?_, ?_, ?_, ?_⟩
  · rw [toBitVec_eq, toBitVec_eq, add?_ofNat small]
  · rw [toBitVec_eq c.prescalerMax]
    exact (ofNat_le_iff small c.prescalerMax.toNat_lt).mpr within
  · exact toNat_ofNat small
  · exact toNat_ofNat small

/-- The prescaler after the last one is past the range, if it fits a word at all. -/
theorem next_beyond (searchable : Searchable c r) {prescaler : UInt32}
    (nth : prescaler.toNat = nthPrescaler c c.prescalerSteps) {next : BitVec 32}
    (sum : add? prescaler.toBitVec c.prescalerStep.toBitVec = some next) :
    ¬ next ≤ c.prescalerMax.toBitVec := by
  have past := mt (nthPrescaler_le searchable).mp (Nat.not_succ_le_self c.prescalerSteps)
  rw [nthPrescaler_succ, ← nth] at past
  rw [add?] at sum
  split at sum
  · cases sum
    rw [BitVec.le_def, BitVec.toNat_add, Nat.mod_eq_of_lt ‹_›]
    exact past
  · cases sum

/-- The search in words tries the same prescalers, for as long as it has turns. -/
theorem search_eq (searchable : Searchable c r) (holdable : Holdable r) {steps k turns : Nat}
    (left : k + steps = c.prescalerSteps) (enough : steps < turns) {prescaler : UInt32}
    (nth : prescaler.toNat = nthPrescaler c k) {s : Timing.Search} (short : Short s) :
    search c (.of r) (BitVec.ofNat 64 c.minBitLength) (BitVec.ofNat 64 c.maxBitLength) turns
        prescaler (.of c r s) =
      some (.of c r (Timing.search c r steps prescaler.toNat s)) := by
  induction steps generalizing k turns prescaler s with
  | zero =>
      obtain ⟨turns, rfl⟩ := Nat.exists_eq_succ_of_ne_zero (Nat.ne_of_gt enough)
      have positive : 0 < prescaler.toNat := nth ▸ nthPrescaler_pos searchable k
      obtain rfl : k = c.prescalerSteps := left
      rw [search, Timing.search, visit_eq searchable holdable positive short]
      by_cases tooShort : bitLengthAt c r prescaler.toNat < c.minBitLength
      · simp [tooShort]
      · cases sum : add? prescaler.toBitVec c.prescalerStep.toBitVec with
        | none => simp [tooShort]
        | some next => simp [tooShort, next_beyond searchable nth sum]
  | succ steps ih =>
      obtain ⟨turns, rfl⟩ := Nat.exists_eq_succ_of_ne_zero (Nat.ne_of_gt (Nat.zero_lt_of_lt enough))
      have positive : 0 < prescaler.toNat := nth ▸ nthPrescaler_pos searchable k
      rw [search, Timing.search, visit_eq searchable holdable positive short]
      by_cases tooShort : bitLengthAt c r prescaler.toNat < c.minBitLength
      · simp [tooShort]
      · obtain ⟨next, sum, within, nthNext, value⟩ :=
          next_within searchable (by omega : k + 1 ≤ c.prescalerSteps) nth
        have rest := ih (k := k + 1) (by omega) (Nat.lt_of_succ_lt_succ enough) nthNext
          (short.record (r := r) searchable.segment2Pos prescaler.toNat)
        rw [value] at rest
        simpa [tooShort, sum, within] using rest

theorem solve_eq (c : Constraints) (t : Target) (phase : Phase) :
    solve c t phase = some (Timing.solve c t phase) := by
  rw [solve, fault?_eq]
  cases faulty : c.fault? with
  | some fault =>
      rw [Timing.solve, Constraints.validate, faulty]
      rfl
  | none =>
      have accepted : c.validate = .ok () := by rw [Constraints.validate, faulty]
      simp only [Option.bind_eq_bind, Option.bind_some, request_eq]
      cases requested : t.request c phase with
      | error fault =>
          rw [Timing.solve, accepted]
          simp only [requested]
          rfl
      | ok r =>
          have searchable := searchable_of_accepted accepted requested
          have first : c.prescalerMin.toNat = nthPrescaler c 0 := by
            rw [nthPrescaler, Nat.zero_mul, Nat.add_zero]
          -- there are no more prescalers than words of 32 bits, so the turns do not run out
          have enough : c.prescalerSteps < 2 ^ 32 := by
            refine Nat.lt_of_le_of_lt (Nat.div_le_self ..) ?_
            exact Nat.lt_of_le_of_lt (Nat.sub_le ..) c.prescalerMax.toNat_lt
          have found := search_eq searchable (holdable_of_request requested) (Nat.zero_add _) enough
            first (s := .start) (fun b best => by cases best)
          have start : Search.of c r .start = ⟨none, .noIntegerBitLength⟩ := rfl
          rw [start] at found
          simp only [Except.map, minBitLength_eq, maxBitLength_eq, Option.bind_some, found,
            Timing.solve_eq accepted requested, Search.of]
          cases (Timing.search c r c.prescalerSteps c.prescalerMin.toNat .start).best <;> rfl

variable {t : Target} {phase : Phase} {s : Settings}

/-- A solution divides the clock without rest, so that prescaler, bitrate and bit length are all at
most the clock. -/
theorem clock_eq_of_solve (solved : Timing.solve c t phase = .ok s) :
    c.clock.toNat = t.bitrate.toNat * s.prescaler.toNat * s.bitLength ∧
      0 < t.bitrate.toNat ∧ 0 < s.prescaler.toNat ∧ s.bitLength < 2 ^ 32 := by
  have exactly : c.clock.toNat = t.bitrate.toNat * s.prescaler.toNat * s.bitLength :=
    (legal_of_solve solved).exactly
  obtain ⟨r, x, accepted, requested, -⟩ := feasible_of_solve solved
  have clockPos := (searchable_of_accepted accepted requested).clockPos
  rw [exactly] at clockPos
  have divisorPos := Nat.pos_of_mul_pos_right clockPos
  refine ⟨exactly, Nat.pos_of_mul_pos_right divisorPos, Nat.pos_of_mul_pos_left divisorPos, ?_⟩
  calc s.bitLength ≤ t.bitrate.toNat * s.prescaler.toNat * s.bitLength :=
        Nat.le_mul_of_pos_left _ divisorPos
    _ < 2 ^ 32 := exactly ▸ c.clock.toNat_lt

theorem bitLength_eq (short : s.bitLength < 2 ^ 32) :
    bitLength s = some (BitVec.ofNat 32 s.bitLength) := by
  rw [Settings.bitLength] at short ⊢
  rw [bitLength, toBitVec_eq, toBitVec_eq, add?_ofNat (by omega)]
  exact add?_ofNat short

theorem bitrate_eq (solved : Timing.solve c t phase = .ok s) :
    bitrate s c.clock = some t.bitrate.toBitVec := by
  obtain ⟨exactly, -, prescalerPos, short⟩ := clock_eq_of_solve solved
  have lengthPos : 0 < s.bitLength := by
    rw [Settings.bitLength]
    omega
  have nonzero : s.prescaler.toNat * s.bitLength ≠ 0 := (Nat.mul_pos prescalerPos lengthPos).ne'
  have product := product_lt_wide s.prescaler.toNat_lt short
  have quotient : c.clock.toNat / (s.prescaler.toNat * s.bitLength) = t.bitrate.toNat := by
    rw [exactly, Nat.mul_assoc]
    exact Nat.mul_div_left _ (Nat.pos_of_ne_zero nonzero)
  simp only [bitrate, bitLength_eq short, Option.bind_eq_bind, Option.bind_some,
    setWidth_ofNat short, mul?_wide short, if_neg (mt (ofNat_eq_zero_iff product).mp nonzero),
    div?_wide product nonzero, quotient,
    narrow?_ofNat (lt_wide t.bitrate.toNat_lt.le) t.bitrate.toNat_lt, toBitVec_eq]

end Words

/-- No operation of the solver on machine words goes wrong, whatever the ranges, the target and the
phase: each step gives a word, and the words are those of the numbers that the solver is about. The
bit of a solution fits a register; it is the quotient of the clock by prescaler and bitrate, and the
clock then gives back the bitrate that was asked for. -/
theorem solver_arithmetic_is_exact (c : Constraints) (t : Target) (phase : Phase) :
    Words.fault? c = some c.fault? ∧
      (Words.minBitLength c).map BitVec.toNat = some c.minBitLength ∧
      (Words.maxBitLength c).map BitVec.toNat = some c.maxBitLength ∧
      (Words.request c t phase).map (·.map Words.Request.toNumbers) = some (t.request c phase) ∧
      (∀ a b : Words.Candidate, (a.beats b).isSome) ∧
      Words.solve c t phase = some (solve c t phase) ∧
      ∀ s, solve c t phase = .ok s →
        ∃ bitLength, Words.bitLength s = some bitLength ∧
          bitLength.toNat = c.clock.toNat / (s.prescaler.toNat * t.bitrate.toNat) ∧
          Words.bitrate s c.clock = some t.bitrate.toBitVec := by
  refine ⟨Words.fault?_eq c, ?_, ?_, ?_, fun a b => ?_, Words.solve_eq c t phase, ?_⟩
  · rw [Words.minBitLength_eq, Option.map_some, toNat_ofNat (Words.minBitLength_lt c)]
  · rw [Words.maxBitLength_eq, Option.map_some, toNat_ofNat (Words.maxBitLength_lt c)]
  · rw [Words.request_eq, Option.map_some]
    cases requested : t.request c phase with
    | error fault => rfl
    | ok r =>
        simp only [Except.map, (Words.holdable_of_request requested).toNumbers_of]
  · rw [Words.Candidate.beats_eq]
    rfl
  · intro s solved
    obtain ⟨exactly, bitratePos, prescalerPos, short⟩ := Words.clock_eq_of_solve solved
    refine ⟨_, Words.bitLength_eq short, ?_, Words.bitrate_eq solved⟩
    rw [toNat_ofNat short, exactly, Nat.mul_comm t.bitrate.toNat]
    exact (Nat.mul_div_right _ (Nat.mul_pos prescalerPos bitratePos)).symm

/-- 500 kbit/s out of 80 MHz, in bits of 16 quanta. -/
theorem solver_arithmetic_is_exact_at_500_kbit :
    let s : Settings := ⟨10, 13, 2, 2⟩
    solve .at80MHz (.ofBitrate 500000) .nominal = .ok s ∧
      Words.solve .at80MHz (.ofBitrate 500000) .nominal = some (.ok s) ∧
      ∃ bitLength, Words.bitLength s = some bitLength ∧ bitLength.toNat = 16 ∧
        Words.bitrate s Constraints.at80MHz.clock = some 500000#32 := by
  intro s
  have solved : solve .at80MHz (.ofBitrate 500000) .nominal = .ok s := by rfl
  obtain ⟨-, -, -, -, -, words, exact⟩ :=
    solver_arithmetic_is_exact .at80MHz (.ofBitrate 500000) .nominal
  obtain ⟨bitLength, computed, quotient, bitrate⟩ := exact s solved
  exact ⟨solved, by rw [words, solved], bitLength, computed, quotient.trans (by decide), bitrate⟩

end CanLink.Timing
