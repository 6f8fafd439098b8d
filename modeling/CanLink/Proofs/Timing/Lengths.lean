import CanLink.Proofs.Timing.Optimum

/-!
Bit lengths that the segment ranges admit. `Constraints.Advertises` is the range between the least
and the largest length as a device tells them; a length that has a split is always in it, but not
the other way round. Without a requested jump width what is missing are just the lengths whose only
splits have an empty segment 1 (`fitting_nonempty_iff`), and if segment 1 has a positive least
length, nothing is missing (`fitting_nonempty_of_advertises`).
-/

namespace CanLink.Timing

/-- The prescalers that a device can be set to. -/
def settable (c : Constraints) : Set Nat :=
  {p | (∃ k, p = nthPrescaler c k) ∧ p ≤ c.prescalerMax.toNat}

/-- Bits of the prescaler consist of a whole number of quanta. -/
def Divides (c : Constraints) (r : Request) (prescaler : Nat) : Prop :=
  c.clock.toNat % (prescaler * r.bitrate) = 0

/-- The length lies between those of the shortest and the longest bit. -/
def Constraints.Advertises (c : Constraints) (bitLength : Nat) : Prop :=
  c.minBitLength ≤ bitLength ∧ bitLength ≤ c.maxBitLength

instance (c : Constraints) (r : Request) (prescaler : Nat) : Decidable (Divides c r prescaler) :=
  inferInstanceAs (Decidable (_ = _))

instance (c : Constraints) (bitLength : Nat) : Decidable (c.Advertises bitLength) :=
  inferInstanceAs (Decidable (_ ∧ _))

/-- The prescaler can be set and divides the clock into bits of an advertised length. -/
structure Promising (c : Constraints) (r : Request) (prescaler : Nat) : Prop where
  settable : prescaler ∈ settable c
  divides : Divides c r prescaler
  advertised : c.Advertises (bitLengthAt c r prescaler)

variable {c : Constraints} {r : Request}

theorem split?_isSome_iff (segment2Pos : 0 < c.segment2Min.toNat) (prescaler bitLength : Nat) :
    (split? c r prescaler bitLength).isSome = true ↔
      (fitting c r prescaler bitLength).Nonempty := by
  have optimum := split?_optimum r segment2Pos prescaler bitLength
  cases found : split? c r prescaler bitLength with
  | none =>
      rw [found] at optimum
      have empty : fitting c r prescaler bitLength = ∅ := optimum
      simp only [empty, Option.isSome_none, Bool.false_eq_true, Set.not_nonempty_empty]
  | some x =>
      rw [found] at optimum
      exact iff_of_true rfl ⟨x, optimum.1⟩

/-- Without a requested jump width a bit length has a split exactly if it is advertised and leaves
one quantum for segment 1. -/
theorem fitting_nonempty_iff (accepted : c.validate = .ok ()) (free : r.jumpWidth = none)
    (prescaler bitLength : Nat) :
    (fitting c r prescaler bitLength).Nonempty ↔
      c.Advertises bitLength ∧ c.segment2Min.toNat + 2 ≤ bitLength ∧ 1 ≤ c.segment1Max.toNat := by
  obtain ⟨-, -, -, -, segment2Pos, -⟩ := Constraints.bounds_of_validate accepted
  obtain ⟨range1, range2⟩ := Constraints.segments_of_validate accepted
  have room : lowest c r bitLength ≤ highest c bitLength ↔
      c.Advertises bitLength ∧ c.segment2Min.toNat + 2 ≤ bitLength ∧ 1 ≤ c.segment1Max.toNat := by
    simp only [lowest, highest, free, Option.getD_none, Constraints.Advertises,
      Constraints.minBitLength, Constraints.maxBitLength]
    omega
  rw [← room]
  constructor
  · rintro ⟨x, -, length, fits⟩
    obtain ⟨lower, upper, -⟩ := (fits_iff segment2Pos).mp ⟨length, fits⟩
    exact lower.trans upper
  · intro nonempty
    have split := (fits_iff (r := r)
      (x := ⟨prescaler, bitLength - 1 - highest c bitLength, highest c bitLength⟩)
      segment2Pos).mpr ⟨nonempty, Nat.le_refl _, rfl⟩
    exact ⟨_, rfl, split⟩

/-- If segment 1 is never empty, every advertised bit length has a split. -/
theorem fitting_nonempty_of_advertises (accepted : c.validate = .ok ()) (free : r.jumpWidth = none)
    (segment1Pos : 1 ≤ c.segment1Min.toNat) {prescaler bitLength : Nat}
    (advertised : c.Advertises bitLength) : (fitting c r prescaler bitLength).Nonempty := by
  obtain ⟨range1, -⟩ := Constraints.segments_of_validate accepted
  refine (fitting_nonempty_iff accepted free prescaler bitLength).mpr ⟨advertised, ?_, ?_⟩
  · have least := advertised.1
    rw [Constraints.minBitLength] at least
    omega
  · exact segment1Pos.trans range1

theorem feasible_prescaler_iff (searchable : Searchable c r) (prescaler : Nat) :
    (∃ x, Feasible c r x ∧ x.prescaler = prescaler) ↔
      prescaler ∈ settable c ∧ Divides c r prescaler ∧ r.minQuanta ≤ bitLengthAt c r prescaler ∧
        (fitting c r prescaler (bitLengthAt c r prescaler)).Nonempty := by
  constructor
  · rintro ⟨x, feasible, rfl⟩
    have length := feasible.bitLengthAt_eq searchable
    refine ⟨⟨feasible.onStep, feasible.inRange⟩, feasible.divides, ?_, x, rfl, length.symm,
      feasible.fits⟩
    rw [length]
    exact feasible.enoughQuanta
  · rintro ⟨⟨onStep, inRange⟩, divides, enough, x, fits⟩
    rw [← feasibleAt_eq_fitting searchable onStep inRange divides enough] at fits
    exact ⟨x, fits⟩

/-- The solver succeeds exactly if a prescaler gives a bit length with enough quanta and a split. -/
theorem solve_isOk_iff {t : Target} {phase : Phase} (accepted : c.validate = .ok ())
    (requested : t.request c phase = .ok r) :
    (∃ s, solve c t phase = .ok s) ↔
      ∃ p ∈ settable c, Divides c r p ∧ r.minQuanta ≤ bitLengthAt c r p ∧
        (fitting c r p (bitLengthAt c r p)).Nonempty := by
  have searchable := searchable_of_accepted accepted requested
  have optimum := search_start_optimum searchable
  rw [solve_eq accepted requested]
  constructor
  · rintro ⟨s, solved⟩
    cases found : (search c r c.prescalerSteps c.prescalerMin.toNat .start).best with
    | none =>
        rw [found] at solved
        cases solved
    | some x =>
        rw [found] at optimum
        exact ⟨_, (feasible_prescaler_iff searchable _).mp ⟨x, optimum.1, rfl⟩⟩
  · rintro ⟨p, possible⟩
    obtain ⟨x, feasible, -⟩ := (feasible_prescaler_iff searchable p).mpr possible
    cases found : (search c r c.prescalerSteps c.prescalerMin.toNat .start).best with
    | none =>
        rw [found] at optimum
        exact absurd feasible (Set.eq_empty_iff_forall_notMem.mp optimum x)
    | some y => exact ⟨_, rfl⟩

/-- Without a requested jump width and a least number of quanta, the solver succeeds exactly if some
prescaler gives an advertised bit length that leaves a quantum for segment 1, and these are the
lengths that it finds a split for. Where segment 1 is never empty, they are all advertised lengths,
so that an advertised length is always solved. -/
theorem advertised_length_is_solved {t : Target} {phase : Phase} (accepted : c.validate = .ok ())
    (requested : t.request c phase = .ok r) (free : r.jumpWidth = none)
    (unlimited : r.minQuanta = 0) :
    ((∃ s, solve c t phase = .ok s) ↔
        ∃ p, Promising c r p ∧ c.segment2Min.toNat + 2 ≤ bitLengthAt c r p ∧
          1 ≤ c.segment1Max.toNat) ∧
      (∀ p bitLength, (split? c r p bitLength).isSome = true ↔
        c.Advertises bitLength ∧ c.segment2Min.toNat + 2 ≤ bitLength ∧
          1 ≤ c.segment1Max.toNat) ∧
      (1 ≤ c.segment1Min.toNat → ∀ p, Promising c r p → ∃ s, solve c t phase = .ok s) := by
  have solved := solve_isOk_iff accepted requested
  refine ⟨?_, ?_, ?_⟩
  · rw [solved]
    constructor
    · rintro ⟨p, possible, divides, -, nonempty⟩
      obtain ⟨advertised, room⟩ := (fitting_nonempty_iff accepted free _ _).mp nonempty
      exact ⟨p, ⟨possible, divides, advertised⟩, room⟩
    · rintro ⟨p, ⟨possible, divides, advertised⟩, room⟩
      refine ⟨p, possible, divides, unlimited ▸ Nat.zero_le _, ?_⟩
      exact (fitting_nonempty_iff accepted free _ _).mpr ⟨advertised, room⟩
  · intro p bitLength
    obtain ⟨-, -, -, -, segment2Pos, -⟩ := Constraints.bounds_of_validate accepted
    rw [split?_isSome_iff segment2Pos, fitting_nonempty_iff accepted free]
  · rintro segment1Pos p ⟨possible, divides, advertised⟩
    refine solved.mpr ⟨p, possible, divides, unlimited ▸ Nat.zero_le _, ?_⟩
    exact fitting_nonempty_of_advertises accepted free segment1Pos advertised

/-- Ranges at 8 MHz whose segment 1 may be empty. Prescaler 4 leaves two quanta for a bit at
1 Mbit/s, which is the least bit length. -/
def Constraints.withEmptySegment (prescalerMin : UInt32) : Constraints :=
  ⟨8000000, prescalerMin, 4, 1, 0, 16, 1, 8, 4⟩

/-- With prescaler 2 there are four quanta, and these have a split. -/
theorem advertised_length_is_solved_with_room :
    (Constraints.withEmptySegment 2).validate = .ok () ∧
      (Target.ofBitrate 1000000).request (.withEmptySegment 2) .nominal =
        .ok ⟨1000000, 750, none, 0⟩ ∧
      ∃ s, solve (.withEmptySegment 2) (.ofBitrate 1000000) .nominal = .ok s := by
  have accepted : (Constraints.withEmptySegment 2).validate = .ok () := by rfl
  have requested : (Target.ofBitrate 1000000).request (.withEmptySegment 2) .nominal =
      .ok ⟨1000000, 750, none, 0⟩ := by rfl
  refine ⟨accepted, requested, ?_⟩
  refine (advertised_length_is_solved accepted requested rfl rfl).1.mpr
    ⟨2, ?_, by decide, by decide⟩
  exact ⟨⟨⟨0, rfl⟩, by decide⟩, by decide, by decide⟩

/-- An advertised bit length may have no split, although no jump width is asked for. -/
theorem shortest_length_unsolved :
    ¬ ∀ (c : Constraints) (t : Target) (phase : Phase) (r : Request) (p : Nat),
      c.validate = .ok () → t.request c phase = .ok r → r.jumpWidth = none → r.minQuanta = 0 →
      Promising c r p → ∃ s, solve c t phase = .ok s := by
  intro solvable
  obtain ⟨s, solved⟩ := solvable (.withEmptySegment 4) (.ofBitrate 1000000) .nominal
    ⟨1000000, 750, none, 0⟩ 4 (by rfl) (by rfl) rfl rfl
    ⟨⟨⟨0, rfl⟩, by decide⟩, by decide, by decide⟩
  cases solved

end CanLink.Timing
