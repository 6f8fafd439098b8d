import CanLink.Proofs.Timing.Lengths

/-!
What the reason of a failed search says. A search gets past up to three checks with a prescaler: it
divides the clock, the bit length is advertised, and there are enough quanta. The reason tells how
many checks some tried prescaler passed (`progress_search`), and `Explains` says what each reason
means in terms of the prescalers alone (`failure_is_explained`).

Two things keep a reason from being true of the device as such. The search ends with the first bit
that is too short, so of larger prescalers it does not know whether they divide the clock. And where
segment 1 may be empty, a bit length can be advertised and have no split, for which the jump width
is blamed even if none was requested (`reason_can_mislead`).
-/

namespace CanLink

namespace NoSolution

/-- The progress of a search tells its reason. -/
theorem eq_iff_progress (reason : NoSolution) :
    (reason = noIntegerBitLength ↔ ¬ 1 ≤ reason.progress) ∧
      (reason = bitLengthOutOfRange ↔ 1 ≤ reason.progress ∧ ¬ 2 ≤ reason.progress) ∧
      (reason = minQuantaUnreachable ↔ 2 ≤ reason.progress ∧ ¬ 3 ≤ reason.progress) ∧
      (reason = jumpWidthUnreachable ↔ 3 ≤ reason.progress) := by
  cases reason <;> decide

theorem progress_further (a b : NoSolution) :
    (a.further b).progress = max a.progress b.progress := by
  rw [further]
  split <;> omega

end NoSolution

namespace Timing

/-- How many checks a prescaler passed that came to nothing. -/
def Trial.progress : Trial → Nat
  | .failed reason => reason.progress
  | _ => 0

theorem Search.progress_record (permille : Nat) (s : Search) (t : Trial) :
    (s.record permille t).reason.progress = max s.reason.progress t.progress := by
  cases t with
  | inexact => exact (Nat.max_zero _).symm
  | failed reason => exact NoSolution.progress_further s.reason reason
  | found split =>
      have kept : (s.record permille (.found split)).reason = s.reason := by
        simp only [record]
        repeat' split
        all_goals rfl
      rw [kept]
      exact (Nat.max_zero _).symm

variable {c : Constraints} {r : Request}

/-- The checks of a trial, each told by what passes it. -/
theorem trial_eq (c : Constraints) (r : Request) (prescaler : Nat) :
    trial c r prescaler =
      if Divides c r prescaler then
        if c.Advertises (bitLengthAt c r prescaler) then
          if r.minQuanta ≤ bitLengthAt c r prescaler then
            ((split? c r prescaler (bitLengthAt c r prescaler)).map Trial.found).getD
              (.failed .jumpWidthUnreachable)
          else .failed .minQuantaUnreachable
        else .failed .bitLengthOutOfRange
      else .inexact := by
  have outside : bitLengthAt c r prescaler < c.minBitLength ∨
      c.maxBitLength < bitLengthAt c r prescaler ↔
        ¬ c.Advertises (bitLengthAt c r prescaler) := by
    rw [Constraints.Advertises]
    omega
  have tooFew : bitLengthAt c r prescaler < r.minQuanta ↔
      ¬ r.minQuanta ≤ bitLengthAt c r prescaler := Nat.not_le.symm
  simp only [trial, outside, tooFew, ite_not, ne_eq, Divides]
  cases split? c r prescaler (bitLengthAt c r prescaler) <;> rfl

/-- The checks that a prescaler passes before it comes to nothing. -/
theorem le_progress_trial {prescaler : Nat}
    (nothing : ∀ split, trial c r prescaler ≠ .found split) :
    (1 ≤ (trial c r prescaler).progress ↔ Divides c r prescaler) ∧
      (2 ≤ (trial c r prescaler).progress ↔
        Divides c r prescaler ∧ c.Advertises (bitLengthAt c r prescaler)) ∧
      (3 ≤ (trial c r prescaler).progress ↔
        Divides c r prescaler ∧ c.Advertises (bitLengthAt c r prescaler) ∧
          r.minQuanta ≤ bitLengthAt c r prescaler) := by
  have far : (trial c r prescaler).progress =
      if Divides c r prescaler then
        if c.Advertises (bitLengthAt c r prescaler) then
          if r.minQuanta ≤ bitLengthAt c r prescaler then 3 else 2
        else 1
      else 0 := by
    rw [trial_eq] at nothing ⊢
    split_ifs at nothing ⊢
    · cases fitted : split? c r prescaler (bitLengthAt c r prescaler) with
      | none => rfl
      | some split =>
          rw [fitted] at nothing
          exact absurd rfl (nothing split)
    all_goals rfl
  rw [far]
  split_ifs with divides advertised enough
  · simp [divides, advertised, enough]
  · simp [divides, advertised, enough]
  · simp [divides, advertised]
  · simp [divides]

/-! ### The prescalers that are tried -/

/-- The prescalers that a search tries: no smaller one makes the bit too short. -/
def tried (c : Constraints) (r : Request) : Set Nat :=
  {p ∈ settable c | ∀ q ∈ settable c, q < p → c.minBitLength ≤ bitLengthAt c r q}

/-- A search that has got to prescaler number `k` goes on to number `j`. -/
structure GetsTo (c : Constraints) (r : Request) (k j : Nat) : Prop where
  onward : k ≤ j
  within : j ≤ c.prescalerSteps
  longEnough : ∀ i, k ≤ i → i < j → c.minBitLength ≤ bitLengthAt c r (nthPrescaler c i)

/-- A search goes on from a prescaler only if the bit of that one is not too short. -/
theorem exists_getsTo_iff {k : Nat} (within : k ≤ c.prescalerSteps) (P : Nat → Prop) :
    (∃ j, GetsTo c r k j ∧ P j) ↔
      P k ∨ c.minBitLength ≤ bitLengthAt c r (nthPrescaler c k) ∧
        ∃ j, GetsTo c r (k + 1) j ∧ P j := by
  constructor
  · rintro ⟨j, ⟨onward, inside, longEnough⟩, holds⟩
    rcases Nat.eq_or_lt_of_le onward with rfl | later
    · exact .inl holds
    · refine .inr ⟨longEnough k (Nat.le_refl k) later, j, ⟨later, inside, ?_⟩, holds⟩
      exact fun i after before => longEnough i (Nat.le_of_succ_le after) before
  · rintro (holds | ⟨first, j, ⟨onward, inside, longEnough⟩, holds⟩)
    · exact ⟨k, ⟨Nat.le_refl k, within, fun i after before => by omega⟩, holds⟩
    · refine ⟨j, ⟨Nat.le_of_succ_le onward, inside, ?_⟩, holds⟩
      intro i after before
      rcases Nat.eq_or_lt_of_le after with rfl | later
      · exact first
      · exact longEnough i later before

/-- A search gets as far as the prescaler it tries with the most success. -/
theorem le_progress_search {n steps k : Nat} {s : Search} (left : k + steps = c.prescalerSteps) :
    n ≤ (search c r steps (nthPrescaler c k) s).reason.progress ↔
      n ≤ s.reason.progress ∨
        ∃ j, GetsTo c r k j ∧ n ≤ (trial c r (nthPrescaler c j)).progress := by
  induction steps generalizing k s with
  | zero =>
      have last : ¬ ∃ j, GetsTo c r (k + 1) j ∧ n ≤ (trial c r (nthPrescaler c j)).progress := by
        rintro ⟨j, gets, -⟩
        have onward := gets.onward
        have within := gets.within
        omega
      rw [search, exists_getsTo_iff (by omega)]
      simp only [ite_self, last, and_false, or_false, Search.progress_record, le_max_iff]
  | succ steps ih =>
      rw [search, exists_getsTo_iff (by omega)]
      by_cases tooShort : bitLengthAt c r (nthPrescaler c k) < c.minBitLength
      · simp only [if_pos tooShort, Nat.not_le.mpr tooShort, false_and, or_false,
          Search.progress_record, le_max_iff]
      · simp only [if_neg tooShort, Nat.not_lt.mp tooShort, true_and, ← nthPrescaler_succ]
        rw [ih (by omega), Search.progress_record, le_max_iff, or_assoc]

theorem mem_tried_iff (searchable : Searchable c r) {p : Nat} :
    p ∈ tried c r ↔ ∃ j, GetsTo c r 0 j ∧ nthPrescaler c j = p := by
  constructor
  · rintro ⟨⟨⟨j, rfl⟩, inRange⟩, longEnough⟩
    have within := (nthPrescaler_le searchable).mp inRange
    refine ⟨j, ⟨Nat.zero_le j, within, ?_⟩, rfl⟩
    intro i _ before
    refine longEnough _ ⟨⟨i, rfl⟩, ?_⟩ ((nthPrescaler_lt_iff searchable).mpr before)
    exact (nthPrescaler_le searchable).mpr (before.le.trans within)
  · rintro ⟨j, gets, rfl⟩
    refine ⟨⟨⟨j, rfl⟩, (nthPrescaler_le searchable).mpr gets.within⟩, ?_⟩
    rintro q ⟨⟨i, rfl⟩, -⟩ before
    exact gets.longEnough i (Nat.zero_le i) ((nthPrescaler_lt_iff searchable).mp before)

/-- The search from its start gets as far as some prescaler among those it tries. -/
theorem progress_search (searchable : Searchable c r) {n : Nat} (positive : 0 < n) :
    n ≤ (search c r c.prescalerSteps c.prescalerMin.toNat .start).reason.progress ↔
      ∃ p ∈ tried c r, n ≤ (trial c r p).progress := by
  have first : nthPrescaler c 0 = c.prescalerMin.toNat := by
    rw [nthPrescaler, Nat.zero_mul, Nat.add_zero]
  have nothing : ¬ n ≤ Search.start.reason.progress := Nat.not_le.mpr positive
  rw [← first, le_progress_search (Nat.zero_add _)]
  simp only [nothing, false_or, mem_tried_iff searchable]
  constructor
  · rintro ⟨j, gets, far⟩
    exact ⟨_, ⟨j, gets, rfl⟩, far⟩
  · rintro ⟨p, ⟨j, gets, rfl⟩, far⟩
    exact ⟨j, gets, far⟩

/-- A prescaler whose bit is long enough is tried, as smaller ones make the bit no shorter. -/
theorem Promising.tried (searchable : Searchable c r) {p : Nat} (promising : Promising c r p) :
    p ∈ tried c r := by
  refine ⟨promising.settable, ?_⟩
  rintro q ⟨⟨k, rfl⟩, -⟩ before
  exact promising.advertised.1.trans
    (bitLengthAt_le searchable.bitratePos (nthPrescaler_pos searchable k) before.le)

/-! ### What the reasons say -/

/-- A bit length has a split with both segments in range and room for a jump width. -/
def Splits (c : Constraints) (width bitLength : Nat) : Prop :=
  ∃ segment1 segment2, bitLength = 1 + segment1 + segment2 ∧
    (c.segment1Min.toNat ≤ segment1 ∧ segment1 ≤ c.segment1Max.toNat) ∧
    (c.segment2Min.toNat ≤ segment2 ∧ segment2 ≤ c.segment2Max.toNat) ∧ width ≤ segment2

/-- What a reason says, if some prescalers are asked whether they divide the clock. -/
def Explains (c : Constraints) (r : Request) (asked : Set Nat) : NoSolution → Prop
  | .noIntegerBitLength => ∀ p ∈ asked, ¬ Divides c r p
  | .bitLengthOutOfRange =>
      (∃ p ∈ asked, Divides c r p) ∧
        ∀ p ∈ asked, Divides c r p → ¬ c.Advertises (bitLengthAt c r p)
  | .minQuantaUnreachable =>
      (∃ p, Promising c r p) ∧ ∀ p, Promising c r p → bitLengthAt c r p < r.minQuanta
  | .jumpWidthUnreachable =>
      ∃ width, r.jumpWidth = some width ∧
        (∃ p, Promising c r p ∧ r.minQuanta ≤ bitLengthAt c r p) ∧
        ∀ p, Promising c r p → r.minQuanta ≤ bitLengthAt c r p →
          ¬ Splits c width (bitLengthAt c r p)

section Unsolved

variable {t : Target} {phase : Phase} {reason : NoSolution}

theorem search_of_unsolved (accepted : c.validate = .ok ()) (requested : t.request c phase = .ok r)
    (unsolved : solve c t phase = .error (.noSolution reason)) :
    (search c r c.prescalerSteps c.prescalerMin.toNat .start).reason = reason := by
  rw [solve_eq accepted requested] at unsolved
  cases found : (search c r c.prescalerSteps c.prescalerMin.toNat .start).best with
  | none =>
      rw [found] at unsolved
      cases unsolved
      rfl
  | some x =>
      rw [found] at unsolved
      cases unsolved

theorem not_fitting_of_unsolved (accepted : c.validate = .ok ())
    (requested : t.request c phase = .ok r)
    (unsolved : solve c t phase = .error (.noSolution reason)) {p : Nat}
    (promising : Promising c r p) (enough : r.minQuanta ≤ bitLengthAt c r p) :
    ¬ (fitting c r p (bitLengthAt c r p)).Nonempty := by
  intro nonempty
  obtain ⟨s, solved⟩ := (solve_isOk_iff accepted requested).mpr
    ⟨p, promising.settable, promising.divides, enough, nonempty⟩
  rw [unsolved] at solved
  cases solved

theorem trial_of_unsolved (accepted : c.validate = .ok ()) (requested : t.request c phase = .ok r)
    (unsolved : solve c t phase = .error (.noSolution reason)) {p : Nat} (possible : p ∈ settable c)
    (split : Split) : trial c r p ≠ .found split := by
  intro found
  have searchable := searchable_of_accepted accepted requested
  have optimum := trial_optimum searchable possible.1 possible.2
  rw [found] at optimum
  obtain ⟨s, solved⟩ := (solve_isOk_iff accepted requested).mpr
    ⟨p, (feasible_prescaler_iff searchable p).mp ⟨split, optimum.1⟩⟩
  rw [unsolved] at solved
  cases solved

/-- How many checks the most successful prescaler passed, told by the prescalers alone. -/
theorem progress_of_unsolved (accepted : c.validate = .ok ())
    (requested : t.request c phase = .ok r)
    (unsolved : solve c t phase = .error (.noSolution reason)) :
    (1 ≤ reason.progress ↔ ∃ p ∈ tried c r, Divides c r p) ∧
      (2 ≤ reason.progress ↔ ∃ p, Promising c r p) ∧
      (3 ≤ reason.progress ↔ ∃ p, Promising c r p ∧ r.minQuanta ≤ bitLengthAt c r p) := by
  have searchable := searchable_of_accepted accepted requested
  have checks (p : Nat) (member : p ∈ tried c r) :=
    le_progress_trial (trial_of_unsolved accepted requested unsolved member.1)
  rw [← search_of_unsolved accepted requested unsolved]
  refine ⟨?_, ?_, ?_⟩
  · rw [progress_search searchable (by decide)]
    exact exists_congr fun p => and_congr_right fun member => (checks p member).1
  · rw [progress_search searchable (by decide)]
    constructor
    · rintro ⟨p, member, far⟩
      obtain ⟨divides, advertised⟩ := (checks p member).2.1.mp far
      exact ⟨p, member.1, divides, advertised⟩
    · rintro ⟨p, promising⟩
      have member := promising.tried searchable
      exact ⟨p, member, (checks p member).2.1.mpr ⟨promising.divides, promising.advertised⟩⟩
  · rw [progress_search searchable (by decide)]
    constructor
    · rintro ⟨p, member, far⟩
      obtain ⟨divides, advertised, enough⟩ := (checks p member).2.2.mp far
      exact ⟨p, ⟨member.1, divides, advertised⟩, enough⟩
    · rintro ⟨p, promising, enough⟩
      have member := promising.tried searchable
      exact ⟨p, member,
        (checks p member).2.2.mpr ⟨promising.divides, promising.advertised, enough⟩⟩

/-- A split whose segment 1 is not empty fits. -/
theorem fitting_of_splits {width p bitLength : Nat} (segment1Pos : 1 ≤ c.segment1Min.toNat)
    (wide : r.jumpWidth = some width) (splits : Splits c width bitLength) :
    (fitting c r p bitLength).Nonempty := by
  obtain ⟨segment1, segment2, rfl, range1, range2, room⟩ := splits
  refine ⟨⟨p, segment1, segment2⟩, rfl, rfl, ?_, range1.2, ?_, range2.2⟩
  · exact Nat.max_le.mpr ⟨segment1Pos.trans range1.1, range1.1⟩
  · rw [wide, Option.getD_some]
    exact Nat.max_le.mpr ⟨range2.1, room⟩

/-- The reason of a failed search explains it. A prescaler that the search does not try is not asked
whether it divides the clock, but all that give an advertised bit length are tried. Where segment 1
may be empty, nothing is said of the jump width. -/
theorem failure_is_explained (accepted : c.validate = .ok ())
    (requested : t.request c phase = .ok r)
    (unsolved : solve c t phase = .error (.noSolution reason)) :
    (∀ named, (named = .jumpWidthUnreachable → 1 ≤ c.segment1Min.toNat) →
        (reason = named ↔ Explains c r (tried c r) named)) ∧
      ∀ p, Promising c r p → p ∈ tried c r := by
  have searchable := searchable_of_accepted accepted requested
  obtain ⟨divided, advertised, enough⟩ := progress_of_unsolved accepted requested unsolved
  obtain ⟨none, one, two, three⟩ := reason.eq_iff_progress
  refine ⟨?_, fun p promising => promising.tried searchable⟩
  intro named known
  cases named with
  | noIntegerBitLength =>
      rw [none, divided]
      simp only [Explains, not_exists, not_and]
  | bitLengthOutOfRange =>
      rw [one, divided, advertised]
      refine and_congr_right fun _ => ⟨?_, ?_⟩
      · intro unpromising p member divides inRange
        exact unpromising ⟨p, member.1, divides, inRange⟩
      · rintro outside ⟨p, promising⟩
        exact outside p (promising.tried searchable) promising.divides promising.advertised
  | minQuantaUnreachable =>
      rw [two, advertised, enough]
      simp only [Explains, not_exists, not_and, Nat.not_le]
  | jumpWidthUnreachable =>
      rw [three, enough]
      constructor
      · rintro ⟨p, promising, fine⟩
        have unsplit {q : Nat} := not_fitting_of_unsolved accepted requested unsolved (p := q)
        cases asked : r.jumpWidth with
        | none =>
            exact absurd (fitting_nonempty_of_advertises accepted asked (known rfl)
              promising.advertised) (unsplit promising fine)
        | some width =>
            refine ⟨width, asked, ⟨p, promising, fine⟩, ?_⟩
            intro q promising fine splits
            exact unsplit promising fine (fitting_of_splits (known rfl) asked splits)
      · rintro ⟨width, -, possible, -⟩
        exact possible

end Unsolved

/-- Register ranges at 80 MHz with a segment 2 of three quanta at most. -/
def Constraints.shortSegment2 : Constraints := ⟨80000000, 1, 32, 1, 1, 16, 1, 3, 4⟩

/-- 500 kbit/s with a jump width of four quanta. -/
def Target.wideJump : Target := ⟨500000, ⟨0⟩, 4, 0⟩

/-- Bits of 8, 10, 16 and 20 quanta have splits, but none with room for the jump width. -/
theorem jump_width_failure_is_explained :
    Constraints.shortSegment2.validate = .ok () ∧
      Target.wideJump.request .shortSegment2 .nominal = .ok ⟨500000, 875, some 4, 0⟩ ∧
      solve .shortSegment2 .wideJump .nominal = .error (.noSolution .jumpWidthUnreachable) ∧
      1 ≤ Constraints.shortSegment2.segment1Min.toNat ∧
      Explains .shortSegment2 ⟨500000, 875, some 4, 0⟩
        (tried .shortSegment2 ⟨500000, 875, some 4, 0⟩) .jumpWidthUnreachable := by
  have accepted : Constraints.shortSegment2.validate = .ok () := by rfl
  have requested : Target.wideJump.request .shortSegment2 .nominal =
      .ok ⟨500000, 875, some 4, 0⟩ := by rfl
  have unsolved : solve .shortSegment2 .wideJump .nominal =
      .error (.noSolution .jumpWidthUnreachable) := by rfl
  have segment1Pos : 1 ≤ Constraints.shortSegment2.segment1Min.toNat := by decide
  refine ⟨accepted, requested, unsolved, segment1Pos, ?_⟩
  exact ((failure_is_explained accepted requested unsolved).1 _ fun _ => segment1Pos).mp rfl

/-- A reason is given exactly if it is true of all prescalers that can be set. -/
def Truthful (named : NoSolution) : Prop :=
  ∀ (c : Constraints) (t : Target) (phase : Phase) (r : Request) (reason : NoSolution),
    c.validate = .ok () → t.request c phase = .ok r →
    solve c t phase = .error (.noSolution reason) →
    (reason = named ↔ Explains c r (settable c) named)

/-- Register ranges at 8 MHz with prescalers from 3 on. -/
def Constraints.coarse : Constraints := ⟨8000000, 3, 8, 1, 1, 16, 1, 8, 4⟩

/-- At 1 Mbit/s prescaler 3 leaves two quanta and a fraction of 8 MHz, too short a bit, so the
search ends and does not learn that prescaler 4 divides the clock. With prescaler 4 alone and a
segment 1 that may be empty, the jump width is blamed that nobody asked for. -/
theorem reason_can_mislead :
    ¬ Truthful .noIntegerBitLength ∧ ¬ Truthful .bitLengthOutOfRange ∧
      ¬ Truthful .jumpWidthUnreachable := by
  have accepted : Constraints.coarse.validate = .ok () := by rfl
  have requested : (Target.ofBitrate 1000000).request .coarse .nominal =
      .ok ⟨1000000, 750, none, 0⟩ := by rfl
  have unsolved : solve .coarse (.ofBitrate 1000000) .nominal =
      .error (.noSolution .noIntegerBitLength) := by rfl
  have divisor : ∃ p ∈ settable .coarse, Divides .coarse ⟨1000000, 750, none, 0⟩ p :=
    ⟨4, ⟨⟨1, rfl⟩, by decide⟩, by decide⟩
  refine ⟨?_, ?_, ?_⟩
  · intro truthful
    obtain ⟨p, possible, divides⟩ := divisor
    exact (truthful _ _ _ _ _ accepted requested unsolved).mp rfl p possible divides
  · intro truthful
    have blamed : Explains .coarse ⟨1000000, 750, none, 0⟩ (settable .coarse)
        .bitLengthOutOfRange := by
      refine ⟨divisor, ?_⟩
      rintro p ⟨⟨k, rfl⟩, -⟩ - advertised
      have short := bitLengthAt_le (c := .coarse) (r := ⟨1000000, 750, none, 0⟩) (by decide)
        (by decide : 0 < 3) (Nat.le_add_right 3 (k * Constraints.coarse.prescalerStep.toNat))
      exact absurd (advertised.1.trans short) (by decide)
    cases (truthful _ _ _ _ _ accepted requested unsolved).mpr blamed
  · intro truthful
    obtain ⟨width, asked, -⟩ := (truthful (.withEmptySegment 4) (.ofBitrate 1000000) .nominal
      ⟨1000000, 750, none, 0⟩ .jumpWidthUnreachable (by rfl) (by rfl) (by rfl)).mp rfl
    cases asked

end Timing

end CanLink
