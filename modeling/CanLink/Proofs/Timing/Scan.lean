import CanLink.Proofs.Timing.Optimum

/-!
The split of a bit length as a scan. `scan` goes through the lengths of segment 2 upwards, skips
those whose segment 1 is out of range, ends with the first that leaves no room for segment 1, and
keeps the last of the splits with the least deviation. It finds what `split?` works out at once.
-/

namespace CanLink.Timing

/-- The best split so far and `count` more lengths of segment 2, from `segment2` on. -/
def scan (c : Constraints) (r : Request) (prescaler bitLength : Nat) :
    (count segment2 : Nat) → Option Split → Option Split
  | 0, _, best => best
  | count + 1, segment2, best =>
      if bitLength ≤ segment2 + 1 then best
      else
        let split : Split := ⟨prescaler, bitLength - 1 - segment2, segment2⟩
        let outside := split.segment1 < c.segment1Min.toNat ∨ c.segment1Max.toNat < split.segment1
        let kept := best.any fun b => b.deviation r.permille < split.deviation r.permille
        scan c r prescaler bitLength count (segment2 + 1)
          (if outside ∨ kept then best else some split)

/-- There is only one best split. -/
theorem Optimum.unique {permille : Nat} {among : Set Split} {a b : Option Split}
    (first : Optimum permille among a) (second : Optimum permille among b) : a = b := by
  cases a with
  | none =>
      cases b with
      | none => rfl
      | some y => exact absurd second.1 (Set.eq_empty_iff_forall_notMem.mp first y)
  | some x =>
      cases b with
      | none => exact absurd first.1 (Set.eq_empty_iff_forall_notMem.mp second x)
      | some y =>
          by_contra different
          have apart : x ≠ y := fun same => different (congrArg some same)
          exact lt_asymm (first.2 y second.1 apart.symm) (second.2 x first.1 apart)

/-- The best split so far stays the best if the next one does not fit. -/
theorem Optimum.skip {permille segment2 : Nat} {among : Set Split} {best : Option Split}
    (seen : Optimum permille {x ∈ among | x.segment2 < segment2} best)
    (absent : ∀ x ∈ among, x.segment2 ≠ segment2) :
    Optimum permille {x ∈ among | x.segment2 < segment2 + 1} best := by
  have same : {x ∈ among | x.segment2 < segment2 + 1} = {x ∈ among | x.segment2 < segment2} := by
    ext x
    constructor
    · rintro ⟨member, below⟩
      exact ⟨member, Nat.lt_of_le_of_ne (Nat.le_of_lt_succ below) (absent x member)⟩
    · rintro ⟨member, below⟩
      exact ⟨member, Nat.lt_succ_of_lt below⟩
  rw [same]
  exact seen

/-- Once all splits are behind, the best so far is the best. -/
theorem Optimum.finish {permille segment2 : Nat} {among : Set Split} {best : Option Split}
    (seen : Optimum permille {x ∈ among | x.segment2 < segment2} best)
    (all : ∀ x ∈ among, x.segment2 < segment2) : Optimum permille among best := by
  rw [Set.sep_eq_self_iff_mem_true.mpr all] at seen
  exact seen

/-- One more split that fits takes the place of the best one unless that is strictly closer. -/
theorem Optimum.visit {c : Constraints} {r : Request} {prescaler bitLength : Nat} {split : Split}
    {best : Option Split} (fits : split ∈ fitting c r prescaler bitLength)
    (seen : Optimum r.permille
      {x ∈ fitting c r prescaler bitLength | x.segment2 < split.segment2} best) :
    Optimum r.permille {x ∈ fitting c r prescaler bitLength | x.segment2 < split.segment2 + 1}
      (if best.any fun b => b.deviation r.permille < split.deviation r.permille then best
        else some split) := by
  have newest : ∀ y ∈ fitting c r prescaler bitLength, y.segment2 < split.segment2 + 1 →
      y ≠ split → y.segment2 < split.segment2 := by
    intro y member below different
    refine Nat.lt_of_le_of_ne (Nat.le_of_lt_succ below) fun same => different ?_
    rw [eq_of_mem_fitting member, eq_of_mem_fitting fits, same]
  have alike : ∀ y ∈ fitting c r prescaler bitLength, y.prescaler = split.prescaler ∧
      y.bitLength = split.bitLength := fun y member =>
    ⟨member.1.trans fits.1.symm, member.2.1.trans fits.2.1.symm⟩
  cases best with
  | none =>
      have nothing := Set.eq_empty_iff_forall_notMem.mp seen
      refine ⟨⟨fits, Nat.lt_succ_self _⟩, ?_⟩
      rintro y ⟨member, below⟩ different
      exact absurd ⟨member, newest y member below different⟩ (nothing y)
  | some b =>
      obtain ⟨⟨member, below⟩, least⟩ := seen
      obtain ⟨prescaler, length⟩ := alike b member
      rw [Option.any_some]
      by_cases closer : b.deviation r.permille < split.deviation r.permille
      · rw [if_pos (decide_eq_true closer)]
        refine ⟨⟨member, Nat.lt_succ_of_lt below⟩, ?_⟩
        rintro y ⟨memberY, belowY⟩ different
        by_cases same : y = split
        · rw [same]
          exact Split.rank_lt_of_deviation prescaler length (.inl closer)
        · exact least y ⟨memberY, newest y memberY belowY same⟩ different
      · rw [if_neg (by simpa using closer)]
        have beats : split.rank r.permille < b.rank r.permille := by
          refine Split.rank_lt_of_deviation prescaler.symm length.symm ?_
          rcases Nat.lt_or_eq_of_le (Nat.le_of_not_lt closer) with less | equal
          · exact .inl less
          · exact .inr ⟨equal, below⟩
        refine ⟨⟨fits, Nat.lt_succ_self _⟩, ?_⟩
        rintro y ⟨memberY, belowY⟩ different
        by_cases same : y = b
        · rw [same]
          exact beats
        · exact beats.trans (least y ⟨memberY, newest y memberY belowY different⟩ same)

theorem scan_optimum {c : Constraints} {r : Request} {prescaler bitLength count segment2 : Nat}
    {best : Option Split}
    (least : max c.segment2Min.toNat (r.jumpWidth.getD 0) ≤ segment2)
    (left : count = c.segment2Max.toNat + 1 - segment2)
    (seen : Optimum r.permille {x ∈ fitting c r prescaler bitLength | x.segment2 < segment2} best) :
    Optimum r.permille (fitting c r prescaler bitLength)
      (scan c r prescaler bitLength count segment2 best) := by
  induction count generalizing segment2 best with
  | zero =>
      refine seen.finish ?_
      rintro x ⟨-, -, fits⟩
      have most := fits.segment2Most
      omega
  | succ count ih =>
      rw [scan]
      by_cases room : bitLength ≤ segment2 + 1
      · rw [if_pos room]
        refine seen.finish ?_
        rintro x ⟨-, length, fits⟩
        have nonempty := (Nat.max_le.mp fits.segment1Least).1
        rw [Split.bitLength] at length
        omega
      · rw [if_neg room]
        refine ih (Nat.le_succ_of_le least) (by omega) ?_
        by_cases outside : bitLength - 1 - segment2 < c.segment1Min.toNat ∨
            c.segment1Max.toNat < bitLength - 1 - segment2
        · simp only [outside, true_or, if_true]
          refine seen.skip ?_
          rintro x member rfl
          have segment1 := congrArg Split.segment1 (eq_of_mem_fitting member)
          obtain ⟨-, -, fits⟩ := member
          have low := (Nat.max_le.mp fits.segment1Least).2
          have high := fits.segment1Most
          simp only at segment1
          omega
        · have fits : (⟨prescaler, bitLength - 1 - segment2, segment2⟩ : Split) ∈
              fitting c r prescaler bitLength := by
            refine ⟨rfl, ?_, Nat.max_le.mpr ⟨?_, ?_⟩, ?_, least, ?_⟩
            · simp only [Split.bitLength]
              omega
            · simp only
              omega
            · simp only
              omega
            · simp only
              omega
            · simp only
              omega
          simp only [outside, false_or]
          exact Optimum.visit fits seen

/-- A scan over the range of segment 2 finds the split that `split?` works out. -/
theorem scan_eq_split? {c : Constraints} (r : Request) (segment2Pos : 0 < c.segment2Min.toNat)
    (prescaler bitLength : Nat) :
    let low := max c.segment2Min.toNat (r.jumpWidth.getD 0)
    scan c r prescaler bitLength (c.segment2Max.toNat + 1 - low) low none =
      split? c r prescaler bitLength := by
  intro low
  refine Optimum.unique (scan_optimum (Nat.le_refl low) rfl ?_)
    (split?_optimum r segment2Pos prescaler bitLength)
  refine Set.eq_empty_of_forall_notMem ?_
  rintro x ⟨⟨-, -, fits⟩, below⟩
  exact absurd below (Nat.not_lt.mpr fits.segment2Least)

end CanLink.Timing
