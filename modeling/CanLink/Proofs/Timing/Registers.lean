import CanLink.Proofs.Timing.Optimum

/-!
The registers that the solver sets. `Ranges` are the register ranges of a phase as plain numbers,
and `Legal` says what a device asks of register values and what their caller does: the bitrate is
reached exactly, every register is in its range, and the jump width fits into segment 2 and is the
requested one. Whatever the solver gives is legal (`legal_of_solve`).
-/

namespace CanLink.Timing

/-- Register ranges of one phase. -/
structure Ranges where
  prescalerMin : Nat
  prescalerMax : Nat
  segment1Min : Nat
  segment1Max : Nat
  segment2Min : Nat
  segment2Max : Nat
  jumpWidthMax : Nat
  deriving DecidableEq, Repr

def Constraints.ranges (c : Constraints) : Ranges where
  prescalerMin := c.prescalerMin.toNat
  prescalerMax := c.prescalerMax.toNat
  segment1Min := c.segment1Min.toNat
  segment1Max := c.segment1Max.toNat
  segment2Min := c.segment2Min.toNat
  segment2Max := c.segment2Max.toNat
  jumpWidthMax := c.jumpWidthMax.toNat

/-- The register values are allowed by the ranges and give what the target asks for. -/
structure Legal (clock : Nat) (ranges : Ranges) (target : Target) (s : Settings) : Prop where
  exactly : clock = target.bitrate.toNat * s.prescaler.toNat *
    (1 + s.segment1.toNat + s.segment2.toNat)
  prescalerLeast : ranges.prescalerMin ≤ s.prescaler.toNat
  prescalerMost : s.prescaler.toNat ≤ ranges.prescalerMax
  segment1Least : ranges.segment1Min ≤ s.segment1.toNat
  segment1Most : s.segment1.toNat ≤ ranges.segment1Max
  segment2Least : ranges.segment2Min ≤ s.segment2.toNat
  segment2Most : s.segment2.toNat ≤ ranges.segment2Max
  jumpWidthLeast : 1 ≤ s.jumpWidth.toNat
  jumpWidthMost : s.jumpWidth.toNat ≤ min ranges.jumpWidthMax s.segment2.toNat
  requested : 0 < target.jumpWidth.toInt → (s.jumpWidth.toNat : Int) = target.jumpWidth.toInt

variable {c : Constraints} {t : Target} {phase : Phase} {r : Request} {s : Settings}

theorem Target.explicitJumpWidth_eq_some {width : Nat}
    (explicit : t.explicitJumpWidth = some width) :
    0 < width ∧ (width : Int) = t.jumpWidth.toInt := by
  rw [explicitJumpWidth] at explicit
  split at explicit
  · cases explicit
    omega
  · cases explicit

theorem Target.explicitJumpWidth_eq_none (absent : t.explicitJumpWidth = none) :
    ¬ 0 < t.jumpWidth.toInt := by
  intro positive
  rw [explicitJumpWidth, if_pos positive] at absent
  cases absent

/-- The solver gives the register values of a feasible split, and only for valid input. -/
theorem feasible_of_solve (solved : solve c t phase = .ok s) :
    ∃ r x, c.validate = .ok () ∧ t.request c phase = .ok r ∧ Feasible c r x ∧
      s = x.settings c r := by
  cases accepted : c.validate with
  | error e =>
      rw [solve, accepted] at solved
      cases solved
  | ok =>
      cases requested : t.request c phase with
      | error fault =>
          rw [solve, accepted] at solved
          simp only [requested] at solved
          cases solved
      | ok r =>
          have optimum := search_start_optimum (searchable_of_accepted accepted requested)
          rw [solve_eq accepted requested] at solved
          cases found : (search c r c.prescalerSteps c.prescalerMin.toNat .start).best with
          | none =>
              rw [found] at solved
              cases solved
          | some x =>
              rw [found] at solved optimum
              cases solved
              exact ⟨r, x, rfl, rfl, optimum.1, rfl⟩

/-- Both the requested jump width and the largest feasible one fit into segment 2. -/
theorem Feasible.jumpWidth_bounds {x : Split} (accepted : c.validate = .ok ())
    (requested : t.request c phase = .ok r) (feasible : Feasible c r x) :
    let width := r.jumpWidth.getD (min c.jumpWidthMax.toNat x.segment2)
    1 ≤ width ∧ width ≤ min c.jumpWidthMax.toNat x.segment2 := by
  intro width
  obtain ⟨-, -, -, -, segment2Pos, jumpWidthPos⟩ := Constraints.bounds_of_validate accepted
  obtain ⟨-, explicit, -, withinMax⟩ := Target.bounds_of_request requested
  obtain ⟨least, room⟩ := Nat.max_le.mp feasible.fits.segment2Least
  cases asked : r.jumpWidth with
  | none =>
      have largest : width = min c.jumpWidthMax.toNat x.segment2 := by
        simp only [width, asked, Option.getD_none]
      rw [largest]
      omega
  | some w =>
      have given : width = w := by
        simp only [width, asked, Option.getD_some]
      have positive := (Target.explicitJumpWidth_eq_some (explicit ▸ asked)).1
      rw [asked, Option.getD_some] at withinMax room
      rw [given]
      omega

/-- Whatever the solver gives is legal. -/
theorem legal_of_solve (solved : solve c t phase = .ok s) :
    Legal c.clock.toNat c.ranges t s := by
  obtain ⟨r, x, accepted, requested, feasible, rfl⟩ := feasible_of_solve solved
  obtain ⟨bitrate, explicit, -, -⟩ := Target.bounds_of_request requested
  obtain ⟨prescaler, segment1, segment2, jumpWidth⟩ :=
    feasible.settings_toNat (searchable_of_accepted accepted requested)
  obtain ⟨widthLeast, widthMost⟩ := feasible.jumpWidth_bounds accepted requested
  obtain ⟨k, onStep⟩ := feasible.onStep
  constructor
  · rw [prescaler, segment1, segment2, ← bitrate]
    exact feasible.exactly
  · rw [prescaler, onStep]
    exact Nat.le_add_right ..
  · rw [prescaler]
    exact feasible.inRange
  · rw [segment1]
    exact (Nat.max_le.mp feasible.fits.segment1Least).2
  · rw [segment1]
    exact feasible.fits.segment1Most
  · rw [segment2]
    exact (Nat.max_le.mp feasible.fits.segment2Least).1
  · rw [segment2]
    exact feasible.fits.segment2Most
  · rw [jumpWidth]
    exact widthLeast
  · rw [jumpWidth, segment2]
    exact widthMost
  · intro positive
    rw [jumpWidth, explicit]
    cases asked : t.explicitJumpWidth with
    | none => exact absurd positive (Target.explicitJumpWidth_eq_none asked)
    | some width => exact (Target.explicitJumpWidth_eq_some asked).2

end CanLink.Timing
