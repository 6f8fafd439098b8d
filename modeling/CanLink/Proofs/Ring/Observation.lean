import CanLink.Proofs.Ring.Interleaving

/-!
The occupancy as a third party sees it. An observer loads the get index and then the put index, and
both sides may go on between the two loads. The answer is about no single moment: it counts the
slots put in by the second load, less those given back by the first one
(`observation_counts_overtaking_slots`). Slots that went through the ring between the loads are
counted as if they were queued, so the observer may find the indices impossible although both sides
do as they should (`observer_finds_fault_with_sound_ring`).
-/

namespace CanLink

theorem Ring.used_counts (r : Ring) (base : UInt32) {low high : Nat} (order : low ≤ high) :
    r.used (base + UInt32.ofNat high) (base + UInt32.ofNat low) =
      if (high - low) % 2 ^ 32 ≤ r.capacity.slots then .ok (UInt32.ofNat (high - low))
      else .error (.impossibleIndices (base + UInt32.ofNat high) (base + UInt32.ofNat low)
        r.capacity.word) := by
  have difference : base + UInt32.ofNat high - (base + UInt32.ofNat low) =
      UInt32.ofNat (high - low) := by
    obtain ⟨n, rfl⟩ := Nat.exists_eq_add_of_le order
    rw [UInt32.ofNat_add, Nat.add_sub_cancel_left]
    grind
  have exceeds : r.capacity.word < UInt32.ofNat (high - low) ↔
      ¬ (high - low) % 2 ^ 32 ≤ r.capacity.slots := by
    rw [UInt32.lt_iff_toNat_lt, r.capacity.toNat_word, UInt32.toNat_ofNat', Nat.not_le]
  simp only [used, difference, exceeds, ite_not]

/-- Number of slots that the drain in progress visited and did not give back yet. -/
def ConsumerPoint.held (c : ConsumerPoint) : Nat :=
  match c.drain? with
  | some d => (d.cursor - d.start).toNat
  | none => 0

namespace Exchange

/-- Number of slots that the consumer gave back. -/
def returned (x : Exchange) : Nat := x.copied.length - x.consumer.held

/-- An observer loads the get index, the two sides take turns, and it loads the put index. -/
def observe (between : List Turn) (x : Exchange) : Except Error UInt32 :=
  (x.run between).ring.used (x.run between).ring.put x.ring.get

/-- Where nothing happens between the two loads, the observer has the occupancy of the ring. -/
theorem observe_nil (x : Exchange) : x.observe [] = x.ring.occupancy := rfl

namespace Agrees

variable {base : UInt32} {released : Nat} {x : Exchange}

theorem held_of_drain (h : Agrees base released x) {seen : Nat} {d : Drain}
    (drain : d.Agrees base released x.copied.length seen) :
    (d.cursor - d.start).toNat = x.copied.length - released := by
  have near := h.published_le.2
  have copied := h.copied_le
  rw [drain.cursor, drain.start, toNat_sub_counts base h.releasedCopied (by omega)]

/-- The slots given back are those that the get index counts. -/
theorem returned_eq (h : Agrees base released x) : x.returned = released := by
  have knows := h.consumer
  have copied := h.releasedCopied
  rw [returned, ConsumerPoint.held]
  cases point : x.consumer with
  | idle =>
      rw [point] at knows
      exact knows
  | gotPut put =>
      rw [point] at knows
      exact knows.1
  | gotBoth put get =>
      rw [point] at knows
      exact knows.1
  | between d =>
      rw [point] at knows
      obtain ⟨seen, -, -, drain⟩ := knows
      simp only [ConsumerPoint.drain?, h.held_of_drain drain]
      omega
  | copying d buffer missing =>
      rw [point] at knows
      obtain ⟨seen, -, -, drain, -⟩ := knows
      simp only [ConsumerPoint.drain?, h.held_of_drain drain]
      omega

end Agrees

end Exchange

/-- Two sides begin with an empty ring and take turns in any order. An observer that loads the get
index at one point of the run and the put index at a later one answers with the number of slots put
in by then and not given back at the first point, and finds fault exactly if this, as a word, is
more than the ring holds. It exceeds what the ring holds by no more than was given back between the
two loads; so if nothing was, the answer is the occupancy at the second load. -/
theorem observation_counts_overtaking_slots (r : Ring) (empty : r.put = r.get)
    (before between : List Exchange.Turn) :
    let early := (Exchange.start r).run before
    let late := early.run between
    let counted := late.published.length - early.returned
    early.returned ≤ late.returned ∧ late.returned ≤ late.published.length ∧
      counted ≤ r.capacity.slots + (late.returned - early.returned) ∧
      early.observe between =
        (if counted % 2 ^ 32 ≤ r.capacity.slots then .ok (UInt32.ofNat counted)
          else .error (.impossibleIndices late.ring.put early.ring.get r.capacity.word)) ∧
      (late.returned = early.returned → early.observe between = late.ring.occupancy ∧
        late.ring.occupancy = .ok (UInt32.ofNat counted) ∧ counted ≤ r.capacity.slots) := by
  intro early late counted
  obtain ⟨first, -, atFirst⟩ := (Exchange.Agrees.start empty).advance before
  obtain ⟨second, more, atSecond⟩ := atFirst.advance between
  have capacity : late.ring.capacity = r.capacity :=
    (Exchange.capacity_run between early).trans (Exchange.capacity_run before (.start r))
  have returnedFirst : early.returned = first := atFirst.returned_eq
  have returnedSecond : late.returned = second := atSecond.returned_eq
  have published : second ≤ late.published.length := atSecond.published_le.1
  have room : late.published.length ≤ second + r.capacity.slots := capacity ▸ atSecond.room
  have put : late.ring.put = r.get + UInt32.ofNat late.published.length := atSecond.put
  have get : early.ring.get = r.get + UInt32.ofNat first := atFirst.get
  have answer : early.observe between =
      if counted % 2 ^ 32 ≤ r.capacity.slots then .ok (UInt32.ofNat counted)
      else .error (.impossibleIndices late.ring.put early.ring.get r.capacity.word) := by
    have used := late.ring.used_counts r.get (le_trans more published)
    rw [← put, ← get, capacity, ← returnedFirst] at used
    exact used
  refine ⟨by omega, by omega, by omega, answer, ?_⟩
  intro still
  have same : early.ring.get = late.ring.get := by
    rw [get, atSecond.get, ← returnedFirst, ← returnedSecond, still]
  have occupancy : early.observe between = late.ring.occupancy := by
    rw [Exchange.observe, same]
    rfl
  have within : counted ≤ r.capacity.slots := by omega
  have maximum : r.capacity.slots ≤ 2 ^ 31 := r.capacity.slots_le_maximum
  rw [if_pos (by omega)] at answer
  exact ⟨occupancy, occupancy.symm.trans answer, within⟩

/-- The turns after `Exchange.crossingTurns` that put the third slot in and copy the second one out.
The drain is not released. -/
def Exchange.closingTurns : List Exchange.Turn :=
  [.producer (.write .whole), .consumer (.copy .whole), .producer .storePut, .consumer .finish]

/-- An observer that loads the get index while both sides copy, and the put index after one more
slot was put in, sees the full ring. -/
theorem observation_while_both_sides_copy :
    Ring.aboutToWrap.put = Ring.aboutToWrap.get ∧ Exchange.crossing.returned = 1 ∧
      (Exchange.crossing.run Exchange.closingTurns).returned = 1 ∧
      Exchange.crossing.observe Exchange.closingTurns = .ok 2 := by
  have empty := Ring.aboutToWrap_empty
  obtain ⟨early, late, published⟩ : Exchange.crossing.returned = 1 ∧
      (Exchange.crossing.run Exchange.closingTurns).returned = 1 ∧
      (Exchange.crossing.run Exchange.closingTurns).published.length = 3 := by decide +kernel
  obtain ⟨-, -, -, -, still⟩ := observation_counts_overtaking_slots Ring.aboutToWrap empty
    Exchange.crossingTurns Exchange.closingTurns
  obtain ⟨occupancy, counted, -⟩ := still (late.trans early.symm)
  refine ⟨empty, early, late, occupancy.trans (counted.trans ?_)⟩
  change Except.ok (UInt32.ofNat ((Exchange.crossing.run Exchange.closingTurns).published.length -
    Exchange.crossing.returned)) = _
  rw [early, published]
  rfl

/-- An observer never finds fault with a ring whose two sides do as they should. -/
def Exchange.NeverFalseAlarm : Prop :=
  ∀ (r : Ring) (before between : List Exchange.Turn), r.put = r.get →
    ∃ queued, ((Exchange.start r).run before).observe between = .ok queued ∧
      queued.toNat ≤ r.capacity.slots

/-- Two slots are put in and taken out, and two more are put in. -/
def Exchange.overtakingTurns : List Exchange.Turn :=
  let slot : UInt32 → Slot := fun time => .error ⟨time, 0, 1⟩
  pushSteps (slot 1) ++ pushSteps (slot 2) ++ drainSteps 2 ++ pushSteps (slot 3) ++
    pushSteps (slot 4)

/-- A ring of two slots is full, as it may be. The observer that loaded the get index before the
first two slots were taken out takes it to hold four. -/
theorem observer_finds_fault_with_sound_ring :
    Ring.aboutToWrap.put = Ring.aboutToWrap.get ∧
      ((Exchange.start .aboutToWrap).run Exchange.overtakingTurns).Safe ∧
      ((Exchange.start .aboutToWrap).run Exchange.overtakingTurns).ring.occupancy = .ok 2 ∧
      (Exchange.start .aboutToWrap).observe Exchange.overtakingTurns =
        .error (.impossibleIndices 3 0xffffffff 2) ∧
      ¬ Exchange.NeverFalseAlarm := by
  have empty := Ring.aboutToWrap_empty
  obtain ⟨released, agrees⟩ := (Exchange.Agrees.start empty).run Exchange.overtakingTurns
  obtain ⟨full, alarm⟩ :
      ((Exchange.start .aboutToWrap).run Exchange.overtakingTurns).ring.occupancy = .ok 2 ∧
        (Exchange.start .aboutToWrap).observe Exchange.overtakingTurns =
          .error (.impossibleIndices 3 0xffffffff 2) := by decide +kernel
  refine ⟨empty, agrees.safe, full, alarm, ?_⟩
  intro never
  obtain ⟨queued, answered, -⟩ := never .aboutToWrap [] Exchange.overtakingTurns empty
  cases alarm.symm.trans answered

end CanLink
