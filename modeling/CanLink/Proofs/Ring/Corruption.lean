import CanLink.Proofs.Ring.Pending

/-!
Impossible indices. The peer may write anything into the header of a ring, and every call that goes
by the indices checks first that they claim no more slots than the ring has. If they claim more,
each such call fails alike and changes nothing, so that the ring stays as it is until a reset or a
clear (`Channel.answerAll_of_impossible`). If they do not, no call fails, and no call of either side
makes them: a push goes only where there is room, and a drain gives back only what it has seen
(`Channel.answerAll_of_consistent`).
-/

namespace CanLink

/-! ### Calls on a channel -/

/-- What the two sides do while the consumer holds a drain. -/
inductive DrainTurn where
  | next
  | push (slot : Slot)

inductive ChannelCall where
  | push (slot : Slot)
  | free
  /-- The number of queued slots, for either side or an onlooker. -/
  | occupancy
  /-- A drain from its beginning to its release. -/
  | drain (turns : List DrainTurn)
  | reset
  | clear

/-- The calls that do not go by the indices. -/
def ChannelCall.repairs : ChannelCall → Bool
  | .reset | .clear => true
  | _ => false

inductive ChannelAnswer where
  | pushed (accepted : Bool)
  | counted (slots : UInt32)
  | began
  | yielded (slot : Option Slot)
  | discarded (slots : UInt32)
  | cleared
  deriving DecidableEq

abbrev ChannelResult := Except Error ChannelAnswer

namespace Channel

/-- Takes turns while a drain lasts, and releases it. -/
def takeTurns : List DrainTurn → Drain → Channel → List ChannelResult × Channel
  | [], d, c => ([], { c with ring := d.release c.ring })
  | .next :: rest, d, c =>
      let (slot, d) := d.next c.ring
      let (results, c) := takeTurns rest d c
      (.ok (.yielded slot) :: results, c)
  | .push slot :: rest, d, c =>
      let (accepted, c) := c.push slot
      let (results, c) := takeTurns rest d c
      (accepted.map .pushed :: results, c)

/-- The results of a call, of which a drain has one for its beginning and one for each turn. -/
def answer (call : ChannelCall) (c : Channel) : List ChannelResult × Channel :=
  match call with
  | .push slot => ([(c.push slot).1.map .pushed], (c.push slot).2)
  | .free => ([c.ring.free.map .counted], c)
  | .occupancy => ([c.ring.occupancy.map .counted], c)
  | .drain turns =>
      match c.ring.drain with
      | .error e => ([.error e], c)
      | .ok d => (.ok .began :: (takeTurns turns d c).1, (takeTurns turns d c).2)
  | .reset => ([.ok (.discarded c.reset.1)], c.reset.2)
  | .clear => ([.ok .cleared], { c with ring := c.ring.clear })

/-- The results of calls made one after another. -/
def answerAll : List ChannelCall → Channel → List ChannelResult × Channel
  | [], c => ([], c)
  | call :: rest, c =>
      ((c.answer call).1 ++ ((c.answer call).2.answerAll rest).1,
        ((c.answer call).2.answerAll rest).2)

end Channel

/-! ### Impossible indices -/

/-- The indices claim more slots than the ring has. -/
def Ring.Impossible (r : Ring) : Prop := r.capacity.slots < (r.put - r.get).toNat

instance (r : Ring) : Decidable r.Impossible := inferInstanceAs (Decidable (_ < _))

theorem Ring.consistent_iff {r : Ring} : r.Consistent ↔ ¬ r.Impossible := by
  rw [Consistent, r.length_queued, Impossible, Nat.not_lt]

theorem Ring.occupancy_of_impossible {r : Ring} (impossible : r.Impossible) :
    r.occupancy = .error (.impossibleIndices r.put r.get r.capacity.word) := by
  have above : r.capacity.word < r.put - r.get := by
    rw [UInt32.lt_iff_toNat_lt, r.capacity.toNat_word]
    exact impossible
  rw [occupancy]
  exact if_pos above

namespace Channel

variable {c : Channel}

theorem answer_of_impossible (impossible : c.ring.Impossible) {call : ChannelCall}
    (checked : call.repairs = false) :
    c.answer call =
      ([.error (.impossibleIndices c.ring.put c.ring.get c.ring.capacity.word)], c) := by
  have refused := Ring.occupancy_of_impossible impossible
  cases call with
  | push slot => rw [answer, push, Ring.push, refused]; rfl
  | free => rw [answer, Ring.free, refused]; rfl
  | occupancy => rw [answer, refused]; rfl
  | drain turns => rw [answer, Ring.drain, refused]; rfl
  | reset => cases checked
  | clear => cases checked

/-- Without a repair every call fails, each for the same reason. -/
theorem answerAll_of_impossible (impossible : c.ring.Impossible) {calls : List ChannelCall}
    (checked : ∀ call ∈ calls, call.repairs = false) :
    c.answerAll calls =
      (calls.map fun _ => .error (.impossibleIndices c.ring.put c.ring.get c.ring.capacity.word),
        c) := by
  induction calls with
  | nil => rfl
  | cons call rest ih =>
      have first := answer_of_impossible impossible (checked call List.mem_cons_self)
      have later := ih fun call member => checked call (List.mem_cons_of_mem _ member)
      rw [answerAll, first, later]
      rfl

/-! ### Possible indices -/

/-- Calls on a channel that were all answered, and left possible indices. -/
structure Succeeds (c : Channel) (outcome : List ChannelResult × Channel) : Prop where
  answered : ∀ result ∈ outcome.1, ∃ value, result = .ok value
  capacity : outcome.2.ring.capacity = c.ring.capacity
  consistent : outcome.2.ring.Consistent

theorem Succeeds.none (consistent : c.ring.Consistent) : c.Succeeds ([], c) where
  answered _ member := (List.not_mem_nil member).elim
  capacity := rfl
  consistent := consistent

/-- One more call in front was answered, and kept the capacity. -/
theorem Succeeds.cons {after : Channel} {later : List ChannelResult × Channel}
    (h : after.Succeeds later) (value : ChannelAnswer)
    (same : after.ring.capacity = c.ring.capacity) :
    c.Succeeds (.ok value :: later.1, later.2) where
  answered := List.forall_mem_cons.mpr ⟨⟨value, rfl⟩, h.answered⟩
  capacity := h.capacity.trans same
  consistent := h.consistent

theorem Succeeds.append {outcome later : List ChannelResult × Channel}
    (h : c.Succeeds outcome) (h' : outcome.2.Succeeds later) :
    c.Succeeds (outcome.1 ++ later.1, later.2) where
  answered := List.forall_mem_append.mpr ⟨h.answered, h'.answered⟩
  capacity := h'.capacity.trans h.capacity
  consistent := h'.consistent

/-- A repair works on any indices. -/
theorem answer_of_repairs (c : Channel) {call : ChannelCall} (repairs : call.repairs = true) :
    c.Succeeds (c.answer call) := by
  cases call with
  | reset =>
      have after : c.reset.2.ring.Consistent :=
        Ring.consistent_of_queued_eq_nil c.ring.queued_reset
      exact (Succeeds.none after).cons _ rfl
  | clear =>
      have after : c.ring.clear.Consistent := Ring.consistent_of_queued_eq_nil c.ring.queued_clear
      exact (Succeeds.none (c := ⟨c.ring.clear, c.wake⟩) after).cons _ rfl
  | _ => cases repairs

/-- A drain on its way: it has passed some of the records that it saw when it began, and these are
still queued. -/
structure Underway (c : Channel) (d : Drain) : Prop where
  consistent : c.ring.Consistent
  place : ∃ passed seen, passed ≤ seen ∧ seen ≤ c.ring.queued.length ∧
    d = ⟨c.ring.get, c.ring.get + UInt32.ofNat passed, c.ring.get + UInt32.ofNat seen⟩

namespace Underway

variable {d : Drain}

theorem begin (consistent : c.ring.Consistent) :
    c.Underway ⟨c.ring.get, c.ring.get, c.ring.put⟩ := by
  refine ⟨consistent, 0, c.ring.queued.length, Nat.zero_le _, Nat.le_refl _, ?_⟩
  rw [c.ring.length_queued, index_eq_add_sub]
  simp

theorem next (h : c.Underway d) : c.Underway (d.next c.ring).2 := by
  obtain ⟨consistent, passed, seen, order, within, rfl⟩ := h
  obtain ⟨moved, bound, reached⟩ := Drain.next_moves c.ring
    ⟨c.ring.get, c.ring.get + UInt32.ofNat passed, c.ring.get + UInt32.ofNat seen⟩
  have near : seen - passed < 2 ^ 32 := by
    have maximum : c.ring.capacity.slots ≤ 2 ^ 31 := c.ring.capacity.slots_le_maximum
    have held : c.ring.queued.length ≤ c.ring.capacity.slots := consistent
    omega
  rw [Drain.remaining, toNat_sub_counts _ order near] at bound
  refine ⟨consistent, passed + moved, seen, by omega, within, ?_⟩
  rw [reached, UInt32.ofNat_add, UInt32.add_assoc]

/-- What is put in while a drain lasts comes after all that the drain saw. -/
theorem pushed (h : c.Underway d) (slot : Slot)
    (room : c.ring.queued.length < c.ring.capacity.slots) (wake : Wake) :
    Underway ⟨c.ring.pushed slot, wake⟩ d := by
  obtain ⟨consistent, passed, seen, order, within, rfl⟩ := h
  refine ⟨Ring.consistent_pushed slot room, passed, seen, order, ?_, ?_⟩
  · rw [Ring.queued_pushed slot room, List.length_append]
    omega
  · rw [Ring.get_pushed]

theorem release (h : c.Underway d) : (d.release c.ring).Consistent := by
  obtain ⟨consistent, passed, seen, order, within, rfl⟩ := h
  rw [Ring.Consistent, Drain.queued_release _ (Nat.le_trans order within), List.length_drop,
    Drain.capacity_release]
  exact Nat.le_trans (Nat.sub_le ..) consistent

end Underway

theorem takeTurns_of_underway (turns : List DrainTurn) {d : Drain} (h : c.Underway d) :
    c.Succeeds (c.takeTurns turns d) := by
  induction turns generalizing c d with
  | nil =>
      exact ⟨fun _ member => (List.not_mem_nil member).elim, Drain.capacity_release .., h.release⟩
  | cons turn rest ih =>
      cases turn with
      | next => exact (ih h.next).cons _ rfl
      | push slot =>
          rw [takeTurns]
          rcases push_split slot h.consistent with ⟨-, refused⟩ | ⟨room, accepted⟩
          · rw [refused]
            exact (ih h).cons _ rfl
          · rw [accepted]
            exact (ih (h.pushed slot room c.wake.notify)).cons _ rfl

theorem answer_of_consistent (consistent : c.ring.Consistent) (call : ChannelCall) :
    c.Succeeds (c.answer call) := by
  have checked := Ring.occupancy_of_consistent consistent
  cases call with
  | push slot =>
      rw [answer]
      rcases push_split slot consistent with ⟨-, refused⟩ | ⟨room, accepted⟩
      · rw [refused]
        exact (Succeeds.none consistent).cons _ rfl
      · rw [accepted]
        have after : (c.ring.pushed slot).Consistent := Ring.consistent_pushed slot room
        exact (Succeeds.none (c := ⟨c.ring.pushed slot, c.wake.notify⟩) after).cons _ rfl
  | free =>
      rw [answer, Ring.free, checked]
      exact (Succeeds.none consistent).cons _ rfl
  | occupancy =>
      rw [answer, checked]
      exact (Succeeds.none consistent).cons _ rfl
  | drain turns =>
      rw [answer, Ring.drain, checked]
      exact (takeTurns_of_underway turns (.begin consistent)).cons _ rfl
  | reset => exact answer_of_repairs c rfl
  | clear => exact answer_of_repairs c rfl

/-- No run of calls makes the indices impossible. -/
theorem answerAll_of_consistent (consistent : c.ring.Consistent) (calls : List ChannelCall) :
    c.Succeeds (c.answerAll calls) := by
  induction calls generalizing c with
  | nil => exact .none consistent
  | cons call rest ih =>
      have first := answer_of_consistent consistent call
      exact first.append (ih first.consistent)

/-- Impossible indices are detected exactly. Where the indices claim more slots than the ring has,
every call that goes by them fails with the two indices and the capacity, and the channel stays as
it is, with its memory and its wake signal, however many such calls are made. A repair succeeds on
any indices and makes them possible. Where the indices are possible no call fails, and they stay
so. -/
theorem corruption_is_exact (c : Channel) :
    (c.ring.Impossible →
      ∀ calls : List ChannelCall, (∀ call ∈ calls, call.repairs = false) →
        c.answerAll calls =
          (calls.map fun _ =>
              .error (.impossibleIndices c.ring.put c.ring.get c.ring.capacity.word),
            c)) ∧
      (∀ call : ChannelCall, call.repairs = true → c.Succeeds (c.answer call)) ∧
      (¬ c.ring.Impossible → ∀ calls : List ChannelCall, c.Succeeds (c.answerAll calls)) := by
  refine ⟨?_, ?_, ?_⟩
  · intro impossible calls checked
    exact answerAll_of_impossible impossible checked
  · intro call repairs
    exact c.answer_of_repairs repairs
  · intro possible calls
    exact answerAll_of_consistent (Ring.consistent_iff.mpr possible) calls

/-- A ring of two slots whose indices claim three, across the point where they wrap. -/
def overfull : Channel := ⟨Ring.aboutToWrap.storePut 2, .event false⟩

theorem corruption_is_exact_one_past_full :
    overfull.ring.Impossible ∧
      overfull.answerAll [.occupancy, .push (.error ⟨0, 0, 1⟩), .drain [.next], .free] =
        (List.replicate 4 (.error (.impossibleIndices 2 0xFFFFFFFF 2)), overfull) ∧
      overfull.Succeeds (overfull.answer .reset) := by
  obtain ⟨put, get, impossible⟩ :
      overfull.ring.put = 2 ∧ overfull.ring.get = 0xFFFFFFFF ∧ overfull.ring.Impossible := by
    decide +kernel
  obtain ⟨detected, repaired, -⟩ := corruption_is_exact overfull
  refine ⟨impossible, ?_, repaired .reset rfl⟩
  have failed := detected impossible
    [.occupancy, .push (.error ⟨0, 0, 1⟩), .drain [.next], .free] (by simp [ChannelCall.repairs])
  rw [put, get] at failed
  exact failed

end Channel

end CanLink
