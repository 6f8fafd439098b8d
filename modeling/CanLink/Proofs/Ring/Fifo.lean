import CanLink.Proofs.Ring.Queue
import Mathlib.Data.List.Forall2

/-!
A ring behaves as a bounded queue. `Fifo` is the queue that the users of a ring have in mind, with
the drain that its consumer may hold: a drain sees the slots that were there when it began, and what
it takes makes room for others only when it is released. `RingUse` is a ring with the drain that its
consumer holds. Every sequence of calls of both sides gets the same answers from the two
(`empty_ring_behaves_as_fifo`), and the answers themselves show that slots leave in the order in
which they were accepted, each once and unchanged.
-/

namespace CanLink

/-- A call on a ring: `push` by the side that puts slots in, the others by the one that takes them
out. -/
inductive QueueCall where
  | push (slot : Slot)
  | drain
  | next
  | release
  | reset
  deriving DecidableEq

inductive QueueAnswer where
  | pushed (accepted : Bool)
  | began
  | yielded (slot : Option Slot)
  | released
  | discarded (count : Nat)
  | failed (error : Error)
  /-- The consumer holds a drain where the call needs none, or none where it needs one. -/
  | unavailable
  deriving DecidableEq

/-- Calls made one after another, each with its answer. -/
def queueTrace {σ : Type} (step : QueueCall → σ → QueueAnswer × σ) :
    List QueueCall → σ → List (QueueCall × QueueAnswer)
  | [], _ => []
  | call :: rest, s => (call, (step call s).1) :: queueTrace step rest (step call s).2

/-! ### The queue -/

/-- A drain in progress. -/
structure FifoDrain where
  /-- Slots that it has yielded; they take up space until it is released. -/
  taken : List Slot
  /-- Slots that it sees and has yet to yield. -/
  coming : List Slot
  deriving DecidableEq

structure Fifo where
  capacity : Nat
  live : Option FifoDrain
  /-- Slots that no drain in progress sees. -/
  waiting : List Slot
  deriving DecidableEq

namespace Fifo

def empty (capacity : Nat) : Fifo := ⟨capacity, none, []⟩

/-- Slots that take up space, oldest first. -/
def unreleased (q : Fifo) : List Slot :=
  match q.live with
  | none => q.waiting
  | some d => d.taken ++ (d.coming ++ q.waiting)

/-- Slots that have not left, oldest first. -/
def remaining (q : Fifo) : List Slot :=
  match q.live with
  | none => q.waiting
  | some d => d.coming ++ q.waiting

def push (slot : Slot) (q : Fifo) : QueueAnswer × Fifo :=
  if q.unreleased.length = q.capacity then (.pushed false, q)
  else (.pushed true, { q with waiting := q.waiting ++ [slot] })

def drain (q : Fifo) : QueueAnswer × Fifo :=
  match q.live with
  | none => (.began, { q with live := some ⟨[], q.waiting⟩, waiting := [] })
  | some _ => (.unavailable, q)

def next (q : Fifo) : QueueAnswer × Fifo :=
  match q.live with
  | none => (.unavailable, q)
  | some ⟨_, []⟩ => (.yielded none, q)
  | some ⟨taken, slot :: coming⟩ =>
      (.yielded (some slot), { q with live := some ⟨taken ++ [slot], coming⟩ })

/-- What the drain has not taken stays. -/
def release (q : Fifo) : QueueAnswer × Fifo :=
  match q.live with
  | none => (.unavailable, q)
  | some d => (.released, { q with live := none, waiting := d.coming ++ q.waiting })

def reset (q : Fifo) : QueueAnswer × Fifo :=
  match q.live with
  | none => (.discarded q.waiting.length, { q with waiting := [] })
  | some _ => (.unavailable, q)

def step : QueueCall → Fifo → QueueAnswer × Fifo
  | .push slot => push slot
  | .drain => drain
  | .next => next
  | .release => release
  | .reset => reset

end Fifo

/-! ### The ring in use -/

/-- A ring, and the drain that its consumer holds. -/
structure RingUse where
  ring : Ring
  live : Option Drain

namespace RingUse

def push (slot : Slot) (u : RingUse) : QueueAnswer × RingUse :=
  match u.ring.push slot with
  | .error e => (.failed e, u)
  | .ok none => (.pushed false, u)
  | .ok (some ring) => (.pushed true, { u with ring })

def drain (u : RingUse) : QueueAnswer × RingUse :=
  match u.live with
  | some _ => (.unavailable, u)
  | none =>
      match u.ring.drain with
      | .error e => (.failed e, u)
      | .ok d => (.began, { u with live := some d })

def next (u : RingUse) : QueueAnswer × RingUse :=
  match u.live with
  | none => (.unavailable, u)
  | some d => (.yielded (d.next u.ring).1, { u with live := some (d.next u.ring).2 })

def release (u : RingUse) : QueueAnswer × RingUse :=
  match u.live with
  | none => (.unavailable, u)
  | some d => (.released, { u with ring := d.release u.ring, live := none })

def reset (u : RingUse) : QueueAnswer × RingUse :=
  match u.live with
  | none => (.discarded u.ring.reset.1.toNat, { u with ring := u.ring.reset.2 })
  | some _ => (.unavailable, u)

def step : QueueCall → RingUse → QueueAnswer × RingUse
  | .push slot => push slot
  | .drain => drain
  | .next => next
  | .release => release
  | .reset => reset

end RingUse

/-! ### What a trace shows -/

/-- Slots that were accepted, in order. -/
def acceptedSlots : List (QueueCall × QueueAnswer) → List Slot
  | [] => []
  | (.push slot, .pushed true) :: rest => slot :: acceptedSlots rest
  | _ :: rest => acceptedSlots rest

/-- What left the queue, in order: slots that were yielded, and nothing to see for each slot that a
reset says it discarded. -/
def departures : List (QueueCall × QueueAnswer) → List (Option Slot)
  | [] => []
  | (_, .yielded (some slot)) :: rest => some slot :: departures rest
  | (_, .discarded count) :: rest => List.replicate count none ++ departures rest
  | _ :: rest => departures rest

/-- The slots that left are the ones accepted first: none is lost, repeated, altered or
overtaken. -/
def LeavesInOrder (accepted : List Slot) (departed : List (Option Slot)) : Prop :=
  ∃ left staying, accepted = left ++ staying ∧
    List.Forall₂ (fun d slot => d = none ∨ d = some slot) departed left

namespace LeavesInOrder

theorem nothing (accepted : List Slot) : LeavesInOrder accepted [] :=
  ⟨[], accepted, rfl, .nil⟩

theorem yield {accepted : List Slot} {departed : List (Option Slot)} (slot : Slot)
    (h : LeavesInOrder accepted departed) :
    LeavesInOrder (slot :: accepted) (some slot :: departed) := by
  obtain ⟨left, staying, rfl, agree⟩ := h
  exact ⟨slot :: left, staying, rfl, .cons (.inr rfl) agree⟩

theorem discard {accepted : List Slot} {departed : List (Option Slot)} (dropped : List Slot)
    (h : LeavesInOrder accepted departed) :
    LeavesInOrder (dropped ++ accepted) (List.replicate dropped.length none ++ departed) := by
  induction dropped with
  | nil => exact h
  | cons slot rest ih =>
      obtain ⟨left, staying, equal, agree⟩ := ih
      exact ⟨slot :: left, staying, congrArg _ equal, .cons (.inl rfl) agree⟩

end LeavesInOrder

/-- From any state of the queue on, slots leave in the order in which they came. -/
theorem Fifo.leavesInOrder (calls : List QueueCall) (q : Fifo) :
    LeavesInOrder (q.remaining ++ acceptedSlots (queueTrace step calls q))
      (departures (queueTrace step calls q)) := by
  induction calls generalizing q with
  | nil => exact .nothing _
  | cons call rest ih =>
      have later := ih (step call q).2
      obtain ⟨capacity, live, waiting⟩ := q
      rw [queueTrace]
      cases call with
      | push slot =>
          rw [step, push] at later ⊢
          split
          · rename_i full
            rw [if_pos full] at later
            exact later
          · rename_i room
            rw [if_neg room] at later
            cases live <;> simpa [remaining, acceptedSlots, departures] using later
      | drain =>
          cases live with
          | none =>
              change LeavesInOrder ((waiting ++ []) ++ _) _ at later
              rw [List.append_nil] at later
              exact later
          | some d => exact later
      | next =>
          rcases live with _ | ⟨taken, _ | ⟨slot, coming⟩⟩
          · exact later
          · exact later
          · exact later.yield slot
      | release => cases live <;> exact later
      | reset =>
          cases live with
          | none => exact later.discard waiting
          | some d => exact later

/-! ### The ring simulates the queue -/

/-- A drain of a ring and a drain of a queue with the same progress, counted from the get index. -/
inductive SameDrain (get : UInt32) : Option Drain → Option FifoDrain → Prop where
  | none : SameDrain get none none
  | some (taken coming : List Slot) :
      SameDrain get
        (some ⟨get, get + UInt32.ofNat taken.length,
          get + UInt32.ofNat (taken.length + coming.length)⟩)
        (some ⟨taken, coming⟩)

/-- The ring in use holds what the queue holds. -/
structure Represents (u : RingUse) (q : Fifo) : Prop where
  capacity : u.ring.capacity.slots = q.capacity
  bounded : q.unreleased.length ≤ q.capacity
  queued : u.ring.queued = q.unreleased.map Slot.record
  live : SameDrain u.ring.get u.live q.live

namespace Represents

variable {u : RingUse} {q : Fifo}

theorem length_queued (h : Represents u q) : u.ring.queued.length = q.unreleased.length := by
  rw [h.queued, List.length_map]

theorem consistent (h : Represents u q) : u.ring.Consistent := by
  rw [Ring.Consistent, h.length_queued, h.capacity]
  exact h.bounded

theorem push (h : Represents u q) (slot : Slot) :
    (u.push slot).1 = (q.push slot).1 ∧ Represents (u.push slot).2 (q.push slot).2 := by
  have length := h.length_queued
  have capacity := h.capacity
  have bounded := h.bounded
  by_cases full : q.unreleased.length = q.capacity
  · rw [RingUse.push, Ring.push_of_full slot (by omega), Fifo.push, if_pos full]
    exact ⟨rfl, h⟩
  · have room : u.ring.queued.length < u.ring.capacity.slots := by omega
    have appended : Fifo.unreleased { q with waiting := q.waiting ++ [slot] } =
        q.unreleased ++ [slot] := by
      obtain ⟨_, _ | _, _⟩ := q <;> simp [Fifo.unreleased]
    rw [RingUse.push, Ring.push_of_room slot room, Fifo.push, if_neg full]
    refine ⟨rfl, ?_, ?_, ?_, ?_⟩
    · rw [Ring.capacity_pushed, capacity]
    · rw [appended, List.length_append, List.length_singleton]
      exact Nat.lt_of_le_of_ne bounded full
    · rw [Ring.queued_pushed slot room, h.queued, appended, List.map_append, List.map_singleton]
    · rw [Ring.get_pushed]
      exact h.live

theorem drain (h : Represents u q) :
    u.drain.1 = q.drain.1 ∧ Represents u.drain.2 q.drain.2 := by
  obtain ⟨ring, live⟩ := u
  obtain ⟨capacity, view, waiting⟩ := q
  have same : SameDrain ring.get live view := h.live
  cases same with
  | none =>
      have began : ring.drain = .ok ⟨ring.get, ring.get, ring.put⟩ := by
        rw [Ring.drain, Ring.occupancy_of_consistent h.consistent, Except.map]
      have put : ring.put = ring.get + UInt32.ofNat waiting.length := by
        have length : ring.queued.length = waiting.length := h.length_queued
        rw [← length, ring.length_queued, index_eq_add_sub]
      have kept : Fifo.unreleased ⟨capacity, some ⟨[], waiting⟩, []⟩ = waiting :=
        List.append_nil waiting
      simp only [RingUse.drain, Fifo.drain, began]
      refine ⟨trivial, h.capacity, ?_, ?_, ?_⟩
      · rw [kept]
        exact h.bounded
      · rw [kept]
        exact h.queued
      · have whole : SameDrain ring.get _ _ := .some [] waiting
        simpa [← put] using whole
  | some taken coming => exact ⟨rfl, h⟩

/-- Number of slots that a drain has yet to visit. -/
theorem remaining_eq (h : Represents u q) {d : Drain} {taken coming : List Slot}
    (live : u.live = some d) (view : q.live = some ⟨taken, coming⟩) :
    d.remaining = coming.length := by
  have same := h.live
  rw [live, view] at same
  cases same
  have fits : taken.length + coming.length ≤ 2 ^ 31 := by
    have bounded := h.bounded
    have maximum : u.ring.capacity.slots ≤ 2 ^ 31 := u.ring.capacity.slots_le_maximum
    rw [h.capacity] at maximum
    simp only [Fifo.unreleased, view, List.length_append] at bounded
    omega
  have distance := toNat_sub_counts u.ring.get (Nat.le_add_right taken.length coming.length)
    (by omega)
  rw [Drain.remaining, distance, Nat.add_sub_cancel_left]

/-- The slot that a drain comes to next is the one that the queue has next. -/
theorem ofRecord?_cursor (h : Represents u q) {taken coming : List Slot} {slot : Slot}
    (view : q.live = some ⟨taken, slot :: coming⟩) :
    Slot.ofRecord? (u.ring.record (u.ring.get + UInt32.ofNat taken.length)) = some slot := by
  have unreleased : q.unreleased = taken ++ (slot :: coming ++ q.waiting) := by
    rw [Fifo.unreleased, view]
  have inside : taken.length < u.ring.queued.length := by
    rw [h.length_queued, unreleased, List.length_append]
    simp
  have stored := Ring.getElem?_queued inside
  rw [h.queued, unreleased, List.getElem?_map, List.getElem?_append_right (Nat.le_refl _),
    Nat.sub_self] at stored
  rw [← Option.some.inj stored, Slot.ofRecord?_record]

theorem next (h : Represents u q) :
    u.next.1 = q.next.1 ∧ Represents u.next.2 q.next.2 := by
  obtain ⟨ring, live⟩ := u
  obtain ⟨capacity, view, waiting⟩ := q
  have same : SameDrain ring.get live view := h.live
  cases same with
  | none => exact ⟨rfl, h⟩
  | some taken coming =>
      have remaining := h.remaining_eq rfl rfl
      cases coming with
      | nil =>
          simp only [RingUse.next, Fifo.next, Drain.next_of_remaining_eq_zero remaining]
          exact ⟨trivial, h⟩
      | cons slot coming =>
          have pos : 0 < (slot :: coming).length := Nat.succ_pos _
          have moved : Fifo.unreleased ⟨capacity, some ⟨taken ++ [slot], coming⟩, waiting⟩ =
              Fifo.unreleased ⟨capacity, some ⟨taken, slot :: coming⟩, waiting⟩ := by
            simp [Fifo.unreleased]
          simp only [RingUse.next, Fifo.next, Drain.next, remaining,
            Ring.nextSlot_of_some pos (h.ofRecord?_cursor rfl)]
          refine ⟨trivial, h.capacity, ?_, ?_, ?_⟩
          · rw [moved]
            exact h.bounded
          · rw [moved]
            exact h.queued
          · have cursor : ring.get + UInt32.ofNat taken.length + 1 =
                ring.get + UInt32.ofNat (taken ++ [slot]).length := by
              rw [List.length_append, List.length_singleton, ← index_succ]
              grind
            have put : taken.length + (slot :: coming).length =
                (taken ++ [slot]).length + coming.length := by
              simp only [List.length_append, List.length_cons, List.length_nil]
              omega
            rw [cursor, put]
            exact .some (taken ++ [slot]) coming

theorem release (h : Represents u q) :
    u.release.1 = q.release.1 ∧ Represents u.release.2 q.release.2 := by
  obtain ⟨ring, live⟩ := u
  obtain ⟨capacity, view, waiting⟩ := q
  have same : SameDrain ring.get live view := h.live
  cases same with
  | none => exact ⟨rfl, h⟩
  | some taken coming =>
      have length : ring.queued.length = (taken ++ (coming ++ waiting)).length := h.length_queued
      have within : taken.length ≤ ring.queued.length := by
        rw [length, List.length_append]
        exact Nat.le_add_right ..
      refine ⟨rfl, ?_, ?_, ?_, .none⟩
      · exact (congrArg Capacity.slots (Drain.capacity_release ..)).trans h.capacity
      · have bounded : (taken ++ (coming ++ waiting)).length ≤ capacity := h.bounded
        rw [List.length_append] at bounded
        exact Nat.le_of_add_left_le bounded
      · have queued : ring.queued = (taken ++ (coming ++ waiting)).map Slot.record := h.queued
        have dropped := Drain.queued_release
          (ring.get + UInt32.ofNat (taken.length + coming.length)) within
        rw [queued, ← List.map_drop, List.drop_left] at dropped
        exact dropped

theorem reset (h : Represents u q) :
    u.reset.1 = q.reset.1 ∧ Represents u.reset.2 q.reset.2 := by
  obtain ⟨ring, live⟩ := u
  obtain ⟨capacity, view, waiting⟩ := q
  have same : SameDrain ring.get live view := h.live
  cases same with
  | none =>
      have count : ring.reset.1.toNat = waiting.length :=
        ring.length_queued.symm.trans h.length_queued
      simp only [RingUse.reset, Fifo.reset, count]
      exact ⟨trivial, h.capacity, Nat.zero_le _, ring.queued_reset, .none⟩
  | some taken coming => exact ⟨rfl, h⟩

/-- Each call is answered alike and leaves the two alike. -/
theorem step (h : Represents u q) (call : QueueCall) :
    (RingUse.step call u).1 = (Fifo.step call q).1 ∧
      Represents (RingUse.step call u).2 (Fifo.step call q).2 := by
  cases call with
  | push slot => exact h.push slot
  | drain => exact h.drain
  | next => exact h.next
  | release => exact h.release
  | reset => exact h.reset

theorem queueTrace_eq (h : Represents u q) (calls : List QueueCall) :
    queueTrace RingUse.step calls u = queueTrace Fifo.step calls q := by
  induction calls generalizing u q with
  | nil => rfl
  | cons call rest ih =>
      obtain ⟨answer, after⟩ := h.step call
      rw [queueTrace, queueTrace, answer, ih after]

/-- Where the two indices agree, the ring is empty, whatever its memory holds. -/
theorem of_empty {r : Ring} (empty : r.put = r.get) :
    Represents ⟨r, Option.none⟩ (Fifo.empty r.capacity.slots) where
  capacity := rfl
  bounded := Nat.zero_le _
  queued := by simp [Ring.queued, empty, Ring.records, Fifo.empty, Fifo.unreleased]
  live := .none

end Represents

/-- A ring that starts empty, at any index, answers every sequence of calls of its two sides like a
queue of as many slots; and what leaves it is what was accepted, in order. -/
theorem empty_ring_behaves_as_fifo (r : Ring) (empty : r.put = r.get) (calls : List QueueCall) :
    queueTrace RingUse.step calls ⟨r, none⟩ =
        queueTrace Fifo.step calls (.empty r.capacity.slots) ∧
      LeavesInOrder (acceptedSlots (queueTrace RingUse.step calls ⟨r, none⟩))
        (departures (queueTrace RingUse.step calls ⟨r, none⟩)) := by
  have same := (Represents.of_empty empty).queueTrace_eq calls
  refine ⟨same, ?_⟩
  rw [same]
  exact Fifo.leavesInOrder calls (.empty r.capacity.slots)

/-- A ring of two slots whose indices are about to wrap. -/
def Ring.aboutToWrap : Ring where
  capacity := ⟨1⟩
  region := ⟨Array.replicate 8 0xff ++ Array.replicate 160 0, 0⟩
  fits := by simp [requiredSize, headerSize, slotSize, Capacity.slots, Region.size]
  aligned := by decide

theorem Ring.aboutToWrap_empty : aboutToWrap.put = aboutToWrap.get := by decide +kernel

/-- A drain that is released half way, with pushes before, during and after it. -/
theorem wrapping_ring_behaves_as_fifo :
    let slot : UInt32 → Slot := fun time => .error ⟨time, 0, 1⟩
    Ring.aboutToWrap.put = Ring.aboutToWrap.get ∧
      queueTrace RingUse.step
          [.push (slot 1), .drain, .push (slot 2), .next, .push (slot 3), .next, .release,
            .push (slot 3), .push (slot 4), .reset]
          ⟨Ring.aboutToWrap, none⟩ =
        [(.push (slot 1), .pushed true), (.drain, .began), (.push (slot 2), .pushed true),
          (.next, .yielded (some (slot 1))), (.push (slot 3), .pushed false),
          (.next, .yielded none), (.release, .released), (.push (slot 3), .pushed true),
          (.push (slot 4), .pushed false), (.reset, .discarded 2)] := by
  have empty := Ring.aboutToWrap_empty
  refine ⟨empty, ?_⟩
  rw [(empty_ring_behaves_as_fifo Ring.aboutToWrap empty _).1]
  rfl

end CanLink
