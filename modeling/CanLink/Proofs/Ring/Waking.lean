import CanLink.Proofs.Ring.Pending

/-!
No wake-up is lost. The consumer of a channel waits for a notification, drains, and waits again;
slots are put in before, between and after. `Watch` is a channel in use with what happened on it so
far. A wait answers exactly whether a slot was accepted since the wait before it
(`Attentive.wake`), and what links that to the ring is the drain in between: a slot that a drain to
the end left behind was put in while it lasted, and no wait can have consumed its notification
(`Attentive.late`). So a consumer that drains to the end between any two waits never finds the
signal silent and the ring not empty (`Watch.Reachable.silence_means_empty`).
-/

namespace CanLink

/-- Something that happened on a channel. -/
inductive Incident where
  | pushed (result : Except Error Bool)
  | waited (woken : Bool)
  | began
  | yielded (slot : Option Slot)
  /-- A drain was released, with or without all slots visited that it saw. -/
  | released (complete : Bool)
  | failed (error : Error)
  /-- The consumer held a drain where the call needs none, or none where it needs one. -/
  | unavailable
  deriving DecidableEq

namespace Incident

/-- A slot was accepted. -/
def accepts : Incident → Bool
  | pushed (.ok accepted) => accepted
  | _ => false

def isWait : Incident → Bool
  | waited _ => true
  | _ => false

/-- The consumer drained to the end. -/
def empties : Incident → Bool
  | released complete => complete
  | _ => false

/-- What happened since the last incident of a kind, or from the beginning if there was none. -/
def since (kind : Incident → Bool) (history : List Incident) : List Incident :=
  history.takeWhile fun i => !kind i

theorem since_cons_of_not {kind : Incident → Bool} {i : Incident} (other : kind i = false)
    (history : List Incident) : since kind (i :: history) = i :: since kind history := by
  simp [since, other]

theorem since_cons_of {kind : Incident → Bool} {i : Incident} (same : kind i = true)
    (history : List Incident) : since kind (i :: history) = [] := by
  simp [since, same]

/-- Of two kinds, if the one happened after the last of the other, then none of the other happened
after the last of the one. -/
theorem not_mem_since {one other : Incident → Bool} {history : List Incident}
    (after : ∃ i ∈ since other history, one i = true) :
    ∀ i ∈ since one history, other i = false := by
  induction history with
  | nil => simp [since]
  | cons first rest ih =>
      obtain ⟨i, member, kind⟩ := after
      cases isOther : other first with
      | true => simp [since_cons_of isOther] at member
      | false =>
          rw [since_cons_of_not isOther, List.mem_cons] at member
          cases isOne : one first with
          | true => simp [since_cons_of isOne]
          | false =>
              rw [since_cons_of_not isOne]
              intro j later
              rcases List.mem_cons.mp later with rfl | later
              · exact isOther
              · rcases member with rfl | member
                · rw [isOne] at kind
                  cases kind
                · exact ih ⟨i, member, kind⟩ j later

end Incident

open Incident (since accepts isWait empties)

/-- A channel in use. -/
structure Watch where
  channel : Channel
  /-- The drain that the consumer holds. -/
  live : Option Drain
  /-- What happened so far, the latest first. -/
  history : List Incident

/-- A drain that goes on takes up as much space as before. -/
theorem Fifo.unreleased_next (q : Fifo) : q.next.2.unreleased = q.unreleased := by
  rcases q with ⟨capacity, _ | ⟨taken, _ | ⟨slot, coming⟩⟩, waiting⟩ <;>
    simp [next, unreleased]

namespace Watch

/-- A channel that nobody has used yet, with an event that was never signaled. -/
def start (r : Ring) : Watch := ⟨⟨r, .event false⟩, none, []⟩

def note (i : Incident) (w : Watch) : Watch := { w with history := i :: w.history }

def push (slot : Slot) (w : Watch) : Watch :=
  { w with
    channel := (w.channel.push slot).2
    history := .pushed (w.channel.push slot).1 :: w.history }

/-- A drain borrows the consumer, so there is no wait while one lasts. -/
def wait (w : Watch) : Watch :=
  match w.live with
  | some _ => w.note .unavailable
  | none =>
      { w with
        channel := w.channel.wait.2
        history := .waited w.channel.wait.1 :: w.history }

def drain (w : Watch) : Watch :=
  match w.live with
  | some _ => w.note .unavailable
  | none =>
      match w.channel.ring.drain with
      | .error e => w.note (.failed e)
      | .ok d => { w with live := some d, history := .began :: w.history }

def next (w : Watch) : Watch :=
  match w.live with
  | none => w.note .unavailable
  | some d =>
      { w with
        live := some (d.next w.channel.ring).2
        history := .yielded (d.next w.channel.ring).1 :: w.history }

def release (w : Watch) : Watch :=
  match w.live with
  | none => w.note .unavailable
  | some d =>
      { channel := { w.channel with ring := d.release w.channel.ring }
        live := none
        history := .released (d.remaining = 0) :: w.history }

/-- The ring and the drain of a watch. -/
def ringUse (w : Watch) : RingUse := ⟨w.channel.ring, w.live⟩

/-- Was a slot accepted since the last wait? -/
def notified (w : Watch) : Bool := (since isWait w.history).any accepts

/-- The consumer has not waited since it last drained to the end, or since the start. -/
def Unwaited (w : Watch) : Prop := ∀ i ∈ since empties w.history, isWait i = false

/-- The consumer may wait: it never did before, or it drained to the end since. -/
def MayWait (w : Watch) : Prop :=
  (∀ i ∈ w.history, isWait i = false) ∨ ∃ i ∈ since isWait w.history, empties i = true

instance (w : Watch) : Decidable w.MayWait := inferInstanceAs (Decidable (_ ∨ _))

theorem MayWait.unwaited {w : Watch} (may : w.MayWait) : w.Unwaited := by
  rcases may with never | drained
  · intro i member
    exact never i ((List.takeWhile_sublist _).subset member)
  · exact Incident.not_mem_since drained

/-- The states that some use of a channel leads to in which the consumer drains to the end between
any two waits. -/
inductive Reachable (r : Ring) : Watch → Prop where
  | start : Reachable r (start r)
  | push {w : Watch} (before : Reachable r w) (slot : Slot) : Reachable r (w.push slot)
  | wait {w : Watch} (before : Reachable r w) (may : w.MayWait) : Reachable r w.wait
  | drain {w : Watch} (before : Reachable r w) : Reachable r w.drain
  | next {w : Watch} (before : Reachable r w) : Reachable r w.next
  | release {w : Watch} (before : Reachable r w) : Reachable r w.release

/-- The signal stands for what the ring holds: it is on exactly if a slot was accepted since the
last wait. -/
structure Attentive (w : Watch) (q : Fifo) : Prop where
  represents : Represents w.ringUse q
  wake : w.channel.wake = .event w.notified
  /-- Slots that the drain in progress does not see. -/
  late : q.live.isSome → q.waiting ≠ [] → w.notified = true
  queued : w.Unwaited → q.unreleased ≠ [] → w.notified = true

namespace Attentive

variable {w : Watch} {q : Fifo}

theorem start {r : Ring} (empty : r.put = r.get) :
    Attentive (start r) (.empty r.capacity.slots) where
  represents := .of_empty empty
  wake := rfl
  late := nofun
  queued _ nonempty := absurd rfl nonempty

/-- What neither accepts a slot nor is a wait nor drains to the end leaves the signal alone. -/
theorem quiet (h : Attentive w q) {channel : Channel} {live : Option Drain} {i : Incident}
    {q' : Fifo} (accepts : i.accepts = false) (waits : i.isWait = false)
    (empties : i.empties = false) (wake : channel.wake = w.channel.wake)
    (represents : Represents ⟨channel.ring, live⟩ q')
    (late : q'.live.isSome → q'.waiting ≠ [] → q.live.isSome ∧ q.waiting ≠ [])
    (unreleased : q'.unreleased ≠ [] → q.unreleased ≠ []) :
    Attentive ⟨channel, live, i :: w.history⟩ q' := by
  have notified : notified ⟨channel, live, i :: w.history⟩ = w.notified := by
    simp [Watch.notified, Incident.since_cons_of_not waits, accepts]
  refine ⟨represents, ?_, ?_, ?_⟩
  · rw [notified, ← h.wake]
    exact wake
  · rw [notified]
    intro draining nonempty
    obtain ⟨drained, waiting⟩ := late draining nonempty
    exact h.late drained waiting
  · rw [notified]
    intro unwaited nonempty
    refine h.queued (fun j member => unwaited j ?_) (unreleased nonempty)
    rw [Incident.since_cons_of_not empties]
    exact List.mem_cons_of_mem _ member

theorem unavailable (h : Attentive w q) : Attentive (w.note .unavailable) q :=
  h.quiet rfl rfl rfl rfl h.represents And.intro id

theorem push (h : Attentive w q) (slot : Slot) : ∃ q', Attentive (w.push slot) q' := by
  rcases Channel.push_split slot h.represents.consistent with ⟨-, refused⟩ | ⟨room, accepted⟩
  · refine ⟨q, ?_⟩
    rw [Watch.push, refused]
    exact h.quiet rfl rfl rfl rfl h.represents And.intro id
  · have represents := (h.represents.push slot).2
    have taken : w.channel.ring.push slot = .ok (some (w.channel.ring.pushed slot)) :=
      Ring.push_of_room slot room
    rw [RingUse.push, ringUse, taken] at represents
    rw [Watch.push, accepted]
    refine ⟨_, represents, ?_, fun _ _ => rfl, fun _ _ => rfl⟩
    simp only [h.wake]
    rfl

theorem wait (h : Attentive w q) : Attentive w.wait q := by
  obtain ⟨channel, live, history⟩ := w
  cases live with
  | some d => exact h.unavailable
  | none =>
      have idle : q.live = none := by
        obtain ⟨capacity, live, waiting⟩ := q
        have same : SameDrain channel.ring.get none live := h.represents.live
        cases same
        rfl
      have wake : channel.wake = .event (notified ⟨channel, none, history⟩) := h.wake
      refine ⟨h.represents, ?_, ?_, ?_⟩
      · simp only [Watch.wait, Channel.wait, wake, Wake.wait]
        rfl
      · rw [idle]
        exact nofun
      · intro unwaited
        cases unwaited (.waited channel.wait.1) List.mem_cons_self

theorem drain (h : Attentive w q) : ∃ q', Attentive w.drain q' := by
  obtain ⟨channel, live, history⟩ := w
  cases live with
  | some d => exact ⟨q, h.unavailable⟩
  | none =>
      obtain ⟨answered, represents⟩ := h.represents.drain
      obtain ⟨capacity, live, waiting⟩ := q
      have same : SameDrain channel.ring.get none live := h.represents.live
      cases same
      cases began : channel.ring.drain with
      | error e =>
          simp only [RingUse.drain, ringUse, began] at answered
          cases answered
      | ok d =>
          simp only [RingUse.drain, ringUse, began] at represents
          simp only [Watch.drain, began]
          refine ⟨_, h.quiet rfl rfl rfl rfl represents ?_ ?_⟩
          · exact fun _ nonempty => absurd rfl nonempty
          · simp [Fifo.drain, Fifo.unreleased]

theorem next (h : Attentive w q) : ∃ q', Attentive w.next q' := by
  obtain ⟨channel, live, history⟩ := w
  cases live with
  | none => exact ⟨q, h.unavailable⟩
  | some d =>
      have represents := h.represents.next.2
      refine ⟨_, h.quiet rfl rfl rfl rfl represents ?_ ?_⟩
      · rcases q with ⟨capacity, _ | ⟨taken, _ | ⟨slot, coming⟩⟩, waiting⟩ <;> exact And.intro
      · rw [q.unreleased_next]
        exact id

theorem release (h : Attentive w q) : ∃ q', Attentive w.release q' := by
  obtain ⟨channel, live, history⟩ := w
  cases live with
  | none => exact ⟨q, h.unavailable⟩
  | some d =>
      have represents := h.represents.release.2
      obtain ⟨capacity, view, waiting⟩ := q
      have same : SameDrain channel.ring.get (some d) view := h.represents.live
      cases same with
      | some taken coming =>
          have remaining := h.represents.remaining_eq rfl rfl
          cases coming with
          | nil =>
              -- What is left was put in while the drain lasted.
              refine ⟨_, represents, h.wake, nofun, fun _ => ?_⟩
              exact h.late rfl
          | cons slot coming =>
              refine ⟨_, h.quiet rfl rfl ?_ rfl represents nofun ?_⟩
              · simp only [Incident.empties, remaining]
                rfl
              · simp [Fifo.release, Fifo.unreleased]

end Attentive

/-- Every use that drains between its waits keeps the signal in step with the ring. -/
theorem Reachable.attentive {r : Ring} (empty : r.put = r.get) {w : Watch}
    (reached : Reachable r w) : ∃ q, Attentive w q := by
  induction reached with
  | start => exact ⟨_, .start empty⟩
  | push before slot ih =>
      obtain ⟨q, h⟩ := ih
      exact h.push slot
  | wait before may ih =>
      obtain ⟨q, h⟩ := ih
      exact ⟨q, h.wait⟩
  | drain before ih =>
      obtain ⟨q, h⟩ := ih
      exact h.drain
  | next before ih =>
      obtain ⟨q, h⟩ := ih
      exact h.next
  | release before ih =>
      obtain ⟨q, h⟩ := ih
      exact h.release

namespace Attentive

variable {w : Watch} {q : Fifo}

theorem queued_eq_nil_iff (h : Attentive w q) : w.channel.ring.queued = [] ↔ q.unreleased = [] := by
  have queued : w.channel.ring.queued = q.unreleased.map Slot.record := h.represents.queued
  rw [queued, List.map_eq_nil_iff]

/-- A wait tells whether a slot was accepted since the wait before it. -/
theorem woken_eq (h : Attentive w q) : w.channel.wait.1 = w.notified := by
  rw [Channel.wait, h.wake]
  rfl

/-- As long as the consumer has not waited since it last drained to the end, the signal is on if a
slot is pending. -/
theorem signaled (h : Attentive w q) (unwaited : w.Unwaited)
    (pending : w.channel.ring.queued ≠ []) : w.channel.wake = .event true := by
  rw [h.wake, h.queued unwaited fun nothing => pending (h.queued_eq_nil_iff.mpr nothing)]

end Attentive

end Watch

/-- Only an accepted slot signals: a channel that refuses one stays as it is, whatever its memory
holds. -/
theorem Channel.push_of_refused {c : Channel} {slot : Slot} (refused : (c.push slot).1 ≠ .ok true) :
    (c.push slot).2 = c := by
  rw [push] at refused ⊢
  split at refused <;> trivial

/-- No wake-up is lost over a ring that starts empty, if the consumer drains to the end between any
two waits. A wait tells exactly whether a slot was accepted since the wait before it; if it tells of
none, the ring is empty. While the consumer has not waited since it last drained to the end, a
pending slot means that the signal is on. A slot that is refused never signals. -/
theorem Watch.Reachable.silence_means_empty {r : Ring} (empty : r.put = r.get) {w : Watch}
    (reached : Reachable r w) :
    (w.MayWait → w.live = none → ∃ woken, w.wait.history = .waited woken :: w.history ∧
        (woken = true ↔ ∃ i ∈ since isWait w.history, accepts i) ∧
        (woken = false → w.channel.ring.queued = [])) ∧
      (w.Unwaited → w.channel.ring.queued ≠ [] → w.channel.wake = .event true) ∧
      ∀ (c : Channel) (slot : Slot), (c.push slot).1 ≠ .ok true → (c.push slot).2 = c := by
  obtain ⟨q, h⟩ := reached.attentive empty
  refine ⟨?_, h.signaled, fun c slot => Channel.push_of_refused⟩
  intro may idle
  refine ⟨w.channel.wait.1, ?_, ?_, ?_⟩
  · rw [Watch.wait, idle]
  · rw [h.woken_eq, notified, List.any_eq_true]
  · intro silent
    by_contra pending
    have signaled := h.signaled may.unwaited pending
    rw [Channel.wait, signaled] at silent
    cases silent

/-- A slot is put in while the consumer drains another one, which has woken it. -/
def Watch.lateSlot : Watch :=
  let slot : UInt32 → Slot := fun time => .error ⟨time, 0, 1⟩
  ((start .aboutToWrap).push (slot 1)).wait.drain.push (slot 2) |>.next.release

/-- The late slot wakes the consumer once more. -/
def Watch.settled : Watch := lateSlot.wait.drain.next.release

theorem late_slot_wakes_once_more :
    Ring.aboutToWrap.put = Ring.aboutToWrap.get ∧
      Watch.lateSlot.Unwaited ∧ Watch.lateSlot.channel.ring.queued.length = 1 ∧
      Watch.lateSlot.channel.wake = .event true ∧
      Watch.settled.MayWait ∧ Watch.settled.wait.history = .waited false :: Watch.settled.history ∧
      Watch.settled.channel.ring.queued = [] := by
  have empty := Ring.aboutToWrap_empty
  obtain ⟨again, one, last, idle, silent⟩ : Watch.lateSlot.MayWait ∧
      Watch.lateSlot.channel.ring.queued.length = 1 ∧ Watch.settled.MayWait ∧
      Watch.settled.live = none ∧ Watch.settled.notified = false := by
    decide +kernel
  have late : Watch.Reachable .aboutToWrap Watch.lateSlot :=
    (((Watch.Reachable.start.push _).wait (by decide)).drain.push _).next.release
  have settled : Watch.Reachable .aboutToWrap Watch.settled :=
    (late.wait again).drain.next.release
  have pending : Watch.lateSlot.channel.ring.queued ≠ [] :=
    List.ne_nil_of_length_pos (one ▸ Nat.one_pos)
  have signaled := (Watch.Reachable.silence_means_empty empty late).2.1 again.unwaited pending
  obtain ⟨woken, answered, told, emptied⟩ :=
    (Watch.Reachable.silence_means_empty empty settled).1 last idle
  have unwoken : woken = false := by
    rw [Bool.eq_false_iff]
    intro awake
    rw [Watch.notified, List.any_eq_false] at silent
    obtain ⟨i, member, accepted⟩ := told.mp awake
    exact silent i member accepted
  refine ⟨empty, again.unwaited, one, signaled, last, ?_, emptied unwoken⟩
  rw [answered, unwoken]

end CanLink
