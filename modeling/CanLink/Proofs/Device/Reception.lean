import CanLink.Control.Script
import CanLink.Proofs.Clock.Reconstruction
import CanLink.Proofs.Device.Outcome
import CanLink.Proofs.Ring.Pending

/-!
Received events and the stream of slots. A client reads its stream in pieces: each drain covers what
is pending at that moment, a read that finds no event drains a second time, and the clock tracker is
handed on from piece to piece. `Reception` is a client with the slots that its receive ring accepted
and the events that it has returned, both since the start or the last reset. However the stream was
cut, the events and the tracker are those of one pass over the slots read so far (`Event.absorb`).
-/

namespace CanLink

open Clock (Tracker)

namespace Event

/-- Reading one more slot of a stream: its event, if it is one, comes after those so far. -/
def absorb (sofar : List Event × Tracker) (s : Slot) : List Event × Tracker :=
  (sofar.1 ++ (ofSlot s sofar.2).1.toList, (ofSlot s sofar.2).2)

theorem ofSlots_cons (s : Slot) (rest : List Slot) (t : Tracker) :
    ofSlots (s :: rest) t =
      ((ofSlot s t).1.toList ++ (ofSlots rest (ofSlot s t).2).1,
        (ofSlots rest (ofSlot s t).2).2) := rfl

theorem foldl_absorb (slots : List Slot) (events : List Event) (t : Tracker) :
    slots.foldl absorb (events, t) = (events ++ (ofSlots slots t).1, (ofSlots slots t).2) := by
  induction slots generalizing events t with
  | nil => rw [List.foldl_nil, ofSlots, List.append_nil]
  | cons s rest ih => rw [List.foldl_cons, absorb, ih, ofSlots_cons, List.append_assoc]

/-- A stream may be cut anywhere if the tracker is handed on. -/
theorem ofSlots_append (front back : List Slot) (t : Tracker) :
    ofSlots (front ++ back) t =
      ((ofSlots front t).1 ++ (ofSlots back (ofSlots front t).2).1,
        (ofSlots back (ofSlots front t).2).2) := by
  induction front generalizing t with
  | nil => rfl
  | cons s rest ih => rw [List.cons_append, ofSlots_cons, ih, ofSlots_cons, List.append_assoc]

/-- A slot that is no event: an error slot without an error. -/
def IsSilent (s : Slot) : Prop := ∃ e : ErrorSlot, s = .error e ∧ e.code = ErrorCause.noneCode

theorem isSilent_of_ofSlot {s : Slot} {t : Tracker} (silent : (ofSlot s t).1 = none) :
    IsSilent s := by
  cases s with
  | rx s => cases silent
  | tx s => cases silent
  | status s => cases silent
  | error e =>
      refine ⟨e, rfl, ?_⟩
      rw [ofSlot] at silent
      by_contra code
      simp only [if_neg code] at silent
      cases silent

/-- Slots without an event are all silent. -/
theorem isSilent_of_ofSlots {slots : List Slot} {t : Tracker} (silent : (ofSlots slots t).1 = []) :
    ∀ s ∈ slots, IsSilent s := by
  induction slots generalizing t with
  | nil => exact fun s member => nomatch member
  | cons first rest ih =>
      rw [ofSlots_cons] at silent
      obtain ⟨none, later⟩ := List.append_eq_nil_iff.mp silent
      intro s member
      rcases List.mem_cons.mp member with rfl | member
      · exact isSilent_of_ofSlot (Option.toList_eq_nil_iff.mp none)
      · exact ih later s member

/-- Every slot counts for the tracker, whether it is an event or not. -/
theorem tracker_ofSlots (slots : List Slot) (t : Tracker) :
    (ofSlots slots t).2 = (t.trackAll (slots.map Slot.timestamp)).2 := by
  induction slots generalizing t with
  | nil => rfl
  | cons s rest ih =>
      have first : (ofSlot s t).2 = (t.track s.timestamp).2 := by cases s <;> rfl
      rw [ofSlots_cons, ih, first]
      rfl

end Event

namespace Channel

/-- Puts slots in, one after another, and gives those that were accepted. -/
def offer : List Slot → Channel → List Slot × Channel
  | [], c => ([], c)
  | slot :: rest, c =>
      match c.push slot with
      | (.ok true, c) =>
          let (accepted, c) := offer rest c
          (slot :: accepted, c)
      | (_, c) => offer rest c

/-- A slot that is put in is pending after all others. -/
theorem push_of_consistent {c : Channel} (slot : Slot) (consistent : c.ring.Consistent) :
    c.push slot = (.ok false, c) ∨
      ∃ after : Channel, c.push slot = (.ok true, after) ∧ after.ring.Consistent ∧
        after.ring.pending = c.ring.pending ++ [slot] := by
  rcases push_split slot consistent with ⟨-, refused⟩ | ⟨room, accepted⟩
  · exact .inl refused
  · exact .inr ⟨_, accepted, Ring.consistent_pushed slot room, Ring.pending_pushed slot room⟩

theorem offer_of_consistent {c : Channel} (slots : List Slot) (consistent : c.ring.Consistent) :
    (c.offer slots).2.ring.Consistent ∧
      (c.offer slots).2.ring.pending = c.ring.pending ++ (c.offer slots).1 := by
  induction slots generalizing c with
  | nil => exact ⟨consistent, (List.append_nil _).symm⟩
  | cons slot rest ih =>
      rcases push_of_consistent slot consistent with refused | ⟨after, accepted, still, pending⟩
      · rw [offer, refused]
        exact ih consistent
      · obtain ⟨last, more⟩ := ih still
        rw [offer, accepted]
        refine ⟨last, ?_⟩
        rw [more, pending, List.append_assoc]
        rfl

end Channel

namespace Device

variable {τ : Type}

/-- From `d` to `after` the slots `seen` were read, in one piece or several. They gave `events`, and
nothing is left in the ring. -/
structure Reads (d : Device τ) (seen : List Slot) (events : List Event) (after : Device τ) :
    Prop where
  events : Event.ofSlots seen d.tracker = (events, after.tracker)
  emptied : after.rx.ring.queued = []

/-- Receiving reads everything that is pending. -/
theorem receive_of_consistent {d : Device τ} (consistent : d.rx.ring.Consistent) :
    ∃ events after, d.receive = (.ok events, after) ∧
      Reads d d.rx.ring.pending events after := by
  obtain ⟨ring, drained, emptied⟩ := Ring.drainAll_of_consistent consistent
  rw [receive, Channel.drainAll, drained]
  exact ⟨_, _, rfl, rfl, emptied⟩

/-- The slots that get accepted if `slots` are offered while a read waits. -/
def acceptedInWait (d : Device τ) (slots : List Slot) : List Slot :=
  if d.wouldWait then (d.receive.2.rx.offer slots).1 else []

/-- Reading with some slots offered during the wait. -/
def readOffering (d : Device τ) (slots : List Slot) : Except Error (List Event) × Device τ :=
  d.read fun rx => (rx.offer slots).2

/-- A read reads everything that is pending and everything accepted while it waits, and times out
exactly if none of this is an event. -/
theorem read_of_consistent {d : Device τ} (consistent : d.rx.ring.Consistent) (slots : List Slot) :
    ∃ events after,
      d.readOffering slots = (if events = [] then .error .readTimeout else .ok events, after) ∧
      Reads d (d.rx.ring.pending ++ d.acceptedInWait slots) events after := by
  obtain ⟨events, waiting, received, first⟩ := receive_of_consistent consistent
  rw [readOffering, read, acceptedInWait, wouldWait, received]
  cases events with
  | cons event rest =>
      refine ⟨event :: rest, waiting, rfl, ?_⟩
      rw [if_neg Bool.false_ne_true, List.append_nil]
      exact first
  | nil =>
      -- Nothing is pending any more when the wait begins, so what is pending after it was accepted.
      obtain ⟨stays, pending⟩ := Channel.offer_of_consistent slots
        (Ring.consistent_of_queued_eq_nil first.emptied)
      rw [Ring.pending_of_queued_eq_nil first.emptied, List.nil_append] at pending
      have woken : ({ waiting with rx := (waiting.rx.offer slots).2.wait.2 } :
          Device τ).rx.ring.Consistent := stays
      obtain ⟨events, after, received, second⟩ := receive_of_consistent woken
      refine ⟨events, after, ?_, ?_, second.emptied⟩
      · simp only [received]
        cases events <;> rfl
      · have later : Event.ofSlots (waiting.rx.offer slots).1 waiting.tracker =
            (events, after.tracker) := by
          rw [← pending]
          exact second.events
        rw [if_pos rfl, Event.ofSlots_append, first.events, later, List.nil_append]

end Device

/-- A client with what went over its receive ring since the start or the last reset. -/
structure Reception (τ : Type) where
  device : Device τ
  /-- The slots that the ring accepted, oldest first. -/
  pushed : List Slot
  /-- The events that the client returned, oldest first. -/
  events : List Event

namespace Reception

variable {τ : Type}

/-- Slots that the client has yet to read. -/
def pending (r : Reception τ) : List Slot := r.device.rx.ring.pending

/-- A client that has read nothing yet. What is in the ring already counts as pushed. -/
def start (transport : τ) (capability : Capability) (rx tx : Channel) : Reception τ :=
  ⟨.start transport capability rx tx, rx.ring.pending, []⟩

/-- Adds slots that were accepted during a call, and the answer to it. An error returns no event. -/
def answer (r : Reception τ) (accepted : List Slot) :
    Except Error (List Event) × Device τ → Reception τ
  | (.error _, device) => ⟨device, r.pushed ++ accepted, r.events⟩
  | (.ok events, device) => ⟨device, r.pushed ++ accepted, r.events ++ events⟩

def receive (r : Reception τ) : Reception τ := r.answer [] r.device.receive

/-- Reads while the server offers slots. -/
def read (r : Reception τ) (slots : List Slot) : Reception τ :=
  r.answer (r.device.acceptedInWait slots) (r.device.readOffering slots)

/-- A reset that succeeds begins a new stream. -/
def resetRx (r : Reception τ) : Reception τ :=
  match r.device.resetRx with
  | (.error _, device) => { r with device }
  | (.ok _, device) => ⟨device, [], []⟩

/-- The server offers slots between two calls of the client. -/
def offer (r : Reception τ) (slots : List Slot) : Reception τ :=
  { r with
    device := { r.device with rx := (r.device.rx.offer slots).2 }
    pushed := r.pushed ++ (r.device.rx.offer slots).1 }

/-- Between two calls the transport, the transmit channel and the wake signal of the receive channel
change as they like. -/
def interlude (r : Reception τ) (transport : τ) (tx : Channel) (wake : Wake) : Reception τ :=
  { r with device := { r.device with transport, tx, rx := { r.device.rx with wake } } }

/-- The events and the tracker are those of one pass over the slots read so far, and these are all
but the pending ones. -/
structure Follows (r : Reception τ) : Prop where
  consistent : r.device.rx.ring.Consistent
  stream : ∃ consumed, r.pushed = consumed ++ r.pending ∧
    Event.ofSlots consumed .fresh = (r.events, r.device.tracker)

namespace Follows

variable {r : Reception τ}

theorem start (transport : τ) (capability : Capability) {rx : Channel} (tx : Channel)
    (consistent : rx.ring.Consistent) : Follows (start transport capability rx tx) :=
  ⟨consistent, [], rfl, rfl⟩

/-- Reading what is pending, and what is accepted meanwhile, reads on in the stream. -/
theorem reads (h : Follows r) {accepted : List Slot} {events : List Event} {after : Device τ}
    (read : r.device.Reads (r.pending ++ accepted) events after) :
    Follows ⟨after, r.pushed ++ accepted, r.events ++ events⟩ := by
  obtain ⟨consumed, pushed, passed⟩ := h.stream
  refine ⟨Ring.consistent_of_queued_eq_nil read.emptied,
    consumed ++ (r.pending ++ accepted), ?_, ?_⟩
  · have nothing : pending ⟨after, r.pushed ++ accepted, r.events ++ events⟩ = [] :=
      Ring.pending_of_queued_eq_nil read.emptied
    rw [nothing, List.append_nil, ← List.append_assoc, ← pushed]
  · rw [Event.ofSlots_append, passed, read.events]

theorem receive (h : Follows r) : Follows r.receive := by
  obtain ⟨events, after, received, read⟩ := Device.receive_of_consistent h.consistent
  rw [Reception.receive, received]
  refine h.reads ?_
  rw [List.append_nil]
  exact read

theorem read (h : Follows r) (slots : List Slot) : Follows (r.read slots) := by
  obtain ⟨events, after, ended, read⟩ := Device.read_of_consistent h.consistent slots
  have next := h.reads read
  rw [Reception.read, ended]
  cases events with
  | nil =>
      rw [List.append_nil] at next
      exact next
  | cons event rest => exact next

theorem resetRx (h : Follows r) : Follows r.resetRx := by
  rw [Reception.resetRx, Device.resetRx]
  cases r.device.onBus with
  | true => exact h
  | false =>
      have emptied := r.device.rx.ring.queued_reset
      refine ⟨Ring.consistent_of_queued_eq_nil emptied, [], ?_, rfl⟩
      exact (Ring.pending_of_queued_eq_nil emptied).symm

theorem offer (h : Follows r) (slots : List Slot) : Follows (r.offer slots) := by
  obtain ⟨consumed, pushed, passed⟩ := h.stream
  obtain ⟨consistent, pending⟩ := Channel.offer_of_consistent slots h.consistent
  refine ⟨consistent, consumed, ?_, passed⟩
  rw [Reception.offer, Reception.pending, pending, ← List.append_assoc]
  exact congrArg (· ++ _) pushed

/-- What leaves the receive ring and the tracker alone keeps the two in step. -/
theorem of_receiveSide (h : Follows r) {d : Device τ}
    (same : d.receiveSide = r.device.receiveSide) : Follows { r with device := d } := by
  obtain ⟨rx, tracker⟩ := ReceiveSide.mk.inj same
  obtain ⟨consistent, stream⟩ := h
  rw [pending, ← rx, ← tracker] at stream
  rw [← rx] at consistent
  exact ⟨consistent, stream⟩

theorem interlude (h : Follows r) (transport : τ) (tx : Channel) (wake : Wake) :
    Follows (r.interlude transport tx wake) :=
  ⟨h.consistent, h.stream⟩

/-- Two runs that have read the same of the same stream have the same events. -/
theorem unique {other : Reception τ} (h : Follows r) (h' : Follows other)
    (pushed : other.pushed = r.pushed) (pending : other.pending = r.pending) :
    other.events = r.events ∧ other.device.tracker = r.device.tracker := by
  obtain ⟨consumed, whole, passed⟩ := h.stream
  obtain ⟨consumed', whole', passed'⟩ := h'.stream
  rw [pushed, pending, whole] at whole'
  rw [List.append_cancel_right whole', passed'] at passed
  exact Prod.mk.inj passed

/-- A read that times out lost nothing: it read all there was, none of it was an event, and all of
it counts for the tracker. -/
theorem timedOut (h : Follows r) {slots : List Slot}
    (ended : (r.device.readOffering slots).1 = .error .readTimeout) :
    (r.read slots).pending = [] ∧ (r.read slots).events = r.events ∧
      (∀ s ∈ r.pending ++ r.device.acceptedInWait slots, Event.IsSilent s) ∧
      (r.read slots).device.tracker =
        (r.device.tracker.trackAll
          ((r.pending ++ r.device.acceptedInWait slots).map Slot.timestamp)).2 := by
  obtain ⟨events, after, answer, read⟩ := Device.read_of_consistent h.consistent slots
  rw [answer] at ended
  rw [Reception.read, answer]
  cases events with
  | cons event rest => cases ended
  | nil =>
      refine ⟨Ring.pending_of_queued_eq_nil read.emptied, rfl, ?_, ?_⟩
      · exact Event.isSilent_of_ofSlots (congrArg Prod.fst read.events)
      · rw [← Event.tracker_ofSlots]
        exact (congrArg Prod.snd read.events).symm

end Follows

variable [Transport τ]

/-- The states that some run leads to, from a receive ring that is in order. -/
inductive Reachable : Reception τ → Prop where
  | start (transport : τ) (capability : Capability) (rx tx : Channel)
      (consistent : rx.ring.Consistent) : Reachable (start transport capability rx tx)
  | receive {r : Reception τ} (before : Reachable r) : Reachable r.receive
  | read {r : Reception τ} (before : Reachable r) (slots : List Slot) : Reachable (r.read slots)
  | resetRx {r : Reception τ} (before : Reachable r) : Reachable r.resetRx
  | offer {r : Reception τ} (before : Reachable r) (slots : List Slot) : Reachable (r.offer slots)
  | configure {r : Reception τ} (before : Reachable r) (config : BusConfig) :
      Reachable { r with device := (r.device.configure config).2 }
  | stop {r : Reception τ} (before : Reachable r) : Reachable { r with device := r.device.stop.2 }
  | send {r : Reception τ} (before : Reachable r) (frame : Frame) :
      Reachable { r with device := (r.device.send frame).2 }
  | interlude {r : Reception τ} (before : Reachable r) (transport : τ) (tx : Channel)
      (wake : Wake) : Reachable (r.interlude transport tx wake)

theorem Reachable.follows {r : Reception τ} (reachable : Reachable r) : Follows r := by
  induction reachable with
  | start transport capability rx tx consistent => exact .start transport capability tx consistent
  | receive _ ih => exact ih.receive
  | read _ slots ih => exact ih.read slots
  | resetRx _ ih => exact ih.resetRx
  | offer _ slots ih => exact ih.offer slots
  | @configure r _ config ih => exact ih.of_receiveSide (r.device.configure_sides config).2
  | @stop r _ ih => exact ih.of_receiveSide r.device.stop_sides.2
  | @send r _ frame ih => exact ih.of_receiveSide (r.device.send_receiveSide frame)
  | interlude _ transport tx wake ih => exact ih.interlude transport tx wake

/-- Events do not depend on how the stream is cut into calls. In every state that a run leads to,
the slots that were accepted are those read and those pending, and the events returned so far and
the clock tracker are those of one pass over the slots read. Another run that has read the same
slots of the same stream has the same events. Receiving always succeeds and leaves nothing pending;
a read that times out has read slots without events only, and they count for the tracker; and a
reset that succeeds leaves an empty stream and a fresh tracker, from which all of this begins
anew. -/
theorem Reachable.events_follow_stream {r : Reception τ} (reachable : Reachable r) :
    (∃ consumed, r.pushed = consumed ++ r.pending ∧
        consumed.foldl Event.absorb ([], .fresh) = (r.events, r.device.tracker)) ∧
      (∀ other : Reception τ, Reachable other →
        other.pushed = r.pushed → other.pending = r.pending →
        other.events = r.events ∧ other.device.tracker = r.device.tracker) ∧
      (∃ events, r.device.receive.1 = .ok events ∧ r.receive.pending = []) ∧
      (∀ slots, (r.device.readOffering slots).1 = .error .readTimeout →
        (r.read slots).pending = [] ∧ (r.read slots).events = r.events ∧
          (∀ s ∈ r.pending ++ r.device.acceptedInWait slots, Event.IsSilent s) ∧
          (r.read slots).device.tracker =
            (r.device.tracker.trackAll
              ((r.pending ++ r.device.acceptedInWait slots).map Slot.timestamp)).2) ∧
      (∀ count, r.device.resetRx.1 = .ok count →
        r.resetRx.pushed = [] ∧ r.resetRx.pending = [] ∧ r.resetRx.events = [] ∧
          r.resetRx.device.tracker = .fresh) := by
  have follows := reachable.follows
  refine ⟨?_, ?_, ?_, ?_, ?_⟩
  · obtain ⟨consumed, pushed, passed⟩ := follows.stream
    refine ⟨consumed, pushed, ?_⟩
    rw [Event.foldl_absorb, passed, List.nil_append]
  · intro other reached pushed pending
    exact follows.unique reached.follows pushed pending
  · obtain ⟨events, after, received, read⟩ := Device.receive_of_consistent follows.consistent
    refine ⟨events, congrArg Prod.fst received, ?_⟩
    rw [Reception.receive, received]
    exact Ring.pending_of_queued_eq_nil read.emptied
  · intro slots ended
    exact follows.timedOut ended
  · intro count succeeded
    rw [Device.resetRx] at succeeded
    rw [Reception.resetRx, Device.resetRx]
    cases onBus : r.device.onBus with
    | true =>
        rw [onBus] at succeeded
        cases succeeded
    | false =>
        exact ⟨rfl, Ring.pending_of_queued_eq_nil r.device.rx.ring.queued_reset, rfl, rfl⟩

/-- A slot that tells of a bus error, or of none. -/
def errorAt (time : UInt32) (code : UInt8) : Slot := .error ⟨time, 0, code⟩

/-- A client over a ring whose indices are about to wrap, as the device clock is. It receives one
event, and then waits in vain: the slot that comes takes the clock round, but is no event. -/
def overWrap : Reception (Recorded Script) :=
  let noRanges : Timing.Constraints := ⟨0, 0, 0, 0, 0, 0, 0, 0, 0⟩
  let opened : Reception (Recorded Script) :=
    start (.start ⟨false, none, none, [], none⟩) ⟨0, 0, noRanges, noRanges, 0, 0, 0⟩
      ⟨Ring.aboutToWrap, .event false⟩ ⟨Ring.aboutToWrap, .never⟩
  (opened.offer [errorAt 0xFFFFFFF0 1]).receive.read [errorAt 0x10 0]

/-- The same client after it reset its receive side and received what came then, with an earlier
time than any before. -/
def afterReset : Reception (Recorded Script) :=
  (overWrap.resetRx.offer [errorAt 5 2, errorAt 9 0]).receive

theorem events_follow_stream_over_wrap :
    (Reachable overWrap ∧ overWrap.pushed = [errorAt 0xFFFFFFF0 1, errorAt 0x10 0] ∧
      overWrap.events.map Event.timestamp = [0xFFFFFFF0] ∧
      overWrap.device.tracker = ⟨0x10, 1, true⟩ ∧
      ∃ consumed, overWrap.pushed = consumed ++ overWrap.pending ∧
        consumed.foldl Event.absorb ([], .fresh) =
          (overWrap.events, overWrap.device.tracker)) ∧
    (overWrap.resetRx.pushed = [] ∧ overWrap.resetRx.pending = [] ∧ overWrap.resetRx.events = [] ∧
      overWrap.resetRx.device.tracker = .fresh) ∧
    (Reachable afterReset ∧ afterReset.pushed = [errorAt 5 2, errorAt 9 0] ∧
      afterReset.events.map Event.timestamp = [5] ∧ afterReset.device.tracker = ⟨9, 0, true⟩ ∧
      ∃ consumed, afterReset.pushed = consumed ++ afterReset.pending ∧
        consumed.foldl Event.absorb ([], .fresh) =
          (afterReset.events, afterReset.device.tracker)) := by
  have consistent : Ring.aboutToWrap.Consistent :=
    (Represents.of_empty Ring.aboutToWrap_empty).consistent
  have reachable : Reachable overWrap :=
    .read (.receive (.offer (.start _ _ _ _ consistent) _)) _
  have again : Reachable afterReset := .receive (.offer (.resetRx reachable) _)
  have seen : (overWrap.pushed = [errorAt 0xFFFFFFF0 1, errorAt 0x10 0] ∧
      overWrap.events.map Event.timestamp = [0xFFFFFFF0] ∧
      overWrap.device.tracker = ⟨0x10, 1, true⟩) ∧
      overWrap.device.resetRx.1 = .ok 0 ∧
      afterReset.pushed = [errorAt 5 2, errorAt 9 0] ∧
      afterReset.events.map Event.timestamp = [5] ∧
      afterReset.device.tracker = ⟨9, 0, true⟩ := by
    decide +kernel
  obtain ⟨⟨pushed, events, tracker⟩, succeeded, pushedAgain, eventsAgain, trackerAgain⟩ := seen
  obtain ⟨follows, -, -, -, restarts⟩ := reachable.events_follow_stream
  exact ⟨⟨reachable, pushed, events, tracker, follows⟩, restarts 0 succeeded,
    again, pushedAgain, eventsAgain, trackerAgain, again.events_follow_stream.1⟩

end Reception

end CanLink
