import CanLink.Proofs.Device.Reception
import CanLink.Proofs.Ring.Corruption

/-!
Recovery of the receive side. A reset leaves the memory of the ring as it was, leftover records and
all, and only moves the get index up to the put index; the clock tracker is made fresh. What a
client and its server see after that depends on the capacity, on the records between the indices and
on the tracker, and on nothing else (`Device.ReceivesAlike`), wherever the indices stand. So from
then on the receive side answers every sequence of calls like that of a new client over a new ring
(`Device.reset_recovers_reception`).
-/

namespace CanLink

/-! ### Rings alike -/

/-- Two rings with the same records queued. The indices and all other bytes may differ. -/
structure Ring.Alike (r r' : Ring) : Prop where
  capacity : r.capacity = r'.capacity
  queued : r.queued = r'.queued
  consistent : r.Consistent

namespace Ring

theorem Alike.consistent' {r r' : Ring} (h : r.Alike r') : r'.Consistent := by
  rw [Consistent, ← h.queued, ← h.capacity]
  exact h.consistent

/-- Empty rings of one capacity are alike. -/
theorem Alike.of_empty {r r' : Ring} (capacity : r.capacity = r'.capacity) (empty : r.queued = [])
    (empty' : r'.queued = []) : r.Alike r' :=
  ⟨capacity, empty.trans empty'.symm, consistent_of_queued_eq_nil empty⟩

theorem Alike.pushed {r r' : Ring} (h : r.Alike r') (slot : Slot)
    (room : r.queued.length < r.capacity.slots) : (r.pushed slot).Alike (r'.pushed slot) where
  capacity := h.capacity
  queued := by
    have room' : r'.queued.length < r'.capacity.slots := by
      rw [← h.queued, ← h.capacity]
      exact room
    rw [queued_pushed slot room, queued_pushed slot room', h.queued]
  consistent := consistent_pushed slot room

theorem capacity_of_drainAll {r after : Ring} {slots : List Slot}
    (drained : r.drainAll = .ok (slots, after)) : after.capacity = r.capacity := by
  rw [drainAll] at drained
  cases began : r.drain with
  | error e =>
      rw [began] at drained
      cases drained
  | ok d =>
      rw [began] at drained
      cases drained
      exact Drain.capacity_release ..

/-- Draining alike rings gives the same slots and leaves alike rings. -/
theorem Alike.drainAll {r r' : Ring} (h : r.Alike r') :
    ∃ slots after after', r.drainAll = .ok (slots, after) ∧ r'.drainAll = .ok (slots, after') ∧
      after.Alike after' := by
  obtain ⟨after, drained, emptied⟩ := drainAll_of_consistent h.consistent
  obtain ⟨after', drained', emptied'⟩ := drainAll_of_consistent h.consistent'
  have same : r'.pending = r.pending := by rw [pending, pending, h.queued]
  rw [same] at drained'
  refine ⟨r.pending, after, after', drained, drained', .of_empty ?_ emptied emptied'⟩
  rw [capacity_of_drainAll drained, capacity_of_drainAll drained', h.capacity]

end Ring

namespace Channel

variable {c c' : Channel}

theorem push_alike (h : c.ring.Alike c'.ring) (slot : Slot) :
    (c.push slot).1 = (c'.push slot).1 ∧ (c.push slot).2.ring.Alike (c'.push slot).2.ring := by
  have length := congrArg List.length h.queued
  have slots := congrArg Capacity.slots h.capacity
  rcases push_split slot h.consistent with ⟨full, refused⟩ | ⟨room, accepted⟩
  · rcases push_split slot h.consistent' with ⟨-, refused'⟩ | ⟨room', -⟩
    · rw [refused, refused']
      exact ⟨rfl, h⟩
    · omega
  · rcases push_split slot h.consistent' with ⟨full', -⟩ | ⟨-, accepted'⟩
    · omega
    · rw [accepted, accepted']
      exact ⟨rfl, h.pushed slot room⟩

theorem offer_alike (h : c.ring.Alike c'.ring) (slots : List Slot) :
    (c.offer slots).1 = (c'.offer slots).1 ∧
      (c.offer slots).2.ring.Alike (c'.offer slots).2.ring := by
  induction slots generalizing c c' with
  | nil => exact ⟨rfl, h⟩
  | cons slot rest ih =>
      obtain ⟨same, alike⟩ := push_alike h slot
      rw [offer, offer]
      rcases pushed : c.push slot with ⟨accepted, after⟩
      rcases pushed' : c'.push slot with ⟨accepted', after'⟩
      rw [pushed, pushed'] at same alike
      cases same
      obtain ⟨later, still⟩ := ih alike
      rcases accepted with e | _ | _
      · exact ⟨later, still⟩
      · exact ⟨later, still⟩
      · exact ⟨congrArg (slot :: ·) later, still⟩

end Channel

/-! ### New rings -/

namespace Capacity

theorem ofWord?_word (c : Capacity) : ofWord? c.word = some c := by
  obtain ⟨exponent⟩ := c
  revert exponent
  decide +kernel

end Capacity

theorem Memory.window_replicate (n start size : Nat) :
    window n start (Array.replicate size 0) = zeros n := by
  apply Vector.ext
  intro i inside
  rw [getElem_window, Array.getElem?_replicate]
  split <;> simp [zeros]

theorem Region.word_replicate (start size address : Nat) :
    word ⟨Array.replicate size 0, address⟩ start = 0 := by
  rw [word, Memory.window_replicate]
  rfl

/-- A new ring can be had in every capacity, and nothing is queued in it. -/
theorem Ring.allocate_word (c : Capacity) :
    ∃ r, allocate c.word = .ok r ∧ r.capacity = c ∧ r.queued = [] := by
  have bound : c.slots ≤ 2 ^ 31 := c.slots_le_maximum
  have allowed : ¬ Region.maxSize < requiredSize c.slots := by
    have largest : Region.maxSize = 2 ^ 63 - 8 := rfl
    rw [largest, requiredSize, headerSize, slotSize]
    omega
  have fits : requiredSize c.slots ≤
      Region.size ⟨Array.replicate (max (requiredSize c.slots) 1) 0, 0⟩ := by
    rw [Region.size, Array.size_replicate]
    exact Nat.le_max_left ..
  refine ⟨⟨c, _, fits, rfl⟩, ?_, rfl, ?_⟩
  · rw [allocate, c.toNat_word, Region.zeroed, if_neg allowed]
    change ofRegion _ c.word = _
    rw [ofRegion, c.ofWord?_word]
    exact dif_pos fits
  · rw [queued, put, get, Region.word_replicate, Region.word_replicate]
    rfl

/-! ### Clients alike -/

/-- What a server and a client do on the receive side. -/
inductive ReceiveCall where
  | push (slot : Slot)
  | receive
  /-- While the client waits, the server offers slots. -/
  | read (meanwhile : List Slot)

inductive ReceiveAnswer where
  | pushed (result : Except Error Bool)
  /-- What the client gets, and the slots that were accepted while it waited. -/
  | returned (result : Except Error (List Event)) (accepted : List Slot)

namespace Device

variable {τ τ' : Type}

def receiveStep (call : ReceiveCall) (d : Device τ) : ReceiveAnswer × Device τ :=
  match call with
  | .push slot => (.pushed (d.rx.push slot).1, { d with rx := (d.rx.push slot).2 })
  | .receive => (.returned d.receive.1 [], d.receive.2)
  | .read meanwhile =>
      (.returned (d.readOffering meanwhile).1 (d.acceptedInWait meanwhile),
        (d.readOffering meanwhile).2)

/-- The answers to calls made one after another. -/
def receiveTrace : List ReceiveCall → Device τ → List ReceiveAnswer
  | [], _ => []
  | call :: rest, d => (d.receiveStep call).1 :: (d.receiveStep call).2.receiveTrace rest

/-- Two clients whose receive sides have the same before them and behind them. -/
structure ReceivesAlike (d : Device τ) (d' : Device τ') : Prop where
  ring : d.rx.ring.Alike d'.rx.ring
  tracker : d.tracker = d'.tracker

namespace ReceivesAlike

variable {d : Device τ} {d' : Device τ'}

theorem receive (h : d.ReceivesAlike d') :
    d.receive.1 = d'.receive.1 ∧ d.receive.2.ReceivesAlike d'.receive.2 := by
  obtain ⟨slots, after, after', drained, drained', alike⟩ := h.ring.drainAll
  rw [Device.receive, Device.receive, Channel.drainAll, Channel.drainAll, drained, drained',
    h.tracker]
  exact ⟨rfl, alike, rfl⟩

theorem acceptedInWait (h : d.ReceivesAlike d') (slots : List Slot) :
    d.acceptedInWait slots = d'.acceptedInWait slots := by
  obtain ⟨same, after⟩ := h.receive
  rw [Device.acceptedInWait, Device.acceptedInWait, wouldWait, wouldWait, same,
    (Channel.offer_alike after.ring slots).1]

theorem readOffering (h : d.ReceivesAlike d') (slots : List Slot) :
    (d.readOffering slots).1 = (d'.readOffering slots).1 ∧
      (d.readOffering slots).2.ReceivesAlike (d'.readOffering slots).2 := by
  obtain ⟨same, alike⟩ := h.receive
  rw [Device.readOffering, Device.readOffering, read, read]
  rcases received : d.receive with ⟨answer, waiting⟩
  rcases received' : d'.receive with ⟨answer', waiting'⟩
  rw [received, received'] at same alike
  cases same
  rcases answer with e | _ | ⟨event, events⟩
  · exact ⟨rfl, alike⟩
  · -- The wake signals may differ, but a wait without delay goes on whatever it was told.
    have offered := (Channel.offer_alike alike.ring slots).2
    have woken : ReceivesAlike { waiting with rx := (waiting.rx.offer slots).2.wait.2 }
        { waiting' with rx := (waiting'.rx.offer slots).2.wait.2 } :=
      ⟨offered, alike.tracker⟩
    obtain ⟨same, after⟩ := woken.receive
    dsimp only
    rcases again : Device.receive { waiting with rx := (waiting.rx.offer slots).2.wait.2 } with
      ⟨answer, last⟩
    rcases again' : Device.receive { waiting' with rx := (waiting'.rx.offer slots).2.wait.2 } with
      ⟨answer', last'⟩
    rw [again, again'] at same after
    cases same
    rcases answer with e | _ | ⟨event, events⟩ <;> exact ⟨rfl, after⟩
  · exact ⟨rfl, alike⟩

/-- Each call is answered alike and leaves the two alike. -/
theorem step (h : d.ReceivesAlike d') (call : ReceiveCall) :
    (d.receiveStep call).1 = (d'.receiveStep call).1 ∧
      (d.receiveStep call).2.ReceivesAlike (d'.receiveStep call).2 := by
  cases call with
  | push slot =>
      obtain ⟨same, after⟩ := Channel.push_alike h.ring slot
      exact ⟨congrArg ReceiveAnswer.pushed same, after, h.tracker⟩
  | receive =>
      obtain ⟨same, after⟩ := h.receive
      exact ⟨congrArg (ReceiveAnswer.returned · []) same, after⟩
  | read meanwhile =>
      obtain ⟨same, after⟩ := h.readOffering meanwhile
      exact ⟨congrArg₂ ReceiveAnswer.returned same (h.acceptedInWait meanwhile), after⟩

theorem receiveTrace_eq (h : d.ReceivesAlike d') (calls : List ReceiveCall) :
    d.receiveTrace calls = d'.receiveTrace calls := by
  induction calls generalizing d d' with
  | nil => rfl
  | cons call rest ih =>
      obtain ⟨same, after⟩ := h.step call
      rw [receiveTrace, receiveTrace, same, ih after]

end ReceivesAlike

/-- A reset recovers the receive side from any state. On bus it is refused and changes nothing. Off
bus it gives the distance of the indices as the number of discarded slots and changes the get index
and the tracker only, and after it every sequence of calls of the server and the client is answered
like that of a new client over a new ring of the same capacity. -/
theorem reset_recovers_reception (d : Device τ) :
    (d.onBus = true → d.resetRx = (.error .alreadyOnBus, d)) ∧
      (d.onBus = false →
        ∃ ring, d.resetRx = (.ok (d.rx.ring.put - d.rx.ring.get),
            { d with rx := { d.rx with ring }, tracker := .fresh }) ∧
          d.rx.ring.SameButGet ring ∧ ring.get = d.rx.ring.put ∧
          ∃ new, Ring.allocate d.rx.ring.capacity.word = .ok new ∧
            ∀ (transport : τ') (capability : Capability) (wake : Wake) (tx : Channel)
              (calls : List ReceiveCall),
              d.resetRx.2.receiveTrace calls =
                (start transport capability ⟨new, wake⟩ tx).receiveTrace calls) := by
  constructor
  · intro onBus
    rw [resetRx, onBus]
    rfl
  · intro offBus
    have discarded : d.resetRx = (.ok (d.rx.ring.put - d.rx.ring.get),
        { d with
          rx := { d.rx with ring := d.rx.ring.storeGet d.rx.ring.put }
          tracker := .fresh }) := by
      rw [resetRx, offBus]
      rfl
    obtain ⟨new, allocated, capacity, empty⟩ := Ring.allocate_word d.rx.ring.capacity
    refine ⟨_, discarded, d.rx.ring.sameButGet_storeGet _, d.rx.ring.get_storeGet _, new, allocated,
      ?_⟩
    intro transport capability wake tx calls
    have alike : ReceivesAlike d.resetRx.2 (start transport capability ⟨new, wake⟩ tx) := by
      rw [discarded]
      exact ⟨.of_empty capacity.symm d.rx.ring.queued_reset empty, rfl⟩
    exact alike.receiveTrace_eq calls

/-- An old client whose receive ring claims more slots than it has. -/
def overfull : Device Unit :=
  let noRanges : Timing.Constraints := ⟨0, 0, 0, 0, 0, 0, 0, 0, 0⟩
  { start () ⟨0, 0, noRanges, noRanges, 0, 0, 0⟩ Channel.overfull ⟨Ring.aboutToWrap, .never⟩ with
    tracker := ⟨5, 7, true⟩ }

theorem reset_recovers_reception_of_overfull :
    overfull.onBus = false ∧ overfull.receive.1 = .error (.impossibleIndices 2 0xFFFFFFFF 2) ∧
      overfull.resetRx.1 = .ok 3 ∧
      ∃ new, Ring.allocate 2 = .ok new ∧
        overfull.resetRx.2.receiveTrace [.push (Reception.errorAt 9 1), .receive] =
          (start () overfull.capability ⟨new, .never⟩ overfull.tx).receiveTrace
            [.push (Reception.errorAt 9 1), .receive] := by
  have offBus : overfull.onBus = false := rfl
  have corrupt : overfull.receive.1 = .error (.impossibleIndices 2 0xFFFFFFFF 2) := by
    decide +kernel
  have distance : overfull.rx.ring.put - overfull.rx.ring.get = 3 := by decide +kernel
  obtain ⟨_, discarded, -, -, new, allocated, same⟩ := (reset_recovers_reception overfull).2 offBus
  rw [distance] at discarded
  exact ⟨offBus, corrupt, congrArg Prod.fst discarded, new, allocated, same () _ _ _ _⟩

end Device

end CanLink
