import CanLink.Proofs.Device.Programming
import CanLink.Proofs.Frame.RoundTrip
import CanLink.Proofs.Ring.Pending

/-!
What the server sees of the frames that a client sends. `Transmission` is a client together with the
drain that the server holds on the transmit ring; it remembers the sends that were accepted and the
slots that the server took out. In every state that a run leads to, the slots taken out and those
still pending are the accepted frames, in order and numbered from zero on: a send that is refused
uses up no number, and configuring, stopping and receiving do not touch what is queued.
-/

namespace CanLink

/-- A send that was accepted. -/
structure Sending where
  frame : Frame
  /-- The number that the client got for it. -/
  number : UInt32
  /-- The bus ran in CAN-FD mode. -/
  fdMode : Bool

/-- The slot of an accepted send: its frame under its number. It is in CAN-FD format only if the bus
ran in CAN-FD mode. -/
def Sending.Queued (a : Sending) (slot : Slot) : Prop :=
  ∃ s, a.frame.encode = .ok s ∧ slot = .tx { s with trackId := a.number } ∧
    (hasFlag s.flags FrameFlag.fd = true → a.fdMode = true)

/-- What the server does with a ring. -/
inductive ServerCall where
  | drain
  | next
  | release
  deriving DecidableEq

def ServerCall.onQueue : ServerCall → QueueCall
  | drain => .drain
  | next => .next
  | release => .release

/-- Slots that an answer hands out. -/
def QueueAnswer.slots : QueueAnswer → List Slot
  | yielded slot => slot.toList
  | _ => []

/-- What a drain hands out is what it sees no more. -/
theorem Fifo.slots_step (call : ServerCall) (q : Fifo) :
    (step call.onQueue q).1.slots ++ (step call.onQueue q).2.remaining = q.remaining := by
  obtain ⟨capacity, live, waiting⟩ := q
  cases call with
  | drain =>
      cases live with
      | none => exact List.append_nil waiting
      | some d => rfl
  | next => rcases live with _ | ⟨taken, _ | ⟨slot, coming⟩⟩ <;> rfl
  | release => cases live <;> rfl

theorem Fifo.remaining_push {slot : Slot} {q : Fifo} (accepted : (q.push slot).1 = .pushed true) :
    (q.push slot).2.remaining = q.remaining ++ [slot] := by
  rw [push] at accepted ⊢
  split at accepted
  · cases accepted
  · rename_i room
    rw [if_neg room]
    obtain ⟨capacity, _ | d, waiting⟩ := q
    · rfl
    · exact (List.append_assoc ..).symm

/-- A channel puts slots into its ring, whatever drain is in progress. -/
theorem RingUse.push_of_channel {c after : Channel} {slot : Slot}
    (accepted : c.push slot = (.ok true, after)) (live : Option Drain) :
    RingUse.push slot ⟨c.ring, live⟩ = (.pushed true, ⟨after.ring, live⟩) := by
  rw [Channel.push] at accepted
  rw [RingUse.push]
  split at accepted
  · cases accepted
  · cases accepted
  · rename_i ring pushed
    cases accepted
    simp only [pushed]

/-- A client, the server at the other end of its transmit ring, and what went between them. -/
structure Transmission (τ : Type) where
  device : Device τ
  /-- The drain that the server holds. -/
  server : Option Drain
  /-- The accepted sends, oldest first. -/
  sent : List Sending
  /-- The slots that the server took out, oldest first. -/
  drained : List Slot

namespace Transmission

variable {τ : Type}

/-- The transmit ring in use. -/
def ring (t : Transmission τ) : RingUse := ⟨t.device.tx.ring, t.server⟩

/-- Slots that the server has yet to take out. -/
def pending (t : Transmission τ) : List Slot := t.ring.pending

def serve (t : Transmission τ) (call : ServerCall) : Transmission τ :=
  let (answer, ring) := RingUse.step call.onQueue t.ring
  { t with
    device := { t.device with tx := { t.device.tx with ring := ring.ring } }
    server := ring.live
    drained := t.drained ++ answer.slots }

/-- Between two calls the transport, the receive channel and the wake signal of the transmit channel
change as they like. -/
def interlude (t : Transmission τ) (transport : τ) (rx : Channel) (wake : Wake) : Transmission τ :=
  { t with device := { t.device with transport, rx, tx := { t.device.tx with wake } } }

def send (t : Transmission τ) (frame : Frame) : Transmission τ :=
  match t.device.send frame with
  | (.error _, device) => { t with device }
  | (.ok number, device) =>
      { t with device, sent := t.sent ++ [⟨frame, number, t.device.fdMode⟩] }

/-- A client that has sent nothing yet. -/
def start (transport : τ) (capability : Capability) (rx tx : Channel) : Transmission τ :=
  ⟨.start transport capability rx tx, none, [], []⟩

/-- The accepted sends are what was taken out and what the ring holds, and they are numbered in
order; the client will go on with the next number. -/
structure InStep (t : Transmission τ) : Prop where
  queue : ∃ q, Represents t.ring q ∧ List.Forall₂ Sending.Queued t.sent (t.drained ++ q.remaining)
  numbers : t.sent.map Sending.number = (List.range t.sent.length).map UInt32.ofNat
  next : t.device.nextTrackId = UInt32.ofNat t.sent.length

namespace InStep

variable {t : Transmission τ}

theorem start (transport : τ) (capability : Capability) (rx : Channel) {tx : Channel}
    (empty : tx.ring.put = tx.ring.get) : InStep (start transport capability rx tx) where
  queue := ⟨_, .of_empty empty, .nil⟩
  numbers := rfl
  next := rfl

/-- What leaves the transmit ring and the counter alone keeps the two sides in step. -/
theorem of_sendSide (h : InStep t) {d : Device τ} (same : d.sendSide = t.device.sendSide) :
    InStep { t with device := d } := by
  obtain ⟨tx, next⟩ := SendSide.mk.inj same
  obtain ⟨queue, numbers, counter⟩ := h
  rw [Transmission.ring, ← tx] at queue
  rw [← next] at counter
  exact ⟨queue, numbers, counter⟩

theorem serve (h : InStep t) (call : ServerCall) : InStep (t.serve call) := by
  obtain ⟨q, represented, queued⟩ := h.queue
  obtain ⟨answer, after⟩ := represented.step call.onQueue
  refine ⟨⟨_, after, ?_⟩, h.numbers, h.next⟩
  have taken := Fifo.slots_step call q
  rw [← answer] at taken
  rw [← taken, ← List.append_assoc] at queued
  exact queued

theorem interlude (h : InStep t) (transport : τ) (rx : Channel) (wake : Wake) :
    InStep (t.interlude transport rx wake) :=
  ⟨h.queue, h.numbers, h.next⟩

/-- A frame that is queued is the next one that the server will see, under the next number. -/
theorem queue_frame (h : InStep t) {frame : Frame} {s : FrameSlot} {tx : Channel}
    (mode : frame.isFd = true → t.device.fdMode = true) (encoded : frame.encode = .ok s)
    (accepted : t.device.tx.push (.tx { s with trackId := t.device.nextTrackId }) =
      (.ok true, tx)) :
    InStep
      { t with
        device := { t.device with tx, nextTrackId := t.device.nextTrackId + 1 }
        sent := t.sent ++ [⟨frame, t.device.nextTrackId, t.device.fdMode⟩] } := by
  obtain ⟨q, represented, queued⟩ := h.queue
  obtain ⟨answer, after⟩ := represented.push (.tx { s with trackId := t.device.nextTrackId })
  -- The server may hold a drain at this moment; it does not see the new slot.
  have pushed := RingUse.push_of_channel accepted t.server
  rw [Transmission.ring, pushed] at answer after
  refine ⟨⟨_, after, ?_⟩, ?_, ?_⟩
  · rw [Fifo.remaining_push answer.symm, ← List.append_assoc]
    refine List.rel_append queued (.cons ⟨s, encoded, rfl, ?_⟩ .nil)
    rw [Frame.hasFlag_fd_of_encode encoded]
    exact mode
  · rw [List.map_append, h.numbers, List.length_append, List.length_singleton, List.range_succ,
      List.map_append, List.map_singleton, List.map_singleton, h.next]
  · simp only [List.length_append, List.length_singleton, h.next, UInt32.ofNat_add]
    rfl

theorem send (h : InStep t) (frame : Frame) : InStep (t.send frame) := by
  have outcome := t.device.send_outcome frame
  rw [Transmission.send]
  generalize t.device.send frame = result at outcome
  cases outcome with
  | notOnBus => exact h
  | wrongMode => exact h
  | invalid => exact h
  | corrupt => exact h
  | full => exact h
  | queued _ mode encoded accepted => exact h.queue_frame mode encoded accepted

end InStep

variable [Transport τ]

def perform (t : Transmission τ) : ClientCall → Transmission τ
  | .configure config => { t with device := (t.device.configure config).2 }
  | .stop => { t with device := t.device.stop.2 }
  | .send frame => t.send frame
  | .receive => { t with device := t.device.receive.2 }
  | .read meanwhile => { t with device := (t.device.read meanwhile).2 }
  | .resetRx => { t with device := t.device.resetRx.2 }

/-- The states that some run leads to, from a transmit ring that is empty, at any index. -/
inductive Reachable : Transmission τ → Prop where
  | start (transport : τ) (capability : Capability) (rx tx : Channel)
      (empty : tx.ring.put = tx.ring.get) : Reachable (start transport capability rx tx)
  | perform {t : Transmission τ} (before : Reachable t) (call : ClientCall) :
      Reachable (t.perform call)
  | serve {t : Transmission τ} (before : Reachable t) (call : ServerCall) :
      Reachable (t.serve call)
  | interlude {t : Transmission τ} (before : Reachable t) (transport : τ) (rx : Channel)
      (wake : Wake) : Reachable (t.interlude transport rx wake)

theorem InStep.perform {t : Transmission τ} (h : InStep t) (call : ClientCall) :
    InStep (t.perform call) := by
  cases call with
  | configure config => exact h.of_sendSide (t.device.configure_sides config).1
  | stop => exact h.of_sendSide t.device.stop_sides.1
  | send frame => exact h.send frame
  | receive => exact h.of_sendSide t.device.receive_sendSide
  | read meanwhile => exact h.of_sendSide (t.device.read_sendSide meanwhile)
  | resetRx => exact h.of_sendSide t.device.resetRx_sendSide

theorem Reachable.inStep {t : Transmission τ} (reachable : Reachable t) : InStep t := by
  induction reachable with
  | start transport capability rx tx empty => exact .start transport capability rx empty
  | perform _ call ih => exact ih.perform call
  | serve _ call ih => exact ih.serve call
  | interlude _ transport rx wake ih => exact ih.interlude transport rx wake

/-- The server sees exactly the accepted sends. Whatever the client, the server and the transport
did, the slots that the server took out and those still pending are the accepted frames in order,
the frame of number `i` being the one accepted after `i` others; numbers go on where they wrap. A
send that is refused, for any reason and in any state, changes nothing. -/
theorem Reachable.server_sees_accepted_sends {t : Transmission τ} (reachable : Reachable t) :
    List.Forall₂ Sending.Queued t.sent (t.drained ++ t.pending) ∧
      t.sent.map Sending.number = (List.range t.sent.length).map UInt32.ofNat ∧
      ∀ (d : Device τ) (frame : Frame) (e : Error), (d.send frame).1 = .error e →
        (e = .notOnBus ∨ (∃ fault, e = .invalidFrame fault) ∨ e = .ringFull ∨
          e = d.tx.ring.corruption) ∧
        (d.send frame).2 = d := by
  obtain ⟨⟨q, represented, queued⟩, numbers, -⟩ := reachable.inStep
  refine ⟨?_, numbers, ?_⟩
  · rw [pending, represented.pending_eq]
    exact queued
  · intro d frame e refused
    exact Device.send_of_error refused

/-- A client that sends over a ring of two slots. The third send finds the ring full, and the next
one does not, because the server took a slot out; the last two find the client off bus, and on a
classic bus. -/
def overSmallRing : Transmission (Recorded Script) :=
  let fast := Frame.fd 0x123 [1, 2, 3] true
  let plain := Frame.classic 0x7FF [4]
  let opened : Transmission (Recorded Script) :=
    start (.start ⟨false, none, none, [], none⟩)
      (Device.controllerCapability.withFeatures Feature.fd) ⟨Ring.aboutToWrap, .never⟩
      ⟨Ring.aboutToWrap, .event false⟩
  let filled := [.configure (.fd 500000 2000000), .send fast, .send plain, .send fast].foldl
    perform opened
  let served := [.drain, .next, .release].foldl serve filled
  [.send plain, .stop, .send fast, .configure .standard, .send fast].foldl perform served

theorem server_sees_sends_over_small_ring :
    Reachable overSmallRing ∧ overSmallRing.sent.map Sending.number = [0, 1, 2] ∧
      overSmallRing.drained.length = 1 ∧
      List.Forall₂ Sending.Queued overSmallRing.sent
        (overSmallRing.drained ++ overSmallRing.pending) := by
  have reachable : Reachable overSmallRing := by
    rw [overSmallRing]
    refine List.foldlRecOn _ _ ?_ fun t reached call _ => reached.perform call
    refine List.foldlRecOn _ _ ?_ fun t reached call _ => reached.serve call
    refine List.foldlRecOn _ _ ?_ fun t reached call _ => reached.perform call
    exact .start _ _ _ _ Ring.aboutToWrap_empty
  have seen : overSmallRing.sent.map Sending.number = [0, 1, 2] ∧
      overSmallRing.drained.length = 1 := by
    decide +kernel
  exact ⟨reachable, seen.1, seen.2, reachable.server_sees_accepted_sends.1⟩

end Transmission

end CanLink
