import CanLink.Proofs.Device.View

/-!
Configuration access over whole runs. A call is in place if access is held for it exactly when it
needs access; `heldAfter` says whether access is held after calls that are all in place. One use of
access is an `AccessBlock`: a request that is refused, or a granted one with the messages sent until
access is given back. The calls that consist of such blocks are just those that are all in place and
leave no access held (`bracketed_iff`). A client makes no other calls, whatever its transport
answers, and neither does a list of messages that is sent with access held.
-/

namespace CanLink

namespace Call

def isSend : Call → Bool
  | send .. => true
  | _ => false

/-- The call is only allowed with access held; asking for access is only allowed without. -/
def needsAccess : Call → Bool
  | acquire _ => false
  | _ => true

/-- Access is held after the call. -/
def leavesAccess : Call → Bool
  | acquire granted => granted
  | release => false
  | send .. => true

end Call

/-- Whether access is held after some calls, if all of them are in place. -/
def heldAfter (held : Bool) : List Call → Option Bool
  | [] => some held
  | call :: rest => if held = call.needsAccess then heldAfter call.leavesAccess rest else none

/-- The calls of one use of access. -/
inductive AccessBlock : List Call → Prop where
  | refused : AccessBlock [.acquire false]
  | granted {sends : List Call} (only : ∀ call ∈ sends, call.isSend = true) :
      AccessBlock ([.acquire true] ++ sends ++ [.release])

/-- Calls that are uses of access, one after the other. -/
def Bracketed (calls : List Call) : Prop :=
  ∃ blocks : List (List Call), calls = blocks.flatten ∧ ∀ block ∈ blocks, AccessBlock block

/-! ### Blocks and the state of access -/

theorem heldAfter_append (held : Bool) (before after : List Call) :
    heldAfter held (before ++ after) = (heldAfter held before).bind (heldAfter · after) := by
  induction before generalizing held with
  | nil => rfl
  | cons call rest ih =>
      simp only [List.cons_append, heldAfter, ih]
      split
      · rfl
      · rfl

theorem heldAfter_sends {sends : List Call} (only : ∀ call ∈ sends, call.isSend = true) :
    heldAfter true sends = some true := by
  induction sends with
  | nil => rfl
  | cons call rest ih =>
      obtain ⟨first, later⟩ := List.forall_mem_cons.mp only
      cases call with
      | acquire => cases first
      | release => cases first
      | send => exact ih later

namespace AccessBlock

/-- A use of access is in place where no access is held, and leaves none held. -/
theorem heldAfter_eq {block : List Call} (use : AccessBlock block) :
    heldAfter false block = some false := by
  cases use with
  | refused => rfl
  | @granted sends only =>
      have taken : heldAfter false [.acquire true] = some true := rfl
      rw [heldAfter_append, heldAfter_append, taken, Option.bind_some, heldAfter_sends only]
      rfl

theorem bracketed {block : List Call} (use : AccessBlock block) : Bracketed block := by
  refine ⟨[block], ?_, ?_⟩
  · rw [List.flatten_singleton]
  · exact List.forall_mem_singleton.mpr use

/-- To go off bus is one use of access. -/
theorem of_leaving {block : List Call}
    (leaving : block = [.acquire false] ∨
      ∃ accepted, block = [.acquire true] ++ [.send Device.leave accepted] ++ [.release]) :
    AccessBlock block := by
  rcases leaving with rfl | ⟨accepted, rfl⟩
  · exact .refused
  · exact .granted (List.forall_mem_singleton.mpr rfl)

end AccessBlock

namespace Bracketed

theorem nil : Bracketed [] := ⟨[], rfl, List.forall_mem_nil _⟩

theorem append {before after : List Call} (first : Bracketed before) (second : Bracketed after) :
    Bracketed (before ++ after) := by
  obtain ⟨earlier, rfl, uses⟩ := first
  obtain ⟨later, rfl, more⟩ := second
  exact ⟨earlier ++ later, List.flatten_append.symm, List.forall_mem_append.mpr ⟨uses, more⟩⟩

theorem heldAfter_eq {calls : List Call} (bracketed : Bracketed calls) :
    heldAfter false calls = some false := by
  obtain ⟨blocks, rfl, uses⟩ := bracketed
  induction blocks with
  | nil => rfl
  | cons block rest ih =>
      obtain ⟨first, later⟩ := List.forall_mem_cons.mp uses
      rw [List.flatten_cons, heldAfter_append, first.heldAfter_eq]
      exact ih later

/-- In bracketed calls each one is made with access held exactly if it needs access. -/
theorem in_place {before after : List Call} {call : Call}
    (bracketed : Bracketed (before ++ call :: after)) :
    heldAfter false before = some call.needsAccess := by
  have free := bracketed.heldAfter_eq
  rw [heldAfter_append, Option.bind_eq_some_iff] at free
  obtain ⟨held, earlier, later⟩ := free
  rw [heldAfter] at later
  split at later
  · rename_i place
    rw [earlier, place]
  · cases later

end Bracketed

/-- Calls in place that leave no access held are uses of access; with access held at first, they
begin with the rest of a use. -/
theorem bracketed_of_heldAfter {calls : List Call} {held : Bool}
    (free : heldAfter held calls = some false) :
    if held then
      ∃ sends rest, calls = sends ++ [.release] ++ rest ∧ (∀ call ∈ sends, call.isSend = true) ∧
        Bracketed rest
    else Bracketed calls := by
  induction calls generalizing held with
  | nil =>
      cases held with
      | false => exact .nil
      | true => cases free
  | cons call rest ih =>
      cases held with
      | false =>
          cases call with
          | acquire granted =>
              have later := @ih granted free
              cases granted with
              | false => exact AccessBlock.refused.bracketed.append later
              | true =>
                  obtain ⟨sends, rest, rfl, only, bracketed⟩ := later
                  exact (AccessBlock.granted only).bracketed.append bracketed
          | release => cases free
          | send => cases free
      | true =>
          cases call with
          | acquire => cases free
          | release => exact ⟨[], rest, rfl, List.forall_mem_nil _, ih free⟩
          | send message accepted =>
              obtain ⟨sends, rest, rfl, only, bracketed⟩ := ih free
              exact ⟨.send message accepted :: sends, rest, rfl,
                List.forall_mem_cons.mpr ⟨rfl, only⟩, bracketed⟩

/-- Calls are uses of access exactly if all of them are in place and no access is held in the
end. -/
theorem bracketed_iff (calls : List Call) : Bracketed calls ↔ heldAfter false calls = some false :=
  ⟨Bracketed.heldAfter_eq, bracketed_of_heldAfter⟩

instance (calls : List Call) : Decidable (Bracketed calls) :=
  decidable_of_iff _ (bracketed_iff calls).symm

example : ¬ Bracketed [.acquire true, .send Device.leave false] := by decide

/-! ### Work with access held -/

theorem Sent.only_sends {messages : List Bytes} {calls : List Call} {answer : Except Error Unit}
    (sent : Sent messages calls answer) : ∀ call ∈ calls, call.isSend = true := by
  have accepted (messages : List Bytes) :
      ∀ call ∈ messages.map (Call.send · true), call.isSend = true := by
    rw [List.forall_mem_map]
    exact fun _ _ => rfl
  cases sent with
  | all => exact accepted messages
  | cut done message =>
      exact List.forall_mem_append.mpr ⟨accepted done, List.forall_mem_singleton.mpr rfl⟩

namespace Recorded

variable {τ α : Type} [Transport τ]

/-- All messages are sent, whatever becomes of them. -/
theorem sendEach_calls (messages : List Bytes) (t : Recorded τ) :
    ∃ sends, (Transport.sendEach messages t).2.calls = t.calls ++ sends ∧
      (∀ call ∈ sends, call.isSend = true) ∧ sentMessages sends = messages := by
  induction messages generalizing t with
  | nil => exact ⟨[], (List.append_nil _).symm, List.forall_mem_nil _, rfl⟩
  | cons message rest ih =>
      obtain ⟨sends, more, only, sent⟩ := ih (Transport.send message t).2
      refine ⟨.send message (Transport.send message t).1.isOk :: sends, ?_, ?_, ?_⟩
      · rw [Transport.sendEach]
        refine more.trans ?_
        rw [List.append_cons]
        rfl
      · exact List.forall_mem_cons.mpr ⟨rfl, only⟩
      · exact congrArg (message :: ·) sent

/-- Messages sent with access held make one use of access, and all of them are sent if access is
granted. -/
theorem sendEach_withAccess (messages : List Bytes) (t : Recorded τ) :
    ∃ block, (Transport.withAccess (Transport.sendEach messages) t).2.calls = t.calls ++ block ∧
      (block = [.acquire false] ∨
        ∃ sends, block = [.acquire true] ++ sends ++ [.release] ∧
          (∀ call ∈ sends, call.isSend = true) ∧ sentMessages sends = messages) := by
  rcases withAccess_calls (Transport.sendEach messages) t with ⟨e, -, made⟩ | ⟨held, taken, -, made⟩
  · exact ⟨_, made, .inl rfl⟩
  · obtain ⟨sends, more, only, sent⟩ := sendEach_calls messages held
    refine ⟨[.acquire true] ++ sends ++ [.release], ?_, .inr ⟨sends, rfl, only, sent⟩⟩
    rw [made, more, taken]
    simp only [List.append_assoc]

end Recorded

namespace Device

variable {τ : Type}

theorem SetUpOutcome.only_sends {config : BusConfig} {capability : Capability} {calls : List Call}
    {result : Except Error BusTiming × Bool} (ended : SetUpOutcome config capability calls result) :
    ∀ call ∈ calls, call.isSend = true := by
  cases ended with
  | stayed => exact List.forall_mem_singleton.mpr rfl
  | unsolved => exact List.forall_mem_singleton.mpr rfl
  | rejected solved sent => exact List.forall_mem_cons.mpr ⟨rfl, sent.only_sends⟩
  | finished solved sent => exact List.forall_mem_cons.mpr ⟨rfl, sent.only_sends⟩

/-- Configuring is one use of access, or no call for a bus that the device does not support. -/
theorem ConfigureOutcome.block {config : BusConfig} {d : Device (Recorded τ)} {calls : List Call}
    {result : Except Error Unit × Device (Recorded τ)}
    (ended : ConfigureOutcome config d calls result) : calls = [] ∨ AccessBlock calls := by
  cases ended with
  | unsupported => exact .inl rfl
  | noAccess => exact .inr .refused
  | failed ended => exact .inr (.granted ended.only_sends)
  | configured ended => exact .inr (.granted ended.only_sends)

/-- Going off bus is one use of access for one message. -/
theorem StopOutcome.calls_eq {d : Device (Recorded τ)} {calls : List Call}
    {result : Except Error Unit × Device (Recorded τ)} (ended : StopOutcome d calls result) :
    calls = [.acquire false] ∨
      ∃ accepted, calls = [.acquire true] ++ [.send leave accepted] ++ [.release] := by
  cases ended with
  | noAccess => exact .inl rfl
  | stayed => exact .inr ⟨false, rfl⟩
  | left => exact .inr ⟨true, rfl⟩

theorem StopOutcome.block {d : Device (Recorded τ)} {calls : List Call}
    {result : Except Error Unit × Device (Recorded τ)} (ended : StopOutcome d calls result) :
    AccessBlock calls := .of_leaving ended.calls_eq

end Device

namespace Session

variable {τ : Type}

/-- All calls of the transport so far. -/
def calls (s : Session τ) : List Call := s.device.transport.calls

variable [Transport τ]

/-- All calls of the transport if the client ends here. -/
def callsAtEnd (s : Session τ) : List Call := s.device.close.transport.calls

/-- An operation of the client is one use of access, or makes no call. -/
theorem perform_calls (s : Session τ) (call : ClientCall) :
    ∃ added, (s.perform call).calls = s.calls ++ added ∧ (added = [] ∨ AccessBlock added) := by
  have silent {d : Device (Recorded τ)} (same : d.transport = s.device.transport) :
      ∃ added, d.transport.calls = s.calls ++ added ∧ (added = [] ∨ AccessBlock added) :=
    ⟨[], by rw [same, List.append_nil, calls], .inl rfl⟩
  cases call with
  | configure config =>
      obtain ⟨added, made, outcome⟩ := s.device.configure_outcome config
      exact ⟨added, made, outcome.block⟩
  | stop =>
      obtain ⟨added, made, outcome⟩ := s.device.stop_outcome
      exact ⟨added, made, .inr outcome.block⟩
  | send frame => exact silent (Device.send_view frame s.device).1
  | receive => exact silent (Device.receive_view s.device).1
  | read meanwhile => exact silent (Device.read_view meanwhile s.device).1
  | resetRx => exact silent (Device.resetRx_view s.device).1

theorem Reachable.bracketed {s : Session τ} (reachable : Reachable s) : Bracketed s.calls := by
  induction reachable with
  | start => exact .nil
  | @perform s before call ih =>
      obtain ⟨added, made, use⟩ := s.perform_calls call
      rw [made]
      refine ih.append ?_
      rcases use with rfl | block
      · exact .nil
      · exact block.bracketed
  | interlude _ inner rx tx ih => exact ih

/-- A client that is on bus ends with one use of access to go off bus, any other one without a
call. -/
theorem callsAtEnd_eq (s : Session τ) :
    ∃ last, s.callsAtEnd = s.calls ++ last ∧
      if s.device.onBus then
        last = [.acquire false] ∨
          ∃ accepted, last = [.acquire true] ++ [.send Device.leave accepted] ++ [.release]
      else last = [] := by
  rw [callsAtEnd, Device.close]
  cases s.device.onBus with
  | true =>
      obtain ⟨last, made, outcome⟩ := s.device.stop_outcome
      exact ⟨last, made, outcome.calls_eq⟩
  | false => exact ⟨[], (List.append_nil _).symm, rfl⟩

/-- However a client is used and whatever its transport answers, its calls up to its end are uses of
access: each call is made with access held exactly if it needs access, and no access is held between
operations. The end of the client is a use of access of its own exactly if the client is on bus. A
list of messages that is sent with access held is one use of access as well. -/
theorem Reachable.access_is_bracketed {s : Session τ} (reachable : Reachable s) :
    (Bracketed s.calls ∧ heldAfter false s.calls = some false) ∧
      (Bracketed s.callsAtEnd ∧ heldAfter false s.callsAtEnd = some false) ∧
      (∀ before call after, s.callsAtEnd = before ++ call :: after →
        heldAfter false before = some call.needsAccess) ∧
      (∃ last, s.callsAtEnd = s.calls ++ last ∧
        if s.device.onBus then
          last = [.acquire false] ∨
            ∃ accepted, last = [.acquire true] ++ [.send Device.leave accepted] ++ [.release]
        else last = []) ∧
      ∀ (messages : List Bytes) (t : Recorded τ),
        ∃ block, (Transport.withAccess (Transport.sendEach messages) t).2.calls =
            t.calls ++ block ∧
          (block = [.acquire false] ∨
            ∃ sends, block = [.acquire true] ++ sends ++ [.release] ∧
              (∀ call ∈ sends, call.isSend = true) ∧ sentMessages sends = messages) := by
  have bracketed := reachable.bracketed
  obtain ⟨last, more, ended⟩ := s.callsAtEnd_eq
  have closing : Bracketed last := by
    split at ended
    · exact (AccessBlock.of_leaving ended).bracketed
    · rw [ended]
      exact .nil
  have complete : Bracketed s.callsAtEnd := by
    rw [more]
    exact bracketed.append closing
  refine ⟨⟨bracketed, bracketed.heldAfter_eq⟩, ⟨complete, complete.heldAfter_eq⟩, ?_,
    ⟨last, more, ended⟩, Recorded.sendEach_withAccess⟩
  intro before call after split
  rw [split] at complete
  exact complete.in_place

/-- A client that is refused access at first, then cannot give back the access with which it set up
the device in part, and in the end is on bus. -/
def afterSetbacks : Session Script :=
  let busy : Script := ⟨true, none, none, [], none⟩
  let faulty : Script := ⟨false, none, some "lost", [Message.features], none⟩
  let ready : Script := ⟨false, none, none, [], none⟩
  let d := onFdBus.device
  let config : BusConfig := .fd 500000 2000000
  let refused := (start busy d.capability d.rx d.tx).perform .stop
  let rejected := (refused.interlude faulty d.rx d.tx).perform (.configure config)
  (rejected.interlude ready d.rx d.tx).perform (.configure config)

theorem access_is_bracketed_after_setbacks :
    Reachable afterSetbacks ∧ afterSetbacks.device.onBus = true ∧
      afterSetbacks.calls.length = 15 ∧ Bracketed afterSetbacks.callsAtEnd := by
  have reachable : Reachable afterSetbacks := by
    rw [afterSetbacks]
    exact .perform (.interlude (.perform (.interlude (.perform (.start ..) _) ..) _) ..) _
  exact ⟨reachable, by rfl, by rfl, reachable.access_is_bracketed.2.1.1⟩

end Session

end CanLink
