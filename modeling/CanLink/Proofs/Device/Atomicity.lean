import CanLink.Proofs.Device.View

/-!
Configuring is atomic apart from leaving the bus. What a configuration has to send is known once its
timing is solved (`BusConfig.plan`), and what it does send is the plan up to the first message that
the device rejects (`Attempt`). Only a plan that is accepted to its end changes mode and timings of
the client and puts it on bus. After any failure the client is as it was, but off bus if the device
left.
-/

namespace CanLink

open Message (FeaturesRequest nominalTiming dataTiming)

/-- The messages of a configuration in their order. There is nothing to send to a device that left
the bus if no register values reach the bit timing asked for. -/
def BusConfig.plan (config : BusConfig) (capability : Capability) : List Bytes :=
  Device.leave ::
    match config.timing capability with
    | .error _ => []
    | .ok timing =>
        [(Message.timing nominalTiming timing.nominal).toList] ++
          (timing.data.map fun data => (Message.timing dataTiming data).toList).toList ++
          [FeaturesRequest.clear.message.toList,
            (FeaturesRequest.enable config.enabled).message.toList, BusConfig.join]

/-- The calls of one attempt to carry out a plan: none at all, or a request for access that is not
granted, or the messages up to the first that is rejected, sent with access held. -/
inductive Attempt (plan : List Bytes) : List Call → Prop where
  | none : Attempt plan []
  | noAccess : Attempt plan [.acquire false]
  | held {sends : List Call} {answer : Except Error Unit} (sent : Sent plan sends answer) :
      Attempt plan ([.acquire true] ++ sends ++ [.release])

namespace BusConfig

variable {config : BusConfig} {capability : Capability}

theorem plan_of_error {e : Error} (failed : config.timing capability = .error e) :
    config.plan capability = [Device.leave] := by
  rw [plan, failed]

theorem plan_of_ok {timing : BusTiming} (solved : config.timing capability = .ok timing) :
    config.plan capability = Device.leave :: config.messages timing := by
  rw [plan, solved]
  rfl

end BusConfig

namespace Attempt

variable {plan : List Bytes} {calls : List Call}

theorem sentMessages_prefix (attempt : Attempt plan calls) : sentMessages calls <+: plan := by
  cases attempt with
  | none => exact List.nil_prefix
  | noAccess => exact List.nil_prefix
  | held sent =>
      rw [sentMessages_held]
      exact sent.sentMessages_prefix

end Attempt

namespace Device

variable {config : BusConfig} {capability : Capability}

/-- However a set-up ends, it sent its plan up to the first rejected message. It succeeds exactly if
register values were found for it and all of the plan was accepted. -/
theorem SetUpOutcome.sent {calls : List Call} {result : Except Error BusTiming} {left : Bool}
    (ended : SetUpOutcome config capability calls (result, left)) :
    ∃ answer, Sent (config.plan capability) calls answer ∧
      ((∃ timing, result = .ok timing) ↔
        (∃ timing, config.timing capability = .ok timing) ∧ answer = .ok ()) := by
  cases ended with
  | @stayed e => exact ⟨.error e, .cut [] leave _ rfl, by simp⟩
  | unsolved failed =>
      rw [BusConfig.plan_of_error failed]
      exact ⟨.ok (), .all, by simp [failed]⟩
  | rejected solved sent =>
      rw [BusConfig.plan_of_ok solved]
      exact ⟨_, sent.cons leave, by simp⟩
  | finished solved sent =>
      rw [BusConfig.plan_of_ok solved]
      exact ⟨_, sent.cons leave, by simp [solved]⟩

/-- A set-up that fails left the bus exactly if the device accepted to leave. -/
theorem SetUpOutcome.left_iff {calls : List Call} {e : Error} {left : Bool}
    (ended : SetUpOutcome config capability calls (.error e, left)) :
    left = true ↔ leave ∈ acceptedMessages calls := by
  rcases ended.accepted_of_error with ⟨rfl, nothing⟩ | ⟨rfl, done, accepted, -⟩
  · simp [nothing]
  · simp [accepted]

/-- Nothing is accepted of a set-up only if leaving the bus, its first message, is rejected. -/
theorem SetUpOutcome.stayed_iff {calls : List Call} {result : Except Error BusTiming × Bool}
    (ended : SetUpOutcome config capability calls result) :
    leave ∉ acceptedMessages calls ↔ calls = [.send leave false] := by
  cases ended with
  | stayed => simp [acceptedMessages, Call.accepted?]
  | unsolved => simp [acceptedMessages, Call.accepted?]
  | rejected => simp [acceptedMessages, Call.accepted?]
  | finished => simp [acceptedMessages, Call.accepted?]

variable {τ : Type}

namespace ConfigureOutcome

variable {d : Device (Recorded τ)} {calls : List Call}
  {result : Except Error Unit × Device (Recorded τ)}

theorem attempt (ended : ConfigureOutcome config d calls result) :
    Attempt (config.plan d.capability) calls := by
  cases ended with
  | unsupported => exact .none
  | noAccess => exact .noAccess
  | failed ended =>
      obtain ⟨_, sent, -⟩ := ended.sent
      exact .held sent
  | configured ended =>
      obtain ⟨_, sent, -⟩ := ended.sent
      exact .held sent

/-- The device did not leave the bus in three cases: it was asked nothing, access was not granted,
or it rejected to leave. -/
theorem stayed_iff (ended : ConfigureOutcome config d calls result) :
    leave ∉ acceptedMessages calls ↔
      calls = [] ∨ calls = [.acquire false] ∨
        calls = [.acquire true, .send leave false, .release] := by
  have held (sends : List Call) : sends = [.send leave false] ↔
      [.acquire true] ++ sends ++ [.release] =
        [.acquire true] ++ [.send leave false] ++ [Call.release] := by
    rw [List.append_left_inj, List.append_right_inj]
  cases ended with
  | unsupported => simp [acceptedMessages]
  | noAccess => simp [acceptedMessages, Call.accepted?]
  | failed ended =>
      rw [acceptedMessages_held, ended.stayed_iff, held]
      simp
  | configured ended =>
      rw [acceptedMessages_held, ended.stayed_iff, held]
      simp

/-- Configuring succeeds exactly if register values are found and the plan is accepted to its
end. -/
theorem ok_iff (ended : ConfigureOutcome config d calls result) :
    result.1 = .ok () ↔
      (∃ timing, config.timing d.capability = .ok timing) ∧
        acceptedMessages calls = config.plan d.capability := by
  cases ended with
  | unsupported => simp [acceptedMessages, BusConfig.plan]
  | noAccess =>
      have nothing : acceptedMessages [.acquire false] = [] := rfl
      simp [nothing, BusConfig.plan]
  | failed ended =>
      obtain ⟨answer, sent, succeeded⟩ := ended.sent
      rw [acceptedMessages_held, ← sent.ok_iff, ← succeeded]
      simp
  | configured ended =>
      obtain ⟨answer, sent, succeeded⟩ := ended.sent
      rw [acceptedMessages_held, ← sent.ok_iff, ← succeeded]
      simp

/-- A configuration that fails leaves all of the client but its place on the bus. -/
theorem of_error (ended : ConfigureOutcome config d calls result) {e : Error}
    (failed : result.1 = .error e) :
    result.2 =
      { d with
        transport := result.2.transport
        onBus := if leave ∈ acceptedMessages calls then false else d.onBus } := by
  cases ended with
  | unsupported => simp [acceptedMessages]
  | noAccess => simp [acceptedMessages, Call.accepted?]
  | @failed calls e left t ended =>
      rw [acceptedMessages_held]
      simp only [← ended.left_iff]
      cases left with
      | false => simp
      | true => simp
  | configured => cases failed

end ConfigureOutcome

variable [Transport τ]

/-- Nothing is asked of a device that cannot run the bus, and only then. -/
theorem configure_silent_iff (config : BusConfig) (d : Device (Recorded τ)) :
    (d.configure config).2.transport.calls = d.transport.calls ↔
      config.isFd = true ∧ d.capability.supportsFd = false := by
  rw [← Bool.not_eq_true', ← Bool.and_eq_true, configure]
  by_cases unsupported : (config.isFd && !d.capability.supportsFd) = true
  · rw [if_pos unsupported]
    exact iff_of_true rfl unsupported
  rw [if_neg unsupported]
  refine iff_of_false ?_ unsupported
  have access := Recorded.withAccess_calls (setUp config d.capability) d.transport
  generalize Transport.withAccess (setUp config d.capability) d.transport = answer at access
  obtain ⟨answer, after⟩ := answer
  have asked : ∃ granted rest, after.calls = d.transport.calls ++ .acquire granted :: rest := by
    rcases access with ⟨e, -, made⟩ | ⟨held, taken, -, made⟩
    · exact ⟨_, _, made⟩
    · obtain ⟨calls, more, -⟩ := setUp_outcome config d.capability held
      refine ⟨true, calls ++ [.release], ?_⟩
      rw [made, more, taken]
      simp
  obtain ⟨granted, rest, asked⟩ := asked
  have unchanged : after.calls ≠ d.transport.calls := by simp [asked]
  rcases answer with e | ⟨e | timing, left⟩
  · exact unchanged
  · exact unchanged
  · exact unchanged

/-- A configuration is all or nothing, apart from leaving the bus. Over any transport and from any
state, the control messages are sent in the order of the plan up to the first that is rejected, and
configuring succeeds exactly if all of the plan was accepted and has register values. If it fails,
the client keeps its mode, its timings, its counter, its clock and both of its rings; it is off bus
if the device accepted to leave, and otherwise on bus as before. The device is not even asked to
leave if it cannot run the bus or access is not granted. -/
theorem configure_is_atomic (config : BusConfig) (d : Device (Recorded τ)) :
    ∃ calls, (d.configure config).2.transport.calls = d.transport.calls ++ calls ∧
      Attempt (config.plan d.capability) calls ∧
      sentMessages calls <+: config.plan d.capability ∧
      (∀ timing, config.timing d.capability = .ok timing →
        timing.data.isSome = config.isFd) ∧
      ((d.configure config).1 = .ok () ↔
        (∃ timing, config.timing d.capability = .ok timing) ∧
          acceptedMessages calls = config.plan d.capability) ∧
      (∀ e, (d.configure config).1 = .error e →
        (d.configure config).2 =
          { d with
            transport := (d.configure config).2.transport
            onBus := if leave ∈ acceptedMessages calls then false else d.onBus }) ∧
      (leave ∉ acceptedMessages calls ↔
        calls = [] ∨ calls = [.acquire false] ∨
          calls = [.acquire true, .send leave false, .release]) ∧
      (calls = [] ↔ config.isFd = true ∧ d.capability.supportsFd = false) := by
  obtain ⟨calls, made, ended⟩ := d.configure_outcome config
  have silent := d.configure_silent_iff config
  rw [made, List.append_right_eq_self] at silent
  refine ⟨calls, made, ended.attempt, ended.attempt.sentMessages_prefix, ?_, ended.ok_iff, ?_,
    ended.stayed_iff, silent⟩
  · intro timing solved
    exact BusConfig.timing_isFd solved
  · intro e failed
    exact ended.of_error failed

end Device

end CanLink
