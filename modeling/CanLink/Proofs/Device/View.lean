import CanLink.Control.Script
import CanLink.Proofs.Control.Messages
import CanLink.Proofs.Device.Outcome

/-!
The client's view of the bus is what the device accepted. The device learns of the bus from accepted
messages only: the last one for each phase sets its timing, features messages add up, and the last
bus message puts it on bus or takes it off. `Faithful` says that the view of a client agrees with
all of these while the client is on bus, and that it is on bus exactly if the device is. A client
cannot get to a view that is not faithful, whatever its transport answers.
-/

namespace CanLink

open Message (nominalTiming dataTiming FeaturesRequest busRequest)

namespace BusConfig

/-- The message that puts the device on bus. -/
def join : Bytes := (busRequest true).toList

/-- The messages that set up a device before it goes on bus. -/
def settingMessages (config : BusConfig) (timing : BusTiming) : List Bytes :=
  [(Message.timing nominalTiming timing.nominal).toList] ++
    (timing.data.map fun data => (Message.timing dataTiming data).toList).toList ++
    [FeaturesRequest.clear.message.toList, (FeaturesRequest.enable config.enabled).message.toList]

theorem messages_eq (config : BusConfig) (timing : BusTiming) :
    config.messages timing = config.settingMessages timing ++ [join] := by
  rw [messages, settingMessages, List.append_assoc, List.append_assoc, List.append_assoc]
  rfl

/-- Going on bus comes last. -/
theorem head?_settingMessages {config : BusConfig} {timing : BusTiming} {m : Bytes}
    (member : m ∈ config.settingMessages timing) : m.head? ≠ some Message.bus := by
  obtain ⟨nominal, data⟩ := timing
  cases data with
  | none =>
      simp only [settingMessages, Option.map_none, Option.toList_none, List.append_nil,
        List.cons_append, List.nil_append, List.mem_cons, List.not_mem_nil, or_false] at member
      rcases member with rfl | rfl | rfl <;> simp <;> decide
  | some data =>
      simp only [settingMessages, Option.map_some, Option.toList_some, List.cons_append,
        List.nil_append, List.mem_cons, List.not_mem_nil, or_false] at member
      rcases member with rfl | rfl | rfl | rfl <;> simp <;> decide

theorem lastWith_bus_messages (config : BusConfig) (timing : BusTiming) :
    Message.lastWith Message.bus (config.messages timing) = some join := by
  rw [messages_eq, Message.lastWith_append]
  rfl

theorem lastWith_nominalTiming_messages (config : BusConfig) (timing : BusTiming) :
    Message.lastWith nominalTiming (config.messages timing) =
      some (Message.timing nominalTiming timing.nominal).toList := by
  obtain ⟨nominal, data⟩ := timing
  cases data <;> rfl

theorem lastWith_dataTiming_messages (config : BusConfig) (timing : BusTiming) :
    Message.lastWith dataTiming (config.messages timing) =
      timing.data.map fun data => (Message.timing dataTiming data).toList := by
  obtain ⟨nominal, data⟩ := timing
  cases data <;> rfl

/-- Whatever was enabled before, a configured device has the configured features. -/
theorem enabledFeatures_messages (before : List Bytes) (config : BusConfig) (timing : BusTiming) :
    Message.enabledFeatures (before ++ config.messages timing) = config.enabled := by
  have ofNominal (s : Timing.Settings) :=
    FeaturesRequest.ofBytes?_timing nominalTiming s (by decide)
  have ofData (s : Timing.Settings) := FeaturesRequest.ofBytes?_timing dataTiming s (by decide)
  have requests : (config.messages timing).filterMap FeaturesRequest.ofBytes? =
      [FeaturesRequest.clear, FeaturesRequest.enable config.enabled] := by
    obtain ⟨nominal, data⟩ := timing
    cases data with
    | none => simp [messages, ofNominal]
    | some settings => simp [messages, ofNominal, ofData]
  rw [Message.enabledFeatures, List.filterMap_append, List.foldl_append, requests]
  simp [FeaturesRequest.apply, FeaturesRequest.clear, FeaturesRequest.enable,
    Message.FeatureOperation.clear, Message.FeatureOperation.add]

/-- The CAN-FD feature is enabled as the mode of the bus has it. -/
theorem enabled_eq (config : BusConfig) :
    config.enabled =
      if config.isFd then config.features ||| Feature.fd
      else config.features &&& ~~~Feature.fd := by
  rw [enabled]
  cases config.isFd with
  | false => rfl
  | true =>
      apply UInt32.toBitVec_inj.mp
      ext i inside
      simp only [if_true, UInt32.toBitVec_or, UInt32.toBitVec_and, UInt32.toBitVec_not,
        BitVec.getElem_or, BitVec.getElem_and, BitVec.getElem_not]
      cases Feature.fd.toBitVec[i] <;> simp

end BusConfig

/-- What the client holds to be true of a bus that runs is what the device was last told. -/
structure RunsAs (config : BusConfig) (view : BusView) (messages : List Bytes) : Prop where
  nominal : ∃ settings, view.timing = some settings ∧
    Message.lastWith nominalTiming messages = some (Message.timing nominalTiming settings).toList
  mode : view.fdMode = view.dataTiming.isSome
  data : ∀ settings, view.dataTiming = some settings →
    Message.lastWith dataTiming messages = some (Message.timing dataTiming settings).toList
  features : Message.enabledFeatures messages =
    if view.fdMode then config.features ||| Feature.fd else config.features &&& ~~~Feature.fd

/-- The client is on bus exactly if the last accepted bus message put the device there, and then the
bus runs as it was last configured. -/
structure Faithful (configured : Option BusConfig) (view : BusView) (messages : List Bytes) :
    Prop where
  bus : view.onBus = true ↔ Message.lastWith Message.bus messages = some BusConfig.join
  running : view.onBus = true → ∃ config, configured = some config ∧ RunsAs config view messages

namespace Faithful

variable {configured : Option BusConfig} {view : BusView} {messages : List Bytes}

/-- After the device left the bus, a client that is off bus knows all there is to know, as long as
no further bus message is accepted. -/
theorem offBus (left : List Bytes) (silent : ∀ m ∈ left, m.head? ≠ some Message.bus)
    (off : view.onBus = false) : Faithful configured view (messages ++ Device.leave :: left) := by
  have last : Message.lastWith Message.bus (messages ++ Device.leave :: left) =
      some Device.leave := by
    rw [← List.singleton_append, ← List.append_assoc, Message.lastWith_append,
      Message.lastWith_eq_none silent, Message.lastWith_append]
    rfl
  refine ⟨?_, ?_⟩
  · rw [last, off]
    simp only [Bool.false_eq_true, false_iff]
    decide
  · rw [off]
    exact fun on => absurd on Bool.false_ne_true

/-- A client whose messages were all accepted knows how the bus runs. -/
theorem onBus (config : BusConfig) {capability : Capability} {timing : BusTiming}
    (solved : config.timing capability = .ok timing) :
    Faithful (some config) ⟨true, timing.data.isSome, some timing.nominal, timing.data⟩
      (messages ++ Device.leave :: config.messages timing) := by
  rw [← List.singleton_append, ← List.append_assoc]
  refine ⟨?_, fun _ => ⟨config, rfl, ⟨timing.nominal, rfl, ?_⟩, rfl, ?_, ?_⟩⟩
  · rw [Message.lastWith_append, config.lastWith_bus_messages]
    simp only [Option.some_or]
  · rw [Message.lastWith_append, config.lastWith_nominalTiming_messages]
    rfl
  · rintro settings given
    have given : timing.data = some settings := given
    rw [Message.lastWith_append, config.lastWith_dataTiming_messages, given]
    rfl
  · rw [config.enabledFeatures_messages, config.enabled_eq, BusConfig.timing_isFd solved]

end Faithful

namespace Device

/-- A set-up that fails leaves the device where it was, or off bus. -/
theorem SetUpOutcome.accepted_of_error {config : BusConfig} {capability : Capability}
    {calls : List Call} {e : Error} {left : Bool}
    (ended : SetUpOutcome config capability calls (.error e, left)) :
    (left = false ∧ acceptedMessages calls = []) ∨
      left = true ∧ ∃ done, acceptedMessages calls = leave :: done ∧
        ∀ m ∈ done, m.head? ≠ some Message.bus := by
  cases ended with
  | stayed => exact .inl ⟨rfl, rfl⟩
  | unsolved => exact .inr ⟨rfl, [], rfl, fun m member => nomatch member⟩
  | @rejected timing calls _ solved sent =>
      cases sent with
      | cut done message rest stopped =>
          refine .inr ⟨rfl, done, ?_, ?_⟩
          · have accepted : acceptedMessages
                (done.map (Call.send · true) ++ [.send message false]) = done := by
              rw [acceptedMessages_append, acceptedMessages_all]
              exact List.append_nil _
            exact congrArg (leave :: ·) accepted
          · -- Going on bus is the last message, so it is not among those before the rejected one.
            have front : config.settingMessages timing = done ++ (message :: rest).dropLast := by
              rw [← List.dropLast_append_of_ne_nil (List.cons_ne_nil message rest), ← stopped,
                config.messages_eq, List.dropLast_concat]
            intro m member
            apply config.head?_settingMessages
            rw [front]
            exact List.mem_append_left _ member

theorem SetUpOutcome.accepted_of_ok {config : BusConfig} {capability : Capability}
    {calls : List Call} {timing : BusTiming} {left : Bool}
    (ended : SetUpOutcome config capability calls (.ok timing, left)) :
    config.timing capability = .ok timing ∧
      acceptedMessages calls = leave :: config.messages timing := by
  obtain ⟨solved, rfl⟩ := ended.calls_of_ok
  exact ⟨solved, acceptedMessages_all _⟩

end Device

/-- A client over a recorded transport. -/
structure Session (τ : Type) where
  device : Device (Recorded τ)
  /-- The last configuration that succeeded. -/
  configured : Option BusConfig

namespace Session

variable {τ : Type}

/-- The messages that the device has accepted from the client. -/
def accepted (s : Session τ) : List Bytes := acceptedMessages s.device.transport.calls

/-- The view of a session agrees with what the device accepted. -/
def IsFaithful (s : Session τ) : Prop := Faithful s.configured s.device.busView s.accepted

/-- Between two calls of the client its peers do as they like: the channels change, and so does what
the transport is going to answer. -/
def interlude (s : Session τ) (inner : τ) (rx tx : Channel) : Session τ :=
  { s with device := { s.device with transport := { s.device.transport with inner }, rx, tx } }

/-- Calls that leave transport and view alone leave the view faithful. -/
theorem IsFaithful.of_frame {s : Session τ} (faithful : s.IsFaithful) {d : Device (Recorded τ)}
    (same : d.transport = s.device.transport ∧ d.busView = s.device.busView) :
    IsFaithful { s with device := d } := by
  obtain ⟨transport, view⟩ := same
  rw [IsFaithful, accepted] at faithful ⊢
  simp only [transport, view]
  exact faithful

variable [Transport τ]

def start (inner : τ) (capability : Capability) (rx tx : Channel) : Session τ :=
  ⟨.start (.start inner) capability rx tx, none⟩

def perform (s : Session τ) : ClientCall → Session τ
  | .configure config =>
      let (answer, device) := s.device.configure config
      ⟨device, if answer.isOk then some config else s.configured⟩
  | .stop => { s with device := s.device.stop.2 }
  | .send frame => { s with device := (s.device.send frame).2 }
  | .receive => { s with device := s.device.receive.2 }
  | .read meanwhile => { s with device := (s.device.read meanwhile).2 }
  | .resetRx => { s with device := s.device.resetRx.2 }

/-- The sessions that some run leads to. -/
inductive Reachable : Session τ → Prop where
  | start (inner : τ) (capability : Capability) (rx tx : Channel) :
      Reachable (start inner capability rx tx)
  | perform {s : Session τ} (before : Reachable s) (call : ClientCall) : Reachable (s.perform call)
  | interlude {s : Session τ} (before : Reachable s) (inner : τ) (rx tx : Channel) :
      Reachable (s.interlude inner rx tx)

/-- Configuring fails with the device where it was, or with client and device off bus, or it takes
both to the same bus. -/
theorem IsFaithful.configure {s : Session τ} (faithful : s.IsFaithful) (config : BusConfig) :
    (s.perform (.configure config)).IsFaithful := by
  obtain ⟨calls, made, outcome⟩ := s.device.configure_outcome config
  have more : (s.perform (.configure config)).accepted = s.accepted ++ acceptedMessages calls := by
    rw [accepted, perform, made, acceptedMessages_append]
    rfl
  rw [IsFaithful, more, perform]
  generalize s.device.configure config = result at outcome
  cases outcome with
  | unsupported =>
      rw [acceptedMessages, List.filterMap_nil, List.append_nil]
      exact faithful
  | noAccess =>
      have nothing : acceptedMessages [.acquire false] = [] := rfl
      rw [nothing, List.append_nil]
      exact faithful
  | failed ended =>
      rw [acceptedMessages_held]
      rcases ended.accepted_of_error with ⟨rfl, nothing⟩ | ⟨rfl, done, accepted, silent⟩
      · rw [nothing, List.append_nil]
        simp only [Bool.not_false, Bool.and_true]
        exact faithful
      · rw [accepted]
        refine .offBus done silent ?_
        simp only [Device.busView, Bool.not_true, Bool.and_false]
  | configured ended =>
      rw [acceptedMessages_held]
      obtain ⟨solved, accepted⟩ := ended.accepted_of_ok
      rw [accepted]
      exact .onBus config solved

theorem IsFaithful.stop {s : Session τ} (faithful : s.IsFaithful) :
    (s.perform .stop).IsFaithful := by
  obtain ⟨calls, made, outcome⟩ := s.device.stop_outcome
  have more : (s.perform .stop).accepted = s.accepted ++ acceptedMessages calls := by
    rw [accepted, perform, made, acceptedMessages_append]
    rfl
  rw [IsFaithful, more, perform]
  generalize s.device.stop = result at outcome
  cases outcome with
  | noAccess =>
      have nothing : acceptedMessages [.acquire false] = [] := rfl
      rw [nothing, List.append_nil]
      exact faithful
  | stayed =>
      have nothing : acceptedMessages [.acquire true, .send Device.leave false, .release] = [] :=
        rfl
      rw [nothing, List.append_nil]
      exact faithful
  | left => exact .offBus [] (fun m member => nomatch member) rfl

theorem IsFaithful.perform {s : Session τ} (faithful : s.IsFaithful) (call : ClientCall) :
    (s.perform call).IsFaithful := by
  cases call with
  | configure config => exact faithful.configure config
  | stop => exact faithful.stop
  | send frame => exact faithful.of_frame (Device.send_view frame s.device)
  | receive => exact faithful.of_frame (Device.receive_view s.device)
  | read meanwhile => exact faithful.of_frame (Device.read_view meanwhile s.device)
  | resetRx => exact faithful.of_frame (Device.resetRx_view s.device)

/-- The client's view of the bus agrees with what the device accepted in every session that a run
leads to, over any transport and with any peers. -/
theorem Reachable.view_is_faithful {s : Session τ} (reachable : Reachable s) : s.IsFaithful := by
  induction reachable with
  | start inner capability rx tx =>
      refine ⟨?_, fun on => absurd on Bool.false_ne_true⟩
      simp only [Device.busView, Session.start, Device.start, Bool.false_eq_true, false_iff]
      exact Option.some_ne_none _ ∘ Eq.symm
  | perform _ call ih => exact ih.perform call
  | interlude _ inner rx tx ih => exact ih

/-- A client that configured a CAN-FD bus at 500 kbit/s and 2 Mbit/s, over a transport that accepts
everything. -/
def onFdBus : Session Script :=
  let ranges : Timing.Constraints := ⟨80000000, 1, 32, 1, 1, 16, 1, 8, 4⟩
  let capability : Capability := ⟨512, 80000000, ranges, ranges, 32, 32, Feature.fd⟩
  let ring : Ring :=
    { capacity := ⟨⟨0, Nat.zero_lt_succ 31⟩⟩
      region := ⟨Array.replicate 88 0, 0⟩
      fits := Nat.le_refl 88
      aligned := rfl }
  (start ⟨false, none, none, [], none⟩ capability ⟨ring, .never⟩ ⟨ring, .never⟩).perform
    (.configure (.fd 500000 2000000))

/-- The same client after it stopped, and then asked for a classic bus of a device that rejects
nominal bit timings. -/
def refusedClassicBus : Session Script :=
  let stopped := onFdBus.perform .stop
  (stopped.interlude ⟨false, none, none, [Message.nominalTiming], none⟩
    stopped.device.rx stopped.device.tx).perform (.configure (.classic 250000))

/-- The same client after it asked once more, and the device rejected nothing. -/
def onClassicBus : Session Script :=
  (refusedClassicBus.interlude ⟨false, none, none, [], none⟩
    refusedClassicBus.device.rx refusedClassicBus.device.tx).perform (.configure (.classic 250000))

theorem view_is_faithful_on_fd_bus :
    (Reachable onFdBus ∧ onFdBus.device.onBus = true ∧ onFdBus.device.fdMode = true ∧
      onFdBus.accepted.length = 6 ∧ onFdBus.IsFaithful) ∧
    (Reachable refusedClassicBus ∧ refusedClassicBus.device.onBus = false ∧
      refusedClassicBus.device.fdMode = true ∧ refusedClassicBus.accepted.length = 8 ∧
      refusedClassicBus.IsFaithful) ∧
    (Reachable onClassicBus ∧ onClassicBus.device.onBus = true ∧
      onClassicBus.device.fdMode = false ∧ onClassicBus.accepted.length = 13 ∧
      onClassicBus.IsFaithful) := by
  have first : Reachable onFdBus := by
    rw [onFdBus]
    exact .perform (.start _ _ _ _) _
  have second : Reachable refusedClassicBus := by
    rw [refusedClassicBus]
    exact .perform (.interlude (.perform first .stop) _ _ _) _
  have third : Reachable onClassicBus := by
    rw [onClassicBus]
    exact .perform (.interlude second _ _ _) _
  exact ⟨⟨first, by rfl, by rfl, by rfl, first.view_is_faithful⟩,
    ⟨second, by rfl, by rfl, by rfl, second.view_is_faithful⟩,
    ⟨third, by rfl, by rfl, by rfl, third.view_is_faithful⟩⟩

end Session

end CanLink
