import CanLink.Device
import CanLink.Proofs.Control.Calls

/-!
What the operations of a client do. Only `configure` and `stop` call the transport; for these the
outcome types list the calls together with the answer and the client after it, one case for every
way to end. The other operations leave the transport and the view of the bus alone. Of the two rings
only `send` works on the one, and only `receive`, `read` and `resetRx` on the other; `SendOutcome`
lists the ways in which sending ends.
-/

namespace CanLink

open Timing (Settings)

/-- What a client holds to be true of the bus. -/
structure BusView where
  onBus : Bool
  fdMode : Bool
  timing : Option Settings
  dataTiming : Option Settings
  deriving DecidableEq

/-- What the client of a channel can do. -/
inductive ClientCall where
  | configure (config : BusConfig)
  | stop
  | send (frame : Frame)
  | receive
  /-- During the wait the server does `meanwhile` to the receive channel. -/
  | read (meanwhile : Channel → Channel)
  | resetRx

/-- What sending works on. -/
structure SendSide where
  tx : Channel
  nextTrackId : UInt32

/-- What receiving works on. -/
structure ReceiveSide where
  rx : Channel
  tracker : Clock.Tracker

/-- Each phase is solved as if alone. -/
theorem Timing.solve_of_solveFd {nominalRanges dataRanges : Constraints}
    {nominal data : Target} {s : FdSettings}
    (solved : solveFd nominalRanges dataRanges nominal data = .ok s) :
    solve nominalRanges nominal .nominal = .ok s.nominal ∧
      solve dataRanges data .data = .ok s.data := by
  rw [solveFd] at solved
  split at solved
  · cases solved
  · cases first : solve nominalRanges nominal .nominal with
    | error e =>
        simp only [first] at solved
        cases solved
    | ok a =>
        cases second : solve dataRanges data .data with
        | error e =>
            simp only [first, second] at solved
            cases solved
        | ok b =>
            simp only [first, second] at solved
            cases solved
            exact ⟨rfl, rfl⟩

/-- The nominal phase is always solved, and the data phase exactly if the bus is to have one. -/
theorem BusConfig.solved_of_timing {config : BusConfig} {capability : Capability}
    {timing : BusTiming} (solved : config.timing capability = .ok timing) :
    Timing.solve capability.nominal config.nominal .nominal = .ok timing.nominal ∧
      Option.Rel (fun target settings => Timing.solve capability.data target .data = .ok settings)
        config.data timing.data := by
  rw [BusConfig.timing] at solved
  cases asked : config.data with
  | none =>
      rw [asked] at solved
      cases nominal : Timing.solve capability.nominal config.nominal .nominal with
      | error e =>
          simp only [nominal] at solved
          cases solved
      | ok settings =>
          simp only [nominal] at solved
          cases solved
          exact ⟨rfl, .none⟩
  | some target =>
      rw [asked] at solved
      cases both : Timing.solveFd capability.nominal capability.data config.nominal target with
      | error e =>
          simp only [both] at solved
          cases solved
      | ok settings =>
          simp only [both] at solved
          cases solved
          obtain ⟨nominal, data⟩ := Timing.solve_of_solveFd both
          exact ⟨nominal, .some data⟩

/-- A bus runs in CAN-FD mode exactly if it is configured to. -/
theorem BusConfig.timing_isFd {config : BusConfig} {capability : Capability} {timing : BusTiming}
    (solved : config.timing capability = .ok timing) : timing.data.isSome = config.isFd := by
  obtain ⟨-, data⟩ := solved_of_timing solved
  rw [isFd]
  generalize config.data = asked at data ⊢
  generalize timing.data = settings at data ⊢
  cases data with
  | none => rfl
  | some => rfl

/-- The error that a ring reports whose indices claim more than it holds. -/
def Ring.corruption (r : Ring) : Error := .impossibleIndices r.put r.get r.capacity.word

/-- A slot is put in, or the channel stays as it is. -/
theorem Channel.push_cases (c : Channel) (slot : Slot) :
    c.push slot = (.error c.ring.corruption, c) ∨ c.push slot = (.ok false, c) ∨
      ∃ after, c.push slot = (.ok true, after) := by
  rw [push, Ring.push, Ring.occupancy]
  by_cases impossible : c.ring.capacity.word < c.ring.put - c.ring.get
  · simp only [if_pos impossible]
    exact .inl rfl
  · simp only [if_neg impossible, Except.map]
    by_cases full : c.ring.put - c.ring.get = c.ring.capacity.word
    · simp only [if_pos full]
      exact .inr (.inl trivial)
    · simp only [if_neg full]
      exact .inr (.inr ⟨_, rfl⟩)

namespace Device

variable {τ : Type}

def busView (d : Device τ) : BusView where
  onBus := d.onBus
  fdMode := d.fdMode
  timing := d.timing
  dataTiming := d.dataTiming

def sendSide (d : Device τ) : SendSide := ⟨d.tx, d.nextTrackId⟩

def receiveSide (d : Device τ) : ReceiveSide := ⟨d.rx, d.tracker⟩

/-- Sending a frame makes no call of the transport, and the view of the bus stays. -/
theorem send_view (frame : Frame) (d : Device τ) :
    (d.send frame).2.transport = d.transport ∧ (d.send frame).2.busView = d.busView := by
  rw [send]
  repeat' split
  all_goals exact ⟨rfl, rfl⟩

theorem send_receiveSide (frame : Frame) (d : Device τ) :
    (d.send frame).2.receiveSide = d.receiveSide := by
  rw [send]
  repeat' split
  all_goals rfl

theorem receive_view (d : Device τ) :
    d.receive.2.transport = d.transport ∧ d.receive.2.busView = d.busView := by
  rw [receive]
  split
  all_goals exact ⟨rfl, rfl⟩

theorem receive_sendSide (d : Device τ) : d.receive.2.sendSide = d.sendSide := by
  rw [receive]
  split
  all_goals rfl

/-- Reading is receiving once or twice, so it leaves alone what receiving and the wait between the
two leave alone. -/
theorem read_leaves {α : Type} (part : Device τ → α)
    (received : ∀ d : Device τ, part d.receive.2 = part d)
    (waited : ∀ (d : Device τ) (rx : Channel), part { d with rx } = part d)
    (meanwhile : Channel → Channel) (d : Device τ) : part (d.read meanwhile).2 = part d := by
  have first := received d
  rw [read]
  split
  · rename_i waiting empty
    rw [empty] at first
    have second := (received { waiting with rx := (meanwhile waiting.rx).wait.2 }).trans
      ((waited waiting _).trans first)
    split
    · rename_i after again
      rw [again] at second
      exact second
    · exact second
  · exact first

theorem read_view (meanwhile : Channel → Channel) (d : Device τ) :
    (d.read meanwhile).2.transport = d.transport ∧ (d.read meanwhile).2.busView = d.busView := by
  have both := read_leaves (fun d : Device τ => (d.transport, d.busView))
    (fun d => Prod.ext (receive_view d).1 (receive_view d).2) (fun _ _ => rfl) meanwhile d
  exact Prod.mk.inj both

theorem read_sendSide (meanwhile : Channel → Channel) (d : Device τ) :
    (d.read meanwhile).2.sendSide = d.sendSide :=
  read_leaves sendSide receive_sendSide (fun _ _ => rfl) meanwhile d

/-- Resetting the receive side makes no call of the transport, and the view of the bus stays. -/
theorem resetRx_view (d : Device τ) :
    d.resetRx.2.transport = d.transport ∧ d.resetRx.2.busView = d.busView := by
  rw [resetRx]
  split
  all_goals exact ⟨rfl, rfl⟩

theorem resetRx_sendSide (d : Device τ) : d.resetRx.2.sendSide = d.sendSide := by
  rw [resetRx]
  split
  all_goals rfl

/-- How sending ends. Only a frame that is queued changes anything. -/
inductive SendOutcome (frame : Frame) (d : Device τ) : Except Error UInt32 × Device τ → Prop where
  | notOnBus (off : d.onBus = false) : SendOutcome frame d (.error .notOnBus, d)
  | wrongMode (fd : frame.isFd = true) (classic : d.fdMode = false) :
      SendOutcome frame d (.error (.invalidFrame .fdOnClassicBus), d)
  | invalid {fault : FrameFault} (rejected : frame.encode = .error fault) :
      SendOutcome frame d (.error (.invalidFrame fault), d)
  | corrupt {s : FrameSlot} (encoded : frame.encode = .ok s) :
      SendOutcome frame d (.error d.tx.ring.corruption, d)
  | full {s : FrameSlot} (encoded : frame.encode = .ok s)
      (refused : d.tx.push (.tx { s with trackId := d.nextTrackId }) = (.ok false, d.tx)) :
      SendOutcome frame d (.error .ringFull, d)
  | queued {s : FrameSlot} {tx : Channel} (onBus : d.onBus = true)
      (mode : frame.isFd = true → d.fdMode = true) (encoded : frame.encode = .ok s)
      (accepted : d.tx.push (.tx { s with trackId := d.nextTrackId }) = (.ok true, tx)) :
      SendOutcome frame d (.ok d.nextTrackId, { d with tx, nextTrackId := d.nextTrackId + 1 })

theorem send_outcome (frame : Frame) (d : Device τ) : SendOutcome frame d (d.send frame) := by
  rw [send]
  by_cases off : (!d.onBus) = true
  · rw [if_pos off]
    exact .notOnBus (by simpa using off)
  rw [if_neg off]
  by_cases wrong : (frame.isFd && !d.fdMode) = true
  · rw [if_pos wrong]
    rw [Bool.and_eq_true, Bool.not_eq_true'] at wrong
    exact .wrongMode wrong.1 wrong.2
  rw [if_neg wrong]
  cases encoded : frame.encode with
  | error fault => exact .invalid encoded
  | ok s =>
      rcases d.tx.push_cases (.tx { s with trackId := d.nextTrackId }) with
        answer | answer | ⟨tx, answer⟩
      · simp only [answer]
        exact .corrupt encoded
      · simp only [answer]
        exact .full encoded answer
      · simp only [answer]
        refine .queued (by simpa using off) ?_ encoded answer
        intro fd
        simpa [fd] using wrong

/-- A send that is refused changes nothing, whatever the reason. -/
theorem send_of_error {frame : Frame} {d : Device τ} {e : Error}
    (refused : (d.send frame).1 = .error e) :
    (e = .notOnBus ∨ (∃ fault, e = .invalidFrame fault) ∨ e = .ringFull ∨
        e = d.tx.ring.corruption) ∧
      (d.send frame).2 = d := by
  have outcome := d.send_outcome frame
  generalize d.send frame = result at refused outcome ⊢
  cases outcome with
  | notOnBus =>
      cases refused
      exact ⟨.inl rfl, rfl⟩
  | wrongMode =>
      cases refused
      exact ⟨.inr (.inl ⟨_, rfl⟩), rfl⟩
  | invalid =>
      cases refused
      exact ⟨.inr (.inl ⟨_, rfl⟩), rfl⟩
  | full =>
      cases refused
      exact ⟨.inr (.inr (.inl rfl)), rfl⟩
  | corrupt =>
      cases refused
      exact ⟨.inr (.inr (.inr rfl)), rfl⟩
  | queued => cases refused

/-- The message that takes the device off bus. -/
def leave : Bytes := (Message.busRequest false).toList

/-- How setting up a device ends: with the device still where it was, or off bus and set up in
part, or set up and on bus. -/
inductive SetUpOutcome (config : BusConfig) (capability : Capability) :
    List Call → Except Error BusTiming × Bool → Prop where
  | stayed {e : Error} : SetUpOutcome config capability [.send leave false] (.error e, false)
  | unsolved {e : Error} (failed : config.timing capability = .error e) :
      SetUpOutcome config capability [.send leave true] (.error e, true)
  | rejected {timing : BusTiming} {calls : List Call} {e : Error}
      (solved : config.timing capability = .ok timing)
      (sent : Sent (config.messages timing) calls (.error e)) :
      SetUpOutcome config capability (.send leave true :: calls) (.error e, true)
  | finished {timing : BusTiming} {calls : List Call}
      (solved : config.timing capability = .ok timing)
      (sent : Sent (config.messages timing) calls (.ok ())) :
      SetUpOutcome config capability (.send leave true :: calls) (.ok timing, true)

/-- A set-up that succeeds sends all its messages, and all of them are accepted. -/
theorem SetUpOutcome.calls_of_ok {config : BusConfig} {capability : Capability}
    {calls : List Call} {timing : BusTiming} {left : Bool}
    (ended : SetUpOutcome config capability calls (.ok timing, left)) :
    config.timing capability = .ok timing ∧
      calls = (leave :: config.messages timing).map (Call.send · true) := by
  cases ended with
  | finished solved sent =>
      cases sent with
      | all => exact ⟨solved, rfl⟩

/-- How configuring ends, with the calls it makes. -/
inductive ConfigureOutcome (config : BusConfig) (d : Device (Recorded τ)) :
    List Call → Except Error Unit × Device (Recorded τ) → Prop where
  | unsupported : ConfigureOutcome config d [] (.error .fdNotSupported, d)
  | noAccess {e : Error} {t : Recorded τ} :
      ConfigureOutcome config d [.acquire false] (.error e, { d with transport := t })
  | failed {calls : List Call} {e : Error} {left : Bool} {t : Recorded τ}
      (ended : SetUpOutcome config d.capability calls (.error e, left)) :
      ConfigureOutcome config d ([.acquire true] ++ calls ++ [.release])
        (.error e, { d with transport := t, onBus := d.onBus && !left })
  | configured {calls : List Call} {timing : BusTiming} {left : Bool} {t : Recorded τ}
      (ended : SetUpOutcome config d.capability calls (.ok timing, left)) :
      ConfigureOutcome config d ([.acquire true] ++ calls ++ [.release])
        (.ok (),
          { d with
            transport := t
            onBus := true
            fdMode := timing.data.isSome
            timing := some timing.nominal
            dataTiming := timing.data })

/-- How going off bus ends, with the calls it makes. -/
inductive StopOutcome (d : Device (Recorded τ)) :
    List Call → Except Error Unit × Device (Recorded τ) → Prop where
  | noAccess {e : Error} {t : Recorded τ} :
      StopOutcome d [.acquire false] (.error e, { d with transport := t })
  | stayed {e : Error} {t : Recorded τ} :
      StopOutcome d [.acquire true, .send leave false, .release]
        (.error e, { d with transport := t })
  | left {t : Recorded τ} :
      StopOutcome d [.acquire true, .send leave true, .release]
        (.ok (), { d with transport := t, onBus := false })

variable [Transport τ]

theorem configure_sides (config : BusConfig) (d : Device τ) :
    (d.configure config).2.sendSide = d.sendSide ∧
      (d.configure config).2.receiveSide = d.receiveSide := by
  rw [configure]
  repeat' split
  all_goals exact ⟨rfl, rfl⟩

theorem stop_sides (d : Device τ) :
    d.stop.2.sendSide = d.sendSide ∧ d.stop.2.receiveSide = d.receiveSide := by
  rw [stop]
  split
  all_goals exact ⟨rfl, rfl⟩

theorem setUp_outcome (config : BusConfig) (capability : Capability) (t : Recorded τ) :
    ∃ calls, (setUp config capability t).2.calls = t.calls ++ calls ∧
      SetUpOutcome config capability calls (setUp config capability t).1 := by
  have first : (Transport.send leave t).2.calls =
      t.calls ++ [.send leave (Transport.send leave t).1.isOk] := rfl
  rw [setUp, ← leave]
  generalize Transport.send leave t = answer at first
  obtain ⟨answer | _, after⟩ := answer
  · exact ⟨_, first, .stayed⟩
  · cases solved : config.timing capability with
    | error e =>
        simp only
        exact ⟨_, first, .unsolved solved⟩
    | ok timing =>
        obtain ⟨calls, more, sent⟩ := Recorded.sendAll_sent (config.messages timing) after
        simp only
        refine ⟨.send leave true :: calls, ?_, ?_⟩
        · rw [more, first, List.append_assoc]
          rfl
        · generalize (Transport.sendAll (config.messages timing) after).1 = answer at sent
          cases answer with
          | error e => exact .rejected solved sent
          | ok => exact .finished solved sent

theorem configure_outcome (config : BusConfig) (d : Device (Recorded τ)) :
    ∃ calls, (d.configure config).2.transport.calls = d.transport.calls ++ calls ∧
      ConfigureOutcome config d calls (d.configure config) := by
  rw [configure]
  by_cases unsupported : (config.isFd && !d.capability.supportsFd) = true
  · rw [if_pos unsupported]
    exact ⟨[], (List.append_nil _).symm, .unsupported⟩
  rw [if_neg unsupported]
  have access := Recorded.withAccess_calls (setUp config d.capability) d.transport
  generalize Transport.withAccess (setUp config d.capability) d.transport = answer at access
  obtain ⟨answer, after⟩ := answer
  rcases access with ⟨e, refused, made⟩ | ⟨held, taken, worked, made⟩
  · cases refused
    exact ⟨_, made, .noAccess⟩
  · obtain ⟨calls, more, ended⟩ := setUp_outcome config d.capability held
    cases worked
    have all : after.calls = d.transport.calls ++ ([.acquire true] ++ calls ++ [.release]) := by
      rw [made, more, taken]
      simp only [List.append_assoc]
    generalize (setUp config d.capability held).1 = result at ended
    obtain ⟨e | timing, left⟩ := result
    · exact ⟨_, all, .failed ended⟩
    · exact ⟨_, all, .configured ended⟩

theorem stop_outcome (d : Device (Recorded τ)) :
    ∃ calls, d.stop.2.transport.calls = d.transport.calls ++ calls ∧
      StopOutcome d calls d.stop := by
  rw [stop, ← leave]
  have access := Recorded.withAccess_calls (Transport.send leave) d.transport
  generalize Transport.withAccess (Transport.send leave) d.transport = answer at access
  obtain ⟨answer, after⟩ := answer
  rcases access with ⟨e, refused, made⟩ | ⟨held, taken, worked, made⟩
  · cases refused
    exact ⟨_, made, .noAccess⟩
  · have sent : (Transport.send leave held).2.calls =
        held.calls ++ [.send leave (Transport.send leave held).1.isOk] := rfl
    cases worked
    rw [sent, taken] at made
    generalize (Transport.send leave held).1 = result at made
    cases result with
    | error e => exact ⟨_, made.trans (by simp [Except.isOk, Except.toBool]), .stayed⟩
    | ok => exact ⟨_, made.trans (by simp [Except.isOk, Except.toBool]), .left⟩

end Device

end CanLink
