import CanLink.Proofs.Device.Transmission

/-!
Frames on a bus whose mode changed. A client refuses to send a CAN-FD frame on a classic bus, but a
frame that is queued stays queued: neither going off bus nor configuring another bus takes it back
from the transmit ring. So the refusal alone does not keep CAN-FD frames off a classic bus.
A period begins with a successful configuration and lasts until the next one; within it the mode is
fixed (`Period.mode`), and what it adds to the ring suits the mode. CAN-FD frames on a classic bus
are therefore left over from before the period (`Reachable.fd_frames_left_over`), and they do occur
(`fd_frame_on_classic_bus`).
-/

namespace CanLink

/-- The slot carries a frame in CAN-FD format. -/
def Slot.isFd : Slot → Bool
  | rx s | tx s => hasFlag s.flags FrameFlag.fd
  | _ => false

/-- The result of work done with access held is the result of the work. -/
theorem Transport.of_withAccess {τ α : Type} [Transport τ] {work : τ → α × τ} {t : τ} {result : α}
    (worked : (withAccess work t).1 = .ok result) : ∃ held, (work held).1 = result := by
  rw [withAccess] at worked
  split at worked
  · cases worked
  · cases worked
  · cases worked
    exact ⟨_, rfl⟩

namespace Device

variable {τ : Type}

/-- The mode stays, and the client is on no bus that it was not on before. -/
structure Stays (before after : Device τ) : Prop where
  mode : after.fdMode = before.fdMode
  bus : after.onBus = true → before.onBus = true

theorem Stays.of_view {before after : Device τ} (same : after.busView = before.busView) :
    before.Stays after := by
  obtain ⟨bus, mode, -, -⟩ := BusView.mk.inj same
  exact ⟨mode, fun on => bus ▸ on⟩

variable [Transport τ]

theorem timing_of_setUp {config : BusConfig} {capability : Capability} {t : τ}
    {timing : BusTiming} (succeeded : (setUp config capability t).1.1 = .ok timing) :
    config.timing capability = .ok timing := by
  rw [setUp] at succeeded
  split at succeeded
  · cases succeeded
  · split at succeeded
    · cases succeeded
    · rename_i after _ _ found solved
      generalize Transport.sendAll (config.messages found) after = result at succeeded
      obtain ⟨e | _, after⟩ := result
      · cases succeeded
      · cases succeeded
        exact solved

/-- A call that sets the bus up anew. -/
def SetsUp (d : Device τ) : ClientCall → Prop
  | .configure config => (d.configure config).1 = .ok ()
  | _ => False

theorem configure_mode (config : BusConfig) (d : Device τ) :
    ((d.configure config).1 = .ok () ∧ (d.configure config).2.fdMode = config.isFd) ∨
      (d.configure config).1 ≠ .ok () ∧ d.Stays (d.configure config).2 := by
  rw [configure]
  split
  · exact .inr ⟨by simp, rfl, id⟩
  · split
    · exact .inr ⟨by simp, rfl, id⟩
    · refine .inr ⟨by simp, rfl, fun on => ?_⟩
      exact (Bool.and_eq_true_iff.mp on).1
    · rename_i timing left transport worked
      obtain ⟨held, set⟩ := Transport.of_withAccess (congrArg Prod.fst worked)
      have solved := timing_of_setUp (congrArg Prod.fst set)
      exact .inl ⟨rfl, BusConfig.timing_isFd solved⟩

theorem stop_stays (d : Device τ) : d.Stays d.stop.2 := by
  rw [stop]
  split
  · exact ⟨rfl, id⟩
  · exact ⟨rfl, id⟩
  · exact ⟨rfl, fun on => absurd on Bool.false_ne_true⟩

end Device

/-- What is queued for the first of some sends is known from these, and the rest is queued for the
others. -/
theorem Sending.queued_append {first more : List Sending} {before slots : List Slot}
    (early : List.Forall₂ Queued first before)
    (queued : List.Forall₂ Queued (first ++ more) slots) :
    ∃ rest, slots = before ++ rest ∧ List.Forall₂ Queued more rest := by
  induction early generalizing slots with
  | nil => exact ⟨slots, rfl, queued⟩
  | cons this _ ih =>
      cases queued with
      | cons that later =>
          obtain ⟨s, encoded, rfl, -⟩ := this
          obtain ⟨s', again, rfl, -⟩ := that
          cases encoded.symm.trans again
          obtain ⟨rest, rfl, others⟩ := ih later
          exact ⟨rest, rfl, others⟩

/-- Every slot was queued for some send. -/
theorem Sending.exists_queued {sent : List Sending} {slots : List Slot}
    (queued : List.Forall₂ Queued sent slots) {slot : Slot} (member : slot ∈ slots) :
    ∃ a ∈ sent, a.Queued slot := by
  induction queued with
  | nil => cases member
  | @cons a first sent slots this _ ih =>
      rcases List.mem_cons.mp member with rfl | later
      · exact ⟨a, List.mem_cons_self, this⟩
      · obtain ⟨b, among, rest⟩ := ih later
        exact ⟨b, List.mem_cons_of_mem a among, rest⟩

theorem Sending.Queued.fdMode {a : Sending} {slot : Slot} (queued : a.Queued slot)
    (fd : slot.isFd = true) : a.fdMode = true := by
  obtain ⟨s, -, rfl, mode⟩ := queued
  exact mode fd

namespace Transmission

variable {τ : Type}

theorem InStep.pending {t : Transmission τ} (h : InStep t) :
    List.Forall₂ Sending.Queued t.sent (t.drained ++ t.pending) := by
  obtain ⟨q, represented, queued⟩ := h.queue
  rw [Transmission.pending, represented.pending_eq]
  exact queued

/-- As long as the bus is not set up anew its mode stays, and the frames sent are sent in it. -/
structure Period (base t : Transmission τ) : Prop where
  mode : t.device.fdMode = base.device.fdMode
  sent : ∃ added, t.sent = base.sent ++ added ∧ ∀ a ∈ added, a.fdMode = base.device.fdMode
  drained : base.drained <+: t.drained

namespace Period

variable {base t : Transmission τ}

theorem here (base : Transmission τ) : Period base base where
  mode := rfl
  sent := ⟨[], (List.append_nil _).symm, fun _ member => nomatch member⟩
  drained := List.prefix_rfl

/-- What sends nothing and leaves the mode alone goes on with the period. -/
theorem of_stays (h : Period base t) {d : Device τ} (stays : t.device.Stays d) :
    Period base { t with device := d } :=
  ⟨stays.mode.trans h.mode, h.sent, h.drained⟩

theorem send (h : Period base t) (frame : Frame) : Period base (t.send frame) := by
  have stays := Device.Stays.of_view (t.device.send_view frame).2
  rw [Transmission.send]
  generalize t.device.send frame = result at stays
  obtain ⟨e | number, d⟩ := result
  · exact h.of_stays stays
  · obtain ⟨added, sent, modes⟩ := h.sent
    refine ⟨stays.mode.trans h.mode, ⟨added ++ [⟨frame, number, t.device.fdMode⟩], ?_, ?_⟩,
      h.drained⟩
    · simp only [sent, List.append_assoc]
    · intro a member
      rcases List.mem_append.mp member with earlier | last
      · exact modes a earlier
      · rw [List.mem_singleton.mp last]
        exact h.mode

theorem serve (h : Period base t) (call : ServerCall) : Period base (t.serve call) :=
  ⟨h.mode, h.sent, h.drained.trans (List.prefix_append ..)⟩

/-- What a period finds in the transmit ring stays in front of what it adds, and what it adds suits
its mode. -/
theorem pending (h : Period base t) (before : InStep base) (after : InStep t) :
    ∃ since gone left added, t.sent = base.sent ++ since ∧
      List.Forall₂ Sending.Queued since (gone ++ added) ∧
      t.pending = left ++ added ∧ left <:+ base.pending ∧
      ∀ slot ∈ gone ++ added, slot.isFd = true → base.device.fdMode = true := by
  obtain ⟨since, sent, modes⟩ := h.sent
  obtain ⟨taken, drained⟩ := h.drained
  have queued := after.pending
  rw [sent, ← drained] at queued
  obtain ⟨rest, whole, others⟩ := Sending.queued_append before.pending queued
  have suits : ∀ slot ∈ rest, slot.isFd = true → base.device.fdMode = true := by
    intro slot member fd
    obtain ⟨a, among, this⟩ := Sending.exists_queued others member
    rw [← modes a among]
    exact this.fdMode fd
  rw [List.append_assoc, List.append_assoc, List.append_cancel_left_eq] at whole
  -- The server is still at what the period found, or it is past that.
  rcases List.append_eq_append_iff.mp whole with ⟨left, found, kept⟩ | ⟨gone, -, coming⟩
  · exact ⟨since, [], left, rest, sent, others, kept, ⟨taken, found.symm⟩, suits⟩
  · rw [coming] at others suits
    exact ⟨since, gone, [], t.pending, sent, others, rfl, List.nil_suffix, suits⟩

end Period

variable [Transport τ]

/-- The states of a run since `base`, as long as the bus is not set up anew. -/
inductive Since (base : Transmission τ) : Transmission τ → Prop where
  | here : Since base base
  | perform {t : Transmission τ} (before : Since base t) {call : ClientCall}
      (kept : ¬ t.device.SetsUp call) : Since base (t.perform call)
  | serve {t : Transmission τ} (before : Since base t) (call : ServerCall) :
      Since base (t.serve call)
  | interlude {t : Transmission τ} (before : Since base t) (transport : τ) (rx : Channel)
      (wake : Wake) : Since base (t.interlude transport rx wake)

/-- Configuring takes nothing back that is queued. -/
theorem pending_configure (t : Transmission τ) (config : BusConfig) :
    (t.perform (.configure config)).pending = t.pending := by
  have side := (t.device.configure_sides config).1
  rw [pending, pending, ring, ring]
  exact congrArg (fun side : SendSide => (⟨side.tx.ring, t.server⟩ : RingUse).pending) side

theorem perform_stays {t : Transmission τ} {call : ClientCall} (kept : ¬ t.device.SetsUp call) :
    t.device.Stays (t.perform call).device := by
  cases call with
  | configure config =>
      rcases t.device.configure_mode config with ⟨anew, -⟩ | ⟨-, stays⟩
      · exact absurd anew kept
      · exact stays
  | stop => exact t.device.stop_stays
  | send frame =>
      have stays := Device.Stays.of_view (t.device.send_view frame).2
      rw [perform, send]
      generalize t.device.send frame = result at stays
      obtain ⟨e | number, d⟩ := result
      · exact stays
      · exact stays
  | receive => exact .of_view t.device.receive_view.2
  | read meanwhile => exact .of_view (t.device.read_view meanwhile).2
  | resetRx => exact .of_view t.device.resetRx_view.2

theorem Period.perform {base t : Transmission τ} (h : Period base t) {call : ClientCall}
    (kept : ¬ t.device.SetsUp call) : Period base (t.perform call) := by
  cases call with
  | send frame => exact h.send frame
  | configure config => exact h.of_stays (perform_stays kept)
  | stop => exact h.of_stays (perform_stays kept)
  | receive => exact h.of_stays (perform_stays kept)
  | read meanwhile => exact h.of_stays (perform_stays kept)
  | resetRx => exact h.of_stays (perform_stays kept)

theorem Since.period {base t : Transmission τ} (since : Since base t) : Period base t := by
  induction since with
  | here => exact .here base
  | perform _ kept ih => exact ih.perform kept
  | serve _ call ih => exact ih.serve call
  | interlude _ transport rx wake ih => exact ih.of_stays ⟨rfl, id⟩

/-- A client that is on bus is in the period of some successful configuration. -/
theorem Reachable.configured {t : Transmission τ} (reachable : Reachable t)
    (on : t.device.onBus = true) :
    ∃ (base : Transmission τ) (config : BusConfig), Reachable base ∧
      (base.device.configure config).1 = .ok () ∧
      Since (base.perform (.configure config)) t := by
  induction reachable with
  | start => cases on
  | @perform t before call ih =>
      by_cases anew : t.device.SetsUp call
      · cases call with
        | configure config => exact ⟨t, config, before, anew, .here⟩
        | _ => exact absurd anew id
      · obtain ⟨base, config, reached, succeeded, since⟩ := ih ((perform_stays anew).bus on)
        exact ⟨base, config, reached, succeeded, since.perform anew⟩
  | serve before call ih =>
      obtain ⟨base, config, reached, succeeded, since⟩ := ih on
      exact ⟨base, config, reached, succeeded, since.serve call⟩
  | interlude before transport rx wake ih =>
      obtain ⟨base, config, reached, succeeded, since⟩ := ih on
      exact ⟨base, config, reached, succeeded, since.interlude transport rx wake⟩

/-- CAN-FD frames on a classic bus are left over from another one. In every state in which a client
is on a classic bus, no slot that it queued since the bus was set up carries a CAN-FD frame, whether
the server took it out or not. A slot that does and is pending was pending when the bus was set up,
and was queued while the client was on a CAN-FD bus. -/
theorem Reachable.fd_frames_left_over {t : Transmission τ} (reachable : Reachable t)
    (on : t.device.onBus = true) (classic : t.device.fdMode = false) :
    ∃ (base : Transmission τ) (config : BusConfig), Reachable base ∧
      config.isFd = false ∧ (base.device.configure config).1 = .ok () ∧
      Since (base.perform (.configure config)) t ∧
      (∃ since gone left added, t.sent = base.sent ++ since ∧
        List.Forall₂ Sending.Queued since (gone ++ added) ∧
        t.pending = left ++ added ∧ left <:+ base.pending ∧
        ∀ slot ∈ gone ++ added, slot.isFd = false) ∧
      ∀ slot ∈ t.pending, slot.isFd = true →
        slot ∈ base.pending ∧ ∃ a ∈ base.sent, a.Queued slot ∧ a.fdMode = true := by
  obtain ⟨base, config, reached, succeeded, since⟩ := reachable.configured on
  have period := since.period
  have mode : (base.perform (.configure config)).device.fdMode = false :=
    period.mode.symm.trans classic
  have standard : config.isFd = false := by
    rcases base.device.configure_mode config with ⟨-, set⟩ | ⟨failed, -⟩
    · exact set.symm.trans mode
    · exact absurd succeeded failed
  obtain ⟨more, gone, left, added, sent, queued, pending, found, suits⟩ :=
    period.pending (reached.inStep.perform _) reachable.inStep
  rw [pending_configure] at found
  have plain : ∀ slot ∈ gone ++ added, slot.isFd = false := by
    intro slot member
    by_contra fd
    exact absurd (suits slot member (Bool.eq_true_of_not_eq_false fd)) (by simp [mode])
  refine ⟨base, config, reached, standard, succeeded, since,
    ⟨more, gone, left, added, sent, queued, pending, found, plain⟩, ?_⟩
  intro slot member fd
  rw [pending] at member
  rcases List.mem_append.mp member with old | new
  · have waiting := found.subset old
    obtain ⟨a, among, this⟩ :=
      Sending.exists_queued reached.inStep.pending (List.mem_append_right _ waiting)
    exact ⟨waiting, a, among, this, this.fdMode fd⟩
  · exact absurd fd (by simp [plain slot (List.mem_append_right gone new)])

/-- A client that sends a frame on a CAN-FD bus and goes over to a classic bus, where it sends
another. In between the server begins to drain the ring. -/
def changedOver : Transmission Script :=
  let opened : Transmission Script :=
    start ⟨false, none, none, [], none⟩ (Device.controllerCapability.withFeatures Feature.fd)
      ⟨Ring.aboutToWrap, .never⟩ ⟨Ring.aboutToWrap, .event false⟩
  let sent := [.configure (.fd 500000 2000000), .send (.fd 0x123 [1, 2, 3] true)].foldl perform
    opened
  [.configure .standard, .send (.classic 0x7FF [4])].foldl perform (sent.serve .drain)

theorem reachable_changedOver : Reachable changedOver := by
  rw [changedOver]
  refine List.foldlRecOn _ _ (.serve ?_ .drain) fun t reached call _ => reached.perform call
  refine List.foldlRecOn _ _ ?_ fun t reached call _ => reached.perform call
  exact .start _ _ _ _ Ring.aboutToWrap_empty

theorem changedOver_pending :
    changedOver.device.onBus = true ∧ changedOver.device.fdMode = false ∧
      changedOver.pending.map Slot.isFd = [true, false] := by
  decide +kernel

theorem fd_frame_left_over_from_fd_bus :
    changedOver.device.onBus = true ∧ changedOver.device.fdMode = false ∧
      changedOver.pending.map Slot.isFd = [true, false] ∧
      ∃ (base : Transmission Script) (config : BusConfig), config.isFd = false ∧
        Since (base.perform (.configure config)) changedOver ∧
        ∃ slot ∈ base.pending, slot.isFd = true ∧ ∃ a ∈ base.sent, a.fdMode = true := by
  obtain ⟨on, classic, flags⟩ := changedOver_pending
  obtain ⟨base, config, -, standard, -, since, -, leftOver⟩ :=
    reachable_changedOver.fd_frames_left_over on classic
  obtain ⟨slot, member, fd⟩ : ∃ slot ∈ changedOver.pending, slot.isFd = true := by
    rw [← List.mem_map, flags]
    exact List.mem_cons_self
  obtain ⟨waiting, a, among, -, mode⟩ := leftOver slot member fd
  exact ⟨on, classic, flags, base, config, standard, since, slot, waiting, fd, a, among, mode⟩

/-- A CAN-FD frame may be pending on a classic bus. -/
theorem fd_frame_on_classic_bus :
    ¬ ∀ (τ : Type) [Transport τ] (t : Transmission τ), Reachable t → t.device.onBus = true →
      t.device.fdMode = false → ∀ slot ∈ t.pending, slot.isFd = false := by
  intro kept
  obtain ⟨on, classic, flags⟩ := changedOver_pending
  have plain := kept Script changedOver reachable_changedOver on classic
  have none : true ∉ changedOver.pending.map Slot.isFd := by
    rw [List.mem_map]
    rintro ⟨slot, member, fd⟩
    exact absurd fd (by simp [plain slot member])
  exact none (flags ▸ List.mem_cons_self)

end Transmission

end CanLink
