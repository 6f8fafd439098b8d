import CanLink.Proofs.Memory.Host

/-!
Names of shared memory over whole runs, on any system that keeps to POSIX. `Mappings` is the system
together with every handle so far; a run creates names, opens them and closes handles in any order.
From its creation on a name stands for the memory of the handle that was made, whatever becomes of
other names and of handles that only opened this one (`name_stands_for_last_creator`). This ends
when a handle that created the name is closed, be it the last one or an older one: closing such a
handle removes the name without a look at what it stands for (`older_creator_removes_name`).
-/

namespace CanLink

namespace View

/-- No two names stand for the same object. -/
def Apart (v : View) : Prop :=
  ∀ ⦃name other object⦄, v.named name = some object → v.named other = some object → name = other

/-- Both handles map the same object. -/
def SameMemory (v : View) (h g : Handle) : Prop :=
  ∃ object, v.mapped h.address = some ⟨object, h.size⟩ ∧
    v.mapped g.address = some ⟨object, g.size⟩

variable {v : View}

/-- An object that a name takes is the object of no other name. -/
theorem Takes.eq_of_named {name other : String} {object : Nat} (takes : v.Takes name object)
    (apart : v.Apart) (named : v.named other = some object) : other = name := by
  rcases takes with own | ⟨-, unused⟩
  · exact apart named own
  · exact absurd named (unused.named other)

namespace Apart

theorem link (apart : v.Apart) {name : String} {object : Nat} (takes : v.Takes name object) :
    (v.link name object).Apart := by
  intro first second shared one two
  simp only [View.link, Function.update_apply] at one two
  split at one
  · rename_i isFirst
    cases one
    split at two
    · rename_i isSecond
      rw [isFirst, isSecond]
    · rw [isFirst, takes.eq_of_named apart two]
  · split at two
    · rename_i isSecond
      cases two
      rw [isSecond, takes.eq_of_named apart one]
    · exact apart one two

theorem unlink (apart : v.Apart) (name? : Option String) : (v.unlink name?).Apart := by
  intro first second shared one two
  simp only [View.unlink] at one two
  split at one
  · cases one
  · split at two
    · cases two
    · exact apart one two

end Apart

/-- A name stands for an object, and the handle maps the whole of it. -/
structure Shows (v : View) (h : Handle) (name : String) (object : Nat) : Prop where
  named : v.named name = some object
  mapped : v.mapped h.address = some ⟨object, h.size⟩
  size : v.size object = h.size

namespace Shows

variable {h : Handle} {name other : String} {object number address : Nat}

/-- Where nothing is mapped, the handle is not mapped either. -/
theorem address_ne (shown : v.Shows h name object) (free : v.mapped address = none) :
    h.address ≠ address := by
  rintro rfl
  cases free.symm.trans shown.mapped

theorem link (shown : v.Shows h name object) (differ : name ≠ other) :
    (v.link other number).Shows h name object :=
  { shown with named := (Function.update_of_ne differ ..).trans shown.named }

theorem unlink (shown : v.Shows h name object) {name? : Option String}
    (differ : name? ≠ some name) : (v.unlink name?).Shows h name object :=
  { shown with named := (if_neg differ).trans shown.named }

theorem resize (shown : v.Shows h name object) (differ : object ≠ number) (size : Nat) :
    (v.resize number size).Shows h name object :=
  { shown with size := (Function.update_of_ne differ ..).trans shown.size }

theorem mapAt (shown : v.Shows h name object) (free : v.mapped address = none)
    (mapping : Mapping) : (v.mapAt address mapping).Shows h name object :=
  { shown with
    mapped := (Function.update_of_ne (shown.address_ne free) ..).trans shown.mapped }

theorem unmapAt (shown : v.Shows h name object) (differ : h.address ≠ address) :
    (v.unmapAt address).Shows h name object :=
  { shown with mapped := (Function.update_of_ne differ ..).trans shown.mapped }

end Shows

end View

/-- A system with the handles that map its objects. -/
structure Mappings (σ : Type) where
  system : σ
  /-- Every handle so far at its own position, none once it is closed. -/
  handles : List (Option Handle)

inductive MappingCall where
  | create (name : String) (capacity : UInt32)
  | openName (name : String) (capacity : UInt32)
  | close (position : Nat)
  deriving DecidableEq

namespace Mappings

section Runs

variable {σ : Type}

def start (system : σ) : Mappings σ := ⟨system, []⟩

/-- The open handle at a position. -/
def handle? (s : Mappings σ) (position : Nat) : Option Handle := s.handles[position]?.join

/-- A handle that was made takes the next position. -/
def add (s : Mappings σ) : Except Error Handle × σ → Mappings σ
  | (.error _, system) => { s with system }
  | (.ok h, system) => ⟨system, s.handles ++ [some h]⟩

variable [NamedMemory σ]

/-- Closing a handle that is not open does nothing. -/
def perform (s : Mappings σ) : MappingCall → Mappings σ
  | .create name capacity => s.add (Handle.create name capacity s.system)
  | .openName name capacity => s.add (Handle.openName name capacity s.system)
  | .close position =>
      match s.handle? position with
      | none => s
      | some h => ⟨h.close s.system, s.handles.set position none⟩

def run (calls : List MappingCall) (s : Mappings σ) : Mappings σ := calls.foldl perform s

end Runs

variable {σ : Type} [NamedMemory σ] (posix : Posix σ)

/-- The handle at a position is open and created a name that the system keeps as `kept`. -/
def Created (s : Mappings σ) (kept : String) (position : Nat) : Prop :=
  ∃ h, s.handle? position = some h ∧ posix.owned? h = some kept

instance (s : Mappings σ) (kept : String) (position : Nat) :
    Decidable (s.Created posix kept position) :=
  decidable_of_iff (∃ h ∈ s.handle? position, posix.owned? h = some kept) Iff.rfl

/-- What holds of the handles and the names at any time. -/
structure Sound (s : Mappings σ) : Prop where
  apart : (posix.view s.system).Apart
  /-- The mappings of open handles stay. -/
  mapped : ∀ {position h}, s.handle? position = some h →
    ∃ object, (posix.view s.system).mapped h.address = some ⟨object, h.size⟩
  /-- Each open handle has a mapping of its own. -/
  own : ∀ {position other h g}, s.handle? position = some h → s.handle? other = some g →
    h.address = g.address → position = other

/-- A name stands for the memory of the open handle at a position. -/
structure StandsFor (s : Mappings σ) (kept : String) (position : Nat) (h : Handle)
    (object : Nat) : Prop where
  isOpen : s.handle? position = some h
  shown : (posix.view s.system).Shows h kept object

/-- What a call does. -/
inductive PerformOutcome (s : Mappings σ) : MappingCall → Mappings σ → Prop where
  | created {name kept : String} {capacity : UInt32} {object : Nat} {h : Handle} {t : σ}
      (key : posix.kept? name = some kept) (takes : (posix.view s.system).Takes kept object)
      (free : (posix.view s.system).mapped h.address = none)
      (owns : posix.owned? h = some kept)
      (effect : posix.view t =
        ((((posix.view s.system).link kept object).resize object 0).resize object h.size).mapAt
          h.address ⟨object, h.size⟩) :
      PerformOutcome s (.create name capacity) ⟨t, s.handles ++ [some h]⟩
  | opened {name : String} {capacity : UInt32} {object : Nat} {h : Handle} {t : σ}
      (free : (posix.view s.system).mapped h.address = none) (owns : posix.owned? h = none)
      (effect : posix.view t = (posix.view s.system).mapAt h.address ⟨object, h.size⟩) :
      PerformOutcome s (.openName name capacity) ⟨t, s.handles ++ [some h]⟩
  | closed {position : Nat} {h : Handle} {t : σ} (isOpen : s.handle? position = some h)
      (effect : posix.view t =
        ((posix.view s.system).unmapAt h.address).unlink (posix.owned? h)) :
      PerformOutcome s (.close position) ⟨t, s.handles.set position none⟩
  | nothing {call : MappingCall} {t : σ} (same : posix.view t = posix.view s.system) :
      PerformOutcome s call ⟨t, s.handles⟩

variable {posix}

theorem perform_outcome {s : Mappings σ} (sound : s.Sound posix) (call : MappingCall) :
    PerformOutcome posix s call (s.perform call) := by
  cases call with
  | create name capacity =>
      have outcome := posix.create_outcome name capacity s.system
      rw [perform]
      generalize Handle.create name capacity s.system = result at outcome ⊢
      cases outcome with
      | refused unkept same => exact .nothing same
      | made key takes free effect =>
          have owns : posix.key name = some _ := posix.key_of_kept? key
          exact .created key takes free owns effect
  | openName name capacity =>
      have outcome := posix.openName_outcome name capacity s.system
      rw [perform]
      generalize Handle.openName name capacity s.system = result at outcome ⊢
      cases outcome with
      | refused unkept same => exact .nothing same
      | missing key unnamed same => exact .nothing same
      | small key named small same => exact .nothing same
      | mapped key named free effect => exact .opened free rfl effect
  | close position =>
      rw [perform]
      cases found : s.handle? position with
      | none => exact .nothing rfl
      | some h =>
          obtain ⟨object, mapped⟩ := sound.mapped found
          exact .closed found (posix.view_close mapped)

omit [NamedMemory σ] in
theorem handle?_concat (system : σ) (handles : List (Option Handle)) (h : Handle)
    (position : Nat) :
    handle? ⟨system, handles ++ [some h]⟩ position =
      if position = handles.length then some h else handles[position]?.join := by
  rw [handle?]
  rcases Nat.lt_trichotomy position handles.length with below | rfl | above
  · rw [List.getElem?_append_left below, if_neg (Nat.ne_of_lt below)]
  · rw [List.getElem?_concat_length, if_pos rfl]
    rfl
  · have past : (handles ++ [some h]).length ≤ position := by
      rw [List.length_append]
      exact above
    rw [List.getElem?_eq_none past, List.getElem?_eq_none (Nat.le_of_lt above),
      if_neg (Nat.ne_of_gt above)]

omit [NamedMemory σ] in
theorem handle?_set (system : σ) (handles : List (Option Handle)) (closed position : Nat) :
    handle? ⟨system, handles.set closed none⟩ position =
      if position = closed then none else handles[position]?.join := by
  rw [handle?]
  by_cases same : position = closed
  · subst same
    rw [if_pos rfl, List.getElem?_set_self']
    cases handles[position]? with
    | none => rfl
    | some => rfl
  · rw [if_neg same, List.getElem?_set_ne (Ne.symm same)]

omit [NamedMemory σ] in
theorem lt_length_of_handle? {s : Mappings σ} {position : Nat} {h : Handle}
    (isOpen : s.handle? position = some h) : position < s.handles.length := by
  rw [handle?, Option.join_eq_some_iff] at isOpen
  exact (List.getElem?_eq_some_iff.mp isOpen).1

/-! ### One call -/

namespace Sound

variable {s : Mappings σ}

theorem start {system : σ} (apart : (posix.view system).Apart) : (start system).Sound posix where
  apart := apart
  mapped isOpen := by cases isOpen
  own isOpen := by cases isOpen

/-- A handle is added whose mapping is where nothing was mapped. -/
theorem add (sound : s.Sound posix) {t : σ} {h : Handle} {object : Nat}
    (free : (posix.view s.system).mapped h.address = none) (apart : (posix.view t).Apart)
    (maps : (posix.view t).mapped = Function.update (posix.view s.system).mapped h.address
      (some ⟨object, h.size⟩)) :
    Sound posix ⟨t, s.handles ++ [some h]⟩ := by
  have elsewhere {position : Nat} {g : Handle} (isOpen : s.handle? position = some g) :
      g.address ≠ h.address := by
    intro same
    obtain ⟨_, mapped⟩ := sound.mapped isOpen
    rw [same, free] at mapped
    cases mapped
  refine { apart := apart, mapped := ?_, own := ?_ }
  · intro position g isOpen
    rw [handle?_concat] at isOpen
    split at isOpen
    · cases isOpen
      refine ⟨object, ?_⟩
      rw [maps, Function.update_self]
    · obtain ⟨shown, mapped⟩ := sound.mapped isOpen
      refine ⟨shown, ?_⟩
      rw [maps, Function.update_of_ne (elsewhere isOpen), mapped]
  · intro position other g k isOpen alsoOpen same
    rw [handle?_concat] at isOpen alsoOpen
    split at isOpen
    · rename_i last
      cases isOpen
      split at alsoOpen
      · rename_i too
        rw [last, too]
      · exact absurd same.symm (elsewhere alsoOpen)
    · split at alsoOpen
      · cases alsoOpen
        exact absurd same (elsewhere isOpen)
      · exact sound.own isOpen alsoOpen same

/-- A handle that is closed takes its own mapping with it and no other. -/
theorem close (sound : s.Sound posix) {position : Nat} {h : Handle} {t : σ}
    (isOpen : s.handle? position = some h)
    (effect : posix.view t = ((posix.view s.system).unmapAt h.address).unlink (posix.owned? h)) :
    Sound posix ⟨t, s.handles.set position none⟩ := by
  have before {other : Nat} {g : Handle}
      (after : handle? ⟨t, s.handles.set position none⟩ other = some g) :
      other ≠ position ∧ s.handle? other = some g := by
    rw [handle?_set] at after
    split at after
    · cases after
    · exact ⟨‹_›, after⟩
  refine { apart := ?_, mapped := ?_, own := ?_ }
  · rw [effect]
    exact View.Apart.unlink (v := (posix.view s.system).unmapAt h.address) sound.apart _
  · intro other g after
    obtain ⟨differ, stillOpen⟩ := before after
    obtain ⟨object, mapped⟩ := sound.mapped stillOpen
    have elsewhere : g.address ≠ h.address := fun same => differ (sound.own stillOpen isOpen same)
    refine ⟨object, ?_⟩
    rw [effect]
    exact (Function.update_of_ne elsewhere ..).trans mapped
  · intro first second g k one two same
    exact sound.own (before one).2 (before two).2 same

theorem perform (sound : s.Sound posix) (call : MappingCall) : (s.perform call).Sound posix := by
  have outcome := perform_outcome sound call
  generalize s.perform call = after at outcome
  cases outcome with
  | created key takes free owns effect =>
      have apart := sound.apart.link takes
      refine sound.add free ?_ (by rw [effect]; rfl)
      rw [effect]
      exact apart
  | opened free owns effect =>
      refine sound.add free ?_ (by rw [effect]; rfl)
      rw [effect]
      exact sound.apart
  | closed isOpen effect => exact sound.close isOpen effect
  | nothing same =>
      have view : posix.view _ = posix.view s.system := same
      exact
        { apart := by rw [view]; exact sound.apart
          mapped := fun isOpen => by rw [view]; exact sound.mapped isOpen
          own := sound.own }

end Sound

variable {s : Mappings σ}

/-- Only creating a name adds a handle that created it. -/
theorem Created.of_perform (sound : s.Sound posix) {call : MappingCall} {kept : String}
    {position : Nat} (created : (s.perform call).Created posix kept position)
    (other : ∀ name capacity, posix.kept? name = some kept → call ≠ .create name capacity) :
    s.Created posix kept position := by
  obtain ⟨h, isOpen, owns⟩ := created
  have outcome := perform_outcome sound call
  generalize s.perform call = after at outcome isOpen
  cases outcome with
  | created key takes free made effect =>
      rw [handle?_concat] at isOpen
      split at isOpen
      · cases isOpen
        rw [made] at owns
        cases owns
        exact absurd rfl (other _ _ key)
      · exact ⟨h, isOpen, owns⟩
  | opened free made effect =>
      rw [handle?_concat] at isOpen
      split at isOpen
      · cases isOpen
        rw [made] at owns
        cases owns
      · exact ⟨h, isOpen, owns⟩
  | closed =>
      rw [handle?_set] at isOpen
      split at isOpen
      · cases isOpen
      · exact ⟨h, isOpen, owns⟩
  | nothing => exact ⟨h, isOpen, owns⟩

/-- An open handle stays where it is until it is closed. -/
theorem handle?_perform (sound : s.Sound posix) {call : MappingCall} {position : Nat} {h : Handle}
    (isOpen : s.handle? position = some h) (spared : call ≠ .close position) :
    (s.perform call).handle? position = some h := by
  have inside := Nat.ne_of_lt (lt_length_of_handle? isOpen)
  have outcome := perform_outcome sound call
  generalize s.perform call = after at outcome
  cases outcome with
  | created => rwa [handle?_concat, if_neg inside]
  | opened => rwa [handle?_concat, if_neg inside]
  | @closed other =>
      have apart : position ≠ other := by
        rintro rfl
        exact spared rfl
      rwa [handle?_set, if_neg apart]
  | nothing => exact isOpen

/-- Creating a name adds a handle at the end and leaves the others alone. -/
theorem Created.of_create {name kept : String} {capacity : UInt32} {position : Nat}
    (created : (s.perform (.create name capacity)).Created posix kept position) :
    position = s.handles.length ∨ s.Created posix kept position := by
  obtain ⟨h, isOpen, owns⟩ := created
  rw [Mappings.perform] at isOpen
  generalize Handle.create name capacity s.system = result at isOpen
  rcases result with ⟨e | g, t⟩
  · exact .inr ⟨h, isOpen, owns⟩
  · rw [add, handle?_concat] at isOpen
    split at isOpen
    · exact .inl ‹_›
    · exact .inr ⟨h, isOpen, owns⟩

theorem Created.perform (sound : s.Sound posix) {kept : String} {position : Nat}
    (created : s.Created posix kept position) {call : MappingCall}
    (spared : call ≠ .close position) : (s.perform call).Created posix kept position := by
  obtain ⟨h, isOpen, owns⟩ := created
  exact ⟨h, handle?_perform sound isOpen spared, owns⟩

/-- A name keeps standing for the memory of a handle, unless it is created again, the handle is
closed or another one that created the name is. -/
theorem StandsFor.perform (sound : s.Sound posix) {kept : String} {position : Nat} {h : Handle}
    {object : Nat} (stands : s.StandsFor posix kept position h object) {call : MappingCall}
    (other : ∀ name capacity, posix.kept? name = some kept → call ≠ .create name capacity)
    (spared : call ≠ .close position)
    (alone : ∀ closed, call = .close closed → ¬ s.Created posix kept closed) :
    (s.perform call).StandsFor posix kept position h object := by
  have isOpen := handle?_perform sound stands.isOpen spared
  have outcome := perform_outcome sound call
  generalize s.perform call = after at outcome isOpen
  cases outcome with
  | @created name made capacity new g t key takes free owns effect =>
      have differ : kept ≠ made := by
        rintro rfl
        exact other name capacity key rfl
      have apart : object ≠ new := by
        rintro rfl
        exact differ (takes.eq_of_named sound.apart stands.shown.named)
      refine ⟨isOpen, ?_⟩
      rw [effect]
      exact (((stands.shown.link differ).resize apart 0).resize apart g.size).mapAt free _
  | opened free owns effect =>
      refine ⟨isOpen, ?_⟩
      rw [effect]
      exact stands.shown.mapAt free _
  | @closed closed g t isClosed effect =>
      have differ : h.address ≠ g.address := by
        intro same
        have one := sound.own stands.isOpen isClosed same
        exact spared (congrArg _ one.symm)
      have unowned : posix.owned? g ≠ some kept :=
        fun owns => alone closed rfl ⟨g, isClosed, owns⟩
      refine ⟨isOpen, ?_⟩
      rw [effect]
      exact (stands.shown.unmapAt differ).unlink unowned
  | nothing same =>
      refine ⟨isOpen, ?_⟩
      rw [same]
      exact stands.shown

/-- A name that stands for nothing does so until it is created again. -/
theorem named_perform_of_none (sound : s.Sound posix) {kept : String}
    (gone : (posix.view s.system).named kept = none) {call : MappingCall}
    (other : ∀ name capacity, posix.kept? name = some kept → call ≠ .create name capacity) :
    (posix.view (s.perform call).system).named kept = none := by
  have outcome := perform_outcome sound call
  generalize s.perform call = after at outcome
  cases outcome with
  | @created name made capacity new g t key takes free owns effect =>
      have differ : kept ≠ made := by
        rintro rfl
        exact other name capacity key rfl
      rw [effect]
      exact (Function.update_of_ne differ ..).trans gone
  | opened free owns effect =>
      rw [effect]
      exact gone
  | closed isClosed effect =>
      rw [effect]
      exact ite_eq_left_iff.mpr fun _ => gone
  | nothing same =>
      rw [same]
      exact gone

/-- Closing a handle that created a name leaves the name without memory. -/
theorem named_perform_close (sound : s.Sound posix) {kept : String} {position : Nat}
    (created : s.Created posix kept position) :
    (posix.view (s.perform (.close position)).system).named kept = none := by
  obtain ⟨h, isOpen, owns⟩ := created
  obtain ⟨object, mapped⟩ := sound.mapped isOpen
  rw [perform]
  simp only [isOpen]
  rw [posix.view_close mapped]
  exact if_pos owns

/-- A name is opened on the memory that it stands for. -/
theorem StandsFor.openName {kept : String} {position : Nat} {h : Handle} {object : Nat}
    (stands : s.StandsFor posix kept position h object) {name : String}
    (key : posix.kept? name = some kept) {wanted : UInt32}
    (fits : requiredSize wanted.toNat ≤ h.size) :
    ∃ opened t, Handle.openName name wanted s.system = (.ok opened, t) ∧
      opened.size = requiredSize wanted.toNat ∧ (posix.view t).SameMemory h opened ∧
      Handle.Passes t h opened ∧ Handle.Passes t opened h := by
  have outcome := posix.openName_outcome name wanted s.system
  generalize Handle.openName name wanted s.system = result at outcome ⊢
  cases outcome with
  | refused unkept =>
      rw [key] at unkept
      cases unkept
  | missing again unnamed =>
      cases key.symm.trans again
      cases unnamed.symm.trans stands.shown.named
  | small again named small =>
      cases key.symm.trans again
      cases named.symm.trans stands.shown.named
      rw [stands.shown.size] at small
      exact absurd fits (Nat.not_le_of_lt small)
  | @mapped _ _ address t again named free effect =>
      cases key.symm.trans again
      cases named.symm.trans stands.shown.named
      have after : (posix.view t).Shows h kept object := by
        rw [effect]
        exact stands.shown.mapAt free _
      have maps : (posix.view t).mapped address = some ⟨object, requiredSize wanted.toNat⟩ := by
        rw [effect]
        exact Function.update_self ..
      have whole : h.size ≤ (posix.view t).size object := Nat.le_of_eq after.size.symm
      have part : requiredSize wanted.toNat ≤ (posix.view t).size object := fits.trans whole
      refine ⟨⟨address, requiredSize wanted.toNat, name, false⟩, t, rfl, rfl,
        ⟨object, after.mapped, maps⟩, ?_, ?_⟩
      · exact posix.passes after.mapped maps whole part
      · exact posix.passes maps after.mapped part whole

/-! ### Runs -/

theorem sound_run (calls : List MappingCall) (sound : s.Sound posix) :
    (s.run calls).Sound posix := by
  induction calls generalizing s with
  | nil => exact sound
  | cons call rest ih => exact ih (sound.perform call)

theorem uncreated_cons {kept : String} {call : MappingCall} {rest : List MappingCall}
    (last : ∀ name capacity, posix.kept? name = some kept → .create name capacity ∉ call :: rest) :
    (∀ name capacity, posix.kept? name = some kept → call ≠ .create name capacity) ∧
      ∀ name capacity, posix.kept? name = some kept → .create name capacity ∉ rest := by
  refine ⟨?_, fun name capacity key member => ?_⟩
  · rintro name capacity key rfl
    exact last name capacity key List.mem_cons_self
  · exact last name capacity key (List.mem_cons_of_mem _ member)

/-- A name stands for the same memory after a run that does not create it again and closes no handle
that created it. -/
theorem StandsFor.run (sound : s.Sound posix) {kept : String} {position : Nat} {h : Handle}
    {object : Nat} (stands : s.StandsFor posix kept position h object) {calls : List MappingCall}
    (last : ∀ name capacity, posix.kept? name = some kept → .create name capacity ∉ calls)
    (spared : .close position ∉ calls)
    (alone : ∀ closed, .close closed ∈ calls → ¬ s.Created posix kept closed) :
    (s.run calls).StandsFor posix kept position h object := by
  induction calls generalizing s with
  | nil => exact stands
  | cons call rest ih =>
      obtain ⟨now, later⟩ := uncreated_cons last
      have unclosed : call ≠ .close position := by
        rintro rfl
        exact spared List.mem_cons_self
      have stays : (s.perform call).StandsFor posix kept position h object := by
        refine stands.perform sound now unclosed ?_
        rintro closed rfl
        exact alone closed List.mem_cons_self
      refine ih (sound.perform call) stays later (fun member => ?_) fun closed member created => ?_
      · exact spared (List.mem_cons_of_mem _ member)
      · exact alone closed (List.mem_cons_of_mem _ member) (created.of_perform sound now)

theorem named_run_of_none (sound : s.Sound posix) {kept : String}
    (gone : (posix.view s.system).named kept = none) {calls : List MappingCall}
    (last : ∀ name capacity, posix.kept? name = some kept → .create name capacity ∉ calls) :
    (posix.view (s.run calls).system).named kept = none := by
  induction calls generalizing s with
  | nil => exact gone
  | cons call rest ih =>
      obtain ⟨now, later⟩ := uncreated_cons last
      exact ih (sound.perform call) (named_perform_of_none sound gone now) later

/-- A run that closes a handle that created a name leaves the name without memory, unless it creates
the name again. -/
theorem named_run_of_closed (sound : s.Sound posix) {kept : String} {position : Nat}
    (created : s.Created posix kept position) {calls : List MappingCall}
    (closed : .close position ∈ calls)
    (last : ∀ name capacity, posix.kept? name = some kept → .create name capacity ∉ calls) :
    (posix.view (s.run calls).system).named kept = none := by
  induction calls generalizing s with
  | nil => cases closed
  | cons call rest ih =>
      obtain ⟨-, later⟩ := uncreated_cons last
      by_cases now : call = .close position
      · subst now
        have gone := named_perform_close sound created
        exact named_run_of_none (sound.perform _) gone later
      · refine ih (sound.perform call) (created.perform sound now) ?_ later
        exact (List.mem_cons.mp closed).resolve_left (Ne.symm now)

theorem run_cons (before after : List MappingCall) (call : MappingCall) (s : Mappings σ) :
    s.run (before ++ call :: after) = ((s.run before).perform call).run after :=
  List.foldl_append

/-- A name that was just created stands for the memory of the handle that was made. -/
theorem StandsFor.of_create {name kept : String} (key : posix.kept? name = some kept)
    {capacity : UInt32} {h : Handle}
    (made : (Handle.create name capacity s.system).1 = .ok h) :
    ∃ object,
      (s.perform (.create name capacity)).StandsFor posix kept s.handles.length h object := by
  have outcome := posix.create_outcome name capacity s.system
  rw [Mappings.perform]
  generalize Handle.create name capacity s.system = result at outcome made ⊢
  cases outcome with
  | refused => cases made
  | @made _ object address t again takes free effect =>
      cases made
      cases key.symm.trans again
      refine ⟨object, ?_, ?_, ?_, ?_⟩
      · exact (handle?_concat ..).trans (if_pos rfl)
      · rw [add, effect]
        exact Function.update_self ..
      · rw [add, effect]
        exact Function.update_self ..
      · rw [add, effect]
        exact Function.update_self ..

/-- A name stands for the memory of the handle that created it last, as long as neither this handle
is closed nor one that created the name before. Handles that only opened the name, handles of other
names, and older creations of the name that were closed in time make no difference: the name can be
opened for any ring that fits, and what is stored through either handle is loaded through the
other. Names that the system keeps as the same name count as one; to begin with, no two of those
that it keeps stand for the same object. -/
theorem name_stands_for_last_creator {system : σ} (apart : (posix.view system).Apart)
    (before after : List MappingCall) {name kept : String} (key : posix.kept? name = some kept)
    {capacity wanted : UInt32} {h : Handle}
    (made : (Handle.create name capacity ((start system).run before).system).1 = .ok h)
    (last : ∀ again capacity, posix.kept? again = some kept → .create again capacity ∉ after)
    (isOpen : .close ((start system).run before).handles.length ∉ after)
    (alone : ∀ position, .close position ∈ after →
      ¬ ((start system).run before).Created posix kept position)
    (fits : requiredSize wanted.toNat ≤ h.size) :
    ∃ opened t,
      Handle.openName name wanted
          ((start system).run (before ++ .create name capacity :: after)).system = (.ok opened, t) ∧
        opened.size = requiredSize wanted.toNat ∧ (posix.view t).SameMemory h opened ∧
        Handle.Passes t h opened ∧ Handle.Passes t opened h := by
  have sound : ((start system).run before).Sound posix := sound_run before (.start apart)
  obtain ⟨object, stands⟩ := StandsFor.of_create key made
  rw [run_cons]
  refine (stands.run (sound.perform _) last isOpen fun position member created => ?_).openName
    key fits
  -- Of the handles that created the name by now, the last one stays open as well.
  rcases created.of_create with rfl | older
  · exact isOpen member
  · exact alone position member older

theorem apart_empty : (Host.posix.view .empty).Apart := by
  intro name other object found
  cases found

/-- Calls before a name is created for the third time. Of the two handles that created it so far one
is closed; a third handle opened it, and a fourth one created another name. -/
def beforeThird : List MappingCall :=
  [.create "/rx" 4, .close 0, .create "rx" 4, .openName "/rx" 4, .create "/tx" 1]

/-- Calls after that, which create another name and close all handles but the two that created the
name last. -/
def afterThird : List MappingCall :=
  [.openName "rx" 2, .create "/ty" 1, .close 2, .close 3, .close 5, .close 6, .close 0]

theorem name_stands_for_third_creator :
    (Handle.create "/rx" 2 ((start Host.empty).run beforeThird).system).1 =
        .ok ⟨16384, 168, "/rx", true⟩ ∧
      ((start Host.empty).run beforeThird).Created Host.posix "rx" 1 ∧
      (∀ position, .close position ∈ afterThird →
        ¬ ((start Host.empty).run beforeThird).Created Host.posix "rx" position) ∧
      ∃ opened t,
        Handle.openName "/rx" 1
            ((start Host.empty).run (beforeThird ++ .create "/rx" 2 :: afterThird)).system =
            (.ok opened, t) ∧
          t.view.SameMemory ⟨16384, 168, "/rx", true⟩ opened := by
  have made : (Handle.create "/rx" 2 ((start Host.empty).run beforeThird).system).1 =
      .ok ⟨16384, 168, "/rx", true⟩ := by
    rfl
  have last : ∀ again capacity, Host.posix.kept? again = some "rx" →
      .create again capacity ∉ afterThird := by
    intro again capacity key member
    have other : again = "/ty" ∧ capacity = 1 := by
      simpa [afterThird] using member
    rw [other.1] at key
    revert key
    decide +kernel
  have alone : ∀ position, .close position ∈ afterThird →
      ¬ ((start Host.empty).run beforeThird).Created Host.posix "rx" position := by
    intro position member
    have listed : position = 2 ∨ position = 3 ∨ position = 5 ∨ position = 6 ∨ position = 0 := by
      simpa [afterThird] using member
    rcases listed with rfl | rfl | rfl | rfl | rfl
    all_goals decide +kernel
  obtain ⟨opened, t, found, -, same, -⟩ :=
    name_stands_for_last_creator apart_empty beforeThird afterThird
      (show Host.posix.kept? "/rx" = some "rx" by decide +kernel) made last
      (by decide +kernel) alone (show requiredSize (1 : UInt32).toNat ≤ 168 by decide)
  exact ⟨made, by decide +kernel, alone, opened, t, found, same⟩

/-- Closing an older handle that created a name takes the name away from the handle that created it
last, until it is created again. -/
theorem older_creator_removes_name {system : σ} (apart : (posix.view system).Apart)
    (before after : List MappingCall) {name kept : String} (key : posix.kept? name = some kept)
    (capacity wanted : UInt32)
    (last : ∀ again capacity, posix.kept? again = some kept → .create again capacity ∉ after)
    {position : Nat} (older : ((start system).run before).Created posix kept position)
    (closed : .close position ∈ after) :
    (Handle.openName name wanted
        ((start system).run (before ++ .create name capacity :: after)).system).1 =
      .error (.mapping (.system .noSuchFile)) := by
  have sound : ((start system).run before).Sound posix := sound_run before (.start apart)
  have still : (((start system).run before).perform (.create name capacity)).Created
      posix kept position := older.perform sound nofun
  have gone := named_run_of_closed (sound.perform _) still closed last
  rw [run_cons]
  generalize (((start system).run before).perform (.create name capacity)).run after = final
    at gone ⊢
  have outcome := posix.openName_outcome name wanted final.system
  generalize Handle.openName name wanted final.system = result at outcome ⊢
  cases outcome with
  | refused unkept => cases key.symm.trans unkept
  | missing => rfl
  | small again named =>
      cases key.symm.trans again
      cases named.symm.trans gone
  | mapped again named =>
      cases key.symm.trans again
      cases named.symm.trans gone

/-- A name can be gone while the handle that created it last is open: two servers create the name,
and the first one closes its handle. -/
theorem last_creator_loses_name :
    ¬ ∀ (σ : Type) (_ : NamedMemory σ) (posix : Posix σ) (system : σ),
      (posix.view system).Apart →
      ∀ (before after : List MappingCall) (name kept : String) (capacity wanted : UInt32)
        (h : Handle),
        posix.kept? name = some kept →
        (Handle.create name capacity ((start system).run before).system).1 = .ok h →
        (∀ again capacity, posix.kept? again = some kept → .create again capacity ∉ after) →
        .close ((start system).run before).handles.length ∉ after →
        requiredSize wanted.toNat ≤ h.size →
        ∃ opened t,
          Handle.openName name wanted
              ((start system).run (before ++ .create name capacity :: after)).system =
              (.ok opened, t) ∧
            (posix.view t).SameMemory h opened := by
  intro usable
  obtain ⟨opened, t, found, -⟩ := usable Host inferInstance Host.posix .empty apart_empty
    [.create "/rx" 2] [.close 0] "/rx" "rx" 2 2 ⟨8192, 168, "/rx", true⟩
    (by decide +kernel) (by rfl) (by simp) (by decide +kernel) (by decide)
  have refused : (Handle.openName "/rx" 2 ((start Host.empty).run
      [.create "/rx" 2, .create "/rx" 2, .close 0]).system).1 =
      .error (.mapping (.system .noSuchFile)) := by
    rfl
  have answer := congrArg Prod.fst found
  cases answer.symm.trans refused

end Mappings
end CanLink
