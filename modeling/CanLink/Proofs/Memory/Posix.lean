import CanLink.Memory.Host
import Mathlib.Logic.Function.Basic

/-!
Systems that keep to POSIX, and what handles come to on them. `View` is what counts of the state of
a system: the objects that names, descriptors and mappings stand for, and what the objects hold.
`Posix` says what each call does to it. A name maps to an object; opening a name makes the object or
empties it in place; removing a name leaves mappings alone; and no call fails but for a name that is
missing or that the system does not take. Creating, opening and closing a handle are then one step
on the view each (`create_outcome`, `openName_outcome`, `view_close`), whichever calls they are made
of.
-/

namespace CanLink

theorem requiredSize_pos (capacity : Nat) : 0 < requiredSize capacity :=
  Nat.add_pos_left (by decide) _

/-- What a system keeps of named memory. -/
@[ext]
structure View where
  /-- The objects of names, by the name that the system keeps. -/
  named : String → Option Nat
  /-- The objects of open descriptors. -/
  opened : Nat → Option Nat
  /-- The mappings, by address. -/
  mapped : Nat → Option Mapping
  /-- Sizes of objects. -/
  size : Nat → Nat
  /-- Bytes of objects. -/
  byte : Nat → Nat → UInt8

namespace View

def link (v : View) (name : String) (object : Nat) : View :=
  { v with named := Function.update v.named name (some object) }

/-- Removes a name, if there is one to remove. -/
def unlink (v : View) (name? : Option String) : View :=
  { v with named := fun name => if name? = some name then none else v.named name }

def openAt (v : View) (descriptor object : Nat) : View :=
  { v with opened := Function.update v.opened descriptor (some object) }

def closeAt (v : View) (descriptor : Nat) : View :=
  { v with opened := Function.update v.opened descriptor none }

def mapAt (v : View) (address : Nat) (mapping : Mapping) : View :=
  { v with mapped := Function.update v.mapped address (some mapping) }

def unmapAt (v : View) (address : Nat) : View :=
  { v with mapped := Function.update v.mapped address none }

/-- Gives an object a new size. Bytes beyond it are lost, and new ones are zero. -/
def resize (v : View) (object size : Nat) : View :=
  { v with
    size := Function.update v.size object size
    byte := Function.update v.byte object fun i => if i < size then v.byte object i else 0 }

def store (v : View) (object offset : Nat) (data : Bytes) : View :=
  { v with
    byte := Function.update v.byte object fun i =>
      if offset ≤ i ∧ i < offset + data.length then data[i - offset]?.getD 0
      else v.byte object i }

/-- No name, no descriptor and no mapping stands for the object. -/
structure Unused (v : View) (object : Nat) : Prop where
  named : ∀ name, v.named name ≠ some object
  opened : ∀ descriptor, v.opened descriptor ≠ some object
  mapped : ∀ {address mapping}, v.mapped address = some mapping → mapping.object ≠ object

/-- The object of a name, or one of its own if there is none. -/
def Takes (v : View) (name : String) (object : Nat) : Prop :=
  v.named name = some object ∨ v.named name = none ∧ v.Unused object

theorem closeAt_openAt {v : View} {descriptor : Nat} (free : v.opened descriptor = none)
    (object : Nat) : (v.openAt descriptor object).closeAt descriptor = v := by
  have opened : Function.update (Function.update v.opened descriptor (some object))
      descriptor none = v.opened := by
    rw [Function.update_idem, ← free, Function.update_eq_self]
  exact View.ext rfl opened rfl rfl rfl

theorem unlink_none (v : View) : v.unlink none = v := by
  simp [unlink]

end View

namespace Handle

/-- What is stored through one handle is loaded through the other, as far as both reach. -/
def Passes {σ : Type} [NamedMemory σ] (s : σ) (source target : Handle) : Prop :=
  ∀ r : Region, r.bytes.size = source.size → ∀ i, i < source.size → i < target.size →
    (target.region (source.store r s)).bytes[i]? = r.bytes[i]?

end Handle

/-- What POSIX says of each call of a system. Nothing fails but for a name. -/
structure Posix (σ : Type) [NamedMemory σ] where
  /-- The name that the system keeps for a name, if it takes the name. -/
  key : String → Option String
  view : σ → View
  /-- A name that the system does not take is refused, whatever it is opened for. -/
  refused {name : String} (s : σ) (mode : OpenMode) : key name = none →
    ∃ fault t, NamedMemory.openObject name mode s = (.error fault, t) ∧ view t = view s
  /-- A name without an object is opened in vain, unless it may be made. -/
  missing {name kept : String} {s : σ} : key name = some kept → (view s).named kept = none →
    ∃ t, NamedMemory.openObject name .existing s = (.error .noSuchFile, t) ∧ view t = view s
  /-- A name is opened on its object, at a descriptor that was not open. -/
  found {name kept : String} {s : σ} {object : Nat} : key name = some kept →
    (view s).named kept = some object →
    ∃ descriptor t, NamedMemory.openObject name .existing s = (.ok descriptor, t) ∧
      (view s).opened descriptor = none ∧ view t = (view s).openAt descriptor object
  /-- A name that may be made is opened on its object, which is emptied in place, or on an empty
  new one. -/
  emptied {name kept : String} (s : σ) : key name = some kept →
    ∃ descriptor object t, NamedMemory.openObject name .emptied s = (.ok descriptor, t) ∧
      (view s).opened descriptor = none ∧ (view s).Takes kept object ∧
      view t = (((view s).link kept object).resize object 0).openAt descriptor object
  resized {s : σ} {descriptor object : Nat} (size : Nat) :
    (view s).opened descriptor = some object →
    ∃ t, NamedMemory.resize descriptor size s = (.ok (), t) ∧
      view t = (view s).resize object size
  measured {s : σ} {descriptor object : Nat} : (view s).opened descriptor = some object →
    ∃ t, NamedMemory.measure descriptor s = (.ok ((view s).size object), t) ∧ view t = view s
  /-- An object is mapped where nothing is mapped, and never at address zero. -/
  mapped {s : σ} {descriptor object size : Nat} : (view s).opened descriptor = some object →
    0 < size →
    ∃ address t, NamedMemory.map descriptor size s = (.ok address, t) ∧ address ≠ 0 ∧
      (view s).mapped address = none ∧ view t = (view s).mapAt address ⟨object, size⟩
  closed {s : σ} {descriptor object : Nat} : (view s).opened descriptor = some object →
    view (NamedMemory.closeDescriptor descriptor s).2 = (view s).closeAt descriptor
  unmapped {s : σ} {address : Nat} {mapping : Mapping} :
    (view s).mapped address = some mapping →
    view (NamedMemory.unmap address mapping.size s).2 = (view s).unmapAt address
  /-- A name is removed, and nothing else. -/
  unlinked (name : String) (s : σ) :
    view (NamedMemory.unlink name s).2 = (view s).unlink (key name)
  /-- Bytes within a mapping and its object are those of the object. -/
  loaded {s : σ} {address offset count : Nat} {mapping : Mapping} :
    (view s).mapped address = some mapping → offset + count ≤ mapping.size →
    offset + count ≤ (view s).size mapping.object →
    NamedMemory.load address offset count s =
      List.ofFn fun i : Fin count => (view s).byte mapping.object (offset + i)
  stored {s : σ} {address offset : Nat} {data : Bytes} {mapping : Mapping} :
    (view s).mapped address = some mapping → offset + data.length ≤ mapping.size →
    offset + data.length ≤ (view s).size mapping.object →
    view (NamedMemory.store address offset data s) = (view s).store mapping.object offset data

namespace Posix

variable {σ : Type} [NamedMemory σ] (posix : Posix σ)

/-- The name that the system keeps for a name that can be passed to it. -/
def kept? (name : String) : Option String :=
  match Handle.nulPosition? name with
  | some _ => none
  | none => posix.key name

/-- The name that is removed when a handle is closed. -/
def owned? (h : Handle) : Option String := if h.creator then posix.key h.name else none

variable {posix}

theorem kept?_of_nul {name : String} {position : Nat}
    (nul : Handle.nulPosition? name = some position) : posix.kept? name = none := by
  rw [kept?, nul]

theorem kept?_of_plain {name : String} (plain : Handle.nulPosition? name = none) :
    posix.kept? name = posix.key name := by
  rw [kept?, plain]

/-- A name is passed to the system as it is. -/
theorem key_of_kept? {name kept : String} (key : posix.kept? name = some kept) :
    posix.key name = some kept := by
  rw [kept?] at key
  split at key
  · cases key
  · exact key

/-- An open object is mapped where nothing is, and its descriptor is closed. -/
theorem ofDescriptor_view {s : σ} {descriptor object size : Nat}
    (isOpen : (posix.view s).opened descriptor = some object) (positive : 0 < size)
    (name : String) (creator : Bool) :
    ∃ address t,
      Handle.ofDescriptor descriptor size name creator s =
          (.ok ⟨address, size, name, creator⟩, t) ∧
        (posix.view s).mapped address = none ∧
        posix.view t = ((posix.view s).mapAt address ⟨object, size⟩).closeAt descriptor := by
  obtain ⟨address, t, answer, nonzero, free, mapped⟩ := posix.mapped isOpen positive
  have still : (posix.view t).opened descriptor = some object := by rw [mapped]; exact isOpen
  refine ⟨address, (NamedMemory.closeDescriptor descriptor t).2, ?_, free, ?_⟩
  · cases address with
    | zero => exact absurd rfl nonzero
    | succ before => simp only [Handle.ofDescriptor, answer]
  · rw [posix.closed still, mapped]

variable (posix)

/-- How creating a name ends. -/
inductive CreateOutcome (name : String) (size : Nat) (s : σ) : Except Error Handle × σ → Prop where
  | refused {e : Error} {t : σ} (unkept : posix.kept? name = none)
      (same : posix.view t = posix.view s) : CreateOutcome name size s (.error e, t)
  | made {kept : String} {object address : Nat} {t : σ} (key : posix.kept? name = some kept)
      (takes : (posix.view s).Takes kept object) (free : (posix.view s).mapped address = none)
      (effect : posix.view t =
        ((((posix.view s).link kept object).resize object 0).resize object size).mapAt
          address ⟨object, size⟩) :
      CreateOutcome name size s (.ok ⟨address, size, name, true⟩, t)

theorem create_outcome (name : String) (capacity : UInt32) (s : σ) :
    posix.CreateOutcome name (requiredSize capacity.toNat) s (Handle.create name capacity s) := by
  rw [Handle.create]
  cases plain : Handle.nulPosition? name with
  | some position => exact .refused (kept?_of_nul plain) rfl
  | none =>
      cases key : posix.key name with
      | none =>
          obtain ⟨fault, t, answer, same⟩ := posix.refused s .emptied key
          simp only [answer]
          exact .refused ((kept?_of_plain plain).trans key) same
      | some kept =>
          obtain ⟨descriptor, object, s₁, answer, unopened, takes, opens⟩ := posix.emptied s key
          have isOpen : (posix.view s₁).opened descriptor = some object := by
            rw [opens]
            exact Function.update_self ..
          obtain ⟨s₂, resized, grows⟩ := posix.resized (requiredSize capacity.toNat) isOpen
          have stillOpen : (posix.view s₂).opened descriptor = some object := by
            rw [grows]
            exact isOpen
          obtain ⟨address, t, made, free, maps⟩ :=
            ofDescriptor_view stillOpen (requiredSize_pos _) name true
          simp only [answer, resized]
          rw [made]
          refine .made ((kept?_of_plain plain).trans key) takes ?_ ?_
          · rw [grows, opens] at free
            exact free
          · rw [maps, grows, opens]
            -- The descriptor is seen by no call in between, so it may as well be opened last.
            let w := ((posix.view s).link kept object).resize object 0
            exact View.closeAt_openAt
              (v := (w.resize object _).mapAt address ⟨object, _⟩) unopened object

/-- How opening a name ends. -/
inductive OpenOutcome (name : String) (required : Nat) (s : σ) :
    Except Error Handle × σ → Prop where
  | refused {e : Error} {t : σ} (unkept : posix.kept? name = none)
      (same : posix.view t = posix.view s) : OpenOutcome name required s (.error e, t)
  | missing {kept : String} {t : σ} (key : posix.kept? name = some kept)
      (unnamed : (posix.view s).named kept = none) (same : posix.view t = posix.view s) :
      OpenOutcome name required s (.error (.mapping (.system .noSuchFile)), t)
  | small {kept : String} {object : Nat} {t : σ} (key : posix.kept? name = some kept)
      (named : (posix.view s).named kept = some object)
      (small : (posix.view s).size object < required) (same : posix.view t = posix.view s) :
      OpenOutcome name required s
        (.error (.regionTooSmall required ((posix.view s).size object)), t)
  | mapped {kept : String} {object address : Nat} {t : σ} (key : posix.kept? name = some kept)
      (named : (posix.view s).named kept = some object)
      (free : (posix.view s).mapped address = none)
      (effect : posix.view t = (posix.view s).mapAt address ⟨object, required⟩) :
      OpenOutcome name required s (.ok ⟨address, required, name, false⟩, t)

theorem openName_outcome (name : String) (capacity : UInt32) (s : σ) :
    posix.OpenOutcome name (requiredSize capacity.toNat) s (Handle.openName name capacity s) := by
  rw [Handle.openName]
  cases plain : Handle.nulPosition? name with
  | some position => exact .refused (kept?_of_nul plain) rfl
  | none =>
      cases key : posix.key name with
      | none =>
          obtain ⟨fault, t, answer, same⟩ := posix.refused s .existing key
          simp only [answer]
          exact .refused ((kept?_of_plain plain).trans key) same
      | some kept =>
          have keeps := (kept?_of_plain plain).trans key
          cases named : (posix.view s).named kept with
          | none =>
              obtain ⟨t, answer, same⟩ := posix.missing key named
              simp only [answer]
              exact .missing keeps named same
          | some object =>
              obtain ⟨descriptor, s₁, answer, unopened, opens⟩ := posix.found key named
              have isOpen : (posix.view s₁).opened descriptor = some object := by
                rw [opens]
                exact Function.update_self ..
              obtain ⟨s₂, measured, same⟩ := posix.measured isOpen
              have stillOpen : (posix.view s₂).opened descriptor = some object := by
                rw [same]
                exact isOpen
              have size : (posix.view s₁).size object = (posix.view s).size object := by
                rw [opens]
                rfl
              simp only [answer, measured, size]
              split
              · rename_i small
                refine .small keeps named small ?_
                rw [posix.closed stillOpen, same, opens]
                exact View.closeAt_openAt unopened object
              · obtain ⟨address, t, made, free, maps⟩ :=
                  ofDescriptor_view stillOpen (requiredSize_pos _) name false
                rw [made]
                refine .mapped keeps named ?_ ?_
                · rw [same, opens] at free
                  exact free
                · rw [maps, same, opens]
                  exact View.closeAt_openAt (v := (posix.view s).mapAt address ⟨object, _⟩)
                    unopened object

/-- Closing a handle ends its mapping, and takes the name away that goes with it. -/
theorem view_close {s : σ} {h : Handle} {object : Nat}
    (mapped : (posix.view s).mapped h.address = some ⟨object, h.size⟩) :
    posix.view (h.close s) = ((posix.view s).unmapAt h.address).unlink (posix.owned? h) := by
  have unmapped : posix.view (NamedMemory.unmap h.address h.size s).2 =
      (posix.view s).unmapAt h.address := posix.unmapped mapped
  rw [Handle.close, owned?]
  generalize NamedMemory.unmap h.address h.size s = answer at unmapped ⊢
  obtain ⟨_, t⟩ := answer
  dsimp only at unmapped ⊢
  split
  · rw [posix.unlinked, unmapped]
  · rw [View.unlink_none, unmapped]

/-- Handles of one object pass on what is stored through them. -/
theorem passes {s : σ} {source target : Handle} {object : Nat}
    (stores : (posix.view s).mapped source.address = some ⟨object, source.size⟩)
    (loads : (posix.view s).mapped target.address = some ⟨object, target.size⟩)
    (sourceFits : source.size ≤ (posix.view s).size object)
    (targetFits : target.size ≤ (posix.view s).size object) : Handle.Passes s source target := by
  intro r full i inSource inTarget
  have count : 0 + r.bytes.toList.length = source.size := by
    rw [Array.length_toList, Nat.zero_add, full]
  have stored : posix.view (source.store r s) = (posix.view s).store object 0 r.bytes.toList :=
    posix.stored stores (Nat.le_of_eq count) (count ▸ sourceFits)
  have byte : (posix.view (source.store r s)).byte object i = r.bytes[i] := by
    have inside : 0 ≤ i ∧ i < 0 + r.bytes.toList.length := ⟨Nat.zero_le i, count ▸ inSource⟩
    simp only [stored, View.store, Function.update_self, if_pos inside]
    simp [full, inSource]
  have still : (posix.view (source.store r s)).mapped target.address =
      some ⟨object, target.size⟩ := by
    rw [stored]
    exact loads
  have fits : 0 + target.size ≤ (posix.view (source.store r s)).size object := by
    rw [stored, Nat.zero_add]
    exact targetFits
  have loaded := posix.loaded still (Nat.le_of_eq (Nat.zero_add _)) fits
  rw [Handle.region, loaded]
  simp [inTarget, byte, full, inSource]

end Posix

end CanLink
