import CanLink.Proofs.Memory.Posix
import Mathlib.Data.List.MinMax

/-!
The tables of `Host` keep to POSIX (`Host.posix`). Its view looks everything up in the tables, so
each call comes to the change of one table, and numbers above all that are in use are free.
-/

namespace CanLink

namespace Table

variable {κ α : Type} [BEq κ] [LawfulBEq κ]

theorem get_erase [DecidableEq κ] (t : Table κ α) (key : κ) :
    (t.erase key).get = Function.update t.get key none := by
  funext other
  obtain ⟨entries⟩ := t
  simp only [get, erase, Function.update_apply]
  induction entries with
  | nil => rw [List.filter_nil, List.lookup_nil, ite_self]
  | cons first rest ih =>
      obtain ⟨k, a⟩ := first
      by_cases dropped : k = key
      · rw [List.filter_cons_of_neg (by simpa using dropped), ih, dropped, List.lookup_cons]
        by_cases same : other = key
        · rw [if_pos same, if_pos same]
        · rw [if_neg same, if_neg same, beq_false_of_ne same]
      · rw [List.filter_cons_of_pos (by simpa using dropped), List.lookup_cons,
          List.lookup_cons, ih]
        by_cases found : other = k
        · simp only [found, if_neg dropped, beq_self_eq_true]
        · simp only [beq_false_of_ne found]

theorem get_set [DecidableEq κ] (t : Table κ α) (key : κ) (a : α) :
    (t.set key a).get = Function.update t.get key (some a) := by
  funext other
  by_cases same : other = key
  · rw [same, Function.update_self]
    exact List.lookup_cons_self
  · have erased : (t.erase key).get other = t.get other := by
      rw [get_erase, Function.update_of_ne same]
    rw [Function.update_of_ne same, get, set, List.lookup_cons, beq_false_of_ne same]
    exact erased

theorem mem_of_get {t : Table κ α} {key : κ} {a : α} (found : t.get key = some a) :
    (key, a) ∈ t.entries := by
  obtain ⟨before, after, split, -⟩ := List.lookup_eq_some_iff.mp found
  rw [split]
  exact List.mem_append_right _ List.mem_cons_self

theorem mem_keys {t : Table κ α} {key : κ} {a : α} (found : t.get key = some a) : key ∈ t.keys :=
  List.mem_map.mpr ⟨_, mem_of_get found, rfl⟩

theorem mem_values {t : Table κ α} {key : κ} {a : α} (found : t.get key = some a) : a ∈ t.values :=
  List.mem_map.mpr ⟨_, mem_of_get found, rfl⟩

end Table

theorem lt_unused {inUse : List Nat} {n : Nat} (used : n ∈ inUse) : n < unused inUse :=
  Nat.lt_succ_of_le (List.le_max_of_le' 0 used le_rfl)

theorem unused_notMem (inUse : List Nat) : unused inUse ∉ inUse :=
  fun used => Nat.lt_irrefl _ (lt_unused used)

namespace Host

def view (m : Host) : View where
  named := m.names.get
  opened := m.descriptors.get
  mapped := m.mappings.get
  size number := (m.object number).size
  byte number i := (m.object number).bytes[i]?.getD 0

/-! ### Objects -/

/-- Giving an object other contents changes sizes and bytes in one place. -/
theorem view_set (m : Host) (number : Nat) (o : SharedObject) :
    view { m with objects := m.objects.set number o } =
      { m.view with
        size := Function.update m.view.size number o.size
        byte := Function.update m.view.byte number fun i => o.bytes[i]?.getD 0 } := by
  have contents (other : Nat) : object { m with objects := m.objects.set number o } other =
      if other = number then o else m.object other := by
    rw [object, Table.get_set, Function.update_apply]
    split
    · rfl
    · rfl
  refine View.ext rfl rfl rfl ?_ ?_
  all_goals
    funext other
    simp only [view, contents, Function.update_apply]
    split
    · rfl
    · rfl

theorem view_resizeObject (m : Host) (number size : Nat) :
    (m.resizeObject number size).view = m.view.resize number size := by
  have bytes : (fun i => ((m.object number).bytes.extract 0 size)[i]?.getD 0) =
      fun i => if i < size then m.view.byte number i else 0 := by
    funext i
    by_cases within : i < size
    · by_cases present : i < (m.object number).bytes.size
      · simp [view, within, present]
      · simp [view, within, present]
    · simp [within]
  rw [resizeObject, view_set, bytes]
  rfl

/-- The number that is given to a new object belongs to no other. -/
theorem unused_unusedObject (m : Host) : m.view.Unused m.unusedObject where
  named name found := by
    have inUse := Table.mem_values found
    exact unused_notMem _ (List.mem_append_left _ (List.mem_append_left _ inUse))
  opened descriptor found := by
    have inUse := Table.mem_values found
    exact unused_notMem _ (List.mem_append_left _ (List.mem_append_right _ inUse))
  mapped found same := by
    have inUse := List.mem_map_of_mem (f := Mapping.object) (Table.mem_values found)
    rw [same] at inUse
    exact unused_notMem _ (List.mem_append_right _ inUse)

/-! ### Calls -/

theorem describe_view (m : Host) (object : Nat) :
    ∃ descriptor t, m.describe object = (.ok descriptor, t) ∧ m.view.opened descriptor = none ∧
      t.view = m.view.openAt descriptor object := by
  refine ⟨_, _, rfl, ?_, ?_⟩
  · refine Option.eq_none_iff_forall_ne_some.mpr fun other found => ?_
    exact unused_notMem _ (Table.mem_keys found)
  · exact View.ext rfl (Table.get_set ..) rfl rfl rfl

theorem resolve_of_kept {name kept : String} (key : (resolve name).toOption = some kept) :
    resolve name = .ok kept := by
  cases answer : resolve name with
  | error fault =>
      rw [answer] at key
      cases key
  | ok found =>
      rw [answer] at key
      cases key
      rfl

theorem unusedAddress_free (m : Host) : m.view.mapped m.unusedAddress = none := by
  refine Option.eq_none_iff_forall_ne_some.mpr fun mapping found => ?_
  have inUse : m.unusedAddress + mapping.size ∈
      m.mappings.entries.map fun entry => entry.1 + entry.2.size :=
    List.mem_map.mpr ⟨_, Table.mem_of_get found, rfl⟩
  have below := lt_unused inUse
  simp only [unusedAddress, pageSize] at below
  omega

theorem load_view {m : Host} {address offset count : Nat} {mapping : Mapping}
    (mapped : m.view.mapped address = some mapping) :
    load address offset count m =
      List.ofFn fun i : Fin count => m.view.byte mapping.object (offset + i) := by
  have found : m.mappings.get address = some mapping := mapped
  simp only [load, found]
  rw [Memory.window, Vector.toList_ofFn]
  rfl

/-- Bytes written where there is room for them are read back, and the others are as before. -/
theorem getD_write_room (bytes : Array UInt8) (offset : Nat) (data : Bytes) (i : Nat) :
    (Memory.write offset data
        (bytes ++ Array.replicate (offset + data.length - bytes.size) 0))[i]?.getD 0 =
      if offset ≤ i ∧ i < offset + data.length then data[i - offset]?.getD 0
      else bytes[i]?.getD 0 := by
  rw [Memory.getElem?_write]
  by_cases covered : offset ≤ i ∧ i < offset + data.length
  · have inside : i < (bytes ++ Array.replicate (offset + data.length - bytes.size) 0).size := by
      rw [Array.size_append, Array.size_replicate]
      omega
    rw [if_pos ⟨covered.1, covered.2, inside⟩, if_pos covered]
  · rw [if_neg fun all => covered ⟨all.1, all.2.1⟩, if_neg covered, Array.getElem?_append]
    split
    · rfl
    · rename_i beyond
      rw [Array.getElem?_eq_none (Nat.le_of_not_lt beyond), Array.getElem?_replicate]
      split
      · rfl
      · rfl

theorem store_view {m : Host} {address offset : Nat} {mapping : Mapping}
    (mapped : m.view.mapped address = some mapping) (data : Bytes) :
    (store address offset data m).view = m.view.store mapping.object offset data := by
  have found : m.mappings.get address = some mapping := mapped
  simp only [store, found]
  rw [view_set]
  refine View.ext rfl rfl rfl (Function.update_eq_self ..) ?_
  simp only [View.store]
  congr 1
  funext i
  exact getD_write_room ..

/-- Removing a name changes nothing when there is no such name. -/
theorem unlink_view (name : String) (m : Host) :
    (unlink name m).2.view = m.view.unlink (resolve name).toOption := by
  rw [unlink]
  cases resolve name with
  | error fault => exact (View.unlink_none _).symm
  | ok kept =>
      have named : (m.view.unlink (some kept)).named = Function.update m.names.get kept none := by
        funext other
        simp only [View.unlink, Option.some.injEq, Function.update_apply, eq_comm, view]
      dsimp only
      cases found : m.names.get kept with
      | none =>
          have same : Function.update m.names.get kept none = m.names.get :=
            Function.update_eq_self_iff.mpr found.symm
          exact View.ext (named.trans same).symm rfl rfl rfl rfl
      | some object => exact View.ext ((Table.get_erase ..).trans named.symm) rfl rfl rfl rfl

/-- A host keeps to POSIX. Names that differ in the slashes in front of them are one name. -/
def posix : Posix Host where
  key name := (resolve name).toOption
  view := view
  refused {name} m mode unkept := by
    cases answer : resolve name with
    | error fault =>
        refine ⟨fault, m, ?_, rfl⟩
        simp only [NamedMemory.openObject, openObject, answer]
    | ok kept =>
        rw [answer] at unkept
        cases unkept
  missing {name kept m} key unnamed := by
    have free : m.names.get kept = none := unnamed
    refine ⟨m, ?_, rfl⟩
    simp only [NamedMemory.openObject, openObject, resolve_of_kept key, free]
  found {name kept m object} key named := by
    have inUse : m.names.get kept = some object := named
    simp only [NamedMemory.openObject, openObject, resolve_of_kept key, inUse]
    exact describe_view m object
  emptied {name kept} m key := by
    simp only [NamedMemory.openObject, openObject, resolve_of_kept key]
    cases named : m.names.get kept with
    | some object =>
        obtain ⟨descriptor, t, answer, free, opens⟩ :=
          (m.resizeObject object 0).describe_view object
        refine ⟨descriptor, object, t, answer, free, .inl named, ?_⟩
        have linked : m.view.link kept object = m.view :=
          View.ext (Function.update_eq_self_iff.mpr named.symm) rfl rfl rfl rfl
        rw [opens, view_resizeObject, linked]
    | none =>
        let made : Host := { m with names := m.names.set kept m.unusedObject }
        have linked : made.view = m.view.link kept m.unusedObject :=
          View.ext (Table.get_set ..) rfl rfl rfl rfl
        obtain ⟨descriptor, t, answer, free, opens⟩ :=
          (made.resizeObject m.unusedObject 0).describe_view m.unusedObject
        refine ⟨descriptor, m.unusedObject, t, answer, free,
          .inr ⟨named, m.unused_unusedObject⟩, ?_⟩
        rw [opens, view_resizeObject, linked]
  resized {m descriptor object} size isOpen := by
    have found : m.descriptors.get descriptor = some object := isOpen
    refine ⟨m.resizeObject object size, ?_, m.view_resizeObject object size⟩
    simp only [NamedMemory.resize, resize, found]
  measured {m descriptor object} isOpen := by
    have found : m.descriptors.get descriptor = some object := isOpen
    refine ⟨m, ?_, rfl⟩
    simp only [NamedMemory.measure, measure, found]
    rfl
  mapped {m descriptor object size} isOpen positive := by
    have found : m.descriptors.get descriptor = some object := isOpen
    let mappings := m.mappings.set m.unusedAddress ⟨object, size⟩
    refine ⟨m.unusedAddress, { m with mappings }, ?_, ?_, m.unusedAddress_free, ?_⟩
    · simp only [NamedMemory.map, map, found, if_neg (Nat.ne_of_gt positive), mappings]
    · simp only [unusedAddress, pageSize]
      omega
    · exact View.ext rfl rfl (Table.get_set ..) rfl rfl
  closed {m descriptor object} isOpen := by
    have found : m.descriptors.get descriptor = some object := isOpen
    simp only [NamedMemory.closeDescriptor, closeDescriptor, found]
    exact View.ext rfl (Table.get_erase ..) rfl rfl rfl
  unmapped _ := View.ext rfl rfl (Table.get_erase ..) rfl rfl
  unlinked := unlink_view
  loaded mapped _ _ := load_view mapped
  stored mapped _ _ := store_view mapped _

example : posix.key "/ring" = posix.key "ring" := by decide +kernel

end Host

end CanLink
