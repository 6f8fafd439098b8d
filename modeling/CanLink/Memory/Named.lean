import CanLink.Ring

/-!
Named shared memory. The operating system keeps the objects and their names; `NamedMemory` is what
it can be asked. A handle maps the first bytes of an object. Creating a name makes an object for it,
or empties the object that it stands for, which every older handle of that object sees. The handle
that created a name removes the name when it is closed, whatever it stands for by then.
-/

namespace CanLink

inductive OpenMode where
  /-- The object of the name, as it is. -/
  | existing
  /-- The object of the name without its contents, or a new one. -/
  | emptied
  deriving DecidableEq, Repr

/-- An operating system with state `σ`. Every call gives an answer and the state after it. Open
objects go by their descriptor, mapped ones by the address of their first byte. -/
class NamedMemory (σ : Type) where
  /-- Opens the object of a name. -/
  openObject : String → OpenMode → σ → Except SystemFault Nat × σ
  /-- Gives the object of a descriptor a new size. -/
  resize (descriptor size : Nat) : σ → Except SystemFault Unit × σ
  /-- The size of the object of a descriptor. -/
  measure (descriptor : Nat) : σ → Except SystemFault Nat × σ
  /-- Maps the first bytes of the object of a descriptor. -/
  map (descriptor size : Nat) : σ → Except SystemFault Nat × σ
  closeDescriptor (descriptor : Nat) : σ → Except SystemFault Unit × σ
  unmap (address size : Nat) : σ → Except SystemFault Unit × σ
  /-- Removes a name; the object stays for those who have it open or mapped. -/
  unlink : String → σ → Except SystemFault Unit × σ
  /-- Mapped bytes, from an offset on. -/
  load (address offset count : Nat) : σ → Bytes
  store (address offset : Nat) : Bytes → σ → σ

/-- A mapping of the first `size` bytes of an object. -/
structure Handle where
  /-- Address of the first byte. -/
  address : Nat
  size : Nat
  name : String
  /-- The handle made the name, and removes it when it is closed. -/
  creator : Bool
  deriving DecidableEq, Repr

namespace Handle

/-- Offset in bytes of the first NUL character of a name. -/
def nulPosition? (name : String) : Option Nat :=
  if name.toList.contains '\x00' then
    some ((name.toList.takeWhile (· != '\x00')).foldl (fun size c => size + c.utf8Size) 0)
  else none

variable {σ : Type} [NamedMemory σ]

/-- Maps an open object. The mapping keeps the object alive, so its descriptor is closed in any
case. A name that was made for a mapping goes when the mapping fails. -/
def ofDescriptor (descriptor size : Nat) (name : String) (creator : Bool) (s : σ) :
    Except Error Handle × σ :=
  let (answer, s) := NamedMemory.map descriptor size s
  let (_, s) := NamedMemory.closeDescriptor descriptor s
  match answer with
  | .error fault =>
      let s := if creator then (NamedMemory.unlink name s).2 else s
      (.error (.mapping (.system fault)), s)
  | .ok 0 => (.error (.mapping .nullAddress), s)
  | .ok address => (.ok ⟨address, size, name, creator⟩, s)

/-- Makes or empties the object of a name, with room for a ring of `capacity` slots. -/
def create (name : String) (capacity : UInt32) (s : σ) : Except Error Handle × σ :=
  match nulPosition? name with
  | some position => (.error (.mapping (.nulInName position)), s)
  | none =>
      let size := requiredSize capacity.toNat
      match NamedMemory.openObject name .emptied s with
      | (.error fault, s) => (.error (.mapping (.system fault)), s)
      | (.ok descriptor, s) =>
          match NamedMemory.resize descriptor size s with
          | (.error fault, s) =>
              let (_, s) := NamedMemory.closeDescriptor descriptor s
              let (_, s) := NamedMemory.unlink name s
              (.error (.mapping (.system fault)), s)
          | (.ok (), s) => ofDescriptor descriptor size name true s

/-- Maps the object of a name for a ring of `capacity` slots. -/
def openName (name : String) (capacity : UInt32) (s : σ) : Except Error Handle × σ :=
  match nulPosition? name with
  | some position => (.error (.mapping (.nulInName position)), s)
  | none =>
      let required := requiredSize capacity.toNat
      match NamedMemory.openObject name .existing s with
      | (.error fault, s) => (.error (.mapping (.system fault)), s)
      | (.ok descriptor, s) =>
          match NamedMemory.measure descriptor s with
          | (.error fault, s) =>
              let (_, s) := NamedMemory.closeDescriptor descriptor s
              (.error (.mapping (.system fault)), s)
          | (.ok actual, s) =>
              if actual < required then
                let (_, s) := NamedMemory.closeDescriptor descriptor s
                (.error (.regionTooSmall required actual), s)
              else ofDescriptor descriptor required name false s

/-- Unmaps a handle. It does not matter if a call fails. -/
def close (h : Handle) (s : σ) : σ :=
  let (_, s) := NamedMemory.unmap h.address h.size s
  if h.creator then (NamedMemory.unlink h.name s).2 else s

/-- The bytes that a handle maps. -/
def region (h : Handle) (s : σ) : Region :=
  ⟨(NamedMemory.load h.address 0 h.size s).toArray, h.address⟩

/-- Stores the bytes that a handle maps. -/
def store (h : Handle) (r : Region) (s : σ) : σ :=
  NamedMemory.store h.address 0 r.bytes.toList s

end Handle

end CanLink
