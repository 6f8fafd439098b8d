import CanLink.Memory.Named

/-!
An operating system that keeps named memory in tables. Names are those of a directory: slashes in
front of them do not count, and none may stand further on.
-/

namespace CanLink

/-- Entries by key; of several for one key the first counts. -/
structure Table (κ α : Type) where
  entries : List (κ × α)
  deriving DecidableEq

namespace Table

variable {κ α : Type} [BEq κ]

def empty : Table κ α := ⟨[]⟩

def get (t : Table κ α) (key : κ) : Option α := t.entries.lookup key

def erase (t : Table κ α) (key : κ) : Table κ α := ⟨t.entries.filter (·.1 != key)⟩

def set (t : Table κ α) (key : κ) (a : α) : Table κ α := ⟨(key, a) :: (t.erase key).entries⟩

def keys (t : Table κ α) : List κ := t.entries.map Prod.fst

def values (t : Table κ α) : List α := t.entries.map Prod.snd

end Table

/-- A number above all that are in use. -/
def unused (inUse : List Nat) : Nat := inUse.foldr max 0 + 1

structure SharedObject where
  /-- Size of the object; a handle can only be opened on what lies within. -/
  size : Nat
  /-- Contents, zero where nothing was written. -/
  bytes : Array UInt8
  deriving DecidableEq

/-- A mapping shows the first `size` bytes of an object. -/
structure Mapping where
  object : Nat
  size : Nat
  deriving DecidableEq, Repr

namespace SystemFault

def noSuchFile : SystemFault := ⟨2, "No such file or directory"⟩

def badDescriptor : SystemFault := ⟨9, "Bad file descriptor"⟩

def invalidArgument : SystemFault := ⟨22, "Invalid argument"⟩

def nameTooLong : SystemFault := ⟨36, "File name too long"⟩

end SystemFault

/-- Objects go by a number. Without a name, a descriptor and a mapping they are out of reach. -/
structure Host where
  objects : Table Nat SharedObject
  names : Table String Nat
  descriptors : Table Nat Nat
  mappings : Table Nat Mapping
  deriving DecidableEq

namespace Host

def empty : Host := ⟨.empty, .empty, .empty, .empty⟩

/-- Largest size of a name in bytes. -/
def maxNameSize : Nat := 255

def pageSize : Nat := 4096

/-- The name that is kept in the directory. -/
def resolve (name : String) : Except SystemFault String :=
  let plain := name.toList.dropWhile (· == '/')
  let kept := String.ofList plain
  if plain = [] ∨ '/' ∈ plain ∨ kept = "." ∨ kept = ".." then .error .invalidArgument
  else if maxNameSize < kept.utf8ByteSize then .error .nameTooLong
  else .ok kept

def object (m : Host) (number : Nat) : SharedObject := (m.objects.get number).getD ⟨0, #[]⟩

/-- A number for an object that has none. -/
def unusedObject (m : Host) : Nat :=
  unused (m.names.values ++ m.descriptors.values ++ m.mappings.values.map Mapping.object)

/-- The start of a page behind all mappings. -/
def unusedAddress (m : Host) : Nat :=
  let ends := m.mappings.entries.map fun entry => entry.1 + entry.2.size
  (unused ends / pageSize + 1) * pageSize

/-- Gives an object a new size; what lies beyond it is lost. -/
def resizeObject (m : Host) (number size : Nat) : Host :=
  { m with objects := m.objects.set number ⟨size, (m.object number).bytes.extract 0 size⟩ }

def describe (m : Host) (object : Nat) : Except SystemFault Nat × Host :=
  let descriptor := unused m.descriptors.keys
  (.ok descriptor, { m with descriptors := m.descriptors.set descriptor object })

def openObject (name : String) (mode : OpenMode) (m : Host) : Except SystemFault Nat × Host :=
  match resolve name with
  | .error fault => (.error fault, m)
  | .ok kept =>
      match m.names.get kept, mode with
      | some object, .existing => m.describe object
      | some object, .emptied => (m.resizeObject object 0).describe object
      | none, .existing => (.error .noSuchFile, m)
      | none, .emptied =>
          let object := m.unusedObject
          ({ m with names := m.names.set kept object }.resizeObject object 0).describe object

def resize (descriptor size : Nat) (m : Host) : Except SystemFault Unit × Host :=
  match m.descriptors.get descriptor with
  | none => (.error .badDescriptor, m)
  | some object => (.ok (), m.resizeObject object size)

def measure (descriptor : Nat) (m : Host) : Except SystemFault Nat × Host :=
  match m.descriptors.get descriptor with
  | none => (.error .badDescriptor, m)
  | some object => (.ok (m.object object).size, m)

def map (descriptor size : Nat) (m : Host) : Except SystemFault Nat × Host :=
  match m.descriptors.get descriptor with
  | none => (.error .badDescriptor, m)
  | some object =>
      if size = 0 then (.error .invalidArgument, m)
      else
        let address := m.unusedAddress
        (.ok address, { m with mappings := m.mappings.set address ⟨object, size⟩ })

def closeDescriptor (descriptor : Nat) (m : Host) : Except SystemFault Unit × Host :=
  match m.descriptors.get descriptor with
  | none => (.error .badDescriptor, m)
  | some _ => (.ok (), { m with descriptors := m.descriptors.erase descriptor })

def unmap (address _size : Nat) (m : Host) : Except SystemFault Unit × Host :=
  (.ok (), { m with mappings := m.mappings.erase address })

def unlink (name : String) (m : Host) : Except SystemFault Unit × Host :=
  match resolve name with
  | .error fault => (.error fault, m)
  | .ok kept =>
      match m.names.get kept with
      | none => (.error .noSuchFile, m)
      | some _ => (.ok (), { m with names := m.names.erase kept })

def load (address offset count : Nat) (m : Host) : Bytes :=
  match m.mappings.get address with
  | none => List.replicate count 0
  | some mapping => (Memory.window count offset (m.object mapping.object).bytes).toList

def store (address offset : Nat) (data : Bytes) (m : Host) : Host :=
  match m.mappings.get address with
  | none => m
  | some mapping =>
      let o := m.object mapping.object
      let room := Array.replicate (offset + data.length - o.bytes.size) 0
      let bytes := Memory.write offset data (o.bytes ++ room)
      { m with objects := m.objects.set mapping.object { o with bytes } }

instance : NamedMemory Host where
  openObject := openObject
  resize := resize
  measure := measure
  map := map
  closeDescriptor := closeDescriptor
  unmap := unmap
  unlink := unlink
  load := load
  store := store

end Host

end CanLink
