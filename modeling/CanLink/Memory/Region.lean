import CanLink.Bytes

/-!
Regions: blocks of bytes shared by a writer and a reader. Bytes past the end read as zero, and
writing them does nothing.
-/

namespace CanLink

namespace Memory

/-- The `n` bytes from offset `start` on. -/
def window (n start : Nat) (bytes : Array UInt8) : Vector UInt8 n :=
  Vector.ofFn fun i => bytes[start + i]?.getD 0

/-- The bytes with those from offset `start` on replaced. -/
def write (start : Nat) : Bytes → Array UInt8 → Array UInt8
  | [], bytes => bytes
  | b :: rest, bytes => write (start + 1) rest (bytes.setIfInBounds start b)

@[simp] theorem size_write (start : Nat) (data : Bytes) (bytes : Array UInt8) :
    (write start data bytes).size = bytes.size := by
  induction data generalizing start bytes with
  | nil => rfl
  | cons b rest ih => rw [write, ih, Array.size_setIfInBounds]

/-- A write changes exactly the bytes it covers. -/
theorem getElem?_write (start : Nat) (data : Bytes) (bytes : Array UInt8) (i : Nat) :
    (write start data bytes)[i]? =
      if start ≤ i ∧ i < start + data.length ∧ i < bytes.size then data[i - start]?
      else bytes[i]? := by
  induction data generalizing start bytes with
  | nil => simp [write]; omega
  | cons b rest ih =>
      rw [write, ih]
      by_cases first : start = i
      · subst first
        have past : ¬ start + 1 ≤ start := by omega
        by_cases inside : start < bytes.size <;> simp [inside, past]
      · rw [Array.getElem?_setIfInBounds_ne first]
        by_cases before : start ≤ i
        · have later : start + 1 ≤ i := by omega
          have next : i - start = (i - (start + 1)) + 1 := by omega
          simp only [Array.size_setIfInBounds, List.length_cons, before, later, true_and, next,
            List.getElem?_cons_succ]
          have same : i < start + 1 + rest.length ↔ i < start + (rest.length + 1) := by omega
          simp only [same]
        · have notLater : ¬ start + 1 ≤ i := by omega
          simp [before, notLater]

-- Proofs know loads and stores by their lemmas; unfolded, they are compared byte by byte.
attribute [irreducible] window write

end Memory

/-- A block of memory. Only the alignment of its address matters. -/
structure Region where
  bytes : Array UInt8
  /-- Address of the first byte. -/
  address : Nat
  deriving DecidableEq

namespace Region

/-- Alignment of every region that is allocated here. -/
def alignment : Nat := 8

/-- Largest block that can be allocated: rounded up to the alignment, its size has to stay below
`2 ^ 63`. -/
def maxSize : Nat := Nat.pow 2 63 - alignment

/-- A block of `size` zero bytes, at least one. -/
def zeroed (size : Nat) : Except Error Region :=
  if maxSize < size then .error (.regionTooSmall size 0)
  else .ok ⟨Array.replicate (max size 1) 0, 0⟩

def size (r : Region) : Nat := r.bytes.size

/-- The part of the block from an offset on. -/
def suffix (r : Region) (offset : Nat) : Region :=
  ⟨r.bytes.extract offset r.bytes.size, r.address + offset⟩

def isAligned (r : Region) (alignment : Nat) : Bool := r.address % alignment = 0

def read (r : Region) (start n : Nat) : Bytes := (Memory.window n start r.bytes).toList

def write (r : Region) (start : Nat) (data : Bytes) : Region :=
  { r with bytes := Memory.write start data r.bytes }

/-- The 32-bit word stored at an offset. -/
def word (r : Region) (start : Nat) : UInt32 := LittleEndian.word32 (Memory.window 4 start r.bytes)

@[simp] theorem size_write (r : Region) (start : Nat) (data : Bytes) :
    (r.write start data).size = r.size := Memory.size_write ..

@[simp] theorem address_write (r : Region) (start : Nat) (data : Bytes) :
    (r.write start data).address = r.address := rfl

end Region

end CanLink
