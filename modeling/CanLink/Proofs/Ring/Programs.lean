import CanLink.Proofs.Ring.Memory

/-!
The operations of a ring, access by access. A `Memory.Program` loads and stores bytes at offsets,
and what it loads decides how it goes on. Every operation of a ring is one: run in the memory of the
ring, it gives the answer of the operation and leaves the memory that the operation leaves
(`RingCall.run_program`). A program is bound by a limit if none of its accesses passes it, whatever
the loads give; so it is bound also while somebody else writes to the memory. No operation of a ring
passes the end of the last slot (`RingCall.program_within`).
-/

namespace CanLink

namespace Memory

/-- A computation over bytes in memory. -/
inductive Program (α : Type) where
  | done (answer : α)
  | load (start n : Nat) (next : Vector UInt8 n → Program α)
  | store (start : Nat) (data : Bytes) (next : Program α)

namespace Program

variable {α β : Type}

def bind : Program α → (α → Program β) → Program β
  | done answer, f => f answer
  | load start n next, f => load start n fun bytes => (next bytes).bind f
  | store start data next, f => store start data (next.bind f)

instance : Monad Program where
  pure := done
  bind := bind

/-- The answer, and the memory afterwards. -/
def run : Program α → Array UInt8 → α × Array UInt8
  | done answer, memory => (answer, memory)
  | load start n next, memory => (next (window n start memory)).run memory
  | store start data next, memory => next.run (write start data memory)

/-- No access passes `limit`, whatever the loads give. -/
def Within (limit : Nat) : Program α → Prop
  | done _ => True
  | load start n next => start + n ≤ limit ∧ ∀ bytes, (next bytes).Within limit
  | store start data next => start + data.length ≤ limit ∧ next.Within limit

@[simp] theorem run_pure (answer : α) (memory : Array UInt8) :
    (pure answer : Program α).run memory = (answer, memory) := rfl

@[simp] theorem run_bind (p : Program α) (f : α → Program β) (memory : Array UInt8) :
    (p >>= f).run memory = (f (p.run memory).1).run (p.run memory).2 := by
  change (p.bind f).run memory = _
  induction p generalizing memory with
  | done answer => rfl
  | load start n next ih => exact ih (window n start memory) memory
  | store start data next ih => exact ih (write start data memory)

namespace Within

variable {limit : Nat} {p : Program α}

theorem pure (answer : α) : (Pure.pure answer : Program α).Within limit := trivial

theorem bind {f : α → Program β} (first : p.Within limit) (rest : ∀ a, (f a).Within limit) :
    (p >>= f).Within limit := by
  change (p.bind f).Within limit
  induction p with
  | done answer => exact rest answer
  | load start n next ih => exact ⟨first.1, fun bytes => ih bytes (first.2 bytes)⟩
  | store start data next ih => exact ⟨first.1, ih first.2⟩

/-- A program leaves the bytes past its limit. -/
theorem keeps (h : p.Within limit) (memory : Array UInt8) {i : Nat} (past : limit ≤ i) :
    (p.run memory).2[i]? = memory[i]? := by
  induction p generalizing memory with
  | done answer => rfl
  | load start n next ih => exact ih _ (h.2 _) memory
  | store start data next ih =>
      have ends := h.1
      have uncovered : ¬ (start ≤ i ∧ i < start + data.length ∧ i < memory.size) := by omega
      rw [run, ih h.2, getElem?_write, if_neg uncovered]

/-- A program does not see the bytes past its limit: in two memories that agree up to there it gives
the same answer, and they agree afterwards. -/
theorem ignores (h : p.Within limit) {memory other : Array UInt8}
    (agree : ∀ i < limit, other[i]? = memory[i]?) :
    (p.run other).1 = (p.run memory).1 ∧
      ∀ i < limit, (p.run other).2[i]? = (p.run memory).2[i]? := by
  induction p generalizing memory other with
  | done answer => exact ⟨rfl, agree⟩
  | load start n next ih =>
      have same : window n start other = window n start memory := by
        apply Vector.ext
        intro i inside
        have ends := h.1
        rw [getElem_window, getElem_window, agree (start + i) (by omega)]
      rw [run, run, same]
      exact ih _ (h.2 _) agree
  | store start data next ih =>
      apply ih h.2
      intro i inside
      have missing : other.size ≤ i ↔ memory.size ≤ i := by
        rw [← Array.getElem?_eq_none_iff, agree i inside, Array.getElem?_eq_none_iff]
      have size : i < other.size ↔ i < memory.size := by omega
      rw [getElem?_write, getElem?_write, agree i inside]
      simp only [size]

end Within

/-! ### Words and records -/

def loadWord (start : Nat) : Program UInt32 :=
  load start 4 fun bytes => done (LittleEndian.word32 bytes)

def storeWord (start : Nat) (word : UInt32) : Program Unit :=
  store start (LittleEndian.bytes32 word).toList (done ())

end Program

end Memory

open Memory (Program)

namespace Capacity

variable (c : Capacity)

/-- Offset of the slot that an index stands for. Its low bits count the slots. -/
def slotOffset (index : UInt32) : Nat :=
  headerSize + (index &&& (c.word - 1)).toNat * slotSize

/-- Number of slots from one index word up to the other, or an error if there are fewer. -/
def distance (put get : UInt32) : Except Error UInt32 :=
  let queued := put - get
  if c.word < queued then .error (.impossibleIndices put get c.word) else .ok queued

def loadRecord (index : UInt32) : Program Record := .load (c.slotOffset index) 80 .done

def storeRecord (index : UInt32) (record : Record) : Program Unit :=
  .store (c.slotOffset index) record.toList (.done ())

/-- The low bits of an index are its remainder, since a capacity is a power of two. -/
theorem toNat_and_mask (index : UInt32) :
    (index &&& (c.word - 1)).toNat = index.toNat % c.slots := by
  have one : (1 : UInt32) ≤ c.word := by
    rw [UInt32.le_iff_toNat_le, c.toNat_word]
    exact c.slots_pos
  have mask : (c.word - 1).toNat = 2 ^ c.exponent.val - 1 := by
    rw [UInt32.toNat_sub_of_le _ _ one, c.toNat_word]
    rfl
  rw [UInt32.toNat_and, mask, Nat.and_two_pow_sub_one_eq_mod]
  rfl

theorem slotOffset_end_le (index : UInt32) :
    c.slotOffset index + slotSize ≤ requiredSize c.slots := by
  have below : index.toNat % c.slots + 1 ≤ c.slots := Nat.mod_lt _ c.slots_pos
  have scaled := Nat.mul_le_mul_right slotSize below
  rw [slotOffset, c.toNat_and_mask, requiredSize]
  simp only [slotSize] at *
  omega

end Capacity

theorem Ring.putWord_in_header : Ring.putOffset + 4 ≤ headerSize := by decide

theorem Ring.getWord_in_header : Ring.getOffset + 4 ≤ headerSize := by decide

theorem Ring.slotOffset_capacity (r : Ring) (index : UInt32) :
    r.capacity.slotOffset index = r.slotOffset index := by
  rw [Capacity.slotOffset, r.capacity.toNat_and_mask, Ring.slotOffset]

theorem Ring.occupancy_eq_distance (r : Ring) : r.occupancy = r.capacity.distance r.put r.get := rfl

namespace Memory.Program

open CanLink.Ring (putOffset getOffset)

variable {α : Type}

/-- Loads the get index and then the put index, as the producer and an onlooker do. -/
def getThenPut (next : (put get : UInt32) → Program α) : Program α := do
  let get ← loadWord getOffset
  let put ← loadWord putOffset
  next put get

/-- Loads the put index and then the get index, as the consumer does. -/
def putThenGet (next : (put get : UInt32) → Program α) : Program α := do
  let put ← loadWord putOffset
  let get ← loadWord getOffset
  next put get

/-! ### Runs in the memory of a ring -/

section Run

variable (r : Ring) (next : (put get : UInt32) → Program α)

@[simp] theorem run_loadWord_put :
    (loadWord putOffset).run r.region.bytes = (r.put, r.region.bytes) := by
  rw [Ring.put]
  rfl

@[simp] theorem run_loadWord_get :
    (loadWord getOffset).run r.region.bytes = (r.get, r.region.bytes) := by
  rw [Ring.get]
  rfl

@[simp] theorem run_getThenPut :
    (getThenPut next).run r.region.bytes = (next r.put r.get).run r.region.bytes := by
  rw [getThenPut, run_bind, run_loadWord_get, run_bind, run_loadWord_put]

@[simp] theorem run_putThenGet :
    (putThenGet next).run r.region.bytes = (next r.put r.get).run r.region.bytes := by
  rw [putThenGet, run_bind, run_loadWord_put, run_bind, run_loadWord_get]

@[simp] theorem run_storeWord_put (index : UInt32) :
    (storeWord putOffset index).run r.region.bytes = ((), (r.storePut index).region.bytes) := rfl

@[simp] theorem run_storeWord_get (index : UInt32) :
    (storeWord getOffset index).run r.region.bytes = ((), (r.storeGet index).region.bytes) := rfl

@[simp] theorem run_loadRecord (index : UInt32) :
    (r.capacity.loadRecord index).run r.region.bytes = (r.record index, r.region.bytes) := by
  rw [Capacity.loadRecord, run, r.slotOffset_capacity]
  rfl

@[simp] theorem run_storeRecord (index : UInt32) (record : Record) :
    (r.capacity.storeRecord index record).run r.region.bytes =
      ((), (r.storeRecord index record).region.bytes) := by
  rw [Capacity.storeRecord, run, r.slotOffset_capacity]
  rfl

end Run

/-! ### Bounds -/

namespace Within

variable {limit : Nat} {next : (put get : UInt32) → Program α}

theorem loadWord {start : Nat} (ends : start + 4 ≤ limit) :
    (Program.loadWord start).Within limit := ⟨ends, fun _ => trivial⟩

theorem storeWord {start : Nat} (ends : start + 4 ≤ limit) (word : UInt32) :
    (Program.storeWord start word).Within limit := ⟨by simpa using ends, trivial⟩

theorem getThenPut (header : headerSize ≤ limit)
    (rest : ∀ put get, (next put get).Within limit) :
    (Program.getThenPut next).Within limit :=
  .bind (.loadWord (Nat.le_trans Ring.getWord_in_header header)) fun get =>
    .bind (.loadWord (Nat.le_trans Ring.putWord_in_header header)) fun put => rest put get

theorem putThenGet (header : headerSize ≤ limit)
    (rest : ∀ put get, (next put get).Within limit) :
    (Program.putThenGet next).Within limit :=
  .bind (.loadWord (Nat.le_trans Ring.putWord_in_header header)) fun put =>
    .bind (.loadWord (Nat.le_trans Ring.getWord_in_header header)) fun get => rest put get

theorem loadRecord (c : Capacity) (index : UInt32) :
    (c.loadRecord index).Within (requiredSize c.slots) :=
  ⟨c.slotOffset_end_le index, fun _ => trivial⟩

theorem storeRecord (c : Capacity) (index : UInt32) (record : Record) :
    (c.storeRecord index record).Within (requiredSize c.slots) :=
  ⟨by simpa using c.slotOffset_end_le index, trivial⟩

end Within

end Memory.Program

/-! ### The operations of a ring -/

/-- An operation of a ring that may touch its memory, for either of its sides or an onlooker. -/
inductive RingCall where
  | clear
  /-- The number of queued slots as an onlooker asks for it. -/
  | occupancy
  | free
  | push (slot : Slot)
  /-- The number of queued slots as the consumer asks for it. -/
  | pending
  | drain
  | next (drain : Drain)
  | release (drain : Drain)
  | reset
  /-- Both index words, for a log. -/
  | inspect

namespace RingCall

abbrev Answer : RingCall → Type
  | occupancy | free | pending => Except Error UInt32
  | push _ => Except Error Bool
  | drain => Except Error Drain
  | next _ => Option Slot × Drain
  | reset => UInt32
  | inspect => UInt32 × UInt32
  | clear | release _ => Unit

/-- The operation at once. -/
def perform : (call : RingCall) → Ring → call.Answer × Ring
  | clear, r => ((), r.clear)
  | occupancy, r | pending, r => (r.occupancy, r)
  | free, r => (r.free, r)
  | push slot, r =>
      match r.push slot with
      | .error e => (.error e, r)
      | .ok none => (.ok false, r)
      | .ok (some after) => (.ok true, after)
  | drain, r => (r.drain, r)
  | next d, r => (d.next r, r)
  | release d, r => ((), d.release r)
  | reset, r => r.reset
  | inspect, r => ((r.put, r.get), r)

open Memory.Program (storeWord getThenPut putThenGet)
open CanLink.Ring (putOffset getOffset)

/-- The first slot with CAN data among `count` slots from `index` on, and the index to go on at. -/
def scan (c : Capacity) : (count : Nat) → (index : UInt32) → Program (Option Slot × UInt32)
  | 0, index => pure (none, index)
  | count + 1, index => do
      let record ← c.loadRecord index
      match Slot.ofRecord? record with
      | some slot => pure (some slot, index + 1)
      | none => scan c count (index + 1)

/-- The operation access by access, in a ring of the capacity. -/
def program (c : Capacity) : (call : RingCall) → Program call.Answer
  | clear => do
      storeWord putOffset 0
      storeWord getOffset 0
  | occupancy => getThenPut fun put get => pure (c.distance put get)
  | free => getThenPut fun put get => pure ((c.distance put get).map (c.word - ·))
  | push slot => getThenPut fun put get =>
      match c.distance put get with
      | .error e => pure (.error e)
      | .ok queued =>
          if queued = c.word then pure (.ok false)
          else do
            c.storeRecord put slot.record
            storeWord putOffset (put + 1)
            pure (.ok true)
  | pending => putThenGet fun put get => pure (c.distance put get)
  | drain => putThenGet fun put get => pure ((c.distance put get).map fun _ => ⟨get, get, put⟩)
  | next d => do
      let (slot, cursor) ← scan c d.remaining d.cursor
      pure (slot, { d with cursor })
  | release d => if d.cursor = d.start then pure () else storeWord getOffset d.cursor
  | reset => putThenGet fun put get => do
      storeWord getOffset put
      pure (put - get)
  | inspect => putThenGet fun put get => pure (put, get)

theorem run_scan (r : Ring) (count : Nat) (index : UInt32) :
    (scan r.capacity count index).run r.region.bytes =
      (r.nextSlot count index, r.region.bytes) := by
  induction count generalizing index with
  | zero => rfl
  | succ count ih =>
      rw [scan, Program.run_bind, Program.run_loadRecord, Ring.nextSlot]
      cases Slot.ofRecord? (r.record index) with
      | some slot => rfl
      | none => exact ih (index + 1)

/-- The program of an operation is the operation. -/
theorem run_program (call : RingCall) (r : Ring) :
    (call.program r.capacity).run r.region.bytes =
      ((call.perform r).1, (call.perform r).2.region.bytes) := by
  cases call with
  | push slot =>
      rw [program, perform, Ring.push, r.occupancy_eq_distance, Program.run_getThenPut]
      cases r.capacity.distance r.put r.get with
      | error e => rfl
      | ok queued =>
          simp only [Except.map]
          by_cases full : queued = r.capacity.word
          · simp only [if_pos full, Program.run_pure]
          · simp only [if_neg full, Program.run_bind, Program.run_storeRecord,
              Program.run_storeWord_put, Program.run_pure]
  | next d =>
      rw [program, perform, Program.run_bind, run_scan]
      rfl
  | release d =>
      rw [program, perform, Drain.release]
      by_cases still : d.cursor = d.start
      · rw [if_pos still, if_pos still, Program.run_pure]
      · rw [if_neg still, if_neg still, Program.run_storeWord_get]
  | clear =>
      rw [program, perform, Program.run_bind, Program.run_storeWord_put, Program.run_storeWord_get]
      rfl
  | reset =>
      rw [program, perform, Program.run_putThenGet, Program.run_bind, Program.run_storeWord_get]
      rfl
  | occupancy | free => exact Program.run_getThenPut r _
  | pending | drain | inspect => exact Program.run_putThenGet r _

theorem scan_within (c : Capacity) (count : Nat) (index : UInt32) :
    (scan c count index).Within (requiredSize c.slots) := by
  induction count generalizing index with
  | zero => exact .pure _
  | succ count ih =>
      refine .bind (.loadRecord c index) fun record => ?_
      cases Slot.ofRecord? record with
      | some slot => exact .pure _
      | none => exact ih (index + 1)

/-- No operation of a ring passes the end of the last slot, whatever it loads. -/
theorem program_within (call : RingCall) (c : Capacity) :
    (call.program c).Within (requiredSize c.slots) := by
  have header : headerSize ≤ requiredSize c.slots := Nat.le_add_right ..
  have putWord := Nat.le_trans Ring.putWord_in_header header
  have getWord := Nat.le_trans Ring.getWord_in_header header
  cases call with
  | clear => exact .bind (.storeWord putWord 0) fun _ => .storeWord getWord 0
  | push slot =>
      refine .getThenPut header fun put get => ?_
      cases c.distance put get with
      | error e => exact .pure _
      | ok queued =>
          by_cases full : queued = c.word
          · simp only [if_pos full]
            exact .pure _
          · simp only [if_neg full]
            exact .bind (.storeRecord c put slot.record) fun _ =>
              .bind (.storeWord putWord (put + 1)) fun _ => .pure _
  | next d => exact .bind (scan_within c d.remaining d.cursor) fun _ => .pure _
  | release d =>
      rw [program]
      split
      · exact .pure _
      · exact .storeWord getWord d.cursor
  | reset =>
      exact .putThenGet header fun put _ => .bind (.storeWord getWord put) fun _ => .pure _
  | occupancy | free => exact .getThenPut header fun _ _ => .pure _
  | pending | drain | inspect => exact .putThenGet header fun _ _ => .pure _

/-- An operation that touches no byte from `limit` on. -/
structure Confined (call : RingCall) (r : Ring) (limit : Nat) : Prop where
  /-- None of its accesses passes the limit, whatever it loads on the way. -/
  within : (call.program r.capacity).Within limit
  /-- These accesses are the operation. -/
  runs : (call.program r.capacity).run r.region.bytes =
    ((call.perform r).1, (call.perform r).2.region.bytes)
  /-- The bytes past the limit stay as they are. -/
  keeps : ∀ i, limit ≤ i → (call.perform r).2.region.bytes[i]? = r.region.bytes[i]?
  /-- With other bytes past the limit it does the same. -/
  ignores : ∀ other : Ring, other.capacity = r.capacity →
    (∀ i < limit, other.region.bytes[i]? = r.region.bytes[i]?) →
      (call.perform other).1 = (call.perform r).1 ∧
        ∀ i < limit,
          (call.perform other).2.region.bytes[i]? = (call.perform r).2.region.bytes[i]?

theorem confined (call : RingCall) (r : Ring) :
    call.Confined r (requiredSize r.capacity.slots) := by
  have within := call.program_within r.capacity
  have runs := call.run_program r
  refine ⟨within, runs, ?_, ?_⟩
  · intro i past
    have kept := within.keeps r.region.bytes past
    rwa [runs] at kept
  · intro other capacity agree
    have runsOther := call.run_program other
    rw [capacity] at runsOther
    have same := within.ignores agree
    rwa [runs, runsOther] at same

end RingCall

end CanLink
