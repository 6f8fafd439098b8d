import CanLink.Proofs.Ring.Pending

/-!
The two sides of a ring, step by step. Each side loads both index words, checks them, copies the
bytes of slots in parts of any size and order, and stores its own index word. `Exchange` is a ring
with a side at work at each end; `Exchange.run` lets the two take turns in any order. What one side
has loaded may be out of date by the time it goes on. Undisturbed, the steps of one side are an
operation of the ring: those of the producer are `Ring.push` (`produce_undisturbed`), and those of
the consumer are `Ring.drainAll` (`consume_undisturbed`).
-/

namespace CanLink

/-- A part of a record, copied at once. -/
structure Part where
  start : Nat
  size : Nat
  fits : start + size ≤ slotSize

namespace Part

def whole : Part := ⟨0, slotSize, Nat.le_refl _⟩

def covers (p : Part) (i : Nat) : Bool := p.start ≤ i && i < p.start + p.size

/-- The bytes that are missing once the part is copied. -/
def reduce (p : Part) (missing : List Nat) : List Nat := missing.filter fun i => !p.covers i

/-- The bytes of a part. -/
def bytes (p : Part) (r : Record) : Bytes := (slice r p.start p.size p.fits).toList

/-- A record with a part replaced by that of another one. -/
def replace (p : Part) (old new : Record) : Record :=
  Vector.ofFn fun i => if p.covers i then new[i] else old[i]

end Part

/-- All bytes of a record, for a copy that has not begun. -/
def everyByte : List Nat := List.range slotSize

/-- Number of queued slots for two index words that were loaded, or an error if they claim more than
the ring holds. -/
def Ring.used (r : Ring) (put get : UInt32) : Except Error UInt32 :=
  let queued := put - get
  if r.capacity.word < queued then .error (.impossibleIndices put get r.capacity.word)
  else .ok queued

theorem Ring.occupancy_eq_used (r : Ring) : r.occupancy = r.used r.put r.get := rfl

/-- The ring with a part of a record written into the slot of an index. -/
def Ring.writePart (r : Ring) (index : UInt32) (part : Part) (record : Record) : Ring :=
  r.write (r.slotOffset index + part.start) (part.bytes record)

/-- How far the producer got with putting a slot in. -/
inductive ProducerPoint where
  | idle
  | gotGet (slot : Slot) (get : UInt32)
  | gotBoth (slot : Slot) (get put : UInt32)
  /-- Some bytes of the slot are missing in the ring. -/
  | writing (slot : Slot) (put : UInt32) (missing : List Nat)

inductive ProducerStep where
  /-- Begins to put a slot in. -/
  | loadGet (slot : Slot)
  | loadPut
  | check
  | write (part : Part)
  | storePut

/-- How far the consumer got with a drain. -/
inductive ConsumerPoint where
  | idle
  | gotPut (put : UInt32)
  | gotBoth (put get : UInt32)
  | between (drain : Drain)
  /-- Some bytes of the slot at the cursor are missing in the buffer. -/
  | copying (drain : Drain) (buffer : Record) (missing : List Nat)

inductive ConsumerStep where
  | loadPut
  | loadGet
  | check
  /-- Turns to the slot at the cursor. -/
  | visit
  | copy (part : Part)
  /-- Reads the slot out of the buffer. -/
  | finish
  | storeGet

/-- A ring with both sides at work. -/
structure Exchange where
  ring : Ring
  producer : ProducerPoint
  consumer : ConsumerPoint
  /-- Slots that were put in, oldest first. -/
  published : List Slot
  /-- Slots that the consumer copied out, oldest first. -/
  copied : List Slot
  /-- Errors that either side found. -/
  reports : List Error

namespace Exchange

def start (r : Ring) : Exchange := ⟨r, .idle, .idle, [], [], []⟩

/-- One step of the producer; a step that is not due does nothing. -/
def produce (step : ProducerStep) (x : Exchange) : Exchange :=
  match step, x.producer with
  | .loadGet slot, .idle => { x with producer := .gotGet slot x.ring.get }
  | .loadPut, .gotGet slot get => { x with producer := .gotBoth slot get x.ring.put }
  | .check, .gotBoth slot get put =>
      match x.ring.used put get with
      | .error e => { x with producer := .idle, reports := x.reports ++ [e] }
      | .ok queued =>
          if queued = x.ring.capacity.word then { x with producer := .idle }
          else { x with producer := .writing slot put everyByte }
  | .write part, .writing slot put missing =>
      { x with
        ring := x.ring.writePart put part slot.record
        producer := .writing slot put (part.reduce missing) }
  | .storePut, .writing slot put [] =>
      { x with
        ring := x.ring.storePut (put + 1)
        producer := .idle
        published := x.published ++ [slot] }
  | _, _ => x

/-- One step of the consumer; a step that is not due does nothing. -/
def consume (step : ConsumerStep) (x : Exchange) : Exchange :=
  match step, x.consumer with
  | .loadPut, .idle => { x with consumer := .gotPut x.ring.put }
  | .loadGet, .gotPut put => { x with consumer := .gotBoth put x.ring.get }
  | .check, .gotBoth put get =>
      match x.ring.used put get with
      | .error e => { x with consumer := .idle, reports := x.reports ++ [e] }
      | .ok _ => { x with consumer := .between ⟨get, get, put⟩ }
  | .visit, .between d =>
      if d.cursor = d.put then x else { x with consumer := .copying d (zeros _) everyByte }
  | .copy part, .copying d buffer missing =>
      { x with
        consumer := .copying d (part.replace buffer (x.ring.record d.cursor))
          (part.reduce missing) }
  | .finish, .copying d buffer [] =>
      { x with
        consumer := .between { d with cursor := d.cursor + 1 }
        copied := x.copied ++ (Slot.ofRecord? buffer).toList }
  | .storeGet, .between d => { x with ring := d.release x.ring, consumer := .idle }
  | _, _ => x

/-- A step of one of the sides. -/
inductive Turn where
  | producer (step : ProducerStep)
  | consumer (step : ConsumerStep)

def step (x : Exchange) : Turn → Exchange
  | .producer s => x.produce s
  | .consumer s => x.consume s

def run (turns : List Turn) (x : Exchange) : Exchange := turns.foldl step x

end Exchange

/-! ### One side undisturbed -/

namespace Part

theorem bytes_whole (r : Record) : whole.bytes r = r.toList := by
  apply List.ext_getElem <;> simp [bytes, whole, slice]

@[simp] theorem replace_whole (old new : Record) : whole.replace old new = new := by
  apply Vector.ext
  intro i inside
  simp [replace, covers, whole]

@[simp] theorem reduce_whole : whole.reduce everyByte = [] := by
  simp [reduce, everyByte, covers, whole]

end Part

theorem Ring.writePart_whole (r : Ring) (index : UInt32) (record : Record) :
    r.writePart index .whole record = r.storeRecord index record := by
  rw [writePart, Part.bytes_whole]
  rfl

namespace Exchange

/-- The steps of a whole push. -/
def pushSteps (slot : Slot) : List Turn :=
  [.producer (.loadGet slot), .producer .loadPut, .producer .check, .producer (.write .whole),
    .producer .storePut]

/-- A producer that is not disturbed puts a slot in. -/
theorem produce_undisturbed (slot : Slot) {x : Exchange} (idle : x.producer = .idle) :
    run (pushSteps slot) x =
      match x.ring.push slot with
      | .error e => { x with reports := x.reports ++ [e] }
      | .ok none => x
      | .ok (some ring) => { x with ring, published := x.published ++ [slot] } := by
  obtain ⟨ring, producer, consumer, published, copied, reports⟩ := x
  cases idle
  simp only [run, pushSteps, List.foldl_cons, List.foldl_nil, step, produce, Ring.push,
    Ring.occupancy_eq_used]
  cases ring.used ring.put ring.get with
  | error e => rfl
  | ok queued =>
      simp only [Except.map]
      by_cases full : queued = ring.capacity.word
      · simp only [if_pos full]
      · simp only [if_neg full, Part.reduce_whole, Ring.writePart_whole]

/-- The steps that copy out one slot. -/
def visitSteps : List Turn :=
  [.consumer .visit, .consumer (.copy .whole), .consumer .finish]

/-- The steps of a drain that visits `count` slots. -/
def drainSteps (count : Nat) : List Turn :=
  [.consumer .loadPut, .consumer .loadGet, .consumer .check] ++
    (List.replicate count visitSteps).flatten ++ [.consumer .storeGet]

theorem run_append (before after : List Turn) (x : Exchange) :
    run (before ++ after) x = run after (run before x) :=
  List.foldl_append

theorem visits_of_idle (count : Nat) {x : Exchange} (idle : x.consumer = .idle) :
    run (List.replicate count visitSteps).flatten x = x := by
  have one : run visitSteps x = x := by
    obtain ⟨ring, producer, consumer, published, copied, reports⟩ := x
    cases idle
    rfl
  induction count with
  | zero => rfl
  | succ count ih => rw [List.replicate_succ, List.flatten_cons, run_append, one, ih]

theorem visit_undisturbed {x : Exchange} {d : Drain} (between : x.consumer = .between d)
    (more : d.cursor ≠ d.put) :
    run visitSteps x =
      { x with
        consumer := .between { d with cursor := d.cursor + 1 }
        copied := x.copied ++ (Slot.ofRecord? (x.ring.record d.cursor)).toList } := by
  obtain ⟨ring, producer, consumer, published, copied, reports⟩ := x
  cases between
  simp only [run, visitSteps, List.foldl_cons, List.foldl_nil, step, consume, if_neg more,
    Part.reduce_whole, Part.replace_whole]

/-- Visits copy out the slots in the records that they come to. -/
theorem visits_undisturbed (count : Nat) {x : Exchange} {d : Drain}
    (between : x.consumer = .between d) (within : count ≤ d.remaining) :
    run (List.replicate count visitSteps).flatten x =
      { x with
        consumer := .between { d with cursor := d.cursor + UInt32.ofNat count }
        copied := x.copied ++ x.ring.slotsIn count d.cursor } := by
  induction count generalizing x d with
  | zero =>
      obtain ⟨ring, producer, consumer, published, copied, reports⟩ := x
      cases between
      simp [run, Ring.slotsIn, Ring.records]
  | succ count ih =>
      have more : d.cursor ≠ d.put := by
        intro reached
        simp [Drain.remaining, reached] at within
      have left : count ≤ Drain.remaining { d with cursor := d.cursor + 1 } := by
        have first : 1 ≤ d.remaining := by omega
        have shorter : (d.put - (d.cursor + UInt32.ofNat 1)).toNat = d.remaining - 1 :=
          toNat_sub_add_ofNat first
        change count ≤ (d.put - (d.cursor + UInt32.ofNat 1)).toNat
        omega
      rw [List.replicate_succ, List.flatten_cons, run_append, visit_undisturbed between more,
        ih rfl left, index_succ, Ring.slotsIn_succ, List.append_assoc]

/-- A consumer that is not disturbed drains everything. -/
theorem consume_undisturbed {x : Exchange} (idle : x.consumer = .idle) :
    run (drainSteps x.ring.queued.length) x =
      match x.ring.drainAll with
      | .error e => { x with reports := x.reports ++ [e] }
      | .ok (slots, ring) => { x with ring, copied := x.copied ++ slots } := by
  obtain ⟨ring, producer, consumer, published, copied, reports⟩ := x
  cases idle
  rw [drainSteps, run_append, run_append]
  simp only [Ring.drainAll, Ring.drain, Ring.occupancy_eq_used]
  cases checked : ring.used ring.put ring.get with
  | error e =>
      have refused : run [.consumer .loadPut, .consumer .loadGet, .consumer .check]
          ⟨ring, producer, .idle, published, copied, reports⟩ =
            ⟨ring, producer, .idle, published, copied, reports ++ [e]⟩ := by
        simp only [run, List.foldl_cons, List.foldl_nil, step, consume, checked]
      rw [refused, visits_of_idle _ rfl]
      rfl
  | ok queued =>
      have began : run [.consumer .loadPut, .consumer .loadGet, .consumer .check]
          ⟨ring, producer, .idle, published, copied, reports⟩ =
            ⟨ring, producer, .between ⟨ring.get, ring.get, ring.put⟩, published, copied,
              reports⟩ := by
        simp only [run, List.foldl_cons, List.foldl_nil, step, consume, checked]
      have whole : ring.queued.length = (Drain.mk ring.get ring.get ring.put).remaining :=
        ring.length_queued
      rw [began, visits_undisturbed _ rfl (Nat.le_of_eq whole)]
      simp only [Except.map, Drain.take_eq (Nat.le_refl _), whole]
      have reached : ring.get + UInt32.ofNat (Drain.mk ring.get ring.get ring.put).remaining =
          ring.put := index_eq_add_sub ..
      simp only [reached]
      rfl

end Exchange

end CanLink
