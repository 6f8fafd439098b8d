import CanLink.Proofs.Ring.Steps
import Mathlib.Data.List.Infix

/-!
Two sides that take turns in any order do not get in each other's way. Each side goes by what it
loaded of the other's index word, which may be out of date; but an index word only ever moves to the
other side's advantage, so a side that is behind is careful, never wrong. `Exchange.Agrees` follows
both sides by counts that do not wrap: of the slots put in, given back and copied out. Every step of
either side keeps it (`Agrees.produce`, `Agrees.consume`), and so every run is safe
(`interleaving_is_safe`): the indices stay possible, no slot is written that a drain may read, and
what is copied out is what was put in, in order.
-/

namespace CanLink

/-! ### Counts and their words -/

theorem count_succ (base : UInt32) (n : Nat) :
    base + UInt32.ofNat n + 1 = base + UInt32.ofNat (n + 1) := by
  rw [UInt32.ofNat_add, ← UInt32.add_assoc]
  rfl

namespace Ring

variable (r : Ring)

/-- Index words of counts that the ring can hold pass the check. -/
theorem used_of_counts (base : UInt32) {low high : Nat} (order : low ≤ high)
    (within : high ≤ low + r.capacity.slots) :
    ∃ queued, r.used (base + UInt32.ofNat high) (base + UInt32.ofNat low) = .ok queued ∧
      (queued = r.capacity.word ↔ high = low + r.capacity.slots) := by
  have maximum : r.capacity.slots ≤ 2 ^ 31 := r.capacity.slots_le_maximum
  have distance := toNat_sub_counts base order (by omega)
  have allowed : ¬ r.capacity.word <
      base + UInt32.ofNat high - (base + UInt32.ofNat low) := by
    rw [UInt32.lt_iff_toNat_lt, r.capacity.toNat_word, distance]
    omega
  refine ⟨_, if_neg allowed, ?_⟩
  rw [← UInt32.toNat_inj, distance, r.capacity.toNat_word]
  omega

/-! ### Writing a part of a slot -/

@[simp] theorem capacity_writePart (index : UInt32) (part : Part) (record : Record) :
    (r.writePart index part record).capacity = r.capacity := rfl

@[simp] theorem put_writePart (index : UInt32) (part : Part) (record : Record) :
    (r.writePart index part record).put = r.put := by
  have behind : 8 ≤ r.slotOffset index := (r.slotOffset_bounds index).1
  simp only [put, Region.word, writePart, write, Region.write]
  rw [Memory.window_write_of_disjoint (by simp only [putOffset]; omega)]

@[simp] theorem get_writePart (index : UInt32) (part : Part) (record : Record) :
    (r.writePart index part record).get = r.get := by
  have behind : 8 ≤ r.slotOffset index := (r.slotOffset_bounds index).1
  simp only [get, Region.word, writePart, write, Region.write]
  rw [Memory.window_write_of_disjoint (by simp only [getOffset]; omega)]

theorem record_writePart_of_ne {index i : UInt32} (part : Part) (record : Record)
    (differ : i.toNat % r.capacity.slots ≠ index.toNat % r.capacity.slots) :
    (r.writePart index part record).record i = r.record i := by
  have fits := part.fits
  have length : (part.bytes record).length = part.size := by simp [Part.bytes]
  refine r.record_write_of_disjoint ?_
  rw [length]
  rcases r.slotOffset_apart differ with before | after
  · exact .inl (by omega)
  · exact .inr (by omega)

/-- Writing the slot of one count leaves those of the counts before it that the ring can hold
together with it. -/
theorem record_writePart_of_lt (base : UInt32) (part : Part) (record : Record) {i n : Nat}
    (before : i < n) (near : n < i + r.capacity.slots) :
    (r.writePart (base + UInt32.ofNat n) part record).record (base + UInt32.ofNat i) =
      r.record (base + UInt32.ofNat i) :=
  r.record_writePart_of_ne part record (r.capacity.index_apart base before near)

/-- The bytes of the slot that a part covers are those written, the others stay. -/
theorem getElem_record_writePart (index : UInt32) (part : Part) (new : Record) {i : Nat}
    (inside : i < 80) :
    ((r.writePart index part new).record index)[i] =
      if part.covers i then new[i] else (r.record index)[i] := by
  have fits : part.start + part.size ≤ 80 := part.fits
  have bound : r.slotOffset index + 80 ≤ r.region.bytes.size := (r.slotOffset_bounds index).2
  have length : (part.bytes new).length = part.size := by simp [Part.bytes]
  change (Memory.window 80 (r.slotOffset index) (Memory.write (r.slotOffset index + part.start)
      (part.bytes new) r.region.bytes))[i] =
    if part.covers i then new[i]
    else (Memory.window 80 (r.slotOffset index) r.region.bytes)[i]
  rw [Memory.getElem_window, Memory.getElem_window, Memory.getElem?_write, length]
  by_cases covered : part.start ≤ i ∧ i < part.start + part.size
  · have place : r.slotOffset index + i - (r.slotOffset index + part.start) = i - part.start := by
      omega
    have back : part.start + (i - part.start) = i := by omega
    have within : i - part.start < part.size := by omega
    rw [if_pos (by omega), place]
    simp [Part.covers, covered, Part.bytes, slice, within, back]
  · have outside : ¬ (r.slotOffset index + part.start ≤ r.slotOffset index + i ∧
        r.slotOffset index + i < r.slotOffset index + part.start + part.size ∧
        r.slotOffset index + i < r.region.bytes.size) := by omega
    have uncovered : part.covers i = false := by simpa [Part.covers] using covered
    rw [if_neg outside, uncovered, if_neg Bool.false_ne_true]

end Ring

namespace Drain

@[simp] theorem put_release (r : Ring) (d : Drain) : (d.release r).put = r.put := by
  rw [release]
  split
  · rfl
  · exact r.put_storeGet _

@[simp] theorem record_release (r : Ring) (d : Drain) (i : UInt32) :
    (d.release r).record i = r.record i := by
  rw [release]
  split
  · rfl
  · exact r.record_storeGet _ _

theorem get_release {r : Ring} {d : Drain} (began : d.start = r.get) :
    (d.release r).get = d.cursor := by
  rw [release]
  split
  · rename_i still
    rw [still, began]
  · exact r.get_storeGet _

end Drain

theorem Part.getElem_replace (part : Part) (old new : Record) {i : Nat} (inside : i < 80) :
    (part.replace old new)[i] = if part.covers i then new[i] else old[i] := by
  simp [replace]

/-- The drain in progress. -/
def ConsumerPoint.drain? : ConsumerPoint → Option Drain
  | between d | copying d _ _ => some d
  | _ => none

/-! ### What each side knows -/

/-- How the producer stands to a ring in which `published` slots were put in and of these `released`
given back. The get index that it loaded may be out of date, but it errs on the safe side. -/
def ProducerPoint.Agrees (base : UInt32) (released published : Nat) (r : Ring) :
    ProducerPoint → Prop
  | idle => True
  | gotGet _ get =>
      ∃ seen ≤ released, get = base + UInt32.ofNat seen ∧ published ≤ seen + r.capacity.slots
  | gotBoth _ get put =>
      put = base + UInt32.ofNat published ∧
        ∃ seen ≤ released, get = base + UInt32.ofNat seen ∧ published ≤ seen + r.capacity.slots
  | writing slot put missing =>
      put = base + UInt32.ofNat published ∧ published < released + r.capacity.slots ∧
        ∀ i (inside : i < 80), i ∉ missing → (r.record put)[i] = slot.record[i]

/-- A drain that began with `released` slots given back and saw `seen` slots, and whose next slot is
the one after `copied` others. -/
structure Drain.Agrees (base : UInt32) (released copied seen : Nat) (d : Drain) : Prop where
  start : d.start = base + UInt32.ofNat released
  cursor : d.cursor = base + UInt32.ofNat copied
  put : d.put = base + UInt32.ofNat seen

/-- How the consumer stands to the slots that were put in, of which it copied out `copied` and gave
back `released`. The put index that it loaded may be out of date, but it errs on the safe side. -/
def ConsumerPoint.Agrees (base : UInt32) (released copied : Nat) (published : List Slot) :
    ConsumerPoint → Prop
  | idle => copied = released
  | gotPut put =>
      copied = released ∧
        ∃ seen, released ≤ seen ∧ seen ≤ published.length ∧ put = base + UInt32.ofNat seen
  | gotBoth put get =>
      copied = released ∧ get = base + UInt32.ofNat released ∧
        ∃ seen, released ≤ seen ∧ seen ≤ published.length ∧ put = base + UInt32.ofNat seen
  | between d =>
      ∃ seen, copied ≤ seen ∧ seen ≤ published.length ∧ d.Agrees base released copied seen
  | copying d buffer missing =>
      ∃ seen, copied < seen ∧ seen ≤ published.length ∧ d.Agrees base released copied seen ∧
        ∃ slot, published[copied]? = some slot ∧
          ∀ i (inside : i < 80), i ∉ missing → buffer[i] = slot.record[i]

/-- What the producer knows stays true when the consumer gives slots back. -/
theorem ProducerPoint.Agrees.release {base : UInt32} {released released' published : Nat}
    {r r' : Ring} {p : ProducerPoint} (h : p.Agrees base released published r)
    (more : released ≤ released') (capacity : r'.capacity = r.capacity)
    (records : ∀ i, r'.record i = r.record i) : p.Agrees base released' published r' := by
  cases p with
  | idle => trivial
  | gotGet slot get =>
      obtain ⟨seen, old, loaded, room⟩ := h
      exact ⟨seen, Nat.le_trans old more, loaded, capacity ▸ room⟩
  | gotBoth slot get put =>
      obtain ⟨own, seen, old, loaded, room⟩ := h
      exact ⟨own, seen, Nat.le_trans old more, loaded, capacity ▸ room⟩
  | writing slot put missing =>
      obtain ⟨own, room, written⟩ := h
      refine ⟨own, ?_, ?_⟩
      · rw [capacity]
        omega
      · rw [records]
        exact written

/-- What the consumer knows stays true when the producer puts a slot in. -/
theorem ConsumerPoint.Agrees.publish {base : UInt32} {released copied : Nat}
    {published : List Slot} {c : ConsumerPoint} (h : c.Agrees base released copied published)
    (slot : Slot) : c.Agrees base released copied (published ++ [slot]) := by
  have longer : published.length ≤ (published ++ [slot]).length := by simp
  cases c with
  | idle => exact h
  | gotPut put =>
      obtain ⟨idle, seen, low, high, loaded⟩ := h
      exact ⟨idle, seen, low, Nat.le_trans high longer, loaded⟩
  | gotBoth put get =>
      obtain ⟨idle, own, seen, low, high, loaded⟩ := h
      exact ⟨idle, own, seen, low, Nat.le_trans high longer, loaded⟩
  | between d =>
      obtain ⟨seen, low, high, drain⟩ := h
      exact ⟨seen, low, Nat.le_trans high longer, drain⟩
  | copying d buffer missing =>
      obtain ⟨seen, low, high, drain, next, stored, bytes⟩ := h
      refine ⟨seen, low, Nat.le_trans high longer, drain, next, ?_, bytes⟩
      rw [List.getElem?_append_left (by omega)]
      exact stored

namespace Exchange

/-- Both sides agree with what was done so far: the index words count the slots put in and given
back, the slots in between are in the ring, and those copied out are the first ones put in. -/
structure Agrees (base : UInt32) (released : Nat) (x : Exchange) : Prop where
  put : x.ring.put = base + UInt32.ofNat x.published.length
  get : x.ring.get = base + UInt32.ofNat released
  releasedCopied : released ≤ x.copied.length
  room : x.published.length ≤ released + x.ring.capacity.slots
  stored : ∀ i slot, released ≤ i → x.published[i]? = some slot →
    x.ring.record (base + UInt32.ofNat i) = slot.record
  inOrder : x.copied <+: x.published
  silent : x.reports = []
  producer : x.producer.Agrees base released x.published.length x.ring
  consumer : x.consumer.Agrees base released x.copied.length x.published

namespace Agrees

variable {base : UInt32} {released : Nat} {x : Exchange}

theorem start {r : Ring} (empty : r.put = r.get) : Agrees r.get 0 (start r) where
  put := by simpa [Exchange.start] using empty
  get := by simp [Exchange.start]
  releasedCopied := Nat.le_refl _
  room := Nat.zero_le _
  stored := by simp [Exchange.start]
  inOrder := List.prefix_rfl
  silent := rfl
  producer := trivial
  consumer := rfl

theorem copied_le (h : Agrees base released x) : x.copied.length ≤ x.published.length :=
  h.inOrder.length_le

/-- Replacing what the producer alone knows. -/
theorem of_producer (h : Agrees base released x) {p : ProducerPoint}
    (agrees : p.Agrees base released x.published.length x.ring) :
    Agrees base released { x with producer := p } :=
  { h with producer := agrees }

theorem of_consumer (h : Agrees base released x) {c : ConsumerPoint}
    (agrees : c.Agrees base released x.copied.length x.published) :
    Agrees base released { x with consumer := c } :=
  { h with consumer := agrees }

theorem produce_check (h : Agrees base released x) {slot : Slot} {get put : UInt32}
    (point : x.producer = .gotBoth slot get put) : Agrees base released (x.produce .check) := by
  have knows := h.producer
  rw [point] at knows
  obtain ⟨own, seen, old, loaded, room⟩ := knows
  have order : seen ≤ x.published.length :=
    Nat.le_trans old (Nat.le_trans h.releasedCopied h.copied_le)
  obtain ⟨queued, passed, full⟩ := x.ring.used_of_counts base order room
  simp only [Exchange.produce, point, own, loaded, passed]
  split
  · exact h.of_producer trivial
  · rename_i free
    have differ := mt full.mpr free
    refine h.of_producer ⟨rfl, by omega, ?_⟩
    intro i inside present
    exact absurd (List.mem_range.mpr inside) present

theorem produce_write (h : Agrees base released x) {slot : Slot} {put : UInt32}
    {missing : List Nat} (point : x.producer = .writing slot put missing) (part : Part) :
    Agrees base released (x.produce (.write part)) := by
  have knows := h.producer
  rw [point] at knows
  obtain ⟨rfl, room, written⟩ := knows
  simp only [Exchange.produce, point]
  refine
    { put := (x.ring.put_writePart ..).trans h.put
      get := (x.ring.get_writePart ..).trans h.get
      releasedCopied := h.releasedCopied
      room := h.room
      stored := ?_
      inOrder := h.inOrder
      silent := h.silent
      producer := ⟨rfl, room, ?_⟩
      consumer := h.consumer }
  · intro i slot' low present
    have high : i < x.published.length := (List.getElem?_eq_some_iff.mp present).1
    rw [x.ring.record_writePart_of_lt base part _ high (by omega)]
    exact h.stored i slot' low present
  · intro i inside copied
    rw [x.ring.getElem_record_writePart _ part _ inside]
    split
    · rfl
    · rename_i uncovered
      refine written i inside fun left => copied ?_
      exact List.mem_filter.mpr ⟨left, by simpa using uncovered⟩

theorem produce_storePut (h : Agrees base released x) {slot : Slot} {put : UInt32}
    (point : x.producer = .writing slot put []) :
    Agrees base released (x.produce .storePut) := by
  have knows := h.producer
  rw [point] at knows
  obtain ⟨rfl, room, written⟩ := knows
  have whole : x.ring.record (base + UInt32.ofNat x.published.length) = slot.record :=
    Vector.ext fun i inside => written i inside List.not_mem_nil
  have counted : (x.published ++ [slot]).length = x.published.length + 1 := List.length_append
  simp only [Exchange.produce, point]
  refine
    { put := ?_
      get := (x.ring.get_storePut _).trans h.get
      releasedCopied := h.releasedCopied
      room := ?_
      stored := ?_
      inOrder := h.inOrder.trans (List.prefix_append ..)
      silent := h.silent
      producer := trivial
      consumer := h.consumer.publish slot }
  · rw [x.ring.put_storePut, count_succ, counted]
  · rw [counted]
    exact room
  · intro i slot' low present
    simp only [x.ring.record_storePut]
    rcases Nat.lt_or_ge i x.published.length with old | new
    · rw [List.getElem?_append_left old] at present
      exact h.stored i slot' low present
    · have last : i = x.published.length := by
        have bound : i < (x.published ++ [slot]).length := (List.getElem?_eq_some_iff.mp present).1
        omega
      subst last
      rw [List.getElem?_concat_length] at present
      cases present
      exact whole

/-- Every step of the producer keeps the two sides in agreement. -/
theorem produce (h : Agrees base released x) (step : ProducerStep) :
    Agrees base released (x.produce step) := by
  have knows := h.producer
  cases point : x.producer with
  | idle =>
      cases step with
      | loadGet slot =>
          simp only [Exchange.produce, point]
          exact h.of_producer ⟨released, Nat.le_refl _, h.get, h.room⟩
      | _ => simpa only [Exchange.produce, point] using h
  | gotGet slot get =>
      cases step with
      | loadPut =>
          rw [point] at knows
          simp only [Exchange.produce, point]
          exact h.of_producer ⟨h.put, knows⟩
      | _ => simpa only [Exchange.produce, point] using h
  | gotBoth slot get put =>
      cases step with
      | check => exact h.produce_check point
      | _ => simpa only [Exchange.produce, point] using h
  | writing slot put missing =>
      cases step with
      | write part => exact h.produce_write point part
      | storePut =>
          cases missing with
          | nil => exact h.produce_storePut point
          | cons => simpa only [Exchange.produce, point] using h
      | _ => simpa only [Exchange.produce, point] using h

/-- Where the drain stands, the slot is one that was put in and is not given back. -/
theorem exists_at_cursor (h : Agrees base released x) {seen : Nat} {d : Drain}
    (drain : d.Agrees base released x.copied.length seen) (more : x.copied.length < seen)
    (known : seen ≤ x.published.length) :
    ∃ slot, x.published[x.copied.length]? = some slot ∧ x.ring.record d.cursor = slot.record := by
  have bound : x.copied.length < x.published.length := by omega
  have present := List.getElem?_eq_getElem bound
  refine ⟨_, present, ?_⟩
  rw [drain.cursor]
  exact h.stored _ _ h.releasedCopied present

theorem consume_check (h : Agrees base released x) {put get : UInt32}
    (point : x.consumer = .gotBoth put get) : Agrees base released (x.consume .check) := by
  have knows := h.consumer
  rw [point] at knows
  obtain ⟨idle, own, seen, low, high, loaded⟩ := knows
  have within : seen ≤ released + x.ring.capacity.slots := Nat.le_trans high h.room
  obtain ⟨queued, passed, -⟩ := x.ring.used_of_counts base low within
  simp only [Exchange.consume, point, own, loaded, passed]
  refine h.of_consumer ⟨seen, by omega, high, rfl, ?_, rfl⟩
  rw [idle]

theorem consume_visit (h : Agrees base released x) {d : Drain} (point : x.consumer = .between d) :
    Agrees base released (x.consume .visit) := by
  have knows := h.consumer
  rw [point] at knows
  obtain ⟨seen, low, high, drain⟩ := knows
  simp only [Exchange.consume, point]
  split
  · exact h
  · rename_i differ
    have more : x.copied.length < seen := by
      refine Nat.lt_of_le_of_ne low fun reached => differ ?_
      rw [drain.cursor, drain.put, reached]
    obtain ⟨slot, present, -⟩ := h.exists_at_cursor drain more high
    refine h.of_consumer ⟨seen, more, high, drain, slot, present, ?_⟩
    intro i inside copied
    exact absurd (List.mem_range.mpr inside) copied

theorem consume_copy (h : Agrees base released x) {d : Drain} {buffer : Record}
    {missing : List Nat} (point : x.consumer = .copying d buffer missing) (part : Part) :
    Agrees base released (x.consume (.copy part)) := by
  have knows := h.consumer
  rw [point] at knows
  obtain ⟨seen, more, high, drain, slot, present, bytes⟩ := knows
  obtain ⟨slot', present', stored⟩ := h.exists_at_cursor drain more high
  obtain rfl : slot = slot' := Option.some.inj (present.symm.trans present')
  simp only [Exchange.consume, point]
  refine h.of_consumer ⟨seen, more, high, drain, slot, present, ?_⟩
  intro i inside copied
  rw [part.getElem_replace _ _ inside]
  split
  · rw [stored]
  · rename_i uncovered
    refine bytes i inside fun left => copied ?_
    exact List.mem_filter.mpr ⟨left, by simpa using uncovered⟩

theorem consume_finish (h : Agrees base released x) {d : Drain} {buffer : Record}
    (point : x.consumer = .copying d buffer []) : Agrees base released (x.consume .finish) := by
  have knows := h.consumer
  rw [point] at knows
  obtain ⟨seen, more, high, drain, slot, present, bytes⟩ := knows
  have whole : buffer = slot.record := Vector.ext fun i inside => bytes i inside List.not_mem_nil
  have counted : (x.copied ++ [slot]).length = x.copied.length + 1 := List.length_append
  simp only [Exchange.consume, point, whole, Slot.ofRecord?_record, Option.toList_some]
  have given : released ≤ (x.copied ++ [slot]).length := by
    rw [counted]
    exact Nat.le_succ_of_le h.releasedCopied
  have seenMore : (x.copied ++ [slot]).length ≤ seen := by
    rw [counted]
    exact more
  refine
    { h with
      releasedCopied := given
      inOrder := by
        obtain ⟨bound, rfl⟩ := List.getElem?_eq_some_iff.mp present
        exact List.concat_get_prefix h.inOrder bound
      consumer := ⟨seen, seenMore, high, drain.start, ?_, drain.put⟩ }
  rw [counted, ← count_succ, drain.cursor]

theorem consume_storeGet (h : Agrees base released x) {d : Drain}
    (point : x.consumer = .between d) :
    Agrees base x.copied.length (x.consume .storeGet) := by
  have knows := h.consumer
  rw [point] at knows
  obtain ⟨seen, low, high, drain⟩ := knows
  have room := h.room
  have released := h.releasedCopied
  simp only [Exchange.consume, point]
  refine
    { put := (d.put_release x.ring).trans h.put
      get := ?_
      releasedCopied := Nat.le_refl _
      room := ?_
      stored := ?_
      inOrder := h.inOrder
      silent := h.silent
      producer := ?_
      consumer := rfl }
  · rw [Drain.get_release (drain.start.trans h.get.symm), drain.cursor]
  · simp only [Drain.capacity_release]
    omega
  · intro i slot low present
    simp only [Drain.record_release]
    exact h.stored i slot (by omega) present
  · exact h.producer.release released (Drain.capacity_release ..) (d.record_release x.ring)

/-- Every step of the consumer keeps the two sides in agreement, and takes back no slot that was
given back. -/
theorem consume (h : Agrees base released x) (step : ConsumerStep) :
    ∃ released' ≥ released, Agrees base released' (x.consume step) := by
  have knows := h.consumer
  have kept (after : Agrees base released (x.consume step)) :
      ∃ released' ≥ released, Agrees base released' (x.consume step) :=
    ⟨released, Nat.le_refl _, after⟩
  have still (same : x.consume step = x) :
      ∃ released' ≥ released, Agrees base released' (x.consume step) :=
    kept (by rwa [same])
  cases point : x.consumer with
  | idle =>
      rw [point] at knows
      cases step with
      | loadPut =>
          refine kept ?_
          simp only [Exchange.consume, point]
          refine h.of_consumer ⟨knows, _, ?_, Nat.le_refl _, h.put⟩
          exact Nat.le_trans h.releasedCopied h.copied_le
      | _ => exact still (by simp only [Exchange.consume, point])
  | gotPut put =>
      rw [point] at knows
      cases step with
      | loadGet =>
          refine kept ?_
          simp only [Exchange.consume, point]
          exact h.of_consumer ⟨knows.1, h.get, knows.2⟩
      | _ => exact still (by simp only [Exchange.consume, point])
  | gotBoth put get =>
      cases step with
      | check => exact kept (h.consume_check point)
      | _ => exact still (by simp only [Exchange.consume, point])
  | between d =>
      cases step with
      | visit => exact kept (h.consume_visit point)
      | storeGet => exact ⟨_, h.releasedCopied, h.consume_storeGet point⟩
      | _ => exact still (by simp only [Exchange.consume, point])
  | copying d buffer missing =>
      cases step with
      | copy part => exact kept (h.consume_copy point part)
      | finish =>
          cases missing with
          | nil => exact kept (h.consume_finish point)
          | cons => exact still (by simp only [Exchange.consume, point])
      | _ => exact still (by simp only [Exchange.consume, point])

theorem step (h : Agrees base released x) (turn : Turn) :
    ∃ released' ≥ released, Agrees base released' (x.step turn) := by
  cases turn with
  | producer s => exact ⟨released, Nat.le_refl _, h.produce s⟩
  | consumer s => exact h.consume s

/-- Along a run the slots given back only become more. -/
theorem advance (h : Agrees base released x) (turns : List Turn) :
    ∃ released' ≥ released, Agrees base released' (x.run turns) := by
  induction turns generalizing x released with
  | nil => exact ⟨released, Nat.le_refl _, h⟩
  | cons turn rest ih =>
      obtain ⟨next, more, after⟩ := h.step turn
      obtain ⟨last, evenMore, agrees⟩ := ih after
      exact ⟨last, Nat.le_trans more evenMore, agrees⟩

/-- The two sides agree at every point of every run. -/
theorem run (h : Agrees base released x) (turns : List Turn) :
    ∃ released', Agrees base released' (x.run turns) := by
  obtain ⟨released', -, agrees⟩ := h.advance turns
  exact ⟨released', agrees⟩

end Agrees

/-- The slot that the producer is writing is none of those that the drain in progress covers. -/
def WritesApart (x : Exchange) : Prop :=
  ∀ slot put missing d, x.producer = .writing slot put missing → x.consumer.drain? = some d →
    ∀ i < (d.put - d.start).toNat,
      x.ring.slotOffset put + slotSize ≤ x.ring.slotOffset (d.start + UInt32.ofNat i) ∨
        x.ring.slotOffset (d.start + UInt32.ofNat i) + slotSize ≤ x.ring.slotOffset put

/-- What the consumer has copied of a slot are bytes of the slot that was put in next after those
copied out before. -/
def CopiesWhole (x : Exchange) : Prop :=
  ∀ d buffer missing, x.consumer = .copying d buffer missing →
    ∃ slot, x.published[x.copied.length]? = some slot ∧
      ∀ i (inside : i < 80), i ∉ missing → buffer[i] = slot.record[i]

structure Safe (x : Exchange) : Prop where
  bounded : (x.ring.put - x.ring.get).toNat ≤ x.ring.capacity.slots
  silent : x.reports = []
  apart : x.WritesApart
  whole : x.CopiesWhole
  inOrder : x.copied <+: x.published

namespace Agrees

variable {base : UInt32} {released : Nat} {x : Exchange}

theorem published_le (h : Agrees base released x) :
    released ≤ x.published.length ∧ x.published.length - released ≤ 2 ^ 31 := by
  have maximum : x.ring.capacity.slots ≤ 2 ^ 31 := x.ring.capacity.slots_le_maximum
  have room := h.room
  exact ⟨Nat.le_trans h.releasedCopied h.copied_le, by omega⟩

theorem writesApart (h : Agrees base released x) : x.WritesApart := by
  intro slot put missing d writing draining i inside
  have producer := h.producer
  have consumer := h.consumer
  rw [writing] at producer
  obtain ⟨rfl, room, -⟩ := producer
  obtain ⟨seen, low, high, drain⟩ : ∃ seen, x.copied.length ≤ seen ∧ seen ≤ x.published.length ∧
      d.Agrees base released x.copied.length seen := by
    cases point : x.consumer with
    | idle => rw [point] at draining; cases draining
    | gotPut => rw [point] at draining; cases draining
    | gotBoth => rw [point] at draining; cases draining
    | between d' =>
        rw [point] at draining consumer
        cases draining
        exact consumer
    | copying d' buffer missing' =>
        rw [point] at draining consumer
        cases draining
        obtain ⟨seen, more, high, drain, -⟩ := consumer
        exact ⟨seen, Nat.le_of_lt more, high, drain⟩
  have released_le := h.releasedCopied
  have near := h.published_le.2
  rw [drain.put, drain.start, toNat_sub_counts base (by omega) (by omega)] at inside
  rw [drain.start, UInt32.add_assoc, ← UInt32.ofNat_add]
  have differ := x.ring.capacity.index_apart base (i := released + i)
    (j := x.published.length) (by omega) (by omega)
  exact x.ring.slotOffset_apart differ.symm

theorem safe (h : Agrees base released x) : x.Safe where
  bounded := by
    obtain ⟨order, near⟩ := h.published_le
    have room := h.room
    rw [h.put, h.get, toNat_sub_counts base order (by omega)]
    omega
  silent := h.silent
  apart := h.writesApart
  whole := by
    intro d buffer missing copying
    have knows := h.consumer
    rw [copying] at knows
    obtain ⟨seen, -, -, -, stored⟩ := knows
    exact stored
  inOrder := h.inOrder

end Agrees

theorem capacity_step (x : Exchange) (turn : Turn) :
    (x.step turn).ring.capacity = x.ring.capacity := by
  cases turn with
  | producer s =>
      simp only [step, produce]
      repeat' split
      all_goals simp
  | consumer s =>
      simp only [step, consume]
      repeat' split
      all_goals simp

theorem capacity_run (turns : List Turn) (x : Exchange) :
    (x.run turns).ring.capacity = x.ring.capacity := by
  induction turns generalizing x with
  | nil => rfl
  | cons turn rest ih => exact (ih (x.step turn)).trans (x.capacity_step turn)

end Exchange

/-- Two sides that begin with an empty ring, at any index, may take turns in any order and stop
anywhere: the ring never claims more than it holds, neither side finds an error, no slot is written
while a drain may read it, and the slots copied out are the first ones put in. -/
theorem interleaving_is_safe (r : Ring) (empty : r.put = r.get) (turns : List Exchange.Turn) :
    ((Exchange.start r).run turns).ring.capacity = r.capacity ∧
      ((Exchange.start r).run turns).Safe := by
  obtain ⟨released, agrees⟩ := (Exchange.Agrees.start empty).run turns
  exact ⟨Exchange.capacity_run turns (.start r), agrees.safe⟩

/-- Turns over a ring of two slots whose indices wrap. The consumer goes on with a put index from
before the second slot was put in, and copies the first one out while the second one is written; the
third slot is still being written when the consumer has begun to copy the second one, and the
producer knows of the slot that was given back since it last looked. -/
def Exchange.crossingTurns : List Exchange.Turn :=
  let slot : UInt32 → Slot := fun time => .error ⟨time, 0, 1⟩
  let front : Part := ⟨0, 5, by decide⟩
  let back : Part := ⟨5, 75, by decide⟩
  pushSteps (slot 1) ++
    [.consumer .loadPut, .producer (.loadGet (slot 2)), .consumer .loadGet, .producer .loadPut,
      .consumer .check, .producer .check, .consumer .visit, .producer (.write back),
      .consumer (.copy front), .producer (.write front), .producer .storePut,
      .consumer (.copy back), .consumer .finish, .consumer .storeGet, .producer (.loadGet (slot 3)),
      .consumer .loadPut, .producer .loadPut, .consumer .loadGet, .producer .check,
      .consumer .check, .producer (.write front), .consumer .visit, .consumer (.copy back)]

def Exchange.crossing : Exchange := (start Ring.aboutToWrap).run crossingTurns

theorem crossing_sides_are_safe :
    Ring.aboutToWrap.put = Ring.aboutToWrap.get ∧
      Exchange.crossing.published = [.error ⟨1, 0, 1⟩, .error ⟨2, 0, 1⟩] ∧
      Exchange.crossing.copied = [.error ⟨1, 0, 1⟩] ∧
      Exchange.crossing.consumer.drain? = some ⟨0, 0, 1⟩ ∧ Exchange.crossing.Safe := by
  have empty := Ring.aboutToWrap_empty
  have safe : Exchange.crossing.Safe :=
    (interleaving_is_safe Ring.aboutToWrap empty Exchange.crossingTurns).2
  obtain ⟨published, copied, drain⟩ :
      Exchange.crossing.published = [.error ⟨1, 0, 1⟩, .error ⟨2, 0, 1⟩] ∧
        Exchange.crossing.copied = [.error ⟨1, 0, 1⟩] ∧
        Exchange.crossing.consumer.drain? = some ⟨0, 0, 1⟩ := by decide +kernel
  exact ⟨empty, published, copied, drain, safe⟩

end CanLink
