import CanLink.Channel
import CanLink.Proofs.Ring.Fifo

/-!
What is pending in a ring: the slots that its consumer would still read. Records without CAN data
are no slots and are passed over, so the memory that a ring starts with may hold anything. Draining
everything gives exactly what is pending (`drainAll_of_consistent`), however many records a drain
passes over on its way; with a drain in progress, what is pending begins where that drain stands
(`Represents.pending_eq`).
-/

namespace CanLink

namespace Ring

/-- The slots in `count` records from `index` on. -/
def slotsIn (r : Ring) (count : Nat) (index : UInt32) : List Slot :=
  (r.records count index).filterMap Slot.ofRecord?

/-- The slots that are queued, oldest first. -/
def pending (r : Ring) : List Slot := r.queued.filterMap Slot.ofRecord?

theorem slotsIn_succ (r : Ring) (count : Nat) (index : UInt32) :
    r.slotsIn (count + 1) index =
      (Slot.ofRecord? (r.record index)).toList ++ r.slotsIn count (index + 1) := by
  rw [slotsIn, records, List.filterMap_cons, slotsIn]
  cases Slot.ofRecord? (r.record index) <;> rfl

/-- The next slot is in the first record that carries one, and it comes with the index after this
record. -/
theorem nextSlot_split (r : Ring) (count : Nat) (index : UInt32) :
    ((∀ record ∈ r.records count index, Slot.ofRecord? record = none) ∧
        r.nextSlot count index = (none, index + UInt32.ofNat count)) ∨
      ∃ skipped carrier rest slot, r.records count index = skipped ++ carrier :: rest ∧
        (∀ record ∈ skipped, Slot.ofRecord? record = none) ∧
        Slot.ofRecord? carrier = some slot ∧
        r.nextSlot count index = (some slot, index + UInt32.ofNat (skipped.length + 1)) := by
  induction count generalizing index with
  | zero => exact .inl ⟨fun _ member => (List.not_mem_nil member).elim, by simp [nextSlot]⟩
  | succ count ih =>
      cases here : Slot.ofRecord? (r.record index) with
      | some slot =>
          refine .inr ⟨[], r.record index, r.records count (index + 1), slot, rfl, ?_, here, ?_⟩
          · exact fun _ member => (List.not_mem_nil member).elim
          · rw [nextSlot, here]
            rfl
      | none =>
          have passed : r.nextSlot (count + 1) index = r.nextSlot count (index + 1) := by
            rw [nextSlot, here]
          rw [passed, records]
          rcases ih (index + 1) with ⟨nothing, reached⟩ |
            ⟨skipped, carrier, rest, slot, split, nothing, carries, found⟩
          · rw [index_succ] at reached
            exact .inl ⟨List.forall_mem_cons.mpr ⟨here, nothing⟩, reached⟩
          · rw [index_succ] at found
            refine .inr ⟨r.record index :: skipped, carrier, rest, slot, ?_, ?_, carries, found⟩
            · rw [split, List.cons_append]
            · exact List.forall_mem_cons.mpr ⟨here, nothing⟩

/-- Records without a slot in front do not matter. -/
theorem filterMap_skipped {skipped : List Record} (rest : List Record)
    (nothing : ∀ record ∈ skipped, Slot.ofRecord? record = none) :
    (skipped ++ rest).filterMap Slot.ofRecord? = rest.filterMap Slot.ofRecord? := by
  rw [List.filterMap_append, List.filterMap_eq_nil_iff.mpr nothing, List.nil_append]

end Ring

namespace Drain

/-- A call for the next slot goes to the end if no record ahead carries one, and otherwise past the
first record that does. -/
theorem next_split (r : Ring) (d : Drain) :
    ((∀ record ∈ r.records d.remaining d.cursor, Slot.ofRecord? record = none) ∧
        d.next r = (none, { d with cursor := d.put })) ∨
      ∃ skipped carrier rest slot, r.records d.remaining d.cursor = skipped ++ carrier :: rest ∧
        (∀ record ∈ skipped, Slot.ofRecord? record = none) ∧
        Slot.ofRecord? carrier = some slot ∧
        ∃ after : Drain, d.next r = (some slot, after) ∧
          after = { d with cursor := d.cursor + UInt32.ofNat (skipped.length + 1) } ∧
          after.remaining = rest.length ∧ r.records after.remaining after.cursor = rest := by
  rw [next]
  rcases r.nextSlot_split d.remaining d.cursor with ⟨nothing, reached⟩ |
    ⟨skipped, carrier, rest, slot, split, nothing, carries, found⟩
  · have finished : d.cursor + UInt32.ofNat d.remaining = d.put := index_eq_add_sub ..
    exact .inl ⟨nothing, by rw [reached, finished]⟩
  · have length := congrArg List.length split
    rw [r.length_records, List.length_append, List.length_cons] at length
    have tail := Ring.records_of_append (split.trans (List.append_cons ..))
    rw [List.length_append, List.length_singleton] at tail
    have moved : skipped.length + 1 ≤ (d.put - d.cursor).toNat := by
      change skipped.length + 1 ≤ d.remaining
      omega
    have shorter := toNat_sub_add_ofNat moved
    change _ = d.remaining - (skipped.length + 1) at shorter
    have left : Drain.remaining
        { d with cursor := d.cursor + UInt32.ofNat (skipped.length + 1) } = rest.length := by
      rw [remaining, shorter]
      omega
    refine .inr ⟨skipped, carrier, rest, slot, split, nothing, carries, _, by rw [found], rfl, left,
      ?_⟩
    rw [left]
    exact tail

/-- A drain moves on by records that it had yet to visit. -/
theorem next_moves (r : Ring) (d : Drain) :
    ∃ moved ≤ d.remaining, (d.next r).2 = { d with cursor := d.cursor + UInt32.ofNat moved } := by
  rcases d.next_split r with ⟨-, reached⟩ |
    ⟨skipped, carrier, rest, slot, split, -, -, _, found, rfl, -⟩
  · refine ⟨d.remaining, Nat.le_refl _, ?_⟩
    rw [reached]
    exact congrArg (Drain.mk d.start · d.put) (index_eq_add_sub ..).symm
  · have length := congrArg List.length split
    rw [r.length_records, List.length_append, List.length_cons] at length
    exact ⟨skipped.length + 1, by omega, by rw [found]⟩

/-- The slots ahead of a drain that has just found one. -/
theorem slotsIn_found {r : Ring} {d after : Drain} {skipped rest : List Record} {carrier : Record}
    {slot : Slot} (split : r.records d.remaining d.cursor = skipped ++ carrier :: rest)
    (nothing : ∀ record ∈ skipped, Slot.ofRecord? record = none)
    (carries : Slot.ofRecord? carrier = some slot)
    (tail : r.records after.remaining after.cursor = rest) :
    r.slotsIn d.remaining d.cursor = slot :: r.slotsIn after.remaining after.cursor := by
  rw [Ring.slotsIn, Ring.slotsIn, split, tail, Ring.filterMap_skipped _ nothing,
    List.filterMap_cons_some carries]

/-- Taking as many slots as a drain has records to visit takes all its slots. -/
theorem take_eq {r : Ring} {limit : Nat} {d : Drain} (enough : d.remaining ≤ limit) :
    d.take r limit = (r.slotsIn d.remaining d.cursor, { d with cursor := d.put }) := by
  -- Each slot taken moves the cursor by one record or more, so the limit is never short.
  induction limit generalizing d with
  | zero =>
      have done : d.remaining = 0 := Nat.le_zero.mp enough
      have finish : d.cursor + UInt32.ofNat d.remaining = d.put := index_eq_add_sub ..
      have reached : d.cursor = d.put := by simpa [done] using finish
      obtain ⟨start, cursor, put⟩ := d
      cases reached
      rw [take, done]
      rfl
  | succ limit ih =>
      rw [take]
      rcases d.next_split r with ⟨nothing, reached⟩ |
        ⟨skipped, carrier, rest, slot, split, nothing, carries, after, found, moved, left, tail⟩
      · have slots : r.slotsIn d.remaining d.cursor = [] := List.filterMap_eq_nil_iff.mpr nothing
        rw [reached, slots]
      · have length := congrArg List.length split
        rw [r.length_records, List.length_append, List.length_cons] at length
        rw [found, slotsIn_found split nothing carries tail]
        simp only
        rw [ih (by omega), moved]

end Drain

namespace Ring

@[simp] theorem pending_of_queued_eq_nil {r : Ring} (empty : r.queued = []) : r.pending = [] := by
  rw [pending, empty]
  rfl

theorem pending_pushed {r : Ring} (slot : Slot) (room : r.queued.length < r.capacity.slots) :
    (r.pushed slot).pending = r.pending ++ [slot] := by
  rw [pending, queued_pushed slot room, List.filterMap_append, pending]
  simp

theorem consistent_pushed {r : Ring} (slot : Slot) (room : r.queued.length < r.capacity.slots) :
    (r.pushed slot).Consistent := by
  rw [Consistent, queued_pushed slot room, List.length_append, List.length_singleton]
  exact room

theorem consistent_of_queued_eq_nil {r : Ring} (empty : r.queued = []) : r.Consistent := by
  rw [Consistent, empty]
  exact Nat.zero_le _

/-- Draining everything gives what is pending and leaves nothing. -/
theorem drainAll_of_consistent {r : Ring} (consistent : r.Consistent) :
    ∃ after, r.drainAll = .ok (r.pending, after) ∧ after.queued = [] := by
  have whole : r.get + UInt32.ofNat r.queued.length = r.put := by
    rw [r.length_queued, index_eq_add_sub]
  refine ⟨Drain.release r ⟨r.get, r.put, r.put⟩, ?_, ?_⟩
  · rw [drainAll, drain, occupancy_of_consistent consistent]
    simp only [Except.map]
    rw [Drain.take_eq (Nat.le_refl _)]
    rfl
  · have released := Drain.queued_release r.put (Nat.le_refl r.queued.length)
    rwa [whole, List.drop_length] at released

end Ring

/-- A channel with possible indices takes a slot exactly if there is room. -/
theorem Channel.push_split {c : Channel} (slot : Slot) (consistent : c.ring.Consistent) :
    (c.ring.queued.length = c.ring.capacity.slots ∧ c.push slot = (.ok false, c)) ∨
      (c.ring.queued.length < c.ring.capacity.slots ∧
        c.push slot = (.ok true, ⟨c.ring.pushed slot, c.wake.notify⟩)) := by
  rcases Nat.lt_or_eq_of_le consistent with room | full
  · exact .inr ⟨room, by rw [push, Ring.push_of_room slot room]⟩
  · exact .inl ⟨full, by rw [push, Ring.push_of_full slot full]⟩

/-- The slots that the consumer of a ring has yet to read. -/
def RingUse.pending (u : RingUse) : List Slot :=
  let first := match u.live with
    | none => u.ring.get
    | some d => d.cursor
  u.ring.slotsIn (u.ring.put - first).toNat first

theorem Represents.pending_eq {u : RingUse} {q : Fifo} (h : Represents u q) :
    u.pending = q.remaining := by
  have read (slots : List Slot) : (slots.map Slot.record).filterMap Slot.ofRecord? = slots := by
    rw [List.filterMap_map]
    simp
  obtain ⟨ring, live⟩ := u
  obtain ⟨capacity, view, waiting⟩ := q
  have same : SameDrain ring.get live view := h.live
  cases same with
  | none =>
      have queued : ring.queued = waiting.map Slot.record := h.queued
      change ring.pending = waiting
      rw [Ring.pending, queued, read]
  | some taken coming =>
      have queued : ring.queued = (taken ++ (coming ++ waiting)).map Slot.record := h.queued
      have within : taken.length ≤ ring.queued.length := by
        rw [queued, List.length_map, List.length_append]
        exact Nat.le_add_right ..
      have after := Ring.records_from within
      rw [queued, ← List.map_drop, List.drop_left] at after
      change ring.slotsIn _ (ring.get + UInt32.ofNat taken.length) = coming ++ waiting
      rw [Ring.slotsIn, after, read]

end CanLink
