import CanLink.Proofs.Ring.Pending
import CanLink.Proofs.Slot.Canonical

/-!
Draining a ring whose records may hold anything. A record whose tag byte is that of a slot carries
one; any other is foreign and is passed over. However many slots its consumer asks for, a drain
yields the carried slots in order and then nothing (`RingUse.nexts_eq`). `Visits` says how far it
gets: to the record that gave the last slot, so that a foreign record behind this one stays queued,
or to the end once a call found nothing. Only what was visited is given back at the end, in a single
store (`draining_is_exact`).
-/

namespace CanLink

/-- The tag byte of the record is that of a slot. -/
def Record.carries (r : Record) : Bool := r[SlotOffset.tag]?.any (· ∈ [1, 2, 3, 4])

theorem Record.carries_iff {r : Record} : r.carries = true ↔ ∃ s, Slot.ofRecord? r = some s := by
  have inside : SlotOffset.tag < 80 := by decide
  rw [← Option.isSome_iff_exists, ← Option.ne_none_iff_isSome, ne_eq, Slot.ofRecord?_eq_none_iff,
    not_not, Record.carries, Vector.getElem?_eq_getElem inside, Option.any_some, decide_eq_true_iff]
  rfl

theorem Record.carries_eq_false_iff {r : Record} :
    r.carries = false ↔ Slot.ofRecord? r = none := by
  rw [← Bool.not_eq_true, Record.carries_iff, Option.eq_none_iff_forall_ne_some, not_exists]

/-- The slots among some records are the contents of the records that carry one. -/
theorem map_ofRecord?_filter (records : List Record) :
    (records.filter Record.carries).map Slot.ofRecord? =
      (records.filterMap Slot.ofRecord?).map some := by
  induction records with
  | nil => rfl
  | cons r rest ih =>
      cases read : Slot.ofRecord? r with
      | none =>
          have foreign : ¬ r.carries = true := by
            rw [Bool.not_eq_true, Record.carries_eq_false_iff, read]
          rw [List.filter_cons_of_neg foreign, List.filterMap_cons_none read, ih]
      | some s =>
          have carries : r.carries = true := Record.carries_iff.mpr ⟨s, read⟩
          rw [List.filter_cons_of_pos carries, List.filterMap_cons_some read, List.map_cons,
            List.map_cons, read, ih]

theorem length_filter_carries (records : List Record) :
    (records.filter Record.carries).length = (records.filterMap Slot.ofRecord?).length := by
  have same := congrArg List.length (map_ofRecord?_filter records)
  rwa [List.length_map, List.length_map] at same

/-! ### How far a drain gets -/

/-- Of `records`, `visited` are those that a drain has gone through after so many calls: those up to
the record that gave the last slot, or all if a call found none. -/
structure Visits (records : List Record) (calls visited : Nat) : Prop where
  within : visited ≤ records.length
  nothing : calls = 0 → visited = 0
  /-- The last record visited carries a slot, and it is the one that the last call asked for. -/
  last : 0 < calls → calls ≤ (records.filter Record.carries).length →
    ∃ r, (records.take visited).getLast? = some r ∧ r.carries = true ∧
      ((records.take visited).filter Record.carries).length = calls
  everything : (records.filter Record.carries).length < calls → visited = records.length

namespace Visits

variable {records skipped rest : List Record} {calls visited : Nat}

theorem zero (records : List Record) : Visits records 0 0 where
  within := Nat.zero_le _
  nothing _ := rfl
  last pos := absurd pos (Nat.lt_irrefl 0)
  everything short := absurd short (Nat.not_lt_zero _)

theorem filter_foreign (foreign : ∀ r ∈ skipped, Slot.ofRecord? r = none) :
    skipped.filter Record.carries = [] := by
  rw [List.filter_eq_nil_iff]
  intro r member
  rw [Bool.not_eq_true, Record.carries_eq_false_iff]
  exact foreign r member

/-- A call that finds only foreign records goes through all of them. -/
theorem of_foreign (calls : Nat) (foreign : ∀ r ∈ records, Slot.ofRecord? r = none) :
    Visits records (calls + 1) records.length where
  within := Nat.le_refl _
  nothing none := absurd none (Nat.succ_ne_zero calls)
  last _ enough := by
    rw [filter_foreign foreign] at enough
    exact absurd enough (Nat.not_succ_le_zero calls)
  everything _ := rfl

/-- A call that finds a slot goes through the record that carries it; the other calls go on from
there. -/
theorem found {carrier : Record} (foreign : ∀ r ∈ skipped, Slot.ofRecord? r = none)
    (carries : carrier.carries = true) (later : Visits rest calls visited) :
    Visits (skipped ++ carrier :: rest) (calls + 1) (skipped.length + 1 + visited) := by
  have first : (skipped ++ [carrier]).filter Record.carries = [carrier] := by
    rw [List.filter_append, filter_foreign foreign, List.nil_append,
      List.filter_cons_of_pos carries, List.filter_nil]
  have length : (skipped ++ [carrier]).length = skipped.length + 1 := by simp
  have total : ((skipped ++ carrier :: rest).filter Record.carries).length =
      (rest.filter Record.carries).length + 1 := by
    rw [List.append_cons, List.filter_append, first, List.length_append, List.length_singleton,
      Nat.add_comm]
  have taken : (skipped ++ carrier :: rest).take (skipped.length + 1 + visited) =
      (skipped ++ [carrier]) ++ rest.take visited := by
    rw [List.append_cons, ← length, List.take_length_add_append]
  have within := later.within
  constructor
  · rw [List.length_append, List.length_cons]
    omega
  · intro none
    exact absurd none (Nat.succ_ne_zero calls)
  · intro _ enough
    rw [total, Nat.add_le_add_iff_right] at enough
    rw [taken, List.filter_append, first]
    rcases Nat.eq_zero_or_pos calls with none | more
    · rw [later.nothing none, none, List.take_zero, List.append_nil]
      exact ⟨carrier, List.getLast?_concat, carries, rfl⟩
    · obtain ⟨r, last, carriesLast, count⟩ := later.last more enough
      refine ⟨r, ?_, carriesLast, ?_⟩
      · rw [List.getLast?_append, last, Option.some_or]
      · rw [List.length_append, count, List.length_singleton, Nat.add_comm]
  · intro short
    rw [total, Nat.add_lt_add_iff_right] at short
    rw [later.everything short, List.length_append, List.length_cons]
    omega

/-- The slots behind the visited records are those that no call has asked for yet. -/
theorem filterMap_drop (h : Visits records calls visited) :
    (records.drop visited).filterMap Slot.ofRecord? =
      (records.filterMap Slot.ofRecord?).drop calls := by
  have split : (records.take visited).filterMap Slot.ofRecord? ++
      (records.drop visited).filterMap Slot.ofRecord? = records.filterMap Slot.ofRecord? := by
    rw [← List.filterMap_append, List.take_append_drop]
  rcases Nat.lt_or_ge (records.filter Record.carries).length calls with short | enough
  · rw [h.everything short, List.drop_length]
    rw [length_filter_carries] at short
    exact (List.drop_of_length_le (Nat.le_of_lt short)).symm
  · have given : ((records.take visited).filterMap Slot.ofRecord?).length = calls := by
      rcases Nat.eq_zero_or_pos calls with none | more
      · rw [h.nothing none, none]
        rfl
      · obtain ⟨_, _, _, count⟩ := h.last more enough
        rw [← length_filter_carries, count]
    rw [← split, List.drop_left' given]

end Visits

/-! ### The calls of a consumer -/

namespace RingUse

/-- The answers to so many calls for the next slot, and the ring in use after them. -/
def nexts : (calls : Nat) → RingUse → List QueueAnswer × RingUse
  | 0, u => ([], u)
  | calls + 1, u =>
      let (answer, u) := u.next
      let (answers, u) := nexts calls u
      (answer :: answers, u)

theorem nexts_succ (calls : Nat) (r : Ring) (d : Drain) :
    nexts (calls + 1) ⟨r, some d⟩ =
      (.yielded (d.next r).1 :: (nexts calls ⟨r, some (d.next r).2⟩).1,
        (nexts calls ⟨r, some (d.next r).2⟩).2) := rfl

/-- The slots are yielded in order, then nothing any more, and the ring stays as it is. -/
theorem nexts_eq (calls : Nat) (r : Ring) (d : Drain) :
    ∃ visited, Visits (r.records d.remaining d.cursor) calls visited ∧
      nexts calls ⟨r, some d⟩ =
        (((r.slotsIn d.remaining d.cursor).take calls).map (fun slot => .yielded (some slot)) ++
            List.replicate (calls - (r.slotsIn d.remaining d.cursor).length) (.yielded none),
          ⟨r, some { d with cursor := d.cursor + UInt32.ofNat visited }⟩) := by
  induction calls generalizing d with
  | zero => exact ⟨0, .zero _, by simp [nexts]⟩
  | succ calls ih =>
      rw [nexts_succ]
      rcases d.next_split r with ⟨foreign, reached⟩ |
        ⟨skipped, carrier, rest, slot, split, foreign, read, after, found, moved, left, tail⟩
      · have nothing : r.slotsIn d.remaining d.cursor = [] := List.filterMap_eq_nil_iff.mpr foreign
        have finished : d.cursor + UInt32.ofNat d.remaining = d.put := index_eq_add_sub ..
        have done : Drain.remaining { d with cursor := d.put } = 0 := by simp [Drain.remaining]
        obtain ⟨visited, none, again⟩ := ih { d with cursor := d.put }
        rw [done] at none again
        have still : visited = 0 := Nat.le_zero.mp none.within
        refine ⟨d.remaining, ?_, ?_⟩
        · have all := Visits.of_foreign calls foreign
          rwa [r.length_records] at all
        · rw [reached, finished, nothing, again, still]
          simp [Ring.slotsIn, Ring.records, List.replicate_succ]
      · obtain ⟨visited, later, again⟩ := ih after
        refine ⟨skipped.length + 1 + visited, ?_, ?_⟩
        · rw [split]
          rw [tail] at later
          exact later.found foreign (Record.carries_iff.mpr ⟨slot, read⟩)
        · subst moved
          rw [found, again, Drain.slotsIn_found split foreign read tail,
            UInt32.ofNat_add (skipped.length + 1), ← UInt32.add_assoc]
          simp

end RingUse

/-- Draining is exact, whatever the records hold. From a ring with possible indices a drain begins;
after any number of calls it has yielded the first slots carried by the queued records, in order,
and nothing more for the calls beyond them. The ring has not changed, and the bound on what is still
to come is the number of records not visited. Released, the drain gives back the visited records:
the get index goes up by their number, no other byte changes, and what no call asked for is still
pending. -/
theorem draining_is_exact (r : Ring) (possible : (r.put - r.get).toNat ≤ r.capacity.slots)
    (calls : Nat) :
    ∃ began after visited released,
      RingUse.drain ⟨r, none⟩ = (.began, ⟨r, some began⟩) ∧
      (r.queued.filter Record.carries).map Slot.ofRecord? = r.pending.map some ∧
      RingUse.nexts calls ⟨r, some began⟩ =
        ((r.pending.take calls).map (fun slot => .yielded (some slot)) ++
            List.replicate (calls - r.pending.length) (.yielded none),
          ⟨r, some after⟩) ∧
      Visits r.queued calls visited ∧
      after.remaining = (r.put - r.get).toNat - visited ∧
      (r.pending.drop calls).length ≤ after.remaining ∧
      RingUse.release ⟨r, some after⟩ = (.released, ⟨released, none⟩) ∧
      released.get = r.get + UInt32.ofNat visited ∧
      r.SameButGet released ∧
      released.pending = r.pending.drop calls := by
  have consistent : r.Consistent := by
    rw [Ring.Consistent, r.length_queued]
    exact possible
  obtain ⟨visited, visits, yielded⟩ := RingUse.nexts_eq calls r ⟨r.get, r.get, r.put⟩
  change Visits r.queued calls visited at visits
  have within : visited ≤ (r.put - r.get).toNat := by
    rw [← r.length_queued]
    exact visits.within
  have left := toNat_sub_add_ofNat within
  have waiting := visits.filterMap_drop
  obtain ⟨reached, rest⟩ := Drain.release_moves r (r.get + UInt32.ofNat visited) r.put
  refine ⟨⟨r.get, r.get, r.put⟩, ⟨r.get, r.get + UInt32.ofNat visited, r.put⟩, visited,
    Drain.release r ⟨r.get, r.get + UInt32.ofNat visited, r.put⟩, ?_, map_ofRecord?_filter r.queued,
    yielded, visits, left, ?_, rfl, reached, rest, ?_⟩
  · rw [RingUse.drain, Ring.drain, Ring.occupancy_of_consistent consistent, Except.map]
  · change (r.pending.drop calls).length ≤ (r.put - (r.get + UInt32.ofNat visited)).toNat
    rw [Ring.pending, ← waiting, left, ← r.length_queued, ← List.length_drop]
    exact List.length_filterMap_le ..
  · rw [Ring.pending, Drain.queued_release r.put visits.within, waiting, Ring.pending]

/-- A full ring of four slots about to wrap, in which every other record is foreign: log text, an
error, an unused record and a status. -/
def Ring.strewn : Ring where
  capacity := ⟨⟨2, by decide⟩⟩
  region :=
    { bytes := ([2, 0, 0, 0, 0xFE, 0xFF, 0xFF, 0xFF] ++
        [SlotTag.unused, SlotTag.status, SlotTag.log, SlotTag.error].flatMap fun tag =>
          tag :: List.replicate 79 0).toArray
      address := 0 }
  fits := by decide +kernel
  aligned := by decide

/-- One slot is taken: the foreign record in front of it is given back with it, the one behind it is
not. -/
theorem draining_is_exact_at_foreign_records :
    (Ring.strewn.put - Ring.strewn.get).toNat = Ring.strewn.capacity.slots ∧
      Ring.strewn.get = 0xFFFFFFFE ∧
      ∃ began after released,
        RingUse.drain ⟨Ring.strewn, none⟩ = (.began, ⟨Ring.strewn, some began⟩) ∧
        RingUse.nexts 1 ⟨Ring.strewn, some began⟩ =
          ([.yielded (some (.error ⟨0, 0, 0⟩))], ⟨Ring.strewn, some after⟩) ∧
        after.remaining = 2 ∧
        RingUse.release ⟨Ring.strewn, some after⟩ = (.released, ⟨released, none⟩) ∧
        released.get = 0 ∧
        released.pending = [.status ⟨0, 0, 0, 0, 0, 0, 0, 0, 0⟩] := by
  have full : (Ring.strewn.put - Ring.strewn.get).toNat = Ring.strewn.capacity.slots := by
    decide +kernel
  have get : Ring.strewn.get = 0xFFFFFFFE := by decide +kernel
  have pending : Ring.strewn.pending =
      [.error ⟨0, 0, 0⟩, .status ⟨0, 0, 0, 0, 0, 0, 0, 0, 0⟩] := by decide +kernel
  have second : ∀ visited ≤ Ring.strewn.queued.length,
      (Ring.strewn.queued.take visited).getLast?.any Record.carries = true →
      ((Ring.strewn.queued.take visited).filter Record.carries).length = 1 → visited = 2 := by
    decide +kernel
  obtain ⟨began, after, visited, released, drained, -, yielded, visits, left, -, given, moved, -,
    rest⟩ := draining_is_exact Ring.strewn (Nat.le_of_eq full) 1
  have two : visited = 2 := by
    have enough : 1 ≤ (Ring.strewn.queued.filter Record.carries).length := by decide +kernel
    obtain ⟨r, last, carries, count⟩ := visits.last Nat.one_pos enough
    exact second visited visits.within (by rw [last]; exact carries) count
  rw [pending] at yielded rest
  rw [two, full] at left
  rw [two, get] at moved
  exact ⟨full, get, began, after, released, drained, yielded, left, given, moved, rest⟩

end CanLink
