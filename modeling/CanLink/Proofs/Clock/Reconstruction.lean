import CanLink.Clock
import Mathlib.Algebra.Ring.Int.Defs
import Mathlib.Algebra.Group.Nat.Defs

/-!
Extended times are true times. A 32-bit sample stands for every time that leaves its value as the
remainder; of these exactly one lies in the window of one counter range around the newest time, and
that is the time which the tracker reports. The tracker's two words always hold the newest time, so
a late sample leaves them alone. A stream of true times that stay within the window is therefore
reported as it was, however often the counter wraps and however late some samples are.
-/

namespace CanLink.Clock

/-- `time` is what a sample stands for while `newest` is the newest time: less than half the counter
range ahead of it, or at most half behind. -/
structure Places (newest : Nat) (raw : UInt32) (time : Int) : Prop where
  congruent : time % 2 ^ 32 = raw.toNat
  behind : (newest : Int) - 2 ^ 31 ≤ time
  ahead : time < newest + 2 ^ 31

/-- The time that a sample stands for, counted from the start of the window. -/
def placement (newest : Nat) (raw : UInt32) : Int :=
  newest - 2 ^ 31 + (raw.toNat - (newest - 2 ^ 31)) % 2 ^ 32

/-- Every sample stands for exactly one time. -/
theorem places_iff {newest : Nat} {raw : UInt32} {time : Int} :
    Places newest raw time ↔ time = placement newest raw := by
  have bound := raw.toNat_lt
  constructor
  · rintro ⟨congruent, behind, ahead⟩
    simp only [placement]
    omega
  · rintro rfl
    constructor <;> simp only [placement] <;> omega

/-- The newest time once a sample has been seen. -/
def advance (newest : Nat) (raw : UInt32) : Nat := max newest (placement newest raw).toNat

/-- The times that the samples of a stream stand for. -/
def placements : (newest : Nat) → List UInt32 → List Int
  | _, [] => []
  | newest, raw :: rest => placement newest raw :: placements (advance newest raw) rest

namespace Tracker

/-- The tracker that has `newest` as its newest time. -/
def encoding (newest : Nat) : Tracker :=
  ⟨UInt32.ofNat newest, UInt32.ofNat (newest / 2 ^ 32), true⟩

/-- Tracks the samples of a stream in order. -/
def trackAll : List UInt32 → Tracker → List UInt64 × Tracker
  | [], t => ([], t)
  | raw :: rest, t =>
      let (time, t) := t.track raw
      let (times, t) := t.trackAll rest
      (time :: times, t)

end Tracker

theorem toNat_join (high low : UInt32) :
    (join high low).toNat = high.toNat * 2 ^ 32 + low.toNat := by
  have boundHigh := high.toNat_lt
  have boundLow := low.toNat_lt
  have place : UInt64.toNat 0x100000000 = 2 ^ 32 := rfl
  simp only [join, UInt64.toNat_add, UInt64.toNat_mul, UInt32.toNat_toUInt64, place]
  omega

namespace Tracker

/-- The two words of a tracker join to its newest time. -/
theorem join_encoding {newest : Nat} (bound : newest < 2 ^ 64) :
    (join (encoding newest).high (encoding newest).lastLow).toNat = newest := by
  rw [toNat_join]
  simp only [encoding, UInt32.toNat_ofNat']
  omega

/-- Less than half a range forward, the high word grows by one exactly if the low word falls. -/
theorem encoding_of_forward (newest time : Nat) (raw : UInt32) (forward : newest ≤ time)
    (near : time < newest + 2 ^ 31) (congruent : time % 2 ^ 32 = raw.toNat) :
    encoding time =
      ⟨raw, if raw < UInt32.ofNat newest then UInt32.ofNat (newest / 2 ^ 32) + 1
        else UInt32.ofNat (newest / 2 ^ 32), true⟩ := by
  have low : UInt32.ofNat time = raw := by
    rw [← UInt32.toNat_inj, UInt32.toNat_ofNat', congruent]
  by_cases wraps : raw < UInt32.ofNat newest
  · have epoch : time / 2 ^ 32 = newest / 2 ^ 32 + 1 := by
      rw [UInt32.lt_iff_toNat_lt, UInt32.toNat_ofNat'] at wraps
      omega
    rw [encoding, low, epoch, if_pos wraps, UInt32.ofNat_add]
    rfl
  · have epoch : time / 2 ^ 32 = newest / 2 ^ 32 := by
      rw [UInt32.lt_iff_toNat_lt, UInt32.toNat_ofNat'] at wraps
      omega
    rw [encoding, low, epoch, if_neg wraps]

theorem track_of_forward {t : Tracker} {raw : UInt32} (started : t.started = true)
    (forward : raw - t.lastLow < halfRange) :
    t.track raw =
      (join (if raw < t.lastLow then t.high + 1 else t.high) raw,
        ⟨raw, if raw < t.lastLow then t.high + 1 else t.high, true⟩) := by
  rw [track, if_neg (by simp [started]), if_pos forward]
  simp only [started]

theorem track_of_late {t : Tracker} {raw : UInt32} (started : t.started = true)
    (late : ¬ raw - t.lastLow < halfRange) :
    t.track raw =
      (if (t.lastLow - raw).toUInt64 ≤ join t.high t.lastLow then
        join t.high t.lastLow - (t.lastLow - raw).toUInt64 else 0, t) := by
  rw [track, if_neg (by simp [started]), if_neg late]

/-- A sample is placed exactly, and the tracker goes on with the newest time. -/
theorem track_encoding {newest : Nat} {raw : UInt32} (bound : newest < 2 ^ 64)
    (inRange : placement newest raw < 2 ^ 64) :
    ((encoding newest).track raw).1.toNat = (placement newest raw).toNat ∧
      ((encoding newest).track raw).2 = encoding (advance newest raw) := by
  obtain ⟨congruent, behind, ahead⟩ := places_iff.mpr (rfl : placement newest raw = _)
  have rawBound := raw.toNat_lt
  have half : halfRange.toNat = 2 ^ 31 := rfl
  have low : (encoding newest).lastLow.toNat = newest % 2 ^ 32 := UInt32.toNat_ofNat'
  by_cases forward : raw - (encoding newest).lastLow < halfRange
  · rw [track_of_forward rfl forward]
    rw [UInt32.lt_iff_toNat_lt, UInt32.toNat_sub, low, half] at forward
    have moved : advance newest raw = (placement newest raw).toNat := by
      rw [advance]
      omega
    have words := encoding_of_forward newest (placement newest raw).toNat raw (by omega) (by omega)
      (by omega)
    have inside : (placement newest raw).toNat < 2 ^ 64 := by omega
    have joined := join_encoding inside
    rw [words] at joined
    rw [moved, words]
    exact ⟨joined, rfl⟩
  · rw [track_of_late rfl forward]
    have distance : ((encoding newest).lastLow - raw).toNat =
        (newest : Int) - placement newest raw := by
      rw [UInt32.lt_iff_toNat_lt, UInt32.toNat_sub, low, half] at forward
      rw [UInt32.toNat_sub, low]
      omega
    have stays : advance newest raw = newest := by
      rw [advance]
      omega
    refine ⟨?_, congrArg encoding stays.symm⟩
    split
    · rename_i within
      rw [UInt64.toNat_sub_of_le _ _ within, join_encoding bound, UInt32.toNat_toUInt64]
      omega
    · rename_i beforeStart
      rw [UInt64.le_iff_toNat_le, join_encoding bound, UInt32.toNat_toUInt64] at beforeStart
      rw [UInt64.toNat_zero]
      omega

/-- A late sample changes nothing. -/
theorem track_late_eq {newest : Nat} {raw : UInt32} (bound : newest < 2 ^ 64)
    (late : placement newest raw < newest) :
    ((encoding newest).track raw).2 = encoding newest := by
  have stays : advance newest raw = newest := by
    rw [advance]
    omega
  rw [(track_encoding bound (by omega)).2, stays]

theorem trackAll_encoding {newest : Nat} {raws : List UInt32} (bound : newest < 2 ^ 64)
    (inRange : ∀ time ∈ placements newest raws, time < 2 ^ 64) :
    ((encoding newest).trackAll raws).1.map UInt64.toNat =
        (placements newest raws).map Int.toNat ∧
      ((encoding newest).trackAll raws).2 = encoding (raws.foldl advance newest) ∧
      raws.foldl advance newest < 2 ^ 64 := by
  induction raws generalizing newest with
  | nil => exact ⟨rfl, rfl, bound⟩
  | cons raw rest ih =>
      have first : placement newest raw < 2 ^ 64 := inRange _ (List.mem_cons_self ..)
      obtain ⟨time, after⟩ := track_encoding bound first
      have bound' : advance newest raw < 2 ^ 64 := by
        rw [advance]
        omega
      obtain ⟨times, final, below⟩ := ih bound' fun time member =>
        inRange time (List.mem_cons_of_mem _ member)
      simp only [trackAll, after, placements, List.map_cons, time, times, final, List.foldl_cons]
      exact ⟨trivial, trivial, below⟩

/-- The first sample of a stream is its own time. -/
theorem track_fresh (first : UInt32) :
    fresh.track first = (first.toUInt64, encoding first.toNat) := by
  have low : UInt32.ofNat first.toNat = first := UInt32.ofNat_toNat
  have high : first.toNat / 2 ^ 32 = 0 := Nat.div_eq_of_lt first.toNat_lt
  rw [encoding, low, high]
  rfl

theorem trackAll_fresh {first : UInt32} {raws : List UInt32}
    (inRange : ∀ time ∈ placements first.toNat raws, time < 2 ^ 64) :
    (fresh.trackAll (first :: raws)).1.map UInt64.toNat =
        first.toNat :: (placements first.toNat raws).map Int.toNat ∧
      (fresh.trackAll (first :: raws)).2 = encoding (raws.foldl advance first.toNat) ∧
      raws.foldl advance first.toNat < 2 ^ 64 := by
  have bound : first.toNat < 2 ^ 64 := Nat.lt_trans first.toNat_lt (by decide)
  obtain ⟨times, final, below⟩ := trackAll_encoding bound inRange
  simp only [trackAll, track_fresh, List.map_cons, UInt32.toNat_toUInt64, times, final]
  exact ⟨trivial, trivial, below⟩

end Tracker

/-- Each of these true times lies in the window of one counter range around the newest one before
it. -/
def StaysInWindow : (newest : Nat) → List Nat → Prop
  | _, [] => True
  | newest, time :: rest =>
      newest ≤ time + 2 ^ 31 ∧ time < newest + 2 ^ 31 ∧ StaysInWindow (max newest time) rest

/-- True times that stay in the window are what their samples stand for. -/
theorem placements_map_ofNat {newest : Nat} {times : List Nat}
    (stays : StaysInWindow newest times) :
    placements newest (times.map UInt32.ofNat) = times.map Int.ofNat := by
  induction times generalizing newest with
  | nil => rfl
  | cons time rest ih =>
      obtain ⟨behind, ahead, later⟩ := stays
      have placed : (time : Int) = placement newest (UInt32.ofNat time) := by
        refine places_iff.mp ⟨?_, by omega, by omega⟩
        rw [UInt32.toNat_ofNat']
        rfl
      have moved : advance newest (UInt32.ofNat time) = max newest time := by
        rw [advance, ← placed, Int.toNat_natCast]
      rw [List.map_cons, placements, ← placed, moved, ih later]
      rfl

/-- Every sample stands for one time in the window around the newest time; the tracker of a new
stream reports these times, those before zero as zero, and holds the newest one, which late samples
leave alone. True times that stay in the window are reported as they were. -/
theorem tracker_reconstructs_times :
    (∀ newest raw time, Places newest raw time ↔ time = placement newest raw) ∧
      (∀ first raws, (∀ time ∈ placements first.toNat raws, time < 2 ^ 64) →
        let newest := raws.foldl advance first.toNat
        let answer := Tracker.fresh.trackAll (first :: raws)
        answer.1.map UInt64.toNat =
            first.toNat :: (placements first.toNat raws).map Int.toNat ∧
          answer.2 = .encoding newest ∧
          (join answer.2.high answer.2.lastLow).toNat = newest ∧
          ∀ late, placement newest late < newest → (answer.2.track late).2 = answer.2) ∧
      (∀ first times, first < 2 ^ 32 → StaysInWindow first times → (∀ time ∈ times, time < 2 ^ 64) →
        (Tracker.fresh.trackAll ((first :: times).map UInt32.ofNat)).1.map UInt64.toNat =
          first :: times) := by
  refine ⟨fun _ _ _ => places_iff, ?_, ?_⟩
  · intro first raws inRange
    obtain ⟨times, final, below⟩ := Tracker.trackAll_fresh inRange
    refine ⟨times, final, ?_, ?_⟩
    · rw [final, Tracker.join_encoding below]
    · intro late isLate
      rw [final, Tracker.track_late_eq below isLate]
  · intro first times bound stays inRange
    have low : (UInt32.ofNat first).toNat = first := by
      rw [UInt32.toNat_ofNat', Nat.mod_eq_of_lt bound]
    have placed : placements (UInt32.ofNat first).toNat (times.map UInt32.ofNat) =
        times.map Int.ofNat := by
      rw [low, placements_map_ofNat stays]
    have placedInRange : ∀ time ∈ placements (UInt32.ofNat first).toNat
        (times.map UInt32.ofNat), time < 2 ^ 64 := by
      rw [placed]
      intro time member
      obtain ⟨value, isTime, rfl⟩ := List.mem_map.mp member
      exact Int.ofNat_lt.mpr (inRange value isTime)
    have back : (times.map Int.ofNat).map Int.toNat = times := by
      rw [List.map_map]
      exact List.map_id times
    rw [List.map_cons, (Tracker.trackAll_fresh placedInRange).1, placed, low, back]

/-- A wrap, a sample from before it that comes late, and one from before the start. -/
theorem tracker_reconstructs_late_samples :
    (∀ time ∈ placements (UInt32.toNat 5) [0xFFFFFFFF, 0x7FFFFFFF, 0xFFFFFFFA, 50, 0xFFFFFFF0],
        time < 2 ^ 64) ∧
      (Tracker.fresh.trackAll [5, 0xFFFFFFFF, 0x7FFFFFFF, 0xFFFFFFFA, 50, 0xFFFFFFF0]).1.map
        UInt64.toNat = [5, 0, 0x7FFFFFFF, 0xFFFFFFFA, 0x100000032, 0xFFFFFFF0] := by
  have inRange : ∀ time ∈
      placements (UInt32.toNat 5) [0xFFFFFFFF, 0x7FFFFFFF, 0xFFFFFFFA, 50, 0xFFFFFFF0],
      time < 2 ^ 64 := by decide
  exact ⟨inRange, (tracker_reconstructs_times.2.1 5 _ inRange).1.trans (by decide)⟩

end CanLink.Clock
