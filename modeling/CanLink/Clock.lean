/-!
Device timestamps. A device counts microseconds in 32 bits, which wrap about every 71 minutes.
`Tracker.track` extends the samples of one stream, taken in order, to 64 bits: a sample less than
half the counter range ahead of the newest one moves the clock forward, any other is a late arrival
and is placed before the newest one without moving the clock.
-/

namespace CanLink.Clock

/-- Half the range of the device counter. -/
def halfRange : UInt32 := 0x80000000

/-- The 64-bit time with the given high and low words. -/
def join (high low : UInt32) : UInt64 := high.toUInt64 * 0x100000000 + low.toUInt64

structure Tracker where
  /-- Newest sample. -/
  lastLow : UInt32
  /-- Counter wraps seen so far. -/
  high : UInt32
  /-- A sample has been seen. -/
  started : Bool
  deriving DecidableEq, Repr

namespace Tracker

/-- A tracker that has seen no sample. -/
def fresh : Tracker := ⟨0, 0, false⟩

/-- The extended time of a sample, and the tracker after it. Times before the start of the stream's
first epoch are reported as zero. -/
def track (t : Tracker) (raw : UInt32) : UInt64 × Tracker :=
  if !t.started then (raw.toUInt64, { t with lastLow := raw, started := true })
  else if raw - t.lastLow < halfRange then
    let high := if raw < t.lastLow then t.high + 1 else t.high
    (join high raw, { t with lastLow := raw, high })
  else
    let newest := join t.high t.lastLow
    let behind := (t.lastLow - raw).toUInt64
    (if behind ≤ newest then newest - behind else 0, t)

end Tracker

end CanLink.Clock
