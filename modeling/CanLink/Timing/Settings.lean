import CanLink.Numeric.Binary
import CanLink.Text.Numeral

/-! Register values of one phase, and the bit they produce. -/

namespace CanLink.Timing

open Numeric (Binary32 Magnitude Format Number)

structure Settings where
  prescaler : UInt32
  /-- Quanta between the synchronisation quantum and the sample point. -/
  segment1 : UInt32
  /-- Quanta after the sample point. -/
  segment2 : UInt32
  /-- Synchronisation jump width, in quanta. -/
  jumpWidth : UInt32
  deriving DecidableEq, Repr

namespace Settings

/-- Length of a bit in quanta. -/
def bitLength (s : Settings) : Nat := 1 + s.segment1.toNat + s.segment2.toNat

/-- Sample point reached, a quotient of two numbers that are themselves rounded to the format. -/
def samplePoint (s : Settings) : Binary32 :=
  Number.ofRatio .binary32 (Format.binary32.round (1 + s.segment1.toNat) 1)
    (Format.binary32.round s.bitLength 1)

/-- Bitrate reached with a clock, rounded down; zero if the prescaler is zero. -/
def bitrate (s : Settings) (clock : UInt32) : Nat :=
  clock.toNat / (s.prescaler.toNat * s.bitLength)

def render (s : Settings) : String :=
  let samplePoint := Text.fixed 3 s.samplePoint.magnitude
  s!"brp={s.prescaler} tseg1={s.segment1} tseg2={s.segment2} sjw={s.jumpWidth} sp={samplePoint}"

end Settings

end CanLink.Timing
