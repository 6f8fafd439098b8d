import CanLink.Bytes
import CanLink.Device.Feature
import CanLink.Timing.Constraints

/-! What the CAN core of a device can do: its clock, the register ranges of both phases, and the
features it offers. -/

namespace CanLink

open LittleEndian Numeric

structure Capability where
  /-- Size of the device's message buffer. -/
  bufferSize : UInt16
  /-- Clock of the CAN core, in Hz. -/
  clock : UInt32
  nominal : Timing.Constraints
  data : Timing.Constraints
  txFifo : UInt8
  rxFifo : UInt8
  /-- Features, which are reported apart from the rest. -/
  features : UInt32
  deriving DecidableEq, Repr

namespace Capability

/-- Length of the message. -/
abbrev messageSize : Nat := 28

/-- The fields of a message, with no features. Every prescaler between the ends of its range can be
set, and both phases run from one clock. -/
def ofMessage (m : Vector UInt8 28) : Capability :=
  let clock := word32 (slice m 4 4 (by decide))
  { bufferSize := word16 (slice m 2 2 (by decide))
    clock
    nominal :=
      { clock
        prescalerMin := m[13].toUInt32
        prescalerMax := (word16 (slice m 8 2 (by decide))).toUInt32
        prescalerStep := 1
        segment1Min := m[12].toUInt32
        segment1Max := (word16 (slice m 10 2 (by decide))).toUInt32
        segment2Min := m[15].toUInt32
        segment2Max := m[16].toUInt32
        jumpWidthMax := m[14].toUInt32 }
    data :=
      { clock
        prescalerMin := m[18].toUInt32
        prescalerMax := m[17].toUInt32
        prescalerStep := 1
        segment1Min := m[19].toUInt32
        segment1Max := m[20].toUInt32
        segment2Min := m[22].toUInt32
        segment2Max := m[23].toUInt32
        jumpWidthMax := m[21].toUInt32 }
    txFifo := m[24]
    rxFifo := m[25]
    features := 0 }

def ofBytes (bytes : Bytes) : Except Error Capability :=
  (bytes.leading messageSize).map ofMessage

def withFeatures (c : Capability) (features : UInt32) : Capability := { c with features }

def supportsFd (c : Capability) : Bool := c.features &&& Feature.fd != 0

/-- Clock in MHz. -/
def clockMHz (c : Capability) : Binary32 :=
  .ofRatio .binary32 (Format.binary32.round c.clock.toNat 1) ⟨1000000, 0⟩

/-- The register ranges of one phase, each under its name. -/
def renderRanges (nameOf : String → String) (c : Timing.Constraints) : List String :=
  let range := fun (name : String) (low high : UInt32) => s!"{nameOf name}: {low} - {high}"
  let jumpWidth := nameOf "SJW"
  [range "BRP" c.prescalerMin c.prescalerMax, range "TSEG1" c.segment1Min c.segment1Max,
    range "TSEG2" c.segment2Min c.segment2Max, s!"{jumpWidth} (max): {c.jumpWidthMax}"]

/-- The data phase is left out for devices without CAN-FD. -/
def render (c : Capability) : String :=
  let clock := Text.fixed 1 c.clockMHz.magnitude
  let data :=
    if c.supportsFd then "Data Phase (CAN FD):" :: renderRanges ("D" ++ ·) c.data else []
  String.intercalate "\n"
    (s!"Clock: {c.clock} Hz ({clock} MHz)" :: renderRanges ("Nominal " ++ ·) c.nominal ++ data ++
      [s!"FIFO: tx={c.txFifo} rx={c.rxFifo}"])

end Capability

end CanLink
