import CanLink.Bytes
import CanLink.Timing.Settings

/-!
Messages sent to a device: bit timing of a phase, feature flags, and going on or off bus. Each
begins with its identity and its length.
-/

namespace CanLink.Message

open LittleEndian

/-- Device information, read from the device. -/
def deviceInfo : UInt8 := 0x03
/-- Clock and register ranges, read from the device. -/
def canInfo : UInt8 := 0x04
def nominalTiming : UInt8 := 0x10
def dataTiming : UInt8 := 0x11
def features : UInt8 := 0x13
def bus : UInt8 := 0x1e

/-- Length of a bit-timing message. -/
abbrev timingSize : Nat := 8

/-- Length of a features message. -/
abbrev featuresSize : Nat := 8

/-- Length of a bus message. -/
abbrev busSize : Nat := 4

/-- Register values of one phase. Each is cut to the width of its field. -/
def timing (id : UInt8) (s : Timing.Settings) : Vector UInt8 8 :=
  Bytes.padded _ ([id, timingSize.toUInt8, s.jumpWidth.toUInt8, s.segment2.toUInt8] ++
    (bytes16 s.prescaler.toUInt16).toList ++ (bytes16 s.segment1.toUInt16).toList)

namespace FeatureOperation

def clear : UInt8 := 0
/-- Enables features in addition to those already enabled. -/
def add : UInt8 := 1

end FeatureOperation

/-- An operation on the enabled features. -/
structure FeaturesRequest where
  operation : UInt8
  flags : UInt32
  deriving DecidableEq, Repr

namespace FeaturesRequest

/-- Disables all optional features. -/
def clear : FeaturesRequest := ⟨FeatureOperation.clear, 0⟩

def enable (flags : UInt32) : FeaturesRequest := ⟨FeatureOperation.add, flags⟩

def message (r : FeaturesRequest) : Vector UInt8 8 :=
  Bytes.padded _ ([features, featuresSize.toUInt8, 0, r.operation] ++ (bytes32 r.flags).toList)

end FeaturesRequest

/-- Goes on bus, or off. -/
def busRequest (on : Bool) : Vector UInt8 4 :=
  Bytes.padded _ ([bus, busSize.toUInt8] ++ (bytes16 on.toUInt16).toList)

end CanLink.Message
