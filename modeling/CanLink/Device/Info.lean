import CanLink.Bytes
import CanLink.Text.Utf8

/-! What a device says about itself. -/

namespace CanLink

open LittleEndian

structure DeviceInfo where
  /-- Features that are always on. -/
  permanent : UInt16
  /-- Features that can be switched. -/
  configurable : UInt16
  serial : List UInt8
  firmwareMajor : UInt8
  firmwareMinor : UInt8
  firmwarePatch : UInt8
  name : String
  deriving DecidableEq, Repr

namespace DeviceInfo

/-- Length of the message. -/
abbrev messageSize : Nat := 60

/-- The fields of a message. Serial number and name have a length in front of them, which counts as
far as their fields reach. -/
def ofMessage (m : Vector UInt8 60) : DeviceInfo where
  permanent := word16 (slice m 2 2 (by decide))
  configurable := word16 (slice m 4 2 (by decide))
  serial := (slice m 8 16 (by decide)).toList.take m[7].toNat
  firmwareMajor := m[24]
  firmwareMinor := m[25]
  firmwarePatch := m[26]
  name := Text.decodeUtf8 ((slice m 28 32 (by decide)).toList.take m[27].toNat)

def ofBytes (bytes : Bytes) : Except Error DeviceInfo :=
  (bytes.leading messageSize).map ofMessage

/-- All features of the device. -/
def features (i : DeviceInfo) : UInt32 := (i.permanent ||| i.configurable).toUInt32

def hasFeature (i : DeviceInfo) (flag : UInt32) : Bool := i.features &&& flag != 0

def serialText (i : DeviceInfo) : String := String.join (Text.hexBytes .upper i.serial)

def render (i : DeviceInfo) : String :=
  let permanent := Text.hex .lower 4 i.permanent.toNat
  let configurable := Text.hex .lower 4 i.configurable.toNat
  String.intercalate "\n"
    [s!"Name: {i.name}", s!"Serial: {i.serialText}",
      s!"FW Version: {i.firmwareMajor}.{i.firmwareMinor}.{i.firmwarePatch}",
      s!"Features: perm=0x{permanent} conf=0x{configurable}"]

end DeviceInfo

end CanLink
