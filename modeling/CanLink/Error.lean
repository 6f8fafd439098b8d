import CanLink.Text.Numeral

/-!
What can go wrong, by cause, and the message each cause is reported with. A fault that this library
finds has a constructor of its own; `described` carries a fault in the words of another party.
-/

namespace CanLink

/-- Why a frame cannot be sent. -/
inductive FrameFault where
  | identifierOutOfRange
  | remoteInFdFormat
  | fdFlagsOnClassic
  | classicTooLong
  | lengthWithoutCode
  | fdOnClassicBus
  | described (text : String)
  deriving DecidableEq, Repr

/-- Why a bit-timing request is malformed. -/
inductive RequestFault where
  | bitrateZero
  | bitrateAboveMaximum
  | samplePointOutside
  | jumpWidthAboveMaximum
  | described (text : String)
  deriving DecidableEq, Repr

/-- Why register ranges do not describe a usable device. -/
inductive ConstraintFault where
  | clockZero
  | prescalerMinZero
  | prescalerStepZero
  | prescalerRangeEmpty
  | prescalerRangeUneven
  | segment1RangeEmpty
  | segment2MinZero
  | segment2RangeEmpty
  | jumpWidthMaxZero
  | clocksDiffer
  | described (text : String)
  deriving DecidableEq, Repr

/-- The constraint that left a bit-timing request without a solution. -/
inductive NoSolution where
  /-- No prescaler divides the clock into an integer number of time quanta per bit. -/
  | noIntegerBitLength
  /-- Integer bit lengths exist, but none fits the segment registers. -/
  | bitLengthOutOfRange
  /-- Every fitting bit length has fewer time quanta than requested. -/
  | minQuantaUnreachable
  /-- No fitting split leaves segment 2 as long as the requested jump width. -/
  | jumpWidthUnreachable
  deriving DecidableEq, Repr

/-- A call that the operating system did not carry out: its number for the reason, and its words. -/
structure SystemFault where
  code : Nat
  text : String
  deriving DecidableEq, Repr

/-- Why shared memory cannot be mapped. -/
inductive MappingFault where
  | system (fault : SystemFault)
  | nulInName (position : Nat)
  /-- The system put the memory where no pointer can point. -/
  | nullAddress
  | described (text : String)
  deriving DecidableEq, Repr

inductive Error where
  /-- More records are claimed to be queued than the ring holds. Only a reset makes the ring
  usable again. -/
  | impossibleIndices (put get capacity : UInt32)
  | ringFull
  | invalidFrame (fault : FrameFault)
  | noSolution (reason : NoSolution)
  | invalidRequest (fault : RequestFault)
  | invalidConstraints (fault : ConstraintFault)
  | regionTooSmall (required actual : Nat)
  | regionMisaligned
  | invalidCapacity (capacity : UInt32)
  | shortMessage (expected actual : Nat)
  | mapping (fault : MappingFault)
  | accessDenied
  | fdNotSupported
  | controlRejected (request : UInt8) (reason : String)
  | alreadyOnBus
  | notOnBus
  | readTimeout
  deriving DecidableEq, Repr

namespace FrameFault

def message : FrameFault → String
  | identifierOutOfRange => "identifier out of range"
  | remoteInFdFormat => "remote request in CAN-FD format"
  | fdFlagsOnClassic => "BRS or ESI on classic frame"
  | classicTooLong => "classic payload longer than 8 bytes"
  | lengthWithoutCode => "payload length has no DLC"
  | fdOnClassicBus => "CAN-FD frame on a classic bus"
  | described text => text

end FrameFault

namespace RequestFault

def message : RequestFault → String
  | bitrateZero => "bitrate is zero"
  | bitrateAboveMaximum => "bitrate above phase maximum"
  | samplePointOutside => "sample point outside (0, 1]"
  | jumpWidthAboveMaximum => "sjw above hardware maximum"
  | described text => text

end RequestFault

namespace ConstraintFault

def message : ConstraintFault → String
  | clockZero => "clock is zero"
  | prescalerMinZero => "brp_min is zero"
  | prescalerStepZero => "brp_step is zero"
  | prescalerRangeEmpty => "brp_max below brp_min"
  | prescalerRangeUneven => "brp range not divisible by brp_step"
  | segment1RangeEmpty => "tseg1_max below tseg1_min"
  | segment2MinZero => "tseg2_min is zero"
  | segment2RangeEmpty => "tseg2_max below tseg2_min"
  | jumpWidthMaxZero => "sjw_max is zero"
  | clocksDiffer => "nominal and data phase clocks differ"
  | described text => text

end ConstraintFault

namespace NoSolution

def message : NoSolution → String
  | noIntegerBitLength => "no integer bit length"
  | bitLengthOutOfRange => "bit length outside segment ranges"
  | minQuantaUnreachable => "minimum time quanta unreachable"
  | jumpWidthUnreachable => "sync jump width unreachable"

/-- How far a search got before it failed with this reason. -/
def progress : NoSolution → Nat
  | noIntegerBitLength => 0
  | bitLengthOutOfRange => 1
  | minQuantaUnreachable => 2
  | jumpWidthUnreachable => 3

/-- The reason that lies further on the way to a solution. -/
def further (a b : NoSolution) : NoSolution :=
  if a.progress < b.progress then b else a

end NoSolution

def SystemFault.message (fault : SystemFault) : String := s!"{fault.text} (os error {fault.code})"

namespace MappingFault

def message : MappingFault → String
  | system fault => fault.message
  | nulInName position => s!"nul byte found in provided data at position: {position}"
  | nullAddress => "mmap returned null"
  | described text => text

end MappingFault

namespace Error

def message : Error → String
  | impossibleIndices put get capacity =>
      s!"Ring protocol corruption: put={put} get={get} capacity={capacity}"
  | ringFull => "Ring channel is full"
  | invalidFrame fault => s!"Invalid frame: {fault.message}"
  | noSolution reason => s!"No bit timing solution: {reason.message}"
  | invalidRequest fault => s!"Invalid bit timing request: {fault.message}"
  | invalidConstraints fault => s!"Invalid bit timing constraints: {fault.message}"
  | regionTooSmall required actual =>
      s!"Shared memory region too small: need {required} bytes, got {actual}"
  | regionMisaligned => "Shared memory region is not 4-byte aligned"
  | invalidCapacity capacity => s!"Invalid ring capacity: {capacity}"
  | shortMessage expected actual =>
      s!"Invalid response from device: expected {expected} bytes, got {actual}"
  | mapping fault => s!"I/O error: {fault.message}"
  | accessDenied => "Configuration access denied"
  | fdNotSupported => "Device does not support CAN FD"
  | controlRejected request reason =>
      let number := Text.hex .lower 2 request.toNat
      s!"Control request 0x{number} failed: {reason}"
  | alreadyOnBus => "Device is already on bus"
  | notOnBus => "Device is not on bus"
  | readTimeout => "Read timeout"

def isTimeout : Error → Bool
  | readTimeout => true
  | _ => false

/-- The channel has to be torn down or reset. -/
def isFatal : Error → Bool
  | impossibleIndices .. => true
  | _ => false

/-- The error comes from the bit-timing solver. -/
def isBitTiming : Error → Bool
  | noSolution _ | invalidRequest _ | invalidConstraints _ => true
  | _ => false

end Error

end CanLink
