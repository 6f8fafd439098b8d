import CanLink.Payload

/-!
What one ring slot carries: a frame received from the bus, a frame to be sent or its receipt, a
change of the bus status, or a bus error.
-/

namespace CanLink

/-- A bit of `mask` is set in `flags`. -/
def hasFlag (flags mask : UInt8) : Bool := flags &&& mask != 0

namespace FrameFlag

/-- The identifier has 29 bits. -/
def extended : UInt8 := 0x01

/-- The frame is a remote request. -/
def remote : UInt8 := 0x02

/-- The frame has CAN-FD format. -/
def fd : UInt8 := 0x04

/-- The payload is sent at the data bitrate. -/
def bitRateSwitch : UInt8 := 0x08

/-- The transmitter was error passive. -/
def errorStateIndicator : UInt8 := 0x10

/-- The device dropped the frame instead of sending it. -/
def dropped : UInt8 := 0x20

/-- The flags that describe a frame itself and not its delivery. -/
def ofFrame : UInt8 := extended ||| remote ||| fd ||| bitRateSwitch ||| errorStateIndicator

end FrameFlag

abbrev PayloadBytes := Vector UInt8 64

structure FrameSlot where
  /-- Device clock in microseconds. -/
  timestamp : UInt32
  /-- Identifier without flags. -/
  identifier : UInt32
  /-- Code of the payload length. -/
  code : UInt8
  /-- Frame flags. -/
  flags : UInt8
  /-- Of a receipt: the frame was sent by the client that reads it. -/
  echo : Bool
  /-- Number that the sender gave the frame, to tell its receipt by. -/
  trackId : UInt32
  /-- Payload, of which only the coded length is meaningful. -/
  data : PayloadBytes
  deriving DecidableEq

namespace FrameSlot

def blank : FrameSlot := ⟨0, 0, 0, 0, false, 0, Vector.replicate _ 0⟩

end FrameSlot

structure StatusSlot where
  timestamp : UInt32
  flags : UInt8
  /-- Bus status code. -/
  status : UInt8
  /-- Frames lost on the way from the bus since the last status. -/
  rxLost : UInt16
  /-- Frames dropped on the way to the bus since the last status. -/
  txDropped : UInt16
  rxErrors : UInt8
  txErrors : UInt8
  rxFifo : UInt8
  txFifo : UInt8
  deriving DecidableEq, Repr

structure ErrorSlot where
  timestamp : UInt32
  flags : UInt8
  /-- Bus error code. -/
  code : UInt8
  deriving DecidableEq, Repr

inductive Slot where
  | rx (s : FrameSlot)
  /-- A frame to be sent, or the receipt of one. -/
  | tx (s : FrameSlot)
  | status (s : StatusSlot)
  | error (s : ErrorSlot)
  deriving DecidableEq

namespace Slot

/-- Device clock of the slot. -/
def timestamp : Slot → UInt32
  | rx s | tx s => s.timestamp
  | status s => s.timestamp
  | error s => s.timestamp

end Slot

end CanLink
