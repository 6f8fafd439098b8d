import CanLink.Bytes
import CanLink.Numeric.Binary
import CanLink.Slot

/-!
Frames as applications see them, classic or CAN-FD. The length of a frame is the number of payload
bytes asked for; of a remote request it is the number of bytes requested, and there is no payload.
-/

namespace CanLink

structure Frame where
  /-- Identifier without flags. -/
  identifier : UInt32
  /-- Frame flags. -/
  flags : UInt8
  length : Nat
  data : PayloadBytes
  /-- Extended device clock in microseconds, zero for frames built here. -/
  timestamp : UInt64
  deriving DecidableEq

namespace Frame

/-- A classic frame with identifier zero and no payload. -/
def blank : Frame := ⟨0, 0, 0, zeros _, 0⟩

/-- A classic frame. Its length is that of all the data, even if the payload cannot hold them. -/
def classic (identifier : UInt32) (data : Bytes) : Frame :=
  { blank with identifier, length := data.length, data := data.padded _ }

/-- A CAN-FD frame, which may switch to the data bitrate for its payload. -/
def fd (identifier : UInt32) (data : Bytes) (bitRateSwitch : Bool) : Frame :=
  { classic identifier data with
    flags := if bitRateSwitch then FrameFlag.fd ||| FrameFlag.bitRateSwitch else FrameFlag.fd }

/-- A request for a frame of `length` bytes. -/
def remote (identifier : UInt32) (length : Nat) : Frame :=
  { blank with identifier, flags := FrameFlag.remote, length }

/-- The frame with further flags set. -/
def withFlags (f : Frame) (flags : UInt8) : Frame := { f with flags := f.flags ||| flags }

/-- The frame with its identifier marked as 29 bits long. -/
def extended (f : Frame) : Frame := f.withFlags FrameFlag.extended

def isExtended (f : Frame) : Bool := hasFlag f.flags FrameFlag.extended

def isRemote (f : Frame) : Bool := hasFlag f.flags FrameFlag.remote

def isFd (f : Frame) : Bool := hasFlag f.flags FrameFlag.fd

def switchesBitRate (f : Frame) : Bool := hasFlag f.flags FrameFlag.bitRateSwitch

/-- The transmitter was error passive. -/
def isErrorPassive (f : Frame) : Bool := hasFlag f.flags FrameFlag.errorStateIndicator

/-- Payload bytes, none for a remote request. -/
def payload (f : Frame) : Bytes :=
  if f.isRemote then [] else f.data.toList.take f.length

/-- Timestamp in seconds. -/
def seconds (f : Frame) : Numeric.Binary64 :=
  .ofRatio .binary64 (Numeric.Format.binary64.round f.timestamp.toNat 1) ⟨1000000, 0⟩

end Frame

end CanLink
