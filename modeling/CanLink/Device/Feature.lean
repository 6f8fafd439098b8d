/-! Optional features of a device, one bit each. -/

namespace CanLink.Feature

/-- CAN-FD frames. -/
def fd : UInt32 := 0x0001
/-- Protocol exception handling can be disabled. -/
def exceptionHandling : UInt32 := 0x0002
/-- Automatic retransmission can be disabled. -/
def singleShot : UInt32 := 0x0004
/-- Filters for received messages. -/
def filters : UInt32 := 0x0008
/-- Receipts for transmitted frames. -/
def receipts : UInt32 := 0x0010
/-- Generators of messages. -/
def generators : UInt32 := 0x0020
/-- The device only listens. -/
def monitoring : UInt32 := 0x0100
/-- Restricted operation. -/
def restricted : UInt32 := 0x0200
/-- The device hears itself through the bus pins. -/
def externalLoopback : UInt32 := 0x0400

end CanLink.Feature
