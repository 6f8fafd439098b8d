import CanLink.Bytes
import CanLink.Slot

/-!
The 80 bytes of a slot. The first byte is a tag for the kind of slot; what the others hold depends
on it:

```text
offset  size  frame           status                            error
0       1     tag             tag                               tag
1       1     payload code
2       1     flags           flags                             flags
3       1     echo            status code                       error code
4       4     timestamp       timestamp                         timestamp
8       4     identifier      rx lost, tx dropped (2 each)
12      4     track id        rx errors, tx errors, rx fifo, tx fifo
16      64    payload
```

Bytes without an entry are written as zero and not read.
-/

namespace CanLink

/-- Bytes of one slot. -/
abbrev slotSize : Nat := 80

abbrev Record := Vector UInt8 80

namespace SlotTag

def unused : UInt8 := 0x00
def status : UInt8 := 0x01
def rx : UInt8 := 0x02
def tx : UInt8 := 0x03
def error : UInt8 := 0x04
/-- Log text of the device, which is no CAN data. -/
def log : UInt8 := 0x10

end SlotTag

/-! ### Where the fields of a slot begin -/

namespace SlotOffset

abbrev tag : Nat := 0
abbrev code : Nat := 1
abbrev flags : Nat := 2
/-- Echo, status code or error code. -/
abbrev info : Nat := 3
abbrev timestamp : Nat := 4
abbrev identifier : Nat := 8
abbrev trackId : Nat := 12
abbrev data : Nat := 16

end SlotOffset

open LittleEndian

namespace FrameSlot

def record (tag : UInt8) (s : FrameSlot) : Record :=
  Bytes.padded 80 ([tag, s.code, s.flags, s.echo.toUInt8] ++
    (bytes32 s.timestamp).toList ++ (bytes32 s.identifier).toList ++ (bytes32 s.trackId).toList ++
    s.data.toList)

/-- Any echo byte but zero counts as set. -/
def ofRecord (r : Record) : FrameSlot where
  timestamp := word32 (slice r SlotOffset.timestamp 4 (by decide))
  identifier := word32 (slice r SlotOffset.identifier 4 (by decide))
  code := r[SlotOffset.code]
  flags := r[SlotOffset.flags]
  echo := r[SlotOffset.info] != 0
  trackId := word32 (slice r SlotOffset.trackId 4 (by decide))
  data := slice r SlotOffset.data 64 (by decide)

end FrameSlot

namespace StatusSlot

def record (s : StatusSlot) : Record :=
  Bytes.padded 80 ([SlotTag.status, 0, s.flags, s.status] ++
    (bytes32 s.timestamp).toList ++ (bytes16 s.rxLost).toList ++ (bytes16 s.txDropped).toList ++
    [s.rxErrors, s.txErrors, s.rxFifo, s.txFifo])

def ofRecord (r : Record) : StatusSlot where
  timestamp := word32 (slice r SlotOffset.timestamp 4 (by decide))
  flags := r[SlotOffset.flags]
  status := r[SlotOffset.info]
  rxLost := word16 (slice r 8 2 (by decide))
  txDropped := word16 (slice r 10 2 (by decide))
  rxErrors := r[12]
  txErrors := r[13]
  rxFifo := r[14]
  txFifo := r[15]

end StatusSlot

namespace ErrorSlot

def record (s : ErrorSlot) : Record :=
  Bytes.padded 80 ([SlotTag.error, 0, s.flags, s.code] ++ (bytes32 s.timestamp).toList)

def ofRecord (r : Record) : ErrorSlot where
  timestamp := word32 (slice r SlotOffset.timestamp 4 (by decide))
  flags := r[SlotOffset.flags]
  code := r[SlotOffset.info]

end ErrorSlot

namespace Slot

def tag : Slot → UInt8
  | rx _ => SlotTag.rx
  | tx _ => SlotTag.tx
  | status _ => SlotTag.status
  | error _ => SlotTag.error

def record : Slot → Record
  | rx s => s.record SlotTag.rx
  | tx s => s.record SlotTag.tx
  | status s => s.record
  | error s => s.record

/-- The slot that a record holds; records with another tag carry no CAN data. -/
def ofRecord? (r : Record) : Option Slot :=
  let tag := r[SlotOffset.tag]
  if tag = SlotTag.rx then some (rx (.ofRecord r))
  else if tag = SlotTag.tx then some (tx (.ofRecord r))
  else if tag = SlotTag.status then some (status (.ofRecord r))
  else if tag = SlotTag.error then some (error (.ofRecord r))
  else none

/-- The slot that a byte string begins with. -/
def ofBytes (bytes : Bytes) : Except Error (Option Slot) :=
  (bytes.leading slotSize).map ofRecord?

end Slot

end CanLink
