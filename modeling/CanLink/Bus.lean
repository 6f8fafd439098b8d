import CanLink.Slot

/-! What a device reports about the bus: its error state, and single bus errors. -/

namespace CanLink

/-- Error state of a node on the bus. -/
inductive BusState where
  | errorActive
  | errorWarning
  | errorPassive
  | busOff
  | unknown
  deriving DecidableEq, Repr

namespace BusState

/-- The codes that are assigned, with their states. -/
def codes : List (UInt8 × BusState) :=
  [(0, errorActive), (1, errorWarning), (2, errorPassive), (3, busOff)]

def ofCode (code : UInt8) : BusState := (codes.lookup code).getD unknown

def label : BusState → String
  | errorActive => "ERROR_ACTIVE"
  | errorWarning => "ERROR_WARNING"
  | errorPassive => "ERROR_PASSIVE"
  | busOff => "BUS_OFF"
  | unknown => "UNKNOWN"

end BusState

namespace StatusFlag

/-- The device lost track of transmission receipts. -/
def receiptsLost : UInt8 := 0x01

/-- The interrupt queue of the device overflowed. -/
def interruptQueueFull : UInt8 := 0x02

end StatusFlag

/-- A change of the bus status. -/
structure BusStatus where
  /-- Extended device clock in microseconds. -/
  timestamp : UInt64
  code : UInt8
  flags : UInt8
  rxLost : UInt16
  txDropped : UInt16
  rxErrors : UInt8
  txErrors : UInt8
  rxFifo : UInt8
  txFifo : UInt8
  deriving DecidableEq, Repr

namespace BusStatus

def ofSlot (s : StatusSlot) (timestamp : UInt64) : BusStatus where
  timestamp
  code := s.status
  flags := s.flags
  rxLost := s.rxLost
  txDropped := s.txDropped
  rxErrors := s.rxErrors
  txErrors := s.txErrors
  rxFifo := s.rxFifo
  txFifo := s.txFifo

def state (s : BusStatus) : BusState := .ofCode s.code

def lostReceipts (s : BusStatus) : Bool := hasFlag s.flags StatusFlag.receiptsLost

def interruptQueueFull (s : BusStatus) : Bool := hasFlag s.flags StatusFlag.interruptQueueFull

def isBusOff (s : BusStatus) : Bool := s.state = .busOff

def render (s : BusStatus) : String :=
  String.intercalate "\n"
    [s!"State: {s.state.label}", s!"RX Error Counter: {s.rxErrors}",
      s!"TX Error Counter: {s.txErrors}", s!"RX lost: {s.rxLost}", s!"TX dropped: {s.txDropped}"]

end BusStatus

/-- Cause of a bus error. -/
inductive ErrorCause where
  | ack
  | bit0
  | bit1
  | form
  | stuff
  | crc
  | other (code : UInt8)
  deriving DecidableEq, Repr

namespace ErrorCause

/-- Code that stands for no error. -/
def noneCode : UInt8 := 0

/-- The codes that are assigned, with their causes. -/
def codes : List (UInt8 × ErrorCause) :=
  [(1, stuff), (2, form), (3, ack), (4, bit1), (5, bit0), (6, crc)]

def ofCode (code : UInt8) : ErrorCause := (codes.lookup code).getD (other code)

def render : ErrorCause → String
  | ack => "Ack"
  | bit0 => "Bit0"
  | bit1 => "Bit1"
  | form => "Form"
  | stuff => "Stuff"
  | crc => "Crc"
  | other code => s!"Other({code})"

end ErrorCause

namespace ErrorFlag

/-- The error occurred while transmitting. -/
def transmitting : UInt8 := 0x01

/-- The error occurred in the data phase. -/
def dataPhase : UInt8 := 0x02

end ErrorFlag

/-- One error on the bus. -/
structure BusError where
  /-- Extended device clock in microseconds. -/
  timestamp : UInt64
  cause : ErrorCause
  transmitting : Bool
  dataPhase : Bool
  deriving DecidableEq, Repr

namespace BusError

def ofSlot (s : ErrorSlot) (timestamp : UInt64) : BusError where
  timestamp
  cause := .ofCode s.code
  transmitting := hasFlag s.flags ErrorFlag.transmitting
  dataPhase := hasFlag s.flags ErrorFlag.dataPhase

end BusError

end CanLink
