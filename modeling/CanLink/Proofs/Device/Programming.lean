import CanLink.Control.Script
import CanLink.Proofs.Bytes.Number
import CanLink.Proofs.Control.Messages
import CanLink.Proofs.Device.Outcome
import CanLink.Proofs.Ring.Fifo
import CanLink.Proofs.Timing.Registers

/-!
What configuring writes into the bit-timing registers of a device. A device tells its clock and its
register ranges in one message and takes register values in others, and the offsets of the fields
are all that both sides share. `Capability.clockIn`, `nominalIn` and `dataIn` are read off the first
message by these offsets alone, `Message.Carries` off the others, and `Programmed` relates the two:
the values that arrive are legal for the ranges that were reported. A range is never wider than its
register, so no value is cut on the way (`carries_timing`).
-/

namespace CanLink

open LittleEndian
open Timing (Settings Target Ranges Legal)

namespace Message

/-- Register values as they stand in a bit-timing message. -/
structure Carries (message : Bytes) (s : Settings) : Prop where
  jumpWidth : message.number 2 1 = s.jumpWidth.toNat
  segment2 : message.number 3 1 = s.segment2.toNat
  prescaler : message.number 4 2 = s.prescaler.toNat
  segment1 : message.number 6 2 = s.segment1.toNat

end Message

/-- Every value in the ranges fits the register that it is written to. -/
structure Timing.Ranges.Narrow (ranges : Ranges) : Prop where
  prescaler : ranges.prescalerMax < 256 ^ 2
  segment1 : ranges.segment1Max < 256 ^ 2
  segment2 : ranges.segment2Max < 256
  jumpWidth : ranges.jumpWidthMax < 256

namespace Message

theorem number_byte_of_lt {n : Nat} (message : Vector UInt8 n) {i : Nat} (inside : i < n)
    {w : UInt32} (placed : message[i] = w.toUInt8) (narrow : w.toNat < 256) :
    Bytes.number message.toList i 1 = w.toNat := by
  rw [number_byte message inside, placed, UInt32.toNat_toUInt8, Nat.mod_eq_of_lt narrow]

theorem number_word_of_lt {n start : Nat} (message : Vector UInt8 n) (fits : start + 2 ≤ n)
    {w : UInt32} (placed : slice message start 2 fits = bytes16 w.toUInt16)
    (narrow : w.toNat < 256 ^ 2) : Bytes.number message.toList start 2 = w.toNat := by
  rw [number_word16 message fits, placed, word16_bytes16, UInt32.toNat_toUInt16]
  exact Nat.mod_eq_of_lt narrow

/-- Legal values for narrow ranges are written without loss. -/
theorem carries_timing (id : UInt8) {clock : Nat} {ranges : Ranges} {target : Target} {s : Settings}
    (legal : Legal clock ranges target s) (narrow : ranges.Narrow) :
    Carries (timing id s).toList s := by
  constructor
  · refine number_byte_of_lt (timing id s) (by decide) ?_ ?_
    · simp [timing, Bytes.getElem_padded]
    · have within := (Nat.le_min.mp legal.jumpWidthMost).1
      exact Nat.lt_of_le_of_lt within narrow.jumpWidth
  · refine number_byte_of_lt (timing id s) (by decide) ?_ ?_
    · simp [timing, Bytes.getElem_padded]
    · exact Nat.lt_of_le_of_lt legal.segment2Most narrow.segment2
  · refine number_word_of_lt (timing id s) (by decide) ?_ ?_
    · exact slice_padded _ (bytes16 s.segment1.toUInt16).toList _ rfl
    · exact Nat.lt_of_le_of_lt legal.prescalerMost narrow.prescaler
  · refine number_word_of_lt (timing id s) (by decide) ?_ ?_
    · exact slice_padded _ [] _ rfl
    · exact Nat.lt_of_le_of_lt legal.segment1Most narrow.segment1

end Message

namespace Capability

/-- The clock that a capability message reports. -/
def clockIn (info : Bytes) : Nat := info.number 4 4

/-- The ranges of the nominal phase that a capability message reports. -/
def nominalIn (info : Bytes) : Ranges where
  prescalerMin := info.number 13 1
  prescalerMax := info.number 8 2
  segment1Min := info.number 12 1
  segment1Max := info.number 10 2
  segment2Min := info.number 15 1
  segment2Max := info.number 16 1
  jumpWidthMax := info.number 14 1

/-- The ranges of the data phase that a capability message reports. -/
def dataIn (info : Bytes) : Ranges where
  prescalerMin := info.number 18 1
  prescalerMax := info.number 17 1
  segment1Min := info.number 19 1
  segment1Max := info.number 20 1
  segment2Min := info.number 22 1
  segment2Max := info.number 23 1
  jumpWidthMax := info.number 21 1

theorem narrow_nominalIn (info : Bytes) : (nominalIn info).Narrow where
  prescaler := info.number_lt 8 2
  segment1 := info.number_lt 10 2
  segment2 := info.number_lt 16 1
  jumpWidth := info.number_lt 14 1

theorem narrow_dataIn (info : Bytes) : (dataIn info).Narrow where
  prescaler := Nat.lt_trans (info.number_lt 17 1) (by decide)
  segment1 := Nat.lt_trans (info.number_lt 20 1) (by decide)
  segment2 := info.number_lt 23 1
  jumpWidth := info.number_lt 21 1

/-- A phase of a device as a capability message reports it. -/
structure Reports (info : Bytes) (ranges : Ranges) (c : Timing.Constraints) : Prop where
  clock : c.clock.toNat = clockIn info
  ranges : c.ranges = ranges

theorem reports_of_ofBytes {info : Bytes} {capability : Capability}
    (read : ofBytes info = .ok capability) :
    Reports info (nominalIn info) capability.nominal ∧
      Reports info (dataIn info) capability.data := by
  rw [ofBytes] at read
  cases leading : info.leading messageSize with
  | error e =>
      rw [leading] at read
      cases read
  | ok m =>
      rw [leading] at read
      cases read
      -- Every field ends within the message, so what follows it in the string is not read.
      have same {start n : Nat} (within : start + n ≤ 28) :
          info.number start n = Bytes.number m.toList start n := by
        rw [Bytes.toList_of_leading leading, Bytes.number_take info within]
      have byte {i : Nat} (inside : i < 28) : info.number i 1 = m[i].toNat := by
        rw [same inside, number_byte m inside]
      have word {start : Nat} (within : start + 2 ≤ 28) :
          info.number start 2 = (word16 (slice m start 2 within)).toNat := by
        rw [same within, number_word16 m within]
      have clock : (ofMessage m).clock.toNat = clockIn info := by
        rw [clockIn, same (by decide), number_word32 m (by decide)]
        rfl
      constructor
      · refine ⟨clock, ?_⟩
        simp [nominalIn, Timing.Constraints.ranges, ofMessage, byte, word]
      · refine ⟨clock, ?_⟩
        simp [dataIn, Timing.Constraints.ranges, ofMessage, byte]

end Capability

/-- Of the messages, exactly one sets the timing of a phase. It carries the given register values,
which the ranges allow and which give the target. -/
structure Programmed (id : UInt8) (messages : List Bytes) (clock : Nat) (ranges : Ranges)
    (target : Target) (s : Settings) : Prop where
  message : ∃ m, messages.filter (·.head? = some id) = [m] ∧ Message.Carries m s
  legal : Legal clock ranges target s

/-- What the solver gives for a reported phase programs that phase, if it is sent as it is. -/
theorem programmed_of_solve {id : UInt8} {messages : List Bytes} {info : Bytes} {ranges : Ranges}
    {c : Timing.Constraints} {target : Target} {phase : Timing.Phase} {s : Settings}
    (reported : Capability.Reports info ranges c) (narrow : ranges.Narrow)
    (solved : Timing.solve c target phase = .ok s)
    (sent : messages.filter (·.head? = some id) = [(Message.timing id s).toList]) :
    Programmed id messages (Capability.clockIn info) ranges target s := by
  have legal : Legal (Capability.clockIn info) ranges target s := by
    rw [← reported.clock, ← reported.ranges]
    exact Timing.legal_of_solve solved
  exact ⟨⟨_, sent, Message.carries_timing id legal narrow⟩, legal⟩

/-- The bit-timing messages of a set-up, with the request to leave the bus in front. -/
theorem BusConfig.timing_messages (config : BusConfig) (timing : BusTiming) :
    (Device.leave :: config.messages timing).filter (·.head? = some Message.nominalTiming) =
        [(Message.timing Message.nominalTiming timing.nominal).toList] ∧
      (Device.leave :: config.messages timing).filter (·.head? = some Message.dataTiming) =
        (timing.data.map fun data => (Message.timing Message.dataTiming data).toList).toList := by
  obtain ⟨nominal, data⟩ := timing
  cases data with
  | none => exact ⟨rfl, rfl⟩
  | some settings => exact ⟨rfl, rfl⟩

namespace Device

variable {τ : Type} [Transport τ]

/-- Configuring writes register values that the device can take and that are exact. For whatever
message the device reported itself with, whatever features it has and however the transport answers,
a configuration that succeeds sends one nominal bit-timing message, with the values that the client
keeps, and for a CAN-FD bus one for the data phase, from the same clock; for a classic bus it sends
none for the data phase. -/
theorem configure_programs_exact_timing {info : Bytes} {capability : Capability}
    (read : Capability.ofBytes info = .ok capability) {features : UInt32}
    {d : Device (Recorded τ)} (reported : d.capability = capability.withFeatures features)
    {config : BusConfig} (succeeded : (d.configure config).1 = .ok ()) :
    let after := (d.configure config).2
    ∃ calls, after.transport.calls = d.transport.calls ++ calls ∧
      after.fdMode = config.isFd ∧
      (∃ s, after.timing = some s ∧
        Programmed Message.nominalTiming (sentMessages calls) (Capability.clockIn info)
          (Capability.nominalIn info) config.nominal s) ∧
      Option.Rel
        (fun target s =>
          Programmed Message.dataTiming (sentMessages calls) (Capability.clockIn info)
            (Capability.dataIn info) target s)
        config.data after.dataTiming ∧
      (config.isFd = false →
        (sentMessages calls).filter (·.head? = some Message.dataTiming) = []) := by
  intro after
  obtain ⟨calls, made, outcome⟩ := d.configure_outcome config
  obtain ⟨nominalReported, dataReported⟩ := Capability.reports_of_ofBytes read
  refine ⟨calls, made, ?_⟩
  clear made
  subst after
  generalize d.configure config = result at succeeded outcome
  cases outcome with
  | unsupported => cases succeeded
  | noAccess => cases succeeded
  | failed => cases succeeded
  | @configured calls timing left t ended =>
      obtain ⟨solved, rfl⟩ := ended.calls_of_ok
      rw [reported] at solved
      obtain ⟨nominal, data⟩ := BusConfig.solved_of_timing solved
      rw [sentMessages_held, sentMessages_all]
      obtain ⟨nominalSent, dataSent⟩ := config.timing_messages timing
      refine ⟨BusConfig.timing_isFd solved, ⟨timing.nominal, rfl, ?_⟩, ?_, ?_⟩
      · exact programmed_of_solve nominalReported (Capability.narrow_nominalIn info) nominal
          nominalSent
      · generalize config.data = asked at data ⊢
        generalize timing.data = settings at data dataSent ⊢
        cases data with
        | none => exact .none
        | some solved =>
            exact .some (programmed_of_solve dataReported (Capability.narrow_dataIn info) solved
              dataSent)
      · intro classic
        have absent : timing.data = none := by
          rw [← Option.not_isSome_iff_eq_none, BusConfig.timing_isFd solved, classic]
          exact Bool.false_ne_true
        rw [dataSent, absent]
        rfl

/-- A CAN-FD controller at 80 MHz, as it reports itself. -/
def controllerInfo : Bytes :=
  [0x04, 28, 0, 2, 0x00, 0xB4, 0xC4, 0x04, 32, 0, 0, 1, 1, 1, 128, 1, 128, 32, 1, 1, 32, 16, 1, 16,
    32, 32, 0, 0]

def controllerCapability : Capability :=
  ⟨512, 80000000, ⟨80000000, 1, 32, 1, 1, 256, 1, 128, 128⟩,
    ⟨80000000, 1, 32, 1, 1, 32, 1, 16, 16⟩, 32, 32, 0⟩

/-- A client of the controller, over a transport that accepts everything. -/
def atController : Device (Recorded Script) :=
  .start (.start ⟨false, none, none, [], none⟩) (controllerCapability.withFeatures Feature.fd)
    ⟨Ring.aboutToWrap, .never⟩ ⟨Ring.aboutToWrap, .never⟩

/-- 500 kbit/s with a jump width of three quanta, and 2 Mbit/s for the data phase. -/
def wideBus : BusConfig := ⟨⟨500000, ⟨0⟩, 3, 0⟩, some (.ofBitrate 2000000), Feature.receipts⟩

theorem configure_programs_controller :
    Capability.ofBytes controllerInfo = .ok controllerCapability ∧
      (atController.configure wideBus).1 = .ok () ∧
      (atController.configure wideBus).2.timing = some ⟨1, 139, 20, 3⟩ ∧
      (atController.configure wideBus).2.dataTiming = some ⟨1, 27, 12, 12⟩ ∧
      ∃ calls, (atController.configure wideBus).2.transport.calls = calls ∧
        Programmed Message.nominalTiming (sentMessages calls) 80000000
          ⟨1, 32, 1, 256, 1, 128, 128⟩ wideBus.nominal ⟨1, 139, 20, 3⟩ := by
  have read : Capability.ofBytes controllerInfo = .ok controllerCapability := by rfl
  have reported : atController.capability = controllerCapability.withFeatures Feature.fd := rfl
  have succeeded : (atController.configure wideBus).1 = .ok () := by rfl
  have timing : (atController.configure wideBus).2.timing = some ⟨1, 139, 20, 3⟩ := by rfl
  have dataTiming : (atController.configure wideBus).2.dataTiming = some ⟨1, 27, 12, 12⟩ := by rfl
  obtain ⟨calls, made, -, ⟨s, kept, programmed⟩, -, -⟩ :=
    configure_programs_exact_timing read reported succeeded
  rw [timing] at kept
  cases kept
  exact ⟨read, succeeded, timing, dataTiming, calls, made, programmed⟩

end Device

end CanLink
