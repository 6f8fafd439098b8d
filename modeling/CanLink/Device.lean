import CanLink.Channel
import CanLink.Control.Message
import CanLink.Control.Transport
import CanLink.Device.Capability
import CanLink.Event
import CanLink.Text.Record
import CanLink.Timing.Solver

/-!
The client of one CAN channel. It configures the device over its control transport, queues frames on
the transmit channel and reads events from the receive channel. The server at the other end puts
slots into the receive channel and takes them out of the transmit channel.
-/

namespace CanLink

open Timing (Settings Target)

/-- How a bus is to be run. -/
structure BusConfig where
  nominal : Target
  /-- Timing of the data phase, for a CAN-FD bus. -/
  data : Option Target
  /-- Features to enable; CAN-FD is enabled as `data` has it. -/
  features : UInt32
  deriving DecidableEq

namespace BusConfig

def classic (bitrate : UInt32) : BusConfig := ⟨.ofBitrate bitrate, none, Feature.receipts⟩

def fd (bitrate dataBitrate : UInt32) : BusConfig :=
  ⟨.ofBitrate bitrate, some (.ofBitrate dataBitrate), Feature.receipts⟩

/-- A classic bus at 500 kbit/s. -/
def standard : BusConfig := classic 500000

def withFeatures (c : BusConfig) (features : UInt32) : BusConfig := { c with features }

def isFd (c : BusConfig) : Bool := c.data.isSome

/-- Features that are enabled in fact. -/
def enabled (c : BusConfig) : UInt32 :=
  let others := c.features &&& ~~~Feature.fd
  if c.isFd then others ||| Feature.fd else others

end BusConfig

/-- Register values of a bus: the nominal phase, and the data phase of a CAN-FD bus. -/
structure BusTiming where
  nominal : Settings
  data : Option Settings
  deriving DecidableEq, Repr

namespace BusConfig

/-- Register values with which a device reaches the bit timing asked for. -/
def timing (config : BusConfig) (capability : Capability) : Except Error BusTiming :=
  match config.data with
  | none => do
      let nominal ← Timing.solve capability.nominal config.nominal .nominal
      pure ⟨nominal, none⟩
  | some data => do
      let both ← Timing.solveFd capability.nominal capability.data config.nominal data
      pure ⟨both.nominal, some both.data⟩

/-- Messages that set up a device that is off bus, and put it on bus. -/
def messages (config : BusConfig) (timing : BusTiming) : List Bytes :=
  [(Message.timing Message.nominalTiming timing.nominal).toList] ++
    (timing.data.map fun data => (Message.timing Message.dataTiming data).toList).toList ++
    [Message.FeaturesRequest.clear.message.toList,
      (Message.FeaturesRequest.enable config.enabled).message.toList,
      (Message.busRequest true).toList]

end BusConfig

structure Device (τ : Type) where
  transport : τ
  capability : Capability
  rx : Channel
  tx : Channel
  tracker : Clock.Tracker
  onBus : Bool
  /-- The bus runs in CAN-FD mode. -/
  fdMode : Bool
  /-- Number of the next frame to be sent. -/
  nextTrackId : UInt32
  /-- Timing of the last successful configuration. -/
  timing : Option Settings
  dataTiming : Option Settings

namespace Device

variable {τ : Type} [Transport τ]

/-- A client that has done nothing yet. -/
def start (transport : τ) (capability : Capability) (rx tx : Channel) : Device τ where
  transport
  capability
  rx
  tx
  tracker := .fresh
  onBus := false
  fdMode := false
  nextTrackId := 0
  timing := none
  dataTiming := none

/-- Takes the device off bus and sets it up, with access held. The first result is how it ended, the
second whether the device left the bus. -/
def setUp (config : BusConfig) (capability : Capability) (t : τ) :
    (Except Error BusTiming × Bool) × τ :=
  match Transport.send (Message.busRequest false).toList t with
  | (.error e, t) => ((.error e, false), t)
  | (.ok (), t) =>
      match config.timing capability with
      | .error e => ((.error e, true), t)
      | .ok timing =>
          let (answer, t) := Transport.sendAll (config.messages timing) t
          ((answer.map fun _ => timing, true), t)

/-- Configures bit timing and features and goes on bus. A device that is on bus goes off first, and
stays off if the rest fails. -/
def configure (config : BusConfig) (d : Device τ) : Except Error Unit × Device τ :=
  if config.isFd && !d.capability.supportsFd then (.error .fdNotSupported, d)
  else
    match Transport.withAccess (setUp config d.capability) d.transport with
    | (.error e, transport) => (.error e, { d with transport })
    | (.ok (.error e, left), transport) =>
        (.error e, { d with transport, onBus := d.onBus && !left })
    | (.ok (.ok timing, _), transport) =>
        (.ok (),
          { d with
            transport
            onBus := true
            fdMode := timing.data.isSome
            timing := some timing.nominal
            dataTiming := timing.data })

/-- Goes off bus. -/
def stop (d : Device τ) : Except Error Unit × Device τ :=
  match Transport.withAccess (Transport.send (Message.busRequest false).toList) d.transport with
  | (.error e, transport) => (.error e, { d with transport })
  | (.ok (.error e), transport) => (.error e, { d with transport })
  | (.ok (.ok ()), transport) => (.ok (), { d with transport, onBus := false })

/-- Queues a frame to be sent, and gives the number that its receipt will carry. Numbers are used
up by queued frames only. -/
def send (frame : Frame) (d : Device τ) : Except Error UInt32 × Device τ :=
  if !d.onBus then (.error .notOnBus, d)
  else if frame.isFd && !d.fdMode then (.error (.invalidFrame .fdOnClassicBus), d)
  else match frame.encode with
    | .error fault => (.error (.invalidFrame fault), d)
    | .ok slot =>
        match d.tx.push (.tx { slot with trackId := d.nextTrackId }) with
        | (.error e, _) => (.error e, d)
        | (.ok false, _) => (.error .ringFull, d)
        | (.ok true, tx) => (.ok d.nextTrackId, { d with tx, nextTrackId := d.nextTrackId + 1 })

/-- The events in everything that is queued for receipt. -/
def receive (d : Device τ) : Except Error (List Event) × Device τ :=
  match d.rx.drainAll with
  | (.error e, rx) => (.error e, { d with rx })
  | (.ok slots, rx) =>
      let (events, tracker) := Event.ofSlots slots d.tracker
      (.ok events, { d with rx, tracker })

/-- Reading would wait, because there is no event yet. -/
def wouldWait (d : Device τ) : Bool :=
  match d.receive.1 with
  | .ok [] => true
  | _ => false

/-- Receives events, waiting once if there are none. What the server does to the receive channel
during the wait is `meanwhile`. -/
def read (meanwhile : Channel → Channel) (d : Device τ) : Except Error (List Event) × Device τ :=
  match d.receive with
  | (.ok [], d) =>
      match { d with rx := (meanwhile d.rx).wait.2 }.receive with
      | (.ok [], d) => (.error .readTimeout, d)
      | answer => answer
  | answer => answer

/-- Discards everything queued for receipt and starts the clock afresh, off bus only. Gives the
number of discarded slots, and repairs impossible indices. -/
def resetRx (d : Device τ) : Except Error UInt32 × Device τ :=
  if d.onBus then (.error .alreadyOnBus, d)
  else
    let (dropped, rx) := d.rx.reset
    (.ok dropped, { d with rx, tracker := .fresh })

/-- The end of a client: it goes off bus if it is on bus, and it does not matter if that fails. -/
def close (d : Device τ) : Device τ := if d.onBus then d.stop.2 else d

def render (d : Device τ) : String :=
  let features := Text.hex .lower 8 d.capability.features.toNat
  Text.record "ScDevice"
    [("on_bus", s!"{d.onBus}"), ("fd_mode", s!"{d.fdMode}"),
      ("can_clk_hz", s!"{d.capability.clock}"), ("features", s!"0x{features}"),
      ("next_track_id", s!"{d.nextTrackId}")]

end Device

end CanLink
