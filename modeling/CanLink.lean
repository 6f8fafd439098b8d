import CanLink.Control.Script
import CanLink.Device
import CanLink.Device.Info
import CanLink.Frame.Text
import CanLink.Memory.Host
import CanLink.Registry
import CanLink.Ring.Text
import CanLink.Slot.Text
import CanLink.Proofs.Ring.Memory
import CanLink.Proofs.Slot.RoundTrip
import CanLink.Proofs.Ring.Fifo
import CanLink.Proofs.Clock.Reconstruction
import CanLink.Proofs.Control.Calls
import CanLink.Proofs.Device.Outcome
import CanLink.Proofs.Timing.Optimum
import CanLink.Proofs.Device.View
import CanLink.Proofs.Device.Atomicity
import CanLink.Proofs.Timing.Scan
import CanLink.Proofs.Timing.Lengths
import CanLink.Proofs.Timing.Reasons
import CanLink.Proofs.Frame.RoundTrip
import CanLink.Proofs.Timing.Registers
import CanLink.Proofs.Bytes.Number
import CanLink.Proofs.Device.Programming
import CanLink.Proofs.Ring.Pending
import CanLink.Proofs.Device.Transmission
import CanLink.Proofs.Device.Modes
import CanLink.Proofs.Device.Reception
import CanLink.Proofs.Slot.Canonical
import CanLink.Proofs.Ring.Steps
import CanLink.Proofs.Ring.Interleaving
import CanLink.Proofs.Device.Access
import CanLink.Proofs.Memory.Posix
import CanLink.Proofs.Memory.Host
import CanLink.Proofs.Memory.Names
import CanLink.Proofs.Ring.Draining
import CanLink.Proofs.Ring.Corruption
import CanLink.Proofs.Device.Recovery
import CanLink.Proofs.Frame.Normal
import CanLink.Proofs.Ring.Observation
import CanLink.Proofs.Numeric.Exact
import CanLink.Proofs.Ring.Waking
import CanLink.Proofs.Timing.SamplePoint
import CanLink.Proofs.Numeric.Words
import CanLink.Proofs.Timing.Words
import CanLink.Proofs.Timing.Arithmetic
import CanLink.Proofs.Ring.Programs
import CanLink.Proofs.Ring.Addressing
import CanLink.Proofs.Memory.Posix
import CanLink.Proofs.Memory.Host
