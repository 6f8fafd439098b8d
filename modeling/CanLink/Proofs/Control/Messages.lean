import CanLink.Control.Message
import CanLink.Proofs.Slot.RoundTrip

/-!
Reading control messages back. A device tells messages apart by their identity, takes the last one
of each kind for what holds now, and adds up the feature requests. A features message is read back
as the request that it was made of.
-/

namespace CanLink

open LittleEndian

namespace Bytes

theorem head?_padded {n : Nat} (nonempty : 0 < n) (bytes : Bytes) :
    (padded n bytes).toList.head? = some (bytes[0]?.getD 0) := by
  rw [List.head?_eq_getElem?]
  simp [nonempty, getElem_padded]

end Bytes

namespace Message

/-- The last of some messages that has an identity. -/
def lastWith (id : UInt8) (messages : List Bytes) : Option Bytes :=
  (messages.filter (·.head? = some id)).getLast?

/-- The request in a features message. -/
def FeaturesRequest.ofBytes? (message : Bytes) : Option FeaturesRequest :=
  if message.head? = some features then
    match message.leading featuresSize with
    | .error _ => none
    | .ok m => some ⟨m[3], word32 (slice m 4 4 (by decide))⟩
  else none

/-- The features enabled after a request. -/
def FeaturesRequest.apply (enabled : UInt32) (r : FeaturesRequest) : UInt32 :=
  if r.operation = FeatureOperation.clear then 0
  else if r.operation = FeatureOperation.add then enabled ||| r.flags
  else enabled

/-- The features that a device has enabled after some messages, of which it had none at first. -/
def enabledFeatures (messages : List Bytes) : UInt32 :=
  (messages.filterMap FeaturesRequest.ofBytes?).foldl FeaturesRequest.apply 0

@[simp] theorem lastWith_append (id : UInt8) (before after : List Bytes) :
    lastWith id (before ++ after) = (lastWith id after).or (lastWith id before) := by
  rw [lastWith, List.filter_append, List.getLast?_append]
  rfl

theorem lastWith_eq_none {id : UInt8} {messages : List Bytes}
    (absent : ∀ m ∈ messages, m.head? ≠ some id) : lastWith id messages = none := by
  rw [lastWith, List.filter_eq_nil_iff.mpr, List.getLast?_nil]
  intro m member
  rw [decide_eq_true_iff]
  exact absent m member

@[simp] theorem head?_timing (id : UInt8) (s : Timing.Settings) :
    (timing id s).toList.head? = some id :=
  Bytes.head?_padded (by decide) _

@[simp] theorem head?_features (r : FeaturesRequest) : r.message.toList.head? = some features :=
  Bytes.head?_padded (by decide) _

@[simp] theorem head?_busRequest (on : Bool) : (busRequest on).toList.head? = some bus :=
  Bytes.head?_padded (by decide) _

/-- A features message is read back as its request. -/
@[simp] theorem FeaturesRequest.ofBytes?_message (r : FeaturesRequest) :
    ofBytes? r.message.toList = some r := by
  have flags : slice r.message 4 4 (by decide) = bytes32 r.flags := slice_padded _ [] _ rfl
  have operation : r.message[3] = r.operation := by
    simp [message, Bytes.getElem_padded]
  rw [ofBytes?, if_pos (head?_features r), Bytes.leading_toList]
  simp only [operation, flags, word32_bytes32]

@[simp] theorem FeaturesRequest.ofBytes?_timing (id : UInt8) (s : Timing.Settings)
    (other : id ≠ features) : ofBytes? (timing id s).toList = none := by
  rw [ofBytes?, if_neg]
  simpa using other

@[simp] theorem FeaturesRequest.ofBytes?_busRequest (on : Bool) :
    ofBytes? (busRequest on).toList = none := by
  rw [ofBytes?, if_neg]
  simp only [head?_busRequest]
  decide

end Message

end CanLink
