import CanLink.Bus
import CanLink.Control.Message
import CanLink.Device.Capability
import CanLink.Device.Info
import CanLink.Frame.Codec
import CanLink.Ring
import CanLink.Timing.Target

/-!
The registry of the protocol's constants: the name under which each is published, with the value
that this library uses.
-/

namespace CanLink.Registry

def ringLayout : List (String × Nat) :=
  [("SC_MM_HEADER_SIZE", headerSize), ("SC_MM_PUT_INDEX_OFFSET", Ring.putOffset),
    ("SC_MM_GET_INDEX_OFFSET", Ring.getOffset), ("SC_MM_SLOTS_OFFSET", headerSize),
    ("SC_MM_SLOT_SIZE", slotSize), ("DEFAULT_RING_CAPACITY", Capacity.standard),
    ("MAX_CAPACITY", Capacity.maximum), ("REGION_ALIGN", Region.alignment)]

def slotLayout : List (String × Nat) :=
  [("SC_MM_SLOT_TYPE_OFFSET", SlotOffset.tag), ("SC_MM_SLOT_DLC_OFFSET", SlotOffset.code),
    ("SC_MM_SLOT_FLAGS_OFFSET", SlotOffset.flags), ("SC_MM_SLOT_INFO_OFFSET", SlotOffset.info),
    ("SC_MM_SLOT_TIMESTAMP_OFFSET", SlotOffset.timestamp),
    ("SC_MM_SLOT_CAN_ID_OFFSET", SlotOffset.identifier),
    ("SC_MM_SLOT_TRACK_ID_OFFSET", SlotOffset.trackId),
    ("SC_MM_SLOT_DATA_OFFSET", SlotOffset.data)]

def slotTags : List (String × UInt8) :=
  [("SC_MM_DATA_TYPE_NONE", SlotTag.unused), ("SC_MM_DATA_TYPE_CAN_STATUS", SlotTag.status),
    ("SC_MM_DATA_TYPE_CAN_RX", SlotTag.rx), ("SC_MM_DATA_TYPE_CAN_TX", SlotTag.tx),
    ("SC_MM_DATA_TYPE_CAN_ERROR", SlotTag.error), ("SC_MM_DATA_TYPE_LOG_DATA", SlotTag.log)]

def frameFlags : List (String × UInt8) :=
  [("SC_CAN_FRAME_FLAG_EXT", FrameFlag.extended), ("SC_CAN_FRAME_FLAG_RTR", FrameFlag.remote),
    ("SC_CAN_FRAME_FLAG_FDF", FrameFlag.fd), ("SC_CAN_FRAME_FLAG_BRS", FrameFlag.bitRateSwitch),
    ("SC_CAN_FRAME_FLAG_ESI", FrameFlag.errorStateIndicator),
    ("SC_CAN_FRAME_FLAG_DRP", FrameFlag.dropped)]

def frameLimits : List (String × Nat) :=
  [("CAN_SFF_MASK", (Frame.identifierMask false).toNat),
    ("CAN_EFF_MASK", (Frame.identifierMask true).toNat),
    ("CAN_MAX_DLEN", Payload.classicMaxLength), ("CANFD_MAX_DLEN", Payload.maxLength),
    ("CANFD_MAX_DLC", Payload.maxCode)]

def busFlags : List (String × UInt8) :=
  [("SC_CAN_STATUS_FLAG_TXR_DESYNC", StatusFlag.receiptsLost),
    ("SC_CAN_STATUS_FLAG_IRQ_QUEUE_FULL", StatusFlag.interruptQueueFull),
    ("SC_CAN_ERROR_FLAG_RXTX_TX", ErrorFlag.transmitting),
    ("SC_CAN_ERROR_FLAG_NMDT_DT", ErrorFlag.dataPhase)]

def busStates : List (String × UInt8) :=
  BusState.codes.map fun (code, state) => (s!"SC_CAN_STATUS_{state.label}", code)

def errorCauses : List (String × UInt8) :=
  ("SC_CAN_ERROR_NONE", ErrorCause.noneCode) ::
    ErrorCause.codes.map fun (code, cause) => (s!"SC_CAN_ERROR_{cause.render.toUpper}", code)

def featureFlags : List (String × UInt32) :=
  [("SC_FEATURE_FLAG_FDF", Feature.fd), ("SC_FEATURE_FLAG_EHD", Feature.exceptionHandling),
    ("SC_FEATURE_FLAG_DAR", Feature.singleShot), ("SC_FEATURE_FLAG_FLT", Feature.filters),
    ("SC_FEATURE_FLAG_TXR", Feature.receipts), ("SC_FEATURE_FLAG_GEN", Feature.generators),
    ("SC_FEATURE_FLAG_MON_MODE", Feature.monitoring),
    ("SC_FEATURE_FLAG_RES_MODE", Feature.restricted),
    ("SC_FEATURE_FLAG_EXT_LOOP_MODE", Feature.externalLoopback)]

def messageCodes : List (String × UInt8) :=
  [("SC_FEAT_OP_CLEAR", Message.FeatureOperation.clear),
    ("SC_FEAT_OP_OR", Message.FeatureOperation.add),
    ("SC_MSG_DEVICE_INFO", Message.deviceInfo), ("SC_MSG_CAN_INFO", Message.canInfo),
    ("SC_MSG_NM_BITTIMING", Message.nominalTiming), ("SC_MSG_DT_BITTIMING", Message.dataTiming),
    ("SC_MSG_FEATURES", Message.features), ("SC_MSG_BUS", Message.bus)]

def messageSizes : List (String × Nat) :=
  [("SC_MSG_DEVICE_INFO_SIZE", DeviceInfo.messageSize),
    ("SC_MSG_CAN_INFO_SIZE", Capability.messageSize),
    ("SC_MSG_BITTIMING_SIZE", Message.timingSize), ("SC_MSG_FEATURES_SIZE", Message.featuresSize),
    ("SC_MSG_BUS_SIZE", Message.busSize)]

def bitTiming : List (String × Nat) :=
  [("CAN_NOMINAL_BITRATE_MAX", Timing.Phase.nominal.maxBitrate),
    ("CAN_DATA_BITRATE_MAX", Timing.Phase.data.maxBitrate),
    ("CAN_SAMPLE_POINT_SCALE", Timing.samplePointScale)]

/-- All constants that are single numbers. -/
def numbers : List (String × Nat) :=
  ringLayout ++ slotLayout ++ frameLimits ++ messageSizes ++ bitTiming ++
    (slotTags ++ frameFlags ++ busStates ++ errorCauses ++ busFlags ++ messageCodes).map
      (fun (name, code) => (name, code.toNat)) ++
    featureFlags.map fun (name, flag) => (name, flag.toNat)

/-- All constants that are tables. -/
def tables : List (String × List Nat) := [("CANFD_DLC_TO_LEN", Payload.lengths.toList)]

end CanLink.Registry
