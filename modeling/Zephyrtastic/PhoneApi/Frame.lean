import Mathlib.Order.Lattice
import Mathlib.Order.Nat
import Zephyrtastic.Lib.Bytes

/-!
# What a client is sent

The variants of `FromRadio`, the frame one becomes, what a queued frame is worth
when the queue is full, and whether a connection that has not proven the
passphrase may read it.
-/

namespace Zephyrtastic.PhoneApi

/-- `enum meshtastic_phoneapi_evict_rank`, cheapest first. -/
inductive EvictRank where
  | status | log | sample | identity | keep
  deriving DecidableEq, Repr

def EvictRank.val : EvictRank → Nat
  | status => 0
  | log => 1
  | sample => 2
  | identity => 3
  | keep => 4

instance : LinearOrder EvictRank :=
  LinearOrder.lift' EvictRank.val (by intro a b; cases a <;> cases b <;> decide)

theorem EvictRank.le_keep (r : EvictRank) : r ≤ .keep := by
  cases r <;> decide

def positionApp : Nat := 3
def nodeinfoApp : Nat := 4
def telemetryApp : Nat := 67

/-- `meshtastic_MeshPacket`, by its payload variant. -/
inductive MeshPacket where
  | decoded (portnum : Nat) (fields : Bytes)
  | encrypted (fields : Bytes)
  | unset (fields : Bytes)
  deriving DecidableEq, Repr

structure MyInfo where
  myNodeNum : UInt32
  minAppVersion : UInt32
  nodedbCount : UInt32
  deviceId : Bytes
  pioEnv : String
  rebootCount : UInt32
  deriving DecidableEq, Repr

structure User where
  id : List Char
  longName : Bytes
  shortName : Bytes
  macaddr : Bytes
  hwModel : UInt8
  role : UInt8
  isLicensed : Bool
  isUnmessagable : Option Bool
  publicKey : Bytes
  deriving DecidableEq, Repr

structure Position where
  latitudeI : Option Int32
  longitudeI : Option Int32
  altitude : Option Int32
  time : UInt32
  locationSource : UInt8
  precisionBits : UInt32
  /-- The fields only a fix of this node's own has. -/
  rest : Bytes
  deriving DecidableEq, Repr

structure NodeInfo where
  num : UInt32
  snr : UInt32
  channel : UInt8
  viaMqtt : Bool
  lastHeard : UInt32
  hopsAway : Option UInt8
  isFavorite : Bool
  isIgnored : Bool
  isMuted : Bool
  user : Option User
  position : Option Position
  deriving DecidableEq, Repr

inductive ChannelRole where
  | disabled | primary | secondary
  deriving DecidableEq, Repr

structure Channel where
  index : Nat
  role : ChannelRole
  settings : Option Bytes
  deriving DecidableEq, Repr

/-- The sections of `meshtastic_Config`, in the order of the stream. -/
inductive ConfigTag where
  | device | position | power | network | display | lora | bluetooth | security | sessionkey
  | deviceUi
  deriving DecidableEq, Repr

structure LoRaConfig where
  usePreset : Bool
  modemPreset : UInt8
  region : UInt8
  channelNum : UInt32
  hopLimit : UInt8
  /-- Transmit power, overrides, ignore lists and the other fields. -/
  tuning : Bytes
  deriving DecidableEq, Repr

structure BluetoothConfig where
  fixedPin : UInt32
  rest : Bytes
  deriving DecidableEq, Repr

inductive Config where
  | network (fields : Bytes)
  | security (fields : Bytes)
  | lora (fields : LoRaConfig)
  | bluetooth (fields : BluetoothConfig)
  | other (tag : ConfigTag) (fields : Bytes)
  deriving DecidableEq, Repr

/-- The sections of `meshtastic_ModuleConfig`, in the order of the stream. -/
inductive ModuleTag where
  | mqtt | serial | externalNotification | storeForward | rangeTest | telemetry | cannedMessage
  | audio | remoteHardware | neighborInfo | ambientLighting | detectionSensor | paxcounter
  | statusmessage | trafficManagement | tak | meshBeacon
  deriving DecidableEq, Repr

inductive ModuleConfig where
  | mqtt (fields : Bytes)
  | meshBeacon (fields : Bytes)
  | other (tag : ModuleTag) (fields : Bytes)
  deriving DecidableEq, Repr

structure QueueStatus where
  res : Int
  free : Nat
  maxlen : Nat
  meshPacketId : UInt32
  deriving DecidableEq, Repr

inductive LockdownState where
  | disabled | locked | unlocked | unlockFailed
  deriving DecidableEq, Repr

structure LockdownStatus where
  state : LockdownState
  lockReason : String
  bootsRemaining : UInt32
  validUntilEpoch : UInt32
  backoffSeconds : UInt32
  deriving DecidableEq, Repr

/-- The payload variants of `meshtastic_FromRadio`. -/
inductive Payload where
  | packet (p : MeshPacket)
  | myInfo (info : MyInfo)
  | nodeInfo (info : NodeInfo)
  | config (cfg : Config)
  | logRecord (fields : Bytes)
  | configCompleteId (id : UInt32)
  | rebooted (v : Bool)
  | moduleConfig (mod : ModuleConfig)
  | channel (ch : Channel)
  | queueStatus (qs : QueueStatus)
  | metadata (fields : Bytes)
  | mqttClientProxyMessage (fields : Bytes)
  | clientNotification (fields : Bytes)
  | deviceuiConfig (fields : Bytes)
  | lockdownStatus (status : LockdownStatus)
  | regionPresets (fields : Bytes)
  deriving DecidableEq, Repr

structure FromRadio where
  id : UInt32
  payload : Payload
  deriving DecidableEq, Repr

def FromRadio.evictRank (m : FromRadio) : EvictRank :=
  match m.payload with
  | .queueStatus _ => .status
  | .logRecord _ => .log
  | .mqttClientProxyMessage _ => .sample
  | .packet (.decoded portnum _) =>
    if portnum = positionApp || portnum = telemetryApp then .sample
    else if portnum = nodeinfoApp then .identity
    else .keep
  | _ => .keep

/-- `fromradio_frame_flags`, the bit `MT_PHONE_FRAME_F_CTRL`. -/
def FromRadio.isControl (m : FromRadio) : Bool :=
  match m.payload with
  | .queueStatus _ => true
  | .rebooted _ => true
  | .lockdownStatus _ => true
  | _ => false

structure Frame where
  data : Bytes
  evictRank : EvictRank
  control : Bool
  deriving DecidableEq, Repr

/-- The protobuf encoder into a frame's buffer; none where the message does not fit. -/
abbrev Encoder := FromRadio → Option Bytes

/-- `meshtastic_phoneapi_encode_fromradio_frame`: the rest of the frame is zeroed, which
makes it a frame of the lowest rank that is not session control. -/
def encodeFromradioFrame (encode : Encoder) (m : FromRadio) : Option Frame :=
  (encode m).map fun data => ⟨data, .status, false⟩

/-- An encoder that keeps the id only, for runs on small inputs. -/
def idEncoder : Encoder := fun m => some [m.id.toUInt8]

/-- `meshtastic_next_fromradio_id`: the id, and the counter after it. -/
def nextFromradioId (next : UInt32) : UInt32 × UInt32 :=
  if next = 0 then (1, 2) else (next, next + 1)

end Zephyrtastic.PhoneApi
