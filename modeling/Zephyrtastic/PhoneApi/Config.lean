import Zephyrtastic.Lib.Digits
import Zephyrtastic.Lockdown.Record
import Zephyrtastic.NodeDb.Tiers
import Zephyrtastic.PhoneApi.Frame

/-!
# The config stream

After a `want_config_id` the node answers with a fixed sequence of messages, one
frame at a time, and ends it with `config_complete_id`.
-/

namespace Zephyrtastic.PhoneApi

open NodeDb (Entry)

variable (node : Node) (auth : Bool)

inductive ConfigState where
  | idle | myInfo | deviceUi | nodeInfo | metadata | regionPresets | channels | configs | modules
  | otherNodeinfos | filemanifest | queueStatus | complete | lockdownStatus
  deriving DecidableEq, Repr

def nonceOnlyConfig : UInt32 := 69420
def nonceOnlyNodes : UInt32 := 69421

def maxChannels : Nat := 8

/-- What the storage core says about lockdown. -/
structure LockdownView where
  active : Bool
  unlocked : Bool
  reason : Lockdown.LockReason
  deriving DecidableEq, Repr

/-- What the stream reads of the node. -/
structure Node where
  nodeId : UInt32
  hwid : Option Bytes
  rebootCount : UInt32
  nowEpoch : UInt32
  /-- `meshtastic_clock_uptime_to_epoch`. -/
  uptimeToEpoch : UInt32 → UInt32
  user : User
  position : Option Position
  metadata : Bytes
  deviceUi : Bytes
  regionPresets : Bytes
  getChannel : Nat → Option Channel
  getConfig : ConfigTag → Option Config
  getModule : ModuleTag → Option ModuleConfig
  /-- The entries in use of the node database. -/
  nodedb : List Entry
  txDepth : Nat
  txPending : Nat
  /-- None in a build without lockdown. -/
  lockdown : Option LockdownView

/-- Where a connection is in its stream. -/
structure Stream where
  state : ConfigState
  index : Nat
  nodeCursor : UInt32
  requestId : UInt32
  /-- `mt.next_fromradio_id`, one counter for all transports. -/
  nextId : UInt32
  deriving DecidableEq, Repr

def Stream.active (s : Stream) : Bool := s.state != .idle

/-- `meshtastic_phoneapi_authorized`: there is nothing to protect while lockdown is
inactive. -/
def Node.authorized (adminAuthorized : Bool) : Bool :=
  match node.lockdown with
  | none => true
  | some view => !view.active || adminAuthorized

/-! ## The messages -/

def fillMyInfo : Payload :=
  .myInfo
    { myNodeNum := node.nodeId
      minAppVersion := 0
      nodedbCount := UInt32.ofNat node.nodedb.length
      deviceId := if auth then node.hwid.getD [] else []
      pioEnv := if auth then "zephyr" else ""
      rebootCount := if auth then node.rebootCount else 0 }

/-- `fill_node_info`: this node's own entry. -/
def fillNodeInfo : Payload :=
  .nodeInfo
    { num := node.nodeId
      snr := 0
      channel := 0
      viaMqtt := false
      lastHeard := node.nowEpoch
      hopsAway := none
      isFavorite := false
      isIgnored := false
      isMuted := false
      user := some node.user
      position := node.position }

/-- `!%08x` of a node number. -/
def nodeIdText (num : UInt32) : List Char := '!' :: Digits.hexChars 8 num.toNat

/-- The low four bytes of the address are the node number. -/
def macOf (num : UInt32) : Bytes :=
  [0x02, 0x00, (num >>> 24).toUInt8, (num >>> 16).toUInt8, (num >>> 8).toUInt8, num.toUInt8]

/-- `fill_other_node_info`, of the snapshot `fill_snapshot` takes of an entry. -/
def fillOtherNodeInfo (e : Entry) : Payload :=
  .nodeInfo
    { num := e.node.num
      snr := e.node.snr
      channel := e.node.channel
      viaMqtt := e.node.isSet .viaMqtt
      lastHeard := if e.node.lastHeard > 0 then node.uptimeToEpoch e.node.lastHeard
        else e.lastHeardEpoch
      hopsAway := e.node.hopsAway
      isFavorite := e.node.isSet .isFavorite
      isIgnored := e.node.isSet .isIgnored
      isMuted := e.node.isSet .isMuted
      user := if e.node.isSet .hasUser then
          some
            { id := nodeIdText e.node.num
              longName := e.node.longName
              shortName := e.node.shortName
              macaddr := macOf e.node.num
              hwModel := e.node.hwModel
              role := e.node.role
              isLicensed := e.node.isSet .isLicensed
              isUnmessagable := if e.node.isSet .hasIsUnmessagable then
                some (e.node.isSet .isUnmessagable) else none
              publicKey := e.node.publicKey.take NodeDb.keyLen }
        else none
      position := e.position.map fun p =>
        ⟨some p.latitudeI, some p.longitudeI, some p.altitude, p.time, p.locationSource,
          p.precisionBits, []⟩ }

def fillMetadataFrame : Payload :=
  .metadata (if auth then node.metadata else [])

/-- The entry of a slot that is off, and of every slot for an unauthorized client. -/
def emptyChannel (index : Nat) : Channel := ⟨index, .disabled, some []⟩

def fillChannel (index : Nat) (auth : Bool) : Payload :=
  match if auth then node.getChannel index else none with
  | none => .channel (emptyChannel index)
  | some slot =>
    if slot.role = .disabled then .channel (emptyChannel index) else .channel { slot with index }

def redactConfig : Config → Config
  | .network _ => .network []
  | .security _ => .security []
  | .lora l => .lora { l with tuning := [] }
  | .bluetooth b => .bluetooth { b with fixedPin := 0 }
  | .other tag fields => .other tag fields

def redactModule : ModuleConfig → ModuleConfig
  | .mqtt _ => .mqtt []
  | .meshBeacon _ => .meshBeacon []
  | .other tag fields => .other tag fields

def fillConfigVariant (tag : ConfigTag) : Option Payload :=
  (node.getConfig tag).map fun cfg => .config (if auth then cfg else redactConfig cfg)

def fillModuleVariant (tag : ModuleTag) : Option Payload :=
  (node.getModule tag).map fun mod => .moduleConfig (if auth then mod else redactModule mod)

/-- `meshtastic_phoneapi_fill_tx_queue` into a status with the given result. -/
def fillQueueStatus (res : Int) (meshPacketId : UInt32) : QueueStatus :=
  ⟨res, if node.txPending ≥ node.txDepth then 0 else node.txDepth - node.txPending, node.txDepth,
    meshPacketId⟩

def fillStatus (state : LockdownState) (reason : String) (boots validUntil backoff : UInt32) :
    LockdownStatus :=
  ⟨state, if state = .locked then reason else "", boots, validUntil, backoff⟩

def lockdownFillStatus (view : LockdownView) (adminAuthorized : Bool) : Option LockdownStatus :=
  if !view.active then some (fillStatus .disabled "" 0 0 0)
  else if adminAuthorized then none
  else some (fillStatus .locked (if view.unlocked then "needs_auth" else view.reason.text) 0 0 0)

/-- `meshtastic_nodedb_get_next_after`: the entry with the least number above `num`. -/
def getNextAfter (db : List Entry) (num : UInt32) : Option Entry :=
  db.foldl (fun best e =>
    if e.used && decide (num < e.node.num) &&
      best.all fun b => decide (e.node.num < b.node.num) then some e else best) none

def configTags : List ConfigTag :=
  [.device, .position, .power, .network, .display, .lora, .bluetooth, .security, .sessionkey,
    .deviceUi]

def moduleTags : List ModuleTag :=
  [.mqtt, .serial, .externalNotification, .storeForward, .rangeTest, .telemetry, .cannedMessage,
    .audio, .remoteHardware, .neighborInfo, .ambientLighting, .detectionSensor, .paxcounter,
    .statusmessage, .trafficManagement, .tak, .meshBeacon]

/-! ## The state machine -/

section
variable (encode : Encoder) (node : Node) (adminAuthorized : Bool)
variable (s : Stream)

/-- Takes the next id for a message and sends it with `emit_frame`: the stream moves on
only where the message could be encoded. -/
def Stream.emit (p : Payload) (state : ConfigState) (index : Nat) : Option Frame × Stream :=
  let next := nextFromradioId s.nextId
  match encodeFromradioFrame encode ⟨next.1, p⟩ with
  | none => (none, { s with nextId := next.2 })
  | some frame => (some frame, { s with nextId := next.2, state, index })

/-- `MESHTASTIC_PHONEAPI_CONFIG_COMPLETE`. -/
def Stream.sendComplete : Option Frame × Stream :=
  s.emit encode (.configCompleteId s.requestId)
    (if node.lockdown.isSome then .lockdownStatus else .idle) 0

/-- `MESHTASTIC_PHONEAPI_CONFIG_QUEUE_STATUS`. -/
def Stream.sendQueueStatus : Option Frame × Stream :=
  s.emit encode (.queueStatus (fillQueueStatus node 0 0)) .complete 0

/-- `MESHTASTIC_PHONEAPI_CONFIG_FILEMANIFEST`: no frame of its own. -/
def Stream.sendFilemanifest : Option Frame × Stream :=
  if s.requestId = nonceOnlyNodes then
    { s with state := .complete, index := 0 }.sendComplete encode node
  else { s with state := .queueStatus, index := 0 }.sendQueueStatus encode node

/-- The next entry of another node. This node's own number is stepped over, after which
the cursor stands at it. -/
def Stream.nextOther : UInt32 × Option Entry :=
  match getNextAfter node.nodedb s.nodeCursor with
  | none => (s.nodeCursor, none)
  | some e =>
    if e.node.num = node.nodeId then (e.node.num, getNextAfter node.nodedb e.node.num)
    else (s.nodeCursor, some e)

/-- `MESHTASTIC_PHONEAPI_CONFIG_OTHER_NODEINFOS`. -/
def Stream.sendOtherNodeinfos : Option Frame × Stream :=
  match s.nextOther node with
  | (_, none) =>
    { s with state := .filemanifest, index := 0, nodeCursor := 0 }.sendFilemanifest encode node
  | (cursor, some e) =>
    match { s with nodeCursor := cursor }.emit encode (fillOtherNodeInfo node e)
      .otherNodeinfos 0 with
    | (none, s) => (none, s)
    | (some frame, s) => (some frame, { s with nodeCursor := e.node.num })

/-- The first section the store has, and how many it does not have before it. -/
def firstSection {τ : Type} (fill : τ → Option Payload) : List τ → Nat × Option Payload
  | [] => (0, none)
  | tag :: rest =>
    match fill tag with
    | some p => (0, some p)
    | none => ((firstSection fill rest).1 + 1, (firstSection fill rest).2)

/-- A section that the store does not have takes an id all the same. -/
def Stream.skip (s : Stream) : Nat → Stream
  | 0 => s
  | k + 1 =>
    { s with index := s.index + 1, nextId := (nextFromradioId s.nextId).2 }.skip k

/-- The loops over `config_tags` and `module_tags`: the next section the store has, or the
next stage where none is left. -/
def Stream.sendSection {τ : Type} (tags : List τ) (fill : τ → Option Payload)
    (here next : ConfigState) (rest : Stream → Option Frame × Stream) (s : Stream) :
    Option Frame × Stream :=
  match firstSection fill (tags.drop s.index) with
  | (k, none) => rest { s.skip k with state := next, index := 0 }
  | (k, some p) =>
    let s := s.skip k
    let last := decide (s.index + 1 ≥ tags.length)
    s.emit encode p (if last then next else here) (if last then 0 else s.index + 1)

/-- `MESHTASTIC_PHONEAPI_CONFIG_MODULES`. -/
def Stream.sendModules : Option Frame × Stream :=
  let auth := node.authorized adminAuthorized
  if s.requestId = nonceOnlyConfig || !auth then
    s.sendSection encode moduleTags (fillModuleVariant node auth) .modules .filemanifest
      fun s => s.sendFilemanifest encode node
  else
    s.sendSection encode moduleTags (fillModuleVariant node auth) .modules .otherNodeinfos
      fun s => s.sendOtherNodeinfos encode node

/-- `MESHTASTIC_PHONEAPI_CONFIG_CONFIGS`. -/
def Stream.sendConfigs : Option Frame × Stream :=
  s.sendSection encode configTags (fillConfigVariant node (node.authorized adminAuthorized))
    .configs .modules fun s => s.sendModules encode node adminAuthorized

/-- `MESHTASTIC_PHONEAPI_CONFIG_LOCKDOWN_STATUS`. A build without lockdown has no such
state and goes idle. -/
def Stream.sendLockdownStatus : Option Frame × Stream :=
  match node.lockdown.bind fun view => lockdownFillStatus view adminAuthorized with
  | some status => s.emit encode (.lockdownStatus status) .idle 0
  | none => (none, { s with state := .idle, index := 0 })

def nextConfigFrame : Option Frame × Stream :=
  let auth := node.authorized adminAuthorized
  match s.state with
  | .idle => (none, s)
  | .myInfo => s.emit encode (fillMyInfo node auth) .deviceUi 0
  | .deviceUi => s.emit encode (.deviceuiConfig node.deviceUi) .nodeInfo 0
  | .nodeInfo =>
    s.emit encode (fillNodeInfo node)
      (if s.requestId = nonceOnlyNodes then (if auth then .otherNodeinfos else .complete)
        else .metadata) 0
  | .metadata => s.emit encode (fillMetadataFrame node auth) .regionPresets 0
  | .regionPresets => s.emit encode (.regionPresets node.regionPresets) .channels 0
  | .channels =>
    let last := decide (s.index + 1 ≥ maxChannels)
    s.emit encode (fillChannel node s.index auth) (if last then .configs else .channels)
      (if last then 0 else s.index + 1)
  | .configs => s.sendConfigs encode node adminAuthorized
  | .modules => s.sendModules encode node adminAuthorized
  | .otherNodeinfos => s.sendOtherNodeinfos encode node
  | .filemanifest => s.sendFilemanifest encode node
  | .queueStatus => s.sendQueueStatus encode node
  | .complete => s.sendComplete encode node
  | .lockdownStatus => s.sendLockdownStatus encode node adminAuthorized

end

/-- What `meshtastic_phoneapi_enqueue_phone_config` does to the stream. -/
def Stream.wantConfig (s : Stream) (requestId : UInt32) : Stream :=
  { s with
    state := if requestId = nonceOnlyNodes then .nodeInfo else .myInfo
    index := 0
    nodeCursor := 0
    requestId }

/-- What `meshtastic_phoneapi_session_reset` does to the stream. -/
def Stream.reset (s : Stream) : Stream :=
  { s with state := .idle, index := 0, nodeCursor := 0, requestId := 0 }

/-- A node with nothing in its stores, for runs that do not depend on them. -/
def Node.bare (lockdown : Option LockdownView) : Node where
  nodeId := 1
  hwid := none
  rebootCount := 0
  nowEpoch := 0
  uptimeToEpoch := fun _ => 0
  user := ⟨[], [], [], [], 0, 0, false, none, []⟩
  position := none
  metadata := []
  deviceUi := []
  regionPresets := []
  getChannel := fun _ => none
  getConfig := fun _ => none
  getModule := fun _ => none
  nodedb := []
  txDepth := 4
  txPending := 0
  lockdown

end Zephyrtastic.PhoneApi
