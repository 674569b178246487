import Zephyrtastic.Router.DupCache

/-!
# The receive path

A frame reaches the router from the local radio, from a radio head or over the
peer link.
-/

namespace Zephyrtastic.Router

inductive Bearer where
  | lora
  | blePeer
  | attachment
  deriving DecidableEq, Repr

/-- `meshtastic_bearer_is_rf`: did the frame cross the air? -/
def Bearer.isRf : Bearer → Bool
  | .lora => true
  | .attachment => true
  | .blePeer => false

def broadcast : UInt32 := 0xffffffff

/-- A frame on the wire: the header, its flag byte taken apart, and the payload. -/
structure Wire where
  dest : UInt32
  src : UInt32
  id : UInt32
  hopLimit : Fin 8
  wantAck : Bool
  viaMqtt : Bool
  hopStart : Fin 8
  channel : UInt8
  nextHop : UInt8
  relayNode : UInt8
  payload : Bytes
  deriving DecidableEq, Repr

/-- The flag byte's three bits of a hop count. -/
def hopBits (n : UInt8) : Fin 8 := ⟨n.toNat % 8, Nat.mod_lt _ (by decide)⟩

def Wire.key (w : Wire) : Key := ⟨w.src, w.id⟩

/-- `MESHTASTIC_HDR_LEN` and the payload. -/
def Wire.len (w : Wire) : Nat := 16 + w.payload.length

/-- The device roles the router tells apart. -/
inductive Role where
  | client
  | clientMute
  | router
  | routerLate
  | clientBase
  | other (value : Nat)
  deriving DecidableEq, Repr

inductive RebroadcastMode where
  | all
  | allSkipDecoding
  | localOnly
  | knownOnly
  | none
  | corePortnumsOnly
  deriving DecidableEq, Repr

/-- What the router reads of a node database entry. -/
structure Peer where
  isFavorite : Bool
  hasUser : Bool
  role : Role
  deriving DecidableEq, Repr

/-- What the router reads of a decoded payload. -/
structure Data where
  portnum : Nat
  requestId : UInt32
  deriving DecidableEq, Repr

inductive DecodeFail where
  | noChannel
  | pkiUnknownPubkey
  deriving DecidableEq, Repr

/-- The outcome of `meshtastic_try_decode_wire_packet_on`. -/
inductive Decode where
  | error
  | undecoded (reason : Option DecodeFail)
  | decoded (data : Data)
  deriving DecidableEq, Repr

inductive RoutingError where
  | noChannel
  | pkiUnknownPubkey
  deriving DecidableEq, Repr

/-- What the rest of the node answers while the router handles one frame. The names are
those of the functions asked; each is asked about the frame at hand. -/
structure Answers where
  isIgnored : Bool
  decode : Decode
  /-- `meshtastic_xeddsa_check_rx_policy`. -/
  signatureOk : Bool
  /-- `meshtastic_traffic_inspect` says to drop. -/
  trafficDrop : Bool
  /-- `meshtastic_rebroadcast_mode`, when the payload is inspected. -/
  modeAtDelivery : RebroadcastMode
  /-- The same, when the relay is considered: a module may have changed it. -/
  mode : RebroadcastMode
  role : Role
  resolveUniqueLastByte : UInt32
  /-- The database's entry of the node that resolved to. -/
  relayer : Option Peer
  isFromOrToFavorite : Bool
  getNextHop : UInt8
  takeSolicitedResponse : Bool
  /-- `meshtastic_admin_handle_remote`: a module answered the request itself. -/
  adminAnswered : Bool
  /-- `meshtastic_attachment_modem` knows the head's modem. -/
  attachmentModem : Bool
  /-- The delay of the contention plan. -/
  delayMs : UInt32
  /-- The worst case of the contention window. -/
  lateMs : UInt32
  /-- The transmit queue, or the head, took the relay. -/
  queued : Bool
  deriving DecidableEq, Repr

/-- `struct meshtastic_rx_meta`, with the bytes and the uptime of the reception. Only a head's
frame names an attachment. -/
structure Rx where
  /-- The frame, if it is long enough to have a header. -/
  wire : Option Wire
  bearer : Bearer
  attach : UInt8
  rssi : Int
  snr : Int
  rxMs : UInt32
  /-- The uptime in milliseconds; the router reads its low 32 bits. -/
  ms : Nat
  answers : Answers
  attach_zero : bearer ≠ .attachment → attach = 0

def Rx.now (rx : Rx) : UInt32 := UInt32.ofNat rx.ms

inductive DupeAction where
  | cancel
  | keep
  | late
  deriving DecidableEq, Repr

inductive AirtimeType where
  | rx
  | rxAll
  deriving DecidableEq, Repr

/-- What the router does to the rest of the node, in the order it does it. -/
inductive Action where
  /-- The verdict `DUP_NEW`, at an uptime. -/
  | sighted (key : Key) (ms : Nat)
  /-- `dup_add`. -/
  | recorded (key : Key)
  /-- `meshtastic_radio_send_wire_after`, taken by the queue. -/
  | relay (wire : Wire) (delayMs : UInt32)
  /-- `meshtastic_radio_send_wire` and its waiting form, taken by the queue. -/
  | transmit (wire : Wire)
  /-- `meshtastic_attachment_relay`, taken by the head. -/
  | attachRelay (attach : UInt8) (wire : Wire) (rxMs delayMs : UInt32) (dupe : DupeAction)
  /-- `meshtastic_outbound_cancel`. -/
  | cancel (key : Key)
  /-- `meshtastic_outbound_defer_late`. -/
  | deferLate (key : Key) (ms : UInt32)
  /-- `meshtastic_attachment_cancel`. -/
  | attachCancel (attach : UInt8) (key : Key)
  /-- `meshtastic_nodedb_set_next_hop`. -/
  | learn (node : UInt32) (relayNode : UInt8)
  /-- `meshtastic_airtime_log`, for a frame of a length. -/
  | airtime (type : AirtimeType) (len : Nat)
  /-- `mt.status.last_rx_from`, `last_rssi` and `last_snr`. -/
  | signal (src : UInt32) (rssi snr : Int)
  /-- `meshtastic_reliable_on_implicit_ack`. -/
  | implicitAck (id : UInt32)
  /-- `meshtastic_attachment_note_latency`. -/
  | latency (attach : UInt8) (ms : UInt32)
  /-- `meshtastic_routing_reack_duplicate`. -/
  | reack (key : Key)
  /-- `meshtastic_routing_send_error`. -/
  | sendError (key : Key) (error : RoutingError)
  /-- `deliver_packet`: the application and the phone. -/
  | deliver (key : Key)
  /-- `meshtastic_admin_handle_remote`. -/
  | admin (key : Key)
  /-- `meshtastic_mqtt_on_rx`. -/
  | uplink (key : Key)
  /-- `meshtastic_routing_on_decoded`. -/
  | routed (key : Key)
  /-- `meshtastic_dispatch_modules`, at an uptime. -/
  | dispatch (key : Key) (ms : Nat)
  deriving DecidableEq, Repr

/-- The relayers that were heard to carry our own packets: `relayer_log`. -/
structure RelayerLog where
  cells : Fin 8 → UInt32 × UInt8
  head : Fin 8
  deriving DecidableEq

structure Config where
  nodeId : UInt32
  /-- `CONFIG_MESHTASTIC_MQTT_IGNORE_MQTT`. -/
  ignoreMqtt : Bool
  /-- `CONFIG_MESHTASTIC_ATTACHMENT_BRAIN`. -/
  brain : Bool
  /-- `dedup_ttl_sec`. -/
  dedupTtlSec : UInt16
  /-- `CONFIG_MESHTASTIC_DUP_CACHE_SIZE`. -/
  size : Nat
  size_pos : 0 < size

namespace Config

variable (cfg : Config)

/-- Our own relayer byte. -/
def selfByte : UInt8 := UInt8.ofNat cfg.nodeId.toNat

def ttlMs : UInt32 := UInt32.ofNat (cfg.dedupTtlSec.toNat * 1000)

end Config

/-- The router's own state. -/
structure State (cfg : Config) where
  cache : DupCache cfg.size
  relayers : RelayerLog

def State.init (cfg : Config) : State cfg :=
  ⟨.init cfg.size_pos, ⟨fun _ => (0, 0), 0⟩⟩

def relayDupeAction (a : Answers) : DupeAction :=
  match a.role with
  | .router => .keep
  | .routerLate => .late
  | .clientBase => if a.isFromOrToFavorite then .late else .cancel
  | _ => .cancel

def roleIsRouterLike (r : Role) : Bool := r = .router || r = .routerLate || r = .clientBase

def isRebroadcaster (a : Answers) : Bool := a.role ≠ .clientMute && a.mode ≠ .none

def relayShouldDecrementHopLimit (a : Answers) (w : Wire) : Bool :=
  -- hops_away == 0: straight from the originator, as far as the header says
  if w.hopStart = 0 ∨ w.hopStart ≤ w.hopLimit then true
  else if !roleIsRouterLike a.role then true
  else if a.resolveUniqueLastByte = 0 then true
  else match a.relayer with
    | none => true
    | some peer => !(peer.isFavorite && peer.hasUser && roleIsRouterLike peer.role)

section
variable (cfg : Config)
variable (a : Answers) (cache : DupCache cfg.size) (s : State cfg) (rx : Rx) (w : Wire)
variable (p : Packet) (d : Data) (log : RelayerLog)

/-- The copy that `relay_packet` puts together. -/
def relayed : Wire :=
  { w with
    hopLimit := if relayShouldDecrementHopLimit a w then w.hopLimit - 1 else w.hopLimit
    relayNode := cfg.selfByte
    nextHop := a.getNextHop }

def relayPacket : DupCache cfg.size × List Action :=
  if 255 < w.len ∨ w.hopLimit = 0 then (cache, [])
  else if cfg.brain ∧ rx.attach ≠ 0 then
    match cache.entry w.key, rx.answers.attachmentModem with
    | some e, true =>
      if rx.answers.queued then
        (cache.markRelayed w.key rx.now (some rx.attach),
          [.attachRelay rx.attach (relayed cfg rx.answers w) e.attachRxMs rx.answers.delayMs
            (relayDupeAction rx.answers)])
      else (cache, [])
    | _, _ => (cache, [])
  else if rx.answers.queued then
    (cache.markRelayed w.key rx.now none,
      [.relay (relayed cfg rx.answers w) rx.answers.delayMs])
  else (cache, [])

/-- The gates of `meshtastic_routing_sniff_rebroadcast`. -/
def mayRebroadcast : Bool :=
  isRebroadcaster a
    && !(w.src = cfg.nodeId || w.dest = cfg.nodeId)
    && w.hopLimit ≠ 0
    && !(w.dest = broadcast && w.id = 0)
    && a.mode ≠ .localOnly
    && !(w.nextHop ≠ 0 && w.nextHop ≠ cfg.selfByte)

def sniffRebroadcast : DupCache cfg.size × List Action :=
  if mayRebroadcast cfg rx.answers w then relayPacket cfg cache rx w else (cache, [])

/-- A frame that may go back out: on this board's radio if it came in there, or through the
head that heard it. -/
def relayOk : Bool := rx.bearer = .lora || (cfg.brain && rx.attach ≠ 0)

def notePossibleRedundantRelay : List Action :=
  match cache.entry w.key with
  | none => []
  | some e =>
    if !e.relayed then []
    else if w.relayNode = 0 ∨ w.relayNode = cfg.selfByte then []
    else if w.hopStart ≠ 0 ∧ w.hopStart = w.hopLimit then []
    else if cfg.brain ∧ e.relayAttach ≠ 0 then
      if relayDupeAction rx.answers = .cancel then [.attachCancel e.relayAttach w.key] else []
    else match relayDupeAction rx.answers with
      | .cancel => [.cancel w.key]
      | .late => [.deferLate w.key rx.answers.lateMs]
      | .keep => []

/-- `rx_airtime_log`: only this board's air is this board's airtime. -/
def rxAirtimeLog (type : AirtimeType) (w : Wire) : List Action :=
  if rx.bearer = .lora then [.airtime type w.len] else []

def noteOwnEcho (w : Wire) : RelayerLog :=
  if w.relayNode = 0 ∨ w.relayNode = cfg.selfByte then log
  else ⟨Function.update log.cells log.head (w.id, w.relayNode), log.head + 1⟩

/-- `relayer_carried_our_packet`. -/
def RelayerLog.carried (id : UInt32) (relayer : UInt8) : Bool :=
  (List.finRange 8).any fun i => log.cells i = (id, relayer)

/-- `meshtastic_router_stamp_originated`: the next hop, which the node may have learned, and the
relayer byte of a unicast of our own. -/
def stampOriginated (dest src : UInt32) (learned nextHop relayNode : UInt8) : UInt8 × UInt8 :=
  if dest = broadcast ∨ src ≠ cfg.nodeId then (nextHop, relayNode)
  else
    (if nextHop = 0 then learned else nextHop,
      if relayNode = 0 then cfg.selfByte else relayNode)

/-- A packet as the modules get it: the header's fields, or the downlink message's. -/
structure Packet where
  src : UInt32
  dest : UInt32
  id : UInt32
  viaMqtt : Bool
  relayNode : UInt8
  deriving DecidableEq, Repr

def Packet.key : Key := ⟨p.src, p.id⟩

def Wire.packet : Packet := ⟨w.src, w.dest, w.id, w.viaMqtt, w.relayNode⟩

def learnNextHop (a : Answers) (p : Packet) (d : Data) : List Action :=
  if p.dest ≠ cfg.nodeId ∨ p.src = 0 ∨ p.src = cfg.nodeId ∨ p.viaMqtt then []
  else if p.relayNode = 0 ∨ p.relayNode = cfg.selfByte then []
  else if d.requestId = 0 then []
  else if !log.carried d.requestId p.relayNode then []
  else if a.resolveUniqueLastByte = 0 then []
  else [.learn p.src p.relayNode]

def portAdmin : Nat := 6

/-- The ports that `CORE_PORTNUMS_ONLY` lets through: text, position, node info, routing and
telemetry. -/
def corePortnums : List Nat := [1, 3, 4, 5, 67]

/-- `CORE_PORTNUMS_ONLY` holds the packet back, from the node and from the air. -/
def suppressed : Bool :=
  a.modeAtDelivery = .corePortnumsOnly && d.portnum ∉ corePortnums

/-- A remote node's admin request to this node. -/
def isRemoteAdmin : Bool :=
  d.portnum = portAdmin && p.dest = cfg.nodeId && p.src ≠ cfg.nodeId

/-- The delivery to the application, the phone or the admin handler. -/
def deliverDecoded : List Action :=
  if suppressed a d then []
  else if p.dest = cfg.nodeId ∨ p.dest = broadcast then
    if isRemoteAdmin cfg p d then
      if a.takeSolicitedResponse then [.deliver p.key] else [.admin p.key]
    else [.deliver p.key]
  else []

/-- Whether an admin handler has answered the packet. -/
def moduleAnswered : Bool :=
  !suppressed a d && isRemoteAdmin cfg p d && !a.takeSolicitedResponse && a.adminAnswered

/-- The decoded branch of `handle_inbound_impl`. -/
def handleDecoded (a : Answers) (bearer : Bearer) (attach : UInt8) (ms : Nat)
    (p : Packet) (d : Data) : List Action :=
  deliverDecoded cfg a p d
    ++ (if bearer.isRf then [.uplink p.key] else [])
    ++ (if moduleAnswered cfg a p d then [] else [.routed p.key])
    ++ [.dispatch p.key ms]
    ++ (if bearer.isRf ∧ attach = 0 then learnNextHop cfg log a p d else [])

/-- The gates of `handle_inbound_impl`: the signature of what is decoded, and the traffic
policy. -/
def inboundPasses (data : Option Data) : Bool :=
  (data.isNone || a.signatureOk) && !a.trafficDrop

/-- What a frame that passed the gates leads to in the node: nothing, if it is not decoded. -/
def inboundActs : Option Data → List Action
  | some d => handleDecoded cfg s.relayers rx.answers rx.bearer rx.attach rx.ms w.packet d
  | none => []

/-- `suppress_relay`: a decoded packet that `CORE_PORTNUMS_ONLY` holds back. -/
def suppressRelay : Option Data → Bool
  | some d => suppressed a d
  | none => false

/-- `handle_inbound_impl`, for a received frame. -/
def handleInbound (data : Option Data) : State cfg × List Action :=
  if !inboundPasses rx.answers data then (s, [])
  else if !suppressRelay rx.answers data && relayOk cfg rx then
    let (cache, relays) := sniffRebroadcast cfg s.cache rx w
    ({ s with cache }, inboundActs cfg s rx w data ++ relays)
  else (s, inboundActs cfg s rx w data)

def decodeFailToRoutingErr : DecodeFail → RoutingError
  | .pkiUnknownPubkey => .pkiUnknownPubkey
  | .noChannel => .noChannel

/-- The payload, if it was decoded. -/
def Decode.data : Decode → Option Data
  | .decoded d => some d
  | _ => none

/-- The error a sender gets for a frame to us that cannot be decoded. -/
def decodeFailed : Decode → List Action
  | .undecoded (some reason) =>
    if w.wantAck ∧ w.dest = cfg.nodeId then [.sendError w.key (decodeFailToRoutingErr reason)]
    else []
  | _ => []

/-- "Last heard": only a frame that crossed the air carries a signal measurement. -/
def noteSignal : List Action :=
  if rx.bearer.isRf then [.signal w.src rx.rssi rx.snr] else []

/-- A frame seen for the first time. -/
def firstSight : State cfg × List Action :=
  let s := { s with cache := s.cache.add w.key w.hopLimit rx.attach w.relayNode rx.rxMs rx.now }
  let entered := [.sighted w.key rx.ms, .recorded w.key]
  let result := rx.answers.decode
  if result = .error then (s, entered ++ rxAirtimeLog rx .rxAll w)
  else
    let air := rxAirtimeLog rx (if w.src = 0 then .rxAll else .rx) w
    let (s, acts) := handleInbound cfg s rx w result.data
    (s, entered ++ (air ++ decodeFailed cfg w result ++ noteSignal rx w ++ acts))

/-- The re-acknowledgement of a reliable packet whose sender did not hear the first one. -/
def reackDuplicate : List Action :=
  if w.dest = cfg.nodeId ∧ w.wantAck ∧ w.hopStart ≠ 0 ∧ w.hopStart = w.hopLimit
  then [.reack w.key] else []

/-- The link latency of a head, from the two arrivals of one transmission. -/
def noteLatency : List Action :=
  if cfg.brain ∧ rx.attach ≠ 0 then
    match cache.entry w.key with
    | some e =>
      if e.attach = 0 ∧ e.hopLimit = w.hopLimit ∧ e.relayNode = w.relayNode
      then [.latency rx.attach (rx.now - e.ms)] else []
    | none => []
  else []

/-- A copy that says nothing new. -/
def plainDuplicate : List Action :=
  reackDuplicate cfg w
    ++ (if rx.bearer.isRf then notePossibleRedundantRelay cfg s.cache rx w else [])
    ++ noteLatency cfg s.cache rx w
    ++ rxAirtimeLog rx .rxAll w

/-- A copy with more hops left than any before it: relayed, never delivered again. -/
def upgradedDuplicate : State cfg × List Action :=
  let noted := if rx.bearer.isRf then notePossibleRedundantRelay cfg s.cache rx w else []
  let (cache, relays) :=
    if relayOk cfg rx then sniffRebroadcast cfg s.cache rx w else (s.cache, [])
  ({ s with cache }, noted ++ relays ++ rxAirtimeLog rx .rxAll w)

/-- A frame of our own, heard again. -/
def ownFrame : State cfg × List Action :=
  if !rx.bearer.isRf then (s, [])
  -- our own voice, through another of our radios
  else if rx.attach ≠ 0 ∧ w.relayNode = cfg.selfByte then (s, [])
  else ({ s with relayers := noteOwnEcho cfg s.relayers w },
    [.implicitAck w.id] ++ rxAirtimeLog rx .rx w)

/-- A frame that passed the ingress guards. -/
def lookedUp : State cfg × List Action :=
  match s.cache.checkHops cfg.ttlMs rx.now w.key w.hopLimit true with
  | (.seen, cache) => ({ s with cache }, plainDuplicate cfg { s with cache } rx w)
  | (.upgrade, cache) => upgradedDuplicate cfg { s with cache } rx w
  | (.new, cache) => firstSight cfg { s with cache } rx w

/-- The ingress guards: an ignored sender, a source that claims to be the broadcast address, a
frame that has been through a broker. -/
def turnedAway : Bool :=
  rx.answers.isIgnored || w.src = broadcast || (cfg.ignoreMqtt && w.viaMqtt)

/-- `meshtastic_router_process_rx_meta`. -/
def processRx : State cfg × List Action :=
  match rx.wire with
  | none => (s, [])
  | some w =>
    if turnedAway cfg rx w then (s, rxAirtimeLog rx .rxAll w)
    else if w.src = cfg.nodeId then ownFrame cfg s rx w
    else lookedUp cfg s rx w

end

/-- A node with a small cache. -/
def gatewayNode : Config := ⟨0x11, false, false, 600, 4, by decide⟩

/-- A client that relays everything, knows nobody and cannot decode the frame. -/
def plainAnswers : Answers :=
  ⟨false, .undecoded none, true, false, .all, .all, .client, 0, none, false, 0, false, false, false,
    0, 0, true⟩

/-- A frame that no head has received. -/
def Rx.heard (bearer : Bearer) (wire : Option Wire) (ms : Nat) (answers : Answers) : Rx where
  wire := wire
  bearer := bearer
  attach := 0
  rssi := -90
  snr := 5
  rxMs := 0
  ms := ms
  answers := answers
  attach_zero _ := rfl

end Zephyrtastic.Router
