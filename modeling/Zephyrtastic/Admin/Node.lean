import Zephyrtastic.Admin.Session
import Zephyrtastic.NodeDb.Forget
import Zephyrtastic.Router.Decode
import Zephyrtastic.Router.Suppression

/-!
# A node under remote administration

The receive path with the node store, the keys, the table of the getters and the
session passkey behind it.
-/

namespace Zephyrtastic.Admin

open NodeDb (Key)
open Pki (Content)
open Router (Wire Frame Reading Action Injection dataOf portAdmin broadcast)

structure Config where
  router : Router.Config
  /-- `CONFIG_MESHTASTIC_NODEDB_MAX_NODES`. -/
  maxNodes : Nat
  pb : Nanopb
  /-- `CONFIG_MESHTASTIC_LOCKDOWN`. -/
  lockdown : Bool

def Config.db (cfg : Config) : NodeDb.Config := cfg.router.db cfg.maxNodes

/-- A packet that the phone sends through the node. -/
structure Request where
  dest : UInt32
  id : UInt32
  /-- The payload, if it is a decoded one. -/
  content : Option Content
  /-- `meshtastic_allocate_packet_id`. -/
  allocatedId : UInt32
  /-- `meshtastic_send_mesh_pb` took the packet. -/
  sent : Bool
  deriving DecidableEq, Repr

/-- A frame, with what the node has for it at the time. -/
structure Arrival where
  frame : Frame
  cipher : Pki.Cipher
  /-- `SecurityConfig.admin_key`. -/
  adminKey : List Bytes
  /-- `meshtastic_xeddsa_check_rx_policy` notes the sender of a decoded packet as a signer. -/
  notesSigner : Bool
  /-- `meshtastic_admin_client_on_admin`. -/
  clientTakes : Bool
  storeLocked : Bool

def Arrival.pki (cfg : Config) (a : Arrival) : Pki.Config := ⟨a.cipher, a.adminKey, cfg.db⟩

/-- A getter that was passed on, with the key that was held for its node then. -/
structure Getter where
  dest : UInt32
  id : UInt32
  payload : Bytes
  sentMs : Nat
  key : Option Key
  sent : Bool
  deriving DecidableEq, Repr

/-- What no relay changes of a frame: its source, its id and the sealed payload. -/
structure Parcel where
  src : UInt32
  id : UInt32
  payload : Bytes
  deriving DecidableEq, Repr

def parcelOf (w : Wire) : Parcel := ⟨w.src, w.id, w.payload⟩

def Parcel.key (p : Parcel) : Router.Key := ⟨p.src, p.id⟩

/-- A remote node's write that `admin_dispatch` applied. -/
structure Write where
  parcel : Parcel
  passkey : Bytes
  ms : Nat
  deriving DecidableEq, Repr

structure Node (cfg : Config) where
  /-- The uptime in milliseconds. -/
  now : Nat
  router : Router.State cfg.router
  keys : Pki.State
  table : Table
  session : Option Session
  /-- The getters passed on, in order; not in the code, and nothing but the serial numbers reads
  it. -/
  relayed : List Getter
  /-- The serial numbers of the getters that were answered; not in the code. -/
  answered : List Nat
  /-- The passkeys issued; not in the code. -/
  issued : List Passkey
  /-- The writes applied; not in the code. -/
  writes : List Write

namespace Node

variable {cfg : Config} (n : Node cfg)

/-- The node after a boot, at some uptime. -/
def init (cfg : Config) (ms : Nat) (keys : Pki.State) : Node cfg :=
  ⟨ms, .init cfg.router, keys, fun _ => .free, none, [], [], [], []⟩

def wait (elapsed : Nat) : Node cfg := { n with now := n.now + elapsed }

/-! ### A packet of the phone's -/

/-- The entry of a getter, with its expected response. -/
def entryFor (q : Request) (variant expected : Variant) (sub : UInt32) : Outstanding where
  dest := q.dest
  requestId := if q.id = 0 then q.allocatedId else q.id
  sentMs := n.now
  expected := expected
  moduleType := if variant = .request .moduleConfig then sub else 0
  key := n.keys.db.copyPubkey q.dest
  serial := n.relayed.length

/-- The getter is entered. -/
def enter (q : Request) (payload : Bytes) (o : Outstanding) : Node cfg :=
  { n with
    table := n.table.put n.table.slotFor o
    relayed := n.relayed ++ [⟨q.dest, o.requestId, payload, n.now, o.key, q.sent⟩] }

def noteOutgoingRequest (q : Request) : Node cfg :=
  match q.content with
  | none => n
  | some c =>
    if c.portnum ≠ portAdmin ∨ q.dest = 0 ∨ q.dest = broadcast ∨ q.dest = cfg.router.nodeId then n
    else match cfg.pb.peekVariant c.payload with
      | none => n
      | some (variant, sub) => match variant.responseFor with
        | none => n
        | some expected => n.enter q c.payload (n.entryFor q variant expected sub)

/-! ### A frame -/

variable (a : Arrival) (w : Wire)

/-- The frame at the time of its reception. -/
def frameOf : Frame :=
  { a.frame with
    rx := { a.frame.rx with ms := n.now }
    clock := { a.frame.clock with now := UInt32.ofNat n.now } }

/-- What the decoder makes of the frame, and the keys after it. -/
def reading : Reading × Pki.State :=
  Router.tryDecodeWirePacketOn cfg.router (a.pki cfg) n.keys (n.frameOf a) w

/-- The keys after a frame: the decoder may store an admin key, and the signature policy may note
a signer. -/
def keysAfter : Pki.State :=
  if Router.decodes cfg.router n.router (n.frameOf a).rx w then
    let k := (n.reading a w).2
    if a.notesSigner && (n.reading a w).1.content.isSome
    then { k with db := k.db.noteXeddsaSigner cfg.db a.frame.clock.env w.src } else k
  else n.keys

/-- The packet gets as far as the table: an admin packet to this node from another. -/
def asks (c : Content) : Bool :=
  Router.decodes cfg.router n.router (n.frameOf a).rx w
    && Router.inboundPasses a.frame.rx.answers (some (dataOf c))
    && !Router.suppressed a.frame.rx.answers (dataOf c)
    && Router.isRemoteAdmin cfg.router w.packet (dataOf c)

/-- The packet, as the table is asked about it. -/
def reply : Option Reply :=
  match (n.reading a w).1.content with
  | none => none
  | some c =>
    if n.asks a w c then
      (cfg.pb.peekVariant c.payload).map fun (variant, sub) =>
        ⟨w.src, c.requestId, (n.reading a w).1.pkiEncrypted, variant, sub,
          (n.keysAfter a w).db.copyPubkey w.src, n.now⟩
    else none

/-- The table after the packet, and the getter that it answers. -/
def taken : Table × Option Nat :=
  match n.reply a w with
  | none => (n.table, none)
  | some r => n.table.takeSolicitedResponse r

/-- The frame with the answers of the decoder and the table. -/
def answeredRx : Router.Rx :=
  { (n.frameOf a).rx with
    answers := { a.frame.rx.answers with
      decode := (n.reading a w).1.decode
      takeSolicitedResponse := (n.taken a w).2.isSome } }

/-- The router's part. -/
def routed : Router.State cfg.router × List Action :=
  Router.processRx cfg.router n.router (n.answeredRx a w)

/-- What the admin handler reads. -/
def desk : Desk := ⟨cfg.pb, n.session, n.now, a.clientTakes, cfg.lockdown, a.storeLocked⟩

/-- What the admin handler applies, where the router hands it the packet. -/
def applied : Option (Variant × Bytes) :=
  match (n.reading a w).1.content with
  | none => none
  | some c =>
    if .admin w.key ∈ (n.routed a w).2 then
      (n.desk a).handleRemote (n.reading a w).1.pkiEncrypted
        ((n.keysAfter a w).db.copyPubkey w.src) (a.pki cfg).adminKeys c.payload
    else none

/-- The write that is applied. -/
def write : Option Write :=
  match n.applied a w with
  | none => none
  | some (variant, passkey) =>
    if variant.needsPasskey then some ⟨parcelOf w, passkey, n.now⟩ else none

/-- A frame comes in. -/
def receive : Node cfg × List Action :=
  match a.frame.rx.wire with
  | none => (n, [])
  | some w =>
    ({ n with
        router := (n.routed a w).1
        keys := n.keysAfter a w
        table := (n.taken a w).1
        answered := (n.taken a w).2.toList ++ n.answered
        writes := (n.write a w).toList ++ n.writes },
      (n.routed a w).2)

/-! ### The rest -/

/-- A message from the broker. -/
def inject (inj : Injection) : Router.State cfg.router × List Action :=
  (Router.injectDownlink cfg.router n.router { inj with ms := n.now }).2

/-- An admin response of this node goes out, with the passkey. -/
def respond (random : Passkey) : Node cfg :=
  { n with
    session := sessionCurrent n.session n.now random
    issued := if n.session.any (·.current n.now) then n.issued else random :: n.issued }

end Node

/-- What happens to the node. -/
inductive Event where
  | relay (q : Request)
  | frame (a : Arrival)
  | downlink (inj : Injection)
  | respond (random : Passkey)
  | store (ev : NodeDb.Event) (hrunning : ev.running = true)
  /-- A key verification begins or ends, or a message is tried on the admin keys. -/
  | pki (pending : Option (UInt32 × Key)) (tokens : Nat) (stampMs : Option UInt32)

/-- One event, some time after the last. -/
def step (cfg : Config) (n : Node cfg) (e : Nat × Event) : Node cfg :=
  let n := n.wait e.1
  match e.2 with
  | .relay q => n.noteOutgoingRequest q
  | .frame a => (n.receive a).1
  | .downlink inj => { n with router := (n.inject inj).1 }
  | .respond random => n.respond random
  | .store ev _ => { n with keys := { n.keys with db := NodeDb.step cfg.db n.keys.db ev } }
  | .pki pending tokens stampMs => { n with keys := ⟨n.keys.db, pending, tokens, stampMs⟩ }

/-! ### A small node to try things on -/

/-- Messages whose bytes are their field numbers; the rest of an admin message is its passkey. -/
def toyPb : Nanopb where
  fields payload := some ((payload.filter (· ≠ 0)).map fun b => (b.toUInt32, .other))
  toSize tag := tag.toNat
  adminMessage payload := match payload with
    | [] => none
    | tag :: rest => some (.ofTag tag.toNat, rest.take sessionKeyLen)

def toyNode : Config := ⟨Router.gatewayNode, 4, toyPb, false⟩

/-- Sealed messages begin with the first byte of the peer's key; the port and the request id come
next. -/
def toyCipher : Pki.Cipher where
  haveKey := true
  aeadDecrypt key _ _ enc := if enc.take 1 = key.bytes.take 1 then some (enc.drop 1) else none
  decode plain := match plain with
    | port :: request :: rest => some ⟨port.toNat, request.toUInt32, rest⟩
    | _ => none

/-- A frame of node 0x22, sealed or on a channel. -/
def toyArrival (dest id : UInt32) (sealedPayload : Bytes) (channel : Option Content) : Arrival where
  frame :=
    { rx := .heard .lora
        (some ⟨dest, 0x22, id, 3, false, false, 3, if channel.isSome then 8 else 0, 0, 0,
          sealedPayload⟩) 0 Router.plainAnswers
      knownOnly := true
      channel := channel
      clock := ⟨0, NodeDb.toyEnv 0⟩ }
  cipher := toyCipher
  adminKey := [(NodeDb.toyKey 7).bytes]
  notesSigner := false
  clientTakes := false
  storeLocked := false

def toyKeys : Pki.State := ⟨NodeDb.toyStore 8, none, 8, none⟩

/-- Node 0x22 is heard with its key. -/
def toyHeardPeer : Nat × Event := (0, .store (NodeDb.toyNodeInfo 1 0x22 (NodeDb.toyKey 7)) rfl)

end Zephyrtastic.Admin
