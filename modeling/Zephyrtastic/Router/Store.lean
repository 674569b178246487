import Zephyrtastic.Lib.Run
import Zephyrtastic.NodeDb.Ops
import Zephyrtastic.Router.Effects

/-!
# The router on the node store

What the router asks about a frame's sender, its last relayer and its destination it asks of the
node store, and what the modules learn from a packet they write there before the frame is
relayed. The frames of all bearers share the one store.
-/

namespace Zephyrtastic

namespace NodeDb.State

variable (s : State)

def isIgnored (num : UInt32) : Bool := (s.entry num).any (·.node.isSet .isIgnored)

def isFavorite (num : UInt32) : Bool := (s.entry num).any (·.node.isSet .isFavorite)

def isFromOrToFavorite (sender dest : UInt32) : Bool :=
  s.isFavorite sender || (dest ≠ broadcast && s.isFavorite dest)

def resolveUniqueLastByte (cfg : Config) (lastByte : UInt8) : UInt32 :=
  match s.hot.filter fun e => e.used && e.node.num ≠ cfg.self && e.node.num.toUInt8 = lastByte with
  | [e] => e.node.num
  | _ => 0

/-- `meshtastic_nodedb_get_next_hop`; a route that the route health has let decay is none. -/
def getNextHop (dest : UInt32) (decayed : Bool) : UInt8 :=
  if decayed then 0 else ((s.entry dest).map (·.node.nextHop)).getD 0

end NodeDb.State

namespace Router

open Run

/-- `meshtastic_Config_DeviceConfig_Role`, by its number. -/
def Role.ofNumber (n : Nat) : Role :=
  match n with
  | 0 => .client
  | 1 => .clientMute
  | 2 => .router
  | 11 => .routerLate
  | 12 => .clientBase
  | n => .other n

/-- `meshtastic_nodedb_get`, as far as the router reads the record. -/
def peerOf (store : NodeDb.State) (num : UInt32) : Option Peer :=
  (store.entry num).map fun e =>
    ⟨e.node.isSet .isFavorite, e.node.isSet .hasUser, Role.ofNumber e.node.role.toNat⟩

/-- What the store answers about a frame. -/
structure Told where
  isIgnored : Bool
  resolveUniqueLastByte : UInt32
  relayer : Option Peer
  isFromOrToFavorite : Bool
  getNextHop : UInt8
  deriving DecidableEq, Repr

def Answers.told (a : Answers) (t : Told) : Answers :=
  { a with
    isIgnored := t.isIgnored
    resolveUniqueLastByte := t.resolveUniqueLastByte
    relayer := t.relayer
    isFromOrToFavorite := t.isFromOrToFavorite
    getNextHop := t.getNextHop }

def Rx.told (rx : Rx) (t : Told) : Rx := { rx with answers := rx.answers.told t }

/-- A frame as the node receives it. What the store answers takes the place of what the frame
has in its answers. -/
structure Arrival where
  rx : Rx
  /-- What the modules do to the store when they get the packet. -/
  writes : List NodeDb.Event
  /-- The route to the frame's destination has decayed. -/
  decayed : Bool

/-- A router and its store. -/
structure Node (cfg : Config) where
  router : State cfg
  store : NodeDb.State

/-- The store's configuration on this node. -/
def Config.db (cfg : Config) (maxNodes : Nat) : NodeDb.Config := ⟨maxNodes, cfg.nodeId⟩

section
variable (cfg : Config)

/-- The modules get the frame's packet. -/
def dispatches (s : State cfg) (rx : Rx) (w : Wire) : Bool :=
  !turnedAway cfg rx w && w.src ≠ cfg.nodeId
    && (s.cache.checkHops cfg.ttlMs rx.now w.key w.hopLimit true).1 = .new
    && match rx.answers.decode with
      | .decoded d => inboundPasses rx.answers (some d)
      | _ => false

end

namespace Node

variable {cfg : Config} (maxNodes : Nat) (nd : Node cfg)

/-- The store when the frame may be relayed: the modules have had the packet. -/
def storeAfter (a : Arrival) (w : Wire) : NodeDb.State :=
  let rx : Rx :=
    { a.rx with answers := { a.rx.answers with isIgnored := nd.store.isIgnored w.src } }
  if dispatches cfg nd.router rx w then run (NodeDb.step (cfg.db maxNodes)) nd.store a.writes
  else nd.store

/-- The sender is looked up when the frame comes in, the rest once the modules are done. -/
def told (a : Arrival) (w : Wire) : Told :=
  let store := nd.storeAfter maxNodes a w
  let resolved := store.resolveUniqueLastByte (cfg.db maxNodes) w.relayNode
  { isIgnored := nd.store.isIgnored w.src
    resolveUniqueLastByte := resolved
    relayer := peerOf store resolved
    isFromOrToFavorite := store.isFromOrToFavorite w.src w.dest
    getNextHop := store.getNextHop w.dest a.decayed }

/-- A learned next hop is written to the store. -/
def noteLearned (store : NodeDb.State) : Action → NodeDb.State
  | .learn dest hop => store.after (store.setNextHop dest hop)
  | _ => store

def step (a : Arrival) : Node cfg × List Action :=
  match a.rx.wire with
  | none => (nd, [])
  | some w =>
    let (router, acts) := processRx cfg nd.router (a.rx.told (nd.told maxNodes a w))
    (⟨router, acts.foldl noteLearned (nd.storeAfter maxNodes a w)⟩, acts)

end Node

/-! ### When the modules get a packet -/

section
variable {cfg : Config} {s : State cfg} {rx : Rx} {w : Wire}

theorem mem_handleDecoded (log : RelayerLog) (a : Answers) (bearer : Bearer) (attach : UInt8)
    (ms : Nat) (p : Packet) (d : Data) :
    .dispatch p.key ms ∈ handleDecoded cfg log a bearer attach ms p d :=
  List.mem_append_left _ (List.mem_append_right _ (List.mem_singleton_self _))

theorem dispatch_iff (s : State cfg) (hw : rx.wire = some w) :
    .dispatch w.key rx.ms ∈ (processRx cfg s rx).2 ↔ dispatches cfg s rx w = true := by
  have hmem (d : Data) : .dispatch w.key rx.ms ∈
      handleDecoded cfg s.relayers rx.answers rx.bearer rx.attach rx.ms w.packet d :=
    mem_handleDecoded ..
  rw [mem_processRx rfl s hw]
  unfold dispatches
  cases rx.answers.decode <;> simp [hmem, and_assoc]

end

end Router

end Zephyrtastic
