import Zephyrtastic.Cluster.Wire

/-!
# State of the cluster module

`Node` is what is fixed while a node runs: its id, its build configuration and
the library functions it calls. `Env` is what one step reads of the outside.
`State` is the module's state under its lock.
-/

namespace Zephyrtastic.Cluster

inductive ScopeChoice where
  | auto | full | core
  deriving DecidableEq, Repr

/-- One row of a decoded firmware intent. -/
structure ClassIntent where
  classId : UInt32
  version : UInt32
  hashPrefixSize : Nat
  flags : UInt32

/-- A node's identity, its Kconfig values with their ranges, and the decoders,
checksum and verifier it is linked with. -/
structure Node where
  me : UInt32
  maxEntries : Nat
  maxEntries_range : 14 ≤ maxEntries ∧ maxEntries ≤ 256
  peerSlots : Nat
  peerSlots_range : 2 ≤ peerSlots ∧ peerSlots ≤ 64
  digestPeriodSec : Nat
  digestPeriodSec_range : 30 ≤ digestPeriodSec ∧ digestPeriodSec ≤ 86400
  pullDelayMs : Nat
  serveMinIntervalMs : Nat
  pushMinIntervalMs : Nat
  syncTimeoutSec : Nat
  fragTimeoutSec : Nat
  backstopPeriods : Nat
  scopeChoice : ScopeChoice
  /-- `CONFIG_MESHTASTIC_ADMIN`. -/
  admin : Bool
  /-- `CONFIG_MESHTASTIC_XEDDSA`. -/
  xeddsa : Bool
  sigRequired : Bool
  sign : Bool
  crc32IeeeUpdate : UInt32 → List UInt8 → UInt32
  /-- The payload variant of a decodable `meshtastic_Config`. -/
  decodeVariant : List UInt8 → Option UInt16
  decodeFleetIntent : List UInt8 → Option (List ClassIntent)
  /-- Public key, message, signature. -/
  xeddsaVerify : List UInt8 → List UInt8 → List UInt8 → Bool

/-- What one step reads of the node around the module. -/
structure Env where
  /-- Wall clock, milliseconds since the epoch; zero while unseeded. -/
  epochMs : Int64
  /-- The wall clock again, as `meshtastic_hlc_observe` reads it later in the call. -/
  observeMs : Int64
  uptimeMs : Nat
  rand : UInt32
  /-- `meshtastic_admin_node_is_trusted`. -/
  trusted : UInt32 → Bool
  managed : Bool
  /-- The node database has a record of the node. -/
  nodedbHas : UInt32 → Bool
  nodedbPubkey : UInt32 → Option (List UInt8)
  ownPubkey : Option (List UInt8)
  /-- `meshtastic_pki_sign_bytes`; none when signing fails. -/
  pkiSign : List UInt8 → Option Signature
  /-- The index of the cluster channel, when one is provisioned. -/
  channelIndex : Option UInt8

/-- The counters of `meshtastic_cluster_stats`. -/
inductive Counter where
  | digestTx | digestRxMatch | digestRxMismatch | digestRxIncomparable | rxWrongChannel
  | rxUndecodable | rxNotImplemented | pullStarted | pullTimedOut | pullFruitless | pullEmpty
  | pullHeld | vectorTx | vectorRx | entryTx | entryRxApplied | entryRxStale | entryRxRefused
  | entryRxNoSpace | entryRxOutOfScope | wantNoSpace | entriesEvicted | scopeDemotions
  | backstopWalks | entryRxFuture | fragRx | fragAssembled | fragOutOfOrder | fragDisplaced
  | fragTimedOut | rxUnsolicited | txBusy | pushTx | pushSuppressed | sigSigned | sigSignFailed
  | sigVerified | sigUnsigned | sigRefusedBad | sigRefusedNoKey | sigRefusedMalformed
  | sigRefusedUnsigned | sectionsApplied | sectionsKeptLocal | sectionsHeld
  deriving DecidableEq, Repr

def Stats : Type := Counter → UInt32

def Stats.add (s : Stats) (k : Counter) (n : UInt32) : Stats :=
  fun j => if j = k then s j + n else s j

@[simp] theorem Stats.add_self (s : Stats) (k : Counter) (n : UInt32) : s.add k n k = s k + n :=
  if_pos rfl

theorem Stats.add_of_ne {s : Stats} {j k : Counter} {n : UInt32} (h : j ≠ k) : s.add k n j = s j :=
  if_neg h

/-- What the last digest from one peer said. -/
structure Peer where
  nodeId : UInt32
  heardUptimeSec : UInt32
  docHash : UInt32
  entryCount : UInt16
  scope : UInt8
  agreed : Bool
  comparable : Bool
  deriving DecidableEq, Repr

/-- The peer table: bounded, one slot a peer. -/
structure PeerTable (slots : Nat) where
  peers : List Peer
  fits : peers.length ≤ slots
  nodup : (peers.map Peer.nodeId).Nodup

def PeerTable.empty (slots : Nat) : PeerTable slots := ⟨[], Nat.zero_le _, List.nodup_nil⟩

inductive PullState where
  | idle | sendVectorReq | awaitVector | sendEntryReq
  deriving DecidableEq, Repr

inductive PullReason where
  | digest | shell | backstop
  deriving DecidableEq, Repr

/-- The reassembly slot. Its fields keep their last values while it is inactive. -/
structure AsmRx where
  active : Bool
  sender : UInt32
  key : Key
  stamp : Stamp
  tombstone : Bool
  total : Nat
  got : Nat
  deadlineMs : Nat
  buf : List UInt8

/-- The module's state. A queue with a read cursor is the list still to be read. -/
structure State (nd : Node) where
  doc : Doc nd.maxEntries
  scopeKind : ScopeKind
  scopePinned : Bool
  backstopPeer : UInt32
  backstopCountdown : Nat
  hlc : Hlc
  stats : Stats
  peers : PeerTable nd.peerSlots
  pullState : PullState
  pullReason : PullReason
  pullPeer : UInt32
  pullDeadlineMs : Nat
  pullKeys : List Key
  vecDest : UInt32
  vecOffset : Nat
  vecEmitted : Nat
  vecScopeKind : ScopeKind
  entDest : UInt32
  entKeys : List Key
  entFragOff : Nat
  pushKeys : List Key
  pushFragOff : Nat
  asmRx : AsmRx
  serveTokens : Nat
  serveRefillMs : Nat
  pushTokens : Nat
  pushRefillMs : Nat
  pullHoldUntilMs : Nat
  pullLastApplied : UInt32
  pullAskedEntries : Bool
  pullFruitless : Nat

def serveBurst : Nat := 3
def pushBurst : Nat := 3
def pushQueue : Nat := 4
def fruitlessThreshold : Nat := 3
def fruitlessMaxShift : Nat := 5

/-- The claim a choice stands for, and whether it is pinned against narrowing. -/
def ScopeChoice.claim : ScopeChoice → ScopeKind × Bool
  | .auto => (.full, false)
  | .full => (.full, true)
  | .core => (.core, true)

/-- The claim a build starts out with. -/
def Node.compiledScope (nd : Node) : ScopeKind × Bool := nd.scopeChoice.claim

def AsmRx.zero : AsmRx :=
  ⟨false, 0, ⟨0, 0, 0⟩, Stamp.unset, false, 0, 0, 0, List.replicate payloadMax 0⟩

/-- CRC-32 with the reflected polynomial, one byte at a time. -/
def crc32Ieee (crc : UInt32) (bytes : List UInt8) : UInt32 :=
  let shift (acc : UInt32) : UInt32 :=
    if acc &&& 1 = 1 then (acc >>> 1) ^^^ 0xEDB88320 else acc >>> 1
  ~~~ bytes.foldl (fun acc b => Nat.repeat shift 8 (acc ^^^ b.toUInt32)) (~~~ crc)

/-- `meshtastic_cluster_init` before the settings are loaded. -/
def State.init (nd : Node) (env : Env) : State nd where
  doc := Doc.init nd.maxEntries
  scopeKind := nd.compiledScope.1
  scopePinned := nd.compiledScope.2
  backstopPeer := 0
  backstopCountdown := 0
  hlc := Hlc.zero
  stats := fun _ => 0
  peers := PeerTable.empty nd.peerSlots
  pullState := .idle
  pullReason := .digest
  pullPeer := 0
  pullDeadlineMs := 0
  pullKeys := []
  vecDest := 0
  vecOffset := 0
  vecEmitted := 0
  vecScopeKind := .base
  entDest := 0
  entKeys := []
  entFragOff := 0
  pushKeys := []
  pushFragOff := 0
  asmRx := AsmRx.zero
  serveTokens := serveBurst
  serveRefillMs := env.uptimeMs
  pushTokens := pushBurst
  pushRefillMs := env.uptimeMs
  pullHoldUntilMs := 0
  pullLastApplied := 0
  pullAskedEntries := false
  pullFruitless := 0

/-- A small build with plain decoders: a config payload names its section in its
first byte, and any firmware intent has one valid row. -/
def sampleNode : Node where
  me := 1
  maxEntries := 14
  maxEntries_range := by decide
  peerSlots := 2
  peerSlots_range := by decide
  digestPeriodSec := 300
  digestPeriodSec_range := by decide
  pullDelayMs := 3000
  serveMinIntervalMs := 5000
  pushMinIntervalMs := 30000
  syncTimeoutSec := 60
  fragTimeoutSec := 60
  backstopPeriods := 12
  scopeChoice := .auto
  admin := true
  xeddsa := false
  sigRequired := false
  sign := false
  crc32IeeeUpdate := crc32Ieee
  decodeVariant := fun bytes => bytes.head?.map UInt8.toUInt16
  decodeFleetIntent := fun _ => some [⟨1, 1, 0, 0⟩]
  xeddsaVerify := fun _ _ _ => true

/-- An unseeded clock, every author trusted, every node known. -/
def sampleEnv (uptimeMs : Nat) : Env where
  epochMs := 0
  observeMs := 0
  uptimeMs
  rand := 0
  trusted := fun _ => true
  managed := false
  nodedbHas := fun _ => true
  nodedbPubkey := fun _ => none
  ownPubkey := none
  pkiSign := fun _ => none
  channelIndex := some 0

variable {nd : Node} (c : State nd)

/-- One counter moved. -/
@[simp] def State.count (k : Counter) : State nd :=
  { c with stats := c.stats.add k 1 }

/-- Count a refusal. The warning it throttles is not part of the state. -/
@[simp] def State.refuseEntry : State nd :=
  c.count .entryRxRefused

/-- Abandon everything part-sent and part-received. -/
@[simp] def State.fragReset : State nd :=
  { c with entFragOff := 0, pushFragOff := 0, asmRx := { c.asmRx with active := false } }

@[simp] def State.pullReset : State nd :=
  { c with pullState := .idle, pullPeer := 0, pullKeys := [], pullDeadlineMs := 0 }

/-- The scope this node advertises. A CORE claim without a node id falls back to
FULL rather than claim nobody's entries. -/
def State.myScope : Scope :=
  if c.scopeKind = .core ∧ nd.me = 0 then Scope.make .full 0
  else Scope.make c.scopeKind nd.me

end Zephyrtastic.Cluster
