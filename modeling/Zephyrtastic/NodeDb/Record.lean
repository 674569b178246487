import Zephyrtastic.Lib.Bits
import Zephyrtastic.Lib.Bytes

/-!
# Node records

A peer's record in the hot store, its key in the warm ring, and what a packet or a
NodeInfo writes into a record.
-/

namespace Zephyrtastic.NodeDb

/-- The bits of `NodeInfoLite.bitfield`. -/
inductive NodeBit where
  | isKeyManuallyVerified | isMuted | viaMqtt | isFavorite | isIgnored | hasUser | isLicensed
  | isUnmessagable | hasIsUnmessagable | hasXeddsaSigned | hasSnr
  deriving DecidableEq, Repr

def NodeBit.shift : NodeBit → Nat
  | isKeyManuallyVerified => 0
  | isMuted => 1
  | viaMqtt => 2
  | isFavorite => 3
  | isIgnored => 4
  | hasUser => 5
  | isLicensed => 6
  | isUnmessagable => 7
  | hasIsUnmessagable => 8
  | hasXeddsaSigned => 9
  | hasSnr => 10

/-- `MESHTASTIC_NODEDB_PUBLIC_KEY_MAX_LEN`. -/
def keyLen : Nat := 32

/-- A full public key. -/
structure Key where
  bytes : Bytes
  full : bytes.length = keyLen
  deriving DecidableEq, Repr

/-- The key in a field that may also hold a shorter one, or none. -/
def Key.ofBytes (b : Bytes) : Option Key :=
  if h : b.length = keyLen then some ⟨b, h⟩ else none

def Key.zero : Key := ⟨List.replicate keyLen 0, List.length_replicate⟩

/-- `meshtastic_NodeInfoLite`; the floats are their bit patterns. -/
structure NodeInfoLite where
  num : UInt32
  snr : UInt32
  lastHeard : UInt32
  channel : UInt8
  hopsAway : Option UInt8
  nextHop : UInt8
  bitfield : BitVec 32
  longName : Bytes
  shortName : Bytes
  hwModel : UInt8
  role : UInt8
  publicKey : Bytes
  snrQ4 : Int32
  deriving DecidableEq, Repr

open NodeInfoLite

structure PositionLite where
  latitudeI : Int32
  longitudeI : Int32
  altitude : Int32
  time : UInt32
  locationSource : UInt8
  precisionBits : UInt32
  deriving DecidableEq, Repr

structure Entry where
  used : Bool
  node : NodeInfoLite
  /-- The last time it was heard, carried over a reboot. -/
  lastHeardEpoch : UInt32
  position : Option PositionLite
  /-- The preset it was heard on plus one, zero for none this boot. -/
  heardPreset1 : UInt8
  deriving DecidableEq, Repr

/-- `struct warm_key`; an empty slot has the number zero. -/
structure WarmKey where
  num : UInt32
  lastSeen : UInt32
  role : UInt8
  knownSigner : Bool
  pub : Key
  deriving DecidableEq, Repr

def WarmKey.empty : WarmKey := ⟨0, 0, 0, false, .zero⟩

/-- `meshtastic_User`, as far as a record keeps it. -/
structure User where
  longName : Bytes
  shortName : Bytes
  hwModel : UInt32
  role : UInt32
  publicKey : Bytes
  isLicensed : Bool
  isUnmessagable : Option Bool
  deriving DecidableEq, Repr

/-- `meshtastic_Position`, as far as a record keeps it. -/
structure Position where
  latitudeI : Int32
  longitudeI : Int32
  altitude : Option Int32
  time : UInt32
  locationSource : UInt8
  precisionBits : UInt32
  deriving DecidableEq, Repr

/-- What the decoders make of a packet's port and payload. -/
inductive Content where
  | nodeInfo (user : Option User)
  | position (pos : Option Position)
  | other
  deriving DecidableEq, Repr

/-- A received packet, in whichever form the receive path supplied it. -/
structure Packet where
  sender : UInt32
  content : Content
  rxSnr : UInt32
  /-- The channel index, none where it did not resolve. -/
  channel : Option UInt8
  viaMqtt : Bool
  hopStart : UInt8
  hopLimit : UInt8
  /-- The preset it was heard on plus one, zero for none. -/
  rxHeardOn : UInt8
  deriving DecidableEq, Repr

/-- What one call reads of the outside. -/
structure Env where
  uptimeSec : UInt32
  /-- The wall clock, zero while it is not seeded. -/
  epoch : UInt32
  /-- This node's own public key. -/
  ownKey : Option Key
  /-- The device role is `CLIENT_BASE`. -/
  clientBase : Bool

namespace NodeInfoLite

variable (node : NodeInfoLite)

def isSet (node : NodeInfoLite) (b : NodeBit) : Bool := Bits.isSet node.bitfield b.shift

def writeBit (b : NodeBit) (v : Bool) : NodeInfoLite :=
  { node with bitfield := Bits.write node.bitfield b.shift v }

def zero : NodeInfoLite where
  num := 0
  snr := 0
  lastHeard := 0
  channel := 0
  hopsAway := none
  nextHop := 0
  bitfield := 0
  longName := []
  shortName := []
  hwModel := 0
  role := 0
  publicKey := []
  snrQ4 := 0

/-- The key the record is pinned to. -/
def fullKey : Option Key := Key.ofBytes node.publicKey

def isProtected : Bool := node.isSet .isFavorite || node.isSet .isIgnored

end NodeInfoLite

/-- `(struct nodedb_entry){0}`, taken for a node. -/
def Entry.fresh (num : UInt32) : Entry :=
  ⟨true, { NodeInfoLite.zero with num }, 0, none, 0⟩

/-- The number an entry in use stands for. -/
def Entry.key (e : Entry) : Option UInt32 := if e.used then some e.node.num else none

namespace User

/-- The key as far as a record has room for it. -/
def key (user : User) : Bytes := user.publicKey.take keyLen

def fullKey (user : User) : Option Key := Key.ofBytes user.key

end User

section
variable (node : NodeInfoLite) (user : User)

/-- The identity update is refused: a key other than the pinned one, this node's
number with another key, or this node's key under another number. -/
def NodeInfoLite.refuses (self : UInt32) (env : Env) (user : User) : Bool :=
  match user.fullKey with
  | none => false
  | some k => node.fullKey.any (· ≠ k) ||
      env.ownKey.any fun own =>
        (decide (node.num = self) && decide (own ≠ k)) ||
          (decide (node.num ≠ self) && decide (own = k))

/-- `apply_user` writes the key: one that is short or absent never wipes a pinned one. -/
def NodeInfoLite.takesKey : Bool :=
  user.fullKey.isSome || node.fullKey.isNone

/-- The fields `apply_user` writes once the update is accepted. -/
def NodeInfoLite.withUser : NodeInfoLite :=
  let node := { node with
    longName := user.longName.take 24
    shortName := user.shortName.take 4
    hwModel := user.hwModel.toUInt8
    role := user.role.toUInt8
    publicKey := if node.takesKey user then user.key else node.publicKey }
  (((node.writeBit .hasUser true).writeBit .isLicensed user.isLicensed).writeBit
    .hasIsUnmessagable user.isUnmessagable.isSome).writeBit
      .isUnmessagable (user.isUnmessagable.getD false)

/-- The full key of an accepted update, if the record did not hold it. -/
def NodeInfoLite.newKey : Option Key :=
  user.fullKey.filter fun k => decide (node.publicKey ≠ k.bytes)

def Packet.hopsAway (p : Packet) : Option UInt8 :=
  if p.hopStart = 0 || p.hopStart < p.hopLimit then none else some (p.hopStart - p.hopLimit)

def Entry.applyBasicPacket (e : Entry) (p : Packet) (nowSec : UInt32) : Entry :=
  let node := { e.node with
    lastHeard := nowSec
    snr := p.rxSnr
    channel := p.channel.getD 0
    hopsAway := p.hopsAway.or e.node.hopsAway }
  { e with
    node := (node.writeBit .hasSnr true).writeBit .viaMqtt p.viaMqtt
    heardPreset1 := if p.rxHeardOn ≠ 0 && !p.viaMqtt then p.rxHeardOn else e.heardPreset1 }

/-- `apply_position`: a report without a time keeps the time known before. -/
def Entry.applyPosition (e : Entry) (pos : Position) : Entry :=
  let prior := (e.position.map (·.time)).getD 0
  let time := if pos.time = 0 then prior else pos.time
  { e with position := some (PositionLite.mk pos.latitudeI pos.longitudeI (pos.altitude.getD 0)
      time pos.locationSource pos.precisionBits) }

end

variable {k : Key} {b : NodeBit}

section Keys

theorem Key.ofBytes_eq_some {b : Bytes} : Key.ofBytes b = some k ↔ b = k.bytes := by
  unfold Key.ofBytes
  split
  · next h => rw [Option.some.injEq, Key.mk.injEq]
  next h =>
  simp only [reduceCtorEq, false_iff]
  rintro rfl
  exact h k.full

@[simp] theorem Key.ofBytes_bytes (k : Key) : Key.ofBytes k.bytes = some k :=
  Key.ofBytes_eq_some.mpr rfl

end Keys

section Bits
variable (node : NodeInfoLite)

theorem NodeBit.shift_injective {c : NodeBit} (h : b.shift = c.shift) : b = c := by
  cases b <;> cases c <;> first | rfl | exact absurd h (by decide)

variable {node} in
@[simp] theorem isSet_writeBit {c : NodeBit} {v : Bool} :
    (node.writeBit b v).isSet c = if c = b then v else node.isSet c := by
  split
  · next h =>
    subst h
    exact Bits.isSet_write_self _ (by cases c <;> decide) _
  · next h => exact Bits.isSet_write_ne _ (fun e => h (NodeBit.shift_injective e)) _

theorem isSet_of_bitfield_zero {node : NodeInfoLite} (h : node.bitfield = 0) (b : NodeBit) :
    node.isSet b = false := by
  simp [isSet, Bits.isSet, h]

end Bits

section Fields
variable (node : NodeInfoLite) (e : Entry) (user : User)

theorem withUser_fullKey : (node.withUser user).fullKey = user.fullKey.or node.fullKey := by
  have hkey : (node.withUser user).publicKey =
    if node.takesKey user then user.key else node.publicKey := rfl
  rw [fullKey, hkey]
  unfold takesKey
  cases hu : user.fullKey with
  | some k =>
    exact hu
  | none =>
    cases hn : node.fullKey with
    | some k =>
      exact hn
    | none =>
      exact hu

theorem withUser_isSet (h : b = .isKeyManuallyVerified ∨ b = .hasXeddsaSigned ∨
    b = .isFavorite ∨ b = .isIgnored) : (node.withUser user).isSet b = node.isSet b := by
  unfold withUser
  rcases h with rfl | rfl | rfl | rfl <;> simp <;> rfl

theorem newKey_eq_some :
    node.newKey user = some k ↔ user.fullKey = some k ∧ node.fullKey ≠ some k := by
  unfold newKey fullKey
  rw [Option.filter_eq_some_iff, decide_eq_true_eq, ne_eq, ne_eq, Key.ofBytes_eq_some]

theorem newKey_eq_none (h : node.newKey user = none) :
    user.fullKey.or node.fullKey = node.fullKey := by
  cases hu : user.fullKey with
  | none => rfl
  | some k =>
    by_contra hne
    have hk : node.newKey user = some k :=
      (newKey_eq_some node user).mpr ⟨hu, fun e => hne (by rw [e]; rfl)⟩
    rw [h] at hk
    cases hk

theorem applyBasicPacket_isSet (p : Packet) (nowSec : UInt32) (h : b ≠ .hasSnr ∧ b ≠ .viaMqtt) :
    (e.applyBasicPacket p nowSec).node.isSet b = e.node.isSet b := by
  unfold Entry.applyBasicPacket
  simp only [isSet_writeBit, h.1, h.2, if_false]
  rfl

end Fields

end Zephyrtastic.NodeDb
