import Zephyrtastic.Channels.Table
import Zephyrtastic.Router.Rx

/-!
# The downlink of the MQTT gateway

A message from the broker is looked up in the duplicate cache, put on the air if
it is not for this node alone, and then, if it is for this node or for everyone,
decoded and delivered.
-/

namespace Zephyrtastic.Router

open Channels (Table Slot)

inductive Errno where
  | einval
  | eacces
  | ealready
  | enotsup
  | ebadmsg
  /-- What the transmit path answers when it does not take a frame. -/
  | refused
  deriving DecidableEq, Repr

/-- The payload of a mesh packet. A packet whose variant is not set may still have bytes in
the place of the encrypted ones. -/
inductive Payload where
  | decoded (data : Data)
  | encrypted (bytes : Bytes)
  | unset (bytes : Bytes)
  deriving DecidableEq, Repr

structure MeshPacket where
  src : UInt32
  dest : UInt32
  id : UInt32
  channel : UInt32
  hopLimit : UInt8
  hopStart : UInt8
  wantAck : Bool
  pkiEncrypted : Bool
  nextHop : UInt8
  relayNode : UInt8
  payload : Payload
  deriving DecidableEq, Repr

def MeshPacket.key (m : MeshPacket) : Key := ⟨m.src, m.id⟩

/-- The packet as the modules get it. -/
def MeshPacket.packet (m : MeshPacket) : Packet := ⟨m.src, m.dest, m.id, true, m.relayNode⟩

/-- The keys of the node: the channel table, and the two ciphers with the decoder behind
them. -/
structure Keyring where
  table : Table
  /-- `try_decrypt_pki`, with the node's key pair. -/
  decryptPki : UInt32 → UInt32 → Bytes → Option Data
  /-- `decrypt_mesh_encrypted_key`. -/
  decryptKey : Bytes → UInt32 → UInt32 → Bytes → Option Data

/-- `try_decrypt_wire_hash` for a frame of an unknown preset: no slot is named after it, and
the hash of a slot is the cached one. -/
def tryDecryptWireHash (kr : Keyring) (wireHash : UInt8) (src id : UInt32) (enc : Bytes) :
    Option Data :=
  (List.finRange 8).findSome? fun ch =>
    if (kr.table.slots ch).role = .disabled ∨ kr.table.hashes ch ≠ wireHash then none
    else match kr.table.getKey ch with
      | .ok key => kr.decryptKey key src id enc
      | .error _ => none

/-- A message from the broker, at an uptime, with what the rest of the node answers. -/
structure Injection where
  mesh : MeshPacket
  /-- `mt.initialized`. -/
  initialized : Bool
  ms : Nat
  keys : Keyring
  answers : Answers
  /-- `meshtastic_send_mesh_decoded`: the frame it built, if the queue took it. -/
  sendDecoded : Option Wire
  /-- `meshtastic_allocate_packet_id`. -/
  allocatedId : UInt32
  /-- `mt.hop_limit`. -/
  hopLimit : UInt8
  /-- `meshtastic_nodedb_get_next_hop` of the destination. -/
  nextHop : UInt8
  /-- The transmit queue took the frame. -/
  queued : Bool
  /-- `meshtastic_mesh_pb_to_packet` could make a packet of the message. -/
  converts : Bool

def Injection.now (inj : Injection) : UInt32 := UInt32.ofNat inj.ms

section
variable (cfg : Config)
variable (inj : Injection)
variable (kr : Keyring) (m : MeshPacket) (s : State cfg) (bytes : Bytes)

/-- The ciphertext that `meshtastic_mesh_pb_try_decode` finds. -/
def MeshPacket.ciphertext : Except Errno Bytes :=
  match m.payload with
  | .decoded _ => .error .enotsup
  | .encrypted bytes => if bytes.isEmpty then .error .einval else .ok bytes
  | .unset bytes => if bytes.isEmpty then .error .enotsup else .ok bytes

/-- The decryption of `meshtastic_mesh_pb_try_decode`: PKC first, if the marker and the
destination say so, and then the channels. -/
def decrypt (enc : Bytes) : Option Data :=
  let wireHash := UInt8.ofNat m.channel.toNat
  let pki := if wireHash = 0 ∧ m.dest = cfg.nodeId ∧ m.dest ≠ broadcast
    then kr.decryptPki m.src m.id enc else none
  pki.or (tryDecryptWireHash kr wireHash m.src m.id enc)

def meshPbTryDecode : Except Errno Data :=
  match m.payload with
  | .decoded d => .ok d
  | _ => match m.ciphertext with
    | .error e => .error e
    | .ok enc => match decrypt cfg kr m enc with
      | some d => .ok d
      | none => .error .ebadmsg

/-- The channel byte of an encrypted message that goes out. -/
def wireHashOf : UInt8 :=
  if h : m.channel.toNat < 8 then kr.table.hashes ⟨m.channel.toNat, h⟩
  else UInt8.ofNat m.channel.toNat

/-- The frame of an encrypted message, with the hop counts and the channel byte given. -/
def encryptedWire (hopLimit hopStart : UInt8) (channel nextHop relayNode : UInt8) : Wire where
  dest := if inj.mesh.dest ≠ 0 then inj.mesh.dest else broadcast
  src := if inj.mesh.src ≠ 0 then inj.mesh.src else cfg.nodeId
  id := if inj.mesh.id ≠ 0 then inj.mesh.id else inj.allocatedId
  hopLimit := hopBits hopLimit
  wantAck := inj.mesh.wantAck
  viaMqtt := true
  hopStart := hopBits hopStart
  channel := channel
  nextHop := nextHop
  relayNode := relayNode
  payload := bytes

def payloadMax : Nat := 239

/-- `relay_injected_encrypted_mesh_packet`. -/
def relayInjectedEncrypted : Except Errno Wire :=
  if payloadMax < bytes.length then .error .einval
  else if inj.queued then
    .ok (encryptedWire cfg inj bytes inj.mesh.hopLimit inj.mesh.hopStart
      (wireHashOf inj.keys inj.mesh) inj.mesh.nextHop inj.mesh.relayNode)
  else .error .refused

/-- The encrypted branch of `meshtastic_send_mesh_pb`. -/
def sendEncrypted : Except Errno Wire :=
  if payloadMax < bytes.length then .error .einval
  else
    let m := inj.mesh
    let hopLimit := if m.hopLimit = 0 then inj.hopLimit else m.hopLimit
    let hopStart := if m.hopStart = 0 then hopLimit else m.hopStart
    let channel := if m.pkiEncrypted then 0 else wireHashOf inj.keys m
    let (nextHop, relayNode) := stampOriginated cfg
      (if m.dest ≠ 0 then m.dest else broadcast) (if m.src ≠ 0 then m.src else cfg.nodeId)
      inj.nextHop m.nextHop m.relayNode
    if inj.queued then
      .ok (encryptedWire cfg inj bytes hopLimit hopStart channel nextHop relayNode)
    else .error .refused

def sendMeshPb : Except Errno Wire :=
  match inj.mesh.payload with
  | .decoded _ => match inj.sendDecoded with
    | some w => .ok w
    | none => .error .refused
  | .encrypted bytes => sendEncrypted cfg inj bytes
  | .unset _ => .error .enotsup

def injectIsAdmin : Payload → Bool
  | .decoded d => d.portnum = portAdmin
  | _ => false

/-- The message is for this node, or for everyone. -/
def MeshPacket.isLocal : Bool := m.dest = cfg.nodeId || m.dest = broadcast

/-- Whether the message goes to the radio, and what comes of it. An encrypted message goes
out on its last hop too. -/
def injectRelay : Option (Except Errno Wire) :=
  if inj.mesh.dest = cfg.nodeId then none
  else match inj.mesh.payload with
    | .encrypted bytes =>
      if inj.mesh.hopLimit = 0 then some (relayInjectedEncrypted cfg inj bytes)
      else some (sendMeshPb cfg inj)
    | _ => if inj.mesh.hopLimit = 0 then none else some (sendMeshPb cfg inj)

/-- `handle_inbound_impl` for a downlink message: no wire, so nothing to relay. -/
def injectDeliver (inj : Injection) (d : Data) : List Action :=
  if inj.converts && inboundPasses inj.answers (some d) then
    handleDecoded cfg s.relayers inj.answers .lora 0 inj.ms inj.mesh.packet d
  else []

/-- The local half: decode, refuse admin traffic, deliver. -/
def injectLocal (inj : Injection) : Except Errno Unit × List Action :=
  match inj.mesh.payload with
  | .decoded d => (.ok (), injectDeliver cfg s inj d)
  | _ => match meshPbTryDecode cfg inj.keys inj.mesh with
    | .error _ => (.ok (), [])
    -- opaque when it came in: the refusal again, now that it is readable
    | .ok d => if d.portnum = portAdmin then (.error .eacces, [])
      else (.ok (), injectDeliver cfg s inj d)

/-- `meshtastic_inject_downlink_mesh_packet`. -/
def injectDownlink (inj : Injection) : Except Errno Unit × State cfg × List Action :=
  if !inj.initialized then (.error .einval, s, [])
  else if injectIsAdmin inj.mesh.payload then (.error .eacces, s, [])
  else if s.cache.check cfg.ttlMs inj.now inj.mesh.key then (.error .ealready, s, [])
  else
    let s := { s with
      cache := s.cache.add inj.mesh.key (hopBits inj.mesh.hopLimit) 0 0 0 inj.now }
    let entered := [.sighted inj.mesh.key inj.ms, .recorded inj.mesh.key]
    match injectRelay cfg inj with
    | some (.error e) => (.error e, s, entered)
    | relay =>
      let sent := match relay with
        | some (.ok w) => [.transmit w]
        | _ => []
      if inj.mesh.isLocal cfg then
        let (ret, acts) := injectLocal cfg s inj
        (ret, s, entered ++ sent ++ acts)
      else (.ok (), s, entered ++ sent)

end

/-! ### Admin traffic -/

/-- The packet reaches the application, the phone, the admin handler or a module. -/
def Action.delivers : Action → Bool
  | .deliver _ | .admin _ | .routed _ | .dispatch _ _ => true
  | _ => false

/-- A frame goes to a radio. -/
def Action.airs : Action → Bool
  | .relay _ _ | .transmit _ | .attachRelay _ _ _ _ _ => true
  | _ => false

/-- Nothing is delivered and nothing goes to a radio. -/
def Stopped (acts : List Action) : Prop := ∀ a ∈ acts, a.delivers = false ∧ a.airs = false

instance (acts : List Action) : Decidable (Stopped acts) :=
  inferInstanceAs (Decidable (∀ a ∈ acts, _))

/-- The message decodes, with a key of this node, to the admin port. -/
def Injection.readsAdmin (cfg : Config) (inj : Injection) : Prop :=
  ∃ d, meshPbTryDecode cfg inj.keys inj.mesh = .ok d ∧ d.portnum = portAdmin

/-- An encrypted message that is not for this node alone, is new to the node, fits a frame and
is taken by the transmit queue. -/
def Injection.goesOut (cfg : Config) (s : State cfg) (inj : Injection) : Prop :=
  inj.initialized = true ∧ inj.mesh.dest ≠ cfg.nodeId ∧
    s.cache.check cfg.ttlMs inj.now inj.mesh.key = false ∧ inj.queued = true ∧
    ∃ bytes, inj.mesh.payload = .encrypted bytes ∧ bytes.length ≤ payloadMax

section
variable {cfg : Config} {s : State cfg} {inj : Injection}

theorem stopped_entered (k : Key) (ms : Nat) : Stopped [.sighted k ms, .recorded k] := by
  simp [Stopped, Action.delivers, Action.airs]

theorem not_stopped_transmit {acts : List Action} {w : Wire} (h : .transmit w ∈ acts) :
    ¬ Stopped acts :=
  fun hs => Bool.noConfusion (hs _ h).2

theorem injectLocal_admin (hread : inj.readsAdmin cfg)
    (hopen : injectIsAdmin inj.mesh.payload = false) :
    injectLocal cfg s inj = (.error .eacces, []) := by
  obtain ⟨d, hd, hport⟩ := hread
  cases hp : inj.mesh.payload with
  | decoded d' =>
    rw [meshPbTryDecode, hp] at hd
    obtain rfl := Except.ok.inj hd
    rw [hp] at hopen
    simp [injectIsAdmin, hport] at hopen
  | encrypted bytes | unset bytes => simp only [injectLocal, hp, hd, hport, if_true]

/-- The radio gets an encrypted message that is not for this node alone, whatever is in it. -/
theorem injectRelay_encrypted {bytes : Bytes} (hp : inj.mesh.payload = .encrypted bytes)
    (hd : inj.mesh.dest ≠ cfg.nodeId) :
    (inj.queued = true ∧ bytes.length ≤ payloadMax ∧
        ∃ w, injectRelay cfg inj = some (.ok w)) ∨
      ¬ (inj.queued = true ∧ bytes.length ≤ payloadMax) ∧
        ∃ e, injectRelay cfg inj = some (.error e) := by
  rw [injectRelay, if_neg hd]
  simp only [sendMeshPb, hp, relayInjectedEncrypted, sendEncrypted]
  by_cases hlen : payloadMax < bytes.length
  · refine .inr ⟨fun h => absurd h.2 (Nat.not_le.mpr hlen), .einval, ?_⟩
    simp only [hlen, if_true, ite_self]
  cases hq : inj.queued with
  | true =>
    refine .inl ⟨rfl, Nat.le_of_not_lt hlen, ?_⟩
    simp only [hlen, if_false, if_true]
    split <;> exact ⟨_, rfl⟩
  | false =>
    refine .inr ⟨fun h => Bool.noConfusion h.1, .refused, ?_⟩
    simp only [hlen, if_false, Bool.false_eq_true, ite_self]

theorem injectRelay_unset (cfg : Config) {bytes : Bytes}
    (hp : inj.mesh.payload = .unset bytes) :
    injectRelay cfg inj = none ∨ injectRelay cfg inj = some (.error .enotsup) := by
  unfold injectRelay
  rw [hp]
  by_cases hd : inj.mesh.dest = cfg.nodeId
  · exact .inl (if_pos hd)
  rw [if_neg hd]
  dsimp only
  split
  · exact .inl rfl
  · right
    rw [sendMeshPb, hp]

theorem injectDownlink_new (hinit : inj.initialized = true)
    (hopen : injectIsAdmin inj.mesh.payload = false)
    (hdup : s.cache.check cfg.ttlMs inj.now inj.mesh.key = false)
    (hread : inj.readsAdmin cfg) :
    (injectDownlink cfg s inj).2.2 =
      [.sighted inj.mesh.key inj.ms, .recorded inj.mesh.key] ++
        (match injectRelay cfg inj with
        | some (.ok w) => [.transmit w]
        | _ => []) := by
  unfold injectDownlink
  simp only [hinit, hopen, hdup, Bool.not_true, Bool.false_eq_true, if_false]
  rcases hr : injectRelay cfg inj with _ | (e | w)
  · dsimp only
    split
    · rw [injectLocal_admin hread hopen]
      rfl
    · rfl
  · rfl
  · dsimp only
    split
    · rw [injectLocal_admin hread hopen]
      rfl
    · rfl

/-- Admin traffic that this node can read is stopped, unless it is an encrypted message that
goes out to the mesh. -/
theorem downlink_admin_stopped_iff (cfg : Config) (s : State cfg) (inj : Injection)
    (hread : inj.readsAdmin cfg) :
    Stopped (injectDownlink cfg s inj).2.2 ↔ ¬ inj.goesOut cfg s := by
  have hquiet : (injectDownlink cfg s inj).2.2 = [] → ¬ inj.goesOut cfg s →
      (Stopped (injectDownlink cfg s inj).2.2 ↔ ¬ inj.goesOut cfg s) := by
    intro hacts hstays
    rw [hacts]
    exact iff_of_true (by simp [Stopped]) hstays
  by_cases hinit : inj.initialized = true
  swap
  · exact hquiet (by simp [injectDownlink, hinit]) fun h => hinit h.1
  by_cases hopen : injectIsAdmin inj.mesh.payload = true
  · refine hquiet (by simp [injectDownlink, hinit, hopen]) ?_
    rintro ⟨-, -, -, -, bytes, hp, -⟩
    rw [hp] at hopen
    exact Bool.noConfusion hopen
  rw [Bool.not_eq_true] at hopen
  cases hdup : s.cache.check cfg.ttlMs inj.now inj.mesh.key with
  | true =>
    refine hquiet (by simp [injectDownlink, hinit, hopen, hdup]) ?_
    exact fun h => Bool.noConfusion (hdup.symm.trans h.2.2.1)
  | false =>
    rw [injectDownlink_new hinit hopen hdup hread]
    cases hp : inj.mesh.payload with
    | decoded d =>
      -- decoded admin traffic has been refused, and nothing else reads as admin
      obtain ⟨d', hd, hport⟩ := hread
      rw [meshPbTryDecode, hp] at hd
      obtain rfl := Except.ok.inj hd
      rw [hp] at hopen
      simp [injectIsAdmin, hport] at hopen
    | unset bytes =>
      refine iff_of_true ?_ ?_
      · rcases injectRelay_unset cfg hp with h | h <;> rw [h] <;>
          exact stopped_entered _ _
      · rintro ⟨-, -, -, -, bytes', hp', -⟩
        rw [hp] at hp'
        exact Payload.noConfusion hp'
    | encrypted bytes =>
      by_cases hd : inj.mesh.dest = cfg.nodeId
      · have hr : injectRelay cfg inj = none := if_pos hd
        rw [hr]
        exact iff_of_true (stopped_entered _ _) fun h => h.2.1 hd
      rcases injectRelay_encrypted hp hd with ⟨hq, hlen, w, hr⟩ | ⟨hno, e, hr⟩
      · rw [hr]
        refine iff_of_false ?_ (not_not.mpr ⟨hinit, hd, hdup, hq, bytes, hp, hlen⟩)
        exact not_stopped_transmit (List.mem_append_right _ (List.mem_singleton_self _))
      rw [hr]
      refine iff_of_true (stopped_entered _ _) ?_
      rintro ⟨-, -, -, hq, bytes', hp', hlen⟩
      rw [hp] at hp'
      obtain rfl := Payload.encrypted.inj hp'
      exact hno ⟨hq, hlen⟩

end

/-- A toy cipher under which the one byte 1 is admin traffic. -/
def toyKeys : Keyring where
  table := Table.initDefaults ⟨.longFast, true⟩ ⟨[], 0, []⟩
  decryptPki _ _ enc := if enc = [1] then some ⟨portAdmin, 0⟩ else none
  decryptKey _ _ _ enc := if enc = [1] then some ⟨portAdmin, 0⟩ else none

/-- A message of one encrypted byte from node 0x22. -/
def adminMessage (dest channel : UInt32) : Injection where
  mesh := ⟨0x22, dest, 7, channel, 3, 3, false, false, 0, 0, .encrypted [1]⟩
  initialized := true
  ms := 1000
  keys := toyKeys
  answers := plainAnswers
  sendDecoded := none
  allocatedId := 1
  hopLimit := 3
  nextHop := 0
  queued := true
  converts := true

/-- Admin traffic to this node alone, under its public key, is stopped. -/
theorem downlink_admin_stopped_here :
    (adminMessage 0x11 0).readsAdmin gatewayNode ∧
      Stopped (injectDownlink gatewayNode (State.init gatewayNode) (adminMessage 0x11 0)).2.2 := by
  have hread : (adminMessage 0x11 0).readsAdmin gatewayNode := ⟨⟨portAdmin, 0⟩, rfl, rfl⟩
  exact ⟨hread, (downlink_admin_stopped_iff gatewayNode (State.init gatewayNode) _ hread).mpr
    fun h => h.2.1 rfl⟩

/-- Admin traffic to everyone, on the default channel: refused for this node after it has gone
out on the air. -/
theorem downlink_admin_on_air :
    (adminMessage broadcast 8).readsAdmin gatewayNode ∧
      (injectDownlink gatewayNode (State.init gatewayNode) (adminMessage broadcast 8)).1 =
        .error .eacces ∧
      ∃ w, .transmit w ∈
        (injectDownlink gatewayNode (State.init gatewayNode) (adminMessage broadcast 8)).2.2 := by
  refine ⟨⟨⟨portAdmin, 0⟩, ?_, rfl⟩, ?_, ?_⟩
  · decide +kernel
  · decide +kernel
  · refine ⟨⟨broadcast, 0x22, 7, 3, false, true, 3, 8, 0, 0, [1]⟩, ?_⟩
    decide +kernel

end Zephyrtastic.Router
