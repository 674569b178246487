import Zephyrtastic.Router.Decode
import Zephyrtastic.Router.Downlink

/-!
# Where `pki_encrypted` comes from

The modules take `pki_encrypted` for the proof that this node opened the packet
with a key it holds for the sender. For a received frame the flag starts cleared
and only the decoder sets it.
-/

namespace Zephyrtastic.Router

/-- A message from the broker: what `meshtastic_mqtt_core_downlink` asks about it, and the
injection that comes of it. -/
structure Envelope where
  /-- The injection, with the packet as the envelope has it. -/
  inj : Injection
  /-- The envelope decodes and has its channel, its gateway and its packet. -/
  complete : Bool
  /-- `meshtastic_channels_matches_mqtt_name`. -/
  channelMatches : Bool
  /-- `meshtastic_channels_downlink_enabled` of the primary. -/
  downlinkEnabled : Bool
  /-- The gateway is this node. -/
  ownGateway : Bool
  encryptionEnabled : Bool
  clock : Pki.Clock

def Payload.isDecoded : Payload → Bool
  | .decoded _ => true
  | _ => false

section
variable (cfg : Config) (pc : Pki.Config)

/-- The gates of `meshtastic_mqtt_core_downlink`. -/
def Envelope.accepted (e : Envelope) : Bool :=
  e.complete && e.channelMatches && e.downlinkEnabled && !e.ownGateway
    && e.inj.mesh.src ≠ cfg.nodeId && !(e.encryptionEnabled && e.inj.mesh.payload.isDecoded)

/-- `try_decrypt_pki` for a message. -/
def openMessage (k : Pki.State) (clock : Pki.Clock) (src id : UInt32) (enc : Bytes) : Option Data :=
  match (k.tryDecryptPki pc clock src id enc).1 with
  | .ok c => some (dataOf c)
  | .error _ => none

/-- The packet that `meshtastic_mqtt_core_downlink` injects: a decoded one goes to the primary
channel. -/
def Envelope.injection (k : Pki.State) (e : Envelope) : Injection :=
  let primary := UInt32.ofNat e.inj.keys.table.primary
  { e.inj with
    mesh := { e.inj.mesh with
      channel := if e.inj.mesh.payload.isDecoded then primary else e.inj.mesh.channel }
    keys := { e.inj.keys with decryptPki := openMessage pc k e.clock } }

/-- The message opens as a direct message to this node. -/
def opensPki (kr : Keyring) (m : MeshPacket) (enc : Bytes) : Bool :=
  UInt8.ofNat m.channel.toNat = 0 && m.dest = cfg.nodeId && m.dest ≠ broadcast
    && (kr.decryptPki m.src m.id enc).isSome

/-- `pki_encrypted` of the message after `meshtastic_mesh_pb_try_decode`. -/
def pkiEncryptedAfter (kr : Keyring) (m : MeshPacket) : Bool :=
  match m.ciphertext with
  | .ok enc => if opensPki cfg kr m enc then true else m.pkiEncrypted
  | .error _ => m.pkiEncrypted

/-- What the modules get of a message from the broker. -/
def Envelope.mail (s : State cfg) (k : Pki.State) (e : Envelope) : Option Mail :=
  let inj := e.injection pc k
  if e.accepted cfg ∧ .dispatch inj.mesh.key inj.ms ∈ (injectDownlink cfg s inj).2.2 then
    match meshPbTryDecode cfg inj.keys inj.mesh with
    | .ok d => some ⟨inj.mesh.packet, d, pkiEncryptedAfter cfg inj.keys inj.mesh⟩
    | .error _ => none
  else none

/-- A packet on its way in. -/
inductive Ingress where
  | frame (f : Frame)
  | downlink (e : Envelope)

def Ingress.mail (s : State cfg) (k : Pki.State) : Ingress → Option Mail
  | .frame f => f.mail cfg pc s k
  | .downlink e => e.mail cfg pc s k

end

/-- The ciphertext of the packet, if it has one. -/
def Ingress.ciphertext : Ingress → Option Bytes
  | .frame f => f.rx.wire.map (·.payload)
  | .downlink e => match e.inj.mesh.ciphertext with
    | .ok enc => some enc
    | .error _ => none

/-- The packet comes without the flag: a frame has none, a message's is clear. -/
def Ingress.unmarked : Ingress → Prop
  | .frame _ => True
  | .downlink e => e.inj.mesh.pkiEncrypted = false

/-- This node opened the ciphertext, under the key stored or pending for the sender or under an
admin key. -/
def Authenticated (pc : Pki.Config) (k : Pki.State) (sender id : UInt32) (enc : Bytes) : Prop :=
  ∃ key plain, (k.peerPub sender = some key ∨ key ∈ pc.adminKeys) ∧
    pc.cipher.decryptWith key sender id enc = .ok plain

section
variable {cfg : Config} {pc : Pki.Config} {k t : Pki.State} {clock : Pki.Clock}
  {sender id : UInt32} {enc : Bytes}

theorem authenticated_of_opened {c : Pki.Content}
    (h : Pki.Opened pc clock k sender id enc c t) : Authenticated pc k sender id enc := by
  cases h with
  | peer key hkey h =>
    obtain ⟨plain, hopen, -⟩ := h.opened
    exact ⟨key, plain, .inl hkey, hopen⟩
  | admin key hkey h =>
    obtain ⟨plain, hopen, -⟩ := h.opened
    exact ⟨key, plain, .inr hkey, hopen⟩

theorem authenticated_of_openMessage (clock : Pki.Clock)
    (h : (openMessage pc k clock sender id enc).isSome = true) :
    Authenticated pc k sender id enc := by
  unfold openMessage at h
  split at h
  · next c hc => exact authenticated_of_opened (Pki.tryDecryptPki_ok hc)
  · cases h

variable (cfg pc k) in
/-- The decoder of this node has opened the packet as a direct message. -/
def Ingress.opens : Ingress → Prop
  | .frame f => ∃ w, f.rx.wire = some w ∧ (tryDecodeWirePacketOn cfg pc k f w).1.pkiEncrypted = true
  | .downlink e => ∃ enc, e.inj.mesh.ciphertext = .ok enc ∧
      opensPki cfg (e.injection pc k).keys (e.injection pc k).mesh enc = true

theorem authenticated_of_opens {e : Envelope} (h : (Ingress.downlink e).opens cfg pc k) :
    ∃ enc, (Ingress.downlink e).ciphertext = some enc ∧
      Authenticated pc k e.inj.mesh.src e.inj.mesh.id enc := by
  obtain ⟨enc, henc, hopens⟩ := h
  refine ⟨enc, by rw [Ingress.ciphertext, henc], authenticated_of_openMessage e.clock ?_⟩
  exact (Bool.and_eq_true_iff.mp hopens).2

/-- After `mesh_pb_try_decode` a message has the flag where it was opened and where it came with
it. -/
theorem pkiEncryptedAfter_iff {e : Envelope} :
    pkiEncryptedAfter cfg (e.injection pc k).keys (e.injection pc k).mesh = true ↔
      (Ingress.downlink e).opens cfg pc k ∨ e.inj.mesh.pkiEncrypted = true := by
  have hmesh : (e.injection pc k).mesh.ciphertext = e.inj.mesh.ciphertext := rfl
  have hflag : (e.injection pc k).mesh.pkiEncrypted = e.inj.mesh.pkiEncrypted := rfl
  unfold pkiEncryptedAfter Ingress.opens
  rw [hmesh, hflag]
  cases henc : e.inj.mesh.ciphertext with
  | error err => simp [henc]
  | ok enc =>
    by_cases h : opensPki cfg (e.injection pc k).keys (e.injection pc k).mesh enc = true <;>
      simp [henc, h]

theorem mail_downlink {s : State cfg} {e : Envelope} {m : Mail}
    (h : e.mail cfg pc s k = some m) : m.packet = (e.injection pc k).mesh.packet ∧
      m.pkiEncrypted = pkiEncryptedAfter cfg (e.injection pc k).keys (e.injection pc k).mesh := by
  unfold Envelope.mail at h
  dsimp only at h
  split at h
  · split at h
    · cases h
      exact ⟨rfl, rfl⟩
    · cases h
  · cases h

/-- **A packet that the modules get with `pki_encrypted` was opened by this node**, under a key
stored or pending for its sender or an admin key, exactly where it came in without the flag, where
the decoder did open it, or where the modules do not get it. -/
theorem pki_flag_authenticated (cfg : Config) (pc : Pki.Config) (s : State cfg) (k : Pki.State)
    (i : Ingress) :
    (∀ m, i.mail cfg pc s k = some m → m.pkiEncrypted = true →
      i.opens cfg pc k ∧
        ∃ enc, i.ciphertext = some enc ∧ Authenticated pc k m.packet.src m.packet.id enc) ↔
      i.unmarked ∨ i.opens cfg pc k ∨ i.mail cfg pc s k = none := by
  cases i with
  | frame f =>
    refine iff_of_true (fun m hm hpki => ?_) (.inl trivial)
    obtain ⟨w, c, hw, hc, rfl⟩ := mail_some hm
    obtain ⟨c', -, hopened⟩ := reading_pki hpki
    refine ⟨⟨w, hw, hpki⟩, w.payload, ?_, authenticated_of_opened hopened⟩
    rw [Ingress.ciphertext, hw]
    rfl
  | downlink e =>
    constructor
    · intro h
      cases hm : (Ingress.downlink e).mail cfg pc s k with
      | none => exact .inr (.inr rfl)
      | some m =>
        by_cases hflag : e.inj.mesh.pkiEncrypted = true
        · refine .inr (.inl (h m hm ?_).1)
          rw [(mail_downlink hm).2, pkiEncryptedAfter_iff]
          exact .inr hflag
        · exact .inl (Bool.eq_false_iff.mpr hflag)
    · intro h m hm hpki
      obtain ⟨hpacket, hafter⟩ := mail_downlink hm
      have hopens : (Ingress.downlink e).opens cfg pc k := by
        rcases h with hclear | hopens | hnone
        · refine (pkiEncryptedAfter_iff.mp (hafter.symm.trans hpki)).resolve_right ?_
          rw [show e.inj.mesh.pkiEncrypted = false from hclear]
          exact Bool.false_ne_true
        · exact hopens
        · rw [hnone] at hm
          cases hm
      exact ⟨hopens, hpacket ▸ authenticated_of_opens hopens⟩

end

/-! ### Small runs -/

/-- A node whose cipher opens everything. -/
def toyPki : Pki.Config := ⟨⟨true, fun _ _ _ enc => some enc, fun _ => none⟩, [], ⟨2, 0x11⟩⟩

def toyClock : Pki.Clock := ⟨0, NodeDb.toyEnv 0⟩

/-- A message from the broker to this node, on channel hash 8 if it is encrypted. -/
def brokerMessage (pkiEncrypted : Bool) (channel : UInt32) (payload : Payload) : Envelope where
  inj :=
    { adminMessage 0x11 0 with
      mesh := ⟨0x22, 0x11, 9, channel, 3, 3, false, pkiEncrypted, 0, 0, payload⟩
      keys := { toyKeys with decryptKey := fun _ _ _ _ => some ⟨1, 0⟩ } }
  complete := true
  channelMatches := true
  downlinkEnabled := true
  ownGateway := false
  encryptionEnabled := false
  clock := toyClock

/-- A decoded message with the flag set has no ciphertext at all, and one on a channel does not
open under any key of this node; both reach the modules as authenticated. -/
theorem broker_sets_flag :
    let s := State.init gatewayNode
    let noPeer : Pki.State := ⟨⟨[], [], false, false⟩, none, 8, none⟩
    let plain := Ingress.downlink (brokerMessage true 0 (.decoded ⟨1, 0⟩))
    let channel := Ingress.downlink (brokerMessage true 8 (.encrypted [5]))
    let m : Mail := ⟨⟨0x22, 0x11, 9, true, 0⟩, ⟨1, 0⟩, true⟩
    (plain.mail gatewayNode toyPki s noPeer = some m ∧ plain.ciphertext = none) ∧
      channel.mail gatewayNode toyPki s noPeer = some m ∧
        ∀ enc, ¬ Authenticated toyPki noPeer 0x22 9 enc := by
  refine ⟨⟨by decide +kernel, rfl⟩, by decide +kernel, ?_⟩
  rintro enc ⟨key, plain, hkey | hkey, -⟩
  · cases hkey
  · cases hkey

end Zephyrtastic.Router
