import Zephyrtastic.Pki.Open
import Zephyrtastic.Router.Store

/-!
# Decoding a received frame

`meshtastic_try_decode_wire_packet_on` takes a frame with the PKC marker that is
addressed to this node for a direct message first, and every other frame, or one
that no key opens, for a channel's.
-/

namespace Zephyrtastic.Router

open Pki (Content)

/-- What the router reads of a decoded payload. -/
def dataOf (c : Content) : Data := ⟨c.portnum, c.requestId⟩

/-- A frame from one of the radios or the peer link, with what the decoder asks. -/
structure Frame where
  rx : Rx
  /-- `meshtastic_decode_known_only`. -/
  knownOnly : Bool
  /-- `try_decrypt_wire_hash`: what the channels make of the payload. -/
  channel : Option Content
  clock : Pki.Clock

/-- What the decoder leaves in the packet. -/
structure Reading where
  content : Option Content
  pkiEncrypted : Bool
  reason : Option DecodeFail
  deriving DecidableEq, Repr

def Reading.decode (r : Reading) : Decode :=
  match r.content with
  | some c => .decoded (dataOf c)
  | none => .undecoded r.reason

/-- The channel loop, after the direct message: the reason is for the sender of a frame that
nothing opens. -/
def channelReading (channel : Option Content) (reason : DecodeFail) : Reading :=
  match channel with
  | some c => ⟨some c, false, none⟩
  | none => ⟨none, false, some reason⟩

section
variable (cfg : Config) (pc : Pki.Config)

/-- The PKC marker on a frame to this node, if the node has a key pair. -/
def pkcMarked (w : Wire) : Bool :=
  w.channel = 0 && w.dest = cfg.nodeId && w.dest ≠ broadcast && pc.cipher.haveKey

def tryDecodeWirePacketOn (k : Pki.State) (f : Frame) (w : Wire) : Reading × Pki.State :=
  if !f.knownOnly then (⟨none, false, none⟩, k)
  else if pkcMarked cfg pc w then
    match k.tryDecryptPki pc f.clock w.src w.id w.payload with
    | (.ok c, k) => (⟨some c, true, none⟩, k)
    | (.error e, k) =>
      (channelReading f.channel (if e = .enoent then .pkiUnknownPubkey else .noChannel), k)
  else (channelReading f.channel .noChannel, k)

/-- The frame with the decoder's answer in its place. -/
def Frame.reads (f : Frame) (r : Reading) : Rx :=
  { f.rx with answers := { f.rx.answers with decode := r.decode } }

/-- The frame gets as far as the decoder. -/
def decodes (s : State cfg) (rx : Rx) (w : Wire) : Bool :=
  !turnedAway cfg rx w && w.src ≠ cfg.nodeId
    && (s.cache.checkHops cfg.ttlMs rx.now w.key w.hopLimit true).1 = .new

/-- A packet as `meshtastic_dispatch_modules` gets it. -/
structure Mail where
  packet : Packet
  data : Data
  pkiEncrypted : Bool
  deriving DecidableEq, Repr

/-- What the modules get of a frame. -/
def Frame.mail (s : State cfg) (k : Pki.State) (f : Frame) : Option Mail :=
  match f.rx.wire with
  | none => none
  | some w =>
    let r := (tryDecodeWirePacketOn cfg pc k f w).1
    if .dispatch w.key f.rx.ms ∈ (processRx cfg s (f.reads r)).2
    then r.content.map fun c => ⟨w.packet, dataOf c, r.pkiEncrypted⟩
    else none

end

section
variable {cfg : Config} {pc : Pki.Config} {k : Pki.State} {f : Frame} {w : Wire}

theorem channelReading_pki (channel : Option Content) (reason : DecodeFail) :
    (channelReading channel reason).pkiEncrypted = false := by
  cases channel <;> rfl

theorem reading_opened (h : (tryDecodeWirePacketOn cfg pc k f w).1.pkiEncrypted = true) :
    ∃ c, (k.tryDecryptPki pc f.clock w.src w.id w.payload).1 = .ok c ∧
      tryDecodeWirePacketOn cfg pc k f w =
        (⟨some c, true, none⟩, (k.tryDecryptPki pc f.clock w.src w.id w.payload).2) := by
  unfold tryDecodeWirePacketOn at h ⊢
  by_cases hknown : (!f.knownOnly) = true
  · rw [if_pos hknown] at h
    cases h
  rw [if_neg hknown] at h ⊢
  by_cases hmarked : pkcMarked cfg pc w = true
  · rw [if_pos hmarked] at h ⊢
    rcases hopen : k.tryDecryptPki pc f.clock w.src w.id w.payload with ⟨r, t⟩
    rw [hopen] at h
    cases r with
    | error e =>
      rw [channelReading_pki] at h
      cases h
    | ok c => exact ⟨c, rfl, rfl⟩
  · rw [if_neg hmarked, channelReading_pki] at h
    cases h

theorem reading_pki (h : (tryDecodeWirePacketOn cfg pc k f w).1.pkiEncrypted = true) :
    ∃ c, (tryDecodeWirePacketOn cfg pc k f w).1.content = some c ∧
      Pki.Opened pc f.clock k w.src w.id w.payload c (tryDecodeWirePacketOn cfg pc k f w).2 := by
  obtain ⟨c, hok, heq⟩ := reading_opened h
  rw [heq]
  exact ⟨c, rfl, Pki.tryDecryptPki_ok hok⟩

theorem reading_db (cfg : Config) (pc : Pki.Config) (k : Pki.State) (f : Frame) (w : Wire) :
    (tryDecodeWirePacketOn cfg pc k f w).2.db = k.db ∨
      ∃ key, (tryDecodeWirePacketOn cfg pc k f w).2.db =
        k.db.after (k.db.commitAdminPubkey pc.db f.clock.env w.src key) := by
  unfold tryDecodeWirePacketOn
  split
  · exact .inl rfl
  split
  · have hdb := Pki.tryDecryptPki_db pc k f.clock w.src w.id w.payload
    rcases hopen : k.tryDecryptPki pc f.clock w.src w.id w.payload with ⟨r, t⟩
    rw [hopen] at hdb
    cases r <;> exact hdb
  · exact .inl rfl

theorem mail_some {s : State cfg} {m : Mail} (h : f.mail cfg pc s k = some m) :
    ∃ w c, f.rx.wire = some w ∧ (tryDecodeWirePacketOn cfg pc k f w).1.content = some c ∧
      m = ⟨w.packet, dataOf c, (tryDecodeWirePacketOn cfg pc k f w).1.pkiEncrypted⟩ := by
  unfold Frame.mail at h
  cases hw : f.rx.wire with
  | none =>
    rw [hw] at h
    cases h
  | some w =>
    rw [hw] at h
    dsimp only at h
    split at h
    · obtain ⟨c, hc, hm⟩ := Option.map_eq_some_iff.mp h
      exact ⟨w, c, rfl, hc, hm.symm⟩
    · cases h

end

/-! ### Who gets a packet -/

/-- A packet is handed to the phone, or to the admin handler. -/
def Action.handed : Action → Bool
  | .deliver _ | .admin _ => true
  | _ => false

theorem Action.inbound_of_handed {a : Action} (h : a.handed = true) : a.inbound = true := by
  cases a <;> first | rfl | cases h

section
variable {cfg : Config} {s : State cfg} {rx : Rx} {w : Wire} {a : Action}

theorem handed_handleDecoded {log : RelayerLog} {an : Answers} {bearer : Bearer}
    {attach : UInt8} {ms : Nat} {p : Packet} {d : Data} (hh : a.handed = true)
    (ha : a ∈ handleDecoded cfg log an bearer attach ms p d) : a ∈ deliverDecoded cfg an p d := by
  have hlearn : a ∉ learnNextHop cfg log an p d := by
    intro h
    unfold learnNextHop at h
    split_ifs at h <;> simp at h
    rw [h] at hh
    cases hh
  unfold handleDecoded at ha
  cases a <;> cases hh
  all_goals
    split_ifs at ha <;> simpa [hlearn] using ha

theorem handed_processRx (hw : rx.wire = some w) (hh : a.handed = true)
    (ha : a ∈ (processRx cfg s rx).2) :
    decodes cfg s rx w = true ∧ ∃ d, rx.answers.decode = .decoded d ∧
      inboundPasses rx.answers (some d) = true ∧ a ∈ deliverDecoded cfg rx.answers w.packet d := by
  obtain ⟨⟨hin, hown, hnew⟩, d, hd, hpass, hmem⟩ :=
    (mem_processRx (Action.inbound_of_handed hh) s hw).mp ha
  exact ⟨by simp [decodes, hin, hown, hnew], d, hd, hpass, handed_handleDecoded hh hmem⟩

end

end Zephyrtastic.Router
