import Mathlib.Data.List.Nodup
import Zephyrtastic.Lib.Bytes

/-!
# Packet signatures

A node signs the packets it originates, if they are broadcasts or its operator is
licensed, and if the signed form still fits a frame.
-/

namespace Zephyrtastic.Xeddsa

open List Option

def broadcast : UInt32 := 0xffffffff

def signatureLen : Nat := 64

/-- `MESHTASTIC_MAX_PAYLOAD_LEN`, the size of the payload array. -/
def maxPayloadLen : Nat := 233

def hdrLen : Nat := 16

def pktMax : Nat := 255

structure Data where
  portnum : UInt32
  payload : Bytes
  payload_le : payload.length ≤ maxPayloadLen
  wantResponse : Bool
  dest : UInt32
  source : UInt32
  requestId : UInt32
  replyId : UInt32
  emoji : UInt32
  bitfield : Option UInt8
  signature : Bytes
  deriving DecidableEq

abbrev Signature := { sig : Bytes // sig.length = signatureLen }

namespace Data

def unsigned (d : Data) : Data := { d with signature := [] }

def signed (d : Data) (sig : Signature) : Data := { d with signature := sig.val }

/-- The signature that is only measured. -/
def zeroSignature : Signature := ⟨replicate signatureLen 0, length_replicate⟩

theorem signed_ne (d : Data) (sig : Signature) : (d.signed sig).signature ≠ [] := by
  intro hnil
  have hlen := sig.property
  rw [show sig.val = [] from hnil] at hlen
  exact absurd hlen (by decide)

/-- The payload array cut to a shorter size. -/
def cut (d : Data) (n : Nat) : Data :=
  { d with
    payload := d.payload.take n
    payload_le := Nat.le_trans (length_take_le' n d.payload) d.payload_le }

end Data

/-- The message types whose payload a receiver measures in its canonical form. -/
inductive Known where
  | position
  | telemetry
  | user
  deriving DecidableEq, Repr

/-- The generated protobuf code. The size of a message is the length of its encoding. -/
structure Codec where
  /-- A decoded payload. -/
  Inner : Type
  encode : Data → Option Bytes
  decode : Bytes → Option Data
  decode_encode : ∀ d b, encode d = some b → decode b = some d
  decodeInner : Known → Bytes → Option Inner
  encodeInner : Known → Inner → Option Bytes
  inner_le : ∀ k b m b', decodeInner k b = some m → encodeInner k m = some b' →
    b'.length ≤ b.length
  /-- `User.public_key`. -/
  publicKey : Inner → Bytes

/-! ### Sending -/

/-- What a sender knows of itself. -/
structure Sender where
  nodeId : UInt32
  /-- `owner.is_licensed`. -/
  isLicensed : Bool
  configOkToMqtt : Bool
  /-- `meshtastic_pki_sign_bytes`. -/
  signBytes : Bytes → Option Signature

/-- The header of a packet, as far as it is signed. -/
structure Header where
  src : UInt32
  id : UInt32
  dest : UInt32
  deriving DecidableEq, Repr

/-- `meshtastic_xeddsa_build_signing_buffer`; the buffer holds the longest payload. -/
def buildSigningBuffer (h : Header) (d : Data) : Bytes :=
  [0x01] ++ Bytes.putLe32 h.src ++ Bytes.putLe32 h.id ++ Bytes.putLe32 h.dest
    ++ Bytes.putLe32 d.portnum ++ Bytes.putLe32 d.requestId ++ Bytes.putLe32 d.replyId
    ++ Bytes.putLe32 d.emoji ++ Bytes.putLe32 (d.bitfield.getD 0).toUInt32
    ++ [(if d.wantResponse then 0x01 else 0) ||| (if d.bitfield.isSome then 0x02 else 0)]
    ++ d.payload

namespace Codec

variable (c : Codec)

/-- The size of the signed form. -/
def signedSize (d : Data) : Option Nat := (c.encode (d.signed Data.zeroSignature)).map length

/-- The signed form fits a frame. -/
def Fits (d : Data) : Prop := ∃ n, c.signedSize d = some n ∧ hdrLen + n ≤ pktMax

instance (d : Data) : Decidable (c.Fits d) :=
  match h : c.signedSize d with
  | none => .isFalse fun ⟨_, hn, _⟩ => nomatch h.symm.trans hn
  | some n =>
    if hle : hdrLen + n ≤ pktMax then .isTrue ⟨n, h, hle⟩
    else .isFalse fun ⟨_, hm, hm'⟩ => hle (Option.mem_unique h hm ▸ hm')

end Codec

section
variable (c : Codec) (snd : Sender)

/-- `sign_our_packet`, on a packet without a signature. -/
def signOurPacket (h : Header) (d : Data) (bufLen : Nat) : Data :=
  if h.dest ≠ broadcast ∧ !snd.isLicensed then d
  else match c.signedSize d with
    | none => d.unsigned
    | some n =>
      if bufLen < n ∨ pktMax < hdrLen + n then d.unsigned
      else match snd.signBytes (buildSigningBuffer h (d.signed Data.zeroSignature)) with
        | none => d.unsigned
        | some sig => d.signed sig

/-- What `encode_packet_data` reads of a packet that is to be sent. -/
structure MeshPacket where
  header : Header
  viaMqtt : Bool
  decoded : Data
  deriving DecidableEq

inductive Errno where
  | einval
  | enomem
  deriving DecidableEq, Repr

/-- The bitfield of a packet of our own: the consent to MQTT, and `want_response`. -/
def ownBitfield (okToMqtt wantResponse : Bool) : UInt8 :=
  (if okToMqtt then 0x01 else 0) ||| (if wantResponse then 0x02 else 0)

def Data.stamped (d : Data) (okToMqtt : Bool) : Data :=
  { d with bitfield := some (ownBitfield okToMqtt d.wantResponse) }

/-- The Data that `encode_packet_data` encodes. -/
def outgoing (mesh : MeshPacket) (bufLen : Nat) : Data :=
  let src := mesh.header.src
  if src = 0 ∨ src = snd.nodeId then
    let d := mesh.decoded.stamped snd.configOkToMqtt
    if mesh.viaMqtt then d
    else signOurPacket c snd { mesh.header with src := if src = 0 then snd.nodeId else src }
      d.unsigned bufLen
  else mesh.decoded

def encodePacketData (mesh : MeshPacket) (bufLen : Nat) : Except Errno Bytes :=
  if maxPayloadLen < mesh.decoded.payload.length then .error .einval
  else match c.encode (outgoing c snd mesh bufLen) with
    | none => .error .enomem
    | some b => if bufLen < b.length then .error .enomem else .ok b

end

/-! ### Receiving -/

inductive Policy where
  | compatible
  | balanced
  | strict
  deriving DecidableEq, Repr

/-- What a receiver knows of itself and of the other nodes. -/
structure Receiver where
  policy : Policy
  isLicensed : Bool
  isXeddsaSigner : UInt32 → Bool
  copyPubkey : UInt32 → Option Bytes
  /-- `meshtastic_xeddsa_verify`. -/
  verify : Bytes → Bytes → Bytes → Bool
  crc32 : Bytes → UInt32

/-- What becomes of a packet: the counter it goes to. -/
inductive Verdict where
  /-- PKC, which is not counted. -/
  | pkc
  | unsignedDrop
  | balancedDrop
  | unsignedOk
  | malformed
  | failed
  | verified
  | bootstrapped
  /-- A NodeInfo that does not vouch for itself, which is not counted. -/
  | badFirstContact
  | noKey (accepted : Bool)
  deriving DecidableEq, Repr

def Verdict.accepts : Verdict → Bool
  | .pkc | .unsignedOk | .verified | .bootstrapped => true
  | .noKey accepted => accepted
  | .unsignedDrop | .balancedDrop | .malformed | .failed | .badFirstContact => false

def portPosition : UInt32 := 3

def portNodeInfo : UInt32 := 4

def portTelemetry : UInt32 := 67

/-- The switch of `signed_form_would_fit`. -/
def known (portnum : UInt32) : Option Known :=
  if portnum = portPosition then some .position
  else if portnum = portTelemetry then some .telemetry
  else if portnum = portNodeInfo then some .user
  else none

section
variable (c : Codec)

/-- The payload decoded as what its port says and measured again. -/
def canonicalPayload (d : Data) : Option Nat := do
  let k ← known d.portnum
  let m ← c.decodeInner k d.payload
  let b ← c.encodeInner k m
  return b.length

/-- The Data that a receiver measures: the payload array cut to its canonical size. -/
def canonical (d : Data) : Data :=
  match canonicalPayload c d with
  | some n => if n ≤ d.payload.length then d.cut n else d
  | none => d

def signedFormWouldFit (d : Data) : Bool := c.Fits (canonical c d)

variable (rcv : Receiver)

/-- `verify_first_contact_nodeinfo`, on a NodeInfo. -/
def verifyFirstContact (h : Header) (d : Data) (sigbuf : Bytes) : Bool :=
  match c.decodeInner .user d.payload with
  | none => false
  | some user =>
    let key := c.publicKey user
    key.length = 32 && rcv.crc32 key = h.src && rcv.verify key sigbuf d.signature

/-- The branch of `meshtastic_xeddsa_check_rx_policy` for a packet without a signature. -/
def checkUnsigned (h : Header) (pkiEncrypted : Bool) (d : Option Data) : Verdict :=
  if pkiEncrypted then .pkc
  else if rcv.policy = .strict then .unsignedDrop
  else match d with
    -- the flat fallback has no Data to measure
    | none => .unsignedOk
    | some d =>
      if rcv.policy = .balanced ∧ rcv.isXeddsaSigner h.src
          ∧ (h.dest = broadcast ∨ rcv.isLicensed) ∧ signedFormWouldFit c d
      then .balancedDrop else .unsignedOk

def checkRxPolicy (h : Header) (pkiEncrypted : Bool) : Option Data → Verdict
  | none => checkUnsigned c rcv h pkiEncrypted none
  | some d =>
    if d.signature = [] then checkUnsigned c rcv h pkiEncrypted (some d)
    else if d.signature.length ≠ signatureLen then .malformed
    else
      let sigbuf := buildSigningBuffer h d
      match rcv.copyPubkey h.src with
      | some key => if rcv.verify key sigbuf d.signature then .verified else .failed
      | none =>
        if d.portnum = portNodeInfo then
          if verifyFirstContact c rcv h d sigbuf then .bootstrapped else .badFirstContact
        else .noKey (rcv.policy ≠ .strict)

end

/-! ### The two rules -/

/-- A directed packet of an unlicensed sender to a licensed receiver, with room for the
signature. -/
def LicenceDiffers (c : Codec) (snd : Sender) (rcv : Receiver) (h : Header) (d : Data) : Prop :=
  h.dest ≠ broadcast ∧ snd.isLicensed = false ∧ rcv.isLicensed = true ∧ c.Fits (canonical c d)

/-- A payload longer than its canonical form, and room for the signature beside the canonical
form alone. -/
def Padded (c : Codec) (rcv : Receiver) (h : Header) (d : Data) : Prop :=
  (h.dest = broadcast ∨ rcv.isLicensed = true) ∧ ¬ c.Fits d ∧
    ∃ n, canonicalPayload c d = some n ∧ n < d.payload.length ∧ c.Fits (d.cut n)

section
variable {c : Codec} {snd : Sender} {rcv : Receiver} {h : Header} {d : Data} {bufLen : Nat}

/-- A BALANCED receiver drops the unsigned packet of a signer by its own licence and the
canonical size. -/
theorem checkRxPolicy_balanced (hpolicy : rcv.policy = .balanced)
    (hsigner : rcv.isXeddsaSigner h.src = true) (hd : d.signature = []) :
    (checkRxPolicy c rcv h false (some d)).accepts = true ↔
      ¬ ((h.dest = broadcast ∨ rcv.isLicensed = true) ∧ c.Fits (canonical c d)) := by
  have hfit : signedFormWouldFit c d = true ↔ c.Fits (canonical c d) := decide_eq_true_iff
  rw [checkRxPolicy, if_pos hd, checkUnsigned, if_neg Bool.false_ne_true,
    if_neg (by rw [hpolicy]; decide)]
  by_cases hdrop : (h.dest = broadcast ∨ rcv.isLicensed = true) ∧ c.Fits (canonical c d)
  · rw [if_pos ⟨hpolicy, hsigner, hdrop.1, hfit.mpr hdrop.2⟩]
    exact iff_of_false Bool.false_ne_true (not_not.mpr hdrop)
  · rw [if_neg fun hc => hdrop ⟨hc.2.2.1, hfit.mp hc.2.2.2⟩]
    exact iff_of_true rfl hdrop

theorem canonicalPayload_le {n : Nat} (hn : canonicalPayload c d = some n) :
    n ≤ d.payload.length := by
  simp only [canonicalPayload, bind_eq_bind, bind_eq_some_iff, Option.pure_def,
    some.injEq] at hn
  obtain ⟨k, -, m, hm, b, hb, rfl⟩ := hn
  exact c.inner_le k _ m b hm hb

/-- If the measured form fits and the form as it is does not, then the payload is padded. -/
theorem padded_of_fits (hraw : ¬ c.Fits d) (hfits : c.Fits (canonical c d)) :
    ∃ n, canonicalPayload c d = some n ∧ n < d.payload.length ∧ c.Fits (d.cut n) := by
  unfold canonical at hfits
  cases hn : canonicalPayload c d with
  | none =>
    rw [hn] at hfits
    exact absurd hfits hraw
  | some n =>
    have hle := canonicalPayload_le hn
    rw [hn] at hfits
    dsimp only at hfits
    rw [if_pos hle] at hfits
    refine ⟨n, rfl, Nat.lt_of_le_of_ne hle ?_, hfits⟩
    rintro rfl
    have hcut : d.cut d.payload.length = d := by
      simp [Data.cut]
    exact hraw (hcut ▸ hfits)

theorem canonical_of_some {n : Nat} (hn : canonicalPayload c d = some n) :
    canonical c d = d.cut n := by
  rw [canonical, hn]
  exact if_pos (canonicalPayload_le hn)

section
variable (hkey : ∀ msg, (snd.signBytes msg).isSome = true) (hbuf : pktMax ≤ hdrLen + bufLen)
  (hd : d.signature = [])
include hkey hbuf hd

/-- With a key and a buffer of a frame's size, a packet is left unsigned for two reasons only:
the sender does not sign it, or the signed form does not fit. -/
theorem signOurPacket_unsigned :
    (signOurPacket c snd h d bufLen).signature = [] ↔
      (h.dest ≠ broadcast ∧ snd.isLicensed = false) ∨ ¬ c.Fits d := by
  unfold signOurPacket
  by_cases hrule : h.dest ≠ broadcast ∧ (!snd.isLicensed) = true
  · rw [if_pos hrule]
    exact iff_of_true hd (.inl (by simpa using hrule))
  rw [if_neg hrule]
  have hrule' : ¬ (h.dest ≠ broadcast ∧ snd.isLicensed = false) := by simpa using hrule
  rw [or_iff_right hrule']
  cases hs : c.signedSize d with
  | none => exact iff_of_true rfl fun ⟨n, hn, _⟩ => nomatch hs.symm.trans hn
  | some n =>
    dsimp only
    by_cases hfit : hdrLen + n ≤ pktMax
    · obtain ⟨sig, hsig⟩ := isSome_iff_exists.mp (hkey _)
      rw [if_neg (by omega), hsig]
      exact iff_of_false (d.signed_ne sig) (not_not.mpr ⟨n, hs, hfit⟩)
    rw [if_pos (.inr (Nat.lt_of_not_le hfit))]
    refine iff_of_true rfl ?_
    rintro ⟨m, hm, hle⟩
    obtain rfl := mem_unique hs hm
    exact hfit hle

theorem accepted_iff (hunsigned : (signOurPacket c snd h d bufLen).signature = [])
    (hpolicy : rcv.policy = .balanced) (hsigner : rcv.isXeddsaSigner h.src = true) :
    (checkRxPolicy c rcv h false (some d)).accepts = true ↔
      ¬ LicenceDiffers c snd rcv h d ∧ ¬ Padded c rcv h d := by
  rw [checkRxPolicy_balanced hpolicy hsigner hd]
  have hreason := (signOurPacket_unsigned hkey hbuf hd).mp hunsigned
  constructor
  · intro haccepts
    refine ⟨?_, ?_⟩
    · rintro ⟨-, -, hlicensed, hfits⟩
      exact haccepts ⟨.inr hlicensed, hfits⟩
    · rintro ⟨hside, -, n, hn, -, hfits⟩
      exact haccepts ⟨hside, canonical_of_some hn ▸ hfits⟩
  · rintro ⟨hlicence, hpadded⟩ ⟨hside, hfits⟩
    rcases hreason with ⟨hdest, hsender⟩ | hraw
    · exact hlicence ⟨hdest, hsender, hside.resolve_left hdest, hfits⟩
    · exact hpadded ⟨hside, hraw, padded_of_fits hraw hfits⟩

end

theorem signOurPacket_cases (c : Codec) (snd : Sender) (h : Header) (bufLen : Nat)
    (hd : d.signature = []) :
    signOurPacket c snd h d bufLen = d ∨
      ∃ sig, snd.signBytes (buildSigningBuffer h d) = some sig ∧
        signOurPacket c snd h d bufLen = d.signed sig := by
  have hsame : d.unsigned = d := by
    cases d
    cases hd
    rfl
  unfold signOurPacket
  split
  · exact .inl rfl
  split
  · exact .inl hsame
  split
  · exact .inl hsame
  split
  · exact .inl hsame
  · rename_i sig hsig
    exact .inr ⟨sig, hsig, rfl⟩

/-- A receiver with the sender's key verifies what the sender has signed. -/
theorem signed_verified {key : Bytes}
    (hverify : ∀ msg (sig : Signature), snd.signBytes msg = some sig →
      rcv.verify key msg sig.val = true)
    (hpub : rcv.copyPubkey h.src = some key) (hd : d.signature = [])
    (hsigned : (signOurPacket c snd h d bufLen).signature ≠ []) (pki : Bool) :
    checkRxPolicy c rcv h pki (some (signOurPacket c snd h d bufLen)) = .verified := by
  rcases signOurPacket_cases c snd h bufLen hd with heq | ⟨sig, hsig, heq⟩
  · rw [heq] at hsigned
    exact absurd hd hsigned
  rw [heq] at hsigned ⊢
  -- the signed bytes do not depend on the signature field
  have hbuffer : buildSigningBuffer h (d.signed sig) = buildSigningBuffer h d := rfl
  have hlen : (d.signed sig).signature.length = signatureLen := sig.property
  rw [checkRxPolicy, if_neg hsigned, if_neg (not_not.mpr hlen)]
  rw [hpub]
  exact if_pos (hverify _ sig hsig)

end

/-- What the sender leaves unsigned, a BALANCED receiver that knows it as a signer accepts, but
for a difference of licences and for padding. -/
theorem unsigned_accepted_iff (c : Codec) (snd : Sender) (rcv : Receiver) (h : Header) (d : Data)
    (bufLen : Nat) (hkey : ∀ msg, (snd.signBytes msg).isSome = true)
    (hbuf : pktMax ≤ hdrLen + bufLen)
    (hunsigned : (signOurPacket c snd h d.unsigned bufLen).signature = [])
    (hpolicy : rcv.policy = .balanced) (hsigner : rcv.isXeddsaSigner h.src = true) :
    (checkRxPolicy c rcv h false (some d.unsigned)).accepts = true ↔
      ¬ LicenceDiffers c snd rcv h d.unsigned ∧ ¬ Padded c rcv h d.unsigned :=
  accepted_iff hkey hbuf rfl hunsigned hpolicy hsigner

/-- A packet of our own, from `encode_packet_data` to the receiver's gate: what comes out of
the frame without a signature is what the sender did not sign. -/
theorem sent_unsigned_accepted_iff {c : Codec} {snd : Sender} {rcv : Receiver}
    {mesh : MeshPacket} {bufLen : Nat} {b : Bytes}
    (hkey : ∀ msg, (snd.signBytes msg).isSome = true) (hbuf : pktMax ≤ hdrLen + bufLen)
    (hours : mesh.header.src = snd.nodeId) (hmqtt : mesh.viaMqtt = false)
    (hsent : encodePacketData c snd mesh bufLen = .ok b)
    (hpolicy : rcv.policy = .balanced) (hsigner : rcv.isXeddsaSigner snd.nodeId = true) :
    ∃ d, c.decode b = some d ∧ (d.signature = [] →
      ((checkRxPolicy c rcv mesh.header false (some d)).accepts = true ↔
        ¬ LicenceDiffers c snd rcv mesh.header d ∧ ¬ Padded c rcv mesh.header d)) := by
  have hencode : c.encode (outgoing c snd mesh bufLen) = some b := by
    unfold encodePacketData at hsent
    split at hsent
    · exact nomatch hsent
    split at hsent
    · exact nomatch hsent
    rename_i b' hb
    split at hsent
    · exact nomatch hsent
    · rw [hb, Except.ok.inj hsent]
  refine ⟨_, c.decode_encode _ _ hencode, ?_⟩
  have hheader : ({ mesh.header with
      src := if mesh.header.src = 0 then snd.nodeId else mesh.header.src } : Header) =
      mesh.header := by
    have hsrc : (if mesh.header.src = 0 then snd.nodeId else mesh.header.src) =
        mesh.header.src := by
      rw [hours, ite_self]
    rw [hsrc]
  have hout : outgoing c snd mesh bufLen = signOurPacket c snd mesh.header
      (mesh.decoded.stamped snd.configOkToMqtt).unsigned bufLen := by
    rw [outgoing, if_pos (.inr hours), if_neg (by rw [hmqtt]; decide), hheader]
  rw [hout]
  intro hunsigned
  have hclear : (mesh.decoded.stamped snd.configOkToMqtt).unsigned.signature = [] := rfl
  rcases signOurPacket_cases c snd mesh.header bufLen hclear with heq | ⟨sig, -, heq⟩
  · rw [heq]
    exact accepted_iff hkey hbuf hclear hunsigned hpolicy (hours ▸ hsigner)
  · rw [heq] at hunsigned
    exact absurd hunsigned (Data.signed_ne _ sig)

/-- A toy codec that knows a few messages: an encoding is as many zeros as the table says, and
the canonical form of a payload is its first 20 bytes. -/
def toyCodec (sizes : List (Data × Nat)) (distinct : (sizes.map Prod.snd).Nodup) : Codec where
  Inner := Bytes
  encode d := (sizes.find? fun e => e.1 = d).map fun e => replicate e.2 0
  decode b := (sizes.find? fun e => e.2 = b.length).map Prod.fst
  decode_encode d b hb := by
    obtain ⟨e, he, rfl⟩ := map_eq_some_iff.mp hb
    obtain rfl : e.1 = d := by simpa using find?_some he
    have hmem := mem_of_find?_eq_some he
    rw [length_replicate]
    cases hf : sizes.find? fun e' => e'.2 = e.2 with
    | none => simpa using find?_eq_none.mp hf e hmem
    | some e' =>
      have hsize : e'.2 = e.2 := by simpa using find?_some hf
      have hsame := inj_on_of_nodup_map distinct (mem_of_find?_eq_some hf) hmem hsize
      rw [hsame]
      rfl
  decodeInner _ b := some (b.take 20)
  encodeInner _ m := some m
  inner_le _ b m b' hm hb := by
    obtain rfl := some.inj hm
    obtain rfl := some.inj hb
    exact length_take_le' 20 b
  publicKey _ := []

/-- A packet with a payload of zeros. -/
def blankData (portnum : UInt32) (n : Nat) (h : n ≤ maxPayloadLen) : Data :=
  ⟨portnum, replicate n 0, by rwa [length_replicate], false, 0, 0, 0, 0, 0, none, []⟩

/-- A routing message of 4 bytes, and telemetry of 200 bytes. -/
def routingData : Data := blankData 5 4 (by decide)

def telemetryData : Data := blankData portTelemetry 200 (by decide)

/-- The two messages signed, and the telemetry in its canonical form signed. -/
def toySizes : List (Data × Nat) :=
  [(routingData.signed Data.zeroSignature, 74), (telemetryData.signed Data.zeroSignature, 271),
    ((telemetryData.cut 20).signed Data.zeroSignature, 90)]

def toy : Codec := toyCodec toySizes (by decide)

def toySender (isLicensed : Bool) : Sender :=
  ⟨0x22, isLicensed, false, fun _ => some Data.zeroSignature⟩

def toyReceiver (isLicensed : Bool) : Receiver :=
  ⟨.balanced, isLicensed, fun _ => true, fun _ => none, fun _ _ _ => true, fun _ => 0⟩

/-- A routing message to one node, neither of the two licensed. -/
theorem unsigned_accepted_unlicensed :
    (signOurPacket toy (toySender false) ⟨0x22, 7, 0x11⟩ routingData 239).signature = [] ∧
      (checkRxPolicy toy (toyReceiver false) ⟨0x22, 7, 0x11⟩ false (some routingData)).accepts =
        true := by
  have hunsigned :
      (signOurPacket toy (toySender false) ⟨0x22, 7, 0x11⟩ routingData 239).signature = [] := by
    decide +kernel
  refine ⟨hunsigned, (unsigned_accepted_iff toy (toySender false) (toyReceiver false)
    ⟨0x22, 7, 0x11⟩ routingData 239 (fun _ => rfl) (by decide) hunsigned rfl rfl).mpr ⟨?_, ?_⟩⟩
  · rintro ⟨-, -, hlicensed, -⟩
    exact Bool.noConfusion hlicensed
  · rintro ⟨hdest | hlicensed, -⟩
    · exact absurd hdest (by decide)
    · exact Bool.noConfusion hlicensed

/-- The same message to a licensed receiver is dropped; and so is broadcast telemetry that does
not fit signed, but would without its padding. -/
theorem honest_unsigned_dropped :
    ((signOurPacket toy (toySender false) ⟨0x22, 7, 0x11⟩ routingData 239).signature = [] ∧
      checkRxPolicy toy (toyReceiver true) ⟨0x22, 7, 0x11⟩ false (some routingData) =
        .balancedDrop) ∧
    (signOurPacket toy (toySender false) ⟨0x22, 8, broadcast⟩ telemetryData 239).signature = [] ∧
      checkRxPolicy toy (toyReceiver false) ⟨0x22, 8, broadcast⟩ false (some telemetryData) =
        .balancedDrop := by
  decide +kernel

/-- A broadcast to a receiver that has the key. -/
theorem signed_verified_broadcast :
    checkRxPolicy toy { toyReceiver false with copyPubkey := fun _ => some [] } ⟨0x22, 7, broadcast⟩
      false (some (signOurPacket toy (toySender false) ⟨0x22, 7, broadcast⟩ routingData 239)) =
        .verified :=
  signed_verified (fun _ _ _ => rfl) rfl rfl (by decide +kernel) false

/-- A routing message that is encoded without a signature. -/
theorem sent_unsigned_routing :
    let c := toyCodec [(routingData.stamped false, 10)] (by decide)
    let rcv := toyReceiver true
    let h : Header := ⟨0x22, 7, 0x11⟩
    ∃ d, c.decode (replicate 10 0) = some d ∧ (d.signature = [] →
      ((checkRxPolicy c rcv h false (some d)).accepts = true ↔
        ¬ LicenceDiffers c (toySender false) rcv h d ∧ ¬ Padded c rcv h d)) :=
  @sent_unsigned_accepted_iff _ _ _ ⟨⟨0x22, 7, 0x11⟩, false, routingData⟩ 239 _ (fun _ => rfl)
    (by decide) rfl rfl (by decide +kernel) rfl rfl

end Zephyrtastic.Xeddsa
