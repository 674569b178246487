import Zephyrtastic.Attachment.Brain
import Zephyrtastic.Attachment.RoundTrip

/-!
# Frames for a head to transmit

The brain wraps a frame in an envelope and hands it to the head's link. The buffer
of the envelope, the sender of a link and its receiver each have a limit.
-/

namespace Zephyrtastic.Attachment

variable (kind : UInt8) (slot : Option HeadInfo) (txSeq : UInt16)

/-- `MESHTASTIC_ATTACHMENT_ENV_MAX`. -/
def envMax : Nat := wireMax + 16

/-- What a transmission fails with: an error of the encoder, or `-EHOSTUNREACH`. -/
inductive TxErrno where
  | codec (e : Errno)
  | hostUnreach
  deriving DecidableEq

/-- `meshtastic_attachment_tx_ready`, of a slot in use. -/
def HeadInfo.txReady (a : HeadInfo) : Bool :=
  a.linkUp && a.status.all fun st => st.flags &&& 0x08 == 0 && st.flags &&& 0x01 != 0

/-- The envelope of a transmission through a slot, with the number it takes from the slot. -/
def txEnvelope (m : TxFrame) : Except TxErrno Bytes :=
  if m.wire = [] ∨ wireMax < m.wire.length then .error (.codec .inval)
  else
    match slot.filter HeadInfo.txReady with
    | none => .error .hostUnreach
    | some a => (encodeTxFrame { m with preset := a.preset, txSeq } envMax).mapError .codec

/-- The envelope of `meshtastic_attachment_tx`. -/
def attachmentTx (wire : Bytes) (flags : UInt8) : Except TxErrno Bytes :=
  txEnvelope slot txSeq ⟨0, flags, 0, 0, 0, 0, 0, 0, wire⟩

/-- The envelope of `meshtastic_attachment_relay`. -/
def attachmentRelay (wire : Bytes)
    (src pktId rxMs notBeforeMs : UInt32) (dupe : UInt8) : Except TxErrno Bytes :=
  txEnvelope slot txSeq ⟨0, 0x01 ||| 0x04, 0, src, pktId, rxMs, notBeforeMs, dupe, wire⟩

/-! ### The link -/

def kindAttach : UInt8 := 1

/-- The longest frame of a kind: `MESHTASTIC_BLE_PEER_FRAME_MAX` for the kind of a bare wire, and
`MESHTASTIC_BLE_PEER_ENV_MAX`. -/
def peerCap : Nat := if kind = 0 then 255 else 255 + 16

/-- `meshtastic_ble_peer_chunker_start_kind`, on the length of a frame. -/
def chunkerStart (len : Nat) : Except Errno Unit :=
  if len = 0 ∨ 15 < kind then .error .inval
  else if peerCap kind < len then .error .msgSize
  else .ok ()

/-- The reassembler on the length that a first chunk declares. -/
def reasmDeclared (declared : Nat) : Except Errno Unit :=
  if declared = 0 then .error .badMsg
  else if peerCap kind < declared then .error .msgSize
  else .ok ()

/-- An envelope that both ends of a link take. -/
def Carried (env : Bytes) : Prop :=
  chunkerStart kindAttach env.length = .ok () ∧ reasmDeclared kindAttach env.length = .ok ()

theorem carried_of_le {env : Bytes} (h0 : env ≠ []) (h : env.length ≤ envMax) : Carried env := by
  have hlen : env.length ≠ 0 := by simpa using h0
  have hcap : ¬ peerCap kindAttach < env.length := Nat.not_lt.mpr h
  constructor
  · rw [chunkerStart, if_neg (by simp [hlen, kindAttach]), if_neg hcap]
  · rw [reasmDeclared, if_neg hlen, if_neg hcap]

section
variable {a : HeadInfo} (hready : a.txReady = true) (txSeq : UInt16) {m : TxFrame}
  (hne : m.wire ≠ []) (hle : m.wire.length ≤ wireMax)
include hready hne hle

theorem txEnvelope_ready : txEnvelope (some a) txSeq m =
    (encodeTxFrame { m with preset := a.preset, txSeq } envMax).mapError .codec := by
  simp [txEnvelope, hne, Nat.not_lt.mpr hle, Option.filter, hready]

theorem txEnvelope_fits (h : txHdrLen m.flags + m.wire.length ≤ envMax) :
    ∃ env, txEnvelope (some a) txSeq m = .ok env ∧ Carried env := by
  let sent : Msg := .txFrame { m with preset := a.preset, txSeq }
  have hsent : sent.WireInRange := ⟨hne, hle⟩
  have henc : encode sent envMax = .ok (sent.kind.byte :: sent.body) := encode_eq hsent h
  refine ⟨sent.kind.byte :: sent.body, ?_, carried_of_le nofun ?_⟩
  · rw [txEnvelope_ready hready txSeq hne hle]
    exact congrArg (Except.mapError TxErrno.codec) henc
  · rw [length_body]
    exact h

theorem txEnvelope_long (h : envMax < txHdrLen m.flags + m.wire.length) :
    txEnvelope (some a) txSeq m = .error (.codec .msgSize) := by
  rw [txEnvelope_ready hready txSeq hne hle, encodeTxFrame, if_neg hne,
    if_neg (Nat.not_lt.mpr hle), if_pos h]
  rfl

theorem txEnvelope_sized :
    ((relays m.flags = true → m.wire.length ≤ 249) →
      ∃ env, txEnvelope (some a) txSeq m = .ok env ∧ Carried env) ∧
    (relays m.flags = true → 249 < m.wire.length →
      txEnvelope (some a) txSeq m = .error (.codec .msgSize)) := by
  have hmax : envMax = 271 := rfl
  cases hrelay : relays m.flags with
  | false =>
    have hhdr : txHdrLen m.flags = 5 := by rw [txHdrLen, hrelay]; rfl
    refine ⟨fun _ => txEnvelope_fits hready txSeq hne hle ?_, (absurd · Bool.false_ne_true)⟩
    rw [hhdr, hmax]
    exact (Nat.add_le_add_left hle 5).trans (by decide)
  | true =>
    have hhdr : txHdrLen m.flags = 22 := by rw [txHdrLen, hrelay]; rfl
    refine ⟨fun h => txEnvelope_fits hready txSeq hne hle ?_,
      fun _ h => txEnvelope_long hready txSeq hne hle ?_⟩ <;> rw [hhdr, hmax]
    · exact Nat.add_le_add_left (h rfl) 22
    · exact Nat.add_lt_add_left h 22

end

/-- **A frame goes through any ready head, and a relay of 249 bytes at most does.** The header of
a relay is longer than what the buffer leaves for a header, so a longer relay is refused. -/
theorem envelopes_fit (a : HeadInfo) (hready : a.txReady = true) (txSeq : UInt16) (wire : Bytes)
    (hne : wire ≠ []) (hle : wire.length ≤ wireMax) :
    (∀ flags,
      let tx := attachmentTx (some a) txSeq wire flags
      ((relays flags = true → wire.length ≤ 249) → ∃ env, tx = .ok env ∧ Carried env) ∧
      (relays flags = true → 249 < wire.length → tx = .error (.codec .msgSize))) ∧
    ∀ src pktId rxMs notBeforeMs dupe,
      let relay := attachmentRelay (some a) txSeq wire src pktId rxMs notBeforeMs dupe
      (wire.length ≤ 249 → ∃ env, relay = .ok env ∧ Carried env) ∧
      (249 < wire.length → relay = .error (.codec .msgSize)) := by
  have sized (m : TxFrame) (hm : m.wire = wire) :=
    txEnvelope_sized hready txSeq (hm ▸ hne) (hm ▸ hle)
  refine ⟨fun flags => sized ⟨0, flags, 0, 0, 0, 0, 0, 0, wire⟩ rfl,
    fun src pktId rxMs notBeforeMs dupe => ?_⟩
  obtain ⟨hfits, hlong⟩ :=
    sized ⟨0, 0x01 ||| 0x04, 0, src, pktId, rxMs, notBeforeMs, dupe, wire⟩ rfl
  exact ⟨fun h => hfits fun _ => h, hlong (show relays (0x01 ||| 0x04) = true by decide)⟩

/-- A head whose link is up and that has not sent a status yet. -/
def readyHead : HeadInfo := { HeadInfo.admitted 7 with linkUp := true }

theorem envelopes_fit_longest_relay :
    ∃ env, attachmentRelay (some readyHead) 1 (.replicate 249 0) 9 1 0 0 0 = .ok env ∧
      Carried env :=
  ((envelopes_fit readyHead rfl 1 (.replicate 249 0) (by decide) (by decide +kernel)).2
    9 1 0 0 0).1 (by decide +kernel)

/-- A frame of 250 bytes is legal on the air, and the head is ready; its relay is refused. -/
theorem relay_of_250_refused :
    readyHead.txReady = true ∧
      attachmentRelay (some readyHead) 1 (.replicate 250 0) 9 1 0 0 0 =
        .error (.codec .msgSize) := by
  decide +kernel

end Zephyrtastic.Attachment
