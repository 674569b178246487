import Zephyrtastic.Attachment.Codec

/-!
# The attachment codec, both ways

A message has one layout (`Msg.body`), which the encoders write when the buffer
has room (`encode_eq`).
-/

namespace Zephyrtastic.Attachment

open Layout List Nat Msg

/-- The message as its envelope has it: a field that the flags leave out is zero. -/
def Msg.carried : Msg → Msg
  | .txFrame m =>
    .txFrame (if relays m.flags then m
      else { m with relaySrc := 0, relayId := 0, rxMs := 0, notBeforeMs := 0, dupe := 0 })
  | .txResult m => .txResult (if m.hasLag then m else { m with lagMs := 0 })
  | .status m => .status (if hasPos m.flags then m else { m with lat := 0, lon := 0, alt := 0 })
  | m => m

/-- A frame that is carried has 1 to 255 bytes. -/
def Msg.WireInRange : Msg → Prop
  | .rxFrame m => m.wire ≠ [] ∧ m.wire.length ≤ wireMax
  | .txFrame m => m.wire ≠ [] ∧ m.wire.length ≤ wireMax
  | _ => True

def Msg.kind : Msg → Kind
  | .rxFrame _ => .rxFrame
  | .txFrame _ => .txFrame
  | .txResult _ => .txResult
  | .status _ => .status
  | .setPreset _ => .setPreset
  | .txCancel _ => .txCancel
  | .setPolicy _ => .setPolicy

/-- What stands after the type byte. -/
def Msg.body : Msg → Bytes
  | .rxFrame m => rxHeader.put (m.preset, m.rssi, m.snr, m.rxMs, m.flags) ++ m.wire
  | .txFrame m =>
    txHeader.put (m.preset, m.flags, m.txSeq) ++
      ((if relays m.flags then
          relayHeader.put (m.relaySrc, m.relayId, m.rxMs, m.notBeforeMs, m.dupe)
        else []) ++ m.wire)
  | .txResult m =>
    resultHeader.put (m.txSeq, m.rc, m.defers, m.txMs) ++
      if m.hasLag then u16.put m.lagMs else []
  | .status m =>
    statusHeader.put (m.preset, m.flags, m.hwid, m.brain, m.rxFrames, m.txFrames, m.uptimeS,
        m.rxDropped) ++
      if hasPos m.flags then posTail.put (m.lat, m.lon, m.alt) else []
  | .setPreset preset => u8.put preset
  | .txCancel m => cancelHeader.put (m.src, m.id)
  | .setPolicy m => policyHeader.put (m.flags, m.txPower)

theorem encode_eq {m : Msg} (h : m.WireInRange) {n : Nat} (hn : m.encodedLen ≤ n) :
    encode m n = .ok (m.kind.byte :: m.body) := by
  cases m with
  | rxFrame m | txFrame m =>
    obtain ⟨hne, hle⟩ := h
    exact (if_neg hne).trans ((if_neg (Nat.not_lt.mpr hle)).trans (if_neg (Nat.not_lt.mpr hn)))
  | txResult m =>
    rw [encodedLen] at hn
    have hroom : ¬ n < 1 + resultHeader.width := by omega
    rw [encode, encodeTxResult, if_neg hroom]
    cases hlag : m.hasLag with
    | true =>
      rw [hlag, if_pos rfl] at hn
      simp [kind, body, hlag, hn]
    | false => simp [kind, body, hlag]
  | status | setPreset | txCancel | setPolicy => exact if_neg (Nat.not_lt.mpr hn)

theorem Kind.byte_of_ofByte {b : UInt8} {k : Kind} (h : Kind.ofByte b = some k) : k.byte = b :=
  eq_of_beq (find?_some h :)

section Frames

theorem length_put_if {α : Type} (c : Layout α) (b : Bool) (a : α) :
    (if b then c.put a else []).length = if b then c.width else 0 := by
  split
  · exact c.length_put a
  · rfl

theorem drop_inRange {body : Bytes} {n : Nat} (hlo : n < body.length)
    (hhi : body.length ≤ n + wireMax) : body.drop n ≠ [] ∧ (body.drop n).length ≤ wireMax := by
  rw [Ne, ← length_eq_zero_iff, length_drop]
  omega

theorem decode_body_rxFrame {m : RxFrame} (h : (rxFrame m).WireInRange) :
    decodeRxFrame (rxFrame m).body = .ok (.rxFrame m) := by
  obtain ⟨hne, hle⟩ := h
  have hpos : 0 < m.wire.length := length_pos_iff.mpr hne
  rw [body, decodeRxFrame, if_neg, rxHeader.get_put, drop_put]
  rw [length_append, rxHeader.length_put, rxHdrLen]
  omega

theorem decode_layout_rxFrame {body : Bytes} {m : Msg} (h : decodeRxFrame body = .ok m) :
    m.kind = .rxFrame ∧ m.WireInRange ∧ m.body = body := by
  unfold decodeRxFrame at h
  split at h
  · cases h
  rename_i hlen
  rw [rxHdrLen] at hlen
  cases h
  exact ⟨rfl, drop_inRange (by omega) (by omega), put_get_drop rxHeader (by omega)⟩

theorem decodedTxHdrLen_put (preset flags : UInt8) (txSeq : UInt16) (rest : Bytes) :
    decodedTxHdrLen (txHeader.put (preset, flags, txSeq) ++ rest) = txHdrLen flags := by
  have hput : txHeader.put (preset, flags, txSeq) = preset :: flags :: u16.put txSeq := by
    change u8.put preset ++ (u8.put flags ++ u16.put txSeq) = _
    rw [u8_put, u8_put]
    rfl
  rw [decodedTxHdrLen, hput, if_pos]
  · rfl
  · simp only [cons_append, length_cons]
    omega

theorem decodedTxHdrLen_eq {body : Bytes} (h : txHeader.width ≤ body.length) :
    decodedTxHdrLen body = txHdrLen (txHeader.get body).2.1 := by
  have hflags : (txHeader.get body).2.1 = body.getD 1 0 := u8_get_drop body 1
  have hw : txHeader.width = 4 := rfl
  rw [decodedTxHdrLen, if_pos (by omega), hflags]

theorem decode_body_txFrame {m : TxFrame} (h : (txFrame m).WireInRange) :
    decodeTxFrame (txFrame m).body = .ok (txFrame m).carried := by
  obtain ⟨hne, hle⟩ := h
  have hpos : 0 < m.wire.length := length_pos_iff.mpr hne
  rw [body, decodeTxFrame, decodedTxHdrLen_put, if_neg, txHeader.get_put, drop_put]
  · rw [carried]
    cases hr : relays m.flags with
    | true => simp only [if_true, hr, relayHeader.get_put, drop_put]
    | false => simp [hr]
  · rw [length_append, length_append, txHeader.length_put, txHdrLen, length_put_if]
    omega

theorem decode_layout_txFrame {body : Bytes} {m : Msg} (h : decodeTxFrame body = .ok m) :
    m.kind = .txFrame ∧ m.WireInRange ∧ m.body = body := by
  unfold decodeTxFrame at h
  split at h
  · cases h
  rename_i hlen
  have hw : txHeader.width ≤ body.length := by
    have hmin : 1 + txHeader.width ≤ decodedTxHdrLen body := by
      unfold decodedTxHdrLen txHdrLen
      split <;> omega
    omega
  rw [decodedTxHdrLen_eq hw, txHdrLen] at hlen
  have hbody := put_get_drop txHeader hw
  have hrest : (body.drop txHeader.width).length = body.length - txHeader.width :=
    length_drop
  dsimp only at h
  split at h
  · rename_i hr
    rw [if_pos hr] at hlen
    have hrelay := put_get_drop relayHeader (by rw [hrest]; omega :
      relayHeader.width ≤ (body.drop txHeader.width).length)
    cases h
    refine ⟨rfl, drop_inRange (by rw [hrest]; omega) (by rw [hrest]; omega), ?_⟩
    rw [Msg.body, if_pos hr]
    exact (congrArg (txHeader.put (txHeader.get body) ++ ·) hrelay).trans hbody
  · rename_i hr
    rw [if_neg hr] at hlen
    cases h
    refine ⟨rfl, drop_inRange (by omega) (by omega), ?_⟩
    rw [Msg.body, if_neg hr]
    exact hbody

end Frames

section Fixed
variable {body : Bytes} {m : Msg}

/-- The message of this type was read off the front of a body. -/
def Msg.ReadOff (m : Msg) (k : Kind) (body : Bytes) : Prop :=
  m.kind = k ∧ m.WireInRange ∧ k.byte :: m.body = (k.byte :: body).take m.encodedLen

theorem take_header {α : Type} (c : Layout α) (k : UInt8)
    (h : c.width ≤ body.length) : k :: c.put (c.get body) = (k :: body).take (1 + c.width) := by
  rw [c.put_get body h, add_comm, take_succ_cons]

theorem take_header_tail {α β : Type} (c : Layout α) (d : Layout β) (k : UInt8)
    (h : c.width + d.width ≤ body.length) :
    k :: (c.put (c.get body) ++ d.put (d.get (body.drop c.width))) =
      (k :: body).take (1 + c.width + d.width) := by
  rw [add_assoc]
  exact take_header (c.pair d) k h

theorem decode_body_txResult (m : TxResult) :
    decodeTxResult (txResult m).body = .ok (txResult m).carried := by
  have hlen := resultHeader.length_put (m.txSeq, m.rc, m.defers, m.txMs)
  rw [body, decodeTxResult, if_neg, resultHeader.get_put, carried]
  · obtain ⟨txSeq, rc, defers, txMs, hasLag, lagMs⟩ := m
    cases hasLag with
    | true =>
      have hu := u16.length_put lagMs
      simp [length_append, hlen, hu, get_put_self]
    | false =>
      have hw : u16.width = 2 := rfl
      have hno : ¬ resultHeader.width + 2 ≤ resultHeader.width := by omega
      simp [hlen, hw, hno]
  · rw [length_append]
    omega

theorem decode_layout_txResult (h : decodeTxResult body = .ok m) : m.ReadOff .txResult body := by
  unfold decodeTxResult at h
  split at h
  · cases h
  rename_i hlen
  rw [Nat.not_lt] at hlen
  cases h
  refine ⟨rfl, trivial, ?_⟩
  by_cases hlag : resultHeader.width + u16.width ≤ body.length
  · simp only [Msg.body, encodedLen, hlag, decide_true, if_true]
    exact take_header_tail resultHeader u16 _ hlag
  · simp only [Msg.body, encodedLen, hlag, decide_false, Bool.false_eq_true, if_false,
      append_nil, add_zero]
    exact take_header resultHeader _ hlen

theorem decode_body_status (m : Status) :
    decodeStatus (status m).body = .ok (status m).carried := by
  have hlen := statusHeader.length_put (m.preset, m.flags, m.hwid, m.brain, m.rxFrames,
    m.txFrames, m.uptimeS, m.rxDropped)
  rw [body, decodeStatus, if_neg, statusHeader.get_put, drop_put, carried]
  · dsimp only
    cases hp : hasPos m.flags with
    | true =>
      have hpos := posTail.length_put (m.lat, m.lon, m.alt)
      simp only [if_true, length_append, hlen, hpos, Nat.lt_irrefl, if_false, get_put_self]
    | false => simp only [Bool.false_eq_true, if_false]
  · rw [length_append]
    omega

theorem decode_layout_status (h : decodeStatus body = .ok m) : m.ReadOff .status body := by
  unfold decodeStatus at h
  split at h
  · cases h
  rename_i hlen
  rw [Nat.not_lt] at hlen
  dsimp only at h
  split at h
  · rename_i hp
    split at h
    · cases h
    rename_i hlen'
    rw [Nat.not_lt] at hlen'
    cases h
    refine ⟨rfl, trivial, ?_⟩
    simp only [Msg.body, encodedLen, hp, if_true]
    exact take_header_tail statusHeader posTail _ hlen'
  · rename_i hp
    cases h
    refine ⟨rfl, trivial, ?_⟩
    simp only [Msg.body, encodedLen, hp, Bool.false_eq_true, if_false, append_nil,
      add_zero]
    exact take_header statusHeader _ hlen

theorem decode_layout_txCancel (h : decodeTxCancel body = .ok m) : m.ReadOff .txCancel body := by
  unfold decodeTxCancel at h
  split at h
  · cases h
  · rename_i hlen
    cases h
    exact ⟨rfl, trivial, take_header cancelHeader _ (Nat.not_lt.mp hlen)⟩

theorem decode_layout_setPolicy (h : decodeSetPolicy body = .ok m) : m.ReadOff .setPolicy body := by
  unfold decodeSetPolicy at h
  split at h
  · cases h
  · rename_i hlen
    cases h
    exact ⟨rfl, trivial, take_header policyHeader _ (Nat.not_lt.mp hlen)⟩

theorem decode_layout_setPreset (h : decodeSetPreset body = .ok m) : m.ReadOff .setPreset body := by
  unfold decodeSetPreset at h
  split at h
  · cases h
  · rename_i hlen
    cases h
    exact ⟨rfl, trivial, take_header u8 _ (Nat.not_lt.mp hlen)⟩

end Fixed

theorem decode_body {m : Msg} (h : m.WireInRange) :
    decode (m.kind.byte :: m.body) = .ok m.carried := by
  cases m with
  | rxFrame m => exact decode_body_rxFrame h
  | txFrame m => exact decode_body_txFrame h
  | txResult m => exact decode_body_txResult m
  | status m => exact decode_body_status m
  | setPreset preset =>
    change decodeSetPreset (u8.put preset) = _
    rw [decodeSetPreset, get_put_self]
    rfl
  | txCancel m =>
    change decodeTxCancel (cancelHeader.put (m.src, m.id)) = _
    rw [decodeTxCancel, get_put_self]
    rfl
  | setPolicy m =>
    change decodeSetPolicy (policyHeader.put (m.flags, m.txPower)) = _
    rw [decodeSetPolicy, get_put_self]
    rfl

theorem length_body (m : Msg) : (m.kind.byte :: m.body).length = m.encodedLen := by
  cases m with
  | rxFrame m =>
    simp only [body, encodedLen, length_cons, length_append, rxHeader.length_put, rxHdrLen]
    omega
  | txFrame m =>
    simp only [body, encodedLen, length_cons, length_append, txHeader.length_put, txHdrLen,
      length_put_if]
    omega
  | txResult m =>
    simp only [body, encodedLen, length_cons, length_append, resultHeader.length_put,
      length_put_if]
    omega
  | status m =>
    simp only [body, encodedLen, length_cons, length_append, statusHeader.length_put,
      length_put_if]
    omega
  | setPreset preset =>
    rfl
  | txCancel m =>
    rfl
  | setPolicy m =>
    rfl

/-- The type carries a frame. -/
def Kind.isFrame (k : Kind) : Bool := k == .rxFrame || k == .txFrame

theorem take_of_body {k : Kind} {m : Msg} {body : Bytes} (hk : m.kind = k) (h : m.body = body) :
    k.byte :: m.body = (k.byte :: body).take m.encodedLen ∧
      m.encodedLen = (k.byte :: body).length := by
  have hlen := length_body m
  rw [hk, h] at hlen
  rw [h, ← hlen, take_length]
  exact ⟨rfl, rfl⟩

/-- What the decoder has read has as its layout the part of the envelope the decoder knows. -/
theorem decode_layout {env : Bytes} {m : Msg} (h : decode env = .ok m) :
    m.WireInRange ∧ m.kind.byte :: m.body = env.take m.encodedLen ∧
      (m.kind.isFrame = true → m.encodedLen = env.length) := by
  cases env with
  | nil => cases h
  | cons b body =>
    rw [decode] at h
    cases hk : Kind.ofByte b with
    | none => rw [hk] at h; cases h
    | some k =>
      obtain rfl := Kind.byte_of_ofByte hk
      have fixed : m.kind = k ∧ m.WireInRange ∧
          k.byte :: m.body = (k.byte :: body).take m.encodedLen → k.isFrame = false →
          m.WireInRange ∧ m.kind.byte :: m.body = (k.byte :: body).take m.encodedLen ∧
            (m.kind.isFrame = true → m.encodedLen = (k.byte :: body).length) := by
        rintro ⟨hm, hw, htake⟩ hf
        rw [hm, hf]
        exact ⟨hw, htake, nofun⟩
      have frame : m.kind = k ∧ m.WireInRange ∧ m.body = body →
          m.WireInRange ∧ m.kind.byte :: m.body = (k.byte :: body).take m.encodedLen ∧
            (m.kind.isFrame = true → m.encodedLen = (k.byte :: body).length) := by
        rintro ⟨hm, hw, hbody⟩
        obtain ⟨htake, hlen⟩ := take_of_body hm hbody
        rw [hm]
        exact ⟨hw, htake, fun _ => hlen⟩
      cases k with
      | rxFrame => exact frame (decode_layout_rxFrame h)
      | txFrame => exact frame (decode_layout_txFrame h)
      | txResult => exact fixed (decode_layout_txResult h) rfl
      | status => exact fixed (decode_layout_status h) rfl
      | setPreset => exact fixed (decode_layout_setPreset h) rfl
      | timeBeat => cases h
      | txCancel => exact fixed (decode_layout_txCancel h) rfl
      | setPolicy => exact fixed (decode_layout_setPolicy h) rfl

/-- The header length of a frame's envelope. -/
def frameHdrLen (k : Kind) (body : Bytes) : Nat :=
  if k = .txFrame then decodedTxHdrLen body else rxHdrLen

/-- The codec, both ways: given room, an encoded message decodes to what it carries, which is
all of it but the fields its flags leave out; what is accepted encodes to the part of it that
the decoder reads, the whole envelope for a frame; and an envelope whose frame would not have 1
to 255 bytes is refused. -/
theorem codec_round_trip :
    (∀ (m : Msg) (outSize : Nat), m.WireInRange → m.encodedLen ≤ outSize →
      ∃ env, encode m outSize = .ok env ∧ decode env = .ok m.carried) ∧
    (∀ (env : Bytes) (m : Msg) (outSize : Nat), decode env = .ok m → m.encodedLen ≤ outSize →
      encode m outSize = .ok (env.take m.encodedLen) ∧
        (m.kind.isFrame = true → m.encodedLen = env.length)) ∧
    ∀ (k : Kind) (body : Bytes), k.isFrame = true →
      ¬ (1 + frameHdrLen k body ≤ 1 + body.length ∧
        1 + body.length ≤ frameHdrLen k body + wireMax) →
      decode (k.byte :: body) = .error .badMsg := by
  refine ⟨?_, ?_, ?_⟩
  · intro m outSize hw hn
    exact ⟨_, encode_eq hw hn, decode_body hw⟩
  · intro env m outSize hd hn
    obtain ⟨hw, htake, hlen⟩ := decode_layout hd
    rw [← htake]
    exact ⟨encode_eq hw hn, hlen⟩
  · intro k body hk hlen
    cases k with
    | rxFrame =>
      change ¬ (1 + rxHdrLen ≤ 1 + body.length ∧ 1 + body.length ≤ rxHdrLen + wireMax) at hlen
      exact if_pos (by omega)
    | txFrame =>
      change ¬ (1 + decodedTxHdrLen body ≤ 1 + body.length ∧
        1 + body.length ≤ decodedTxHdrLen body + wireMax) at hlen
      exact if_pos (by omega)
    | txResult | status | setPreset | timeBeat | txCancel | setPolicy => cases hk

/-- A relay with its header filled in. -/
def relayFrame : TxFrame := ⟨0, 0x05, 258, 7, 9, 1000, 250, 1, [0xAA, 0xBB]⟩

theorem relayFrame_round_trip :
    (∃ env, encode (.txFrame relayFrame) 277 = .ok env ∧ env.length = 24 ∧
      decode env = .ok (.txFrame relayFrame)) ∧
    decode (Kind.txFrame.byte :: (Msg.txFrame { relayFrame with wire := [] }).body) =
      .error .badMsg := by
  obtain ⟨hround, -, hrefuse⟩ := codec_round_trip
  have hw : (txFrame relayFrame).WireInRange := ⟨by decide, by decide⟩
  obtain ⟨env, henc, hdec⟩ := hround (.txFrame relayFrame) 277 hw (by decide)
  refine ⟨⟨env, henc, ?_, hdec⟩, hrefuse .txFrame _ rfl (by decide)⟩
  rw [encode_eq hw (by decide)] at henc
  cases henc
  exact length_body _

/-- Relay fields without the flag, a lag that is not marked and a position without its flag do
not come back. -/
theorem unflagged_fields_lost :
    let plain : TxFrame := { relayFrame with flags := 0x01 }
    let result : TxResult := ⟨1, 0, 0, 5, false, 40⟩
    let status : Status := ⟨0, 0x10, 1, 2, 3, 4, 5, 6, 700, 800, 90⟩
    ((encode (.txFrame plain) 277).bind decode = .ok (.txFrame
        { plain with relaySrc := 0, relayId := 0, rxMs := 0, notBeforeMs := 0, dupe := 0 }) ∧
      plain.relaySrc ≠ 0) ∧
    (encode (.txResult result) 277).bind decode = .ok (.txResult { result with lagMs := 0 }) ∧
    (encode (.status status) 277).bind decode =
      .ok (.status { status with lat := 0, lon := 0, alt := 0 }) := by
  intro plain result status
  have back : ∀ m m' : Msg, m.WireInRange → m.encodedLen ≤ 277 → m.carried = m' →
      (encode m 277).bind decode = .ok m' := by
    rintro m _ hw hn rfl
    rw [encode_eq hw hn]
    exact decode_body hw
  refine ⟨⟨back (.txFrame plain) _ ⟨by decide, by decide⟩ ?_ ?_, by decide⟩,
    back (.txResult result) _ trivial ?_ ?_, back (.status status) _ trivial ?_ ?_⟩ <;>
    decide +kernel

end Zephyrtastic.Attachment
