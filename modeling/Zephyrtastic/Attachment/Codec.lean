import Zephyrtastic.Lib.Layout

/-!
# The attachment envelope

What a radio head and its brain say to each other. An envelope is a type byte, a
header of fixed layout and, in the two types that carry a frame, the frame.
-/

namespace Zephyrtastic.Attachment

open Layout

/-- `enum meshtastic_attachment_type`. -/
inductive Kind where
  | rxFrame | txFrame | txResult | status | setPreset | timeBeat | txCancel | setPolicy
  deriving DecidableEq, Repr

def Kind.byte : Kind → UInt8
  | .rxFrame => 1
  | .txFrame => 2
  | .txResult => 3
  | .status => 4
  | .setPreset => 5
  | .timeBeat => 6
  | .txCancel => 7
  | .setPolicy => 8

def Kind.all : List Kind :=
  [.rxFrame, .txFrame, .txResult, .status, .setPreset, .timeBeat, .txCancel, .setPolicy]

def Kind.ofByte (b : UInt8) : Option Kind := Kind.all.find? fun k => k.byte == b

/-- `-EINVAL`, `-EMSGSIZE` and `-EBADMSG`. -/
inductive Errno where
  | inval | msgSize | badMsg
  deriving DecidableEq, Repr

def wireMax : Nat := 255

structure RxFrame where
  preset : UInt8
  rssi : Int16
  snr : Int8
  rxMs : UInt32
  flags : UInt8
  wire : Bytes
  deriving DecidableEq

structure TxFrame where
  preset : UInt8
  flags : UInt8
  txSeq : UInt16
  relaySrc : UInt32
  relayId : UInt32
  rxMs : UInt32
  notBeforeMs : UInt32
  dupe : UInt8
  wire : Bytes
  deriving DecidableEq

structure TxResult where
  txSeq : UInt16
  rc : Int8
  defers : UInt8
  txMs : UInt32
  hasLag : Bool
  lagMs : UInt16
  deriving DecidableEq

structure Status where
  preset : UInt8
  flags : UInt8
  hwid : UInt32
  brain : UInt32
  rxFrames : UInt32
  txFrames : UInt32
  uptimeS : UInt32
  rxDropped : UInt32
  lat : Int32
  lon : Int32
  alt : Int32
  deriving DecidableEq

structure TxCancel where
  src : UInt32
  id : UInt32
  deriving DecidableEq

structure Policy where
  flags : UInt8
  txPower : Int8
  deriving DecidableEq

inductive Msg where
  | rxFrame (m : RxFrame)
  | txFrame (m : TxFrame)
  | txResult (m : TxResult)
  | status (m : Status)
  | setPreset (preset : UInt8)
  | txCancel (m : TxCancel)
  | setPolicy (m : Policy)
  deriving DecidableEq

/-- `MESHTASTIC_ATTACHMENT_TXF_RELAY` is set. -/
def relays (flags : UInt8) : Bool := flags &&& 0x04 != 0

/-- `MESHTASTIC_ATTACHMENT_ST_HAS_POS` is set. -/
def hasPos (flags : UInt8) : Bool := flags &&& 0x04 != 0

section Layout

/-- preset, rssi, snr, rx_ms, flags -/
def rxHeader : Layout (UInt8 × Int16 × Int8 × UInt32 × UInt8) :=
  u8.pair (i16.pair (i8.pair (u32.pair u8)))

/-- preset, flags, tx_seq -/
def txHeader : Layout (UInt8 × UInt8 × UInt16) := u8.pair (u8.pair u16)

/-- relay_src, relay_id, rx_ms, not_before_ms, dupe -/
def relayHeader : Layout (UInt32 × UInt32 × UInt32 × UInt32 × UInt8) :=
  u32.pair (u32.pair (u32.pair (u32.pair u8)))

/-- tx_seq, rc, defers, tx_ms -/
def resultHeader : Layout (UInt16 × Int8 × UInt8 × UInt32) := u16.pair (i8.pair (u8.pair u32))

/-- preset, flags, hwid, brain, rx_frames, tx_frames, uptime_s, rx_dropped -/
def statusHeader : Layout (UInt8 × UInt8 × UInt32 × UInt32 × UInt32 × UInt32 × UInt32 × UInt32) :=
  u8.pair (u8.pair (u32.pair (u32.pair (u32.pair (u32.pair (u32.pair u32))))))

/-- lat, lon, alt -/
def posTail : Layout (Int32 × Int32 × Int32) := i32.pair (i32.pair i32)

/-- src, id -/
def cancelHeader : Layout (UInt32 × UInt32) := u32.pair u32

/-- flags, tx_power -/
def policyHeader : Layout (UInt8 × Int8) := u8.pair i8

end Layout

/-- `MESHTASTIC_ATTACHMENT_RX_HDR_LEN`, with the type byte. -/
def rxHdrLen : Nat := 1 + rxHeader.width

/-- `MESHTASTIC_ATTACHMENT_TX_HDR_LEN` or `MESHTASTIC_ATTACHMENT_TX_RELAY_HDR_LEN`. -/
def txHdrLen (flags : UInt8) : Nat :=
  1 + txHeader.width + if relays flags then relayHeader.width else 0

example : rxHdrLen = 10 ∧ txHdrLen 0 = 5 ∧ txHdrLen 4 = 22 ∧ 1 + resultHeader.width = 9 ∧
    1 + statusHeader.width = 27 ∧ 1 + statusHeader.width + posTail.width = 39 ∧
    1 + cancelHeader.width = 9 ∧ 1 + policyHeader.width = 3 := by decide

/-- The length of the envelope a message is encoded to. -/
def Msg.encodedLen : Msg → Nat
  | .rxFrame m => rxHdrLen + m.wire.length
  | .txFrame m => txHdrLen m.flags + m.wire.length
  | .txResult m => 1 + resultHeader.width + if m.hasLag then u16.width else 0
  | .status m => 1 + statusHeader.width + if hasPos m.flags then posTail.width else 0
  | .setPreset _ => 1 + u8.width
  | .txCancel _ => 1 + cancelHeader.width
  | .setPolicy _ => 1 + policyHeader.width

def encodeRxFrame (m : RxFrame) (outSize : Nat) : Except Errno Bytes :=
  if m.wire = [] then .error .inval
  else if wireMax < m.wire.length then .error .msgSize
  else if outSize < rxHdrLen + m.wire.length then .error .msgSize
  else
    .ok (Kind.rxFrame.byte ::
      (rxHeader.put (m.preset, m.rssi, m.snr, m.rxMs, m.flags) ++ m.wire))

def encodeTxFrame (m : TxFrame) (outSize : Nat) : Except Errno Bytes :=
  if m.wire = [] then .error .inval
  else if wireMax < m.wire.length then .error .msgSize
  else if outSize < txHdrLen m.flags + m.wire.length then .error .msgSize
  else
    .ok (Kind.txFrame.byte :: (txHeader.put (m.preset, m.flags, m.txSeq) ++
      ((if relays m.flags then
          relayHeader.put (m.relaySrc, m.relayId, m.rxMs, m.notBeforeMs, m.dupe)
        else []) ++ m.wire)))

/-- `meshtastic_attachment_encode_tx_result`: a buffer without room for the lag gets the result
without it. -/
def encodeTxResult (m : TxResult) (outSize : Nat) : Except Errno Bytes :=
  if outSize < 1 + resultHeader.width then .error .msgSize
  else
    .ok (Kind.txResult.byte :: (resultHeader.put (m.txSeq, m.rc, m.defers, m.txMs) ++
      if m.hasLag && decide (1 + resultHeader.width + u16.width ≤ outSize) then u16.put m.lagMs
      else []))

def encodeStatus (m : Status) (outSize : Nat) : Except Errno Bytes :=
  if outSize < (Msg.status m).encodedLen then .error .msgSize
  else
    .ok (Kind.status.byte ::
      (statusHeader.put (m.preset, m.flags, m.hwid, m.brain, m.rxFrames, m.txFrames, m.uptimeS,
          m.rxDropped) ++
        if hasPos m.flags then posTail.put (m.lat, m.lon, m.alt) else []))

def encodeTxCancel (m : TxCancel) (outSize : Nat) : Except Errno Bytes :=
  if outSize < 1 + cancelHeader.width then .error .msgSize
  else .ok (Kind.txCancel.byte :: cancelHeader.put (m.src, m.id))

def encodeSetPolicy (m : Policy) (outSize : Nat) : Except Errno Bytes :=
  if outSize < 1 + policyHeader.width then .error .msgSize
  else .ok (Kind.setPolicy.byte :: policyHeader.put (m.flags, m.txPower))

def encodeSetPreset (preset : UInt8) (outSize : Nat) : Except Errno Bytes :=
  if outSize < 1 + u8.width then .error .msgSize
  else .ok (Kind.setPreset.byte :: u8.put preset)

/-- The encoder of each type. -/
def encode (m : Msg) (outSize : Nat) : Except Errno Bytes :=
  match m with
  | .rxFrame m => encodeRxFrame m outSize
  | .txFrame m => encodeTxFrame m outSize
  | .txResult m => encodeTxResult m outSize
  | .status m => encodeStatus m outSize
  | .setPreset preset => encodeSetPreset preset outSize
  | .txCancel m => encodeTxCancel m outSize
  | .setPolicy m => encodeSetPolicy m outSize

section Decode
variable (body : Bytes)

/-! The cases of `meshtastic_attachment_decode`, on what follows the type byte. -/

def decodeRxFrame : Except Errno Msg :=
  if 1 + body.length ≤ rxHdrLen ∨ rxHdrLen + wireMax < 1 + body.length then .error .badMsg
  else
    let (preset, rssi, snr, rxMs, flags) := rxHeader.get body
    .ok (.rxFrame ⟨preset, rssi, snr, rxMs, flags, body.drop rxHeader.width⟩)

/-- The header is taken for the short one while the flags byte is not there. -/
def decodedTxHdrLen : Nat := if 2 < 1 + body.length then txHdrLen (body.getD 1 0) else txHdrLen 0

def decodeTxFrame : Except Errno Msg :=
  if 1 + body.length ≤ decodedTxHdrLen body ∨
      decodedTxHdrLen body + wireMax < 1 + body.length then .error .badMsg
  else
    let (preset, flags, txSeq) := txHeader.get body
    let rest := body.drop txHeader.width
    if relays flags then
      let (relaySrc, relayId, rxMs, notBeforeMs, dupe) := relayHeader.get rest
      .ok (.txFrame ⟨preset, flags, txSeq, relaySrc, relayId, rxMs, notBeforeMs, dupe,
        rest.drop relayHeader.width⟩)
    else .ok (.txFrame ⟨preset, flags, txSeq, 0, 0, 0, 0, 0, rest⟩)

def decodeTxCancel : Except Errno Msg :=
  if body.length < cancelHeader.width then .error .badMsg
  else
    let (src, id) := cancelHeader.get body
    .ok (.txCancel ⟨src, id⟩)

def decodeSetPolicy : Except Errno Msg :=
  if body.length < policyHeader.width then .error .badMsg
  else
    let (flags, txPower) := policyHeader.get body
    .ok (.setPolicy ⟨flags, txPower⟩)

def decodeTxResult : Except Errno Msg :=
  if body.length < resultHeader.width then .error .badMsg
  else
    let (txSeq, rc, defers, txMs) := resultHeader.get body
    let hasLag := decide (resultHeader.width + u16.width ≤ body.length)
    .ok (.txResult ⟨txSeq, rc, defers, txMs, hasLag,
      if hasLag then u16.get (body.drop resultHeader.width) else 0⟩)

def decodeStatus : Except Errno Msg :=
  if body.length < statusHeader.width then .error .badMsg
  else
    let (preset, flags, hwid, brain, rxFrames, txFrames, uptimeS, rxDropped) :=
      statusHeader.get body
    if hasPos flags then
      if body.length < statusHeader.width + posTail.width then .error .badMsg
      else
        let (lat, lon, alt) := posTail.get (body.drop statusHeader.width)
        .ok (.status ⟨preset, flags, hwid, brain, rxFrames, txFrames, uptimeS, rxDropped, lat,
          lon, alt⟩)
    else
      .ok (.status ⟨preset, flags, hwid, brain, rxFrames, txFrames, uptimeS, rxDropped, 0, 0, 0⟩)

def decodeSetPreset : Except Errno Msg :=
  if body.length < u8.width then .error .badMsg else .ok (.setPreset (u8.get body))

end Decode

def decode : Bytes → Except Errno Msg
  | [] => .error .inval
  | b :: body =>
    match Kind.ofByte b with
    | some .rxFrame => decodeRxFrame body
    | some .txFrame => decodeTxFrame body
    | some .txCancel => decodeTxCancel body
    | some .setPolicy => decodeSetPolicy body
    | some .txResult => decodeTxResult body
    | some .status => decodeStatus body
    | some .setPreset => decodeSetPreset body
    | some .timeBeat => .error .badMsg
    | none => .error .badMsg

end Zephyrtastic.Attachment
