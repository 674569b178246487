import Mathlib.Data.List.FinRange
import Zephyrtastic.Attachment.Codec
import Zephyrtastic.Lib.Run

/-!
# A radio head

A head keys up the frames its brain hands it. What it has heard stands in a ring
of sixteen packets, by which it keeps, cancels or moves a relay.
-/

namespace Zephyrtastic.Attachment

/-- `(int32_t)(a - b) > 0`. -/
def later (a b : UInt32) : Bool := a - b != 0 && decide (a - b < 0x80000000)

/-- The packet a frame is a copy of. -/
structure PacketKey where
  src : UInt32
  id : UInt32
  deriving DecidableEq, Repr

/-- `MESHTASTIC_ATTACHMENT_DUPE_CANCEL` and `MESHTASTIC_ATTACHMENT_DUPE_LATE`. -/
def dupeCancel : UInt8 := 1

def dupeLate : UInt8 := 2

/-- `struct heard`, without the time of the first copy, which nothing reads. -/
structure Heard where
  key : PacketKey
  lastMs : UInt32
  snr : Int8
  count : Nat
  deriving DecidableEq

structure Cancelled where
  key : PacketKey
  isSet : Bool
  deriving DecidableEq, Repr

/-- `struct head_tx`. Whether a copy of a relay's packet that was received after the original
has been heard since the relay was accepted is not in the code, and nothing reads it. -/
structure HeadTx where
  wire : Bytes
  txSeq : UInt16
  flags : UInt8
  defers : Nat
  relay : PacketKey
  origRxMs : UInt32
  dupe : UInt8
  snr : Int8
  notBefore : UInt32
  arrivedMs : UInt32
  copyHeard : Bool
  deriving DecidableEq

/-- `pending`: the relay the thread has published while it waits. -/
structure PendingRelay where
  key : PacketKey
  origRxMs : UInt32
  notBefore : UInt32
  dupe : UInt8
  snr : Int8
  isSet : Bool
  clamped : Bool
  cancel : Bool
  deriving DecidableEq

/-- Where the transmit thread is with the frame it has taken. -/
inductive Stage where
  /-- The frame has been taken from the queue and has a time to wait for. -/
  | taken
  /-- It is published, and the wait loop runs. -/
  | waiting
  /-- The loop has ended. -/
  | ending
  /-- Nothing is published; the tests before key-up come next. -/
  | waited (heardCancel clamped : Bool)
  /-- The late rule puts it off once more. -/
  | lateSleep
  /-- The tests are passed; the duty gate and the radio come next. -/
  | cleared
  /-- The radio has deferred the frame. -/
  | deferred
  /-- The tests are passed again; the radio comes next. -/
  | rechecked
  deriving DecidableEq, Repr

/-- What `meshtastic_radio_send_wire_now` returns. -/
inductive RadioRet where
  | sent | defer | error (errno : Int)
  deriving DecidableEq, Repr

/-- What the thread reports about a frame; what the radio has refused is reported with the
radio's answer. -/
inductive Ret where
  | sent | cancelled | tooLate | failed (radio : RadioRet)
  deriving DecidableEq, Repr

/-- `CONFIG_MESHTASTIC_ATTACHMENT_HEAD_TX_QUEUE_SIZE` and `CONFIG_MESHTASTIC_TX_DEFER_MAX`. -/
structure HeadConfig where
  txQueueSize : Nat
  deferMax : Nat

abbrev heardRing : Nat := 16

instance : @NeZero Nat Zero.ofOfNat0 heardRing := ⟨by decide⟩

structure Head where
  brain : UInt32
  ring : Fin heardRing → Heard
  next : Fin heardRing
  cancels : Fin 4 → Cancelled
  pending : PendingRelay
  txQueue : List HeadTx
  thread : Option (Stage × HeadTx)
  reported : List (HeadTx × Ret)

def Heard.none : Heard := ⟨⟨0, 0⟩, 0, 0, 0⟩

def PendingRelay.none : PendingRelay := ⟨⟨0, 0⟩, 0, 0, 0, 0, false, false, false⟩

def Head.init (brain : UInt32) : Head :=
  ⟨brain, fun _ => .none, 0, fun _ => ⟨⟨0, 0⟩, false⟩, .none, [], none, []⟩

def hdrLen : Nat := 16

/-- The packet of a wire frame. -/
def wireKey (wire : Bytes) : PacketKey :=
  ⟨Bytes.getLe32 (wire.drop 4), Bytes.getLe32 (wire.drop 8)⟩

namespace HeadTx

def isRelay (t : HeadTx) : Bool := relays t.flags

/-- A relay that is to be dropped when its packet is heard again. -/
def cancels (t : HeadTx) : Bool := t.isRelay && t.dupe == dupeCancel

/-- The frame heard is a copy of the packet the relay is of, received after the original. -/
def copiedBy (t : HeadTx) (key : PacketKey) (rxMs : UInt32) : Bool :=
  t.cancels && t.relay == key && later rxMs t.origRxMs

def mark (key : PacketKey) (rxMs : UInt32) (t : HeadTx) : HeadTx :=
  { t with copyHeard := t.copyHeard || t.copiedBy key rxMs }

end HeadTx

namespace Head

variable (cfg : HeadConfig) (h : Head) (t : HeadTx) (key : PacketKey)

/-- The entry of a packet in the heard ring. -/
def heardEntry : Option (Fin heardRing) :=
  (List.finRange 16).find? fun i => (h.ring i).count != 0 && (h.ring i).key == key

/-- What a copy does to the relay the thread has published. -/
def notePending (p : PendingRelay) (key : PacketKey) (rxMs worstMs : UInt32) : PendingRelay :=
  if p.isSet && p.key == key && later rxMs p.origRxMs then
    if p.dupe = dupeCancel then { p with cancel := true }
    else if p.dupe = dupeLate ∧ p.clamped = false then
      { p with notBefore := rxMs + worstMs, clamped := true }
    else p
  else p

/-- `heard_note_locked`. `worstMs` is `relay_worst_ms` at the SNR of the published relay. -/
def heardNoteLocked (snr : Int8) (rxMs worstMs : UInt32) : Head :=
  match h.heardEntry key with
  | some i =>
    { h with
      ring := Function.update h.ring i
        { h.ring i with lastMs := rxMs, count := min 255 ((h.ring i).count + 1) }
      pending := notePending h.pending key rxMs worstMs }
  | none =>
    { h with
      ring := Function.update h.ring h.next ⟨key, rxMs, snr, 1⟩
      next := h.next + 1 }

def heardAgainLocked (sinceMs : UInt32) : Bool :=
  (List.finRange 16).any fun i =>
    decide (1 < (h.ring i).count) && (h.ring i).key == key && later (h.ring i).lastMs sinceMs

/-- The entry `cancelled_take_locked` takes. -/
def cancelledEntry : Option (Fin 4) :=
  (List.finRange 4).find? fun i => (h.cancels i).isSet && (h.cancels i).key == key

/-- `cancelled_take_locked`: the head with the entry taken. -/
def cancelledTakeLocked : Bool × Head :=
  match h.cancelledEntry key with
  | some i =>
    (true, { h with cancels := Function.update h.cancels i { h.cancels i with isSet := false } })
  | none => (false, h)

/-- What the head holds and has not keyed up. -/
def waiting : List HeadTx := h.txQueue ++ (h.thread.map Prod.snd).toList

/-- A copy is noted at every relay that waits. -/
def markWaiting (rxMs : UInt32) : Head :=
  { h with
    txQueue := h.txQueue.map (HeadTx.mark key rxMs)
    thread := h.thread.map fun p => (p.1, p.2.mark key rxMs) }

/-- `meshtastic_attachment_head_on_rx`, the part that notes what was heard. -/
def onRx (wire : Bytes) (snr : Int8) (rxMs worstMs : UInt32) : Head :=
  if wire.length < hdrLen then h
  else (h.heardNoteLocked (wireKey wire) snr rxMs worstMs).markWaiting (wireKey wire) rxMs

/-- The frame an accepted TX_FRAME puts into the queue. `ownDelayMs` is the contention window
drawn for an own frame. -/
def acceptedTx (m : TxFrame) (now ownDelayMs : UInt32) : HeadTx :=
  let base := if 60000 < now - m.rxMs then now else m.rxMs
  let t : HeadTx :=
    if relays m.flags then
      { wire := m.wire, txSeq := m.txSeq, flags := m.flags, defers := 0
        relay := ⟨m.relaySrc, m.relayId⟩
        origRxMs := base
        dupe := m.dupe
        snr := (h.heardEntry ⟨m.relaySrc, m.relayId⟩).elim 0 fun i => (h.ring i).snr
        notBefore := if base + m.notBeforeMs = 0 then 1 else base + m.notBeforeMs
        arrivedMs := now
        copyHeard := false }
    else
      { wire := m.wire, txSeq := m.txSeq, flags := m.flags, defers := 0, relay := ⟨0, 0⟩
        origRxMs := 0, dupe := 0, snr := 0, notBefore := 0, arrivedMs := 0, copyHeard := false }
  if m.flags &&& 0x02 != 0 && ownDelayMs != 0 then
    { t with notBefore := if now + ownDelayMs = 0 then 1 else now + ownDelayMs }
  else t

/-- `meshtastic_attachment_head_on_envelope_from`, its effect on what the thread transmits.
`trusted` is what the bearer says about the link. -/
def onEnvelope (node : UInt32) (trusted : Bool) (env : Bytes) (now ownDelayMs : UInt32) : Head :=
  match decode env with
  | .ok (.txFrame m) =>
    if node = h.brain ∧ trusted = true ∧ h.txQueue.length < cfg.txQueueSize then
      { h with txQueue := h.txQueue ++ [h.acceptedTx m now ownDelayMs] }
    else h
  | .ok (.txCancel m) =>
    if node = h.brain then
      let slot := ((List.finRange 4).find? fun i => !(h.cancels i).isSet).getD 0
      { h with cancels := Function.update h.cancels slot ⟨⟨m.src, m.id⟩, true⟩ }
    else h
  | _ => h

/-- The thread is done with a frame. -/
def report (ret : Ret) : Head :=
  { h with thread := none, reported := h.reported ++ [(t, ret)] }

def goto (stage : Stage) (t : HeadTx) : Head := { h with thread := some (stage, t) }

/-- A CLIENT relay whose decision came too late altogether. -/
def stale (now worstMs : UInt32) : Bool :=
  t.cancels && t.notBefore != 0 && decide (0x80000000 ≤ t.notBefore - now) &&
    later now (t.origRxMs + 2 * worstMs)

/-- What the radio's answer leads to. -/
def keyUp : RadioRet → Head
  | .sent => h.report t .sent
  | .error errno => h.report t (.failed (.error errno))
  | .defer =>
    if t.defers < cfg.deferMax then h.goto .deferred { t with defers := t.defers + 1 }
    else h.report t (.failed .defer)

/-- `head_tx_thread_fn`, from one lock section to the next. `dutyBlocked` and `radio` are what
the duty gate and the radio answer where the thread asks them. -/
def threadStep (now worstMs : UInt32) (dutyBlocked : Bool) (radio : RadioRet) : Head :=
  match h.thread with
  | none =>
    match h.txQueue with
    | [] => h
    | t :: rest =>
      let h := { h with txQueue := rest }
      if stale t now worstMs then h.report t .tooLate
      else if t.notBefore ≠ 0 then h.goto .taken t
      else h.goto (.waited false false) t
  | some (.taken, t) =>
    let h := if t.isRelay then
        { h with pending := ⟨t.relay, t.origRxMs, t.notBefore, t.dupe, t.snr, true, false, false⟩ }
      else h
    h.goto .waiting t
  | some (.waiting, t) =>
    let deadline := if t.isRelay then h.pending.notBefore else t.notBefore
    let heardCancel := t.isRelay && h.pending.cancel
    if heardCancel || !later deadline now then h.goto .ending t else h
  | some (.ending, t) =>
    if t.isRelay then
      { h with pending := { h.pending with isSet := false } }.goto
        (.waited h.pending.cancel h.pending.clamped) t
    else h.goto (.waited false false) t
  | some (.waited heardCancel clamped, t) =>
    if t.isRelay then
      let again := h.heardAgainLocked t.relay t.origRxMs
      let (withdrawn, h) := h.cancelledTakeLocked t.relay
      if withdrawn || heardCancel || (again && t.dupe == dupeCancel) then h.report t .cancelled
      else if clamped then h.goto .cleared t
      else if again && t.dupe == dupeLate then h.goto .lateSleep t
      else h.goto .cleared t
    else h.goto .cleared t
  | some (.lateSleep, t) =>
    let (withdrawn, h) := h.cancelledTakeLocked t.relay
    if withdrawn then h.report t .cancelled else h.goto .cleared t
  | some (.cleared, t) =>
    if dutyBlocked then h.report t .cancelled else h.keyUp cfg t radio
  | some (.deferred, t) =>
    if t.isRelay then
      let again := h.heardAgainLocked t.relay t.origRxMs
      let (withdrawn, h) := h.cancelledTakeLocked t.relay
      if withdrawn || (again && t.dupe == dupeCancel) then h.report t .cancelled
      else h.goto .rechecked t
    else h.goto .rechecked t
  | some (.rechecked, t) => h.keyUp cfg t radio

inductive Event where
  | rx (wire : Bytes) (snr : Int8) (rxMs worstMs : UInt32)
  | envelope (node : UInt32) (trusted : Bool) (env : Bytes) (now ownDelayMs : UInt32)
  | thread (now worstMs : UInt32) (dutyBlocked : Bool) (radio : RadioRet)
  | setBrain (brain : UInt32)

def step : Event → Head
  | .rx wire snr rxMs worstMs => h.onRx wire snr rxMs worstMs
  | .envelope node trusted env now ownDelayMs => h.onEnvelope cfg node trusted env now ownDelayMs
  | .thread now worstMs dutyBlocked radio => h.threadStep cfg now worstMs dutyBlocked radio
  | .setBrain brain => { h with brain := brain }

end Head

end Zephyrtastic.Attachment
