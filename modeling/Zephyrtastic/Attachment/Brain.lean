import Mathlib.Data.List.FinRange
import Mathlib.Data.List.Sort
import Zephyrtastic.Attachment.Codec
import Zephyrtastic.Lib.Run

/-!
# The brain's table of heads

A head is known by the node number of its link. An envelope of an unknown node gets a
free slot when its link is trusted or the node is on the operator's allow list; an
envelope of a known node goes to its slot.
-/

namespace Zephyrtastic.Attachment

def presetUnknown : UInt8 := 0xFF

def presetMax : UInt8 := 16

def wantRetryMs : Nat := 5000

/-- What is fixed at build time: the sizes of the tables, the grace of a dead link in seconds,
and `-ETIME` as a result code. -/
structure BrainConfig where
  attachmentMax : Nat
  allowMax : Nat
  evictSec : Nat
  rcTime : Int8

/-- `struct meshtastic_attachment_info`: what an envelope reads and writes. A bearer is known by
a number, and `none` is the link of no registered bearer. -/
structure HeadInfo where
  node : UInt32
  bearer : Option Nat
  linkUp : Bool
  downMs : Nat
  lastMs : Nat
  preset : UInt8
  status : Option Status
  rxFrames : UInt32
  rxDropped : UInt32
  txResults : UInt32
  rejected : UInt32
  lastRssi : Int16
  lastSnr : Int8
  rssiMin : Int16
  rssiMax : Int16
  lastTxRc : Int8
  lastTxDefers : UInt8
  txFailed : UInt32
  txCancelled : UInt32
  txLate : UInt32
  lag : Fin 16 → UInt16
  lagN : Nat
  lagNext : Fin 16
  lagP50Ms : UInt16
  lagP90Ms : UInt16
  lagMaxMs : UInt16
  wantAskedMs : Nat
  wantDue : Bool

structure Want where
  node : UInt32
  preset : UInt8
  deriving DecidableEq, Repr

/-- `struct meshtastic_rx_meta`, of a frame that came through an attachment. -/
structure RxMeta where
  attach : Nat
  preset : UInt8
  rssi : Int16
  snr : Int8
  rxMs : UInt32
  deriving DecidableEq

inductive BrainAction where
  /-- `meshtastic_radio_rx_inject_meta` -/
  | inject (wire : Bytes) (rxMeta : RxMeta)
  /-- The channel of the preset is to be created. -/
  | autoChannel (preset : UInt8)
  deriving DecidableEq

/-- One envelope: the bearer and the node it came from, and what the router's queue answers if
the envelope holds a frame. -/
structure Envelope where
  bearer : Option Nat
  node : UInt32
  env : Bytes
  now : Nat
  queued : Bool
  deriving DecidableEq, Repr

namespace HeadInfo

variable (a : HeadInfo)

/-- `admit_locked`: the state of a slot as it is taken. -/
def admitted (node : UInt32) : HeadInfo where
  node := node
  bearer := none
  linkUp := false
  downMs := 0
  lastMs := 0
  preset := presetUnknown
  status := none
  rxFrames := 0
  rxDropped := 0
  txResults := 0
  rejected := 0
  lastRssi := 0
  lastSnr := 0
  rssiMin := Int16.maxValue
  rssiMax := Int16.minValue
  lastTxRc := 0
  lastTxDefers := 0
  txFailed := 0
  txCancelled := 0
  txLate := 0
  lag := fun _ => 0
  lagN := 0
  lagNext := 0
  lagP50Ms := 0
  lagP90Ms := 0
  lagMaxMs := 0
  wantAskedMs := 0
  wantDue := false

def touch (e : Envelope) : HeadInfo :=
  { a with bearer := e.bearer, linkUp := true, downMs := 0, lastMs := e.now }

/-- `note_preset_locked`. -/
def notePreset (preset : UInt8) : HeadInfo × List BrainAction :=
  if a.preset = preset then (a, [])
  else ({ a with preset := preset }, if preset ≤ presetMax then [.autoChannel preset] else [])

/-- `want_check_locked`, with the preset that is wanted of the head. -/
def wantCheck (want : Option UInt8) (now : Nat) : HeadInfo :=
  match want with
  | none => { a with wantAskedMs := 0 }
  | some preset =>
    if a.preset = preset then { a with wantAskedMs := 0 }
    else if a.wantAskedMs ≠ 0 ∧ now - a.wantAskedMs < wantRetryMs then a
    else { a with wantAskedMs := now, wantDue := true }

/-- `lag_recompute_locked`, the percentiles. -/
def lagRecompute : HeadInfo :=
  let v := (((List.finRange 16).take a.lagN).map a.lag).insertionSort (· ≤ ·)
  if a.lagN = 0 then a
  else
    { a with
      lagP50Ms := v.getD ((a.lagN - 1) / 2) 0
      lagP90Ms := v.getD ((a.lagN * 9 + 9) / 10 - 1) 0
      lagMaxMs := v.getD (a.lagN - 1) 0 }

def noteLag (lagMs : UInt16) : HeadInfo :=
  lagRecompute
    { a with
      lag := Function.update a.lag a.lagNext lagMs
      lagNext := a.lagNext + 1
      lagN := min 16 (a.lagN + 1) }

/-- The case of a received frame; `attach` is the number of the slot. -/
def onRxFrame (attach : Nat) (want : Option UInt8) (e : Envelope) (m : RxFrame) :
    HeadInfo × List BrainAction :=
  let (a, acts) := a.notePreset m.preset
  let a := a.wantCheck want e.now
  ({ a with
      lastRssi := m.rssi
      lastSnr := m.snr
      rssiMin := if m.rssi < a.rssiMin then m.rssi else a.rssiMin
      rssiMax := if a.rssiMax < m.rssi then m.rssi else a.rssiMax
      rxFrames := if e.queued then a.rxFrames + 1 else a.rxFrames
      rxDropped := if e.queued then a.rxDropped else a.rxDropped + 1 },
    acts ++ [.inject m.wire ⟨attach, m.preset, m.rssi, m.snr, m.rxMs⟩])

def onStatus (want : Option UInt8) (e : Envelope) (m : Status) : HeadInfo × List BrainAction :=
  let (a, acts) := { a with status := some m }.notePreset m.preset
  (a.wantCheck want e.now, acts)

/-- The result code of a relay the head has withdrawn, `MESHTASTIC_ATTACHMENT_RC_CANCELLED`. -/
def rcCancelled : Int8 := -128

def onTxResult (rcTime : Int8) (m : TxResult) : HeadInfo :=
  let a := { a with
    txResults := a.txResults + 1
    lastTxRc := m.rc
    lastTxDefers := m.defers
    txCancelled := if m.rc = rcCancelled then a.txCancelled + 1 else a.txCancelled
    txLate := if m.rc ≠ rcCancelled ∧ m.rc = rcTime then a.txLate + 1 else a.txLate
    txFailed :=
      if m.rc ≠ rcCancelled ∧ m.rc ≠ rcTime ∧ m.rc ≠ 0 then a.txFailed + 1 else a.txFailed }
  if m.hasLag then a.noteLag m.lagMs else a

/-- What an envelope does in the slot of its node. -/
def receive (rcTime : Int8) (attach : Nat) (want : Option UInt8) (e : Envelope) :
    HeadInfo × List BrainAction :=
  let a := a.touch e
  match decode e.env with
  | .ok (.rxFrame m) => a.onRxFrame attach want e m
  | .ok (.status m) => a.onStatus want e m
  | .ok (.txResult m) => (a.onTxResult rcTime m, [])
  | .ok (.txFrame _) | .ok (.setPreset _) | .ok (.txCancel _) | .ok (.setPolicy _) | .error _ =>
    ({ a with rejected := a.rejected + 1 }, [])

end HeadInfo

/-- `tab` with `used` (slot 0, the local radio, is not in it), `allow`, `want`, and what the
bearers report of their links. -/
structure Brain (cfg : BrainConfig) where
  tab : Fin cfg.attachmentMax → Option HeadInfo
  allow : Fin cfg.allowMax → UInt32
  want : Fin cfg.attachmentMax → Want
  trusted : Option Nat → UInt32 → Bool

namespace Brain

variable {cfg : BrainConfig}
variable (s : Brain cfg) (node : UInt32)

def init : Brain cfg := ⟨fun _ => none, fun _ => 0, fun _ => ⟨0, 0⟩, fun _ _ => false⟩

def findLocked : Option (Fin cfg.attachmentMax × HeadInfo) :=
  (List.finRange cfg.attachmentMax).findSome? fun i =>
    (s.tab i).bind fun a => if a.node = node then some (i, a) else none

def allowedLocked : Bool :=
  (List.finRange cfg.allowMax).any fun i => s.allow i == node

def wantFindLocked : Option UInt8 :=
  ((List.finRange cfg.attachmentMax).find? fun i => (s.want i).node == node).map fun i =>
    (s.want i).preset

/-- The slot `admit_locked` takes. -/
def freeSlot : Option (Fin cfg.attachmentMax) :=
  (List.finRange cfg.attachmentMax).find? fun i => (s.tab i).isNone

def put (i : Fin cfg.attachmentMax) (a : Option HeadInfo) : Brain cfg :=
  { s with tab := Function.update s.tab i a }

/-- The envelope of a node that has, or is given, the slot. -/
def receive (s : Brain cfg) (i : Fin cfg.attachmentMax) (a : HeadInfo) (e : Envelope) :
    Brain cfg × List BrainAction :=
  let (a, acts) := a.receive cfg.rcTime (i.val + 1) (s.wantFindLocked e.node) e
  (s.put i (some a), acts)

def ingestFrom (e : Envelope) : Brain cfg × List BrainAction :=
  if e.node = 0 then (s, [])
  else
    match s.findLocked e.node with
    | some (i, a) => s.receive i a e
    | none =>
      match decode e.env with
      | .error _ => (s, [])
      | .ok _ =>
        if !s.allowedLocked e.node && !s.trusted e.bearer e.node then (s, [])
        else
          match s.freeSlot with
          | none => (s, [])
          | some i => s.receive i (.admitted e.node) e

def linkDown (bearer : Option Nat) (node : UInt32) (now : Nat) : Brain cfg :=
  match s.findLocked node with
  | some (i, a) =>
    if a.bearer = bearer ∨ a.bearer = none then
      s.put i (some { a with linkUp := false, downMs := now })
    else s
  | none => s

/-- `evict_fn`. -/
def evict (now : Nat) : Brain cfg :=
  { s with
    tab := fun i => (s.tab i).filter fun a =>
      !(!a.linkUp && a.downMs != 0 && decide (cfg.evictSec * 1000 ≤ now - a.downMs)) }

def allowAdd : Brain cfg :=
  if node = 0 ∨ s.allowedLocked node = true then s
  else
    match (List.finRange cfg.allowMax).find? fun i => s.allow i == 0 with
    | some i => { s with allow := Function.update s.allow i node }
    | none => s

/-- What happens at the brain. The bearers change what they report of a link as it is bonded,
encrypted or lost. -/
inductive Event (cfg : BrainConfig) where
  | envelope (e : Envelope)
  | linkDown (bearer : Option Nat) (node : UInt32) (now : Nat)
  | evict (now : Nat)
  | forget (i : Fin cfg.attachmentMax)
  | allowAdd (node : UInt32)
  | allowClear
  | setWant (want : Fin cfg.attachmentMax → Want)
  | linkTrust (bearer : Option Nat) (node : UInt32) (trusted : Bool)

def step : Event cfg → Brain cfg
  | .envelope e => (s.ingestFrom e).1
  | .linkDown bearer node now => s.linkDown bearer node now
  | .evict now => s.evict now
  | .forget i => s.put i none
  | .allowAdd node => s.allowAdd node
  | .allowClear => { s with allow := fun _ => 0 }
  | .setWant want => { s with want := want }
  | .linkTrust bearer node trusted =>
    { s with trusted := fun b n => if b = bearer ∧ n = node then trusted else s.trusted b n }

end Brain

end Zephyrtastic.Attachment
