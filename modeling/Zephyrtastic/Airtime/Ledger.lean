import Mathlib.Data.UInt
import Zephyrtastic.Lib.Run
import Zephyrtastic.Lib.Window

/-!
# The airtime ledger

Airtime is logged into rings of buckets: one ring of sixty minutes for what this
node transmits, and for every preset a ring of six periods of ten seconds for what
it has on its channel.
-/

namespace Zephyrtastic.Airtime

open Window

/-- `MESHTASTIC_AIRTIME_PRESET_SLOTS`. -/
abbrev PresetSlot := Fin 15

def slotCustom : PresetSlot := Fin.last 14

/-- `mt.use_preset` and the number of `mt.modem_preset`. -/
structure Radio where
  usePreset : Bool
  modemPreset : UInt32
  deriving DecidableEq, Repr

/-- The channel a radio is on: a preset, or none for a custom configuration. -/
def Radio.channel (r : Radio) : Option UInt32 := if r.usePreset then some r.modemPreset else none

def airtimeSlot (r : Radio) : PresetSlot :=
  if !r.usePreset then slotCustom
  else if h : r.modemPreset.toNat < 14 then ⟨r.modemPreset.toNat, Nat.lt_succ_of_lt h⟩
  else slotCustom

/-- `enum meshtastic_airtime_type`. -/
inductive Kind where
  | tx | rx | rxAll
  deriving DecidableEq, Repr

/-- `struct meshtastic_airtime_state`. -/
structure Ledger where
  channelUtilization : PresetSlot → Fin 6 → UInt32
  utilizationTx : Fin 60 → UInt32
  lastUtilTick : UInt32
  lastTxTick : UInt32
  initialized : Bool

/-- `now_seconds`, by the uptime in milliseconds. -/
def nowSeconds (uptime : Nat) : UInt32 := UInt32.ofNat (uptime / 1000)

/-- An amount goes into the bucket of one ring. -/
def addChannel (rings : PresetSlot → Fin 6 → UInt32) (sl : PresetSlot) (tick : Nat) (ms : UInt32) :
    PresetSlot → Fin 6 → UInt32 :=
  Function.update rings sl (Window.add (rings sl) tick ms)

namespace Ledger

def init : Ledger := ⟨fun _ _ => 0, fun _ => 0, 0, 0, false⟩

def advance (a : Ledger) (sec : UInt32) : Ledger :=
  if !a.initialized then
    { a with initialized := true, lastUtilTick := sec / 10, lastTxTick := sec / 60 }
  else
    { a with
      channelUtilization := fun sl =>
        roll (a.channelUtilization sl) a.lastUtilTick.toNat (sec / 10 - a.lastUtilTick).toNat
      lastUtilTick := sec / 10
      utilizationTx := roll a.utilizationTx a.lastTxTick.toNat (sec / 60 - a.lastTxTick).toNat
      lastTxTick := sec / 60 }

def log (a : Ledger) (sec : UInt32) (r : Radio) (kind : Kind) (ms : UInt32) : Ledger :=
  let a := a.advance sec
  let rings := addChannel a.channelUtilization (airtimeSlot r) (sec / 10).toNat ms
  match kind with
  | .tx =>
    { a with
      utilizationTx := Window.add a.utilizationTx (sec / 60).toNat ms
      channelUtilization := rings }
  | .rx | .rxAll => { a with channelUtilization := rings }

/-- The sum `channel_util_slot_locked` turns into a percentage. -/
def channelSum (a : Ledger) (sl : PresetSlot) : UInt32 := ∑ i, a.channelUtilization sl i

/-- The sum `meshtastic_airtime_tx_util_percent` turns into one. -/
def txSum (a : Ledger) : UInt32 := ∑ i, a.utilizationTx i

end Ledger

inductive Op where
  | log (kind : Kind) (ms : UInt32)
  | read
  deriving DecidableEq, Repr

/-- One access: its uptime in milliseconds and the radio as it is then. -/
structure Event where
  uptime : Nat
  radio : Radio
  op : Op
  deriving DecidableEq, Repr

def Ledger.step (a : Ledger) (e : Event) : Ledger :=
  match e.op with
  | .log kind ms => a.log (nowSeconds e.uptime) e.radio kind ms
  | .read => a.advance (nowSeconds e.uptime)

/-- The rings as a clock of one tick a second keeps them. -/
structure Clocked where
  channelUtilization : PresetSlot → Fin 6 → UInt32
  utilizationTx : Fin 60 → UInt32
  second : Nat

namespace Clocked

def init : Clocked := ⟨fun _ _ => 0, fun _ => 0, 0⟩

/-- A second passes: a bucket that is entered with it is emptied. -/
def tick (g : Clocked) : Clocked where
  channelUtilization := fun sl =>
    if (g.second + 1) / 10 = g.second / 10 then g.channelUtilization sl
    else enter (g.channelUtilization sl) (g.second / 10)
  utilizationTx :=
    if (g.second + 1) / 60 = g.second / 60 then g.utilizationTx
    else enter g.utilizationTx (g.second / 60)
  second := g.second + 1

def ticks (g : Clocked) : Nat → Clocked
  | 0 => g
  | k + 1 => (g.ticks k).tick

/-- The clock runs until the uptime. -/
def till (g : Clocked) (uptime : Nat) : Clocked := g.ticks (uptime / 1000 - g.second)

def step (g : Clocked) (e : Event) : Clocked :=
  let g := g.till e.uptime
  match e.op with
  | .log kind ms =>
    { g with
      channelUtilization :=
        addChannel g.channelUtilization (airtimeSlot e.radio) (g.second / 10) ms
      utilizationTx :=
        if kind = .tx then Window.add g.utilizationTx (g.second / 60) ms else g.utilizationTx }
  | .read => g

end Clocked

end Zephyrtastic.Airtime
