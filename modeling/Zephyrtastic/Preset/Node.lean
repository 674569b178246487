import Zephyrtastic.Channels.Store
import Zephyrtastic.Preset.Region

/-!
# Writing the LoRa section and the channels of a running node

`meshtastic_config_store_set_config` and `meshtastic_config_store_set_channel`
store a value, bring the context into line with it and push it to the radio, in
this order.
-/

namespace Zephyrtastic.Preset

open Channels (Slot Channel Table Modem ModemPreset presetDisplayName ascii)
open Channels.Table (AppConfig)

/-- What a write returns when it does not return 0. -/
inductive Errno where
  | einval | eperm | enotsup
  /-- Whatever `lora_config` returns. -/
  | radio
  deriving DecidableEq, Repr

/-- The build, and the conversion of `override_frequency`, a float, to Hz. -/
structure Build (F : Type) where
  head : Bool
  /-- `CONFIG_MESHTASTIC_DEFAULT_REGION`. -/
  defaultRegion : RegionCode
  /-- `cfg->frequency`. -/
  bootFrequencyHz : Nat
  /-- `override_frequency > 0.0f`. -/
  positive : F → Bool
  /-- `(uint32_t)(override_frequency * 1000000.0f)`. -/
  toHz : F → Nat

/-! ### Sections -/

/-- `config_names`. -/
inductive ConfigName where
  | device | position | power | network | display | lora | bluetooth | security | sessionkey
  | deviceUi
  deriving DecidableEq, Repr

/-- `meshtastic_Config_LoRaConfig`; in every section, `rest` is what nothing here reads. -/
structure LoraConfig (F P : Type) where
  region : RegionCode
  modemPreset : ModemPreset
  usePreset : Bool
  bandwidth : Nat
  spreadFactor : Nat
  codingRate : Nat
  overrideFrequency : F
  overrideDutyCycle : Bool
  hopLimit : Nat
  rest : P
  deriving DecidableEq

/-- `meshtastic_Config_DeviceConfig`, its enumerations by number. -/
structure DeviceConfig (P : Type) where
  role : Nat
  rebroadcastMode : Nat
  rest : P
  deriving DecidableEq

structure BluetoothConfig (P : Type) where
  mode : Nat
  rest : P
  deriving DecidableEq

/-- The sections that `config_is_valid` has no case for. -/
inductive PlainName where
  | position | power | network | display | security | sessionkey | deviceUi
  deriving DecidableEq, Repr

inductive Config (F P : Type) where
  | device (c : DeviceConfig P)
  | lora (c : LoraConfig F P)
  | bluetooth (c : BluetoothConfig P)
  | plain (name : PlainName) (c : P)
  /-- A tag that `index_for_config_tag` does not find. -/
  | untagged

variable {F P S : Type}

/-- The sections of the store. -/
structure Sections (F P : Type) where
  device : DeviceConfig P
  lora : LoraConfig F P
  bluetooth : BluetoothConfig P
  plain : PlainName → P

def PlainName.name : PlainName → ConfigName
  | .position => .position
  | .power => .power
  | .network => .network
  | .display => .display
  | .security => .security
  | .sessionkey => .sessionkey
  | .deviceUi => .deviceUi

/-- The section that a config goes into. -/
def Config.name : Config F P → Option ConfigName
  | .device _ => some .device
  | .lora _ => some .lora
  | .bluetooth _ => some .bluetooth
  | .plain name _ => some name.name
  | .untagged => none

def Sections.put (s : Sections F P) : Config F P → Sections F P
  | .device device => { s with device }
  | .lora lora => { s with lora }
  | .bluetooth bluetooth => { s with bluetooth }
  | .plain name c => { s with plain := Function.update s.plain name c }
  | .untagged => s

/-- `config_is_valid` of a LoRa section. -/
def LoraConfig.isValid (b : Build F) (c : LoraConfig F P) : Bool :=
  c.region ≠ .lora24
    && (if c.region = .unset then !b.positive c.overrideFrequency
      else match regionInfo c.region with
        | none => false
        | some info =>
          !info.licensedOnly
            && (!b.positive c.overrideFrequency
              || (info.freqStartHz ≤ b.toHz c.overrideFrequency
                && b.toHz c.overrideFrequency ≤ info.freqEndHz)))
    && c.hopLimit ≤ 7

/-- `config_is_valid`, with CLIENT_BASE, CORE_PORTNUMS_ONLY and NO_PIN by number. -/
def Config.isValid (b : Build F) : Config F P → Bool
  | .device c => c.role ≤ 12 && c.rebroadcastMode ≤ 5
  | .lora c => c.isValid b
  | .bluetooth c => c.mode ≤ 2
  | .plain _ _ => true
  | .untagged => false

/-! ### What the context takes from the LoRa section -/

def loraBwCodeToHz : Nat → Option Nat
  | 16 => some 15600
  | 62 => some 62500
  | 125 => some 125000
  | 250 => some 250000
  | 400 => some 406250
  | 500 => some 500000
  | 800 => some 812500
  | 1600 => some 1625000
  | _ => none

namespace LoraConfig

variable (c : LoraConfig F P)

def modem : Modem := ⟨c.modemPreset, c.usePreset⟩

/-- The parameters of the section, the custom ones where they are asked for and right. -/
def params : ModemParams :=
  if c.usePreset then presetToParams c.modemPreset false
  else match loraBwCodeToHz c.bandwidth with
    | some bandwidthHz =>
      if 5 ≤ c.spreadFactor ∧ c.spreadFactor ≤ 12 ∧ 5 ≤ c.codingRate ∧ c.codingRate ≤ 8
      then ⟨bandwidthHz, c.spreadFactor, c.codingRate⟩
      else presetToParams c.modemPreset false
    | none => presetToParams c.modemPreset false

/-- The region that a plan is resolved against, `meshtastic_preset_region`. -/
def planRegion (b : Build F) : RegionCode :=
  if c.region = .unset then b.defaultRegion else c.region

end LoraConfig

/-- `duty`, its ceiling in tenths of a percent. -/
structure Duty where
  regionPct : Nat
  region : RegionCode
  overrideOn : Bool
  deriving DecidableEq, Repr

namespace Duty

/-- Before a region is applied. -/
def initial : Duty := ⟨1000, .unset, false⟩

def setRegion (d : Duty) (region : RegionCode) (pct : Nat) : Duty :=
  { d with region, regionPct := if pct = 0 ∨ 1000 < pct then 1000 else pct }

end Duty

/-! ### The node -/

def primaryName (t : Table) : Bytes := t.getName t.primary

/-- The store, and what the context has of it. `live` holds `mt.modem_preset` and `mt.use_preset`
beside the channel table. -/
structure Node (F P S : Type) where
  channels : Slot → Channel
  sections : Sections F P
  stamps : ConfigName → S
  live : Table
  modem : ModemParams
  frequencyHz : Nat
  duty : Duty
  role : Nat
  hopLimit : Nat
  /-- `gate.generation`. -/
  generation : UInt32

namespace Node

variable (b : Build F)
variable (s : Node F P S)

def presetRegion : RegionCode := s.sections.lora.planRegion b

/-- The channel loop of `meshtastic_config_store_apply_core`, after the preset. -/
def applyChannels : Table :=
  if b.head then { s.live with modem := s.sections.lora.modem }
  else (Channels.Device.applyCore ⟨⟨s.channels, s.sections.lora.modem⟩, s.live⟩).live

/-- The end of `meshtastic_config_store_apply_core`: the frequency, and with a plan the ceiling. -/
def applyFrequency : Node F P S :=
  let c := s.sections.lora
  if b.positive c.overrideFrequency then
    let hz := b.toHz c.overrideFrequency
    if 902000000 ≤ hz ∧ hz ≤ 928000000 then { s with frequencyHz := hz } else s
  else
    match freqPlan (c.planRegion b) s.live.modem (primaryName s.live) with
    | some plan =>
      { s with
        frequencyHz := plan.frequencyHz
        duty := s.duty.setRegion (c.planRegion b) plan.dutyCycle }
    | none => s

/-- `meshtastic_config_store_apply_core` up to the frequency. -/
def applySections : Node F P S :=
  let c := s.sections.lora
  { s with
    live := s.applyChannels b
    modem := c.params
    duty := { s.duty with overrideOn := c.overrideDutyCycle }
    role := s.sections.device.role
    hopLimit := if 1 ≤ c.hopLimit ∧ c.hopLimit ≤ 7 then c.hopLimit else s.hopLimit }

/-- Without `reconcile_stamped_seeds_locked`, and without `fem_lna_mode`. -/
def applyCore : Node F P S := (s.applySections b).applyFrequency b

/-- The new frequency pushed to the radio, and the generation counted up behind it. -/
def tune (plan : FreqPlan) (retune : Bool) (s : Node F P S) : Node F P S × Option Errno :=
  let s := { s with frequencyHz := plan.frequencyHz }
  if retune then ({ s with generation := s.generation + 1 }, none) else (s, some .radio)

def applyStored (retune : Bool) (s : Node F P S) : Node F P S × Option Errno :=
  match freqPlan (s.presetRegion b) s.live.modem (primaryName s.live) with
  | none => (s, some .enotsup)
  | some plan => s.tune plan retune

/-- The section and its stamp in the store. -/
def put (s : Node F P S) (config : Config F P) (stamp : S) : Node F P S :=
  match config.name with
  | none => s
  | some name =>
    { s with
      sections := s.sections.put config
      stamps := Function.update s.stamps name stamp }

def setConfig (config : Config F P) (stamp : S) (retune : Bool) (s : Node F P S) :
    Node F P S × Option Errno :=
  if config.isValid b then
    let s := (s.put config stamp).applyCore b
    match config with
    | .lora _ => s.applyStored b retune
    | _ => (s, none)
  else (s, some .einval)

theorem index_lt {index : Nat} {ch : Channel} (h : index < 8 ∧ ch.isValid) : index < 8 := h.1

def setChannel (index : Nat) (ch : Channel) (retune : Bool) (s : Node F P S) :
    Node F P S × Option Errno :=
  if b.head then (s, some .eperm)
  else if h : index < 8 ∧ ch.isValid then
    { s with
      channels := Function.update s.channels ⟨index, index_lt h⟩ ch
      live := s.live.setSlotAt ⟨index, index_lt h⟩ ch }.applyStored b retune
  else (s, some .einval)

/-- The preset and its parameters in the context, and what the table derives from it. -/
def enterPreset (preset : ModemPreset) (s : Node F P S) : Node F P S :=
  { s with
    modem := presetToParams preset false
    live := ({ s.live with modem := { s.live.modem with preset } } : Table).refreshDerived }

def presetSwitch (preset : ModemPreset) (retune : Bool) (s : Node F P S) :
    Node F P S × Option Errno :=
  if presetDisplayName ⟨preset, true⟩ = ascii "Invalid" then (s, some .einval)
  else
    let t := s.enterPreset preset
    match freqPlan (t.presetRegion b) t.live.modem (primaryName t.live) with
    | none => (t.enterPreset s.live.modem.preset, some .enotsup)
    | some plan => t.tune plan retune

/-- `meshtastic_init` up to the records: the context of a build before anything is applied. -/
def powerUp (cfg : AppConfig) (channels : Slot → Channel) (sections : Sections F P)
    (stamps : ConfigName → S) (hopLimit : Nat) : Node F P S where
  channels
  sections
  stamps
  live :=
    if b.head then Table.blank ⟨.longFast, true⟩ ⟨[], 0, []⟩
    else { Channels.powerUp cfg with modem := ⟨.longFast, true⟩ }
  modem := presetToParams .longFast false
  frequencyHz := b.bootFrequencyHz
  duty := .initial
  role := 0
  hopLimit
  generation := 1

/-! ### What each write leaves -/

variable {b} {s : Node F P S}

@[simp] theorem tune_ok (plan : FreqPlan) : (s.tune plan true).2 = none := rfl

@[simp] theorem tune_failed (plan : FreqPlan) : (s.tune plan false).2 = some .radio := rfl

theorem applyStored_eq_none_iff {retune : Bool} : (s.applyStored b retune).2 = none ↔
    retune = true ∧ (regionInfo (s.presetRegion b)).isSome = true := by
  rw [← freqPlan_isSome_iff _ s.live.modem (primaryName s.live)]
  unfold applyStored
  cases freqPlan (s.presetRegion b) s.live.modem (primaryName s.live) <;> cases retune <;> simp

theorem applyStored_frame (retune : Bool) :
    ∃ f g, (s.applyStored b retune).1 = { s with frequencyHz := f, generation := g } := by
  unfold applyStored
  split
  · exact ⟨_, _, rfl⟩
  · cases retune <;> exact ⟨_, _, rfl⟩

theorem applyFrequency_frame (s : Node F P S) :
    ∃ f d, s.applyFrequency b = { s with frequencyHz := f, duty := d } := by
  unfold applyFrequency
  dsimp only
  split
  · split
    · exact ⟨_, _, rfl⟩
    · exact ⟨_, _, rfl⟩
  · split
    · exact ⟨_, _, rfl⟩
    · exact ⟨_, _, rfl⟩

theorem applyCore_frame (s : Node F P S) :
    ∃ f d, s.applyCore b = { s.applySections b with frequencyHz := f, duty := d } :=
  applyFrequency_frame (s.applySections b)

@[simp] theorem applyCore_sections : (s.applyCore b).sections = s.sections := by
  obtain ⟨f, d, h⟩ := applyCore_frame (b := b) s
  rw [h]
  rfl

end Node

end Zephyrtastic.Preset
