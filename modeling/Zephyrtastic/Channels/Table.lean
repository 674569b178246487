import Mathlib.Data.Fintype.Basic
import Zephyrtastic.Lib.Bytes

/-!
# The channel table

Eight channel slots, one of them the primary, and for each slot the wire hash that
a frame on the channel carries.
-/

namespace Zephyrtastic.Channels

variable (ch : Channel)

/-- `MESHTASTIC_MAX_CHANNELS`. -/
abbrev Slot := Fin 8

inductive ModemPreset where
  | longFast | longSlow | mediumSlow | mediumFast | shortSlow | shortFast | longModerate
  | shortTurbo | longTurbo | liteFast | liteSlow | narrowFast | narrowSlow | mediumTurbo
  | tinyFast | tinySlow
  /-- A value that no case of the display-name switch names. -/
  | unknown (value : Nat)
  deriving DecidableEq, Repr

/-- `mt.modem_preset` and `mt.use_preset`. -/
structure Modem where
  preset : ModemPreset
  usePreset : Bool
  deriving DecidableEq, Repr

/-- The bytes of a C string literal. -/
def ascii (s : String) : Bytes := s.toList.map fun c => UInt8.ofNat c.toNat

def presetDisplayName (m : Modem) : Bytes :=
  if !m.usePreset then ascii "Custom"
  else match m.preset with
    | .shortTurbo => ascii "ShortTurbo"
    | .shortFast => ascii "ShortFast"
    | .shortSlow => ascii "ShortSlow"
    | .mediumFast => ascii "MediumFast"
    | .mediumSlow => ascii "MediumSlow"
    | .mediumTurbo => ascii "MediumTurbo"
    | .longFast => ascii "LongFast"
    | .longSlow => ascii "LongSlow"
    | .longModerate => ascii "LongMod"
    | .longTurbo => ascii "LongTurbo"
    | .liteFast => ascii "LiteFast"
    | .liteSlow => ascii "LiteSlow"
    | .narrowFast => ascii "NarrowFast"
    | .narrowSlow => ascii "NarrowSlow"
    | .tinyFast => ascii "TinyFast"
    | .tinySlow => ascii "TinySlow"
    | .unknown _ => ascii "Invalid"

inductive Role where
  | disabled
  | primary
  | secondary
  /-- A wire value outside the enumeration. -/
  | unknown (value : Nat)
  deriving DecidableEq, Repr

/-- `meshtastic_ChannelSettings`. The name is a C string; the key array holds 32 bytes. -/
structure Settings where
  name : Bytes
  psk : Bytes
  psk_le : psk.length ≤ 32
  uplinkEnabled : Bool
  downlinkEnabled : Bool
  /-- `module_settings.position_precision`, when `has_module_settings`. -/
  positionPrecision : Option Nat
  deriving DecidableEq, Repr

def Settings.zero : Settings := ⟨[], [], Nat.zero_le _, false, false, none⟩

structure Channel where
  role : Role
  hasSettings : Bool
  settings : Settings
  deriving DecidableEq, Repr

inductive Errno where
  | einval
  | enoent
  deriving DecidableEq, Repr

def xorHashBytes (data : Bytes) : UInt8 := data.foldl (· ^^^ ·) 0

def defaultPsk : Bytes :=
  [0xd4, 0xf1, 0xbb, 0x3a, 0x20, 0x29, 0x07, 0x59, 0xf0, 0xbc, 0xff, 0xab, 0xcf, 0x4e, 0x69, 0x01]

/-- `expand_short_psk`: the last byte of the default key moves with the index. -/
def expandShortPsk (pskIndex : UInt8) : Bytes :=
  if 1 < pskIndex then defaultPsk.take 15 ++ [0x01 + (pskIndex - 1)] else defaultPsk

/-- A key in the buffer of `n` zero bytes. -/
def padTo (n : Nat) (key : Bytes) : Bytes := key ++ List.replicate (n - key.length) 0

/-- The key a stored one of 2 to 32 bytes stands for; cleartext is the empty key. -/
def Settings.key (s : Settings) : Bytes :=
  match s.psk with
  | [] => []
  | [pskIndex] => if pskIndex = 0 then [] else expandShortPsk pskIndex
  | psk =>
    if psk.length < 16 then padTo 16 psk
    else if psk.length ≠ 16 ∧ psk.length < 32 then padTo 32 psk
    else psk

/-- The primary's part of the context: `mt.psk`, `mt.ch_hash`, `mt.channel_name`. -/
structure Derived where
  psk : Bytes
  chHash : UInt8
  channelName : Bytes
  deriving DecidableEq, Repr

/-- `channel_slots`, `channel_hashes`, `primary_index` and what the table reads and
writes of the context. -/
structure Table where
  slots : Slot → Channel
  hashes : Slot → UInt8
  primary : Slot
  modem : Modem
  mt : Derived

def Channel.withRole (role : Role) : Channel := { ch with role }

/-- A slot that `channel_get_key` takes for in use. -/
def Channel.keyed : Prop := ch.hasSettings = true ∧ ch.role ≠ .disabled

instance (ch : Channel) : Decidable ch.keyed := inferInstanceAs (Decidable (_ ∧ _))

/-- A secondary with no key of its own. -/
def Channel.borrows : Prop := ch.role = .secondary ∧ ch.settings.psk = []

instance (ch : Channel) : Decidable ch.borrows := inferInstanceAs (Decidable (_ ∧ _))

/-- The name a channel goes by under a modem setting. -/
def Channel.nameOn (m : Modem) : Bytes :=
  if !ch.hasSettings || ch.settings.name.isEmpty then presetDisplayName m else ch.settings.name

/-- `channel_get_key` at a slot that borrows from nobody. -/
def Channel.ownKey : Except Errno Bytes :=
  if ch.keyed then .ok ch.settings.key else .error .enoent

namespace Table

variable (t : Table) (i : Slot)

/-- `channel_get_key`. The recursive call is at the primary, where the index test fails. -/
def getKey : Except Errno Bytes :=
  if (t.slots i).keyed ∧ (t.slots i).borrows ∧ i ≠ t.primary
  then (t.slots t.primary).ownKey
  else (t.slots i).ownKey

def getName : Bytes := (t.slots i).nameOn t.modem

def generateHash : UInt8 :=
  match t.getKey i with
  | .error _ => 0
  | .ok key => if key.isEmpty then xorHashBytes (t.getName i)
    else xorHashBytes (t.getName i) ^^^ xorHashBytes key

def setChannel (ch : Channel) : Table :=
  { t with slots := Function.update t.slots i ch }

end Table

/-- What `channel_fixup` makes of the stored channel. -/
def Channel.fixup (ch : Channel) : Channel :=
  let ch := if ch.hasSettings then ch else ⟨.disabled, true, .zero⟩
  if ch.settings.name = ascii "Default"
  then { ch with settings := { ch.settings with name := [] } } else ch

/-- `seed_default_primary`, without the hash. -/
def Channel.defaultPrimary : Channel where
  role := .primary
  hasSettings := true
  settings := ⟨[], [1], by decide, true, true, some 13⟩

namespace Table

variable (t : Table) (i : Slot) (ch : Channel)
variable (modem : Modem) (mt : Derived)

def channelFixup : Table :=
  let t := t.setChannel i (t.slots i).fixup
  { t with hashes := Function.update t.hashes i (t.generateHash i) }

/-- A slot assigned and fixed up. -/
def putChannel : Table :=
  (t.setChannel i ch).channelFixup i

/-- `demote_other_primary`, at one index of its loop. -/
def demoteAt (index : Slot) (t : Table) (i : Slot) : Table :=
  if i ≠ index ∧ (t.slots i).role = .primary
  then t.putChannel i ((t.slots i).withRole .secondary)
  else t

def demoteOtherPrimary (index : Slot) : Table :=
  (List.finRange 8).foldl (demoteAt index) t

def seedDefaultPrimary : Table := t.putChannel i .defaultPrimary

/-- The scan of `enforce_primary_invariant`: the last slot with the role. -/
def lastPrimary : Option Slot :=
  (List.finRange 8).foldl (fun found i => if (t.slots i).role = .primary then some i else found)
    none

def enforcePrimaryInvariant : Table :=
  match t.lastPrimary with
  | some i => { t with primary := i }
  | none =>
    if (t.slots t.primary).role = .secondary then
      t.putChannel t.primary ((t.slots t.primary).withRole .primary)
    else { t.seedDefaultPrimary 0 with primary := 0 }

/-- The refresh that ends `set_slot` and `refresh_derived`; the key is copied when there is
one to copy. -/
def refreshPrimary : Table :=
  { t with mt := {
      psk := match t.getKey t.primary with
        | .ok key => key
        | .error _ => t.mt.psk
      chHash := t.hashes t.primary
      channelName := t.getName t.primary } }

/-- `meshtastic_channels_set_slot`, up to the check of the primary. -/
def editSlot : Table :=
  let t := t.setChannel i ch
  let t := if ch.role = .primary then { t with primary := i }.demoteOtherPrimary i else t
  t.channelFixup i

/-- `meshtastic_channels_set_slot` at a slot of the table. -/
def setSlotAt : Table :=
  (t.editSlot i ch).enforcePrimaryInvariant.refreshPrimary

def setSlot (index : Nat) (ch : Channel) : Except Errno Table :=
  if h : index < 8 then .ok (t.setSlotAt ⟨index, h⟩ ch) else .error .einval

def refreshDerived : Table :=
  ((List.finRange 8).foldl channelFixup t).refreshPrimary

/-- A slot as `meshtastic_channels_init_defaults` leaves it unused. -/
def unusedChannel : Channel := ⟨.disabled, true, .zero⟩

/-- The table zeroed. -/
def blank : Table :=
  ⟨fun _ => ⟨.disabled, false, .zero⟩, fun _ => 0, 0, modem, mt⟩

/-- `meshtastic_channels_init_defaults`; the context is left as it was. -/
def initDefaults : Table :=
  (List.finRange 8).tail.foldl (fun t i => t.putChannel i unusedChannel)
    ((blank modem mt).seedDefaultPrimary 0)

/-- The part of the application's configuration the table reads: a channel name, and a key
that `meshtastic_init` has checked to be of 16 or 32 bytes. -/
structure AppConfig where
  channelName : Option Bytes
  psk : Bytes
  psk_length : psk.length = 16 ∨ psk.length = 32

/-- The configured name and key over the seeded settings. The name field holds 11
characters, and the well-known key keeps the one-byte form of the seed. -/
def AppConfig.apply (cfg : AppConfig) (s : Settings) : Settings :=
  let s := { s with name := (cfg.channelName.map (·.take 11)).getD s.name }
  if cfg.psk = defaultPsk then s
  else { s with psk := cfg.psk, psk_le := by have := cfg.psk_length; omega }

def initFromConfig (cfg : AppConfig) : Table :=
  let t := initDefaults modem mt
  let t := t.putChannel 0 { t.slots 0 with settings := cfg.apply (t.slots 0).settings }
  { t with mt := ⟨cfg.psk, t.hashes t.primary, t.getName t.primary⟩ }

/-- A slot whose role is not DISABLED, by index. -/
def enabledSlot (index : Nat) : Option Slot :=
  if h : index < 8 then
    if (t.slots ⟨index, h⟩).role ≠ .disabled then some ⟨index, h⟩ else none
  else none

/-- The node database's say in `resolve_send_index`: the channel a known peer was heard on. -/
def peerSlot (dest : UInt32) (peerChannel : UInt32 → Option UInt8) : Option Slot :=
  if dest ≠ 0 ∧ dest ≠ 0xffffffff then
    match peerChannel dest with
    | some channel => if channel ≠ 0 then t.enabledSlot channel.toNat else none
    | none => none
  else none

def resolveSendIndex (peerChannel : UInt32 → Option UInt8) (dest : UInt32)
    (channelIndex wireHash : UInt8) : Slot :=
  match t.enabledSlot channelIndex.toNat with
  | some i => i
  | none =>
    let hashed := if wireHash ≠ 0 then (List.finRange 8).find? (t.hashes · = wireHash) else none
    match hashed.or (t.peerSlot dest peerChannel) with
    | some i => i
    | none => t.primary

/-- The presets from 0 to `_meshtastic_Config_LoRaConfig_ModemPreset_MAX`; VERY_LONG_SLOW has no
case in the display-name switch. -/
def presets : List ModemPreset :=
  [.longFast, .longSlow, .unknown 2, .mediumSlow, .mediumFast, .shortSlow, .shortFast,
    .longModerate, .shortTurbo, .longTurbo, .liteFast, .liteSlow, .narrowFast, .narrowSlow,
    .tinyFast, .tinySlow, .mediumTurbo]

/-- The slot is named after one of the presets. -/
def presetNamed : Bool :=
  presets.any fun p => t.getName i = presetDisplayName ⟨p, true⟩

def isDefault : Bool :=
  (t.slots i).role ≠ .disabled && t.getName i = presetDisplayName t.modem
    && (match t.getKey i with
      | .ok key => key = defaultPsk
      | .error _ => false)

/-- The default key or one of its one-byte relatives: the last byte is 0x01 to 0x0a. -/
def defaultFamily (key : Bytes) : Bool :=
  key.length = 16 && key.take 15 = defaultPsk.take 15
    && (key.drop 15).all fun b => 0x01 ≤ b && b ≤ 0x0a

def isWellKnown : Bool :=
  (t.slots i).role ≠ .disabled && (t.slots i).hasSettings
    && ((t.slots i).settings.psk.length ≤ 1 || (match t.getKey i with
      | .ok key => key.isEmpty || defaultFamily key
      | .error _ => false))
    && t.presetNamed i

def isPublicDefault : Bool :=
  (t.slots i).role ≠ .disabled
    && (match t.getKey i with
      | .ok key => key = defaultPsk
      | .error _ => false)
    && t.presetNamed i

/-- What reaches the table: an edit of a slot, or a change of the modem setting that
`refresh_derived` follows. -/
inductive Event where
  | setSlot (index : Nat) (ch : Channel)
  | presetChange (modem : Modem)
  deriving DecidableEq

def step : Event → Table
  | .setSlot index ch => match t.setSlot index ch with
    | .ok t' => t'
    | .error _ => t
  | .presetChange modem => { t with modem }.refreshDerived

end Table

end Zephyrtastic.Channels
