import Zephyrtastic.Channels.Table

/-!
# Regions, presets and the frequency plan

A region has a band, and a profile that spaces the slots of the band. A preset has
a bandwidth.
-/

namespace Zephyrtastic.Preset

open Channels (ModemPreset Modem presetDisplayName)

inductive RegionCode where
  | unset | us | eu433 | eu868 | cn | jp | anz | ru | kr | tw | india | nz865 | th | lora24 | ua433
  | ua868 | my433 | my919 | sg923 | ph433 | ph868 | ph915 | anz433 | kz433 | kz863 | np865 | br902
  | itu12m | itu22m | itu32m | eu866 | euN868 | itu2125cm | itu170cm | itu270cm | itu370cm
  /-- A value that no table of the firmware names. -/
  | unknown (value : Nat)
  deriving DecidableEq, Repr

/-! ### Presets -/

structure ModemParams where
  bandwidthHz : Nat
  spreadFactor : Nat
  codingRate : Nat
  deriving DecidableEq, Repr

/-- `struct preset_params_row`, without the preset. -/
structure ParamsRow where
  bwNarrowHz : Nat
  bwWideHz : Nat
  spreadFactor : Nat
  codingRate : Nat
  deriving DecidableEq, Repr

/-- `preset_params`, with `preset_params_default` for LONG_FAST and whatever else. -/
def presetParams : ModemPreset → ParamsRow
  | .shortTurbo => ⟨500000, 1625000, 7, 5⟩
  | .shortFast => ⟨250000, 812500, 7, 5⟩
  | .shortSlow => ⟨250000, 812500, 8, 5⟩
  | .mediumFast => ⟨250000, 812500, 9, 5⟩
  | .mediumSlow => ⟨250000, 812500, 10, 5⟩
  | .mediumTurbo => ⟨500000, 1625000, 9, 5⟩
  | .longTurbo => ⟨500000, 1625000, 11, 8⟩
  | .longModerate => ⟨125000, 406250, 11, 8⟩
  | .longSlow => ⟨125000, 406250, 12, 8⟩
  | .liteFast => ⟨125000, 125000, 9, 5⟩
  | .liteSlow => ⟨125000, 125000, 10, 5⟩
  | .narrowFast => ⟨62500, 62500, 7, 6⟩
  | .narrowSlow => ⟨62500, 62500, 8, 6⟩
  | .tinyFast => ⟨15600, 15600, 7, 5⟩
  | .tinySlow => ⟨15600, 15600, 8, 6⟩
  | .longFast | .unknown _ => ⟨250000, 812500, 11, 5⟩

def presetToParams (preset : ModemPreset) (wideLora : Bool) : ModemParams :=
  let row := presetParams preset
  ⟨if wideLora then row.bwWideHz else row.bwNarrowHz, row.spreadFactor, row.codingRate⟩

/-- `struct region_profile`: the licensing and the slot geometry. -/
structure Profile where
  licensedOnly : Bool
  spacingHz : Nat
  paddingHz : Nat
  deriving DecidableEq, Repr

def profileStd : Profile := ⟨false, 0, 0⟩
def profileEu868 : Profile := ⟨false, 0, 0⟩
def profileUndef : Profile := ⟨true, 0, 0⟩
def profileLite : Profile := ⟨false, 400000, 37500⟩
def profileNarrow : Profile := ⟨false, 0, 10400⟩
def profileHam20khz : Profile := ⟨true, 0, 2200⟩
def profileHam100khz : Profile := ⟨true, 0, 18750⟩

/-- `regions`: the profile of a region. -/
def profileOf : RegionCode → Option Profile
  | .us | .eu433 | .cn | .jp | .anz | .anz433 | .ru | .kr | .tw | .india | .nz865 | .th | .ua433
  | .ua868 | .my433 | .my919 | .sg923 | .ph433 | .ph868 | .ph915 | .kz433 | .kz863 | .np865
  | .br902 | .lora24 => some profileStd
  | .eu868 => some profileEu868
  | .eu866 => some profileLite
  | .euN868 => some profileNarrow
  | .itu12m | .itu22m | .itu32m => some profileHam20khz
  | .itu2125cm | .itu170cm | .itu270cm | .itu370cm => some profileHam100khz
  | .unset => some profileUndef
  | .unknown _ => none

/-- `override_slot`: 0, -1, or a slot. -/
inductive OverrideSlot where
  | channelHash
  | presetHash
  /-- A slot, counted from 1. -/
  | fixed (slot : Nat)
  deriving DecidableEq, Repr

/-- `struct region_freq`, without the region. The duty cycle is in tenths of a percent. -/
structure RegionFreq where
  freqStartHz : Nat
  freqEndHz : Nat
  dutyCycle : Nat
  overrideSlot : OverrideSlot
  wideLora : Bool
  deriving DecidableEq, Repr

/-- `region_freqs`. -/
def regionFreq : RegionCode → Option RegionFreq
  | .us => some ⟨902000000, 928000000, 1000, .channelHash, false⟩
  | .eu433 => some ⟨433000000, 434000000, 100, .channelHash, false⟩
  | .eu868 => some ⟨869400000, 869650000, 100, .channelHash, false⟩
  | .eu866 => some ⟨865600000, 867600000, 25, .channelHash, false⟩
  | .euN868 => some ⟨869400000, 869650000, 100, .fixed 1, false⟩
  | .cn => some ⟨470000000, 510000000, 1000, .channelHash, false⟩
  | .jp => some ⟨920500000, 923500000, 1000, .channelHash, false⟩
  | .anz => some ⟨915000000, 928000000, 1000, .channelHash, false⟩
  | .anz433 => some ⟨433050000, 434790000, 1000, .channelHash, false⟩
  | .ru => some ⟨868700000, 869200000, 1000, .channelHash, false⟩
  | .kr => some ⟨920000000, 923000000, 1000, .channelHash, false⟩
  | .tw => some ⟨920000000, 925000000, 1000, .channelHash, false⟩
  | .india => some ⟨865000000, 867000000, 1000, .channelHash, false⟩
  | .nz865 => some ⟨864000000, 868000000, 1000, .channelHash, false⟩
  | .th => some ⟨920000000, 925000000, 100, .channelHash, false⟩
  | .ua433 => some ⟨433000000, 434700000, 100, .channelHash, false⟩
  | .my433 => some ⟨433000000, 435000000, 1000, .channelHash, false⟩
  | .my919 => some ⟨919000000, 924000000, 1000, .channelHash, false⟩
  | .sg923 => some ⟨917000000, 925000000, 1000, .channelHash, false⟩
  | .ph433 => some ⟨433000000, 434700000, 1000, .channelHash, false⟩
  | .ph868 => some ⟨868000000, 869400000, 1000, .channelHash, false⟩
  | .ph915 => some ⟨915000000, 918000000, 1000, .channelHash, false⟩
  | .kz433 => some ⟨433075000, 434775000, 1000, .channelHash, false⟩
  | .kz863 => some ⟨863000000, 868000000, 1000, .channelHash, false⟩
  | .np865 => some ⟨865000000, 868000000, 1000, .channelHash, false⟩
  | .br902 => some ⟨902000000, 907500000, 1000, .channelHash, false⟩
  | .itu12m => some ⟨144000000, 146000000, 1000, .fixed 26, false⟩
  | .itu22m => some ⟨144000000, 148000000, 1000, .fixed 51, false⟩
  | .itu32m => some ⟨144000000, 148000000, 1000, .fixed 33, false⟩
  | .itu2125cm => some ⟨220000000, 225000000, 1000, .fixed 37, false⟩
  | .itu170cm => some ⟨430000000, 440000000, 1000, .fixed 37, false⟩
  | .itu270cm => some ⟨420000000, 450000000, 1000, .fixed 137, false⟩
  | .itu370cm => some ⟨430000000, 450000000, 1000, .fixed 37, false⟩
  | .lora24 => some ⟨2400000000, 2483500000, 1000, .channelHash, true⟩
  | .unset => some ⟨902000000, 928000000, 1000, .channelHash, false⟩
  | .ua868 | .unknown _ => none

structure RegionInfo where
  freqStartHz : Nat
  freqEndHz : Nat
  licensedOnly : Bool
  deriving DecidableEq, Repr

def regionInfo (region : RegionCode) : Option RegionInfo :=
  match regionFreq region, profileOf region with
  | some rf, some prof => some ⟨rf.freqStartHz, rf.freqEndHz, prof.licensedOnly⟩
  | _, _ => none

/-! ### The frequency plan -/

def djb2Hash (name : Bytes) : UInt32 :=
  name.foldl (fun hash c => (hash <<< 5) + hash + c.toUInt32) 5381

structure FreqPlan where
  frequencyHz : Nat
  slotWidthHz : Nat
  numSlots : Nat
  slot : Nat
  dutyCycle : Nat
  deriving DecidableEq, Repr

/-- The width of a slot for a bandwidth. -/
def Profile.slotWidth (prof : Profile) (bandwidthHz : Nat) : Nat :=
  prof.spacingHz + 2 * prof.paddingHz + bandwidthHz

/-- The span that the slots are cut from: one spacing more than the band. -/
def RegionFreq.span (rf : RegionFreq) (prof : Profile) : Nat :=
  rf.freqEndHz - rf.freqStartHz + prof.spacingHz

/-- A division rounded half up, but at least one slot. -/
def numSlots (span slotWidth : Nat) : Nat :=
  let n := (span + slotWidth / 2) / slotWidth
  if n = 0 then 1 else n

/-- The slot that a region picks. -/
def OverrideSlot.pick (o : OverrideSlot) (n : Nat) (m : Modem) (channelName : Bytes) : Nat :=
  match o with
  | .fixed slot => if slot - 1 ≥ n then n - 1 else slot - 1
  | .presetHash => (djb2Hash (presetDisplayName m)).toNat % n
  | .channelHash => (djb2Hash channelName).toNat % n

/-- The plan of a region and its profile for a bandwidth. -/
def RegionFreq.plan (rf : RegionFreq) (prof : Profile) (bandwidthHz : Nat) (m : Modem)
    (channelName : Bytes) : FreqPlan :=
  let slotWidth := prof.slotWidth bandwidthHz
  let n := numSlots (rf.span prof) slotWidth
  let slot := rf.overrideSlot.pick n m channelName
  { frequencyHz := rf.freqStartHz + bandwidthHz / 2 + prof.paddingHz + slot * slotWidth
    slotWidthHz := slotWidth
    numSlots := n
    slot
    dutyCycle := rf.dutyCycle }

/-- `meshtastic_region_freq_plan`; `none` is `-ENOTSUP`. The width of a slot is never zero. -/
def freqPlan (region : RegionCode) (m : Modem) (channelName : Bytes) : Option FreqPlan :=
  match regionFreq region, profileOf region with
  | some rf, some prof =>
    some (rf.plan prof (presetToParams m.preset rf.wideLora).bandwidthHz m channelName)
  | _, _ => none

variable {channelName : Bytes} {m : Modem} {region : RegionCode}

/-- There is a plan where the region has a row in both tables, whatever the preset. -/
theorem freqPlan_isSome_iff (region : RegionCode) (m : Modem) (channelName : Bytes) :
    (freqPlan region m channelName).isSome = (regionInfo region).isSome := by
  unfold freqPlan regionInfo
  cases regionFreq region <;> cases profileOf region <;> rfl

/-! ### The slots -/

variable {rf : RegionFreq}

/-- A signal at the centre of a slot of the preset has room in the band on both sides. -/
def RegionFreq.HasRoom (rf : RegionFreq) (prof : Profile) (presetHz bandwidthHz slot : Nat) :
    Prop :=
  bandwidthHz ≤ presetHz + 2 * (prof.paddingHz + slot * prof.slotWidth presetHz) ∧
    2 * (prof.paddingHz + slot * prof.slotWidth presetHz) + presetHz + bandwidthHz ≤
      2 * (rf.freqEndHz - rf.freqStartHz)

/-- Room at both ends of a range of slots is room at every slot between. -/
theorem RegionFreq.HasRoom.between {prof : Profile} {presetHz bandwidthHz lo slot hi : Nat}
    (hlo : rf.HasRoom prof presetHz bandwidthHz lo)
    (hhi : rf.HasRoom prof presetHz bandwidthHz hi) (h : lo ≤ slot ∧ slot ≤ hi) :
    rf.HasRoom prof presetHz bandwidthHz slot := by
  have hbelow := Nat.mul_le_mul_right (prof.slotWidth presetHz) h.1
  have habove := Nat.mul_le_mul_right (prof.slotWidth presetHz) h.2
  obtain ⟨hstart, -⟩ := hlo
  obtain ⟨-, hend⟩ := hhi
  constructor <;> omega

/-- The first and the last slot that a name can pick. -/
def OverrideSlot.range (o : OverrideSlot) (n : Nat) (m : Modem) : Nat × Nat :=
  match o with
  | .channelHash => (0, n - 1)
  | o => (o.pick n m [], o.pick n m [])

end Zephyrtastic.Preset
