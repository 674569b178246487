import Zephyrtastic.Preset.Node

/-!
# Writes and switches that return an error

A write of the LoRa section or of a channel is stored and applied before the radio
is asked, and nothing puts the old value back when there is no plan or the radio
refuses.
-/

namespace Zephyrtastic.Preset

open Function

open Channels (Slot Channel Table Modem ModemPreset presetDisplayName ascii)

variable {F P S : Type}

/-! ### A refused write -/

/-- A write of the config store that reaches the radio, or may. -/
inductive Write (F P S : Type) where
  | config (c : Config F P) (stamp : S)
  | channel (index : Nat) (ch : Channel)

namespace Node

variable (b : Build F)

def write (w : Write F P S) (retune : Bool) (s : Node F P S) : Node F P S × Option Errno :=
  match w with
  | .config c stamp => s.setConfig b c stamp retune
  | .channel index ch => s.setChannel b index ch retune

/-- The condition on a write: where it is pushed to the radio, the radio takes it and there is a
plan for the region that is then in the store. -/
def Tunable (s : Node F P S) (w : Write F P S) (retune : Bool) : Prop :=
  match w with
  | .config (.lora c) _ => retune = true ∧ (regionInfo (c.planRegion b)).isSome = true
  | .config _ _ => True
  | .channel _ _ => retune = true ∧ (regionInfo (s.presetRegion b)).isSome = true

/-- The argument is turned away before anything is stored. -/
def refuses (w : Write F P S) : Bool :=
  match w with
  | .config c _ => !c.isValid b
  | .channel index ch => b.head || !(decide (index < 8) && ch.isValid)

/-- The node is tuned to its plan, if it has one. -/
def OnPlan (s : Node F P S) : Prop :=
  ∀ plan, freqPlan (s.presetRegion b) s.live.modem (primaryName s.live) = some plan →
    plan.frequencyHz = s.frequencyHz

/-- The store and the live table have the channel already, and the node is tuned to its plan. -/
def Redundant (s : Node F P S) (w : Write F P S) : Prop :=
  match w with
  | .config _ _ => False
  | .channel index ch => ∃ h : index < 8, s.channels ⟨index, h⟩ = ch ∧
      s.live.setSlotAt ⟨index, h⟩ ch = s.live ∧ s.OnPlan b

/-- The stamp is not the one that the section has, as every stamp of `stamp_local`. -/
def Fresh (s : Node F P S) (w : Write F P S) : Prop :=
  match w with
  | .config c stamp => ∀ name, c.name = some name → s.stamps name ≠ stamp
  | .channel _ _ => True

variable {b} {s : Node F P S}

theorem setConfig_invalid {c : Config F P} (stamp : S) (retune : Bool)
    (h : c.isValid b = false) : s.setConfig b c stamp retune = (s, some .einval) := by
  simp [setConfig, h]

theorem setConfig_lora {c : LoraConfig F P} (stamp : S) (retune : Bool)
    (h : c.isValid b = true) :
    s.setConfig b (.lora c) stamp retune =
      ((s.put (.lora c) stamp).applyCore b).applyStored b retune := by
  rw [setConfig, Config.isValid, if_pos h]

theorem presetRegion_applyCore : (s.applyCore b).presetRegion b = s.presetRegion b := by
  rw [presetRegion, applyCore_sections, presetRegion]

theorem setConfig_lora_stamp {c : LoraConfig F P} (stamp : S) (retune : Bool)
    (h : c.isValid b = true) : (s.setConfig b (.lora c) stamp retune).1.stamps .lora = stamp := by
  obtain ⟨_, _, hstored⟩ :=
    applyStored_frame (b := b) (s := (s.put (.lora c) stamp).applyCore b) retune
  obtain ⟨_, _, hcore⟩ := applyCore_frame (b := b) (s.put (.lora c) stamp)
  rw [setConfig_lora stamp retune h, hstored, hcore]
  exact update_self ConfigName.lora stamp s.stamps

theorem setConfig_traceless_iff {c : Config F P} {stamp : S} {retune : Bool}
    (hfresh : Fresh s (.config c stamp)) :
    ((s.setConfig b c stamp retune).2 ≠ none → (s.setConfig b c stamp retune).1 = s) ↔
      c.isValid b = false ∨ Tunable b s (.config c stamp) retune := by
  cases hvalid : c.isValid b with
  | false => simp [setConfig_invalid stamp retune hvalid]
  | true =>
    cases c with
    | lora c =>
      have hnone : (s.setConfig b (.lora c) stamp retune).2 = none ↔
          Tunable b s (.config (.lora c) stamp) retune := by
        rw [setConfig_lora stamp retune hvalid, applyStored_eq_none_iff, presetRegion_applyCore]
        exact Iff.rfl
      rw [← hnone]
      refine ⟨fun h => .inr (by_contra fun herr => ?_), fun h herr => absurd ?_ herr⟩
      · have hkept := congrArg (fun t => t.stamps .lora) (h herr)
        exact hfresh .lora rfl (hkept.symm.trans (setConfig_lora_stamp stamp retune hvalid))
      · exact h.resolve_left (by decide)
    | device c | bluetooth c | plain name c => simp [setConfig, hvalid, Tunable]
    | untagged => cases hvalid

/-- What is stored without a retune is as before when the frequency is. -/
theorem applyStored_untuned {retune : Bool}
    (h : ¬(retune = true ∧ (regionInfo (s.presetRegion b)).isSome = true)) :
    (s.applyStored b retune).1 = s ↔ s.OnPlan b := by
  rw [← freqPlan_isSome_iff _ s.live.modem (primaryName s.live)] at h
  unfold applyStored OnPlan
  cases hplan : freqPlan (s.presetRegion b) s.live.modem (primaryName s.live) with
  | none => simp
  | some plan =>
    cases retune with
    | true => exact absurd ⟨rfl, by rw [hplan]; rfl⟩ h
    | false =>
      constructor
      · rintro hkept _ ⟨⟩
        exact congrArg Node.frequencyHz hkept
      · intro hfreq
        simp only [tune, hfreq plan rfl, Bool.false_eq_true, if_false]

theorem putChannel_untuned {i : Slot} {ch : Channel} {retune : Bool}
    (h : ¬(retune = true ∧ (regionInfo (s.presetRegion b)).isSome = true)) :
    ({ s with channels := update s.channels i ch, live := s.live.setSlotAt i ch }.applyStored
        b retune).1 = s ↔
      s.channels i = ch ∧ s.live.setSlotAt i ch = s.live ∧ s.OnPlan b := by
  constructor
  · intro hkept
    obtain ⟨_, _, hframe⟩ := applyStored_frame (b := b)
      (s := { s with channels := update s.channels i ch, live := s.live.setSlotAt i ch }) retune
    have hch : update s.channels i ch = s.channels :=
      congrArg Node.channels (hframe.symm.trans hkept)
    have hlive : s.live.setSlotAt i ch = s.live := congrArg Node.live (hframe.symm.trans hkept)
    rw [hch, hlive] at hkept
    have hat := congrFun hch i
    rw [update_self] at hat
    exact ⟨hat.symm, hlive, (applyStored_untuned h).mp hkept⟩
  · rintro ⟨rfl, hlive, hfreq⟩
    rw [update_eq_self, hlive]
    exact (applyStored_untuned h).mpr hfreq

theorem setChannel_traceless_iff {index : Nat} {ch : Channel} {retune : Bool} :
    ((s.setChannel b index ch retune).2 ≠ none → (s.setChannel b index ch retune).1 = s) ↔
      refuses b (.channel index ch : Write F P S) = true ∨
        Tunable b s (.channel index ch) retune ∨ Redundant b s (.channel index ch) := by
  unfold setChannel
  by_cases hhead : b.head = true
  · simp [refuses, hhead]
  rw [if_neg hhead]
  by_cases hok : index < 8 ∧ ch.isValid = true
  · have hpass : ¬ refuses b (.channel index ch : Write F P S) = true := by
      simp [refuses, hhead, hok.1, hok.2]
    rw [dif_pos hok, ne_eq, applyStored_eq_none_iff, or_iff_right hpass, or_iff_not_imp_left]
    refine imp_congr_ctx Iff.rfl fun hunt => ?_
    rw [putChannel_untuned hunt]
    exact ⟨fun h => ⟨hok.1, h⟩, fun ⟨_, h⟩ => h⟩
  · rw [dif_neg hok]
    have hpass : refuses b (.channel index ch : Write F P S) = true := by
      rcases Decidable.not_and_iff_not_or_not.mp hok with h | h <;> simp [refuses, h]
    simp [hpass]

/-- **A write that returns an error leaves the node as it was** (the store, its stamps, the
channel table and the modem state) exactly where it is turned away at once, where there is a plan
and the radio is willing, or where the channel was there already. -/
theorem refused_write_traceless (b : Build F) (s : Node F P S) (w : Write F P S) (retune : Bool)
    (hfresh : Fresh s w) :
    ((s.write b w retune).2 ≠ none → (s.write b w retune).1 = s) ↔
      refuses b w = true ∨ Tunable b s w retune ∨ Redundant b s w := by
  cases w with
  | config c stamp =>
    rw [write, setConfig_traceless_iff hfresh]
    simp [refuses, Redundant]
  | channel index ch => exact setChannel_traceless_iff

end Node

/-! ### A node on the bench -/

/-- A node of the United States with override frequencies in Hz. -/
def benchBuild : Build Nat where
  head := false
  defaultRegion := .us
  bootFrequencyHz := 906875000
  positive f := 0 < f
  toHz f := f

/-- A LoRa section on a preset. -/
def onPreset (region : RegionCode) (modemPreset : ModemPreset) : LoraConfig Nat Unit where
  region
  modemPreset
  usePreset := true
  bandwidth := 0
  spreadFactor := 0
  codingRate := 0
  overrideFrequency := 0
  overrideDutyCycle := false
  hopLimit := 3
  rest := ()

/-- The sections of a store with this LoRa section. -/
def sectionsOf (lora : LoraConfig Nat Unit) : Sections Nat Unit where
  device := ⟨0, 0, ()⟩
  lora
  bluetooth := ⟨0, ()⟩
  plain _ := ()

/-- The well-known key and no name, so that the channel goes by the preset. -/
def publicConfig : Channels.Table.AppConfig :=
  { Channels.Device.stockConfig with channelName := some [] }

/-- A node that has booted with this LoRa section and the public channel. -/
def benchNode (b : Build Nat) (lora : LoraConfig Nat Unit) : Node Nat Unit Nat :=
  (Node.powerUp b publicConfig (Channels.powerUp publicConfig).slots (sectionsOf lora) (fun _ => 0)
    3).applyCore b

namespace Node

/-- A section with eight hops is refused and leaves no trace. -/
theorem eight_hops_traceless :
    let s := benchNode benchBuild (onPreset .us .longFast)
    let w : Write Nat Unit Nat := .config (.lora { onPreset .us .shortFast with hopLimit := 8 }) 7
    (s.write benchBuild w true).2 = some .einval ∧ (s.write benchBuild w true).1 = s :=
  ⟨by decide +kernel, (refused_write_traceless benchBuild _ _ true
    (by rintro _ ⟨⟩; decide +kernel)).mpr (.inl (by decide +kernel)) (by decide +kernel)⟩

/-- The radio refuses the retune: the section is stored and stamped, and the preset, the parameters
and the frequency are the new ones. So is the name of a channel. And with no plan for the region of
the build, a section that asks for that region is kept as well. -/
theorem refused_write_kept :
    let s := benchNode benchBuild (onPreset .us .longFast)
    let t := (s.write benchBuild (.config (.lora (onPreset .us .shortFast)) 7) false)
    let u := (s.write benchBuild (.channel 0 (Channels.Table.baseChannel 1)) false)
    let b := { benchBuild with defaultRegion := .ua868 }
    let v := (benchNode b (onPreset .us .longFast)).write b
      (.config (.lora (onPreset .unset .shortFast)) 7) true
    (t.2 = some .radio ∧ t.1.sections.lora.modemPreset = .shortFast ∧ t.1.stamps .lora = 7 ∧
      t.1.live.modem.preset = .shortFast ∧ t.1.modem.spreadFactor = 7 ∧
      t.1.frequencyHz ≠ s.frequencyHz) ∧
    (u.2 = some .radio ∧ u.1.channels 0 = Channels.Table.baseChannel 1 ∧
      u.1.live.slots 0 = Channels.Table.baseChannel 1 ∧ u.1.frequencyHz ≠ s.frequencyHz) ∧
    v.2 = some .enotsup ∧ v.1.sections.lora.modemPreset = .shortFast ∧ v.1.stamps .lora = 7 := by
  decide +kernel

end Node

/-! ### A failed switch -/

/-- The hash that `channel_fixup` derives for a slot. -/
def fixedHash (t : Table) (i : Slot) : UInt8 := (t.setChannel i (t.slots i).fixup).generateHash i

theorem fixup_fixup (ch : Channel) : ch.fixup.fixup = ch.fixup := by
  unfold Channel.fixup
  cases h : ch.hasSettings <;> simp only [h, Bool.false_eq_true, if_true, if_false]
  · rfl
  · split <;> simp_all [ascii]

/-- The key that a slot lends does not depend on its having been fixed up. -/
theorem ownKey_fixup (ch : Channel) : ch.fixup.ownKey = ch.ownKey := by
  unfold Channel.ownKey Channel.keyed
  by_cases h : ch.hasSettings = true
  · simp [h, Channel.fixup_role h, Channel.fixup_key h]
  · simp [h, Channel.fixup_bare (Bool.eq_false_iff.mpr h)]

variable {t u : Table}

theorem generateHash_congr {i : Slot} (hi : t.slots i = u.slots i)
    (hk : (t.slots t.primary).ownKey = (u.slots u.primary).ownKey) (hp : t.primary = u.primary)
    (hm : t.modem = u.modem) : t.generateHash i = u.generateHash i := by
  unfold Channels.Table.generateHash Channels.Table.getKey Channels.Table.getName
  rw [hk, hi, hp, hm]

theorem fixedHash_congr (hs : ∀ i, (t.slots i).fixup = (u.slots i).fixup)
    (hp : t.primary = u.primary) (hm : t.modem = u.modem) (i : Slot) :
    fixedHash t i = fixedHash u i := by
  have hself : ∀ t : Table, (t.setChannel i (t.slots i).fixup).slots i = (t.slots i).fixup :=
    fun t => update_self i _ t.slots
  have hkey : ∀ (t : Table) (j : Slot), ((t.setChannel i (t.slots i).fixup).slots j).ownKey =
      (t.slots j).fixup.ownKey := by
    intro t j
    by_cases hj : j = i
    · rw [hj, hself]
    · exact (congrArg Channel.ownKey (update_of_ne hj _ t.slots)).trans (ownKey_fixup _).symm
  refine generateHash_congr ?_ ?_ hp hm
  · rw [hself, hself, hs]
  · change ((t.setChannel i (t.slots i).fixup).slots t.primary).ownKey =
      ((u.setChannel i (u.slots i).fixup).slots u.primary).ownKey
    rw [hkey, hkey, hs, hp]

theorem channelFixup_eq (t : Table) (i : Slot) : t.channelFixup i = { t with
    slots := update t.slots i (t.slots i).fixup
    hashes := update t.hashes i (fixedHash t i) } := rfl

theorem foldl_channelFixup (t : Table) (l : List Slot) :
    l.foldl Channels.Table.channelFixup t = { t with
      slots := fun i => if i ∈ l then (t.slots i).fixup else t.slots i
      hashes := fun i => if i ∈ l then fixedHash t i else t.hashes i } := by
  induction l generalizing t with
  | nil => simp
  | cons a l ih =>
    have hslot : ∀ i, ((t.channelFixup a).slots i).fixup = (t.slots i).fixup := by
      intro i
      by_cases hi : i = a
      · simp [channelFixup_eq, hi, fixup_fixup]
      · simp [channelFixup_eq, hi]
    have hhash : ∀ i, fixedHash (t.channelFixup a) i = fixedHash t i :=
      fixedHash_congr hslot rfl rfl
    rw [List.foldl_cons, ih]
    simp only [hslot, hhash, List.mem_cons]
    rw [channelFixup_eq]
    congr 1 <;> funext i <;> by_cases hi : i = a <;> simp [hi]

theorem refreshDerived_eq (t : Table) :
    t.refreshDerived.slots = (fun i => (t.slots i).fixup) ∧
      t.refreshDerived.primary = t.primary ∧ t.refreshDerived.modem = t.modem ∧
      t.refreshDerived.hashes = fixedHash t := by
  unfold Channels.Table.refreshDerived Channels.Table.refreshPrimary
  rw [foldl_channelFixup]
  refine ⟨funext fun i => if_pos (List.mem_finRange i), rfl, rfl,
    funext fun i => if_pos (List.mem_finRange i)⟩

namespace Node

variable {b : Build F} {s : Node F P S}

/-- What a switch may not change when it fails. -/
structure Unswitched (s t : Node F P S) : Prop where
  preset : t.live.modem = s.live.modem
  modem : t.modem = s.modem
  frequencyHz : t.frequencyHz = s.frequencyHz
  hashes : t.live.hashes = s.live.hashes
  generation : t.generation = s.generation

/-- The modem has the parameters of the preset, and the hashes are those of `channel_fixup`. -/
def OnPreset (s : Node F P S) : Prop :=
  s.modem = presetToParams s.live.modem.preset false ∧ s.live.hashes = fixedHash s.live

/-- The plan of the preset in force, for the name the primary has once it is fixed up. -/
def planInForce (b : Build F) (s : Node F P S) : Option FreqPlan :=
  freqPlan (s.presetRegion b) s.live.modem
    ((s.live.slots s.live.primary).fixup.nameOn s.live.modem)

/-- The condition on a switch: the preset is unknown, or there is no plan and the node was on its
preset, or the radio takes it, or it changes nothing. -/
def Reversible (b : Build F) (s : Node F P S) (preset : ModemPreset) (retune : Bool) : Prop :=
  presetDisplayName ⟨preset, true⟩ = ascii "Invalid" ∨
    match s.planInForce b with
    | none => s.OnPreset
    | some plan => retune = true ∨
        preset = s.live.modem.preset ∧ s.OnPreset ∧ plan.frequencyHz = s.frequencyHz

theorem enterPreset_live (preset : ModemPreset) :
    (s.enterPreset preset).live.slots = (fun i => (s.live.slots i).fixup) ∧
      (s.enterPreset preset).live.primary = s.live.primary ∧
      (s.enterPreset preset).live.modem = { s.live.modem with preset } ∧
      (s.enterPreset preset).live.hashes =
        fixedHash { s.live with modem := { s.live.modem with preset } } :=
  refreshDerived_eq { s.live with modem := { s.live.modem with preset } }

theorem unswitched_back_iff (preset : ModemPreset) :
    Unswitched s ((s.enterPreset preset).enterPreset s.live.modem.preset) ↔ s.OnPreset := by
  obtain ⟨hslots, hprimary, hmodem, -⟩ := enterPreset_live (s := s) preset
  obtain ⟨-, -, hmodem', hhashes⟩ :=
    enterPreset_live (s := s.enterPreset preset) s.live.modem.preset
  have hback : ((s.enterPreset preset).enterPreset s.live.modem.preset).live.hashes =
      fixedHash s.live := by
    rw [hhashes]
    refine funext (fixedHash_congr (fun i => ?_) hprimary (by rw [hmodem]))
    rw [hslots, fixup_fixup]
  constructor
  · rintro ⟨-, hm, -, hh, -⟩
    exact ⟨hm.symm, hh.symm.trans hback⟩
  · rintro ⟨hm, hh⟩
    exact ⟨by rw [hmodem', hmodem], hm.symm, rfl, hback.trans hh.symm, rfl⟩

theorem unswitched_tuned_iff (preset : ModemPreset) (plan : FreqPlan) :
    Unswitched s ((s.enterPreset preset).tune plan false).1 ↔
      preset = s.live.modem.preset ∧ s.OnPreset ∧ plan.frequencyHz = s.frequencyHz := by
  obtain ⟨-, -, hmodem, hhashes⟩ := enterPreset_live (s := s) preset
  constructor
  · rintro ⟨hp, hm, hf, hh, -⟩
    have hpreset : preset = s.live.modem.preset :=
      congrArg Modem.preset (hmodem.symm.trans hp)
    subst hpreset
    exact ⟨rfl, ⟨hm.symm, hh.symm.trans hhashes⟩, hf⟩
  · rintro ⟨rfl, ⟨hm, hh⟩, hf⟩
    exact ⟨hmodem, hm.symm, hf, hhashes.trans hh.symm, rfl⟩

/-- **A switch that fails changes nothing** exactly where the preset is unknown, where there is no
plan and the node was on its preset, or where it was on this very preset and tuned to it. -/
theorem failed_switch_unswitched (b : Build F) (s : Node F P S) (preset : ModemPreset)
    (retune : Bool) :
    ((s.presetSwitch b preset retune).2 ≠ none → Unswitched s (s.presetSwitch b preset retune).1) ↔
      Reversible b s preset retune := by
  unfold presetSwitch Reversible
  by_cases hname : presetDisplayName ⟨preset, true⟩ = ascii "Invalid"
  · rw [if_pos hname]
    exact iff_of_true (fun _ => ⟨rfl, rfl, rfl, rfl, rfl⟩) (.inl hname)
  rw [if_neg hname, or_iff_right hname]
  obtain ⟨hslots, hprimary, hmodem, -⟩ := enterPreset_live (s := s) preset
  have hregion : (s.enterPreset preset).presetRegion b = s.presetRegion b := rfl
  have hprimaryName : primaryName (s.enterPreset preset).live =
      (s.live.slots s.live.primary).fixup.nameOn { s.live.modem with preset } := by
    simp only [primaryName, Channels.Table.getName, hslots, hprimary, hmodem]
  have hsome := freqPlan_isSome_iff (s.presetRegion b) s.live.modem
    ((s.live.slots s.live.primary).fixup.nameOn s.live.modem)
  rw [← freqPlan_isSome_iff (s.presetRegion b) { s.live.modem with preset }
    (primaryName (s.enterPreset preset).live)] at hsome
  dsimp only
  rw [hregion, hmodem]
  cases hplan : freqPlan (s.presetRegion b) { s.live.modem with preset }
      (primaryName (s.enterPreset preset).live) with
  | none =>
    rw [hplan, Option.isSome_none, Option.isSome_eq_false_iff, Option.isNone_iff_eq_none] at hsome
    simp [planInForce, hsome, unswitched_back_iff]
  | some plan =>
    rw [hplan, Option.isSome_some] at hsome
    obtain ⟨inForce, hinForce⟩ := Option.isSome_iff_exists.mp hsome
    rw [show s.planInForce b = some inForce from hinForce]
    cases retune with
    | true => simp
    | false =>
      simp only [tune_failed, ne_eq, reduceCtorEq, not_false_eq_true, true_imp_iff, false_or,
        unswitched_tuned_iff]
      refine and_congr_right fun hpreset => ?_
      subst hpreset
      rw [hprimaryName] at hplan
      rw [Option.some.inj (hplan.symm.trans hinForce)]

/-- A LoRa section with a custom bandwidth of 125 kHz. -/
def customLora (region : RegionCode) : LoraConfig Nat Unit :=
  { onPreset region .longFast with
    usePreset := false, bandwidth := 125, spreadFactor := 12, codingRate := 8 }

/-- The radio refuses the retune: the preset, the parameters, the frequency and the hash of the
primary are the new ones. And without a plan, custom parameters are replaced by those of the preset
number beside them. -/
theorem failed_switch_kept :
    let s := benchNode benchBuild (onPreset .us .longFast)
    let t := s.presetSwitch benchBuild .shortFast false
    let b := { benchBuild with defaultRegion := .ua868 }
    let c := benchNode b (customLora .unset)
    let u := c.presetSwitch b .shortFast true
    (t.2 = some .radio ∧ t.1.live.modem.preset = .shortFast ∧ t.1.modem.spreadFactor = 7 ∧
      t.1.frequencyHz ≠ s.frequencyHz ∧ t.1.live.hashes 0 ≠ s.live.hashes 0) ∧
    u.2 = some .enotsup ∧ c.modem = ⟨125000, 12, 8⟩ ∧ u.1.modem = ⟨250000, 11, 5⟩ := by
  decide +kernel

end Node

end Zephyrtastic.Preset
