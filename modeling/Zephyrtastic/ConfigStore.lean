import Zephyrtastic.Hlc
import Zephyrtastic.Lib.Run

/-!
# The configuration store

One value and one stamp per config section. A merge keeps the newer of the two
versions and re-applies the configuration, which seeds a section nobody ever
wrote and normalises the LoRa one.
-/

namespace Zephyrtastic

def deviceTag : UInt16 := 1
def positionTag : UInt16 := 2
def powerTag : UInt16 := 3
def networkTag : UInt16 := 4
def displayTag : UInt16 := 5
def loraTag : UInt16 := 6
def bluetoothTag : UInt16 := 7
def securityTag : UInt16 := 8
def sessionkeyTag : UInt16 := 9
def deviceUiTag : UInt16 := 10

/-- The sections the store has a slot for. -/
def configTags : List UInt16 :=
  [deviceTag, positionTag, powerTag, networkTag, displayTag, loraTag, bluetoothTag, securityTag,
    sessionkeyTag, deviceUiTag]

/-- `meshtastic_Config` with its codec, the checks on its fields, and what applying
the configuration may rewrite in it. -/
structure Codec (Cfg : Type) where
  decode : List UInt8 → Option Cfg
  /-- Into a buffer of the document's payload size. -/
  encode : Cfg → Option (List UInt8)
  whichPayloadVariant : Cfg → UInt16
  fieldsValid : Cfg → Bool
  /-- `seed_position_broadcast`. -/
  seedPosition : Cfg → Cfg
  /-- `fem_lna_mode` on a front end without LNA control. -/
  normalizeLora : Cfg → Cfg

/-- Values and stamps by section, and the store's own clock. -/
structure ConfigStore (Cfg : Type) where
  configs : UInt16 → Cfg
  stamps : UInt16 → Stamp
  hlc : Hlc

namespace ConfigStore
variable {Cfg : Type} (cd : Codec Cfg)
variable (s : ConfigStore Cfg)

def configIsValid (cfg : Cfg) : Bool :=
  configTags.contains (cd.whichPayloadVariant cfg) && cd.fieldsValid cfg

/-- `meshtastic_config_store_get_config_stamp`; none for an unknown section. -/
def getConfigStamp (tag : UInt16) : Option Stamp :=
  if configTags.contains tag then some (s.stamps tag) else none

def getConfig (tag : UInt16) : Option Cfg :=
  if configTags.contains tag then some (s.configs tag) else none

def setConfig (tag : UInt16) (cfg : Cfg) : ConfigStore Cfg :=
  { s with configs := fun t => if t = tag then cfg else s.configs t }

/-- A section whose stamp is unset follows the build's seed. -/
def reconcileStampedSeeds : ConfigStore Cfg :=
  if (s.stamps positionTag).isUnset then
    s.setConfig positionTag (cd.seedPosition (s.configs positionTag))
  else s

/-- What `meshtastic_config_store_apply_core` does to the stored values. The LoRa
section is reached only when every channel slot was taken. -/
def applyCore (channelsOk : Bool) : ConfigStore Cfg :=
  let s := s.reconcileStampedSeeds cd
  if channelsOk then s.setConfig loraTag (cd.normalizeLora (s.configs loraTag)) else s

/-- `meshtastic_config_store_merge_config`: whether the version was applied, or
none when the config is refused. -/
def mergeConfig (nowMs : Int64) (channelsOk : Bool) (cfg : Cfg)
    (stamp : Stamp) : Option Bool × ConfigStore Cfg :=
  if !configIsValid cd cfg then (none, s)
  else
    let tag := cd.whichPayloadVariant cfg
    let s := { s with hlc := (s.hlc.observeAt stamp nowMs).2 }
    if stamp.newer (s.stamps tag) then
      (some true, ({ s with stamps := fun t => if t = tag then stamp else s.stamps t }.setConfig
        tag cfg).applyCore cd channelsOk)
    else (some false, s)

/-- `meshtastic_config_store_set_config`: a local edit, under a fresh stamp of the
store's own clock; none when the config is refused. -/
def setConfigLocal (nodeId : UInt32) (nowMs : Int64) (channelsOk : Bool)
    (cfg : Cfg) : Option Stamp × ConfigStore Cfg :=
  if !configIsValid cd cfg then (none, s)
  else
    let tag := cd.whichPayloadVariant cfg
    let m := s.hlc.localAt nodeId nowMs
    (some m.2, ({ s with
      hlc := m.1
      stamps := fun t => if t = tag then m.2 else s.stamps t }.setConfig tag cfg).applyCore cd
        channelsOk)

section Lemmas
variable {cd}
variable (s : ConfigStore Cfg)

theorem applyCore_stamps (channelsOk : Bool) : (s.applyCore cd channelsOk).stamps = s.stamps := by
  have hseed : (s.reconcileStampedSeeds cd).stamps = s.stamps := by
    unfold reconcileStampedSeeds
    split <;> rfl
  simp only [applyCore]
  split
  · exact hseed
  · exact hseed

theorem applyCore_configs (channelsOk : Bool) {tag : UInt16}
    (hlora : tag ≠ loraTag) (hset : s.stamps tag ≠ Stamp.unset) :
    (s.applyCore cd channelsOk).configs tag = s.configs tag := by
  have hseed : (s.reconcileStampedSeeds cd).configs tag = s.configs tag := by
    unfold reconcileStampedSeeds
    split
    · rename_i hu
      refine if_neg ?_
      rintro rfl
      exact hset (Stamp.isUnset_iff.mp hu)
    · rfl
  simp only [applyCore]
  split
  · exact (if_neg hlora).trans hseed
  · exact hseed

/-- This config was taken into its section under this stamp. Applying may have
rewritten the LoRa section and one that nobody ever wrote, and no other. -/
structure Takes (s s' : ConfigStore Cfg) (tag : UInt16) (cfg : Cfg) (stamp : Stamp) : Prop where
  under : s'.stamps tag = stamp
  stamps : ∀ t, t ≠ tag → s'.stamps t = s.stamps t
  value : tag ≠ loraTag → stamp ≠ Stamp.unset → s'.configs tag = cfg
  values : ∀ t, t ≠ tag → t ≠ loraTag → s.stamps t ≠ Stamp.unset → s'.configs t = s.configs t

variable (cd) in
theorem takes_applyCore (channelsOk : Bool) (tag : UInt16) (cfg : Cfg) (stamp : Stamp) (hlc : Hlc) :
    s.Takes ((({ configs := s.configs, hlc := hlc, stamps := fun t =>
      if t = tag then stamp else s.stamps t } : ConfigStore Cfg).setConfig tag cfg).applyCore cd
        channelsOk) tag cfg stamp where
  under := by
    rw [applyCore_stamps]
    exact if_pos rfl
  stamps t ht := by
    rw [applyCore_stamps]
    exact if_neg ht
  value hlora hset := by
    rw [applyCore_configs _ _ hlora]
    · exact if_pos rfl
    · simpa [setConfig] using hset
  values t ht hlora hset := by
    rw [applyCore_configs _ _ hlora]
    · exact if_neg ht
    · simpa [setConfig, ht] using hset

/-- What a merge can do: refuse, keep the newer version held, or take this one. -/
inductive Merge (cd : Codec Cfg) (s : ConfigStore Cfg) (nowMs : Int64) (channelsOk : Bool)
    (cfg : Cfg) (stamp : Stamp) : Prop
  | refused (hv : configIsValid cd cfg = false)
      (he : s.mergeConfig cd nowMs channelsOk cfg stamp = (none, s))
  | kept (hlc : Hlc) (hle : stamp ≤ s.stamps (cd.whichPayloadVariant cfg))
      (he : s.mergeConfig cd nowMs channelsOk cfg stamp = (some false, { s with hlc }))
  | taken (s' : ConfigStore Cfg) (ht : s.Takes s' (cd.whichPayloadVariant cfg) cfg stamp)
      (he : s.mergeConfig cd nowMs channelsOk cfg stamp = (some true, s'))

variable (cd) in
theorem mergeConfig_merge (nowMs : Int64) (channelsOk : Bool) (cfg : Cfg)
    (stamp : Stamp) : Merge cd s nowMs channelsOk cfg stamp := by
  cases hv : configIsValid cd cfg with
  | false =>
    apply Merge.refused hv
    simp only [mergeConfig, hv, Bool.not_false, if_true]
  | true =>
    cases hn : stamp.newer (s.stamps (cd.whichPayloadVariant cfg)) with
    | true =>
      apply Merge.taken _
        (takes_applyCore cd s channelsOk _ cfg stamp (s.hlc.observeAt stamp nowMs).2)
      simp only [mergeConfig, hv, hn, Bool.not_true, Bool.false_eq_true, if_false, if_true]
    | false =>
      apply Merge.kept (s.hlc.observeAt stamp nowMs).2 (Stamp.newer_eq_false_iff.mp hn)
      simp only [mergeConfig, hv, hn, Bool.not_true, Bool.false_eq_true, if_false]

end Lemmas

/-! ### Runs of merges -/

/-- One call of `meshtastic_config_store_merge_config`. -/
structure Update (Cfg : Type) where
  nowMs : Int64
  channelsOk : Bool
  cfg : Cfg
  stamp : Stamp

def update (u : Update Cfg) : ConfigStore Cfg :=
  (s.mergeConfig cd u.nowMs u.channelsOk u.cfg u.stamp).2

def Update.reaches (u : Update Cfg) (tag : UInt16) : Bool :=
  configIsValid cd u.cfg && decide (cd.whichPayloadVariant u.cfg = tag)

/-- The versions of a section: the one it starts with, and each that reaches it. -/
def versions (us : List (Update Cfg)) (tag : UInt16) : List (Cfg × Stamp) :=
  (s.configs tag, s.stamps tag) ::
    (us.filter fun u => u.reaches cd tag).map fun u => (u.cfg, u.stamp)

/-- The section has this version. Applying may have rewritten its value if it is the LoRa section
or one that nobody wrote. -/
def Holds (tag : UInt16) (v : Cfg × Stamp) : Prop :=
  s.stamps tag = v.2 ∧ (tag ≠ loraTag → v.2 ≠ Stamp.unset → s.configs tag = v.1)

variable {cd s}

theorem Holds.update {tag : UInt16} {v : Cfg × Stamp} (h : s.Holds tag v) (u : Update Cfg) :
    (u.reaches cd tag = true ∧ v.2 < u.stamp ∧ (s.update cd u).Holds tag (u.cfg, u.stamp)) ∨
      (u.reaches cd tag = true → u.stamp ≤ v.2) ∧ (s.update cd u).Holds tag v := by
  have hreach : u.reaches cd tag = true →
      configIsValid cd u.cfg = true ∧ cd.whichPayloadVariant u.cfg = tag := by
    simp [Update.reaches]
  unfold ConfigStore.update mergeConfig
  split
  · next hv => exact .inr ⟨fun hr => absurd (hreach hr).1 (by simpa using hv), h⟩
  next hv =>
  dsimp only
  split
  · next hn =>
    have ht := takes_applyCore cd s u.channelsOk (cd.whichPayloadVariant u.cfg) u.cfg u.stamp
      (s.hlc.observeAt u.stamp u.nowMs).2
    by_cases htag : cd.whichPayloadVariant u.cfg = tag
    · subst htag
      exact .inl ⟨by simpa [Update.reaches] using hv, h.1 ▸ Stamp.newer_iff.mp hn, ht.under,
        ht.value⟩
    · refine .inr ⟨fun hr => absurd (hreach hr).2 htag, (ht.stamps _ (Ne.symm htag)).trans h.1,
        fun hl hu => ?_⟩
      exact (ht.values _ (Ne.symm htag) hl (h.1 ▸ hu)).trans (h.2 hl hu)
  · next hn =>
    refine .inr ⟨fun hr => ?_, h⟩
    rw [← h.1, ← (hreach hr).2]
    exact Stamp.newer_eq_false_iff.mp (by simpa using hn)

/-- **The newest version wins.** Whatever is merged, in whatever order and however often, each
section ends with the greatest of its stamps and the value that came with it. -/
theorem merges_newest (us : List (Update Cfg)) (tag : UInt16) :
    ∃ v ∈ s.versions cd us tag, (Run.run (update cd) s us).Holds tag v ∧
      ∀ w ∈ s.versions cd us tag, w.2 ≤ v.2 := by
  refine Run.run_invariant (fun us (t : ConfigStore Cfg) => ∃ v ∈ s.versions cd us tag,
    t.Holds tag v ∧ ∀ w ∈ s.versions cd us tag, w.2 ≤ v.2) ?_ ?_ us Run.guarded_true
  · exact ⟨_, List.mem_cons_self, ⟨rfl, fun _ _ => rfl⟩, by simp [versions]⟩
  rintro us u ⟨v, hv, hh, hle⟩ -
  have hmem (w) : w ∈ s.versions cd (us ++ [u]) tag ↔
      w ∈ s.versions cd us tag ∨ u.reaches cd tag = true ∧ w = (u.cfg, u.stamp) := by
    cases hr : u.reaches cd tag <;> simp [versions, hr, or_assoc]
  rcases hh.update u with ⟨hr, hlt, hnew⟩ | ⟨hold, hkept⟩
  · refine ⟨_, (hmem _).mpr (.inr ⟨hr, rfl⟩), hnew, fun w hw => ?_⟩
    rcases (hmem w).mp hw with hw | ⟨-, rfl⟩
    · exact (hle w hw).trans hlt.le
    · exact le_rfl
  · refine ⟨v, (hmem v).mpr (.inl hv), hkept, fun w hw => ?_⟩
    rcases (hmem w).mp hw with hw | ⟨hr, rfl⟩
    · exact hle w hw
    · exact hold hr

end ConfigStore

end Zephyrtastic
