import Zephyrtastic.Channels.Edit

/-!
# Coherence of the channel table

Over any run of edits and preset changes there is one primary, the context has its
key, hash and name, and a packet is always sent on an enabled slot.
-/

namespace Zephyrtastic.Channels

open Channel List Run

namespace Table

variable {t : Table} {i j : Slot} {ch : Channel}

/-! ### Disabled slots -/

/-- A disabled slot answers to no wire hash but the empty one. -/
def DarkAt (t : Table) (j : Slot) : Prop := (t.slots j).role = .disabled → t.hashes j = 0

theorem generateHash_disabled (h : (t.slots i).role = .disabled) : t.generateHash i = 0 := by
  have hk : t.getKey i = .error .enoent := by
    simp [getKey, ownKey, keyed, h]
  rw [generateHash, hk]

theorem putChannel_dark (h : ∀ j, j ≠ i → DarkAt t j) (j : Slot) :
    DarkAt (t.putChannel i ch) j := by
  intro hd
  by_cases hj : j = i
  · subst hj
    rw [putChannel_hash_self, generateHash_disabled hd]
  · rw [putChannel_slot_ne hj] at hd
    rw [putChannel_hash_ne hj]
    exact h j hj hd

theorem demoteOtherPrimary_dark (h : ∀ j, j ≠ i → DarkAt t j) :
    ∀ j, j ≠ i → DarkAt (t.demoteOtherPrimary i) j := by
  unfold demoteOtherPrimary
  generalize finRange 8 = l
  induction l generalizing t with
  | nil => exact h
  | cons a l ih =>
    refine ih fun j hj => ?_
    unfold demoteAt
    split
    · by_cases ha : j = a
      · subst ha
        intro hd
        rw [putChannel_hash_self, generateHash_disabled hd]
      intro hd
      rw [putChannel_slot_ne ha] at hd
      rw [putChannel_hash_ne ha]
      exact h j hj hd
    · exact h j hj

theorem editSlot_dark (h : ∀ j, DarkAt t j) (j : Slot) : DarkAt (t.editSlot i ch) j := by
  have hset (j : Slot) (hj : j ≠ i) : DarkAt (t.setChannel i ch) j := by
    intro hd
    change (Function.update t.slots i ch j).role = .disabled at hd
    rw [Function.update_of_ne hj] at hd
    exact h j hd
  rw [editSlot, channelFixup_eq]
  refine putChannel_dark ?_ j
  split
  · exact demoteOtherPrimary_dark hset
  · exact hset

theorem enforcePrimaryInvariant_dark (h : ∀ j, DarkAt t j) (j : Slot) :
    DarkAt t.enforcePrimaryInvariant j := by
  unfold enforcePrimaryInvariant
  split
  · exact h j
  · split
    · exact putChannel_dark (fun j _ => h j) j
    · exact putChannel_dark (fun j _ => h j) j

/-! ### A change of the preset -/

theorem channelFixup_settled (h : Settled t) (i : Slot) : Settled (t.channelFixup i) := by
  rw [channelFixup_eq]
  refine ⟨putChannel_settled fun j _ => h.settled j, fun j => ?_⟩
  rw [putChannel_primary, ← h.role_iff j]
  by_cases hj : j = i
  · subst hj
    rw [putChannel_slot_self, fixup_role (h.settled j)]
  · rw [putChannel_slot_ne hj]

theorem channelFixup_lent (h : Settled t) (i : Slot) : (t.channelFixup i).lent = t.lent := by
  rw [channelFixup_eq, lent, putChannel_primary, lent]
  by_cases hi : t.primary = i
  · subst hi
    rw [putChannel_slot_self, fixup_key (h.settled _)]
  · rw [putChannel_slot_ne hi]

theorem channelFixup_cached (h : Settled t) (hj : j = i ∨ CachedAt t j) :
    CachedAt (t.channelFixup i) j := by
  have hl := channelFixup_lent h i
  by_cases hi : j = i
  · subst hi
    have hself : (t.channelFixup j).hashes j = (t.channelFixup j).generateHash j := by
      rw [channelFixup_eq]
      exact putChannel_hash_self ..
    rw [CachedAt, hself, (channelFixup_settled h j).generateHash]
  · rw [channelFixup_eq] at hl ⊢
    refine (hj.resolve_left hi).carry (putChannel_slot_ne hi) (putChannel_hash_ne hi) rfl
      fun _ => ?_
    rw [hl]

variable (l : List Slot) (modem : Modem) (mt : Derived)

theorem fixups_cached (h : Settled t) :
    Settled (l.foldl channelFixup t) ∧
      ∀ j, j ∈ l ∨ CachedAt t j → CachedAt (l.foldl channelFixup t) j := by
  induction l generalizing t with
  | nil =>
    refine ⟨h, fun j hj => ?_⟩
    exact hj.resolve_left not_mem_nil
  | cons a l ih =>
    obtain ⟨hs, hc⟩ := ih (channelFixup_settled h a)
    refine ⟨hs, fun j hj => hc j ?_⟩
    rcases hj with hmem | hcached
    · rcases mem_cons.mp hmem with ha | hl
      · exact .inr (channelFixup_cached h (.inl ha))
      · exact .inl hl
    · exact .inr (channelFixup_cached h (.inr hcached))

theorem fixups_dark (h : ∀ j, DarkAt t j) (j : Slot) : DarkAt (l.foldl channelFixup t) j := by
  induction l generalizing t with
  | nil => exact h j
  | cons a l ih =>
    refine ih fun j => ?_
    rw [channelFixup_eq]
    exact putChannel_dark (fun j _ => h j) j

/-! ### The context -/

/-- The context has the primary's key, hash and name. -/
structure InSync (t : Table) : Prop where
  psk : t.getKey t.primary = .ok t.mt.psk
  chHash : t.mt.chHash = t.hashes t.primary
  channelName : t.mt.channelName = t.getName t.primary

theorem Settled.getKey_primary (h : Settled t) : t.getKey t.primary = .ok t.lent := by
  rw [getKey, if_neg (fun hc => hc.2.2 rfl), ownKey, if_pos h.keyed, lent]

theorem refreshPrimary_inSync (h : Settled t) : InSync t.refreshPrimary := by
  have hk := h.getKey_primary
  have hpsk : t.refreshPrimary.mt.psk = t.lent := by
    unfold refreshPrimary
    rw [hk]
  refine ⟨?_, rfl, rfl⟩
  rw [hpsk]
  exact hk

/-! ### The start -/

theorem unusedChannel_fixup : unusedChannel.fixup = unusedChannel := by
  decide

theorem unused_loop (t : Table) (r : Table)
    (hr : r = l.foldl (fun t i => t.putChannel i unusedChannel) t) :
    r.primary = t.primary ∧ r.modem = t.modem ∧
      (∀ j ∈ l, r.slots j = unusedChannel ∧ r.hashes j = 0) ∧
      ∀ j ∉ l, r.slots j = t.slots j ∧ r.hashes j = t.hashes j := by
  induction l generalizing t with
  | nil =>
    subst hr
    exact ⟨rfl, rfl, fun j hj => absurd hj not_mem_nil, fun j _ => ⟨rfl, rfl⟩⟩
  | cons a l ih =>
    obtain ⟨hp, hm, hin, hout⟩ := ih (t.putChannel a unusedChannel) hr
    refine ⟨hp, hm, fun j hj => ?_, fun j hj => ?_⟩
    · by_cases hl : j ∈ l
      · exact hin j hl
      obtain rfl : j = a := (mem_cons.mp hj).resolve_right hl
      obtain ⟨hs, hh⟩ := hout j hl
      have hput : (t.putChannel j unusedChannel).slots j = unusedChannel := by
        rw [putChannel_slot_self, unusedChannel_fixup]
      refine ⟨hs.trans hput, hh.trans ?_⟩
      rw [putChannel_hash_self, generateHash_disabled]
      rw [hput]
      rfl
    · rw [mem_cons, not_or] at hj
      obtain ⟨hs, hh⟩ := hout j hj.2
      rw [hs, hh, putChannel_slot_ne hj.1, putChannel_hash_ne hj.1]
      exact ⟨rfl, rfl⟩

theorem initDefaults_spec :
    (initDefaults modem mt).primary = 0 ∧ (initDefaults modem mt).modem = modem ∧
      (initDefaults modem mt).slots 0 = .defaultPrimary ∧
      (initDefaults modem mt).hashes 0 =
        defaultPrimary.hashUnder modem defaultPrimary.settings.key ∧
      ∀ j, j ≠ 0 → (initDefaults modem mt).slots j = unusedChannel ∧
        (initDefaults modem mt).hashes j = 0 := by
  obtain ⟨hp, hm, hin, hout⟩ := unused_loop (finRange 8).tail
    ((blank modem mt).seedDefaultPrimary 0) (initDefaults modem mt) rfl
  have hnb : ¬ defaultPrimary.borrows := not_borrows Role.noConfusion
  obtain ⟨hs, hh⟩ := hout 0 (by decide)
  refine ⟨hp, hm, ?_, ?_, fun j hj => hin j ?_⟩
  · rw [hs, seedDefaultPrimary, putChannel_slot_self, fixup_defaultPrimary]
  · rw [hh, seedDefaultPrimary, putChannel_hash] <;> rw [fixup_defaultPrimary]
    · exact hashUnder_lent fun hb => absurd hb hnb
    · exact fun hb => absurd hb hnb
  · revert hj
    revert j
    decide

theorem key_full {s : Settings} (h : s.psk.length = 16 ∨ s.psk.length = 32) : s.key = s.psk := by
  unfold Settings.key
  split <;> rename_i hpsk
  · exact hpsk.symm
  · rw [hpsk, length_singleton] at h
    omega
  · rw [if_neg (by omega), if_neg (by omega)]

theorem AppConfig.apply_key (cfg : AppConfig) :
    (cfg.apply defaultPrimary.settings).key = cfg.psk := by
  unfold AppConfig.apply
  split
  · rename_i hpsk
    rw [hpsk]
    rfl
  · exact key_full cfg.psk_length

/-- `init_from_config` leaves the context with the primary's key, hash and name. -/
theorem initFromConfig_inSync (cfg : AppConfig) : InSync (initFromConfig modem mt cfg) := by
  obtain ⟨hp, -, hs, -⟩ := initDefaults_spec modem mt
  refine ⟨?_, rfl, rfl⟩
  have hset : ((initFromConfig modem mt cfg).slots 0).settings.key = cfg.psk ∧
      ((initFromConfig modem mt cfg).slots 0).keyed := by
    simp only [initFromConfig, hs, putChannel_slot_self]
    refine ⟨(fixup_key rfl).trans (AppConfig.apply_key cfg), ?_⟩
    exact ⟨fixup_hasSettings _, by rw [fixup_role rfl]; exact Role.noConfusion⟩
  have hprim : (initFromConfig modem mt cfg).primary = 0 := hp
  rw [getKey, if_neg (fun hc => hc.2.2 rfl), hprim, ownKey, if_pos hset.2, hset.1]
  rfl

/-! ### Runs -/

/-- What holds of the table whatever the edits. -/
structure Sound (t : Table) : Prop extends Settled t where
  dark : ∀ j, DarkAt t j

theorem initDefaults_sound :
    Sound (initDefaults modem mt) ∧ ∀ j, CachedAt (initDefaults modem mt) j := by
  obtain ⟨hp, hm, hs, hh, hrest⟩ := initDefaults_spec modem mt
  generalize initDefaults modem mt = t at *
  have hlent : t.lent = defaultPrimary.settings.key := by rw [lent, hp, hs]
  refine ⟨⟨⟨fun j => ?_, fun j => ?_⟩, fun j hd => ?_⟩, fun j => ?_⟩
  · by_cases hj : j = 0
    · rw [hj, hs]
      rfl
    · rw [(hrest j hj).1]
      rfl
  · rw [hp]
    by_cases hj : j = 0
    · rw [hj, hs]
      exact iff_of_true rfl rfl
    · rw [(hrest j hj).1]
      exact iff_of_false Role.noConfusion hj
  · by_cases hj : j = 0
    · rw [hj, hs] at hd
      exact Role.noConfusion hd
    · exact (hrest j hj).2
  · by_cases hj : j = 0
    · rw [CachedAt, hj, hs, hh, hm, hlent]
    · rw [CachedAt, (hrest j hj).1, (hrest j hj).2]
      rfl

theorem setSlotAt_sound (h : Sound t) (i : Slot) (ch : Channel) :
    Sound (t.setSlotAt i ch) ∧ InSync (t.setSlotAt i ch) :=
  have hs := (edit_enforced h.toSettled i ch).settled
  ⟨⟨{ hs with }, enforcePrimaryInvariant_dark (editSlot_dark h.dark)⟩,
    refreshPrimary_inSync hs⟩

theorem presetChange_sound (h : Sound t) (modem : Modem) :
    Sound ({ t with modem } : Table).refreshDerived ∧
      InSync ({ t with modem } : Table).refreshDerived ∧
      ∀ j, CachedAt ({ t with modem } : Table).refreshDerived j := by
  have hm : Settled { t with modem } := { h with }
  obtain ⟨hs, hc⟩ := fixups_cached (finRange 8) hm
  refine ⟨⟨{ hs with }, fixups_dark (finRange 8) (t := { t with modem }) h.dark⟩,
    refreshPrimary_inSync hs, fun j => hc j (.inl (mem_finRange j))⟩

/-- The edits of a run leave alone the keys that are borrowed. -/
def keyKept (t : Table) : Event → Prop
  | .setSlot index ch => ∀ h : index < 8, KeyKept t ⟨index, h⟩ ch
  | .presetChange _ => True

/-- An event that the table takes: an edit of a slot that exists, or a preset change. -/
def Event.taken : Event → Prop
  | .setSlot index _ => index < 8
  | .presetChange _ => True

variable {index : Nat}

theorem step_refused (h : ¬ index < 8) (ch : Channel) : t.step (.setSlot index ch) = t := by
  rw [step, setSlot, dif_neg h]

theorem step_setSlot (h : index < 8) (ch : Channel) :
    t.step (.setSlot index ch) = t.setSlotAt ⟨index, h⟩ ch := by
  rw [step, setSlot, dif_pos h]

theorem step_sound (h : Sound t) (e : Event) : Sound (t.step e) := by
  cases e with
  | setSlot index ch =>
    by_cases hi : index < 8
    · rw [step_setSlot hi]
      exact (setSlotAt_sound h _ ch).1
    · rwa [step_refused hi]
  | presetChange modem => exact (presetChange_sound h modem).1

theorem step_inSync (h : Sound t) {e : Event} (ht : e.taken ∨ InSync t) : InSync (t.step e) := by
  cases e with
  | setSlot index ch =>
    by_cases hi : index < 8
    · rw [step_setSlot hi]
      exact (setSlotAt_sound h _ ch).2
    · rw [step_refused hi]
      exact ht.resolve_left hi
  | presetChange modem => exact (presetChange_sound h modem).2.1

theorem step_cached (h : Sound t) (hc : ∀ j, CachedAt t j) {e : Event} (hk : keyKept t e)
    (j : Slot) : CachedAt (t.step e) j := by
  cases e with
  | setSlot index ch =>
    by_cases hi : index < 8
    · rw [step_setSlot hi]
      exact (edit_enforced h.toSettled _ ch).cached (hk hi) hc j
    · rw [step_refused hi]
      exact hc j
  | presetChange modem => exact (presetChange_sound h modem).2.2 j

theorem sound_run (events : List Event) : Sound (run step (initDefaults modem mt) events) :=
  run_keeps Sound (initDefaults_sound modem mt).1 (fun _ e h _ => step_sound h e) guarded_true

/-- Whatever the edits, the context follows the primary from the first call on. -/
theorem inSync_run (events : List Event)
    (h : InSync (initDefaults modem mt) ∨ ∃ e ∈ events, e.taken) :
    InSync (run step (initDefaults modem mt) events) := by
  have hg : Guarded step (fun _ _ => True) (initDefaults modem mt) events := guarded_true
  refine run_invariant (fun events t =>
      InSync (initDefaults modem mt) ∨ (∃ e ∈ events, e.taken) → InSync t) ?_ ?_ events hg h
  · rintro (h0 | ⟨e, he, -⟩)
    · exact h0
    · exact absurd he not_mem_nil
  · rintro events e ih - hcase
    refine step_inSync (sound_run modem mt events) ?_
    by_cases ht : e.taken
    · exact .inl ht
    refine .inr (ih (hcase.imp_right ?_))
    rintro ⟨e', he', ht'⟩
    rcases mem_append.mp he' with hmem | hlast
    · exact ⟨e', hmem, ht'⟩
    · obtain rfl := mem_singleton.mp hlast
      exact absurd ht' ht

theorem enabledSlot_some (h : t.enabledSlot index = some i) : (t.slots i).role ≠ .disabled := by
  unfold enabledSlot at h
  split at h
  · split at h
    · obtain rfl := Option.some.inj h
      assumption
    · cases h
  · cases h

theorem peerSlot_some {dest : UInt32} {peer : UInt32 → Option UInt8}
    (h : t.peerSlot dest peer = some i) : (t.slots i).role ≠ .disabled := by
  unfold peerSlot at h
  split at h
  · split at h
    · split at h
      · exact enabledSlot_some h
      · cases h
    · cases h
  · cases h

theorem resolveSendIndex_enabled (h : Sound t) (peer : UInt32 → Option UInt8) (dest : UInt32)
    (channelIndex wireHash : UInt8) :
    (t.slots (t.resolveSendIndex peer dest channelIndex wireHash)).role ≠ .disabled := by
  unfold resolveSendIndex
  split
  · rename_i i hi
    exact enabledSlot_some hi
  dsimp only
  split
  · rename_i i hi
    rcases Option.or_eq_some_iff.mp hi with hhash | ⟨-, hpeer⟩
    · split at hhash
      · rename_i hne
        intro hd
        have hfound := find?_some hhash
        rw [decide_eq_true_eq, h.dark i hd] at hfound
        exact hne hfound.symm
      · cases hhash
    · exact peerSlot_some hpeer
  · exact h.keyed.2

/-- One primary, named by the index; every cached hash is the one computed anew; and every
packet resolves to an enabled slot. -/
structure Coherent (t : Table) : Prop where
  onePrimary : ∃! i, (t.slots i).role = .primary
  primary : (t.slots t.primary).role = .primary
  hashes : ∀ i, t.hashes i = t.generateHash i
  send : ∀ peer dest channelIndex wireHash,
    (t.slots (t.resolveSendIndex peer dest channelIndex wireHash)).role ≠ .disabled

/-- The channel table is coherent after every run whose edits keep the borrowed keys. -/
theorem channels_coherent (modem : Modem) (mt : Derived) (events : List Event)
    (hg : Guarded step keyKept (initDefaults modem mt) events) :
    Coherent (run step (initDefaults modem mt) events) ∧
      (InSync (initDefaults modem mt) ∨ (∃ e ∈ events, e.taken) →
        InSync (run step (initDefaults modem mt) events)) := by
  have hs := sound_run modem mt events
  have hc : ∀ j, CachedAt (run step (initDefaults modem mt) events) j := by
    refine run_invariant (fun _ t => ∀ j, CachedAt t j) (initDefaults_sound modem mt).2
      ?_ events hg
    intro done e hc hk
    exact step_cached (sound_run modem mt done) hc hk
  have hone := (hs.role_iff _).mpr rfl
  refine ⟨⟨⟨_, hone, fun i hi => (hs.role_iff i).mp hi⟩, hone, fun i => ?_,
    resolveSendIndex_enabled hs⟩, inSync_run modem mt events⟩
  rw [hs.generateHash i]
  exact hc i

/-- A secondary with a name and no key of its own. -/
def opsChannel : Channel := ⟨.secondary, true, ⟨ascii "ops", [], by decide, false, false, none⟩⟩

/-- A primary under a name, with a key of the default family. -/
def baseChannel (pskIndex : UInt8) : Channel :=
  ⟨.primary, true, ⟨ascii "base", [pskIndex], by simp, false, false, none⟩⟩

def longFastOnly : Modem := ⟨.longFast, true⟩

def unset : Derived := ⟨[], 0, []⟩

/-- A secondary is added and the primary renamed, with the key it had. -/
theorem channels_coherent_renamed :
    let events : List Event := [.setSlot 1 opsChannel, .setSlot 0 (baseChannel 1)]
    Guarded step keyKept (initDefaults longFastOnly unset) events ∧
      Coherent (run step (initDefaults longFastOnly unset) events) := by
  have hg : Guarded step keyKept (initDefaults longFastOnly unset)
      [.setSlot 1 opsChannel, .setSlot 0 (baseChannel 1)] := by
    have hadd : KeyKept (initDefaults longFastOnly unset) 1 opsChannel :=
      ⟨by decide +kernel, by decide +kernel⟩
    have hname : KeyKept ((initDefaults longFastOnly unset).step (.setSlot 1 opsChannel)) 0
        (baseChannel 1) := ⟨by decide +kernel, by decide +kernel⟩
    simp only [guarded_cons, guarded_nil, and_true]
    exact ⟨fun _ => hadd, fun _ => hname⟩
  exact ⟨hg, (channels_coherent longFastOnly unset _ hg).1⟩

/-- The primary takes another key: the secondary now encrypts under it and still answers to
the hash of the old one. -/
theorem borrowed_hash_stale :
    let t := run step (initDefaults longFastOnly unset)
      [.setSlot 1 opsChannel, .setSlot 0 (baseChannel 2)]
    t.getKey 1 = t.getKey 0 ∧ t.hashes 1 ≠ t.generateHash 1 := by
  decide +kernel

end Table

end Zephyrtastic.Channels
