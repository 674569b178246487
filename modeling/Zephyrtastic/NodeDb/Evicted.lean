import Zephyrtastic.NodeDb.Pinning

/-!
# The ring and the nodes that were evicted

The ring is there for the keys of nodes the hot store no longer holds. A key that
is learned for a node in the store takes one of their slots as well.
-/

namespace Zephyrtastic.NodeDb

open Keyed List Run State WarmKey

variable {cfg : Config} {env : Env} {s u t : State} {n : UInt32} {ev : Event}

/-- A node outside the hot store whose key the ring holds. -/
def State.Cold (s : State) (n : UInt32) : Prop :=
  n ≠ 0 ∧ (s.slot n).isSome ∧ s.entry n = none

/-- From one store to the next, the slot of a node that is not hot goes to another node
only if that node is leaving the hot store, and no slot is empty or of a hot node. -/
def Serves (u t : State) : Prop :=
  ∀ (i : Nat) (w w' : WarmKey), u.warm[i]? = some w → t.warm[i]? = some w' → w.num ≠ 0 →
    u.entry w.num = none → w'.num ≠ w.num → ((u.entry w'.num).isSome ∧ t.entry w'.num = none) ∧
      ∀ v ∈ u.warm, v.num ≠ 0 ∧ u.entry v.num = none

/-- A key that is written for a peer without a slot finds one that is empty or of a hot
node. -/
def HasRoom (cfg : Config) (s : State) (ev : Event) : Prop :=
  ∀ e k, s.written cfg ev = some (e, k) → ev.about ≠ cfg.self →
    (s.searched cfg ev).slot ev.about = none →
    ∃ w ∈ (s.searched cfg ev).warm, w.num = 0 ∨ ((s.searched cfg ev).entry w.num).isSome

/-- A node that comes back from the ring does not push out a node with a key but without
a slot while every slot is of a node that is not hot. -/
def SparesRing (cfg : Config) (s : State) (ev : Event) : Prop :=
  ∀ env num victim, ev.makes cfg = some (env, num) → s.entry num = none →
    (s.slot num).isSome → cfg.maxNodes ≤ s.hot.length → s.victim cfg = some victim →
    victim.node.fullKey.isSome → s.slot victim.node.num = none →
    ∃ w ∈ s.warm, w.num = 0 ∨ (s.entry w.num).isSome

/-! ## Which slots change hands -/

variable {j : Nat} {w w' : WarmKey} {away : List UInt32}

/-- A slot changes hands only where the key placed takes it. -/
theorem warmPlace_overwrites (hwf : u.WellFormed) {k : WarmKey} (hk : k.num ≠ 0)
    (hw : u.warm[j]? = some w) (hw' : (u.warmPlace k).warm[j]? = some w') (hnum : w.num ≠ 0)
    (hne : w'.num ≠ w.num) : w'.num = k.num ∧ u.Takes k.num w.num := by
  obtain ⟨i, rec, hslot, heq⟩ := warmPlace_eq hwf hk
  rw [heq] at hw'
  by_cases hij : i = j
  · subst hij
    obtain ⟨hlt, -⟩ := List.getElem?_eq_some_iff.mp hw
    obtain rfl : k = w' := by simpa [hlt] using hw'
    exact ⟨rfl, hslot.takes hw hnum hne.symm⟩
  · have hsame : u.warm[j]? = some w' := by simpa [getElem?_set_ne hij] using hw'
    rw [hw] at hsame
    exact absurd (congrArg num (Option.some.inj hsame).symm) hne

theorem warmAbsorb_overwrites (hwf : s.WellFormed) {e : Entry}
    (hw : s.warm[j]? = some w) (hw' : (s.warmAbsorb cfg env e).warm[j]? = some w')
    (hnum : w.num ≠ 0) (hne : w'.num ≠ w.num) :
    w'.num = e.node.num ∧ s.Takes e.node.num w.num := by
  rcases warmAbsorb_cases cfg env s e with h | ⟨k, v, -, hv, hvnum, -, -, h⟩
  · rw [h, hw] at hw'
    exact absurd (congrArg num (Option.some.inj hw').symm) hne
  · rw [h] at hw'
    rw [← hvnum]
    exact warmPlace_overwrites hwf (hvnum ▸ hv) hw hw' hnum hne

theorem warmSetKnownSigner_num {num : UInt32} {v : Bool}
    (hw : s.warm[j]? = some w) (hw' : (s.warmSetKnownSigner num v).warm[j]? = some w') :
    w'.num = w.num := by
  unfold warmSetKnownSigner at hw'
  split at hw'
  · rw [hw] at hw'
    exact congrArg WarmKey.num (Option.some.inj hw').symm
  simp only [getElem?_modify, hw] at hw'
  simp only [Option.map_eq_map, Option.map_some, Option.some.injEq] at hw'
  subst hw'
  split <;> rfl

theorem serves_of_num (h : ∀ (i : Nat) (w w' : WarmKey), u.warm[i]? = some w →
    t.warm[i]? = some w' → w'.num = w.num) : Serves u t :=
  fun i w w' hw hw' _ _ hne => absurd (h i w w' hw hw') hne

theorem serves_of_warm (h : t.warm = u.warm) : Serves u t := by
  refine serves_of_num fun i w w' hw hw' => ?_
  rw [h, hw] at hw'
  exact congrArg num (Option.some.inj hw').symm

theorem Fetched.serves {num : UInt32} {e : Entry} (hwf : s.WellFormed)
    (h : Fetched cfg env s num u e) : Serves s u := by
  cases h with
  | held ht => exact serves_of_warm (by rw [ht])
  | added _ _ _ hwarm => exact serves_of_warm hwarm
  | replaced victim hnew hfull hold hv hev he hentry hwarm =>
    intro i w w' hw hw' hnum hcold hne
    rw [hwarm] at hw'
    obtain ⟨hvictim, htakes⟩ := warmAbsorb_overwrites hwf hw hw' hnum hne
    have hgone : u.entry victim.node.num = none := by
      rw [hentry, if_neg, if_pos rfl]
      rintro rfl
      rw [hnew] at hv
      cases hv
    refine ⟨⟨by rw [hvictim, hv]; rfl, by rw [hvictim, hgone]⟩, fun v hmem => ?_⟩
    refine ⟨htakes.full v hmem, htakes.hot.resolve_left ?_ v hmem⟩
    rw [hcold]
    exact Bool.false_ne_true

theorem searched_serves (hwf : s.WellFormed) : Serves s (s.searched cfg ev) := by
  unfold searched
  cases ev.makes cfg with
  | none => exact serves_of_warm rfl
  | some r =>
    obtain ⟨env, num⟩ := r
    dsimp only
    cases hget : s.getOrCreate cfg env num with
    | none => exact serves_of_warm rfl
    | some f =>
      obtain ⟨i, u⟩ := f
      obtain ⟨-, -, e, -, -, hf⟩ := getOrCreate_fetched hwf hget
      exact hf.serves hwf

/-- A key placed for a node that stays takes no slot of a cold one exactly if it has a slot
or finds one that is empty or of a hot node. -/
theorem serves_placed_iff (hwf : u.WellFormed) (hzero : w.num ≠ 0)
    (hwarm : t.warm = (u.warmPlace w).warm) (hstays : (t.entry w.num).isSome) :
    Serves u t ↔
      (u.slot w.num = none → ∃ x ∈ u.warm, x.num = 0 ∨ (u.entry x.num).isSome) := by
  constructor
  · -- a full ring without a hot node gives up a slot to a node that stays
    intro hserves hnew
    by_contra hnone
    push Not at hnone
    obtain ⟨i, rec, hslot, heq⟩ := warmPlace_eq hwf hzero
    obtain ⟨v, hv, -⟩ := hslot.fits hzero
    obtain ⟨hvnum, hvcold⟩ := hnone v (mem_of_getElem? hv)
    have hlt := (List.getElem?_eq_some_iff.mp hv).1
    have hplaced : t.warm[i]? = some w := by
      rw [hwarm, heq]
      exact getElem?_set_self hlt
    have hne : w.num ≠ v.num := by
      intro he
      have hheld : u.slot v.num = some v :=
        (slot_eq_some hwf hvnum).mpr ⟨mem_of_getElem? hv, rfl⟩
      rw [← he, hnew] at hheld
      cases hheld
    obtain ⟨⟨-, hleft⟩, -⟩ := hserves i v w hv hplaced hvnum (by simpa using hvcold) hne
    rw [hleft] at hstays
    cases hstays
  · intro hroom i v v' hv hv' hvnum hcold hne
    rw [hwarm] at hv'
    obtain ⟨-, htakes⟩ := warmPlace_overwrites hwf hzero hv hv' hvnum hne
    obtain ⟨x, hx, hempty | hhot⟩ := hroom htakes.new
    · exact absurd hempty (htakes.full x hx)
    · have hall := htakes.hot.resolve_left (by rw [hcold]; exact Bool.false_ne_true)
      rw [hall x hx] at hhot
      cases hhot

theorem step_serves (hwf : s.WellFormed) (hev : ev.onRecord = true) :
    Serves (s.searched cfg ev) (step cfg s ev) ↔ HasRoom cfg s ev := by
  have h := step_touched cfg hwf hev
  have vacuous (hw : s.written cfg ev = none) : HasRoom cfg s ev := by
    intro e k hw'
    rw [hw] at hw'
    cases hw'
  generalize step cfg s ev = t at h ⊢
  cases h with
  | nothing hw hu => exact ⟨fun _ => vacuous hw, fun _ => serves_of_warm (by rw [hu])⟩
  | sorted order horder hev' =>
    subst hev'
    exact ⟨fun _ => vacuous rfl, fun _ => serves_of_warm rfl⟩
  | marked env num hev' hnum hself hnone =>
    subst hev'
    have hu : s.searched cfg (.noteSigner env num) = s := by
      have hm : Event.makes cfg (.noteSigner env num) = some (env, num) :=
        if_neg (not_or.mpr ⟨hnum, hself⟩)
      simp [searched, hm, hnone]
    rw [hu]
    exact ⟨fun _ => vacuous rfl, fun _ => serves_of_num fun _ _ _ => warmSetKnownSigner_num⟩
  | record env i u e e' ring _ hu hmakes hwf' hfetch hover hverified heffect =>
    rw [← hu]
    have hself := hfetch.entry_self
    cases heffect with
    | plain hw _ _ hring | cleared _ hw _ _ _ hring =>
      exact ⟨fun _ => vacuous hw, fun _ => serves_of_warm (hover.warm.trans hring)⟩
    | own k hw _ _ hown _ hring =>
      exact ⟨fun _ _ _ _ hne => absurd hown hne,
        fun _ => serves_of_warm (hover.warm.trans hring)⟩
    | signed _ hw _ _ _ hring =>
      refine ⟨fun _ => vacuous hw, fun _ => serves_of_num fun i w w' hw hw' => ?_⟩
      rw [hover.warm, hring] at hw'
      exact warmSetKnownSigner_num hw hw'
    | keyed k w hw hkey _ hpeer hnum _ _ hring =>
      have hzero : w.num ≠ 0 := hnum ▸ ne_zero_of_entry hwf' hself
      have hstays : (t.entry w.num).isSome := by
        rw [hnum, hover.found]
        rfl
      rw [serves_placed_iff hwf' hzero (by rw [hover.warm, hring]) hstays, hnum]
      constructor
      · intro hroom e₁ k₁ _ _ hnew
        rw [← hu] at hnew ⊢
        exact hroom hnew
      · intro hroom hnew
        rw [hu] at hnew ⊢
        exact hroom e k hw hpeer hnew

/-! ## The nodes that are away -/

/-- The nodes evicted with a key and not readmitted, beside the store: those that were
away and those hot before the event, less those hot after it. -/
def awayStep (cfg : Config) (x : State × List UInt32) (ev : Event) : State × List UInt32 :=
  let t := step cfg x.1 ev
  (t, (x.2 ++ (keys Entry.key x.1.hot).filter fun n => (x.1.copyPubkey n).isSome).filter
    fun n => (t.entry n).isNone)

/-- At the start the nodes whose keys only the ring holds are away. -/
def awayStart (s : State) : State × List UInt32 :=
  (s, (keys WarmKey.key s.warm).filter fun n => (s.entry n).isNone)

theorem run_awayStep_fst (cfg : Config) (s : State) (evs : List Event) :
    (run (awayStep cfg) (awayStart s) evs).1 = run (step cfg) s evs :=
  run_map Prod.fst (fun _ _ => rfl) _ evs

/-- Being away is being cold. -/
structure Tracks (s : State) (away : List UInt32) : Prop where
  nodup : away.Nodup
  cold : ∀ n, n ∈ away ↔ s.Cold n

theorem awayStart_tracks (hwf : s.WellFormed) : Tracks s (awayStart s).2 := by
  refine ⟨hwf.warm.filter _, fun n => ?_⟩
  simp only [awayStart, mem_filter, Option.isNone_iff_eq_none, Cold]
  constructor
  · rintro ⟨hmem, hcold⟩
    obtain ⟨w, hw, hkey⟩ := Keyed.mem_keys.mp hmem
    obtain ⟨hzero, hnum⟩ := key_eq_some.mp hkey
    have hn : n ≠ 0 := hnum ▸ hzero
    refine ⟨hn, ?_, hcold⟩
    rw [slot_eq hn]
    exact lookup_isSome.mpr hmem
  · rintro ⟨hn, hslot, hcold⟩
    rw [slot_eq hn] at hslot
    exact ⟨lookup_isSome.mp hslot, hcold⟩

theorem mem_awayStep :
    n ∈ (awayStep cfg (s, away) ev).2 ↔
      (n ∈ away ∨ (s.entry n).isSome ∧ (s.copyPubkey n).isSome) ∧
        (step cfg s ev).entry n = none := by
  simp only [awayStep, mem_filter, mem_append, Option.isNone_iff_eq_none, entry_eq,
    lookup_isSome]

theorem awayStep_nodup (hwf : s.WellFormed) (h : Tracks s away) :
    (awayStep cfg (s, away) ev).2.Nodup := by
  refine List.Nodup.filter _ (nodup_append.mpr ⟨h.nodup, hwf.hot.filter _, ?_⟩)
  rintro a ha b hb rfl
  have hnone := ((h.cold a).mp ha).2.2
  exact absurd (mem_of_mem_filter hb) (entry_eq_none_iff.mp hnone)

theorem cold_iff_self :
    (s.Cold n ∨ (s.entry n).isSome ∧ (s.copyPubkey n).isSome) ∧ s.entry n = none ↔ s.Cold n := by
  constructor
  · rintro ⟨hc | ⟨hhot, -⟩, hnone⟩
    · exact hc
    · rw [hnone] at hhot
      cases hhot
  · exact fun hc => ⟨.inl hc, hc.2.2⟩

theorem cold_congr (hentry : t.entry n = s.entry n)
    (hslot : n ≠ 0 → (t.slot n).isSome = (s.slot n).isSome) : t.Cold n ↔ s.Cold n := by
  rw [Cold, hentry]
  constructor
  · exact fun ⟨hn, hs, he⟩ => ⟨hn, hslot hn ▸ hs, he⟩
  · exact fun ⟨hn, hs, he⟩ => ⟨hn, (hslot hn).symm ▸ hs, he⟩

section Search
variable {num : UInt32} {e : Entry}

/-- The search, as long as it takes no slot of a cold node: cold are those that were, and
the evicted node if it had a key. -/
theorem Fetched.cold_iff (hwf : s.WellFormed) (h : Fetched cfg env s num u e)
    (hkeep : ∀ m, s.Cold m → m ≠ num → (u.slot m).isSome) :
    u.Cold n ↔ (s.Cold n ∨ (s.entry n).isSome ∧ (s.copyPubkey n).isSome) ∧ u.entry n = none := by
  by_cases hn : n = 0
  · subst hn
    simp [Cold, entry_zero hwf]
  by_cases hself : n = num
  · subst hself
    simp [Cold, h.entry_self]
  cases h with
  | held ht =>
    subst ht
    exact cold_iff_self.symm
  | added hnew he hentry hwarm =>
    have hsame : u.entry n = s.entry n := by rw [hentry, if_neg hself]
    rw [hsame, cold_iff_self]
    exact cold_congr hsame fun _ => by rw [slot_congr hwarm]
  | replaced victim hnew hfull hold hv hev he hentry hwarm =>
    by_cases hvn : n = victim.node.num
    · subst hvn
      have hgone : u.entry victim.node.num = none := by rw [hentry, if_neg hself, if_pos rfl]
      have hkey := copyPubkey_victim hwf hv hev hgone hwarm hn
      rw [copyPubkey_unpinned (by rw [hgone]; rfl)] at hkey
      simp only [Cold, hgone, hv, ← hkey, Option.isSome_map, Option.isSome_some]
      simp [hn]
    · have hsame : u.entry n = s.entry n := by rw [hentry, if_neg hself, if_neg hvn]
      constructor
      · rintro ⟨-, hslot, hnone⟩
        refine ⟨.inl ⟨hn, ?_, hsame ▸ hnone⟩, hnone⟩
        rw [slot_congr hwarm] at hslot
        rcases warmAbsorb_slot_ne cfg env hwf hn hvn with h | ⟨h, -⟩
        · rwa [h] at hslot
        · rw [h] at hslot
          cases hslot
      · rintro ⟨hc | ⟨hhot, -⟩, hnone⟩
        · exact ⟨hn, hkeep n hc hself, hnone⟩
        · rw [← hsame, hnone] at hhot
          cases hhot

theorem State.Takes.crowds (hwf : s.WellFormed) {m : UInt32} (h : s.Takes n m) (hn : n ≠ 0)
    (hmem : n ∈ away) (hring : ∀ w ∈ s.warm, w.num ∈ away) :
    s.warm.length < away.length := by
  have hnums : keys key s.warm = s.warm.map num := by
    rw [Keyed.keys, ← filterMap_eq_map]
    refine filterMap_congr fun w hw => ?_
    exact key_eq_some.mpr ⟨h.full w hw, rfl⟩
  have hnodup : (n :: s.warm.map num).Nodup := by
    rw [← hnums]
    exact nodup_cons.mpr ⟨(slot_eq_none_iff hn).mp h.new, hwf.warm⟩
  have hsub : ∀ x ∈ n :: s.warm.map num, x ∈ away := by
    intro x hx
    rcases mem_cons.mp hx with rfl | hx
    · exact hmem
    · obtain ⟨w, hw, rfl⟩ := mem_map.mp hx
      exact hring w hw
  have hlen := (hnodup.subperm hsub).length_le
  rwa [length_cons, length_map] at hlen

/-- The search takes the slot of a cold node only when one more node is away than the ring
has slots. -/
theorem Fetched.keeps (hwf : s.WellFormed) (h : Fetched cfg env s num u e)
    (hmakes : ev.makes cfg = some (env, num) ∨ u = s) (hspares : SparesRing cfg s ev)
    (hsub : ∀ m, (s.Cold m ∨ (s.entry m).isSome ∧ (s.copyPubkey m).isSome) →
      u.entry m = none → m ∈ away) (hbound : away.length ≤ s.warm.length) {m : UInt32}
    (hm : s.Cold m) (hne : m ≠ num) : (u.slot m).isSome := by
  cases h with
  | held ht => exact ht ▸ hm.2.1
  | added _ _ _ hwarm => exact (slot_congr hwarm) ▸ hm.2.1
  | replaced victim hnew hfull hold hv hev he hentry hwarm =>
    have hvm : m ≠ victim.node.num := by
      rintro rfl
      rw [hm.2.2] at hv
      cases hv
    have hvn : victim.node.num ≠ num := by
      rintro rfl
      rw [hnew] at hv
      cases hv
    rw [slot_congr hwarm]
    rcases warmAbsorb_slot_ne cfg env hwf hm.1 hvm with h | ⟨h, htakes⟩
    · exact h ▸ hm.2.1
    exfalso
    have hcold := htakes.hot.resolve_left (by rw [hm.2.2]; exact Bool.false_ne_true)
    have hkey : victim.node.fullKey.isSome := by
      by_contra hk
      rw [warmAbsorb_slot_keyless (by simpa using hk)] at h
      have := hm.2.1
      rw [h] at this
      cases this
    by_cases hback : (s.slot num).isSome
    · -- the node that comes back has a slot
      have hm' : ev.makes cfg = some (env, num) := by
        refine hmakes.resolve_right ?_
        rintro rfl
        rw [hentry, if_pos rfl] at hnew
        cases hnew
      obtain ⟨w, hw, hempty | hhot⟩ :=
        hspares env num victim hm' hnew hback hfull hold hkey htakes.new
      · exact htakes.full w hw hempty
      · rw [hcold w hw] at hhot
        cases hhot
    · -- all nodes of the ring are away, and the victim with them
      have hvictim : victim.node.num ∈ away := by
        refine hsub _ (.inr ⟨by rw [hv]; rfl, ?_⟩) (by rw [hentry, if_neg hvn, if_pos rfl])
        obtain ⟨k, hk⟩ := Option.isSome_iff_exists.mp hkey
        rw [copyPubkey_pinned hv hk]
        rfl
      have hring : ∀ w ∈ s.warm, w.num ∈ away := by
        intro w hw
        have hwzero := htakes.full w hw
        have hslot : s.slot w.num = some w := (slot_eq_some hwf hwzero).mpr ⟨hw, rfl⟩
        refine hsub _ (.inl ⟨hwzero, by rw [hslot]; rfl, hcold w hw⟩) ?_
        rw [hentry, if_neg, if_neg, hcold w hw]
        · intro hwv
          rw [hwv, htakes.new] at hslot
          cases hslot
        · intro hwn
          rw [hwn] at hslot
          rw [hslot] at hback
          exact hback rfl
      have hcrowd := htakes.crowds hwf (ne_zero_of_entry hwf hv) hvictim hring
      exact absurd hcrowd (not_lt.mpr hbound)

end Search

theorem Over.cold_iff {i : Nat} {e e' : Entry} {ring : List WarmKey} (hwf : u.WellFormed)
    (hu : u = s.searched cfg ev) (hself : u.entry ev.about = some e)
    (hover : Over u i ev.about t e' ring) (heffect : Effect cfg s ev u e e' ring)
    (hroom : HasRoom cfg s ev) : t.Cold n ↔ u.Cold n := by
  by_cases hn : n = 0
  · simp [Cold, hn]
  by_cases habout : n = ev.about
  · simp [Cold, habout, hself, hover.entry]
  have hentry : t.entry n = u.entry n := by rw [hover.entry, if_neg habout]
  have hzero := ne_zero_of_entry hwf hself
  cases heffect with
  | plain _ _ _ hring | cleared _ _ _ _ _ hring | own _ _ _ _ _ _ hring =>
    exact cold_congr hentry fun _ => by rw [slot_congr (hover.warm.trans hring)]
  | signed _ _ _ _ _ hring =>
    refine cold_congr hentry fun _ => ?_
    rw [slot_congr (hover.warm.trans hring), warmSetKnownSigner_slot hwf hzero hn, if_neg habout]
  | keyed k w hw _ _ hpeer hnum _ _ hring =>
    have hslot : t.slot n = (u.warmPlace w).slot n := slot_congr (hover.warm.trans hring)
    rcases warmPlace_slot_ne hwf (hnum ▸ hzero) hn (hnum ▸ habout) with h | ⟨h, htakes⟩
    · exact cold_congr hentry fun _ => by rw [hslot, h]
    -- the slot that is taken is of a hot node
    have hnew := htakes.new
    rw [hnum, hu] at hnew
    obtain ⟨x, hx, hx'⟩ := hroom e k hw hpeer hnew
    rw [← hu] at hx hx'
    have hhot : (u.entry n).isSome := by
      rcases htakes.hot with hhot | hall
      · exact hhot
      rcases hx' with hempty | hhot
      · exact absurd hempty (htakes.full x hx)
      · rw [hall x hx] at hhot
        cases hhot
    obtain ⟨a, ha⟩ := Option.isSome_iff_exists.mp hhot
    simp [Cold, hentry, ha]

/-- One event keeps track of the nodes that are away, as long as the ring has a slot for
each of them. -/
theorem step_tracks (hwf : s.WellFormed) (hev : ev.onRecord = true)
    (h : Tracks s away) (hroom : HasRoom cfg s ev) (hspares : SparesRing cfg s ev)
    (hbound : (awayStep cfg (s, away) ev).2.length ≤ s.warm.length) :
    Tracks (step cfg s ev) (awayStep cfg (s, away) ev).2 := by
  refine ⟨awayStep_nodup hwf h, fun n => ?_⟩
  rw [mem_awayStep, h.cold]
  have hsub (m : UInt32) (hm : s.Cold m ∨ (s.entry m).isSome ∧ (s.copyPubkey m).isSome)
      (hnone : (step cfg s ev).entry m = none) : m ∈ (awayStep cfg (s, away) ev).2 := by
    rw [mem_awayStep, h.cold]
    exact ⟨hm, hnone⟩
  have htouched := step_touched cfg hwf hev
  generalize step cfg s ev = t at htouched hsub ⊢
  cases htouched with
  | nothing => exact cold_iff_self
  | sorted order horder =>
    rw [perm_entry hwf horder, cold_congr (s := s) (perm_entry hwf horder) fun _ => rfl]
    exact cold_iff_self
  | marked env num _ hnum =>
    rw [warmSetKnownSigner_entry, cold_congr (s := s) warmSetKnownSigner_entry fun hn => ?_]
    · exact cold_iff_self
    · rw [warmSetKnownSigner_slot hwf hnum hn]
      split
      · exact Option.isSome_map
      · rfl
  | record env i u e e' ring _ hu hmakes hwf' hfetch hover hverified heffect =>
    have hself := hfetch.entry_self
    have hentry (m : UInt32) : t.entry m = none ↔ u.entry m = none := by
      rw [hover.entry m]
      split
      · next hm => simp [hm, hself]
      · exact Iff.rfl
    rw [hover.cold_iff hwf' hu hself heffect hroom, hentry]
    refine (hfetch.cold_iff hwf fun m hm hne => ?_).symm
    exact hfetch.keeps hwf hmakes hspares (fun m hm hnone => hsub m hm ((hentry m).mpr hnone))
      hbound hm hne

/-- From any tables, over every history of events on records: the slots of evicted nodes go only
to nodes that are leaving, and only when all slots are theirs, exactly when every key written for
a node in the store finds other room. If moreover no node that comes back pushes another out of a
ring full of evicted nodes' keys, the keys of as many absent nodes as it has slots are found. -/
theorem ring_serves_evicted (hwf : s.WellFormed) (evs : List Event)
    (hev : ∀ ev ∈ evs, ev.onRecord = true) :
    ((∀ done ev, done ++ [ev] <+: evs →
        Serves (run (step cfg) s done) ((run (step cfg) s done).searched cfg ev) ∧
          Serves ((run (step cfg) s done).searched cfg ev) (run (step cfg) s (done ++ [ev]))) ↔
      Guarded (step cfg) (HasRoom cfg) s evs) ∧
    (Guarded (step cfg) (fun s ev => HasRoom cfg s ev ∧ SparesRing cfg s ev) s evs →
      (∀ done, done <+: evs →
        (run (awayStep cfg) (awayStart s) done).2.length ≤ s.warm.length) →
      ∀ n ∈ (run (awayStep cfg) (awayStart s) evs).2,
        ((run (step cfg) s evs).copyPubkey n).isSome) := by
  constructor
  · have hstep {done : List Event} {ev : Event} (hp : done ++ [ev] <+: evs) :
        Serves ((run (step cfg) s done).searched cfg ev) (run (step cfg) s (done ++ [ev])) ↔
          HasRoom cfg (run (step cfg) s done) ev := by
      rw [run_append]
      refine step_serves (run_wellFormed hwf done fun ev' h => hev ev' ?_)
        (hev ev (hp.subset (by simp)))
      exact hp.subset (mem_append_left _ h)
    constructor
    · exact fun h done ev hp => (hstep hp).mp (h done ev hp).2
    · intro h done ev hp
      refine ⟨searched_serves (run_wellFormed hwf done fun ev' h => hev ev' ?_),
        (hstep hp).mpr (h done ev hp)⟩
      exact hp.subset (mem_append_left _ h)
  · intro hguard hbound
    have hinv : ∀ done, done <+: evs →
        (run (step cfg) s done).WellFormed ∧
          (run (step cfg) s done).warm.length = s.warm.length ∧
          Tracks (run (step cfg) s done) (run (awayStep cfg) (awayStart s) done).2 := by
      intro done
      induction done using reverseRecOn with
      | nil => exact fun _ => ⟨hwf, rfl, awayStart_tracks hwf⟩
      | append_singleton done ev ih =>
        intro hp
        obtain ⟨hwf', hlen, htracks⟩ := ih ((prefix_append done [ev]).trans hp)
        have hrec : ev.onRecord = true := hev ev (hp.subset (by simp))
        have hfst := run_awayStep_fst cfg s done
        have hnext : run (awayStep cfg) (awayStart s) (done ++ [ev]) = awayStep cfg
            (run (step cfg) s done, (run (awayStep cfg) (awayStart s) done).2) ev := by
          rw [run_append, ← hfst]
        have hb := hbound (done ++ [ev]) hp
        rw [hnext, ← hlen] at hb
        obtain ⟨hroom, hspares⟩ := hguard done ev hp
        rw [run_append, hnext]
        refine ⟨step_wellFormed hwf' hrec, ?_, step_tracks hwf' hrec htracks hroom hspares hb⟩
        exact (step_touched cfg hwf' hrec).warm_length.trans hlen
    intro n hn
    obtain ⟨-, -, htracks⟩ := hinv evs prefix_rfl
    obtain ⟨-, hslot, hnone⟩ := (htracks.cold n).mp hn
    rw [copyPubkey_unpinned (by rw [hnone]; rfl), Option.isSome_map]
    exact hslot

/-- A peer is evicted with its key; the ring has empty slots throughout. -/
theorem ring_serves_evicted_one :
    ((run (step toyConfig) (toyStore 8) [toyNodeInfo 1 9 (toyKey 7), toyHeard 2 8]).copyPubkey
      9).isSome := by
  have free {s : State} {ev : Event} (h : s.warm.any (·.num == 0) = true)
      (h' : (s.searched toyConfig ev).warm.any (·.num == 0) = true) :
      HasRoom toyConfig s ev ∧ SparesRing toyConfig s ev := by
    simp only [any_eq_true, beq_iff_eq] at h h'
    obtain ⟨w, hw, hzero⟩ := h
    obtain ⟨w', hw', hzero'⟩ := h'
    exact ⟨fun _ _ _ _ _ => ⟨w', hw', .inl hzero'⟩,
      fun _ _ _ _ _ _ _ _ _ _ => ⟨w, hw, .inl hzero⟩⟩
  refine (ring_serves_evicted toyStore_wellFormed _ (by decide)).2 ?_ ?_ 9 (by decide +kernel)
  · exact guarded_cons.mpr ⟨free (by decide +kernel) (by decide +kernel),
      guarded_cons.mpr ⟨free (by decide +kernel) (by decide +kernel), guarded_nil⟩⟩
  · have hall : ∀ done ∈ [toyNodeInfo 1 9 (toyKey 7), toyHeard 2 8].inits,
        (run (awayStep toyConfig) (awayStart (toyStore 8)) done).2.length ≤ 8 := by
      decide +kernel
    exact fun done hp => hall done ((mem_inits _ _).mpr hp)

/-- Peers with keys, heard one after the other. -/
def toyCrowd (a b : UInt32) : List Event :=
  (range (b.toNat - a.toNat + 1)).map fun i =>
    toyNodeInfo (a + i.toUInt32) (a + i.toUInt32) (toyKey (a + i.toUInt32).toUInt8)

/-- With room for one peer: eight have been evicted and fill the ring of eight, then the
ninth sends its key, and the first one's is gone. -/
def toyNinth : List Event := toyCrowd 2 9 ++ [toyHeard 10 10, toyNodeInfo 11 10 (toyKey 10)]

/-- With room for two peers: eight are away and fill the ring, when one of them is heard
again and pushes out a peer whose key is in its record only. -/
def toyReturn : List Event :=
  toyCrowd 2 10 ++ [toyHeard 11 11, .setFavorite 11 true, toyHeard 12 3]

/-- In both, no more than eight peers are away at any time, and the first of them has lost
its key. -/
theorem ring_loses_evicted :
    ((∀ done ∈ toyNinth.inits,
        (run (awayStep toyConfig) (awayStart (toyStore 8)) done).2.length ≤ 8) ∧
      2 ∈ (run (awayStep toyConfig) (awayStart (toyStore 8)) toyNinth).2 ∧
      (run (step toyConfig) (toyStore 8) toyNinth).copyPubkey 2 = none) ∧
    (∀ done ∈ toyReturn.inits,
        (run (awayStep ⟨3, 1⟩) (awayStart (toyStore 8)) done).2.length ≤ 8) ∧
      2 ∈ (run (awayStep ⟨3, 1⟩) (awayStart (toyStore 8)) toyReturn).2 ∧
      (run (step ⟨3, 1⟩) (toyStore 8) toyReturn).copyPubkey 2 = none := by
  decide +kernel

end Zephyrtastic.NodeDb
