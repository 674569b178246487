import Zephyrtastic.NodeDb.Effects

/-!
# A pinned key through eviction

`apply_user` refuses a key that differs from the one in the hot record. The key of an
evicted peer is in the ring, and its record is made anew without one, so the test lets
any key through. The key is lost exactly where it meets another one this way.
-/

namespace Zephyrtastic.NodeDb

open List Run

variable {cfg : Config} {env : Env} {s u t : State} {n : UInt32} {ev : Event}

/-! ## The key of a number through one event -/

/-- An evicted node keeps its key: it is in the ring now, where the record had a full one. -/
theorem copyPubkey_victim {victim : Entry} (hwf : s.WellFormed)
    (hv : s.entry victim.node.num = some victim) (hev : victim.evictable cfg.self = true)
    (hgone : u.entry victim.node.num = none)
    (hwarm : u.warm = (s.warmAbsorb cfg env victim).warm) (hn : victim.node.num ≠ 0) :
    u.copyPubkey victim.node.num = s.copyPubkey victim.node.num := by
  rw [copyPubkey_unpinned (by rw [hgone]; rfl), slot_congr hwarm]
  cases hk : victim.node.fullKey with
  | some k =>
    obtain ⟨w, hw, hpub, -⟩ := warmAbsorb_slot_self env hwf hev hn hk
    rw [hw, copyPubkey_pinned hv hk, ← hpub]
    rfl
  | none =>
    rw [warmAbsorb_slot_keyless hk, copyPubkey_unpinned]
    rw [hv]
    exact hk

variable {e : Entry} {num : UInt32}

theorem Fetched.copyPubkey (hwf : s.WellFormed) (h : Fetched cfg env s num u e) (hn : n ≠ 0) :
    u.copyPubkey n = s.copyPubkey n ∨ u.copyPubkey n = none := by
  cases h with
  | held ht => exact .inl (by rw [ht])
  | added hnew he hentry hwarm =>
    refine .inl (copyPubkey_congr ?_ (slot_congr hwarm))
    rw [hentry n]
    split
    · next hnum =>
      rw [hnum, hnew, he]
      exact readmission_fullKey
    · rfl
  | replaced victim hnew hfull hold hv hev he hentry hwarm =>
    have hne : victim.node.num ≠ num := by
      rintro rfl
      rw [hnew] at hv
      cases hv
    by_cases hvn : n = victim.node.num
    · subst hvn
      refine .inl (copyPubkey_victim hwf hv hev ?_ hwarm hn)
      rw [hentry, if_neg hne, if_pos rfl]
    refine copyPubkey_of_slot ?_ ?_
    · rw [hentry n]
      split
      · next hnum =>
        rw [hnum, hnew, he]
        exact readmission_fullKey
      · rfl
    · rw [slot_congr hwarm]
      exact (warmAbsorb_slot_ne cfg env hwf hn hvn).imp_right And.left

theorem Over.copyPubkey_eq {i : Nat} {e' : Entry} {ring : List WarmKey}
    (hu : u.entry num = some e) (h : Over u i num t e' ring)
    (hkey : e'.node.fullKey = e.node.fullKey)
    (hslot : (t.slot n).map (·.pub) = (u.slot n).map (·.pub)) :
    t.copyPubkey n = u.copyPubkey n := by
  have hrec : (t.entry n).bind (fun e => e.node.fullKey) =
      (u.entry n).bind fun e => e.node.fullKey := by
    rw [h.entry n]
    split
    · next hnum =>
      rw [hnum, hu]
      exact hkey
    · rfl
  rw [State.copyPubkey, State.copyPubkey, hrec, hslot]

theorem warmSetKnownSigner_pub {v : Bool} (hwf : s.WellFormed) (hnum : num ≠ 0) (hn : n ≠ 0) :
    ((s.warmSetKnownSigner num v).slot n).map (·.pub) = (s.slot n).map (·.pub) := by
  rw [warmSetKnownSigner_slot hwf hnum hn]
  split
  · rw [Option.map_map]
    rfl
  · rfl

/-- Events that bring no key by hand. -/
def Event.fromAir : Event → Bool
  | .commitPubkey _ _ _ | .commitAdminPubkey _ _ _ | .addContact _ _ _ _ _ => false
  | ev => ev.onRecord

theorem Event.onRecord_of_fromAir (h : ev.fromAir = true) : ev.onRecord = true := by
  cases ev <;> first | rfl | cases h

/-- Through an event every key stays, is given up by the ring, or is the one the event
writes. -/
theorem step_copyPubkey (cfg : Config) (n : UInt32) (hwf : s.WellFormed)
    (hev : ev.fromAir = true) (hn : n ≠ 0) :
    (step cfg s ev).copyPubkey n = s.copyPubkey n ∨ (step cfg s ev).copyPubkey n = none ∨
      ∃ e k, s.written cfg ev = some (e, k) ∧ n = ev.about ∧
        (step cfg s ev).copyPubkey n = some k := by
  have h := step_touched cfg hwf (Event.onRecord_of_fromAir hev)
  generalize step cfg s ev = t at h ⊢
  cases h with
  | nothing => exact .inl rfl
  | sorted order horder => exact .inl (copyPubkey_congr (by rw [perm_entry hwf horder]) rfl)
  | marked env num hev hnum =>
    left
    rw [State.copyPubkey, State.copyPubkey, warmSetKnownSigner_entry,
      warmSetKnownSigner_pub hwf hnum hn]
  | record env i u e e' ring _ hu hmakes hwf' hfetch hover hverified heffect =>
    have hself := hfetch.entry_self
    have hnum := ne_zero_of_entry hwf' hself
    -- what the event does after the search
    have hrest : t.copyPubkey n = u.copyPubkey n ∨ t.copyPubkey n = none ∨
        ∃ e k, s.written cfg ev = some (e, k) ∧ n = ev.about ∧ t.copyPubkey n = some k := by
      cases heffect with
      | plain hw hkey hsigned hring =>
        refine .inl (hover.copyPubkey_eq hself hkey ?_)
        rw [slot_congr (hover.warm.trans hring)]
      | cleared hev' =>
        obtain ⟨_, _, _, _, _, rfl⟩ := hev'
        cases hev
      | keyed k w hw hkey hsigned hnself hwnum hpub hsigner hring =>
        subst hring
        by_cases hne : n = ev.about
        · refine .inr (.inr ⟨e, k, hw, hne, ?_⟩)
          exact copyPubkey_pinned (by rw [hover.entry, if_pos hne]) hkey
        have heffect : Effect cfg s ev u e e' (u.warmPlace w).warm :=
          .keyed k w hw hkey hsigned hnself hwnum hpub hsigner rfl
        rcases copyPubkey_of_slot (by rw [hover.entry, if_neg hne])
          (hover.slot_ne hwf' heffect hnum hn hne) with h | h
        · exact .inl h
        · exact .inr (.inl h)
      | own k hw hkey hsigned hnself hev' =>
        obtain ⟨_, _, rfl⟩ := hev'
        cases hev
      | signed hev' hw hkey hsigned hnself hring =>
        refine .inl (hover.copyPubkey_eq hself hkey ?_)
        rw [slot_congr (hover.warm.trans hring), warmSetKnownSigner_pub hwf' hnum hn]
    rcases hrest with h | h
    · rw [h]
      exact (hfetch.copyPubkey hwf hn).imp_right .inl
    · exact .inr h

section
variable {k : Key} (hwf : s.WellFormed) (hev : ev.onRecord = true)
  (hw : s.written cfg ev = some (e, k))
include hwf hev hw

theorem written_record :
    ∃ e', (step cfg s ev).entry ev.about = some e' ∧ e'.node.fullKey = some k ∧
      e'.verified = ev.verifies e.verified ∧ e'.signed = e.signed := by
  have h := step_touched cfg hwf hev
  generalize step cfg s ev = t at h ⊢
  cases h with
  | nothing hw' =>
    rw [hw] at hw'
    cases hw'
  | sorted order horder hev' | marked env num hev' =>
    subst hev'
    cases hw
  | record env i u e₀ e' ring _ hu hmakes hwf' hfetch hover hverified heffect =>
    have hentry := hover.found
    cases heffect with
    | plain hw' | cleared _ hw' | signed _ hw' =>
      rw [hw] at hw'
      cases hw'
    | keyed k' w hw' hkey hsigned | own k' hw' hkey hsigned =>
      rw [hw] at hw'
      cases hw'
      exact ⟨e', hentry, hkey, hverified, hsigned⟩

theorem written_copyPubkey : ev.about ≠ 0 ∧ (step cfg s ev).copyPubkey ev.about = some k := by
  obtain ⟨e', hentry, hkey, -⟩ := written_record hwf hev hw
  exact ⟨ne_zero_of_entry (step_wellFormed hwf hev) hentry, copyPubkey_pinned hentry hkey⟩

end

/-! ## Runs -/

/-- The key an event writes is the one that is stored for the node already, if any is. -/
def KeepsPin (cfg : Config) (s : State) (ev : Event) : Prop :=
  ∀ e k k', s.written cfg ev = some (e, k) → s.copyPubkey ev.about = some k' → k' = k

/-- Once a key is returned for a peer, it is the one returned for as long as any is. -/
def PinKept (cfg : Config) (s : State) (evs : List Event) : Prop :=
  ∀ n ≠ 0, ∀ k done more, done ++ more <+: evs →
    (run (step cfg) s done).copyPubkey n = some k →
    (∀ part, part <+: more → ((run (step cfg) s (done ++ part)).copyPubkey n).isSome) →
    (run (step cfg) s (done ++ more)).copyPubkey n = some k

/-- From any tables, packets from the air keep every key that is stored exactly when no
NodeInfo is accepted whose key differs from the stored one. -/
theorem pin_kept_iff (hwf : s.WellFormed) (evs : List Event)
    (hair : ∀ ev ∈ evs, ev.fromAir = true) :
    PinKept cfg s evs ↔ Guarded (step cfg) (KeepsPin cfg) s evs := by
  have hwf' {done : List Event} (h : done <+: evs) : (run (step cfg) s done).WellFormed :=
    run_wellFormed hwf done fun ev hev =>
      Event.onRecord_of_fromAir (hair ev (h.subset hev))
  constructor
  · intro hkept done ev hp e k k' hw hk'
    have hev : ev.fromAir = true := hair ev (hp.subset (by simp))
    have hdone : done <+: evs := (prefix_append done [ev]).trans hp
    obtain ⟨hnum, hafter⟩ :=
      written_copyPubkey (hwf' hdone) (Event.onRecord_of_fromAir hev) hw
    have hsame := hkept ev.about hnum k' done [ev] hp hk' ?_
    · rw [run_append, hafter] at hsame
      exact (Option.some.inj hsame).symm
    · intro part hpart
      rcases prefix_cons_iff.mp hpart with rfl | ⟨rest, rfl, hrest⟩
      · rw [append_nil, hk']
        rfl
      · rw [prefix_nil.mp hrest, run_append, hafter]
        rfl
  · intro hguard n hn k done more
    induction more using reverseRecOn with
    | nil =>
      intro _ hk _
      rwa [append_nil]
    | append_singleton more ev ih =>
      intro hp hk hsome
      rw [← append_assoc] at hp ⊢
      have hbefore := ih ((prefix_append _ [ev]).trans hp) hk fun part hpart =>
        hsome part (hpart.trans (prefix_append more [ev]))
      have hev : ev.fromAir = true := hair ev (hp.subset (by simp))
      have hstep := step_copyPubkey cfg n
        (hwf' ((prefix_append _ [ev]).trans hp)) hev hn
      rw [run_append]
      rcases hstep with h | h | ⟨e, k', hw, rfl, h⟩
      · rw [h, hbefore]
      · have := hsome _ prefix_rfl
        rw [← append_assoc, run_append, h] at this
        cases this
      · rw [h, hguard _ ev hp e k' k hw hbefore]

/-- A peer that comes back with its own key. -/
theorem pin_kept_iff_readmitted :
    PinKept toyConfig (toyStore 8) [toyNodeInfo 1 9 (toyKey 7), toyHeard 2 8,
      toyNodeInfo 3 9 (toyKey 7)] := by
  refine (pin_kept_iff toyStore_wellFormed _ (by decide)).mpr ?_
  have keeps {s : State} {ev : Event}
      (h : (s.written toyConfig ev).all fun r => (s.copyPubkey ev.about).all (· = r.2)) :
      KeepsPin toyConfig s ev := by
    intro e k k' hw hk
    simpa [hw, hk] using h
  refine guarded_cons.mpr ⟨keeps (by decide +kernel), guarded_cons.mpr ⟨keeps (by decide +kernel),
    guarded_cons.mpr ⟨keeps (by decide +kernel), guarded_nil⟩⟩⟩

/-- A peer is heard with a key, evicted, and its record is made anew: the ring still holds
the key, and another one is taken. -/
theorem pin_lost :
    ¬ PinKept toyConfig (toyStore 8) [toyNodeInfo 1 9 (toyKey 7), toyHeard 2 8,
      toyNodeInfo 3 9 (toyKey 5)] := by
  intro h
  have hpart : ∀ part, part <+: [toyHeard 2 8, toyNodeInfo 3 9 (toyKey 5)] →
      ((run (step toyConfig) (toyStore 8) ([toyNodeInfo 1 9 (toyKey 7)] ++ part)).copyPubkey
        9).isSome := by
    intro part hpart
    obtain ⟨i, rfl⟩ : ∃ i, part = [toyHeard 2 8, toyNodeInfo 3 9 (toyKey 5)].take i :=
      ⟨part.length, prefix_iff_eq_take.mp hpart⟩
    match i with
    | 0 => decide +kernel
    | 1 => decide +kernel
    | i + 2 =>
      rw [take_of_length_le (by simp)]
      decide +kernel
  have := h 9 (by decide) (toyKey 7) [toyNodeInfo 1 9 (toyKey 7)] _ prefix_rfl
    (by decide +kernel) hpart
  exact absurd this (by decide +kernel)

end Zephyrtastic.NodeDb
