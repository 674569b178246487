import Zephyrtastic.NodeDb.Effects

/-!
# Room for a new peer

The table is an array that is filled from the front. Two of its places are kept out of
the reach of favourites and ignored nodes, so that one entry besides this node's can
always give way. `nodedb_set_bit` keeps to that; a restored record does not ask.
-/

namespace Zephyrtastic.NodeDb

open Entry Keyed List Run State NodeInfoLite

variable {cfg : Config} {env : Env} {hot hot' : List Entry} {s t : State} {i : Nat} {e e' : Entry}
  {num : UInt32}

/-- The entries are in use, with distinct numbers other than zero, and this node's is one
of them. -/
structure Table (cfg : Config) (hot : List Entry) : Prop where
  used : ∀ e ∈ hot, e.used = true
  distinct : (hot.map (·.node.num)).Nodup
  nonzero : ∀ e ∈ hot, e.node.num ≠ 0
  self : ∃ e ∈ hot, e.node.num = cfg.self
  size : hot.length ≤ cfg.maxNodes

/-- The count of `protected_count_locked`, on a list. -/
def protectedIn (hot : List Entry) : Nat := hot.countP fun e => e.used && e.node.isProtected

/-- Two entries are kept from protection, and no entry carries the time that no search for
a victim accepts. -/
structure Reserve (cfg : Config) (hot : List Entry) : Prop where
  cap : protectedIn hot ≤ cfg.maxNodes - 2
  heard : ∀ e ∈ hot, e.node.lastHeard ≠ 0xFFFFFFFF

/-! ## Writing one entry -/

section
variable {α : Type} {a : α} {l : List α} (p : α → Bool) (h : l[i]? = some a)
include h

theorem countP_set_add (b : α) : (l.set i b).countP p + (if p a then 1 else 0) =
      l.countP p + if p b then 1 else 0 := by
  obtain ⟨hlt, rfl⟩ := List.getElem?_eq_some_iff.mp h
  have hle := boole_getElem_le_countP (p := p) hlt
  rw [countP_set hlt]
  omega

theorem countP_set_le (b : α) : (l.set i b).countP p ≤ l.countP p + 1 := by
  have hcount := countP_set_add p h b
  have hone : (if p b then 1 else 0) ≤ 1 := by split <;> omega
  omega

theorem countP_set_le_of_imp {b : α} (hp : p b = true → p a = true) :
    (l.set i b).countP p ≤ l.countP p := by
  have hcount := countP_set_add p h b
  have hle : (if p b then 1 else 0) ≤ if p a then 1 else 0 := by
    split
    · next hb => rw [if_pos (hp hb)]
    · exact Nat.zero_le _
  omega

end

theorem map_set_same {α β : Type} (f : α → β) {l : List α} {a b : α} (h : l[i]? = some a)
    (hf : f b = f a) : (l.set i b).map f = l.map f := by
  obtain ⟨hlt, rfl⟩ := List.getElem?_eq_some_iff.mp h
  rw [map_set, hf, ← getElem_map f (h := by simpa using hlt), set_getElem_self]

theorem forall_mem_set {P : Entry → Prop} (h : ∀ a ∈ hot, P a) (he : P e) :
    ∀ a ∈ hot.set i e, P a := by
  intro a ha
  rcases mem_or_eq_of_mem_set ha with ha | rfl
  · exact h a ha
  · exact he

theorem Table.set (h : Table cfg hot) (hi : hot[i]? = some e) (hused : e'.used = true)
    (hnum : e'.node.num = e.node.num) : Table cfg (hot.set i e') := by
  have hmap : (hot.set i e').map (·.node.num) = hot.map (·.node.num) := map_set_same _ hi hnum
  have he : e ∈ hot := mem_of_getElem? hi
  refine ⟨forall_mem_set h.used hused, hmap ▸ h.distinct,
    forall_mem_set h.nonzero (hnum ▸ h.nonzero e he), ?_, by simpa using h.size⟩
  have hself := mem_map.mpr h.self
  rw [← hmap] at hself
  exact mem_map.mp hself

theorem Reserve.set (h : Reserve cfg hot) (hi : hot[i]? = some e)
    (hprot : (e'.used && e'.node.isProtected) = true → (e.used && e.node.isProtected) = true)
    (hheard : e'.node.lastHeard ≠ 0xFFFFFFFF) : Reserve cfg (hot.set i e') :=
  ⟨(countP_set_le_of_imp _ hi hprot).trans h.cap, forall_mem_set h.heard hheard⟩

/-- What a call may write into an entry: it keeps its number and its flags of protection,
and its time or takes the present one. -/
structure Entry.Follows (now : UInt32) (e e' : Entry) : Prop where
  used : e'.used = e.used
  num : e'.node.num = e.node.num
  prot : e'.node.isProtected = e.node.isProtected
  heard : e'.node.lastHeard = e.node.lastHeard ∨ e'.node.lastHeard = now

/-- The table and the reserve, under a condition that is needed for the reserve only. -/
structure Fit (cfg : Config) (ok : Prop) (hot : List Entry) : Prop where
  table : Table cfg hot
  reserve : ok → Reserve cfg hot

section Fit
variable {ok : Prop} {now : UInt32}

theorem Fit.set (h : Fit cfg ok hot) (hi : hot[i]? = some e) (now : UInt32)
    (hf : e.Follows now e') (hnow : ok → now ≠ 0xFFFFFFFF) : Fit cfg ok (hot.set i e') := by
  have he : e ∈ hot := mem_of_getElem? hi
  refine ⟨h.table.set hi (hf.used.trans (h.table.used e he)) hf.num, fun hok => ?_⟩
  refine (h.reserve hok).set hi (fun hp => ?_) ?_
  · rwa [hf.used, hf.prot] at hp
  · rcases hf.heard with hh | hh
    · exact hh ▸ (h.reserve hok).heard e he
    · exact hh ▸ hnow hok

theorem Fit.update (h : Fit cfg ok s.hot) (f : Entry → Entry) (now : UInt32)
    (hf : ∀ e : Entry, e.Follows now (f e)) (hnow : ok → now ≠ 0xFFFFFFFF) (i : Nat) :
    Fit cfg ok (s.update i f).hot := by
  rw [State.update]
  cases hi : s.hot[i]? with
  | none => rwa [modify_eq_set_getElem?, hi]
  | some e =>
    rw [modify_eq_set_getElem?, hi]
    exact h.set hi now (hf e) hnow

theorem isProtected_of_isSet {node node' : NodeInfoLite}
    (hf : node'.isSet .isFavorite = node.isSet .isFavorite)
    (hi : node'.isSet .isIgnored = node.isSet .isIgnored) :
    node'.isProtected = node.isProtected := by
  rw [isProtected, isProtected, hf, hi]

theorem Entry.follows_writeBit (e : Entry) {b : NodeBit} (hf : b ≠ .isFavorite)
    (hi : b ≠ .isIgnored) (v : Bool) :
    e.Follows now { e with node := e.node.writeBit b v } :=
  ⟨rfl, rfl, isProtected_of_isSet (isSet_writeBit.trans (if_neg hf.symm))
    (isSet_writeBit.trans (if_neg hi.symm)), .inl rfl⟩

theorem Entry.follows_withUser (e : Entry) (user : User) :
    e.Follows now { e with node := e.node.withUser user } :=
  ⟨rfl, rfl, isProtected_of_isSet (withUser_isSet _ _ (.inr (.inr (.inl rfl))))
    (withUser_isSet _ _ (.inr (.inr (.inr rfl)))), .inl rfl⟩

theorem Entry.follows_basic (e : Entry) (p : Packet) : e.Follows now (e.applyBasicPacket p now) :=
  ⟨rfl, rfl, isProtected_of_isSet (applyBasicPacket_isSet _ _ _ ⟨by decide, by decide⟩)
    (applyBasicPacket_isSet _ _ _ ⟨by decide, by decide⟩), .inr rfl⟩

theorem Fit.applyUser (h : Fit cfg ok s.hot) (env : Env) (i : Nat) (user : User) :
    Fit cfg ok (s.applyUser cfg env i user).hot := by
  unfold State.applyUser
  cases hi : s.hot[i]? with
  | none => exact h
  | some e =>
    have hput : Fit cfg ok (s.put i { e with node := e.node.withUser user }).hot :=
      h.set hi 0 (e.follows_withUser user) fun _ => by decide
    dsimp only
    split
    · exact h
    split
    · exact hput
    · split
      · exact hput
      · exact warmPlace_hot.symm ▸ hput

/-! ## Making a record -/

theorem mem_set_of_ne {a : Entry} (ha : a ∈ hot) (hi : hot[i]? = some e) (hne : a ≠ e) (b : Entry) :
    a ∈ hot.set i b := by
  obtain ⟨j, hj⟩ := getElem?_of_mem ha
  have hij : i ≠ j := by
    rintro rfl
    exact hne (Option.mem_unique hj hi)
  exact mem_of_getElem? ((getElem?_set_ne hij).trans hj)

theorem Table.not_mem_of_entry (h : Table cfg s.hot) (hnew : s.entry num = none) :
    num ∉ s.hot.map (·.node.num) := by
  intro hmem
  obtain ⟨e, he, hnum⟩ := mem_map.mp hmem
  exact entry_eq_none_iff.mp hnew
    (Keyed.mem_keys.mpr ⟨e, he, key_eq_some.mpr ⟨h.used e he, hnum⟩⟩)

theorem readmission_used (s : State) (num : UInt32) : (s.readmission num).used = true :=
  (key_eq_some.mp readmission_key).1

theorem readmission_fresh (s : State) (num : UInt32) :
    (s.readmission num).node.isProtected = false ∧ (s.readmission num).node.lastHeard = 0 := by
  constructor
  · rw [isProtected, readmission_isSet (by decide), readmission_isSet (by decide)]
    rfl
  · unfold readmission
    split
    · rfl
    · split <;> rfl

section
variable (h : Fit cfg ok s.hot) (hnum : num ≠ 0) (hnew : s.entry num = none)
include h hnum hnew

theorem Fit.append (hroom : s.hot.length < cfg.maxNodes) (u : State) :
    Fit cfg ok (s.hot ++ [u.readmission num]) := by
  obtain ⟨hprot, hheard⟩ := readmission_fresh u num
  constructor
  · refine ⟨?_, ?_, ?_, ?_, by simpa using Nat.succ_le_of_lt hroom⟩
    · simp only [forall_mem_append, forall_mem_singleton]
      exact ⟨h.table.used, readmission_used u num⟩
    · rw [map_append, map_singleton, readmission_num]
      refine nodup_append.mpr ⟨h.table.distinct, nodup_singleton _, ?_⟩
      rintro a ha b hb rfl
      exact h.table.not_mem_of_entry hnew (mem_singleton.mp hb ▸ ha)
    · simp only [forall_mem_append, forall_mem_singleton, readmission_num]
      exact ⟨h.table.nonzero, hnum⟩
    · obtain ⟨e, he, hself⟩ := h.table.self
      exact ⟨e, mem_append_left _ he, hself⟩
  · intro hok
    constructor
    · rw [protectedIn, countP_append, countP_singleton, hprot, Bool.and_false]
      exact (h.reserve hok).cap
    · simp only [forall_mem_append, forall_mem_singleton, hheard]
      exact ⟨(h.reserve hok).heard, by decide⟩

theorem Fit.replace (hi : s.hot[i]? = some e) (hev : e.evictable cfg.self = true)
    (u : State) : Fit cfg ok (s.hot.set i (u.readmission num)) := by
  obtain ⟨hprot, hheard⟩ := readmission_fresh u num
  constructor
  · refine ⟨?_, ?_, ?_, ?_, by simpa using h.table.size⟩
    · exact forall_mem_set h.table.used (readmission_used u num)
    · have hlt : i < s.hot.length := (List.getElem?_eq_some_iff.mp hi).1
      have hperm := (set_perm_cons_eraseIdx hlt (u.readmission num)).map (·.node.num)
      rw [map_cons, readmission_num] at hperm
      refine hperm.nodup_iff.mpr (nodup_cons.mpr ⟨fun hin => ?_, ?_⟩)
      · exact h.table.not_mem_of_entry hnew
          (((eraseIdx_sublist _ _).map _).subset hin)
      · exact h.table.distinct.sublist ((eraseIdx_sublist _ _).map _)
    · refine forall_mem_set h.table.nonzero ?_
      rwa [readmission_num]
    · obtain ⟨a, ha, hself⟩ := h.table.self
      refine ⟨a, mem_set_of_ne ha hi ?_ _, hself⟩
      rintro rfl
      exact (evictable_iff.mp hev).2.1 hself
  · intro hok
    refine (h.reserve hok).set hi ?_ (hheard ▸ by decide)
    rw [hprot, Bool.and_false]
    exact fun hfalse => by cases hfalse

end

theorem Fit.fetch (h : Fit cfg ok s.hot)
    (hget : s.getOrCreate cfg env num = some (i, t)) : Fit cfg ok t.hot := by
  have hgot := getOrCreate_spec cfg env s num
  rw [hget] at hgot
  cases hgot with
  | found => exact h
  | grown hnum hnew hroom => exact h.append hnum hnew hroom s
  | evicted _ e hnum hnew hfull hold hi hev =>
    rw [put, warmAbsorb_hot]
    exact h.replace hnum hnew hi hev _

/-! ## Raising a flag -/

theorem writeBit_protected {b : NodeBit} {v : Bool} (h : e.wouldProtect b v = false)
    (hp : (e.node.writeBit b v).isProtected = true) : e.node.isProtected = true := by
  by_contra hno
  have hno : e.node.isProtected = false := by simpa using hno
  have hflags : e.node.isSet .isFavorite = false ∧ e.node.isSet .isIgnored = false := by
    simpa [isProtected] using hno
  simp only [isProtected, isSet_writeBit, hflags.1, hflags.2] at hp
  simp only [wouldProtect, hno, Bool.not_false, Bool.and_true] at h
  cases v with
  | false =>
    simp at hp
  | true =>
    simp only [Bool.true_and, Bool.or_eq_false_iff, beq_eq_false_iff_ne] at h
    simp [h.1.symm, h.2.symm] at hp

theorem Fit.setBit (h : Fit cfg ok s.hot) (hmax : ok → 2 ≤ cfg.maxNodes) (num : UInt32)
    (b : NodeBit) (v : Bool) : Fit cfg ok (s.after (s.setBit cfg num b v)).hot := by
  unfold State.setBit
  cases hfind : s.findEntry num with
  | none => exact h
  | some i =>
    rw [findEntry_eq] at hfind
    obtain ⟨e, hi, hkey⟩ := get_of_position hfind
    obtain ⟨hused, -⟩ := key_eq_some.mp hkey
    dsimp only
    rw [hi, Option.any_some]
    split
    · exact h
    next hroom =>
    rw [State.after, update_eq_put hi]
    refine ⟨h.table.set hi hused rfl, fun hok => ?_⟩
    have hres := h.reserve hok
    cases hw : e.wouldProtect b v with
    | false =>
      refine hres.set hi (fun hp => ?_) (hres.heard e (mem_of_getElem? hi))
      simp only [hused, Bool.true_and] at hp ⊢
      exact writeBit_protected hw hp
    | true =>
      -- the count is below the cap, so one more is within it
      have hcap : s.protectedCount + 1 ≤ cfg.maxNodes - 2 := by
        have hcap : ¬ s.protectedCount + 1 > cfg.protectedCap := fun hc => hroom ⟨hw, hc⟩
        rw [Config.protectedCap, if_pos (hmax hok)] at hcap
        exact Nat.le_of_not_gt hcap
      exact ⟨(countP_set_le _ hi _).trans hcap,
        forall_mem_set hres.heard (hres.heard e (mem_of_getElem? hi))⟩

/-! ## Removing entries -/

theorem Fit.subperm (h : Fit cfg ok hot) (hs : hot'.Subperm hot)
    (hself : ∃ e ∈ hot', e.node.num = cfg.self) : Fit cfg ok hot' := by
  have hdistinct : (hot'.map (·.node.num)).Nodup := by
    obtain ⟨l, hp, hsub⟩ := hs
    exact (hp.map _).nodup_iff.mp (h.table.distinct.sublist (hsub.map _))
  refine ⟨⟨fun e he => h.table.used e (hs.subset he), hdistinct,
    fun e he => h.table.nonzero e (hs.subset he), hself, hs.length_le.trans h.table.size⟩,
    fun hok => ⟨?_, fun e he => (h.reserve hok).heard e (hs.subset he)⟩⟩
  exact (hs.countP_le _).trans (h.reserve hok).cap

theorem Fit.remove (h : Fit cfg ok s.hot) (num : UInt32) :
    Fit cfg ok (s.after (s.remove cfg num)).hot := by
  unfold State.remove
  split
  · exact h
  next hself =>
  cases hfind : s.findEntry num with
  | none => exact h
  | some i =>
    rw [findEntry_eq] at hfind
    obtain ⟨e, hi, hkey⟩ := get_of_position hfind
    obtain ⟨-, hnum⟩ := key_eq_some.mp hkey
    have hlt := (List.getElem?_eq_some_iff.mp hi).1
    cases hlast : s.hot.getLast? with
    | none => exact h
    | some last =>
      have hp := swapRemove_perm hlt hlast
      refine h.subperm (hp.subperm.trans (eraseIdx_sublist _ i).subperm) ?_
      obtain ⟨a, ha, hself'⟩ := h.table.self
      obtain ⟨j, hj⟩ := getElem?_of_mem ha
      refine ⟨a, hp.mem_iff.mpr (mem_eraseIdx_iff_getElem?.mpr ⟨j, ?_, hj⟩), hself'⟩
      rintro rfl
      obtain rfl : e = a := Option.mem_unique hi hj
      exact hself (hnum.symm.trans hself')

/-! ## Restoring a record -/

theorem getOrCreate_entry (hget : s.getOrCreate cfg env num = some (i, t)) :
    ∃ e, t.hot[i]? = some e ∧ e.key = some num ∧ (t = s ∨ s.entry num = none) ∧
      protectedIn t.hot ≤ protectedIn s.hot := by
  have hgot := getOrCreate_spec cfg env s num
  rw [hget] at hgot
  cases hgot with
  | found _ e hnum hi hkey => exact ⟨e, hi, hkey, .inl rfl, Nat.le_refl _⟩
  | grown hnum hnew hroom =>
    refine ⟨s.readmission num, by simp, readmission_key, .inr hnew, ?_⟩
    rw [protectedIn, countP_append, countP_singleton, (readmission_fresh s num).1,
      Bool.and_false]
    exact Nat.le_refl _
  | evicted _ e hnum hnew hfull hold hi hev =>
    have hhot : (s.warmAbsorb cfg env e).hot = s.hot := warmAbsorb_hot
    have hfresh := (readmission_fresh (s.warmAbsorb cfg env e) num).1
    refine ⟨(s.warmAbsorb cfg env e).readmission num, put_get (hhot ▸ hi), readmission_key,
      .inr hnew, ?_⟩
    rw [put, hhot]
    refine countP_set_le_of_imp _ hi fun hp => ?_
    rw [hfresh, Bool.and_false] at hp
    cases hp

theorem Table.entry_of_get (h : Table cfg s.hot) (hi : s.hot[i]? = some e)
    (hkey : e.key = some num) : s.entry num = some e := by
  have hkeys : keys key s.hot = s.hot.map (·.node.num) := by
    rw [← filterMap_eq_map]
    refine filterMap_congr fun a ha => ?_
    exact key_eq_some.mpr ⟨h.used a ha, rfl⟩
  rw [entry_eq]
  exact lookup_of_mem (hkeys ▸ h.distinct) (mem_of_getElem? hi) hkey

/-- A stored record of a protected node is put back where it was protected, or while the
protected nodes are below their cap. -/
theorem Fit.mtrecApply (h : Fit cfg ok s.hot) (env : Env) {node : NodeInfoLite}
    (hcap : ok → node.isProtected = true → (s.entry num).any (·.node.isProtected) = true ∨
      s.protectedCount < cfg.maxNodes - 2) : Fit cfg ok (s.mtrecApply cfg env num node).hot := by
  unfold State.mtrecApply
  cases hget : s.getOrCreate cfg env num with
  | none => exact h
  | some r =>
    obtain ⟨i, t⟩ := r
    have hfit := h.fetch hget
    obtain ⟨e, hi, hkey, hsame, hcount⟩ := getOrCreate_entry hget
    obtain ⟨hused, hnum⟩ := key_eq_some.mp hkey
    dsimp only
    rw [State.update, modify_eq_set_getElem?, hi]
    refine ⟨hfit.table.set hi rfl hnum.symm, fun hok => ⟨?_, ?_⟩⟩
    · by_cases hprot : node.isProtected = true
      · rcases hcap hok hprot with hwas | hbelow
        · -- a record that was protected was there before the search
          refine (countP_set_le_of_imp _ hi fun _ => ?_).trans (hfit.reserve hok).cap
          rw [hused, Bool.true_and]
          rcases hsame with rfl | hnew
          · rwa [hfit.table.entry_of_get hi hkey] at hwas
          · rw [hnew] at hwas
            cases hwas
        · have hle := countP_set_le (fun e => e.used && e.node.isProtected) hi
            { e with used := true, lastHeardEpoch := node.lastHeard,
                     node := { node with num, lastHeard := 0 } }
          unfold protectedCount at hbelow
          unfold protectedIn at hcount
          exact hle.trans (by omega)
      · refine (countP_set_le_of_imp _ hi fun hp => ?_).trans (hfit.reserve hok).cap
        exact absurd ((Bool.and_eq_true _ _).mp hp).2 hprot
    · have hzero : (0 : UInt32) ≠ 0xFFFFFFFF := by decide
      exact forall_mem_set (hfit.reserve hok).heard hzero

end Fit

/-! ## Events -/

/-- What the reserve asks of an event: a record of a protected node is restored where it
was protected or below the cap, and nothing is heard in the last second the clock counts. -/
def KeepsReserve (cfg : Config) (s : State) : Event → Prop
  | .packet env _ | .addContact env _ _ _ _ | .boot env _ => env.uptimeSec ≠ 0xFFFFFFFF
  | .restoreRecord _ num node => num ≠ 0 → num ≠ cfg.self → node.isProtected = true →
      (s.entry num).any (·.node.isProtected) = true ∨ s.protectedCount < cfg.maxNodes - 2
  | _ => True

section Events
variable {ok : Prop} {ev : Event}

section
variable (h : Fit cfg ok s.hot)
include h

theorem Fit.onPacket (env : Env) (p : Packet)
    (hnow : ok → env.uptimeSec ≠ 0xFFFFFFFF) : Fit cfg ok (s.onPacket cfg env p).hot := by
  unfold State.onPacket
  split
  · exact h
  cases hget : s.getOrCreate cfg env p.sender with
  | none => exact h
  | some r =>
    obtain ⟨i, t⟩ := r
    have hbasic := (h.fetch hget).update (·.applyBasicPacket p env.uptimeSec) env.uptimeSec
      (fun e => e.follows_basic p) hnow i
    dsimp only
    split
    · exact hbasic.applyUser env i _
    · exact hbasic.update (·.applyPosition _) env.uptimeSec
        (fun _ => ⟨rfl, rfl, rfl, .inl rfl⟩) hnow i
    · exact hbasic

theorem warmSetKnownSigner_fit : Fit cfg ok (s.warmSetKnownSigner num true).hot := by
  rwa [warmSetKnownSigner_hot]

theorem Fit.noteSigner (env : Env) (num : UInt32) :
    Fit cfg ok (s.noteXeddsaSigner cfg env num).hot := by
  unfold noteXeddsaSigner
  split
  · exact h
  refine warmSetKnownSigner_fit ?_
  cases hget : s.getOrCreate cfg env num with
  | none => exact h
  | some r =>
    obtain ⟨i, t⟩ := r
    exact (h.fetch hget).update _ 0
      (fun e => e.follows_writeBit (by decide) (by decide) true) (fun _ => by decide) i

theorem Fit.commitAt (env : Env) (i : Nat) (num : UInt32) (key : Key) :
    Fit cfg ok (s.commitAt cfg env i num key).hot := by
  have hkey := h.update (fun e => { e with node := { e.node with publicKey := key.bytes } }) 0
    (fun _ => ⟨rfl, rfl, rfl, .inl rfl⟩) (fun _ => by decide) i
  unfold State.commitAt
  split
  · exact hkey
  · exact warmPlace_hot.symm ▸ hkey

theorem Fit.contactAt (env : Env) (i : Nat) (user : User)
    (shouldIgnore : Bool) (hnow : ok → env.uptimeSec ≠ 0xFFFFFFFF) :
    Fit cfg ok (s.contactAt cfg env i user shouldIgnore).hot := by
  have hclear := h.update (·.clearPin user) 0
    (fun e => by unfold clearPin; split <;> exact ⟨rfl, rfl, rfl, .inl rfl⟩)
    (fun _ => by decide) i
  have huser := hclear.applyUser env i user
  unfold State.contactAt
  dsimp only
  split
  · exact huser.update (·.heardAt env.uptimeSec) env.uptimeSec
      (fun _ => ⟨rfl, rfl, rfl, .inr rfl⟩) hnow i
  · exact huser

theorem Fit.contactFlags (hmax : ok → 2 ≤ cfg.maxNodes) (env : Env)
    (num : UInt32) (verified shouldIgnore : Bool) :
    Fit cfg ok (s.contactFlags cfg env num verified shouldIgnore).hot := by
  unfold State.contactFlags
  split
  · exact (h.setBit hmax num .isIgnored true).setBit hmax num .isFavorite false
  dsimp only
  have hfav : Fit cfg ok
      (if env.clientBase then s else s.after (s.setFavorite cfg num true)).hot := by
    split
    · exact h
    · exact h.setBit hmax num .isFavorite true
  split
  · exact hfav.setBit hmax num .isKeyManuallyVerified true
  · exact hfav

theorem Fit.addContact (hmax : ok → 2 ≤ cfg.maxNodes) (env : Env)
    (num : UInt32) (user : User) (verified shouldIgnore : Bool)
    (hnow : ok → env.uptimeSec ≠ 0xFFFFFFFF) :
    Fit cfg ok (s.after (s.addContact cfg env num user verified shouldIgnore)).hot := by
  unfold State.addContact
  split
  · exact h
  cases hget : s.getOrCreate cfg env num with
  | none => exact h
  | some r =>
    obtain ⟨i, t⟩ := r
    dsimp only
    split
    · exact h
    · exact ((h.fetch hget).contactAt env i user shouldIgnore hnow).contactFlags hmax env num
        verified shouldIgnore

end

theorem boot_eq (hmax : 1 ≤ cfg.maxNodes) (hself : cfg.self ≠ 0) (s : State) (env : Env)
    (user : User) : ∃ e, e.used = true ∧ e.node.num = cfg.self ∧ e.node.isProtected = false ∧
      e.node.lastHeard = 0 ∧ s.boot cfg env user =
        (State.update ⟨[e], s.warm.map fun _ => .empty, false, false⟩ 0
          (·.heardAt env.uptimeSec)).applyUser cfg env 0 user := by
  generalize hblank : (⟨[], s.warm.map fun _ => .empty, false, false⟩ : State) = blank
  have hget : blank.getOrCreate cfg env cfg.self =
      some (0, { blank with hot := [blank.readmission cfg.self] }) := by
    rw [getOrCreate, if_neg hself]
    simp [findEntry, ← hblank, Nat.lt_of_lt_of_le Nat.zero_lt_one hmax]
  obtain ⟨hprot, hheard⟩ := readmission_fresh blank cfg.self
  refine ⟨blank.readmission cfg.self, readmission_used blank cfg.self, readmission_num, hprot,
    hheard, ?_⟩
  unfold boot
  dsimp only
  rw [hblank, hget, ← hblank]

theorem boot_fit (hmax : 1 ≤ cfg.maxNodes) (hself : cfg.self ≠ 0) (s : State) (env : Env)
    (user : User) (hnow : ok → env.uptimeSec ≠ 0xFFFFFFFF) :
    Fit cfg ok (s.boot cfg env user).hot := by
  obtain ⟨e, hused, hnum, hprot, hheard, heq⟩ := boot_eq hmax hself s env user
  have hfit : Fit cfg ok [e] := by
    refine ⟨⟨?_, ?_, ?_, ?_, by simpa using hmax⟩, fun _ => ⟨?_, ?_⟩⟩
    · simpa using hused
    · simp
    · simpa [hnum] using hself
    · exact ⟨_, mem_singleton_self _, hnum⟩
    · rw [protectedIn, countP_singleton, hprot, Bool.and_false]
      exact Nat.zero_le _
    · rw [forall_mem_singleton, hheard]
      decide
  rw [heq]
  have hstamp := Fit.update (s := ⟨[e], s.warm.map fun _ => .empty, false, false⟩) hfit
    (·.heardAt env.uptimeSec) env.uptimeSec (fun _ => ⟨rfl, rfl, rfl, .inr rfl⟩) hnow 0
  exact hstamp.applyUser env 0 user

theorem step_fit (hroom : 1 ≤ cfg.maxNodes) (hmax : ok → 2 ≤ cfg.maxNodes) (hself : cfg.self ≠ 0)
    (h : Fit cfg ok s.hot) (hok : ok → KeepsReserve cfg s ev) : Fit cfg ok (step cfg s ev).hot := by
  cases ev with
  | packet env p => exact h.onPacket env p hok
  | noteSigner env num => exact h.noteSigner env num
  | setFavorite num v => exact h.setBit hmax num .isFavorite v
  | setIgnored num v => exact h.setBit hmax num .isIgnored v
  | setKeyVerified num v => exact h.setBit hmax num .isKeyManuallyVerified v
  | toggleMuted num =>
    simp only [step, toggleMuted]
    split
    · exact h
    · exact h.update _ 0 (fun e => e.follows_writeBit (by decide) (by decide) _)
        (fun _ => by decide) _
  | setNextHop num hop =>
    simp only [step, setNextHop]
    split
    · exact h
    · exact h.update (fun e => { e with node := { e.node with nextHop := hop } }) 0
        (fun _ => ⟨rfl, rfl, rfl, .inl rfl⟩) (fun _ => by decide) _
  | commitPubkey env num key =>
    simp only [step, commitPubkey]
    split
    · exact h
    · exact h.commitAt env _ num key
  | commitAdminPubkey env num key =>
    simp only [step, commitAdminPubkey]
    split
    · exact h
    · cases hget : s.getOrCreate cfg env num with
      | none => exact h
      | some r => exact (h.fetch hget).commitAt env _ num key
  | addContact env num user v ig => exact h.addContact hmax env num user v ig hok
  | sort order =>
    simp only [step]
    split
    · next hp =>
      have hp := isPerm_iff.mp hp
      obtain ⟨e, he, hnum⟩ := h.table.self
      exact h.subperm hp.subperm ⟨e, hp.mem_iff.mpr he, hnum⟩
    · exact h
  | remove num => exact h.remove num
  | forget num =>
    simp only [step, forget]
    split <;> exact h.remove num
  | reset keep =>
    refine h.subperm filter_sublist.subperm ?_
    obtain ⟨e, he, hnum⟩ := h.table.self
    exact ⟨e, mem_filter.mpr ⟨he, by simp [h.table.used e he, hnum]⟩, hnum⟩
  | boot env user => exact boot_fit (by omega) hself s env user hok
  | restoreKey k =>
    simp only [step, warmPlace_hot]
    exact h
  | restoreRecord env num node =>
    simp only [step]
    split
    · exact h
    · next hnum =>
      rw [not_or] at hnum
      exact h.mtrecApply env fun hok' => hok hok' hnum.1 hnum.2

end Events

/-! ## Learning a peer -/

theorem countP_or_le {α : Type} (p q : α → Bool) (l : List α) :
    l.countP (fun a => p a || q a) ≤ l.countP p + l.countP q := by
  induction l with
  | nil => exact Nat.le_refl _
  | cons a rest ih =>
    simp only [countP_cons]
    cases p a <;> cases q a <;> simp <;> omega

/-- With the reserve, a full table has an entry that may give way. -/
theorem getOrCreate_isSome (hmax : 2 ≤ cfg.maxNodes) (h : Table cfg s.hot)
    (hr : Reserve cfg s.hot) {n : UInt32} (hn : n ≠ 0) : (s.getOrCreate cfg env n).isSome := by
  have hgot := getOrCreate_spec cfg env s n
  generalize s.getOrCreate cfg env n = r at hgot ⊢
  cases hgot with
  | zero h0 => exact absurd h0 hn
  | found | grown | evicted => rfl
  | full hnum hnew hfull hnone =>
    exfalso
    have hkept : ∀ e ∈ s.hot,
        (decide (e.node.num = cfg.self) || (e.used && e.node.isProtected)) = true := by
      intro e he
      by_contra hno
      simp only [Bool.or_eq_true, decide_eq_true_eq, not_or, h.used e he, Bool.true_and] at hno
      have hev : e.evictable cfg.self = true :=
        evictable_iff.mpr ⟨h.used e he, hno.1, by simpa using hno.2⟩
      exact hr.heard e he (oldestEvictable_none hnone he hev)
    have hself : s.hot.countP (fun e => decide (e.node.num = cfg.self)) ≤ 1 := by
      have hcount := nodup_iff_count_le_one.mp h.distinct cfg.self
      rw [count, countP_map] at hcount
      exact hcount
    have hall := countP_eq_length.mpr hkept
    have hor := countP_or_le (fun e : Entry => decide (e.node.num = cfg.self))
      (fun e => e.used && e.node.isProtected) s.hot
    have hcap := hr.cap
    unfold protectedIn at hcap
    omega

/-- No search evicts this node, a favourite or an ignored node. -/
theorem getOrCreate_spares (hget : s.getOrCreate cfg env num = some (i, t))
    (he : e ∈ s.hot) (hkeep : e.node.num = cfg.self ∨ e.node.isProtected = true) : e ∈ t.hot := by
  have hgot := getOrCreate_spec cfg env s num
  rw [hget] at hgot
  cases hgot with
  | found => exact he
  | grown => exact mem_append_left _ he
  | evicted _ victim hnum hnew hfull hold hi hev =>
    rw [put, warmAbsorb_hot]
    refine mem_set_of_ne he hi ?_ _
    rintro rfl
    obtain ⟨-, hself, hprot⟩ := evictable_iff.mp hev
    rcases hkeep with hk | hk
    · exact hself hk
    · rw [hprot] at hk
      cases hk

/-- From every boot, over every history of packets, operator actions, removals, resets,
further boots and restores: the table is in order and no search evicts what it must not,
and under the condition on restored records and on the clock every peer gets a record. -/
theorem table_can_learn (cfg : Config) (hmax : 3 ≤ cfg.maxNodes) (hself : cfg.self ≠ 0)
    (s₀ : State) (env₀ : Env) (user : User) (evs : List Event) :
    Table cfg (run (step cfg) s₀ (.boot env₀ user :: evs)).hot ∧
    (∀ env n i t, (run (step cfg) s₀ (.boot env₀ user :: evs)).getOrCreate cfg env n =
        some (i, t) →
      ∀ e ∈ (run (step cfg) s₀ (.boot env₀ user :: evs)).hot,
        e.node.num = cfg.self ∨ e.node.isProtected = true → e ∈ t.hot) ∧
    (Guarded (step cfg) (KeepsReserve cfg) s₀ (.boot env₀ user :: evs) → ∀ env n, n ≠ 0 →
      ((run (step cfg) s₀ (.boot env₀ user :: evs)).getOrCreate cfg env n).isSome) := by
  have hfit : ∀ done, done <+: evs →
      Fit cfg (Guarded (step cfg) (KeepsReserve cfg) s₀ (.boot env₀ user :: evs))
        (run (step cfg) s₀ (.boot env₀ user :: done)).hot := by
    intro done
    induction done using reverseRecOn with
    | nil =>
      exact fun _ => boot_fit (by omega) hself s₀ env₀ user fun hg => (guarded_cons.mp hg).1
    | append_singleton done ev ih =>
      intro hp
      rw [← cons_append, run_append]
      have hdone := ih ((prefix_append done [ev]).trans hp)
      refine step_fit (by omega) (fun _ => by omega) hself hdone fun hg => ?_
      exact hg _ ev (cons_prefix_cons.mpr ⟨rfl, hp⟩)
  have h := hfit evs prefix_rfl
  refine ⟨h.table, fun env n i t hget e he hkeep => getOrCreate_spares hget he hkeep, ?_⟩
  exact fun hg env n hn => getOrCreate_isSome (by omega) h.table (h.reserve hg) hn

/-- A stored record of a favourite. -/
def toyFavorite : NodeInfoLite := NodeInfoLite.zero.writeBit .isFavorite true

/-- With room for three, one of two peers gives way to a third. -/
theorem table_can_learn_third :
    ((run (step ⟨3, 1⟩) (toyStore 8) [.boot (toyEnv 0) (toyUser (toyKey 1)), toyHeard 1 2,
      toyHeard 2 3]).getOrCreate ⟨3, 1⟩ (toyEnv 3) 4).isSome := by
  refine (table_can_learn ⟨3, 1⟩ (by decide) (by decide) (toyStore 8) (toyEnv 0)
    (toyUser (toyKey 1)) [toyHeard 1 2, toyHeard 2 3]).2.2 ?_ (toyEnv 3) 4 (by decide)
  simp only [guarded_cons, guarded_nil, and_true]
  have clock : ∀ now : UInt32, now < 3 → (toyEnv now).uptimeSec ≠ 0xFFFFFFFF := by
    rintro now hlt (rfl : now = 0xFFFFFFFF)
    exact absurd hlt (by decide)
  exact ⟨clock 0 (by decide), clock 1 (by decide), clock 2 (by decide)⟩

/-- Two favourites are restored by an image with room for three, or two peers are heard in
the last second the clock counts: no further peer gets a record. -/
theorem table_stuck :
    (run (step ⟨3, 1⟩) (toyStore 8) [.boot (toyEnv 0) (toyUser (toyKey 1)),
      .restoreRecord (toyEnv 0) 2 toyFavorite, .restoreRecord (toyEnv 0) 3 toyFavorite]).getOrCreate
        ⟨3, 1⟩ (toyEnv 1) 4 = none ∧
    (run (step ⟨3, 1⟩) (toyStore 8) [.boot (toyEnv 0) (toyUser (toyKey 1)),
      toyHeard 0xFFFFFFFF 2, toyHeard 0xFFFFFFFF 3]).getOrCreate
        ⟨3, 1⟩ (toyEnv 0xFFFFFFFF) 4 = none := by
  decide +kernel

/-! ## The least recently heard -/

/-- `nodedb_sort_cmp`, which is negative when the first entry comes before the second. -/
def Entry.sortCmp (self : UInt32) (a b : Entry) : Int :=
  let af := a.node.isSet .isFavorite
  let bf := b.node.isSet .isFavorite
  let ab := decide (a.node.lastHeard > 0)
  let bb := decide (b.node.lastHeard > 0)
  if a.used ≠ b.used then if a.used then -1 else 1
  else if a.node.num = self then -1
  else if b.node.num = self then 1
  else if af ≠ bf then if af then -1 else 1
  else if ab ≠ bb then if ab then -1 else 1
  else if ab then
    if a.node.lastHeard ≠ b.node.lastHeard then
      if a.node.lastHeard > b.node.lastHeard then -1 else 1
    else 0
  else if a.lastHeardEpoch ≠ b.lastHeardEpoch then
    if a.lastHeardEpoch > b.lastHeardEpoch then -1 else 1
  else 0

theorem sortCmp_nonneg_iff {self : UInt32} {v e : Entry} (hv : v.evictable self = true)
    (he : e.evictable self = true) (hle : v.node.lastHeard ≤ e.node.lastHeard) :
    0 ≤ v.sortCmp self e ↔
      (e.node.lastHeard = 0 → v.lastHeardEpoch ≤ e.lastHeardEpoch) := by
  obtain ⟨hvu, hvn, hvp⟩ := evictable_iff.mp hv
  obtain ⟨heu, hen, hep⟩ := evictable_iff.mp he
  rw [NodeInfoLite.isProtected, Bool.or_eq_false_iff] at hvp hep
  simp only [Entry.sortCmp, hvu, heu, hvn, hen, hvp.1, hep.1, ne_eq, not_true, if_false,
    gt_iff_lt, UInt32.pos_iff_ne_zero]
  by_cases he0 : e.node.lastHeard = 0
  · have hv0 : v.node.lastHeard = 0 := UInt32.le_zero_iff.mp (he0 ▸ hle)
    by_cases heq : v.lastHeardEpoch = e.lastHeardEpoch
    · simp [hv0, he0, heq]
    · rcases UInt32.lt_or_lt_of_ne heq with hlt | hlt
      · simp [hv0, he0, heq, UInt32.not_lt.mpr (UInt32.le_of_lt hlt), UInt32.le_of_lt hlt]
      · simp [hv0, he0, heq, hlt, UInt32.not_le.mpr hlt]
  · by_cases hv0 : v.node.lastHeard = 0
    · simp [hv0, he0]
    · by_cases heq : v.node.lastHeard = e.node.lastHeard <;>
        simp [hv0, he0, heq, UInt32.not_lt.mpr hle]

/-- The candidates of a tier that have been restored at boot and not heard since, in the order of
the table. -/
def State.unheard (s : State) (self : UInt32) (t : Tier) : List Entry :=
  s.hot.filter fun e => e.evictable self && decide (e.tier = t) && decide (e.node.lastHeard = 0)

theorem mem_unheard {s : State} {self : UInt32} {t : Tier} {e : Entry} :
    e ∈ s.unheard self t ↔
      e ∈ s.hot ∧ e.evictable self = true ∧ e.tier = t ∧ e.node.lastHeard = 0 := by
  simp [State.unheard, and_assoc]

/-- The condition on a tier: the first of the candidates that were not heard since the boot has the
least durable epoch. -/
def State.OldestFirst (s : State) (self : UInt32) (t : Tier) : Prop :=
  ∀ f, (s.unheard self t).head? = some f → ∀ e ∈ s.unheard self t,
    f.lastHeardEpoch ≤ e.lastHeardEpoch

theorem head_unheard {s : State} {self : UInt32} {i : Nat} {v : Entry} (hat : s.hot[i]? = some v)
    (hev : v.evictable self = true) (hzero : v.node.lastHeard = 0)
    (hfirst : ∀ e ∈ s.hot.take i, e.evictable self = true → e.tier = v.tier →
      v.node.lastHeard < e.node.lastHeard) : (s.unheard self v.tier).head? = some v := by
  obtain ⟨hi, hget⟩ := List.getElem?_eq_some_iff.mp hat
  have hnone : (s.hot.take i).filter (fun e => e.evictable self &&
      decide (e.tier = v.tier) && decide (e.node.lastHeard = 0)) = [] := by
    refine List.filter_eq_nil_iff.mpr fun e he hp => ?_
    simp only [Bool.and_eq_true, decide_eq_true_eq] at hp
    exact UInt32.not_lt.mpr (hp.2 ▸ UInt32.zero_le) (hfirst e he hp.1.1 hp.1.2)
  rw [State.unheard, ← List.take_append_drop i s.hot, List.filter_append, hnone, List.nil_append,
    List.drop_eq_getElem_cons hi, hget, List.filter_cons_of_pos (by simp [hev, hzero])]
  rfl

/-- **The victim is the least recently heard of its tier** exactly where, among those restored at
boot and not heard since, the first in the table has the least epoch: they are told apart by their
position alone. -/
theorem evicts_least_recent {s t : State} {cfg : Config} {env : Env} {num n : UInt32} {i : Nat}
    {v : Entry} (hwf : s.WellFormed) (hget : s.getOrCreate cfg env num = some (i, t))
    (hv : s.entry n = some v) (hgone : t.entry n = none) :
    (∀ e ∈ s.hot, e.evictable cfg.self = true → e.tier = v.tier → 0 ≤ v.sortCmp cfg.self e) ↔
      s.OldestFirst cfg.self v.tier := by
  obtain ⟨-, -, f, -, -, hf⟩ := getOrCreate_fetched hwf hget
  cases hf with
  | held heq => exact absurd (heq ▸ hgone) (by simp [hv])
  | added hnew _ hentry =>
    have hn : n ≠ num := by
      rintro rfl
      exact absurd (hnew.symm.trans hv) nofun
    rw [hentry, if_neg hn, hv] at hgone
    cases hgone
  | replaced w hnew _ hold hw hwev _ hentry =>
    have hn : n ≠ num := by
      rintro rfl
      exact absurd (hnew.symm.trans hv) nofun
    obtain rfl : n = w.node.num := by
      by_contra hne
      rw [hentry, if_neg hn, if_neg hne, hv] at hgone
      cases hgone
    obtain rfl := Option.mem_unique hv hw
    obtain ⟨j, hj, hat⟩ := Option.bind_eq_some_iff.mp hold
    obtain ⟨v', hat', -, hleast, hfirst⟩ := oldestEvictable_some hj
    obtain rfl := Option.mem_unique hat hat'
    -- the victim is the first of the unheard, if there is one
    have hhead : ∀ e ∈ s.unheard cfg.self v.tier, (s.unheard cfg.self v.tier).head? = some v := by
      intro e he
      obtain ⟨hmem, hev, ht, hzero⟩ := mem_unheard.mp he
      exact head_unheard hat hwev (UInt32.le_zero_iff.mp (hzero ▸ hleast e hmem hev ht)) hfirst
    constructor
    · intro h f hf e he
      obtain ⟨hmem, hev, ht, hzero⟩ := mem_unheard.mp he
      obtain rfl := Option.mem_unique hf (hhead e he)
      exact (sortCmp_nonneg_iff hwev hev (hleast e hmem hev ht)).mp (h e hmem hev ht) hzero
    · intro h e hmem hev ht
      rw [sortCmp_nonneg_iff hwev hev (hleast e hmem hev ht)]
      intro hzero
      have he := mem_unheard.mpr ⟨hmem, hev, ht, hzero⟩
      exact h v (hhead e he) e he

/-- Two records restored at boot, the one heard later before the other: it gives way. -/
theorem newest_restored_evicted :
    let stored (heard : UInt32) : NodeInfoLite := { NodeInfoLite.zero with lastHeard := heard }
    let s := run (step ⟨3, 1⟩) (toyStore 8) [.boot (toyEnv 0) (toyUser (toyKey 1)),
      .restoreRecord (toyEnv 0) 2 (stored 200), .restoreRecord (toyEnv 0) 3 (stored 100)]
    let v : Entry := { Entry.fresh 2 with lastHeardEpoch := 200 }
    let e : Entry := { Entry.fresh 3 with lastHeardEpoch := 100 }
    s.entry 2 = some v ∧ s.entry 3 = some e ∧
      (s.getOrCreate ⟨3, 1⟩ (toyEnv 1) 4).map (·.2.entry 2) = some none ∧
      e.evictable 1 = true ∧ e.tier = v.tier ∧ v.sortCmp 1 e < 0 := by
  decide +kernel

theorem evicts_least_recent_heard :
    let s := run (step ⟨3, 1⟩) (toyStore 8) [.boot (toyEnv 0) (toyUser (toyKey 1)),
      toyHeard 1 2, toyHeard 2 3]
    ∃ v, s.entry 2 = some v ∧ (s.getOrCreate ⟨3, 1⟩ (toyEnv 3) 4).map (·.2.entry 2) = some none ∧
      ∀ e ∈ s.hot, e.evictable 1 = true → e.tier = v.tier → 0 ≤ v.sortCmp 1 e := by
  intro s
  have hget : (s.getOrCreate ⟨3, 1⟩ (toyEnv 3) 4).map (·.2.entry 2) = some none := by
    decide +kernel
  obtain ⟨⟨i, t⟩, hcreate, hgone⟩ := Option.map_eq_some_iff.mp hget
  have hheard : (s.entry 2).map (·.node.lastHeard) = some 1 := by decide +kernel
  obtain ⟨v, hv, -⟩ := Option.map_eq_some_iff.mp hheard
  refine ⟨v, hv, hget, (evicts_least_recent ⟨by decide +kernel, by decide +kernel,
    by decide +kernel, by decide +kernel⟩ hcreate hv hgone).mpr fun f hf => ?_⟩
  have hnone : ∀ t, s.unheard 1 t = [] := fun t => by cases t <;> decide +kernel
  rw [hnone] at hf
  cases hf

end Zephyrtastic.NodeDb
