import Zephyrtastic.NodeDb.Tiers

/-!
# The two tables by number

What a placement, a write and the search for a record do to the entry and to the
slot of every number. The operations of the store are followed through these and
not through positions.
-/

namespace Zephyrtastic.NodeDb

open Entry Keyed List State

variable {cfg : Config} {env : Env} {s : State}

/-- No two entries in use share a number, none has zero, no two slots share one, and the
ring has slots. -/
structure State.WellFormed (s : State) : Prop where
  hot : (keys Entry.key s.hot).Nodup
  nonzero : 0 ∉ keys Entry.key s.hot
  warm : (keys WarmKey.key s.warm).Nodup
  ring : s.warm ≠ []

/-- Placing a key of `num` takes the slot of `n`: the ring is full, and `n` is hot or
no slot is of a hot node. -/
structure State.Takes (s : State) (num n : UInt32) : Prop where
  new : s.slot num = none
  full : ∀ w ∈ s.warm, w.num ≠ 0
  hot : (s.entry n).isSome ∨ ∀ w ∈ s.warm, s.entry w.num = none

variable {t : State}

section Place
variable {k : WarmKey} {n : UInt32}

theorem slot_eq_none_iff (hn : n ≠ 0) : s.slot n = none ↔ n ∉ keys WarmKey.key s.warm := by
  rw [slot_eq hn, lookup_eq_none]

theorem entry_eq_none_iff : s.entry n = none ↔ n ∉ keys key s.hot := by
  rw [entry_eq, lookup_eq_none]

theorem entry_zero (hwf : s.WellFormed) : s.entry 0 = none := entry_eq_none_iff.mpr hwf.nonzero

theorem ne_zero_of_entry (hwf : s.WellFormed) {e : Entry} (h : s.entry n = some e) : n ≠ 0 := by
  rintro rfl
  rw [entry_zero hwf] at h
  cases h

theorem entry_eq_some (hwf : s.WellFormed) {e : Entry} :
    s.entry n = some e ↔ e ∈ s.hot ∧ e.key = some n := by
  rw [entry_eq, lookup_eq_some hwf.hot]

theorem slot_eq_some (hwf : s.WellFormed) (hn : n ≠ 0) {w : WarmKey} :
    s.slot n = some w ↔ w ∈ s.warm ∧ w.num = n := by
  rw [slot_eq hn, lookup_eq_some hwf.warm, WarmKey.key_eq_some]
  constructor
  · rintro ⟨hw, -, h⟩
    exact ⟨hw, h⟩
  · rintro ⟨hw, rfl⟩
    exact ⟨hw, hn, rfl⟩

theorem slot_congr (h : t.warm = s.warm) : t.slot n = s.slot n := by
  rw [slot, h, slot]

theorem entry_num {e : Entry} (h : s.entry n = some e) : e.used = true ∧ e.node.num = n := by
  have := find?_some h
  simpa using this

theorem SlotFor.fits {i : Nat} (h : SlotFor s k.num (some i)) (hk : k.num ≠ 0) :
    ∃ w, s.warm[i]? = some w ∧ Fits WarmKey.key s.warm w k := by
  have new (hnew : s.slot k.num = none) (w : WarmKey) : Fits WarmKey.key s.warm w k := by
    refine .inr fun m hm => ?_
    obtain ⟨-, rfl⟩ := WarmKey.key_eq_some.mp hm
    exact (slot_eq_none_iff hk).mp hnew
  cases h with
  | own _ w hi hw =>
    refine ⟨w, hi, .inl ?_⟩
    rw [WarmKey.key, WarmKey.key, hw]
  | free _ hnew hfree =>
    cases hfree with
    | empty _ w hi | hot _ w hi | cold _ w hi => exact ⟨w, hi, new hnew w⟩

theorem SlotFor.takes {i : Nat} (h : SlotFor s k.num (some i)) {w : WarmKey}
    (hi : s.warm[i]? = some w) (hw : w.num ≠ 0) (hne : w.num ≠ k.num) : s.Takes k.num w.num := by
  have same {v : WarmKey} (hv : s.warm[i]? = some v) : v = w := by
    rw [hi] at hv
    exact (Option.some.inj hv).symm
  cases h with
  | own _ v hv hnum => exact absurd (same hv ▸ hnum) hne
  | free _ hnew hfree =>
    cases hfree with
    | empty _ v hv hzero => exact absurd (same hv ▸ hzero) hw
    | hot _ v hv hhot hfull => exact ⟨hnew, hfull, .inl (same hv ▸ hhot)⟩
    | cold _ v hv hfull hcold => exact ⟨hnew, hfull, .inr fun u hu => by simpa using hcold u hu⟩

theorem warmPlace_eq (hwf : s.WellFormed) (hk : k.num ≠ 0) :
    ∃ i rec, SlotFor s k.num (some i) ∧
      s.warmPlace k = { s with warm := s.warm.set i k, reconcile := rec } := by
  have hspec := warmSlotFor_spec (s := s) k.num
  rw [warmPlace, if_neg hk]
  cases h : s.warmSlotFor k.num with
  | some i => exact ⟨i, _, h ▸ hspec, rfl⟩
  | none =>
    rw [h] at hspec
    cases hspec with
    | free _ _ hfree =>
      cases hfree with
      | noRing hring => exact absurd hring hwf.ring

@[simp] theorem warmPlace_hot : (s.warmPlace k).hot = s.hot := by
  unfold warmPlace
  split
  · rfl
  · split <;> rfl

@[simp] theorem warmPlace_entry : (s.warmPlace k).entry n = s.entry n := by
  rw [entry, warmPlace_hot]
  rfl

theorem State.WellFormed.place (hwf : s.WellFormed) : (s.warmPlace k).WellFormed := by
  by_cases hk : k.num = 0
  · rw [warmPlace, if_pos hk]
    exact hwf
  obtain ⟨i, rec, hslot, heq⟩ := warmPlace_eq hwf hk
  obtain ⟨w, hi, hfits⟩ := hslot.fits hk
  rw [heq]
  exact ⟨hwf.hot, hwf.nonzero, nodup_set hwf.warm hi hfits, by simpa using hwf.ring⟩

theorem warmPlace_slot_self (hwf : s.WellFormed) (hk : k.num ≠ 0) :
    (s.warmPlace k).slot k.num = some k := by
  obtain ⟨i, rec, hslot, heq⟩ := warmPlace_eq hwf hk
  obtain ⟨w, hi, hfits⟩ := hslot.fits hk
  rw [slot_eq hk, heq, lookup_set hwf.warm hi hfits, if_pos (WarmKey.key_eq_some.mpr ⟨hk, rfl⟩)]

theorem warmPlace_slot_ne (hwf : s.WellFormed) (hk : k.num ≠ 0) (hn : n ≠ 0) (hne : n ≠ k.num) :
    (s.warmPlace k).slot n = s.slot n ∨ (s.warmPlace k).slot n = none ∧ s.Takes k.num n := by
  obtain ⟨i, rec, hslot, heq⟩ := warmPlace_eq hwf hk
  obtain ⟨w, hi, hfits⟩ := hslot.fits hk
  rw [slot_eq hn, slot_eq hn, heq, lookup_set hwf.warm hi hfits,
    if_neg fun e => hne (WarmKey.key_eq_some.mp e).2.symm]
  split
  · next h =>
    obtain ⟨hw, rfl⟩ := WarmKey.key_eq_some.mp h
    exact .inr ⟨rfl, hslot.takes hi hw hne⟩
  · exact .inl rfl

theorem warmPlace_warm_congr (hwarm : t.warm = s.warm)
    (hhot : ∀ n, (t.entry n).isSome = (s.entry n).isSome) :
    (t.warmPlace k).warm = (s.warmPlace k).warm := by
  have hslot : t.warmSlotFor k.num = s.warmSlotFor k.num := by
    simp only [warmSlotFor, warmFind, findEntry_isSome, hhot, hwarm]
  unfold warmPlace
  rw [hslot]
  split
  · exact hwarm
  · split
    · exact hwarm
    · simp only [hwarm]

end Place

/-- An entry is written in place. -/
def State.put (s : State) (i : Nat) (e : Entry) : State := { s with hot := s.hot.set i e }

section Put
variable {i : Nat} {e e' : Entry} {num n : UInt32}

theorem State.WellFormed.put (hwf : s.WellFormed) (hi : s.hot[i]? = some e)
    (hkey : e'.key = e.key) : (s.put i e').WellFormed := by
  refine ⟨nodup_set hwf.hot hi (.inl hkey), fun hzero => ?_, hwf.warm, hwf.ring⟩
  rcases mem_keys_set hzero with h | h
  · exact hwf.nonzero (mem_keys.mpr ⟨e, mem_of_getElem? hi, hkey ▸ h⟩)
  · exact hwf.nonzero h

theorem put_entry (hwf : s.WellFormed) (hi : s.hot[i]? = some e) (hk : e.key = some num)
    (hkey : e'.key = e.key) : (s.put i e').entry n = if n = num then some e' else s.entry n := by
  rw [entry_eq, entry_eq, put, lookup_set hwf.hot hi (.inl hkey), hkey, hk]
  simp only [Option.some.injEq, eq_comm (a := num)]
  split <;> rfl

theorem put_get (hi : s.hot[i]? = some e) : (s.put i e').hot[i]? = some e' := by
  obtain ⟨hlt, -⟩ := List.getElem?_eq_some_iff.mp hi
  exact getElem?_set_self hlt

end Put

/-! ## A record for a node -/

variable (cfg env s) in
/-- What `get_or_create_entry_locked` can do. -/
inductive Got (num : UInt32) : Option (Nat × State) → Prop where
  | zero (h : num = 0) : Got num none
  | full (hnum : num ≠ 0) (hnew : s.entry num = none) (hfull : cfg.maxNodes ≤ s.hot.length)
      (hnone : s.oldestEvictable cfg = none) : Got num none
  | found (i : Nat) (e : Entry) (hnum : num ≠ 0) (hi : s.hot[i]? = some e)
      (hkey : e.key = some num) : Got num (some (i, s))
  | grown (hnum : num ≠ 0) (hnew : s.entry num = none) (hroom : s.hot.length < cfg.maxNodes) :
      Got num (some (s.hot.length, { s with hot := s.hot ++ [s.readmission num] }))
  | evicted (i : Nat) (e : Entry) (hnum : num ≠ 0) (hnew : s.entry num = none)
      (hfull : cfg.maxNodes ≤ s.hot.length) (hold : s.oldestEvictable cfg = some i)
      (hi : s.hot[i]? = some e) (hev : e.evictable cfg.self = true) : Got num
        (some (i, (s.warmAbsorb cfg env e).put i ((s.warmAbsorb cfg env e).readmission num)))

theorem getOrCreate_spec (cfg : Config) (env : Env) (s : State) (num : UInt32) :
    Got cfg env s num (s.getOrCreate cfg env num) := by
  unfold getOrCreate
  split
  · next h => exact .zero h
  next hnum =>
  cases hfind : s.findEntry num with
  | some i =>
    rw [findEntry_eq] at hfind
    obtain ⟨e, hi, hkey⟩ := get_of_position hfind
    exact .found i e hnum hi hkey
  | none =>
    rw [findEntry_eq, position_eq_none] at hfind
    have hnew : s.entry num = none := entry_eq_none_iff.mpr hfind
    dsimp only
    split
    · next hroom => exact .grown hnum hnew hroom
    next hroom =>
    have hfull : cfg.maxNodes ≤ s.hot.length := Nat.le_of_not_lt hroom
    cases hold : s.oldestEvictable cfg with
    | none => exact .full hnum hnew hfull hold
    | some i =>
      obtain ⟨e, hi, hev, -⟩ := oldestEvictable_some hold
      dsimp only
      rw [hi]
      exact .evicted i e hnum hnew hfull hold hi hev

section Absorb
variable {e : Entry} {n : UInt32}

theorem Entry.evictable_iff {self : UInt32} : e.evictable self = true ↔
    e.used = true ∧ e.node.num ≠ self ∧ e.node.isProtected = false := by
  simp [evictable, and_assoc]

theorem warmAbsorb_cases (cfg : Config) (env : Env) (s : State) (e : Entry) :
    s.warmAbsorb cfg env e = s ∨
      ∃ k w, e.node.fullKey = some k ∧ e.node.num ≠ 0 ∧ w.num = e.node.num ∧ w.pub = k ∧
        w.knownSigner = e.node.isSet .hasXeddsaSigned ∧
        s.warmAbsorb cfg env e = { s.warmPlace w with keySave := true } := by
  unfold warmAbsorb
  split
  · exact .inl rfl
  next h =>
  simp only [Bool.or_eq_true, not_or, decide_eq_true_eq] at h
  cases hk : e.node.fullKey with
  | none => exact .inl rfl
  | some k => exact .inr ⟨k, _, rfl, h.1.2, rfl, rfl, rfl, rfl⟩

@[simp] theorem warmAbsorb_hot : (s.warmAbsorb cfg env e).hot = s.hot := by
  rcases warmAbsorb_cases cfg env s e with h | ⟨k, w, -, -, -, -, -, h⟩
  · rw [h]
  · rw [h]
    exact warmPlace_hot

@[simp] theorem warmAbsorb_entry : (s.warmAbsorb cfg env e).entry n = s.entry n := by
  rw [entry, warmAbsorb_hot]
  rfl

theorem State.WellFormed.absorb (hwf : s.WellFormed) : (s.warmAbsorb cfg env e).WellFormed := by
  rcases warmAbsorb_cases cfg env s e with h | ⟨k, w, -, -, -, -, -, h⟩
  · rwa [h]
  · have := hwf.place (k := w)
    rw [h]
    exact ⟨this.hot, this.nonzero, this.warm, this.ring⟩

theorem warmAbsorb_slot_self (env : Env) (hwf : s.WellFormed) (hev : e.evictable cfg.self = true)
    (hnum : e.node.num ≠ 0) {k : Key} (hk : e.node.fullKey = some k) :
    ∃ w, (s.warmAbsorb cfg env e).slot e.node.num = some w ∧ w.pub = k ∧
      w.knownSigner = e.node.isSet .hasXeddsaSigned := by
  obtain ⟨hused, hself, -⟩ := evictable_iff.mp hev
  let w : WarmKey := ⟨e.node.num, e.lastSeen env, e.node.role, e.node.isSet .hasXeddsaSigned, k⟩
  have heq : s.warmAbsorb cfg env e = { s.warmPlace w with keySave := true } := by
    rw [warmAbsorb, if_neg (by simp [hused, hnum, hself]), hk]
  refine ⟨w, ?_, rfl, rfl⟩
  rw [heq]
  exact warmPlace_slot_self (k := w) hwf hnum

theorem warmAbsorb_slot_keyless (hk : e.node.fullKey = none) :
    (s.warmAbsorb cfg env e).slot n = s.slot n := by
  rcases warmAbsorb_cases cfg env s e with h | ⟨k, w, hfull, -⟩
  · rw [h]
  · rw [hk] at hfull
    cases hfull

theorem warmAbsorb_slot_ne (cfg : Config) (env : Env) (hwf : s.WellFormed) (hn : n ≠ 0)
    (hne : n ≠ e.node.num) :
    (s.warmAbsorb cfg env e).slot n = s.slot n ∨
      (s.warmAbsorb cfg env e).slot n = none ∧ s.Takes e.node.num n := by
  rcases warmAbsorb_cases cfg env s e with h | ⟨k, w, -, hnum, hw, -, -, h⟩
  · exact .inl (by rw [h])
  · rw [h, ← hw]
    exact warmPlace_slot_ne hwf (hw ▸ hnum) hn (hw ▸ hne)

end Absorb

/-! ## A record by number -/

section Readmit
variable {n : UInt32}

@[simp] theorem readmission_num : (s.readmission n).node.num = n := by
  unfold readmission
  split
  · rfl
  · split <;> rfl

@[simp] theorem readmission_key : (s.readmission n).key = some n := by
  rw [key_eq_some]
  refine ⟨?_, readmission_num⟩
  unfold readmission
  split <;> rfl

/-- A record that is made anew holds no key, whatever the ring holds. -/
@[simp] theorem readmission_fullKey : (s.readmission n).node.fullKey = none := by
  unfold readmission
  split
  · rfl
  · split <;> rfl

theorem readmission_signed :
    (s.readmission n).node.isSet .hasXeddsaSigned = (s.slot n).any (·.knownSigner) := by
  unfold readmission
  cases s.slot n with
  | none => exact isSet_of_bitfield_zero rfl _
  | some w =>
    dsimp only [Option.any_some]
    split
    · next h => simp [h]
    · next h =>
      rw [Bool.eq_false_iff.mpr h]
      exact isSet_of_bitfield_zero rfl _

theorem readmission_isSet {b : NodeBit} (hb : b ≠ .hasXeddsaSigned) :
    (s.readmission n).node.isSet b = false := by
  unfold readmission
  split
  · exact isSet_of_bitfield_zero rfl b
  split
  · rw [isSet_writeBit, if_neg hb]
    exact isSet_of_bitfield_zero rfl b
  · exact isSet_of_bitfield_zero rfl b

end Readmit

/-- The entry that gives way when the table is full. -/
def State.victim (cfg : Config) (s : State) : Option Entry :=
  (s.oldestEvictable cfg).bind fun i => s.hot[i]?

/-- How the record of a number came to stand at a position. -/
inductive Fetched (cfg : Config) (env : Env) (s : State) (num : UInt32) (t : State) (e : Entry) :
    Prop where
  | held (ht : t = s) (he : s.entry num = some e)
  | added (hnew : s.entry num = none) (he : e = t.readmission num)
      (hentry : ∀ n, t.entry n = if n = num then some e else s.entry n)
      (hwarm : t.warm = s.warm)
  | replaced (victim : Entry) (hnew : s.entry num = none)
      (hfull : cfg.maxNodes ≤ s.hot.length) (hold : s.victim cfg = some victim)
      (hv : s.entry victim.node.num = some victim) (hev : victim.evictable cfg.self = true)
      (he : e = t.readmission num)
      (hentry : ∀ n, t.entry n =
        if n = num then some e else if n = victim.node.num then none else s.entry n)
      (hwarm : t.warm = (s.warmAbsorb cfg env victim).warm)

theorem getOrCreate_fetched (hwf : s.WellFormed) {num : UInt32} {i : Nat}
    (h : s.getOrCreate cfg env num = some (i, t)) :
    num ≠ 0 ∧ t.WellFormed ∧
      ∃ e, t.hot[i]? = some e ∧ e.key = some num ∧ Fetched cfg env s num t e := by
  have hgot := getOrCreate_spec cfg env s num
  rw [h] at hgot
  cases hgot with
  | found _ e hnum hi hkey =>
    exact ⟨hnum, hwf, e, hi, hkey,
      .held rfl ((entry_eq_some hwf).mpr ⟨mem_of_getElem? hi, hkey⟩)⟩
  | grown hnum hnew hroom =>
    have hfree : ∀ m, (s.readmission num).key = some m → m ∉ keys key s.hot := by
      intro m hm
      obtain rfl : num = m := by simpa using hm
      exact entry_eq_none_iff.mp hnew
    have hzero : 0 ∉ keys key (s.hot ++ [s.readmission num]) := by
      simp only [Keyed.mem_keys, mem_append, mem_singleton, not_exists, not_and]
      rintro e (he | rfl) hk
      · exact hwf.nonzero (mem_keys.mpr ⟨e, he, hk⟩)
      · exact hnum (by simpa using hk)
    refine ⟨hnum, ⟨nodup_append_one hwf.hot hfree, hzero, hwf.warm, hwf.ring⟩, s.readmission num,
      by simp, readmission_key, .added hnew rfl (fun n => ?_) rfl⟩
    rw [entry_eq, entry_eq, lookup_append_one hfree]
    simp [eq_comm]
  | evicted _ e hnum hnew hfull hold hi hev =>
    have habs : (s.warmAbsorb cfg env e).WellFormed := hwf.absorb
    have hi' : (s.warmAbsorb cfg env e).hot[i]? = some e := by rwa [warmAbsorb_hot]
    have hkey : e.key = some e.node.num :=
      key_eq_some.mpr ⟨(evictable_iff.mp hev).1, rfl⟩
    have hfits : Fits key (s.warmAbsorb cfg env e).hot e
        ((s.warmAbsorb cfg env e).readmission num) := by
      refine .inr fun m hm => ?_
      obtain rfl : num = m := by simpa using hm
      rw [warmAbsorb_hot]
      exact entry_eq_none_iff.mp hnew
    have hzero : 0 ∉ keys key (((s.warmAbsorb cfg env e).put i
        ((s.warmAbsorb cfg env e).readmission num)).hot) := by
      intro h
      rcases mem_keys_set h with hk | hk
      · exact hnum (by simpa using hk)
      · exact habs.nonzero hk
    refine ⟨hnum, ⟨nodup_set habs.hot hi' hfits, hzero, habs.warm, habs.ring⟩,
      (s.warmAbsorb cfg env e).readmission num, put_get hi', readmission_key,
      .replaced e hnew hfull (by rw [victim, hold]; exact hi)
        ((entry_eq_some hwf).mpr ⟨mem_of_getElem? hi, hkey⟩) hev rfl
        (fun n => ?_) rfl⟩
    rw [entry_eq, put, lookup_set habs.hot hi' hfits, readmission_key, hkey, ← entry_eq,
      warmAbsorb_entry]
    simp only [Option.some.injEq, eq_comm]

theorem Fetched.entry_self {num : UInt32} {u : State} {e : Entry}
    (h : Fetched cfg env s num u e) :
    u.entry num = some e := by
  cases h with
  | held ht he => rw [ht, he]
  | added hnew he hentry | replaced victim hnew hfull hold hv hev he hentry =>
    rw [hentry, if_pos rfl]

/-! ## The key of a number -/

section Pubkey
variable {n : UInt32}

theorem copyPubkey_pinned {e : Entry} {k : Key} (he : s.entry n = some e)
    (hk : e.node.fullKey = some k) : s.copyPubkey n = some k := by
  simp [copyPubkey, he, hk]

theorem copyPubkey_unpinned (h : (s.entry n).bind (fun e => e.node.fullKey) = none) :
    s.copyPubkey n = (s.slot n).map (·.pub) := by
  simp [copyPubkey, h]

variable
  (he : (t.entry n).bind (fun e => e.node.fullKey) = (s.entry n).bind fun e => e.node.fullKey)
include he

theorem copyPubkey_congr (hs : t.slot n = s.slot n) : t.copyPubkey n = s.copyPubkey n := by
  rw [copyPubkey, copyPubkey, he, hs]

theorem copyPubkey_of_slot (hs : t.slot n = s.slot n ∨ t.slot n = none) :
    t.copyPubkey n = s.copyPubkey n ∨ t.copyPubkey n = none := by
  rcases hs with hs | hs
  · exact .inl (copyPubkey_congr he hs)
  rw [copyPubkey, copyPubkey, he, hs]
  cases (s.entry n).bind fun e => e.node.fullKey with
  | some k => exact .inl rfl
  | none => exact .inr rfl

end Pubkey

end Zephyrtastic.NodeDb
