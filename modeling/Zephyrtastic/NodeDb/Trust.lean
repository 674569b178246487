import Zephyrtastic.NodeDb.Pinning

/-!
# What the flags of trust say about the key

A record may say that its key was verified by hand, and that its node has signed.
Both are about the key that was stored at that moment.
-/

namespace Zephyrtastic.NodeDb

open Option Run

variable {cfg : Config} {env : Env} {s u t : State} {n : UInt32} {ev : Event}

section
variable (cfg : Config)

/-- Beside the store: the key a node had when its manual verification was last set, and
the keys under which signatures of a node were verified. -/
structure Trust where
  vouched : UInt32 → Option Key
  signed : List (UInt32 × Key)

/-- The event sets the manual verification of its node. -/
def Event.vouches (s : State) : Event → Bool
  | .setKeyVerified num v => v && (s.entry num).isSome
  | .addContact env num user verified shouldIgnore => verified && !shouldIgnore &&
      (s.addContact cfg env num user verified shouldIgnore).isOk
  | _ => false

/-- The key under which an event says a signature was verified. -/
def Event.signs (s : State) : Event → Option (UInt32 × Key)
  | .noteSigner _ num =>
    if num = 0 ∨ num = cfg.self then none else (s.copyPubkey num).map (num, ·)
  | _ => none

/-- The store and what is known about it, after an event. -/
def trustStep (x : State × Trust) (ev : Event) : State × Trust :=
  let t := step cfg x.1 ev
  (t, { vouched := fun n =>
          if ev.vouches cfg x.1 ∧ n = ev.about then t.copyPubkey n else x.2.vouched n
        signed := (ev.signs cfg x.1).toList ++ x.2.signed })

/-- The flags of every node are about the key that is stored for it now. -/
structure Sound (s : State) (g : Trust) : Prop where
  verified : ∀ n e k, s.entry n = some e → e.verified = true → s.copyPubkey n = some k →
    g.vouched n = some k
  signer : ∀ n k, n ≠ 0 → s.isXeddsaSigner n = true → s.copyPubkey n = some k → (n, k) ∈ g.signed

/-- A key is written into a record with a flag only if the flag is about that key, or is
set by the same event. -/
def KeepsTrust (x : State × Trust) (ev : Event) : Prop :=
  ∀ e k, x.1.written cfg ev = some (e, k) →
    (e.verified = true → ev.vouches cfg x.1 = false → x.2.vouched ev.about = some k) ∧
      (e.signed = true → (ev.about, k) ∈ x.2.signed)

/-! ## One node -/

/-- What carries the law for one node: the flag of the ring is about the ring's key, and
the ring's key is the record's. -/
structure TrustedAt (cfg : Config) (s : State) (g : Trust) (n : UInt32) : Prop where
  verified : ∀ e k, s.entry n = some e → e.verified = true → s.copyPubkey n = some k →
    g.vouched n = some k
  signer : ∀ e k, s.entry n = some e → e.signed = true → s.copyPubkey n = some k →
    (n, k) ∈ g.signed
  ring : ∀ w, s.slot n = some w → w.knownSigner = true → (n, w.pub) ∈ g.signed
  agree : n ≠ cfg.self → ∀ e k w, s.entry n = some e → e.node.fullKey = some k →
    s.slot n = some w → w.pub = k

def Trusted (s : State) (g : Trust) : Prop := ∀ n ≠ 0, TrustedAt cfg s g n

end

section Node
variable {g g' : Trust}

theorem Trusted.sound (hwf : s.WellFormed) (h : Trusted cfg s g) : Sound s g := by
  constructor
  · exact fun n e k he => (h n (ne_zero_of_entry hwf he)).verified e k he
  · intro n k hn hsigner hk
    unfold State.isXeddsaSigner at hsigner
    cases he : s.entry n with
    | some e =>
      rw [he] at hsigner
      exact (h n hn).signer e k he hsigner hk
    | none =>
      rw [he] at hsigner
      rw [copyPubkey_unpinned (by rw [he]; rfl), map_eq_some_iff] at hk
      obtain ⟨w, hw, rfl⟩ := hk
      rw [hw] at hsigner
      exact (h n hn).ring w hw hsigner

theorem TrustedAt.carry (h : TrustedAt cfg s g n) (hentry : t.entry n = s.entry n)
    (hslot : t.slot n = s.slot n ∨ t.slot n = none)
    (hvouched : g'.vouched n = g.vouched n ∨ g'.vouched n = t.copyPubkey n)
    (hsigned : ∀ p ∈ g.signed, p ∈ g'.signed) : TrustedAt cfg t g' n := by
  have hkey (k : Key) (hk : t.copyPubkey n = some k) : s.copyPubkey n = some k := by
    rcases copyPubkey_of_slot (by rw [hentry]) hslot with h | h
    · rwa [← h]
    · rw [h] at hk
      cases hk
  have held (w : WarmKey) (hw : t.slot n = some w) : s.slot n = some w := by
    rcases hslot with h | h
    · rwa [← h]
    · rw [h] at hw
      cases hw
  constructor
  · intro e k he hv hk
    rcases hvouched with h' | h'
    · rw [h']
      exact h.verified e k (hentry ▸ he) hv (hkey k hk)
    · rw [h', hk]
  · exact fun e k he hs hk => hsigned _ (h.signer e k (hentry ▸ he) hs (hkey k hk))
  · exact fun w hw hs => hsigned _ (h.ring w (held w hw) hs)
  · exact fun hself e k w he hk hw => h.agree hself e k w (hentry ▸ he) hk (held w hw)

theorem TrustedAt.copyPubkey_of_slot (h : TrustedAt cfg s g n) (hself : n ≠ cfg.self) {e : Entry}
    {w : WarmKey} (he : s.entry n = some e) (hw : s.slot n = some w) :
    s.copyPubkey n = some w.pub := by
  cases hfull : e.node.fullKey with
  | some k => rw [copyPubkey_pinned he hfull, h.agree hself e k w he hfull hw]
  | none =>
    rw [copyPubkey_unpinned (by rw [he]; exact hfull), hw]
    rfl

theorem trustedAt_of_none (he : s.entry n = none)
    (hring : ∀ w, s.slot n = some w → w.knownSigner = true → (n, w.pub) ∈ g.signed) :
    TrustedAt cfg s g n := by
  have absent {e : Entry} (h : s.entry n = some e) : False := by
    rw [he] at h
    cases h
  exact ⟨fun _ _ h => (absent h).elim, fun _ _ h => (absent h).elim, hring,
    fun _ _ _ _ h => (absent h).elim⟩

theorem trustedAt_of_some {e : Entry} (he : s.entry n = some e)
    (hverified : ∀ k, e.verified = true → s.copyPubkey n = some k → g.vouched n = some k)
    (hsigner : ∀ k, e.signed = true → s.copyPubkey n = some k → (n, k) ∈ g.signed)
    (hring : ∀ w, s.slot n = some w → w.knownSigner = true → (n, w.pub) ∈ g.signed)
    (hagree : n ≠ cfg.self → ∀ k w, e.node.fullKey = some k → s.slot n = some w → w.pub = k) :
    TrustedAt cfg s g n := by
  have hsame {a : Entry} (ha : s.entry n = some a) : e = a := mem_unique he ha
  exact ⟨fun _ k ha => hsame ha ▸ hverified k, fun _ k ha => hsame ha ▸ hsigner k, hring,
    fun hself _ k w ha => hsame ha ▸ hagree hself k w⟩

theorem trustedAt_of_readmission (he : s.entry n = some (s.readmission n))
    (hring : ∀ w, s.slot n = some w → w.knownSigner = true → (n, w.pub) ∈ g.signed) :
    TrustedAt cfg s g n := by
  apply trustedAt_of_some he
  · intro k hv
    rw [Entry.verified, readmission_isSet (by decide)] at hv
    cases hv
  · intro k hs hk
    rw [Entry.signed, readmission_signed] at hs
    rw [copyPubkey_unpinned (by rw [he]; exact readmission_fullKey), map_eq_some_iff] at hk
    obtain ⟨w, hw, rfl⟩ := hk
    rw [hw] at hs
    exact hring w hw hs
  · exact hring
  · intro _ k w hk
    rw [readmission_fullKey] at hk
    cases hk

end Node

/-! ## The search -/

variable {num : UInt32}

theorem Fetched.trusted {g : Trust} {e : Entry} (hwf : s.WellFormed)
    (h : Fetched cfg env s num u e) (htrust : Trusted cfg s g) : Trusted cfg u g := by
  intro n hn
  have hs := htrust n hn
  have hself := h.entry_self
  cases h with
  | held ht => exact ht ▸ hs
  | added hnew he hentry hwarm =>
    have hslot : u.slot n = s.slot n := slot_congr hwarm
    by_cases hnum : n = num
    · subst hnum
      exact trustedAt_of_readmission (he ▸ hself) fun w hw => hs.ring w (hslot ▸ hw)
    · exact hs.carry (by rw [hentry, if_neg hnum]) (.inl hslot) (.inl rfl) fun _ h => h
  | replaced victim hnew hfull hold hv hev he hentry hwarm =>
    -- the ring keeps its word: the victim's flag goes with the victim's key
    have hring (w : WarmKey) (hw : u.slot n = some w) (hk : w.knownSigner = true) :
        (n, w.pub) ∈ g.signed := by
      rw [slot_congr hwarm] at hw
      by_cases hvn : n = victim.node.num
      · subst hvn
        cases hkey : victim.node.fullKey with
        | none =>
          rw [warmAbsorb_slot_keyless hkey] at hw
          exact hs.ring w hw hk
        | some k =>
          obtain ⟨w', hw', hpub, hsig⟩ := warmAbsorb_slot_self env hwf hev hn hkey
          obtain rfl : w = w' := mem_unique hw hw'
          rw [hpub]
          exact hs.signer victim k hv (hsig.symm.trans hk) (copyPubkey_pinned hv hkey)
      · rcases warmAbsorb_slot_ne cfg env hwf hn hvn with h | ⟨h, -⟩
        · exact hs.ring w (h ▸ hw) hk
        · rw [h] at hw
          cases hw
    by_cases hnum : n = num
    · subst hnum
      exact trustedAt_of_readmission (he ▸ hself) hring
    by_cases hvn : n = victim.node.num
    · exact trustedAt_of_none (by rw [hentry, if_neg hnum, if_pos hvn]) hring
    · refine hs.carry (by rw [hentry, if_neg hnum, if_neg hvn]) ?_ (.inl rfl) fun _ h => h
      rw [slot_congr hwarm]
      exact (warmAbsorb_slot_ne cfg env hwf hn hvn).imp_right And.left

/-! ## The rest of an event -/

section Rest
variable {g : Trust} {i : Nat} {e e' : Entry} {ring : List WarmKey}

theorem trustStep_signed (cfg : Config) (ev : Event) (x : State × Trust) (p : UInt32 × Key)
    (h : p ∈ x.2.signed) : p ∈ (trustStep cfg x ev).2.signed := List.mem_append_right _ h

theorem trustStep_vouched (x : State × Trust) (h : ev.vouches cfg x.1 = false ∨ n ≠ ev.about) :
    (trustStep cfg x ev).2.vouched n = x.2.vouched n := by
  refine if_neg ?_
  rintro ⟨hv, hn⟩
  rcases h with h | h
  · rw [hv] at h
    cases h
  · exact h hn

theorem trustStep_vouched_or (cfg : Config) (ev : Event) (n : UInt32) (s : State) (g : Trust) :
    (trustStep cfg (s, g) ev).2.vouched n = g.vouched n ∨
      (trustStep cfg (s, g) ev).2.vouched n = (step cfg s ev).copyPubkey n :=
  (ite_eq_or_eq _ _ _).symm

theorem trustStep_vouched_self (x : State × Trust) (h : ev.vouches cfg x.1 = true) :
    (trustStep cfg x ev).2.vouched ev.about = (step cfg x.1 ev).copyPubkey ev.about :=
  if_pos ⟨h, rfl⟩

theorem mem_signed {k : Key} (hev : ev = .noteSigner env num) (hn : num ≠ 0)
    (hself : num ≠ cfg.self) (hk : s.copyPubkey num = some k) :
    (num, k) ∈ (trustStep cfg (s, g) ev).2.signed := by
  refine List.mem_append_left _ (mem_toList.mpr ?_)
  subst hev
  exact (if_neg (not_or.mpr ⟨hn, hself⟩)).trans (by rw [hk]; rfl)

/-- A contact that is turned down leaves everything as it was. -/
def Event.turnedDown (cfg : Config) (s : State) : Event → Bool
  | .addContact env num user verified shouldIgnore =>
    !(s.addContact cfg env num user verified shouldIgnore).isOk
  | _ => false

theorem step_turnedDown (h : ev.turnedDown cfg s = true) : step cfg s ev = s := by
  cases ev with
  | addContact env num user v ig =>
    simp only [Event.turnedDown, Bool.not_eq_true'] at h
    simp only [step]
    cases hc : s.addContact cfg env num user v ig with
    | error => rfl
    | ok => rw [hc] at h; cases h
  | _ => cases h

theorem verified_before (hdown : ev.turnedDown cfg s = false)
    (hu : u.entry ev.about = some e) (hmakes : ev.makes cfg = some (env, ev.about) ∨ u = s)
    (hverified : e'.verified = ev.verifies e.verified) (hv : e'.verified = true)
    (hvouch : ev.vouches cfg s = false) : e.verified = true := by
  rw [hverified] at hv
  cases ev with
  | setKeyVerified num v =>
    obtain rfl : u = s := hmakes.resolve_left fun h => by cases h
    have hsome : u.entry num = some e := hu
    have hv' : v = true := hv
    simp [Event.vouches, hv', hsome] at hvouch
  | addContact env' num user v ig =>
    simp only [Event.turnedDown, Bool.not_eq_false'] at hdown
    simp only [Event.vouches, hdown, Bool.and_true] at hvouch
    simpa only [Event.verifies, hvouch, Bool.or_false] using hv
  | _ => exact hv

theorem trustedAt_marked (hwf : s.WellFormed) (hev : ev = .noteSigner env num)
    (hnum : num ≠ 0) (hself : num ≠ cfg.self) (hnone : s.getOrCreate cfg env num = none) :
    TrustedAt cfg (s.warmSetKnownSigner num true) (trustStep cfg (s, g) ev).2 num := by
  have habsent : s.entry num = none := by
    have hgot := getOrCreate_spec cfg env s num
    rw [hnone] at hgot
    cases hgot with
    | zero h => exact absurd h hnum
    | full _ hnew => exact hnew
  refine trustedAt_of_none (by rw [warmSetKnownSigner_entry, habsent]) fun w hw _ => ?_
  rw [warmSetKnownSigner_slot hwf hnum hnum, if_pos rfl, map_eq_some_iff] at hw
  obtain ⟨w₀, hw₀, rfl⟩ := hw
  apply mem_signed hev hnum hself
  rw [copyPubkey_unpinned (by rw [habsent]; rfl), hw₀]
  rfl

section
variable (hover : Over u i ev.about t e' ring)
  (hverified : e'.verified = true → ev.vouches cfg s = false → e.verified = true)
include hover hverified

theorem Over.trustedAt_same (hn : ev.about ≠ 0) (ht : step cfg s ev = t)
    (hu : u.entry ev.about = some e) (htrust : Trusted cfg u g) (hsigned : e'.signed = e.signed)
    (hkey : e'.node.fullKey = e.node.fullKey ∨ e'.node.fullKey = none ∧ ev.about ≠ cfg.self)
    (hring : ring = u.warm) :
    TrustedAt cfg t (trustStep cfg (s, g) ev).2 ev.about := by
  have hat := htrust ev.about hn
  have hentry := hover.found
  have hslot : t.slot ev.about = u.slot ev.about := slot_congr (hover.warm.trans hring)
  -- a key that is still found is the key that was there
  have hpub (k : Key) (hk : t.copyPubkey ev.about = some k) : u.copyPubkey ev.about = some k := by
    rcases hkey with hkey | ⟨hnone, hself⟩
    · rwa [← copyPubkey_congr (t := t) (by rw [hentry, hu]; exact hkey) hslot]
    · rw [copyPubkey_unpinned (by rw [hentry]; exact hnone), hslot, map_eq_some_iff] at hk
      obtain ⟨w, hw, rfl⟩ := hk
      exact hat.copyPubkey_of_slot hself hu hw
  apply trustedAt_of_some hentry
  · intro k hv hk
    cases hvouch : ev.vouches cfg s with
    | true => rw [trustStep_vouched_self _ hvouch, ht, hk]
    | false =>
      rw [trustStep_vouched _ (.inl hvouch)]
      exact hat.verified e k hu (hverified hv hvouch) (hpub k hk)
  · intro k hs hk
    exact trustStep_signed _ _ _ _ (hat.signer e k hu (hsigned ▸ hs) (hpub k hk))
  · exact fun w hw hs => trustStep_signed _ _ _ _ (hat.ring w (hslot ▸ hw) hs)
  · intro hself k w hk hw
    rcases hkey with hkey | ⟨hnone, -⟩
    · exact hat.agree hself e k w hu (hkey ▸ hk) (hslot ▸ hw)
    · rw [hnone] at hk
      cases hk

theorem Over.trustedAt_keyed {k : Key} (ht : step cfg s ev = t)
    (hw : s.written cfg ev = some (e, k)) (hkeeps : KeepsTrust cfg (s, g) ev)
    (hsigned : e'.signed = e.signed) (hkey : e'.node.fullKey = some k)
    (hring : ∀ w, t.slot ev.about = some w → w.knownSigner = true → (ev.about, w.pub) ∈ g.signed)
    (hagree : ev.about ≠ cfg.self → ∀ w, t.slot ev.about = some w → w.pub = k) :
    TrustedAt cfg t (trustStep cfg (s, g) ev).2 ev.about := by
  have hpub : t.copyPubkey ev.about = some k := copyPubkey_pinned hover.found hkey
  obtain ⟨hvouched, hsig⟩ := hkeeps e k hw
  apply trustedAt_of_some hover.found
  · intro k' hv hk
    cases hvouch : ev.vouches cfg s with
    | true => rw [trustStep_vouched_self _ hvouch, ht, hk]
    | false =>
      rw [trustStep_vouched _ (.inl hvouch), ← hk, hpub]
      exact hvouched (hverified hv hvouch) hvouch
  · intro k' hs hk
    obtain rfl : k = k' := mem_unique hpub hk
    exact trustStep_signed _ _ _ _ (hsig (hsigned ▸ hs))
  · exact fun w hw hs => trustStep_signed _ _ _ _ (hring w hw hs)
  · intro hself k' w hk hslot
    obtain rfl : k = k' := mem_unique hkey hk
    exact hagree hself w hslot

variable (hwf : s.WellFormed) (hwf' : u.WellFormed) (hn : ev.about ≠ 0)
  (hfetch : Fetched cfg env s ev.about u e)
include hwf hwf' hn hfetch

theorem Over.trustedAt_signed (htrust : Trusted cfg u g)
    (hev : ∃ env num, ev = .noteSigner env num) (hself : ev.about ≠ cfg.self)
    (hkey : e'.node.fullKey = e.node.fullKey)
    (hring : ring = (u.warmSetKnownSigner ev.about true).warm) :
    TrustedAt cfg t (trustStep cfg (s, g) ev).2 ev.about := by
  have hat := htrust ev.about hn
  have hu := hfetch.entry_self
  have hslot : t.slot ev.about =
      (u.slot ev.about).map fun w => { w with knownSigner := true } := by
    rw [slot_congr (hover.warm.trans hring), warmSetKnownSigner_slot hwf' hn hn, if_pos rfl]
  have hpub : t.copyPubkey ev.about = u.copyPubkey ev.about := by
    refine hover.copyPubkey_eq hu hkey ?_
    rw [hslot, map_map]
    rfl
  -- the key stored now was stored when the signature was noted
  have noted {k : Key} (hk : u.copyPubkey ev.about = some k) :
      (ev.about, k) ∈ (trustStep cfg (s, g) ev).2.signed := by
    have hs : s.copyPubkey ev.about = some k := by
      rcases hfetch.copyPubkey hwf hn with h | h
      · rwa [← h]
      · rw [h] at hk
        cases hk
    obtain ⟨env', num, rfl⟩ := hev
    exact mem_signed rfl hn hself hs
  apply trustedAt_of_some hover.found
  · intro k hv hk
    have hvouch : ev.vouches cfg s = false := by
      obtain ⟨env', num, rfl⟩ := hev
      rfl
    rw [trustStep_vouched _ (.inl hvouch)]
    exact hat.verified e k hu (hverified hv hvouch) (hpub ▸ hk)
  · exact fun k hs hk => noted (hpub ▸ hk)
  · intro w hw _
    rw [hslot, map_eq_some_iff] at hw
    obtain ⟨w₀, hw₀, rfl⟩ := hw
    have hk := hat.copyPubkey_of_slot hself hu hw₀
    exact noted hk
  · intro _ k w hk hw
    rw [hslot, map_eq_some_iff] at hw
    obtain ⟨w₀, hw₀, rfl⟩ := hw
    exact hat.agree hself e k w₀ hu (hkey ▸ hk) hw₀

theorem Over.trustedAt (ht : step cfg s ev = t) (htrust : Trusted cfg u g)
    (hkeeps : KeepsTrust cfg (s, g) ev) (heffect : Effect cfg s ev u e e' ring) :
    TrustedAt cfg t (trustStep cfg (s, g) ev).2 ev.about := by
  have hu := hfetch.entry_self
  cases heffect with
  | plain hw hkey hsig hring =>
    exact hover.trustedAt_same hverified hn ht hu htrust hsig (.inl hkey) hring
  | cleared _ hw hkey hsig hpeer hring =>
    exact hover.trustedAt_same hverified hn ht hu htrust hsig (.inr ⟨hkey, hpeer⟩) hring
  | keyed k w hw hkey hsig hpeer hnum hpub hsigner hring =>
    have hslot : t.slot ev.about = some w := by
      rw [slot_congr (hover.warm.trans hring), ← hnum]
      exact warmPlace_slot_self hwf' (hnum ▸ hn)
    refine hover.trustedAt_keyed hverified ht hw hkeeps hsig hkey (fun w' hw' hs => ?_)
      fun _ w' hw' => ?_
    · obtain rfl : w = w' := mem_unique hslot hw'
      rw [hsigner] at hs
      cases hs
    · obtain rfl : w = w' := mem_unique hslot hw'
      exact hpub
  | own k hw hkey hsig hown _ hring =>
    have hslot : t.slot ev.about = u.slot ev.about := slot_congr (hover.warm.trans hring)
    exact hover.trustedAt_keyed hverified ht hw hkeeps hsig hkey
      (fun w hw => (htrust _ hn).ring w (hslot ▸ hw)) fun hpeer => absurd hown hpeer
  | signed hev hw hkey hsig hpeer hring =>
    exact hover.trustedAt_signed hverified hwf hwf' hn hfetch htrust hev hpeer hkey hring

end

/-- One event keeps every node trusted. -/
theorem step_trusted (hwf : s.WellFormed) (hev : ev.onRecord = true) (htrust : Trusted cfg s g)
    (hkeeps : KeepsTrust cfg (s, g) ev) :
    Trusted cfg (step cfg s ev) (trustStep cfg (s, g) ev).2 := by
  intro n hn
  have hvouched := trustStep_vouched_or cfg ev n s g
  have hsigned := trustStep_signed cfg ev (s, g)
  cases hdown : ev.turnedDown cfg s with
  | true =>
    have hsame := step_turnedDown hdown
    exact (htrust n hn).carry (by rw [hsame]) (.inl (by rw [hsame])) hvouched hsigned
  | false =>
  have htouched := step_touched cfg hwf hev
  generalize ht : step cfg s ev = t at htouched hvouched ⊢
  cases htouched with
  | nothing => exact (htrust n hn).carry rfl (.inl rfl) hvouched hsigned
  | sorted order horder =>
    exact (htrust n hn).carry (perm_entry hwf horder) (.inl rfl) hvouched hsigned
  | marked env num hev' hnum hself hnone =>
    by_cases hne : n = num
    · subst hne
      exact trustedAt_marked hwf hev' hnum hself hnone
    · have hslot := warmSetKnownSigner_slot (v := true) hwf hnum hn
      rw [if_neg hne] at hslot
      exact (htrust n hn).carry warmSetKnownSigner_entry (.inl hslot) hvouched hsigned
  | record env i u e e' ring _ hu hmakes hwf' hfetch hover hverified heffect =>
    have hself := hfetch.entry_self
    have hutrust := hfetch.trusted hwf htrust
    have hbefore := verified_before hdown hself hmakes hverified
    by_cases hne : n = ev.about
    · subst hne
      exact hover.trustedAt hbefore hwf hwf' hn hfetch ht hutrust hkeeps heffect
    · have habout := ne_zero_of_entry hwf' hself
      exact (hutrust n hn).carry (by rw [hover.entry, if_neg hne])
        (hover.slot_ne hwf' heffect habout hn hne) hvouched hsigned

end Rest

/-! ## Runs -/

/-- A key that is written under a flag breaks the law unless the flag is about it. -/
theorem keepsTrust_of_sound {g : Trust} (hwf : s.WellFormed) (hev : ev.onRecord = true)
    (h : Sound (step cfg s ev) (trustStep cfg (s, g) ev).2) : KeepsTrust cfg (s, g) ev := by
  intro e k hw
  obtain ⟨e', hentry, hkey, hverified, hsigned⟩ := written_record hwf hev hw
  obtain ⟨hn, hpub⟩ := written_copyPubkey hwf hev hw
  constructor
  · intro hv hvouch
    have hstill : ev.verifies e.verified = true := by
      rw [hv]
      cases ev with
      | setKeyVerified num v => cases hw
      | addContact env num user v ig => rfl
      | _ => rfl
    rw [← trustStep_vouched (s, g) (.inl hvouch)]
    exact h.verified _ e' k hentry (hverified.trans hstill) hpub
  · intro hs
    have hsigner : (step cfg s ev).isXeddsaSigner ev.about = true := by
      rw [State.isXeddsaSigner, hentry]
      exact hsigned.trans hs
    have hmem : _ ∈ (ev.signs cfg s).toList ++ g.signed := h.signer _ k hn hsigner hpub
    have hnone : ev.signs cfg s = none := by
      cases ev with
      | noteSigner env num => cases hw
      | _ => rfl
    rw [hnone] at hmem
    exact hmem

/-- From any store whose flags are about its keys, over every history of packets, contacts,
key commits, verifications and signatures: in every state the flags are about the stored
keys exactly when no key is written under a flag that is about another one. -/
theorem trust_sound_iff {g : Trust} (hwf : s.WellFormed) (htrust : Trusted cfg s g)
    (evs : List Event) (hev : ∀ ev ∈ evs, ev.onRecord = true) :
    (∀ done, done <+: evs →
      Sound (run (trustStep cfg) (s, g) done).1 (run (trustStep cfg) (s, g) done).2) ↔
    Guarded (trustStep cfg) (KeepsTrust cfg) (s, g) evs := by
  have hfst (done : List Event) :
      (run (trustStep cfg) (s, g) done).1 = run (step cfg) s done :=
    run_map Prod.fst (fun _ _ => rfl) _ done
  have hwf' {done : List Event} (hp : done <+: evs) :
      (run (trustStep cfg) (s, g) done).1.WellFormed := by
    rw [hfst]
    exact run_wellFormed hwf done fun ev h => hev ev (hp.subset h)
  constructor
  · intro hsound done ev hp
    have hnext := hsound (done ++ [ev]) hp
    rw [run_append] at hnext
    exact keepsTrust_of_sound (hwf' ((List.prefix_append done [ev]).trans hp))
      (hev ev (hp.subset (by simp))) hnext
  · intro hguard done hp
    have hall : ∀ done, done <+: evs →
        Trusted cfg (run (trustStep cfg) (s, g) done).1 (run (trustStep cfg) (s, g) done).2 := by
      intro done
      induction done using List.reverseRecOn with
      | nil => exact fun _ => htrust
      | append_singleton done ev ih =>
        intro hp
        have hdone := (List.prefix_append done [ev]).trans hp
        rw [run_append]
        exact step_trusted (hwf' hdone) (hev ev (hp.subset (by simp))) (ih hdone)
          (hguard done ev hp)
    exact (hall done hp).sound (hwf' hp)

def noTrust : Trust := ⟨fun _ => none, []⟩

theorem toyStore_trusted : Trusted toyConfig (toyStore 8) noTrust := by
  intro n hn
  have hslot : (toyStore 8).slot n = none := by
    rw [slot_eq_none_iff hn]
    exact List.not_mem_nil
  by_cases h1 : n = 1
  · subst h1
    have he : (toyStore 8).entry 1 = some ((toyStore 8).readmission 1) := by decide +kernel
    exact trustedAt_of_readmission he fun w hw => absurd hw (by rw [hslot]; exact nofun)
  have he : (toyStore 8).entry n = none := by
    rw [entry_eq_none_iff]
    simpa [toyStore, Keyed.keys, Entry.key, Entry.fresh] using h1
  exact trustedAt_of_none he fun w hw => absurd hw (by rw [hslot]; exact nofun)

/-- The small store after some events, with what is known about it. -/
def toyTrust (evs : List Event) : State × Trust :=
  run (trustStep toyConfig) (toyStore 8, noTrust) evs

/-- A peer is heard, verified, noted as a signer, evicted, and comes back with its key. -/
def toyRoundTrip : List Event :=
  [toyNodeInfo 1 9 (toyKey 7), .setKeyVerified 9 true, .noteSigner (toyEnv 2) 9, toyHeard 3 8,
    toyNodeInfo 4 9 (toyKey 7)]

theorem trust_sound_iff_readmitted : Sound (toyTrust toyRoundTrip).1 (toyTrust toyRoundTrip).2 := by
  refine (trust_sound_iff toyStore_wellFormed toyStore_trusted toyRoundTrip (by decide)).mpr ?_ _
    List.prefix_rfl
  have keeps {x : State × Trust} {ev : Event} (h : (x.1.written toyConfig ev).all fun r =>
      !r.1.verified && (!r.1.signed || x.2.signed.contains (ev.about, r.2))) :
      KeepsTrust toyConfig x ev := by
    intro e k hw
    simp only [hw, all_some, Bool.and_eq_true, Bool.not_eq_true', Bool.or_eq_true,
      List.contains_iff_mem] at h
    constructor
    · intro hv
      rw [h.1] at hv
      cases hv
    · intro hs
      rcases h.2 with hno | hmem
      · rw [hs] at hno
        cases hno
      · exact hmem
  simp only [toyRoundTrip, guarded_cons, guarded_nil, and_true]
  exact ⟨keeps (by decide +kernel), keeps (by decide +kernel), keeps (by decide +kernel),
    keeps (by decide +kernel), keeps (by decide +kernel)⟩

/-- A key committed over the one that was verified. -/
def toyOverVerified : List Event :=
  [toyNodeInfo 1 9 (toyKey 7), .setKeyVerified 9 true, .commitPubkey (toyEnv 2) 9 (toyKey 5)]

/-- A key committed over the one that has signed. -/
def toyOverSigner : List Event :=
  [toyNodeInfo 1 9 (toyKey 7), .noteSigner (toyEnv 2) 9,
    .commitAdminPubkey (toyEnv 3) 9 (toyKey 5)]

/-- A signer is evicted and comes back with another key. -/
def toyBackWithOther : List Event :=
  [toyNodeInfo 1 9 (toyKey 7), .noteSigner (toyEnv 2) 9, toyHeard 3 8, toyNodeInfo 4 9 (toyKey 5)]

/-- Three ways to a key under a flag that another key has earned. -/
theorem trust_misplaced :
    (((toyTrust toyOverVerified).1.entry 9).any Entry.verified = true ∧
      (toyTrust toyOverVerified).1.copyPubkey 9 = some (toyKey 5) ∧
      (toyTrust toyOverVerified).2.vouched 9 = some (toyKey 7)) ∧
    ((toyTrust toyOverSigner).1.isXeddsaSigner 9 = true ∧
      (toyTrust toyOverSigner).1.copyPubkey 9 = some (toyKey 5) ∧
      (toyTrust toyOverSigner).2.signed = [(9, toyKey 7)]) ∧
    ((toyTrust toyBackWithOther).1.isXeddsaSigner 9 = true ∧
      (toyTrust toyBackWithOther).1.copyPubkey 9 = some (toyKey 5) ∧
      (toyTrust toyBackWithOther).2.signed = [(9, toyKey 7)]) := by
  decide +kernel

end Zephyrtastic.NodeDb
