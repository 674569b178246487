import Zephyrtastic.Lib.Run
import Zephyrtastic.NodeDb.Ops

/-!
# What an event does to a record

Every event other than a removal, a boot or a restore works on one record: it is
found or made, rewritten, and its key may be placed in the ring. `Touched` says once
what can come out of that, number by number.
-/

namespace Zephyrtastic.NodeDb

open Entry Keyed List Option Run State

variable {cfg : Config} {env : Env} {s u t : State}

/-- A store that differs from another in the record of one node and in the ring. -/
structure Over (u : State) (i : Nat) (num : UInt32) (t : State) (e : Entry)
    (ring : List WarmKey) : Prop where
  wf : t.WellFormed
  get : t.hot[i]? = some e
  key : e.key = some num
  entry : ∀ n, t.entry n = if n = num then some e else u.entry n
  warm : t.warm = ring

variable {f : Entry → Entry} {b : NodeBit} {i : Nat} {num : UInt32} {e : Entry}
  {ring : List WarmKey}

theorem Over.refl (hwf : u.WellFormed) (hi : u.hot[i]? = some e) (hkey : e.key = some num) :
    Over u i num u e u.warm := by
  refine ⟨hwf, hi, hkey, fun n => ?_, rfl⟩
  split
  · next h =>
    subst h
    exact (entry_eq_some hwf).mpr ⟨mem_of_getElem? hi, hkey⟩
  · rfl

theorem update_eq_put (hi : s.hot[i]? = some e) : s.update i f = s.put i (f e) := by
  rw [update, modify_eq_set_getElem?, hi]
  rfl

theorem Over.put {e' : Entry} (h : Over u i num t e ring) (hkey : e'.key = e.key) :
    Over u i num (t.put i e') e' ring := by
  refine ⟨h.wf.put h.get hkey, put_get h.get, hkey.trans h.key, fun n => ?_, h.warm⟩
  rw [put_entry h.wf h.get h.key hkey, h.entry n]
  split <;> rfl

theorem Over.update (h : Over u i num t e ring) (hf : (f e).key = e.key) :
    Over u i num (t.update i f) (f e) ring := by
  rw [update_eq_put h.get]
  exact h.put hf

/-- A key placed after the record was rewritten goes where it would have gone before. -/
theorem Over.place (h : Over u i num t e u.warm) (hu : (u.entry num).isSome) (k : WarmKey) :
    Over u i num (t.warmPlace k).scheduleKeySave e (u.warmPlace k).warm := by
  have hwf := h.wf.place (k := k)
  refine ⟨{ hwf with }, ?_, h.key, fun n => ?_, ?_⟩
  · simpa [scheduleKeySave] using h.get
  · exact warmPlace_entry.trans (h.entry n)
  · refine warmPlace_warm_congr h.warm fun n => ?_
    rw [h.entry n]
    split
    · next hn => simp [hn, hu]
    · rfl

theorem Over.findEntry (h : Over u i num t e ring) : t.findEntry num = some i := by
  rw [findEntry_eq]
  exact position_of_get h.wf.hot h.get h.key

theorem Over.found (h : Over u i num t e ring) : t.entry num = some e := by
  rw [h.entry, if_pos rfl]

/-- The flag of the entry: what an event may change of its trust. -/
def Entry.signed (e : Entry) : Bool := e.node.isSet .hasXeddsaSigned

def Entry.verified (e : Entry) : Bool := e.node.isSet .isKeyManuallyVerified

/-- The parts of an entry that an update of anything else leaves. -/
structure Entry.Alike (e e' : Entry) : Prop where
  key : e'.key = e.key
  fullKey : e'.node.fullKey = e.node.fullKey
  signed : e'.signed = e.signed
  nextHop : e'.node.nextHop = e.node.nextHop

theorem Entry.Alike.trans {a b c : Entry} (h : a.Alike b) (h' : b.Alike c) : a.Alike c :=
  ⟨h'.key.trans h.key, h'.fullKey.trans h.fullKey, h'.signed.trans h.signed,
    h'.nextHop.trans h.nextHop⟩

theorem Entry.alike_writeBit (e : Entry) (hb : b ≠ .hasXeddsaSigned) (v : Bool) :
    e.Alike { e with node := e.node.writeBit b v } := by
  refine ⟨rfl, rfl, ?_, rfl⟩
  rw [signed, isSet_writeBit, if_neg hb.symm]
  rfl

theorem Entry.alike_basic (e : Entry) (p : Packet) (now : UInt32) :
    e.Alike (e.applyBasicPacket p now) :=
  ⟨rfl, rfl, applyBasicPacket_isSet e p now ⟨by decide, by decide⟩, rfl⟩

/-- `apply_user` on a peer's record: refused, or the identity is written, and a key that
is new to the record is placed. -/
theorem applyUser_over (cfg : Config) (env : Env) (h : Over u i num t e u.warm)
    (hu : (u.entry num).isSome) (hself : num ≠ cfg.self) (user : User) :
    (e.node.refuses cfg.self env user = true ∧ t.applyUser cfg env i user = t) ∨
    e.node.refuses cfg.self env user = false ∧
      ((e.node.newKey user = none ∧ Over u i num (t.applyUser cfg env i user)
          { e with node := e.node.withUser user } u.warm) ∨
        ∃ k w, e.node.newKey user = some k ∧ w.num = num ∧ w.pub = k ∧ w.knownSigner = false ∧
          Over u i num (t.applyUser cfg env i user) { e with node := e.node.withUser user }
            (u.warmPlace w).warm) := by
  have hnum : e.node.num = num := (key_eq_some.mp h.key).2
  have hput : Over u i num (t.put i { e with node := e.node.withUser user })
      { e with node := e.node.withUser user } u.warm := h.put rfl
  unfold applyUser
  rw [h.get]
  dsimp only
  cases hr : e.node.refuses cfg.self env user with
  | true => exact .inl ⟨rfl, rfl⟩
  | false =>
    refine .inr ⟨rfl, ?_⟩
    rw [if_neg (by simp), if_neg (by rwa [hnum])]
    cases hk : e.node.newKey user with
    | none => exact .inl ⟨rfl, hput⟩
    | some k => exact .inr ⟨k, _, rfl, hnum, rfl, rfl, hput.place hu _⟩

section
variable (cfg) (h : Over u i num t e ring)
include h

theorem setBit_over (b : NodeBit) (v : Bool) :
    ∃ e', Over u i num (t.after (t.setBit cfg num b v)) e' ring ∧
      (e' = { e with node := e.node.writeBit b v } ∨ e' = e ∧ e.wouldProtect b v = true) := by
  unfold setBit
  rw [h.findEntry]
  dsimp only
  split
  · next hfull =>
    refine ⟨e, h, .inr ⟨rfl, ?_⟩⟩
    have := hfull.1
    rw [h.get] at this
    exact this
  · exact ⟨_, h.update (f := fun e => { e with node := e.node.writeBit b v }) rfl, .inl rfl⟩

theorem setBit_alike (hb : b = .isFavorite ∨ b = .isIgnored) (v : Bool) :
    ∃ e', Over u i num (t.after (t.setBit cfg num b v)) e' ring ∧ e.Alike e' ∧
      e'.verified = e.verified := by
  obtain ⟨e', hover, rfl | ⟨rfl, -⟩⟩ := setBit_over cfg h b v
  · refine ⟨_, hover, e.alike_writeBit (by rcases hb with rfl | rfl <;> decide) v, ?_⟩
    rw [verified, isSet_writeBit, if_neg (by rcases hb with rfl | rfl <;> decide)]
    rfl
  · exact ⟨e', hover, ⟨rfl, rfl, rfl, rfl⟩, rfl⟩

theorem setKeyVerified_over (v : Bool) :
    ∃ e', Over u i num (t.after (t.setKeyVerified cfg num v)) e' ring ∧ e.Alike e' ∧
      e'.verified = v := by
  obtain ⟨e', hover, rfl | ⟨-, hprot⟩⟩ := setBit_over cfg h .isKeyManuallyVerified v
  · refine ⟨_, hover, e.alike_writeBit (by decide) v, ?_⟩
    rw [verified, isSet_writeBit, if_pos rfl]
  · simp [wouldProtect] at hprot

end

theorem contactFlags_over (cfg : Config) (env : Env) (h : Over u i num t e ring)
    (verified shouldIgnore : Bool) :
    ∃ e', Over u i num (t.contactFlags cfg env num verified shouldIgnore) e' ring ∧ e.Alike e' ∧
      e'.verified = (e.verified || (verified && !shouldIgnore)) := by
  unfold contactFlags
  cases shouldIgnore with
  | true =>
    obtain ⟨e₁, h₁, ha₁, hv₁⟩ := setBit_alike cfg h (.inr rfl) true
    obtain ⟨e₂, h₂, ha₂, hv₂⟩ := setBit_alike cfg h₁ (.inl rfl) false
    exact ⟨e₂, h₂, ha₁.trans ha₂, by simp [hv₂, hv₁]⟩
  | false =>
    have hfav : ∃ e', Over u i num
        (if env.clientBase then t else t.after (t.setFavorite cfg num true)) e' ring ∧
          e.Alike e' ∧ e'.verified = e.verified := by
      split
      · exact ⟨e, h, ⟨rfl, rfl, rfl, rfl⟩, rfl⟩
      · exact setBit_alike cfg h (.inl rfl) true
    obtain ⟨e₁, h₁, ha₁, hv₁⟩ := hfav
    cases verified with
    | true =>
      obtain ⟨e₂, h₂, ha₂, hv₂⟩ := setKeyVerified_over cfg h₁ true
      exact ⟨e₂, h₂, ha₁.trans ha₂, by simp [hv₂]⟩
    | false => exact ⟨e₁, h₁, ha₁, by simp [hv₁]⟩

/-! ## One event -/

section Mark
variable {n : UInt32} {v : Bool}

@[simp] theorem warmSetKnownSigner_hot : (s.warmSetKnownSigner num v).hot = s.hot := by
  unfold warmSetKnownSigner
  split <;> rfl

@[simp] theorem warmSetKnownSigner_entry : (s.warmSetKnownSigner num v).entry n = s.entry n := by
  rw [entry, warmSetKnownSigner_hot]
  rfl

theorem warmSetKnownSigner_warm_congr (h : t.warm = s.warm) :
    (t.warmSetKnownSigner num v).warm = (s.warmSetKnownSigner num v).warm := by
  unfold warmSetKnownSigner warmFind
  rw [h]
  split
  · exact h
  · rfl

theorem warmSetKnownSigner_slot (hwf : s.WellFormed) (hnum : num ≠ 0) (hn : n ≠ 0) :
    (s.warmSetKnownSigner num v).slot n =
      if n = num then (s.slot n).map fun w => { w with knownSigner := v } else s.slot n := by
  unfold warmSetKnownSigner
  cases hi : s.warmFind num with
  | none =>
    dsimp only
    split
    · next h =>
      subst h
      rw [slot_eq_none.mpr hi]
      rfl
    · rfl
  | some i =>
    rw [warmFind_eq hnum] at hi
    obtain ⟨w, hget, hkey⟩ := get_of_position hi
    have hset : s.warm.modify i (fun w => { w with knownSigner := v }) =
        s.warm.set i { w with knownSigner := v } := by
      rw [modify_eq_set_getElem?, hget]
      rfl
    have hlook : s.slot num = some w := by
      rw [slot_eq hnum]
      exact lookup_of_mem hwf.warm (mem_of_getElem? hget) hkey
    rw [slot_eq hn, slot_eq hn]
    dsimp only
    have hkey' : WarmKey.key { w with knownSigner := v } = some num := hkey
    rw [hset, lookup_set (b := { w with knownSigner := v }) hwf.warm hget (.inl rfl), hkey', hkey]
    by_cases h : n = num
    · subst h
      rw [if_pos rfl, if_pos rfl, ← slot_eq hn, hlook]
      rfl
    · have hne : some num ≠ some n := fun e => h (some.inj e).symm
      rw [if_neg hne, if_neg hne, if_neg h]

theorem State.WellFormed.mark (hwf : s.WellFormed) (hnum : num ≠ 0) :
    (s.warmSetKnownSigner num v).WellFormed := by
  refine ⟨by simpa using hwf.hot, by simpa using hwf.nonzero, ?_, ?_⟩
  · unfold warmSetKnownSigner
    cases hi : s.warmFind num with
    | none => exact hwf.warm
    | some i =>
      rw [warmFind_eq hnum] at hi
      obtain ⟨w, hget, -⟩ := get_of_position hi
      dsimp only
      rw [modify_eq_set_getElem?, hget]
      exact nodup_set hwf.warm hget (.inl rfl)
  · unfold warmSetKnownSigner
    split
    · exact hwf.ring
    · simpa using hwf.ring

theorem Over.mark (h : Over u i num t e u.warm) (hnum : num ≠ 0) (v : Bool) :
    Over u i num (t.warmSetKnownSigner num v) e (u.warmSetKnownSigner num v).warm := by
  refine ⟨h.wf.mark hnum, ?_, h.key, fun n => ?_, warmSetKnownSigner_warm_congr h.warm⟩
  · rw [warmSetKnownSigner_hot]
    exact h.get
  · rw [warmSetKnownSigner_entry]
    exact h.entry n

end Mark

/-- Events that work on one record, or sort the list. -/
def Event.onRecord : Event → Bool
  | .remove _ | .forget _ | .reset _ | .boot _ _ | .restoreKey _ | .restoreRecord _ _ _ => false
  | _ => true

/-- Events other than the learning of a route. -/
def Event.unrouted : Event → Bool
  | .setNextHop _ _ => false
  | _ => true

/-- What can happen while the node runs: everything but a boot and its restores. -/
def Event.running : Event → Bool
  | .boot _ _ | .restoreKey _ | .restoreRecord _ _ _ => false
  | _ => true

/-- What an event does to the record it works on, and to the ring. -/
inductive Effect (cfg : Config) (s : State) (ev : Event) (u : State) (e e' : Entry)
    (ring : List WarmKey) : Prop where
  | plain (hw : s.written cfg ev = none) (hkey : e'.node.fullKey = e.node.fullKey)
      (hsigned : e'.signed = e.signed) (hring : ring = u.warm)
  /-- A contact with a key of its own clears the pin, and its identity is refused. -/
  | cleared (hev : ∃ env num user v ig, ev = .addContact env num user v ig)
      (hw : s.written cfg ev = none) (hkey : e'.node.fullKey = none)
      (hsigned : e'.signed = e.signed) (hself : ev.about ≠ cfg.self) (hring : ring = u.warm)
  | keyed (k : Key) (w : WarmKey) (hw : s.written cfg ev = some (e, k))
      (hkey : e'.node.fullKey = some k) (hsigned : e'.signed = e.signed)
      (hself : ev.about ≠ cfg.self) (hnum : w.num = ev.about) (hpub : w.pub = k)
      (hsigner : w.knownSigner = false) (hring : ring = (u.warmPlace w).warm)
  /-- This node's own key goes into its record only. -/
  | own (k : Key) (hw : s.written cfg ev = some (e, k)) (hkey : e'.node.fullKey = some k)
      (hsigned : e'.signed = e.signed) (hself : ev.about = cfg.self)
      (hev : ∃ env num, ev = .commitPubkey env num k) (hring : ring = u.warm)
  | signed (hev : ∃ env num, ev = .noteSigner env num) (hw : s.written cfg ev = none)
      (hkey : e'.node.fullKey = e.node.fullKey) (hsigned : e'.signed = true)
      (hself : ev.about ≠ cfg.self) (hring : ring = (u.warmSetKnownSigner ev.about true).warm)

variable (cfg s) in
/-- What can come out of an event on a record. -/
inductive Touched (ev : Event) : State → Prop where
  | nothing (hw : s.written cfg ev = none) (hu : s.searched cfg ev = s) : Touched ev s
  | sorted (order : List Entry) (horder : order.Perm s.hot) (hev : ev = .sort order) :
      Touched ev { s with hot := order }
  /-- A signer without a record is noted in the ring only. -/
  | marked (env : Env) (num : UInt32) (hev : ev = .noteSigner env num) (hnum : num ≠ 0)
      (hself : num ≠ cfg.self) (hnone : s.getOrCreate cfg env num = none) :
      Touched ev (s.warmSetKnownSigner num true)
  | record (env : Env) (i : Nat) (u : State) (e e' : Entry) (ring : List WarmKey) (t : State)
      (hu : u = s.searched cfg ev) (hmakes : ev.makes cfg = some (env, ev.about) ∨ u = s)
      (hwf : u.WellFormed) (hfetch : Fetched cfg env s ev.about u e)
      (hover : Over u i ev.about t e' ring)
      (hverified : e'.verified = ev.verifies e.verified)
      (heffect : Effect cfg s ev u e e' ring)
      (hroute : ev.unrouted = true → e'.node.nextHop = e.node.nextHop) : Touched ev t

section Events
variable {ev : Event}

theorem getOrCreate_over (hwf : s.WellFormed) (hmakes : ev.makes cfg = some (env, num))
    (h : s.getOrCreate cfg env num = some (i, u)) : u = s.searched cfg ev ∧ u.WellFormed ∧
      ∃ e, s.fetched cfg ev = some e ∧ Fetched cfg env s num u e ∧ Over u i num u e u.warm := by
  obtain ⟨-, hwf', e, hi, hkey, hf⟩ := getOrCreate_fetched hwf h
  refine ⟨?_, hwf', e, ?_, hf, Over.refl hwf' hi hkey⟩
  · rw [searched, hmakes]
    dsimp only
    rw [h]
    rfl
  · rw [fetched, hmakes, bind_some, h]
    exact hi

section
variable (ev) (hwf : s.WellFormed) (hmakes : ev.makes cfg = none) (hw : s.written cfg ev = none)
include hwf hmakes hw

theorem touched_update (hi : s.findEntry ev.about = some i)
    (hf : ∀ e : Entry, e.Alike (f e)) (hv : ∀ e : Entry, (f e).verified = ev.verifies e.verified) :
    Touched cfg s ev (s.update i f) := by
  rw [findEntry_eq] at hi
  obtain ⟨e, hget, hkey⟩ := get_of_position hi
  have hover := (Over.refl hwf hget hkey).update (f := f) (hf e).key
  refine .record ⟨0, 0, none, false⟩ i s e (f e) s.warm _ ?_ (.inr rfl) hwf
    (.held rfl ((entry_eq_some hwf).mpr ⟨mem_of_getElem? hget, hkey⟩)) hover (hv e)
    (.plain hw (hf e).fullKey (hf e).signed rfl) fun _ => (hf e).nextHop
  rw [searched, hmakes]

theorem touched_setBit (hb : b ≠ .hasXeddsaSigned) {v : Bool}
    (hv : ∀ e : Entry, verified { e with node := e.node.writeBit b v } = ev.verifies e.verified) :
    Touched cfg s ev (s.after (s.setBit cfg ev.about b v)) := by
  unfold setBit
  cases hi : s.findEntry ev.about with
  | none => exact .nothing hw (by rw [searched, hmakes])
  | some i =>
    dsimp only
    split
    · exact .nothing hw (by rw [searched, hmakes])
    · exact touched_update ev hwf hmakes hw hi (fun e => e.alike_writeBit hb v) hv

end

theorem withUser_alike (e : Entry) {user : User} (h : e.node.newKey user = none) :
    e.Alike { e with node := e.node.withUser user } :=
  ⟨rfl, (withUser_fullKey _ _).trans (newKey_eq_none _ _ h), withUser_isSet _ _ (.inr (.inl rfl)),
    rfl⟩

theorem withUser_verified (e : Entry) (user : User) :
    verified { e with node := e.node.withUser user } = e.verified :=
  withUser_isSet _ _ (.inl rfl)

theorem commitAt_touched (ev : Event) {key : Key} (hu : u = s.searched cfg ev)
    (hmakes : ev.makes cfg = some (env, ev.about) ∨ u = s) (hwf : u.WellFormed)
    (hf : Fetched cfg env s ev.about u e) (hover : Over u i ev.about u e u.warm)
    (hw : s.written cfg ev = some (e, key)) (hv : ev.verifies e.verified = e.verified)
    (hself : ev.about = cfg.self → ∃ env num, ev = .commitPubkey env num key) (env' : Env) :
    Touched cfg s ev (u.commitAt cfg env' i ev.about key) := by
  have hkey := hover.update
    (f := fun e => { e with node := { e.node with publicKey := key.bytes } }) rfl
  unfold commitAt
  dsimp only
  split
  · next h =>
    exact .record env i u e _ _ _ hu hmakes hwf hf hkey hv.symm
      (.own key hw (Key.ofBytes_bytes key) rfl h (hself h) rfl) fun _ => rfl
  next h =>
  exact .record env i u e _ _ _ hu hmakes hwf hf
    (hkey.place (isSome_of_eq_some hover.found) _) hv.symm
    (.keyed key _ hw (Key.ofBytes_bytes key) rfl h rfl rfl rfl rfl) fun _ => rfl

theorem clearPin_cases (e : Entry) (user : User) :
    e.clearPin user = e ∨ (e.clearPin user).node.fullKey = none ∧
      ∃ k, (e.clearPin user).node.newKey user = some k := by
  unfold clearPin
  split
  · next h =>
    obtain ⟨k, hk⟩ := isSome_iff_exists.mp h.1
    have hnone : Key.ofBytes [] = none := by decide
    refine .inr ⟨hnone, k, (newKey_eq_some _ _).mpr ⟨hk, fun hsome => ?_⟩⟩
    cases hnone.symm.trans hsome
  · exact .inl rfl

theorem clearPin_rest (e : Entry) (user : User) :
    (e.clearPin user).key = e.key ∧ (e.clearPin user).signed = e.signed ∧
      (e.clearPin user).verified = e.verified ∧
      (e.clearPin user).node.nextHop = e.node.nextHop := by
  unfold clearPin
  split <;> exact ⟨rfl, rfl, rfl, rfl⟩

theorem contactAt_over (cfg : Config) (env : Env)
    (hover : Over u i num u e u.warm) (hself : num ≠ cfg.self) (user : User) (shouldIgnore : Bool) :
    ∃ e' ring, Over u i num (u.contactAt cfg env i user shouldIgnore) e' ring ∧
      e'.signed = e.signed ∧ e'.verified = e.verified ∧ e'.node.nextHop = e.node.nextHop ∧
      (((e.clearPin user).node.refuses cfg.self env user = true ∧
          e'.node.fullKey = (e.clearPin user).node.fullKey ∧ ring = u.warm) ∨
        (e.clearPin user).node.refuses cfg.self env user = false ∧
          (((e.clearPin user).node.newKey user = none ∧ e'.node.fullKey = e.node.fullKey ∧
              ring = u.warm) ∨
            ∃ k w, (e.clearPin user).node.newKey user = some k ∧ e'.node.fullKey = some k ∧
              w.num = num ∧ w.pub = k ∧ w.knownSigner = false ∧ ring = (u.warmPlace w).warm)) := by
  obtain ⟨hkey, hsigned, hverified, hroute⟩ := clearPin_rest e user
  have hclear := hover.update (f := (·.clearPin user)) hkey
  -- the stamp that follows leaves all that matters here
  have stamp {t : State} {a : Entry} {ring : List WarmKey} (h : Over u i num t a ring) :
      ∃ a', a.Alike a' ∧ a'.verified = a.verified ∧ Over u i num
        (if (!shouldIgnore && env.clientBase) = true then t.update i (·.heardAt env.uptimeSec)
        else t) a' ring := by
    split
    · exact ⟨a.heardAt env.uptimeSec, ⟨rfl, rfl, rfl, rfl⟩, rfl, h.update rfl⟩
    · exact ⟨a, ⟨rfl, rfl, rfl, rfl⟩, rfl, h⟩
  unfold contactAt
  dsimp only
  rcases applyUser_over cfg env hclear (isSome_of_eq_some hover.found) hself user with
    ⟨hr, heq⟩ | ⟨hr, ⟨hk, h⟩ | ⟨k, w, hk, hnum, hpub, hsig, h⟩⟩
  · obtain ⟨e', ha, hv, h'⟩ := stamp hclear
    rw [heq]
    exact ⟨e', _, h', ha.signed.trans hsigned, hv.trans hverified, ha.nextHop.trans hroute,
      .inl ⟨hr, ha.fullKey, rfl⟩⟩
  · obtain ⟨e', ha, hv, h'⟩ := stamp h
    have hsame : e.clearPin user = e := by
      rcases clearPin_cases e user with hsame | ⟨-, k, hk'⟩
      · exact hsame
      · rw [hk] at hk'
        cases hk'
    rw [hsame] at ha hv hk hr ⊢
    have ha' := (withUser_alike e hk).trans ha
    exact ⟨e', _, h', ha'.signed, hv.trans (withUser_verified e user), ha'.nextHop,
      .inr ⟨hr, .inl ⟨hk, ha'.fullKey, rfl⟩⟩⟩
  · obtain ⟨e', ha, hv, h'⟩ := stamp h
    refine ⟨e', _, h', ?_, (hv.trans (withUser_verified _ user)).trans hverified,
      ha.nextHop.trans hroute, .inr ⟨hr, .inr ⟨k, w, hk, ?_, hnum, hpub, hsig, rfl⟩⟩⟩
    · exact (ha.signed.trans (withUser_isSet _ _ (.inr (.inl rfl)))).trans hsigned
    · rw [ha.fullKey, withUser_fullKey, ((newKey_eq_some _ _).mp hk).1]
      rfl

section
variable (hwf : s.WellFormed) (env : Env) (num : UInt32) (key : Key)
include hwf

theorem onPacket_touched (p : Packet) : Touched cfg s (.packet env p) (s.onPacket cfg env p) := by
  have plain {e e' : Entry} {i : Nat} {u t : State} (hfetch : Fetched cfg env s p.sender u e)
      (hu : u = s.searched cfg (.packet env p)) (hwf : u.WellFormed)
      (hover : Over u i p.sender t e' u.warm) (ha : e.Alike e') (hv : e'.verified = e.verified)
      (hmakes : Event.makes cfg (.packet env p) = some (env, p.sender))
      (hw : s.written cfg (.packet env p) = none) : Touched cfg s (.packet env p) t :=
    .record env i u e e' u.warm t hu (.inl hmakes) hwf hfetch hover hv
      (.plain hw ha.fullKey ha.signed rfl) fun _ => ha.nextHop
  unfold onPacket
  split
  · next hbad =>
    have hm : Event.makes cfg (.packet env p) = none := if_pos hbad
    refine .nothing ?_ (by rw [searched, hm])
    simp only [written, fetched, hm]
    split <;> rfl
  next hbad =>
  have hm : Event.makes cfg (.packet env p) = some (env, p.sender) := if_neg hbad
  cases hget : s.getOrCreate cfg env p.sender with
  | none =>
    refine .nothing ?_ (by simp [searched, hm, hget])
    simp only [written, fetched, hm, bind_some, hget]
    split <;> rfl
  | some r =>
    obtain ⟨i, u⟩ := r
    obtain ⟨hu, hwf', e, hfetched, hf, hover⟩ := getOrCreate_over hwf hm hget
    have hbasic := hover.update (f := (·.applyBasicPacket p env.uptimeSec)) rfl
    have ha := e.alike_basic p env.uptimeSec
    have hv : (e.applyBasicPacket p env.uptimeSec).verified = e.verified :=
      applyBasicPacket_isSet e p _ ⟨by decide, by decide⟩
    dsimp only
    split
    · next user hc =>
      have hwritten : s.written cfg (.packet env p) =
          if e.node.refuses cfg.self env user then none else (e.node.newKey user).map (e, ·) := by
        simp only [written, hc, hfetched, bind_some]
      have hself : p.sender ≠ cfg.self := fun h => hbad (.inr h)
      rcases applyUser_over cfg env hbasic (isSome_of_eq_some hover.found) hself user with
        ⟨hr, heq⟩ | ⟨hr, ⟨hk, hover'⟩ | ⟨k, w, hk, hnum, hpub, hsig, hover'⟩⟩
      · rw [heq]
        exact plain hf hu hwf' hbasic ha hv hm (hwritten.trans (if_pos hr))
      · refine plain hf hu hwf' hover' (ha.trans (withUser_alike _ hk))
          ((withUser_verified _ user).trans hv) hm ?_
        have hk' : e.node.newKey user = none := hk
        rw [hwritten, hk']
        exact ite_self _
      · refine .record env i u e _ _ _ hu (.inl hm) hwf' hf hover'
          ((withUser_verified _ user).trans hv) (.keyed k w ?_ ?_ ?_ hself hnum hpub hsig rfl)
          fun _ => ha.nextHop
        · have hk' : e.node.newKey user = some k := hk
          rw [hwritten, hk']
          exact if_neg (Bool.eq_false_iff.mp hr)
        · rw [withUser_fullKey, ((newKey_eq_some _ _).mp hk).1]
          rfl
        · exact (withUser_isSet _ _ (.inr (.inl rfl))).trans ha.signed
    · next pos hc =>
      refine plain hf hu hwf' (hbasic.update (f := (·.applyPosition pos)) rfl)
        (ha.trans ⟨rfl, rfl, rfl, rfl⟩) hv hm ?_
      simp only [written, hc]
    · next h1 h2 =>
      refine plain hf hu hwf' hbasic ha hv hm ?_
      simp only [written]

theorem noteSigner_touched :
    Touched cfg s (.noteSigner env num) (s.noteXeddsaSigner cfg env num) := by
  unfold noteXeddsaSigner
  split
  · next hbad =>
    have hm : Event.makes cfg (.noteSigner env num) = none := if_pos hbad
    exact .nothing rfl (by rw [searched, hm])
  next hbad =>
  have hm : Event.makes cfg (.noteSigner env num) = some (env, num) := if_neg hbad
  have hself : num ≠ cfg.self := fun h => hbad (.inr h)
  cases hget : s.getOrCreate cfg env num with
  | none => exact .marked env num rfl (fun h => hbad (.inl h)) hself hget
  | some r =>
    obtain ⟨i, u⟩ := r
    obtain ⟨hu, hwf', e, -, hf, hover⟩ := getOrCreate_over hwf hm hget
    have hmark := (hover.update
      (f := fun e => { e with node := e.node.writeBit .hasXeddsaSigned true }) rfl).mark
        (fun h => hbad (.inl h)) true
    refine .record env i u e _ _ _ hu (.inl hm) hwf' hf hmark ?_
      (.signed ⟨env, num, rfl⟩ rfl rfl ?_ hself rfl) fun _ => rfl
    · exact isSet_writeBit.trans (if_neg (by decide))
    · exact isSet_writeBit.trans (if_pos rfl)

theorem commitPubkey_touched :
    Touched cfg s (.commitPubkey env num key) (s.after (s.commitPubkey cfg env num key)) := by
  unfold commitPubkey
  cases hi : s.findEntry num with
  | none =>
    refine .nothing ?_ rfl
    have hnone : s.entry num = none := by
      rw [entry_eq_none_iff, ← position_eq_none, ← findEntry_eq, hi]
    simp only [written, hnone]
    rfl
  | some i =>
    rw [findEntry_eq] at hi
    obtain ⟨e, hget, hkey⟩ := get_of_position hi
    have he : s.entry num = some e := (entry_eq_some hwf).mpr ⟨mem_of_getElem? hget, hkey⟩
    have hheld : Fetched cfg env s num s e := .held rfl he
    refine commitAt_touched (.commitPubkey env num key) rfl (.inr rfl) hwf hheld
      (Over.refl hwf hget hkey) ?_ rfl (fun _ => ⟨env, num, rfl⟩) env
    simp only [written, he]
    rfl

theorem commitAdminPubkey_touched :
    Touched cfg s (.commitAdminPubkey env num key)
      (s.after (s.commitAdminPubkey cfg env num key)) := by
  unfold commitAdminPubkey
  split
  · next hbad =>
    have hm : Event.makes cfg (.commitAdminPubkey env num key) = none := if_pos hbad
    exact .nothing (by simp [written, fetched, hm]) (by rw [searched, hm])
  next hbad =>
  have hm : Event.makes cfg (.commitAdminPubkey env num key) = some (env, num) := if_neg hbad
  cases hget : s.getOrCreate cfg env num with
  | none =>
    exact .nothing (by simp [written, fetched, hm, hget])
      (by simp [searched, hm, hget])
  | some r =>
    obtain ⟨i, u⟩ := r
    obtain ⟨hu, hwf', e, hfetched, hf, hover⟩ := getOrCreate_over hwf hm hget
    refine commitAt_touched (.commitAdminPubkey env num key) hu (.inl hm) hwf' hf hover ?_ rfl
      (fun h => absurd h fun h => hbad (.inr (.inr h))) env
    simp only [written, hfetched]
    rfl

theorem addContact_touched (user : User) (verified shouldIgnore : Bool) :
    Touched cfg s (.addContact env num user verified shouldIgnore)
      (s.after (s.addContact cfg env num user verified shouldIgnore)) := by
  unfold addContact
  split
  · next hbad =>
    have hm : Event.makes cfg (.addContact env num user verified shouldIgnore) = none := if_pos hbad
    exact .nothing (by simp [written, fetched, hm]) (by rw [searched, hm])
  next hbad =>
  have hm : Event.makes cfg (.addContact env num user verified shouldIgnore) = some (env, num) :=
    if_neg hbad
  cases hget : s.getOrCreate cfg env num with
  | none =>
    exact .nothing (by simp [written, fetched, hm, hget])
      (by simp [searched, hm, hget])
  | some r =>
    obtain ⟨i, u⟩ := r
    obtain ⟨hu, hwf', e, hfetched, hf, hover⟩ := getOrCreate_over hwf hm hget
    have hself : num ≠ cfg.self := fun h => hbad (.inr (.inr h))
    have hwritten : s.written cfg (.addContact env num user verified shouldIgnore) =
        if e.refusesContact user verified ∨ (e.clearPin user).node.refuses cfg.self env user
        then none else ((e.clearPin user).node.newKey user).map (e, ·) := by
      simp only [written, hfetched, bind_some]
    dsimp only
    rw [hover.get, any_some]
    split
    · next hperm =>
      -- only a record that was there can be verified
      refine .nothing (by rw [hwritten, if_pos (.inl hperm)]) (hu.symm.trans ?_)
      have hver : e.node.isSet .isKeyManuallyVerified = true := by
        simp only [refusesContact, Bool.and_eq_true] at hperm
        exact hperm.1.1.1
      cases hf with
      | held ht => exact ht
      | added _ he | replaced _ _ _ _ _ _ he =>
        rw [he, readmission_isSet (by decide)] at hver
        cases hver
    next hperm =>
    obtain ⟨e₁, ring, h₁, hsigned, hverified, hroute, hcase⟩ :=
      contactAt_over cfg env hover hself user shouldIgnore
    obtain ⟨e₂, h₂, ha, hv⟩ :=
      contactFlags_over cfg env h₁ verified shouldIgnore
    have hv' : e₂.verified = (e.verified || (verified && !shouldIgnore)) := by rw [hv, hverified]
    refine .record env i u e e₂ ring _ hu (.inl hm) hwf' hf h₂ hv' ?_
      fun _ => ha.nextHop.trans hroute
    rcases hcase with ⟨hr, hkey, hring⟩ | ⟨hr, ⟨hk, hkey, hring⟩ | ⟨k, w, hk, hkey, hw⟩⟩
    · have hnone : s.written cfg (.addContact env num user verified shouldIgnore) = none := by
        rw [hwritten, if_pos (.inr hr)]
      rcases clearPin_cases e user with hsame | ⟨hclear, -⟩
      · rw [hsame] at hkey
        exact .plain hnone (ha.fullKey.trans hkey) (ha.signed.trans hsigned) hring
      · exact .cleared ⟨env, num, user, verified, shouldIgnore, rfl⟩ hnone
          (ha.fullKey.trans (hkey.trans hclear)) (ha.signed.trans hsigned) hself hring
    · refine .plain ?_ (ha.fullKey.trans hkey) (ha.signed.trans hsigned) hring
      rw [hwritten, hk]
      exact ite_self _
    · obtain ⟨hnum, hpub, hsig, hring⟩ := hw
      refine .keyed k w ?_ (ha.fullKey.trans hkey) (ha.signed.trans hsigned) hself hnum hpub hsig
        hring
      rw [hwritten, if_neg (by simp [hperm, hr]), hk]
      rfl

end

theorem step_touched (cfg : Config) (hwf : s.WellFormed) (hev : ev.onRecord = true) :
    Touched cfg s ev (step cfg s ev) := by
  have bit (e : Entry) {b : NodeBit} (hb : b ≠ .isKeyManuallyVerified) (v : Bool) :
      verified { e with node := e.node.writeBit b v } = e.verified :=
    isSet_writeBit.trans (if_neg hb.symm)
  cases ev with
  | packet env p => exact onPacket_touched hwf env p
  | noteSigner env num => exact noteSigner_touched hwf env num
  | setFavorite num v | setIgnored num v =>
    exact touched_setBit _ hwf rfl rfl (by decide) fun e => bit e (by decide) v
  | setKeyVerified num v =>
    exact touched_setBit _ hwf rfl rfl (by decide)
      fun e => isSet_writeBit.trans (if_pos rfl)
  | toggleMuted num =>
    simp only [step, toggleMuted]
    cases hi : s.findEntry num with
    | none => exact .nothing rfl rfl
    | some i =>
      exact touched_update (.toggleMuted num) hwf rfl rfl hi
        (fun e => e.alike_writeBit (by decide) _) fun e => bit e (by decide) _
  | setNextHop num hop =>
    simp only [step, setNextHop]
    cases hi : s.findEntry num with
    | none => exact .nothing rfl rfl
    | some i =>
      rw [findEntry_eq] at hi
      obtain ⟨e, hget, hkey⟩ := get_of_position hi
      have hover := (Over.refl hwf hget hkey).update
        (f := fun e => { e with node := { e.node with nextHop := hop } }) rfl
      exact .record ⟨0, 0, none, false⟩ i s e _ s.warm _ rfl (.inr rfl) hwf
        (.held rfl ((entry_eq_some hwf).mpr ⟨mem_of_getElem? hget, hkey⟩)) hover rfl
        (.plain rfl rfl rfl rfl) nofun
  | commitPubkey env num key => exact commitPubkey_touched hwf env num key
  | commitAdminPubkey env num key => exact commitAdminPubkey_touched hwf env num key
  | addContact env num user v ig => exact addContact_touched hwf env num user v ig
  | sort order =>
    simp only [step]
    split
    · next h => exact .sorted order (isPerm_iff.mp h) rfl
    · exact .nothing rfl rfl
  | remove num | forget num | reset keep | boot env user | restoreKey k
  | restoreRecord env num node => cases hev

theorem Over.slot_ne {n : UInt32} {e' : Entry} (hwf : u.WellFormed)
    (hover : Over u i ev.about t e' ring)
    (heffect : Effect cfg s ev u e e' ring) (habout : ev.about ≠ 0) (hn : n ≠ 0)
    (hne : n ≠ ev.about) : t.slot n = u.slot n ∨ t.slot n = none := by
  cases heffect with
  | plain _ _ _ hring | cleared _ _ _ _ _ hring | own _ _ _ _ _ _ hring =>
    exact .inl (slot_congr (hover.warm.trans hring))
  | keyed k w _ _ _ _ hnum _ _ hring =>
    rw [slot_congr (hover.warm.trans hring)]
    exact (warmPlace_slot_ne hwf (hnum ▸ habout) hn (hnum ▸ hne)).imp_right And.left
  | signed _ _ _ _ _ hring =>
    rw [slot_congr (hover.warm.trans hring), warmSetKnownSigner_slot hwf habout hn, if_neg hne]
    exact .inl rfl

theorem perm_entry (hwf : s.WellFormed) {n : UInt32} {order : List Entry}
    (h : order.Perm s.hot) :
    entry { s with hot := order } n = s.entry n := by
  rw [entry_eq, entry_eq]
  exact (lookup_perm h.symm hwf.hot n).symm

theorem Touched.wellFormed (hwf : s.WellFormed) (h : Touched cfg s ev t) : t.WellFormed := by
  cases h with
  | nothing => exact hwf
  | sorted order horder =>
    have hkeys := (horder.filterMap key)
    exact ⟨hkeys.nodup_iff.mpr hwf.hot, fun hz => hwf.nonzero (hkeys.mem_iff.mp hz), hwf.warm,
      hwf.ring⟩
  | marked env num hev hnum => exact hwf.mark hnum
  | record env i u e e' ring _ hu hmakes hwf' hfetch hover => exact hover.wf

theorem warmPlace_length (k : WarmKey) : (s.warmPlace k).warm.length = s.warm.length := by
  unfold warmPlace
  split
  · rfl
  · split
    · rfl
    · exact length_set

theorem warmSetKnownSigner_length (num : UInt32) (v : Bool) :
    (s.warmSetKnownSigner num v).warm.length = s.warm.length := by
  unfold warmSetKnownSigner
  split
  · rfl
  · exact length_modify _ _ _

theorem Fetched.warm_length (h : Fetched cfg env s num u e) : u.warm.length = s.warm.length := by
  cases h with
  | held ht => rw [ht]
  | added _ _ _ hwarm => rw [hwarm]
  | replaced victim _ _ _ _ _ _ _ hwarm =>
    rw [hwarm]
    rcases warmAbsorb_cases cfg env s victim with h | ⟨k, w, -, -, -, -, -, h⟩
    · rw [h]
    · rw [h]
      exact warmPlace_length w

theorem Touched.warm_length (h : Touched cfg s ev t) : t.warm.length = s.warm.length := by
  cases h with
  | nothing => rfl
  | sorted => rfl
  | marked env num => exact warmSetKnownSigner_length num true
  | record env i u e e' ring _ hu hmakes hwf' hfetch hover hverified heffect =>
    rw [hover.warm, ← hfetch.warm_length]
    cases heffect with
    | plain _ _ _ hring | cleared _ _ _ _ _ hring | own _ _ _ _ _ _ hring => rw [hring]
    | keyed k w _ _ _ _ _ _ _ hring =>
      rw [hring]
      exact warmPlace_length w
    | signed _ _ _ _ _ hring =>
      rw [hring]
      exact warmSetKnownSigner_length _ true

theorem step_wellFormed (hwf : s.WellFormed) (hev : ev.onRecord = true) :
    (step cfg s ev).WellFormed := (step_touched cfg hwf hev).wellFormed hwf

theorem run_wellFormed (hwf : s.WellFormed) (evs : List Event)
    (hev : ∀ ev ∈ evs, ev.onRecord = true) : (run (step cfg) s evs).WellFormed := by
  have hguard : Guarded (step cfg) (fun _ ev => ev.onRecord = true) s evs :=
    fun done e hp => hev e (hp.subset (by simp))
  exact run_keeps State.WellFormed hwf (fun _ ev h hok => step_wellFormed h hok) hguard

end Events

/-! ## Removals -/

/-- The last entry in the place of another is that entry erased. -/
theorem swapRemove_perm {l : List Entry} {last : Entry} (hi : i < l.length)
    (hlast : l.getLast? = some last) :
    ((l.set i last).dropLast).Perm (l.eraseIdx i) := by
  obtain ⟨init, rfl⟩ : ∃ init, l = init ++ [last] := getLast?_eq_some_iff.mp hlast
  by_cases hend : i = init.length
  · subst hend
    rw [set_append_right _ _ (Nat.le_refl _),
      eraseIdx_append_of_length_le (Nat.le_refl _)]
    simp
  · have hlt : i < init.length := by
      rw [length_append, length_singleton] at hi
      omega
    rw [set_append_left _ _ hlt, dropLast_concat, eraseIdx_append_of_lt_length hlt]
    exact (set_perm_cons_eraseIdx hlt last).trans (perm_append_singleton _ _).symm

theorem remove_spec (cfg : Config) (hwf : s.WellFormed) (num : UInt32) :
    let t := s.after (s.remove cfg num)
    t.WellFormed ∧ t.warm = s.warm ∧ (num ≠ cfg.self → t.entry num = none) ∧
      ∀ n, s.entry n = none → t.entry n = none := by
  have same (hnone : num ≠ cfg.self → s.entry num = none) : s.WellFormed ∧ s.warm = s.warm ∧
      (num ≠ cfg.self → s.entry num = none) ∧ ∀ n, s.entry n = none → s.entry n = none :=
    ⟨hwf, rfl, hnone, fun _ h => h⟩
  unfold remove
  split
  · next h => exact same fun hne => absurd h hne
  cases hfind : s.findEntry num with
  | none =>
    refine same fun _ => ?_
    rw [entry_eq_none_iff, ← position_eq_none, ← findEntry_eq, hfind]
  | some i =>
    rw [findEntry_eq] at hfind
    obtain ⟨e, hi, hkey⟩ := get_of_position hfind
    have hlt := (List.getElem?_eq_some_iff.mp hi).1
    cases hlast : s.hot.getLast? with
    | none =>
      rw [getLast?_eq_none_iff.mp hlast] at hlt
      cases hlt
    | some last =>
      have hperm := (swapRemove_perm hlt hlast).filterMap key
      have hsub : (keys key (s.hot.eraseIdx i)).Sublist (keys key s.hot) :=
        (eraseIdx_sublist _ i).filterMap _
      have hmem (n : UInt32) (h : n ∈ keys key ((s.hot.set i last).dropLast)) :
          n ∈ keys key (s.hot.eraseIdx i) := hperm.mem_iff.mp h
      refine ⟨⟨hperm.nodup_iff.mpr (hwf.hot.sublist hsub),
        fun hz => hwf.nonzero (hsub.subset (hmem 0 hz)), hwf.warm, hwf.ring⟩, rfl, fun _ => ?_,
        fun n hn => ?_⟩
      · refine entry_eq_none_iff.mpr fun h => ?_
        obtain ⟨a, ha, hka⟩ := Keyed.mem_keys.mp (hmem num h)
        obtain ⟨j, hj, hget⟩ := mem_eraseIdx_iff_getElem?.mp ha
        -- the number stands at one position only
        have hpos := position_of_get hwf.hot hget hka
        exact hj (mem_unique hpos hfind)
      · exact entry_eq_none_iff.mpr fun h => entry_eq_none_iff.mp hn (hsub.subset (hmem n h))

theorem toyStore_wellFormed : (toyStore 8).WellFormed :=
  ⟨by decide, by decide, by decide, by decide⟩

end Zephyrtastic.NodeDb
