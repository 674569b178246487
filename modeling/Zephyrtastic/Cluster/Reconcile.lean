import Zephyrtastic.Cluster.Module

/-!
# The reconciler

The document's answer for a section and the version it is applied under are
computed apart: the answer is the pin or the base, the version the newest stamp of
the two.
-/

namespace Zephyrtastic.Cluster

open Option Run Stamp Key ConfigStore

/-- `effective`, from the two rows of a section. -/
def answer (pin base : Option Entry) : Option Entry :=
  match pin with
  | some e => if !e.tombstone then some e else Doc.effective.live base
  | none => Doc.effective.live base

/-- `effective_version`, from the two rows of a section. -/
def version (pin base : Option Entry) : Option Stamp :=
  match base with
  | some b =>
    if b.stamp.newer ((pin.map Entry.stamp).getD Stamp.unset) then some b.stamp
    else pin.map Entry.stamp
  | none => pin.map Entry.stamp

theorem version_both (pin base : Entry) :
    version (some pin) (some base) = some (max base.stamp pin.stamp) := by
  simp only [version, map_some, getD_some]
  split
  · rename_i h
    rw [max_eq_left (newer_iff.mp h).le]
  · rename_i h
    rw [max_eq_right (newer_eq_false_iff.mp (Bool.eq_false_iff.mpr h))]

theorem version_base (base : Entry) : version none (some base) =
    if unset < base.stamp then some base.stamp else none := by
  simp only [version, map_none, getD_none, newer_iff]

/-- The node in front of the two modules: the cluster's state and the store. -/
structure Machine (nd : Node) (Cfg : Type) where
  c : State nd
  store : ConfigStore Cfg

open Machine

inductive MachineEvent where
  | merge (env : Env) (w : Entry)
  | promote (env : Env) (sec : UInt16)
  | pin (env : Env) (sec : UInt16)
  | unpin (env : Env) (sec : UInt16)
  | reconcile (env : Env) (channelsOk : Bool) (sec : UInt16)

section Reconcile
variable {nd : Node} {Cfg : Type} (cd : Codec Cfg)
variable (m : Machine nd Cfg) (sec : UInt16)

def Machine.sectionSnapshot : Except Errno (List UInt8 × Stamp) :=
  match m.store.getConfig sec, m.store.getConfigStamp sec with
  | some cfg, some stamp =>
    if cd.whichPayloadVariant cfg ≠ sec then .error .noent
    else match cd.encode cfg with
      | some bytes => .ok (bytes, stamp)
      | none => .error .inval
  | _, _ => .error .noent

/-- The origin marker: the store carries the document's version. -/
def Machine.sectionIsDocDerived (docStamp : Stamp) : Bool :=
  match m.store.getConfigStamp sec with
  | some stamp => decide (stamp.compare docStamp = 0)
  | none => false

/-- Hand a decoded section to the store and count what became of it. -/
def Machine.apply (env : Env) (channelsOk : Bool) (cfg : Cfg) (stamp : Stamp) : Machine nd Cfg :=
  match m.store.mergeConfig cd env.epochMs channelsOk cfg stamp with
  | (some true, store) => ⟨m.c.count .sectionsApplied, store⟩
  | (some false, store) => ⟨m.c.count .sectionsKeptLocal, store⟩
  | (none, store) => ⟨m.c, store⟩

def Machine.reconcileSection (env : Env) (channelsOk : Bool) (sec : UInt16) : Machine nd Cfg :=
  match m.c.doc.effective nd.me sec, m.c.doc.effectiveVersion nd.me sec with
  | some e, some version =>
    if m.sectionIsDocDerived sec version then m
    else if sec = loraTag then { m with c := m.c.count .sectionsHeld }
    else match cd.decode e.payload with
      | some cfg =>
        if cd.whichPayloadVariant cfg ≠ sec then m else m.apply cd env channelsOk cfg version
      | none => m
  | _, _ => m

def Machine.step : MachineEvent → Machine nd Cfg
  | .merge env w => { m with c := m.c.mergeEntry env w }
  | .promote env sec => { m with c := (m.c.promote env sec (m.sectionSnapshot cd sec)).2 }
  | .pin env sec => { m with c := (m.c.pin env sec (m.sectionSnapshot cd sec)).2 }
  | .unpin env sec => { m with c := (m.c.unpin env sec (m.store.getConfigStamp sec)).2 }
  | .reconcile env channelsOk sec => m.reconcileSection cd env channelsOk sec

/-- The write an event offers to the document. -/
def Machine.Offers : MachineEvent → Entry → Prop
  | .merge _ w', w => w = w'
  | .promote env sec, w => m.c.Lifts env (Key.base sec) (m.sectionSnapshot cd sec) w
  | .pin env sec, w => m.c.Lifts env (Key.node nd.me sec) (m.sectionSnapshot cd sec) w
  | .unpin env sec, w => m.c.Unpins env sec (m.store.getConfigStamp sec) w
  | .reconcile .., _ => False

/-- A base write that leaves the marker meaningful: the store does not carry the
version it makes, or it stays hidden under a live pin that is newer. -/
def LandsBase (pin : Option Entry) (stored : Stamp) (w : Entry) : Prop :=
  match pin with
  | none => stored ≠ w.stamp ∧ (Stamp.unset < w.stamp ∨ Stamp.unset < stored)
  | some p => stored ≠ max w.stamp p.stamp ∨ (p.tombstone = false ∧ w.stamp < p.stamp)

/-- The same for a write of this node's own row: an older tombstone where no pin
is live hides nothing. -/
def LandsPin (pin base : Option Entry) (stored : Stamp) (w : Entry) : Prop :=
  match base with
  | none => w.tombstone = true ∨ stored ≠ w.stamp
  | some b => stored ≠ max w.stamp b.stamp ∨
      (w.tombstone = true ∧ (∀ p, pin = some p → p.tombstone = true) ∧ w.stamp < b.stamp)

/-- Every write the event offers to the section, if it is newer than what is held,
lands under a version the store does not carry yet. -/
def Machine.Lands (m : Machine nd Cfg) (ev : MachineEvent) : Prop :=
  ∀ w, m.Offers cd ev w → (∀ held, m.c.doc.find w.key = some held → held.stamp < w.stamp) →
    (w.key = Key.base sec →
      LandsBase (m.c.doc.find (Key.node nd.me sec)) (m.store.stamps sec) w) ∧
    (w.key = Key.node nd.me sec →
      LandsPin (m.c.doc.find (Key.node nd.me sec)) (m.c.doc.find (Key.base sec))
        (m.store.stamps sec) w)

/-- What the marker is good for: a stamp equal to the version means the answer is
what the store holds. -/
structure Marker (sec : UInt16) (pin base : Option Entry) (stored : Stamp) (value : Cfg) :
    Prop where
  applied : ∀ a cfg, answer pin base = some a → version pin base = some stored →
    cd.decode a.payload = some cfg → cd.whichPayloadVariant cfg = sec →
    ConfigStore.configIsValid cd cfg = true → value = cfg
  unversioned : ∀ a, answer pin base = some a → version pin base = none → Stamp.unset < stored

variable {cd} {sec : UInt16} {pin base : Option Entry} {stored : Stamp} {value : Cfg} {w : Entry}

variable {v : Stamp}

theorem Marker.of_ne (hv : version pin base = some v) (hne : stored ≠ v) :
    Marker cd sec pin base stored value where
  applied _ _ _ he := absurd (mem_unique hv he) (Ne.symm hne)
  unversioned _ _ he := absurd (hv.symm.trans he) nofun

section
variable (h : Marker cd sec pin base stored value)
include h

theorem Marker.congr {pin' base' : Option Entry}
    (ha : answer pin' base' = answer pin base) (hv : version pin' base' = version pin base) :
    Marker cd sec pin' base' stored value where
  applied := by rw [ha, hv]; exact h.applied
  unversioned := by rw [ha, hv]; exact h.unversioned

theorem Marker.set_base
    (hnew : ∀ b, base = some b → b.stamp < w.stamp) (hl : LandsBase pin stored w) :
    Marker cd sec pin (some w) stored value := by
  cases pin with
  | none =>
    obtain ⟨hne, hset⟩ := hl
    by_cases hw : unset < w.stamp
    · exact .of_ne (by rw [version_base, if_pos hw]) hne
    refine ⟨?_, fun _ _ _ => hset.resolve_left hw⟩
    intro _ _ _ he
    rw [version_base, if_neg hw] at he
    cases he
  | some p =>
    rcases hl with hne | ⟨hlive, hlt⟩
    · exact .of_ne (version_both p w) hne
    -- hidden under the live pin: neither the answer nor the version moves
    have hv : ∀ b : Entry, b.stamp < p.stamp → version (some p) (some b) = some p.stamp := by
      intro b hb
      rw [version_both, max_eq_right hb.le]
    refine h.congr (by simp [answer, hlive]) ?_
    rw [hv w hlt]
    cases base with
    | none => rfl
    | some b => rw [hv b ((hnew b rfl).trans hlt)]

theorem Marker.set_pin
    (hnew : ∀ p, pin = some p → p.stamp < w.stamp) (hl : LandsPin pin base stored w) :
    Marker cd sec (some w) base stored value := by
  cases base with
  | none =>
    rcases hl with ht | hne
    · have ha : answer (some w) none = none := by simp [answer, ht, Doc.effective.live]
      exact ⟨fun _ _ h => by simp [ha] at h, fun _ h => by simp [ha] at h⟩
    · exact .of_ne rfl hne
  | some b =>
    rcases hl with hne | ⟨ht, hdead, hlt⟩
    · exact .of_ne (version_both w b) (by rwa [max_comm])
    -- no pin was live before and none is now, and the base is newer
    have hv : version (some w) (some b) = some b.stamp := by
      rw [version_both, max_eq_left hlt.le]
    have ha : answer (some w) (some b) = answer pin (some b) := by
      cases pin with
      | none => simp [answer, ht]
      | some p => simp [answer, ht, hdead p rfl]
    cases pin with
    | none =>
      by_cases hset : unset < b.stamp
      · exact h.congr ha (by rw [hv, version_base, if_pos hset])
      constructor
      · intro a _ hans hver
        have hun := h.unversioned a (ha ▸ hans) (by rw [version_base, if_neg hset])
        rw [hv] at hver
        exact absurd (some.inj hver ▸ hun) hset
      · intro _ _ hver
        rw [hv] at hver
        cases hver
    | some p =>
      refine h.congr ha ?_
      rw [hv, version_both, max_eq_left ((hnew p rfl).trans hlt).le]

end

variable (cd sec) in
/-- The marker of a section is good in this state. -/
def Machine.Marked (m : Machine nd Cfg) : Prop :=
  Marker cd sec (m.c.doc.find (Key.node nd.me sec)) (m.c.doc.find (Key.base sec))
    (m.store.stamps sec) (m.store.configs sec)

/-- A local write moves none of the rows inside CORE but its own, which it may
replace with a newer one. -/
theorem Written.core_rows {c c' : State nd} (hw : Written c w c') :
    (∀ key, (Scope.make .core nd.me).contains key = true → c'.doc.find key = c.doc.find key) ∨
    ((∀ held, c.doc.find w.key = some held → held.stamp < w.stamp) ∧
      ∀ key, (Scope.make .core nd.me).contains key = true →
        c'.doc.find key = if key = w.key then some w else c.doc.find key) := by
  have hkeep : ∀ {mid : State nd}, c.Rescoped mid .core → ∀ key,
      (Scope.make .core nd.me).contains key = true → mid.doc.find key = c.doc.find key := by
    intro mid hr key hk
    rw [hr.doc, Doc.find_retain]
    exact contains_of_core hr.kind hk
  cases hw with
  | same h => exact .inl fun key _ => by rw [h.doc]
  | stores h =>
    refine .inr ⟨(Doc.acceptSigned_stored_iff.mp h.stored).2.1, fun key _ => ?_⟩
    rw [h.doc, Doc.find_of_stored h.stored]
  | narrows _ _ h => exact .inl (hkeep h)
  | retries room _ mid narrow h =>
    refine .inr ⟨?_, fun key hk => ?_⟩
    · intro held hh
      rw [room.1] at hh
      cases hh
    · rw [h.doc, Doc.find_of_stored h.stored, hkeep narrow key hk]

variable {m : Machine nd Cfg}

theorem Machine.Marked.write (h : m.Marked cd sec) {ev : MachineEvent}
    (hl : m.Lands cd sec ev) (ho : m.Offers cd ev w) {c' : State nd} (hw : Written m.c w c') :
    Marked cd sec { m with c := c' } := by
  have hpin : (Scope.make .core nd.me).contains (node nd.me sec) = true :=
    Scope.core_contains_iff.mpr (.inr rfl)
  have hbase : (Scope.make .core nd.me).contains (base sec) = true := Scope.contains_base _ sec
  have hne : base sec ≠ node nd.me sec := base_ne_node sec sec nd.me
  unfold Marked at h ⊢
  rcases hw.core_rows with hsame | ⟨hnew, hrows⟩
  · rw [hsame _ hpin, hsame _ hbase]
    exact h
  obtain ⟨hlb, hlp⟩ := hl w ho hnew
  rw [hrows _ hpin, hrows _ hbase]
  by_cases hk : w.key = base sec
  · rw [if_neg (fun e => hne (e.trans hk).symm), if_pos hk.symm]
    refine h.set_base (fun b hb => ?_) (hlb hk)
    exact hnew b (by rw [hk]; exact hb)
  by_cases hk' : w.key = node nd.me sec
  · rw [if_pos hk'.symm, if_neg (Ne.symm hk)]
    refine h.set_pin (fun p hp => ?_) (hlp hk')
    exact hnew p (by rw [hk']; exact hp)
  · rw [if_neg (Ne.symm hk'), if_neg (Ne.symm hk)]
    exact h

theorem effectiveVersion_ne_unset {cap : Nat} (d : Doc cap) {me : UInt32}
    (h : version (d.find (Key.node me sec)) (d.find (Key.base sec)) = some v) :
    v ≠ unset := by
  have hrow : ∀ key e, d.find key = some e → e.stamp ≠ unset := by
    intro key e he hu
    have hw := Entry.wellFormed_iff.mp (d.wellFormed e (Doc.find_eq_some.mp he).1)
    exact absurd (isUnset_iff.mpr hu) (by simp [hw.2.2.2.2])
  have hpin : ∀ v, (d.find (node me sec)).map Entry.stamp = some v → v ≠ unset := by
    intro v hv
    obtain ⟨p, hp, rfl⟩ := map_eq_some_iff.mp hv
    exact hrow _ p hp
  unfold version at h
  split at h
  · rename_i b hb
    split at h
    · exact some.inj h ▸ hrow _ b hb
    · exact hpin v h
  · exact hpin v h

/-- The store moved only in other sections, or re-seeded one nobody ever wrote. -/
theorem Machine.Marked.of_store {m' : Machine nd Cfg} (h : m.Marked cd sec)
    (hc : m.c.SameTables m'.c) (hs : m'.store.stamps sec = m.store.stamps sec)
    (hv : m.store.stamps sec ≠ unset → m'.store.configs sec = m.store.configs sec) :
    m'.Marked cd sec := by
  unfold Marked at h ⊢
  rw [hc.doc, hs]
  refine ⟨?_, h.unversioned⟩
  intro a cfg ha hver
  rw [hv (effectiveVersion_ne_unset m.c.doc hver)]
  exact h.applied a cfg ha hver

/-- What reconciling a section can do: leave the store alone, or hand the decoded
answer to it under its version. -/
inductive Reconciled (cd : Codec Cfg) (m : Machine nd Cfg) (env : Env) (channelsOk : Bool)
    (sec : UInt16) : Prop
  | left (hc : m.c.SameTables (m.reconcileSection cd env channelsOk sec).c)
      (hs : (m.reconcileSection cd env channelsOk sec).store = m.store)
  | applied (e : Entry) (cfg : Cfg) (v : Stamp) (heff : m.c.doc.effective nd.me sec = some e)
      (hver : m.c.doc.effectiveVersion nd.me sec = some v) (hdec : cd.decode e.payload = some cfg)
      (hwhich : cd.whichPayloadVariant cfg = sec)
      (he : m.reconcileSection cd env channelsOk sec = m.apply cd env channelsOk cfg v)

/-- What the store makes of it: nothing, or the config under its stamp. -/
inductive Applied (cd : Codec Cfg) (m : Machine nd Cfg) (env : Env) (channelsOk : Bool)
    (cfg : Cfg) (v : Stamp) : Prop
  | kept (hst : (m.apply cd env channelsOk cfg v).store.stamps = m.store.stamps)
      (hcf : (m.apply cd env channelsOk cfg v).store.configs = m.store.configs)
      (hle : ConfigStore.configIsValid cd cfg = true →
        v ≤ m.store.stamps (cd.whichPayloadVariant cfg))
  | taken (ht : m.store.Takes (m.apply cd env channelsOk cfg v).store
      (cd.whichPayloadVariant cfg) cfg v)

section
variable (cd m) (env : Env) (channelsOk : Bool)

theorem reconcileSection_reconciled (sec : UInt16) : Reconciled cd m env channelsOk sec := by
  have hleft {c' : State nd} (hc : m.c.SameTables c')
      (h : m.reconcileSection cd env channelsOk sec = ⟨c', m.store⟩) :
      Reconciled cd m env channelsOk sec := by
    apply Reconciled.left
    · rw [h]
      exact hc
    · rw [h]
  have hsame := hleft (.refl m.c)
  have hr := Eq.refl (m.reconcileSection cd env channelsOk sec)
  conv at hr => rhs; unfold reconcileSection
  split at hr
  · rename_i e v heff hver
    split at hr
    · exact hsame hr
    split at hr
    · -- the LoRa section is held for the coordinated apply, and only counted here
      exact hleft (m.c.sameTables_count .sectionsHeld) hr
    split at hr
    · rename_i cfg hdec
      split at hr
      · exact hsame hr
      · rename_i hwhich
        exact .applied e cfg v heff hver hdec (not_not.mp hwhich) hr
    · exact hsame hr
  · exact hsame hr

theorem apply_applied (cfg : Cfg) (v : Stamp) : Applied cd m env channelsOk cfg v := by
  cases mergeConfig_merge cd m.store env.epochMs channelsOk cfg v with
  | refused hv he =>
    apply Applied.kept
    · rw [apply, he]
    · rw [apply, he]
    · intro h
      exact absurd (hv.symm.trans h) Bool.false_ne_true
  | kept hlc hle he =>
    apply Applied.kept
    · rw [apply, he]
    · rw [apply, he]
    · exact fun _ => hle
  | taken s' ht he =>
    apply Applied.taken
    rw [apply, he]
    exact ht

theorem apply_sameTables (cfg : Cfg) (v : Stamp) :
    m.c.SameTables (m.apply cd env channelsOk cfg v).c := by
  unfold apply
  split
  · exact m.c.sameTables_count .sectionsApplied
  · exact m.c.sameTables_count .sectionsKeptLocal
  · exact State.SameTables.refl _

theorem reconcileSection_sameTables (sec : UInt16) :
    m.c.SameTables (m.reconcileSection cd env channelsOk sec).c := by
  cases reconcileSection_reconciled cd m env channelsOk sec with
  | left hc _ => exact hc
  | applied _ cfg v _ _ _ _ he =>
    rw [he]
    exact apply_sameTables cd m env channelsOk cfg v

end

theorem Machine.Marked.of_takes {m' : Machine nd Cfg} {e : Entry} {cfg : Cfg}
    (hlora : sec ≠ loraTag) (hc : m.c.SameTables m'.c) (heff : m.c.doc.effective nd.me sec = some e)
    (hver : m.c.doc.effectiveVersion nd.me sec = some v) (hdec : cd.decode e.payload = some cfg)
    (ht : m.store.Takes m'.store sec cfg v) : m'.Marked cd sec := by
  constructor
  · intro a cfg' ha _ hdec' _ _
    rw [hc.doc] at ha
    rw [show e = a from mem_unique heff ha] at hdec
    rw [ht.value hlora (effectiveVersion_ne_unset m.c.doc hver)]
    exact mem_unique hdec hdec'
  · intro a _ hnone
    rw [hc.doc] at hnone
    exact absurd (hver.symm.trans hnone) nofun

theorem Machine.Marked.reconcile (h : m.Marked cd sec)
    (hlora : sec ≠ loraTag) (env : Env) (channelsOk : Bool) (sec' : UInt16) :
    (m.reconcileSection cd env channelsOk sec').Marked cd sec := by
  cases reconcileSection_reconciled cd m env channelsOk sec' with
  | left hc hs => exact h.of_store hc (by rw [hs]) (fun _ => by rw [hs])
  | applied e cfg v heff hver hdec hwhich he =>
    have hc := apply_sameTables cd m env channelsOk cfg v
    rw [he]
    cases apply_applied cd m env channelsOk cfg v with
    | kept hst hcf _ => exact h.of_store hc (by rw [hst]) (fun _ => by rw [hcf])
    | taken ht =>
      rw [hwhich] at ht
      by_cases hsec : sec = sec'
      · subst hsec
        exact Marked.of_takes hlora hc heff hver hdec ht
      · exact h.of_store hc (ht.stamps sec hsec) (ht.values sec hsec hlora)

theorem mergeEntry_written (c : State nd) (env : Env) (w : Entry) :
    Written c w (c.mergeEntry env w) := by
  have ho := c.sameTables_observe env w.stamp
  cases mergeEntry_merged c env w with
  | stored hst hm =>
    refine .stores ⟨hst, ?_, ?_, ?_⟩ <;> rw [hm]
    · rfl
    · rfl
  | refused _ hm => exact .same (ho.trans hm.sameTables)

theorem Machine.Marked.step (h : m.Marked cd sec) (hlora : sec ≠ loraTag)
    {ev : MachineEvent} (hl : m.Lands cd sec ev) : (m.step cd ev).Marked cd sec := by
  have hput {c' : State nd}
      (ht : m.c.SameTables c' ∨ ∃ w, m.Offers cd ev w ∧ Written m.c w c') :
      Marked cd sec { m with c := c' } := by
    obtain hc | ⟨w, ho, hw⟩ := ht
    · exact h.of_store hc rfl fun _ => rfl
    · exact h.write hl ho hw
  cases ev with
  | merge env w => exact hput (.inr ⟨w, rfl, mergeEntry_written m.c env w⟩)
  | promote env sec' => exact hput (promote_tables ..)
  | pin env sec' => exact hput (pin_tables ..)
  | unpin env sec' => exact hput (unpin_tables ..)
  | reconcile env channelsOk sec' => exact h.reconcile hlora env channelsOk sec'

/-- Right after a reconcile the store is at least at the version of the answer. -/
theorem version_le_of_reconcile {a : Entry} {cfg : Cfg}
    (hlora : sec ≠ loraTag) (ha : m.c.doc.effective nd.me sec = some a)
    (hv : m.c.doc.effectiveVersion nd.me sec = some v) (hdec : cd.decode a.payload = some cfg)
    (hwhich : cd.whichPayloadVariant cfg = sec)
    (hvalid : configIsValid cd cfg = true) (env : Env) (channelsOk : Bool) :
    v ≤ (m.reconcileSection cd env channelsOk sec).store.stamps sec := by
  have htag : configTags.contains sec = true := hwhich ▸ (Bool.and_eq_true_iff.mp hvalid).1
  unfold reconcileSection
  rw [ha, hv]
  simp only
  split
  · rename_i hd
    simp only [sectionIsDocDerived, getConfigStamp, htag, if_true,
      decide_eq_true_eq] at hd
    exact (compare_eq_zero_iff.mp hd).ge
  · rw [hdec]
    simp only
    rw [if_neg (not_not.mpr hwhich)]
    cases apply_applied cd m env channelsOk cfg v with
    | kept hst _ hle =>
      rw [hst, ← hwhich]
      exact hle hvalid
    | taken ht =>
      rw [hwhich] at ht
      exact ht.under.ge

variable (cd) in
/-- **Reconciling leaves the store at the document's answer or at a newer version
of its own**, in every run whose writes land under versions the store does not
carry yet. -/
theorem reconcile_sound (env₀ : Env) (store : ConfigStore Cfg) (hlora : sec ≠ loraTag)
    (es : List MachineEvent)
    (hok : Guarded (Machine.step cd) (Machine.Lands cd sec) ⟨State.init nd env₀, store⟩ es)
    (env : Env) (channelsOk : Bool) {a : Entry} {cfg : Cfg} :
    let m := (run (Machine.step cd) ⟨State.init nd env₀, store⟩ es).reconcileSection cd env
      channelsOk sec
    m.c.doc.effective nd.me sec = some a → cd.decode a.payload = some cfg →
    cd.whichPayloadVariant cfg = sec → ConfigStore.configIsValid cd cfg = true →
      (m.c.doc.effectiveVersion nd.me sec).getD Stamp.unset < m.store.stamps sec ∨
        m.store.configs sec = cfg := by
  have hinit : Marked cd sec ⟨State.init nd env₀, store⟩ :=
    ⟨fun _ _ ha => (by cases ha), fun _ ha => (by cases ha)⟩
  have hrun := run_keeps (Marked cd sec) hinit (fun _ _ h hl => h.step hlora hl) hok
  generalize run (step cd) ⟨State.init nd env₀, store⟩ es = m at hrun ⊢
  intro m' ha hdec hwhich hvalid
  have hmark : m'.Marked cd sec := hrun.reconcile hlora env channelsOk sec
  have hdoc : m'.c.doc = m.c.doc := (reconcileSection_sameTables cd m env channelsOk sec).doc
  cases hv : m'.c.doc.effectiveVersion nd.me sec with
  | none => exact .inl (hmark.unversioned a ha hv)
  | some v =>
    have hle : v ≤ m'.store.stamps sec :=
      version_le_of_reconcile hlora (hdoc ▸ ha) (hdoc ▸ hv) hdec hwhich hvalid env channelsOk
    rcases hle.lt_or_eq with hlt | heq
    · exact .inl hlt
    · exact .inr (hmark.applied a cfg ha (heq ▸ hv) hdec hwhich hvalid)

end Reconcile

/-- A config is its own encoding, and its first byte says which section it is. -/
def sampleCodec : Codec (List UInt8) where
  decode bytes := if bytes = [] then none else some bytes
  encode := some
  whichPayloadVariant cfg := (cfg.head?.getD 0).toUInt16
  fieldsValid _ := true
  seedPosition := id
  normalizeLora := id

/-- A node that was never configured. -/
def sampleMachine : Machine sampleNode (List UInt8) :=
  ⟨State.init sampleNode (sampleEnv 0), ⟨fun _ => [], fun _ => Stamp.unset, Hlc.zero⟩⟩

def baseAt200 : Entry := ⟨Key.base deviceTag, ⟨200, 0, 2⟩, false, [1, 7], none⟩
def pinAt150 : Entry := ⟨Key.node 1 deviceTag, ⟨150, 0, 2⟩, false, [1, 9], none⟩

theorem reconcile_sound_base :
    let m := (run (Machine.step sampleCodec) sampleMachine
      [.merge (sampleEnv 0) baseAt200]).reconcileSection sampleCodec (sampleEnv 0) true deviceTag
    (m.c.doc.effectiveVersion 1 deviceTag).getD Stamp.unset < m.store.stamps deviceTag ∨
      m.store.configs deviceTag = [1, 7] := by
  refine reconcile_sound sampleCodec (a := baseAt200) (sampleEnv 0) sampleMachine.store
    (by decide) [.merge (sampleEnv 0) baseAt200] (guarded_cons.mpr ⟨?_, guarded_nil⟩)
    (sampleEnv 0) true (by decide +kernel) (by decide) (by decide) (by decide)
  rintro w rfl _
  refine ⟨fun _ => ?_, fun h => absurd h (by decide)⟩
  exact ⟨by decide, .inl (by decide)⟩

/-- A pin older than the base that was already applied becomes the answer under the
version the store carries, and never reaches it. -/
theorem reconcile_misses_pin :
    let m := (run (Machine.step sampleCodec) sampleMachine
      [.merge (sampleEnv 0) baseAt200, .reconcile (sampleEnv 0) true deviceTag,
        .merge (sampleEnv 0) pinAt150]).reconcileSection sampleCodec (sampleEnv 0) true deviceTag
    m.c.doc.effective 1 deviceTag = some pinAt150 ∧
    sampleCodec.decode pinAt150.payload = some [1, 9] ∧
    sampleCodec.whichPayloadVariant [1, 9] = deviceTag ∧
    ConfigStore.configIsValid sampleCodec [1, 9] = true ∧
    ¬ (m.c.doc.effectiveVersion 1 deviceTag).getD Stamp.unset < m.store.stamps deviceTag ∧
    m.store.configs deviceTag = [1, 7] := by
  decide +kernel

end Zephyrtastic.Cluster
