import Mathlib.Order.Bounds.Basic
import Zephyrtastic.Cluster.Ingest

/-!
# What the document answers

The version of a section, the newest stamp of a scope, whether a row is worth
fetching, and what is left of all three when a claim is narrowed.
-/

namespace Zephyrtastic.Cluster

open Key List Scope

variable (cap : Nat) (rows : List Entry)

/-- `meshtastic_cluster_doc_find` on the bare table. -/
def findRows (key : Key) : Option Entry :=
  if (docPos key rows).2 then rows[(docPos key rows).1]? else none

/-- `meshtastic_cluster_doc_want` on the bare table. -/
def wantRows (mine : Scope) (key : Key) (stamp : Stamp) : Want :=
  if !keyIsValid key || stamp.isUnset then .no
  else if !mine.contains key then .no
  else match findRows rows key with
    | some e => if stamp.newer e.stamp then .yes else .no
    | none => if rows.length < cap then .yes else .noSpace

theorem Doc.want_eq {cap : Nat} (d : Doc cap) (mine : Scope) (key : Key) (stamp : Stamp) :
    d.want mine key stamp = wantRows cap d.rows mine key stamp := rfl

/-- `meshtastic_cluster_doc_accept`: a write without a signature. -/
def accept (key : Key) (stamp : Stamp) (tombstone : Bool)
    (payload : List UInt8) : Accept × List Entry :=
  acceptRows cap rows ⟨key, stamp, tombstone, payload, none⟩

theorem accept_of_refused {key : Key} {stamp : Stamp} (cap : Nat) (rows : List Entry)
    (payload : List UInt8) (h : (!keyIsValid key || stamp.isUnset) = true) :
    (accept cap rows key stamp false payload).1 = .invalid := by
  have hw : (⟨key, stamp, false, payload, none⟩ : Entry).wellFormed = false := by
    rw [Bool.eq_false_iff, ne_eq, Entry.wellFormed_iff]
    rintro ⟨-, -, hk, -, hs⟩
    simp [hk, hs] at h
  simp [accept, acceptRows, hw]

/-- **A row is wanted exactly when its entry would be stored**, whatever stands in
the table: the two ask the same position the same questions. -/
theorem want_agrees_with_accept (cap : Nat) (rows : List Entry) (mine : Scope) (key : Key)
    (stamp : Stamp) (payload : List UInt8)
    (hlen : 1 ≤ payload.length ∧ payload.length ≤ payloadMax) :
    (mine.contains key = false → wantRows cap rows mine key stamp = .no) ∧
    (mine.contains key = true →
      (wantRows cap rows mine key stamp = .yes ↔
        (accept cap rows key stamp false payload).1 = .stored) ∧
      (wantRows cap rows mine key stamp = .noSpace ↔
        (accept cap rows key stamp false payload).1 = .noSpace) ∧
      (wantRows cap rows mine key stamp = .no ↔
        (accept cap rows key stamp false payload).1 = .stale ∨
          (accept cap rows key stamp false payload).1 = .invalid)) := by
  constructor
  · intro hout
    simp [wantRows, hout]
  intro hin
  by_cases hbad : (!keyIsValid key || stamp.isUnset) = true
  · simp [wantRows, hbad, accept_of_refused cap rows payload hbad]
  have hw : (⟨key, stamp, false, payload, none⟩ : Entry).wellFormed = true := by
    have hne : payload ≠ [] := ne_nil_of_length_pos hlen.1
    refine Entry.wellFormed_iff.mpr ⟨hlen.2, by simpa using hne, ?_, fun _ => rfl, ?_⟩
    · simp_all
    · simp_all
  obtain ⟨before, after, hr, hi, -, ⟨hf, e, rest, rfl, -⟩ | ⟨hf, -⟩⟩ := docPos_split key rows
  · have hat : rows[before.length]? = some e := by rw [hr]; simp
    by_cases hn : stamp.newer e.stamp = true <;>
      simp [wantRows, findRows, accept, acceptRows, hbad, hin, hw, hf, hi, hat, hn]
  · by_cases hfull : rows.length < cap
    · simp [wantRows, findRows, accept, acceptRows, hbad, hin, hw, hf, hfull, not_le.mpr hfull]
    · simp [wantRows, findRows, accept, acceptRows, hbad, hin, hw, hf, hfull, not_lt.mp hfull]

/-- A full table of one row, and a row of another section. -/
theorem want_agrees_with_accept_full :
    (1 ≤ [(7 : UInt8)].length ∧ [(7 : UInt8)].length ≤ payloadMax) ∧
    (wantRows 1 [⟨Key.base 1, ⟨1, 0, 2⟩, false, [7], none⟩] (Scope.make .full 0) (Key.base 2)
        ⟨3, 0, 2⟩ = .noSpace ↔
      (accept 1 [⟨Key.base 1, ⟨1, 0, 2⟩, false, [7], none⟩] (Key.base 2) ⟨3, 0, 2⟩ false
        [7]).1 = .noSpace) :=
  ⟨by decide, ((want_agrees_with_accept 1 _ _ _ _ [7] (by decide)).2 rfl).2.1⟩

/-- The stamps of the rows that say something of a section for a node. -/
def Doc.layerStamps {cap : Nat} (d : Doc cap) (nodeId : UInt32) (sec : UInt16) : Set Stamp :=
  {s | ∃ e ∈ d.rows, (e.key = Key.node nodeId sec ∨ e.key = Key.base sec) ∧ e.stamp = s}

def Doc.scopeStamps {cap : Nat} (d : Doc cap) (scope : Scope) : Set Stamp :=
  {s | ∃ e ∈ d.inScope scope, e.stamp = s}

theorem newest_fold (s : Stamp) : IsGreatest {t | t = s ∨ ∃ e ∈ rows, e.stamp = t}
      (rows.foldl (fun out e => if e.stamp.newer out then e.stamp else out) s) := by
  induction rows generalizing s with
  | nil => simp [IsGreatest, upperBounds]
  | cons e rest ih =>
    have hmax : (if e.stamp.newer s then e.stamp else s) = max s e.stamp := by
      by_cases h : s < e.stamp
      · rw [if_pos (Stamp.newer_iff.mpr h), max_eq_right h.le]
      · rw [if_neg (mt Stamp.newer_iff.mp h), max_eq_left (not_lt.mp h)]
    rw [foldl_cons, hmax]
    obtain ⟨hmem, hle⟩ := ih (max s e.stamp)
    have htop := hle (.inl rfl)
    constructor
    · rcases hmem with h | ⟨x, hx, h⟩
      · rcases max_choice s e.stamp with hs | he
        · exact .inl (h.trans hs)
        · exact .inr ⟨e, mem_cons_self, (h.trans he).symm⟩
      · exact .inr ⟨x, mem_cons_of_mem _ hx, h⟩
    · rintro t (rfl | ⟨x, hx, rfl⟩)
      · exact (le_max_left _ _).trans htop
      · rcases mem_cons.mp hx with rfl | hx
        · exact (le_max_right _ _).trans htop
        · exact hle (.inr ⟨x, hx, rfl⟩)

section Versions
variable {cap : Nat} (d : Doc cap) (nodeId : UInt32) (sec : UInt16)

theorem mem_layerStamps (s : Stamp) : s ∈ d.layerStamps nodeId sec ↔
    (∃ e, d.find (node nodeId sec) = some e ∧ e.stamp = s) ∨
      ∃ e, d.find (base sec) = some e ∧ e.stamp = s := by
  simp only [Doc.find_eq_some]
  constructor
  · rintro ⟨e, he, hk | hk, hs⟩
    · exact .inl ⟨e, ⟨he, hk⟩, hs⟩
    · exact .inr ⟨e, ⟨he, hk⟩, hs⟩
  · rintro (⟨e, ⟨he, hk⟩, hs⟩ | ⟨e, ⟨he, hk⟩, hs⟩)
    · exact ⟨e, he, .inl hk, hs⟩
    · exact ⟨e, he, .inr hk, hs⟩

/-- A base row that stands alone has to beat the unset stamp to be seen. -/
def Doc.BaseSeen : Prop :=
  d.find (Key.node nodeId sec) = none → ∀ e, d.find (Key.base sec) = some e →
    Stamp.unset < e.stamp

variable {d nodeId sec}

theorem effectiveVersion_cases (h : d.BaseSeen nodeId sec) :
    (d.effectiveVersion nodeId sec = none ∧ d.layerStamps nodeId sec = ∅) ∨
      ∃ v, d.effectiveVersion nodeId sec = some v ∧ IsGreatest (d.layerStamps nodeId sec) v := by
  have hmem := mem_layerStamps d nodeId sec
  cases hn : d.find (node nodeId sec) with
  | none =>
    cases hb : d.find (base sec) with
    | none =>
      refine .inl ⟨by simp [Doc.effectiveVersion, hn, hb], Set.eq_empty_iff_forall_notMem.mpr ?_⟩
      simp [hmem, hn, hb]
    | some b =>
      have hset := Stamp.newer_iff.mpr (h hn b hb)
      refine .inr ⟨b.stamp, by simp [Doc.effectiveVersion, hn, hb, hset], ?_⟩
      simp [IsGreatest, upperBounds, hmem, hn, hb]
  | some n =>
    cases hb : d.find (base sec) with
    | none =>
      refine .inr ⟨n.stamp, by simp [Doc.effectiveVersion, hn, hb], ?_⟩
      simp [IsGreatest, upperBounds, hmem, hn, hb]
    | some b =>
      by_cases hlt : n.stamp < b.stamp
      · refine .inr ⟨b.stamp, by simp [Doc.effectiveVersion, hn, hb, Stamp.newer_iff, hlt], ?_⟩
        simp [IsGreatest, upperBounds, hmem, hn, hb, or_imp, forall_and, hlt.le]
      · refine .inr ⟨n.stamp, by simp [Doc.effectiveVersion, hn, hb, Stamp.newer_iff, hlt], ?_⟩
        simp [IsGreatest, upperBounds, hmem, hn, hb, or_imp, forall_and, not_lt.mp hlt]

theorem layerStamps_of_effective (h : (d.effective nodeId sec).isSome) :
    (d.layerStamps nodeId sec).Nonempty := by
  cases hn : d.find (node nodeId sec) with
  | some n => exact ⟨n.stamp, (mem_layerStamps d nodeId sec _).mpr (.inl ⟨n, hn, rfl⟩)⟩
  | none =>
    cases hb : d.find (base sec) with
    | some b => exact ⟨b.stamp, (mem_layerStamps d nodeId sec _).mpr (.inr ⟨b, hb, rfl⟩)⟩
    | none => simp [Doc.effective, Doc.effective.live, hn, hb] at h

theorem maxStampScoped_greatest {scope : Scope}
    (h : ∃ s ∈ d.scopeStamps scope, Stamp.unset < s) :
    IsGreatest (d.scopeStamps scope) (d.maxStampScoped scope) := by
  obtain ⟨hmem, hle⟩ := newest_fold (d.inScope scope) Stamp.unset
  obtain ⟨s, ⟨e, he, rfl⟩, hs⟩ := h
  constructor
  · rcases hmem with h0 | hrow
    · exact absurd (hle (.inr ⟨e, he, rfl⟩)) (not_le.mpr (by rw [h0]; exact hs))
    · exact hrow
  · exact fun t ht => hle (.inr ht)

theorem baseSeen_of_exact
    (h : (d.effectiveVersion nodeId sec).isSome ↔ (d.layerStamps nodeId sec).Nonempty) :
    d.BaseSeen nodeId sec := by
  intro hn e he
  have hsome := h.mpr ⟨e.stamp, (mem_layerStamps d nodeId sec _).mpr (.inr ⟨e, he, rfl⟩)⟩
  by_contra hle
  simp [Doc.effectiveVersion, hn, he, mt Stamp.newer_iff.mp hle] at hsome

theorem unset_lt_of_greatest {scope : Scope}
    (h : IsGreatest (d.scopeStamps scope) (d.maxStampScoped scope)) :
    ∃ s ∈ d.scopeStamps scope, Stamp.unset < s := by
  refine ⟨_, h.1, lt_of_le_of_ne ((newest_fold (d.inScope scope) Stamp.unset).2 (.inl rfl)) ?_⟩
  obtain ⟨e, he, hs⟩ := h.1
  have hset := (Entry.wellFormed_iff.mp (d.wellFormed e (mem_filter.mp he).1)).2.2.2.2
  intro heq
  rw [hs, ← heq] at hset
  exact absurd hset (by decide)

/-- **The version of a section is the newest stamp of its layers exactly where a
base row that stands alone beats the unset stamp, and the newest stamp of a scope
is a row's exactly where some row does.** -/
theorem effectiveVersion_exact {cap : Nat} (d : Doc cap) (nodeId : UInt32) (sec : UInt16)
    (scope : Scope) :
    ((((d.effectiveVersion nodeId sec).isSome ↔ (d.layerStamps nodeId sec).Nonempty) ∧
      (∀ v, d.effectiveVersion nodeId sec = some v →
        IsGreatest (d.layerStamps nodeId sec) v) ∧
      ((d.effective nodeId sec).isSome → (d.effectiveVersion nodeId sec).isSome)) ↔
        d.BaseSeen nodeId sec) ∧
    (((d.scopeStamps scope).Nonempty →
        IsGreatest (d.scopeStamps scope) (d.maxStampScoped scope)) ↔
      ((d.scopeStamps scope).Nonempty → ∃ s ∈ d.scopeStamps scope, Stamp.unset < s)) := by
  refine ⟨⟨fun h => baseSeen_of_exact h.1, fun hbase => ?_⟩,
    fun h hne => unset_lt_of_greatest (h hne), fun h hne => maxStampScoped_greatest (h hne)⟩
  have hiff : (d.effectiveVersion nodeId sec).isSome ↔ (d.layerStamps nodeId sec).Nonempty := by
    rcases effectiveVersion_cases hbase with ⟨hv, hs⟩ | ⟨v, hv, hs⟩
    · simp [hv, hs]
    · simp [hv, hs.nonempty]
  refine ⟨hiff, fun v hv => ?_, fun h => hiff.mpr (layerStamps_of_effective h)⟩
  rcases effectiveVersion_cases hbase with ⟨hn, -⟩ | ⟨v', hv', hs⟩
  · simp [hn] at hv
  · rw [hv'] at hv
    exact Option.some.inj hv ▸ hs

end Versions

/-- A document after one accepted base row. -/
def baseDoc (physicalMs : Int64) : Doc 1 :=
  ((Doc.init 1).acceptSigned ⟨Key.base 1, ⟨physicalMs, 0, 2⟩, false, [7], none⟩).2

/-- A base row from before the epoch is in force and has no version. -/
theorem effectiveVersion_before_epoch :
    (baseDoc (-1)).effective 5 1 = some ⟨Key.base 1, ⟨-1, 0, 2⟩, false, [7], none⟩ ∧
    (baseDoc (-1)).effectiveVersion 5 1 = none ∧
    (baseDoc (-1)).inScope (Scope.make .full 0) ≠ [] ∧
    (baseDoc (-1)).maxStampScoped (Scope.make .full 0) = Stamp.unset := by
  decide +kernel

/-- The loop of `meshtastic_cluster_doc_retain`: the entries of the scope move down
to `keep`, and what is left behind them is cleared. -/
def retainLoop (scope : Scope) : Nat → Nat → Nat → List Entry → Nat × List Entry
  | 0, _, keep, entries => (keep, entries)
  | n + 1, i, keep, entries =>
    match entries[i]? with
    | none => (keep, entries)
    | some e =>
      if scope.contains e.key then
        retainLoop scope n (i + 1) (keep + 1) (if keep ≠ i then entries.set keep e else entries)
      else retainLoop scope n (i + 1) keep entries

def retainRows (scope : Scope) (rows : List Entry) : List Entry :=
  let r := retainLoop scope rows.length 0 0 rows
  r.2.take r.1

/-- Behind the kept entries stand as many old ones as were dropped. -/
theorem retainLoop_take (scope : Scope) (kept old rest : List Entry) :
    (retainLoop scope rest.length (kept.length + old.length) kept.length
        (kept ++ old ++ rest)).2.take
      (retainLoop scope rest.length (kept.length + old.length) kept.length
        (kept ++ old ++ rest)).1 = kept ++ rest.filter fun e => scope.contains e.key := by
  induction rest generalizing kept old with
  | nil => simp [retainLoop]
  | cons e rest ih =>
    rw [length_cons, retainLoop]
    by_cases hin : scope.contains e.key = true
    · cases old with
      | nil => simpa [hin] using ih (kept ++ [e]) []
      | cons o old =>
        have hlen : (kept ++ [e]).length + (old ++ [e]).length =
            kept.length + (o :: old).length + 1 := by
          simp only [length_append, length_cons, length_nil]
          omega
        have h := ih (kept ++ [e]) (old ++ [e])
        rw [hlen] at h
        simpa [hin] using h
    · simpa [hin, Nat.add_assoc] using ih kept (old ++ [e])

theorem retainRows_eq (scope : Scope) (rows : List Entry) :
    retainRows scope rows = rows.filter fun e => scope.contains e.key :=
  retainLoop_take scope [] [] rows

/-- Every key a node narrowed to its own claim may hold. -/
def coreKeys (me : UInt32) : List Key :=
  shareableSections.map Key.base ++ shareableSections.map (Key.node me)

theorem mem_coreKeys {me : UInt32} {key : Key} (hvalid : keyIsValid key = true)
    (hshare : sectionShareable key.sec = true)
    (hin : (make .core me).contains key = true) : key ∈ (coreKeys me).toFinset := by
  have hsec : key.sec ∈ shareableSections := by simpa [sectionShareable] using hshare
  rw [mem_toFinset, coreKeys, mem_append, mem_map, mem_map]
  by_cases hb : key.layer = layerBase
  · simp only [keyIsValid, hb, if_true, decide_eq_true_eq] at hvalid
    exact .inl ⟨key.sec, hsec, Key.ext hb.symm hvalid.symm rfl⟩
  by_cases hl : key.layer = layerNode
  · have ho := (core_contains_iff.mp hin).resolve_left hb
    exact .inr ⟨key.sec, hsec, Key.ext hl.symm ho.symm rfl⟩
  · simp [keyIsValid, hb, hl] at hvalid

theorem card_coreKeys (me : UInt32) :
    (coreKeys me).toFinset.card ≤ 2 * shareableSections.length := by
  have h := (coreKeys me).toFinset_card_le
  have hlen : (coreKeys me).length = 2 * shareableSections.length := by
    simp only [coreKeys, length_append, length_map]
    omega
  omega

/-- **A node narrowed to its own claim has room for all of it** and goes on to run
what it ran. -/
theorem core_claim_fits {cap : Nat} (d : Doc cap) (me : UInt32)
    (hcap : 2 * shareableSections.length ≤ cap)
    (hshare : ∀ e ∈ d.rows, sectionShareable e.key.sec = true) :
    let d' := (d.retain (Scope.make .core me)).2
    d'.count ≤ 2 * shareableSections.length ∧
    d'.rows = retainRows (Scope.make .core me) d.rows ∧
    d'.rows = (d.rows.filter fun e => (Scope.make .core me).contains e.key) ∧
    (∀ sec, d'.effective me sec = d.effective me sec ∧
      d'.effectiveVersion me sec = d.effectiveVersion me sec) ∧
    ∀ mine key stamp, sectionShareable key.sec = true →
      (Scope.make .core me).contains key = true → d'.want mine key stamp ≠ .noSpace := by
  intro d'
  have hkeys : ∀ e ∈ d'.rows, e.key ∈ (coreKeys me).toFinset := by
    intro e he
    obtain ⟨hmem, hin⟩ := mem_filter.mp he
    exact mem_coreKeys (Entry.wellFormed_iff.mp (d.wellFormed e hmem)).2.2.1 (hshare e hmem) hin
  have hcard := card_coreKeys me
  refine ⟨(d'.sorted.length_le_card hkeys).trans hcard, (retainRows_eq _ _).symm, rfl,
    fun sec => ?_, fun mine key stamp hs hin => ?_⟩
  · have hnode : d'.find (node me sec) = d.find (node me sec) :=
      d.find_retain (core_contains_iff.mpr (.inr rfl))
    have hbase : d'.find (base sec) = d.find (base sec) :=
      d.find_retain (contains_base _ sec)
    simp only [Doc.effective, Doc.effectiveVersion, hnode, hbase, and_self]
  · -- a valid key of the claim that is not in the table leaves one of its slots free
    have hroom : keyIsValid key = true → d'.find key = none → d'.count < cap := by
      intro hvalid hnone
      have hlt := d'.sorted.length_lt_card hkeys (mem_coreKeys hvalid hs hin)
        (Doc.find_eq_none.mp hnone)
      exact hlt.trans_le (hcard.trans hcap)
    unfold Doc.want
    cases hvalid : keyIsValid key <;> cases stamp.isUnset <;> cases mine.contains key <;>
      cases hf : d'.find key <;> simp_all
    split <;> simp

/-- A table with one row of another node, which the narrowing drops. -/
def otherDoc : Doc 14 :=
  ((Doc.init 14).acceptSigned ⟨Key.node 9 loraTag, ⟨3, 0, 2⟩, false, [7], none⟩).2

theorem core_claim_fits_other : otherDoc.count = 1 ∧
    (otherDoc.retain (Scope.make .core 5)).2.want (Scope.make .core 5) (Key.node 5 loraTag)
      ⟨4, 0, 2⟩ ≠ .noSpace :=
  ⟨by decide +kernel, (core_claim_fits otherDoc 5 (by decide) (by decide +kernel)).2.2.2.2 _ _ _
    rfl rfl⟩

end Zephyrtastic.Cluster
