import Zephyrtastic.Cluster.State

/-!
# The declared scope, and narrowing it

A node that cannot hold what it claims narrows the claim and drops what falls
outside it in the same step, so that the held set never outgrows the declared
one.
-/

namespace Zephyrtastic.Cluster

open State

section Claim
variable {nd : Node}
variable (c : State nd)

/-- Abandon the exchange in both directions. -/
@[simp] def State.dropExchange : State nd :=
  { c.pullReset.fragReset with vecDest := 0, entDest := 0, entKeys := [] }

/-- Change the claim first, then drop the rows outside it. -/
def State.scopeSet (kind : ScopeKind) (pinned : Bool) : State nd :=
  let c := { c with scopeKind := kind, scopePinned := pinned }
  let kept := c.doc.retain c.myScope
  let c := { c with
    doc := kept.2
    stats := c.stats.add .entriesEvicted (UInt32.ofNat kept.1.length) }
  if kept.1.length > 0 then c.dropExchange else c

/-- Narrow the claim because the table could not hold something we wanted. -/
def State.demote : State nd :=
  if c.scopePinned ∨ c.scopeKind = .core then c
  else (c.scopeSet .core false).count .scopeDemotions

/-- `meshtastic_cluster_scope_select`; the claim stands when it is already that. -/
def State.scopeSelect (choice : ScopeChoice) : State nd :=
  if c.scopeKind = choice.claim.1 ∧ c.scopePinned = choice.claim.2 then c
  else c.scopeSet choice.claim.1 choice.claim.2

/-- `meshtastic_cluster_reset`: forget the document and every verdict about it,
and go back to the compiled claim. -/
def State.reset : State nd :=
  let c := { c with
    doc := c.doc.clear.2
    scopeKind := nd.compiledScope.1
    scopePinned := nd.compiledScope.2
    stats := fun k =>
      if k = Counter.scopeDemotions ∨ k = Counter.entriesEvicted then 0 else c.stats k
    peers := PeerTable.empty nd.peerSlots }
  { c.dropExchange with pushKeys := [] }

/-- Every row lies inside the claim. -/
def State.Claimed : Prop := ∀ e ∈ c.doc.rows, c.myScope.contains e.key = true

variable {c c' : State nd}

theorem myScope_congr (h : c'.scopeKind = c.scopeKind) : c'.myScope = c.myScope := by
  simp only [myScope, h]

section
variable (c) (kind : ScopeKind) (pinned : Bool)

theorem scopeSet_scopeKind : (c.scopeSet kind pinned).scopeKind = kind := by
  simp only [scopeSet]
  split <;> rfl

theorem scopeSet_doc :
    (c.scopeSet kind pinned).doc = (c.doc.retain (c.scopeSet kind pinned).myScope).2 := by
  simp only [scopeSet]
  split <;> rfl

end

/-- The document, the claim and the peer table are untouched. -/
structure State.SameTables (c c' : State nd) : Prop where
  doc : c'.doc = c.doc
  kind : c'.scopeKind = c.scopeKind
  pinned : c'.scopePinned = c.scopePinned
  peers : c'.peers = c.peers

/-- One write was stored, under the same claim. -/
structure State.Stores (c c' : State nd) (w : Entry) : Prop where
  stored : (c.doc.acceptSigned w).1 = .stored
  doc : c'.doc = (c.doc.acceptSigned w).2
  kind : c'.scopeKind = c.scopeKind
  peers : c'.peers = c.peers

/-- The claim was set and the rows outside it dropped. -/
structure State.Rescoped (c c' : State nd) (kind : ScopeKind) : Prop where
  kind : c'.scopeKind = kind
  doc : c'.doc = (c.doc.retain c'.myScope).2
  peers : c'.peers = c.peers

theorem State.SameTables.refl (c : State nd) : c.SameTables c := ⟨rfl, rfl, rfl, rfl⟩

variable {c'' : State nd}

theorem State.SameTables.trans (h : c.SameTables c') (h' : c'.SameTables c'') : c.SameTables c'' :=
  ⟨h'.doc.trans h.doc, h'.kind.trans h.kind, h'.pinned.trans h.pinned, h'.peers.trans h.peers⟩

/-- The clock is untouched as well. -/
structure State.Quiet (c c' : State nd) : Prop extends c.SameTables c' where
  clock : c'.hlc = c.hlc

theorem State.Quiet.refl (c : State nd) : c.Quiet c := ⟨SameTables.refl c, rfl⟩

theorem State.Quiet.trans (h : c.Quiet c') (h' : c'.Quiet c'') : c.Quiet c'' :=
  ⟨h.toSameTables.trans h'.toSameTables, h'.clock.trans h.clock⟩

theorem State.sameTables_count (c : State nd) (k : Counter) : c.SameTables (c.count k) :=
  ⟨rfl, rfl, rfl, rfl⟩

theorem State.sameTables_pullReset (c : State nd) : c.SameTables c.pullReset :=
  ⟨rfl, rfl, rfl, rfl⟩

variable {w : Entry}

theorem State.Stores.of_same (h : c.SameTables c') (h' : c'.Stores c'' w) : c.Stores c'' w :=
  ⟨h.doc ▸ h'.stored, h.doc ▸ h'.doc, h'.kind.trans h.kind, h'.peers.trans h.peers⟩

theorem State.Stores.then_same (h : c.Stores c' w) (h' : c'.SameTables c'') : c.Stores c'' w :=
  ⟨h.stored, h'.doc.trans h.doc, h'.kind.trans h.kind, h'.peers.trans h.peers⟩

variable {kind : ScopeKind}

theorem State.Rescoped.of_same (h : c.SameTables c')
    (h' : c'.Rescoped c'' kind) : c.Rescoped c'' kind :=
  ⟨h'.kind, h.doc ▸ h'.doc, h'.peers.trans h.peers⟩

theorem State.Rescoped.then_same (h : c.Rescoped c' kind)
    (h' : c'.SameTables c'') : c.Rescoped c'' kind :=
  ⟨h'.kind.trans h.kind, by rw [h'.doc, h.doc, myScope_congr h'.kind], h'.peers.trans h.peers⟩

theorem scopeSet_rescoped (c : State nd) (kind : ScopeKind) (pinned : Bool) :
    c.Rescoped (c.scopeSet kind pinned) kind := by
  refine ⟨scopeSet_scopeKind c kind pinned, scopeSet_doc c kind pinned, ?_⟩
  simp only [scopeSet]
  split <;> rfl

/-- The claim is pinned, or already narrowed. -/
def State.Fixed (c : State nd) : Prop := c.scopePinned = true ∨ c.scopeKind = .core

theorem demote_fixed (h : c.Fixed) : c.demote = c := if_pos h

theorem demote_cases (c : State nd) : c.demote = c ∨ ¬ c.Fixed ∧ c.Rescoped c.demote .core := by
  by_cases h : c.Fixed
  · exact .inl (demote_fixed h)
  refine .inr ⟨h, ?_⟩
  have he : c.demote = (c.scopeSet .core false).count .scopeDemotions := if_neg h
  rw [he]
  exact (scopeSet_rescoped c .core false).then_same (sameTables_count _ _)

theorem State.Claimed.of_same (h : c.Claimed) (h' : c.SameTables c') : c'.Claimed := by
  intro e he
  rw [myScope_congr h'.kind]
  exact h e (h'.doc ▸ he)

theorem State.Rescoped.claimed (h : c.Rescoped c' kind) : c'.Claimed := by
  intro e he
  rw [h.doc] at he
  exact (List.mem_filter.mp he).2

theorem State.Claimed.stores (h : c.Claimed) (h' : c.Stores c' w)
    (hw : c.myScope.contains w.key = true) : c'.Claimed := by
  intro e he
  rw [myScope_congr h'.kind]
  have hf : c'.doc.find e.key = some e := Doc.find_eq_some.mpr ⟨he, rfl⟩
  rw [h'.doc, Doc.find_of_stored h'.stored] at hf
  by_cases hk : e.key = w.key
  · rw [hk]
    exact hw
  · rw [if_neg hk] at hf
    exact h e (Doc.find_eq_some.mp hf).1

end Claim

end Zephyrtastic.Cluster
