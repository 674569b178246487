import Mathlib.Data.Prod.Lex

/-!
# Keys and scopes of the cluster document

A key names one section at one layer. A scope is the set of keys a node claims
to track, and `Scope.contains` is its one membership rule.
-/

namespace Zephyrtastic.Cluster

def layerBase : UInt8 := 0
def layerNode : UInt8 := 1

/-- The first section number of the private range. -/
def sectionPrivate : UInt16 := 0x100
def sectionFw : UInt16 := 0x100

def sectionIsPrivate (sec : UInt16) : Bool := decide (sec ≥ sectionPrivate)

/-- `(layer, node_id, section)`. The layer keeps its byte: an unknown one can
arrive off the air and is refused by `keyIsValid`. -/
@[ext] structure Key where
  layer : UInt8
  nodeId : UInt32
  sec : UInt16
  deriving Repr

namespace Key

def base (sec : UInt16) : Key := ⟨layerBase, 0, sec⟩
def node (nodeId : UInt32) (sec : UInt16) : Key := ⟨layerNode, nodeId, sec⟩

/-- Total order over keys: layer, then node, then section. -/
def cmp (a b : Key) : Int :=
  if a.layer ≠ b.layer then (a.layer.toNat : Int) - (b.layer.toNat : Int)
  else if a.nodeId ≠ b.nodeId then (if a.nodeId < b.nodeId then -1 else 1)
  else (a.sec.toNat : Int) - (b.sec.toNat : Int)

def rank (k : Key) : Nat ×ₗ Nat ×ₗ Nat :=
  toLex (k.layer.toNat, toLex (k.nodeId.toNat, k.sec.toNat))

theorem rank_injective : Function.Injective rank := by
  rintro ⟨l, n, s⟩ ⟨l', n', s'⟩ h
  have hl : l.toNat = l'.toNat := congrArg (fun x => (ofLex x).1) h
  have hn : n.toNat = n'.toNat := congrArg (fun x => (ofLex (ofLex x).2).1) h
  have hs : s.toNat = s'.toNat := congrArg (fun x => (ofLex (ofLex x).2).2) h
  rw [UInt8.toNat_inj.mp hl, UInt32.toNat_inj.mp hn, UInt16.toNat_inj.mp hs]

instance : LinearOrder Key := LinearOrder.lift' rank rank_injective

theorem lt_iff {a b : Key} : a < b ↔ a.layer.toNat < b.layer.toNat ∨
    a.layer.toNat = b.layer.toNat ∧ (a.nodeId.toNat < b.nodeId.toNat ∨
      a.nodeId.toNat = b.nodeId.toNat ∧ a.sec.toNat < b.sec.toNat) := by
  change rank a < rank b ↔ _
  rw [rank, rank, Prod.Lex.toLex_lt_toLex, Prod.Lex.toLex_lt_toLex]

theorem cmp_cases (a b : Key) :
    (cmp a b < 0 ∧ a < b) ∨ (cmp a b = 0 ∧ a = b) ∨ (0 < cmp a b ∧ b < a) := by
  have hl := @UInt8.toNat_inj a.layer b.layer
  have hn := @UInt32.toNat_inj a.nodeId b.nodeId
  have hs := @UInt16.toNat_inj a.sec b.sec
  simp only [cmp, lt_iff, Key.ext_iff, ← hl, ← hn, ← hs, ne_eq, ite_not, UInt32.lt_iff_toNat_lt]
  split_ifs <;> omega

theorem cmp_eq_zero_iff {a b : Key} : cmp a b = 0 ↔ a = b := by
  rcases cmp_cases a b with ⟨h, hl⟩ | ⟨h, he⟩ | ⟨h, hl⟩
  · exact iff_of_false h.ne hl.ne
  · exact iff_of_true h he
  · exact iff_of_false h.ne' hl.ne'

theorem base_ne_node (sec sec' : UInt16) (nodeId : UInt32) : base sec ≠ node nodeId sec' := by
  intro h
  have hl : layerBase = layerNode := congrArg Key.layer h
  exact absurd hl (by decide)

end Key

/-- Structural validity of a key: BASE has no owner, NODE must name one. -/
def keyIsValid (key : Key) : Bool :=
  if key.layer = layerBase then decide (key.nodeId = 0)
  else if key.layer = layerNode then decide (key.nodeId ≠ 0)
  else false

inductive ScopeKind where
  | base | core | full
  deriving DecidableEq, Repr

/-- The set of keys a node claims to track; `owner` is whose CORE it is. -/
structure Scope where
  kind : ScopeKind
  owner : UInt32
  deriving DecidableEq, Repr

namespace Scope

/-- `meshtastic_cluster_scope_make`: an owner is kept for CORE only. -/
def make (kind : ScopeKind) (owner : UInt32) : Scope :=
  ⟨kind, if kind = .core then owner else 0⟩

/-- The one membership rule. -/
def contains (scope : Scope) (key : Key) : Bool :=
  if scope.kind = .full then true
  else if key.layer = layerBase then true
  else decide (scope.kind = .core) && decide (key.nodeId = scope.owner)

/-- The keys both scopes claim. -/
def intersect (a b : Scope) : Scope :=
  if a.kind = .full then b
  else if b.kind = .full then a
  else if a.kind = .core ∧ b.kind = .core ∧ a.owner = b.owner then a
  else make .base 0

@[simp] theorem make_kind (kind : ScopeKind) (owner : UInt32) : (make kind owner).kind = kind := rfl

@[simp] theorem full_contains (owner : UInt32) (key : Key) :
    (make .full owner).contains key = true := rfl

theorem contains_base (scope : Scope) (sec : UInt16) : scope.contains (Key.base sec) = true := by
  simp [contains, Key.base]

theorem core_contains_iff {owner : UInt32} {key : Key} : (make .core owner).contains key = true ↔
    key.layer = layerBase ∨ key.nodeId = owner := by
  by_cases hb : key.layer = layerBase <;> simp [contains, make, hb]

/-- The intersection means what it says. -/
theorem intersect_contains (a b : Scope) (key : Key) :
    (intersect a b).contains key = (a.contains key && b.contains key) := by
  obtain ⟨ka, oa⟩ := a
  obtain ⟨kb, ob⟩ := b
  by_cases hb : key.layer = layerBase
  · cases ka <;> cases kb <;> simp [intersect, contains, hb]
  cases ka <;> cases kb <;> simp [intersect, contains, make, hb]
  by_cases ho : oa = ob
  · simp [ho]
  · have hd : ¬ (key.nodeId = oa ∧ key.nodeId = ob) := fun h => ho (h.1.symm.trans h.2)
    simp [ho, ← Bool.decide_and, hd]

end Scope

end Zephyrtastic.Cluster
