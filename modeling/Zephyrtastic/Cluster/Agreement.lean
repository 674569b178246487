import Zephyrtastic.Cluster.Convergence
import Zephyrtastic.Cluster.Module

/-!
# Digests that agree

Two nodes that hold the same versions where their claims overlap find each other's
digest comparable and matching, whatever the two claims are.
-/

namespace Zephyrtastic.Cluster

open List

/-- What a digest sees of a row. -/
def Entry.version (e : Entry) : Key × Stamp × Bool := (e.key, e.stamp, e.tombstone)

/-- A row with this version and nothing in it. -/
def blankRow (v : Key × Stamp × Bool) : Entry := ⟨v.1, v.2.1, v.2.2, [], none⟩

variable {scope : Scope}

namespace Doc
variable {cap cap' : Nat}

/-- The versions of a scope, in table order. -/
def versions (d : Doc cap) (scope : Scope) : List (Key × Stamp × Bool) :=
  (d.inScope scope).map Entry.version

theorem hashScoped_eq (crc : UInt32 → List UInt8 → UInt32) (d : Doc cap) (scope : Scope) :
    d.hashScoped crc scope =
      (d.versions scope).foldl (fun acc v => crc acc (blankRow v).rowBytes) 0 := by
  rw [versions, foldl_map]
  rfl

variable (d : Doc cap)

theorem countScoped_eq (scope : Scope) : d.countScoped scope = (d.versions scope).length := by
  rw [versions, length_map]
  rfl

theorem maxStampScoped_eq (scope : Scope) : d.maxStampScoped scope =
    (d.versions scope).foldl (fun out v => if v.2.1.newer out then v.2.1 else out)
      Stamp.unset := by
  rw [versions, foldl_map]
  rfl

theorem versions_sorted (scope : Scope) : Lww.Sorted Prod.fst (d.versions scope) :=
  pairwise_map.mpr (Pairwise.filter _ d.sorted)

theorem mem_versions {d : Doc cap} {v : Key × Stamp × Bool} :
    v ∈ d.versions scope ↔
      scope.contains v.1 = true ∧ (d.find v.1).map Entry.version = some v := by
  simp only [versions, mem_map, inScope, mem_filter, Option.map_eq_some_iff,
    find_eq_some]
  constructor
  · rintro ⟨e, ⟨he, hin⟩, rfl⟩
    exact ⟨hin, e, ⟨he, rfl⟩, rfl⟩
  · rintro ⟨hin, e, ⟨he, hk⟩, hv⟩
    exact ⟨e, ⟨he, hk ▸ hin⟩, hv⟩

theorem versions_congr {d : Doc cap} {d' : Doc cap'} (h : ∀ key, scope.contains key = true →
      (d.find key).map Entry.version = (d'.find key).map Entry.version) :
    d.versions scope = d'.versions scope := by
  refine Lww.sorted_ext (d.versions_sorted scope) (d'.versions_sorted scope) fun v => ?_
  rw [mem_versions, mem_versions]
  constructor
  · rintro ⟨hin, hv⟩
    exact ⟨hin, h v.1 hin ▸ hv⟩
  · rintro ⟨hin, hv⟩
    exact ⟨hin, (h v.1 hin).symm ▸ hv⟩

end Doc

section Agreement
variable {na nb : Node}

theorem scopeFromPb_scopeToPb {c : State na} (hk : c.scopeKind ≠ .base) :
    scopeFromPb (scopeToPb c.myScope) na.me = (c.myScope, true) := by
  unfold State.myScope
  split
  · rfl
  cases h : c.scopeKind with
  | base => exact absurd h hk
  | core => rfl
  | full => rfl

theorem toNat_countScoped (c : State na) (scope : Scope) :
    (UInt32.ofNat (c.doc.countScoped scope)).toNat = c.doc.countScoped scope := by
  have hle : c.doc.countScoped scope ≤ 256 :=
    ((length_filter_le _ _).trans c.doc.fits).trans na.maxEntries_range.2
  rw [UInt32.toNat_ofNat']
  omega

theorem contains_of_base {key : Key}
    (h : (Scope.make .base 0).contains key = true) : scope.contains key = true := by
  have hl : key.layer = layerBase := by
    by_contra hn
    simp [Scope.contains, Scope.make, hn] at h
  simp [Scope.contains, hl]

/-- **A digest raises no false alarm**: nodes that hold the same versions on the
overlap of their claims find the digest comparable and matching. Rows either holds
outside its claim do not matter. -/
theorem digest_agrees (hcrc : na.crc32IeeeUpdate = nb.crc32IeeeUpdate) (a : State na) (b : State nb)
    (ha : a.scopeKind ≠ .base)
    (hsame : ∀ key, a.myScope.contains key = true → b.myScope.contains key = true →
      (a.doc.find key).map Entry.version = (b.doc.find key).map Entry.version) :
    (b.digestCompare na.me a.digest).comparable = true ∧
      (b.digestCompare na.me a.digest).isMatch = true := by
  simp only [State.digestCompare, State.digest, scopeFromPb_scopeToPb ha, toNat_countScoped,
    Bool.not_true, Bool.false_eq_true, if_false]
  split
  · rename_i hinter
    -- everything the sender claims is claimed here too
    have hv : b.doc.versions a.myScope = a.doc.versions a.myScope := by
      refine Doc.versions_congr fun key hin => (hsame key hin ?_).symm
      have hboth := Scope.intersect_contains b.myScope a.myScope key
      rw [hinter, hin, Bool.and_true] at hboth
      exact hboth.symm
    simp [Doc.hashScoped_eq, Doc.countScoped_eq, Doc.maxStampScoped_eq, hv, hcrc,
      Stamp.compare_eq_zero_iff]
  · have hv : b.doc.versions (Scope.make .base 0) = a.doc.versions (Scope.make .base 0) :=
      Doc.versions_congr fun key hin =>
        (hsame key (contains_of_base hin) (contains_of_base hin)).symm
    simp [Doc.hashScoped_eq, Doc.countScoped_eq, hv, hcrc]

end Agreement

def otherNode : Node := { sampleNode with me := 2 }

/-- A node that claims everything, with a base row and a row of a third node's. -/
def wideState : State sampleNode := { State.init sampleNode (sampleEnv 0) with
  doc := Doc.acceptAll 14 [⟨Key.base deviceTag, ⟨10, 0, 1⟩, false, [1], none⟩,
    ⟨Key.node 3 deviceTag, ⟨20, 0, 3⟩, false, [1], none⟩] }

/-- A narrowed node with the same version of the base row. -/
def narrowState : State otherNode := { State.init otherNode (sampleEnv 0) with
  scopeKind := .core
  doc := Doc.acceptAll 14 [⟨Key.base deviceTag, ⟨10, 0, 1⟩, false, [1, 5], none⟩] }

theorem digest_agrees_narrowed :
    (narrowState.digestCompare sampleNode.me wideState.digest).comparable = true ∧
      (narrowState.digestCompare sampleNode.me wideState.digest).isMatch = true := by
  refine @digest_agrees sampleNode otherNode rfl wideState narrowState (by decide) ?_
  have hwide : ∀ e ∈ wideState.doc.rows,
      e.key = Key.base deviceTag ∨ e.key = Key.node 3 deviceTag := by decide +kernel
  have hnarrow : ∀ e ∈ narrowState.doc.rows, e.key = Key.base deviceTag := by decide +kernel
  intro key _ hin
  by_cases hk : key = Key.base deviceTag
  · subst hk
    decide +kernel
  have hnone : wideState.doc.find key = none := by
    refine Doc.find_eq_none.mpr fun e he hke => ?_
    rcases hwide e he with h | h
    · exact hk (hke.symm.trans h)
    · rw [← hke, h] at hin
      exact absurd hin (by decide)
  have hnone' : narrowState.doc.find key = none :=
    Doc.find_eq_none.mpr fun e he hke => hk (hke.symm.trans (hnarrow e he))
  rw [hnone, hnone']

end Zephyrtastic.Cluster
