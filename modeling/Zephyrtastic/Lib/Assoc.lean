import Mathlib.Data.List.Nodup

/-!
# Association lists that are rewritten in place

A store walks its records in a fixed order: a write replaces the value of a key
where it stands, and a new key goes to the end.
-/

namespace Zephyrtastic.Assoc

open List

section
variable {α β : Type}

def keys (l : List (α × β)) : List α := l.map Prod.fst

variable {key : α} {l : List (α × β)} {val : β}

theorem mem_keys (h : (key, val) ∈ l) : key ∈ keys l :=
  mem_map_of_mem h

theorem lookup_of_mem [BEq α] [LawfulBEq α] (hnodup : (keys l).Nodup) (h : (key, val) ∈ l) :
    l.lookup key = some val := by
  obtain ⟨before, after, rfl⟩ := append_of_mem h
  refine lookup_eq_some_iff.mpr ⟨before, after, rfl, fun p hp => bne_iff_ne.mpr ?_⟩
  rw [keys, map_append] at hnodup
  exact fun e => disjoint_of_nodup_append hnodup (mem_map_of_mem hp) (e ▸ mem_cons_self)

theorem mem_of_lookup [BEq α] [LawfulBEq α] (h : l.lookup key = some val) : (key, val) ∈ l := by
  obtain ⟨before, after, rfl, -⟩ := lookup_eq_some_iff.mp h
  exact mem_append_right _ mem_cons_self

variable [DecidableEq α]

/-- Replace the value of a key where it stands, or add it. -/
def put (key : α) (val : β) : List (α × β) → List (α × β)
  | [] => [(key, val)]
  | r :: rest => if r.1 = key then (key, val) :: rest else r :: put key val rest

theorem keys_put (key : α) (val : β) (l : List (α × β)) :
    keys (put key val l) = if key ∈ keys l then keys l else keys l ++ [key] := by
  induction l with
  | nil => rfl
  | cons r rest ih =>
    unfold put
    split
    · next h => simp [keys, h]
    next h =>
    have hne : key ≠ r.1 := fun e => h e.symm
    unfold keys at ih ⊢
    simp only [map_cons, ih, mem_cons, hne, false_or]
    split <;> rfl

theorem put_of_not_mem (val : β) (h : key ∉ keys l) : put key val l = l ++ [(key, val)] := by
  induction l with
  | nil => rfl
  | cons r rest ih =>
    obtain ⟨hhead, htail⟩ := not_or.mp (mt mem_cons.mpr h)
    rw [put, if_neg (Ne.symm hhead), ih htail, cons_append]

theorem nodup_put (hnodup : (keys l).Nodup) (key : α) (val : β) : (keys (put key val l)).Nodup := by
  rw [keys_put]
  split
  · exact hnodup
  · next h => exact nodup_append.mpr ⟨hnodup, nodup_singleton key,
      fun a ha b hb e => h (by rw [← mem_singleton.mp hb, ← e]; exact ha)⟩

variable [BEq α] [LawfulBEq α]

theorem lookup_put_ne {other : α} (h : other ≠ key) (val : β) (l : List (α × β)) :
    (put key val l).lookup other = l.lookup other := by
  induction l with
  | nil => simp [put, lookup_cons, beq_false_of_ne h]
  | cons r rest ih =>
    unfold put
    split
    · next hr =>
      have hne : (other == r.1) = false := beq_false_of_ne (hr ▸ h)
      rw [lookup_cons, lookup_cons, hne, beq_false_of_ne h]
    · rw [lookup_cons, lookup_cons, ih]

end

end Zephyrtastic.Assoc
