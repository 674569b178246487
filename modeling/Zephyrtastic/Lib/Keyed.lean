import Mathlib.Data.List.Nodup
import Mathlib.Data.List.Perm.Basic

/-!
# Tables searched by a key

A table is a list of rows, some of them unused. It is searched from the front for
the row of a key. As long as no two rows share a key, a search says the same as
membership, and it can be followed through every way the table is rewritten.
-/

namespace Zephyrtastic.Keyed

open List

section
variable {α κ : Type} (key : α → Option κ)

/-- The keys in use. -/
def keys (l : List α) : List κ := l.filterMap key

/-- A row may take the place of another: it is unused, keeps its key, or brings one
that is new to the table. -/
def Fits (l : List α) (a b : α) : Prop := key b = key a ∨ ∀ k, key b = some k → k ∉ keys key l

variable {key}

variable {l : List α} {k : κ}

theorem mem_keys : k ∈ keys key l ↔ ∃ a ∈ l, key a = some k :=
  mem_filterMap

theorem keys_cons (a : α) (l : List α) : keys key (a :: l) = (key a).toList ++ keys key l := by
  unfold keys
  rw [filterMap_cons]
  cases key a <;> rfl

variable {a : α}

theorem nodup_cons :
    (keys key (a :: l)).Nodup ↔ (∀ k, key a = some k → k ∉ keys key l) ∧ (keys key l).Nodup := by
  rw [keys_cons]
  cases key a with
  | none => simp
  | some k => simp

variable {b : α} {i : Nat}

theorem mem_keys_set (h : k ∈ keys key (l.set i b)) : key b = some k ∨ k ∈ keys key l := by
  obtain ⟨c, hc, hk⟩ := mem_keys.mp h
  rcases mem_or_eq_of_mem_set hc with hmem | rfl
  · exact .inr (mem_keys.mpr ⟨c, hmem, hk⟩)
  · exact .inl hk

theorem nodup_eraseIdx (hl : (keys key l).Nodup) (hi : l[i]? = some a) :
    (∀ k, key a = some k → k ∉ keys key (l.eraseIdx i)) ∧ (keys key (l.eraseIdx i)).Nodup := by
  obtain ⟨hlt, rfl⟩ := List.getElem?_eq_some_iff.mp hi
  exact nodup_cons.mp (((getElem_cons_eraseIdx_perm hlt).filterMap key).nodup_iff.mpr hl)

theorem nodup_set (hl : (keys key l).Nodup) (hi : l[i]? = some a)
    (hb : Fits key l a b) : (keys key (l.set i b)).Nodup := by
  obtain ⟨hnot, hrest⟩ := nodup_eraseIdx hl hi
  have hperm := set_perm_cons_eraseIdx (List.getElem?_eq_some_iff.mp hi).1 b
  refine (hperm.filterMap key).nodup_iff.mpr (nodup_cons.mpr ⟨fun k hk => ?_, hrest⟩)
  rcases hb with he | hnew
  · exact hnot k (he ▸ hk)
  · exact fun hmem => hnew k hk (((eraseIdx_sublist l i).filterMap key).subset hmem)

theorem nodup_append_one (hl : (keys key l).Nodup)
    (hb : ∀ k, key b = some k → k ∉ keys key l) : (keys key (l ++ [b])).Nodup := by
  have hsplit : keys key (l ++ [b]) = keys key l ++ (key b).toList := by
    rw [keys, filterMap_append]
    exact congrArg _ ((keys_cons b []).trans (append_nil _))
  rw [hsplit, nodup_append]
  refine ⟨hl, by cases key b <;> simp, fun x hx y hy e => ?_⟩
  exact hb y (Option.mem_toList.mp hy) (e ▸ hx)

theorem nodup_filter (hl : (keys key l).Nodup) (p : α → Bool) :
    (keys key (l.filter p)).Nodup := hl.sublist (filter_sublist.filterMap key)

variable [DecidableEq κ] (key)

/-- The first row with the key. -/
def lookup (l : List α) (k : κ) : Option α := l.find? fun a => key a == some k

/-- Where that row stands. -/
def position (l : List α) (k : κ) : Option Nat := l.findIdx? fun a => key a == some k

variable {key}

theorem lookup_cons (a : α) (l : List α) (k : κ) :
    lookup key (a :: l) k = if key a = some k then some a else lookup key l k := by
  simp only [lookup, find?_cons]
  split <;> simp_all

theorem mem_of_lookup (h : lookup key l k = some a) : a ∈ l ∧ key a = some k := by
  have hp := find?_some h
  exact ⟨mem_of_find?_eq_some h, by simpa using hp⟩

theorem lookup_eq_none : lookup key l k = none ↔ k ∉ keys key l := by
  simp [lookup, find?_eq_none, mem_keys]

theorem lookup_isSome : (lookup key l k).isSome ↔ k ∈ keys key l := by
  rw [← not_iff_not, ← lookup_eq_none]
  simp

theorem lookup_of_mem (hl : (keys key l).Nodup) (ha : a ∈ l)
    (hk : key a = some k) : lookup key l k = some a := by
  induction l with
  | nil => cases ha
  | cons b rest ih =>
    obtain ⟨hnot, hrest⟩ := nodup_cons.mp hl
    rw [lookup_cons]
    rcases mem_cons.mp ha with rfl | hmem
    · exact if_pos hk
    · rw [if_neg fun e => hnot k e (mem_keys.mpr ⟨a, hmem, hk⟩)]
      exact ih hrest hmem

theorem lookup_eq_some (hl : (keys key l).Nodup) :
    lookup key l k = some a ↔ a ∈ l ∧ key a = some k :=
  ⟨mem_of_lookup, fun ⟨ha, hk⟩ => lookup_of_mem hl ha hk⟩

theorem position_eq_none : position key l k = none ↔ k ∉ keys key l := by
  simp [position, findIdx?_eq_none_iff, mem_keys]

theorem get_of_position (h : position key l k = some i) : ∃ a, l[i]? = some a ∧ key a = some k := by
  obtain ⟨hi, hp, -⟩ := findIdx?_eq_some_iff_getElem.mp h
  exact ⟨l[i], getElem?_eq_getElem hi, by simpa using hp⟩

theorem position_of_get (hl : (keys key l).Nodup)
    (hi : l[i]? = some a) (hk : key a = some k) : position key l k = some i := by
  induction l generalizing i with
  | nil => cases hi
  | cons b rest ih =>
    obtain ⟨hnot, hrest⟩ := nodup_cons.mp hl
    rw [position, findIdx?_cons]
    cases i with
    | zero =>
      obtain rfl : b = a := by simpa using hi
      simp [hk]
    | succ i =>
      have hi' : rest[i]? = some a := by simpa using hi
      have hb : key b ≠ some k := fun e => hnot k e (mem_keys.mpr ⟨a, mem_of_getElem? hi', hk⟩)
      rw [if_neg (by simpa using hb)]
      exact congrArg _ (ih hrest hi')

theorem lookup_perm {l' : List α} (h : l.Perm l') (hl : (keys key l).Nodup) (k : κ) :
    lookup key l k = lookup key l' k := by
  have hl' : (keys key l').Nodup := (h.filterMap key).nodup_iff.mp hl
  apply Option.ext
  intro a
  rw [lookup_eq_some hl, lookup_eq_some hl', h.mem_iff]

theorem lookup_set (hl : (keys key l).Nodup) (hi : l[i]? = some a) (hb : Fits key l a b) (k : κ) :
    lookup key (l.set i b) k =
      if key b = some k then some b else if key a = some k then none else lookup key l k := by
  have hlt := (List.getElem?_eq_some_iff.mp hi).1
  have hl' : lookup key l k = if key a = some k then some a else lookup key (l.eraseIdx i) k := by
    obtain ⟨_, rfl⟩ := List.getElem?_eq_some_iff.mp hi
    rw [← lookup_cons]
    exact lookup_perm (getElem_cons_eraseIdx_perm hlt).symm hl k
  rw [lookup_perm (set_perm_cons_eraseIdx hlt b) (nodup_set hl hi hb), lookup_cons, hl']
  split
  · rfl
  split
  · next hk => exact lookup_eq_none.mpr ((nodup_eraseIdx hl hi).1 k hk)
  · rfl

theorem lookup_append_one (hb : ∀ k, key b = some k → k ∉ keys key l)
    (k : κ) : lookup key (l ++ [b]) k = if key b = some k then some b else lookup key l k := by
  unfold lookup
  rw [find?_append]
  split
  · next h =>
    have hnone : l.find? (fun a => key a == some k) = none := lookup_eq_none.mpr (hb k h)
    rw [hnone]
    simp [h]
  · next h => simp [h]

end

end Zephyrtastic.Keyed
