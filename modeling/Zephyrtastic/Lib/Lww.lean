import Mathlib.Data.List.Sort
import Mathlib.Data.Finset.Card

/-!
# Last-writer-wins tables

A table is a list of rows in strictly increasing key order. A write replaces the
row of its key when its stamp is newer, and is inserted in its place when the key
is new.
-/

namespace Zephyrtastic.Lww

open List

section
variable {α K S : Type} [LinearOrder K] [LinearOrder S] (key : α → K) (stamp : α → S)

/-- Rows in strictly increasing key order. -/
def Sorted (rows : List α) : Prop := rows.Pairwise fun a b => key a < key b

/-- The row stored under a key. -/
def row (k : K) (rows : List α) : Option α := rows.find? fun a => key a = k

/-- One write: keep the newer of two rows of one key, insert a new key in order. -/
def put (w : α) : List α → List α
  | [] => [w]
  | x :: xs =>
    if key w < key x then w :: x :: xs
    else if key w = key x then (if stamp x < stamp w then w :: xs else x :: xs)
    else x :: put w xs

/-- The table after a list of writes, from empty. -/
def deliver (ws : List α) : List α := ws.foldl (fun rows w => put key stamp w rows) []

/-- A write of `ws` that no write of the same key beats. -/
def Newest (ws : List α) (x : α) : Prop :=
  x ∈ ws ∧ ∀ y ∈ ws, key y = key x → stamp y ≤ stamp x

variable {key stamp}

variable {x : α}

theorem Sorted.tail {xs : List α} (h : Sorted key (x :: xs)) : Sorted key xs :=
  List.Pairwise.of_cons h

theorem Sorted.head_lt {xs : List α} (h : Sorted key (x :: xs)) :
    ∀ y ∈ xs, key x < key y := (pairwise_cons.mp h).1

variable {rows : List α}
variable {k : K}

section
variable (h : Sorted key rows)
include h

theorem Sorted.lt_of_head_lt (hk : ∀ x ∈ rows.head?, k < key x) : ∀ x ∈ rows, k < key x := by
  cases rows with
  | nil => simp
  | cons a rest =>
    intro x hx
    have ha : k < key a := hk a rfl
    rcases mem_cons.mp hx with rfl | hx
    · exact ha
    · exact ha.trans (h.head_lt x hx)

theorem Sorted.nodup_keys : (rows.map key).Nodup :=
  pairwise_map.mpr (List.Pairwise.imp (fun hab => ne_of_lt hab) h)

theorem Sorted.nodup : rows.Nodup := .of_map key h.nodup_keys

theorem Sorted.key_inj {a b : α} (ha : a ∈ rows) (hb : b ∈ rows) (e : key a = key b) : a = b :=
  inj_on_of_nodup_map h.nodup_keys ha hb e

/-- Which rows a write leaves: itself unless the stored row of its key stands,
and every row it does not beat. -/
theorem mem_put (w x : α) :
    x ∈ put key stamp w rows ↔ (x = w ∧ ∀ y ∈ rows, key y = key w → stamp y < stamp w) ∨
      (x ∈ rows ∧ (key x = key w → ¬ stamp x < stamp w)) := by
  induction rows with
  | nil => simp [put]
  | cons a rest ih =>
    have ha := h.head_lt
    have hi := ih h.tail
    by_cases hlt : key w < key a
    · have off : ∀ y ∈ a :: rest, key y ≠ key w := by
        intro y hy
        rcases mem_cons.mp hy with rfl | hy
        · exact (ne_of_lt hlt).symm
        · exact (ne_of_lt (hlt.trans (ha y hy))).symm
      simp only [put, if_pos hlt]
      rw [mem_cons]
      constructor
      · rintro (rfl | hx)
        · exact .inl ⟨rfl, fun y hy e => absurd e (off y hy)⟩
        · exact .inr ⟨hx, fun e => absurd e (off x hx)⟩
      · rintro (⟨rfl, _⟩ | ⟨hx, _⟩)
        · exact .inl rfl
        · exact .inr hx
    · by_cases heq : key w = key a
      · have off : ∀ y ∈ rest, key y ≠ key w := fun y hy e =>
          absurd (ha y hy) (by rw [e, heq]; exact lt_irrefl _)
        simp only [put, if_neg hlt, if_pos heq]
        by_cases hs : stamp a < stamp w
        · simp only [if_pos hs, mem_cons]
          constructor
          · rintro (rfl | hx)
            · refine .inl ⟨rfl, fun y hy e => ?_⟩
              rcases hy with rfl | hy
              · exact hs
              · exact absurd e (off y hy)
            · exact .inr ⟨.inr hx, fun e => absurd e (off x hx)⟩
          · rintro (⟨rfl, _⟩ | ⟨rfl | hx, hn⟩)
            · exact .inl rfl
            · exact absurd hs (hn heq.symm)
            · exact .inr hx
        · simp only [if_neg hs, mem_cons]
          constructor
          · rintro (rfl | hx)
            · exact .inr ⟨.inl rfl, fun _ => hs⟩
            · exact .inr ⟨.inr hx, fun e => absurd e (off x hx)⟩
          · rintro (⟨_, hn⟩ | ⟨hx, _⟩)
            · exact absurd (hn a (.inl rfl) heq.symm) hs
            · exact hx
      · simp only [put, if_neg hlt, if_neg heq, mem_cons, hi]
        constructor
        · rintro (rfl | ⟨rfl, hn⟩ | ⟨hx, hn⟩)
          · exact .inr ⟨.inl rfl, fun e => absurd e.symm heq⟩
          · refine .inl ⟨rfl, fun y hy e => ?_⟩
            rcases hy with rfl | hy
            · exact absurd e.symm heq
            · exact hn y hy e
          · exact .inr ⟨.inr hx, hn⟩
        · rintro (⟨rfl, hn⟩ | ⟨rfl | hx, hn⟩)
          · exact .inr (.inl ⟨rfl, fun y hy e => hn y (.inr hy) e⟩)
          · exact .inl rfl
          · exact .inr (.inr ⟨hx, hn⟩)

theorem put_sorted (w : α) : Sorted key (put key stamp w rows) := by
  induction rows with
  | nil => simp [put, Sorted]
  | cons a rest ih =>
    have ha := h.head_lt
    simp only [put]
    split
    · rename_i hlt
      refine pairwise_cons.mpr ⟨fun y hy => ?_, h⟩
      rcases mem_cons.mp hy with rfl | hy
      · exact hlt
      · exact hlt.trans (ha y hy)
    · rename_i hlt
      split
      · rename_i heq
        split
        · exact pairwise_cons.mpr ⟨fun y hy => heq ▸ ha y hy, h.tail⟩
        · exact h
      · rename_i heq
        refine pairwise_cons.mpr ⟨fun y hy => ?_, ih h.tail⟩
        rcases (mem_put h.tail w y).mp hy with ⟨rfl, _⟩ | ⟨hy, _⟩
        · exact lt_of_le_of_ne (not_lt.mp hlt) (Ne.symm heq)
        · exact ha y hy

end

theorem put_append_of_lt {w : α} {before after : List α} (hb : ∀ x ∈ before, key x < key w) :
    put key stamp w (before ++ after) = before ++ put key stamp w after := by
  induction before with
  | nil => rfl
  | cons x before ih =>
    have hx := hb x mem_cons_self
    rw [cons_append, put, if_neg (not_lt.mpr hx.le), if_neg hx.ne',
      ih fun y hy => hb y (mem_cons_of_mem _ hy), cons_append]

theorem length_put (w : α) (rows : List α) : (put key stamp w rows).length = rows.length ∨
    (put key stamp w rows).length = rows.length + 1 := by
  induction rows with
  | nil => exact .inr rfl
  | cons x xs ih =>
    simp only [put]
    split
    · exact .inr rfl
    · split
      · split <;> exact .inl rfl
      · simpa using ih

theorem length_put_of_mem {w : α} (h : Sorted key rows) (hx : x ∈ rows)
    (hk : key x = key w) : (put key stamp w rows).length = rows.length := by
  induction rows with
  | nil => cases hx
  | cons a rest ih =>
    have ha := h.head_lt
    rcases mem_cons.mp hx with rfl | hx
    · rw [put, if_neg (by rw [hk]; exact lt_irrefl _), if_pos hk.symm]
      split <;> rfl
    · have hlt : key a < key w := hk ▸ ha x hx
      rw [put, if_neg (not_lt.mpr hlt.le), if_neg hlt.ne', length_cons,
        ih h.tail hx, length_cons]

theorem row_eq_some (h : Sorted key rows) : row key k rows = some x ↔ x ∈ rows ∧ key x = k := by
  constructor
  · intro hr
    exact ⟨mem_of_find?_eq_some hr, by simpa using find?_some hr⟩
  · rintro ⟨hx, rfl⟩
    cases hr : row key (key x) rows with
    | none =>
      have := find?_eq_none.mp hr x hx
      simp at this
    | some y =>
      have hy := mem_of_find?_eq_some hr
      have hk : key y = key x := by simpa using find?_some hr
      rw [h.key_inj hy hx hk]

theorem row_eq_none : row key k rows = none ↔ ∀ x ∈ rows, key x ≠ k := by
  simp [row, find?_eq_none]

theorem sorted_ext {rows' : List α} (h : Sorted key rows) (h' : Sorted key rows')
    (he : ∀ x, x ∈ rows ↔ x ∈ rows') : rows = rows' :=
  List.Perm.eq_of_pairwise (fun _ _ _ _ hab hba => absurd hab (not_lt.mpr hba.le)) h h'
    ((perm_ext_iff_of_nodup h.nodup h'.nodup).mpr he)

theorem deliver_append (ws : List α) (w : α) :
    deliver key stamp (ws ++ [w]) = put key stamp w (deliver key stamp ws) := by
  simp [deliver]

theorem deliver_sorted (ws : List α) : Sorted key (deliver key stamp ws) := by
  induction ws using reverseRecOn with
  | nil => simp [deliver, Sorted]
  | append_singleton ws w ih => rw [deliver_append]; exact put_sorted ih w

variable {ws : List α}

/-- No write is lost: its key is stored at its stamp or a newer one. -/
theorem deliver_covers {y : α} (hy : y ∈ ws) :
    ∃ z ∈ deliver key stamp ws, key z = key y ∧ stamp y ≤ stamp z := by
  induction ws using reverseRecOn with
  | nil => cases hy
  | append_singleton ws w ih =>
    have hs : Sorted key (deliver key stamp ws) := deliver_sorted ws
    simp only [deliver_append, mem_put hs]
    by_cases beats : ∀ z ∈ deliver key stamp ws, key z = key w → stamp z < stamp w
    · rcases mem_append.mp hy with hy | hy
      · obtain ⟨z, hz, hk, hle⟩ := ih hy
        by_cases hzw : key z = key w
        · exact ⟨w, .inl ⟨rfl, beats⟩, hzw ▸ hk, hle.trans (beats z hz hzw).le⟩
        · exact ⟨z, .inr ⟨hz, fun e => absurd e hzw⟩, hk, hle⟩
      · exact ⟨w, .inl ⟨rfl, beats⟩, by rw [mem_singleton.mp hy],
          by rw [mem_singleton.mp hy]⟩
    · push Not at beats
      obtain ⟨a, ha, hka, hle⟩ := beats
      rcases mem_append.mp hy with hy | hy
      · obtain ⟨z, hz, hk, hzle⟩ := ih hy
        refine ⟨z, .inr ⟨hz, fun e => ?_⟩, hk, hzle⟩
        rw [hs.key_inj hz ha (e.trans hka.symm)]
        exact not_lt.mpr hle
      · rw [mem_singleton.mp hy]
        exact ⟨a, .inr ⟨ha, fun _ => not_lt.mpr hle⟩, hka, hle⟩

theorem mem_of_mem_deliver (hx : x ∈ deliver key stamp ws) : x ∈ ws := by
  induction ws using reverseRecOn with
  | nil => simp [deliver] at hx
  | append_singleton ws w ih =>
    rw [deliver_append, mem_put (deliver_sorted ws)] at hx
    rcases hx with ⟨rfl, _⟩ | ⟨hx, _⟩
    · simp
    · exact mem_append_left _ (ih hx)

theorem newest_of_mem (hx : x ∈ deliver key stamp ws) : Newest key stamp ws x := by
  refine ⟨mem_of_mem_deliver hx, fun y hy e => ?_⟩
  obtain ⟨z, hz, hk, hle⟩ := @deliver_covers _ _ _ _ _ key stamp _ _ hy
  rwa [(deliver_sorted ws).key_inj hz hx (hk.trans e)] at hle

/-- When no two different writes share key and stamp, the table is exactly the
set of newest writes, whatever the order and the repetitions. -/
theorem mem_deliver_iff
    (hu : ∀ a ∈ ws, ∀ b ∈ ws, key a = key b → stamp a = stamp b → a = b) (x : α) :
    x ∈ deliver key stamp ws ↔ Newest key stamp ws x := by
  refine ⟨newest_of_mem, fun ⟨hm, hmax⟩ => ?_⟩
  obtain ⟨z, hz, hk, hle⟩ := @deliver_covers _ _ _ _ _ key stamp _ _ hm
  have hzm := mem_of_mem_deliver hz
  have := hu z hzm x hm hk (le_antisymm (hmax z hzm hk) hle)
  rwa [this] at hz

/-- **Delivery order and repetition do not matter.** -/
theorem deliver_congr {ws' : List α} (he : ∀ x, x ∈ ws ↔ x ∈ ws')
    (hu : ∀ a ∈ ws, ∀ b ∈ ws, key a = key b → stamp a = stamp b → a = b) :
    deliver key stamp ws = deliver key stamp ws' := by
  have hu' : ∀ a ∈ ws', ∀ b ∈ ws', key a = key b → stamp a = stamp b → a = b :=
    fun a ha b hb => hu a ((he a).mpr ha) b ((he b).mpr hb)
  refine sorted_ext (deliver_sorted ws) (deliver_sorted ws') fun x => ?_
  rw [mem_deliver_iff hu, mem_deliver_iff hu']
  simp only [Newest, he]

/-- A table delivered row by row, in any order, is the table. -/
theorem deliver_of_sorted (h : Sorted key rows) (he : ∀ x, x ∈ ws ↔ x ∈ rows) :
    deliver key stamp ws = rows := by
  have hu : ∀ a ∈ ws, ∀ b ∈ ws, key a = key b → stamp a = stamp b → a = b :=
    fun a ha b hb hk _ => h.key_inj ((he a).mp ha) ((he b).mp hb) hk
  refine sorted_ext (deliver_sorted ws) h fun x => ?_
  rw [mem_deliver_iff hu]
  constructor
  · exact fun hx => (he x).mp hx.1
  · intro hx
    refine ⟨(he x).mpr hx, fun y hy hk => ?_⟩
    rw [h.key_inj ((he y).mp hy) hx hk]

variable {ks : Finset K} (h : Sorted key rows) (hk : ∀ x ∈ rows, key x ∈ ks)
include h hk

/-- A table whose rows carry keys of `ks` holds at most `ks.card` rows, and has
room for any key of `ks` it lacks. -/
theorem Sorted.length_le_card : rows.length ≤ ks.card := by
  have hsub : (rows.map key).toFinset ⊆ ks := by
    intro k hm
    obtain ⟨x, hx, rfl⟩ := mem_map.mp (mem_toFinset.mp hm)
    exact hk x hx
  have := Finset.card_le_card hsub
  rwa [toFinset_card_of_nodup h.nodup_keys, length_map] at this

theorem Sorted.length_lt_card (hks : k ∈ ks) (hnew : ∀ x ∈ rows, key x ≠ k) :
    rows.length < ks.card := by
  have hle : rows.length ≤ (ks.erase k).card :=
    h.length_le_card fun x hx => Finset.mem_erase.mpr ⟨hnew x hx, hk x hx⟩
  have := Finset.card_erase_lt_of_mem hks
  omega

end

end Zephyrtastic.Lww
