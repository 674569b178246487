import Mathlib.Algebra.BigOperators.Group.Finset.Piecewise
import Mathlib.Data.Fintype.Basic
import Mathlib.Data.Nat.ModEq

/-!
# Sliding windows in a ring of buckets

Amounts are entered at ticks of a clock that does not run backwards, and a ring of
`n` buckets is to hold the amounts of the current tick and the `n - 1` before it.
`Holds` says that it does, bucket by bucket.
-/

namespace Zephyrtastic.Window

open Function Nat

variable {M : Type} [AddCommMonoid M] {n : Nat} [NeZero n]
variable (u : Fin n → M) (last k : Nat)

/-- The bucket of a tick. -/
def slot (n : Nat) [NeZero n] (tick : Nat) : Fin n := Fin.ofNat n tick

theorem slot_eq_iff {a b : Nat} : slot n a = slot n b ↔ a % n = b % n := by
  simp [slot, Fin.ext_iff]

/-- The bucket of the next tick is emptied. -/
def enter (last : Nat) : Fin n → M := update u (slot n (last + 1)) 0

/-- The buckets of the `k` ticks after `last` are emptied, one after the other. -/
def clear (u : Fin n → M) (last : Nat) : Nat → Fin n → M
  | 0 => u
  | k + 1 => enter (clear u last k) (last + k)

/-- The ring is brought forward by `k` ticks; after a whole turn everything is emptied at once. -/
def roll : Fin n → M :=
  if n ≤ k then fun _ => 0 else clear u last k

def add (tick : Nat) (x : M) : Fin n → M :=
  update u (slot n tick) (u (slot n tick) + x)

theorem clear_apply (i : Fin n) :
    clear u last k i = if ∃ j, j < k ∧ slot n (last + j + 1) = i then 0 else u i := by
  induction k with
  | zero => simp [clear]
  | succ k ih =>
    rw [clear, enter]
    by_cases hi : i = slot n (last + k + 1)
    · rw [hi, update_self, if_pos ⟨k, lt_succ_self k, rfl⟩]
    rw [update_of_ne hi, ih]
    apply if_congr _ rfl rfl
    constructor
    · rintro ⟨j, hj, rfl⟩
      exact ⟨j, by omega, rfl⟩
    · rintro ⟨j, hj, rfl⟩
      have hne : j ≠ k := by
        rintro rfl
        exact hi rfl
      exact ⟨j, by omega, rfl⟩

theorem exists_slot (hk : n ≤ k) (i : Fin n) : ∃ j, j < k ∧ slot n (last + j + 1) = i := by
  have hn : 0 < n := pos_of_neZero n
  have hmod : (last + 1) % n < n := mod_lt _ hn
  -- the distance from the first bucket entered to bucket `i`, going round
  refine ⟨(i.val + (n - (last + 1) % n)) % n, lt_of_lt_of_le (mod_lt _ hn) hk, ?_⟩
  have hsum : (last + 1) % n + (i.val + (n - (last + 1) % n)) = i.val + n := by omega
  have hval : (last + (i.val + (n - (last + 1) % n)) % n + 1) % n = i.val := by
    calc (last + (i.val + (n - (last + 1) % n)) % n + 1) % n
        = ((last + 1) + (i.val + (n - (last + 1) % n)) % n) % n := by
          rw [add_right_comm]
      _ = ((last + 1) % n + (i.val + (n - (last + 1) % n))) % n := by
          rw [add_mod, mod_mod, mod_add_mod, ← add_mod_mod ((last + 1) % n)]
          simp only [add_mod_mod, mod_add_mod]
      _ = i.val := by rw [hsum, add_mod_right, mod_eq_of_lt i.isLt]
  exact Fin.ext hval

/-- Emptying everything after a whole turn is what the single ticks do. -/
theorem roll_eq_clear : roll u last k = clear u last k := by
  unfold roll
  split
  · rename_i hk
    funext i
    rw [clear_apply, if_pos (exists_slot last k hk i)]
  · rfl

theorem clear_zero : clear (fun _ : Fin n => (0 : M)) last k = fun _ => 0 := by
  funext i
  rw [clear_apply, ite_self]

/-- The amounts of the entries that count. -/
def total (p : Nat × M → Prop) [DecidablePred p] (log : List (Nat × M)) : M :=
  (log.map fun e => if p e then e.2 else 0).sum

theorem total_snoc (p : Nat × M → Prop) [DecidablePred p] (log : List (Nat × M)) (e : Nat × M) :
    total p (log ++ [e]) = total p log + if p e then e.2 else 0 := by
  simp [total]

variable {log : List (Nat × M)} {last : Nat} {u : Fin n → M}

theorem total_congr {p q : Nat × M → Prop} [DecidablePred p] [DecidablePred q]
    (h : ∀ e ∈ log, p e ↔ q e) : total p log = total q log := by
  unfold total
  congr 1
  apply List.map_congr_left
  intro e he
  exact if_congr (h e he) rfl rfl

theorem total_eq_zero {p : Nat × M → Prop} [DecidablePred p]
    (h : ∀ e ∈ log, ¬ p e) : total p log = 0 := by
  apply List.sum_eq_zero
  intro x hx
  obtain ⟨e, he, rfl⟩ := List.mem_map.mp hx
  exact if_neg (h e he)

/-- Every bucket holds what was entered at its tick of the window that ends with `now`. -/
structure Holds (u : Fin n → M) (now : Nat) (log : List (Nat × M)) : Prop where
  past : ∀ e ∈ log, e.1 ≤ now
  bucket : ∀ i, u i = total (fun e => now < e.1 + n ∧ slot n e.1 = i) log

theorem holds_zero (now : Nat) : Holds (fun _ : Fin n => (0 : M)) now [] where
  past := fun _ h => absurd h List.not_mem_nil
  bucket := fun _ => rfl

theorem slot_turn {a : Nat} (h : a ≤ last) (hs : slot n a = slot n (last + 1)) :
    a + n ≤ last + 1 := by
  rw [slot_eq_iff] at hs
  have hdvd : n ∣ last + 1 - a := (modEq_iff_dvd' (by omega)).mp hs
  have hle := le_of_dvd (by omega) hdvd
  omega

theorem Holds.enter (h : Holds u last log) : Holds (enter u last) (last + 1) log where
  past := fun e he => le_succ_of_le (h.past e he)
  bucket := by
    intro i
    by_cases hi : i = slot n (last + 1)
    · subst hi
      rw [Window.enter, update_self]
      refine (total_eq_zero ?_).symm
      rintro e he ⟨hlt, hs⟩
      have hturn := slot_turn (h.past e he) hs
      omega
    · rw [Window.enter, update_of_ne hi, h.bucket i]
      apply total_congr
      intro e he
      refine and_congr_left fun hs => ?_
      -- the entry that leaves the window at this tick is in the bucket that is emptied
      have hne : e.1 + n ≠ last + 1 := by
        intro heq
        refine hi (hs.symm.trans ?_)
        rw [slot_eq_iff, ← heq, add_mod_right]
      omega

theorem Holds.clear (h : Holds u last log) (k : Nat) : Holds (clear u last k) (last + k) log := by
  induction k with
  | zero => exact h
  | succ k ih => exact ih.enter

theorem Holds.add {now : Nat} (h : Holds u now log) (x : M) :
    Holds (add u now x) now (log ++ [(now, x)]) where
  past := by
    intro e he
    obtain he | he := List.mem_append.mp he
    · exact h.past e he
    · rw [List.mem_singleton.mp he]
  bucket := by
    intro i
    have hn : 0 < n := pos_of_neZero n
    rw [total_snoc, ← h.bucket i]
    by_cases hi : i = slot n now
    · subst hi
      rw [Window.add, update_self, if_pos ⟨by omega, rfl⟩]
    · rw [Window.add, update_of_ne hi, if_neg fun hs => hi hs.2.symm, add_zero]

theorem Holds.sum {now : Nat} (h : Holds u now log) :
    ∑ i, u i = total (fun e => now < e.1 + n) log := by
  rw [Finset.sum_congr rfl fun i _ => h.bucket i]
  clear h
  induction log with
  | nil => exact Finset.sum_const_zero
  | cons e log ih =>
    have hcons : ∀ (p : Nat × M → Prop) [DecidablePred p],
        total p (e :: log) = (if p e then e.2 else 0) + total p log := fun p _ => by simp [total]
    simp only [hcons, Finset.sum_add_distrib, ih, ite_and]
    split <;> simp

end Zephyrtastic.Window
