import Mathlib.Data.Int.ModEq
import Mathlib.Data.List.Basic

/-!
# A ring that overwrites its oldest cell

Elements are written one after the other, the `i`-th one at the cell `i % p`.
After any number of writes the last `p` of them are where they were put, and a
cell has what it had at the start or one of them.
-/

namespace Zephyrtastic.Overwrite

open Function List

variable {β : Type} {n p : Nat} {f : Fin n → β} {log : List β}

/-- The last `p` writes are in their cells. -/
def Recent (p : Nat) (f : Fin n → β) (log : List β) : Prop :=
  ∀ (i : Nat) (s : Fin n), i < log.length → log.length ≤ i + p → s.val = i % p →
    log[i]? = some (f s)

/-- Every cell is as it was, or has one of the last `p` writes. -/
def Only (p : Nat) (start f : Fin n → β) (log : List β) : Prop :=
  ∀ s, f s = start s ∨
    ∃ i, i < log.length ∧ log.length ≤ i + p ∧ s.val = i % p ∧ log[i]? = some (f s)

theorem recent_nil (p : Nat) (f : Fin n → β) : Recent p f [] :=
  fun _ _ hi => absurd hi (Nat.not_lt_zero _)

theorem only_nil (p : Nat) (f : Fin n → β) : Only p f f [] := fun _ => .inl rfl

theorem mod_ne {i j : Nat} (h : i < j) (hp : j < i + p) : i % p ≠ j % p := by
  intro he
  obtain ⟨d, hd⟩ : p ∣ j - i := (Nat.modEq_iff_dvd' h.le).mp he
  rcases d with _ | d
  · omega
  · have : p ≤ p * (d + 1) := Nat.le_mul_of_pos_right p (Nat.succ_pos d)
    omega

theorem Recent.write (h : Recent p f log) {s : Fin n} (hs : s.val = log.length % p) (b : β) :
    Recent p (update f s b) (log ++ [b]) := by
  intro i s' hi hlen hs'
  rw [length_append, length_singleton] at hi hlen
  rcases Nat.lt_succ_iff_lt_or_eq.mp hi with hlt | rfl
  · have hne : s' ≠ s := by
      rintro rfl
      exact mod_ne hlt (by omega) (hs'.symm.trans hs)
    rw [update_of_ne hne, getElem?_append_left hlt]
    exact h i s' hlt (by omega) hs'
  · obtain rfl : s' = s := Fin.ext (hs'.trans hs.symm)
    rw [update_self, getElem?_concat_length]

theorem Only.write {start : Fin n → β} (h : Only p start f log) (hp : 0 < p) {s : Fin n}
    (hs : s.val = log.length % p) (b : β) :
    Only p start (update f s b) (log ++ [b]) := by
  intro s'
  rw [length_append, length_singleton]
  by_cases he : s' = s
  · subst he
    refine .inr ⟨log.length, Nat.lt_succ_self _, by omega, hs, ?_⟩
    rw [update_self, getElem?_concat_length]
  rw [update_of_ne he]
  refine (h s').imp_right ?_
  rintro ⟨i, hi, hlen, hs', hget⟩
  refine ⟨i, by omega, ?_, hs', ?_⟩
  · rcases Nat.lt_or_eq_of_le hlen with hlt | heq
    · omega
    · refine absurd (Fin.ext ?_) he
      rw [hs', hs, heq, Nat.add_mod_right]
  · rwa [getElem?_append_left hi]

end Zephyrtastic.Overwrite
