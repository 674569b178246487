import Mathlib.Data.Int.ModEq
import Mathlib.Data.List.Basic

/-!
# A ring buffer and the queue it holds

An array of `n` cells with the index of the oldest element, the index after the newest
one and their number. The operations are written on the indices; `contents` reads the
ring as a list, oldest first, and each operation is one on that list.
-/

namespace Zephyrtastic

open Function List

/-- A ring of `n` cells. -/
structure Ring (α : Type) (n : Nat) where
  cells : Fin n → α
  /-- Where the next element goes. -/
  head : Fin n
  /-- Where the oldest element is. -/
  tail : Fin n
  count : Nat
  count_le : count ≤ n
  head_eq : head.val = (tail.val + count) % n

namespace Ring

variable {α : Type} {n : Nat}

/-- The cell `i` places after `base`. -/
def after (base : Fin n) (i : Nat) : Fin n := ⟨(base.val + i) % n, Nat.mod_lt _ base.pos⟩

/-- The cell before `i`. -/
def before (i : Fin n) : Fin n := after i (n - 1)

/-- The element `i` places after the oldest. -/
def get (r : Ring α n) (i : Nat) : α := r.cells (after r.tail i)

/-- The elements, oldest first. -/
def contents (r : Ring α n) : List α := (range r.count).map r.get

def full (r : Ring α n) : Bool := r.count == n

variable (base : Fin n) (i : Nat)

theorem after_after (j : Nat) : after (after base i) j = after base (i + j) := by
  apply Fin.ext
  simp only [after]
  rw [Nat.mod_add_mod, Nat.add_assoc]

theorem after_injective {i j : Nat} (hi : i < n) (hj : j < n)
    (h : after base i = after base j) : i = j := by
  have hmod : base.val + i ≡ base.val + j [MOD n] := congrArg Fin.val h
  exact (Nat.ModEq.add_left_cancel' base.val hmod).eq_of_lt_of_lt hi hj

theorem after_size : after base (i + n) = after base i := by
  apply Fin.ext
  simp only [after]
  rw [← Nat.add_assoc, Nat.add_mod_right]

theorem before_after_succ : before (after base (i + 1)) = after base i := by
  have hpos : 0 < n := base.pos
  unfold before
  rw [after_after, show i + 1 + (n - 1) = i + n by omega, after_size]

theorem after_before_succ : after (before base) (i + 1) = after base i := by
  have hpos : 0 < n := base.pos
  unfold before
  rw [after_after, show n - 1 + (i + 1) = i + n by omega, after_size]

theorem head_after (r : Ring α n) : r.head = after r.tail r.count := Fin.ext r.head_eq

@[simp] theorem length_contents (r : Ring α n) : r.contents.length = r.count := by
  simp [contents]

theorem getElem?_contents (r : Ring α n) (i : Nat) :
    r.contents[i]? = if i < r.count then some (r.get i) else none := by
  unfold contents
  rw [getElem?_map]
  split
  · next h => rw [getElem?_range h, Option.map_some]
  · next h => rw [getElem?_eq_none (by simpa using h), Option.map_none]

variable {r : Ring α n}

theorem full_iff : r.full = true ↔ r.contents.length = n := by
  simp [full]

theorem length_lt_of_not_full (h : ¬ r.full = true) : r.contents.length < n := by
  have hle := r.count_le
  have hne : r.contents.length ≠ n := fun he => h (full_iff.mpr he)
  rw [length_contents] at hne ⊢
  omega

/-! ## The operations -/

/-- A ring with no element in it. -/
def empty (x : α) (hn : 0 < n) : Ring α n where
  cells := fun _ => x
  head := ⟨0, hn⟩
  tail := ⟨0, hn⟩
  count := 0
  count_le := Nat.zero_le n
  head_eq := (Nat.zero_mod n).symm

/-- Write at `head` and advance it. The callers have made room. -/
def pushBack (r : Ring α n) (x : α) : Ring α n :=
  if h : r.count < n then
    { cells := update r.cells r.head x
      head := after r.head 1
      tail := r.tail
      count := r.count + 1
      count_le := h
      head_eq := by rw [head_after, after_after]; rfl }
  else r

/-- Advance `tail`. -/
def popFront (r : Ring α n) : Ring α n :=
  if hpos : 0 < r.count then
    { r with
      tail := after r.tail 1
      count := r.count - 1
      count_le := Nat.le_trans (Nat.sub_le _ _) r.count_le
      head_eq := by
        have h := congrArg Fin.val (after_after r.tail 1 (r.count - 1))
        rw [show 1 + (r.count - 1) = r.count by omega, ← head_after] at h
        exact h.symm }
  else r

/-- Step `head` back. -/
def dropBack (r : Ring α n) : Ring α n :=
  if hpos : 0 < r.count then
    { r with
      head := before r.head
      count := r.count - 1
      count_le := Nat.le_trans (Nat.sub_le _ _) r.count_le
      head_eq := by
        have h := before_after_succ r.tail (r.count - 1)
        rw [show r.count - 1 + 1 = r.count by omega, ← head_after] at h
        exact congrArg Fin.val h }
  else r

/-- Step `tail` back and write there. The callers have made room. -/
def pushFront (r : Ring α n) (x : α) : Ring α n :=
  if h : r.count < n then
    { cells := update r.cells (before r.tail) x
      head := r.head
      tail := before r.tail
      count := r.count + 1
      count_le := h
      head_eq := by
        rw [head_after, ← after_before_succ]
        rfl }
  else r

/-- Move the elements after place `k` one cell towards the oldest, for `m` places. -/
def shift (tail : Fin n) : Nat → Nat → (Fin n → α) → Fin n → α
  | _, 0, cells => cells
  | k, m + 1, cells =>
    shift tail (k + 1) m
      (update cells (after tail k) (cells (after tail (k + 1))))

/-- Remove the element `k` places after the oldest, keeping the order of the rest. -/
def removeAt (r : Ring α n) (k : Nat) : Ring α n :=
  if 0 < r.count then
    { r.dropBack with cells := shift r.tail k (r.count - 1 - k) r.cells }
  else r

/-! ## The operations as operations on the list -/

theorem ext_contents {l : List α} (hlen : r.count = l.length)
    (hget : ∀ i, i < r.count → some (r.get i) = l[i]?) : r.contents = l := by
  apply ext_getElem?
  intro i
  rw [getElem?_contents]
  split
  · next h => exact hget i h
  · next h => exact (getElem?_eq_none (by omega)).symm

theorem contents_pushBack (x : α) (h : r.contents.length < n) :
    (r.pushBack x).contents = r.contents ++ [x] := by
  rw [length_contents] at h
  unfold pushBack
  rw [dif_pos h]
  apply ext_contents
  · simp
  · intro i hi
    change i < r.count + 1 at hi
    simp only [get, head_after]
    by_cases hlast : i = r.count
    · rw [hlast]
      simp
    have hne : after r.tail i ≠ after r.tail r.count :=
      fun he => hlast (after_injective r.tail (by omega) h he)
    rw [update_of_ne hne, getElem?_append_left (by simp; omega),
      getElem?_contents, if_pos (by omega)]
    rfl

theorem contents_popFront (r : Ring α n) : r.popFront.contents = r.contents.tail := by
  unfold popFront
  split
  · next h =>
    apply ext_contents
    · simp
    · intro i hi
      change i < r.count - 1 at hi
      rw [getElem?_tail, getElem?_contents, if_pos (by omega)]
      simp only [get]
      rw [after_after, Nat.add_comm]
  · next h =>
    have hnil : r.contents = [] := eq_nil_of_length_eq_zero (by simp; omega)
    rw [hnil, tail_nil]

theorem contents_dropBack (r : Ring α n) : r.dropBack.contents = r.contents.dropLast := by
  unfold dropBack
  split
  · next h =>
    apply ext_contents
    · simp
    · intro i hi
      change i < r.count - 1 at hi
      rw [getElem?_dropLast, if_pos (by simpa using hi), getElem?_contents,
        if_pos (by omega)]
      rfl
  · next h =>
    have hnil : r.contents = [] := eq_nil_of_length_eq_zero (by simp; omega)
    rw [hnil, dropLast_nil]

theorem contents_pushFront (x : α) (h : r.contents.length < n) :
    (r.pushFront x).contents = x :: r.contents := by
  rw [length_contents] at h
  unfold pushFront
  rw [dif_pos h]
  apply ext_contents
  · simp
  · intro i hi
    change i < r.count + 1 at hi
    simp only [get]
    cases i with
    | zero =>
      have h0 : after (before r.tail) 0 = before r.tail :=
        Fin.ext (Nat.mod_eq_of_lt (before r.tail).isLt)
      rw [h0, update_self, getElem?_cons_zero]
    | succ i =>
      have hne : after r.tail i ≠ before r.tail := by
        intro he
        have hlast : i = n - 1 := after_injective r.tail (by omega) (by omega) he
        omega
      rw [after_before_succ, update_of_ne hne, getElem?_cons_succ,
        getElem?_contents, if_pos (by omega)]
      rfl

/-- What the shift leaves in a cell: the next element in the places it moved, the same
element everywhere else. -/
theorem shift_after (tail : Fin n) {k m : Nat} (hkm : k + m < n) (cells : Fin n → α) {j : Nat}
    (hj : j < n) :
    shift tail k m cells (after tail j) =
      if k ≤ j ∧ j < k + m then cells (after tail (j + 1)) else cells (after tail j) := by
  induction m generalizing k cells with
  | zero => rw [if_neg (by omega)]; rfl
  | succ m ih =>
    have hne : ∀ {i}, i < n → i ≠ k → after tail i ≠ after tail k :=
      fun hi hik he => hik (after_injective tail hi (by omega) he)
    unfold shift
    rw [ih (by omega)]
    by_cases hjk : j = k
    · rw [if_neg (by omega), hjk, update_self, if_pos (by omega)]
    rw [update_of_ne (hne hj hjk)]
    by_cases hin : k + 1 ≤ j ∧ j < k + 1 + m
    · rw [if_pos hin, if_pos (by omega), update_of_ne (hne (by omega) (by omega))]
    · rw [if_neg hin, if_neg (by omega)]

theorem contents_removeAt {k : Nat} (hk : k < r.contents.length) :
    (r.removeAt k).contents = r.contents.eraseIdx k := by
  rw [length_contents] at hk
  have hpos : 0 < r.count := by omega
  have hle := r.count_le
  have hdrop : r.dropBack.count = r.count - 1 ∧ r.dropBack.tail = r.tail := by
    unfold dropBack
    rw [dif_pos hpos]
    exact ⟨rfl, rfl⟩
  unfold removeAt
  rw [if_pos hpos]
  apply ext_contents
  · simp only [hdrop.1, length_eraseIdx, length_contents, if_pos hk]
  · intro i hi
    simp only [hdrop.1] at hi
    simp only [get, hdrop.2]
    rw [shift_after r.tail (by omega) r.cells (by omega), getElem?_eraseIdx]
    by_cases hik : i < k
    · rw [if_neg (by omega), if_pos hik, getElem?_contents, if_pos (by omega)]
      rfl
    · rw [if_pos (by omega), if_neg hik, getElem?_contents, if_pos (by omega)]
      rfl

end Ring

end Zephyrtastic
