import Mathlib.Data.List.Basic

/-!
# Bounded retries with one outcome

An attempt begins with a number of retries, is retried at most that often and
ends with one outcome; after that another one may begin. A machine that lets
through one note at a time, each allowed by the retries that are left, has such
a history.
-/

namespace Zephyrtastic.Retry

variable {ω : Type}

inductive Note (ω : Type) where
  | begun (retries : Nat)
  | retried
  | ended (outcome : ω)
  deriving DecidableEq, Repr

/-- An attempt, as far as it has come. -/
structure Attempt where
  retries : Nat
  retried : Nat
  within : retried ≤ retries
  deriving DecidableEq, Repr

/-- An attempt and what became of it. -/
structure Ended (ω : Type) extends Attempt where
  outcome : ω
  deriving DecidableEq, Repr

/-- The attempts that have ended, in order, and the one under way. -/
structure History (ω : Type) where
  past : List (Ended ω)
  current : Option Attempt

def Attempt.notes (a : Attempt) : List (Note ω) :=
  .begun a.retries :: List.replicate a.retried .retried

def Ended.notes (e : Ended ω) : List (Note ω) := e.toAttempt.notes ++ [.ended e.outcome]

namespace History

def notes (h : History ω) : List (Note ω) :=
  h.past.flatMap Ended.notes ++ h.current.elim [] Attempt.notes

/-- The retries left to the attempt under way. -/
def left (h : History ω) : Option Nat := h.current.map fun a => a.retries - a.retried

def empty : History ω := ⟨[], none⟩

end History

/-- What may be noted, by the retries left before and after it. -/
inductive Move : Option Nat → List (Note ω) → Option Nat → Prop where
  | quiet (left : Option Nat) : Move left [] left
  | begun (n : Nat) : Move none [.begun n] (some n)
  | retried (n : Nat) : Move (some (n + 1)) [.retried] (some n)
  | ended (n : Nat) (o : ω) : Move (some n) [.ended o] none

variable {h : History ω}

theorem History.current_of_left {n : Nat} (hl : h.left = some n) :
    ∃ a, h.current = some a ∧ a.retries - a.retried = n :=
  Option.map_eq_some_iff.mp hl

theorem History.current_of_left_none (hl : h.left = none) : h.current = none :=
  Option.map_eq_none_iff.mp hl

theorem History.extend {ns : List (Note ω)} {left : Option Nat}
    (m : Move h.left ns left) : ∃ h' : History ω, h'.notes = h.notes ++ ns ∧ h'.left = left := by
  generalize hl : h.left = before at m
  cases m with
  | quiet => exact ⟨h, (List.append_nil _).symm, hl⟩
  | begun n =>
    have hc := current_of_left_none hl
    exact ⟨⟨h.past, some ⟨n, 0, Nat.zero_le n⟩⟩, by simp [notes, hc, Attempt.notes], rfl⟩
  | retried n =>
    obtain ⟨a, hc, ha⟩ := current_of_left hl
    have hlt : a.retried + 1 ≤ a.retries := by omega
    refine ⟨⟨h.past, some ⟨a.retries, a.retried + 1, hlt⟩⟩, ?_, ?_⟩
    · simp [notes, hc, Attempt.notes, List.replicate_succ']
    · simp only [left, Option.map_some, Option.some.injEq]
      omega
  | ended n o =>
    obtain ⟨a, hc, ha⟩ := current_of_left hl
    exact ⟨⟨h.past ++ [⟨a, o⟩], none⟩, by simp [notes, hc, Ended.notes], rfl⟩

end Zephyrtastic.Retry
