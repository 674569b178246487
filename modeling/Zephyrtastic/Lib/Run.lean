import Mathlib.Data.List.Induction

/-!
# Runs of a deterministic machine

A machine is a step function on a state and an event, and a run is the fold of its
events.
-/

namespace Zephyrtastic.Run

open List

section
variable {σ ε : Type} (step : σ → ε → σ)

/-- The state after a list of events. -/
def run (s : σ) (es : List ε) : σ := es.foldl step s

/-- Every event of the run meets the condition in the state it is taken in. -/
def Guarded (ok : σ → ε → Prop) (s : σ) (es : List ε) : Prop :=
  ∀ done e, done ++ [e] <+: es → ok (run step s done) e

variable {step}

@[simp] theorem run_nil (s : σ) : run step s [] = s := rfl

@[simp] theorem run_append (s : σ) (es : List ε) (e : ε) :
    run step s (es ++ [e]) = step (run step s es) e := by
  simp [run]

/-- What is kept beside a state does not change its run. -/
theorem run_map {τ : Type} {step' : τ → ε → τ} (f : σ → τ)
    (h : ∀ s e, f (step s e) = step' (f s) e) (s : σ) (es : List ε) :
    f (run step s es) = run step' (f s) es := by
  induction es using reverseRecOn with
  | nil => rfl
  | append_singleton es e ih => rw [run_append, run_append, h, ih]

variable {ok : σ → ε → Prop} {s : σ} {es : List ε}

theorem Guarded.before {es' : List ε} (h : Guarded step ok s (es ++ es')) : Guarded step ok s es :=
  fun done e' hp => h done e' (hp.trans (prefix_append es es'))

variable {e : ε}

theorem Guarded.init (h : Guarded step ok s (es ++ [e])) : Guarded step ok s es :=
  h.before

theorem Guarded.last (h : Guarded step ok s (es ++ [e])) : ok (run step s es) e :=
  h es e prefix_rfl

@[simp] theorem guarded_nil : Guarded step ok s [] := by
  intro done e hp
  simp at hp

theorem guarded_cons : Guarded step ok s (e :: es) ↔ ok s e ∧ Guarded step ok (step s e) es := by
  constructor
  · intro h
    refine ⟨h [] e (by simp), fun done e' hp => ?_⟩
    exact h (e :: done) e' (cons_prefix_cons.mpr ⟨rfl, hp⟩)
  · rintro ⟨hok, h⟩ done e' hp
    cases done with
    | nil =>
      obtain ⟨rfl, _⟩ := cons_prefix_cons.mp hp
      exact hok
    | cons d done =>
      rw [cons_append, cons_prefix_cons] at hp
      obtain ⟨rfl, hp⟩ := hp
      exact h done e' hp

/-- Whether a run is guarded can be computed step by step. -/
instance decidableGuarded {ok : σ → ε → Prop} [∀ s e, Decidable (ok s e)] :
    (s : σ) → (es : List ε) → Decidable (Guarded step ok s es)
  | _, [] => isTrue guarded_nil
  | s, e :: es =>
    have : Decidable (Guarded step ok (step s e) es) := decidableGuarded (step s e) es
    decidable_of_iff _ guarded_cons.symm

theorem run_append_list (s : σ) (es es' : List ε) :
    run step s (es ++ es') = run step (run step s es) es' := by
  simp [run]

theorem Guarded.suffix {es' : List ε}
    (h : Guarded step ok s (es ++ es')) : Guarded step ok (run step s es) es' := by
  intro done e hp
  rw [← run_append_list]
  refine h (es ++ done) e ?_
  rw [append_assoc]
  exact (prefix_append_right_inj es).mpr hp

/-- An invariant of the start that every guarded step keeps holds after every
guarded run. -/
theorem run_invariant (Inv : List ε → σ → Prop) (h0 : Inv [] s)
    (hstep : ∀ es e, Inv es (run step s es) → ok (run step s es) e →
      Inv (es ++ [e]) (step (run step s es) e))
    (es : List ε) (hg : Guarded step ok s es) : Inv es (run step s es) := by
  induction es using reverseRecOn with
  | nil => exact h0
  | append_singleton es e ih =>
    rw [run_append]
    exact hstep es e (ih hg.init) hg.last

/-- The same for an invariant that does not look back. -/
theorem run_keeps (Inv : σ → Prop) (h0 : Inv s)
    (hstep : ∀ s e, Inv s → ok s e → Inv (step s e)) (hg : Guarded step ok s es) :
    Inv (run step s es) :=
  run_invariant (fun _ s => Inv s) h0 (fun _ e hi hok => hstep _ e hi hok) es hg

/-- Under an invariant that guarded steps keep, one guard gives another. -/
theorem Guarded.mono_of_invariant {ok' : σ → ε → Prop}
    (hg : Guarded step ok s es) (Inv : σ → Prop) (h0 : Inv s)
    (hstep : ∀ s e, Inv s → ok s e → Inv (step s e) ∧ ok' s e) : Guarded step ok' s es := by
  intro done e hp
  have hdone : Guarded step ok s done :=
    fun d e' hd => hg d e' (hd.trans ((prefix_append done [e]).trans hp))
  have hinv : Inv (run step s done) :=
    run_keeps Inv h0 (fun _ e' hi hok => (hstep _ e' hi hok).1) hdone
  exact (hstep _ e hinv (hg done e hp)).2

/-- A guard may be read as any other that holds at the same steps. -/
theorem Guarded.congr {ok' : σ → ε → Prop} (h : ∀ s e, ok s e ↔ ok' s e) : Guarded step ok s es ↔
    Guarded step ok' s es :=
  forall_congr' fun _ => forall_congr' fun e => imp_congr_right fun _ => h _ e

theorem guarded_true : Guarded step (fun _ _ => True) s es :=
  fun _ _ _ => trivial

end

/-- A loop over the indices below `n`, with an invariant that knows how far it has come. -/
theorem foldl_finRange {σ : Type} {n : Nat} {f : σ → Fin n → σ} (Inv : Nat → σ → Prop) {s : σ}
    (h0 : Inv 0 s) (hstep : ∀ (i : Fin n) s, Inv i s → Inv (i + 1) (f s i)) :
    Inv n ((finRange n).foldl f s) := by
  induction n with
  | zero => exact h0
  | succ n ih =>
    rw [finRange_succ_last, foldl_append, foldl_map]
    exact hstep (Fin.last n) _ (ih fun i s hi => hstep i.castSucc s hi)

section
variable {σ ι : Type} {f : σ → ι → σ} {P : σ → Prop} {p : ι}

variable {s : σ} {l : List ι} (skip : ∀ s j, P s → j ≠ p → f s j = s)
include skip

theorem foldl_skip (hp : p ∉ l) (hs : P s) : l.foldl f s = s := by
  induction l with
  | nil => rfl
  | cons a l ih =>
    rw [mem_cons, not_or] at hp
    rw [foldl_cons, skip s a hs (Ne.symm hp.1)]
    exact ih hp.2

/-- A loop that acts at one index only. -/
theorem foldl_at (keep : ∀ s, P s → P (f s p)) (hp : p ∈ l) (hl : l.Nodup) (hs : P s) :
    l.foldl f s = f s p := by
  induction l with
  | nil => exact absurd hp (not_mem_nil)
  | cons a l ih =>
    rw [nodup_cons] at hl
    rw [foldl_cons]
    by_cases ha : a = p
    · subst ha
      exact foldl_skip skip hl.1 (keep s hs)
    · rw [skip s a hs ha]
      exact ih ((mem_cons.mp hp).resolve_left (Ne.symm ha)) hl.2

end

end Zephyrtastic.Run
