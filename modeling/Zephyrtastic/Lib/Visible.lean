import Zephyrtastic.Lib.Run

/-!
# Two runs over the same visible events

A machine that emits outputs. An event that is not visible emits nothing and leaves the
view of the state as it was. Two runs over the same visible events then emit the same, as
far as each of these events is answered alike in both.
-/

namespace Zephyrtastic.Run

open List

section
variable {σ ε ω ν : Type} (step : σ → ε → σ) (emit : σ → ε → List ω)

/-- What the events of a list emit. -/
def outputs (s : σ) (es : List ε) : List ω :=
  (run (fun p e => (step p.1 e, p.2 ++ emit p.1 e)) (s, []) es).2

/-- The condition holds whenever two runs come to the same visible event after the same visible
events. -/
def Alike (visible : ε → Bool) (ok : σ → σ → ε → Prop) (s : σ) (es es' : List ε) : Prop :=
  ∀ done done' e, done ++ [e] <+: es → done' ++ [e] <+: es' → visible e = true →
    done.filter visible = done'.filter visible → ok (run step s done) (run step s done') e

variable {step emit} {visible : ε → Bool} {ok : σ → σ → ε → Prop} {s : σ} {es es' : List ε}
  {e : ε}

theorem outputs_append (s : σ) (es : List ε) (e : ε) :
    outputs step emit s (es ++ [e]) = outputs step emit s es ++ emit (run step s es) e := by
  have hfst : (run (fun (p : σ × List ω) e => (step p.1 e, p.2 ++ emit p.1 e)) (s, []) es).1 =
      run step s es :=
    run_map Prod.fst (fun _ _ => rfl) (s, []) es
  rw [outputs, run_append, hfst]
  rfl

theorem Alike.left (h : Alike step visible ok s (es ++ [e]) es') : Alike step visible ok s es es' :=
  fun done done' e' hd => h done done' e' (hd.trans (prefix_append ..))

theorem Alike.right (h : Alike step visible ok s es (es' ++ [e])) :
    Alike step visible ok s es es' :=
  fun done done' e' hd hd' => h done done' e' hd (hd'.trans (prefix_append ..))

theorem filter_append_visible (h : visible e = true) :
    (es ++ [e]).filter visible = es.filter visible ++ [e] := by
  rw [filter_append, filter_cons_of_pos h, filter_nil]

theorem filter_append_hidden (h : visible e = false) :
    (es ++ [e]).filter visible = es.filter visible := by
  rw [filter_append, filter_cons_of_neg (by rw [h]; exact Bool.false_ne_true),
    filter_nil, append_nil]

/-- The induction takes the last events off: hidden ones one by one, visible ones together. -/
theorem outputs_eq (view : σ → ν)
    (hidden : ∀ s e, visible e = false → emit s e = [] ∧ view (step s e) = view s)
    (seen : ∀ s s' e, visible e = true → view s = view s' → ok s s' e →
      emit s e = emit s' e ∧ view (step s e) = view (step s' e))
    (s : σ) (es es' : List ε) (hsame : es.filter visible = es'.filter visible)
    (halike : Alike step visible ok s es es') :
    outputs step emit s es = outputs step emit s es' ∧
      view (run step s es) = view (run step s es') := by
  have hquiet : ∀ es e, visible e = false →
      outputs step emit s (es ++ [e]) = outputs step emit s es ∧
        view (run step s (es ++ [e])) = view (run step s es) := by
    intro es e he
    obtain ⟨hemit, hview⟩ := hidden (run step s es) e he
    rw [outputs_append, run_append, hemit, append_nil]
    exact ⟨rfl, hview⟩
  induction es using reverseRecOn generalizing es' with
  | nil =>
    induction es' using reverseRecOn with
    | nil => exact ⟨rfl, rfl⟩
    | append_singleton es' e' ih =>
      cases he : visible e' with
      | true =>
        rw [filter_append_visible he] at hsame
        exact absurd hsame.symm (append_ne_nil_of_right_ne_nil _ (cons_ne_nil _ _))
      | false =>
        rw [filter_append_hidden he] at hsame
        rw [(hquiet es' e' he).1, (hquiet es' e' he).2]
        exact ih hsame halike.right
  | append_singleton es e ih =>
    cases he : visible e with
    | false =>
      rw [filter_append_hidden he] at hsame
      rw [(hquiet es e he).1, (hquiet es e he).2]
      exact ih es' hsame halike.left
    | true =>
      induction es' using reverseRecOn with
      | nil =>
        rw [filter_append_visible he] at hsame
        exact absurd hsame (append_ne_nil_of_right_ne_nil _ (cons_ne_nil _ _))
      | append_singleton es' e' ih' =>
        cases he' : visible e' with
        | false =>
          rw [filter_append_hidden he'] at hsame
          rw [(hquiet es' e' he').1, (hquiet es' e' he').2]
          exact ih' hsame halike.right
        | true =>
          rw [filter_append_visible he, filter_append_visible he'] at hsame
          obtain ⟨hinit, hlast⟩ := append_inj' hsame rfl
          obtain rfl := singleton_inj.mp hlast
          obtain ⟨hout, hview⟩ := ih es' hinit halike.left.right
          obtain ⟨hemit, hview'⟩ := seen _ _ e he hview
            (halike es es' e prefix_rfl prefix_rfl he hinit)
          rw [outputs_append, outputs_append, run_append, run_append, hout, hemit]
          exact ⟨rfl, hview'⟩

end

end Zephyrtastic.Run
