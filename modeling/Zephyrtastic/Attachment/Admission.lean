import Zephyrtastic.Attachment.Brain

/-!
# Who feeds the brain

A node that has no slot gets one only over a trusted link or from the allow list.
A node that has one is asked nothing: its envelopes are taken over any link,
whatever the bearer reports of it and whatever has become of the list.
-/

namespace Zephyrtastic.Attachment.Brain

open Run

variable {cfg : BrainConfig}
variable (a : HeadInfo)

/-- The allow list or the bearer vouches for the envelope. -/
def Vouched (s : Brain cfg) (e : Envelope) : Prop :=
  s.allowedLocked e.node = true ∨ s.trusted e.bearer e.node = true

/-- The envelope injects a frame, sets something going or changes the table. -/
def Feeds (s : Brain cfg) (e : Envelope) : Prop :=
  (s.ingestFrom e).2 ≠ [] ∨ (s.ingestFrom e).1.tab ≠ s.tab

theorem notePreset_node (preset : UInt8) : (a.notePreset preset).1.node = a.node := by
  unfold HeadInfo.notePreset
  split <;> rfl

theorem wantCheck_node (want : Option UInt8) (now : Nat) :
    (a.wantCheck want now).node = a.node := by
  unfold HeadInfo.wantCheck
  split
  · rfl
  · split
    · rfl
    · split <;> rfl

theorem noteLag_node (lagMs : UInt16) : (a.noteLag lagMs).node = a.node := by
  unfold HeadInfo.noteLag HeadInfo.lagRecompute
  split <;> rfl

theorem receive_node (rcTime : Int8) (attach : Nat) (want : Option UInt8)
    (e : Envelope) : (a.receive rcTime attach want e).1.node = a.node := by
  unfold HeadInfo.receive
  dsimp only
  split
  · exact (wantCheck_node _ _ _).trans (notePreset_node _ _)
  · exact (wantCheck_node _ _ _).trans (notePreset_node _ _)
  · unfold HeadInfo.onTxResult
    dsimp only
    split
    · exact noteLag_node _ _
    · rfl
  · rfl
  · rfl
  · rfl
  · rfl
  · rfl

variable {a : HeadInfo} {s : Brain cfg} {i : Fin cfg.attachmentMax}

theorem findLocked_some {node : UInt32}
    (h : s.findLocked node = some (i, a)) : s.tab i = some a ∧ a.node = node := by
  obtain ⟨j, -, hj⟩ := List.exists_of_findSome?_eq_some h
  obtain ⟨b, hb, hif⟩ := Option.bind_eq_some_iff.mp hj
  split at hif
  · rename_i hn
    cases hif
    exact ⟨hb, hn⟩
  · cases hif

/-- What an envelope can do. -/
inductive Ingested (s : Brain cfg) (e : Envelope) : Brain cfg → List BrainAction → Prop where
  | refused : Ingested s e s []
  | known (i : Fin cfg.attachmentMax) (a a' : HeadInfo) (acts : List BrainAction)
      (hfind : s.findLocked e.node = some (i, a)) (ha : a'.node = a.node) :
      Ingested s e (s.put i (some a')) acts
  | admitted (i : Fin cfg.attachmentMax) (a' : HeadInfo) (acts : List BrainAction)
      (hfind : s.findLocked e.node = none) (hv : s.Vouched e) (ha : a'.node = e.node) :
      Ingested s e (s.put i (some a')) acts

theorem ingested (s : Brain cfg) (e : Envelope) :
    Ingested s e (s.ingestFrom e).1 (s.ingestFrom e).2 := by
  unfold ingestFrom
  split
  · exact .refused
  split
  · rename_i i a hfind
    exact .known i a _ _ hfind (receive_node _ _ _ _ _)
  rename_i hfind
  split
  · exact .refused
  split
  · exact .refused
  rename_i hgate
  have hv : s.Vouched e := by
    rw [Bool.and_eq_true, Bool.not_eq_true', Bool.not_eq_true', not_and_or,
      Bool.not_eq_false, Bool.not_eq_false] at hgate
    exact hgate
  split
  · exact .refused
  · rename_i i _
    exact .admitted i _ _ hfind hv (receive_node _ _ _ _ _)

/-- Every slot of the table was given to an envelope that was vouched for when it came. -/
def Traced (es : List (Event cfg)) (s : Brain cfg) : Prop :=
  ∀ i a, s.tab i = some a → ∃ done e, done ++ [.envelope e] <+: es ∧ e.node = a.node ∧
    (run step (init : Brain cfg) done).Vouched e

variable {j : Fin cfg.attachmentMax}

theorem put_tab {x : Option HeadInfo}
    (h : (s.put i x).tab j = some a) : (j = i ∧ x = some a) ∨ s.tab j = some a := by
  change Function.update s.tab i x j = some a at h
  by_cases hji : j = i
  · subst hji
    rw [Function.update_self] at h
    exact .inl ⟨rfl, h⟩
  · rw [Function.update_of_ne hji] at h
    exact .inr h

/-- The node of a slot has a slot in the table. -/
def Seated (s : Brain cfg) (a : HeadInfo) : Prop := ∃ j b, s.tab j = some b ∧ b.node = a.node

theorem Traced.seated {es : List (Event cfg)} (h : Traced es s)
    (hseat : s.Seated a) (e : Event cfg) : ∃ done env, done ++ [.envelope env] <+: es ++ [e] ∧
      env.node = a.node ∧ (run step (init : Brain cfg) done).Vouched env := by
  obtain ⟨j, b, hb, hn⟩ := hseat
  obtain ⟨done, env, hp, henv, hv⟩ := h j b hb
  exact ⟨done, env, hp.trans (List.prefix_append es [e]), henv.trans hn, hv⟩

variable {b : HeadInfo}

theorem put_seated {a' : HeadInfo}
    (hi : s.tab i = some a) (ha : a'.node = a.node) (h : (s.put i (some a')).tab j = some b) :
    s.Seated b := by
  obtain ⟨-, hx⟩ | hold := put_tab h
  · cases hx
    exact ⟨i, a, hi, ha.symm⟩
  · exact ⟨j, b, hold, rfl⟩

theorem Ingested.seated {s' : Brain cfg} {e : Envelope} {acts : List BrainAction}
    (h : Ingested s e s' acts)
    (hb : s'.tab j = some b) : s.Seated b ∨ s.Vouched e ∧ e.node = b.node := by
  cases h with
  | refused => exact .inl ⟨j, b, hb, rfl⟩
  | known i a a' acts hfind ha => exact .inl (put_seated (findLocked_some hfind).1 ha hb)
  | admitted i a' acts hfind hv ha =>
    obtain ⟨-, hx⟩ | hold := put_tab hb
    · cases hx
      exact .inr ⟨hv, ha.symm⟩
    · exact .inl ⟨j, b, hold, rfl⟩

theorem linkDown_seated {bearer : Option Nat} {node : UInt32} {now : Nat}
    (hb : (s.linkDown bearer node now).tab j = some b) : s.Seated b := by
  unfold linkDown at hb
  split at hb
  · rename_i i a hfind
    split at hb
    · refine put_seated (findLocked_some hfind).1 ?_ hb
      rfl
    · exact ⟨j, b, hb, rfl⟩
  · exact ⟨j, b, hb, rfl⟩

theorem allowAdd_tab (s : Brain cfg) (node : UInt32) : (s.allowAdd node).tab = s.tab := by
  unfold allowAdd
  split
  · rfl
  · split <;> rfl

theorem step_traced {es : List (Event cfg)} {e : Event cfg}
    (h : Traced es (run step init es)) : Traced (es ++ [e]) (step (run step init es) e) := by
  cases e with
  | envelope e =>
    intro j b hb
    obtain hold | ⟨hv, hn⟩ := (ingested _ e).seated hb
    · exact h.seated hold _
    · exact ⟨es, e, List.prefix_rfl, hn, hv⟩
  | linkDown bearer node now => exact fun j b hb => h.seated (linkDown_seated hb) _
  | evict now =>
    intro j b hb
    exact h.seated ⟨j, b, (Option.filter_eq_some_iff.mp hb).1, rfl⟩ _
  | forget i =>
    intro j b hb
    obtain ⟨-, hx⟩ | hold := put_tab hb
    · cases hx
    · exact h.seated ⟨j, b, hold, rfl⟩ _
  | allowAdd node =>
    intro j b hb
    exact h.seated ⟨j, b, congrFun (allowAdd_tab _ node) j ▸ hb, rfl⟩ _
  | allowClear | setWant want | linkTrust bearer node trusted =>
    exact fun j b hb => h.seated ⟨j, b, hb, rfl⟩ _

theorem run_traced (es : List (Event cfg)) : Traced es (run step (init : Brain cfg) es) := by
  induction es using List.reverseRecOn with
  | nil => exact fun i a ha => nomatch ha
  | append_singleton es e ih =>
    rw [run_append]
    exact step_traced ih

/-- Over every run, an envelope of a node that has no slot injects a frame or changes the table
only if the allow list or its link vouches for it then. An envelope of a node that has a slot
goes back to one of the same node that was vouched for when the slot was given. -/
theorem only_vouched_heads (cfg : BrainConfig) (es : List (Event cfg)) (e : Envelope)
    (h : (run step (init : Brain cfg) es).Feeds e) :
    ((run step (init : Brain cfg) es).findLocked e.node = none →
      (run step (init : Brain cfg) es).Vouched e) ∧
    ((run step (init : Brain cfg) es).Vouched e ∨
      ∃ done e', done ++ [.envelope e'] <+: es ∧ e'.node = e.node ∧
        (run step (init : Brain cfg) done).Vouched e') := by
  have hi := ingested (run step (init : Brain cfg) es) e
  unfold Feeds at h
  generalize (ingestFrom (run step (init : Brain cfg) es) e).1 = s' at hi h
  generalize (ingestFrom (run step (init : Brain cfg) es) e).2 = acts at hi h
  cases hi with
  | refused => exact absurd rfl (h.resolve_left fun hne => hne rfl)
  | known i a a' acts hfind ha =>
    obtain ⟨htab, hn⟩ := findLocked_some hfind
    obtain ⟨done, e', hp, he', hv⟩ := run_traced es i a htab
    refine ⟨fun hnone => ?_, .inr ⟨done, e', hp, he'.trans hn, hv⟩⟩
    rw [hfind] at hnone
    cases hnone
  | admitted i a' acts hfind hv ha => exact ⟨fun _ => hv, .inl hv⟩

/-- A brain with two slots for heads and two on its allow list. -/
def twoHeads : BrainConfig := ⟨2, 2, 60, -62⟩

/-- One byte heard on LONG_FAST, in an envelope of node 7. -/
def heardBy (bearer now : Nat) : Envelope :=
  ⟨some bearer, 7, [1, 0, 0, 0, 0, 0, 0, 0, 0, 0, 0xAB], now, true⟩

/-- The first envelope over a link that has just become trusted. -/
theorem first_envelope_vouched :
    let s : Brain twoHeads := run step init [.linkTrust (some 0) 7 true]
    (s.ingestFrom (heardBy 0 10)).2 =
      [.autoChannel 0, .inject [0xAB] ⟨1, 0, 0, 0, 0⟩] ∧ s.Vouched (heardBy 0 10) := by
  intro s
  have hacts : (s.ingestFrom (heardBy 0 10)).2 =
      [.autoChannel 0, .inject [0xAB] ⟨1, 0, 0, 0, 0⟩] := by decide +kernel
  have hfeeds : s.Feeds (heardBy 0 10) := .inl (by rw [hacts]; nofun)
  have hfind : s.findLocked 7 = none := rfl
  exact ⟨hacts, (only_vouched_heads twoHeads [.linkTrust (some 0) 7 true] (heardBy 0 10)
    hfeeds).1 hfind⟩

/-- A head was admitted over a trusted link and the trust was withdrawn. Another link, which
nobody vouches for, gives the same node number: its frame is injected, and the slot is now its. -/
theorem admitted_id_taken_over :
    let s : Brain twoHeads := run step init
      [.linkTrust (some 0) 7 true, .envelope (heardBy 0 10), .linkTrust (some 0) 7 false]
    ¬ s.Vouched (heardBy 1 20) ∧
    (s.ingestFrom (heardBy 1 20)).2 = [.inject [0xAB] ⟨1, 0, 0, 0, 0⟩] ∧
    (s.tab ⟨0, by decide⟩).map (·.bearer) = some (some 0) ∧
    ((s.ingestFrom (heardBy 1 20)).1.tab ⟨0, by decide⟩).map (·.bearer) = some (some 1) := by
  intro s
  refine ⟨?_, by decide +kernel, by decide +kernel, by decide +kernel⟩
  unfold Vouched
  decide +kernel

end Zephyrtastic.Attachment.Brain
