import Mathlib.Algebra.Order.BigOperators.Group.Finset
import Zephyrtastic.Lib.Retry
import Zephyrtastic.Reliable.Table

/-!
# Every tracked send is reported once

To one packet id the table is a machine with a number of retries left: what was
done for the id is a sequence of attempts, each retried within its number and
ended once (`Sys.Kept`).
-/

namespace Zephyrtastic.Reliable

open List Retry Run Sys Table Pending

/-- What an action says about one packet id. -/
def Action.note (id : UInt32) : Action → Option (Note Outcome)
  | .track i retries => if i = id then some (.begun retries) else none
  | .retransmit i .. => if i = id then some .retried else none
  | .resolve i outcome => if i = id then some (.ended outcome) else none

theorem filterMap_single {α β : Type} {l : List α} {f : α → Option β} {a : α} (hl : l.Nodup)
    (ha : a ∈ l) (h : ∀ x ∈ l, x ≠ a → f x = none) : l.filterMap f = (f a).toList := by
  obtain ⟨l₁, l₂, rfl⟩ := append_of_mem ha
  have hnd := nodup_middle.mp hl
  have hnot : ∀ x ∈ l₁ ++ l₂, f x = none := by
    intro x hx
    refine h x (by simp only [mem_append, mem_cons] at hx ⊢; tauto) ?_
    rintro rfl
    exact (nodup_cons.mp hnd).1 hx
  have h₁ : l₁.filterMap f = [] :=
    filterMap_eq_nil_iff.mpr fun x hx => hnot x (mem_append_left _ hx)
  have h₂ : l₂.filterMap f = [] :=
    filterMap_eq_nil_iff.mpr fun x hx => hnot x (mem_append_right _ hx)
  rw [filterMap_append, filterMap_cons, h₁, h₂]
  cases f a <;> rfl

namespace Table

variable {n : Nat} {t t' : Table n} {id : UInt32} {i : Fin n}

/-- No id is in two active slots. -/
def Unique (t : Table n) : Prop := ∀ id i j, t.Tracks id i → t.Tracks id j → i = j

/-- The retries left to the send with this id, if it is tracked. -/
def left (t : Table n) (id : UInt32) : Option Nat :=
  (t.findLocked id).map fun i => (t.pend i).retriesLeft

theorem left_untracked (h : ∀ i, ¬ t.Tracks id i) : t.left id = none := by
  cases hf : t.findLocked id with
  | none => rw [left, hf]; rfl
  | some i => exact absurd (findLocked_some hf) (h i)

theorem left_tracked (hu : t.Unique) (h : t.Tracks id i) :
    t.left id = some (t.pend i).retriesLeft := by
  cases hf : t.findLocked id with
  | none => exact absurd h (findLocked_none hf i)
  | some j =>
    have hj : j = i := hu id j i (findLocked_some hf) h
    rw [left, hf, hj]
    rfl

theorem left_congr (hu : t.Unique) (hu' : t'.Unique)
    (h : ∀ i, t'.Tracks id i ↔ t.Tracks id i)
    (hleft : ∀ i, t.Tracks id i → (t'.pend i).retriesLeft = (t.pend i).retriesLeft) :
    t'.left id = t.left id := by
  by_cases hex : ∃ i, t.Tracks id i
  · obtain ⟨i, hi⟩ := hex
    rw [left_tracked hu hi, left_tracked hu' ((h i).mpr hi), hleft i hi]
  · have hno : ∀ i, ¬ t.Tracks id i := fun i hi => hex ⟨i, hi⟩
    rw [left_untracked hno, left_untracked fun i hi => hno i ((h i).mp hi)]

variable {p : Pending}

theorem tracks_set_self : (t.set i p).Tracks id i ↔ p.active = true ∧ p.id = id := by
  rw [Tracks, set_self]

theorem tracks_set_other {j : Fin n} (h : j ≠ i) : (t.set i p).Tracks id j ↔ t.Tracks id j := by
  rw [Tracks, set_other p h]
  rfl

theorem left_set_gone (hu : t.Unique) (hold : t.Tracks id i)
    (hself : ¬ (t.set i p).Tracks id i) : (t.set i p).left id = none := by
  refine left_untracked fun j hj => ?_
  by_cases hji : j = i
  · exact hself (hji ▸ hj)
  · exact hji (hu id j i ((tracks_set_other hji).mp hj) hold)

theorem left_set_same (hu : t.Unique) (hu' : (t.set i p).Unique)
    (hold : ¬ t.Tracks id i) (hself : ¬ (t.set i p).Tracks id i) :
    (t.set i p).left id = t.left id := by
  refine left_congr hu hu' (fun j => ?_) (fun j hj => ?_)
  · by_cases hji : j = i
    · subst hji
      exact iff_of_false hself hold
    · exact tracks_set_other hji
  · have hji : j ≠ i := fun h => hold (h ▸ hj)
    rw [set_other p hji]

/-- The number of passes the active slots can still use. -/
def work (t : Table n) : Nat := ∑ i, if (t.pend i).active then (t.pend i).retriesLeft + 1 else 0

end Table

section
variable {cfg : Config} {t : Table cfg.pendMax} {id : UInt32}

variable (cfg t) in
/-- What a call does to the table. -/
inductive Called (e : Event) : Table cfg.pendMax → List Action → Prop where
  | nothing : Called e t []
  | taken (i : Fin cfg.pendMax) (p : Pending)
      (hp : ∃ c snt, e = .sent e.now c snt ∧ p = snt.pending c e.now)
      (hnew : ∀ j, ¬ t.Tracks p.id j) : Called e ((t.set i p).rescheduleLocked e.now)
        ((if (t.pend i).active then [.resolve (t.pend i).id .evicted] else []) ++
          [.track p.id p.retriesLeft])
  | released (i : Fin cfg.pendMax) (id : UInt32) (outcome : Outcome) (h : t.Tracks id i) :
      Called e ((t.release i).rescheduleLocked e.now) [.resolve id outcome]
  | served (c : Timing) (ch : UInt8) :
      Called e (retxWorkFn cfg t e.now c ch).1 (retxWorkFn cfg t e.now c ch).2

theorem onTx_called (now : Nat) (c : Timing) (s : Sent) :
    Called cfg t (.sent now c s) (onTx cfg t now c s).1 (onTx cfg t now c s).2 := by
  have idle : Called cfg t (.sent now c s) t [] := .nothing
  unfold onTx
  split
  · exact idle
  split
  · exact idle
  split
  · exact idle
  rename_i hfind
  rw [Option.not_isSome_iff_eq_none] at hfind
  split
  · exact idle
  · rename_i i _
    exact .taken i (s.pending c now) ⟨c, s, rfl, rfl⟩ (findLocked_none hfind)

theorem onRouting_called (now : Nat) (r : Routing) :
    Called cfg t (.routing now r) (onRouting cfg t now r).1 (onRouting cfg t now r).2 := by
  have idle : Called cfg t (.routing now r) t [] := .nothing
  unfold onRouting
  split
  · exact idle
  split
  · rename_i i _ hfind
    exact .released i r.requestId _ (findLocked_some hfind)
  · exact idle

theorem onImplicitAck_called (now : Nat) (id : UInt32) :
    Called cfg t (.implicitAck now id) (onImplicitAck cfg t now id).1
      (onImplicitAck cfg t now id).2 := by
  unfold onImplicitAck
  split
  · rename_i i hfind
    exact .released i id _ (findLocked_some hfind)
  · exact .nothing

theorem called (t : Table cfg.pendMax) (e : Event) :
    Called cfg t e (call cfg t e).1 (call cfg t e).2 := by
  cases e with
  | sent now c s => exact onTx_called now c s
  | routing now r => exact onRouting_called now r
  | implicitAck now id => exact onImplicitAck_called now id
  | expired now c ch => exact .served c ch

section Slot
variable {p : Pending} {now : Nat} {c : Timing}

theorem served_id : (p.served now c).id = p.id := by
  unfold served
  split
  · rfl
  · split <;> rfl

theorem active_of_served (h : (p.served now c).active = true) : p.active = true := by
  unfold served at h
  split at h
  · exact h
  · split at h
    · cases h
    · exact h

theorem due_active (h : p.due now = true) : p.active = true := (Bool.and_eq_true_iff.mp h).1

theorem served_cases (now : Nat) (c : Timing) (ch : UInt8) (hp : p.active = true) :
    (p.due now = false ∧ p.served now c = p ∧ p.resent now = none ∧ p.failed now ch = none) ∨
    (∃ k, p.due now = true ∧ p.retriesLeft = k + 1 ∧ (p.served now c).active = true ∧
      (p.served now c).retriesLeft = k ∧
      p.resent now = some (.retransmit p.id p.wire p.tier p.via) ∧ p.failed now ch = none) ∨
    (p.due now = true ∧ p.retriesLeft = 0 ∧ (p.served now c).active = false ∧
      p.resent now = none ∧ p.failed now ch = some (.resolve p.id (.exhausted p.dest ch))) := by
  unfold served resent failed
  cases hd : p.due now with
  | false => exact .inl (by simp)
  | true =>
    cases hr : p.retriesLeft with
    | zero => exact .inr (.inr (by simp))
    | succ k => exact .inr (.inl ⟨k, by simp [hp]⟩)

theorem notes_other (now : Nat) (ch : UInt8) (h : p.id ≠ id ∨ p.active = false) :
    (p.resent now).bind (Action.note id) = none ∧
      (p.failed now ch).bind (Action.note id) = none := by
  unfold resent failed
  obtain hid | hact := h
  · constructor <;> split
    · exact if_neg hid
    · rfl
    · exact if_neg hid
    · rfl
  · have hdue : p.due now = false := by rw [due, hact, Bool.false_and]
    simp [hdue]

end Slot

variable {c : Timing} {ch : UInt8} {i : Fin cfg.pendMax}

theorem tracks_of_served {now : Nat}
    (h : (retxWorkFn cfg t now c ch).1.Tracks id i) : t.Tracks id i :=
  ⟨active_of_served h.1, served_id.symm.trans h.2⟩

theorem untracked_slot (h : ¬ t.Tracks id i) : (t.pend i).id ≠ id ∨ (t.pend i).active = false := by
  by_cases hid : (t.pend i).id = id
  · exact .inr (Bool.eq_false_iff.mpr fun hact => h ⟨hact, hid⟩)
  · exact .inl hid

theorem served_notes_untracked {now : Nat} (h : ∀ i, ¬ t.Tracks id i) :
    (retxWorkFn cfg t now c ch).2.filterMap (Action.note id) = [] := by
  have other (i : Fin cfg.pendMax) := notes_other now ch (untracked_slot (h i))
  rw [retxWorkFn, filterMap_append, filterMap_filterMap, filterMap_filterMap,
    filterMap_eq_nil_iff.mpr fun i _ => (other i).1,
    filterMap_eq_nil_iff.mpr fun i _ => (other i).2]
  rfl

theorem served_notes_tracked {now : Nat} (hu : t.Unique) (h : t.Tracks id i) :
    (retxWorkFn cfg t now c ch).2.filterMap (Action.note id) =
      (((t.pend i).resent now).bind (Action.note id)).toList ++
        (((t.pend i).failed now ch).bind (Action.note id)).toList := by
  have other {j : Fin cfg.pendMax} (hj : j ≠ i) :=
    notes_other now ch (untracked_slot fun hjt => hj (hu id j i hjt h))
  have hnd := nodup_finRange cfg.pendMax
  have hi := mem_finRange i
  rw [retxWorkFn, filterMap_append, filterMap_filterMap, filterMap_filterMap,
    filterMap_single hnd hi fun j _ hj => (other hj).1,
    filterMap_single hnd hi fun j _ hj => (other hj).2]

variable {acts : List Action} {t' : Table cfg.pendMax} {e : Event}

theorem called_unique (h : Called cfg t e t' acts) (hu : t.Unique) : t'.Unique := by
  cases h with
  | nothing => exact hu
  | taken i p hp hnew =>
    intro id j k hj hk
    -- a slot other than the one taken tracks what it tracked before, which is not the new id
    have old : ∀ {j}, j ≠ i → (t.set i p).Tracks id j → t.Tracks id j ∧ id ≠ p.id := by
      intro j hne hj
      have hjt := (tracks_set_other hne).mp hj
      refine ⟨hjt, ?_⟩
      rintro rfl
      exact hnew j hjt
    by_cases hji : j = i
    · by_cases hki : k = i
      · exact hji.trans hki.symm
      · subst hji
        exact absurd (tracks_set_self.mp hj).2.symm (old hki hk).2
    · by_cases hki : k = i
      · subst hki
        exact absurd (tracks_set_self.mp hk).2.symm (old hji hj).2
      · exact hu id j k (old hji hj).1 (old hki hk).1
  | released i _ _ _ =>
    intro id j k hj hk
    have old : ∀ {j}, (t.release i).Tracks id j → t.Tracks id j := by
      intro j hj
      by_cases hji : j = i
      · subst hji
        cases (tracks_set_self.mp hj).1
      · exact (tracks_set_other hji).mp hj
    exact hu id j k (old hj) (old hk)
  | served c ch =>
    intro id j k hj hk
    exact hu id j k (tracks_of_served hj) (tracks_of_served hk)

variable {p : Pending}

theorem taken_move (hu : t.Unique)
    (hu' : (t.set i p).Unique) (hp : p.active = true) (hnew : ∀ j, ¬ t.Tracks p.id j) :
    Move (t.left id)
      (((if (t.pend i).active then [Action.resolve (t.pend i).id .evicted] else []) ++
        [Action.track p.id p.retriesLeft]).filterMap (Action.note id)) ((t.set i p).left id) := by
  -- the slot's last send, if there is one, has another id
  have hev (hold : ¬ t.Tracks id i) :
      (if (t.pend i).active then [Action.resolve (t.pend i).id .evicted]
        else []).filterMap (Action.note id) = [] := by
    split
    · rename_i hact
      have hne : (t.pend i).id ≠ id := fun hid => hold ⟨hact, hid⟩
      simp [Action.note, hne]
    · rfl
  by_cases hid : p.id = id
  · subst hid
    have hafter : (t.set i p).left p.id = some p.retriesLeft := by
      rw [left_tracked hu' (tracks_set_self.mpr ⟨hp, rfl⟩), set_self]
    rw [filterMap_append, hev (hnew i), left_untracked hnew, hafter]
    simpa [Action.note] using Move.begun p.retriesLeft
  · have hnote : [Action.track p.id p.retriesLeft].filterMap (Action.note id) = [] := by
      simp [Action.note, hid]
    have hself : ¬ (t.set i p).Tracks id i := fun h => hid (tracks_set_self.mp h).2
    rw [filterMap_append, hnote]
    by_cases hold : t.Tracks id i
    · rw [left_tracked hu hold, left_set_gone hu hold hself, if_pos hold.1]
      simpa [Action.note, hold.2] using Move.ended (t.pend i).retriesLeft Outcome.evicted
    · rw [hev hold, left_set_same hu hu' hold hself]
      exact .quiet _

theorem released_move {resolved : UInt32} {outcome : Outcome}
    (hu : t.Unique) (hu' : (t.release i).Unique) (h : t.Tracks resolved i) :
    Move (t.left id) ([Action.resolve resolved outcome].filterMap (Action.note id))
      ((t.release i).left id) := by
  have hself : ¬ (t.release i).Tracks id i := by
    intro hi
    cases (tracks_set_self.mp hi).1
  by_cases hid : resolved = id
  · subst hid
    rw [left_tracked hu h, release, left_set_gone hu h hself]
    simpa [Action.note] using Move.ended (t.pend i).retriesLeft outcome
  · have hold : ¬ t.Tracks id i := fun hi => hid (h.2.symm.trans hi.2)
    rw [release, left_set_same hu hu' hold hself]
    simpa [Action.note, hid] using Move.quiet (t.left id)

theorem served_move {now : Nat} (hu : t.Unique) (hu' : (retxWorkFn cfg t now c ch).1.Unique) :
    Move (t.left id) ((retxWorkFn cfg t now c ch).2.filterMap (Action.note id))
      ((retxWorkFn cfg t now c ch).1.left id) := by
  by_cases hex : ∃ i, t.Tracks id i
  · obtain ⟨i, hi⟩ := hex
    have hpend : (retxWorkFn cfg t now c ch).1.pend i = (t.pend i).served now c := rfl
    have still : (((t.pend i).served now c).active = true) →
        (retxWorkFn cfg t now c ch).1.left id = some ((t.pend i).served now c).retriesLeft :=
      fun hact => left_tracked hu' ⟨hact, served_id.trans hi.2⟩
    rw [served_notes_tracked hu hi, left_tracked hu hi]
    obtain ⟨-, hs, hr, hf⟩ | ⟨k, -, hk, hact, hs, hr, hf⟩ | ⟨-, -, hs, hr, hf⟩ :=
      served_cases now c ch hi.1
    · have hact : ((t.pend i).served now c).active = true := by rw [hs]; exact hi.1
      rw [hr, hf, still hact, hs]
      exact .quiet _
    · rw [hr, hf, still hact, hs, hk]
      simpa [Action.note, hi.2] using @Move.retried Outcome k
    · have hafter : (retxWorkFn cfg t now c ch).1.left id = none := by
        refine left_untracked fun j hj => ?_
        have hji := hu id j i (tracks_of_served hj) hi
        subst hji
        rw [Tracks, hpend, hs] at hj
        cases hj.1
      rw [hr, hf, hafter]
      simpa [Action.note, hi.2] using
        Move.ended (t.pend i).retriesLeft (Outcome.exhausted (t.pend i).dest ch)
  · have hno : ∀ i, ¬ t.Tracks id i := fun i hi => hex ⟨i, hi⟩
    rw [served_notes_untracked hno, left_untracked hno,
      left_untracked fun i hi => hno i (tracks_of_served hi)]
    exact .quiet none

theorem called_move (id : UInt32) (h : Called cfg t e t' acts) (hu : t.Unique) :
    Move (t.left id) (acts.filterMap (Action.note id)) (t'.left id) := by
  have hu' := called_unique h hu
  cases h with
  | nothing => exact .quiet _
  | taken i p hp hnew =>
    obtain ⟨c, snt, -, rfl⟩ := hp
    exact taken_move hu hu' rfl hnew
  | released i resolved outcome h => exact released_move hu hu' h
  | served c ch => exact served_move hu hu'

/-- What holds of the table and of everything that was done. -/
structure Sys.Kept (s : Sys cfg) : Prop where
  unique : s.table.Unique
  history : ∀ id, ∃ h : History Outcome,
    s.log.filterMap (Action.note id) = h.notes ∧ h.left = s.table.left id
  armed : ∀ i, (s.table.pend i).active = true →
    ∃ due, s.table.timer = some due ∧ due ≤ max s.clock (s.table.pend i).nextDue
  justified : ∀ due, s.table.timer = some due →
    ∃ i, (s.table.pend i).active = true ∧ (s.table.pend i).nextDue ≤ due

theorem init_kept : (init cfg).Kept where
  unique := fun _ _ _ h => nomatch h.1
  history := by
    intro id
    refine ⟨History.empty, rfl, ?_⟩
    exact (left_untracked fun i hi => absurd hi.1 Bool.false_ne_true).symm
  armed := fun _ h => absurd h Bool.false_ne_true
  justified := nofun

theorem called_timer (h : Called cfg t e t' acts) : t' = t ∨ ∃ t'' : Table cfg.pendMax,
      t' = t''.rescheduleLocked e.now := by
  cases h with
  | nothing => exact .inl rfl
  | taken | released | served => exact .inr ⟨_, rfl⟩

variable {s : Sys cfg}

theorem step_kept (hk : s.Kept) (he : s.InOrder cfg e) : (s.step cfg e).Kept where
  unique := called_unique (called s.table e) hk.unique
  history := by
    intro id
    obtain ⟨h, hn, hl⟩ := hk.history id
    have hm := called_move id (called s.table e) hk.unique
    rw [← hl] at hm
    obtain ⟨h', hn', hl'⟩ := History.extend hm
    refine ⟨h', ?_, hl'⟩
    rw [hn', ← hn]
    exact filterMap_append
  armed := by
    intro i hi
    change ∃ due, (call cfg s.table e).1.timer = some due ∧
      due ≤ max e.now ((call cfg s.table e).1.pend i).nextDue
    change ((call cfg s.table e).1.pend i).active = true at hi
    obtain hsame | ⟨t'', ht⟩ := called_timer (called s.table e)
    · rw [hsame] at hi ⊢
      obtain ⟨due, hdue, hle⟩ := hk.armed i hi
      have hclock : s.clock ≤ e.now := he
      exact ⟨due, hdue, by omega⟩
    · rw [ht] at hi ⊢
      exact rescheduleLocked_armed e.now hi
  justified := by
    intro due hdue
    change (call cfg s.table e).1.timer = some due at hdue
    change ∃ i, ((call cfg s.table e).1.pend i).active = true ∧
      ((call cfg s.table e).1.pend i).nextDue ≤ due
    obtain hsame | ⟨t'', ht⟩ := called_timer (called s.table e)
    · rw [hsame] at hdue ⊢
      exact hk.justified due hdue
    · rw [ht] at hdue ⊢
      exact rescheduleLocked_timer hdue

theorem run_kept (hk : s.Kept) {es : List Event}
    (h : Guarded (step cfg) (InOrder cfg) s es) : (run (step cfg) s es).Kept :=
  run_keeps Kept hk (fun _ _ hk he => step_kept hk he) h

theorem called_track (h : Called cfg t e t' acts) {retries : Nat} (ha : .track id retries ∈ acts) :
    ∃ now c snt, e = .sent now c snt ∧ snt.id = id ∧ retries = c.retriesTo snt.dest := by
  cases h with
  | nothing => cases ha
  | taken i p hp _ =>
    obtain ⟨c, snt, he, rfl⟩ := hp
    refine ⟨_, c, snt, he, ?_⟩
    rw [mem_append, mem_singleton] at ha
    obtain ha | ha := ha
    · split at ha
      · cases mem_singleton.mp ha
      · cases ha
    · cases ha
      exact ⟨rfl, rfl⟩
  | released => cases mem_singleton.mp ha
  | served c ch =>
    rw [retxWorkFn, mem_append, mem_filterMap, mem_filterMap] at ha
    obtain ⟨i, -, hi⟩ | ⟨i, -, hi⟩ := ha
    · unfold resent at hi
      split at hi <;> cases hi
    · unfold failed at hi
      split at hi <;> cases hi

theorem run_track {es : List Event} {retries : Nat}
    (h : .track id retries ∈ (run (step cfg) (init cfg) es).log) :
    ∃ now c snt, .sent now c snt ∈ es ∧ snt.id = id ∧ retries = c.retriesTo snt.dest := by
  induction es using reverseRecOn with
  | nil => cases h
  | append_singleton es e ih =>
    rw [run_append] at h
    obtain h | h := mem_append.mp h
    · obtain ⟨now, c, snt, hmem, hid⟩ := ih h
      exact ⟨now, c, snt, mem_append_left _ hmem, hid⟩
    · obtain ⟨now, c, snt, rfl, hid⟩ := called_track (called _ e) h
      exact ⟨now, c, snt, mem_append_right _ (mem_singleton_self _), hid⟩

/-- The timer fires, not before it is due. -/
def Sys.Fires (s : Sys cfg) (e : Event) : Prop :=
  (∃ now c ch, e = .expired now c ch) ∧ s.InOrder cfg e ∧
    ∀ due, s.table.timer = some due → due ≤ e.now

theorem served_work_lt {now : Nat} (h : p.due now = true) :
    (if (p.served now c).active then (p.served now c).retriesLeft + 1 else 0) <
      if p.active then p.retriesLeft + 1 else 0 := by
  have hp := due_active h
  obtain ⟨hd, -⟩ | ⟨k, -, hk, hact, hs, -⟩ | ⟨-, -, hs, -⟩ :=
    served_cases now c 0 hp
  · rw [h] at hd
    cases hd
  · simp [hp, hact, hs, hk]
  · simp [hp, hs]

theorem served_work_le {now : Nat} :
    (if (p.served now c).active then (p.served now c).retriesLeft + 1 else 0) ≤
      if p.active then p.retriesLeft + 1 else 0 := by
  by_cases h : p.due now = true
  · exact (served_work_lt h).le
  · have hs : p.served now c = p := if_pos (by simpa using h)
    rw [hs]

theorem fires_work (hk : s.Kept) (he : s.Fires e) :
    (s.step cfg e).table.work ≤ s.table.work - 1 := by
  obtain ⟨⟨now, c, ch, rfl⟩, -, hdue⟩ := he
  by_cases hact : ∃ i, (s.table.pend i).active = true
  · obtain ⟨i, hi⟩ := hact
    obtain ⟨due, htimer, -⟩ := hk.armed i hi
    obtain ⟨k, hka, hkd⟩ := hk.justified due htimer
    have hlt : ((s.step cfg (.expired now c ch)).table.work) < s.table.work := by
      refine Finset.sum_lt_sum (fun j _ => served_work_le) ⟨k, Finset.mem_univ k, ?_⟩
      apply served_work_lt
      simp only [Pending.due, hka, Bool.true_and, decide_eq_true_eq]
      exact Nat.le_trans hkd (hdue due htimer)
    omega
  · have hzero : (s.step cfg (.expired now c ch)).table.work = 0 := by
      refine Finset.sum_eq_zero fun j _ => if_neg fun h => hact ⟨j, active_of_served h⟩
    omega

/-- A timer that is left to fire ends every attempt. -/
theorem drains (hk : s.Kept) {fires : List Event}
    (hf : Guarded (step cfg) Fires s fires) (hlen : s.table.work ≤ fires.length) :
    ∀ i, ((run (step cfg) s fires).table.pend i).active = false := by
  induction fires generalizing s with
  | nil =>
    intro i
    rw [run_nil]
    have hz : s.table.work = 0 := Nat.le_zero.mp hlen
    have hi := (Finset.sum_eq_zero_iff.mp hz) i (Finset.mem_univ i)
    by_contra hact
    rw [Bool.not_eq_false] at hact
    rw [if_pos hact] at hi
    cases hi
  | cons e fires ih =>
    obtain ⟨he, hrest⟩ := guarded_cons.mp hf
    have hwork := fires_work hk he
    rw [length_cons] at hlen
    exact ih (step_kept hk he.2.1) hrest (by omega)

theorem current_isSome_iff (hu : t.Unique) {hist : History Outcome}
    (hl : hist.left = t.left id) : hist.current.isSome ↔ ∃ i, t.Tracks id i := by
  have hsome : hist.left.isSome = hist.current.isSome := Option.isSome_map
  rw [← hsome, hl]
  constructor
  · intro h
    by_contra hno
    rw [left_untracked fun i hi => hno ⟨i, hi⟩] at h
    cases h
  · rintro ⟨i, hi⟩
    rw [left_tracked hu hi]
    rfl

theorem fires_inOrder {fires : List Event} (hf : Guarded (step cfg) Fires s fires) :
    Guarded (step cfg) (InOrder cfg) s fires :=
  fun done e hp => (hf done e hp).2.1

/-- Whatever reaches the table in order of time: an id is in one active slot at most; what was
done for it is a sequence of attempts, each retried as often as its send allows at most and ended
by one outcome, except the last while a slot tracks it; the timer is set for no later than each
active slot is due or, if overdue, than the last call; and in the end all attempts are ended. -/
theorem deliveries_reported_once (cfg : Config) (es : List Event)
    (h : Guarded (Sys.step cfg) (Sys.InOrder cfg) (Sys.init cfg) es) :
    let s := run (Sys.step cfg) (Sys.init cfg) es
    s.table.Unique ∧
    (∀ id, ∃ hist : History Outcome, s.log.filterMap (Action.note id) = hist.notes ∧
      (hist.current.isSome ↔ ∃ i, s.table.Tracks id i)) ∧
    (∀ id retries, .track id retries ∈ s.log → ∃ now c snt, .sent now c snt ∈ es ∧ snt.id = id ∧
      retries = c.retriesTo snt.dest) ∧
    (∀ i, (s.table.pend i).active = true →
      ∃ due, s.table.timer = some due ∧ due ≤ max s.clock (s.table.pend i).nextDue) ∧
    ∀ fires, Guarded (Sys.step cfg) Sys.Fires s fires → s.table.work ≤ fires.length →
      ∀ id, ∃ past : List (Ended Outcome),
        (run (Sys.step cfg) s fires).log.filterMap (Action.note id) =
          past.flatMap Ended.notes := by
  intro s
  have hk : s.Kept := run_kept init_kept h
  refine ⟨hk.unique, fun id => ?_, fun id retries => run_track, hk.armed, ?_⟩
  · obtain ⟨hist, hn, hl⟩ := hk.history id
    exact ⟨hist, hn, current_isSome_iff hk.unique hl⟩
  · intro fires hf hlen id
    have hk' : (run (step cfg) s fires).Kept := run_kept hk (fires_inOrder hf)
    have hnone := drains hk hf hlen
    obtain ⟨hist, hn, hl⟩ := hk'.history id
    have hcur : hist.current = none := by
      rw [← Option.not_isSome_iff_eq_none, current_isSome_iff hk'.unique hl]
      rintro ⟨i, hact, -⟩
      rw [hnone i] at hact
      cases hact
    refine ⟨hist.past, ?_⟩
    rw [hn, History.notes, hcur]
    exact append_nil _

end

/-- A node with two slots. -/
def pairConfig : Config := ⟨1, 2, Nat.two_pos⟩

/-- Two retries, a tenth of a second apart. -/
def tenth : Timing := ⟨2, 100, fun _ _ => 0⟩

/-- A direct message of this node that asks for an acknowledgement. -/
def message (id : UInt32) : Sent := ⟨[0], true, 1, 9, 1, id, 0, 0⟩

/-- Two messages are sent, a third pushes one out, the timer fires and acknowledgements come,
one of them twice. -/
def busyRun : List Event :=
  [.sent 0 tenth (message 7), .sent 40 tenth (message 8), .expired 100 tenth 0,
    .sent 120 tenth (message 9), .routing 150 ⟨9, 1, 7, some 0⟩, .routing 160 ⟨9, 1, 7, some 0⟩,
    .expired 220 tenth 0]

/-- The message pushed out is ended by its eviction, the acknowledged one was retried once and
is not reported again, and the third is still tracked. -/
theorem busyRun_reported :
    let s := run (Sys.step pairConfig) (Sys.init pairConfig) busyRun
    s.table.Unique ∧ (∃ i, s.table.Tracks 9 i) ∧
    s.log.filterMap (Action.note 7) = [.begun 2, .retried, .ended (.acknowledged 9)] ∧
    s.log.filterMap (Action.note 8) = [.begun 2, .ended .evicted] ∧
    ∃ hist : History Outcome, s.log.filterMap (Action.note 9) = hist.notes ∧
      hist.current.isSome := by
  intro s
  have hg : Guarded (step pairConfig) (InOrder pairConfig) (init pairConfig)
      busyRun := by
    simp only [busyRun, guarded_cons, InOrder]
    refine ⟨?_, ?_, ?_, ?_, ?_, ?_, ?_, guarded_nil⟩ <;> decide
  obtain ⟨hu, hhist, -⟩ := deliveries_reported_once pairConfig busyRun hg
  obtain ⟨hist, hn, hc⟩ := hhist 9
  have ht : ∃ i, s.table.Tracks 9 i := ⟨⟨1, by decide⟩, by decide +kernel, by decide +kernel⟩
  exact ⟨hu, ht, by decide +kernel, by decide +kernel, hist, hn, hc.mpr ht⟩

/-- An id that is sent again after its outcome is tracked again and has another outcome, with a
retransmission between the two; and a slot that is overdue when the timer is set has it set for
later than the slot was due. -/
theorem resent_id_reported_again :
    let s := run (Sys.step pairConfig) (Sys.init pairConfig)
      [.sent 0 tenth (message 7), .routing 50 ⟨9, 1, 7, some 0⟩, .sent 60 tenth (message 7),
        .expired 160 tenth 0, .routing 170 ⟨9, 1, 7, some 0⟩, .sent 180 tenth (message 5),
        .sent 300 tenth (message 6)]
    s.log.filterMap (Action.note 7) =
      [.begun 2, .ended (.acknowledged 9), .begun 2, .retried, .ended (.acknowledged 9)] ∧
    s.table.timer = some 300 ∧
    ∃ i, (s.table.pend i).active = true ∧ (s.table.pend i).nextDue = 280 := by
  exact ⟨by decide +kernel, by decide +kernel, ⟨0, by decide⟩, by decide +kernel,
    by decide +kernel⟩

end Zephyrtastic.Reliable
