import Zephyrtastic.Outbound.Worker

/-!
# A cancelled relay stays cancelled

`meshtastic_outbound_cancel` looks through the queue. A frame the worker holds at
that moment is not there, and when the radio answers DEFER it goes back into the
queue and is offered again.
-/

namespace Zephyrtastic.Outbound

open List Run

namespace Sys

variable {ι : Type} [DecidableEq ι]

/-- No cancel names a frame between its dequeue and its offer, and the next statement does not
put back a frame that a cancel named while it was held. -/
def keepsRecall (c : Config) (s : Sys ι) : Event ι → Prop
  | .cancel src id => ∀ it ∈ s.worker.dequeued, it.copyOf src id = false
  | .worker _ _ => ∀ it, s.worker = .offered it none → s.recalled = true →
      c.deferMax ≤ it.defers ∨ c.obMax ≤ s.obItems.length
  | _ => True

/-- Since a cancel: every copy in the queue, in the worker's hands or handed out was accepted
after it, but for the one that was being offered. -/
structure Withdrawn (src id : UInt32) (accepted handed : Nat) (s : Sys ι) : Prop where
  queue : ∀ it ∈ s.obItems, it.copyOf src id = true → accepted ≤ it.serial
  dequeued : ∀ it ∈ s.worker.dequeued, it.copyOf src id = true → accepted ≤ it.serial
  held : ∀ it ∈ s.worker.held, it.copyOf src id = true → accepted ≤ it.serial ∨ s.recalled = true
  since : ∀ it ∈ s.handed.drop handed, it.copyOf src id = true → accepted ≤ it.serial
  acceptedLe : accepted ≤ s.accepted.length
  handedLe : handed ≤ s.handed.length

omit [DecidableEq ι] in
theorem copyOf_congr {it it' : ObItem ι} (hwire : it'.wire = it.wire)
    (hticket : it'.ticket = it.ticket) (src id : UInt32) :
    it'.copyOf src id = it.copyOf src id ∧ it'.serial = it.serial := by
  obtain ⟨hserial, hdone⟩ := Prod.mk.inj hticket
  refine ⟨?_, hserial⟩
  simp only [ObItem.copyOf, ObItem.src, ObItem.id, hwire, hdone]

variable {c : Config} {s s' : Sys ι} {src id : UInt32} {accepted handed : Nat}

omit [DecidableEq ι] in
theorem withdrawn_cancel (c : Config) (s : Sys ι) (src id : UInt32)
    (hok : s.keepsRecall c (.cancel src id)) :
    Withdrawn src id s.accepted.length s.handed.length (s.cancel c src id) where
  queue := by
    intro it hit hcopy
    have hkept := (mem_filter.mp hit).2
    simp [hcopy] at hkept
  dequeued := by
    intro it hit hcopy
    rw [hok it hit] at hcopy
    cases hcopy
  held := by
    intro it hit hcopy
    have hany : s.worker.held.any (ObItem.copyOf src id) = true :=
      any_eq_true.mpr ⟨it, hit, hcopy⟩
    simp [cancel, hany]
  since := by
    intro it hit
    simp [cancel] at hit
  acceptedLe := Nat.le_refl _
  handedLe := Nat.le_refl _

section
variable (h : Withdrawn src id accepted handed s)
include h

omit [DecidableEq ι] in
theorem Withdrawn.cancel (src' id' : UInt32) :
    Withdrawn src id accepted handed (s.cancel c src' id') := by
  refine { h with queue := ?_, held := ?_ }
  · intro it hit hcopy
    exact h.queue it (mem_filter.mp hit).1 hcopy
  · intro it hit hcopy
    obtain hnew | hrecalled := h.held it hit hcopy
    · exact .inl hnew
    · exact .inr (by simp [Sys.cancel, hrecalled])

omit [DecidableEq ι] in
theorem Withdrawn.take {i : Nat} {it : ObItem ι}
    (found : s.obItems[i]? = some it) : Withdrawn src id accepted handed (s.take i it) := by
  have hit : it ∈ s.obItems := mem_of_getElem? found
  refine { h with queue := ?_, dequeued := ?_, held := ?_ }
  · intro x hx hcopy
    exact h.queue x (mem_of_mem_eraseIdx hx) hcopy
  · intro x hx hcopy
    obtain rfl : x = it := mem_singleton.mp hx
    exact h.queue x hit hcopy
  · intro x hx hcopy
    obtain rfl : x = it := mem_singleton.mp hx
    exact .inl (h.queue x hit hcopy)

omit [DecidableEq ι] in
theorem Withdrawn.offer {it : ObItem ι} (offering : s.worker = .offering it)
    {ret : Option Outcome} (items : s'.obItems = s.obItems) (worker : s'.worker = .offered it ret)
    (handed' : s'.handed = s.handed ++ [it]) (accepted' : s'.accepted = s.accepted) :
    Withdrawn src id accepted handed s' := by
  have hnew : it.copyOf src id = true → accepted ≤ it.serial := by
    refine h.dequeued it ?_
    rw [offering]
    exact mem_singleton_self it
  refine ⟨items ▸ h.queue, ?_, ?_, ?_, accepted' ▸ h.acceptedLe, ?_⟩
  · rw [worker]
    intro x hx
    cases hx
  · rw [worker]
    intro x hx hcopy
    obtain rfl : x = it := mem_singleton.mp hx
    exact .inl (hnew hcopy)
  · intro x hx hcopy
    simp only [handed', drop_append_of_le_length h.handedLe, mem_append, mem_singleton] at hx
    obtain hx | rfl := hx
    · exact h.since x hx hcopy
    · exact hnew hcopy
  · rw [handed', length_append]
    exact Nat.le_add_right_of_le h.handedLe

omit [DecidableEq ι] in
theorem Withdrawn.requeue {it : ObItem ι}
    (offered : s.worker = .offered it none) (hkept : s.recalled ≠ true) (delayMs : UInt32) :
    Withdrawn src id accepted handed (s.requeue it delayMs) := by
  have hheld : it ∈ s.worker.held := by
    rw [offered]
    exact mem_singleton_self it
  refine { h with queue := ?_, dequeued := ?_, held := ?_ }
  · intro x hx hcopy
    simp only [Sys.requeue, mem_append, mem_singleton] at hx
    obtain hx | rfl := hx
    · exact h.queue x hx hcopy
    · exact (h.held it hheld hcopy).resolve_right hkept
  all_goals
    intro x hx
    cases hx

theorem Withdrawn.shift {e : Event ι} (hshift : Shift c s e s') (hok : s.keepsRecall c e) :
    Withdrawn src id accepted handed s' := by
  cases hshift with
  | stay f same items held' handed' accepted' recalled' dequeued' =>
    refine ⟨?_, fun it hit => h.dequeued it (dequeued' hit), ?_, ?_, accepted' ▸ h.acceptedLe,
      handed' ▸ h.handedLe⟩
    · intro it hit hcopy
      rw [items] at hit
      obtain ⟨x, hx, rfl⟩ := mem_map.mp hit
      obtain ⟨hsame, hserial⟩ := copyOf_congr (same x).1 (same x).2 src id
      rw [hserial]
      exact h.queue x hx (hsame ▸ hcopy)
    · rw [held', recalled']
      exact h.held
    · rw [handed']
      exact h.since
  | accept t r kept gated sub items worker handed' accepted' recalled' =>
    refine ⟨?_, worker ▸ h.dequeued, ?_, ?_, ?_, handed' ▸ h.handedLe⟩
    · intro it hit hcopy
      rw [items, mem_append, mem_singleton] at hit
      obtain hit | rfl := hit
      · exact h.queue it (sub.subset hit) hcopy
      · exact h.acceptedLe
    · rw [worker, recalled']
      exact h.held
    · rw [handed']
      exact h.since
    · rw [accepted', length_append]
      exact Nat.le_add_right_of_le h.acceptedLe
  | cancel src' id' event eq =>
    subst eq
    exact h.cancel src' id'
  | take i it idle found eq =>
    subst eq
    exact h.take found
  | offer it offering ret items worker handed' accepted' =>
    exact h.offer offering items worker handed' accepted'
  | putBack it o delayMs event offered again room eq =>
    subst eq event
    refine h.requeue offered (fun hrecalled => ?_) delayMs
    obtain hcap | hfull := hok it offered hrecalled
    · exact absurd hcap again
    · exact absurd hfull room
  | release it ret finished eq =>
    subst eq
    refine { h with dequeued := ?_, held := ?_ }
    all_goals
      intro x hx
      cases hx

end

/-- Every copy that is handed out after a cancel was accepted after it, in every run in which no
cancel names a frame between its dequeue and its offer, and no frame named by a cancel while it
was offered goes back into the queue. -/
theorem cancel_final (c : Config) (sched : Sched) (before after : List (Event ι))
    (src id : UInt32)
    (hok : Guarded (Sys.step c) (keepsRecall c) (init sched)
      (before ++ .cancel src id :: after)) :
    let s := run (Sys.step c) (init sched) before
    let s' := run (Sys.step c) (init sched) (before ++ .cancel src id :: after)
    ∀ it ∈ s'.handed.drop s.handed.length, it.copyOf src id = true →
      s.accepted.length ≤ it.serial := by
  intro s s'
  obtain ⟨hcancel, hafter⟩ := guarded_cons.mp hok.suffix
  have hsplit : s' = run (Sys.step c) (s.cancel c src id) after := by
    simp only [s', run_append_list]
    rfl
  have hw := run_keeps (Withdrawn src id _ _) (withdrawn_cancel c s src id hcancel)
    (fun _ e h hok => h.shift (step_shift c _ e) hok) hafter
  rw [hsplit]
  exact hw.since

/-- A relay of packet 2 of node 1. -/
def relayOfTwo : Request where
  wire := [0xff, 0xff, 0xff, 0xff, 1, 0, 0, 0, 2, 0, 0, 0, 3, 8, 0, 7]
  tier := 1
  blocking := false
  delayMs := 0
  attach := 0

def relayQueued : List (Event Unit) := [.call () relayOfTwo true, .caller (), .caller ()]

/-- The frame goes on the air; the air is in use. -/
def aired : Offer := ⟨none, false, some .ok⟩

def airBusy : Offer := ⟨none, false, none⟩

theorem cancel_final_while_queued :
    let s' := run (Sys.step quietNode) (init ⟨.priority, .dropLowest, 8⟩)
      (relayQueued ++ .cancel 1 2 :: [.worker aired 0])
    s'.ended = [⟨(0, none), .cancelled⟩] ∧
      ∀ it ∈ s'.handed.drop 0, it.copyOf 1 2 = true → 1 ≤ it.serial := by
  refine ⟨by decide +kernel, ?_⟩
  refine cancel_final quietNode ⟨.priority, .dropLowest, 8⟩ relayQueued [.worker aired 0] 1 2 ?_
  simp only [relayQueued, cons_append, nil_append, guarded_cons]
  refine ⟨trivial, trivial, trivial, ?_, ?_, guarded_nil⟩
  all_goals
    intro it h
    cases h

/-- The cancel comes while the radio has the frame, and the answer is DEFER. -/
theorem cancelled_relay_offered_again :
    let before := relayQueued ++ [.worker airBusy 0, .worker airBusy 0, .worker airBusy 0]
    let after := [.worker aired 5, .worker aired 0, .tick 5, .worker aired 0, .worker aired 0,
      .worker aired 0]
    let s := run (Sys.step quietNode) (init ⟨.priority, .dropLowest, 8⟩) before
    let s' := run (Sys.step quietNode) (init ⟨.priority, .dropLowest, 8⟩)
      (before ++ .cancel 1 2 :: after)
    ¬∀ it ∈ s'.handed.drop s.handed.length, it.copyOf 1 2 = true →
      s.accepted.length ≤ it.serial := by
  decide +kernel

end Sys

end Zephyrtastic.Outbound
