import Zephyrtastic.Outbound.Cancel
import Zephyrtastic.Outbound.Conservation

/-!
# What the sleepers of the queue are owed

The worker sleeps until the earliest deadline it has seen, or for good. A caller with a
timeout may give up while its frame is in the queue.
-/

namespace Zephyrtastic.Outbound

open List Run

variable {ι : Type}

/-- How long until a frame may be sent. -/
def ObItem.untilDue (now : UInt32) (it : ObItem ι) : Nat :=
  if obEligible it now then 0 else (it.sendAfter - now).toNat

theorem waitMs_le {order : Order} {now w : UInt32} {items : List (ObItem ι)}
    (hpick : pickNext order now items = none) (hw : waitMs now items = some w) :
    ∀ it ∈ items, max w.toNat 1 ≤ it.untilDue now := by
  intro it hit
  have hlater := best_none hpick it hit
  rw [ObItem.untilDue, if_neg (by rw [hlater]; exact Bool.false_ne_true)]
  have hle := (waitMs_some hw).2 it hit hlater
  rw [UInt32.le_iff_toNat_le] at hle
  have hnot : ¬ (now - it.sendAfter).toNat < 0x80000000 := by
    rw [obEligible, Bool.or_eq_false_iff, decide_eq_false_iff_not] at hlater
    exact fun h => hlater.2 (UInt32.lt_iff_toNat_lt.mpr h)
  have hnow := now.toNat_lt
  have hdue := it.sendAfter.toNat_lt
  rw [UInt32.toNat_sub] at hle hnot ⊢
  omega

theorem ObItem.untilDue_tick (uptime ms : Nat) (it : ObItem ι) :
    uptime + it.untilDue (UInt32.ofNat uptime) ≤
      uptime + ms + it.untilDue (UInt32.ofNat (uptime + ms)) := by
  have hlt := it.sendAfter.toNat_lt
  by_cases h0 : it.sendAfter = 0
  · simp [untilDue, obEligible, h0]
  have hbeq : (it.sendAfter == 0) = false := by simpa using h0
  simp only [untilDue, obEligible, hbeq, Bool.false_or, decide_eq_true_eq,
    UInt32.lt_iff_toNat_lt, UInt32.toNat_sub, UInt32.toNat_ofNat', UInt32.reduceToNat]
  split <;> split <;> omega

namespace Sys

/-- The worker wakes by the earliest deadline in the queue, or has a wakeup on its way. -/
def Timely (s : Sys ι) : Prop :=
  ∀ due, s.worker = .asleep (some due) →
    s.Signalled ∨ ∀ it ∈ s.obItems, due ≤ s.uptime + it.untilDue s.now

/-- A late deferral brings no frame forward while the worker sleeps for a time. -/
def Postpones (s : Sys ι) : Event ι → Prop
  | .deferLate src id delayMs => ∀ due, s.worker = .asleep (some due) → ∀ it ∈ s.obItems,
      it.untilDue s.now ≤ (deferLate src id s.now delayMs it).untilDue s.now
  | _ => True

variable {c : Config} {s s' : Sys ι}

theorem Timely.minds (h : s.Timely) (hs : Minds s s') : s'.Timely := by
  intro due hw
  obtain hsig | ⟨hno, items, worker, uptime⟩ := hs
  · exact .inl hsig
  · rw [worker] at hw
    rw [items, now, uptime]
    exact .inr ((h due hw).resolve_left hno)

variable [DecidableEq ι]

theorem Timely.worked (h : s.Timely) {o : Offer} {delayMs : UInt32}
    (hs : Worked c s o delayMs s') : s'.Timely := by
  cases hs with
  | still => exact h
  | sleep idle nothing =>
    intro due hsleep
    obtain ⟨w, hw, rfl⟩ := Option.map_eq_some_iff.mp (Worker.asleep.inj hsleep)
    exact .inr fun it hit => Nat.add_le_add_left (waitMs_le nothing hw it hit) _
  | take | wake | hold | offer | stale | transmit | finish | requeue | signal | report =>
    exact fun _ hsleep => nomatch hsleep

theorem Timely.step (h : s.Timely) (e : Event ι) (he : s.Postpones e) : (s.step c e).Timely := by
  cases e with
  | call t r ready => exact h.minds (step_called c s t r ready).minds
  | caller t => exact h.minds (callerStep_advanced c s t).minds
  | worker o delayMs => exact h.worked (workerStep_worked c s o delayMs)
  | cancel src id =>
    intro due hw
    exact (h due hw).imp_right fun hall it hit => hall it (mem_filter.mp hit).1
  | deferLate src id delayMs =>
    intro due hw
    refine (h due hw).imp_right fun hall it hit => ?_
    obtain ⟨it, hmem, rfl⟩ := mem_map.mp hit
    exact Nat.le_trans (hall it hmem) (Nat.add_le_add_left (he due hw it hmem) _)
  | tick ms =>
    intro due hw
    refine (h due hw).imp_right fun hall it hit => ?_
    exact Nat.le_trans (hall it hit) (it.untilDue_tick s.uptime ms)
  | setSched sched | setPreset generation => exact h

/-- **The worker does not sleep on work**, where no late deferral brings a frame forward meanwhile.
Asleep for good it has an empty queue, and asleep with a timeout it wakes by the earliest deadline;
while no signal is at hand or on its way. -/
theorem never_sleeps_on_work (c : Config) (sched : Sched) (es : List (Event ι))
    (hlate : Guarded (step c) Postpones (init sched) es) :
    let s := run (step c) (init sched) es
    s.obAvail = 0 → (∀ t n blocking, s.caller t ≠ .appended n blocking) →
      (s.worker = .asleep none → s.obItems = []) ∧
      ∀ due, s.worker = .asleep (some due) →
        ∀ it ∈ s.obItems, due ≤ s.uptime + it.untilDue s.now := by
  intro s havail hcallers
  have hno : ¬ s.Signalled := by
    rintro (hpos | ⟨t, n, blocking, hc⟩)
    · omega
    · exact hcallers t n blocking hc
  refine ⟨fun hw => ?_, fun due hw => ?_⟩
  · by_contra hitems
    exact hno ((inv_run c sched es).2 hw hitems)
  · have htimely : s.Timely :=
      run_keeps Timely (fun _ hw => nomatch hw) (fun _ e h he => h.step e he) hlate
    exact (htimely due hw).resolve_left hno

/-- A relay that waits for a second; the worker is asleep. -/
def relayDeferred : List (Event Unit) :=
  [.call () { relayOfTwo with delayMs := 1000 } true, .caller (), .caller (), .worker aired 0,
    .worker aired 0, .worker aired 0]

theorem never_sleeps_on_work_deferred :
    let s := run (step quietNode) (init ⟨.fifo, .dropNewest, 8⟩) relayDeferred
    s.worker = .asleep (some 1000) ∧ ∀ it ∈ s.obItems, 1000 ≤ s.uptime + it.untilDue s.now := by
  intro s
  have hlate : Guarded (step quietNode) Postpones (init ⟨.fifo, .dropNewest, 8⟩) relayDeferred := by
    simp [relayDeferred, guarded_cons, Postpones]
  have hw : s.worker = .asleep (some 1000) := by decide +kernel
  refine ⟨hw, (never_sleeps_on_work quietNode ⟨.fifo, .dropNewest, 8⟩ relayDeferred hlate
    (by decide +kernel) (fun t n blocking => ?_)).2 1000 hw⟩
  nofun

/-- A late deferral to a tenth of a second from now: the worker still sleeps for the second. -/
theorem deferred_while_asleep :
    let s := run (step quietNode) (init ⟨.fifo, .dropNewest, 8⟩)
      (relayDeferred ++ [.deferLate 1 2 100])
    s.worker = .asleep (some 1000) ∧ s.obAvail = 0 ∧ s.caller () = .returned .ok ∧
      s.obItems.map (ObItem.untilDue s.now) = [100] := by
  decide +kernel

/-! ### Callers with a timeout -/

/-- The queue, with callers that may wait for a finite time. -/
inductive TimedEvent (ι : Type) where
  | event (e : Event ι)
  /-- The timeout of a call runs out in its `k_sem_take`. -/
  | expire (t : ι)

/-- `-EAGAIN` of a wait for space, or for a result that has not come. -/
def expire (s : Sys ι) (t : ι) : Sys ι :=
  match s.caller t, s.answer t with
  | .waiting _, _ | .awaiting _, none => s.setCaller t (.returned (.err (.other 11)))
  | _, _ => s

def timedStep (c : Config) (s : Sys ι) : TimedEvent ι → Sys ι
  | .event e => s.step c e
  | .expire t => s.expire t

/-- No call gives up on a frame it has in the queue. -/
def Patient (s : Sys ι) : TimedEvent ι → Prop
  | .expire t => ∀ n, s.caller t ≠ .awaiting n
  | .event _ => True

theorem Inv.expire (h : Inv c s) {t : ι} (ht : s.Patient (.expire t)) : Inv c (s.expire t) := by
  unfold Sys.expire
  split
  · rename_i r hc
    exact h.setCaller fun n => iff_of_false id (by rw [hc]; exact id)
  · rename_i n hc _
    exact absurd hc (ht n)
  · exact h

/-- **No frame outlives its waiter**, if no timeout runs out on a frame in the queue: once a call
has returned, no frame that is queued or in the worker's hands has its `done`. -/
theorem no_frame_outlives_waiter (c : Config) (sched : Sched) (es : List (TimedEvent ι))
    (hpatient : Guarded (timedStep c) Patient (init sched) es) :
    let s := run (timedStep c) (init sched) es
    ∀ t, (s.caller t).free → ∀ it ∈ s.pending, it.done ≠ some t := by
  intro s t hfree it hit hdone
  have hinv : Inv c s := by
    refine run_keeps (Inv c) (inv_init c sched) (fun _ e h he => ?_) hpatient
    cases e with
    | event e => exact h.step e
    | expire t => exact h.expire he
  have hticket : (it.serial, some t) ∈ s.tickets := mem_map.mpr
    ⟨it, hit, by rw [ObItem.ticket, hdone]⟩
  exact not_awaits_of_free hfree _ (hinv.owed _ _ hticket).1

/-- A relay whose caller waits for it. -/
def relayAwaited : List (TimedEvent Unit) :=
  [.event (.call () { relayOfTwo with blocking := true } true), .event (.caller ()),
    .event (.caller ())]

theorem no_frame_outlives_waiter_answered :
    let es := relayAwaited ++ replicate 5 (.event (.worker aired 0)) ++ [.event (.caller ())]
    let s := run (timedStep quietNode) (init ⟨.fifo, .dropNewest, 8⟩) es
    s.caller () = .returned .ok ∧ ∀ it ∈ s.pending, it.done ≠ some () := by
  intro es s
  have hpatient : Guarded (timedStep quietNode) Patient (init ⟨.fifo, .dropNewest, 8⟩) es := by
    simp [es, relayAwaited, replicate, guarded_cons, Patient]
  have hc : s.caller () = .returned .ok := by decide +kernel
  refine ⟨hc, no_frame_outlives_waiter quietNode ⟨.fifo, .dropNewest, 8⟩ es hpatient () ?_⟩
  rw [hc]
  trivial

/-- The timeout runs out with the frame in the queue: the call has returned, and the frame keeps
the address of its `done`. -/
theorem frame_outlives_waiter :
    let s := run (timedStep quietNode) (init ⟨.fifo, .dropNewest, 8⟩)
      (relayAwaited ++ [.expire ()])
    s.caller () = .returned (.err (.other 11)) ∧ s.pending.map ObItem.done = [some ()] := by
  decide +kernel

end Sys

end Zephyrtastic.Outbound
