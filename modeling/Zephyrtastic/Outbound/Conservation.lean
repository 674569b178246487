import Zephyrtastic.Outbound.Worker

/-!
# No frame is lost or doubled

Every frame `outbound_enqueue` accepts has a number. The numbers of the frames
that have ended and of those still in the queue or in the worker's hands are
together the numbers given out, each once.
-/

namespace Zephyrtastic.Outbound

open Function List Run Sys ObItem Worker

/-- The caller has a frame in the queue and waits, or is about to wait, for its result. -/
def Caller.awaits : Caller → Nat → Prop
  | .appended n true, m => n = m
  | .awaiting n, m => n = m
  | _, _ => False

variable {n : Nat} {pc : Caller}

theorem Caller.awaits_unique {m : Nat} (hn : pc.awaits n) (hm : pc.awaits m) : n = m := by
  cases pc with
  | appended k blocking =>
    cases blocking with
    | true => exact hn.symm.trans hm
    | false => cases hn
  | awaiting k => exact hn.symm.trans hm
  | idle | gated r | waiting r | returned r => cases hn

namespace Sys

variable {ι : Type}

def tickets (s : Sys ι) : List (Nat × Option ι) := s.pending.map ObItem.ticket

structure Inv (c : Config) (s : Sys ι) : Prop where
  depth : s.obItems.length ≤ c.obMax
  account : (s.ended.map Ending.ticket ++ s.tickets).Perm s.accepted
  numbered : s.accepted.map Prod.fst = List.range s.accepted.length
  spared : ∀ e ∈ s.ended, e.ticket.2.isSome = true → ∃ o, e.fate = .finished o
  told : s.told = s.ended.filterMap Ending.told
  /-- Whoever waits is the caller of that frame, and has not been told. -/
  owed : ∀ n t, (n, some t) ∈ s.tickets → (s.caller t).awaits n ∧ s.answer t = none
  /-- Who waits has its frame pending, or its result. -/
  waits : ∀ t n, (s.caller t).awaits n →
    (n, some t) ∈ s.tickets ∨ ∃ r, s.answer t = some r ∧ (n, t, r) ∈ s.told
  mail : ∀ t r, s.answer t = some r → ∃ n, (s.caller t).awaits n

variable {c : Config} {s s' : Sys ι}

theorem Inv.removed (h : Inv c s) (gone : List (ObItem ι)) (fate : Fate)
    (hd : s'.obItems.length ≤ c.obMax)
    (hp : (gone.map ticket ++ s'.tickets).Perm s.tickets)
    (hfree : ∀ it ∈ gone, it.done = none)
    (he : s'.ended = s.ended ++ gone.map fun it => ⟨it.ticket, fate⟩)
    (ha : s'.accepted = s.accepted) (ht : s'.told = s.told) (hc : s'.caller = s.caller)
    (hans : s'.answer = s.answer) : Inv c s' where
  depth := hd
  account := by
    have hends : (gone.map fun it => (⟨it.ticket, fate⟩ : Ending ι)).map Ending.ticket
        = gone.map ticket := by simp
    rw [he, ha, map_append, hends, append_assoc]
    exact (hp.append_left _).trans h.account
  numbered := by rw [ha]; exact h.numbered
  spared := by
    intro e hm hw
    rw [he, mem_append, mem_map] at hm
    obtain hm | ⟨it, hit, rfl⟩ := hm
    · exact h.spared e hm hw
    · simp [ticket, hfree it hit] at hw
  told := by
    have hnone :
        (gone.map fun it => (⟨it.ticket, fate⟩ : Ending ι)).filterMap Ending.told = [] := by
      rw [filterMap_eq_nil_iff]
      intro e hm
      obtain ⟨it, hit, rfl⟩ := mem_map.mp hm
      simp [Ending.told, ticket, hfree it hit]
    rw [ht, he, filterMap_append, hnone, append_nil]
    exact h.told
  owed := by
    intro n t hm
    rw [hc, hans]
    exact h.owed n t (hp.mem_iff.mp (mem_append_right _ hm))
  waits := by
    intro t n hw
    rw [hc] at hw
    rw [hans, ht]
    obtain hm | hr := h.waits t n hw
    · refine .inl ?_
      obtain hgone | hm := mem_append.mp (hp.mem_iff.mpr hm)
      · obtain ⟨it, hit, heq⟩ := mem_map.mp hgone
        simp [ticket, hfree it hit] at heq
      · exact hm
    · exact .inr hr
  mail := by rw [hc, hans]; exact h.mail

theorem Inv.moved (h : Inv c s) (hd : s'.obItems.length ≤ c.obMax)
    (hp : s'.tickets.Perm s.tickets) (he : s'.ended = s.ended) (ha : s'.accepted = s.accepted)
    (ht : s'.told = s.told) (hc : s'.caller = s.caller) (hans : s'.answer = s.answer) : Inv c s' :=
  h.removed [] .evicted hd hp nofun (he.trans (append_nil _).symm) ha ht hc hans

theorem Inv.nodup (h : Inv c s) : (s.ended.map Ending.ticket ++ s.tickets).Nodup := by
  have hacc : s.accepted.Nodup := by
    refine List.Nodup.of_map Prod.fst ?_
    rw [h.numbered]
    exact nodup_range
  exact h.account.nodup_iff.mpr hacc

theorem tickets_eq (s : Sys ι) : s.tickets = s.worker.held.map ticket ++ s.obItems.map ticket := by
  rw [tickets, pending, map_append]

theorem soft_le (c : Config) (s : Sys ι) : s.soft c ≤ c.obMax :=
  Nat.max_le.mpr ⟨c.obMax_pos, Nat.min_le_right _ _⟩

theorem Inv.evict (h : Inv c s) {i : Nat} {victim : ObItem ι}
    (hv : evictVictim s.obItems = some (i, victim)) : Inv c (s.evict i victim) := by
  obtain ⟨hi, hfree⟩ := best_found hv
  refine h.removed [victim] .evicted ?_ ?_ ?_ rfl rfl rfl rfl rfl
  · exact Nat.le_trans (length_eraseIdx_le _ _) h.depth
  · rw [tickets_eq, tickets_eq]
    have hitems := (perm_eraseIdx hi).map ticket
    have hfront : (victim.ticket :: (s.worker.held.map ticket
        ++ (s.obItems.eraseIdx i).map ticket)).Perm
          (s.worker.held.map ticket ++ (victim :: s.obItems.eraseIdx i).map ticket) :=
      perm_middle.symm
    exact hfront.trans (hitems.append_left _)
  · intro it hit
    obtain rfl := mem_singleton.mp hit
    exact Option.isNone_iff_eq_none.mp hfree

section
variable (h : Inv c s)
include h

theorem Inv.take {i : Nat} {it : ObItem ι} (hw : s.worker.held = [])
    (hi : s.obItems[i]? = some it) : Inv c (s.take i it) := by
  refine h.moved ?_ ?_ rfl rfl rfl rfl rfl
  · exact Nat.le_trans (length_eraseIdx_le _ _) h.depth
  · rw [tickets_eq, tickets_eq, hw]
    exact (perm_eraseIdx hi).map ticket

theorem Inv.requeue {it : ObItem ι} (hw : s.worker = .offered it none)
    (hroom : ¬c.obMax ≤ s.obItems.length) (delayMs : UInt32) : Inv c (s.requeue it delayMs) := by
  refine h.moved ?_ ?_ rfl rfl rfl rfl rfl
  · simp only [Sys.requeue, length_append, length_singleton]
    omega
  · rw [tickets_eq, tickets_eq, hw]
    simp only [Sys.requeue, held, map_append, map_cons, map_nil,
      nil_append]
    exact perm_append_comm

theorem Inv.cancel (src id : UInt32) : Inv c (s.cancel c src id) := by
  refine h.removed (cancelLocked src id s.obItems).2 .cancelled ?_ ?_ ?_ rfl rfl rfl rfl rfl
  · exact Nat.le_trans (length_filter_le _ _) h.depth
  · rw [tickets_eq, tickets_eq, ← append_assoc]
    refine (perm_append_comm.append_right _).trans ?_
    rw [append_assoc]
    refine List.Perm.append_left _ ?_
    have hp := (cancelLocked_perm src id s.obItems).map ticket
    rwa [map_append] at hp
  · intro it hit
    have hcopy := (mem_filter.mp hit).2
    simp only [copyOf, Bool.and_eq_true] at hcopy
    exact Option.isNone_iff_eq_none.mp hcopy.1.1.2

end

theorem inv_init (c : Config) (sched : Sched) : Inv c (init sched : Sys ι) where
  depth := Nat.zero_le _
  account := .refl _
  numbered := rfl
  spared := nofun
  told := rfl
  owed := nofun
  waits := nofun
  mail := nofun

variable [DecidableEq ι] {t : ι} {r : Request}

/-- The caller goes on, and waits for the same frame as before or for none. -/
theorem Inv.setCaller (h : Inv c s) (hsame : ∀ n, pc.awaits n ↔ (s.caller t).awaits n) :
    Inv c (s.setCaller t pc) := by
  have hall : ∀ u n, ((s.setCaller t pc).caller u).awaits n ↔ (s.caller u).awaits n := by
    intro u n
    by_cases hu : u = t
    · subst hu
      simpa [setCaller] using hsame n
    · simp [Sys.setCaller, update_of_ne hu]
  exact ⟨h.depth, h.account, h.numbered, h.spared, h.told,
    fun n u hm => ⟨(hall u n).mpr (h.owed n u hm).1, (h.owed n u hm).2⟩,
    fun u n hw => h.waits u n ((hall u n).mp hw),
    fun u r hr => (h.mail u r hr).imp fun n hw => (hall u n).mpr hw⟩

theorem tickets_append (s : Sys ι) (t : ι) (r : Request) :
    (s.append t r).tickets = s.tickets ++ [(s.item t r).ticket] := by
  simp [tickets, pending, append]

theorem Inv.append (h : Inv c s) (hold : ∀ n, ¬(s.caller t).awaits n)
    (hd : s.obItems.length < c.obMax) : Inv c (s.append t r) := by
  have hne {u : ι} {n : Nat} (hw : (s.caller u).awaits n) : u ≠ t := by
    rintro rfl
    exact hold n hw
  refine ⟨?_, ?_, ?_, h.spared, h.told, ?_, ?_, ?_⟩
  · simp only [Sys.append, length_append, length_singleton]
    exact hd
  · rw [tickets_append, ← append_assoc]
    exact h.account.append_right _
  · simp [Sys.append, h.numbered, range_succ, ticket, item]
  · intro n u hm
    have hmail : s.answer t = none := by
      cases hr : s.answer t with
      | none => rfl
      | some r =>
        obtain ⟨m, hw⟩ := h.mail t r hr
        exact absurd hw (hold m)
    rw [tickets_append, mem_append, mem_singleton] at hm
    obtain hm | hm := hm
    · obtain ⟨hw, ha⟩ := h.owed n u hm
      exact ⟨by simpa [Sys.append, update_of_ne (hne hw)] using hw, ha⟩
    · obtain ⟨rfl, hdone⟩ := Prod.mk.inj hm
      -- only a blocking call leaves a caller with its frame
      cases hb : r.blocking with
      | false => simp [item, hb] at hdone
      | true =>
        obtain rfl : u = t := by simpa [item, hb] using hdone
        exact ⟨by simp [append, hb, Caller.awaits, item], hmail⟩
  · intro u n hw
    rw [tickets_append, mem_append, mem_singleton]
    by_cases hu : u = t
    · subst hu
      cases hb : r.blocking with
      | false => simp [append, hb, Caller.awaits] at hw
      | true =>
        obtain rfl : s.accepted.length = n := by simpa [append, hb, Caller.awaits] using hw
        exact .inl (.inr (by simp [ticket, item, hb]))
    · have hw' : (s.caller u).awaits n := by
        simpa [Sys.append, update_of_ne hu] using hw
      obtain hm | hr := h.waits u n hw'
      · exact .inl (.inl hm)
      · exact .inr hr
  · intro u a hr
    obtain ⟨n, hw⟩ := h.mail u a hr
    exact ⟨n, by simpa [Sys.append, update_of_ne (hne hw)] using hw⟩

section Report

variable {it : ObItem ι} {o : Outcome}

theorem report_tickets (hw : s.worker = .finished it o) :
    s.tickets = it.ticket :: (s.report it o).tickets := by
  simp [tickets, pending, hw, held, report]

theorem report_answer {u : ι} (hu : it.done ≠ some u) : (s.report it o).answer u = s.answer u := by
  cases hdone : it.done with
  | none => simp [report, hdone]
  | some t =>
    have hne : u ≠ t := by
      rintro rfl
      exact hu hdone
    simp [report, hdone, update_of_ne hne]

variable (h : Inv c s) (hw : s.worker = .finished it o)
include h hw

theorem Inv.awaits_held (hdone : it.done = some t) : (s.caller t).awaits it.serial := by
  have hm : (it.serial, some t) ∈ s.tickets := by
    rw [report_tickets hw, ← hdone]
    exact mem_cons_self
  exact (h.owed _ _ hm).1

theorem Inv.no_other {u : ι} (hm : (n, some u) ∈ (s.report it o).tickets) : it.done ≠ some u := by
  intro hdone
  have hmem : (n, some u) ∈ s.tickets := by
    rw [report_tickets hw]
    exact mem_cons_of_mem _ hm
  have heq := Caller.awaits_unique (h.awaits_held hw hdone) (h.owed _ _ hmem).1
  have hdup : it.ticket ∈ (s.report it o).tickets := by
    rw [ticket, hdone, heq]
    exact hm
  have hnodup := h.nodup
  rw [report_tickets hw] at hnodup
  exact (nodup_cons.mp (nodup_append.mp hnodup).2.1).1 hdup

theorem Inv.report : Inv c (s.report it o) := by
  have htickets := report_tickets hw
  refine ⟨h.depth, ?_, h.numbered, ?_, ?_, ?_, ?_, ?_⟩
  · have hmid : ((s.report it o).ended.map Ending.ticket ++ (s.report it o).tickets).Perm
        (s.ended.map Ending.ticket ++ it.ticket :: (s.report it o).tickets) := by
      simp [Sys.report]
    rw [← htickets] at hmid
    exact hmid.trans h.account
  · intro e hm hw
    obtain hm | hm := mem_append.mp hm
    · exact h.spared e hm hw
    · obtain rfl := mem_singleton.mp hm
      exact ⟨o, rfl⟩
  · simp only [Sys.report, filterMap_append, h.told]
    congr 1
  · intro n u hm
    rw [report_answer (h.no_other hw hm)]
    refine h.owed n u ?_
    rw [htickets]
    exact mem_cons_of_mem _ hm
  · intro u n hwait
    change (s.caller u).awaits n at hwait
    by_cases hmine : it.done = some u
    · -- told in this step
      obtain rfl := Caller.awaits_unique (h.awaits_held hw hmine) hwait
      refine .inr ⟨o.ret, ?_, ?_⟩
      · simp [Sys.report, hmine]
      · simp [Sys.report, Ending.told, ticket, hmine]
    · obtain hm | ⟨r, hr, htold⟩ := h.waits u n hwait
      · rw [htickets] at hm
        obtain heq | hm := mem_cons.mp hm
        · exact absurd (congrArg Prod.snd heq).symm hmine
        · exact .inl hm
      · refine .inr ⟨r, ?_, mem_append_left _ htold⟩
        rw [report_answer hmine]
        exact hr
  · intro u r hr
    by_cases hmine : it.done = some u
    · exact ⟨_, h.awaits_held hw hmine⟩
    · rw [report_answer hmine] at hr
      exact h.mail u r hr

end Report

theorem Inv.signal (h : Inv c s) {blocking : Bool}
    (hc : s.caller t = .appended n blocking) (avail : Nat) :
    Inv c ({ s with obAvail := avail }.setCaller t
      (if blocking then .awaiting n else .returned .ok)) := by
  have hgiven : Inv c { s with obAvail := avail } :=
    h.moved h.depth (.refl _) rfl rfl rfl rfl rfl
  refine hgiven.setCaller fun m => ?_
  cases blocking <;> simp [hc, Caller.awaits]

theorem Inv.collect (h : Inv c s) {r : Ret} (hc : s.caller t = .awaiting n)
    (hr : s.answer t = some r) :
    Inv c ({ s with answer := update s.answer t none }.setCaller t (.returned r)) := by
  -- with a result at hand no frame of the caller is left
  have hnone : ∀ m u, (m, some u) ∈ s.tickets → u ≠ t := by
    rintro m u hm rfl
    rw [(h.owed m u hm).2] at hr
    cases hr
  refine { h with owed := ?_, waits := ?_, mail := ?_ }
  · intro m u hm
    have hu := hnone m u hm
    simpa [Sys.setCaller, update_of_ne hu] using h.owed m u hm
  · intro u m hw
    by_cases hu : u = t
    · subst hu
      simp [Sys.setCaller, Caller.awaits] at hw
    · simp [Sys.setCaller, update_of_ne hu] at hw ⊢
      exact h.waits u m hw
  · intro u a ha
    by_cases hu : u = t
    · subst hu
      simp [Sys.setCaller] at ha
    · simp [Sys.setCaller, update_of_ne hu] at ha ⊢
      exact h.mail u a ha

theorem not_awaits_of_free (h : pc.free) (n : Nat) : ¬pc.awaits n := by
  cases pc with
  | idle | returned => exact id
  | gated | waiting | appended | awaiting => exact h.elim

section
variable (h : Inv c s)
include h

theorem Inv.called (hs : Called c s t r s') : Inv c s' := by
  have hgate : Inv c { s with airtime := (c.duty.blocked s.airtime s.seconds).2 } :=
    h.moved h.depth (.refl _) rfl rfl rfl rfl rfl
  cases hs with
  | busy => exact h
  | refused free why => exact h.setCaller fun n => iff_of_false id (not_awaits_of_free free n)
  | blocked free | passed free fits under =>
    exact hgate.setCaller fun n => iff_of_false id (not_awaits_of_free free n)

theorem Inv.advanced (hs : Advanced c s t s') : Inv c s' := by
  -- a caller on its way into the queue waits for no frame
  have hgated : ∀ {r}, s.caller t = .gated r → ∀ n, ¬(s.caller t).awaits n := by
    intro r hc n hw
    rw [hc] at hw
    exact hw
  cases hs with
  | still => exact h
  | append r gated room =>
    exact h.append (hgated gated) (Nat.lt_of_lt_of_le room (soft_le c s))
  | evict r gated i victim found =>
    refine (h.evict found).append (hgated gated) ?_
    have hlen := length_eraseIdx_succ (best_found found).1
    have hdepth := h.depth
    simp only [Sys.evict]
    omega
  | wait r gated | refuse r gated =>
    exact h.setCaller fun n => iff_of_false id (hgated gated n)
  | resume r waiting =>
    have hspace : Inv c { s with obSpace := s.obSpace - 1 } :=
      h.moved h.depth (.refl _) rfl rfl rfl rfl rfl
    refine hspace.setCaller fun n => iff_of_false id fun hw => ?_
    rw [waiting] at hw
    exact hw
  | signal n blocking appended => exact h.signal appended _
  | collect n awaiting a answer => exact h.collect awaiting answer

theorem Inv.worked {o : Offer} {delayMs : UInt32} (hs : Worked c s o delayMs s') : Inv c s' := by
  -- a statement that leaves the frame where it is
  have hstay : ∀ {s' : Sys ι} {w : Worker ι}, s.worker = w → s'.worker.held = w.held →
      s'.obItems = s.obItems → s'.ended = s.ended → s'.accepted = s.accepted →
      s'.told = s.told → s'.caller = s.caller → s'.answer = s.answer → Inv c s' := by
    intro s' w hw hheld hitems he ha ht hc hans
    refine h.moved (hitems ▸ h.depth) ?_ he ha ht hc hans
    rw [tickets_eq, tickets_eq, hheld, hitems, hw]
  cases hs with
  | still => exact h
  | take idle i it picked => exact h.take (by rw [idle]; rfl) (best_found picked).1
  | sleep hw | wake _ hw | hold _ hw | offer _ hw | stale _ hw | transmit _ hw | finish _ _ hw
  | signal hw =>
    exact hstay hw rfl rfl rfl rfl rfl rfl rfl
  | requeue it offered again room => exact h.requeue offered room delayMs
  | report it out finished => exact h.report finished

theorem Inv.step (e : Event ι) : Inv c (s.step c e) := by
  cases e with
  | call t r ready => exact h.called (step_called c s t r ready)
  | caller t => exact h.advanced (callerStep_advanced c s t)
  | worker o delayMs => exact h.worked (workerStep_worked c s o delayMs)
  | cancel src id => exact h.cancel src id
  | deferLate src id delayMs =>
    refine h.moved ?_ ?_ rfl rfl rfl rfl rfl
    · simpa [Sys.step] using h.depth
    · rw [tickets_eq, tickets_eq]
      simp [Sys.step, comp_def]
  | setSched sched | setPreset generation | tick ms =>
    exact h.moved h.depth (.refl _) rfl rfl rfl rfl rfl

end

/-! ## Nothing accepted is stuck -/

/-- `ob_avail` has a count for the worker, or a caller is about to give one. -/
def Signalled (s : Sys ι) : Prop :=
  0 < s.obAvail ∨ ∃ t n blocking, s.caller t = .appended n blocking

/-- A worker that sleeps for good with frames queued has a wakeup on its way. -/
def Roused (s : Sys ι) : Prop :=
  s.worker = .asleep none → s.obItems ≠ [] → s.Signalled

theorem Signalled.setCaller (h : s.Signalled)
    (hold : ∀ n blocking, s.caller t ≠ .appended n blocking) : (s.setCaller t pc).Signalled := by
  obtain havail | ⟨u, n, b, hu⟩ := h
  · exact .inl havail
  have hne : u ≠ t := by
    rintro rfl
    exact hold n b hu
  exact .inr ⟨u, n, b, by simpa [Sys.setCaller, update_of_ne hne] using hu⟩

theorem signalled_append (s : Sys ι) (t : ι) (r : Request) : (s.append t r).Signalled :=
  .inr ⟨t, s.accepted.length, r.blocking, by simp [append]⟩

/-- A step after which there is a signal, or that has changed nothing the worker waits for. -/
def Minds (s s' : Sys ι) : Prop :=
  s'.Signalled ∨ ¬s.Signalled ∧ s'.obItems = s.obItems ∧ s'.worker = s.worker ∧
    s'.uptime = s.uptime

omit [DecidableEq ι] in
theorem minds_of (h : s.Signalled → s'.Signalled) (items : s'.obItems = s.obItems)
    (worker : s'.worker = s.worker) (uptime : s'.uptime = s.uptime) : Minds s s' := by
  by_cases hs : s.Signalled
  · exact .inl (h hs)
  · exact .inr ⟨hs, items, worker, uptime⟩

theorem Called.minds (hs : Called c s t r s') : Minds s s' := by
  have hfree : (s.caller t).free → ∀ n blocking, s.caller t ≠ .appended n blocking := by
    intro free n blocking hc
    rw [hc] at free
    exact free
  have hgate (h : s.Signalled) :
      Signalled { s with airtime := (c.duty.blocked s.airtime s.seconds).2 } := h
  cases hs with
  | busy => exact minds_of id rfl rfl rfl
  | refused free why => exact minds_of (fun h => h.setCaller (hfree free)) rfl rfl rfl
  | blocked free | passed free =>
    exact minds_of (fun h => (hgate h).setCaller (hfree free)) rfl rfl rfl

theorem Advanced.minds (hs : Advanced c s t s') : Minds s s' := by
  have hother : ∀ {pc}, s.caller t = pc → (∀ n blocking, pc ≠ .appended n blocking) →
      ∀ n blocking, s.caller t ≠ .appended n blocking := by
    rintro pc rfl hne
    exact hne
  have hspace (h : s.Signalled) : Signalled { s with obSpace := s.obSpace - 1 } := h
  have hanswer (h : s.Signalled) : Signalled { s with answer := update s.answer t none } := h
  cases hs with
  | still => exact minds_of id rfl rfl rfl
  | append r gated room => exact .inl (signalled_append s t r)
  | evict r gated i victim found => exact .inl (signalled_append _ t r)
  | wait r gated | refuse r gated =>
    exact minds_of (fun h => h.setCaller (hother gated nofun)) rfl rfl rfl
  | resume r waiting =>
    exact minds_of (fun h => (hspace h).setCaller (hother waiting nofun)) rfl rfl rfl
  | signal n blocking appended =>
    have hpos := c.obMax_pos
    refine .inl (.inl ?_)
    simp only [Sys.setCaller, give]
    omega
  | collect n awaiting a answer =>
    exact minds_of (fun h => (hanswer h).setCaller (hother awaiting nofun)) rfl rfl rfl

omit [DecidableEq ι] in
theorem Roused.minds (h : s.Roused) (hs : Minds s s') : s'.Roused := by
  intro hw hitems
  obtain hsig | ⟨hno, items, worker, -⟩ := hs
  · exact hsig
  · rw [worker] at hw
    rw [items] at hitems
    exact absurd (h hw hitems) hno

theorem Roused.worked (h : s.Roused) {o : Offer} {delayMs : UInt32}
    (hs : Worked c s o delayMs s') : s'.Roused := by
  cases hs with
  | still => exact h
  | sleep idle nothing =>
    intro hsleep hitems
    have hwait : waitMs s.now s.obItems = none := by
      simpa using hsleep
    exact absurd (nil_of_idle nothing hwait) hitems
  | take | wake | hold | offer | stale | transmit | finish | requeue | signal | report =>
    exact fun hsleep => nomatch hsleep

theorem Roused.step (h : s.Roused) (e : Event ι) : (s.step c e).Roused := by
  cases e with
  | call t r ready => exact h.minds (step_called c s t r ready).minds
  | caller t => exact h.minds (callerStep_advanced c s t).minds
  | worker o delayMs => exact h.worked (workerStep_worked c s o delayMs)
  | cancel src id | deferLate src id delayMs =>
    intro hw hitems
    refine h hw fun hnil => hitems ?_
    simp [Sys.step, cancel, cancelLocked, hnil]
  | setSched sched | setPreset generation | tick ms => exact h

/-- How far the worker is from the end of the frame it holds. -/
def rank : Worker ι → Nat
  | .finished _ _ => 0
  | .offered _ (some _) => 1
  | .offering _ => 2
  | .taken _ => 3
  | .top => 4
  | .asleep _ => 5
  | .requeued => 6
  | .offered _ none => 7

def left (s : Sys ι) : Nat := 8 * (s.worker.held.length + s.obItems.length) + rank s.worker

/-- An offer that is answered at once. -/
def promptly : Offer := ⟨some .ok, true, some .ok⟩

omit [DecidableEq ι] in
theorem offer_promptly (c : Config) (s : Sys ι) (it : ObItem ι) :
    ∃ r, s.offer c it promptly =
      { s with worker := .offered it (some (.answered r)), handed := s.handed ++ [it] } := by
  unfold offer
  split <;> exact ⟨.ok, rfl⟩

theorem wait_until (s : Sys ι) (due : UInt32) : ∃ ms, (s.step c (.tick ms)).now = due := by
  refine ⟨(due - s.now).toNat, ?_⟩
  simp only [step, now, UInt32.ofNat_add, UInt32.ofNat_toNat]
  rw [UInt32.add_comm, UInt32.sub_add_cancel]

theorem top_progress (hw : s.worker = .top) (hitems : s.obItems ≠ []) :
    ∃ es, (run (step c) s es).left < s.left := by
  obtain ⟨it, hit⟩ := exists_mem_of_ne_nil _ hitems
  obtain ⟨ms, hms⟩ := s.wait_until (c := c) it.sendAfter
  obtain ⟨i, found, hpick⟩ := pickNext_due s.sched.txOrder hit
  refine ⟨[.tick ms, .worker promptly 0], ?_⟩
  have hstep : run (step c) s [.tick ms, .worker promptly 0]
      = (s.step c (.tick ms)).take i found := by
    simp only [run, foldl_cons, foldl_nil]
    have hw' : (s.step c (.tick ms)).worker = .top := hw
    rw [step, workerStep, hw', pass, hms]
    have hpick' : pickNext (s.step c (.tick ms)).sched.txOrder it.sendAfter
        (s.step c (.tick ms)).obItems = some (i, found) := hpick
    rw [hpick']
  have hlen := length_eraseIdx_succ (best_found hpick).1
  rw [hstep]
  simp only [left, take, step, held, rank, hw, length_cons, length_nil]
  omega

/-- The wakeup that is on its way comes. -/
theorem asleep_progress (hr : s.Roused) {timeout : Option Nat} (hw : s.worker = .asleep timeout)
    (hitems : s.obItems ≠ []) : ∃ es, (run (step c) s es).left < s.left := by
  have hwake : ∀ {s' : Sys ι}, s'.worker = .asleep timeout → s'.obItems = s.obItems →
      0 < s'.obAvail → (s'.step c (.worker promptly 0)).left < s.left := by
    intro s' hw' hitems' havail
    simp [left, step, workerStep, hw', hw, havail, hitems', held, rank]
  by_cases havail : 0 < s.obAvail
  · exact ⟨[.worker promptly 0], hwake hw rfl havail⟩
  cases timeout with
  | none =>
    obtain havail' | ⟨t, n, b, hc⟩ := hr hw hitems
    · exact absurd havail' havail
    refine ⟨[.caller t, .worker promptly 0], ?_⟩
    simp only [run, foldl_cons, foldl_nil]
    have hpos := c.obMax_pos
    apply hwake
    · simp [step, callerStep, hc, setCaller, hw]
    · simp [step, callerStep, hc, setCaller]
    · simp only [step, callerStep, hc, setCaller, give]
      omega
  | some due =>
    refine ⟨[.tick due, .worker promptly 0], ?_⟩
    have hdue : due ≤ s.uptime + due := Nat.le_add_left _ _
    simp [run, left, step, workerStep, hw, havail, held, rank]

theorem progress (hr : s.Roused) (hp : s.worker.held ++ s.obItems ≠ []) :
    ∃ es, (run (step c) s es).left < s.left := by
  cases hw : s.worker with
  | top =>
    rw [hw] at hp
    exact top_progress hw hp
  | asleep timeout =>
    rw [hw] at hp
    exact asleep_progress hr hw hp
  | taken it | requeued =>
    refine ⟨[.worker promptly 0], ?_⟩
    simp [run, left, step, workerStep, hw, held, rank]
  | offering it =>
    obtain ⟨r, hoffer⟩ := s.offer_promptly c it
    refine ⟨[.worker promptly 0], ?_⟩
    simp [run, left, step, workerStep, hw, hoffer, held, rank]
  | offered it ret =>
    refine ⟨[.worker promptly 0], ?_⟩
    simp only [run, foldl_cons, foldl_nil, step, workerStep, hw]
    cases ret with
    | some o => simp [left, settle, hw, held, rank]
    | none =>
      simp only [settle]
      split
      · simp [left, hw, held, rank]
      split
      · simp [left, hw, held, rank]
      · simp only [left, requeue, hw, held, rank, length_append,
          length_cons, length_nil]
        omega
  | finished it ret =>
    refine ⟨[.worker promptly 0], ?_⟩
    simp only [run, foldl_cons, foldl_nil, step, workerStep, hw, report, left,
      held, rank, length_cons, length_nil]
    omega

/-- With time and answers the worker brings everything that is accepted to its end. -/
theorem drains (c : Config) (s : Sys ι) (hr : s.Roused) :
    ∃ es, (run (step c) s es).tickets = [] := by
  induction hn : s.left using Nat.strong_induction_on generalizing s with
  | _ n ih =>
    by_cases hp : s.worker.held ++ s.obItems = []
    · exact ⟨[], by rw [run_nil, tickets, pending, hp, map_nil]⟩
    obtain ⟨es, hless⟩ := progress (c := c) hr hp
    have hr' : (run (step c) s es).Roused :=
      run_keeps Roused hr (fun _ e h _ => h.step e) guarded_true
    obtain ⟨es', hdone⟩ := ih _ (hn ▸ hless) _ hr' rfl
    refine ⟨es ++ es', ?_⟩
    rw [run, foldl_append]
    exact hdone

theorem inv_run (c : Config) (sched : Sched) (es : List (Event ι)) :
    Inv c (run (step c) (init sched) es) ∧ (run (step c) (init sched) es).Roused := by
  refine run_keeps (fun s => Inv c s ∧ Roused s) ⟨inv_init c sched, fun hw => nomatch hw⟩ ?_
    guarded_true
  intro _ e h _
  exact ⟨h.1.step e, h.2.step e⟩

end Sys

end Zephyrtastic.Outbound
