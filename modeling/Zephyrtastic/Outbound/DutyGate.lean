import Zephyrtastic.Outbound.Conservation

/-!
# The duty gate and the queue

The ceiling is compared with the ledger once, before `outbound_enqueue` takes the
queue lock. A caller may then wait for the lock, or for space, while other frames
go out.
-/

namespace Zephyrtastic.Outbound

open List Nat Run Sys

/-- The request of a caller that has passed the gate and has not queued its frame. -/
def Caller.asks : Caller → Option Request
  | .gated r | .waiting r => some r
  | .idle | .appended _ _ | .awaiting _ | .returned _ => none

/-- The frame in the worker's hands may still spend airtime. -/
def Worker.unsent {ι : Type} : Worker ι → Nat
  | .taken _ | .offering _ | .offered _ none => 1
  | .offered _ (some _) | .finished _ _ | .top | .asleep _ | .requeued => 0

namespace Sys

variable {ι : Type} [DecidableEq ι]

def unsent (s : Sys ι) : Nat := s.obItems.length + s.worker.unsent

/-- The next statement is a transmission, of this airtime. -/
def transmits (c : Config) (s : Sys ι) (o : Offer) : Option Nat :=
  match s.worker with
  | .offering it =>
    if it.attach = 0 ∧ o.diverted = false ∧ it.gen = s.generation ∧ o.radio = some .ok then
      some (c.packetMs it.wire.length)
    else none
  | _ => none

/-- A transmission that takes the ledger over the ceiling finds no caller between the gate and
the queue. -/
def gateClear (c : Config) (s : Sys ι) : Event ι → Prop
  | .worker o _ => ∀ ms ceiling, s.transmits c o = some ms → c.duty.limit = some ceiling →
      ceiling < (s.airtime.advance s.seconds).spent + ms → ∀ t, (s.caller t).asks = none
  | _ => True

variable {c : Config} {s s' : Sys ι} {e : Event ι}

variable {r : Request} {u t : ι}

theorem asks_setCaller {pc : Caller} (h : ((s.setCaller t pc).caller u).asks = some r) :
    (s.caller u).asks = some r ∨ (u = t ∧ pc.asks = some r) := by
  by_cases hu : u = t
  · subst hu
    exact .inr ⟨rfl, by simpa [setCaller] using h⟩
  · exact .inl (by simpa [setCaller, Function.update_of_ne hu] using h)

/-- What a caller between the gate and the queue has been checked for. -/
def Passed (c : Config) (s : Sys ι) (r : Request) : Prop :=
  r.wire.length ≤ pktMax ∧ ∀ ceiling, c.duty.limit = some ceiling → s.airtime.spent ≤ ceiling

variable {r' : Request}

theorem Called.asks (hs : Called c s t r s')
    (h : (s'.caller u).asks = some r') : (s.caller u).asks = some r' ∨ s'.Passed c r' := by
  cases hs with
  | busy => exact .inl h
  | refused | blocked =>
    obtain h | ⟨-, h⟩ := asks_setCaller h
    · exact .inl h
    · cases h
  | passed free fits under =>
    obtain h | ⟨-, h⟩ := asks_setCaller h
    · exact .inl h
    · obtain rfl : r = r' := Option.some.inj h
      exact .inr ⟨fits, fun ceiling hl => Duty.spent_le_of_not_blocked hl under⟩

theorem asks_append (h : ((s.append t r).caller u).asks = some r') :
    (s.caller u).asks = some r' := by
  have h' : ((s.setCaller t (.appended s.accepted.length r.blocking)).caller u).asks = some r' := h
  obtain h | ⟨-, h⟩ := asks_setCaller h'
  · exact h
  · cases h

theorem Advanced.asks (hs : Advanced c s t s')
    (h : (s'.caller u).asks = some r') : (s.caller u).asks = some r' := by
  cases hs with
  | still => exact h
  | append => exact asks_append h
  | evict r gated i victim found => exact asks_append (s := s.evict i victim) h
  | wait r gated =>
    obtain hu | ⟨rfl, ha⟩ := asks_setCaller h
    · exact hu
    · rw [gated]
      exact ha
  | resume r waiting =>
    obtain hu | ⟨rfl, ha⟩ := asks_setCaller h
    · exact hu
    · rw [waiting]
      exact ha
  | refuse | collect =>
    obtain h | ⟨-, h⟩ := asks_setCaller h
    · exact h
    · cases h
  | signal n blocking appended =>
    obtain h | ⟨-, h⟩ := asks_setCaller h
    · exact h
    · cases blocking <;> cases h

theorem Worked.caller {o : Offer} {delayMs : UInt32} (hs : Worked c s o delayMs s') :
    s'.caller = s.caller := by
  cases hs <;> rfl

theorem step_asks (h : ((s.step c e).caller u).asks = some r) :
    (s.caller u).asks = some r ∨ (s.step c e).Passed c r := by
  cases e with
  | call t r' ready => exact (step_called c s t r' ready).asks h
  | caller t => exact .inl ((callerStep_advanced c s t).asks h)
  | worker o delayMs =>
    have hcaller : (s.step c (.worker o delayMs)).caller = s.caller :=
      (workerStep_worked c s o delayMs).caller
    rw [hcaller] at h
    exact .inl h
  | cancel src id | deferLate src id delayMs | setSched sched | setPreset generation | tick ms =>
    exact .inl h

/-- What a step does to the ledger and to the frames that may still spend: a frame is queued by
a caller that has passed the gate, or a frame is transmitted, or neither grows. -/
inductive Toll (c : Config) (s : Sys ι) (e : Event ι) (s' : Sys ι) : Prop where
  | less (spent : s'.airtime.spent ≤ s.airtime.spent) (unsent : s'.unsent ≤ s.unsent)
  | queued (t : ι) (r : Request) (gated : s.caller t = .gated r) (airtime : s'.airtime = s.airtime)
  | sent (o : Offer) (delayMs : UInt32) (it : ObItem ι) (event : e = .worker o delayMs)
      (worker : s.worker = .offering it)
      (transmits : s.transmits c o = some (c.packetMs it.wire.length))
      (spent : s'.airtime.spent
        = (s.airtime.advance s.seconds).spent + c.packetMs it.wire.length)
      (unsent : s'.unsent = s.obItems.length) (caller : s'.caller = s.caller)

theorem Worked.toll {o : Offer} {delayMs : UInt32} (hs : Worked c s o delayMs s') :
    Toll c s (.worker o delayMs) s' := by
  cases hs with
  | still => exact .less (le_refl _) (le_refl _)
  | take idle i it picked =>
    have hlen := length_eraseIdx_succ (best_found picked).1
    refine .less (le_refl _) ?_
    simp only [unsent, Sys.take, Worker.unsent, idle]
    omega
  | hold it taken => exact .less (le_refl _) (by simp [unsent, Worker.unsent, taken])
  | offer it offering ret =>
    refine .less (le_refl _) ?_
    cases ret <;> simp [unsent, Worker.unsent, offering]
  | stale it offering => exact .less (le_refl _) (by simp [unsent, Worker.unsent, offering])
  | transmit it offering own =>
    refine .sent o delayMs it rfl offering ?_ (Airtime.spent_logTx _ _ _) rfl rfl
    rw [transmits, offering]
    exact if_pos own
  | requeue it offered =>
    exact .less (le_refl _) (by simp [unsent, Sys.requeue, Worker.unsent, offered])
  | sleep | wake | finish | signal | report =>
    exact .less (le_refl _) (Nat.add_le_add_left (zero_le _) _)

theorem Advanced.toll (hs : Advanced c s t s') : Toll c s e s' := by
  cases hs with
  | append r gated room | evict r gated i victim found => exact .queued t r gated rfl
  | still | wait | refuse | resume | signal | collect =>
    exact .less (le_refl _) (le_refl _)

theorem Called.toll (hs : Called c s t r s') : Toll c s e s' := by
  cases hs with
  | busy | refused => exact .less (le_refl _) (le_refl _)
  | blocked | passed => exact .less (Duty.blocked_spent_le _ _ _) (le_refl _)

theorem step_toll (c : Config) (s : Sys ι) (e : Event ι) : Toll c s e (s.step c e) := by
  cases e with
  | call t r ready => exact (step_called c s t r ready).toll
  | caller t => exact (callerStep_advanced c s t).toll
  | worker o delayMs => exact (workerStep_worked c s o delayMs).toll
  | cancel src id =>
    exact .less (le_refl _) (Nat.add_le_add_right (length_filter_le _ _) _)
  | deferLate src id delayMs =>
    exact .less (le_refl _) (by simp [unsent, step])
  | setSched sched | setPreset generation | tick ms =>
    exact .less (le_refl _) (le_refl _)

/-- A caller between the gate and the queue finds the ledger under the ceiling; and over it the
frames that may still spend are bounded. -/
structure Kept (c : Config) (longest ceiling : Nat) (s : Sys ι) : Prop where
  passed : ∀ t r, (s.caller t).asks = some r →
    r.wire.length ≤ pktMax ∧ s.airtime.spent ≤ ceiling
  sized : ∀ it ∈ s.pending, it.wire.length ≤ pktMax
  bound : s.airtime.spent ≤ ceiling ∨
    s.airtime.spent + s.unsent * longest ≤ ceiling + (c.obMax + 1) * longest

variable {longest ceiling : Nat}

theorem Kept.sized_shift (h : Kept c longest ceiling s) (hshift : Shift c s e s') :
    ∀ it ∈ s'.pending, it.wire.length ≤ pktMax := by
  have hheld : ∀ it ∈ s.worker.held, it.wire.length ≤ pktMax :=
    fun it hit => h.sized it (mem_append_left _ hit)
  have hqueue : ∀ it ∈ s.obItems, it.wire.length ≤ pktMax :=
    fun it hit => h.sized it (mem_append_right _ hit)
  suffices hboth : (∀ it ∈ s'.worker.held, it.wire.length ≤ pktMax) ∧
      ∀ it ∈ s'.obItems, it.wire.length ≤ pktMax by
    intro it hit
    obtain hit | hit := mem_append.mp hit
    · exact hboth.1 it hit
    · exact hboth.2 it hit
  cases hshift with
  | stay f same items held handed accepted recalled =>
    rw [held, items]
    refine ⟨hheld, fun it hit => ?_⟩
    obtain ⟨x, hx, rfl⟩ := mem_map.mp hit
    rw [(same x).1]
    exact hqueue x hx
  | accept t r kept gated sub items worker handed accepted recalled =>
    rw [worker, items]
    refine ⟨hheld, fun it hit => ?_⟩
    obtain hit | hit := mem_append.mp hit
    · exact hqueue it (sub.subset hit)
    · obtain rfl := mem_singleton.mp hit
      exact (h.passed t r (by rw [gated]; rfl)).1
  | cancel src id event eq =>
    subst eq
    exact ⟨hheld, fun it hit => hqueue it (mem_filter.mp hit).1⟩
  | take i it idle found eq =>
    subst eq
    refine ⟨fun x hx => ?_, fun x hx => hqueue x (mem_of_mem_eraseIdx hx)⟩
    obtain rfl := mem_singleton.mp hx
    exact hqueue x (mem_of_getElem? found)
  | offer it offering ret items worker =>
    rw [items, worker]
    rw [offering] at hheld
    exact ⟨hheld, hqueue⟩
  | putBack it o delayMs event offered again room eq =>
    subst eq
    refine ⟨(fun x hx => nomatch hx), fun x hx => ?_⟩
    obtain hx | hx := mem_append.mp hx
    · exact hqueue x hx
    · obtain rfl := mem_singleton.mp hx
      exact hheld it (by rw [offered]; exact mem_singleton_self it)
  | release it ret finished eq =>
    subst eq
    exact ⟨(fun x hx => nomatch hx), hqueue⟩

theorem Kept.step (h : Kept c longest ceiling s) (hlimit : c.duty.limit = some ceiling)
    (hlongest : ∀ len, len ≤ pktMax → c.packetMs len ≤ longest)
    (hdepth : s.obItems.length ≤ c.obMax) (hok : s.gateClear c e) :
    Kept c longest ceiling (s.step c e) := by
  have hasks : ∀ {t r}, ((s.step c e).caller t).asks = some r →
      ((s.caller t).asks = some r → (s.step c e).airtime.spent ≤ ceiling) →
      r.wire.length ≤ pktMax ∧ (s.step c e).airtime.spent ≤ ceiling := by
    intro t r hr hold
    obtain hr | hp := step_asks hr
    · exact ⟨(h.passed t r hr).1, hold hr⟩
    · exact ⟨hp.1, hp.2 ceiling hlimit⟩
  refine ⟨?_, h.sized_shift (step_shift c s e), ?_⟩
  · intro t r hr
    refine hasks hr fun hold => ?_
    have hunder := (h.passed t r hold).2
    cases step_toll c s e with
    | less spent unsent => exact le_trans spent hunder
    | queued u r' gated airtime => rw [airtime]; exact hunder
    | sent o delayMs it event worker transmits spent unsent caller =>
      subst event
      by_contra hover
      rw [spent] at hover
      have hnone := hok _ ceiling transmits hlimit (Nat.lt_of_not_le hover) t
      rw [hold] at hnone
      cases hnone
  · cases step_toll c s e with
    | less spent unsent =>
      obtain hunder | hbound := h.bound
      · exact .inl (le_trans spent hunder)
      · have hmul := mul_le_mul_right longest unsent
        exact .inr (by omega)
    | queued u r' gated airtime =>
      rw [airtime]
      exact .inl (h.passed u r' (by rw [gated]; rfl)).2
    | sent o delayMs it event worker transmits spent unsent caller =>
      have hms : c.packetMs it.wire.length ≤ longest := by
        apply hlongest
        apply h.sized
        rw [pending, worker]
        exact mem_append_left _ (mem_singleton_self it)
      have hadvance := Airtime.spent_advance_le s.airtime s.seconds
      refine .inr ?_
      rw [spent, unsent]
      obtain hunder | hbound := h.bound
      · have hmul := mul_le_mul_right longest hdepth
        rw [add_mul, one_mul]
        omega
      have hunsent : s.unsent = s.obItems.length + 1 := by
        rw [Sys.unsent, worker]
        rfl
      rw [hunsent, add_mul, one_mul] at hbound
      omega

omit [DecidableEq ι] in
theorem kept_init (c : Config) (sched : Sched) : Kept c longest ceiling (init sched : Sys ι) where
  passed := by intro t r hr; cases hr
  sized := by intro it hit; cases hit
  bound := by
    simp [init]

theorem kept_run (c : Config) (sched : Sched) (es : List (Event ι))
    (hlimit : c.duty.limit = some ceiling)
    (hlongest : ∀ len, len ≤ pktMax → c.packetMs len ≤ longest)
    (hok : Guarded (step c) (gateClear c) (init sched) es) :
    Kept c longest ceiling (run (step c) (init sched) es) := by
  refine run_invariant (fun _ s => Kept c longest ceiling s) (kept_init c sched) ?_ es hok
  intro done e h hclear
  exact h.step hlimit hlongest (inv_run c sched done).1.depth hclear

theorem accepted_changes (hne : (s.step c e).accepted ≠ s.accepted) :
    ∃ t r, s.caller t = .gated r := by
  cases step_shift c s e with
  | accept t r kept gated sub items worker handed accepted recalled => exact ⟨t, r, gated⟩
  | stay f same items held handed accepted recalled => exact absurd accepted hne
  | offer it offering ret items worker handed accepted recalled => exact absurd accepted hne
  | cancel src id event eq | take i it idle found eq | release it ret finished eq
  | putBack it o delayMs event offered again room eq =>
    exact absurd (congrArg accepted eq) hne

/-- Every frame is queued under the ceiling, and the ledger stays within the queue and one frame
of it, in every run in which no transmission crosses the ceiling over a caller that has passed
the gate. -/
theorem queued_under_ceiling (c : Config) (sched : Sched) (longest : Nat)
    (hlongest : ∀ len, len ≤ pktMax → c.packetMs len ≤ longest) (es : List (Event ι))
    (hok : Guarded (Sys.step c) (gateClear c) (init sched) es) :
    (∀ done e, done ++ [e] <+: es →
      let s := run (Sys.step c) (init sched) done
      (s.step c e).accepted ≠ s.accepted → (c.duty.blocked s.airtime s.seconds).1 = false) ∧
    ∀ ceiling, c.duty.limit = some ceiling →
      (run (Sys.step c) (init sched) es).airtime.spent ≤ ceiling + (c.obMax + 1) * longest := by
  constructor
  · intro done e hp s hne
    obtain ⟨t, r, hgated⟩ := accepted_changes hne
    refine Duty.not_blocked_of_le _ fun ceiling hlimit => ?_
    have hdone : Guarded (step c) (gateClear c) (init sched) done :=
      fun d e' hd => hok d e' (hd.trans ((prefix_append done [e]).trans hp))
    exact ((kept_run c sched done hlimit hlongest hdone).passed t r (by rw [hgated]; rfl)).2
  · intro ceiling hlimit
    obtain hunder | hbound := (kept_run c sched es hlimit hlongest hok).bound
    · exact le_trans hunder (le_add_right _ _)
    · exact le_trans (le_add_right _ _) hbound

/-- A ceiling of a tenth of a second, and frames that take a little more. -/
def strictRegion : Config :=
  { quietNode with duty := ⟨false, some 100⟩, packetMs := fun _ => 150 }

def shortFrame : Request where
  wire := [0xff, 0xff, 0xff, 0xff, 7, 0, 0, 0, 2, 0, 0, 0, 3, 8, 0, 7]
  tier := 1
  blocking := true
  delayMs := 0
  attach := 0

theorem queued_under_ceiling_first_frame :
    let s := run (Sys.step strictRegion) (init ⟨.priority, .dropLowest, 8⟩)
      [(.call () shortFrame true : Event Unit)]
    (s.step strictRegion (.caller ())).accepted ≠ s.accepted ∧
      (strictRegion.duty.blocked s.airtime s.seconds).1 = false := by
  have hok : Guarded (step strictRegion) (gateClear strictRegion)
      (init ⟨.priority, .dropLowest, 8⟩) [(.call () shortFrame true : Event Unit), .caller ()] := by
    simp only [guarded_cons]
    exact ⟨trivial, trivial, guarded_nil⟩
  refine ⟨by decide +kernel, ?_⟩
  have hlongest : ∀ len, len ≤ pktMax → strictRegion.packetMs len ≤ 150 :=
    fun _ _ => le_refl _
  refine (queued_under_ceiling strictRegion ⟨.priority, .dropLowest, 8⟩ 150 hlongest _ hok).1
    [.call () shortFrame true] (.caller ()) prefix_rfl ?_
  decide +kernel

/-- Two callers pass the gate; the frame of the first goes out before the second queues its
own. -/
theorem queued_over_ceiling :
    let s := run (Sys.step strictRegion) (init ⟨.priority, .dropLowest, 8⟩)
      [.call false shortFrame true, .caller false, .caller false, .call true shortFrame true,
        .worker ⟨none, false, some .ok⟩ 0, .worker ⟨none, false, some .ok⟩ 0,
        .worker ⟨none, false, some .ok⟩ 0]
    (s.step strictRegion (.caller true)).accepted ≠ s.accepted ∧
      (strictRegion.duty.blocked s.airtime s.seconds).1 = true := by
  decide +kernel

end Sys

end Zephyrtastic.Outbound
