import Zephyrtastic.Lib.Run
import Zephyrtastic.Outbound.Airtime
import Zephyrtastic.Outbound.Queue

/-!
# The outbound queue under its threads

Threads call `outbound_enqueue`, one worker drains the queue, and other threads cancel
and defer what is queued. What happens under `ob_lock` is one step; between two such
steps every other thread may run.
-/

namespace Zephyrtastic.Outbound

inductive Errno where
  | einval | eperm | ehostunreach | ecanceled | enomsg | ebusy | enobufs | estale
  | other (code : Nat)
  deriving DecidableEq, Repr

inductive Ret where
  | ok
  | err (e : Errno)
  deriving DecidableEq, Repr

/-- How an offer ends when the frame is not put back: with the answer of the radio, the head or
the peer link, composed for a preset that has been left, or dropped after DEFER. -/
inductive Outcome where
  | answered (r : Ret)
  | stale
  | dropped (e : Errno)
  deriving DecidableEq, Repr

/-- The result the worker reports. -/
def Outcome.ret : Outcome → Ret
  | .answered r => r
  | .stale => .err .estale
  | .dropped e => .err e

/-- How an accepted frame ends. -/
inductive Fate where
  | evicted
  | cancelled
  | finished (o : Outcome)
  deriving DecidableEq, Repr

structure Config where
  /-- `OB_MAX`. -/
  obMax : Nat
  obMax_pos : 0 < obMax
  /-- `CONFIG_MESHTASTIC_TX_DEFER_MAX`. -/
  deferMax : Nat
  /-- `CONFIG_MESHTASTIC_ATTACHMENT_HEAD` and `CONFIG_MESHTASTIC_ATTACHMENT_BRAIN`. -/
  head : Bool
  brain : Bool
  duty : Duty
  /-- `meshtastic_airtime_packet_ms`. -/
  packetMs : Nat → Nat

/-- The arguments of `outbound_enqueue`. A blocking call waits with no timeout. -/
structure Request where
  wire : Bytes
  tier : Nat
  blocking : Bool
  delayMs : UInt32
  attach : Nat
  deriving DecidableEq, Repr

/-- The statement a calling thread executes next. -/
inductive Caller where
  | idle
  /-- Past the checks, about to take `ob_lock`. -/
  | gated (r : Request)
  /-- Asleep on `ob_space`. -/
  | waiting (r : Request)
  /-- The frame is in the queue; about to give `ob_avail`. -/
  | appended (serial : Nat) (blocking : Bool)
  /-- Asleep on its own `done`. -/
  | awaiting (serial : Nat)
  | returned (r : Ret)
  deriving DecidableEq, Repr

/-- Not in a call. -/
def Caller.free : Caller → Prop
  | .idle | .returned _ => True
  | .gated _ | .waiting _ | .appended _ _ | .awaiting _ => False

/-- The statement the worker executes next, with `cur`. -/
inductive Worker (ι : Type) where
  | top
  /-- Asleep on `ob_avail`, until a time or for ever. -/
  | asleep (timeout : Option Nat)
  | taken (cur : ObItem ι)
  | offering (cur : ObItem ι)
  /-- The offer is over; `none` is DEFER. -/
  | offered (cur : ObItem ι) (ret : Option Outcome)
  | requeued
  | finished (cur : ObItem ι) (ret : Outcome)
  deriving DecidableEq

/-- The frame that is in neither the queue nor at its end. -/
def Worker.held {ι : Type} : Worker ι → List (ObItem ι)
  | .taken cur | .offering cur | .offered cur _ | .finished cur _ => [cur]
  | .top | .asleep _ | .requeued => []

/-- The frame that has left the queue and is not offered yet. -/
def Worker.dequeued {ι : Type} : Worker ι → List (ObItem ι)
  | .taken cur | .offering cur => [cur]
  | _ => []

/-- A frame that has ended, with the caller that waited for it. -/
structure Ending (ι : Type) where
  ticket : Nat × Option ι
  fate : Fate
  deriving DecidableEq

/-- What the caller was told, where one waited. -/
def Ending.told {ι : Type} : Ending ι → Option (Nat × ι × Ret)
  | ⟨(n, some t), .finished o⟩ => some (n, t, o.ret)
  | _ => none

/-- What the radio, the head and the peer link answer to one offer; `none` is DEFER. -/
structure Offer where
  head : Option Ret
  diverted : Bool
  radio : Option Ret
  deriving DecidableEq, Repr

structure Sys (ι : Type) where
  obItems : List (ObItem ι)
  obInflight : Bool
  /-- The counts of `ob_avail` and `ob_space`. -/
  obAvail : Nat
  obSpace : Nat
  worker : Worker ι
  caller : ι → Caller
  /-- A given `done` with the result beside it. -/
  answer : ι → Option Ret
  sched : Sched
  generation : UInt32
  airtime : Airtime
  /-- `k_uptime_get`. -/
  uptime : Nat
  accepted : List (Nat × Option ι)
  /-- The frames given to a head, the peer link or the radio. -/
  handed : List (ObItem ι)
  ended : List (Ending ι)
  told : List (Nat × ι × Ret)
  /-- A cancel named the frame in the worker's hands since it was taken. -/
  recalled : Bool

inductive Event (ι : Type) where
  /-- A thread calls `outbound_enqueue`; the flag is `meshtastic_attachment_tx_ready`. -/
  | call (t : ι) (r : Request) (ready : Bool)
  /-- It executes its next statement. -/
  | caller (t : ι)
  /-- The worker executes its next statement: the answers are for an offer, the delay is drawn
  for a frame that is put back. -/
  | worker (o : Offer) (delayMs : UInt32)
  /-- `meshtastic_outbound_cancel` and `meshtastic_outbound_defer_late`. -/
  | cancel (src id : UInt32)
  | deferLate (src id delayMs : UInt32)
  | setSched (c : Sched)
  | setPreset (generation : UInt32)
  | tick (ms : Nat)

namespace Sys

section
variable {ι : Type} [DecidableEq ι] (c : Config) (s : Sys ι)
variable (t : ι) (r : Request) (it : ObItem ι)

/-- `k_uptime_get_32`. -/
def now : UInt32 := UInt32.ofNat s.uptime

def seconds : Nat := s.uptime / 1000

/-- The frames accepted and not yet at their end. -/
def pending : List (ObItem ι) := s.worker.held ++ s.obItems

/-- `k_sem_give`, up to the limit of the semaphore. -/
def give (limit count : Nat) : Nat := min (count + 1) limit

def setCaller (pc : Caller) : Sys ι := { s with caller := Function.update s.caller t pc }

/-- The soft depth of the policy. -/
def soft : Nat := max 1 (min s.sched.txDepth c.obMax)

/-- The checks of `outbound_enqueue` before it takes the lock. -/
def call (ready : Bool) : Sys ι :=
  if r.wire.length = 0 ∨ pktMax < r.wire.length then s.setCaller t (.returned (.err .einval))
  else if c.head then s.setCaller t (.returned (.err .eperm))
  else if r.attach ≠ 0 ∧ ¬(c.brain ∧ ready) then s.setCaller t (.returned (.err .ehostunreach))
  else
    let gate := c.duty.blocked s.airtime s.seconds
    { s with airtime := gate.2 }.setCaller t
      (if gate.1 then .returned (.err .ecanceled) else .gated r)

/-- The item `outbound_enqueue` fills in. -/
def item : ObItem ι where
  wire := r.wire
  tier := r.tier
  sendAfter := if r.delayMs = 0 then 0 else deadline s.now r.delayMs
  late := false
  gen := s.generation
  defers := 0
  attach := r.attach
  done := if r.blocking then some t else none
  serial := s.accepted.length

def append : Sys ι :=
  { s with
    obItems := s.obItems ++ [s.item t r]
    accepted := s.accepted ++ [(s.item t r).ticket]
    caller := Function.update s.caller t (.appended s.accepted.length r.blocking) }

def evict (i : Nat) (victim : ObItem ι) : Sys ι :=
  { s with
    obItems := s.obItems.eraseIdx i
    obAvail := s.obAvail - 1
    ended := s.ended ++ [⟨victim.ticket, .evicted⟩] }

/-- The loop of `outbound_enqueue` under the lock, once. -/
def enter : Sys ι :=
  if s.obItems.length < s.soft c then s.append t r
  else if r.blocking then s.setCaller t (.waiting r)
  else if s.sched.txOrder = .priority ∧ s.sched.txOverflow = .dropLowest then
    match evictVictim s.obItems with
    | some (i, victim) =>
      if victim.tier < r.tier then (s.evict i victim).append t r
      else s.setCaller t (.returned (.err .enomsg))
    | none => s.setCaller t (.returned (.err .enomsg))
  else s.setCaller t (.returned (.err .enomsg))

/-- The next statement of a calling thread. -/
def callerStep : Sys ι :=
  match s.caller t with
  | .idle | .returned _ => s
  | .gated r => s.enter c t r
  | .waiting r =>
    if 0 < s.obSpace then { s with obSpace := s.obSpace - 1 }.setCaller t (.gated r) else s
  | .appended n blocking =>
    { s with obAvail := give c.obMax s.obAvail }.setCaller t
      (if blocking then .awaiting n else .returned .ok)
  | .awaiting _ =>
    match s.answer t with
    | none => s
    | some r => { s with answer := Function.update s.answer t none }.setCaller t (.returned r)

/-- A frame leaves the queue for the worker's hands. -/
def take (i : Nat) (it : ObItem ι) : Sys ι :=
  { s with
    obItems := s.obItems.eraseIdx i
    obInflight := true
    worker := .taken it
    recalled := false }

/-- A pass of the worker's loop under the lock. -/
def pass : Sys ι :=
  match pickNext s.sched.txOrder s.now s.obItems with
  | some (i, it) => s.take i it
  | none =>
    { s with
      worker := .asleep ((waitMs s.now s.obItems).map fun w => s.uptime + max w.toNat 1) }

/-- The offer of a frame: to its head; or over the peer link, and failing that on the air if
it was composed for the present preset. A transmission is entered in the ledger. -/
def offer (o : Offer) : Sys ι :=
  let given := { s with handed := s.handed ++ [it] }
  if it.attach ≠ 0 then { given with worker := .offered it (o.head.map .answered) }
  else if o.diverted then { given with worker := .offered it (some (.answered .ok)) }
  else if it.gen ≠ s.generation then { s with worker := .offered it (some .stale) }
  else
    { given with
      worker := .offered it (o.radio.map .answered)
      airtime :=
        if o.radio = some .ok then s.airtime.logTx s.seconds (c.packetMs it.wire.length)
        else s.airtime }

/-- The frame as `requeue_deferred_locked` puts it back. -/
def deferred (delayMs : UInt32) : ObItem ι :=
  { it with defers := it.defers + 1, sendAfter := deadline s.now (max delayMs 1) }

def requeue (delayMs : UInt32) : Sys ι :=
  { s with
    obItems := s.obItems ++ [s.deferred it delayMs]
    obSpace := s.obSpace - 1
    obInflight := false
    worker := .requeued }

/-- The answer is taken in, under the lock: `requeue_deferred_locked` after DEFER. -/
def settle (ret : Option Outcome) (delayMs : UInt32) : Sys ι :=
  match ret with
  | some o => { s with obInflight := false, worker := .finished it o }
  | none =>
    if c.deferMax ≤ it.defers then
      { s with obInflight := false, worker := .finished it (.dropped .ebusy) }
    else if c.obMax ≤ s.obItems.length then
      { s with obInflight := false, worker := .finished it (.dropped .enobufs) }
    else s.requeue it delayMs

/-- The caller is told. -/
def report (o : Outcome) : Sys ι :=
  let e : Ending ι := ⟨it.ticket, .finished o⟩
  { s with
    worker := .top
    answer :=
      match it.done with
      | some t => Function.update s.answer t (some o.ret)
      | none => s.answer
    ended := s.ended ++ [e]
    told := s.told ++ e.told.toList }

/-- The next statement of the worker. -/
def workerStep (o : Offer) (delayMs : UInt32) : Sys ι :=
  match s.worker with
  | .top => s.pass
  | .asleep timeout =>
    if 0 < s.obAvail then { s with obAvail := s.obAvail - 1, worker := .top }
    else if timeout.any (· ≤ s.uptime) then { s with worker := .top }
    else s
  | .taken it => { s with obSpace := give c.obMax s.obSpace, worker := .offering it }
  | .offering it => s.offer c it o
  | .offered it ret => s.settle c it ret delayMs
  | .requeued => { s with obAvail := give c.obMax s.obAvail, worker := .top }
  | .finished it ret => s.report it ret

def cancel (src id : UInt32) : Sys ι :=
  let (kept, removed) := cancelLocked src id s.obItems
  { s with
    obItems := kept
    obSpace := min (s.obSpace + removed.length) c.obMax
    ended := s.ended ++ removed.map fun it => ⟨it.ticket, .cancelled⟩
    recalled := s.recalled || s.worker.held.any (ObItem.copyOf src id) }

def step : Event ι → Sys ι
  | .call t r ready =>
    match s.caller t with
    | .idle | .returned _ => s.call c t r ready
    | _ => s
  | .caller t => s.callerStep c t
  | .worker o delayMs => s.workerStep c o delayMs
  | .cancel src id => s.cancel c src id
  | .deferLate src id delayMs =>
    { s with obItems := s.obItems.map (deferLate src id s.now delayMs) }
  | .setSched sched => { s with sched := sched }
  | .setPreset generation => { s with generation := generation }
  | .tick ms => { s with uptime := s.uptime + ms }

/-- The state after a boot. -/
def init (sched : Sched) : Sys ι where
  obItems := []
  obInflight := false
  obAvail := 0
  obSpace := 0
  worker := .top
  caller := fun _ => .idle
  answer := fun _ => none
  sched := sched
  generation := 0
  airtime := .init
  uptime := 0
  accepted := []
  handed := []
  ended := []
  told := []
  recalled := false

end

/-! ## The branches of a step -/

section
variable {ι : Type} [DecidableEq ι] (c : Config) (s : Sys ι) (t : ι) (r : Request)

/-- How a call of `outbound_enqueue` leaves the checks. -/
inductive Called : Sys ι → Prop where
  | busy : Called s
  | refused (free : (s.caller t).free) (why : Errno) : Called (s.setCaller t (.returned (.err why)))
  | blocked (free : (s.caller t).free) :
      Called ({ s with airtime := (c.duty.blocked s.airtime s.seconds).2 }.setCaller t
        (.returned (.err .ecanceled)))
  | passed (free : (s.caller t).free) (fits : r.wire.length ≤ pktMax)
      (under : (c.duty.blocked s.airtime s.seconds).1 = false) :
      Called ({ s with airtime := (c.duty.blocked s.airtime s.seconds).2 }.setCaller t
        (.gated r))

/-- What a thread in `outbound_enqueue` does next. -/
inductive Advanced : Sys ι → Prop where
  | still : Advanced s
  | append (r : Request) (gated : s.caller t = .gated r) (room : s.obItems.length < s.soft c) :
      Advanced (s.append t r)
  | evict (r : Request) (gated : s.caller t = .gated r) (i : Nat) (victim : ObItem ι)
      (found : evictVictim s.obItems = some (i, victim)) : Advanced ((s.evict i victim).append t r)
  | wait (r : Request) (gated : s.caller t = .gated r) : Advanced (s.setCaller t (.waiting r))
  | refuse (r : Request) (gated : s.caller t = .gated r) :
      Advanced (s.setCaller t (.returned (.err .enomsg)))
  | resume (r : Request) (waiting : s.caller t = .waiting r) :
      Advanced ({ s with obSpace := s.obSpace - 1 }.setCaller t (.gated r))
  | signal (n : Nat) (blocking : Bool) (appended : s.caller t = .appended n blocking) :
      Advanced ({ s with obAvail := give c.obMax s.obAvail }.setCaller t
        (if blocking then .awaiting n else .returned .ok))
  | collect (n : Nat) (awaiting : s.caller t = .awaiting n) (a : Ret)
      (answer : s.answer t = some a) :
      Advanced ({ s with answer := Function.update s.answer t none }.setCaller t
        (.returned a))

variable (o : Offer) (delayMs : UInt32) in
/-- What the worker does next. -/
inductive Worked : Sys ι → Prop where
  | still : Worked s
  | take (idle : s.worker = .top) (i : Nat) (it : ObItem ι)
      (picked : pickNext s.sched.txOrder s.now s.obItems = some (i, it)) : Worked (s.take i it)
  | sleep (idle : s.worker = .top) (nothing : pickNext s.sched.txOrder s.now s.obItems = none) :
      Worked { s with
        worker := .asleep ((waitMs s.now s.obItems).map fun w => s.uptime + max w.toNat 1) }
  | wake (timeout : Option Nat) (asleep : s.worker = .asleep timeout) (avail : Nat) :
      Worked { s with obAvail := avail, worker := .top }
  | hold (it : ObItem ι) (taken : s.worker = .taken it) :
      Worked { s with obSpace := give c.obMax s.obSpace, worker := .offering it }
  | offer (it : ObItem ι) (offering : s.worker = .offering it) (ret : Option Outcome) :
      Worked { s with worker := .offered it ret, handed := s.handed ++ [it] }
  | stale (it : ObItem ι) (offering : s.worker = .offering it) :
      Worked { s with worker := .offered it (some .stale) }
  | transmit (it : ObItem ι) (offering : s.worker = .offering it)
      (own : it.attach = 0 ∧ o.diverted = false ∧ it.gen = s.generation ∧ o.radio = some .ok) :
      Worked { s with
        worker := .offered it (some (.answered .ok))
        handed := s.handed ++ [it]
        airtime := s.airtime.logTx s.seconds (c.packetMs it.wire.length) }
  | finish (it : ObItem ι) (ret : Option Outcome) (offered : s.worker = .offered it ret)
      (out : Outcome) : Worked { s with obInflight := false, worker := .finished it out }
  | requeue (it : ObItem ι) (offered : s.worker = .offered it none)
      (again : ¬c.deferMax ≤ it.defers) (room : ¬c.obMax ≤ s.obItems.length) :
      Worked (s.requeue it delayMs)
  | signal (requeued : s.worker = .requeued) :
      Worked { s with obAvail := give c.obMax s.obAvail, worker := .top }
  | report (it : ObItem ι) (out : Outcome) (finished : s.worker = .finished it out) :
      Worked (s.report it out)

variable {c s}

theorem call_called {t : ι} (free : (s.caller t).free) (r : Request) (ready : Bool) :
    Called c s t r (s.call c t r ready) := by
  unfold call
  split
  · exact .refused free _
  split
  · exact .refused free _
  split
  · exact .refused free _
  have hfits : r.wire.length ≤ pktMax := by omega
  dsimp only
  split
  · exact .blocked free
  · rename_i hb
    exact .passed free hfits (Bool.eq_false_of_not_eq_true hb)

theorem step_called (c : Config) (s : Sys ι) (t : ι) (r : Request) (ready : Bool) :
    Called c s t r (s.step c (.call t r ready)) := by
  simp only [step]
  split
  · rename_i hc
    exact call_called (by rw [hc]; trivial) r ready
  · rename_i hc
    exact call_called (by rw [hc]; trivial) r ready
  · exact .busy

theorem enter_advanced {t : ι} {r : Request} (gated : s.caller t = .gated r) :
    Advanced c s t (s.enter c t r) := by
  unfold enter
  split
  · rename_i hroom
    exact .append r gated hroom
  split
  · exact .wait r gated
  split
  · split
    · rename_i i victim found
      split
      · exact .evict r gated i victim found
      · exact .refuse r gated
    · exact .refuse r gated
  · exact .refuse r gated

theorem callerStep_advanced (c : Config) (s : Sys ι) (t : ι) :
    Advanced c s t (s.callerStep c t) := by
  unfold callerStep
  cases hc : s.caller t with
  | idle | returned a => exact .still
  | gated r => exact enter_advanced hc
  | waiting r =>
    dsimp only
    split
    · exact .resume r hc
    · exact .still
  | appended n blocking => exact .signal n blocking hc
  | awaiting n =>
    cases ha : s.answer t with
    | none => exact .still
    | some a => exact .collect n hc a ha

theorem offer_worked {it : ObItem ι} (offering : s.worker = .offering it) (o : Offer)
    (delayMs : UInt32) : Worked c s o delayMs (s.offer c it o) := by
  unfold offer
  split
  · exact .offer it offering _
  rename_i hattach
  split
  · exact .offer it offering _
  rename_i hdiverted
  split
  · exact .stale it offering
  rename_i hgen
  by_cases hradio : o.radio = some .ok
  · rw [hradio]
    exact .transmit it offering
      ⟨of_not_not hattach, Bool.eq_false_of_not_eq_true hdiverted, of_not_not hgen, hradio⟩
  · rw [if_neg hradio]
    exact .offer it offering _

theorem settle_worked {it : ObItem ι} {ret : Option Outcome} (offered : s.worker = .offered it ret)
    (o : Offer) (delayMs : UInt32) : Worked c s o delayMs (s.settle c it ret delayMs) := by
  unfold settle
  split
  · exact .finish it _ offered _
  split
  · exact .finish it _ offered _
  rename_i hagain
  split
  · exact .finish it _ offered _
  · rename_i hroom
    exact .requeue it offered hagain hroom

theorem workerStep_worked (c : Config) (s : Sys ι) (o : Offer) (delayMs : UInt32) :
    Worked c s o delayMs (s.workerStep c o delayMs) := by
  unfold workerStep
  cases hw : s.worker with
  | top =>
    dsimp only
    unfold pass
    split
    · rename_i i it hpick
      exact .take hw i it hpick
    · rename_i hpick
      exact .sleep hw hpick
  | asleep timeout =>
    dsimp only
    split
    · exact .wake timeout hw _
    · split
      · exact .wake timeout hw s.obAvail
      · exact .still
  | taken it => exact .hold it hw
  | offering it => exact offer_worked hw o delayMs
  | offered it ret => exact settle_worked hw o delayMs
  | requeued => exact .signal hw
  | finished it out => exact .report it out hw

end

/-! ## What a step does with the frames -/

/-- Where the frames go in one step. All but the acceptance and the eviction that may make room
for it leave the books of acceptance alone. -/
inductive Shift {ι : Type} [DecidableEq ι] (c : Config) (s : Sys ι) (e : Event ι) (s' : Sys ι) :
    Prop where
  /-- They stay where they are; a deadline may move. -/
  | stay (f : ObItem ι → ObItem ι) (same : ∀ it, (f it).wire = it.wire ∧ (f it).ticket = it.ticket)
      (items : s'.obItems = s.obItems.map f) (held : s'.worker.held = s.worker.held)
      (handed : s'.handed = s.handed) (accepted : s'.accepted = s.accepted)
      (recalled : s'.recalled = s.recalled) (dequeued : s'.worker.dequeued ⊆ s.worker.dequeued)
  | accept (t : ι) (r : Request) (kept : List (ObItem ι)) (gated : s.caller t = .gated r)
      (sub : kept.Sublist s.obItems) (items : s'.obItems = kept ++ [s.item t r])
      (worker : s'.worker = s.worker) (handed : s'.handed = s.handed)
      (accepted : s'.accepted = s.accepted ++ [(s.item t r).ticket])
      (recalled : s'.recalled = s.recalled)
  | cancel (src id : UInt32) (event : e = .cancel src id) (eq : s' = s.cancel c src id)
  | take (i : Nat) (it : ObItem ι) (idle : s.worker = .top) (found : s.obItems[i]? = some it)
      (eq : s' = s.take i it)
  | offer (it : ObItem ι) (offering : s.worker = .offering it) (ret : Option Outcome)
      (items : s'.obItems = s.obItems) (worker : s'.worker = .offered it ret)
      (handed : s'.handed = s.handed ++ [it]) (accepted : s'.accepted = s.accepted)
      (recalled : s'.recalled = s.recalled)
  | putBack (it : ObItem ι) (o : Offer) (delayMs : UInt32) (event : e = .worker o delayMs)
      (offered : s.worker = .offered it none) (again : ¬c.deferMax ≤ it.defers)
      (room : ¬c.obMax ≤ s.obItems.length) (eq : s' = s.requeue it delayMs)
  | release (it : ObItem ι) (ret : Outcome) (finished : s.worker = .finished it ret)
      (eq : s' = s.report it ret)

section
variable {ι : Type} [DecidableEq ι] {c : Config} {s s' : Sys ι} {e : Event ι}

theorem Shift.still (items : s'.obItems = s.obItems) (held : s'.worker.held = s.worker.held)
    (handed : s'.handed = s.handed) (accepted : s'.accepted = s.accepted)
    (recalled : s'.recalled = s.recalled)
    (dequeued : s'.worker.dequeued ⊆ s.worker.dequeued) : Shift c s e s' :=
  .stay (fun it => it) (fun _ => ⟨rfl, rfl⟩) (by rw [items, List.map_id']) held handed accepted
    recalled dequeued

theorem Called.shift {t : ι} {r : Request} (h : Called c s t r s') : Shift c s e s' := by
  cases h with
  | busy | refused | blocked | passed => exact .still rfl rfl rfl rfl rfl (.refl _)

theorem Advanced.shift {t : ι} (h : Advanced c s t s') : Shift c s e s' := by
  cases h with
  | append r gated room => exact .accept t r s.obItems gated (.refl _) rfl rfl rfl rfl rfl
  | evict r gated i victim found =>
    exact .accept t r (s.obItems.eraseIdx i) gated (List.eraseIdx_sublist _ _) rfl rfl rfl rfl rfl
  | still | wait | refuse | resume | signal | collect => exact .still rfl rfl rfl rfl rfl (.refl _)

theorem Worked.shift {o : Offer} {delayMs : UInt32} (h : Worked c s o delayMs s') :
    Shift c s (.worker o delayMs) s' := by
  cases h with
  | still => exact .still rfl rfl rfl rfl rfl (.refl _)
  | take idle i it picked => exact .take i it idle (best_found picked).1 rfl
  | sleep hw | wake _ hw | hold _ hw | stale _ hw | finish _ _ hw | signal hw =>
    exact .still rfl (by rw [hw]; rfl) rfl rfl rfl (by simp [hw, Worker.dequeued])
  | offer it hw | transmit it hw => exact .offer it hw _ rfl rfl rfl rfl rfl
  | requeue it offered again room => exact .putBack it o delayMs rfl offered again room rfl
  | report it out finished => exact .release it out finished rfl

theorem step_shift (c : Config) (s : Sys ι) (e : Event ι) : Shift c s e (s.step c e) := by
  cases e with
  | call t r ready => exact (step_called c s t r ready).shift
  | caller t => exact (callerStep_advanced c s t).shift
  | worker o delayMs => exact (workerStep_worked c s o delayMs).shift
  | cancel src id => exact .cancel src id rfl rfl
  | deferLate src id delayMs =>
    exact .stay (deferLate src id s.now delayMs)
      (fun it => ⟨deferLate_wire _ _ _ _ it, deferLate_ticket _ _ _ _ it⟩) rfl rfl rfl rfl rfl
      (.refl _)
  | setSched sched | setPreset generation | tick ms => exact .still rfl rfl rfl rfl rfl (.refl _)

end

/-- A node without a ceiling, whose frames take 50 ms. -/
def quietNode : Config := ⟨16, by decide, 32, false, false, ⟨false, none⟩, fun _ => 50⟩

end Sys

end Zephyrtastic.Outbound
