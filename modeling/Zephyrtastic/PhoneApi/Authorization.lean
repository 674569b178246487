import Zephyrtastic.Lib.Run
import Zephyrtastic.PhoneApi.Api

/-!
# Authorization and connections

A passphrase is verified on the system workqueue, while the connection it came on
may end and another may begin.
-/

namespace Zephyrtastic.PhoneApi

open Function List Run UInt32

/-- What the authorization of a connection rests on. -/
structure Conn where
  adminAuthorized : Bool
  pendingUnlock : Bool
  connEpoch : UInt32
  deriving DecidableEq, Repr

/-- The part of a connection the worker and its transport share. -/
def Api.conn {n : Nat} (a : Api n) : Conn := ⟨a.adminAuthorized, a.pendingUnlock, a.connEpoch⟩

/-- What comes of a passphrase: refused, a disable under way, storage unlocked with the
reload still to come, or verified with the store ready. -/
inductive Outcome where
  | failed | disable | awaitsReload | ready
  deriving DecidableEq, Repr

/-- The statement a transport's thread executes next. -/
inductive Thread (ι : Type) where
  | idle
  /-- In `session_reset`. -/
  | resetAdmin
  | resetPending
  | resetEpoch
  /-- In `handle_auth`, with the job slot taken. -/
  | jobApi
  | jobEpoch
  | submit
  /-- In `revoke_all`, after a lock now. -/
  | revoke (rest : List ι)
  | revokePending (t : ι) (rest : List ι)
  deriving DecidableEq

/-- The statement the system workqueue executes next. -/
inductive Worker (ι : Type) where
  | idle
  /-- In `auth_work_fn`. -/
  | verify (t : ι)
  | compare (t : ι) (o : Outcome)
  | act (t : ι) (o : Outcome) (sameConn : Bool)
  | authorized (t : ι)
  | dropJob
  | clearBusy
  /-- In `complete_pending_unlocks`. -/
  | look (rest : List ι)
  | grant (t : ι) (rest : List ι)
  | granted (t : ι) (rest : List ι)
  /-- In `revoke_all`. -/
  | revoke (rest : List ι)
  | revokePending (t : ι) (rest : List ι)
  deriving DecidableEq

/-- The connections, the threads and the job slot. Beside them the number of each
connection, the one the passphrase in the slot was sent on, and those on which one was
verified. -/
structure Scene (ι : Type) where
  conn : ι → Conn
  thread : ι → Thread ι
  worker : Worker ι
  jobApi : Option ι
  jobEpoch : UInt32
  jobBusy : Bool
  /-- `auth_work` is submitted. -/
  workPending : Bool
  serial : ι → Nat
  sent : Option (ι × Nat)
  proven : List (ι × Nat)

open Scene

inductive AuthEvent (ι : Type) where
  /-- A transport's thread calls `session_reset`, sends a passphrase or a lock now. -/
  | sessionReset (t : ι)
  | handleAuth (t : ι)
  | lockNow (t : ι) (transports : List ι)
  /-- It executes its next statement. -/
  | transport (t : ι)
  /-- The workqueue takes up the passphrase, a reload or a revocation. -/
  | authWork
  | reloaded (transports : List ι)
  | revoked (transports : List ι)
  /-- It executes its next statement; the outcome is for the verification. -/
  | worker (o : Outcome)

namespace Scene

section
variable {ι : Type} [DecidableEq ι] (s : Scene ι)
variable (t : ι)

def setAdmin (v : Bool) : Scene ι :=
  { s with conn := update s.conn t { s.conn t with adminAuthorized := v } }

def setPending (v : Bool) : Scene ι :=
  { s with conn := update s.conn t { s.conn t with pendingUnlock := v } }

/-- `api->conn_epoch++`, with which the next connection begins. -/
def bumpEpoch : Scene ι :=
  { s with
    conn := update s.conn t { s.conn t with connEpoch := (s.conn t).connEpoch + 1 }
    serial := update s.serial t (s.serial t + 1) }

def goThread (pc : Thread ι) : Scene ι := { s with thread := update s.thread t pc }

def goWorker (pc : Worker ι) : Scene ι := { s with worker := pc }

/-- The next statement of a transport's thread. -/
def threadStep : Scene ι :=
  match s.thread t with
  | .idle => s
  | .resetAdmin => (s.setAdmin t false).goThread t .resetPending
  | .resetPending => (s.setPending t false).goThread t .resetEpoch
  | .resetEpoch => (s.bumpEpoch t).goThread t .idle
  | .jobApi => { s with jobApi := some t }.goThread t .jobEpoch
  | .jobEpoch =>
    { s with jobEpoch := (s.conn t).connEpoch, sent := some (t, s.serial t) }.goThread t .submit
  | .submit => { s with workPending := true }.goThread t .idle
  | .revoke [] => s.goThread t .idle
  | .revoke (u :: rest) => (s.setAdmin u false).goThread t (.revokePending u rest)
  | .revokePending u rest => (s.setPending u false).goThread t (.revoke rest)

/-- The branches of `auth_work_fn` after the comparison. -/
def actOn : Outcome → Bool → Scene ι
  | .failed, _ => s.goWorker .dropJob
  | _, false => s.goWorker .dropJob
  | .awaitsReload, true => (s.setPending t true).goWorker .dropJob
  | .disable, true => (s.setAdmin t true).goWorker (.authorized t)
  | .ready, true => (s.setAdmin t true).goWorker (.authorized t)

/-- The next statement of the workqueue. -/
def workerStep (o : Outcome) : Scene ι :=
  match s.worker with
  | .idle => s
  | .verify t =>
    { s with proven := if o = Outcome.failed then s.proven else s.sent.toList ++ s.proven }.goWorker
      (.compare t o)
  | .compare t o => s.goWorker (.act t o (decide ((s.conn t).connEpoch = s.jobEpoch)))
  | .act t o sameConn => s.actOn t o sameConn
  | .authorized t => (s.setPending t false).goWorker .dropJob
  | .dropJob => { s with jobApi := none }.goWorker .clearBusy
  | .clearBusy => { s with jobBusy := false }.goWorker .idle
  | .look [] => s.goWorker .idle
  | .look (t :: rest) =>
    s.goWorker (if (s.conn t).pendingUnlock then .grant t rest else .look rest)
  | .grant t rest => (s.setAdmin t true).goWorker (.granted t rest)
  | .granted t rest => (s.setPending t false).goWorker (.look rest)
  | .revoke [] => s.goWorker .idle
  | .revoke (t :: rest) => (s.setAdmin t false).goWorker (.revokePending t rest)
  | .revokePending t rest => (s.setPending t false).goWorker (.revoke rest)

/-- A thread or the workqueue that is busy does not take up anything else. -/
def step : AuthEvent ι → Scene ι
  | .sessionReset t => if s.thread t = .idle then s.goThread t .resetAdmin else s
  | .handleAuth t =>
    if s.thread t = .idle && !s.jobBusy then { s with jobBusy := true }.goThread t .jobApi else s
  | .lockNow t transports =>
    if s.thread t = .idle && (s.conn t).adminAuthorized then s.goThread t (.revoke transports)
    else s
  | .transport t => s.threadStep t
  | .authWork =>
    match s.jobApi with
    | none => s
    | some t =>
      if s.worker = .idle && s.workPending then
        { s with workPending := false }.goWorker (.verify t)
      else s
  | .reloaded transports => if s.worker = .idle then s.goWorker (.look transports) else s
  | .revoked transports => if s.worker = .idle then s.goWorker (.revoke transports) else s
  | .worker o => s.workerStep o

end

/-- Before any client has connected. -/
def start (ι : Type) : Scene ι where
  conn := fun _ => ⟨false, false, 0⟩
  thread := fun _ => .idle
  worker := .idle
  jobApi := none
  jobEpoch := 0
  jobBusy := false
  workPending := false
  serial := fun _ => 0
  sent := none
  proven := []

end Scene

/-- In the middle of a reset, past its first statement. -/
def Thread.midReset {ι : Type} : Thread ι → Bool
  | .resetPending | .resetEpoch => true
  | _ => false

/-- Filling the job slot. -/
def Thread.filling {ι : Type} : Thread ι → Bool
  | .jobApi | .jobEpoch | .submit => true
  | _ => false

/-- Between the look at a connection and the grant to it. -/
def Worker.holds {ι : Type} [DecidableEq ι] (t : ι) : Worker ι → Bool
  | .act u o sameConn => decide (u = t) && decide (o ≠ .failed) && sameConn
  | .grant u _ => decide (u = t)
  | _ => false

/-- Working on the job in the slot. -/
def Worker.onJob {ι : Type} : Worker ι → Bool
  | .verify _ | .compare _ _ | .act _ _ _ | .authorized _ | .dropJob | .clearBusy => true
  | _ => false

/-- No flag is set that was not. -/
def Conn.Below (c c' : Conn) : Prop :=
  (c.adminAuthorized = true → c'.adminAuthorized = true) ∧
    (c.pendingUnlock = true → c'.pendingUnlock = true)

section
variable {ι : Type} [DecidableEq ι] {s : Scene ι} {t : ι}

namespace Scene

/-- The claim about a moment: where a connection is authorized, a passphrase sent on it has
been verified. -/
def Proven (s : Scene ι) : Prop :=
  ∀ t, (s.conn t).adminAuthorized = true → (t, s.serial t) ∈ s.proven

/-- The condition on a statement: the look and the grant exclude a reset of the connection,
and a job is looked at before its epoch comes round again. -/
def Exclusive (s : Scene ι) : AuthEvent ι → Prop
  | .transport t => s.thread t = .resetAdmin → s.worker.holds t = false
  | .worker _ =>
    match s.worker with
    | .compare t _ => (s.thread t).midReset = false ∧
        ∀ k, s.sent = some (t, k) → s.serial t < k + 2 ^ 32
    | .look (t :: _) => (s.thread t).midReset = false
    | _ => True
  | _ => True

/-! ## The invariant -/

/-- The slot holds a job of the transport, stamped with a connection of its own. -/
def Stamped (s : Scene ι) (t : ι) : Prop :=
  ∃ k, s.jobApi = some t ∧ s.sent = some (t, k) ∧ s.jobEpoch = ofNat k ∧ k ≤ s.serial t

/-- What a thread has done of the statements before the one that is next. -/
def ThreadOk (s : Scene ι) (t : ι) : Thread ι → Prop
  | .resetPending => (s.conn t).adminAuthorized = false
  | .resetEpoch => (s.conn t).adminAuthorized = false ∧ (s.conn t).pendingUnlock = false
  | .jobEpoch => s.jobApi = some t
  | .submit => s.Stamped t
  | _ => True

/-- What the worker has found out before the statement that is next. -/
def WorkerOk (s : Scene ι) : Worker ι → Prop
  | .verify t => s.Stamped t
  | .compare t o => s.Stamped t ∧ (o ≠ .failed → ∀ p, s.sent = some p → p ∈ s.proven)
  | _ => True

/-- The job slot has one owner at a time: a thread that fills it, the queue, or the worker. -/
structure OneOwner (s : Scene ι) : Prop where
  filling : ∀ t, (s.thread t).filling = true →
    s.jobBusy = true ∧ s.workPending = false ∧ s.worker.onJob = false ∧
      ∀ u, (s.thread u).filling = true → u = t
  pending : s.workPending = true →
    s.jobBusy = true ∧ s.worker.onJob = false ∧ ∀ t, (s.thread t).filling = false
  onJob : s.worker.onJob = true →
    s.jobBusy = true ∧ s.workPending = false ∧ ∀ t, (s.thread t).filling = false

structure Inv (s : Scene ι) : Prop where
  epoch : ∀ t, (s.conn t).connEpoch = ofNat (s.serial t)
  shown : ∀ t, (s.conn t).adminAuthorized = true ∨ (s.conn t).pendingUnlock = true →
    (t, s.serial t) ∈ s.proven
  held : ∀ t, s.worker.holds t = true →
    (t, s.serial t) ∈ s.proven ∧ (s.thread t).midReset = false
  thread : ∀ t, s.ThreadOk t (s.thread t)
  worker : s.WorkerOk s.worker
  queued : s.workPending = true → ∀ t, s.jobApi = some t → s.Stamped t
  owner : s.OneOwner

omit [DecidableEq ι] in
theorem ThreadOk.mono {s' : Scene ι} {pc : Thread ι} (h : s.ThreadOk t pc)
    (hconn : pc.midReset = true → (s'.conn t).Below (s.conn t))
    (hslot : pc.filling = true → s'.jobApi = s.jobApi ∧ (s.Stamped t → s'.Stamped t)) :
    s'.ThreadOk t pc := by
  cases pc with
  | resetPending =>
    simp only [ThreadOk, ← Bool.not_eq_true] at h ⊢
    exact mt (hconn rfl).1 h
  | resetEpoch =>
    simp only [ThreadOk, ← Bool.not_eq_true] at h ⊢
    exact h.imp (mt (hconn rfl).1) (mt (hconn rfl).2)
  | jobEpoch => exact (hslot rfl).1.trans h
  | submit => exact (hslot rfl).2 h
  | _ => trivial

omit [DecidableEq ι] in
theorem WorkerOk.mono {s' : Scene ι} {pc : Worker ι} (h : s.WorkerOk pc)
    (hslot : ∀ u, s.Stamped u → s'.Stamped u) (hsent : s'.sent = s.sent)
    (hproven : ∀ p ∈ s.proven, p ∈ s'.proven) : s'.WorkerOk pc := by
  cases pc with
  | verify u => exact hslot u h
  | compare u o => exact ⟨hslot u h.1, fun ho p hp => hproven p (h.2 ho p (hsent ▸ hp))⟩
  | _ => trivial

omit [DecidableEq ι] in
theorem workerOk_of_not_onJob {pc : Worker ι} (hpc : pc.onJob = false) : s.WorkerOk pc := by
  cases pc with
  | verify | compare => cases hpc
  | _ => trivial

/-- A connection changes: a flag that is set has been proven and is not of a connection in
the middle of its reset, and only such a one begins anew. -/
theorem Inv.setConn (h : s.Inv) {c : Conn} {k : Nat} (hepoch : c.connEpoch = ofNat k)
    (hshown : c.adminAuthorized = true ∨ c.pendingUnlock = true → (t, k) ∈ s.proven)
    (hmid : (s.thread t).midReset = true → c.Below (s.conn t))
    (hle : s.serial t ≤ k) (hsame : (s.thread t).midReset = false → k = s.serial t) :
    ({ s with conn := update s.conn t c, serial := update s.serial t k } : Scene ι).Inv := by
  have hall (u : ι) :
      let c := update s.conn t c u
      let k := update s.serial t k u
      c.connEpoch = ofNat k ∧
      (c.adminAuthorized = true ∨ c.pendingUnlock = true → (u, k) ∈ s.proven) ∧
      ((s.thread u).midReset = true → c.Below (s.conn u)) ∧
      s.serial u ≤ k ∧ ((s.thread u).midReset = false → k = s.serial u) := by
    by_cases hu : u = t
    · subst hu
      simp only [update_self]
      exact ⟨hepoch, hshown, hmid, hle, hsame⟩
    · simp only [update_of_ne hu]
      exact ⟨h.epoch u, h.shown u, fun _ => ⟨id, id⟩, le_rfl, fun _ => trivial⟩
  have hstamped : ∀ u, s.Stamped u → Stamped
      { s with conn := update s.conn t c, serial := update s.serial t k } u := by
    rintro u ⟨k, hapi, hsent, hepoch, hk⟩
    exact ⟨k, hapi, hsent, hepoch, hk.trans (hall u).2.2.2.1⟩
  constructor
  · exact fun u => (hall u).1
  · exact fun u => (hall u).2.1
  · intro u hholds
    obtain ⟨hproven, hno⟩ := h.held u hholds
    refine ⟨?_, hno⟩
    dsimp only
    rw [(hall u).2.2.2.2 hno]
    exact hproven
  · exact fun u => (h.thread u).mono (hall u).2.2.1 fun _ => ⟨rfl, hstamped u⟩
  · exact h.worker.mono hstamped rfl fun _ => id
  · exact fun hpending u hapi => hstamped u (h.queued hpending u hapi)
  · exact { h.owner with }

theorem Inv.setFlags (h : s.Inv) {c : Conn} (hepoch : c.connEpoch = (s.conn t).connEpoch)
    (hc : c.Below (s.conn t) ∨
      ((t, s.serial t) ∈ s.proven ∧ (s.thread t).midReset = false)) :
    ({ s with conn := update s.conn t c } : Scene ι).Inv := by
  have hset := h.setConn (hepoch.trans (h.epoch t)) ?_ ?_ le_rfl fun _ => rfl
  · rwa [update_eq_self] at hset
  · intro hset
    rcases hc with ⟨hadmin, hpending⟩ | ⟨hproven, _⟩
    · exact h.shown t (hset.imp hadmin hpending)
    · exact hproven
  · intro hmid
    rcases hc with hkept | ⟨_, hno⟩
    · exact hkept
    · exact clash hno hmid

section
variable (h : s.Inv) (t) (v : Bool)
  (hv : v = true → (t, s.serial t) ∈ s.proven ∧ (s.thread t).midReset = false)
include h hv

theorem Inv.setAdmin : (s.setAdmin t v).Inv := by
  apply h.setFlags
  · rfl
  · cases v with
    | false => exact .inl ⟨nofun, id⟩
    | true => exact .inr (hv rfl)

theorem Inv.setPending : (s.setPending t v).Inv := by
  apply h.setFlags
  · rfl
  · cases v with
    | false => exact .inl ⟨id, nofun⟩
    | true => exact .inr (hv rfl)

end

theorem Inv.bumpEpoch (h : s.Inv) (ht : s.thread t = .resetEpoch) : (s.bumpEpoch t).Inv := by
  have hok := h.thread t
  rw [ht] at hok
  apply h.setConn
  · rw [h.epoch t, ofNat_add]
    rfl
  · intro hset
    simp only [hok.1, hok.2, Bool.false_eq_true, or_self] at hset
  · exact fun _ => ⟨id, id⟩
  · exact Nat.le_succ _
  · intro hno
    rw [ht] at hno
    cases hno

theorem Inv.moveTo (h : s.Inv) (thread : ι → Thread ι) (worker : Worker ι)
    (jobBusy workPending : Bool)
    (hheld : ∀ t, worker.holds t = true →
      (t, s.serial t) ∈ s.proven ∧ (thread t).midReset = false)
    (hthread : ∀ t, s.ThreadOk t (thread t)) (hworker : s.WorkerOk worker)
    (hqueued : workPending = true → ∀ t, s.jobApi = some t → s.Stamped t)
    (howner : ({ s with thread, worker, jobBusy, workPending } : Scene ι).OneOwner) :
    ({ s with thread, worker, jobBusy, workPending } : Scene ι).Inv where
  epoch := h.epoch
  shown := h.shown
  held := hheld
  thread t := (hthread t).mono (fun _ => ⟨id, id⟩) fun _ => ⟨rfl, id⟩
  worker := hworker.mono (fun _ => id) rfl fun _ => id
  queued := hqueued
  owner := howner

theorem OneOwner.goThread (h : s.OneOwner) {pc : Thread ι}
    (hfill : pc.filling = true → s.jobBusy = true ∧ s.workPending = false ∧
      s.worker.onJob = false ∧ ∀ u, (s.thread u).filling = true → u = t) :
    (s.goThread t pc).OneOwner := by
  have hafter : ∀ u, ((s.goThread t pc).thread u).filling = true →
      u = t ∧ pc.filling = true ∨ u ≠ t ∧ (s.thread u).filling = true := by
    intro u hu
    simp only [Scene.goThread] at hu
    by_cases hut : u = t
    · subst hut
      rw [update_self] at hu
      exact .inl ⟨rfl, hu⟩
    · rw [update_of_ne hut] at hu
      exact .inr ⟨hut, hu⟩
  have hoff : (∀ u, (s.thread u).filling = false) → ¬pc.filling = true →
      ∀ u, ((s.goThread t pc).thread u).filling = false := by
    intro hnone hpc u
    refine Bool.eq_false_of_not_eq_true fun hu => ?_
    rcases hafter u hu with ⟨_, hset⟩ | ⟨_, hold⟩
    · exact hpc hset
    · exact clash (hnone u) hold
  constructor
  · intro u hu
    rcases hafter u hu with ⟨rfl, hpc⟩ | ⟨hut, hold⟩
    · obtain ⟨hbusy, hpend, hon, hone⟩ := hfill hpc
      refine ⟨hbusy, hpend, hon, fun v hv => ?_⟩
      rcases hafter v hv with ⟨hv, _⟩ | ⟨_, hv⟩
      · exact hv
      · exact hone v hv
    · obtain ⟨hbusy, hpend, hon, hone⟩ := h.filling u hold
      refine ⟨hbusy, hpend, hon, fun v hv => ?_⟩
      rcases hafter v hv with ⟨_, hpc⟩ | ⟨_, hv⟩
      · exact absurd ((hfill hpc).2.2.2 u hold) hut
      · exact hone v hv
  · intro hp
    obtain ⟨hbusy, hon, hnone⟩ := h.pending hp
    exact ⟨hbusy, hon, hoff hnone fun hpc => clash (hfill hpc).2.1 hp⟩
  · intro hon
    obtain ⟨hbusy, hpend, hnone⟩ := h.onJob hon
    exact ⟨hbusy, hpend, hoff hnone fun hpc => clash (hfill hpc).2.2.1 hon⟩

section
variable {pc : Thread ι} (h : s.Inv) (hok : s.ThreadOk t pc)
  (hmid : pc.midReset = true → s.worker.holds t = false)
include h hok hmid

theorem Inv.goThread (hfill : pc.filling = true → s.jobBusy = true ∧ s.workPending = false ∧
      s.worker.onJob = false ∧ ∀ u, (s.thread u).filling = true → u = t) :
    (s.goThread t pc).Inv := by
  apply h.moveTo _ _ _ _ _ _ h.worker h.queued (h.owner.goThread hfill)
  · refine fun u hholds => ⟨(h.held u hholds).1, ?_⟩
    by_cases hu : u = t
    · subst hu
      rw [update_self]
      exact Bool.eq_false_of_not_eq_true fun hset => clash (hmid hset) hholds
    · rw [update_of_ne hu]
      exact (h.held u hholds).2
  · exact (forall_update_iff s.thread s.ThreadOk).mpr ⟨hok, fun u _ => h.thread u⟩

theorem Inv.goThread_off (hfill : pc.filling = false) : (s.goThread t pc).Inv :=
  h.goThread hok hmid fun hpc => clash hfill hpc

end

section
variable {pc : Worker ι} (h : s.Inv) (hok : s.WorkerOk pc)
  (hheld : ∀ t, pc.holds t = true → (t, s.serial t) ∈ s.proven ∧ (s.thread t).midReset = false)
include h hok hheld

theorem Inv.goWorker (hon : pc.onJob = true →
      s.jobBusy = true ∧ s.workPending = false ∧ ∀ t, (s.thread t).filling = false) :
    (s.goWorker pc).Inv := by
  apply h.moveTo _ _ _ _ hheld h.thread hok h.queued
  refine ⟨?_, ?_, hon⟩
  · intro u hu
    obtain ⟨hbusy, hpend, _, hone⟩ := h.owner.filling u hu
    refine ⟨hbusy, hpend, Bool.eq_false_of_not_eq_true fun hset => ?_, hone⟩
    exact clash ((hon hset).2.2 u) hu
  · intro hp
    obtain ⟨hbusy, _, hnone⟩ := h.owner.pending hp
    refine ⟨hbusy, Bool.eq_false_of_not_eq_true fun hset => ?_, hnone⟩
    exact clash (hon hset).2.1 hp

theorem Inv.goWorker_within (hon : pc.onJob = s.worker.onJob) : (s.goWorker pc).Inv := by
  apply h.goWorker hok hheld
  rw [hon]
  exact h.owner.onJob

end

/-! ## The job slot -/

section
variable (h : s.Inv)
include h

theorem Inv.setSlot (jobApi : Option ι) (jobEpoch : UInt32)
    (sent : Option (ι × Nat)) (hpend : s.workPending = false)
    (hworker : ({ s with jobApi, jobEpoch, sent } : Scene ι).WorkerOk s.worker)
    (hok : ∀ u, (s.thread u).filling = true →
      ({ s with jobApi, jobEpoch, sent } : Scene ι).ThreadOk u (s.thread u)) :
    ({ s with jobApi, jobEpoch, sent } : Scene ι).Inv where
  epoch := h.epoch
  shown := h.shown
  held := h.held
  thread := by
    intro u
    cases hu : (s.thread u).filling with
    | true => exact hok u hu
    | false => exact (h.thread u).mono (fun _ => ⟨id, id⟩) (clash hu)
  worker := hworker
  queued := clash hpend
  owner := { h.owner with }

theorem Inv.claimJob (hfree : s.jobBusy = false) :
    ({ s with jobBusy := true }.goThread t .jobApi : Scene ι).Inv := by
  have hnone : ∀ u, (s.thread u).filling = false := fun u =>
    Bool.eq_false_of_not_eq_true fun hu => clash hfree (h.owner.filling u hu).1
  have hpend : s.workPending = false :=
    Bool.eq_false_of_not_eq_true fun hp => clash hfree (h.owner.pending hp).1
  have hon : s.worker.onJob = false :=
    Bool.eq_false_of_not_eq_true fun hon => clash hfree (h.owner.onJob hon).1
  have hbusy : ({ s with jobBusy := true } : Scene ι).Inv := by
    apply h.moveTo _ _ _ _ h.held h.thread h.worker h.queued
    exact ⟨fun u hu => ⟨rfl, (h.owner.filling u hu).2⟩, fun hp => ⟨rfl, (h.owner.pending hp).2⟩,
      fun hon => ⟨rfl, (h.owner.onJob hon).2⟩⟩
  exact hbusy.goThread trivial nofun fun _ => ⟨rfl, hpend, hon, fun u hu => clash (hnone u) hu⟩

/-- The thread that fills the slot puts something into it. -/
theorem Inv.fillSlot (jobApi : Option ι) (jobEpoch : UInt32) (sent : Option (ι × Nat))
    {pc : Thread ι} (hfill : (s.thread t).filling = true)
    (hok : ({ s with jobApi, jobEpoch, sent } : Scene ι).ThreadOk t (s.thread t))
    (hnext : ({ s with jobApi, jobEpoch, sent } : Scene ι).ThreadOk t pc)
    (hmid : pc.midReset = false) :
    ({ s with jobApi, jobEpoch, sent }.goThread t pc : Scene ι).Inv := by
  obtain ⟨hbusy, hpend, hon, hone⟩ := h.owner.filling t hfill
  have hslot : ({ s with jobApi, jobEpoch, sent } : Scene ι).Inv := by
    apply h.setSlot _ _ _ hpend (workerOk_of_not_onJob hon)
    intro u hu
    rw [hone u hu]
    exact hok
  exact hslot.goThread hnext (clash hmid) fun _ => ⟨hbusy, hpend, hon, hone⟩

theorem Inv.fillApi (ht : s.thread t = .jobApi) :
    ({ s with jobApi := some t }.goThread t .jobEpoch : Scene ι).Inv := by
  apply h.fillSlot
  · rw [ht]
    rfl
  · rw [ht]
    trivial
  · rfl
  · rfl

theorem Inv.stampJob (ht : s.thread t = .jobEpoch) :
    ({ s with jobEpoch := (s.conn t).connEpoch, sent := some (t, s.serial t) }.goThread t .submit :
      Scene ι).Inv := by
  have hapi := h.thread t
  rw [ht] at hapi
  apply h.fillSlot
  · rw [ht]
    rfl
  · rw [ht]
    exact hapi
  · exact ⟨s.serial t, hapi, rfl, h.epoch t, le_rfl⟩
  · rfl

theorem Inv.submitJob (ht : s.thread t = .submit) :
    ({ s with workPending := true }.goThread t .idle : Scene ι).Inv := by
  have hstamped := h.thread t
  rw [ht] at hstamped
  obtain ⟨hbusy, _, hon, hone⟩ := h.owner.filling t (by rw [ht]; rfl)
  have hidle : (s.goThread t .idle).Inv := h.goThread_off trivial nofun rfl
  have hnone : ∀ u, ((s.goThread t .idle).thread u).filling = false := by
    refine (forall_update_iff s.thread fun _ pc => pc.filling = false).mpr ⟨rfl, fun u hu => ?_⟩
    exact Bool.eq_false_of_not_eq_true fun hset => hu (hone u hset)
  apply hidle.moveTo _ _ _ _ hidle.held hidle.thread hidle.worker
  · intro _ u hapi
    obtain ⟨k, hjob, hrest⟩ := hstamped
    obtain rfl : t = u := Option.mem_unique hjob hapi
    exact ⟨k, hjob, hrest⟩
  · refine ⟨fun u hu => ?_, fun _ => ⟨hbusy, hon, hnone⟩, fun hset => ?_⟩
    · exact clash (hnone u) hu
    · exact clash hon hset

theorem Inv.takeUpJob (hpend : s.workPending = true) (hapi : s.jobApi = some t) :
    ({ s with workPending := false }.goWorker (.verify t) : Scene ι).Inv := by
  obtain ⟨hbusy, hon, hnone⟩ := h.owner.pending hpend
  apply h.moveTo
  · nofun
  · exact h.thread
  · exact h.queued hpend t hapi
  · nofun
  · refine ⟨fun u hu => ?_, fun hp => ?_, fun _ => ⟨hbusy, rfl, hnone⟩⟩
    · exact clash (hnone u) hu
    · cases hp

theorem Inv.addProven (proven : List (ι × Nat))
    (hsub : ∀ p ∈ s.proven, p ∈ proven) : ({ s with proven } : Scene ι).Inv where
  epoch := h.epoch
  shown := fun u hset => hsub _ (h.shown u hset)
  held := fun u hholds => ⟨hsub _ (h.held u hholds).1, (h.held u hholds).2⟩
  thread u := (h.thread u).mono (fun _ => ⟨id, id⟩) fun _ => ⟨rfl, id⟩
  worker := h.worker.mono (fun _ => id) rfl hsub
  queued := h.queued
  owner := { h.owner with }

theorem Inv.verifyJob (hw : s.worker = .verify t) (o : Outcome) :
    ({ s with proven := if o = Outcome.failed then s.proven else s.sent.toList ++ s.proven
      }.goWorker (.compare t o) : Scene ι).Inv := by
  have hstamped := h.worker
  rw [hw] at hstamped
  have hproven : ({ s with
      proven := if o = Outcome.failed then s.proven else s.sent.toList ++ s.proven } :
      Scene ι).Inv := by
    apply h.addProven
    intro p hp
    split
    · exact hp
    · exact mem_append_right _ hp
  apply hproven.goWorker_within
  · refine ⟨hstamped, fun ho p hp => ?_⟩
    simp only [if_neg ho, mem_append, Option.mem_toList]
    exact .inl hp
  · nofun
  · rw [hw]
    rfl

theorem Inv.dropJob (hw : s.worker = .dropJob) :
    ({ s with jobApi := none }.goWorker .clearBusy : Scene ι).Inv := by
  obtain ⟨_, hpend, hnone⟩ := h.owner.onJob (by rw [hw]; rfl)
  have hslot : ({ s with jobApi := none } : Scene ι).Inv := by
    apply h.setSlot _ _ _ hpend
    · rw [hw]
      trivial
    · exact fun u hu => clash (hnone u) hu
  exact hslot.goWorker_within trivial nofun (by rw [hw]; rfl)

theorem Inv.clearBusy (hw : s.worker = .clearBusy) :
    ({ s with jobBusy := false }.goWorker .idle : Scene ι).Inv := by
  obtain ⟨_, hpend, hnone⟩ := h.owner.onJob (by rw [hw]; rfl)
  apply h.moveTo
  · nofun
  · exact h.thread
  · trivial
  · exact h.queued
  · refine ⟨fun u hu => ?_, fun hp => ?_, fun hset => ?_⟩
    · exact clash (hnone u) hu
    · exact clash hpend hp
    · cases hset

end

/-! ## Steps and runs -/

section
variable (h : s.Inv)
include h

theorem threadStep_inv (t : ι)
    (hex : s.thread t = .resetAdmin → s.worker.holds t = false) : (s.threadStep t).Inv := by
  have hok := h.thread t
  unfold threadStep
  split <;> rename_i hpc <;> rw [hpc] at hok
  · exact h
  · apply (h.setAdmin t false nofun).goThread_off _ (fun _ => hex hpc) rfl
    simp only [ThreadOk, setAdmin, update_self]
  · -- The worker cannot have come to hold the connection since the first statement.
    apply (h.setPending t false nofun).goThread_off _ _ rfl
    · simp only [ThreadOk, setPending, update_self]
      exact ⟨hok, trivial⟩
    · intro _
      refine Bool.eq_false_of_not_eq_true fun hholds => ?_
      have hmid := (h.held t hholds).2
      rw [hpc] at hmid
      cases hmid
  · exact (h.bumpEpoch hpc).goThread_off trivial nofun rfl
  · exact h.fillApi hpc
  · exact h.stampJob hpc
  · exact h.submitJob hpc
  · exact h.goThread_off trivial nofun rfl
  · exact (h.setAdmin _ false nofun).goThread_off trivial nofun rfl
  · exact (h.setPending _ false nofun).goThread_off trivial nofun rfl

/-- The epochs of a job and its connection agree on the connection the job was sent on, as
long as they have not come round. -/
theorem Inv.serial_eq {k : Nat} (hepoch : (s.conn t).connEpoch = s.jobEpoch)
    (hk : s.jobEpoch = ofNat k) (hle : k ≤ s.serial t) (hlt : s.serial t < k + 2 ^ 32) :
    s.serial t = k := by
  have hmod : ofNat (s.serial t) = ofNat k := by rw [← h.epoch t, hepoch, hk]
  have hmod := congrArg toNat hmod
  rw [toNat_ofNat', toNat_ofNat'] at hmod
  omega

theorem Inv.compareEpoch {o : Outcome} (hw : s.worker = .compare t o)
    (hmid : (s.thread t).midReset = false)
    (hlt : ∀ k, s.sent = some (t, k) → s.serial t < k + 2 ^ 32) :
    (s.goWorker (.act t o (decide ((s.conn t).connEpoch = s.jobEpoch)))).Inv := by
  have hok := h.worker
  rw [hw] at hok
  obtain ⟨⟨k, _, hsent, hk, hle⟩, hproven⟩ := hok
  apply h.goWorker_within
  · trivial
  · intro u hholds
    simp only [Worker.holds, Bool.and_eq_true, decide_eq_true_eq] at hholds
    obtain ⟨⟨rfl, ho⟩, hepoch⟩ := hholds
    rw [h.serial_eq hepoch hk hle (hlt k hsent)]
    exact ⟨hproven ho _ hsent, hmid⟩
  · rw [hw]
    rfl

theorem Inv.actOn {o : Outcome} {same : Bool} (hw : s.worker = .act t o same) :
    (s.actOn t o same).Inv := by
  have hon : s.worker.onJob = true := by rw [hw]; rfl
  have hheld : o ≠ .failed → same = true →
      (t, s.serial t) ∈ s.proven ∧ (s.thread t).midReset = false := by
    intro ho hsame
    apply h.held t
    rw [hw]
    simp only [Worker.holds, decide_true, Bool.true_and, Bool.and_eq_true, decide_eq_true_eq]
    exact ⟨ho, hsame⟩
  unfold Scene.actOn
  split
  · exact h.goWorker_within trivial nofun hon.symm
  · exact h.goWorker_within trivial nofun hon.symm
  · exact (h.setPending t true fun _ => hheld nofun rfl).goWorker_within trivial nofun hon.symm
  · exact (h.setAdmin t true fun _ => hheld nofun rfl).goWorker_within trivial nofun hon.symm
  · exact (h.setAdmin t true fun _ => hheld nofun rfl).goWorker_within trivial nofun hon.symm

/-- A look at `pending_unlock` finds a connection that has proven itself. -/
theorem Inv.lookAt {rest : List ι} (hw : s.worker = .look (t :: rest))
    (hmid : (s.thread t).midReset = false) :
    (s.goWorker (if (s.conn t).pendingUnlock then .grant t rest else .look rest)).Inv := by
  have hon : s.worker.onJob = false := by rw [hw]; rfl
  split
  · rename_i hpending
    apply h.goWorker_within
    · trivial
    · intro u hholds
      simp only [Worker.holds, decide_eq_true_eq] at hholds
      subst hholds
      exact ⟨h.shown t (.inr hpending), hmid⟩
    · exact hon.symm
  · exact h.goWorker_within trivial nofun hon.symm

theorem workerStep_inv (o : Outcome) (hex : s.Exclusive (.worker o)) : (s.workerStep o).Inv := by
  unfold workerStep
  simp only [Exclusive] at hex
  split <;> rename_i hpc <;> rw [hpc] at hex <;> have hon := (congrArg Worker.onJob hpc).symm
  · exact h
  · exact h.verifyJob hpc o
  · exact h.compareEpoch hpc hex.1 hex.2
  · exact h.actOn hpc
  · exact (h.setPending _ false nofun).goWorker_within trivial nofun hon
  · exact h.dropJob hpc
  · exact h.clearBusy hpc
  · exact h.goWorker_within trivial nofun hon
  · exact h.lookAt hpc hex
  · rename_i t rest
    have hheld := h.held t (by rw [hpc]; exact decide_eq_true rfl)
    exact (h.setAdmin t true fun _ => hheld).goWorker_within trivial nofun hon
  · exact (h.setPending _ false nofun).goWorker_within trivial nofun hon
  · exact h.goWorker_within trivial nofun hon
  · exact (h.setAdmin _ false nofun).goWorker_within trivial nofun hon
  · exact (h.setPending _ false nofun).goWorker_within trivial nofun hon

theorem step_inv (e : AuthEvent ι) (hex : s.Exclusive e) : (s.step e).Inv := by
  cases e with
  | sessionReset t | lockNow t transports =>
    simp only [step]
    split
    · exact h.goThread_off trivial nofun rfl
    · exact h
  | handleAuth t =>
    simp only [step]
    split
    · rename_i hfree
      simp only [Bool.and_eq_true, Bool.not_eq_true'] at hfree
      exact h.claimJob hfree.2
    · exact h
  | transport t => exact threadStep_inv h t hex
  | authWork =>
    simp only [step]
    split
    · exact h
    rename_i t hapi
    split
    · rename_i hfree
      rw [Bool.and_eq_true] at hfree
      exact h.takeUpJob hfree.2 hapi
    · exact h
  | reloaded transports | revoked transports =>
    simp only [step]
    split
    · rename_i hidle
      exact h.goWorker_within trivial nofun (by rw [hidle]; rfl)
    · exact h
  | worker o => exact workerStep_inv h o hex

end

theorem start_inv : (start ι).Inv where
  epoch := fun _ => rfl
  shown := nofun
  held := nofun
  thread := fun _ => trivial
  worker := trivial
  queued := nofun
  owner := ⟨nofun, nofun, nofun⟩

end Scene

/-- Over every interleaving in which no reset falls between a look and its grant, a
connection that is authorized has had a passphrase of its own verified. -/
theorem authorized_was_proven {events : List (AuthEvent ι)}
    (hex : Guarded Scene.step Scene.Exclusive (Scene.start ι) events) :
    (run Scene.step (Scene.start ι) events).Proven := by
  have hinv : (run step (start ι) events).Inv :=
    run_keeps Inv start_inv (fun _ e h hok => step_inv h e hok) hex
  exact fun t hset => hinv.shown t (.inl hset)

/-! ## The statements of one call

A call that nothing comes between does to its connection what the operation of the model of
one connection does.
-/

variable {n : Nat} (a : Api n)

theorem conn_sessionReset (hidle : s.thread t = .idle) (hconn : s.conn t = a.conn) :
    ((run step s [.sessionReset t, .transport t, .transport t, .transport t]).conn t) =
      a.sessionReset.conn := by
  simp only [run, foldl_cons, foldl_nil, step, hidle, if_true, threadStep,
    goThread, setAdmin, setPending, bumpEpoch, update_self,
    hconn, Api.conn, Api.sessionReset]

theorem conn_authorize {rest : List ι} (hw : s.worker = .grant t rest)
    (hconn : s.conn t = a.conn) (o o' : Outcome) :
    (run step s [.worker o, .worker o']).conn t = a.authorize.conn := by
  simp only [run, foldl_cons, foldl_nil, step, hw, workerStep,
    goWorker, setAdmin, setPending, update_self, hconn, Api.conn,
    Api.authorize]

theorem conn_revoke {rest : List ι} (hw : s.worker = .revoke (t :: rest))
    (hconn : s.conn t = a.conn) (o o' : Outcome) :
    (run step s [.worker o, .worker o']).conn t = a.revoke.conn := by
  simp only [run, foldl_cons, foldl_nil, step, hw, workerStep,
    goWorker, setAdmin, setPending, update_self, hconn, Api.conn,
    Api.revoke]

end

/-! ## A reset between the look and the grant -/

/-- A passphrase is sent, and the workqueue verifies it and compares the epochs. -/
def comparedJob (o : Outcome) : List (AuthEvent Unit) :=
  [.handleAuth (), .transport (), .transport (), .transport (), .authWork, .worker o, .worker o]

/-- The client goes and the next one connects. -/
def nextClient : List (AuthEvent Unit) :=
  [.sessionReset (), .transport (), .transport (), .transport ()]

theorem authorized_was_proven_compared :
    let events := comparedJob .ready ++ [.worker .ready]
    ((run Scene.step (Scene.start Unit) events).conn ()).adminAuthorized = true ∧
      (run Scene.step (Scene.start Unit) events).Proven := by
  refine ⟨by decide, authorized_was_proven ?_⟩
  simp only [comparedJob, cons_append, nil_append, guarded_cons]
  refine ⟨trivial, nofun, nofun, nofun, trivial, trivial, ⟨rfl, ?_⟩, trivial, guarded_nil⟩
  intro k hk
  cases hk
  decide

/-- The next client is authorized with the passphrase of the one before, whether the reset
comes after the comparison of the epochs or after the look at `pending_unlock`. -/
theorem next_client_authorized :
    ¬ (run Scene.step (Scene.start Unit)
      (comparedJob .ready ++ nextClient ++ [.worker .ready])).Proven ∧
    ¬ (run Scene.step (Scene.start Unit)
      (comparedJob .awaitsReload ++ [.worker .ready, .worker .ready, .worker .ready,
        .reloaded [()], .worker .ready] ++ nextClient ++ [.worker .ready])).Proven := by
  constructor
  · intro hproven
    exact absurd (hproven () rfl) (by decide)
  · intro hproven
    exact absurd (hproven () rfl) (by decide)

end Zephyrtastic.PhoneApi
