import Mathlib.Data.List.MinMax
import Mathlib.Data.UInt
import Zephyrtastic.Lib.Bytes
import Zephyrtastic.Lib.Run

/-!
# The table of reliable sends

A packet of this node that asks for an acknowledgement is kept with its wire bytes
until it is acknowledged, refused, heard relayed by a neighbour, out of retries or
pushed out by a newer one.
-/

namespace Zephyrtastic.Reliable

open List

def nodeBroadcast : UInt32 := 0xFFFFFFFF

def pktMax : Nat := 255

def broadcastRetries : Nat := 2

def attachAll : UInt8 := 0xFF

def portRouting : UInt32 := 5

/-- `meshtastic_sched_tier_for`: the tier of routing replies is 3, of the periodic beacons 0
and of everything else 1. -/
def tierFor (portnum : UInt32) : UInt8 :=
  if portnum = portRouting then 3
  else if portnum ∈ [3, 4, 67, 36, 71, 37, 258] then 0
  else 1

/-- What is fixed for a node: its number and `PEND_MAX`. -/
structure Config where
  nodeId : UInt32
  pendMax : Nat
  pendMax_pos : 0 < pendMax

/-- What a call reads of the scheduler and the radio: the two knobs of reliable delivery, and
the interval that follows the airtime of the modem when no fixed one is set. -/
structure Timing where
  reliableRetries : UInt8
  reliableTimeoutMs : UInt16
  adaptive : Nat → UInt8 → UInt32

def Timing.retxIntervalMs (c : Timing) (wireLen : Nat) (attach : UInt8) : Nat :=
  if c.reliableTimeoutMs ≠ 0 then c.reliableTimeoutMs.toNat else (c.adaptive wireLen attach).toNat

structure Pending where
  wire : Bytes
  id : UInt32
  dest : UInt32
  nextDue : Nat
  retriesLeft : Nat
  tier : UInt8
  attach : UInt8
  channel : UInt8
  active : Bool
  deriving DecidableEq, Repr

/-- A slot that was never used. -/
def Pending.unused : Pending := ⟨[], 0, 0, 0, 0, 0, 0, 0, false⟩

/-- The packet just sent, as `meshtastic_reliable_on_tx` reads it. -/
structure Sent where
  wire : Bytes
  wantAck : Bool
  source : UInt32
  dest : UInt32
  portnum : UInt32
  id : UInt32
  attach : UInt8
  channel : UInt8
  deriving DecidableEq, Repr

/-- A received routing packet; `error` is what its payload decodes to, `none` when it does not
decode: the error of an `error_reason` variant, and 0 for every other variant. -/
structure Routing where
  source : UInt32
  dest : UInt32
  requestId : UInt32
  error : Option Nat
  deriving DecidableEq, Repr

/-- Where a retransmission goes. -/
inductive Via where
  | ownRadio | head (attach : UInt8) | everyRadio (channel : UInt8)
  deriving DecidableEq, Repr

/-- What became of a tracked send. -/
inductive Outcome where
  | acknowledged (source : UInt32)
  | refused (source : UInt32) (error : Nat)
  | relayed (channel : UInt8)
  | exhausted (dest : UInt32) (primaryChannel : UInt8)
  | evicted
  deriving DecidableEq, Repr

inductive Action where
  | track (id : UInt32) (retries : Nat)
  | retransmit (id : UInt32) (wire : Bytes) (tier : UInt8) (via : Via)
  | resolve (id : UInt32) (outcome : Outcome)
  deriving DecidableEq, Repr

/-- `pend` and the delayed work item, with the time it is set for. -/
structure Table (n : Nat) where
  pend : Fin n → Pending
  timer : Option Nat

namespace Table

variable {n : Nat}
variable (t : Table n)

def init : Table n := ⟨fun _ => .unused, none⟩

def set (i : Fin n) (p : Pending) : Table n :=
  { t with pend := Function.update t.pend i p }

/-- One ascending pass for the least due time among the slots that count; the first of several
is taken. -/
def soonest (ok : Pending → Bool) : Option (Fin n) :=
  ((finRange n).filter fun i => ok (t.pend i)).argmin fun i => (t.pend i).nextDue

/-- `reschedule_locked`: a due time that has passed is served at once. -/
def rescheduleLocked (now : Nat) : Table n :=
  { t with timer := (t.soonest (·.active)).map fun i => max now (t.pend i).nextDue }

def findLocked (id : UInt32) : Option (Fin n) :=
  (finRange n).find? fun i => (t.pend i).active && (t.pend i).id == id

/-- `resolve_locked` of the slot that was found. -/
def release (i : Fin n) : Table n := t.set i { t.pend i with active := false }

/-- The slot a new send takes: the first free one, or the one that is due soonest. -/
def claim : Option (Fin n) :=
  ((finRange n).find? fun i => !(t.pend i).active).or (t.soonest fun _ => true)

end Table

/-- The packets that are tracked. -/
def Config.tracks (cfg : Config) (s : Sent) : Bool :=
  decide (s.wire ≠ [] ∧ s.wire.length ≤ pktMax ∧ s.source = cfg.nodeId ∧ s.dest ≠ cfg.nodeId ∧
    s.portnum ≠ portRouting) && s.wantAck

/-- The number of retransmissions a send to `dest` gets. -/
def Timing.retriesTo (c : Timing) (dest : UInt32) : Nat :=
  if dest = nodeBroadcast then min c.reliableRetries.toNat broadcastRetries
  else c.reliableRetries.toNat

/-- The slot of a new send. -/
def Sent.pending (s : Sent) (c : Timing) (now : Nat) : Pending where
  wire := s.wire
  id := s.id
  dest := s.dest
  nextDue := now + c.retxIntervalMs s.wire.length s.attach
  retriesLeft := c.retriesTo s.dest
  tier := tierFor s.portnum
  attach := s.attach
  channel := s.channel
  active := true

section Calls
variable (cfg : Config)
variable (p : Pending) (t : Table cfg.pendMax)

def onTx (now : Nat) (c : Timing) (s : Sent) : Table cfg.pendMax × List Action :=
  if !cfg.tracks s then (t, [])
  else if c.reliableRetries = 0 then (t, [])
  else if (t.findLocked s.id).isSome then (t, [])
  else
    match t.claim with
    | none => (t, [])
    | some i =>
      let evicted :=
        if (t.pend i).active then [Action.resolve (t.pend i).id .evicted] else []
      ((t.set i (s.pending c now)).rescheduleLocked now,
        evicted ++ [.track s.id (c.retriesTo s.dest)])

def onRouting (now : Nat) (r : Routing) : Table cfg.pendMax × List Action :=
  if r.dest ≠ cfg.nodeId ∨ r.requestId = 0 then (t, [])
  else
    match r.error, t.findLocked r.requestId with
    | some error, some i =>
      ((t.release i).rescheduleLocked now,
        [.resolve r.requestId
          (if error ≠ 0 then .refused r.source error else .acknowledged r.source)])
    | _, _ => (t, [])

def onImplicitAck (now : Nat) (id : UInt32) : Table cfg.pendMax × List Action :=
  match t.findLocked id with
  | some i => ((t.release i).rescheduleLocked now, [.resolve id (.relayed (t.pend i).channel)])
  | none => (t, [])

/-- The slot is served by a pass at `now`. -/
def Pending.due (now : Nat) : Bool := p.active && decide (p.nextDue ≤ now)

/-- What one round of the loop of `retx_work_fn` leaves in a slot. -/
def Pending.served (now : Nat) (c : Timing) : Pending :=
  if !p.due now then p
  else if p.retriesLeft = 0 then { p with active := false }
  else
    { p with
      retriesLeft := p.retriesLeft - 1
      nextDue := now + c.retxIntervalMs p.wire.length p.attach }

def Pending.via : Via :=
  if p.attach = attachAll then .everyRadio p.channel
  else if p.attach ≠ 0 then .head p.attach
  else .ownRadio

/-- The frame one round of the loop sends. -/
def Pending.resent (now : Nat) : Option Action :=
  if p.due now && p.retriesLeft != 0 then some (.retransmit p.id p.wire p.tier p.via) else none

/-- The entry one round of the loop adds to `failed`, as `notify_failure` reports it. -/
def Pending.failed (now : Nat) (primaryChannel : UInt8) : Option Action :=
  if p.due now && p.retriesLeft == 0 then
    some (.resolve p.id (.exhausted p.dest primaryChannel))
  else none

/-- `retx_work_fn`: the frames go out slot by slot, and the failures are reported after the
table has been unlocked. -/
def retxWorkFn (now : Nat) (c : Timing) (primaryChannel : UInt8) :
    Table cfg.pendMax × List Action :=
  (Table.rescheduleLocked { t with pend := fun i => (t.pend i).served now c } now,
    (finRange cfg.pendMax).filterMap (fun i => (t.pend i).resent now) ++
      (finRange cfg.pendMax).filterMap fun i => (t.pend i).failed now primaryChannel)

/-- The calls that reach the table, with the time of each. -/
inductive Event where
  | sent (now : Nat) (c : Timing) (s : Sent)
  | routing (now : Nat) (r : Routing)
  | implicitAck (now : Nat) (id : UInt32)
  | expired (now : Nat) (c : Timing) (primaryChannel : UInt8)

def Event.now : Event → Nat
  | .sent now .. | .routing now _ | .implicitAck now _ | .expired now .. => now

def call : Event → Table cfg.pendMax × List Action
  | .sent now c s => onTx cfg t now c s
  | .routing now r => onRouting cfg t now r
  | .implicitAck now id => onImplicitAck cfg t now id
  | .expired now c primaryChannel => retxWorkFn cfg t now c primaryChannel

/-- The table, the time of the last call and everything the calls have done. -/
structure Sys where
  table : Table cfg.pendMax
  clock : Nat
  log : List Action

def Sys.init : Sys cfg := ⟨.init, 0, []⟩

def Sys.step (s : Sys cfg) (e : Event) : Sys cfg :=
  ⟨(call cfg s.table e).1, e.now, s.log ++ (call cfg s.table e).2⟩

/-- Time does not run backwards. -/
def Sys.InOrder (s : Sys cfg) (e : Event) : Prop := s.clock ≤ e.now

end Calls

namespace Table

variable {n : Nat} {t : Table n} {id : UInt32} {i j : Fin n}

/-- The slot is the one that tracks the packet. -/
def Tracks (t : Table n) (id : UInt32) (i : Fin n) : Prop :=
  (t.pend i).active = true ∧ (t.pend i).id = id

theorem findLocked_some (h : t.findLocked id = some i) : t.Tracks id i := by
  have hp := find?_some h
  simp only [Bool.and_eq_true, beq_iff_eq] at hp
  exact hp

theorem findLocked_none (h : t.findLocked id = none) : ∀ i, ¬ t.Tracks id i := by
  intro i hi
  have hn := find?_eq_none.mp h i (mem_finRange i)
  simp [hi.1, hi.2] at hn

@[simp] theorem set_self (p : Pending) : (t.set i p).pend i = p := Function.update_self ..

theorem set_other (p : Pending) (h : j ≠ i) : (t.set i p).pend j = t.pend j :=
  Function.update_of_ne h ..

theorem soonest_some {ok : Pending → Bool} (h : t.soonest ok = some i) :
    ok (t.pend i) = true ∧
      ∀ j, ok (t.pend j) = true → (t.pend i).nextDue ≤ (t.pend j).nextDue := by
  obtain ⟨hi, hmin, -⟩ := argmin_eq_some_iff.mp h
  refine ⟨(mem_filter.mp hi).2, fun j hj => ?_⟩
  exact hmin j (mem_filter.mpr ⟨mem_finRange j, hj⟩)

theorem soonest_none {ok : Pending → Bool} (h : t.soonest ok = none) (j : Fin n) :
    ok (t.pend j) = false := by
  have hnil := argmin_eq_none.mp h
  have hj := filter_eq_nil_iff.mp hnil j (mem_finRange j)
  exact Bool.eq_false_iff.mpr hj

/-- The timer is set for no later than any active slot, or for the moment it is set. -/
theorem rescheduleLocked_armed (now : Nat) (hi : (t.pend i).active = true) :
    ∃ due, (t.rescheduleLocked now).timer = some due ∧ due ≤ max now (t.pend i).nextDue := by
  cases hk : t.soonest (·.active) with
  | none => exact absurd hi (Bool.eq_false_iff.mp (soonest_none hk i))
  | some k =>
    refine ⟨max now (t.pend k).nextDue, by rw [rescheduleLocked, hk]; rfl, ?_⟩
    have hle := (soonest_some hk).2 i hi
    omega

theorem rescheduleLocked_timer {now due : Nat}
    (h : (t.rescheduleLocked now).timer = some due) :
    ∃ i, (t.pend i).active = true ∧ (t.pend i).nextDue ≤ due := by
  obtain ⟨k, hk, rfl⟩ := Option.map_eq_some_iff.mp h
  exact ⟨k, (soonest_some hk).1, Nat.le_max_right ..⟩

end Table

end Zephyrtastic.Reliable
