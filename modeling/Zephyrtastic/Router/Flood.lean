import Mathlib.Algebra.BigOperators.Fin
import Mathlib.Algebra.Order.BigOperators.Group.Finset
import Zephyrtastic.Lib.Run
import Zephyrtastic.Router.Budget

/-!
# Floods

A network of nodes that run the router. A node originates packets or puts a
broker's on the air, any earlier transmission may reach any node any number of
times and in any order, and a node relays what the router tells it to.
-/

namespace Zephyrtastic.Router

open Function List Run

/-- What the sender of a packet asks for; a hop count of zero is left to the node. -/
structure Request where
  dest : UInt32
  src : UInt32
  id : UInt32
  hopLimit : UInt8
  hopStart : UInt8
  /-- A literal zero-hop frame: the hop counts stay as they are. -/
  zeroHop : Bool
  wantAck : Bool
  viaMqtt : Bool
  channel : UInt8
  nextHop : UInt8
  relayNode : UInt8
  payload : Bytes
  deriving DecidableEq, Repr

/-- The hop counts that `mt_ws_build_wire_locked` and `meshtastic_send_mesh_pb` send a packet
with, for a node's own hop limit. -/
def Request.hops (req : Request) (hopLimit : UInt8) : UInt8 × UInt8 :=
  let limit := if req.hopLimit = 0 ∧ !req.zeroHop then hopLimit else req.hopLimit
  (limit, if req.hopStart = 0 ∧ !req.zeroHop then limit else req.hopStart)

/-- The frame of an originated packet; `learned` is the route to the destination. -/
def Request.wire (req : Request) (cfg : Config) (hopLimit learned : UInt8) : Wire :=
  let src := if req.src = 0 then cfg.nodeId else req.src
  let stamp := stampOriginated cfg req.dest src learned req.nextHop req.relayNode
  { dest := req.dest
    src := src
    id := req.id
    hopLimit := hopBits (req.hops hopLimit).1
    wantAck := req.wantAck
    viaMqtt := req.viaMqtt
    hopStart := hopBits (req.hops hopLimit).2
    channel := req.channel
    nextHop := stamp.1
    relayNode := stamp.2
    payload := req.payload }

theorem Request.wire_straight {req : Request} (h : req.hopStart = 0) (cfg : Config)
    (hopLimit learned : UInt8) : (req.wire cfg hopLimit learned).straight := by
  unfold Wire.straight Request.wire Request.hops
  cases hz : req.zeroHop with
  | false => simp [h]
  | true => simp [h, hopBits]

inductive Origin where
  | relay
  /-- The sender's own packet, as it was asked for. -/
  | own (req : Request)
  /-- A message of the broker. -/
  | downlink
  deriving DecidableEq

/-- A transmission. -/
structure Copy (ι : Type) where
  sender : ι
  wire : Wire
  origin : Origin
  deriving DecidableEq

/-- A relay that a node has queued, and the copy it was made from. -/
structure Relay (ι : Type) where
  /-- Unless the copy came from outside the network. -/
  copy : Option (Copy ι)
  heard : Wire
  wire : Wire
  deriving DecidableEq

/-- The nodes, and what is in the air between them. -/
structure Net {ι : Type} (cfg : ι → Config) where
  node : (n : ι) → State (cfg n)
  /-- The relays that wait for the air. -/
  waiting : ι → List Wire
  /-- Every relay a node has ever queued. -/
  queued : ι → List (Relay ι)
  aired : List (Copy ι)

inductive NetEvent (ι : Type) where
  /-- A packet of a node's own, under the node's hop limit and routes as they are. -/
  | originate (n : ι) (hopLimit learned : UInt8) (req : Request)
  /-- A message reaches a node from the broker. -/
  | inject (n : ι) (inj : Injection)
  /-- An earlier transmission reaches a node. -/
  | hear (n : ι) (i : Nat) (rx : Rx)
  /-- A frame from outside the network reaches a node. -/
  | noise (n : ι) (rx : Rx)
  /-- A relay goes on the air. -/
  | transmit (n : ι) (i : Nat)
  /-- A relay is cancelled, evicted or refused by the radio. -/
  | withdraw (n : ι) (i : Nat)

/-- A reception of another frame. -/
def Rx.carrying (rx : Rx) (w : Wire) : Rx := { rx with wire := some w }

namespace Net

variable {ι : Type} [DecidableEq ι] {cfg : ι → Config}
variable (net : Net cfg) (n : ι)

/-- The other frames that a node sends. -/
def transmitsOf (acts : List Action) : List Wire :=
  acts.filterMap fun
    | .transmit w => some w
    | _ => none

def air (copies : List (Copy ι)) : Net cfg :=
  { net with aired := net.aired ++ copies }

/-- The relays of a frame join the queue of a node. -/
def enqueue (copy : Option (Copy ι)) (heard : Wire) (ws : List Wire) : Net cfg :=
  { net with
    waiting := update net.waiting n (net.waiting n ++ ws)
    queued := update net.queued n (net.queued n ++ ws.map fun w => ⟨copy, heard, w⟩) }

def withNode (s : State (cfg n)) : Net cfg :=
  { net with node := update net.node n s }

/-- A relay leaves the queue of a node. -/
def dequeue (i : Nat) : Net cfg :=
  { net with waiting := update net.waiting n ((net.waiting n).eraseIdx i) }

section

@[simp] theorem withNode_self (s : State (cfg n)) : (net.withNode n s).node n = s :=
  update_self ..

theorem withNode_ne {m : ι} (h : m ≠ n) (s : State (cfg n)) :
    (net.withNode n s).node m = net.node m :=
  update_of_ne h ..

@[simp] theorem dequeue_waiting (i : Nat) :
    (net.dequeue n i).waiting n = (net.waiting n).eraseIdx i :=
  update_self ..

theorem dequeue_ne {m : ι} (h : m ≠ n) (i : Nat) : (net.dequeue n i).waiting m = net.waiting m :=
  update_of_ne h ..

variable (copy : Option (Copy ι)) (heard : Wire) (ws : List Wire)

@[simp] theorem enqueue_queued :
    (net.enqueue n copy heard ws).queued n =
      net.queued n ++ ws.map fun w => ⟨copy, heard, w⟩ :=
  update_self ..

@[simp] theorem enqueue_waiting : (net.enqueue n copy heard ws).waiting n = net.waiting n ++ ws :=
  update_self ..

theorem enqueue_ne {m : ι} (h : m ≠ n) :
    (net.enqueue n copy heard ws).queued m = net.queued m ∧
      (net.enqueue n copy heard ws).waiting m = net.waiting m :=
  ⟨update_of_ne h .., update_of_ne h ..⟩

end

/-- A node handles a frame. -/
def receive (copy : Option (Copy ι)) (w : Wire) (rx : Rx) : Net cfg :=
  let out := processRx (cfg n) (net.node n) (rx.carrying w)
  (net.withNode n out.1).enqueue n copy w (relaysOf out.2)

def step : NetEvent ι → Net cfg
  | .originate n hopLimit learned req =>
    net.air [⟨n, req.wire (cfg n) hopLimit learned, .own req⟩]
  | .inject n inj =>
    let out := (injectDownlink (cfg n) (net.node n) inj).2
    (net.withNode n out.1).air ((transmitsOf out.2).map fun w => ⟨n, w, .downlink⟩)
  | .hear n i rx => match net.aired[i]? with
    | some copy => net.receive n (some copy) copy.wire rx
    | none => net
  | .noise n rx => match rx.wire with
    | some w => net.receive n none w rx
    | none => net
  | .transmit n i => match (net.waiting n)[i]? with
    | some w => (net.dequeue n i).air [⟨n, w, .relay⟩]
    | none => net
  | .withdraw n i => net.dequeue n i

def init (cfg : ι → Config) : Net cfg where
  node n := State.init (cfg n)
  waiting _ := []
  queued _ := []
  aired := []

/-! ### The network -/

section
variable {net : Net cfg} {k : Key}

/-- The event does not make the node it is about lose its entry of the packet. -/
def kept (k : Key) (net : Net cfg) : NetEvent ι → Prop
  | .inject n inj =>
    Keeps (cfg n) k (net.node n) (inj.Enters (cfg n) (net.node n)) inj.mesh.key inj.now
  | .hear n i rx => ∀ copy, net.aired[i]? = some copy →
    Keeps (cfg n) k (net.node n) (Enters (cfg n) (net.node n) (rx.carrying copy.wire) copy.wire)
      copy.wire.key rx.now
  | .noise n rx => ∀ w, rx.wire = some w →
    Keeps (cfg n) k (net.node n) (Enters (cfg n) (net.node n) (rx.carrying w) w) w.key rx.now
  | .originate _ _ _ _ | .transmit _ _ | .withdraw _ _ => True

/-- What an event that keeps the entry of a packet does to the network. -/
inductive Move (k : Key) (net : Net cfg) : Net cfg → Prop
  | idle : Move k net net
  | originated (n : ι) (hopLimit learned : UInt8) (req : Request) :
      Move k net (net.air [⟨n, req.wire (cfg n) hopLimit learned, .own req⟩])
  | injected {n : ι} {s : State (cfg n)} (ws : List Wire)
      (paid : ∀ c, Paid ((net.node n).cache.budget k) c → Paid (s.cache.budget k) c) :
      Move k net ((net.withNode n s).air (ws.map fun w => ⟨n, w, .downlink⟩))
  | received {n : ι} {s : State (cfg n)} {copy : Option (Copy ι)} {heard : Wire} {a : Answers}
      {ws : List Wire} (copied : ∀ c, copy = some c → c.wire = heard ∧ c ∈ net.aired)
      (relays : ws = [] ∨ ws = [relayed (cfg n) a heard] ∧ heard.hopLimit ≠ 0 ∧
        heard.src ≠ (cfg n).nodeId)
      (paid : ∀ c, Paid ((net.node n).cache.budget k) c →
        Paid (s.cache.budget k) (c + countKey k ws)) :
      Move k net ((net.withNode n s).enqueue n copy heard ws)
  | transmitted {n : ι} {i : Nat} {w : Wire} (waits : (net.waiting n)[i]? = some w) :
      Move k net ((net.dequeue n i).air [⟨n, w, .relay⟩])
  | withdrawn (n : ι) (i : Nat) : Move k net (net.dequeue n i)

theorem receive_move {n : ι} {copy : Option (Copy ι)} {w : Wire} {rx : Rx}
    (copied : ∀ c, copy = some c → c.wire = w ∧ c ∈ net.aired)
    (hk : Keeps (cfg n) k (net.node n) (Enters (cfg n) (net.node n) (rx.carrying w) w) w.key
      rx.now) : Move k net (net.receive n copy w rx) := by
  have h := processRx_received (cfg n) (net.node n) (rx.carrying w)
  exact .received copied (relaysOf_received h rfl) fun c hp => paid_step h rfl hk hp

theorem step_move {e : NetEvent ι} (hk : kept k net e) : Move k net (net.step e) := by
  cases e with
  | originate n hopLimit learned req => exact .originated n hopLimit learned req
  | inject n inj => exact .injected _ fun c hp => paid_inject hk hp
  | hear n i rx =>
    rw [step]
    split
    · rename_i copy hi
      refine receive_move (fun c hc => ?_) (hk copy hi)
      obtain rfl := Option.some.inj hc
      exact ⟨rfl, mem_of_getElem? hi⟩
    · exact .idle
  | noise n rx =>
    rw [step]
    split
    · rename_i w hw
      exact receive_move nofun (hk w hw)
    · exact .idle
  | transmit n i =>
    rw [step]
    split
    · rename_i w hi
      exact .transmitted hi
    · exact .idle
  | withdraw n i => exact .withdrawn n i

/-- What is known of the relays and of the transmissions, whatever the caches do. -/
structure Sound (net : Net cfg) : Prop where
  notOwn : ∀ n, ∀ r ∈ net.queued n, r.wire.src ≠ (cfg n).nodeId
  hops : ∀ n, ∀ r ∈ net.queued n, r.wire.hopLimit ≤ r.heard.hopLimit ∧
    (r.heard.straight → r.wire.hopLimit < r.heard.hopLimit)
  copies : ∀ n, ∀ r ∈ net.queued n, ∀ c, r.copy = some c → c.wire = r.heard ∧ c ∈ net.aired
  straight : ∀ c ∈ net.aired, ∀ req, c.origin = .own req → req.hopStart = 0 → c.wire.straight

omit [DecidableEq ι] in
theorem Sound.air (h : Sound net) {copies : List (Copy ι)}
    (hc : ∀ c ∈ copies, ∀ req, c.origin = .own req → req.hopStart = 0 → c.wire.straight) :
    Sound (net.air copies) where
  notOwn := h.notOwn
  hops := h.hops
  copies n r hr c hcopy :=
    ⟨(h.copies n r hr c hcopy).1, mem_append_left _ (h.copies n r hr c hcopy).2⟩
  straight c hmem := (mem_append.mp hmem).elim (h.straight c) (hc c)

theorem Sound.withNode (h : Sound net) (n : ι) (s : State (cfg n)) : Sound (net.withNode n s) :=
  { h with }

theorem Sound.dequeue (h : Sound net) (n : ι) (i : Nat) : Sound (net.dequeue n i) :=
  { h with }

variable {copy : Option (Copy ι)} {heard : Wire} {ws : List Wire}

theorem mem_enqueue {m n : ι} {r : Relay ι} (h : r ∈ (net.enqueue n copy heard ws).queued m) :
    r ∈ net.queued m ∨ m = n ∧ ∃ w ∈ ws, r = ⟨copy, heard, w⟩ := by
  by_cases hm : m = n
  · subst hm
    rw [enqueue_queued, mem_append, mem_map] at h
    refine h.imp_right ?_
    rintro ⟨w, hw, rfl⟩
    exact ⟨rfl, w, hw, rfl⟩
  · rw [(enqueue_ne net n copy heard ws hm).1] at h
    exact .inl h

theorem Sound.enqueue (h : Sound net) {n : ι} {a : Answers}
    (copied : ∀ c, copy = some c → c.wire = heard ∧ c ∈ net.aired)
    (relays : ws = [] ∨ ws = [relayed (cfg n) a heard] ∧ heard.hopLimit ≠ 0 ∧
      heard.src ≠ (cfg n).nodeId) : Sound (net.enqueue n copy heard ws) := by
  have hall (m : ι) (r : Relay ι) (hr : r ∈ (net.enqueue n copy heard ws).queued m) :
      r.wire.src ≠ (cfg m).nodeId ∧ (r.wire.hopLimit ≤ r.heard.hopLimit ∧
        (r.heard.straight → r.wire.hopLimit < r.heard.hopLimit)) ∧
      ∀ c, r.copy = some c → c.wire = r.heard ∧ c ∈ net.aired := by
    rcases mem_enqueue hr with hold | ⟨rfl, w, hw, rfl⟩
    · exact ⟨h.notOwn m r hold, h.hops m r hold, h.copies m r hold⟩
    rcases relays with rfl | ⟨rfl, hpos, hown⟩
    · exact absurd hw not_mem_nil
    · obtain rfl := mem_singleton.mp hw
      exact ⟨hown, relayed_hops (cfg m) a hpos, copied⟩
  exact ⟨fun m r hr => (hall m r hr).1, fun m r hr => (hall m r hr).2.1,
    fun m r hr => (hall m r hr).2.2, h.straight⟩

theorem Move.sound {net' : Net cfg} (h : Move k net net') (hs : Sound net) : Sound net' := by
  cases h with
  | idle => exact hs
  | originated n hopLimit learned req =>
    refine hs.air fun c hc req' horigin hstart => ?_
    obtain rfl := mem_singleton.mp hc
    obtain rfl := Origin.own.inj horigin
    exact Request.wire_straight hstart ..
  | injected ws paid =>
    refine (hs.withNode _ _).air fun c hc req horigin => ?_
    obtain ⟨w, -, rfl⟩ := mem_map.mp hc
    exact Origin.noConfusion horigin
  | received copied relays paid => exact (hs.withNode _ _).enqueue copied relays
  | transmitted waits =>
    refine (hs.dequeue _ _).air fun c hc req horigin => ?_
    obtain rfl := mem_singleton.mp hc
    exact Origin.noConfusion horigin
  | withdrawn n i => exact hs.dequeue n i

/-! ### Counting -/

/-- The relays of a packet that a node has queued. -/
def queuedOf (net : Net cfg) (k : Key) (n : ι) : Nat :=
  (net.queued n).countP fun r => r.wire.key = k

/-- The relays of a packet that a node has put on the air. -/
def airedBy (net : Net cfg) (k : Key) (n : ι) : Nat :=
  net.aired.countP fun c => c.sender = n ∧ c.wire.key = k ∧ c.origin = .relay

/-- The account of one packet at one node: what it has queued is paid for, and what it has put
on the air or still holds has been queued. -/
structure Account (k : Key) (net : Net cfg) (n : ι) : Prop where
  paid : Paid ((net.node n).cache.budget k) (net.queuedOf k n)
  relayed : net.airedBy k n + countKey k (net.waiting n) ≤ net.queuedOf k n

theorem airedBy_air (net : Net cfg) (copies : List (Copy ι)) (k : Key) (n : ι) :
    (net.air copies).airedBy k n = net.airedBy k n +
      copies.countP fun c => c.sender = n ∧ c.wire.key = k ∧ c.origin = .relay :=
  countP_append ..

theorem queuedOf_enqueue (n : ι) :
    (net.enqueue n copy heard ws).queuedOf k n = net.queuedOf k n + countKey k ws := by
  rw [queuedOf, enqueue_queued, countP_append, countP_map]
  rfl

theorem Account.air {n : ι} (h : Account k net n) {copies : List (Copy ι)}
    (hc : ∀ c ∈ copies, c.origin ≠ .relay) : Account k (net.air copies) n := by
  refine ⟨h.paid, ?_⟩
  have hzero : (copies.countP fun c => c.sender = n ∧ c.wire.key = k ∧ c.origin = .relay) = 0 := by
    refine countP_eq_zero.mpr fun c hmem => ?_
    rw [decide_eq_true_eq]
    exact fun hr => hc c hmem hr.2.2
  rw [airedBy_air, hzero]
  exact h.relayed

theorem Account.withNode {m n : ι} (h : Account k net m) {s : State (cfg n)}
    (paid : m = n → Paid (s.cache.budget k) (net.queuedOf k n)) :
    Account k (net.withNode n s) m := by
  refine ⟨?_, h.relayed⟩
  by_cases hm : m = n
  · subst hm
    rw [withNode_self]
    exact paid rfl
  · rw [withNode_ne net n hm]
    exact h.paid

theorem Account.received {m n : ι} (h : Account k net m) {s : State (cfg n)}
    (paid : m = n → Paid (s.cache.budget k) (net.queuedOf k n + countKey k ws)) :
    Account k ((net.withNode n s).enqueue n copy heard ws) m := by
  by_cases hm : m = n
  · subst hm
    constructor
    · rw [queuedOf_enqueue]
      change Paid (((net.withNode m s).node m).cache.budget k) _
      rw [withNode_self]
      exact paid rfl
    · rw [queuedOf_enqueue, enqueue_waiting, countKey, countP_append, ← Nat.add_assoc]
      exact Nat.add_le_add_right h.relayed _
  · obtain ⟨hqueued, hwaiting⟩ := enqueue_ne (net.withNode n s) n copy heard ws hm
    constructor
    · rw [queuedOf, hqueued]
      change Paid (((net.withNode n s).node m).cache.budget k) _
      rw [withNode_ne net n hm]
      exact h.paid
    · rw [queuedOf, hqueued, hwaiting]
      exact h.relayed

theorem countKey_eraseIdx {ws : List Wire} {i : Nat} {w : Wire} (h : ws[i]? = some w) :
    countKey k ws = (if w.key = k then 1 else 0) + countKey k (ws.eraseIdx i) := by
  obtain ⟨hi, rfl⟩ := List.getElem?_eq_some_iff.mp h
  rw [countKey, ← (getElem_cons_eraseIdx_perm hi).countP_eq, countP_cons, Nat.add_comm]
  simp only [decide_eq_true_eq]
  rfl

theorem Account.dequeue {m : ι} (h : Account k net m) (n : ι) (i : Nat) :
    Account k (net.dequeue n i) m := by
  refine ⟨h.paid, le_trans (Nat.add_le_add_left ?_ _) h.relayed⟩
  by_cases hm : m = n
  · subst hm
    rw [dequeue_waiting]
    exact (eraseIdx_sublist _ i).countP_le
  · rw [dequeue_ne net n hm]

theorem Account.transmitted {m n : ι} (h : Account k net m) {i : Nat} {w : Wire}
    (waits : (net.waiting n)[i]? = some w) :
    Account k ((net.dequeue n i).air [⟨n, w, .relay⟩]) m := by
  by_cases hm : m = n
  · subst hm
    refine ⟨h.paid, ?_⟩
    have hone : ([⟨m, w, .relay⟩] : List (Copy ι)).countP
        (fun c => c.sender = m ∧ c.wire.key = k ∧ c.origin = .relay) =
          if w.key = k then 1 else 0 := by
      simp [countP_cons]
    have hold := h.relayed
    rw [countKey_eraseIdx waits, ← Nat.add_assoc] at hold
    rw [airedBy_air, hone]
    change _ + countKey k ((net.dequeue m i).waiting m) ≤ _
    rw [dequeue_waiting]
    exact hold
  · refine ⟨h.paid, ?_⟩
    have hzero : ([⟨n, w, .relay⟩] : List (Copy ι)).countP
        (fun c => c.sender = m ∧ c.wire.key = k ∧ c.origin = .relay) = 0 := by
      simp [Ne.symm hm]
    rw [airedBy_air, hzero]
    exact (h.dequeue n i).relayed

theorem Move.account {net' : Net cfg} (h : Move k net net') {m : ι} (ha : Account k net m) :
    Account k net' m := by
  cases h with
  | idle => exact ha
  | originated n hopLimit learned req =>
    refine ha.air fun c hc => ?_
    rw [mem_singleton.mp hc]
    exact Origin.noConfusion
  | injected ws paid =>
    refine (ha.withNode ?_).air fun c hc => ?_
    · rintro rfl
      exact paid _ ha.paid
    · obtain ⟨w, -, rfl⟩ := mem_map.mp hc
      exact Origin.noConfusion
  | received copied relays paid =>
    refine ha.received ?_
    rintro rfl
    exact paid _ ha.paid
  | transmitted waits => exact ha.transmitted waits
  | withdrawn n i => exact ha.dequeue n i

theorem init_account (k : Key) (n : ι) : Account k (init cfg) n := by
  refine ⟨?_, Nat.le_refl 0⟩
  cases hb : ((init cfg).node n).cache.budget k with
  | none => exact rfl
  | some hops => exact Nat.zero_le _

theorem countP_by_sender [Fintype ι] (copies : List (Copy ι)) (p : Copy ι → Prop)
    [DecidablePred p] :
    copies.countP (fun c => p c) = ∑ n, copies.countP fun c => c.sender = n ∧ p c := by
  induction copies with
  | nil => simp
  | cons c copies ih =>
    simp only [countP_cons, Finset.sum_add_distrib, ih]
    by_cases hp : p c <;> simp [hp]

omit [DecidableEq ι] in
theorem countP_aired (copies : List (Copy ι)) (k : Key) :
    (copies.countP fun c => c.wire.key = k) =
      (copies.countP fun c => c.wire.key = k ∧ c.origin = .relay) +
        copies.countP fun c => c.wire.key = k ∧ c.origin ≠ .relay := by
  rw [countP_eq_countP_filter_add copies _ fun c => c.origin = .relay, countP_filter, countP_filter]
  simp

/-- Floods terminate: as long as no cache loses the entry of a packet, a node queues at most
eight relays of it, none of a packet of its own, none with more hops left than the copy it
relays, and with less if that copy came straight from an originator that did not ask for a hop
start above the hop limit. -/
theorem floods_terminate [Fintype ι] (cfg : ι → Config) (k : Key) (es : List (NetEvent ι))
    (hg : Guarded step (kept k) (init cfg) es) :
    let net := run step (init cfg) es
    (∀ n, (net.queued n).countP (fun r => r.wire.key = k) ≤ 8) ∧
      (∀ n, ∀ r ∈ net.queued n, r.wire.src ≠ (cfg n).nodeId) ∧
      (∀ n, ∀ r ∈ net.queued n, r.wire.hopLimit ≤ r.heard.hopLimit ∧
        ∀ c req, r.copy = some c → c.origin = .own req →
          req.hopStart = 0 ∨ c.wire.hopStart ≤ c.wire.hopLimit →
          r.wire.hopLimit < r.heard.hopLimit) ∧
      (net.aired.countP fun c => c.wire.key = k) ≤ 8 * Fintype.card ι +
        net.aired.countP fun c => c.wire.key = k ∧ c.origin ≠ .relay := by
  intro net
  have hinit : Sound (init cfg) :=
    ⟨fun _ _ => nofun, fun _ _ => nofun, fun _ _ => nofun, fun _ => nofun⟩
  obtain ⟨hsound, haccount⟩ : Sound net ∧ ∀ n, Account k net n :=
    run_keeps (fun net => Sound net ∧ ∀ n, Account k net n) ⟨hinit, init_account k⟩
      (fun _ _ hi hk => ⟨(step_move hk).sound hi.1, fun n => (step_move hk).account (hi.2 n)⟩) hg
  have hqueued (n : ι) : net.queuedOf k n ≤ 8 := le_trans (haccount n).paid.le (by decide)
  have haired (n : ι) : net.airedBy k n ≤ 8 :=
    le_trans (le_trans (Nat.le_add_right _ _) (haccount n).relayed) (hqueued n)
  refine ⟨hqueued, hsound.notOwn, fun n r hr => ⟨(hsound.hops n r hr).1, ?_⟩, ?_⟩
  · intro c req hc horigin hstart
    obtain ⟨hwire, hmem⟩ := hsound.copies n r hr c hc
    refine (hsound.hops n r hr).2 (hwire ▸ ?_)
    exact hstart.elim (hsound.straight c hmem req horigin) id
  · rw [countP_aired]
    refine Nat.add_le_add_right ?_ _
    calc (net.aired.countP fun c => c.wire.key = k ∧ c.origin = .relay)
        = ∑ n, net.airedBy k n := countP_by_sender _ _
      _ ≤ ∑ _ : ι, 8 := Finset.sum_le_sum fun n _ => haired n
      _ = 8 * Fintype.card ι := by rw [Finset.sum_const, Finset.card_univ, smul_eq_mul, mul_comm]

end

/-- A node beside a router. -/
def pair (n : Fin 2) : Config :=
  if n.val = 0 then { gatewayNode with nodeId := 0x22 } else gatewayNode

/-- A unicast of node 0x22 to a third node, with three hops to go and a hop start. -/
def unicast (hopStart : UInt8) : Request :=
  ⟨0x33, 0, 7, 3, hopStart, false, false, false, 8, 0, 0, [1]⟩

/-- A router hears a frame from a favourite router. -/
def heardByRouter : Rx :=
  .heard .lora none 1000 { plainAnswers with
    role := .router, resolveUniqueLastByte := 0x22, relayer := some ⟨true, true, .router⟩ }

/-- The router hears the unicast twice, relays it, and the node hears the relay. -/
def relayedUnicast (hopStart : UInt8) : List (NetEvent (Fin 2)) :=
  [.originate 0 3 0 (unicast hopStart), .hear 1 0 heardByRouter, .hear 1 0 heardByRouter,
    .transmit 1 0, .hear 0 1 heardByRouter]

theorem kept_hear {ι : Type} [DecidableEq ι] {cfg : ι → Config} {net : Net cfg} {k : Key} {n : ι}
    {i : Nat} {rx : Rx} {copy : Copy ι} (hi : net.aired[i]? = some copy)
    (hk : Keeps (cfg n) k (net.node n)
      (Enters (cfg n) (net.node n) (rx.carrying copy.wire) copy.wire) copy.wire.key rx.now) :
    kept k net (.hear n i rx) := by
  intro copy' hi'
  obtain rfl := Option.mem_unique hi hi'
  exact hk

theorem relayedUnicast_kept {hopStart : UInt8} (h : hopStart = 0 ∨ hopStart = 5) :
    Guarded step (kept ⟨0x22, 7⟩) (init pair) (relayedUnicast hopStart) := by
  rcases h with rfl | rfl
  all_goals
    refine guarded_cons.mpr ⟨trivial, guarded_cons.mpr ⟨kept_hear rfl ?_,
      guarded_cons.mpr ⟨kept_hear rfl ?_, guarded_cons.mpr ⟨trivial,
      guarded_cons.mpr ⟨kept_hear rfl ?_, guarded_nil⟩⟩⟩⟩⟩ <;> decide +kernel

/-- A unicast whose hop start is left to the node: heard twice, relayed once. -/
theorem floods_terminate_pair :
    Guarded step (kept ⟨0x22, 7⟩) (init pair) (relayedUnicast 0) ∧
      ((run step (init pair) (relayedUnicast 0)).aired.countP
        fun c => c.wire.key = ⟨0x22, 7⟩) ≤ 8 * 2 + 1 := by
  have hg := relayedUnicast_kept (.inl rfl)
  have h := (floods_terminate pair ⟨0x22, 7⟩ _ hg).2.2.2
  exact ⟨hg, le_trans h (by decide +kernel)⟩

/-- A unicast sent with a hop start above its hop limit looks as if it had made hops: a router
that trusts the sender relays it with all its hops. -/
theorem first_hop_preserved :
    Guarded step (kept ⟨0x22, 7⟩) (init pair) (relayedUnicast 5) ∧
      ∃ r ∈ (run step (init pair) (relayedUnicast 5)).queued 1,
        r.copy = some ⟨0, (unicast 5).wire (pair 0) 3 0, .own (unicast 5)⟩ ∧
          r.wire.hopLimit = r.heard.hopLimit :=
  ⟨relayedUnicast_kept (.inr rfl), by decide +kernel⟩

end Net

end Zephyrtastic.Router
