import Zephyrtastic.Router.Rx

/-!
# What a received frame can do

Said once, for every proof about runs: a frame leaves the duplicate cache alone
and relays nothing, or it is a copy that raises the budget of its entry, or it is
seen for the first time and entered.
-/

namespace Zephyrtastic.Router

open List

/-- What an entry is looked up by, and the time it expires from. -/
def DupEntry.stamp (e : DupEntry) : Key × UInt32 := (e.key, e.ms)

namespace DupCache

variable {size : Nat} {c : DupCache size} {k : Key} {i : Fin size} {e : DupEntry}

def stamps (c : DupCache size) : Fin size → Key × UInt32 := fun i => (c.cells i).stamp

theorem setCell_self (c : DupCache size) (i : Fin size) (e : DupEntry) :
    (c.setCell i e).cells i = e :=
  Function.update_self ..

theorem setCell_ne {c : DupCache size} {e : DupEntry} {j : Fin size} (h : j ≠ i) :
    (c.setCell i e).cells j = c.cells j :=
  Function.update_of_ne h ..

theorem setCell_stamps (h : e.stamp = (c.cells i).stamp) : (c.setCell i e).stamps = c.stamps := by
  funext j
  by_cases hj : j = i
  · subst hj
    rw [stamps, setCell_self, h]
    rfl
  · rw [stamps, setCell_ne hj]
    rfl

section
variable (c) (k) (now : UInt32) (ra : Option UInt8)

theorem markRelayed_cells (j : Fin size) :
    ((c.markRelayed k now ra).cells j).stamp = (c.cells j).stamp ∧
      ((c.markRelayed k now ra).cells j).hopLimit = (c.cells j).hopLimit := by
  unfold markRelayed
  split
  · exact ⟨rfl, rfl⟩
  rename_i i hi
  by_cases hj : j = i
  · subst hj
    rw [setCell_self]
    exact ⟨rfl, rfl⟩
  · rw [setCell_ne hj]
    exact ⟨rfl, rfl⟩

@[simp] theorem markRelayed_stamps : (c.markRelayed k now ra).stamps = c.stamps :=
  funext fun j => (markRelayed_cells c k now ra j).1

@[simp] theorem markRelayed_head : (c.markRelayed k now ra).head = c.head := by
  unfold markRelayed
  split <;> rfl

end

theorem add_stamps (c : DupCache size) (k : Key) (hopLimit : Fin 8) (attach relayNode : UInt8)
    (attachRxMs now : UInt32) :
    (c.add k hopLimit attach relayNode attachRxMs now).stamps =
      Function.update c.stamps c.head (k, now) := by
  funext j
  by_cases hj : j = c.head
  · subst hj
    simp [stamps, add, DupEntry.stamp]
  · simp [stamps, add, hj]

end DupCache

/-- The frame that an action relays. -/
def Action.relayWire : Action → Option Wire
  | .relay w _ => some w
  | .attachRelay _ w _ _ _ => some w
  | _ => none

/-- An action that neither relays, nor enters a packet, nor hands it to the modules. -/
def Action.plain : Action → Bool
  | .sighted _ _ | .recorded _ | .relay _ _ | .transmit _ | .attachRelay _ _ _ _ _
  | .dispatch _ _ => false
  | _ => true

/-- Every action of a list is plain. -/
def Plain (acts : List Action) : Prop := ∀ a ∈ acts, a.plain = true

/-- An action that says something about a frame and does nothing with its packet: it is neither
relayed nor entered, and nobody gets it. -/
def Action.aside : Action → Bool
  | .deliver _ | .admin _ => false
  | a => a.plain

/-- An action that only a decoded packet leads to. -/
def Action.inbound : Action → Bool
  | .deliver _ | .admin _ | .uplink _ | .routed _ | .dispatch _ _ | .learn _ _ => true
  | _ => false

/-- An action that a frame leads to whether or not it can be decoded. -/
def Action.outer (a : Action) : Bool := a.aside && !a.inbound

/-- Every action of a list is of one kind. -/
def AllOf (kind : Action → Bool) (acts : List Action) : Prop := ∀ a ∈ acts, kind a = true

section
variable {kind : Action → Bool} {acts acts' : List Action}

theorem allOf_nil : AllOf kind [] := fun _ h => absurd h not_mem_nil

theorem allOf_singleton {a : Action} (h : kind a = true) : AllOf kind [a] :=
  fun _ hb => mem_singleton.mp hb ▸ h

theorem allOf_append (h : AllOf kind acts) (h' : AllOf kind acts') : AllOf kind (acts ++ acts') :=
  fun a ha => (mem_append.mp ha).elim (h a) (h' a)

theorem allOf_ite {p : Prop} [Decidable p] (h : AllOf kind acts) (h' : AllOf kind acts') :
    AllOf kind (if p then acts else acts') := by
  split
  · exact h
  · exact h'

theorem AllOf.plain (h : AllOf Action.outer acts) : Plain acts := by
  intro a ha
  have houter := h a ha
  cases a <;> first | rfl | exact houter

theorem AllOf.not_inbound (h : AllOf Action.outer acts) {a : Action} (ha : a.inbound = true) :
    a ∉ acts := by
  intro hmem
  have houter := h a hmem
  rw [Action.outer, ha, Bool.not_true, Bool.and_false] at houter
  cases houter

end

section
variable (cfg : Config)
variable (cache : DupCache cfg.size) (rx : Rx) (w : Wire)

theorem outer_airtime (type : AirtimeType) (w : Wire) :
    AllOf Action.outer (rxAirtimeLog rx type w) :=
  allOf_ite (allOf_singleton rfl) allOf_nil

theorem outer_noted : AllOf Action.outer (notePossibleRedundantRelay cfg cache rx w) := by
  unfold notePossibleRedundantRelay
  split
  · exact allOf_nil
  refine allOf_ite allOf_nil (allOf_ite allOf_nil (allOf_ite allOf_nil ?_))
  refine allOf_ite (allOf_ite (allOf_singleton rfl) allOf_nil) ?_
  split
  · exact allOf_singleton rfl
  · exact allOf_singleton rfl
  · exact allOf_nil

theorem outer_latency : AllOf Action.outer (noteLatency cfg cache rx w) := by
  refine allOf_ite ?_ allOf_nil
  split
  · exact allOf_ite (allOf_singleton rfl) allOf_nil
  · exact allOf_nil

theorem outer_duplicate (s : State cfg) (rx : Rx) (w : Wire) :
    AllOf Action.outer (plainDuplicate cfg s rx w) := by
  refine allOf_append (allOf_append (allOf_append ?_ ?_) (outer_latency cfg s.cache rx w))
    (outer_airtime rx .rxAll w)
  · exact allOf_ite (allOf_singleton rfl) allOf_nil
  · exact allOf_ite (outer_noted cfg s.cache rx w) allOf_nil

theorem plain_learn (log : RelayerLog) (a : Answers) (p : Packet) (d : Data) :
    Plain (learnNextHop cfg log a p d) :=
  allOf_ite allOf_nil (allOf_ite allOf_nil (allOf_ite allOf_nil (allOf_ite allOf_nil
    (allOf_ite allOf_nil (allOf_singleton rfl)))))

theorem plain_deliver (a : Answers) (p : Packet) (d : Data) : Plain (deliverDecoded cfg a p d) :=
  allOf_ite allOf_nil (allOf_ite (allOf_ite (allOf_ite (allOf_singleton rfl) (allOf_singleton rfl))
    (allOf_singleton rfl)) allOf_nil)

theorem outer_decodeFailed (result : Decode) : AllOf Action.outer (decodeFailed cfg w result) := by
  unfold decodeFailed
  split
  · exact allOf_ite (allOf_singleton rfl) allOf_nil
  · exact allOf_nil

theorem outer_signal : AllOf Action.outer (noteSignal rx w) :=
  allOf_ite (allOf_singleton rfl) allOf_nil

theorem outer_ownFrame (s : State cfg) (rx : Rx) (w : Wire) :
    AllOf Action.outer (ownFrame cfg s rx w).2 := by
  unfold ownFrame
  split
  · exact allOf_nil
  split
  · exact allOf_nil
  · exact allOf_append (allOf_singleton rfl) (outer_airtime rx .rx w)

theorem ownFrame_cache (s : State cfg) (rx : Rx) (w : Wire) :
    (ownFrame cfg s rx w).1.cache = s.cache := by
  unfold ownFrame
  split
  · rfl
  split <;> rfl

/-- The actions for a frame seen for the first time: plain ones, and a dispatch at most. -/
def Dispatched (k : Key) (ms : Nat) (acts : List Action) : Prop :=
  Plain acts ∨ ∃ before after, Plain before ∧ Plain after ∧
    acts = before ++ .dispatch k ms :: after

theorem Dispatched.prepend {k : Key} {ms : Nat} {acts plain : List Action}
    (h : Dispatched k ms acts) (hp : Plain plain) : Dispatched k ms (plain ++ acts) := by
  rcases h with h | ⟨before, after, hb, ha, rfl⟩
  · exact .inl (allOf_append hp h)
  · exact .inr ⟨plain ++ before, after, allOf_append hp hb, ha, (append_assoc ..).symm⟩

/-- A decoded packet is dispatched once, and the rest is plain. -/
theorem handleDecoded_dispatched (log : RelayerLog) (a : Answers) (bearer : Bearer)
    (attach : UInt8) (ms : Nat) (p : Packet) (d : Data) :
    Dispatched p.key ms (handleDecoded cfg log a bearer attach ms p d) := by
  refine .inr ⟨_, _, ?_, ?_, append_assoc _ [Action.dispatch p.key ms] _⟩
  · refine allOf_append (allOf_append (plain_deliver cfg a p d) ?_) ?_
    · exact allOf_ite (allOf_singleton rfl) allOf_nil
    · exact allOf_ite allOf_nil (allOf_singleton rfl)
  · exact allOf_ite (plain_learn cfg log a p d) allOf_nil

/-- What `sniff_rebroadcast` comes to: the frame is held back, or relayed and its entry
marked. -/
inductive Relayed : DupCache cfg.size × List Action → Prop
  | held : Relayed (cache, [])
  | sent (act : Action) (ra : Option UInt8)
      (wire : act.relayWire = some (relayed cfg rx.answers w)) (hops : w.hopLimit ≠ 0)
      (notOwn : w.src ≠ cfg.nodeId) : Relayed (cache.markRelayed w.key rx.now ra, [act])

theorem sniff_relayed : Relayed cfg cache rx w (sniffRebroadcast cfg cache rx w) := by
  unfold sniffRebroadcast
  split
  swap
  · exact .held
  rename_i hmay
  have hown : w.src ≠ cfg.nodeId := by
    intro h
    simp [mayRebroadcast, h] at hmay
  unfold relayPacket
  split
  · exact .held
  rename_i hlen
  have hops : w.hopLimit ≠ 0 := fun h => hlen (.inr h)
  split
  · split
    · split
      · exact .sent _ _ rfl hops hown
      · exact .held
    · exact .held
  · split
    · exact .sent _ _ rfl hops hown
    · exact .held

theorem relayOk_relayed : Relayed cfg cache rx w
      (if relayOk cfg rx then sniffRebroadcast cfg cache rx w else (cache, [])) := by
  split
  · exact sniff_relayed cfg cache rx w
  · exact .held

/-! ### What a decoded packet leads to -/

variable {rx : Rx} {w : Wire}

section
variable {cfg : Config} {a : Action} (ha : a.inbound = true)
include ha

theorem Relayed.not_inbound {cache : DupCache cfg.size}
    {r : DupCache cfg.size × List Action} (h : Relayed cfg cache rx w r) : a ∉ r.2 := by
  cases h with
  | held => exact not_mem_nil
  | sent act ra wire =>
    intro hmem
    have hnone : a.relayWire = none := by cases a <;> first | rfl | cases ha
    rw [← mem_singleton.mp hmem, hnone] at wire
    cases wire

theorem mem_handleInbound (s : State cfg) (rx : Rx) (w : Wire) (data : Option Data) :
    a ∈ (handleInbound cfg s rx w data).2 ↔
      inboundPasses rx.answers data = true ∧ a ∈ inboundActs cfg s rx w data := by
  have hrelay := (sniff_relayed cfg s.cache rx w).not_inbound ha
  unfold handleInbound
  cases inboundPasses rx.answers data with
  | false => simp
  | true =>
    simp only [Bool.not_true, Bool.false_eq_true, if_false]
    split <;> simp [hrelay]

theorem mem_firstSight (s : State cfg) (rx : Rx) (w : Wire) :
    a ∈ (firstSight cfg s rx w).2 ↔ ∃ d, rx.answers.decode = .decoded d ∧
      inboundPasses rx.answers (some d) = true ∧
      a ∈ handleDecoded cfg s.relayers rx.answers rx.bearer rx.attach rx.ms w.packet d := by
  have hentered : a ≠ .sighted w.key rx.ms ∧ a ≠ .recorded w.key := by
    constructor <;> (rintro rfl; cases ha)
  have hair (type : AirtimeType) := (outer_airtime rx type w).not_inbound ha
  have hfail := (outer_decodeFailed cfg w rx.answers.decode).not_inbound ha
  have hsignal := (outer_signal rx w).not_inbound ha
  unfold firstSight
  cases hd : rx.answers.decode with
  | error => simp [hair, hentered]
  | undecoded reason | decoded d =>
    rw [hd] at hfail
    simp [hair, hentered, hfail, hsignal, mem_handleInbound ha, Decode.data, inboundActs]

/-- **What only a decoded packet leads to, a frame seen for the first time leads to**, once it
is decoded and has passed the gates. -/
theorem mem_processRx (s : State cfg) (hw : rx.wire = some w) :
    a ∈ (processRx cfg s rx).2 ↔
      (turnedAway cfg rx w = false ∧ w.src ≠ cfg.nodeId ∧
        (s.cache.checkHops cfg.ttlMs rx.now w.key w.hopLimit true).1 = .new) ∧
      ∃ d, rx.answers.decode = .decoded d ∧ inboundPasses rx.answers (some d) = true ∧
        a ∈ handleDecoded cfg s.relayers rx.answers rx.bearer rx.attach rx.ms w.packet d := by
  have hair := (outer_airtime rx .rxAll w).not_inbound ha
  unfold processRx
  rw [hw]
  dsimp only
  cases ht : turnedAway cfg rx w with
  | true => simpa using hair
  | false =>
    by_cases hown : w.src = cfg.nodeId
    · simpa [hown] using (outer_ownFrame cfg s rx w).not_inbound ha
    simp only [Bool.false_eq_true, if_false, hown]
    unfold lookedUp
    rcases s.cache.checkHops cfg.ttlMs rx.now w.key w.hopLimit true with ⟨v, c⟩
    cases v with
    | seen => simpa using (outer_duplicate cfg { s with cache := c } rx w).not_inbound ha
    | upgrade =>
      have hnoted := (allOf_ite (p := rx.bearer.isRf = true) (outer_noted cfg c rx w)
        allOf_nil).not_inbound ha
      have hrelay := (relayOk_relayed cfg c rx w).not_inbound ha
      simp [upgradedDuplicate, hnoted, hrelay, hair]
    | new => simp [mem_firstSight ha, hown]

end

/-- What a received frame can do to the router, and the actions it leads to. -/
inductive Received (s : State cfg) (rx : Rx) : State cfg × List Action → Prop
  /-- Turned away, our own, or a copy that says nothing new. -/
  | aside {s' : State cfg} {acts : List Action} (cache : s'.cache = s.cache)
      (plain : Plain acts) : Received s rx (s', acts)
  /-- A copy with more hops left than the entry has seen. -/
  | upgrade {w : Wire} {i : Fin cfg.size} {r : DupCache cfg.size × List Action}
      {before after : List Action} (wire : rx.wire = some w)
      (fresh : s.cache.fresh? cfg.ttlMs rx.now w.key = some i)
      (hops : (s.cache.cells i).hopLimit < w.hopLimit)
      (relay : Relayed cfg
        (s.cache.setCell i (DupCache.upgraded (s.cache.cells i) w.hopLimit)) rx w r)
      (plainBefore : Plain before) (plainAfter : Plain after) :
      Received s rx ({ s with cache := r.1 }, before ++ r.2 ++ after)
  /-- A frame that the cache has no entry of. -/
  | first {w : Wire} {r : DupCache cfg.size × List Action} {mid : List Action}
      (wire : rx.wire = some w) (admitted : turnedAway cfg rx w = false)
      (notOwn : w.src ≠ cfg.nodeId) (fresh : s.cache.fresh? cfg.ttlMs rx.now w.key = none)
      (relay : Relayed cfg
        (s.cache.add w.key w.hopLimit rx.attach w.relayNode rx.rxMs rx.now) rx w r)
      (dispatched : Dispatched w.key rx.ms mid) :
      Received s rx
        ({ s with cache := r.1 }, .sighted w.key rx.ms :: .recorded w.key :: (mid ++ r.2))

theorem handleInbound_eq (s : State cfg) (rx : Rx) (w : Wire) (data : Option Data) :
    ∃ r mid, Relayed cfg s.cache rx w r ∧ Dispatched w.key rx.ms mid ∧
      handleInbound cfg s rx w data = ({ s with cache := r.1 }, mid ++ r.2) := by
  have hmid : Dispatched w.key rx.ms (inboundActs cfg s rx w data) := by
    cases data with
    | none => exact .inl allOf_nil
    | some d => exact handleDecoded_dispatched ..
  unfold handleInbound
  split
  · exact ⟨_, [], .held, .inl allOf_nil, rfl⟩
  · split
    · exact ⟨_, _, sniff_relayed cfg s.cache rx w, hmid, rfl⟩
    · exact ⟨_, _, .held, hmid, by rw [append_nil]⟩

theorem firstSight_received {s : State cfg} (hw : rx.wire = some w)
    (hin : turnedAway cfg rx w = false) (hown : w.src ≠ cfg.nodeId)
    (hf : s.cache.fresh? cfg.ttlMs rx.now w.key = none) :
    Received cfg s rx (firstSight cfg s rx w) := by
  unfold firstSight
  dsimp only
  split
  · have h := Received.first hw hin hown hf .held (.inl (outer_airtime rx .rxAll w).plain)
    rwa [append_nil] at h
  obtain ⟨r, mid, hrel, hmid, heq⟩ := handleInbound_eq cfg
    { s with cache := s.cache.add w.key w.hopLimit rx.attach w.relayNode rx.rxMs rx.now } rx w
    rx.answers.decode.data
  have hplain : Plain (rxAirtimeLog rx (if w.src = 0 then .rxAll else .rx) w ++
      decodeFailed cfg w rx.answers.decode ++ noteSignal rx w) :=
    (allOf_append (allOf_append (outer_airtime rx _ w) (outer_decodeFailed cfg w _))
      (outer_signal rx w)).plain
  have h := Received.first hw hin hown hf hrel (hmid.prepend hplain)
  rw [heq]
  rwa [append_assoc] at h

/-- Every received frame is handled in one of these ways. -/
theorem processRx_received (s : State cfg) (rx : Rx) : Received cfg s rx (processRx cfg s rx) := by
  unfold processRx
  split
  · exact .aside rfl allOf_nil
  rename_i w hw
  split
  · exact .aside rfl (outer_airtime rx .rxAll w).plain
  rename_i hin
  split
  · exact .aside (ownFrame_cache cfg s rx w) (outer_ownFrame cfg s rx w).plain
  rename_i hown
  unfold lookedUp DupCache.checkHops
  cases hf : s.cache.fresh? cfg.ttlMs rx.now w.key with
  | none => exact firstSight_received cfg hw (Bool.eq_false_of_not_eq_true hin) hown hf
  | some i =>
    dsimp only
    by_cases hlt : (s.cache.cells i).hopLimit < w.hopLimit
    · rw [if_pos ⟨rfl, hlt⟩]
      exact .upgrade hw hf hlt (relayOk_relayed cfg _ rx w)
        (allOf_ite (outer_noted cfg _ rx w) allOf_nil).plain (outer_airtime rx .rxAll w).plain
    · rw [if_neg (fun h => hlt h.2)]
      exact .aside rfl (outer_duplicate cfg _ rx w).plain

end

end Zephyrtastic.Router
