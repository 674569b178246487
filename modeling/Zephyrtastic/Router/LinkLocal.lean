import Zephyrtastic.Lib.Visible
import Zephyrtastic.Router.Store

/-!
# The link-local rule

A frame from the peer link is delivered here and steers no radio: it relays,
cancels and defers nothing, teaches no route, costs no airtime and leaves no
signal reading.
-/

namespace Zephyrtastic.Router

open List Run

/-- What an action says about the radios: a relay, a change to one that is queued, a route, an
airtime entry, a signal reading. -/
def Action.steers : Action → Bool
  | .relay _ _ | .attachRelay _ _ _ _ _ | .cancel _ | .deferLate _ _ | .attachCancel _ _
  | .learn _ _ | .airtime _ _ | .signal _ _ _ => true
  | _ => false

/-- The part of a list of actions that concerns the radios. -/
def radio (acts : List Action) : List Action := acts.filter Action.steers

theorem radio_append (acts acts' : List Action) :
    radio (acts ++ acts') = radio acts ++ radio acts' :=
  filter_append ..

theorem radio_eq_nil {acts : List Action} (h : ∀ a ∈ acts, a.steers = false) : radio acts = [] :=
  filter_eq_nil_iff.mpr fun a ha => by rw [h a ha]; exact Bool.false_ne_true

def Rx.isRf (rx : Rx) : Bool := rx.bearer.isRf

variable {cfg : Config} {rx : Rx}

/-! ### A frame from the peer link -/

theorem bearer_of_not_rf (h : rx.isRf = false) : rx.bearer = .blePeer := by
  unfold Rx.isRf at h
  cases hb : rx.bearer <;> rw [hb] at h <;> first | rfl | exact Bool.noConfusion h

theorem relayOk_of_not_rf (cfg : Config) (h : rx.isRf = false) : relayOk cfg rx = false := by
  have hb := bearer_of_not_rf h
  have ha : rx.attach = 0 := rx.attach_zero (by rw [hb]; exact Bearer.noConfusion)
  simp [relayOk, hb, ha]

theorem airtime_of_not_rf (h : rx.isRf = false) (type : AirtimeType) (w : Wire) :
    rxAirtimeLog rx type w = [] := by
  rw [rxAirtimeLog, bearer_of_not_rf h]
  rfl

theorem deliver_silent (a : Answers) (p : Packet) (d : Data) :
    radio (deliverDecoded cfg a p d) = [] := by
  refine radio_eq_nil fun b hb => ?_
  unfold deliverDecoded at hb
  split at hb
  · exact absurd hb not_mem_nil
  split at hb
  · split at hb
    · split at hb <;> rw [mem_singleton.mp hb] <;> rfl
    · rw [mem_singleton.mp hb]
      rfl
  · exact absurd hb not_mem_nil

variable (s : State cfg)

theorem inboundActs_silent (h : rx.isRf = false) (w : Wire) (data : Option Data) :
    radio (inboundActs cfg s rx w data) = [] := by
  cases data with
  | none => rfl
  | some d =>
    have hrf : rx.bearer.isRf = false := h
    have hrouted : radio (if moduleAnswered cfg rx.answers w.packet d then []
        else [.routed w.packet.key]) = [] := by
      split <;> rfl
    simp only [inboundActs, handleDecoded, hrf, radio_append, deliver_silent, hrouted,
      Bool.false_eq_true, if_false, false_and, nil_append]
    rfl

theorem decodeFailed_silent (w : Wire) (result : Decode) :
    radio (decodeFailed cfg w result) = [] := by
  unfold decodeFailed
  split
  · split <;> rfl
  · rfl

theorem reackDuplicate_silent (cfg : Config) (w : Wire) : radio (reackDuplicate cfg w) = [] := by
  unfold reackDuplicate
  split <;> rfl

theorem noteLatency_silent (c : DupCache cfg.size) (rx : Rx) (w : Wire) :
    radio (noteLatency cfg c rx w) = [] := by
  unfold noteLatency
  split
  · split
    · split <;> rfl
    · rfl
  · rfl

section
variable (h : rx.isRf = false) (w : Wire)
include h

theorem plainDuplicate_not_rf : radio (plainDuplicate cfg s rx w) = [] := by
  have hrf : rx.bearer.isRf = false := h
  simp only [plainDuplicate, hrf, radio_append, reackDuplicate_silent, noteLatency_silent,
    airtime_of_not_rf h, Bool.false_eq_true, if_false]
  rfl

theorem handleInbound_not_rf (data : Option Data) :
    radio (handleInbound cfg s rx w data).2 = [] ∧
      (handleInbound cfg s rx w data).1.relayers = s.relayers := by
  unfold handleInbound
  rw [relayOk_of_not_rf cfg h, Bool.and_false]
  split
  · exact ⟨rfl, rfl⟩
  · exact ⟨inboundActs_silent s h w data, rfl⟩

theorem firstSight_not_rf :
    radio (firstSight cfg s rx w).2 = [] ∧ (firstSight cfg s rx w).1.relayers = s.relayers := by
  have hrf : rx.bearer.isRf = false := h
  unfold firstSight
  dsimp only
  split
  · rw [airtime_of_not_rf h]
    exact ⟨rfl, rfl⟩
  obtain ⟨hacts, hrel⟩ := handleInbound_not_rf
    { s with cache := s.cache.add w.key w.hopLimit rx.attach w.relayNode rx.rxMs rx.now } h w
    rx.answers.decode.data
  refine ⟨?_, hrel⟩
  simp only [radio_append, airtime_of_not_rf h, decodeFailed_silent, noteSignal, hrf, hacts,
    Bool.false_eq_true, if_false]
  rfl

end

/-- A frame from the peer link does nothing to a radio and says nothing about a relayer. -/
theorem processRx_not_rf (h : rx.isRf = false) :
    radio (processRx cfg s rx).2 = [] ∧ (processRx cfg s rx).1.relayers = s.relayers := by
  have hair := airtime_of_not_rf h
  have hrf : rx.bearer.isRf = false := h
  unfold processRx
  split
  · exact ⟨rfl, rfl⟩
  rename_i w hw
  split
  · exact ⟨by rw [hair]; rfl, rfl⟩
  split
  · rw [ownFrame, hrf]
    exact ⟨rfl, rfl⟩
  unfold lookedUp
  split
  · exact ⟨plainDuplicate_not_rf _ h w, rfl⟩
  · rw [upgradedDuplicate, hrf, relayOk_of_not_rf cfg h, hair]
    exact ⟨rfl, rfl⟩
  · exact firstSight_not_rf _ h w

/-! ### A frame from the air -/

/-- The cache as the lookup of a frame leaves it, before anything is relayed. -/
def settledCache (cfg : Config) (s : State cfg) (rx : Rx) (w : Wire) : DupCache cfg.size :=
  match s.cache.checkHops cfg.ttlMs rx.now w.key w.hopLimit true with
  | (.new, cache) => cache.add w.key w.hopLimit rx.attach w.relayNode rx.rxMs rx.now
  | (_, cache) => cache

/-- What a frame finds of itself in the duplicate cache: the verdict, and the entry that
`dup_find` points at afterwards. -/
def found (cfg : Config) (s : State cfg) (rx : Rx) (w : Wire) : DupVerdict × Option DupEntry :=
  ((s.cache.checkHops cfg.ttlMs rx.now w.key w.hopLimit true).1,
    (settledCache cfg s rx w).entry w.key)

section
variable {c c' : DupCache cfg.size} {w : Wire}

variable (h : c.entry w.key = c'.entry w.key)
include h

theorem noted_congr :
    notePossibleRedundantRelay cfg c rx w = notePossibleRedundantRelay cfg c' rx w := by
  unfold notePossibleRedundantRelay
  rw [h]

theorem latency_congr : noteLatency cfg c rx w = noteLatency cfg c' rx w := by
  unfold noteLatency
  rw [h]

theorem sniff_congr : (sniffRebroadcast cfg c rx w).2 = (sniffRebroadcast cfg c' rx w).2 := by
  unfold sniffRebroadcast relayPacket
  rw [h]
  split
  · split
    · rfl
    split
    · split
      · split <;> rfl
      · rfl
    · split <;> rfl
  · rfl

theorem relays_congr :
    (if relayOk cfg rx then sniffRebroadcast cfg c rx w else (c, [])).2 =
      (if relayOk cfg rx then sniffRebroadcast cfg c' rx w else (c', [])).2 := by
  split
  · exact sniff_congr h
  · rfl

end

theorem handleInbound_congr (s' : State cfg) {w : Wire} (hr : s.relayers = s'.relayers)
    (h : s.cache.entry w.key = s'.cache.entry w.key) (data : Option Data) :
    (handleInbound cfg s rx w data).2 = (handleInbound cfg s' rx w data).2 ∧
      (handleInbound cfg s rx w data).1.relayers = (handleInbound cfg s' rx w data).1.relayers := by
  have hacts : inboundActs cfg s rx w data = inboundActs cfg s' rx w data := by
    cases data with
    | none => rfl
    | some d => rw [inboundActs, inboundActs, hr]
  unfold handleInbound
  split
  · exact ⟨rfl, hr⟩
  split
  · dsimp only
    rw [sniff_congr h, hacts]
    exact ⟨rfl, hr⟩
  · exact ⟨hacts, hr⟩

/-- What a frame leads to depends on what it finds of itself in the cache and on the relayers
heard so far, and on nothing else of the router's state. -/
theorem processRx_congr {s s' : State cfg} (hr : s.relayers = s'.relayers)
    (h : ∀ w, rx.wire = some w → found cfg s rx w = found cfg s' rx w) :
    (processRx cfg s rx).2 = (processRx cfg s' rx).2 ∧
      (processRx cfg s rx).1.relayers = (processRx cfg s' rx).1.relayers := by
  unfold processRx
  split
  · exact ⟨rfl, hr⟩
  rename_i w hw
  split
  · exact ⟨rfl, hr⟩
  split
  · unfold ownFrame
    split
    · exact ⟨rfl, hr⟩
    · split
      · exact ⟨rfl, hr⟩
      · exact ⟨rfl, by rw [hr]⟩
  obtain ⟨hv, he⟩ := Prod.mk.inj (h w hw)
  unfold settledCache at he
  unfold lookedUp
  revert hv he
  rcases s.cache.checkHops cfg.ttlMs rx.now w.key w.hopLimit true with ⟨v, c⟩
  rcases s'.cache.checkHops cfg.ttlMs rx.now w.key w.hopLimit true with ⟨v', c'⟩
  rintro rfl he
  cases v with
  | seen =>
    refine ⟨?_, hr⟩
    dsimp only [plainDuplicate]
    rw [noted_congr he, latency_congr he]
  | upgrade =>
    dsimp only [upgradedDuplicate]
    rw [noted_congr he, relays_congr he]
    exact ⟨rfl, hr⟩
  | new =>
    dsimp only [firstSight]
    split
    · exact ⟨rfl, hr⟩
    obtain ⟨hacts, hrel⟩ := handleInbound_congr
      { cache := c.add w.key w.hopLimit rx.attach w.relayNode rx.rxMs rx.now,
        relayers := s.relayers }
      { cache := c'.add w.key w.hopLimit rx.attach w.relayNode rx.rxMs rx.now,
        relayers := s'.relayers } hr he rx.answers.decode.data
    exact ⟨by rw [hacts], hrel⟩

/-! ### Two runs -/

def Arrival.isRf (a : Arrival) : Bool := a.rx.isRf

namespace Node

variable (maxNodes : Nat)

def next (nd : Node cfg) (a : Arrival) : Node cfg := (nd.step maxNodes a).1

/-- What the frames of a list do to the radios. -/
def steering (nd : Node cfg) (arrivals : List Arrival) : List Action :=
  outputs (next maxNodes) (fun nd a => radio (nd.step maxNodes a).2) nd arrivals

/-- On two nodes a frame finds the same of itself in the duplicate cache, and the store answers
the same about it. -/
def Concur (nd nd' : Node cfg) (a : Arrival) : Prop :=
  ∀ w, a.rx.wire = some w →
    found cfg nd.router a.rx w = found cfg nd'.router a.rx w ∧
      nd.told maxNodes a w = nd'.told maxNodes a w

/-- Whenever two runs come to the same frame from the air, the nodes concur on it. -/
def Agree (nd : Node cfg) (arrivals arrivals' : List Arrival) : Prop :=
  Alike (next maxNodes) Arrival.isRf (Concur maxNodes) nd arrivals arrivals'

variable {maxNodes}
variable {a : Arrival}

theorem step_some (maxNodes : Nat) (nd : Node cfg) {w : Wire} (hw : a.rx.wire = some w) :
    (nd.step maxNodes a).2 = (processRx cfg nd.router (a.rx.told (nd.told maxNodes a w))).2 ∧
      (nd.step maxNodes a).1.router =
        (processRx cfg nd.router (a.rx.told (nd.told maxNodes a w))).1 := by
  unfold step
  rw [hw]
  exact ⟨rfl, rfl⟩

theorem step_none (nd : Node cfg) (hw : a.rx.wire = none) : nd.step maxNodes a = (nd, []) := by
  unfold step
  rw [hw]

theorem step_not_rf (nd : Node cfg) (h : a.isRf = false) :
    radio (nd.step maxNodes a).2 = [] ∧
      (nd.step maxNodes a).1.router.relayers = nd.router.relayers := by
  cases hw : a.rx.wire with
  | none =>
    rw [step_none nd hw]
    exact ⟨rfl, rfl⟩
  | some w =>
    obtain ⟨hacts, hrouter⟩ := nd.step_some maxNodes hw
    rw [hacts, hrouter]
    exact processRx_not_rf nd.router h

theorem step_concur {nd nd' : Node cfg}
    (hr : nd.router.relayers = nd'.router.relayers) (h : Concur maxNodes nd nd' a) :
    (nd.step maxNodes a).2 = (nd'.step maxNodes a).2 ∧
      (nd.step maxNodes a).1.router.relayers = (nd'.step maxNodes a).1.router.relayers := by
  cases hw : a.rx.wire with
  | none =>
    rw [step_none nd hw, step_none nd' hw]
    exact ⟨rfl, hr⟩
  | some w =>
    obtain ⟨hfound, htold⟩ := h w hw
    obtain ⟨hacts, hrouter⟩ := nd.step_some maxNodes hw
    obtain ⟨hacts', hrouter'⟩ := nd'.step_some maxNodes hw
    rw [hacts, hrouter, hacts', hrouter', htold]
    refine processRx_congr hr fun w' hw' => ?_
    obtain rfl : w = w' := Option.mem_unique hw hw'
    exact hfound

end Node

/-- Frames of the peer link do nothing to the radios themselves; and runs that differ only in
them do the same to the radios, if the frames from the air find the same of themselves in the
duplicate cache and the store answers the same about them. -/
theorem peer_link_steers_nothing (cfg : Config) (maxNodes : Nat) (nd : Node cfg) :
    (∀ a : Arrival, a.isRf = false → radio (nd.step maxNodes a).2 = []) ∧
      ∀ arrivals arrivals' : List Arrival,
        arrivals.filter Arrival.isRf = arrivals'.filter Arrival.isRf →
        nd.Agree maxNodes arrivals arrivals' →
        nd.steering maxNodes arrivals = nd.steering maxNodes arrivals' := by
  refine ⟨fun a h => (nd.step_not_rf h).1, fun arrivals arrivals' hsame hagree => ?_⟩
  refine (outputs_eq (fun nd : Node cfg => nd.router.relayers) ?_ ?_ nd arrivals arrivals' hsame
    hagree).1
  · exact fun nd a h => nd.step_not_rf h
  · intro nd nd' a _ hr hconcur
    obtain ⟨hacts, hrel⟩ := Node.step_concur hr hconcur
    exact ⟨congrArg radio hacts, hrel⟩

/-- A frame from node 0x44 that node 0x22 has relayed. -/
def passedOn (bearer : Bearer) : Arrival where
  rx := .heard bearer (some ⟨broadcast, 0x44, 7, 3, false, false, 5, 8, 0, 0x22, [1, 2, 3]⟩) 1000
    { plainAnswers with role := .router }
  writes := []
  decayed := false

/-- A packet that comes over the peer link and is decoded; the store notes its sender. -/
def peerHeard (num : UInt32) : Arrival where
  rx := .heard .blePeer (some ⟨broadcast, num, 9, 3, false, false, 3, 8, 0, 0, [1, 2, 3]⟩) 1000
    { plainAnswers with decode := .decoded ⟨4, 0⟩ }
  writes := [NodeDb.toyHeard 1 num]
  decayed := false

/-- A node that has node 0x22 for a favourite router. -/
def trusting : Node gatewayNode where
  router := State.init gatewayNode
  store := ⟨[NodeDb.Entry.fresh 0x11, { NodeDb.Entry.fresh 0x22 with
    node := ({ NodeDb.NodeInfoLite.zero with num := 0x22, role := 2 }.writeBit .hasUser
      true).writeBit .isFavorite true }], [], false, false⟩

/-- A packet over the peer link before a frame from the radio. -/
theorem peer_link_steers_nothing_beside :
    trusting.Agree 8 [passedOn .lora] [peerHeard 0x33, passedOn .lora] ∧
      trusting.steering 8 [passedOn .lora] =
        trusting.steering 8 [peerHeard 0x33, passedOn .lora] := by
  have hagree : trusting.Agree 8 [passedOn .lora] [peerHeard 0x33, passedOn .lora] := by
    intro done done' a hd hd' hrf _ w hw
    obtain ⟨rfl, rfl⟩ : done = [] ∧ a = passedOn .lora := by
      cases done with
      | nil => simpa [cons_prefix_cons] using hd
      | cons d done => simp [cons_prefix_cons] at hd
    obtain rfl : done' = [peerHeard 0x33] := by
      rcases done' with _ | ⟨d, _ | ⟨d', done'⟩⟩
      · have hne := (cons_prefix_cons.mp hd').1
        exact absurd (congrArg Arrival.isRf hne) (by decide)
      · rw [(cons_prefix_cons.mp hd').1]
      · simp [cons_prefix_cons] at hd'
    obtain rfl := Option.some.inj hw
    decide +kernel
  exact ⟨hagree, (peer_link_steers_nothing gatewayNode 8 trusting).2 _ _ rfl hagree⟩

/-- The copy of a packet that comes over the peer link first: the copy from the radio is then
a duplicate, and is not relayed. And a packet over the peer link from another node with the last
byte of the relayer: the relayer is no longer known by that byte, and its hop is counted. -/
theorem peer_copy_stops_relay :
    let relay (hopLimit : Fin 8) : Action :=
      .relay ⟨broadcast, 0x44, 7, hopLimit, false, false, 5, 8, 0, 0x11, [1, 2, 3]⟩ 0
    [passedOn .lora].filter Arrival.isRf =
        [passedOn .blePeer, passedOn .lora].filter Arrival.isRf ∧
      [passedOn .lora].filter Arrival.isRf =
        [peerHeard 0x122, passedOn .lora].filter Arrival.isRf ∧
      trusting.steering 8 [passedOn .lora] = [.airtime .rx 19, .signal 0x44 (-90) 5, relay 3] ∧
      trusting.steering 8 [passedOn .blePeer, passedOn .lora] = [.airtime .rxAll 19] ∧
      trusting.steering 8 [peerHeard 0x122, passedOn .lora] =
        [.airtime .rx 19, .signal 0x44 (-90) 5, relay 2] := by
  refine ⟨rfl, rfl, ?_, ?_, ?_⟩ <;> decide +kernel

end Zephyrtastic.Router
