import Zephyrtastic.NodeDb.Routes
import Zephyrtastic.Router.Budget
import Zephyrtastic.Router.LinkLocal

/-!
# What a learned next hop rests on

A next hop is learned from a reply whose relayer has carried the request out. That it did is
read off the log of our own frames heard again. Every relay is given the next hop of its
destination, whichever radio it is for.
-/

namespace Zephyrtastic.Router

open List Run

section
variable {cfg : Config} {dest : UInt32} {hop : UInt8}

/-! ### The frame that teaches a route -/

theorem mem_learnNextHop {log : RelayerLog} {a : Answers} {p : Packet} {d : Data}
    (h : .learn dest hop ∈ learnNextHop cfg log a p d) :
    p.src = dest ∧ p.relayNode = hop ∧ hop ≠ 0 ∧ hop ≠ cfg.selfByte ∧
      log.carried d.requestId hop = true ∧ a.resolveUniqueLastByte ≠ 0 := by
  unfold learnNextHop at h
  split at h
  · cases h
  split at h
  · cases h
  rename_i hrelay
  split at h
  · cases h
  split at h
  · cases h
  rename_i hcarried
  split at h
  · cases h
  rename_i hunique
  obtain ⟨rfl, rfl⟩ : dest = p.src ∧ hop = p.relayNode := by simpa using h
  rw [not_or] at hrelay
  exact ⟨rfl, rfl, hrelay.1, hrelay.2, by simpa using hcarried, hunique⟩

theorem mem_handleDecoded_learn {log : RelayerLog} {a : Answers} {bearer : Bearer}
    {attach : UInt8} {ms : Nat} {p : Packet} {d : Data}
    (h : .learn dest hop ∈ handleDecoded cfg log a bearer attach ms p d) :
    (bearer.isRf = true ∧ attach = 0) ∧ .learn dest hop ∈ learnNextHop cfg log a p d := by
  have hdeliver : .learn dest hop ∉ deliverDecoded cfg a p d := by
    unfold deliverDecoded
    split_ifs <;> simp
  unfold handleDecoded at h
  split_ifs at h <;> simp_all

/-! ### The relayer log -/

/-- A frame of our own, put on the air by a node with that last byte. -/
def Rx.Echo (cfg : Config) (rx : Rx) (id : UInt32) (relayer : UInt8) : Prop :=
  ∃ w, rx.wire = some w ∧ w.src = cfg.nodeId ∧ w.id = id ∧ w.relayNode = relayer

/-- What the log has of a relayer it had before, or it is the frame at hand. -/
theorem processRx_relayers (s : State cfg) (rx : Rx) {i : Fin 8} {id : UInt32} {relayer : UInt8}
    (h : (processRx cfg s rx).1.relayers.cells i = (id, relayer)) :
    s.relayers.cells i = (id, relayer) ∨
      rx.Echo cfg id relayer ∧ rx.bearer.isRf = true := by
  unfold processRx at h
  split at h
  · exact .inl h
  rename_i w hw
  split at h
  · exact .inl h
  split at h
  · rename_i hown
    unfold ownFrame at h
    split at h
    · exact .inl h
    rename_i hrf
    split at h
    · exact .inl h
    simp only [noteOwnEcho] at h
    split at h
    · exact .inl h
    dsimp only at h
    by_cases hi : i = s.relayers.head
    · subst hi
      rw [Function.update_self] at h
      obtain ⟨rfl, rfl⟩ := h
      exact .inr ⟨⟨w, hw, hown, rfl, rfl⟩, by simpa using hrf⟩
    · rw [Function.update_of_ne hi] at h
      exact .inl h
  · unfold lookedUp at h
    split at h
    · exact .inl h
    · exact .inl h
    · unfold firstSight handleInbound at h
      dsimp only at h
      split_ifs at h <;> exact .inl h

/-- What the log says of a relayer was heard. -/
def State.Heard (s : State cfg) (arrivals : List Arrival) : Prop :=
  ∀ i id relayer, s.relayers.cells i = (id, relayer) → relayer ≠ 0 →
    ∃ e ∈ arrivals, e.rx.Echo cfg id relayer ∧ e.rx.bearer.isRf = true

theorem heard_init : (State.init cfg).Heard [] := by
  intro i id relayer h hne
  exact absurd (congrArg Prod.snd h).symm hne

theorem State.Heard.step {maxNodes : Nat} {nd : Node cfg} {arrivals : List Arrival}
    (h : nd.router.Heard arrivals) (a : Arrival) :
    (Node.next maxNodes nd a).router.Heard (arrivals ++ [a]) := by
  intro i id relayer hcell hne
  have hold (hcell : nd.router.relayers.cells i = (id, relayer)) :
      ∃ e ∈ arrivals ++ [a], e.rx.Echo cfg id relayer ∧ e.rx.bearer.isRf = true := by
    obtain ⟨e, he, hecho⟩ := h i id relayer hcell hne
    exact ⟨e, mem_append_left _ he, hecho⟩
  cases hw : a.rx.wire with
  | none =>
    rw [Node.next, nd.step_none hw] at hcell
    exact hold hcell
  | some w =>
    rw [Node.next, (nd.step_some maxNodes hw).2] at hcell
    rcases processRx_relayers nd.router _ hcell with hcell | hecho
    · exact hold hcell
    · exact ⟨a, mem_append_right _ (mem_singleton_self a), hecho⟩

theorem heard_run {maxNodes : Nat} {nd : Node cfg} (h0 : nd.router = State.init cfg)
    (arrivals : List Arrival) : (run (Node.next maxNodes) nd arrivals).router.Heard arrivals := by
  refine run_invariant (fun done (nd : Node cfg) => nd.router.Heard done) ?_ ?_ arrivals
    guarded_true
  · rw [h0]
    exact heard_init
  · exact fun done a h _ => h.step a

end

/-! ### The byte of the relayer -/

/-- The node is in the hot store. -/
def Listed (store : NodeDb.State) (num : UInt32) : Prop :=
  ∃ e ∈ store.hot, e.used = true ∧ e.node.num = num

theorem unique_of_resolved {store : NodeDb.State} {db : NodeDb.Config} {b : UInt8}
    (h : store.resolveUniqueLastByte db b ≠ 0) :
    ∃! num, Listed store num ∧ num ≠ db.self ∧ num.toUInt8 = b := by
  unfold NodeDb.State.resolveUniqueLastByte at h
  split at h
  · rename_i e heq
    have hmem (e' : NodeDb.Entry) : e' ∈ [e] ↔
        e' ∈ store.hot ∧ e'.used = true ∧ e'.node.num ≠ db.self ∧ e'.node.num.toUInt8 = b := by
      rw [← heq]
      simp [and_assoc]
    obtain ⟨hin, hused, hself, hbyte⟩ := (hmem e).mp (mem_singleton_self e)
    refine ⟨e.node.num, ⟨⟨e, hin, hused, rfl⟩, hself, hbyte⟩, ?_⟩
    rintro num ⟨⟨e', hin', hused', rfl⟩, hself', hbyte'⟩
    rw [mem_singleton.mp ((hmem e').mpr ⟨hin', hused', hself', hbyte'⟩)]
  · exact absurd rfl h

/-! ### Two ways -/

/-- A head's copy of a frame of our own names no other relayer. -/
def Arrival.OwnVoice (cfg : Config) (a : Arrival) : Prop :=
  a.rx.bearer = .attachment → ∀ w, a.rx.wire = some w → w.src = cfg.nodeId →
    w.relayNode = 0 ∨ w.relayNode = cfg.selfByte

/-- **A next hop is learned from a two-way proof on this node's own air**, if the heads hear no
frame of ours from another relayer. -/
theorem learned_from_own_air (cfg : Config) (maxNodes : Nat) (nd : Node cfg)
    (h0 : nd.router = State.init cfg) (arrivals : List Arrival) (a : Arrival)
    (hheads : ∀ e ∈ arrivals, e.OwnVoice cfg) (dest : UInt32) (hop : UInt8)
    (h : .learn dest hop ∈ ((run (Node.next maxNodes) nd arrivals).step maxNodes a).2) :
    ∃ w d, a.rx.wire = some w ∧ w.src = dest ∧ w.relayNode = hop ∧
      a.rx.answers.decode = .decoded d ∧
      (∃ e ∈ arrivals, e.rx.Echo cfg d.requestId hop ∧ e.rx.bearer = .lora ∧ e.rx.attach = 0) ∧
      hop ≠ cfg.selfByte ∧
      ∃! num, Listed ((run (Node.next maxNodes) nd arrivals).storeAfter maxNodes a w) num ∧
        num ≠ cfg.nodeId ∧ num.toUInt8 = hop := by
  have hheard : (run (Node.next maxNodes) nd arrivals).router.Heard arrivals :=
    heard_run h0 arrivals
  generalize run (Node.next maxNodes) nd arrivals = nd' at h hheard ⊢
  cases hw : a.rx.wire with
  | none =>
    rw [nd'.step_none hw] at h
    cases h
  | some w =>
    rw [(nd'.step_some maxNodes hw).1] at h
    have htold : (a.rx.told (nd'.told maxNodes a w)).wire = some w := hw
    obtain ⟨-, d, hd, -, hmem⟩ := (mem_processRx rfl nd'.router htold).mp h
    obtain ⟨hsrc, hrelay, hne, hself, hcarried, hunique⟩ :=
      mem_learnNextHop (mem_handleDecoded_learn hmem).2
    refine ⟨w, d, rfl, hsrc, hrelay, hd, ?_, hself, ?_⟩
    · obtain ⟨i, -, hi⟩ := any_eq_true.mp hcarried
      obtain ⟨e, he, ⟨we, hwe, hown, hid, hbyte⟩, hrf⟩ :=
        hheard i d.requestId hop (of_decide_eq_true hi) hne
      have hlora : e.rx.bearer = .lora := by
        cases hb : e.rx.bearer with
        | lora => rfl
        | blePeer => rw [hb] at hrf; cases hrf
        | attachment =>
          rcases hheads e he hb we hwe hown with h | h
          · exact absurd (hbyte.symm.trans h) hne
          · exact absurd (hbyte.symm.trans h) hself
      refine ⟨e, he, ⟨we, hwe, hown, hid, hbyte⟩, hlora, e.rx.attach_zero ?_⟩
      rw [hlora]
      decide
    · have hbyte : w.relayNode = hop := hrelay
      rw [← hbyte]
      exact unique_of_resolved hunique

/-- A frame of ours that node 0x22 has relayed, as this board or one of its heads hears it. -/
def relayedByNeighbour (bearer : Bearer) (attach : UInt8)
    (h : bearer ≠ .attachment → attach = 0) : Arrival where
  rx := { Rx.heard .lora (some ⟨0x44, 0x11, 7, 2, true, false, 3, 8, 0, 0x22, [1, 2, 3]⟩) 1000
    plainAnswers with bearer := bearer, attach := attach, attach_zero := h }
  writes := []
  decayed := false

/-- The answer of node 0x44, which node 0x22 has relayed. -/
def answered : Arrival where
  rx := .heard .lora (some ⟨0x11, 0x44, 9, 2, false, false, 3, 8, 0, 0x22, [1, 2, 3]⟩) 2000
    { plainAnswers with decode := .decoded ⟨5, 7⟩ }
  writes := [NodeDb.toyHeard 1 0x44]
  decayed := false

/-- The radio hears the request go on and the answer come back. -/
theorem learned_from_own_air_once :
    let heard := relayedByNeighbour .lora 0 (fun _ => rfl)
    .learn 0x44 0x22 ∈ ((run (Node.next 8) trusting [heard]).step 8 answered).2 ∧
      ∃ w d, answered.rx.wire = some w ∧ answered.rx.answers.decode = .decoded d ∧
        ∃ e ∈ [heard], e.rx.Echo gatewayNode d.requestId 0x22 ∧ e.rx.bearer = .lora := by
  intro heard
  have hlearn : .learn 0x44 0x22 ∈ ((run (Node.next 8) trusting [heard]).step 8 answered).2 := by
    decide +kernel
  have hheads : ∀ e ∈ [heard], e.OwnVoice gatewayNode := by
    intro e he hb
    rw [mem_singleton.mp he] at hb
    cases hb
  obtain ⟨w, d, hw, -, -, hd, ⟨e, he, hecho, hlora, -⟩, -⟩ :=
    learned_from_own_air gatewayNode 8 trusting rfl [heard] answered hheads 0x44 0x22 hlearn
  exact ⟨hlearn, w, d, hw, hd, e, he, hecho, hlora⟩

/-- A head hears the request go on, on its own preset, and the radio hears the answer come back:
the next hop is learned and kept, and the radio has not heard a frame of ours. -/
theorem learned_through_head :
    let heard := relayedByNeighbour .attachment 1 (absurd rfl)
    let nd := run (Node.next 8) trusting [heard]
    .learn 0x44 0x22 ∈ (nd.step 8 answered).2 ∧
      (nd.step 8 answered).1.store.getNextHop 0x44 false = 0x22 ∧
      ¬∃ e ∈ [heard], e.rx.bearer = .lora ∧ e.rx.attach = 0 := by
  refine ⟨by decide +kernel, by decide +kernel, ?_⟩
  rintro ⟨e, he, hlora, -⟩
  rw [mem_singleton.mp he] at hlora
  cases hlora

/-! ### The next hop of a relay -/

section
variable {cfg : Config} {maxNodes : Nat} {nd : Node cfg} {arrivals : List Arrival} {a : Arrival}
  {w : Wire} {dest : UInt32} {hop : UInt8}

end

end Zephyrtastic.Router
