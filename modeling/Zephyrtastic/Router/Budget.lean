import Zephyrtastic.Router.Downlink
import Zephyrtastic.Router.Effects

/-!
# The hop budget of a packet at a node

The entry of a packet in the duplicate cache holds the highest hop budget the node
has seen for it.
-/

namespace Zephyrtastic.Router

open List DupCache

/-- The hop counts say that the packet has made no hop yet. -/
def Wire.straight (w : Wire) : Prop := w.hopStart ≤ w.hopLimit

instance (w : Wire) : Decidable w.straight := inferInstanceAs (Decidable (_ ≤ _))

/-- The relays among the actions of a node. -/
def relaysOf (acts : List Action) : List Wire := acts.filterMap Action.relayWire

/-! ### The entry of a packet -/

/-- The router enters the packet of a frame. -/
def Enters (cfg : Config) (s : State cfg) (rx : Rx) (w : Wire) : Prop :=
  turnedAway cfg rx w = false ∧ w.src ≠ cfg.nodeId ∧
    s.cache.fresh? cfg.ttlMs rx.now w.key = none

instance (cfg : Config) (s : State cfg) (rx : Rx) (w : Wire) : Decidable (Enters cfg s rx w) :=
  inferInstanceAs (Decidable (_ ∧ _))

/-- The router enters the packet of a downlink message. -/
def Injection.Enters (cfg : Config) (s : State cfg) (inj : Injection) : Prop :=
  inj.initialized = true ∧ injectIsAdmin inj.mesh.payload = false ∧
    s.cache.check cfg.ttlMs inj.now inj.mesh.key = false

/-- Handling a packet at a time does not lose the entry of the packet `k`: it is not the one
overwritten, and it has not expired when a copy of the packet comes. -/
structure Keeps (cfg : Config) (k : Key) (s : State cfg) (enters : Prop) (handled : Key)
    (now : UInt32) : Prop where
  evicts : enters → (s.cache.cells s.cache.head).key ≠ k
  expires : handled = k → ∀ c, (s.cache.cells c).key = k →
    ¬ (s.cache.cells c).expired cfg.ttlMs now

instance (cfg : Config) (k : Key) (s : State cfg) (enters : Prop) [Decidable enters]
    (handled : Key) (now : UInt32) : Decidable (Keeps cfg k s enters handled now) :=
  decidable_of_iff
    ((enters → (s.cache.cells s.cache.head).key ≠ k) ∧ (handled = k → ∀ c,
      (s.cache.cells c).key = k → ¬ (s.cache.cells c).expired cfg.ttlMs now))
    ⟨fun h => ⟨h.1, h.2⟩, fun h => ⟨h.evicts, h.expires⟩⟩

namespace DupCache

variable {size : Nat} {c c' : DupCache size} {k : Key}

/-- The hop budget of a packet's entry. -/
def budget (c : DupCache size) (k : Key) : Option (Fin 8) :=
  (c.find k).map fun i => (c.cells i).hopLimit

theorem find_congr (h : ∀ i, (c.cells i).key = k ↔ (c'.cells i).key = k) :
    c.find k = c'.find k := by
  unfold find
  congr 1
  funext i
  exact decide_eq_decide.mpr (h i)

theorem budget_congr (h : ∀ i, (c.cells i).key = k ↔ (c'.cells i).key = k)
    (hh : ∀ i, (c.cells i).key = k → (c'.cells i).hopLimit = (c.cells i).hopLimit) :
    c'.budget k = c.budget k := by
  unfold budget
  rw [← find_congr h]
  cases hf : c.find k with
  | none => rfl
  | some i => exact congrArg some (hh i (find_some hf))

theorem budget_markRelayed (c : DupCache size) (k k' : Key) (now : UInt32) (ra : Option UInt8) :
    (c.markRelayed k' now ra).budget k = c.budget k := by
  refine budget_congr (fun i => ?_) fun i _ => (markRelayed_cells c k' now ra i).2
  rw [← (Prod.mk.inj (markRelayed_cells c k' now ra i).1).1]

theorem budget_upgraded {i : Fin size} {hops : Fin 8} (hf : c.find k = some i) :
    (c.setCell i (upgraded (c.cells i) hops)).budget k = some hops := by
  have hkey (j : Fin size) :
      ((c.setCell i (upgraded (c.cells i) hops)).cells j).key = (c.cells j).key := by
    by_cases hj : j = i
    · subst hj
      rw [setCell_self]
      rfl
    · rw [setCell_ne hj]
  have hfind : (c.setCell i (upgraded (c.cells i) hops)).find k = some i :=
    (find_congr fun j => by rw [hkey]).trans hf
  rw [budget, hfind, Option.map_some, setCell_self]
  rfl

theorem budget_upgraded_ne {i : Fin size} {hops : Fin 8} (hk : (c.cells i).key ≠ k) :
    (c.setCell i (upgraded (c.cells i) hops)).budget k = c.budget k := by
  have hcell (j : Fin size) (hj : (c.cells j).key = k) : j ≠ i := by
    rintro rfl
    exact hk hj
  refine budget_congr (fun j => ?_) fun j hj => by rw [setCell_ne (hcell j hj)]
  by_cases hj : j = i
  · subst hj
    rw [setCell_self]
    rfl
  · rw [setCell_ne hj]

section
variable {hops : Fin 8} {attach relayNode : UInt8} {attachRxMs now : UInt32}

theorem add_cell_ne (k' : Key) {j : Fin size} (hj : j ≠ c.head) :
    (c.add k' hops attach relayNode attachRxMs now).cells j = c.cells j :=
  Function.update_of_ne hj ..

theorem budget_add_ne {k' : Key} (hk : k' ≠ k) (hhead : (c.cells c.head).key ≠ k) :
    (c.add k' hops attach relayNode attachRxMs now).budget k = c.budget k := by
  have hcell (j : Fin size) (hj : (c.cells j).key = k) : j ≠ c.head := by
    rintro rfl
    exact hhead hj
  refine budget_congr (fun j => ?_) fun j hj => by rw [add_cell_ne _ (hcell j hj)]
  by_cases hj : j = c.head
  · subst hj
    refine iff_of_false hhead ?_
    simpa [add] using hk
  · rw [add_cell_ne _ hj]

theorem budget_add (hnone : c.find k = none) :
    (c.add k hops attach relayNode attachRxMs now).budget k = some hops := by
  have hself : (c.add k hops attach relayNode attachRxMs now).cells c.head =
      ⟨k, now, 0, hops, attach, relayNode, 0, attachRxMs, false⟩ := Function.update_self ..
  have hfind : (c.add k hops attach relayNode attachRxMs now).find k = some c.head := by
    cases hf : (c.add k hops attach relayNode attachRxMs now).find k with
    | none => exact absurd (by rw [hself]) (find_none.mp hf c.head)
    | some j =>
      by_cases hj : j = c.head
      · rw [hj]
      · have hkey := find_some hf
        rw [add_cell_ne _ hj] at hkey
        exact absurd hkey (find_none.mp hnone j)
  rw [budget, hfind, Option.map_some, hself]

end

theorem fresh?_eq_find {ttlMs now : UInt32}
    (h : ∀ i, (c.cells i).key = k → ¬ (c.cells i).expired ttlMs now) :
    c.fresh? ttlMs now k = c.find k := by
  unfold fresh? find
  congr 1
  funext i
  exact decide_eq_decide.mpr ⟨fun hi => hi.1, fun hi => ⟨hi, h i hi⟩⟩

end DupCache

/-- The relays of a packet that a node has queued are not more than the hop budget of its
entry; without an entry there are none. -/
def Paid (budget : Option (Fin 8)) (n : Nat) : Prop :=
  match budget with
  | some hops => n ≤ hops.val
  | none => n = 0

variable {n : Nat}

theorem Paid.le {budget : Option (Fin 8)} (h : Paid budget n) : n ≤ 7 := by
  cases budget with
  | none =>
    rw [show n = 0 from h]
    exact Nat.zero_le 7
  | some hops => exact le_trans h (Nat.le_of_lt_succ hops.isLt)

/-- The relays of a packet in a list of frames. -/
def countKey (k : Key) (ws : List Wire) : Nat := ws.countP fun w => w.key = k

theorem relaysOf_append (acts acts' : List Action) :
    relaysOf (acts ++ acts') = relaysOf acts ++ relaysOf acts' :=
  filterMap_append ..

theorem relaysOf_plain {acts : List Action} (h : Plain acts) : relaysOf acts = [] := by
  refine filterMap_eq_nil_iff.mpr fun a ha => ?_
  have hp := h a ha
  cases a <;> first | rfl | exact Bool.noConfusion hp

theorem relaysOf_dispatched {k : Key} {ms : Nat} {acts : List Action}
    (h : Dispatched k ms acts) : relaysOf acts = [] := by
  rcases h with h | ⟨before, after, hb, ha, rfl⟩
  · exact relaysOf_plain h
  · rw [relaysOf_append, relaysOf_plain hb, relaysOf, filterMap_cons_none rfl]
    exact relaysOf_plain ha

/-! ### One node -/

section
variable {cfg : Config} {s : State cfg} {rx : Rx} {w : Wire} {k : Key}

theorem relaysOf_relayed {cache : DupCache cfg.size} {r : DupCache cfg.size × List Action}
    (h : Relayed cfg cache rx w r) :
    r.1.budget k = cache.budget k ∧ (relaysOf r.2 = [] ∨
      relaysOf r.2 = [relayed cfg rx.answers w] ∧ w.hopLimit ≠ 0 ∧ w.src ≠ cfg.nodeId) := by
  cases h with
  | held => exact ⟨rfl, .inl rfl⟩
  | sent act ra wire hops notOwn =>
    refine ⟨budget_markRelayed .., .inr ⟨?_, hops, notOwn⟩⟩
    rw [relaysOf, filterMap_cons_some wire]
    rfl

theorem relaysOf_received {out : State cfg × List Action} (h : Received cfg s rx out)
    (hw : rx.wire = some w) :
    relaysOf out.2 = [] ∨
      relaysOf out.2 = [relayed cfg rx.answers w] ∧ w.hopLimit ≠ 0 ∧ w.src ≠ cfg.nodeId := by
  cases h with
  | aside cache plain => exact .inl (relaysOf_plain plain)
  | upgrade wire fresh hops relay plainBefore plainAfter =>
    obtain rfl := Option.mem_unique hw wire
    rw [relaysOf_append, relaysOf_append, relaysOf_plain plainBefore, relaysOf_plain plainAfter,
      append_nil]
    exact (relaysOf_relayed (k := w.key) relay).2
  | first wire admitted notOwn fresh relay dispatched =>
    obtain rfl := Option.mem_unique hw wire
    rw [relaysOf, filterMap_cons_none rfl, filterMap_cons_none rfl]
    change relaysOf _ = [] ∨ relaysOf _ = _ ∧ _
    rw [relaysOf_append, relaysOf_dispatched dispatched]
    exact (relaysOf_relayed (k := w.key) relay).2

theorem countKey_relayed {ws : List Wire}
    (h : ws = [] ∨ ws = [relayed cfg rx.answers w] ∧ w.hopLimit ≠ 0 ∧ w.src ≠ cfg.nodeId) :
    (w.key ≠ k → countKey k ws = 0) ∧ countKey k ws ≤ 1 ∧ (w.hopLimit = 0 → countKey k ws = 0) := by
  rcases h with rfl | ⟨rfl, hops, -⟩
  · exact ⟨fun _ => rfl, Nat.zero_le 1, fun _ => rfl⟩
  refine ⟨fun hne => ?_, countP_le_length, fun hz => absurd hz hops⟩
  have hkey : (relayed cfg rx.answers w).key ≠ k := hne
  exact countP_eq_zero.mpr fun w' hw' => by
    rw [mem_singleton.mp hw', decide_eq_true_eq]
    exact hkey

theorem paid_step {out : State cfg × List Action} (h : Received cfg s rx out)
    (hw : rx.wire = some w) (hk : Keeps cfg k s (Enters cfg s rx w) w.key rx.now)
    (hp : Paid (s.cache.budget k) n) :
    Paid (out.1.cache.budget k) (n + countKey k (relaysOf out.2)) := by
  obtain ⟨hother, hone, hlast⟩ := countKey_relayed (k := k) (relaysOf_received h hw)
  cases h with
  | aside cache plain =>
    rw [relaysOf_plain plain, cache]
    exact hp
  | @upgrade w' i r before after wire fresh hops relay plainBefore plainAfter =>
    obtain rfl := Option.mem_unique hw wire
    rw [(relaysOf_relayed relay).1]
    by_cases hkey : w.key = k
    · subst hkey
      have hfind := (fresh?_eq_find (hk.expires rfl)).symm.trans fresh
      rw [budget, hfind] at hp
      rw [budget_upgraded hfind]
      have hn : n ≤ (s.cache.cells i).hopLimit.val := hp
      change _ ≤ w.hopLimit.val
      omega
    · rw [hother hkey, budget_upgraded_ne]
      · exact hp
      · rw [(fresh?_some fresh).1]
        exact hkey
  | @first w' r mid wire admitted notOwn fresh relay dispatched =>
    obtain rfl := Option.mem_unique hw wire
    rw [(relaysOf_relayed relay).1]
    by_cases hkey : w.key = k
    · subst hkey
      have hfind := (fresh?_eq_find (hk.expires rfl)).symm.trans fresh
      rw [budget, hfind] at hp
      rw [budget_add hfind]
      have hn : n = 0 := hp
      change _ ≤ w.hopLimit.val
      by_cases hz : w.hopLimit = 0
      · rw [hlast hz, hn]
        exact Nat.zero_le _
      · omega
    · rw [hother hkey, budget_add_ne hkey (hk.evicts ⟨admitted, notOwn, fresh⟩)]
      exact hp

theorem injectDownlink_entered (s : State cfg) (inj : Injection) :
    (injectDownlink cfg s inj).2.1 = s ∨
      inj.Enters cfg s ∧ (injectDownlink cfg s inj).2.1 = { s with
        cache := s.cache.add inj.mesh.key (hopBits inj.mesh.hopLimit) 0 0 0 inj.now } := by
  unfold injectDownlink
  split
  · exact .inl rfl
  rename_i hinit
  split
  · exact .inl rfl
  rename_i hopen
  split
  · exact .inl rfl
  rename_i hdup
  refine .inr ⟨⟨?_, Bool.eq_false_of_not_eq_true hopen, Bool.eq_false_of_not_eq_true hdup⟩, ?_⟩
  · simpa using hinit
  · dsimp only
    split
    · rfl
    · split <;> rfl

theorem paid_inject {inj : Injection} (hk : Keeps cfg k s (inj.Enters cfg s) inj.mesh.key inj.now)
    (hp : Paid (s.cache.budget k) n) :
    Paid ((injectDownlink cfg s inj).2.1.cache.budget k) n := by
  rcases injectDownlink_entered s inj with heq | ⟨henters, heq⟩
  · rw [heq]
    exact hp
  rw [heq]
  by_cases hkey : inj.mesh.key = k
  · have hcheck := henters.2.2
    rw [check, decide_eq_false_iff_not, not_not, checkHops_new] at hcheck
    have hfind := hcheck
    rw [fresh?_eq_find fun c hc => hk.expires hkey c (hc.trans hkey)] at hfind
    rw [hkey] at hfind ⊢
    rw [budget, hfind] at hp
    rw [budget_add hfind]
    exact (show n = 0 from hp) ▸ Nat.zero_le _
  · rw [budget_add_ne hkey (hk.evicts henters)]
    exact hp

end

/-- A relay has no more hops left than the copy it relays, and one less if the copy shows no
hop. -/
theorem relayed_hops (cfg : Config) (a : Answers) {w : Wire} (h : w.hopLimit ≠ 0) :
    (relayed cfg a w).hopLimit ≤ w.hopLimit ∧
      (w.straight → (relayed cfg a w).hopLimit < w.hopLimit) := by
  have hlt : w.hopLimit - 1 < w.hopLimit := by
    generalize w.hopLimit = hops at h
    revert hops
    decide
  unfold relayed
  split
  · exact ⟨hlt.le, fun _ => hlt⟩
  · rename_i hdec
    refine ⟨le_refl _, fun hs => absurd ?_ hdec⟩
    rw [relayShouldDecrementHopLimit, if_pos (.inr hs)]

end Zephyrtastic.Router
