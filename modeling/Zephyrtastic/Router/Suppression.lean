import Zephyrtastic.Lib.Run
import Zephyrtastic.Router.Downlink
import Zephyrtastic.Router.Effects

/-!
# Duplicate suppression

A packet that has been seen is new again only after the TTL, or after as many
other packets as the cache has cells.
-/

namespace Zephyrtastic.Router

open List Nat Overwrite Run DupCache State

inductive Event where
  | rx (frame : Rx)
  | inject (message : Injection)

def Event.ms : Event → Nat
  | .rx frame => frame.ms
  | .inject message => message.ms

variable {cfg : Config}

namespace State

def step (s : State cfg) : Event → State cfg × List Action
  | .rx frame => processRx cfg s frame
  | .inject message => (injectDownlink cfg s message).2

/-- The state after a list of events. -/
def after (s : State cfg) (es : List Event) : State cfg := run (fun s e => (s.step e).1) s es

/-- The actions of a list of events. -/
def trace (s : State cfg) : List Event → List Action
  | [] => []
  | e :: es => (s.step e).2 ++ trace (s.step e).1 es

end State

def Action.isRecorded : Action → Bool
  | .recorded _ => true
  | _ => false

/-- An action that enters a packet or hands it to the modules. -/
def Action.enters : Action → Bool
  | .sighted _ _ | .recorded _ | .dispatch _ _ => true
  | _ => false

theorem Action.enters_of_plain {a : Action} (h : a.plain = true) : a.enters = false := by
  cases a <;> first | rfl | exact Bool.noConfusion h

theorem Action.enters_of_relay {a : Action} {w : Wire} (h : a.relayWire = some w) :
    a.enters = false := by
  cases a <;> first | rfl | cases h

/-- Actions that enter nothing. -/
def Quiet (acts : List Action) : Prop := ∀ a ∈ acts, a.enters = false

/-- Actions that hand one packet to the modules, once at most, and enter nothing. -/
def HandsOver (k : Key) (ms : Nat) (acts : List Action) : Prop :=
  (∀ a ∈ acts, a.enters = false ∨ a = .dispatch k ms) ∧ acts.count (.dispatch k ms) ≤ 1

/-- Whatever an event does, it enters a packet that the cache has no fresh entry of, or leaves
the stamps of the cache alone. -/
inductive Sight (s : State cfg) (e : Event) : State cfg × List Action → Prop
  | aside {s' : State cfg} {acts : List Action} (stamps : s'.cache.stamps = s.cache.stamps)
      (head : s'.cache.head = s.cache.head) (quiet : Quiet acts) : Sight s e (s', acts)
  | entered {s' : State cfg} {acts : List Action} (k : Key)
      (fresh : s.cache.fresh? cfg.ttlMs (UInt32.ofNat e.ms) k = none)
      (stamps : s'.cache.stamps =
        Function.update s.cache.stamps s.cache.head (k, UInt32.ofNat e.ms))
      (head : s'.cache.head = DupCache.nextHead s.cache.head)
      (hands : HandsOver k e.ms acts) :
      Sight s e (s', .sighted k e.ms :: .recorded k :: acts)

section
variable {k : Key} {ms : Nat} {acts rest : List Action}

theorem quiet_nil : Quiet [] := fun _ ha => absurd ha not_mem_nil

theorem quiet_of_plain (h : Plain acts) : Quiet acts :=
  fun a ha => Action.enters_of_plain (h a ha)

theorem quiet_append (h : Quiet acts) (h' : Quiet rest) : Quiet (acts ++ rest) :=
  fun a ha => (mem_append.mp ha).elim (h a) (h' a)

theorem Quiet.count_dispatch (h : Quiet acts) (k : Key) (ms : Nat) :
    acts.count (.dispatch k ms) = 0 :=
  count_eq_zero.mpr fun hm => Bool.noConfusion (h _ hm)

theorem Quiet.handsOver (h : Quiet acts) : HandsOver k ms acts :=
  ⟨fun a ha => .inl (h a ha), by rw [h.count_dispatch]; exact zero_le 1⟩

theorem HandsOver.append (h : HandsOver k ms acts) (h' : Quiet rest) :
    HandsOver k ms (acts ++ rest) := by
  refine ⟨fun a ha => (mem_append.mp ha).elim (h.1 a) fun hr => .inl (h' a hr), ?_⟩
  rw [count_append, h'.count_dispatch]
  exact h.2

theorem HandsOver.prepend (h : HandsOver k ms acts) (h' : Quiet rest) :
    HandsOver k ms (rest ++ acts) := by
  refine ⟨fun a ha => (mem_append.mp ha).elim (fun hr => .inl (h' a hr)) (h.1 a), ?_⟩
  rw [count_append, h'.count_dispatch, zero_add]
  exact h.2

theorem HandsOver.countP_recorded (h : HandsOver k ms acts) :
    acts.countP Action.isRecorded = 0 := by
  refine countP_eq_zero.mpr fun a hm hr => ?_
  cases a <;> first | exact Bool.noConfusion hr | skip
  rcases h.1 _ hm with he | he
  · exact Bool.noConfusion he
  · cases he

theorem Quiet.countP_recorded (h : Quiet acts) : acts.countP Action.isRecorded = 0 := by
  have hands : HandsOver ⟨0, 0⟩ 0 acts := h.handsOver
  exact hands.countP_recorded

theorem Dispatched.handsOver (h : Dispatched k ms acts) : HandsOver k ms acts := by
  rcases h with h | ⟨before, after, hb, ha, rfl⟩
  · exact (quiet_of_plain h).handsOver
  · have hone : HandsOver k ms [.dispatch k ms] :=
      ⟨fun a hm => .inr (mem_singleton.mp hm), by simp⟩
    exact (hone.append (quiet_of_plain ha)).prepend (quiet_of_plain hb)

end

theorem Relayed.stamps {cache : DupCache cfg.size} {rx : Rx} {w : Wire}
    {r : DupCache cfg.size × List Action} (h : Relayed cfg cache rx w r) :
    r.1.stamps = cache.stamps ∧ r.1.head = cache.head ∧ Quiet r.2 := by
  cases h with
  | held => exact ⟨rfl, rfl, quiet_nil⟩
  | sent act ra wire _ _ =>
    refine ⟨markRelayed_stamps .., markRelayed_head .., fun a ha => ?_⟩
    rw [mem_singleton.mp ha]
    exact Action.enters_of_relay wire

theorem rx_sight (s : State cfg) (rx : Rx) : Sight s (.rx rx) (processRx cfg s rx) := by
  have h := processRx_received cfg s rx
  generalize processRx cfg s rx = out at h ⊢
  cases h with
  | aside cache plain => exact .aside (by rw [cache]) (by rw [cache]) (quiet_of_plain plain)
  | upgrade wire fresh hops relay plainBefore plainAfter =>
    obtain ⟨hs, hh, hq⟩ := relay.stamps
    exact .aside (hs.trans (setCell_stamps rfl)) hh
      (quiet_append (quiet_append (quiet_of_plain plainBefore) hq) (quiet_of_plain plainAfter))
  | @first w r mid wire admitted notOwn fresh relay dispatched =>
    obtain ⟨hs, hh, hq⟩ := relay.stamps
    rw [add_stamps] at hs
    exact Sight.entered (e := .rx rx) w.key fresh hs hh (dispatched.handsOver.append hq)

theorem injectLocal_dispatched (s : State cfg) (inj : Injection) :
    Dispatched inj.mesh.key inj.ms (injectLocal cfg s inj).2 := by
  have hdeliver (d : Data) : Dispatched inj.mesh.key inj.ms (injectDeliver cfg s inj d) := by
    unfold injectDeliver
    split
    · exact handleDecoded_dispatched ..
    · exact .inl allOf_nil
  unfold injectLocal
  split
  · exact hdeliver _
  split
  · exact .inl allOf_nil
  · split
    · exact .inl allOf_nil
    · exact hdeliver _

theorem inject_sight (s : State cfg) (inj : Injection) :
    Sight s (.inject inj) (injectDownlink cfg s inj).2 := by
  unfold injectDownlink
  split
  · exact .aside rfl rfl quiet_nil
  split
  · exact .aside rfl rfl quiet_nil
  split
  · exact .aside rfl rfl quiet_nil
  rename_i hdup
  have hfresh : s.cache.fresh? cfg.ttlMs inj.now inj.mesh.key = none := by
    simp only [check, ne_eq, decide_not, Bool.not_eq_true', decide_eq_false_iff_not,
      not_not] at hdup
    exact checkHops_new.mp hdup
  have hentered {acts : List Action} (h : HandsOver inj.mesh.key inj.ms acts) :
      Sight s (.inject inj) ({ s with
          cache := s.cache.add inj.mesh.key (hopBits inj.mesh.hopLimit) 0 0 0 inj.now },
        .sighted inj.mesh.key inj.ms :: .recorded inj.mesh.key :: acts) :=
    Sight.entered (e := .inject inj) inj.mesh.key hfresh (add_stamps ..) rfl h
  have hsent (w : Wire) : Quiet [.transmit w] := fun a ha => by rw [mem_singleton.mp ha]; rfl
  rcases injectRelay cfg inj with _ | (e | w) <;> dsimp only
  · split
    · exact hentered (injectLocal_dispatched ..).handsOver
    · exact hentered quiet_nil.handsOver
  · exact hentered quiet_nil.handsOver
  · split
    · exact hentered ((injectLocal_dispatched ..).handsOver.prepend (hsent w))
    · exact hentered (hsent w).handsOver

theorem step_sight (s : State cfg) (e : Event) : Sight s e (s.step e) := by
  cases e with
  | rx frame => exact rx_sight s frame
  | inject message => exact inject_sight s message

/-! ### The ring -/

/-- The number of cells the head goes round. -/
def Config.period (cfg : Config) : Nat := min cfg.size 256

theorem Config.period_pos (cfg : Config) : 0 < cfg.period :=
  lt_min cfg.size_pos (by decide)

/-- The cache after the packets of a log were entered. -/
structure Held (s : State cfg) (log : List (Key × UInt32)) : Prop where
  head : s.cache.head.val = log.length % cfg.period
  recent : Recent cfg.period s.cache.stamps log

theorem nextHead_val {h : Fin cfg.size} {n : Nat} (hh : h.val = n % cfg.period) :
    (nextHead h).val = (n + 1) % cfg.period := by
  have hlt : h.val < cfg.period := hh ▸ mod_lt _ cfg.period_pos
  rw [← mod_add_mod, ← hh]
  change (h.val + 1) % cfg.size % 256 = _
  rcases le_total cfg.size 256 with hle | hle
  · rw [Config.period, min_eq_left hle]
    exact mod_eq_of_lt (lt_of_lt_of_le (mod_lt _ cfg.size_pos) hle)
  rw [Config.period, min_eq_right hle] at hlt ⊢
  rcases hle.eq_or_lt with he | hless
  · exact mod_mod_of_dvd _ (dvd_of_eq he)
  · rw [mod_eq_of_lt (by omega : h.val + 1 < cfg.size)]

theorem held_init (cfg : Config) : Held (init cfg) [] :=
  ⟨(zero_mod _).symm, recent_nil _ _⟩

variable {s : State cfg}
variable {log : List (Key × UInt32)}

theorem Held.step (h : Held s log) (e : Event) :
    ∃ new, Held (s.step e).1 (log ++ new) ∧ new.length = (s.step e).2.countP Action.isRecorded := by
  have hs := step_sight s e
  generalize s.step e = out at hs ⊢
  cases hs with
  | aside stamps head quiet =>
    refine ⟨[], ?_, quiet.countP_recorded.symm⟩
    rw [append_nil]
    exact ⟨by rw [head]; exact h.head, by rw [stamps]; exact h.recent⟩
  | entered k fresh stamps head hands =>
    refine ⟨[(k, UInt32.ofNat e.ms)], ⟨?_, ?_⟩, ?_⟩
    · rw [head, nextHead_val h.head, length_append, length_singleton]
    · rw [stamps]
      exact h.recent.write h.head _
    · rw [countP_cons_of_neg Bool.false_ne_true, countP_cons_of_pos rfl, hands.countP_recorded]
      rfl

theorem Held.run (h : Held s log) (es : List Event) :
    ∃ new, Held (s.after es) (log ++ new) ∧ new.length = (s.trace es).countP Action.isRecorded := by
  induction es generalizing s log with
  | nil => exact ⟨[], by rwa [append_nil], rfl⟩
  | cons e es ih =>
    obtain ⟨new, hnew, hlen⟩ := h.step e
    obtain ⟨more, hmore, hlen'⟩ := ih hnew
    refine ⟨new ++ more, by rwa [append_assoc] at hmore, ?_⟩
    rw [length_append, hlen, hlen', trace, countP_append]

/-! ### Two sightings -/

variable {k : Key}

theorem sighted_entered {e : Event} {ms : Nat} (h : .sighted k ms ∈ (s.step e).2) :
    s.cache.fresh? cfg.ttlMs (UInt32.ofNat e.ms) k = none ∧
      (s.step e).1.cache.stamps =
        Function.update s.cache.stamps s.cache.head (k, UInt32.ofNat e.ms) ∧
      (s.step e).1.cache.head = nextHead s.cache.head := by
  have hs := step_sight s e
  generalize s.step e = out at hs h ⊢
  cases hs with
  | aside stamps head quiet => exact Bool.noConfusion (quiet _ h)
  | entered k' fresh stamps head hands =>
    have hk : k = k' := by
      rcases mem_cons.mp h with heq | hmem
      · exact (Action.sighted.inj heq).1
      rcases mem_cons.mp hmem with heq | hrest
      · cases heq
      · rcases hands.1 _ hrest with hq | hq
        · exact Bool.noConfusion hq
        · cases hq
    subst hk
    exact ⟨fresh, stamps, head⟩

theorem Held.sighted {e : Event} {ms : Nat} (hl : Held s log) (h : .sighted k ms ∈ (s.step e).2) :
    Held (s.step e).1 (log ++ [(k, UInt32.ofNat e.ms)]) := by
  obtain ⟨-, stamps, head⟩ := sighted_entered h
  refine ⟨?_, ?_⟩
  · rw [head, nextHead_val hl.head, length_append, length_singleton]
  · rw [stamps]
    exact hl.recent.write hl.head _

theorem dispatch_sighted {e : Event} {ms : Nat} (h : .dispatch k ms ∈ (s.step e).2) :
    .sighted k ms ∈ (s.step e).2 ∧ (s.step e).2.count (.dispatch k ms) ≤ 1 := by
  have hs := step_sight s e
  generalize s.step e = out at hs h ⊢
  cases hs with
  | aside stamps head quiet => exact Bool.noConfusion (quiet _ h)
  | entered k' fresh stamps head hands =>
    have hmem := (mem_cons.mp ((mem_cons.mp h).resolve_left nofun)).resolve_left nofun
    rcases hands.1 _ hmem with hq | heq
    · exact Bool.noConfusion hq
    · obtain ⟨rfl, rfl⟩ := Action.dispatch.inj heq
      simpa using hands.2

/-- The age that the router reads off the clock is not more than the real one. -/
theorem age_le {t₁ t₂ : Nat} (h : t₁ ≤ t₂) :
    (UInt32.ofNat t₂ - UInt32.ofNat t₁).toNat ≤ t₂ - t₁ := by
  have hsub : UInt32.ofNat t₂ - UInt32.ofNat t₁ = UInt32.ofNat (t₂ - t₁) := by
    have ht : t₂ = (t₂ - t₁) + t₁ := by omega
    conv_lhs => rw [ht, UInt32.ofNat_add, UInt32.add_sub_cancel]
  rw [hsub]
  exact mod_le _ _

theorem Config.ttlMs_toNat (cfg : Config) : cfg.ttlMs.toNat = cfg.dedupTtlSec.toNat * 1000 := by
  have h := cfg.dedupTtlSec.toNat_lt
  rw [Config.ttlMs, UInt32.toNat_ofNat', mod_eq_of_lt (by omega)]

/-- More than the TTL has passed, or the cache has taken in as many other packets as it has
cells. -/
def Apart (cfg : Config) (t₁ t₂ : Nat) (between : List Action) : Prop :=
  (cfg.dedupTtlSec ≠ 0 ∧ t₁ + cfg.dedupTtlSec.toNat * 1000 < t₂) ∨
    cfg.size ≤ between.countP Action.isRecorded

/-- An entry that the last `period` packets have not pushed out is there to be found. -/
theorem expired_of_new {more : List (Key × UInt32)} {t₁ : Nat} {now : UInt32}
    (h : Held s (log ++ [(k, UInt32.ofNat t₁)] ++ more))
    (hlen : more.length < cfg.period) (hnew : s.cache.fresh? cfg.ttlMs now k = none) :
    cfg.ttlMs ≠ 0 ∧ cfg.ttlMs < now - UInt32.ofNat t₁ := by
  have hcell : log.length % cfg.period < cfg.size :=
    lt_of_lt_of_le (mod_lt _ cfg.period_pos) (min_le_left _ _)
  have hget := h.recent log.length ⟨log.length % cfg.period, hcell⟩
    (by simp) (by simp; omega) rfl
  rw [append_assoc, getElem?_append_right (le_refl _), Nat.sub_self] at hget
  have hstamp : (s.cache.cells ⟨log.length % cfg.period, hcell⟩).stamp = (k, UInt32.ofNat t₁) :=
    (Option.some.inj hget).symm
  obtain ⟨hkey, hms⟩ := Prod.mk.inj hstamp
  have hexp := fresh?_none.mp hnew _ hkey
  rw [DupEntry.expired, hms] at hexp
  exact hexp

/-- Two sightings of a packet are apart, and so are two deliveries to the modules; one event
delivers a packet once at most. -/
theorem duplicates_suppressed (cfg : Config) (hsize : cfg.size ≤ 256) (done between : List Event)
    (e₁ e₂ : Event) (htime : e₁.ms ≤ e₂.ms) (k : Key) (t₁ t₂ : Nat) :
    let s₁ := (State.init cfg).after done
    let s₂ := (s₁.step e₁).1.after between
    (.sighted k t₁ ∈ (s₁.step e₁).2 → .sighted k t₂ ∈ (s₂.step e₂).2 →
      Apart cfg e₁.ms e₂.ms ((s₁.step e₁).1.trace between)) ∧
    (.dispatch k t₁ ∈ (s₁.step e₁).2 → .dispatch k t₂ ∈ (s₂.step e₂).2 →
      Apart cfg e₁.ms e₂.ms ((s₁.step e₁).1.trace between)) ∧
    (.dispatch k t₁ ∈ (s₁.step e₁).2 → (s₁.step e₁).2.count (.dispatch k t₁) = 1) := by
  intro s₁ s₂
  have happart (h₁ : .sighted k t₁ ∈ (s₁.step e₁).2) (h₂ : .sighted k t₂ ∈ (s₂.step e₂).2) :
      Apart cfg e₁.ms e₂.ms ((s₁.step e₁).1.trace between) := by
    obtain ⟨log, hlog, -⟩ := (held_init cfg).run done
    obtain ⟨more, hmore, hlen⟩ := (hlog.sighted h₁).run between
    rcases lt_or_ge more.length cfg.size with hlt | hge
    · left
      have hperiod : cfg.period = cfg.size := min_eq_left hsize
      obtain ⟨hne, hage⟩ := expired_of_new hmore (by rwa [hperiod]) (sighted_entered h₂).1
      have hreal := age_le htime
      rw [UInt32.lt_iff_toNat_lt, Config.ttlMs_toNat] at hage
      refine ⟨?_, by omega⟩
      intro hz
      apply hne
      rw [Config.ttlMs, hz]
      rfl
    · right
      rwa [← hlen]
  refine ⟨happart, fun h₁ h₂ => ?_, fun h => ?_⟩
  · exact happart (dispatch_sighted h₁).1 (dispatch_sighted h₂).1
  · exact le_antisymm (dispatch_sighted h).2 (count_pos_iff.mpr h)

/-! ### The entry that `dup_find` points at -/

/-- A packet was entered in a cell, and others since; the clean cells have no entry of it. -/
structure Live (clean : Fin cfg.size → Prop) (s : State cfg) (k : Key) (ms : UInt32)
    (cell : Fin cfg.size) (others : Nat) : Prop where
  head : s.cache.head.val = (cell.val + (others + 1)) % cfg.period
  stamp : s.cache.stamps cell = (k, ms)
  only : ∀ i, clean i → (s.cache.stamps i).1 ≠ k

section
variable {clean : Fin cfg.size → Prop} {ms : UInt32} {cell : Fin cfg.size} {n : Nat}

section
variable (h : Live clean s k ms cell n)
include h

theorem Live.step (hsize : cfg.size ≤ 256) (e : Event)
    (hroom : n + (s.step e).2.countP Action.isRecorded < cfg.size)
    (hother : ∀ t, .sighted k t ∉ (s.step e).2) :
    Live clean (s.step e).1 k ms cell (n + (s.step e).2.countP Action.isRecorded) := by
  have hs := step_sight s e
  generalize s.step e = out at hs hroom hother ⊢
  cases hs with
  | aside stamps head quiet =>
    rw [quiet.countP_recorded]
    exact ⟨by rw [head]; exact h.head, by rw [stamps]; exact h.stamp, by rw [stamps]; exact h.only⟩
  | entered k' fresh stamps head hands =>
    have hk : k' ≠ k := by
      rintro rfl
      exact hother _ mem_cons_self
    rw [countP_cons_of_neg Bool.false_ne_true, countP_cons_of_pos rfl,
      hands.countP_recorded] at hroom ⊢
    have hperiod : cfg.period = cfg.size := min_eq_left hsize
    -- the head has not come round to the cell
    have hne : cell ≠ s.cache.head := by
      intro hc
      have hcell : cell.val = cell.val % cfg.period := by
        rw [hperiod, mod_eq_of_lt cell.isLt]
      have hmod := h.head
      rw [← hc, hcell] at hmod
      exact mod_ne (by omega) (by omega) hmod
    refine ⟨?_, ?_, fun i hi => ?_⟩
    · rw [head]
      exact nextHead_val h.head
    · rw [stamps, Function.update_of_ne hne]
      exact h.stamp
    · rw [stamps]
      by_cases hh : i = s.cache.head
      · rw [hh, Function.update_self]
        exact hk
      · rw [Function.update_of_ne hh]
        exact h.only i hi

theorem Live.run (hsize : cfg.size ≤ 256) (es : List Event)
    (hroom : n + (s.trace es).countP Action.isRecorded < cfg.size)
    (hother : ∀ t, .sighted k t ∉ s.trace es) :
    Live clean (s.after es) k ms cell (n + (s.trace es).countP Action.isRecorded) := by
  induction es generalizing s n with
  | nil => exact h
  | cons e es ih =>
    rw [trace, countP_append, ← add_assoc] at hroom ⊢
    have hstep := h.step hsize e (by omega) fun t ht => hother t (mem_append_left _ ht)
    exact ih hstep hroom fun t ht => hother t (mem_append_right _ ht)

end

theorem Live.find (h : Live (· < cell) s k ms cell n) : s.cache.find k = some cell := by
  rw [DupCache.find, find?_eq_some_iff_getElem]
  refine ⟨decide_eq_true (congrArg Prod.fst h.stamp), cell, by simp, by simp, fun j hj => ?_⟩
  have hkey : (s.cache.cells ⟨j, hj.trans cell.isLt⟩).key ≠ k := h.only _ hj
  simpa using hkey

theorem Live.fresh? (h : Live (· ≠ cell) s k ms cell n) {ttlMs now : UInt32} {i : Fin cfg.size}
    (hf : s.cache.fresh? ttlMs now k = some i) : i = cell := by
  by_contra hne
  exact h.only i hne (fresh?_some hf).1

end

/-! ### A ring larger than its head can count -/

/-- A frame from the radio that nobody here can decode, on its last hop. -/
def strangeFrame (k : Key) : Event :=
  .rx (.heard .lora (some ⟨broadcast, k.src, k.id, 0, false, false, 0, 0x5a, 0, 0, []⟩) 0
    plainAnswers)

theorem step_strangeFrame (hb : k.src ≠ broadcast)
    (hown : k.src ≠ cfg.nodeId) (hnew : s.cache.fresh? cfg.ttlMs 0 k = none) :
    (s.step (strangeFrame k)).1.cache = s.cache.add k 0 0 0 0 0 ∧
      .sighted k 0 ∈ (s.step (strangeFrame k)).2 ∧
      (s.step (strangeFrame k)).2.countP Action.isRecorded = 1 := by
  have hcheck : s.cache.checkHops cfg.ttlMs 0 k 0 true = (.new, s.cache) := by
    rw [checkHops, hnew]
  have hk : (⟨k.src, k.id⟩ : Key) = k := rfl
  simp [step, strangeFrame, Rx.heard, processRx, turnedAway, plainAnswers, hb, hown,
    lookedUp, Rx.now, Wire.key, hk, hcheck, firstSight, handleInbound, inboundPasses,
    suppressRelay, Decode.data, relayOk, sniffRebroadcast, mayRebroadcast, inboundActs,
    rxAirtimeLog, decodeFailed, noteSignal, Bearer.isRf]
  rfl

/-- The cache after strange frames with these keys, and no other events. -/
structure Swept (s : State cfg) (ks : List Key) : Prop where
  held : Held s (ks.map fun k => (k, 0))
  only : Only cfg.period (fun _ => (⟨0, 0⟩, 0)) s.cache.stamps (ks.map fun k => (k, 0))

variable {ks : List Key}

theorem Swept.new (h : Swept s ks) (hz : k ≠ ⟨0, 0⟩)
    (hk : ∀ i, ks.length ≤ i + cfg.period → ks[i]? ≠ some k) :
    s.cache.fresh? cfg.ttlMs 0 k = none := by
  refine fresh?_none.mpr fun c hc => absurd hc ?_
  have hstamp : (s.cache.cells c).key = (s.cache.stamps c).1 := rfl
  rw [hstamp]
  rcases h.only c with hzero | ⟨i, hi, hlen, -, hget⟩
  · rw [hzero]
    exact Ne.symm hz
  rw [length_map] at hi hlen
  rw [getElem?_map] at hget
  obtain ⟨k', hk', heq⟩ := Option.map_eq_some_iff.mp hget
  rw [← heq]
  rintro rfl
  exact hk i hlen hk'

theorem Swept.step (h : Swept s ks) (hb : k.src ≠ broadcast) (hown : k.src ≠ cfg.nodeId)
    (hnew : s.cache.fresh? cfg.ttlMs 0 k = none) :
    Swept (s.step (strangeFrame k)).1 (ks ++ [k]) := by
  obtain ⟨hcache, hsighted, -⟩ := step_strangeFrame hb hown hnew
  have hmap : (ks ++ [k]).map (fun k => (k, (0 : UInt32))) =
      ks.map (fun k => (k, 0)) ++ [(k, 0)] := map_append
  refine ⟨?_, ?_⟩
  · rw [hmap]
    exact h.held.sighted hsighted
  · rw [hmap, hcache, add_stamps]
    exact h.only.write cfg.period_pos h.held.head _

theorem swept_init (cfg : Config) : Swept (init cfg) [] :=
  ⟨held_init cfg, only_nil _ _⟩

theorem Swept.all (h : Swept s ks) {more : List Key}
    (hkeys : ∀ k ∈ more, k ≠ ⟨0, 0⟩ ∧ k.src ≠ broadcast ∧ k.src ≠ cfg.nodeId)
    (hn : (ks ++ more).Nodup) :
    Swept (s.after (more.map strangeFrame)) (ks ++ more) ∧
      (s.trace (more.map strangeFrame)).countP Action.isRecorded = more.length := by
  induction more generalizing s ks with
  | nil => exact ⟨by rwa [append_nil], rfl⟩
  | cons k more ih =>
    obtain ⟨hz, hb, hown⟩ := hkeys k mem_cons_self
    have hk : k ∉ ks := by
      intro hm
      rw [nodup_append] at hn
      exact hn.2.2 k hm k mem_cons_self rfl
    have hnew := h.new hz fun i _ hi => hk (mem_of_getElem? hi)
    rw [append_cons] at hn ⊢
    obtain ⟨hswept, hcount⟩ := ih (h.step hb hown hnew)
      (fun k' hk' => hkeys k' (mem_cons_of_mem _ hk')) hn
    refine ⟨hswept, ?_⟩
    rw [map_cons, trace, countP_append, hcount,
      (step_strangeFrame hb hown hnew).2.2, length_cons, add_comm]

/-- A build with one cell more than the head of the ring can count. -/
def wideNode : Config := ⟨0x11, false, false, 600, 257, by decide⟩

def nthKey (i : Nat) : Key := ⟨UInt32.ofNat (0x100 + i), 1⟩

theorem nthKey_inj {i j : Nat} (hi : i < 2 ^ 31) (hj : j < 2 ^ 31) (h : nthKey i = nthKey j) :
    i = j := by
  have hsrc : (nthKey i).src.toNat = (nthKey j).src.toNat := by rw [h]
  simp only [nthKey, UInt32.toNat_ofNat'] at hsrc
  omega

theorem nthKeys_nodup {n : Nat} (hn : n < 2 ^ 31) :
    ([nthKey 0] ++ (range n).map fun i => nthKey (i + 1)).Nodup := by
  have hrange : [nthKey 0] ++ (range n).map (fun i => nthKey (i + 1)) =
      (range (n + 1)).map nthKey := by
    rw [range_succ_eq_map, map_cons, map_map]
    rfl
  rw [hrange]
  refine nodup_range.map_on fun i hi j hj heq => nthKey_inj ?_ ?_ heq
  · have := mem_range.mp hi
    omega
  · have := mem_range.mp hj
    omega

/-- With 257 cells, a packet is new again after 256 others, at the same time. -/
theorem wide_ring_forgets :
    let s₁ := State.init wideNode
    let e := strangeFrame (nthKey 0)
    let between := ((List.range 256).map fun i => nthKey (i + 1)).map strangeFrame
    .sighted (nthKey 0) 0 ∈ (s₁.step e).2 ∧
      .sighted (nthKey 0) 0 ∈ (((s₁.step e).1.after between).step e).2 ∧
      ¬ Apart wideNode e.ms e.ms ((s₁.step e).1.trace between) := by
  intro s₁ e between
  have hz : nthKey 0 ≠ ⟨0, 0⟩ := by decide
  have hb : (nthKey 0).src ≠ broadcast := by decide
  have hown : (nthKey 0).src ≠ wideNode.nodeId := by decide
  have hfirst := (swept_init wideNode).new hz fun i _ => by simp
  have hone : Swept (s₁.step e).1 [nthKey 0] := (swept_init wideNode).step hb hown hfirst
  have hkeys : ∀ k ∈ (range 256).map (fun i => nthKey (i + 1)),
      k ≠ ⟨0, 0⟩ ∧ k.src ≠ broadcast ∧ k.src ≠ wideNode.nodeId := by
    decide +kernel
  have hn : ([nthKey 0] ++ (range 256).map fun i => nthKey (i + 1)).Nodup :=
    nthKeys_nodup (by decide)
  obtain ⟨hswept, hcount⟩ := hone.all hkeys hn
  have hagain := hswept.new hz fun i hi hget => by
    -- the first of the 257 keys is one too old
    have hpos : i ≠ 0 := by
      rw [length_append, length_map, length_range] at hi
      rintro rfl
      exact absurd hi (by decide)
    obtain ⟨j, rfl⟩ := exists_eq_succ_of_ne_zero hpos
    have hmem : nthKey 0 ∈ (range 256).map fun i => nthKey (i + 1) :=
      mem_of_getElem? hget
    exact (nodup_cons.mp hn).1 hmem
  refine ⟨(step_strangeFrame hb hown hfirst).2.1, (step_strangeFrame hb hown hagain).2.1, ?_⟩
  rintro (⟨-, hlt⟩ | hle)
  · exact absurd hlt (by decide)
  · rw [hcount, length_map, length_range] at hle
    exact absurd hle (by decide)

/-- Two copies of one frame on a node with a small cache, seconds apart: the second is not
new. -/
theorem duplicates_suppressed_soon :
    let s₁ := (State.init gatewayNode).after []
    let s₂ := (s₁.step (strangeFrame (nthKey 0))).1.after []
    .sighted (nthKey 0) 0 ∈ (s₁.step (strangeFrame (nthKey 0))).2 ∧
      .sighted (nthKey 0) 0 ∉ (s₂.step (strangeFrame (nthKey 0))).2 := by
  intro s₁ s₂
  have hfirst : .sighted (nthKey 0) 0 ∈ (s₁.step (strangeFrame (nthKey 0))).2 := by decide +kernel
  refine ⟨hfirst, fun hagain => ?_⟩
  have h := (duplicates_suppressed gatewayNode (by decide) [] [] (strangeFrame (nthKey 0))
    (strangeFrame (nthKey 0)) (le_refl _) (nthKey 0) 0 0).1 hfirst hagain
  rcases h with ⟨-, hlt⟩ | hle
  · exact absurd hlt (by decide)
  · exact absurd hle (by decide)

/-- **`dup_find` points at the entry of the last sighting** while fewer packets than the cache has
cells were entered since, if no cell of lower index had an entry of the packet. So does a lookup
that finds a fresh one, if no other cell had one. -/
theorem found_where_entered (cfg : Config) (hsize : cfg.size ≤ 256) (s : State cfg) (e : Event)
    (between : List Event) (k : Key) (t : Nat) (hnew : .sighted k t ∈ (s.step e).2)
    (hlast : ∀ t', .sighted k t' ∉ (s.step e).1.trace between)
    (hroom : ((s.step e).1.trace between).countP Action.isRecorded < cfg.size) :
    let cache := ((s.step e).1.after between).cache
    cache.stamps s.cache.head = (k, UInt32.ofNat e.ms) ∧
      ((∀ i < s.cache.head, (s.cache.cells i).key ≠ k) → cache.find k = some s.cache.head) ∧
      ((∀ i ≠ s.cache.head, (s.cache.cells i).key ≠ k) →
        ∀ now i, cache.fresh? cfg.ttlMs now k = some i → i = s.cache.head) := by
  have live {clean : Fin cfg.size → Prop} (hne : ∀ i, clean i → i ≠ s.cache.head)
      (honly : ∀ i, clean i → (s.cache.cells i).key ≠ k) :
      Live clean (s.step e).1 k (UInt32.ofNat e.ms) s.cache.head 0 := by
    obtain ⟨-, stamps, head⟩ := sighted_entered hnew
    refine ⟨?_, by rw [stamps, Function.update_self], fun i hi => ?_⟩
    · rw [head]
      refine nextHead_val (n := s.cache.head.val) ?_
      rw [Config.period, min_eq_left hsize, mod_eq_of_lt s.cache.head.isLt]
    · rw [stamps, Function.update_of_ne (hne i hi)]
      exact honly i hi
  rw [← Nat.zero_add (countP ..)] at hroom
  have hany : Live (fun _ => False) (s.step e).1 k _ s.cache.head 0 := live nofun nofun
  exact ⟨(hany.run hsize between hroom hlast).stamp,
    fun h => ((live (fun _ => ne_of_lt) h).run hsize between hroom hlast).find,
    fun h now i => ((live (fun _ => id) h).run hsize between hroom hlast).fresh?⟩

/-- A copy of one flooded packet. -/
def copyAt (ms : Nat) : Event :=
  .rx (.heard .lora (some ⟨broadcast, 0x44, 7, 3, false, false, 3, 8, 0, 0, []⟩) ms plainAnswers)

/-- The first copy. -/
theorem found_where_entered_first :
    let s := init gatewayNode
    (s.step (copyAt 0)).1.cache.find ⟨0x44, 7⟩ = some s.cache.head :=
  (found_where_entered gatewayNode (by decide) (init gatewayNode) (copyAt 0) [] ⟨0x44, 7⟩ 0
    (by decide +kernel) (fun _ => not_mem_nil) (by decide)).2.1 (by decide)

/-- A packet that comes again after the TTL is entered anew, in the next cell; the relay of it is
marked on the expired entry. -/
theorem relay_marked_on_expired :
    let s := (init gatewayNode).after [copyAt 0]
    let cache := (s.step (copyAt 700000)).1.cache
    .sighted ⟨0x44, 7⟩ 700000 ∈ (s.step (copyAt 700000)).2 ∧
      cache.find ⟨0x44, 7⟩ ≠ some s.cache.head ∧
      cache.fresh? gatewayNode.ttlMs 700000 ⟨0x44, 7⟩ = some s.cache.head ∧
      (cache.entry ⟨0x44, 7⟩).map (·.relayedMs) = some 700000 ∧
      (cache.cells s.cache.head).relayed = false := by
  decide +kernel

end Zephyrtastic.Router
