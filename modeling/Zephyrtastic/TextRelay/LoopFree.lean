import Zephyrtastic.Lib.Run
import Zephyrtastic.TextRelay.Relay

/-!
# Relays that hear each other

Any number of relays, and every text that was ever sent: those somebody wrote and
those a relay sent again.
-/

namespace Zephyrtastic.TextRelay

open Function List Run
open Channels (Table)

/-- A text on the air. -/
structure Sent where
  src : UInt32
  text : Bytes
  /-- The number of the text that somebody wrote and this one comes from. -/
  root : Nat
  deriving DecidableEq, Repr

/-- What an operator does to a relay. -/
inductive Control where
  | setDirection (dir : Dir)
  | ignoreAdd (node : UInt32)
  | ignoreClear
  | reset
  /-- A restart, with the saved direction and ignore list. -/
  | restart (dir : Dir) (ignore : List UInt32)
  deriving DecidableEq, Repr

namespace Control

def apply {lim : Limits} (s : State lim) : Control → State lim
  | .setDirection dir => match s.setDirection dir with
    | .ok s' => s'
    | .error _ => s
  | .ignoreAdd node => match s.ignoreAdd node with
    | .ok s' => s'
    | .error _ => s
  | .ignoreClear => s.ignoreClear
  | .reset => .boot lim
  | .restart dir ignore => (State.boot lim).restore dir ignore

/-- The jobs that wait are lost: `k_msgq_purge`, or the memory is. -/
def purges : Control → Bool
  | .reset | .restart _ _ => true
  | _ => false

end Control

/-- The relays, their queues, and the texts on the air. -/
structure Net {ι : Type} (lim : ι → Limits) where
  relay : (i : ι) → State (lim i)
  /-- Each job with the text it comes from. -/
  queue : ι → List (Job × Nat)
  sent : List Sent
  /-- Every text a relay has ever queued, by the text it comes from. -/
  relayed : List (ι × Nat)

inductive Event (ι : Type) where
  /-- Somebody writes a text. -/
  | original (src : UInt32) (text : Bytes)
  /-- A text on the air reaches a relay, with the rest of its frame, the channels of the relay
  and the time. -/
  | hand (i : ι) (j : Nat) (rx : Rx) (table : Table) (now : Int)
  /-- `relay_work_fn` takes a job, and the radio takes it or not. -/
  | work (i : ι) (taken : Bool)
  | control (i : ι) (c : Control)

/-- The event hands a text to a relay. -/
def Event.hands {ι : Type} [DecidableEq ι] (i : ι) (o : Nat) : Event ι → Bool
  | .hand i' j _ _ _ => i' = i && j = o
  | _ => false

namespace Net

variable {ι : Type} [DecidableEq ι] {lim : ι → Limits}

def init (lim : ι → Limits) : Net lim := ⟨fun i => .boot (lim i), fun _ => [], [], []⟩

section
variable (node : ι → UInt32)

/-- What a relay is handed of a text, and what it knows of the node. -/
def onHand (net : Net lim) (i : ι) (p : Sent) (rx : Rx) (table : Table) (now : Int) :
    Verdict × State (lim i) :=
  (net.relay i).onRx ⟨node i, table, now, (net.queue i).length < (lim i).queueSize⟩
    { rx with src := p.src, payload := p.text }

/-- A text reaches a relay. -/
def hand (net : Net lim) (i : ι) (p : Sent) (rx : Rx) (table : Table) (now : Int) : Net lim :=
  let out := net.onHand node i p rx table now
  let net := { net with relay := update net.relay i out.2 }
  match out.1 with
  | .refused _ => net
  | .relayed job _ =>
    { net with
      queue := update net.queue i (net.queue i ++ [(job, p.root)])
      relayed := net.relayed ++ [(i, p.root)] }

def step (net : Net lim) : Event ι → Net lim
  | .original src text => { net with sent := net.sent ++ [⟨src, text, net.sent.length⟩] }
  | .hand i j rx table now => match net.sent[j]? with
    | some p => net.hand node i p rx table now
    | none => net
  | .work i taken => match net.queue i with
    | [] => net
    | (job, root) :: rest => { net with
        queue := update net.queue i rest
        sent := if taken then net.sent ++ [⟨node i, job.text, root⟩] else net.sent }
  | .control i c => { net with
      relay := update net.relay i (c.apply (net.relay i))
      queue := if c.purges then update net.queue i [] else net.queue }

end

/-! ### One text at one relay -/

theorem relayed_marked {lim : Limits} {s : State lim} {host : Host} {rx : Rx} {job : Job}
    {sanitized : Bool} (h : (s.onRx host rx).1 = .relayed job sanitized)
    (hroom : Roomy rx.payload) : hasPrefix job.text = true := by
  obtain ⟨text, changed, hs, -, hjob, -⟩ := onRx_relayed h
  rw [hjob]
  refine hasPrefix_annotated rx.src ?_
  rw [textSanitize_some hs, length_sanitizeFrom]
  exact hroom

/-- A marked text is not relayed. -/
theorem marked_refused {lim : Limits} {s : State lim} {host : Host} {rx : Rx}
    (h : hasPrefix rx.payload = true) (job : Job) (sanitized : Bool) :
    (s.onRx host rx).1 ≠ .relayed job sanitized := by
  intro hrelayed
  obtain ⟨text, changed, hs, hmarked, -⟩ := onRx_relayed hrelayed
  exact Bool.noConfusion (hmarked.symm.trans (hasPrefix_sanitize h hs))

/-! ### Texts and their copies -/

/-- A copy of a text is marked, if the text has room for it. -/
def MarkedCopy (sent : List Sent) (root : Nat) (text : Bytes) : Prop :=
  ∃ q, sent[root]? = some q ∧ (Roomy q.text → hasPrefix text = true)

/-- What is on the air or queued is an original or a marked copy. -/
structure Marked (net : Net lim) : Prop where
  queue : ∀ i, ∀ e ∈ net.queue i, MarkedCopy net.sent e.2 e.1.text
  sent : ∀ j (p : Sent), net.sent[j]? = some p → p.root = j ∨ MarkedCopy net.sent p.root p.text

theorem sent_before {sent sent' : List Sent} (h : sent <+: sent') {o : Nat} {p : Sent}
    (hp : sent[o]? = some p) : sent'[o]? = some p := by
  obtain ⟨more, rfl⟩ := h
  obtain ⟨hlt, -⟩ := List.getElem?_eq_some_iff.mp hp
  exact (getElem?_append_left hlt).trans hp

theorem MarkedCopy.append {sent : List Sent} {root : Nat} {text : Bytes}
    (h : MarkedCopy sent root text) (more : List Sent) : MarkedCopy (sent ++ more) root text := by
  obtain ⟨q, hq, hmarked⟩ := h
  exact ⟨q, sent_before (prefix_append _ _) hq, hmarked⟩

omit [DecidableEq ι] in
theorem Marked.air {net : Net lim} (h : Marked net) {p : Sent}
    (hp : p.root = net.sent.length ∨ MarkedCopy net.sent p.root p.text) :
    Marked { net with sent := net.sent ++ [p] } := by
  refine ⟨fun i e he => (h.queue i e he).append _, fun j q hq => ?_⟩
  rcases Nat.lt_trichotomy j net.sent.length with hlt | rfl | hgt
  · rw [getElem?_append_left hlt] at hq
    exact (h.sent j q hq).imp_right (·.append _)
  · rw [getElem?_concat_length] at hq
    obtain rfl := Option.some.inj hq
    exact hp.imp_right (·.append _)
  · rw [getElem?_eq_none (by simp only [length_append, length_singleton]; omega)]
      at hq
    exact nomatch hq

omit [DecidableEq ι] in
/-- What may be handed to a relay for one of the originals: the original, or a copy that is
marked if the original has room. -/
theorem Marked.original_or_copy {net : Net lim} (h : Marked net) {j : Nat} {p : Sent}
    (hp : net.sent[j]? = some p) :
    ∃ q, net.sent[p.root]? = some q ∧
      (Roomy q.text → hasPrefix p.text = true ∨ p.root = j ∧ q = p) := by
  rcases h.sent j p hp with rfl | ⟨q, hq, hmarked⟩
  · exact ⟨p, hp, fun _ => .inr ⟨rfl, rfl⟩⟩
  · exact ⟨q, hq, fun hroom => .inl (hmarked hroom)⟩

section
variable {node : ι → UInt32} {net : Net lim}

theorem hand_cases (node : ι → UInt32) (net : Net lim) (i : ι) (p : Sent) (rx : Rx)
    (table : Table) (now : Int) :
    (∃ relay, net.hand node i p rx table now = { net with relay }) ∨
      ∃ relay job sanitized, (net.onHand node i p rx table now).1 = .relayed job sanitized ∧
        net.hand node i p rx table now = { net with
          relay
          queue := update net.queue i (net.queue i ++ [(job, p.root)])
          relayed := net.relayed ++ [(i, p.root)] } := by
  unfold hand
  dsimp only
  cases hv : (net.onHand node i p rx table now).1 with
  | refused why => exact .inl ⟨_, rfl⟩
  | relayed job sanitized => exact .inr ⟨_, job, sanitized, rfl, rfl⟩

omit [DecidableEq ι] in
theorem onHand_relayed (hm : Marked net) {i : ι} {j : Nat} {p : Sent} {rx : Rx} {table : Table}
    {now : Int} {job : Job} {sanitized : Bool} (hp : net.sent[j]? = some p)
    (h : (net.onHand node i p rx table now).1 = .relayed job sanitized) :
    MarkedCopy net.sent p.root job.text ∧
      ((∀ q, net.sent[p.root]? = some q → Roomy q.text) → p.root = j) := by
  obtain ⟨q, hq, hcopy⟩ := hm.original_or_copy hp
  have horiginal (hroom : Roomy q.text) : p.root = j ∧ q = p :=
    (hcopy hroom).resolve_left fun hmarked => marked_refused hmarked job sanitized h
  refine ⟨⟨q, hq, fun hroom => ?_⟩, fun hroom => (horiginal (hroom q hq)).1⟩
  obtain ⟨-, rfl⟩ := horiginal hroom
  exact relayed_marked h hroom

theorem mem_update {i i' : ι} {queue : ι → List (Job × Nat)} {es : List (Job × Nat)}
    {e : Job × Nat} (h : e ∈ update queue i es i') : e ∈ es ∨ e ∈ queue i' := by
  by_cases hi : i' = i
  · subst hi
    rw [update_self] at h
    exact .inl h
  · rw [update_of_ne hi] at h
    exact .inr h

theorem Marked.withQueue (h : Marked net) {i : ι} {es : List (Job × Nat)}
    (hes : ∀ e ∈ es, MarkedCopy net.sent e.2 e.1.text) {relay : (i : ι) → State (lim i)}
    {relayed : List (ι × Nat)} :
    Marked ⟨relay, update net.queue i es, net.sent, relayed⟩ :=
  ⟨fun i' e he => (mem_update he).elim (hes e) (h.queue i' e), h.sent⟩

theorem Marked.step (h : Marked net) (e : Event ι) : Marked (net.step node e) := by
  cases e with
  | original src text => exact h.air (.inl rfl)
  | hand i j rx table now =>
    rw [Net.step]
    split
    swap
    · exact h
    rename_i p hp
    rcases hand_cases node net i p rx table now with ⟨relay, heq⟩ | ⟨relay, job, sanitized, hv, heq⟩
    · rw [heq]
      exact { h with }
    rw [heq]
    refine h.withQueue fun e he => ?_
    rcases mem_append.mp he with hold | hnew
    · exact h.queue i e hold
    · obtain rfl := mem_singleton.mp hnew
      exact (onHand_relayed h hp hv).1
  | work i taken =>
    rw [Net.step]
    split
    · exact h
    rename_i job root rest hq
    have hcopy : MarkedCopy net.sent root job.text :=
      h.queue i (job, root) (hq ▸ mem_cons_self ..)
    have hrest : Marked { net with queue := update net.queue i rest } :=
      h.withQueue fun e he => h.queue i e (hq ▸ mem_cons_of_mem _ he)
    cases taken with
    | true => exact hrest.air (.inr hcopy)
    | false => exact hrest
  | control i c =>
    rw [Net.step]
    split
    · exact h.withQueue fun _ he => absurd he not_mem_nil
    · exact { h with }

/-- No relay has relayed an original with room, or a copy of it, more often than it was handed
the original. -/
def Counted (net : Net lim) (es : List (Event ι)) : Prop :=
  ∀ i o, (∀ q, net.sent[o]? = some q → Roomy q.text) →
    net.relayed.count (i, o) ≤ es.countP (Event.hands i o)

/-- What has been sent stays, and only a text that is handed to a relay is booked as relayed. -/
theorem step_books (node : ι → UInt32) (net : Net lim) (e : Event ι) :
    net.sent <+: (net.step node e).sent ∧ ((net.step node e).relayed = net.relayed ∨
      ∃ i j rx table now p job sanitized, e = .hand i j rx table now ∧ net.sent[j]? = some p ∧
        (net.onHand node i p rx table now).1 = .relayed job sanitized ∧
        (net.step node e).relayed = net.relayed ++ [(i, p.root)]) := by
  cases e with
  | original src text => exact ⟨prefix_append _ _, .inl rfl⟩
  | control i c => exact ⟨prefix_rfl, .inl rfl⟩
  | work i taken =>
    rw [Net.step]
    split
    · exact ⟨prefix_rfl, .inl rfl⟩
    · refine ⟨?_, .inl rfl⟩
      cases taken with
      | true => exact prefix_append _ _
      | false => exact prefix_rfl
  | hand i j rx table now =>
    rw [Net.step]
    split
    swap
    · exact ⟨prefix_rfl, .inl rfl⟩
    rename_i p hp
    rcases hand_cases node net i p rx table now with ⟨_, heq⟩ | ⟨_, job, sanitized, hv, heq⟩ <;>
      rw [heq]
    · exact ⟨prefix_rfl, .inl rfl⟩
    · exact ⟨prefix_rfl, .inr ⟨i, j, rx, table, now, p, job, sanitized, rfl, hp, hv, rfl⟩⟩

/-- The relay's seen table has the text. -/
def remembers (net : Net lim) (i : ι) (p : Sent) (now : Int) : Bool :=
  (textSanitize p.text).any fun r => (net.relay i).seenHit p.src (fnv1a r.1) now

variable {i : ι} {o : Nat} {p : Sent}

omit [DecidableEq ι] in
theorem relayed_forgotten {rx : Rx} {table : Table} {now : Int} {job : Job} {sanitized : Bool}
    (h : (net.onHand node i p rx table now).1 = .relayed job sanitized) :
    net.remembers i p now = false := by
  obtain ⟨text, changed, hs, -, -, hunseen, -⟩ := onRx_relayed h
  unfold remembers
  rw [hs, Option.any_some]
  exact hunseen

/-- An original with room, or a copy of it, is relayed only as the original is handed to a relay
that does not remember it. -/
theorem step_count (node : ι → UInt32) (hm : Marked net)
    (hroom : ∀ q, net.sent[o]? = some q → Roomy q.text) (i : ι) (e : Event ι) :
    (net.step node e).relayed.count (i, o) = net.relayed.count (i, o) ∨
      (net.step node e).relayed.count (i, o) = net.relayed.count (i, o) + 1 ∧
        ∃ rx table now p, e = .hand i o rx table now ∧ net.sent[o]? = some p ∧
          net.remembers i p now = false := by
  rcases (step_books node net e).2 with
    hsame | ⟨i', j, rx, table, now, p, job, sanitized, rfl, hp, hv, hnew⟩
  · exact .inl (by rw [hsame])
  rw [hnew, count_append]
  by_cases ho : (i', p.root) = (i, o)
  · obtain ⟨rfl, rfl⟩ := Prod.mk.inj ho
    obtain rfl := (onHand_relayed hm hp hv).2 hroom
    exact .inr ⟨by simp, rx, table, now, p, rfl, hp, relayed_forgotten hv⟩
  · rw [count_singleton, beq_eq_false_iff_ne.mpr ho]
    exact .inl rfl

theorem Counted.step (hm : Marked net) {es : List (Event ι)} (h : Counted net es) (e : Event ι) :
    Counted (net.step node e) (es ++ [e]) := by
  intro i o hroom
  have hroom' : ∀ q, net.sent[o]? = some q → Roomy q.text :=
    fun q hq => hroom q (sent_before (step_books node net e).1 hq)
  have hold := h i o hroom'
  rw [countP_append]
  rcases step_count node hm hroom' i e with hsame | ⟨hnew, rx, table, now, p, rfl, -⟩
  · rw [hsame]
    exact hold.trans (Nat.le_add_right _ _)
  · rw [hnew]
    exact Nat.add_le_add hold (by simp [Event.hands])

/-- Whenever the relay is handed the original, it remembers it. -/
def Remembered (node : ι → UInt32) (net : Net lim) (i : ι) (o : Nat) (p : Sent)
    (es : List (Event ι)) : Prop :=
  ∀ done rx table now, done ++ [.hand i o rx table now] <+: es →
    (run (step node) net done).remembers i p now = true

theorem count_run (hm : Marked net) (hp : net.sent[o]? = some p) (hroom : Roomy p.text)
    (es : List (Event ι)) (hr : Remembered node net i o p es) :
    (run (step node) net es).relayed.count (i, o) = net.relayed.count (i, o) := by
  have hguard : Guarded (step node) (fun net e => ∀ rx table now, e = .hand i o rx table now →
      net.remembers i p now = true) net es := by
    rintro done _ hprefix rx table now rfl
    exact hr done rx table now hprefix
  refine (run_keeps (fun n : Net lim => (Marked n ∧ n.sent[o]? = some p) ∧
    n.relayed.count (i, o) = net.relayed.count (i, o)) ⟨⟨hm, hp⟩, rfl⟩ ?_ hguard).2
  rintro n e ⟨⟨hm, hp⟩, hcount⟩ hok
  refine ⟨⟨hm.step e, sent_before (step_books ..).1 hp⟩, ?_⟩
  rcases step_count node hm (fun q hq => Option.mem_unique hq hp ▸ hroom) i e with
    hsame | ⟨-, rx, table, now, p', rfl, hp', hforgot⟩
  · exact hsame.trans hcount
  · obtain rfl := Option.mem_unique hp' hp
    exact absurd (hok rx table now rfl) (by simp [hforgot])

end

/-- The relay marks what it sends if there is room, and relays nothing that is marked. So among
any relays an original with room is relayed from the original alone, once each time a relay is
handed it, even if the relays forget what they have seen; and not again while the relay remembers
it, as it does once it has relayed it. -/
theorem text_relay_loop_free (lim : ι → Limits) (node : ι → UInt32) :
    (∀ (l : Limits) (s : State l) (host : Host) (rx : Rx) (job : Job) (sanitized : Bool),
      (s.onRx host rx).1 = .relayed job sanitized →
        (Roomy rx.payload → hasPrefix job.text = true) ∧
        (0 < l.seenTtlSec → ∃ text changed, textSanitize rx.payload = some (text, changed) ∧
          (s.onRx host rx).2.seenHit rx.src (fnv1a text) host.now = true)) ∧
    (∀ (l : Limits) (s : State l) (host : Host) (rx : Rx) (job : Job) (sanitized : Bool),
      hasPrefix rx.payload = true → (s.onRx host rx).1 ≠ .relayed job sanitized) ∧
    ∀ es i o p, (run (step node) (init lim) es).sent[o]? = some p → Roomy p.text →
      (run (step node) (init lim) es).relayed.count (i, o) ≤ es.countP (Event.hands i o) ∧
      ∀ more, Remembered node (run (step node) (init lim) es) i o p more →
        (run (step node) (init lim) (es ++ more)).relayed.count (i, o) =
          (run (step node) (init lim) es).relayed.count (i, o) := by
  refine ⟨fun _ _ _ _ _ _ h => ⟨relayed_marked h, fun httl => ?_⟩,
    fun _ _ _ _ job sanitized h => marked_refused h job sanitized, fun es i o p hp hroom => ?_⟩
  · obtain ⟨text, changed, hs, -, -, -, hseen⟩ := onRx_relayed h
    exact ⟨text, changed, hs, hseen httl⟩
  have hinit : Marked (init lim) := ⟨fun _ _ => nofun, fun _ _ => nofun⟩
  have hrun : Marked (run (step node) (init lim) es) ∧
      Counted (run (step node) (init lim) es) es :=
    run_invariant (fun es net => Marked net ∧ Counted net es)
      ⟨hinit, fun _ _ _ => Nat.le_refl 0⟩
      (fun _ e hi _ => ⟨hi.1.step e, hi.2.step hi.1 e⟩) es guarded_true
  refine ⟨hrun.2 i o fun q hq => ?_, fun more hr => ?_⟩
  · obtain rfl := Option.mem_unique hq hp
    exact hroom
  · rw [run_append_list]
    exact count_run hrun.1 hp hroom more hr

end Net

/-- Small tables, and inbound from boot. -/
def smallRelay : Limits :=
  ⟨5, by decide, by decide, 300, 10, 600, 3, 60, 2, by decide, 4, 2, true⟩

/-- A table with a channel of its own in slot 1. -/
def opsTable : Table :=
  let t := Table.initDefaults ⟨.longFast, true⟩ ⟨[], 0, []⟩
  t.setChannel 1 ⟨.secondary, true,
    ⟨Channels.ascii "ops", replicate 16 7, by decide, false, false, none⟩⟩

/-- A broadcast text from the ear, on the channel of slot 1. -/
def opsRx : Rx := ⟨.blePeer, Router.broadcast, 0, false, portTextMessage, 0, [], 1⟩

/-- Two relays that hear each other. -/
inductive Site where
  | near
  | far
  deriving DecidableEq, Repr

def relayIds : Site → UInt32
  | .near => 0x11
  | .far => 0x12

/-- A text is handed to the near relay, what that sends to the far one, and what that sends to
the near one. -/
def roundTrip (text : Bytes) : List (Event Site) :=
  [.original 0x22 text, .hand .near 0 opsRx opsTable 1000, .work .near true,
    .hand .far 1 opsRx opsTable 2000, .work .far true, .hand .near 2 opsRx opsTable 3000]

example : (run (Net.step relayIds) (Net.init fun _ => smallRelay) (roundTrip [104, 105])).relayed =
    [(.near, 0)] := by
  decide +kernel

/-- A text handed to a relay before and after it is reset. -/
def forgotten (text : Bytes) : List (Event Site) :=
  [.original 0x22 text, .hand .near 0 opsRx opsTable 1000, .control .near .reset,
    .hand .near 0 opsRx opsTable 2000]

/-- A text of 227 bytes goes out without a mark and comes back to the relay, which relays it
again; and a text handed to a relay again is relayed again if the relay has forgotten it. -/
theorem long_text_comes_back :
    let net := run (Net.step relayIds) (Net.init fun _ => smallRelay)
      (roundTrip (List.replicate 227 0x78))
    (net.sent[1]?.map fun p => hasPrefix p.text) = some false ∧
      net.relayed.count (.near, 0) = 2 ∧
      (roundTrip (List.replicate 227 0x78)).countP (Event.hands .near 0) = 1 ∧
      (run (Net.step relayIds) (Net.init fun _ => smallRelay)
        (forgotten [0x78])).relayed.count (.near, 0) = 2 := by
  decide +kernel

end Zephyrtastic.TextRelay
