import Zephyrtastic.Cluster.Pull

/-!
# Transmission

The responder's half of the walk, and `txNext`, which picks one outbound frame:
entry replies first, then vector chunks, then our own requests, then pushes.
-/

namespace Zephyrtastic.Cluster

open State

def nodeBroadcast : UInt32 := 0xFFFFFFFF

/-- A frame and where it goes. -/
abbrev Outbound := UInt32 × Message

section Serve
variable {nd : Node}
variable (c : State nd) (env : Env)

/-- A token bucket: tokens and the time it last earned one. -/
def refill (intervalMs burst now tokens refillMs : Nat) : Nat × Nat :=
  if now - refillMs ≥ intervalMs then
    let gained := (now - refillMs) / intervalMs % 2 ^ 32
    (min ((tokens + gained) % 2 ^ 32) burst, refillMs + gained * intervalMs)
  else (tokens, refillMs)

/-- May we start serving a reply right now? -/
def State.mayServe : Bool × State nd :=
  if nd.serveMinIntervalMs = 0 then (true, c)
  else
    let bucket := refill nd.serveMinIntervalMs serveBurst env.uptimeMs c.serveTokens c.serveRefillMs
    let c := { c with serveTokens := bucket.1, serveRefillMs := bucket.2 }
    if c.serveTokens = 0 then (false, c.count .txBusy) else (true, c)

def State.serveStarted : State nd :=
  { c with serveTokens := c.serveTokens - 1 }

def State.onVectorReq (sender : UInt32) (scope : ScopePb) : State nd :=
  if c.vecDest ≠ 0 then c.count .txBusy
  else
    let r := c.mayServe env
    if !r.1 then r.2
    else { r.2 with
      vecScopeKind := (scopeFromPb scope sender).1.kind
      vecDest := sender
      vecOffset := 0
      vecEmitted := 0 }.serveStarted

def State.onEntryReq (sender : UInt32) (keys : List KeyPb) : State nd :=
  if c.entDest ≠ 0 then c.count .txBusy
  else
    let r := c.mayServe env
    if !r.1 then r.2
    else
      let entKeys := (keys.take pullKeysMax).map keyFromPb
      { r.2.serveStarted with
        entDest := if entKeys.length = 0 then 0 else sender
        entKeys
        entFragOff := 0 }

/-- One fragment of an entry from a byte offset on: the frame, and the offset
after it. -/
def entryToPbFrag (e : Entry) (off : Nat) : EntryPb × Nat :=
  let take := fragTake e.payload.length off fragMax
  ({ key := some (keyToPb e.key)
     stamp := some e.stamp
     tombstone := e.tombstone
     payload := (e.payload.drop take.1).take take.2
     payloadTotal := UInt32.ofNat e.payload.length
     fragOffset := UInt32.ofNat take.1
     authorSig := match e.sig with
       | some sig => if take.1 + take.2 ≥ e.payload.length then sig.bytes else []
       | none => [] },
    take.1 + take.2)

/-- Done with the entry in front: move to the next key the peer asked for. -/
def State.entAdvance (rest : List Key) : State nd :=
  { c with
    entFragOff := 0
    entKeys := rest
    entDest := if rest = [] then 0 else c.entDest }

/-- The first job: a fragment of an entry a peer asked for. -/
def State.txEntry (c : State nd) : List Key → Option Outbound × State nd
  | [] => (none, { c with entDest := 0 })
  | key :: rest =>
    if c.entDest = 0 then (none, c)
    else match c.doc.find key with
      | none => (c.entAdvance rest).txEntry rest
      | some e =>
        let frag := entryToPbFrag e c.entFragOff
        let c' := if frag.2 ≥ e.payload.length then c.entAdvance rest
          else { c with entFragOff := frag.2 }
        (some (c.entDest, .entry frag.1), c'.count .entryTx)

/-- Up to `n` rows of a scope from the front of the table, and how many table rows
that took. -/
def takeRows (want : Scope) : Nat → List Entry → List Entry × Nat
  | 0, _ => ([], 0)
  | _, [] => ([], 0)
  | n + 1, e :: rest =>
    if want.contains e.key then
      (e :: (takeRows want n rest).1, (takeRows want n rest).2 + 1)
    else ((takeRows want (n + 1) rest).1, (takeRows want (n + 1) rest).2 + 1)

/-- The second job: the next chunk of a stamp vector. -/
def State.txVector : Outbound × State nd :=
  let want := Scope.make c.vecScopeKind c.vecDest
  let rows := takeRows want vectorRows (c.doc.rows.drop c.vecOffset)
  let msg : VectorPb :=
    ⟨rows.1.map fun e => ⟨some (keyToPb e.key), some e.stamp⟩, UInt32.ofNat c.vecEmitted,
      UInt32.ofNat (c.doc.countScoped want)⟩
  ((c.vecDest, .vector msg),
    { c with
      vecOffset := c.vecOffset + rows.2
      vecEmitted := c.vecEmitted + rows.1.length
      vecDest := if c.vecOffset + rows.2 ≥ c.doc.count then 0 else c.vecDest
      stats := c.stats.add .vectorTx 1 })

/-- The third job: our own entry request. The next pull judges this one by what
merged since. -/
def State.txEntryReq : Outbound × State nd :=
  ((c.pullPeer, .entryReq (c.pullKeys.map keyToPb)),
    { c with
      pullAskedEntries := true
      pullLastApplied := c.stats .entryRxApplied }.pullReset)

/-- The fourth job: our own vector request, carrying what we claim. -/
def State.txVectorReq : Outbound × State nd :=
  ((c.pullPeer, .vectorReq (scopeToPb c.myScope)), { c with pullState := .awaitVector })

/-- The last job: a change of ours, broadcast once. -/
def State.txPush (c : State nd) : List Key → Option Outbound × State nd
  | [] => (none, { c with pushKeys := [] })
  | key :: rest =>
    match c.doc.find key with
    | none => { c with pushFragOff := 0, pushKeys := rest }.txPush rest
    | some e =>
      let frag := entryToPbFrag e c.pushFragOff
      let c' := if frag.2 ≥ e.payload.length then { c with pushFragOff := 0, pushKeys := rest }
        else { c with pushFragOff := frag.2 }
      (some (nodeBroadcast, .entry frag.1), c'.count .pushTx)

/-- Everything after the entry replies. -/
def State.txRest : Option Outbound × State nd :=
  if c.vecDest ≠ 0 then (some c.txVector.1, c.txVector.2)
  else if c.pullState = .sendEntryReq then (some c.txEntryReq.1, c.txEntryReq.2)
  else if c.pullState = .sendVectorReq then (some c.txVectorReq.1, c.txVectorReq.2)
  else c.txPush c.pushKeys

/-- Pick one outbound frame. -/
def State.txNext : Option Outbound × State nd :=
  let r := c.txEntry c.entKeys
  if r.1.isSome then r else { r.2 with entDest := 0 }.txRest

/-- `tx_work_fn` up to the send: nothing is aimed without a channel, and an
unanswered pull is given up at its deadline. -/
def State.txWork : Option Outbound × State nd :=
  if env.channelIndex.isNone then
    (none, { c.pullReset.fragReset with vecDest := 0, entDest := 0 })
  else
    let c := if c.pullState = .awaitVector ∧ env.uptimeMs > c.pullDeadlineMs then
        (c.count .pullTimedOut).pullReset
      else c
    c.txNext

/-- Only the reply and push queues and counters other than the merge count moved. -/
def State.OnlyQueues (c c' : State nd) : Prop :=
  ∃ vecDest vecOffset vecEmitted vecScopeKind entDest entKeys entFragOff pushKeys pushFragOff
      serveTokens serveRefillMs stats,
    c' = { c with
      vecDest, vecOffset, vecEmitted, vecScopeKind, entDest, entKeys, entFragOff, pushKeys,
      pushFragOff, serveTokens, serveRefillMs, stats } ∧
    stats .entryRxApplied = c.stats .entryRxApplied

variable (c : State nd) (env : Env)

theorem State.OnlyQueues.refl : c.OnlyQueues c :=
  ⟨_, _, _, _, _, _, _, _, _, _, _, _, rfl, rfl⟩

theorem State.OnlyQueues.trans {c c' c'' : State nd} (h : c.OnlyQueues c')
    (h' : c'.OnlyQueues c'') : c.OnlyQueues c'' := by
  obtain ⟨_, _, _, _, _, _, _, _, _, _, _, _, rfl, ha⟩ := h
  obtain ⟨_, _, _, _, _, _, _, _, _, _, _, _, rfl, ha'⟩ := h'
  exact ⟨_, _, _, _, _, _, _, _, _, _, _, _, rfl, ha'.trans ha⟩

theorem State.onlyQueues_count {k : Counter} (hk : Counter.entryRxApplied ≠ k) :
    c.OnlyQueues (c.count k) :=
  ⟨_, _, _, _, _, _, _, _, _, _, _, _, rfl, Stats.add_of_ne hk⟩

theorem entAdvance_onlyQueues (rest : List Key) : c.OnlyQueues (c.entAdvance rest) :=
  ⟨_, _, _, _, _, _, _, _, _, _, _, _, rfl, rfl⟩

theorem txEntry_onlyQueues (keys : List Key) : c.OnlyQueues (c.txEntry keys).2 := by
  induction keys generalizing c with
  | nil => exact ⟨_, _, _, _, _, _, _, _, _, _, _, _, rfl, rfl⟩
  | cons key rest ih =>
    simp only [txEntry]
    split
    · exact State.OnlyQueues.refl c
    split
    · exact (entAdvance_onlyQueues c rest).trans (ih _)
    refine State.OnlyQueues.trans ?_ (onlyQueues_count _ (by decide))
    split
    · exact entAdvance_onlyQueues c rest
    · exact ⟨_, _, _, _, _, _, _, _, _, _, _, _, rfl, rfl⟩

theorem txVector_onlyQueues : c.OnlyQueues c.txVector.2 := by
  refine ⟨_, _, _, _, _, _, _, _, _, _, _, c.stats.add .vectorTx 1, rfl, ?_⟩
  exact Stats.add_of_ne nofun

theorem txPush_onlyQueues (keys : List Key) : c.OnlyQueues (c.txPush keys).2 := by
  induction keys generalizing c with
  | nil => exact ⟨_, _, _, _, _, _, _, _, _, _, _, _, rfl, rfl⟩
  | cons key rest ih =>
    simp only [txPush]
    split
    · refine State.OnlyQueues.trans ?_ (ih _)
      exact ⟨_, _, _, _, _, _, _, _, _, _, _, _, rfl, rfl⟩
    refine State.OnlyQueues.trans ?_ (onlyQueues_count _ (by decide))
    split
    · exact ⟨_, _, _, _, _, _, _, _, _, _, _, _, rfl, rfl⟩
    · exact ⟨_, _, _, _, _, _, _, _, _, _, _, _, rfl, rfl⟩

/-- **What sending a frame can do**: serve a queue, send the entry request that
ends a walk, or send the vector request that opens it. -/
inductive Sent (c : State nd) : Prop
  | queued (hq : c.OnlyQueues c.txNext.2)
  | entryReq (c' : State nd) (hq : c.OnlyQueues c') (hs : c.pullState = .sendEntryReq)
      (he : c.txNext.2 = c'.txEntryReq.2)
  | vectorReq (c' : State nd) (hq : c.OnlyQueues c') (hs : c.pullState = .sendVectorReq)
      (he : c.txNext.2 = c'.txVectorReq.2)

theorem txNext_sent : Sent c := by
  have hent := txEntry_onlyQueues c c.entKeys
  by_cases hsome : (c.txEntry c.entKeys).1.isSome = true
  · apply Sent.queued
    simp only [txNext, hsome, if_true]
    exact hent
  have hdone : c.OnlyQueues { (c.txEntry c.entKeys).2 with entDest := 0 } :=
    hent.trans ⟨_, _, _, _, _, _, _, _, _, _, _, _, rfl, rfl⟩
  have hnext : c.txNext = { (c.txEntry c.entKeys).2 with entDest := 0 }.txRest := by
    simp only [txNext, hsome, Bool.false_eq_true, if_false]
  generalize { (c.txEntry c.entKeys).2 with entDest := 0 } = c' at hdone hnext
  have hstate : c'.pullState = c.pullState := by
    obtain ⟨_, _, _, _, _, _, _, _, _, _, _, _, h, _⟩ := hdone
    rw [h]
  by_cases hv : c'.vecDest ≠ 0
  · apply Sent.queued
    rw [hnext, txRest, if_pos hv]
    exact hdone.trans (txVector_onlyQueues c')
  by_cases hs : c'.pullState = .sendEntryReq
  · refine .entryReq c' hdone (hstate.symm.trans hs) ?_
    rw [hnext, txRest, if_neg hv, if_pos hs]
  by_cases hs' : c'.pullState = .sendVectorReq
  · refine .vectorReq c' hdone (hstate.symm.trans hs') ?_
    rw [hnext, txRest, if_neg hv, if_neg hs, if_pos hs']
  · apply Sent.queued
    rw [hnext, txRest, if_neg hv, if_neg hs, if_neg hs']
    exact hdone.trans (txPush_onlyQueues c' _)

theorem State.OnlyQueues.quiet {c c' : State nd} (h : c.OnlyQueues c') : c.Quiet c' := by
  obtain ⟨_, _, _, _, _, _, _, _, _, _, _, _, rfl, _⟩ := h
  exact ⟨⟨rfl, rfl, rfl, rfl⟩, rfl⟩

theorem mayServe_onlyQueues : c.OnlyQueues (c.mayServe env).2 := by
  unfold mayServe
  split
  · exact State.OnlyQueues.refl c
  simp only
  split
  · exact ⟨_, _, _, _, _, _, _, _, _, _, _, _, rfl, Stats.add_of_ne (by decide)⟩
  · exact ⟨_, _, _, _, _, _, _, _, _, _, _, _, rfl, rfl⟩

theorem onVectorReq_onlyQueues (sender : UInt32) (scope : ScopePb) :
    c.OnlyQueues (c.onVectorReq env sender scope) := by
  unfold onVectorReq
  split
  · exact c.onlyQueues_count (by decide)
  simp only
  split
  · exact mayServe_onlyQueues c env
  · exact (mayServe_onlyQueues c env).trans ⟨_, _, _, _, _, _, _, _, _, _, _, _, rfl, rfl⟩

theorem onEntryReq_onlyQueues (sender : UInt32) (keys : List KeyPb) :
    c.OnlyQueues (c.onEntryReq env sender keys) := by
  unfold onEntryReq
  split
  · exact c.onlyQueues_count (by decide)
  simp only
  split
  · exact mayServe_onlyQueues c env
  · exact (mayServe_onlyQueues c env).trans ⟨_, _, _, _, _, _, _, _, _, _, _, _, rfl, rfl⟩

theorem txNext_quiet : c.Quiet c.txNext.2 := by
  cases txNext_sent c with
  | queued hq => exact hq.quiet
  | entryReq c' hq _ he | vectorReq c' hq _ he =>
    rw [he]
    exact hq.quiet.trans ⟨⟨rfl, rfl, rfl, rfl⟩, rfl⟩

end Serve

end Zephyrtastic.Cluster
