import Zephyrtastic.Cluster.Serve
import Zephyrtastic.Cluster.Tracking

/-!
# Fruitless walks are bounded

A peer whose digest never comes to match would be walked on every digest. A walk
that merged nothing is counted, and from the threshold on each walk holds the next
one back.
-/

namespace Zephyrtastic.Cluster

open Run State

/-- The calls the pull state machine is driven by. -/
inductive PullEvent where
  | start (env : Env) (peer : UInt32) (delayMs : Nat)
  | tx
  | vector (env : Env) (sender : UInt32) (v : VectorPb)
  | entry (env : Env) (sender : UInt32) (e : EntryPb)

section Backoff
variable {nd : Node}

/-- The module with what the bound speaks about: how many walks are over, and
when the last one began and with what count. -/
structure Tracked (nd : Node) where
  c : State nd
  walks : Nat
  opened : Option (Nat × Nat)

open Tracked

def Tracked.start (c : State nd) : Tracked nd := ⟨c, 0, none⟩

/-- A walk is over when the pull comes back to idle. -/
def Tracked.move (s : Tracked nd) (c : State nd) (opened : Option (Nat × Nat)) : Tracked nd where
  c := c
  walks := if s.c.pullState ≠ .idle ∧ c.pullState = .idle then s.walks + 1 else s.walks
  opened := opened

def Tracked.step (s : Tracked nd) : PullEvent → Tracked nd
  | .start env peer delayMs =>
    let r := s.c.pullStart env peer delayMs .digest
    s.move r.2 (if r.1 then some (env.uptimeMs, r.2.pullFruitless) else s.opened)
  | .tx => s.move s.c.txNext.2 s.opened
  | .vector env sender v => s.move (s.c.onVector env sender v) s.opened
  | .entry env sender e => s.move (s.c.onEntry env sender e) s.opened

variable {s : Tracked nd} {c c' : State nd}

theorem Tracked.move_of_idle (h : s.c.pullState = .idle) (c : State nd)
    (opened : Option (Nat × Nat)) : s.move c opened = ⟨c, s.walks, opened⟩ := by
  simp [move, h]

theorem Tracked.move_of_busy (s : Tracked nd) (h : c.pullState ≠ .idle)
    (opened : Option (Nat × Nat)) : s.move c opened = ⟨c, s.walks, opened⟩ := by
  simp [move, h]

theorem Tracked.move_of_state_eq (h : c.pullState = s.c.pullState) (opened : Option (Nat × Nat)) :
    s.move c opened = ⟨c, s.walks, opened⟩ := by
  unfold move
  rw [h, if_neg fun hc => hc.1 hc.2]

/-- Nothing is merged, and no vector shows a new key the table has no room for. -/
def Tracked.Fits (s : Tracked nd) : PullEvent → Prop
  | .vector env sender v => ¬ s.c.SeesOverflow env sender v
  | .entry env sender e =>
      (s.c.onEntry env sender e).stats .entryRxApplied = s.c.stats .entryRxApplied
  | _ => True

/-- One walk less than were completed when the last one is still unjudged. -/
def State.judged (c : State nd) : Nat := c.pullFruitless + if c.pullAskedEntries then 1 else 0

/-- The fields the bound depends on are the same in both states. -/
structure SamePull (c c' : State nd) : Prop where
  state : c'.pullState = c.pullState
  reason : c'.pullReason = c.pullReason
  fruitless : c'.pullFruitless = c.pullFruitless
  asked : c'.pullAskedEntries = c.pullAskedEntries
  lastApplied : c'.pullLastApplied = c.pullLastApplied
  holdUntil : c'.pullHoldUntilMs = c.pullHoldUntilMs
  applied : c'.stats .entryRxApplied = c.stats .entryRxApplied

theorem State.OnlyQueues.samePull (h : c.OnlyQueues c') : SamePull c c' := by
  obtain ⟨_, _, _, _, _, _, _, _, _, _, _, _, rfl, ha⟩ := h
  exact ⟨rfl, rfl, rfl, rfl, rfl, rfl, ha⟩

theorem State.OnlySlot.samePull (h : c.OnlySlot c') : SamePull c c' := by
  obtain ⟨_, _, rfl, ha⟩ := h
  exact ⟨rfl, rfl, rfl, rfl, rfl, rfl, ha⟩

theorem State.OnlyKeys.samePull {keys : List Key} (h : c.OnlyKeys c' keys) : SamePull c c' := by
  obtain ⟨_, _, rfl, ha⟩ := h
  exact ⟨rfl, rfl, rfl, rfl, rfl, rfl, ha⟩

/-- What holds between any two calls: every finished walk but an unjudged last one
is in the count, and a start past the threshold has armed the hold. -/
structure Bounded (s : Tracked nd) : Prop where
  counted : min s.walks 255 ≤ s.c.judged
  asked : s.c.pullAskedEntries = true →
    s.c.pullState = .idle ∧ s.c.stats .entryRxApplied = s.c.pullLastApplied
  reason : s.c.pullState ≠ .idle → s.c.pullReason = .digest
  armed : ∀ t f, s.opened = some (t, f) → fruitlessThreshold ≤ f →
    s.c.pullHoldUntilMs = t + nd.holdMs f ∧ f ≤ s.c.pullFruitless

section
variable (h : Bounded s)
include h

theorem Bounded.of_samePull (hc : SamePull s.c c) : Bounded { s with c } where
  counted := by
    have hj : c.judged = s.c.judged := by unfold judged; rw [hc.fruitless, hc.asked]
    exact hj ▸ h.counted
  asked ha := by
    rw [hc.state, hc.applied, hc.lastApplied]
    exact h.asked (hc.asked ▸ ha)
  reason hs := by
    rw [hc.reason]
    exact h.reason (hc.state ▸ hs)
  armed t f ho hf := by
    rw [hc.holdUntil, hc.fruitless]
    exact h.armed t f ho hf

/-- Judging the last walk: it was not counted yet and nothing merged since, so it
moves from unjudged to counted. -/
theorem Bounded.judgeAsked (hidle : s.c.pullState = .idle) :
    Bounded { s with c := s.c.judgeAsked } ∧ s.c.judgeAsked.pullAskedEntries = false ∧
      s.c.judgeAsked.pullState = .idle := by
  unfold State.judgeAsked
  split
  · rename_i ha
    have hcount := h.counted
    unfold judged at hcount
    rw [if_pos ha] at hcount
    rw [if_pos (h.asked ha).2]
    refine ⟨⟨min_le_moreFruitless hcount, ?_, ?_, ?_⟩, rfl, hidle⟩
    · intro hf
      cases hf
    · intro hs
      exact absurd hidle hs
    · intro t f ho hf
      obtain ⟨hhold, hle⟩ := h.armed t f ho hf
      exact ⟨hhold, hle.trans (le_moreFruitless _)⟩
  · rename_i ha
    exact ⟨h, by simpa using ha, hidle⟩

theorem Bounded.start (env : Env) (peer : UInt32)
    (delayMs : Nat) : Bounded (s.step (.start env peer delayMs)) := by
  simp only [Tracked.step]
  cases pullStart_started s.c env peer delayMs .digest with
  | refused he =>
    rw [he, move_of_state_eq rfl]
    exact h
  | held hidle he =>
    rw [he, move_of_idle hidle]
    exact (h.judgeAsked hidle).1.of_samePull (onlySlot_count _ (by decide)).samePull
  | rearmed hidle _ hf _ he =>
    obtain ⟨hj, ha, _⟩ := h.judgeAsked hidle
    rw [he, move_of_idle hidle]
    refine ⟨hj.counted, ?_, fun _ => rfl, ?_⟩
    · intro hask
      exact absurd (ha.symm.trans hask) nofun
    · intro t f ho _
      obtain ⟨rfl, rfl⟩ := Prod.mk.inj (Option.some.inj ho)
      exact ⟨rfl, Nat.le_refl _⟩
  | opened hidle _ hf he =>
    obtain ⟨hj, ha, _⟩ := h.judgeAsked hidle
    rw [he, move_of_idle hidle]
    refine ⟨hj.counted, ?_, fun _ => rfl, ?_⟩
    · intro hask
      exact absurd (ha.symm.trans hask) nofun
    · intro t f ho hge
      obtain ⟨rfl, rfl⟩ := Prod.mk.inj (Option.some.inj ho)
      exact absurd hge (Nat.not_le_of_lt (hf nofun))

/-- Within a walk only its own end may move the count: the request that asks for
entries leaves it to the next start. -/
theorem Bounded.tx : Bounded (s.step .tx) := by
  simp only [Tracked.step]
  cases txNext_sent s.c with
  | queued hq =>
    rw [move_of_state_eq hq.samePull.state]
    exact h.of_samePull hq.samePull
  | entryReq c' hq hstate he =>
    have hc := h.of_samePull hq.samePull
    have hask : c'.pullAskedEntries = false := by
      by_contra ha
      have hidle := (hc.asked (by simpa using ha)).1
      rw [hq.samePull.state, hstate] at hidle
      cases hidle
    have hcount := hc.counted
    simp only [judged, hask] at hcount
    rw [he]
    refine ⟨?_, ?_, ?_, ?_⟩
    · simp only [move, txEntryReq, pullReset, judged]
      split <;> simp at hcount ⊢ <;> omega
    · intro _
      exact ⟨rfl, rfl⟩
    · intro hs
      exact absurd rfl hs
    · exact hc.armed
  | vectorReq c' hq hstate he =>
    have hc := h.of_samePull hq.samePull
    have hne : c'.pullState ≠ .idle := by
      rw [hq.samePull.state, hstate]
      nofun
    rw [he, move_of_busy s (by simp [txVectorReq])]
    refine ⟨hc.counted, ?_, fun _ => hc.reason hne, hc.armed⟩
    intro ha
    exact absurd (hc.asked ha).1 hne

/-- A walk that asked for nothing is counted on the spot. -/
theorem Bounded.empty (hbusy : s.c.pullState ≠ .idle) :
    Bounded (s.move s.c.pullEmpty s.opened) := by
  have hask : s.c.pullAskedEntries = false := by
    by_contra ha
    exact hbusy (h.asked (by simpa using ha)).1
  have hcount := h.counted
  simp only [judged, hask] at hcount
  have he : s.c.pullEmpty = { (s.c.count .pullEmpty) with
      pullFruitless := moreFruitless s.c.pullFruitless
      stats := (s.c.count .pullEmpty).stats.add .pullFruitless 1 }.pullReset :=
    if_pos (h.reason hbusy)
  rw [he]
  refine ⟨?_, ?_, ?_, ?_⟩
  · have hw : min (s.walks + 1) 255 ≤ moreFruitless s.c.pullFruitless :=
      min_le_moreFruitless (by simp at hcount; omega)
    simpa [move, hbusy, judged, hask] using hw
  · intro ha
    exact absurd (hask.symm.trans ha) nofun
  · intro hs
    exact absurd rfl hs
  · intro t f ho hf
    obtain ⟨hhold, hle⟩ := h.armed t f ho hf
    exact ⟨hhold, hle.trans (le_moreFruitless _)⟩

theorem Bounded.vector {env : Env} {sender : UInt32}
    {v : VectorPb} (hfits : s.Fits (.vector env sender v)) :
    Bounded (s.step (.vector env sender v)) := by
  simp only [Tracked.step]
  cases onVector_diffed s.c env sender v with
  | ignored _ hk =>
    rw [move_of_state_eq hk.samePull.state]
    exact h.of_samePull hk.samePull
  | abandoned c' hwait hpeer hk hover _ =>
    exact absurd ⟨hwait, hpeer, collect_snd.mp hover⟩ hfits
  | collected c' hwait hpeer hk _ he =>
    have hc := h.of_samePull hk.samePull
    have hbusy : c'.pullState ≠ .idle := by
      rw [hk.pullState, hwait]
      nofun
    rw [he]
    cases chunkDone_end c' v with
    | more hd =>
      rw [hd, move_of_busy s hbusy]
      exact hc
    | asks hd =>
      rw [hd, move_of_busy s (by simp)]
      refine ⟨hc.counted, ?_, fun _ => hc.reason hbusy, hc.armed⟩
      intro ha
      exact absurd (hc.asked ha).1 hbusy
    | empty _ hd =>
      have hm : s.move c'.pullEmpty s.opened = { s with c := c' }.move c'.pullEmpty s.opened := by
        unfold move
        rw [hk.pullState]
      rw [hd, hm]
      exact hc.empty hbusy

end

theorem onEntry_samePull {env : Env} {sender : UInt32} {e : EntryPb}
    (h : (c.onEntry env sender e).stats .entryRxApplied = c.stats .entryRxApplied) :
    SamePull c (c.onEntry env sender e) := by
  cases onEntry_ingested c env sender e with
  | quiet hs => exact hs.samePull
  | merged c' w hs _ _ he =>
    rw [he] at h ⊢
    obtain ⟨slot, stats, rfl, ha⟩ := hs
    cases mergeEntry_merged { c with asmRx := slot, stats } env w with
    | stored _ hm =>
      rw [hm] at h
      simp [ha] at h
    | refused _ hm =>
      have hm := hm.samePull
      exact { hm with applied := hm.applied.trans ha }

theorem Bounded.step (h : Bounded s) {ev : PullEvent} (hok : s.Fits ev) : Bounded (s.step ev) := by
  cases ev with
  | start env peer delayMs => exact h.start env peer delayMs
  | tx => exact h.tx
  | vector env sender v => exact h.vector hok
  | entry env sender e =>
    have hs := onEntry_samePull hok
    simp only [Tracked.step]
    rw [move_of_state_eq hs.state]
    exact h.of_samePull hs

/-- **Walks that merge nothing are counted, all but an unjudged last one, and past
the threshold the next start waits out the hold of the one before it**, in every
run that shows the node no new key it has no room for. -/
theorem fruitless_walks_bounded (c : State nd) (hidle : c.pullState = .idle)
    (hjudged : c.pullAskedEntries = false) (es : List PullEvent)
    (hok : Guarded Tracked.step Tracked.Fits (Tracked.start c) es) :
    let s := run Tracked.step (Tracked.start c) es
    min s.walks 255 - 1 ≤ s.c.pullFruitless ∧
    (s.c.pullAskedEntries = false → min s.walks 255 ≤ s.c.pullFruitless) ∧
    ∀ t f env peer delayMs, s.opened = some (t, f) → fruitlessThreshold ≤ f →
      (s.c.pullStart env peer delayMs .digest).1 = true → t + nd.holdMs f ≤ env.uptimeMs := by
  intro s
  have hinv : Bounded s := by
    refine run_keeps Bounded ⟨?_, ?_, ?_, ?_⟩ ?_ hok
    · exact Nat.zero_le _
    · intro ha
      exact absurd (hjudged.symm.trans ha) nofun
    · intro hs
      exact absurd hidle hs
    · intro t f ho
      cases ho
    · intro _ _ hb hf
      exact hb.step hf
  have hcount := hinv.counted
  unfold judged at hcount
  refine ⟨?_, ?_, ?_⟩
  · split at hcount <;> omega
  · intro ha
    simpa [ha] using hcount
  · intro t f env peer delayMs ho hf hopen
    obtain ⟨hhold, hle⟩ := hinv.armed t f ho hf
    cases pullStart_started s.c env peer delayMs .digest with
    | refused he | held _ he =>
      rw [he] at hopen
      cases hopen
    | rearmed hs _ _ hlate _ =>
      rw [((hinv.judgeAsked hs).1.armed t f ho hf).1] at hlate
      exact hlate
    | opened hs _ hlt _ =>
      have hge := hf.trans ((hinv.judgeAsked hs).1.armed t f ho hf).2
      exact absurd hge (Nat.not_le_of_lt (hlt nofun))

end Backoff

/-- A walk of node 2 at boot, answered by an empty vector. -/
def emptyWalk : List PullEvent :=
  [.start (sampleEnv 0) 2 0, .tx, .vector (sampleEnv 0) 2 ⟨[], 0, 0⟩]

theorem fruitless_walks_bounded_empty :
    let s := run Tracked.step (Tracked.start (State.init sampleNode (sampleEnv 0)))
      (emptyWalk ++ emptyWalk ++ emptyWalk ++ emptyWalk)
    s.walks = 4 ∧ 3 ≤ s.c.pullFruitless ∧ ∀ env peer delayMs,
      (s.c.pullStart env peer delayMs .digest).1 = true → 300000 ≤ env.uptimeMs := by
  have hfits : ∀ (s : Tracked sampleNode), ∀ ev ∈ emptyWalk, s.Fits ev := by
    intro s ev hev
    simp only [emptyWalk, List.mem_cons, List.not_mem_nil, or_false] at hev
    rcases hev with rfl | rfl | rfl
    · trivial
    · trivial
    · simp [Tracked.Fits, State.SeesOverflow, Overflows]
  obtain ⟨hcount, -, hgap⟩ := fruitless_walks_bounded (init sampleNode (sampleEnv 0)) rfl rfl
    (emptyWalk ++ emptyWalk ++ emptyWalk ++ emptyWalk) fun done ev hp => hfits _ ev
      (by simpa using hp.subset (List.mem_append_right done (List.mem_singleton_self ev)))
  exact ⟨rfl, hcount, fun env peer delayMs hopen =>
    hgap 0 3 env peer delayMs rfl (Nat.le_refl _) hopen⟩

/-- A walk of node 2 that shows a full table a new key. -/
def overflowWalk : List PullEvent :=
  [.start (sampleEnv 0) 2 0, .tx, .vector (sampleEnv 0) 2 mixedChunk]

/-- Five walks abandoned for want of room are not counted at all, and nothing holds
the sixth back. -/
theorem abandoned_walks_uncounted :
    let s := run Tracked.step (Tracked.start { pinnedFull with pullState := .idle })
      (overflowWalk ++ overflowWalk ++ overflowWalk ++ overflowWalk ++ overflowWalk)
    s.walks = 5 ∧ s.c.pullFruitless = 0 ∧ s.c.pullAskedEntries = false ∧
      (s.c.pullStart (sampleEnv 0) 2 0 .digest).1 = true := by
  decide +kernel

end Zephyrtastic.Cluster
