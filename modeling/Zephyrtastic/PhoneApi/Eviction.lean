import Zephyrtastic.Lib.Run
import Zephyrtastic.PhoneApi.Api

/-!
# What a full queue gives up

Three calls put frames into the queue, and each has a rule of its own for what a
full one gives up.
-/

namespace Zephyrtastic.PhoneApi

open List Option Run

inductive Call where
  | enqueueFromradio (m : FromRadio)
  | enqueueLogRecord (node : Node) (id : UInt32) (record : Bytes)
  | popFrame (node : Node)
  | currentFrame (node : Node)
  | releaseCurrentFrame
  | pushFrameFront (f : Frame)

section
variable {n : Nat} (encode : Encoder)
variable (a : Api n) (c : Call)

/-- A call with the protecting policy, and what it gave up. -/
def exec : Call → Api n × Option Lost
  | .enqueueFromradio m => a.enqueueFromradio encode .protect m
  | .enqueueLogRecord node id record => a.enqueueLogRecord encode node id record
  | .popFrame node => ((a.popFrame encode node).2, none)
  | .currentFrame node => ((a.currentFrame encode node).2, none)
  | .releaseCurrentFrame => (a.releaseCurrentFrame, none)
  | .pushFrameFront f => a.pushFrameFront f

def callStep : Api n := (exec encode a c).1

/-- The frame a call is to put into the queue. -/
def Api.incoming : Call → Option Frame
  | .enqueueFromradio m => fromradioFrame encode m
  | .enqueueLogRecord node id record =>
    if node.authorized a.adminAuthorized then logFrame encode id record else none
  | .pushFrameFront f => some f
  | _ => none

/-- Where a call puts its frame. -/
def Call.put (f : Frame) (q : List Frame) : Call → List Frame
  | .pushFrameFront _ => f :: q
  | _ => q ++ [f]

def Call.isLog : Call → Bool
  | .enqueueLogRecord _ _ _ => true
  | _ => false

/-- The frame that is gone. -/
def Lost.frame (q : List Frame) (f : Frame) : Lost → Option Frame
  | .queued k => q[k]?
  | .incoming => some f

/-- Among the queued frames it is the oldest of its rank; a frame that was to be queued
ranks below all of them, or is a log record. -/
def Lost.InTurn (q : List Frame) (f : Frame) (isLog : Bool) : Lost → Prop
  | .queued k => ∀ v, q[k]? = some v → ∀ j g, j < k → q[j]? = some g → v.evictRank ≠ g.evictRank
  | .incoming => (∀ g ∈ q, f.evictRank < g.evictRank) ∨ isLog = true

/-- The ladder: no frame of the queue and not the incoming one is cheaper than the frame
that is gone, and it was its turn. So a frame of the highest rank goes only where the
queue holds nothing else. -/
structure Ladder (q : List Frame) (f : Frame) (isLog : Bool) (lost : Lost) : Prop where
  least : ∃ v, lost.frame q f = some v ∧ ∀ g ∈ f :: q, v.evictRank ≤ g.evictRank
  inTurn : lost.InTurn q f isLog
  keep : ∀ v, lost.frame q f = some v → v.evictRank = .keep → ∀ g ∈ q, g.evictRank = .keep

/-- What a call gives up is what the ladder says. -/
def KeepsLadder : Prop :=
  ∀ f lost, a.incoming encode c = some f → (exec encode a c).2 = some lost →
    Ladder a.queue.contents f c.isLog lost

/-- Every frame is accounted for: a call that puts one into the queue gives up at most the
frame it says, and the others only take a frame out to hand it over. -/
def Accounted : Prop :=
  match a.incoming encode c with
  | some f =>
    (exec encode a c).1.queue.contents =
      Lost.after a.queue.contents (c.put f) (exec encode a c).2
  | none =>
    (exec encode a c).2 = none ∧
      ((exec encode a c).1.queue.contents = a.queue.contents ∨
        ∃ pre f post, a.queue.contents = pre ++ f :: post ∧
          (exec encode a c).1.queue.contents = pre ++ post)

/-- The condition on a call: a log record finds no status frame in a full queue, and a frame that
is handed back to one finds the newest frame cheaper than all the others and no dearer than
itself. -/
def CheapestGoes : Prop :=
  match c with
  | .enqueueLogRecord node id record =>
    a.queue.full = true → node.authorized a.adminAuthorized = true →
      (logFrame encode id record).isSome = true →
        ∀ g ∈ a.queue.contents, EvictRank.log ≤ g.evictRank
  | .pushFrameFront f =>
    a.queue.full = true → ∀ v, a.queue.contents.getLast? = some v →
      v.evictRank ≤ f.evictRank ∧ ∀ g ∈ a.queue.contents.dropLast, v.evictRank < g.evictRank
  | _ => True

end

section
variable {n : Nat} {encode : Encoder} {a : Api n} {f : Frame} {q : List Frame} {isLog : Bool}
variable {lost : Lost}

theorem Ladder.of_least {v : Frame} (hv : lost.frame q f = some v)
    (hle : v.evictRank ≤ f.evictRank) (hleast : ∀ g ∈ q, v.evictRank ≤ g.evictRank)
    (hturn : lost.InTurn q f isLog) : Ladder q f isLog lost where
  least := ⟨v, hv, fun g hg => by
    rcases mem_cons.mp hg with rfl | hq
    · exact hle
    · exact hleast g hq⟩
  inTurn := hturn
  keep := by
    intro w hw hkeep g hg
    obtain rfl := mem_unique hv hw
    exact le_antisymm g.evictRank.le_keep (hkeep ▸ hleast g hg)

/-- The frame the scan finds may go for any frame that is no cheaper. -/
theorem LeastAt.ladder {i : Nat} {rank : EvictRank} (h : LeastAt q i rank)
    (hle : rank ≤ f.evictRank) : Ladder q f isLog (.queued i) := by
  obtain ⟨⟨v, hv, rfl⟩, hleast, hold⟩ := h
  refine .of_least hv hle hleast ?_
  intro w hw j g hj hg
  obtain rfl := mem_unique hv hw
  exact (hold j g hj hg).ne

theorem scanCheapest_contents (a : Api n) :
    Best a.queue.contents (scanCheapest a.queue.contents 0 none) := by
  have hbest := scanCheapest_best a.queue.contents (show Best [] none from rfl)
  rwa [nil_append, length_nil] at hbest

theorem leastAt_of_keep (hpos : 0 < q.length) (h : ∀ g ∈ q, g.evictRank = .keep) :
    LeastAt q 0 .keep where
  found := ⟨q[0], getElem?_eq_getElem hpos, h _ (getElem_mem hpos)⟩
  least := fun g hg => (h g hg).ge
  oldest := fun j _ hj => absurd hj (Nat.not_lt_zero j)

theorem evictFor_ladder (hfull : a.queue.full = true)
    (h : (a.evictFor f).2 = some lost) : Ladder a.queue.contents f isLog lost := by
  have hbest := scanCheapest_contents a
  unfold Api.evictFor at h
  split at h
  · next i rank hscan =>
    obtain ⟨hsome, hcheap⟩ := filter_eq_some_iff.mp hscan
    cases h
    rw [hsome] at hbest
    exact hbest.ladder (of_decide_eq_true (Bool.and_eq_true_iff.mp hcheap).2)
  · next hscan =>
    -- every frame queued is dearer than the newcomer, or of the highest rank like it
    have hdear : ∀ g ∈ a.queue.contents, f.evictRank < g.evictRank ∨ g.evictRank = .keep := by
      intro g hg
      cases hs : scanCheapest a.queue.contents 0 none with
      | none =>
        rw [hs] at hbest
        rw [show a.queue.contents = [] from hbest] at hg
        cases hg
      | some best =>
        obtain ⟨i, rank⟩ := best
        rw [hs] at hbest hscan
        have hle : rank ≤ g.evictRank := hbest.least g hg
        have hnot : ¬ (rank < .keep ∧ rank ≤ f.evictRank) := by
          simpa using hscan
        by_cases hk : rank < .keep
        · exact .inl (lt_of_lt_of_le (not_le.mp fun hle => hnot ⟨hk, hle⟩) hle)
        · exact .inr (le_antisymm g.evictRank.le_keep ((not_lt.mp hk).trans hle))
    split at h
    · next hlow =>
      cases h
      have hbelow : ∀ g ∈ a.queue.contents, f.evictRank < g.evictRank := by
        intro g hg
        rcases hdear g hg with hlt | hk
        · exact hlt
        · rwa [hk]
      exact .of_least rfl le_rfl (fun g hg => (hbelow g hg).le) (.inl hbelow)
    · next hhigh =>
      cases h
      have hkeep : ∀ g ∈ a.queue.contents, g.evictRank = .keep := by
        intro g hg
        rcases hdear g hg with hlt | hk
        · exact absurd (lt_of_lt_of_le hlt g.evictRank.le_keep) hhigh
        · exact hk
      exact (leastAt_of_keep (pos_of_full a hfull) hkeep).ladder (not_lt.mp hhigh)

theorem enqueueFrame_ladder (h : (a.enqueueFrame .protect f).2 = some lost) :
    Ladder a.queue.contents f isLog lost := by
  unfold Api.enqueueFrame at h
  split at h
  · next hfull => exact evictFor_ladder hfull h
  · cases h

/-- The newest frame goes in its turn exactly where it is the cheapest by itself. -/
theorem newest_ladder_iff (hfull : a.queue.full = true) :
    Ladder a.queue.contents f isLog (.queued (n - 1)) ↔
      ∀ v, a.queue.contents.getLast? = some v →
        v.evictRank ≤ f.evictRank ∧
          ∀ g ∈ a.queue.contents.dropLast, v.evictRank < g.evictRank := by
  have hlen := Ring.full_iff.mp hfull
  have hpos := pos_of_full a hfull
  have hlast : a.queue.contents[n - 1]? = a.queue.contents.getLast? := by
    rw [getLast?_eq_getElem?, hlen]
  constructor
  · intro h v hv
    obtain ⟨w, hw, hleast⟩ := h.least
    obtain rfl : w = v := mem_unique hw (hlast.trans hv)
    refine ⟨hleast f mem_cons_self, fun g hg => ?_⟩
    obtain ⟨j, hj, rfl⟩ := getElem_of_mem hg
    rw [length_dropLast] at hj
    rw [getElem_dropLast]
    refine lt_of_le_of_ne (hleast _ (mem_cons_of_mem f (getElem_mem _))) ?_
    exact h.inTurn w hw j _ (by omega) (getElem?_eq_getElem (by omega))
  · intro h
    obtain ⟨v, hv⟩ : ∃ v, a.queue.contents.getLast? = some v :=
      ⟨_, getLast?_eq_some_getLast (ne_nil_of_length_pos hpos)⟩
    obtain ⟨hle, hlt⟩ := h v hv
    have hsplit := dropLast_append_getLast? v hv
    refine .of_least (hlast.trans hv) hle ?_ ?_
    · intro g hg
      rw [← hsplit] at hg
      rcases mem_append.mp hg with hg | hg
      · exact (hlt g hg).le
      · rw [mem_singleton.mp hg]
    · intro w hw j g hj hg
      obtain rfl := mem_unique hw (hlast.trans hv)
      refine (hlt g ?_).ne
      rw [← hsplit, getElem?_append_left (by rw [length_dropLast]; omega)] at hg
      exact mem_of_getElem? hg

theorem enqueueLogRecord_lost {node : Node} {id : UInt32} {record : Bytes}
    (hauth : node.authorized a.adminAuthorized = true) (hf : logFrame encode id record = some f) :
    f.evictRank = .log ∧ (a.enqueueLogRecord encode node id record).2 =
      if a.queue.full then some .incoming else none := by
  constructor
  · obtain ⟨g, -, rfl⟩ := map_eq_some_iff.mp hf
    rfl
  · simp only [Api.enqueueLogRecord, hf, hauth, Bool.not_true, Bool.false_eq_true, if_false]
    split <;> rfl

theorem keepsLadder_iff (a : Api n) (c : Call) :
    KeepsLadder encode a c ↔ CheapestGoes encode a c := by
  cases c with
  | enqueueFromradio m =>
    refine iff_of_true ?_ trivial
    intro f lost hf hlost
    change fromradioFrame encode m = some f at hf
    simp only [exec, Api.enqueueFromradio, hf] at hlost
    exact enqueueFrame_ladder hlost
  | enqueueLogRecord node id record =>
    constructor
    · intro h hfull hauth hsome g hg
      obtain ⟨f, hf⟩ := isSome_iff_exists.mp hsome
      obtain ⟨hrank, hlost⟩ := enqueueLogRecord_lost hauth hf
      obtain ⟨v, hv, hleast⟩ :=
        (h f .incoming ((if_pos hauth).trans hf) (hlost.trans (if_pos hfull))).least
      obtain rfl := some.inj hv
      rw [← hrank]
      exact hleast g (mem_cons_of_mem f hg)
    · intro h f lost hf hlost
      obtain ⟨hauth, hf⟩ := ite_none_right_eq_some.mp hf
      obtain ⟨hrank, hlost'⟩ := enqueueLogRecord_lost hauth hf
      obtain ⟨hfull, heq⟩ := ite_none_right_eq_some.mp (hlost'.symm.trans hlost)
      cases heq
      refine .of_least rfl le_rfl (fun g hg => ?_) (.inr rfl)
      rw [hrank]
      exact h hfull hauth (isSome_of_mem hf) g hg
  | popFrame node | currentFrame node | releaseCurrentFrame =>
    exact iff_of_true (fun _ _ hf => nomatch hf) trivial
  | pushFrameFront f =>
    by_cases hfull : a.queue.full = true
    · have hlost : (exec encode a (.pushFrameFront f)).2 = some (.queued (n - 1)) := by
        simp only [exec, Api.pushFrameFront, hfull, if_true]
      constructor
      · intro h _
        exact (newest_ladder_iff hfull).mp (h f _ rfl hlost)
      · intro h f' lost hf hl
        cases hf
        rw [hlost] at hl
        cases hl
        exact (newest_ladder_iff hfull).mpr (h hfull)
    · refine iff_of_true ?_ fun h => absurd h hfull
      intro f' lost _ hl
      simp only [exec, Api.pushFrameFront, hfull] at hl
      cases hl

theorem accounted (a : Api n) (c : Call) : Accounted encode a c := by
  unfold Accounted
  cases c with
  | enqueueFromradio m =>
    simp only [Api.incoming, exec, Api.enqueueFromradio]
    cases fromradioFrame encode m with
    | none => exact ⟨rfl, .inl rfl⟩
    | some f => exact contents_enqueueFrame a f .protect
  | enqueueLogRecord node id record =>
    simp only [Api.incoming, exec, Api.enqueueLogRecord]
    cases hauth : node.authorized a.adminAuthorized with
    | false =>
      cases logFrame encode id record with
      | none | some f => exact ⟨rfl, .inl rfl⟩
    | true =>
      cases logFrame encode id record with
      | none => exact ⟨rfl, .inl rfl⟩
      | some f =>
        by_cases hfull : a.queue.full = true
        · simp only [hfull, if_true, Bool.not_true, Bool.false_eq_true, if_false]
          rfl
        · simp only [hfull, Bool.not_true, Bool.false_eq_true, if_false, if_true]
          exact Ring.contents_pushBack f (Ring.length_lt_of_not_full hfull)
  | popFrame node => exact ⟨rfl, (takeNext_taken encode node a).contents⟩
  | currentFrame node =>
    refine ⟨rfl, ?_⟩
    simp only [exec, Api.currentFrame]
    split
    · exact .inl rfl
    split
    · exact .inl rfl
    · have htaken := (takeNext_taken encode node a).contents
      split <;> next heq => rwa [heq] at htaken
  | releaseCurrentFrame => exact ⟨rfl, .inl rfl⟩
  | pushFrameFront f => exact contents_pushFrameFront a f

end

/-- **What a full queue gives up.** Every frame is accounted for, and the ladder of ranks
is kept through a run of calls exactly where every log record finds no status frame in a full
queue, and every frame that is handed back to one finds the newest frame cheaper than the others
and no dearer than itself. -/
theorem ladder_kept_iff {n : Nat} (encode : Encoder) (a : Api n) (calls : List Call) :
    Guarded (callStep encode) (Accounted encode) a calls ∧
      (Guarded (callStep encode) (KeepsLadder encode) a calls ↔
        Guarded (callStep encode) (CheapestGoes encode) a calls) := by
  constructor
  · intro done c _
    exact accounted _ c
  · exact Guarded.congr fun a c => keepsLadder_iff a c

/-- A queue of two: a text is read, but its delivery fails after another text came in
behind a position. It takes the place of the newer text, and the position stays. -/
theorem text_lost_for_position :
    let text : FromRadio := ⟨1, .packet (.decoded 1 [])⟩
    let position : FromRadio := ⟨2, .packet (.decoded positionApp [])⟩
    let newer : FromRadio := ⟨3, .packet (.decoded 1 [])⟩
    let calls : List Call :=
      [.enqueueFromradio text, .enqueueFromradio position, .popFrame (.bare none),
        .enqueueFromradio newer]
    let start : Api 2 := .init (by decide) false 1
    let a := run (callStep idEncoder) start calls
    let handed : Frame := ⟨[1], .keep, false⟩
    a.queue.contents = [⟨[2], .sample, false⟩, ⟨[3], .keep, false⟩] ∧
      (a.pushFrameFront handed).1.queue.contents = [handed, ⟨[2], .sample, false⟩] ∧
      ¬ Guarded (callStep idEncoder) (KeepsLadder idEncoder) start
        (calls ++ [.pushFrameFront handed]) := by
  refine ⟨by decide +kernel, by decide +kernel, fun h => ?_⟩
  have hgone := (h.last ⟨[1], .keep, false⟩ (.queued 1) rfl (by decide +kernel)).keep
    ⟨[3], .keep, false⟩ (by decide +kernel) rfl ⟨[2], .sample, false⟩ (by decide +kernel)
  cases hgone

end Zephyrtastic.PhoneApi
