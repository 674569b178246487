import Mathlib.Algebra.Group.Nat.Defs
import Zephyrtastic.Cluster.Ingest

/-!
# The requester's half of the walk

A pull asks one peer for its stamp vector, diffs each chunk against the
document, and collects at most one request's worth of keys. `scanVector_eq`
reduces the diff of a chunk to `collect` over the verdicts on its rows.
-/

namespace Zephyrtastic.Cluster

open List State

section Pull
variable {nd : Node}
variable (c : State nd) (env : Env)

/-- One more fruitless walk, in a byte that stops at its maximum. -/
def moreFruitless (fruitless : Nat) : Nat := if fruitless < 255 then fruitless + 1 else fruitless

theorem le_moreFruitless (f : Nat) : f ≤ moreFruitless f := by
  unfold moreFruitless
  split <;> omega

theorem min_le_moreFruitless {k f : Nat} (h : min k 255 ≤ f + 1) : min k 255 ≤ moreFruitless f := by
  unfold moreFruitless
  split <;> omega

/-- Judge the previous walk, when it asked for entries, by whether anything merged. -/
def State.judgeAsked : State nd :=
  if c.pullAskedEntries then
    if c.stats .entryRxApplied = c.pullLastApplied then
      { c with
        pullAskedEntries := false
        pullFruitless := moreFruitless c.pullFruitless
        stats := c.stats.add .pullFruitless 1 }
    else { c with pullAskedEntries := false, pullFruitless := 0 }
  else c

def State.pullOpen (peer : UInt32) (delayMs : Nat) (reason : PullReason) : State nd :=
  { c with
    pullState := .sendVectorReq
    pullReason := reason
    pullPeer := peer
    pullKeys := []
    pullDeadlineMs := env.uptimeMs + delayMs + nd.syncTimeoutSec * 1000
    stats := c.stats.add .pullStarted 1 }

/-- How long a fruitless run holds the next walk back. -/
def Node.holdMs (nd : Node) (fruitless : Nat) : Nat :=
  nd.digestPeriodSec * 1000 * 2 ^ min (fruitless - fruitlessThreshold) fruitlessMaxShift

/-- Open an exchange with a peer; false when one is in flight or held back. -/
def State.pullStart (peer : UInt32) (delayMs : Nat) (reason : PullReason) : Bool × State nd :=
  if c.pullState ≠ .idle ∨ peer = 0 ∨ peer = nd.me then (false, c)
  else
    let c := c.judgeAsked
    if reason ≠ .backstop ∧ c.pullFruitless ≥ fruitlessThreshold then
      if env.uptimeMs < c.pullHoldUntilMs then (false, c.count .pullHeld)
      else (true, { c with pullHoldUntilMs := env.uptimeMs + nd.holdMs c.pullFruitless }.pullOpen
        env peer delayMs reason)
    else (true, c.pullOpen env peer delayMs reason)

/-- One row of a vector; true when it is claimed and does not fit. -/
def State.vectorRow (mine : Scope) (row : KeyStampPb) : State nd × Bool :=
  match row.key, row.stamp with
  | some keyPb, some stamp =>
    if !sectionShareable (keyFromPb keyPb).sec || !stampWithinHorizon env stamp then (c, false)
    else
      let c := c.observe env stamp
      match c.doc.want mine (keyFromPb keyPb) stamp with
      | .yes => ({ c with pullKeys := c.pullKeys ++ [keyFromPb keyPb] }, false)
      | .noSpace => (c.count .wantNoSpace, true)
      | .no => (c, false)
  | _, _ => (c, false)

/-- The rows of a chunk, until the request is full. -/
def State.scanVector (env : Env) (mine : Scope) : List KeyStampPb → State nd → Bool →
    State nd × Bool
  | [], c, noSpace => (c, noSpace)
  | row :: rest, c, noSpace =>
    if c.pullKeys.length < pullKeysMax then
      scanVector env mine rest (c.vectorRow env mine row).1
        (noSpace || (c.vectorRow env mine row).2)
    else (c, noSpace)

/-- The chunk reaches the end of the sender's vector. -/
def VectorPb.isLast (v : VectorPb) : Bool :=
  decide (v.total = 0) || decide (v.offset + UInt32.ofNat v.entries.length ≥ v.total)

/-- A walk that asked for nothing is judged on the spot. -/
def State.pullEmpty (c : State nd) : State nd :=
  let c := c.count .pullEmpty
  if c.pullReason = .digest then
    { c with
      pullFruitless := moreFruitless c.pullFruitless
      stats := c.stats.add .pullFruitless 1 }.pullReset
  else c.pullReset

/-- The end of a chunk that was diffed without running out of table. -/
def State.chunkDone (v : VectorPb) : State nd :=
  if c.pullKeys.length ≥ pullKeysMax ∨ v.isLast then
    if c.pullKeys.length > 0 then { c with pullState := .sendEntryReq } else c.pullEmpty
  else c

def State.onVector (sender : UInt32) (v : VectorPb) : State nd :=
  if c.pullState ≠ .awaitVector ∨ sender ≠ c.pullPeer then
    if sender ≠ c.pullPeer then c.count .rxUnsolicited else c
  else
    let r := State.scanVector env c.myScope v.entries (c.count .vectorRx) false
    if r.2 then r.1.demote.pullReset else r.1.chunkDone v

/-- What a finished chunk leaves: more to come, a request to send, or nothing to
ask for. -/
inductive ChunkEnd (c : State nd) (v : VectorPb) : Prop
  | more (hd : c.chunkDone v = c)
  | asks (hd : c.chunkDone v = { c with pullState := .sendEntryReq })
  | empty (hk : c.pullKeys = []) (hd : c.chunkDone v = c.pullEmpty)

variable (c : State nd)

theorem chunkDone_end (v : VectorPb) : ChunkEnd c v := by
  by_cases hdone : c.pullKeys.length ≥ pullKeysMax ∨ v.isLast = true
  · by_cases hpos : c.pullKeys.length > 0
    · exact .asks (by rw [chunkDone, if_pos hdone, if_pos hpos])
    · refine .empty (length_eq_zero_iff.mp (by omega)) ?_
      rw [chunkDone, if_pos hdone, if_neg hpos]
  · exact .more (by rw [chunkDone, if_neg hdone])

/-- What a start does. A walk is opened only from idle; past the threshold the hold
is over and armed again. -/
inductive Started (c : State nd) (env : Env) (peer : UInt32) (delayMs : Nat)
    (reason : PullReason) : Prop
  | refused (he : c.pullStart env peer delayMs reason = (false, c))
  | held (hidle : c.pullState = .idle)
      (he : c.pullStart env peer delayMs reason = (false, c.judgeAsked.count .pullHeld))
  | rearmed (hidle : c.pullState = .idle) (hpeer : peer ≠ 0 ∧ peer ≠ nd.me)
      (hf : fruitlessThreshold ≤ c.judgeAsked.pullFruitless)
      (hlate : c.judgeAsked.pullHoldUntilMs ≤ env.uptimeMs)
      (he : c.pullStart env peer delayMs reason = (true, { c.judgeAsked with
        pullHoldUntilMs := env.uptimeMs + nd.holdMs c.judgeAsked.pullFruitless }.pullOpen
          env peer delayMs reason))
  | opened (hidle : c.pullState = .idle) (hpeer : peer ≠ 0 ∧ peer ≠ nd.me)
      (hf : reason ≠ .backstop → c.judgeAsked.pullFruitless < fruitlessThreshold)
      (he : c.pullStart env peer delayMs reason =
        (true, c.judgeAsked.pullOpen env peer delayMs reason))

theorem pullStart_started (env : Env) (peer : UInt32) (delayMs : Nat)
    (reason : PullReason) : Started c env peer delayMs reason := by
  by_cases hin : c.pullState ≠ .idle ∨ peer = 0 ∨ peer = nd.me
  · exact .refused (by rw [pullStart, if_pos hin])
  obtain ⟨hidle, hpeer⟩ : c.pullState = .idle ∧ peer ≠ 0 ∧ peer ≠ nd.me := by
    simpa only [not_or, not_not] using hin
  by_cases hf : reason ≠ .backstop ∧ c.judgeAsked.pullFruitless ≥ fruitlessThreshold
  · by_cases hlate : env.uptimeMs < c.judgeAsked.pullHoldUntilMs
    · refine .held hidle ?_
      simp only [pullStart, if_neg hin, if_pos hf, if_pos hlate]
    · refine .rearmed hidle hpeer hf.2 (not_lt.mp hlate) ?_
      simp only [pullStart, if_neg hin, if_pos hf, if_neg hlate]
  · refine .opened hidle hpeer (fun hr => ?_) ?_
    · by_contra hge
      exact hf ⟨hr, not_lt.mp hge⟩
    · simp only [pullStart, if_neg hin, if_neg hf]

theorem pullEmpty_idle : c.pullEmpty.pullKeys = [] ∧ c.pullEmpty.pullState = .idle := by
  simp only [pullEmpty]
  split <;> exact ⟨rfl, rfl⟩

end Pull

/-- Keys of the wanted rows until `n` are collected, and whether a row among
those looked at did not fit. -/
def collect : Nat → List (Key × Want) → List Key × Bool
  | _, [] => ([], false)
  | 0, _ => ([], false)
  | n + 1, (key, .yes) :: rest => (key :: (collect n rest).1, (collect n rest).2)
  | n + 1, (_, .noSpace) :: rest => ((collect (n + 1) rest).1, true)
  | n + 1, (_, .no) :: rest => collect (n + 1) rest

section Collect

variable (n : Nat) (rows : List (Key × Want))

@[simp] theorem collect_zero : collect 0 rows = ([], false) := by
  cases rows <;> rfl

/-- Collecting over two chunks is collecting over the first and going on with
what is left to ask for. -/
theorem collect_append (xs ys : List (Key × Want)) :
    collect n (xs ++ ys) =
      ((collect n xs).1 ++ (collect (n - (collect n xs).1.length) ys).1,
        (collect n xs).2 || (collect (n - (collect n xs).1.length) ys).2) := by
  fun_induction collect n xs with
  | case1 => simp
  | case2 => simp
  | case3 n key rest ih =>
    have : n + 1 - (key :: (collect n rest).1).length = n - (collect n rest).1.length := by
      simp
    simp only [cons_append, collect, ih, this]
  | case4 n key rest ih => simp [collect, ih]
  | case5 n key rest ih => simpa [collect] using ih

/-- What is collected is the first wanted keys, in order. -/
theorem collect_fst :
    (collect n rows).1 = ((rows.filter fun r => r.2 = .yes).map Prod.fst).take n := by
  fun_induction collect n rows with
  | case1 => simp
  | case2 => simp
  | case3 n key rest ih => simp [ih]
  | case4 n key rest ih => simp [ih]
  | case5 n key rest ih => simp [ih]

/-- A new key that does not fit stands before the last of `n` wanted rows. -/
def Overflows (n : Nat) (rows : List (Key × Want)) : Prop :=
  ∃ before key after, rows = before ++ (key, .noSpace) :: after ∧
    (before.filter fun r => r.2 = .yes).length < n

variable {n rows} in
theorem collect_snd : (collect n rows).2 = true ↔ Overflows n rows := by
  unfold Overflows
  fun_induction collect n rows with
  | case1 => simp
  | case2 => simp
  | case3 n key rest ih =>
    rw [ih]
    constructor
    · rintro ⟨before, k, after, rfl, hlt⟩
      exact ⟨(key, .yes) :: before, k, after, rfl, by simpa using hlt⟩
    · rintro ⟨before, k, after, he, hlt⟩
      cases before with
      | nil => simp at he
      | cons r before =>
        obtain ⟨rfl, rfl⟩ := cons.inj he
        exact ⟨before, k, after, rfl, by simpa using hlt⟩
  | case4 n key rest ih =>
    exact iff_of_true rfl ⟨[], key, rest, rfl, by simp⟩
  | case5 n key rest ih =>
    rw [ih]
    constructor
    · rintro ⟨before, k, after, rfl, hlt⟩
      exact ⟨(key, .no) :: before, k, after, rfl, by simpa using hlt⟩
    · rintro ⟨before, k, after, he, hlt⟩
      cases before with
      | nil => simp at he
      | cons r before =>
        obtain ⟨rfl, rfl⟩ := cons.inj he
        exact ⟨before, k, after, rfl, by simpa using hlt⟩

end Collect

/-- What the diff makes of one row: the gates before it, then `want`. -/
def rowVerdict {cap : Nat} (doc : Doc cap) (mine : Scope) (env : Env) (row : KeyStampPb) :
    Key × Want :=
  match row.key, row.stamp with
  | some keyPb, some stamp => (keyFromPb keyPb,
      if !sectionShareable (keyFromPb keyPb).sec || !stampWithinHorizon env stamp then .no
      else doc.want mine (keyFromPb keyPb) stamp)
  | _, _ => (⟨0, 0, 0⟩, .no)

section Scan
variable {nd : Node}

/-- Only the clock, the collected keys and counters other than the merge count
moved. -/
def State.OnlyKeys (c c' : State nd) (keys : List Key) : Prop :=
  ∃ hlc stats, c' = { c with hlc, stats, pullKeys := c.pullKeys ++ keys } ∧
    stats .entryRxApplied = c.stats .entryRxApplied

variable {c c' : State nd}
variable {keys : List Key}

section
variable (h : c.OnlyKeys c' keys)
include h

theorem State.OnlyKeys.trans {c'' : State nd} {keys' : List Key} (h' : c'.OnlyKeys c'' keys') :
    c.OnlyKeys c'' (keys ++ keys') := by
  obtain ⟨hlc, st, rfl, ha⟩ := h
  obtain ⟨hlc', st', rfl, ha'⟩ := h'
  exact ⟨hlc', st', by simp only [append_assoc], ha'.trans ha⟩

theorem State.OnlyKeys.doc : c'.doc = c.doc := by
  obtain ⟨_, _, rfl, _⟩ := h
  rfl

theorem State.OnlyKeys.claim : c'.scopeKind = c.scopeKind ∧ c'.scopePinned = c.scopePinned := by
  obtain ⟨_, _, rfl, _⟩ := h
  exact ⟨rfl, rfl⟩

theorem State.OnlyKeys.fixed (hf : c.Fixed) : c'.Fixed := by
  obtain ⟨_, _, rfl, _⟩ := h
  exact hf

theorem State.OnlyKeys.pullKeys : c'.pullKeys = c.pullKeys ++ keys := by
  obtain ⟨_, _, rfl, _⟩ := h
  rfl

theorem State.OnlyKeys.pullState : c'.pullState = c.pullState := by
  obtain ⟨_, _, rfl, _⟩ := h
  rfl

end

section
variable (c : State nd) (env : Env)

theorem State.onlyKeys_nil (hlc : Hlc) : c.OnlyKeys { c with hlc } [] :=
  ⟨hlc, c.stats, by simp only [append_nil], rfl⟩

theorem State.onlyKeys_count {k : Counter} (hk : Counter.entryRxApplied ≠ k) :
    c.OnlyKeys (c.count k) [] :=
  ⟨c.hlc, c.stats.add k 1, by simp only [count, append_nil], Stats.add_of_ne hk⟩

theorem vectorRow_cases (mine : Scope) (row : KeyStampPb) :
    ((rowVerdict c.doc mine env row).2 = .yes ∧ (c.vectorRow env mine row).2 = false ∧
      c.OnlyKeys (c.vectorRow env mine row).1 [(rowVerdict c.doc mine env row).1]) ∨
    ((rowVerdict c.doc mine env row).2 = .noSpace ∧ (c.vectorRow env mine row).2 = true ∧
      c.OnlyKeys (c.vectorRow env mine row).1 []) ∨
    ((rowVerdict c.doc mine env row).2 = .no ∧ (c.vectorRow env mine row).2 = false ∧
      c.OnlyKeys (c.vectorRow env mine row).1 []) := by
  unfold vectorRow rowVerdict
  split
  · rename_i keyPb stamp _ _
    simp only [observe]
    split
    · exact .inr (.inr ⟨rfl, rfl, c.onlyKeys_nil c.hlc⟩)
    cases hw : c.doc.want mine (keyFromPb keyPb) stamp with
    | yes => exact .inl ⟨rfl, rfl, _, c.stats, rfl, rfl⟩
    | noSpace =>
      refine .inr (.inl ⟨rfl, rfl, (c.hlc.observeAt stamp env.observeMs).2,
        c.stats.add .wantNoSpace 1, ?_, Stats.add_of_ne nofun⟩)
      simp only [State.count, append_nil]
    | no => exact .inr (.inr ⟨rfl, rfl, c.onlyKeys_nil _⟩)
  · exact .inr (.inr ⟨rfl, rfl, c.onlyKeys_nil c.hlc⟩)

theorem scanVector_eq (mine : Scope) (rows : List KeyStampPb) (c : State nd) (noSpace : Bool) :
    c.OnlyKeys (scanVector env mine rows c noSpace).1
      (collect (pullKeysMax - c.pullKeys.length) (rows.map (rowVerdict c.doc mine env))).1 ∧
    (scanVector env mine rows c noSpace).2 = (noSpace ||
      (collect (pullKeysMax - c.pullKeys.length) (rows.map (rowVerdict c.doc mine env))).2) := by
  induction rows generalizing c noSpace with
  | nil => simpa [scanVector, collect] using c.onlyKeys_nil c.hlc
  | cons row rest ih =>
    simp only [scanVector, map_cons]
    split
    · obtain ⟨n, hn⟩ : ∃ n, pullKeysMax - c.pullKeys.length = n + 1 :=
        ⟨pullKeysMax - c.pullKeys.length - 1, by omega⟩
      obtain ⟨hk, hb⟩ := ih (c.vectorRow env mine row).1 (noSpace || (c.vectorRow env mine row).2)
      have hv : rowVerdict c.doc mine env row =
        ((rowVerdict c.doc mine env row).1, (rowVerdict c.doc mine env row).2) := rfl
      rcases vectorRow_cases c env mine row with ⟨hw, hf, hr⟩ | ⟨hw, hf, hr⟩ | ⟨hw, hf, hr⟩ <;>
        obtain ⟨hlc, st, hc, ha⟩ := id hr <;> rw [hc] at hk hb hr ⊢ <;>
        simp only [length_append, length_cons, length_nil, hf,
          Bool.or_false] at hk hb ⊢ <;>
        rw [hv, hw, hn]
      · have hm : pullKeysMax - (c.pullKeys.length + (0 + 1)) = n := by omega
        rw [hm] at hk hb
        exact ⟨hr.trans hk, hb⟩
      · rw [Nat.add_zero, hn] at hk hb
        refine ⟨hr.trans hk, ?_⟩
        rw [hb]
        simp [collect]
      · rw [Nat.add_zero, hn] at hk hb
        exact ⟨hr.trans hk, hb⟩
    · have h0 : pullKeysMax - c.pullKeys.length = 0 := by omega
      rw [h0]
      simpa using c.onlyKeys_nil c.hlc

/-- What the rows of a chunk add to the request, and whether one did not fit. -/
def State.collected (v : VectorPb) : List Key × Bool :=
  collect (pullKeysMax - c.pullKeys.length) (v.entries.map (rowVerdict c.doc c.myScope env))

/-- **Everything a vector chunk can do**: it is not the answer we wait for; or a
claimed row does not fit and the walk is abandoned; or its keys are collected. -/
inductive Diffed (sender : UInt32) (v : VectorPb) : Prop
  | ignored (hout : c.pullState ≠ .awaitVector ∨ sender ≠ c.pullPeer)
      (hk : c.OnlyKeys (c.onVector env sender v) [])
  | abandoned (c' : State nd) (hwait : c.pullState = .awaitVector) (hpeer : sender = c.pullPeer)
      (hk : c.OnlyKeys c' (c.collected env v).1) (hover : (c.collected env v).2 = true)
      (he : c.onVector env sender v = c'.demote.pullReset)
  | collected (c' : State nd) (hwait : c.pullState = .awaitVector) (hpeer : sender = c.pullPeer)
      (hk : c.OnlyKeys c' (c.collected env v).1) (hfit : (c.collected env v).2 = false)
      (he : c.onVector env sender v = c'.chunkDone v)

theorem onVector_diffed (sender : UInt32) (v : VectorPb) : Diffed c env sender v := by
  by_cases hout : c.pullState ≠ .awaitVector ∨ sender ≠ c.pullPeer
  · refine .ignored hout ?_
    rw [onVector, if_pos hout]
    split
    · exact c.onlyKeys_count (by decide)
    · exact c.onlyKeys_nil c.hlc
  · obtain ⟨hwait, hpeer⟩ : c.pullState = .awaitVector ∧ sender = c.pullPeer := by
      simpa only [not_or, not_not] using hout
    have hrx : c.OnlyKeys (c.count .vectorRx) [] := c.onlyKeys_count (by decide)
    obtain ⟨hk, hb⟩ := scanVector_eq env c.myScope v.entries (c.count .vectorRx) false
    cases hn : (scanVector env c.myScope v.entries (c.count .vectorRx) false).2 with
    | true =>
      refine .abandoned _ hwait hpeer (hrx.trans hk) (hb.symm.trans hn) ?_
      simp only [onVector, if_neg hout, hn, if_true]
    | false =>
      refine .collected _ hwait hpeer (hrx.trans hk) (hb.symm.trans hn) ?_
      simp only [onVector, if_neg hout, hn, Bool.false_eq_true, if_false]

theorem State.OnlyKeys.sameTables (h : c.OnlyKeys c' keys) : c.SameTables c' := by
  obtain ⟨_, _, rfl, _⟩ := h
  exact ⟨rfl, rfl, rfl, rfl⟩

end

variable (c)

theorem pullEmpty_sameTables : c.SameTables c.pullEmpty := by
  simp only [pullEmpty]
  split <;> exact ⟨rfl, rfl, rfl, rfl⟩

theorem chunkDone_sameTables (v : VectorPb) : c.SameTables (c.chunkDone v) := by
  cases chunkDone_end c v with
  | more hd => rw [hd]; exact SameTables.refl c
  | asks hd => rw [hd]; exact ⟨rfl, rfl, rfl, rfl⟩
  | empty _ hd => rw [hd]; exact pullEmpty_sameTables c

/-- The chunk shows a claimed row the table has no room for. -/
def State.SeesOverflow (c : State nd) (env : Env) (sender : UInt32) (v : VectorPb) : Prop :=
  c.pullState = .awaitVector ∧ sender = c.pullPeer ∧
    Overflows (pullKeysMax - c.pullKeys.length)
      (v.entries.map (rowVerdict c.doc c.myScope env))

theorem onVector_tables (env : Env) (sender : UInt32) (v : VectorPb) :
    c.SameTables (c.onVector env sender v) ∨
    c.SeesOverflow env sender v ∧ ¬ c.Fixed ∧ c.Rescoped (c.onVector env sender v) .core := by
  cases onVector_diffed c env sender v with
  | ignored _ hk => exact .inl hk.sameTables
  | collected c' _ _ hk _ he =>
    rw [he]
    exact .inl (hk.sameTables.trans (chunkDone_sameTables c' v))
  | abandoned c' hwait hpeer hk hover he =>
    have hreset := c'.demote.sameTables_pullReset
    rw [he]
    obtain hd | ⟨hf, hd⟩ := demote_cases c'
    · rw [hd] at hreset ⊢
      exact .inl (hk.sameTables.trans hreset)
    · refine .inr ⟨⟨hwait, hpeer, collect_snd.mp hover⟩, ?_, ?_⟩
      · simpa only [Fixed, hk.claim.1, hk.claim.2] using hf
      · exact Rescoped.of_same hk.sameTables (hd.then_same hreset)

theorem judgeAsked_quiet : c.Quiet c.judgeAsked := by
  unfold judgeAsked
  split
  · split <;> exact ⟨⟨rfl, rfl, rfl, rfl⟩, rfl⟩
  · exact Quiet.refl c

theorem pullStart_quiet (env : Env) (peer : UInt32) (delayMs : Nat)
    (reason : PullReason) : c.Quiet (c.pullStart env peer delayMs reason).2 := by
  have hj := judgeAsked_quiet c
  cases pullStart_started c env peer delayMs reason with
  | refused he => rw [he]; exact Quiet.refl c
  | held _ he | rearmed _ _ _ _ he | opened _ _ _ he =>
    rw [he]; exact hj.trans ⟨⟨rfl, rfl, rfl, rfl⟩, rfl⟩

end Scan

end Zephyrtastic.Cluster
