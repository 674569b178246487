import Mathlib.Data.Prod.Lex

/-!
# The hybrid logical clock

Clock state, minted stamps and the last-writer-wins order. Physical time is a
64-bit signed count of milliseconds and the counter is 32-bit unsigned, both
with the wrap-around of the machine types.
-/

namespace Zephyrtastic

/-- Clock state of one node. The all-zero clock is the starting state. -/
structure Hlc where
  physicalMs : Int64
  counter : UInt32
  deriving Repr

/-- A version stamped onto a value: the clock pair and the minting node. -/
@[ext] structure Stamp where
  physicalMs : Int64
  counter : UInt32
  nodeId : UInt32
  deriving Repr

namespace Hlc

def zero : Hlc := ⟨0, 0⟩

/-- How far ahead of the wall clock a peer's stamp may drag ours. -/
def maxDriftMs : Int64 := 5 * 60 * 1000

/-- `MAX(a, b)`. -/
def max64 (a b : Int64) : Int64 := if a > b then a else b

/-- The saturating counter step: a full counter is spent as one millisecond. -/
def bumpCounter (physicalMs : Int64) (start : UInt32) : Hlc :=
  if start = 4294967295 then ⟨physicalMs + 1, 0⟩ else ⟨physicalMs, start + 1⟩

/-- A negative wall clock is read as unseeded. -/
def wall (nowMs : Int64) : Int64 := if nowMs < 0 then 0 else nowMs

/-- Mint a version for a local write. -/
def localAt (hlc : Hlc) (nodeId : UInt32) (nowMs : Int64) : Hlc × Stamp :=
  let now := wall nowMs
  let physicalMs := max64 hlc.physicalMs now
  let next := if physicalMs = hlc.physicalMs then bumpCounter physicalMs hlc.counter
    else ⟨physicalMs, 0⟩
  (next, ⟨next.physicalMs, next.counter, nodeId⟩)

/-- A stamp further ahead than the drift window does not advance a seeded clock. -/
def clamped (remote : Stamp) (now : Int64) : Bool :=
  decide (now > 0) && decide (remote.physicalMs > now + maxDriftMs)

/-- The merge half of an observation: the latest of our clock, the remote pair
and the wall clock, stepped past whichever counters stand in that millisecond. -/
def advance (hlc : Hlc) (remoteMs : Int64) (remoteCounter : UInt32) (now : Int64) : Hlc :=
  let prev := hlc.physicalMs
  let l := max64 prev (max64 remoteMs now)
  if l = prev ∧ l = remoteMs then
    bumpCounter l (if hlc.counter > remoteCounter then hlc.counter else remoteCounter)
  else if l = prev then bumpCounter l hlc.counter
  else if l = remoteMs then bumpCounter l remoteCounter
  else ⟨l, 0⟩

/-- Fold an observed stamp into the clock; true when it was clamped. -/
def observeAt (hlc : Hlc) (remote : Stamp) (nowMs : Int64) : Bool × Hlc :=
  let now := wall nowMs
  let remoteMs := if clamped remote now then now else remote.physicalMs
  (clamped remote now, hlc.advance remoteMs remote.counter now)

/-- Clocks compare by physical time, then by counter. -/
def rank (h : Hlc) : Int ×ₗ Nat := toLex (h.physicalMs.toInt, h.counter.toNat)

theorem rank_injective : Function.Injective rank := by
  rintro ⟨p, c⟩ ⟨q, d⟩ h
  have hp : p.toInt = q.toInt := congrArg (fun x => (ofLex x).1) h
  have hc : c.toNat = d.toNat := congrArg (fun x => (ofLex x).2) h
  rw [Int64.toInt_inj.mp hp, UInt32.toNat_inj.mp hc]

instance : LinearOrder Hlc := LinearOrder.lift' rank rank_injective

theorem lt_iff {a b : Hlc} : a < b ↔ a.physicalMs.toInt < b.physicalMs.toInt ∨
    a.physicalMs.toInt = b.physicalMs.toInt ∧ a.counter.toNat < b.counter.toNat :=
  Prod.Lex.toLex_lt_toLex

end Hlc

namespace Stamp

/-- The stamp of a value nobody has versioned. -/
def unset : Stamp := ⟨0, 0, 0⟩

def isUnset (s : Stamp) : Bool :=
  decide (s.physicalMs = 0) && decide (s.counter = 0) && decide (s.nodeId = 0)

/-- The clock pair of a stamp, without its author. -/
def clock (s : Stamp) : Hlc := ⟨s.physicalMs, s.counter⟩

/-- `meshtastic_hlc_compare`: physical time, then counter, then author. -/
def compare (a b : Stamp) : Int :=
  if a.physicalMs ≠ b.physicalMs then (if a.physicalMs > b.physicalMs then 1 else -1)
  else if a.counter ≠ b.counter then (if a.counter > b.counter then 1 else -1)
  else if a.nodeId ≠ b.nodeId then (if a.nodeId > b.nodeId then 1 else -1)
  else 0

/-- The last-writer-wins test. -/
def newer (a b : Stamp) : Bool := decide (compare a b > 0)

def rank (s : Stamp) : Int ×ₗ Nat ×ₗ Nat :=
  toLex (s.physicalMs.toInt, toLex (s.counter.toNat, s.nodeId.toNat))

theorem rank_injective : Function.Injective rank := by
  rintro ⟨p, c, n⟩ ⟨q, d, m⟩ h
  have hp : p.toInt = q.toInt := congrArg (fun x => (ofLex x).1) h
  have hc : c.toNat = d.toNat := congrArg (fun x => (ofLex (ofLex x).2).1) h
  have hn : n.toNat = m.toNat := congrArg (fun x => (ofLex (ofLex x).2).2) h
  rw [Int64.toInt_inj.mp hp, UInt32.toNat_inj.mp hc, UInt32.toNat_inj.mp hn]

instance : LinearOrder Stamp := LinearOrder.lift' rank rank_injective

variable {a b : Stamp}

theorem lt_iff : a < b ↔ a.physicalMs.toInt < b.physicalMs.toInt ∨
    a.physicalMs.toInt = b.physicalMs.toInt ∧ (a.counter.toNat < b.counter.toNat ∨
      a.counter.toNat = b.counter.toNat ∧ a.nodeId.toNat < b.nodeId.toNat) := by
  change rank a < rank b ↔ _
  rw [rank, rank, Prod.Lex.toLex_lt_toLex, Prod.Lex.toLex_lt_toLex]

theorem compare_eq (a b : Stamp) :
    (compare a b = 1 ∧ b < a) ∨ (compare a b = -1 ∧ a < b) ∨ (compare a b = 0 ∧ a = b) := by
  have hp := @Int64.toInt_inj a.physicalMs b.physicalMs
  have hc := @UInt32.toNat_inj a.counter b.counter
  have hn := @UInt32.toNat_inj a.nodeId b.nodeId
  simp only [compare, lt_iff, Stamp.ext_iff, ← hp, ← hc, ← hn, ne_eq, ite_not, gt_iff_lt,
    Int64.lt_iff_toInt_lt, UInt32.lt_iff_toNat_lt]
  split_ifs <;> omega

theorem newer_iff : newer a b = true ↔ b < a := by
  simp only [newer, decide_eq_true_eq]
  rcases compare_eq a b with ⟨hc, h⟩ | ⟨hc, h⟩ | ⟨hc, h⟩
  · simp [hc, h]
  · simp [hc, h.le]
  · rw [hc, h]
    simp

theorem newer_eq_false_iff : newer a b = false ↔ a ≤ b := by
  rw [← Bool.not_eq_true, newer_iff, not_lt]

theorem compare_eq_zero_iff : compare a b = 0 ↔ a = b := by
  rcases compare_eq a b with ⟨hc, h⟩ | ⟨hc, h⟩ | ⟨hc, h⟩
  · simp [hc, h.ne']
  · simp [hc, h.ne]
  · exact iff_of_true hc h

theorem isUnset_iff {s : Stamp} : s.isUnset = true ↔ s = unset := by
  cases s
  simp [isUnset, unset, and_assoc]

end Stamp

end Zephyrtastic
