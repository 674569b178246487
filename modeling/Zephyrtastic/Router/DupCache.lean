import Mathlib.Data.Fintype.Basic
import Zephyrtastic.Lib.Bytes
import Zephyrtastic.Lib.Overwrite

/-!
# The duplicate cache

A ring of the (source, id) pairs the router has handled. A pair is looked up among
the entries that have not outlived the TTL; a copy with more hops left than the
entry has seen raises the entry's budget.
-/

namespace Zephyrtastic.Router

/-- What a packet is known by: its source and the id the source gave it. -/
structure Key where
  src : UInt32
  id : UInt32
  deriving DecidableEq, Repr

structure DupEntry where
  key : Key
  ms : UInt32
  relayedMs : UInt32
  /-- The highest hop budget seen for the pair. -/
  hopLimit : Fin 8
  attach : UInt8
  relayNode : UInt8
  relayAttach : UInt8
  attachRxMs : UInt32
  relayed : Bool
  deriving DecidableEq, Repr

def DupEntry.zero : DupEntry := ⟨⟨0, 0⟩, 0, 0, 0, 0, 0, 0, 0, false⟩

/-- `mt.dup_cache` and `mt.dup_head`, for a `CONFIG_MESHTASTIC_DUP_CACHE_SIZE`. -/
structure DupCache (size : Nat) where
  cells : Fin size → DupEntry
  head : Fin size

inductive DupVerdict where
  | new
  | seen
  | upgrade
  deriving DecidableEq, Repr

/-- An entry older than the TTL; a TTL of zero keeps entries for good. -/
def DupEntry.expired (e : DupEntry) (ttlMs now : UInt32) : Prop := ttlMs ≠ 0 ∧ ttlMs < now - e.ms

instance (e : DupEntry) (ttlMs now : UInt32) : Decidable (e.expired ttlMs now) :=
  inferInstanceAs (Decidable (_ ∧ _))

namespace DupCache

variable {size : Nat}
variable (c : DupCache size)
variable (ttlMs now : UInt32) (k : Key) (hopLimit : Fin 8)

def setCell (i : Fin size) (e : DupEntry) : DupCache size :=
  { c with cells := Function.update c.cells i e }

/-- The scan of `dup_check_hops`: the first entry of the pair that has not expired. -/
def fresh? : Option (Fin size) :=
  (List.finRange size).find? fun i =>
    (c.cells i).key = k ∧ ¬ (c.cells i).expired ttlMs now

/-- An entry after a copy with more hops left: it no longer times the first copy's link. -/
def upgraded (e : DupEntry) (hopLimit : Fin 8) : DupEntry := { e with hopLimit, attach := 0xff }

def checkHops (allowUpgrade : Bool) : DupVerdict × DupCache size :=
  match c.fresh? ttlMs now k with
  | none => (.new, c)
  | some i =>
    if allowUpgrade ∧ (c.cells i).hopLimit < hopLimit
    then (.upgrade, c.setCell i (upgraded (c.cells i) hopLimit))
    else (.seen, c)

def check : Bool :=
  (c.checkHops ttlMs now k 0 false).1 ≠ .new

/-- `dup_find`, which does not ask for the age. -/
def find (c : DupCache size) (k : Key) : Option (Fin size) :=
  (List.finRange size).find? fun i => (c.cells i).key = k

/-- The entry `dup_find` points at. -/
def entry : Option DupEntry := (c.find k).map c.cells

/-- `dup_mark_relayed`, and the head the relay was handed to. -/
def markRelayed (now : UInt32) (relayAttach : Option UInt8) : DupCache size :=
  match c.find k with
  | none => c
  | some i =>
    let e := c.cells i
    c.setCell i { e with
      relayed := true, relayedMs := now, relayAttach := relayAttach.getD e.relayAttach }

/-- The cell after the head, in a `uint8_t`. -/
def nextHead (head : Fin size) : Fin size :=
  ⟨(head.val + 1) % size % 256, lt_of_le_of_lt (Nat.mod_le _ _) (Nat.mod_lt _ head.pos)⟩

def add (attach relayNode : UInt8) (attachRxMs now : UInt32) : DupCache size where
  cells := Function.update c.cells c.head
    ⟨k, now, 0, hopLimit, attach, relayNode, 0, attachRxMs, false⟩
  head := nextHead c.head

/-- The zeroed cache. -/
def init (h : 0 < size) : DupCache size := ⟨fun _ => .zero, ⟨0, h⟩⟩

/-! ### What a lookup says -/

section Lookup

variable {c : DupCache size} {ttlMs now : UInt32} {k : Key} {i : Fin size}

theorem fresh?_some (h : c.fresh? ttlMs now k = some i) :
    (c.cells i).key = k ∧ ¬ (c.cells i).expired ttlMs now := by
  simpa using List.find?_some h

theorem fresh?_none : c.fresh? ttlMs now k = none ↔
    ∀ i, (c.cells i).key = k → (c.cells i).expired ttlMs now := by
  simp [fresh?, List.find?_eq_none]

theorem find_some (h : c.find k = some i) : (c.cells i).key = k := by
  simpa using List.find?_some h

theorem find_none : c.find k = none ↔ ∀ i, (c.cells i).key ≠ k := by
  simp [find, List.find?_eq_none]

theorem checkHops_new {hopLimit : Fin 8} {allow : Bool} :
    (c.checkHops ttlMs now k hopLimit allow).1 = .new ↔ c.fresh? ttlMs now k = none := by
  unfold checkHops
  cases hf : c.fresh? ttlMs now k with
  | none => exact iff_of_true rfl rfl
  | some i =>
    refine iff_of_false ?_ nofun
    dsimp only
    split <;> exact DupVerdict.noConfusion

end Lookup

end DupCache

end Zephyrtastic.Router
