import Mathlib.Algebra.BigOperators.Fin
import Mathlib.Algebra.Order.BigOperators.Group.Finset
import Zephyrtastic.Lib.Window

/-!
# The transmit ledger and the duty ceiling

The airtime of the last hour stands in a ring of sixty one-minute buckets, cleared lazily as
they are entered again. The sums are taken to stay below 2^32.
-/

namespace Zephyrtastic.Outbound

abbrev minutesInHour : Nat := 60

instance : @NeZero Nat Zero.ofOfNat0 minutesInHour := ⟨by decide⟩

/-- The part of `struct meshtastic_airtime_state` the duty cycle is read from. -/
structure Airtime where
  utilizationTx : Fin minutesInHour → Nat
  lastTxTick : Nat
  initialized : Bool

variable (a : Airtime) (sec : Nat)

namespace Airtime

/-- The state `meshtastic_airtime_init` leaves. -/
def init : Airtime := ⟨fun _ => 0, 0, false⟩

/-- `airtime_advance`, on the transmit ring. -/
def advance (a : Airtime) (sec : Nat) : Airtime :=
  if !a.initialized then { a with initialized := true, lastTxTick := sec / 60 }
  else
    { a with
      utilizationTx := Window.roll a.utilizationTx a.lastTxTick (sec / 60 - a.lastTxTick)
      lastTxTick := sec / 60 }

/-- `meshtastic_airtime_log` of a transmission. -/
def logTx (a : Airtime) (sec ms : Nat) : Airtime :=
  let a := a.advance sec
  { a with utilizationTx := Window.add a.utilizationTx (sec / 60) ms }

/-- The sum `meshtastic_airtime_tx_util_percent` forms. -/
def spent (a : Airtime) : Nat := ∑ b, a.utilizationTx b

theorem advance_utilizationTx_le (b : Fin minutesInHour) :
    (a.advance sec).utilizationTx b ≤ a.utilizationTx b := by
  unfold advance
  split
  · exact Nat.le_refl _
  dsimp only
  rw [Window.roll_eq_clear, Window.clear_apply]
  split
  · exact Nat.zero_le _
  · exact Nat.le_refl _

theorem spent_advance_le : (a.advance sec).spent ≤ a.spent :=
  Finset.sum_le_sum fun b _ => advance_utilizationTx_le a sec b

theorem spent_logTx (ms : Nat) : (a.logTx sec ms).spent = (a.advance sec).spent + ms := by
  unfold spent logTx Window.add
  rw [Finset.sum_update_of_mem (Finset.mem_univ _),
    ← Finset.add_sum_erase Finset.univ _ (Finset.mem_univ (Window.slot _ (sec / 60))),
    Finset.sdiff_singleton_eq_erase]
  omega

@[simp] theorem spent_init : init.spent = 0 := by
  simp [spent, init]

end Airtime

/-- The ceiling of the region and the operator's override. `none` is a ceiling of 100 % or
more; otherwise the largest sum of milliseconds the comparison `used <= ceiling` accepts. -/
structure Duty where
  overrideOn : Bool
  ceilingMs : Option Nat
  deriving DecidableEq, Repr

namespace Duty

/-- The ceiling, where one is enforced. -/
def limit (d : Duty) : Option Nat := if d.overrideOn then none else d.ceilingMs

/-- `meshtastic_duty_blocked`, with the ledger it has brought up to date. -/
def blocked (d : Duty) (a : Airtime) (sec : Nat) : Bool × Airtime :=
  match d.limit with
  | none => (false, a)
  | some ceiling => (decide (ceiling < (a.advance sec).spent), a.advance sec)

theorem blocked_spent_le (d : Duty) (a : Airtime) (sec : Nat) :
    (d.blocked a sec).2.spent ≤ a.spent := by
  unfold blocked
  split
  · exact Nat.le_refl _
  · exact Airtime.spent_advance_le a sec

theorem not_blocked_of_le {d : Duty} {a : Airtime}
    (h : ∀ ceiling, d.limit = some ceiling → a.spent ≤ ceiling) : (d.blocked a sec).1 = false := by
  unfold blocked
  cases hl : d.limit with
  | none => rfl
  | some ceiling =>
    have hle : (a.advance sec).spent ≤ ceiling :=
      Nat.le_trans (Airtime.spent_advance_le a sec) (h ceiling hl)
    simpa using hle

theorem spent_le_of_not_blocked {d : Duty} {a : Airtime} {sec ceiling : Nat}
    (hl : d.limit = some ceiling) (h : (d.blocked a sec).1 = false) :
    (d.blocked a sec).2.spent ≤ ceiling := by
  unfold blocked at h ⊢
  rw [hl] at h ⊢
  simpa using h

end Duty

end Zephyrtastic.Outbound
