import Mathlib.Algebra.Group.Int.Defs
import Zephyrtastic.Hlc
import Zephyrtastic.Lib.Run

/-!
# Causality of the clock

Every call is meant to move the clock strictly forward, past its own past and
past every stamp it accepts. A spill out of the last representable millisecond
wraps physical time to the bottom of its range instead, and that is the only way
causality is lost.
-/

namespace Zephyrtastic.Hlc

open Int64

/-- One use of the clock. -/
inductive Call where
  | localAt (nodeId : UInt32) (nowMs : Int64)
  | observeAt (remote : Stamp) (nowMs : Int64)

def step (h : Hlc) : Call → Hlc
  | .localAt nodeId nowMs => (h.localAt nodeId nowMs).1
  | .observeAt remote nowMs => (h.observeAt remote nowMs).2

/-- The call moves the clock forward, and past the stamp unless it was clamped. -/
def Causal (h : Hlc) : Call → Prop
  | .localAt nodeId nowMs => h < (h.localAt nodeId nowMs).1
  | .observeAt remote nowMs => h < (h.observeAt remote nowMs).2 ∧
      ((h.observeAt remote nowMs).1 = false → remote.clock < (h.observeAt remote nowMs).2)

/-- The last clock there is: nothing is after it. -/
def full : Hlc := ⟨Int64.maxValue, 4294967295⟩

/-- The clock, or the pair the call folds into it, is already the last one. -/
def AtEnd (h : Hlc) : Call → Prop
  | .localAt _ _ => h = full
  | .observeAt remote nowMs => h = full ∨
      (remote.clock = full ∧ clamped remote (wall nowMs) = false) ∨
      (remote.counter = 4294967295 ∧ nowMs = Int64.maxValue ∧
        clamped remote (wall nowMs) = true)

theorem max64_toInt (a b : Int64) : (max64 a b).toInt = max a.toInt b.toInt := by
  simp only [max64, gt_iff_lt, lt_iff_toInt_lt]
  split <;> omega

theorem le_full (h : Hlc) : h ≤ full := by
  rw [← not_lt, lt_iff]
  have hp := h.physicalMs.toInt_lt
  have hc := h.counter.toNat_lt
  have hf : full.physicalMs.toInt = 2 ^ 63 - 1 := toInt_maxValue
  have hg : full.counter.toNat = 2 ^ 32 - 1 := rfl
  omega

theorem bumpCounter_full : bumpCounter maxValue 4294967295 = ⟨minValue, 0⟩ := by
  decide

variable {p : Int64} {c : UInt32} {h : Hlc}

theorem toInt_add_one (h : p ≠ maxValue) : (p + 1).toInt = p.toInt + 1 := by
  have hne : p.toInt ≠ 2 ^ 63 - 1 :=
    fun e => h (toInt_inj.mp (e.trans toInt_maxValue.symm))
  have hlt := p.toInt_lt
  have hle := p.le_toInt
  rw [toInt_add, show (1 : Int64).toInt = 1 from rfl]
  exact Int.bmod_eq_of_le (by omega) (by omega)

theorem lt_bumpCounter (h : (⟨p, c⟩ : Hlc) ≠ full) : (⟨p, c⟩ : Hlc) < bumpCounter p c := by
  rw [lt_iff, bumpCounter]
  split
  · next hc =>
    have hp : p ≠ maxValue := fun hp => h (by rw [hp, hc, full])
    simp only [toInt_add_one hp]
    omega
  · next hc =>
    have hn : c.toNat ≠ 4294967295 := fun e => hc (UInt32.toNat_inj.mp e)
    have hlt := c.toNat_lt
    refine .inr ⟨rfl, ?_⟩
    simp only [UInt32.toNat_add, show (1 : UInt32).toNat = 1 from rfl]
    omega

theorem localAt_causal_iff (h : Hlc) (nodeId : UInt32) (nowMs : Int64) :
    h < (h.localAt nodeId nowMs).1 ↔ h ≠ full := by
  constructor
  · rintro hlt rfl
    exact absurd hlt (not_lt.mpr (le_full _))
  · intro hf
    simp only [localAt]
    split
    · next he => rw [he]; exact lt_bumpCounter hf
    next he =>
    have hne : (max64 h.physicalMs (wall nowMs)).toInt ≠ h.physicalMs.toInt :=
      fun e => he (toInt_inj.mp e)
    rw [lt_iff]
    rw [max64_toInt] at hne ⊢
    omega

theorem lt_of_toInt_lt {a b : Hlc} (h : a.physicalMs.toInt < b.physicalMs.toInt) : a < b :=
  lt_iff.mpr (.inl h)

theorem counter_le {d : UInt32} (h : c.toNat ≤ d.toNat) : (⟨p, c⟩ : Hlc) ≤ ⟨p, d⟩ := by
  rw [← not_lt, lt_iff]
  simp only
  omega

theorem advance_gt {now : Int64} (hh : h ≠ full)
    (hr : (⟨p, c⟩ : Hlc) ≠ full) : h < h.advance p c now ∧ ⟨p, c⟩ < h.advance p c now := by
  have hl : (max64 h.physicalMs (max64 p now)).toInt =
      max h.physicalMs.toInt (max p.toInt now.toInt) := by rw [max64_toInt, max64_toInt]
  simp only [advance]
  generalize max64 h.physicalMs (max64 p now) = l at hl ⊢
  obtain ⟨q, d⟩ := h
  simp only at hl hh ⊢
  by_cases hq : l = q <;> by_cases hp : l = p
  · subst hq hp
    simp only [and_self, if_true]
    split
    · next hgt =>
      exact ⟨lt_bumpCounter hh, (counter_le (UInt32.lt_iff_toNat_lt.mp hgt).le).trans_lt
        (lt_bumpCounter hh)⟩
    · next hle =>
      exact ⟨(counter_le (UInt32.le_iff_toNat_le.mp (UInt32.not_lt.mp hle))).trans_lt
        (lt_bumpCounter hr), lt_bumpCounter hr⟩
  · subst hq
    have hne : l.toInt ≠ p.toInt := fun e => hp (toInt_inj.mp e)
    simp only [hp, and_false, if_false, if_true]
    exact ⟨lt_bumpCounter hh, lt_trans (lt_of_toInt_lt (by simp only; omega)) (lt_bumpCounter hh)⟩
  · subst hp
    have hne : l.toInt ≠ q.toInt := fun e => hq (toInt_inj.mp e)
    simp only [hq, false_and, if_false, if_true]
    exact ⟨lt_trans (lt_of_toInt_lt (by simp only; omega)) (lt_bumpCounter hr), lt_bumpCounter hr⟩
  · have hnq : l.toInt ≠ q.toInt := fun e => hq (toInt_inj.mp e)
    have hnp : l.toInt ≠ p.toInt := fun e => hp (toInt_inj.mp e)
    simp only [hq, hp, false_and, if_false]
    exact ⟨lt_of_toInt_lt (by simp only; omega), lt_of_toInt_lt (by simp only; omega)⟩

/-- Folding in the last pair wraps to the bottom of the range, whatever our clock. -/
theorem advance_full (h : Hlc) (now : Int64) :
    h.advance maxValue 4294967295 now = ⟨minValue, 0⟩ := by
  have hl : max64 h.physicalMs (max64 maxValue now) = maxValue := by
    apply toInt_inj.mp
    have hp := h.physicalMs.toInt_le
    have hn := now.toInt_le
    rw [max64_toInt, max64_toInt]
    omega
  have hc : ¬ h.counter > 4294967295 := by
    have := h.counter.toNat_lt
    have hm : (4294967295 : UInt32).toNat = 2 ^ 32 - 1 := rfl
    simp only [gt_iff_lt, UInt32.lt_iff_toNat_lt, hm]
    omega
  simp only [advance, hl, hc, if_false, and_true, if_true]
  by_cases hq : maxValue = h.physicalMs
  · rw [if_pos hq, bumpCounter_full]
  · rw [if_neg hq, if_neg hq, bumpCounter_full]

theorem not_lt_bottom (h : Hlc) : ¬ h < ⟨minValue, 0⟩ := by
  have hp := h.physicalMs.le_toInt
  have hb : minValue.toInt = -2 ^ 63 := toInt_minValue
  simp only [lt_iff, show (0 : UInt32).toNat = 0 from rfl]
  omega

theorem observeAt_causal {remote : Stamp} {nowMs : Int64}
    (hs : ¬ AtEnd h (.observeAt remote nowMs)) : Causal h (.observeAt remote nowMs) := by
  simp only [AtEnd, not_or, not_and] at hs
  obtain ⟨hh, hr, hc⟩ := hs
  by_cases hcl : clamped remote (wall nowMs) = true
  · have hne : (⟨wall nowMs, remote.counter⟩ : Hlc) ≠ full := by
      intro e
      have hw : wall nowMs = maxValue := congrArg physicalMs e
      have hnow : nowMs = maxValue := by
        unfold wall at hw
        split at hw
        · exact absurd hw (by decide)
        · exact hw
      exact hc (congrArg counter e) hnow hcl
    simp only [Causal, observeAt, hcl, if_true]
    exact ⟨(advance_gt hh hne).1, fun h => absurd h (by decide)⟩
  · have hne : (⟨remote.physicalMs, remote.counter⟩ : Hlc) ≠ full :=
      fun e => hr e (Bool.eq_false_iff.mpr hcl)
    simp only [Causal, observeAt, hcl]
    exact ⟨(advance_gt hh hne).1, fun _ => (advance_gt hh hne).2⟩

theorem not_observeAt_causal {remote : Stamp} {nowMs : Int64}
    (hs : AtEnd h (.observeAt remote nowMs)) : ¬ Causal h (.observeAt remote nowMs) := by
  rintro ⟨hlt, hpast⟩
  rcases hs with rfl | ⟨hr, hcl⟩ | ⟨hc, hnow, hcl⟩
  · exact absurd hlt (not_lt.mpr (le_full _))
  · have := hpast hcl
    rw [hr] at this
    exact absurd this (not_lt.mpr (le_full _))
  subst hnow
  have hw : wall maxValue = maxValue := rfl
  rw [hw] at hcl
  simp only [observeAt, hw, hcl, if_true, hc, advance_full] at hlt
  exact not_lt_bottom h hlt

theorem causal_iff (h : Hlc) (call : Call) : Causal h call ↔ ¬ AtEnd h call := by
  cases call with
  | localAt nodeId nowMs => exact localAt_causal_iff h nodeId nowMs
  | observeAt remote nowMs =>
    exact ⟨fun hc hs => not_observeAt_causal hs hc, observeAt_causal⟩

/-- **Every call of a run from the zero clock is causal exactly when none of them
meets the end of time**, in the clock or in the pair it folds in. -/
theorem run_causal_iff (calls : List Call) :
    Run.Guarded step Causal zero calls ↔
      Run.Guarded step (fun h call => ¬ AtEnd h call) zero calls := by
  simp only [Run.Guarded, causal_iff]

/-- An unseeded node takes the last stamp at face value, and its clock falls to
the bottom of the range. -/
theorem run_not_causal :
    ¬ Run.Guarded step Causal zero [.observeAt ⟨Int64.maxValue, 4294967295, 1⟩ 0] ∧
      Run.run step zero [.observeAt ⟨Int64.maxValue, 4294967295, 1⟩ 0] =
        ⟨Int64.minValue, 0⟩ := by
  constructor
  · intro h
    have hc := h [] _ List.prefix_rfl
    rw [causal_iff] at hc
    exact hc (.inr (.inl ⟨rfl, rfl⟩))
  · exact advance_full zero 0

end Zephyrtastic.Hlc
