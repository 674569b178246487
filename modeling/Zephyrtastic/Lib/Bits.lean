import Mathlib.Data.BitVec

/-!
# Single bits of a word
-/

namespace Zephyrtastic.Bits

section
variable {w : Nat}

/-- `IS_BIT_SET`. -/
def isSet (x : BitVec w) (b : Nat) : Bool := x.getLsbD b

/-- `WRITE_BIT`. -/
def write (x : BitVec w) (b : Nat) (v : Bool) : BitVec w :=
  if v then x ||| BitVec.twoPow w b else x &&& ~~~ BitVec.twoPow w b

variable (x : BitVec w)

theorem isSet_write_self {b : Nat} (hb : b < w) (v : Bool) : isSet (write x b v) b = v := by
  cases v <;> simp [isSet, write, hb]

theorem isSet_write_ne {b c : Nat} (h : c ≠ b) (v : Bool) : isSet (write x b v) c = isSet x c := by
  cases v with
  | true => simp [isSet, write, h.symm]
  | false => simpa [isSet, write, h.symm] using BitVec.lt_of_getLsbD

theorem write_write (b : Nat) (v : Bool) : write (write x b v) b v = write x b v := by
  cases v with
  | true => simp only [write, if_true, BitVec.or_assoc, BitVec.or_self]
  | false => simp only [write, Bool.false_eq_true, if_false, BitVec.and_assoc, BitVec.and_self]

end

end Zephyrtastic.Bits
