import Mathlib.Algebra.Group.Nat.Defs

/-!
# Numerals

Numbers printed with `%0wx` and read back digit by digit into a machine word, and
decimal digit strings whose value fits one.
-/

namespace Zephyrtastic.Digits

open Nat UInt32

/-- `%0wx`: the low `w` hexadecimal digits of a number. -/
def hexChars : Nat → Nat → List Char
  | 0, _ => []
  | w + 1, n => digitChar (n / 16 ^ w % 16) :: hexChars w n

theorem shiftLeft_or_ofNat (id : UInt32) {d : Nat} (hd : d < 16) :
    id <<< 4 ||| ofNat d = ofNat (id.toNat * 16 + d) := by
  have hd32 : (ofNat d).toNat = d := toNat_ofNat_of_lt' (Nat.lt_trans hd (by decide))
  -- the four bits that fall off the top are those of the quotient by 2 ^ 28
  have hshift : (id <<< 4).toNat = (id.toNat % 2 ^ 28) <<< 4 := by
    rw [UInt32.toNat_shiftLeft, shiftLeft_eq, shiftLeft_eq]
    exact mul_mod_mul_right 16 id.toNat (2 ^ 28)
  apply UInt32.toNat_inj.mp
  rw [UInt32.toNat_or, hshift, hd32, ← shiftLeft_add_eq_or_of_lt (show d < 2 ^ 4 from hd),
    toNat_ofNat']
  omega

theorem digit_le_nine {c : Char} (h : c.isDigit = true) : c.toNat - '0'.toNat ≤ 9 := by
  have hle : c.val ≤ 57 := of_decide_eq_true (Bool.and_eq_true_iff.mp h).2
  have hnat : c.toNat ≤ 57 := le_iff_toNat_le.mp hle
  have hzero : '0'.toNat = 48 := rfl
  omega

section Decimal
variable {sec : UInt32} {d : Nat} (hd : d ≤ 9) (hfits : 10 * sec.toNat + d < 4294967296)

include hd hfits

theorem not_overflow : ¬ sec > (4294967295 - ofNat d) / 10 := by
  have hd32 : (ofNat d).toNat = d :=
    toNat_ofNat_of_lt' (Nat.lt_of_le_of_lt hd (by decide))
  have hmax : (4294967295 : UInt32).toNat = 4294967295 := rfl
  have hten : (10 : UInt32).toNat = 10 := rfl
  have hle : ofNat d ≤ 4294967295 := by
    rw [le_iff_toNat_le]
    omega
  rw [gt_iff_lt, lt_iff_toNat_lt, UInt32.toNat_div, UInt32.toNat_sub_of_le _ _ hle, hten]
  omega

theorem toNat_mul_ten_add : (sec * 10 + ofNat d).toNat = 10 * sec.toNat + d := by
  have hd32 : (ofNat d).toNat = d :=
    toNat_ofNat_of_lt' (Nat.lt_of_le_of_lt hd (by decide))
  have hten : (10 : UInt32).toNat = 10 := rfl
  rw [UInt32.toNat_add, UInt32.toNat_mul, hten]
  omega

end Decimal

theorem le_ofDigitChars (cs : List Char) (init : Nat) : init ≤ ofDigitChars 10 cs init := by
  induction cs generalizing init with
  | nil => exact Nat.le_refl init
  | cons c rest ih =>
    rw [ofDigitChars_cons]
    exact Nat.le_trans (by omega) (ih _)

end Zephyrtastic.Digits
