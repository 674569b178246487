import Mathlib.Algebra.Group.Nat.Defs

/-!
# Byte records

Little-endian fields of fixed width, and the fields of a record that was put
together by appending them.
-/

namespace Zephyrtastic

open List

abbrev Bytes := List UInt8

/-- The literals of three-bit numbers, `Fin 8`. -/
instance neZeroEight : @NeZero Nat Zero.ofOfNat0 8 := ⟨by decide⟩

namespace Bytes

/-- The low `w` bytes of a number, least significant first. -/
def putLe : Nat → Nat → Bytes
  | 0, _ => []
  | w + 1, n => UInt8.ofNat n :: putLe w (n / 256)

def getLe : Bytes → Nat
  | [] => 0
  | b :: rest => b.toNat + 256 * getLe rest

@[simp] theorem length_putLe (w n : Nat) : (putLe w n).length = w := by
  induction w generalizing n with
  | zero => rfl
  | succ w ih => simp only [putLe, length_cons, ih]

theorem getLe_putLe (w n : Nat) : getLe (putLe w n) = n % 256 ^ w := by
  induction w generalizing n with
  | zero => simp [putLe, getLe, Nat.mod_one]
  | succ w ih =>
    have hb : (UInt8.ofNat n).toNat = n % 256 := UInt8.toNat_ofNat'
    have hp : 256 ^ (w + 1) = 256 * 256 ^ w := Nat.pow_succ'
    rw [putLe, getLe, ih, hb, hp, Nat.mod_mul]

def putLe32 (v : UInt32) : Bytes := putLe 4 v.toNat

/-- `sys_get_le32` of the first four bytes. -/
def getLe32 (b : Bytes) : UInt32 := UInt32.ofNat (getLe (b.take 4))

variable (v : UInt32)

@[simp] theorem length_putLe32 : (putLe32 v).length = 4 := length_putLe 4 _

@[simp] theorem getLe32_putLe32 (rest : Bytes) : getLe32 (putLe32 v ++ rest) = v := by
  rw [getLe32, take_left' (length_putLe32 v), putLe32, getLe_putLe]
  have h : v.toNat % 256 ^ 4 = v.toNat := Nat.mod_eq_of_lt v.toNat_lt
  rw [h, UInt32.ofNat_toNat]

theorem getLe32_putLe32_self : getLe32 (putLe32 v) = v := by
  have h := getLe32_putLe32 v []
  rwa [append_nil] at h

/-- The `len` bytes at an offset. -/
def slice (b : Bytes) (off len : Nat) : Bytes := (b.drop off).take len

variable {a : Bytes} {len : Nat}

theorem slice_append_right {b : Bytes} {off n : Nat} (h : a.length + n = off) :
    slice (a ++ b) off len = slice b n len := by
  rw [slice, slice, ← h, drop_append, drop_eq_nil_of_le (Nat.le_add_right _ _),
    nil_append, Nat.add_sub_cancel_left]

theorem slice_append_left {b : Bytes} (h : a.length = len) : slice (a ++ b) 0 len = a := by
  rw [slice, drop_zero, take_left' h]

theorem slice_self (h : a.length = len) : slice a 0 len = a := by
  rw [slice, drop_zero, ← h, take_length]

end Bytes

end Zephyrtastic
