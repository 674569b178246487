import Zephyrtastic.Lib.Bytes

/-!
# Layouts of fixed width

A layout writes a value as a fixed number of bytes and reads it back, from the
front of whatever follows. It reads what it has written, and writes what it has
read.
-/

namespace Zephyrtastic

open List

variable (b : Bytes)

namespace Bytes

theorem getLe_lt : getLe b < 256 ^ b.length := by
  induction b with
  | nil => exact Nat.one_pos
  | cons x b ih =>
    have hx := x.toNat_lt
    rw [getLe, length_cons]
    omega

theorem putLe_getLe : putLe b.length (getLe b) = b := by
  induction b with
  | nil => rfl
  | cons x b ih =>
    have hx := x.toNat_lt
    have hdiv : (x.toNat + 256 * getLe b) / 256 = getLe b := by omega
    have hbyte : UInt8.ofNat (x.toNat + 256 * getLe b) = x := by
      apply UInt8.toNat_inj.mp
      rw [UInt8.toNat_ofNat']
      omega
    rw [length_cons, getLe, putLe, hdiv, hbyte, ih]

end Bytes

/-- A value in `width` bytes. -/
structure Layout (α : Type) where
  width : Nat
  put : α → Bytes
  get : Bytes → α
  length_put : ∀ a, (put a).length = width
  get_put : ∀ a rest, get (put a ++ rest) = a
  put_get : ∀ b, width ≤ b.length → put (get b) = b.take width

namespace Layout

variable {α β : Type}

/-- A number of `w` bytes, least significant first. -/
def le (w : Nat) (toNat : α → Nat) (ofNat : Nat → α) (left : ∀ a, ofNat (toNat a) = a)
    (right : ∀ n, n < 256 ^ w → toNat (ofNat n) = n) (lt : ∀ a, toNat a < 256 ^ w) : Layout α where
  width := w
  put := fun a => Bytes.putLe w (toNat a)
  get := fun b => ofNat (Bytes.getLe (b.take w))
  length_put := fun a => Bytes.length_putLe w _
  get_put := by
    intro a rest
    rw [take_left' (Bytes.length_putLe w _), Bytes.getLe_putLe, Nat.mod_eq_of_lt (lt a), left]
  put_get := by
    intro b hb
    have hlen : (b.take w).length = w := length_take_of_le hb
    have hlt : Bytes.getLe (b.take w) < 256 ^ w := by
      have h := Bytes.getLe_lt (b.take w)
      rwa [hlen] at h
    have hput := Bytes.putLe_getLe (b.take w)
    rw [hlen] at hput
    rw [right _ hlt, hput]

/-- The same bytes, read as another type. -/
def map (c : Layout α) (f : α → β) (g : β → α) (left : ∀ b, f (g b) = b)
    (right : ∀ a, g (f a) = a) : Layout β where
  width := c.width
  put := fun b => c.put (g b)
  get := fun b => f (c.get b)
  length_put := fun b => c.length_put (g b)
  get_put := by
    intro b rest
    rw [c.get_put, left]
  put_get := by
    intro b hb
    rw [right, c.put_get b hb]

/-- One value after the other. -/
def pair (c : Layout α) (d : Layout β) : Layout (α × β) where
  width := c.width + d.width
  put := fun p => c.put p.1 ++ d.put p.2
  get := fun b => (c.get b, d.get (b.drop c.width))
  length_put := by
    intro p
    rw [List.length_append, c.length_put, d.length_put]
  get_put := by
    intro p rest
    rw [List.append_assoc, c.get_put, List.drop_left' (c.length_put p.1), d.get_put]
  put_get := by
    intro b hb
    have hd : d.width ≤ (b.drop c.width).length := by
      rw [List.length_drop]
      omega
    rw [c.put_get b (by omega), d.put_get _ hd, List.take_add]

variable (c : Layout α)

theorem put_get_drop {b : Bytes} (h : c.width ≤ b.length) :
    c.put (c.get b) ++ b.drop c.width = b := by
  rw [c.put_get b h, take_append_drop]

theorem drop_put (a : α) (rest : Bytes) : (c.put a ++ rest).drop c.width = rest :=
  drop_left' (c.length_put a)

theorem get_put_self (a : α) : c.get (c.put a) = a := by
  have h := c.get_put a []
  rwa [append_nil] at h

def u8 : Layout UInt8 :=
  le 1 UInt8.toNat UInt8.ofNat (fun _ => UInt8.ofNat_toNat)
    (fun _ h => UInt8.toNat_ofNat_of_lt' h) UInt8.toNat_lt

theorem u8_put (b : UInt8) : u8.put b = [b] := by
  change [UInt8.ofNat b.toNat] = [b]
  rw [UInt8.ofNat_toNat]

theorem u8_get_drop (i : Nat) : u8.get (b.drop i) = b.getD i 0 := by
  change UInt8.ofNat (Bytes.getLe ((b.drop i).take 1)) = b.getD i 0
  rw [take_one, head?_drop, getD_eq_getElem?_getD]
  cases b[i]? with
  | none => rfl
  | some x => simp [Bytes.getLe]

def u16 : Layout UInt16 :=
  le 2 UInt16.toNat UInt16.ofNat (fun _ => UInt16.ofNat_toNat)
    (fun _ h => UInt16.toNat_ofNat_of_lt' h) UInt16.toNat_lt

def u32 : Layout UInt32 :=
  le 4 UInt32.toNat UInt32.ofNat (fun _ => UInt32.ofNat_toNat)
    (fun _ h => UInt32.toNat_ofNat_of_lt' h) UInt32.toNat_lt

def i8 : Layout Int8 := u8.map UInt8.toInt8 Int8.toUInt8 (fun _ => rfl) (fun _ => rfl)

def i16 : Layout Int16 := u16.map UInt16.toInt16 Int16.toUInt16 (fun _ => rfl) (fun _ => rfl)

def i32 : Layout Int32 := u32.map UInt32.toInt32 Int32.toUInt32 (fun _ => rfl) (fun _ => rfl)

end Layout

end Zephyrtastic
