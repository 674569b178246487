import Mathlib.Tactic.Ring
import Zephyrtastic.Lib.Digits
import Zephyrtastic.Cluster.Key

/-!
# Names of entry records

A record of the document is named `mtclus/<layer><node-hex>/<section>`. The parser
is written by hand and reads back every name the printer writes.
-/

namespace Zephyrtastic.Cluster

open Digits Nat UInt32

/-- The part of a record's name that the settings handler sees. -/
def entryName (key : Key) : List Char :=
  (if key.layer = layerBase then 'b' else 'n') ::
    (hexChars 8 key.nodeId.toNat ++ '/' :: toDigits 10 key.sec.toNat)

def recName (key : Key) : List Char := "mtclus/".toList ++ entryName key

/-- The value of a hexadecimal digit of either case. -/
def hexNibble (c : Char) : Option UInt32 :=
  if '0' ≤ c ∧ c ≤ '9' then some (ofNat (c.toNat - '0'.toNat))
  else if 'a' ≤ c ∧ c ≤ 'f' then some (ofNat (c.toNat - 'a'.toNat) + 10)
  else if 'A' ≤ c ∧ c ≤ 'F' then some (ofNat (c.toNat - 'A'.toNat) + 10)
  else none

/-- At most so many hexadecimal digits: how many there were, the word, and the rest. -/
def hexDigits : Nat → UInt32 → List Char → Nat × UInt32 × List Char
  | 0, id, p => (0, id, p)
  | _ + 1, id, [] => (0, id, [])
  | digits + 1, id, c :: p =>
    match hexNibble c with
    | none => (0, id, c :: p)
    | some nib =>
      let r := hexDigits digits (id <<< 4 ||| nib) p
      (r.1 + 1, r.2)

/-- The decimal digits, and the rest; none where the word would overflow. -/
def decDigits : UInt32 → List Char → Option (UInt32 × List Char)
  | sec, [] => some (sec, [])
  | sec, c :: p =>
    if c.isDigit then
      let d := ofNat (c.toNat - '0'.toNat)
      if sec > (4294967295 - d) / 10 then none else decDigits (sec * 10 + d) p
    else some (sec, c :: p)

def parseEntryKey : List Char → Option (Char × UInt32 × UInt32)
  | [] => none
  | layer :: p =>
    let r := hexDigits 8 0 p
    if r.1 = 0 then none
    else match r.2.2 with
      | '/' :: c :: q =>
        if c.isDigit then
          match decDigits 0 (c :: q) with
          | some (sec, []) => some (layer, r.2.1, sec)
          | _ => none
        else none
      | _ => none

theorem hexNibble_digitChar {d : Nat} (h : d < 16) : hexNibble (digitChar d) = some (ofNat d) := by
  have hall : ∀ d < 16, hexNibble (digitChar d) = some (ofNat d) := by decide
  exact hall d h

theorem hexDigits_hexChars (w n : Nat) (id : UInt32) (rest : List Char) :
    hexDigits w id (hexChars w n ++ rest) =
      (w, ofNat (id.toNat * 16 ^ w + n % 16 ^ w), rest) := by
  induction w generalizing id with
  | zero => simp [hexDigits, hexChars, mod_one]
  | succ w ih =>
    have hd : n / 16 ^ w % 16 < 16 := mod_lt _ (by decide)
    have hsplit : n % 16 ^ (w + 1) = n % 16 ^ w + 16 ^ w * (n / 16 ^ w % 16) := mod_pow_succ
    have hval : id.toNat * 16 ^ (w + 1) + n % 16 ^ (w + 1) =
        (id.toNat * 16 + n / 16 ^ w % 16) * 16 ^ w + n % 16 ^ w := by
      rw [hsplit]
      ring
    simp only [hexChars, List.cons_append, hexDigits, hexNibble_digitChar hd,
      shiftLeft_or_ofNat id hd, ih, hval]
    simp only [ofNat_add, ofNat_mul, UInt32.ofNat_toNat]

theorem decDigits_digits {cs : List Char} (hcs : ∀ c ∈ cs, c.isDigit = true) (sec : UInt32)
    (hfits : ofDigitChars 10 cs sec.toNat < 4294967296) :
    decDigits sec cs = some (ofNat (ofDigitChars 10 cs sec.toNat), []) := by
  induction cs generalizing sec with
  | nil => exact congrArg (fun v => some (v, [])) UInt32.ofNat_toNat.symm
  | cons c rest ih =>
    obtain ⟨hc, hrest⟩ := List.forall_mem_cons.mp hcs
    have hd := digit_le_nine hc
    rw [ofDigitChars_cons] at hfits ⊢
    have hle := le_ofDigitChars rest (10 * sec.toNat + (c.toNat - '0'.toNat))
    have hnext := lt_of_le_of_lt hle hfits
    have hstep := toNat_mul_ten_add hd hnext
    rw [decDigits, if_pos hc]
    simp only [not_overflow hd hnext, if_false]
    rw [ih hrest _ (by rw [hstep]; exact hfits), hstep]

/-- The parser reads back what the printer wrote. -/
theorem parseEntryKey_entryName (key : Key) : parseEntryKey (entryName key) =
    some (if key.layer = layerBase then 'b' else 'n', key.nodeId, key.sec.toUInt32) := by
  have hid : ofNat ((0 : UInt32).toNat * 16 ^ 8 + key.nodeId.toNat % 16 ^ 8) =
      key.nodeId := by
    have hlt : key.nodeId.toNat % 16 ^ 8 = key.nodeId.toNat :=
      mod_eq_of_lt key.nodeId.toNat_lt
    rw [UInt32.toNat_zero, Nat.zero_mul, zero_add, hlt, UInt32.ofNat_toNat]
  have hdigit : ∀ c ∈ toDigits 10 key.sec.toNat, c.isDigit = true :=
    fun c hc => isDigit_of_mem_toDigits (by decide) (by decide) hc
  have hval : ofDigitChars 10 (toDigits 10 key.sec.toNat) (0 : UInt32).toNat =
      key.sec.toNat := ofDigitChars_toDigits (by decide) (by decide)
  have hsec : decDigits 0 (toDigits 10 key.sec.toNat) = some (key.sec.toUInt32, []) := by
    rw [decDigits_digits hdigit 0 (by rw [hval]; exact lt_trans key.sec.toNat_lt (by decide)),
      hval, ← UInt16.toNat_toUInt32, UInt32.ofNat_toNat]
  obtain ⟨c, q, hq⟩ := List.exists_cons_of_ne_nil (@toDigits_ne_nil key.sec.toNat 10)
  rw [hq] at hsec hdigit
  unfold entryName parseEntryKey
  simp only [hexDigits_hexChars, hid, hq, hdigit c List.mem_cons_self, hsec, if_true]
  rfl

end Zephyrtastic.Cluster
