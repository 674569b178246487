import Zephyrtastic.Lib.Bytes

/-!
# Relayed text

A text that a relay re-originates is sanitized and marked: invalid UTF-8 becomes
question marks, and the origin's short name goes in front, in brackets. Another
relay knows the mark by its shape. Sanitizing leaves the mark as it is.
-/

namespace Zephyrtastic.TextRelay

open List

variable (text : Bytes)

/-- The loop of `meshtastic_relay_has_prefix`, from an index of the text on. -/
def markedFrom : Nat → Bytes → Bool
  | _, [] => false
  | i, b :: rest =>
    if 9 < i then false
    else if b = 0x5d then 2 ≤ i && rest.head? = some 0x20
    else if b ≤ 0x20 ∨ 0x7e < b then false
    else markedFrom (i + 1) rest

/-- `meshtastic_relay_has_prefix`: an opening bracket, 1 to 8 printable characters, a closing
bracket and a blank. -/
def hasPrefix : Bool :=
  4 ≤ text.length && (match text with
    | [] => false
    | b :: rest => b = 0x5b && markedFrom 1 rest)

/-! ### `meshtastic_utf8_sanitize` -/

/-- What a lead byte above 0x7f announces: the length of its sequence, the least code point of
that length and the lead's own bits. -/
def utf8Lead (b : UInt8) : Option (Nat × Nat × Nat) :=
  if b &&& 0xe0 = 0xc0 then some (2, 0x80, (b &&& 0x1f).toNat)
  else if b &&& 0xf0 = 0xe0 then some (3, 0x800, (b &&& 0x0f).toNat)
  else if b &&& 0xf8 = 0xf0 then some (4, 0x10000, (b &&& 0x07).toNat)
  else none

/-- The code point that continuation bytes add up to. -/
def utf8Point (cp : Nat) : Bytes → Option Nat
  | [] => some cp
  | c :: rest =>
    if c &&& 0xc0 ≠ 0x80 then none else utf8Point (cp <<< 6 ||| (c &&& 0x3f).toNat) rest

/-- Not an overlong form, a surrogate half or a point past U+10FFFF. -/
def utf8Valid (minCp : Nat) : Option Nat → Bool
  | none => false
  | some cp => !(cp < minCp || 0x10ffff < cp || (0xd800 ≤ cp && cp ≤ 0xdfff))

/-- The loop of `meshtastic_utf8_sanitize`; the first bytes of the rest may belong to a
sequence that has been checked. -/
def sanitizeFrom : Nat → Bytes → Bytes × Bool
  | _, [] => ([], false)
  | skip + 1, b :: rest =>
    let (out, replaced) := sanitizeFrom skip rest
    (b :: out, replaced)
  | 0, b :: rest =>
    if b ≤ 0x7f then
      let (out, replaced) := sanitizeFrom 0 rest
      (b :: out, replaced)
    else match utf8Lead b with
      | none => (0x3f :: (sanitizeFrom 0 rest).1, true)
      | some (seq, minCp, cp) =>
        -- a sequence cut short by the end of the text
        if rest.length + 1 < seq then (replicate (rest.length + 1) 0x3f, true)
        else if utf8Valid minCp (utf8Point cp (rest.take (seq - 1))) then
          let (out, replaced) := sanitizeFrom (seq - 1) rest
          (b :: out, replaced)
        else (0x3f :: (sanitizeFrom 0 rest).1, true)

/-- The text up to its first NUL. -/
def cstr : Bytes := text.takeWhile (· ≠ 0)

/-- `text_sanitize`: the text a relay would send and whether it differs, unless it has nothing
visible or is more than a quarter replacements. -/
def textSanitize : Option (Bytes × Bool) :=
  let (out, replaced) := sanitizeFrom 0 (cstr text)
  let marks := (out.zip text).countP fun (o, b) => o = 0x3f && b ≠ 0x3f
  if out.any (0x20 < ·) && marks * 4 ≤ out.length
  then some (out, replaced || out.length ≠ text.length) else none

/-! ### The annotation -/

def hexDigit (n : Nat) : UInt8 := UInt8.ofNat (if n < 10 then 0x30 + n else 0x57 + n)

/-- The low 16 bits as `%04x`. -/
def hex4 (v : UInt32) : Bytes :=
  [v.toNat / 4096 % 16, v.toNat / 256 % 16, v.toNat / 16 % 16, v.toNat % 16].map hexDigit

def relayPrefixLen : Nat := 7

def maxTextLen : Nat := 233

/-- The text of a job: the origin's short name in brackets and the text, or the text alone if
there is no room for both. -/
def annotated (origin : UInt32) (text : Bytes) : Bytes :=
  if text.length + relayPrefixLen ≤ maxTextLen
  then 0x5b :: hex4 origin ++ 0x5d :: 0x20 :: text else text

/-- The text leaves room for the annotation. -/
def Roomy : Prop := (cstr text).length + relayPrefixLen ≤ maxTextLen

instance (text : Bytes) : Decidable (Roomy text) := inferInstanceAs (Decidable (_ ≤ _))

/-! ### The mark is known by its shape -/

variable {i : Nat} {rest text : Bytes}

theorem markedFrom_cons {b : UInt8} (hi : i ≤ 9) (hb : b ≠ 0x5d)
    (hlow : 0x20 < b) (hhigh : b ≤ 0x7e) : markedFrom i (b :: rest) = markedFrom (i + 1) rest := by
  rw [markedFrom, if_neg (Nat.not_lt.mpr hi), if_neg hb,
    if_neg (not_or.mpr ⟨UInt8.not_le.mpr hlow, UInt8.not_lt.mpr hhigh⟩)]

theorem hexDigit_printable (n : Nat) (h : n < 16) :
    hexDigit n ≠ 0x5d ∧ 0x20 < hexDigit n ∧ hexDigit n ≤ 0x7e := by
  revert n
  decide

theorem hasPrefix_annotated (origin : UInt32)
    (h : text.length + relayPrefixLen ≤ maxTextLen) : hasPrefix (annotated origin text) = true := by
  have hdigit (n i : Nat) (rest : Bytes) (hi : i ≤ 9) :
      markedFrom i (hexDigit (n % 16) :: rest) = markedFrom (i + 1) rest := by
    obtain ⟨hb, hlow, hhigh⟩ := hexDigit_printable (n % 16) (Nat.mod_lt n (by decide))
    exact markedFrom_cons hi hb hlow hhigh
  rw [annotated, if_pos h]
  simp only [hasPrefix, hex4, map_cons, map_nil, cons_append, nil_append]
  rw [hdigit _ 1 _ (by decide), hdigit _ 2 _ (by decide), hdigit _ 3 _ (by decide),
    hdigit _ 4 _ (by decide)]
  simp [markedFrom]

theorem markedFrom_length (h : markedFrom i rest = true) : 4 ≤ i + rest.length := by
  induction rest generalizing i with
  | nil => exact Bool.noConfusion h
  | cons b rest ih =>
    unfold markedFrom at h
    split at h
    · exact Bool.noConfusion h
    split at h
    · rw [Bool.and_eq_true, decide_eq_true_eq] at h
      obtain ⟨hi, hhead⟩ := h
      cases rest with
      | nil => exact nomatch hhead
      | cons c rest =>
        simp only [length_cons]
        omega
    split at h
    · exact Bool.noConfusion h
    · have := ih h
      rw [length_cons]
      omega

/-! ### Sanitizing -/

theorem length_sanitizeFrom (skip : Nat) (text : Bytes) :
    (sanitizeFrom skip text).1.length = text.length := by
  fun_induction sanitizeFrom skip text <;> simp_all

theorem textSanitize_some {out : Bytes} {changed : Bool}
    (h : textSanitize text = some (out, changed)) : out = (sanitizeFrom 0 (cstr text)).1 := by
  unfold textSanitize at h
  dsimp only at h
  split at h
  · exact (Prod.mk.inj (Option.some.inj h)).1.symm
  · exact nomatch h

theorem sanitize_ascii {b : UInt8} (h0 : b ≠ 0) (h7 : b ≤ 0x7f) (rest : Bytes) :
    (sanitizeFrom 0 (cstr (b :: rest))).1 = b :: (sanitizeFrom 0 (cstr rest)).1 := by
  rw [cstr, takeWhile_cons_of_pos (by simpa using h0), sanitizeFrom, if_pos h7]
  rfl

theorem markedFrom_sanitize (h : markedFrom i rest = true) :
    markedFrom i (sanitizeFrom 0 (cstr rest)).1 = true := by
  induction rest generalizing i with
  | nil => exact Bool.noConfusion h
  | cons b rest ih =>
    unfold markedFrom at h
    split at h
    · exact Bool.noConfusion h
    rename_i hi
    split at h
    · rename_i hb
      subst hb
      rw [Bool.and_eq_true, decide_eq_true_eq, decide_eq_true_eq] at h
      obtain ⟨hpos, hhead⟩ := h
      cases rest with
      | nil => exact nomatch hhead
      | cons c rest =>
        obtain rfl := Option.some.inj hhead
        rw [sanitize_ascii (by decide) (by decide), sanitize_ascii (by decide) (by decide)]
        simp [markedFrom, hi, hpos]
    rename_i hb
    split at h
    · exact Bool.noConfusion h
    rename_i hrange
    rw [not_or, UInt8.not_le, UInt8.not_lt] at hrange
    obtain ⟨hlow, hhigh⟩ := hrange
    have h7 : b ≤ 0x7f := UInt8.le_trans hhigh (by decide)
    have h0 : b ≠ 0 := by
      rintro rfl
      exact absurd hlow (by decide)
    rw [sanitize_ascii h0 h7, markedFrom_cons (Nat.not_lt.mp hi) hb hlow hhigh]
    exact ih h

theorem hasPrefix_sanitize {out : Bytes} {changed : Bool} (h : hasPrefix text = true)
    (hs : textSanitize text = some (out, changed)) : hasPrefix out = true := by
  rw [textSanitize_some hs]
  cases text with
  | nil => exact Bool.noConfusion h
  | cons b rest =>
    simp only [hasPrefix, Bool.and_eq_true, decide_eq_true_eq] at h
    obtain ⟨-, rfl, hmarked⟩ := h
    have hout := markedFrom_sanitize hmarked
    rw [sanitize_ascii (by decide) (by decide)]
    simp only [hasPrefix, Bool.and_eq_true, decide_eq_true_eq]
    refine ⟨?_, trivial, hout⟩
    have hlen := markedFrom_length hout
    rw [length_cons]
    omega

end Zephyrtastic.TextRelay
