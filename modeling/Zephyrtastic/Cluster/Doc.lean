import Zephyrtastic.Hlc
import Zephyrtastic.Cluster.Key
import Zephyrtastic.Lib.Lww

/-!
# The cluster document

A sorted table of independently stamped entries with last-writer-wins as its
only merge rule. `Doc cap` carries what every operation keeps: the rows are
sorted, they fit the caller's table, and each one is well formed.
-/

namespace Zephyrtastic.Cluster

def payloadMax : Nat := 128
def sigLen : Nat := 64

/-- An author's signature, kept as the opaque bytes it arrived in. -/
structure Signature where
  bytes : List UInt8
  length_eq : bytes.length = sigLen
  deriving DecidableEq

/-- One row of the table, and equally one write offered to it. -/
structure Entry where
  key : Key
  stamp : Stamp
  tombstone : Bool
  payload : List UInt8
  sig : Option Signature
  deriving DecidableEq

open Entry Lww

/-- The structural checks of `accept`: what it does not refuse with `-EINVAL`. -/
def Entry.wellFormed (w : Entry) : Bool :=
  if w.payload.length > payloadMax then false
  else if w.tombstone && w.payload.length ≠ 0 then false
  else if !w.tombstone && w.payload.length = 0 then false
  else if !keyIsValid w.key then false
  else if w.key.layer = layerBase && w.tombstone then false
  else !w.stamp.isUnset

theorem Entry.wellFormed_iff {w : Entry} : w.wellFormed = true ↔
    w.payload.length ≤ payloadMax ∧ (w.tombstone = true ↔ w.payload = []) ∧
      keyIsValid w.key = true ∧ (w.key.layer = layerBase → w.tombstone = false) ∧
      w.stamp.isUnset = false := by
  unfold wellFormed
  by_cases hp : w.payload.length > payloadMax
  · simp [hp]
  have hp := Nat.le_of_not_lt hp
  by_cases hb : w.key.layer = layerBase <;> by_cases h0 : w.payload = [] <;>
    cases w.tombstone <;> cases keyIsValid w.key <;> simp [hp, hb, h0]

/-- The low `n` bytes of a value, least significant first. -/
def leBytes (n : Nat) (v : Nat) : List UInt8 :=
  (List.range n).map fun b => UInt8.ofNat (v >>> (8 * b))

/-- The canonical row: the only bytes that ever reach the digest. -/
def Entry.rowBytes (e : Entry) : List UInt8 :=
  [e.key.layer] ++ leBytes 4 e.key.nodeId.toNat ++ leBytes 2 e.key.sec.toNat ++
    leBytes 8 e.stamp.physicalMs.toUInt64.toNat ++ leBytes 4 e.stamp.counter.toNat ++
    leBytes 4 e.stamp.nodeId.toNat ++ [if e.tombstone then 1 else 0]

inductive Want where
  | no | yes | noSpace
  deriving DecidableEq, Repr

/-- Sorted-insert position for a key, and whether it is already there. -/
def docPos (key : Key) : List Entry → Nat × Bool
  | [] => (0, false)
  | e :: rest =>
    if key.cmp e.key = 0 then (0, true)
    else if key.cmp e.key < 0 then (0, false)
    else ((docPos key rest).1 + 1, (docPos key rest).2)

/-- What became of an offered write: `1`, `0`, `-ENOSPC` or `-EINVAL`. -/
inductive Accept where
  | stored | stale | noSpace | invalid
  deriving DecidableEq, Repr

/-- `meshtastic_cluster_doc_accept_signed` on the bare table. -/
def acceptRows (cap : Nat) (rows : List Entry) (w : Entry) : Accept × List Entry :=
  if !w.wellFormed then (.invalid, rows)
  else
    let i := (docPos w.key rows).1
    if (docPos w.key rows).2 then
      if !w.stamp.newer (rows[i]?.elim Stamp.unset Entry.stamp) then (.stale, rows)
      else (.stored, rows.set i w)
    else if rows.length ≥ cap then (.noSpace, rows)
    else (.stored, rows.insertIdx i w)

section Rows
variable {rows : List Entry} {cap : Nat} {w : Entry} {key : Key}

theorem docPos_split (key : Key) (rows : List Entry) : ∃ before after,
    rows = before ++ after ∧ (docPos key rows).1 = before.length ∧
    (∀ e ∈ before, e.key < key) ∧
    (((docPos key rows).2 = true ∧ ∃ e rest, after = e :: rest ∧ e.key = key) ∨
      ((docPos key rows).2 = false ∧ ∀ e ∈ after.head?, key < e.key)) := by
  induction rows with
  | nil => exact ⟨[], [], rfl, rfl, by simp, .inr ⟨rfl, by simp⟩⟩
  | cons e rest ih =>
    rcases key.cmp_cases e.key with ⟨hc, hlt⟩ | ⟨hc, he⟩ | ⟨hc, hgt⟩
    · refine ⟨[], e :: rest, rfl, ?_, by simp, .inr ⟨?_, by simpa using hlt⟩⟩
      · simp [docPos, hc, hc.ne]
      · simp [docPos, hc, hc.ne]
    · refine ⟨[], e :: rest, rfl, ?_, by simp, .inl ⟨?_, e, rest, rfl, he.symm⟩⟩
      · simp [docPos, hc]
      · simp [docPos, hc]
    obtain ⟨before, after, hr, hi, hb, ha⟩ := ih
    have hpos : docPos key (e :: rest) = ((docPos key rest).1 + 1, (docPos key rest).2) := by
      simp [docPos, hc.ne', not_lt.mpr hc.le]
    refine ⟨e :: before, after, by rw [hr]; rfl, by rw [hpos, hi]; rfl, ?_, by rwa [hpos]⟩
    intro x hx
    rcases List.mem_cons.mp hx with rfl | hx
    · exact hgt
    · exact hb x hx

theorem insertIdx_append (before after : List Entry) (w : Entry) :
    (before ++ after).insertIdx before.length w = before ++ w :: after := by
  induction before with
  | nil => rfl
  | cons e before ih => simp [ih]

/-- **The whole of what an offered write can do to a table**, guards included. -/
inductive Offered (cap : Nat) (rows : List Entry) (w : Entry) : Prop
  | invalid (hw : w.wellFormed = false) (hr : acceptRows cap rows w = (.invalid, rows))
  | stale (e : Entry) (he : e ∈ rows) (hk : e.key = w.key) (hle : w.stamp ≤ e.stamp)
      (hw : w.wellFormed = true) (hr : acceptRows cap rows w = (.stale, rows))
  | noSpace (hno : ∀ e ∈ rows, e.key ≠ w.key) (hfull : cap ≤ rows.length)
      (hw : w.wellFormed = true) (hr : acceptRows cap rows w = (.noSpace, rows))
  | stored (hnew : ∀ e ∈ rows, e.key = w.key → e.stamp < w.stamp)
      (hroom : (∀ e ∈ rows, e.key ≠ w.key) → rows.length < cap) (hw : w.wellFormed = true)
      (hr : acceptRows cap rows w = (.stored, Lww.put Entry.key Entry.stamp w rows))

variable (h : Sorted Entry.key rows)
include h

theorem acceptRows_offered (cap : Nat) (w : Entry) : Offered cap rows w := by
  by_cases hw : w.wellFormed = true
  swap
  · have hw := Bool.eq_false_iff.mpr hw
    exact .invalid hw (by simp [acceptRows, hw])
  obtain ⟨before, after, hr, hi, hb, ⟨hf, e, rest, rfl, he⟩ | ⟨hf, ha⟩⟩ := docPos_split w.key rows
  · have hem : e ∈ rows := by rw [hr]; simp
    have hat : rows[before.length]? = some e := by rw [hr]; simp
    by_cases hn : e.stamp < w.stamp
    · refine .stored (fun x hx hk => ?_) (fun hno => absurd he (hno e hem)) hw ?_
      · rw [h.key_inj hx hem (hk.trans he.symm)]
        exact hn
      · have hset : rows.set before.length w = put key stamp w rows := by
          rw [hr, put_append_of_lt hb, put, if_neg (by rw [he]; exact lt_irrefl _),
            if_pos he.symm, if_pos hn]
          simp
        simp [acceptRows, hw, hf, hi, hat, Stamp.newer_iff.mpr hn, hset]
    · refine .stale e hem he (not_lt.mp hn) hw ?_
      simp [acceptRows, hw, hf, hi, hat, Stamp.newer_eq_false_iff.mpr (not_lt.mp hn)]
  · have hno : ∀ e ∈ rows, e.key ≠ w.key := by
      intro x hx
      rw [hr] at hx h
      rcases List.mem_append.mp hx with hx | hx
      · exact (hb x hx).ne
      · exact (Sorted.lt_of_head_lt (List.pairwise_append.mp h).2.1 ha x hx).ne'
    by_cases hfull : cap ≤ rows.length
    · exact .noSpace hno hfull hw (by simp [acceptRows, hw, hf, hfull])
    refine .stored (fun x hx hk => absurd hk (hno x hx)) (fun _ => not_le.mp hfull) hw ?_
    have hins : rows.insertIdx before.length w = put key stamp w rows := by
      rw [hr, put_append_of_lt hb, insertIdx_append]
      cases after with
      | nil => simp [put]
      | cons a rest => simp [put, show w.key < a.key from ha a rfl]
    simp [acceptRows, hw, hf, hi, hfull, hins]

theorem acceptRows_sorted (cap : Nat) (w : Entry) : Sorted Entry.key (acceptRows cap rows w).2 := by
  cases acceptRows_offered h cap w with
  | invalid _ hr => rw [hr]; exact h
  | stale _ _ _ _ _ hr => rw [hr]; exact h
  | noSpace _ _ _ hr => rw [hr]; exact h
  | stored _ _ _ hr => rw [hr]; exact put_sorted h w

theorem length_put_le (w : Entry) (n : Nat)
    (hnew : (∀ e ∈ rows, e.key ≠ w.key) → rows.length < n) (hf : rows.length ≤ n) :
    (put Entry.key stamp w rows).length ≤ n := by
  by_cases hno : ∀ e ∈ rows, e.key ≠ w.key
  · have hlt := hnew hno
    have hl : (put key stamp w rows).length = rows.length ∨
        (put key stamp w rows).length = rows.length + 1 := length_put w rows
    omega
  · push Not at hno
    obtain ⟨e, he, hk⟩ := hno
    rw [length_put_of_mem h he hk]
    exact hf

theorem acceptRows_fits (hf : rows.length ≤ cap) (w : Entry) :
    (acceptRows cap rows w).2.length ≤ cap := by
  cases acceptRows_offered h cap w with
  | invalid _ hr => rw [hr]; exact hf
  | stale _ _ _ _ _ hr => rw [hr]; exact hf
  | noSpace _ _ _ hr => rw [hr]; exact hf
  | stored _ hroom _ hr =>
    rw [hr]
    exact length_put_le h w cap hroom hf

theorem acceptRows_wellFormed (hw : ∀ e ∈ rows, e.wellFormed = true) (w : Entry) :
    ∀ e ∈ (acceptRows cap rows w).2, e.wellFormed = true := by
  cases acceptRows_offered h cap w with
  | invalid _ hr => rw [hr]; exact hw
  | stale _ _ _ _ _ hr => rw [hr]; exact hw
  | noSpace _ _ _ hr => rw [hr]; exact hw
  | stored _ _ hww hr =>
    rw [hr]
    intro e he
    rcases (mem_put h w e).mp he with ⟨rfl, _⟩ | ⟨he, _⟩
    · exact hww
    · exact hw e he

end Rows

/-- The document over a table of `cap` entries. -/
structure Doc (cap : Nat) where
  rows : List Entry
  sorted : Lww.Sorted Entry.key rows
  fits : rows.length ≤ cap
  wellFormed : ∀ e ∈ rows, e.wellFormed = true

namespace Doc
variable {cap : Nat}
variable (d : Doc cap) (scope : Scope)

theorem ext_rows {d d' : Doc cap} (h : d.rows = d'.rows) : d = d' := by
  cases d; cases d'; cases h; rfl

instance : DecidableEq (Doc cap) := fun d d' =>
  decidable_of_iff (d.rows = d'.rows) ⟨ext_rows, congrArg Doc.rows⟩

def init (cap : Nat) : Doc cap := ⟨[], List.Pairwise.nil, Nat.zero_le _, by simp⟩

def count : Nat := d.rows.length

def find (key : Key) : Option Entry :=
  if (docPos key d.rows).2 then d.rows[(docPos key d.rows).1]? else none

/-- The one merge rule. -/
def acceptSigned (w : Entry) : Accept × Doc cap :=
  ((acceptRows cap d.rows w).1,
    ⟨(acceptRows cap d.rows w).2, acceptRows_sorted d.sorted cap w,
      acceptRows_fits d.sorted d.fits w, acceptRows_wellFormed d.sorted d.wellFormed w⟩)

/-- Drop everything, reporting the dropped keys in order. -/
def clear : List Key × Doc cap := (d.rows.map Entry.key, init cap)

/-- Drop everything outside the scope in one pass that keeps the order, reporting
the dropped keys. -/
def retain : List Key × Doc cap :=
  ((d.rows.filter fun e => !scope.contains e.key).map Entry.key,
    ⟨d.rows.filter fun e => scope.contains e.key, List.Pairwise.filter _ d.sorted,
      (List.length_filter_le _ _).trans d.fits,
      fun e he => d.wellFormed e (List.mem_of_mem_filter he)⟩)

/-- The node's own live entry when there is one, else the base entry. -/
def effective (nodeId : UInt32) (sec : UInt16) : Option Entry :=
  match d.find (Key.node nodeId sec) with
  | some e => if !e.tombstone then some e else live (d.find (Key.base sec))
  | none => live (d.find (Key.base sec))
where
  live : Option Entry → Option Entry
    | some e => if !e.tombstone then some e else none
    | none => none

/-- The version of that answer: the newest stamp of the two layers, or `none`
where the source reports that it has none and leaves the unset stamp. -/
def effectiveVersion (nodeId : UInt32) (sec : UInt16) : Option Stamp :=
  let out := (d.find (Key.node nodeId sec)).map Entry.stamp
  match d.find (Key.base sec) with
  | some base => if base.stamp.newer (out.getD Stamp.unset) then some base.stamp else out
  | none => out

/-- The rows of a scope, in table order. -/
def inScope : List Entry :=
  d.rows.filter fun e => scope.contains e.key

/-- `crc32_ieee_update` over the canonical rows of the scope, in table order. -/
def hashScoped (crc : UInt32 → List UInt8 → UInt32) (d : Doc cap) (scope : Scope) : UInt32 :=
  (d.inScope scope).foldl (fun acc e => crc acc e.rowBytes) 0

def countScoped : Nat := (d.inScope scope).length

/-- The newest stamp of the scope; the unset stamp when nothing beats it. -/
def maxStampScoped : Stamp :=
  (d.inScope scope).foldl (fun out e => if e.stamp.newer out then e.stamp else out) Stamp.unset

/-- Whether a peer's row describes a version worth fetching. -/
def want (mine : Scope) (key : Key) (stamp : Stamp) : Want :=
  if !keyIsValid key || stamp.isUnset then .no
  else if !mine.contains key then .no
  else match d.find key with
    | some e => if stamp.newer e.stamp then .yes else .no
    | none => if d.count < cap then .yes else .noSpace

section Lemmas
variable {d : Doc cap} {key : Key} {w e : Entry}

theorem find_eq_row (d : Doc cap) (key : Key) : d.find key = row Entry.key key d.rows := by
  obtain ⟨before, after, hr, hi, hb, ⟨hf, e, rest, rfl, he⟩ | ⟨hf, ha⟩⟩ := docPos_split key d.rows
  · have hat : d.rows[before.length]? = some e := by rw [hr]; simp
    rw [find, if_pos hf, hi, hat, eq_comm, row_eq_some d.sorted]
    exact ⟨by rw [hr]; simp, he⟩
  rw [find, if_neg (by simp [hf]), eq_comm, row_eq_none]
  intro x hx
  have hs := d.sorted
  rw [hr] at hx hs
  rcases List.mem_append.mp hx with hx | hx
  · exact (hb x hx).ne
  · exact (Sorted.lt_of_head_lt (List.pairwise_append.mp hs).2.1 ha x hx).ne'

theorem find_eq_some : d.find key = some e ↔ e ∈ d.rows ∧ e.key = key := by
  rw [find_eq_row, row_eq_some d.sorted]

theorem find_eq_none : d.find key = none ↔ ∀ e ∈ d.rows, e.key ≠ key := by
  rw [find_eq_row, row_eq_none]

/-- `Offered` for the document, in terms of what it finds. -/
inductive Outcome (d : Doc cap) (w : Entry) : Prop
  | invalid (hw : w.wellFormed = false) (hr : d.acceptSigned w = (.invalid, d))
  | stale (e : Entry) (he : d.find w.key = some e) (hle : w.stamp ≤ e.stamp)
      (hw : w.wellFormed = true) (hr : d.acceptSigned w = (.stale, d))
  | noSpace (hn : d.find w.key = none) (hfull : cap ≤ d.count) (hw : w.wellFormed = true)
      (hr : d.acceptSigned w = (.noSpace, d))
  | stored (hnew : ∀ e, d.find w.key = some e → e.stamp < w.stamp)
      (hroom : d.find w.key = none → d.count < cap) (hw : w.wellFormed = true)
      (hs : (d.acceptSigned w).1 = .stored)
      (hr : (d.acceptSigned w).2.rows = Lww.put Entry.key Entry.stamp w d.rows)

theorem acceptSigned_outcome (d : Doc cap) (w : Entry) : d.Outcome w := by
  have same : ∀ {a}, acceptRows cap d.rows w = (a, d.rows) → d.acceptSigned w = (a, d) := by
    intro a h
    have hfst : (d.acceptSigned w).1 = a := congrArg Prod.fst h
    have hsnd : (d.acceptSigned w).2 = d := ext_rows (congrArg Prod.snd h)
    exact Prod.ext hfst hsnd
  cases acceptRows_offered d.sorted cap w with
  | invalid hw hr => exact .invalid hw (same hr)
  | stale e he hk hle hw hr => exact .stale e (find_eq_some.mpr ⟨he, hk⟩) hle hw (same hr)
  | noSpace hno hfull hw hr => exact .noSpace (find_eq_none.mpr hno) hfull hw (same hr)
  | stored hnew hroom hw hr =>
    refine .stored (fun e he => ?_) (fun hn => hroom (find_eq_none.mp hn)) hw
      (congrArg Prod.fst hr) (congrArg Prod.snd hr)
    obtain ⟨hm, hk⟩ := find_eq_some.mp he
    exact hnew e hm hk

theorem acceptSigned_of_ne_stored (h : (d.acceptSigned w).1 ≠ .stored) :
    (d.acceptSigned w).2 = d := by
  cases d.acceptSigned_outcome w with
  | invalid _ hr => rw [hr]
  | stale _ _ _ _ hr => rw [hr]
  | noSpace _ _ _ hr => rw [hr]
  | stored _ _ _ hs _ => exact absurd hs h

theorem rows_of_stored (h : (d.acceptSigned w).1 = .stored) :
    (d.acceptSigned w).2.rows = put Entry.key stamp w d.rows := by
  cases d.acceptSigned_outcome w with
  | invalid _ hr => simp [hr] at h
  | stale _ _ _ _ hr => simp [hr] at h
  | noSpace _ _ _ hr => simp [hr] at h
  | stored _ _ _ _ hr => exact hr

theorem acceptSigned_stored_iff : (d.acceptSigned w).1 = .stored ↔
    w.wellFormed = true ∧ (∀ e, d.find w.key = some e → e.stamp < w.stamp) ∧
      (d.find w.key = none → d.count < cap) := by
  cases d.acceptSigned_outcome w with
  | invalid hw hr => simp [hr, hw]
  | stale e he hle _ hr =>
    simp only [hr, reduceCtorEq, false_iff]
    exact fun ⟨_, hnew, _⟩ => absurd (hnew e he) (not_lt.mpr hle)
  | noSpace hn hfull _ hr =>
    simp only [hr, reduceCtorEq, false_iff]
    exact fun ⟨_, _, hroom⟩ => absurd (hroom hn) (not_lt.mpr hfull)
  | stored hnew hroom hw hs _ => exact iff_of_true hs ⟨hw, hnew, hroom⟩

theorem find_of_stored (h : (d.acceptSigned w).1 = .stored) (key : Key) :
    (d.acceptSigned w).2.find key = if key = w.key then some w else d.find key := by
  obtain ⟨hw, hnew, -⟩ := acceptSigned_stored_iff.mp h
  have hmem : ∀ x, x ∈ (d.acceptSigned w).2.rows ↔ x = w ∨ x ∈ d.rows ∧ x.key ≠ w.key := by
    intro x
    rw [rows_of_stored h, mem_put d.sorted]
    constructor
    · rintro (⟨rfl, _⟩ | ⟨hx, hn⟩)
      · exact .inl rfl
      · exact .inr ⟨hx, fun e => hn e (hnew x (find_eq_some.mpr ⟨hx, e⟩))⟩
    · rintro (rfl | ⟨hx, hn⟩)
      · exact .inl ⟨rfl, fun y hy e => hnew y (find_eq_some.mpr ⟨hy, e⟩)⟩
      · exact .inr ⟨hx, fun e => absurd e hn⟩
  by_cases hk : key = w.key
  · rw [if_pos hk]
    exact find_eq_some.mpr ⟨(hmem w).mpr (.inl rfl), hk.symm⟩
  rw [if_neg hk]
  ext e
  rw [find_eq_some, find_eq_some, hmem]
  constructor
  · rintro ⟨rfl | ⟨he, _⟩, rfl⟩
    · exact absurd rfl hk
    · exact ⟨he, rfl⟩
  · rintro ⟨he, rfl⟩
    exact ⟨.inr ⟨he, hk⟩, rfl⟩

theorem find_retain (d : Doc cap) {scope : Scope}
    (h : scope.contains key = true) : (d.retain scope).2.find key = d.find key := by
  ext e
  rw [find_eq_some, find_eq_some]
  constructor
  · rintro ⟨he, hk⟩
    exact ⟨(List.mem_filter.mp he).1, hk⟩
  · rintro ⟨he, hk⟩
    exact ⟨List.mem_filter.mpr ⟨he, by rw [hk]; exact h⟩, hk⟩

/-- What is wanted is what `accept` would store, given a well-formed write. -/
theorem want_eq_yes_iff {mine : Scope} {stamp : Stamp} : d.want mine key stamp = .yes ↔
    keyIsValid key = true ∧ stamp.isUnset = false ∧ mine.contains key = true ∧
      (∀ e, d.find key = some e → e.stamp < stamp) ∧ (d.find key = none → d.count < cap) := by
  unfold want
  cases keyIsValid key <;> cases stamp.isUnset <;> cases mine.contains key <;>
    cases d.find key <;> simp [Stamp.newer_iff]

end Lemmas

end Doc

end Zephyrtastic.Cluster
