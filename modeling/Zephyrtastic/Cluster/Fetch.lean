import Zephyrtastic.Cluster.Module
import Zephyrtastic.Cluster.Reply

/-!
# What a requester makes of a reply

The other end of `Reply`. A vector that arrives as chunks becomes a request for
the first rows the document lacks, and the fragments of a row become the row in
the table.
-/

namespace Zephyrtastic.Cluster

open List Nat State UInt32

/-- The row is a version this document does not hold, nor a newer one. -/
def Doc.lacks {cap : Nat} (d : Doc cap) (e : Entry) : Bool :=
  match d.find e.key with
  | some held => e.stamp.newer held.stamp
  | none => true

/-- The rows of one document that another lacks. -/
def missing {cap cap' : Nat} (d : Doc cap) (d' : Doc cap') : List Entry := d.rows.filter d'.lacks

/-- The table has room for the keys of the rows that it does not hold. -/
def Doc.HasRoom {cap : Nat} (d : Doc cap) (es : List Entry) : Prop :=
  d.count + (es.filter fun e => (d.find e.key).isNone).length ≤ cap

/-- These rows have come in, and nothing else has changed. -/
structure Doc.Fetched {cap : Nat} (d d' : Doc cap) (es : List Entry) : Prop where
  got : ∀ e ∈ es, d'.find e.key = some e
  kept : ∀ key, (∀ e ∈ es, e.key ≠ key) → d'.find key = d.find key

section Docs
variable {cap : Nat} {d : Doc cap} {e : Entry} {es : List Entry}

theorem Doc.lacks_iff : d.lacks e = true ↔
    ∀ held, d.find e.key = some held → held.stamp < e.stamp := by
  unfold lacks
  cases d.find e.key <;> simp [Stamp.newer_iff]

theorem Doc.HasRoom.count_lt (h : d.HasRoom es) (he : e ∈ es) (hn : d.find e.key = none) :
    d.count < cap := by
  have hmem : e ∈ es.filter fun x => (d.find x.key).isNone := by simp [he, hn]
  have hpos := length_pos_of_mem hmem
  unfold HasRoom at h
  omega

theorem Doc.HasRoom.sublist {es' : List Entry} (h : d.HasRoom es) (hs : es'.Sublist es) :
    d.HasRoom es' := by
  have hle := (hs.filter fun x => (d.find x.key).isNone).length_le
  unfold HasRoom at h ⊢
  omega

theorem Doc.stored_of_lacks (hw : e.wellFormed = true) (hl : d.lacks e = true)
    (hr : d.HasRoom es) (he : e ∈ es) : (d.acceptSigned e).1 = .stored :=
  acceptSigned_stored_iff.mpr ⟨hw, lacks_iff.mp hl, hr.count_lt he⟩

theorem Doc.count_of_stored (h : (d.acceptSigned e).1 = .stored) :
    (d.acceptSigned e).2.count ≤ d.count + if (d.find e.key).isNone then 1 else 0 := by
  unfold count
  rw [rows_of_stored h]
  refine length_put_le d.sorted e _ (fun hno => ?_) (le_add_right _ _)
  rw [find_eq_none.mpr hno]
  exact lt_succ_self _

theorem Doc.HasRoom.tail (h : d.HasRoom (e :: es)) (hs : (d.acceptSigned e).1 = .stored)
    (hne : ∀ x ∈ es, x.key ≠ e.key) : (d.acceptSigned e).2.HasRoom es := by
  have hc := count_of_stored hs
  have hsame : (es.filter fun x => ((d.acceptSigned e).2.find x.key).isNone) =
      es.filter fun x => (d.find x.key).isNone := by
    refine filter_congr fun x hx => ?_
    rw [find_of_stored hs, if_neg (hne x hx)]
  unfold HasRoom at h ⊢
  rw [hsame]
  rw [filter_cons] at h
  split at h
  · rename_i hn
    rw [if_pos hn] at hc
    rw [length_cons] at h
    omega
  · rename_i hn
    rw [if_neg hn] at hc
    omega

theorem Doc.lacks_of_stored {x : Entry} (hs : (d.acceptSigned e).1 = .stored)
    (hne : x.key ≠ e.key) : (d.acceptSigned e).2.lacks x = d.lacks x := by
  simp only [lacks, find_of_stored hs, if_neg hne]

theorem Doc.Fetched.cons {d' : Doc cap} (hs : (d.acceptSigned e).1 = .stored)
    (hne : ∀ x ∈ es, x.key ≠ e.key) (h : (d.acceptSigned e).2.Fetched d' es) :
    d.Fetched d' (e :: es) := by
  refine ⟨fun x hx => ?_, fun key hkey => ?_⟩
  · rcases mem_cons.mp hx with rfl | hx
    · rw [h.kept _ hne, find_of_stored hs, if_pos rfl]
    · exact h.got x hx
  · have hk := hkey e mem_cons_self
    rw [h.kept key fun x hx => hkey x (mem_cons_of_mem _ hx), find_of_stored hs,
      if_neg hk.symm]

end Docs

section Hear
variable {nd : Node}

/-- A frame on the air reaches the node it is for. -/
def State.hear (c : State nd) (env : Env) (sender : UInt32) (frame : Outbound) : State nd :=
  if frame.1 = nd.me ∨ frame.1 = nodeBroadcast then c.onMessage env sender frame.2 else c

/-- Frames heard one after another, the first of them in `env i`. -/
def State.hearAll (sender : UInt32) (env : Nat → Env) : Nat → List Outbound → State nd → State nd
  | _, [], c => c
  | i, frame :: rest, c => hearAll sender env (i + 1) rest (c.hear (env i) sender frame)

theorem hear_own (c : State nd) (env : Env) (sender : UInt32) (msg : Message) :
    c.hear env sender (nd.me, msg) = c.onMessage env sender msg :=
  if_pos (.inl rfl)

theorem hearAll_own (sender : UInt32) (times : Nat → Env) (i : Nat) (msg : Message)
    (rest : List Outbound) (c : State nd) :
    hearAll sender times i ((nd.me, msg) :: rest) c =
      hearAll sender times (i + 1) rest (c.onMessage (times i) sender msg) := by
  rw [hearAll, hear_own]

def SigVerdict.accepts : SigVerdict → Bool
  | .acceptVerified | .acceptUnsigned | .acceptUnchecked => true
  | _ => false

/-- The row passes every gate of this node's ingest: those on any entry, and the
signature policy on any frame that carries the row's own signature. -/
structure State.Accepts (c : State nd) (env : Env) (e : Entry) : Prop
    extends PassedGates c env e where
  signed : ∀ f : EntryPb, f.tombstone = e.tombstone → f.authorSig = e.sigBytes →
    (sigVerdict nd env e.key e.stamp f e.payload).accepts = true

theorem State.Accepts.of_scope {c c' : State nd} {env : Env} {e : Entry} (h : c.Accepts env e)
    (hk : c'.scopeKind = c.scopeKind) : c'.Accepts env e := by
  have hs : c'.myScope = c.myScope := by simp only [myScope, hk]
  exact { h with inScope := by rw [hs]; exact h.inScope }

variable {total : Nat}

section Vector
variable {c : State nd} {env : Env} {e : Entry}

theorem rowVerdict_eq (h : c.Accepts env e) (hw : e.wellFormed = true)
    (hroom : c.doc.find e.key = none → c.doc.count < nd.maxEntries) :
    rowVerdict c.doc c.myScope env ⟨some (keyToPb e.key), some e.stamp⟩ =
      (e.key, if c.doc.lacks e then .yes else .no) := by
  obtain ⟨-, -, hvalid, -, hset⟩ := Entry.wellFormed_iff.mp hw
  simp only [rowVerdict, keyFromPb_keyToPb hvalid, h.shareable, h.horizon]
  unfold Doc.want Doc.lacks
  cases hf : c.doc.find e.key with
  | some held => simp [hvalid, hset, h.inScope]
  | none => simp [hvalid, hset, h.inScope, hroom hf]

variable {rows : List Entry}

theorem collected_chunkOf (h : ∀ e ∈ rows, c.Accepts env e)
    (hw : ∀ e ∈ rows, e.wellFormed = true) (hroom : c.doc.HasRoom rows) (sent total : Nat) :
    c.collected env (chunkOf rows sent total) =
      (((rows.filter c.doc.lacks).map Entry.key).take (pullKeysMax - c.pullKeys.length),
        false) := by
  have hv : (chunkOf rows sent total).entries.map (rowVerdict c.doc c.myScope env) =
      rows.map fun e => (e.key, if c.doc.lacks e then Want.yes else .no) := by
    rw [chunkOf, map_map]
    exact map_congr_left fun e he => rowVerdict_eq (h e he) (hw e he) (hroom.count_lt he)
  have hyes : ((rows.map fun e => (e.key, if c.doc.lacks e then Want.yes else .no)).filter
      fun r => r.2 = .yes).map Prod.fst = (rows.filter c.doc.lacks).map Entry.key := by
    rw [filter_map, map_map]
    congr 1
    refine filter_congr fun e _ => ?_
    cases hl : c.doc.lacks e <;> simp [hl]
  refine Prod.ext ?_ ?_
  · rw [collected, hv, collect_fst, hyes]
  · rw [collected, hv]
    by_contra hover
    obtain ⟨before, key, after, hrows, _⟩ :=
      collect_snd.mp (Bool.eq_true_of_not_eq_false hover)
    have hmem : (key, Want.noSpace) ∈ rows.map fun e =>
        (e.key, if c.doc.lacks e then Want.yes else .no) := by rw [hrows]; simp
    obtain ⟨e, _, he⟩ := mem_map.mp hmem
    have := congrArg Prod.snd he
    cases hl : c.doc.lacks e <;> simp [hl] at this

theorem isLast_chunkOf {sent : Nat} (hs : sent + rows.length ≤ total) (ht : total < 2 ^ 32) :
    (chunkOf rows sent total).isLast = true ↔ sent + rows.length = total := by
  have hsize : UInt32.size = 2 ^ 32 := rfl
  have htot : (ofNat total).toNat = total := toNat_ofNat_of_lt' ht
  have hsum : (ofNat sent + ofNat rows.length).toNat = sent + rows.length := by
    rw [← ofNat_add]
    exact toNat_ofNat_of_lt' (by omega)
  simp only [VectorPb.isLast, chunkOf, length_map, Bool.or_eq_true, decide_eq_true_eq,
    ge_iff_le, UInt32.le_iff_toNat_le, ← UInt32.toNat_inj, htot, hsum]
  rw [show (0 : UInt32).toNat = 0 from rfl]
  omega

variable {sender : UInt32}

/-- A chunk that comes when the request is already made up changes nothing. -/
theorem hearAll_late (hs : c.pullState ≠ .awaitVector)
    (hp : sender = c.pullPeer) (times : Nat → Env) (i : Nat) (vs : List VectorPb) :
    hearAll sender times i (vs.map fun v => (nd.me, .vector v)) c = c := by
  induction vs generalizing i with
  | nil => rfl
  | cons v vs ih =>
    have hv : c.onMessage (times i) sender (.vector v) = c := by
      simp [onMessage, onVector, hs, hp]
    rw [map_cons, hearAll_own, hv]
    exact ih (i + 1)

theorem onVector_chunkOf (hs : c.pullState = .awaitVector) (hp : sender = c.pullPeer)
    (h : ∀ e ∈ rows, c.Accepts env e) (hw : ∀ e ∈ rows, e.wellFormed = true)
    (hroom : c.doc.HasRoom rows) (sent total : Nat) :
    ∃ c', c.OnlyKeys c'
        (((rows.filter c.doc.lacks).map Entry.key).take (pullKeysMax - c.pullKeys.length)) ∧
      c.onMessage env sender (.vector (chunkOf rows sent total)) =
        c'.chunkDone (chunkOf rows sent total) := by
  have hcol := collected_chunkOf h hw hroom sent total
  cases onVector_diffed c env sender (chunkOf rows sent total) with
  | ignored hout _ =>
    cases hout with
    | inl hout => exact absurd hs hout
    | inr hout => exact absurd hp hout
  | abandoned _ _ _ _ hover _ =>
    rw [hcol] at hover
    cases hover
  | collected c' _ _ hk _ he =>
    rw [hcol] at hk
    exact ⟨c', hk, he⟩

/-- How a vector that was heard to its end leaves the pull. -/
def State.vectorEnd (c : State nd) : State nd :=
  if c.pullKeys.length > 0 then { c with pullState := .sendEntryReq } else c.pullEmpty

/-- **A vector heard in full asks for the first rows that are lacking.** The request
may fill up in any chunk; the chunks after it are ignored. -/
theorem hearAll_chunks {times : Nat → Env} {sent i : Nat} {vs : List VectorPb}
    (hch : Chunks total sent rows vs)
    (ht : total < 2 ^ 32) (hs : c.pullState = .awaitVector) (hp : sender = c.pullPeer)
    (hlt : c.pullKeys.length < pullKeysMax) (h : ∀ e ∈ rows, ∀ j, c.Accepts (times j) e)
    (hw : ∀ e ∈ rows, e.wellFormed = true) (hroom : c.doc.HasRoom rows) :
    ∃ c', c.OnlyKeys c'
        (((rows.filter c.doc.lacks).map Entry.key).take (pullKeysMax - c.pullKeys.length)) ∧
      hearAll sender times i (vs.map fun v => (nd.me, .vector v)) c = c'.vectorEnd := by
  induction hch generalizing c i with
  | @last sent rows hsent =>
    obtain ⟨c', hk, he⟩ := onVector_chunkOf hs hp (fun e hx => h e hx i) hw hroom sent total
    refine ⟨c', hk, ?_⟩
    have hlast := (isLast_chunkOf hsent.le ht).mpr hsent
    rw [map_cons, hearAll_own, he, chunkDone, if_pos (.inr hlast)]
    rfl
  | @more sent rows rest vs hrest hvs ih =>
    have hsum := hvs.sent_add
    have hpos := length_pos_of_ne_nil hrest
    obtain ⟨c1, hk, he⟩ := onVector_chunkOf hs hp
      (fun e hx => h e (mem_append_left _ hx) i)
      (fun e hx => hw e (mem_append_left _ hx))
      (hroom.sublist (sublist_append_left _ _)) sent total
    rw [map_cons, hearAll_own, he]
    obtain ⟨hlc, stats, hc1, _⟩ := id hk
    have hlen := congrArg length hk.pullKeys
    rw [length_append, length_take] at hlen
    by_cases hfull : c1.pullKeys.length ≥ pullKeysMax
    · -- the request is full: what is left of the vector is late
      have hend : c1.chunkDone (chunkOf rows sent total) =
          { c1 with pullState := .sendEntryReq } := by
        rw [chunkDone, if_pos (.inl hfull), if_pos (by omega)]
      refine ⟨c1, ?_, ?_⟩
      · rw [filter_append, map_append, take_append_of_le_length (by omega)]
        exact hk
      · have hp1 : sender = c1.pullPeer := by rw [hc1]; exact hp
        have hlate := hearAll_late (c := { c1 with pullState := .sendEntryReq }) (by simp) hp1 times
        rw [hend, hlate, vectorEnd, if_pos (by omega)]
    · have hnot : ¬ (chunkOf rows sent total).isLast = true := by
        rw [isLast_chunkOf (by omega) ht]
        omega
      have hcont : c1.chunkDone (chunkOf rows sent total) = c1 := by
        rw [chunkDone, if_neg (not_or.mpr ⟨hfull, hnot⟩)]
      obtain ⟨c', hk', he'⟩ := ih (c := c1) (i := i + 1) (by rw [hk.pullState]; exact hs)
        (by rw [hc1]; exact hp) (not_le.mp hfull)
        (fun e hx j => (h e (mem_append_right _ hx) j).of_scope hk.claim.1)
        (fun e hx => hw e (mem_append_right _ hx))
        (by rw [hk.doc]; exact hroom.sublist (sublist_append_right _ _))
      refine ⟨c', ?_, by rw [hcont]; exact he'⟩
      have htrans := hk.trans hk'
      rw [hk.doc] at htrans
      rw [filter_append, map_append, take_append]
      rw [length_map] at hlen ⊢
      have hrem : pullKeysMax - c1.pullKeys.length =
          pullKeysMax - c.pullKeys.length - (rows.filter c.doc.lacks).length := by omega
      rw [hrem] at htrans
      exact htrans

end Vector

/-- The slot holds what the first fragment of a two-fragment row carries. -/
structure AsmRx.HoldsHalf (slot : AsmRx) (sender : UInt32) (e : Entry) : Prop where
  collects : slot.matches sender e.key e.stamp e.tombstone e.payload.length = true
  got : slot.got = fragMax
  bytes : slot.buf.take fragMax = e.payload.take fragMax

/-- What the slot still holds of this very row, when it takes two fragments, is out
of time before the reply comes, or is its first fragment and stays in time. -/
def AsmRx.FreeFor (slot : AsmRx) (sender : UInt32) (times : Nat → Env) (e : Entry) : Prop :=
  fragMax < e.payload.length →
    slot.matches sender e.key e.stamp e.tombstone e.payload.length = true →
      (∀ i, slot.deadlineMs < (times i).uptimeMs) ∨
      (slot.HoldsHalf sender e ∧ ∀ i, (times i).uptimeMs ≤ slot.deadlineMs)

section Entries
variable {c : State nd} {env : Env} {e : Entry} {sender : UInt32} {f : EntryPb} {off : Nat}

/-- The frame has the fragment of the row from this offset on. -/
structure EntryPb.Carries (f : EntryPb) (e : Entry) (off : Nat) : Prop where
  total : f.payloadTotal.toNat = e.payload.length
  offset : f.fragOffset.toNat = off
  tombstone : f.tombstone = e.tombstone
  payload : f.payload = (e.payload.drop off).take fragMax

theorem entryToPbFrag_carries (hmax : e.payload.length ≤ payloadMax)
    (hoff : off ≤ e.payload.length) : (entryToPbFrag e off).1.Carries e off := by
  have h128 : payloadMax = 128 := rfl
  have hsize : UInt32.size = 2 ^ 32 := rfl
  have hfrom : (fragTake e.payload.length off fragMax).1 = off := if_neg (not_lt.mpr hoff)
  refine ⟨toNat_ofNat_of_lt' (by omega), ?_, rfl, ?_⟩
  · simp only [entryToPbFrag, hfrom]
    exact toNat_ofNat_of_lt' (by omega)
  · simp only [entryToPbFrag, hfrom]
    simp only [fragTake, if_neg (not_lt.mpr hoff)]
    split
    · rw [take_of_length_le, take_of_length_le] <;> rw [length_drop]; omega
    · rfl

theorem reassembleEntry_whole (hlen : e.payload.length ≤ fragMax) (hf : f.Carries e 0) :
    c.reassembleEntry env sender f e.key e.stamp = (some e.payload, c) := by
  have h88 : fragMax = 88 := rfl
  have h128 : payloadMax = 128 := rfl
  have hpay : f.payload = e.payload := by rw [hf.payload, drop_zero, take_of_length_le hlen]
  have hfit : fragFits e.payload.length 0 e.payload.length payloadMax fragMax =
      (e.payload.length, true) := by
    simp only [fragFits, ite_self]
    simp [hlen, show e.payload.length ≤ payloadMax by omega]
  simp only [reassembleEntry, hf.offset, hpay, hf.total, hfit]
  simp

theorem reassembleEntry_part (hlong : fragMax < e.payload.length)
    (hmax : e.payload.length ≤ payloadMax) (hoff : off ≤ e.payload.length)
    (hf : f.Carries e off) :
    c.reassembleEntry env sender f e.key e.stamp = (let c := c.asmExpire env.uptimeMs
       let isMatch := c.asmRx.matches sender e.key e.stamp e.tombstone e.payload.length
       if !isMatch && off ≠ 0 then (none, c.count .fragOutOfOrder) else
         let c := c.asmSelect isMatch sender e.key e.stamp e.tombstone e.payload.length
         if off ≠ c.asmRx.got then (none, c.count .fragOutOfOrder)
         else c.asmAppend off f.payload (env.uptimeMs + nd.fragTimeoutSec * 1000)
           e.payload.length) := by
  have h128 : payloadMax = 128 := rfl
  have hpart : f.payload.length = min fragMax (e.payload.length - off) := by
    rw [hf.payload, length_take, length_drop]
  have hfits : fragFits e.payload.length off f.payload.length payloadMax fragMax =
      (e.payload.length, true) := by
    simp only [fragFits, if_neg (show ¬ e.payload.length = 0 by omega)]
    simp [hmax, hpart]
    omega
  have ht16 : e.payload.length % 65536 = e.payload.length := mod_eq_of_lt (by omega)
  have ho16 : off % 65536 = off := mod_eq_of_lt (by omega)
  have hl16 : f.payload.length % 65536 = f.payload.length := mod_eq_of_lt (by omega)
  simp only [reassembleEntry, hf.total, hf.offset, hfits, ht16, ho16, hl16, hf.tombstone]
  simp [show f.payload.length ≠ e.payload.length by omega]

theorem asmExpire_of_le (h : env.uptimeMs ≤ c.asmRx.deadlineMs) : c.asmExpire env.uptimeMs = c := by
  rw [asmExpire]
  simp [h]

/-- A slot that still matches after the deadline test was not past its deadline. -/
theorem asmExpire_matches (h : (c.asmExpire env.uptimeMs).asmRx.matches sender e.key
      e.stamp e.tombstone total = true) :
    c.asmExpire env.uptimeMs = c ∧ env.uptimeMs ≤ c.asmRx.deadlineMs := by
  unfold asmExpire at h ⊢
  split at h
  · simp [AsmRx.matches] at h
  rename_i hlive
  have hact : c.asmRx.active = true := by
    simp only [AsmRx.matches, Bool.and_eq_true] at h
    exact h.1.1.1.1.1
  refine ⟨if_neg hlive, ?_⟩
  simpa [hact] using hlive

variable {times : Nat → Env}

section
variable (hlen : fragMax < e.payload.length) (hmax : e.payload.length ≤ payloadMax)
include hlen hmax

theorem reassembleEntry_first {i : Nat} (hf : f.Carries e 0)
    (hfree : c.asmRx.FreeFor sender times e)
    (hnext : (times (i + 1)).uptimeMs ≤ (times i).uptimeMs + nd.fragTimeoutSec * 1000) :
    ∃ c', c.reassembleEntry (times i) sender f e.key e.stamp = (none, c') ∧
      c'.asmRx.HoldsHalf sender e ∧ (times (i + 1)).uptimeMs ≤ c'.asmRx.deadlineMs := by
  have h88 : fragMax = 88 := rfl
  have hpay : f.payload = e.payload.take fragMax := hf.payload
  have hpl : f.payload.length = fragMax := by
    rw [hpay, length_take]
    omega
  rw [reassembleEntry_part hlen hmax (zero_le _) hf]
  simp only [ne_eq, not_true_eq_false, decide_false, Bool.and_false, Bool.false_eq_true, if_false]
  by_cases hm : (c.asmExpire (times i).uptimeMs).asmRx.matches sender e.key e.stamp e.tombstone
      e.payload.length = true
  · -- a fragment of this row is there already: the repeated one is out of order
    obtain ⟨hc, hlive⟩ := asmExpire_matches hm
    rw [hc] at hm ⊢
    rcases hfree hlen hm with hlate | ⟨hhalf, htime⟩
    · exact absurd (hlate i) (not_lt.mpr hlive)
    · have hne : ¬ 0 = c.asmRx.got := by rw [hhalf.got]; omega
      simp only [asmSelect, hm, if_true, hne, not_false_eq_true]
      exact ⟨_, rfl, hhalf, htime (i + 1)⟩
  · have hgrow : (0 + f.payload.length) % 65536 = fragMax := by
      rw [hpl, h88]
    simp only [asmSelect, hm, Bool.false_eq_true, if_false, asmStart, not_true_eq_false,
      asmAppend, AsmRx.append, hgrow, hlen, if_true]
    refine ⟨_, rfl, ⟨?_, rfl, ?_⟩, hnext⟩
    · simp [AsmRx.matches, Key.cmp_eq_zero_iff, Stamp.compare_eq_zero_iff]
    · have htake : (splice (c.asmExpire (times i).uptimeMs).asmRx.buf 0 f.payload).take
          (0 + f.payload.length) = [] ++ f.payload := take_splice (zero_le _)
      rw [hpl, zero_add, nil_append] at htake
      rw [htake, hpay]

theorem reassembleEntry_second (hf : f.Carries e fragMax)
    (hhalf : c.asmRx.HoldsHalf sender e) (hlive : env.uptimeMs ≤ c.asmRx.deadlineMs) :
    ∃ c', c.reassembleEntry env sender f e.key e.stamp = (some e.payload, c') ∧
      c'.asmRx.active = false := by
  have h88 : fragMax = 88 := rfl
  have h128 : payloadMax = 128 := rfl
  have hpay : f.payload = e.payload.drop fragMax := by
    rw [hf.payload, take_of_length_le (by rw [length_drop]; omega)]
  have hsum : fragMax + f.payload.length = e.payload.length := by
    rw [hpay, length_drop]
    omega
  have hbuf : fragMax ≤ c.asmRx.buf.length := by
    have := congrArg length hhalf.bytes
    rw [length_take, length_take] at this
    omega
  have hgrow : (fragMax + f.payload.length) % 65536 = e.payload.length := by omega
  have hwhole : (splice c.asmRx.buf fragMax f.payload).take e.payload.length = e.payload := by
    rw [← hsum, take_splice hbuf, hhalf.bytes, hpay, take_append_drop]
  rw [reassembleEntry_part hlen hmax hlen.le hf, asmExpire_of_le hlive]
  simp only [hhalf.collects, Bool.not_true, Bool.false_and, Bool.false_eq_true, if_false,
    asmSelect, if_true, hhalf.got, ne_eq, not_true_eq_false, asmAppend, AsmRx.append,
    hgrow, lt_irrefl, hwhole]
  exact ⟨_, rfl, rfl⟩

end

theorem entryGates_of_accepts (h : c.Accepts env e) : c.entryGates env e.key e.stamp = none := by
  have hown := h.ownerKnown
  by_cases hl : e.key.layer = layerNode
  · simp [entryGates, h.shareable, h.inScope, h.authorized, h.horizon, hown hl]
  · simp [entryGates, h.shareable, h.inScope, h.authorized, h.horizon, hl]

theorem onEntry_frag (h : c.Accepts env e) (hw : e.wellFormed = true)
    {r : Option (List UInt8) × State nd}
    (hr : c.reassembleEntry env sender (entryToPbFrag e off).1 e.key e.stamp = r) :
    c.onEntry env sender (entryToPbFrag e off).1 =
      r.1.elim r.2 (r.2.judgeEntry env e.key e.stamp (entryToPbFrag e off).1) := by
  have hkey : (entryToPbFrag e off).1.key = some (keyToPb e.key) := rfl
  have hstamp : (entryToPbFrag e off).1.stamp = some e.stamp := rfl
  have hvalid := (Entry.wellFormed_iff.mp hw).2.2.1
  simp only [onEntry, hkey, hstamp, keyFromPb_keyToPb hvalid, entryGates_of_accepts h, hr]
  obtain ⟨_ | payload, c'⟩ := r
  · rfl
  · rfl

section
variable (h : c.Accepts env e) (htomb : f.tombstone = e.tombstone) (hsig : f.authorSig = e.sigBytes)
include h htomb hsig

theorem entrySignatureOk_of_accepts :
    (c.entrySignatureOk env e.key e.stamp f e.payload).1 = some e.sig := by
  have hv := h.signed f htomb hsig
  have hcar : carriedSig f.authorSig = e.sig := by rw [hsig, carriedSig_sigBytes]
  unfold entrySignatureOk
  cases hverdict : sigVerdict nd env e.key e.stamp f e.payload <;>
    simp [hverdict, SigVerdict.accepts, hcar] at hv ⊢

theorem judgeEntry_merges :
    ∃ stats, c.judgeEntry env e.key e.stamp f e.payload = { c with stats }.mergeEntry env e := by
  have hok := entrySignatureOk_of_accepts h htomb hsig
  obtain ⟨stats, hst⟩ : ∃ stats,
      (c.entrySignatureOk env e.key e.stamp f e.payload).2 = { c with stats } := by
    unfold entrySignatureOk
    split <;> exact ⟨_, rfl⟩
  refine ⟨stats, ?_⟩
  rw [judgeEntry, htomb, h.itsSection]
  generalize c.entrySignatureOk env e.key e.stamp f e.payload = r at hok hst
  obtain ⟨sig, c'⟩ := r
  subst hok hst
  rfl

end

theorem mergeEntry_stored (hs : (c.doc.acceptSigned e).1 = .stored) (stats : Stats) :
    ({ c with stats }.mergeEntry env e).doc = (c.doc.acceptSigned e).2 ∧
      ({ c with stats }.mergeEntry env e).scopeKind = c.scopeKind ∧
      ({ c with stats }.mergeEntry env e).asmRx = c.asmRx := by
  cases mergeEntry_merged { c with stats } env e with
  | stored _ hm =>
    rw [hm]
    exact ⟨rfl, rfl, rfl⟩
  | refused hn _ => exact absurd hs hn

theorem onEntry_stores (h : c.Accepts env e) (hw : e.wellFormed = true)
    (hs : (c.doc.acceptSigned e).1 = .stored)
    (hsig : (entryToPbFrag e off).1.authorSig = e.sigBytes)
    {c₁ : State nd} (hre : c.reassembleEntry env sender (entryToPbFrag e off).1 e.key e.stamp =
      (some e.payload, c₁)) :
    let c' := c.onEntry env sender (entryToPbFrag e off).1
    c'.doc = (c.doc.acceptSigned e).2 ∧ c'.scopeKind = c.scopeKind ∧ c'.asmRx = c₁.asmRx := by
  have hslot := reassembleEntry_onlySlot c env sender (entryToPbFrag e off).1 e.key e.stamp
  rw [hre] at hslot
  rw [onEntry_frag h hw hre, Option.elim_some]
  obtain ⟨slot, st, rfl, _⟩ := hslot
  obtain ⟨stats, hj⟩ := judgeEntry_merges (c := { c with asmRx := slot, stats := st })
    (h.of_scope rfl) rfl hsig
  simp only [hj]
  exact mergeEntry_stored (c := { c with asmRx := slot, stats := st }) hs stats

theorem entryToPbFrag_sig (hoff : off ≤ e.payload.length)
    (hlast : e.payload.length ≤ off + fragMax) :
    (entryToPbFrag e off).1.authorSig = e.sigBytes := by
  have hend : (fragTake e.payload.length off fragMax).1 +
      (fragTake e.payload.length off fragMax).2 ≥ e.payload.length := by
    simp only [fragTake, if_neg (not_lt.mpr hoff)]
    split <;> omega
  unfold entryToPbFrag Entry.sigBytes
  cases e.sig with
  | none => rfl
  | some sig => exact if_pos hend

/-- **The fragments of a lacking row, heard in order, store the row.** -/
theorem hearAll_row (i : Nat) (rest : List Outbound)
    (h : ∀ j, c.Accepts (times j) e) (hw : e.wellFormed = true)
    (hs : (c.doc.acceptSigned e).1 = .stored) (hfree : c.asmRx.FreeFor sender times e)
    (hgap : ∀ j, (times (j + 1)).uptimeMs ≤ (times j).uptimeMs + nd.fragTimeoutSec * 1000) :
    ∃ c', hearAll sender times i ((fragments e).map (fun f => (nd.me, .entry f)) ++ rest) c =
          hearAll sender times (i + (fragments e).length) rest c' ∧
      c'.doc = (c.doc.acceptSigned e).2 ∧ c'.scopeKind = c.scopeKind ∧
      (c'.asmRx = c.asmRx ∨ c'.asmRx.active = false) := by
  have hmax := (Entry.wellFormed_iff.mp hw).1
  have h88 : fragMax = 88 := rfl
  have h128 : payloadMax = 128 := rfl
  unfold fragments
  split
  · rename_i hone
    have hre : c.reassembleEntry (times i) sender (entryToPbFrag e 0).1 e.key e.stamp =
      (some e.payload, c) := reassembleEntry_whole hone (entryToPbFrag_carries hmax (zero_le _))
    obtain ⟨hd, hk, hslot⟩ :=
      onEntry_stores (h i) hw hs (entryToPbFrag_sig (zero_le _) (by omega)) hre
    refine ⟨c.onEntry (times i) sender (entryToPbFrag e 0).1, ?_, hd, hk, .inl hslot⟩
    rw [map_cons, cons_append, hearAll_own]
    rfl
  · rename_i htwo
    have hlen := not_le.mp htwo
    obtain ⟨c1, hpart, hhalf, hlive⟩ := reassembleEntry_first (c := c) hlen hmax
      (entryToPbFrag_carries hmax (zero_le _)) hfree (hgap i)
    have hslot1 := reassembleEntry_onlySlot c (times i) sender (entryToPbFrag e 0).1 e.key e.stamp
    have hfirst : c.onMessage (times i) sender (.entry (entryToPbFrag e 0).1) = c1 :=
      onEntry_frag (h i) hw hpart
    rw [hpart] at hslot1
    have hdoc1 := hslot1.sameTables.doc
    have hkind1 := hslot1.sameTables.kind
    obtain ⟨c2, hwhole, hidle⟩ := reassembleEntry_second hlen hmax
      (entryToPbFrag_carries hmax hlen.le) hhalf hlive
    obtain ⟨hd, hk, hslot⟩ := onEntry_stores ((h (i + 1)).of_scope hkind1) hw
      (by rw [hdoc1]; exact hs) (entryToPbFrag_sig (by omega) (by omega)) hwhole
    refine ⟨c1.onEntry (times (i + 1)) sender (entryToPbFrag e fragMax).1, ?_, ?_, hk.trans hkind1,
      .inr ?_⟩
    · rw [map_cons, cons_append, hearAll_own, hfirst, map_cons, cons_append,
        hearAll_own]
      rfl
    · rw [hd, hdoc1]
    · rw [hslot, hidle]

/-- **An entry reply heard in full brings in every row of it.** -/
theorem hearAll_rows {es : List Entry} (i : Nat)
    (h : ∀ e ∈ es, ∀ j, c.Accepts (times j) e) (hw : ∀ e ∈ es, e.wellFormed = true)
    (hkeys : es.Pairwise fun a b => a.key < b.key) (hlack : ∀ e ∈ es, c.doc.lacks e = true)
    (hroom : c.doc.HasRoom es) (hfree : ∀ e ∈ es, c.asmRx.FreeFor sender times e)
    (hgap : ∀ j, (times (j + 1)).uptimeMs ≤ (times j).uptimeMs + nd.fragTimeoutSec * 1000) :
    c.doc.Fetched (hearAll sender times i
      ((es.flatMap fragments).map fun f => (nd.me, .entry f)) c).doc es := by
  induction es generalizing c i with
  | nil => exact ⟨nofun, fun _ _ => rfl⟩
  | cons e es ih =>
    obtain ⟨hlt, hkeys⟩ := pairwise_cons.mp hkeys
    have hne : ∀ x ∈ es, x.key ≠ e.key := fun x hx => (hlt x hx).ne'
    have hs : (c.doc.acceptSigned e).1 = .stored :=
      Doc.stored_of_lacks (hw e mem_cons_self) (hlack e mem_cons_self) hroom
        mem_cons_self
    obtain ⟨c', hrun, hdoc, hkind, hslot⟩ := hearAll_row i
      ((es.flatMap fragments).map fun f => (nd.me, .entry f)) (h e mem_cons_self)
      (hw e mem_cons_self) hs (hfree e mem_cons_self) hgap
    rw [flatMap_cons, map_append, hrun]
    apply Doc.Fetched.cons hs hne
    rw [← hdoc]
    apply ih
    · exact fun x hx j => (h x (mem_cons_of_mem _ hx) j).of_scope hkind
    · exact fun x hx => hw x (mem_cons_of_mem _ hx)
    · exact hkeys
    · intro x hx
      rw [hdoc, Doc.lacks_of_stored hs (hne x hx)]
      exact hlack x (mem_cons_of_mem _ hx)
    · rw [hdoc]
      exact hroom.tail hs hne
    · intro x hx
      rcases hslot with hsame | hidle
      · rw [hsame]
        exact hfree x (mem_cons_of_mem _ hx)
      · intro _ hm
        simp [AsmRx.matches, hidle] at hm

end Entries

end Hear

end Zephyrtastic.Cluster
