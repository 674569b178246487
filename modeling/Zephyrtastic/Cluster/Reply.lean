import Zephyrtastic.Cluster.Serve

/-!
# What a responder sends

A node that has taken on a request sends its reply frame by frame through
`txNext`. Run to its end, a vector reply is the table cut into chunks, and an
entry reply is every requested row cut into fragments.
-/

namespace Zephyrtastic.Cluster

open List State

/-- A chunk of a vector: some rows, how many were sent before them, and how many
there are in all. -/
def chunkOf (rows : List Entry) (sent total : Nat) : VectorPb :=
  ⟨rows.map fun e => ⟨some (keyToPb e.key), some e.stamp⟩, UInt32.ofNat sent, UInt32.ofNat total⟩

/-- The chunks carry the rows in order, from `sent` up to `total`. -/
inductive Chunks (total : Nat) : Nat → List Entry → List VectorPb → Prop
  | last {sent : Nat} {rows : List Entry} (hsent : sent + rows.length = total) :
      Chunks total sent rows [chunkOf rows sent total]
  | more {sent : Nat} {rows rest : List Entry} {vs : List VectorPb} (hrest : rest ≠ [])
      (hvs : Chunks total (sent + rows.length) rest vs) :
      Chunks total sent (rows ++ rest) (chunkOf rows sent total :: vs)

variable {sent : Nat}

theorem Chunks.sent_add {total : Nat} {rows : List Entry} {vs : List VectorPb}
    (h : Chunks total sent rows vs) : sent + rows.length = total := by
  induction h with
  | last hsent => exact hsent
  | more _ _ ih =>
    rw [length_append]
    omega

/-- The frames of one row. No row needs a third. -/
def fragments (e : Entry) : List EntryPb :=
  if e.payload.length ≤ fragMax then [(entryToPbFrag e 0).1]
  else [(entryToPbFrag e 0).1, (entryToPbFrag e fragMax).1]

theorem takeRows_full (owner : UInt32) (n : Nat) (rows : List Entry) :
    takeRows (Scope.make .full owner) n rows = (rows.take n, min n rows.length) := by
  induction rows generalizing n with
  | nil => cases n <;> simp [takeRows]
  | cons e rest ih =>
    cases n with
    | zero => simp [takeRows]
    | succ n => simp [takeRows, ih]

theorem countScoped_full {cap : Nat} (d : Doc cap) (owner : UInt32) :
    d.countScoped (Scope.make .full owner) = d.rows.length := by
  simp [Doc.countScoped, Doc.inScope]

section Reply
variable {nd : Node}

/-- Send until no peer is owed a reply, or the fuel runs out. -/
def State.txReplies : Nat → State nd → List Outbound × State nd
  | 0, c => ([], c)
  | n + 1, c =>
    if c.vecDest = 0 ∧ c.entDest = 0 then ([], c)
    else match c.txNext with
      | (none, c') => ([], c')
      | (some frame, c') => (frame :: (txReplies n c').1, (txReplies n c').2)

variable {c : State nd}

theorem txReplies_idle (hv : c.vecDest = 0) (he : c.entDest = 0) (n : Nat) :
    c.txReplies n = ([], c) := by
  cases n with
  | zero => rfl
  | succ n => simp [txReplies, hv, he]

variable {c' : State nd}

theorem txReplies_succ {frame : Outbound}
    (hbusy : ¬ (c.vecDest = 0 ∧ c.entDest = 0)) (hnext : c.txNext = (some frame, c')) (n : Nat) :
    c.txReplies (n + 1) = (frame :: (c'.txReplies n).1, (c'.txReplies n).2) := by
  rw [txReplies, if_neg hbusy, hnext]

theorem txNext_of_entDest (he : c.entDest = 0) : c.txNext = c.txRest := by
  have hnone : ∀ keys, c.txEntry keys = (none, c) := by
    intro keys
    cases keys with
    | nil => simp only [txEntry, ← he]
    | cons key rest => simp only [txEntry, he, if_true]
  have hsame : { c with entDest := 0 } = c := by rw [← he]
  simp only [txNext, hnone, Option.isSome_none, Bool.false_eq_true, if_false, hsame]

/-- A vector reply under way: everything before `sent` is out, and the peer
claims everything. -/
structure State.SendsVector (c : State nd) (dest : UInt32) (sent : Nat) : Prop where
  entDest : c.entDest = 0
  vecDest : c.vecDest = dest
  kind : c.vecScopeKind = .full
  offset : c.vecOffset = sent
  emitted : c.vecEmitted = sent

/-- Only the cursor of the vector reply and counters moved. -/
def State.OnlyVector (c c' : State nd) : Prop :=
  ∃ vecDest vecOffset vecEmitted stats, c' = { c with vecDest, vecOffset, vecEmitted, stats }

theorem State.OnlyVector.trans {c'' : State nd} (h : c.OnlyVector c')
    (h' : c'.OnlyVector c'') : c.OnlyVector c'' := by
  obtain ⟨_, _, _, _, rfl⟩ := h
  obtain ⟨_, _, _, _, rfl⟩ := h'
  exact ⟨_, _, _, _, rfl⟩

variable {dest : UInt32}

theorem txNext_vector (h : c.SendsVector dest sent) (hdest : dest ≠ 0) :
    ∃ c', c.txNext = (some (dest, .vector (chunkOf ((c.doc.rows.drop sent).take vectorRows) sent
        c.doc.count)), c') ∧ c.OnlyVector c' ∧
      c'.SendsVector (if sent + min vectorRows (c.doc.rows.drop sent).length ≥ c.doc.count then 0
        else dest) (sent + min vectorRows (c.doc.rows.drop sent).length) := by
  have hrest : c.txRest = (some c.txVector.1, c.txVector.2) := by
    rw [txRest, if_pos (by rw [h.vecDest]; exact hdest)]
  refine ⟨c.txVector.2, ?_, ⟨_, _, _, _, rfl⟩, ?_⟩
  · rw [txNext_of_entDest h.entDest, hrest]
    simp only [txVector, h.kind, h.vecDest, h.offset, h.emitted, takeRows_full,
      countScoped_full, chunkOf, Doc.count]
  · refine ⟨h.entDest, ?_, h.kind, ?_, ?_⟩
    · simp only [txVector, h.kind, h.vecDest, h.offset, takeRows_full]
    · simp only [txVector, h.kind, h.offset, takeRows_full]
    · simp only [txVector, h.kind, h.offset, h.emitted, takeRows_full, length_take]

/-- **A vector reply runs to its end**: it sends the rest of the table in chunks
and owes nothing afterwards. -/
theorem txReplies_vector {n : Nat}
    (h : c.SendsVector dest sent) (hdest : dest ≠ 0) (hsent : sent ≤ c.doc.count)
    (hn : c.doc.count - sent < n) :
    ∃ vs c', c.txReplies n = (vs.map fun v => (dest, .vector v), c') ∧
      Chunks c.doc.count sent (c.doc.rows.drop sent) vs ∧ c.OnlyVector c' ∧
      c'.vecDest = 0 ∧ c'.entDest = 0 := by
  induction n generalizing c sent with
  | zero => omega
  | succ n ih =>
    obtain ⟨c', hnext, hfr, hs'⟩ := txNext_vector h hdest
    have hbusy : ¬ (c.vecDest = 0 ∧ c.entDest = 0) := fun hb => hdest (h.vecDest.symm.trans hb.1)
    have hdoc : c'.doc = c.doc := by
      obtain ⟨_, _, _, _, rfl⟩ := hfr
      rfl
    have hlen : (c.doc.rows.drop sent).length = c.doc.count - sent := length_drop
    have hv4 : vectorRows = 4 := rfl
    rw [txReplies_succ hbusy hnext n]
    by_cases hend : sent + min vectorRows (c.doc.rows.drop sent).length ≥ c.doc.count
    · rw [if_pos hend] at hs'
      have hall : (c.doc.rows.drop sent).take vectorRows = c.doc.rows.drop sent :=
        take_of_length_le (by omega)
      refine ⟨[chunkOf (c.doc.rows.drop sent) sent c.doc.count], c', ?_, ?_, hfr, hs'.vecDest,
        hs'.entDest⟩
      · rw [txReplies_idle hs'.vecDest hs'.entDest, hall]
        rfl
      · exact Chunks.last (by omega)
    · have hmin : min vectorRows (c.doc.rows.drop sent).length = vectorRows := by omega
      rw [if_neg hend, hmin] at hs'
      obtain ⟨vs, c'', hrun, hch, hfr', hv, he⟩ := ih hs' (by rw [hdoc]; omega)
        (by rw [hdoc]; omega)
      refine ⟨chunkOf ((c.doc.rows.drop sent).take vectorRows) sent c.doc.count :: vs, c'', ?_, ?_,
        hfr.trans hfr', hv, he⟩
      · rw [hrun]
        rfl
      · have htake : ((c.doc.rows.drop sent).take vectorRows).length = vectorRows :=
          length_take.trans hmin
        rw [hdoc, ← drop_drop] at hch
        have hrest : (c.doc.rows.drop sent).drop vectorRows ≠ [] := by
          intro hnil
          have := congrArg length hnil
          rw [length_drop, length_nil] at this
          omega
        have hmore : Chunks c.doc.count sent
            ((c.doc.rows.drop sent).take vectorRows ++ (c.doc.rows.drop sent).drop vectorRows)
            (chunkOf ((c.doc.rows.drop sent).take vectorRows) sent c.doc.count :: vs) :=
          Chunks.more hrest (by rw [htake]; exact hch)
        rwa [take_append_drop] at hmore

/-- An entry reply under way: these rows of the table are still to be sent, the
first of them from byte `off` on. -/
structure State.SendsEntries (c : State nd) (dest : UInt32) (off : Nat) (es : List Entry) :
    Prop where
  vecDest : c.vecDest = 0
  entDest : c.entDest = if es = [] then 0 else dest
  entKeys : c.entKeys = es.map Entry.key
  fragOff : c.entFragOff = off
  held : ∀ e ∈ es, c.doc.find e.key = some e

variable {off : Nat}

theorem entryToPbFrag_snd (e : Entry) (h : off ≤ e.payload.length) :
    (entryToPbFrag e off).2 = off + min (e.payload.length - off) fragMax := by
  simp only [entryToPbFrag, fragTake, if_neg (not_lt.mpr h)]
  split <;> omega

variable {e : Entry}

theorem txNext_of_find {key : Key} {rest : List Key}
    (hdest : c.entDest ≠ 0) (hkeys : c.entKeys = key :: rest) (hfind : c.doc.find key = some e) :
    c.txNext = (some (c.entDest, .entry (entryToPbFrag e c.entFragOff).1),
      (if (entryToPbFrag e c.entFragOff).2 ≥ e.payload.length then c.entAdvance rest
        else { c with entFragOff := (entryToPbFrag e c.entFragOff).2 }).count .entryTx) := by
  simp only [txNext, hkeys, txEntry, hdest, hfind, if_false, Option.isSome_some,
    if_true]

variable {es : List Entry}

theorem txNext_entry
    (h : c.SendsEntries dest off (e :: es)) (hdest : dest ≠ 0) (hoff : off ≤ e.payload.length) :
    ∃ c', c.txNext = (some (dest, .entry (entryToPbFrag e off).1), c') ∧
      (e.payload.length ≤ off + fragMax → c'.SendsEntries dest 0 es) ∧
      (off + fragMax < e.payload.length → c'.SendsEntries dest (off + fragMax) (e :: es)) := by
  have hd : c.entDest = dest := by simpa using h.entDest
  have hsnd := entryToPbFrag_snd e hoff
  have hnext := txNext_of_find (hd.trans_ne hdest) h.entKeys (h.held e mem_cons_self)
  refine ⟨c.txNext.2, ?_, fun hend => ?_, fun hmid => ?_⟩
  · rw [hnext, hd, h.fragOff]
  · rw [hnext, h.fragOff, if_pos (by omega)]
    refine ⟨h.vecDest, ?_, rfl, rfl, fun x hx => h.held x (mem_cons_of_mem _ hx)⟩
    simp [entAdvance, hd]
  · rw [hnext, h.fragOff, if_neg (by omega)]
    refine { h with fragOff := ?_ }
    change (entryToPbFrag e off).2 = off + fragMax
    omega

theorem State.SendsEntries.busy (h : c.SendsEntries dest off (e :: es)) (hdest : dest ≠ 0) :
    ¬ (c.vecDest = 0 ∧ c.entDest = 0) := by
  have hd : c.entDest = dest := by simpa using h.entDest
  exact fun hb => hdest (hd.symm.trans hb.2)

theorem txReplies_row (h : c.SendsEntries dest 0 (e :: es)) (hdest : dest ≠ 0)
    (hlen : e.payload.length ≤ payloadMax) :
    ∃ c' : State nd, c'.SendsEntries dest 0 es ∧ ∀ n, c.txReplies (n + (fragments e).length) =
        ((fragments e).map (fun f => (dest, .entry f)) ++ (c'.txReplies n).1,
          (c'.txReplies n).2) := by
  have hmax : payloadMax = 128 := rfl
  have hfm : fragMax = 88 := rfl
  obtain ⟨c1, hnext, hdone, hmid⟩ := txNext_entry h hdest (Nat.zero_le _)
  by_cases hone : e.payload.length ≤ fragMax
  · refine ⟨c1, hdone (by omega), fun n => ?_⟩
    rw [fragments, if_pos hone]
    exact txReplies_succ (h.busy hdest) hnext n
  -- the cursor stays on the row for a second frame, which is the last
  have h1 := hmid (by omega)
  obtain ⟨c2, hnext', hdone', _⟩ := txNext_entry h1 hdest (by omega)
  refine ⟨c2, hdone' (by omega), fun n => ?_⟩
  have htwo := txReplies_succ (h.busy hdest) hnext (n + 1)
  rw [txReplies_succ (h1.busy hdest) hnext' n] at htwo
  rw [fragments, if_neg hone]
  exact htwo

theorem length_fragments_le (e : Entry) : (fragments e).length ≤ 2 := by
  unfold fragments
  split <;> simp

/-- **An entry reply runs to its end**: it sends the requested rows in fragments
and owes nothing afterwards. -/
theorem txReplies_entries {n : Nat} (h : c.SendsEntries dest 0 es) (hdest : dest ≠ 0)
    (hlen : ∀ e ∈ es, e.payload.length ≤ payloadMax) (hn : 2 * es.length ≤ n) :
    ∃ c', c.txReplies n = ((es.flatMap fragments).map fun f => (dest, .entry f), c') ∧
      c'.vecDest = 0 ∧ c'.entDest = 0 := by
  induction es generalizing c n with
  | nil =>
    have he : c.entDest = 0 := by simpa using h.entDest
    exact ⟨c, txReplies_idle h.vecDest he n, h.vecDest, he⟩
  | cons e es ih =>
    obtain ⟨c', hs, hrow⟩ := txReplies_row h hdest (hlen e mem_cons_self)
    have htwo := length_fragments_le e
    rw [length_cons] at hn
    obtain ⟨c'', hrun, hv, he⟩ := ih hs (fun x hx => hlen x (mem_cons_of_mem _ hx))
      (n := n - (fragments e).length) (by omega)
    refine ⟨c'', ?_, hv, he⟩
    have hsum : n - (fragments e).length + (fragments e).length = n := by omega
    rw [← hsum, hrow, hrun, flatMap_cons, map_append]

theorem txReplies_sameTables (n : Nat) (c : State nd) : c.SameTables (c.txReplies n).2 := by
  induction n generalizing c with
  | zero => exact State.SameTables.refl c
  | succ n ih =>
    have hnext := (txNext_quiet c).toSameTables
    rw [txReplies]
    split
    · exact State.SameTables.refl c
    generalize c.txNext = r at hnext ⊢
    obtain ⟨_ | frame, c'⟩ := r
    · exact hnext
    · exact hnext.trans (ih c')

/-- The bucket is all that deciding to serve looks at or changes. -/
theorem mayServe_bucket (c : State nd) (env : Env) : ∃ serveTokens serveRefillMs stats,
    (c.mayServe env).2 = { c with serveTokens, serveRefillMs, stats } := by
  unfold mayServe
  split
  · exact ⟨_, _, _, rfl⟩
  simp only
  split
  · exact ⟨_, _, _, rfl⟩
  · exact ⟨_, _, _, rfl⟩

theorem mayServe_onlyVector (h : c.OnlyVector c') (env : Env) :
    (c'.mayServe env).1 = (c.mayServe env).1 := by
  obtain ⟨_, _, _, _, rfl⟩ := h
  simp only [mayServe]
  split
  · rfl
  · split <;> rfl

variable {env : Env} (hv : c.vecDest = 0) (he : c.entDest = 0) (hs : (c.mayServe env).1 = true)
include hv he hs

theorem onVectorReq_sends (sender : UInt32) :
    (c.onVectorReq env sender .full).SendsVector sender 0 ∧
      (c.onVectorReq env sender .full).doc = c.doc := by
  obtain ⟨tokens, refillMs, stats, hb⟩ := mayServe_bucket c env
  have hreq : c.onVectorReq env sender .full = { (c.mayServe env).2 with
      vecScopeKind := .full, vecDest := sender, vecOffset := 0, vecEmitted := 0 }.serveStarted := by
    simp [onVectorReq, hv, hs, scopeFromPb]
  rw [hreq, hb]
  exact ⟨⟨he, rfl, rfl, rfl, rfl⟩, rfl⟩

theorem onEntryReq_sends (hlen : es.length ≤ pullKeysMax)
    (hes : ∀ e ∈ es, e ∈ c.doc.rows) (sender : UInt32) :
    (c.onEntryReq env sender (es.map fun e => keyToPb e.key)).SendsEntries sender 0 es := by
  obtain ⟨tokens, refillMs, stats, hb⟩ := mayServe_bucket c env
  have hkeys : ((es.map fun e => keyToPb e.key).take pullKeysMax).map keyFromPb =
      es.map Entry.key := by
    rw [take_of_length_le (by rwa [length_map]), map_map]
    refine map_congr_left fun e hmem => ?_
    exact keyFromPb_keyToPb (Entry.wellFormed_iff.mp (c.doc.wellFormed e (hes e hmem))).2.2.1
  have hreq : c.onEntryReq env sender (es.map fun e => keyToPb e.key) =
      { (c.mayServe env).2.serveStarted with
        entDest := if (es.map Entry.key).length = 0 then 0 else sender
        entKeys := es.map Entry.key
        entFragOff := 0 } := by
    simp only [onEntryReq, he, hs, hkeys]
    simp
  rw [hreq, hb]
  refine ⟨hv, ?_, rfl, rfl, fun e hmem => Doc.find_eq_some.mpr ⟨hes e hmem, rfl⟩⟩
  cases es <;> simp

end Reply

end Zephyrtastic.Cluster
