import Zephyrtastic.Cluster.Fetch

/-!
# One walk between two nodes

A requester asks a responder for its stamp vector, then for the rows it lacks.
`walk` plays the exchange with every frame delivered in order. The responder's
half is `Reply`, the requester's half is `Fetch`, and they meet in the frames.
-/

namespace Zephyrtastic.Cluster

open List State

/-- What each step of a walk reads of the outside: the responder's two requests,
and every frame of the two replies. -/
structure WalkEnv where
  vectorReq : Env
  entryReq : Env
  vector : Nat → Env
  entry : Nat → Env

section Walk
variable {na nb : Node}

/-- A request, when one was sent, reaches the responder. -/
def State.hearRequest (c : State na) (env : Env) (sender : UInt32) : Option Outbound → State na
  | none => c
  | some frame => c.hear env sender frame

/-- One walk: the vector request, all chunks of the vector, the entry request if
there is one, all fragments of the entries. -/
def walk (fuel : Nat) (t : WalkEnv) (a : State na) (b : State nb) : State na × State nb :=
  let ask := b.txNext
  let chunks := (a.hearRequest t.vectorReq nb.me ask.1).txReplies fuel
  let b := State.hearAll na.me t.vector 0 chunks.1 ask.2
  if b.pullState ≠ .sendEntryReq then (chunks.2, b)
  else
    let ask := b.txNext
    let frags := (chunks.2.hearRequest t.entryReq nb.me ask.1).txReplies fuel
    (frags.2, State.hearAll na.me t.entry 0 frags.1 ask.2)

/-- A pull of this peer has been opened and nothing of it is sent. -/
structure State.Opened (c : State nb) (peer : UInt32) : Prop where
  peer_ne : peer ≠ 0 ∧ peer ≠ nb.me
  state : c.pullState = .sendVectorReq
  pullPeer : c.pullPeer = peer
  keys : c.pullKeys = []

theorem pullStart_opened {c : State nb} {env : Env} {peer : UInt32} {delayMs : Nat}
    {reason : PullReason} (h : (c.pullStart env peer delayMs reason).1 = true) :
    (c.pullStart env peer delayMs reason).2.Opened peer := by
  cases pullStart_started c env peer delayMs reason with
  | refused he | held _ he =>
    rw [he] at h
    cases h
  | rearmed _ hpeer _ _ he | opened _ hpeer _ he =>
    rw [he]
    exact ⟨hpeer, rfl, rfl, rfl⟩

/-- What a lossless walk takes: the requester claims everything and has opened a
pull, neither node is replying to anyone, both requests are granted, the
responder's rows pass the requester's gates and fit its table, and two frames of
a reply are never further apart than the slot waits. -/
structure WalkReady (t : WalkEnv) (a : State na) (b : State nb) : Prop where
  me_ne : nb.me ≠ 0
  full : b.scopeKind = .full
  opened : b.Opened na.me
  requester : b.vecDest = 0 ∧ b.entDest = 0
  responder : a.vecDest = 0 ∧ a.entDest = 0
  vectorGranted : (a.mayServe t.vectorReq).1 = true
  entryGranted : ((a.onVectorReq t.vectorReq nb.me .full).mayServe t.entryReq).1 = true
  accepted : ∀ e ∈ a.doc.rows, ∀ i, b.Accepts (t.vector i) e ∧ b.Accepts (t.entry i) e
  room : b.doc.HasRoom a.doc.rows
  inTime : ∀ i, (t.entry (i + 1)).uptimeMs ≤ (t.entry i).uptimeMs + nb.fragTimeoutSec * 1000

variable {b : State nb} {a : State na} {fuel : Nat}

theorem txNext_vectorReq {peer : UInt32} (ho : b.Opened peer)
    (hv : b.vecDest = 0) (he : b.entDest = 0) (hf : b.scopeKind = .full) :
    b.txNext = (some (peer, .vectorReq .full), { b with pullState := .awaitVector }) := by
  have hscope : scopeToPb b.myScope = .full := by simp [myScope, hf, scopeToPb]
  rw [txNext_of_entDest he, txRest, if_neg (not_not.mpr hv),
    if_neg (by rw [ho.state]; decide), if_pos ho.state, txVectorReq, hscope, ho.pullPeer]

theorem txNext_entryReq (hs : b.pullState = .sendEntryReq) (hv : b.vecDest = 0)
    (he : b.entDest = 0) :
    b.txNext = (some (b.pullPeer, .entryReq (b.pullKeys.map keyToPb)), b.txEntryReq.2) := by
  rw [txNext_of_entDest he, txRest, if_neg (not_not.mpr hv), if_pos hs]
  rfl

/-- **The first half of a walk**: the requester ends up asking for the first rows it
lacks, and the responder owes it nothing more. -/
theorem walk_asks {t : WalkEnv} (h : WalkReady t a b) (hfuel : na.maxEntries < fuel) :
    ∃ frames a' c', ({ b with pullState := .awaitVector } : State nb).OnlyKeys c'
        (((missing a.doc b.doc).take pullKeysMax).map Entry.key) ∧
      (a.hearRequest t.vectorReq nb.me b.txNext.1).txReplies fuel = (frames, a') ∧
      hearAll na.me t.vector 0 frames b.txNext.2 = c'.vectorEnd ∧
      (a.onVectorReq t.vectorReq nb.me .full).OnlyVector a' ∧ a'.vecDest = 0 ∧ a'.entDest = 0 := by
  obtain ⟨hsend, hdoc⟩ := onVectorReq_sends h.responder.1 h.responder.2 h.vectorGranted nb.me
  have hfits := a.doc.fits
  have hcount : a.doc.count = a.doc.rows.length := rfl
  have hrange := na.maxEntries_range
  obtain ⟨vs, a', hrun, hch, hfr, hv, he⟩ := txReplies_vector (n := fuel) hsend h.me_ne
    (Nat.zero_le _) (by rw [hdoc]; omega)
  rw [hdoc] at hch
  have hnext := txNext_vectorReq h.opened h.requester.1 h.requester.2 h.full
  obtain ⟨c', hkeys, hheard⟩ := hearAll_chunks (c := { b with pullState := .awaitVector })
    (i := 0) hch (by omega) rfl h.opened.pullPeer.symm (by rw [h.opened.keys]; decide)
    (fun e hx j => ((h.accepted e hx j).1).of_scope rfl) a.doc.wellFormed h.room
  have hempty : pullKeysMax - ({ b with pullState := .awaitVector } : State nb).pullKeys.length =
      pullKeysMax := by
    rw [h.opened.keys]
    rfl
  rw [hempty, ← map_take] at hkeys
  refine ⟨vs.map fun v => (nb.me, .vector v), a', c', hkeys, ?_, ?_, hfr, hv, he⟩
  · rw [hnext]
    change (a.hear t.vectorReq nb.me (na.me, .vectorReq .full)).txReplies fuel = _
    rw [hear_own]
    exact hrun
  · rw [hnext]
    exact hheard

/-- A request for these rows is ready to be sent. -/
structure State.Requests (c : State nb) (peer : UInt32) (es : List Entry) : Prop where
  state : c.pullState = .sendEntryReq
  pullPeer : c.pullPeer = peer
  keys : c.pullKeys = es.map Entry.key
  idle : c.vecDest = 0 ∧ c.entDest = 0
  few : es.length ≤ pullKeysMax

/-- **The second half of a walk**: the rows asked for arrive. -/
theorem request_fetches (times : Nat → Env) (env : Env)
    {c : State nb} {es : List Entry} (hask : c.Requests na.me es) (hme : nb.me ≠ 0)
    (hfuel : 2 * pullKeysMax ≤ fuel)
    (hv : a.vecDest = 0) (he : a.entDest = 0) (hgrant : (a.mayServe env).1 = true)
    (hsub : es.Sublist a.doc.rows)
    (hacc : ∀ e ∈ es, ∀ i, c.Accepts (times i) e) (hlack : ∀ e ∈ es, c.doc.lacks e = true)
    (hroom : c.doc.HasRoom es) (hfree : ∀ e ∈ es, c.asmRx.FreeFor na.me times e)
    (hgap : ∀ j, (times (j + 1)).uptimeMs ≤ (times j).uptimeMs + nb.fragTimeoutSec * 1000) :
    ∃ frames a', (a.hearRequest env nb.me c.txNext.1).txReplies fuel = (frames, a') ∧
      c.doc.Fetched (hearAll na.me times 0 frames c.txNext.2).doc es ∧
      a'.doc = a.doc ∧ a'.vecDest = 0 ∧ a'.entDest = 0 := by
  have hw : ∀ e ∈ es, e.wellFormed = true := fun e hx => a.doc.wellFormed e (hsub.subset hx)
  have hfew := hask.few
  have hsends := onEntryReq_sends hv he hgrant hfew (fun e hx => hsub.subset hx) nb.me
  obtain ⟨a', hrun, hv', he'⟩ := txReplies_entries (n := fuel) hsends hme
    (fun e hx => (Entry.wellFormed_iff.mp (hw e hx)).1) (by omega)
  have hnext := txNext_entryReq hask.state hask.idle.1 hask.idle.2
  rw [hask.keys, map_map, hask.pullPeer] at hnext
  have hdoc : a'.doc = a.doc := by
    have hreq := onEntryReq_onlyQueues a env nb.me (es.map fun e => keyToPb e.key)
    have hsame := txReplies_sameTables fuel
      (a.onEntryReq env nb.me (es.map fun e => keyToPb e.key))
    rw [hrun] at hsame
    exact (hreq.quiet.toSameTables.trans hsame).doc
  refine ⟨(es.flatMap fragments).map fun f => (nb.me, .entry f), a', ?_, ?_, hdoc, hv', he'⟩
  · rw [hnext]
    change (a.hear env nb.me (na.me, .entryReq _)).txReplies fuel = _
    rw [hear_own]
    exact hrun
  · rw [hnext]
    exact hearAll_rows (c := c.txEntryReq.2) 0 (fun e hx i => (hacc e hx i).of_scope rfl) hw
      (List.Pairwise.sublist hsub a.doc.sorted) hlack hroom hfree hgap

theorem lacks_of_mem_missing {cap cap' : Nat} {d : Doc cap} {d' : Doc cap'} {n : Nat} {e : Entry}
    (h : e ∈ (missing d d').take n) : d'.lacks e = true :=
  (mem_filter.mp (mem_of_mem_take h)).2

/-- **A walk brings in the first rows that are lacking**, and the responder has sent
all it owes. -/
theorem walk_fetches {t : WalkEnv}
    (h : WalkReady t a b) (hfree : ∀ e ∈ a.doc.rows, b.asmRx.FreeFor na.me t.entry e)
    (hfuel : na.maxEntries < fuel) :
    b.doc.Fetched (walk fuel t a b).2.doc ((missing a.doc b.doc).take pullKeysMax) ∧
      (walk fuel t a b).1.doc = a.doc ∧ (walk fuel t a b).1.vecDest = 0 ∧
      (walk fuel t a b).1.entDest = 0 := by
  obtain ⟨frames, a', c', hkeys, hreply, hheard, hfr, hv, he⟩ := walk_asks h hfuel
  obtain ⟨hlc, stats, hc', _⟩ := id hkeys
  have hk : c'.pullKeys = ((missing a.doc b.doc).take pullKeysMax).map Entry.key := by
    rw [hkeys.pullKeys]
    rw [h.opened.keys, nil_append]
  have hdoc : c'.doc = b.doc := hkeys.doc
  have hadoc : a'.doc = a.doc := by
    obtain ⟨_, _, _, _, rfl⟩ := hfr
    exact (onVectorReq_onlyQueues a t.vectorReq nb.me .full).quiet.doc
  unfold walk
  simp only [hreply, hheard]
  by_cases hnone : (missing a.doc b.doc).take pullKeysMax = []
  · -- nothing is lacking, so nothing is asked for
    have hend : c'.vectorEnd = c'.pullEmpty := by
      rw [vectorEnd, if_neg]
      rw [hk, hnone]
      decide
    rw [hend, if_pos (by rw [(pullEmpty_idle c').2]; decide), hnone]
    refine ⟨⟨fun e hx => absurd hx not_mem_nil, fun key _ => ?_⟩, hadoc, hv, he⟩
    rw [(pullEmpty_sameTables c').doc, hdoc]
  · have hend : c'.vectorEnd = { c' with pullState := .sendEntryReq } := by
      rw [vectorEnd, if_pos]
      rw [hk, length_map]
      exact length_pos_of_ne_nil hnone
    have hsub : ((missing a.doc b.doc).take pullKeysMax).Sublist a.doc.rows :=
      (take_sublist _ _).trans filter_sublist
    have hrange := na.maxEntries_range
    have hsix : pullKeysMax = 6 := rfl
    have hask : ({ c' with pullState := .sendEntryReq } : State nb).Requests na.me
        ((missing a.doc b.doc).take pullKeysMax) := by
      refine ⟨rfl, ?_, hk, ?_, length_take_le _ _⟩
      · rw [hc']
        exact h.opened.pullPeer
      · rw [hc']
        exact h.requester
    obtain ⟨frags, a'', hreply', hfetched, hadoc', hv', he'⟩ := request_fetches t.entry t.entryReq
      hask h.me_ne (show 2 * pullKeysMax ≤ fuel by omega) hv he
      (by rw [mayServe_onlyVector hfr]; exact h.entryGranted) (by rw [hadoc]; exact hsub)
      (fun e hx i => ((h.accepted e (hsub.subset hx) i).2).of_scope (by rw [hc']))
      (fun e hx => by rw [hdoc]; exact lacks_of_mem_missing hx)
      (by rw [hdoc]; exact h.room.sublist hsub)
      (fun e hx => by rw [hc']; exact hfree e (hsub.subset hx)) h.inTime
    rw [hend, if_neg (not_not.mpr rfl)]
    simp only [hreply']
    refine ⟨⟨hfetched.got, fun key hkey => ?_⟩, hadoc'.trans hadoc, hv', he'⟩
    rw [hfetched.kept key hkey, hdoc]

theorem filter_not_mem_take {l : List Entry} (h : l.Nodup) (n : Nat) :
    (l.filter fun e => e ∉ l.take n) = l.drop n := by
  have hdis : ∀ e ∈ l.drop n, e ∉ l.take n := by
    intro e hd ht
    rw [← take_append_drop n l] at h
    exact (nodup_append.mp h).2.2 e ht e hd rfl
  calc (l.filter fun e => e ∉ l.take n)
      = (l.take n ++ l.drop n).filter fun e => e ∉ l.take n := by rw [take_append_drop]
    _ = l.drop n := by
      rw [filter_append, filter_eq_nil_iff.mpr (by simp),
        filter_eq_self.mpr (by simpa using hdis), nil_append]

theorem missing_fetched {cap cap' : Nat} {d : Doc cap} {b b' : Doc cap'} {n : Nat}
    (h : b.Fetched b' ((missing d b).take n)) : missing d b' = (missing d b).drop n := by
  have hnodup : (missing d b).Nodup := d.sorted.nodup.filter _
  have hlacks : ∀ e ∈ d.rows, b'.lacks e = true ↔ b.lacks e = true ∧ e ∉ (missing d b).take n := by
    intro e he
    by_cases hin : e ∈ (missing d b).take n
    · have hgot := h.got e hin
      simp only [hin, not_true_eq_false, and_false, iff_false, Doc.lacks_iff, hgot]
      exact fun hlt => lt_irrefl _ (hlt e rfl)
    have hkept : b'.find e.key = b.find e.key := by
      refine h.kept e.key fun x hx hk => hin ?_
      have hxd : x ∈ d.rows := (mem_filter.mp (mem_of_mem_take hx)).1
      rw [← d.sorted.key_inj hxd he hk]
      exact hx
    simp only [hin, not_false_eq_true, and_true, Doc.lacks, hkept]
  have hfilter : missing d b' = (missing d b).filter fun e => e ∉ (missing d b).take n := by
    rw [missing, missing, filter_filter]
    refine filter_congr fun e he => ?_
    have := hlacks e he
    rw [Bool.eq_iff_iff, this]
    simp [and_comm, missing]
  rw [hfilter, filter_not_mem_take hnodup]

/-- **A lossless walk makes progress.** The responder sends all it owes and keeps its
document; no stamp of the requester's document goes back; and of the rows that
were lacking, as many arrive as one request can ask for. -/
theorem walk_progress {t : WalkEnv} {a : State na} {b : State nb} {fuel : Nat}
    (h : WalkReady t a b) (hfree : ∀ e ∈ a.doc.rows, b.asmRx.FreeFor na.me t.entry e)
    (hfuel : na.maxEntries < fuel) :
    (walk fuel t a b).1.doc = a.doc ∧
    ((walk fuel t a b).1.vecDest = 0 ∧ (walk fuel t a b).1.entDest = 0) ∧
    (∀ key e, b.doc.find key = some e →
      ∃ e', (walk fuel t a b).2.doc.find key = some e' ∧ e.stamp ≤ e'.stamp) ∧
    (missing a.doc (walk fuel t a b).2.doc).length + min 6 (missing a.doc b.doc).length =
      (missing a.doc b.doc).length := by
  obtain ⟨hf, hdoc, hv, he⟩ := walk_fetches h hfree hfuel
  refine ⟨hdoc, ⟨hv, he⟩, fun key e hheld => ?_, ?_⟩
  · by_cases hasked : ∃ x ∈ (missing a.doc b.doc).take pullKeysMax, x.key = key
    · obtain ⟨x, hx, rfl⟩ := hasked
      refine ⟨x, hf.got x hx, ?_⟩
      exact (Doc.lacks_iff.mp (lacks_of_mem_missing hx) e hheld).le
    · push Not at hasked
      exact ⟨e, (hf.kept key hasked).trans hheld, le_refl _⟩
  · have hsix : pullKeysMax = 6 := rfl
    rw [missing_fetched hf, length_drop]
    omega

end Walk

/-- A second node of the sample build. -/
def sampleResponder : Node := { sampleNode with me := 2 }

/-- A row of two fragments. -/
def longRow : Entry :=
  ⟨Key.base deviceTag, ⟨10, 0, 2⟩, false, UInt8.ofNat deviceTag.toNat :: replicate 99 0, none⟩

/-- The responder holds the long row. -/
def holdsLongRow : State sampleResponder :=
  { State.init sampleResponder (sampleEnv 0) with doc := ((Doc.init 14).acceptSigned longRow).2 }

/-- The requests come at 50 s, the fragments at 59 s and 61 s. -/
def lateReply : WalkEnv where
  vectorReq := sampleEnv 50000
  entryReq := sampleEnv 50000
  vector := fun _ => sampleEnv 50000
  entry := fun i => sampleEnv (59000 + 2000 * i)

theorem longRow_accepted {b : State sampleNode} (hf : b.scopeKind = .full) (uptimeMs : Nat) :
    b.Accepts (sampleEnv uptimeMs) longRow := by
  refine ⟨⟨by decide, ?_, rfl, rfl, fun _ => rfl, by decide⟩, fun f _ hsig => ?_⟩
  · simp [myScope, hf]
  · have hlen : f.authorSig.length = 0 := by rw [hsig]; rfl
    simp [sigVerdict, sigPolicy, hlen, SigVerdict.accepts, sampleNode]

theorem lateReply_ready {b : State sampleNode} (hf : b.scopeKind = .full) (ho : b.Opened 2)
    (hidle : b.vecDest = 0 ∧ b.entDest = 0) (hempty : b.doc = Doc.init 14) :
    WalkReady lateReply holdsLongRow b where
  me_ne := by decide
  full := hf
  opened := ho
  requester := hidle
  responder := ⟨rfl, rfl⟩
  vectorGranted := by decide +kernel
  entryGranted := by decide +kernel
  accepted := by
    intro e he i
    obtain rfl := mem_singleton.mp he
    exact ⟨longRow_accepted hf _, longRow_accepted hf _⟩
  room := by
    rw [hempty]
    unfold Doc.HasRoom
    decide +kernel
  inTime := by
    intro i
    change 59000 + 2000 * (i + 1) ≤ 59000 + 2000 * i + 60 * 1000
    omega

/-- A requester with nothing but a pull of node 2. -/
def freshRequester : State sampleNode :=
  ((State.init sampleNode (sampleEnv 0)).pullStart (sampleEnv 30000) 2 0 .digest).2

theorem walk_progress_fresh :
    WalkReady lateReply holdsLongRow freshRequester ∧
    (missing holdsLongRow.doc (walk 15 lateReply holdsLongRow freshRequester).2.doc).length +
      min 6 (missing holdsLongRow.doc freshRequester.doc).length =
        (missing holdsLongRow.doc freshRequester.doc).length := by
  have hready : WalkReady lateReply holdsLongRow freshRequester :=
    lateReply_ready rfl (pullStart_opened rfl) ⟨rfl, rfl⟩ rfl
  refine ⟨hready, (walk_progress hready (fun e _ _ hm => ?_) (by decide)).2.2.2⟩
  exact absurd hm nofun

/-- The same requester after it heard the row's first fragment at time zero, and not
its second. -/
def leftoverRequester : State sampleNode :=
  (((State.init sampleNode (sampleEnv 0)).onEntry (sampleEnv 0) 2
    (entryToPbFrag longRow 0).1).pullStart (sampleEnv 30000) 2 0 .digest).2

/-- **A walk loses a row to a leftover fragment.** The first fragment, repeated at 59 s,
is out of order, and the second one, at 61 s, comes after the slot's deadline. -/
theorem walk_stalls :
    WalkReady lateReply holdsLongRow leftoverRequester ∧ holdsLongRow.scopeKind = .full ∧
    (missing holdsLongRow.doc leftoverRequester.doc).length = 1 ∧
    (missing holdsLongRow.doc (walk 15 lateReply holdsLongRow leftoverRequester).2.doc).length =
      1 := by
  refine ⟨lateReply_ready ?_ (pullStart_opened ?_) ?_ (Doc.ext_rows ?_), rfl, ?_, ?_⟩
  · decide +kernel
  · decide +kernel
  · decide +kernel
  · decide +kernel
  · decide +kernel
  · decide +kernel

end Zephyrtastic.Cluster
