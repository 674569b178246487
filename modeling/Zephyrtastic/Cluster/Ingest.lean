import Zephyrtastic.Cluster.Claim
import Zephyrtastic.Cluster.Reassembly
import Zephyrtastic.ConfigStore

/-!
# Ingest of entries

The gates a received entry passes before it is merged, in the order the module
tries them, and the merge itself. `onEntry_ingested` says everything an entry
can do to the state.
-/

namespace Zephyrtastic.Cluster

open State

/-- The allowlist. -/
def shareableSections : List UInt16 :=
  [deviceTag, positionTag, powerTag, displayTag, loraTag, bluetoothTag, sectionFw]

def sectionShareable (sec : UInt16) : Bool := shareableSections.any fun s => decide (s = sec)

/-- PAUSE and ALLOW_DOWNGRADE. -/
def fleetIntentFlagsKnown : UInt32 := 0x3

section Gates
variable (nd : Node)

/-- A firmware intent with at least one row, every row meaningful. -/
def privatePayloadIsValid (sec : UInt16) (payload : List UInt8) : Bool :=
  if sec ≠ sectionFw then false
  else match nd.decodeFleetIntent payload with
    | none => false
    | some rows => !rows.isEmpty && rows.all fun r =>
        !(decide (r.classId > 255) || decide (r.version = 0)) &&
        !(decide (r.hashPrefixSize ≠ 0) && decide (r.hashPrefixSize ≠ 4)) &&
        decide (r.flags &&& ~~~fleetIntentFlagsKnown = 0)

/-- The payload must be the section its key claims. -/
def payloadIsItsSection (sec : UInt16) (payload : List UInt8) (tombstone : Bool) : Bool :=
  if tombstone then decide (payload.length = 0)
  else if sectionIsPrivate sec then privatePayloadIsValid nd sec payload
  else decide (nd.decodeVariant payload = some sec)

/-- The drift horizon. An unseeded node has no opinion. -/
def stampWithinHorizon (env : Env) (stamp : Stamp) : Bool :=
  if env.epochMs ≤ 0 then true
  else decide (stamp.physicalMs ≤ env.epochMs + Hlc.maxDriftMs)

def authorIsMaster (env : Env) (nodeId : UInt32) : Bool := nd.admin && env.trusted nodeId

/-- Who may author what: this node, the owner of a per-node key, or a master. -/
def entryAuthorized (env : Env) (key : Key) (stamp : Stamp) : Bool :=
  if stamp.nodeId = nd.me then true
  else if key.layer = layerNode ∧ stamp.nodeId = key.nodeId then true
  else authorIsMaster nd env stamp.nodeId

/-- A per-node entry is accepted only for a node this one has heard of. -/
def nodeOwnerIsKnown (env : Env) (nodeId : UInt32) : Bool :=
  decide (nodeId = nd.me) || env.nodedbHas nodeId || (env.nodedbPubkey nodeId).isSome

end Gates

section Ingest
variable {nd : Node}
variable (c : State nd) (env : Env)
variable (key : Key) (stamp : Stamp)

/-- Fold a stamp into the module's clock. -/
@[simp] def State.observe : State nd :=
  { c with hlc := (c.hlc.observeAt stamp env.observeMs).2 }

/-- A signature as the document carries it: exactly 64 bytes, or none. -/
def carriedSig (authorSig : List UInt8) : Option Signature :=
  if h : authorSig.length = sigLen then some ⟨authorSig, h⟩ else none

/-- The signature a row travels with; no bytes when it has none. -/
def Entry.sigBytes (e : Entry) : List UInt8 :=
  match e.sig with
  | some sig => sig.bytes
  | none => []

theorem carriedSig_sigBytes (e : Entry) : carriedSig e.sigBytes = e.sig := by
  unfold Entry.sigBytes carriedSig
  cases e.sig with
  | none => rfl
  | some sig => exact dif_pos sig.length_eq

/-- The verdict of the signature policy on a completed entry. -/
def sigVerdict (nd : Node) (env : Env) (key : Key) (stamp : Stamp) (e : EntryPb)
    (payload : List UInt8) : SigVerdict :=
  let self := decide (stamp.nodeId = nd.me)
  let pub := if nd.xeddsa && decide (e.authorSig.length = sigLen) then
      (if self then env.ownPubkey else env.nodedbPubkey stamp.nodeId)
    else none
  let verifies := match pub, signingBuffer key stamp e.tombstone payload with
    | some pub, some buf => nd.xeddsaVerify pub buf e.authorSig
    | _, _ => false
  sigPolicy e.authorSig.length nd.sigRequired self nd.xeddsa pub.isSome verifies

/-- The author-signature gate: the signature to carry, or a counted refusal. -/
def State.entrySignatureOk (e : EntryPb)
    (payload : List UInt8) : Option (Option Signature) × State nd :=
  match sigVerdict nd env key stamp e payload with
  | .acceptVerified => (some (carriedSig e.authorSig),
      c.count .sigVerified)
  | .acceptUnsigned => (some (carriedSig e.authorSig),
      c.count .sigUnsigned)
  | .acceptUnchecked => (some (carriedSig e.authorSig), c)
  | .refuseUnsigned => (none,
      (c.count .sigRefusedUnsigned).refuseEntry)
  | .refuseMalformed => (none,
      (c.count .sigRefusedMalformed).refuseEntry)
  | .refuseNoKey => (none,
      (c.count .sigRefusedNoKey).refuseEntry)
  | .refuseBad => (none,
      (c.count .sigRefusedBad).refuseEntry)

/-- Merge a whole entry. A stored one forgives the whole fruitless run. -/
def State.mergeEntry (w : Entry) : State nd :=
  let c := c.observe env w.stamp
  match (c.doc.acceptSigned w).1 with
  | .stored => { c with
      doc := (c.doc.acceptSigned w).2
      stats := c.stats.add .entryRxApplied 1
      pullFruitless := 0
      pullHoldUntilMs := 0 }
  | .stale => c.count .entryRxStale
  | .noSpace => c.count .entryRxNoSpace
  | .invalid => c.count .rxUndecodable

/-- The gates on the key and stamp alone, which every fragment passes; the counted
refusal otherwise. -/
def State.entryGates : Option (State nd) :=
  if !sectionShareable key.sec then some c.refuseEntry
  else if !c.myScope.contains key then
    some (c.count .entryRxOutOfScope)
  else if !entryAuthorized nd env key stamp then some c.refuseEntry
  else if !stampWithinHorizon env stamp then
    some (c.count .entryRxFuture).refuseEntry
  else if key.layer = layerNode ∧ !nodeOwnerIsKnown nd env key.nodeId then some c.refuseEntry
  else none

/-- The whole payload is judged only once it is complete. -/
def State.judgeEntry (e : EntryPb) (payload : List UInt8) : State nd :=
  if !payloadIsItsSection nd key.sec payload e.tombstone then c.refuseEntry
  else match c.entrySignatureOk env key stamp e payload with
    | (none, c) => c
    | (some sig, c) => c.mergeEntry env ⟨key, stamp, e.tombstone, payload, sig⟩

def State.onEntry (sender : UInt32) (e : EntryPb) : State nd :=
  match e.key, e.stamp with
  | some keyPb, some stamp =>
    match c.entryGates env (keyFromPb keyPb) stamp with
    | some refused => refused
    | none =>
      match c.reassembleEntry env sender e (keyFromPb keyPb) stamp with
      | (none, c) => c
      | (some payload, c) => c.judgeEntry env (keyFromPb keyPb) stamp e payload
  | _, _ => c.count .rxUndecodable

/-- Only the reassembly slot and counters other than the merge count moved. -/
def State.OnlySlot (c c' : State nd) : Prop :=
  ∃ asmRx stats, c' = { c with asmRx, stats } ∧ stats .entryRxApplied = c.stats .entryRxApplied

variable (c : State nd) (env : Env) (sender : UInt32) (key : Key) (stamp : Stamp) (e : EntryPb)

theorem State.OnlySlot.refl : c.OnlySlot c := ⟨c.asmRx, c.stats, rfl, rfl⟩

theorem State.OnlySlot.trans {c c' c'' : State nd} (h : c.OnlySlot c') (h' : c'.OnlySlot c'') :
    c.OnlySlot c'' := by
  obtain ⟨slot, st, rfl, ha⟩ := h
  obtain ⟨slot', st', rfl, ha'⟩ := h'
  exact ⟨slot', st', rfl, ha'.trans ha⟩

theorem State.onlySlot_count {k : Counter} (hk : Counter.entryRxApplied ≠ k) :
    c.OnlySlot (c.count k) :=
  ⟨c.asmRx, _, rfl, Stats.add_of_ne hk⟩

theorem State.onlySlot_refuseEntry : c.OnlySlot c.refuseEntry :=
  c.onlySlot_count (by decide)

theorem asmExpire_onlySlot (now : Nat) : c.OnlySlot (c.asmExpire now) := by
  unfold asmExpire
  split
  · exact ⟨_, _, rfl, Stats.add_of_ne nofun⟩
  · exact State.OnlySlot.refl c

theorem asmAppend_onlySlot (off : Nat) (bytes : List UInt8)
    (deadlineMs total : Nat) : c.OnlySlot (c.asmAppend off bytes deadlineMs total).2 := by
  unfold asmAppend
  simp only
  split
  · exact ⟨_, _, rfl, Stats.add_of_ne nofun⟩
  · exact ⟨_, _, rfl, Stats.add_of_ne nofun⟩

theorem asmStart_onlySlot (tombstone : Bool) (total : Nat) :
    c.OnlySlot (c.asmStart sender key stamp tombstone total) := by
  refine ⟨_, _, rfl, ?_⟩
  split
  · exact Stats.add_of_ne nofun
  · rfl

theorem asmSelect_onlySlot (isMatch : Bool) (sender : UInt32) (key : Key)
    (stamp : Stamp) (tombstone : Bool) (total : Nat) :
    c.OnlySlot (c.asmSelect isMatch sender key stamp tombstone total) := by
  unfold asmSelect
  split
  · exact State.OnlySlot.refl c
  · exact asmStart_onlySlot _ _ _ _ _ _

theorem reassembleEntry_onlySlot
    (key : Key) (stamp : Stamp) : c.OnlySlot (c.reassembleEntry env sender e key stamp).2 := by
  have hexp := asmExpire_onlySlot c env.uptimeMs
  have hsel := fun isMatch total => hexp.trans
    (asmSelect_onlySlot (c.asmExpire env.uptimeMs) isMatch sender key stamp e.tombstone total)
  simp only [reassembleEntry]
  split
  · exact c.onlySlot_refuseEntry
  split
  · exact State.OnlySlot.refl c
  split
  · exact hexp.trans (onlySlot_count _ (by decide))
  · split
    · exact (hsel _ _).trans (onlySlot_count _ (by decide))
    · exact (hsel _ _).trans (asmAppend_onlySlot _ _ _ _ _)

theorem entrySignatureOk_onlySlot (payload : List UInt8) :
    c.OnlySlot (c.entrySignatureOk env key stamp e payload).2 := by
  unfold entrySignatureOk
  split
  · exact c.onlySlot_count (by decide)
  · exact c.onlySlot_count (by decide)
  · exact State.OnlySlot.refl c
  all_goals exact (c.onlySlot_count (by decide)).trans (onlySlot_refuseEntry _)

/-- What a merge does: the write is stored and progress recorded, or only the
clock and counters move. -/
inductive Merged (w : Entry) : Prop
  | stored (hs : (c.doc.acceptSigned w).1 = .stored)
      (hm : c.mergeEntry env w =
        { c.observe env w.stamp with
          doc := (c.doc.acceptSigned w).2
          stats := c.stats.add .entryRxApplied 1
          pullFruitless := 0
          pullHoldUntilMs := 0 })
  | refused (hn : (c.doc.acceptSigned w).1 ≠ .stored)
      (hm : (c.observe env w.stamp).OnlySlot (c.mergeEntry env w))

theorem mergeEntry_merged (w : Entry) : Merged c env w := by
  cases hs : (c.doc.acceptSigned w).1 with
  | stored => exact .stored hs (by simp only [mergeEntry, observe, hs])
  | stale | noSpace | invalid =>
    refine .refused (by simp [hs]) ?_
    simp only [mergeEntry, observe, hs]
    exact onlySlot_count _ (by decide)

/-- The gates an entry has passed when it is merged. -/
structure PassedGates (w : Entry) : Prop where
  shareable : sectionShareable w.key.sec = true
  inScope : c.myScope.contains w.key = true
  authorized : entryAuthorized nd env w.key w.stamp = true
  horizon : stampWithinHorizon env w.stamp = true
  ownerKnown : w.key.layer = layerNode → nodeOwnerIsKnown nd env w.key.nodeId = true
  itsSection : payloadIsItsSection nd w.key.sec w.payload w.tombstone = true

theorem entryGates_cases :
    (∃ c', c.entryGates env key stamp = some c' ∧ c.OnlySlot c') ∨
    (c.entryGates env key stamp = none ∧ sectionShareable key.sec = true ∧
      c.myScope.contains key = true ∧ entryAuthorized nd env key stamp = true ∧
      stampWithinHorizon env stamp = true ∧
      (key.layer = layerNode → nodeOwnerIsKnown nd env key.nodeId = true)) := by
  unfold entryGates
  split
  · exact .inl ⟨_, rfl, c.onlySlot_refuseEntry⟩
  split
  · exact .inl ⟨_, rfl, c.onlySlot_count (by decide)⟩
  split
  · exact .inl ⟨_, rfl, c.onlySlot_refuseEntry⟩
  split
  · exact .inl ⟨_, rfl, (c.onlySlot_count (by decide)).trans (onlySlot_refuseEntry _)⟩
  · split
    · exact .inl ⟨_, rfl, c.onlySlot_refuseEntry⟩
    · simp_all

/-- The write is the one the frame describes. -/
def EntryPb.describes (e : EntryPb) (w : Entry) : Prop :=
  e.key.map keyFromPb = some w.key ∧ e.stamp = some w.stamp ∧ e.tombstone = w.tombstone

/-- **Everything a received entry can do**: merge a write that passed every gate,
or leave all but the reassembly slot and counters alone. -/
inductive Ingested : Prop
  | quiet (hs : c.OnlySlot (c.onEntry env sender e))
  | merged (c' : State nd) (w : Entry) (hs : c.OnlySlot c') (hg : PassedGates c env w)
      (hd : e.describes w) (he : c.onEntry env sender e = c'.mergeEntry env w)

theorem judgeEntry_cases (payload : List UInt8) :
    c.OnlySlot (c.judgeEntry env key stamp e payload) ∨
    ∃ c' sig, c.OnlySlot c' ∧ payloadIsItsSection nd key.sec payload e.tombstone = true ∧
      c.judgeEntry env key stamp e payload =
        c'.mergeEntry env ⟨key, stamp, e.tombstone, payload, sig⟩ := by
  have hsig := entrySignatureOk_onlySlot c env key stamp e payload
  unfold judgeEntry
  split
  · exact .inl c.onlySlot_refuseEntry
  rename_i hits
  generalize c.entrySignatureOk env key stamp e payload = q at hsig ⊢
  obtain ⟨_ | sig, c'⟩ := q
  · exact .inl hsig
  · exact .inr ⟨c', sig, hsig, by simpa using hits, rfl⟩

theorem onEntry_ingested : Ingested c env sender e := by
  cases hkey : e.key with
  | none =>
    apply Ingested.quiet
    simp only [onEntry, hkey]
    exact c.onlySlot_count (by decide)
  | some keyPb =>
    cases hstamp : e.stamp with
    | none =>
      apply Ingested.quiet
      simp only [onEntry, hkey, hstamp]
      exact c.onlySlot_count (by decide)
    | some stamp =>
      obtain ⟨c', hg, hc⟩ | ⟨hg, hsh, hsc, hau, hho, hown⟩ :=
        entryGates_cases c env (keyFromPb keyPb) stamp
      · apply Ingested.quiet
        simp only [onEntry, hkey, hstamp, hg]
        exact hc
      · have hre := reassembleEntry_onlySlot c env sender e (keyFromPb keyPb) stamp
        cases hr : c.reassembleEntry env sender e (keyFromPb keyPb) stamp with
        | mk payload c' =>
          rw [hr] at hre
          cases payload with
          | none =>
            apply Ingested.quiet
            simp only [onEntry, hkey, hstamp, hg, hr]
            exact hre
          | some payload =>
            have he : c.onEntry env sender e =
                c'.judgeEntry env (keyFromPb keyPb) stamp e payload := by
              simp only [onEntry, hkey, hstamp, hg, hr]
            obtain hq | ⟨c'', sig, hq, hits, hj⟩ :=
              judgeEntry_cases c' env (keyFromPb keyPb) stamp e payload
            · exact .quiet (he ▸ hre.trans hq)
            · exact .merged c'' ⟨keyFromPb keyPb, stamp, e.tombstone, payload, sig⟩ (hre.trans hq)
                ⟨hsh, hsc, hau, hho, hown, hits⟩ ⟨by simp [hkey], hstamp, rfl⟩ (he.trans hj)

theorem State.sameTables_observe : c.SameTables (c.observe env stamp) := ⟨rfl, rfl, rfl, rfl⟩

theorem State.OnlySlot.sameTables {c c' : State nd} (h : c.OnlySlot c') : c.SameTables c' := by
  obtain ⟨_, _, rfl, _⟩ := h
  exact ⟨rfl, rfl, rfl, rfl⟩

theorem onEntry_tables :
    c.SameTables (c.onEntry env sender e) ∨
    ∃ w, PassedGates c env w ∧ e.describes w ∧ c.Stores (c.onEntry env sender e) w := by
  cases onEntry_ingested c env sender e with
  | quiet hs => exact .inl hs.sameTables
  | merged c' w hs hg hd he =>
    rw [he]
    cases mergeEntry_merged c' env w with
    | stored hst hm =>
      refine .inr ⟨w, hg, hd, State.Stores.of_same hs.sameTables ⟨hst, ?_, ?_, ?_⟩⟩ <;> rw [hm]
      · rfl
      · rfl
    | refused _ hm =>
      have ho := c'.sameTables_observe env w.stamp
      exact .inl ((hs.sameTables.trans ho).trans hm.sameTables)

end Ingest

end Zephyrtastic.Cluster
