import Zephyrtastic.Cluster.Convergence
import Zephyrtastic.Cluster.EntryKey
import Zephyrtastic.Cluster.Local
import Zephyrtastic.Lockdown.Store

/-!
# The document in flash

Every row is written as a record of its own, through the store wrap of lockdown,
and the records come back through the settings handler in whatever order the
backend walks them.
-/

namespace Zephyrtastic.Cluster

open Bytes List
open Lockdown (Name Nonce sealOverhead isSealed magicSeal)

/-- How records reach the settings backend: through the stubs of a build without
lockdown, or through its wrap. -/
inductive Wrap where
  | stub
  | lockdown (dev : Lockdown.Device) (s : Lockdown.State)

namespace Wrap

/-- The bytes `meshtastic_lockdown_save_one` hands to the backend. -/
def write : Wrap → Name → Bytes → Nonce → Except Lockdown.Errno Bytes
  | stub, _, val, _ => .ok val
  | lockdown dev s, name, val, nonce => s.wrapWrite dev name val nonce

def read : Wrap → Name → Bytes → Nat → Except Lockdown.Errno Bytes
  | stub, _, raw, cap => if raw.length > cap then .error .msgsize else .ok raw
  | lockdown dev s, name, raw, cap => s.readRecord dev name raw cap

/-- A value written now comes back as it is. -/
def keeps : Wrap → Bool → Bool
  | stub, _ => true
  | lockdown _ s, looksSealed => s.keeps looksSealed

end Wrap

/-- `offsetof(struct cluster_rec, payload)`. -/
def recHeader : Nat := 17
/-- `sizeof(struct cluster_rec)`. -/
def recSize : Nat := recHeader + payloadMax + sigLen

def recFlags (e : Entry) : UInt8 :=
  (if e.tombstone then recTombstone else 0) ||| (if e.sig.isSome then recSigned else 0)

/-- `struct cluster_rec`, packed; the signature trails the payload. -/
def clusterRec (e : Entry) : Bytes :=
  putLe 8 e.stamp.physicalMs.toUInt64.toNat ++ (putLe32 e.stamp.counter ++
    (putLe32 e.stamp.nodeId ++ recFlags e :: (e.payload ++ e.sigBytes)))

def persistEntry (wrap : Wrap) (nonce : Key → Nonce) (store : List (Name × Bytes)) (e : Entry) :
    List (Name × Bytes) :=
  match wrap.write (recName e.key) (clusterRec e) (nonce e.key) with
  | .ok bytes => Assoc.put (recName e.key) bytes store
  | .error _ => store

/-- Every row, into a subtree that holds nothing yet. -/
def persistAll (wrap : Wrap) (nonce : Key → Nonce) (rows : List Entry) : List (Name × Bytes) :=
  rows.foldl (persistEntry wrap nonce) []

def recStamp (rec : Bytes) : Stamp :=
  ⟨(UInt64.ofNat (getLe (rec.take 8))).toInt64, getLe32 (rec.drop 8), getLe32 (rec.drop 12)⟩

/-- The fields of an entry record as `cluster_settings_set` opens it; `name` is the
remainder after `mtclus/`. -/
def entryRecord (wrap : Wrap) (name : Name) (raw : Bytes) : Option (Key × Stamp × UInt8 × Bytes) :=
  match parseEntryKey name with
  | none => none
  | some (layer, nodeId, sec) =>
    if raw.length < recHeader ∨ raw.length > recSize + sealOverhead then none
    else match wrap.read ("mtclus/".toList ++ name) raw recSize with
      | .error _ => none
      | .ok rec =>
        if rec.length < recHeader then none
        else some (⟨if layer = 'b' then layerBase else layerNode, nodeId, sec.toUInt16⟩,
          recStamp rec, rec.getD 16 0, rec.drop recHeader)

def scopeKindOf (kind : UInt8) : Option ScopeKind :=
  if kind = 0 then some .base else if kind = 1 then some .core
  else if kind = 2 then some .full else none

/-- The record of the claim: a kind and the capacity it was taken at. -/
def scopeRecord (wrap : Wrap) (raw : Bytes) : Option (Option ScopeKind × Nat) :=
  match wrap.read "mtclus/scope".toList raw 3 with
  | .error _ => none
  | .ok rec =>
    if rec.length ≠ 3 then none else some (scopeKindOf (rec.getD 0 0), getLe (rec.drop 1))

section Load
variable {nd : Node}

def State.clusterSettingsSet (c : State nd) (wrap : Wrap) (env : Env) (name : Name)
    (raw : Bytes) : State nd :=
  if name = "scope".toList then
    match scopeRecord wrap raw with
    | none => c
    | some (kind, cap) => c.settingsSet env (.scope kind cap)
  else
    match entryRecord wrap name raw with
    | none => c
    | some (key, stamp, flags, body) => c.settingsSet env (.entry key stamp flags body)

/-- The backend walks the records of the subtree; each is loaded at its own moment. -/
def State.loadSubtree (c : State nd) (wrap : Wrap) (env : Name → Env)
    (recs : List (Name × Bytes)) : State nd :=
  recs.foldl (fun c r => c.clusterSettingsSet wrap (env r.1) (r.1.drop 7) r.2) c

end Load

/-- In the clear, the record of the entry would pass for a sealed one. -/
def Entry.looksSealed (e : Entry) : Bool :=
  decide (e.stamp.physicalMs.toUInt64.toUInt32 = magicSeal) &&
    decide (15 ≤ e.payload.length + if e.sig.isSome then sigLen else 0)

section Records
variable (e : Entry)

theorem length_sigBytes : e.sigBytes.length = if e.sig.isSome then sigLen else 0 := by
  unfold Entry.sigBytes
  cases e.sig with
  | none => rfl
  | some sig => exact sig.length_eq

theorem length_clusterRec :
    (clusterRec e).length = recHeader + (e.payload.length + e.sigBytes.length) := by
  simp only [clusterRec, length_append, length_cons, length_putLe, length_putLe32,
    recHeader]
  omega

theorem clusterRec_fields : recStamp (clusterRec e) = e.stamp ∧
    (clusterRec e).getD 16 0 = recFlags e ∧
    (clusterRec e).drop recHeader = e.payload ++ e.sigBytes := by
  have hms := length_putLe 8 e.stamp.physicalMs.toUInt64.toNat
  have hphys : getLe ((clusterRec e).take 8) = e.stamp.physicalMs.toUInt64.toNat := by
    rw [clusterRec, take_left' hms, getLe_putLe]
    exact Nat.mod_eq_of_lt e.stamp.physicalMs.toUInt64.toNat_lt
  have hcounter : getLe32 ((clusterRec e).drop 8) = e.stamp.counter := by
    rw [clusterRec, drop_left' hms, getLe32_putLe32]
  have hauthor : getLe32 ((clusterRec e).drop 12) = e.stamp.nodeId := by
    rw [clusterRec, ← append_assoc, drop_left' (by simp), getLe32_putLe32]
  refine ⟨?_, ?_, ?_⟩
  · rw [recStamp, hphys, hcounter, hauthor, UInt64.ofNat_toNat]
    rfl
  · rfl
  · rfl

/-- A record in the clear looks sealed exactly if its time does. -/
theorem isSealed_clusterRec : isSealed (clusterRec e) = e.looksSealed := by
  have hlow : getLe32 (clusterRec e) = e.stamp.physicalMs.toUInt64.toUInt32 := by
    have htake : (clusterRec e).take 4 = putLe 4 e.stamp.physicalMs.toUInt64.toNat := rfl
    rw [getLe32, htake, getLe_putLe]
    apply UInt32.toNat_inj.mp
    exact Nat.mod_mod _ _
  have hlen : (clusterRec e).length ≥ sealOverhead ↔
      15 ≤ e.payload.length + if e.sig.isSome then sigLen else 0 := by
    rw [length_clusterRec, length_sigBytes, recHeader, sealOverhead]
    omega
  rw [isSealed, Entry.looksSealed, hlow, decide_eq_decide.mpr hlen, Bool.and_comm]

/-- The flags of a record hold the tombstone and whether there is a signature, and
nothing else. -/
theorem recFlags_bits : recFlags e &&& ~~~(recTombstone ||| recSigned) = 0 ∧
    decide (recFlags e &&& recTombstone ≠ 0) = e.tombstone ∧
    decide (recFlags e &&& recSigned ≠ 0) = e.sig.isSome := by
  unfold recFlags
  cases e.tombstone <;> cases e.sig.isSome <;> decide

variable {e}

theorem recordEntry_recFlags (h : e.payload.length ≤ payloadMax) :
    recordEntry e.key e.stamp (recFlags e) (e.payload ++ e.sigBytes) = some e := by
  obtain ⟨hknown, htomb, hsigned⟩ := recFlags_bits e
  obtain ⟨key, stamp, tombstone, payload, sig⟩ := e
  unfold recordEntry
  simp only [hknown, htomb, ne_eq, not_true, if_false]
  cases sig with
  | none =>
    rw [if_neg (of_decide_eq_false hsigned)]
    simp only [Entry.sigBytes, append_nil]
    exact if_neg (Nat.not_lt_of_le h)
  | some sig =>
    have hlen : (payload ++ sig.bytes).length = payload.length + sigLen := by
      rw [length_append, sig.length_eq]
    have hsub : (payload ++ sig.bytes).length - sigLen = payload.length := by
      rw [hlen, Nat.add_sub_cancel]
    have hfits : ¬ ((payload ++ sig.bytes).length < sigLen ∨ payload.length > payloadMax) :=
      not_or.mpr ⟨by omega, Nat.not_lt_of_le h⟩
    have hsig : carriedSig sig.bytes = some sig := dif_pos sig.length_eq
    rw [if_pos (of_decide_eq_true hsigned)]
    simp only [Entry.sigBytes, hsub, hfits, take_left, drop_left, hsig, if_false]

theorem length_of_recordEntry {key : Key} {stamp : Stamp} {flags : UInt8} {body : Bytes} {w : Entry}
    (h : recordEntry key stamp flags body = some w) :
    body.length = w.payload.length + w.sigBytes.length := by
  unfold recordEntry at h
  split at h
  · cases h
  split at h
  · split at h
    · cases h
    next hlen =>
    have hdrop : (body.drop (body.length - sigLen)).length = sigLen := by
      rw [length_drop]
      omega
    obtain rfl := Option.some.inj h
    rw [length_sigBytes, carriedSig, dif_pos hdrop, length_take]
    simp only [Option.isSome_some, if_true]
    omega
  · split at h
    · cases h
    · obtain rfl := Option.some.inj h
      rfl

theorem length_clusterRec_le (h : e.payload.length ≤ payloadMax) :
    (clusterRec e).length ≤ recSize := by
  have hsig : e.sigBytes.length ≤ sigLen := by
    rw [length_sigBytes]
    split
    · exact Nat.le_refl _
    · exact Nat.zero_le _
  rw [length_clusterRec]
  unfold recSize
  omega

end Records

section Wrapped
variable {wrap : Wrap} {val : Bytes}

theorem Wrap.read_write (hval : val.length ≤ recSize) (h : wrap.keeps (isSealed val) = true)
    (name : Name) (nonce : Nonce) : ∃ bytes, wrap.write name val nonce = .ok bytes ∧
      val.length ≤ bytes.length ∧ bytes.length ≤ val.length + sealOverhead ∧
      wrap.read name bytes recSize = .ok val := by
  cases wrap with
  | stub => exact ⟨val, rfl, Nat.le_refl _, Nat.le_add_right _ _, if_neg (Nat.not_lt_of_le hval)⟩
  | lockdown dev s =>
    exact Lockdown.readRecord_wrapWrite hval
      (Nat.le_trans (Nat.add_le_add_right hval _) (by decide)) h name nonce

theorem Wrap.length_read_write (h : wrap.keeps (isSealed val) = false) {name : Name}
    {nonce : Nonce} {bytes rec : Bytes} (hw : wrap.write name val nonce = .ok bytes)
    (hr : wrap.read name bytes recSize = .ok rec) : rec.length + sealOverhead = val.length := by
  cases wrap with
  | stub => cases h
  | lockdown dev s => exact Lockdown.length_readRecord_wrapWrite h hw hr

end Wrapped

/-- The record of a row, if the wrap takes it. -/
def saved (wrap : Wrap) (nonce : Key → Nonce) (e : Entry) : Option (Name × Bytes) :=
  match wrap.write (recName e.key) (clusterRec e) (nonce e.key) with
  | .ok bytes => some (recName e.key, bytes)
  | .error _ => none

/-- The entry a record offers to the table, if it passes the checks. -/
def offer (nd : Node) (scope : Scope) (wrap : Wrap) (r : Name × Bytes) : Option Entry :=
  ((entryRecord wrap (r.1.drop 7) r.2).bind fun (key, stamp, flags, body) =>
    recordEntry key stamp flags body).filter fun w => sectionShareable w.key.sec &&
      payloadIsItsSection nd w.key.sec w.payload w.tombstone && scope.contains w.key

section Names

theorem drop_recName (key : Key) : (recName key).drop 7 = entryName key := rfl

theorem key_of_entryName {key : Key} (h : keyIsValid key = true) :
    (⟨if (if key.layer = layerBase then 'b' else 'n') = 'b' then layerBase else layerNode,
      key.nodeId, key.sec.toUInt32.toUInt16⟩ : Key) = key := by
  obtain ⟨layer, nodeId, sec⟩ := key
  by_cases hb : layer = layerBase
  · simp [hb]
  have hn : layer = layerNode := by
    by_contra hne
    simp [keyIsValid, hb, hne] at h
  simp [hn, layerNode, layerBase]

theorem recName_inj {a b : Key} (ha : keyIsValid a = true) (hb : keyIsValid b = true)
    (h : recName a = recName b) : a = b := by
  have hname : entryName a = entryName b := congrArg (drop 7) h
  have hparse := (parseEntryKey_entryName a).symm.trans
    ((congrArg parseEntryKey hname).trans (parseEntryKey_entryName b))
  simp only [Option.some.injEq, Prod.mk.injEq] at hparse
  obtain ⟨hlayer, hnode, hsec⟩ := hparse
  rw [← key_of_entryName ha, ← key_of_entryName hb, hlayer, hnode, hsec]

theorem entryName_ne_scope (key : Key) : entryName key ≠ "scope".toList := by
  intro h
  have hhead := congrArg head? h
  simp only [entryName, head?_cons] at hhead
  split at hhead <;> exact absurd hhead (by decide)

end Names

section Save
variable (wrap : Wrap) (nonce : Key → Nonce)

variable {wrap nonce} in
theorem saved_eq_some {e : Entry} {r : Name × Bytes} : saved wrap nonce e = some r ↔
    ∃ bytes, wrap.write (recName e.key) (clusterRec e) (nonce e.key) = .ok bytes ∧
      r = (recName e.key, bytes) := by
  unfold saved
  cases wrap.write (recName e.key) (clusterRec e) (nonce e.key) <;> simp [eq_comm]

variable {wrap nonce} in
theorem name_of_saved {e : Entry} {r : Name × Bytes} (h : saved wrap nonce e = some r) :
    r.1 = recName e.key := by
  obtain ⟨bytes, -, rfl⟩ := saved_eq_some.mp h
  rfl

theorem persistEntry_eq {store : List (Name × Bytes)} {e : Entry}
    (h : recName e.key ∉ Assoc.keys store) :
    persistEntry wrap nonce store e = store ++ (saved wrap nonce e).toList := by
  unfold persistEntry saved
  cases wrap.write (recName e.key) (clusterRec e) (nonce e.key) with
  | error => simp
  | ok bytes => simp [Assoc.put_of_not_mem bytes h]

theorem foldl_persistEntry {rows : List Entry} (hs : Lww.Sorted Entry.key rows)
    (hv : ∀ e ∈ rows, keyIsValid e.key = true) {store : List (Name × Bytes)}
    (hnew : ∀ e ∈ rows, recName e.key ∉ Assoc.keys store) :
    rows.foldl (persistEntry wrap nonce) store = store ++ rows.filterMap (saved wrap nonce) := by
  induction rows generalizing store with
  | nil => simp
  | cons e rest ih =>
    obtain ⟨hve, hvrest⟩ := forall_mem_cons.mp hv
    obtain ⟨hne, hnrest⟩ := forall_mem_cons.mp hnew
    rw [foldl_cons, persistEntry_eq wrap nonce hne, ih hs.tail hvrest]
    · cases hsv : saved wrap nonce e <;> simp [hsv]
    · intro x hx hmem
      rw [Assoc.keys, map_append, mem_append] at hmem
      rcases hmem with hold | hadded
      · exact hnrest x hx hold
      obtain ⟨r, hr, hname⟩ := mem_map.mp hadded
      have hsaved := name_of_saved (Option.mem_toList.mp hr)
      have hkey := recName_inj hve (hvrest x hx) (hsaved.symm.trans hname)
      exact absurd hkey (hs.head_lt x hx).ne

end Save

section Load
variable {nd : Node} {wrap : Wrap}

theorem clusterSettingsSet_offer (c : State nd) (env : Env) {r : Name × Bytes}
    (hname : r.1.drop 7 ≠ "scope".toList) :
    (c.clusterSettingsSet wrap env (r.1.drop 7) r.2).doc =
        (offer nd c.myScope wrap r).elim c.doc (fun w => (c.doc.acceptSigned w).2) ∧
      (c.clusterSettingsSet wrap env (r.1.drop 7) r.2).myScope = c.myScope := by
  unfold State.clusterSettingsSet offer
  rw [if_neg hname]
  cases entryRecord wrap (r.1.drop 7) r.2 with
  | none => exact ⟨rfl, rfl⟩
  | some fields =>
    obtain ⟨key, stamp, flags, body⟩ := fields
    simp only [State.settingsSet, State.loadEntry, Option.bind_some]
    cases recordEntry key stamp flags body with
    | none => exact ⟨rfl, rfl⟩
    | some w =>
      simp only [Option.filter_some]
      split
      · next hbad =>
        rw [if_neg (by rcases Bool.or_eq_true_iff.mp hbad with h | h <;> simp_all)]
        exact ⟨rfl, rfl⟩
      next hgood =>
      obtain ⟨hsec, hpay⟩ : sectionShareable w.key.sec = true ∧
          payloadIsItsSection nd w.key.sec w.payload w.tombstone = true := by simpa using hgood
      simp only [hsec, hpay, Bool.and_self, Bool.true_and]
      split
      · next hout =>
        rw [if_neg (by simpa using hout)]
        exact ⟨rfl, rfl⟩
      · next hin =>
        rw [if_pos (by simpa using hin)]
        exact ⟨rfl, rfl⟩

theorem loadSubtree_doc (c : State nd) (env : Name → Env) {recs : List (Name × Bytes)}
    (hnames : ∀ r ∈ recs, r.1.drop 7 ≠ "scope".toList) :
    (c.loadSubtree wrap env recs).doc =
      (recs.filterMap (offer nd c.myScope wrap)).foldl (fun d w => (d.acceptSigned w).2) c.doc := by
  induction recs generalizing c with
  | nil => rfl
  | cons r rest ih =>
    obtain ⟨hr, hrest⟩ := forall_mem_cons.mp hnames
    obtain ⟨hdoc, hscope⟩ := @clusterSettingsSet_offer nd wrap c (env r.1) r hr
    have hih := ih (c.clusterSettingsSet wrap (env r.1) (r.1.drop 7) r.2) hrest
    rw [hscope, hdoc] at hih
    refine Eq.trans hih ?_
    cases ho : offer nd c.myScope wrap r <;> simp [ho]

end Load

/-- What the record of a row offers to the table when it is loaded again. -/
def comesBack (nd : Node) (scope : Scope) (wrap : Wrap) (nonce : Key → Nonce) (e : Entry) :
    Option Entry :=
  (saved wrap nonce e).bind (offer nd scope wrap)

section RoundTrip
variable {nd : Node} {scope : Scope} {wrap : Wrap} {nonce : Key → Nonce} {e : Entry}

theorem entryRecord_some {key : Key} (hv : keyIsValid key = true) {raw : Bytes}
    {fields : Key × Stamp × UInt8 × Bytes} : entryRecord wrap (entryName key) raw = some fields ↔
      recHeader ≤ raw.length ∧ raw.length ≤ recSize + sealOverhead ∧
      ∃ rec, wrap.read (recName key) raw recSize = .ok rec ∧ recHeader ≤ rec.length ∧
        fields = (key, recStamp rec, rec.getD 16 0, rec.drop recHeader) := by
  unfold entryRecord
  rw [parseEntryKey_entryName]
  simp only [key_of_entryName hv]
  by_cases hlen : raw.length < recHeader ∨ raw.length > recSize + sealOverhead
  · rw [if_pos hlen]
    refine ⟨(fun h => by cases h), fun ⟨hlow, hhigh, _⟩ => ?_⟩
    omega
  have hname : "mtclus/".toList ++ entryName key = recName key := rfl
  rw [hname]
  have hlow : recHeader ≤ raw.length := by omega
  have hhigh : raw.length ≤ recSize + sealOverhead := by omega
  cases wrap.read (recName key) raw recSize with
  | error => simp
  | ok rec =>
    by_cases hrec : rec.length < recHeader
    · simp [hrec, Nat.not_le_of_lt hrec]
    · simp [hrec, hlow, hhigh, Nat.le_of_not_lt hrec, eq_comm]

section
variable {w : Entry} (hv : keyIsValid e.key = true) (h : comesBack nd scope wrap nonce e = some w)
include hv h

theorem comesBack_some : ∃ bytes rec,
      wrap.write (recName e.key) (clusterRec e) (nonce e.key) = .ok bytes ∧
      wrap.read (recName e.key) bytes recSize = .ok rec ∧ recHeader ≤ rec.length ∧
      recordEntry e.key (recStamp rec) (rec.getD 16 0) (rec.drop recHeader) = some w := by
  obtain ⟨r, hsaved, hoffer⟩ := Option.bind_eq_some_iff.mp h
  obtain ⟨bytes, hwrite, rfl⟩ := saved_eq_some.mp hsaved
  obtain ⟨hopen, -⟩ := Option.filter_eq_some_iff.mp hoffer
  obtain ⟨fields, hfields, hrec⟩ := Option.bind_eq_some_iff.mp hopen
  obtain ⟨-, -, rec, hread, hlen, rfl⟩ := (entryRecord_some hv).mp hfields
  exact ⟨bytes, rec, hwrite, hread, hlen, hrec⟩

theorem comesBack_key : w.key = e.key := by
  obtain ⟨_, _, _, _, _, hrec⟩ := comesBack_some hv h
  exact (recordEntry_key hrec).1

end

/-- A row comes back as it is exactly if the wrap keeps its record. -/
theorem comesBack_self_iff (hw : e.wellFormed = true)
    (hsec : sectionShareable e.key.sec = true)
    (hpay : payloadIsItsSection nd e.key.sec e.payload e.tombstone = true)
    (hscope : scope.contains e.key = true) :
    comesBack nd scope wrap nonce e = some e ↔ wrap.keeps e.looksSealed = true := by
  obtain ⟨hlen, -, hv, -⟩ := Entry.wellFormed_iff.mp hw
  rw [← isSealed_clusterRec]
  constructor
  · intro h
    by_contra hlost
    obtain ⟨bytes, rec, hwrite, hread, hhead, hrec⟩ := comesBack_some hv h
    have hshort := Wrap.length_read_write (Bool.eq_false_iff.mpr hlost) hwrite hread
    have hbody := length_of_recordEntry hrec
    rw [length_clusterRec] at hshort
    rw [length_drop] at hbody
    unfold sealOverhead at hshort
    omega
  · intro hkeeps
    obtain ⟨bytes, hwrite, hlow, hhigh, hread⟩ :=
      Wrap.read_write (length_clusterRec_le hlen) hkeeps (recName e.key) (nonce e.key)
    obtain ⟨hstamp, hflags, hdrop⟩ := clusterRec_fields e
    have hhead : recHeader ≤ (clusterRec e).length := by
      rw [length_clusterRec]
      exact Nat.le_add_right _ _
    have hmax := length_clusterRec_le hlen
    have hopen := (@entryRecord_some wrap e.key hv bytes _).mpr
      ⟨Nat.le_trans hhead hlow, Nat.le_trans hhigh (Nat.add_le_add_right hmax _), _, hread, hhead,
        rfl⟩
    rw [hstamp, hflags, hdrop] at hopen
    unfold comesBack offer
    rw [saved_eq_some.mpr ⟨bytes, hwrite, rfl⟩]
    simp only [Option.bind_some, drop_recName, hopen, recordEntry_recFlags hlen,
      Option.filter_some, hsec, hpay, hscope, Bool.and_self, if_true]

/-- A table is rebuilt from what its rows come back as exactly if each comes back as
itself. -/
theorem acceptAll_comesBack_iff {cap : Nat} (d : Doc cap) {ws : List Entry}
    (hws : ws.Perm (d.rows.filterMap (comesBack nd scope wrap nonce))) :
    Doc.acceptAll cap ws = d ↔ ∀ e ∈ d.rows, comesBack nd scope wrap nonce e = some e := by
  have hv : ∀ e ∈ d.rows, keyIsValid e.key = true :=
    fun e he => (Entry.wellFormed_iff.mp (d.wellFormed e he)).2.2.1
  constructor
  · intro heq e he
    have hmem : e ∈ ws := Doc.mem_of_mem_acceptAll (heq ▸ he)
    obtain ⟨x, hx, hback⟩ := mem_filterMap.mp (hws.mem_iff.mp hmem)
    -- only the row of the same key can come back under the key
    have hxe := d.sorted.key_inj hx he (comesBack_key (hv x hx) hback).symm
    exact hxe ▸ hback
  · intro hall
    have hself : d.rows.filterMap (comesBack nd scope wrap nonce) = d.rows := by
      rw [filterMap_congr hall, filterMap_some]
    exact d.acceptAll_rows_perm (hself ▸ hws)

variable (wrap nonce) in
theorem persistAll_eq {cap : Nat} (d : Doc cap) :
    persistAll wrap nonce d.rows = d.rows.filterMap (saved wrap nonce) :=
  foldl_persistEntry wrap nonce d.sorted
    (fun e he => (Entry.wellFormed_iff.mp (d.wellFormed e he)).2.2.1) fun _ _ => not_mem_nil

/-- **Persistence.** Written row by row and loaded in any order into an empty table, the
document is the same exactly if the wrap keeps the record of every row. -/
theorem persist_round_trip_iff (d : Doc nd.maxEntries)
    (hrows : ∀ e ∈ d.rows, sectionShareable e.key.sec = true ∧
      payloadIsItsSection nd e.key.sec e.payload e.tombstone = true)
    {c : State nd} (hempty : c.doc = Doc.init nd.maxEntries)
    (hscope : ∀ e ∈ d.rows, c.myScope.contains e.key = true) (env : Name → Env)
    {recs : List (Name × Bytes)} (hrecs : recs.Perm (persistAll wrap nonce d.rows)) :
    (c.loadSubtree wrap env recs).doc = d ↔ ∀ e ∈ d.rows, wrap.keeps e.looksSealed = true := by
  rw [persistAll_eq] at hrecs
  have hnames : ∀ r ∈ recs, r.1.drop 7 ≠ "scope".toList := by
    intro r hr
    obtain ⟨e, -, hsaved⟩ := mem_filterMap.mp (hrecs.mem_iff.mp hr)
    rw [name_of_saved hsaved, drop_recName]
    exact entryName_ne_scope e.key
  have hws : (recs.filterMap (offer nd c.myScope wrap)).Perm
      (d.rows.filterMap (comesBack nd c.myScope wrap nonce)) := by
    have hperm := hrecs.filterMap (offer nd c.myScope wrap)
    rwa [filterMap_filterMap] at hperm
  rw [loadSubtree_doc c env hnames, hempty]
  refine (acceptAll_comesBack_iff d hws).trans (forall₂_congr fun e he => ?_)
  exact comesBack_self_iff (d.wellFormed e he) (hrows e he).1 (hrows e he).2 (hscope e he)

end RoundTrip

/-- A device section of fifteen bytes, written at a time. -/
def datedWrite (nodeId : UInt32) (ms : Int64) : Entry :=
  ⟨if nodeId = 0 then Key.base 1 else Key.node nodeId 1, ⟨ms, 0, 7⟩, false,
    1 :: replicate 14 0, none⟩

/-- A device with lockdown in its build that was never provisioned. -/
def inactiveWrap : Wrap := .lockdown Lockdown.toyDevice Lockdown.State.blank

def noNonce : Key → Nonce := fun _ => (Lockdown.toyEnv 0).nonce .dek

/-- Two rows, loaded the other way round. -/
theorem persist_round_trip_two :
    ((State.init sampleNode (sampleEnv 0)).loadSubtree inactiveWrap (fun _ => sampleEnv 0)
      (persistAll inactiveWrap noNonce
        (Doc.acceptAll 14 [datedWrite 2 20, datedWrite 0 10]).rows).reverse).doc =
      Doc.acceptAll 14 [datedWrite 2 20, datedWrite 0 10] :=
  (persist_round_trip_iff (Doc.acceptAll sampleNode.maxEntries [datedWrite 2 20, datedWrite 0 10])
    (by decide +kernel) rfl (by decide +kernel) _ (reverse_perm _)).mpr (by decide +kernel)

/-- On that device a row dated so that its record starts like a seal is lost. -/
theorem persist_round_trip_lost :
    (Doc.acceptAll 14 [datedWrite 0 1719283306051]).rows = [datedWrite 0 1719283306051] ∧
    sectionShareable (datedWrite 0 1719283306051).key.sec = true ∧
    payloadIsItsSection sampleNode (datedWrite 0 1719283306051).key.sec
      (datedWrite 0 1719283306051).payload false = true ∧
    ((State.init sampleNode (sampleEnv 0)).loadSubtree inactiveWrap (fun _ => sampleEnv 0)
      (persistAll inactiveWrap noNonce
        (Doc.acceptAll 14 [datedWrite 0 1719283306051]).rows)).doc.rows = [] := by
  decide +kernel

end Zephyrtastic.Cluster
