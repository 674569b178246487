import Zephyrtastic.Lib.Assoc
import Zephyrtastic.Lockdown.Effects

/-!
# The store wrap

Records of the wrapped subtrees go out sealed under the data key and come back
opened; an inactive device passes them through. A disable rewrites the store in
the clear on the workqueue and then removes the artifacts.
-/

namespace Zephyrtastic.Lockdown

open Bytes State

def sealOverhead : Nat := 32
/-- `LD_RAW_MAX`: the largest wrapped plaintext plus the seal. -/
def rawMax : Nat := 256 + sealOverhead
/-- The names a rewrite collects are cut to their buffers. -/
def rewriteNameMax : Nat := 31
/-- The additional data of a seal is cut to its buffer. -/
def sealNameMax : Nat := 87

def nameBytes (name : Name) : Bytes := name.map fun c => UInt8.ofNat c.toNat

def sealAad (name : Name) : Bytes := sealLabel ++ (nameBytes name).take sealNameMax

/-- The blob is long enough for a seal and carries its magic. -/
def isSealed (b : Bytes) : Bool :=
  decide (b.length ≥ sealOverhead) && decide (getLe32 b = magicSeal)

/-- A proper path below a subtree. -/
def child (subtree name : Name) : Bool := (subtree ++ ['/']).isPrefixOf name

/-- Equal to the subtree, or a path below it. -/
def under (subtree name : Name) : Bool :=
  decide (name = subtree) || child subtree name

/-- Subtrees rewritten name by name. -/
def directSubtrees : List Name := ["mtclus".toList, "mtbackup".toList]

/-- One record an owner re-emits during a rewrite, and whether the write of it
succeeds. -/
structure Emission where
  name : Name
  val : Bytes
  nonce : Nonce
  ok : Bool

/-- What a rewrite meets outside: the owners' emissions, and a nonce and an outcome
for the write of each collected name, by subtree and position. -/
structure Outside where
  emissions : List Emission
  nonce : Nat → Nat → Nonce
  ok : Nat → Nat → Bool

section Store
variable (dev : Device)
variable (s : State) (name : Name)

def sealedRec (dek : AesKey) (name : Name) (text : Bytes) (nonce : Nonce) : Bytes :=
  putLe32 magicSeal ++ (nonce.bytes ++ dev.psa.encrypt dek nonce.bytes (sealAad name) text)

/-- `meshtastic_lockdown_seal`. -/
def State.sealRecord (text : Bytes) (cap : Nat) (nonce : Nonce) : Except Errno Bytes :=
  if !s.provisioned then .error .notsup
  else if !s.dekOk then .error .acces
  else if cap < text.length + sealOverhead then .error .msgsize
  else .ok (sealedRec dev s.dek name text nonce)

/-- `meshtastic_lockdown_open`; a text that does not fit the caller's buffer fails
like a bad tag. -/
def State.openRecord (raw : Bytes) (cap : Nat) : Except Errno Bytes :=
  if !isSealed raw then .error .badmsg
  else if !s.provisioned then .error .notsup
  else if !s.dekOk then .error .acces
  else match dev.psa.decrypt s.dek (slice raw 4 nonceLen) (sealAad name) (raw.drop 16) with
    | some text => if text.length ≤ cap then .ok text else .error .badmsg
    | none => .error .badmsg

def State.storeReady : Bool := !s.provisioned || (s.dekOk && !s.reloadPending)

/-- `wrap_write`: the bytes handed to the writer, or the refusal. -/
def State.wrapWrite (val : Bytes) (nonce : Nonce) : Except Errno Bytes :=
  if !s.provisioned || s.sealingOff then .ok val
  else if !s.storeReady then .error .acces
  else s.sealRecord dev name val rawMax nonce

/-- `meshtastic_lockdown_wrap_buf`, into a buffer of the caller's. -/
def State.wrapBuf (val : Bytes) (cap : Nat) (nonce : Nonce) : Except Errno Bytes :=
  if !s.provisioned || s.sealingOff then
    if val.length > cap then .error .msgsize else .ok val
  else if !s.storeReady then .error .acces
  else s.sealRecord dev name val cap nonce

/-- `meshtastic_lockdown_read` of the stored bytes into a buffer of `cap` bytes. -/
def State.readRecord (raw : Bytes) (cap : Nat) : Except Errno Bytes :=
  if raw.length > rawMax then .error .msgsize
  else if !isSealed raw then
    if raw.length > cap then .error .msgsize else .ok raw
  else if !s.provisioned then .error .badmsg
  else if !s.dekOk then .error .acces
  else s.openRecord dev name raw cap

/-- `meshtastic_lockdown_unwrap_buf`, into a buffer of the caller's. -/
def State.unwrapBuf (raw : Bytes) (cap : Nat) : Except Errno Bytes :=
  if !isSealed raw then
    if raw.length > cap then .error .msgsize else .ok raw
  else if !s.provisioned then .error .badmsg
  else if !s.dekOk then .error .acces
  else s.openRecord dev name raw cap

/-- A wrapped write that reaches the backend; `ok` is whether that takes it. Both
`meshtastic_lockdown_export` and `meshtastic_lockdown_save_one` are this. -/
def State.saveOne (val : Bytes) (nonce : Nonce) (ok : Bool) : Except Errno Unit × State :=
  match s.wrapWrite dev name val nonce with
  | .error err => (.error err, s)
  | .ok bytes =>
    if ok then (.ok (), { s with records := Assoc.put name bytes s.records })
    else (.error .io, s)

/-- `rw_collect` over a subtree: the first names, each cut to its buffer. -/
def State.collectNames (subtree : Name) : List Name :=
  (((Assoc.keys s.records).filter (child subtree)).take dev.rewriteMaxNames).map
    fun n => n.take rewriteNameMax

/-- `rw_one`: the record is read back through the first name at or below the
collected one. -/
def State.rwOne (sealing : Bool) (name : Name) (nonce : Nonce) (ok : Bool) : State :=
  match s.records.find? fun r => under name r.1 with
  | none => s
  | some (_, raw) =>
    if raw.length > rawMax then s
    else if isSealed raw = sealing then s
    else match (if sealing then s.sealRecord dev name raw rawMax nonce
        else s.openRecord dev name raw rawMax) with
      | .error _ => s
      | .ok out => if ok then { s with records := Assoc.put name out s.records } else s

/-- The collected names of one subtree, from position `k` on. -/
def State.rwNames (sealing : Bool) (nonce : Nat → Nonce) (ok : Nat → Bool) :
    List Name → Nat → State → State
  | [], _, s => s
  | name :: rest, k, s =>
    rwNames sealing nonce ok rest (k + 1) (s.rwOne dev sealing name (nonce k) (ok k))

def State.rwSubtrees (sealing : Bool) (out : Outside) : List Name → Nat → State → State
  | [], _, s => s
  | subtree :: rest, i, s =>
    rwSubtrees sealing out rest (i + 1)
      (State.rwNames dev sealing (out.nonce i) (out.ok i) (s.collectNames dev subtree) 0 s)

/-- The owners re-emit what they hold, in the mode in force. -/
def State.emitAll (es : List Emission) : State :=
  es.foldl (fun s e => (s.saveOne dev e.name e.val e.nonce e.ok).2) s

def State.rewriteAll (sealing : Bool) (out : Outside) : State :=
  State.rwSubtrees dev sealing out directSubtrees 0 (s.emitAll dev out.emissions)

/-- `rewrite_work_fn`. What failed is only logged. -/
def State.rewriteWork (out : Outside) : Option Event × State :=
  if s.sealingOff then
    (some .disabled, { (s.rewriteAll dev false out).removeArtifacts with
      sealingOff := false, disableDone := true, rewritePending := false })
  else (none, { s.rewriteAll dev true out with rewritePending := false })

/-- `reload_work_fn` around the reload itself. -/
def State.reloadWork : Event × State :=
  (.reloaded, { s with reloadPending := false, needsReload := false })

/-- The disable was authorized: the plaintext rewrite is queued. -/
def State.startDisable : State :=
  { s with disableDone := false, sealingOff := true, rewritePending := true }.submit .rewrite

/-- The passphrase check of a disable on an unlocked device: no gate, no
reservation, and the key in use is kept. -/
def State.provePassphrase (passphrase : Bytes) : Bool :=
  match dev.psa.pbkdf2 passphrase (dekIters s.recDek) with
  | none => false
  | some kek => (loadDek dev kek s.recDek).toBool

def State.disable (env : Env) (passphrase : Bytes) : Except Errno Unit × State :=
  if !s.provisioned then (.error .noent, s)
  else if s.rewritePending || s.reloadPending then (.error .busy, s)
  else if !s.dekOk || s.needsReload then
    match s.unlock dev env passphrase 0 0 0 with
    | (.error err, s) => (.error err, s)
    | (.ok _, s) => (.ok (), s.startDisable)
  else if s.provePassphrase dev passphrase then (.ok (), s.startDisable)
  else (.error .acces, s)

/-- The next item of the system workqueue. -/
def State.runWork (out : Outside) : Option Event × State :=
  match s.queue with
  | [] => (none, s)
  | .reload :: rest =>
    let r := { s with queue := rest }.reloadWork
    (some r.1, r.2)
  | .rewrite :: rest => { s with queue := rest }.rewriteWork dev out

/-- A `LockdownAuth` message. -/
structure Auth where
  passphrase : Bytes
  bootsRemaining : UInt32
  validUntilEpoch : UInt32
  maxSessionSeconds : UInt32
  lockNow : Bool
  disable : Bool

/-- `handle_auth` and the passphrase job it queues; none where the message is
refused before the core is asked. -/
def State.auth (env : Env) (authorized : Bool) (la : Auth) : Option (Except Errno Unit) × State :=
  if la.lockNow then
    if !(authorized || !s.provisioned) || !s.provisioned then (none, s)
    else (some (.ok ()), s.lockNow.2)
  else if la.disable && !s.provisioned then (none, s)
  else if !passphraseFits la.passphrase then (none, s)
  else if la.bootsRemaining > 255 then (none, s)
  else
    let r := if la.disable then s.disable dev env la.passphrase
      else if !s.provisioned then
        s.provision dev env la.passphrase la.bootsRemaining.toUInt8 la.validUntilEpoch
          la.maxSessionSeconds
      else s.unlock dev env la.passphrase la.bootsRemaining.toUInt8 la.validUntilEpoch
          la.maxSessionSeconds
    (some r.1, r.2)

variable {dev}
variable (s : State) (sealing : Bool)

/-- Only the stored records may differ. -/
def State.OnlyRecords (s s' : State) : Prop := ∃ records, s' = { s with records }

theorem State.OnlyRecords.refl : s.OnlyRecords s := ⟨s.records, rfl⟩

theorem State.OnlyRecords.trans {a b c : State} (hab : a.OnlyRecords b) (hbc : b.OnlyRecords c) :
    a.OnlyRecords c := by
  obtain ⟨_, rfl⟩ := hab
  obtain ⟨records, rfl⟩ := hbc
  exact ⟨records, rfl⟩

theorem saveOne_onlyRecords (name : Name) (val : Bytes) (nonce : Nonce) (ok : Bool) :
    s.OnlyRecords (s.saveOne dev name val nonce ok).2 := by
  unfold saveOne
  split
  · exact .refl s
  · split
    · exact ⟨_, rfl⟩
    · exact .refl s

theorem rwOne_onlyRecords (name : Name) (nonce : Nonce) (ok : Bool) :
    s.OnlyRecords (s.rwOne dev sealing name nonce ok) := by
  unfold rwOne
  repeat' split
  all_goals first | exact .refl s | exact ⟨_, rfl⟩

theorem rwNames_onlyRecords (nonce : Nat → Nonce) (ok : Nat → Bool)
    (names : List Name) (k : Nat) (s : State) :
    s.OnlyRecords (rwNames dev sealing nonce ok names k s) := by
  induction names generalizing k s with
  | nil => exact .refl s
  | cons name rest ih => exact (rwOne_onlyRecords s sealing name _ _).trans (ih _ _)

theorem rwSubtrees_onlyRecords (out : Outside) (subtrees : List Name) (i : Nat)
    (s : State) : s.OnlyRecords (rwSubtrees dev sealing out subtrees i s) := by
  induction subtrees generalizing i s with
  | nil => exact .refl s
  | cons subtree rest ih => exact (rwNames_onlyRecords sealing _ _ _ 0 s).trans (ih _ _)

theorem emitAll_onlyRecords (es : List Emission) (s : State) :
    s.OnlyRecords (s.emitAll dev es) := by
  induction es generalizing s with
  | nil => exact .refl s
  | cons e rest ih => exact (saveOne_onlyRecords s e.name e.val e.nonce e.ok).trans (ih _)

theorem rewriteAll_onlyRecords (out : Outside) : s.OnlyRecords (s.rewriteAll dev sealing out) :=
  (emitAll_onlyRecords out.emissions s).trans (rwSubtrees_onlyRecords sealing out _ 0 _)

/-- The ways the workqueue can move on. -/
inductive State.Worked (s : State) : Option Event × State → Prop where
  | idle (h : s.queue = []) : Worked s (none, s)
  | reloaded (rest : List Work) (h : s.queue = .reload :: rest) :
      Worked s (some .reloaded,
        { s with queue := rest, reloadPending := false, needsReload := false })
  | sealed (rest : List Work) (h : s.queue = .rewrite :: rest) (hmode : s.sealingOff = false)
      (records : List (Name × Bytes)) :
      Worked s (none, { s with queue := rest, records, rewritePending := false })
  | disabled (rest : List Work) (h : s.queue = .rewrite :: rest) (hmode : s.sealingOff = true)
      (records : List (Name × Bytes)) :
      Worked s (some .disabled, { { s with queue := rest, records }.removeArtifacts with
        sealingOff := false, disableDone := true, rewritePending := false })

theorem runWork_worked (out : Outside) : s.Worked (s.runWork dev out) := by
  unfold runWork
  split
  · next h => exact .idle h
  · next rest h => exact .reloaded rest h
  next rest h =>
  unfold rewriteWork
  split
  · next hmode =>
    obtain ⟨records, hr⟩ := @rewriteAll_onlyRecords dev { s with queue := rest } false out
    rw [hr]
    exact .disabled rest h hmode records
  · next hmode =>
    obtain ⟨records, hr⟩ := @rewriteAll_onlyRecords dev { s with queue := rest } true out
    rw [hr]
    exact .sealed rest h (Bool.eq_false_iff.mpr hmode) records

variable (dev) in
/-- The ways a disable can be received. -/
inductive State.Disabled (env : Env) (passphrase : Bytes) : Except Errno Unit × State → Prop where
  | refused (err : Errno) (herr : err ≠ .acces)
      (h : s.provisioned = false ∨ s.rewritePending = true ∨ s.reloadPending = true) :
      Disabled env passphrase (.error err, s)
  | locked (err : Errno) (s' : State) (hidle : s.rewritePending = false ∧ s.reloadPending = false)
      (h : s.dekOk = false ∨ s.needsReload = true)
      (hu : s.Unlocked dev env passphrase 0 0 0 (.error err, s')) :
      Disabled env passphrase (.error err, s')
  | opened (s' : State) (hidle : s.rewritePending = false ∧ s.reloadPending = false)
      (h : s.dekOk = false ∨ s.needsReload = true)
      (hu : s.Unlocked dev env passphrase 0 0 0 (.ok (), s')) :
      Disabled env passphrase (.ok (), s'.startDisable)
  | proved (hprov : s.provisioned = true)
      (hidle : s.rewritePending = false ∧ s.reloadPending = false)
      (h : s.dekOk = true ∧ s.needsReload = false)
      (hp : s.provePassphrase dev passphrase = true) :
      Disabled env passphrase (.ok (), s.startDisable)
  | denied (hprov : s.provisioned = true)
      (hidle : s.rewritePending = false ∧ s.reloadPending = false)
      (h : s.dekOk = true ∧ s.needsReload = false)
      (hp : s.provePassphrase dev passphrase = false) : Disabled env passphrase (.error .acces, s)

theorem disable_disabled (env : Env) (passphrase : Bytes) :
    s.Disabled dev env passphrase (s.disable dev env passphrase) := by
  unfold disable
  split
  · next h => exact .refused .noent (by decide) (.inl (by simpa using h))
  next hprov =>
  have hprov : s.provisioned = true := by simpa using hprov
  split
  · next h => exact .refused .busy (by decide) (.inr (by simpa using h))
  next hidle =>
  have hidle : s.rewritePending = false ∧ s.reloadPending = false := by simpa using hidle
  split
  · next h =>
    have h : s.dekOk = false ∨ s.needsReload = true := by simpa using h
    have hu : s.Unlocked dev env passphrase 0 0 0 _ := unlock_unlocked s env passphrase 0 0 0
    split
    · next hr => exact .locked _ _ hidle h (hr ▸ hu)
    · next hr => exact .opened _ hidle h (hr ▸ hu)
  · next h =>
    have h : s.dekOk = true ∧ s.needsReload = false := by simpa using h
    split
    · next hp => exact .proved hprov hidle h hp
    · next hp => exact .denied hprov hidle h (Bool.eq_false_iff.mpr hp)

/-- A value written now comes back as it is: in the clear if it does not look sealed,
sealed if the store is ready. -/
def State.keeps (looksSealed : Bool) : Bool :=
  if !s.provisioned || s.sealingOff then !looksSealed else s.storeReady

section
variable (dek : AesKey) (name : Name) (text : Bytes) (nonce : Nonce)

theorem length_sealedRec :
    (sealedRec dev dek name text nonce).length = text.length + sealOverhead := by
  simp only [sealedRec, List.length_append, length_putLe32, nonce.length_eq,
    dev.psa.length_encrypt, nonceLen, tagLen, sealOverhead]
  omega

theorem isSealed_sealedRec : isSealed (sealedRec dev dek name text nonce) = true := by
  have hlen : (sealedRec dev dek name text nonce).length ≥ sealOverhead := by
    rw [length_sealedRec]
    exact Nat.le_add_left _ _
  have hmagic : getLe32 (sealedRec dev dek name text nonce) = magicSeal := getLe32_putLe32 _ _
  simp [isSealed, hlen, hmagic]

end

variable {cap : Nat} {s : State} {text : Bytes}

theorem unwrapBuf_sealedRec (hp : s.provisioned = true) (hd : s.dekOk = true)
    (name name' : Name) (nonce : Nonce) :
    s.unwrapBuf dev name' (sealedRec dev s.dek name text nonce) cap =
      match dev.psa.decrypt s.dek nonce.bytes (sealAad name')
          (dev.psa.encrypt s.dek nonce.bytes (sealAad name) text) with
      | some text => if text.length ≤ cap then .ok text else .error .badmsg
      | none => .error .badmsg := by
  have hnonce : slice (sealedRec dev s.dek name text nonce) 4 nonceLen = nonce.bytes := by
    rw [sealedRec, slice_append_right (n := 0) (by simp), slice_append_left nonce.length_eq]
  have hct : (sealedRec dev s.dek name text nonce).drop 16 =
      dev.psa.encrypt s.dek nonce.bytes (sealAad name) text := by
    have hlen : (putLe32 magicSeal ++ nonce.bytes).length = 16 := by
      rw [List.length_append, nonce.length_eq]
      rfl
    rw [sealedRec, ← List.append_assoc, List.drop_left' hlen]
  unfold unwrapBuf openRecord
  simp only [isSealed_sealedRec, hp, hd, Bool.not_true, Bool.false_eq_true, if_false, hnonce, hct]

/-- The bytes a wrapped write hands on. -/
def State.wrapped (dev : Device) (s : State) (name : Name) (val : Bytes) (nonce : Nonce) : Bytes :=
  if !s.provisioned || s.sealingOff then val else sealedRec dev s.dek name val nonce

section
variable {val : Bytes} (h : ¬(!s.provisioned || s.sealingOff) = true → s.storeReady = true)
  (name : Name) (nonce : Nonce)
include h

theorem unlocked_of_ready (hclear : ¬(!s.provisioned || s.sealingOff) = true) :
    s.storeReady = true ∧ s.provisioned = true ∧ s.dekOk = true := by
  have hready := h hclear
  cases hp : s.provisioned <;> simp_all [storeReady]

theorem wrapBuf_wrapped (cap : Nat) :
    s.wrapBuf dev name val cap nonce = .ok (s.wrapped dev name val nonce) ∨
      cap < val.length + sealOverhead ∧ s.wrapBuf dev name val cap nonce = .error .msgsize := by
  unfold wrapBuf wrapped
  split
  · split
    · next hlong => exact .inr ⟨Nat.lt_add_right _ hlong, rfl⟩
    · exact .inl rfl
  next hclear =>
  obtain ⟨hready, hp, hd⟩ := unlocked_of_ready h hclear
  simp only [hready, sealRecord, hp, hd, Bool.not_true, Bool.false_eq_true, if_false]
  split
  · next hlong => exact .inr ⟨hlong, rfl⟩
  · exact .inl rfl

theorem wrapWrite_wrapped (hfit : val.length + sealOverhead ≤ rawMax) :
    s.wrapWrite dev name val nonce = .ok (s.wrapped dev name val nonce) := by
  have hbuf := (@wrapBuf_wrapped dev s val h name nonce rawMax).resolve_right
    fun hno => Nat.not_lt_of_le hfit hno.1
  rwa [wrapBuf, if_neg (Nat.not_lt_of_le (Nat.le_of_add_right_le hfit))] at hbuf

theorem unwrapBuf_wrapped (hcap : val.length ≤ cap)
    (hplain : (!s.provisioned || s.sealingOff) = true → isSealed val = false) :
    s.unwrapBuf dev name (s.wrapped dev name val nonce) cap = .ok val := by
  unfold wrapped
  split
  · next hclear =>
    simp only [unwrapBuf, hplain hclear, Bool.not_false, Nat.not_lt_of_le hcap, if_true, if_false]
  next hclear =>
  obtain ⟨-, hp, hd⟩ := unlocked_of_ready h hclear
  rw [unwrapBuf_sealedRec hp hd, dev.psa.decrypt_encrypt]
  exact if_pos hcap

end

theorem keeps_iff {looksSealed : Bool} : s.keeps looksSealed = true ↔
    ((!s.provisioned || s.sealingOff) = true → looksSealed = false) ∧
      (¬(!s.provisioned || s.sealingOff) = true → s.storeReady = true) := by
  unfold keeps
  split <;> simp_all

theorem readRecord_eq {raw : Bytes} (hraw : raw.length ≤ rawMax) (name : Name) :
    s.readRecord dev name raw cap = s.unwrapBuf dev name raw cap :=
  if_neg (Nat.not_lt_of_le hraw)

theorem length_wrapped (val : Bytes) (name : Name) (nonce : Nonce) :
    val.length ≤ (s.wrapped dev name val nonce).length ∧
      (s.wrapped dev name val nonce).length ≤ val.length + sealOverhead := by
  unfold wrapped
  split
  · omega
  · rw [length_sealedRec]
    omega

theorem readRecord_wrapWrite {val : Bytes} (hval : val.length ≤ cap)
    (hfit : val.length + sealOverhead ≤ rawMax) (h : s.keeps (isSealed val) = true) (name : Name)
    (nonce : Nonce) : ∃ bytes, s.wrapWrite dev name val nonce = .ok bytes ∧
      val.length ≤ bytes.length ∧ bytes.length ≤ val.length + sealOverhead ∧
      s.readRecord dev name bytes cap = .ok val := by
  obtain ⟨hlo, hhi⟩ := @length_wrapped dev s val name nonce
  obtain ⟨hplain, hready⟩ := keeps_iff.mp h
  refine ⟨_, wrapWrite_wrapped hready name nonce hfit, hlo, hhi, ?_⟩
  rw [readRecord_eq (Nat.le_trans hhi hfit)]
  exact unwrapBuf_wrapped hready name nonce hval hplain

theorem length_of_readRecord_sealed {name : Name} {raw : Bytes}
    (hs : isSealed raw = true) (hr : s.readRecord dev name raw cap = .ok text) :
    text.length + sealOverhead = raw.length := by
  have hlong : raw.length ≥ sealOverhead := by
    simp only [isSealed, Bool.and_eq_true, decide_eq_true_eq] at hs
    exact hs.1
  have hopen : s.openRecord dev name raw cap = .ok text := by
    unfold readRecord at hr
    simp only [hs, Bool.not_true, Bool.false_eq_true, if_false] at hr
    repeat' split at hr
    all_goals first | cases hr | exact hr
  have hdec : dev.psa.decrypt s.dek (slice raw 4 nonceLen) (sealAad name) (raw.drop 16) =
      some text := by
    unfold openRecord at hopen
    repeat' split at hopen
    all_goals cases hopen
    assumption
  have hlen := dev.psa.length_decrypt hdec
  simp only [List.length_drop, tagLen, sealOverhead] at hlen hlong ⊢
  omega

/-- What a wrapped write did not keep is not stored, or is read back shorter if at
all. -/
theorem length_readRecord_wrapWrite {val bytes : Bytes}
    (h : s.keeps (isSealed val) = false) {name : Name} {nonce : Nonce}
    (hw : s.wrapWrite dev name val nonce = .ok bytes)
    (hr : s.readRecord dev name bytes cap = .ok text) :
    text.length + sealOverhead = val.length := by
  unfold keeps at h
  unfold wrapWrite at hw
  split at h
  · next hclear =>
    rw [if_pos hclear] at hw
    obtain rfl := Except.ok.inj hw
    exact length_of_readRecord_sealed (by simpa using h) hr
  · next hclear =>
    rw [if_neg hclear, h] at hw
    cases hw

/-- **Wrapped records round trip.** Either reader gives back a value that fits exactly when
it does not go out in the clear looking sealed. A sealed record is refused under another name,
when its ciphertext does not open under other additional data. -/
theorem wrapped_reads_back (val : Bytes) (hfit : val.length + sealOverhead ≤ rawMax)
    (hready : s.storeReady = true) (name : Name) (nonce : Nonce) :
    ∃ bytes, s.wrapWrite dev name val nonce = .ok bytes ∧
      (∀ room, s.wrapBuf dev name val room nonce = .ok bytes ∨
        room < val.length + sealOverhead ∧
          s.wrapBuf dev name val room nonce = .error .msgsize) ∧
      ((∀ cap, val.length ≤ cap → s.readRecord dev name bytes cap = .ok val ∧
          s.unwrapBuf dev name bytes cap = .ok val) ↔
        ((!s.provisioned || s.sealingOff) = true → isSealed val = false)) ∧
      ∀ name' cap, s.provisioned = true → s.sealingOff = false → name.length ≤ sealNameMax →
        name'.length ≤ sealNameMax → nameBytes name' ≠ nameBytes name →
        (sealAad name' ≠ sealAad name → dev.psa.decrypt s.dek nonce.bytes (sealAad name')
          (dev.psa.encrypt s.dek nonce.bytes (sealAad name) val) = none) →
        s.readRecord dev name' bytes cap = .error .badmsg ∧
          s.unwrapBuf dev name' bytes cap = .error .badmsg := by
  have hr : ¬(!s.provisioned || s.sealingOff) = true → s.storeReady = true := fun _ => hready
  have hraw : (s.wrapped dev name val nonce).length ≤ rawMax :=
    Nat.le_trans (length_wrapped val name nonce).2 hfit
  have hwrite := @wrapWrite_wrapped dev s val hr name nonce hfit
  refine ⟨_, hwrite, wrapBuf_wrapped hr name nonce, ⟨?_, ?_⟩, ?_⟩
  · intro hback hclear
    cases hs : isSealed val with
    | false => rfl
    | true =>
      have hkeeps : s.keeps (isSealed val) = false := by simp [keeps, hclear, hs]
      have hlen := length_readRecord_wrapWrite hkeeps hwrite (hback _ (Nat.le_refl _)).1
      simp [sealOverhead] at hlen
  · intro hplain cap hcap
    rw [readRecord_eq hraw]
    exact ⟨unwrapBuf_wrapped hr name nonce hcap hplain, unwrapBuf_wrapped hr name nonce hcap hplain⟩
  · intro name' cap hp hsealing hname hname' hne hforged
    have hclear : ¬(!s.provisioned || s.sealingOff) = true := by simp [hp, hsealing]
    have haad : sealAad name' ≠ sealAad name := by
      rw [sealAad, sealAad, List.take_of_length_le (by simpa [nameBytes] using hname'),
        List.take_of_length_le (by simpa [nameBytes] using hname)]
      exact fun heq => hne (List.append_cancel_left heq)
    rw [readRecord_eq hraw, wrapped, if_neg hclear,
      unwrapBuf_sealedRec hp (unlocked_of_ready hr hclear).2.2, hforged haad]
    exact ⟨rfl, rfl⟩

end Store

/-- On a stock device a value that begins with the seal's magic is refused when read back. -/
theorem wrapped_reads_back_magic :
    let val := putLe32 magicSeal ++ List.replicate 28 0
    let name := "mtrec/a".toList
    let nonce : Nonce := ⟨List.replicate nonceLen 0, rfl⟩
    State.blank.storeReady = true ∧ val.length + sealOverhead ≤ rawMax ∧
      State.blank.wrapWrite toyDevice name val nonce = .ok val ∧
      State.blank.readRecord toyDevice name val 256 = .error .badmsg ∧
      State.blank.unwrapBuf toyDevice name val 256 = .error .badmsg := by
  decide +kernel

theorem wrapped_reads_back_active :
    let s : State := { State.blank with provisioned := true, dekOk := true }
    ∃ bytes, s.wrapWrite toyDevice ['a'] [1, 2, 3] ⟨List.replicate nonceLen 0, rfl⟩ = .ok bytes ∧
      s.readRecord toyDevice ['a'] bytes 3 = .ok [1, 2, 3] ∧
      s.readRecord toyDevice ['b'] bytes 3 = .error .badmsg := by
  intro s
  obtain ⟨bytes, hwrite, -, hback, hother⟩ := @wrapped_reads_back toyDevice s [1, 2, 3] (by decide)
    (by decide) ['a'] ⟨List.replicate nonceLen 0, rfl⟩
  exact ⟨bytes, hwrite, (hback.mpr (by decide) 3 (by decide)).1,
    (hother ['b'] 3 rfl rfl (by decide) (by decide) (by decide) (by decide)).1⟩

end Zephyrtastic.Lockdown
