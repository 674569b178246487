import Zephyrtastic.Lockdown.Record

/-!
# The lockdown core

The device's RAM and the records it keeps in flash, and what boot, provisioning,
unlocking, locking and the session timer do to them. Record writes succeed here,
and so do the crypto calls apart from the passphrase derivation.
-/

namespace Zephyrtastic.Lockdown

/-- A settings name. -/
abbrev Name := List Char

/-- The work items of the core, in the order the system workqueue runs them. -/
inductive Work where
  | reload | rewrite
  deriving DecidableEq, Repr

/-- The random draws one call can make. -/
inductive Draw where
  | dek | token | mono | monoSeen | reserve | clear | bump
  deriving DecidableEq, Repr

/-- What one call reads of the outside. -/
structure Env where
  /-- `now_epoch`: seconds, zero without a valid clock. -/
  epoch : UInt32
  nonce : Draw → Nonce
  newDek : AesKey

inductive Event where
  | locked | reloaded | disabled | sessionRolled | sessionExhausted
  deriving DecidableEq, Repr

/-- The records in flash, and `ld`. -/
structure State where
  recDek : Option Bytes
  recToken : Option Bytes
  recMono : Option Bytes
  recBackoff : Option Bytes
  /-- The records of the wrapped subtrees, in the order the backend walks them. -/
  records : List (Name × Bytes)
  uptimeMs : Nat
  dek : AesKey
  dekOk : Bool
  provisioned : Bool
  lockReason : LockReason
  bootsRemaining : UInt8
  validUntil : UInt32
  sessionMaxMs : UInt32
  sessionStartedMs : Nat
  /-- When the session work item is due. -/
  sessionDue : Option Nat
  backoffRemainingS : Nat
  /-- Uptime of the last wrong passphrase of this boot, zero for none. -/
  lastFailMs : Nat
  needsReload : Bool
  reloadPending : Bool
  rewritePending : Bool
  sealingOff : Bool
  disableDone : Bool
  queue : List Work

def passphraseMax : Nat := 32
def backoffCapS : Nat := 900

/-- `5, 10, 20, ...` up to the cap; the doublings still to make, and the delay. -/
def backoffDoubled : Nat → Nat → Nat
  | 0, delay => delay
  | n + 1, delay => if delay * 2 ≥ backoffCapS then backoffCapS else backoffDoubled n (delay * 2)

def backoffDelay (attempts : UInt8) : Nat :=
  if attempts = 0 then 0 else backoffDoubled (attempts.toNat - 1) 5

/-- How many boots stand for a delay. -/
def bootsNeeded (delay : Nat) : Nat :=
  let boots := min 255 ((delay + 4) / 5)
  if boots = 0 then 1 else boots

section Core
variable (dev : Device)
variable (s : State) (env : Env) (passphrase : Bytes) (boots : UInt8)
variable (validUntil sessionS : UInt32)
variable (b : Backoff) (delay : Nat)

/-- A device fresh from the factory. -/
def State.blank : State where
  recDek := none
  recToken := none
  recMono := none
  recBackoff := none
  records := []
  uptimeMs := 0
  dek := .zero
  dekOk := false
  provisioned := false
  lockReason := .notProvisioned
  bootsRemaining := 0
  validUntil := 0
  sessionMaxMs := 0
  sessionStartedMs := 0
  sessionDue := none
  backoffRemainingS := 0
  lastFailMs := 0
  needsReload := false
  reloadPending := false
  rewritePending := false
  sealingOff := false
  disableDone := false
  queue := []

def State.mono : UInt32 := readMono dev s.recMono
def State.backoff : Backoff := readBackoff dev s.recBackoff

def State.writeMono (counter : UInt32) (nonce : Nonce) : State :=
  { s with recMono := some (monoRec dev counter nonce) }

def State.writeBackoff (nonce : Nonce) : State :=
  { s with recBackoff := some (backoffRec dev b nonce) }

def State.clearBackoff : State :=
  { s.writeBackoff dev .none (env.nonce .clear) with backoffRemainingS := 0, lastFailMs := 0 }

/-- The token takes the next counter, which is recorded after it. -/
def State.writeToken : State :=
  { s with recToken := some (tokenRec dev s.dek ⟨boots, validUntil, sessionS, s.mono dev + 1⟩
      (env.nonce .token)) }.writeMono dev (s.mono dev + 1) (env.nonce .mono)

def State.deleteToken : State := { s with recToken := none }

/-- The cap in milliseconds is kept in 32 bits, and zero is no cap. -/
def State.setSession (maxS : UInt32) : State :=
  { s with
    sessionMaxMs := maxS * 1000
    sessionStartedMs := s.uptimeMs
    sessionDue := if maxS ≠ 0 then some (s.uptimeMs + dev.kSeconds maxS) else none }

/-- A token that fails its checks is deleted and named. -/
def State.refuseToken (reason : LockReason) : State :=
  { s.deleteToken with dek := .zero, lockReason := reason }

/-- The token expired; without a clock the boot count rules. -/
def TokenMeta.expired (m : TokenMeta) (env : Env) : Bool :=
  decide (m.validUntil ≠ 0) && decide (env.epoch ≠ 0) && decide (env.epoch > m.validUntil)

/-- The part of `consume_token` after every check passed. -/
def State.acceptToken (dek : AesKey) (m : TokenMeta) : State :=
  let s := { s with
    dek, dekOk := true, bootsRemaining := m.boots - 1, validUntil := m.validUntil }
  let s := if s.bootsRemaining = 0 then s.deleteToken
    else s.writeToken dev env s.bootsRemaining m.validUntil m.sessionS
  { s.setSession dev m.sessionS with lockReason := .ok }

/-- A counter ahead of the stored one is recorded. -/
def State.noteMono (counter : UInt32) : State :=
  if counter > s.mono dev then s.writeMono dev counter (env.nonce .monoSeen) else s

def State.consumeToken : Bool × State :=
  match s.recToken with
  | none => (false, { s with lockReason := .tokenMissing })
  | some rec =>
    match openToken dev rec with
    | .error .tokenHmacFail => (false, s.refuseToken .tokenHmacFail)
    | .error reason => (false, { s.deleteToken with lockReason := reason })
    | .ok (dek, m) =>
      if m.mono < s.mono dev then (false, s.refuseToken .tokenRollback)
      else
        let s := s.noteMono dev env m.mono
        if m.boots = 0 then (false, s.refuseToken .tokenBootsZero)
        else if m.expired env then (false, s.refuseToken .tokenExpired)
        else (true, s.acceptToken dev env dek m)

def State.bumpBootsSinceFail : State :=
  let b := s.backoff dev
  if b.attempts = 0 ∨ b.attempts = backoffMaxAttempts then s
  else s.writeBackoff dev { b with
    bootsSinceFail := if b.bootsSinceFail < 255 then b.bootsSinceFail + 1 else b.bootsSinceFail }
    (env.nonce .bump)

/-- `meshtastic_lockdown_reset`: only flash, uptime and the workqueue are left. -/
def State.reset : State :=
  { State.blank with
    recDek := s.recDek
    recToken := s.recToken
    recMono := s.recMono
    recBackoff := s.recBackoff
    records := s.records
    uptimeMs := s.uptimeMs
    queue := s.queue }

def State.init : State :=
  let s := s.reset
  if s.recDek.isSome then
    let r := ({ s with provisioned := true }.bumpBootsSinceFail dev env).consumeToken dev env
    if r.1 then r.2 else { r.2 with needsReload := true }
  else s

/-- A reboot, up to the end of the core's init. -/
def State.boot : State :=
  { s with uptimeMs := 0, queue := [] }.init dev env

def bootsOrDefault : UInt8 :=
  if boots ≠ 0 then boots else dev.defaultBoots

def sessionOrDefault (sessionS : UInt32) : UInt32 :=
  if sessionS ≠ 0 then sessionS else dev.sessionDefaultSeconds

/-- `k_work_submit`: an item already queued stays where it is. -/
def State.submit (w : Work) : State :=
  { s with queue := if w ∈ s.queue then s.queue else s.queue ++ [w] }

/-- The passphrase was right, or is the new one: forget the failures, issue a token
and start a session. -/
def State.grant : State :=
  let boots := bootsOrDefault dev boots
  let sessionS := sessionOrDefault dev sessionS
  let s := (s.clearBackoff dev env).writeToken dev env boots validUntil sessionS
  { ({ s with dekOk := true, bootsRemaining := boots, validUntil }.setSession dev sessionS) with
    lockReason := .ok }

def passphraseFits : Bool :=
  decide (passphrase.length ≠ 0) && decide (passphrase.length ≤ passphraseMax)

def State.provision : Except Errno Unit × State :=
  if !passphraseFits passphrase then (.error .inval, s)
  else if s.provisioned then (.error .already, s)
  else match dev.psa.pbkdf2 passphrase dev.pbkdf2Iterations with
    | none => (.error .io, { s with dek := .zero })
    | some kek =>
      let s := { s with
        dek := env.newDek
        recDek := some (dekRec dev kek env.newDek dev.pbkdf2Iterations (env.nonce .dek))
        provisioned := true }
      (.ok (), { s.grant dev env boots validUntil sessionS with
        sealingOff := false, rewritePending := true }.submit .rewrite)

/-- The wait the uptime still asks for. -/
def State.uptimeWait : Nat :=
  if s.lastFailMs ≠ 0 then delay - (s.uptimeMs - s.lastFailMs) / 1000 % 2 ^ 32 else 0

/-- The wait the wall clock still asks for, when there is one. -/
def epochWait : Nat :=
  if env.epoch ≠ 0 ∧ b.lastFailEpoch ≠ 0 ∧ env.epoch ≥ b.lastFailEpoch then
    delay - (env.epoch.toNat - b.lastFailEpoch.toNat)
  else 0

/-- The wait still to be made in boots, at five seconds each. -/
def bootsWait : Nat :=
  (bootsNeeded delay - b.bootsSinceFail.toNat) * 5

/-- The backoff gate: the longest of the three waits. -/
def State.backoffGate : Nat :=
  let b := s.backoff dev
  let delay := backoffDelay b.attempts
  if b.attempts > 0 then max (max (s.uptimeWait delay) (epochWait env b delay)) (bootsWait b delay)
  else 0

/-- The attempt as it is reserved before the check, so that a power cut counts. -/
def State.reserved : Backoff :=
  let attempts := (s.backoff dev).attempts
  ⟨if attempts < backoffMaxAttempts then attempts + 1 else attempts, 0, env.epoch⟩

/-- A wrong passphrase: the failure is dated, and a key that did not unwrap is
wiped. -/
def State.failed (err : Errno) (attempts : UInt8) : State :=
  { s with
    dek := if err = .acces then .zero else s.dek
    lastFailMs := if s.uptimeMs = 0 then 1 else s.uptimeMs
    backoffRemainingS := backoffDelay attempts }

/-- The first half of `meshtastic_lockdown_unlock`: the gate, the reservation and
the check. -/
def State.verify : Except Errno Unit × State :=
  if !passphraseFits passphrase then (.error .inval, s)
  else if !s.provisioned then (.error .noent, s)
  else if s.backoffGate dev env > 0 then
    (.error .again, { s with backoffRemainingS := s.backoffGate dev env })
  else
    let s := { s with backoffRemainingS := 0 }
    match dev.psa.pbkdf2 passphrase (dekIters s.recDek) with
    | none => (.error .io, s)
    | some kek =>
      let b := s.reserved dev env
      let s := s.writeBackoff dev b (env.nonce .reserve)
      match loadDek dev kek s.recDek with
      | .error err => (.error .acces, s.failed err b.attempts)
      | .ok dek => (.ok (), { s with dek })

/-- A boot that loaded placeholders owes a reload. -/
def State.armReload : State :=
  if s.needsReload then { s with reloadPending := true }.submit .reload else s

def State.unlock : Except Errno Unit × State :=
  match s.verify dev env passphrase with
  | (.error err, s) => (.error err, s)
  | (.ok _, s) => (.ok (), (s.grant dev env boots validUntil sessionS).armReload)

def State.lockNowQuiet : State :=
  { s.deleteToken with
    sessionDue := none
    dek := .zero
    dekOk := false
    sessionMaxMs := 0
    sessionStartedMs := 0
    bootsRemaining := 0
    validUntil := 0
    lockReason := .tokenMissing }

/-- `meshtastic_lockdown_lock_now`; the listener hears of it. -/
def State.lockNow : Event × State := (.locked, s.lockNowQuiet)

def State.removeArtifacts : State :=
  let s := { s with recDek := none, recToken := none, recMono := none, recBackoff := none }
  { s.lockNowQuiet with provisioned := false, lockReason := .notProvisioned }

def State.consumeSessionBoot : State :=
  if s.bootsRemaining = 0 then s
  else
    let newBoots := s.bootsRemaining - 1
    let sessionS := s.sessionMaxMs / 1000
    let s := if newBoots = 0 then s.deleteToken
      else s.writeToken dev env newBoots s.validUntil sessionS
    { s with bootsRemaining := newBoots }.setSession dev sessionS

/-- `session_work_fn`: the cap fired. -/
def State.sessionWork : Option Event × State :=
  let s := { s with sessionDue := none }
  if !s.dekOk || decide (s.sessionMaxMs = 0) then (none, s)
  else if s.bootsRemaining = 0 then
    (some .sessionExhausted, { s.lockNowQuiet with lockReason := .sessionBudgetExhausted })
  else (some .sessionRolled, s.consumeSessionBoot dev env)

/-- Time passes, up to the moment the session work item is due. -/
def State.wait (ms : Nat) : Option Event × State :=
  match s.sessionDue with
  | some due =>
    if due ≤ s.uptimeMs + ms then { s with uptimeMs := max s.uptimeMs due }.sessionWork dev env
    else (none, { s with uptimeMs := s.uptimeMs + ms })
  | none => (none, { s with uptimeMs := s.uptimeMs + ms })

end Core

def toyEnv (epoch : UInt32) : Env :=
  ⟨epoch, fun _ => ⟨List.replicate nonceLen 0, rfl⟩, ⟨List.replicate keyLen 7, rfl⟩⟩

end Zephyrtastic.Lockdown
