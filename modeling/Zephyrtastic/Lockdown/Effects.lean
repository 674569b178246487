import Mathlib.Order.Basic
import Zephyrtastic.Lockdown.Core

/-!
# What the operations do

One lemma for each operation of the core: what it leaves alone, and the ways it
can end. The results about whole histories case on these and never unfold the
operations again.
-/

namespace Zephyrtastic.Lockdown

open State

/-- Only the token, its counter, the keys and the session may differ. -/
structure State.SameStore (s s' : State) : Prop where
  recDek : s'.recDek = s.recDek
  recBackoff : s'.recBackoff = s.recBackoff
  records : s'.records = s.records
  provisioned : s'.provisioned = s.provisioned
  lastFailMs : s'.lastFailMs = s.lastFailMs
  needsReload : s'.needsReload = s.needsReload
  reloadPending : s'.reloadPending = s.reloadPending
  rewritePending : s'.rewritePending = s.rewritePending
  sealingOff : s'.sealingOff = s.sealingOff
  queue : s'.queue = s.queue

namespace State

theorem SameStore.refl (s : State) : s.SameStore s := by
  constructor <;> rfl

theorem SameStore.trans {a b c : State} (hab : a.SameStore b) (hbc : b.SameStore c) :
    a.SameStore c where
  recDek := hbc.recDek.trans hab.recDek
  recBackoff := hbc.recBackoff.trans hab.recBackoff
  records := hbc.records.trans hab.records
  provisioned := hbc.provisioned.trans hab.provisioned
  lastFailMs := hbc.lastFailMs.trans hab.lastFailMs
  needsReload := hbc.needsReload.trans hab.needsReload
  reloadPending := hbc.reloadPending.trans hab.reloadPending
  rewritePending := hbc.rewritePending.trans hab.rewritePending
  sealingOff := hbc.sealingOff.trans hab.sealingOff
  queue := hbc.queue.trans hab.queue

end State

theorem toNat_sub_one {b : UInt8} (h : b ≠ 0) : (b - 1).toNat + 1 = b.toNat := by
  have hpos : b.toNat ≠ 0 := fun e => h (UInt8.toNat_inj.mp e)
  have hle : (1 : UInt8) ≤ b := UInt8.le_iff_toNat_le.mpr (Nat.one_le_iff_ne_zero.mpr hpos)
  rw [UInt8.toNat_sub_of_le _ _ hle, UInt8.toNat_one]
  omega

section Effects
variable {dev : Device} (s : State) (env : Env)

theorem noteMono_mono (counter : UInt32) (h : ¬ counter < s.mono dev) :
    (s.noteMono dev env counter).mono dev = counter := by
  unfold noteMono
  split
  · exact readMono_monoRec _ _
  · next hle => exact UInt32.le_antisymm (UInt32.not_lt.mp h) (UInt32.not_lt.mp hle)

theorem noteMono_sameStore (counter : UInt32) : s.SameStore (s.noteMono dev env counter) := by
  unfold noteMono
  split <;> constructor <;> rfl

theorem acceptToken_sameStore (dek : AesKey) (m : TokenMeta) :
    s.SameStore (s.acceptToken dev env dek m) := by
  unfold acceptToken
  simp only
  split <;> constructor <;> rfl

/-- The token a session leaves in flash: none when its budget is spent, else one that
carries the budget, the cap and the next counter. -/
inductive State.Leaves (dev : Device) (s : State) (boots : UInt8) (sessionS : UInt32)
    (s' : State) : Prop where
  | spent (h : boots = 0) (token : s'.recToken = none) (mono : s'.mono dev = s.mono dev)
  | token (h : boots ≠ 0) (dek : AesKey) (validUntil : UInt32) (nonce : Nonce)
      (token : s'.recToken =
        some (tokenRec dev dek ⟨boots, validUntil, sessionS, s.mono dev + 1⟩ nonce))
      (mono : s'.mono dev = s.mono dev + 1)

variable {s' : State}

theorem State.Leaves.congr {s t : State} {boots : UInt8} {sessionS : UInt32}
    (h : s.Leaves dev boots sessionS s') (htoken : t.recToken = s'.recToken)
    (hmono : t.recMono = s'.recMono) : s.Leaves dev boots sessionS t := by
  have hread : t.mono dev = s'.mono dev := congrArg (readMono dev) hmono
  cases h with
  | spent h token mono => exact .spent h (htoken.trans token) (hread.trans mono)
  | token h dek validUntil nonce token mono =>
    exact .token h dek validUntil nonce (htoken.trans token) (hread.trans mono)

/-- A session starts, with a budget of boots and a cap. -/
structure State.Starts (dev : Device) (s : State) (boots : UInt8) (sessionS : UInt32)
    (s' : State) : Prop where
  dekOk : s'.dekOk = true
  budget : s'.bootsRemaining = boots
  uptime : s'.uptimeMs = s.uptimeMs
  maxMs : s'.sessionMaxMs = sessionS * 1000
  started : s'.sessionStartedMs = s.uptimeMs
  due : s'.sessionDue = if sessionS ≠ 0 then some (s.uptimeMs + dev.kSeconds sessionS) else none
  leaves : s.Leaves dev boots sessionS s'

theorem acceptToken_starts (dek : AesKey) (m : TokenMeta) :
    s.Starts dev (m.boots - 1) m.sessionS (s.acceptToken dev env dek m) := by
  unfold acceptToken
  simp only
  split
  · next h => exact ⟨rfl, rfl, rfl, rfl, rfl, rfl, .spent h rfl rfl⟩
  · next h => exact ⟨rfl, rfl, rfl, rfl, rfl, rfl, .token h _ _ _ rfl (readMono_monoRec _ _)⟩

variable (passphrase : Bytes) (boots : UInt8) (validUntil sessionS : UInt32)

theorem grant_starts :
    s.Starts dev (bootsOrDefault dev boots) (sessionOrDefault dev sessionS)
      (s.grant dev env boots validUntil sessionS) := by
  have h : bootsOrDefault dev boots ≠ 0 := by
    unfold bootsOrDefault
    split
    · assumption
    · exact dev.defaultBoots_ne
  exact ⟨rfl, rfl, rfl, rfl, rfl, rfl, .token h _ _ _ rfl (readMono_monoRec _ _)⟩

theorem armReload_eq (s : State) :
    ∃ reloadPending queue, s.armReload = { s with reloadPending, queue } := by
  unfold armReload
  split
  · exact ⟨_, _, rfl⟩
  · exact ⟨s.reloadPending, s.queue, rfl⟩

variable {s} in
theorem State.Starts.armReload {boots : UInt8} {sessionS : UInt32}
    (hs : s.Starts dev boots sessionS s') : s.Starts dev boots sessionS s'.armReload := by
  obtain ⟨_, _, h⟩ := armReload_eq s'
  rw [h]
  exact { hs with leaves := hs.leaves.congr rfl rfl }

theorem consumeSessionBoot_starts (hopen : s.dekOk = true) (hboots : s.bootsRemaining ≠ 0) :
    s.Starts dev (s.bootsRemaining - 1) (s.sessionMaxMs / 1000)
      (s.consumeSessionBoot dev env) := by
  unfold consumeSessionBoot
  rw [if_neg hboots]
  simp only
  split
  · next h => exact ⟨hopen, rfl, rfl, rfl, rfl, rfl, .spent h rfl rfl⟩
  · next h => exact ⟨hopen, rfl, rfl, rfl, rfl, rfl, .token h _ _ _ rfl (readMono_monoRec _ _)⟩

variable (dev) in
/-- The ways a boot's token can be received. -/
inductive State.Consumed : Bool × State → Prop where
  | missing (h : s.recToken = none) :
      Consumed (false, { s with lockReason := .tokenMissing })
  | malformed (rec : Bytes) (h : s.recToken = some rec) (dek : AesKey) (reason : LockReason)
      (hbad : openToken dev rec = .error reason) :
      Consumed (false, { s.deleteToken with dek, lockReason := reason })
  | rolledBack (rec : Bytes) (h : s.recToken = some rec) (dek : AesKey) (m : TokenMeta)
      (hopen : openToken dev rec = .ok (dek, m)) (hlt : m.mono < s.mono dev) :
      Consumed (false, s.refuseToken .tokenRollback)
  | spent (rec : Bytes) (h : s.recToken = some rec) (dek : AesKey) (m : TokenMeta)
      (hopen : openToken dev rec = .ok (dek, m)) (hlt : ¬ m.mono < s.mono dev)
      (reason : LockReason) (hout : m.boots = 0 ∨ m.expired env = true) :
      Consumed (false, (s.noteMono dev env m.mono).refuseToken reason)
  | accepted (rec : Bytes) (h : s.recToken = some rec) (dek : AesKey) (m : TokenMeta)
      (hopen : openToken dev rec = .ok (dek, m)) (hlt : ¬ m.mono < s.mono dev)
      (hboots : m.boots ≠ 0) (hlive : m.expired env = false) :
      Consumed (true, (s.noteMono dev env m.mono).acceptToken dev env dek m)

theorem consumeToken_consumed : s.Consumed dev env (s.consumeToken dev env) := by
  unfold consumeToken
  split
  · next h => exact .missing h
  next rec h =>
  split
  · next hbad => exact .malformed rec h .zero .tokenHmacFail hbad
  · next reason _ hbad => exact .malformed rec h s.dek reason hbad
  next dek m hopen =>
  split
  · next hlt => exact .rolledBack rec h dek m hopen hlt
  next hlt =>
  split
  · next hboots => exact .spent rec h dek m hopen hlt .tokenBootsZero (.inl hboots)
  next hboots =>
  split
  · next hexp => exact .spent rec h dek m hopen hlt .tokenExpired (.inr hexp)
  · next hexp =>
    exact .accepted rec h dek m hopen hlt hboots (Bool.eq_false_iff.mpr hexp)

variable {s env}

theorem State.Consumed.refused (h : s.Consumed dev env (false, s')) :
    s'.recToken = none ∧ s'.dekOk = s.dekOk := by
  cases h with
  | missing h => exact ⟨h, rfl⟩
  | malformed | rolledBack => exact ⟨rfl, rfl⟩
  | spent _ _ _ m =>
    refine ⟨rfl, ?_⟩
    unfold refuseToken deleteToken noteMono
    split <;> rfl

theorem State.Consumed.sameStore {r : Bool × State} (h : s.Consumed dev env r) :
    s.SameStore r.2 := by
  cases h with
  | missing | malformed | rolledBack => constructor <;> rfl
  | spent _ _ _ m =>
    exact (noteMono_sameStore s env m.mono).trans (by constructor <;> rfl)
  | accepted _ _ dek m =>
    exact (noteMono_sameStore s env m.mono).trans (acceptToken_sameStore _ env dek m)

variable (s env)

/-- What a boot makes of the backoff record. -/
def Backoff.bumped (b : Backoff) : Backoff :=
  if b.attempts = 0 ∨ b.attempts = backoffMaxAttempts then b
  else { b with
    bootsSinceFail := if b.bootsSinceFail < 255 then b.bootsSinceFail + 1 else b.bootsSinceFail }

theorem bumpBootsSinceFail_backoff :
    (s.bumpBootsSinceFail dev env).backoff dev = (s.backoff dev).bumped := by
  unfold bumpBootsSinceFail Backoff.bumped
  simp only
  split
  · rfl
  · exact readBackoff_backoffRec _ _

/-- What is left of a state when the device comes up, before its token is read. -/
def State.woken (dev : Device) (s : State) (env : Env) : State :=
  { { s with uptimeMs := 0, queue := [] }.reset with provisioned := true }.bumpBootsSinceFail
    dev env

variable (dev) in
/-- The ways a boot can end. -/
inductive State.Booted : State → Prop where
  | stock (h : s.recDek = none) :
      Booted { s with uptimeMs := 0, queue := [] }.reset
  | locked (h : s.recDek.isSome) (s' : State)
      (hc : (s.woken dev env).Consumed dev env (false, s')) :
      Booted { s' with needsReload := true }
  | unlocked (h : s.recDek.isSome) (s' : State)
      (hc : (s.woken dev env).Consumed dev env (true, s')) : Booted s'

theorem boot_booted : s.Booted dev env (s.boot dev env) := by
  by_cases h : s.recDek.isSome = true
  · have hboot : s.boot dev env = if ((s.woken dev env).consumeToken dev env).1 then
        ((s.woken dev env).consumeToken dev env).2
        else { ((s.woken dev env).consumeToken dev env).2 with needsReload := true } := if_pos h
    rw [hboot]
    have hc : (s.woken dev env).Consumed dev env ((s.woken dev env).consumeToken dev env) :=
      consumeToken_consumed _ env
    generalize (s.woken dev env).consumeToken dev env = r at hc
    obtain ⟨_ | _, s'⟩ := r
    · exact .locked h s' hc
    · exact .unlocked h s' hc
  · have hboot : s.boot dev env = { s with uptimeMs := 0, queue := [] }.reset := if_neg h
    rw [hboot]
    exact .stock (by simpa using h)

theorem woken_eq : ∃ b, s.woken dev env =
    { { s with uptimeMs := 0, queue := [] }.reset with provisioned := true, recBackoff := b } := by
  unfold woken bumpBootsSinceFail
  simp only
  split
  · exact ⟨s.recBackoff, rfl⟩
  · exact ⟨_, rfl⟩

/-- What every boot does, whatever becomes of the token. -/
structure State.Wakes (dev : Device) (s s' : State) : Prop where
  recDek : s'.recDek = s.recDek
  records : s'.records = s.records
  provisioned : s'.provisioned = s.recDek.isSome
  backoff : s'.backoff dev = if s.recDek.isSome then (s.backoff dev).bumped else s.backoff dev
  lastFailMs : s'.lastFailMs = 0
  reloadPending : s'.reloadPending = false
  rewritePending : s'.rewritePending = false
  sealingOff : s'.sealingOff = false
  queue : s'.queue = []

theorem wakes_of_sameStore (h : s.recDek.isSome = true)
    (hs : (s.woken dev env).SameStore s') : s.Wakes dev s' := by
  have hb : s'.backoff dev = (s.backoff dev).bumped :=
    (congrArg (readBackoff dev) hs.recBackoff).trans (bumpBootsSinceFail_backoff _ env)
  obtain ⟨b, hw⟩ := @woken_eq dev s env
  rw [hw] at hs
  exact { hs with provisioned := hs.provisioned.trans h.symm, backoff := by rw [if_pos h, hb] }

theorem boot_wakes : s.Wakes dev (s.boot dev env) := by
  have hb : s.Booted dev env (s.boot dev env) := boot_booted s env
  generalize s.boot dev env = s' at hb
  cases hb with
  | stock h =>
    exact ⟨rfl, rfl, by rw [h]; rfl, by rw [if_neg (by simp [h])]; rfl, rfl, rfl, rfl, rfl, rfl⟩
  | locked h s' hc => exact { wakes_of_sameStore s env h hc.sameStore with }
  | unlocked h _ hc => exact wakes_of_sameStore s env h hc.sameStore

/-- The passphrase reaches the check of the key record: it fits, the device is
provisioned and no wait is left. -/
def State.Asks (dev : Device) (s : State) (env : Env) (passphrase : Bytes) (kek : AesKey) : Prop :=
  passphraseFits passphrase = true ∧ s.provisioned = true ∧ s.backoffGate dev env = 0 ∧
    dev.psa.pbkdf2 passphrase (dekIters s.recDek) = some kek

/-- The state in which the key record is asked: the attempt is already booked. -/
def State.booked (dev : Device) (s : State) (env : Env) : State :=
  { s with backoffRemainingS := 0 }.writeBackoff dev (s.reserved dev env) (env.nonce .reserve)

variable (dev) in
/-- The ways a passphrase can be received. -/
inductive State.Verified : Except Errno Unit × State → Prop where
  | turnedAway (err : Errno) (herr : err ≠ .acces) (remaining : Nat)
      (hask : ∀ kek, ¬ s.Asks dev env passphrase kek) :
      Verified (.error err, { s with backoffRemainingS := remaining })
  | wrong (kek : AesKey) (hask : s.Asks dev env passphrase kek) (err : Errno)
      (hload : loadDek dev kek s.recDek = .error err) :
      Verified
        (.error .acces, (s.booked dev env).failed err (s.reserved dev env).attempts)
  | right (kek : AesKey) (hask : s.Asks dev env passphrase kek) (dek : AesKey)
      (hload : loadDek dev kek s.recDek = .ok dek) :
      Verified (.ok (), { s.booked dev env with dek })

theorem verify_verified : s.Verified dev env passphrase (s.verify dev env passphrase) := by
  unfold verify
  split
  · next hfit =>
    exact .turnedAway .inval (by decide) s.backoffRemainingS
      fun _ h => absurd h.1 (by simpa using hfit)
  next hfit =>
  split
  · next hprov =>
    exact .turnedAway .noent (by decide) s.backoffRemainingS
      fun _ h => absurd h.2.1 (by simpa using hprov)
  next hprov =>
  split
  · next hgate =>
    exact .turnedAway .again (by decide) (s.backoffGate dev env)
      fun _ h => absurd h.2.2.1 (Nat.pos_iff_ne_zero.mp hgate)
  next hgate =>
  have hask {kek : AesKey} (hkek : dev.psa.pbkdf2 passphrase (dekIters s.recDek) = some kek) :
      s.Asks dev env passphrase kek :=
    ⟨by simpa using hfit, by simpa using hprov, Nat.eq_zero_of_not_pos hgate, hkek⟩
  simp only
  split
  · next hnone =>
    exact .turnedAway .io (by decide) 0 fun kek h => by simp [h.2.2.2] at hnone
  next kek hkek =>
  split
  · next err hload => exact .wrong kek (hask hkek) err hload
  · next dek hload => exact .right kek (hask hkek) dek hload

/-- The state in which the session work item runs. -/
def State.due (s : State) (deadline : Nat) : State :=
  { s with uptimeMs := max s.uptimeMs deadline, sessionDue := none }

variable (dev) in
/-- The ways a wait can end. -/
inductive State.Waited (ms : Nat) : Option Event × State → Prop where
  | passed (h : ∀ due, s.sessionDue = some due → s.uptimeMs + ms < due) :
      Waited ms (none, { s with uptimeMs := s.uptimeMs + ms })
  | idle (due : Nat) (h : s.sessionDue = some due) (hdue : due ≤ s.uptimeMs + ms)
      (hidle : s.dekOk = true → s.sessionMaxMs = 0) : Waited ms (none, s.due due)
  | exhausted (due : Nat) (h : s.sessionDue = some due) (hdue : due ≤ s.uptimeMs + ms)
      (hopen : s.dekOk = true) (hmax : s.sessionMaxMs ≠ 0) (hboots : s.bootsRemaining = 0) :
      Waited ms (some .sessionExhausted,
        { (s.due due).lockNowQuiet with lockReason := .sessionBudgetExhausted })
  | rolled (due : Nat) (h : s.sessionDue = some due) (hdue : due ≤ s.uptimeMs + ms)
      (hopen : s.dekOk = true) (hmax : s.sessionMaxMs ≠ 0) (hboots : s.bootsRemaining ≠ 0) :
      Waited ms (some .sessionRolled, (s.due due).consumeSessionBoot dev env)

theorem wait_waited (ms : Nat) : s.Waited dev env ms (s.wait dev env ms) := by
  unfold wait
  split
  · next due h =>
    split
    · next hdue =>
      unfold sessionWork
      simp only
      split
      · next hidle =>
        refine .idle due h hdue fun hopen => ?_
        simpa [hopen] using hidle
      next hbusy =>
      obtain ⟨hopen, hmax⟩ : s.dekOk = true ∧ s.sessionMaxMs ≠ 0 := by simpa using hbusy
      split
      · next hboots => exact .exhausted due h hdue hopen hmax hboots
      · next hboots => exact .rolled due h hdue hopen hmax hboots
    · next hdue =>
      refine .passed fun due' h' => ?_
      rw [h] at h'
      exact Option.some.inj h' ▸ Nat.lt_of_not_le hdue
  · next h => exact .passed fun due h' => absurd (h.symm.trans h') (by simp)

theorem consumeSessionBoot_sameStore : s.SameStore (s.consumeSessionBoot dev env) := by
  unfold consumeSessionBoot
  split
  · exact .refl s
  · simp only
    split <;> constructor <;> rfl

variable {s env}

theorem State.Waited.sameStore {ms : Nat} {r : Option Event × State} (h : s.Waited dev env ms r) :
    s.SameStore r.2 := by
  cases h with
  | passed | idle | exhausted => constructor <;> rfl
  | rolled due =>
    exact .trans (b := s.due due) (by constructor <;> rfl)
      (consumeSessionBoot_sameStore (s.due due) env)

theorem unlock_result :
    (s.unlock dev env passphrase boots validUntil sessionS).1 =
      (s.verify dev env passphrase).1 := by
  unfold unlock
  split <;> next h => rw [h]

variable (dev s env) in
/-- The ways an unlock can end. -/
inductive State.Unlocked : Except Errno Unit × State → Prop where
  | refused (err : Errno) (s' : State) (hv : s.Verified dev env passphrase (.error err, s')) :
      Unlocked (.error err, s')
  | opened (s' : State) (hv : s.Verified dev env passphrase (.ok (), s')) :
      Unlocked
        (.ok (), (s'.grant dev env boots validUntil sessionS).armReload)

variable (s env)

theorem unlock_unlocked :
    s.Unlocked dev env passphrase boots validUntil sessionS
      (s.unlock dev env passphrase boots validUntil sessionS) := by
  have hv : s.Verified dev env passphrase (s.verify dev env passphrase) :=
    verify_verified s env passphrase
  unfold unlock
  split
  · next h => exact .refused _ _ (h ▸ hv)
  · next h => exact .opened _ (h ▸ hv)

/-- The state a new passphrase is admitted in. -/
def State.keyed (dev : Device) (s : State) (env : Env) (kek : AesKey) : State :=
  { s with
    dek := env.newDek
    recDek := some (dekRec dev kek env.newDek dev.pbkdf2Iterations (env.nonce .dek))
    provisioned := true }

variable (dev) in
/-- The ways a provisioning can end. -/
inductive State.Provisioned (passphrase : Bytes) (boots : UInt8) (validUntil sessionS : UInt32) :
    Except Errno Unit × State → Prop where
  | refused (err : Errno) (herr : err ≠ .acces) (dek : AesKey)
      (hdek : s.provisioned = true → dek = s.dek) :
      Provisioned passphrase boots validUntil sessionS (.error err, { s with dek })
  | done (hnew : s.provisioned = false) (kek : AesKey) :
      Provisioned passphrase boots validUntil sessionS
        (.ok (), { (s.keyed dev env kek).grant dev env boots validUntil sessionS with
          sealingOff := false, rewritePending := true }.submit .rewrite)

theorem provision_provisioned :
    s.Provisioned dev env passphrase boots validUntil sessionS
      (s.provision dev env passphrase boots validUntil sessionS) := by
  unfold provision
  split
  · exact .refused .inval (by decide) s.dek fun _ => rfl
  split
  · exact .refused .already (by decide) s.dek fun _ => rfl
  next hnew =>
  split
  · exact .refused .io (by decide) .zero fun h => absurd h hnew
  · next kek _ => exact .done (by simpa using hnew) kek

end Effects

end Zephyrtastic.Lockdown
