import Zephyrtastic.Lib.Run
import Zephyrtastic.Lockdown.Lockout
import Zephyrtastic.Lockdown.Store

/-!
# Guessing the passphrase

A wrong passphrase is meant to cost reboots, more of them with every failure. The
unlock books the attempt before it asks the key record and honours the gate; the
disable of an unlocked device asks the record with neither, so guesses that come
that way are free.
-/

namespace Zephyrtastic.Lockdown

open Run State

variable (dev : Device) (s : State) (env : Env)

/-- The key an unlock asks the record with, if it gets there. -/
def State.unlockKek (passphrase : Bytes) : Option AesKey :=
  if passphraseFits passphrase && s.provisioned && decide (s.backoffGate dev env = 0) then
    dev.psa.pbkdf2 passphrase (dekIters s.recDek)
  else none

/-- The disable would check the passphrase itself. -/
def State.checksDirectly : Bool :=
  s.provisioned && !s.rewritePending && !s.reloadPending && s.dekOk && !s.needsReload

def State.disableKek (passphrase : Bytes) : Option AesKey :=
  if s.checksDirectly then dev.psa.pbkdf2 passphrase (dekIters s.recDek)
  else if s.rewritePending || s.reloadPending then none
  else s.unlockKek dev env passphrase

/-- The message gets past `handle_auth` to the passphrase job. -/
def Auth.queued (la : Auth) : Bool :=
  !la.lockNow && passphraseFits la.passphrase && decide (la.bootsRemaining ≤ 255)

/-- The message makes `load_dek` fail. -/
def State.wrongGuess (la : Auth) : Bool :=
  la.queued && (if la.disable then s.disableKek dev env la.passphrase
    else s.unlockKek dev env la.passphrase).any fun kek => !(loadDek dev kek s.recDek).toBool

/-- The device, the wrong guesses since the last right one, and the boots since the
last guess. -/
structure Siege where
  state : State
  fails : Nat
  boots : Nat

open Siege

variable (dev : Device) (x : Siege)

inductive Probe where
  /-- A message of an unauthorized connection. -/
  | auth (env : Env) (la : Auth)
  | boot (env : Env)
  | wait (env : Env) (ms : Nat)
  | work (out : Outside)

def Siege.step : Probe → Siege
  | .auth env la =>
    let r := x.state.auth dev env false la
    if x.state.wrongGuess dev env la then ⟨r.2, x.fails + 1, 0⟩
    else match r.1 with
      | some (.ok _) => ⟨r.2, 0, 0⟩
      | _ => ⟨r.2, x.fails, x.boots⟩
  | .boot env => ⟨x.state.boot dev env, x.fails, x.boots + 1⟩
  | .wait env ms => ⟨(x.state.wait dev env ms).2, x.fails, x.boots⟩
  | .work out => ⟨(x.state.runWork dev out).2, x.fails, x.boots⟩

/-- The boots that must lie between two wrong guesses, the first being the `n`-th. -/
def bootsBetween (n : Nat) : Nat :=
  min 255 ((backoffDelay (UInt8.ofNat (min n 255)) + 4) / 5)

/-- A further wrong guess has waited for its boots. -/
def Siege.Throttled : Probe → Prop
  | .auth env la => x.state.wrongGuess dev env la = true → 0 < x.fails →
      bootsBetween x.fails ≤ x.boots
  | _ => True

/-- No disable asks an unlocked device with a wrong passphrase. -/
def Siege.NoDirectGuess : Probe → Prop
  | .auth env la => la.disable = true → x.state.checksDirectly = true →
      x.state.wrongGuess dev env la = false
  | _ => True

/-- The record has seen every guess, and no boot too many since the last one. -/
def Siege.Booked : Prop :=
  x.state.provisioned = true ∨ x.state.recDek.isSome = true →
    min 255 x.fails ≤ (x.state.backoff dev).attempts.toNat ∧
      (0 < x.fails → (x.state.backoff dev).bootsSinceFail.toNat ≤ x.boots)

/-- The ways a message of an unauthorized connection can be received. -/
inductive State.Probed (s : State) (env : Env) (la : Auth) :
    Option (Except Errno Unit) × State → Prop where
  | quiet (r : Option (Except Errno Unit)) (s' : State) (hguess : s.wrongGuess dev env la = false)
      (recDek : s'.recDek = s.recDek) (recBackoff : s'.recBackoff = s.recBackoff)
      (provisioned : s'.provisioned = s.provisioned) : Probed s env la (r, s')
  | admitted (s' : State) (hguess : s.wrongGuess dev env la = false) :
      Probed s env la (some (.ok ()), s')
  | wrong (s' : State) (hgate : s.backoffGate dev env = 0) (hguess : s.wrongGuess dev env la = true)
      (hprov : s.provisioned = true)
      (backoff : s'.backoff dev = s.reserved dev env) : Probed s env la (some (.error .acces), s')
  | direct (hguess : s.wrongGuess dev env la = true) (hdisable : la.disable = true)
      (hdirect : s.checksDirectly = true) : Probed s env la (some (.error .acces), s)

section Throttle
variable {dev : Device} {s : State} {env : Env}

theorem unlockKek_eq_some {passphrase : Bytes} {kek : AesKey} :
    s.unlockKek dev env passphrase = some kek ↔ s.Asks dev env passphrase kek := by
  unfold unlockKek State.Asks
  split
  · next h => simp_all
  next h =>
  simp only [reduceCtorEq, false_iff, not_and]
  intro hfit hprov hgate
  simp [hfit, hprov, hgate] at h

variable {la : Auth} {delay : Nat} {x : Siege}

theorem unlock_probed (boots : UInt8) (validUntil sessionS : UInt32)
    (hguess : s.wrongGuess dev env la = (s.unlockKek dev env la.passphrase).any
      fun kek => !(loadDek dev kek s.recDek).toBool) {r : Except Errno Unit × State}
    (hu : s.Unlocked dev env la.passphrase boots validUntil sessionS r) :
    s.Probed dev env la (some r.1, r.2) := by
  cases hu with
  | refused err s' hv =>
    cases hv with
    | turnedAway _ _ _ hask =>
      refine .quiet _ _ ?_ rfl rfl rfl
      rw [hguess, Option.eq_none_iff_forall_ne_some.mpr fun kek h => hask kek
        (unlockKek_eq_some.mp h)]
      rfl
    | wrong kek hask err hload =>
      refine .wrong _ hask.2.2.1 ?_ hask.2.1 (readBackoff_backoffRec _ _)
      rw [hguess, unlockKek_eq_some.mpr hask]
      simp [hload, Except.toBool]
  | opened s' hv =>
    cases hv with
    | right kek hask dek hload =>
      refine .admitted _ ?_
      rw [hguess, unlockKek_eq_some.mpr hask]
      simp [hload, Except.toBool]

theorem wrongGuess_unqueued (h : la.queued = false) : s.wrongGuess dev env la = false := by
  simp [wrongGuess, h]

theorem disable_probed (hq : la.queued = true) (hdisable : la.disable = true)
    {r : Except Errno Unit × State} (hd : s.Disabled dev env la.passphrase r) :
    s.Probed dev env la (some r.1, r.2) := by
  have hguess : s.wrongGuess dev env la = (s.disableKek dev env la.passphrase).any
      fun kek => !(loadDek dev kek s.recDek).toBool := by
    simp only [wrongGuess, hq, hdisable, if_true, Bool.true_and]
  have hunlock : s.rewritePending = false ∧ s.reloadPending = false →
      s.dekOk = false ∨ s.needsReload = true →
      s.disableKek dev env la.passphrase = s.unlockKek dev env la.passphrase := by
    rintro ⟨hrw, hrl⟩ hlock
    have hdirect : s.checksDirectly = false := by
      rcases hlock with h | h <;> simp [checksDirectly, h]
    simp [disableKek, hdirect, hrw, hrl]
  have hdirect : s.provisioned = true → s.rewritePending = false ∧ s.reloadPending = false →
      s.dekOk = true ∧ s.needsReload = false → s.disableKek dev env la.passphrase =
        dev.psa.pbkdf2 la.passphrase (dekIters s.recDek) := by
    intro hprov hidle h
    simp [disableKek, checksDirectly, hprov, hidle, h]
  cases hd with
  | refused err herr h =>
    refine .quiet _ _ ?_ rfl rfl rfl
    have hnone : s.disableKek dev env la.passphrase = none := by
      rcases h with h | h | h <;> simp [disableKek, checksDirectly, unlockKek, h]
    rw [hguess, hnone]
    rfl
  | locked err s' hidle h hu =>
    exact unlock_probed 0 0 0 (by rw [hguess, hunlock hidle h]) hu
  | opened s' hidle h hu =>
    have hp : s.Probed dev env la (some (.ok ()), s') :=
      unlock_probed 0 0 0 (by rw [hguess, hunlock hidle h]) hu
    cases hp with
    | quiet _ _ hno | admitted _ hno => exact .admitted _ hno
  | proved hprov hidle h hp =>
    refine .admitted _ ?_
    rw [hguess, hdirect hprov hidle h]
    unfold provePassphrase at hp
    cases hkek : dev.psa.pbkdf2 la.passphrase (dekIters s.recDek) with
    | none => rfl
    | some kek => simpa [hkek] using hp
  | denied hprov hidle h hp =>
    unfold provePassphrase at hp
    cases hkek : dev.psa.pbkdf2 la.passphrase (dekIters s.recDek) with
    | none =>
      refine .quiet _ _ ?_ rfl rfl rfl
      rw [hguess, hdirect hprov hidle h, hkek]
      rfl
    | some kek =>
      refine .direct ?_ hdisable (by simp [checksDirectly, hprov, hidle, h])
      rw [hguess, hdirect hprov hidle h, hkek]
      simpa [hkek] using hp

theorem auth_probed (la : Auth) : s.Probed dev env la (s.auth dev env false la) := by
  have hquiet : la.queued = false → s.Probed dev env la (none, s) :=
    fun h => .quiet _ _ (wrongGuess_unqueued h) rfl rfl rfl
  unfold auth
  split
  · next h =>
    -- an unauthorized lock is refused on any device
    have hshut : (!(false || !s.provisioned) || !s.provisioned) = true := by
      cases s.provisioned <;> rfl
    rw [if_pos hshut]
    exact hquiet (by simp [Auth.queued, h])
  rename_i hlock
  split
  · next h =>
    obtain ⟨hdis, hprov⟩ : la.disable = true ∧ s.provisioned = false := by simpa using h
    refine .quiet _ _ ?_ rfl rfl rfl
    simp [wrongGuess, hdis, disableKek, checksDirectly, unlockKek, hprov]
  split
  · next h =>
    have hfit : passphraseFits la.passphrase = false := by simpa using h
    exact hquiet (by simp [Auth.queued, hfit])
  rename_i hfit
  split
  · next h => exact hquiet (by simp [Auth.queued, UInt32.not_le.mpr h])
  rename_i hboots
  have hq : la.queued = true := by
    simp only [Auth.queued, Bool.and_eq_true, decide_eq_true_eq]
    exact ⟨⟨by simpa using hlock, by simpa using hfit⟩, UInt32.not_lt.mp hboots⟩
  simp only
  split
  · next hdis => exact disable_probed hq hdis (disable_disabled s env la.passphrase)
  rename_i hdis
  have hguess : s.wrongGuess dev env la = (s.unlockKek dev env la.passphrase).any
      fun kek => !(loadDek dev kek s.recDek).toBool := by
    simp only [wrongGuess, hq, hdis, Bool.false_eq_true, if_false, Bool.true_and]
  split
  · next hprov =>
    have hnone : s.unlockKek dev env la.passphrase = none := by
      simp [unlockKek, show s.provisioned = false by simpa using hprov]
    have hno : s.wrongGuess dev env la = false := by rw [hguess, hnone]; rfl
    have hp : s.Provisioned dev env la.passphrase la.bootsRemaining.toUInt8
      la.validUntilEpoch la.maxSessionSeconds _ := provision_provisioned s env _ _ _ _
    generalize s.provision dev env la.passphrase la.bootsRemaining.toUInt8
      la.validUntilEpoch la.maxSessionSeconds = r at hp
    cases hp with
    | refused => exact .quiet _ _ hno rfl rfl rfl
    | done => exact .admitted _ hno
  · exact unlock_probed _ _ _ hguess (unlock_unlocked s env _ _ _ _)

theorem backoffDoubled_succ (n : Nat) (h : delay ≤ backoffCapS) :
    backoffDoubled n delay ≤ backoffDoubled (n + 1) delay := by
  induction n generalizing delay with
  | zero =>
    unfold backoffDoubled
    split
    · exact h
    · exact Nat.le_mul_of_pos_right _ (by decide)
  | succ n ih =>
    rw [backoffDoubled, backoffDoubled]
    split
    · exact Nat.le_refl _
    · next hlt => exact ih (Nat.le_of_not_le hlt)

theorem backoffDoubled_mono {m n : Nat} (hd : delay ≤ backoffCapS) (h : m ≤ n) :
    backoffDoubled m delay ≤ backoffDoubled n delay := by
  induction h with
  | refl => exact Nat.le_refl _
  | step _ ih => exact Nat.le_trans ih (backoffDoubled_succ _ hd)

theorem backoffDelay_mono {a b : UInt8} (h : a.toNat ≤ b.toNat) :
    backoffDelay a ≤ backoffDelay b := by
  unfold backoffDelay
  split
  · exact Nat.zero_le _
  next ha =>
  have hb : b ≠ 0 := by
    rintro rfl
    exact ha (UInt8.toNat_inj.mp (Nat.le_zero.mp h))
  rw [if_neg hb]
  exact backoffDoubled_mono (by decide) (Nat.sub_le_sub_right h 1)

theorem le_bootsNeeded {d : Nat} (h : d ≤ delay) : min 255 ((d + 4) / 5) ≤ bootsNeeded delay := by
  unfold bootsNeeded
  simp only
  split <;> omega

theorem Siege.Booked.throttled (hx : x.Booked dev) (hprov : x.state.provisioned = true)
    (hgate : x.state.backoffGate dev env = 0) (hfails : 0 < x.fails) :
    bootsBetween x.fails ≤ x.boots := by
  obtain ⟨hatt, hboots⟩ := hx (.inl hprov)
  have hpos : (x.state.backoff dev).attempts > 0 := by
    rw [gt_iff_lt, UInt8.lt_iff_toNat_lt]
    have : (0 : UInt8).toNat = 0 := rfl
    omega
  have hwait : bootsWait (x.state.backoff dev)
      (backoffDelay (x.state.backoff dev).attempts) = 0 := by
    unfold backoffGate at hgate
    simp only [if_pos hpos] at hgate
    omega
  have hof : (UInt8.ofNat (min x.fails 255)).toNat = min x.fails 255 := by
    rw [UInt8.toNat_ofNat']
    omega
  have hneed := le_bootsNeeded (backoffDelay_mono (a := UInt8.ofNat (min x.fails 255))
    (b := (x.state.backoff dev).attempts) (by omega))
  have := hboots hfails
  unfold bootsWait at hwait
  unfold bootsBetween
  omega

theorem bumped_boots_le (b : Backoff) :
    b.bumped.bootsSinceFail.toNat ≤ b.bootsSinceFail.toNat + 1 := by
  by_cases h : b.attempts = 0 ∨ b.attempts = backoffMaxAttempts
  · rw [Backoff.bumped, if_pos h]
    exact Nat.le_succ _
  · obtain ⟨h0, hmax⟩ := not_or.mp h
    rw [bumped_boots h0 hmax]
    exact Nat.min_le_right _ _

theorem reserved_attempts (s : State) (env : Env) :
    min 255 ((s.backoff dev).attempts.toNat + 1) ≤ (s.reserved dev env).attempts.toNat := by
  unfold reserved
  simp only
  split
  · next h =>
    have hlt := UInt8.lt_iff_toNat_lt.mp h
    have h1 : (1 : UInt8).toNat = 1 := rfl
    have hm : backoffMaxAttempts.toNat = 255 := rfl
    rw [UInt8.toNat_add]
    omega
  · next h =>
    have hge := mt UInt8.lt_iff_toNat_lt.mpr h
    have hm : backoffMaxAttempts.toNat = 255 := rfl
    omega

theorem auth_booked (hx : x.Booked dev) (hno : x.NoDirectGuess dev (.auth env la)) :
    (x.step dev (.auth env la)).Booked dev ∧ x.Throttled dev (.auth env la) := by
  have hp : x.state.Probed dev env la _ := auth_probed la
  simp only [step, Throttled]
  generalize x.state.auth dev env false la = r at hp
  cases hp with
  | quiet r s' hguess hdek hback hprov =>
    have hkeep : Booked dev ⟨s', x.fails, x.boots⟩ := by
      unfold Booked backoff
      simp only [hdek, hback, hprov]
      exact hx
    refine ⟨?_, fun h => absurd (hguess.symm.trans h) (by decide)⟩
    simp only [hguess, Bool.false_eq_true, if_false]
    split
    · exact fun _ => ⟨by simp, fun h => absurd h (Nat.lt_irrefl 0)⟩
    · exact hkeep
  | admitted s' hguess =>
    refine ⟨?_, fun h => absurd (hguess.symm.trans h) (by decide)⟩
    simp only [hguess, Bool.false_eq_true, if_false]
    exact fun _ => ⟨by simp, fun h => absurd h (Nat.lt_irrefl 0)⟩
  | wrong s' hgate hguess hprov hback =>
    refine ⟨?_, fun _ hfails => hx.throttled hprov hgate hfails⟩
    simp only [hguess, if_true]
    intro _
    obtain ⟨hatt, _⟩ := hx (.inl hprov)
    have hres := @reserved_attempts dev x.state env
    simp only [hback]
    exact ⟨by omega, fun _ => Nat.zero_le _⟩
  | direct hguess hdis hdirect => exact absurd ((hno hdis hdirect).symm.trans hguess) (by decide)

theorem Siege.Booked.step (hx : x.Booked dev) (e : Probe)
    (hno : x.NoDirectGuess dev e) : (x.step dev e).Booked dev ∧ x.Throttled dev e := by
  cases e with
  | auth env la => exact auth_booked hx hno
  | boot env =>
    refine ⟨?_, trivial⟩
    have hw : x.state.Wakes dev (x.state.boot dev env) := boot_wakes x.state env
    intro h
    have hdek : x.state.recDek.isSome = true := by
      simpa only [Siege.step, hw.provisioned, hw.recDek, or_self] using h
    obtain ⟨hatt, hboots⟩ := hx (.inr hdek)
    have hbump := hw.backoff.trans (if_pos hdek)
    simp only [Siege.step, hbump, bumped_attempts]
    exact ⟨hatt, fun hf => Nat.le_trans (bumped_boots_le _) (Nat.succ_le_succ (hboots hf))⟩
  | wait env ms =>
    have hw : x.state.SameStore (x.state.wait dev env ms).2 :=
      (wait_waited x.state env ms).sameStore
    refine ⟨?_, trivial⟩
    unfold Booked backoff
    simp only [Siege.step, hw.recDek, hw.recBackoff, hw.provisioned]
    exact hx
  | work out =>
    refine ⟨?_, trivial⟩
    have hw : x.state.Worked (x.state.runWork dev out) := runWork_worked x.state out
    simp only [Siege.step]
    generalize x.state.runWork dev out = r at hw
    cases hw with
    | idle | reloaded | sealed => exact hx
    | disabled => exact fun h => absurd h (by simp [removeArtifacts, lockNowQuiet,
        deleteToken])

/-- **Where no disable asks an unlocked device with a wrong passphrase, every guess is
throttled**, from any state of the device. -/
theorem guesses_throttled (s : State) (es : List Probe)
    (hno : Guarded (Siege.step dev) (Siege.NoDirectGuess dev) ⟨s, 0, 0⟩ es) :
    Guarded (Siege.step dev) (Siege.Throttled dev) ⟨s, 0, 0⟩ es := by
  have hstart : Booked dev ⟨s, 0, 0⟩ :=
    fun _ => ⟨by simp, fun h => absurd h (Nat.lt_irrefl 0)⟩
  exact hno.mono_of_invariant (fun x => Booked dev x) hstart
    fun _ e hx hok => Booked.step hx e hok

end Throttle

def guess (passphrase : Bytes) (disable : Bool) : Auth := ⟨passphrase, 0, 0, 0, false, disable⟩

/-- Two wrong unlocks of a locked device, with the boot the first one asks for. -/
theorem guesses_throttled_unlock :
    Guarded (Siege.step toyDevice) (Siege.Throttled toyDevice) ⟨lockedWith none, 0, 0⟩
      [.auth (toyEnv 0) (guess [2] false), .boot (toyEnv 0), .auth (toyEnv 0) (guess [3] false)] :=
  guesses_throttled _ _ (guarded_cons.mpr ⟨fun h => absurd h (by decide),
    guarded_cons.mpr ⟨trivial, guarded_cons.mpr ⟨fun h => absurd h (by decide), guarded_nil⟩⟩⟩)

/-- Two wrong disables of an unlocked device, with no boot between them. -/
theorem guesses_unthrottled :
    ¬ Guarded (Siege.step toyDevice) (Siege.Throttled toyDevice)
      ⟨((State.blank.provision toyDevice (toyEnv 0) [1] 1 0 0).2.runWork toyDevice
        ⟨[], fun _ _ => (toyEnv 0).nonce .dek, fun _ _ => true⟩).2, 0, 0⟩
      ([.auth (toyEnv 0) (guess [2] true)] ++ [.auth (toyEnv 0) (guess [3] true)]) := by
  intro h
  exact absurd (h.last (by decide +kernel) (by decide +kernel)) (by decide +kernel)

end Zephyrtastic.Lockdown
