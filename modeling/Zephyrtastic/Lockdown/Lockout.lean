import Zephyrtastic.Lockdown.Effects

/-!
# Waiting out the backoff

After wrong passphrases the gate asks for time and for reboots. The reboots are
counted by the boot itself, but a record at the attempt limit is not counted, and
a damaged record reads as one: such a device can never be unlocked again.
-/

namespace Zephyrtastic.Lockdown

open State

/-- The device reboots `n` times and nobody tries a passphrase. -/
def State.reboot (dev : Device) (envs : Nat → Env) : Nat → State → State
  | 0, s => s
  | n + 1, s => (reboot dev envs n s).boot dev (envs n)

/-- Let `ms` go by, through as many session deadlines as there is fuel for. -/
def State.pauseFuel (dev : Device) (env : Env) : Nat → Nat → State → State
  | 0, _, s => s
  | fuel + 1, ms, s =>
    let s' := (s.wait dev env ms).2
    if s'.uptimeMs = s.uptimeMs + ms then s'
    else pauseFuel dev env fuel (s.uptimeMs + ms - s'.uptimeMs) s'

/-- Let `ms` go by. Every deadline but the last takes a boot of the budget, so 257
of them are enough. -/
def State.pause (dev : Device) (s : State) (env : Env) (ms : Nat) : State :=
  pauseFuel dev env 257 ms s

/-- The passphrase opens an intact key record. -/
structure State.Intact (dev : Device) (s : State) (passphrase : Bytes) : Prop where
  provisioned : s.provisioned = true
  fits : passphraseFits passphrase = true
  opens : ∃ kek dek, dev.psa.pbkdf2 passphrase (dekIters s.recDek) = some kek ∧
    loadDek dev kek s.recDek = .ok dek

/-- A clock's reading `t` seconds after the last of `n` reboots: there is none, or it
runs for as long as the longest delay. -/
def ClockRuns (clock : Nat → Nat → UInt32) : Prop :=
  ∀ n, (∀ t, clock n t = 0) ∨ ∀ t ≤ backoffCapS, (clock n t).toNat = (clock n 0).toNat + t

section Waiting
variable {dev : Device} {s : State} {env : Env}

theorem pauseFuel_sameStore (env : Env) (fuel ms : Nat) (s : State) :
    s.SameStore (s.pauseFuel dev env fuel ms) := by
  induction fuel generalizing ms s with
  | zero => exact .refl s
  | succ fuel ih =>
    have hw : s.Waited dev env ms (s.wait dev env ms) := wait_waited s env ms
    simp only [pauseFuel]
    split
    · exact hw.sameStore
    · exact hw.sameStore.trans (ih _ _)

variable (envs : Nat → Env) (n : Nat)

theorem backoffDoubled_le (delay : Nat) : backoffDoubled n delay ≤ max delay backoffCapS := by
  induction n generalizing delay with
  | zero => exact Nat.le_max_left _ _
  | succ n ih =>
    unfold backoffDoubled
    split
    · exact Nat.le_max_right _ _
    · have := ih (delay * 2)
      omega

theorem backoffDelay_le (attempts : UInt8) : backoffDelay attempts ≤ backoffCapS := by
  unfold backoffDelay
  split
  · exact Nat.zero_le _
  · exact backoffDoubled_le _ 5

theorem bootsNeeded_le {delay : Nat} (h : delay ≤ backoffCapS) : bootsNeeded delay ≤ 180 := by
  unfold backoffCapS at h
  unfold bootsNeeded
  simp only
  split <;> omega

theorem bumped_attempts (b : Backoff) : b.bumped.attempts = b.attempts := by
  unfold Backoff.bumped
  split <;> rfl

theorem bumped_boots {b : Backoff} (h0 : b.attempts ≠ 0) (hmax : b.attempts ≠ backoffMaxAttempts) :
    b.bumped.bootsSinceFail.toNat = min 255 (b.bootsSinceFail.toNat + 1) := by
  have hlt := b.bootsSinceFail.toNat_lt
  unfold Backoff.bumped
  rw [if_neg (not_or.mpr ⟨h0, hmax⟩)]
  simp only
  split
  · next h =>
    have := UInt8.lt_iff_toNat_lt.mp h
    rw [UInt8.toNat_add]
    simp only [UInt8.toNat_ofNat] at this ⊢
    omega
  · next h =>
    have := mt UInt8.lt_iff_toNat_lt.mpr h
    simp only [UInt8.toNat_ofNat] at this
    omega

theorem bumped_limit {b : Backoff} (h : b.attempts = backoffMaxAttempts) : b.bumped = b :=
  if_pos (.inr h)

theorem reboot_recDek (s : State) : (s.reboot dev envs n).recDek = s.recDek := by
  induction n with
  | zero => rfl
  | succ n ih => exact (boot_wakes _ (envs n)).recDek.trans ih

theorem reboot_backoff_succ {s : State} (h : s.recDek.isSome = true) :
    (s.reboot dev envs (n + 1)).backoff dev = ((s.reboot dev envs n).backoff dev).bumped := by
  refine (boot_wakes _ (envs n)).backoff.trans (if_pos ?_)
  rw [reboot_recDek, h]

/-- Boots leave a record at the limit, or without a failure, as it is; any other
one counts them. -/
theorem reboot_backoff {s : State} (h : s.recDek.isSome = true) :
    ((s.reboot dev envs n).backoff dev).attempts = (s.backoff dev).attempts ∧
      ((s.backoff dev).attempts = backoffMaxAttempts →
        (s.reboot dev envs n).backoff dev = s.backoff dev) ∧
      ((s.backoff dev).attempts ≠ 0 → (s.backoff dev).attempts ≠ backoffMaxAttempts →
        ((s.reboot dev envs n).backoff dev).bootsSinceFail.toNat =
          min 255 ((s.backoff dev).bootsSinceFail.toNat + n)) := by
  induction n with
  | zero =>
    have hlt := (s.backoff dev).bootsSinceFail.toNat_lt
    refine ⟨rfl, fun _ => rfl, fun _ _ => ?_⟩
    simp only [reboot]
    omega
  | succ n ih =>
    obtain ⟨hatt, hlimit, hcount⟩ := ih
    rw [reboot_backoff_succ envs n h, bumped_attempts]
    refine ⟨hatt, fun hm => ?_, fun h0 hm => ?_⟩
    · rw [hlimit hm, bumped_limit hm]
    · rw [bumped_boots (by rw [hatt]; exact h0) (by rw [hatt]; exact hm), hcount h0 hm]
      omega

theorem backoff_congr {s' : State} (hs : s.SameStore s') :
    s'.backoff dev = s.backoff dev := congrArg (readBackoff dev) hs.recBackoff

/-- The gate is open when the boots are there, no failure is remembered in RAM and
the clock asks for nothing. -/
theorem backoffGate_open (hboots : (s.backoff dev).attempts = 0 ∨
      180 ≤ (s.backoff dev).bootsSinceFail.toNat) (hfail : s.lastFailMs = 0)
    (hepoch : epochWait env (s.backoff dev) (backoffDelay (s.backoff dev).attempts) = 0) :
    s.backoffGate dev env = 0 := by
  unfold backoffGate
  simp only
  split
  · next hpos =>
    have hne : (s.backoff dev).attempts ≠ 0 := fun h => by simp [h] at hpos
    have hlarge := hboots.resolve_left hne
    have hneed := bootsNeeded_le (backoffDelay_le (s.backoff dev).attempts)
    have hwait : bootsWait (s.backoff dev) (backoffDelay (s.backoff dev).attempts) = 0 := by
      unfold bootsWait
      omega
    have hup : s.uptimeWait (backoffDelay (s.backoff dev).attempts) = 0 :=
      if_neg (not_not.mpr hfail)
    rw [hepoch, hwait, hup]
    rfl
  · rfl

theorem backoffGate_limit (hmax : (s.backoff dev).attempts = backoffMaxAttempts)
    (hfew : (s.backoff dev).bootsSinceFail.toNat < 180) : s.backoffGate dev env ≠ 0 := by
  have hneed : bootsNeeded (backoffDelay backoffMaxAttempts) = 180 := by decide
  unfold backoffGate
  simp only [hmax]
  rw [if_pos (by decide)]
  have hwait : bootsWait (s.backoff dev) (backoffDelay backoffMaxAttempts) ≠ 0 := by
    unfold bootsWait
    omega
  omega

theorem verify_right {passphrase : Bytes} (h : s.Intact dev passphrase)
    (hgate : s.backoffGate dev env = 0) : (s.verify dev env passphrase).1 = .ok () := by
  obtain ⟨kek, dek, hkek, hload⟩ := h.opens
  have hv : s.Verified dev env passphrase (s.verify dev env passphrase) :=
    verify_verified s env passphrase
  generalize s.verify dev env passphrase = r at hv
  cases hv with
  | turnedAway _ _ _ hask => exact absurd ⟨h.fits, h.provisioned, hgate, hkek⟩ (hask kek)
  | wrong kek' hask _ hbad =>
    obtain rfl : kek' = kek := Option.mem_unique hask.2.2.2 hkek
    exact absurd (hbad.symm.trans hload) (by simp)
  | right => rfl

theorem verify_gate {passphrase : Bytes} (h : (s.verify dev env passphrase).1 = .ok ()) :
    s.backoffGate dev env = 0 := by
  have hv : s.Verified dev env passphrase (s.verify dev env passphrase) :=
    verify_verified s env passphrase
  generalize s.verify dev env passphrase = r at hv h
  cases hv with
  | turnedAway | wrong => simp at h
  | right _ hask => exact hask.2.2.1

theorem State.Intact.isSome {passphrase : Bytes} (h : s.Intact dev passphrase) :
    s.recDek.isSome = true := by
  obtain ⟨_, _, _, hload⟩ := h.opens
  exact loadDek_isSome hload

/-- With a clock that runs, the wall clock stops asking after fifteen minutes. -/
theorem epochWait_zero {clock : Nat → Nat → UInt32} (hclock : ClockRuns clock) (n : Nat)
    (b : Backoff) {delay : Nat} (hdelay : delay ≤ backoffCapS) (env : Env) :
    ∃ t, epochWait { env with epoch := clock n t } b delay = 0 := by
  rcases hclock n with habsent | hruns
  · exact ⟨0, if_neg fun h => h.1 (habsent 0)⟩
  by_cases hlate : (clock n 0).toNat < b.lastFailEpoch.toNat
  · refine ⟨0, if_neg fun h => ?_⟩
    exact absurd (UInt32.le_iff_toNat_le.mp h.2.2) (Nat.not_le_of_lt hlate)
  refine ⟨backoffCapS, ?_⟩
  have hread := hruns backoffCapS (Nat.le_refl _)
  unfold epochWait
  split
  · simp only [hread]
    omega
  · rfl

/-- At the limit, no number of reboots and no wait opens the gate. -/
theorem verify_limit (h : s.recDek.isSome = true)
    (hmax : (s.backoff dev).attempts = backoffMaxAttempts)
    (hfew : (s.backoff dev).bootsSinceFail.toNat < 180) (envs : Nat → Env) (n ms : Nat)
    (env env' : Env) (passphrase : Bytes) :
    (((s.reboot dev envs n).pause dev env ms).verify dev env' passphrase).1 ≠ .ok () := by
  intro hok
  have hsame : ((s.reboot dev envs n).pause dev env ms).backoff dev = s.backoff dev :=
    (backoff_congr (pauseFuel_sameStore env 257 _ _)).trans ((reboot_backoff envs n h).2.1 hmax)
  exact backoffGate_limit (by rw [hsame, hmax]) (by rw [hsame]; exact hfew) (verify_gate hok)

/-- **The right passphrase is taken after some number of reboots and some wait
exactly when the record is not at the attempt limit, or has the boots already.** -/
theorem unlock_eventually_iff {passphrase : Bytes} (h : s.Intact dev passphrase)
    {clock : Nat → Nat → UInt32} (hclock : ClockRuns clock) (envs : Nat → Env) (env : Env)
    (boots : UInt8) (validUntil sessionS : UInt32) :
    (∃ n t, (((s.reboot dev envs n).pause dev env (1000 * t)).unlock dev
      { env with epoch := clock n t } passphrase boots validUntil sessionS).1 = .ok ()) ↔
      (s.backoff dev).attempts ≠ backoffMaxAttempts ∨
        180 ≤ (s.backoff dev).bootsSinceFail.toNat := by
  simp only [unlock_result]
  constructor
  · rintro ⟨n, t, hok⟩
    by_contra hno
    obtain ⟨hmax, hfew⟩ := not_or.mp hno
    exact verify_limit h.isSome (not_not.mp hmax) (Nat.lt_of_not_le hfew) envs n _ env _ _ hok
  · intro hcond
    have hwake : (s.reboot dev envs 254).Wakes dev (s.reboot dev envs 255) := boot_wakes _ _
    have hrec : (s.reboot dev envs 255).recDek = s.recDek := reboot_recDek envs 255 s
    obtain ⟨hatt, hlimit, hcount⟩ := @reboot_backoff dev envs 255 s h.isSome
    have hboots : ((s.reboot dev envs 255).backoff dev).attempts = 0 ∨
        180 ≤ ((s.reboot dev envs 255).backoff dev).bootsSinceFail.toNat := by
      by_cases h0 : (s.backoff dev).attempts = 0
      · exact .inl (hatt.trans h0)
      refine .inr ?_
      by_cases hmax : (s.backoff dev).attempts = backoffMaxAttempts
      · rw [hlimit hmax]
        exact hcond.resolve_left (not_not.mpr hmax)
      · rw [hcount h0 hmax]
        omega
    obtain ⟨t, ht⟩ := epochWait_zero hclock 255 ((s.reboot dev envs 255).backoff dev)
      (backoffDelay_le ((s.reboot dev envs 255).backoff dev).attempts) env
    have hsame : (s.reboot dev envs 255).SameStore
        ((s.reboot dev envs 255).pause dev env (1000 * t)) := pauseFuel_sameStore env 257 _ _
    have hback := @backoff_congr dev _ _ hsame
    refine ⟨255, t, verify_right ⟨?_, h.fits, ?_⟩ (backoffGate_open ?_ ?_ ?_)⟩
    · rw [hsame.provisioned, hwake.provisioned, reboot_recDek, h.isSome]
    · rw [hsame.recDek, hrec]
      exact h.opens
    · rw [hback]
      exact hboots
    · rw [hsame.lastFailMs, hwake.lastFailMs]
    · rw [hback]
      exact ht

end Waiting

/-- Provisioned and locked, with a given backoff record. -/
def lockedWith (backoff : Option Bytes) : State :=
  { (State.blank.provision toyDevice (toyEnv 0) [1] 1 0 0).2.lockNow.2 with recBackoff := backoff }

theorem lockedWith_intact (backoff : Option Bytes) : (lockedWith backoff).Intact toyDevice [1] := by
  have h : (lockedWith none).Intact toyDevice [1] := ⟨rfl, rfl, ⟨1 :: List.replicate 15 0, rfl⟩,
    ⟨List.replicate 16 7, rfl⟩, by decide +kernel, by decide +kernel⟩
  exact { h with }

def failedAttempts (attempts : UInt8) : Bytes :=
  backoffRec toyDevice ⟨attempts, 0, 0⟩ ((toyEnv 0).nonce .reserve)

/-- One failure on record, and no clock. -/
theorem unlock_eventually_one :
    ∃ n t, ((lockedWith (some (failedAttempts 1))).reboot toyDevice (fun _ => toyEnv 0) n |>.pause
      toyDevice (toyEnv 0) (1000 * t) |>.unlock toyDevice (toyEnv 0) [1] 0 0 0).1 = .ok () :=
  (unlock_eventually_iff (lockedWith_intact _)
    (show ClockRuns fun _ _ => 0 from fun _ => .inl fun _ => rfl) (fun _ => toyEnv 0) (toyEnv 0)
    0 0 0).mpr (.inl (by decide +kernel))

/-- A saturated record shuts the device for ever, and so does a damaged one. -/
theorem unlock_never :
    (∀ n t, ((lockedWith (some (failedAttempts 255))).reboot toyDevice (fun _ => toyEnv 0) n
      |>.pause toyDevice (toyEnv 0) (1000 * t) |>.unlock toyDevice (toyEnv 0) [1] 0 0 0).1 ≠
        .ok ()) ∧
    ∀ n t, ((lockedWith (some [])).reboot toyDevice (fun _ => toyEnv 0) n |>.pause toyDevice
      (toyEnv 0) (1000 * t) |>.unlock toyDevice (toyEnv 0) [1] 0 0 0).1 ≠ .ok () := by
  simp only [unlock_result]
  constructor <;> intro n t <;>
    exact verify_limit rfl (by decide +kernel) (by decide +kernel) _ n _ _ _ _

end Zephyrtastic.Lockdown
