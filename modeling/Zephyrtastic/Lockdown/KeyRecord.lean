import Zephyrtastic.Lockdown.Rollback

/-!
# The key record

No history of a provisioned device changes its key record.
-/

namespace Zephyrtastic.Lockdown

open Run Vault

variable {dev : Device} {v : Vault}

/-- The device is provisioned with this key record. -/
structure State.Keeps (s : State) (rec : Bytes) : Prop where
  recDek : s.recDek = some rec
  provisioned : s.provisioned = true

theorem Vault.step_keeps {rec : Bytes} (h : v.state.Keeps rec) (a : Act) :
    (v.step dev a).state.Keeps rec := by
  cases a with
  | provision env passphrase boots validUntil sessionS =>
    have hp : v.state.Provisioned dev env passphrase boots validUntil sessionS _ :=
      provision_provisioned ..
    simp only [step, moves]
    generalize v.state.provision .. = r at hp
    cases hp with
    | refused => exact { h with }
    | done hnew => exact absurd (h.provisioned.symm.trans hnew) (by simp)
  | unlock env passphrase boots validUntil sessionS =>
    have hu : v.state.Unlocked dev env passphrase boots validUntil sessionS _ :=
      unlock_unlocked ..
    simp only [step, moves]
    generalize v.state.unlock .. = r at hu
    cases hu with
    | refused _ _ hver => cases hver <;> exact { h with }
    | opened s' hver =>
      obtain ⟨_, _, heq⟩ := armReload_eq (s'.grant dev env boots validUntil sessionS)
      rw [heq]
      cases hver with
      | right => exact { h with }
  | boot env putBack =>
    have hw : (v.tampered putBack).Wakes dev _ := boot_wakes _ env
    have hrec : (v.tampered putBack).recDek = some rec := by
      unfold Vault.tampered
      split <;> exact h.recDek
    exact ⟨hw.recDek.trans hrec, hw.provisioned.trans (by rw [hrec]; rfl)⟩
  | wait env ms =>
    have hw : v.state.Waited dev env ms _ := wait_waited ..
    have hs := hw.sameStore
    exact ⟨hs.recDek.trans h.recDek, hs.provisioned.trans h.provisioned⟩
  | lock => exact { h with }

/-- **The passphrase a device was provisioned with opens it after every history**, with the key
that was drawn then, once no wait is left. -/
theorem passphrase_opens {passphrase : Bytes} {kek : AesKey} (hnew : v.state.provisioned = false)
    (hfit : passphraseFits passphrase = true)
    (hkek : dev.psa.pbkdf2 passphrase dev.pbkdf2Iterations = some kek) (env now : Env)
    (boots : UInt8) (validUntil sessionS : UInt32) (acts : List Act) :
    let s := (run (step dev) (v.step dev (.provision env passphrase boots validUntil sessionS))
      acts).state
    s.verify dev now passphrase = if s.backoffGate dev now > 0
      then (.error .again, { s with backoffRemainingS := s.backoffGate dev now })
      else (.ok (), { s.booked dev now with dek := env.newDek }) := by
  intro s
  have h : s.Keeps (dekRec dev kek env.newDek dev.pbkdf2Iterations (env.nonce .dek)) := by
    refine run_keeps (fun v : Vault => v.state.Keeps _) ?_ (fun _ a h _ => step_keeps h a)
      guarded_true
    simp only [step, moves, State.provision, hfit, hnew, hkek]
    exact ⟨rfl, rfl⟩
  obtain ⟨hload, hiters⟩ := loadDek_dekRec kek env.newDek dev.pbkdf2Iterations (env.nonce .dek)
  rw [← h.recDek] at hload hiters
  rw [State.verify, if_neg (by simp [hfit]), if_neg (by simp [h.provisioned])]
  refine ite_congr rfl (fun _ => rfl) fun _ => ?_
  simp only [hiters, hkek, State.writeBackoff, hload]
  rfl

theorem passphrase_opens_locked :
    ((run (step toyDevice) (Vault.blank.step toyDevice (.provision (toyEnv 0) [1] 1 0 0))
      [.lock, .boot (toyEnv 0) none]).state.verify toyDevice (toyEnv 0) [1]).1 = .ok () := by
  rw [passphrase_opens rfl rfl rfl, if_neg (by decide +kernel)]

end Zephyrtastic.Lockdown
