import Zephyrtastic.Lib.Run
import Zephyrtastic.Lockdown.Effects

/-!
# The exposure ceiling

One passphrase entry buys a session and a budget of boots, and every reboot and
every session cap takes one of them. The cap is kept in milliseconds in 32 bits:
up to 4294967 seconds it holds through every roll and reboot; above that it wraps.
-/

namespace Zephyrtastic.Lockdown

open Run

/-- What happens to a device between two passphrases. -/
inductive Idle where
  | boot (env : Env)
  | wait (env : Env) (ms : Nat)
  | lock

/-- A device and the number of sessions since the passphrase. -/
structure Exposure where
  state : State
  sessions : Nat

def Exposure.step (dev : Device) (x : Exposure) : Idle → Exposure
  | .boot env =>
    let s := x.state.boot dev env
    ⟨s, if s.dekOk then x.sessions + 1 else x.sessions⟩
  | .wait env ms =>
    let r := x.state.wait dev env ms
    ⟨r.2, if r.1 = some .sessionRolled then x.sessions + 1 else x.sessions⟩
  | .lock => ⟨x.state.lockNow.2, x.sessions⟩

variable (dev : Device) (boots : UInt8) (sessionS : UInt32) in
/-- The passphrase was taken, in an unlock or to provision the device, with a boot
budget and a cap. -/
inductive Admitted : State → Prop where
  | unlocked (s : State) (env : Env) (passphrase : Bytes) (validUntil : UInt32)
      (h : (s.unlock dev env passphrase boots validUntil sessionS).1 = .ok ()) :
      Admitted (s.unlock dev env passphrase boots validUntil sessionS).2
  | provisioned (s : State) (env : Env) (passphrase : Bytes) (validUntil : UInt32)
      (h : (s.provision dev env passphrase boots validUntil sessionS).1 = .ok ()) :
      Admitted (s.provision dev env passphrase boots validUntil sessionS).2

/-- A token in flash carries the cap, and its budget still fits the sessions. -/
def TokenWithin (dev : Device) (boots : UInt8) (sessionS : UInt32) (sessions : Nat)
    (s : State) : Prop :=
  ∀ rec, s.recToken = some rec → ∃ dek m, openToken dev rec = .ok (dek, m) ∧
    m.sessionS = sessionS ∧ sessions + m.boots.toNat ≤ boots.toNat + 1

/-- The session under way is armed for the cap and not past it. -/
structure InSession (boots : UInt8) (sessionS : UInt32) (sessions : Nat) (s : State) : Prop where
  budget : sessions + s.bootsRemaining.toNat ≤ boots.toNat + 1
  maxMs : s.sessionMaxMs = sessionS * 1000
  due : s.sessionDue = some (s.sessionStartedMs + sessionS.toNat * 1000)
  started : s.sessionStartedMs ≤ s.uptimeMs
  lasted : s.uptimeMs ≤ s.sessionStartedMs + sessionS.toNat * 1000

structure Exposure.Bounded (dev : Device) (boots : UInt8) (sessionS : UInt32) (x : Exposure) :
    Prop where
  sessions : x.sessions ≤ boots.toNat + 1
  token : TokenWithin dev boots sessionS x.sessions x.state
  session : x.state.dekOk = true → InSession boots sessionS x.sessions x.state

/-- The cap is reached: a boot of the budget pays for the next session, or the device
locks. -/
inductive State.EndsSession (dev : Device) (s : State) (env : Env) (ms : Nat) : Prop where
  | rolls (h : s.bootsRemaining ≠ 0) (event : (s.wait dev env ms).1 = some .sessionRolled)
      (boots : (s.wait dev env ms).2.bootsRemaining = s.bootsRemaining - 1)
      (starts : (s.wait dev env ms).2.sessionStartedMs = (s.wait dev env ms).2.uptimeMs)
  | locks (h : s.bootsRemaining = 0) (event : (s.wait dev env ms).1 = some .sessionExhausted)
      (locked : (s.wait dev env ms).2.dekOk = false)

/-- The ceiling of one passphrase entry: at most one session more than its boots, none
longer than the cap, and the cap unchanged in every token. -/
structure Exposure.Ceiling (dev : Device) (boots : UInt8) (sessionS : UInt32) (x : Exposure) :
    Prop where
  sessions : x.sessions ≤ boots.toNat + 1
  lasts : x.state.dekOk = true →
    x.state.uptimeMs ≤ x.state.sessionStartedMs + sessionS.toNat * 1000
  ends : x.state.dekOk = true → ∀ env ms,
    x.state.sessionStartedMs + sessionS.toNat * 1000 ≤ x.state.uptimeMs + ms →
      x.state.EndsSession dev env ms
  cap : ∀ rec, x.state.recToken = some rec → ∃ dek m, openToken dev rec = .ok (dek, m) ∧
    m.sessionS = sessionS

open Exposure

section Bounded
variable {dev : Device} {boots : UInt8} {sessionS : UInt32}

theorem sessionS_maxMs (h : sessionS.toNat * 1000 < 2 ^ 32) :
    sessionS * 1000 / 1000 = sessionS := by
  have hk : (1000 : UInt32).toNat = 1000 := rfl
  apply UInt32.toNat_inj.mp
  rw [UInt32.toNat_div, UInt32.toNat_mul, hk, Nat.mod_eq_of_lt h]
  omega

theorem sessionS_ne (h0 : sessionS ≠ 0) (h : sessionS.toNat * 1000 < 2 ^ 32) :
    sessionS * 1000 ≠ 0 := by
  intro hz
  have := sessionS_maxMs h
  rw [hz] at this
  exact h0 this.symm

variable {s : State} {x : Exposure}

/-- Whatever starts a session within the budget leaves the device bounded. -/
theorem State.Starts.bounded (h0 : sessionS ≠ 0) (h : sessionS.toNat * 1000 < 2 ^ 32)
    {s' : State} {left : UInt8} (hs : s.Starts dev left sessionS s') {sessions : Nat}
    (hb : sessions + left.toNat ≤ boots.toNat + 1) :
    Bounded dev boots sessionS ⟨s', sessions⟩ := by
  refine ⟨Nat.le_trans (Nat.le_add_right _ _) hb, ?_, fun _ => ⟨?_, hs.maxMs, ?_, ?_, ?_⟩⟩
  · intro rec hrec
    cases hs.leaves with
    | spent _ hnone => simp only [hnone, reduceCtorEq] at hrec
    | token _ dek validUntil nonce htoken =>
      obtain rfl := Option.mem_unique htoken hrec
      exact ⟨dek, _, openToken_tokenRec _ _ _, rfl, hb⟩
  · simp only [hs.budget]
    exact hb
  · simp only [hs.due, hs.started, if_pos h0, dev.kSeconds_eq sessionS h]
  · simp only [hs.started, hs.uptime, Nat.le_refl]
  · simp only [hs.started, hs.uptime]
    omega

theorem Admitted.starts (ha : Admitted dev boots sessionS s) :
    ∃ s₀ : State, s₀.Starts dev (bootsOrDefault dev boots) (sessionOrDefault dev sessionS) s := by
  cases ha with
  | unlocked s env passphrase validUntil h =>
    have hu : s.Unlocked dev env passphrase boots validUntil sessionS _ :=
      unlock_unlocked s env passphrase boots validUntil sessionS
    generalize s.unlock dev env passphrase boots validUntil sessionS = r at hu h
    cases hu with
    | refused => cases h
    | opened s' =>
      have hs : s'.Starts dev _ _ _ := grant_starts s' env boots validUntil sessionS
      exact ⟨s', hs.armReload⟩
  | provisioned s env passphrase validUntil h =>
    have hp : s.Provisioned dev env passphrase boots validUntil sessionS _ :=
      provision_provisioned s env passphrase boots validUntil sessionS
    generalize s.provision dev env passphrase boots validUntil sessionS = r at hp h
    cases hp with
    | refused => cases h
    | done _ kek =>
      have hs : (s.keyed dev env kek).Starts dev _ _ _ :=
        grant_starts (s.keyed dev env kek) env boots validUntil sessionS
      exact ⟨_, { hs with leaves := hs.leaves.congr rfl rfl }⟩

theorem Admitted.bounded (hB : boots ≠ 0) (h0 : sessionS ≠ 0) (h : sessionS.toNat * 1000 < 2 ^ 32)
    (ha : Admitted dev boots sessionS s) :
    Bounded dev boots sessionS ⟨s, 1⟩ := by
  obtain ⟨s₀, hs⟩ := ha.starts
  rw [show bootsOrDefault dev boots = boots from if_pos hB,
    show sessionOrDefault dev sessionS = sessionS from if_pos h0] at hs
  exact hs.bounded h0 h (by omega)

section
variable (h0 : sessionS ≠ 0) (h : sessionS.toNat * 1000 < 2 ^ 32)
include h0 h

section
variable (hx : x.Bounded dev boots sessionS)
include hx

theorem boot_bounded (env : Env) : (x.step dev (.boot env)).Bounded dev boots sessionS := by
  have hb : x.state.Booted dev env (x.state.boot dev env) := boot_booted x.state env
  obtain ⟨b, hw⟩ := @woken_eq dev x.state env
  simp only [step]
  generalize x.state.boot dev env = s' at hb
  cases hb with
  | stock => exact ⟨hx.sessions, hx.token, fun hopen => absurd hopen Bool.false_ne_true⟩
  | locked _ s' hc =>
    obtain ⟨hnone, hkey⟩ := hc.refused
    have hshut : s'.dekOk = false := by rw [hkey, hw]; rfl
    simp only [hshut, Bool.false_eq_true, if_false]
    refine ⟨hx.sessions, fun rec hrec => ?_, fun hopen => ?_⟩
    · exact absurd (hnone.symm.trans hrec) (by simp)
    · exact absurd hopen Bool.false_ne_true
  | unlocked _ s' hc =>
    cases hc with
    | accepted rec hrec dek m hopen _ hboots =>
      have hslot : x.state.recToken = some rec := by rw [hw] at hrec; exact hrec
      obtain ⟨dek', m', hopen', hcap, hfit⟩ := hx.token rec hslot
      obtain ⟨rfl, rfl⟩ := Prod.mk.inj (Except.ok.inj (hopen.symm.trans hopen'))
      have hs : (((x.state.woken dev env).noteMono dev env m.mono)).Starts dev (m.boots - 1)
          m.sessionS _ := acceptToken_starts _ env dek m
      rw [hcap] at hs
      have hone := toNat_sub_one hboots
      rw [if_pos hs.dekOk]
      exact hs.bounded h0 h (by omega)

theorem wait_bounded (env : Env) (ms : Nat) :
    (x.step dev (.wait env ms)).Bounded dev boots sessionS := by
  have hw : x.state.Waited dev env ms (x.state.wait dev env ms) := wait_waited x.state env ms
  simp only [step]
  generalize x.state.wait dev env ms = r at hw
  cases hw with
  | passed hbefore =>
    refine ⟨hx.sessions, hx.token, fun hopen => ?_⟩
    have hin := hx.session hopen
    have hlt := hbefore _ hin.due
    exact ⟨hin.budget, hin.maxMs, hin.due, Nat.le_trans hin.started (Nat.le_add_right _ _),
      Nat.le_of_lt hlt⟩
  | idle due _ _ hidle =>
    refine ⟨hx.sessions, hx.token, fun hopen => ?_⟩
    have hmax := (hx.session hopen).maxMs
    rw [hidle hopen] at hmax
    exact absurd hmax.symm (sessionS_ne h0 h)
  | exhausted =>
    exact ⟨hx.sessions, fun _ hrec => absurd hrec (Option.some_ne_none _).symm,
      fun hopen => absurd hopen Bool.false_ne_true⟩
  | rolled due _ _ hopen _ hboots =>
    have hin := hx.session hopen
    have hs : (x.state.due due).Starts dev (x.state.bootsRemaining - 1)
        (x.state.sessionMaxMs / 1000) _ := consumeSessionBoot_starts _ env hopen hboots
    rw [hin.maxMs, sessionS_maxMs h] at hs
    have hone := toNat_sub_one hboots
    have hfit := hin.budget
    exact hs.bounded h0 h (by simp only [if_true]; omega)

theorem Exposure.step_bounded (e : Idle) : (x.step dev e).Bounded dev boots sessionS := by
  cases e with
  | boot env => exact boot_bounded h0 h hx env
  | wait env ms => exact wait_bounded h0 h hx env ms
  | lock =>
    exact ⟨hx.sessions, fun _ hrec => absurd hrec (Option.some_ne_none _).symm,
      fun hopen => absurd hopen Bool.false_ne_true⟩

end

theorem InSession.ends {sessions : Nat}
    (hin : InSession boots sessionS sessions s) (hopen : s.dekOk = true) (env : Env)
    {ms : Nat} (hlate : s.sessionStartedMs + sessionS.toNat * 1000 ≤ s.uptimeMs + ms) :
    s.EndsSession dev env ms := by
  have hw : s.Waited dev env ms (s.wait dev env ms) := wait_waited s env ms
  generalize hr : s.wait dev env ms = r at hw
  cases hw with
  | passed hbefore => exact absurd (hbefore _ hin.due) (Nat.not_lt_of_le hlate)
  | idle _ _ _ hidle =>
    exact absurd (hin.maxMs.symm.trans (hidle hopen)) (sessionS_ne h0 h)
  | exhausted _ _ _ _ _ hboots => exact .locks hboots (by rw [hr]) (by rw [hr]; rfl)
  | rolled due _ _ _ _ hboots =>
    have hs : (s.due due).Starts dev (s.bootsRemaining - 1) (s.sessionMaxMs / 1000)
        ((s.due due).consumeSessionBoot dev env) := consumeSessionBoot_starts _ env hopen hboots
    exact .rolls hboots (by rw [hr]) (by rw [hr, hs.budget]) (by rw [hr, hs.started, hs.uptime])

theorem Exposure.Bounded.ceiling (hx : x.Bounded dev boots sessionS) :
    x.Ceiling dev boots sessionS where
  sessions := hx.sessions
  lasts hopen := (hx.session hopen).lasted
  ends hopen env _ hlate := (hx.session hopen).ends h0 h hopen env hlate
  cap rec hrec := by
    obtain ⟨dek, m, hopen, hcap, _⟩ := hx.token rec hrec
    exact ⟨dek, m, hopen, hcap⟩

end

/-- **One passphrase entry with a cap of at most 4294967 seconds keeps its ceiling**
through every mixture of reboots, session caps and locks. -/
theorem exposure_ceiling (hB : boots ≠ 0) (h0 : sessionS ≠ 0)
    (h : sessionS.toNat * 1000 < 2 ^ 32) {s : State} (ha : Admitted dev boots sessionS s)
    (es : List Idle) : (run (Exposure.step dev) ⟨s, 1⟩ es).Ceiling dev boots sessionS := by
  have hx : (run (step dev) ⟨s, 1⟩ es).Bounded dev boots sessionS :=
    run_keeps (Bounded dev boots sessionS) (ha.bounded hB h0 h)
      (fun _ e hx _ => step_bounded h0 h hx e) guarded_true
  exact hx.ceiling h0 h

end Bounded

def provisionedFor (boots : UInt8) (sessionS : UInt32) : State :=
  (State.blank.provision toyDevice (toyEnv 0) [1] boots 0 sessionS).2

/-- Two boots and a cap of one minute, over a roll and a reboot. -/
theorem exposure_ceiling_minute :
    (run (Exposure.step toyDevice) ⟨provisionedFor 2 60, 1⟩
      [.wait (toyEnv 0) 60000, .boot (toyEnv 0), .wait (toyEnv 0) 59000]).Ceiling toyDevice 2 60 :=
  exposure_ceiling (by decide) (by decide) (by decide)
    (.provisioned State.blank (toyEnv 0) [1] 0 (by decide +kernel)) _

/-- A cap of 2 ^ 29 seconds is no cap at all, one of 4294968 is gone with the first
roll, and one of 4294970 comes back from the first roll as two seconds. -/
theorem exposure_unbounded :
    ¬ (run (Exposure.step toyDevice) ⟨provisionedFor 1 536870912, 1⟩ [.wait (toyEnv 0) 0,
      .wait (toyEnv 0) 536870912001]).Ceiling toyDevice 1 536870912 ∧
    ¬ (run (Exposure.step toyDevice) ⟨provisionedFor 1 4294968, 1⟩ [.wait (toyEnv 0) 704,
      .wait (toyEnv 0) 4294968001]).Ceiling toyDevice 1 4294968 ∧
    ¬ (run (Exposure.step toyDevice) ⟨provisionedFor 2 4294970, 1⟩
      [.wait (toyEnv 0) 2704]).Ceiling toyDevice 2 4294970 := by
  refine ⟨fun hc => ?_, fun hc => ?_, fun hc => ?_⟩
  · exact absurd (hc.lasts (by decide +kernel)) (by decide +kernel)
  · exact absurd (hc.lasts (by decide +kernel)) (by decide +kernel)
  · have hread : (((run (step toyDevice) ⟨provisionedFor 2 4294970, 1⟩
        [.wait (toyEnv 0) 2704]).state.recToken.bind fun rec =>
          (openToken toyDevice rec).toOption).map fun token => token.2.sessionS) = some 2 := by
      decide +kernel
    have hcap := hc.cap
    generalize (run (step toyDevice) ⟨provisionedFor 2 4294970, 1⟩
      [.wait (toyEnv 0) 2704]).state.recToken = token at hread hcap
    cases token with
    | none => cases hread
    | some rec =>
      obtain ⟨dek, m, hopen, hm⟩ := hcap rec rfl
      simp [hopen, Except.toOption, hm] at hread

end Zephyrtastic.Lockdown
