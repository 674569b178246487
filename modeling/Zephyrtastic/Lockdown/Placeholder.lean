import Zephyrtastic.Lib.Run
import Zephyrtastic.Lockdown.Lockout
import Zephyrtastic.Lockdown.Store

/-!
# Placeholders and the store

A locked boot leaves defaults in RAM until a reload has read the real records with
the data key. Saves run on other threads at any time, also between the two halves
of an unlock: the key is in RAM before the reload is owed.
-/

namespace Zephyrtastic.Lockdown

open Run State

variable (dev : Device) (x : Scene)

/-- Where the thread with the passphrase stands. -/
inductive Phase where
  | idle
  /-- The passphrase is admitted, the reload not yet owed. -/
  | checked (disabling : Bool)
  /-- A disable that has only its own flags left to set. -/
  | armed
  deriving DecidableEq, Repr

/-- The device, whether its RAM holds placeholders, and the thread with the
passphrase. -/
structure Scene where
  state : State
  placeholder : Bool
  phase : Phase

inductive Turn where
  | boot (env : Env)
  /-- `meshtastic_lockdown_save_one` or `meshtastic_lockdown_export`. -/
  | save (name : Name) (val : Bytes) (nonce : Nonce) (ok : Bool)
  | wrapBuf (name : Name) (val : Bytes) (cap : Nat) (nonce : Nonce)
  | unlock (env : Env) (passphrase : Bytes) (boots : UInt8) (validUntil sessionS : UInt32)
  | disable (env : Env) (passphrase : Bytes)
  /-- The thread with the passphrase takes its next step. -/
  | resume
  | lock
  | wait (env : Env) (ms : Nat)
  | work (out : Outside)

/-- The first half of an unlock, up to the key in RAM. -/
def Scene.check (env : Env) (passphrase : Bytes) (boots : UInt8)
    (validUntil sessionS : UInt32) (disabling : Bool) : Scene :=
  match x.state.verify dev env passphrase with
  | (.error _, s) => { x with state := s }
  | (.ok _, s) =>
    { x with state := s.grant dev env boots validUntil sessionS, phase := .checked disabling }

def Scene.startDisable (env : Env) (passphrase : Bytes) : Scene :=
  if !x.state.provisioned || (x.state.rewritePending || x.state.reloadPending) then x
  else if !x.state.dekOk || x.state.needsReload then x.check dev env passphrase 0 0 0 true
  else if x.state.provePassphrase dev passphrase then { x with phase := .armed }
  else x

def Scene.step : Turn → Scene
  | .boot env =>
    let s := x.state.boot dev env
    ⟨s, s.provisioned && !s.dekOk, .idle⟩
  | .save name val nonce ok => { x with state := (x.state.saveOne dev name val nonce ok).2 }
  | .wrapBuf _ _ _ _ => x
  | .unlock env passphrase boots validUntil sessionS =>
    if x.phase = .idle then x.check dev env passphrase boots validUntil sessionS false else x
  | .disable env passphrase =>
    if x.phase = .idle then x.startDisable dev env passphrase else x
  | .resume =>
    match x.phase with
    | .idle => x
    | .checked disabling =>
      { x with state := x.state.armReload, phase := if disabling then .armed else .idle }
    | .armed => { x with state := x.state.startDisable, phase := .idle }
  | .lock => { x with state := x.state.lockNow.2 }
  | .wait env ms => { x with state := (x.state.wait dev env ms).2 }
  | .work out =>
    { x with
      state := (x.state.runWork dev out).2
      -- the reload reads the records with whatever key there is
      placeholder := x.placeholder &&
        !(decide (x.state.queue.head? = some .reload) && x.state.dekOk) }

/-- No wrapped write succeeds while the RAM is a placeholder, and no rewrite emits
it. -/
def Scene.Keeps : Turn → Prop
  | .save name val nonce _ => x.placeholder = true →
      x.state.wrapWrite dev name val nonce = .error .acces
  | .wrapBuf name val cap nonce => x.placeholder = true →
      x.state.wrapBuf dev name val cap nonce = .error .acces
  | .work _ => x.placeholder = true → x.state.queue.head? ≠ some .rewrite
  | _ => True

/-- A write now falls neither into the window of an unlock that owes a reload nor
between a disable and its reload. -/
def Scene.OutsideWindows : Prop :=
  (x.state.needsReload = true → ∀ disabling, x.phase ≠ .checked disabling) ∧
    ¬ (x.state.sealingOff = true ∧ x.state.reloadPending = true)

/-- Writes stay outside the windows, and a reload finds the key. -/
def Scene.Orderly : Turn → Prop
  | .save .. | .wrapBuf .. => x.OutsideWindows
  | .work _ => x.state.queue.head? = some .reload → x.state.dekOk = true
  | _ => True

/-- What holds as long as the RAM is a placeholder. -/
structure Scene.Owed (x : Scene) : Prop where
  provisioned : x.state.provisioned = true
  needsReload : x.state.needsReload = true
  opened : x.state.dekOk = true → x.state.reloadPending = true ∨ ∃ d, x.phase = .checked d
  sealing : x.state.sealingOff = true → x.state.reloadPending = true
  armed : x.phase = .armed → x.state.reloadPending = true
  idle : x.state.reloadPending = false → x.state.queue = []
  queued : x.state.reloadPending = true →
    x.state.queue = [.reload] ∨ x.state.queue = [.reload, .rewrite]

section Placeholder
variable {dev : Device} {x : Scene}
variable (s : State)

section
variable (placeholder : Bool) (env : Env) (passphrase : Bytes)

end

theorem Scene.Owed.not_ready (hx : x.Owed) (hout : x.OutsideWindows) :
    x.state.sealingOff = false ∧ x.state.storeReady = false := by
  have hseal : x.state.sealingOff = false := by
    by_contra h
    have hs : x.state.sealingOff = true := by simpa using h
    exact hout.2 ⟨hs, hx.sealing hs⟩
  refine ⟨hseal, ?_⟩
  by_contra h
  have hr : x.state.dekOk = true ∧ x.state.reloadPending = false := by
    simpa [storeReady, hx.provisioned] using h
  rcases hx.opened hr.1 with hp | ⟨d, hd⟩
  · exact absurd (hp.symm.trans hr.2) (by decide)
  · exact hout.1 hx.needsReload d hd

/-- The flags a save looks at are as they were, and the key has not come. -/
structure State.SameFlags (s s' : State) : Prop where
  provisioned : s'.provisioned = s.provisioned
  needsReload : s'.needsReload = s.needsReload
  dekOk : s'.dekOk = true → s.dekOk = true
  reloadPending : s'.reloadPending = s.reloadPending
  sealingOff : s'.sealingOff = s.sealingOff
  queue : s'.queue = s.queue

theorem Scene.Owed.congr (hx : x.Owed) {s : State} {placeholder : Bool}
    (hs : x.state.SameFlags s) : Scene.Owed ⟨s, placeholder, x.phase⟩ where
  provisioned := hs.provisioned.trans hx.provisioned
  needsReload := hs.needsReload.trans hx.needsReload
  opened h := by rw [hs.reloadPending]; exact hx.opened (hs.dekOk h)
  sealing h := by rw [hs.reloadPending]; exact hx.sealing (hs.sealingOff ▸ h)
  armed h := by rw [hs.reloadPending]; exact hx.armed h
  idle h := by rw [hs.queue]; exact hx.idle (hs.reloadPending ▸ h)
  queued h := by rw [hs.queue]; exact hx.queued (hs.reloadPending ▸ h)

theorem check_owed (hx : x.Owed) (env : Env) (passphrase : Bytes)
    (boots : UInt8) (validUntil sessionS : UInt32) (disabling : Bool) :
    (x.check dev env passphrase boots validUntil sessionS disabling).Owed := by
  have hv : x.state.Verified dev env passphrase (x.state.verify dev env passphrase) :=
    verify_verified x.state env passphrase
  unfold Scene.check
  generalize x.state.verify dev env passphrase = r at hv
  cases hv with
  | turnedAway | wrong => exact hx.congr ⟨rfl, rfl, fun h => h, rfl, rfl, rfl⟩
  | right =>
    exact { hx with opened := fun _ => .inr ⟨disabling, rfl⟩, armed := fun h => by cases h }

theorem armReload_owed (hx : x.Owed) (phase : Phase) :
    Scene.Owed ⟨x.state.armReload, x.placeholder, phase⟩ := by
  have harm : x.state.armReload = { x.state with reloadPending := true }.submit .reload :=
    if_pos hx.needsReload
  have hqueue : x.state.armReload.queue = [.reload] ∨
      x.state.armReload.queue = [.reload, .rewrite] := by
    rw [harm]
    cases hp : x.state.reloadPending with
    | false => simp [submit, hx.idle hp]
    | true => rcases hx.queued hp with h | h <;> simp [submit, h]
  rw [harm] at hqueue ⊢
  exact ⟨hx.provisioned, hx.needsReload, fun _ => .inl rfl, fun _ => rfl, fun _ => rfl,
    (fun h => by cases h), fun _ => hqueue⟩

theorem startDisable_owed (hx : x.Owed) (hphase : x.phase = .armed) :
    Scene.Owed ⟨x.state.startDisable, x.placeholder, .idle⟩ := by
  have hpend := hx.armed hphase
  refine ⟨hx.provisioned, hx.needsReload, fun _ => .inl hpend, fun _ => hpend, fun _ => hpend,
    fun h => absurd (hpend.symm.trans h) (by decide), fun _ => ?_⟩
  rcases hx.queued hpend with h | h <;> simp [startDisable, submit, h]

theorem boot_owed (env : Env)
    (h : ((s.boot dev env).provisioned && !(s.boot dev env).dekOk) = true) (placeholder : Bool) :
    Scene.Owed ⟨s.boot dev env, placeholder, .idle⟩ := by
  obtain ⟨hprov, hlock⟩ : (s.boot dev env).provisioned = true ∧ (s.boot dev env).dekOk = false := by
    simpa using h
  have hw : s.Wakes dev (s.boot dev env) := boot_wakes s env
  have hneeds : (s.boot dev env).needsReload = true := by
    have hb : s.Booted dev env (s.boot dev env) := boot_booted s env
    generalize s.boot dev env = s' at hb hprov hlock
    cases hb with
    | stock => cases hprov
    | locked => rfl
    | unlocked _ _ hc =>
      cases hc with
      | accepted _ _ dek m =>
        exact absurd (hlock.symm.trans (acceptToken_starts _ env dek m).dekOk) (by decide)
  exact ⟨hprov, hneeds, fun hd => absurd (hlock.symm.trans hd) (by decide),
    fun hs => absurd (hw.sealingOff.symm.trans hs) (by decide), (fun hp => by cases hp),
    fun _ => hw.queue, fun hr => absurd (hw.reloadPending.symm.trans hr) (by decide)⟩

theorem startDisable_check_owed (hx : x.Owed) (env : Env) (passphrase : Bytes) :
    (x.startDisable dev env passphrase).Owed := by
  unfold Scene.startDisable
  split
  · exact hx
  · split
    · exact check_owed hx env passphrase 0 0 0 true
    · next h => simp [hx.needsReload] at h

/-- While the RAM is a placeholder, an orderly turn other than a boot keeps the reload
owed or makes it. -/
theorem Scene.Owed.step (hx : x.Owed) (e : Turn) (hok : x.Orderly e)
    (hstill : (x.step dev e).placeholder = true) : (x.step dev e).Owed := by
  cases e with
  | boot env => exact boot_owed x.state env hstill _
  | save name val nonce ok =>
    obtain ⟨records, hr⟩ := @saveOne_onlyRecords dev x.state name val nonce ok
    simp only [Scene.step, hr]
    exact hx.congr ⟨rfl, rfl, fun h => h, rfl, rfl, rfl⟩
  | wrapBuf => exact hx
  | unlock env passphrase boots validUntil sessionS =>
    simp only [Scene.step]
    split
    · exact check_owed hx env passphrase boots validUntil sessionS false
    · exact hx
  | disable env passphrase =>
    simp only [Scene.step]
    split
    · exact startDisable_check_owed hx env passphrase
    · exact hx
  | resume =>
    simp only [Scene.step]
    split
    · exact hx
    · exact armReload_owed hx _
    · next hphase => exact startDisable_owed hx hphase
  | lock => exact hx.congr ⟨rfl, rfl, fun h => absurd h Bool.false_ne_true, rfl, rfl, rfl⟩
  | wait env ms =>
    have hw : x.state.Waited dev env ms (x.state.wait dev env ms) := wait_waited x.state env ms
    have hs := hw.sameStore
    refine hx.congr ⟨hs.provisioned, hs.needsReload, ?_, hs.reloadPending, hs.sealingOff, hs.queue⟩
    generalize x.state.wait dev env ms = r at hw
    cases hw with
    | passed | idle => exact fun h => h
    | exhausted => exact fun h => by cases h
    | rolled _ _ _ hopen => exact fun _ => hopen
  | work out =>
    have hw : x.state.Worked (x.state.runWork dev out) := runWork_worked x.state out
    simp only [Scene.step] at hstill ⊢
    generalize x.state.runWork dev out = r at hw
    cases hw with
    | idle => exact hx.congr ⟨rfl, rfl, fun h => h, rfl, rfl, rfl⟩
    | reloaded rest h =>
      have hd : x.state.dekOk = true := hok (by rw [h]; rfl)
      simp [h, hd] at hstill
    | sealed rest h | disabled rest h =>
      cases hp : x.state.reloadPending with
      | false => simp [hx.idle hp] at h
      | true => rcases hx.queued hp with hq | hq <;> simp [hq] at h

theorem check_placeholder (env : Env) (passphrase : Bytes) (boots : UInt8)
    (validUntil sessionS : UInt32) (disabling : Bool) :
    (x.check dev env passphrase boots validUntil sessionS disabling).placeholder =
      x.placeholder := by
  unfold Scene.check
  split <;> rfl

/-- Only a boot makes placeholders. -/
theorem step_placeholder (e : Turn) (h : (x.step dev e).placeholder = true) :
    x.placeholder = true ∨ ∃ env, e = .boot env := by
  cases e with
  | boot env => exact .inr ⟨env, rfl⟩
  | save | wrapBuf | lock | wait => exact .inl h
  | unlock env passphrase boots validUntil sessionS =>
    simp only [Scene.step] at h
    split at h
    · rw [check_placeholder] at h
      exact .inl h
    · exact .inl h
  | disable env passphrase =>
    simp only [Scene.step, Scene.startDisable] at h
    repeat' split at h
    all_goals first | exact .inl h | exact .inl ((check_placeholder ..).symm.trans h)
  | resume =>
    simp only [Scene.step] at h
    split at h <;> exact .inl h
  | work out => exact .inl (Bool.and_eq_true_iff.mp h).1

theorem Scene.Owed.keeps (hx : x.placeholder = true → x.Owed) (e : Turn) (hok : x.Orderly e) :
    x.Keeps dev e := by
  cases e with
  | save name val nonce ok =>
    intro hp
    obtain ⟨hseal, hready⟩ := (hx hp).not_ready hok
    simp [wrapWrite, (hx hp).provisioned, hseal, hready]
  | wrapBuf name val cap nonce =>
    intro hp
    obtain ⟨hseal, hready⟩ := (hx hp).not_ready hok
    simp [wrapBuf, (hx hp).provisioned, hseal, hready]
  | work out =>
    intro hp
    cases hr : x.state.reloadPending with
    | false => simp [(hx hp).idle hr]
    | true => rcases (hx hp).queued hr with h | h <;> simp [h]
  | boot | unlock | disable | resume | lock | wait => trivial

/-- **In an orderly run no placeholder reaches the store**, from any state whose RAM
holds the real records. -/
theorem placeholders_kept (s : State) (phase : Phase) (es : List Turn)
    (hok : Guarded (Scene.step dev) Scene.Orderly ⟨s, false, phase⟩ es) :
    Guarded (Scene.step dev) (Scene.Keeps dev) ⟨s, false, phase⟩ es := by
  refine hok.mono_of_invariant (fun x => x.placeholder = true → x.Owed) (fun h => by cases h)
    fun x e hx hord => ⟨fun h => ?_, Scene.Owed.keeps hx e hord⟩
  rcases step_placeholder e h with hp | ⟨env, rfl⟩
  · exact (hx hp).step e hord h
  · exact boot_owed x.state env h _

end Placeholder

def unlockTurns : List Turn := [.unlock (toyEnv 0) [1] 0 0 0, .resume]

def saveTurn : Turn := .save "mtclus/x".toList [5] ((toyEnv 0).nonce .dek) true

def noWrites : Outside := ⟨[], fun _ _ => (toyEnv 0).nonce .dek, fun _ _ => true⟩

/-- A save before the unlock and one after its reload. -/
theorem placeholders_kept_unlock :
    Guarded (Scene.step toyDevice) (Scene.Keeps toyDevice) ⟨lockedWith none, false, .idle⟩
      [.boot (toyEnv 0), saveTurn, .unlock (toyEnv 0) [1] 0 0 0, .resume, .work noWrites,
        saveTurn] :=
  placeholders_kept _ _ _ (by
    refine guarded_cons.mpr ⟨trivial, guarded_cons.mpr ⟨⟨?_, ?_⟩, guarded_cons.mpr ⟨trivial,
      guarded_cons.mpr ⟨trivial, guarded_cons.mpr ⟨fun _ => ?_, guarded_cons.mpr ⟨⟨?_, ?_⟩,
        guarded_nil⟩⟩⟩⟩⟩⟩
    · exact fun _ _ h => by cases h
    · decide +kernel
    · decide +kernel
    · exact fun h => absurd h (by decide +kernel)
    · decide +kernel)

/-- Placeholders are written: in the clear by a save between a disable from a locked
boot and its reload, sealed after a reload that ran without the key, and sealed by a
save between the two halves of the unlock. -/
theorem placeholders_written :
    ¬ Guarded (Scene.step toyDevice) (Scene.Keeps toyDevice) ⟨lockedWith none, false, .idle⟩
      ([.boot (toyEnv 0), .disable (toyEnv 0) [1], .resume, .resume] ++ [saveTurn]) ∧
    ¬ Guarded (Scene.step toyDevice) (Scene.Keeps toyDevice) ⟨lockedWith none, false, .idle⟩
      ([.boot (toyEnv 0)] ++ unlockTurns ++ [.lock, .work noWrites] ++ unlockTurns ++
        [saveTurn]) ∧
    ¬ Guarded (Scene.step toyDevice) (Scene.Keeps toyDevice) ⟨lockedWith none, false, .idle⟩
      ([.boot (toyEnv 0), .unlock (toyEnv 0) [1] 0 0 0] ++ [saveTurn]) := by
  refine ⟨fun h => ?_, fun h => ?_, fun h => ?_⟩ <;>
    exact absurd (h.last (by decide +kernel)) (by decide +kernel)

end Zephyrtastic.Lockdown
