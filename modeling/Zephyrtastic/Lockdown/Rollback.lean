import Zephyrtastic.Lib.Run
import Zephyrtastic.Lockdown.Effects

/-!
# Putting a token back

An attacker with the flash may put any token record the device ever stored back
into its slot before a boot. Old records fail against the monotonic counter.
-/

namespace Zephyrtastic.Lockdown

open List Option Run

variable (dev : Device) (v : Vault)

/-- The device, every token record it has stored (the newest first), and those that
are spent or revoked. -/
structure Vault where
  state : State
  issued : List Bytes
  dead : List Bytes

inductive Act where
  | provision (env : Env) (passphrase : Bytes) (boots : UInt8) (validUntil sessionS : UInt32)
  | unlock (env : Env) (passphrase : Bytes) (boots : UInt8) (validUntil sessionS : UInt32)
  /-- A boot, after the attacker has put back the record at an index, if any. -/
  | boot (env : Env) (putBack : Option Nat)
  | wait (env : Env) (ms : Nat)
  | lock

/-- The state with the slot as the attacker left it. -/
def Vault.tampered (putBack : Option Nat) : State :=
  match putBack.bind fun i => v.issued[i]? with
  | some rec => { v.state with recToken := some rec }
  | none => v.state

/-- The token record a boot accepts. -/
def Vault.accepts (env : Env) (putBack : Option Nat) : Option Bytes :=
  if ((v.tampered putBack).boot dev env).dekOk then (v.tampered putBack).recToken else none

/-- The device moves on; a record that is new in the slot has been stored by it. -/
def Vault.moves (s : State) (dead : List Bytes) : Vault where
  state := s
  issued := match s.recToken with
    | some rec => if rec ∈ v.issued then v.issued else rec :: v.issued
    | none => v.issued
  dead

/-- What a boot ends: the record it found, accepted or not, and with the last boot of
the budget every record there is. -/
def Vault.bootDead (env : Env) (putBack : Option Nat) : List Bytes :=
  let s := (v.tampered putBack).boot dev env
  if s.dekOk && decide (s.bootsRemaining = 0) then v.issued
  else if s.recToken = (v.tampered putBack).recToken then v.dead
  else (v.tampered putBack).recToken.toList ++ v.dead

/-- What the session work item ends. -/
def Vault.waitDead (r : Option Event × State) : List Bytes :=
  if r.1 = some .sessionExhausted ∨ r.1 = some .sessionRolled ∧ r.2.bootsRemaining = 0 then v.issued
  else v.dead

def Vault.step : Act → Vault
  | .provision env passphrase boots validUntil sessionS =>
    v.moves (v.state.provision dev env passphrase boots validUntil sessionS).2 v.dead
  | .unlock env passphrase boots validUntil sessionS =>
    v.moves (v.state.unlock dev env passphrase boots validUntil sessionS).2 v.dead
  | .boot env putBack =>
    v.moves ((v.tampered putBack).boot dev env) (v.bootDead dev env putBack)
  | .wait env ms =>
    v.moves (v.state.wait dev env ms).2 (v.waitDead (v.state.wait dev env ms))
  | .lock => v.moves v.state.lockNow.2 v.issued

/-- A boot accepts no record that is spent or revoked. -/
def Vault.Refuses : Act → Prop
  | .boot env putBack => ∀ rec, v.accepts dev env putBack = some rec → rec ∉ v.dead
  | _ => True

/-- The newest record is not put back once it is spent or revoked, unless its epoch
limit has passed too. -/
def Vault.NewestAlive : Act → Prop
  | .boot env putBack => putBack = some 0 → ∀ rec dek m, v.issued.head? = some rec →
      openToken dev rec = .ok (dek, m) → rec ∈ v.dead → m.expired env = true
  | _ => True

/-- The records are counted: the newest carries the stored counter and each older one
a counter less by one. -/
structure Vault.Counted : Prop where
  mono : (v.state.mono dev).toNat = v.issued.length
  genuine : ∀ i rec, v.issued[i]? = some rec → ∃ dek m, openToken dev rec = .ok (dek, m) ∧
    m.boots ≠ 0 ∧ m.mono.toNat + i = v.issued.length
  slot : ∀ rec, v.state.recToken = some rec → v.issued.head? = some rec ∧ rec ∉ v.dead
  dead : ∀ rec ∈ v.dead, rec ∈ v.issued
  keyed : v.issued ≠ [] ∨ v.state.dekOk = true → v.state.recDek.isSome = true

open Vault

section Rollback
variable {dev : Device} {v : Vault}
variable {dek : AesKey} {m : TokenMeta} {dead : List Bytes} {s : State}

theorem Vault.Counted.fresh (hv : v.Counted dev) {nonce : Nonce}
    (hm : m.mono.toNat = v.issued.length + 1) : tokenRec dev dek m nonce ∉ v.issued := by
  intro hmem
  obtain ⟨i, hi⟩ := getElem?_of_mem hmem
  obtain ⟨dek', m', hopen, _, hcount⟩ := hv.genuine i _ hi
  rw [openToken_tokenRec] at hopen
  obtain ⟨_, rfl⟩ := Prod.mk.inj (Except.ok.inj hopen)
  omega

theorem Vault.Counted.moves_same (hv : v.Counted dev)
    (hi : (v.moves s dead).issued = v.issued) (hmono : s.mono dev = v.state.mono dev)
    (hkey : v.issued ≠ [] ∨ s.dekOk = true → s.recDek.isSome = true)
    (hdead : ∀ rec ∈ dead, rec ∈ v.issued)
    (hslot : ∀ rec, s.recToken = some rec → v.issued.head? = some rec ∧ rec ∉ dead) :
    (v.moves s dead).Counted dev := by
  constructor <;> rw [hi]
  · exact (congrArg UInt32.toNat hmono).trans hv.mono
  · exact hv.genuine
  · exact hslot
  · exact hdead
  · exact hkey

theorem Vault.Counted.moves_kept (hv : v.Counted dev)
    (htoken : s.recToken = v.state.recToken) (hmono : s.mono dev = v.state.mono dev)
    (hkey : s.recDek = v.state.recDek) (hopen : s.dekOk = v.state.dekOk) :
    (v.moves s v.dead).Counted dev := by
  have hslot : ∀ rec, s.recToken = some rec → v.issued.head? = some rec ∧ rec ∉ v.dead :=
    fun rec h => hv.slot rec (htoken.symm.trans h)
  refine hv.moves_same ?_ hmono (by rw [hkey, hopen]; exact hv.keyed) hv.dead hslot
  simp only [moves]
  split
  · next rec h => exact if_pos (mem_of_mem_head? (hslot rec h).1)
  · rfl

theorem Vault.Counted.moves_cleared (hv : v.Counted dev)
    (htoken : s.recToken = none) (hmono : s.mono dev = v.state.mono dev)
    (hkey : v.issued ≠ [] → s.recDek.isSome = true) (hlock : s.dekOk = false)
    (hdead : ∀ rec ∈ dead, rec ∈ v.issued) : (v.moves s dead).Counted dev := by
  refine hv.moves_same ?_ hmono ?_ hdead fun rec h => absurd (htoken.symm.trans h) (by simp)
  · simp only [moves, htoken]
  · rw [hlock]
    exact fun h => hkey (h.resolve_right Bool.false_ne_true)

section
variable (hv : v.Counted dev) (hroom : v.issued.length + 1 < 2 ^ 32)
  (env : Env) (passphrase : Bytes) (boots : UInt8) (validUntil sessionS : UInt32)
include hv hroom

theorem Vault.Counted.moves_written {nonce : Nonce}
    (htoken : s.recToken = some (tokenRec dev dek m nonce)) (hboots : m.boots ≠ 0)
    (hcounter : m.mono = v.state.mono dev + 1) (hmono : s.mono dev = v.state.mono dev + 1)
    (hkey : s.recDek.isSome = true) (hdead : ∀ rec ∈ dead, rec ∈ v.issued) :
    (v.moves s dead).Counted dev := by
  have hnext : (v.state.mono dev + 1).toNat = v.issued.length + 1 := by
    have hone : (1 : UInt32).toNat = 1 := rfl
    rw [UInt32.toNat_add, hv.mono, hone, Nat.mod_eq_of_lt hroom]
  have hfresh : tokenRec dev dek m nonce ∉ v.issued := hv.fresh (by rw [hcounter, hnext])
  have hi : (v.moves s dead).issued = tokenRec dev dek m nonce :: v.issued := by
    simp only [moves, htoken, if_neg hfresh]
  refine ⟨?_, ?_, ?_, ?_, fun _ => hkey⟩
  · rw [hi]
    exact (congrArg UInt32.toNat hmono).trans hnext
  · rw [hi]
    intro i rec hrec
    cases i with
    | zero =>
      obtain rfl := some.inj hrec
      exact ⟨dek, m, openToken_tokenRec _ _ _, hboots, by rw [hcounter, hnext]; rfl⟩
    | succ i =>
      obtain ⟨dek', m', hopen, hb, hcount⟩ := hv.genuine i rec hrec
      exact ⟨dek', m', hopen, hb, by rw [length_cons]; omega⟩
  · rw [hi]
    intro rec hrec
    obtain rfl := mem_unique htoken hrec
    exact ⟨rfl, fun hd => hfresh (hdead _ hd)⟩
  · rw [hi]
    exact fun rec hd => mem_cons_of_mem _ (hdead rec hd)

theorem Vault.Counted.moves_leaves {s₀ : State} {boots : UInt8} {sessionS : UInt32}
    (hl : s₀.Leaves dev boots sessionS s) (hbase : s₀.mono dev = v.state.mono dev)
    (hkey : s.recDek.isSome = true) (hdead : ∀ rec ∈ dead, rec ∈ v.issued) :
    (v.moves s dead).Counted dev := by
  cases hl with
  | spent _ token mono =>
    refine hv.moves_same ?_ (mono.trans hbase) (fun _ => hkey) hdead
      fun rec h => absurd (token.symm.trans h) (by simp)
    simp only [moves, token]
  | token h dek validUntil nonce token mono =>
    rw [hbase] at token mono
    exact hv.moves_written hroom token h rfl mono hkey hdead

theorem unlock_counted :
    (v.step dev (.unlock env passphrase boots validUntil sessionS)).Counted dev := by
  have hu : v.state.Unlocked dev env passphrase boots validUntil sessionS _ :=
    unlock_unlocked v.state env passphrase boots validUntil sessionS
  simp only [step]
  generalize v.state.unlock dev env passphrase boots validUntil sessionS = r at hu
  cases hu with
  | refused _ s' hver => cases hver <;> exact hv.moves_kept rfl rfl rfl rfl
  | opened s' hver =>
    cases hver with
    | right _ _ dek hload =>
      have hs : ({ v.state.booked dev env with dek } : State).Starts dev _ _ _ :=
        grant_starts _ env boots validUntil sessionS
      refine hv.moves_leaves hroom hs.armReload.leaves rfl ?_ hv.dead
      obtain ⟨_, _, heq⟩ := armReload_eq
        (({ v.state.booked dev env with dek } : State).grant dev env boots validUntil sessionS)
      rw [heq]
      exact loadDek_isSome hload

theorem provision_counted :
    (v.step dev (.provision env passphrase boots validUntil sessionS)).Counted dev := by
  have hp : v.state.Provisioned dev env passphrase boots validUntil sessionS _ :=
    provision_provisioned v.state env passphrase boots validUntil sessionS
  simp only [step]
  generalize v.state.provision dev env passphrase boots validUntil sessionS = r at hp
  cases hp with
  | refused => exact hv.moves_kept rfl rfl rfl rfl
  | done _ kek =>
    have hs : (v.state.keyed dev env kek).Starts dev _ _ _ :=
      grant_starts _ env boots validUntil sessionS
    exact hv.moves_leaves hroom (hs.leaves.congr rfl rfl) rfl rfl hv.dead

theorem wait_counted (ms : Nat) : (v.step dev (.wait env ms)).Counted dev := by
  have hw : v.state.Waited dev env ms (v.state.wait dev env ms) := wait_waited v.state env ms
  simp only [step]
  have hdead : ∀ rec ∈ v.waitDead (v.state.wait dev env ms), rec ∈ v.issued := by
    unfold waitDead
    split
    · exact fun _ h => h
    · exact hv.dead
  generalize v.state.wait dev env ms = r at hw hdead
  cases hw with
  | passed | idle => exact hv.moves_kept rfl rfl rfl rfl
  | exhausted => exact hv.moves_cleared rfl rfl (fun h => hv.keyed (.inl h)) rfl hdead
  | rolled due _ _ hopen _ hboots =>
    have hs : (v.state.due due).Starts dev _ _ _ := consumeSessionBoot_starts _ env hopen hboots
    refine hv.moves_leaves hroom hs.leaves rfl ?_ hdead
    rw [(consumeSessionBoot_sameStore (v.state.due due) env).recDek]
    exact hv.keyed (.inr hopen)

end

section
variable (hv : v.Counted dev)
include hv

theorem Vault.Counted.tampered (putBack : Option Nat) :
    (v.tampered putBack).recDek = v.state.recDek ∧
      (v.tampered putBack).recMono = v.state.recMono ∧
      ∀ rec, (v.tampered putBack).recToken = some rec → ∃ i, v.issued[i]? = some rec ∧
        (putBack = some i ∨ rec ∉ v.dead) := by
  unfold Vault.tampered
  split
  · next rec hput =>
    obtain ⟨i, hi, hrec⟩ := bind_eq_some_iff.mp hput
    refine ⟨rfl, rfl, fun rec' h => ⟨i, ?_, .inl hi⟩⟩
    rw [hrec, ← h]
  · refine ⟨rfl, rfl, fun rec h => ⟨0, ?_, .inr (hv.slot rec h).2⟩⟩
    rw [← head?_eq_getElem?]
    exact (hv.slot rec h).1

/-- Only the newest record stands up to the counter. -/
theorem Vault.Counted.newest {i : Nat} {rec : Bytes}
    (hrec : v.issued[i]? = some rec) (hopen : openToken dev rec = .ok (dek, m)) :
    m.boots ≠ 0 ∧ (¬ m.mono < v.state.mono dev ↔ i = 0) ∧
      (i = 0 → m.mono = v.state.mono dev) := by
  obtain ⟨dek', m', hopen', hboots, hcount⟩ := hv.genuine i rec hrec
  obtain ⟨_, rfl⟩ := Prod.mk.inj (Except.ok.inj (hopen.symm.trans hopen'))
  have hmono := hv.mono
  refine ⟨hboots, ?_, fun h0 => UInt32.toNat_inj.mp (by omega)⟩
  rw [UInt32.lt_iff_toNat_lt]
  omega

theorem Vault.Counted.bootDead (env : Env) (putBack : Option Nat) :
    ∀ rec ∈ v.bootDead dev env putBack, rec ∈ v.issued := by
  unfold Vault.bootDead
  simp only
  split
  · exact fun _ h => h
  split
  · exact hv.dead
  intro rec hrec
  rcases mem_append.mp hrec with h | h
  · obtain ⟨i, hi, _⟩ := (hv.tampered putBack).2.2 rec (by simpa using h)
    exact mem_of_getElem? hi
  · exact hv.dead rec h

theorem Vault.Counted.woken (env : Env) (putBack : Option Nat) :
    let s := (v.tampered putBack).woken dev env
    s.recToken = (v.tampered putBack).recToken ∧ s.mono dev = v.state.mono dev ∧
      s.dekOk = false := by
  obtain ⟨b, hw⟩ := @woken_eq dev (v.tampered putBack) env
  rw [hw]
  exact ⟨rfl, congrArg (readMono dev) (hv.tampered putBack).2.1, rfl⟩

theorem boot_counted (hroom : v.issued.length + 1 < 2 ^ 32) (env : Env)
    (putBack : Option Nat) : (v.step dev (.boot env putBack)).Counted dev := by
  obtain ⟨hdek, hmono, htoken⟩ := hv.tampered putBack
  have hdead := hv.bootDead env putBack
  have hb : (v.tampered putBack).Booted dev env _ := boot_booted _ env
  have hwake : (v.tampered putBack).Wakes dev _ := boot_wakes _ env
  obtain ⟨hslot, hwoken, hasleep⟩ := hv.woken env putBack
  have hread : (v.tampered putBack).mono dev = v.state.mono dev := congrArg (readMono dev) hmono
  simp only [step]
  generalize (v.tampered putBack).boot dev env = s' at hb hwake ⊢
  have hkey : v.issued ≠ [] → s'.recDek.isSome = true :=
    fun h => by rw [hwake.recDek, hdek]; exact hv.keyed (.inl h)
  -- a genuine record that is not rolled back carries the stored counter already
  have hnote (rec dek m) :
      let s := (v.tampered putBack).woken dev env
      s.recToken = some rec → openToken dev rec = .ok (dek, m) → ¬ m.mono < s.mono dev →
        (s.noteMono dev env m.mono).mono dev = v.state.mono dev := by
    intro s hrec hopen hlt
    obtain ⟨i, hi, _⟩ := htoken rec (hslot ▸ hrec)
    obtain ⟨_, hzero, heq⟩ := hv.newest hi hopen
    rw [noteMono_mono _ env _ hlt, heq (hzero.mp (hwoken ▸ hlt))]
  cases hb with
  | stock h =>
    have hnil : v.issued = [] := by
      by_contra hne
      have := hv.keyed (.inl hne)
      rw [← hdek, h] at this
      exact absurd this (by simp)
    have hempty : (v.tampered putBack).recToken = none := by
      rw [eq_none_iff_forall_ne_some]
      intro rec hrec
      obtain ⟨i, hi, _⟩ := htoken rec hrec
      simp [hnil] at hi
    exact hv.moves_cleared hempty hread hkey rfl hdead
  | locked h s' hc =>
    obtain ⟨hnone, hlock⟩ := hc.refused
    refine hv.moves_cleared hnone ?_ hkey (hlock.trans hasleep) hdead
    cases hc with
    | missing | malformed | rolledBack => exact hwoken
    | spent rec hrec dek m hopen hlt => exact hnote rec dek m hrec hopen hlt
  | unlocked h s' hc =>
    cases hc with
    | accepted rec hrec dek m hopen hlt =>
      have hs : (((v.tampered putBack).woken dev env).noteMono dev env m.mono).Starts dev _ _ _ :=
        acceptToken_starts _ env dek m
      refine hv.moves_leaves hroom hs.leaves (hnote rec dek m hrec hopen hlt) ?_ hdead
      rw [hwake.recDek]
      exact h

theorem Vault.Counted.step (hroom : v.issued.length + 1 < 2 ^ 32) (a : Act) :
    (v.step dev a).Counted dev := by
  cases a with
  | provision env passphrase boots validUntil sessionS =>
    exact provision_counted hv hroom env passphrase boots validUntil sessionS
  | unlock env passphrase boots validUntil sessionS =>
    exact unlock_counted hv hroom env passphrase boots validUntil sessionS
  | boot env putBack => exact boot_counted hv hroom env putBack
  | wait env ms => exact wait_counted hv hroom env ms
  | lock => exact hv.moves_cleared rfl rfl (fun h => hv.keyed (.inl h)) rfl fun _ h => h

end

theorem Vault.step_issued (a : Act) : (v.step dev a).issued.length ≤ v.issued.length + 1 := by
  have hmoves : ∀ s dead, (v.moves s dead).issued.length ≤ v.issued.length + 1 := by
    intro s dead
    simp only [moves]
    split
    · split
      · exact Nat.le_succ _
      · exact Nat.le_refl _
    · exact Nat.le_succ _
  cases a <;> exact hmoves _ _

/-- A boot takes the newest record exactly when its limits allow it, and no other. -/
theorem Vault.Counted.accepts_iff (hv : v.Counted dev) (env : Env) (putBack : Option Nat)
    (rec : Bytes) : v.accepts dev env putBack = some rec ↔
      (v.tampered putBack).recToken = some rec ∧ v.issued.head? = some rec ∧
        ∀ dek m, openToken dev rec = .ok (dek, m) → m.expired env = false := by
  obtain ⟨hdek, _, htoken⟩ := hv.tampered putBack
  obtain ⟨hslot, hwoken, hasleep⟩ := hv.woken env putBack
  have hb : (v.tampered putBack).Booted dev env _ := boot_booted _ env
  unfold accepts
  generalize (v.tampered putBack).boot dev env = s' at hb
  constructor
  · intro hacc
    split at hacc
    · next hopened =>
      refine ⟨hacc, ?_⟩
      cases hb with
      | stock => exact absurd hopened Bool.false_ne_true
      | locked _ s' hc => exact absurd (hc.refused.2.symm.trans hopened) (by simp [hasleep])
      | unlocked _ s' hc =>
        cases hc with
        | accepted rec' hrec dek m hopen hlt _ hlive =>
          obtain rfl := mem_unique hacc (hslot.symm.trans hrec)
          obtain ⟨i, hi, _⟩ := htoken rec hacc
          obtain rfl := (hv.newest hi hopen).2.1.mp (hwoken ▸ hlt)
          refine ⟨by rw [head?_eq_getElem?, hi], fun dek' m' hopen' => ?_⟩
          obtain ⟨_, rfl⟩ := Prod.mk.inj (Except.ok.inj (hopen.symm.trans hopen'))
          exact hlive
    · cases hacc
  · rintro ⟨hrec, hhead, hlive⟩
    rw [head?_eq_getElem?] at hhead
    obtain ⟨dek, m, hopen, hboots, _⟩ := hv.genuine 0 rec hhead
    have hlt : ¬ m.mono < v.state.mono dev := (hv.newest hhead hopen).2.1.mpr rfl
    have hfound := hslot.trans hrec
    have hopened : s'.dekOk = true := by
      cases hb with
      | stock h =>
        have hne : v.issued ≠ [] := fun h => by simp [h] at hhead
        have := hv.keyed (.inl hne)
        rw [← hdek, h] at this
        cases this
      | locked _ s' hc =>
        -- every refusal contradicts what the record says
        exfalso
        cases hc with
        | missing h => exact absurd (h.symm.trans hfound) (by simp)
        | malformed rec' h _ reason hbad =>
          obtain rfl := mem_unique h hfound
          exact absurd (hbad.symm.trans hopen) (by simp)
        | rolledBack rec' h dek' m' hopen' hback =>
          obtain rfl := mem_unique h hfound
          obtain ⟨_, rfl⟩ := Prod.mk.inj (Except.ok.inj (hopen.symm.trans hopen'))
          exact hlt (hwoken ▸ hback)
        | spent rec' h dek' m' hopen' _ _ hout =>
          obtain rfl := mem_unique h hfound
          obtain ⟨rfl, rfl⟩ := Prod.mk.inj (Except.ok.inj (hopen.symm.trans hopen'))
          exact hout.elim hboots fun hexp => absurd (hlive dek m hopen) (by simp [hexp])
      | unlocked _ s' hc =>
        cases hc with
        | accepted _ _ dek' m' => exact (acceptToken_starts _ env dek' m').dekOk
    rw [if_pos hopened, hrec]

theorem Vault.Counted.refuses_iff (hv : v.Counted dev) (a : Act) :
    v.Refuses dev a ↔ v.NewestAlive dev a := by
  cases a with
  | boot env putBack =>
    simp only [Refuses, NewestAlive, hv.accepts_iff]
    constructor
    · rintro hrefuse rfl rec dek m hhead hopen hdead
      have hput : (v.tampered (some 0)).recToken = some rec := by
        rw [head?_eq_getElem?] at hhead
        simp only [Vault.tampered, bind_some, hhead]
      by_contra hexp
      refine hrefuse rec ⟨hput, hhead, fun dek' m' hopen' => ?_⟩ hdead
      obtain ⟨_, rfl⟩ := Prod.mk.inj (Except.ok.inj (hopen.symm.trans hopen'))
      exact Bool.eq_false_iff.mpr hexp
    · rintro halive rec ⟨hrec, hhead, hlive⟩ hdead
      obtain ⟨i, hi, hput⟩ := (hv.tampered putBack).2.2 rec hrec
      obtain ⟨dek, m, hopen, _, hcount⟩ := hv.genuine i rec hi
      rcases hput with rfl | hlive'
      · rw [head?_eq_getElem?] at hhead
        obtain ⟨_, m', hopen', _, hcount'⟩ := hv.genuine 0 rec hhead
        obtain ⟨_, rfl⟩ := Prod.mk.inj (Except.ok.inj (hopen.symm.trans hopen'))
        obtain rfl : i = 0 := by omega
        have hexp := halive rfl rec dek m (by rw [head?_eq_getElem?, hhead]) hopen hdead
        exact absurd (hlive dek m hopen) (by simp [hexp])
      · exact hlive' hdead
  | provision | unlock | wait | lock => exact Iff.rfl

def Vault.blank : Vault := ⟨.blank, [], []⟩

theorem Vault.blank_counted : blank.Counted dev where
  mono := rfl
  genuine i rec h := by simp [blank] at h
  slot rec h := by cases h
  dead rec h := by cases h
  keyed h := by simp [blank, State.blank] at h

/-! ### Histories -/

/-- **No boot of a history takes a spent or revoked token exactly when the newest
record is never put back after its end**, as long as the counter has not wrapped. -/
theorem dead_token_refused_iff (es : List Act) (hes : es.length < 2 ^ 32) :
    Guarded (Vault.step dev) (Vault.Refuses dev) .blank es ↔
      Guarded (Vault.step dev) (Vault.NewestAlive dev) .blank es := by
  have hinv : ∀ done : List Act, done.length < 2 ^ 32 →
      (run (step dev) .blank done).Counted dev ∧
        (run (step dev) .blank done).issued.length ≤ done.length := by
    intro done hlen
    refine run_invariant (fun (done : List Act) (v : Vault) => done.length < 2 ^ 32 →
      v.Counted dev ∧ v.issued.length ≤ done.length) (fun _ => ⟨blank_counted, Nat.le_refl _⟩)
      (fun done a ih _ h => ?_) done guarded_true hlen
    rw [length_append, length_singleton] at h ⊢
    obtain ⟨hc, hle⟩ := ih (Nat.lt_of_succ_lt h)
    have hstep : ((run (step dev) .blank done).step dev a).issued.length ≤ _ :=
      step_issued a
    exact ⟨hc.step (Nat.lt_of_le_of_lt (Nat.succ_le_succ hle) h) a,
      Nat.le_trans hstep (Nat.succ_le_succ hle)⟩
  have hiff : ∀ done a, done ++ [a] <+: es →
      ((run (step dev) .blank done).Refuses dev a ↔
        (run (step dev) .blank done).NewestAlive dev a) := by
    intro done a hp
    have hlen := hp.length_le
    rw [length_append, length_singleton] at hlen
    exact (hinv done (by omega)).1.refuses_iff a
  exact ⟨fun h done a hp => (hiff done a hp).mp (h done a hp),
    fun h done a hp => (hiff done a hp).mpr (h done a hp)⟩

end Rollback

/-- The token a boot has replaced is put back and refused. -/
theorem dead_token_refused_older :
    Guarded (Vault.step toyDevice) (Vault.Refuses toyDevice) .blank
      [.provision (toyEnv 0) [1] 2 0 0, .boot (toyEnv 0) none, .boot (toyEnv 0) (some 1)] :=
  (dead_token_refused_iff _ (by decide)).mpr
    (guarded_cons.mpr ⟨trivial, guarded_cons.mpr ⟨fun h => absurd h (by decide),
      guarded_cons.mpr ⟨fun h => absurd h (by decide), guarded_nil⟩⟩⟩)

/-- A token of one boot is accepted. -/
def spentHistory : List Act := [.provision (toyEnv 0) [1] 1 0 0, .boot (toyEnv 0) none]

def revokedHistory : List Act := [.provision (toyEnv 0) [1] 5 0 0, .lock]

/-- A token whose only boot is spent unlocks a second boot, and so does one that was
revoked by a lock. -/
theorem dead_token_taken :
    ¬ Guarded (Vault.step toyDevice) (Vault.Refuses toyDevice) .blank
      (spentHistory ++ [.boot (toyEnv 0) (some 0)]) ∧
    ¬ Guarded (Vault.step toyDevice) (Vault.Refuses toyDevice) .blank
      (revokedHistory ++ [.boot (toyEnv 0) (some 0)]) := by
  have hspent : ∃ rec ∈ (run (step toyDevice) .blank spentHistory).dead,
      (run (step toyDevice) .blank spentHistory).accepts toyDevice (toyEnv 0) (some 0) =
        some rec := by decide +kernel
  have hrevoked : ∃ rec ∈ (run (step toyDevice) .blank revokedHistory).dead,
      (run (step toyDevice) .blank revokedHistory).accepts toyDevice (toyEnv 0) (some 0) =
        some rec := by decide +kernel
  obtain ⟨rec, hdead, hacc⟩ := hspent
  obtain ⟨rec', hdead', hacc'⟩ := hrevoked
  exact ⟨fun h => h.last rec hacc hdead, fun h => h.last rec' hacc' hdead'⟩

end Zephyrtastic.Lockdown
