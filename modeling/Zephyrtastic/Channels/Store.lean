import Zephyrtastic.Channels.View
import Zephyrtastic.Channels.Coherence

/-!
# The stored channels and the live ones

The config store has its own copy of the eight channels, and `apply_core` puts it
back into the live table slot by slot. `Mirrors` is what the live table has to be
for that to leave it alone.
-/

namespace Zephyrtastic.Channels

open Channel Function List Run Table View

/-! ### The store and the live table -/

def Channel.isValid (ch : Channel) : Bool :=
  (match ch.role with
    | .unknown _ => false
    | _ => true)
    && (ch.settings.psk.length = 0 || ch.settings.psk.length = 1
      || ch.settings.psk.length = 16 || ch.settings.psk.length = 32)

/-- The stored channels and, of the LoRa section, the modem setting. -/
structure Store where
  channels : Slot → Channel
  lora : Modem

/-- A section given to `set_config`. -/
inductive Section where
  | lora (modem : Modem)
  | other
  deriving DecidableEq

def Section.modem (written : Section) (stored : Modem) : Modem :=
  match written with
  | .lora modem => modem
  | .other => stored

structure Device where
  store : Store
  live : Table

/-- What reaches the store. -/
inductive Change where
  | setChannel (index : Nat) (ch : Channel)
  | setConfig (written : Section)
  | reboot
  deriving DecidableEq

def Change.isEdit : Change → Bool
  | .setChannel _ _ => true
  | .setConfig _ => false
  | .reboot => false

/-- The live table as `meshtastic_init` makes it from the zeroed context, before anything
is loaded. -/
def powerUp (cfg : AppConfig) : Table :=
  initFromConfig ⟨.longFast, false⟩ ⟨[], 0, []⟩ cfg

namespace Device

variable (cfg : AppConfig) (s : Device)

/-- `meshtastic_config_store_apply_core`. The modem setting comes first, for the hashes. -/
def applyCore : Device :=
  let live := { s.live with modem := s.store.lora }
  { s with live := (finRange 8).foldl (fun t i => t.setSlotAt i (s.store.channels i)) live }

/-- `meshtastic_config_store_set_channel`, where the retune that ends it succeeds. -/
def setChannel (index : Nat) (ch : Channel) : Except Errno Device :=
  if h : index < 8 ∧ ch.isValid then
    .ok { store := { s.store with channels := update s.store.channels ⟨index, h.1⟩ ch }
          live := s.live.setSlotAt ⟨index, h.1⟩ ch }
  else .error .einval

def setConfig (written : Section) : Device :=
  applyCore { s with store := { s.store with lora := written.modem s.store.lora } }

/-- `meshtastic_init` on the records that were stored. -/
def reboot : Device :=
  applyCore { s with live := powerUp cfg }

/-- The first boot: `meshtastic_config_store_seed` copies the live slots. -/
def first (lora : Modem) : Device :=
  reboot cfg ⟨⟨(powerUp cfg).slots, lora⟩, powerUp cfg⟩

def step : Change → Device
  | .setChannel index ch => match s.setChannel index ch with
    | .ok s' => s'
    | .error _ => s
  | .setConfig written => s.setConfig written
  | .reboot => s.reboot cfg

end Device

/-! ### A pass over the stored records -/

namespace Channel

variable {ch : Channel}

/-- A channel that can be the primary: `enforce_primary_invariant` leaves or makes it one. -/
def enabled (ch : Channel) : Prop :=
  ch.hasSettings = true ∧ (ch.role = .primary ∨ ch.role = .secondary)

instance (ch : Channel) : Decidable ch.enabled := inferInstanceAs (Decidable (_ ∧ _))

/-- A stored channel in the live table, at a slot that is not the primary. -/
def demoted (ch : Channel) : Channel :=
  if ch.role = .primary then ch.fixup.withRole .secondary else ch.fixup

theorem demoted_enabled (h : ch.enabled) : ch.demoted = ch.fixup.withRole .secondary := by
  obtain ⟨hs, hr | hr⟩ := h
  · exact if_pos hr
  · rw [demoted, if_neg (by rw [hr]; exact Role.noConfusion)]
    exact (withRole_eq ((fixup_role hs).trans hr)).symm

theorem demoted_of_ne (h : ch.role ≠ .primary) : ch.demoted = ch.fixup := if_neg h

theorem fixup_claims (hr : ch.role = .primary) (hs : ch.hasSettings = true) :
    ch.fixup.withRole .primary = ch.fixup :=
  withRole_eq ((fixup_role hs).trans hr)

theorem demote_stored (h : ch.enabled) :
    ((ch.fixup.withRole .primary).withRole .secondary).fixup = ch.demoted := by
  rw [demoted_enabled h]
  exact (ch.fixup_clean.withRole .secondary).fixup_eq

end Channel

section Replay

variable {store : Slot → Channel} {v w : View} {i q : Slot} {ch : Channel} {k : Nat}

/-- No record asks for the primary without settings. -/
def Complete (store : Slot → Channel) : Prop :=
  ∀ j, (store j).role = .primary → (store j).hasSettings = true

/-- The records can be put back from a table whose primary is `q`: when the pass comes to
`q`, another slot is the primary, or `q` can stay. -/
def Accepts (store : Slot → Channel) (q : Slot) : Prop :=
  (∃ j, j ≤ q ∧ (store j).role = .primary) ∨
    (store q).hasSettings = true ∧ (store q).role = .secondary

/-- The live slots are those of the store. -/
structure Mirrors (store : Slot → Channel) (v : View) : Prop where
  complete : Complete store
  other : ∀ j, j ≠ v.primary → v.slots j = (store j).demoted
  own : v.slots v.primary = (store v.primary).fixup.withRole .primary
  enabled : (store v.primary).enabled
  latest : ∀ j, (store j).role = .primary → j ≤ v.primary
  chosen : (store v.primary).role = .primary ∨ ∀ j, (store j).role ≠ .primary

variable (store q k) in
/-- The live slots when the records below `k` have been put back, from the primary `q`. -/
structure Replayed (v : View) : Prop where
  other : ∀ j : Slot, j < k → j ≠ v.primary → v.slots j = (store j).demoted
  own : v.primary < k → v.slots v.primary = (store v.primary).fixup.withRole .primary ∧
    (store v.primary).enabled
  latest : ∀ j : Slot, j < k → (store j).role = .primary → j ≤ v.primary
  chosen : v.primary < k ∧ (store v.primary).role = .primary ∨
    v.primary = q ∧ ∀ j : Slot, j < k → (store j).role ≠ .primary

/-- `apply_core` on the slots and the primary. -/
def View.replay (store : Slot → Channel) (v : View) : View :=
  (finRange 8).foldl (fun v i => v.set i (store i)) v

/-- A slot holds its record, as the primary or as any other slot. -/
structure Stands (ch : Channel) (v : View) (j : Slot) : Prop where
  other : j ≠ v.primary → v.slots j = ch.demoted
  own : j = v.primary → v.slots j = ch.fixup.withRole .primary ∧ ch.enabled

/-- The edits that leave nothing to repair: a slot is made PRIMARY with settings, and the primary
takes another role as a SECONDARY with settings. -/
structure Takes (v : View) (i : Slot) (ch : Channel) : Prop where
  claims : ch.role = .primary → ch.hasSettings = true
  stays : ch.role ≠ .primary → i = v.primary → ch.hasSettings = true ∧ ch.role = .secondary

variable (v i ch) in
/-- The table after such an edit. -/
inductive Taken : View → Prop
  | claim (role : ch.role = .primary) (has : ch.hasSettings = true) :
      Taken ⟨update v.demote i ch.fixup, i⟩
  | promote (role : ch.role = .secondary) (has : ch.hasSettings = true) (own : i = v.primary) :
      Taken ⟨update v.slots i (ch.fixup.withRole .primary), i⟩
  | other (role : ch.role ≠ .primary) (ne : i ≠ v.primary) :
      Taken ⟨update v.slots i ch.fixup, v.primary⟩

theorem Takes.taken (h : Takes v i ch) : Taken v i ch (v.set i ch) := by
  by_cases hr : ch.role = .primary
  · rw [View.set, if_pos hr, if_pos (h.claims hr)]
    exact .claim hr (h.claims hr)
  rw [View.set, if_neg hr]
  by_cases hi : i = v.primary
  · obtain ⟨hs, hsec⟩ := h.stays hr hi
    rw [if_pos hi, if_pos ⟨hs, hsec⟩]
    exact .promote hsec hs hi
  · rw [if_neg hi]
    exact .other hr hi

theorem Taken.primary (h : Taken v i ch w) :
    ch.role = .primary ∧ w.primary = i ∨ ch.role ≠ .primary ∧ w.primary = v.primary := by
  cases h with
  | claim role => exact .inl ⟨role, rfl⟩
  | promote role has own => exact .inr ⟨by rw [role]; exact Role.noConfusion, own⟩
  | other role => exact .inr ⟨role, rfl⟩

theorem Taken.stands (h : Taken v i ch w) : Stands ch w i := by
  cases h with
  | claim role has =>
    refine ⟨fun hne => absurd rfl hne, fun _ => ?_⟩
    dsimp only
    rw [update_self, fixup_claims role has]
    exact ⟨rfl, has, .inl role⟩
  | promote role has own =>
    refine ⟨fun hne => absurd rfl hne, fun _ => ?_⟩
    dsimp only
    rw [update_self]
    exact ⟨rfl, has, .inr role⟩
  | other role ne =>
    refine ⟨fun _ => ?_, fun hp => absurd hp ne⟩
    dsimp only
    rw [update_self, demoted_of_ne role]

theorem Stands.taken {c : Channel} {j : Slot} (hst : Stands c v j) (h : Taken v i ch w)
    (hj : j ≠ i) : Stands c w j := by
  cases h with
  | claim role has =>
    refine ⟨fun _ => ?_, fun hp => absurd hp hj⟩
    dsimp only
    rw [update_of_ne hj]
    by_cases hp : j = v.primary
    · obtain ⟨hown, he⟩ := hst.own hp
      rw [demote, hp, update_self, ← hp, hown, demote_stored he]
    · rw [demote, update_of_ne hp, hst.other hp]
  | promote role has own =>
    refine ⟨fun _ => ?_, fun hp => absurd hp hj⟩
    dsimp only
    rw [update_of_ne hj, hst.other (own ▸ hj)]
  | other role ne =>
    refine ⟨fun hp => ?_, fun hp => ?_⟩ <;> dsimp only at hp ⊢ <;> rw [update_of_ne hj]
    · exact hst.other hp
    · exact hst.own hp

theorem Replayed.stands (h : Replayed store q k v) {j : Slot} (hj : j < k) :
    Stands (store j) v j := by
  refine ⟨h.other j hj, fun hp => ?_⟩
  subst hp
  exact h.own hj

section
variable (h : Replayed store q i v) (hc : Complete store) (hq : Accepts store q)
include h hc hq

theorem Replayed.takes : Takes v i (store i) := by
  refine ⟨hc i, fun hr hi => ?_⟩
  have hbelow : v.primary = q ∧ ∀ j : Slot, (j : Nat) < i → (store j).role ≠ .primary := by
    refine h.chosen.resolve_left fun hl => ?_
    rw [← hi] at hl
    exact lt_irrefl _ hl.1
  rw [hi, hbelow.1]
  refine hq.resolve_left ?_
  rintro ⟨j, hj, hclaim⟩
  rw [← hbelow.1, ← hi] at hj
  rcases hj.lt_or_eq with hlt | heq
  · exact hbelow.2 j hlt hclaim
  · exact hr (heq ▸ hclaim)

theorem Replayed.next : Replayed store q (i + 1) (v.set i (store i)) := by
  have ht := (h.takes hc hq).taken
  -- the slots that the pass has dealt with before this one
  have hlt {j : Slot} (hj : (j : Nat) < i + 1) (hne : j ≠ i) : (j : Nat) < i := by
    have : (j : Nat) ≠ i := fun he => hne (Fin.ext he)
    omega
  have hst (j : Slot) (hj : (j : Nat) < i + 1) : Stands (store j) (v.set i (store i)) j := by
    by_cases hji : j = i
    · subst hji
      exact ht.stands
    · exact (h.stands (hlt hj hji)).taken ht hji
  refine ⟨fun j hj => (hst j hj).other, fun hp => (hst _ hp).own rfl, ?_, ?_⟩
  · intro j hj hclaim
    rcases ht.primary with ⟨-, hp⟩ | ⟨hr, hp⟩ <;> rw [hp]
    · exact Fin.le_def.mpr (Nat.lt_succ_iff.mp hj)
    · have hji : j ≠ i := fun he => hr (he ▸ hclaim)
      exact h.latest j (hlt hj hji) hclaim
  · rcases ht.primary with ⟨hr, hp⟩ | ⟨hr, hp⟩ <;> rw [hp]
    · exact .inl ⟨Nat.lt_succ_self _, hr⟩
    · apply h.chosen.imp
      · exact fun hl => ⟨Nat.lt_succ_of_lt hl.1, hl.2⟩
      · refine fun hl => ⟨hl.1, fun j hj hclaim => ?_⟩
        have hji : j ≠ i := fun he => hr (he ▸ hclaim)
        exact hl.2 j (hlt hj hji) hclaim

end

/-- The whole pass: the live slots are those of the store, and the primary moves only where
a record asks for it. -/
theorem replay_mirrors (hc : Complete store) (hq : Accepts store v.primary) :
    Mirrors store (v.replay store) ∧
      ((∀ j, (store j).role ≠ .primary) → (v.replay store).primary = v.primary) := by
  have h : Replayed store v.primary 8 (v.replay store) := by
    refine foldl_finRange (Replayed store v.primary) ?_ fun i u hu => hu.next hc hq
    exact ⟨fun j hj => absurd hj (Nat.not_lt_zero _), fun hp => absurd hp (Nat.not_lt_zero _),
      fun j hj => absurd hj (Nat.not_lt_zero _),
      .inr ⟨rfl, fun j hj => absurd hj (Nat.not_lt_zero _)⟩⟩
  obtain ⟨hown, he⟩ := h.own (Fin.is_lt _)
  refine ⟨⟨hc, fun j => h.other j j.is_lt, hown, he, fun j => h.latest j j.is_lt, ?_⟩, ?_⟩
  · exact h.chosen.imp And.right fun hl j => hl.2 j j.is_lt
  · exact fun hnone => (h.chosen.resolve_left fun hl => hnone _ hl.2).1

/-- The store leaves one choice of the live slots, once the primary is known where no record
asks for it. -/
theorem Mirrors.unique (hv : Mirrors store v) (hw : Mirrors store w)
    (hnone : (∀ j, (store j).role ≠ .primary) → w.primary = v.primary) : w = v := by
  have hp : w.primary = v.primary := by
    rcases hv.chosen with hclaim | hno
    · rcases hw.chosen with hclaim' | hno'
      · exact le_antisymm (hv.latest _ hclaim') (hw.latest _ hclaim)
      · exact absurd hclaim (hno' _)
    · exact hnone hno
  refine View.ext (funext fun j => ?_) hp
  by_cases hj : j = v.primary
  · rw [hj, hv.own, ← hp, hw.own]
  · rw [hv.other j hj, hw.other j (hp ▸ hj)]

variable (h : Mirrors store v)
include h

theorem Mirrors.accepts : Accepts store v.primary := by
  rcases h.chosen with hclaim | hno
  · exact .inl ⟨v.primary, le_rfl, hclaim⟩
  · exact .inr ⟨h.enabled.1, h.enabled.2.resolve_left (hno _)⟩

theorem Mirrors.replay : v.replay store = v := by
  obtain ⟨hm, hnone⟩ := replay_mirrors h.complete h.accepts
  exact h.unique hm hnone

/-- The edits after which a pass over the records still ends with the same table. A slot is
made PRIMARY with settings and when no later slot is stored so; the primary takes another
role only as a SECONDARY with settings and when no other slot is stored as PRIMARY. -/
def Kept (store : Slot → Channel) (primary i : Slot) (ch : Channel) : Prop :=
  (ch.role = .primary →
    ch.hasSettings = true ∧ ∀ j, i < j → (store j).role ≠ .primary) ∧
  (ch.role ≠ .primary → i = primary →
    ch.hasSettings = true ∧ ch.role = .secondary ∧ ∀ j, j ≠ i → (store j).role ≠ .primary)

instance (primary i : Slot) : Decidable (Kept store primary i ch) :=
  inferInstanceAs (Decidable (_ ∧ _))

theorem Mirrors.stands (j : Slot) : Stands (store j) v j := by
  refine ⟨h.other j, fun hp => ?_⟩
  subst hp
  exact ⟨h.own, h.enabled⟩

/-- An edit of the store and of the live table. -/
theorem Mirrors.edit (hk : Kept store v.primary i ch) :
    Mirrors (update store i ch) (v.set i ch) := by
  have ht : Takes v i ch :=
    ⟨fun hr => (hk.1 hr).1, fun hr hi => ⟨(hk.2 hr hi).1, (hk.2 hr hi).2.1⟩⟩
  have hw := ht.taken
  have hself : update store i ch i = ch := update_self ..
  have hrest {j : Slot} (hj : j ≠ i) : update store i ch j = store j :=
    update_of_ne hj ..
  have hst (j : Slot) : Stands (update store i ch j) (v.set i ch) j := by
    by_cases hji : j = i
    · rw [hji, hself]
      exact hw.stands
    · rw [hrest hji]
      exact (h.stands j).taken hw hji
  -- a record that asks for the primary is the one written or was there before
  have hclaims {j : Slot} (hj : (update store i ch j).role = .primary) :
      (j = i ∧ ch.role = .primary) ∨ (j ≠ i ∧ (store j).role = .primary) := by
    by_cases hji : j = i
    · rw [hji, hself] at hj
      exact .inl ⟨hji, hj⟩
    · rw [hrest hji] at hj
      exact .inr ⟨hji, hj⟩
  obtain ⟨hown, henabled⟩ := (hst _).own rfl
  refine ⟨?_, fun j => (hst j).other, hown, henabled, ?_, ?_⟩
  · intro j hj
    rcases hclaims hj with ⟨rfl, hr⟩ | ⟨hji, hr⟩
    · rw [hself, ht.claims hr]
    · rw [hrest hji, h.complete j hr]
  · intro j hj
    rcases hw.primary with ⟨hr, hp⟩ | ⟨hr, hp⟩ <;> rw [hp]
    · rcases hclaims hj with ⟨rfl, -⟩ | ⟨-, hr'⟩
      · exact le_rfl
      · exact not_lt.mp fun hlt => (hk.1 hr).2 j hlt hr'
    · rcases hclaims hj with ⟨-, hr'⟩ | ⟨-, hr'⟩
      · exact absurd hr' hr
      · exact h.latest j hr'
  · rcases hw.primary with ⟨hr, hp⟩ | ⟨hr, hp⟩ <;> rw [hp]
    · rw [hself]
      exact .inl hr
    by_cases hi : i = v.primary
    · refine .inr fun j hj => ?_
      rcases hclaims hj with ⟨-, hr'⟩ | ⟨hji, hr'⟩
      · exact hr hr'
      · exact (hk.2 hr hi).2.2 j hji hr'
    · rw [hrest (Ne.symm hi)]
      refine h.chosen.imp_right fun hnone j hj => ?_
      rcases hclaims hj with ⟨-, hr'⟩ | ⟨-, hr'⟩
      · exact hr hr'
      · exact hnone j hr'

end Replay

/-! ### Runs -/

theorem unusedChannel_clean : unusedChannel.Clean :=
  ⟨rfl, fun h => cons_ne_nil _ _ h.symm⟩

/-- The live table before anything is loaded: slot 0 is the primary, the others unused. -/
structure Fresh (t : Table) : Prop where
  primary : t.primary = 0
  role : (t.slots 0).role = .primary
  own : (t.slots 0).Clean
  unused : ∀ j, j ≠ 0 → t.slots j = unusedChannel

theorem powerUp_fresh (cfg : AppConfig) : Fresh (powerUp cfg) := by
  obtain ⟨hp, -, h0, -, hrest⟩ := initDefaults_spec ⟨.longFast, false⟩ ⟨[], 0, []⟩
  unfold powerUp initFromConfig
  refine ⟨hp, ?_, ?_, fun j hj => ?_⟩ <;> dsimp only
  · rw [putChannel_slot_self, fixup_role] <;> rw [h0] <;> rfl
  · exact fixup_clean _
  · rw [putChannel_slot_ne hj]
    exact (hrest j hj).1

namespace Fresh

variable {t : Table}

theorem role_iff (h : Fresh t) (j : Slot) : (t.slots j).role = .primary ↔ j = 0 := by
  by_cases hj : j = 0
  · rw [hj]
    exact iff_of_true h.role rfl
  · rw [h.unused j hj]
    exact iff_of_false Role.noConfusion hj

theorem clean (h : Fresh t) (j : Slot) : (t.slots j).Clean := by
  by_cases hj : j = 0
  · rw [hj]
    exact h.own
  · rw [h.unused j hj]
    exact unusedChannel_clean

theorem settled (h : Fresh t) : Settled t :=
  ⟨fun j => (h.clean j).settled, fun j => by rw [h.role_iff, h.primary]⟩

theorem mirrors (h : Fresh t) : Mirrors t.slots t.view := by
  have hp : t.view.primary = 0 := h.primary
  refine ⟨fun j _ => (h.clean j).settled, ?_, ?_, ?_, ?_, .inl ?_⟩ <;> rw [hp]
  · intro j hj
    rw [demoted_of_ne fun hr => hj ((h.role_iff j).mp hr), (h.clean j).fixup_eq,
      view_slots]
  · rw [h.own.fixup_eq, withRole_eq h.role, view_slots]
  · exact ⟨h.own.settled, .inl h.role⟩
  · exact fun j hr => le_of_eq ((h.role_iff j).mp hr)
  · exact h.role

end Fresh

namespace Device

variable {s t : Device} {cfg : AppConfig}

theorem replay_view {t : Table} (store : Slot → Channel) (h : Settled t) (l : List Slot) :
    (l.foldl (fun t i => t.setSlotAt i (store i)) t).view =
        l.foldl (fun v i => v.set i (store i)) t.view ∧
      Settled (l.foldl (fun t i => t.setSlotAt i (store i)) t) := by
  induction l generalizing t with
  | nil => exact ⟨rfl, h⟩
  | cons i l ih =>
    obtain ⟨hview, hset⟩ := ih (setSlotAt_settled h i (store i))
    rw [view_setSlotAt h] at hview
    exact ⟨hview, hset⟩

theorem applyCore_view (h : Settled s.live) :
    s.applyCore.live.view = s.live.view.replay s.store.channels ∧ Settled s.applyCore.live :=
  replay_view s.store.channels (t := { s.live with modem := s.store.lora }) ⟨h.1, h.2⟩ _

/-- The condition on a step. A reboot begins with slot 0 as the primary. -/
def Held (s : Device) : Change → Prop
  | .setChannel index ch => ∀ h : index < 8, ch.isValid →
      Kept s.store.channels s.live.primary ⟨index, h⟩ ch
  | .setConfig _ => True
  | .reboot => (s.store.channels 0).enabled ∧
      ((∃ j, (s.store.channels j).role = .primary) ∨ s.live.primary = 0)

instance : (s : Device) → (e : Change) → Decidable (s.Held e)
  | s, .setChannel index ch =>
    inferInstanceAs (Decidable (∀ h : index < 8, ch.isValid →
      Kept s.store.channels s.live.primary ⟨index, h⟩ ch))
  | _, .setConfig _ => inferInstanceAs (Decidable True)
  | s, .reboot =>
    inferInstanceAs (Decidable ((s.store.channels 0).enabled ∧
      ((∃ j, (s.store.channels j).role = .primary) ∨ s.live.primary = 0)))

/-- What holds at every point of a run. -/
structure Agrees (s : Device) : Prop where
  settled : Settled s.live
  mirrors : Mirrors s.store.channels s.live.view

theorem Agrees.applyCore (h : Agrees s) : s.applyCore.live.view = s.live.view := by
  rw [(applyCore_view h.settled).1, h.mirrors.replay]

theorem Agrees.quiet (h : Agrees s) (cfg : AppConfig) {e : Change} (he : e.isEdit = false)
    (hk : s.Held e) :
    (step cfg s e).live.view = s.live.view ∧ (step cfg s e).store.channels = s.store.channels ∧
      Settled (step cfg s e).live := by
  cases e with
  | setChannel index ch => exact Bool.noConfusion he
  | setConfig written =>
    have hw : Agrees { s with store := { s.store with lora := written.modem s.store.lora } } :=
      { h with }
    exact ⟨hw.applyCore, rfl, (applyCore_view hw.settled).2⟩
  | reboot =>
    have hfresh := powerUp_fresh cfg
    obtain ⟨hview, hset⟩ := applyCore_view (s := { s with live := powerUp cfg }) hfresh.settled
    refine ⟨?_, rfl, hset⟩
    change (s.reboot cfg).live.view = _
    rw [reboot, hview]
    have haccepts : Accepts s.store.channels (powerUp cfg).view.primary := by
      apply hk.1.2.imp
      · exact fun hr => ⟨0, le_rfl, hr⟩
      · exact fun hr => ⟨hk.1.1, hr⟩
    obtain ⟨hm, hnone⟩ := replay_mirrors h.mirrors.complete haccepts
    refine h.mirrors.unique hm fun hno => ?_
    have hzero : s.live.primary = 0 := hk.2.resolve_left fun ⟨j, hj⟩ => hno j hj
    rw [hnone hno, view_primary, view_primary, hfresh.primary, hzero]

/-- Two devices with the same stored channels and the same live slots. -/
structure Same (s t : Device) : Prop where
  agrees : Agrees s
  settled : Settled t.live
  channels : s.store.channels = t.store.channels
  view : s.live.view = t.live.view

theorem Same.edit (h : Same s t) {index : Nat} {ch : Channel} (hk : s.Held (.setChannel index ch)) :
    Same (step cfg s (.setChannel index ch)) (step cfg t (.setChannel index ch)) := by
  simp only [step, setChannel]
  by_cases hok : index < 8 ∧ ch.isValid = true
  · rw [dif_pos hok, dif_pos hok]
    refine ⟨⟨setSlotAt_settled h.agrees.settled _ _, ?_⟩, setSlotAt_settled h.settled _ _, ?_, ?_⟩
    · rw [view_setSlotAt h.agrees.settled]
      exact h.agrees.mirrors.edit (hk hok.1 hok.2)
    · rw [h.channels]
    · rw [view_setSlotAt h.agrees.settled, view_setSlotAt h.settled, h.view]
  · rw [dif_neg hok, dif_neg hok]
    exact h

theorem Same.quiet (h : Same s t) {e : Change} (he : e.isEdit = false) (hk : s.Held e) :
    Same (step cfg s e) t := by
  obtain ⟨hview, hchannels, hset⟩ := h.agrees.quiet cfg he hk
  refine ⟨⟨hset, ?_⟩, h.settled, hchannels.trans h.channels, hview.trans h.view⟩
  rw [hview, hchannels]
  exact h.agrees.mirrors

theorem first_agrees (cfg : AppConfig) (lora : Modem) : Agrees (first cfg lora) := by
  have hfresh := powerUp_fresh cfg
  have h : Agrees ⟨⟨(powerUp cfg).slots, lora⟩, powerUp cfg⟩ := ⟨hfresh.settled, hfresh.mirrors⟩
  refine ⟨(applyCore_view h.settled).2, ?_⟩
  have hview : (first cfg lora).live.view = (powerUp cfg).view := h.applyCore
  rw [hview]
  exact hfresh.mirrors

/-- A run and its channel edits alone. -/
theorem run_same (cfg : AppConfig) (lora : Modem) (es : List Change)
    (hg : Guarded (step cfg) Held (first cfg lora) es) :
    Same (run (step cfg) (first cfg lora) es)
      (run (step cfg) (first cfg lora) (es.filter Change.isEdit)) := by
  have hfirst := first_agrees cfg lora
  refine run_invariant
    (fun es s => Same s (run (step cfg) (first cfg lora) (es.filter Change.isEdit))) ?_ ?_ es hg
  · exact ⟨hfirst, hfirst.settled, rfl, rfl⟩
  · intro es e h hk
    rw [filter_append]
    cases he : e.isEdit with
    | true =>
      rw [filter_cons_of_pos he, filter_nil, run_append]
      cases e with
      | setChannel index ch => exact h.edit hk
      | setConfig _ | reboot => exact Bool.noConfusion he
    | false =>
      rw [filter_cons_of_neg (by rw [he]; exact Bool.false_ne_true), filter_nil,
        append_nil]
      exact h.quiet he hk

/-- A stored table with one PRIMARY, put back from any live table whose primary can give way
to it. -/
theorem applyCore_one {p : Slot} (h : Settled s.live)
    (hone : ∀ j, (s.store.channels j).role = .primary ↔ j = p)
    (hs : (s.store.channels p).hasSettings = true) (hq : Accepts s.store.channels s.live.primary) :
    s.applyCore.live.primary = p ∧
      ∀ j, s.applyCore.live.slots j = (s.store.channels j).fixup := by
  have hcomplete : Complete s.store.channels := by
    intro j hj
    rwa [(hone j).mp hj]
  obtain ⟨hm, -⟩ := replay_mirrors (v := s.live.view) hcomplete hq
  rw [← (applyCore_view h).1] at hm
  have hp : s.applyCore.live.primary = p :=
    (hone _).mp (hm.chosen.resolve_right fun hno => hno p ((hone p).mpr rfl))
  refine ⟨hp, fun j => ?_⟩
  by_cases hj : j = p
  · have hown := hm.own
    rw [view_slots, view_primary, hp] at hown
    rw [hj, hown, fixup_claims ((hone p).mpr rfl) hs]
  · have hother := hm.other j (by rwa [view_primary, hp])
    rw [view_slots] at hother
    rw [hother, demoted_of_ne fun hr => hj ((hone j).mp hr)]

/-- The live channels are those the channel edits alone produce: writes of other sections and
reboots change neither a slot nor the primary, and a stored table with one PRIMARY is put
back as it is. -/
theorem live_follows_edits (cfg : AppConfig) (lora : Modem) (es : List Change)
    (hg : Guarded (step cfg) Held (first cfg lora) es) :
    let s := run (step cfg) (first cfg lora) es
    let alone := run (step cfg) (first cfg lora) (es.filter Change.isEdit)
    (s.live.slots = alone.live.slots ∧ s.live.primary = alone.live.primary) ∧
      (∀ e, e.isEdit = false → s.Held e →
        (step cfg s e).live.slots = s.live.slots ∧
          (step cfg s e).live.primary = s.live.primary) ∧
      ∀ (store : Store) (live : Table) (p : Slot), Settled live →
        (∀ j, (store.channels j).role = .primary ↔ j = p) →
        (store.channels p).hasSettings = true → Accepts store.channels live.primary →
        (applyCore ⟨store, live⟩).live.primary = p ∧
          ∀ j, (applyCore ⟨store, live⟩).live.slots j = (store.channels j).fixup := by
  have hsame := run_same cfg lora es hg
  refine ⟨⟨congrArg View.slots hsame.view, congrArg View.primary hsame.view⟩, ?_, ?_⟩
  · intro e he hk
    obtain ⟨hview, -⟩ := hsame.agrees.quiet cfg he hk
    exact ⟨congrArg View.slots hview, congrArg View.primary hview⟩
  · intro store live p hset hone hs hq
    exact applyCore_one (s := ⟨store, live⟩) hset hone hs hq

/-- The well-known key under the name of its preset. -/
def stockConfig : AppConfig := ⟨some (ascii "LongFast"), defaultPsk, .inl rfl⟩

/-- A channel is added, the primary renamed and then moved to slot 1, with reboots and writes of
the LoRa section between; the store ends with two records that say PRIMARY. -/
def movedPrimary : List Change :=
  [.setChannel 2 opsChannel, .setConfig (.lora ⟨.mediumFast, true⟩), .setChannel 0 (baseChannel 2),
    .reboot, .setChannel 1 (baseChannel 3), .setConfig .other, .reboot]

theorem movedPrimary_follows_edits :
    let s := run (step stockConfig) (first stockConfig longFastOnly) movedPrimary
    let alone := run (step stockConfig) (first stockConfig longFastOnly)
      [.setChannel 2 opsChannel, .setChannel 0 (baseChannel 2), .setChannel 1 (baseChannel 3)]
    Guarded (step stockConfig) Held (first stockConfig longFastOnly) movedPrimary ∧
      s.live.slots = alone.live.slots ∧ s.live.primary = alone.live.primary ∧
      (step stockConfig s .reboot).live.primary = s.live.primary ∧
      (applyCore ⟨⟨(powerUp stockConfig).slots, longFastOnly⟩, s.live⟩).live.primary = 0 := by
  have hg : Guarded (step stockConfig) Held (first stockConfig longFastOnly) movedPrimary := by
    decide +kernel
  obtain ⟨⟨hslots, hprimary⟩, hquiet, hone⟩ :=
    live_follows_edits stockConfig longFastOnly movedPrimary hg
  have hfresh := powerUp_fresh stockConfig
  have hset := (run_same stockConfig longFastOnly movedPrimary hg).agrees.settled
  refine ⟨hg, hslots, hprimary, (hquiet .reboot rfl (by decide +kernel)).2, ?_⟩
  refine (hone ⟨(powerUp stockConfig).slots, longFastOnly⟩ _ 0 hset hfresh.role_iff
    hfresh.own.settled (.inl ⟨0, Fin.zero_le _, hfresh.role⟩)).1

/-- Slot 1 is promoted and then slot 0 again: a write of another section makes slot 1 the
primary. And with slot 1 the primary and slot 0 disabled, a reboot enables slot 0, under the
well-known key. -/
theorem primary_moved_by_other_section :
    let run := run (step stockConfig) (first stockConfig longFastOnly)
    let back := [.setChannel 1 (baseChannel 3), .setChannel 0 (baseChannel 2)]
    let off := [.setChannel 1 (baseChannel 3), .setChannel 0 unusedChannel]
    ((run back).live.primary = 0 ∧ (run (back ++ [.setConfig .other])).live.primary = 1) ∧
      ((run off).live.slots 0).role = .disabled ∧
      (run (off ++ [.reboot])).live.slots 0 = Channel.defaultPrimary.withRole .secondary := by
  decide +kernel

end Device

end Zephyrtastic.Channels
