import Zephyrtastic.Channels.Table
import Zephyrtastic.Lib.Run

/-!
# Edits of the channel table

`set_slot` assigns a channel, moves the primary where the channel asks for it,
derives the slot's hash and then sees to it that a primary is left.
-/

namespace Zephyrtastic.Channels

open Channel Function

namespace Channel

@[simp] theorem fixup_hasSettings (ch : Channel) : ch.fixup.hasSettings = true := by
  unfold fixup
  cases h : ch.hasSettings <;> simp [h] <;> split <;> simp [h]

variable {ch : Channel}

theorem fixup_role (h : ch.hasSettings = true) : ch.fixup.role = ch.role := by
  simp only [fixup, h, if_true]
  split <;> rfl

theorem fixup_psk (h : ch.hasSettings = true) : ch.fixup.settings.psk = ch.settings.psk := by
  simp only [fixup, h, if_true]
  split <;> rfl

theorem fixup_key (h : ch.hasSettings = true) : ch.fixup.settings.key = ch.settings.key := by
  unfold Settings.key
  rw [fixup_psk h]

theorem fixup_bare (h : ch.hasSettings = false) : ch.fixup.role = .disabled := by
  simp only [fixup, h, Bool.false_eq_true, if_false]
  split <;> rfl

theorem fixup_role_ne {r : Role} (hr : Role.disabled ≠ r)
    (h : ch.hasSettings = true → ch.role ≠ r) : ch.fixup.role ≠ r := by
  cases hs : ch.hasSettings with
  | true => rw [fixup_role hs]; exact h hs
  | false => rwa [fixup_bare hs]

theorem fixup_defaultPrimary : defaultPrimary.fixup = defaultPrimary := by
  decide

/-- The hash a settled channel goes under, where `lent` is the key of the primary. -/
def hashUnder (ch : Channel) (m : Modem) (lent : Bytes) : UInt8 :=
  if ch.role = .disabled then 0
  else xorHashBytes (ch.nameOn m) ^^^ xorHashBytes (if ch.borrows then lent else ch.settings.key)

theorem hashUnder_lent {m : Modem} {lent lent' : Bytes}
    (h : ch.borrows → xorHashBytes lent = xorHashBytes lent') :
    ch.hashUnder m lent = ch.hashUnder m lent' := by
  unfold hashUnder
  by_cases hb : ch.borrows
  · simp only [hb, if_true, h hb]
  · simp only [hb, if_false]

theorem not_borrows (h : ch.role ≠ .secondary) : ¬ ch.borrows := fun hb => h hb.1

end Channel

namespace Table

variable {t : Table} {i j k : Slot} {ch : Channel}

/-- The key of the primary slot. -/
def lent (t : Table) : Bytes := (t.slots t.primary).settings.key

section
variable (t) (i) (ch)

@[simp] theorem putChannel_primary : (t.putChannel i ch).primary = t.primary := rfl

@[simp] theorem putChannel_modem : (t.putChannel i ch).modem = t.modem := rfl

theorem putChannel_slots : (t.putChannel i ch).slots = update t.slots i ch.fixup := by
  funext j
  by_cases hj : j = i
  · simp [putChannel, channelFixup, setChannel]
  · simp [putChannel, channelFixup, setChannel, hj]

@[simp] theorem putChannel_slot_self : (t.putChannel i ch).slots i = ch.fixup := by
  rw [putChannel_slots, update_self]

end

@[simp] theorem putChannel_slot_ne (h : j ≠ i) :
    (t.putChannel i ch).slots j = t.slots j := by
  rw [putChannel_slots, update_of_ne h]

@[simp] theorem putChannel_hash_ne (h : j ≠ i) :
    (t.putChannel i ch).hashes j = t.hashes j := by
  simp [putChannel, channelFixup, setChannel, h]

theorem putChannel_hash_self (t : Table) (i : Slot) (ch : Channel) :
    (t.putChannel i ch).hashes i = (t.putChannel i ch).generateHash i := by
  simp [putChannel, channelFixup, generateHash, getKey, getName, setChannel]

theorem channelFixup_eq (t : Table) (i : Slot) : t.channelFixup i = t.putChannel i (t.slots i) := by
  simp [putChannel, setChannel]

theorem generateHash_eq (hs : (t.slots i).hasSettings = true)
    (hb : (t.slots i).borrows → i ≠ t.primary ∧ (t.slots t.primary).keyed) :
    t.generateHash i = (t.slots i).hashUnder t.modem t.lent := by
  have hnil (key : Bytes) : (if key.isEmpty then xorHashBytes (t.getName i)
      else xorHashBytes (t.getName i) ^^^ xorHashBytes key) =
      xorHashBytes (t.getName i) ^^^ xorHashBytes key := by
    cases key with
    | nil => simp [xorHashBytes]
    | cons b key => rfl
  unfold generateHash hashUnder
  by_cases hd : (t.slots i).role = .disabled
  · have hk : t.getKey i = .error .enoent := by
      simp [getKey, ownKey, keyed, hd]
    rw [hk, if_pos hd]
  have hk : (t.slots i).keyed := ⟨hs, hd⟩
  rw [if_neg hd]
  by_cases hw : (t.slots i).borrows
  · obtain ⟨hi, hp⟩ := hb hw
    have h : t.getKey i = .ok t.lent := by
      rw [getKey, if_pos ⟨hk, hw, hi⟩, ownKey, if_pos hp, lent]
    rw [h, if_pos hw]
    exact hnil _
  · have h : t.getKey i = .ok (t.slots i).settings.key := by
      rw [getKey, if_neg (fun h => hw h.2.1), ownKey, if_pos hk]
    rw [h, if_neg hw]
    exact hnil _

/-! ### One primary -/

/-- Every slot has been through `channel_fixup`, and the primary is the slot with the role. -/
structure Settled (t : Table) : Prop where
  settled : ∀ i, (t.slots i).hasSettings = true
  role_iff : ∀ i, (t.slots i).role = .primary ↔ i = t.primary

namespace Settled

theorem keyed (h : Settled t) : (t.slots t.primary).keyed :=
  ⟨h.settled _, fun hd => Role.noConfusion (((h.role_iff _).mpr rfl).symm.trans hd)⟩

theorem generateHash (h : Settled t) (i : Slot) :
    t.generateHash i = (t.slots i).hashUnder t.modem t.lent := by
  refine generateHash_eq (h.settled i) fun hb => ⟨?_, h.keyed⟩
  rintro rfl
  exact Role.noConfusion (hb.1.symm.trans ((h.role_iff _).mpr rfl))

end Settled

theorem lastPrimary_some (h : ∀ i, (t.slots i).role = .primary ↔ i = k) :
    t.lastPrimary = some k := by
  have hk : (if (t.slots k).role = .primary then some k else none) = some k :=
    if_pos ((h k).mpr rfl)
  rw [← hk]
  refine Run.foldl_at (P := fun _ => True) ?_ (fun _ _ => trivial) (List.mem_finRange k)
    (List.nodup_finRange 8) trivial
  intro found j _ hj
  exact if_neg fun hr => hj ((h j).mp hr)

theorem lastPrimary_none (h : ∀ i, (t.slots i).role ≠ .primary) : t.lastPrimary = none := by
  unfold lastPrimary
  generalize List.finRange 8 = l
  induction l with
  | nil => rfl
  | cons a l ih => rwa [List.foldl_cons, if_neg (h a)]

theorem enforce_some (h : ∀ i, (t.slots i).role = .primary ↔ i = k) :
    t.enforcePrimaryInvariant = { t with primary := k } := by
  rw [enforcePrimaryInvariant, lastPrimary_some h]

theorem enforce_promote (h : ∀ i, (t.slots i).role ≠ .primary)
    (hs : (t.slots t.primary).role = .secondary) :
    t.enforcePrimaryInvariant =
      t.putChannel t.primary ((t.slots t.primary).withRole .primary) := by
  rw [enforcePrimaryInvariant, lastPrimary_none h]
  exact if_pos hs

theorem enforce_seed (h : ∀ i, (t.slots i).role ≠ .primary)
    (hs : (t.slots t.primary).role ≠ .secondary) :
    t.enforcePrimaryInvariant = { t.seedDefaultPrimary 0 with primary := 0 } := by
  rw [enforcePrimaryInvariant, lastPrimary_none h]
  exact if_neg hs

theorem demoteOtherPrimary_eq (h : ∀ j, j ≠ i → (t.slots j).role = .primary → j = k) :
    t.demoteOtherPrimary i = demoteAt i t k := by
  refine Run.foldl_at (P := fun s => ∀ j, j ≠ i → (s.slots j).role = .primary → j = k)
    ?_ ?_ (List.mem_finRange k) (List.nodup_finRange 8) h
  · intro s j hs hj
    exact if_neg fun hc => hj (hs j hc.1 hc.2)
  · intro s hs j hj hr
    by_contra hk
    unfold demoteAt at hr
    split at hr
    · rw [putChannel_slot_ne hk] at hr
      exact hk (hs j hj hr)
    · exact hk (hs j hj hr)

/-! ### The cached hashes -/

/-- The cached hash of a slot is its hash under the primary's key. -/
def CachedAt (t : Table) (j : Slot) : Prop :=
  t.hashes j = (t.slots j).hashUnder t.modem t.lent

theorem CachedAt.carry {u : Table} (h : CachedAt t j) (hs : u.slots j = t.slots j)
    (hh : u.hashes j = t.hashes j) (hm : u.modem = t.modem)
    (hl : (t.slots j).borrows → xorHashBytes u.lent = xorHashBytes t.lent) : CachedAt u j := by
  unfold CachedAt
  rw [hh, hs, hm, hashUnder_lent hl]
  exact h

theorem cachedAt_own (m : Modem) (lent : Bytes)
    (h : t.hashes j = (t.slots j).hashUnder m lent) (hm : t.modem = m)
    (hb : ¬ (t.slots j).borrows) : CachedAt t j := by
  unfold CachedAt
  rw [h, hm, hashUnder_lent (fun hb' => absurd hb' hb)]

theorem putChannel_hash (hb : ch.fixup.borrows → i ≠ t.primary ∧ (t.slots t.primary).keyed) :
    (t.putChannel i ch).hashes i = ch.fixup.hashUnder t.modem t.lent := by
  have hput : (t.putChannel i ch).slots i = ch.fixup := putChannel_slot_self t i ch
  rw [putChannel_hash_self, generateHash_eq (by rw [hput]; exact ch.fixup_hasSettings), hput]
  · refine hashUnder_lent fun hw => ?_
    rw [lent, putChannel_primary, putChannel_slot_ne (Ne.symm (hb hw).1), lent]
  · rw [hput, putChannel_primary]
    intro hw
    obtain ⟨hi, hk⟩ := hb hw
    rw [putChannel_slot_ne (Ne.symm hi)]
    exact ⟨hi, hk⟩

/-- The slot that is the primary after an edit, and its channel. -/
def successor (t : Table) (i : Slot) (ch : Channel) : Slot × Channel :=
  if ch.hasSettings = true ∧ (ch.role = .primary ∨ i = t.primary ∧ ch.role = .secondary)
  then (i, ch)
  else if ch.role = .primary ∨ i = t.primary then (0, .defaultPrimary)
  else (t.primary, t.slots t.primary)

/-- An edit that no borrowed key comes out changed of: the slots that borrow see a key of
the same fold, and a primary demoted by a channel that is then disabled has its own key. -/
structure KeyKept (t : Table) (i : Slot) (ch : Channel) : Prop where
  lenders : ∀ j, j ≠ i → j ≠ (t.successor i ch).1 → (t.slots j).borrows →
    xorHashBytes (t.successor i ch).2.settings.key = xorHashBytes t.lent
  demoted : ch.role = .primary → ch.hasSettings = false → t.primary ≠ i → t.primary ≠ 0 →
    (t.slots t.primary).settings.psk ≠ []

theorem KeyKept.lends {p : Slot} {next : Channel} (hk : KeyKept t i ch)
    (hsucc : t.successor i ch = (p, next))
    (hj : j ≠ i) (hp : j ≠ p) (hb : (t.slots j).borrows) :
    xorHashBytes next.settings.key = xorHashBytes t.lent := by
  have hkey := hk.lenders j hj (by rwa [hsucc]) hb
  rwa [hsucc] at hkey

/-- The table after the primary is enforced: one primary, and the cached hashes are right
if they were and the edit kept the key. -/
structure Enforced (t : Table) (i : Slot) (ch : Channel) (u : Table) : Prop where
  settled : Settled u
  cached : KeyKept t i ch → (∀ j, CachedAt t j) → ∀ j, CachedAt u j

section Edit

variable {u : Table}

theorem putChannel_settled (h : ∀ j, j ≠ i → (t.slots j).hasSettings = true) (j : Slot) :
    ((t.putChannel i ch).slots j).hasSettings = true := by
  by_cases hj : j = i
  · subst hj
    rw [putChannel_slot_self, fixup_hasSettings]
  · rw [putChannel_slot_ne hj, h j hj]

section
variable (h : Settled t) (hr : ch.role ≠ .primary)
include h hr

theorem edit_other_role (hi : i ≠ t.primary) (j : Slot) :
    ((t.putChannel i ch).slots j).role = .primary ↔ j = t.primary := by
  by_cases hj : j = i
  · subst hj
    rw [putChannel_slot_self]
    exact iff_of_false (fixup_role_ne nofun fun _ => hr) hi
  · rw [putChannel_slot_ne hj]
    exact h.role_iff j

theorem edit_other_eq (hi : i ≠ t.primary) :
    (t.editSlot i ch).enforcePrimaryInvariant = t.putChannel i ch := by
  have hedit : t.editSlot i ch = t.putChannel i ch := by
    simp only [editSlot, hr, if_false]
    rfl
  rw [hedit, enforce_some (edit_other_role h hr hi)]
  rfl

theorem edit_other (hi : i ≠ t.primary) :
    Enforced t i ch (t.editSlot i ch).enforcePrimaryInvariant := by
  have hlent : (t.putChannel i ch).lent = t.lent := by
    rw [lent, putChannel_primary, putChannel_slot_ne (Ne.symm hi), lent]
  rw [edit_other_eq h hr hi]
  refine ⟨⟨putChannel_settled fun j _ => h.settled j, edit_other_role h hr hi⟩, fun _ hc j => ?_⟩
  by_cases hj : j = i
  · subst hj
    unfold CachedAt
    rw [putChannel_hash (fun _ => ⟨hi, h.keyed⟩), putChannel_slot_self, hlent]
    rfl
  · exact (hc j).carry (putChannel_slot_ne hj) (putChannel_hash_ne hj) rfl
      fun _ => by rw [hlent]

theorem edit_own :
    t.editSlot t.primary ch = t.putChannel t.primary ch ∧
      ∀ j, ((t.putChannel t.primary ch).slots j).role ≠ .primary := by
  refine ⟨?_, fun j => ?_⟩
  · simp only [editSlot, hr, if_false]
    rfl
  · by_cases hj : j = t.primary
    · subst hj
      rw [putChannel_slot_self]
      exact fixup_role_ne nofun fun _ => hr
    · rw [putChannel_slot_ne hj]
      exact fun hp => hj ((h.role_iff j).mp hp)

end

/-- The primary is made a secondary and at once promoted, with the key it was given. -/
theorem edit_promote (h : Settled t) (hs : ch.hasSettings = true) (hr : ch.role = .secondary) :
    Enforced t t.primary ch (t.editSlot t.primary ch).enforcePrimaryInvariant := by
  have hne : ch.role ≠ .primary := by
    rw [hr]
    exact Role.noConfusion
  obtain ⟨hedit, hnone⟩ := edit_own h hne
  have hslot : (t.putChannel t.primary ch).slots t.primary = ch.fixup := putChannel_slot_self ..
  have hsec : ((t.putChannel t.primary ch).slots t.primary).role = .secondary := by
    rw [hslot, fixup_role hs, hr]
  rw [hedit, enforce_promote hnone hsec, putChannel_primary, hslot]
  generalize hw : t.putChannel t.primary ch = w at *
  have hwp : w.primary = t.primary := by rw [← hw]; rfl
  have hwj (j : Slot) (hj : j ≠ t.primary) : w.slots j = t.slots j := by
    rw [← hw, putChannel_slot_ne hj]
  have hset : (ch.fixup.withRole .primary).hasSettings = true := ch.fixup_hasSettings
  have hrole : (ch.fixup.withRole .primary).fixup.role = .primary := fixup_role hset
  have hnb : ¬ (ch.fixup.withRole .primary).fixup.borrows := by
    refine not_borrows ?_
    rw [hrole]
    exact Role.noConfusion
  refine ⟨⟨fun j => ?_, fun j => ?_⟩, fun hk hc j => ?_⟩
  · refine putChannel_settled (fun j hj => ?_) j
    rw [hwj j hj, h.settled]
  · rw [putChannel_primary, hwp]
    by_cases hj : j = t.primary
    · subst hj
      rw [putChannel_slot_self]
      exact iff_of_true hrole rfl
    · rw [putChannel_slot_ne hj]
      exact iff_of_false (hnone j) hj
  · by_cases hj : j = t.primary
    · subst hj
      refine cachedAt_own w.modem w.lent ?_ rfl ?_
      · rw [putChannel_hash (fun hb => absurd hb hnb), putChannel_slot_self]
      · rwa [putChannel_slot_self]
    · have hsucc : t.successor t.primary ch = (t.primary, ch) :=
        if_pos ⟨hs, .inr ⟨rfl, hr⟩⟩
      refine (hc j).carry ?_ ?_ ?_ ?_
      · rw [putChannel_slot_ne hj, hwj j hj]
      · rw [putChannel_hash_ne hj, ← hw, putChannel_hash_ne hj]
      · rw [putChannel_modem, ← hw, putChannel_modem]
      · intro hb
        rw [lent, putChannel_primary, hwp, putChannel_slot_self, fixup_key hset]
        exact (congrArg xorHashBytes (fixup_key hs)).trans (hk.lends hsucc hj hj hb)

/-- No primary is left and the slot it was in cannot be promoted: slot 0 is seeded. -/
structure Seeded (w u : Table) : Prop where
  settled : Settled u
  modem : u.modem = w.modem
  lent : u.lent = Channel.defaultPrimary.settings.key
  seeded : CachedAt u 0
  slot : ∀ j, j ≠ 0 → u.slots j = w.slots j
  hash : ∀ j, j ≠ 0 → u.hashes j = w.hashes j

theorem enforce_seeded (hs : ∀ j, (t.slots j).hasSettings = true)
    (hnone : ∀ j, (t.slots j).role ≠ .primary) (hsec : (t.slots t.primary).role ≠ .secondary) :
    Seeded t t.enforcePrimaryInvariant := by
  rw [enforce_seed hnone hsec]
  have hslot : (t.seedDefaultPrimary 0).slots 0 = .defaultPrimary := by
    rw [seedDefaultPrimary, putChannel_slot_self, fixup_defaultPrimary]
  have hnb : ¬ defaultPrimary.borrows := not_borrows Role.noConfusion
  refine ⟨⟨putChannel_settled fun j _ => hs j, fun j => ?_⟩, rfl, ?_, ?_, ?_, ?_⟩
  · by_cases hj : j = 0
    · subst hj
      exact iff_of_true rfl rfl
    · rw [seedDefaultPrimary, putChannel_slot_ne hj]
      exact iff_of_false (hnone j) hj
  · exact congrArg (fun c : Channel => c.settings.key) hslot
  · refine cachedAt_own t.modem t.lent ?_ rfl ?_
    · rw [hslot, seedDefaultPrimary, putChannel_hash, fixup_defaultPrimary]
      exact fun hb => absurd hb hnb
    · rwa [hslot]
  · exact fun j hj => putChannel_slot_ne hj
  · exact fun j hj => putChannel_hash_ne hj

theorem Seeded.carry (hu : Seeded t u) {s : Table} (hj : j ≠ 0) (hc : CachedAt s j)
    (hs : t.slots j = s.slots j) (hh : t.hashes j = s.hashes j) (hm : t.modem = s.modem)
    (hl : (s.slots j).borrows →
      xorHashBytes defaultPrimary.settings.key = xorHashBytes s.lent) :
    CachedAt u j := by
  refine hc.carry ((hu.slot j hj).trans hs) ((hu.hash j hj).trans hh) (hu.modem.trans hm) ?_
  rw [hu.lent]
  exact hl

/-- The primary is disabled, loses its settings or takes a role nobody knows. -/
theorem edit_drop (h : Settled t) (hr : ch.role ≠ .primary)
    (hs : ch.hasSettings = true → ch.role ≠ .secondary) :
    Enforced t t.primary ch (t.editSlot t.primary ch).enforcePrimaryInvariant := by
  obtain ⟨hedit, hnone⟩ := edit_own h hr
  have hsec : ch.fixup.role ≠ .secondary := fixup_role_ne nofun hs
  have hslot : (t.putChannel t.primary ch).slots t.primary = ch.fixup := putChannel_slot_self ..
  have hu : Seeded (t.putChannel t.primary ch)
      (t.putChannel t.primary ch).enforcePrimaryInvariant := by
    refine enforce_seeded (putChannel_settled fun j _ => h.settled j) hnone ?_
    rwa [putChannel_primary, hslot]
  have hsucc : t.successor t.primary ch = (0, .defaultPrimary) := by
    rw [successor, if_neg, if_pos (.inr rfl)]
    rintro ⟨hset, hp | ⟨-, hp⟩⟩
    · exact hr hp
    · exact hs hset hp
  rw [hedit]
  refine ⟨hu.settled, fun hk hc j => ?_⟩
  by_cases h0 : j = 0
  · subst h0
    exact hu.seeded
  by_cases hj : j = t.primary
  · subst hj
    have hnb := not_borrows hsec
    refine cachedAt_own t.modem t.lent ?_ (hu.modem.trans rfl) ?_
    · rw [hu.hash _ h0, hu.slot _ h0, hslot, putChannel_hash (fun hb => absurd hb hnb)]
    · rwa [hu.slot _ h0, hslot]
  · exact hu.carry h0 (hc j) (putChannel_slot_ne hj) (putChannel_hash_ne hj) rfl
      (hk.lends hsucc hj h0)

/-- What an edit to the role PRIMARY leaves before the primary is enforced. -/
structure Claimed (t : Table) (i : Slot) (ch : Channel) (w : Table) : Prop where
  primary : w.primary = i
  modem : w.modem = t.modem
  slot : w.slots i = ch.fixup
  hash : w.hashes i = ch.fixup.hashUnder t.modem ch.settings.key
  other : ∀ j, j ≠ i → j ≠ t.primary → w.slots j = t.slots j ∧ w.hashes j = t.hashes j
  former : t.primary ≠ i → w.slots t.primary = ((t.slots t.primary).withRole .secondary).fixup
  -- the former primary is hashed while the slot of the new one is not fixed up yet
  formerHash : t.primary ≠ i → ch.hasSettings = true ∨ (t.slots t.primary).settings.psk ≠ [] →
    w.hashes t.primary = (w.slots t.primary).hashUnder t.modem ch.settings.key

theorem not_borrows_claimed (hr : ch.role = .primary) : ¬ ch.fixup.borrows := by
  refine not_borrows (fixup_role_ne nofun fun _ => ?_)
  rw [hr]
  exact Role.noConfusion

/-- The table as `demote_other_primary` finds it: the channel assigned, the index moved. -/
def claim (t : Table) (i : Slot) (ch : Channel) : Table :=
  { t.setChannel i ch with primary := i }

theorem claim_slot_self (t : Table) (i : Slot) (ch : Channel) : (t.claim i ch).slots i = ch :=
  update_self ..

theorem claim_slot_ne (hj : j ≠ i) :
    (t.claim i ch).slots j = t.slots j :=
  update_of_ne hj ..

theorem claim_lent (t : Table) (i : Slot) (ch : Channel) : (t.claim i ch).lent = ch.settings.key :=
  congrArg (fun c : Channel => c.settings.key) (claim_slot_self t i ch)

section
variable (h : Settled t) (hr : ch.role = .primary)
include h hr

/-- Of the other slots only the former primary can have the role. -/
theorem editSlot_claim :
    t.editSlot i ch = (demoteAt i (t.claim i ch) t.primary).channelFixup i := by
  have hone (j : Slot) (hj : j ≠ i) (hp : ((t.claim i ch).slots j).role = .primary) :
      j = t.primary := by
    rw [claim_slot_ne hj] at hp
    exact (h.role_iff j).mp hp
  simp only [editSlot, hr, if_true]
  exact congrArg (·.channelFixup i) (demoteOtherPrimary_eq hone)

theorem edit_claimed_same (hi : t.primary = i) :
    t.editSlot i ch = (t.claim i ch).putChannel i ch := by
  rw [editSlot_claim h hr, demoteAt, if_neg fun hc => hc.1 hi, channelFixup_eq, claim_slot_self]

theorem edit_claimed_other (hi : t.primary ≠ i) :
    t.editSlot i ch =
      ((t.claim i ch).putChannel t.primary ((t.slots t.primary).withRole .secondary)).putChannel
        i ch := by
  have hformer : ((t.claim i ch).slots t.primary).role = .primary := by
    rw [claim_slot_ne hi]
    exact (h.role_iff _).mpr rfl
  rw [editSlot_claim h hr, demoteAt, if_pos ⟨hi, hformer⟩, claim_slot_ne hi,
    channelFixup_eq, putChannel_slot_ne (Ne.symm hi), claim_slot_self]

theorem edit_claimed : Claimed t i ch (t.editSlot i ch) := by
  have hnb := not_borrows_claimed hr
  have hown {s : Table} (hm : s.modem = t.modem) :
      (s.putChannel i ch).hashes i = ch.fixup.hashUnder t.modem ch.settings.key := by
    rw [putChannel_hash (fun hb => absurd hb hnb), hm]
    exact hashUnder_lent fun hb => absurd hb hnb
  by_cases hi : t.primary = i
  · rw [edit_claimed_same h hr hi]
    refine ⟨rfl, rfl, putChannel_slot_self .., hown rfl, fun j hj _ => ⟨?_, ?_⟩,
      fun hne => absurd hi hne, fun hne => absurd hi hne⟩
    · rw [putChannel_slot_ne hj, claim_slot_ne hj]
    · rw [putChannel_hash_ne hj]
      rfl
  · rw [edit_claimed_other h hr hi]
    refine ⟨rfl, rfl, putChannel_slot_self .., hown rfl, fun j hj hp => ⟨?_, ?_⟩, fun _ => ?_,
      fun _ hk => ?_⟩
    · rw [putChannel_slot_ne hj, putChannel_slot_ne hp, claim_slot_ne hj]
    · rw [putChannel_hash_ne hj, putChannel_hash_ne hp]
      rfl
    · rw [putChannel_slot_ne hi, putChannel_slot_self]
    · rw [putChannel_hash_ne hi, putChannel_slot_ne hi, putChannel_slot_self,
        putChannel_hash, claim_lent]
      · rfl
      · intro hb
        refine ⟨hi, ?_⟩
        have hpsk : (t.slots t.primary).settings.psk = [] := by
          have hset : ((t.slots t.primary).withRole .secondary).hasSettings = true := h.settled _
          exact (fixup_psk hset).symm.trans hb.2
        change ((t.claim i ch).slots i).keyed
        rw [claim_slot_self]
        exact ⟨hk.resolve_right (fun hne => hne hpsk), by rw [hr]; exact Role.noConfusion⟩

end

namespace Claimed

variable {w : Table}

section
variable (hw : Claimed t i ch w) (h : Settled t)
include hw h

theorem slot_settled (j : Slot) : (w.slots j).hasSettings = true := by
  by_cases hj : j = i
  · rw [hj, hw.slot, fixup_hasSettings]
  by_cases hp : j = t.primary
  · rw [hp, hw.former (by rwa [← hp]), fixup_hasSettings]
  · rw [(hw.other j hj hp).1, h.settled]

theorem role_ne (hj : j ≠ i) : (w.slots j).role ≠ .primary := by
  by_cases hp : j = t.primary
  · subst hp
    rw [hw.former hj]
    exact fixup_role_ne nofun fun _ => nofun
  · rw [(hw.other j hj hp).1]
    exact fun hr => hp ((h.role_iff j).mp hr)

theorem role_iff (hr : ch.role = .primary)
    (hs : ch.hasSettings = true) (j : Slot) : (w.slots j).role = .primary ↔ j = i := by
  by_cases hj : j = i
  · subst hj
    rw [hw.slot, fixup_role hs]
    exact iff_of_true hr rfl
  · exact iff_of_false (hw.role_ne h hj) hj

theorem role_none (hs : ch.hasSettings = false) (j : Slot) : (w.slots j).role ≠ .primary := by
  by_cases hj : j = i
  · rw [hj, hw.slot, fixup_bare hs]
    exact Role.noConfusion
  · exact hw.role_ne h hj

end

theorem bare_primary (hw : Claimed t i ch w) (hs : ch.hasSettings = false) :
    (w.slots w.primary).role ≠ .secondary := by
  rw [hw.primary, hw.slot, fixup_bare hs]
  exact Role.noConfusion

end Claimed

theorem edit_claim (h : Settled t) (hr : ch.role = .primary) (hs : ch.hasSettings = true) :
    Enforced t i ch (t.editSlot i ch).enforcePrimaryInvariant := by
  have hw := edit_claimed (i := i) h hr
  have hrole := hw.role_iff h hr hs
  have henf : (t.editSlot i ch).enforcePrimaryInvariant = t.editSlot i ch := by
    rw [enforce_some hrole]
    exact congrArg (fun p => { t.editSlot i ch with primary := p }) hw.primary.symm
  have hlent : (t.editSlot i ch).lent = ch.settings.key := by
    rw [lent, hw.primary, hw.slot, fixup_key hs]
  have hsucc : t.successor i ch = (i, ch) := if_pos ⟨hs, .inl hr⟩
  rw [henf]
  refine ⟨⟨hw.slot_settled h, fun j => by rw [hrole, hw.primary]⟩, fun hk hc j => ?_⟩
  by_cases hj : j = i
  · subst hj
    rw [CachedAt, hw.hash, hw.slot, hw.modem, hlent]
  by_cases hp : j = t.primary
  · subst hp
    rw [CachedAt, hw.formerHash hj (.inl hs), hw.modem, hlent]
  obtain ⟨hslot, hhash⟩ := hw.other j hj hp
  refine (hc j).carry hslot hhash hw.modem fun hb => ?_
  rw [hlent]
  exact hk.lends hsucc hj hj hb

/-- A primary without settings is disabled by its own fixup, after the former one is demoted. -/
theorem edit_claim_bare (h : Settled t) (hr : ch.role = .primary) (hs : ch.hasSettings = false) :
    Enforced t i ch (t.editSlot i ch).enforcePrimaryInvariant := by
  have hw := edit_claimed (i := i) h hr
  have hu : Seeded (t.editSlot i ch) (t.editSlot i ch).enforcePrimaryInvariant :=
    enforce_seeded (hw.slot_settled h) (hw.role_none h hs) (hw.bare_primary hs)
  have hsucc : t.successor i ch = (0, .defaultPrimary) := by
    rw [successor, if_neg, if_pos (.inl hr)]
    rintro ⟨hset, -⟩
    exact Bool.noConfusion (hs.symm.trans hset)
  refine ⟨hu.settled, fun hk hc j => ?_⟩
  by_cases h0 : j = 0
  · subst h0
    exact hu.seeded
  by_cases hj : j = i
  · subst hj
    refine cachedAt_own t.modem ch.settings.key ?_ (hu.modem.trans hw.modem) ?_
    · rw [hu.hash _ h0, hu.slot _ h0, hw.hash, hw.slot]
    · rw [hu.slot _ h0, hw.slot]
      exact not_borrows_claimed hr
  by_cases hp : j = t.primary
  · subst hp
    have hpsk := hk.demoted hr hs hj h0
    refine cachedAt_own t.modem ch.settings.key ?_ (hu.modem.trans hw.modem) ?_
    · rw [hu.hash _ h0, hu.slot _ h0, hw.formerHash hj (.inr hpsk)]
    · rw [hu.slot _ h0, hw.former hj]
      intro hb
      have hset : ((t.slots t.primary).withRole .secondary).hasSettings = true := h.settled _
      exact hpsk ((fixup_psk hset).symm.trans hb.2)
  · obtain ⟨hslot, hhash⟩ := hw.other j hj hp
    exact hu.carry h0 (hc j) hslot hhash hw.modem (hk.lends hsucc hj h0)

/-- Every edit of a slot, by what it asks for and whether the slot was the primary. -/
theorem edit_enforced (h : Settled t) (i : Slot) (ch : Channel) :
    Enforced t i ch (t.editSlot i ch).enforcePrimaryInvariant := by
  by_cases hr : ch.role = .primary
  · cases hs : ch.hasSettings with
    | true => exact edit_claim h hr hs
    | false => exact edit_claim_bare h hr hs
  by_cases hi : i = t.primary
  · subst hi
    by_cases hp : ch.hasSettings = true ∧ ch.role = .secondary
    · exact edit_promote h hp.1 hp.2
    · exact edit_drop h hr fun hs hsec => hp ⟨hs, hsec⟩
  · exact edit_other h hr hi

end Edit

end Table

end Zephyrtastic.Channels
