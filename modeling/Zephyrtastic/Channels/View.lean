import Zephyrtastic.Channels.Edit

/-!
# What an edit makes of the slots

Of the channel table only the channels of the slots and the primary index are
looked at here, without the cached hashes and the context.
-/

namespace Zephyrtastic.Channels

open Function

namespace Channel

variable {ch : Channel}

/-- `channel_fixup` finds nothing to do. -/
structure Clean (ch : Channel) : Prop where
  settled : ch.hasSettings = true
  named : ch.settings.name ≠ ascii "Default"

theorem fixup_clean (ch : Channel) : ch.fixup.Clean := by
  refine ⟨ch.fixup_hasSettings, ?_⟩
  unfold fixup
  generalize (if ch.hasSettings then ch else ⟨.disabled, true, .zero⟩) = settled
  by_cases hname : settled.settings.name = ascii "Default"
  · rw [if_pos hname]
    exact fun h => List.cons_ne_nil _ _ h.symm
  · rwa [if_neg hname]

theorem Clean.fixup_eq (h : ch.Clean) : ch.fixup = ch := by
  simp only [fixup, h.settled, if_true, if_neg h.named]

theorem Clean.withRole (h : ch.Clean) (role : Role) : (ch.withRole role).Clean := ⟨h.1, h.2⟩

theorem withRole_eq {role : Role} (h : ch.role = role) : ch.withRole role = ch := by
  rw [← h]
  rfl

end Channel

/-- The slots and the primary index of a table. -/
@[ext] structure View where
  slots : Slot → Channel
  primary : Slot

namespace View

/-- The slots with the former primary made a secondary, where an edit claims the role. -/
def demote (v : View) : Slot → Channel :=
  update v.slots v.primary ((v.slots v.primary).withRole .secondary).fixup

/-- An edit of a slot. -/
def set (v : View) (i : Slot) (ch : Channel) : View :=
  if ch.role = .primary then
    if ch.hasSettings then ⟨update v.demote i ch.fixup, i⟩
    else ⟨update (update v.demote i ch.fixup) 0 .defaultPrimary, 0⟩
  else if i = v.primary then
    if ch.hasSettings ∧ ch.role = .secondary
    then ⟨update v.slots i (ch.fixup.withRole .primary), i⟩
    else ⟨update (update v.slots i ch.fixup) 0 .defaultPrimary, 0⟩
  else ⟨update v.slots i ch.fixup, v.primary⟩

end View

namespace Table

variable {t : Table} {i j : Slot} {ch : Channel}

def view (t : Table) : View := ⟨t.slots, t.primary⟩

@[simp] theorem view_slots (t : Table) : t.view.slots = t.slots := rfl

@[simp] theorem view_primary (t : Table) : t.view.primary = t.primary := rfl

theorem view_seeded (t : Table) : view { t.seedDefaultPrimary 0 with primary := 0 } =
      ⟨update t.slots 0 .defaultPrimary, 0⟩ := by
  rw [view, seedDefaultPrimary, putChannel_slots, Channel.fixup_defaultPrimary]

theorem Claimed.slots_eq {w : Table} (hw : Claimed t i ch w) :
    w.slots = update t.view.demote i ch.fixup := by
  funext j
  by_cases hj : j = i
  · rw [hj, update_self, hw.slot]
  rw [update_of_ne hj, View.demote, view_slots, view_primary]
  by_cases hp : j = t.primary
  · subst hp
    rw [hw.former hj, update_self]
  · rw [(hw.other j hj hp).1, update_of_ne hp]

variable (h : Settled t)
include h

theorem view_claim (hr : ch.role = .primary) :
    (t.editSlot i ch).enforcePrimaryInvariant.view = t.view.set i ch := by
  have hw := edit_claimed (i := i) h hr
  rw [View.set, if_pos hr]
  cases hs : ch.hasSettings with
  | true => rw [enforce_some (hw.role_iff h hr hs), if_pos rfl, view, hw.slots_eq]
  | false =>
    rw [enforce_seed (hw.role_none h hs) (hw.bare_primary hs), view_seeded, hw.slots_eq]
    rfl

theorem view_own (hr : ch.role ≠ .primary) :
    (t.editSlot t.primary ch).enforcePrimaryInvariant.view = t.view.set t.primary ch := by
  obtain ⟨hedit, hnone⟩ := edit_own h hr
  have hslot : (t.putChannel t.primary ch).slots t.primary = ch.fixup := putChannel_slot_self ..
  rw [hedit, View.set, if_neg hr, view_primary, if_pos rfl]
  by_cases hs : ch.hasSettings = true ∧ ch.role = .secondary
  · have hsec : ((t.putChannel t.primary ch).slots t.primary).role = .secondary := by
      rw [hslot, Channel.fixup_role hs.1, hs.2]
    rw [enforce_promote hnone hsec, if_pos hs, view, putChannel_slots, putChannel_slots,
      putChannel_primary, update_idem, update_self, (ch.fixup_clean.withRole .primary).fixup_eq]
    rfl
  · have hsec : ((t.putChannel t.primary ch).slots t.primary).role ≠ .secondary := by
      rw [hslot]
      exact Channel.fixup_role_ne nofun fun hset hc => hs ⟨hset, hc⟩
    rw [enforce_seed hnone hsec, view_seeded, if_neg hs, putChannel_slots, view_slots]

theorem view_other (hr : ch.role ≠ .primary) (hi : i ≠ t.primary) :
    (t.editSlot i ch).enforcePrimaryInvariant.view = t.view.set i ch := by
  rw [edit_other_eq h hr hi, View.set, if_neg hr, view_primary, if_neg hi, view,
    putChannel_slots, view_slots, putChannel_primary]

theorem view_setSlotAt (i : Slot) (ch : Channel) : (t.setSlotAt i ch).view = t.view.set i ch := by
  change (t.editSlot i ch).enforcePrimaryInvariant.view = _
  by_cases hr : ch.role = .primary
  · exact view_claim h hr
  by_cases hi : i = t.primary
  · subst hi
    exact view_own h hr
  · exact view_other h hr hi

theorem setSlotAt_settled (i : Slot) (ch : Channel) : Settled (t.setSlotAt i ch) :=
  have hs := (edit_enforced h i ch).settled
  { hs with }

end Table

end Zephyrtastic.Channels
