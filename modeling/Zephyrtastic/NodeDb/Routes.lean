import Zephyrtastic.NodeDb.Forget

/-!
# The next hops of the store

Only `meshtastic_nodedb_set_next_hop` gives a record a next hop. Whatever else happens while the
node runs keeps the one a record has, or begins a record without one.
-/

namespace Zephyrtastic.NodeDb

open Keyed List State

variable {cfg : Config} {s t : State} {learned : UInt32 → UInt8 → Prop}

/-- The next hops of the store were learned for the nodes that have them. -/
structure State.Routed (s : State) (learned : UInt32 → UInt8 → Prop) : Prop where
  wf : s.WellFormed
  routes : ∀ n e, s.entry n = some e → e.node.nextHop = 0 ∨ learned n e.node.nextHop

theorem readmission_nextHop (s : State) (num : UInt32) : (s.readmission num).node.nextHop = 0 := by
  unfold readmission
  dsimp only
  split
  · rfl
  · dsimp only
    split <;> rfl

section
variable (h : s.Routed learned)
include h

theorem State.Routed.fetched {env : Env} {num n : UInt32} {e e' : Entry}
    (hf : Fetched cfg env s num t e) (he : t.entry n = some e') :
    e'.node.nextHop = 0 ∨ learned n e'.node.nextHop := by
  cases hf with
  | held ht => exact h.routes n e' (ht ▸ he)
  | added _ hnew hentry | replaced _ _ _ _ _ _ hnew hentry =>
    rw [hentry] at he
    split_ifs at he
    · rw [← Option.some.inj he, hnew]
      exact .inl (readmission_nextHop t num)
    · exact h.routes n e' he

theorem State.Routed.touched {ev : Event} (hev : ev.unrouted = true)
    (ht : Touched cfg s ev t) : t.Routed learned := by
  refine ⟨ht.wellFormed h.wf, fun n e he => ?_⟩
  cases ht with
  | nothing => exact h.routes n e he
  | sorted order horder => exact h.routes n e ((perm_entry h.wf horder).symm.trans he)
  | marked => exact h.routes n e (warmSetKnownSigner_entry.symm.trans he)
  | record env i u a a' ring _ hu hmakes hwf hfetch hover hverified heffect hroute =>
    rw [hover.entry] at he
    split at he
    · next hn =>
      rw [← Option.some.inj he, hroute hev, hn]
      exact h.fetched hfetch hfetch.entry_self
    · exact h.fetched hfetch he

theorem State.Routed.subset (hwf : t.WellFormed) (hsub : t.hot ⊆ s.hot) : t.Routed learned := by
  refine ⟨hwf, fun n e he => ?_⟩
  refine h.routes n e ((entry_eq_some h.wf).mpr ⟨hsub (mem_of_find?_eq_some he), ?_⟩)
  exact Entry.key_eq_some.mpr (entry_num he)

/-- Nothing but the learning of a route gives a record a next hop while the node runs. -/
theorem State.Routed.step {ev : Event} (hrun : ev.running = true) (hev : ev.unrouted = true) :
    (step cfg s ev).Routed learned := by
  by_cases hon : ev.onRecord = true
  · exact h.touched hev (step_touched cfg h.wf hon)
  have hremove (num : UInt32) : (s.after (s.remove cfg num)).hot ⊆ s.hot := by
    intro e he
    unfold State.remove at he
    split_ifs at he
    · exact he
    split at he
    · exact he
    split at he
    · exact he
    · next last hlast =>
      rcases mem_or_eq_of_mem_set (mem_of_mem_dropLast he) with he | rfl
      · exact he
      · exact mem_of_getLast? hlast
  refine h.subset (running_wellFormed h.wf hrun) ?_
  cases ev with
  | remove num => exact hremove num
  | forget num =>
    simp only [NodeDb.step, forget]
    split <;> exact hremove num
  | reset keep => exact filter_subset_self _
  | boot | restoreKey | restoreRecord => cases hrun
  | _ => exact absurd rfl hon

theorem State.Routed.setNextHop {num : UInt32} {hop : UInt8} (hlearned : learned num hop) :
    (s.after (s.setNextHop num hop)).Routed learned := by
  unfold State.setNextHop
  cases hi : s.findEntry num with
  | none => exact h
  | some i =>
    rw [findEntry_eq] at hi
    obtain ⟨e, hget, hkey⟩ := get_of_position hi
    have hover := (Over.refl h.wf hget hkey).update
      (f := fun e => { e with node := { e.node with nextHop := hop } }) rfl
    refine ⟨hover.wf, fun n e' he => ?_⟩
    rw [after, hover.entry] at he
    split at he
    · next hn =>
      rw [← Option.some.inj he, hn]
      exact .inr hlearned
    · exact h.routes n e' he

end

end Zephyrtastic.NodeDb
