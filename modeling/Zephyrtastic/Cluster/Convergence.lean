import Zephyrtastic.Cluster.Doc

/-!
# Convergence of the document

A node's table depends only on the set of writes it has been offered, not on
their order or on how often each arrived, as long as the table has room for
every key among them.
-/

namespace Zephyrtastic.Cluster

open List Doc

/-- The document after a history of offered writes, from empty. -/
def Doc.acceptAll (cap : Nat) (ws : List Entry) : Doc cap :=
  ws.foldl (fun d w => (d.acceptSigned w).2) (Doc.init cap)

theorem Doc.acceptAll_append (cap : Nat) (ws : List Entry) (w : Entry) :
    acceptAll cap (ws ++ [w]) = ((acceptAll cap ws).acceptSigned w).2 := by
  simp [acceptAll]

variable {cap : Nat} {ws : List Entry}

/-- With room for the key, accepting a well-formed write is the abstract put. -/
theorem Doc.acceptSigned_rows_eq_put {d : Doc cap} {w : Entry}
    (hw : w.wellFormed = true) (hroom : d.find w.key = none → d.count < cap) :
    (d.acceptSigned w).2.rows = Lww.put Entry.key Entry.stamp w d.rows := by
  cases d.acceptSigned_outcome w with
  | invalid hbad _ => exact absurd hw (by simp [hbad])
  | noSpace hn hfull _ _ => exact absurd (hroom hn) (not_lt.mpr hfull)
  | stored _ _ _ _ hr => exact hr
  | stale e he hle _ hr =>
    rw [hr]
    obtain ⟨hem, hk⟩ := find_eq_some.mp he
    -- the stored row of the key is at least as new, so the put keeps the table
    refine Lww.sorted_ext d.sorted (Lww.put_sorted d.sorted w) fun x => ?_
    rw [Lww.mem_put d.sorted]
    constructor
    · intro hx
      refine .inr ⟨hx, fun hxk => ?_⟩
      rw [d.sorted.key_inj hx hem (hxk.trans hk.symm)]
      exact not_lt.mpr hle
    · rintro (⟨_, hn⟩ | ⟨hx, _⟩)
      · exact absurd (hn e hem hk) (not_lt.mpr hle)
      · exact hx

/-- The table refines the abstract last-writer-wins table. -/
theorem Doc.acceptAll_rows {ks : Finset Key} (hcap : ks.card ≤ cap)
    (hw : ∀ w ∈ ws, w.wellFormed = true) (hk : ∀ w ∈ ws, w.key ∈ ks) :
    (acceptAll cap ws).rows = Lww.deliver Entry.key Entry.stamp ws := by
  induction ws using reverseRecOn with
  | nil => rfl
  | append_singleton ws w ih =>
    have ih := ih (fun x hx => hw x (mem_append_left _ hx))
      (fun x hx => hk x (mem_append_left _ hx))
    rw [acceptAll_append, Lww.deliver_append, ← ih]
    apply acceptSigned_rows_eq_put (hw w (by simp))
    intro hn
    have hin : ∀ x ∈ (acceptAll cap ws).rows, x.key ∈ ks := by
      intro x hx
      rw [ih] at hx
      exact hk x (mem_append_left _ (Lww.mem_of_mem_deliver hx))
    exact ((acceptAll cap ws).sorted.length_lt_card hin (hk w (by simp))
      (find_eq_none.mp hn)).trans_le hcap

theorem Doc.mem_of_mem_acceptAll {x : Entry} (hx : x ∈ (acceptAll cap ws).rows) : x ∈ ws := by
  induction ws using reverseRecOn with
  | nil => exact absurd hx not_mem_nil
  | append_singleton ws w ih =>
    rw [acceptAll_append] at hx
    by_cases hs : ((acceptAll cap ws).acceptSigned w).1 = .stored
    · rw [rows_of_stored hs, Lww.mem_put (acceptAll cap ws).sorted] at hx
      rcases hx with ⟨rfl, _⟩ | ⟨hx, _⟩
      · simp
      · exact mem_append_left _ (ih hx)
    · rw [acceptSigned_of_ne_stored hs] at hx
      exact mem_append_left _ (ih hx)

/-- A table offered its own rows again, in any order, is the same table. -/
theorem Doc.acceptAll_rows_perm (d : Doc cap) (hws : ws.Perm d.rows) : acceptAll cap ws = d := by
  have hcap : (d.rows.map Entry.key).toFinset.card ≤ cap :=
    (toFinset_card_le _).trans (by rw [length_map]; exact d.fits)
  have hrows := acceptAll_rows hcap (fun w hw => d.wellFormed w (hws.mem_iff.mp hw))
    (fun w hw => mem_toFinset.mpr (mem_map_of_mem (hws.mem_iff.mp hw)))
  exact ext_rows (hrows.trans (Lww.deliver_of_sorted d.sorted fun _ => hws.mem_iff))

/-- **Convergence.** Any two histories of the same writes leave the same table,
which holds for each key the write with the greatest stamp, and so the same
digest over every scope. -/
theorem acceptAll_convergent {cap : Nat} (W : Finset Entry)
    (hwf : ∀ w ∈ W, w.wellFormed = true)
    (hver : ∀ a ∈ W, ∀ b ∈ W, a.key = b.key → a.stamp = b.stamp → a = b)
    (hcap : (W.image Entry.key).card ≤ cap)
    (ws ws' : List Entry) (hws : ∀ w, w ∈ ws ↔ w ∈ W) (hws' : ∀ w, w ∈ ws' ↔ w ∈ W) :
    (Doc.acceptAll cap ws).rows = (Doc.acceptAll cap ws').rows ∧
    (∀ key w, (Doc.acceptAll cap ws).find key = some w ↔
      w ∈ W ∧ w.key = key ∧ ∀ v ∈ W, v.key = key → v.stamp ≤ w.stamp) ∧
    (∀ crc scope,
      (Doc.acceptAll cap ws).hashScoped crc scope = (Doc.acceptAll cap ws').hashScoped crc scope ∧
      (Doc.acceptAll cap ws).countScoped scope = (Doc.acceptAll cap ws').countScoped scope ∧
      (Doc.acceptAll cap ws).maxStampScoped scope =
        (Doc.acceptAll cap ws').maxStampScoped scope) := by
  have hrows : ∀ {vs : List Entry}, (∀ w, w ∈ vs ↔ w ∈ W) →
      (acceptAll cap vs).rows = Lww.deliver Entry.key Entry.stamp vs := fun hvs =>
    acceptAll_rows hcap (fun w hw => hwf w ((hvs w).mp hw))
      (fun w hw => Finset.mem_image_of_mem _ ((hvs w).mp hw))
  have hu : ∀ a ∈ ws, ∀ b ∈ ws, a.key = b.key → a.stamp = b.stamp → a = b :=
    fun a ha b hb => hver a ((hws a).mp ha) b ((hws b).mp hb)
  have heq : acceptAll cap ws = acceptAll cap ws' := by
    apply ext_rows
    rw [hrows hws, hrows hws']
    exact Lww.deliver_congr (fun w => (hws w).trans (hws' w).symm) hu
  refine ⟨congrArg rows heq, fun key w => ?_, fun crc scope => by simp only [heq, and_self]⟩
  rw [find_eq_some, hrows hws, Lww.mem_deliver_iff hu]
  simp only [Lww.Newest, hws]
  constructor
  · rintro ⟨⟨hm, hmax⟩, rfl⟩
    exact ⟨hm, rfl, hmax⟩
  · rintro ⟨hm, rfl, hmax⟩
    exact ⟨⟨hm, hmax⟩, rfl⟩

def firstWrite : Entry := ⟨Key.base 1, ⟨10, 0, 7⟩, false, [1], none⟩
def secondWrite : Entry := ⟨Key.base 1, ⟨20, 0, 8⟩, false, [2], none⟩

theorem acceptAll_convergent_swap :
    (Doc.acceptAll 1 [firstWrite, secondWrite]).rows =
      (Doc.acceptAll 1 [secondWrite, firstWrite, secondWrite]).rows :=
  (acceptAll_convergent {firstWrite, secondWrite} (by decide) (by decide) (by decide)
    [firstWrite, secondWrite] [secondWrite, firstWrite, secondWrite]
    (fun w => by simp) (fun w => by simp; tauto)).1

end Zephyrtastic.Cluster
