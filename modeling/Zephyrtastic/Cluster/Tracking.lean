import Zephyrtastic.Cluster.Pull
import Zephyrtastic.Cluster.Convergence

/-!
# Updates to held keys on a full table

An update needs no free slot, so a full table should go on tracking what it holds.
-/

namespace Zephyrtastic.Cluster

open List

section Walk
variable {nd : Node}

/-- Chunks of one walk, each accepted by `onVector` as the answer waited for. -/
inductive Walk : State nd → List (Env × VectorPb) → State nd → Prop
  | nil (c : State nd) : Walk c [] c
  | cons {c c' : State nd} {env : Env} {v : VectorPb} {rest : List (Env × VectorPb)}
      (await : c.pullState = .awaitVector) (next : Walk (c.onVector env c.pullPeer v) rest c') :
      Walk c ((env, v) :: rest) c'

/-- The key stands in the request this walk is going to send. -/
def State.Asks (c : State nd) (key : Key) : Prop :=
  (c.pullState = .awaitVector ∨ c.pullState = .sendEntryReq) ∧ key ∈ c.pullKeys

/-- What the diff makes of the rows of the chunks, in order. -/
def State.verdicts (c : State nd) (chunks : List (Env × VectorPb)) : List (Key × Want) :=
  chunks.flatMap fun chunk => chunk.2.entries.map (rowVerdict c.doc c.myScope chunk.1)

variable {c c' : State nd} {chunks : List (Env × VectorPb)}

theorem Walk.eq_nil
    (h : Walk c chunks c') (hs : c.pullState ≠ .awaitVector) : chunks = [] ∧ c' = c := by
  cases h with
  | nil => exact ⟨rfl, rfl⟩
  | cons await => exact absurd await hs

theorem verdicts_congr (hd : c'.doc = c.doc) (hk : c'.scopeKind = c.scopeKind)
    (chunks : List (Env × VectorPb)) : c'.verdicts chunks = c.verdicts chunks := by
  simp only [State.verdicts, hd, myScope_congr hk]

/-- The request a walk builds: the first wanted keys of its rows, or nothing once
a row has not fitted. -/
theorem Walk.pullKeys (h : Walk c chunks c') (hfix : c.Fixed) :
    ((collect (pullKeysMax - c.pullKeys.length) (c.verdicts chunks)).2 = false →
      c'.pullKeys = c.pullKeys ++
        (collect (pullKeysMax - c.pullKeys.length) (c.verdicts chunks)).1) ∧
    ((collect (pullKeysMax - c.pullKeys.length) (c.verdicts chunks)).2 = true →
      c'.pullKeys = [] ∧ c'.pullState = .idle) := by
  induction h with
  | nil c => simp [State.verdicts, collect]
  | @cons c c' env v rest await next ih =>
    have hv : c.verdicts ((env, v) :: rest) =
        v.entries.map (rowVerdict c.doc c.myScope env) ++ c.verdicts rest := rfl
    rw [hv, collect_append]
    have hr : collect (pullKeysMax - c.pullKeys.length)
        (v.entries.map (rowVerdict c.doc c.myScope env)) = c.collected env v := rfl
    rw [hr]
    cases onVector_diffed c env c.pullPeer v with
    | ignored hout _ => simp [await] at hout
    | abandoned c₁ _ _ hkeys hfull hon =>
      -- no further chunk is accepted
      obtain ⟨rfl, rfl⟩ := next.eq_nil (by simp [hon])
      simp [hfull, hon]
    | collected c₁ _ _ hkeys hfit hon =>
      rw [hfit]
      cases chunkDone_end c₁ v with
      | more hd =>
        -- go on from what this chunk collected
        rw [hon, hd] at ih
        have hlen : pullKeysMax - c₁.pullKeys.length =
            pullKeysMax - c.pullKeys.length - (c.collected env v).1.length := by
          rw [hkeys.pullKeys, length_append]
          omega
        rw [verdicts_congr hkeys.doc hkeys.claim.1, hlen, hkeys.pullKeys] at ih
        rw [← append_assoc]
        exact ih (hkeys.fixed hfix)
      | asks hd =>
        obtain ⟨rfl, rfl⟩ := next.eq_nil (by simp [hon, hd])
        simp [hon, hd, hkeys.pullKeys, State.verdicts, collect]
      | empty h0 hd =>
        obtain ⟨rfl, rfl⟩ := next.eq_nil (by simp [hon, hd, pullEmpty_idle])
        rw [hkeys.pullKeys, append_eq_nil_iff] at h0
        simp [hon, hd, pullEmpty_idle, h0.1, h0.2, State.verdicts, collect]

theorem Walk.pending (h : Walk c chunks c') (hfix : c.Fixed) (hstart : c.pullState = .awaitVector) :
    (c'.pullState = .awaitVector ∨ c'.pullState = .sendEntryReq) ∨ c'.pullKeys = [] := by
  induction h with
  | nil => exact .inl (.inl hstart)
  | @cons c c' env v rest await next ih =>
    cases onVector_diffed c env c.pullPeer v with
    | ignored hout _ => simp [await] at hout
    | abandoned c₁ _ _ hkeys _ hon =>
      obtain ⟨-, rfl⟩ := next.eq_nil (by simp [hon])
      simp [hon]
    | collected c₁ _ _ hkeys _ hon =>
      cases chunkDone_end c₁ v with
      | more hd =>
        rw [hon, hd] at ih
        exact ih (hkeys.fixed hfix) (hkeys.pullState.trans await)
      | asks hd =>
        obtain ⟨-, rfl⟩ := next.eq_nil (by simp [hon, hd])
        simp [hon, hd]
      | empty _ hd =>
        obtain ⟨-, rfl⟩ := next.eq_nil (by simp [hon, hd, pullEmpty_idle])
        exact .inr (by rw [hon, hd, (pullEmpty_idle c₁).1])

variable (c chunks) in
/-- A row that updates a held key: in scope, within the horizon, and newer. -/
structure HeldUpdate (key : Key) (stamp : Stamp) : Prop where
  offered : ∃ env v row keyPb, (env, v) ∈ chunks ∧ row ∈ v.entries ∧ row.key = some keyPb ∧
    row.stamp = some stamp ∧ keyFromPb keyPb = key ∧ stampWithinHorizon env stamp = true
  shareable : sectionShareable key.sec = true
  inScope : c.myScope.contains key = true
  held : ∃ e, c.doc.find key = some e ∧ stamp.newer e.stamp = true

theorem HeldUpdate.mem_verdicts {key : Key} {stamp : Stamp}
    (h : HeldUpdate c chunks key stamp) (hset : stamp.isUnset = false) :
    (key, Want.yes) ∈ c.verdicts chunks := by
  obtain ⟨env, v, row, keyPb, hv, hrow, hk, hs, hkey, hhor⟩ := h.offered
  obtain ⟨e, he, hnew⟩ := h.held
  have hvalid : keyIsValid key = true := by
    obtain ⟨hem, hek⟩ := Doc.find_eq_some.mp he
    rw [← hek]
    exact (Entry.wellFormed_iff.mp (c.doc.wellFormed e hem)).2.2.1
  have hwant : c.doc.want c.myScope key stamp = .yes := by
    refine Doc.want_eq_yes_iff.mpr ⟨hvalid, hset, h.inScope, fun e' he' => ?_, fun hn => ?_⟩
    · rw [he] at he'
      obtain rfl := Option.some.inj he'
      exact Stamp.newer_iff.mp hnew
    · rw [he] at hn
      cases hn
  refine mem_flatMap.mpr ⟨(env, v), hv, mem_map.mpr ⟨row, hrow, ?_⟩⟩
  simp only [rowVerdict, hk, hs, hkey, h.shareable, hhor, hwant, Bool.not_true, Bool.or_self,
    Bool.false_eq_true, if_false]

/-- **An update to a held key is asked for, or the request is full, exactly when no
new key overflows the table first.** The last condition excuses the unset stamp,
which is no version at all. -/
theorem held_update_asked_iff {c c' : State nd} {chunks : List (Env × VectorPb)}
    (hwalk : Walk c chunks c') (hstart : c.pullState = .awaitVector ∧ c.pullKeys = [])
    (hfix : c.Fixed) {key : Key} {stamp : Stamp} (hupd : HeldUpdate c chunks key stamp) :
    (c'.Asks key ∨ c'.pullKeys.length = pullKeysMax) ↔
      ¬ Overflows pullKeysMax (c.verdicts chunks) ∧ (stamp.isUnset = false ∨
        (key, Want.yes) ∈ c.verdicts chunks ∨
        pullKeysMax ≤ ((c.verdicts chunks).filter fun r => r.2 = .yes).length) := by
  obtain ⟨hkept, hlost⟩ := hwalk.pullKeys hfix
  have hn : pullKeysMax - c.pullKeys.length = pullKeysMax := by simp [hstart.2]
  rw [hn, hstart.2, nil_append] at hkept
  rw [hn] at hlost
  have hover : Overflows pullKeysMax (c.verdicts chunks) ↔
      (collect pullKeysMax (c.verdicts chunks)).2 = true := collect_snd.symm
  by_cases hno : Overflows pullKeysMax (c.verdicts chunks)
  · have hnil := (hlost (hover.mp hno)).1
    refine iff_of_false ?_ fun h => h.1 hno
    simp [State.Asks, hnil, pullKeysMax]
  have hkeys := hkept (Bool.eq_false_iff.mpr (mt hover.mpr hno))
  rw [collect_fst] at hkeys
  refine ⟨fun h => ⟨hno, .inr ?_⟩, fun h => ?_⟩
  · rcases h with ⟨_, hmem⟩ | hlen
    · rw [hkeys] at hmem
      obtain ⟨r, hr, rfl⟩ := mem_map.mp (mem_of_mem_take hmem)
      obtain ⟨hr, hyes⟩ := mem_filter.mp hr
      rw [decide_eq_true_eq] at hyes
      exact .inl (by rw [← hyes]; exact hr)
    · rw [hkeys, length_take, length_map] at hlen
      exact .inr (by omega)
  · by_cases hmany : pullKeysMax ≤ ((c.verdicts chunks).filter fun r => r.2 = .yes).length
    · right
      rw [hkeys, length_take, length_map]
      omega
    left
    have hyes : (key, Want.yes) ∈ c.verdicts chunks := by
      rcases h.2 with hset | hyes | hge
      · exact hupd.mem_verdicts hset
      · exact hyes
      · exact absurd hge hmany
    have hmem : key ∈ c'.pullKeys := by
      rw [hkeys, take_of_length_le (by rw [length_map]; omega)]
      exact mem_map.mpr ⟨_, mem_filter.mpr ⟨hyes, by simp⟩, rfl⟩
    refine ⟨?_, hmem⟩
    rcases hwalk.pending hfix hstart.1 with hp | hnil
    · exact hp
    · rw [hnil] at hmem
      cases hmem

end Walk

/-- Fourteen rows fill the smallest table. -/
def fullTable : List Entry :=
  (shareableSections.map fun sec => ⟨Key.base sec, ⟨10, 0, 2⟩, false, [1], none⟩) ++
    shareableSections.map fun sec => ⟨Key.node 9 sec, ⟨10, 0, 2⟩, false, [1], none⟩

/-- A node pinned to FULL with a full table, waiting for node 2's vector. -/
def pinnedFull : State sampleNode :=
  { State.init sampleNode (sampleEnv 0) with
    doc := Doc.acceptAll 14 fullTable
    scopeKind := .full
    scopePinned := true
    pullState := .awaitVector
    pullPeer := 2 }

/-- A newer base row the node holds. -/
def updateChunk : VectorPb := ⟨[⟨some (keyToPb (Key.base deviceTag)), some ⟨20, 0, 2⟩⟩], 0, 1⟩

/-- The same row, then a pin of a node the table has no room for. -/
def mixedChunk : VectorPb :=
  ⟨updateChunk.entries ++ [⟨some (keyToPb (Key.node 10 deviceTag)), some ⟨20, 0, 2⟩⟩], 0, 2⟩

theorem pinnedFull_heldUpdate {v : VectorPb}
    (h : ⟨some (keyToPb (Key.base deviceTag)), some ⟨20, 0, 2⟩⟩ ∈ v.entries) :
    HeldUpdate pinnedFull [(sampleEnv 0, v)] (Key.base deviceTag) ⟨20, 0, 2⟩ where
  offered := ⟨sampleEnv 0, v, _, _, mem_singleton_self _, h, rfl, rfl, rfl, rfl⟩
  shareable := rfl
  inScope := rfl
  held := ⟨⟨Key.base deviceTag, ⟨10, 0, 2⟩, false, [1], none⟩, by decide +kernel, by decide⟩

theorem pinnedFull_walk (v : VectorPb) :
    Walk pinnedFull [(sampleEnv 0, v)] (pinnedFull.onVector (sampleEnv 0) 2 v) :=
  Walk.cons rfl (Walk.nil _)

theorem held_update_asked_alone :
    (pinnedFull.onVector (sampleEnv 0) 2 updateChunk).Asks (Key.base deviceTag) ∨
      (pinnedFull.onVector (sampleEnv 0) 2 updateChunk).pullKeys.length = pullKeysMax :=
  (held_update_asked_iff (pinnedFull_walk updateChunk) ⟨rfl, rfl⟩ (.inl rfl)
    (pinnedFull_heldUpdate mem_cons_self)).mpr
      ⟨fun h => absurd (collect_snd.mpr h) (by decide +kernel), .inl rfl⟩

/-- The new key abandons the walk, and the update to the held one is not asked for. -/
theorem held_update_dropped :
    HeldUpdate pinnedFull [(sampleEnv 0, mixedChunk)] (Key.base deviceTag) ⟨20, 0, 2⟩ ∧
    Walk pinnedFull [(sampleEnv 0, mixedChunk)] (pinnedFull.onVector (sampleEnv 0) 2 mixedChunk) ∧
    (pinnedFull.onVector (sampleEnv 0) 2 mixedChunk).pullState = .idle ∧
    (pinnedFull.onVector (sampleEnv 0) 2 mixedChunk).pullKeys = [] :=
  ⟨pinnedFull_heldUpdate mem_cons_self, pinnedFull_walk mixedChunk, by decide +kernel,
    by decide +kernel⟩

end Zephyrtastic.Cluster
