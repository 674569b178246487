import Zephyrtastic.Attachment.CancelDup

/-!
# Withdrawn relays

The brain takes a relay back with TX_CANCEL. A head has four slots for such orders,
and an order stands until its relay has come out of the queue and is tested.
-/

namespace Zephyrtastic.Attachment

open List Run Head

namespace Head

/-- The order to withdraw the packet's relay stands. -/
def Withdrawn (h : Head) (key : PacketKey) : Prop :=
  ∃ i, (h.cancels i).isSet = true ∧ (h.cancels i).key = key

/-- The packet whose order the thread's next section looks for. -/
def tested (h : Head) : Option PacketKey :=
  match h.thread with
  | some (.waited _ _, t) | some (.deferred, t) => if t.isRelay then some t.relay else none
  | some (.lateSleep, t) => some t.relay
  | _ => none

/-- A further order does not take the slot of the packet's, and no relay of the packet uses it
up. -/
def Spares (key : PacketKey) (h : Head) : Event → Prop
  | .thread _ _ _ _ => h.tested ≠ some key
  | .envelope node _ env _ _ => node = h.brain → ∀ m, decode env = .ok (.txCancel m) →
    (∃ i, (h.cancels i).isSet = false) ∨ ∀ i, i.val = 0 → (h.cancels i).key ≠ key
  | _ => True

variable {h : Head} {key k : PacketKey} {cfg : HeadConfig} {t : HeadTx}

theorem Withdrawn.update {slot : Fin 4} {c : Cancelled} (hw : h.Withdrawn key)
    (hslot : (h.cancels slot).isSet = true → (h.cancels slot).key ≠ key) :
    { h with cancels := Function.update h.cancels slot c }.Withdrawn key := by
  obtain ⟨i, hset, hk⟩ := hw
  have hi : i ≠ slot := by
    rintro rfl
    exact hslot hset hk
  refine ⟨i, ?_⟩
  dsimp only
  rw [Function.update_of_ne hi]
  exact ⟨hset, hk⟩

theorem Withdrawn.taken (hw : h.Withdrawn key) : (h.cancelledTakeLocked key).1 = true := by
  unfold cancelledTakeLocked
  split
  · rfl
  next hn =>
  obtain ⟨i, hset, hk⟩ := hw
  have hi := find?_eq_none.mp hn i (mem_finRange i)
  simp [hset, hk] at hi

theorem Withdrawn.take (hw : h.Withdrawn key) (hk : k ≠ key) :
    (h.cancelledTakeLocked k).2.Withdrawn key := by
  unfold cancelledTakeLocked
  split
  · next i hi =>
    have hik := find?_some hi
    rw [Bool.and_eq_true, beq_iff_eq] at hik
    exact hw.update fun _ => hik.2.symm ▸ hk
  · exact hw

/-- A section of the thread uses up no order but the one it looks for. -/
theorem threadStep_cancels (h : Head) (now worstMs : UInt32) (duty : Bool) (radio : RadioRet) :
    (h.threadStep cfg now worstMs duty radio).cancels = h.cancels ∨
      ∃ k, h.tested = some k ∧ (h.threadStep cfg now worstMs duty radio).cancels =
        (h.cancelledTakeLocked k).2.cancels := by
  have hkeyUp : ∀ t, (h.keyUp cfg t radio).cancels = h.cancels := by
    intro t
    unfold keyUp
    repeat' split
    all_goals rfl
  unfold Head.threadStep tested
  cases hthread : h.thread with
  | none =>
    left
    dsimp only
    repeat' split
    all_goals rfl
  | some stage =>
    obtain ⟨stage, t⟩ := stage
    obtain ⟨c, hc⟩ := cancelledTakeLocked_snd h t.relay
    cases stage with
    | taken | waiting | ending =>
      left
      dsimp only
      repeat' split
      all_goals rfl
    | waited heard clamped | deferred =>
      dsimp only
      split
      · refine .inr ⟨t.relay, rfl, ?_⟩
        simp only [hc]
        repeat' split
        all_goals rfl
      · exact .inl rfl
    | lateSleep =>
      refine .inr ⟨t.relay, rfl, ?_⟩
      simp only [hc]
      split <;> rfl
    | cleared =>
      left
      dsimp only
      split
      · rfl
      · exact hkeyUp t
    | rechecked => exact .inl (hkeyUp t)

theorem Withdrawn.threadStep (hw : h.Withdrawn key) (hs : h.tested ≠ some key)
    (now worstMs : UInt32) (duty : Bool) (radio : RadioRet) :
    (h.threadStep cfg now worstMs duty radio).Withdrawn key := by
  unfold Withdrawn
  obtain hsame | ⟨k, hk, htake⟩ := @threadStep_cancels cfg h now worstMs duty radio
  · rw [hsame]
    exact hw
  · rw [htake]
    exact hw.take fun h => hs (h ▸ hk)

theorem Withdrawn.onRx (hw : h.Withdrawn key) (wire : Bytes) (snr : Int8) (rxMs worstMs : UInt32) :
    (h.onRx wire snr rxMs worstMs).Withdrawn key := by
  unfold Head.onRx
  split
  · exact hw
  · unfold heardNoteLocked
    split <;> exact hw

theorem Withdrawn.onEnvelope {node : UInt32} {trusted : Bool} {env : Bytes} {now own : UInt32}
    (hw : h.Withdrawn key) (hs : h.Spares key (.envelope node trusted env now own)) :
    (h.onEnvelope cfg node trusted env now own).Withdrawn key := by
  unfold Head.onEnvelope
  split
  · split <;> exact hw
  · next m hm =>
    split
    · next hnode =>
      refine hw.update ?_
      cases hfind : (finRange 4).find? fun i => !(h.cancels i).isSet with
      | some i =>
        have hi := find?_some hfind
        simp_all
      | none =>
        obtain ⟨i, hi⟩ | hne := hs hnode m hm
        · simpa [hi] using find?_eq_none.mp hfind i (mem_finRange i)
        · exact fun _ => hne 0 rfl
    · exact hw
  · exact hw

/-- A standing order cancels the relay of its packet that the thread tests. -/
theorem Withdrawn.cancels {heard clamped : Bool} (hw : h.Withdrawn t.relay)
    (ht : h.thread = some (.waited heard clamped, t)) (hrelay : t.isRelay = true)
    (now worstMs : UInt32) (duty : Bool) (radio : RadioRet) :
    (h.threadStep cfg now worstMs duty radio).reported = h.reported ++ [(t, .cancelled)] := by
  obtain ⟨c, hc⟩ := cancelledTakeLocked_snd h t.relay
  unfold Head.threadStep
  simp only [ht, hrelay, if_true, hw.taken, Bool.true_or, hc]
  rfl

/-- **A withdrawn relay is not sent.** While no further TX_CANCEL takes its slot and no relay of
its packet has used it up, an order stands, and cancels the relay that is tested. -/
theorem withdrawn_relay_cancelled {env : Bytes} {m : TxCancel}
    (henv : decode env = .ok (.txCancel m)) (trusted : Bool) (now own : UInt32) (es : List Event)
    (hspares : Guarded (step cfg) (fun h => h.Spares ⟨m.src, m.id⟩)
      (h.onEnvelope cfg h.brain trusted env now own) es) :
    let start := h.onEnvelope cfg h.brain trusted env now own
    (run (step cfg) start es).Withdrawn ⟨m.src, m.id⟩ ∧
      ∀ heard clamped t now worstMs duty radio,
        (run (step cfg) start es).thread = some (.waited heard clamped, t) → t.isRelay = true →
        t.relay = ⟨m.src, m.id⟩ →
        (run (step cfg) start (es ++ [.thread now worstMs duty radio])).reported =
          (run (step cfg) start es).reported ++ [(t, .cancelled)] := by
  intro start
  have hstart : start.Withdrawn ⟨m.src, m.id⟩ := by
    have hslot := Function.update_self ((find? (fun i => !(h.cancels i).isSet) (finRange 4)).getD 0)
      ⟨⟨m.src, m.id⟩, true⟩ h.cancels
    simp only [start, Head.onEnvelope, henv, if_true]
    exact ⟨_, congrArg Cancelled.isSet hslot, congrArg Cancelled.key hslot⟩
  have hstands : (run (step cfg) start es).Withdrawn ⟨m.src, m.id⟩ := by
    refine run_keeps (·.Withdrawn ⟨m.src, m.id⟩) hstart (fun h e hw hok => ?_) hspares
    cases e with
    | rx wire snr rxMs worstMs => exact hw.onRx wire snr rxMs worstMs
    | envelope => exact hw.onEnvelope hok
    | thread now worstMs duty radio => exact hw.threadStep hok now worstMs duty radio
    | setBrain => exact hw
  refine ⟨hstands, ?_⟩
  intro heard clamped t now worstMs duty radio ht hrelay hk
  rw [run_append]
  exact Withdrawn.cancels (hk ▸ hstands) ht hrelay now worstMs duty radio

end Head

/-- The brain withdraws a relay. -/
def cancelOrder (src id : UInt32) : Bytes := 7 :: (Bytes.putLe32 src ++ Bytes.putLe32 id)

/-- The thread's sections on one frame, from the dequeue to its end. -/
def worked (n : Nat) : List Head.Event := replicate n (.thread 1500 5000 false .sent)

/-- The thread has the relay of packet 9 of node 7 and has waited; then it tests it. -/
theorem withdrawn_relay_cancelled_waiting :
    let h := run (Head.step headConfig) (Head.init 1) [.envelope 1 true relayOrder 1100 0]
    let start := h.onEnvelope headConfig 1 true (cancelOrder 7 9) 1200 0
    (run (Head.step headConfig) start (worked 4)).Withdrawn ⟨7, 9⟩ ∧
      ∃ t, t.relay = ⟨7, 9⟩ ∧
        (run (Head.step headConfig) start (worked 4 ++ worked 1)).reported =
          (run (Head.step headConfig) start (worked 4)).reported ++ [(t, .cancelled)] := by
  intro h start
  have hspares : Guarded (Head.step headConfig) (fun h => h.Spares ⟨7, 9⟩) start (worked 4) := by
    simp only [worked, replicate, guarded_cons]
    refine ⟨?_, ?_, ?_, ?_, guarded_nil⟩
    all_goals
      change Head.tested _ ≠ _
      decide +kernel
  obtain ⟨hstands, hcancels⟩ :=
    withdrawn_relay_cancelled (m := ⟨7, 9⟩) rfl true 1200 0 (worked 4) hspares
  have hwaited : (run (Head.step headConfig) start (worked 4)).thread.any (fun p =>
      p.1 == .waited false false && p.2.isRelay && p.2.relay == ⟨7, 9⟩) = true := by
    decide +kernel
  cases hthread : (run (Head.step headConfig) start (worked 4)).thread with
  | none =>
    rw [hthread] at hwaited
    cases hwaited
  | some p =>
    obtain ⟨stage, t⟩ := p
    rw [hthread] at hwaited
    simp only [Option.any_some, Bool.and_eq_true, beq_iff_eq] at hwaited
    obtain ⟨⟨rfl, hrelay⟩, hkey⟩ := hwaited
    exact ⟨hstands, t, hkey, hcancels false false t 1500 5000 false .sent hthread hrelay hkey⟩

/-- Four orders for relays that never come fill the table; from then on an order lasts until the
next one. -/
theorem withdrawn_relay_sent :
    let orders := [(3, 1), (3, 2), (3, 3), (3, 4), (7, 9), (3, 5)]
    let es := .envelope 1 true relayOrder 1100 0 ::
      (orders.map fun p => .envelope 1 true (cancelOrder p.1 p.2) 1200 0) ++ worked 6
    (run (Head.step headConfig) (Head.init 1) es).reported.map (fun p => (p.1.relay, p.2)) =
      [(⟨7, 9⟩, .sent)] := by
  decide +kernel

end Zephyrtastic.Attachment
