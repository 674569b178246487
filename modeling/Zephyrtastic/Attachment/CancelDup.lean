import Zephyrtastic.Attachment.Head

/-!
# Cancel on duplicate

A relay with the cancel rule must not go out once a copy of its packet has been
heard. The thread learns of the copy from the heard ring, so the rule is kept as
long as the packet keeps its entry there (`Head.Undisturbed`).
-/

namespace Zephyrtastic.Attachment

open List Run Head

/-- The thread has made its last test before the radio. -/
def Stage.passed : Stage → Bool
  | .cleared | .rechecked => true
  | _ => false

namespace Head

/-- The packet has an entry in the heard ring. -/
def Holds (h : Head) (key : PacketKey) : Prop := ∃ i, (h.ring i).count ≠ 0 ∧ (h.ring i).key = key

variable {h h' : Head} {key : PacketKey} {cfg : HeadConfig} {old stage : Stage} {t : HeadTx}
  {rxMs : UInt32}

theorem heardEntry_some {i : Fin heardRing}
    (hi : h.heardEntry key = some i) : (h.ring i).count ≠ 0 ∧ (h.ring i).key = key := by
  have hp := find?_some hi
  simp only [Bool.and_eq_true, bne_iff_ne, beq_iff_eq] at hp
  exact hp

theorem heardEntry_none (hn : h.heardEntry key = none) : ¬ h.Holds key := by
  rintro ⟨i, hc, hk⟩
  have hi := find?_eq_none.mp hn i (mem_finRange i)
  simp [hc, hk] at hi

theorem heardAgainLocked_iff {since : UInt32} :
    h.heardAgainLocked key since = true ↔
      ∃ i, 1 < (h.ring i).count ∧ (h.ring i).key = key ∧ later (h.ring i).lastMs since = true := by
  simp [heardAgainLocked, and_assoc]

theorem cancelledTakeLocked_snd (h : Head) (key : PacketKey) :
    ∃ c, (h.cancelledTakeLocked key).2 = { h with cancels := c } := by
  unfold cancelledTakeLocked
  split
  · exact ⟨_, rfl⟩
  · exact ⟨h.cancels, rfl⟩

/-- What one section of the thread can do to the frames and what is reported of them. -/
inductive Threaded (h : Head) : Head → Prop where
  | idle : Threaded h h
  | took (t : HeadTx) (rest : List HeadTx) (stage : Stage) (hq : h.txQueue = t :: rest)
      (hn : h.thread = none) (hp : stage.passed = false) (hl : stage ≠ .lateSleep) :
      Threaded h { h with txQueue := rest, thread := some (stage, t) }
  | dropped (t : HeadTx) (rest : List HeadTx) (hq : h.txQueue = t :: rest)
      (hn : h.thread = none) :
      Threaded h { h with
        txQueue := rest, thread := none, reported := h.reported ++ [(t, .tooLate)] }
  | went (old stage : Stage) (t : HeadTx) (defers : Nat) (p : PendingRelay)
      (c : Fin 4 → Cancelled) (ht : h.thread = some (old, t))
      (htest : stage.passed = true → t.cancels = true →
        h.heardAgainLocked t.relay t.origRxMs = false ∨ old = .lateSleep)
      (hlate : stage = .lateSleep → t.cancels = false) :
      Threaded h { h with
        thread := some (stage, { t with defers := defers }), pending := p, cancels := c }
  | ended (old : Stage) (t : HeadTx) (ret : Ret) (c : Fin 4 → Cancelled)
      (ht : h.thread = some (old, t)) (hsent : ret = .sent → old.passed = true) :
      Threaded h { h with thread := none, cancels := c, reported := h.reported ++ [(t, ret)] }

theorem keyUp_threaded (ht : h.thread = some (old, t)) (hp : old.passed = true) (radio : RadioRet) :
    Threaded h (h.keyUp cfg t radio) := by
  cases radio with
  | sent => exact .ended old t .sent h.cancels ht fun _ => hp
  | error errno => exact .ended old t (.failed (.error errno)) h.cancels ht nofun
  | defer =>
    unfold keyUp
    dsimp only
    split
    · exact .went old .deferred t _ h.pending h.cancels ht nofun nofun
    · exact .ended old t (.failed .defer) h.cancels ht nofun

theorem not_cancels_of_late (h : (t.dupe == dupeLate) = true) : t.cancels = false := by
  have hd : t.dupe = dupeLate := eq_of_beq h
  rw [HeadTx.cancels, hd]
  exact Bool.and_false _

/-- The thread goes on after a test that has found no ground to cancel: the packet has not been
heard again. -/
theorem Threaded.tested (c : Fin 4 → Cancelled)
    (ht : h.thread = some (old, t)) (hstage : stage ≠ .lateSleep) {withdrawn : Bool}
    (htest : ¬ (withdrawn || h.heardAgainLocked t.relay t.origRxMs && t.dupe == dupeCancel) =
      true) :
    Threaded h { h with thread := some (stage, t), cancels := c } := by
  refine .went old stage t t.defers h.pending c ht (fun _ hc => .inl ?_) fun hl => absurd hl hstage
  rw [Bool.not_eq_true, Bool.or_eq_false_iff] at htest
  have hd := (Bool.and_eq_true_iff.mp hc).2
  have hno := htest.2
  rw [hd, Bool.and_true] at hno
  exact hno

theorem Threaded.own (ht : h.thread = some (old, t))
    (hstage : stage ≠ .lateSleep) (hown : ¬ t.isRelay = true) :
    Threaded h { h with thread := some (stage, t) } := by
  refine .went old stage t t.defers h.pending h.cancels ht (fun _ hc => ?_)
    fun hl => absurd hl hstage
  exact absurd (Bool.and_eq_true_iff.mp hc).1 hown

theorem threadStep_threaded (cfg : HeadConfig) (h : Head) (now worstMs : UInt32) (duty : Bool)
    (radio : RadioRet) : Threaded h (h.threadStep cfg now worstMs duty radio) := by
  unfold threadStep
  split
  · rename_i hn
    split
    · exact .idle
    rename_i t rest hq
    dsimp only
    split
    · exact .dropped t rest hq hn
    split
    · exact .took t rest .taken hq hn rfl nofun
    · exact .took t rest (.waited false false) hq hn rfl nofun
  · rename_i t ht
    dsimp only
    split
    · exact .went .taken .waiting t _ _ _ ht nofun nofun
    · exact .went .taken .waiting t _ h.pending h.cancels ht nofun nofun
  · rename_i t ht
    dsimp only
    generalize (if t.isRelay = true then h.pending.notBefore else t.notBefore) = deadline
    split
    · exact .went .waiting .ending t _ h.pending h.cancels ht nofun nofun
    · exact .idle
  · rename_i t ht
    split
    · exact .went .ending (.waited _ _) t _ _ h.cancels ht nofun nofun
    · exact .went .ending (.waited _ _) t _ h.pending h.cancels ht nofun nofun
  · rename_i heardCancel clamped t ht
    split
    · dsimp only
      obtain ⟨c, hc⟩ := cancelledTakeLocked_snd h t.relay
      rw [hc]
      split
      · exact .ended _ t .cancelled c ht nofun
      rename_i htest
      split
      · exact .tested c ht nofun htest
      split
      · rename_i hlate
        exact .went _ .lateSleep t _ h.pending c ht nofun
          fun _ => not_cancels_of_late (Bool.and_eq_true_iff.mp hlate).2
      · exact .tested c ht nofun htest
    · rename_i hrelay
      exact .own ht nofun hrelay
  · rename_i t ht
    dsimp only
    obtain ⟨c, hc⟩ := cancelledTakeLocked_snd h t.relay
    rw [hc]
    split
    · exact .ended _ t .cancelled c ht nofun
    · exact .went .lateSleep .cleared t _ h.pending c ht (fun _ _ => .inr rfl) nofun
  · rename_i t ht
    split
    · exact .ended .cleared t .cancelled h.cancels ht nofun
    · exact keyUp_threaded ht rfl radio
  · rename_i t ht
    split
    · dsimp only
      obtain ⟨c, hc⟩ := cancelledTakeLocked_snd h t.relay
      rw [hc]
      split
      · exact .ended _ t .cancelled c ht nofun
      rename_i htest
      exact .tested c ht nofun htest
    · rename_i hrelay
      exact .own ht nofun hrelay
  · rename_i t ht
    exact keyUp_threaded ht rfl radio

/-- What the head knows of the relays that are to be cancelled on a copy. -/
structure Sound (h : Head) : Prop where
  entry : ∀ t ∈ h.waiting, t.cancels = true → h.Holds t.relay
  again : ∀ t ∈ h.waiting, t.cancels = true → t.copyHeard = true →
    h.heardAgainLocked t.relay t.origRxMs = true
  passed : ∀ stage t, h.thread = some (stage, t) → stage.passed = true → t.cancels = true →
    t.copyHeard = false
  late : ∀ t, h.thread = some (.lateSleep, t) → t.cancels = false
  sent : ∀ t, (t, Ret.sent) ∈ h.reported → t.cancels = true → t.copyHeard = false

theorem init_sound (brain : UInt32) : (init brain).Sound where
  entry := fun _ ht => (not_mem_nil ht).elim
  again := fun _ ht => (not_mem_nil ht).elim
  passed := nofun
  late := nofun
  sent := fun _ ht => (not_mem_nil ht).elim

theorem mem_waiting : t ∈ h.waiting ↔ t ∈ h.txQueue ∨ ∃ stage, h.thread = some (stage, t) := by
  unfold waiting
  rw [mem_append, Option.mem_toList, Option.map_eq_some_iff]
  constructor
  · rintro (hq | ⟨⟨stage, t'⟩, ht, rfl⟩)
    · exact .inl hq
    · exact .inr ⟨stage, ht⟩
  · rintro (hq | ⟨stage, ht⟩)
    · exact .inl hq
    · exact .inr ⟨(stage, t), ht, rfl⟩

theorem Threaded.held (m : Threaded h h') :
    h'.ring = h.ring ∧ ∀ t' ∈ h'.waiting, ∃ t ∈ h.waiting, ∃ d, t' = { t with defers := d } := by
  have hring : h'.ring = h.ring := by cases m <;> rfl
  have hqueue : ∀ t' ∈ h'.txQueue, t' ∈ h.txQueue := by
    cases m with
    | idle | went | ended => exact fun _ ht' => ht'
    | took t rest _ hq | dropped t rest hq => exact fun _ ht' => hq ▸ mem_cons_of_mem t ht'
  refine ⟨hring, fun t' ht' => ?_⟩
  obtain ht' | ⟨st, hst⟩ := mem_waiting.mp ht'
  · exact ⟨t', mem_waiting.mpr (.inl (hqueue t' ht')), _, rfl⟩
  cases m with
  | idle => exact ⟨t', mem_waiting.mpr (.inr ⟨st, hst⟩), _, rfl⟩
  | took t rest stage hq =>
    cases hst
    exact ⟨t', mem_waiting.mpr (.inl (hq ▸ mem_cons_self)), _, rfl⟩
  | went old stage t defers p c ht =>
    cases hst
    exact ⟨t, mem_waiting.mpr (.inr ⟨old, ht⟩), defers, rfl⟩
  | dropped | ended => cases hst

section
variable (m : Threaded h h') (hs : h.Sound)
include m hs

theorem Threaded.passed (stage : Stage)
    (t' : HeadTx) (hst : h'.thread = some (stage, t')) (hp : stage.passed = true)
    (hc : t'.cancels = true) : t'.copyHeard = false := by
  cases m with
  | idle => exact hs.passed stage t' hst hp hc
  | took t rest st hq hn hnp hl =>
    cases hst
    exact absurd (hnp.symm.trans hp) nofun
  | dropped | ended => cases hst
  | went old st t defers p c ht htest hlate =>
    cases hst
    obtain hno | hold := htest hp hc
    · rw [← Bool.not_eq_true]
      intro hcopy
      have hag := hs.again t (mem_waiting.mpr (.inr ⟨old, ht⟩)) hc hcopy
      exact absurd (hno.symm.trans hag) nofun
    · rw [hold] at ht
      exact absurd ((hs.late t ht).symm.trans hc) nofun

theorem Threaded.late (t' : HeadTx)
    (hst : h'.thread = some (.lateSleep, t')) : t'.cancels = false := by
  cases m with
  | idle => exact hs.late t' hst
  | took t rest st hq hn hnp hl =>
    cases hst
    exact absurd rfl hl
  | dropped | ended => cases hst
  | went old st t defers p c ht htest hlate =>
    cases hst
    exact hlate rfl

theorem Threaded.sent (t' : HeadTx)
    (hr : (t', Ret.sent) ∈ h'.reported) (hc : t'.cancels = true) : t'.copyHeard = false := by
  cases m with
  | idle | took | went => exact hs.sent t' hr hc
  | dropped =>
    obtain hr | hr := mem_append.mp hr
    · exact hs.sent t' hr hc
    · cases mem_singleton.mp hr
  | ended old t ret c ht hsent =>
    obtain hr | hr := mem_append.mp hr
    · exact hs.sent t' hr hc
    · cases mem_singleton.mp hr
      exact hs.passed old t' ht (hsent rfl) hc

end

theorem heardAgainLocked_congr (hr : h'.ring = h.ring) (key : PacketKey)
    (since : UInt32) : h'.heardAgainLocked key since = h.heardAgainLocked key since := by
  rw [heardAgainLocked, heardAgainLocked, hr]

theorem Threaded.sound (m : Threaded h h') (hs : h.Sound) : h'.Sound := by
  obtain ⟨hring, hheld⟩ := m.held
  refine ⟨?_, ?_, m.passed hs, m.late hs, m.sent hs⟩
  · intro t' ht' hc
    obtain ⟨t, ht, d, rfl⟩ := hheld t' ht'
    unfold Holds
    rw [hring]
    exact hs.entry t ht hc
  · intro t' ht' hc hcopy
    obtain ⟨t, ht, d, rfl⟩ := hheld t' ht'
    rw [heardAgainLocked_congr hring]
    exact hs.again t ht hc hcopy

/-- The packet an envelope orders to relay with the cancel rule. -/
def orderedRelay (env : Bytes) : Option PacketKey :=
  match decode env with
  | .ok (.txFrame m) =>
    if relays m.flags && m.dupe == dupeCancel then some ⟨m.relaySrc, m.relayId⟩ else none
  | _ => none

/-- The condition under which the ring tells the thread of every copy. -/
def Undisturbed (h : Head) : Event → Prop
  | .rx wire _ rxMs _ =>
    (h.heardEntry (wireKey wire) = none → ∀ t ∈ h.waiting, t.cancels = true →
      (h.ring h.next).count = 0 ∨ (h.ring h.next).key ≠ t.relay) ∧
    (∀ t ∈ h.waiting, t.cancels = true → t.relay = wireKey wire → t.copyHeard = true →
      later rxMs t.origRxMs = true) ∧
    ∀ p ∈ h.thread, p.1.passed = true → p.2.copiedBy (wireKey wire) rxMs = false
  | .envelope _ _ env _ _ => ∀ key ∈ orderedRelay env, h.Holds key
  | _ => True

instance (h : Head) (key : PacketKey) : Decidable (h.Holds key) :=
  inferInstanceAs (Decidable (∃ _, _))

instance (h : Head) (e : Event) : Decidable (h.Undisturbed e) :=
  match e with
  | .rx .. => inferInstanceAs (Decidable (_ ∧ _ ∧ _))
  | .envelope .. => inferInstanceAs (Decidable (∀ _ ∈ _, _))
  | .thread .. => inferInstanceAs (Decidable True)
  | .setBrain _ => inferInstanceAs (Decidable True)

theorem heardNote_other {k : PacketKey} (snr : Int8) (rxMs worstMs : UInt32)
    (hk : k ≠ key) (hheld : h.Holds k)
    (hnext : h.heardEntry key = none → (h.ring h.next).count = 0 ∨ (h.ring h.next).key ≠ k) :
    (h.heardNoteLocked key snr rxMs worstMs).Holds k ∧
    ∀ since, h.heardAgainLocked k since = true →
      (h.heardNoteLocked key snr rxMs worstMs).heardAgainLocked k since = true := by
  -- an entry of `k` stands in a slot that is not written
  have keep : ∀ i, (h.ring i).count ≠ 0 → (h.ring i).key = k →
      (h.heardNoteLocked key snr rxMs worstMs).ring i = h.ring i := by
    intro i hc hki
    unfold heardNoteLocked
    split
    · rename_i j hj
      refine Function.update_of_ne ?_ ..
      rintro rfl
      exact hk (hki.symm.trans (heardEntry_some hj).2)
    · rename_i hnone
      refine Function.update_of_ne ?_ ..
      rintro rfl
      obtain hz | hne := hnext hnone
      · exact hc hz
      · exact hne hki
  constructor
  · obtain ⟨i, hc, hki⟩ := hheld
    exact ⟨i, by rw [keep i hc hki]; exact ⟨hc, hki⟩⟩
  · intro since hag
    obtain ⟨i, hc, hki, hl⟩ := heardAgainLocked_iff.mp hag
    refine heardAgainLocked_iff.mpr ⟨i, ?_⟩
    rw [keep i (by omega) hki]
    exact ⟨hc, hki, hl⟩

theorem heardNote_same (snr : Int8) (rxMs worstMs : UInt32) (hheld : h.Holds key) :
    (h.heardNoteLocked key snr rxMs worstMs).Holds key ∧
    ∀ since, later rxMs since = true →
      (h.heardNoteLocked key snr rxMs worstMs).heardAgainLocked key since = true := by
  cases hi : h.heardEntry key with
  | none => exact absurd hheld (heardEntry_none hi)
  | some i =>
    obtain ⟨hc, hk⟩ := heardEntry_some hi
    have hring : (h.heardNoteLocked key snr rxMs worstMs).ring i =
        { h.ring i with lastMs := rxMs, count := min 255 ((h.ring i).count + 1) } := by
      unfold heardNoteLocked
      rw [hi]
      exact Function.update_self ..
    constructor
    · refine ⟨i, ?_⟩
      rw [hring]
      dsimp only
      exact ⟨by omega, hk⟩
    · intro since hl
      refine heardAgainLocked_iff.mpr ⟨i, ?_⟩
      rw [hring]
      dsimp only
      exact ⟨by omega, hk, hl⟩

theorem heardNote_frame (h : Head) (key : PacketKey) (snr : Int8) (rxMs worstMs : UInt32) :
    (h.heardNoteLocked key snr rxMs worstMs).txQueue = h.txQueue ∧
    (h.heardNoteLocked key snr rxMs worstMs).thread = h.thread ∧
    (h.heardNoteLocked key snr rxMs worstMs).reported = h.reported := by
  unfold heardNoteLocked
  split <;> exact ⟨rfl, rfl, rfl⟩

theorem thread_markWaiting
    {t' : HeadTx} (hst : (h.markWaiting key rxMs).thread = some (stage, t')) :
    ∃ t, h.thread = some (stage, t) ∧ t' = t.mark key rxMs := by
  obtain ⟨⟨st, t⟩, ht, heq⟩ := Option.map_eq_some_iff.mp hst
  cases heq
  exact ⟨t, ht, rfl⟩

theorem mem_markWaiting {t' : HeadTx} (ht' : t' ∈ (h.markWaiting key rxMs).waiting) :
    ∃ t ∈ h.waiting, t' = t.mark key rxMs := by
  obtain hq | ⟨stage, hst⟩ := mem_waiting.mp ht'
  · obtain ⟨t, ht, rfl⟩ := mem_map.mp hq
    exact ⟨t, mem_waiting.mpr (.inl ht), rfl⟩
  · obtain ⟨t, ht, rfl⟩ := thread_markWaiting hst
    exact ⟨t, mem_waiting.mpr (.inr ⟨stage, ht⟩), rfl⟩

section
variable {worstMs : UInt32} {snr : Int8} {wire : Bytes} (hs : h.Sound)
  (hu : h.Undisturbed (.rx wire snr rxMs worstMs))
include hs hu

theorem Sound.noted (ht : t ∈ h.waiting) (hc : t.cancels = true) :
    (h.heardNoteLocked (wireKey wire) snr rxMs worstMs).Holds t.relay ∧
      ((t.mark (wireKey wire) rxMs).copyHeard = true →
        (h.heardNoteLocked (wireKey wire) snr rxMs worstMs).heardAgainLocked t.relay
          t.origRxMs = true) := by
  obtain ⟨hentry, horder, -⟩ := hu
  have hheld := hs.entry t ht hc
  by_cases hk : t.relay = wireKey wire
  · rw [hk] at hheld ⊢
    obtain ⟨hh, hag⟩ := heardNote_same snr rxMs worstMs hheld
    refine ⟨hh, fun hcopy => hag _ ?_⟩
    obtain hold | hnew := Bool.or_eq_true_iff.mp hcopy
    · exact horder t ht hc hk hold
    · exact (Bool.and_eq_true_iff.mp hnew).2
  · obtain ⟨hh, hag⟩ := heardNote_other snr rxMs worstMs hk hheld (fun hn => hentry hn t ht hc)
    refine ⟨hh, fun hcopy => hag _ ?_⟩
    obtain hold | hnew := Bool.or_eq_true_iff.mp hcopy
    · exact hs.again t ht hc hold
    · have hkey := (Bool.and_eq_true_iff.mp (Bool.and_eq_true_iff.mp hnew).1).2
      exact absurd (eq_of_beq hkey) hk

theorem onRx_sound : (h.onRx wire snr rxMs worstMs).Sound := by
  have hnoted {t : HeadTx} := hs.noted (t := t) hu
  obtain ⟨-, -, hpassed⟩ := hu
  unfold onRx
  split
  · exact hs
  obtain ⟨hq, hth, hrep⟩ := heardNote_frame h (wireKey wire) snr rxMs worstMs
  have hwait : (h.heardNoteLocked (wireKey wire) snr rxMs worstMs).waiting = h.waiting := by
    rw [waiting, waiting, hq, hth]
  constructor
  · intro t' ht' hc
    obtain ⟨t, ht, rfl⟩ := mem_markWaiting ht'
    rw [hwait] at ht
    exact (hnoted ht hc).1
  · intro t' ht' hc hcopy
    obtain ⟨t, ht, rfl⟩ := mem_markWaiting ht'
    rw [hwait] at ht
    exact (hnoted ht hc).2 hcopy
  · intro stage t' hst hp hc
    obtain ⟨t, ht, rfl⟩ := thread_markWaiting hst
    rw [hth] at ht
    have hold := hs.passed stage t ht hp hc
    have hnew := hpassed (stage, t) ht hp
    change (t.copyHeard || t.copiedBy (wireKey wire) rxMs) = false
    rw [hold, hnew]
    rfl
  · intro t' hst
    obtain ⟨t, ht, rfl⟩ := thread_markWaiting hst
    rw [hth] at ht
    exact hs.late t ht
  · intro t ht hc
    change (t, Ret.sent) ∈ (h.heardNoteLocked _ _ _ _).reported at ht
    rw [hrep] at ht
    exact hs.sent t ht hc

end

theorem acceptedTx_fields (h : Head) (m : TxFrame) (now ownDelayMs : UInt32) :
    (h.acceptedTx m now ownDelayMs).copyHeard = false ∧
    ((h.acceptedTx m now ownDelayMs).cancels = true → relays m.flags = true ∧
      m.dupe = dupeCancel ∧ (h.acceptedTx m now ownDelayMs).relay = ⟨m.relaySrc, m.relayId⟩) := by
  cases hr : relays m.flags <;> cases ho : (m.flags &&& 0x02 != 0 && ownDelayMs != 0) <;>
    simp [acceptedTx, HeadTx.cancels, HeadTx.isRelay, hr, ho]

theorem Sound.enqueue (hs : h.Sound) (hcopy : t.copyHeard = false)
    (hheld : t.cancels = true → h.Holds t.relay) :
    Sound { h with txQueue := h.txQueue ++ [t] } := by
  have old : ∀ t' ∈ ({ h with txQueue := h.txQueue ++ [t] } : Head).waiting,
      t' ∈ h.waiting ∨ t' = t := by
    intro t' ht'
    obtain ht' | hst := mem_waiting.mp ht'
    · obtain ht' | ht' := mem_append.mp ht'
      · exact .inl (mem_waiting.mpr (.inl ht'))
      · exact .inr (mem_singleton.mp ht')
    · exact .inl (mem_waiting.mpr (.inr hst))
  refine { hs with entry := ?_, again := ?_ }
  · intro t' ht' hc
    obtain ht' | rfl := old t' ht'
    · exact hs.entry t' ht' hc
    · exact hheld hc
  · intro t' ht' hc hcopy'
    obtain ht' | rfl := old t' ht'
    · exact hs.again t' ht' hc hcopy'
    · exact absurd (hcopy.symm.trans hcopy') nofun

theorem onEnvelope_sound {node : UInt32} {trusted : Bool}
    {env : Bytes} {now ownDelayMs : UInt32} (hs : h.Sound)
    (hu : h.Undisturbed (.envelope node trusted env now ownDelayMs)) :
    (h.onEnvelope cfg node trusted env now ownDelayMs).Sound := by
  unfold onEnvelope
  split
  · rename_i m hm
    split
    · obtain ⟨hcopy, hcan⟩ := acceptedTx_fields h m now ownDelayMs
      refine hs.enqueue hcopy fun hc => ?_
      obtain ⟨hr, hd, hk⟩ := hcan hc
      rw [hk]
      refine hu _ ?_
      rw [orderedRelay, hm]
      simp [hr, hd]
    · exact hs
  · split
    · exact { hs with }
    · exact hs
  · exact hs

theorem step_sound {e : Event} (hs : h.Sound) (hu : h.Undisturbed e) : (h.step cfg e).Sound := by
  cases e with
  | rx wire snr rxMs worstMs => exact onRx_sound hs hu
  | envelope node trusted env now ownDelayMs => exact onEnvelope_sound hs hu
  | thread now worstMs duty radio => exact (threadStep_threaded cfg h _ _ _ _).sound hs
  | setBrain brain => exact { hs with }

end Head

/-- Whatever the head hears, is told and transmits, in any order: while each step leaves the
entries of the waiting relays in the ring and no copy comes after the last test, no relay with
the cancel rule of whose packet a later copy was heard while it waited is transmitted. -/
theorem cancels_on_duplicate (cfg : HeadConfig) (brain : UInt32) (es : List Head.Event)
    (h : Guarded (Head.step cfg) Head.Undisturbed (Head.init brain) es) :
    ∀ t, (t, Ret.sent) ∈ (run (Head.step cfg) (Head.init brain) es).reported →
      t.cancels = true → t.copyHeard = false :=
  (run_keeps Sound (init_sound brain) (fun _ _ hs hu => step_sound hs hu) h).sent

/-- A frame with nothing in it but the header of a packet. -/
def airFrame (src id : UInt32) : Bytes :=
  [0, 0, 0, 0] ++ Bytes.putLe32 src ++ Bytes.putLe32 id ++ [0, 0, 0, 0]

/-- The brain's order to relay packet 9 of node 7, heard at one second, half a second later, and
to cancel on a copy. -/
def relayOrder : Bytes :=
  [2, 0, 0x04, 1, 0, 7, 0, 0, 0, 9, 0, 0, 0, 0xE8, 0x03, 0, 0, 0xF4, 0x01, 0, 0, 1, 0xAA]

def headConfig : HeadConfig := ⟨4, 3⟩

/-- The packet is heard, the order comes, and the thread waits. -/
def relayWaits : List Head.Event :=
  [.rx (airFrame 7 9) 0 1000 0, .envelope 1 true relayOrder 1100 0,
    .thread 1100 5000 false .sent, .thread 1100 5000 false .sent]

/-- A copy comes before the time of the relay, and the thread goes on to the end. -/
def copyComes : List Head.Event :=
  [.rx (airFrame 7 9) 0 1300 0, .thread 1500 5000 false .sent, .thread 1500 5000 false .sent,
    .thread 1500 5000 false .sent, .thread 1500 5000 false .sent]

/-- Sixteen other packets. -/
def otherTraffic : List Head.Event :=
  (range 16).map fun i => .rx (airFrame 3 (UInt32.ofNat i)) 0 1200 0

/-- With one other packet heard in between, the relay is cancelled. -/
theorem relay_cancelled :
    let es := relayWaits ++ otherTraffic.take 1 ++ copyComes
    let h := run (Head.step headConfig) (Head.init 1) es
    (∀ t, (t, Ret.sent) ∈ h.reported → t.cancels = true → t.copyHeard = false) ∧
    h.reported.map (fun p => (p.1.relay, p.1.copyHeard, p.2)) = [(⟨7, 9⟩, true, .cancelled)] := by
  intro es h
  have hg : Guarded (step headConfig) Undisturbed (init 1) es := by
    decide +kernel
  exact ⟨cancels_on_duplicate headConfig 1 es hg, by decide +kernel⟩

/-- Sixteen other packets have taken the ring: the copy counts as the first one, and the relay
goes out after it. -/
theorem evicted_entry_relays_twice :
    let h := run (Head.step headConfig) (Head.init 1) (relayWaits ++ otherTraffic ++ copyComes)
    h.reported.map (fun p => (p.1.relay, p.1.cancels, p.1.copyHeard, p.2)) =
      [(⟨7, 9⟩, true, true, .sent)] := by
  decide +kernel

end Zephyrtastic.Attachment
