import Zephyrtastic.Airtime.Ledger

/-!
# The lazy ledger is a sliding window

The ledger and the clock have the same rings after every access, while the uptime
in seconds fits a word (`run_agrees`); and the rings of the clock hold, bucket by
bucket, what was logged in the window (`Clocked.Filled`).
-/

namespace Zephyrtastic.Airtime

open List Nat Run UInt32 Window

variable {n uptime now : Nat} {g : Clocked} {e : Event} {es : List Event} {r : Radio}

theorem clear_seconds {p : Nat} [NeZero n] (u : Fin n → UInt32) (s k : Nat) :
    (if (s + k + 1) / p = (s + k) / p then clear u (s / p) ((s + k) / p - s / p)
      else enter (clear u (s / p) ((s + k) / p - s / p)) ((s + k) / p)) =
      clear u (s / p) ((s + (k + 1)) / p - s / p) := by
  have hmono : s / p ≤ (s + k) / p := Nat.div_le_div_right (by omega)
  have hnext : (s + k + 1) / p = (s + k) / p ∨ (s + k + 1) / p = (s + k) / p + 1 := by
    rw [Nat.succ_div]
    split
    · exact .inr rfl
    · exact .inl rfl
  rw [← add_assoc]
  obtain h | h := hnext
  · rw [if_pos h, h]
  · have hsub : (s + k + 1) / p - s / p = ((s + k) / p - s / p) + 1 := by omega
    have hlast : s / p + ((s + k) / p - s / p) = (s + k) / p := by omega
    rw [if_neg (by omega), hsub, clear, hlast]

namespace Clocked

section
variable (g) (k : Nat)

@[simp] theorem ticks_second : (g.ticks k).second = g.second + k := by
  induction k with
  | zero => rfl
  | succ k ih => rw [ticks, tick, ih, add_assoc]

theorem ticks_tx :
    (g.ticks k).utilizationTx =
      clear g.utilizationTx (g.second / 60) ((g.second + k) / 60 - g.second / 60) := by
  induction k with
  | zero => simp [ticks, clear]
  | succ k ih =>
    rw [ticks, tick, ticks_second, ih]
    exact clear_seconds _ _ _

theorem ticks_channel (sl : PresetSlot) :
    (g.ticks k).channelUtilization sl =
      clear (g.channelUtilization sl) (g.second / 10) ((g.second + k) / 10 - g.second / 10) := by
  induction k with
  | zero => simp [ticks, clear]
  | succ k ih =>
    rw [ticks, tick, ticks_second]
    simp only [ih]
    exact clear_seconds _ _ _

end

theorem till_second (h : g.second ≤ uptime / 1000) : (g.till uptime).second = uptime / 1000 := by
  rw [till, ticks_second]
  omega

end Clocked

/-- The ledger has the rings of the clock, and its counts are those of the last access. -/
structure Agrees (a : Ledger) (g : Clocked) : Prop where
  channel : a.channelUtilization = g.channelUtilization
  tx : a.utilizationTx = g.utilizationTx
  counts : a.initialized = true →
    a.lastUtilTick.toNat = g.second / 10 ∧ a.lastTxTick.toNat = g.second / 60
  fresh : a.initialized = false → g.channelUtilization = (fun _ _ => 0) ∧
    g.utilizationTx = fun _ => 0

theorem toNat_nowSeconds (h : uptime / 1000 < 2 ^ 32) :
    (nowSeconds uptime).toNat = uptime / 1000 := by
  rw [nowSeconds, toNat_ofNat', mod_eq_of_lt h]

theorem toNat_elapsed {sec last p : UInt32} {s : Nat} (hlast : last.toNat = s / p.toNat)
    (hs : s ≤ sec.toNat) : (sec / p - last).toNat = sec.toNat / p.toNat - s / p.toNat := by
  have hle : last ≤ sec / p := by
    rw [le_iff_toNat_le, hlast]
    exact Nat.div_le_div_right hs
  rw [UInt32.toNat_sub_of_le _ _ hle, UInt32.toNat_div, hlast]

theorem advance_agrees {a : Ledger} (h : Agrees a g)
    (hs : g.second ≤ uptime / 1000) (hup : uptime / 1000 < 2 ^ 32) :
    Agrees (a.advance (nowSeconds uptime)) (g.till uptime) := by
  have hsec := toNat_nowSeconds hup
  have hcounts : (nowSeconds uptime / 10).toNat = (g.till uptime).second / 10 ∧
      (nowSeconds uptime / 60).toNat = (g.till uptime).second / 60 := by
    rw [Clocked.till_second hs, UInt32.toNat_div, UInt32.toNat_div, hsec]
    exact ⟨rfl, rfl⟩
  have hend : g.second + (uptime / 1000 - g.second) = uptime / 1000 := by omega
  unfold Ledger.advance
  cases hi : a.initialized with
  | false =>
    obtain ⟨hc, ht⟩ := h.fresh hi
    refine ⟨?_, ?_, fun _ => hcounts, nofun⟩
    · funext sl
      rw [Clocked.till, Clocked.ticks_channel, hc, clear_zero]
      exact congrFun (h.channel.trans hc) sl
    · rw [Clocked.till, Clocked.ticks_tx, ht, clear_zero]
      exact h.tx.trans ht
  | true =>
    obtain ⟨hu, ht⟩ := h.counts hi
    have hle : g.second ≤ (nowSeconds uptime).toNat := by rw [hsec]; exact hs
    refine ⟨?_, ?_, fun _ => hcounts, nofun⟩
    · funext sl
      rw [Clocked.till, Clocked.ticks_channel, hend, ← h.channel]
      change roll (a.channelUtilization sl) _ _ = _
      rw [roll_eq_clear, toNat_elapsed hu hle, hu, hsec]
      rfl
    · rw [Clocked.till, Clocked.ticks_tx, hend, ← h.tx]
      change roll a.utilizationTx _ _ = _
      rw [roll_eq_clear, toNat_elapsed ht hle, ht, hsec]
      rfl

theorem advance_initialized (a : Ledger) (sec : UInt32) : (a.advance sec).initialized = true := by
  unfold Ledger.advance
  split
  · rfl
  · rename_i h
    simpa using h

/-- The accesses come in order, and the seconds of the uptime fit a word. -/
def InOrder (g : Clocked) (e : Event) : Prop :=
  g.second ≤ e.uptime / 1000 ∧ e.uptime / 1000 < 2 ^ 32

theorem step_agrees {a : Ledger} (h : Agrees a g) (he : InOrder g e) :
    Agrees (a.step e) (g.step e) := by
  have hadv := advance_agrees h he.1 he.2
  have hinit := advance_initialized a (nowSeconds e.uptime)
  have hsec := toNat_nowSeconds he.2
  have htick : (nowSeconds e.uptime / 10).toNat = (g.till e.uptime).second / 10 ∧
      (nowSeconds e.uptime / 60).toNat = (g.till e.uptime).second / 60 := by
    rw [Clocked.till_second he.1, UInt32.toNat_div, UInt32.toNat_div, hsec]
    exact ⟨rfl, rfl⟩
  unfold Ledger.step Clocked.step
  cases hop : e.op with
  | read => exact hadv
  | log kind ms =>
    dsimp only
    have hring : addChannel (a.advance (nowSeconds e.uptime)).channelUtilization
          (airtimeSlot e.radio) (nowSeconds e.uptime / 10).toNat ms =
        addChannel (g.till e.uptime).channelUtilization (airtimeSlot e.radio)
          ((g.till e.uptime).second / 10) ms := by
      rw [hadv.channel, htick.1]
    cases kind with
    | tx =>
      refine ⟨hring, ?_, fun hi => hadv.counts hi, fun hi => ?_⟩
      · change Window.add _ _ ms = _
        rw [hadv.tx, htick.2]
        rfl
      · exact absurd (hinit.symm.trans hi) nofun
    | rx | rxAll =>
      exact ⟨hring, hadv.tx, hadv.counts, fun hi => absurd (hinit.symm.trans hi) nofun⟩

theorem init_agrees : Agrees Ledger.init Clocked.init :=
  ⟨rfl, rfl, nofun, fun _ => ⟨rfl, rfl⟩⟩

/-- The accesses of a list come in order, the last before `now`. -/
structure Timely (es : List Event) (now : Nat) : Prop where
  sorted : es.Pairwise fun e e' => e.uptime ≤ e'.uptime
  before : ∀ e ∈ es, e.uptime ≤ now
  fits : now / 1000 < 2 ^ 32

theorem Timely.init (h : Timely (es ++ [e]) now) : Timely es e.uptime where
  sorted := (pairwise_append.mp h.sorted).1
  before := by
    intro e' he'
    exact (pairwise_append.mp h.sorted).2.2 e' he' e (mem_singleton_self e)
  fits := by
    have hle := h.before e (mem_append_right _ (mem_singleton_self e))
    exact lt_of_le_of_lt (Nat.div_le_div_right hle) h.fits

theorem Timely.last (h : Timely (es ++ [e]) now) : e.uptime / 1000 ≤ now / 1000 :=
  Nat.div_le_div_right (h.before e (mem_append_right _ (mem_singleton_self e)))

@[simp] theorem step_second (g : Clocked) (e : Event) :
    (g.step e).second = (g.till e.uptime).second := by
  unfold Clocked.step
  cases e.op <;> rfl

/-- Every access finds the clock at a second it has not passed. -/
theorem run_second (h : Timely es now) :
    (run Clocked.step Clocked.init es).second ≤ now / 1000 := by
  induction es using reverseRecOn generalizing now with
  | nil => exact zero_le _
  | append_singleton es e ih =>
    rw [run_append, step_second, Clocked.till_second (ih h.init)]
    exact h.last

theorem run_agrees (h : Timely es now) :
    Agrees (run Ledger.step Ledger.init es) (run Clocked.step Clocked.init es) := by
  induction es using reverseRecOn generalizing now with
  | nil => exact init_agrees
  | append_singleton es e ih =>
    rw [run_append, run_append]
    exact step_agrees (ih h.init) ⟨run_second h.init, h.init.fits⟩

namespace Event

/-- What an access logs. -/
def loggedMs (e : Event) : UInt32 :=
  match e.op with
  | .log _ ms => ms
  | .read => 0

/-- What it logs as transmitted. -/
def txMs (e : Event) : UInt32 :=
  match e.op with
  | .log .tx ms => ms
  | _ => 0

/-- What it logs into one of the channel rings. -/
def slotMs (e : Event) (sl : PresetSlot) : UInt32 :=
  if airtimeSlot e.radio = sl then e.loggedMs else 0

end Event

def txLog (es : List Event) : List (Nat × UInt32) :=
  es.map fun e => (e.uptime / 1000 / 60, e.txMs)

def slotLog (es : List Event) (sl : PresetSlot) : List (Nat × UInt32) :=
  es.map fun e => (e.uptime / 1000 / 10, e.slotMs sl)

/-- The rings hold what was logged, each in its window. -/
structure Clocked.Filled (g : Clocked) (es : List Event) : Prop where
  tx : Holds g.utilizationTx (g.second / 60) (txLog es)
  channel : ∀ sl, Holds (g.channelUtilization sl) (g.second / 10) (slotLog es sl)

open Clocked

theorem holds_seconds {p s t : Nat} [NeZero n] {u : Fin n → UInt32} {log : List (Nat × UInt32)}
    (h : Holds u (s / p) log) (hs : s ≤ t) :
    Holds (clear u (s / p) ((s + (t - s)) / p - s / p)) (t / p) log := by
  have hmono : s / p ≤ t / p := Nat.div_le_div_right hs
  have hend : s + (t - s) = t := by omega
  have hlast : s / p + (t / p - s / p) = t / p := by omega
  have hclear := h.clear (t / p - s / p)
  rw [hlast] at hclear
  rw [hend]
  exact hclear

theorem Clocked.Filled.till (h : g.Filled es)
    (hs : g.second ≤ uptime / 1000) : (g.till uptime).Filled es where
  tx := by
    rw [till_second hs, Clocked.till, ticks_tx]
    exact holds_seconds h.tx hs
  channel := by
    intro sl
    rw [till_second hs, Clocked.till, ticks_channel]
    exact holds_seconds (h.channel sl) hs

theorem add_none [NeZero n] (u : Fin n → UInt32) (tick : Nat) : add u tick 0 = u := by
  rw [add, add_zero, Function.update_eq_self]

theorem addChannel_apply (rings : PresetSlot → Fin 6 → UInt32) (sl sl' : PresetSlot) (tick : Nat)
    (ms : UInt32) :
    addChannel rings sl tick ms sl' = add (rings sl') tick (if sl = sl' then ms else 0) := by
  unfold addChannel
  by_cases h : sl' = sl
  · subst h
    rw [Function.update_self, if_pos rfl]
  · rw [Function.update_of_ne h, if_neg (Ne.symm h), add_none]

theorem step_tx (g : Clocked) (e : Event) :
    (g.step e).utilizationTx =
      add (g.till e.uptime).utilizationTx ((g.till e.uptime).second / 60) e.txMs := by
  unfold step Event.txMs
  cases e.op with
  | read => exact (add_none _ _).symm
  | log kind ms =>
    cases kind with
    | tx => rfl
    | rx | rxAll => exact (add_none _ _).symm

theorem step_channel (g : Clocked) (e : Event) (sl : PresetSlot) :
    (g.step e).channelUtilization sl =
      Window.add ((g.till e.uptime).channelUtilization sl) ((g.till e.uptime).second / 10)
        (e.slotMs sl) := by
  unfold step Event.slotMs Event.loggedMs
  cases e.op with
  | read =>
    rw [ite_self]
    exact (add_none _ _).symm
  | log kind ms => exact addChannel_apply _ _ _ _ _

theorem step_filled (h : g.Filled es)
    (hs : g.second ≤ e.uptime / 1000) : (g.step e).Filled (es ++ [e]) where
  tx := by
    have hadd := (h.till hs).tx.add e.txMs
    rw [step_second, step_tx, txLog, map_append]
    rw [till_second hs] at hadd ⊢
    exact hadd
  channel := by
    intro sl
    have hadd := ((h.till hs).channel sl).add (e.slotMs sl)
    rw [step_second, step_channel, slotLog, map_append]
    rw [till_second hs] at hadd ⊢
    exact hadd

theorem run_filled (h : Timely es now) : (run step init es).Filled es := by
  induction es using reverseRecOn generalizing now with
  | nil => exact ⟨holds_zero _, fun _ => holds_zero _⟩
  | append_singleton es e ih =>
    rw [run_append]
    exact step_filled (ih h.init) (run_second h.init)

theorem toNat_sum {α : Type} (l : List α) (f : α → UInt32) :
    (l.map f).sum.toNat = (l.map fun a => (f a).toNat).sum % 2 ^ 32 := by
  induction l with
  | nil => rfl
  | cons a l ih =>
    rw [map_cons, sum_cons, UInt32.toNat_add, ih, map_cons, sum_cons,
      add_mod_mod]

/-- The milliseconds logged as transmitted in the current minute and the 59 before it. -/
def txTotal (es : List Event) (now : Nat) : Nat :=
  (es.map fun e => if now / 1000 / 60 < e.uptime / 1000 / 60 + 60 then e.txMs.toNat else 0).sum

/-- The milliseconds logged on a channel in the current period and the five before it. -/
def channelTotal (channel : Option UInt32) (es : List Event) (now : Nat) : Nat :=
  (es.map fun e =>
    if now / 1000 / 10 < e.uptime / 1000 / 10 + 6 ∧ e.radio.channel = channel then
      e.loggedMs.toNat
    else 0).sum

/-- In the window no other channel has logged into the ring of this radio. -/
def OwnRing (r : Radio) (es : List Event) (now : Nat) : Prop :=
  ∀ e ∈ es, now / 1000 / 10 < e.uptime / 1000 / 10 + 6 → e.op ≠ .read →
    airtimeSlot e.radio = airtimeSlot r → e.radio.channel = r.channel

theorem airtimeSlot_congr {r' : Radio} (h : r'.channel = r.channel) :
    airtimeSlot r' = airtimeSlot r := by
  obtain ⟨u, m⟩ := r
  obtain ⟨u', m'⟩ := r'
  cases u <;> cases u' <;> cases h <;> rfl

theorem airtimeSlot_val (hu : r.usePreset = true) (h : r.modemPreset < 14) :
    (airtimeSlot r).val = r.modemPreset.toNat := by
  have hlt : r.modemPreset.toNat < 14 := lt_iff_toNat_lt.mp h
  simp [airtimeSlot, hu, hlt]

/-- The ring of a preset below 14 is its own, whatever was logged. -/
theorem ownRing_of_lt (hu : r.usePreset = true) (h : r.modemPreset < 14)
    (es : List Event) (now : Nat) : OwnRing r es now := by
  intro e _ _ _ hslot
  have hlt : r.modemPreset.toNat < 14 := lt_iff_toNat_lt.mp h
  have hval : (airtimeSlot e.radio).val = r.modemPreset.toNat := by
    rw [hslot, airtimeSlot_val hu h]
  have hne : airtimeSlot e.radio ≠ slotCustom := by
    intro heq
    rw [heq] at hval
    simp only [slotCustom, Fin.val_last] at hval
    omega
  unfold airtimeSlot at hval hne
  split at hne
  · exact absurd rfl hne
  rename_i heu
  rw [if_neg heu] at hval
  split at hne
  · rename_i hel
    rw [dif_pos hel] at hval
    have heq : e.radio.modemPreset = r.modemPreset := UInt32.toNat_inj.mp hval
    simp only [Bool.not_eq_true', Bool.not_eq_false] at heu
    rw [Radio.channel, Radio.channel, heu, hu, heq]
  · exact absurd rfl hne

theorem slotMs_own (hown : OwnRing r es now) (he : e ∈ es) :
    (if now / 1000 / 10 < e.uptime / 1000 / 10 + 6 then e.slotMs (airtimeSlot r) else 0).toNat =
      if now / 1000 / 10 < e.uptime / 1000 / 10 + 6 ∧ e.radio.channel = r.channel then
        e.loggedMs.toNat
      else 0 := by
  by_cases hw : now / 1000 / 10 < e.uptime / 1000 / 10 + 6
  · rw [if_pos hw, Event.slotMs]
    by_cases hc : e.radio.channel = r.channel
    · rw [if_pos (airtimeSlot_congr hc), if_pos ⟨hw, hc⟩]
    have hnot : ¬ (now / 1000 / 10 < e.uptime / 1000 / 10 + 6 ∧ e.radio.channel = r.channel) :=
      fun h => hc h.2
    rw [if_neg hnot]
    split
    · rename_i hslot
      -- a read logs nothing, and a log would be one of this channel
      have hread : e.op = .read := by
        by_contra hop
        exact hc (hown e he hw hop hslot)
      rw [Event.loggedMs, hread]
      rfl
    · rfl
  · rw [if_neg hw, if_neg fun h => hw h.1]
    rfl

/-- At every uptime the ledger has the rings of a clock that ticks every second; the transmit
sum is what was logged as transmitted in the hour of its window, and the sum of a channel is
what was logged on it in its minute, if no other channel has logged into its ring and neither
total exceeds a word. -/
theorem ledger_slides (es : List Event) (now : Nat) (h : Timely es now) :
    let a := (run Ledger.step Ledger.init es).advance (nowSeconds now)
    let g := (run Clocked.step Clocked.init es).till now
    a.channelUtilization = g.channelUtilization ∧ a.utilizationTx = g.utilizationTx ∧
    (txTotal es now < 2 ^ 32 → a.txSum.toNat = txTotal es now) ∧
    ∀ r, OwnRing r es now → channelTotal r.channel es now < 2 ^ 32 →
      (a.channelSum (airtimeSlot r)).toNat = channelTotal r.channel es now := by
  intro a g
  have hs := run_second h
  have hagree : Agrees a g := advance_agrees (run_agrees h) hs h.fits
  have hfill : g.Filled es := (run_filled h).till hs
  have hsec : g.second = now / 1000 := Clocked.till_second hs
  refine ⟨hagree.channel, hagree.tx, fun hlt => ?_, fun r hown hlt => ?_⟩
  · have hsum : a.txSum = total (fun e => now / 1000 / 60 < e.1 + 60) (txLog es) := by
      rw [Ledger.txSum, hagree.tx, hfill.tx.sum, hsec]
    rw [hsum, total, txLog, map_map, toNat_sum]
    refine Eq.trans ?_ (mod_eq_of_lt hlt)
    congr 2
    apply map_congr_left
    intro e _
    exact apply_ite toNat _ _ _
  · have hsum : a.channelSum (airtimeSlot r) =
        total (fun e => now / 1000 / 10 < e.1 + 6) (slotLog es (airtimeSlot r)) := by
      rw [Ledger.channelSum, hagree.channel, (hfill.channel _).sum, hsec]
    rw [hsum, total, slotLog, map_map, toNat_sum]
    refine Eq.trans ?_ (mod_eq_of_lt hlt)
    congr 2
    apply map_congr_left
    intro e he
    exact slotMs_own hown he

/-- The radio on a preset, by its number. -/
def onPreset (preset : UInt32) : Radio := ⟨true, preset⟩

/-- Two frames on LONG_FAST, one before and one after a stay on MEDIUM_FAST, and a gap that the
first does not outlast. -/
def slicedLog : List Event :=
  [⟨1000, onPreset 0, .log .tx 300⟩, ⟨30000, onPreset 4, .log .rx 70⟩,
    ⟨64000, onPreset 0, .log .tx 200⟩, ⟨65000, onPreset 4, .read⟩]

theorem slicedLog_slides :
    let a := (run Ledger.step Ledger.init slicedLog).advance (nowSeconds 66000)
    a.txSum.toNat = 500 ∧ (a.channelSum (airtimeSlot (onPreset 0))).toNat = 200 ∧
      (a.channelSum (airtimeSlot (onPreset 4))).toNat = 70 := by
  intro a
  have ht : Timely slicedLog 66000 := ⟨by decide, by decide, by decide⟩
  obtain ⟨-, -, htx, hch⟩ := ledger_slides slicedLog 66000 ht
  have hown : ∀ p < 14, OwnRing (onPreset p) slicedLog 66000 :=
    fun p hp => ownRing_of_lt rfl hp _ _
  exact ⟨htx (by decide), hch _ (hown 0 (by decide)) (by decide),
    hch _ (hown 4 (by decide)) (by decide)⟩

/-- MEDIUM_TURBO, TINY_FAST and a custom configuration have one ring: what was heard on the
first is read as the business of the others. -/
theorem shared_ring_not_own :
    let es : List Event := [⟨1000, onPreset 16, .log .rx 30000⟩]
    let a := (run Ledger.step Ledger.init es).advance (nowSeconds 2000)
    (a.channelSum (airtimeSlot (onPreset 14))).toNat = 30000 ∧
      channelTotal (onPreset 14).channel es 2000 = 0 ∧
      (a.channelSum (airtimeSlot ⟨false, 0⟩)).toNat = 30000 ∧
      channelTotal (Radio.channel ⟨false, 0⟩) es 2000 = 0 := by
  decide +kernel

end Zephyrtastic.Airtime
