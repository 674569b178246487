import Mathlib.Data.List.Induction
import Mathlib.Data.List.Perm.Basic
import Mathlib.Order.Bounds.Basic
import Zephyrtastic.Lib.Bytes

/-!
# The frames of the outbound queue

The queue is an array kept in the order of arrival. What goes out next, what is evicted and
what a cancel removes are searches of that array; each of them is said once here, by what it
finds and what it leaves.
-/

namespace Zephyrtastic.Outbound

open List UInt32

inductive Order where
  | fifo | priority
  deriving DecidableEq, Repr

inductive Overflow where
  | dropNewest | dropLowest
  deriving DecidableEq, Repr

/-- What the queue reads of `struct meshtastic_sched_config`. -/
structure Sched where
  txOrder : Order
  txOverflow : Overflow
  txDepth : Nat
  deriving DecidableEq, Repr

/-- `struct ob_item`. The caller that waits on `done` stands for the semaphore and the result
on its stack. The number of the frame in the order of acceptance is not in the code and
nothing reads it. -/
structure ObItem (ι : Type) where
  wire : Bytes
  tier : Nat
  sendAfter : UInt32
  late : Bool
  gen : UInt32
  defers : Nat
  attach : Nat
  done : Option ι
  serial : Nat
  deriving DecidableEq, Repr

def hdrLen : Nat := 16

def pktMax : Nat := 255

namespace ObItem

variable {ι : Type}

/-- `h->src` and `h->id` of the wire header. -/
def src (it : ObItem ι) : UInt32 := Bytes.getLe32 (it.wire.drop 4)

def id (it : ObItem ι) : UInt32 := Bytes.getLe32 (it.wire.drop 8)

/-- The frame is a copy of the packet, and nobody waits for it. -/
def copyOf (src id : UInt32) (it : ObItem ι) : Bool :=
  decide (hdrLen ≤ it.wire.length) && it.done.isNone && it.src == src && it.id == id

/-- What of a frame is decided when it is accepted and stays with it. -/
def ticket (it : ObItem ι) : Nat × Option ι := (it.serial, it.done)

end ObItem

/-- A deadline of 0 means "now". -/
def deadline (now delayMs : UInt32) : UInt32 := if now + delayMs = 0 then 1 else now + delayMs

/-- `ob_eligible`. The difference is read as signed. -/
def obEligible {ι : Type} (it : ObItem ι) (now : UInt32) : Bool :=
  it.sendAfter == 0 || decide (now - it.sendAfter < 0x80000000)

section Scan
variable {α : Type} (ok : α → Bool) (beats : α → α → Bool)

/-- One ascending scan for the best entry that may be chosen: the first one, until a later
one beats it. -/
def bestFrom : List α → Nat → Option (Nat × α) → Option (Nat × α)
  | [], _, best => best
  | a :: rest, i, none => bestFrom rest (i + 1) (if ok a then some (i, a) else none)
  | a :: rest, i, some b =>
    bestFrom rest (i + 1) (if ok a && beats a b.2 then some (i, a) else some b)

/-- The scan of one entry more. -/
theorem bestFrom_concat (l : List α) (a : α) (i : Nat) (best : Option (Nat × α)) :
    bestFrom ok beats (l ++ [a]) i best =
      match bestFrom ok beats l i best with
      | none => if ok a then some (i + l.length, a) else none
      | some b => if ok a && beats a b.2 then some (i + l.length, a) else some b := by
  induction l generalizing i best with
  | nil => cases best <;> rfl
  | cons x l ih => cases best <;> simp [bestFrom, ih, Nat.add_comm, Nat.add_left_comm]

/-- The scan finds nothing only where no entry may be chosen. -/
theorem best_spec (l : List α) : (bestFrom ok beats l 0 none).elim (∀ a ∈ l, ok a = false)
    fun r => l[r.1]? = some r.2 ∧ ok r.2 = true := by
  induction l using reverseRecOn with
  | nil => simp [bestFrom]
  | append_singleton l x ih =>
    rw [bestFrom_concat]
    cases hb : bestFrom ok beats l 0 none with
    | none =>
      rw [hb] at ih
      cases hx : ok x
      · simpa [or_imp, forall_and, hx] using ih
      · simp [hx]
    | some b =>
      rw [hb] at ih
      dsimp only
      split
      · rename_i hx
        simp [(Bool.and_eq_true_iff.mp hx).1]
      obtain ⟨hi, hok⟩ := ih
      refine ⟨?_, hok⟩
      rw [getElem?_append_left (List.getElem?_eq_some_iff.mp hi).1]
      exact hi

variable {ok beats}

theorem best_none {l : List α} (h : bestFrom ok beats l 0 none = none) : ∀ a ∈ l, ok a = false := by
  have hspec := best_spec ok beats l
  rwa [h] at hspec

theorem best_found {l : List α} {i : Nat} {a : α} (h : bestFrom ok beats l 0 none = some (i, a)) :
    l[i]? = some a ∧ ok a = true := by
  have hspec := best_spec ok beats l
  rwa [h] at hspec

/-- Where a greater rank wins, the scan finds the first entry of the highest rank. -/
theorem best_first (rank : α → Nat) {l : List α} {i : Nat} {a : α}
    (h : bestFrom ok (fun a b => decide (rank b < rank a)) l 0 none = some (i, a)) :
    ∀ j b, l[j]? = some b → ok b = true → rank b ≤ rank a ∧ (rank b = rank a → i ≤ j) := by
  induction l using reverseRecOn generalizing i a with
  | nil => cases h
  | append_singleton l x ih =>
    intro j b hj hok
    rw [bestFrom_concat] at h
    rcases Nat.lt_or_ge j l.length with hlt | hge
    · rw [getElem?_append_left hlt] at hj
      cases hb : bestFrom ok (fun a b => decide (rank b < rank a)) l 0 none with
      | none =>
        rw [best_none hb b (mem_of_getElem? hj)] at hok
        cases hok
      | some c =>
        obtain ⟨hle, hfirst⟩ := ih hb j b hj hok
        rw [hb] at h
        dsimp only at h
        split at h <;> cases h
        · rename_i hx
          have hrank : rank c.2 < rank x := by simpa using (Bool.and_eq_true_iff.mp hx).2
          exact ⟨by omega, fun heq => by omega⟩
        · exact ⟨hle, hfirst⟩
    · rw [getElem?_append_right hge, getElem?_singleton] at hj
      obtain ⟨hj, hx⟩ := Option.ite_none_right_eq_some.mp hj
      cases hx
      cases hb : bestFrom ok (fun a b => decide (rank b < rank a)) l 0 none with
      | none =>
        simp only [hb, hok, if_true] at h
        cases h
        exact ⟨Nat.le_refl _, fun _ => by omega⟩
      | some c =>
        have hc := (List.getElem?_eq_some_iff.mp (best_found hb).1).1
        rw [hb] at h
        dsimp only at h
        split at h <;> cases h
        · exact ⟨Nat.le_refl _, fun _ => by omega⟩
        · rename_i hx
          have hrank : ¬ rank a < rank x := by simpa [hok] using hx
          exact ⟨by omega, fun _ => by omega⟩

end Scan

section
variable {ι : Type}

/-- `pick_next_locked`: the oldest frame that is due, or under the priority order the oldest of
the highest tier. -/
def pickNext (order : Order) (now : UInt32) (items : List (ObItem ι)) : Option (Nat × ObItem ι) :=
  bestFrom (fun it => obEligible it now)
    (fun it best => order == .priority && decide (best.tier < it.tier)) items 0 none

/-- The wait `pick_next_locked` returns beside it: until the earliest frame comes due. -/
def waitMs (now : UInt32) (items : List (ObItem ι)) : Option UInt32 :=
  items.foldl (fun soonest it =>
    if obEligible it now then soonest
    else some (soonest.elim (it.sendAfter - now) (min (it.sendAfter - now)))) none

theorem waitMs_eq (now : UInt32) (items : List (ObItem ι)) :
    waitMs now items = ((items.reverse.filter fun it => !obEligible it now).map
      fun it => it.sendAfter - now).min? := by
  rw [waitMs, foldl_eq_foldr_reverse]
  induction items.reverse with
  | nil => rfl
  | cons it rest ih =>
    rw [foldr_cons, ih]
    split
    · rename_i hdue
      rw [filter_cons_of_neg (by simp [hdue])]
    · rename_i hdue
      rw [filter_cons_of_pos (by simp [hdue]), map_cons, min?_cons]

theorem waitMs_none {now : UInt32} {items : List (ObItem ι)} (h : waitMs now items = none) :
    ∀ it ∈ items, obEligible it now = true := by
  rw [waitMs_eq] at h
  simpa using h

theorem waitMs_some {now w : UInt32} {items : List (ObItem ι)} (h : waitMs now items = some w) :
    (∃ it ∈ items, it.sendAfter - now = w) ∧
      ∀ it ∈ items, obEligible it now = false → w ≤ it.sendAfter - now := by
  rw [waitMs_eq, min?_eq_some_iff] at h
  obtain ⟨hmem, hle⟩ := h
  obtain ⟨it, hit, hw⟩ := mem_map.mp hmem
  refine ⟨⟨it, mem_reverse.mp (mem_filter.mp hit).1, hw⟩, fun it hit hlater => ?_⟩
  refine hle _ (mem_map.mpr ⟨it, mem_filter.mpr ⟨mem_reverse.mpr hit, ?_⟩, rfl⟩)
  rw [hlater]
  rfl

/-- The worker sleeps for good only on an empty queue. -/
theorem nil_of_idle {order : Order} {now : UInt32} {items : List (ObItem ι)}
    (hpick : pickNext order now items = none) (hwait : waitMs now items = none) : items = [] := by
  cases items with
  | nil => rfl
  | cons it rest =>
    have hnot := best_none hpick it mem_cons_self
    rw [waitMs_none hwait it mem_cons_self] at hnot
    cases hnot

theorem pickNext_due (order : Order) {items : List (ObItem ι)} {it : ObItem ι} (h : it ∈ items) :
    ∃ i found, pickNext order it.sendAfter items = some (i, found) := by
  cases hp : pickNext order it.sendAfter items with
  | some r => exact ⟨r.1, r.2, rfl⟩
  | none =>
    have hnot := best_none hp it h
    have hdue : obEligible it it.sendAfter = true := by
      rw [obEligible, UInt32.sub_self, Bool.or_eq_true_iff]
      exact .inr (by decide)
    rw [hdue] at hnot
    cases hnot

/-! ### The picker -/

/-- A frame is due at a time, where `due` gives the deadlines on a clock that does not wrap. -/
def ObItem.Due (due : ObItem ι → Nat) (it : ObItem ι) (ms : Nat) : Prop :=
  it.sendAfter = 0 ∨ due it ≤ ms

/-- The stored deadline is the low half of one less than 2^31 ms ago or at most 2^31 ms ahead. -/
def ObItem.Near (due : ObItem ι → Nat) (ms : Nat) (it : ObItem ι) : Prop :=
  it.sendAfter ≠ 0 →
    it.sendAfter = ofNat (due it) ∧ due it ≤ ms + 2 ^ 31 ∧ ms < due it + 2 ^ 31

section
variable {due : ObItem ι → Nat} {ms : Nat} {it : ObItem ι}

theorem eligible_iff (h : it.Near due ms) :
    obEligible it (ofNat ms) = true ↔ it.Due due ms := by
  rw [obEligible, Bool.or_eq_true_iff, beq_iff_eq, decide_eq_true_iff]
  refine or_congr_right' fun h0 => ?_
  obtain ⟨hs, hahead, hpast⟩ := h h0
  rw [hs, lt_iff_toNat_lt, UInt32.toNat_sub, toNat_ofNat', toNat_ofNat']
  change _ < 2147483648 ↔ _
  omega

/-- What is left until a frame comes due. -/
theorem toNat_left (h : it.Near due ms) (hlater : obEligible it (ofNat ms) = false) :
    (it.sendAfter - ofNat ms).toNat = due it - ms ∧ it.sendAfter ≠ 0 := by
  have hnot : ¬ it.Due due ms := by
    rw [← eligible_iff h, hlater]
    exact Bool.false_ne_true
  rw [ObItem.Due, not_or] at hnot
  obtain ⟨hs, hahead, hpast⟩ := h hnot.1
  refine ⟨?_, hnot.1⟩
  rw [hs, UInt32.toNat_sub, toNat_ofNat', toNat_ofNat']
  omega

end

theorem pickNext_first {order : Order} {now : UInt32} {items : List (ObItem ι)} {i j : Nat}
    {it b : ObItem ι} (h : pickNext order now items = some (i, it)) (hj : items[j]? = some b)
    (hok : obEligible b now = true) :
    (order = .fifo → i ≤ j) ∧
      (order = .priority → b.tier ≤ it.tier ∧ (b.tier = it.tier → i ≤ j)) := by
  cases order with
  | fifo =>
    have hfirst := best_first (fun _ => 0) (l := items) h j b hj hok
    exact ⟨fun _ => hfirst.2 rfl, nofun⟩
  | priority => exact ⟨nofun, fun _ => best_first ObItem.tier h j b hj hok⟩

/-- **The picker is exact across the wrap of the clock.** It finds nothing only when no frame is
due, and else the oldest due frame, or the oldest of the highest tier; and the wait is the least
after which a frame is due. -/
theorem picker_exact (order : Order) (ms : Nat) (items : List (ObItem ι)) (due : ObItem ι → Nat)
    (hnear : ∀ it ∈ items, it.Near due ms) :
    let picked := pickNext order (ofNat ms) items
    (picked = none ↔ ∀ it ∈ items, ¬ it.Due due ms) ∧
    (∀ i it, picked = some (i, it) → items[i]? = some it ∧ it.Due due ms ∧
      ∀ j b, items[j]? = some b → b.Due due ms →
        (order = .fifo → i ≤ j) ∧
        (order = .priority → b.tier ≤ it.tier ∧ (b.tier = it.tier → i ≤ j))) ∧
    (picked = none → items ≠ [] → ∃ w, waitMs (ofNat ms) items = some w ∧
      IsLeast {n | ∃ it ∈ items, it.Due due (ms + n)} w.toNat) := by
  intro picked
  have hdue (it : ObItem ι) (hit : it ∈ items) := eligible_iff (hnear it hit)
  refine ⟨⟨fun h it hit => ?_, fun h => ?_⟩, fun i it h => ?_, fun h hne => ?_⟩
  · rw [← hdue it hit, best_none h it hit]
    exact Bool.false_ne_true
  · cases hp : picked with
    | none => rfl
    | some r =>
      obtain ⟨hr, hok⟩ := best_found hp
      exact absurd ((hdue _ (mem_of_getElem? hr)).mp hok) (h _ (mem_of_getElem? hr))
  · obtain ⟨hi, hok⟩ := best_found h
    refine ⟨hi, (hdue it (mem_of_getElem? hi)).mp hok, fun j b hj hb => ?_⟩
    exact pickNext_first h hj ((hdue b (mem_of_getElem? hj)).mpr hb)
  · have hlater := best_none h
    cases hw : waitMs (ofNat ms) items with
    | none => exact absurd (nil_of_idle h hw) hne
    | some w =>
      obtain ⟨⟨it, hit, rfl⟩, hleast⟩ := waitMs_some hw
      refine ⟨_, rfl, ⟨it, hit, .inr ?_⟩, ?_⟩
      · rw [(toNat_left (hnear it hit) (hlater it hit)).1]
        omega
      · rintro n ⟨b, hb, hdue⟩
        obtain ⟨hleft, h0⟩ := toNat_left (hnear b hb) (hlater b hb)
        have hle := hleast b hb (hlater b hb)
        rw [le_iff_toNat_le] at hle
        have hat : due b ≤ ms + n := hdue.resolve_left h0
        omega

/-- A frame of tier 1 whose deadline is on the other side of the wrap. -/
def frameDue (sendAfter : UInt32) : ObItem Unit := ⟨[], 1, sendAfter, false, 0, 0, 0, none, 0⟩

/-- Half a second before the wrap, and a frame that is due a quarter of a second after it. -/
theorem picker_exact_at_wrap :
    waitMs (ofNat 0xFFFFFE0C) [frameDue 250] = some 750 ∧
      ∃ w, waitMs (ofNat 0xFFFFFE0C) [frameDue 250] = some w ∧
        IsLeast {n | ∃ it ∈ [frameDue 250], it.Due (fun _ => 0x1000000FA) (0xFFFFFE0C + n)}
          w.toNat := by
  have hnear : ∀ it ∈ [frameDue 250], it.Near (fun _ => 0x1000000FA) 0xFFFFFE0C := by
    intro it hit _
    rw [mem_singleton.mp hit]
    decide +kernel
  exact ⟨by decide +kernel, (picker_exact .fifo 0xFFFFFE0C [frameDue 250] _ hnear).2.2
    (by decide +kernel) (by simp)⟩

/-- `evict_victim_locked`: a frame nobody waits for, of the lowest tier, the newest of it. -/
def evictVictim (items : List (ObItem ι)) : Option (Nat × ObItem ι) :=
  bestFrom (fun it => it.done.isNone) (fun it best => decide (it.tier ≤ best.tier)) items 0 none

/-- The frames `meshtastic_outbound_cancel` leaves and those it removes. -/
def cancelLocked (src id : UInt32) (items : List (ObItem ι)) : List (ObItem ι) × List (ObItem ι) :=
  (items.filter fun it => !it.copyOf src id, items.filter fun it => it.copyOf src id)

/-- `meshtastic_outbound_defer_late`, on one frame. -/
def deferLate (src id now delayMs : UInt32) (it : ObItem ι) : ObItem ι :=
  if it.copyOf src id && !it.late then { it with sendAfter := deadline now delayMs, late := true }
  else it

variable (src id : UInt32)

@[simp] theorem deferLate_ticket (now delayMs : UInt32) (it : ObItem ι) :
    (deferLate src id now delayMs it).ticket = it.ticket := by
  unfold deferLate
  split <;> rfl

@[simp] theorem deferLate_wire (now delayMs : UInt32) (it : ObItem ι) :
    (deferLate src id now delayMs it).wire = it.wire := by
  unfold deferLate
  split <;> rfl

section
variable {α : Type} {a : α} {i : Nat} {l : List α} (h : l[i]? = some a)
include h

theorem perm_eraseIdx : (a :: l.eraseIdx i).Perm l := by
  obtain ⟨hi, rfl⟩ := List.getElem?_eq_some_iff.mp h
  exact getElem_cons_eraseIdx_perm hi

theorem length_eraseIdx_succ : (l.eraseIdx i).length + 1 = l.length := by
  have hp := (perm_eraseIdx h).length_eq
  simpa using hp

end

theorem cancelLocked_perm (items : List (ObItem ι)) :
    ((cancelLocked src id items).2 ++ (cancelLocked src id items).1).Perm items :=
  filter_append_perm _ items

end

end Zephyrtastic.Outbound
