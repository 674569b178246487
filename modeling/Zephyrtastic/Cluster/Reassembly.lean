import Zephyrtastic.Cluster.State
import Zephyrtastic.Lib.Run

/-!
# Entry reassembly

An entry larger than one frame arrives as several fragments through a single
slot. The slot only ever grows at the offset it expects, so a completed payload
is the in-order concatenation of fragments of one entry from one sender.
-/

namespace Zephyrtastic.Cluster

open List State

section Slot
variable {nd : Node}
variable (c : State nd)

/-- `memcpy(buf + off, bytes, len)`. -/
def splice (buf : List UInt8) (off : Nat) (bytes : List UInt8) : List UInt8 :=
  buf.take off ++ bytes ++ buf.drop (off + bytes.length)

/-- Give up on a slot past its deadline. -/
def State.asmExpire (now : Nat) : State nd :=
  if c.asmRx.active && now > c.asmRx.deadlineMs then
    { c with
      asmRx := { c.asmRx with active := false }
      stats := c.stats.add .fragTimedOut 1 }
  else c

/-- Everything that identifies the entry must agree. -/
def AsmRx.matches (slot : AsmRx) (sender : UInt32) (key : Key) (stamp : Stamp)
    (tombstone : Bool) (total : Nat) : Bool :=
  slot.active && decide (slot.sender = sender) && decide (slot.key.cmp key = 0) &&
    decide (slot.stamp.compare stamp = 0) && decide (slot.tombstone = tombstone) &&
    decide (slot.total = total)

/-- Restart the slot for another entry. -/
def State.asmStart (sender : UInt32) (key : Key) (stamp : Stamp)
    (tombstone : Bool) (total : Nat) : State nd :=
  { c with
    stats := if c.asmRx.active then
        c.stats.add .fragDisplaced 1 else c.stats
    asmRx := { c.asmRx with active := true, sender, key, stamp, tombstone, total, got := 0 } }

/-- Go on with the entry in the slot, or restart it. -/
def State.asmSelect (isMatch : Bool) (sender : UInt32) (key : Key) (stamp : Stamp)
    (tombstone : Bool) (total : Nat) : State nd :=
  if isMatch then c else c.asmStart sender key stamp tombstone total

def AsmRx.append (slot : AsmRx) (off : Nat) (bytes : List UInt8) (deadlineMs : Nat) : AsmRx :=
  { slot with
    buf := splice slot.buf off bytes
    got := (off + bytes.length) % 65536
    deadlineMs }

/-- Take the expected fragment in; the last one releases the slot. -/
def State.asmAppend (off : Nat) (bytes : List UInt8) (deadlineMs total : Nat) :
    Option (List UInt8) × State nd :=
  let slot := c.asmRx.append off bytes deadlineMs
  if slot.got < total then
    (none, { c with
      asmRx := slot
      stats := c.stats.add .fragRx 1 })
  else
    (some (slot.buf.take total), { c with
      asmRx := { slot with active := false }
      stats := c.stats.add .fragAssembled 1 })

/-- Turn one received fragment into a whole entry payload, when it completes one. -/
def State.reassembleEntry (env : Env) (sender : UInt32) (e : EntryPb) (key : Key)
    (stamp : Stamp) : Option (List UInt8) × State nd :=
  let fit := fragFits e.payloadTotal.toNat e.fragOffset.toNat e.payload.length payloadMax fragMax
  if !fit.2 then (none, c.refuseEntry)
  else
    -- only now narrowed to the 16-bit bookkeeping
    let total := fit.1 % 65536
    let off := e.fragOffset.toNat % 65536
    if off = 0 ∧ e.payload.length % 65536 = total then (some e.payload, c)
    else
      let c := c.asmExpire env.uptimeMs
      let isMatch := c.asmRx.matches sender key stamp e.tombstone total
      if !isMatch && off ≠ 0 then
        (none, c.count .fragOutOfOrder)
      else
        let c := c.asmSelect isMatch sender key stamp e.tombstone total
        if off ≠ c.asmRx.got then
          (none, c.count .fragOutOfOrder)
        else
          c.asmAppend off e.payload (env.uptimeMs + nd.fragTimeoutSec * 1000) total

end Slot

theorem length_splice {buf bytes : List UInt8} {off : Nat} (h : off + bytes.length ≤ buf.length) :
    (splice buf off bytes).length = buf.length := by
  simp only [splice, length_append, length_take, length_drop]
  omega

theorem take_splice {buf bytes : List UInt8} {off : Nat} (h : off ≤ buf.length) :
    (splice buf off bytes).take (off + bytes.length) = buf.take off ++ bytes := by
  have hl : (buf.take off ++ bytes).length = off + bytes.length := by
    simp only [length_append, length_take]
    omega
  rw [← hl]
  exact take_left

/-- One fragment as `reassemble_entry` is called with it. -/
structure Fragment where
  env : Env
  sender : UInt32
  e : EntryPb
  key : Key
  stamp : Stamp

open Fragment

variable {f : Fragment} {slot : AsmRx}

namespace Fragment

def off (f : Fragment) : Nat := f.e.fragOffset.toNat

/-- The total the fragment claims; zero stands for its own length. -/
def total (f : Fragment) : Nat :=
  if f.e.payloadTotal.toNat = 0 then f.e.payload.length else f.e.payloadTotal.toNat

/-- Two fragments of one entry from one sender. -/
def SameEntry (f g : Fragment) : Prop :=
  f.sender = g.sender ∧ f.key = g.key ∧ f.stamp = g.stamp ∧
    f.e.tombstone = g.e.tombstone ∧ f.total = g.total

/-- Each fragment starts where the one before it ended. -/
def Chain : Nat → List Fragment → Prop
  | _, [] => True
  | start, f :: fs => f.off = start ∧ Chain (start + f.e.payload.length) fs

def bytes (fs : List Fragment) : List UInt8 := fs.flatMap fun f => f.e.payload

theorem Chain.append {fs : List Fragment} {start : Nat} (h : Chain start fs)
    (hf : f.off = start + (bytes fs).length) : Chain start (fs ++ [f]) := by
  induction fs generalizing start with
  | nil => exact ⟨by simpa [bytes] using hf, trivial⟩
  | cons g fs ih =>
    refine ⟨h.1, ih h.2 ?_⟩
    rw [hf, bytes, flatMap_cons, length_append, bytes]
    omega

end Fragment

/-- The slot is collecting the entry the fragment belongs to. -/
def AsmRx.Collects (slot : AsmRx) (f : Fragment) : Prop :=
  slot.sender = f.sender ∧ slot.key = f.key ∧ slot.stamp = f.stamp ∧
    slot.tombstone = f.e.tombstone ∧ slot.total = f.total

theorem AsmRx.matches_iff {total : Nat} (ht : total = f.total) :
    slot.matches f.sender f.key f.stamp f.e.tombstone total = true ↔
      slot.active = true ∧ slot.Collects f := by
  simp [AsmRx.matches, Collects, Key.cmp_eq_zero_iff, Stamp.compare_eq_zero_iff, ht, and_assoc]

/-- **What one fragment can do to the slot.** Either the slot is at most given
up, and then only a fragment that is a whole entry reports a payload; or the
fragment is appended at the offset the slot expects. -/
inductive AsmStep (nd : Node) (slot : AsmRx) (f : Fragment) : Option (List UInt8) → AsmRx → Prop
  | keep (active : Bool) (h : active = true → slot.active = true) :
      AsmStep nd slot f none { slot with active }
  | whole (h0 : f.off = 0) (hl : f.e.payload.length = f.total) (hm : f.total ≤ payloadMax) :
      AsmStep nd slot f (some f.e.payload) slot
  | grow (start next : AsmRx) (hs : start = slot ∧ slot.active = true ∨
        start.got = 0 ∧ start.buf = slot.buf) (hc : start.Collects f) (ho : f.off = start.got)
      (hfit : f.off + f.e.payload.length ≤ f.total) (hm : f.total ≤ payloadMax)
      (hn : next = start.append f.off f.e.payload (f.env.uptimeMs + nd.fragTimeoutSec * 1000))
      (hpart : next.got < f.total) : AsmStep nd slot f none next
  | complete (start next : AsmRx) (hs : start = slot ∧ slot.active = true ∨
        start.got = 0 ∧ start.buf = slot.buf) (hc : start.Collects f) (ho : f.off = start.got)
      (hfit : f.off + f.e.payload.length ≤ f.total) (hm : f.total ≤ payloadMax)
      (hn : next = start.append f.off f.e.payload (f.env.uptimeMs + nd.fragTimeoutSec * 1000))
      (hfull : f.total ≤ next.got) :
      AsmStep nd slot f (some (next.buf.take f.total)) { next with active := false }

section Step
variable {nd : Node}

theorem asmExpire_asmRx (c : State nd) (now : Nat) : ∃ active,
    (active = true → c.asmRx.active = true) ∧
      (c.asmExpire now).asmRx = { c.asmRx with active } := by
  unfold asmExpire
  split
  · exact ⟨false, nofun, rfl⟩
  · exact ⟨c.asmRx.active, id, rfl⟩

theorem asmAppend_step {c : State nd}
    (hs : c.asmRx = slot ∧ slot.active = true ∨ c.asmRx.got = 0 ∧ c.asmRx.buf = slot.buf)
    (hc : c.asmRx.Collects f) (ho : f.off = c.asmRx.got)
    (hfit : f.off + f.e.payload.length ≤ f.total) (hm : f.total ≤ payloadMax) :
    AsmStep nd slot f
      (c.asmAppend f.off f.e.payload (f.env.uptimeMs + nd.fragTimeoutSec * 1000) f.total).1
      (c.asmAppend f.off f.e.payload (f.env.uptimeMs + nd.fragTimeoutSec * 1000)
        f.total).2.asmRx := by
  simp only [asmAppend]
  split
  · rename_i hpart
    exact AsmStep.grow c.asmRx _ hs hc ho hfit hm rfl hpart
  · rename_i hfull
    exact AsmStep.complete c.asmRx _ hs hc ho hfit hm rfl (not_lt.mp hfull)

theorem reassembleEntry_step (c : State nd) (f : Fragment) :
    AsmStep nd c.asmRx f (c.reassembleEntry f.env f.sender f.e f.key f.stamp).1
      (c.reassembleEntry f.env f.sender f.e f.key f.stamp).2.asmRx := by
  obtain ⟨active, hact, hexp⟩ := asmExpire_asmRx c f.env.uptimeMs
  have hfit1 : (fragFits f.e.payloadTotal.toNat f.e.fragOffset.toNat f.e.payload.length
      payloadMax fragMax).1 = f.total := rfl
  simp only [reassembleEntry, hfit1]
  split
  · exact AsmStep.keep c.asmRx.active id
  rename_i hfits
  simp only [fragFits, Bool.not_eq_true', Bool.not_eq_false, Bool.and_eq_true,
    decide_eq_true_eq] at hfits
  obtain ⟨⟨htot, hlen⟩, hsum⟩ := hfits
  have ht : f.total ≤ payloadMax := htot
  have hs : f.off + f.e.payload.length ≤ f.total := hsum
  have hmax : payloadMax = 128 := rfl
  have ht16 : f.total % 65536 = f.total := Nat.mod_eq_of_lt (by omega)
  have ho16 : f.e.fragOffset.toNat % 65536 = f.off := Nat.mod_eq_of_lt (by omega)
  have hl16 : f.e.payload.length % 65536 = f.e.payload.length := Nat.mod_eq_of_lt (by omega)
  simp only [ht16, ho16, hl16]
  split
  · rename_i hw
    exact AsmStep.whole hw.1 hw.2 ht
  split
  · simp only [State.count, hexp]
    exact AsmStep.keep active hact
  rename_i hmid
  by_cases hm : (c.asmExpire f.env.uptimeMs).asmRx.matches f.sender f.key f.stamp
      f.e.tombstone f.total = true
  · have hmm := (AsmRx.matches_iff rfl).mp hm
    have hslot : (c.asmExpire f.env.uptimeMs).asmRx = c.asmRx := by
      rw [hexp] at hmm ⊢
      rw [show active = c.asmRx.active from hmm.1.trans (hact hmm.1).symm]
    simp only [hm, asmSelect, if_true]
    split
    · simp only [State.count, hslot]
      exact AsmStep.keep c.asmRx.active id
    rename_i ho
    refine asmAppend_step (.inl ⟨hslot, ?_⟩) hmm.2 (not_not.mp ho) hs ht
    rw [← hslot]
    exact hmm.1
  · have h0 : f.off = 0 := by simpa [hm] using hmid
    have hbuf : (c.asmExpire f.env.uptimeMs).asmRx.buf = c.asmRx.buf := by rw [hexp]
    simp only [hm, asmSelect, Bool.false_eq_true, if_false]
    split
    · rename_i ho
      exact absurd h0 ho
    · exact asmAppend_step (.inr ⟨rfl, hbuf⟩) ⟨rfl, rfl, rfl, rfl, rfl⟩ h0 hs ht

end Step

/-- What the module can do to the slot: feed it a fragment, or abandon it. -/
inductive AsmEvent where
  | fragment (f : Fragment)
  | abandon

def asmStep {nd : Node} (c : State nd) : AsmEvent → State nd
  | .fragment f => (c.reassembleEntry f.env f.sender f.e f.key f.stamp).2
  | .abandon => c.fragReset

/-- The fragments among the events, in order. -/
def received (es : List AsmEvent) : List Fragment :=
  es.filterMap fun
    | .fragment f => some f
    | .abandon => none

@[simp] theorem received_append (es es' : List AsmEvent) :
    received (es ++ es') = received es ++ received es' := by
  simp [received]

/-- The slot's bytes are those of fragments of its own entry, received in order. -/
def AsmRx.Built (slot : AsmRx) (seen : List Fragment) : Prop :=
  ∃ fs, fs.Sublist seen ∧ (∀ f ∈ fs, slot.Collects f) ∧ Fragment.Chain 0 fs ∧
    Fragment.bytes fs = slot.buf.take slot.got

/-- The invariant of the slot over the events so far. -/
structure AsmOk (es : List AsmEvent) (slot : AsmRx) : Prop where
  got_le : slot.got ≤ slot.total
  total_le : slot.total ≤ payloadMax
  buf_length : slot.buf.length = payloadMax
  built : slot.active = true → slot.Built (received es)

variable {es : List AsmEvent}

theorem AsmOk.mono {es' : List AsmEvent} (h : AsmOk es slot) (active : Bool)
    (ha : active = true → slot.active = true) :
    AsmOk (es ++ es') { slot with active } := by
  refine { h with built := fun hact => ?_ }
  obtain ⟨fs, hsub, hrest⟩ := h.built (ha hact)
  refine ⟨fs, ?_, hrest⟩
  rw [received_append]
  exact hsub.trans (sublist_append_left _ _)

theorem AsmOk.append {start : AsmRx} (h : AsmOk es slot) (deadlineMs : Nat)
    (hs : start = slot ∧ slot.active = true ∨ start.got = 0 ∧ start.buf = slot.buf)
    (hc : start.Collects f) (ho : f.off = start.got)
    (hfit : f.off + f.e.payload.length ≤ f.total) (hm : f.total ≤ payloadMax) :
    (start.append f.off f.e.payload deadlineMs).got = f.off + f.e.payload.length ∧
    (start.append f.off f.e.payload deadlineMs).buf.length = payloadMax ∧
    ∃ fs, (fs ++ [f]).Sublist (received (es ++ [.fragment f])) ∧
      (∀ g ∈ fs ++ [f], (start.append f.off f.e.payload deadlineMs).Collects g) ∧
      Chain 0 (fs ++ [f]) ∧
      bytes (fs ++ [f]) =
        (start.append f.off f.e.payload deadlineMs).buf.take (f.off + f.e.payload.length) := by
  have hmax : payloadMax = 128 := rfl
  have hbuf : start.buf.length = payloadMax := by
    rcases hs with ⟨rfl, _⟩ | ⟨_, hb⟩
    · exact h.buf_length
    · rw [hb]; exact h.buf_length
  have hold : ∃ fs, fs.Sublist (received es) ∧ (∀ g ∈ fs, start.Collects g) ∧
      Chain 0 fs ∧ bytes fs = start.buf.take start.got := by
    rcases hs with ⟨rfl, ha⟩ | ⟨hg, _⟩
    · exact h.built ha
    · exact ⟨[], nil_sublist _, by simp, trivial, by rw [hg]; rfl⟩
  obtain ⟨fs, hsub, hcol, hch, hby⟩ := hold
  have hlen : (bytes fs).length = f.off := by
    rw [hby, length_take]
    omega
  have hin : f.off + f.e.payload.length ≤ start.buf.length := by omega
  refine ⟨Nat.mod_eq_of_lt (by omega), (length_splice hin).trans hbuf, fs, ?_, ?_, ?_, ?_⟩
  · rw [received_append]
    exact hsub.append (List.Sublist.refl [f])
  · intro g hg
    rcases mem_append.mp hg with hg | hg
    · exact hcol g hg
    · rw [mem_singleton.mp hg]
      exact hc
  · exact hch.append (by rw [hlen, Nat.zero_add])
  · have : bytes (fs ++ [f]) = bytes fs ++ f.e.payload := by
      simp [bytes]
    have hoff : f.off ≤ start.buf.length := by omega
    rw [this, hby, ← ho, AsmRx.append, take_splice hoff]

theorem asmStep_ok {nd : Node} {c : State nd} (h : AsmOk es c.asmRx)
    (e : AsmEvent) : AsmOk (es ++ [e]) (asmStep c e).asmRx := by
  cases e with
  | abandon => exact h.mono false nofun
  | fragment f =>
    have hstep := reassembleEntry_step c f
    change AsmOk _ (c.reassembleEntry f.env f.sender f.e f.key f.stamp).2.asmRx
    generalize (c.reassembleEntry f.env f.sender f.e f.key f.stamp).2.asmRx = slot' at hstep ⊢
    generalize (c.reassembleEntry f.env f.sender f.e f.key f.stamp).1 = r at hstep
    cases hstep with
    | keep active ha => exact h.mono active ha
    | whole => exact h.mono c.asmRx.active id
    | grow start _ hs hc ho hfit hm hn hpart =>
      subst hn
      obtain ⟨hg, hb, fs, hsub, hcol, hch, hby⟩ := h.append _ hs hc ho hfit hm
      refine ⟨?_, hc.2.2.2.2.trans_le hm, hb, fun _ => ⟨_, hsub, hcol, hch, by rw [hby, hg]⟩⟩
      rw [hg]
      exact hfit.trans_eq hc.2.2.2.2.symm
    | complete start next hs hc ho hfit hm hn hfull =>
      subst hn
      obtain ⟨hg, hb, -⟩ :=
        h.append (f.env.uptimeMs + nd.fragTimeoutSec * 1000) hs hc ho hfit hm
      refine ⟨?_, hc.2.2.2.2.trans_le hm, hb, nofun⟩
      rw [hg]
      exact hfit.trans_eq hc.2.2.2.2.symm

theorem asmRx_ok {nd : Node} (env : Env) (es : List AsmEvent) :
    AsmOk es (Run.run asmStep (State.init nd env) es).asmRx :=
  Run.run_invariant (fun es (c : State nd) => AsmOk es c.asmRx)
    ⟨Nat.le_refl _, Nat.zero_le _, length_replicate, fun h => absurd h Bool.false_ne_true⟩
    (fun _ e h _ => asmStep_ok h e) es Run.guarded_true

theorem AsmRx.Collects.sameEntry {g : Fragment} (hf : slot.Collects f)
    (hg : slot.Collects g) : g.SameEntry f :=
  ⟨hg.1.symm.trans hf.1, hg.2.1.symm.trans hf.2.1, hg.2.2.1.symm.trans hf.2.2.1,
    hg.2.2.2.1.symm.trans hf.2.2.2.1, hg.2.2.2.2.symm.trans hf.2.2.2.2⟩

/-- **Reassembly never splices two entries.** After any events the slot stays
inside its buffer, and a payload that the next fragment completes is the in-order
concatenation of fragments of one entry from one sender, from offset zero to the
total they all claim. -/
theorem reassembly_never_splices (nd : Node) (env : Env) (es : List AsmEvent) :
    (Run.run asmStep (State.init nd env) es).asmRx.got ≤
      (Run.run asmStep (State.init nd env) es).asmRx.total ∧
    (Run.run asmStep (State.init nd env) es).asmRx.total ≤ payloadMax ∧
    (Run.run asmStep (State.init nd env) es).asmRx.buf.length = payloadMax ∧
    ∀ f payload, ((Run.run asmStep (State.init nd env) es).reassembleEntry
        f.env f.sender f.e f.key f.stamp).1 = some payload →
      ∃ fs, (fs ++ [f]).Sublist (received es ++ [f]) ∧ (∀ g ∈ fs ++ [f], g.SameEntry f) ∧
        Fragment.Chain 0 (fs ++ [f]) ∧ payload = Fragment.bytes (fs ++ [f]) ∧
        payload.length = f.total := by
  have hok : AsmOk es (Run.run asmStep (init nd env) es).asmRx := asmRx_ok env es
  generalize Run.run asmStep (init nd env) es = c at hok ⊢
  refine ⟨hok.got_le, hok.total_le, hok.buf_length, fun f payload hp => ?_⟩
  have hstep := reassembleEntry_step c f
  rw [hp] at hstep
  generalize (c.reassembleEntry f.env f.sender f.e f.key f.stamp).2.asmRx = slot' at hstep
  cases hstep with
  | whole h0 hl hm =>
    refine ⟨[], ?_, ?_, ⟨h0, trivial⟩, by simp [bytes], hl⟩
    · exact sublist_append_right _ _
    · intro g hg
      rw [mem_singleton.mp hg]
      exact ⟨rfl, rfl, rfl, rfl, rfl⟩
  | complete start next hs hc ho hfit hm hn hfull =>
    subst hn
    obtain ⟨hg, hb, fs, hsub, hcol, hch, hby⟩ := hok.append _ hs hc ho hfit hm
    have hend : f.off + f.e.payload.length = f.total := by
      rw [hg] at hfull
      omega
    rw [hend] at hby
    refine ⟨fs, by simpa [received] using hsub, fun g hgm => ?_, hch, hby.symm, ?_⟩
    · exact AsmRx.Collects.sameEntry hc (hcol g hgm)
    · rw [length_take]
      omega

end Zephyrtastic.Cluster
