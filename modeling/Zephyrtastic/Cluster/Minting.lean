import Zephyrtastic.Cluster.Module
import Zephyrtastic.Hlc.Causality

/-!
# Minted stamps

A local write has to win over everything in the document, so the module's clock
must have passed every stored stamp. The clock follows what it observes only up
to the drift window, and the flash loader stores records without asking whether
they lie inside it.
-/

namespace Zephyrtastic

open Int64 List

namespace Hlc

/-- At most `n` steps of the counter past the times anyone has claimed. -/
def Within (h : Hlc) (n : Nat) : Prop := h.physicalMs.toInt ≤ 2 ^ 62 + n

variable {n : Nat} {h : Hlc}

theorem Within.ne_full (hw : h.Within n) (hn : n < 2 ^ 61) : h ≠ full := by
  rintro rfl
  have hf : full.physicalMs.toInt = 2 ^ 63 - 1 := toInt_maxValue
  simp only [Within, hf] at hw
  omega

theorem bumpCounter_within {p : Int64} {c : UInt32} (hp : p.toInt ≤ 2 ^ 62 + n)
    (hn : n < 2 ^ 61) : (bumpCounter p c).Within (n + 1) := by
  have hmax : p ≠ maxValue := by
    rintro rfl
    rw [toInt_maxValue] at hp
    omega
  unfold Within bumpCounter
  split
  · simp only [toInt_add_one hmax]
    omega
  · simp only
    omega

variable {now : Int64}

theorem wall_toInt_lt (h : now.toInt < 2 ^ 62) : (wall now).toInt < 2 ^ 62 := by
  unfold wall
  split
  · decide
  · exact h

theorem advance_within (hw : h.Within n) (hn : n < 2 ^ 61) {p : Int64}
    (c : UInt32) (hp : p.toInt < 2 ^ 62) (hnow : now.toInt < 2 ^ 62) :
    (h.advance p c now).Within (n + 1) := by
  have hmax : (max64 h.physicalMs (max64 p now)).toInt ≤ 2 ^ 62 + n := by
    unfold Within at hw
    rw [max64_toInt, max64_toInt]
    omega
  simp only [advance]
  split
  · exact bumpCounter_within hmax hn
  split
  · exact bumpCounter_within hmax hn
  split
  · exact bumpCounter_within hmax hn
  · unfold Within
    simp only
    omega

section
variable {remote : Stamp} (hw : h.Within n) (hn : n < 2 ^ 61)
  (hr : remote.physicalMs.toInt < 2 ^ 62) (hnow : now.toInt < 2 ^ 62)
include hw hn hr hnow

theorem observeAt_within : (h.observeAt remote now).2.Within (n + 1) := by
  have hwall := wall_toInt_lt hnow
  simp only [observeAt]
  split
  · exact advance_within hw hn _ hwall hwall
  · exact advance_within hw hn _ hr hwall

theorem observeAt_gt : Causal h (.observeAt remote now) := by
  apply observeAt_causal
  rintro (hf | ⟨hf, _⟩ | ⟨_, hf, _⟩)
  · exact hw.ne_full hn hf
  · have hp : remote.physicalMs = maxValue := congrArg physicalMs hf
    rw [hp, toInt_maxValue] at hr
    omega
  · rw [hf, toInt_maxValue] at hnow
    omega

end

theorem localAt_clock (h : Hlc) (nodeId : UInt32) (now : Int64) :
    (h.localAt nodeId now).2.clock = (h.localAt nodeId now).1 := by
  simp only [localAt, Stamp.clock]

theorem localAt_gt (hw : h.Within n) (hn : n < 2 ^ 61) (nodeId : UInt32)
    (now : Int64) : h < (h.localAt nodeId now).1 :=
  (localAt_causal_iff h nodeId now).mpr (hw.ne_full hn)

end Hlc

/-- A time that leaves room for the counter to spill. -/
def Stamp.Early (stamp : Stamp) : Prop := stamp.physicalMs.toInt < 2 ^ 62

instance (stamp : Stamp) : Decidable stamp.Early :=
  inferInstanceAs (Decidable (stamp.physicalMs.toInt < 2 ^ 62))

namespace Cluster

open Run

def Env.Early (env : Env) : Prop := env.epochMs.toInt < 2 ^ 62 ∧ env.observeMs.toInt < 2 ^ 62

instance (env : Env) : Decidable env.Early :=
  inferInstanceAs (Decidable (env.epochMs.toInt < 2 ^ 62 ∧ env.observeMs.toInt < 2 ^ 62))

/-- The surroundings when the clock is read for an observation. -/
def Env.observing (env : Env) : Env := { env with epochMs := env.observeMs }

/-- The stamps of a message are early, and a vector is no longer than the wire
allows. -/
def Message.Early : Message → Prop
  | .digest d => d.maxStamp.Early
  | .vector v => v.entries.length ≤ vectorRows ∧
      ∀ row ∈ v.entries, ∀ stamp, row.stamp = some stamp → stamp.Early
  | .entry e => ∀ stamp, e.stamp = some stamp → stamp.Early
  | _ => True

/-- Every time the event carries is early. -/
def Event.Early : Event → Prop
  | .receive env frame => env.Early ∧ ∀ msg, frame.msg = some msg → msg.Early
  | .settings env (.entry _ stamp _ _) => env.Early ∧ stamp.Early
  | .settings _ (.scope _ _) => True
  | .promote env _ snapshot => env.Early ∧
      ∀ payload stamp, snapshot = .ok (payload, stamp) → stamp.Early
  | .pin env _ snapshot => env.Early ∧
      ∀ payload stamp, snapshot = .ok (payload, stamp) → stamp.Early
  | .unpin env _ storeStamp => env.Early ∧ ∀ stamp, storeStamp = some stamp → stamp.Early
  | .publish env _ _ _ _ => env.Early
  | _ => True

section Minting
variable {nd : Node}

/-- The clock moved only forward, and every row is an old one or behind it. -/
structure State.Follows (c c' : State nd) : Prop where
  clock : c.hlc ≤ c'.hlc
  rows : ∀ e ∈ c'.doc.rows, e ∈ c.doc.rows ∨ e.stamp.clock ≤ c'.hlc

/-- The clock is past every stored stamp. -/
def State.Ahead (c : State nd) : Prop := ∀ e ∈ c.doc.rows, e.stamp.clock ≤ c.hlc

variable {c c' : State nd}

theorem State.Follows.ahead (h : c.Follows c') (ha : c.Ahead) : c'.Ahead := by
  intro e he
  rcases h.rows e he with hold | hnew
  · exact (ha e hold).trans h.clock
  · exact hnew

theorem State.follows_of_subset (hc : c.hlc ≤ c'.hlc)
    (hr : ∀ e ∈ c'.doc.rows, e ∈ c.doc.rows) : c.Follows c' :=
  ⟨hc, fun e he => .inl (hr e he)⟩

theorem State.SameTables.follows (h : c.SameTables c') (hc : c.hlc ≤ c'.hlc) : c.Follows c' :=
  follows_of_subset hc fun _ he => h.doc ▸ he

theorem State.Quiet.follows (h : c.Quiet c') : c.Follows c' := h.toSameTables.follows h.clock.ge

theorem State.Rescoped.follows {kind : ScopeKind} (h : c.Rescoped c' kind)
    (hc : c.hlc ≤ c'.hlc) : c.Follows c' := by
  refine follows_of_subset hc fun e he => ?_
  rw [h.doc] at he
  exact (mem_filter.mp he).1

theorem State.follows_refl (c : State nd) : c.Follows c :=
  (State.SameTables.refl c).follows le_rfl

variable {w : Entry}

theorem State.Stores.mem {e : Entry} (h : c.Stores c' w)
    (he : e ∈ c'.doc.rows) : e = w ∨ e ∈ c.doc.rows := by
  have hf : c'.doc.find e.key = some e := Doc.find_eq_some.mpr ⟨he, rfl⟩
  rw [h.doc, Doc.find_of_stored h.stored] at hf
  split at hf
  · exact .inl (Option.some.inj hf).symm
  · exact .inr (Doc.find_eq_some.mp hf).1

theorem State.Stores.follows (h : c.Stores c' w)
    (hc : c.hlc ≤ c'.hlc) (hw : w.stamp.clock ≤ c'.hlc) : c.Follows c' := by
  refine ⟨hc, fun e he => ?_⟩
  rcases h.mem he with rfl | hold
  · exact .inr hw
  · exact .inl hold

theorem Written.follows (h : Written c w c') (hc : c.hlc ≤ c'.hlc)
    (hw : w.stamp.clock ≤ c'.hlc) : c.Follows c' := by
  cases h with
  | same h => exact h.follows hc
  | stores h => exact h.follows hc hw
  | narrows _ _ h => exact h.follows hc
  | retries _ _ mid narrow h =>
    refine ⟨hc, fun e he => ?_⟩
    rcases h.mem he with rfl | hm
    · exact .inr hw
    · rw [narrow.doc] at hm
      exact .inl (mem_filter.mp hm).1

/-- The horizon lets through exactly the stamps an observation does not clamp. -/
theorem clamped_eq_false_iff (env : Env) (stamp : Stamp) :
    Hlc.clamped stamp (Hlc.wall env.epochMs) = false ↔ stampWithinHorizon env stamp = true := by
  by_cases hpos : env.epochMs ≤ 0
  · have hw : ¬ Hlc.wall env.epochMs > 0 := by
      unfold Hlc.wall
      split
      · decide
      · exact Int64.not_lt.mpr hpos
    simp [Hlc.clamped, stampWithinHorizon, hpos, hw]
  · have hw : Hlc.wall env.epochMs = env.epochMs := by
      unfold Hlc.wall
      rw [if_neg]
      exact fun h => hpos (Int64.le_of_lt h)
    have hgt : env.epochMs > 0 := Int64.not_le.mp hpos
    simp only [Hlc.clamped, stampWithinHorizon, hw, hgt, hpos, decide_true, Bool.true_and, if_false,
      decide_eq_false_iff_not, decide_eq_true_eq, gt_iff_lt, Int64.not_lt]

variable {env : Env} {n : Nat}

theorem observe_gt (hw : c.hlc.Within n) (hn : n < 2 ^ 61)
    {stamp : Stamp} (henv : env.Early) (hs : stamp.Early) : c.hlc < (c.observe env stamp).hlc ∧
    (stampWithinHorizon env.observing stamp = true → stamp.clock < (c.observe env stamp).hlc) := by
  obtain ⟨hlt, hpast⟩ := Hlc.observeAt_gt hw hn hs henv.2
  exact ⟨hlt, fun hh => hpast ((clamped_eq_false_iff env.observing stamp).mpr hh)⟩

theorem vectorRow_clock (hw : c.hlc.Within n) (hn : n < 2 ^ 61)
    (mine : Scope) {row : KeyStampPb} (henv : env.Early)
    (hs : ∀ stamp, row.stamp = some stamp → stamp.Early) :
    c.hlc ≤ (c.vectorRow env mine row).1.hlc ∧ (c.vectorRow env mine row).1.hlc.Within (n + 1) := by
  have hstay : c.hlc.Within (n + 1) := by
    unfold Hlc.Within at hw ⊢
    omega
  unfold State.vectorRow
  split
  · rename_i keyPb stamp _ hst
    split
    · exact ⟨le_rfl, hstay⟩
    have hgt := (observe_gt hw hn henv (hs stamp hst)).1.le
    have hin := Hlc.observeAt_within hw hn (hs stamp hst) henv.2
    simp only
    split <;> exact ⟨hgt, hin⟩
  · exact ⟨le_rfl, hstay⟩

theorem scanVector_clock (henv : env.Early) (mine : Scope) (rows : List KeyStampPb)
    (c : State nd) (noSpace : Bool) (hw : c.hlc.Within n) (hn : n + rows.length < 2 ^ 61)
    (hs : ∀ row ∈ rows, ∀ stamp, row.stamp = some stamp → stamp.Early) :
    c.hlc ≤ (State.scanVector env mine rows c noSpace).1.hlc := by
  induction rows generalizing c noSpace n with
  | nil => exact le_rfl
  | cons row rest ih =>
    simp only [State.scanVector]
    split
    · obtain ⟨hle, hw'⟩ := vectorRow_clock hw (by omega) mine henv (hs row mem_cons_self)
      have hlen : n + 1 + rest.length < 2 ^ 61 := by
        simp only [length_cons] at hn
        omega
      exact hle.trans (ih _ _ hw' hlen fun r hr => hs r (mem_cons_of_mem _ hr))
    · exact le_rfl

section
variable (c)

theorem demote_clock : c.demote.hlc = c.hlc := by
  unfold State.demote
  split
  · rfl
  · simp only [State.count, State.scopeSet]
    split <;> rfl

theorem chunkDone_clock (v : VectorPb) : (c.chunkDone v).hlc = c.hlc := by
  cases chunkDone_end c v with
  | more hd => rw [hd]
  | asks hd => rw [hd]
  | empty _ hd =>
    rw [hd]
    simp only [State.pullEmpty]
    split <;> rfl

theorem onDigest_clock (env : Env) (sender : UInt32) (d : DigestPb) :
    (c.onDigest env sender d).hlc = (c.observe env d.maxStamp).hlc := by
  have hnote : ∀ (c : State nd) r, ((c.noteBackstop sender d).peerNote env sender d r).hlc =
      c.hlc := by
    intro c r
    unfold State.peerNote State.noteBackstop
    split <;> split <;> rfl
  unfold State.onDigest
  simp only
  split
  · exact hnote _ _
  · split
    · exact hnote _ _
    · exact (pullStart_quiet _ _ _ _ _).clock.trans (hnote _ _)

theorem acceptOrDemote_clock (w : Entry) : (c.acceptOrDemote w).2.hlc = c.hlc := by
  unfold State.acceptOrDemote
  split
  · exact demote_clock c
  · rfl

theorem docWriteLocal_clock (env : Env) (key : Key) (storeStamp : Stamp)
    (tombstone : Bool) (payload : List UInt8) :
    (c.docWriteLocal env key storeStamp tombstone payload).2.hlc =
      (c.mint env storeStamp).2.hlc := by
  have hs := (signEntry_quiet (c.mint env storeStamp).2 env key (c.mint env storeStamp).1 tombstone
    payload).clock
  rcases docWriteLocal_steps c env key storeStamp tombstone payload with ⟨-, hr⟩ | ⟨-, -, hr⟩ <;>
    rw [hr]
  · exact (pushEnqueue_quiet _ _ _).clock.trans ((acceptOrDemote_clock _ _).trans hs)
  · exact (acceptOrDemote_clock _ _).trans hs

end

/-- The stamp lies inside the horizon of the moment it is observed, or behind the clock. -/
def State.Catches (c : State nd) (env : Env) (stamp : Stamp) : Prop :=
  stampWithinHorizon env.observing stamp = true ∨ stamp.clock ≤ c.hlc

/-- The clock follows a record the claim takes in, and an entry that has passed the horizon of the
earlier reading. -/
def State.TakesWithin (c : State nd) : Event → Prop
  | .settings env (.entry key stamp _ _) => c.myScope.contains key = true → c.Catches env stamp
  | .receive env frame => ∀ e stamp, frame.msg = some (.entry e) → e.stamp = some stamp →
      stampWithinHorizon env stamp = true → c.Catches env stamp
  | _ => True

section
variable (hw : c.hlc.Within 0) (henv : env.Early)
include hw henv

theorem observe_catches {stamp : Stamp} (hs : stamp.Early) (h : c.Catches env stamp) :
    stamp.clock ≤ (c.observe env stamp).hlc := by
  obtain ⟨hgt, hpast⟩ := observe_gt hw (by decide) henv hs
  rcases h with hh | hle
  · exact (hpast hh).le
  · exact hle.trans hgt.le

theorem onVector_clock (sender : UInt32) {v : VectorPb} (hv : (Message.vector v).Early) :
    c.hlc ≤ (c.onVector env sender v).hlc := by
  have hlen : 0 + v.entries.length < 2 ^ 61 := by
    have := hv.1
    simp only [vectorRows] at this
    omega
  have hscan := scanVector_clock henv c.myScope v.entries (c.count .vectorRx) false hw hlen hv.2
  unfold State.onVector
  split
  · split <;> exact le_rfl
  simp only
  split
  · simp only [State.pullReset, demote_clock]
    exact hscan
  · rw [chunkDone_clock]
    exact hscan

theorem onEntry_follows (sender : UInt32) {e : EntryPb} (he : (Message.entry e).Early)
    (ht : ∀ stamp, e.stamp = some stamp → stampWithinHorizon env stamp = true →
      c.Catches env stamp) : c.Follows (c.onEntry env sender e) := by
  cases onEntry_ingested c env sender e with
  | quiet hs =>
    refine hs.sameTables.follows (le_of_eq ?_)
    obtain ⟨_, _, h, _⟩ := hs
    rw [h]
  | merged c' w hs hg hd heq =>
    have hhlc : c'.hlc = c.hlc := by
      obtain ⟨_, _, rfl, _⟩ := hs
      rfl
    have hw' : c'.hlc.Within 0 := hhlc ▸ hw
    have hgt := (observe_gt hw' (by decide) henv (he w.stamp hd.2.1)).1
    have hpast : w.stamp.clock ≤ (c'.observe env w.stamp).hlc := by
      refine observe_catches hw' henv (he w.stamp hd.2.1) ?_
      exact (ht w.stamp hd.2.1 hg.horizon).imp_right fun h => hhlc ▸ h
    rw [hhlc] at hgt
    rw [heq]
    cases mergeEntry_merged c' env w with
    | stored hst hm =>
      have hdoc : c'.Stores (c'.mergeEntry env w) w := by
        rw [hm]
        exact ⟨hst, rfl, rfl, rfl⟩
      refine (State.Stores.of_same hs.sameTables hdoc).follows ?_ ?_ <;> rw [hm]
      · exact hgt.le
      · exact hpast
    | refused _ hm =>
      have hsame := (hs.sameTables.trans (c'.sameTables_observe env w.stamp)).trans hm.sameTables
      refine hsame.follows ?_
      obtain ⟨_, _, h, _⟩ := hm
      rw [h]
      exact hgt.le

theorem onMessage_follows (sender : UInt32) {msg : Message} (hmsg : msg.Early)
    (ht : ∀ e stamp, msg = .entry e → e.stamp = some stamp → stampWithinHorizon env stamp = true →
      c.Catches env stamp) : c.Follows (c.onMessage env sender msg) := by
  cases msg with
  | digest d =>
    refine State.follows_of_subset ?_ fun e he => (onDigest_tables c env sender d).doc ▸ he
    exact (observe_gt hw (by decide) henv hmsg).1.le.trans_eq (onDigest_clock c env sender d).symm
  | vectorReq scope => exact (onVectorReq_onlyQueues c env sender scope).quiet.follows
  | vector v =>
    have hc := onVector_clock hw henv sender hmsg
    rcases onVector_tables c env sender v with hs | ⟨_, _, hr⟩
    · exact hs.follows hc
    · exact hr.follows hc
  | entryReq keys => exact (onEntryReq_onlyQueues c env sender keys).quiet.follows
  | entry e => exact onEntry_follows hw henv sender hmsg fun stamp => ht e stamp rfl
  | other => exact (c.sameTables_count _).follows le_rfl

theorem mint_clock {storeStamp : Stamp} (hs : storeStamp.Early) :
    c.hlc < (c.mint env storeStamp).1.clock ∧
      (c.mint env storeStamp).1.clock = (c.mint env storeStamp).2.hlc := by
  have hobs := (observe_gt hw (by decide) henv hs).1
  have hin : (c.observe env storeStamp).hlc.Within 1 :=
    Hlc.observeAt_within hw (by decide) hs henv.2
  unfold State.mint
  -- the observed clock as a name, or the unifier unfolds both sides of it
  generalize (c.observe env storeStamp) = o at hobs hin
  have hclock := Hlc.localAt_clock o.hlc nd.me env.epochMs
  refine ⟨?_, hclock⟩
  rw [hclock]
  exact hobs.trans (Hlc.localAt_gt hin (by decide) nd.me env.epochMs)

theorem docWriteLocal_follows (key : Key) {storeStamp : Stamp} (hs : storeStamp.Early)
    (tombstone : Bool) (payload : List UInt8) :
    c.Follows (c.docWriteLocal env key storeStamp tombstone payload).2 := by
  obtain ⟨hlt, hclock⟩ := mint_clock hw henv hs
  obtain ⟨sig, hwr⟩ := docWriteLocal_written c env key storeStamp tombstone payload
  refine hwr.follows ?_ ?_ <;> rw [docWriteLocal_clock, ← hclock]
  exact hlt.le

theorem lift_follows (key : Key) {snapshot : Except Errno (List UInt8 × Stamp)}
    (hs : ∀ payload stamp, snapshot = .ok (payload, stamp) → stamp.Early) :
    c.Follows (c.lift env key snapshot).2 := by
  unfold State.lift
  split
  · exact c.follows_refl
  rename_i payload storeStamp
  split
  · exact c.follows_refl
  · exact docWriteLocal_follows hw henv key (hs payload storeStamp rfl) false payload

end

theorem onPacket_follows (hw : c.hlc.Within 0) {frame : Frame}
    (hev : (Event.receive env frame).Early) (ht : c.TakesWithin (.receive env frame)) :
    c.Follows (c.onPacket env frame) := by
  unfold State.onPacket
  split
  · exact (c.sameTables_count _).follows le_rfl
  split
  · exact (c.sameTables_count _).follows le_rfl
  · rename_i msg hmsg
    refine onMessage_follows hw hev.1 frame.sender (hev.2 msg hmsg) ?_
    exact fun e stamp he => ht e stamp (hmsg.trans (congrArg some he))

/-- The event carries early times only, into an early clock, and no stamp from beyond the horizon
of its observation. -/
structure State.KeepsAhead (c : State nd) (ev : Event) : Prop where
  clock : c.hlc.physicalMs.toInt < 2 ^ 62
  early : ev.Early
  takes : c.TakesWithin ev

open State

theorem within_of_early {h : Hlc} (hc : h.physicalMs.toInt < 2 ^ 62) : h.Within 0 := by
  unfold Hlc.Within
  omega

theorem loadEntry_follows (hw : c.hlc.Within 0) {key : Key}
    {stamp : Stamp} {flags : UInt8} {body : List UInt8} (henv : env.Early) (hs : stamp.Early)
    (hl : c.TakesWithin (.settings env (.entry key stamp flags body))) :
    c.Follows (c.loadEntry env key stamp flags body) := by
  have hgt := (observe_gt hw (by decide) henv hs).1
  unfold loadEntry
  split
  · exact c.follows_refl
  rename_i w hrec
  obtain ⟨rfl, rfl⟩ := recordEntry_key hrec
  split
  · exact c.follows_refl
  split
  · exact c.follows_refl
  rename_i hin
  have hpast : w.stamp.clock ≤ (c.observe env w.stamp).hlc :=
    observe_catches hw henv hs (hl (by simpa using hin))
  by_cases hst : (c.doc.acceptSigned w).1 = .stored
  · have h : c.Stores ({ c with doc := (c.doc.acceptSigned w).2 }.observe env w.stamp) w :=
      ⟨hst, rfl, rfl, rfl⟩
    exact h.follows hgt.le hpast
  · exact SameTables.follows ⟨Doc.acceptSigned_of_ne_stored hst, rfl, rfl, rfl⟩ hgt.le

theorem State.KeepsAhead.follows {ev : Event} (h : c.KeepsAhead ev) : c.Follows (c.step ev) := by
  have hw := within_of_early h.clock
  have hev := h.early
  have hput {r d : Except Errno Unit × State nd} (hr : r.2 = c ∨ r = d) (hd : c.Follows d.2) :
      c.Follows r.2 := by
    obtain hr | rfl := hr
    · rw [hr]
      exact c.follows_refl
    · exact hd
  cases ev with
  | receive env frame => exact onPacket_follows hw hev h.takes
  | settings env record =>
    cases record with
    | entry key stamp flags body => exact loadEntry_follows hw hev.1 hev.2 h.takes
    | scope kind cap =>
      change c.Follows (c.loadScope kind cap)
      rcases loadScope_cases c kind cap with hc | ⟨-, -, k, -, -, hc⟩ <;> rw [hc]
      · exact c.follows_refl
      · exact follows_of_subset le_rfl fun _ he => he
  | promote env sec snapshot => exact hput (promote_cases ..) (lift_follows hw hev.1 _ hev.2)
  | pin env sec snapshot => exact hput (pin_cases ..) (lift_follows hw hev.1 _ hev.2)
  | unpin env sec storeStamp =>
    have hs : (storeStamp.getD Stamp.unset).Early := by
      cases storeStamp with
      | none => decide
      | some stamp => exact hev.2 stamp rfl
    exact hput (unpin_cases ..) (docWriteLocal_follows hw hev.1 _ hs true [])
  | publish env sec layer nodeId payload =>
    exact hput (publish_cases ..) (docWriteLocal_follows hw hev _ (by decide) _ payload)
  | scopeSelect choice =>
    simp only [step, scopeSelect]
    split
    · exact c.follows_refl
    · refine (scopeSet_rescoped c _ _).follows (le_of_eq ?_)
      simp only [scopeSet]
      split <;> rfl
  | reset => exact follows_of_subset le_rfl fun e he => absurd he not_mem_nil
  | tx env => exact (txWork_quiet c env).follows
  | digest env sent => exact (digestWork_quiet c env sent).follows
  | pull env nodeId => exact (pull_quiet c env nodeId).follows

theorem lt_of_clock_lt {a b : Stamp} (h : a.clock < b.clock) : a < b := by
  rw [Hlc.lt_iff] at h
  rw [Stamp.lt_iff]
  exact h.imp_right fun ⟨he, hlt⟩ => ⟨he, .inl hlt⟩

/-- A write newer than every row is not stale, also after narrowing. -/
theorem acceptOrDemote_ne_stale
    (h : ∀ e ∈ c.doc.rows, e.stamp < w.stamp) : (c.acceptOrDemote w).1 ≠ .stale := by
  have haccept : ∀ d : State nd, (∀ e ∈ d.doc.rows, e ∈ c.doc.rows) →
      (d.acceptLocal w).1 ≠ .stale := by
    intro d hsub hstale
    cases d.doc.acceptSigned_outcome w with
    | invalid _ hr | noSpace _ _ _ hr => simp [acceptLocal, hr] at hstale
    | stale e he hle _ _ =>
      exact absurd (h e (hsub e (Doc.find_eq_some.mp he).1)) (not_lt.mpr hle)
    | stored _ _ _ hs _ => simp [acceptLocal, hs] at hstale
  unfold acceptOrDemote
  split
  · refine haccept _ fun e he => ?_
    obtain hd | ⟨_, hd⟩ := demote_cases c
    · rwa [hd] at he
    · rw [hd.doc] at he
      exact (mem_filter.mp he).1
  · exact haccept c fun _ he => he

/-- What accepting the write of a local writer answers. -/
def State.localVerdict (c : State nd) (env : Env) (key : Key) (storeStamp : Stamp)
    (tombstone : Bool) (payload : List UInt8) : Accept :=
  let m := c.mint env storeStamp
  let s := m.2.signEntry env key m.1 tombstone payload
  (s.2.acceptOrDemote ⟨key, m.1, tombstone, payload, s.1⟩).1

/-- **A freshly minted stamp wins** over every stored one, in every state that runs
from boot reach without taking in a stamp from beyond the horizon of its observation. -/
theorem minted_newest (boot : Env) (es : List Event)
    (hok : Guarded State.step State.KeepsAhead (State.init nd boot) es)
    (hclock : (run State.step (State.init nd boot) es).hlc.physicalMs.toInt < 2 ^ 62)
    (env : Env) (henv : env.Early) (storeStamp : Stamp) (hstamp : storeStamp.Early) :
    (∀ e ∈ (run State.step (State.init nd boot) es).doc.rows,
      e.stamp < ((run State.step (State.init nd boot) es).mint env storeStamp).1) ∧
    ∀ key tombstone payload, (run State.step (State.init nd boot) es).localVerdict env key
      storeStamp tombstone payload ≠ .stale := by
  have hahead : (run step (init nd boot) es).Ahead :=
    run_keeps Ahead (fun _ he => absurd he not_mem_nil) (fun _ _ ha hk => hk.follows.ahead ha) hok
  generalize run step (init nd boot) es = c at hahead hclock
  have hnew : ∀ e ∈ c.doc.rows, e.stamp < (c.mint env storeStamp).1 := fun e he =>
    lt_of_clock_lt ((hahead e he).trans_lt (mint_clock (within_of_early hclock) henv hstamp).1)
  refine ⟨hnew, fun key tombstone payload => acceptOrDemote_ne_stale fun e he => ?_⟩
  rw [(signEntry_quiet _ _ _ _ _ _).doc] at he
  exact hnew e he

end Minting

/-- The clock reads one second after the epoch. -/
def earlyEnv : Env := { sampleEnv 0 with epochMs := 1000, observeMs := 1000 }

/-- A device section stamped an hour after the epoch. -/
def futureRecord : Record := .entry (Key.base deviceTag) ⟨3600000, 0, 2⟩ 0 [1]

/-- The record is loaded before the clock is seeded. -/
theorem minted_newest_unseeded :
    (⟨3600000, 0, 2⟩ : Stamp) < ((run State.step (State.init sampleNode (sampleEnv 0))
      [.settings (sampleEnv 0) futureRecord]).mint earlyEnv Stamp.unset).1 ∧
    (run State.step (State.init sampleNode (sampleEnv 0))
      [.settings (sampleEnv 0) futureRecord]).localVerdict earlyEnv (Key.base deviceTag) Stamp.unset
        false [1] ≠ .stale :=
  have h := minted_newest (sampleEnv 0) [.settings (sampleEnv 0) futureRecord]
    (guarded_cons.mpr ⟨⟨by decide, ⟨by decide, by decide⟩, fun _ => .inl rfl⟩, guarded_nil⟩)
    (by decide +kernel) earlyEnv (by decide) Stamp.unset (by decide)
  ⟨h.1 ⟨Key.base deviceTag, ⟨3600000, 0, 2⟩, false, [1], none⟩ (by decide +kernel),
    h.2 (Key.base deviceTag) false [1]⟩

/-- An entry accepted while the clock was unseeded, read back after a reboot with
the clock seeded: the next promote of the section is older and is refused. -/
theorem minted_stale :
    (run State.step (State.init sampleNode (sampleEnv 0)) [.receive (sampleEnv 0) ⟨2, false, 0,
      some (.entry ⟨some ⟨.base, 0, 1⟩, some ⟨3600000, 0, 2⟩, false, [1], 1, 0, []⟩)⟩]).doc.rows =
      [⟨Key.base deviceTag, ⟨3600000, 0, 2⟩, false, [1], none⟩] ∧
    ¬ (∀ e ∈ (run State.step (State.init sampleNode (sampleEnv 0))
      [.settings earlyEnv futureRecord]).doc.rows, e.stamp <
        ((run State.step (State.init sampleNode (sampleEnv 0))
          [.settings earlyEnv futureRecord]).mint earlyEnv ⟨900, 0, 1⟩).1) ∧
    ((run State.step (State.init sampleNode (sampleEnv 0))
      [.settings earlyEnv futureRecord]).localVerdict earlyEnv (Key.base deviceTag) ⟨900, 0, 1⟩
        false [1]) = .stale ∧
    ((run State.step (State.init sampleNode (sampleEnv 0))
      [.settings earlyEnv futureRecord]).promote earlyEnv deviceTag
        (.ok ([1], ⟨900, 0, 1⟩))).1.toBool = false := by
  decide +kernel

end Cluster

end Zephyrtastic
