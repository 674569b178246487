import Zephyrtastic.Cluster.Fleet
import Zephyrtastic.Cluster.Local

/-!
# The module as one machine

Every door into the module is an event, and `State.step` is what it does. The
held set stays inside the declared one; two doors break that, a publish for
another node and a recorded claim loaded over a wider table.
-/

namespace Zephyrtastic.Cluster

open Run State

/-- A received packet; `msg` is none when the payload does not decode. -/
structure Frame where
  sender : UInt32
  pkiEncrypted : Bool
  channelIndex : UInt8
  msg : Option Message

inductive Event where
  | receive (env : Env) (frame : Frame)
  | settings (env : Env) (record : Record)
  | promote (env : Env) (sec : UInt16) (snapshot : Except Errno (List UInt8 × Stamp))
  | pin (env : Env) (sec : UInt16) (snapshot : Except Errno (List UInt8 × Stamp))
  | unpin (env : Env) (sec : UInt16) (storeStamp : Option Stamp)
  | publish (env : Env) (sec : UInt16) (layer : UInt8) (nodeId : UInt32) (payload : List UInt8)
  | scopeSelect (choice : ScopeChoice)
  | reset
  | tx (env : Env)
  | digest (env : Env) (sent : Bool)
  | pull (env : Env) (nodeId : UInt32)

section Module
variable {nd : Node}
variable (c : State nd) (env : Env)

/-- A frame of the cluster channel, or a unicast authenticated to its sender on a
node that has that channel. -/
def Frame.ours (f : Frame) (env : Env) : Bool :=
  match env.channelIndex with
  | none => false
  | some index => f.pkiEncrypted || decide (f.channelIndex = index)

def State.onMessage (sender : UInt32) : Message → State nd
  | .digest d => c.onDigest env sender d
  | .vectorReq scope => c.onVectorReq env sender scope
  | .vector v => c.onVector env sender v
  | .entryReq keys => c.onEntryReq env sender keys
  | .entry e => c.onEntry env sender e
  | .other => c.count .rxNotImplemented

def State.onPacket (f : Frame) : State nd :=
  if !f.ours env then c.count .rxWrongChannel
  else match f.msg with
    | none => c.count .rxUndecodable
    | some msg => c.onMessage env f.sender msg

/-- The legs a node advertises: what it claims, and base. -/
def State.digest : DigestPb where
  docHash := c.doc.hashScoped nd.crc32IeeeUpdate c.myScope
  entryCount := UInt32.ofNat (c.doc.countScoped c.myScope)
  maxStamp := c.doc.maxStampScoped c.myScope
  scope := scopeToPb c.myScope
  baseHash := c.doc.hashScoped nd.crc32IeeeUpdate (Scope.make .base 0)
  baseCount := UInt32.ofNat (c.doc.countScoped (Scope.make .base 0))

/-- A narrowed node walks a peer that claims everything now and then. -/
def State.backstopTick : State nd :=
  if nd.backstopPeriods = 0 then c
  else if c.scopeKind ≠ .core then { c with backstopCountdown := 0 }
  else if c.backstopCountdown > 0 then { c with backstopCountdown := c.backstopCountdown - 1 }
  else
    let c := { c with backstopCountdown := nd.backstopPeriods }
    if c.backstopPeer = 0 then c
    else
      let r := c.pullStart env c.backstopPeer 0 .backstop
      if r.1 then r.2.count .backstopWalks else r.2

/-- `digest_work_fn`; `sent` is whether the radio took the frame. -/
def State.digestWork (sent : Bool) : Option Outbound × State nd :=
  if env.channelIndex.isNone then (none, c)
  else (some (nodeBroadcast, .digest c.digest),
    (if sent then c.count .digestTx else c).backstopTick env)

/-- A pull the operator asked for. -/
def State.pull (nodeId : UInt32) : State nd :=
  if nodeId = 0 ∨ nodeId = nd.me ∨ env.channelIndex.isNone then c
  else (c.pullStart env nodeId 0 .shell).2

def State.step : Event → State nd
  | .receive env frame => c.onPacket env frame
  | .settings env record => c.settingsSet env record
  | .promote env sec snapshot => (c.promote env sec snapshot).2
  | .pin env sec snapshot => (c.pin env sec snapshot).2
  | .unpin env sec storeStamp => (c.unpin env sec storeStamp).2
  | .publish env sec layer nodeId payload => (c.publish env sec layer nodeId payload).2
  | .scopeSelect choice => c.scopeSelect choice
  | .reset => c.reset
  | .tx env => (c.txWork env).2
  | .digest env sent => (c.digestWork env sent).2
  | .pull env nodeId => c.pull env nodeId

section
variable (c : State nd) (env : Env)

theorem txWork_quiet : c.Quiet (c.txWork env).2 := by
  unfold txWork
  split
  · exact ⟨⟨rfl, rfl, rfl, rfl⟩, rfl⟩
  split
  · have ht : c.Quiet (c.count .pullTimedOut).pullReset := ⟨⟨rfl, rfl, rfl, rfl⟩, rfl⟩
    exact ht.trans (txNext_quiet _)
  · exact txNext_quiet c

theorem backstopTick_quiet : c.Quiet (c.backstopTick env) := by
  unfold backstopTick
  split
  · exact State.Quiet.refl c
  split
  · exact ⟨⟨rfl, rfl, rfl, rfl⟩, rfl⟩
  split
  · exact ⟨⟨rfl, rfl, rfl, rfl⟩, rfl⟩
  have hb : c.Quiet { c with backstopCountdown := nd.backstopPeriods } :=
    ⟨⟨rfl, rfl, rfl, rfl⟩, rfl⟩
  simp only
  split
  · exact hb
  · split
    · exact (hb.trans (pullStart_quiet _ _ _ _ _)).trans ⟨⟨rfl, rfl, rfl, rfl⟩, rfl⟩
    · exact hb.trans (pullStart_quiet _ _ _ _ _)

theorem digestWork_quiet (sent : Bool) : c.Quiet (c.digestWork env sent).2 := by
  unfold digestWork
  split
  · exact State.Quiet.refl c
  have hs : c.Quiet (if sent then c.count .digestTx else c) := by
    split
    · exact ⟨c.sameTables_count .digestTx, rfl⟩
    · exact State.Quiet.refl c
  exact hs.trans (backstopTick_quiet _ env)

theorem pull_quiet (nodeId : UInt32) : c.Quiet (c.pull env nodeId) := by
  unfold pull
  split
  · exact State.Quiet.refl c
  · exact pullStart_quiet _ _ _ _ _

end

/-- The table is inside the claim, which is one a node can make. -/
structure State.Declared (c : State nd) : Prop where
  claimed : c.Claimed
  kind : c.scopeKind ≠ .base

variable {c c' : State nd}

theorem State.Declared.of_same (h : c.Declared) (h' : c.SameTables c') : c'.Declared :=
  ⟨h.claimed.of_same h', h'.kind.symm ▸ h.kind⟩

theorem State.Declared.stores {w : Entry} (h : c.Declared) (h' : c.Stores c' w)
    (hw : c.myScope.contains w.key = true) : c'.Declared :=
  ⟨h.claimed.stores h' hw, h'.kind.symm ▸ h.kind⟩

theorem State.Rescoped.declared {kind : ScopeKind} (h : c.Rescoped c' kind)
    (hk : kind ≠ .base) : c'.Declared :=
  ⟨h.claimed, h.kind.symm ▸ hk⟩

theorem contains_of_core (hk : c.scopeKind = .core) {key : Key}
    (h : (Scope.make .core nd.me).contains key = true) : c.myScope.contains key = true := by
  unfold myScope
  split
  · rfl
  · rw [hk]
    exact h

theorem contains_own (hk : c.scopeKind ≠ .base) (sec : UInt16) :
    c.myScope.contains (Key.node nd.me sec) = true := by
  cases h : c.scopeKind with
  | base => exact absurd h hk
  | core => exact contains_of_core h (Scope.core_contains_iff.mpr (.inr rfl))
  | full => simp [myScope, h]

theorem Written.declared {w : Entry} (hw : Written c w c') (h : c.Declared)
    (hin : c.myScope.contains w.key = true)
    (hcore : c.NoRoom w.key → ¬ c.Fixed → (Scope.make .core nd.me).contains w.key = true) :
    c'.Declared := by
  cases hw with
  | same h' => exact h.of_same h'
  | stores h' => exact h.stores h' hin
  | narrows _ _ h' => exact h'.declared nofun
  | retries room free mid narrow h' =>
    exact (narrow.declared nofun).stores h' (contains_of_core narrow.kind (hcore room free))

/-- A publish keeps to the claim, also to the one it would narrow to; a recorded
CORE claim that is honoured is loaded over rows it contains. -/
def State.KeepsDeclared (c : State nd) : Event → Prop
  | .publish _ sec layer nodeId _ =>
    c.myScope.contains (publishKey sec layer nodeId) = true ∧
    (c.NoRoom (publishKey sec layer nodeId) → ¬ c.Fixed →
      (Scope.make .core nd.me).contains (publishKey sec layer nodeId) = true)
  | .settings _ (.scope (some .core) cap) => nd.scopeChoice = .auto → nd.maxEntries ≤ cap →
    ∀ e ∈ c.doc.rows, (Scope.make .core nd.me).contains e.key = true
  | _ => True

theorem onMessage_declared (h : c.Declared) (env : Env) (sender : UInt32)
    (msg : Message) : (c.onMessage env sender msg).Declared := by
  cases msg with
  | digest d =>
    have hd := onDigest_tables c env sender d
    have hp : { c with peers := c.noted env sender d }.Declared := { h with }
    exact hp.of_same hd
  | vectorReq scope =>
    exact h.of_same (onVectorReq_onlyQueues c env sender scope).quiet.toSameTables
  | vector v =>
    rcases onVector_tables c env sender v with hs | ⟨_, _, hr⟩
    · exact h.of_same hs
    · exact hr.declared nofun
  | entryReq keys => exact h.of_same (onEntryReq_onlyQueues c env sender keys).quiet.toSameTables
  | entry e =>
    rcases onEntry_tables c env sender e with hs | ⟨w, hg, _, hs⟩
    · exact h.of_same hs
    · exact h.stores hs hg.inScope
  | other => exact h.of_same (c.sameTables_count _)

theorem onPacket_declared (h : c.Declared) (env : Env) (f : Frame) :
    (c.onPacket env f).Declared := by
  unfold onPacket
  split
  · exact h.of_same (c.sameTables_count _)
  · split
    · exact h.of_same (c.sameTables_count _)
    · exact onMessage_declared h env f.sender _

theorem settings_declared (h : c.Declared) {env : Env} {record : Record}
    (hok : c.KeepsDeclared (.settings env record)) : (c.settingsSet env record).Declared := by
  cases record with
  | entry key stamp flags body =>
    rcases loadEntry_tables c env key stamp flags body with hs | ⟨w, _, _, hin, hs⟩
    · exact h.of_same hs
    · exact h.stores hs hin
  | scope kind cap =>
    change (c.loadScope kind cap).Declared
    rcases loadScope_cases c kind cap with hc | ⟨hauto, hcap, k, rfl | rfl, rfl, hc⟩ <;> rw [hc]
    · exact h
    · refine ⟨?_, nofun⟩
      intro e he
      exact contains_of_core rfl (hok hauto hcap e he)
    · refine ⟨?_, nofun⟩
      intro e _
      simp [myScope]

theorem compiledScope_ne_base (nd : Node) : nd.compiledScope.1 ≠ .base := by
  unfold Node.compiledScope
  cases nd.scopeChoice <;> nofun

theorem scopeSelect_declared (h : c.Declared) (choice : ScopeChoice) :
    (c.scopeSelect choice).Declared := by
  unfold scopeSelect
  split
  · exact h
  · refine (scopeSet_rescoped c _ _).declared ?_
    cases choice <;> nofun

theorem reset_declared (c : State nd) : c.reset.Declared := by
  refine ⟨?_, compiledScope_ne_base nd⟩
  intro e he
  cases he

theorem State.Declared.step (h : c.Declared) {ev : Event}
    (hok : c.KeepsDeclared ev) : (c.step ev).Declared := by
  cases ev with
  | receive env frame => exact onPacket_declared h env frame
  | settings env record => exact settings_declared h hok
  | promote env sec snapshot =>
    rcases promote_tables c env sec snapshot with hs | ⟨w, hl, hw⟩
    · exact h.of_same hs
    · refine hw.declared h ?_ fun _ _ => ?_ <;> rw [hl.key_eq]
      · exact Scope.contains_base _ sec
      · exact Scope.contains_base _ sec
  | pin env sec snapshot =>
    rcases pin_tables c env sec snapshot with hs | ⟨w, hl, hw⟩
    · exact h.of_same hs
    · refine hw.declared h ?_ fun _ _ => ?_ <;> rw [hl.key_eq]
      · exact contains_own h.kind sec
      · exact Scope.core_contains_iff.mpr (.inr rfl)
  | unpin env sec storeStamp =>
    rcases unpin_tables c env sec storeStamp with hs | ⟨w, hl, hw⟩
    · exact h.of_same hs
    · refine hw.declared h ?_ fun _ _ => ?_ <;> rw [hl.key_eq]
      · exact contains_own h.kind sec
      · exact Scope.core_contains_iff.mpr (.inr rfl)
  | publish env sec layer nodeId payload =>
    rcases publish_tables c env sec layer nodeId payload with hs | ⟨w, hk, hw⟩
    · exact h.of_same hs
    · refine hw.declared h ?_ ?_ <;> rw [hk]
      · exact hok.1
      · exact hok.2
  | scopeSelect choice => exact scopeSelect_declared h choice
  | reset => exact reset_declared c
  | tx env => exact h.of_same (txWork_quiet c env).toSameTables
  | digest env sent => exact h.of_same (digestWork_quiet c env sent).toSameTables
  | pull env nodeId => exact h.of_same (pull_quiet c env nodeId).toSameTables

/-- **The held set never exceeds the declared one**, in every run from boot whose
publishes and recorded claims keep to it. -/
theorem held_within_declared (env : Env) (es : List Event)
    (hok : Guarded State.step State.KeepsDeclared (State.init nd env) es) :
    (run State.step (State.init nd env) es).Claimed := by
  have hinit : (init nd env).Declared := by
    refine ⟨?_, compiledScope_ne_base nd⟩
    intro e he
    cases he
  have hinv := run_keeps State.Declared hinit (fun _ _ h ho => h.step ho) hok
  exact hinv.claimed

end Module

/-- A publish of a firmware intent for node 9. -/
def publishNine : Event := .publish (sampleEnv 0) sectionFw layerNode 9 [1]

theorem held_within_declared_full : (run State.step (State.init sampleNode (sampleEnv 0))
    [publishNine]).Claimed :=
  held_within_declared (sampleEnv 0) [publishNine] (guarded_cons.mpr
    ⟨⟨by decide +kernel, fun h => absurd h.2 (by decide +kernel)⟩, guarded_nil⟩)

/-- A narrowed node that publishes for another one, and a CORE claim read back from
flash over a wider table. -/
theorem held_exceeds_declared :
    ¬ (run State.step (State.init sampleNode (sampleEnv 0))
      [.scopeSelect .core, publishNine]).Claimed ∧
    ¬ (run State.step (State.init sampleNode (sampleEnv 0))
      [.settings (sampleEnv 0) (.entry (Key.node 9 deviceTag) ⟨10, 0, 9⟩ 0 [1]),
        .settings (sampleEnv 0) (.scope (some .core) 14)]).Claimed := by
  unfold State.Claimed
  decide +kernel

end Zephyrtastic.Cluster
