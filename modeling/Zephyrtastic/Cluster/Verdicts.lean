import Zephyrtastic.Cluster.Module

/-!
# Agreement verdicts and the present document

A verdict is stored when a digest arrives and is not looked at again when the
document or the claim moves; only a reset clears it.
-/

namespace Zephyrtastic.Cluster

open Run State

section Verdicts
variable {nd : Node}
variable (c : State nd)

/-- The part of the document a digest is compared over. -/
def State.leg (sender : UInt32) (d : DigestPb) : Option Scope :=
  let peer := scopeFromPb d.scope sender
  if c.myScope.intersect peer.1 = peer.1 then some peer.1
  else if !peer.2 then none
  else some (Scope.make .base 0)

def Frame.digest (f : Frame) : Option DigestPb :=
  match f.msg with
  | some (.digest d) => some d
  | _ => none

/-- The digest the event brings, and its sender. -/
def Event.heard : Event → Option (UInt32 × DigestPb)
  | .receive env f => if f.ours env then f.digest.map fun d => (f.sender, d) else none
  | _ => none

/-- The event may store a version of the key: an entry newer than the one held, or
a local write. -/
def State.MayStore : Event → Key → Prop
  | .receive _ f, key => ∃ e w, f.msg = some (.entry e) ∧ e.describes w ∧ w.key = key ∧
      ∀ held, c.doc.find key = some held → held.stamp < w.stamp
  | .settings _ (.entry key' stamp _ _), key => key' = key ∧
      ∀ held, c.doc.find key = some held → held.stamp < stamp
  | .promote _ sec _, key => key = Key.base sec
  | .pin _ sec _, key => key = Key.node nd.me sec
  | .unpin _ sec _, key => key = Key.node nd.me sec
  | .publish _ sec layer nodeId _, key => key = publishKey sec layer nodeId
  | _, _ => False

/-- A write of the key narrows the claim first. -/
def State.MayNarrow (key : Key) : Prop := c.NoRoom key ∧ ¬ c.Fixed

/-- The event may change the claim. -/
def State.MayRescope : Event → Prop
  | .receive env f => ∃ v, f.msg = some (.vector v) ∧ c.SeesOverflow env f.sender v ∧ ¬ c.Fixed
  | .settings _ (.scope (some kind) _) => kind ≠ c.scopeKind
  | .promote _ sec _ => c.MayNarrow (Key.base sec)
  | .pin _ sec _ => c.MayNarrow (Key.node nd.me sec)
  | .unpin _ sec _ => c.MayNarrow (Key.node nd.me sec)
  | .publish _ sec layer nodeId _ => c.MayNarrow (publishKey sec layer nodeId)
  | .scopeSelect choice => choice.claim.1 ≠ c.scopeKind
  | _ => False

/-- What an event that is no digest can do to the tables. -/
inductive Effect (c : State nd) (ev : Event) (c' : State nd) : Prop
  | same (h : c.SameTables c')
  | stores (w : Entry) (may : c.MayStore ev w.key) (h : c.Stores c' w)
  | trims (h : c.Rescoped c' c.scopeKind)
  | rescopes (may : c.MayRescope ev) (peers : c'.peers = c.peers)
  | clears (h : c'.peers.peers = [])

variable {c c' : State nd} {ev : Event}

theorem Effect.of_written {w : Entry} (h : Written c w c')
    (hstore : c.MayStore ev w.key) (hnarrow : c.MayNarrow w.key → c.MayRescope ev) :
    Effect c ev c' := by
  cases h with
  | same h => exact .same h
  | stores h => exact .stores w hstore h
  | narrows room free h => exact .rescopes (hnarrow ⟨room, free⟩) h.peers
  | retries room free mid narrow h =>
    exact .rescopes (hnarrow ⟨room, free⟩) (h.peers.trans narrow.peers)

theorem Effect.of_writer {key : Key} {write : Entry → Prop}
    (hkey : ∀ {w}, write w → w.key = key) (h : c.SameTables c' ∨ ∃ w, write w ∧ Written c w c')
    (hstore : c.MayStore ev key) (hnarrow : c.MayNarrow key → c.MayRescope ev) :
    Effect c ev c' := by
  rcases h with hs | ⟨w, hk, hw⟩
  · exact .same hs
  · rw [← hkey hk] at hstore hnarrow
    exact .of_written hw hstore hnarrow

theorem stored_newer {w : Entry} (h : c.Stores c' w) :
    ∀ held, c.doc.find w.key = some held → held.stamp < w.stamp :=
  (Doc.acceptSigned_stored_iff.mp h.stored).2.1

section
variable (c)

theorem onPacket_effect (env : Env) (f : Frame) :
    (∃ d, (Event.receive env f).heard = some (f.sender, d) ∧
      { c with peers := c.noted env f.sender d }.SameTables (c.onPacket env f)) ∨
    ((Event.receive env f).heard = none ∧ Effect c (.receive env f) (c.onPacket env f)) := by
  simp only [onPacket, Event.heard]
  cases hours : f.ours env with
  | false => exact .inr ⟨rfl, .same (c.sameTables_count _)⟩
  | true =>
    simp only [Bool.not_true, Bool.false_eq_true, if_false, if_true, Frame.digest]
    cases hmsg : f.msg with
    | none => exact .inr ⟨rfl, .same (c.sameTables_count _)⟩
    | some msg =>
      cases msg with
      | digest d => exact .inl ⟨d, rfl, onDigest_tables c env f.sender d⟩
      | vectorReq scope =>
        exact .inr ⟨rfl, .same (onVectorReq_onlyQueues c env f.sender scope).quiet.toSameTables⟩
      | vector v =>
        refine .inr ⟨rfl, ?_⟩
        rcases onVector_tables c env f.sender v with hs | ⟨hover, hfree, hr⟩
        · exact .same hs
        · exact .rescopes ⟨v, hmsg, hover, hfree⟩ hr.peers
      | entryReq keys =>
        exact .inr ⟨rfl, .same (onEntryReq_onlyQueues c env f.sender keys).quiet.toSameTables⟩
      | entry e =>
        refine .inr ⟨rfl, ?_⟩
        rcases onEntry_tables c env f.sender e with hs | ⟨w, _, hd, hs⟩
        · exact .same hs
        · exact .stores w ⟨e, w, hmsg, hd, rfl, stored_newer hs⟩ hs
      | other => exact .inr ⟨rfl, .same (c.sameTables_count _)⟩

theorem settingsSet_effect (env : Env) (record : Record) :
    Effect c (.settings env record) (c.settingsSet env record) := by
  cases record with
  | entry key stamp flags body =>
    rcases loadEntry_tables c env key stamp flags body with hs | ⟨w, hk, hst, _, hs⟩
    · exact .same hs
    · refine .stores w ⟨hk.symm, ?_⟩ hs
      rw [← hst]
      exact stored_newer hs
  | scope kind cap =>
    change Effect c _ (c.loadScope kind cap)
    rcases loadScope_cases c kind cap with hc | ⟨-, -, k, -, rfl, hc⟩ <;> rw [hc]
    · exact .same (SameTables.refl c)
    · by_cases h : k = c.scopeKind
      · exact .same ⟨rfl, h, rfl, rfl⟩
      · exact .rescopes h rfl

theorem scopeSelect_effect (choice : ScopeChoice) :
    Effect c (.scopeSelect choice) (c.scopeSelect choice) := by
  unfold scopeSelect
  split
  · exact .same (SameTables.refl c)
  have hr := scopeSet_rescoped c choice.claim.1 choice.claim.2
  by_cases h : choice.claim.1 = c.scopeKind
  · exact .trims (h ▸ hr)
  · exact .rescopes h hr.peers

/-- **What any event can do to the tables**: record the digest it is, or one of the
effects above. -/
theorem step_effect (ev : Event) :
    (∃ env sender d, ev.heard = some (sender, d) ∧
      { c with peers := c.noted env sender d }.SameTables (c.step ev)) ∨
    (ev.heard = none ∧ Effect c ev (c.step ev)) := by
  cases ev with
  | receive env f =>
    rcases onPacket_effect c env f with ⟨d, hd, hs⟩ | he
    · exact .inl ⟨env, f.sender, d, hd, hs⟩
    · exact .inr he
  | settings env record => exact .inr ⟨rfl, settingsSet_effect c env record⟩
  | promote env sec snapshot =>
    exact .inr ⟨rfl, .of_writer (·.key_eq) (promote_tables c env sec snapshot) rfl id⟩
  | pin env sec snapshot =>
    exact .inr ⟨rfl, .of_writer (·.key_eq) (pin_tables c env sec snapshot) rfl id⟩
  | unpin env sec storeStamp =>
    exact .inr ⟨rfl, .of_writer (·.key_eq) (unpin_tables c env sec storeStamp) rfl id⟩
  | publish env sec layer nodeId payload =>
    exact .inr ⟨rfl, .of_writer id (publish_tables c env sec layer nodeId payload) rfl id⟩
  | scopeSelect choice => exact .inr ⟨rfl, scopeSelect_effect c choice⟩
  | reset => exact .inr ⟨rfl, .clears rfl⟩
  | tx env => exact .inr ⟨rfl, .same (txWork_quiet c env).toSameTables⟩
  | digest env sent => exact .inr ⟨rfl, .same (digestWork_quiet c env sent).toSameTables⟩
  | pull env nodeId => exact .inr ⟨rfl, .same (pull_quiet c env nodeId).toSameTables⟩

end

/-- The module, and the last digest each peer sent it. -/
structure Watched (nd : Node) where
  c : State nd
  digests : UInt32 → Option DigestPb

def Watched.boot (nd : Node) (env : Env) : Watched nd := ⟨State.init nd env, fun _ => none⟩

def Watched.step (s : Watched nd) (ev : Event) : Watched nd where
  c := s.c.step ev
  digests := match ev.heard with
    | some (sender, d) => Function.update s.digests sender (some d)
    | none => s.digests

/-- A digest from the peer, compared again now, is comparable and matches. -/
def State.StillAgrees (c : State nd) (sender : UInt32) (d : DigestPb) : Prop :=
  (c.digestCompare sender d).comparable = true ∧ (c.digestCompare sender d).isMatch = true

/-- Every slot is about a peer's last digest, and an agreeing verdict still holds. -/
def Watched.Current (s : Watched nd) : Prop :=
  ∀ p ∈ s.c.peers.peers, p.nodeId ≠ 0 ∧ p.nodeId ≠ nd.me ∧
    ∃ d, s.digests p.nodeId = some d ∧ (p.agreed = true → s.c.StillAgrees p.nodeId d)

/-- The event stores nothing inside the leg an agreeing peer was judged on, and
does not change the claim while there is one. -/
def Watched.Undisturbed (s : Watched nd) (ev : Event) : Prop :=
  ∀ p ∈ s.c.peers.peers, p.agreed = true → ¬ s.c.MayRescope ev ∧
    ∀ d leg key, s.digests p.nodeId = some d → s.c.leg p.nodeId d = some leg →
      s.c.MayStore ev key → leg.contains key = false

section
variable {cap : Nat} {d d' : Doc cap} {scope : Scope}
  (h : ∀ key, scope.contains key = true → d'.find key = d.find key)
include h

theorem inScope_congr : d'.inScope scope = d.inScope scope := by
  refine Lww.sorted_ext (List.Pairwise.filter _ d'.sorted) (List.Pairwise.filter _ d.sorted) ?_
  intro e
  rw [Doc.inScope, Doc.inScope, List.mem_filter, List.mem_filter]
  refine and_congr_left fun hin => ?_
  have hf := h e.key hin
  constructor
  · intro he
    have := Doc.find_eq_some.mpr ⟨he, rfl⟩
    exact (Doc.find_eq_some.mp (hf ▸ this)).1
  · intro he
    have := Doc.find_eq_some.mpr ⟨he, rfl⟩
    exact (Doc.find_eq_some.mp (hf.symm ▸ this)).1

theorem leg_congr (crc : UInt32 → List UInt8 → UInt32) :
    d'.hashScoped crc scope = d.hashScoped crc scope ∧
      d'.countScoped scope = d.countScoped scope ∧
      d'.maxStampScoped scope = d.maxStampScoped scope := by
  simp only [Doc.hashScoped, Doc.countScoped, Doc.maxStampScoped, inScope_congr h, and_self]

end

variable {d : DigestPb} {sender : UInt32}

/-- A comparison depends on the claim and on the rows of its leg alone. -/
theorem digestCompare_congr (hk : c'.scopeKind = c.scopeKind)
    (h : ∀ leg key, c.leg sender d = some leg → leg.contains key = true →
      c'.doc.find key = c.doc.find key) : c'.digestCompare sender d = c.digestCompare sender d := by
  unfold leg at h
  simp only [digestCompare, myScope_congr hk]
  by_cases hw : c.myScope.intersect (scopeFromPb d.scope sender).1 = (scopeFromPb d.scope sender).1
  · simp only [hw, if_true] at h ⊢
    obtain ⟨h1, h2, h3⟩ := leg_congr (fun key hkey => h _ key rfl hkey) nd.crc32IeeeUpdate
    rw [h1, h2, h3]
  simp only [hw, if_false] at h ⊢
  by_cases hb : (!(scopeFromPb d.scope sender).2) = true
  · simp only [hb, if_true]
  · simp only [hb, Bool.false_eq_true, if_false] at h ⊢
    obtain ⟨h1, h2, _⟩ := leg_congr (fun key hkey => h _ key rfl hkey) nd.crc32IeeeUpdate
    rw [h1, h2]

theorem leg_within {leg : Scope} {key : Key}
    (hleg : c.leg sender d = some leg) (hkey : leg.contains key = true) :
    c.myScope.contains key = true := by
  unfold State.leg at hleg
  simp only at hleg
  split at hleg
  · rename_i hw
    obtain rfl := Option.some.inj hleg
    rw [← hw, Scope.intersect_contains] at hkey
    exact (Bool.and_eq_true_iff.mp hkey).1
  · split at hleg
    · cases hleg
    obtain rfl := Option.some.inj hleg
    have hb : key.layer = layerBase := by
      by_contra hne
      simp [Scope.contains, hne] at hkey
    simp [Scope.contains, hb]

variable {s : Watched nd}

/-- An event that is no digest leaves the comparison with every agreeing peer as it
is. -/
theorem Effect.still (he : Effect s.c ev c')
    (hok : s.Undisturbed ev) {p : Peer} (hp : p ∈ c'.peers.peers) :
    p ∈ s.c.peers.peers ∧ (p.agreed = true → ∀ d, s.digests p.nodeId = some d →
      c'.digestCompare p.nodeId d = s.c.digestCompare p.nodeId d) := by
  cases he with
  | same h =>
    rw [h.peers] at hp
    exact ⟨hp, fun _ d _ => digestCompare_congr_tables h.doc h.kind _ d⟩
  | stores w may h =>
    rw [h.peers] at hp
    refine ⟨hp, fun ha d hd => digestCompare_congr h.kind fun leg key hleg hin => ?_⟩
    have hout := (hok p hp ha).2 d leg w.key hd hleg may
    rw [h.doc, Doc.find_of_stored h.stored, if_neg]
    rintro rfl
    exact absurd (hin.symm.trans hout) nofun
  | trims h =>
    rw [h.peers] at hp
    refine ⟨hp, fun _ d _ => digestCompare_congr h.kind fun leg key hleg hin => ?_⟩
    rw [h.doc, Doc.find_retain]
    rw [myScope_congr h.kind]
    exact leg_within hleg hin
  | rescopes may hpeers =>
    rw [hpeers] at hp
    exact ⟨hp, fun ha => absurd may (hok p hp ha).1⟩
  | clears h =>
    rw [h] at hp
    cases hp

theorem Watched.Current.records (h : s.Current) {env : Env}
    (hs : { s.c with peers := s.c.noted env sender d }.SameTables c') :
    Watched.Current ⟨c', Function.update s.digests sender (some d)⟩ := by
  have hcmp : ∀ p d, c'.StillAgrees p d ↔ s.c.StillAgrees p d := by
    intro p d
    unfold StillAgrees
    rw [digestCompare_congr_tables hs.doc hs.kind p d]
    exact Iff.rfl
  have hold : ∀ p ∈ s.c.peers.peers, p.nodeId ≠ sender → p.nodeId ≠ 0 ∧ p.nodeId ≠ nd.me ∧
      ∃ d', Function.update s.digests sender (some d) p.nodeId = some d' ∧
        (p.agreed = true → c'.StillAgrees p.nodeId d') := by
    intro p hp hne
    obtain ⟨h0, hme, d', hd', hag⟩ := h p hp
    exact ⟨h0, hme, d', by rw [Function.update_of_ne hne]; exact hd',
      fun ha => (hcmp _ _).mpr (hag ha)⟩
  intro p hp
  rw [hs.peers] at hp
  by_cases hskip : sender = 0 ∨ sender = nd.me
  · rw [noted, if_pos hskip] at hp
    refine hold p hp fun he => ?_
    obtain ⟨h0, hme, _⟩ := h p hp
    rcases hskip with h1 | h1
    · exact h0 (he.trans h1)
    · exact hme (he.trans h1)
  · obtain ⟨h0, hme⟩ := not_or.mp hskip
    rw [noted_of_peer h0 hme] at hp
    rcases PeerTable.mem_of_mem_note nd.peerSlots_pos hp with rfl | ⟨hp, hne⟩
    · refine ⟨h0, hme, d, Function.update_self _ _ _, ?_⟩
      intro ha
      exact (hcmp _ _).mpr (Bool.and_eq_true_iff.mp ha)
    · exact hold p hp hne

theorem Watched.Current.step (h : s.Current) (hok : s.Undisturbed ev) : (s.step ev).Current := by
  unfold Watched.step
  rcases step_effect s.c ev with ⟨env, sender, d, hd, hs⟩ | ⟨hnone, he⟩
  · rw [hd]
    exact h.records hs
  rw [hnone]
  intro p hp
  obtain ⟨hmem, hcmp⟩ := he.still hok hp
  obtain ⟨h0, hme, d, hd, hag⟩ := h p hmem
  refine ⟨h0, hme, d, hd, ?_⟩
  intro ha
  unfold StillAgrees
  rw [hcmp ha d hd]
  exact hag ha

/-- **A converged fleet view describes the present document**, in every run that
leaves the legs of agreeing peers and the claim they were judged under alone. -/
theorem fleetConverged_current (env : Env) (es : List Event)
    (hok : Guarded Watched.step Watched.Undisturbed (Watched.boot nd env) es) (now : Env)
    (hconv : (run Watched.step (Watched.boot nd env) es).c.fleetConverged now = true) :
    let s := run Watched.step (Watched.boot nd env) es
    ∀ p ∈ s.c.peers.peers, ∃ d, s.digests p.nodeId = some d ∧
      (s.c.digestCompare p.nodeId d).comparable = true ∧
      (s.c.digestCompare p.nodeId d).isMatch = true := by
  intro s p hp
  have hinv : s.Current := by
    refine run_keeps Watched.Current ?_ (fun _ _ h ho => h.step ho) hok
    intro p hp
    cases hp
  obtain ⟨_, _, d, hd, hag⟩ := hinv p hp
  exact ⟨d, hd, hag (agreed_of_converged hconv hp)⟩

end Verdicts

/-- The digest of an empty document, from node 2. -/
def digestTwo : Event := .receive (sampleEnv 0) ⟨2, false, 0, some (.digest emptyDigest)⟩

theorem fleetConverged_current_empty :
    let s := run Watched.step (Watched.boot sampleNode (sampleEnv 0)) [digestTwo]
    ∀ p ∈ s.c.peers.peers, ∃ d, s.digests p.nodeId = some d ∧
      (s.c.digestCompare p.nodeId d).comparable = true ∧
      (s.c.digestCompare p.nodeId d).isMatch = true :=
  fleetConverged_current (sampleEnv 0) [digestTwo]
    (guarded_cons.mpr ⟨fun _ hp => absurd hp (by simp [Watched.boot, init, PeerTable.empty]),
      guarded_nil⟩)
    (sampleEnv 0) (by decide +kernel)

/-- A promotion changes the document under a verdict that still reads as agreement. -/
theorem fleetConverged_outdated :
    let s := run Watched.step (Watched.boot sampleNode (sampleEnv 0))
      [digestTwo, .promote (sampleEnv 0) deviceTag (.ok ([1], ⟨10, 0, 1⟩))]
    s.c.fleetConverged (sampleEnv 0) = true ∧ s.c.peers.peers.map Peer.nodeId = [2] ∧
      s.digests 2 = some emptyDigest ∧ (s.c.digestCompare 2 emptyDigest).isMatch = false := by
  refine ⟨by decide +kernel, by decide +kernel, rfl, by decide +kernel⟩

end Zephyrtastic.Cluster
