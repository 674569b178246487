import Zephyrtastic.Cluster.Pull

/-!
# Digests and the fleet view

A digest is compared over the part of the document both ends claim, and the
verdict is kept in a bounded peer table that forgets the peer heard least
recently. `fleetConverged` answers from that table.
-/

namespace Zephyrtastic.Cluster

open List Run State

def Env.nowSec (env : Env) : UInt32 := UInt32.ofNat (env.uptimeMs / 1000)

/-- How recent a digest has to be for its verdict to still count. -/
def Node.fleetWindowSec (nd : Node) : Nat := min (3 * nd.digestPeriodSec) 3600

/-- What comparing a digest with our document came to. -/
structure Compared where
  comparable : Bool
  isMatch : Bool
  theirsHash : UInt32

/-- The slot heard least recently, the last one of those heard equally long ago. -/
def victim : List Peer → UInt32 → Option Peer → Option Peer
  | [], _, slot => slot
  | p :: rest, oldest, slot =>
    if p.heardUptimeSec ≤ oldest then victim rest p.heardUptimeSec (some p)
    else victim rest oldest slot

/-- Overwrite the slot of one peer. -/
def replaceSlot (peers : List Peer) (nodeId : UInt32) (p : Peer) : List Peer :=
  peers.map fun q => if q.nodeId = nodeId then p else q

namespace PeerTable
variable {slots : Nat}

/-- The peer a digest from `sender` displaces. -/
def evicts (t : PeerTable slots) (sender : UInt32) : Option Peer :=
  if t.peers.any (fun p => p.nodeId = sender) || decide (t.peers.length < slots) then none
  else victim t.peers (UInt32.ofNat 4294967295) none

variable {peers : List Peer}
variable {nodeId : UInt32} {q : Peer}

theorem replaceSlot_nodup (h : (peers.map Peer.nodeId).Nodup) {p : Peer}
    (hp : p.nodeId = nodeId ∨ p.nodeId ∉ peers.map Peer.nodeId) :
    ((replaceSlot peers nodeId p).map Peer.nodeId).Nodup := by
  rw [replaceSlot, map_map]
  refine (nodup_map_iff_inj_on (List.Nodup.of_map _ h)).mpr ?_
  intro q hq q' hq' he
  have hinj := (nodup_map_iff_inj_on (List.Nodup.of_map _ h)).mp h q hq q' hq'
  simp only [Function.comp_apply] at he
  by_cases h1 : q.nodeId = nodeId <;> by_cases h2 : q'.nodeId = nodeId
  · exact hinj (h1.trans h2.symm)
  · rw [if_pos h1, if_neg h2] at he
    rcases hp with hp | hp
    · exact absurd (he.symm.trans hp) h2
    · exact absurd (he ▸ mem_map_of_mem hq') hp
  · rw [if_neg h1, if_pos h2] at he
    rcases hp with hp | hp
    · exact absurd (he.trans hp) h1
    · exact absurd (he ▸ mem_map_of_mem hq) hp
  · rw [if_neg h1, if_neg h2] at he
    exact hinj he

/-- Record a peer: in its own slot, in a free one, or over the one heard least
recently. -/
def note (t : PeerTable slots) (p : Peer) : PeerTable slots :=
  if hk : t.peers.any (fun q => q.nodeId = p.nodeId) then
    ⟨replaceSlot t.peers p.nodeId p, by simpa [replaceSlot] using t.fits,
      replaceSlot_nodup t.nodup (Or.inl rfl)⟩
  else
    have hnew : p.nodeId ∉ t.peers.map Peer.nodeId := by
      simpa [mem_map] using hk
    if hr : t.peers.length < slots then
      ⟨t.peers ++ [p], by simpa using Nat.succ_le_of_lt hr, by
        simpa [nodup_append] using ⟨t.nodup, by simpa [mem_map] using hk⟩⟩
    else match t.evicts p.nodeId with
      | some q => ⟨replaceSlot t.peers q.nodeId p, by simpa [replaceSlot] using t.fits,
          replaceSlot_nodup t.nodup (.inr hnew)⟩
      | none => t

theorem victim_mem {oldest : UInt32} {slot : Option Peer} (h : victim peers oldest slot = some q) :
    slot = some q ∨ q ∈ peers := by
  induction peers generalizing oldest slot with
  | nil => exact .inl h
  | cons p rest ih =>
    rw [victim] at h
    split at h
    · rcases ih h with hp | hq
      · exact .inr (Option.some.inj hp ▸ mem_cons_self)
      · exact .inr (mem_cons_of_mem p hq)
    · exact (ih h).imp_right (mem_cons_of_mem p)

theorem victim_some (peers : List Peer) (oldest : UInt32) (slot : Peer) :
    (victim peers oldest (some slot)).isSome = true := by
  induction peers generalizing oldest slot with
  | nil => rfl
  | cons p rest ih =>
    rw [victim]
    split
    · exact ih _ _
    · exact ih _ _

theorem victim_isSome (h : peers ≠ []) :
    (victim peers (UInt32.ofNat 4294967295) none).isSome = true := by
  cases peers with
  | nil => exact absurd rfl h
  | cons p rest =>
    have hle : p.heardUptimeSec ≤ UInt32.ofNat 4294967295 := by
      rw [UInt32.le_iff_toNat_le]
      have := p.heardUptimeSec.toNat_lt
      change _ ≤ 4294967295
      omega
    rw [victim, if_pos hle]
    exact victim_some rest _ p

/-- **Where a peer is recorded**: in its own slot, in a free one, or over the one
that is evicted. -/
inductive Noted (t : PeerTable slots) (p : Peer) : Prop
  | known (hk : ∃ q ∈ t.peers, q.nodeId = p.nodeId)
      (hn : (t.note p).peers = replaceSlot t.peers p.nodeId p)
  | added (hnew : ∀ q ∈ t.peers, q.nodeId ≠ p.nodeId) (hn : (t.note p).peers = t.peers ++ [p])
  | evicting (r : Peer) (hr : r ∈ t.peers) (hev : t.evicts p.nodeId = some r)
      (hnew : ∀ q ∈ t.peers, q.nodeId ≠ p.nodeId)
      (hn : (t.note p).peers = replaceSlot t.peers r.nodeId p)

theorem note_noted (t : PeerTable slots) (hslots : 0 < slots) (p : Peer) : t.Noted p := by
  by_cases hk : t.peers.any (fun q => q.nodeId = p.nodeId) = true
  · exact .known (by simpa using hk) (by rw [note, dif_pos hk])
  have hnew : ∀ q ∈ t.peers, q.nodeId ≠ p.nodeId := by simpa using hk
  by_cases hr : t.peers.length < slots
  · exact .added hnew (by simp only [note, dif_neg hk, dif_pos hr])
  have hev : t.evicts p.nodeId = victim t.peers (UInt32.ofNat 4294967295) none := by
    rw [evicts, if_neg (by simpa [hr] using hnew)]
  have hne : t.peers ≠ [] := by
    intro h0
    rw [h0] at hr
    exact hr hslots
  obtain ⟨q, hq⟩ := Option.isSome_iff_exists.mp (victim_isSome hne)
  have hmem : q ∈ t.peers := by
    cases victim_mem hq with
    | inl h0 => cases h0
    | inr hm => exact hm
  refine .evicting q hmem (hev.trans hq) hnew ?_
  simp only [note, dif_neg hk, dif_neg hr]
  rw [hev.trans hq]

variable {p : Peer}

theorem mem_replaceSlot_self
    (h : ∃ q ∈ peers, q.nodeId = nodeId) : p ∈ replaceSlot peers nodeId p := by
  obtain ⟨q, hq, hk⟩ := h
  exact mem_map.mpr ⟨q, hq, if_pos hk⟩

theorem mem_replaceSlot_of_ne
    (hq : q ∈ peers) (hne : q.nodeId ≠ nodeId) : q ∈ replaceSlot peers nodeId p :=
  mem_map.mpr ⟨q, hq, if_neg hne⟩

theorem mem_of_mem_replaceSlot
    (hq : q ∈ replaceSlot peers nodeId p) : q = p ∨ q ∈ peers ∧ q.nodeId ≠ nodeId := by
  obtain ⟨r, hr, he⟩ := mem_map.mp hq
  by_cases hk : r.nodeId = nodeId
  · exact .inl (by rw [← he, if_pos hk])
  · rw [if_neg hk] at he
    exact .inr (he ▸ ⟨hr, hk⟩)

theorem mem_note_self (t : PeerTable slots) (hslots : 0 < slots) (p : Peer) :
    p ∈ (t.note p).peers := by
  cases t.note_noted hslots p with
  | known hk hn =>
    rw [hn]
    exact mem_replaceSlot_self hk
  | added _ hn =>
    rw [hn]
    exact mem_append_right _ (mem_singleton_self p)
  | evicting r hr _ _ hn =>
    rw [hn]
    exact mem_replaceSlot_self ⟨r, hr, rfl⟩

theorem mem_note_of_ne {t : PeerTable slots} (hslots : 0 < slots)
    (hq : q ∈ t.peers) (hne : q.nodeId ≠ p.nodeId) :
    q ∈ (t.note p).peers ∨ t.evicts p.nodeId = some q := by
  cases t.note_noted hslots p with
  | known _ hn => exact .inl (hn ▸ mem_replaceSlot_of_ne hq hne)
  | added _ hn => exact .inl (hn ▸ mem_append_left _ hq)
  | evicting r hr hev _ hn =>
    by_cases he : q.nodeId = r.nodeId
    · have hinj := (nodup_map_iff_inj_on (List.Nodup.of_map _ t.nodup)).mp t.nodup
      exact .inr (hinj q hq r hr he ▸ hev)
    · exact .inl (hn ▸ mem_replaceSlot_of_ne hq he)

theorem mem_of_mem_note {t : PeerTable slots} (hslots : 0 < slots)
    (hq : q ∈ (t.note p).peers) : q = p ∨ q ∈ t.peers ∧ q.nodeId ≠ p.nodeId := by
  cases t.note_noted hslots p with
  | known _ hn =>
    rw [hn] at hq
    exact mem_of_mem_replaceSlot hq
  | added hnew hn =>
    rw [hn] at hq
    cases mem_append.mp hq with
    | inl hq => exact .inr ⟨hq, hnew q hq⟩
    | inr hq => exact .inl (mem_singleton.mp hq)
  | evicting r _ _ hnew hn =>
    rw [hn] at hq
    cases mem_of_mem_replaceSlot hq with
    | inl he => exact .inl he
    | inr hq => exact .inr ⟨hq.1, hnew q hq.1⟩

end PeerTable

section Fleet
variable {nd : Node}
variable (c : State nd) (env : Env) (sender : UInt32) (d : DigestPb)

/-- The node worth walking later: a peer that claims everything. -/
def State.noteBackstop : State nd :=
  if (scopeFromPb d.scope sender).1.kind = .full ∧ sender ≠ nd.me then
    { c with backstopPeer := sender }
  else c

/-- `digest_compare_locked`: over the sender's whole scope when we claim all of it,
else over base alone, else not at all. -/
def State.digestCompare : Compared :=
  let peer := scopeFromPb d.scope sender
  if c.myScope.intersect peer.1 = peer.1 then
    ⟨true, decide (c.doc.hashScoped nd.crc32IeeeUpdate peer.1 = d.docHash) &&
      decide (c.doc.countScoped peer.1 = d.entryCount.toNat) &&
      decide ((c.doc.maxStampScoped peer.1).compare d.maxStamp = 0), d.docHash⟩
  else if !peer.2 then ⟨false, false, 0⟩
  else
    let onlyBase := Scope.make .base 0
    ⟨true, decide (c.doc.hashScoped nd.crc32IeeeUpdate onlyBase = d.baseHash) &&
      decide (c.doc.countScoped onlyBase = d.baseCount.toNat), d.baseHash⟩

/-- `peer_note_locked`. -/
def State.peerNote (r : Compared) : State nd :=
  if sender = 0 ∨ sender = nd.me then c
  else { c with peers := c.peers.note {
    nodeId := sender
    heardUptimeSec := env.nowSec
    docHash := r.theirsHash
    entryCount := d.entryCount.toUInt16
    scope := d.scope.code.toUInt8
    agreed := r.comparable && r.isMatch
    comparable := r.comparable } }

def State.onDigest : State nd :=
  let c := c.observe env d.maxStamp
  let r := c.digestCompare sender d
  let c := (c.noteBackstop sender d).peerNote env sender d r
  if !r.comparable then c.count .digestRxIncomparable
  else if r.isMatch then c.count .digestRxMatch
  else ((c.count .digestRxMismatch).pullStart env sender
    (env.rand.toNat % (nd.pullDelayMs + 1)) .digest).2

inductive PeerStatus where
  | stale | incomparable | agreed | diverged
  deriving DecidableEq, Repr

/-- Seconds since a peer's last digest. -/
def Peer.age (p : Peer) (now : UInt32) : UInt32 :=
  if now > p.heardUptimeSec then now - p.heardUptimeSec else 0

def Peer.status (nd : Node) (now : UInt32) (p : Peer) : PeerStatus :=
  if (p.age now).toNat > nd.fleetWindowSec then .stale
  else if !p.comparable then .incomparable
  else if p.agreed then .agreed
  else .diverged

/-- `meshtastic_cluster_fleet`. -/
structure FleetView where
  known : Nat
  agreed : Nat
  diverged : Nat
  incomparable : Nat
  stale : Nat

def State.fleetView : FleetView :=
  let tally (s : PeerStatus) := c.peers.peers.countP fun p => p.status nd env.nowSec = s
  ⟨c.peers.peers.length, tally .agreed, tally .diverged, tally .incomparable, tally .stale⟩

def State.fleetConverged : Bool :=
  decide ((c.fleetView env).known > 0) &&
    decide ((c.fleetView env).agreed = (c.fleetView env).known)

theorem fleetConverged_iff {c : State nd} {env : Env} : c.fleetConverged env = true ↔
    c.peers.peers ≠ [] ∧ ∀ p ∈ c.peers.peers, p.status nd env.nowSec = .agreed := by
  simp only [fleetConverged, fleetView, Bool.and_eq_true, decide_eq_true_eq,
    countP_eq_length, gt_iff_lt, length_pos_iff]

theorem agreed_of_converged {c : State nd} {env : Env} (h : c.fleetConverged env = true) {p : Peer}
    (hp : p ∈ c.peers.peers) : p.agreed = true := by
  have hstatus := (fleetConverged_iff.mp h).2 p hp
  by_contra hn
  simp only [Peer.status, hn, if_false] at hstatus
  split at hstatus
  · cases hstatus
  · split at hstatus <;> cases hstatus

/-- The slot a digest leaves behind. -/
def State.slotFor : Peer where
  nodeId := sender
  heardUptimeSec := env.nowSec
  docHash := (c.digestCompare sender d).theirsHash
  entryCount := d.entryCount.toUInt16
  scope := d.scope.code.toUInt8
  agreed := (c.digestCompare sender d).comparable && (c.digestCompare sender d).isMatch
  comparable := (c.digestCompare sender d).comparable

theorem digestCompare_congr_tables {c c' : State nd} (hd : c'.doc = c.doc)
    (hk : c'.scopeKind = c.scopeKind) (sender : UInt32) (d : DigestPb) :
    c'.digestCompare sender d = c.digestCompare sender d := by
  simp only [digestCompare, hd, myScope_congr hk]

theorem noteBackstop_sameTables : c.SameTables (c.noteBackstop sender d) := by
  unfold noteBackstop
  split
  · exact ⟨rfl, rfl, rfl, rfl⟩
  · exact State.SameTables.refl c

/-- The peer table after a digest. -/
def State.noted : PeerTable nd.peerSlots :=
  if sender = 0 ∨ sender = nd.me then c.peers else c.peers.note (c.slotFor env sender d)

theorem peerNote_tables : { c with peers := c.noted env sender d }.SameTables
      (c.peerNote env sender d (c.digestCompare sender d)) := by
  unfold peerNote noted
  by_cases h : sender = 0 ∨ sender = nd.me
  · rw [if_pos h, if_pos h]
    exact ⟨rfl, rfl, rfl, rfl⟩
  · rw [if_neg h, if_neg h]
    exact ⟨rfl, rfl, rfl, rfl⟩

theorem noted_congr {c c' : State nd} (h : c.SameTables c') (env : Env) (sender : UInt32)
    (d : DigestPb) : c'.noted env sender d = c.noted env sender d := by
  simp only [noted, slotFor, h.peers, digestCompare_congr_tables h.doc h.kind]

/-- **What a digest can do to the tables**: only record its sender. -/
theorem onDigest_tables :
    { c with peers := c.noted env sender d }.SameTables (c.onDigest env sender d) := by
  have ho := c.sameTables_observe env d.maxStamp
  have hb := ho.trans (noteBackstop_sameTables (c.observe env d.maxStamp) sender d)
  have hn := peerNote_tables ((c.observe env d.maxStamp).noteBackstop sender d) env sender d
  rw [digestCompare_congr_tables hb.doc hb.kind, noted_congr hb] at hn
  have hn : { c with peers := c.noted env sender d }.SameTables _ :=
    ⟨hn.doc.trans hb.doc, hn.kind.trans hb.kind, hn.pinned.trans hb.pinned, hn.peers⟩
  unfold onDigest
  simp only [digestCompare_congr_tables ho.doc ho.kind]
  split
  · exact hn.trans (sameTables_count _ _)
  split
  · exact hn.trans (sameTables_count _ _)
  · have hm := hn.trans (sameTables_count _ .digestRxMismatch)
    exact hm.trans (pullStart_quiet _ _ _ _ _).toSameTables

theorem noted_of_peer {sender : UInt32} (h0 : sender ≠ 0) (hme : sender ≠ nd.me) (c : State nd)
    (env : Env) (d : DigestPb) :
    c.noted env sender d = c.peers.note (c.slotFor env sender d) :=
  if_neg (not_or.mpr ⟨h0, hme⟩)

theorem onDigest_peers : (c.onDigest env sender d).peers = c.noted env sender d :=
  (onDigest_tables c env sender d).peers

/-- A digest as it arrives. -/
structure Heard where
  env : Env
  sender : UInt32
  digest : DigestPb

def hear (h : Heard) : State nd := c.onDigest h.env h.sender h.digest

/-- The verdict on a digest in the state it arrives in. -/
def State.Agrees (h : Heard) : Prop :=
  (c.digestCompare h.sender h.digest).comparable = true ∧
    (c.digestCompare h.sender h.digest).isMatch = true

/-- The digest displaces no peer that disagrees inside the window. -/
def KeepsDissent (h : Heard) : Prop :=
  h.sender ≠ 0 → h.sender ≠ nd.me → ∀ q, c.peers.evicts h.sender = some q →
    q.agreed = true ∨ q.status nd h.env.nowSec = .stale

theorem keepsDissent_of_room {c : State nd} {h : Heard} (hroom : c.peers.evicts h.sender = none) :
    KeepsDissent c h := by
  intro _ _ q hq
  rw [hroom] at hq
  cases hq

theorem Node.peerSlots_pos (nd : Node) : 0 < nd.peerSlots := by
  have := nd.peerSlots_range
  omega

/-- A slot the code calls stale is outside the window, whatever the 32-bit clock
has done meanwhile. -/
theorem elapsed_of_stale {p : Peer} {heard now : Env} (hp : p.heardUptimeSec = heard.nowSec)
    (hle : heard.uptimeMs ≤ now.uptimeMs) (h : p.status nd now.nowSec = .stale) :
    heard.uptimeMs / 1000 + nd.fleetWindowSec < now.uptimeMs / 1000 := by
  have hage : nd.fleetWindowSec < (p.age now.nowSec).toNat := by
    by_contra hn
    rw [Peer.status, if_neg hn] at h
    split at h
    · cases h
    · split at h <;> cases h
  unfold Peer.age at hage
  split at hage
  · rename_i hgt
    rw [UInt32.toNat_sub_of_le _ _ (UInt32.le_of_lt hgt), hp] at hage
    simp only [Env.nowSec, UInt32.toNat_ofNat'] at hage
    omega
  · exact absurd hage (Nat.not_lt_zero _)

/-- What is known of the last digest of a peer: its slot, that it agreed, or that
it is outside the window by now. -/
def Remembered (es : List Heard) (s : State nd) : Prop :=
  ∀ done h rest, es = done ++ h :: rest → h.sender ≠ 0 → h.sender ≠ nd.me →
    (∀ h' ∈ rest, h'.sender ≠ h.sender) →
    (∃ p ∈ s.peers.peers, p.nodeId = h.sender ∧ p.heardUptimeSec = h.env.nowSec ∧
      (p.agreed = true → (run hear c done).Agrees h)) ∨
    (run hear c done).Agrees h ∨
    ∃ h' ∈ rest, h.env.uptimeMs / 1000 + nd.fleetWindowSec < h'.env.uptimeMs / 1000

theorem Remembered.step {c : State nd} {es : List Heard} {e : Heard}
    (h : Remembered c es (run hear c es)) (hok : KeepsDissent (run hear c es) e)
    (htime : ∀ h' ∈ es, h'.env.uptimeMs ≤ e.env.uptimeMs) :
    Remembered c (es ++ [e]) (hear (run hear c es) e) := by
  intro done h' rest he h0 hme hlast
  rcases eq_nil_or_concat rest with rfl | ⟨init, last, rfl⟩
  · -- the digest that just arrived
    obtain ⟨rfl, hh⟩ := append_inj' he rfl
    obtain rfl := (cons.inj hh).1
    refine .inl ⟨(run hear c es).slotFor e.env e.sender e.digest, ?_, rfl, rfl, ?_⟩
    · rw [hear, onDigest_peers, noted_of_peer h0 hme]
      exact PeerTable.mem_note_self _ nd.peerSlots_pos _
    · intro ha
      exact Bool.and_eq_true_iff.mp ha
  · rw [concat_eq_append, ← cons_append, ← append_assoc] at he
    obtain ⟨hes, hh⟩ := append_inj' he rfl
    obtain rfl := (cons.inj hh).1
    have hne : e.sender ≠ h'.sender := hlast e (by simp)
    rcases h done h' init hes h0 hme (fun x hx => hlast x (by simp [hx])) with
      ⟨p, hp, hid, hsec, hag⟩ | hag | ⟨x, hx, hout⟩
    · by_cases hskip : e.sender = 0 ∨ e.sender = nd.me
      · refine .inl ⟨p, ?_, hid, hsec, hag⟩
        rw [hear, onDigest_peers, noted, if_pos hskip]
        exact hp
      obtain ⟨he0, heme⟩ := not_or.mp hskip
      have hkeep := PeerTable.mem_note_of_ne nd.peerSlots_pos hp
        (p := (run hear c es).slotFor e.env e.sender e.digest) (fun hk => hne (hk.symm.trans hid))
      rcases hkeep with hstay | hev
      · refine .inl ⟨p, ?_, hid, hsec, hag⟩
        rw [hear, onDigest_peers, noted_of_peer he0 heme]
        exact hstay
      rcases hok he0 heme p hev with hagr | hstale
      · exact .inr (.inl (hag hagr))
      · refine .inr (.inr ⟨e, by simp, elapsed_of_stale hsec ?_ hstale⟩)
        exact htime h' (by rw [hes]; simp)
    · exact .inr (.inl hag)
    · exact .inr (.inr ⟨x, by simp [hx], hout⟩)

/-- **The fleet view speaks for every peer heard in the window**, in every run
that evicts no peer while it disagrees. -/
theorem fleetConverged_covers_window (c : State nd) (es : List Heard)
    (htime : es.Pairwise fun a b => a.env.uptimeMs ≤ b.env.uptimeMs)
    (hok : Guarded hear KeepsDissent c es) (now : Env)
    (hnow : ∀ h ∈ es, h.env.uptimeMs ≤ now.uptimeMs)
    (hconv : (run hear c es).fleetConverged now = true) :
    ∀ done h rest, es = done ++ h :: rest → h.sender ≠ 0 → h.sender ≠ nd.me →
      (∀ h' ∈ rest, h'.sender ≠ h.sender) →
      now.uptimeMs / 1000 - h.env.uptimeMs / 1000 ≤ nd.fleetWindowSec →
      (run hear c done).Agrees h := by
  have hinv : es.Pairwise (fun a b => a.env.uptimeMs ≤ b.env.uptimeMs) →
      Remembered c es (run hear c es) := by
    refine run_invariant (fun es s => es.Pairwise (fun a b => a.env.uptimeMs ≤ b.env.uptimeMs) →
      Remembered c es s) ?_ ?_ es hok
    · intro _ done h rest he
      simp at he
    · intro es e ih hkeep hpair
      obtain ⟨hp, _, hlast⟩ := pairwise_append.mp hpair
      exact (ih hp).step hkeep fun h' hh' => hlast h' hh' e (mem_singleton_self e)
  intro done h rest he h0 hme hlast hwindow
  rcases hinv htime done h rest he h0 hme hlast with ⟨p, hp, _, _, hag⟩ | hag | ⟨x, hx, hout⟩
  · exact hag (agreed_of_converged hconv hp)
  · exact hag
  · have hx := hnow x (by rw [he]; simp [hx])
    omega

end Fleet

/-- What a node with an empty document advertises. -/
def emptyDigest : DigestPb := ⟨0, 0, Stamp.unset, .full, 0, 0⟩

theorem fleetConverged_covers_window_two :
    (State.init sampleNode (sampleEnv 0)).Agrees ⟨sampleEnv 0, 2, emptyDigest⟩ :=
  fleetConverged_covers_window (init sampleNode (sampleEnv 0))
    [⟨sampleEnv 0, 2, emptyDigest⟩, ⟨sampleEnv 1000, 3, emptyDigest⟩] (by simp [sampleEnv])
    (guarded_cons.mpr ⟨keepsDissent_of_room (by decide +kernel),
      guarded_cons.mpr ⟨keepsDissent_of_room (by decide +kernel), guarded_nil⟩⟩)
    (sampleEnv 2000) (by simp [sampleEnv]) (by decide +kernel) [] _ _ rfl (by decide) (by decide)
    (by simp) (by decide)

/-- A third peer pushes out the one that disagreed two seconds ago, and the fleet
reads as converged. -/
theorem fleetConverged_forgets_dissent :
    let c := State.init sampleNode (sampleEnv 0)
    let dissent : Heard := ⟨sampleEnv 0, 2, { emptyDigest with docHash := 1 }⟩
    (run hear c [dissent, ⟨sampleEnv 1000, 3, emptyDigest⟩,
      ⟨sampleEnv 2000, 4, emptyDigest⟩]).fleetConverged (sampleEnv 2000) = true ∧
    ¬ c.Agrees dissent := by
  refine ⟨by decide +kernel, ?_⟩
  intro h
  exact absurd h.2 (by decide +kernel)

end Zephyrtastic.Cluster
