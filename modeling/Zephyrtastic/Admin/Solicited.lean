import Zephyrtastic.Admin.Node
import Zephyrtastic.NodeDb.Pinning

/-!
# Which admin packets the phone gets

An admin packet to this node reaches the phone only by taking a getter out of the
table, and no getter is in the table twice, or again after it was answered. The
table is asked about packets to this node only.
-/

namespace Zephyrtastic.Admin

open List Option

open NodeDb (Key)
open Pki (Content)
open Router (Wire Frame Reading Action Injection dataOf portAdmin broadcast)
open Run

/-! ### The table and the getters -/

/-- A slot stands for a getter. -/
structure Noted (cfg : Config) (g : Getter) (o : Outstanding) : Prop where
  dest : o.dest = g.dest
  remote : g.dest ≠ 0 ∧ g.dest ≠ broadcast ∧ g.dest ≠ cfg.router.nodeId
  id : o.requestId = g.id
  sentMs : o.sentMs = g.sentMs
  key : o.key = g.key
  expected : ∃ variant sub, cfg.pb.peekVariant g.payload = some (variant, sub) ∧
    variant.responseFor = some o.expected

/-- The getters in the table were passed on and not answered, and none is there twice. -/
structure Tracked {cfg : Config} (n : Node cfg) : Prop where
  store : n.keys.db.WellFormed
  slot : ∀ i, (n.table i).dest ≠ 0 → (n.table i).serial ∉ n.answered ∧
    ∃ g, n.relayed[(n.table i).serial]? = some g ∧ Noted cfg g (n.table i)
  distinct : ∀ i j, (n.table i).dest ≠ 0 → (n.table j).dest ≠ 0 →
    (n.table i).serial = (n.table j).serial → i = j
  known : ∀ m ∈ n.answered, m < n.relayed.length
  once : n.answered.Nodup
  past : ∀ g ∈ n.relayed, g.sent = true ∧ g.sentMs ≤ n.now

section
variable {cfg : Config} {n : Node cfg} {a : Arrival} {w : Wire} {c : Content}

theorem Tracked.serial_lt (h : Tracked n) {i : Fin 8} (hi : (n.table i).dest ≠ 0) :
    (n.table i).serial < n.relayed.length := by
  obtain ⟨-, g, hg, -⟩ := h.slot i hi
  exact (List.getElem?_eq_some_iff.mp hg).1

theorem Tracked.init (ms : Nat) {keys : Pki.State} (hwf : keys.db.WellFormed) :
    Tracked (Node.init cfg ms keys) :=
  ⟨hwf, fun _ h => absurd rfl h, fun _ _ h => absurd rfl h, nofun, nodup_nil, nofun⟩

theorem Tracked.wait (h : Tracked n) (elapsed : Nat) : Tracked (n.wait elapsed) :=
  { h with past := fun g hg => ⟨(h.past g hg).1, Nat.le_add_right_of_le (h.past g hg).2⟩ }

theorem Tracked.enter (h : Tracked n) {q : Request} {payload : Bytes} {o : Outstanding}
    (hsent : q.sent = true) (hserial : o.serial = n.relayed.length)
    (hnoted : Noted cfg ⟨q.dest, o.requestId, payload, n.now, o.key, q.sent⟩ o) :
    Tracked (n.enter q payload o) := by
  have hput (i : Fin 8) : (n.enter q payload o).table i =
      if i = n.table.slotFor then o else n.table i := by
    by_cases hi : i = n.table.slotFor
    · rw [if_pos hi, hi]
      exact n.table.put_self _ o
    · rw [if_neg hi]
      exact n.table.put_ne hi o
  have hlast : (n.enter q payload o).relayed[n.relayed.length]? =
      some ⟨q.dest, o.requestId, payload, n.now, o.key, q.sent⟩ := getElem?_concat_length
  constructor
  · exact h.store
  · intro i hi
    rw [hput] at hi ⊢
    split at hi
    · next hslot =>
      rw [if_pos hslot, hserial]
      exact ⟨fun hmem => Nat.lt_irrefl _ (h.known _ hmem), _, hlast, hnoted⟩
    next hslot =>
    rw [if_neg hslot]
    obtain ⟨hnot, g, hg, hn⟩ := h.slot i hi
    exact ⟨hnot, g, by rw [← hg]; exact getElem?_append_left (h.serial_lt hi), hn⟩
  · intro i j hi hj hsame
    rw [hput] at hi hj
    rw [hput, hput] at hsame
    by_cases hi' : i = n.table.slotFor <;> by_cases hj' : j = n.table.slotFor
    · rw [hi', hj']
    · rw [if_pos hi', if_neg hj', hserial] at hsame
      rw [if_neg hj'] at hj
      exact absurd hsame (Nat.ne_of_gt (h.serial_lt hj))
    · rw [if_neg hi', if_pos hj', hserial] at hsame
      rw [if_neg hi'] at hi
      exact absurd hsame (Nat.ne_of_lt (h.serial_lt hi))
    · rw [if_neg hi', if_neg hj'] at hsame
      rw [if_neg hi'] at hi
      rw [if_neg hj'] at hj
      exact h.distinct i j hi hj hsame
  · intro m hm
    have := h.known m hm
    simp only [Node.enter, length_append, length_singleton]
    omega
  · exact h.once
  · intro g hg
    rcases mem_append.mp hg with hold | hnew
    · exact h.past g hold
    · rw [mem_singleton.mp hnew]
      exact ⟨hsent, Nat.le_refl _⟩

theorem Tracked.noteOutgoingRequest (h : Tracked n) {q : Request} (hsent : q.sent = true) :
    Tracked (n.noteOutgoingRequest q) := by
  unfold Node.noteOutgoingRequest
  split
  · exact h
  split
  · exact h
  next hdest =>
  simp only [not_or, not_not] at hdest
  split
  · exact h
  next variant sub hpeek =>
  split
  · exact h
  next expected hexpected =>
  exact h.enter hsent rfl ⟨rfl, hdest.2, rfl, rfl, rfl, variant, sub, hpeek, hexpected⟩

theorem Tracked.loosen (h : Tracked n) {m : Node cfg} (hstore : m.keys.db.WellFormed)
    (hloose : Loosened n.table m.table) (hrelayed : m.relayed = n.relayed) (hnow : m.now = n.now)
    {found : Option Nat} (hanswered : m.answered = found.toList ++ n.answered)
    (hfound : ∀ s, found = some s → ∃ j, (n.table j).serial = s ∧ (n.table j).dest ≠ 0 ∧
      (m.table j).dest = 0) : Tracked m := by
  have hsame {i : Fin 8} (hi : (m.table i).dest ≠ 0) : m.table i = n.table i :=
    (hloose i).resolve_right hi
  -- the slot that was answered is free now, so it is none of those still in use
  have hother {i : Fin 8} (hi : (m.table i).dest ≠ 0) : some (n.table i).serial ≠ found := by
    intro hs
    obtain ⟨j, hserial, hused, hfree⟩ := hfound _ hs.symm
    obtain rfl : j = i := h.distinct j i hused (hsame hi ▸ hi) hserial
    exact hi hfree
  refine ⟨hstore, fun i hi => ?_, fun i j hi hj => ?_, ?_, ?_, ?_⟩
  · rw [hsame hi, hanswered, hrelayed]
    obtain ⟨hnot, g, hg, hn⟩ := h.slot i (hsame hi ▸ hi)
    refine ⟨fun hmem => ?_, g, hg, hn⟩
    rcases mem_append.mp hmem with hnew | hold
    · exact hother hi (mem_toList.mp hnew).symm
    · exact hnot hold
  · rw [hsame hi, hsame hj]
    exact h.distinct i j (hsame hi ▸ hi) (hsame hj ▸ hj)
  · rw [hanswered, hrelayed]
    intro s hs
    rcases mem_append.mp hs with hnew | hold
    · obtain ⟨j, hserial, hused, -⟩ := hfound s (mem_toList.mp hnew)
      rw [← hserial]
      exact h.serial_lt hused
    · exact h.known s hold
  · rw [hanswered]
    cases found with
    | none => exact h.once
    | some s =>
      obtain ⟨j, hserial, hused, -⟩ := hfound s rfl
      exact nodup_cons.mpr ⟨hserial ▸ (h.slot j hused).1, h.once⟩
  · rw [hrelayed, hnow]
    exact h.past

/-! ### A frame -/

theorem taken_spec (n : Node cfg) (a : Arrival) (w : Wire) :
    Loosened n.table (n.taken a w).1 ∧
      ∀ i, (n.taken a w).2 = some i → ∃ r, n.reply a w = some r ∧ r.requestId ≠ 0 ∧
        ∃ j, (n.table j).serial = i ∧ Taken n.table (n.taken a w).1 r j := by
  unfold Node.taken
  cases n.reply a w with
  | none => exact ⟨fun _ => .inl rfl, nofun⟩
  | some r =>
    obtain ⟨hloose, htook⟩ := takeSolicitedResponse_spec n.table r
    refine ⟨hloose, fun i hi => ?_⟩
    obtain ⟨hid, -, j, hserial, htaken⟩ := htook i hi
    exact ⟨r, rfl, hid, j, hserial, htaken⟩

theorem Taken.used {t u : Table} {r : Reply} {j : Fin 8} (h : Taken t u r j) : (t j).dest ≠ 0 := by
  have := h.answeredBy
  simp only [Outstanding.answeredBy, Bool.and_eq_true, decide_eq_true_eq] at this
  exact this.1.1.1

theorem reading_wellFormed (hwf : n.keys.db.WellFormed) (a : Arrival) (w : Wire) :
    (n.reading a w).2.db.WellFormed := by
  rcases Router.reading_db cfg.router (a.pki cfg) n.keys (n.frameOf a) w with hsame | ⟨key, hnew⟩
  · rw [Node.reading, hsame]
    exact hwf
  have hstep : (NodeDb.step cfg.db n.keys.db
      (.commitAdminPubkey (n.frameOf a).clock.env w.src key)).WellFormed :=
    NodeDb.step_wellFormed hwf rfl
  rw [Node.reading, hnew]
  exact hstep

theorem keysAfter_wellFormed (hwf : n.keys.db.WellFormed) (a : Arrival) (w : Wire) :
    (n.keysAfter a w).db.WellFormed := by
  have hread := reading_wellFormed hwf a w
  have hnote : (NodeDb.step cfg.db (n.reading a w).2.db
      (.noteSigner a.frame.clock.env w.src)).WellFormed := NodeDb.step_wellFormed hread rfl
  unfold Node.keysAfter
  split
  · split
    · exact hnote
    · exact hread
  · exact hwf

theorem Tracked.receive (h : Tracked n) (a : Arrival) : Tracked (n.receive a).1 := by
  unfold Node.receive
  split
  · exact h
  next w hw =>
  obtain ⟨hloose, htook⟩ := taken_spec n a w
  refine h.loosen (keysAfter_wellFormed h.store a w) hloose rfl rfl rfl fun s hs => ?_
  obtain ⟨r, -, -, j, hserial, htaken⟩ := htook s hs
  exact ⟨j, hserial, htaken.used, htaken.freed⟩

variable {key : Key}

theorem keysAfter_copyPubkey (hwf : n.keys.db.WellFormed) (hsrc : w.src ≠ 0)
    (hdecodes : Router.decodes cfg.router n.router (n.frameOf a).rx w = true)
    (hkey : (n.keysAfter a w).db.copyPubkey w.src = some key) :
    (n.reading a w).2.db.copyPubkey w.src = some key := by
  rw [Node.keysAfter, if_pos hdecodes] at hkey
  split at hkey
  · have hair : (NodeDb.Event.noteSigner a.frame.clock.env w.src).fromAir = true := rfl
    rcases NodeDb.step_copyPubkey cfg.db w.src (reading_wellFormed hwf a w) hair hsrc with
      hsame | hnone | ⟨e, k, hwritten, -⟩
    · exact hsame.symm.trans hkey
    · cases hnone.symm.trans hkey
    · cases hwritten
  · exact hkey

/-- The frame opens under the key on file for its sender, or the store has, or can make, a record
for an admin key that opens it. -/
def KeyStored (n : Node cfg) (a : Arrival) (w : Wire) : Prop :=
  (∃ key plain, n.keys.peerPub w.src = some key ∧
    a.cipher.decryptWith key w.src w.id w.payload = .ok plain) ∨
  (n.keys.db.getOrCreate cfg.db a.frame.clock.env w.src).isSome

theorem peerPub_of_copyPubkey {k : Pki.State} {num : UInt32}
    (h : k.db.copyPubkey num = some key) : k.peerPub num = some key := by
  rw [Pki.State.peerPub, h]
  rfl

theorem commitAdminPubkey_copyPubkey {db : NodeDb.State} (hwf : db.WellFormed) {env : NodeDb.Env}
    {num : UInt32} (hnum : num ≠ 0 ∧ num ≠ broadcast ∧ num ≠ cfg.router.nodeId)
    (hroom : (db.getOrCreate cfg.db env num).isSome) (key : Key) :
    (db.after (db.commitAdminPubkey cfg.db env num key)).copyPubkey num = some key := by
  obtain ⟨⟨i, u⟩, hu⟩ := isSome_iff_exists.mp hroom
  have hmakes : (NodeDb.Event.commitAdminPubkey env num key).makes cfg.db = some (env, num) :=
    if_neg (by rintro (h | h | h); exacts [hnum.1 h, hnum.2.1 h, hnum.2.2 h])
  obtain ⟨-, -, e, hfetched, -⟩ := NodeDb.getOrCreate_over hwf hmakes hu
  have hwritten : db.written cfg.db (.commitAdminPubkey env num key) = some (e, key) := by
    rw [NodeDb.State.written, hfetched]
    rfl
  exact (NodeDb.written_copyPubkey hwf rfl hwritten).2

theorem opened_by_stored (hwf : n.keys.db.WellFormed)
    (hsrc : w.src ≠ 0 ∧ w.src ≠ broadcast ∧ w.src ≠ cfg.router.nodeId)
    (hstored : KeyStored n a w) (hpki : (n.reading a w).1.pkiEncrypted = true)
    (hc : (n.reading a w).1.content = some c)
    (hkey : (n.reading a w).2.db.copyPubkey w.src = some key) :
    Pki.Opens (a.pki cfg) key w.src w.id w.payload c := by
  obtain ⟨c', hok, heq⟩ := Router.reading_opened hpki
  have heq : n.reading a w = (⟨some c', true, none⟩, _) := heq
  rw [heq] at hc hkey
  cases hc
  rcases hstored with ⟨key', plain, hpeer, hopen⟩ | hroom
  · have hread : n.keys.tryDecryptPki (a.pki cfg) (n.frameOf a).clock w.src w.id w.payload =
        (Pki.State.readContent (a.pki cfg) plain, n.keys) :=
      Pki.tryDecryptPki_of_peer _ hpeer hopen
    rw [hread] at hok hkey
    obtain rfl := mem_unique hpeer (peerPub_of_copyPubkey hkey)
    exact ⟨plain, hopen, hok⟩
  · have hopened := Pki.tryDecryptPki_ok hok
    cases hopened with
    | peer k hk h ht =>
      rw [ht] at hkey
      obtain rfl := mem_unique hk (peerPub_of_copyPubkey hkey)
      exact h
    | admin k hmem h hpending hdb =>
      rw [hdb] at hkey
      have hnew := commitAdminPubkey_copyPubkey hwf hsrc hroom k
      obtain rfl := mem_unique hnew hkey
      exact h

/-- An admin packet to this node that the phone gets has taken a getter. -/
theorem delivered_taken (hw : a.frame.rx.wire = some w)
    (hc : (n.reading a w).1.content = some c) (hport : c.portnum = portAdmin)
    (hdest : w.dest = cfg.router.nodeId) (hd : .deliver w.key ∈ (n.routed a w).2) :
    Router.decodes cfg.router n.router (n.frameOf a).rx w = true ∧
      ∃ i, (n.taken a w).2 = some i := by
  have hwire : (n.answeredRx a w).wire = some w := hw
  obtain ⟨hdecodes, d, hdecode, -, hmem⟩ := Router.handed_processRx hwire rfl hd
  have hdata : d = dataOf c := by
    have hread : (n.reading a w).1.decode = .decoded d := hdecode
    rw [Reading.decode, hc] at hread
    exact (Router.Decode.decoded.inj hread).symm
  have hsrc : w.src ≠ cfg.router.nodeId := by
    intro h
    simp [Router.decodes, h] at hdecodes
  have hremote : Router.isRemoteAdmin cfg.router w.packet d = true := by
    simp [Router.isRemoteAdmin, hdata, dataOf, hport, Wire.packet, hdest, hsrc]
  refine ⟨hdecodes, isSome_iff_exists.mp ?_⟩
  by_contra hnone
  have hnone : ¬ (n.answeredRx a w).answers.takeSolicitedResponse = true := hnone
  have hadmin : Router.deliverDecoded cfg.router (n.answeredRx a w).answers w.packet d ⊆
      [.admin w.key] := by
    unfold Router.deliverDecoded
    split
    · exact nil_subset _
    split
    · exact fun _ h => h
    · exact nil_subset _
  cases mem_singleton.mp (hadmin hmem)

theorem reply_some {r : Reply} (hc : (n.reading a w).1.content = some c)
    (hr : n.reply a w = some r) :
    r.src = w.src ∧ r.requestId = c.requestId ∧
      r.pkiEncrypted = (n.reading a w).1.pkiEncrypted ∧
      cfg.pb.peekVariant c.payload = some (r.variant, r.sub) ∧
      r.key = (n.keysAfter a w).db.copyPubkey w.src ∧ r.now = n.now := by
  unfold Node.reply at hr
  rw [hc] at hr
  dsimp only at hr
  split at hr
  · obtain ⟨⟨variant, sub⟩, hpeek, rfl⟩ := map_eq_some_iff.mp hr
    exact ⟨rfl, rfl, rfl, hpeek, rfl, rfl⟩
  · cases hr

/-! ### Runs -/

/-- The send path takes the phone's packet. -/
def Event.sent : Event → Bool
  | .relay q => q.sent
  | _ => true

theorem Tracked.step (h : Tracked n) {e : Nat × Event} (hsent : e.2.sent = true) :
    Tracked (step cfg n e) := by
  obtain ⟨elapsed, ev⟩ := e
  have h := h.wait elapsed
  cases ev with
  | relay q => exact h.noteOutgoingRequest hsent
  | frame a => exact h.receive a
  | downlink inj | respond random | pki pending tokens stampMs =>
    exact { h with }
  | store ev hev => exact { h with store := NodeDb.running_wellFormed h.store hev }

theorem run_tracked (ms : Nat) {keys : Pki.State} (hwf : keys.db.WellFormed)
    (es : List (Nat × Event)) (hsent : ∀ e ∈ es, e.2.sent = true) :
    Tracked (run (step cfg) (.init cfg ms keys) es) := by
  have hguard : Guarded (step cfg) (fun _ e => e.2.sent = true) (.init cfg ms keys) es :=
    fun done e hp => hsent e (hp.subset (by simp))
  exact run_keeps Tracked (Tracked.init ms hwf) (fun _ _ h hok => h.step hok) hguard

variable (n a w c) in
/-- The packet answers a getter that was passed on: to its sender, at most 300 seconds before,
under the id that it echoes, with the variant that answers it; the getter was not answered yet
and is from now on. If a key was held for the node when the getter went out, the packet came over
PKC, and that key opens it. -/
structure Solicited (i : Nat) (g : Getter) : Prop where
  relayed : n.relayed[i]? = some g ∧ g.sent = true
  unanswered : i ∉ n.answered
  answered : (n.receive a).1.answered = i :: n.answered
  dest : g.dest = w.src
  id : c.requestId = g.id ∧ g.id ≠ 0
  timely : g.sentMs ≤ n.now ∧ n.now ≤ g.sentMs + outstandingMs
  variant : ∃ asked sub expected sub', cfg.pb.peekVariant g.payload = some (asked, sub) ∧
    asked.responseFor = some expected ∧ cfg.pb.peekVariant c.payload = some (expected, sub')
  key : ∀ key, g.key = some key → (n.reading a w).1.pkiEncrypted = true ∧
    (KeyStored n a w → Pki.Opens (a.pki cfg) key w.src w.id w.payload c)

theorem Tracked.solicited (h : Tracked n) (hw : a.frame.rx.wire = some w)
    (hc : (n.reading a w).1.content = some c) (hport : c.portnum = portAdmin)
    (hdest : w.dest = cfg.router.nodeId) (hd : .deliver w.key ∈ (n.receive a).2) :
    ∃ i g, Solicited n a w c i g := by
  have hacts : (n.receive a).2 = (n.routed a w).2 := by
    rw [Node.receive, hw]
  rw [hacts] at hd
  obtain ⟨hdecodes, i, hi⟩ := delivered_taken hw hc hport hdest hd
  obtain ⟨r, hr, hid, j, hserial, htaken⟩ := (taken_spec n a w).2 i hi
  obtain ⟨hsrc, hrid, hpki, hpeek, hkey, hnow⟩ := reply_some hc hr
  obtain ⟨hnot, g, hg, hnoted⟩ := h.slot j htaken.used
  rw [hserial] at hnot hg
  have hanswers := htaken.answeredBy
  simp only [Outstanding.answeredBy, Bool.and_eq_true, decide_eq_true_eq] at hanswers
  obtain ⟨⟨⟨-, hdest'⟩, hvariant⟩, hrequest⟩ := hanswers
  have htimely := htaken.timely
  simp only [Outstanding.lapsed, decide_eq_false_iff_not, Nat.not_lt, hnow] at htimely
  obtain ⟨asked, sub, hasked, hexpected⟩ := hnoted.expected
  have hfrom : g.dest = w.src := hnoted.dest.symm.trans (hdest'.trans hsrc)
  refine ⟨i, g, ⟨hg, (h.past g (mem_of_getElem? hg)).1⟩, hnot, ?_, hfrom, ⟨?_, ?_⟩,
    ⟨(h.past g (mem_of_getElem? hg)).2, hnoted.sentMs ▸ htimely⟩,
    ⟨asked, sub, _, r.sub, hasked, hexpected, hvariant ▸ hpeek⟩, fun key hgkey => ?_⟩
  · rw [Node.receive, hw]
    change (n.taken a w).2.toList ++ n.answered = _
    rw [hi]
    rfl
  · rw [← hrid, ← hrequest, hnoted.id]
  · rw [← hnoted.id, hrequest]
    exact hid
  · -- the slot has the getter's key, so the table asked for it
    have hok := htaken.keyOk
    rw [Outstanding.keyOk, hnoted.key, hgkey] at hok
    simp only [reduceCtorEq, decide_false, Bool.false_or, Bool.and_eq_true,
      decide_eq_true_eq] at hok
    have hflag : (n.reading a w).1.pkiEncrypted = true := hpki.symm.trans hok.1
    refine ⟨hflag, fun hstored => ?_⟩
    have hremote := hnoted.remote
    rw [hfrom] at hremote
    exact opened_by_stored h.store hremote hstored hflag hc
      (keysAfter_copyPubkey h.store hremote.1 hdecodes (hkey.symm.trans hok.2))

end

theorem inject_admin_kept (rc : Router.Config) (s : Router.State rc) (inj : Injection)
    (hread : inj.readsAdmin rc) (k : Router.Key) :
    .deliver k ∉ (Router.injectDownlink rc s inj).2.2 := by
  by_cases hinit : inj.initialized = true
  swap
  · simp [Router.injectDownlink, hinit]
  by_cases hopen : Router.injectIsAdmin inj.mesh.payload = true
  · simp [Router.injectDownlink, hinit, hopen]
  cases hdup : s.cache.check rc.ttlMs inj.now inj.mesh.key with
  | true => simp [Router.injectDownlink, hinit, hopen, hdup]
  | false =>
    rw [Router.injectDownlink_new hinit (Bool.eq_false_of_not_eq_true hopen) hdup hread]
    rcases Router.injectRelay rc inj with _ | (e | w) <;> simp

/-- Whatever happened before, with every getter passed on taken by the send path: an admin packet
to this node reaches the phone only as the answer to a getter, each getter is answered once at
most, and no message from the broker brings an admin packet to the phone. -/
theorem phone_gets_solicited (cfg : Config) (ms : Nat) {keys : Pki.State}
    (hwf : keys.db.WellFormed) (es : List (Nat × Event)) (hsent : ∀ e ∈ es, e.2.sent = true)
    (elapsed : Nat) :
    let n := (run (step cfg) (.init cfg ms keys) es).wait elapsed
    n.answered.Nodup ∧
    (∀ a w c, a.frame.rx.wire = some w → (n.reading a w).1.content = some c →
      c.portnum = portAdmin → .deliver w.key ∈ (n.receive a).2 → w.dest = cfg.router.nodeId →
      ∃ i g, Solicited n a w c i g) ∧
    ∀ inj k, inj.readsAdmin cfg.router → .deliver k ∉ (n.inject inj).2 := by
  intro n
  have h : Tracked n := (run_tracked ms hwf es hsent).wait elapsed
  refine ⟨h.once, fun a w c hw hc hport hd hdest => h.solicited hw hc hport hdest hd, ?_⟩
  intro inj k hread
  exact inject_admin_kept cfg.router n.router { inj with ms := n.now } hread k

/-- Node 0x22 is asked for its owner. -/
def toyGetter (sent : Bool) : Nat × Event :=
  (1000, .relay ⟨0x22, 5, some ⟨portAdmin, 0, [3]⟩, 0, sent⟩)

/-- Its response, under its key. -/
def toyResponse : Bytes := [7, 6, 5, 4] ++ replicate 12 0

theorem owner_response_solicited :
    let n := (run (step toyNode) (.init toyNode 0 toyKeys) [toyHeardPeer, toyGetter true]).wait 1000
    let a := toyArrival 0x11 9 toyResponse none
    let w : Wire := ⟨0x11, 0x22, 9, 3, false, false, 3, 0, 0, 0, toyResponse⟩
    let c : Content := ⟨portAdmin, 5, 4 :: List.replicate 12 0⟩
    .deliver w.key ∈ (n.receive a).2 ∧ KeyStored n a w ∧ ∃ i g, Solicited n a w c i g := by
  intro n a w c
  have hd : .deliver w.key ∈ (n.receive a).2 := by decide +kernel
  have hstored : KeyStored n a w :=
    .inl ⟨NodeDb.toyKey 7, toyResponse.drop 1, by decide +kernel, by rfl⟩
  exact ⟨hd, hstored, (phone_gets_solicited toyNode 0 NodeDb.toyStore_wellFormed
    [toyHeardPeer, toyGetter true] (by decide) 1000).2.1 a w c rfl (by decide +kernel) rfl hd rfl⟩

/-- The response, under the key of an admin. -/
def toyOther : Bytes := 9 :: toyResponse.drop 1

/-- A node with room for one record. -/
def toyCrowded : Config := { toyNode with maxNodes := 1 }

/-- Node 0x22 is asked, and then loses its record to a node that stays. -/
def toyCrowding : List (Nat × Event) :=
  [toyHeardPeer, toyGetter true, (0, .store (NodeDb.toyHeard 2 8) rfl),
    (0, .store (.setFavorite 8 true) rfl)]

/-- Three packets that reach the phone: an owner response to everyone, at a node that has passed
on no getter; one to this node that answers a getter the send path has refused; and one that an
admin key opens, which is not the key the getter's node had and finds no room in the store. -/
theorem unsolicited_reaches_phone : (let n := Node.init toyNode 0 toyKeys
     let a := toyArrival broadcast 9 [] (some ⟨portAdmin, 5, [4]⟩)
     .deliver ⟨0x22, 9⟩ ∈ (n.receive a).2 ∧ n.relayed = []) ∧
    (let n := run (step toyNode) (.init toyNode 0 toyKeys) [toyHeardPeer, toyGetter false]
     let a := toyArrival 0x11 9 toyResponse none
     .deliver ⟨0x22, 9⟩ ∈ (n.receive a).2 ∧ n.relayed.all (!·.sent)) ∧
    let n := run (step toyCrowded) (.init toyCrowded 0 toyKeys) toyCrowding
    let a := { toyArrival 0x11 9 toyOther none with adminKey := [(NodeDb.toyKey 9).bytes] }
    .deliver ⟨0x22, 9⟩ ∈ (n.receive a).2 ∧ n.relayed.map (·.key) = [some (NodeDb.toyKey 7)] ∧
      (a.cipher.decryptWith (NodeDb.toyKey 7) 0x22 9 toyOther).isOk = false := by
  decide +kernel

end Zephyrtastic.Admin
