import Zephyrtastic.KeyVerify.Session
import Zephyrtastic.NodeDb.Forget
import Zephyrtastic.NodeDb.Pinning

/-!
# The key that is marked verified

The user compares a code that both keys went into, and then `accept` marks as
verified whatever key the lookup returns: the store's, else the pending one. The
store goes on learning keys while the session runs.
-/

namespace Zephyrtastic.NodeDb

section
variable {cfg : Config} {s t u : State} {env : Env} {num : UInt32} {key : Key}

theorem commitPubkey_ok (hwf : s.WellFormed) (h : s.commitPubkey cfg env num key = .ok t) :
    t.WellFormed ∧ ∃ e, t.entry num = some e ∧ e.node.fullKey = some key := by
  have hstep : step cfg s (.commitPubkey env num key) = t := by
    rw [step, h]
    rfl
  have hfound : (s.entry num).isSome := by
    rw [State.commitPubkey] at h
    cases hi : s.findEntry num with
    | none =>
      rw [hi] at h
      cases h
    | some i =>
      rw [findEntry_eq] at hi
      obtain ⟨e, hget, hkey⟩ := Keyed.get_of_position hi
      rw [(entry_eq_some hwf).mpr ⟨List.mem_of_getElem? hget, hkey⟩]
      rfl
  obtain ⟨e, he⟩ := Option.isSome_iff_exists.mp hfound
  have hw : s.written cfg (.commitPubkey env num key) = some (e, key) := by
    rw [State.written, he]
    rfl
  rw [← hstep]
  obtain ⟨e', he', hkey, -⟩ := written_record hwf rfl hw
  exact ⟨step_wellFormed hwf rfl, e', he', hkey⟩

theorem setKeyVerified_ok (hwf : s.WellFormed) (h : s.setKeyVerified cfg num true = .ok t)
    {e : Entry} (he : s.entry num = some e) :
    t.WellFormed ∧ ∃ e', t.entry num = some e' ∧ e'.node.fullKey = e.node.fullKey ∧
      e'.verified = true := by
  have hstep : step cfg s (.setKeyVerified num true) = t := by
    rw [step, h]
    rfl
  obtain ⟨hmem, hnum⟩ := (entry_eq_some hwf).mp he
  obtain ⟨i, hi⟩ := List.mem_iff_getElem?.mp hmem
  obtain ⟨e', hover, halike, hv⟩ := setKeyVerified_over cfg (Over.refl hwf hi hnum) true
  have ht : s.after (s.setKeyVerified cfg num true) = t := hstep
  rw [ht] at hover
  refine ⟨hstep ▸ step_wellFormed hwf rfl, e', ?_, halike.fullKey, hv⟩
  rw [hover.entry, if_pos rfl]

end

end Zephyrtastic.NodeDb

namespace Zephyrtastic.KeyVerify

open Run State
open NodeDb (Key)

/-- The phases in which the session has its first hash. -/
def Phase.hasHash : Phase → Bool
  | .senderAwaitingUser | .receiverAwaitingHash1 | .receiverAwaitingUser => true
  | _ => false

/-- The phases in which the code is on display. -/
def Phase.awaitingUser : Phase → Bool
  | .senderAwaitingUser | .receiverAwaitingUser => true
  | _ => false

/-- The phases of the initiator. -/
def Phase.sending : Phase → Bool
  | .senderHasInitiated | .senderAwaitingNumber | .senderAwaitingUser => true
  | _ => false

theorem Phase.hasHash_of_awaitingUser {p : Phase} (h : p.awaitingUser = true) :
    p.hasHash = true := by
  cases p <;> first | rfl | cases h

/-- The first hash is over a key, and the lookup has no other. -/
structure Hashed (cfg : Config) (s : State) (key : Key) : Prop where
  hashed : s.hashed = some key
  lookup : ∀ k, s.keys.peerPub s.kv.remote = some k → k = key
  hash1 : ∃ own, s.kv.hash1Of cfg own key = some s.kv.hash1

/-- What holds of a session between any two calls. -/
structure Sound (cfg : Config) (s : State) : Prop where
  store : s.keys.db.WellFormed
  sending : s.kv.state.sending = true → s.kv.sessionFromRemote = false
  hashed : s.kv.state.hasHash = true → ∃ key, Hashed cfg s key
  shown : s.kv.state.awaitingUser = true → s.shown = s.hashed.map (.of s.kv.hash1)

/-- Nothing that happens to the store leaves the session's node with another key than the one
in the first hash, once there is one. -/
def Unswapped (cfg : Config) (s : State) (e : Call × Event) : Prop :=
  match e.2 with
  | .store _ _ => s.kv.state.hasHash = true →
      (step cfg s e).keys.peerPub s.kv.remote = none ∨
        (step cfg s e).keys.peerPub s.kv.remote = s.hashed
  | _ => True

instance (cfg : Config) (s : State) (e : Call × Event) : Decidable (Unswapped cfg s e) := by
  unfold Unswapped
  split <;> infer_instance

section
variable {cfg : Config} {s t : State} {c : Call}

theorem Sound.unhashed (hwf : s.keys.db.WellFormed) (hstate : s.kv.state.hasHash = false)
    (hsending : s.kv.state.sending = true → s.kv.sessionFromRemote = false) : Sound cfg s where
  store := hwf
  sending := hsending
  hashed := fun h => absurd (hstate.symm.trans h) Bool.false_ne_true
  shown := fun h =>
    absurd (hstate.symm.trans (Phase.hasHash_of_awaitingUser h)) Bool.false_ne_true

theorem Sound.resetSession (hwf : s.keys.db.WellFormed) (now : Nat) :
    Sound cfg (s.resetSession now) :=
  .unhashed hwf rfl nofun

theorem Sound.updateState (h : Sound cfg s) (now : Nat) : Sound cfg (s.updateState now) := by
  unfold State.updateState
  split
  · exact h
  · split
    · exact .resetSession h.store now
    · exact h

theorem Sound.start (h : Sound cfg s) (remote : UInt32) (entropy : Option UInt64) (sent : Bool) :
    Sound cfg (s.start cfg c remote entropy sent).2 := by
  unfold State.start
  split
  · exact h
  split
  · exact h
  have h := h.updateState c.now
  dsimp only
  split
  · exact h
  split
  · exact .resetSession h.store _
  split
  · exact .unhashed h.store rfl fun _ => rfl
  · apply Sound.resetSession
    exact h.store

theorem checkNumber_ok {number : UInt32} {own peer : Key} {h1 : Bytes}
    (h : s.checkNumber cfg number own peer = .ok h1) :
    computeHash1 cfg number s.kv.nonce cfg.db.self s.kv.remote own peer = some h1 := by
  unfold checkNumber at h
  split at h
  · cases h
  next h1' hhash =>
  split at h
  · cases h
  split at h
  · cases h
    exact hhash
  · cases h

theorem Sound.provideNumber (h : Sound cfg s) (nonce : UInt64) (number : UInt32) (sent : Bool) :
    Sound cfg (s.provideNumber cfg c nonce number sent).2 := by
  unfold State.provideNumber
  have h := h.updateState c.now
  generalize s.updateState c.now = s at h ⊢
  dsimp only
  split
  · exact h
  next hopen =>
  have hstate : s.kv.state = .senderAwaitingNumber := by
    by_contra hne
    exact hopen (.inl hne)
  have hown : s.kv.sessionFromRemote = false := h.sending (by rw [hstate]; rfl)
  split
  · next own peer _ hpeer =>
    cases hcheck : s.checkNumber cfg number own peer with
    | error e => exact h
    | ok h1 =>
      dsimp only
      split
      · refine ⟨h.store, fun _ => hown, fun _ => ⟨peer, rfl, ?_, own, ?_⟩, fun _ => rfl⟩
        · intro k hk
          exact Option.mem_unique hk hpeer
        · rw [hown]
          exact checkNumber_ok hcheck
      · refine .unhashed h.store ?_ fun _ => hown
        rw [hstate]
        rfl
  · exact .resetSession h.store _

variable (cfg c) in
/-- What an accept can do, after the deadlines. -/
inductive Accepting (s : State) : Except Errno Unit × State → Prop
  | refused (e : Errno) : Accepting s (.error e, s)
  /-- The key was written, and the flag was not. -/
  | committed (e : Errno) (key : Key) (db : NodeDb.State)
      (hkey : s.keys.peerPub s.kv.remote = some key)
      (hcommit : s.keys.db.commitPubkey cfg.db c.env s.kv.remote key = .ok db) :
      Accepting s (.error e, { s with keys := { s.keys with db := db } })
  | verified (key : Key) (db db' : NodeDb.State) (hstate : s.kv.state.awaitingUser = true)
      (hkey : s.keys.peerPub s.kv.remote = some key)
      (hcommit : s.keys.db.commitPubkey cfg.db c.env s.kv.remote key = .ok db)
      (hverified : db.setKeyVerified cfg.db s.kv.remote true = .ok db') : Accepting s
        (.ok (), State.resetSession { s with keys := { s.keys with db := db' } } c.now)

theorem accept_accepting (cfg : Config) (c : Call) (s : State) (nonce : UInt64) :
    Accepting cfg c (s.updateState c.now) (s.accept cfg c nonce) := by
  unfold accept
  generalize s.updateState c.now = s
  dsimp only
  split
  · exact .refused _
  next hopen =>
  have hstate : s.kv.state.awaitingUser = true := by
    by_contra hne
    refine hopen (.inl ⟨fun h => hne ?_, fun h => hne ?_⟩) <;> rw [h] <;> rfl
  cases hkey : s.keys.peerPub s.kv.remote with
  | none => exact .refused _
  | some key =>
    dsimp only
    cases hcommit : s.keys.db.commitPubkey cfg.db c.env s.kv.remote key with
    | error e => exact .refused _
    | ok db =>
      dsimp only
      cases hverified : db.setKeyVerified cfg.db s.kv.remote true with
      | error e => exact .committed _ key db hkey hcommit
      | ok db' => exact .verified key db db' hstate hkey hcommit hverified

theorem Sound.accept (h : Sound cfg s) (nonce : UInt64) : Sound cfg (s.accept cfg c nonce).2 := by
  have hacc := accept_accepting cfg c s nonce
  have h := h.updateState c.now
  generalize s.accept cfg c nonce = r at hacc ⊢
  cases hacc with
  | refused e => exact h
  | committed e key db hkey hcommit =>
    obtain ⟨hwf, e, he, hfull⟩ := NodeDb.commitPubkey_ok h.store hcommit
    refine ⟨hwf, h.sending, fun hstate => ?_, h.shown⟩
    obtain ⟨key', hhashed⟩ := h.hashed hstate
    refine ⟨key', hhashed.hashed, fun k hk => ?_, hhashed.hash1⟩
    -- the lookup finds the key that was just written, and that came out of the lookup
    have hnew : k = key := by
      rw [Pki.State.peerPub, NodeDb.copyPubkey_pinned he hfull] at hk
      exact (Option.some.inj hk).symm
    rw [hnew]
    exact hhashed.lookup key hkey
  | verified key db db' hstate hkey hcommit hverified =>
    obtain ⟨hwf, e, he, hfull⟩ := NodeDb.commitPubkey_ok h.store hcommit
    exact .resetSession (NodeDb.setKeyVerified_ok hwf hverified he).1 _

/-! ### The messages -/

theorem Sound.onPacket (h : Sound cfg s) (sender dest : UInt32) (pki : Bool)
    (msg : Option Message) : Sound cfg (s.onPacket cfg c sender dest pki msg) := by
  unfold State.onPacket
  split
  · exact h
  have h := h.updateState c.now
  generalize s.updateState c.now = s at h ⊢
  dsimp only
  split
  · exact h
  split
  · exact h
  split
  · next hstate _ =>
    split
    · refine .unhashed ?_ rfl fun _ => h.sending (by rw [hstate]; rfl)
      change (if _ then s.keys else _).db.WellFormed
      split
      · exact h.store
      · rw [Pki.State.setPendingKey]
        split <;> exact h.store
    · exact h
  · next hstate _ =>
    split
    · obtain ⟨key, hhashed⟩ := h.hashed (by rw [hstate]; rfl)
      exact ⟨h.store, nofun, fun _ => ⟨key, { hhashed with }⟩, fun _ => rfl⟩
    · exact h
  · exact h

theorem requesterKey_lookup (s : State) {sender : UInt32} (hsender : sender ≠ 0) (carried : Key) :
    (s.requesterKey sender carried).2.keys.db = s.keys.db ∧
      (s.requesterKey sender carried).2.keys.peerPub sender =
        some (s.requesterKey sender carried).1 := by
  unfold requesterKey
  cases hdb : s.keys.db.copyPubkey sender with
  | some key =>
    refine ⟨rfl, ?_⟩
    rw [Pki.State.peerPub, hdb]
    rfl
  | none =>
    rw [Pki.State.setPendingKey, if_neg hsender]
    refine ⟨rfl, ?_⟩
    rw [Pki.State.peerPub, hdb, Pki.State.getPendingKey, if_neg hsender]
    exact if_pos rfl

theorem Sound.answer (hwf : s.keys.db.WellFormed) (own : Key) {peer : Key}
    (hpeer : s.keys.peerPub s.kv.remote = some peer) (encoded : Bool) :
    Sound cfg (s.answer cfg c own peer encoded).2 := by
  unfold State.answer
  cases hhash : s.kv.hash1Of cfg own peer with
  | none => exact .resetSession hwf _
  | some h1 =>
    dsimp only
    split
    · exact .resetSession hwf _
    split
    · refine ⟨hwf, nofun, fun _ => ⟨peer, rfl, fun k hk => ?_, own, hhash⟩, nofun⟩
      exact Option.mem_unique hk hpeer
    · apply Sound.resetSession
      exact hwf

theorem Sound.allocReply (h : Sound cfg s) (sender : UInt32) (msg : Option Message)
    (entropy : Option UInt32) (encoded : Bool) :
    Sound cfg (s.allocReply cfg c sender msg entropy encoded).2 := by
  unfold State.allocReply
  split
  · exact h
  next hsender =>
  split
  · split
    · next carried _ _ =>
      have h := h.updateState c.now
      generalize s.updateState c.now = s at h ⊢
      dsimp only
      split
      · exact h
      next hidle =>
      split
      · exact h
      obtain ⟨hdb, hlookup⟩ := requesterKey_lookup s (fun h0 => hsender (.inl h0)) carried
      have hkv : (s.requesterKey sender carried).2.kv = s.kv := by
        unfold requesterKey
        split <;> rfl
      have hwf : (s.requesterKey sender carried).2.keys.db.WellFormed := hdb ▸ h.store
      generalize s.requesterKey sender carried = r at hlookup hkv hwf ⊢
      obtain ⟨peer, t⟩ := r
      split
      · refine .unhashed hwf ?_ ?_
        · rw [hkv, not_not.mp hidle]
          rfl
        · rw [hkv]
          exact h.sending
      · next e => exact Sound.answer (s := t.openSession c sender _ e) hwf _ hlookup encoded
    · exact h
  · exact h

/-! ### Runs -/

theorem Sound.step (h : Sound cfg s) {e : Call × Event} (hok : Unswapped cfg s e) :
    Sound cfg (step cfg s e) := by
  obtain ⟨c, ev⟩ := e
  cases ev with
  | start remote entropy sent => exact h.start remote entropy sent
  | provideNumber nonce number sent => exact h.provideNumber nonce number sent
  | accept nonce => exact h.accept nonce
  | reject => exact .resetSession h.store _
  | status => exact h.updateState _
  | reset => exact .unhashed h.store rfl nofun
  | onPacket sender dest pki msg => exact h.onPacket sender dest pki msg
  | allocReply sender msg entropy encoded => exact h.allocReply sender msg entropy encoded
  | store ev hev =>
    refine ⟨NodeDb.running_wellFormed h.store hev, h.sending, fun hstate => ?_, h.shown⟩
    obtain ⟨key, hhashed⟩ := h.hashed hstate
    refine ⟨key, hhashed.hashed, fun k hk => ?_, hhashed.hash1⟩
    rcases hok hstate with hnone | hsame
    · cases hnone.symm.trans hk
    · exact Option.some.inj ((hk.symm.trans hsame).trans hhashed.hashed)

theorem init_sound {db : NodeDb.State} (hwf : db.WellFormed) : Sound cfg (.init db) :=
  .unhashed hwf rfl nofun

theorem updateState_eq {now : Nat} (h : (s.updateState now).kv.state.awaitingUser = true) :
    s.updateState now = s := by
  unfold updateState at h ⊢
  split
  · rfl
  next hidle =>
  rw [if_neg hidle] at h
  split
  · next hlate =>
    rw [if_pos hlate] at h
    cases h
  · rfl

end

/-- Whatever is received and called, if nothing gives the session's node another key between the
hash and the accept: an accept that marks the node's key as verified leaves it with the key that
went into the hash of this session whose code was displayed. -/
theorem verified_key_was_shown (cfg : Config) {db : NodeDb.State} (hwf : db.WellFormed)
    (es : List (Call × Event)) (hes : Guarded (step cfg) (Unswapped cfg) (.init db) es) (c : Call)
    (nonce : UInt64) :
    let s := run (step cfg) (.init db) es
    (s.accept cfg c nonce).1 = .ok () →
    ∃ key own, s.kv.hash1Of cfg own key = some s.kv.hash1 ∧
      s.shown = some ⟨verificationCode s.kv.hash1, s.kv.hash1, key⟩ ∧
      ∃ e, (s.accept cfg c nonce).2.keys.db.entry s.kv.remote = some e ∧
        e.verified = true ∧ e.node.fullKey = some key := by
  intro s hok
  have hs : Sound cfg s := run_keeps (Sound cfg) (init_sound hwf)
    (fun _ e h hok => h.step hok) hes
  have hacc := accept_accepting cfg c s nonce
  generalize s.accept cfg c nonce = r at hok hacc ⊢
  cases hacc with
  | refused e | committed e => cases hok
  | verified key db db' hstate hkey hcommit hverified =>
    rw [updateState_eq hstate] at *
    obtain ⟨key', hhashed⟩ := hs.hashed (Phase.hasHash_of_awaitingUser hstate)
    obtain ⟨hwf', e, he, hfull⟩ := NodeDb.commitPubkey_ok hs.store hcommit
    obtain ⟨-, e', he', hfull', hv⟩ := NodeDb.setKeyVerified_ok hwf' hverified he
    obtain ⟨own, hhash⟩ := hhashed.hash1
    have hsame : key = key' := hhashed.lookup key hkey
    refine ⟨key, own, hsame ▸ hhash, ?_, e', he', hv, hfull'.trans hfull⟩
    rw [hs.shown hstate, hhashed.hashed, hsame]
    rfl

/-! ### A key that comes in between -/

/-- A hash for trying things out: some of the bytes themselves. -/
def toyConfig : Config := ⟨NodeDb.toyConfig, fun b => some ((b.drop 20).take NodeDb.keyLen)⟩

def toyCall (now : Nat) : Call := ⟨now, { NodeDb.toyEnv 0 with ownKey := some (NodeDb.toyKey 1) }⟩

/-- Node 2 asks for a verification with its key, is answered, and proves that it knows the
number; then a NodeInfo of node 2 is heard. -/
def bootstrapThen (key : Key) : List (Call × Event) :=
  [(toyCall 1, .allocReply 2 (some ⟨5, (NodeDb.toyKey 7).bytes, []⟩) (some 0) true),
    (toyCall 2, .onPacket 2 1 true (some ⟨5, (NodeDb.toyKey 7).bytes, []⟩)),
    (toyCall 3, .store (NodeDb.toyNodeInfo 1 2 key) rfl)]

/-- The small store, and a session that ends with that NodeInfo. -/
def bootstrapped (key : Key) : State :=
  run (step toyConfig) (.init (NodeDb.toyStore 8)) (bootstrapThen key)

theorem bootstrap_key_was_shown :
    ((bootstrapped (NodeDb.toyKey 7)).accept toyConfig (toyCall 4) 5).1 = .ok () ∧
    ∃ key own, (bootstrapped (NodeDb.toyKey 7)).kv.hash1Of toyConfig own key =
        some (bootstrapped (NodeDb.toyKey 7)).kv.hash1 ∧
      (bootstrapped (NodeDb.toyKey 7)).shown =
        some ⟨verificationCode (bootstrapped (NodeDb.toyKey 7)).kv.hash1,
          (bootstrapped (NodeDb.toyKey 7)).kv.hash1, key⟩ ∧
      ∃ e, ((bootstrapped (NodeDb.toyKey 7)).accept toyConfig (toyCall 4) 5).2.keys.db.entry
          (bootstrapped (NodeDb.toyKey 7)).kv.remote = some e ∧
        e.verified = true ∧ e.node.fullKey = some key := by
  have hok : ((bootstrapped (NodeDb.toyKey 7)).accept toyConfig (toyCall 4) 5).1 = .ok () := by
    rfl
  exact ⟨hok, verified_key_was_shown toyConfig NodeDb.toyStore_wellFormed
    (bootstrapThen (NodeDb.toyKey 7)) (by decide +kernel) (toyCall 4) 5 hok⟩

/-- The user has compared a code for the key of node 2 that came with its request; the NodeInfo
brings another, and that one is marked as verified. -/
theorem swapped_key_verified :
    let s := bootstrapped (NodeDb.toyKey 9)
    s.shown = some ⟨verificationCode s.kv.hash1, s.kv.hash1, NodeDb.toyKey 7⟩ ∧
      (s.accept toyConfig (toyCall 4) 5).1.isOk = true ∧
      ((s.accept toyConfig (toyCall 4) 5).2.keys.db.entry 2).map
        (fun e => (e.verified, e.node.fullKey)) = some (true, some (NodeDb.toyKey 9)) := by
  decide +kernel

end Zephyrtastic.KeyVerify
