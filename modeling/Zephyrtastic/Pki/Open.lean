import Zephyrtastic.NodeDb.Ops

/-!
# Opening a direct message

A direct message is sealed under the key that its sender's and its receiver's key
pairs agree on.
-/

namespace Zephyrtastic.Pki

open NodeDb (Key)

inductive Errno where
  | einval
  | enoent
  | ebusy
  | ebadmsg
  | eio
  deriving DecidableEq, Repr

/-- `meshtastic_Data`, as far as the receive path reads it. -/
structure Content where
  portnum : Nat
  requestId : UInt32
  payload : Bytes
  deriving DecidableEq, Repr

/-- This node's key pair at work. -/
structure Cipher where
  /-- `g_have_key`. -/
  haveKey : Bool
  /-- The key agreement with a peer and AES-CCM under it, for a sender and a packet id. -/
  aeadDecrypt : Key → UInt32 → UInt32 → Bytes → Option Bytes
  /-- `pb_decode` of `meshtastic_Data`. -/
  decode : Bytes → Option Content

structure Config where
  cipher : Cipher
  /-- `SecurityConfig.admin_key`. -/
  adminKey : List Bytes
  db : NodeDb.Config

/-- The node store, the key of a verification under way, and the budget of the admin keys. -/
structure State where
  db : NodeDb.State
  /-- `pending_node` and `pending_key`. -/
  pending : Option (UInt32 × Key)
  /-- `admin_fallback_tokens`. -/
  tokens : Nat
  /-- `admin_fallback_stamp_ms`, once there is one. -/
  stampMs : Option UInt32

open State

/-- What one reception reads of the outside. -/
structure Clock where
  /-- `k_uptime_get_32`. -/
  now : UInt32
  env : NodeDb.Env

/-- `MESHTASTIC_PKI_OVERHEAD`: the tag and the extra nonce. -/
def overhead : Nat := 12

def Cipher.decryptWith (c : Cipher) (key : Key) (sender id : UInt32) (enc : Bytes) :
    Except Errno Bytes :=
  if !c.haveKey || enc.length ≤ overhead then .error .einval
  else match c.aeadDecrypt key sender id enc with
    | some plain => .ok plain
    | none => .error .ebadmsg

/-- The admin keys of full length. -/
def Config.adminKeys (cfg : Config) : List Key := cfg.adminKey.filterMap Key.ofBytes

def fallbackBurst : Nat := 8

def fallbackRefillMs : UInt32 := 250

namespace State

variable (cfg : Config) (s : State)
variable (sender id : UInt32) (node : UInt32)

def setPendingKey (key : Key) : State :=
  if node = 0 then s else { s with pending := some (node, key) }

def getPendingKey : Option Key :=
  if node = 0 then none
  else match s.pending with
    | some (pendingNode, key) => if pendingNode = node then some key else none
    | none => none

def clearPendingKey : State := { s with pending := none }

def peerPub : Option Key :=
  (s.db.copyPubkey node).or (s.getPendingKey node)

def decrypt (enc : Bytes) : Except Errno Bytes :=
  if !cfg.cipher.haveKey || enc.length ≤ overhead then .error .einval
  else match s.peerPub sender with
    | none => .error .enoent
    | some key => cfg.cipher.decryptWith key sender id enc

def adminFallbackTake (now : UInt32) : Bool × State :=
  let stamp := s.stampMs.getD now
  let refill := (now - stamp) / fallbackRefillMs
  let s :=
    if 0 < refill then
      { s with
        stampMs := some (stamp + refill * fallbackRefillMs)
        tokens := min fallbackBurst (s.tokens + min refill.toNat fallbackBurst) }
    else { s with stampMs := some stamp }
  if s.tokens = 0 then (false, s) else (true, { s with tokens := s.tokens - 1 })

/-- The loop of `try_admin_keys`: the first key that opens the message. -/
def firstAdminKey (enc : Bytes) : Option (Key × Bytes) :=
  cfg.adminKeys.findSome? fun key =>
    match cfg.cipher.decryptWith key sender id enc with
    | .ok plain => some (key, plain)
    | .error _ => none

/-- `try_admin_keys`: a success gives its token back. -/
def tryAdminKeys (now : UInt32) (sender id : UInt32) (enc : Bytes) :
    Except Errno (Key × Bytes) × State :=
  if cfg.adminKeys.isEmpty then (.error .enoent, s)
  else match s.adminFallbackTake now with
    | (false, s) => (.error .ebusy, s)
    | (true, s) => match firstAdminKey cfg sender id enc with
      | some opened =>
        (.ok opened, if s.tokens < fallbackBurst then { s with tokens := s.tokens + 1 } else s)
      | none => (.error .ebadmsg, s)

/-- `pb_decode` of the opened message, and the port that is none. -/
def readContent (plain : Bytes) : Except Errno Content :=
  match cfg.cipher.decode plain with
  | none => .error .eio
  | some content => if content.portnum = 0 then .error .eio else .ok content

def tryDecryptPki (clock : Clock) (sender id : UInt32) (enc : Bytes) :
    Except Errno Content × State :=
  match s.decrypt cfg sender id enc with
  | .ok plain => (readContent cfg plain, s)
  | .error .einval => (.error .einval, s)
  | .error e => match s.tryAdminKeys cfg clock.now sender id enc with
    | (.error _, s) => (.error e, s)
    | (.ok (key, plain), s) => match readContent cfg plain with
      | .error e => (.error e, s)
      -- the key stays with the sender, where the store has room for it
      | .ok content => (.ok content,
          { s with db := s.db.after (s.db.commitAdminPubkey cfg.db clock.env sender key) })

end State

/-! ### What an opened message proves -/

section
variable {cfg : Config} {s t : State} {clock : Clock} {sender id : UInt32} {enc : Bytes}
  {content : Content} {key : Key} {plain : Bytes}

/-- A key opens the message, and what comes out decodes. -/
structure Opens (cfg : Config) (key : Key) (sender id : UInt32) (enc : Bytes) (content : Content) :
    Prop where
  opened : ∃ plain, cfg.cipher.decryptWith key sender id enc = .ok plain ∧
    State.readContent cfg plain = .ok content

/-- The two ways `try_decrypt_pki` succeeds: the sender's key, with nothing changed, or an admin
key, which is then written to the store. -/
inductive Opened (cfg : Config) (clock : Clock) (s : State) (sender id : UInt32) (enc : Bytes)
    (content : Content) (t : State) : Prop
  | peer (key : Key) (hkey : s.peerPub sender = some key)
      (h : Opens cfg key sender id enc content) (ht : t = s)
  | admin (key : Key) (hkey : key ∈ cfg.adminKeys) (h : Opens cfg key sender id enc content)
      (hpending : t.pending = s.pending)
      (hdb : t.db = s.db.after (s.db.commitAdminPubkey cfg.db clock.env sender key))

theorem decryptWith_ok {c : Cipher} (h : c.decryptWith key sender id enc = .ok plain) :
    c.aeadDecrypt key sender id enc = some plain := by
  unfold Cipher.decryptWith at h
  split at h
  · cases h
  · split at h
    · next opened => rw [opened, Except.ok.inj h]
    · cases h

theorem readContent_ok (h : readContent cfg plain = .ok content) :
    cfg.cipher.decode plain = some content := by
  unfold readContent at h
  split at h
  · cases h
  next decoded =>
  split at h
  · cases h
  · rw [decoded, Except.ok.inj h]

theorem decrypt_ok (h : s.decrypt cfg sender id enc = .ok plain) :
    ∃ key, s.peerPub sender = some key ∧ cfg.cipher.decryptWith key sender id enc = .ok plain := by
  unfold decrypt at h
  split at h
  · cases h
  cases hkey : s.peerPub sender with
  | none =>
    rw [hkey] at h
    cases h
  | some key =>
    rw [hkey] at h
    exact ⟨key, rfl, h⟩

theorem firstAdminKey_some (h : firstAdminKey cfg sender id enc = some (key, plain)) :
    key ∈ cfg.adminKeys ∧ cfg.cipher.decryptWith key sender id enc = .ok plain := by
  obtain ⟨key', hmem, hkey⟩ := List.exists_of_findSome?_eq_some h
  cases hd : cfg.cipher.decryptWith key' sender id enc with
  | error e =>
    rw [hd] at hkey
    cases hkey
  | ok plain' =>
    rw [hd] at hkey
    cases hkey
    exact ⟨hmem, hd⟩

theorem adminFallbackTake_keys (s : State) (now : UInt32) :
    (s.adminFallbackTake now).2.db = s.db ∧ (s.adminFallbackTake now).2.pending = s.pending := by
  unfold adminFallbackTake
  dsimp only
  generalize hs : (if 0 < (now - s.stampMs.getD now) / fallbackRefillMs then _ else _ : State) = u
  have hu : u.db = s.db ∧ u.pending = s.pending := by
    rw [← hs]
    split <;> exact ⟨rfl, rfl⟩
  split <;> exact hu

theorem tryAdminKeys_keys (cfg : Config) (s : State) (now sender id : UInt32) (enc : Bytes) :
    (s.tryAdminKeys cfg now sender id enc).2.db = s.db ∧
      (s.tryAdminKeys cfg now sender id enc).2.pending = s.pending := by
  have htake := adminFallbackTake_keys s now
  unfold tryAdminKeys
  split
  · exact ⟨rfl, rfl⟩
  rcases htook : s.adminFallbackTake now with ⟨took, u⟩
  rw [htook] at htake
  cases took with
  | false => exact htake
  | true =>
    dsimp only
    split
    · split <;> exact htake
    · exact htake

theorem tryAdminKeys_ok {now : UInt32}
    (h : (s.tryAdminKeys cfg now sender id enc).1 = .ok (key, plain)) :
    key ∈ cfg.adminKeys ∧ cfg.cipher.decryptWith key sender id enc = .ok plain := by
  unfold tryAdminKeys at h
  split at h
  · cases h
  rcases htook : s.adminFallbackTake now with ⟨took, u⟩
  rw [htook] at h
  cases took with
  | false => cases h
  | true =>
    dsimp only at h
    split at h
    · next opened hfirst =>
      cases h
      exact firstAdminKey_some hfirst
    · cases h

theorem tryDecryptPki_ok
    (h : (s.tryDecryptPki cfg clock sender id enc).1 = .ok content) :
    Opened cfg clock s sender id enc content (s.tryDecryptPki cfg clock sender id enc).2 := by
  unfold tryDecryptPki at h ⊢
  split at h
  · next plain hd =>
    obtain ⟨key, hkey, hopen⟩ := decrypt_ok hd
    exact .peer key hkey ⟨plain, hopen, h⟩ rfl
  · cases h
  next e hne hd =>
  obtain ⟨hdb, hpending⟩ := tryAdminKeys_keys cfg s clock.now sender id enc
  rcases htry : s.tryAdminKeys cfg clock.now sender id enc with ⟨r, u⟩
  rw [htry] at h hdb hpending
  cases r with
  | error e' => cases h
  | ok opened =>
    obtain ⟨key, plain⟩ := opened
    obtain ⟨hmem, hopen⟩ := tryAdminKeys_ok (by rw [htry])
    dsimp only at h ⊢
    cases hread : readContent cfg plain with
    | error e' =>
      rw [hread] at h
      cases h
    | ok content' =>
      rw [hread] at h
      cases h
      refine .admin key hmem ⟨plain, hopen, hread⟩ hpending ?_
      rw [hdb]

/-- The admin keys are not tried on a message that the sender's key opens. -/
theorem tryDecryptPki_of_peer (clock : Clock) (hkey : s.peerPub sender = some key)
    (hopen : cfg.cipher.decryptWith key sender id enc = .ok plain) :
    s.tryDecryptPki cfg clock sender id enc = (readContent cfg plain, s) := by
  have hd : s.decrypt cfg sender id enc = .ok plain := by
    unfold decrypt
    split
    · next hshort =>
      rw [Cipher.decryptWith, if_pos hshort] at hopen
      cases hopen
    · rw [hkey]
      exact hopen
  rw [tryDecryptPki, hd]

theorem tryDecryptPki_db (cfg : Config) (s : State) (clock : Clock) (sender id : UInt32)
    (enc : Bytes) :
    (s.tryDecryptPki cfg clock sender id enc).2.db = s.db ∨
      ∃ key, (s.tryDecryptPki cfg clock sender id enc).2.db =
        s.db.after (s.db.commitAdminPubkey cfg.db clock.env sender key) := by
  unfold tryDecryptPki
  split
  · exact .inl rfl
  · exact .inl rfl
  have hdb := (tryAdminKeys_keys cfg s clock.now sender id enc).1
  rcases htry : s.tryAdminKeys cfg clock.now sender id enc with ⟨r, u⟩
  rw [htry] at hdb
  cases r with
  | error e => exact .inl hdb
  | ok opened =>
    obtain ⟨key, plain⟩ := opened
    dsimp only
    split
    · exact .inl hdb
    · exact .inr ⟨key, by dsimp only; rw [hdb]⟩

end

end Zephyrtastic.Pki
