import Zephyrtastic.NodeDb.Effects
import Zephyrtastic.Pki.Open

/-!
# Key verification

Two users compare a code over another channel, to know that each node holds the
other's true key.
-/

namespace Zephyrtastic.KeyVerify

open NodeDb (Key broadcast keyLen)

/-- `enum meshtastic_keyverify_state`. -/
inductive Phase where
  | idle
  | senderHasInitiated
  | senderAwaitingNumber
  | senderAwaitingUser
  | receiverAwaitingHash1
  | receiverAwaitingUser
  deriving DecidableEq, Repr

inductive Errno where
  | einval
  | eacces
  | ebusy
  | eio
  | enoent
  | enomem
  /-- The send path does not take the message. -/
  | refused
  | store (e : NodeDb.Errno)
  deriving DecidableEq, Repr

/-- `kv`. -/
structure Session where
  state : Phase
  remote : UInt32
  nonce : UInt64
  securityNumber : UInt32
  progressedMs : Nat
  sessionStartedMs : Nat
  /-- Zero for never. -/
  lastRemoteEndMs : Nat
  sessionFromRemote : Bool
  hash1 : Bytes
  hash2 : Bytes
  deriving DecidableEq, Repr

def Session.zero : Session :=
  ⟨.idle, 0, 0, 0, 0, 0, 0, false, List.replicate keyLen 0, List.replicate keyLen 0⟩

/-- `meshtastic_KeyVerification`. -/
structure Message where
  nonce : UInt64
  hash1 : Bytes
  hash2 : Bytes
  deriving DecidableEq, Repr

structure Config where
  db : NodeDb.Config
  /-- `psa_hash_compute`, which may fail. -/
  sha256 : Bytes → Option Bytes

/-- The code that a session displays for its user to compare, the hash it is of, and the peer's
key in that hash. -/
structure Shown where
  code : Bytes
  hash1 : Bytes
  key : Key
  deriving DecidableEq, Repr

structure State where
  kv : Session
  keys : Pki.State
  /-- The peer's key in `hash1`; not in the code, and nothing reads it. -/
  hashed : Option Key
  /-- What the user was shown; not in the code, and nothing reads it. -/
  shown : Option Shown

/-- The time of a call and what it reads of the node. -/
structure Call where
  /-- `k_uptime_get`. -/
  now : Nat
  env : NodeDb.Env

def idleTimeoutMs : Nat := 60000

def maxSessionMs : Nat := 180000

def remoteCooldownMs : Nat := 60000

def computeHash1 (cfg : Config) (number : UInt32) (nonce : UInt64) (initiator responder : UInt32)
    (pkInit pkResp : Key) : Option Bytes :=
  cfg.sha256 (Bytes.putLe32 number ++ Bytes.putLe 8 nonce.toNat ++ Bytes.putLe32 initiator
    ++ Bytes.putLe32 responder ++ pkInit.bytes ++ pkResp.bytes)

def computeHash2 (cfg : Config) (nonce : UInt64) (h1 : Bytes) : Option Bytes :=
  cfg.sha256 (Bytes.putLe 8 nonce.toNat ++ h1)

/-- `verification_code`: two groups of four characters, of six bits each. -/
def verificationCode (h1 : Bytes) : Bytes :=
  let letter (b : UInt8) : UInt8 := (b >>> 2) + 48
  (h1.take 4).map letter ++ [32] ++ ((h1.drop 5).take 4).map letter

/-- The code of a hash, on the display. -/
def Shown.of (h1 : Bytes) (key : Key) : Shown := ⟨verificationCode h1, h1, key⟩

/-- The first hash of a session, from this node's key and the peer's: the initiator's comes
first. -/
def Session.hash1Of (cfg : Config) (kv : Session) (own peer : Key) : Option Bytes :=
  if kv.sessionFromRemote
  then computeHash1 cfg kv.securityNumber kv.nonce kv.remote cfg.db.self peer own
  else computeHash1 cfg kv.securityNumber kv.nonce cfg.db.self kv.remote own peer

namespace State

/-- `reset_session_locked`. -/
def resetSession (s : State) (now : Nat) : State where
  kv := { Session.zero with
    lastRemoteEndMs := if s.kv.sessionFromRemote then now else s.kv.lastRemoteEndMs }
  keys := s.keys.clearPendingKey
  hashed := none
  shown := none

/-- `update_state_locked`, which nobody asks to extend the deadline. -/
def updateState (s : State) (now : Nat) : State :=
  if s.kv.state = .idle then s
  else if s.kv.sessionStartedMs + maxSessionMs ≤ now ∨ s.kv.progressedMs + idleTimeoutMs ≤ now
  then s.resetSession now
  else s

section
variable (cfg : Config) (s : State) (c : Call)
variable (sender : UInt32) (nonce : UInt64)

/-- `meshtastic_keyverify_start`, with the random nonce and the outcome of the send. -/
def start (remote : UInt32) (entropy : Option UInt64) (sent : Bool) : Except Errno Unit × State :=
  if remote = 0 ∨ remote = broadcast ∨ remote = cfg.db.self then (.error .einval, s)
  else if c.env.ownKey.isNone then (.error .eacces, s)
  else
    let s := s.updateState c.now
    if s.kv.state ≠ .idle then (.error .ebusy, s)
    else if entropy = none ∨ entropy = some 0 then (.error .eio, s.resetSession c.now)
    else
      let s := { s with kv := { s.kv with
        nonce := entropy.getD 0
        remote := remote
        sessionStartedMs := c.now
        progressedMs := c.now
        sessionFromRemote := false
        state := .senderHasInitiated } }
      if sent then (.ok (), s) else (.error .refused, s.resetSession c.now)

/-- The hashes of `meshtastic_keyverify_provide_number`: the first, if it reproduces the second. -/
def checkNumber (number : UInt32) (own peer : Key) : Except Errno Bytes :=
  match computeHash1 cfg number s.kv.nonce cfg.db.self s.kv.remote own peer with
  | none => .error .eio
  | some h1 => match computeHash2 cfg s.kv.nonce h1 with
    | none => .error .eio
    | some h2 => if h2 = s.kv.hash2 then .ok h1 else .error .eacces

/-- `meshtastic_keyverify_provide_number`. The peer's key is the store's, else the pending one. -/
def provideNumber (number : UInt32) (sent : Bool) : Except Errno Unit × State :=
  let s := s.updateState c.now
  if s.kv.state ≠ .senderAwaitingNumber ∨ nonce ≠ s.kv.nonce then (.error .einval, s)
  else match c.env.ownKey, s.keys.peerPub s.kv.remote with
    | some own, some peer => match s.checkNumber cfg number own peer with
      | .error e => (.error e, s)
      | .ok h1 =>
        let s := { s with
          kv := { s.kv with hash1 := h1, securityNumber := number }
          hashed := some peer }
        if sent then (.ok (), { s with
          kv := { s.kv with state := .senderAwaitingUser, progressedMs := c.now }
          shown := some (.of h1 peer) })
        else (.error .refused, s)
    | _, _ => (.error .eacces, s.resetSession c.now)

def accept : Except Errno Unit × State :=
  let s := s.updateState c.now
  if (s.kv.state ≠ .senderAwaitingUser ∧ s.kv.state ≠ .receiverAwaitingUser) ∨ nonce ≠ s.kv.nonce
  then (.error .einval, s)
  else match s.keys.peerPub s.kv.remote with
    | none => (.error .eacces, s)
    | some key => match s.keys.db.commitPubkey cfg.db c.env s.kv.remote key with
      | .error e => (.error (.store e), s)
      | .ok db =>
        let s := { s with keys := { s.keys with db := db } }
        match db.setKeyVerified cfg.db s.kv.remote true with
        | .error e => (.error (.store e), s)
        | .ok db => (.ok (), resetSession { s with keys := { s.keys with db := db } } c.now)

/-- M2 at the initiator: the responder's key is in the first hash. -/
def takeAnswer (r : Message) (key : Key) : State :=
  { s with
    kv := { s.kv with
      hash2 := r.hash2
      state := .senderAwaitingNumber
      progressedMs := c.now }
    keys := if (s.keys.db.copyPubkey sender).isSome then s.keys
      else s.keys.setPendingKey sender key }

/-- M3 at the responder, with this session's first hash: the code is displayed. -/
def takeProof : State :=
  { s with
    kv := { s.kv with state := .receiverAwaitingUser, progressedMs := c.now }
    shown := s.hashed.map (.of s.kv.hash1) }

def onPacket (sender dest : UInt32) (pki : Bool) (msg : Option Message) : State :=
  if dest ≠ cfg.db.self ∨ sender = 0 ∨ sender = cfg.db.self then s
  else
    let s := s.updateState c.now
    match msg with
    | none => s
    | some r =>
      if s.kv.state = .idle ∨ sender ≠ s.kv.remote ∨ r.nonce ≠ s.kv.nonce then s
      else match s.kv.state, Key.ofBytes r.hash1 with
        | .senderHasInitiated, some key =>
          if r.hash2.length = keyLen then s.takeAnswer c sender r key else s
        | .receiverAwaitingHash1, some _ =>
          if pki ∧ s.kv.hash1 = r.hash1 then s.takeProof c else s
        | _, _ => s

/-- The session that M1 opens, with the requester's key and a number to display. -/
def openSession (entropy : UInt32) : State :=
  { s with kv := { s.kv with
    securityNumber := entropy % 999999 + 1
    nonce := nonce
    remote := sender
    sessionStartedMs := c.now
    progressedMs := c.now
    sessionFromRemote := true } }

/-- The answer to M1, once the session is open: both hashes, and the encoded message. -/
def answer (own peer : Key) (encoded : Bool) : Except Errno Unit × State :=
  match s.kv.hash1Of cfg own peer with
  | none => (.error .eio, s.resetSession c.now)
  | some h1 => match computeHash2 cfg s.kv.nonce h1 with
    | none => (.error .eio, s.resetSession c.now)
    | some h2 =>
      let s := { s with
        kv := { s.kv with hash1 := h1, hash2 := h2, state := .receiverAwaitingHash1 }
        hashed := some peer }
      if encoded then (.ok (), s) else (.error .enomem, s.resetSession c.now)

/-- The requester's key: the store's, else the one it sent, kept as pending. -/
def requesterKey (carried : Key) : Key × State :=
  match s.keys.db.copyPubkey sender with
  | some key => (key, s)
  | none => (carried, { s with keys := s.keys.setPendingKey sender carried })

def allocReply (msg : Option Message) (entropy : Option UInt32)
    (encoded : Bool) : Except Errno Unit × State :=
  if sender = 0 ∨ sender = cfg.db.self then (.error .enoent, s)
  else match msg, c.env.ownKey with
    | some r, some own =>
      match r.hash2, Key.ofBytes r.hash1 with
      | [], some carried =>
        let s := s.updateState c.now
        if s.kv.state ≠ .idle then (.error .enoent, s)
        else if s.kv.lastRemoteEndMs ≠ 0 ∧ c.now < s.kv.lastRemoteEndMs + remoteCooldownMs
        then (.error .enoent, s)
        else
          let (peer, s) := s.requesterKey sender carried
          match entropy with
          | none => (.error .eio, { s with keys := s.keys.clearPendingKey })
          | some e => (s.openSession c sender r.nonce e).answer cfg c own peer encoded
      | _, _ => (.error .enoent, s)
    | _, _ => (.error .enoent, s)

def reject : State := s.resetSession c.now

def reset : State := ⟨.zero, s.keys.clearPendingKey, none, none⟩

end

end State

/-- The user's calls, the messages of the protocol, and what else happens to the node store. -/
inductive Event where
  | start (remote : UInt32) (entropy : Option UInt64) (sent : Bool)
  | provideNumber (nonce : UInt64) (number : UInt32) (sent : Bool)
  | accept (nonce : UInt64)
  | reject
  | status
  | reset
  | onPacket (sender dest : UInt32) (pki : Bool) (msg : Option Message)
  | allocReply (sender : UInt32) (msg : Option Message) (entropy : Option UInt32) (encoded : Bool)
  | store (ev : NodeDb.Event) (hrunning : ev.running = true)

def step (cfg : Config) (s : State) (e : Call × Event) : State :=
  match e.2 with
  | .start remote entropy sent => (s.start cfg e.1 remote entropy sent).2
  | .provideNumber nonce number sent => (s.provideNumber cfg e.1 nonce number sent).2
  | .accept nonce => (s.accept cfg e.1 nonce).2
  | .reject => s.reject e.1
  | .status => s.updateState e.1.now
  | .reset => s.reset
  | .onPacket sender dest pki msg => s.onPacket cfg e.1 sender dest pki msg
  | .allocReply sender msg entropy encoded => (s.allocReply cfg e.1 sender msg entropy encoded).2
  | .store ev _ => { s with keys := { s.keys with db := NodeDb.step cfg.db s.keys.db ev } }

/-- After `meshtastic_keyverify_init`, on a node store. -/
def State.init (db : NodeDb.State) : State :=
  ⟨.zero, ⟨db, none, Pki.fallbackBurst, none⟩, none, none⟩

end Zephyrtastic.KeyVerify
