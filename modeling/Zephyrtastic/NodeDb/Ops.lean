import Zephyrtastic.NodeDb.Views

/-!
# The operations of the node store

What a received packet, the operator, the phone and the boot do to the two tables.
`step` puts them together: a history of the store is a run of it.
-/

namespace Zephyrtastic.NodeDb

open Keyed

variable (cfg : Config) (s : State) (env : Env) (i : Nat) (num : UInt32)

inductive Errno where
  | noent | nospc | inval | nomem | perm
  deriving DecidableEq, Repr

def broadcast : UInt32 := 0xFFFFFFFF

/-- The entry a pointer stands for is changed in place. -/
def State.update (f : Entry → Entry) : State :=
  { s with hot := s.hot.modify i f }

/-- The entry counts as heard now. -/
def Entry.heardAt (e : Entry) (now : UInt32) : Entry :=
  { e with node := { e.node with lastHeard := now } }

/-- `nodekeys_schedule_save`. -/
def State.scheduleKeySave : State := { s with keySave := true }

/-- `apply_user` on the entry at a position. -/
def State.applyUser (user : User) : State :=
  match s.hot[i]? with
  | none => s
  | some e =>
    if e.node.refuses cfg.self env user then s
    else
      let s := s.put i { e with node := e.node.withUser user }
      if e.node.num = cfg.self then s
      else match e.node.newKey user with
        | none => s
        | some k => (s.warmUpsert env e.node.num k user.role.toUInt8).scheduleKeySave

def State.onPacket (p : Packet) : State :=
  if p.sender = 0 ∨ p.sender = cfg.self then s
  else match s.getOrCreate cfg env p.sender with
    | none => s
    | some (i, s) =>
      let s := s.update i (·.applyBasicPacket p env.uptimeSec)
      match p.content with
      | .nodeInfo (some user) => s.applyUser cfg env i user
      | .position (some pos) => s.update i (·.applyPosition pos)
      | _ => s

/-- `protected_count_locked`. -/
def State.protectedCount : Nat := s.hot.countP fun e => e.used && e.node.isProtected

/-- `ARRAY_SIZE(nodedb_entries) - NODEDB_PROTECTED_RESERVE`, in `size_t`. -/
def Config.protectedCap : Nat :=
  if 2 ≤ cfg.maxNodes then cfg.maxNodes - 2 else 2 ^ 32 + cfg.maxNodes - 2

/-- Raising a flag takes the entry out of the nodes that may be evicted. -/
def Entry.wouldProtect (e : Entry) (b : NodeBit) (v : Bool) : Bool :=
  v && (b == .isFavorite || b == .isIgnored) && !e.node.isProtected

def State.setBit (b : NodeBit) (v : Bool) : Except Errno State :=
  match s.findEntry num with
  | none => .error .noent
  | some i =>
    if (s.hot[i]?).any (·.wouldProtect b v) ∧ s.protectedCount + 1 > cfg.protectedCap then
      .error .nospc
    else .ok (s.update i fun e => { e with node := e.node.writeBit b v })

/-- The store after a call, whatever it returns. -/
def State.after (r : Except Errno State) : State :=
  match r with
  | .ok t => t
  | .error _ => s

def State.setFavorite (favorite : Bool) :
    Except Errno State := s.setBit cfg num .isFavorite favorite

def State.setIgnored (ignored : Bool) : Except Errno State := s.setBit cfg num .isIgnored ignored

def State.setKeyVerified (verified : Bool) :
    Except Errno State := s.setBit cfg num .isKeyManuallyVerified verified

def State.toggleMuted : Except Errno State :=
  match s.findEntry num with
  | none => .error .noent
  | some i => .ok (s.update i fun e =>
      { e with node := e.node.writeBit .isMuted (!e.node.isSet .isMuted) })

def State.setNextHop (dest : UInt32) (nextHop : UInt8) : Except Errno State :=
  match s.findEntry dest with
  | none => .error .noent
  | some i => .ok (s.update i fun e => { e with node := { e.node with nextHop } })

/-- The key is written over the record's, and into the ring. -/
def State.commitAt (key : Key) : State :=
  let role := ((s.hot[i]?).map (·.node.role)).getD 0
  let s := s.update i fun e => { e with node := { e.node with publicKey := key.bytes } }
  if num = cfg.self then s else (s.warmUpsert env num key role).scheduleKeySave

def State.commitPubkey (key : Key) : Except Errno State :=
  match s.findEntry num with
  | none => .error .noent
  | some i => .ok (s.commitAt cfg env i num key)

def State.commitAdminPubkey (key : Key) : Except Errno State :=
  if num = 0 ∨ num = broadcast ∨ num = cfg.self then .error .inval
  else match s.getOrCreate cfg env num with
    | none => .error .nomem
    | some (i, s) => .ok (s.commitAt cfg env i num key)

/-- `warm_set_known_signer_locked`. -/
def State.warmSetKnownSigner (signer : Bool) : State :=
  match s.warmFind num with
  | none => s
  | some i =>
    { s with
      warm := s.warm.modify i fun w => { w with knownSigner := signer }
      keySave := s.keySave || (s.warm[i]?).any fun w => w.knownSigner != signer }

def State.noteXeddsaSigner : State :=
  if num = 0 ∨ num = cfg.self then s
  else
    let s := match s.getOrCreate cfg env num with
      | none => s
      | some (i, s) => s.update i fun e =>
          { e with node := e.node.writeBit .hasXeddsaSigned true }
    s.warmSetKnownSigner num true

/-- A contact that is not itself verified would replace a verified key. -/
def Entry.refusesContact (e : Entry) (user : User) (verified : Bool) : Bool :=
  e.node.isSet .isKeyManuallyVerified && !verified && e.node.fullKey.isSome &&
    decide (e.node.publicKey ≠ user.key)

/-- The phone may replace a pinned key: the pin is cleared first. -/
def Entry.clearPin (e : Entry) (user : User) : Entry :=
  if user.fullKey.isSome ∧ e.node.publicKey ≠ user.key then
    { e with node := { e.node with publicKey := [] } }
  else e

/-- The record of a contact that is not refused: identity, key, and the time it counts
as heard. -/
def State.contactAt (user : User) (shouldIgnore : Bool) : State :=
  let s := s.update i (·.clearPin user)
  let s := s.applyUser cfg env i user
  if !shouldIgnore && env.clientBase then
    s.update i (·.heardAt env.uptimeSec)
  else s

/-- The flags of a contact, set after the record is written. -/
def State.contactFlags (verified shouldIgnore : Bool) : State :=
  if shouldIgnore then
    let s := s.after (s.setIgnored cfg num true)
    s.after (s.setFavorite cfg num false)
  else
    let s := if env.clientBase then s else s.after (s.setFavorite cfg num true)
    if verified then s.after (s.setKeyVerified cfg num true) else s

def State.addContact (user : User) (verified shouldIgnore : Bool) : Except Errno State :=
  if num = 0 ∨ num = broadcast ∨ num = cfg.self then .error .inval
  else match s.getOrCreate cfg env num with
    | none => .error .nomem
    | some (i, s) =>
      if (s.hot[i]?).any (·.refusesContact user verified) then .error .perm
      else .ok ((s.contactAt cfg env i user shouldIgnore).contactFlags cfg env num verified
        shouldIgnore)

/-- `meshtastic_nodedb_remove`: the last entry takes the place of the removed one. -/
def State.remove : Except Errno State :=
  if num = cfg.self then .error .inval
  else match s.findEntry num with
    | none => .error .noent
    | some i => match s.hot.getLast? with
      | none => .error .noent
      | some last => .ok { s with hot := (s.hot.set i last).dropLast }

def State.forget : State :=
  let s := s.after (s.remove cfg num)
  match s.warmFind num with
  | none => s
  | some i => { s with warm := s.warm.set i .empty, keySave := true }

/-- The tables after `meshtastic_nodedb_reset`, before it saves them. -/
def State.reset (keepFavorites : Bool) : State where
  hot := s.hot.filter fun e => e.used &&
    (decide (e.node.num = cfg.self) || (keepFavorites && e.node.isSet .isFavorite))
  warm := s.warm.map fun _ => .empty
  reconcile := true
  keySave := false

/-- The tables at power-up, and `meshtastic_nodedb_init` up to the restores. -/
def State.boot (user : User) : State :=
  let s : State := ⟨[], s.warm.map fun _ => .empty, false, false⟩
  match s.getOrCreate cfg env cfg.self with
  | none => s
  | some (i, s) =>
    let s := s.update i (·.heardAt env.uptimeSec)
    s.applyUser cfg env i user

def State.mtrecApply (node : NodeInfoLite) : State :=
  match s.getOrCreate cfg env num with
  | none => s
  | some (i, s) => s.update i fun e =>
      { e with used := true, lastHeardEpoch := node.lastHeard,
               node := { node with num, lastHeard := 0 } }

/-- What can happen to the store. -/
inductive Event where
  | packet (env : Env) (p : Packet)
  | noteSigner (env : Env) (num : UInt32)
  | setFavorite (num : UInt32) (v : Bool)
  | setIgnored (num : UInt32) (v : Bool)
  | setKeyVerified (num : UInt32) (v : Bool)
  | toggleMuted (num : UInt32)
  | setNextHop (num : UInt32) (hop : UInt8)
  | commitPubkey (env : Env) (num : UInt32) (key : Key)
  | commitAdminPubkey (env : Env) (num : UInt32) (key : Key)
  | addContact (env : Env) (num : UInt32) (user : User) (verified shouldIgnore : Bool)
  /-- A read that sorts the list first, into whatever order. -/
  | sort (order : List Entry)
  | remove (num : UInt32)
  | forget (num : UInt32)
  | reset (keepFavorites : Bool)
  | boot (env : Env) (user : User)
  /-- A stored key is put back into the ring. -/
  | restoreKey (k : WarmKey)
  /-- A stored record of another node is put back into the table. -/
  | restoreRecord (env : Env) (num : UInt32) (node : NodeInfoLite)

/-- One event. -/
def step : Event → State
  | .packet env p => s.onPacket cfg env p
  | .noteSigner env num => s.noteXeddsaSigner cfg env num
  | .setFavorite num v => s.after (s.setFavorite cfg num v)
  | .setIgnored num v => s.after (s.setIgnored cfg num v)
  | .setKeyVerified num v => s.after (s.setKeyVerified cfg num v)
  | .toggleMuted num => s.after (s.toggleMuted num)
  | .setNextHop num hop => s.after (s.setNextHop num hop)
  | .commitPubkey env num key => s.after (s.commitPubkey cfg env num key)
  | .commitAdminPubkey env num key => s.after (s.commitAdminPubkey cfg env num key)
  | .addContact env num user verified shouldIgnore =>
    s.after (s.addContact cfg env num user verified shouldIgnore)
  | .sort order => if order.isPerm s.hot then { s with hot := order } else s
  | .remove num => s.after (s.remove cfg num)
  | .forget num => s.forget cfg num
  | .reset keepFavorites => s.reset cfg keepFavorites
  | .boot env user => s.boot cfg env user
  | .restoreKey k => s.warmPlace k
  | .restoreRecord env num node =>
    if num = 0 ∨ num = cfg.self then s else s.mtrecApply cfg env num node

/-! ## What an event is about -/

/-- The node whose record an event works on. -/
def Event.about : Event → UInt32
  | .packet _ p => p.sender
  | .noteSigner _ num | .setFavorite num _ | .setIgnored num _ | .setKeyVerified num _
  | .toggleMuted num | .setNextHop num _ | .commitPubkey _ num _ | .commitAdminPubkey _ num _
  | .addContact _ num _ _ _ | .remove num | .forget num | .restoreRecord _ num _ => num
  | .restoreKey k => k.num
  | .sort _ | .reset _ | .boot _ _ => 0

/-- The node an event makes a record for, if there is none. -/
def Event.makes : Event → Option (Env × UInt32)
  | .packet env p => if p.sender = 0 ∨ p.sender = cfg.self then none else some (env, p.sender)
  | .noteSigner env num => if num = 0 ∨ num = cfg.self then none else some (env, num)
  | .commitAdminPubkey env num _ =>
    if num = 0 ∨ num = broadcast ∨ num = cfg.self then none else some (env, num)
  | .addContact env num _ _ _ =>
    if num = 0 ∨ num = broadcast ∨ num = cfg.self then none else some (env, num)
  | _ => none

/-- The store once the record has been searched for, and made. -/
def State.searched (ev : Event) : State :=
  match ev.makes cfg with
  | none => s
  | some (env, num) => ((s.getOrCreate cfg env num).map Prod.snd).getD s

/-- The record found or made. -/
def State.fetched (ev : Event) : Option Entry :=
  (ev.makes cfg).bind fun r => (s.getOrCreate cfg r.1 r.2).bind fun f => f.2.hot[f.1]?

/-- The record an event writes a key into, as it stood before that, and the key. -/
def State.written (ev : Event) : Option (Entry × Key) :=
  match ev with
  | .packet env p => match p.content with
    | .nodeInfo (some user) => (s.fetched cfg ev).bind fun e =>
        if e.node.refuses cfg.self env user then none else (e.node.newKey user).map (e, ·)
    | _ => none
  | .commitPubkey _ num key => (s.entry num).map (·, key)
  | .commitAdminPubkey _ _ key => (s.fetched cfg ev).map (·, key)
  | .addContact env _ user verified _ => (s.fetched cfg ev).bind fun e =>
      if e.refusesContact user verified ∨ (e.clearPin user).node.refuses cfg.self env user then none
      else ((e.clearPin user).node.newKey user).map (e, ·)
  | _ => none

/-- The manual verification of a record after an event on it. -/
def Event.verifies (ev : Event) (before : Bool) : Bool :=
  match ev with
  | .setKeyVerified _ v => v
  | .addContact _ _ _ verified shouldIgnore => before || (verified && !shouldIgnore)
  | _ => before

/-! ## A small store to try things on -/

/-- Room for this node and one peer. -/
def toyConfig : Config := ⟨2, 1⟩

def toyEnv (uptimeSec : UInt32) : Env := ⟨uptimeSec, 0, none, false⟩

def toyKey (b : UInt8) : Key := ⟨List.replicate keyLen b, List.length_replicate⟩

def toyUser (k : Key) : User := ⟨[], [], 0, 0, k.bytes, false, none⟩

def toyPacket (sender : UInt32) (content : Content) : Packet :=
  ⟨sender, content, 0, none, false, 0, 0, 0⟩

/-- A NodeInfo with a key. -/
def toyNodeInfo (uptimeSec : UInt32) (sender : UInt32) (k : Key) : Event :=
  .packet (toyEnv uptimeSec) (toyPacket sender (.nodeInfo (some (toyUser k))))

/-- Any other packet. -/
def toyHeard (uptimeSec : UInt32) (sender : UInt32) : Event :=
  .packet (toyEnv uptimeSec) (toyPacket sender .other)

/-- The store after a boot, with a ring of the given length. -/
def toyStore (ring : Nat) : State :=
  ⟨[Entry.fresh 1], List.replicate ring .empty, false, false⟩

end Zephyrtastic.NodeDb
