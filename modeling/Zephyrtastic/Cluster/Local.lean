import Zephyrtastic.Cluster.Serve

/-!
# Local writers and the flash loader

`promote`, `pin`, `unpin` and `publish` put writes of this node into the document,
and `settingsSet` reads records back from flash. What a writer reads of the
configuration store is an argument here.
-/

namespace Zephyrtastic.Cluster

open State SameTables

inductive Errno where
  | perm | noent | inval | already | msgsize | nospc
  deriving DecidableEq, Repr

/-- A record under `mtclus/`, opened and of the size its name asks for. -/
inductive Record where
  | scope (kind : Option ScopeKind) (cap : Nat)
  | entry (key : Key) (stamp : Stamp) (flags : UInt8) (body : List UInt8)

def recTombstone : UInt8 := 1
def recSigned : UInt8 := 2

section Local
variable {nd : Node}
variable (c : State nd) (env : Env) (sec : UInt16) (key : Key)
variable (stamp storeStamp : Stamp) (snapshot : Except Errno (List UInt8 × Stamp))

/-- May we put one more push in the air right now? -/
def State.mayPush : Bool × State nd :=
  if nd.pushMinIntervalMs = 0 then (true, c)
  else
    let bucket := refill nd.pushMinIntervalMs pushBurst env.uptimeMs c.pushTokens c.pushRefillMs
    (decide (bucket.1 > 0), { c with pushTokens := bucket.1, pushRefillMs := bucket.2 })

/-- Queue one key of ours for a single broadcast. -/
def State.pushEnqueue : State nd :=
  if c.pushKeys.any fun k => decide (k.cmp key = 0) then c.count .pushSuppressed
  else if c.pushKeys.length ≥ pushQueue then c.count .pushSuppressed
  else
    let r := c.mayPush env
    if !r.1 then r.2.count .pushSuppressed
    else { r.2 with pushTokens := r.2.pushTokens - 1, pushKeys := r.2.pushKeys ++ [key] }

/-- Sign a version this node is about to write; unsigned when that fails. -/
def State.signEntry (tombstone : Bool) (payload : List UInt8) : Option Signature × State nd :=
  if !nd.sign then (none, c)
  else match (signingBuffer key stamp tombstone payload).bind env.pkiSign with
    | some sig => (some sig, c.count .sigSigned)
    | none => (none, c.count .sigSignFailed)

def State.acceptLocal (w : Entry) : Accept × State nd :=
  ((c.doc.acceptSigned w).1, { c with doc := (c.doc.acceptSigned w).2 })

/-- Our own write, refused for room, narrows the claim and tries once more. -/
def State.acceptOrDemote (w : Entry) : Accept × State nd :=
  if (c.doc.acceptSigned w).1 = .noSpace then c.demote.acceptLocal w else c.acceptLocal w

/-- The version a local write gets: newer than the store's and than the clock. -/
def State.mint : Stamp × State nd :=
  let c := c.observe env storeStamp
  let m := c.hlc.localAt nd.me env.epochMs
  (m.2, { c with hlc := m.1 })

/-- The write itself, shared by the local writers: mint, accept, queue the push. -/
def State.docWriteLocal (tombstone : Bool) (payload : List UInt8) : Except Errno Unit × State nd :=
  let m := c.mint env storeStamp
  let s := m.2.signEntry env key m.1 tombstone payload
  match s.2.acceptOrDemote ⟨key, m.1, tombstone, payload, s.1⟩ with
  | (.stored, c) => (.ok (), c.pushEnqueue env key)
  | (.stale, c) => (.error .inval, c)
  | (.noSpace, c) => (.error .nospc, c)
  | (.invalid, c) => (.error .inval, c)

def localWritesAllowed (nd : Node) (env : Env) : Bool := !(nd.admin && env.managed)

/-- The store's value came from the live entry at the key. -/
def State.storeCameFrom : Bool :=
  match c.doc.find key with
  | some e => !e.tombstone && decide (storeStamp.compare e.stamp = 0)
  | none => false

/-- Lift the store's value, already read and encoded, into the document. -/
def State.lift : Except Errno Unit × State nd :=
  match snapshot with
  | .error err => (.error err, c)
  | .ok (payload, storeStamp) =>
    if c.storeCameFrom key storeStamp then (.error .already, c)
    else c.docWriteLocal env key storeStamp false payload

def State.promote : Except Errno Unit × State nd :=
  if !sectionShareable sec || !localWritesAllowed nd env then (.error .perm, c)
  else if sec = loraTag then (.error .perm, c)
  else c.lift env (Key.base sec) snapshot

def State.pin : Except Errno Unit × State nd :=
  if !sectionShareable sec || !localWritesAllowed nd env then (.error .perm, c)
  else if sec = loraTag then (.error .perm, c)
  else if nd.me = 0 then (.error .inval, c)
  else c.lift env (Key.node nd.me sec) snapshot

/-- A tombstone over this node's own entry. -/
def State.unpin (storeStamp : Option Stamp) : Except Errno Unit × State nd :=
  if !localWritesAllowed nd env then (.error .perm, c)
  else if nd.me = 0 then (.error .inval, c)
  else match c.doc.find (Key.node nd.me sec) with
    | none => (.error .noent, c)
    | some e =>
      if e.tombstone then (.error .already, c)
      else c.docWriteLocal env (Key.node nd.me sec) (storeStamp.getD Stamp.unset) true []

def publishKey (layer : UInt8) (nodeId : UInt32) : Key :=
  ⟨layer, if layer = layerBase then 0 else nodeId, sec⟩

/-- The private sections' writer. An empty payload is a tombstone. -/
def State.publish (layer : UInt8) (nodeId : UInt32)
    (payload : List UInt8) : Except Errno Unit × State nd :=
  let tombstone := decide (payload.length = 0)
  if !sectionIsPrivate sec || !sectionShareable sec || !localWritesAllowed nd env then
    (.error .perm, c)
  else if payload.length > payloadMax then (.error .msgsize, c)
  else if !payloadIsItsSection nd sec payload tombstone then (.error .inval, c)
  else c.docWriteLocal env (publishKey sec layer nodeId) Stamp.unset tombstone payload

/-- The entry a record holds; a signature trails the payload, and a flag this build
does not know is not guessed at. -/
def recordEntry (flags : UInt8) (body : List UInt8) : Option Entry :=
  let tombstone := decide (flags &&& recTombstone ≠ 0)
  if flags &&& ~~~(recTombstone ||| recSigned) ≠ 0 then none
  else if flags &&& recSigned ≠ 0 then
    if body.length < sigLen ∨ body.length - sigLen > payloadMax then none
    else some ⟨key, stamp, tombstone, body.take (body.length - sigLen),
      carriedSig (body.drop (body.length - sigLen))⟩
  else if body.length > payloadMax then none
  else some ⟨key, stamp, tombstone, body, none⟩

/-- A persisted entry, held to the static rules and the scope the air is held to. -/
def State.loadEntry (flags : UInt8) (body : List UInt8) : State nd :=
  match recordEntry key stamp flags body with
  | none => c
  | some w =>
    if !sectionShareable w.key.sec ||
        !payloadIsItsSection nd w.key.sec w.payload w.tombstone then c
    else if !c.myScope.contains w.key then c
    else { c with doc := (c.doc.acceptSigned w).2 }.observe env w.stamp

/-- The recorded claim, when this build left it open and the table has not grown. -/
def State.loadScope (kind : Option ScopeKind) (cap : Nat) : State nd :=
  if nd.scopeChoice ≠ .auto then c
  else if nd.maxEntries > cap then c
  else match kind with
    | some .core => { c with scopeKind := .core }
    | some .full => { c with scopeKind := .full }
    | _ => c

/-- `cluster_settings_set` on a readable record. -/
def State.settingsSet : Record → State nd
  | .scope kind cap => c.loadScope kind cap
  | .entry key stamp flags body => c.loadEntry env key stamp flags body

variable {w : Entry}

theorem recordEntry_key {key : Key} {stamp : Stamp} {flags : UInt8} {body : List UInt8}
    (h : recordEntry key stamp flags body = some w) : w.key = key ∧ w.stamp = stamp := by
  simp only [recordEntry, Option.ite_none_left_eq_some] at h
  obtain ⟨-, h⟩ := h
  split at h <;> simp only [Option.ite_none_left_eq_some, Option.some.injEq] at h <;>
    obtain ⟨-, rfl⟩ := h <;> exact ⟨rfl, rfl⟩

theorem loadEntry_tables (key : Key) (stamp : Stamp) (flags : UInt8)
    (body : List UInt8) : c.SameTables (c.loadEntry env key stamp flags body) ∨
    ∃ w, w.key = key ∧ w.stamp = stamp ∧ c.myScope.contains w.key = true ∧
      c.Stores (c.loadEntry env key stamp flags body) w := by
  unfold loadEntry
  split
  · exact .inl (refl c)
  rename_i w hw
  split
  · exact .inl (refl c)
  split
  · exact .inl (refl c)
  rename_i hsc
  obtain ⟨hk, hs⟩ := recordEntry_key hw
  by_cases hst : (c.doc.acceptSigned w).1 = .stored
  · exact .inr ⟨w, hk, hs, by simpa using hsc, hst, rfl, rfl, rfl⟩
  · exact .inl ⟨Doc.acceptSigned_of_ne_stored hst, rfl, rfl, rfl⟩

theorem mint_sameTables (storeStamp : Stamp) : c.SameTables (c.mint env storeStamp).2 := by
  simp only [mint, observe]
  exact ⟨rfl, rfl, rfl, rfl⟩

theorem signEntry_quiet (key : Key) (stamp : Stamp) (tombstone : Bool) (payload : List UInt8) :
    c.Quiet (c.signEntry env key stamp tombstone payload).2 := by
  unfold signEntry
  split
  · exact Quiet.refl c
  · split
    · exact ⟨⟨rfl, rfl, rfl, rfl⟩, rfl⟩
    · exact ⟨⟨rfl, rfl, rfl, rfl⟩, rfl⟩

theorem pushEnqueue_quiet (key : Key) : c.Quiet (c.pushEnqueue env key) := by
  have hp : c.Quiet (c.mayPush env).2 := by
    unfold mayPush
    split <;> exact ⟨⟨rfl, rfl, rfl, rfl⟩, rfl⟩
  unfold pushEnqueue
  split
  · exact ⟨⟨rfl, rfl, rfl, rfl⟩, rfl⟩
  split
  · exact ⟨⟨rfl, rfl, rfl, rfl⟩, rfl⟩
  simp only
  split
  · exact hp.trans ⟨⟨rfl, rfl, rfl, rfl⟩, rfl⟩
  · exact hp.trans ⟨⟨rfl, rfl, rfl, rfl⟩, rfl⟩

theorem acceptLocal_tables (c : State nd) (w : Entry) :
    c.Stores (c.acceptLocal w).2 w ∨ c.SameTables (c.acceptLocal w).2 := by
  by_cases h : (c.doc.acceptSigned w).1 = .stored
  · exact .inl ⟨h, rfl, rfl, rfl⟩
  · exact .inr ⟨Doc.acceptSigned_of_ne_stored h, rfl, rfl, rfl⟩

/-- The key is new and the table is full. -/
def State.NoRoom (c : State nd) (key : Key) : Prop :=
  c.doc.find key = none ∧ nd.maxEntries ≤ c.doc.count

variable {c}

theorem noRoom_of_noSpace (h : (c.doc.acceptSigned w).1 = .noSpace) : c.NoRoom w.key := by
  cases c.doc.acceptSigned_outcome w with
  | invalid _ hr | stale _ _ _ _ hr =>
    rw [hr] at h
    cases h
  | noSpace hn hfull _ _ => exact ⟨hn, hfull⟩
  | stored _ _ _ hs _ =>
    rw [hs] at h
    cases h

/-- What is left of the tables by a local write of `w`: nothing moved, the write
is stored, or the claim is narrowed first. -/
inductive Written (c : State nd) (w : Entry) (c' : State nd) : Prop
  | same (h : c.SameTables c')
  | stores (h : c.Stores c' w)
  | narrows (room : c.NoRoom w.key) (free : ¬ c.Fixed) (h : c.Rescoped c' .core)
  | retries (room : c.NoRoom w.key) (free : ¬ c.Fixed) (mid : State nd)
      (narrow : c.Rescoped mid .core) (h : mid.Stores c' w)

theorem Written.of_same {c' c'' : State nd} (h : c.SameTables c')
    (hw : Written c' w c'') : Written c w c'' := by
  have hroom : c'.NoRoom w.key → c.NoRoom w.key := by
    unfold NoRoom
    rw [h.doc]
    exact id
  have hfix : ¬ c'.Fixed → ¬ c.Fixed := by
    unfold Fixed
    rw [h.kind, h.pinned]
    exact id
  cases hw with
  | same h' => exact .same (h.trans h')
  | stores h' => exact .stores (Stores.of_same h h')
  | narrows room free h' => exact .narrows (hroom room) (hfix free) (Rescoped.of_same h h')
  | retries room free mid narrow h' =>
    exact .retries (hroom room) (hfix free) mid (Rescoped.of_same h narrow) h'

theorem Written.then_same {c' c'' : State nd} (hw : Written c w c')
    (h : c'.SameTables c'') : Written c w c'' := by
  cases hw with
  | same h' => exact .same (h'.trans h)
  | stores h' => exact .stores (h'.then_same h)
  | narrows room free h' => exact .narrows room free (h'.then_same h)
  | retries room free mid narrow h' => exact .retries room free mid narrow (h'.then_same h)

theorem acceptOrDemote_written (c : State nd) (w : Entry) : Written c w (c.acceptOrDemote w).2 := by
  have hplain : Written c w (c.acceptLocal w).2 := (acceptLocal_tables c w).elim .stores .same
  unfold acceptOrDemote
  split
  · rename_i hno
    obtain hd | ⟨hfree, hd⟩ := demote_cases c
    · rw [hd]
      exact hplain
    · rcases acceptLocal_tables c.demote w with h | h
      · exact .retries (noRoom_of_noSpace hno) hfree _ hd h
      · exact .narrows (noRoom_of_noSpace hno) hfree (hd.then_same h)
  · exact hplain

section
variable (c) (tombstone : Bool) (payload : List UInt8)
include c env key storeStamp tombstone payload

/-- The write is minted and signed, the table answers, and what is stored is queued. -/
theorem docWriteLocal_steps :
    let m := c.mint env storeStamp
    let s := m.2.signEntry env key m.1 tombstone payload
    let a := s.2.acceptOrDemote ⟨key, m.1, tombstone, payload, s.1⟩
    let r := c.docWriteLocal env key storeStamp tombstone payload
    a.1 = .stored ∧ r = (.ok (), a.2.pushEnqueue env key) ∨
      a.1 ≠ .stored ∧ r.1.isOk = false ∧ r.2 = a.2 := by
  simp only [docWriteLocal]
  split <;> rename_i he <;> rw [he]
  · exact .inl ⟨rfl, rfl⟩
  · exact .inr ⟨nofun, rfl, rfl⟩
  · exact .inr ⟨nofun, rfl, rfl⟩
  · exact .inr ⟨nofun, rfl, rfl⟩

/-- **Everything a local write can do** to the tables. -/
theorem docWriteLocal_written :
    ∃ sig, Written c ⟨key, (c.mint env storeStamp).1, tombstone, payload, sig⟩
      (c.docWriteLocal env key storeStamp tombstone payload).2 := by
  have hs := (mint_sameTables c env storeStamp).trans
    (signEntry_quiet _ env key (c.mint env storeStamp).1 tombstone payload).toSameTables
  rcases docWriteLocal_steps c env key storeStamp tombstone payload with ⟨-, hr⟩ | ⟨-, -, hr⟩ <;>
    rw [hr]
  · exact ⟨_, (Written.of_same hs (acceptOrDemote_written _ _)).then_same
      (pushEnqueue_quiet _ _ _).toSameTables⟩
  · exact ⟨_, Written.of_same hs (acceptOrDemote_written _ _)⟩

end

/-! What the gates of each writer leave: the state as it was, or the write. -/

section
variable (c)

theorem publish_cases (layer : UInt8) (nodeId : UInt32)
    (payload : List UInt8) : (c.publish env sec layer nodeId payload).2 = c ∨
    c.publish env sec layer nodeId payload =
      c.docWriteLocal env (publishKey sec layer nodeId) Stamp.unset (decide (payload.length = 0))
        payload := by
  unfold publish
  dsimp only
  split
  · exact .inl rfl
  split
  · exact .inl rfl
  split
  · exact .inl rfl
  · exact .inr rfl

theorem promote_cases : (c.promote env sec snapshot).2 = c ∨
    c.promote env sec snapshot = c.lift env (Key.base sec) snapshot := by
  unfold promote
  split
  · exact .inl rfl
  split
  · exact .inl rfl
  · exact .inr rfl

theorem pin_cases : (c.pin env sec snapshot).2 = c ∨
    c.pin env sec snapshot = c.lift env (Key.node nd.me sec) snapshot := by
  unfold pin
  split
  · exact .inl rfl
  split
  · exact .inl rfl
  split
  · exact .inl rfl
  · exact .inr rfl

theorem unpin_cases (storeStamp : Option Stamp) :
    (c.unpin env sec storeStamp).2 = c ∨
    c.unpin env sec storeStamp =
      c.docWriteLocal env (Key.node nd.me sec) (storeStamp.getD Stamp.unset) true [] := by
  unfold unpin
  split
  · exact .inl rfl
  split
  · exact .inl rfl
  split
  · exact .inl rfl
  split
  · exact .inl rfl
  · exact .inr rfl

end

theorem loadScope_cases (c : State nd) (kind : Option ScopeKind) (cap : Nat) :
    c.loadScope kind cap = c ∨
    nd.scopeChoice = .auto ∧ nd.maxEntries ≤ cap ∧
      ∃ k, (k = .core ∨ k = .full) ∧ kind = some k ∧
        c.loadScope kind cap = { c with scopeKind := k } := by
  unfold loadScope
  split
  · exact .inl rfl
  next hauto =>
  split
  · exact .inl rfl
  next hcap =>
  have hopen := And.intro (not_not.mp hauto) (Nat.le_of_not_lt hcap)
  split
  · exact .inr ⟨hopen.1, hopen.2, .core, .inl rfl, rfl, rfl⟩
  · exact .inr ⟨hopen.1, hopen.2, .full, .inr rfl, rfl, rfl⟩
  · exact .inl rfl

/-- The write a snapshot of the store is lifted into. -/
def State.Lifts (c : State nd) (env : Env) (key : Key)
    (snapshot : Except Errno (List UInt8 × Stamp)) (w : Entry) : Prop :=
  ∃ payload storeStamp sig, snapshot = .ok (payload, storeStamp) ∧
    w = ⟨key, (c.mint env storeStamp).1, false, payload, sig⟩

/-- The tombstone an unpin writes. -/
def State.Unpins (c : State nd) (env : Env) (sec : UInt16) (storeStamp : Option Stamp)
    (w : Entry) : Prop :=
  ∃ sig, w = ⟨Key.node nd.me sec, (c.mint env (storeStamp.getD Stamp.unset)).1, true, [], sig⟩

theorem State.Lifts.key_eq {env : Env} {key : Key} {snapshot : Except Errno (List UInt8 × Stamp)}
    (h : c.Lifts env key snapshot w) : w.key = key := by
  obtain ⟨_, _, _, _, rfl⟩ := h
  rfl

theorem State.Unpins.key_eq {env : Env} {sec : UInt16} {storeStamp : Option Stamp}
    (h : c.Unpins env sec storeStamp w) : w.key = Key.node nd.me sec := by
  obtain ⟨_, rfl⟩ := h
  rfl

theorem lift_tables (c : State nd) (env : Env) (key : Key)
    (snapshot : Except Errno (List UInt8 × Stamp)) : c.SameTables (c.lift env key snapshot).2 ∨
    ∃ w, c.Lifts env key snapshot w ∧ Written c w (c.lift env key snapshot).2 := by
  unfold lift
  split
  · exact .inl (refl c)
  rename_i payload storeStamp
  split
  · exact .inl (refl c)
  · obtain ⟨sig, hw⟩ := docWriteLocal_written c env key storeStamp false payload
    exact .inr ⟨_, ⟨payload, storeStamp, sig, rfl, rfl⟩, hw⟩

variable (c)

theorem publish_tables (layer : UInt8) (nodeId : UInt32) (payload : List UInt8) :
    c.SameTables (c.publish env sec layer nodeId payload).2 ∨
    ∃ w, w.key = publishKey sec layer nodeId ∧
      Written c w (c.publish env sec layer nodeId payload).2 := by
  rcases publish_cases c env sec layer nodeId payload with hc | hc <;> rw [hc]
  · exact .inl (refl c)
  · obtain ⟨sig, hw⟩ := docWriteLocal_written c env (publishKey sec layer nodeId) Stamp.unset
      (decide (payload.length = 0)) payload
    exact .inr ⟨_, rfl, hw⟩

theorem promote_tables :
    c.SameTables (c.promote env sec snapshot).2 ∨
    ∃ w, c.Lifts env (Key.base sec) snapshot w ∧ Written c w (c.promote env sec snapshot).2 := by
  rcases promote_cases c env sec snapshot with hc | hc <;> rw [hc]
  · exact .inl (refl c)
  · exact lift_tables c env (Key.base sec) snapshot

theorem pin_tables : c.SameTables (c.pin env sec snapshot).2 ∨
    ∃ w, c.Lifts env (Key.node nd.me sec) snapshot w ∧
      Written c w (c.pin env sec snapshot).2 := by
  rcases pin_cases c env sec snapshot with hc | hc <;> rw [hc]
  · exact .inl (refl c)
  · exact lift_tables c env (Key.node nd.me sec) snapshot

theorem unpin_tables (storeStamp : Option Stamp) :
    c.SameTables (c.unpin env sec storeStamp).2 ∨
    ∃ w, c.Unpins env sec storeStamp w ∧ Written c w (c.unpin env sec storeStamp).2 := by
  rcases unpin_cases c env sec storeStamp with hc | hc <;> rw [hc]
  · exact .inl (refl c)
  · obtain ⟨sig, hw⟩ := docWriteLocal_written c env (Key.node nd.me sec)
      (storeStamp.getD Stamp.unset) true []
    exact .inr ⟨_, ⟨sig, rfl⟩, hw⟩

end Local

end Zephyrtastic.Cluster
