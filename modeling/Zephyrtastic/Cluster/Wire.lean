import Zephyrtastic.Cluster.Doc

/-!
# Cluster messages

The protobuf messages after decoding, and the conversions between their fields
and the document's. A submessage that may be absent is an `Option`, and an
enumeration keeps the values this build does not know.
-/

namespace Zephyrtastic.Cluster

/-- How many stamp rows ride in one vector. -/
def vectorRows : Nat := 4
/-- How many keys ride in one entry request. -/
def pullKeysMax : Nat := 6
/-- How many payload bytes ride in one entry frame. -/
def fragMax : Nat := 88

inductive LayerPb where
  | base | node | other (value : UInt32)
  deriving DecidableEq, Repr

structure KeyPb where
  layer : LayerPb
  nodeId : UInt32
  sec : UInt32
  deriving DecidableEq, Repr

inductive ScopePb where
  | unspecified | full | core | other (value : UInt32)
  deriving DecidableEq, Repr

structure KeyStampPb where
  key : Option KeyPb
  stamp : Option Stamp

structure DigestPb where
  docHash : UInt32
  entryCount : UInt32
  /-- An absent stamp decodes as the unset one. -/
  maxStamp : Stamp
  scope : ScopePb
  baseHash : UInt32
  baseCount : UInt32

structure VectorPb where
  entries : List KeyStampPb
  offset : UInt32
  total : UInt32

structure EntryPb where
  key : Option KeyPb
  stamp : Option Stamp
  tombstone : Bool
  payload : List UInt8
  payloadTotal : UInt32
  fragOffset : UInt32
  authorSig : List UInt8

inductive Message where
  | digest (d : DigestPb)
  | vectorReq (scope : ScopePb)
  | vector (v : VectorPb)
  | entryReq (keys : List KeyPb)
  | entry (e : EntryPb)
  | other

def keyToPb (key : Key) : KeyPb :=
  ⟨if key.layer = layerBase then .base else .node, key.nodeId, key.sec.toUInt32⟩

/-- A section wider than the document's field becomes one the allowlist rejects. -/
def keyFromPb (key : KeyPb) : Key :=
  ⟨if key.layer = .base then layerBase else layerNode, key.nodeId,
    if key.sec.toNat ≤ 65535 then key.sec.toUInt16 else 0⟩

/-- The scope a sender claims, and whether its digest carries a base leg. The
owner comes from the mesh header. -/
def scopeFromPb (scope : ScopePb) (sender : UInt32) : Scope × Bool :=
  match scope with
  | .core => (Scope.make .core sender, true)
  | .full => (Scope.make .full 0, true)
  | _ => (Scope.make .full 0, false)

def scopeToPb (scope : Scope) : ScopePb :=
  if scope.kind = .core then .core else .full

def ScopePb.code : ScopePb → UInt32
  | .unspecified => 0
  | .full => 1
  | .core => 2
  | .other value => value

theorem keyFromPb_keyToPb {key : Key} (h : keyIsValid key = true) :
    keyFromPb (keyToPb key) = key := by
  have hsec : key.sec.toUInt32.toNat ≤ 65535 := by
    have := key.sec.toNat_lt
    rw [UInt16.toNat_toUInt32]
    omega
  obtain ⟨l, n, s⟩ := key
  simp only [keyIsValid] at h
  by_cases hb : l = layerBase
  · simp [keyFromPb, keyToPb, hb] at hsec ⊢
    omega
  have hn : l = layerNode := by
    by_contra hne
    simp [hb, hne] at h
  simp [keyFromPb, keyToPb, hn, show layerNode ≠ layerBase by decide] at hsec ⊢
  omega

/-- How many payload bytes the next fragment carries; a cursor past the end
restarts the entry. -/
def fragTake (payloadLen off cap : Nat) : Nat × Nat :=
  let off := if off > payloadLen then 0 else off
  let remain := payloadLen - off
  (off, if remain < cap then remain else cap)

/-- Receive-side bounds for one fragment on the wire widths; the sum is formed in
64 bits. A total of zero means that the fragment is the entry. -/
def fragFits (total off len payloadMax fragMax : Nat) : Nat × Bool :=
  let total := if total = 0 then len else total
  (total, decide (total ≤ payloadMax) && decide (len ≤ fragMax) && decide (off + len ≤ total))

/-- `zephyrtastic/cluster-entry/v1` with its terminating zero. -/
def sigbufPrefix : List UInt8 :=
  "zephyrtastic/cluster-entry/v1".toUTF8.toList ++ [0]

/-- The bytes an author signs; none when the payload is too long. -/
def signingBuffer (key : Key) (stamp : Stamp) (tombstone : Bool) (payload : List UInt8) :
    Option (List UInt8) :=
  if payload.length > payloadMax then none
  else some (sigbufPrefix ++ [key.layer] ++ leBytes 4 key.nodeId.toNat ++
    leBytes 2 key.sec.toNat ++ leBytes 8 stamp.physicalMs.toUInt64.toNat ++
    leBytes 4 stamp.counter.toNat ++ leBytes 4 stamp.nodeId.toNat ++
    [if tombstone then 1 else 0] ++ leBytes 2 payload.length ++ payload)

inductive SigVerdict where
  | acceptVerified | acceptUnsigned | acceptUnchecked
  | refuseUnsigned | refuseMalformed | refuseNoKey | refuseBad
  deriving DecidableEq, Repr

/-- The signature policy, as a table. -/
def sigPolicy (sigLength : Nat) (requireSigned authorIsSelf canVerify haveKey verifies : Bool) :
    SigVerdict :=
  if sigLength = 0 then
    if requireSigned && !authorIsSelf then .refuseUnsigned else .acceptUnsigned
  else if sigLength ≠ sigLen then .refuseMalformed
  else if !canVerify then .acceptUnchecked
  else if !haveKey then .refuseNoKey
  else if verifies then .acceptVerified else .refuseBad

end Zephyrtastic.Cluster
