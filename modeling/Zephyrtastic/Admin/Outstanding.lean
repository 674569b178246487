import Zephyrtastic.Pki.Open
import Zephyrtastic.Router.Rx

/-!
# The getters that are out

A phone administers a remote node through this one: its getter goes out over the
mesh, and the response comes back addressed to this node.
-/

namespace Zephyrtastic.Admin

open NodeDb (Key)

/-! ### The variants of an admin message -/

/-- What a getter asks for. -/
inductive Subject where
  | channel
  | owner
  | config
  | moduleConfig
  | cannedMessageModuleMessages
  | deviceMetadata
  | ringtone
  | deviceConnectionStatus
  | nodeRemoteHardwarePins
  | uiConfig
  deriving DecidableEq, Repr

/-- The payload variant of `meshtastic_AdminMessage`: a getter, its response, or another one by
its field number. -/
inductive Variant where
  | request (s : Subject)
  | response (s : Subject)
  | other (tag : Nat)
  deriving DecidableEq, Repr

/-- The variant of a field number. -/
def Variant.ofTag : Nat → Variant
  | 1 => .request .channel
  | 2 => .response .channel
  | 3 => .request .owner
  | 4 => .response .owner
  | 5 => .request .config
  | 6 => .response .config
  | 7 => .request .moduleConfig
  | 8 => .response .moduleConfig
  | 10 => .request .cannedMessageModuleMessages
  | 11 => .response .cannedMessageModuleMessages
  | 12 => .request .deviceMetadata
  | 13 => .response .deviceMetadata
  | 14 => .request .ringtone
  | 15 => .response .ringtone
  | 16 => .request .deviceConnectionStatus
  | 17 => .response .deviceConnectionStatus
  | 19 => .request .nodeRemoteHardwarePins
  | 20 => .response .nodeRemoteHardwarePins
  | 44 => .request .uiConfig
  | 45 => .response .uiConfig
  | tag => .other tag

/-- `admin_response_for_request`. -/
def Variant.responseFor : Variant → Option Variant
  | .request s => some (.response s)
  | _ => none

def Variant.isResponse : Variant → Bool
  | .response _ => true
  | _ => false

def Variant.needsPasskey : Variant → Bool
  | .request _ => false
  | _ => true

/-- What nanopb's reader finds in a field. -/
inductive Value where
  | varint (v : UInt32)
  /-- A string, and the number of the first field in it. -/
  | string (inner : Option UInt32)
  | other
  deriving DecidableEq, Repr

/-- nanopb, as the admin module uses it. -/
structure Nanopb where
  /-- The fields of a message that `pb_decode_tag` steps through, if it is well formed. -/
  fields : Bytes → Option (List (UInt32 × Value))
  /-- The conversion of a field number to `pb_size_t`. -/
  toSize : UInt32 → Nat
  /-- `pb_decode` of `meshtastic_AdminMessage`: the variant and `session_passkey`. -/
  adminMessage : Bytes → Option (Variant × Bytes)

def sessionPasskeyTag : UInt32 := 101

/-- The subtype that `admin_peek_variant` reads: which module config is asked for, or sent. -/
def subtype (tag : UInt32) : Value → UInt32
  | .varint v => if tag = 7 then v else 0
  | .string (some inner) => if tag = 8 then inner else 0
  | _ => 0

/-- `admin_peek_variant`: the last field that is not the passkey. -/
def Nanopb.peekVariant (pb : Nanopb) (payload : Bytes) : Option (Variant × UInt32) :=
  match pb.fields payload with
  | none => none
  | some fields =>
    let (variant, sub) := fields.foldl (fun found f =>
      if f.1 = sessionPasskeyTag then found else (pb.toSize f.1, subtype f.1 f.2)) (0, 0)
    if variant = 0 then none else some (.ofTag variant, sub)

/-! ### The table -/

structure Outstanding where
  /-- Zero in a free slot. -/
  dest : UInt32
  requestId : UInt32
  sentMs : Nat
  expected : Variant
  moduleType : UInt32
  /-- The destination's key when the getter went out, if there was one. -/
  key : Option Key
  /-- Which of the getters passed on this is; not in the code, and nothing reads it. -/
  serial : Nat
  deriving DecidableEq, Repr

def Outstanding.free : Outstanding := ⟨0, 0, 0, .other 0, 0, none, 0⟩

/-- `admin_outstanding`. -/
def Table := Fin 8 → Outstanding

def outstandingMs : Nat := 300000

namespace Table

variable (t : Table)
variable (i : Fin 8) (o : Outstanding)

/-- The slot for a new getter: the first free one, else the oldest. -/
def slotFor : Fin 8 :=
  ((List.finRange 8).find? fun i => (t i).dest = 0).getD
    ((List.finRange 8).foldl (fun best i => if (t i).sentMs < (t best).sentMs then i else best) 0)

def put : Table := Function.update t i o

@[simp] theorem put_self : t.put i o i = o :=
  Function.update_self ..

theorem put_ne {i j : Fin 8} (h : j ≠ i) (o : Outstanding) : t.put i o j = t j :=
  Function.update_of_ne h ..

def release : Table := t.put i { t i with dest := 0 }

end Table

/-- An admin packet, as `meshtastic_admin_take_solicited_response` reads it. -/
structure Reply where
  src : UInt32
  requestId : UInt32
  pkiEncrypted : Bool
  /-- What `admin_peek_variant` finds. -/
  variant : Variant
  sub : UInt32
  /-- `meshtastic_nodedb_copy_pubkey` of the sender. -/
  key : Option Key
  /-- `k_uptime_get`. -/
  now : Nat
  deriving DecidableEq, Repr

def remoteHardwareTag : UInt32 := 9

def remoteHardwareConfig : UInt32 := 8

namespace Outstanding

variable (o : Outstanding) (r : Reply)

/-- The slot's getter is the one that the packet names. -/
def answeredBy : Bool :=
  o.dest ≠ 0 && o.dest = r.src && o.expected = r.variant && o.requestId = r.requestId

/-- The getter's window is over. -/
def lapsed : Bool := o.sentMs + outstandingMs < r.now

/-- The key that was pinned is the sender's, and the packet came over PKC. -/
def keyOk : Bool := o.key = none || (r.pkiEncrypted && r.key = o.key)

/-- The one module config that changes the node's state answers a getter for that type only. -/
def subtypeOk : Bool :=
  !(r.variant = .response .moduleConfig && r.sub = remoteHardwareTag
    && o.moduleType ≠ remoteHardwareConfig)

end Outstanding

/-- One slot in the loop of `meshtastic_admin_take_solicited_response`: the table, and the getter
that was taken. -/
def takeStep (r : Reply) (acc : Table × Option Nat) (i : Fin 8) : Table × Option Nat :=
  let o := acc.1 i
  if acc.2.isSome || !o.answeredBy r then acc
  else if o.lapsed r then (acc.1.release i, none)
  else if o.keyOk r && o.subtypeOk r then (acc.1.release i, some o.serial)
  else acc

/-- `meshtastic_admin_take_solicited_response`, for a packet with an admin message. -/
def Table.takeSolicitedResponse (t : Table) (r : Reply) : Table × Option Nat :=
  if r.requestId = 0 || !r.variant.isResponse then (t, none)
  else (List.finRange 8).foldl (takeStep r) (t, none)

/-! ### What a packet takes -/

/-- A slot is as it was, or has been freed. -/
def Loosened (t u : Table) : Prop := ∀ i, u i = t i ∨ (u i).dest = 0

/-- The slot of a getter that a packet takes. -/
structure Taken (t u : Table) (r : Reply) (i : Fin 8) : Prop where
  answeredBy : (t i).answeredBy r = true
  timely : (t i).lapsed r = false
  keyOk : (t i).keyOk r = true
  freed : (u i).dest = 0

section
variable {t u : Table} {r : Reply}

theorem release_dest (t : Table) (i : Fin 8) : (t.release i i).dest = 0 := by
  rw [Table.release, Table.put_self]

theorem Loosened.release (h : Loosened t u) (i : Fin 8) : Loosened t (u.release i) := by
  intro j
  by_cases hj : j = i
  · right
    rw [hj]
    exact release_dest u i
  · rw [Table.release, Table.put_ne _ hj]
    exact h j

theorem takeStep_spec (i : Fin 8) {found : Option Nat} (h : Loosened t u)
    (htaken : ∀ n, found = some n → ∃ j, (t j).serial = n ∧ Taken t u r j) :
    Loosened t (takeStep r (u, found) i).1 ∧
      ∀ n, (takeStep r (u, found) i).2 = some n →
        ∃ j, (t j).serial = n ∧ Taken t (takeStep r (u, found) i).1 r j := by
  unfold takeStep
  dsimp only
  split
  · exact ⟨h, htaken⟩
  next hopen =>
  simp only [Bool.or_eq_true, Bool.not_eq_true', not_or, Bool.not_eq_false,
    Bool.not_eq_true] at hopen
  have hsame : u i = t i := by
    refine (h i).resolve_right fun hfree => ?_
    have := hopen.2
    simp [Outstanding.answeredBy, hfree] at this
  split
  · exact ⟨h.release i, nofun⟩
  next hlapsed =>
  split
  · next hok =>
    rw [Bool.and_eq_true] at hok
    refine ⟨h.release i, fun n hn => ⟨i, ?_, ?_⟩⟩
    · rw [← hsame]
      exact Option.some.inj hn
    · rw [hsame] at hopen hlapsed hok
      exact ⟨hopen.2, Bool.eq_false_of_not_eq_true hlapsed, hok.1, release_dest u i⟩
  · exact ⟨h, htaken⟩

theorem takeSolicitedResponse_spec (t : Table) (r : Reply) :
    Loosened t (t.takeSolicitedResponse r).1 ∧
      ∀ n, (t.takeSolicitedResponse r).2 = some n →
        r.requestId ≠ 0 ∧ r.variant.isResponse = true ∧
        ∃ j, (t j).serial = n ∧ Taken t (t.takeSolicitedResponse r).1 r j := by
  unfold Table.takeSolicitedResponse
  split
  · exact ⟨fun _ => .inl rfl, nofun⟩
  next hasked =>
  simp only [Bool.or_eq_true, decide_eq_true_eq, Bool.not_eq_true', not_or,
    Bool.not_eq_false] at hasked
  have hloop := List.foldlRecOn (motive := fun acc : Table × Option Nat => Loosened t acc.1 ∧
      ∀ n, acc.2 = some n → ∃ j, (t j).serial = n ∧ Taken t acc.1 r j) (List.finRange 8)
    (takeStep r) (b := (t, none)) ⟨fun _ => .inl rfl, nofun⟩
    (fun acc hacc i _ => takeStep_spec i hacc.1 hacc.2)
  exact ⟨hloop.1, fun n hn => ⟨hasked.1, hasked.2, hloop.2 n hn⟩⟩

end

end Zephyrtastic.Admin
