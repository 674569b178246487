import Zephyrtastic.Admin.Outstanding

/-!
# The session passkey

Every admin response of the node carries the passkey of the session, and a remote
node has to send it back with a request that changes something.
-/

namespace Zephyrtastic.Admin

open NodeDb (Key)

def sessionKeyLen : Nat := 8

/-- `session_key`. -/
structure Passkey where
  bytes : Bytes
  length_eq : bytes.length = sessionKeyLen
  deriving DecidableEq, Repr

/-- `session_key` and `session_born`, when `session_present`. -/
structure Session where
  key : Passkey
  /-- In seconds of the uptime. -/
  born : Nat
  deriving DecidableEq, Repr

def rotateSeconds : Nat := 150

def validSeconds : Nat := 300

def nowSeconds (ms : Nat) : Nat := ms / 1000

/-- A response goes out with the passkey that is there. -/
def Session.current (s : Session) (ms : Nat) : Bool := nowSeconds ms ≤ s.born + rotateSeconds

/-- `meshtastic_admin_session_current`, with what `sys_rand_get` gives. -/
def sessionCurrent (s : Option Session) (ms : Nat) (random : Passkey) : Option Session :=
  if s.any (·.current ms) then s else some ⟨random, nowSeconds ms⟩

/-- The passkey is still good. -/
def Session.valid (s : Session) (ms : Nat) (key : Bytes) : Bool :=
  nowSeconds ms < s.born + validSeconds && key = s.key.bytes

theorem Session.valid_iff {s : Session} {ms : Nat} {key : Bytes} :
    s.valid ms key = true ↔ nowSeconds ms < s.born + validSeconds ∧ key = s.key.bytes := by
  simp [Session.valid]

def sessionValid (s : Option Session) (ms : Nat) (key : Bytes) : Bool :=
  key.length = sessionKeyLen && s.any (·.valid ms key)

/-! ### A remote node's request -/

/-- What the admin handler reads of the node for one packet. -/
structure Desk where
  pb : Nanopb
  session : Option Session
  /-- `k_uptime_get`. -/
  now : Nat
  /-- `meshtastic_admin_client_on_admin`: an answer to a request of this node's own. -/
  clientTakes : Bool
  /-- `CONFIG_MESHTASTIC_LOCKDOWN`. -/
  lockdown : Bool
  /-- The store is locked, or not yet reloaded. -/
  storeLocked : Bool

/-- `meshtastic_AdminMessage_lockdown_auth_tag`. -/
def lockdownAuth : Variant := .other 104

/-- `admin_dispatch` for a remote node's message: what reaches the handlers, if it does. -/
def Desk.adminDispatch (d : Desk) (payload : Bytes) : Option (Variant × Bytes) :=
  match d.pb.adminMessage payload with
  | none => none
  | some (variant, passkey) =>
    if d.lockdown && (variant = lockdownAuth || d.storeLocked) then none
    else if variant.needsPasskey && !sessionValid d.session d.now passkey then none
    else some (variant, passkey)

/-- `admin_remote_authorized`, with `meshtastic_admin_node_is_trusted`: over PKC, from a node whose
key on file is an admin key. -/
def adminRemoteAuthorized (pkiEncrypted : Bool) (key : Option Key) (adminKeys : List Key) : Bool :=
  pkiEncrypted && key.any (· ∈ adminKeys)

/-- `meshtastic_admin_handle_remote`: what is applied. -/
def Desk.handleRemote (d : Desk) (pkiEncrypted : Bool) (key : Option Key) (adminKeys : List Key)
    (payload : Bytes) : Option (Variant × Bytes) :=
  if d.clientTakes then none
  else if (d.pb.peekVariant payload).any (·.1.isResponse) then none
  else if !adminRemoteAuthorized pkiEncrypted key adminKeys then none
  else d.adminDispatch payload

section
variable {d : Desk} {pkiEncrypted : Bool} {key : Option Key} {adminKeys : List Key}
  {payload : Bytes} {variant : Variant} {passkey : Bytes}

theorem handleRemote_some
    (h : d.handleRemote pkiEncrypted key adminKeys payload = some (variant, passkey))
    (hwrite : variant.needsPasskey = true) :
    pkiEncrypted = true ∧ d.pb.adminMessage payload = some (variant, passkey) ∧
      ∃ s, d.session = some s ∧ passkey = s.key.bytes ∧
        nowSeconds d.now < s.born + validSeconds := by
  unfold Desk.handleRemote at h
  split at h
  · cases h
  split at h
  · cases h
  split at h
  · cases h
  next hauth =>
  have hpki : pkiEncrypted = true := by
    simp only [adminRemoteAuthorized, Bool.not_eq_true', Bool.not_eq_false, Bool.and_eq_true]
      at hauth
    exact hauth.1
  unfold Desk.adminDispatch at h
  split at h
  · cases h
  next v p hmessage =>
  split at h
  · cases h
  split at h
  · cases h
  next hkey =>
  obtain ⟨rfl, rfl⟩ := Prod.mk.inj (Option.some.inj h)
  refine ⟨hpki, hmessage, ?_⟩
  simp only [hwrite, Bool.true_and, Bool.not_eq_true', Bool.not_eq_false, sessionValid,
    Bool.and_eq_true] at hkey
  obtain ⟨s, hs, hvalid⟩ := (Option.any_eq_true _ _).mp hkey.2
  exact ⟨s, hs, (Session.valid_iff.mp hvalid).2, (Session.valid_iff.mp hvalid).1⟩

end

/-! ### The passkey over time -/

/-- A client asks for the passkey: when, and what `sys_rand_get` would give. -/
abbrev Ask := Nat × Passkey

/-- The session after clients have asked, with no reset. -/
def asked : Option Session → List Ask → Option Session :=
  List.foldl fun s a => sessionCurrent s a.1 a.2

theorem asked_kept {s : Session} {asks : List Ask}
    (h : ∀ a ∈ asks, nowSeconds a.1 ≤ s.born + rotateSeconds) : asked (some s) asks = some s := by
  induction asks with
  | nil => rfl
  | cons a asks ih =>
    obtain ⟨ha, hasks⟩ := List.forall_mem_cons.mp h
    have hcurrent : sessionCurrent (some s) a.1 a.2 = some s := by
      simp [sessionCurrent, Session.current, ha]
    exact (congrArg (asked · asks) hcurrent).trans (ih hasks)

theorem asked_generated {asks : List Ask} {s : Session} (h : asked none asks = some s) :
    ∃ before a after, asks = before ++ a :: after ∧ asked none (before ++ [a]) = some s ∧
      s = ⟨a.2, nowSeconds a.1⟩ := by
  induction asks using List.reverseRecOn with
  | nil => cases h
  | append_singleton asks a ih =>
    have hlast := h
    simp only [asked, List.foldl_append, List.foldl_cons, List.foldl_nil, sessionCurrent] at h
    split at h
    · obtain ⟨before, b, after, rfl, hb⟩ := ih h
      exact ⟨before, b, after ++ [a], by simp, hb⟩
    · exact ⟨asks, a, [], rfl, hlast, (Option.some.inj h).symm⟩

/-- **The passkey's window.** It is accepted for 300 seconds from its generation while nobody asks
later than 150 seconds after it, and never longer. -/
theorem passkey_window {asks : List Ask} {s : Session} (hs : asked none asks = some s) :
    (∀ (later : List Ask) (ms : Nat), (∀ a ∈ later, nowSeconds a.1 ≤ s.born + rotateSeconds) →
      nowSeconds ms < s.born + validSeconds →
      sessionValid (asked none (asks ++ later)) ms s.key.bytes = true) ∧
    ∀ (ms : Nat) (key : Bytes), sessionValid (asked none asks) ms key = true →
      ∃ before a after, asks = before ++ a :: after ∧ key = a.2.bytes ∧
        asked none (before ++ [a]) = some ⟨a.2, nowSeconds a.1⟩ ∧
        nowSeconds ms < nowSeconds a.1 + validSeconds := by
  constructor
  · intro later ms hlater hms
    have hkept : asked none (asks ++ later) = some s := by
      rw [asked, List.foldl_append]
      exact (congrArg (asked · later) hs).trans (asked_kept hlater)
    simp [hkept, sessionValid, s.key.length_eq, Session.valid, hms]
  · intro ms key hvalid
    rw [hs, sessionValid, Option.any_some, Bool.and_eq_true, Session.valid_iff] at hvalid
    obtain ⟨before, a, after, hasks, hgenerated, rfl⟩ := asked_generated hs
    exact ⟨before, a, after, hasks, hvalid.2.2, hgenerated, hvalid.2.1⟩

/-- Handed out 150 seconds after its generation, the passkey is lost one second later to another
client, and when nobody asks it is refused 150 seconds later. -/
theorem passkey_window_short :
    let first : Passkey := ⟨List.replicate 8 1, rfl⟩
    let second : Passkey := ⟨List.replicate 8 2, rfl⟩
    let asks : List Ask := [(0, first), (150000, second)]
    asked none asks = some ⟨first, 0⟩ ∧
      sessionValid (asked none (asks ++ [(151000, second)])) 151000 first.bytes = false ∧
      sessionValid (asked none asks) 300000 first.bytes = false := by
  decide

theorem passkey_window_first :
    let first : Passkey := ⟨List.replicate 8 1, rfl⟩
    sessionValid (asked none ([(0, first)] ++ [(150000, first)])) 299000 first.bytes = true := by
  intro first
  have hs : asked none [(0, first)] = some ⟨first, 0⟩ := by
    simp [asked, sessionCurrent, nowSeconds]
  exact (passkey_window hs).1 [(150000, first)] 299000 (by decide) (by decide)

end Zephyrtastic.Admin
