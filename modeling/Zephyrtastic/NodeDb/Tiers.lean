import Zephyrtastic.Lib.Keyed
import Zephyrtastic.NodeDb.Record

/-!
# The hot store and the warm ring

Full records of the nodes heard, in a table that evicts when it is full, and
behind it a ring with the keys of nodes, also of nodes the table no longer holds.
-/

namespace Zephyrtastic.NodeDb

open Keyed

variable (s : State) (num : UInt32)

structure Config where
  /-- `CONFIG_MESHTASTIC_NODEDB_MAX_NODES`. -/
  maxNodes : Nat
  /-- This node's number. -/
  self : UInt32

/-- The entries `[0, count)`, the ring, and the two flags of its persistence. -/
structure State where
  hot : List Entry
  warm : List WarmKey
  /-- `nodekeys_reconcile`. -/
  reconcile : Bool
  /-- `nodekeys_save_work` is pending. -/
  keySave : Bool
  deriving DecidableEq, Repr

def WarmKey.key (w : WarmKey) : Option UInt32 := if w.num = 0 then none else some w.num

/-- `find_entry_locked`, as a position. -/
def State.findEntry : Option Nat :=
  s.hot.findIdx? fun e => e.used && e.node.num == num

/-- The record `find_entry_locked` finds. -/
def State.entry : Option Entry :=
  s.hot.find? fun e => e.used && e.node.num == num

/-- `warm_find_locked`, as a position. -/
def State.warmFind : Option Nat :=
  s.warm.findIdx? fun w => w.num == num

/-- The slot `warm_find_locked` finds. -/
def State.slot : Option WarmKey := s.warm.find? fun w => w.num == num

def State.copyPubkey : Option Key :=
  match (s.entry num).bind fun e => e.node.fullKey with
  | some k => some k
  | none => (s.slot num).map (·.pub)

def State.isXeddsaSigner : Bool :=
  match s.entry num with
  | some e => e.node.isSet .hasXeddsaSigned
  | none => (s.slot num).any (·.knownSigner)

/-- A running minimum of the search for a victim. -/
structure Oldest where
  heard : UInt32
  index : Option Nat

open Oldest

section
variable (cfg : Config) (s : State) (env : Env) (num : UInt32)

def Oldest.start : Oldest := ⟨0xFFFFFFFF, none⟩

def Oldest.consider (o : Oldest) (heard : UInt32) (i : Nat) : Oldest :=
  if heard < o.heard then ⟨heard, some i⟩ else o

/-- May be evicted: in use, not this node, not a favourite and not ignored. -/
def Entry.evictable (self : UInt32) (e : Entry) : Bool :=
  e.used && decide (e.node.num ≠ self) && !e.node.isProtected

/-- The classes of the search: keyless nodes, those with a key, those verified by hand. -/
inductive Tier where
  | boring
  | keyed
  | verified
  deriving DecidableEq

def Entry.tier (e : Entry) : Tier :=
  if e.node.publicKey.length = 0 then .boring
  else if e.node.isSet .isKeyManuallyVerified then .verified
  else .keyed

/-- The scan of `oldest_evictable_index_locked` from position `i` on, with the oldest
keyless, keyed and manually verified candidates so far. -/
def scanEvictable (self : UInt32) : List Entry → Nat → Oldest → Oldest → Oldest → Option Nat
  | [], _, boring, keyed, verified => boring.index.or (keyed.index.or verified.index)
  | e :: rest, i, boring, keyed, verified =>
    if !e.evictable self then scanEvictable self rest (i + 1) boring keyed verified
    else if e.node.publicKey.length = 0 then
      scanEvictable self rest (i + 1) (boring.consider e.node.lastHeard i) keyed verified
    else if e.node.isSet .isKeyManuallyVerified then
      scanEvictable self rest (i + 1) boring keyed (verified.consider e.node.lastHeard i)
    else scanEvictable self rest (i + 1) boring (keyed.consider e.node.lastHeard i) verified

/-- `oldest_evictable_index_locked`. -/
def State.oldestEvictable : Option Nat :=
  scanEvictable cfg.self s.hot 0 .start .start .start

def Env.warmNow : UInt32 := if env.epoch ≠ 0 then env.epoch else env.uptimeSec

/-- A candidate gives way to an older slot. -/
def older (w : WarmKey) (lru : Option (Nat × WarmKey)) : Bool :=
  lru.all fun c => decide (w.lastSeen < c.2.lastSeen)

/-- The scan of `warm_slot_for_locked` from position `i` on, with the least recent
slot so far of a node in the hot store and of a node outside it. -/
def scanSlots (isHot : UInt32 → Bool) :
    List WarmKey → Nat → Option (Nat × WarmKey) → Option (Nat × WarmKey) → Option Nat
  | [], _, hotLru, coldLru => (hotLru.or coldLru).map Prod.fst
  | w :: rest, i, hotLru, coldLru =>
    if w.num = 0 then some i
    else if hotLru.isSome && coldLru.isSome && !older w hotLru && !older w coldLru then
      -- newer than both candidates
      scanSlots isHot rest (i + 1) hotLru coldLru
    else if isHot w.num then
      scanSlots isHot rest (i + 1) (if older w hotLru then some (i, w) else hotLru) coldLru
    else scanSlots isHot rest (i + 1) hotLru (if older w coldLru then some (i, w) else coldLru)

/-- `warm_slot_for_locked`, as a position. -/
def State.warmSlotFor : Option Nat :=
  match s.warmFind num with
  | some i => some i
  | none => scanSlots (fun n => (s.findEntry n).isSome) s.warm 0 none none

/-- `warm_place_locked`. A slot taken from another node leaves that node's stored
record to be pruned. -/
def State.warmPlace (k : WarmKey) : State :=
  if k.num = 0 then s
  else match s.warmSlotFor k.num with
    | none => s
    | some i =>
      { s with
        warm := s.warm.set i k
        reconcile := s.reconcile ||
          (s.warm[i]?).any fun w => decide (w.num ≠ 0) && decide (w.num ≠ k.num) }

/-- `warm_upsert_locked`: a key that is new has proven nothing yet. -/
def State.warmUpsert (pub : Key) (role : UInt8) : State :=
  s.warmPlace ⟨num, env.warmNow, role, false, pub⟩

/-- When an entry was last seen, in the ring's time base. -/
def Entry.lastSeen (e : Entry) (env : Env) : UInt32 :=
  if e.node.lastHeard ≠ 0 then
    let age := env.uptimeSec - e.node.lastHeard
    if env.warmNow > age then env.warmNow - age else 0
  else e.lastHeardEpoch

/-- `warm_absorb_locked`: the key of a node that leaves the hot store. -/
def State.warmAbsorb (e : Entry) : State :=
  if !e.used || decide (e.node.num = 0) || decide (e.node.num = cfg.self) then s
  else match e.node.fullKey with
    | none => s
    | some k =>
      { s.warmPlace ⟨e.node.num, e.lastSeen env, e.node.role, e.node.isSet .hasXeddsaSigned, k⟩ with
        keySave := true }

/-- A new entry, with the role and the signer flag the ring remembers. -/
def State.readmission : Entry :=
  let e := Entry.fresh num
  match s.slot num with
  | none => e
  | some w =>
    let node := { e.node with role := w.role }
    { e with node := if w.knownSigner then node.writeBit .hasXeddsaSigned true else node }

/-- `get_or_create_entry_locked`: where the entry stands, and the store with it. -/
def State.getOrCreate : Option (Nat × State) :=
  if num = 0 then none
  else match s.findEntry num with
    | some i => some (i, s)
    | none =>
      if s.hot.length < cfg.maxNodes then
        some (s.hot.length, { s with hot := s.hot ++ [s.readmission num] })
      else match s.oldestEvictable cfg with
        | none => none
        | some i => match s.hot[i]? with
          | none => none
          | some e =>
            let s := s.warmAbsorb cfg env e
            some (i, { s with hot := s.hot.set i (s.readmission num) })

end

variable {w : WarmKey} {i : Nat}

section Views
variable {s : State} {num : UInt32}

theorem Entry.key_eq_some {e : Entry} : e.key = some num ↔ e.used = true ∧ e.node.num = num := by
  unfold Entry.key
  split <;> simp_all

theorem WarmKey.key_eq_some : w.key = some num ↔ w.num ≠ 0 ∧ w.num = num := by
  unfold WarmKey.key
  split <;> simp_all

theorem findEntry_eq : s.findEntry num = position Entry.key s.hot num := by
  unfold State.findEntry position
  congr 1
  funext e
  rw [Bool.eq_iff_iff]
  simp [Entry.key_eq_some]

theorem entry_eq : s.entry num = lookup Entry.key s.hot num := by
  unfold State.entry lookup
  congr 1
  funext e
  rw [Bool.eq_iff_iff]
  simp [Entry.key_eq_some]

theorem warmFind_eq (h : num ≠ 0) : s.warmFind num = position WarmKey.key s.warm num := by
  unfold State.warmFind position
  congr 1
  funext w
  rw [Bool.eq_iff_iff]
  simp only [beq_iff_eq, WarmKey.key_eq_some]
  exact ⟨fun e => ⟨e ▸ h, e⟩, And.right⟩

theorem slot_eq (h : num ≠ 0) : s.slot num = lookup WarmKey.key s.warm num := by
  unfold State.slot lookup
  congr 1
  funext w
  rw [Bool.eq_iff_iff]
  simp only [beq_iff_eq, WarmKey.key_eq_some]
  exact ⟨fun e => ⟨e ▸ h, e⟩, And.right⟩

theorem findEntry_isSome : (s.findEntry num).isSome = (s.entry num).isSome := by
  rw [findEntry_eq, entry_eq, Bool.eq_iff_iff, lookup_isSome, ← not_iff_not, ← position_eq_none]
  simp

end Views

/-! ## The search for a victim -/

section Victim
variable {self : UInt32}

/-- An untouched minimum is the largest value. -/
def Oldest.Fresh (o : Oldest) : Prop := o.index = none → o.heard = 0xFFFFFFFF

variable {o : Oldest}

/-- A running minimum is the first of the least recently heard of a tier, among the entries
scanned. -/
structure Oldest.Least (me : UInt32) (t : Tier) (scanned : List Entry) (o : Oldest) : Prop where
  fresh : o.Fresh
  found : ∀ j, o.index = some j → ∃ e, scanned[j]? = some e ∧ e.evictable me = true ∧
    e.tier = t ∧ e.node.lastHeard = o.heard
  least : ∀ e ∈ scanned, e.evictable me = true → e.tier = t → o.heard ≤ e.node.lastHeard
  first : ∀ j, o.index = some j → ∀ e ∈ scanned.take j, e.evictable me = true → e.tier = t →
    o.heard < e.node.lastHeard

section Least
variable {t : Tier} {scanned : List Entry} {e : Entry}

theorem Oldest.start_least : start.Least self t [] := ⟨fun _ => rfl, nofun, nofun, nofun⟩

/-- One more entry, which the minimum is not above. -/
theorem Oldest.Least.keep (h : o.Least self t scanned) (hle : e.evictable self = true →
    e.tier = t → o.heard ≤ e.node.lastHeard) : o.Least self t (scanned ++ [e]) := by
  have hlt : ∀ j, o.index = some j → j < scanned.length := fun j hj =>
    (List.getElem?_eq_some_iff.mp (h.found j hj).choose_spec.1).1
  refine ⟨h.fresh, fun j hj => ?_, fun e' he' => ?_, fun j hj e' he' => ?_⟩
  · obtain ⟨v, hv, hrest⟩ := h.found j hj
    refine ⟨v, ?_, hrest⟩
    rwa [List.getElem?_append_left (hlt j hj)]
  · rcases List.mem_append.mp he' with he' | he'
    · exact h.least e' he'
    · exact List.mem_singleton.mp he' ▸ hle
  · rw [List.take_append_of_le_length (hlt j hj).le] at he'
    exact h.first j hj e' he'

theorem Oldest.Least.consider (h : o.Least self t scanned) (hev : e.evictable self = true)
    (ht : e.tier = t) :
    (o.consider e.node.lastHeard scanned.length).Least self t (scanned ++ [e]) := by
  unfold Oldest.consider
  split
  · next hlt =>
    refine ⟨nofun, fun j hj => ?_, fun e' he' hev' ht' => ?_, fun j hj e' he' hev' ht' => ?_⟩
    · obtain rfl := Option.some.inj hj
      exact ⟨e, List.getElem?_concat_length, hev, ht, rfl⟩
    · rcases List.mem_append.mp he' with he' | he'
      · exact UInt32.le_trans (UInt32.le_of_lt hlt) (h.least e' he' hev' ht')
      · exact List.mem_singleton.mp he' ▸ UInt32.le_refl _
    · obtain rfl := Option.some.inj hj
      rw [List.take_left] at he'
      exact UInt32.lt_of_lt_of_le hlt (h.least e' he' hev' ht')
  · next hle => exact h.keep fun _ _ => UInt32.not_lt.mp hle

end Least

variable {boring keyed verified : Oldest}

variable (self) in
/-- The search ends with the minima of the three tiers. -/
theorem scanEvictable_least {scanned : List Entry} (l : List Entry)
    (hb : boring.Least self .boring scanned) (hk : keyed.Least self .keyed scanned)
    (hv : verified.Least self .verified scanned) :
    ∃ b k v : Oldest, b.Least self .boring (scanned ++ l) ∧ k.Least self .keyed (scanned ++ l) ∧
      v.Least self .verified (scanned ++ l) ∧
      scanEvictable self l scanned.length boring keyed verified =
        b.index.or (k.index.or v.index) := by
  induction l generalizing scanned boring keyed verified with
  | nil =>
    rw [List.append_nil]
    exact ⟨boring, keyed, verified, hb, hk, hv, rfl⟩
  | cons e rest ih =>
    have hlen : scanned.length + 1 = (scanned ++ [e]).length := by simp
    rw [scanEvictable, hlen, List.append_cons]
    split
    · next hev =>
      have skip {t : Tier} {o : Oldest} (ho : o.Least self t scanned) :=
        ho.keep (e := e) fun hev' => absurd hev' (by simpa using hev)
      exact ih (skip hb) (skip hk) (skip hv)
    next hev =>
    have hev : e.evictable self = true := by simpa using hev
    have skip {t t' : Tier} {o : Oldest} (ho : o.Least self t scanned) (ht : e.tier = t')
        (hne : t' ≠ t) := ho.keep (e := e) fun _ h => absurd (ht.symm.trans h) hne
    split
    · next hkey =>
      have ht : e.tier = .boring := if_pos hkey
      exact ih (hb.consider hev ht) (skip hk ht nofun) (skip hv ht nofun)
    next hkey =>
    split
    · next hbit =>
      have ht : e.tier = .verified := (if_neg hkey).trans (if_pos hbit)
      exact ih (skip hb ht nofun) (skip hk ht nofun) (hv.consider hev ht)
    · next hbit =>
      have ht : e.tier = .keyed := (if_neg hkey).trans (if_neg hbit)
      exact ih (skip hb ht nofun) (hk.consider hev ht) (skip hv ht nofun)

end Victim

variable {cfg : Config} {env : Env} {s : State}

/-- Nothing is found only where every candidate carries the largest time. -/
theorem oldestEvictable_none (h : s.oldestEvictable cfg = none) {e : Entry} (he : e ∈ s.hot)
    (hev : e.evictable cfg.self = true) : e.node.lastHeard = 0xFFFFFFFF := by
  obtain ⟨b, k, v, hb, hk, hv, hscan⟩ :=
    scanEvictable_least cfg.self s.hot start_least start_least start_least
  have largest {t : Tier} {o : Oldest} (ho : o.Least cfg.self t s.hot) (hnone : o.index = none)
      (ht : e.tier = t) : e.node.lastHeard = 0xFFFFFFFF := by
    have hle := ho.least e he hev ht
    rw [ho.fresh hnone] at hle
    have := e.node.lastHeard.toNat_lt
    exact UInt32.le_antisymm (UInt32.le_iff_toNat_le.mpr (by simp; omega)) hle
  obtain ⟨hb', hkv⟩ := Option.or_eq_none_iff.mp (hscan.symm.trans h)
  obtain ⟨hk', hv'⟩ := Option.or_eq_none_iff.mp hkv
  cases ht : e.tier with
  | boring => exact largest hb hb' ht
  | keyed => exact largest hk hk' ht
  | verified => exact largest hv hv' ht

/-- What is found is the first of the least recently heard of its tier. -/
theorem oldestEvictable_some (h : s.oldestEvictable cfg = some i) :
    ∃ v, s.hot[i]? = some v ∧ v.evictable cfg.self = true ∧
      (∀ e ∈ s.hot, e.evictable cfg.self = true → e.tier = v.tier →
        v.node.lastHeard ≤ e.node.lastHeard) ∧
      ∀ e ∈ s.hot.take i, e.evictable cfg.self = true → e.tier = v.tier →
        v.node.lastHeard < e.node.lastHeard := by
  obtain ⟨b, k, v, hb, hk, hv, hscan⟩ :=
    scanEvictable_least cfg.self s.hot start_least start_least start_least
  suffices found : ∃ t o, Oldest.Least cfg.self t s.hot o ∧ o.index = some i by
    obtain ⟨t, o, ho, hi⟩ := found
    obtain ⟨v, hv, hev, rfl, heq⟩ := ho.found i hi
    exact ⟨v, hv, hev, heq ▸ ho.least, heq ▸ ho.first i hi⟩
  rcases Option.or_eq_some_iff.mp (hscan.symm.trans h) with h | ⟨-, h⟩
  · exact ⟨_, b, hb, h⟩
  rcases Option.or_eq_some_iff.mp h with h | ⟨-, h⟩
  · exact ⟨_, k, hk, h⟩
  · exact ⟨_, v, hv, h⟩

/-! ## Where a key goes -/

variable (isHot : UInt32 → Bool) (ring : List WarmKey) in
/-- What `warm_slot_for_locked` finds in a ring: the first empty slot, else the least
recent key of a hot node, else the least recent key. -/
inductive FreeSlot : Option Nat → Prop where
  | empty (i : Nat) (w : WarmKey) (hi : ring[i]? = some w) (hw : w.num = 0) : FreeSlot (some i)
  | hot (i : Nat) (w : WarmKey) (hi : ring[i]? = some w) (hw : isHot w.num = true)
      (hfull : ∀ v ∈ ring, v.num ≠ 0)
      (hleast : ∀ v ∈ ring, isHot v.num = true → w.lastSeen ≤ v.lastSeen) : FreeSlot (some i)
  | cold (i : Nat) (w : WarmKey) (hi : ring[i]? = some w) (hfull : ∀ v ∈ ring, v.num ≠ 0)
      (hcold : ∀ v ∈ ring, isHot v.num = false) (hleast : ∀ v ∈ ring, w.lastSeen ≤ v.lastSeen) :
      FreeSlot (some i)
  | noRing (h : ring = []) : FreeSlot none

/-- A candidate of the scan is the least recent slot seen of its kind. -/
def Least (kind : WarmKey → Bool) (ring : List WarmKey) (i : Nat) (lru : Option (Nat × WarmKey)) :
    Prop :=
  match lru with
  | none => ∀ v ∈ ring.take i, kind v = false
  | some (j, w) => ring[j]? = some w ∧ kind w = true ∧
      ∀ v ∈ ring.take i, kind v = true → w.lastSeen ≤ v.lastSeen

section Scan
variable {isHot : UInt32 → Bool} {ring : List WarmKey}

theorem take_succ_of_drop {rest : List WarmKey} (h : ring.drop i = w :: rest) :
    ring[i]? = some w ∧ ring.take (i + 1) = ring.take i ++ [w] ∧ ring.drop (i + 1) = rest := by
  have hi : ring[i]? = some w := by
    rw [← Nat.add_zero i, ← List.getElem?_drop, h]
    rfl
  refine ⟨hi, ?_, ?_⟩
  · rw [List.take_add_one, hi]
    rfl
  · rw [← List.tail_drop, h]
    rfl

section
variable {lru : Option (Nat × WarmKey)} {kind : WarmKey → Bool} (h : Least kind ring i lru)
include h

theorem Least.skip (htake : ring.take (i + 1) = ring.take i ++ [w])
    (hw : kind w = true → older w lru = false) : Least kind ring (i + 1) lru := by
  unfold Least at h ⊢
  cases lru with
  | none =>
    simp only [htake, List.forall_mem_append, List.forall_mem_singleton]
    refine ⟨h, ?_⟩
    by_contra hk
    exact absurd (hw (by simpa using hk)) (by simp [older])
  | some c =>
    simp only [htake, List.forall_mem_append, List.forall_mem_singleton]
    refine ⟨h.1, h.2.1, h.2.2, fun hk => ?_⟩
    have := hw hk
    simpa [older] using this

theorem Least.take (hi : ring[i]? = some w)
    (htake : ring.take (i + 1) = ring.take i ++ [w]) (hk : kind w = true) :
    Least kind ring (i + 1) (if older w lru then some (i, w) else lru) := by
  split
  · next hold =>
    refine ⟨hi, hk, ?_⟩
    simp only [htake, List.forall_mem_append, List.forall_mem_singleton]
    refine ⟨fun v hv hkv => ?_, fun _ => UInt32.le_refl _⟩
    cases lru with
    | none => exact absurd hkv (by simp [h v hv])
    | some c =>
      have hlt : w.lastSeen < c.2.lastSeen := by simpa [older] using hold
      exact UInt32.le_trans (UInt32.le_of_lt hlt) (h.2.2 v hv hkv)
  · next hold => exact h.skip htake fun _ => by simpa using hold

end

theorem scanSlots_spec (l : List WarmKey) (i : Nat) {hotLru coldLru : Option (Nat × WarmKey)}
    (hl : ring.drop i = l) (hfull : ∀ v ∈ ring.take i, v.num ≠ 0)
    (hhot : Least (fun w => isHot w.num) ring i hotLru)
    (hcold : Least (fun w => !isHot w.num) ring i coldLru) :
    FreeSlot isHot ring (scanSlots isHot l i hotLru coldLru) := by
  induction l generalizing i hotLru coldLru with
  | nil =>
    have hall : ring.take i = ring := List.take_of_length_le (List.drop_eq_nil_iff.mp hl)
    unfold Least at hhot hcold
    rw [hall] at hfull hhot hcold
    rw [scanSlots]
    cases hotLru with
    | some c => exact .hot c.1 c.2 hhot.1 hhot.2.1 hfull hhot.2.2
    | none =>
      cases coldLru with
      | some c =>
        refine .cold c.1 c.2 hcold.1 hfull hhot fun v hv => hcold.2.2 v hv ?_
        simpa using hhot v hv
      | none =>
        refine .noRing (List.eq_nil_iff_forall_not_mem.mpr fun v hv => ?_)
        have h1 := hhot v hv
        have h2 := hcold v hv
        simp_all
  | cons w rest ih =>
    obtain ⟨hi, htake, hrest⟩ := take_succ_of_drop hl
    rw [scanSlots]
    split
    · next hzero => exact .empty i w hi hzero
    next hzero =>
    have hfull' : ∀ v ∈ ring.take (i + 1), v.num ≠ 0 := by
      simp only [htake, List.forall_mem_append, List.forall_mem_singleton]
      exact ⟨hfull, hzero⟩
    split
    · next hnewer =>
      simp only [Bool.and_eq_true, Bool.not_eq_true'] at hnewer
      exact ih _ hrest hfull' (hhot.skip htake fun _ => hnewer.1.2)
        (hcold.skip htake fun _ => hnewer.2)
    · split
      · next h =>
        exact ih _ hrest hfull' (hhot.take hi htake h) (hcold.skip htake (by simp [h]))
      · next h =>
        exact ih _ hrest hfull' (hhot.skip htake fun e => absurd e h)
          (hcold.take hi htake (by simpa using h))

end Scan

/-- Where a key of a node is placed: over its own slot, or where there is none over a
free one. -/
inductive SlotFor (s : State) (num : UInt32) : Option Nat → Prop where
  | own (i : Nat) (w : WarmKey) (hi : s.warm[i]? = some w) (hw : w.num = num) :
      SlotFor s num (some i)
  | free (r : Option Nat) (hnew : s.slot num = none)
      (hfree : FreeSlot (fun n => (s.entry n).isSome) s.warm r) : SlotFor s num r

theorem slot_eq_none {num : UInt32} : s.slot num = none ↔ s.warmFind num = none := by
  unfold State.slot State.warmFind
  simp

theorem warmSlotFor_spec (num : UInt32) : SlotFor s num (s.warmSlotFor num) := by
  unfold State.warmSlotFor
  cases h : s.warmFind num with
  | some i =>
    obtain ⟨hi, hp, -⟩ := List.findIdx?_eq_some_iff_getElem.mp h
    exact .own i s.warm[i] (List.getElem?_eq_getElem hi) (by simpa using hp)
  | none =>
    refine .free _ (slot_eq_none.mpr h) ?_
    simp only [findEntry_isSome]
    exact scanSlots_spec s.warm 0 rfl (by simp) (by simp [Least]) (by simp [Least])

end Zephyrtastic.NodeDb
