import Zephyrtastic.Cluster.Persist
import Zephyrtastic.NodeDb.Effects

/-!
# A forgotten node

The keys of the ring are records of the settings store, one per node. A save
writes the ring, and prunes the records of nodes that have left it if the
reconcile flag asks for that.
-/

namespace Zephyrtastic.NodeDb

open Assoc Bytes Digits Keyed List Run State
open Cluster (Wrap)
open Lockdown (Name Nonce sealOverhead)

variable (cfg : Config) (d : Disk)
variable (s : State) (wrap : Wrap) (id : Name)

/-- The records of the subtree, in the order the backend walks them. -/
abbrev Store := List (Name × Bytes)

/-- `MTNODE_REC_LEN`. -/
def keyRecLen : Nat := 38

def reconcileBatch : Nat := 32

/-- `mtnode/%08x`. -/
def keyName (num : UInt32) : Name := "mtnode/".toList ++ hexChars 8 num.toNat

def storeReady : Wrap → Bool
  | .stub => true
  | .lockdown _ s => s.storeReady

/-- `strtoul` to the base 16, where it reads the name of digits to its end and does not
find zero. -/
def nodeOfName : Option UInt32 :=
  match Cluster.hexDigits id.length 0 id with
  | (_, num, []) => if num = 0 then none else some num
  | _ => none

/-- What follows the last slash. -/
def lastComponent (name : Name) : Name := (name.reverse.takeWhile (· ≠ '/')).reverse

/-- The record `nodekeys_export` writes of a slot. -/
def WarmKey.record (w : WarmKey) : Bytes :=
  putLe32 w.lastSeen ++ w.role :: (if w.knownSigner then 1 else 0) :: w.pub.bytes

/-- The slot `nodekeys_set` makes of a record, if it takes it. -/
def keyRecord (raw : Bytes) : Option WarmKey :=
  if raw.length ≠ keyRecLen ∧ raw.length ≠ keyRecLen + sealOverhead then none
  else match wrap.read ("mtnode/".toList ++ id) raw keyRecLen with
    | .error _ => none
    | .ok buf =>
      if buf.length ≠ keyRecLen then none
      else (nodeOfName id).bind fun num => (Key.ofBytes (buf.drop 6)).map fun pub =>
        ⟨num, getLe32 buf, buf.getD 4 0, decide (buf.getD 5 0 ≠ 0), pub⟩

def State.nodekeysSet (raw : Bytes) : State :=
  match keyRecord wrap id raw with
  | none => s
  | some w => s.warmPlace w

/-- The subtree is loaded, in the order of a walk. -/
def State.loadKeys (recs : Store) : State :=
  recs.foldl (fun s r => s.nodekeysSet wrap (r.1.drop 7) r.2) s

/-- `warm_reconcile_cb` over the subtree: the nodes with a record and without a slot. -/
def State.orphans (store : Store) : List UInt32 :=
  store.filterMap fun r =>
    (nodeOfName (lastComponent r.1)).filter fun num => (s.slot num).isNone

def settingsDelete (store : Store) (name : Name) : Store := store.filter fun r => r.1 ≠ name

/-- `nodekeys_export` from a slot on; it stops where the wrap refuses a record. -/
def nodekeysExport (cfg : Config) (wrap : Wrap) (nonce : UInt32 → Nonce) :
    List WarmKey → Store → Store
  | [], store => store
  | w :: rest, store =>
    if w.num = 0 ∨ w.num = cfg.self then nodekeysExport cfg wrap nonce rest store
    else match wrap.write (keyName w.num) w.record (nonce w.num) with
      | .error _ => store
      | .ok bytes => nodekeysExport cfg wrap nonce rest (Assoc.put (keyName w.num) bytes store)

/-- The tables, and what is in flash. -/
structure Disk where
  nodes : State
  store : Store

/-- The records a save deletes. -/
def Disk.pruned : List UInt32 :=
  if d.nodes.reconcile then (d.nodes.orphans d.store).take reconcileBatch else []

/-- `nodekeys_do_persist`, from the work that was scheduled; every delete and every write
of the backend succeeds. -/
def Disk.nodekeysDoPersist (nonce : UInt32 → Nonce) : Disk :=
  if !storeReady wrap then { d with nodes := { d.nodes with keySave := false } }
  else
    let more := d.nodes.reconcile && decide ((d.nodes.orphans d.store).length > reconcileBatch)
    { nodes := { d.nodes with reconcile := more, keySave := more }
      store := nodekeysExport cfg wrap nonce d.nodes.warm
        (d.pruned.foldl (fun store num => settingsDelete store (keyName num)) d.store) }

/-- A boot: empty tables, the records in the order they are walked, and then the flag and
the save that `meshtastic_nodedb_init` ends with. -/
def Disk.reboot (env : Env) (user : User) (wrap : Wrap) (recs : Store) : State :=
  { (d.nodes.boot cfg env user).loadKeys wrap recs with reconcile := true, keySave := true }

/-- What happens between two boots. -/
inductive Act where
  | op (ev : Event)
  | save (wrap : Wrap) (nonce : UInt32 → Nonce)

def act : Act → Disk
  | .op ev => { d with nodes := step cfg d.nodes ev }
  | .save wrap nonce => d.nodekeysDoPersist cfg wrap nonce

/-- Not part of a boot, and not a packet, a contact or a key that brings the node back. -/
def Event.quiet (n : UInt32) : Event → Prop
  | .boot _ _ | .restoreKey _ | .restoreRecord _ _ _ => False
  | ev => ∀ env, ev.makes cfg ≠ some (env, n)

def Act.quiet (cfg : Config) (n : UInt32) : Act → Prop
  | .op ev => ev.quiet cfg n
  | .save _ _ => True

/-- The action is not a save that deletes the record of the node. -/
def Spares (n : UInt32) (d : Disk) : Act → Prop
  | .op _ => True
  | .save wrap _ => storeReady wrap = true → n ∉ d.pruned

/-- The records have names of the export's form, each its own. -/
structure Named (store : Store) : Prop where
  distinct : (Assoc.keys store).Nodup
  named : ∀ name ∈ Assoc.keys store, ∃ num, name = keyName num

/-- Neither table knows the node. -/
structure State.Gone (s : State) (n : UInt32) : Prop where
  hot : s.entry n = none
  warm : s.slot n = none

/-! ## Names -/

section Names
variable {n m : UInt32}

theorem length_hexChars (w n : Nat) : (hexChars w n).length = w := by
  induction w with
  | zero => rfl
  | succ w ih => rw [hexChars, length_cons, ih]

theorem nodeOfName_hexChars (n : UInt32) :
    nodeOfName (hexChars 8 n.toNat) = if n = 0 then none else some n := by
  have hdigits := Cluster.hexDigits_hexChars 8 n.toNat 0 []
  have hval : UInt32.ofNat ((0 : UInt32).toNat * 16 ^ 8 + n.toNat % 16 ^ 8) = n := by
    have hlt : n.toNat % 16 ^ 8 = n.toNat := Nat.mod_eq_of_lt n.toNat_lt
    rw [UInt32.toNat_zero, Nat.zero_mul, Nat.zero_add, hlt, UInt32.ofNat_toNat]
  rw [append_nil, hval] at hdigits
  rw [nodeOfName, length_hexChars, hdigits]

theorem drop_keyName (n : UInt32) : (keyName n).drop 7 = hexChars 8 n.toNat := rfl

theorem keyName_inj (h : keyName n = keyName m) : n = m := by
  have hchars := congrArg (drop 7) h
  rw [drop_keyName, drop_keyName] at hchars
  have hparse := congrArg nodeOfName hchars
  rw [nodeOfName_hexChars, nodeOfName_hexChars] at hparse
  split at hparse <;> split at hparse
  · next hn hm => rw [hn, hm]
  · cases hparse
  · cases hparse
  · exact Option.some.inj hparse

end Names

/-! ## The store -/

section Store
variable {cfg : Config} {s : State} {n : UInt32} {store : Store}

theorem lookup_delete_ne {name other : Name} (h : name ≠ other) :
    (settingsDelete store other).lookup name = store.lookup name := by
  induction store with
  | nil => rfl
  | cons r rest ih =>
    rw [settingsDelete, filter_cons]
    split
    · rw [List.lookup_cons, List.lookup_cons]
      split
      · rfl
      · exact ih
    · next hr =>
      have hr : r.1 = other := by simpa using hr
      rw [List.lookup_cons, beq_false_of_ne (hr ▸ h)]
      exact ih

theorem lookup_delete_self (store : Store) (name : Name) :
    (settingsDelete store name).lookup name = none := by
  rw [lookup_eq_none_iff]
  intro r hr
  have hne : r.1 ≠ name := by simpa using (mem_filter.mp hr).2
  simpa using Ne.symm hne

theorem lookup_deletes (nums : List UInt32) (store : Store) :
    (nums.foldl (fun store num => settingsDelete store (keyName num)) store).lookup (keyName n) =
      if n ∈ nums then none else store.lookup (keyName n) := by
  induction nums generalizing store with
  | nil => rfl
  | cons m rest ih =>
    rw [foldl_cons, ih]
    by_cases hrest : n ∈ rest
    · rw [if_pos hrest, if_pos (mem_cons_of_mem m hrest)]
    rw [if_neg hrest]
    by_cases hm : n = m
    · subst hm
      rw [if_pos mem_cons_self, lookup_delete_self]
    · rw [if_neg (by simp [hm, hrest]), lookup_delete_ne fun h => hm (keyName_inj h)]

theorem Named.delete (h : Named store) (name : Name) : Named (settingsDelete store name) := by
  have hsub : (keys (settingsDelete store name)).Sublist (keys store) :=
    filter_sublist.map _
  exact ⟨h.distinct.sublist hsub, fun a ha => h.named a (hsub.subset ha)⟩

theorem Named.deletes (h : Named store) (nums : List UInt32) :
    Named (nums.foldl (fun store num => settingsDelete store (keyName num)) store) := by
  induction nums generalizing store with
  | nil => exact h
  | cons m rest ih => exact ih (h.delete _)

theorem Named.put (h : Named store) (num : UInt32) (bytes : Bytes) :
    Named (put (keyName num) bytes store) := by
  refine ⟨nodup_put h.distinct _ _, fun a ha => ?_⟩
  rw [keys_put] at ha
  split at ha
  · exact h.named a ha
  · rcases mem_append.mp ha with hmem | hnew
    · exact h.named a hmem
    · exact ⟨num, mem_singleton.mp hnew⟩

theorem nodekeysExport_spec (cfg : Config) (wrap : Wrap) (nonce : UInt32 → Nonce)
    (ring : List WarmKey) (hring : ∀ w ∈ ring, w.num ≠ n) (h : Named store) :
    Named (nodekeysExport cfg wrap nonce ring store) ∧
      (nodekeysExport cfg wrap nonce ring store).lookup (keyName n) = store.lookup (keyName n) := by
  induction ring generalizing store with
  | nil => exact ⟨h, rfl⟩
  | cons w rest ih =>
    obtain ⟨hw, hrest⟩ := forall_mem_cons.mp hring
    rw [nodekeysExport]
    split
    · exact ih hrest h
    split
    · exact ⟨h, rfl⟩
    next bytes _ =>
    obtain ⟨hnamed, hlook⟩ := ih hrest (h.put w.num bytes)
    refine ⟨hnamed, hlook.trans (lookup_put_ne ?_ _ _)⟩
    exact fun he => hw (keyName_inj he).symm

theorem slot_none_ring (h : s.slot n = none) : ∀ w ∈ s.warm, w.num ≠ n := by
  intro w hw
  simpa using find?_eq_none.mp h w hw

end Store

/-! ## Between two boots -/

variable {w : WarmKey}

section Between
variable {cfg : Config} {env : Env} {s : State} {n : UInt32} {ev : Event}

theorem clear_spec (hwf : s.WellFormed) {i : Nat} (hi : s.warm[i]? = some w) (save : Bool) :
    State.WellFormed { s with warm := s.warm.set i .empty, keySave := save } ∧
      ∀ n, n ≠ 0 → w.num = n ∨ s.slot n = none →
        State.slot { s with warm := s.warm.set i .empty, keySave := save } n = none := by
  have hempty : WarmKey.empty.key = none := rfl
  have hfits : Fits WarmKey.key s.warm w .empty := .inr fun m hm => by rw [hempty] at hm; cases hm
  refine ⟨⟨hwf.hot, hwf.nonzero, nodup_set hwf.warm hi hfits, by simpa using hwf.ring⟩, ?_⟩
  intro n hn h
  rw [slot_eq hn, lookup_set hwf.warm hi hfits, hempty, if_neg nofun]
  rcases h with hw | hnone
  · rw [if_pos (WarmKey.key_eq_some.mpr ⟨hw ▸ hn, hw⟩)]
  · rw [← slot_eq hn, hnone]
    exact ite_self _

theorem forget_spec (cfg : Config) (hwf : s.WellFormed) (num : UInt32) :
    (s.forget cfg num).WellFormed ∧
      ∀ n, n ≠ 0 → (num = n ∧ num ≠ cfg.self) ∨ s.Gone n → (s.forget cfg num).Gone n := by
  obtain ⟨hwf', hwarm, hself, hother⟩ := remove_spec cfg hwf num
  have hentry (n : UInt32) (h : (num = n ∧ num ≠ cfg.self) ∨ s.Gone n) :
      (s.after (s.remove cfg num)).entry n = none := by
    rcases h with ⟨rfl, hne⟩ | hgone
    · exact hself hne
    · exact hother n hgone.hot
  unfold forget
  dsimp only
  cases hfind : (s.after (s.remove cfg num)).warmFind num with
  | none =>
    refine ⟨hwf', fun n hn h => ⟨hentry n h, ?_⟩⟩
    rcases h with ⟨rfl, -⟩ | hgone
    · exact slot_eq_none.mpr hfind
    · rw [slot_congr hwarm]
      exact hgone.warm
  | some i =>
    obtain ⟨hlt, hnum, -⟩ := findIdx?_eq_some_iff_getElem.mp hfind
    have hi := getElem?_eq_getElem hlt
    have hnum : ((s.after (s.remove cfg num)).warm.get ⟨i, hlt⟩).num = num := by simpa using hnum
    obtain ⟨hclear, hslot⟩ := clear_spec hwf' hi true
    refine ⟨hclear, fun n hn h => ⟨hentry n h, hslot n hn ?_⟩⟩
    rcases h with ⟨rfl, -⟩ | hgone
    · exact .inl hnum
    · exact .inr ((slot_congr hwarm).trans hgone.warm)

theorem keys_empty : keys WarmKey.key (s.warm.map fun _ => .empty) = [] := by
  rw [Keyed.keys, filterMap_map]
  exact filterMap_eq_nil_iff.mpr fun _ _ => rfl

theorem reset_spec (cfg : Config) (hwf : s.WellFormed) (keep : Bool) :
    (s.reset cfg keep).WellFormed ∧ ∀ n, n ≠ 0 → s.Gone n → (s.reset cfg keep).Gone n := by
  refine ⟨⟨nodup_filter hwf.hot _, ?_, ?_, by simpa [reset] using hwf.ring⟩, ?_⟩
  · exact fun h => hwf.nonzero ((filter_sublist.filterMap _).subset h)
  · rw [reset, keys_empty]
    exact nodup_nil
  · intro n hn hgone
    constructor
    · refine entry_eq_none_iff.mpr fun h => entry_eq_none_iff.mp hgone.hot ?_
      exact (filter_sublist.filterMap _).subset h
    · rw [slot_eq_none_iff hn, reset, keys_empty]
      exact not_mem_nil

theorem running_wellFormed (hwf : s.WellFormed) (hev : ev.running = true) :
    (step cfg s ev).WellFormed := by
  by_cases hon : ev.onRecord = true
  · exact step_wellFormed hwf hon
  cases ev with
  | remove num => exact (remove_spec cfg hwf num).1
  | forget num => exact (forget_spec cfg hwf num).1
  | reset keep => exact (reset_spec cfg hwf keep).1
  | boot | restoreKey | restoreRecord => cases hev
  | _ => exact absurd rfl hon

theorem Touched.gone {t : State} (hwf : s.WellFormed) (h : Touched cfg s ev t) (hn : n ≠ 0)
    (hquiet : ∀ env, ev.makes cfg ≠ some (env, n)) (hgone : s.Gone n) : t.Gone n := by
  cases h with
  | nothing => exact hgone
  | sorted order horder =>
    exact ⟨(perm_entry hwf horder).trans hgone.hot, (slot_congr rfl).trans hgone.warm⟩
  | marked env num hev hnum =>
    refine ⟨by rw [warmSetKnownSigner_entry, hgone.hot], ?_⟩
    rw [warmSetKnownSigner_slot hwf hnum hn, hgone.warm]
    exact ite_self _
  | record env i u e e' ring _ hu hmakes hwf' hfetch hover hverified heffect =>
    have hself := hfetch.entry_self
    have hne : n ≠ ev.about := by
      rintro rfl
      rcases hmakes with hm | rfl
      · exact hquiet env hm
      · rw [hgone.hot] at hself
        cases hself
    have habout := ne_zero_of_entry hwf' hself
    have hu' : u.Gone n := by
      cases hfetch with
      | held ht => exact ht ▸ hgone
      | added hnew he hentry hwarm =>
        exact ⟨by rw [hentry, if_neg hne, hgone.hot], (slot_congr hwarm).trans hgone.warm⟩
      | replaced victim hnew hfull hold hv hev he hentry hwarm =>
        have hvic : n ≠ victim.node.num := by
          rintro rfl
          rw [hgone.hot] at hv
          cases hv
        refine ⟨by rw [hentry, if_neg hne, if_neg hvic, hgone.hot], ?_⟩
        rw [slot_congr hwarm]
        rcases warmAbsorb_slot_ne cfg env hwf hn hvic with hs | ⟨hs, -⟩
        · exact hs.trans hgone.warm
        · exact hs
    constructor
    · rw [hover.entry, if_neg hne, hu'.hot]
    · rcases hover.slot_ne hwf' heffect habout hn hne with hs | hs
      · exact hs.trans hu'.warm
      · exact hs

theorem step_gone (hwf : s.WellFormed) (hn : n ≠ 0) (hquiet : ev.quiet cfg n)
    (hgone : s.Gone n) : (step cfg s ev).WellFormed ∧ (step cfg s ev).Gone n := by
  by_cases hrec : ev.onRecord = true
  · have hmakes : ∀ env, ev.makes cfg ≠ some (env, n) := by
      cases ev <;> first | exact hquiet | cases hrec
    exact ⟨step_wellFormed hwf hrec, (step_touched cfg hwf hrec).gone hwf hn hmakes hgone⟩
  cases ev with
  | remove num =>
    obtain ⟨hwf', hwarm, -, hother⟩ := remove_spec cfg hwf num
    exact ⟨hwf', hother n hgone.hot, (slot_congr hwarm).trans hgone.warm⟩
  | forget num => exact (forget_spec cfg hwf num).imp_right fun h => h n hn (.inr hgone)
  | reset keep => exact (reset_spec cfg hwf keep).imp_right fun h => h n hn hgone
  | boot | restoreKey | restoreRecord => exact hquiet.elim
  | _ => exact absurd rfl hrec

/-- The node is gone from the tables, and the store is in order. -/
structure Disk.Left (d : Disk) (n : UInt32) : Prop where
  wf : d.nodes.WellFormed
  gone : d.nodes.Gone n
  named : Named d.store

variable {d : Disk}

theorem persist_spec (cfg : Config) (h : d.Left n) (wrap : Wrap) (nonce : UInt32 → Nonce) :
    let d' := d.nodekeysDoPersist cfg wrap nonce
    d'.Left n ∧ d'.store.lookup (keyName n) =
        if storeReady wrap = true ∧ n ∈ d.pruned then none else d.store.lookup (keyName n) := by
  have hring : ∀ w ∈ d.nodes.warm, w.num ≠ n := slot_none_ring h.gone.warm
  obtain ⟨hnamed, hlook⟩ :=
    nodekeysExport_spec cfg wrap nonce d.nodes.warm hring (h.named.deletes d.pruned)
  unfold Disk.nodekeysDoPersist
  split
  · next hready =>
    rw [if_neg fun hp => by simp [hp.1] at hready]
    exact ⟨⟨{ h.wf with }, { h.gone with }, h.named⟩,
      rfl⟩
  · next hready =>
    have hready : storeReady wrap = true := by simpa using hready
    simp only [hready, true_and]
    exact ⟨⟨{ h.wf with }, { h.gone with }, hnamed⟩,
      hlook.trans (lookup_deletes _ _)⟩

theorem act_left (h : d.Left n) (hn : n ≠ 0) {a : Act} (hquiet : a.quiet cfg n) :
    (act cfg d a).Left n ∧ ∀ raw, (act cfg d a).store.lookup (keyName n) = some raw ↔
      d.store.lookup (keyName n) = some raw ∧ Spares n d a := by
  cases a with
  | op ev =>
    obtain ⟨hwf, hgone⟩ := step_gone h.wf hn hquiet h.gone
    exact ⟨⟨hwf, hgone, h.named⟩, fun raw => (and_iff_left trivial).symm⟩
  | save wrap nonce =>
    obtain ⟨hleft, hlook⟩ := persist_spec cfg h wrap nonce
    refine ⟨hleft, fun raw => ?_⟩
    rw [act, hlook]
    unfold Spares
    split
    · next hp => simp [hp.1, hp.2]
    · next hp => exact (and_iff_left fun hready hmem => hp ⟨hready, hmem⟩).symm

theorem run_left (hn : n ≠ 0) (acts : List Act) (h : d.Left n)
    (hquiet : ∀ a ∈ acts, a.quiet cfg n) :
    (run (act cfg) d acts).Left n ∧
      ∀ raw, (run (act cfg) d acts).store.lookup (keyName n) = some raw ↔
        d.store.lookup (keyName n) = some raw ∧ Guarded (act cfg) (Spares n) d acts := by
  induction acts generalizing d with
  | nil => exact ⟨h, fun raw => by simp⟩
  | cons a rest ih =>
    obtain ⟨ha, hrest⟩ := forall_mem_cons.mp hquiet
    obtain ⟨hleft, hone⟩ := act_left h hn ha
    obtain ⟨hrun, hall⟩ := ih hleft hrest
    refine ⟨hrun, fun raw => (hall raw).trans ?_⟩
    rw [hone raw, guarded_cons, and_assoc]

end Between

/-! ## The next boot -/

section Boot
variable {cfg : Config} {s : State} {n : UInt32} {wrap : Wrap}

theorem boot_spec (cfg : Config) (hring : s.warm ≠ []) (env : Env) (user : User) :
    (s.boot cfg env user).WellFormed ∧
      ∀ n, n ≠ 0 → n ≠ cfg.self → (s.boot cfg env user).Gone n := by
  have hwf : State.WellFormed ⟨[], s.warm.map fun _ => .empty, false, false⟩ :=
    ⟨nodup_nil, not_mem_nil, by rw [keys_empty]; exact nodup_nil, by simpa using hring⟩
  have hslot (n : UInt32) (hn : n ≠ 0) :
      slot ⟨[], s.warm.map fun _ => .empty, false, false⟩ n = none := by
    rw [slot_eq_none_iff hn, keys_empty]
    exact not_mem_nil
  unfold boot
  dsimp only
  cases hget : getOrCreate cfg ⟨[], s.warm.map fun _ => .empty, false, false⟩ env
      cfg.self with
  | none => exact ⟨hwf, fun n hn _ => ⟨rfl, hslot n hn⟩⟩
  | some r =>
    obtain ⟨i, u⟩ := r
    obtain ⟨-, hwf', e, hi, hkey, hfetch⟩ := getOrCreate_fetched hwf hget
    have hu (n : UInt32) (hn : n ≠ 0) (hself : n ≠ cfg.self) : u.Gone n := by
      cases hfetch with
      | held ht he => cases he
      | added hnew he hentry hwarm =>
        exact ⟨by rw [hentry, if_neg hself]; rfl, (slot_congr hwarm).trans (hslot n hn)⟩
      | replaced victim _ _ _ hv => cases hv
    have hover := (Over.refl hwf' hi hkey).update (f := (·.heardAt env.uptimeSec)) rfl
    have hnum : (e.heardAt env.uptimeSec).node.num = cfg.self := (Entry.key_eq_some.mp hkey).2
    have done {t : State} {e' : Entry} (h : Over u i cfg.self t e' u.warm) :
        t.WellFormed ∧ ∀ n, n ≠ 0 → n ≠ cfg.self → t.Gone n := by
      refine ⟨h.wf, fun n hn hself => ⟨?_, (slot_congr h.warm).trans (hu n hn hself).warm⟩⟩
      rw [h.entry, if_neg hself, (hu n hn hself).hot]
    dsimp only
    unfold applyUser
    rw [hover.get]
    dsimp only
    rw [if_pos hnum]
    split
    · exact done hover
    · exact done (hover.put rfl)

theorem keyRecord_num {m : UInt32} {raw : Bytes}
    (h : keyRecord wrap (hexChars 8 m.toNat) raw = some w) : w.num = m ∧ m ≠ 0 := by
  unfold keyRecord at h
  rw [nodeOfName_hexChars] at h
  split at h
  · cases h
  split at h
  · cases h
  split at h
  · cases h
  split at h
  · cases h
  next hm =>
  obtain ⟨pub, -, rfl⟩ := Option.map_eq_some_iff.mp h
  exact ⟨rfl, hm⟩

theorem loadKeys_spec (wrap : Wrap) (recs : Store) (hwf : s.WellFormed) :
    (s.loadKeys wrap recs).WellFormed ∧ (s.loadKeys wrap recs).hot = s.hot := by
  induction recs generalizing s with
  | nil => exact ⟨hwf, rfl⟩
  | cons r rest ih =>
    rw [loadKeys, foldl_cons]
    unfold nodekeysSet
    split
    · exact ih hwf
    · exact (ih hwf.place).imp_right fun h => h.trans warmPlace_hot

theorem loadKeys_gone (hn : n ≠ 0) (recs : Store) (hwf : s.WellFormed) (hgone : s.Gone n)
    (h : ∀ r ∈ recs, ∀ w, keyRecord wrap (r.1.drop 7) r.2 = some w → w.num ≠ 0 ∧ w.num ≠ n) :
    (s.loadKeys wrap recs).Gone n := by
  induction recs generalizing s with
  | nil => exact hgone
  | cons r rest ih =>
    obtain ⟨hr, hrest⟩ := forall_mem_cons.mp h
    rw [loadKeys, foldl_cons, ← loadKeys]
    unfold nodekeysSet
    split
    · exact ih hwf hgone hrest
    next w hw =>
    obtain ⟨hw0, hne⟩ := hr w hw
    refine ih hwf.place ⟨warmPlace_entry.trans hgone.hot, ?_⟩ hrest
    rcases warmPlace_slot_ne hwf hw0 hn (Ne.symm hne) with hs | ⟨hs, -⟩
    · exact hs.trans hgone.warm
    · exact hs

theorem loadKeys_last (recs : Store) (hwf : s.WellFormed) {r : Name × Bytes}
    (hw : keyRecord wrap (r.1.drop 7) r.2 = some w) (hw0 : w.num ≠ 0) :
    (s.loadKeys wrap (recs ++ [r])).slot w.num = some w := by
  obtain ⟨hwf', -⟩ := loadKeys_spec wrap recs hwf
  rw [loadKeys, foldl_append, foldl_cons, nodekeysSet, hw]
  exact warmPlace_slot_self hwf' hw0

end Boot

/-- A node is forgotten for good, whatever the order of the load, exactly if its record is
not there, cannot be read, or is pruned by a save between the forget and the boot. -/
theorem forget_durable_iff (cfg : Config) {s : State} (hwf : s.WellFormed) {store : Store}
    (hstore : Named store) {n : UInt32} (hn : n ≠ 0) (hself : n ≠ cfg.self) (acts : List Act)
    (hquiet : ∀ a ∈ acts, a.quiet cfg n) (env : Env) (user : User) (wrap : Wrap) :
    (∀ recs, recs.Perm (run (act cfg) ⟨s.forget cfg n, store⟩ acts).store →
      ((run (act cfg) ⟨s.forget cfg n, store⟩ acts).reboot cfg env user wrap recs).copyPubkey n =
        none) ↔
    ∀ raw, store.lookup (keyName n) = some raw →
      keyRecord wrap (hexChars 8 n.toNat) raw = none ∨
        ¬ Guarded (act cfg) (Spares n) ⟨s.forget cfg n, store⟩ acts := by
  obtain ⟨hwf', hgone⟩ := forget_spec cfg hwf n
  have hleft : Disk.Left ⟨s.forget cfg n, store⟩ n :=
    ⟨hwf', hgone n hn (.inl ⟨rfl, hself⟩), hstore⟩
  obtain ⟨hend, hlook⟩ := run_left hn acts hleft hquiet
  generalize run (act cfg) ⟨s.forget cfg n, store⟩ acts = d at hend hlook ⊢
  obtain ⟨hboot, hblank⟩ := boot_spec cfg hend.wf.ring env user
  have hkey (recs : Store) : (d.reboot cfg env user wrap recs).copyPubkey n =
      (((d.nodes.boot cfg env user).loadKeys wrap recs).slot n).map (·.pub) := by
    have hentry : (d.reboot cfg env user wrap recs).entry n = none := by
      rw [entry, Disk.reboot, (loadKeys_spec wrap recs hboot).2]
      exact (hblank n hn hself).hot
    rw [copyPubkey_unpinned (by rw [hentry]; rfl)]
    rfl
  constructor
  · intro hforgot raw hraw
    by_contra hno
    obtain ⟨hread, hguard⟩ := not_or.mp hno
    obtain ⟨w, hw⟩ := Option.ne_none_iff_exists'.mp hread
    obtain ⟨rfl, hw0⟩ := keyRecord_num hw
    have hmem := mem_of_lookup ((hlook raw).mpr ⟨hraw, not_not.mp hguard⟩)
    -- the record of the node is the last one the backend hands over
    have hperm : (d.store.erase (keyName w.num, raw) ++ [(keyName w.num, raw)]).Perm d.store :=
      (perm_append_singleton _ _).trans (perm_cons_erase hmem).symm
    have hnone := hforgot _ hperm
    have hlast := loadKeys_last (r := (keyName w.num, raw)) (d.store.erase (keyName w.num, raw))
      hboot hw hw0
    rw [hkey, hlast] at hnone
    cases hnone
  · intro hcond recs hperm
    have hother : ∀ r ∈ recs, ∀ w, keyRecord wrap (r.1.drop 7) r.2 = some w →
        w.num ≠ 0 ∧ w.num ≠ n := by
      rintro ⟨name, raw⟩ hr w hw
      have hmem := hperm.mem_iff.mp hr
      obtain ⟨m, rfl⟩ := hend.named.named name (mem_keys hmem)
      obtain ⟨rfl, hw0⟩ := keyRecord_num hw
      refine ⟨hw0, ?_⟩
      rintro rfl
      obtain ⟨hraw, hguard⟩ := (hlook raw).mp (lookup_of_mem hend.named.distinct hmem)
      rcases hcond raw hraw with hread | hprune
      · rw [drop_keyName, hread] at hw
        cases hw
      · exact hprune hguard
    rw [hkey, (loadKeys_gone hn recs hboot (hblank n hn hself) hother).warm]
    rfl

/-! ## A small store to try things on -/

/-- A save in a build without lockdown. -/
def toySave : Act :=
  .save .stub fun _ => ⟨replicate Lockdown.nonceLen 0, length_replicate⟩

/-- A peer with a key, and its record in flash. -/
def toyPeer (reconcile : Bool) : State :=
  step toyConfig { toyStore 8 with reconcile } (toyNodeInfo 1 9 (toyKey 7))

def toyRecords : Store := [(keyName 9, WarmKey.record ⟨9, 1, 0, false, toyKey 7⟩)]

/-- With the flag raised, the save after the forget prunes the record. -/
theorem forget_durable_iff_pruned :
    let d := run (act toyConfig) ⟨(toyPeer true).forget toyConfig 9, toyRecords⟩ [toySave]
    (toyRecords.lookup (keyName 9)).isSome ∧
      (d.reboot toyConfig (toyEnv 0) (toyUser (toyKey 1)) .stub d.store).copyPubkey 9 = none := by
  have hstart : State.WellFormed { toyStore 8 with reconcile := true } :=
    ⟨by decide, by decide, by decide, by decide⟩
  have hnamed : Named toyRecords :=
    ⟨nodup_singleton _, fun name hname => ⟨9, mem_singleton.mp hname⟩⟩
  refine ⟨by decide +kernel, (forget_durable_iff toyConfig (step_wellFormed hstart rfl) hnamed
    (by decide) (by decide) [toySave] ?_ (toyEnv 0) (toyUser (toyKey 1)) .stub).mpr
    (fun raw _ => .inr ?_) _ (.refl _)⟩
  · intro a ha
    rw [mem_singleton.mp ha]
    trivial
  · intro hguard
    have hprune : 9 ∈ Disk.pruned ⟨(toyPeer true).forget toyConfig 9, toyRecords⟩ := by
      decide +kernel
    exact (guarded_cons.mp hguard).1 rfl hprune

/-- A peer is heard and its key saved; it is forgotten, and the ring is saved again. -/
def toyForgotten : Disk :=
  run (act toyConfig) ⟨toyStore 8, []⟩
    [.op (toyNodeInfo 1 9 (toyKey 7)), toySave, .op (.forget 9), toySave]

/-- The tables do not know the peer any more, and after the boot they do. -/
theorem forget_comes_back :
    toyForgotten.nodes.copyPubkey 9 = none ∧
      (toyForgotten.reboot toyConfig (toyEnv 0) (toyUser (toyKey 1)) .stub
        toyForgotten.store).copyPubkey 9 = some (toyKey 7) := by
  decide +kernel

end Zephyrtastic.NodeDb
