import Zephyrtastic.NodeDb.Capacity

/-!
# Node records in pages

The table is saved to the bulk store as pages of fixed slots. A node keeps its slot for
as long as it stays in the table, and a page is written only if its checksum is not the
one that was last written or read.
-/

namespace Zephyrtastic.NodeDb

open Bytes Keyed List

/-- What the records are made with: the message codec, the two conversions of a signal
level, and the checksum. -/
structure Codec where
  /-- `meshtastic_NodeInfoLite_size`. -/
  nodeInfoSize : Nat
  /-- `pb_encode`, into a buffer of that size. -/
  encode : NodeInfoLite → Option Bytes
  /-- `pb_decode`, into a message that was set to zero. -/
  decode : Bytes → Option NodeInfoLite
  /-- `meshtastic_snr_to_q4` and `meshtastic_snr_from_q4`. -/
  toQ4 : UInt32 → Int32
  fromQ4 : Int32 → UInt32
  /-- `crc32_ieee`. -/
  crc : Bytes → UInt32
  /-- The length of a record is stored in a byte. -/
  small : nodeInfoSize + 4 ≤ 255
  fits : ∀ m b, encode m = some b → b.length ≤ nodeInfoSize
  decode_encode : ∀ m b, encode m = some b → decode b = some m
  toQ4_fromQ4 : ∀ x, toQ4 (fromQ4 (toQ4 x)) = toQ4 x

namespace Codec
variable (c : Codec)

def bufLen : Nat := c.nodeInfoSize + 4
def slotLen : Nat := 4 + 1 + c.bufLen
/-- `NREC_PER_PAGE`, with `MESHTASTIC_BULK_BLOB_MAX` as 2048. -/
def perPage : Nat := (2048 - 4) / c.slotLen
def pageLen : Nat := 4 + c.perPage * c.slotLen
def pages (cfg : Config) : Nat := (cfg.maxNodes + c.perPage - 1) / c.perPage
def slots (cfg : Config) : Nat := c.pages cfg * c.perPage

end Codec

section
variable (c : Codec)
variable (toEpoch : UInt32 → UInt32)

def NodeInfoLite.durableCopy (node : NodeInfoLite) : NodeInfoLite :=
  { ({ node with channel := 0, nextHop := 0 } : NodeInfoLite).writeBit .viaMqtt false with
    snr := 0
    snrQ4 := if node.isSet .hasSnr then c.toQ4 node.snr else 0 }

/-- The message `mtrec_encode` writes; `toEpoch` is `meshtastic_clock_uptime_to_epoch` at
that time. -/
def Entry.durable (e : Entry) : NodeInfoLite :=
  { e.node.durableCopy c with
    lastHeard := if e.node.lastHeard > 0 then toEpoch e.node.lastHeard else e.lastHeardEpoch }

/-- `mtrec_encode`: version, reserved, length, message. -/
def Entry.mtrecEncode (e : Entry) : Option Bytes :=
  (c.encode (e.durable c toEpoch)).map fun b => 2 :: 0 :: (putLe 2 b.length ++ b)

/-- The signal level comes back from its stored form. -/
def NodeInfoLite.rehydrate (node : NodeInfoLite) : NodeInfoLite :=
  { node with snr := if node.isSet .hasSnr then c.fromQ4 node.snrQ4 else node.snr, snrQ4 := 0 }

def mtrecDecode (buf : Bytes) : Option NodeInfoLite :=
  if buf.length < 4 ∨ buf.getD 0 0 ≠ 2 then none
  else if getLe (slice buf 2 2) ≠ buf.length - 4 then none
  else (c.decode (buf.drop 4)).map (·.rehydrate c)

/-- The number a slot of the map stands for. -/
def slotKey (num : UInt32) : Option UInt32 := if num = 0 then none else some num

/-- What a slot of a page holds. -/
abbrev SlotRecord := Option (UInt32 × Bytes)

def SlotRecord.num (r : SlotRecord) : Option UInt32 := r.map Prod.fst

/-- The number, the length of the record and the record, padded with zeros. -/
def slotBytes : SlotRecord → Bytes
  | none => replicate c.slotLen 0
  | some (num, rec) => putLe32 num ++ UInt8.ofNat rec.length ::
      (rec ++ replicate (c.bufLen - rec.length) 0)

/-- The number of slots in use. -/
def usedSlots (recs : List SlotRecord) : Nat := recs.countP Option.isSome

/-- The page of some slots: version, slots per page, slots in use, zero, and the slots. -/
def pageBytes (recs : List SlotRecord) : Bytes :=
  1 :: UInt8.ofNat c.perPage :: UInt8.ofNat (usedSlots recs) :: 0 :: recs.flatMap (slotBytes c)

/-- The slots of one page. -/
def onPage {α : Type} (c : Codec) (l : List α) (p : Nat) : List α :=
  (l.drop (p * c.perPage)).take c.perPage

/-- The record of a slot, from the table. -/
def State.slotRecord (s : State) (num : UInt32) : SlotRecord :=
  if num = 0 then none
  else (s.entry num).bind fun e => (e.mtrecEncode c toEpoch).map (num, ·)

/-- The node store, the slot map, the checksums and the bulk store. -/
structure Paged where
  nodes : State
  /-- `nrec_slot`. -/
  slot : List UInt32
  /-- `nrec_crc`, where `nrec_crc_valid`. -/
  known : Nat → Option UInt32
  /-- The blob last written for a page, if it was not deleted since. -/
  blobs : Nat → Option Bytes

/-- The slots of nodes that left the table are free. -/
def State.freeSlots (s : State) (slot : List UInt32) : List UInt32 :=
  slot.map fun num => if num ≠ 0 ∧ (s.findEntry num).isNone then 0 else num

/-- The first free slot. -/
def takeSlot (num : UInt32) : List UInt32 → List UInt32
  | [] => []
  | n :: rest => if n = 0 then num :: rest else n :: takeSlot num rest

/-- One turn of the loop over the table. -/
def giveSlot (cfg : Config) (slot : List UInt32) (e : Entry) : List UInt32 :=
  if !e.used || decide (e.node.num = cfg.self) || slot.contains e.node.num then slot
  else takeSlot e.node.num slot

/-- `nrec_assign_slots_locked`. -/
def State.assignSlots (cfg : Config) (s : State) (slot : List UInt32) : List UInt32 :=
  s.hot.foldl (giveSlot cfg) (s.freeSlots slot)

end

section Persist
variable (cfg : Config) (c : Codec) (toEpoch : UInt32 → UInt32)

/-- The slots `nrec_build_page_locked` fills a page from. -/
def Paged.pageRecords (d : Paged) (p : Nat) : List SlotRecord :=
  (onPage c d.slot p).map (d.nodes.slotRecord c toEpoch)

/-- One turn of the loop of `nrec_persist`; the bulk store takes every write. -/
def Paged.persistPage (force : Bool) (d : Paged) (p : Nat) : Paged :=
  let recs := d.pageRecords c toEpoch p
  let crc := c.crc (pageBytes c recs)
  if !force && decide (d.known p = some crc) then d
  else
    { d with
      known := Function.update d.known p (some crc)
      blobs := Function.update d.blobs p
        (if usedSlots recs > 0 then some (pageBytes c recs) else none) }

/-- `nrec_persist`, with the pages loaded and the store ready. -/
def Paged.nrecPersist (force : Bool) (d : Paged) : Paged :=
  (range (c.pages cfg)).foldl (Paged.persistPage c toEpoch force)
    { d with slot := d.nodes.assignSlots cfg d.slot }

end Persist

section Load
variable (cfg : Config) (c : Codec) (env : Env)

/-- One slot of a page that was read. -/
def Paged.loadSlot (p : Nat) (page : Bytes) (d : Paged) (i : Nat) : Paged :=
  let slot := page.drop (4 + i * c.slotLen)
  let num := getLe32 slot
  let len := slot.getD 4 0
  if num = 0 ∨ len = 0 ∨ len.toNat > c.bufLen ∨ num = cfg.self then d
  else match mtrecDecode c (slice slot 5 len.toNat) with
    | none => d
    | some node =>
      { d with
        nodes := d.nodes.mtrecApply cfg env num node
        slot := d.slot.set (p * c.perPage + i) num }

/-- One turn of the loop of `nrec_load`; a page that is absent or of another layout is
left to the next save. -/
def Paged.loadPage (d : Paged) (p : Nat) : Paged :=
  match d.blobs p with
  | none => { d with known := Function.update d.known p none }
  | some page =>
    if page.length ≠ c.pageLen ∨ page.getD 0 0 ≠ 1 ∨ page.getD 1 0 ≠ UInt8.ofNat c.perPage then
      { d with known := Function.update d.known p none }
    else
      { (range c.perPage).foldl (Paged.loadSlot cfg c env p page) d with
        known := Function.update d.known p (some (c.crc page)) }

def Paged.nrecLoad (d : Paged) : Paged :=
  (range (c.pages cfg)).foldl (Paged.loadPage cfg c env)
    { d with slot := replicate (c.slots cfg) 0 }

/-- The store comes up again and reads its pages. -/
def Paged.reboot (user : User) (d : Paged) : Paged :=
  Paged.nrecLoad cfg c env
    { d with nodes := d.nodes.boot cfg env user, known := fun _ => none }

end Load

/-! ## Layout -/

section Layout
variable (c : Codec) (cfg : Config)

theorem Codec.perPage_bounds : 1 ≤ c.perPage ∧ c.perPage ≤ 255 := by
  have hsmall := c.small
  have hlen : 9 ≤ c.slotLen ∧ c.slotLen ≤ 260 := by
    unfold slotLen bufLen
    omega
  constructor
  · rw [perPage, Nat.le_div_iff_mul_le (by omega)]
    omega
  · exact (Nat.div_le_div_left hlen.1 (by decide)).trans (by decide)

theorem Codec.maxNodes_le_slots : cfg.maxNodes ≤ c.slots cfg := by
  obtain ⟨hpos, -⟩ := c.perPage_bounds
  have hdiv := Nat.div_add_mod (cfg.maxNodes + c.perPage - 1) c.perPage
  have hmod := Nat.mod_lt (cfg.maxNodes + c.perPage - 1) hpos
  rw [slots, pages, Nat.mul_comm]
  omega

variable {c}

theorem length_slotBytes {r : SlotRecord} (h : ∀ num rec, r = some (num, rec) →
    rec.length ≤ c.bufLen) : (slotBytes c r).length = c.slotLen := by
  cases r with
  | none => exact length_replicate
  | some r =>
    obtain ⟨num, rec⟩ := r
    have hle := h num rec rfl
    simp only [slotBytes, length_append, length_putLe32, length_cons,
      length_replicate, Codec.slotLen]
    omega

variable {recs : List SlotRecord} (h : ∀ num rec, some (num, rec) ∈ recs → rec.length ≤ c.bufLen)
include h

theorem drop_slots {i : Nat} {r : SlotRecord} (hi : recs[i]? = some r) :
    ∃ rest, (recs.flatMap (slotBytes c)).drop (i * c.slotLen) = slotBytes c r ++ rest := by
  induction recs generalizing i with
  | nil => cases hi
  | cons a rest ih =>
    have ha : (slotBytes c a).length = c.slotLen :=
      length_slotBytes fun num rec he => h num rec (he ▸ mem_cons_self)
    cases i with
    | zero =>
      obtain rfl : a = r := by simpa using hi
      exact ⟨rest.flatMap (slotBytes c), by simp⟩
    | succ i =>
      obtain ⟨tail, htail⟩ := ih (fun num rec he => h num rec (mem_cons_of_mem a he))
        (by simpa using hi)
      refine ⟨tail, ?_⟩
      rw [flatMap_cons, Nat.succ_mul, Nat.add_comm, ← drop_drop,
        drop_left' ha, htail]

theorem length_flatMap_slots : (recs.flatMap (slotBytes c)).length = recs.length * c.slotLen := by
  induction recs with
  | nil => simp
  | cons a rest ih =>
    have ha : (slotBytes c a).length = c.slotLen :=
      length_slotBytes fun num rec he => h num rec (he ▸ mem_cons_self)
    rw [flatMap_cons, length_append, ha,
      ih fun num rec he => h num rec (mem_cons_of_mem a he), length_cons, Nat.succ_mul,
      Nat.add_comm]

end Layout

/-! ## One record -/

section Record
variable {c : Codec} {toEpoch : UInt32 → UInt32} {e : Entry} {rec : Bytes}

/-- The entry that comes back from the record of an entry. -/
def Entry.restored (c : Codec) (toEpoch : UInt32 → UInt32) (e : Entry) : Entry :=
  ⟨true, { (e.durable c toEpoch).rehydrate c with lastHeard := 0 },
    (e.durable c toEpoch).lastHeard, none, 0⟩

theorem mtrecEncode_spec (h : e.mtrecEncode c toEpoch = some rec) :
    rec ≠ [] ∧ rec.length ≤ c.bufLen ∧
      mtrecDecode c rec = some ((e.durable c toEpoch).rehydrate c) := by
  obtain ⟨b, hb, rfl⟩ := Option.map_eq_some_iff.mp h
  have hfits := c.fits _ _ hb
  have hsmall := c.small
  have hlen : (2 :: 0 :: (putLe 2 b.length ++ b) : Bytes).length = b.length + 4 := by
    simp only [length_cons, length_append, length_putLe]
    omega
  refine ⟨cons_ne_nil _ _, by rw [Codec.bufLen]; omega, ?_⟩
  have hfield : getLe (slice (2 :: 0 :: (putLe 2 b.length ++ b)) 2 2) = b.length := by
    have hslice : slice (2 :: 0 :: (putLe 2 b.length ++ b)) 2 2 = putLe 2 b.length :=
      take_left' (length_putLe 2 _)
    rw [hslice, getLe_putLe]
    exact Nat.mod_eq_of_lt (by omega)
  have hdrop : (2 :: 0 :: (putLe 2 b.length ++ b) : Bytes).drop 4 = b :=
    drop_left' (length_putLe 2 _)
  rw [mtrecDecode, hfield, hdrop, c.decode_encode _ _ hb]
  simp

theorem snrQ4_again {later set : Bool} (h : later = set) (x : UInt32) :
    (if later then c.toQ4 (if later then c.fromQ4 (if set then c.toQ4 x else 0) else 0) else 0) =
      if set then c.toQ4 x else 0 := by
  subst h
  cases later with
  | true => exact c.toQ4_fromQ4 x
  | false => rfl

/-- A copy that has been stored and read is a durable copy again. -/
theorem durableCopy_rehydrate (node : NodeInfoLite) (heard later : UInt32) :
    { NodeInfoLite.durableCopy c { NodeInfoLite.rehydrate c
        { node.durableCopy c with lastHeard := heard } with lastHeard := later } with
      lastHeard := heard } = { node.durableCopy c with lastHeard := heard } := by
  have hsnr : (node.durableCopy c).isSet .hasSnr = node.isSet .hasSnr :=
    isSet_writeBit.trans (if_neg (by decide))
  have hbits := Bits.write_write node.bitfield NodeBit.viaMqtt.shift false
  exact congrArg₂ (fun bits q4 => ({ node with
    snr := 0, lastHeard := heard, channel := 0, nextHop := 0, bitfield := bits, snrQ4 := q4 } :
      NodeInfoLite)) hbits (snrQ4_again hsnr node.snr)

theorem mtrecEncode_restored (toEpoch' : UInt32 → UInt32) :
    (e.restored c toEpoch).mtrecEncode c toEpoch' = e.mtrecEncode c toEpoch := by
  have hsame : (e.restored c toEpoch).durable c toEpoch' = e.durable c toEpoch :=
    durableCopy_rehydrate e.node _ 0
  rw [Entry.mtrecEncode, hsame, Entry.mtrecEncode]

end Record

/-! ## The slot map -/

section Slots
variable {cfg : Config} {s : State} {slot : List UInt32} {n num : UInt32}

theorem slotKey_eq_some : slotKey num = some n ↔ num ≠ 0 ∧ num = n := by
  unfold slotKey
  split <;> simp_all

theorem mem_slotKeys : n ∈ keys slotKey slot ↔ n ∈ slot ∧ n ≠ 0 := by
  simp only [Keyed.mem_keys, slotKey_eq_some]
  constructor
  · rintro ⟨m, hm, hm0, rfl⟩
    exact ⟨hm, hm0⟩
  · rintro ⟨hmem, hn⟩
    exact ⟨n, hmem, hn, rfl⟩

theorem slotKeys_of_full (h : 0 ∉ slot) : keys slotKey slot = slot := by
  induction slot with
  | nil => rfl
  | cons m rest ih =>
    obtain ⟨hm, hrest⟩ := not_or.mp (mt mem_cons.mpr h)
    rw [Keyed.keys_cons, ih hrest, slotKey, if_neg (Ne.symm hm)]
    rfl

theorem freeSlots_keys :
    keys slotKey (s.freeSlots slot) = (keys slotKey slot).filter fun n => (s.entry n).isSome := by
  induction slot with
  | nil => rfl
  | cons m rest ih =>
    rw [State.freeSlots, map_cons, Keyed.keys_cons, Keyed.keys_cons, filter_append]
    congr 1
    rw [← Option.not_isSome, findEntry_isSome]
    by_cases hm : m = 0
    · simp [hm, slotKey]
    · cases hs : (s.entry m).isSome <;> simp [hm, slotKey, hs]

theorem takeSlot_eq (num : UInt32) (h : 0 ∈ slot) :
    ∃ i, slot[i]? = some 0 ∧ takeSlot num slot = slot.set i num := by
  induction slot with
  | nil => cases h
  | cons m rest ih =>
    unfold takeSlot
    split
    · next hm => exact ⟨0, by simp [hm], rfl⟩
    · next hm =>
      obtain ⟨i, hi, heq⟩ := ih ((mem_cons.mp h).resolve_left (Ne.symm hm))
      exact ⟨i + 1, by simpa using hi, by rw [heq, set_cons_succ]⟩

theorem takeSlot_spec (h : 0 ∈ slot) (hnum : num ≠ 0) (hnodup : (keys slotKey slot).Nodup)
    (hnew : num ∉ slot) :
    (takeSlot num slot).length = slot.length ∧ (keys slotKey (takeSlot num slot)).Nodup ∧
      ∀ n, n ∈ keys slotKey (takeSlot num slot) ↔ n = num ∨ n ∈ keys slotKey slot := by
  obtain ⟨i, hi, heq⟩ := takeSlot_eq num h
  have hfits : Fits slotKey slot 0 num := by
    refine .inr fun m hm => ?_
    obtain ⟨-, rfl⟩ := slotKey_eq_some.mp hm
    exact fun hmem => hnew (mem_slotKeys.mp hmem).1
  rw [heq]
  refine ⟨length_set, nodup_set hnodup hi hfits, fun n => ?_⟩
  rw [← lookup_isSome, lookup_set hnodup hi hfits, slotKey, if_neg hnum, ← lookup_isSome]
  by_cases hn : n = num
  · simp [hn]
  · have hne : some num ≠ some n := fun e => hn (Option.some.inj e).symm
    rw [if_neg hne, if_neg (by simp [slotKey])]
    simp [hn]

/-- The slots are distinct, as many as the pages have, and of nodes in the table other
than this one. -/
structure SlotsOf (cfg : Config) (hot : List Entry) (len : Nat) (slot : List UInt32) : Prop where
  length : slot.length = len
  distinct : (keys slotKey slot).Nodup
  peer : ∀ n ∈ keys slotKey slot, n ≠ cfg.self ∧ n ∈ hot.map (·.node.num)

variable {hot : List Entry} {len : Nat} {e : Entry}

section
variable (h : SlotsOf cfg hot len slot) (ht : Table cfg hot) (hlen : cfg.maxNodes ≤ len)
  (he : e ∈ hot)
include h ht hlen he

/-- A node without a slot finds a free one: this node and it have none. -/
theorem SlotsOf.free (hself : e.node.num ≠ cfg.self) (hnew : e.node.num ∉ slot) : 0 ∈ slot := by
  by_contra hfull
  have hkeys := slotKeys_of_full hfull
  obtain ⟨a, ha, haself⟩ := ht.self
  have hnodup : (cfg.self :: e.node.num :: slot).Nodup := by
    refine nodup_cons.mpr ⟨?_, nodup_cons.mpr ⟨hnew, hkeys ▸ h.distinct⟩⟩
    rintro hmem
    rcases mem_cons.mp hmem with heq | hmem
    · exact hself heq.symm
    · exact (h.peer cfg.self (hkeys.symm ▸ hmem)).1 rfl
  have hsub : (cfg.self :: e.node.num :: slot) ⊆ hot.map (·.node.num) := by
    intro n hn
    rcases mem_cons.mp hn with rfl | hn
    · exact mem_map.mpr ⟨a, ha, haself⟩
    rcases mem_cons.mp hn with rfl | hn
    · exact mem_map_of_mem he
    · exact (h.peer n (hkeys.symm ▸ hn)).2
  have hle := (hnodup.subperm hsub).length_le
  have hsize := ht.size
  have hlength := h.length
  simp only [length_cons, length_map] at hle
  omega

theorem giveSlot_spec :
    SlotsOf cfg hot len (giveSlot cfg slot e) ∧
      (e.node.num ≠ cfg.self → e.node.num ∈ keys slotKey (giveSlot cfg slot e)) ∧
      ∀ n ∈ keys slotKey slot, n ∈ keys slotKey (giveSlot cfg slot e) := by
  have hnum := ht.nonzero e he
  unfold giveSlot
  rw [ht.used e he]
  split
  · next hskip =>
    refine ⟨h, fun hself => mem_slotKeys.mpr ⟨?_, hnum⟩, fun _ hn => hn⟩
    simpa [hself] using hskip
  next hgive =>
  have hgive : e.node.num ≠ cfg.self ∧ e.node.num ∉ slot := by simpa using hgive
  have hfree := h.free ht hlen he hgive.1 hgive.2
  obtain ⟨hl, hnodup, hmem⟩ := takeSlot_spec hfree hnum h.distinct hgive.2
  refine ⟨⟨hl.trans h.length, hnodup, fun n hn => ?_⟩, fun _ => (hmem _).mpr (.inl rfl),
    fun n hn => (hmem n).mpr (.inr hn)⟩
  rcases (hmem n).mp hn with rfl | hold
  · exact ⟨hgive.1, mem_map_of_mem he⟩
  · exact h.peer n hold

end

theorem giveSlots_spec (ht : Table cfg hot) (hlen : cfg.maxNodes ≤ len) (l : List Entry)
    (hl : ∀ e ∈ l, e ∈ hot) (h : SlotsOf cfg hot len slot) :
    SlotsOf cfg hot len (l.foldl (giveSlot cfg) slot) ∧
      (∀ e ∈ l, e.node.num ≠ cfg.self →
        e.node.num ∈ keys slotKey (l.foldl (giveSlot cfg) slot)) ∧
      ∀ n ∈ keys slotKey slot, n ∈ keys slotKey (l.foldl (giveSlot cfg) slot) := by
  induction l generalizing slot with
  | nil => exact ⟨h, nofun, fun _ hn => hn⟩
  | cons e rest ih =>
    obtain ⟨he, hrest⟩ := forall_mem_cons.mp hl
    obtain ⟨hone, hgot, hkept⟩ := giveSlot_spec h ht hlen he
    obtain ⟨hall, hgots, hkepts⟩ := ih hrest hone
    refine ⟨hall, ?_, fun n hn => hkepts n (hkept n hn)⟩
    intro a ha hself
    rcases mem_cons.mp ha with rfl | ha
    · exact hkepts _ (hgot hself)
    · exact hgots a ha hself

/-- After `nrec_assign_slots_locked` the peers of the table have one slot each, and nobody
else has one. -/
theorem assignSlots_spec (ht : Table cfg s.hot) (hlen : cfg.maxNodes ≤ len)
    (hlength : slot.length = len) (hnodup : (keys slotKey slot).Nodup)
    (hself : cfg.self ∉ keys slotKey slot) :
    (s.assignSlots cfg slot).length = len ∧ (keys slotKey (s.assignSlots cfg slot)).Nodup ∧
      ∀ n, n ∈ keys slotKey (s.assignSlots cfg slot) ↔ n ≠ cfg.self ∧ (s.entry n).isSome := by
  have hentry (n : UInt32) : (s.entry n).isSome ↔ n ∈ s.hot.map (·.node.num) := by
    rw [entry_eq, lookup_isSome, Keyed.mem_keys, mem_map]
    constructor
    · rintro ⟨e, he, hkey⟩
      exact ⟨e, he, (Entry.key_eq_some.mp hkey).2⟩
    · rintro ⟨e, he, hnum⟩
      exact ⟨e, he, Entry.key_eq_some.mpr ⟨ht.used e he, hnum⟩⟩
  have hfree : SlotsOf cfg s.hot len (s.freeSlots slot) := by
    refine ⟨by rw [State.freeSlots, length_map, hlength], ?_, fun n hn => ?_⟩
    · rw [freeSlots_keys]
      exact hnodup.filter _
    · rw [freeSlots_keys] at hn
      obtain ⟨hmem, hsome⟩ := mem_filter.mp hn
      exact ⟨fun he => hself (he ▸ hmem), (hentry n).mp hsome⟩
  obtain ⟨hall, hgot, -⟩ := giveSlots_spec ht hlen s.hot (fun _ he => he) hfree
  refine ⟨hall.length, hall.distinct, fun n => ⟨fun hn => ?_, ?_⟩⟩
  · obtain ⟨hne, hmem⟩ := hall.peer n hn
    exact ⟨hne, (hentry n).mpr hmem⟩
  · rintro ⟨hne, hsome⟩
    obtain ⟨e, he, rfl⟩ := mem_map.mp ((hentry n).mp hsome)
    exact hgot e he hne

end Slots

end Zephyrtastic.NodeDb
