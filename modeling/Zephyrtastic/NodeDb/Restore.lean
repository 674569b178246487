import Zephyrtastic.NodeDb.Pages

/-!
# Saving and restoring pages

The pages stand for an image: what every slot holds. A save makes them stand for
the image of the table as it is then, although it writes only the pages that
changed, and a load makes the table from the image.
-/

namespace Zephyrtastic.NodeDb

open Bytes Function Keyed Run
open List hiding rec
open State hiding rec

/-- The blob of a page; there is none if no slot is in use. -/
def blobOf (c : Codec) (recs : List SlotRecord) : Option Bytes :=
  if usedSlots recs > 0 then some (pageBytes c recs) else none

/-- An image: as many slots as the pages have, each free or with the readable record of a
peer of its own, and room for all of them beside this node. -/
structure Image (cfg : Config) (c : Codec) (image : List SlotRecord) : Prop where
  length : image.length = c.slots cfg
  distinct : (keys SlotRecord.num image).Nodup
  peer : ∀ num rec, some (num, rec) ∈ image → num ≠ 0 ∧ num ≠ cfg.self ∧ rec ≠ [] ∧
    rec.length ≤ c.bufLen ∧ (mtrecDecode c rec).isSome
  room : (keys SlotRecord.num image).length < cfg.maxNodes

/-- The pages stand for an image, and the checksums are of it. -/
structure Paged.Holds (cfg : Config) (c : Codec) (d : Paged) (image : List SlotRecord) : Prop where
  valid : Image cfg c image
  blobs : ∀ p < c.pages cfg, d.blobs p = blobOf c (onPage c image p)
  known : ∀ p < c.pages cfg, ∀ x, d.known p = some x →
    x = c.crc (pageBytes c (onPage c image p))

/-- The content a page was last given; a page that is not there has no slot in use. -/
def Paged.stored (c : Codec) (d : Paged) (p : Nat) : Bytes :=
  (d.blobs p).getD (pageBytes c (replicate c.perPage none))

/-- The slots are assigned and the pages not yet written. -/
def Paged.assigned (cfg : Config) (d : Paged) : Paged :=
  { d with slot := d.nodes.assignSlots cfg d.slot }

/-- What a save asks for: the records of the peers encode, and no page has the checksum of
its last content with another content. -/
structure Paged.Saves (cfg : Config) (c : Codec) (toEpoch : UInt32 → UInt32) (d : Paged) :
    Prop where
  encodes : ∀ e ∈ d.nodes.hot, e.node.num ≠ cfg.self → (e.mtrecEncode c toEpoch).isSome
  crc : ∀ p < c.pages cfg,
    c.crc (pageBytes c ((d.assigned cfg).pageRecords c toEpoch p)) = c.crc (d.stored c p) →
      pageBytes c ((d.assigned cfg).pageRecords c toEpoch p) = d.stored c p

/-! ## Pages and images -/

variable {α : Type} {r : SlotRecord}

section Pages
variable {cfg : Config} {c : Codec} {recs recs' image : List SlotRecord} {p : Nat}

theorem onPage_length {l : List α} (h : l.length = c.slots cfg)
    (hp : p < c.pages cfg) : (onPage c l p).length = c.perPage := by
  have hle : (p + 1) * c.perPage ≤ c.pages cfg * c.perPage := Nat.mul_le_mul_right _ hp
  rw [Nat.add_mul] at hle
  rw [onPage, length_take, length_drop, h, Codec.slots]
  omega

theorem onPage_map {β : Type} (f : α → β) (l : List α) (p : Nat) :
    (onPage c l p).map f = onPage c (l.map f) p := by
  rw [onPage, onPage, map_take, map_drop]

theorem mem_of_onPage {l : List α} {a : α} (h : a ∈ onPage c l p) : a ∈ l :=
  mem_of_mem_drop (mem_of_mem_take h)

theorem blobOf_congr (hlen : recs.length ≤ c.perPage) (hlen' : recs'.length ≤ c.perPage)
    (h : pageBytes c recs = pageBytes c recs') : blobOf c recs = blobOf c recs' := by
  have hbyte : UInt8.ofNat (usedSlots recs) = UInt8.ofNat (usedSlots recs') := by
    simp only [pageBytes, cons.injEq] at h
    exact h.2.2.1
  have small {l : List SlotRecord} (hl : l.length ≤ c.perPage) :
      (UInt8.ofNat (usedSlots l)).toNat = usedSlots l := by
    have hle : usedSlots l ≤ l.length := countP_le_length
    have hbound := c.perPage_bounds.2
    exact UInt8.toNat_ofNat_of_lt' (Nat.lt_of_le_of_lt (hle.trans (hl.trans hbound)) (by decide))
  have hused : usedSlots recs = usedSlots recs' := by
    rw [← small hlen, hbyte, small hlen']
  rw [blobOf, blobOf, hused, h]

theorem eq_replicate_of_unused (h : ¬ usedSlots recs > 0) : recs = replicate recs.length none := by
  have hzero : recs.countP Option.isSome = 0 := Nat.eq_zero_of_not_pos h
  refine eq_replicate_iff.mpr ⟨rfl, fun r hr => ?_⟩
  exact Option.not_isSome_iff_eq_none.mp (countP_eq_zero.mp hzero r hr)

theorem Paged.Holds.stored_eq {d : Paged} (h : d.Holds cfg c image) (hp : p < c.pages cfg) :
    d.stored c p = pageBytes c (onPage c image p) := by
  rw [Paged.stored, h.blobs p hp, blobOf]
  split
  · rfl
  · next hunused =>
    have hlen := onPage_length h.valid.length hp
    rw [Option.getD_none, ← hlen, ← eq_replicate_of_unused hunused]

end Pages

/-! ## A save -/

section Save
variable {cfg : Config} {c : Codec} {toEpoch : UInt32 → UInt32} {image : List SlotRecord}

/-- The image of the table through a slot map. -/
def State.imageOf (c : Codec) (toEpoch : UInt32 → UInt32) (s : State) (slot : List UInt32) :
    List SlotRecord := slot.map (s.slotRecord c toEpoch)

theorem pageRecords_eq (d : Paged) (p : Nat) :
    d.pageRecords c toEpoch p = onPage c (d.nodes.imageOf c toEpoch d.slot) p := onPage_map _ _ _

theorem persistPage_spec (c : Codec) (toEpoch : UInt32 → UInt32) (force : Bool) (d : Paged)
    (p : Nat) (hskip : d.known p = some (c.crc (pageBytes c (d.pageRecords c toEpoch p))) →
      d.blobs p = blobOf c (d.pageRecords c toEpoch p)) :
    let t := d.persistPage c toEpoch force p
    t.nodes = d.nodes ∧ t.slot = d.slot ∧
      t.blobs = update d.blobs p (blobOf c (d.pageRecords c toEpoch p)) ∧
      t.known = update d.known p (some (c.crc (pageBytes c (d.pageRecords c toEpoch p)))) := by
  unfold Paged.persistPage
  dsimp only
  split
  · next h =>
    have hknown : d.known p = some (c.crc (pageBytes c (d.pageRecords c toEpoch p))) := by
      simp only [Bool.and_eq_true, decide_eq_true_eq] at h
      exact h.2
    refine ⟨rfl, rfl, ?_, ?_⟩
    · rw [← hskip hknown, update_eq_self]
    · rw [← hknown, update_eq_self]
  · exact ⟨rfl, rfl, rfl, rfl⟩

theorem persistPages_spec (force : Bool) (d : Paged) (k : Nat)
    (hskip : ∀ p < k, d.known p = some (c.crc (pageBytes c (d.pageRecords c toEpoch p))) →
      d.blobs p = blobOf c (d.pageRecords c toEpoch p)) :
    let t := (range k).foldl (Paged.persistPage c toEpoch force) d
    t.nodes = d.nodes ∧ t.slot = d.slot ∧ ∀ p,
      t.blobs p = (if p < k then blobOf c (d.pageRecords c toEpoch p) else d.blobs p) ∧
        t.known p =
          if p < k then some (c.crc (pageBytes c (d.pageRecords c toEpoch p))) else d.known p := by
  induction k with
  | zero => exact ⟨rfl, rfl, fun p => ⟨rfl, rfl⟩⟩
  | succ k ih =>
    obtain ⟨hnodes, hslot, hpages⟩ := ih fun p hp => hskip p (Nat.lt_succ_of_lt hp)
    rw [range_succ, foldl_append, foldl_cons, foldl_nil]
    generalize (range k).foldl (Paged.persistPage c toEpoch force) d = t at hnodes hslot hpages
    have hrecs (p : Nat) : t.pageRecords c toEpoch p = d.pageRecords c toEpoch p := by
      rw [Paged.pageRecords, hslot, hnodes, Paged.pageRecords]
    have hk := hpages k
    rw [if_neg (Nat.lt_irrefl k), if_neg (Nat.lt_irrefl k)] at hk
    obtain ⟨hn, hs, hb, hkn⟩ := persistPage_spec c toEpoch force t k (by
      rw [hrecs, hk.1, hk.2]
      exact hskip k (Nat.lt_succ_self k))
    refine ⟨hn.trans hnodes, hs.trans hslot, fun p => ?_⟩
    rw [hb, hkn, hrecs]
    by_cases hp : p = k
    · subst hp
      simp
    · rw [update_of_ne hp, update_of_ne hp, (hpages p).1, (hpages p).2]
      have hiff : p < k + 1 ↔ p < k := by omega
      simp only [hiff, and_self]

/-- The table and the slot map are in order. -/
structure Paged.InOrder (cfg : Config) (c : Codec) (d : Paged) : Prop where
  table : Table cfg d.nodes.hot
  length : d.slot.length = c.slots cfg
  distinct : (keys slotKey d.slot).Nodup
  self : cfg.self ∉ keys slotKey d.slot

variable {s : State} {slot : List UInt32} {d : Paged}

theorem slotRecord_eq_some {m num : UInt32} {rec : Bytes} :
    s.slotRecord c toEpoch m = some (num, rec) ↔
      m ≠ 0 ∧ m = num ∧ ∃ e, s.entry m = some e ∧ e.mtrecEncode c toEpoch = some rec := by
  unfold slotRecord
  split
  · next h => simp [h]
  next h =>
  simp only [Option.bind_eq_some_iff, Option.map_eq_some_iff, Prod.mk.injEq]
  constructor
  · rintro ⟨e, he, r, hr, hnum, rfl⟩
    exact ⟨h, hnum, e, he, hr⟩
  · rintro ⟨-, hnum, e, he, hr⟩
    exact ⟨e, he, rec, hr, hnum, rfl⟩

variable (cfg c toEpoch s slot) in
/-- What an assigned slot map gives the image. -/
structure Assigned : Prop where
  length : slot.length = c.slots cfg
  distinct : (keys slotKey slot).Nodup
  peer : ∀ n, n ∈ keys slotKey slot ↔ n ≠ cfg.self ∧ (s.entry n).isSome
  encodes : ∀ n ≠ cfg.self, ∀ e, s.entry n = some e → (e.mtrecEncode c toEpoch).isSome

theorem Paged.InOrder.assigned (h : d.InOrder cfg c) (hs : d.Saves cfg c toEpoch) :
    Assigned cfg c toEpoch d.nodes (d.nodes.assignSlots cfg d.slot) := by
  obtain ⟨hlen, hnodup, hpeer⟩ :=
    assignSlots_spec h.table (c.maxNodes_le_slots cfg) h.length h.distinct h.self
  refine ⟨hlen, hnodup, hpeer, fun n hn e he => hs.encodes e (mem_of_find?_eq_some he) ?_⟩
  rw [(entry_num he).2]
  exact hn

theorem Assigned.keys_image (h : Assigned cfg c toEpoch s slot) :
    Keyed.keys SlotRecord.num (s.imageOf c toEpoch slot) = Keyed.keys slotKey slot := by
  unfold imageOf Keyed.keys
  rw [filterMap_map]
  refine filterMap_congr fun m hm => ?_
  by_cases hm0 : m = 0
  · simp [hm0, slotRecord, SlotRecord.num, slotKey]
  obtain ⟨hne, hsome⟩ := (h.peer m).mp (mem_slotKeys.mpr ⟨hm, hm0⟩)
  obtain ⟨e, he⟩ := Option.isSome_iff_exists.mp hsome
  obtain ⟨rec, hrec⟩ := Option.isSome_iff_exists.mp (h.encodes m hne e he)
  have hslot : s.slotRecord c toEpoch m = some (m, rec) :=
    slotRecord_eq_some.mpr ⟨hm0, rfl, e, he, hrec⟩
  rw [comp_apply, hslot, slotKey, if_neg hm0]
  rfl

theorem Assigned.valid (h : Assigned cfg c toEpoch s slot) (ht : Table cfg s.hot) :
    Image cfg c (s.imageOf c toEpoch slot) := by
  refine ⟨by rw [imageOf, length_map, h.length], by rw [h.keys_image]; exact h.distinct,
    fun num rec hmem => ?_, ?_⟩
  · obtain ⟨m, hm, hrec⟩ := mem_map.mp hmem
    obtain ⟨hm0, rfl, e, he, henc⟩ := slotRecord_eq_some.mp hrec
    obtain ⟨hne, -⟩ := (h.peer m).mp (mem_slotKeys.mpr ⟨hm, hm0⟩)
    obtain ⟨hnil, hlen, hdec⟩ := mtrecEncode_spec henc
    exact ⟨hm0, hne, hnil, hlen, by rw [hdec]; rfl⟩
  · obtain ⟨a, ha, haself⟩ := ht.self
    have hnodup : (cfg.self :: Keyed.keys slotKey slot).Nodup :=
      nodup_cons.mpr ⟨fun hmem => ((h.peer _).mp hmem).1 rfl, h.distinct⟩
    have hsub : (cfg.self :: Keyed.keys slotKey slot) ⊆ s.hot.map (·.node.num) := by
      intro n hn
      rcases mem_cons.mp hn with rfl | hn
      · exact mem_map.mpr ⟨a, ha, haself⟩
      · obtain ⟨e, he⟩ := Option.isSome_iff_exists.mp ((h.peer n).mp hn).2
        exact mem_map.mpr ⟨e, mem_of_find?_eq_some he, (entry_num he).2⟩
    have hle := (hnodup.subperm hsub).length_le
    have hsize := ht.size
    rw [length_cons, length_map] at hle
    rw [h.keys_image]
    omega

theorem nrecPersist_spec (force : Bool) (hd : d.Holds cfg c image) (ho : d.InOrder cfg c)
    (hs : d.Saves cfg c toEpoch) :
    let t := d.nrecPersist cfg c toEpoch force
    t.nodes = d.nodes ∧ t.slot = d.nodes.assignSlots cfg d.slot ∧
      t.Holds cfg c (d.nodes.imageOf c toEpoch (d.nodes.assignSlots cfg d.slot)) := by
  have hassigned := ho.assigned hs
  have himage := hassigned.valid ho.table
  have hrecs (p : Nat) : (d.assigned cfg).pageRecords c toEpoch p =
      onPage c (d.nodes.imageOf c toEpoch (d.nodes.assignSlots cfg d.slot)) p := pageRecords_eq _ _
  have hskip : ∀ p < c.pages cfg, (d.assigned cfg).known p =
      some (c.crc (pageBytes c ((d.assigned cfg).pageRecords c toEpoch p))) →
        (d.assigned cfg).blobs p = blobOf c ((d.assigned cfg).pageRecords c toEpoch p) := by
    intro p hp hknown
    -- the checksum is that of the stored content, and so is the content
    have hold := hd.known p hp _ hknown
    have hsame := hs.crc p hp (by rw [hold, hd.stored_eq hp])
    rw [hd.stored_eq hp] at hsame
    have hlen := onPage_length hd.valid.length hp
    have hlen' := onPage_length himage.length hp
    rw [← hrecs] at hlen'
    rw [blobOf_congr hlen'.le hlen.le hsame]
    exact hd.blobs p hp
  obtain ⟨hnodes, hslot, hpages⟩ := persistPages_spec force (d.assigned cfg) (c.pages cfg) hskip
  refine ⟨hnodes, hslot, himage, fun p hp => ?_, fun p hp x hx => ?_⟩
  · refine (hpages p).1.trans ?_
    rw [if_pos hp, hrecs]
  · have hknown := (hpages p).2
    rw [if_pos hp, hrecs] at hknown
    exact (Option.mem_unique hknown hx).symm

end Save

/-! ## A load -/

section Load
variable {cfg : Config} {c : Codec} {env : Env} {image : List SlotRecord} {s : State} {d : Paged}

/-- What a record of a slot does to the table and to the slot map. -/
def Paged.putRecord (cfg : Config) (c : Codec) (env : Env) (d : Paged) (k : Nat) :
    SlotRecord → Paged
  | none => d
  | some (num, rec) => match mtrecDecode c rec with
    | none => d
    | some node =>
      { d with nodes := d.nodes.mtrecApply cfg env num node, slot := d.slot.set k num }

/-- What it does to the table alone. -/
def State.putRecord (cfg : Config) (c : Codec) (env : Env) (s : State) : SlotRecord → State
  | none => s
  | some (num, rec) => match mtrecDecode c rec with
    | none => s
    | some node => s.mtrecApply cfg env num node

/-- The records of an image, in order. -/
def State.putImage (cfg : Config) (c : Codec) (env : Env) (s : State) (image : List SlotRecord) :
    State := image.foldl (State.putRecord cfg c env) s

theorem loadSlot_eq {recs : List SlotRecord} (p : Nat) {i : Nat}
    (hpeer : ∀ num rec, some (num, rec) ∈ recs → num ≠ 0 ∧ num ≠ cfg.self ∧ rec ≠ [] ∧
      rec.length ≤ c.bufLen ∧ (mtrecDecode c rec).isSome) (hi : recs[i]? = some r) :
    d.loadSlot cfg c env p (pageBytes c recs) i = d.putRecord cfg c env (p * c.perPage + i) r := by
  obtain ⟨rest, hrest⟩ := drop_slots (fun num rec h => (hpeer num rec h).2.2.2.1) hi
  have hdrop : (pageBytes c recs).drop (4 + i * c.slotLen) = slotBytes c r ++ rest := by
    rw [← drop_drop]
    exact hrest
  unfold Paged.loadSlot
  rw [hdrop]
  cases r with
  | none =>
    have hzero : getLe32 (slotBytes c none ++ rest) = 0 := by
      have hrep : slotBytes c none = putLe32 0 ++ replicate (1 + c.bufLen) 0 := by
        rw [slotBytes, Codec.slotLen, Nat.add_assoc, replicate_add]
        rfl
      rw [hrep, append_assoc, getLe32_putLe32]
    rw [if_pos (.inl hzero)]
    rfl
  | some r =>
    obtain ⟨num, rec⟩ := r
    obtain ⟨hnum, hself, hnil, hlen, hdec⟩ := hpeer num rec (mem_of_getElem? hi)
    obtain ⟨node, hnode⟩ := Option.isSome_iff_exists.mp hdec
    have hsmall : rec.length < 256 := by
      have := c.small
      unfold Codec.bufLen at hlen
      omega
    have hget : getLe32 (slotBytes c (some (num, rec)) ++ rest) = num := by
      rw [slotBytes, append_assoc, getLe32_putLe32]
    have hbyte : (slotBytes c (some (num, rec)) ++ rest).getD 4 0 = UInt8.ofNat rec.length := by
      rw [slotBytes]
      simp
    have hval : (UInt8.ofNat rec.length).toNat = rec.length := UInt8.toNat_ofNat_of_lt' hsmall
    have hlen0 : UInt8.ofNat rec.length ≠ 0 := by
      intro h
      rw [h] at hval
      exact hnil (eq_nil_of_length_eq_zero hval.symm)
    have hslice : slice (slotBytes c (some (num, rec)) ++ rest) 5 rec.length = rec :=
      (congrArg (take rec.length) (append_assoc rec _ rest)).trans
        (take_left' rfl)
    dsimp only
    rw [hget, hbyte, hval, hslice, if_neg (by simp [hnum, hlen0, hself]; omega)]
    simp only [Paged.putRecord, hnode]

/-- After the first `m` slots of the image. -/
structure LoadedTo (cfg : Config) (c : Codec) (env : Env) (start : State)
    (image : List SlotRecord) (m : Nat) (d : Paged) : Prop where
  nodes : d.nodes = start.putImage cfg c env (image.take m)
  slot : d.slot = (image.take m).map (fun r => r.num.getD 0) ++
    List.replicate (c.slots cfg - m) 0

variable {start : State} {p : Nat}

theorem LoadedTo.next {m : Nat} (h : LoadedTo cfg c env start image m d)
    (himage : Image cfg c image) (hm : image[m]? = some r) :
    LoadedTo cfg c env start image (m + 1) (d.putRecord cfg c env m r) := by
  have hlt : m < c.slots cfg := himage.length ▸ (List.getElem?_eq_some_iff.mp hm).1
  have htake : image.take (m + 1) = image.take m ++ [r] := by
    rw [take_add_one, hm]
    rfl
  have hfree : replicate (c.slots cfg - m) (0 : UInt32) =
      0 :: replicate (c.slots cfg - (m + 1)) 0 := by
    rw [← replicate_succ]
    congr 1
    omega
  have hlen : ((image.take m).map fun r => r.num.getD 0).length = m := by
    rw [length_map, length_take, himage.length]
    omega
  have hnodes : d.nodes.putRecord cfg c env r = start.putImage cfg c env (image.take (m + 1)) := by
    rw [htake, putImage, foldl_append, h.nodes]
    rfl
  cases r with
  | none =>
    refine ⟨hnodes, ?_⟩
    rw [htake, map_append, append_assoc]
    exact h.slot.trans (congrArg (_ ++ ·) hfree)
  | some r =>
    obtain ⟨num, rec⟩ := r
    obtain ⟨-, -, -, -, hdec⟩ := himage.peer num rec (mem_of_getElem? hm)
    obtain ⟨node, hnode⟩ := Option.isSome_iff_exists.mp hdec
    simp only [putRecord, hnode] at hnodes
    simp only [Paged.putRecord, hnode]
    refine ⟨hnodes, ?_⟩
    rw [h.slot, hfree, htake, map_append, append_assoc,
      set_append_right _ _ hlen.le, hlen, Nat.sub_self]
    rfl

theorem putRecord_rest (cfg : Config) (c : Codec) (env : Env) (d : Paged) (k : Nat)
    (r : SlotRecord) : (d.putRecord cfg c env k r).known = d.known ∧
      (d.putRecord cfg c env k r).blobs = d.blobs := by
  unfold Paged.putRecord
  split
  · exact ⟨rfl, rfl⟩
  · split <;> exact ⟨rfl, rfl⟩

theorem onPage_get (l : List α) (p : Nat) {i : Nat} (hi : i < c.perPage) :
    (onPage c l p)[i]? = l[p * c.perPage + i]? := by
  rw [onPage, getElem?_take_of_lt hi, getElem?_drop]

section
variable (himage : Image cfg c image) (hp : p < c.pages cfg)
  (h : LoadedTo cfg c env start image (p * c.perPage) d)
include himage hp h

theorem loadSlots_spec (j : Nat) (hj : j ≤ c.perPage) :
    let t := (range j).foldl (Paged.loadSlot cfg c env p (pageBytes c (onPage c image p))) d
    LoadedTo cfg c env start image (p * c.perPage + j) t ∧ t.known = d.known ∧
      t.blobs = d.blobs := by
  induction j with
  | zero => exact ⟨h, rfl, rfl⟩
  | succ j ih =>
    obtain ⟨hto, hknown, hblobs⟩ := ih (by omega)
    rw [range_succ, foldl_append, foldl_cons]
    have hlen := onPage_length himage.length hp
    obtain ⟨r, hr⟩ : ∃ r, (onPage c image p)[j]? = some r :=
      ⟨_, getElem?_eq_getElem (by omega)⟩
    rw [loadSlot_eq p (fun num rec hmem => himage.peer num rec (mem_of_onPage hmem)) hr]
    rw [onPage_get image p hj] at hr
    obtain ⟨hk, hb⟩ := putRecord_rest cfg c env _ (p * c.perPage + j) r
    exact ⟨hto.next himage hr, hk.trans hknown, hb.trans hblobs⟩

theorem LoadedTo.skip (hunused : ¬ usedSlots (onPage c image p) > 0) (j : Nat)
    (hj : j ≤ c.perPage) : LoadedTo cfg c env start image (p * c.perPage + j) d := by
  have hlen := onPage_length himage.length hp
  induction j with
  | zero => exact h
  | succ j ih =>
    have hnone : (onPage c image p)[j]? = some none := by
      rw [eq_replicate_of_unused hunused, getElem?_replicate, if_pos (by omega)]
    rw [onPage_get image p hj] at hnone
    exact (ih (by omega)).next himage hnone

theorem loadPage_spec (hblob : d.blobs p = blobOf c (onPage c image p)) :
    let t := d.loadPage cfg c env p
    LoadedTo cfg c env start image ((p + 1) * c.perPage) t ∧ t.blobs = d.blobs ∧
      t.known = update d.known p ((blobOf c (onPage c image p)).map c.crc) := by
  have hlen := onPage_length himage.length hp
  have hpage : (pageBytes c (onPage c image p)).length = c.pageLen := by
    have hslots := length_flatMap_slots (c := c)
      fun num rec hmem => (himage.peer num rec (mem_of_onPage (c := c) (p := p) hmem)).2.2.2.1
    rw [pageBytes, length_cons, length_cons, length_cons, length_cons, hslots,
      hlen, Codec.pageLen]
    omega
  rw [Nat.add_mul, Nat.one_mul]
  unfold Paged.loadPage
  rw [hblob, blobOf]
  split
  · next hnone =>
    have hunused : ¬ usedSlots (onPage c image p) > 0 := fun hu => by
      rw [if_pos hu] at hnone
      cases hnone
    rw [if_neg hunused]
    have hskip := LoadedTo.skip himage hp h hunused c.perPage le_rfl
    exact ⟨{ hskip with }, rfl, rfl⟩
  · next page hsome =>
    obtain ⟨hused, rfl⟩ : usedSlots (onPage c image p) > 0 ∧
        pageBytes c (onPage c image p) = page := by simpa using hsome
    rw [if_neg (by rintro (h | h | h) <;> exact h (by first | exact hpage | rfl)), if_pos hused]
    obtain ⟨hto, hknown, hblobs⟩ := loadSlots_spec himage hp h c.perPage le_rfl
    exact ⟨{ hto with }, hblobs, rfl⟩

end

theorem loadPages_spec (himage : Image cfg c image) (h : LoadedTo cfg c env start image 0 d)
    (hblobs : ∀ p < c.pages cfg, d.blobs p = blobOf c (onPage c image p)) (k : Nat)
    (hk : k ≤ c.pages cfg) :
    let t := (range k).foldl (Paged.loadPage cfg c env) d
    LoadedTo cfg c env start image (k * c.perPage) t ∧ t.blobs = d.blobs ∧
      ∀ p < k, t.known p = (blobOf c (onPage c image p)).map c.crc := by
  induction k with
  | zero => exact ⟨by rw [Nat.zero_mul]; exact h, rfl, nofun⟩
  | succ k ih =>
    obtain ⟨hto, hsame, hknown⟩ := ih (by omega)
    rw [range_succ, foldl_append, foldl_cons, foldl_nil]
    obtain ⟨hto', hsame', hknown'⟩ :=
      loadPage_spec himage hk hto (by rw [hsame]; exact hblobs k hk)
    refine ⟨hto', hsame'.trans hsame, fun p hp => ?_⟩
    rw [hknown']
    by_cases he : p = k
    · rw [he, update_self]
    · rw [update_of_ne he]
      exact hknown p (by omega)

theorem nrecLoad_spec (env : Env) (hd : d.Holds cfg c image) :
    let t := d.nrecLoad cfg c env
    t.nodes = d.nodes.putImage cfg c env image ∧ t.slot = image.map (fun r => r.num.getD 0) ∧
      t.blobs = d.blobs ∧ t.Holds cfg c image := by
  have hstart : LoadedTo cfg c env d.nodes image 0
      { d with slot := replicate (c.slots cfg) 0 } := ⟨rfl, rfl⟩
  obtain ⟨hto, hblobs, hknown⟩ := loadPages_spec hd.valid hstart hd.blobs (c.pages cfg) le_rfl
  have hall : image.take (c.pages cfg * c.perPage) = image :=
    take_of_length_le (le_of_eq hd.valid.length)
  refine ⟨?_, ?_, hblobs, hd.valid, fun p hp => ?_, fun p hp x hx => ?_⟩
  · refine hto.nodes.trans ?_
    rw [hall]
  · refine hto.slot.trans ?_
    rw [hall, Codec.slots, Nat.sub_self]
    exact append_nil _
  · exact (congrFun hblobs p).trans (hd.blobs p hp)
  · have hx' := (hknown p hp).symm.trans hx
    obtain ⟨page, hpage, rfl⟩ := Option.map_eq_some_iff.mp hx'
    unfold blobOf at hpage
    split at hpage
    · rw [Option.some.inj hpage]
    · cases hpage

end Load

/-! ## The table after a load -/

section Table
variable {cfg : Config} {c : Codec} {env : Env} {image : List SlotRecord} {s : State}

/-- The entry a record of a slot becomes. -/
def SlotRecord.entry (c : Codec) (r : SlotRecord) : Option Entry :=
  r.bind fun (num, rec) => (mtrecDecode c rec).map fun node =>
    ⟨true, { node with num, lastHeard := 0 }, node.lastHeard, none, 0⟩

theorem readmission_rest (s : State) (num : UInt32) :
    (s.readmission num).position = none ∧ (s.readmission num).heardPreset1 = 0 := by
  unfold readmission
  split <;> exact ⟨rfl, rfl⟩

theorem mtrecApply_hot (cfg : Config) {num : UInt32} (hnum : num ≠ 0) (hnew : s.entry num = none)
    (hroom : s.hot.length < cfg.maxNodes) (env : Env) (node : NodeInfoLite) :
    (s.mtrecApply cfg env num node).hot = s.hot ++
      [⟨true, { node with num, lastHeard := 0 }, node.lastHeard, none, 0⟩] := by
  have hfind : s.findEntry num = none := by
    rw [findEntry_eq, position_eq_none, ← entry_eq_none_iff]
    exact hnew
  obtain ⟨hpos, hpreset⟩ := readmission_rest s num
  unfold mtrecApply getOrCreate
  simp only [hnum, if_false, hfind, hroom, if_true, State.update]
  rw [modify_eq_set_getElem?]
  simp [hpos, hpreset]

theorem SlotRecord.entry_key {e : Entry} (h : r.entry c = some e) : e.key = r.num := by
  obtain ⟨⟨num, rec⟩, rfl, hmap⟩ := Option.bind_eq_some_iff.mp h
  obtain ⟨node, -, rfl⟩ := Option.map_eq_some_iff.mp hmap
  rfl

/-- The records of an image go to the end of a table that has room for them and none of
their nodes. -/
theorem putImage_hot (cfg : Config) (env : Env) (l : List SlotRecord)
    (hnodup : (Keyed.keys SlotRecord.num l).Nodup) (hnum : ∀ num rec, some (num, rec) ∈ l → num ≠ 0)
    (hnew : ∀ n ∈ Keyed.keys SlotRecord.num l, s.entry n = none)
    (hroom : s.hot.length + (Keyed.keys SlotRecord.num l).length ≤ cfg.maxNodes) :
    (s.putImage cfg c env l).hot = s.hot ++ l.filterMap (SlotRecord.entry c) := by
  induction l generalizing s with
  | nil => exact (append_nil _).symm
  | cons r rest ih =>
    have hnum' : ∀ num rec, some (num, rec) ∈ rest → num ≠ 0 :=
      fun num rec h => hnum num rec (mem_cons_of_mem r h)
    rw [Keyed.keys_cons] at hnodup hnew hroom
    obtain ⟨-, hrest, hdisj⟩ := nodup_append.mp hnodup
    have hnew' : ∀ n ∈ Keyed.keys SlotRecord.num rest, s.entry n = none :=
      fun n hn => hnew n (mem_append_right _ hn)
    rw [length_append] at hroom
    have skip (hskip : s.putRecord cfg c env r = s) (hentry : r.entry c = none) :
        (s.putImage cfg c env (r :: rest)).hot =
          s.hot ++ (r :: rest).filterMap (SlotRecord.entry c) := by
      rw [putImage, foldl_cons, hskip, ← putImage,
        ih hrest hnum' hnew' (by omega), filterMap_cons, hentry]
    cases r with
    | none => exact skip rfl rfl
    | some r =>
      obtain ⟨num, rec⟩ := r
      cases hnode : mtrecDecode c rec with
      | none => exact skip (by simp [putRecord, hnode]) (by simp [SlotRecord.entry, hnode])
      | some node =>
        have hput : s.putRecord cfg c env (some (num, rec)) = s.mtrecApply cfg env num node := by
          simp only [putRecord, hnode]
        have hlen : (SlotRecord.num (some (num, rec))).toList.length = 1 := rfl
        have hhot := mtrecApply_hot cfg (hnum num rec mem_cons_self)
          (hnew num (mem_append_left _ (mem_singleton_self num))) (by omega) env node
        rw [putImage, foldl_cons, hput, ← putImage, ih hrest hnum' ?_ ?_, hhot]
        · simp [SlotRecord.entry, hnode]
        · intro n hn
          rw [entry_eq_none_iff, hhot, Keyed.keys, filterMap_append, mem_append, not_or]
          refine ⟨entry_eq_none_iff.mp (hnew' n hn), ?_⟩
          have hne : num ≠ n := hdisj num (mem_singleton_self num) n hn
          simpa [Entry.key] using hne.symm
        · rw [hhot, length_append, length_singleton]
          omega

theorem lookup_entries (l : List SlotRecord)
    (h : ∀ num rec, some (num, rec) ∈ l → (mtrecDecode c rec).isSome) (n : UInt32) :
    Keyed.lookup Entry.key (l.filterMap (SlotRecord.entry c)) n =
      (Keyed.lookup SlotRecord.num l n).bind (SlotRecord.entry c) := by
  induction l with
  | nil => rfl
  | cons r rest ih =>
    have ih := ih fun num rec hmem => h num rec (mem_cons_of_mem r hmem)
    rw [Keyed.lookup_cons, filterMap_cons]
    cases r with
    | none => simpa [SlotRecord.entry, SlotRecord.num] using ih
    | some r =>
      obtain ⟨num, rec⟩ := r
      obtain ⟨node, hnode⟩ := Option.isSome_iff_exists.mp (h num rec mem_cons_self)
      have hentry : SlotRecord.entry c (some (num, rec)) =
          some ⟨true, { node with num, lastHeard := 0 }, node.lastHeard, none, 0⟩ := by
        simp [SlotRecord.entry, hnode]
      have hkey := SlotRecord.entry_key hentry
      rw [hentry]
      rw [Keyed.lookup_cons, hkey, ih]
      split
      · exact hentry.symm
      · rfl

theorem putImage_fit (c : Codec) (env : Env) (l : List SlotRecord) (h : Fit cfg False s.hot) :
    Fit cfg False (s.putImage cfg c env l).hot := by
  induction l generalizing s with
  | nil => exact h
  | cons r rest ih =>
    refine ih ?_
    unfold putRecord
    split
    · exact h
    · split
      · exact h
      · exact h.mtrecApply env False.elim

theorem applyUser_length (cfg : Config) (s : State) (env : Env) (i : Nat) (user : User) :
    (s.applyUser cfg env i user).hot.length = s.hot.length := by
  unfold applyUser
  split
  · rfl
  split
  · rfl
  split
  · exact length_set
  split
  · exact length_set
  · rw [scheduleKeySave, warmUpsert, warmPlace_hot]
    exact length_set

theorem boot_hot (hmax : 1 ≤ cfg.maxNodes) (hself : cfg.self ≠ 0) (s : State) (env : Env)
    (user : User) : ∃ e, (s.boot cfg env user).hot = [e] ∧ e.node.num = cfg.self := by
  have hlen : (s.boot cfg env user).hot.length = 1 := by
    obtain ⟨a, -, -, -, -, heq⟩ := boot_eq hmax hself s env user
    rw [heq, applyUser_length]
    rfl
  obtain ⟨e, he⟩ := length_eq_one_iff.mp hlen
  obtain ⟨a, ha, haself⟩ := (boot_fit hmax hself s env user (False.elim)).table.self
  rw [he, mem_singleton] at ha
  exact ⟨e, he, ha ▸ haself⟩

end Table

/-! ## Whole histories -/

/-- What happens to a store with pages. -/
inductive PagedEvent where
  | op (ev : Event)
  | persist (toEpoch : UInt32 → UInt32) (force : Bool)
  | reboot (env : Env) (user : User)

def pagedStep (cfg : Config) (c : Codec) (d : Paged) : PagedEvent → Paged
  | .op ev => { d with nodes := step cfg d.nodes ev }
  | .persist toEpoch force => d.nrecPersist cfg c toEpoch force
  | .reboot env user => d.reboot cfg c env user

/-- Every save of the history finds what it asks for. -/
def SavesOk (cfg : Config) (c : Codec) (d : Paged) : PagedEvent → Prop
  | .persist toEpoch _ => d.Saves cfg c toEpoch
  | _ => True

/-- A store that has booted on a bulk store without pages. -/
def Paged.fresh (cfg : Config) (c : Codec) (s : State) : Paged :=
  ⟨s, replicate (c.slots cfg) 0, fun _ => none, fun _ => none⟩

section Runs
variable {cfg : Config} {c : Codec} {image : List SlotRecord} {d : Paged}

theorem fresh_holds (hmax : 1 ≤ cfg.maxNodes) (s : State) :
    (Paged.fresh cfg c s).Holds cfg c (replicate (c.slots cfg) none) := by
  have hkeys : Keyed.keys SlotRecord.num (replicate (c.slots cfg) none) = [] :=
    filterMap_eq_nil_iff.mpr fun r hr => by rw [eq_of_mem_replicate hr]; rfl
  refine ⟨⟨length_replicate, by rw [hkeys]; exact nodup_nil, fun num rec h => ?_,
    by rw [hkeys]; exact hmax⟩, fun p hp => ?_, fun p hp x hx => ?_⟩
  · cases eq_of_mem_replicate h
  · have hunused : usedSlots (onPage c (replicate (c.slots cfg) none) p) = 0 :=
      countP_eq_zero.mpr fun r hr => by
        rw [eq_of_mem_replicate (mem_of_onPage hr)]
        exact Bool.false_ne_true
    rw [blobOf, hunused]
    rfl
  · cases hx

section
variable (hmax : 1 ≤ cfg.maxNodes) (hself : cfg.self ≠ 0)
include hmax hself

theorem fresh_inOrder (s : State) (env : Env)
    (user : User) : (Paged.fresh cfg c (s.boot cfg env user)).InOrder cfg c := by
  have hkeys : Keyed.keys slotKey (replicate (c.slots cfg) 0) = [] :=
    filterMap_eq_nil_iff.mpr fun r hr => by rw [eq_of_mem_replicate hr]; rfl
  refine ⟨(boot_fit hmax hself s env user False.elim).table, length_replicate, ?_, ?_⟩
  · rw [Paged.fresh, hkeys]
    exact nodup_nil
  · rw [Paged.fresh, hkeys]
    exact not_mem_nil

theorem reboot_spec (hd : d.Holds cfg c image) (env : Env) (user : User) :
    (d.reboot cfg c env user).Holds cfg c image ∧ (d.reboot cfg c env user).InOrder cfg c ∧
      ∀ n ≠ cfg.self, (d.reboot cfg c env user).nodes.entry n =
        (Keyed.lookup SlotRecord.num image n).bind (SlotRecord.entry c) := by
  have hstart : Paged.Holds cfg c
      { d with nodes := d.nodes.boot cfg env user, known := fun _ => none } image :=
    ⟨hd.valid, hd.blobs, fun p hp x hx => by cases hx⟩
  obtain ⟨hnodes, hslot, -, hholds⟩ := nrecLoad_spec env hstart
  obtain ⟨e, he, hnum⟩ := boot_hot hmax hself d.nodes env user
  have hkeys : Keyed.keys slotKey (image.map fun r => r.num.getD 0) = Keyed.keys SlotRecord.num
    image := by
    unfold Keyed.keys
    rw [filterMap_map]
    refine filterMap_congr fun r hr => ?_
    cases r with
    | none => rfl
    | some r => exact if_neg (hd.valid.peer r.1 r.2 hr).1
  have hother : ∀ n ≠ cfg.self, (d.nodes.boot cfg env user).entry n = none := by
    intro n hn
    rw [entry, he, find?_cons_of_neg (by simp [hnum, Ne.symm hn])]
    rfl
  have hpeers : ∀ n ∈ Keyed.keys SlotRecord.num image, n ≠ cfg.self := by
    intro n hn
    obtain ⟨r, hr, hkey⟩ := mem_keys.mp hn
    obtain ⟨⟨num, rec⟩, rfl, rfl⟩ := Option.map_eq_some_iff.mp hkey
    exact (hd.valid.peer num rec hr).2.1
  have hhot := putImage_hot (c := c) cfg env image hd.valid.distinct
    (fun num rec h => (hd.valid.peer num rec h).1) (fun n hn => hother n (hpeers n hn))
    (by rw [he]; exact Nat.one_add_le_iff.mpr hd.valid.room)
  have htable := (putImage_fit c env image
    (boot_fit hmax hself d.nodes env user False.elim)).table
  refine ⟨hholds, ⟨?_, ?_, ?_, ?_⟩, fun n hn => ?_⟩
  · rw [Paged.reboot, hnodes]
    exact htable
  · rw [Paged.reboot, hslot, length_map, hd.valid.length]
  · rw [Paged.reboot, hslot, hkeys]
    exact hd.valid.distinct
  · rw [Paged.reboot, hslot, hkeys]
    exact fun h => hpeers _ h rfl
  · rw [Paged.reboot, hnodes, ← lookup_entries image
      (fun num rec h => (hd.valid.peer num rec h).2.2.2.2) n, entry_eq]
    rw [hhot, he]
    refine Keyed.lookup_cons _ _ _ |>.trans (if_neg ?_)
    rw [Entry.key_eq_some, hnum]
    exact fun h => hn h.2.symm

/-- The image after an event: a save takes that of the table. -/
def PagedEvent.saved (cfg : Config) (c : Codec) (d : Paged) (image : List SlotRecord) :
    PagedEvent → List SlotRecord
  | .persist toEpoch _ => d.nodes.imageOf c toEpoch (d.nodes.assignSlots cfg d.slot)
  | _ => image

theorem pagedStep_spec (ev : PagedEvent)
    (hd : d.Holds cfg c image) (ho : d.InOrder cfg c) (hok : SavesOk cfg c d ev) :
    (pagedStep cfg c d ev).Holds cfg c (ev.saved cfg c d image) ∧
      (pagedStep cfg c d ev).InOrder cfg c := by
  cases ev with
  | op ev =>
    have hfit : Fit cfg False d.nodes.hot := ⟨ho.table, False.elim⟩
    have htable := (step_fit hmax False.elim hself hfit
      (False.elim : False → KeepsReserve cfg d.nodes ev)).table
    exact ⟨{ hd with }, { ho with table := htable }⟩
  | persist toEpoch force =>
    obtain ⟨hnodes, hslot, hholds⟩ := nrecPersist_spec force hd ho hok
    have hassigned := ho.assigned hok
    refine ⟨hholds, ?_, ?_, ?_, ?_⟩
    · rw [pagedStep, hnodes]
      exact ho.table
    · rw [pagedStep, hslot, hassigned.length]
    · rw [pagedStep, hslot]
      exact hassigned.distinct
    · rw [pagedStep, hslot]
      exact fun h => ((hassigned.peer _).mp h).1 rfl
  | reboot env user =>
    obtain ⟨hholds, horder, -⟩ := reboot_spec hmax hself hd env user
    exact ⟨hholds, horder⟩

variable (evs : List PagedEvent) (hd : d.Holds cfg c image) (ho : d.InOrder cfg c)
include hd ho

theorem run_inOrder (hg : Guarded (pagedStep cfg c) (SavesOk cfg c) d evs) :
    ∃ image', (run (pagedStep cfg c) d evs).Holds cfg c image' ∧
      (run (pagedStep cfg c) d evs).InOrder cfg c := by
  refine run_keeps (fun d => ∃ image, d.Holds cfg c image ∧ d.InOrder cfg c) ⟨image, hd, ho⟩ ?_ hg
  rintro done ev ⟨image, hd, ho⟩ hok
  exact ⟨_, pagedStep_spec hmax hself ev hd ho hok⟩

theorem run_holds (hevs : ∀ toEpoch force, PagedEvent.persist toEpoch force ∉ evs) :
    (run (pagedStep cfg c) d evs).Holds cfg c image := by
  induction evs generalizing d with
  | nil => exact hd
  | cons ev rest ih =>
    have hrest : ∀ toEpoch force, PagedEvent.persist toEpoch force ∉ rest :=
      fun toEpoch force h => hevs toEpoch force (mem_cons_of_mem ev h)
    obtain ⟨hok, hsame⟩ : SavesOk cfg c d ev ∧ ev.saved cfg c d image = image := by
      cases ev with
      | persist toEpoch force => exact absurd mem_cons_self (hevs toEpoch force)
      | _ => exact ⟨trivial, rfl⟩
    obtain ⟨hd', ho'⟩ := pagedStep_spec hmax hself ev hd ho hok
    exact ih (hsame ▸ hd') ho' hrest

end

/-- The image gives back the peers of the table it was made from. -/
theorem Assigned.restores {s : State} {slot : List UInt32} {toEpoch : UInt32 → UInt32}
    (h : Assigned cfg c toEpoch s slot) {n : UInt32} (hn : n ≠ cfg.self) :
    (Keyed.lookup SlotRecord.num (s.imageOf c toEpoch slot) n).bind (SlotRecord.entry c) =
      (s.entry n).map (Entry.restored c toEpoch) := by
  have hnodup : (Keyed.keys SlotRecord.num (s.imageOf c toEpoch slot)).Nodup := by
    rw [h.keys_image]
    exact h.distinct
  cases he : s.entry n with
  | none =>
    have hnone : Keyed.lookup SlotRecord.num (s.imageOf c toEpoch slot) n = none := by
      rw [Keyed.lookup_eq_none, h.keys_image, h.peer n, he]
      simp
    rw [hnone]
    rfl
  | some e =>
    obtain ⟨rec, hrec⟩ := Option.isSome_iff_exists.mp (h.encodes n hn e he)
    obtain ⟨hmem, hn0⟩ := mem_slotKeys.mp ((h.peer n).mpr ⟨hn, by rw [he]; rfl⟩)
    have hslot : s.slotRecord c toEpoch n = some (n, rec) :=
      slotRecord_eq_some.mpr ⟨hn0, rfl, e, he, hrec⟩
    have hlook : Keyed.lookup SlotRecord.num (s.imageOf c toEpoch slot) n = some (some (n, rec)) :=
      Keyed.lookup_of_mem hnodup (hslot ▸ mem_map_of_mem hmem) rfl
    obtain ⟨-, -, hdec⟩ := mtrecEncode_spec hrec
    rw [hlook]
    obtain rfl : e.node.num = n := (entry_num he).2
    simp only [SlotRecord.entry, Option.bind_some, hdec, Option.map_some]
    rfl

end Runs

/-- Saving by pages is saving the whole table: over every history, a reboot finds the peers
the table had at the last save and nobody else, each with the record it had then, and no
node has two slots. -/
theorem pages_restore_table (c : Codec) (cfg : Config) (hmax : 1 ≤ cfg.maxNodes)
    (hself : cfg.self ≠ 0) (s₀ : State) (env₀ : Env) (user₀ : User) (before : List PagedEvent)
    (toEpoch : UInt32 → UInt32) (force : Bool) (after : List PagedEvent)
    (hafter : ∀ toEpoch force, PagedEvent.persist toEpoch force ∉ after)
    (hguard : Guarded (pagedStep cfg c) (SavesOk cfg c)
      (Paged.fresh cfg c (s₀.boot cfg env₀ user₀)) (before ++ .persist toEpoch force :: after))
    (env : Env) (user : User) :
    (∀ n ≠ cfg.self,
      ((run (pagedStep cfg c) (Paged.fresh cfg c (s₀.boot cfg env₀ user₀))
        (before ++ .persist toEpoch force :: after)).reboot cfg c env user).nodes.entry n =
      ((run (pagedStep cfg c) (Paged.fresh cfg c (s₀.boot cfg env₀ user₀)) before).nodes.entry
        n).map (Entry.restored c toEpoch)) ∧
    (∀ e toEpoch', (Entry.restored c toEpoch e).mtrecEncode c toEpoch' =
      e.mtrecEncode c toEpoch) ∧
    ∀ done, done <+: before ++ .persist toEpoch force :: after →
      (keys slotKey (run (pagedStep cfg c) (Paged.fresh cfg c (s₀.boot cfg env₀ user₀))
        done).slot).Nodup := by
  have hstart := fresh_holds (c := c) hmax (s₀.boot cfg env₀ user₀)
  have horder := fresh_inOrder (c := c) hmax hself s₀ env₀ user₀
  generalize Paged.fresh cfg c (s₀.boot cfg env₀ user₀) = start at hstart horder hguard ⊢
  refine ⟨fun n hn => ?_, fun e toEpoch' => mtrecEncode_restored toEpoch', fun done hp => ?_⟩
  · have hbefore : Guarded (pagedStep cfg c) (SavesOk cfg c) start before :=
      fun done ev hd => hguard done ev (hd.trans (prefix_append _ _))
    obtain ⟨image, hd, ho⟩ := run_inOrder hmax hself before hstart horder hbefore
    have hok : SavesOk cfg c (run (pagedStep cfg c) start before) (.persist toEpoch force) :=
      hguard before _ ⟨after, by simp⟩
    obtain ⟨hsaved, ho'⟩ := pagedStep_spec hmax hself _ hd ho hok
    have hend := run_holds hmax hself after hsaved ho' hafter
    have hrun : run (pagedStep cfg c) start (before ++ .persist toEpoch force :: after) =
        run (pagedStep cfg c) (pagedStep cfg c (run (pagedStep cfg c) start before)
          (.persist toEpoch force)) after := by
      simp [run]
    rw [hrun, (reboot_spec hmax hself hend env user).2.2 n hn]
    exact (ho.assigned hok).restores hn
  · have hdone : Guarded (pagedStep cfg c) (SavesOk cfg c) start done :=
      fun d ev hd => hguard d ev (hd.trans hp)
    obtain ⟨-, -, ho⟩ := run_inOrder hmax hself done hstart horder hdone
    exact ho.distinct

/-! ## A small store to try things on -/

/-- Messages with a number, a time and flags. -/
def toyMessage (num heard flags : UInt32) : NodeInfoLite :=
  { NodeInfoLite.zero with num, lastHeard := heard, bitfield := flags.toBitVec }

/-- A codec of such messages; the checksum is the count of slots in use. -/
def toyCodec : Codec where
  nodeInfoSize := 251
  encode m :=
    if m = toyMessage m.num m.lastHeard ⟨m.bitfield⟩ then
      some (putLe32 m.num ++ (putLe32 m.lastHeard ++ putLe32 ⟨m.bitfield⟩))
    else none
  decode b := some (toyMessage (getLe32 b) (getLe32 (b.drop 4)) (getLe32 (b.drop 8)))
  toQ4 _ := 0
  fromQ4 _ := 0
  crc b := (b.getD 2 0).toUInt32
  small := by decide
  fits m b h := by
    split at h
    · obtain rfl := Option.some.inj h
      simp
    · cases h
  decode_encode m b h := by
    split at h
    · next hm =>
      obtain rfl := Option.some.inj h
      have tail (v : UInt32) (rest : Bytes) : (putLe32 v ++ rest).drop 4 = rest :=
        drop_left' (length_putLe32 v)
      rw [← drop_drop (i := 4) (j := 4), tail, tail, getLe32_putLe32, getLe32_putLe32,
        getLe32_putLe32_self, ← hm]
    · cases h
  toQ4_fromQ4 _ := rfl

/-- A peer is heard and saved, another is heard after the save, and the store comes up with
the first. -/
theorem pages_restore_table_saved :
    ((run (pagedStep ⟨3, 1⟩ toyCodec)
      (Paged.fresh ⟨3, 1⟩ toyCodec ((toyStore 8).boot ⟨3, 1⟩ (toyEnv 0) (toyUser (toyKey 1))))
      [.op (toyHeard 1 2), .persist id false, .op (toyHeard 2 3)]).reboot ⟨3, 1⟩ toyCodec
        (toyEnv 0) (toyUser (toyKey 1))).nodes.entry 2 =
      ((run (pagedStep ⟨3, 1⟩ toyCodec)
        (Paged.fresh ⟨3, 1⟩ toyCodec ((toyStore 8).boot ⟨3, 1⟩ (toyEnv 0) (toyUser (toyKey 1))))
        [.op (toyHeard 1 2)]).nodes.entry 2).map (Entry.restored toyCodec id) := by
  refine (pages_restore_table toyCodec ⟨3, 1⟩ (by decide) (by decide) (toyStore 8) (toyEnv 0)
    (toyUser (toyKey 1)) [.op (toyHeard 1 2)] id false [.op (toyHeard 2 3)] ?_ ?_ (toyEnv 0)
    (toyUser (toyKey 1))).1 2 (by decide)
  · intro toEpoch force h
    cases mem_singleton.mp h
  · simp only [cons_append, nil_append, guarded_cons, guarded_nil, and_true]
    refine ⟨trivial, ⟨?_, ?_⟩, trivial⟩
    · decide +kernel
    · decide +kernel

end Zephyrtastic.NodeDb
