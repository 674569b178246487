import Zephyrtastic.Lib.Run
import Zephyrtastic.PhoneApi.Api

/-!
# What an unauthorized client learns

Two nodes that differ only in what is not public are read by the same client.
Where the stream looks up the authorization, the frames it shows an unauthorized
client are the same for both.
-/

namespace Zephyrtastic.PhoneApi

open List PhoneApi.Stream

open NodeDb (Entry)
open Run

/-! ## Nodes that look alike -/

/-- Two values of a config section that differ only in what is not public. -/
inductive ConfigAlike : Config → Config → Prop where
  | network (x y : Bytes) : ConfigAlike (.network x) (.network y)
  | security (x y : Bytes) : ConfigAlike (.security x) (.security y)
  | lora (l : LoRaConfig) (tuning : Bytes) : ConfigAlike (.lora l) (.lora { l with tuning })
  | bluetooth (b : BluetoothConfig) (fixedPin : UInt32) :
      ConfigAlike (.bluetooth b) (.bluetooth { b with fixedPin })
  | same (c : Config) : ConfigAlike c c

inductive ModuleAlike : ModuleConfig → ModuleConfig → Prop where
  | mqtt (x y : Bytes) : ModuleAlike (.mqtt x) (.mqtt y)
  | meshBeacon (x y : Bytes) : ModuleAlike (.meshBeacon x) (.meshBeacon y)
  | same (c : ModuleConfig) : ModuleAlike c c

/-- The entries of a node database are in use and stand for one node each. -/
structure Numbered (db : List Entry) : Prop where
  used : ∀ e ∈ db, e.used = true
  nonzero : ∀ e ∈ db, e.node.num ≠ 0
  distinct : (db.map (·.node.num)).Nodup

/-- The nodes agree except in the channels, the private parts of the config and module
sections, and the entries of other nodes, of which they have the same number. -/
structure Alike (m m' : Node) : Prop where
  rest : m' = { m with
    getChannel := m'.getChannel
    getConfig := m'.getConfig
    getModule := m'.getModule
    nodedb := m'.nodedb }
  config : ∀ tag, Option.Rel ConfigAlike (m.getConfig tag) (m'.getConfig tag)
  module : ∀ tag, Option.Rel ModuleAlike (m.getModule tag) (m'.getModule tag)
  size : m'.nodedb.length = m.nodedb.length
  own : (∃ e ∈ m.nodedb, e.node.num = m.nodeId) ↔ ∃ e ∈ m'.nodedb, e.node.num = m.nodeId
  numbered : Numbered m.nodedb
  numbered' : Numbered m'.nodedb

/-- Every message fits into a frame. -/
def Fits (encode : Encoder) : Prop := ∀ m, (encode m).isSome = true

theorem ConfigAlike.redact {c c' : Config} (h : ConfigAlike c c') :
    redactConfig c' = redactConfig c := by
  cases h <;> rfl

theorem ModuleAlike.redact {c c' : ModuleConfig} (h : ModuleAlike c c') :
    redactModule c' = redactModule c := by
  cases h <;> rfl

/-! ## The walk over the other nodes -/

section
variable {db : List Entry} {c : UInt32}

/-- The least number above `c` among the entries of a part of the table. -/
def Next (c : UInt32) (db : List Entry) : Option Entry → Prop
  | none => ∀ e ∈ db, e.used = true → ¬ c < e.node.num
  | some b => b ∈ db ∧ c < b.node.num ∧ ∀ e ∈ db, e.used = true → c < e.node.num →
      b.node.num ≤ e.node.num

theorem Next.consider {best : Option Entry} (h : Next c db best) (e : Entry) :
    Next c (db ++ [e])
      (if e.used && decide (c < e.node.num) &&
        best.all fun b => decide (e.node.num < b.node.num) then some e else best) := by
  simp only [Bool.and_eq_true, decide_eq_true_eq]
  cases best with
  | none =>
    simp only [Option.all_none, and_true]
    split
    · next hcand =>
      refine ⟨by simp, hcand.2, forall_mem_append.mpr ⟨?_, forall_mem_singleton.mpr ?_⟩⟩
      · exact fun e' hold hused hlt => absurd hlt (h e' hold hused)
      · exact fun _ _ => UInt32.le_refl _
    · next hcand =>
      exact forall_mem_append.mpr ⟨h, forall_mem_singleton.mpr fun hused hlt => hcand ⟨hused, hlt⟩⟩
  | some b =>
    obtain ⟨hb, hcb, hleast⟩ := h
    simp only [Option.all_some, decide_eq_true_eq]
    split
    · next hcand =>
      refine ⟨by simp, hcand.1.2, forall_mem_append.mpr ⟨?_, forall_mem_singleton.mpr ?_⟩⟩
      · intro e' hold hused hlt
        exact UInt32.le_of_lt (UInt32.lt_of_lt_of_le hcand.2 (hleast e' hold hused hlt))
      · exact fun _ _ => UInt32.le_refl _
    · next hcand =>
      refine ⟨mem_append_left _ hb, hcb,
        forall_mem_append.mpr ⟨hleast, forall_mem_singleton.mpr ?_⟩⟩
      exact fun hused hlt => UInt32.not_lt.mp fun h => hcand ⟨⟨hused, hlt⟩, h⟩

theorem getNextAfter_next (db : List Entry) (c : UInt32) : Next c db (getNextAfter db c) := by
  suffices h : ∀ (rest : List Entry) {done : List Entry} {best : Option Entry},
      Next c done best → Next c (done ++ rest) (rest.foldl (fun best e =>
        if e.used && decide (c < e.node.num) &&
          best.all fun b => decide (e.node.num < b.node.num) then some e else best) best) by
    have hnone : Next c [] none := fun e he => absurd he not_mem_nil
    exact h db hnone
  intro rest
  induction rest with
  | nil => intro done best h; simpa using h
  | cons e rest ih =>
    intro done best h
    have hnext := ih (h.consider e)
    rwa [append_assoc, singleton_append] at hnext

/-- The walk of `MESHTASTIC_PHONEAPI_CONFIG_OTHER_NODEINFOS` between two of its looks at the table:
its cursor, the numbers emitted, and whether it has ended. -/
structure Walk where
  cursor : UInt32
  emitted : List UInt32
  ended : Bool

/-- One turn of the walk's loop, with the table as it then is. -/
def Walk.step (nodeId : UInt32) (w : Walk) (db : List Entry) : Walk :=
  if w.ended then w
  else
    match getNextAfter db w.cursor with
    | none => { w with ended := true }
    | some e =>
      if e.node.num = nodeId then { w with cursor := e.node.num }
      else { w with cursor := e.node.num, emitted := w.emitted ++ [e.node.num] }

/-- The node is in the table at every look. -/
def Stays (dbs : List (List Entry)) (n : UInt32) : Prop :=
  ∀ db ∈ dbs, ∃ e ∈ db, e.used = true ∧ e.node.num = n

/-- What holds after looks at the tables `dbs`: a node that stays is behind the cursor only if it
has been emitted. -/
structure Walk.Covers (nodeId : UInt32) (dbs : List (List Entry)) (w : Walk) : Prop where
  increasing : w.emitted.Pairwise (· < ·)
  behind : ∀ n ∈ w.emitted, n ≤ w.cursor ∧ n ≠ nodeId
  covered : ∀ n, n ≠ 0 → n ≠ nodeId → Stays dbs n → n ≤ w.cursor ∨ w.ended = true → n ∈ w.emitted
  moves : w.ended = true ∨ dbs.length ≤ w.cursor.toNat

theorem Walk.Covers.step {nodeId : UInt32} {dbs : List (List Entry)} {w : Walk}
    (h : w.Covers nodeId dbs) (db : List Entry) :
    (w.step nodeId db).Covers nodeId (dbs ++ [db]) := by
  have before {n : UInt32} (hstays : Stays (dbs ++ [db]) n) : Stays dbs n :=
    fun d hd => hstays d (mem_append_left _ hd)
  have hnext := getNextAfter_next db w.cursor
  unfold Walk.step
  split
  · next hend =>
    exact ⟨h.increasing, h.behind, fun n h0 hn hs => h.covered n h0 hn (before hs), .inl hend⟩
  next hon =>
  cases hget : getNextAfter db w.cursor with
  | none =>
    rw [hget] at hnext
    refine ⟨h.increasing, h.behind, fun n h0 hn hs _ => ?_, .inl rfl⟩
    obtain ⟨e, he, hused, rfl⟩ := hs db (by simp)
    exact h.covered _ h0 hn (before hs) (.inl (UInt32.not_lt.mp (hnext e he hused)))
  | some b =>
    rw [hget] at hnext
    obtain ⟨-, hlt, hleast⟩ := hnext
    have hbehind : ∀ n ∈ w.emitted, n < b.node.num ∧ n ≠ nodeId :=
      fun n hn => ⟨UInt32.lt_of_le_of_lt (h.behind n hn).1 hlt, (h.behind n hn).2⟩
    have hcovered {n : UInt32} (h0 : n ≠ 0) (hn : n ≠ nodeId) (hs : Stays (dbs ++ [db]) n)
        (hle : n ≤ b.node.num) : n ∈ w.emitted ∨ n = b.node.num := by
      by_cases hc : n ≤ w.cursor
      · exact .inl (h.covered n h0 hn (before hs) (.inl hc))
      obtain ⟨e, he, hused, rfl⟩ := hs db (by simp)
      exact .inr (UInt32.le_antisymm hle (hleast e he hused (UInt32.not_le.mp hc)))
    have hmoves : (dbs ++ [db]).length ≤ b.node.num.toNat := by
      have hlong := h.moves.resolve_left hon
      have hlt := UInt32.lt_iff_toNat_lt.mp hlt
      rw [length_append, length_singleton]
      omega
    dsimp only
    split
    · next hown =>
      refine ⟨h.increasing, fun n hn => ⟨UInt32.le_of_lt (hbehind n hn).1, (hbehind n hn).2⟩,
        fun n h0 hn hs hle => ?_, .inr hmoves⟩
      exact (hcovered h0 hn hs (hle.resolve_right hon)).resolve_right fun he => hn (he.trans hown)
    · next hother =>
      refine ⟨pairwise_append.mpr ⟨h.increasing, pairwise_singleton _ _, ?_⟩,
        forall_mem_append.mpr ⟨?_, forall_mem_singleton.mpr ⟨UInt32.le_refl _, hother⟩⟩,
        fun n h0 hn hs hle => ?_, .inr hmoves⟩
      · intro n hn m hm
        exact mem_singleton.mp hm ▸ (hbehind n hn).1
      · exact fun n hn => ⟨UInt32.le_of_lt (hbehind n hn).1, (hbehind n hn).2⟩
      · rw [mem_append, mem_singleton]
        exact hcovered h0 hn hs (hle.resolve_right hon)

/-- **The walk does not mind changes of the table.** Whatever the table is at each look, the
numbers emitted increase and are not this node's own, every other node that is in the table at
every look is emitted by the end, and the end comes. -/
theorem walk_stable (nodeId : UInt32) (dbs : List (List Entry)) :
    let w := run (Walk.step nodeId) ⟨0, [], false⟩ dbs
    w.emitted.Pairwise (· < ·) ∧ nodeId ∉ w.emitted ∧ (2 ^ 32 ≤ dbs.length → w.ended = true) ∧
      (w.ended = true → ∀ n, n ≠ 0 → n ≠ nodeId → Stays dbs n → n ∈ w.emitted) := by
  intro w
  have h : w.Covers nodeId dbs := by
    refine run_invariant (Walk.Covers nodeId) ⟨.nil, fun _ hn => absurd hn not_mem_nil, ?_,
      .inr (Nat.zero_le _)⟩ (fun _ db h _ => h.step db) dbs guarded_true
    intro n h0 _ _ hle
    exact absurd (UInt32.le_zero_iff.mp (hle.resolve_right nofun)) h0
  refine ⟨h.increasing, fun hself => (h.behind _ hself).2 rfl, fun hlong => ?_,
    fun hend n h0 hn hs => h.covered n h0 hn hs (.inr hend)⟩
  have := w.cursor.toNat_lt
  exact h.moves.resolve_right (by omega)

/-- A call of the stream is one turn of the walk, or two if this node's own entry comes first. -/
theorem nextOther_walk (s : Stream) (node : Node) (emitted : List UInt32) :
    ∃ turns, run (Walk.step node.nodeId) ⟨s.nodeCursor, emitted, false⟩
        (replicate turns node.nodedb) =
      match s.nextOther node with
      | (cursor, none) => ⟨cursor, emitted, true⟩
      | (_, some e) => ⟨e.node.num, emitted ++ [e.node.num], false⟩ := by
  unfold nextOther
  cases h : getNextAfter node.nodedb s.nodeCursor with
  | none => exact ⟨1, by simp [run, Walk.step, h]⟩
  | some e =>
    by_cases hown : e.node.num = node.nodeId
    · refine ⟨2, ?_⟩
      have hnext := getNextAfter_next node.nodedb e.node.num
      cases h' : getNextAfter node.nodedb e.node.num with
      | none => simp [run, replicate, Walk.step, h, eq_true hown, h']
      | some e' =>
        rw [h'] at hnext
        have hother : e'.node.num ≠ node.nodeId := hown ▸ (UInt32.ne_of_lt hnext.2.1).symm
        simp [run, replicate, Walk.step, h, eq_true hown, h', hother]
    · exact ⟨1, by simp [run, Walk.step, h, hown]⟩

/-- The other nodes with a number above the cursor. -/
def Node.others (node : Node) (cursor : UInt32) : Finset UInt32 :=
  (node.nodedb.map (·.node.num)).toFinset.filter fun num => cursor < num ∧ num ≠ node.nodeId

variable {node : Node} {num : UInt32}

theorem mem_others : num ∈ node.others c ↔
    (∃ e ∈ node.nodedb, e.node.num = num) ∧ c < num ∧ num ≠ node.nodeId := by
  simp [Node.others]

theorem card_others_of_none (hnum : Numbered node.nodedb)
    (h : getNextAfter node.nodedb c = none) : (node.others c).card = 0 := by
  have hnext := getNextAfter_next node.nodedb c
  rw [h] at hnext
  apply Finset.card_eq_zero.mpr (Finset.eq_empty_of_forall_notMem _)
  intro x hx
  obtain ⟨⟨e, he, rfl⟩, hlt, -⟩ := mem_others.mp hx
  exact hnext e he (hnum.used e he) hlt

theorem others_of_some {e : Entry} (hnum : Numbered node.nodedb)
    (h : getNextAfter node.nodedb c = some e) :
    c < e.node.num ∧ node.others e.node.num = (node.others c).erase e.node.num ∧
      (e.node.num ≠ node.nodeId → (node.others e.node.num).card + 1 = (node.others c).card) := by
  have hnext := getNextAfter_next node.nodedb c
  rw [h] at hnext
  obtain ⟨he, hlt, hleast⟩ := hnext
  have herase : node.others e.node.num = (node.others c).erase e.node.num := by
    ext x
    rw [Finset.mem_erase, mem_others, mem_others]
    constructor
    · rintro ⟨hx, hex, hself⟩
      exact ⟨(UInt32.ne_of_lt hex).symm, hx, UInt32.lt_trans hlt hex, hself⟩
    · rintro ⟨hxe, ⟨e', he', rfl⟩, hcx, hself⟩
      have hle := hleast e' he' (hnum.used e' he') hcx
      exact ⟨⟨e', he', rfl⟩, UInt32.lt_of_le_of_ne hle hxe.symm, hself⟩
  refine ⟨hlt, herase, fun hne => ?_⟩
  rw [herase]
  exact Finset.card_erase_add_one (mem_others.mpr ⟨⟨e, he, rfl⟩, hlt, hne⟩)

theorem nextOther_others (s : Stream) (hnum : Numbered node.nodedb) :
    match (s.nextOther node).2 with
    | none => (node.others s.nodeCursor).card = 0
    | some e => (node.others e.node.num).card + 1 = (node.others s.nodeCursor).card := by
  unfold nextOther
  cases h : getNextAfter node.nodedb s.nodeCursor with
  | none => exact card_others_of_none hnum h
  | some e =>
    obtain ⟨-, herase, hcard⟩ := others_of_some hnum h
    by_cases heq : e.node.num = node.nodeId
    · simp only [if_pos heq]
      -- the entry of this node is stepped over
      rw [Finset.erase_eq_of_notMem fun hin => (mem_others.mp hin).2.2 heq] at herase
      rw [← herase]
      cases h' : getNextAfter node.nodedb e.node.num with
      | none => exact card_others_of_none hnum h'
      | some e' =>
        obtain ⟨hlt, -, hcard'⟩ := others_of_some hnum h'
        refine hcard' fun he => ?_
        rw [he, heq] at hlt
        exact UInt32.lt_irrefl _ hlt
    · simp only [if_neg heq]
      exact hcard heq

theorem card_others_zero (hnum : Numbered node.nodedb) :
    (node.others 0).card =
      if ∃ e ∈ node.nodedb, e.node.num = node.nodeId then node.nodedb.length - 1
      else node.nodedb.length := by
  have herase : node.others 0 = (node.nodedb.map (·.node.num)).toFinset.erase node.nodeId := by
    ext x
    rw [mem_others, Finset.mem_erase, mem_toFinset, mem_map]
    constructor
    · rintro ⟨hx, -, hself⟩
      exact ⟨hself, hx⟩
    · rintro ⟨hself, e, he, rfl⟩
      exact ⟨⟨e, he, rfl⟩, UInt32.pos_iff_ne_zero.mpr (hnum.nonzero e he), hself⟩
  rw [herase, Finset.card_erase_eq_ite, toFinset_card_of_nodup hnum.distinct, length_map]
  simp only [mem_toFinset, mem_map]

end

/-! ## Two streams in step -/

section
variable {m m' : Node}

section
variable (h : Alike m m')
include h

theorem Alike.nodeId : m'.nodeId = m.nodeId := by rw [h.rest]

theorem Alike.lockdown : m'.lockdown = m.lockdown := by rw [h.rest]

theorem Alike.authorized (admin : Bool) : m'.authorized admin = m.authorized admin := by
  unfold Node.authorized
  rw [h.lockdown]

theorem Alike.fillMyInfo (auth : Bool) : fillMyInfo m' auth = fillMyInfo m auth := by
  have hwid : m'.hwid = m.hwid := by rw [h.rest]
  have hcount : m'.rebootCount = m.rebootCount := by rw [h.rest]
  unfold PhoneApi.fillMyInfo
  rw [h.size, h.nodeId, hwid, hcount]

theorem Alike.fillNodeInfo : fillNodeInfo m' = fillNodeInfo m := by
  rw [h.rest]
  rfl

theorem Alike.fillQueueStatus (res : Int) (id : UInt32) :
    fillQueueStatus m' res id = fillQueueStatus m res id := by
  rw [h.rest]
  rfl

theorem Alike.card_others : (m'.others 0).card = (m.others 0).card := by
  rw [card_others_zero h.numbered, card_others_zero h.numbered', h.size, h.nodeId]
  simp only [h.own]

end

/-- Two streams at the same place: the cursors may differ, but as many nodes are left. -/
structure InStep (m m' : Node) (s s' : Stream) : Prop where
  state : s'.state = s.state
  index : s'.index = s.index
  requestId : s'.requestId = s.requestId
  nextId : s'.nextId = s.nextId
  cursor : s.state ≠ .otherNodeinfos → s.nodeCursor = 0 ∧ s'.nodeCursor = 0
  left : s.state = .otherNodeinfos →
    (m'.others s'.nodeCursor).card = (m.others s.nodeCursor).card

/-- What the two streams give, and what of it an unauthorized client sees. -/
structure Matched (m m' : Node) (auth : Bool) (out out' : Option Frame × Stream) : Prop where
  stream : InStep m m' out.2 out'.2
  served : out'.1.isSome = out.1.isSome
  shown : auth = false → out'.1 = out.1

/-- Both are there or neither is, and an unauthorized client sees the same. -/
def Shown {γ : Type} (auth : Bool) (x x' : Option γ) : Prop :=
  x'.isSome = x.isSome ∧ (auth = false → x' = x)

variable {encode : Encoder} {auth : Bool} {s s' : Stream}

theorem Shown.cases {γ : Type} {x x' : Option γ} (h : Shown auth x x') :
    x = none ∧ x' = none ∨ ∃ p p', x = some p ∧ x' = some p' ∧ (auth = false → p' = p) := by
  obtain ⟨hserved, hshown⟩ := h
  cases x with
  | none => exact .inl ⟨rfl, by simpa using hserved⟩
  | some p =>
    obtain ⟨p', rfl⟩ := Option.isSome_iff_exists.mp hserved
    exact .inr ⟨p, p', rfl, rfl, fun hauth => Option.some.inj (hshown hauth)⟩

theorem inStep_of_zero (halike : Alike m m') (hstate : s'.state = s.state)
    (hindex : s'.index = s.index) (hrequest : s'.requestId = s.requestId)
    (hid : s'.nextId = s.nextId) (hzero : s.nodeCursor = 0) (hzero' : s'.nodeCursor = 0) :
    InStep m m' s s' := by
  refine ⟨hstate, hindex, hrequest, hid, fun _ => ⟨hzero, hzero'⟩, fun _ => ?_⟩
  rw [hzero, hzero']
  exact halike.card_others

theorem InStep.active (h : InStep m m' s s') : s'.active = s.active := by
  unfold Stream.active
  rw [h.state]

theorem InStep.move (h : InStep m m' s s') (halike : Alike m m')
    (hs : s.state ≠ .otherNodeinfos) (state : ConfigState) (index : Nat) {nextId nextId' : UInt32}
    (hnext : nextId' = nextId) :
    InStep m m' { s with state, index, nextId } { s' with state, index, nextId := nextId' } := by
  obtain ⟨hzero, hzero'⟩ := h.cursor hs
  exact inStep_of_zero halike rfl rfl h.requestId hnext hzero hzero'

theorem emit_fits (hfits : Fits encode) (s : Stream) (p : Payload) (state : ConfigState)
    (index : Nat) :
    ∃ f, encodeFromradioFrame encode ⟨(nextFromradioId s.nextId).1, p⟩ = some f ∧
      s.emit encode p state index =
        (some f, { s with nextId := (nextFromradioId s.nextId).2, state, index }) := by
  obtain ⟨data, hdata⟩ := Option.isSome_iff_exists.mp
    (hfits ⟨(nextFromradioId s.nextId).1, p⟩)
  have hframe : encodeFromradioFrame encode ⟨(nextFromradioId s.nextId).1, p⟩ =
      some ⟨data, .status, false⟩ := by
    unfold encodeFromradioFrame
    rw [hdata, Option.map_some]
  refine ⟨_, hframe, ?_⟩
  unfold emit
  simp only [hframe]

theorem firstSection_matched {τ : Type} {fill fill' : τ → Option Payload}
    (hfill : ∀ tag, Shown auth (fill tag) (fill' tag)) (tags : List τ) :
    (firstSection fill' tags).1 = (firstSection fill tags).1 ∧
      Shown auth (firstSection fill tags).2 (firstSection fill' tags).2 := by
  induction tags with
  | nil => exact ⟨rfl, rfl, fun _ => rfl⟩
  | cons tag rest ih =>
    unfold firstSection
    rcases (hfill tag).cases with ⟨hf, hf'⟩ | ⟨p, p', hf, hf', hp⟩ <;> rw [hf, hf']
    · exact ⟨by rw [ih.1], ih.2⟩
    · exact ⟨rfl, rfl, fun hauth => congrArg some (hp hauth)⟩

theorem InStep.skip (h : InStep m m' s s') (hs : s.state ≠ .otherNodeinfos) (k : Nat) :
    InStep m m' (s.skip k) (s'.skip k) ∧ (s.skip k).state = s.state := by
  induction k generalizing s s' with
  | zero => exact ⟨h, rfl⟩
  | succ k ih =>
    refine ih ?_ hs
    exact { h with index := by rw [h.index], nextId := by rw [h.nextId] }

theorem map_shown {γ : Type} {R : γ → γ → Prop} {redact : γ → γ} {c c' : Option γ}
    (hrel : Option.Rel R c c') (hR : ∀ {x y}, R x y → redact y = redact x) (auth : Bool)
    {variant : γ → Payload} :
    Shown auth (c.map fun x => variant (if auth then x else redact x))
      (c'.map fun x => variant (if auth then x else redact x)) := by
  cases hrel with
  | some hc =>
    refine ⟨rfl, ?_⟩
    rintro rfl
    simp only [Option.map_some, Bool.false_eq_true, if_false, hR hc]
  | none => exact ⟨rfl, fun _ => rfl⟩

theorem fillChannel_unauthorized (index : Nat) :
    fillChannel m' index false = fillChannel m index false := rfl

section
variable (hfits : Fits encode) (halike : Alike m m') (h : InStep m m' s s')
include hfits halike h

theorem emit_matched (hs : s.state ≠ .otherNodeinfos) {p p' : Payload}
    (hp : auth = false → p' = p) (state : ConfigState) (index : Nat) :
    Matched m m' auth (s.emit encode p state index) (s'.emit encode p' state index) := by
  obtain ⟨f, hf, hemit⟩ := emit_fits hfits s p state index
  obtain ⟨f', hf', hemit'⟩ := emit_fits hfits s' p' state index
  rw [hemit, hemit']
  refine ⟨h.move halike hs state index (by rw [h.nextId]), rfl, fun hauth => ?_⟩
  rw [h.nextId, hp hauth, hf] at hf'
  exact hf'.symm

section
variable (hs : s.state ≠ .otherNodeinfos)
include hs

theorem sendComplete_matched :
    Matched m m' auth (s.sendComplete encode m) (s'.sendComplete encode m') := by
  unfold sendComplete
  rw [halike.lockdown, h.requestId]
  exact emit_matched hfits halike h hs (fun _ => rfl) _ _

theorem sendQueueStatus_matched :
    Matched m m' auth (s.sendQueueStatus encode m) (s'.sendQueueStatus encode m') := by
  unfold sendQueueStatus
  rw [halike.fillQueueStatus]
  exact emit_matched hfits halike h hs (fun _ => rfl) _ _

theorem sendFilemanifest_matched :
    Matched m m' auth (s.sendFilemanifest encode m) (s'.sendFilemanifest encode m') := by
  unfold sendFilemanifest
  by_cases hreq : s.requestId = nonceOnlyNodes
  · rw [if_pos hreq, if_pos (h.requestId.trans hreq)]
    exact sendComplete_matched hfits halike (h.move halike hs .complete 0 h.nextId) nofun
  · rw [if_neg hreq, if_neg fun he => hreq (h.requestId.symm.trans he)]
    exact sendQueueStatus_matched hfits halike (h.move halike hs .queueStatus 0 h.nextId) nofun

end

/-- The walk shows the nodes themselves, so this is for an authorized client. -/
theorem sendOtherNodeinfos_matched (hs : s.state = .otherNodeinfos)
    (hauth : auth = true) :
    Matched m m' auth (s.sendOtherNodeinfos encode m) (s'.sendOtherNodeinfos encode m') := by
  have hleft := h.left hs
  have hnext := nextOther_others s halike.numbered
  have hnext' := nextOther_others s' halike.numbered'
  unfold sendOtherNodeinfos
  generalize s.nextOther m = r at hnext ⊢
  generalize s'.nextOther m' = r' at hnext' ⊢
  obtain ⟨c, r⟩ := r
  obtain ⟨c', r'⟩ := r'
  cases r with
  | none =>
    cases r' with
    | none =>
      refine sendFilemanifest_matched hfits halike ⟨rfl, rfl, h.requestId, h.nextId, ?_, ?_⟩ nofun
      · exact fun _ => ⟨rfl, rfl⟩
      · exact nofun
    | some e' =>
      -- one walk is at its end and the other is not
      omega
  | some e =>
    cases r' with
    | none =>
      omega
    | some e' =>
      obtain ⟨f, -, hemit⟩ := emit_fits hfits { s with nodeCursor := c }
        (fillOtherNodeInfo m e) .otherNodeinfos 0
      obtain ⟨f', -, hemit'⟩ := emit_fits hfits { s' with nodeCursor := c' }
        (fillOtherNodeInfo m' e') .otherNodeinfos 0
      simp only [hemit, hemit']
      refine ⟨⟨rfl, rfl, h.requestId, by rw [h.nextId], fun hne => absurd rfl hne, fun _ => ?_⟩,
        rfl, fun hno => by rw [hauth] at hno; cases hno⟩
      simp only at hnext hnext' ⊢
      omega

theorem sendSection_matched {τ : Type} {tags : List τ} {fill fill' : τ → Option Payload}
    {here next : ConfigState} {rest rest' : Stream → Option Frame × Stream}
    (hs : s.state ≠ .otherNodeinfos)
    (hfill : ∀ tag, Shown auth (fill tag) (fill' tag))
    (hrest : ∀ t t', InStep m m' t t' → t.state = next →
      Matched m m' auth (rest t) (rest' t')) :
    Matched m m' auth (s.sendSection encode tags fill here next rest)
      (s'.sendSection encode tags fill' here next rest') := by
  obtain ⟨hk, hshown⟩ := firstSection_matched hfill (tags.drop s.index)
  unfold sendSection
  rw [h.index]
  generalize firstSection fill (tags.drop s.index) = r at hk hshown ⊢
  generalize firstSection fill' (tags.drop s.index) = r' at hk hshown ⊢
  obtain ⟨k, r⟩ := r
  obtain ⟨k', r'⟩ := r'
  obtain rfl : k' = k := hk
  obtain ⟨hskip, hstate⟩ := h.skip hs k'
  have hs' : (s.skip k').state ≠ .otherNodeinfos := fun he => hs (hstate.symm.trans he)
  rcases hshown.cases with ⟨rfl, rfl⟩ | ⟨p, p', rfl, rfl, hp⟩
  · exact hrest _ _ (hskip.move halike hs' next 0 hskip.nextId) rfl
  · simp only [hskip.index]
    exact emit_matched hfits halike hskip hs' hp _ _

variable {admin : Bool}

section
variable (hs : s.state ≠ .otherNodeinfos)
include hs

theorem sendModules_matched :
    Matched m m' (m.authorized admin) (s.sendModules encode m admin)
      (s'.sendModules encode m' admin) := by
  have hfill (tag : ModuleTag) : Shown (m.authorized admin)
      (fillModuleVariant m (m.authorized admin) tag)
      (fillModuleVariant m' (m.authorized admin) tag) :=
    map_shown (halike.module tag) ModuleAlike.redact _
  unfold sendModules
  simp only [halike.authorized, h.requestId]
  split
  · refine sendSection_matched hfits halike h hs hfill ?_
    intro t t' ht hstate
    exact sendFilemanifest_matched hfits halike ht (by rw [hstate]; nofun)
  next hbranch =>
  have hauth : m.authorized admin = true := by
    by_contra hno
    simp [hno] at hbranch
  refine sendSection_matched hfits halike h hs hfill ?_
  intro t t' ht hstate
  exact sendOtherNodeinfos_matched hfits halike ht hstate hauth

theorem sendConfigs_matched :
    Matched m m' (m.authorized admin) (s.sendConfigs encode m admin)
      (s'.sendConfigs encode m' admin) := by
  have hfill (tag : ConfigTag) : Shown (m.authorized admin)
      (fillConfigVariant m (m.authorized admin) tag)
      (fillConfigVariant m' (m.authorized admin) tag) :=
    map_shown (halike.config tag) ConfigAlike.redact _
  unfold sendConfigs
  rw [halike.authorized]
  refine sendSection_matched hfits halike h hs hfill ?_
  intro t t' ht hstate
  exact sendModules_matched hfits halike ht (by rw [hstate]; nofun)

theorem sendLockdownStatus_matched :
    Matched m m' auth (s.sendLockdownStatus encode m admin)
      (s'.sendLockdownStatus encode m' admin) := by
  unfold sendLockdownStatus
  rw [halike.lockdown]
  split
  · exact emit_matched hfits halike h hs (fun _ => rfl) _ _
  · exact ⟨h.move halike hs .idle 0 h.nextId, rfl, fun _ => rfl⟩

end

/-- The streams stay in step, and show an unauthorized client the same. Only the walk over
the other nodes does not look up whether it may. -/
theorem nextConfigFrame_matched
    (hok : m.authorized admin = true ∨ s.state ≠ .otherNodeinfos) :
    Matched m m' (m.authorized admin) (nextConfigFrame encode m admin s)
      (nextConfigFrame encode m' admin s') := by
  have hui : m'.deviceUi = m.deviceUi := by rw [halike.rest]
  have hpresets : m'.regionPresets = m.regionPresets := by rw [halike.rest]
  unfold nextConfigFrame
  simp only [halike.authorized, h.state, halike.fillMyInfo, hui, halike.fillNodeInfo, h.requestId,
    hpresets, h.index]
  by_cases hs : s.state = .otherNodeinfos
  · have hauth : m.authorized admin = true := hok.resolve_right fun hne => hne hs
    rw [hs]
    exact sendOtherNodeinfos_matched hfits halike h hs hauth
  cases hstate : s.state with
  | otherNodeinfos => exact absurd hstate hs
  | idle => exact ⟨h, rfl, fun _ => rfl⟩
  | myInfo | deviceUi | nodeInfo | regionPresets =>
    exact emit_matched hfits halike h hs (fun _ => rfl) _ _
  | metadata =>
    refine emit_matched hfits halike h hs (fun hauth => ?_) _ _
    simp [fillMetadataFrame, hauth]
  | channels =>
    refine emit_matched hfits halike h hs (fun hauth => ?_) _ _
    rw [hauth]
    exact fillChannel_unauthorized s.index
  | configs => exact sendConfigs_matched hfits halike h hs
  | modules => exact sendModules_matched hfits halike h hs
  | filemanifest => exact sendFilemanifest_matched hfits halike h hs
  | queueStatus => exact sendQueueStatus_matched hfits halike h hs
  | complete => exact sendComplete_matched hfits halike h hs
  | lockdownStatus => exact sendLockdownStatus_matched hfits halike h hs

end

end

/-! ## The same client at both nodes -/

/-- A connection, with what is known of it: whether the frame in flight was fetched while
it was authorized, and the answers to the reads it made while it was not. -/
structure Watched (n : Nat) where
  api : Api n
  held : Bool
  seen : List (Option Frame)

inductive ClientEvent where
  | wantConfig (nonce : UInt32)
  | popFrame
  | currentFrame
  | releaseCurrentFrame
  | authorize
  | revokeAll
  | sessionReset
  | enqueue (m : FromRadio)

section
variable {n : Nat} (encode : Encoder) (evict : PhoneEvict) (node : Node)

/-- The answer to a read. -/
def Watched.note (w : Watched n) (r : Option Frame × Api n) : Watched n :=
  { w with
    api := r.2
    seen := if node.authorized w.api.adminAuthorized then w.seen else w.seen ++ [r.1] }

def watchStep (w : Watched n) : ClientEvent → Watched n
  | .wantConfig nonce => { w with api := w.api.wantConfig nonce }
  | .popFrame => w.note node (w.api.popFrame encode node)
  | .currentFrame =>
    { w.note node (w.api.currentFrame encode node) with
      held := if w.api.current.isSome then w.held else node.authorized w.api.adminAuthorized }
  | .releaseCurrentFrame => { w with api := w.api.releaseCurrentFrame }
  | .authorize => { w with api := w.api.authorize }
  | .revokeAll => { w with api := w.api.revoke }
  | .sessionReset => { w with api := w.api.sessionReset }
  | .enqueue m => { w with api := (w.api.enqueueFromradio encode evict m).1 }

/-- A connection at its beginning. -/
def Watched.start (a : Api n) : Watched n := ⟨a.sessionReset, false, []⟩

/-- The condition on a read by an unauthorized client: the stream is not among the other
nodes, and the frame in flight was not fetched while it was authorized. -/
def Withheld (w : Watched n) : ClientEvent → Prop
  | .popFrame =>
    node.authorized w.api.adminAuthorized = true ∨ w.api.stream.state ≠ .otherNodeinfos
  | .currentFrame =>
    node.authorized w.api.adminAuthorized = true ∨
      if w.api.current.isSome then w.held = false else w.api.stream.state ≠ .otherNodeinfos
  | _ => True

end

section
variable {n : Nat} {encode : Encoder} {evict : PhoneEvict} {m m' : Node} {a a' : Api n}
variable {w w' : Watched n}

/-- Two connections in step, as far as a read looks at them. -/
structure Together (m m' : Node) (a a' : Api n) : Prop where
  stream : InStep m m' a.stream a'.stream
  queue : a'.queue = a.queue
  admin : a'.adminAuthorized = a.adminAuthorized

/-- What a read takes from both. -/
structure TakenAlike (m m' : Node) (auth : Bool) (r r' : Option Frame × Api n) : Prop where
  together : Together m m' r.2 r'.2
  served : r'.1.isSome = r.1.isSome
  shown : auth = false → r'.1 = r.1

theorem takeQueued_alike (halike : Alike m m') (h : Together m m' a a') (auth : Bool) :
    TakenAlike m m' auth (a.takeQueued m) (a'.takeQueued m') := by
  unfold Api.takeQueued
  rw [h.queue, h.admin, halike.authorized]
  cases queueTakeServable (m.authorized a.adminAuthorized) a.queue with
  | none => exact ⟨h, rfl, fun _ => rfl⟩
  | some taken => exact ⟨⟨h.stream, rfl, rfl⟩, rfl, fun _ => rfl⟩

theorem takeNext_alike (hfits : Fits encode) (halike : Alike m m') (h : Together m m' a a')
    (hok : m.authorized a.adminAuthorized = true ∨ a.stream.state ≠ .otherNodeinfos) :
    TakenAlike m m' (m.authorized a.adminAuthorized) (a.takeNext encode m)
      (a'.takeNext encode m') := by
  have hmatched := nextConfigFrame_matched hfits halike h.stream hok
  unfold Api.takeNext
  rw [h.admin, h.stream.active]
  generalize nextConfigFrame encode m a.adminAuthorized a.stream = out at hmatched ⊢
  generalize nextConfigFrame encode m' a.adminAuthorized a'.stream = out' at hmatched ⊢
  obtain ⟨r, t⟩ := out
  obtain ⟨r', t'⟩ := out'
  obtain ⟨hstream, hserved, hshown⟩ := hmatched
  have htogether : Together m m' { a with stream := t }
      { a' with stream := t', adminAuthorized := a.adminAuthorized } := ⟨hstream, h.queue, rfl⟩
  split
  · rcases @Shown.cases _ _ r r' ⟨hserved, hshown⟩ with ⟨rfl, rfl⟩ | ⟨f, f', rfl, rfl, hf⟩
    · simp only [hstream.active]
      split
      · exact ⟨htogether, rfl, fun _ => rfl⟩
      · exact takeQueued_alike halike htogether _
    · exact ⟨htogether, rfl, fun hauth => congrArg some (hf hauth)⟩
  · exact takeQueued_alike halike h _

/-- Two watched connections that nothing seen tells apart. -/
structure Unseen (m m' : Node) (w w' : Watched n) : Prop where
  together : Together m m' w.api w'.api
  hasCurrent : w'.api.hasCurrent = w.api.hasCurrent
  current : w'.api.current.isSome = w.api.current.isSome
  shown : w.held = false → w'.api.current = w.api.current
  held : w'.held = w.held
  seen : w'.seen = w.seen

theorem Together.note {r r' : Option Frame × Api n} (halike : Alike m m')
    (h : Together m m' w.api w'.api) (hseen : w'.seen = w.seen)
    (hshown : m.authorized w.api.adminAuthorized = false → r'.1 = r.1) :
    (w'.note m' r').seen = (w.note m r).seen := by
  unfold Watched.note
  simp only [h.admin, halike.authorized, hseen]
  split
  · rfl
  · next hauth => rw [hshown (by simpa using hauth)]

variable {node : Node}

theorem Taken.current {r : Option Frame} {b : Api n}
    (h : Taken encode node a r b) : b.current = a.current ∧ b.hasCurrent = a.hasCurrent := by
  cases h <;> exact ⟨rfl, rfl⟩

theorem currentFrame_absent (hhas : a.hasCurrent = false) :
    a.currentFrame encode node = (none, a) := by
  simp [Api.currentFrame, hhas]

theorem currentFrame_held {f : Frame} (hhas : a.hasCurrent = true)
    (hcur : a.current = some f) : a.currentFrame encode node = (some f, a) := by
  simp [Api.currentFrame, hhas, hcur]

theorem currentFrame_fetch (hhas : a.hasCurrent = true) (hcur : a.current = none) :
    a.currentFrame encode node =
      ((a.takeNext encode node).1,
        { (a.takeNext encode node).2 with current := (a.takeNext encode node).1 }) := by
  have hkeep := (takeNext_taken encode node a).current.1
  rw [hcur] at hkeep
  unfold Api.currentFrame
  simp only [hhas, hcur, Bool.not_true, Bool.false_eq_true, if_false]
  generalize a.takeNext encode node = r at hkeep ⊢
  obtain ⟨f, b⟩ := r
  cases f with
  | none =>
    obtain ⟨queue, saturated, hasCurrent, current, stream, admin, pending, epoch⟩ := b
    obtain rfl : current = none := hkeep
    rfl
  | some f => rfl

theorem enqueueFromradio_queue (encode : Encoder) (evict : PhoneEvict) (h : a'.queue = a.queue)
    (msg : FromRadio) :
    (a'.enqueueFromradio encode evict msg).1.queue =
      (a.enqueueFromradio encode evict msg).1.queue := by
  unfold Api.enqueueFromradio
  cases fromradioFrame encode msg with
  | none => exact h
  | some f =>
    simp only [Api.enqueueFrame, Api.evictFor, Api.put, h]
    split
    · cases evict with
      | dropOldest => rfl
      | protect =>
        dsimp only
        split
        · rfl
        · split
          · exact h
          · rfl
    · rfl

theorem Unseen.enqueue (h : Unseen m m' w w') (msg : FromRadio) :
    Unseen m m' (watchStep encode evict m w (.enqueue msg))
      (watchStep encode evict m' w' (.enqueue msg)) := by
  have hqueue := enqueueFromradio_queue encode evict h.together.queue msg
  obtain ⟨q, saturated, hsame⟩ := enqueueFromradio_same encode evict w.api msg
  obtain ⟨q', saturated', hsame'⟩ := enqueueFromradio_same encode evict w'.api msg
  simp only [watchStep]
  rw [hsame, hsame'] at hqueue ⊢
  exact { h with together := { h.together with queue := hqueue } }

section
variable (hfits : Fits encode) (halike : Alike m m') (h : Unseen m m' w w')
include hfits halike h

theorem Unseen.popFrame (hok : Withheld m w .popFrame) :
    Unseen m m' (watchStep encode evict m w .popFrame)
      (watchStep encode evict m' w' .popFrame) := by
  have htaken := takeNext_alike hfits halike h.together hok
  obtain ⟨hcur, hhas⟩ := (takeNext_taken encode m w.api).current
  obtain ⟨hcur', hhas'⟩ := (takeNext_taken encode m' w'.api).current
  refine ⟨htaken.together, ?_, ?_, ?_, h.held, ?_⟩
  · exact hhas'.trans (h.hasCurrent.trans hhas.symm)
  · exact (congrArg Option.isSome hcur').trans (h.current.trans (congrArg Option.isSome hcur).symm)
  · exact fun hheld => hcur'.trans ((h.shown hheld).trans hcur.symm)
  · exact h.together.note halike h.seen htaken.shown

theorem Unseen.currentFrame (hok : Withheld m w .currentFrame) :
    Unseen m m' (watchStep encode evict m w .currentFrame)
      (watchStep encode evict m' w' .currentFrame) := by
  have hauth : m'.authorized w'.api.adminAuthorized = m.authorized w.api.adminAuthorized := by
    rw [halike.authorized, h.together.admin]
  have hheld : (if w'.api.current.isSome then w'.held
        else m'.authorized w'.api.adminAuthorized) =
      if w.api.current.isSome then w.held else m.authorized w.api.adminAuthorized := by
    rw [h.current, h.held, hauth]
  have hcurrent : w.api.current = none → w'.api.current = none := fun hcur => by
    simpa [hcur] using h.current
  simp only [watchStep]
  cases hhas : w.api.hasCurrent with
  | false =>
    rw [currentFrame_absent hhas, currentFrame_absent (h.hasCurrent.trans hhas)]
    refine { h with
      shown := fun hno => ?_
      held := hheld
      seen := h.together.note halike h.seen fun _ => rfl }
    cases hcur : w.api.current with
    | none => exact (hcurrent hcur).trans hcur.symm
    | some f =>
      simp only [hcur, Option.isSome_some, if_true] at hno
      exact h.shown hno
  | true =>
    have hhas' : w'.api.hasCurrent = true := h.hasCurrent.trans hhas
    cases hcur : w.api.current with
    | some f =>
      obtain ⟨f', hcur'⟩ := Option.isSome_iff_exists.mp (h.current.trans (by rw [hcur]; rfl))
      rw [currentFrame_held hhas hcur, currentFrame_held hhas' hcur']
      rw [hcur] at hheld
      refine { h with
        held := hheld
        seen := h.together.note halike h.seen fun hno => ?_ }
      have hsame := h.shown (by simpa [Withheld, hno, hcur] using hok)
      rw [hcur, hcur'] at hsame
      exact hsame
    | none =>
      have htaken := takeNext_alike hfits halike h.together (by simpa [Withheld, hcur] using hok)
      have hkept := (takeNext_taken encode m w.api).current.2
      have hkept' := (takeNext_taken encode m' w'.api).current.2
      rw [currentFrame_fetch hhas hcur, currentFrame_fetch hhas' (hcurrent hcur)]
      rw [hcur] at hheld
      refine ⟨?_, ?_, htaken.served, htaken.shown, hheld,
        h.together.note halike h.seen htaken.shown⟩
      · exact { htaken.together with }
      · exact hkept'.trans (h.hasCurrent.trans hkept.symm)

theorem step_unseen {e : ClientEvent} (hok : Withheld m w e) :
    Unseen m m' (watchStep encode evict m w e) (watchStep encode evict m' w' e) := by
  obtain ⟨hstream, hqueue, hadmin⟩ := h.together
  cases e with
  | wantConfig nonce =>
    refine ⟨⟨?_, hqueue, hadmin⟩, h.hasCurrent, rfl, fun _ => rfl, h.held, h.seen⟩
    exact inStep_of_zero halike rfl rfl rfl hstream.nextId rfl rfl
  | popFrame => exact h.popFrame hfits halike hok
  | currentFrame => exact h.currentFrame hfits halike hok
  | releaseCurrentFrame =>
    exact ⟨⟨hstream, hqueue, hadmin⟩, h.hasCurrent, rfl, fun _ => rfl, h.held, h.seen⟩
  | authorize | revokeAll =>
    exact { h with together := ⟨hstream, hqueue, rfl⟩ }
  | sessionReset =>
    refine ⟨⟨?_, hqueue, rfl⟩, h.hasCurrent, rfl, fun _ => rfl, h.held, h.seen⟩
    exact inStep_of_zero halike rfl rfl rfl hstream.nextId rfl rfl
  | enqueue msg => exact h.enqueue msg

end

/-- **What an unauthorized client learns.** Two nodes that differ only in what is not public
give the same answers to every read a client makes while it is not authorized, through any
run of requests, reads, grants and revocations in which no such read finds the stream among
the other nodes or a frame in flight that was fetched before the authorization was lost. -/
theorem reads_agree {n : Nat} {encode : Encoder} (hfits : Fits encode) (evict : PhoneEvict)
    {m m' : Node} (halike : Alike m m') (a : Api n) (events : List ClientEvent)
    (hok : Guarded (watchStep encode evict m) (Withheld m) (.start a) events) :
    (run (watchStep encode evict m') (.start a) events).seen =
      (run (watchStep encode evict m) (.start a) events).seen := by
  have hstart : Unseen m m' (.start a) (.start a) := by
    refine ⟨⟨?_, rfl, rfl⟩, rfl, rfl, fun _ => rfl, rfl, rfl⟩
    exact inStep_of_zero halike rfl rfl rfl rfl rfl rfl
  have hrun := run_invariant
    (fun es w => Unseen m m' w (run (watchStep encode evict m') (.start a) es)) hstart
    (fun es e h hok => by
      rw [run_append]
      exact step_unseen hfits halike h hok) events hok
  exact hrun.seen

end

/-- An encoder that shows a network section and the number of a node. -/
def peekEncoder : Encoder := fun m =>
  match m.payload with
  | .config (.network fields) => some fields
  | .nodeInfo info => some [info.num.toUInt8]
  | _ => some []

theorem peekEncoder_fits : Fits peekEncoder := by
  intro m
  unfold peekEncoder
  split <;> rfl

/-- A locked-down node that has heard one other node. -/
def neighbourOf (network : Bytes) (num : UInt32) : Node :=
  { Node.bare (some ⟨true, true, .ok⟩) with
    getConfig := fun tag => if tag = .network then some (.network network) else none
    nodedb := [.fresh 1, .fresh num] }

theorem neighbourOf_alike (network network' : Bytes) {num num' : UInt32} (h0 : num ≠ 0)
    (h1 : num ≠ 1) (h0' : num' ≠ 0) (h1' : num' ≠ 1) :
    Alike (neighbourOf network num) (neighbourOf network' num') where
  rest := rfl
  config := by
    intro tag
    simp only [neighbourOf]
    split
    · exact .some (.network network network')
    · exact .none
  module := fun _ => .none
  size := rfl
  own := iff_of_true ⟨.fresh 1, mem_cons_self, rfl⟩ ⟨.fresh 1, mem_cons_self, rfl⟩
  numbered := by
    refine ⟨?_, ?_, ?_⟩ <;> simp [neighbourOf, NodeDb.Entry.fresh, h0, h1.symm]
  numbered' := by
    refine ⟨?_, ?_, ?_⟩ <;> simp [neighbourOf, NodeDb.Entry.fresh, h0', h1'.symm]

/-- A client reads a node's own entry, proves the passphrase, reads the other node, and is
revoked before it asks again. -/
theorem reads_agree_revoked :
    let events : List ClientEvent :=
      [.wantConfig nonceOnlyNodes, .popFrame, .authorize, .wantConfig nonceOnlyNodes, .popFrame,
        .currentFrame, .releaseCurrentFrame, .revokeAll, .wantConfig nonceOnlyNodes, .popFrame,
        .currentFrame]
    let start : Watched 2 := .start (.init (by decide) true 1)
    let seen := fun node => (run (watchStep peekEncoder .protect node) start events).seen
    (seen (neighbourOf [5] 2)).map (·.map (·.data)) = [some [1], some [1], some []] ∧
      seen (neighbourOf [6] 3) = seen (neighbourOf [5] 2) := by
  refine ⟨by decide +kernel, reads_agree peekEncoder_fits .protect
    (neighbourOf_alike [5] [6] (by decide) (by decide) (by decide) (by decide)) _ _ ?_⟩
  simp only [guarded_cons]
  exact ⟨trivial, .inr (by decide +kernel), trivial, trivial, .inl rfl, .inl rfl, trivial, trivial,
    trivial, .inr (by decide +kernel), .inr (by decide +kernel), guarded_nil⟩

/-- A client that is revoked while it reads the other nodes goes on reading them, and one
that holds a frame in flight reads it again. -/
theorem revoked_client_reads_on :
    let popped : List ClientEvent :=
      [.authorize, .wantConfig nonceOnlyNodes, .popFrame, .revokeAll, .popFrame]
    let held : List ClientEvent :=
      [.authorize, .wantConfig nonceOnlyNodes, .popFrame, .currentFrame, .revokeAll, .currentFrame]
    let start : Watched 2 := .start (.init (by decide) true 1)
    let seen := fun node events =>
      (run (watchStep peekEncoder .protect node) start events).seen.map (·.map (·.data))
    Alike (neighbourOf [5] 2) (neighbourOf [5] 3) ∧
      seen (neighbourOf [5] 2) popped = [some [2]] ∧ seen (neighbourOf [5] 3) popped = [some [3]] ∧
      seen (neighbourOf [5] 2) held = [some [2]] ∧ seen (neighbourOf [5] 3) held = [some [3]] := by
  refine ⟨neighbourOf_alike [5] [5] (by decide) (by decide) (by decide) (by decide), ?_, ?_, ?_,
    ?_⟩ <;> decide +kernel

end Zephyrtastic.PhoneApi
