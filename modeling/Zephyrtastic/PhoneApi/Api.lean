import Zephyrtastic.Lib.Ring
import Zephyrtastic.PhoneApi.Config

/-!
# A client connection

A transport's queue of frames, the config stream that goes before it, the frame a client
may read more than once, and the authorization of the connection. `contents` of the ring
is the queue, oldest frame first; the lemmas say what each call does to it.
-/

namespace Zephyrtastic.PhoneApi

open List Zephyrtastic.Ring

/-- `struct meshtastic_phoneapi`, with a queue of `n` frames. -/
structure Api (n : Nat) where
  queue : Ring Frame n
  /-- The last frame queued pushed out one that is never given up for a cheaper one. -/
  saturated : Bool
  /-- The transport has given storage for a frame in flight. -/
  hasCurrent : Bool
  /-- The frame in flight, where `current_valid`. -/
  current : Option Frame
  stream : Stream
  adminAuthorized : Bool
  pendingUnlock : Bool
  connEpoch : UInt32

inductive PhoneEvict where
  | protect | dropOldest
  deriving DecidableEq, Repr

/-- What gives way when the queue is full: the frame so many places after the oldest, or
the one that was to be queued. -/
inductive Lost where
  | queued (k : Nat)
  | incoming
  deriving DecidableEq, Repr

section
variable {n : Nat} (encode : Encoder) (node : Node)
variable (a : Api n)

/-- May be served: session control goes to every connection. -/
def servable (auth : Bool) (f : Frame) : Bool := auth || f.control

def queueTakeServable (auth : Bool) (q : Ring Frame n) : Option (Frame × Ring Frame n) :=
  match (range q.count).find? fun i => servable auth (q.get i) with
  | none => none
  | some i => some (q.get i, if i = 0 then q.popFront else q.removeAt i)

/-- A frame of the queue, for a connection that is not in its config stream. -/
def Api.takeQueued : Option Frame × Api n :=
  match queueTakeServable (node.authorized a.adminAuthorized) a.queue with
  | none => (none, a)
  | some (f, q) => (some f, { a with queue := q })

/-- The order of `pop_frame` and `current_frame`: the config stream first, then the queue.
A message of the stream that does not encode holds the queue back. -/
def Api.takeNext : Option Frame × Api n :=
  if a.stream.active then
    match nextConfigFrame encode node a.adminAuthorized a.stream with
    | (some f, s) => (some f, { a with stream := s })
    | (none, s) =>
      if s.active then (none, { a with stream := s }) else { a with stream := s }.takeQueued node
  else a.takeQueued node

def Api.popFrame : Option Frame × Api n := a.takeNext encode node

def Api.currentFrame : Option Frame × Api n :=
  if !a.hasCurrent then (none, a)
  else match a.current with
    | some f => (some f, a)
    | none =>
      match a.takeNext encode node with
      | (none, a) => (none, a)
      | (some f, a) => (some f, { a with current := some f })

def Api.releaseCurrentFrame : Api n := { a with current := none }

/-- `meshtastic_phoneapi_push_frame_front`: where the queue is full, the newest frame goes. -/
def Api.pushFrameFront (f : Frame) : Api n × Option Lost :=
  if a.queue.full then
    ({ a with queue := a.queue.dropBack.pushFront f }, some (.queued (n - 1)))
  else ({ a with queue := a.queue.pushFront f }, none)

/-- The scan for the cheapest frame, oldest first among equals. -/
def scanCheapest : List Frame → Nat → Option (Nat × EvictRank) → Option (Nat × EvictRank)
  | [], _, best => best
  | f :: rest, i, best =>
    scanCheapest rest (i + 1)
      (if best.all fun b => decide (f.evictRank < b.2) then some (i, f.evictRank) else best)

/-- Queues a frame behind those that are left. The latch follows whether a protected frame
had to go. -/
def Api.put (q : Ring Frame n) (f : Frame) (droppedProtected : Bool) : Api n :=
  { a with queue := q.pushBack f, saturated := droppedProtected }

/-- `meshtastic_phoneapi_enqueue_fromradio` on a full queue with the protecting policy. -/
def Api.evictFor (f : Frame) : Api n × Option Lost :=
  match (scanCheapest a.queue.contents 0 none).filter fun v =>
    decide (v.2 < .keep) && decide (v.2 ≤ f.evictRank) with
  | some (i, _) => (a.put (a.queue.removeAt i) f false, some (.queued i))
  | none =>
    if f.evictRank < .keep then (a, some .incoming)
    else (a.put a.queue.popFront f true, some (.queued 0))

/-- The locked part of `meshtastic_phoneapi_enqueue_fromradio`. -/
def Api.enqueueFrame (evict : PhoneEvict) (a : Api n) (f : Frame) : Api n × Option Lost :=
  if a.queue.full then
    match evict with
    | .protect => a.evictFor f
    | .dropOldest => (a.put a.queue.popFront f false, some (.queued 0))
  else (a.put a.queue f false, none)

/-- The frame `meshtastic_phoneapi_enqueue_fromradio` makes of a message. -/
def fromradioFrame (m : FromRadio) : Option Frame :=
  (encodeFromradioFrame encode m).map fun f =>
    { f with evictRank := m.evictRank, control := m.isControl }

def Api.enqueueFromradio (evict : PhoneEvict) (a : Api n) (m : FromRadio) : Api n × Option Lost :=
  match fromradioFrame encode m with
  | none => (a, none)
  | some f => a.enqueueFrame evict f

/-- The frame of a log record. -/
def logFrame (id : UInt32) (record : Bytes) : Option Frame :=
  (encodeFromradioFrame encode ⟨id, .logRecord record⟩).map fun f => { f with evictRank := .log }

/-- `meshtastic_phoneapi_enqueue_log_record` on one transport. -/
def Api.enqueueLogRecord (id : UInt32) (record : Bytes) : Api n × Option Lost :=
  match logFrame encode id record with
  | none => (a, none)
  | some f =>
    if !node.authorized a.adminAuthorized then (a, none)
    else if a.queue.full then (a, some .incoming)
    else ({ a with queue := a.queue.pushBack f }, none)

/-- `meshtastic_phoneapi_init`, and `meshtastic_phoneapi_set_current` where the transport
has storage for a frame in flight. -/
def Api.init (hn : 0 < n) (hasCurrent : Bool) (nextId : UInt32) : Api n where
  queue := .empty ⟨[], .status, false⟩ hn
  saturated := false
  hasCurrent
  current := none
  stream := ⟨.idle, 0, 0, 0, nextId⟩
  adminAuthorized := false
  pendingUnlock := false
  connEpoch := 0

/-- `meshtastic_phoneapi_enqueue_phone_config`: the queue is kept. -/
def Api.wantConfig (a : Api n) (requestId : UInt32) : Api n :=
  { a with current := none, stream := a.stream.wantConfig requestId }

/-- `meshtastic_phoneapi_session_reset`: the queue is kept. -/
def Api.sessionReset : Api n :=
  { a with
    current := none
    stream := a.stream.reset
    adminAuthorized := false
    pendingUnlock := false
    connEpoch := a.connEpoch + 1 }

def Api.authorize : Api n := { a with adminAuthorized := true, pendingUnlock := false }

/-- `revoke_all` on one transport. -/
def Api.revoke : Api n := { a with adminAuthorized := false, pendingUnlock := false }

end

theorem clash {b : Bool} {p : Prop} (hoff : b = false) (hon : b = true) : p :=
  absurd (hoff.symm.trans hon) Bool.false_ne_true

/-! ## The queue as a list -/

/-- The queue after a call that puts a frame into it. -/
def Lost.after (q : List Frame) (put : List Frame → List Frame) : Option Lost → List Frame
  | none => put q
  | some (.queued k) => put (q.eraseIdx k)
  | some .incoming => q

section
variable {n : Nat} {q q' : Ring Frame n} {auth : Bool} {f : Frame}

/-- The frame taken is the oldest one that may be served, and the others stay in order. -/
theorem queueTakeServable_some (h : queueTakeServable auth q = some (f, q')) :
    ∃ pre post, q.contents = pre ++ f :: post ∧ (∀ g ∈ pre, servable auth g = false) ∧
      servable auth f = true ∧ q'.contents = pre ++ post := by
  unfold queueTakeServable at h
  split at h
  · cases h
  next i hi =>
  obtain ⟨rfl, rfl⟩ := Prod.mk.inj (Option.some.inj h)
  obtain ⟨hserv, hmem, hfirst⟩ := find?_range_eq_some.mp hi
  have hlt : i < q.contents.length := by
    rw [length_contents]
    exact mem_range.mp hmem
  have hget : ∀ j (hj : j < q.contents.length), q.contents[j] = q.get j := fun j hj => by
    apply Option.some.inj
    rw [← getElem?_eq_getElem hj, getElem?_contents, if_pos (by simpa using hj)]
  refine ⟨q.contents.take i, q.contents.drop (i + 1), ?_, ?_, hserv, ?_⟩
  · rw [← hget i hlt, getElem_cons_drop, take_append_drop]
  · intro g hg
    obtain ⟨j, hj, rfl⟩ := getElem_of_mem hg
    rw [length_take] at hj
    rw [getElem_take, hget j (by omega)]
    simpa using hfirst j (by omega)
  · split
    · next h0 => rw [contents_popFront, h0, take_zero, nil_append, drop_one]
    · next h0 => rw [contents_removeAt hlt, eraseIdx_eq_take_drop_succ]

theorem queueTakeServable_none (h : queueTakeServable auth q = none) :
    ∀ g ∈ q.contents, servable auth g = false := by
  unfold queueTakeServable at h
  split at h
  next hnone =>
    intro g hg
    obtain ⟨i, hi, rfl⟩ := mem_map.mp hg
    simpa using find?_eq_none.mp hnone i hi
  · cases h

theorem queueTakeServable_first {rest : List Frame} (hq : q.contents = f :: rest)
    (hserv : servable auth f = true) : ∃ q', queueTakeServable auth q = some (f, q') := by
  cases htake : queueTakeServable auth q with
  | none => exact clash (queueTakeServable_none htake f (by simp [hq])) hserv
  | some taken =>
    obtain ⟨g, q'⟩ := taken
    obtain ⟨pre, post, hsplit, hpre, -, -⟩ := queueTakeServable_some htake
    cases pre with
    | nil =>
      obtain ⟨rfl, -⟩ := cons.inj (hq.symm.trans hsplit)
      exact ⟨q', rfl⟩
    | cons p pre =>
      obtain ⟨rfl, -⟩ := cons.inj (hq.symm.trans hsplit)
      exact clash (hpre f mem_cons_self) hserv

end

/-! ## What a read takes -/

section
variable {n : Nat} (encode : Encoder) (node : Node) (a : Api n)

/-- The stream has no frame left: it was idle, or has just become so. -/
def Ended (s : Stream) : Prop :=
  s.active = false ∧ (s = a.stream ∨ a.stream.active = true ∧
    nextConfigFrame encode node a.adminAuthorized a.stream = (none, s))

/-- What a read hands over, and the connection after it. -/
inductive Taken : Option Frame → Api n → Prop where
  | config (f : Frame) (s : Stream) (hactive : a.stream.active = true)
      (hnext : nextConfigFrame encode node a.adminAuthorized a.stream = (some f, s)) :
      Taken (some f) { a with stream := s }
  | stalled (s : Stream) (hactive : a.stream.active = true)
      (hnext : nextConfigFrame encode node a.adminAuthorized a.stream = (none, s))
      (hstill : s.active = true) : Taken none { a with stream := s }
  | queued (f : Frame) (s : Stream) (q : Ring Frame n) (hend : Ended encode node a s)
      (htake : queueTakeServable (node.authorized a.adminAuthorized) a.queue = some (f, q)) :
      Taken (some f) { a with stream := s, queue := q }
  | nothing (s : Stream) (hend : Ended encode node a s)
      (htake : queueTakeServable (node.authorized a.adminAuthorized) a.queue = none) :
      Taken none { a with stream := s }

theorem takeQueued_taken {s : Stream} (hend : Ended encode node a s) :
    Taken encode node a ({ a with stream := s }.takeQueued node).1
      ({ a with stream := s }.takeQueued node).2 := by
  unfold Api.takeQueued
  split
  · next htake => exact .nothing s hend htake
  · next f q htake => exact .queued f s q hend htake

theorem takeNext_taken :
    Taken encode node a (a.takeNext encode node).1 (a.takeNext encode node).2 := by
  unfold Api.takeNext
  split
  · next hactive =>
    split
    · next f s hnext => exact .config f s hactive hnext
    next s hnext =>
    split
    · next hstill => exact .stalled s hactive hnext hstill
    · next hidle =>
      exact takeQueued_taken encode node a ⟨Bool.not_eq_true _ ▸ hidle, .inr ⟨hactive, hnext⟩⟩
  · next hidle => exact takeQueued_taken encode node a ⟨Bool.not_eq_true _ ▸ hidle, .inl rfl⟩

variable {encode node a}

variable {b : Api n} {r : Option Frame} (h : Taken encode node a r b)
include h

theorem Taken.adminAuthorized : b.adminAuthorized = a.adminAuthorized := by
  cases h <;> rfl

theorem Taken.contents :
    b.queue.contents = a.queue.contents ∨
      ∃ pre f post, a.queue.contents = pre ++ f :: post ∧ b.queue.contents = pre ++ post := by
  cases h with
  | config | stalled | nothing => exact .inl rfl
  | queued f s q hend htake =>
    obtain ⟨pre, post, hq, -, -, hq'⟩ := queueTakeServable_some htake
    exact .inr ⟨pre, f, post, hq, hq'⟩

end

/-- The rank is the least of the queue, and its first frame of that rank is the `i`-th. -/
structure LeastAt (q : List Frame) (i : Nat) (rank : EvictRank) : Prop where
  found : ∃ v, q[i]? = some v ∧ v.evictRank = rank
  least : ∀ g ∈ q, rank ≤ g.evictRank
  oldest : ∀ j g, j < i → q[j]? = some g → rank < g.evictRank

/-- What the scan holds after a part of the queue. -/
def Best (q : List Frame) : Option (Nat × EvictRank) → Prop
  | none => q = []
  | some (i, rank) => LeastAt q i rank

theorem Best.consider {q : List Frame} {best : Option (Nat × EvictRank)} (h : Best q best)
    (f : Frame) :
    Best (q ++ [f])
      (if best.all fun b => decide (f.evictRank < b.2) then some (q.length, f.evictRank)
        else best) := by
  have hnew : ∀ j g, j < q.length → (q ++ [f])[j]? = some g → g ∈ q := fun j g hj hg => by
    rw [getElem?_append_left hj] at hg
    exact mem_of_getElem? hg
  cases best with
  | none =>
    cases h
    refine ⟨⟨f, rfl, rfl⟩, ?_, ?_⟩
    · intro g hg
      rw [mem_singleton.mp hg]
    · intro j g hj
      exact absurd hj (Nat.not_lt_zero j)
  | some b =>
    obtain ⟨i, rank⟩ := b
    obtain ⟨⟨v, hv, hrank⟩, hleast, hold⟩ := h
    have hi : i < q.length := (List.getElem?_eq_some_iff.mp hv).1
    simp only [Option.all_some, decide_eq_true_eq]
    split
    · next hlt =>
      refine ⟨⟨f, getElem?_concat_length, rfl⟩, ?_, ?_⟩
      · intro g hg
        rcases mem_append.mp hg with hq | hf
        · exact (lt_of_lt_of_le hlt (hleast g hq)).le
        · rw [mem_singleton.mp hf]
      · intro j g hj hg
        exact lt_of_lt_of_le hlt (hleast g (hnew j g hj hg))
    · next hge =>
      refine ⟨⟨v, ?_, hrank⟩, ?_, ?_⟩
      · rw [getElem?_append_left hi, hv]
      · intro g hg
        rcases mem_append.mp hg with hq | hf
        · exact hleast g hq
        · rw [mem_singleton.mp hf]
          exact not_lt.mp hge
      · intro j g hj hg
        rw [getElem?_append_left (by omega)] at hg
        exact hold j g hj hg

theorem scanCheapest_best (rest : List Frame) {done : List Frame}
    {best : Option (Nat × EvictRank)} (h : Best done best) :
    Best (done ++ rest) (scanCheapest rest done.length best) := by
  induction rest generalizing done best with
  | nil => simpa [scanCheapest] using h
  | cons f rest ih =>
    have hnext := ih (h.consider f)
    rw [length_append, append_assoc] at hnext
    exact hnext

section
variable {n : Nat} (a : Api n) (f : Frame)

theorem contents_put {q : Ring Frame n} (h : q.contents.length < n) (dropped : Bool) :
    (a.put q f dropped).queue.contents = q.contents ++ [f] :=
  contents_pushBack f h

theorem pos_of_full (h : a.queue.full = true) : 0 < a.queue.contents.length := by
  have hlen := full_iff.mp h
  have hpos := a.queue.tail.pos
  omega

theorem contents_put_popFront (h : a.queue.full = true) (dropped : Bool) :
    (a.put a.queue.popFront f dropped).queue.contents =
      a.queue.contents.eraseIdx 0 ++ [f] := by
  have hlen := full_iff.mp h
  have hpos := pos_of_full a h
  rw [contents_put, contents_popFront, eraseIdx_zero]
  rw [contents_popFront, length_tail]
  omega

theorem contents_evictFor (h : a.queue.full = true) :
    (a.evictFor f).1.queue.contents =
      Lost.after a.queue.contents (· ++ [f]) (a.evictFor f).2 := by
  have hlen := full_iff.mp h
  have hbest := scanCheapest_best a.queue.contents (show Best [] none from rfl)
  rw [length_nil] at hbest
  unfold Api.evictFor
  split
  · next i rank hscan =>
    obtain ⟨hsome, -⟩ := Option.filter_eq_some_iff.mp hscan
    rw [hsome] at hbest
    obtain ⟨v, hv, -⟩ := hbest.found
    have hi : i < a.queue.contents.length := (List.getElem?_eq_some_iff.mp hv).1
    have hroom : (a.queue.removeAt i).contents.length < n := by
      rw [contents_removeAt hi, length_eraseIdx_of_lt hi]
      omega
    rw [contents_put a f hroom, contents_removeAt hi]
    rfl
  · split
    · rfl
    · exact contents_put_popFront a f h true

theorem contents_enqueueFrame (evict : PhoneEvict) :
    (a.enqueueFrame evict f).1.queue.contents =
      Lost.after a.queue.contents (· ++ [f]) (a.enqueueFrame evict f).2 := by
  unfold Api.enqueueFrame
  split
  · next hfull =>
    cases evict with
    | protect => exact contents_evictFor a f hfull
    | dropOldest => exact contents_put_popFront a f hfull false
  · next hroom =>
    exact contents_put a f (length_lt_of_not_full hroom) false

theorem enqueueFrame_same (evict : PhoneEvict) :
    ∃ q saturated, (a.enqueueFrame evict f).1 = { a with queue := q, saturated } := by
  unfold Api.enqueueFrame
  split
  · cases evict with
    | dropOldest => exact ⟨_, _, rfl⟩
    | protect =>
      unfold Api.evictFor
      dsimp only
      split
      · exact ⟨_, _, rfl⟩
      · split <;> exact ⟨_, _, rfl⟩
  · exact ⟨_, _, rfl⟩

theorem enqueueFromradio_same (encode : Encoder) (evict : PhoneEvict) (a : Api n)
    (m : FromRadio) :
    ∃ q saturated, (a.enqueueFromradio encode evict m).1 = { a with queue := q, saturated } := by
  unfold Api.enqueueFromradio
  cases fromradioFrame encode m with
  | none => exact ⟨_, _, rfl⟩
  | some f => exact enqueueFrame_same a f evict

theorem contents_pushFrameFront :
    (a.pushFrameFront f).1.queue.contents =
      Lost.after a.queue.contents (f :: ·) (a.pushFrameFront f).2 := by
  unfold Api.pushFrameFront
  split
  · next hfull =>
    have hlen := full_iff.mp hfull
    have hpos := pos_of_full a hfull
    have hroom : a.queue.dropBack.contents.length < n := by
      rw [contents_dropBack, length_dropLast]
      omega
    rw [contents_pushFront f hroom, contents_dropBack]
    change f :: a.queue.contents.dropLast = f :: a.queue.contents.eraseIdx (n - 1)
    rw [← eraseIdx_length_sub_one, show a.queue.contents.length - 1 = n - 1 by omega]
  · next hroom => exact contents_pushFront f (length_lt_of_not_full hroom)

end

end Zephyrtastic.PhoneApi
