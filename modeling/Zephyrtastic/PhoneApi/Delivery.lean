import Zephyrtastic.Lib.Run
import Zephyrtastic.PhoneApi.Api

/-!
# The order of delivery

A transport pops a frame, writes it out, and hands it back to the front of the
queue when the write fails. A frame of the queue is then the next one to be popped
again.
-/

namespace Zephyrtastic.PhoneApi

open List Run Api

/-! ## Where the stream ends -/

section
variable {encode : Encoder} {node : Node} {adminAuthorized : Bool} {s : Stream}

/-- Nothing of the stream is left but the lockdown status. -/
def ConfigState.over : ConfigState → Bool
  | .idle | .lockdownStatus => true
  | _ => false

/-- The frame is a `config_complete_id` of the request. -/
def CompleteFrame (encode : Encoder) (requestId : UInt32) (f : Frame) : Prop :=
  ∃ id, encodeFromradioFrame encode ⟨id, .configCompleteId requestId⟩ = some f

/-- A step of the stream stays with its request, and ends it with a `config_complete_id`. -/
structure Ends (encode : Encoder) (out : Option Frame × Stream) (requestId : UInt32) : Prop where
  request : out.2.requestId = requestId
  complete : out.2.state.over = true → ∃ f, out.1 = some f ∧ CompleteFrame encode requestId f

theorem over_of_idle (h : s.active = false) : s.state.over = true := by
  have hstate : s.state = .idle := by simpa [Stream.active] using h
  rw [hstate]
  rfl

theorem emit_ends {p : Payload} {state : ConfigState} {index : Nat} (hs : s.state.over = false)
    (ht : state.over = false) : Ends encode (s.emit encode p state index) s.requestId := by
  unfold Stream.emit
  dsimp only
  split
  · exact ⟨rfl, clash hs⟩
  · exact ⟨rfl, clash ht⟩

theorem sendComplete_ends (hs : s.state.over = false) :
    Ends encode (s.sendComplete encode node) s.requestId := by
  unfold Stream.sendComplete Stream.emit
  dsimp only
  split
  · exact ⟨rfl, clash hs⟩
  · next f hf => exact ⟨rfl, fun _ => ⟨f, rfl, _, hf⟩⟩

theorem sendFilemanifest_ends : Ends encode (s.sendFilemanifest encode node) s.requestId := by
  unfold Stream.sendFilemanifest
  split
  · exact sendComplete_ends rfl
  · exact emit_ends rfl rfl

theorem sendOtherNodeinfos_ends (hs : s.state.over = false) :
    Ends encode (s.sendOtherNodeinfos encode node) s.requestId := by
  unfold Stream.sendOtherNodeinfos
  split
  · exact sendFilemanifest_ends
  next cursor e _ =>
  have hemit : Ends encode ({ s with nodeCursor := cursor }.emit encode
      (fillOtherNodeInfo node e) .otherNodeinfos 0) s.requestId := emit_ends hs rfl
  split
  · next heq => rwa [heq] at hemit
  · next heq =>
    rw [heq] at hemit
    exact { hemit with }

theorem skip_state (k : Nat) (s : Stream) :
    (s.skip k).state = s.state ∧ (s.skip k).requestId = s.requestId := by
  induction k generalizing s with
  | zero => exact ⟨rfl, rfl⟩
  | succ k ih => exact ih _

theorem sendSection_ends {τ : Type} {tags : List τ} {fill : τ → Option Payload}
    {here next : ConfigState} {rest : Stream → Option Frame × Stream}
    (hs : s.state.over = false) (hhere : here.over = false) (hnext : next.over = false)
    (hrest : ∀ t : Stream, t.state.over = false → Ends encode (rest t) t.requestId) :
    Ends encode (s.sendSection encode tags fill here next rest) s.requestId := by
  unfold Stream.sendSection
  split
  · next k _ =>
    have h := hrest { s.skip k with state := next, index := 0 } hnext
    rwa [(skip_state k s).2] at h
  next k p _ =>
  rw [← (skip_state k s).2]
  apply emit_ends
  · rw [(skip_state k s).1]
    exact hs
  · split
    · exact hnext
    · exact hhere

theorem sendModules_ends (hs : s.state.over = false) :
    Ends encode (s.sendModules encode node adminAuthorized) s.requestId := by
  unfold Stream.sendModules
  dsimp only
  split
  · exact sendSection_ends hs rfl rfl fun _ _ => sendFilemanifest_ends
  · exact sendSection_ends hs rfl rfl fun _ ht => sendOtherNodeinfos_ends ht

/-- The stream is over only after a `config_complete_id`. -/
theorem nextConfigFrame_ends (encode : Encoder) (node : Node) (adminAuthorized : Bool)
    (hs : s.state.over = false) :
    Ends encode (nextConfigFrame encode node adminAuthorized s) s.requestId := by
  unfold nextConfigFrame
  cases hstate : s.state with
  | idle | lockdownStatus => exact clash hs (hstate ▸ rfl)
  | myInfo | deviceUi | metadata | regionPresets | queueStatus => exact emit_ends hs rfl
  | nodeInfo =>
    apply emit_ends hs
    split
    · split <;> rfl
    · rfl
  | channels =>
    apply emit_ends hs
    split <;> rfl
  | configs => exact sendSection_ends hs rfl rfl fun _ ht => sendModules_ends ht
  | modules => exact sendModules_ends hs
  | otherNodeinfos => exact sendOtherNodeinfos_ends hs
  | filemanifest => exact sendFilemanifest_ends
  | complete => exact sendComplete_ends hs

theorem nextConfigFrame_over (hs : s.state.over = true) :
    (nextConfigFrame encode node adminAuthorized s).2.state.over = true ∧
      (nextConfigFrame encode node adminAuthorized s).2.requestId = s.requestId := by
  unfold nextConfigFrame
  cases hstate : s.state with
  | idle => exact ⟨hs, rfl⟩
  | lockdownStatus =>
    unfold Stream.sendLockdownStatus
    dsimp only
    split
    · unfold Stream.emit
      dsimp only
      split
      · exact ⟨hs, rfl⟩
      · exact ⟨rfl, rfl⟩
    · exact ⟨rfl, rfl⟩
  | _ =>
    rw [hstate] at hs
    cases hs

end

/-! ## What a transport does -/

/-- A connection, and what happened on it since its last `want_config` or its start. -/
structure Session (n : Nat) where
  api : Api n
  /-- The request the stream answers, none before the first one of the connection. -/
  request : Option UInt32
  /-- The frames `next_config_frame` produced for it. -/
  produced : List Frame
  /-- The frames that reached the client. -/
  delivered : List Frame
  /-- The queue as it was then, and the frames queued since. -/
  waiting : List Frame
  /-- Every frame ever queued. -/
  arrived : List Frame

inductive DeliveryEvent where
  | enqueue (m : FromRadio)
  | wantConfig (nonce : UInt32)
  /-- A frame is popped, other threads queue messages, and it is delivered or handed back. -/
  | attempt (node : Node) (between : List FromRadio) (delivered : Bool)
  | sessionReset

section
variable {n : Nat} (encode : Encoder) (evict : PhoneEvict) (lockdown : Option LockdownView)
variable (s : Session n)

/-- The frame the next pop produces from the config stream. -/
def Api.configFrame (node : Node) (a : Api n) : Option Frame :=
  if a.stream.active then (nextConfigFrame encode node a.adminAuthorized a.stream).1 else none

def Session.enqueue (m : FromRadio) : Session n :=
  { s with
    api := (s.api.enqueueFromradio encode evict m).1
    waiting := s.waiting ++ (fromradioFrame encode m).toList
    arrived := s.arrived ++ (fromradioFrame encode m).toList }

/-- A pop, with what it takes from the config stream. -/
def Session.pop (node : Node) : Session n :=
  { s with
    api := (s.api.popFrame encode node).2
    produced := s.produced ++ (s.api.configFrame encode node).toList }

/-- The end of an attempt with a frame in hand: it reached the client, or it is handed back. -/
def Session.settle (f : Frame) (delivered : Bool) : Session n :=
  if delivered then { s with delivered := s.delivered ++ [f] }
  else { s with api := (s.api.pushFrameFront f).1 }

/-- One frame in `tx_work_handler` and `tcp_drain_tx`. -/
def Session.attempt (node : Node) (between : List FromRadio) (delivered : Bool) : Session n :=
  let popped := between.foldl (Session.enqueue encode evict) (s.pop encode node)
  match (s.api.popFrame encode node).1 with
  | none => popped
  | some f => popped.settle f delivered

/-- What begins anew with a request and with a connection. -/
def Session.begin (api : Api n) (request : Option UInt32) : Session n :=
  { s with api, request, produced := [], delivered := [], waiting := api.queue.contents }

/-- Lockdown does not change in a run. -/
def deliveryStep : DeliveryEvent → Session n
  | .enqueue m => s.enqueue encode evict m
  | .wantConfig nonce => s.begin (s.api.wantConfig nonce) (some nonce)
  | .attempt node between delivered =>
    s.attempt encode evict { node with lockdown } between delivered
  | .sessionReset => s.begin s.api.sessionReset none

def Session.start (a : Api n) : Session n :=
  ⟨a, none, [], [], a.queue.contents, a.queue.contents⟩

/-- No delivery of a config frame fails. -/
def ConfigDelivered : DeliveryEvent → Prop
  | .attempt node _ false => s.api.configFrame encode { node with lockdown } = none
  | _ => True

/-- **One config stream in order, then packets.** What reached the client since its request
is what the stream produced for it, in that order, and then frames of the queue in queue
order; these only once the stream has ended with its `config_complete_id`, and each of them
was queued as a message. -/
def Session.InOrder : Prop :=
  ∃ packets, s.delivered = s.produced ++ packets ∧
    (packets ≠ [] → s.api.stream.active = false ∧
      ∀ nonce, s.request = some nonce → ∃ f ∈ s.produced, CompleteFrame encode nonce f) ∧
    packets.Sublist s.waiting ∧ ∀ f ∈ s.waiting, f ∈ s.arrived

end

/-! ## The queue through the calls -/

section
variable {n : Nat} {encode : Encoder} {evict : PhoneEvict} {lockdown : Option LockdownView}
variable {s : Session n} {packets : List Frame} {f : Frame}

/-- The frames of the queue a connection may be served. -/
def Api.served (lockdown : Option LockdownView) (a : Api n) : List Frame :=
  a.queue.contents.filter (servable ((Node.bare lockdown).authorized a.adminAuthorized))

variable (lockdown s) in
/-- With some frames taken from it, the queue stands in the order it was filled in, and
holds messages only. -/
structure Queued (taken : List Frame) : Prop where
  order : (taken ++ s.api.served lockdown).Sublist s.waiting
  known : ∀ f ∈ s.api.queue.contents, f ∈ s.arrived
  waited : ∀ f ∈ s.waiting, f ∈ s.arrived

theorem Lost.after_sublist {q : List Frame} {put : List Frame → List Frame}
    (hmono : ∀ l l' : List Frame, l.Sublist l' → (put l).Sublist (put l'))
    (hput : ∀ l : List Frame, l.Sublist (put l)) (lost : Option Lost) :
    (Lost.after q put lost).Sublist (put q) := by
  cases lost with
  | none => exact List.Sublist.refl _
  | some l =>
    cases l with
    | queued k => exact hmono _ _ (eraseIdx_sublist q k)
    | incoming => exact hput q

theorem contents_enqueueFromradio (encode : Encoder) (evict : PhoneEvict) (a : Api n)
    (m : FromRadio) :
    (a.enqueueFromradio encode evict m).1.queue.contents.Sublist
      (a.queue.contents ++ (fromradioFrame encode m).toList) := by
  unfold enqueueFromradio
  cases fromradioFrame encode m with
  | none => simp
  | some f =>
    rw [contents_enqueueFrame]
    exact Lost.after_sublist (fun _ _ h => h.append_right _)
      (fun l => sublist_append_left l [f]) _

theorem pushFrameFront_same (a : Api n) (f : Frame) :
    ∃ q, (a.pushFrameFront f).1 = { a with queue := q } := by
  unfold pushFrameFront
  split <;> exact ⟨_, rfl⟩

theorem Queued.enqueue (h : Queued lockdown s packets) (m : FromRadio) :
    Queued lockdown (s.enqueue encode evict m) packets := by
  have hsub := contents_enqueueFromradio encode evict s.api m
  obtain ⟨q, saturated, hsame⟩ := enqueueFromradio_same encode evict s.api m
  have hgrow {l new : List Frame} (hl : ∀ f ∈ l, f ∈ s.arrived) :
      ∀ f ∈ l ++ new, f ∈ s.arrived ++ new :=
    fun f hf => mem_append.mpr ((mem_append.mp hf).imp_left (hl f))
  refine ⟨?_, ?_, ?_⟩
  · simp only [Session.enqueue, served, hsame] at hsub ⊢
    have hserved := (hsub.filter
      (servable ((Node.bare lockdown).authorized s.api.adminAuthorized))).append_left packets
    rw [filter_append, ← append_assoc] at hserved
    exact hserved.trans (h.order.append filter_sublist)
  · exact fun f hf => hgrow h.known f (hsub.subset hf)
  · exact hgrow h.waited

theorem Queued.take {q : Ring Frame n} (h : Queued lockdown s packets)
    (htake : queueTakeServable ((Node.bare lockdown).authorized s.api.adminAuthorized)
      s.api.queue = some (f, q)) (stream : Stream) (produced : List Frame) :
    Queued lockdown { s with api := { s.api with stream, queue := q }, produced }
      (packets ++ [f]) := by
  obtain ⟨pre, post, hcontents, hpre, hserv, hleft⟩ := queueTakeServable_some htake
  have hnone : pre.filter (servable ((Node.bare lockdown).authorized s.api.adminAuthorized)) = [] :=
    filter_eq_nil_iff.mpr fun g hg => by simp [hpre g hg]
  refine ⟨?_, ?_, h.waited⟩
  · have horder := h.order
    simp only [served, hcontents, filter_append, filter_cons, hserv, if_true, hnone,
      nil_append] at horder
    simp only [served, hleft, filter_append, hnone, nil_append]
    rwa [append_assoc, singleton_append]
  · intro g hg
    apply h.known g
    rw [hcontents]
    rw [hleft] at hg
    rcases mem_append.mp hg with hg | hg
    · exact mem_append_left _ hg
    · exact mem_append_right _ (mem_cons_of_mem f hg)

theorem Queued.handBack (h : Queued lockdown s (packets ++ [f]))
    (hserv : servable ((Node.bare lockdown).authorized s.api.adminAuthorized) f = true) :
    Queued lockdown { s with api := (s.api.pushFrameFront f).1 } packets := by
  have hsub : (s.api.pushFrameFront f).1.queue.contents.Sublist (f :: s.api.queue.contents) := by
    rw [contents_pushFrameFront]
    exact Lost.after_sublist (fun _ _ h => h.cons_cons f) (fun l => sublist_cons_self f l) _
  obtain ⟨q, hsame⟩ := pushFrameFront_same s.api f
  have hf : f ∈ s.arrived :=
    h.waited f (h.order.subset (mem_append_left _ (mem_append_right _ (by simp))))
  refine ⟨?_, ?_, h.waited⟩
  · have hserved := (hsub.filter
      (servable ((Node.bare lockdown).authorized s.api.adminAuthorized))).append_left packets
    rw [filter_cons_of_pos hserv] at hserved
    simp only [served, hsame] at hserved ⊢
    refine hserved.trans ?_
    have horder := h.order
    rwa [append_assoc, singleton_append] at horder
  · intro g hg
    rcases mem_cons.mp (hsub.subset hg) with rfl | hold
    · exact hf
    · exact h.known g hold

/-! ## The log of a connection -/

/-- The stream answers the request, and is over only once that is said. -/
def Answers (encode : Encoder) (s : Session n) : Prop :=
  ∀ nonce, s.request = some nonce → s.api.stream.requestId = nonce ∧
    (s.api.stream.state.over = true → ∃ f ∈ s.produced, CompleteFrame encode nonce f)

variable (encode lockdown s) in
/-- The log with a frame in hand: what reached the client and that frame are what the
stream produced and what was taken from the queue. -/
structure Logged (hand packets : List Frame) : Prop where
  log : s.delivered ++ hand = s.produced ++ packets
  waits : s.api.stream.active = true → packets = []
  answers : Answers encode s
  queued : Queued lockdown s packets

theorem Answers.enqueue (h : Answers encode s) (m : FromRadio) :
    Answers encode (s.enqueue encode evict m) := by
  obtain ⟨q, saturated, hsame⟩ := enqueueFromradio_same encode evict s.api m
  intro nonce hreq
  simp only [Session.enqueue, hsame]
  exact h nonce hreq

variable {a : Api n} {node : Node}

theorem Taken.stream {b : Api n} {r : Option Frame} (h : Taken encode node a r b) :
    b.stream = if a.stream.active then
      (nextConfigFrame encode node a.adminAuthorized a.stream).2 else a.stream := by
  cases h with
  | config f s hactive hnext | stalled s hactive hnext hstill => rw [if_pos hactive, hnext]
  | queued f s q hend htake | nothing s hend htake =>
    obtain ⟨hidle, rfl | ⟨hactive, hnext⟩⟩ := hend
    · rw [hidle]
      rfl
    · rw [if_pos hactive, hnext]

theorem Ended.configFrame {t : Stream} (h : Ended encode node a t) :
    a.configFrame encode node = none := by
  unfold Api.configFrame
  obtain ⟨hidle, rfl | ⟨hactive, hnext⟩⟩ := h
  · rw [hidle]
    rfl
  · rw [if_pos hactive, hnext]

theorem Answers.pop (h : Answers encode s) (node : Node) : Answers encode (s.pop encode node) := by
  intro nonce hreq
  obtain ⟨hid, hover⟩ := h nonce hreq
  have hstream := (takeNext_taken encode node s.api).stream
  simp only [Session.pop, popFrame, configFrame, hstream]
  by_cases hactive : s.api.stream.active = true
  · simp only [hactive, if_true]
    cases hstate : s.api.stream.state.over with
    | true =>
      obtain ⟨f, hf, hcomplete⟩ := hover hstate
      exact ⟨(nextConfigFrame_over hstate).2.trans hid,
        fun _ => ⟨f, mem_append_left _ hf, hcomplete⟩⟩
    | false =>
      have hends := nextConfigFrame_ends encode node s.api.adminAuthorized hstate
      rw [hid] at hends
      refine ⟨hends.request, fun hnow => ?_⟩
      obtain ⟨f, hf, hcomplete⟩ := hends.complete hnow
      exact ⟨f, mem_append_right _ (by simp [hf]), hcomplete⟩
  · simp only [hactive, Bool.false_eq_true, if_false]
    refine ⟨hid, fun hnow => ?_⟩
    obtain ⟨f, hf, hcomplete⟩ := hover hnow
    exact ⟨f, mem_append_left _ hf, hcomplete⟩

variable {hand : List Frame}

theorem Logged.enqueue (h : Logged encode lockdown s hand packets) (m : FromRadio) :
    Logged encode lockdown (s.enqueue encode evict m) hand packets := by
  refine ⟨h.log, ?_, h.answers.enqueue m, h.queued.enqueue m⟩
  obtain ⟨q, saturated, hsame⟩ := enqueueFromradio_same encode evict s.api m
  simp only [Session.enqueue, hsame]
  exact h.waits

theorem Logged.enqueues (h : Logged encode lockdown s hand packets) (evict : PhoneEvict)
    (between : List FromRadio) :
    Logged encode lockdown (between.foldl (Session.enqueue encode evict) s) hand packets := by
  induction between generalizing s with
  | nil => exact h
  | cons m rest ih => exact ih (h.enqueue m)

/-- A frame that comes from the queue: the last one taken from it. -/
def FromQueue (lockdown : Option LockdownView) (s : Session n) (packets : List Frame)
    (f : Frame) : Prop :=
  servable ((Node.bare lockdown).authorized s.api.adminAuthorized) f = true ∧
    ∃ earlier, packets = earlier ++ [f]

theorem Logged.pop (node : Node) (h : Logged encode node.lockdown s [] packets) :
    ∃ packets', Logged encode node.lockdown (s.pop encode node)
        (s.api.popFrame encode node).1.toList packets' ∧
      ∀ f, (s.api.popFrame encode node).1 = some f → s.api.configFrame encode node = none →
        FromQueue node.lockdown s packets' f := by
  have hlog := h.log
  rw [append_nil] at hlog
  have hanswers := h.answers.pop node
  have htaken := takeNext_taken encode node s.api
  simp only [Session.pop, popFrame] at hanswers ⊢
  generalize (s.api.takeNext encode node).1 = r at htaken ⊢
  generalize (s.api.takeNext encode node).2 = b at htaken hanswers ⊢
  cases htaken with
  | config f t hactive hnext =>
    have hconfig : s.api.configFrame encode node = some f := by
      simp only [configFrame, hactive, if_true, hnext]
    rw [hconfig] at hanswers ⊢
    have hnil := h.waits hactive
    refine ⟨[], ⟨?_, fun _ => rfl, hanswers, ?_⟩, nofun⟩
    · rw [hlog, hnil, append_nil, append_nil]
    · obtain ⟨horder, hknown, hwaited⟩ := h.queued
      rw [hnil] at horder
      exact ⟨horder, hknown, hwaited⟩
  | stalled t hactive hnext hstill =>
    have hconfig : s.api.configFrame encode node = none := by
      simp only [configFrame, hactive, if_true, hnext]
    rw [hconfig] at hanswers ⊢
    refine ⟨packets, ⟨?_, fun _ => h.waits hactive, hanswers, ?_⟩, nofun⟩
    · simpa using hlog
    · exact { h.queued with }
  | queued f t q hend htake =>
    rw [hend.configFrame] at hanswers ⊢
    refine ⟨packets ++ [f], ⟨?_, ?_, hanswers, ?_⟩, ?_⟩
    · simp [hlog]
    · intro hactive
      rw [hend.1] at hactive
      cases hactive
    · exact h.queued.take htake t _
    · rintro g hg -
      cases hg
      obtain ⟨-, -, -, -, hserv, -⟩ := queueTakeServable_some htake
      exact ⟨hserv, packets, rfl⟩
  | nothing t hend htake =>
    rw [hend.configFrame] at hanswers ⊢
    refine ⟨packets, ⟨?_, ?_, hanswers, ?_⟩, nofun⟩
    · simpa using hlog
    · intro hactive
      rw [hend.1] at hactive
      cases hactive
    · exact { h.queued with }

theorem Logged.deliver (h : Logged encode lockdown s [f] packets) :
    Logged encode lockdown (s.settle f true) [] packets := by
  refine ⟨?_, h.waits, h.answers, { h.queued with }⟩
  simp only [Session.settle, if_true, append_nil]
  exact h.log

theorem Logged.handBack (h : Logged encode lockdown s [f] packets)
    (hf : FromQueue lockdown s packets f) :
    ∃ earlier, Logged encode lockdown (s.settle f false) [] earlier := by
  obtain ⟨hserv, earlier, rfl⟩ := hf
  obtain ⟨q, hsame⟩ := pushFrameFront_same s.api f
  have hstream : (s.settle f false).api.stream = s.api.stream :=
    (congrArg stream hsame :)
  refine ⟨earlier, ?_, ?_, ?_, h.queued.handBack hserv⟩
  · have hlog := h.log
    rw [← append_assoc] at hlog
    rw [append_nil]
    exact append_cancel_right hlog
  · intro hactive
    rw [hstream] at hactive
    exact absurd (h.waits hactive) (by simp)
  · intro nonce hreq
    rw [hstream]
    exact h.answers nonce hreq

theorem foldl_enqueue_adminAuthorized (between : List FromRadio) (s : Session n) :
    (between.foldl (Session.enqueue encode evict) s).api.adminAuthorized =
      s.api.adminAuthorized := by
  induction between generalizing s with
  | nil => rfl
  | cons m rest ih =>
    obtain ⟨q, saturated, hsame⟩ := enqueueFromradio_same encode evict s.api m
    refine (ih _).trans ?_
    simp only [Session.enqueue, hsame]

section
variable (h : Logged encode lockdown s [] packets)
include h

theorem Logged.attempt {between : List FromRadio} {delivered : Bool}
    (hok : ConfigDelivered encode lockdown s (.attempt node between delivered)) :
    ∃ packets', Logged encode lockdown
      (s.attempt encode evict { node with lockdown } between delivered) [] packets' := by
  obtain ⟨packets', hpop, hqueue⟩ := Logged.pop { node with lockdown } h
  have hmid := hpop.enqueues evict between
  unfold Session.attempt
  cases hr : (s.api.popFrame encode { node with lockdown }).1 with
  | none =>
    rw [hr] at hmid
    exact ⟨packets', hmid⟩
  | some f =>
    rw [hr] at hmid
    cases delivered with
    | true => exact ⟨packets', hmid.deliver⟩
    | false =>
      obtain ⟨hserv, hlast⟩ := hqueue f hr hok
      refine hmid.handBack ⟨?_, hlast⟩
      rw [foldl_enqueue_adminAuthorized]
      rw [show (s.pop encode { node with lockdown }).api.adminAuthorized = s.api.adminAuthorized
        from (takeNext_taken encode { node with lockdown } s.api).adminAuthorized]
      exact hserv

theorem Logged.begin {request : Option UInt32} (hq : a.queue = s.api.queue)
    (hanswers : ∀ nonce, request = some nonce →
      a.stream.requestId = nonce ∧ a.stream.state.over = false) :
    Logged encode lockdown (s.begin a request) [] [] where
  log := rfl
  waits := fun _ => rfl
  answers := fun nonce hreq =>
    ⟨(hanswers nonce hreq).1, clash (hanswers nonce hreq).2⟩
  queued := by
    have hknown : ∀ f ∈ a.queue.contents, f ∈ s.arrived := hq ▸ h.queued.known
    exact ⟨filter_sublist, hknown, hknown⟩

theorem step_logged {e : DeliveryEvent} (hok : ConfigDelivered encode lockdown s e) :
    ∃ packets', Logged encode lockdown (deliveryStep encode evict lockdown s e) [] packets' := by
  cases e with
  | enqueue m => exact ⟨packets, h.enqueue m⟩
  | wantConfig nonce =>
    refine ⟨[], h.begin rfl ?_⟩
    intro nonce' heq
    cases heq
    refine ⟨rfl, ?_⟩
    simp only [wantConfig, Stream.wantConfig]
    split <;> rfl
  | attempt node between delivered => exact h.attempt hok
  | sessionReset => exact ⟨[], h.begin rfl nofun⟩

end

theorem start_logged (a : Api n) : Logged encode lockdown (.start a) [] [] where
  log := rfl
  waits := fun _ => rfl
  answers := nofun
  queued := ⟨filter_sublist, fun _ hf => hf, fun _ hf => hf⟩

/-- A frame of the queue that is handed back is the next one to be popped. -/
theorem pop_again (hconfig : a.configFrame encode node = none)
    (hpop : (a.popFrame encode node).1 = some f) :
    ((((a.popFrame encode node).2.pushFrameFront f).1).popFrame encode node).1 = some f := by
  have htaken := takeNext_taken encode node a
  unfold popFrame at hpop ⊢
  rw [hpop] at htaken
  generalize (a.takeNext encode node).2 = b at htaken ⊢
  cases htaken with
  | config f t hactive hnext =>
    simp only [configFrame, hactive, if_true, hnext] at hconfig
    cases hconfig
  | queued f t q hend htake =>
    obtain ⟨-, -, -, -, hserv, -⟩ := queueTakeServable_some htake
    obtain ⟨p, hsame⟩ := pushFrameFront_same { a with stream := t, queue := q } f
    obtain ⟨rest, hrest⟩ : ∃ rest,
        ({ a with stream := t, queue := q }.pushFrameFront f).1.queue.contents = f :: rest := by
      rw [contents_pushFrameFront]
      unfold pushFrameFront
      split <;> exact ⟨_, rfl⟩
    rw [hsame] at hrest ⊢
    obtain ⟨q', htake'⟩ := queueTakeServable_first hrest hserv
    simp only [takeNext, hend.1, Bool.false_eq_true, if_false, takeQueued, htake']

/-- **One config stream in order, then packets.** Where no delivery of a config frame
fails, a client sees the frames of its stream in order and then those of the queue in
order, whatever is queued, requested and handed back in between; and a frame of the queue
that is popped and handed back is popped again. -/
theorem config_then_packets {n : Nat} (encode : Encoder) (evict : PhoneEvict)
    (lockdown : Option LockdownView) (a : Api n) (events : List DeliveryEvent)
    (hok : Guarded (deliveryStep encode evict lockdown) (ConfigDelivered encode lockdown)
      (.start a) events) :
    (run (deliveryStep encode evict lockdown) (.start a) events).InOrder encode ∧
      ∀ (b : Api n) (node : Node) (f : Frame), b.configFrame encode node = none →
        (b.popFrame encode node).1 = some f →
        ((((b.popFrame encode node).2.pushFrameFront f).1).popFrame encode node).1 = some f := by
  constructor
  · obtain ⟨packets, h⟩ := run_keeps
      (fun s => ∃ packets, Logged encode lockdown s [] packets) ⟨[], start_logged a⟩
      (fun _ e hinv hok => by
        obtain ⟨packets, h⟩ := hinv
        exact step_logged h hok) hok
    refine ⟨packets, ?_, ?_, ?_, h.queued.waited⟩
    · rw [← h.log, append_nil]
    · intro hne
      have hidle : (run (deliveryStep encode evict lockdown) (.start a) events).api.stream.active =
          false := by
        rw [← Bool.not_eq_true]
        exact fun hactive => hne (h.waits hactive)
      exact ⟨hidle, fun nonce hreq => (h.answers nonce hreq).2 (over_of_idle hidle)⟩
    · exact (sublist_append_left _ _).trans h.queued.order
  · intro b node f hconfig hpop
    exact pop_again hconfig hpop

/-- A text waits, a client asks for the nodes, and the first delivery of the text fails. -/
theorem config_then_packets_handed_back :
    let events : List DeliveryEvent :=
      [.enqueue ⟨9, .packet (.decoded 1 [])⟩, .wantConfig nonceOnlyNodes,
        .attempt (.bare none) [] true, .attempt (.bare none) [] true,
        .attempt (.bare none) [] false, .attempt (.bare none) [] true]
    let start : Session 2 := .start (.init (by decide) false 1)
    let s := run (deliveryStep idEncoder .protect none) start events
    s.delivered.map (·.data) = [[1], [2], [9]] ∧ s.InOrder idEncoder := by
  refine ⟨by decide +kernel, (config_then_packets idEncoder .protect none _ _ ?_).1⟩
  simp only [guarded_cons]
  exact ⟨trivial, trivial, trivial, trivial, rfl, trivial, guarded_nil⟩

/-- The first frame of a stream cannot be delivered and is handed back. The next pop gives
another frame, and the next client is served the first one after its own stream. -/
theorem stale_config_frame :
    let events : List DeliveryEvent :=
      [.wantConfig 7, .attempt (.bare none) [] false, .sessionReset, .wantConfig nonceOnlyNodes,
        .attempt (.bare none) [] true, .attempt (.bare none) [] true,
        .attempt (.bare none) [] true]
    let start : Api 2 := .init (by decide) false 1
    let s := run (deliveryStep idEncoder .protect none) (.start start) events
    let first := (start.wantConfig 7).popFrame idEncoder (.bare none)
    let handed : Frame := ⟨[1], .status, false⟩
    first.1 = some handed ∧
      ((first.2.pushFrameFront handed).1.popFrame idEncoder (.bare none)).1 =
        some ⟨[2], .status, false⟩ ∧
      s.produced.map (·.data) = [[2], [3]] ∧ s.delivered.map (·.data) = [[2], [3], [1]] ∧
      s.arrived = [] ∧ ¬ s.InOrder idEncoder := by
  refine ⟨by decide +kernel, by decide +kernel, by decide +kernel, by decide +kernel,
    by decide +kernel, ?_⟩
  rintro ⟨packets, -, -, -, hknown⟩
  exact absurd (hknown ⟨[1], .status, false⟩ (by decide +kernel)) (by decide +kernel)

end

end Zephyrtastic.PhoneApi
