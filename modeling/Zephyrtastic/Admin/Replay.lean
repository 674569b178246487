import Zephyrtastic.Admin.Node

/-!
# Replays of a remote write

A write carries the passkey of the session, which is good for 300 seconds, and its
frame is in the duplicate cache from the moment it is first received.
-/

namespace Zephyrtastic.Admin

open List Option

open NodeDb (Key)
open Pki (Content)
open Router (Wire Action Injection DupCache broadcast)
open Run

/-- The passkey of a write is still good. -/
def Node.live {cfg : Config} (n : Node cfg) (x : Write) : Bool :=
  n.session.any (·.valid n.now x.passkey)

/-- If a packet is entered into the cache, it does not take the cell of a write whose passkey is
still good. -/
def Node.Spares {cfg : Config} (n : Node cfg) (acts : List Action) : Prop :=
  acts.any Action.isRecorded = true → ∀ x ∈ n.writes, n.live x = true →
    (n.router.cache.cells n.router.cache.head).key ≠ x.parcel.key

/-- A packet that is entered spares the writes, and a new passkey is one that was not issued
before. -/
def Sheltered (cfg : Config) (n : Node cfg) (e : Nat × Event) : Prop :=
  match e.2 with
  | .frame a => (n.wait e.1).Spares ((n.wait e.1).receive a).2
  | .downlink inj => (n.wait e.1).Spares ((n.wait e.1).inject inj).2
  | .respond random =>
    n.session.any (·.current (n.wait e.1).now) = true ∨ random ∉ n.issued
  | _ => True

instance {cfg : Config} (n : Node cfg) (acts : List Action) : Decidable (n.Spares acts) := by
  unfold Node.Spares
  infer_instance

instance (cfg : Config) (n : Node cfg) (e : Nat × Event) : Decidable (Sheltered cfg n e) := by
  unfold Sheltered
  split <;> infer_instance

/-- Nobody makes a sealed frame that says one thing under one key and another under the next:
each frame that opens says what it means. -/
def Means (cfg : Config) (meaning : Parcel → Content) (a : Arrival) : Prop :=
  ∀ key (p : Parcel) c, Pki.Opens (a.pki cfg) key p.src p.id p.payload c → c = meaning p

/-- What holds of the writes that were applied: each was applied once, its passkey is the one in
its frame, and while that is good the cache has the frame. -/
structure Remembered {cfg : Config} (meaning : Parcel → Content) (n : Node cfg) : Prop where
  once : (n.writes.map (·.parcel)).Nodup
  passkey : ∀ x ∈ n.writes,
    (cfg.pb.adminMessage (meaning x.parcel).payload).map Prod.snd = some x.passkey
  session : ∀ s, n.session = some s → s.key ∈ n.issued ∧ s.born ≤ nowSeconds n.now
  issued : ∀ x ∈ n.writes, ∃ key ∈ n.issued, key.bytes = x.passkey
  held : ∀ x ∈ n.writes, ∀ s, n.session = some s → s.valid n.now x.passkey = true →
    s.born * 1000 ≤ x.ms ∧ x.ms ≤ n.now ∧
      ∃ i, n.router.cache.stamps i = (x.parcel.key, UInt32.ofNat x.ms)

section
variable {cfg : Config} {meaning : Parcel → Content} {n m : Node cfg} {a : Arrival} {w : Wire}

theorem Remembered.init (ms : Nat) (keys : Pki.State) :
    Remembered meaning (Node.init cfg ms keys) :=
  ⟨nodup_nil, nofun, nofun, nofun, nofun⟩

theorem valid_earlier {s : Session} {ms later : Nat} {key : Bytes} (hle : ms ≤ later)
    (h : s.valid later key = true) : s.valid ms key = true := by
  rw [Session.valid_iff] at h ⊢
  have hseconds : nowSeconds ms ≤ nowSeconds later := Nat.div_le_div_right hle
  exact ⟨Nat.lt_of_le_of_lt hseconds h.1, h.2⟩

theorem Remembered.wait (h : Remembered meaning n) (elapsed : Nat) :
    Remembered meaning (n.wait elapsed) := by
  have hle : n.now ≤ n.now + elapsed := Nat.le_add_right _ _
  refine { h with session := fun s hs => ?_, held := fun x hx s hs hvalid => ?_ }
  · obtain ⟨hkey, hborn⟩ := h.session s hs
    exact ⟨hkey, Nat.le_trans hborn (Nat.div_le_div_right hle)⟩
  · obtain ⟨hborn, hpast, hcell⟩ := h.held x hx s hs (valid_earlier hle hvalid)
    exact ⟨hborn, Nat.le_trans hpast hle, hcell⟩

theorem Remembered.cache (h : Remembered meaning n) (hnow : m.now = n.now)
    (hsession : m.session = n.session) (hissued : m.issued = n.issued)
    (hwrites : m.writes = n.writes)
    (hkeeps : ∀ x ∈ n.writes, n.live x = true → ∀ i,
      n.router.cache.stamps i = (x.parcel.key, UInt32.ofNat x.ms) →
      m.router.cache.stamps i = n.router.cache.stamps i) : Remembered meaning m := by
  refine ⟨hwrites ▸ h.once, hwrites ▸ h.passkey, ?_, ?_, ?_⟩
  · rw [hsession, hissued, hnow]
    exact h.session
  · rw [hwrites, hissued]
    exact h.issued
  · rw [hwrites, hsession, hnow]
    intro x hx s hs hvalid
    obtain ⟨hborn, hpast, i, hi⟩ := h.held x hx s hs hvalid
    have hlive : n.live x = true := by
      rw [Node.live, hs]
      exact hvalid
    exact ⟨hborn, hpast, i, (hkeeps x hx hlive i hi).trans hi⟩

theorem sight_keeps {s : Router.State cfg.router} {e : Router.Event}
    {out : Router.State cfg.router × List Action} (h : Router.Sight s e out)
    {i : Fin cfg.router.size}
    (hi : out.2.any Action.isRecorded = true → i ≠ s.cache.head) :
    out.1.cache.stamps i = s.cache.stamps i := by
  cases h with
  | aside stamps => exact congrFun stamps i
  | entered k fresh stamps =>
    refine (congrFun stamps i).trans (Function.update_of_ne (hi ?_) ..)
    simp [Action.isRecorded]

variable {x : Write}

theorem Node.Spares.keeps {acts : List Action} (h : n.Spares acts) (hx : x ∈ n.writes)
    (hlive : n.live x = true) {i : Fin cfg.router.size}
    (hi : n.router.cache.stamps i = (x.parcel.key, UInt32.ofNat x.ms)) :
    acts.any Action.isRecorded = true → i ≠ n.router.cache.head := by
  intro hrecorded hhead
  refine h hrecorded x hx hlive ?_
  rw [← hhead]
  exact congrArg Prod.fst hi

theorem admin_entered (hw : a.frame.rx.wire = some w) (h : .admin w.key ∈ (n.routed a w).2) :
    n.router.cache.fresh? cfg.router.ttlMs (UInt32.ofNat n.now) w.key = none ∧
      (n.routed a w).1.cache.stamps n.router.cache.head = (w.key, UInt32.ofNat n.now) := by
  have hwire : (n.answeredRx a w).wire = some w := hw
  obtain ⟨hdecodes, d, hdecode, hpasses, -⟩ := Router.handed_processRx hwire rfl h
  have hdispatch : .dispatch w.key n.now ∈ (n.routed a w).2 := by
    refine (Router.dispatch_iff n.router hwire).mpr ?_
    unfold Router.decodes at hdecodes
    rw [Router.dispatches, hdecodes, hdecode]
    exact hpasses
  have hsight := Router.rx_sight n.router (n.answeredRx a w)
  change Router.Sight n.router (.rx (n.answeredRx a w)) (n.routed a w) at hsight
  generalize n.routed a w = out at hdispatch hsight ⊢
  cases hsight with
  | aside stamps head quiet => exact Bool.noConfusion (quiet _ hdispatch)
  | entered k fresh stamps head hands =>
    have hk : k = w.key := by
      simp only [mem_cons, reduceCtorEq, false_or] at hdispatch
      rcases hands.1 _ hdispatch with hq | heq
      · exact Bool.noConfusion hq
      · exact (Action.dispatch.inj heq).1.symm
    subst hk
    exact ⟨fresh, (congrFun stamps _).trans (Function.update_self ..)⟩

theorem write_some (h : n.write a w = some x) :
    .admin w.key ∈ (n.routed a w).2 ∧ x.parcel = parcelOf w ∧ x.ms = n.now ∧
      (∃ key c, Pki.Opens (a.pki cfg) key w.src w.id w.payload c ∧
        (cfg.pb.adminMessage c.payload).map Prod.snd = some x.passkey) ∧
      ∃ s, n.session = some s ∧ x.passkey = s.key.bytes ∧ s.valid n.now x.passkey = true := by
  unfold Node.write at h
  split at h
  · cases h
  next variant passkey happlied =>
  split at h
  swap
  · cases h
  next hwrite =>
  obtain rfl := some.inj h
  unfold Node.applied at happlied
  split at happlied
  · cases happlied
  next c hc =>
  split at happlied
  swap
  · cases happlied
  next hadmin =>
  obtain ⟨hpki, hmessage, s, hs, hkey, hvalid⟩ := handleRemote_some happlied hwrite
  obtain ⟨c', hc', hopened⟩ := Router.reading_pki hpki
  obtain rfl : c = c' := mem_unique hc hc'
  have hopens : ∃ key, Pki.Opens (a.pki cfg) key w.src w.id w.payload c := by
    cases hopened with
    | peer key _ h => exact ⟨key, h⟩
    | admin key _ h => exact ⟨key, h⟩
  obtain ⟨key, hopens⟩ := hopens
  have hmessage : cfg.pb.adminMessage c.payload = some (variant, passkey) := hmessage
  exact ⟨hadmin, rfl, rfl, ⟨key, c, hopens, by rw [hmessage]; rfl⟩, s, hs, hkey,
    Session.valid_iff.mpr ⟨hvalid, hkey⟩⟩

theorem Remembered.push (h : Remembered meaning m) {s : Session}
    (hnew : x.parcel ∉ m.writes.map (·.parcel))
    (hpasskey : (cfg.pb.adminMessage (meaning x.parcel).payload).map Prod.snd = some x.passkey)
    (hs : m.session = some s) (hkey : x.passkey = s.key.bytes) (hms : x.ms = m.now)
    (hcell : ∃ i, m.router.cache.stamps i = (x.parcel.key, UInt32.ofNat x.ms)) :
    Remembered meaning { m with writes := x :: m.writes } := by
  obtain ⟨hissued, hborn⟩ := h.session s hs
  refine ⟨nodup_cons.mpr ⟨hnew, h.once⟩, ?_, h.session, ?_, ?_⟩
  · intro y hy
    rcases mem_cons.mp hy with rfl | hold
    · exact hpasskey
    · exact h.passkey y hold
  · intro y hy
    rcases mem_cons.mp hy with rfl | hold
    · exact ⟨s.key, hissued, hkey.symm⟩
    · exact h.issued y hold
  · intro y hy s' hs' hvalid
    rcases mem_cons.mp hy with rfl | hold
    · obtain rfl : s = s' := mem_unique hs hs'
      have hlater : s.born * 1000 ≤ m.now := by
        simp only [nowSeconds] at hborn
        omega
      exact ⟨hms ▸ hlater, Nat.le_of_eq hms, hcell⟩
    · exact h.held y hold s' hs' hvalid

theorem Remembered.respond (h : Remembered meaning n) {random : Passkey}
    (hok : n.session.any (·.current n.now) = true ∨ random ∉ n.issued) :
    Remembered meaning (n.respond random) := by
  unfold Node.respond sessionCurrent
  by_cases hcurrent : n.session.any (·.current n.now) = true
  · rw [if_pos hcurrent, if_pos hcurrent]
    exact h
  rw [if_neg hcurrent, if_neg hcurrent]
  have hnew : random ∉ n.issued := hok.resolve_left hcurrent
  refine ⟨h.once, h.passkey, ?_, ?_, ?_⟩
  · intro s hs
    obtain rfl := some.inj hs
    exact ⟨mem_cons_self, Nat.le_refl _⟩
  · intro x hx
    obtain ⟨key, hkey, hbytes⟩ := h.issued x hx
    exact ⟨key, mem_cons_of_mem _ hkey, hbytes⟩
  · intro x hx s hs hvalid
    -- no write has carried the new passkey
    obtain rfl := some.inj hs
    obtain ⟨⟨bytes, len⟩, hkey, hbytes⟩ := h.issued x hx
    have hsame : (⟨bytes, len⟩ : Passkey) = random := by
      cases random
      simpa using hbytes.trans (Session.valid_iff.mp hvalid).2
    exact absurd (hsame ▸ hkey) hnew

section
variable (h : Remembered meaning n)
  (httl : cfg.router.dedupTtlSec = 0 ∨ validSeconds ≤ cfg.router.dedupTtlSec.toNat)
include h httl

theorem Remembered.fresh (hx : x ∈ n.writes) (hlive : n.live x = true) :
    n.router.cache.fresh? cfg.router.ttlMs (UInt32.ofNat n.now) x.parcel.key ≠ none := by
  intro hnone
  obtain ⟨s, hs, hvalid⟩ := (any_eq_true _ _).mp hlive
  obtain ⟨hborn, hpast, i, hi⟩ := h.held x hx s hs hvalid
  obtain ⟨hkey, hms⟩ := Prod.mk.inj hi
  have hexpired := (DupCache.fresh?_none.mp hnone) i hkey
  rw [Router.DupEntry.expired, hms, UInt32.lt_iff_toNat_lt, cfg.router.ttlMs_toNat] at hexpired
  obtain ⟨hzero, hage⟩ := hexpired
  rcases httl with hoff | hlong
  · refine hzero ?_
    rw [Router.Config.ttlMs, hoff]
    rfl
  have hle := Router.age_le hpast
  have hgood := (Session.valid_iff.mp hvalid).1
  simp only [nowSeconds, validSeconds] at hgood hlong
  omega

/-- A frame that the cache does not have was not applied with the same passkey. -/
theorem Remembered.unseen (hlive : n.live x = true)
    (hpasskey : (cfg.pb.adminMessage (meaning x.parcel).payload).map Prod.snd = some x.passkey)
    (hfresh : n.router.cache.fresh? cfg.router.ttlMs (UInt32.ofNat n.now) x.parcel.key = none) :
    x.parcel ∉ n.writes.map (·.parcel) := by
  intro hmem
  obtain ⟨y, hy, hsame⟩ := mem_map.mp hmem
  have hequal : y.passkey = x.passkey := by
    have hsaid := h.passkey y hy
    rw [hsame, hpasskey] at hsaid
    exact (some.inj hsaid).symm
  apply h.fresh httl hy
  · rw [Node.live, hequal]
    exact hlive
  · rw [hsame]
    exact hfresh

theorem Remembered.receive (hmeans : Means cfg meaning a)
    (hspares : n.Spares (n.receive a).2) : Remembered meaning (n.receive a).1 := by
  unfold Node.receive at hspares ⊢
  cases hw : a.frame.rx.wire with
  | none => exact h
  | some w =>
    rw [hw] at hspares
    dsimp only at hspares ⊢
    have hkept : Remembered meaning { n with
        router := (n.routed a w).1
        keys := n.keysAfter a w
        table := (n.taken a w).1
        answered := (n.taken a w).2.toList ++ n.answered } :=
      h.cache rfl rfl rfl rfl fun x hx hlive i hi =>
        sight_keeps (Router.rx_sight n.router (n.answeredRx a w)) (hspares.keeps hx hlive hi)
    cases hwrite : n.write a w with
    | none => exact hkept
    | some x =>
      obtain ⟨hadmin, hparcel, hms, ⟨key, c, hopens, hmessage⟩, s, hs, hkey, hvalid⟩ :=
        write_some hwrite
      obtain rfl : c = meaning x.parcel := hparcel ▸ hmeans key (parcelOf w) c hopens
      obtain ⟨hfresh, hentered⟩ := admin_entered hw hadmin
      have hlive : n.live x = true := by
        rw [Node.live, hs]
        exact hvalid
      have hnew : x.parcel ∉ n.writes.map (·.parcel) := by
        apply h.unseen httl hlive hmessage
        rw [hparcel]
        exact hfresh
      apply hkept.push hnew hmessage hs hkey hms
      rw [hms, hparcel]
      exact ⟨n.router.cache.head, hentered⟩

theorem Remembered.step {e : Nat × Event}
    (hmeans : ∀ a, e.2 = .frame a → Means cfg meaning a)
    (hok : Sheltered cfg n e) : Remembered meaning (step cfg n e) := by
  obtain ⟨elapsed, ev⟩ := e
  have h := h.wait elapsed
  have hsame {m : Node cfg} (hnow : m.now = (n.wait elapsed).now)
      (hsession : m.session = (n.wait elapsed).session)
      (hissued : m.issued = (n.wait elapsed).issued)
      (hwrites : m.writes = (n.wait elapsed).writes)
      (hrouter : m.router = (n.wait elapsed).router) : Remembered meaning m :=
    h.cache hnow hsession hissued hwrites fun _ _ _ _ _ => by rw [hrouter]
  cases ev with
  | frame a => exact h.receive httl (hmeans a rfl) hok
  | downlink inj =>
    refine h.cache rfl rfl rfl rfl fun x hx hlive i hi => ?_
    exact sight_keeps (Router.inject_sight _ { inj with ms := (n.wait elapsed).now })
      (Node.Spares.keeps hok hx hlive hi)
  | respond random => exact h.respond hok
  | relay q =>
    change Remembered meaning ((n.wait elapsed).noteOutgoingRequest q)
    unfold Node.noteOutgoingRequest
    repeat' split
    all_goals exact hsame rfl rfl rfl rfl rfl
  | store ev hev | pki pending tokens stampMs => exact hsame rfl rfl rfl rfl rfl

end

end

/-- Whoever sends what, and however often: if entries of the cache outlive a passkey, no packet
takes the cell of a write whose passkey is good, no passkey is issued twice and no sealed frame has
two meanings, then no frame's write is applied twice. -/
theorem write_applied_once (cfg : Config)
    (httl : cfg.router.dedupTtlSec = 0 ∨ validSeconds ≤ cfg.router.dedupTtlSec.toNat)
    (meaning : Parcel → Content) (ms : Nat) (keys : Pki.State) (es : List (Nat × Event))
    (hmeans : ∀ e ∈ es, ∀ a, e.2 = .frame a → Means cfg meaning a)
    (hes : Guarded (step cfg) (Sheltered cfg) (.init cfg ms keys) es) :
    ((run (step cfg) (.init cfg ms keys) es).writes.map (·.parcel)).Nodup := by
  have hguard : Guarded (step cfg) (fun n e => Sheltered cfg n e ∧
      ∀ a, e.2 = .frame a → Means cfg meaning a) (.init cfg ms keys) es :=
    fun done e hp => ⟨hes done e hp, hmeans e (hp.subset (by simp))⟩
  exact (run_keeps (Remembered meaning) (Remembered.init ms keys)
    (fun _ e h hok => h.step httl hok.2 hok.1) hguard).once

/-! ### A write, and the same frame again -/

def toyPasskey : Passkey := ⟨replicate sessionKeyLen 33, length_replicate⟩

/-- A write of node 0x22, whose key is an admin key. -/
def toyWrite : Bytes := [7, 6, 0, 32] ++ replicate 9 33

def toyWriteFrame : Event := .frame (toyArrival 0x11 9 toyWrite none)

/-- Any other frame. -/
def toyNoise (id : UInt32) : Event := .frame (toyArrival broadcast id [] (some ⟨1, 0, []⟩))

/-- Node 0x22 is heard, a response goes out, and the write comes in. -/
def toyWritten : List (Nat × Event) :=
  [toyHeardPeer, (0, .respond toyPasskey), (1000, toyWriteFrame)]

def toyMeaning (p : Parcel) : Content := (toyCipher.decode (p.payload.drop 1)).getD ⟨0, 0, []⟩

theorem toyArrival_means (dest id : UInt32) (sealedPayload : Bytes) (channel : Option Content) :
    Means toyNode toyMeaning (toyArrival dest id sealedPayload channel) := by
  rintro key p c ⟨plain, hopen, hread⟩
  have hopened : (if p.payload.take 1 = key.bytes.take 1 then some (p.payload.drop 1) else none) =
      some plain := Pki.decryptWith_ok hopen
  split at hopened
  · obtain rfl := some.inj hopened
    have hdecode : toyCipher.decode (p.payload.drop 1) = some c := Pki.readContent_ok hread
    rw [toyMeaning, hdecode]
    rfl
  · cases hopened

/-- Two copies of the write, with another frame between. -/
def toyCopies : List (Nat × Event) :=
  toyWritten ++ [(1000, toyNoise 1), (1000, toyWriteFrame)]

theorem toyWrite_applied_once :
    (run (step toyNode) (.init toyNode 0 toyKeys) toyCopies).writes.length = 1 ∧
      ((run (step toyNode) (.init toyNode 0 toyKeys) toyCopies).writes.map (·.parcel)).Nodup := by
  refine ⟨by decide +kernel, write_applied_once toyNode (by decide) toyMeaning 0 toyKeys toyCopies
    ?_ (by decide +kernel)⟩
  intro e he a ha
  simp only [toyCopies, toyWritten, toyHeardPeer, toyWriteFrame, toyNoise, cons_append,
    nil_append, mem_cons, not_mem_nil, or_false] at he
  rcases he with rfl | rfl | rfl | rfl | rfl <;> cases ha <;> exact toyArrival_means _ _ _ _

/-- Four frames, as many as the cache has cells, and the write again. -/
def toyFlood : List (Nat × Event) :=
  toyWritten ++ [(1000, toyNoise 1), (0, toyNoise 2), (0, toyNoise 3), (0, toyNoise 4),
    (0, toyWriteFrame)]

/-- A node whose cache forgets after a minute. -/
def toyForgetful : Config :=
  { toyNode with router := { Router.gatewayNode with dedupTtlSec := 60 } }

/-- Two seconds after the passkey was issued the flood has the write applied again; where the cache
forgets sooner than the passkey ends, it takes no flood. -/
theorem write_replayed :
    (run (step toyNode) (.init toyNode 0 toyKeys) toyFlood).writes.map (·.parcel) =
        [⟨0x22, 9, toyWrite⟩, ⟨0x22, 9, toyWrite⟩] ∧
      (run (step toyForgetful) (.init toyForgetful 0 toyKeys)
        (toyWritten ++ [(61000, toyWriteFrame)])).writes.map (·.parcel) =
        [⟨0x22, 9, toyWrite⟩, ⟨0x22, 9, toyWrite⟩] := by
  decide +kernel

end Zephyrtastic.Admin
