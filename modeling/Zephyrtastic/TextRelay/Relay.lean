import Zephyrtastic.Channels.Table
import Zephyrtastic.Router.Rx
import Zephyrtastic.TextRelay.Text

/-!
# The cross-preset text relay

A node that hears of a text on another preset, through the peer link, sends it
again on its own preset as a packet of its own.
-/

namespace Zephyrtastic.TextRelay

open Channels (Table Slot)
open Router (Bearer)

/-- The relay's Kconfig values. -/
structure Limits where
  seenSize : Nat
  seenSize_pos : 0 < seenSize
  /-- `seen_next` is a `uint8_t`. -/
  seenSize_le : seenSize ≤ 128
  seenTtlSec : Nat
  rateMax : Nat
  rateWindowSec : Nat
  perOriginMax : Nat
  perOriginWindowSec : Nat
  originSlots : Nat
  originSlots_pos : 0 < originSlots
  ignoreMax : Nat
  queueSize : Nat
  inboundAtBoot : Bool

inductive Dir where
  | off
  | inbound
  | outbound
  | both
  deriving DecidableEq, Repr

/-- `struct seen_entry`; a time of zero is a free entry. -/
structure SeenEntry where
  origin : UInt32
  textHash : UInt32
  atMs : Int
  deriving DecidableEq, Repr

structure RateBucket where
  windowStartMs : Int
  used : Nat
  deriving DecidableEq, Repr

structure OriginSlot where
  origin : UInt32
  b : RateBucket
  deriving DecidableEq, Repr

/-- The relay's state, without its counters and its send queue. -/
structure State (lim : Limits) where
  dir : Dir
  seen : Fin lim.seenSize → SeenEntry
  seenNext : Fin lim.seenSize
  inbound : RateBucket
  origins : Fin lim.originSlots → OriginSlot
  ignore : List UInt32

structure Job where
  channelIndex : Slot
  text : Bytes
  deriving DecidableEq, Repr

/-- A decoded frame, as `meshtastic_relay_on_rx` gets it. -/
structure Rx where
  bearer : Bearer
  dest : UInt32
  src : UInt32
  pkiEncrypted : Bool
  portnum : Nat
  /-- `Data.emoji`, zero when the router has no decoded packet. -/
  emoji : UInt32
  payload : Bytes
  channelIndex : UInt8

/-- What the relay reads of the rest of the node. -/
structure Host where
  nodeId : UInt32
  table : Table
  now : Int
  /-- `relay_q` takes another job. -/
  room : Bool

/-- The counter of a frame that is not relayed. -/
inductive Refusal where
  /-- Not from the ear. -/
  | notConsidered
  | dirOff
  | notBroadcast
  | notText
  | reaction
  | ignored
  | badText
  | prefixed
  | noMapping
  | seen
  | originLimited
  | rateDropped
  | queueFull
  deriving DecidableEq, Repr

/-- What becomes of a frame. -/
inductive Verdict where
  | refused (why : Refusal)
  | relayed (job : Job) (sanitized : Bool)
  deriving DecidableEq, Repr

def portTextMessage : Nat := 1

def fnv1a (s : Bytes) : UInt32 := s.foldl (fun h b => (h ^^^ b.toUInt32) * 16777619) 2166136261

/-- `map_channel`: where a frame read through a slot goes on this preset. -/
def mapChannel (t : Table) (src : UInt8) : Option Slot :=
  if h : src.toNat < 8 then
    if t.isPublicDefault ⟨src.toNat, h⟩ then
      -- this preset's own public channel: there is nothing to cross
      if t.getName ⟨src.toNat, h⟩ = Channels.presetDisplayName t.modem then none
      else (List.finRange 8).find? t.isDefault
    else if t.isWellKnown ⟨src.toNat, h⟩ then none
    else some ⟨src.toNat, h⟩
  else none

/-- A time as the tables keep it, where zero is free. -/
def stamp (now : Int) : Int := if now = 0 then 1 else now

/-- `rate_take_locked`, with a limit and a window. -/
def RateBucket.take (b : RateBucket) (max windowSec : Nat) (now : Int) : RateBucket × Bool :=
  let b := if b.windowStartMs = 0 ∨ windowSec * 1000 ≤ now - b.windowStartMs
    then ⟨stamp now, 0⟩ else b
  if max ≤ b.used then (b, false) else ({ b with used := b.used + 1 }, true)

def RateBucket.giveBack (b : RateBucket) : RateBucket := { b with used := b.used - 1 }

namespace State

variable {lim : Limits} (s : State lim)
variable (host : Host)

/-- `seen_hit_locked`. -/
def seenHit (origin textHash : UInt32) (now : Int) : Bool :=
  (List.finRange lim.seenSize).any fun i =>
    (s.seen i).atMs ≠ 0 && (s.seen i).origin = origin && (s.seen i).textHash = textHash
      && now - (s.seen i).atMs < lim.seenTtlSec * 1000

/-- `seen_add_locked`. -/
def seenAdd (origin textHash : UInt32) (now : Int) : State lim :=
  { s with
    seen := Function.update s.seen s.seenNext ⟨origin, textHash, stamp now⟩
    seenNext := ⟨(s.seenNext.val + 1) % lim.seenSize, Nat.mod_lt _ lim.seenSize_pos⟩ }

/-- The slot of an origin in `origin_take_locked`: its own, or the one whose window started
longest ago, taken over. -/
def originSlot (origin : UInt32) : Fin lim.originSlots × OriginSlot :=
  match (List.finRange lim.originSlots).find? fun i =>
      (s.origins i).origin = origin ∧ (s.origins i).b.windowStartMs ≠ 0 with
  | some i => (i, s.origins i)
  | none =>
    let pick := (List.finRange lim.originSlots).foldl (fun pick i =>
      if (s.origins i).b.windowStartMs < (s.origins pick).b.windowStartMs then i else pick)
      ⟨0, lim.originSlots_pos⟩
    (pick, ⟨origin, ⟨0, (s.origins pick).b.used⟩⟩)

/-- `origin_take_locked`. -/
def originTake (origin : UInt32) (now : Int) : State lim × Bool :=
  let (i, slot) := s.originSlot origin
  let (b, ok) := slot.b.take lim.perOriginMax lim.perOriginWindowSec now
  ({ s with origins := Function.update s.origins i { slot with b } }, ok)

/-- `rate_take_locked` of the direction's bucket. -/
def rateTake (now : Int) : State lim × Bool :=
  let (b, ok) := s.inbound.take lim.rateMax lim.rateWindowSec now
  ({ s with inbound := b }, ok)

/-- `origin_give_back_locked`, and the token of the direction. -/
def giveBack (origin : UInt32) : State lim :=
  let origins := match (List.finRange lim.originSlots).find? fun i =>
      (s.origins i).origin = origin ∧ 0 < (s.origins i).b.used with
    | some i => Function.update s.origins i { s.origins i with b := (s.origins i).b.giveBack }
    | none => s.origins
  { s with origins, inbound := s.inbound.giveBack }

/-- `ignored_locked`. -/
def isIgnored (src : UInt32) : Bool := src = host.nodeId || src ∈ s.ignore

/-- The checks of `meshtastic_relay_on_rx` that look at the frame alone: the text to send,
whether it was changed, and the channel it goes out on. -/
def screen (rx : Rx) : Except Refusal (Bytes × Bool × Slot) :=
  if rx.bearer ≠ .blePeer then .error .notConsidered
  else if s.dir ≠ .inbound ∧ s.dir ≠ .both then .error .dirOff
  else if rx.dest ≠ Router.broadcast ∨ rx.pkiEncrypted then .error .notBroadcast
  else if rx.portnum ≠ portTextMessage then .error .notText
  else if rx.emoji ≠ 0 then .error .reaction
  else if s.isIgnored host rx.src then .error .ignored
  else if rx.payload = [] ∨ maxTextLen < rx.payload.length then .error .badText
  else match textSanitize rx.payload with
    | none => .error .badText
    | some (text, changed) =>
      if hasPrefix text then .error .prefixed
      else match mapChannel host.table rx.channelIndex with
        | none => .error .noMapping
        | some dest => .ok (text, changed, dest)

/-- `meshtastic_relay_on_rx` on a text that is fit to send. The seen table comes before the
limits, so that a repeat spends no token. -/
def admitText (src : UInt32) (text : Bytes) (changed : Bool) (dest : Slot) : Verdict × State lim :=
  if s.seenHit src (fnv1a text) host.now then (.refused .seen, s)
  else
    let (s, ok) := s.originTake src host.now
    if !ok then (.refused .originLimited, s)
    else
      let (s, ok) := s.rateTake host.now
      if !ok then (.refused .rateDropped, s)
      else if !host.room then (.refused .queueFull, s.giveBack src)
      else (.relayed ⟨dest, annotated src text⟩ changed, s.seenAdd src (fnv1a text) host.now)

def onRx (rx : Rx) : Verdict × State lim :=
  match s.screen host rx with
  | .error why => (.refused why, s)
  | .ok (text, changed, dest) => s.admitText host rx.src text changed dest

end State

/-! ### Control -/

inductive Errno where
  | enotsup
  | enomem
  deriving DecidableEq, Repr

namespace State

variable {lim : Limits}
variable (s : State lim)

def bootDirection (lim : Limits) : Dir := if lim.inboundAtBoot then .inbound else .off

/-- The state at boot, and what `meshtastic_relay_reset` goes back to. -/
def boot (lim : Limits) : State lim where
  dir := bootDirection lim
  seen _ := ⟨0, 0, 0⟩
  seenNext := ⟨0, lim.seenSize_pos⟩
  inbound := ⟨0, 0⟩
  origins _ := ⟨0, ⟨0, 0⟩⟩
  ignore := []

def setDirection (dir : Dir) : Except Errno (State lim) :=
  if dir = .outbound ∨ dir = .both then .error .enotsup else .ok { s with dir }

def ignoreAdd (node : UInt32) : Except Errno (State lim) :=
  if node ∈ s.ignore then .ok s
  else if lim.ignoreMax ≤ s.ignore.length then .error .enomem
  else .ok { s with ignore := s.ignore ++ [node] }

def ignoreClear : State lim := { s with ignore := [] }

/-- `relay_settings_set` at boot, with a record that is well formed: the direction and the
ignore list that were saved, unless this image cannot do the direction. -/
def restore (dir : Dir) (ignore : List UInt32) : State lim :=
  if lim.ignoreMax < ignore.length ∨ dir ≠ .off ∧ dir ≠ .inbound then s
  else { s with dir, ignore }

end State

/-! ### What a relayed text is -/

section
variable {lim : Limits} {s : State lim} {host : Host} {rx : Rx}

theorem seenHit_seenAdd (s : State lim) (httl : 0 < lim.seenTtlSec) (origin textHash : UInt32)
    (now : Int) : (s.seenAdd origin textHash now).seenHit origin textHash now = true := by
  refine List.any_eq_true.mpr ⟨s.seenNext, List.mem_finRange _, ?_⟩
  have hstamp : stamp now ≠ 0 ∧ now ≤ stamp now := by
    unfold stamp
    split <;> omega
  simp only [State.seenAdd, Function.update_self, Bool.and_eq_true, decide_eq_true_eq]
  exact ⟨⟨⟨hstamp.1, trivial⟩, trivial⟩, by omega⟩

theorem admitText_relayed {src : UInt32} {text : Bytes} {changed sanitized : Bool} {dest : Slot}
    {job : Job} (h : (s.admitText host src text changed dest).1 = .relayed job sanitized) :
    job = ⟨dest, annotated src text⟩ ∧ s.seenHit src (fnv1a text) host.now = false ∧
      (0 < lim.seenTtlSec →
        (s.admitText host src text changed dest).2.seenHit src (fnv1a text) host.now = true) := by
  unfold State.admitText at h ⊢
  split at h
  · exact nomatch h
  rename_i hunseen
  rw [if_neg hunseen]
  dsimp only at h ⊢
  split at h
  · exact nomatch h
  rename_i horigin
  rw [if_neg horigin]
  split at h
  · exact nomatch h
  rename_i hrate
  rw [if_neg hrate]
  split at h
  · exact nomatch h
  rename_i hroom
  rw [if_neg hroom]
  exact ⟨(Verdict.relayed.inj h).1.symm, Bool.eq_false_of_not_eq_true hunseen,
    fun httl => seenHit_seenAdd _ httl src (fnv1a text) host.now⟩

theorem screen_ok {text : Bytes} {changed : Bool} {dest : Slot}
    (h : s.screen host rx = .ok (text, changed, dest)) :
    textSanitize rx.payload = some (text, changed) ∧ hasPrefix text = false := by
  unfold State.screen at h
  iterate 7
    split at h
    · exact nomatch h
  split at h
  · exact nomatch h
  rename_i out changed' hs
  split at h
  · exact nomatch h
  rename_i hmarked
  split at h
  · exact nomatch h
  · obtain ⟨rfl, rfl⟩ := Prod.mk.inj (Except.ok.inj h) |>.imp_right fun hr => (Prod.mk.inj hr).1
    exact ⟨hs, Bool.eq_false_of_not_eq_true hmarked⟩

/-- What is relayed is the sanitized text, which no relay has marked, annotated. The seen table
does not have it before, and has it then. -/
theorem onRx_relayed {job : Job} {sanitized : Bool}
    (h : (s.onRx host rx).1 = .relayed job sanitized) :
    ∃ text changed, textSanitize rx.payload = some (text, changed) ∧ hasPrefix text = false ∧
      job.text = annotated rx.src text ∧ s.seenHit rx.src (fnv1a text) host.now = false ∧
      (0 < lim.seenTtlSec →
        (s.onRx host rx).2.seenHit rx.src (fnv1a text) host.now = true) := by
  unfold State.onRx at h ⊢
  split at h
  · exact nomatch h
  · rename_i text changed dest hscreen
    obtain ⟨hs, hmarked⟩ := screen_ok hscreen
    obtain ⟨hjob, hunseen, hseen⟩ := admitText_relayed h
    exact ⟨text, changed, hs, hmarked, by rw [hjob], hunseen, hseen⟩

end

end Zephyrtastic.TextRelay
