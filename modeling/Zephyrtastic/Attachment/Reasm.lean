import Zephyrtastic.Attachment.Transmit

/-!
# The receiver of a link

A link carries a frame in chunks. The first says how long the frame is and of which
kind, the last that it is the last, and each has a sequence number of six bits.
-/

namespace Zephyrtastic.Attachment

open List Run

/-- The sequence number in a header, `MESHTASTIC_BLE_PEER_CHUNK_SEQ_MASK`. -/
def chunkSeq (hdr : UInt8) : Fin 64 := Fin.ofNat 64 hdr.toNat

/-- `struct meshtastic_ble_peer_reasm`, with the `got` bytes of the frame that are written. -/
structure Reasm where
  active : Bool
  nextSeq : Fin 64
  kind : UInt8
  expect : Nat
  frame : Bytes
  frames : UInt32
  aborted : UInt32
  rejected : UInt32
  deriving DecidableEq

namespace Reasm

/-- `meshtastic_ble_peer_reasm_reset`. -/
def reset : Reasm := ⟨false, 0, 0, 0, [], 0, 0, 0⟩

/-- A negative value, 0, or 1 with a frame of a kind. -/
abbrev Outcome := Except Errno (Option (UInt8 × Bytes))

variable (rs : Reasm)

/-- `reasm_abort`. -/
def abort : Reasm :=
  if rs.active then { rs with active := false, aborted := rs.aborted + 1 } else rs

def reject (e : Errno) : Outcome × Reasm := (.error e, { rs with rejected := rs.rejected + 1 })

/-- The end of `meshtastic_ble_peer_reasm_ingest`, once the chunk's bytes are written. -/
def finish (last : Bool) : Outcome × Reasm :=
  if last then
    if rs.frame.length ≠ rs.expect then rs.abort.reject .badMsg
    else (.ok (some (rs.kind, rs.frame)), { rs with active := false, frames := rs.frames + 1 })
  else if rs.frame.length = rs.expect then rs.abort.reject .badMsg
  else (.ok none, rs)

/-- A chunk with FIRST, whose partial is already gone. -/
def ingestFirst (last : Bool) (seq : Fin 64) : Bytes → Outcome × Reasm
  | lo :: hi :: body =>
    let kind := hi >>> 4
    let declared := lo.toNat + 256 * (hi &&& 0x0F).toNat
    match reasmDeclared kind declared with
    | .error e => rs.reject e
    | .ok () =>
      if declared < body.length then rs.reject .badMsg
      else
        { rs with
          active := true, nextSeq := seq + 1, kind, expect := declared, frame := body }.finish last
  | _ => rs.reject .badMsg

/-- `meshtastic_ble_peer_reasm_ingest`. -/
def ingest : Bytes → Outcome × Reasm
  | hdr :: b :: bs =>
    let first := hdr &&& 0x80 != 0
    let last := hdr &&& 0x40 != 0
    let seq := chunkSeq hdr
    if first then rs.abort.ingestFirst last seq (b :: bs)
    else if !rs.active then rs.reject .badMsg
    else if seq ≠ rs.nextSeq ∨ rs.expect - rs.frame.length < (b :: bs).length then
      rs.abort.reject .badMsg
    else { rs with frame := rs.frame ++ b :: bs, nextSeq := seq + 1 }.finish last
  | _ => rs.reject .badMsg

/-- The bytes written are within the frame buffer, `MESHTASTIC_BLE_PEER_REASM_MAX`, and a partial
is short of the length it declared. -/
structure Bounded : Prop where
  buffer : rs.frame.length ≤ peerCap kindAttach
  short : rs.active = true → rs.frame.length < rs.expect ∧ rs.expect ≤ peerCap rs.kind

/-- What a chunk leaves: a bounded state, and after an error no partial and one more refusal. -/
structure Sound (rejected : UInt32) (r : Outcome × Reasm) : Prop where
  bounded : r.2.Bounded
  killed : ∀ e, r.1 = .error e → r.2.active = false ∧ r.2.rejected = rejected + 1

variable {rs}

theorem peerCap_le (kind : UInt8) : peerCap kind ≤ peerCap kindAttach := by
  unfold peerCap
  split <;> decide

theorem reject_sound (e : Errno) (hoff : rs.active = false)
    (h : rs.frame.length ≤ peerCap kindAttach) : Sound rs.rejected (rs.reject e) :=
  ⟨⟨h, fun hon => nomatch hoff.symm.trans hon⟩, fun _ _ => ⟨hoff, rfl⟩⟩

/-- Aborting leaves no partial, and the bytes and refusals as they were. -/
theorem abort_eq : rs.abort.active = false ∧ rs.abort.frame = rs.frame ∧
    rs.abort.rejected = rs.rejected := by
  unfold abort
  split
  · exact ⟨rfl, rfl, rfl⟩
  next hoff => exact ⟨Bool.eq_false_iff.mpr hoff, rfl, rfl⟩

theorem abort_reject_sound (e : Errno) (h : rs.frame.length ≤ peerCap kindAttach) :
    Sound rs.rejected (rs.abort.reject e) := by
  obtain ⟨hoff, hframe, hrejected⟩ := rs.abort_eq
  rw [← hrejected]
  exact reject_sound e hoff (hframe ▸ h)

theorem finish_sound {n : UInt32} (last : Bool) (hn : rs.rejected = n)
    (h : rs.frame.length ≤ rs.expect) (hcap : rs.expect ≤ peerCap rs.kind) :
    Sound n (rs.finish last) := by
  subst hn
  have hbuf := (h.trans hcap).trans (peerCap_le rs.kind)
  unfold finish
  split
  · split
    · exact abort_reject_sound .badMsg hbuf
    · exact ⟨⟨hbuf, nofun⟩, nofun⟩
  · split
    · exact abort_reject_sound .badMsg hbuf
    next hne => exact ⟨⟨hbuf, fun _ => ⟨Nat.lt_of_le_of_ne h hne, hcap⟩⟩, nofun⟩

theorem ingestFirst_sound (last : Bool) (seq : Fin 64) (body : Bytes) (hoff : rs.active = false)
    (h : rs.frame.length ≤ peerCap kindAttach) :
    Sound rs.rejected (rs.ingestFirst last seq body) := by
  unfold ingestFirst
  split
  · next lo hi body =>
    dsimp only
    split
    · exact reject_sound _ hoff h
    next hdeclared =>
    split
    · exact reject_sound _ hoff h
    next hle =>
    refine finish_sound last rfl (Nat.not_lt.mp hle) ?_
    unfold reasmDeclared at hdeclared
    split at hdeclared
    · cases hdeclared
    · split at hdeclared
      · cases hdeclared
      next hcap => exact Nat.not_lt.mp hcap
  · exact reject_sound _ hoff h

theorem ingest_sound (h : rs.Bounded) (hdr b : UInt8) (bs : Bytes) :
    Sound rs.rejected (rs.ingest (hdr :: b :: bs)) := by
  unfold ingest
  dsimp only
  split
  · obtain ⟨hoff, hframe, hrejected⟩ := rs.abort_eq
    rw [← hrejected]
    exact ingestFirst_sound _ _ _ hoff (hframe ▸ h.buffer)
  split
  next hoff => exact reject_sound _ (by simpa using hoff) h.buffer
  next hon =>
  obtain ⟨hshort, hcap⟩ := h.short (by simpa using hon)
  split
  · exact abort_reject_sound _ h.buffer
  next hfits =>
  refine finish_sound _ rfl ?_ hcap
  simp only [length_append]
  omega

/-- The receiver takes a chunk. -/
def feed (rs : Reasm) (chunk : Bytes) : Reasm := (rs.ingest chunk).2

theorem feed_bounded (h : rs.Bounded) (chunk : Bytes) : (rs.feed chunk).Bounded := by
  match chunk with
  | [] | [_] => exact { h with }
  | hdr :: b :: bs => exact (ingest_sound h hdr b bs).bounded

theorem run_bounded (chunks : List Bytes) : (run feed reset chunks).Bounded :=
  run_keeps Bounded ⟨Nat.zero_le _, (absurd · Bool.false_ne_true)⟩
    (fun _ chunk h _ => feed_bounded h chunk) guarded_true

/-- **An error kills the partial**, unless the chunk has less than two bytes. Nothing is written
outside the frame buffer, and a partial is short of the length it declared. -/
theorem errors_kill_partials (chunks : List Bytes) (chunk : Bytes) :
    let rs := run feed reset chunks
    rs.Bounded ∧ (rs.feed chunk).Bounded ∧
      ∀ e, (rs.ingest chunk).1 = .error e → (rs.feed chunk).rejected = rs.rejected + 1 ∧
        ((rs.feed chunk).active = false ↔ 2 ≤ chunk.length ∨ rs.active = false) := by
  intro rs
  have h : rs.Bounded := run_bounded chunks
  refine ⟨h, feed_bounded h chunk, fun e he => ?_⟩
  match chunk with
  | [] | [_] => exact ⟨rfl, .inr, fun hoff => hoff.resolve_left (by simp)⟩
  | hdr :: b :: bs =>
    obtain ⟨hoff, hrejected⟩ := (ingest_sound h hdr b bs).killed e he
    exact ⟨hrejected, fun _ => .inl (by simp), fun _ => hoff⟩

end Reasm

/-- An empty chunk is refused, and the partial goes on. -/
theorem empty_chunk_keeps_partial :
    let rs := run Reasm.feed .reset [[0x80, 2, 0, 7]]
    rs.active = true ∧ (rs.ingest []).1 = .error .badMsg ∧ (rs.feed []).active = true ∧
      ((rs.feed []).ingest [0x41, 8]).1 = .ok (some (0, [7, 8])) := by
  decide +kernel

end Zephyrtastic.Attachment
