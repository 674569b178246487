import Zephyrtastic.Cluster.Wire
import Zephyrtastic.Xeddsa

/-!
# What a signature covers

One key signs the entries of the document and the packets of the mesh. The signed
bytes say which entry or which packet it was.
-/

namespace Zephyrtastic

open Bytes List

theorem Bytes.putLe_inj {w m n : Nat} (hm : m < 256 ^ w) (hn : n < 256 ^ w)
    (h : putLe w m = putLe w n) : m = n := by
  have hget := congrArg getLe h
  rwa [getLe_putLe, getLe_putLe, Nat.mod_eq_of_lt hm, Nat.mod_eq_of_lt hn] at hget

theorem Bytes.putLe32_inj {v v' : UInt32} (h : putLe32 v = putLe32 v') : v = v' := by
  rw [← getLe32_putLe32_self v, h, getLe32_putLe32_self]

namespace Cluster

theorem leBytes_eq (n v : Nat) : leBytes n v = putLe n v := by
  induction n generalizing v with
  | zero => rfl
  | succ n ih =>
    rw [leBytes, range_succ_eq_map, map_cons, map_map, putLe, ← ih]
    congr 1
    refine map_congr_left fun b _ => ?_
    simp only [Function.comp_apply, Nat.succ_eq_add_one, Nat.mul_add, Nat.shiftRight_add,
      Nat.shiftRight_eq_div_pow v 8, Nat.mul_one, Nat.add_comm (8 * b) 8]

theorem leBytes_inj {n v v' : Nat} (hv : v < 256 ^ n) (hv' : v' < 256 ^ n)
    (h : leBytes n v = leBytes n v') : v = v' := by
  rw [leBytes_eq, leBytes_eq] at h
  exact putLe_inj hv hv' h

@[simp] theorem length_leBytes (n v : Nat) : (leBytes n v).length = n := by simp [leBytes]

theorem signingBuffer_inj {key key' : Key} {stamp stamp' : Stamp} {tombstone tombstone' : Bool}
    {payload payload' : List UInt8} (hp : payload.length ≤ payloadMax)
    (hp' : payload'.length ≤ payloadMax)
    (h : signingBuffer key stamp tombstone payload =
      signingBuffer key' stamp' tombstone' payload') :
    key = key' ∧ stamp = stamp' ∧ tombstone = tombstone' ∧ payload = payload' := by
  rw [signingBuffer, signingBuffer, if_neg (not_lt.mpr hp), if_neg (not_lt.mpr hp')] at h
  replace h := Option.some.inj h
  simp only [append_assoc] at h
  obtain ⟨-, h⟩ := append_inj h rfl
  obtain ⟨hlayer, h⟩ := append_inj h rfl
  obtain ⟨hnode, h⟩ := append_inj h (by simp)
  obtain ⟨hsec, h⟩ := append_inj h (by simp)
  obtain ⟨hms, h⟩ := append_inj h (by simp)
  obtain ⟨hcounter, h⟩ := append_inj h (by simp)
  obtain ⟨hauthor, h⟩ := append_inj h (by simp)
  obtain ⟨htomb, h⟩ := append_inj h rfl
  obtain ⟨-, hpayload⟩ := append_inj h (by simp)
  refine ⟨Key.ext (cons.inj hlayer).1 ?_ ?_, Stamp.ext ?_ ?_ ?_, ?_, hpayload⟩
  · exact UInt32.toNat_inj.mp (leBytes_inj key.nodeId.toNat_lt key'.nodeId.toNat_lt hnode)
  · exact UInt16.toNat_inj.mp (leBytes_inj key.sec.toNat_lt key'.sec.toNat_lt hsec)
  · have hu := UInt64.toNat_inj.mp (leBytes_inj stamp.physicalMs.toUInt64.toNat_lt
      stamp'.physicalMs.toUInt64.toNat_lt hms)
    exact congrArg UInt64.toInt64 hu
  · exact UInt32.toNat_inj.mp (leBytes_inj stamp.counter.toNat_lt stamp'.counter.toNat_lt hcounter)
  · exact UInt32.toNat_inj.mp (leBytes_inj stamp.nodeId.toNat_lt stamp'.nodeId.toNat_lt hauthor)
  · cases tombstone <;> cases tombstone' <;> simp_all

end Cluster

namespace Xeddsa

theorem flags_inj {w w' b b' : Bool}
    (h : ((if w then 0x01 else 0) ||| (if b then 0x02 else 0) : UInt8) =
      (if w' then 0x01 else 0) ||| (if b' then 0x02 else 0)) : w = w' ∧ b = b' := by
  revert h
  cases w <;> cases w' <;> cases b <;> cases b' <;> decide

theorem buildSigningBuffer_inj {h h' : Header} {d d' : Data}
    (heq : buildSigningBuffer h d = buildSigningBuffer h' d') :
    h = h' ∧ d.portnum = d'.portnum ∧ d.requestId = d'.requestId ∧ d.replyId = d'.replyId ∧
      d.emoji = d'.emoji ∧ d.wantResponse = d'.wantResponse ∧ d.payload = d'.payload ∧
      d.bitfield = d'.bitfield := by
  simp only [buildSigningBuffer, append_assoc] at heq
  obtain ⟨-, heq⟩ := append_inj heq rfl
  obtain ⟨hsrc, heq⟩ := append_inj heq (by simp)
  obtain ⟨hid, heq⟩ := append_inj heq (by simp)
  obtain ⟨hdest, heq⟩ := append_inj heq (by simp)
  obtain ⟨hport, heq⟩ := append_inj heq (by simp)
  obtain ⟨hrequest, heq⟩ := append_inj heq (by simp)
  obtain ⟨hreply, heq⟩ := append_inj heq (by simp)
  obtain ⟨hemoji, heq⟩ := append_inj heq (by simp)
  obtain ⟨hbits, heq⟩ := append_inj heq (by simp)
  obtain ⟨hflags, hpayload⟩ := append_inj heq rfl
  have hhead : h = h' :=
    congr (congr (congrArg Header.mk (putLe32_inj hsrc)) (putLe32_inj hid))
      (putLe32_inj hdest)
  have hbits : d.bitfield.getD 0 = d'.bitfield.getD 0 := by
    have hwide := congrArg UInt32.toUInt8 (putLe32_inj hbits)
    simpa using hwide
  obtain ⟨hwant, hsome⟩ := flags_inj (cons.inj hflags).1
  refine ⟨hhead, putLe32_inj hport, putLe32_inj hrequest, putLe32_inj hreply,
    putLe32_inj hemoji, hwant, hpayload, ?_⟩
  generalize d.bitfield = o at hbits hsome
  generalize d'.bitfield = o' at hbits hsome
  cases o <;> cases o' <;> simp_all only [Option.getD_some, Option.isSome_some, Option.isSome_none,
    Bool.false_eq_true, Bool.true_eq_false]

end Xeddsa

namespace Cluster

/-- **The signed bytes say what was signed**: an entry or a packet, and which one. -/
theorem signed_bytes_identify :
    (∀ key key' stamp stamp' tombstone tombstone' payload payload',
      payload.length ≤ payloadMax → payload'.length ≤ payloadMax →
      signingBuffer key stamp tombstone payload =
        signingBuffer key' stamp' tombstone' payload' →
      key = key' ∧ stamp = stamp' ∧ tombstone = tombstone' ∧ payload = payload') ∧
    (∀ h h' d d', Xeddsa.buildSigningBuffer h d = Xeddsa.buildSigningBuffer h' d' →
      h = h' ∧ d.portnum = d'.portnum ∧ d.requestId = d'.requestId ∧ d.replyId = d'.replyId ∧
      d.emoji = d'.emoji ∧ d.wantResponse = d'.wantResponse ∧ d.payload = d'.payload ∧
      d.bitfield = d'.bitfield) ∧
    ∀ key stamp tombstone payload h d,
      signingBuffer key stamp tombstone payload ≠ some (Xeddsa.buildSigningBuffer h d) := by
  refine ⟨fun _ _ _ _ _ _ _ _ hp hp' => signingBuffer_inj hp hp',
    fun _ _ _ _ => Xeddsa.buildSigningBuffer_inj, ?_⟩
  intro key stamp tombstone payload h d heq
  unfold signingBuffer at heq
  split at heq
  · cases heq
  · have hfirst := congrArg head? (Option.some.inj heq)
    have hz : sigbufPrefix.head? = some 0x7a := by decide +kernel
    simp [Xeddsa.buildSigningBuffer, hz] at hfirst

theorem signed_bytes_identify_layer :
    Key.base 1 ≠ Key.node 5 1 ∧
    signingBuffer (Key.base 1) ⟨5, 0, 2⟩ false [7] ≠
      signingBuffer (Key.node 5 1) ⟨5, 0, 2⟩ false [7] :=
  ⟨by decide, fun h => absurd (signed_bytes_identify.1 _ _ _ _ _ _ _ _ (by decide) (by decide) h).1
    (by decide)⟩

end Cluster

end Zephyrtastic
