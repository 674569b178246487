import Zephyrtastic.Lib.Bytes

/-!
# Lockdown artifacts

The four records the lockdown core keeps under `mtlock`, byte for byte: the
wrapped data key, the unlock token, the monotonic counter and the backoff state.
Every one is authenticated by AES-GCM, which is a parameter here.
-/

namespace Zephyrtastic.Lockdown

open Bytes List

def keyLen : Nat := 16
def nonceLen : Nat := 12
def tagLen : Nat := 16

/-- A raw AES-128 key. -/
structure AesKey where
  bytes : Bytes
  length_eq : bytes.length = keyLen
  deriving DecidableEq

structure Nonce where
  bytes : Bytes
  length_eq : bytes.length = nonceLen
  deriving DecidableEq

def AesKey.zero : AesKey := ⟨replicate keyLen 0, length_replicate⟩

def AesKey.ofBytes (b : Bytes) : Option AesKey :=
  if h : b.length = keyLen then some ⟨b, h⟩ else none

@[simp] theorem AesKey.ofBytes_bytes (k : AesKey) : AesKey.ofBytes k.bytes = some k :=
  dif_pos k.length_eq

/-- PSA as the core uses it. The arguments of the cipher are key, nonce, additional
data and text; its output is the ciphertext with the tag behind it. -/
structure Psa where
  encrypt : AesKey → Bytes → Bytes → Bytes → Bytes
  decrypt : AesKey → Bytes → Bytes → Bytes → Option Bytes
  decrypt_encrypt : ∀ key nonce aad text, decrypt key nonce aad (encrypt key nonce aad text) =
    some text
  length_encrypt : ∀ key nonce aad text, (encrypt key nonce aad text).length =
    text.length + tagLen
  length_decrypt : ∀ {key nonce aad sealed text}, decrypt key nonce aad sealed = some text →
    sealed.length = text.length + tagLen
  /-- Passphrase and iteration count, salted with the device id. -/
  pbkdf2 : Bytes → UInt32 → Option AesKey

/-- A device: its library, the key bound to its id, and its Kconfig values. -/
structure Device where
  psa : Psa
  /-- The ephemeral KEK. -/
  ekek : AesKey
  defaultBoots : UInt8
  defaultBoots_ne : defaultBoots ≠ 0
  sessionDefaultSeconds : UInt32
  pbkdf2Iterations : UInt32
  rewriteMaxNames : Nat
  rewriteMaxNames_range : 16 ≤ rewriteMaxNames ∧ rewriteMaxNames ≤ 512
  /-- The milliseconds a timer set to `K_SECONDS` runs. -/
  kSeconds : UInt32 → Nat
  kSeconds_eq : ∀ s, s.toNat * 1000 < 2 ^ 32 → kSeconds s = s.toNat * 1000

/-- The tag of the toy cipher: the key, shifted by a checksum of the additional
data. -/
def toyTag (key : AesKey) (aad : Bytes) : Bytes :=
  key.bytes.map fun b => b + aad.foldl (fun h c => h * 31 + c) 0

/-- A cipher that keeps the laws, to evaluate the model with. -/
def toyPsa : Psa where
  encrypt key _ aad text := text ++ toyTag key aad
  decrypt key _ aad sealed :=
    if tagLen ≤ sealed.length ∧ sealed.drop (sealed.length - tagLen) = toyTag key aad then
      some (sealed.take (sealed.length - tagLen))
    else none
  decrypt_encrypt key _ aad text := by
    have htag : (toyTag key aad).length = tagLen := by simp [toyTag, key.length_eq, keyLen, tagLen]
    simp [htag]
  length_encrypt key _ aad text := by simp [toyTag, key.length_eq, keyLen, tagLen]
  length_decrypt {key _ aad sealed text} h := by
    split at h
    · next hlen =>
      obtain rfl := Option.some.inj h
      rw [length_take]
      omega
    · cases h
  pbkdf2 passphrase _ := some ⟨(passphrase ++ replicate keyLen 0).take keyLen, by simp⟩

def toyDevice : Device where
  psa := toyPsa
  ekek := .zero
  defaultBoots := 50
  defaultBoots_ne := by decide
  sessionDefaultSeconds := 0
  pbkdf2Iterations := 10000
  rewriteMaxNames := 16
  rewriteMaxNames_range := by decide
  kSeconds s := (s * 1000).toNat
  kSeconds_eq s h := by
    rw [UInt32.toNat_mul]
    exact Nat.mod_eq_of_lt h

/-- Every reason the core gives for being locked. -/
inductive LockReason where
  | notProvisioned | ok | tokenMissing | tokenWrongSize | tokenBadMagic | tokenHmacFail
  | tokenRollback | tokenBootsZero | tokenExpired | sessionBudgetExhausted
  deriving DecidableEq, Repr

def LockReason.text : LockReason → String
  | .notProvisioned => "not_provisioned"
  | .ok => "ok"
  | .tokenMissing => "token_missing"
  | .tokenWrongSize => "token_wrong_size"
  | .tokenBadMagic => "token_bad_magic"
  | .tokenHmacFail => "token_hmac_fail"
  | .tokenRollback => "token_rollback"
  | .tokenBootsZero => "token_boots_zero"
  | .tokenExpired => "token_expired"
  | .sessionBudgetExhausted => "session_budget_exhausted"

inductive Errno where
  | inval | already | noent | again | acces | busy | io | badmsg | msgsize | notsup
  deriving DecidableEq, Repr

def ascii (s : String) : Bytes := s.toList.map fun c => UInt8.ofNat c.toNat

def magicSeal : UInt32 := 0x4D454E43
def magicDek : UInt32 := 0x4D44454B
def magicToken : UInt32 := 0x55544F4B

def dekLabel : Bytes := ascii "mdek-auth"
def tokenLabel : Bytes := ascii "utok-auth"
def monoLabel : Bytes := ascii "tokmono-auth"
def backoffLabel : Bytes := ascii "backoff-auth"
def sealLabel : Bytes := ascii "menc-auth"

def dekRecLen : Nat := 52
def tokenMetaLen : Nat := 13
def tokenRecLen : Nat := 61
def monoRecLen : Nat := 32
def backoffBodyLen : Nat := 6
def backoffRecLen : Nat := 34

section Records
variable (dev : Device)
variable (rec : Option Bytes)

def dekAad (iters : UInt32) : Bytes := dekLabel ++ putLe32 iters

/-- `mtlock/dek`: magic, iterations, nonce, wrapped key, tag. -/
def dekRec (kek dek : AesKey) (iters : UInt32) (nonce : Nonce) : Bytes :=
  putLe32 magicDek ++ (putLe32 iters ++ (nonce.bytes ++
    dev.psa.encrypt kek nonce.bytes (dekAad iters) dek.bytes))

def isDekRec (rec : Bytes) : Bool :=
  decide (rec.length = dekRecLen) && decide (getLe32 rec = magicDek)

/-- The iteration count the device was provisioned with; zero without a record. -/
def dekIters : UInt32 :=
  match rec with
  | some rec => if isDekRec rec then getLe32 (rec.drop 4) else 0
  | none => 0

/-- `load_dek`: unwrap the data key, which is the passphrase check. -/
def loadDek (kek : AesKey) (rec : Option Bytes) : Except Errno AesKey :=
  match rec with
  | none => .error .noent
  | some rec =>
    if !isDekRec rec then .error .noent
    else match (dev.psa.decrypt kek (slice rec 8 nonceLen) (dekAad (getLe32 (rec.drop 4)))
        (slice rec 20 (keyLen + tagLen))).bind AesKey.ofBytes with
      | some dek => .ok dek
      | none => .error .acces

/-- A record in the clear with a tag over it: the body, a nonce, and the tag of an
empty text. -/
def taggedRec (label body : Bytes) (nonce : Nonce) : Bytes :=
  body ++ (nonce.bytes ++ dev.psa.encrypt dev.ekek nonce.bytes (label ++ body) [])

/-- The tag behind a body of `n` bytes holds. -/
def tagHolds (label : Bytes) (n : Nat) (rec : Bytes) : Bool :=
  (dev.psa.decrypt dev.ekek (slice rec n nonceLen) (label ++ slice rec 0 n)
    (slice rec (n + nonceLen) tagLen)).isSome

/-- `mtlock/mono`: counter, nonce, tag. -/
def monoRec (counter : UInt32) (nonce : Nonce) : Bytes :=
  taggedRec dev monoLabel (putLe32 counter) nonce

/-- Missing or malformed reads as zero. -/
def readMono : UInt32 :=
  match rec with
  | none => 0
  | some rec =>
    if rec.length ≠ monoRecLen then 0
    else if tagHolds dev monoLabel 4 rec then getLe32 rec
    else 0

structure Backoff where
  attempts : UInt8
  bootsSinceFail : UInt8
  lastFailEpoch : UInt32
  deriving DecidableEq, Repr

def Backoff.none : Backoff := ⟨0, 0, 0⟩
def backoffMaxAttempts : UInt8 := 255

/-- What a present but unauthenticated record counts as. -/
def Backoff.damaged : Backoff := ⟨backoffMaxAttempts, 0, 0⟩

def Backoff.body (b : Backoff) : Bytes :=
  b.attempts :: b.bootsSinceFail :: putLe32 b.lastFailEpoch

/-- `mtlock/backoff`: attempts, boots since the failure, its epoch, nonce, tag. -/
def backoffRec (b : Backoff) (nonce : Nonce) : Bytes :=
  taggedRec dev backoffLabel b.body nonce

/-- Missing is none; present but wrong or unauthenticated is the maximum. -/
def readBackoff : Backoff :=
  match rec with
  | none => .none
  | some rec =>
    if rec.length ≠ backoffRecLen then .damaged
    else if tagHolds dev backoffLabel backoffBodyLen rec then
      ⟨rec.getD 0 0, rec.getD 1 0, getLe32 (rec.drop 2)⟩
    else .damaged

structure TokenMeta where
  boots : UInt8
  validUntil : UInt32
  sessionS : UInt32
  mono : UInt32
  deriving DecidableEq, Repr

def TokenMeta.bytes (m : TokenMeta) : Bytes :=
  m.boots :: (putLe32 m.validUntil ++ (putLe32 m.sessionS ++ putLe32 m.mono))

def TokenMeta.ofBytes (b : Bytes) : TokenMeta :=
  ⟨b.getD 0 0, getLe32 (b.drop 1), getLe32 (b.drop 5), getLe32 (b.drop 9)⟩

/-- `mtlock/token`: magic, nonce, wrapped key, the meta fields, tag. -/
def tokenRec (dek : AesKey) (m : TokenMeta) (nonce : Nonce) : Bytes :=
  let ctTag := dev.psa.encrypt dev.ekek nonce.bytes (tokenLabel ++ m.bytes) dek.bytes
  putLe32 magicToken ++ (nonce.bytes ++ (ctTag.take keyLen ++ (m.bytes ++ ctTag.drop keyLen)))

/-- Authenticate and unwrap a token; the meta fields are trusted only then. -/
def openToken (rec : Bytes) : Except LockReason (AesKey × TokenMeta) :=
  if rec.length ≠ tokenRecLen then .error .tokenWrongSize
  else if getLe32 rec ≠ magicToken then .error .tokenBadMagic
  else
    let fields := slice rec 32 tokenMetaLen
    match (dev.psa.decrypt dev.ekek (slice rec 4 nonceLen) (tokenLabel ++ fields)
        (slice rec 16 keyLen ++ slice rec 45 tagLen)).bind AesKey.ofBytes with
      | some dek => .ok (dek, .ofBytes fields)
      | none => .error .tokenHmacFail

variable {dev}

theorem loadDek_dekRec (kek dek : AesKey) (iters : UInt32) (nonce : Nonce) :
    loadDek dev kek (some (dekRec dev kek dek iters nonce)) = .ok dek ∧
      dekIters (some (dekRec dev kek dek iters nonce)) = iters := by
  have hn := nonce.length_eq
  have hc := dev.psa.length_encrypt kek nonce.bytes (dekAad iters) dek.bytes
  rw [dek.length_eq] at hc
  have his : isDekRec (dekRec dev kek dek iters nonce) = true := by
    simp [isDekRec, dekRec, hn, hc, keyLen, tagLen, nonceLen, dekRecLen]
  have hit : getLe32 ((dekRec dev kek dek iters nonce).drop 4) = iters := by
    rw [dekRec, drop_left' (length_putLe32 _), getLe32_putLe32]
  have hno : slice (dekRec dev kek dek iters nonce) 8 nonceLen = nonce.bytes := by
    rw [dekRec, slice_append_right (n := 4) (by simp), slice_append_right (n := 0) (by simp),
      slice_append_left hn]
  have hct : slice (dekRec dev kek dek iters nonce) 20 (keyLen + tagLen) =
      dev.psa.encrypt kek nonce.bytes (dekAad iters) dek.bytes := by
    rw [dekRec, slice_append_right (n := 16) (by simp), slice_append_right (n := 12) (by simp),
      slice_append_right (n := 0) (by rw [hn]; rfl), slice_self hc]
  constructor
  · simp only [loadDek, his, hit, hno, hct, dev.psa.decrypt_encrypt, Option.bind_some,
      AesKey.ofBytes_bytes, Bool.not_true, Bool.false_eq_true, if_false]
  · simp only [dekIters, his, hit, if_true]

theorem loadDek_isSome {kek dek : AesKey} {rec : Option Bytes} (h : loadDek dev kek rec = .ok dek) :
    rec.isSome = true := by
  cases rec with
  | none => simp [loadDek] at h
  | some => rfl

theorem length_taggedRec (label body : Bytes) (nonce : Nonce) :
    (taggedRec dev label body nonce).length = body.length + (nonceLen + tagLen) := by
  simp [taggedRec, nonce.length_eq, dev.psa.length_encrypt]

theorem tagHolds_taggedRec (label : Bytes) {body : Bytes} {n : Nat} (hb : body.length = n)
    (nonce : Nonce) : tagHolds dev label n (taggedRec dev label body nonce) = true := by
  have hn := nonce.length_eq
  have hc : (dev.psa.encrypt dev.ekek nonce.bytes (label ++ body) []).length = tagLen := by
    rw [dev.psa.length_encrypt]
    rfl
  have hbody : slice (taggedRec dev label body nonce) 0 n = body := slice_append_left hb
  have hnonce : slice (taggedRec dev label body nonce) n nonceLen = nonce.bytes := by
    rw [taggedRec, slice_append_right (n := 0) hb, slice_append_left hn]
  have htag : slice (taggedRec dev label body nonce) (n + nonceLen) tagLen =
      dev.psa.encrypt dev.ekek nonce.bytes (label ++ body) [] := by
    rw [taggedRec, slice_append_right (n := nonceLen) (by rw [hb]),
      slice_append_right (n := 0) hn, slice_self hc]
  rw [tagHolds, hbody, hnonce, htag, dev.psa.decrypt_encrypt]
  rfl

@[simp] theorem readMono_monoRec (counter : UInt32) (nonce : Nonce) :
    readMono dev (some (monoRec dev counter nonce)) = counter := by
  have hlen : (monoRec dev counter nonce).length = monoRecLen := by
    rw [monoRec, length_taggedRec]
    rfl
  have htag : tagHolds dev monoLabel 4 (monoRec dev counter nonce) = true :=
    tagHolds_taggedRec monoLabel (length_putLe32 counter) nonce
  simp only [readMono, hlen, ne_eq, not_true_eq_false, if_false, htag, if_true]
  rw [monoRec, taggedRec, getLe32_putLe32]

@[simp] theorem length_body (b : Backoff) : b.body.length = backoffBodyLen := by
  simp [Backoff.body, backoffBodyLen]

@[simp] theorem readBackoff_backoffRec (b : Backoff) (nonce : Nonce) :
    readBackoff dev (some (backoffRec dev b nonce)) = b := by
  have hlen : (backoffRec dev b nonce).length = backoffRecLen := by
    rw [backoffRec, length_taggedRec]
    rfl
  have htag : tagHolds dev backoffLabel backoffBodyLen (backoffRec dev b nonce) = true :=
    tagHolds_taggedRec backoffLabel (length_body b) nonce
  simp only [readBackoff, hlen, ne_eq, not_true_eq_false, if_false, htag, if_true]
  simp [backoffRec, taggedRec, Backoff.body]

@[simp] theorem length_metaBytes (m : TokenMeta) : m.bytes.length = tokenMetaLen := by
  simp [TokenMeta.bytes, tokenMetaLen]

@[simp] theorem ofBytes_metaBytes (m : TokenMeta) : TokenMeta.ofBytes m.bytes = m := by
  have h5 : (putLe32 m.validUntil ++ (putLe32 m.sessionS ++ putLe32 m.mono)).drop 4 =
      putLe32 m.sessionS ++ putLe32 m.mono := drop_left' (length_putLe32 _)
  have h9 : (putLe32 m.sessionS ++ putLe32 m.mono).drop 4 = putLe32 m.mono :=
    drop_left' (length_putLe32 _)
  have h9' : (putLe32 m.validUntil ++ (putLe32 m.sessionS ++ putLe32 m.mono)).drop (4 + 4) =
      putLe32 m.mono := by
    rw [← drop_drop, h5, h9]
  simp only [TokenMeta.ofBytes, TokenMeta.bytes, getD_cons_zero, drop_succ_cons,
    drop_zero, getLe32_putLe32, h5, h9', getLe32_putLe32_self]

@[simp] theorem openToken_tokenRec (dek : AesKey) (m : TokenMeta) (nonce : Nonce) :
    openToken dev (tokenRec dev dek m nonce) = .ok (dek, m) := by
  have hn := nonce.length_eq
  have hc := dev.psa.length_encrypt dev.ekek nonce.bytes (tokenLabel ++ m.bytes) dek.bytes
  rw [dek.length_eq] at hc
  have htake : ((dev.psa.encrypt dev.ekek nonce.bytes (tokenLabel ++ m.bytes) dek.bytes).take
      keyLen).length = keyLen := by
    rw [length_take, hc]
    rfl
  have hdrop : ((dev.psa.encrypt dev.ekek nonce.bytes (tokenLabel ++ m.bytes) dek.bytes).drop
      keyLen).length = tagLen := by
    rw [length_drop, hc]
    rfl
  have hm := length_metaBytes m
  have hsplit := take_append_drop keyLen
    (dev.psa.encrypt dev.ekek nonce.bytes (tokenLabel ++ m.bytes) dek.bytes)
  unfold tokenRec
  simp only
  generalize hct : (dev.psa.encrypt dev.ekek nonce.bytes (tokenLabel ++ m.bytes) dek.bytes).take
    keyLen = ct at htake hsplit ⊢
  generalize htag : (dev.psa.encrypt dev.ekek nonce.bytes (tokenLabel ++ m.bytes) dek.bytes).drop
    keyLen = tag at hdrop hsplit ⊢
  have hlen : (putLe32 magicToken ++ (nonce.bytes ++ (ct ++ (m.bytes ++ tag)))).length =
      tokenRecLen := by
    simp [hn, htake, hdrop, hm, nonceLen, keyLen, tagLen, tokenMetaLen, tokenRecLen]
  have hnonce : slice (putLe32 magicToken ++ (nonce.bytes ++ (ct ++ (m.bytes ++ tag)))) 4
      nonceLen = nonce.bytes := by
    rw [slice_append_right (n := 0) (by simp), slice_append_left hn]
  have hkey : slice (putLe32 magicToken ++ (nonce.bytes ++ (ct ++ (m.bytes ++ tag)))) 16
      keyLen = ct := by
    rw [slice_append_right (n := 12) (by simp), slice_append_right (n := 0) (by rw [hn]; rfl),
      slice_append_left htake]
  have hmeta : slice (putLe32 magicToken ++ (nonce.bytes ++ (ct ++ (m.bytes ++ tag)))) 32
      tokenMetaLen = m.bytes := by
    rw [slice_append_right (n := 28) (by simp), slice_append_right (n := 16) (by rw [hn]; rfl),
      slice_append_right (n := 0) (by rw [htake]; rfl), slice_append_left hm]
  have htagAt : slice (putLe32 magicToken ++ (nonce.bytes ++ (ct ++ (m.bytes ++ tag)))) 45
      tagLen = tag := by
    rw [slice_append_right (n := 41) (by simp), slice_append_right (n := 29) (by rw [hn]; rfl),
      slice_append_right (n := 13) (by rw [htake]; rfl),
      slice_append_right (n := 0) (by rw [hm]; rfl), slice_self hdrop]
  simp only [openToken, hlen, ne_eq, not_true_eq_false, if_false, getLe32_putLe32, hnonce, hkey,
    hmeta, htagAt, hsplit, dev.psa.decrypt_encrypt, Option.bind_some, AesKey.ofBytes_bytes,
    ofBytes_metaBytes]

end Records

end Zephyrtastic.Lockdown
