import EpsilonDB.Engine.CString
import Mathlib.Data.List.Basic

/-!
# Authenticated encryption (`engine/epsilon_crypto.c`, `engine/sha256.c`)

ChaCha20 and HMAC-SHA256 composed as encrypt-then-MAC. A word is a `UInt32` and wraps as
in C; buffers of a fixed size are vectors, the others lists of bytes. Memory is taken to
be available.

- `chacha20Block`, `edbChacha20Xor`: the stream cipher. `edbChacha20Xor_self`: the same
  operation decrypts.
- `edbSha256`, `edbHmacSha256`: the hash and the tag, always of 32 bytes.
- `edbAeadSeal`, `edbAeadOpen`: nonce, ciphertext and tag, in this order.
- `edbAeadOpen_edbAeadSeal`: what one side sealed the other opens.
-/

namespace EpsilonDB

abbrev Bytes := List UInt8

/-! ## ChaCha20 -/

/-- `load32_le(p + i)`. -/
def load32Le {n : Nat} (p : Vector UInt8 n) (i : Nat) (h : i + 3 < n) : UInt32 :=
  p[i].toUInt32 ||| (p[i + 1].toUInt32 <<< 8) ||| (p[i + 2].toUInt32 <<< 16) |||
    (p[i + 3].toUInt32 <<< 24)

def store32Le (v : UInt32) : Bytes :=
  [v.toUInt8, (v >>> 8).toUInt8, (v >>> 16).toUInt8, (v >>> 24).toUInt8]

def rotl32 (v n : UInt32) : UInt32 := (v <<< n) ||| (v >>> (32 - n))

/-- `QR(x[a], x[b], x[c], x[d])`. -/
def qr (a b c d : Fin 16) (x : Vector UInt32 16) : Vector UInt32 16 :=
  let x := x.set a (x[a] + x[b])
  let x := x.set d (rotl32 (x[d] ^^^ x[a]) 16)
  let x := x.set c (x[c] + x[d])
  let x := x.set b (rotl32 (x[b] ^^^ x[c]) 12)
  let x := x.set a (x[a] + x[b])
  let x := x.set d (rotl32 (x[d] ^^^ x[a]) 8)
  let x := x.set c (x[c] + x[d])
  x.set b (rotl32 (x[b] ^^^ x[c]) 7)

/-- One column round and one diagonal round. -/
def doubleRound (x : Vector UInt32 16) : Vector UInt32 16 :=
  qr 3 4 9 14 (qr 2 7 8 13 (qr 1 6 11 12 (qr 0 5 10 15
    (qr 3 7 11 15 (qr 2 6 10 14 (qr 1 5 9 13 (qr 0 4 8 12 x)))))))

def chacha20Block (input : Vector UInt32 16) : Vector UInt32 16 :=
  Vector.zipWith (· + ·) (Nat.fold 10 (fun _ _ x => doubleRound x) input) input

def chacha20Init (key : Vector UInt8 32) (counter : UInt32) (nonce : Vector UInt8 12) :
    Vector UInt32 16 :=
  (#v[0x61707865, 0x3320646e, 0x79622d32, 0x6b206574] : Vector UInt32 4) ++
    (Vector.ofFn fun i : Fin 8 => load32Le key (4 * i) (by omega)) ++ #v[counter] ++
    Vector.ofFn fun i : Fin 3 => load32Le nonce (4 * i) (by omega)

/-- The 64 bytes of one block. -/
def keystream (key : Vector UInt8 32) (nonce : Vector UInt8 12) (counter : UInt32) : Bytes :=
  (chacha20Block (chacha20Init key counter nonce)).toList.flatMap store32Le

/-- The input against the keystream, block by block. -/
def edbChacha20Xor (key : Vector UInt8 32) (nonce : Vector UInt8 12) (counter : UInt32)
    (input : Bytes) : Bytes :=
  if input = [] then []
  else
    List.zipWith (· ^^^ ·) (input.take 64) (keystream key nonce counter) ++
      edbChacha20Xor key nonce (counter + 1) (input.drop 64)
termination_by input.length
decreasing_by
  have := List.length_pos_iff.mpr ‹_›
  rw [List.length_drop]
  omega

/-! ## SHA-256 -/

/-- The round constants. -/
def sha256K : Vector UInt32 64 := #v[
  0x428a2f98, 0x71374491, 0xb5c0fbcf, 0xe9b5dba5, 0x3956c25b, 0x59f111f1, 0x923f82a4, 0xab1c5ed5,
  0xd807aa98, 0x12835b01, 0x243185be, 0x550c7dc3, 0x72be5d74, 0x80deb1fe, 0x9bdc06a7, 0xc19bf174,
  0xe49b69c1, 0xefbe4786, 0x0fc19dc6, 0x240ca1cc, 0x2de92c6f, 0x4a7484aa, 0x5cb0a9dc, 0x76f988da,
  0x983e5152, 0xa831c66d, 0xb00327c8, 0xbf597fc7, 0xc6e00bf3, 0xd5a79147, 0x06ca6351, 0x14292967,
  0x27b70a85, 0x2e1b2138, 0x4d2c6dfc, 0x53380d13, 0x650a7354, 0x766a0abb, 0x81c2c92e, 0x92722c85,
  0xa2bfe8a1, 0xa81a664b, 0xc24b8b70, 0xc76c51a3, 0xd192e819, 0xd6990624, 0xf40e3585, 0x106aa070,
  0x19a4c116, 0x1e376c08, 0x2748774c, 0x34b0bcb5, 0x391c0cb3, 0x4ed8aa4a, 0x5b9cca4f, 0x682e6ff3,
  0x748f82ee, 0x78a5636f, 0x84c87814, 0x8cc70208, 0x90befffa, 0xa4506ceb, 0xbef9a3f7, 0xc67178f2]

structure Sha256Ctx where
  state : Vector UInt32 8
  bitlen : UInt64
  buffer : Bytes

def rotr (x n : UInt32) : UInt32 := (x >>> n) ||| (x <<< (32 - n))

/-- A big-endian word of the block; the block has 64 bytes. -/
def load32Be (p : Bytes) (i : Nat) : UInt32 :=
  ((p.getD i 0).toUInt32 <<< 24) ||| ((p.getD (i + 1) 0).toUInt32 <<< 16) |||
    ((p.getD (i + 2) 0).toUInt32 <<< 8) ||| (p.getD (i + 3) 0).toUInt32

/-- The message schedule `w`. -/
def sha256Schedule (p : Bytes) : Vector UInt32 64 :=
  Nat.fold 48
    (fun k hk w =>
      let s0 := rotr w[k + 1] 7 ^^^ rotr w[k + 1] 18 ^^^ (w[k + 1] >>> 3)
      let s1 := rotr w[k + 14] 17 ^^^ rotr w[k + 14] 19 ^^^ (w[k + 14] >>> 10)
      w.set (k + 16) (w[k] + s0 + w[k + 9] + s1))
    (Vector.ofFn fun i : Fin 64 => if (i : Nat) < 16 then load32Be p (4 * i) else 0)

/-- One round on the eight working variables `a` to `h`. -/
def sha256Round (k w : UInt32) (v : Vector UInt32 8) : Vector UInt32 8 :=
  let s1 := rotr v[4] 6 ^^^ rotr v[4] 11 ^^^ rotr v[4] 25
  let ch := (v[4] &&& v[5]) ^^^ (~~~v[4] &&& v[6])
  let t1 := v[7] + s1 + ch + k + w
  let s0 := rotr v[0] 2 ^^^ rotr v[0] 13 ^^^ rotr v[0] 22
  let maj := (v[0] &&& v[1]) ^^^ (v[0] &&& v[2]) ^^^ (v[1] &&& v[2])
  #v[t1 + (s0 + maj), v[0], v[1], v[2], v[3] + t1, v[4], v[5], v[6]]

def sha256Block (state : Vector UInt32 8) (p : Bytes) : Vector UInt32 8 :=
  Vector.zipWith (· + ·) state
    (Nat.fold 64 (fun i hi v => sha256Round sha256K[i] (sha256Schedule p)[i] v) state)

def sha256Init : Sha256Ctx where
  state := #v[0x6a09e667, 0xbb67ae85, 0x3c6ef372, 0xa54ff53a, 0x510e527f, 0x9b05688c, 0x1f83d9ab,
    0x5be0cd19]
  bitlen := 0
  buffer := []

/-- One byte into the buffer; a full buffer is a block. -/
def sha256Push (ctx : Sha256Ctx) (b : UInt8) : Sha256Ctx :=
  if ctx.buffer.length = 63 then
    { ctx with state := sha256Block ctx.state (ctx.buffer ++ [b]), buffer := [] }
  else { ctx with buffer := ctx.buffer ++ [b] }

def sha256Update (ctx : Sha256Ctx) (data : Bytes) : Sha256Ctx :=
  let ctx := { ctx with bitlen := ctx.bitlen + UInt64.ofNat data.length * 8 }
  data.foldl sha256Push ctx

/-- The padding up to byte 56 of a block, the bit length and the digest. -/
def sha256Final (ctx : Sha256Ctx) : Bytes :=
  let bitlen := ctx.bitlen
  let ctx := sha256Update ctx [0x80]
  let ctx := sha256Update ctx (List.replicate ((120 - ctx.buffer.length) % 64) 0)
  let ctx := sha256Update ctx
    ((List.range 8).map fun i => (bitlen >>> UInt64.ofNat (8 * (7 - i))).toUInt8)
  ctx.state.toList.flatMap fun v => (store32Le v).reverse

def edbSha256 (data : Bytes) : Bytes := sha256Final (sha256Update sha256Init data)

/-! ## HMAC -/

/-- The 64 bytes of the padded key. -/
def hmacKey (key : Bytes) : Bytes :=
  if 64 < key.length then edbSha256 key ++ List.replicate 32 0
  else key ++ List.replicate (64 - key.length) 0

def edbHmacSha256 (key msg : Bytes) : Bytes :=
  let ipad := (hmacKey key).map (· ^^^ 0x36)
  let opad := (hmacKey key).map (· ^^^ 0x5c)
  edbSha256 (opad ++ edbSha256 (ipad ++ msg))

/-! ## Encrypt-then-MAC -/

/-- `EDB_NONCE_LEN`. -/
def nonceLen : Nat := 12

/-- `EDB_TAG_LEN`. -/
def tagLen : Nat := 32

/-- `ct_equal` on buffers of one length. -/
def ctEqual (a b : Bytes) : Bool :=
  (List.zipWith (· ^^^ ·) a b).foldl (· ||| ·) 0 == 0

/-- Nonce, ciphertext and tag, or nothing when they do not fit `outCap` bytes. -/
def edbAeadSeal (encKey macKey : Vector UInt8 32) (nonce : Vector UInt8 12) (aad plain : Bytes)
    (outCap : Nat) : Option Bytes :=
  if outCap < nonceLen + plain.length + tagLen then none
  else
    let out := nonce.toList ++ edbChacha20Xor encKey nonce 1 plain
    some (out ++ edbHmacSha256 macKey.toList (aad ++ out))

/-- The nonce of a sealed message: its first 12 bytes. -/
def nonceOf (input : Bytes) : Vector UInt8 12 := Vector.ofFn fun i : Fin 12 => input.getD i 0

/-- The plaintext, or nothing when the message is too short, too long for the buffer or
its tag is wrong. -/
def edbAeadOpen (encKey macKey : Vector UInt8 32) (aad input : Bytes) (outCap : Nat) :
    Option Bytes :=
  if input.length < nonceLen + tagLen then none
  else
    let plainLen := input.length - nonceLen - tagLen
    if outCap < plainLen then none
    else
      let expected := edbHmacSha256 macKey.toList (aad ++ input.take (nonceLen + plainLen))
      if ctEqual expected (input.drop (nonceLen + plainLen)) then
        some (edbChacha20Xor encKey (nonceOf input) 1 ((input.drop nonceLen).take plainLen))
      else none

/-! ## Lengths -/

@[simp] theorem length_store32Le (v : UInt32) : (store32Le v).length = 4 := rfl

theorem length_keystream (key : Vector UInt8 32) (nonce : Vector UInt8 12) (counter : UInt32) :
    (keystream key nonce counter).length = 64 := by
  simp [keystream, List.length_flatMap]

theorem length_edbChacha20Xor (key : Vector UInt8 32) (nonce : Vector UInt8 12)
    (counter : UInt32) (input : Bytes) :
    (edbChacha20Xor key nonce counter input).length = input.length := by
  induction counter, input using edbChacha20Xor.induct with
  | case1 counter =>
    rw [edbChacha20Xor, if_pos rfl]
  | case2 counter input hne ih =>
    rw [edbChacha20Xor, if_neg hne, List.length_append, ih, List.length_zipWith,
      length_keystream, List.length_take, List.length_drop]
    omega

theorem length_edbSha256 (data : Bytes) : (edbSha256 data).length = 32 := by
  simp [edbSha256, sha256Final, List.length_flatMap]

theorem length_edbHmacSha256 (key msg : Bytes) : (edbHmacSha256 key msg).length = 32 :=
  length_edbSha256 _

/-! ## Decryption inverts encryption -/

/-- A keystream applied twice is the identity. -/
theorem zipWith_xor_self {ks input : Bytes} (h : input.length ≤ ks.length) :
    List.zipWith (· ^^^ ·) (List.zipWith (· ^^^ ·) input ks) ks = input := by
  induction input generalizing ks with
  | nil => simp
  | cons x input ih =>
    cases ks with
    | nil => simp at h
    | cons k ks =>
      rw [List.zipWith_cons_cons, List.zipWith_cons_cons, ih (by simpa using h), UInt8.xor_assoc,
        UInt8.xor_self, UInt8.xor_zero]

/-- A block and what follows it, when only a whole block is followed by anything. -/
theorem take_drop_block {block rest : Bytes} (hle : block.length ≤ 64)
    (h : block.length = 64 ∨ rest = []) :
    (block ++ rest).take 64 = block ∧ (block ++ rest).drop 64 = rest := by
  rcases h with h | rfl
  · rw [← h, List.take_left, List.drop_left]
    exact ⟨rfl, rfl⟩
  · rw [List.append_nil, List.take_of_length_le hle, List.drop_of_length_le hle]
    exact ⟨rfl, rfl⟩

/-- **The cipher is its own inverse**, under one key, nonce and counter. -/
theorem edbChacha20Xor_self (key : Vector UInt8 32) (nonce : Vector UInt8 12) (counter : UInt32)
    (input : Bytes) :
    edbChacha20Xor key nonce counter (edbChacha20Xor key nonce counter input) = input := by
  induction counter, input using edbChacha20Xor.induct with
  | case1 counter =>
    have hnil : edbChacha20Xor key nonce counter [] = [] := by
      rw [edbChacha20Xor, if_pos rfl]
    rw [hnil, hnil]
  | case2 counter input hne ih =>
    have hblock : (List.zipWith (· ^^^ ·) (input.take 64) (keystream key nonce counter)).length =
        min 64 input.length := by
      rw [List.length_zipWith, length_keystream, List.length_take]
      omega
    have hrest := length_edbChacha20Xor key nonce (counter + 1) (input.drop 64)
    rw [List.length_drop] at hrest
    -- the ciphertext splits where the plaintext does
    have hwhole : (List.zipWith (· ^^^ ·) (input.take 64)
        (keystream key nonce counter)).length = 64 ∨
          edbChacha20Xor key nonce (counter + 1) (input.drop 64) = [] := by
      rcases Nat.lt_or_ge 64 input.length with h | h
      · exact Or.inl (by omega)
      · exact Or.inr (List.length_eq_zero_iff.mp (by omega))
    obtain ⟨htake, hdrop⟩ := take_drop_block (by omega) hwhole
    have hout : edbChacha20Xor key nonce counter input =
        List.zipWith (· ^^^ ·) (input.take 64) (keystream key nonce counter) ++
          edbChacha20Xor key nonce (counter + 1) (input.drop 64) := by
      rw [edbChacha20Xor, if_neg hne]
    have houtne : edbChacha20Xor key nonce counter input ≠ [] := by
      rw [← List.length_pos_iff, length_edbChacha20Xor]
      exact List.length_pos_iff.mpr hne
    rw [edbChacha20Xor, if_neg houtne, hout, htake, hdrop, ih, zipWith_xor_self,
      List.take_append_drop]
    rw [length_keystream, List.length_take]
    omega

theorem ctEqual_self (a : Bytes) : ctEqual a a = true := by
  have hzero : ∀ a : Bytes, (List.zipWith (· ^^^ ·) a a).foldl (· ||| ·) 0 = 0 := by
    intro a
    induction a with
    | nil => rfl
    | cons x a ih =>
      rw [List.zipWith_cons_cons, List.foldl_cons, UInt8.xor_self, UInt8.or_zero]
      exact ih
  rw [ctEqual, hzero]
  rfl

theorem nonceOf_append (nonce : Vector UInt8 12) (rest : Bytes) :
    nonceOf (nonce.toList ++ rest) = nonce := by
  apply Vector.ext
  intro i hi
  have hlt : i < nonce.toList.length := by simpa using hi
  rw [nonceOf, Vector.getElem_ofFn, List.getD_eq_getElem?_getD, List.getElem?_append_left hlt,
    List.getElem?_eq_getElem hlt, Option.getD_some, Vector.getElem_toList]

/-- **What is sealed opens** to the plaintext, under the same keys and associated data. -/
theorem edbAeadOpen_edbAeadSeal (encKey macKey : Vector UInt8 32) (nonce : Vector UInt8 12)
    (aad plain : Bytes) :
    ∃ out, edbAeadSeal encKey macKey nonce aad plain (nonceLen + plain.length + tagLen) =
        some out ∧ out.length = nonceLen + plain.length + tagLen ∧
      edbAeadOpen encKey macKey aad out plain.length = some plain := by
  set cipher := edbChacha20Xor encKey nonce 1 plain with hcipher
  have hlen : cipher.length = plain.length := length_edbChacha20Xor ..
  set tag := edbHmacSha256 macKey.toList (aad ++ (nonce.toList ++ cipher)) with htag
  have htagLen : tag.length = tagLen := length_edbHmacSha256 ..
  have hbody : (nonce.toList ++ cipher).length = nonceLen + plain.length := by
    rw [List.length_append, hlen, Vector.length_toList]
    rfl
  have htotal : (nonce.toList ++ cipher ++ tag).length = nonceLen + plain.length + tagLen := by
    rw [List.length_append, hbody, htagLen]
  refine ⟨nonce.toList ++ cipher ++ tag, ?_, htotal, ?_⟩
  · rw [edbAeadSeal, if_neg (Nat.lt_irrefl _)]
  · have hplain : (nonce.toList ++ cipher ++ tag).length - nonceLen - tagLen = plain.length := by
      omega
    have hsplit : (nonce.toList ++ cipher ++ tag).drop nonceLen = cipher ++ tag := by
      rw [List.append_assoc]
      exact List.drop_left' nonce.length_toList
    simp only [edbAeadOpen, hplain]
    rw [if_neg (by omega), if_neg (Nat.lt_irrefl _), List.take_left' hbody, List.drop_left' hbody,
      ← htag, ctEqual_self, if_pos rfl, hsplit, List.take_left' hlen, List.append_assoc,
      nonceOf_append, hcipher, edbChacha20Xor_self]

end EpsilonDB
