import EpsilonDB.Engine.Sha256
import EpsilonDB.Lib.Hmac

/-!
# HMAC and key derivation against their standards (`engine/epsilon_crypto.c`)

- `sha256Function`: SHA-256 as the hash function of the two standards.
- `edbHmacSha256_eq`: the tag of the code is the one of RFC 2104.
- `edbHkdfSha256`: extract, then the loop that fills the output buffer block by block.
- `hkdfLoop_eq`: what the loop leaves in the buffer, from any of its turns.
- `hash_stack_standard`: hash, tag and derived key are the standards'.
-/

namespace EpsilonDB

/-- SHA-256, with blocks of 64 bytes. -/
def sha256Function : HashFunction where
  hash := Sha2.sha256
  B := 64
  hashLen := 32
  length_hash := Sha2.length_sha256
  hashLen_pos := by decide
  hashLen_le := by decide

/-! ## HMAC -/

theorem hmacKey_eq (key : Bytes) : hmacKey key = sha256Function.blockKey key := by
  rw [hmacKey, HashFunction.blockKey]
  show _ = (if 64 < key.length then Sha2.sha256 key else key) ++
    List.replicate (64 - (if 64 < key.length then Sha2.sha256 key else key).length) 0
  split
  · rw [edbSha256_eq_sha256, Sha2.length_sha256]
  · rfl

/-- **The tag** is HMAC with SHA-256. -/
theorem edbHmacSha256_eq (key msg : Bytes) :
    edbHmacSha256 key msg = sha256Function.hmac key msg := by
  rw [edbHmacSha256, HashFunction.hmac, HashFunction.xorPad_eq_map, HashFunction.xorPad_eq_map,
    ← hmacKey_eq, edbSha256_eq_sha256, edbSha256_eq_sha256]
  rfl

/-! ## HKDF -/

/-- The loop of `edb_hkdf_sha256`: `t` is the block before, `okm` the output buffer. -/
def hkdfLoop (prk info : Bytes) (okmLen : Nat) (t : Bytes) (offset : Nat) (counter : UInt8)
    (okm : Bytes) : Bytes :=
  if offset < okmLen then
    let need := if okmLen - offset < 32 then okmLen - offset else 32
    let next := edbHmacSha256 prk (t ++ info ++ [counter])
    hkdfLoop prk info okmLen next (offset + need) (counter + 1)
      (okm.take offset ++ next.take need ++ okm.drop (offset + need))
  else okm
termination_by okmLen - offset
decreasing_by
  split <;> omega

/-- The buffer `okm` filled with the derived key, or nothing when it is too long. There is a
salt when the pointer is not null and its length not zero. -/
def edbHkdfSha256 (ikm : Bytes) (salt : Option Bytes) (info okm : Bytes) : Option Bytes :=
  if 255 * 32 < okm.length then none
  else
    let key := salt.getD []
    let prk := if key = [] then edbHmacSha256 (List.replicate 32 0) ikm else edbHmacSha256 key ikm
    some (hkdfLoop prk info okm.length [] 0 1 okm)

/-- What the buffer holds after the first `i` blocks: their first bytes, then what it held. -/
def Expanded (prk info okm₀ : Bytes) (i : Nat) (okm : Bytes) : Prop :=
  okm = (sha256Function.blocksT prk info i).take (min (32 * i) okm₀.length) ++
    okm₀.drop (min (32 * i) okm₀.length)

theorem expanded_zero {prk info : Bytes} (okm : Bytes) : Expanded prk info okm 0 okm := by
  rw [Expanded, Nat.mul_zero, Nat.zero_min, List.take_zero, List.drop_zero, List.nil_append]

/-- One block more, or its first bytes when the buffer ends inside it. -/
theorem Expanded.succ {prk info okm₀ okm : Bytes} {i : Nat} (h : Expanded prk info okm₀ i okm)
    (hlt : 32 * i < okm₀.length) :
    Expanded prk info okm₀ (i + 1)
      (okm.take (32 * i) ++
        (sha256Function.T prk info (i + 1)).take (min 32 (okm₀.length - 32 * i)) ++
          okm.drop (32 * i + min 32 (okm₀.length - 32 * i))) := by
  have hlen : (sha256Function.blocksT prk info i).length = 32 * i := by
    rw [HashFunction.length_blocksT, Nat.mul_comm]
    rfl
  have hmin : min (32 * i) okm₀.length = 32 * i := by omega
  have hnext : min (32 * (i + 1)) okm₀.length = 32 * i + min 32 (okm₀.length - 32 * i) := by omega
  rw [Expanded, hmin, List.take_of_length_le (Nat.le_of_eq hlen)] at h
  have htake : okm.take (32 * i) = sha256Function.blocksT prk info i := by
    rw [h, List.take_left' hlen]
  have hdrop : okm.drop (32 * i) = okm₀.drop (32 * i) := by
    rw [h, List.drop_left' hlen]
  rw [Expanded, hnext, HashFunction.blocksT_succ, htake, ← List.drop_drop, hdrop, List.drop_drop,
    ← hlen, List.take_length_add_append]

/-- **The loop** from any of its turns: the buffer is filled with the expanded key. -/
theorem hkdfLoop_eq {prk info okm₀ okm t : Bytes} {counter : UInt8} {offset i : Nat}
    (hoffset : offset = min (32 * i) okm₀.length) (ht : t = sha256Function.T prk info i)
    (hcounter : counter = UInt8.ofNat (i + 1)) (hokm : Expanded prk info okm₀ i okm) :
    hkdfLoop prk info okm₀.length t offset counter okm =
      sha256Function.expand prk info okm₀.length := by
  fun_induction hkdfLoop prk info okm₀.length t offset counter okm generalizing i with
  | case1 t offset counter okm hlt need next =>
    rename_i ih
    have hroom : 32 * i < okm₀.length := by omega
    have hstart : offset = 32 * i := by omega
    have hneed : need = min 32 (okm₀.length - 32 * i) := by
      show (if okm₀.length - offset < 32 then okm₀.length - offset else 32) = _
      split <;> omega
    have hnext : next = sha256Function.T prk info (i + 1) := by
      show edbHmacSha256 prk (t ++ info ++ [counter]) = _
      rw [edbHmacSha256_eq, ht, hcounter]
      rfl
    refine @ih (i + 1) (by omega) hnext ?_ ?_
    · rw [hcounter, ← UInt8.ofNat_one, ← UInt8.ofNat_add]
    · rw [hnext, hneed, hstart]
      exact hokm.succ hroom
  | case2 t offset counter okm hge =>
    have henough : okm₀.length ≤ i * 32 := by omega
    have hmin : min (32 * i) okm₀.length = okm₀.length := by omega
    rw [hokm, hmin, List.drop_length, List.append_nil]
    exact (HashFunction.expand_eq_take henough).symm

/-- A salt that is absent or empty is a key of zeros. -/
theorem extract_eq (salt : Option Bytes) (ikm : Bytes) :
    sha256Function.extract salt ikm =
      if salt.getD [] = [] then sha256Function.hmac (List.replicate 32 0) ikm
      else sha256Function.hmac (salt.getD []) ikm := by
  cases salt with
  | none => rfl
  | some salt =>
    rw [HashFunction.extract, Option.getD_some, Option.getD_some]
    split
    · next hnil =>
      rw [hnil]
      exact (sha256Function.hmac_replicate_zero (show 32 ≤ 64 by decide) ikm).symm
    · rfl

/-- **The hash stack is its standards'**: SHA-256, with the buffer of the code and bytewise, is
the function of FIPS 180-4; the tag is HMAC; a derived key is HKDF, up to the longest there is. -/
theorem hash_stack_standard :
    (∀ (buffer : Vector UInt8 64) (data : Bytes),
      Buffered.edbSha256 buffer data = Sha2.sha256 data ∧ edbSha256 data = Sha2.sha256 data) ∧
    (∀ key msg : Bytes, edbHmacSha256 key msg = sha256Function.hmac key msg) ∧
    ∀ (ikm : Bytes) (salt : Option Bytes) (info okm : Bytes),
      edbHkdfSha256 ikm salt info okm =
        if okm.length ≤ 255 * 32 then some (sha256Function.hkdf ikm salt info okm.length)
        else none := by
  refine ⟨fun buffer data => ⟨Buffered.edbSha256_eq_sha256 buffer data, edbSha256_eq_sha256 data⟩,
    edbHmacSha256_eq, fun ikm salt info okm => ?_⟩
  have hfill : ∀ prk : Bytes, hkdfLoop prk info okm.length [] 0 1 okm =
      sha256Function.expand prk info okm.length :=
    fun prk => hkdfLoop_eq (Nat.zero_min _).symm rfl rfl (expanded_zero okm)
  rw [edbHkdfSha256]
  split
  · next hlong => rw [if_neg (Nat.not_le.mpr hlong)]
  · next hfits =>
    rw [if_pos (Nat.not_lt.mp hfits)]
    show some (hkdfLoop (if salt.getD [] = [] then edbHmacSha256 (List.replicate 32 0) ikm
      else edbHmacSha256 (salt.getD []) ikm) info okm.length [] 0 1 okm) = _
    rw [hfill, edbHmacSha256_eq, edbHmacSha256_eq, HashFunction.hkdf, extract_eq]

end EpsilonDB
