import EpsilonDB.Engine.Crypto

/-!
# Sealed messages are canonical (`engine/epsilon_crypto.c`)

A message that opens is the one message that its plaintext is sealed to, under the nonce it
carries: nothing can be changed in it, not even in a way that keeps the plaintext.

- `ctEqual_iff`: the comparison of the tags looks at every byte.
- `edbAeadSeal_of_open`: what opens is sealed to itself.
- `aead_exact`: the two directions, into buffers of any size that is large enough.

The plaintexts are shorter than `2 ^ 31`, so the length that `edb_aead_open` returns is no error.
-/

namespace EpsilonDB

variable {encKey macKey : Vector UInt8 32} {aad input plain : Bytes} {cap : Nat}

theorem foldl_or_eq_zero (bytes : Bytes) (acc : UInt8) :
    bytes.foldl (· ||| ·) acc = 0 ↔ acc = 0 ∧ ∀ b ∈ bytes, b = 0 := by
  induction bytes generalizing acc with
  | nil => simp
  | cons b bytes ih =>
    rw [List.foldl_cons, ih, UInt8.or_eq_zero_iff, List.forall_mem_cons, and_assoc]

/-- The bytes of buffers that do not differ are the same. -/
theorem eq_of_zipWith_xor {a b : Bytes} (hlen : a.length = b.length)
    (h : ∀ d ∈ List.zipWith (· ^^^ ·) a b, d = 0) : a = b := by
  induction a generalizing b with
  | nil => exact (List.eq_nil_of_length_eq_zero hlen.symm).symm
  | cons x a ih =>
    cases b with
    | nil => cases hlen
    | cons y b =>
      rw [List.zipWith_cons_cons, List.forall_mem_cons, UInt8.xor_eq_zero_iff] at h
      rw [h.1, ih (Nat.succ.inj hlen) h.2]

/-- **The comparison** of two buffers of one length. -/
theorem ctEqual_iff {a b : Bytes} (hlen : a.length = b.length) : ctEqual a b = true ↔ a = b := by
  constructor
  · intro h
    have hzero : (List.zipWith (· ^^^ ·) a b).foldl (· ||| ·) 0 = 0 := eq_of_beq h
    exact eq_of_zipWith_xor hlen ((foldl_or_eq_zero _ _).mp hzero).2
  · rintro rfl
    exact ctEqual_self a

/-- What is known of a message that opens. -/
theorem edbAeadOpen_cases (h : edbAeadOpen encKey macKey aad input cap = some plain) :
    nonceLen + plain.length + tagLen = input.length ∧ plain.length ≤ cap ∧
      input.drop (nonceLen + plain.length) =
        edbHmacSha256 macKey.toList (aad ++ input.take (nonceLen + plain.length)) ∧
      plain = edbChacha20Xor encKey (nonceOf input) 1
        ((input.drop nonceLen).take plain.length) := by
  unfold edbAeadOpen at h
  dsimp only at h
  split at h
  · cases h
  · next hlong =>
    split at h
    · cases h
    · next hcap =>
      split at h
      · next htag =>
        obtain rfl := Option.some.inj h
        have hbody : ((input.drop nonceLen).take (input.length - nonceLen - tagLen)).length =
            input.length - nonceLen - tagLen := by
          rw [List.length_take, List.length_drop]
          omega
        have hlen := length_edbChacha20Xor encKey (nonceOf input) 1
          ((input.drop nonceLen).take (input.length - nonceLen - tagLen))
        rw [hbody] at hlen
        rw [hlen]
        refine ⟨by omega, by omega, ?_, rfl⟩
        refine ((ctEqual_iff ?_).mp htag).symm
        rw [length_edbHmacSha256, List.length_drop]
        have htagLen : tagLen = 32 := rfl
        omega
      · cases h

/-- The nonce that a message carries. -/
theorem toList_nonceOf (h : nonceLen ≤ input.length) :
    (nonceOf input).toList = input.take nonceLen := by
  rw [nonceOf, Vector.toList_ofFn]
  apply List.ext_getElem
  · rw [List.length_ofFn, List.length_take]
    exact (min_eq_left h).symm
  · intro i hi _
    rw [List.length_ofFn] at hi
    have hlt : i < input.length := lt_of_lt_of_le hi h
    rw [List.getElem_ofFn, List.getElem_take, List.getD_eq_getElem?_getD,
      List.getElem?_eq_getElem hlt, Option.getD_some]

/-- **What opens is sealed to itself.** -/
theorem edbAeadSeal_of_open (h : edbAeadOpen encKey macKey aad input cap = some plain)
    {outCap : Nat} (hcap : nonceLen + plain.length + tagLen ≤ outCap) :
    edbAeadSeal encKey macKey (nonceOf input) aad plain outCap = some input := by
  obtain ⟨hlen, -, htag, hplain⟩ := edbAeadOpen_cases h
  have hcipher : edbChacha20Xor encKey (nonceOf input) 1 plain =
      (input.drop nonceLen).take plain.length := by
    conv_lhs => rw [hplain]
    rw [edbChacha20Xor_self]
  have hbody : (nonceOf input).toList ++ edbChacha20Xor encKey (nonceOf input) 1 plain =
      input.take (nonceLen + plain.length) := by
    rw [toList_nonceOf (by omega), hcipher, List.take_add]
  rw [edbAeadSeal, if_neg (not_lt.mpr hcap)]
  dsimp only
  rw [hbody, ← htag, List.take_append_drop]

/-- A larger buffer takes the plaintext as well. -/
theorem edbAeadOpen_of_le (h : edbAeadOpen encKey macKey aad input cap = some plain) {cap' : Nat}
    (hcap : plain.length ≤ cap') : edbAeadOpen encKey macKey aad input cap' = some plain := by
  obtain ⟨hlen, hle, -, -⟩ := edbAeadOpen_cases h
  have hplain : input.length - nonceLen - tagLen = plain.length := by omega
  unfold edbAeadOpen at h ⊢
  dsimp only at h ⊢
  rw [hplain, if_neg (not_lt.mpr hle)] at h
  rw [hplain, if_neg (not_lt.mpr hcap)]
  exact h

/-- **The encryption is exact.** What is sealed opens to the plaintext, and what opens is byte
for byte what its plaintext is sealed to, under the nonce it carries. -/
theorem aead_exact (encKey macKey : Vector UInt8 32) (aad : Bytes) :
    (∀ (nonce : Vector UInt8 12) (plain : Bytes) (outCap cap : Nat),
      nonceLen + plain.length + tagLen ≤ outCap → plain.length ≤ cap →
      ∃ out, edbAeadSeal encKey macKey nonce aad plain outCap = some out ∧
        edbAeadOpen encKey macKey aad out cap = some plain) ∧
    ∀ (input plain : Bytes) (outCap cap : Nat),
      edbAeadOpen encKey macKey aad input cap = some plain →
      nonceLen + plain.length + tagLen ≤ outCap →
      edbAeadSeal encKey macKey (nonceOf input) aad plain outCap = some input := by
  refine ⟨fun nonce plain outCap cap houtCap hcap => ?_, fun input plain outCap cap h houtCap => ?_⟩
  · obtain ⟨out, hseal, -, hopen⟩ := edbAeadOpen_edbAeadSeal encKey macKey nonce aad plain
    refine ⟨out, ?_, edbAeadOpen_of_le hopen hcap⟩
    rw [edbAeadSeal, if_neg (Nat.lt_irrefl _)] at hseal
    rw [edbAeadSeal, if_neg (not_lt.mpr houtCap)]
    exact hseal
  · exact edbAeadSeal_of_open h houtCap

/-- The numbers from 0 on, a key and a plaintext of three blocks. -/
def countedKey : Vector UInt8 32 := Vector.ofFn fun i => UInt8.ofNat i

def countedPlain : Bytes := (List.range 150).map UInt8.ofNat

/-- Three blocks under two keys: the message opens, and no other one of its nonce does. -/
theorem aead_exact_blocks :
    ∃ out, edbAeadSeal countedKey countedKey.reverse (Vector.replicate 12 7) [1, 2] countedPlain
        194 = some out ∧
      edbAeadOpen countedKey countedKey.reverse [1, 2] out 150 = some countedPlain ∧
      ∀ input, nonceOf input = nonceOf out →
        edbAeadOpen countedKey countedKey.reverse [1, 2] input 150 = some countedPlain →
          input = out := by
  obtain ⟨hsealed, hopened⟩ := aead_exact countedKey countedKey.reverse [1, 2]
  have hlength : countedPlain.length = 150 := by simp [countedPlain]
  have hroom : nonceLen + countedPlain.length + tagLen ≤ 194 := by
    rw [hlength]
    decide
  obtain ⟨out, hseal, hopen⟩ := hsealed (Vector.replicate 12 7) countedPlain 194 150 hroom hlength.le
  refine ⟨out, hseal, hopen, fun input hnonce hinput => ?_⟩
  have hout := hopened out countedPlain 194 150 hopen hroom
  have hother := hopened input countedPlain 194 150 hinput hroom
  rw [hnonce, hout] at hother
  exact (Option.some.inj hother).symm

end EpsilonDB
