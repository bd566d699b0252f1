import Mathlib.Data.List.Basic
import Mathlib.Algebra.Group.Nat.Defs

/-!
# HMAC (RFC 2104) and HKDF (RFC 5869)

A message authentication code and a key derivation function over any hash function that works
on blocks.

- `HashFunction`: the hash, its block length `B` and its output length.
- `HashFunction.hmac`: the code. `hmac_replicate_zero`: a key of zeros that fits a block is the
  empty key.
- `HashFunction.extract`, `T`, `expand`, `hkdf`: extract, then expand.
- `expand_eq_take`: any number of blocks that is enough gives the output.
-/

/-- A hash function on blocks of `B` bytes with an output that fits one. -/
structure HashFunction where
  hash : List UInt8 → List UInt8
  B : Nat
  hashLen : Nat
  length_hash : ∀ m, (hash m).length = hashLen
  hashLen_pos : 0 < hashLen
  hashLen_le : hashLen ≤ B

namespace HashFunction

variable (H : HashFunction)

/-! ## HMAC -/

/-- The key, hashed when it is longer than a block, and zeros up to a block. -/
def blockKey (key : List UInt8) : List UInt8 :=
  let key := if H.B < key.length then H.hash key else key
  key ++ List.replicate (H.B - key.length) 0

/-- The key against a byte repeated `B` times. -/
def xorPad (key : List UInt8) (b : UInt8) : List UInt8 :=
  List.zipWith (· ^^^ ·) (H.blockKey key) (List.replicate H.B b)

def hmac (key text : List UInt8) : List UInt8 :=
  H.hash (H.xorPad key 0x5c ++ H.hash (H.xorPad key 0x36 ++ text))

theorem length_hmac (key text : List UInt8) : (H.hmac key text).length = H.hashLen :=
  H.length_hash _

theorem length_blockKey (key : List UInt8) : (H.blockKey key).length = H.B := by
  have hle := H.hashLen_le
  rw [blockKey, List.length_append, List.length_replicate]
  split
  · rw [H.length_hash]
    omega
  · omega

/-- Each byte of the key against the byte. -/
theorem xorPad_eq_map (key : List UInt8) (b : UInt8) :
    H.xorPad key b = (H.blockKey key).map (· ^^^ b) := by
  have hzip : ∀ k : List UInt8,
      List.zipWith (· ^^^ ·) k (List.replicate k.length b) = k.map (· ^^^ b) := by
    intro k
    induction k with
    | nil => rfl
    | cons x k ih =>
      rw [List.length_cons, List.replicate_succ, List.zipWith_cons_cons, ih, List.map_cons]
  rw [xorPad, ← hzip, H.length_blockKey]

/-- **A key of zeros** that fits a block is the empty key. -/
theorem hmac_replicate_zero {n : Nat} (h : n ≤ H.B) (text : List UInt8) :
    H.hmac (List.replicate n 0) text = H.hmac [] text := by
  have hkey : H.blockKey (List.replicate n 0) = H.blockKey [] := by
    rw [blockKey, blockKey, if_neg (by rw [List.length_replicate]; omega),
      if_neg (by rw [List.length_nil]; omega), List.length_replicate,
      List.replicate_append_replicate, List.nil_append, List.length_nil]
    congr 1
    omega
  rw [hmac, hmac, xorPad, xorPad, xorPad, xorPad, hkey]

/-! ## HKDF -/

/-- A salt that is not provided is a string of `hashLen` zeros. -/
def extract (salt : Option (List UInt8)) (ikm : List UInt8) : List UInt8 :=
  H.hmac (salt.getD (List.replicate H.hashLen 0)) ikm

/-- The blocks `T(0)`, `T(1)` and so on. -/
def T (prk info : List UInt8) : Nat → List UInt8
  | 0 => []
  | i + 1 => H.hmac prk (T prk info i ++ info ++ [UInt8.ofNat (i + 1)])

/-- The blocks `T(1)` to `T(n)`. -/
def blocksT (prk info : List UInt8) (n : Nat) : List UInt8 :=
  (List.range n).flatMap fun i => H.T prk info (i + 1)

/-- The first `L` bytes of `T(1)` to `T(N)`, with `N` the least that has them. -/
def expand (prk info : List UInt8) (L : Nat) : List UInt8 :=
  (H.blocksT prk info ((L + H.hashLen - 1) / H.hashLen)).take L

def hkdf (ikm : List UInt8) (salt : Option (List UInt8)) (info : List UInt8) (L : Nat) :
    List UInt8 :=
  H.expand (H.extract salt ikm) info L

variable {H} {prk info : List UInt8}

theorem blocksT_succ (n : Nat) :
    H.blocksT prk info (n + 1) = H.blocksT prk info n ++ H.T prk info (n + 1) := by
  rw [blocksT, List.range_succ, List.flatMap_append, List.flatMap_singleton, blocksT]

theorem length_blocksT (n : Nat) : (H.blocksT prk info n).length = n * H.hashLen := by
  induction n with
  | zero => rw [Nat.zero_mul]; rfl
  | succ n ih => rw [blocksT_succ, List.length_append, ih, T, length_hmac, Nat.succ_mul]

theorem blocksT_prefix {m n : Nat} (h : m ≤ n) : H.blocksT prk info m <+: H.blocksT prk info n := by
  induction h with
  | refl => exact List.prefix_refl _
  | @step n _ ih => exact ih.trans (blocksT_succ n ▸ List.prefix_append _ _)

/-- **Enough blocks** give the output, however many. -/
theorem expand_eq_take {L n : Nat} (h : L ≤ n * H.hashLen) :
    H.expand prk info L = (H.blocksT prk info n).take L := by
  have hpos := H.hashLen_pos
  set N := (L + H.hashLen - 1) / H.hashLen with hN
  have hleast : L ≤ N * H.hashLen := by
    have hlt := Nat.lt_div_mul_add (a := L + H.hashLen - 1) hpos
    rw [← hN] at hlt
    omega
  have hNn : N ≤ n := by
    rw [hN, Nat.div_le_iff_le_mul_add_pred hpos, Nat.mul_comm]
    omega
  have hprefix : H.blocksT prk info N <+: H.blocksT prk info n := blocksT_prefix hNn
  obtain ⟨rest, hrest⟩ := hprefix
  rw [expand, ← hN, ← hrest, List.take_append_of_le_length]
  rw [length_blocksT]
  exact hleast

end HashFunction
