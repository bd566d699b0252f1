import EpsilonDB.Lib.BlockFold
import Mathlib.Data.Nat.NthRoot.Defs
import Mathlib.Data.Nat.Prime.Basic

/-!
# SHA-256 (FIPS 180-4)

The hash function as the standard defines it, on texts of whole bytes. A word has 32 bits and
addition is modulo 2³². The constants are computed from the primes, as the standard says where
they come from.

- `Ch`, `Maj`, `Sigma0`, `Sigma1`, `sigma0`, `sigma1`: the functions of §4.1.2.
- `K`, `initial`: the constants of §4.2.2 and the initial hash value of §5.3.3.
- `W`, `round`, `compress`: the message schedule, one step and the function of one block (§6.2.2).
- `pad`: the padded text (§5.1.1).
- `sha256`: the digest.
-/

namespace Sha2

open BlockFold

abbrev Word := BitVec 32

/-! ## The functions and the constants -/

def Ch (x y z : Word) : Word := (x &&& y) ^^^ (~~~x &&& z)

def Maj (x y z : Word) : Word := (x &&& y) ^^^ (x &&& z) ^^^ (y &&& z)

def Sigma0 (x : Word) : Word := x.rotateRight 2 ^^^ x.rotateRight 13 ^^^ x.rotateRight 22

def Sigma1 (x : Word) : Word := x.rotateRight 6 ^^^ x.rotateRight 11 ^^^ x.rotateRight 25

def sigma0 (x : Word) : Word := x.rotateRight 7 ^^^ x.rotateRight 18 ^^^ (x >>> 3)

def sigma1 (x : Word) : Word := x.rotateRight 17 ^^^ x.rotateRight 19 ^^^ (x >>> 10)

/-- The first 64 prime numbers. -/
def primes : List Nat := (List.range 312).filter fun n => Nat.Prime n

/-- Trial division by the primes below 18. -/
theorem prime_iff_trial {n : Nat} (h : n < 324) :
    n.Prime ↔ 2 ≤ n ∧ ∀ d ∈ [2, 3, 5, 7, 11, 13, 17], d ∣ n → d = n := by
  constructor
  · intro hp
    refine ⟨hp.two_le, fun d hd hdvd => ?_⟩
    rcases (Nat.dvd_prime hp).mp hdvd with rfl | rfl
    · exact absurd hd (by decide)
    · rfl
  · rintro ⟨h2, htrial⟩
    by_contra hp
    have hmin : n.minFac.Prime := Nat.minFac_prime (by omega)
    have hsq : n.minFac ^ 2 ≤ n := Nat.minFac_sq_le_self (by omega) hp
    have hlt : n.minFac < 18 := by
      by_contra hge
      have hsq18 : 18 ^ 2 ≤ n.minFac ^ 2 := Nat.pow_le_pow_left (Nat.le_of_not_lt hge) 2
      omega
    have hmem : ∀ d < 18, d.Prime → d ∈ [2, 3, 5, 7, 11, 13, 17] := by decide
    have hself := htrial _ (hmem _ hlt hmin) (Nat.minFac_dvd n)
    exact hp (hself ▸ hmin)

/-- The table, by a test that is quick to run. -/
theorem primes_eq : primes = (List.range 312).filter fun n =>
    2 ≤ n ∧ ∀ d ∈ [2, 3, 5, 7, 11, 13, 17], d ∣ n → d = n := by
  refine List.filter_congr fun n hn => ?_
  have hlt := List.mem_range.mp hn
  rw [decide_eq_decide]
  exact prime_iff_trial (by omega)

/-- The first 32 bits of the fractional part of the cube root. -/
def cbrtBits (p : Nat) : Word := BitVec.ofNat 32 (Nat.nthRoot 3 (p * 2 ^ 96))

/-- The first 32 bits of the fractional part of the square root. -/
def sqrtBits (p : Nat) : Word := BitVec.ofNat 32 (Nat.sqrt (p * 2 ^ 64))

def K (t : Nat) : Word := cbrtBits (primes.getD t 0)

def H0 (t : Nat) : Word := sqrtBits (primes.getD t 0)

/-! ## One block -/

/-- A hash value, and the working variables of a block. -/
structure Vars where
  a : Word
  b : Word
  c : Word
  d : Word
  e : Word
  f : Word
  g : Word
  h : Word
  deriving DecidableEq

def initial : Vars := ⟨H0 0, H0 1, H0 2, H0 3, H0 4, H0 5, H0 6, H0 7⟩

def Vars.add (x y : Vars) : Vars :=
  ⟨x.a + y.a, x.b + y.b, x.c + y.c, x.d + y.d, x.e + y.e, x.f + y.f, x.g + y.g, x.h + y.h⟩

/-- The `t`-th word of a block, first byte first. -/
def word (block : List UInt8) (t : Nat) : Word :=
  (block.getD (4 * t) 0).toBitVec ++ (block.getD (4 * t + 1) 0).toBitVec ++
    (block.getD (4 * t + 2) 0).toBitVec ++ (block.getD (4 * t + 3) 0).toBitVec

/-- The message schedule of the words `M`. -/
def W (M : Nat → Word) (t : Nat) : Word :=
  if t < 16 then M t
  else sigma1 (W M (t - 2)) + W M (t - 7) + sigma0 (W M (t - 15)) + W M (t - 16)
termination_by t

theorem W_of_lt {M : Nat → Word} {t : Nat} (h : t < 16) : W M t = M t := by
  rw [W, if_pos h]

/-- The recurrence, from the words a loop finds below `t`. -/
theorem W_add (M : Nat → Word) (t : Nat) :
    W M (t + 16) = W M t + sigma0 (W M (t + 1)) + W M (t + 9) + sigma1 (W M (t + 14)) := by
  rw [W, if_neg (by omega)]
  show sigma1 (W M (t + 14)) + W M (t + 9) + sigma0 (W M (t + 1)) + W M t = _
  ac_rfl

def round (k w : Word) (v : Vars) : Vars :=
  let t1 := v.h + Sigma1 v.e + Ch v.e v.f v.g + k + w
  let t2 := Sigma0 v.a + Maj v.a v.b v.c
  ⟨t1 + t2, v.a, v.b, v.c, v.d + t1, v.e, v.f, v.g⟩

def compress (H : Vars) (block : List UInt8) : Vars :=
  H.add ((List.range 64).foldl (fun v t => round (K t) (W (word block) t) v) H)

/-! ## The text -/

/-- The zero bytes after the byte `0x80`: the fewest that leave the length eight bytes short
of whole blocks. -/
def padZeros (n : Nat) : Nat := (119 - n % 64) % 64

/-- The number of bits of `n` bytes, as 64 bits. The standard is for texts that have fewer
than 2⁶⁴. -/
def lengthBytes (n : Nat) : List UInt8 :=
  (List.range 8).map fun i => UInt8.ofNat (8 * n / 256 ^ (7 - i))

def pad (m : List UInt8) : List UInt8 :=
  m ++ [0x80] ++ List.replicate (padZeros m.length) 0 ++ lengthBytes m.length

def wordBytes (w : Word) : List UInt8 :=
  [⟨w.extractLsb' 24 8⟩, ⟨w.extractLsb' 16 8⟩, ⟨w.extractLsb' 8 8⟩, ⟨w.extractLsb' 0 8⟩]

def Vars.bytes (v : Vars) : List UInt8 :=
  [v.a, v.b, v.c, v.d, v.e, v.f, v.g, v.h].flatMap wordBytes

def sha256 (m : List UInt8) : List UInt8 :=
  (foldBlocks compress 64 initial (pad m)).bytes

theorem length_sha256 (m : List UInt8) : (sha256 m).length = 32 := rfl

end Sha2
