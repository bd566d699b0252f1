import EpsilonDB.Lib.BlockFold
import EpsilonDB.Lib.Sines

/-!
# MD5 (RFC 1321)

The hash function as the memo defines it, on texts of whole bytes. A word has 32 bits and addition
is modulo 2³². The table is that of the sines of the numbers from 1 to 64, in radians.

- `F`, `G`, `H`, `I`, `T`: the functions and the table of §3.4.
- `operate`: an operation `[abcd k s i]` on the four registers. Every operation names them from
  one register further on, so that the result is in another one each time.
- `compress`: the sixty-four operations of a block, and the addition at their end.
- `pad`: the padded text (§3.1, §3.2). `md5`: the digest.
- `table`, `T_eq`: the numbers of the table.
-/

namespace Md5

open BlockFold

abbrev Word := BitVec 32

/-! ## The functions and the table -/

def F (x y z : Word) : Word := (x &&& y) ||| (~~~x &&& z)

def G (x y z : Word) : Word := (x &&& z) ||| (y &&& ~~~z)

def H (x y z : Word) : Word := x ^^^ y ^^^ z

def I (x y z : Word) : Word := y ^^^ (x ||| ~~~z)

/-- The integer part of `4294967296 * abs (sin i)`. -/
noncomputable def T (i : Nat) : Word := BitVec.ofNat 32 ⌊(2 : ℝ) ^ 32 * |Real.sin i|⌋₊

/-! ## One block -/

/-- The function of an operation: one for each round of sixteen. -/
def function (t : Nat) : Word → Word → Word → Word :=
  match t / 16 with
  | 0 => F
  | 1 => G
  | 2 => H
  | _ => I

/-- Which word of the block an operation adds. -/
def wordOf (t : Nat) : Nat :=
  [0, 1, 2, 3, 4, 5, 6, 7, 8, 9, 10, 11, 12, 13, 14, 15,
    1, 6, 11, 0, 5, 10, 15, 4, 9, 14, 3, 8, 13, 2, 7, 12,
    5, 8, 11, 14, 1, 4, 7, 10, 13, 0, 3, 6, 9, 12, 15, 2,
    0, 7, 14, 5, 12, 3, 10, 1, 8, 15, 6, 13, 4, 11, 2, 9].getD t 0

/-- By how much an operation rotates. -/
def shift (t : Nat) : Nat :=
  match t / 16 with
  | 0 => [7, 12, 17, 22].getD (t % 4) 0
  | 1 => [5, 9, 14, 20].getD (t % 4) 0
  | 2 => [4, 11, 16, 23].getD (t % 4) 0
  | _ => [6, 10, 15, 21].getD (t % 4) 0

/-- The registers `A`, `B`, `C` and `D`. -/
abbrev Registers := Fin 4 → Word

/-- The register an operation writes: `A`, `D`, `C`, `B`, and again. -/
def target (t : Nat) : Fin 4 := -(Fin.ofNat 4 t)

/-- `a = b + ((a + f(b,c,d) + X[k] + T[i]) <<< s)`. -/
noncomputable def operate (X : Nat → Word) (R : Registers) (t : Nat) : Registers :=
  let a := target t
  Function.update R a (R (a + 1) +
    (R a + function t (R (a + 1)) (R (a + 2)) (R (a + 3)) + X (wordOf t) + T (t + 1)).rotateLeft
      (shift t))

/-- The `k`-th word of a block, low-order byte first. -/
def word (block : List UInt8) (k : Nat) : Word :=
  (block.getD (4 * k + 3) 0).toBitVec ++ (block.getD (4 * k + 2) 0).toBitVec ++
    (block.getD (4 * k + 1) 0).toBitVec ++ (block.getD (4 * k) 0).toBitVec

/-- The bytes 01 23 45 67, 89 ab cd ef, fe dc ba 98 and 76 54 32 10, low-order byte first. -/
def initial : Registers := ![0x67452301, 0xefcdab89, 0x98badcfe, 0x10325476]

noncomputable def compress (R : Registers) (block : List UInt8) : Registers := fun r =>
  R r + (List.range 64).foldl (operate (word block)) R r

/-! ## The text -/

/-- The zero bytes after the byte `0x80`: the fewest that leave the length eight bytes short
of whole blocks. -/
def padZeros (n : Nat) : Nat := (119 - n % 64) % 64

/-- The low-order 64 bits of the number of bits of `n` bytes. -/
def lengthBytes (n : Nat) : List UInt8 :=
  (List.range 8).map fun i => UInt8.ofNat (8 * n / 256 ^ i)

def pad (m : List UInt8) : List UInt8 :=
  m ++ [0x80] ++ List.replicate (padZeros m.length) 0 ++ lengthBytes m.length

def wordBytes (w : Word) : List UInt8 :=
  [⟨w.extractLsb' 0 8⟩, ⟨w.extractLsb' 8 8⟩, ⟨w.extractLsb' 16 8⟩, ⟨w.extractLsb' 24 8⟩]

/-- The low-order byte of `A` first. -/
def bytes (R : Registers) : List UInt8 := [R 0, R 1, R 2, R 3].flatMap wordBytes

noncomputable def md5 (m : List UInt8) : List UInt8 :=
  bytes (foldBlocks compress 64 initial (pad m))

/-! ## The table -/

/-- The table of the reference implementation. -/
def table : List Nat :=
  [0xd76aa478, 0xe8c7b756, 0x242070db, 0xc1bdceee, 0xf57c0faf, 0x4787c62a, 0xa8304613, 0xfd469501,
    0x698098d8, 0x8b44f7af, 0xffff5bb1, 0x895cd7be, 0x6b901122, 0xfd987193, 0xa679438e, 0x49b40821,
    0xf61e2562, 0xc040b340, 0x265e5a51, 0xe9b6c7aa, 0xd62f105d, 0x02441453, 0xd8a1e681, 0xe7d3fbc8,
    0x21e1cde6, 0xc33707d6, 0xf4d50d87, 0x455a14ed, 0xa9e3e905, 0xfcefa3f8, 0x676f02d9, 0x8d2a4c8a,
    0xfffa3942, 0x8771f681, 0x6d9d6122, 0xfde5380c, 0xa4beea44, 0x4bdecfa9, 0xf6bb4b60, 0xbebfbc70,
    0x289b7ec6, 0xeaa127fa, 0xd4ef3085, 0x04881d05, 0xd9d4d039, 0xe6db99e5, 0x1fa27cf8, 0xc4ac5665,
    0xf4292244, 0x432aff97, 0xab9423a7, 0xfc93a039, 0x655b59c3, 0x8f0ccc92, 0xffeff47d, 0x85845dd1,
    0x6fa87e4f, 0xfe2ce6e0, 0xa3014314, 0x4e0811a1, 0xf7537e82, 0xbd3af235, 0x2ad7d2bb, 0xeb86d391]

/-- The comparisons that enclose the sines, over 35 terms of the series. -/
theorem table_encloses : ∀ t < 64,
    table.getD t 0 * (Nat.factorial 35 ^ (t + 1) * (Nat.factorial 36 * 36)) +
      2 ^ 32 * (2 ^ (t + 1) * 37 * Nat.factorial 35 ^ (t + 1)) ≤
        2 ^ 32 * ((Sines.series 35 ^ (t + 1)).im.natAbs * (Nat.factorial 36 * 36)) ∧
    2 ^ 32 * ((Sines.series 35 ^ (t + 1)).im.natAbs * (Nat.factorial 36 * 36) +
      2 ^ (t + 1) * 37 * Nat.factorial 35 ^ (t + 1)) <
        (table.getD t 0 + 1) * (Nat.factorial 35 ^ (t + 1) * (Nat.factorial 36 * 36)) := by
  decide +kernel

/-- **The table is that of the sines.** -/
theorem T_eq {t : Nat} (ht : t < 64) : T (t + 1) = BitVec.ofNat 32 (table.getD t 0) := by
  obtain ⟨hlow, hhigh⟩ := table_encloses t ht
  rw [T, Sines.floor_abs_sin (m := 35) (by norm_num [Nat.factorial]) hlow hhigh]

theorem length_md5 (m : List UInt8) : (md5 m).length = 16 := rfl

end Md5
