import EpsilonDB.Engine.Sha256
import EpsilonDB.Lib.BlockBuffer
import EpsilonDB.Lib.Md5
import Mathlib.Tactic.FinCases

/-!
# MD5 and the keys of the shards (`engine/md5.c`, `engine/manager.c`)

A shard is found by the digest of the digests of its names, and its file has that name. The digest
is that of RFC 1321, whatever the buffer on the stack holds at first.

- `md5Block`, `Md5Ctx`, `md5Update`, `md5Final`, `edbMd5Hex`: the functions of `md5.c`.
- `registersOf`, `registers_md5Block`: one block is that of the memo. The code moves the values
  around where the memo names other registers.
- `edbMd5_eq_md5`, `edbMd5Hex_eq`: the digest is the memo's.
- `shardKeyOf`: `shard_key`, which the backup tool has its own copy of.
- `shardKeyOf_eq_iff`: two shards share a file only where MD5 collides.
-/

namespace EpsilonDB

open BlockFold

/-! ## `md5.c` -/

def md5K : Vector UInt32 64 := #v[
  0xd76aa478, 0xe8c7b756, 0x242070db, 0xc1bdceee,
  0xf57c0faf, 0x4787c62a, 0xa8304613, 0xfd469501,
  0x698098d8, 0x8b44f7af, 0xffff5bb1, 0x895cd7be,
  0x6b901122, 0xfd987193, 0xa679438e, 0x49b40821,
  0xf61e2562, 0xc040b340, 0x265e5a51, 0xe9b6c7aa,
  0xd62f105d, 0x02441453, 0xd8a1e681, 0xe7d3fbc8,
  0x21e1cde6, 0xc33707d6, 0xf4d50d87, 0x455a14ed,
  0xa9e3e905, 0xfcefa3f8, 0x676f02d9, 0x8d2a4c8a,
  0xfffa3942, 0x8771f681, 0x6d9d6122, 0xfde5380c,
  0xa4beea44, 0x4bdecfa9, 0xf6bb4b60, 0xbebfbc70,
  0x289b7ec6, 0xeaa127fa, 0xd4ef3085, 0x04881d05,
  0xd9d4d039, 0xe6db99e5, 0x1fa27cf8, 0xc4ac5665,
  0xf4292244, 0x432aff97, 0xab9423a7, 0xfc93a039,
  0x655b59c3, 0x8f0ccc92, 0xffeff47d, 0x85845dd1,
  0x6fa87e4f, 0xfe2ce6e0, 0xa3014314, 0x4e0811a1,
  0xf7537e82, 0xbd3af235, 0x2ad7d2bb, 0xeb86d391]

def md5S : Vector UInt32 64 := #v[
  7, 12, 17, 22, 7, 12, 17, 22, 7, 12, 17, 22, 7, 12, 17, 22,
  5,  9, 14, 20, 5,  9, 14, 20, 5,  9, 14, 20, 5,  9, 14, 20,
  4, 11, 16, 23, 4, 11, 16, 23, 4, 11, 16, 23, 4, 11, 16, 23,
  6, 10, 15, 21, 6, 10, 15, 21, 6, 10, 15, 21, 6, 10, 15, 21]

/-- `m[i]`, of the bytes `p`. -/
def md5Word (p : Bytes) (i : Nat) : UInt32 :=
  (p.getD (4 * i) 0).toUInt32 ||| ((p.getD (4 * i + 1) 0).toUInt32 <<< 8) |||
    ((p.getD (4 * i + 2) 0).toUInt32 <<< 16) ||| ((p.getD (4 * i + 3) 0).toUInt32 <<< 24)

/-- `f` and `g` of a turn of the loop over `b`, `c` and `d`. -/
def md5Mix (i : Nat) (b c d : UInt32) : UInt32 × Nat :=
  if i < 16 then ((b &&& c) ||| (~~~b &&& d), i)
  else if i < 32 then ((d &&& b) ||| (~~~d &&& c), (5 * i + 1) % 16)
  else if i < 48 then (b ^^^ c ^^^ d, (3 * i + 5) % 16)
  else (c ^^^ (b ||| ~~~d), (7 * i) % 16)

/-- A turn of the loop of `md5_block`, on `a`, `b`, `c` and `d`. -/
def md5Round (p : Bytes) (i : Fin 64) (v : Vector UInt32 4) : Vector UInt32 4 :=
  let (f, g) := md5Mix i v[1] v[2] v[3]
  #v[v[3], v[1] + rotl32 (v[0] + f + md5K[i] + md5Word p g) md5S[i], v[1], v[2]]

def md5Block (state : Vector UInt32 4) (p : Bytes) : Vector UInt32 4 :=
  Vector.zipWith (· + ·) state (Fin.foldl 64 (fun v i => md5Round p i v) state)

/-- A block has bytes. -/
local instance blockSize_ne_zero : NeZero 64 := ⟨by decide⟩

/-- `md5_ctx`. -/
structure Md5Ctx extends BlockBuffer.Ctx UInt8 (Vector UInt32 4) 64 where
  bitlen : UInt64

/-- `md5_init`. It leaves the buffer as it is. -/
def md5Init (buffer : Vector UInt8 64) : Md5Ctx where
  state := #v[0x67452301, 0xefcdab89, 0x98badcfe, 0x10325476]
  buffer := buffer
  buflen := 0
  bitlen := 0

def md5Update (ctx : Md5Ctx) (data : Bytes) : Md5Ctx where
  toCtx := BlockBuffer.update md5Block ctx.toCtx data
  bitlen := ctx.bitlen + UInt64.ofNat data.length * 8

/-- `while (buflen != 56)` of `md5_final`, which has read the number of bits before. -/
def md5PadLoop (ctx : Md5Ctx) : BlockBuffer.Ctx UInt8 (Vector UInt32 4) 64 :=
  BlockBuffer.fill md5Block 0 56 ctx.toCtx

def md5Final (ctx : Md5Ctx) : Bytes :=
  let bitlen := ctx.bitlen
  let ctx := md5PadLoop (md5Update ctx [0x80])
  let ctx := BlockBuffer.update md5Block ctx
    ((List.range 8).map fun i => (bitlen >>> UInt64.ofNat (8 * i)).toUInt8)
  ctx.state.toList.flatMap store32Le

/-- The digest, whatever the buffer on the stack holds at first. -/
def edbMd5 (buffer : Vector UInt8 64) (data : Bytes) : Bytes :=
  md5Final (md5Update (md5Init buffer) data)

/-- `hex[n]`. -/
def md5Digit (n : UInt8) : UInt8 := (cstr "0123456789abcdef").getD n.toNat 0

/-- The digits of some bytes. -/
def hexPairs (digest : Bytes) : CString :=
  digest.flatMap fun b : UInt8 => [md5Digit (b >>> 4), md5Digit (b &&& 0x0f)]

def edbMd5Hex (buffer : Vector UInt8 64) (data : Bytes) : CString := hexPairs (edbMd5 buffer data)

/-! ## One block -/

/-- The values `a`, `b`, `c`, `d` after `t` operations, as the registers of the memo. -/
def registersOf (t : Nat) (v : Vector UInt32 4) : Md5.Registers := fun r =>
  (v.get (r - Md5.target t)).toBitVec

theorem md5K_toBitVec (i : Fin 64) : md5K[i].toBitVec = Md5.T (i + 1) := by
  rw [Md5.T_eq i.isLt]
  decide +revert +kernel

theorem md5S_toNat (i : Fin 64) : md5S[i].toNat = Md5.shift i ∧ 0 < md5S[i].toNat ∧
    md5S[i].toNat < 32 := by
  decide +revert +kernel

theorem md5Word_toBitVec (p : Bytes) (k : Nat) : (md5Word p k).toBitVec = Md5.word p k := by
  rw [md5Word, Md5.word]
  generalize p.getD (4 * k) 0 = a
  generalize p.getD (4 * k + 1) 0 = b
  generalize p.getD (4 * k + 2) 0 = c
  generalize p.getD (4 * k + 3) 0 = d
  apply BitVec.eq_of_getLsbD_eq
  intro i hi
  have hbits : (a.toUInt32 ||| (b.toUInt32 <<< 8) ||| (c.toUInt32 <<< 16) |||
      (d.toUInt32 <<< 24)).toBitVec = a.toBitVec.setWidth 32 |||
        (b.toBitVec.setWidth 32 <<< 8) ||| (c.toBitVec.setWidth 32 <<< 16) |||
          (d.toBitVec.setWidth 32 <<< 24) := rfl
  rw [hbits]
  grind

theorem rotl32_toBitVec (x n : UInt32) (h0 : 0 < n.toNat) (h : n.toNat < 32) :
    (rotl32 x n).toBitVec = x.toBitVec.rotateLeft n.toNat := by
  have hsub : (32 - n).toNat = 32 - n.toNat := by
    rw [UInt32.toNat_sub_of_le _ _ (UInt32.le_iff_toNat_le.mpr (Nat.le_of_lt h))]
    rfl
  have hmod : (32 - n.toNat) % 32 = 32 - n.toNat := Nat.mod_eq_of_lt (by omega)
  have hl : (x <<< n).toBitVec = x.toBitVec <<< n.toNat := by
    apply BitVec.eq_of_toNat_eq
    show (x <<< n).toNat = _
    rw [UInt32.toNat_shiftLeft, BitVec.toNat_shiftLeft, Nat.mod_eq_of_lt h]
    rfl
  have hr : (x >>> (32 - n)).toBitVec = x.toBitVec >>> (32 - n.toNat) := by
    apply BitVec.eq_of_toNat_eq
    show (x >>> (32 - n)).toNat = _
    rw [UInt32.toNat_shiftRight, BitVec.toNat_ushiftRight, hsub, hmod]
    rfl
  rw [rotl32, UInt32.toBitVec_or, hl, hr, BitVec.rotateLeft_def, Nat.mod_eq_of_lt h]

/-- `f` is the function of the round. -/
theorem md5Mix_fst (i : Fin 64) (b c d : UInt32) :
    (md5Mix i b c d).1.toBitVec = Md5.function i b.toBitVec c.toBitVec d.toBitVec := by
  have hi := i.isLt
  rw [md5Mix]
  split
  · next h => rw [Md5.function, Nat.div_eq_of_lt h]; rfl
  split
  · next h =>
    rw [Md5.function, show (i : Nat) / 16 = 1 by omega]
    show (d.toBitVec &&& b.toBitVec) ||| (~~~d.toBitVec &&& c.toBitVec) =
      (b.toBitVec &&& d.toBitVec) ||| (c.toBitVec &&& ~~~d.toBitVec)
    rw [BitVec.and_comm d.toBitVec, BitVec.and_comm (~~~d.toBitVec)]
  split
  · next h => rw [Md5.function, show (i : Nat) / 16 = 2 by omega]; rfl
  · next h => rw [Md5.function, show (i : Nat) / 16 = 3 by omega]; rfl

/-- `g` is the word of the operation. -/
theorem md5Mix_snd (i : Fin 64) (b c d : UInt32) : (md5Mix i b c d).2 = Md5.wordOf i := by
  have htable : ∀ i : Fin 64, (if (i : Nat) < 16 then (i : Nat) else
      if (i : Nat) < 32 then (5 * i + 1) % 16 else
        if (i : Nat) < 48 then (3 * i + 5) % 16 else (7 * i) % 16) = Md5.wordOf i := by
    decide +kernel
  rw [← htable, md5Mix]
  split_ifs <;> rfl

theorem target_succ (t : Nat) : Md5.target (t + 1) = Md5.target t - 1 := by
  have hsucc : Fin.ofNat 4 (t + 1) = Fin.ofNat 4 t + 1 := by
    apply Fin.ext
    show (t + 1) % 4 = (t % 4 + 1) % 4
    rw [Nat.mod_add_mod]
  rw [Md5.target, Md5.target, hsucc, neg_add, sub_eq_add_neg]

/-- **One operation.** The result goes to the next value of the code, and stays in its register
in the memo. -/
theorem registersOf_md5Round (p : Bytes) (i : Fin 64) (v : Vector UInt32 4) :
    registersOf (i + 1) (md5Round p i v) = Md5.operate (Md5.word p) (registersOf i v) i := by
  obtain ⟨hshift, hpos, hlt⟩ := md5S_toNat i
  have hreg : ∀ j, registersOf i v (Md5.target i + j) = (v.get j).toBitVec := fun j => by
    rw [registersOf, add_sub_cancel_left]
  have hreg0 := hreg 0
  rw [add_zero] at hreg0
  have hnew : (v[1] + rotl32 (v[0] + (md5Mix i v[1] v[2] v[3]).1 + md5K[i] +
      md5Word p (md5Mix i v[1] v[2] v[3]).2) md5S[i]).toBitVec =
        (v.get 1).toBitVec + ((v.get 0).toBitVec + Md5.function i (v.get 1).toBitVec
          (v.get 2).toBitVec (v.get 3).toBitVec + Md5.word p (Md5.wordOf i) +
            Md5.T (i + 1)).rotateLeft (Md5.shift i) := by
    have hcomm : ∀ x y z : Md5.Word, x + y + z = x + z + y := fun x y z => by ac_rfl
    rw [UInt32.toBitVec_add, rotl32_toBitVec _ _ hpos hlt, hshift, UInt32.toBitVec_add,
      UInt32.toBitVec_add, UInt32.toBitVec_add, md5Mix_fst, md5Mix_snd, md5Word_toBitVec,
      md5K_toBitVec, hcomm (_ + _)]
    rfl
  funext r
  obtain ⟨j, rfl⟩ : ∃ j, r = Md5.target i + j := ⟨r - Md5.target i, (add_sub_cancel _ _).symm⟩
  have hplace : registersOf (i + 1) (md5Round p i v) (Md5.target i + j) =
      ((md5Round p i v).get (j + 1)).toBitVec := by
    rw [registersOf, target_succ]
    congr 2
    abel
  rw [hplace, Md5.operate, hreg0, hreg, hreg, hreg]
  have hcases : ∀ j : Fin 4, j = 0 ∨ j = 1 ∨ j = 2 ∨ j = 3 := by decide
  rcases hcases j with rfl | rfl | rfl | rfl
  · rw [add_zero, Function.update_self]
    exact hnew
  all_goals
    rw [Function.update_of_ne (by simp), hreg]
    rfl

/-- **One block** is that of the memo. -/
theorem registersOf_md5Block (state : Vector UInt32 4) (p : Bytes) :
    registersOf 0 (md5Block state p) = Md5.compress (registersOf 0 state) p := by
  have hrounds : ∀ n (hn : n ≤ 64),
      registersOf n (Fin.foldl n (fun v i => md5Round p (Fin.castLE hn i) v) state) =
        (List.range n).foldl (Md5.operate (Md5.word p)) (registersOf 0 state) := by
    intro n
    induction n with
    | zero =>
      intro _
      rw [Fin.foldl_zero]
      rfl
    | succ n ih =>
      intro hn
      rw [Fin.foldl_succ_last, List.range_succ, List.foldl_append, ← ih (by omega)]
      exact registersOf_md5Round p ⟨n, hn⟩ _
  have h64 := hrounds 64 le_rfl
  funext r
  rw [Md5.compress, ← h64]
  have hget : ∀ x y : Vector UInt32 4, ∀ j : Fin 4, ((Vector.zipWith (· + ·) x y).get j).toBitVec =
      (x.get j).toBitVec + (y.get j).toBitVec := by
    intro x y j
    rw [← UInt32.toBitVec_add]
    exact congrArg UInt32.toBitVec (Vector.getElem_zipWith j.isLt)
  exact hget _ _ _

theorem registersOf_md5Init (buffer : Vector UInt8 64) :
    registersOf 0 (md5Init buffer).state = Md5.initial := by
  funext r
  fin_cases r <;> rfl

/-- Blocks of the code, folded, are the memo's. -/
theorem registersOf_foldBlocks (state : Vector UInt32 4) (m : Bytes) :
    registersOf 0 (foldBlocks md5Block 64 state m) =
      foldBlocks Md5.compress 64 (registersOf 0 state) m := by
  rw [foldBlocks, foldBlocks]
  exact (List.foldl_hom (registersOf 0) fun state p => (registersOf_md5Block state p).symm).symm

/-! ## The text -/

theorem bytes_registersOf (state : Vector UInt32 4) :
    state.toList.flatMap store32Le = Md5.bytes (registersOf 0 state) := by
  have hlist : state.toList = [state.get 0, state.get 1, state.get 2, state.get 3] := by
    refine List.ext_getElem (by simp) fun i hi _ => ?_
    rw [Vector.length_toList] at hi
    rw [Vector.getElem_toList]
    interval_cases i <;> rfl
  rw [hlist]
  rfl

/-- The stored length, low-order byte first. -/
theorem md5_lengthBytes (n : Nat) :
    ((List.range 8).map fun i => ((UInt64.ofNat n * 8) >>> UInt64.ofNat (8 * i)).toUInt8) =
      Md5.lengthBytes n := by
  refine List.map_congr_left fun i hi => UInt8.toNat_inj.mp ?_
  have hlt : i < 8 := List.mem_range.mp hi
  rw [UInt64.toNat_toUInt8, UInt64.toNat_shiftRight, UInt64.toNat_mul, UInt64.toNat_ofNat',
    UInt64.toNat_ofNat', UInt8.toNat_ofNat', Nat.shiftRight_eq_div_pow]
  have h8 : (8 : UInt64).toNat = 8 := rfl
  rw [h8]
  interval_cases i <;> simp only [Nat.reduceMul, Nat.reducePow, Nat.reduceMod] <;> omega

/-- The digest is that of the blocks of the padded text. -/
theorem edbMd5_eq_foldBlocks (buffer : Vector UInt8 64) (data : Bytes) :
    edbMd5 buffer data =
      (foldBlocks md5Block 64 (md5Init buffer).state (Md5.pad data)).toList.flatMap store32Le := by
  have hread : BlockBuffer.Reads md5Block (md5Init buffer).state data
      (md5Update (md5Init buffer) data).toCtx :=
    (BlockBuffer.reads_nil buffer).update data
  have hlen : (md5Update (md5Init buffer) data).bitlen = UInt64.ofNat data.length * 8 :=
    UInt64.zero_add _
  have hzeros : BlockBuffer.gap 64 (56 : Fin 64) ((data ++ [0x80]).length % 64) =
      Md5.padZeros data.length := by
    rw [BlockBuffer.gap, List.length_append, List.length_singleton, Md5.padZeros,
      show ((56 : Fin 64) : Nat) = 56 from rfl]
    omega
  have hmark : BlockBuffer.Reads md5Block (md5Init buffer).state (data ++ [0x80])
      (md5Update (md5Update (md5Init buffer) data) [0x80]).toCtx :=
    hread.update [0x80]
  have hpadded := hmark.fill (b := 0) (p := 56)
  rw [hzeros] at hpadded
  have hwhole := hpadded.update (Md5.lengthBytes data.length)
  rw [edbMd5, md5Final, hlen, md5_lengthBytes]
  exact congrArg (fun state => state.toList.flatMap store32Le) hwhole.1

/-- The blocks of the code give the digest of the memo. -/
theorem store32Le_foldBlocks (buffer : Vector UInt8 64) (data : Bytes) :
    (foldBlocks md5Block 64 (md5Init buffer).state (Md5.pad data)).toList.flatMap store32Le =
      Md5.md5 data := by
  rw [bytes_registersOf, registersOf_foldBlocks, registersOf_md5Init, Md5.md5]

/-- **The digest** is the memo's. -/
theorem edbMd5_eq_md5 (buffer : Vector UInt8 64) (data : Bytes) :
    edbMd5 buffer data = Md5.md5 data :=
  (edbMd5_eq_foldBlocks buffer data).trans (store32Le_foldBlocks buffer data)

theorem edbMd5Hex_eq (buffer : Vector UInt8 64) (data : Bytes) :
    edbMd5Hex buffer data = hexPairs (Md5.md5 data) := by
  rw [edbMd5Hex, edbMd5_eq_foldBlocks, store32Le_foldBlocks]

/-! ## Hexadecimal digits -/

@[simp] theorem hexPairs_length (digest : Bytes) :
    (hexPairs digest).length = 2 * digest.length := by
  induction digest with
  | nil => rfl
  | cons b digest ih =>
    show (hexPairs digest).length + 2 = 2 * (digest.length + 1)
    omega

/-- A byte from its digits. -/
def ofDigits (high low : UInt8) : UInt8 :=
  UInt8.ofNat (16 * (cstr "0123456789abcdef").idxOf high + (cstr "0123456789abcdef").idxOf low)

theorem ofDigits_md5Digit (b : UInt8) :
    ofDigits (md5Digit (b >>> 4)) (md5Digit (b &&& 0x0f)) = b := by
  have hbyte : ∀ b : UInt8, ofDigits (md5Digit (b >>> 4)) (md5Digit (b &&& 0x0f)) = b :=
    forall_byte (by decide +kernel)
  exact hbyte b

/-- The digits tell the bytes apart. -/
theorem hexPairs_injective : Function.Injective hexPairs := by
  intro digest digest' h
  induction digest generalizing digest' with
  | nil =>
    cases digest' with
    | nil => rfl
    | cons c digest' => cases h
  | cons b digest ih =>
    cases digest' with
    | nil => cases h
    | cons c digest' =>
      obtain ⟨hhigh, hrest⟩ := List.cons.inj h
      obtain ⟨hlow, hrest⟩ := List.cons.inj hrest
      rw [← ofDigits_md5Digit b, ← ofDigits_md5Digit c, hhigh, hlow, ih hrest]

/-! ## The keys of the shards -/

/-- `shard_key`, with what is on the stack for each of the three digests. -/
def shardKeyOf (buffers : Fin 3 → Vector UInt8 64) (partition keyspace : CString) : CString :=
  let partitionHash := edbMd5Hex (buffers 0) partition
  let keyspaceHash := edbMd5Hex (buffers 1) keyspace
  let framed := snprintf 66 (partitionHash ++ cstr ":" ++ keyspaceHash)
  edbMd5Hex (buffers 2) framed

/-- The digits of a digest, from whole blocks of the padded text. -/
def blockDigits (data : Bytes) : CString :=
  hexPairs ((foldBlocks md5Block 64 (md5Init (Vector.replicate 64 0)).state
    (Md5.pad data)).toList.flatMap store32Le)

theorem edbMd5Hex_eq_blockDigits (buffer : Vector UInt8 64) (data : Bytes) :
    edbMd5Hex buffer data = blockDigits data := by
  rw [edbMd5Hex, edbMd5_eq_foldBlocks]
  rfl

/-- The text that is hashed for a key. -/
noncomputable def framed (partition keyspace : CString) : CString :=
  hexPairs (Md5.md5 partition) ++ cstr ":" ++ hexPairs (Md5.md5 keyspace)

/-- Two texts with one digest. -/
def Md5Collides (x y : Bytes) : Prop := x ≠ y ∧ Md5.md5 x = Md5.md5 y

variable {buffers buffers' : Fin 3 → Vector UInt8 64}
  {partition keyspace partition' keyspace' : CString}

theorem length_framed : (framed partition keyspace).length = 65 := by
  rw [framed, List.length_append, List.length_append, hexPairs_length, hexPairs_length,
    Md5.length_md5, Md5.length_md5]
  rfl

/-- The key does not depend on the stack, and the text for it fits its buffer. -/
theorem shardKeyOf_eq :
    shardKeyOf buffers partition keyspace = hexPairs (Md5.md5 (framed partition keyspace)) := by
  have hfits : snprintf 66 (framed partition keyspace) = framed partition keyspace :=
    snprintf_of_lt (by rw [length_framed]; decide)
  rw [shardKeyOf, edbMd5Hex_eq, edbMd5Hex_eq, edbMd5Hex_eq, ← framed, hfits]

/-- The colon is where it is, whatever the digests. -/
theorem framed_eq_iff : framed partition keyspace = framed partition' keyspace' ↔
    Md5.md5 partition = Md5.md5 partition' ∧ Md5.md5 keyspace = Md5.md5 keyspace' := by
  constructor
  · intro h
    have hlen : ∀ m m' : Bytes, (hexPairs (Md5.md5 m) ++ cstr ":").length =
        (hexPairs (Md5.md5 m') ++ cstr ":").length := by
      intro m m'
      rw [List.length_append, List.length_append, hexPairs_length, hexPairs_length,
        Md5.length_md5, Md5.length_md5]
    obtain ⟨hleft, hright⟩ := List.append_inj h (hlen _ _)
    exact ⟨hexPairs_injective (List.append_cancel_right hleft), hexPairs_injective hright⟩
  · rintro ⟨hpartition, hkeyspace⟩
    rw [framed, framed, hpartition, hkeyspace]

theorem shardKeyOf_eq_iff_framed :
    shardKeyOf buffers partition keyspace = shardKeyOf buffers' partition' keyspace' ↔
      Md5.md5 (framed partition keyspace) = Md5.md5 (framed partition' keyspace') := by
  rw [shardKeyOf_eq, shardKeyOf_eq, hexPairs_injective.eq_iff]

/-- **Which shards share a file**: those whose names have the same digests, and those whose framed
texts collide. -/
theorem shardKeyOf_eq_iff :
    shardKeyOf buffers partition keyspace = shardKeyOf buffers' partition' keyspace' ↔
      (Md5.md5 partition = Md5.md5 partition' ∧ Md5.md5 keyspace = Md5.md5 keyspace') ∨
        Md5Collides (framed partition keyspace) (framed partition' keyspace') := by
  rw [shardKeyOf_eq_iff_framed, ← framed_eq_iff, Md5Collides]
  by_cases h : framed partition keyspace = framed partition' keyspace'
  · rw [h]
    exact iff_of_true rfl (.inl rfl)
  · rw [and_iff_right h, or_iff_right h]

end EpsilonDB
