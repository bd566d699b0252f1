import EpsilonDB.Engine.Crypto
import EpsilonDB.Lib.Sha2
import Mathlib.Data.List.GetD
import Mathlib.Tactic.IntervalCases

/-!
# SHA-256 against its standard (`engine/sha256.c`)

The words and blocks of the code are those of FIPS 180-4, and its buffer cuts a text at the
block boundaries whatever pieces it arrives in.

- `varsOf_sha256Block`: one block is the compression function of the standard.
- `Buffered`: the context with its 64-byte buffer, the copying loop of `sha256_update` and the
  padding loop of `sha256_final`.
- `Reads`, `Buffered.Reads`: what a context holds of the text it has read, for the bytewise
  context of `Engine/Crypto.lean` and for this one.
- `edbSha256_eq_sha256`, `Buffered.edbSha256_eq_sha256`: both are the hash of the standard.
-/

namespace EpsilonDB

open BlockFold

/-! ## Words -/

theorem rotr_toBitVec (x n : UInt32) (h0 : 0 < n.toNat) (h : n.toNat < 32) :
    (rotr x n).toBitVec = x.toBitVec.rotateRight n.toNat := by
  have hsub : (32 - n).toNat = 32 - n.toNat := by
    rw [UInt32.toNat_sub_of_le _ _ (UInt32.le_iff_toNat_le.mpr (Nat.le_of_lt h))]
    rfl
  have hmod : (32 - n.toNat) % 32 = 32 - n.toNat := Nat.mod_eq_of_lt (by omega)
  have hr : (x >>> n).toBitVec = x.toBitVec >>> n.toNat := by
    apply BitVec.eq_of_toNat_eq
    show (x >>> n).toNat = _
    rw [UInt32.toNat_shiftRight, BitVec.toNat_ushiftRight, Nat.mod_eq_of_lt h]
    rfl
  have hl : (x <<< (32 - n)).toBitVec = x.toBitVec <<< (32 - n.toNat) := by
    apply BitVec.eq_of_toNat_eq
    show (x <<< (32 - n)).toNat = _
    rw [UInt32.toNat_shiftLeft, BitVec.toNat_shiftLeft, hsub, hmod]
    rfl
  rw [rotr, UInt32.toBitVec_or, hr, hl, BitVec.rotateRight_def, Nat.mod_eq_of_lt h]

theorem load32Be_toBitVec (p : Bytes) (t : Nat) :
    (load32Be p (4 * t)).toBitVec = Sha2.word p t := by
  rw [load32Be, Sha2.word]
  generalize p.getD (4 * t) 0 = a
  generalize p.getD (4 * t + 1) 0 = b
  generalize p.getD (4 * t + 2) 0 = c
  generalize p.getD (4 * t + 3) 0 = d
  apply BitVec.eq_of_getLsbD_eq
  intro i hi
  -- bit by bit: shifted bytes do not overlap
  have hbits : ((a.toUInt32 <<< 24) ||| (b.toUInt32 <<< 16) ||| (c.toUInt32 <<< 8) |||
      d.toUInt32).toBitVec = (a.toBitVec.setWidth 32 <<< 24) ||| (b.toBitVec.setWidth 32 <<< 16) |||
        (c.toBitVec.setWidth 32 <<< 8) ||| d.toBitVec.setWidth 32 := rfl
  rw [hbits]
  grind

/-! ## One block -/

/-- A value of the code as the working variables of the standard. -/
def varsOf (v : Vector UInt32 8) : Sha2.Vars :=
  ⟨(v.get 0).toBitVec, (v.get 1).toBitVec, (v.get 2).toBitVec, (v.get 3).toBitVec,
    (v.get 4).toBitVec, (v.get 5).toBitVec, (v.get 6).toBitVec, (v.get 7).toBitVec⟩

theorem varsOf_init : varsOf sha256Init.state = Sha2.initial := by
  rw [Sha2.initial]
  simp only [Sha2.H0, Sha2.primes_eq]
  decide +kernel

theorem sha256K_toBitVec {t : Nat} (ht : t < 64) : sha256K[t].toBitVec = Sha2.K t := by
  have htable : sha256K.toList.map UInt32.toBitVec = Sha2.primes.map Sha2.cbrtBits := by
    rw [Sha2.primes_eq]
    decide +kernel
  have hlen : t < sha256K.toList.length := by rwa [Vector.length_toList]
  have hget : (sha256K.toList.map UInt32.toBitVec).getD t (Sha2.cbrtBits 0) =
      sha256K[t].toBitVec := by
    rw [List.getD_eq_getElem?_getD, List.getElem?_map, List.getElem?_eq_getElem hlen,
      Vector.getElem_toList]
    rfl
  rw [htable, List.getD_map] at hget
  exact hget.symm

theorem varsOf_sha256Round (k w : UInt32) (v : Vector UInt32 8) :
    varsOf (sha256Round k w v) = Sha2.round k.toBitVec w.toBitVec (varsOf v) := by
  have hs0 : (rotr v[0] 2 ^^^ rotr v[0] 13 ^^^ rotr v[0] 22).toBitVec =
      Sha2.Sigma0 v[0].toBitVec := by
    rw [UInt32.toBitVec_xor, UInt32.toBitVec_xor, rotr_toBitVec _ _ (by decide) (by decide),
      rotr_toBitVec _ _ (by decide) (by decide), rotr_toBitVec _ _ (by decide) (by decide)]
    rfl
  have hs1 : (rotr v[4] 6 ^^^ rotr v[4] 11 ^^^ rotr v[4] 25).toBitVec =
      Sha2.Sigma1 v[4].toBitVec := by
    rw [UInt32.toBitVec_xor, UInt32.toBitVec_xor, rotr_toBitVec _ _ (by decide) (by decide),
      rotr_toBitVec _ _ (by decide) (by decide), rotr_toBitVec _ _ (by decide) (by decide)]
    rfl
  simp only [Sha2.round]
  rw [show (varsOf v).a = v[0].toBitVec from rfl, ← hs0, show (varsOf v).e = v[4].toBitVec from rfl,
    ← hs1]
  rfl

/-- The body of the loop that extends the schedule. -/
def scheduleStep (k : Nat) (hk : k + 16 < 64) (w : Vector UInt32 64) : Vector UInt32 64 :=
  let s0 := rotr w[k + 1] 7 ^^^ rotr w[k + 1] 18 ^^^ (w[k + 1] >>> 3)
  let s1 := rotr w[k + 14] 17 ^^^ rotr w[k + 14] 19 ^^^ (w[k + 14] >>> 10)
  w.set (k + 16) (w[k] + s0 + w[k + 9] + s1)

/-- One more word of the schedule is right when those before it are. -/
theorem scheduleStep_toBitVec {M : Nat → Sha2.Word} {k : Nat} (hk : k + 16 < 64)
    {w : Vector UInt32 64} (hw : ∀ t (ht : t < 64), t < 16 + k → w[t].toBitVec = Sha2.W M t) :
    ∀ t (ht : t < 64), t < 16 + (k + 1) → (scheduleStep k hk w)[t].toBitVec = Sha2.W M t := by
  intro t ht hlt
  rw [scheduleStep, Vector.getElem_set]
  split
  · next heq =>
    subst heq
    have h0 := hw k (by omega) (by omega)
    have h1 := hw (k + 1) (by omega) (by omega)
    have h9 := hw (k + 9) (by omega) (by omega)
    have h14 := hw (k + 14) (by omega) (by omega)
    rw [Sha2.W_add, ← h0, ← h1, ← h9, ← h14, Sha2.sigma0, Sha2.sigma1]
    simp only [UInt32.toBitVec_add, UInt32.toBitVec_xor]
    rw [rotr_toBitVec _ _ (by decide) (by decide), rotr_toBitVec _ _ (by decide) (by decide),
      rotr_toBitVec _ _ (by decide) (by decide), rotr_toBitVec _ _ (by decide) (by decide)]
    rfl
  · exact hw t ht (by omega)

/-- **The message schedule** of a block. -/
theorem sha256Schedule_toBitVec (p : Bytes) (t : Nat) (ht : t < 64) :
    (sha256Schedule p)[t].toBitVec = Sha2.W (Sha2.word p) t := by
  let w : Vector UInt32 64 :=
    Vector.ofFn fun i : Fin 64 => if (i : Nat) < 16 then load32Be p (4 * i) else 0
  have hfold : ∀ n (hn : n ≤ 48), ∀ t (ht : t < 64), t < 16 + n →
      (Nat.fold n (fun k hk => scheduleStep k (by omega)) w)[t].toBitVec =
        Sha2.W (Sha2.word p) t := by
    intro n
    induction n with
    | zero =>
      intro _ t ht hlt
      rw [Nat.fold_zero, Vector.getElem_ofFn, if_pos hlt, load32Be_toBitVec, Sha2.W_of_lt hlt]
    | succ n ih =>
      intro hn t ht hlt
      simp only [Nat.fold_succ]
      exact scheduleStep_toBitVec (by omega) (ih (by omega)) t ht hlt
  exact hfold 48 (Nat.le_refl 48) t ht (by omega)

theorem varsOf_zipWith_add (x y : Vector UInt32 8) :
    varsOf (Vector.zipWith (· + ·) x y) = (varsOf x).add (varsOf y) := by
  have hget : ∀ i : Fin 8, ((Vector.zipWith (· + ·) x y).get i).toBitVec =
      (x.get i).toBitVec + (y.get i).toBitVec := by
    intro i
    rw [← UInt32.toBitVec_add]
    exact congrArg UInt32.toBitVec (Vector.getElem_zipWith i.isLt)
  simp only [varsOf, Sha2.Vars.add, hget]

/-- **One block** is one step of the standard. -/
theorem varsOf_sha256Block (state : Vector UInt32 8) (p : Bytes) :
    varsOf (sha256Block state p) = Sha2.compress (varsOf state) p := by
  have hrounds : ∀ n (hn : n ≤ 64),
      varsOf (Nat.fold n (fun i hi v => sha256Round sha256K[i] (sha256Schedule p)[i] v) state) =
        (List.range n).foldl (fun v t => Sha2.round (Sha2.K t) (Sha2.W (Sha2.word p) t) v)
          (varsOf state) := by
    intro n
    induction n with
    | zero => exact fun _ => rfl
    | succ n ih =>
      intro hn
      rw [Nat.fold_succ, varsOf_sha256Round, List.range_succ, List.foldl_append, ← ih (by omega),
        sha256Schedule_toBitVec, sha256K_toBitVec]
      rfl
  rw [sha256Block, varsOf_zipWith_add, hrounds 64 (Nat.le_refl 64), Sha2.compress]

/-- Blocks of the code, folded, are the standard's. -/
theorem varsOf_foldBlocks (state : Vector UInt32 8) (m : Bytes) :
    varsOf (foldBlocks sha256Block 64 state m) =
      foldBlocks Sha2.compress 64 (varsOf state) m := by
  rw [foldBlocks, foldBlocks]
  exact (List.foldl_hom varsOf fun state p => (varsOf_sha256Block state p).symm).symm

/-! ## The text, byte by byte -/

/-- What a context holds of the text `m` it has read. -/
def Reads (m : Bytes) (ctx : Sha256Ctx) : Prop :=
  ctx.state = foldBlocks sha256Block 64 sha256Init.state m ∧ ctx.buffer = rest 64 m

theorem reads_init : Reads [] sha256Init :=
  ⟨(foldBlocks_nil _ _).symm, (rest_nil 64).symm⟩

/-- One byte more. -/
theorem Reads.push {m : Bytes} {ctx : Sha256Ctx} (h : Reads m ctx) (b : UInt8) :
    Reads (m ++ [b]) (sha256Push ctx b) := by
  obtain ⟨hstate, hbuffer⟩ := h
  have hlt : (rest 64 m).length < 64 := by
    rw [length_rest]
    exact Nat.mod_lt _ (by decide)
  rw [sha256Push]
  split
  · next hfull =>
    rw [hbuffer] at hfull
    obtain ⟨hfold, hrest⟩ := foldBlocks_fills sha256Block sha256Init.state (by decide)
      (show (rest 64 m ++ [b]).length = 64 by rw [List.length_append, hfull]; rfl)
    exact ⟨by rw [hfold, hstate, hbuffer], hrest.symm⟩
  · next hfull =>
    rw [hbuffer] at hfull
    obtain ⟨hfold, hrest⟩ := foldBlocks_fits sha256Block sha256Init.state (by decide)
      (show (rest 64 m ++ [b]).length < 64 by
        rw [List.length_append, List.length_singleton]
        omega)
    exact ⟨by rw [hfold, hstate], by rw [hrest, hbuffer]⟩

/-- **Any piece more.** -/
theorem Reads.update {m : Bytes} {ctx : Sha256Ctx} (h : Reads m ctx) (data : Bytes) :
    Reads (m ++ data) (sha256Update ctx data) := by
  have hfold : ∀ (data m : Bytes) (ctx : Sha256Ctx), Reads m ctx →
      Reads (m ++ data) (data.foldl sha256Push ctx) := by
    intro data
    induction data with
    | nil =>
      intro m ctx h
      rwa [List.append_nil]
    | cons b data ih =>
      intro m ctx h
      rw [List.foldl_cons, List.append_cons]
      exact ih _ _ (h.push b)
  exact hfold data m _ h

@[simp] theorem bitlen_sha256Update (ctx : Sha256Ctx) (data : Bytes) :
    (sha256Update ctx data).bitlen = ctx.bitlen + UInt64.ofNat data.length * 8 := by
  have hfold : ∀ (data : Bytes) (ctx : Sha256Ctx),
      (data.foldl sha256Push ctx).bitlen = ctx.bitlen := by
    intro data
    induction data with
    | nil => exact fun _ => rfl
    | cons b data ih =>
      intro ctx
      rw [List.foldl_cons, ih, sha256Push]
      split <;> rfl
  rw [sha256Update, hfold]

/-- The stored length, first byte first. -/
theorem lengthBytes_eq (n : Nat) :
    ((List.range 8).map fun i =>
      ((UInt64.ofNat n * 8) >>> UInt64.ofNat (8 * (7 - i))).toUInt8) = Sha2.lengthBytes n := by
  refine List.map_congr_left fun i hi => UInt8.toNat_inj.mp ?_
  have hlt : i < 8 := List.mem_range.mp hi
  rw [UInt64.toNat_toUInt8, UInt64.toNat_shiftRight, UInt64.toNat_mul, UInt64.toNat_ofNat',
    UInt64.toNat_ofNat', UInt8.toNat_ofNat', Nat.shiftRight_eq_div_pow]
  have h8 : (8 : UInt64).toNat = 8 := rfl
  rw [h8]
  interval_cases i <;> simp only [Nat.reduceSub, Nat.reduceMul, Nat.reducePow, Nat.reduceMod] <;>
    omega

theorem toList_eq_get (state : Vector UInt32 8) : state.toList =
    [state.get 0, state.get 1, state.get 2, state.get 3, state.get 4, state.get 5, state.get 6,
      state.get 7] := by
  refine List.ext_getElem (by simp) fun i hi _ => ?_
  rw [Vector.length_toList] at hi
  rw [Vector.getElem_toList]
  interval_cases i <;> rfl

/-- The digest of what a context holds of the padded text. -/
theorem digest_eq {m : Bytes} {state : Vector UInt32 8}
    (h : state = foldBlocks sha256Block 64 sha256Init.state (Sha2.pad m)) :
    (state.toList.flatMap fun v => (store32Le v).reverse) = Sha2.sha256 m := by
  rw [Sha2.sha256, ← varsOf_init, ← varsOf_foldBlocks, ← h, toList_eq_get]
  rfl

/-- **The bytewise hash** is the standard's. -/
theorem edbSha256_eq_sha256 (data : Bytes) : edbSha256 data = Sha2.sha256 data := by
  have hread : Reads data (sha256Update sha256Init data) := reads_init.update data
  have hlen : (sha256Update sha256Init data).bitlen = UInt64.ofNat data.length * 8 := by
    rw [bitlen_sha256Update]
    exact UInt64.zero_add _
  have hmark := hread.update [0x80]
  have hzeros : (120 - (sha256Update (sha256Update sha256Init data) [0x80]).buffer.length) % 64 =
      Sha2.padZeros data.length := by
    rw [hmark.2, length_rest, List.length_append, List.length_singleton, Sha2.padZeros]
    omega
  refine digest_eq ?_
  rw [hlen, lengthBytes_eq, hzeros]
  exact ((hmark.update _).update _).1

/-! ## The text, by pieces of the buffer -/

namespace Buffered

/-- `sha256_ctx`. Between two turns of the loop the buffer is never full. -/
structure Sha256Ctx where
  state : Vector UInt32 8
  bitlen : UInt64
  buffer : Vector UInt8 64
  buflen : Fin 64

/-- `sha256_init`. It leaves the buffer as it is. -/
def sha256Init (buffer : Vector UInt8 64) : Sha256Ctx where
  state := EpsilonDB.sha256Init.state
  bitlen := 0
  buffer := buffer
  buflen := 0

/-- `memcpy(buffer + buflen, data, take)`, inside the buffer. -/
def memcpy (buffer : Vector UInt8 64) (buflen : Nat) (data : Bytes)
    (h : buflen + data.length ≤ 64) : Vector UInt8 64 :=
  ⟨(buffer.toList.take buflen ++ data ++ buffer.toList.drop (buflen + data.length)).toArray, by
    simp
    omega⟩

/-- How much the loop takes next. -/
def room (ctx : Sha256Ctx) (data : Bytes) : Nat := min (64 - ctx.buflen) data.length

theorem length_take_room (ctx : Sha256Ctx) (data : Bytes) :
    ctx.buflen + (data.take (room ctx data)).length ≤ 64 := by
  rw [room, List.length_take]
  omega

/-- One turn of the loop of `sha256_update`. -/
def sha256Turn (ctx : Sha256Ctx) (data : Bytes) : Sha256Ctx :=
  let buffer := memcpy ctx.buffer ctx.buflen (data.take (room ctx data)) (length_take_room ctx data)
  if h : ctx.buflen + room ctx data = 64 then
    { ctx with state := sha256Block ctx.state buffer.toList, buffer := buffer, buflen := 0 }
  else
    { ctx with
      buffer := buffer
      buflen := ⟨ctx.buflen + room ctx data, by
        have hle : room ctx data ≤ 64 - ctx.buflen := Nat.min_le_left _ _
        omega⟩ }

def sha256Loop (ctx : Sha256Ctx) (data : Bytes) : Sha256Ctx :=
  if data = [] then ctx else sha256Loop (sha256Turn ctx data) (data.drop (room ctx data))
termination_by data.length
decreasing_by
  have hpos := List.length_pos_iff.mpr ‹_›
  rw [List.length_drop, room]
  omega

def sha256Update (ctx : Sha256Ctx) (data : Bytes) : Sha256Ctx :=
  sha256Loop { ctx with bitlen := ctx.bitlen + UInt64.ofNat data.length * 8 } data

/-- What a context holds of the text `m` it has read. -/
def Reads (m : Bytes) (ctx : Sha256Ctx) : Prop :=
  ctx.state = foldBlocks sha256Block 64 EpsilonDB.sha256Init.state m ∧
    ctx.buffer.toList.take ctx.buflen = rest 64 m

theorem reads_init (buffer : Vector UInt8 64) : Reads [] (sha256Init buffer) :=
  ⟨(foldBlocks_nil _ _).symm, List.take_zero⟩

theorem Reads.buflen_eq {m : Bytes} {ctx : Sha256Ctx} (h : Reads m ctx) :
    (ctx.buflen : Nat) = m.length % 64 := by
  rw [← length_rest, ← h.2, List.length_take, Vector.length_toList]
  omega

/-- What the copy leaves at the front of the buffer. -/
theorem take_memcpy (buffer : Vector UInt8 64) {buflen : Nat} {data : Bytes}
    (h : buflen + data.length ≤ 64) :
    (memcpy buffer buflen data h).toList.take (buflen + data.length) =
      buffer.toList.take buflen ++ data := by
  refine List.take_left' ?_
  rw [List.length_append, List.length_take, Vector.length_toList]
  omega

/-- **One turn** reads the bytes it takes. -/
theorem Reads.turn {m : Bytes} {ctx : Sha256Ctx} (h : Reads m ctx) (data : Bytes) :
    Reads (m ++ data.take (room ctx data)) (sha256Turn ctx data) := by
  have hlen : (data.take (room ctx data)).length = room ctx data :=
    List.length_take_of_le (Nat.min_le_right _ _)
  have hcopy := take_memcpy ctx.buffer (length_take_room ctx data)
  rw [h.2, hlen] at hcopy
  have hroom : (rest 64 m ++ data.take (room ctx data)).length = ctx.buflen + room ctx data := by
    rw [List.length_append, length_rest, h.buflen_eq, hlen]
  rw [sha256Turn]
  split
  · next hfull =>
    obtain ⟨hfold, hrest⟩ := foldBlocks_fills sha256Block EpsilonDB.sha256Init.state (by decide)
      (hroom.trans hfull)
    rw [hfull, List.take_of_length_le (by rw [Vector.length_toList])] at hcopy
    exact ⟨by rw [hfold, ← h.1, ← hcopy], hrest.symm⟩
  · next hfull =>
    have hle : room ctx data ≤ 64 - ctx.buflen := Nat.min_le_left _ _
    obtain ⟨hfold, hrest⟩ := foldBlocks_fits sha256Block EpsilonDB.sha256Init.state (by decide)
      (show (rest 64 m ++ data.take (room ctx data)).length < 64 by omega)
    exact ⟨by rw [hfold, ← h.1], by rw [hrest, ← hcopy]⟩

theorem Reads.loop {m data : Bytes} {ctx : Sha256Ctx} (h : Reads m ctx) :
    Reads (m ++ data) (sha256Loop ctx data) := by
  induction ctx, data using sha256Loop.induct generalizing m with
  | case1 ctx =>
    rw [sha256Loop, if_pos rfl, List.append_nil]
    exact h
  | case2 ctx data hne ih =>
    rw [sha256Loop, if_neg hne]
    have hnext := ih (h.turn data)
    rwa [List.append_assoc, List.take_append_drop] at hnext

theorem Reads.update {m : Bytes} {ctx : Sha256Ctx} (h : Reads m ctx) (data : Bytes) :
    Reads (m ++ data) (sha256Update ctx data) := by
  have hread : Reads m { ctx with bitlen := ctx.bitlen + UInt64.ofNat data.length * 8 } := h
  exact hread.loop

@[simp] theorem bitlen_sha256Update (ctx : Sha256Ctx) (data : Bytes) :
    (sha256Update ctx data).bitlen = ctx.bitlen + UInt64.ofNat data.length * 8 := by
  have hloop : ∀ (ctx : Sha256Ctx) (data : Bytes),
      (sha256Loop ctx data).bitlen = ctx.bitlen := by
    intro ctx data
    induction ctx, data using sha256Loop.induct with
    | case1 ctx => rw [sha256Loop, if_pos rfl]
    | case2 ctx data hne ih =>
      rw [sha256Loop, if_neg hne, ih, sha256Turn]
      split <;> rfl
  rw [sha256Update, hloop]

/-- One byte moves the end of the buffer on, around at its size. -/
theorem buflen_update_one (ctx : Sha256Ctx) (b : UInt8) :
    ((sha256Update ctx [b]).buflen : Nat) = (ctx.buflen + 1) % 64 := by
  have hroom : ∀ ctx : Sha256Ctx, room ctx [b] = 1 := by
    intro ctx
    rw [room, List.length_singleton]
    omega
  rw [sha256Update, sha256Loop, if_neg (by simp), hroom, List.drop_one, List.tail_cons, sha256Loop,
    if_pos rfl, sha256Turn]
  split
  · next hfull =>
    rw [hroom] at hfull
    show 0 = (ctx.buflen + 1 : Nat) % 64
    rw [show (ctx.buflen + 1 : Nat) = 64 from hfull]
  · next hfull =>
    rw [hroom] at hfull
    show ctx.buflen + room _ [b] = (ctx.buflen + 1 : Nat) % 64
    rw [hroom, Nat.mod_eq_of_lt]
    have hne : (ctx.buflen + 1 : Nat) ≠ 64 := hfull
    omega

/-- `while (buflen != 56)` of `sha256_final`. -/
def padLoop (ctx : Sha256Ctx) : Sha256Ctx :=
  if ctx.buflen = 56 then ctx else padLoop (sha256Update ctx [0])
termination_by (120 - (ctx.buflen : Nat)) % 64
decreasing_by
  rename_i hne
  have hne' : (ctx.buflen : Nat) ≠ 56 := fun h => hne (Fin.ext h)
  rw [buflen_update_one]
  omega

def sha256Final (ctx : Sha256Ctx) : Bytes :=
  let bitlen := ctx.bitlen
  let ctx := sha256Update ctx [0x80]
  let ctx := padLoop ctx
  let ctx := sha256Update ctx
    ((List.range 8).map fun i => (bitlen >>> UInt64.ofNat (8 * (7 - i))).toUInt8)
  ctx.state.toList.flatMap fun v : UInt32 =>
    [(v >>> 24).toUInt8, (v >>> 16).toUInt8, (v >>> 8).toUInt8, v.toUInt8]

/-- The hash, whatever the buffer on the stack holds at first. -/
def edbSha256 (buffer : Vector UInt8 64) (data : Bytes) : Bytes :=
  sha256Final (sha256Update (sha256Init buffer) data)

/-- **The padding loop** ends after the fewest zeros that reach byte 56. -/
theorem Reads.padLoop {m : Bytes} {ctx : Sha256Ctx} (h : Reads m ctx) :
    Reads (m ++ List.replicate ((120 - m.length % 64) % 64) 0) (padLoop ctx) := by
  induction ctx using Buffered.padLoop.induct generalizing m with
  | case1 ctx h56 =>
    have hmod : m.length % 64 = 56 := by rw [← h.buflen_eq, h56]; rfl
    rw [Buffered.padLoop, if_pos h56, hmod]
    exact (List.append_nil m).symm ▸ h
  | case2 ctx hne ih =>
    rw [Buffered.padLoop, if_neg hne]
    have hmod : m.length % 64 ≠ 56 := by
      rw [← h.buflen_eq]
      exact fun heq => hne (Fin.ext heq)
    have hzeros : (120 - m.length % 64) % 64 = (120 - (m ++ [0]).length % 64) % 64 + 1 := by
      rw [List.length_append, List.length_singleton]
      omega
    rw [hzeros, List.replicate_succ, List.append_cons]
    exact ih (h.update [0])

/-- **The hash with its buffer** is the standard's. -/
theorem edbSha256_eq_sha256 (buffer : Vector UInt8 64) (data : Bytes) :
    edbSha256 buffer data = Sha2.sha256 data := by
  have hread : Reads data (sha256Update (sha256Init buffer) data) := (reads_init buffer).update data
  have hlen : (sha256Update (sha256Init buffer) data).bitlen = UInt64.ofNat data.length * 8 := by
    rw [bitlen_sha256Update]
    exact UInt64.zero_add _
  have hzeros : (120 - (data ++ [0x80]).length % 64) % 64 = Sha2.padZeros data.length := by
    rw [List.length_append, List.length_singleton, Sha2.padZeros]
    omega
  have hpadded := (hread.update [0x80]).padLoop
  rw [hzeros] at hpadded
  refine digest_eq ?_
  rw [hlen, lengthBytes_eq]
  exact (hpadded.update _).1

end Buffered

end EpsilonDB
