import EpsilonDB.Socket.Rebalance
import EpsilonDB.Lib.Positional

/-!
# The slices of a table (`build_slices` in `socket/epsilon_cluster.c`)

The bounds of the slices are printed in hexadecimal and compared as strings, and the last
slice is recognised by its end.

- `IsKey`, `hexAlphabet`: keys of 32 lowercase hexadecimal digits, in the order of their
  values.
- `RangeInfo.covers`, `RangeInfo.width`: the keys of a slice, and how many values it spans.
- `covers_sliceAt_iff`: a slice covers a key when the quotient of its value by the step is
  the number of the slice, or beyond the last.
- `Tiles`, `tiles_buildSlices`: the slices of any number of nodes up to `2 ^ 32` tile the
  keys.
-/

namespace EpsilonDB

open Positional

/-- A key of the placement: 32 lowercase hexadecimal digits. -/
def IsKey (key : CString) : Prop :=
  key.length = 32 ∧ ∀ c ∈ key, (48 ≤ c ∧ c ≤ 57) ∨ (97 ≤ c ∧ c ≤ 102)

/-- A lowercase hexadecimal digit, by its code. -/
theorem toNat_hexDigit {c : UInt8} (h : (48 ≤ c ∧ c ≤ 57) ∨ (97 ≤ c ∧ c ≤ 102)) :
    (48 ≤ c.toNat ∧ c.toNat ≤ 57) ∨ (97 ≤ c.toNat ∧ c.toNat ≤ 102) := by
  simp only [UInt8.le_iff_toNat_le] at h
  exact h

/-- The lowercase hexadecimal digits. -/
def hexAlphabet : Alphabet UInt8 16 where
  digits := {c | (48 ≤ c ∧ c ≤ 57) ∨ (97 ≤ c ∧ c ≤ 102)}
  val c := if c.toNat < 58 then c.toNat - 48 else c.toNat - 87
  val_lt c hc := by
    have hcode := toNat_hexDigit hc
    split <;> omega
  mono c hc d hd hlt := by
    have hcode := toNat_hexDigit hc
    have hcode' := toNat_hexDigit hd
    have hlt : c.toNat < d.toNat := UInt8.lt_iff_toNat_lt.mp hlt
    dsimp only
    split
    · split <;> omega
    · split <;> omega

/-- The key is in the slice, as the lookups test it. -/
def RangeInfo.covers (r : RangeInfo) (key : CString) : Bool :=
  r.start ≤ key && (key < r.stop || r.stop = lastKey)

/-- The values from the start up to the end. -/
def RangeInfo.width (r : RangeInfo) : Nat := hexAlphabet.value r.stop - hexAlphabet.value r.start

/-! ## The bounds -/

theorem hexDigit_mem : ∀ d < 16, hexDigit d ∈ hexAlphabet.digits :=
  show ∀ d < 16, (48 ≤ hexDigit d ∧ hexDigit d ≤ 57) ∨ (97 ≤ hexDigit d ∧ hexDigit d ≤ 102) by
    decide

theorem val_hexDigit : ∀ d < 16, hexAlphabet.val (hexDigit d) = d := by decide

theorem numeral_sliceBound (v : Nat) : hexAlphabet.Numeral (sliceBound v) :=
  (Alphabet.numeral_fixed (by decide) hexDigit_mem 8 v).append
    (Alphabet.numeral_fixed (by decide) hexDigit_mem 24 0)

/-- A bound stands for its first 8 digits. -/
theorem value_sliceBound {v : Nat} (h : v < 16 ^ 8) :
    hexAlphabet.value (sliceBound v) = v * 16 ^ 24 := by
  have hval : ∀ width n, hexAlphabet.value (hexFixed width n) = n % 16 ^ width := fun width n =>
    Alphabet.value_fixed (by decide) val_hexDigit width n
  rw [sliceBound, Alphabet.value_append, hval, hval, length_hexFixed, Nat.mod_eq_of_lt h,
    Nat.zero_mod, Nat.add_zero]

theorem sliceBound_zero : sliceBound 0 = List.replicate 32 48 := by decide

/-- No bound is the end of the key space: its last 24 digits are zeros. -/
theorem sliceBound_ne_lastKey (v : Nat) : sliceBound v ≠ lastKey := by
  intro h
  have htail := congrArg (List.drop 8) h
  rw [sliceBound, List.drop_left' (length_hexFixed 8 v)] at htail
  exact absurd htail (by decide)

theorem sliceBound_le_iff {v : Nat} (hv : v < 16 ^ 8) {key : CString} (hkey : IsKey key) :
    sliceBound v ≤ key ↔ v ≤ hexAlphabet.value key / 16 ^ 24 := by
  rw [← Alphabet.value_le_iff (numeral_sliceBound v) hkey.2
      ((length_sliceBound v).trans hkey.1.symm), value_sliceBound hv,
    Nat.le_div_iff_mul_le (by decide)]

/-- No key comes before the key space. -/
theorem replicate_le_key {key : CString} (h : IsKey key) : List.replicate 32 48 ≤ key := by
  rw [← sliceBound_zero, sliceBound_le_iff (by decide) h]
  exact Nat.zero_le _

theorem lt_sliceBound_iff {v : Nat} (hv : v < 16 ^ 8) {key : CString} (hkey : IsKey key) :
    key < sliceBound v ↔ hexAlphabet.value key / 16 ^ 24 < v := by
  rw [← not_le, sliceBound_le_iff hv hkey, not_le]

/-! ## One slice -/

/-- The slice of node `id` in place `i` of `n`. -/
def sliceAt (n : Nat) (id : NodeId) (i : Nat) : RangeInfo where
  nodeId := id
  start := sliceBound (i * (0x100000000 / n))
  stop := if i + 1 = n then lastKey else sliceBound ((i + 1) * (0x100000000 / n))

theorem buildSlices_eq (ids : List NodeId) :
    buildSlices ids = ids.zipIdx.map fun x => sliceAt ids.length x.1 x.2 := by
  refine List.map_congr_left fun x _ => ?_
  obtain ⟨id, i⟩ := x
  show RangeInfo.mk id (if i = 0 then _ else _) _ = RangeInfo.mk id _ _
  by_cases hi : i = 0
  · rw [if_pos hi, hi, Nat.zero_mul, sliceBound_zero]
  · rw [if_neg hi]

theorem getElem_buildSlices {ids : List NodeId} {i : Nat} (h : i < (buildSlices ids).length) :
    ∃ id ∈ ids, (buildSlices ids)[i] = sliceAt ids.length id i := by
  have hi : i < ids.length := length_buildSlices ids ▸ h
  refine ⟨ids[i], List.getElem_mem hi, ?_⟩
  simp only [buildSlices_eq, List.getElem_map, List.getElem_zipIdx, Nat.zero_add]

section

variable {n : Nat}

/-- The step times a place below `n` is printed in 8 digits. -/
theorem mul_step_lt {i : Nat} (hn : n ≤ 2 ^ 32) (hi : i < n) : i * (0x100000000 / n) < 16 ^ 8 := by
  have hstep : 0 < 0x100000000 / n := Nat.div_pos hn (by omega)
  have hlt : i * (0x100000000 / n) < n * (0x100000000 / n) := Nat.mul_lt_mul_of_pos_right hi hstep
  have hle : n * (0x100000000 / n) ≤ 0x100000000 := Nat.mul_div_le ..
  omega

/-- **The slice of a key** is numbered by the quotient of its value, the last slice taking
the rest. -/
theorem covers_sliceAt_iff (hn : n ≤ 2 ^ 32) {id : NodeId} {i : Nat} (hi : i < n)
    {key : CString} (hkey : IsKey key) :
    (sliceAt n id i).covers key = true ↔
      i = min (hexAlphabet.value key / 16 ^ 24 / (0x100000000 / n)) (n - 1) := by
  have hstep : 0 < 0x100000000 / n := Nat.div_pos hn (by omega)
  have hstart : sliceBound (i * (0x100000000 / n)) ≤ key ↔
      i ≤ hexAlphabet.value key / 16 ^ 24 / (0x100000000 / n) := by
    rw [sliceBound_le_iff (mul_step_lt hn hi) hkey, Nat.le_div_iff_mul_le hstep]
  unfold RangeInfo.covers sliceAt
  rw [Bool.and_eq_true, decide_eq_true_iff, Bool.or_eq_true, decide_eq_true_iff,
    decide_eq_true_iff, hstart]
  by_cases hlast : i + 1 = n
  · rw [if_pos hlast]
    constructor
    · rintro ⟨hle, -⟩
      omega
    · intro hmin
      exact ⟨by omega, Or.inr rfl⟩
  · rw [if_neg hlast]
    have hstop : key < sliceBound ((i + 1) * (0x100000000 / n)) ↔
        hexAlphabet.value key / 16 ^ 24 / (0x100000000 / n) < i + 1 := by
      rw [lt_sliceBound_iff (mul_step_lt hn (by omega)) hkey, Nat.div_lt_iff_lt_mul hstep]
    rw [hstop]
    constructor
    · rintro ⟨hle, hlt | habs⟩
      · omega
      · exact absurd habs (sliceBound_ne_lastKey _)
    · intro hmin
      exact ⟨by omega, Or.inl (by omega)⟩

/-- Every slice but the last spans as many values as the step. -/
theorem width_sliceAt (hn : n ≤ 2 ^ 32) (id : NodeId) {i : Nat} (hi : i + 1 < n) :
    (sliceAt n id i).width = 0x100000000 / n * 16 ^ 24 := by
  unfold RangeInfo.width sliceAt
  rw [if_neg (by omega), value_sliceBound (mul_step_lt hn hi),
    value_sliceBound (mul_step_lt hn (by omega)), ← Nat.sub_mul, ← Nat.sub_mul,
    Nat.add_sub_cancel_left, Nat.one_mul]

end

/-! ## The table -/

/-- The table tiles the keys for its nodes.

- `first`, `contiguous`, `last`: from all zeros to all `f`s without a gap;
- `owned`: every key is in exactly one slice, and both lookups find the node of this slice;
- `even`: only the last slice can have another width. -/
structure Tiles (table : List RangeInfo) : Prop where
  first : table.head?.map RangeInfo.start = some (List.replicate 32 48)
  contiguous : table.IsChain fun r r' => r.stop = r'.start
  last : table.getLast?.map RangeInfo.stop = some (List.replicate 32 102)
  owned : ∀ key, IsKey key → ∃ r, table.filter (RangeInfo.covers · key) = [r] ∧
    ∀ cl : Cluster, (cl.ranges = table → edbClusterOwner cl key = some r.nodeId) ∧
      (cl.targetRanges = table → edbClusterTargetOwner cl key = some r.nodeId)
  even : ∀ r ∈ table.dropLast, ∀ r' ∈ table.dropLast, r.width = r'.width

/-- The one element in a place. -/
theorem filter_zipIdx_eq {α : Type} (l : List α) (start : Nat) {k : Nat} (hk : k < l.length) :
    (l.zipIdx start).filter (fun x => decide (x.2 = start + k)) = [(l[k], start + k)] := by
  induction l generalizing start k with
  | nil => cases hk
  | cons a l ih =>
    rw [List.zipIdx_cons, List.filter_cons]
    cases k with
    | zero =>
      have hrest : (l.zipIdx (start + 1)).filter (fun x => decide (x.2 = start + 0)) = [] := by
        refine List.filter_eq_nil_iff.mpr fun x hx => ?_
        have hle := List.le_snd_of_mem_zipIdx hx
        rw [decide_eq_true_iff]
        omega
      rw [if_pos (by simp), hrest]
      rfl
    | succ k =>
      have hk : k < l.length := Nat.lt_of_succ_lt_succ hk
      have hrest := ih (start + 1) hk
      rw [show start + 1 + k = start + (k + 1) by omega] at hrest
      rw [if_neg (by simp), hrest]
      rfl

/-- The only slice that covers a key. -/
theorem filter_covers_buildSlices {ids : List NodeId} (hne : ids ≠ []) (hlen : ids.length ≤ 2 ^ 32)
    {key : CString} (hkey : IsKey key) :
    ∃ r, (buildSlices ids).filter (RangeInfo.covers · key) = [r] := by
  have hpos : 0 < ids.length := List.length_pos_of_ne_nil hne
  set k := min (hexAlphabet.value key / 16 ^ 24 / (0x100000000 / ids.length)) (ids.length - 1)
    with hk
  have hlt : k < ids.length := by omega
  have hplace : ids.zipIdx.filter ((RangeInfo.covers · key) ∘ fun x =>
      sliceAt ids.length x.1 x.2) = ids.zipIdx.filter fun x => decide (x.2 = 0 + k) := by
    refine List.filter_congr fun x hx => ?_
    have hi : x.2 < ids.length := by
      have := List.snd_lt_add_of_mem_zipIdx hx
      omega
    rw [Nat.zero_add, Bool.eq_iff_iff, decide_eq_true_iff, hk]
    exact covers_sliceAt_iff hlen hi hkey
  rw [buildSlices_eq, List.filter_map, hplace, filter_zipIdx_eq ids 0 hlt]
  exact ⟨_, rfl⟩

/-- A lookup finds the only slice that covers the key. -/
theorem coveringSlice_of_filter {table : List RangeInfo} {key : CString} {r : RangeInfo}
    (h : table.filter (RangeInfo.covers · key) = [r]) : coveringSlice table key = some r := by
  show table.find? (RangeInfo.covers · key) = some r
  rw [← List.head?_filter, h]
  rfl

/-- **The slices tile the key space**, for any number of nodes from 1 to `2 ^ 32`. -/
theorem tiles_buildSlices (ids : List NodeId) (hne : ids ≠ []) (hlen : ids.length ≤ 2 ^ 32) :
    Tiles (buildSlices ids) ∧ owners (buildSlices ids) = ids := by
  have hpos : 0 < ids.length := List.length_pos_of_ne_nil hne
  have hcount : (buildSlices ids).length = ids.length := length_buildSlices ids
  refine ⟨⟨?_, ?_, ?_, ?_, ?_⟩, owners_buildSlices ids⟩
  · have hfirst : 0 < (buildSlices ids).length := by omega
    obtain ⟨id, -, hslice⟩ := getElem_buildSlices hfirst
    rw [List.head?_eq_getElem?, List.getElem?_eq_getElem hfirst, hslice, Option.map_some]
    unfold sliceAt
    rw [Nat.zero_mul, sliceBound_zero]
  · refine List.isChain_iff_getElem.mpr fun i hi => ?_
    obtain ⟨id, -, hslice⟩ := getElem_buildSlices (Nat.lt_of_succ_lt hi)
    obtain ⟨id', -, hnext⟩ := getElem_buildSlices hi
    rw [hslice, hnext]
    unfold sliceAt
    exact if_neg (by omega)
  · have hend : (buildSlices ids).length - 1 < (buildSlices ids).length := by omega
    obtain ⟨id, -, hslice⟩ := getElem_buildSlices hend
    rw [List.getLast?_eq_getElem?, List.getElem?_eq_getElem hend, hslice, Option.map_some]
    unfold sliceAt
    rw [if_pos (by omega)]
    rfl
  · intro key hkey
    obtain ⟨r, hr⟩ := filter_covers_buildSlices hne hlen hkey
    have hfind := coveringSlice_of_filter hr
    refine ⟨r, hr, fun cl => ⟨fun hlive => ?_, fun htarget => ?_⟩⟩
    · rw [edbClusterOwner, if_neg (by simp [hkey.1]), hlive, hfind, Option.map_some]
    · rw [edbClusterTargetOwner, if_neg (by simp [hkey.1]), htarget, hfind, Option.map_some]
  -- all slices but the last have the width of the quotient
  · have hwidth : ∀ r ∈ (buildSlices ids).dropLast,
        r.width = 0x100000000 / ids.length * 16 ^ 24 := by
      intro r hr
      obtain ⟨i, hi, rfl⟩ := List.mem_iff_getElem.mp hr
      rw [List.length_dropLast] at hi
      obtain ⟨id, -, hslice⟩ := getElem_buildSlices (Nat.lt_of_lt_pred hi)
      rw [List.getElem_dropLast, hslice]
      exact width_sliceAt hlen id (by omega)
    intro r hr r' hr'
    rw [hwidth r hr, hwidth r' hr']

theorem tiles_threeSlices :
    Tiles (buildSlices [cstr "a", cstr "b", cstr "c"]) ∧
      owners (buildSlices [cstr "a", cstr "b", cstr "c"]) = [cstr "a", cstr "b", cstr "c"] :=
  tiles_buildSlices _ (by decide) (by decide)

end EpsilonDB
