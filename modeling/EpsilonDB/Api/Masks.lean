import EpsilonDB.Api.Entities
import EpsilonDB.Api.Expiry
import Mathlib.Data.Rat.Floor

/-!
# Permission masks in requests (`json_u64_value`, `set_json_u64`, `json_u64`)

A mask or a set of groups comes as a string of digits or as a number. A double that came out
of the parser is a rational or an infinity.

- `jsonU64Value`: the mask of a request; `setJsonU64`: the field of a record it is kept in.
- `IsMask`: the values that stand for a mask.
- `Lenient`: what `strtoull` takes besides digits, white space or a sign before them or no text
  at all.
- `strtoull_digits`, `strtoull_eq_some_iff`: the texts it takes.
- `masks_strict_iff`: masks are read strictly exactly from the other values.
-/

namespace EpsilonDB

/-! ## Doubles -/

/-- A double that a text can stand for. -/
abbrev JsonDouble := WithBot (WithTop ℚ)

/-- A finite double. -/
def JsonDouble.rat (q : ℚ) : JsonDouble := WithBot.some (WithTop.some q)

def JsonDouble.number (d : JsonDouble) : ℚ := (d.unbotD 0).untopD 0

/-- `(double)value`. -/
def ofUInt64 (value : UInt64) : JsonDouble := .rat (toDouble value.toNat : Int)

instance : Doubles JsonDouble where
  decEq := inferInstance
  inRange d := decide (JsonDouble.rat (-9200000000000000000) ≤ d ∧
    d ≤ JsonDouble.rat 9200000000000000000)
  toInt64 d := if 0 ≤ d.number then ⌊d.number⌋ else ⌈d.number⌉
  ofInt64 i := .rat (toDouble i : Int)
  toUInt64 d :=
    if .rat 0 ≤ d ∧ d < .rat (2 ^ 64) then some (UInt64.ofNat ⌊d.number⌋.toNat) else none

namespace JsonDouble

variable {p q : ℚ}

theorem rat_le_rat : rat p ≤ rat q ↔ p ≤ q := WithBot.coe_le_coe.trans WithTop.coe_le_coe

theorem rat_lt_rat : rat p < rat q ↔ p < q := WithBot.coe_lt_coe.trans WithTop.coe_lt_coe

theorem rat_inj : rat p = rat q ↔ p = q := WithBot.coe_inj.trans WithTop.coe_inj

/-- What lies between finite doubles is finite. -/
theorem exists_rat {d : JsonDouble} (hlow : rat p ≤ d) (hhigh : d ≤ rat q) : ∃ r, d = rat r := by
  induction d using WithBot.recBotCoe with
  | bot => exact absurd hlow (WithBot.not_coe_le_bot _)
  | coe d =>
    induction d using WithTop.recTopCoe with
    | top => exact absurd (WithBot.coe_le_coe.mp hhigh) (WithTop.not_top_le_coe _)
    | coe r => exact ⟨r, rfl⟩

end JsonDouble

/-! ## Masks -/

/-- `json_u64_value`, where the item may be missing. -/
def jsonU64Value : Option (Json JsonDouble) → Option UInt64
  | some (.str s) => strtoull s
  | some (.num d) =>
    if .rat 0 ≤ d ∧ d ≤ .rat 9007199254740991 then
      (Doubles.toUInt64 d).bind fun value => if ofUInt64 value = d then some value else none
    else none
  | _ => none

/-- `set_json_u64`. -/
def setJsonU64 {D : Type} (ms : List (CString × Json D)) (field : CString) (v : UInt64) :
    List (CString × Json D) :=
  ms ++ [(field, .str (snprintf 32 (cstr (toString v.toNat))))]

/-- The item stands for a mask: digits, or a whole number that a double holds exactly. -/
def IsMask : Option (Json JsonDouble) → UInt64 → Prop
  | some (.str s), v => s ≠ [] ∧ (∀ c ∈ s, isDigit c = true) ∧ decimal s = v.toNat
  | some (.num d), v => d = .rat v.toNat ∧ v.toNat ≤ 2 ^ 53 - 1
  | _, _ => False

/-- The text after white space and one sign. -/
def unsigned (s : CString) : CString :=
  match s.dropWhile isSpace with
  | c :: t => if c = 45 ∨ c = 43 then t else c :: t
  | [] => []

/-- Digits of a number below `2 ^ 64`. -/
def Digits (s : CString) : Prop :=
  s ≠ [] ∧ (∀ c ∈ s, isDigit c = true) ∧ decimal s < 2 ^ 64

instance (s : CString) : Decidable (Digits s) := inferInstanceAs (Decidable (_ ∧ _ ∧ _))

/-- The item is an empty text, or one of digits behind white space or a sign. -/
def Lenient : Option (Json JsonDouble) → Prop
  | some (.str s) => s = [] ∨ s.head?.any (fun c => isSpace c || c == 45 || c == 43) = true ∧
      Digits (unsigned s)
  | _ => False

variable {s : CString} {v : UInt64}

/-! ## The texts `strtoull` takes -/

theorem digits_iff (s : CString) : (s = [] || s.any (fun c => !isDigit c) ||
    decide (2 ^ 64 ≤ decimal s)) = true ↔ ¬ Digits s := by
  rw [Digits, not_and_or, not_and_or, not_lt, not_not, not_forall]
  simp only [Bool.or_eq_true, decide_eq_true_eq, List.any_eq_true, Bool.not_eq_true', or_assoc,
    Classical.not_imp, Bool.not_eq_true]

/-- What is left of a text behind its white space and sign is read as digits. -/
theorem strtoull_eq (hs : s ≠ []) : strtoull s =
    if Digits (unsigned s) then
      if (s.dropWhile isSpace).head? = some 45 then some (0 - UInt64.ofNat (decimal (unsigned s)))
      else some (UInt64.ofNat (decimal (unsigned s)))
    else none := by
  have hread : ∀ (negative : Bool) (digits : CString),
      (if (digits = [] || digits.any (fun c => !isDigit c) ||
        decide (2 ^ 64 ≤ decimal digits)) = true then none
        else if negative then some (0 - UInt64.ofNat (decimal digits))
        else some (UInt64.ofNat (decimal digits))) =
      if Digits digits then
        if negative then some (0 - UInt64.ofNat (decimal digits))
        else some (UInt64.ofNat (decimal digits))
      else none := by
    intro negative digits
    by_cases h : Digits digits
    · rw [if_neg (fun hbad => (digits_iff _).mp hbad h), if_pos h]
    · rw [if_pos ((digits_iff _).mpr h), if_neg h]
  unfold strtoull unsigned
  rw [if_neg hs]
  cases s.dropWhile isSpace with
  | nil => exact hread false []
  | cons c t =>
    by_cases hminus : c = 45
    · subst hminus
      exact hread true t
    by_cases hplus : c = 43
    · subst hplus
      exact hread false t
    simpa [hminus, hplus] using hread false (c :: t)

/-- Without white space and a sign the text is read from its first byte. -/
theorem strtoull_of_plain (hs : s ≠ [])
    (hplain : s.head?.any (fun c => isSpace c || c == 45 || c == 43) = false) :
    strtoull s = if Digits s then some (UInt64.ofNat (decimal s)) else none := by
  cases s with
  | nil => exact absurd rfl hs
  | cons c t =>
    have hc : (isSpace c || c == 45 || c == 43) = false := hplain
    rw [Bool.or_eq_false_iff, Bool.or_eq_false_iff, beq_eq_false_iff_ne,
      beq_eq_false_iff_ne] at hc
    obtain ⟨⟨hspace, hminus⟩, hplus⟩ := hc
    have hdrop : (c :: t).dropWhile isSpace = c :: t :=
      List.dropWhile_cons_of_neg (by rw [hspace]; decide)
    have hunsigned : unsigned (c :: t) = c :: t := by
      rw [unsigned, hdrop]
      exact if_neg (not_or.mpr ⟨hminus, hplus⟩)
    have hhead : (c :: t).head? ≠ some 45 := fun h => hminus (Option.some.inj h)
    rw [strtoull_eq hs, hunsigned, hdrop, if_neg hhead]

/-- Digits stand behind no white space and no sign. -/
theorem plain_of_digits (hdigits : ∀ c ∈ s, isDigit c = true) :
    s.head?.any (fun c => isSpace c || c == 45 || c == 43) = false := by
  cases s with
  | nil => rfl
  | cons c t =>
    obtain ⟨hspace, hminus, hplus⟩ := isDigit_class c (hdigits c List.mem_cons_self)
    show (isSpace c || c == 45 || c == 43) = false
    rw [hspace, beq_eq_false_iff_ne.mpr hminus, beq_eq_false_iff_ne.mpr hplus]
    rfl

/-! ## Masks that are texts -/

/-- A text that stands for a mask is read as this mask. -/
theorem strtoull_of_isMask (h : IsMask (some (.str s)) v) : strtoull s = some v := by
  obtain ⟨hs, hdigits, hvalue⟩ := h
  have hd : Digits s := ⟨hs, hdigits, by rw [hvalue]; exact v.toNat_lt⟩
  rw [strtoull_of_plain hs (plain_of_digits hdigits), if_pos hd, hvalue, UInt64.ofNat_toNat]

/-- Of the texts without white space and sign, no other one is read. -/
theorem isMask_of_strtoull (hs : s ≠ [])
    (hplain : ¬ (s.head?.any (fun c => isSpace c || c == 45 || c == 43) = true ∧
      Digits (unsigned s))) (h : strtoull s = some v) : IsMask (some (.str s)) v := by
  have hd : Digits (unsigned s) := by
    by_contra hnot
    rw [strtoull_eq hs, if_neg hnot] at h
    cases h
  have hplain : s.head?.any (fun c => isSpace c || c == 45 || c == 43) = false :=
    Bool.eq_false_iff.mpr fun hhead => hplain ⟨hhead, hd⟩
  rw [strtoull_of_plain hs hplain] at h
  split at h
  · next hdigits =>
    refine ⟨hs, hdigits.2.1, ?_⟩
    rw [← Option.some.inj h, UInt64.toNat_ofNat_of_lt' hdigits.2.2]
  · cases h

/-- A lenient text is read, and it stands for no mask. -/
theorem exists_of_lenient (h : Lenient (some (.str s))) :
    (∃ v, strtoull s = some v) ∧ ∀ v, ¬ IsMask (some (.str s)) v := by
  rcases h with rfl | ⟨hhead, hdigits⟩
  · exact ⟨⟨0, rfl⟩, fun v hmask => hmask.1 rfl⟩
  · refine ⟨?_, fun v hmask => ?_⟩
    · have hs : s ≠ [] := by
        rintro rfl
        cases hhead
      rw [strtoull_eq hs, if_pos hdigits]
      split
      · exact ⟨_, rfl⟩
      · exact ⟨_, rfl⟩
    · rw [plain_of_digits hmask.2.1] at hhead
      cases hhead

/-! ## Masks that are numbers -/

/-- A double holds an integer below `2 ^ 53`. -/
theorem ofUInt64_of_lt (h : v.toNat < 2 ^ 53) : ofUInt64 v = .rat v.toNat := by
  have hfits : Rounding.Fits 2 53 (v.toNat : Int).natAbs := by
    rw [Int.natAbs_natCast]
    exact Rounding.fits_of_lt h
  rw [ofUInt64, toDouble_of_fits hfits, Int.cast_natCast]

/-- A number in range is cut to a whole one. -/
theorem toUInt64_of_le {q : ℚ} (hlow : 0 ≤ q) (hhigh : q ≤ 9007199254740991) :
    ∃ v : UInt64, Doubles.toUInt64 (JsonDouble.rat q) = some v ∧ (v.toNat : Int) = ⌊q⌋ ∧
      v.toNat ≤ 2 ^ 53 - 1 := by
  have hfloor : 0 ≤ ⌊q⌋ := Int.floor_nonneg.mpr hlow
  have hle : ⌊q⌋ ≤ 9007199254740991 := by
    have hcast : (⌊q⌋ : ℚ) ≤ 9007199254740991 := (Int.floor_le q).trans hhigh
    exact_mod_cast hcast
  have hvalue : (UInt64.ofNat ⌊q⌋.toNat).toNat = ⌊q⌋.toNat :=
    UInt64.toNat_ofNat_of_lt' (by simp only [UInt64.size]; omega)
  refine ⟨UInt64.ofNat ⌊q⌋.toNat, ?_, by rw [hvalue]; omega, by rw [hvalue]; omega⟩
  have hlt : q < 2 ^ 64 := hhigh.trans_lt (by norm_num)
  exact if_pos ⟨JsonDouble.rat_le_rat.mpr hlow, JsonDouble.rat_lt_rat.mpr hlt⟩

/-- **A number is read** when it is whole, and no other one than itself. -/
theorem jsonU64Value_num_iff (d : JsonDouble) :
    jsonU64Value (some (.num d)) = some v ↔ IsMask (some (.num d)) v := by
  show (if .rat 0 ≤ d ∧ d ≤ .rat 9007199254740991 then _ else none) = _ ↔
    d = .rat v.toNat ∧ v.toNat ≤ 2 ^ 53 - 1
  split
  · next hrange =>
    obtain ⟨q, rfl⟩ := JsonDouble.exists_rat hrange.1 hrange.2
    have hlow : 0 ≤ q := JsonDouble.rat_le_rat.mp hrange.1
    have hhigh : q ≤ 9007199254740991 := JsonDouble.rat_le_rat.mp hrange.2
    obtain ⟨w, hread, hfloor, hle⟩ := toUInt64_of_le hlow hhigh
    rw [hread, Option.bind_some, ofUInt64_of_lt (by omega)]
    constructor
    · intro h
      split at h
      · next hwhole =>
        obtain rfl := Option.some.inj h
        exact ⟨hwhole.symm, hle⟩
      · cases h
    · rintro ⟨hwhole, -⟩
      have hq : q = (v.toNat : ℚ) := JsonDouble.rat_inj.mp hwhole
      have hv : w.toNat = v.toNat := by
        rw [hq, Int.floor_natCast] at hfloor
        exact_mod_cast hfloor
      obtain rfl := UInt64.toNat_inj.mp hv
      rw [hwhole, if_pos rfl]
  · next hrange =>
    refine iff_of_false (fun h => by cases h) ?_
    rintro ⟨rfl, hle⟩
    refine hrange ⟨?_, ?_⟩
    · exact JsonDouble.rat_le_rat.mpr (Nat.cast_nonneg _)
    · have hcast : (v.toNat : ℚ) ≤ 9007199254740991 := by exact_mod_cast hle
      exact JsonDouble.rat_le_rat.mpr hcast

/-! ## Masks in records -/

/-- **A mask is read back from its record**, where the field is new. -/
theorem jsonU64_setJsonU64 {D : Type} [Doubles D] {ms : List (CString × Json D)} {field : CString}
    (hnew : (Json.obj ms).get field = none) (v : UInt64) :
    jsonU64 (.obj (setJsonU64 ms field v)) field = v := by
  have hlength : (cstr (toString v.toNat)).length ≤ 20 :=
    length_toString_le (by decide) (v.toNat_lt.trans (by decide))
  apply jsonU64_of_get
  rw [Json.get_obj] at hnew ⊢
  rw [setJsonU64, List.lookup_append, hnew, snprintf_of_lt (by omega), List.lookup_cons_self]
  rfl

/-- The item is read strictly: only masks are taken, each as itself, and a record keeps it. -/
def ReadStrictly (item : Option (Json JsonDouble)) : Prop :=
  ∀ v, (jsonU64Value item = some v ↔ IsMask item v) ∧
    (jsonU64Value item = some v → ∀ (ms : List (CString × Json JsonDouble)) (field : CString),
      (Json.obj ms).get field = none → jsonU64 (.obj (setJsonU64 ms field v)) field = v)

/-- **Masks are read strictly** exactly from the items that are not lenient. -/
theorem masks_strict_iff (item : Option (Json JsonDouble)) :
    ReadStrictly item ↔ ¬ Lenient item := by
  constructor
  · intro h hlenient
    cases item with
    | none => exact hlenient
    | some value =>
      cases value with
      | str s =>
        obtain ⟨⟨v, hv⟩, hnone⟩ := exists_of_lenient hlenient
        exact hnone v ((h v).1.mp hv)
      | _ => exact hlenient
  · intro hstrict v
    refine ⟨?_, fun _ ms field hnew => jsonU64_setJsonU64 hnew v⟩
    cases item with
    | none => exact iff_of_false nofun id
    | some value =>
      cases value with
      | str s =>
        obtain ⟨hs, hplain⟩ := not_or.mp hstrict
        exact ⟨isMask_of_strtoull hs hplain, strtoull_of_isMask⟩
      | num d => exact jsonU64Value_num_iff d
      | _ => exact iff_of_false nofun id

/-- **A sign is taken**: the text `-1` is the mask of all groups. -/
theorem minus_one_not_strict : ¬ ReadStrictly (some (.str (cstr "-1"))) := by
  intro h
  have hread : jsonU64Value (some (.str (cstr "-1"))) = some 0xffffffffffffffff := by
    decide
  have hmask := (h 0xffffffffffffffff).1.mp hread
  exact absurd (hmask.2.1 45 (by decide)) (by decide)

end EpsilonDB
