import EpsilonDB.Api.Config

/-!
# Security groups (`engine/epsilon_config_entities.c`)

A group is a record of `config_groups` that carries the bit it has in the permission masks.
A new group takes the first bit that no record of the node's own registry has.

- `strtoull_toString`: a number is read back from its record.
- `edbGroupGet`, `edbGroupList`, `nextFreeBit`, `edbGroupCreate`, `edbGroupDelete`.
- `firstFree_spec`: the bit is none of the listed groups', unless all 63 are taken.
- `edbCheckPerm_iff`: a mask allows through a bit, or everybody.
-/

namespace EpsilonDB

/-! ## Numbers in records -/

theorem digitChar_toUInt8 : ∀ n < 10, UInt8.ofNat n.digitChar.toNat = UInt8.ofNat (48 + n) := by
  decide

/-- The digits of a number, as bytes. -/
theorem decimal_toDigits (n : Nat) :
    decimal ((Nat.toDigits 10 n).map fun c => UInt8.ofNat c.toNat) = n := by
  induction n using Nat.strong_induction_on with
  | _ n ih =>
    rw [Nat.toDigits_eq_if (by decide)]
    split
    · next h =>
      rw [List.map_singleton, digitChar_toUInt8 n h]
      show 0 * 10 + ((UInt8.ofNat (48 + n)).toNat - 48) = n
      rw [UInt8.toNat_ofNat_of_lt' (by simp only [UInt8.size]; omega)]
      omega
    · next h =>
      have hdigit : n % 10 < 10 := Nat.mod_lt n (by decide)
      rw [List.map_append, List.map_singleton, digitChar_toUInt8 _ hdigit]
      unfold decimal at ih ⊢
      rw [List.foldl_append, ih (n / 10) (by omega)]
      show n / 10 * 10 + ((UInt8.ofNat (48 + n % 10)).toNat - 48) = n
      rw [UInt8.toNat_ofNat_of_lt' (by simp only [UInt8.size]; omega)]
      omega

theorem isDigit_of_mem_toDigits {n : Nat} {c : UInt8}
    (h : c ∈ (Nat.toDigits 10 n).map fun c => UInt8.ofNat c.toNat) : isDigit c = true := by
  induction n using Nat.strong_induction_on with
  | _ n ih =>
    have hdigit : ∀ m < 10, isDigit (UInt8.ofNat (48 + m)) = true := by decide
    rw [Nat.toDigits_eq_if (by decide)] at h
    split at h
    · next hlt =>
      rw [List.map_singleton, digitChar_toUInt8 n hlt, List.mem_singleton] at h
      exact h ▸ hdigit n hlt
    · next hge =>
      have hmod : n % 10 < 10 := Nat.mod_lt n (by decide)
      rw [List.map_append, List.map_singleton, digitChar_toUInt8 _ hmod, List.mem_append,
        List.mem_singleton] at h
      rcases h with h | rfl
      · exact ih (n / 10) (by omega) h
      · exact hdigit _ hmod

theorem cstr_toString_nat (n : ℕ) :
    cstr (toString n) = (Nat.toDigits 10 n).map fun c => UInt8.ofNat c.toNat := by
  rw [cstr, Nat.toString_eq_repr, Nat.toList_repr]

theorem isDigit_of_mem_toString {n : ℕ} {c : UInt8} (h : c ∈ cstr (toString n)) :
    isDigit c = true :=
  isDigit_of_mem_toDigits (cstr_toString_nat n ▸ h)

/-- The text of a number of at most `k` digits. -/
theorem length_toString_le {n k : ℕ} (hk : 0 < k) (h : n < 10 ^ k) :
    (cstr (toString n)).length ≤ k := by
  rw [cstr_toString_nat, List.length_map]
  exact (Nat.length_toDigits_le_iff (by decide) hk).mpr h

theorem toString_nat_ne_nil (n : ℕ) : cstr (toString n) ≠ [] := by
  rw [cstr_toString_nat]
  exact fun h => Nat.toDigits_ne_nil (List.map_eq_nil_iff.mp h)

/-- A digit is neither white space nor a sign. -/
theorem isDigit_class (c : UInt8) (h : isDigit c = true) :
    isSpace c = false ∧ c ≠ 45 ∧ c ≠ 43 := by
  simp only [isDigit, Bool.and_eq_true, decide_eq_true_eq, UInt8.le_iff_toNat_le] at h
  have hlow : 48 ≤ c.toNat := h.1
  refine ⟨?_, ?_, ?_⟩
  · simp only [isSpace, Bool.or_eq_false_iff, beq_eq_false_iff_ne, Bool.and_eq_false_iff,
      decide_eq_false_iff_not, UInt8.le_iff_toNat_le]
    refine ⟨?_, Or.inr fun hle => ?_⟩
    · rintro rfl
      exact absurd hlow (by decide)
    · have : c.toNat ≤ 13 := hle
      omega
  · rintro rfl
    exact absurd hlow (by decide)
  · rintro rfl
    exact absurd hlow (by decide)

/-- **`strtoull` reads what `%llu` printed.** -/
theorem strtoull_toString (v : UInt64) : strtoull (cstr (toString v.toNat)) = some v := by
  rw [cstr_toString_nat]
  generalize hs : (Nat.toDigits 10 v.toNat).map (fun c => UInt8.ofNat c.toNat) = s
  have hdigits : ∀ c ∈ s, isDigit c = true := fun c hc => isDigit_of_mem_toDigits (hs ▸ hc)
  have hvalue : decimal s = v.toNat := hs ▸ decimal_toDigits v.toNat
  cases s with
  | nil => exact absurd (List.map_eq_nil_iff.mp hs) Nat.toDigits_ne_nil
  | cons c t =>
    obtain ⟨hspace, hminus, hplus⟩ := isDigit_class c (hdigits c List.mem_cons_self)
    have hany : (c :: t).any (fun c => !isDigit c) = false := by
      rw [List.any_eq_false]
      intro d hd
      rw [hdigits d hd]
      decide
    rw [strtoull, if_neg (List.cons_ne_nil c t),
      List.dropWhile_cons_of_neg (by rw [hspace]; decide)]
    split
    next negative digits hsign =>
    obtain ⟨rfl, rfl⟩ : negative = false ∧ digits = c :: t := by
      split at hsign
      · next heq => exact absurd (List.cons.inj heq).1 hminus
      · next heq => exact absurd (List.cons.inj heq).1 hplus
      · cases hsign
        exact ⟨rfl, rfl⟩
    rw [hany, hvalue, if_neg (by simpa using v.toNat_lt), if_neg Bool.false_ne_true]
    exact congrArg some UInt64.ofNat_toNat

/-! ## Bits of masks -/

/-- `1ULL << (position - 1)`. -/
def bitOf (position : UInt64) : UInt64 := 1 <<< (position - 1)

/-- `EDB_MAX_GROUPS`. -/
def maxGroups : UInt64 := 63

/-- A position that a group may have. -/
def ValidBit (position : UInt64) : Prop := 1 ≤ position ∧ position ≤ maxGroups

instance (position : UInt64) : Decidable (ValidBit position) :=
  inferInstanceAs (Decidable (_ ∧ _))

/-- A position in a mask. -/
def InMask (position : UInt64) : Prop := 1 ≤ position ∧ position ≤ 64

theorem ValidBit.inMask {position : UInt64} (h : ValidBit position) : InMask position :=
  ⟨h.1, UInt64.le_trans h.2 (by decide)⟩

theorem toNat_bitOf {position : UInt64} (h : InMask position) :
    (bitOf position).toNat = 2 ^ (position.toNat - 1) := by
  have hpos : 1 ≤ position.toNat := UInt64.le_iff_toNat_le.mp h.1
  have hle : position.toNat ≤ 64 := UInt64.le_iff_toNat_le.mp h.2
  have hsub : (position - 1).toNat = position.toNat - 1 :=
    UInt64.toNat_sub_of_le position 1 h.1
  rw [bitOf, UInt64.toNat_shiftLeft, hsub, Nat.mod_eq_of_lt (by omega : _ < 64)]
  show 1 <<< (position.toNat - 1) % 2 ^ 64 = _
  rw [Nat.one_shiftLeft]
  exact Nat.mod_eq_of_lt (Nat.pow_lt_pow_right (by decide) (by omega))

/-- A mask has the bit at a position. -/
def HasBit (mask position : UInt64) : Prop := mask &&& bitOf position ≠ 0

instance (mask position : UInt64) : Decidable (HasBit mask position) :=
  inferInstanceAs (Decidable (_ ≠ _))

theorem hasBit_iff {mask position : UInt64} (h : InMask position) :
    HasBit mask position ↔ mask.toNat.testBit (position.toNat - 1) = true := by
  rw [HasBit, ne_eq, ← UInt64.toNat_inj, UInt64.toNat_and, toNat_bitOf h]
  generalize position.toNat - 1 = i
  constructor
  · intro hne
    by_contra hbit
    refine hne (Nat.eq_of_testBit_eq fun j => ?_)
    rw [Nat.testBit_and, Nat.testBit_two_pow]
    by_cases hj : i = j
    · subst hj
      simpa using hbit
    · simp [hj]
  · intro hbit hzero
    have hi : (mask.toNat &&& 2 ^ i).testBit i = true := by
      rw [Nat.testBit_and, Nat.testBit_two_pow_self, hbit]
      rfl
    rw [hzero] at hi
    exact absurd hi (by simp)

theorem hasBit_or {mask mask' position : UInt64} (h : InMask position) :
    HasBit (mask ||| mask') position ↔ HasBit mask position ∨ HasBit mask' position := by
  rw [hasBit_iff h, hasBit_iff h, hasBit_iff h, UInt64.toNat_or, Nat.testBit_or, Bool.or_eq_true]

theorem hasBit_bitOf {position position' : UInt64} (h : InMask position)
    (h' : InMask position') : HasBit (bitOf position) position' ↔ position = position' := by
  have hpos : 1 ≤ position.toNat := UInt64.le_iff_toNat_le.mp h.1
  have hpos' : 1 ≤ position'.toNat := UInt64.le_iff_toNat_le.mp h'.1
  rw [hasBit_iff h', toNat_bitOf h, Nat.testBit_two_pow, decide_eq_true_eq, ← UInt64.toNat_inj]
  omega

/-- **What a mask allows**: everybody, or the groups it shares a bit with. -/
theorem edbCheckPerm_iff (mask userGroups : UInt64) :
    edbCheckPerm mask userGroups = true ↔
      mask = maskAllowAll ∨ ∃ b, InMask b ∧ HasBit mask b ∧ HasBit userGroups b := by
  rw [edbCheckPerm, Bool.or_eq_true, beq_iff_eq, bne_iff_ne]
  refine or_congr_right ?_
  constructor
  · intro hne
    -- a number that is not zero has a bit, below the 64th
    have hnat : (mask &&& userGroups).toNat ≠ 0 := fun h => hne (UInt64.toNat_inj.mp h)
    obtain ⟨i, hi⟩ := Nat.exists_testBit_of_ne_zero hnat
    have hlt : i < 64 := by
      by_contra hge
      have : (mask &&& userGroups).toNat < 2 ^ i :=
        lt_of_lt_of_le (UInt64.toNat_lt _) (Nat.pow_le_pow_right (by decide) (by omega))
      rw [Nat.testBit_lt_two_pow this] at hi
      cases hi
    have hb : (UInt64.ofNat (i + 1)).toNat = i + 1 :=
      UInt64.toNat_ofNat_of_lt' (by simp only [UInt64.size]; omega)
    have hmask : InMask (UInt64.ofNat (i + 1)) := by
      constructor
      · rw [UInt64.le_iff_toNat_le, hb]
        exact Nat.le_add_left 1 i
      · rw [UInt64.le_iff_toNat_le, hb]
        show i + 1 ≤ 64
        omega
    rw [UInt64.toNat_and, Nat.testBit_and, Bool.and_eq_true] at hi
    refine ⟨UInt64.ofNat (i + 1), hmask, ?_, ?_⟩
    · rw [hasBit_iff hmask, hb]
      exact hi.1
    · rw [hasBit_iff hmask, hb]
      exact hi.2
  · rintro ⟨b, hb, hmask, huser⟩ hzero
    rw [hasBit_iff hb] at hmask huser
    have hand : (mask &&& userGroups).toNat.testBit (b.toNat - 1) = true := by
      rw [UInt64.toNat_and, Nat.testBit_and, hmask, huser]
      rfl
    rw [hzero] at hand
    simp at hand

/-! ## The registry of a node -/

def cfgGroups : CString := cstr "config_groups"

theorem cfgGroups_mem : cfgGroups ∈ systemKeyspaces := by simp [systemKeyspaces, cfgGroups]

/-- `edb_group_info`. -/
structure GroupInfo where
  name : CString
  bitPosition : UInt64
deriving DecidableEq

section

variable {σ D : Type} [Doubles D]

/-- A record as `edb_group_get` and `edb_group_list` read it. -/
def groupInfo (obj : Json D) : GroupInfo where
  name := copyName 128 obj (cstr "name")
  bitPosition := jsonU64 obj (cstr "bit_position")

/-- The record of `edb_group_create`. -/
def groupRecord (name : CString) (bit : UInt64) : Json D :=
  .obj [(cstr "type", .str (cstr "group")), (cstr "name", .str name),
    (cstr "bit_position", u64Json bit)]

theorem groupInfo_groupRecord {name : CString} (h : name.length < 128) (bit : UInt64) :
    groupInfo (groupRecord name bit : Json D) = ⟨name, bit⟩ := by
  have hname : copyName 128 (groupRecord name bit : Json D) (cstr "name") = name :=
    snprintf_of_lt h
  have hbit : jsonU64 (groupRecord name bit : Json D) (cstr "bit_position") = bit := by
    show (strtoull (cstr (toString bit.toNat))).getD 0 = bit
    rw [strtoull_toString]
    rfl
  rw [groupInfo, hname, hbit]

/-- The bits the listed groups have. -/
def usedBits (groups : List GroupInfo) : UInt64 :=
  groups.foldl
    (fun used g => if ValidBit g.bitPosition then used ||| bitOf g.bitPosition else used) 0

/-- The positions in the order they are tried. -/
def bitPositions : List UInt64 := (List.range 63).map fun i => UInt64.ofNat (i + 1)

/-- The first position whose bit is not used, or 0. -/
def firstFree (groups : List GroupInfo) : UInt64 :=
  (bitPositions.find? fun bit => usedBits groups &&& bitOf bit == 0).getD 0

variable (B : Backend σ D)

/-- `remove_record`. -/
def removeRecord (keyspace id : CString) (s : σ) : Bool × σ :=
  let (status, s) := B.write (.delete systemDb systemDb keyspace id) s
  (decide (status = .ok), s)

/-- `edb_group_get`. -/
def edbGroupGet (s : σ) (name : CString) : Option GroupInfo :=
  match fetch B s cfgGroups name with
  | none => none
  | some obj =>
    let info := groupInfo obj
    if info.name ≠ [] ∧ ValidBit info.bitPosition then some info else none

/-- `edb_group_list`. -/
def edbGroupList (s : σ) : List GroupInfo := (B.all s systemDb cfgGroups).map groupInfo

/-- `next_free_bit`. -/
def nextFreeBit (s : σ) : UInt64 := firstFree (edbGroupList B s)

/-- The bit `edb_group_create` takes, unless it refuses. -/
def groupBit (s : σ) (name : CString) : Option UInt64 :=
  if name = [] ∨ 128 ≤ name.length then none
  else if (edbGroupGet B s name).isSome then none
  else
    let bit := nextFreeBit B s
    if bit = 0 then none else some bit

/-- `edb_group_create`. -/
def edbGroupCreate (name : CString) (s : σ) : Bool × σ :=
  match groupBit B s name with
  | none => (false, s)
  | some bit => store B cfgGroups name (groupRecord name bit) s

/-- `edb_group_delete`. -/
def edbGroupDelete (name : CString) (s : σ) : Bool × σ := removeRecord B cfgGroups name s

end

/-! ## The bit of a new group -/

theorem hasBit_usedBits {groups : List GroupInfo} {position : UInt64}
    (h : ValidBit position) :
    HasBit (usedBits groups) position ↔ ∃ g ∈ groups, g.bitPosition = position := by
  suffices hfold : ∀ used : UInt64,
      HasBit (groups.foldl (fun used g =>
        if ValidBit g.bitPosition then used ||| bitOf g.bitPosition else used) used) position ↔
      HasBit used position ∨ ∃ g ∈ groups, g.bitPosition = position by
    rw [usedBits, hfold]
    refine or_iff_right fun hzero => hzero ?_
    exact UInt64.zero_and
  induction groups with
  | nil => exact fun used => by simp
  | cons g groups ih =>
    intro used
    rw [List.foldl_cons, ih]
    simp only [List.mem_cons, exists_eq_or_imp]
    by_cases hg : ValidBit g.bitPosition
    · rw [if_pos hg, hasBit_or h.inMask, hasBit_bitOf hg.inMask h.inMask, or_assoc]
    · have hne : g.bitPosition ≠ position := fun heq => hg (heq ▸ h)
      rw [if_neg hg]
      simp only [hne, false_or]

theorem mem_bitPositions {position : UInt64} : position ∈ bitPositions ↔ ValidBit position := by
  simp only [bitPositions, List.mem_map, List.mem_range, ValidBit, UInt64.le_iff_toNat_le]
  constructor
  · rintro ⟨i, hi, rfl⟩
    rw [UInt64.toNat_ofNat_of_lt' (by simp only [UInt64.size]; omega)]
    show 1 ≤ i + 1 ∧ i + 1 ≤ 63
    omega
  · rintro ⟨hpos, hle⟩
    have hpos' : 1 ≤ position.toNat := hpos
    have hle' : position.toNat ≤ 63 := hle
    refine ⟨position.toNat - 1, by omega, ?_⟩
    rw [Nat.sub_add_cancel hpos']
    exact UInt64.ofNat_toNat

/-- **A new bit is free**: no listed group has it. -/
theorem firstFree_spec (groups : List GroupInfo) :
    firstFree groups = 0 ∨
      (ValidBit (firstFree groups) ∧ ∀ g ∈ groups, g.bitPosition ≠ firstFree groups) := by
  unfold firstFree
  cases hfind : bitPositions.find? fun bit => usedBits groups &&& bitOf bit == 0 with
  | none => exact Or.inl rfl
  | some bit =>
    have hvalid := mem_bitPositions.mp (List.mem_of_find?_eq_some hfind)
    have hfree : ¬ HasBit (usedBits groups) bit := fun h =>
      h (by simpa using List.find?_some hfind)
    refine Or.inr ⟨hvalid, fun g hg heq => hfree ?_⟩
    exact (hasBit_usedBits hvalid).mpr ⟨g, hg, heq⟩

section

variable {σ D : Type} [Doubles D] {B : Backend σ D} {s : σ} {name : CString} {bit : UInt64}

/-- What `edb_group_create` found. -/
theorem groupBit_spec (h : groupBit B s name = some bit) :
    (name ≠ [] ∧ name.length < 128) ∧ edbGroupGet B s name = none ∧ ValidBit bit ∧
      ∀ g ∈ edbGroupList B s, g.bitPosition ≠ bit := by
  unfold groupBit at h
  split at h
  · cases h
  · next hname =>
    rw [not_or, not_le] at hname
    split at h
    · cases h
    · next hget =>
      dsimp only at h
      split at h
      · cases h
      · next hbit =>
        cases h
        obtain ⟨hvalid, hfree⟩ := (firstFree_spec (edbGroupList B s)).resolve_left hbit
        exact ⟨hname, by simpa using hget, hvalid, hfree⟩

end

end EpsilonDB
