import Mathlib.Data.List.Lex
import Mathlib.Order.Monotone.Basic
import Mathlib.Tactic.Ring

/-!
# Positional numerals

Digits written most significant first. Numerals of one width are compared digit by digit, as
strings are, exactly as their values are.

- `Alphabet`: the digits of a base, in the order of their values.
- `Alphabet.value`: the value of a numeral, by Horner's rule.
- `value_lt_iff`, `value_le_iff`: the order of the numerals of one width.
- `Alphabet.fixed`: the numeral of a number in a width.
-/

namespace Positional

universe u

/-- The digits of base `b`. -/
structure Alphabet (α : Type u) [LinearOrder α] (b : ℕ) where
  digits : Set α
  val : α → ℕ
  val_lt : ∀ d ∈ digits, val d < b
  mono : StrictMonoOn val digits

variable {α : Type u} [LinearOrder α] {b : ℕ} (A : Alphabet α b)

namespace Alphabet

/-- All elements are digits. -/
def Numeral (l : List α) : Prop := ∀ d ∈ l, d ∈ A.digits

/-- The value, by Horner's rule. -/
def value (l : List α) : ℕ := l.foldl (fun n d => n * b + A.val d) 0

variable {A}

theorem Numeral.head {d : α} {l : List α} (h : A.Numeral (d :: l)) : d ∈ A.digits :=
  h d List.mem_cons_self

theorem Numeral.tail {d : α} {l : List α} (h : A.Numeral (d :: l)) : A.Numeral l :=
  fun x hx => h x (List.mem_cons_of_mem _ hx)

theorem Numeral.append {l l' : List α} (h : A.Numeral l) (h' : A.Numeral l') :
    A.Numeral (l ++ l') :=
  List.forall_mem_append.mpr ⟨h, h'⟩

/-- Horner's rule from a start shifts the start. -/
theorem foldl_value (l : List α) (n : ℕ) :
    l.foldl (fun n d => n * b + A.val d) n = n * b ^ l.length + A.value l := by
  induction l generalizing n with
  | nil => simp [value]
  | cons d l ih =>
    rw [value, List.foldl_cons, List.foldl_cons, ih, ih (0 * b + A.val d), List.length_cons,
      pow_succ]
    ring

@[simp] theorem value_nil : A.value [] = 0 := rfl

theorem value_cons (d : α) (l : List α) :
    A.value (d :: l) = A.val d * b ^ l.length + A.value l := by
  rw [value, List.foldl_cons, foldl_value, Nat.zero_mul, Nat.zero_add]

theorem value_append (l l' : List α) :
    A.value (l ++ l') = A.value l * b ^ l'.length + A.value l' := by
  rw [value, List.foldl_append, foldl_value]
  rfl

/-- A numeral is below the power of its width. -/
theorem Numeral.value_lt {l : List α} (h : A.Numeral l) : A.value l < b ^ l.length := by
  induction l with
  | nil => simp
  | cons d l ih =>
    have hrest := ih h.tail
    have hd : (A.val d + 1) * b ^ l.length ≤ b * b ^ l.length :=
      Nat.mul_le_mul_right _ (A.val_lt d h.head)
    rw [value_cons, List.length_cons, pow_succ']
    rw [Nat.succ_mul] at hd
    omega

/-- A greater first digit outweighs the rest. -/
theorem value_cons_lt {d d' : α} {l l' : List α} (hl : A.Numeral l)
    (hlen : l.length = l'.length) (hd : A.val d < A.val d') :
    A.value (d :: l) < A.value (d' :: l') := by
  have hrest := hl.value_lt
  have hfirst : (A.val d + 1) * b ^ l.length ≤ A.val d' * b ^ l.length :=
    Nat.mul_le_mul_right _ hd
  rw [value_cons, value_cons, ← hlen]
  rw [Nat.succ_mul] at hfirst
  omega

/-- **Numerals of one width** are ordered as their values are. -/
theorem value_lt_iff {l l' : List α} (h : A.Numeral l) (h' : A.Numeral l')
    (hlen : l.length = l'.length) : A.value l < A.value l' ↔ l < l' := by
  induction l generalizing l' with
  | nil =>
    obtain rfl : l' = [] := List.length_eq_zero_iff.mp hlen.symm
    simp
  | cons d l ih =>
    cases l' with
    | nil => cases hlen
    | cons d' l' =>
      replace hlen : l.length = l'.length := Nat.succ.inj hlen
      rw [List.cons_lt_cons_iff]
      rcases lt_trichotomy d d' with hlt | rfl | hgt
      · have hval := A.mono h.head h'.head hlt
        simp [hlt, value_cons_lt h.tail hlen hval]
      · have hrest := ih h.tail h'.tail hlen
        rw [value_cons, value_cons, hlen, Nat.add_lt_add_iff_left, hrest]
        simp
      · have hval := A.mono h'.head h.head hgt
        have hvalue : A.value (d' :: l') < A.value (d :: l) :=
          value_cons_lt h'.tail hlen.symm hval
        constructor
        · intro hlt
          omega
        · rintro (hlt | ⟨rfl, -⟩)
          · exact absurd hlt hgt.asymm
          · exact absurd hgt (lt_irrefl _)

theorem value_le_iff {l l' : List α} (h : A.Numeral l) (h' : A.Numeral l')
    (hlen : l.length = l'.length) : A.value l ≤ A.value l' ↔ l ≤ l' := by
  rw [← not_lt, ← not_lt, value_lt_iff h' h hlen.symm]

/-! ## The numeral of a number -/

/-- The last `width` digits of `n`, written with `digit`. -/
def fixed (digit : ℕ → α) (b width n : ℕ) : List α :=
  (List.range width).reverse.map fun k => digit (n / b ^ k % b)

omit [LinearOrder α] in
theorem length_fixed (digit : ℕ → α) (width n : ℕ) : (fixed digit b width n).length = width := by
  rw [fixed, List.length_map, List.length_reverse, List.length_range]

omit [LinearOrder α] in
theorem fixed_succ (digit : ℕ → α) (width n : ℕ) :
    fixed digit b (width + 1) n = digit (n / b ^ width % b) :: fixed digit b width n := by
  rw [fixed, List.range_succ, List.reverse_append, List.map_append]
  rfl

variable {digit : ℕ → α}

theorem numeral_fixed (hb : 0 < b) (hdigit : ∀ d < b, digit d ∈ A.digits) (width n : ℕ) :
    A.Numeral (fixed digit b width n) := by
  intro c hc
  obtain ⟨k, -, rfl⟩ := List.mem_map.mp hc
  exact hdigit _ (Nat.mod_lt _ hb)

/-- The numeral of a number in `width` digits has its value, up to a multiple of the power. -/
theorem value_fixed (hb : 0 < b) (hval : ∀ d < b, A.val (digit d) = d) (width n : ℕ) :
    A.value (fixed digit b width n) = n % b ^ width := by
  induction width with
  | zero => rw [pow_zero, Nat.mod_one]; rfl
  | succ width ih =>
    rw [fixed_succ, value_cons, length_fixed, ih, hval _ (Nat.mod_lt _ hb), pow_succ,
      Nat.mod_mul, Nat.mul_comm, Nat.add_comm]

end Alphabet

end Positional
