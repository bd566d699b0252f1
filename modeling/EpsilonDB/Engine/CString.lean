import Mathlib.Algebra.Group.Int.Defs
import Mathlib.Algebra.Group.Nat.Defs
import Mathlib.Data.List.Lex
import Mathlib.Data.Nat.Basic

/-!
# C strings

Keys, record ids, node ids and JSON texts are NUL-terminated byte strings. They
are modelled by the list of their bytes before the terminator, ordered as
`strcmp` orders them: byte by byte as unsigned values, a proper prefix first.

- `CString`: the byte list; its order is the lexicographic order of the bytes.
- `snprintf cap s`: the copy `snprintf(dst, cap, "%s", s)` leaves in a buffer of
  `cap` bytes, that is the first `cap - 1` bytes.
- `lt_take_iff`: comparing a string against a truncated one only looks at the
  bytes that survived the truncation.
- `forall_byte`: what is true of every byte is checked on 256 numbers.
- `ne_of_test`: bytes on the two sides of a test differ.
-/

instance byteOrder : LinearOrder UInt8 where
  le_refl := UInt8.le_refl
  le_trans := fun _ _ _ => UInt8.le_trans
  le_antisymm := fun _ _ => UInt8.le_antisymm
  le_total := UInt8.le_total
  lt_iff_le_not_ge := fun a b => by
    rw [UInt8.lt_iff_toNat_lt, UInt8.le_iff_toNat_le, UInt8.le_iff_toNat_le]
    omega
  toDecidableLE := fun a b => inferInstanceAs (Decidable (a ≤ b))
  toDecidableLT := fun a b => inferInstanceAs (Decidable (a < b))
  toDecidableEq := inferInstance

instance byteLawfulBEq : LawfulBEq UInt8 := inferInstance

namespace EpsilonDB

/-- A fact about bytes is one about 256 numbers. -/
theorem forall_byte {p : UInt8 → Prop} (h : ∀ n : Fin 256, p (UInt8.ofNat n)) (c : UInt8) :
    p c := by
  have hc := h ⟨c.toNat, c.toNat_lt⟩
  rwa [UInt8.ofNat_toNat] at hc

/-- Bytes on the two sides of a test differ. -/
theorem ne_of_test {p : UInt8 → Bool} {c d : UInt8} (hc : p c = true) (hd : p d = false) :
    c ≠ d :=
  ne_of_apply_ne p (hc.trans_ne (Bool.eq_false_iff.mp hd).symm)

/-- The bytes of a C string before its terminator. -/
abbrev CString := List UInt8

instance CString.lawfulBEq : LawfulBEq CString := List.instLawfulBEq

/-- The bytes of an ASCII literal. -/
def cstr (s : String) : CString := s.toList.map fun c => UInt8.ofNat c.toNat

/-- `snprintf(dst, cap, "%s", s)`: what the buffer holds afterwards. -/
def snprintf (cap : Nat) (s : CString) : CString := s.take (cap - 1)

theorem snprintf_of_lt {cap : Nat} {s : CString} (h : s.length < cap) :
    snprintf cap s = s :=
  List.take_of_length_le (by omega)

theorem length_snprintf_lt {cap : Nat} (h : 0 < cap) (s : CString) :
    (snprintf cap s).length < cap := by
  rw [snprintf, List.length_take]
  omega

/-- A string is below a truncated string iff its own truncation is. -/
theorem lt_take_iff (n : Nat) : ∀ a b : CString, b < a.take n ↔ b.take n < a.take n := by
  induction n with
  | zero => intro a b; simp
  | succ n ih =>
    intro a b
    cases a with
    | nil => simp
    | cons x a =>
      cases b with
      | nil => simp
      | cons y b =>
        rw [List.take_succ_cons, List.take_succ_cons, List.cons_lt_cons_iff,
          List.cons_lt_cons_iff, ih a b]

/-- A difference among the first `n` bytes decides the whole comparison. -/
theorem lt_of_take_lt (n : Nat) : ∀ {a b : CString}, b.take n < a.take n → b < a := by
  induction n with
  | zero => intro a b h; simp at h
  | succ n ih =>
    intro a b h
    cases a with
    | nil => simp at h
    | cons x a =>
      cases b with
      | nil => simp
      | cons y b =>
        rw [List.take_succ_cons, List.take_succ_cons, List.cons_lt_cons_iff] at h
        rw [List.cons_lt_cons_iff]
        exact h.imp_right fun ⟨hxy, hlt⟩ => ⟨hxy, ih hlt⟩

end EpsilonDB
