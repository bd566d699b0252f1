import Mathlib.Logic.Relation
import Mathlib.Order.Defs.PartialOrder
import Mathlib.Tactic.ByContra

/-!
# Counted objects

An object has an owner, which can let go of it once, and users, which come and go while the
owner has it. Whoever is the last one frees it: a user that gives it back when the owner has
let go, or the owner when there is no user.

- `Obj`: an object: its owner, its users, the threads about to free it, and how often it was
  freed.
- `Move`: the owner lends it, a user gives it back, the owner lets go, and it is freed.
- `Safe`, `safe_moves`: from its birth on, an object is freed once, after its last use.
-/

namespace Counted

/-- An object. -/
structure Obj where
  owned : Bool
  users : Nat
  freeing : Nat
  frees : Nat

/-- An object whose owner has just made it. -/
def born : Obj := ⟨true, 0, 0, 0⟩

namespace Obj

/-- A user gives it back. The last one frees it when it has no owner. -/
def giveBack (o : Obj) : Obj where
  owned := o.owned
  users := o.users - 1
  freeing := if o.owned = false ∧ o.users - 1 = 0 then o.freeing + 1 else o.freeing
  frees := o.frees

/-- The owner lets go, and frees it when it has no user. -/
def disown (o : Obj) : Obj where
  owned := false
  users := o.users
  freeing := if o.users = 0 then o.freeing + 1 else o.freeing
  frees := o.frees

end Obj

/-- What can happen to an object. -/
inductive Move : Obj → Obj → Prop where
  | lend {o : Obj} (h : o.owned = true) : Move o { o with users := o.users + 1 }
  | giveBack {o : Obj} (h : 0 < o.users) : Move o o.giveBack
  | disown {o : Obj} (h : o.owned = true) : Move o o.disown
  | free {o : Obj} (h : 0 < o.freeing) :
    Move o { o with freeing := o.freeing - 1, frees := o.frees + 1 }

/-- Any number of moves. -/
abbrev Moves : Obj → Obj → Prop := Relation.ReflTransGen Move

/-- While it has an owner or a user nobody frees it, and after that it is freed once. -/
structure Safe (o : Obj) : Prop where
  owned : o.owned = true → o.freeing = 0 ∧ o.frees = 0
  used : 0 < o.users → o.freeing = 0 ∧ o.frees = 0
  done : o.owned = false → o.users = 0 → o.freeing + o.frees = 1

theorem safe_born : Safe born := ⟨fun _ => ⟨rfl, rfl⟩, nofun, nofun⟩

/-- **Every move** keeps an object safe. -/
theorem Safe.move {o o' : Obj} (h : Safe o) (hm : Move o o') : Safe o' := by
  have howned := h.owned
  have hused := h.used
  have hdone := h.done
  cases hm with
  | lend hlent =>
    exact ⟨howned, fun _ => howned hlent, fun h => absurd (hlent.symm.trans h) (by decide)⟩
  | giveBack hpos =>
    obtain ⟨hfreeing, hfrees⟩ := hused hpos
    by_cases hlast : o.owned = false ∧ o.users - 1 = 0
    · have hgone : o.giveBack = ⟨o.owned, o.users - 1, o.freeing + 1, o.frees⟩ := by
        rw [Obj.giveBack, if_pos hlast]
      rw [hgone]
      refine ⟨fun h => ?_, fun h => ?_, fun _ _ => ?_⟩
      · rw [hlast.1] at h
        cases h
      · have hzero := hlast.2
        dsimp only at h
        omega
      · dsimp only
        omega
    · have hkept : o.giveBack = ⟨o.owned, o.users - 1, o.freeing, o.frees⟩ := by
        rw [Obj.giveBack, if_neg hlast]
      rw [hkept]
      exact ⟨fun _ => ⟨hfreeing, hfrees⟩, fun _ => ⟨hfreeing, hfrees⟩,
        fun h h' => absurd ⟨h, h'⟩ hlast⟩
  | disown hown =>
    obtain ⟨hfreeing, hfrees⟩ := howned hown
    refine ⟨nofun, fun hpos => ?_, fun _ hzero => ?_⟩
    · have hpos : 0 < o.users := hpos
      exact ⟨(if_neg (Nat.ne_of_gt hpos)).trans hfreeing, hfrees⟩
    · have hzero : o.users = 0 := hzero
      show (if o.users = 0 then o.freeing + 1 else o.freeing) + o.frees = 1
      rw [if_pos hzero]
      omega
  | free hpos =>
    -- who frees it is neither its owner nor a user
    refine ⟨fun h => ?_, fun h => ?_, fun h h' => ?_⟩
    · have := (howned h).1
      omega
    · have := (hused h).1
      omega
    · have := hdone h h'
      dsimp only
      omega

/-- An owner can lend an object any number of times. -/
theorem moves_lend {o : Obj} (h : o.owned = true) (k : Nat) :
    Moves o { o with users := o.users + k } := by
  induction k with
  | zero => exact .refl
  | succ k ih => exact ih.tail (.lend h)

/-- **From its birth on** an object is safe. -/
theorem safe_moves {o o' : Obj} (h : Safe o) (hm : Moves o o') : Safe o' := by
  induction hm with
  | refl => exact h
  | tail _ hstep ih => exact ih.move hstep

namespace Safe

variable {o : Obj}

theorem frees_le (h : Safe o) : o.frees ≤ 1 := by
  cases howned : o.owned with
  | true =>
    have := (h.owned howned).2
    omega
  | false =>
    by_cases hzero : o.users = 0
    · have := h.done howned hzero
      omega
    · have := (h.used (Nat.pos_of_ne_zero hzero)).2
      omega

end Safe

end Counted
