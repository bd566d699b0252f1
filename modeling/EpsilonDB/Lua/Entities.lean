import EpsilonDB.Lib.Keys
import EpsilonDB.Lua.StdGet

/-!
# The entity of a handler (`lua/epsilon_lua.c`)

`edb_lua_fire` hands the members of a document to the handler, each pushed with all levels.
What lies deeper than `EDB_LUA_MAX_DEPTH` is `nil`.

- `Shows`: a pushed value is all of a JSON value, as more levels would push it.
- `Within`: what can be found in a value by keys is within so many levels.
- `shows_pushJson_iff`: pushed with so many levels, a value is shown when it is within them.
- `entityTable`: the table of an entity; `shows_entityTable_iff`.
-/

namespace EpsilonDB

namespace Lua

variable {D : Type} [Doubles D]

/-- The pushed value is what any number of levels pushes, from some number on. -/
def Shows (v : Json D) (p : Pushed D) : Prop := ∃ n, ∀ k, n ≤ k → pushJson k v = p

/-- The value and all that is found in it are within so many levels. -/
def Within : Nat → Json D → Prop
  | 0, _ => False
  | n + 1, v => ∀ key w, entry v key = some w → Within n w

variable {v w : Json D} {p : Pushed D} {n : Nat}

/-- Within the levels nothing changes with more of them. -/
theorem pushJson_of_within (h : Within n v) (k : Nat) : pushJson (n + k) v = pushJson n v := by
  induction n generalizing v with
  | zero => exact h.elim
  | succ n ih =>
    by_cases hv : v.isContainer = true
    · rw [Nat.succ_add, pushJson_container hv, pushJson_container hv]
      refine congrArg Pushed.table (funext fun key => ?_)
      cases hentry : entry v key with
      | none => rfl
      | some w => exact ih (h key w hentry)
    · cases v with
      | null | bool _ | num _ | str _ =>
        rw [Nat.succ_add]
        rfl
      | arr _ | obj _ => exact absurd rfl hv

/-- No value is shown by `nil`. -/
theorem not_shows_nil : ¬ Shows v .nil := by
  rintro ⟨n, hn⟩
  exact pushJson_ne_nil n v (hn (n + 1) (Nat.le_succ n))

/-- **A value is shown** by so many levels exactly when it is within them. -/
theorem shows_pushJson_iff : Shows v (pushJson n v) ↔ Within n v := by
  constructor
  · intro h
    induction n generalizing v with
    | zero => exact not_shows_nil h
    | succ n ih =>
      intro key w hentry
      have hv := isContainer_of_entry hentry
      obtain ⟨m, hm⟩ := h
      refine ih ⟨m, fun k hk => ?_⟩
      have htable := hm (k + 1) (Nat.le_succ_of_le hk)
      rw [pushJson_container hv, pushJson_container hv] at htable
      have hfield := congrFun (Pushed.table.inj htable) key
      rwa [hentry] at hfield
  · intro h
    refine ⟨n, fun k hk => ?_⟩
    obtain ⟨d, rfl⟩ := Nat.exists_eq_add_of_le hk
    exact pushJson_of_within h d

/-- The table that `edb_lua_fire` makes of the members of a document. -/
def entityTable (ms : List (CString × Json D)) : Pushed D :=
  .table (setFields (ms.map fun m => (m.1, pushJson (maxDepth + 1) m.2)) fun _ => .nil)

/-- A document is shown to its handler exactly when it is within the levels. -/
theorem shows_entityTable_iff {ms : List (CString × Json D)} :
    Shows (.obj ms) (entityTable ms) ↔ Within (maxDepth + 2) (.obj ms) :=
  shows_pushJson_iff (n := maxDepth + 2)

/-- The empty table shows only the document without members. -/
theorem shows_empty_iff {ms : List (CString × Json D)} :
    Shows (.obj ms) (entityTable []) ↔ ms = [] := by
  constructor
  · rintro ⟨n, hn⟩
    by_contra hne
    obtain ⟨m, hm⟩ := List.exists_mem_of_ne_nil ms hne
    obtain ⟨w, hw⟩ : ∃ w, entry (.obj ms) (.string m.1) = some w :=
      Keys.exists_lookup (List.mem_reverse.mpr hm)
    have htable := hn (n + 2) (Nat.le_add_right n 2)
    rw [pushJson_container rfl] at htable
    have hfield := congrFun (Pushed.table.inj htable) (.string m.1)
    rw [hw] at hfield
    exact pushJson_ne_nil n w hfield
  · rintro rfl
    exact shows_entityTable_iff.mpr nofun

end Lua

end EpsilonDB
