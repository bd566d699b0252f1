import EpsilonDB.Lib.Joined
import EpsilonDB.Lua.Fire

/-!
# The names of actions (`lua/epsilon_lua.c`)

The action of a keyspace and an event is found by its name alone: the names of the scope and of
the event, with underscores between them. The names of a scope may have underscores in them.

- `LuaCall.handler`: the function that a fire runs.
- `ActionsApart`: two scopes and events have actions of their own, and a fire of the one never
  runs the action of the other.
- `actionsApart_iff`: so they do when the events or the parts of the names differ.
- `actions_meet`: an action that runs for another keyspace.
-/

namespace EpsilonDB

namespace Lua

open Joined

/-- The underscore. -/
def underscore : UInt8 := 95

variable {D : Type}

/-- The global function that a fire runs, when there is a record of its name. -/
def LuaCall.handler (call : LuaCall D) : Option CString :=
  call.scope.bind fun (database, partition, keyspace) =>
    (edbLuaActionName database partition keyspace call.event).filter (hasRecordNamed call.records)

/-- A fire goes on when there is a function to run. -/
theorem LuaCall.isSome_handler (call : LuaCall D) : call.handler.isSome = call.hasAction := by
  unfold LuaCall.handler LuaCall.hasAction
  cases call.scope with
  | none => rfl
  | some scope => exact Option.isSome_filter

/-- The two scopes and events have actions of their own. -/
structure ActionsApart (D : Type) (database partition keyspace : CString) (event : LuaEvent)
    (database' partition' keyspace' : CString) (event' : LuaEvent) : Prop where
  names : edbLuaActionName database partition keyspace event ≠
    edbLuaActionName database' partition' keyspace' event'
  fire : ∀ call : LuaCall D, call.scope = some (database, partition, keyspace) →
    call.event = event → call.hasAction = true →
    call.handler ≠ edbLuaActionName database' partition' keyspace' event'

/-- The name of an event is one part. -/
theorem splitOn_name (event : LuaEvent) : event.name.splitOn underscore = [event.name] := by
  apply List.splitOn_eq_singleton
  cases event <;> decide

theorem LuaEvent.name_inj {event event' : LuaEvent} (h : event.name = event'.name) :
    event = event' := by
  revert h
  cases event <;> cases event' <;> decide

section

variable {database partition keyspace database' partition' keyspace' : CString}
variable {event event' : LuaEvent}

/-- The parts of the name of an action. -/
theorem parts_actionName :
    parts underscore [database, partition, keyspace, event.name] =
      parts underscore [database, partition, keyspace] ++ [event.name] := by
  simp only [parts_cons, splitOn_name, List.append_assoc]
  rfl

/-- The name of an action that fits its buffer. -/
theorem edbLuaActionName_eq
    (h : (edbLuaActionName database partition keyspace event).isSome = true) :
    edbLuaActionName database partition keyspace event =
      some ([underscore].intercalate [database, partition, keyspace, event.name]) := by
  unfold edbLuaActionName at h ⊢
  dsimp only at h ⊢
  split at h
  · next hfits =>
    rw [if_pos hfits]
    simp only [List.intercalate_cons_cons, List.intercalate_singleton, ← List.append_assoc]
    rfl
  · cases h

/-- **Which actions share a name.** -/
theorem edbLuaActionName_eq_iff
    (h : (edbLuaActionName database partition keyspace event).isSome = true)
    (h' : (edbLuaActionName database' partition' keyspace' event').isSome = true) :
    edbLuaActionName database partition keyspace event =
        edbLuaActionName database' partition' keyspace' event' ↔
      event = event' ∧ parts underscore [database, partition, keyspace] =
        parts underscore [database', partition', keyspace'] := by
  rw [edbLuaActionName_eq h, edbLuaActionName_eq h', Option.some.injEq,
    intercalate_eq_iff (List.cons_ne_nil _ _) (List.cons_ne_nil _ _), parts_actionName,
    parts_actionName]
  constructor
  · intro heq
    obtain ⟨hparts, hname⟩ := List.append_inj' heq rfl
    exact ⟨LuaEvent.name_inj (List.singleton_inj.mp hname), hparts⟩
  · rintro ⟨rfl, hparts⟩
    rw [hparts]

/-- **Actions run for their own keyspace** exactly when the events differ, or the parts that the
underscores divide the names into. -/
theorem actionsApart_iff (D : Type)
    (h : (edbLuaActionName database partition keyspace event).isSome = true)
    (h' : (edbLuaActionName database' partition' keyspace' event').isSome = true) :
    ActionsApart D database partition keyspace event database' partition' keyspace' event' ↔
      event ≠ event' ∨ parts underscore [database, partition, keyspace] ≠
        parts underscore [database', partition', keyspace'] := by
  rw [ne_eq, ne_eq, ← not_and_or, ← edbLuaActionName_eq_iff h h']
  refine ⟨ActionsApart.names, fun hne => ⟨hne, ?_⟩⟩
  rintro call hscope rfl haction heq
  rw [← call.isSome_handler, Option.isSome_iff_exists] at haction
  obtain ⟨name, hname⟩ := haction
  have hown : edbLuaActionName database partition keyspace call.event = some name := by
    rw [LuaCall.handler, hscope, Option.bind_some, Option.filter_eq_some_iff] at hname
    exact hname.1
  exact hne (hown.trans (hname.symm.trans heq))

end

/-- One event of two keyspaces, one of them with an underscore in its database. -/
theorem actionsApart_staff :
    ActionsApart Int (cstr "demo") (cstr "people") (cstr "staff") .beforeDelete (cstr "demo_people")
      (cstr "staff") (cstr "lists") .beforeDelete :=
  (actionsApart_iff Int (by decide) (by decide)).mpr (Or.inr (by decide))

/-- A fire on `a`, `b_c`, `d`, where only `a_b`, `c`, `d` has an action. -/
def strangerCall : LuaCall Int where
  context := true
  event := .beforeInsert
  database := some (cstr "a")
  partition := some (cstr "b_c")
  keyspace := some (cstr "d")
  id := some (cstr "r")
  value := none
  records := [⟨edbLuaActionName (cstr "a_b") (cstr "c") (cstr "d") .beforeInsert,
    some (cstr "function a_b_c_d_beforeInsert (entity, id) end")⟩]

/-- **The action of another keyspace** runs. -/
theorem actions_meet :
    (cstr "a", cstr "b_c", cstr "d") ≠ (cstr "a_b", cstr "c", cstr "d") ∧
      (edbLuaActionName (cstr "a_b") (cstr "c") (cstr "d") .beforeInsert).isSome = true ∧
      strangerCall.handler = edbLuaActionName (cstr "a_b") (cstr "c") (cstr "d") .beforeInsert ∧
      ¬ ActionsApart Int (cstr "a") (cstr "b_c") (cstr "d") .beforeInsert (cstr "a_b")
        (cstr "c") (cstr "d") .beforeInsert :=
  ⟨by decide, by decide, by decide, fun h => h.names (by decide)⟩

end Lua

end EpsilonDB
