import EpsilonDB.Engine.CString

/-!
# Events (`lua/epsilon_lua.c`)

A write fires an event before it and one after it. The code for an event is a function whose
name is put together from the place of the write and the name of the event.

- `LuaEvent`, `LuaEvent.name`: the events, and how they are spelled.
- `LuaResult`: how a fire comes out. Only a before event can stop the write.
- `edbLuaActionName`: the name of the function.
-/

namespace EpsilonDB

namespace Lua

/-- `edb_lua_event` -/
inductive LuaEvent where
  | beforeInsert
  | afterInsert
  | beforeUpdate
  | afterUpdate
  | beforeDelete
  | afterDelete
deriving DecidableEq

/-- `edb_lua_event_name` -/
def LuaEvent.name : LuaEvent → CString
  | .beforeInsert => cstr "beforeInsert"
  | .afterInsert => cstr "afterInsert"
  | .beforeUpdate => cstr "beforeUpdate"
  | .afterUpdate => cstr "afterUpdate"
  | .beforeDelete => cstr "beforeDelete"
  | .afterDelete => cstr "afterDelete"

/-- `before_write` -/
def LuaEvent.beforeWrite (event : LuaEvent) : Bool :=
  event = .beforeInsert ∨ event = .beforeUpdate ∨ event = .beforeDelete

/-- `return_matters` -/
def LuaEvent.returnMatters (event : LuaEvent) : Bool :=
  event = .beforeInsert ∨ event = .beforeUpdate

/-- `edb_lua_result` -/
inductive LuaResult where
  | ok
  | rollback
  | error
deriving DecidableEq

/-- What a failed script comes to: only the before events fail closed. -/
def LuaEvent.failure (event : LuaEvent) : LuaResult := if event.beforeWrite then .error else .ok

/-- `edb_lua_action_name`, into the 512 bytes of `edb_lua_fire`. -/
def edbLuaActionName (database partition keyspace : CString) (event : LuaEvent) :
    Option CString :=
  let text := database ++ cstr "_" ++ partition ++ cstr "_" ++ keyspace ++ cstr "_" ++ event.name
  if text.length < 512 then some text else none

end Lua

end EpsilonDB
