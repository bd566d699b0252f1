import EpsilonDB.Api.Config
import EpsilonDB.Lua.Events

/-!
# Code that is attached to writes (`api/epsilon_api.c`, `engine/epsilon_config.c`)

A handler that writes a record fires an event before the write and another one after it. A fire
runs code when a code record has the name of the action, which is put together from the place of
the record and the event. What the code does then is a parameter: it may stop the write or
replace the document, and it has the whole store at its hands.

- `edbCodeList`: the code records, as the node that fires lists them.
- `EventArg`, `FireOutcome`: what a fire is given, and what comes of it.
- `Scripts`: what the code does. `Scripts.inert`: nothing. The machine it runs in is that of
  `edb_lua_fire`; a script comes to an end here.
- `Scripts.edbLuaFire`: a fire that no handler is around of.
- `Backend.Quiet`: no node has code for a place, so nothing comes of the fires there.
- `quiet_congr`: the code has a shard of its own, and only what is in it counts.
-/

namespace EpsilonDB

open Lua

variable {σ D : Type}

/-! ## Code records -/

/-- The name by which `code_name_cmp` orders a record. -/
def codeSortKey (record : Json D) : CString := (record.getStr (cstr "name")).getD []

/-- `edb_code_list`. -/
def edbCodeList (B : Backend σ D) (s : σ) : List (Json D) :=
  (B.all s systemDb cfgCode).insertionSort fun a b => codeSortKey a ≤ codeSortKey b

/-- `has_record_named` -/
def hasRecordNamed (records : List (Json D)) (name : CString) : Bool :=
  records.any fun record => record.getStr (cstr "name") = some name

/-! ## Fires -/

/-- `edb_lua_event_arg` -/
structure EventArg (D : Type) where
  db : CString
  partition : CString
  keyspace : CString
  id : CString
  /-- the document that the pointer of the argument leads to -/
  value : Option (Json D)
  groups : UInt64
  trusted : Bool

/-- What a fire answers, and the document that the pointer leads to afterwards. -/
structure FireOutcome (D : Type) where
  result : LuaResult
  value : Option (Json D)
  reason : Option CString

/-- What is answered where no code runs. -/
def EventArg.passed (arg : EventArg D) : FireOutcome D := ⟨.ok, arg.value, none⟩

/-- What the code does when it is run for an event. -/
structure Scripts (σ D : Type) where
  run : LuaEvent → EventArg D → σ → FireOutcome D × σ

namespace Scripts

/-- Code that lets everything pass. -/
def inert : Scripts σ D := ⟨fun _ arg s => (arg.passed, s)⟩

/-- `edb_lua_fire`, from outside of any handler. -/
def edbLuaFire (scripts : Scripts σ D) (B : Backend σ D) (event : LuaEvent) (arg : EventArg D)
    (s : σ) : FireOutcome D × σ :=
  if (edbLuaActionName arg.db arg.partition arg.keyspace event).any
      (hasRecordNamed (edbCodeList B s)) then
    scripts.run event arg s
  else (arg.passed, s)

/-- `api_fire_lua`: the configuration is written without any code. -/
def apiFireLua (scripts : Scripts σ D) (B : Backend σ D) (event : LuaEvent) (arg : EventArg D)
    (s : σ) : FireOutcome D × σ :=
  if arg.db = systemDb then (arg.passed, s) else scripts.edbLuaFire B event arg s

variable {B : Backend σ D} {event : LuaEvent} {arg : EventArg D} {s : σ}

@[simp] theorem edbLuaFire_inert : inert.edbLuaFire B event arg s = (arg.passed, s) := by
  unfold edbLuaFire
  split <;> rfl

@[simp] theorem apiFireLua_inert : inert.apiFireLua B event arg s = (arg.passed, s) := by
  rw [apiFireLua, edbLuaFire_inert, ite_self]

end Scripts

/-! ## Places without code -/

/-- The key of the shard that the code records are in. -/
def Backend.codeKey (B : Backend σ D) : CString := B.shardKey systemDb cfgCode

/-- No node has code for an event of the place. -/
def Backend.Quiet (B : Backend σ D) (s : σ) (db partition keyspace : CString) : Prop :=
  db = systemDb ∨ ∀ event, ∀ name ∈ edbLuaActionName db partition keyspace event,
    ∀ doc ∈ B.code s, doc.getStr (cstr "name") ≠ some name

section Quiet

variable {B : Backend σ D} {s s' : σ} {db partition keyspace : CString}

/-- A write to another shard attaches no code. -/
theorem quiet_congr (h : B.view s B.codeKey = B.view s' B.codeKey) :
    B.Quiet s db partition keyspace ↔ B.Quiet s' db partition keyspace := by
  rw [Backend.Quiet, Backend.Quiet, B.code_congr h]

variable {event : LuaEvent} {arg : EventArg D} {scripts : Scripts σ D}

/-- **Where there is no code, nothing runs.** -/
theorem edbLuaFire_of_quiet (h : B.Quiet s arg.db arg.partition arg.keyspace)
    (hdb : arg.db ≠ systemDb) : scripts.edbLuaFire B event arg s = (arg.passed, s) := by
  have hnames := h.resolve_left hdb
  unfold Scripts.edbLuaFire
  refine if_neg ?_
  rw [Option.any_eq_true]
  rintro ⟨name, hname, hrecord⟩
  obtain ⟨doc, hdoc, hdocname⟩ := List.any_eq_true.mp hrecord
  have hmem : doc ∈ B.all s systemDb cfgCode := (List.mem_insertionSort _).mp hdoc
  exact hnames event name hname doc (B.mem_code hmem) (of_decide_eq_true hdocname)

theorem apiFireLua_of_quiet (h : B.Quiet s arg.db arg.partition arg.keyspace) :
    scripts.apiFireLua B event arg s = (arg.passed, s) := by
  unfold Scripts.apiFireLua
  split
  · rfl
  · next hdb => exact edbLuaFire_of_quiet h hdb

end Quiet

end EpsilonDB
