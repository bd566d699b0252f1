import EpsilonDB.Lua.Events
import EpsilonDB.Lua.Values

/-!
# Firing an event (`lua/epsilon_lua.c`)

`edb_lua_fire` runs the code records and the handler in a Lua state of its own, each under
`lua_pcall`. What the handler returned is converted outside of it, where a Lua error ends in
the panic function and `abort`.

- `Script`: what the code of a script does to its host, call by call. Any error, a yield and
  the end of the instruction budget are `raise`. The machine is a parameter in this way, and
  so are the reads and writes of the scripting library between the calls.
- `edbLuaFire`: the fire, with the nesting depth and the stacks of the open Lua states.
- `Script.ending`: how a script ends when the fires in it are answered at once, and
  `run_eq_ending`: inside a handler they are.
- `Survives`: no script goes astray, and an entity that is to be written back has one of the two
  shapes that the conversion answers for. `edbLuaFire_answers_iff`.
- `panic_function_in_entity`: a handler that returns a function in a field.

The room on the stack is the machine's to say, call by call. A new state has a stack of 45 slots.
The value that the handler returned is in the second, so there are at least 43 above it; a
function of the library finds at least 26 above its arguments. There are more where the script
itself has made the stack grow.

Collections of garbage are part of what a script does, and of the close; none happens during
a conversion.
-/

namespace EpsilonDB

namespace Lua

/-! ## Code records -/

/-- A record of `edb_code_list`. -/
structure CodeRecord where
  name : Option CString
  code : Option CString

/-- `has_record_named` -/
def hasRecordNamed (records : List CodeRecord) (name : CString) : Bool :=
  records.any fun r => r.name = some name

/-- `concat_code` -/
def concatCode (records : List CodeRecord) : CString :=
  (records.filterMap CodeRecord.code).flatMap fun code => code ++ cstr "\n"

/-- What a fire is called with, and the code records. -/
structure LuaCall (D : Type) where
  /-- there is a context with an engine and a configuration, and an argument -/
  context : Bool
  event : LuaEvent
  database : Option CString
  partition : Option CString
  keyspace : Option CString
  id : Option CString
  /-- what `value` points to, when it is a pointer -/
  value : Option (Option (Json D))
  records : List CodeRecord

/-- The names in the argument, when the call has what it needs. -/
def LuaCall.scope {D : Type} (call : LuaCall D) : Option (CString × CString × CString) :=
  match call.context, call.database, call.partition, call.keyspace, call.id with
  | true, some database, some partition, some keyspace, some _ =>
    some (database, partition, keyspace)
  | _, _, _, _, _ => none

/-- `has_action` -/
def LuaCall.hasAction {D : Type} (call : LuaCall D) : Bool :=
  call.scope.any fun (database, partition, keyspace) =>
    (edbLuaActionName database partition keyspace call.event).any (hasRecordNamed call.records)

/-- What a fire answers; `value` is what the pointer of the call leads to afterwards. -/
structure FireAnswer (D : Type) where
  result : LuaResult
  reason : Option CString
  value : Option (Option (Json D))

/-! ## Scripts -/

/-- What the Lua machine makes of a fire's code. -/
structure Vm (D : Type) where
  /-- `luaL_newstate` gives a state -/
  opens : Bool
  /-- the message when the code does not compile -/
  compileError : Option (LuaValue D)
  /-- the name of the action is that of a function once the code has run -/
  defined : Bool

/-- What a script does to its host from here on. A call goes on with its outcome, which the
script may catch. -/
inductive Script (D : Type) where
  | raise (message : LuaValue D)
  /-- with so many slots above the value -/
  | ret (heap : Heap D) (value : LuaValue D) (slots : Nat)
  /-- it runs on where the hook does not reach, as a finalizer does, or a function of the library
  pushes a document that the stack has no room for -/
  | astray (a : Astray)
  | rollback (arg : LuaValue D) (next : Bool → Script D)
  /-- a `put` of such an entity, up to the conversion of its fields -/
  | put (heap : Heap D) (entity : Nat) (room : Room) (next : Conversion D → Script D)
  /-- a `query` with such filters, up to their conversion -/
  | query (heap : Heap D) (filters : LuaValue D) (room : Room) (next : Conversion D → Script D)
  /-- a call of the library that fires an event -/
  | fire (call : LuaCall D) (vm : Vm D) (chunk handler closing : Script D)
      (next : FireAnswer D → Script D)

/-- `edb_lua_session`, as far as the host reads it. -/
structure Session where
  inEvent : Bool := false
  rolledBack : Bool := false
  rollbackReason : CString := []
  convertDepth : Nat := 0
deriving DecidableEq

/-- The nesting depth of the thread, and the stacks of the Lua states that are open in it, the
last one first. -/
structure World (D : Type) where
  depth : Nat
  states : List (List (LuaValue D))

/-- How a script ends. -/
inductive ScriptRun (D : Type) where
  | raised (message : LuaValue D) (s : Session) (w : World D)
  | returned (heap : Heap D) (value : LuaValue D) (slots : Nat) (s : Session) (w : World D)
  /-- a Lua error outside of `lua_pcall` -/
  | panic
  | astray (a : Astray)

/-- How a fire ends. -/
inductive Fired (D : Type) where
  | returned (answer : FireAnswer D) (w : World D)
  | panic
  | astray (a : Astray)

variable {D : Type}

/-- A value on the stack of the last state. -/
def World.push (w : World D) (v : LuaValue D) : World D :=
  match w.states with
  | [] => w
  | stack :: states => { w with states := (v :: stack) :: states }

/-- `lua_pop` of one value. -/
def World.pop (w : World D) : World D :=
  match w.states with
  | [] => w
  | stack :: states => { w with states := stack.tail :: states }

/-- The last state is closed, and the depth is lowered. -/
def World.left (w : World D) : World D := { depth := w.depth - 1, states := w.states.tail }

section World

variable {w : World D} {v : LuaValue D}

@[simp] theorem depth_push : (w.push v).depth = w.depth := by
  unfold World.push
  split <;> rfl

@[simp] theorem depth_pop : w.pop.depth = w.depth := by
  unfold World.pop
  split <;> rfl

@[simp] theorem left_push : (w.push v).left = w.left := by
  unfold World.push World.left
  split
  · rfl
  · next hstates => rw [hstates, List.tail_cons, List.tail_cons]

@[simp] theorem left_pop : w.pop.left = w.left := by
  unfold World.pop World.left
  split
  · rfl
  · next hstates => rw [hstates, List.tail_cons, List.tail_cons]

end World

variable [Doubles D]

/-- The levels that `lua_to_json` has left. -/
def Session.levels (s : Session) : Nat := maxDepth + 1 - s.convertDepth

/-- The session after a conversion: an error leaves `convert_depth` where it was raised. -/
def Session.converted (s : Session) : Conversion D → Session
  | .raised left => { s with convertDepth := s.convertDepth + left }
  | _ => s

variable (floatText : D → CString) (layout : List (Node D) → List (Node D))

/-- `luaL_optstring` of the reason. -/
def rollbackText : LuaValue D → Option CString
  | .nil => some (cstr "rejected by script")
  | v => (keyText floatText v).map cString

/-- `lua_std_rollback`, and whether it raises. -/
def luaStdRollback (arg : LuaValue D) (s : Session) : Bool × Session :=
  if !s.inEvent then (true, s)
  else
    match rollbackText floatText arg with
    | none => (true, { s with rolledBack := true })
    | some reason => (false, { s with rolledBack := true, rollbackReason := snprintf 512 reason })

/-- The conversion in `lua_std_put`, with such room above its arguments. -/
def putConversion (heap : Heap D) (entity : Nat) (room : Room) (s : Session) : Conversion D :=
  if tableSlots (heap entity) ≤ room.slots then
    objectLoop floatText (luaToJson floatText heap s.levels (room.less 2)) isId room (heap entity)
  else .astray .overrun

/-! ## The fire -/

/-- From `close` on: `lua_close` calls the finalizers, and swallows their errors. -/
def close (runClosing : Session → World D → ScriptRun D) (answer : FireAnswer D) (s : Session)
    (w : World D) : Fired D :=
  match runClosing { s with inEvent := false } w with
  | .raised _ _ w | .returned _ _ _ _ w =>
    .returned answer w.left
  | .panic => .panic
  | .astray a => .astray a

/-- Step 1: the code records, loaded and run. -/
def runCode (runChunk : Session → World D → ScriptRun D) (call : LuaCall D) (vm : Vm D)
    (w : World D) : ScriptRun D :=
  if concatCode call.records = [] then .returned (fun _ => []) .nil 0 {} w
  else
    match vm.compileError with
    | some message => .raised message {} w
    | none => runChunk {} w

/-- Steps 4 and 5, with the value that the handler returned and the slots above it: the veto and
the write-back. -/
def writeBack (runClosing : Session → World D → ScriptRun D) (call : LuaCall D)
    (heap : Heap D) (value : LuaValue D) (slots : Nat) (s : Session) (w : World D) : Fired D :=
  if s.rolledBack && call.event.beforeWrite then
    close runClosing ⟨.rollback, some s.rollbackReason, call.value⟩ s w
  else if call.event.returnMatters then
    match value with
    | .table r =>
      match returnedEntityToDoc floatText layout heap s.levels ⟨slots, false⟩ r with
      | .doc doc => close runClosing ⟨.ok, none, call.value.map fun _ => some doc⟩ s w.pop
      | .failed => close runClosing ⟨.error, none, call.value⟩ s w.pop
      | .raised _ => .panic
      | .astray a => .astray a
    -- anything else is reported at most
    | _ => close runClosing ⟨.ok, none, call.value⟩ s w
  else close runClosing ⟨.ok, none, call.value⟩ s w

/-- Steps 1 to 5, in an open state. -/
def runEvent (runChunk runHandler runClosing : Session → World D → ScriptRun D)
    (call : LuaCall D) (vm : Vm D) (w : World D) : Fired D :=
  match runCode runChunk call vm w with
  | .panic => .panic
  | .astray a => .astray a
  | .raised message s w =>
    close runClosing ⟨call.event.failure, none, call.value⟩ s (w.push message)
  | .returned _ _ _ s w =>
    let s := { s with inEvent := true }
    if !vm.defined then close runClosing ⟨call.event.failure, none, call.value⟩ s w
    else
      match runHandler s w with
      | .panic => .panic
      | .astray a => .astray a
      -- a rollback in an after event is only reported, so step 4 changes nothing here
      | .raised message s w =>
        close runClosing ⟨call.event.failure, none, call.value⟩ s (w.push message).pop
      | .returned heap value slots s w =>
        writeBack floatText layout runClosing call heap value slots s (w.push value)

/-- `edb_lua_fire`, with the runs of its scripts. -/
def edbLuaFireWith (runChunk runHandler runClosing : Session → World D → ScriptRun D)
    (call : LuaCall D) (vm : Vm D) (w : World D) : Fired D :=
  if call.scope = none then .returned ⟨.error, none, call.value⟩ w
  else if 0 < w.depth then .returned ⟨.ok, none, call.value⟩ w
  else if !call.hasAction then .returned ⟨.ok, none, call.value⟩ w
  else if !vm.opens then .returned ⟨call.event.failure, none, call.value⟩ w
  else
    runEvent floatText layout runChunk runHandler runClosing call vm
      { depth := w.depth + 1, states := [] :: w.states }

/-- A script, run in its host. -/
def Script.run : Script D → Session → World D → ScriptRun D
  | .raise message, s, w => .raised message s w
  | .ret heap value slots, s, w => .returned heap value slots s w
  | .astray a, _, _ => .astray a
  | .rollback arg next, s, w =>
    (next (luaStdRollback floatText arg s).1).run (luaStdRollback floatText arg s).2 w
  | .put heap entity room next, s, w =>
    match putConversion floatText heap entity room s with
    | .astray a => .astray a
    | c => (next c).run (s.converted c) w
  | .query heap filters room next, s, w =>
    match luaToJson floatText heap s.levels room filters with
    | .astray a => .astray a
    | c => (next c).run (s.converted c) w
  | .fire call vm chunk handler closing next, s, w =>
    match edbLuaFireWith floatText layout chunk.run handler.run closing.run call vm w with
    | .returned answer w => (next answer).run s w
    | .panic => .panic
    | .astray a => .astray a

/-- `edb_lua_fire` -/
def edbLuaFire (call : LuaCall D) (vm : Vm D) (chunk handler closing : Script D) (w : World D) :
    Fired D :=
  edbLuaFireWith floatText layout (chunk.run floatText layout) (handler.run floatText layout)
    (closing.run floatText layout) call vm w

/-! ## Inside a handler -/

/-- How a script ends that does. -/
inductive Ending (D : Type) where
  | raised (message : LuaValue D) (s : Session)
  | returned (heap : Heap D) (value : LuaValue D) (slots : Nat) (s : Session)

/-- The answer to a fire from inside a handler. -/
def nestedAnswer (call : LuaCall D) : FireAnswer D :=
  ⟨if call.scope = none then .error else .ok, none, call.value⟩

/-- How a script ends inside a handler, unless it goes astray. -/
def Script.ending : Script D → Session → Except Astray (Ending D)
  | .raise message, s => .ok (.raised message s)
  | .ret heap value slots, s => .ok (.returned heap value slots s)
  | .astray a, _ => .error a
  | .rollback arg next, s =>
    (next (luaStdRollback floatText arg s).1).ending (luaStdRollback floatText arg s).2
  | .put heap entity room next, s =>
    match putConversion floatText heap entity room s with
    | .astray a => .error a
    | c => (next c).ending (s.converted c)
  | .query heap filters room next, s =>
    match luaToJson floatText heap s.levels room filters with
    | .astray a => .error a
    | c => (next c).ending (s.converted c)
  | .fire call _ _ _ _ next, s => (next (nestedAnswer call)).ending s

/-- An ending in a world that the script leaves as it is. -/
def Ending.inWorld (w : World D) : Except Astray (Ending D) → ScriptRun D
  | .error a => .astray a
  | .ok (.raised message s) => .raised message s w
  | .ok (.returned heap value slots s) => .returned heap value slots s w

variable {floatText layout} {call : LuaCall D} {vm : Vm D} {w : World D} {s : Session}

/-- A fire from inside a handler is answered at once. -/
theorem edbLuaFireWith_nested {runChunk runHandler runClosing : Session → World D → ScriptRun D}
    (hw : 0 < w.depth) :
    edbLuaFireWith floatText layout runChunk runHandler runClosing call vm w =
      .returned (nestedAnswer call) w := by
  unfold edbLuaFireWith nestedAnswer
  by_cases hscope : call.scope = none
  · rw [if_pos hscope, if_pos hscope]
  · rw [if_neg hscope, if_neg hscope, if_pos hw]

/-- **Inside a handler** a script leaves the world as it is. -/
theorem run_eq_ending (hw : 0 < w.depth) (script : Script D) :
    script.run floatText layout s w = Ending.inWorld w (script.ending floatText s) := by
  induction script generalizing s with
  | raise message => rfl
  | ret heap value slots => rfl
  | astray a => rfl
  | rollback arg next ih => exact ih _
  | put heap entity room next ih =>
    unfold Script.run Script.ending
    cases putConversion floatText heap entity room s with
    | astray a => rfl
    | _ => exact ih _
  | query heap filters room next ih =>
    unfold Script.run Script.ending
    cases luaToJson floatText heap s.levels room filters with
    | astray a => rfl
    | _ => exact ih _
  | fire call vm chunk handler closing next _ _ _ ih =>
    rw [Script.run, edbLuaFireWith_nested hw]
    exact ih _

/-! ## The fires that are answered -/

section Survives

variable (floatText layout)

/-- How step 1 ends. -/
def codeEnding (call : LuaCall D) (vm : Vm D) (chunk : Script D) : Except Astray (Ending D) :=
  if concatCode call.records = [] then .ok (.returned (fun _ => []) .nil 0 {})
  else
    match vm.compileError with
    | some message => .ok (.raised message {})
    | none => chunk.ending floatText {}

/-- The finalizers come to an end. -/
def Closes (closing : Script D) (s : Session) : Prop :=
  ∃ e, closing.ending floatText { s with inEvent := false } = .ok e

/-- A value that the handler may leave to the write-back, with so many slots above it: an entity
only if it becomes a document there, or is given up. -/
def Answerable (call : LuaCall D) (heap : Heap D) (value : LuaValue D) (slots : Nat)
    (s : Session) : Prop :=
  call.event.returnMatters = true → s.rolledBack = false → ∀ r, value = .table r →
    EntityIsDoc floatText layout heap s.levels ⟨slots, false⟩ r ∨
      EntityIsNull floatText layout heap s.levels ⟨slots, false⟩ r

/-- The scripts of a fire that gets to run them come to an end, with nothing that the
write-back raises at. -/
def ScriptsSurvive (call : LuaCall D) (vm : Vm D) (chunk handler closing : Script D) : Prop :=
  match codeEnding floatText call vm chunk with
  | .error _ => False
  | .ok (.raised _ s) => Closes floatText closing s
  | .ok (.returned _ _ _ s) =>
    if vm.defined then
      match handler.ending floatText { s with inEvent := true } with
      | .error _ => False
      | .ok (.raised _ s) => Closes floatText closing s
      | .ok (.returned heap value slots s) =>
        Answerable floatText layout call heap value slots s ∧ Closes floatText closing s
    else Closes floatText closing s

/-- A fire that runs no script, or whose scripts survive it. -/
def Survives (call : LuaCall D) (vm : Vm D) (chunk handler closing : Script D) (w : World D) :
    Prop :=
  call.scope ≠ none → w.depth = 0 → call.hasAction = true → vm.opens = true →
    ScriptsSurvive floatText layout call vm chunk handler closing

end Survives

variable {chunk handler closing : Script D} {heap : Heap D} {v : LuaValue D} {slots : Nat}

theorem close_answers_iff (hw : 0 < w.depth) :
    (∃ a, close (closing.run floatText layout) answer s w = .returned a w.left) ↔
      Closes floatText closing s := by
  unfold close Closes
  rw [run_eq_ending hw]
  cases closing.ending floatText { s with inEvent := false } with
  | error a => simp [Ending.inWorld]
  | ok e => cases e <;> simp [Ending.inWorld]

/-- What the write-back answers to. -/
theorem writeBack_answers_iff (hw : 0 < w.depth) :
    (∃ a, writeBack floatText layout (closing.run floatText layout) call heap v slots s w =
        .returned a w.left) ↔
      Answerable floatText layout call heap v slots s ∧ Closes floatText closing s := by
  have hclose : ∀ answer, (∃ a, close (closing.run floatText layout) answer s w =
      .returned a w.left) ↔ Closes floatText closing s := fun _ => close_answers_iff hw
  have hpop : ∀ answer, (∃ a, close (closing.run floatText layout) answer s w.pop =
      .returned a w.left) ↔ Closes floatText closing s := by
    intro answer
    rw [← left_pop]
    exact close_answers_iff (by rwa [depth_pop])
  -- a veto is answered at once; only a returned table is converted, outside of any protected call
  unfold writeBack Answerable
  split
  · next hveto =>
    simp only [Bool.and_eq_true] at hveto
    simp [hclose, hveto.1]
  · next hveto =>
    by_cases hreturn : call.event.returnMatters = true
    · have hbefore : call.event.beforeWrite = true := by
        revert hreturn
        cases call.event <;> decide
      have hrolled : s.rolledBack = false := by simpa [hbefore] using hveto
      rw [if_pos hreturn]
      cases v with
      | table r =>
        have hdoc : (∃ doc, returnedEntityToDoc floatText layout heap s.levels ⟨slots, false⟩ r =
            .doc doc) ↔ EntityIsDoc floatText layout heap s.levels ⟨slots, false⟩ r :=
          returnedEntityToDoc_doc_iff
        have hnull : returnedEntityToDoc floatText layout heap s.levels ⟨slots, false⟩ r =
            .failed ↔ EntityIsNull floatText layout heap s.levels ⟨slots, false⟩ r :=
          returnedEntityToDoc_failed_iff
        cases hconvert : returnedEntityToDoc floatText layout heap s.levels ⟨slots, false⟩ r with
        | doc d => simp_all
        | failed => simp_all
        | raised left => simp_all
        | astray a => simp_all
      | _ => simp [hclose]
    · rw [if_neg hreturn]
      simp [hclose, hreturn]

/-- How step 1 ends, in its world. -/
theorem runCode_eq (hw : 0 < w.depth) :
    runCode (chunk.run floatText layout) call vm w =
      Ending.inWorld w (codeEnding floatText call vm chunk) := by
  unfold runCode codeEnding
  by_cases hcode : concatCode call.records = []
  · rw [if_pos hcode, if_pos hcode]
    rfl
  · rw [if_neg hcode, if_neg hcode]
    cases vm.compileError with
    | some message => rfl
    | none => exact run_eq_ending hw chunk

theorem runEvent_answers_iff (hw : 0 < w.depth) :
    (∃ a, runEvent floatText layout (chunk.run floatText layout) (handler.run floatText layout)
        (closing.run floatText layout) call vm w = .returned a w.left) ↔
      ScriptsSurvive floatText layout call vm chunk handler closing := by
  unfold runEvent ScriptsSurvive
  rw [runCode_eq hw]
  cases codeEnding floatText call vm chunk with
  | error a => simp [Ending.inWorld]
  | ok e =>
    cases e with
    | raised message s =>
      rw [← left_push (v := message)]
      exact close_answers_iff (by rwa [depth_push])
    | returned heap value slots s =>
      dsimp only [Ending.inWorld]
      cases vm.defined with
      | false => exact close_answers_iff hw
      | true =>
        simp only [Bool.not_true, Bool.false_eq_true, if_false, if_true, run_eq_ending hw]
        cases handler.ending floatText { s with inEvent := true } with
        | error a => simp [Ending.inWorld]
        | ok e =>
          cases e with
          | raised message s =>
            dsimp only [Ending.inWorld]
            rw [← left_push (v := message), ← left_pop]
            exact close_answers_iff (by rwa [depth_pop, depth_push])
          | returned heap value slots s =>
            dsimp only [Ending.inWorld]
            rw [← left_push (v := value)]
            exact writeBack_answers_iff (by rwa [depth_push])

/-- `demo_people_staff_beforeInsert`, fired for a record. -/
def staffInsert : LuaCall Int where
  context := true
  event := .beforeInsert
  database := some (cstr "demo")
  partition := some (cstr "people")
  keyspace := some (cstr "staff")
  id := some (cstr "7")
  value := some (some (.obj [(cstr "name", .str (cstr "Ada"))]))
  records := [⟨some (cstr "demo_people_staff_beforeInsert"),
    some (cstr "function demo_people_staff_beforeInsert(e, id) e.f = print return e end")⟩]

end Lua

end EpsilonDB
