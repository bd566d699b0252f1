import EpsilonDB.Engine.Json
import EpsilonDB.Httpd.Http
import EpsilonDB.Lib.Loops

/-!
# From Lua values to JSON (`lua/epsilon_lua.c`)

The handler of an event answers with a Lua value, and the scripting library is handed some.
They become JSON by a conversion that reads tables with `lua_next` and raises Lua errors.

- `LuaValue`, `Heap`: values, and the nodes of each table in the order of the table, empty
  ones included. Tables may contain themselves.
- `luaNext`: the entry after a key. The key has to be one of the table's.
- `objectTurn`: a turn of the loop over an object. `lua_tolstring` turns a number into a
  string in its place on the stack, so the next turn looks for that string.
- `Room`: the slots of the stack above its top. The conversion asks for none, so a value that
  needs more than there are is written past the end of the stack.
- `luaToJson`: the conversion, with the levels that are left of `EDB_LUA_MAX_DEPTH`.
- `IsDoc`, `IsNull`: the values that become a document, and those that the conversion gives
  up on in an orderly way. `luaToJson_doc_iff`, `luaToJson_failed_iff`.
- `objectLoop_enough`: a loop that has not ended after one turn for each node never does.

The text of a float is a parameter. Memory is available.
-/

namespace EpsilonDB

namespace Lua

open Loops

/-! ## Values -/

/-- A Lua value. What is not a number or a string is known by its identity. -/
inductive LuaValue (D : Type) where
  | nil
  | boolean (b : Bool)
  | lightuserdata (p : Nat)
  | integer (i : Int)
  | float (d : D)
  | string (s : Bytes)
  | table (r : Nat)
  | function (r : Nat)
  | userdata (r : Nat)
  | thread (r : Nat)
deriving DecidableEq

/-- A node of a table: a key, and its value or `nil`. -/
abbrev Node (D : Type) := LuaValue D × LuaValue D

/-- The tables. -/
abbrev Heap (D : Type) := Nat → List (Node D)

variable {D : Type} [Doubles D]

/-- The nodes that hold a value. -/
def live (nodes : List (Node D)) : List (Node D) := nodes.filter fun e => e.2 ≠ .nil

/-- `lua_next`: nothing for a key that is not the table's, and at the end no entry. -/
def luaNext (nodes : List (Node D)) (key : LuaValue D) : Option (Option (Node D)) :=
  if key = .nil then some (live nodes).head?
  else
    match nodes.dropWhile fun e => e.1 ≠ key with
    | [] => none
    | _ :: rest => some (live rest).head?

/-- `lua_rawgeti`. -/
def rawgeti (nodes : List (Node D)) (i : Nat) : LuaValue D :=
  ((nodes.find? fun e => e.1 = .integer i).map Prod.snd).getD .nil

/-- The largest key of an array, `1 << 24`. -/
def maxArrayKey : Int := 16777216

/-- A key that an array may have. -/
def arrayKey : LuaValue D → Option Nat
  | .integer k => if 1 ≤ k ∧ k ≤ maxArrayKey then some k.toNat else none
  | _ => none

/-- The first pass over a table: the largest key, where all are those of an array. -/
def arraySize (nodes : List (Node D)) : Option Nat :=
  (live nodes).foldl (fun size e => size.bind fun n => (arrayKey e.1).map (max n)) (some 0)

variable (floatText : D → CString)

/-- `lua_tolstring` of a key. -/
def keyText : LuaValue D → Option Bytes
  | .string s => some s
  | .integer i => some (cstr (toString i))
  | .float d => some (floatText d)
  | _ => none

/-- The key on the stack afterwards. -/
def convertedKey : LuaValue D → LuaValue D
  | .integer i => .string (cstr (toString i))
  | .float d => .string (floatText d)
  | key => key

/-! ## The conversion -/

/-- `EDB_LUA_MAX_DEPTH`. -/
def maxDepth : Nat := 32

/-- What the process does not come back from, other than by an error of Lua. -/
inductive Astray where
  /-- it goes round for ever -/
  | endless
  /-- it writes past the end of the stack -/
  | overrun
deriving DecidableEq

/-- How a conversion ends. -/
inductive Conversion (D : Type) where
  | doc (v : Json D)
  /-- `NULL` -/
  | failed
  /-- a Lua error, and by how much `convert_depth` stays too large -/
  | raised (left : Nat)
  | astray (a : Astray)
deriving DecidableEq

/-- The end of the stack above its top: `lua_pushnil`, `lua_next` and `lua_rawgeti` write there
without a look at how much is left, and `lua_to_json` does not call `lua_checkstack`. -/
structure Room where
  slots : Nat
  /-- an error calls the message handler of an `xpcall` -/
  handler : Bool := false
deriving DecidableEq

/-- The room above values that have been pushed. -/
def Room.less (room : Room) (pushed : Nat) : Room :=
  { room with slots := room.slots - pushed }

/-- `luaL_error`, which pushes where it was called and the message. -/
def Room.error {D : Type} (room : Room) (left : Nat) : Conversion D :=
  if 2 ≤ room.slots then .raised left else .astray .overrun

/-- The error of `lua_next` above the key that it does not find: the message, and the handler
to call. -/
def Room.nextError {D : Type} (room : Room) : Conversion D :=
  if 2 + room.handler.toNat ≤ room.slots then .raised 0 else .astray .overrun

section Errors

variable {D : Type} {room : Room} {doc : Json D}

@[simp] theorem error_ne_doc {left : Nat} : room.error left ≠ .doc doc := by
  unfold Room.error
  split <;> nofun

@[simp] theorem error_ne_failed {left : Nat} : (room.error left : Conversion D) ≠ .failed := by
  unfold Room.error
  split <;> nofun

@[simp] theorem nextError_ne_doc : room.nextError ≠ .doc doc := by
  unfold Room.nextError
  split <;> nofun

@[simp] theorem nextError_ne_failed : (room.nextError : Conversion D) ≠ .failed := by
  unfold Room.nextError
  split <;> nofun

end Errors

/-- The slots that the first pass over a table takes: for a key, and for its value. -/
def tableSlots (nodes : List (Node D)) : Nat := if live nodes = [] then 1 else 2

/-- The slots that are taken while the value of an entry is converted: an item of an array is
pushed by itself, the value of a member above its key. -/
def entrySlots (nodes : List (Node D)) : Nat := if (arraySize nodes).isSome then 1 else 2

/-- A level around a conversion, which an error skips. -/
def Conversion.nested : Conversion D → Conversion D
  | .raised left => .raised (left + 1)
  | c => c

/-- The items of an array, one after the other. -/
def convertItems (convert : LuaValue D → Conversion D) :
    List (LuaValue D) → List (Json D) → Conversion D
  | [], acc => .doc (.arr acc)
  | v :: vs, acc =>
    match convert v with
    | .doc item => convertItems convert vs (acc ++ [item])
    | c => c

/-- A turn of the loop over the members of an object; `skip` says which keys are left out. It
stops at the end, or with a conversion that is none. -/
def objectTurn (convert : LuaValue D → Conversion D) (skip : LuaValue D → Bool) (room : Room)
    (nodes : List (Node D)) (key : LuaValue D) :
    Turn (LuaValue D) (CString × Json D) (Option (Conversion D)) :=
  match luaNext nodes key with
  | none => .stop (some room.nextError)
  | some none => .stop none
  | some (some (k, v)) =>
    if skip k then .go k []
    else
      match convert v with
      | .doc item =>
        match keyText floatText k with
        | none => .stop (some .failed)
        | some text => .go (convertedKey floatText k) [(cString text, item)]
      | c => .stop (some c)

/-- The loop over the members of an object. -/
def objectLoop (convert : LuaValue D → Conversion D) (skip : LuaValue D → Bool) (room : Room)
    (nodes : List (Node D)) : Conversion D :=
  match loop (objectTurn floatText convert skip room nodes) (nodes.length + 1) .nil [] with
  | none => .astray .endless
  | some (none, members) => .doc (.obj members)
  | some (some c, _) => c

/-- `lua_to_json` of a table, inside its level. -/
def tableToJson (convert : LuaValue D → Conversion D) (room : Room) (nodes : List (Node D)) :
    Conversion D :=
  match arraySize nodes with
  | some size => convertItems convert ((List.range size).map fun i => rawgeti nodes (i + 1)) []
  | none => objectLoop floatText convert (fun _ => false) room nodes

/-- `lua_to_json` with so many levels left, and with such room above what is on the stack. -/
def luaToJson (heap : Heap D) : Nat → Room → LuaValue D → Conversion D
  | 0, room, _ => room.error 0
  | _ + 1, _, .nil | _ + 1, _, .lightuserdata _ => .doc .null
  | _ + 1, _, .boolean b => .doc (.bool b)
  | _ + 1, _, .integer i => .doc (.num (Doubles.ofInt64 i))
  | _ + 1, _, .float d => .doc (.num d)
  | _ + 1, _, .string s => .doc (.str (cString s))
  | n + 1, room, .table r =>
    if tableSlots (heap r) ≤ room.slots then
      (tableToJson floatText (luaToJson heap n (room.less (entrySlots (heap r)))) room
        (heap r)).nested
    else .astray .overrun
  | _ + 1, room, .function _ | _ + 1, room, .userdata _ | _ + 1, room, .thread _ => room.error 1

/-- The key of the record in an entity. -/
def isId : LuaValue D → Bool
  | .string s => cString s = cstr "id"
  | _ => false

/-- The scratch table of `returned_entity_to_doc`: a copy without the key of the record.
`layout` is the order of the nodes of a table that is filled with entries one by one. -/
def scratchTable (layout : List (Node D) → List (Node D)) (nodes : List (Node D)) :
    List (Node D) :=
  layout ((live nodes).filter fun e => !isId e.1)

/-- The slots that the copy takes: for the scratch table, for a key and its value, and for both
again where an entry is copied. -/
def copySlots (nodes : List (Node D)) : Nat :=
  if live nodes = [] then 2 else if (live nodes).all fun e => isId e.1 then 3 else 5

/-- `lua_to_json` of the scratch table, which is where the entity was. -/
def scratchToJson (heap : Heap D) : Nat → Room → List (Node D) → Conversion D
  | 0, room, _ => room.error 0
  | n + 1, room, scratch =>
    (tableToJson floatText (luaToJson floatText heap n (room.less (entrySlots scratch))) room
      scratch).nested

/-- `returned_entity_to_doc` of a table. The copy takes no less than the first pass over its
outcome does. -/
def returnedEntityToDoc (layout : List (Node D) → List (Node D)) (heap : Heap D)
    (levels : Nat) (room : Room) (r : Nat) : Conversion D :=
  if copySlots (heap r) ≤ room.slots then
    scratchToJson floatText heap levels room (scratchTable layout (heap r))
  else .astray .overrun

/-! ## The loop over an object -/

variable {floatText} {convert : LuaValue D → Conversion D} {skip : LuaValue D → Bool}
  {room : Room} {nodes : List (Node D)} {key key' : LuaValue D}

/-- The entry after a key holds a value. -/
theorem luaNext_mem_live {e : Node D} (h : luaNext nodes key = some (some e)) :
    e ∈ live nodes := by
  unfold luaNext at h
  split at h
  · exact List.mem_of_mem_head? (Option.some.inj h)
  · split at h
    · cases h
    · next first rest hdrop =>
      have hmem : e ∈ live rest := List.mem_of_mem_head? (Option.some.inj h)
      have hsuffix : rest <:+ nodes :=
        (List.suffix_cons first rest).trans (hdrop ▸ List.dropWhile_suffix _)
      exact (hsuffix.sublist.filter _).subset hmem

theorem mem_of_mem_live {e : Node D} (h : e ∈ live nodes) : e ∈ nodes :=
  List.mem_of_mem_filter h

/-- The key that the turn after an entry starts from. -/
def nextKey (floatText : D → CString) (skip : LuaValue D → Bool) (k : LuaValue D) : LuaValue D :=
  if skip k then k else convertedKey floatText k

/-- A turn that goes on. -/
theorem goes_objectTurn_iff :
    Goes (objectTurn floatText convert skip room nodes) key key' ↔
      ∃ k v, luaNext nodes key = some (some (k, v)) ∧ nextKey floatText skip k = key' ∧
        (skip k = false → (∃ item, convert v = .doc item) ∧ keyText floatText k ≠ none) := by
  unfold Goes objectTurn nextKey
  cases hnext : luaNext nodes key with
  | none => simp
  | some e =>
    obtain _ | ⟨k, v⟩ := e
    · simp
    · cases hskip : skip k with
      | true => simp [hskip]
      | false =>
        cases hconvert : convert v with
        | doc item =>
          cases htext : keyText floatText k with
          | none => simp [hskip, hconvert, htext]
          | some text => simp [hskip, hconvert, htext]
        | _ => simp [hskip, hconvert]

/-- A turn that stops. -/
theorem objectTurn_eq_stop_iff {r : Option (Conversion D)} :
    objectTurn floatText convert skip room nodes key = .stop r ↔
      luaNext nodes key = none ∧ some room.nextError = r ∨
      luaNext nodes key = some none ∧ none = r ∨
      ∃ k v, luaNext nodes key = some (some (k, v)) ∧ skip k = false ∧
        ((∀ item, convert v ≠ .doc item) ∧ some (convert v) = r ∨
          (∃ item, convert v = .doc item) ∧ keyText floatText k = none ∧ some .failed = r) := by
  unfold objectTurn
  cases hnext : luaNext nodes key with
  | none => simp
  | some e =>
    obtain _ | ⟨k, v⟩ := e
    · simp
    · cases hskip : skip k with
      | true => simp [hskip]
      | false =>
        cases hconvert : convert v with
        | doc item =>
          cases htext : keyText floatText k with
          | none => simp [hskip, hconvert, htext]
          | some text => simp [hskip, hconvert, htext]
        | _ => simp [hskip, hconvert]

/-- **A loop that has not ended** after one turn for each node, and one more, never ends. -/
theorem objectLoop_enough {n : Nat} (hle : nodes.length + 1 ≤ n) :
    loop (objectTurn floatText convert skip room nodes) n .nil [] =
      loop (objectTurn floatText convert skip room nodes) (nodes.length + 1) .nil [] := by
  -- a turn goes on with the key of a node
  have hkeys : ∀ k k' out, objectTurn floatText convert skip room nodes k = .go k' out →
      k' ∈ (nodes.map fun e => nextKey floatText skip e.1).toFinset := by
    intro key key' out hturn
    obtain ⟨k, v, hnext, rfl, -⟩ := goes_objectTurn_iff.mp ⟨out, hturn⟩
    exact List.mem_toFinset.mpr (List.mem_map_of_mem (mem_of_mem_live (luaNext_mem_live hnext)))
  have hcard := List.toFinset_card_le (nodes.map fun e => nextKey floatText skip e.1)
  rw [List.length_map] at hcard
  rw [loop_enough hkeys (by omega), loop_enough hkeys (n := nodes.length + 1) (by omega)]

/-- What the loop answers, by how it ends. -/
theorem objectLoop_of_ends {r : Option (Conversion D)} {members : List (CString × Json D)}
    (h : Ends (objectTurn floatText convert skip room nodes) .nil r members) :
    objectLoop floatText convert skip room nodes = r.getD (.doc (.obj members)) := by
  obtain ⟨n, hn⟩ := ends_iff.mp h
  have hloop := loop_mono hn (le_max_left n (nodes.length + 1))
  rw [objectLoop_enough (le_max_right n (nodes.length + 1))] at hloop
  rw [objectLoop, hloop]
  cases r <;> rfl

/-- The loop answers when it ends. -/
theorem ends_of_objectLoop (h : objectLoop floatText convert skip room nodes ≠ .astray .endless) :
    ∃ r members, Ends (objectTurn floatText convert skip room nodes) .nil r members := by
  unfold objectLoop at h
  split at h
  · exact absurd rfl h
  · next members hloop => exact ⟨none, members, ends_iff.mpr ⟨_, hloop⟩⟩
  · next c members hloop => exact ⟨some c, members, ends_iff.mpr ⟨_, hloop⟩⟩

/-! ## The shapes -/

section Shapes

variable (floatText)

/-- A step of the traversal of an object, past an entry that becomes a member. -/
def Passes (good : LuaValue D → Prop) (nodes : List (Node D)) (key key' : LuaValue D) : Prop :=
  ∃ k v, luaNext nodes key = some (some (k, v)) ∧ convertedKey floatText k = key' ∧
    good v ∧ keyText floatText k ≠ none

/-- The key is that of the last entry that the traversal has come past. -/
def Reached (good : LuaValue D → Prop) (nodes : List (Node D)) (key : LuaValue D) : Prop :=
  Relation.ReflTransGen (Passes floatText good nodes) .nil key

/-- A table that becomes a document: an array of such values, or an object whose traversal
comes to its end. -/
def TableIsDoc (good : LuaValue D → Prop) (nodes : List (Node D)) : Prop :=
  match arraySize nodes with
  | some size => ∀ i < size, good (rawgeti nodes (i + 1))
  | none => ∃ key, Reached floatText good nodes key ∧ luaNext nodes key = some none

/-- A table that is given up: before all else that goes wrong comes a value that is given up, or
a key that has no text. -/
def TableIsNull (good null : LuaValue D → Prop) (nodes : List (Node D)) : Prop :=
  match arraySize nodes with
  | some size => ∃ i < size, null (rawgeti nodes (i + 1)) ∧ ∀ j < i, good (rawgeti nodes (j + 1))
  | none => ∃ key k v, Reached floatText good nodes key ∧ luaNext nodes key = some (some (k, v)) ∧
      (null v ∨ good v ∧ keyText floatText k = none)

/-- A value that becomes a document, within so many levels and so much room: two slots for each
object that it lies in, and one for each array. -/
def IsDoc (heap : Heap D) : Nat → Room → LuaValue D → Prop
  | 0, _, _ => False
  | n + 1, room, .table r =>
    tableSlots (heap r) ≤ room.slots ∧
      TableIsDoc floatText (IsDoc heap n (room.less (entrySlots (heap r)))) (heap r)
  | _ + 1, _, .function _ | _ + 1, _, .userdata _ | _ + 1, _, .thread _ => False
  | _ + 1, _, _ => True

/-- A value that the conversion answers `NULL` for, within so many levels and so much room. -/
def IsNull (heap : Heap D) : Nat → Room → LuaValue D → Prop
  | n + 1, room, .table r =>
    tableSlots (heap r) ≤ room.slots ∧
      TableIsNull floatText (IsDoc floatText heap n (room.less (entrySlots (heap r))))
        (IsNull heap n (room.less (entrySlots (heap r)))) (heap r)
  | _, _, _ => False

variable (layout : List (Node D) → List (Node D))

/-- An entity that becomes a document, with room for the copy as well. -/
def EntityIsDoc (heap : Heap D) : (levels : Nat) → Room → (r : Nat) → Prop
  | 0, _, _ => False
  | n + 1, room, r =>
    let scratch := scratchTable layout (heap r)
    copySlots (heap r) ≤ room.slots ∧
      TableIsDoc floatText (IsDoc floatText heap n (room.less (entrySlots scratch))) scratch

/-- An entity that is given up, with room for the copy as well. -/
def EntityIsNull (heap : Heap D) : (levels : Nat) → Room → (r : Nat) → Prop
  | 0, _, _ => False
  | n + 1, room, r =>
    let scratch := scratchTable layout (heap r)
    copySlots (heap r) ≤ room.slots ∧
      TableIsNull floatText (IsDoc floatText heap n (room.less (entrySlots scratch)))
        (IsNull floatText heap n (room.less (entrySlots scratch))) scratch

end Shapes

variable {good null : LuaValue D → Prop} {vs : List (LuaValue D)} {acc : List (Json D)}

omit [Doubles D] in
@[simp] theorem nested_eq_doc_iff {c : Conversion D} {doc : Json D} :
    c.nested = .doc doc ↔ c = .doc doc := by
  cases c <;> simp [Conversion.nested]

omit [Doubles D] in
@[simp] theorem nested_eq_failed_iff {c : Conversion D} : c.nested = .failed ↔ c = .failed := by
  cases c <;> simp [Conversion.nested]

omit [Doubles D] in
theorem convertItems_doc_iff (hgood : ∀ v, (∃ item, convert v = .doc item) ↔ good v) :
    (∃ doc, convertItems convert vs acc = .doc doc) ↔ ∀ v ∈ vs, good v := by
  induction vs generalizing acc with
  | nil => simp [convertItems]
  | cons v vs ih =>
    rw [List.forall_mem_cons, ← hgood]
    unfold convertItems
    cases hv : convert v with
    | doc item => simpa using ih
    | _ => simp

omit [Doubles D] in
theorem convertItems_failed_iff (hgood : ∀ v, (∃ item, convert v = .doc item) ↔ good v)
    (hnull : ∀ v, convert v = .failed ↔ null v) :
    convertItems convert vs acc = .failed ↔
      ∃ i, ∃ hi : i < vs.length, null vs[i] ∧ ∀ j, (hj : j < i) → good vs[j] := by
  induction vs generalizing acc with
  | nil => simp [convertItems]
  | cons v vs ih =>
    have hcons : (∃ i, ∃ hi : i < (v :: vs).length, null (v :: vs)[i] ∧
        ∀ j, (hj : j < i) → good (v :: vs)[j]) ↔ null v ∨ good v ∧
          ∃ i, ∃ hi : i < vs.length, null vs[i] ∧ ∀ j, (hj : j < i) → good vs[j] := by
      constructor
      · rintro ⟨i, hi, hv, hbefore⟩
        cases i with
        | zero => exact Or.inl hv
        | succ i =>
          refine Or.inr ⟨hbefore 0 (Nat.zero_lt_succ i), i, Nat.lt_of_succ_lt_succ hi, hv, ?_⟩
          exact fun j hj => hbefore (j + 1) (Nat.succ_lt_succ hj)
      · rintro (hv | ⟨hgood, i, hi, hv, hbefore⟩)
        · exact ⟨0, Nat.zero_lt_succ _, hv, nofun⟩
        · refine ⟨i + 1, Nat.succ_lt_succ hi, hv, ?_⟩
          intro j hj
          cases j with
          | zero => exact hgood
          | succ j => exact hbefore j (Nat.lt_of_succ_lt_succ hj)
    rw [hcons, ← hgood, ← hnull]
    unfold convertItems
    cases hv : convert v with
    | doc item => simpa using ih
    | _ => simp

/-- The steps of the traversal are the turns of the loop. -/
theorem goes_objectTurn (hgood : ∀ v, (∃ item, convert v = .doc item) ↔ good v) :
    Goes (objectTurn floatText convert (fun _ => false) room nodes) = Passes floatText good nodes := by
  funext key key'
  refine propext ?_
  rw [goes_objectTurn_iff]
  simp [Passes, nextKey, hgood]

theorem objectLoop_doc_iff (hgood : ∀ v, (∃ item, convert v = .doc item) ↔ good v) :
    (∃ doc, objectLoop floatText convert (fun _ => false) room nodes = .doc doc) ↔
      ∃ key, Reached floatText good nodes key ∧ luaNext nodes key = some none := by
  unfold Reached
  rw [← goes_objectTurn hgood]
  constructor
  · rintro ⟨doc, hdoc⟩
    obtain ⟨r, members, hends⟩ := ends_of_objectLoop (by rw [hdoc]; simp)
    obtain ⟨key, hreach, hstop⟩ := ends_iff_goes.mp ⟨members, hends⟩
    rw [objectLoop_of_ends hends] at hdoc
    rcases objectTurn_eq_stop_iff.mp hstop with ⟨-, rfl⟩ | ⟨hnext, rfl⟩ |
      ⟨k, v, -, -, ⟨hv, rfl⟩ | ⟨-, -, rfl⟩⟩
    · exact absurd hdoc nextError_ne_doc
    · exact ⟨key, hreach, hnext⟩
    · exact absurd hdoc (hv doc)
    · cases hdoc
  · rintro ⟨key, hreach, hnext⟩
    obtain ⟨members, hends⟩ := ends_iff_goes.mpr
      ⟨key, hreach, objectTurn_eq_stop_iff.mpr (Or.inr (Or.inl ⟨hnext, rfl⟩))⟩
    exact ⟨_, objectLoop_of_ends hends⟩

theorem objectLoop_failed_iff (hgood : ∀ v, (∃ item, convert v = .doc item) ↔ good v)
    (hnull : ∀ v, convert v = .failed ↔ null v) :
    objectLoop floatText convert (fun _ => false) room nodes = .failed ↔
      ∃ key k v, Reached floatText good nodes key ∧ luaNext nodes key = some (some (k, v)) ∧
        (null v ∨ good v ∧ keyText floatText k = none) := by
  unfold Reached
  rw [← goes_objectTurn hgood]
  constructor
  · intro hfailed
    obtain ⟨r, members, hends⟩ := ends_of_objectLoop (by rw [hfailed]; simp)
    obtain ⟨key, hreach, hstop⟩ := ends_iff_goes.mp ⟨members, hends⟩
    rw [objectLoop_of_ends hends] at hfailed
    rcases objectTurn_eq_stop_iff.mp hstop with ⟨-, rfl⟩ | ⟨-, rfl⟩ |
      ⟨k, v, hnext, -, ⟨-, rfl⟩ | ⟨hv, htext, -⟩⟩
    · exact absurd hfailed nextError_ne_failed
    · cases hfailed
    · exact ⟨key, k, v, hreach, hnext, Or.inl ((hnull v).mp hfailed)⟩
    · exact ⟨key, k, v, hreach, hnext, Or.inr ⟨(hgood v).mp hv, htext⟩⟩
  · rintro ⟨key, k, v, hreach, hnext, hv⟩
    have hstop : objectTurn floatText convert (fun _ => false) room nodes key = .stop (some .failed) := by
      refine objectTurn_eq_stop_iff.mpr (Or.inr (Or.inr ⟨k, v, hnext, rfl, ?_⟩))
      rcases hv with hv | ⟨hv, htext⟩
      · left
        rw [(hnull v).mpr hv]
        exact ⟨by simp, rfl⟩
      · exact Or.inr ⟨(hgood v).mpr hv, htext, rfl⟩
    obtain ⟨members, hends⟩ := ends_iff_goes.mpr ⟨key, hreach, hstop⟩
    exact objectLoop_of_ends hends

theorem tableToJson_doc_iff (hgood : ∀ v, (∃ item, convert v = .doc item) ↔ good v) :
    (∃ doc, tableToJson floatText convert room nodes = .doc doc) ↔
      TableIsDoc floatText good nodes := by
  unfold tableToJson TableIsDoc
  cases arraySize nodes with
  | none => exact objectLoop_doc_iff hgood
  | some size => simp [convertItems_doc_iff hgood]

theorem tableToJson_failed_iff (hgood : ∀ v, (∃ item, convert v = .doc item) ↔ good v)
    (hnull : ∀ v, convert v = .failed ↔ null v) :
    tableToJson floatText convert room nodes = .failed ↔ TableIsNull floatText good null nodes := by
  unfold tableToJson TableIsNull
  cases arraySize nodes with
  | none => exact objectLoop_failed_iff hgood hnull
  | some size => simp [convertItems_failed_iff hgood hnull, and_left_comm]

variable {heap : Heap D} {v : LuaValue D} {n : Nat}

/-- **The conversion gives a document** for the values of that shape, and for no other. -/
theorem luaToJson_doc_iff :
    (∃ doc, luaToJson floatText heap n room v = .doc doc) ↔ IsDoc floatText heap n room v := by
  induction n generalizing room v with
  | zero => simp [luaToJson, IsDoc]
  | succ n ih =>
    cases v with
    | table r =>
      rw [luaToJson, IsDoc]
      by_cases hroom : tableSlots (heap r) ≤ room.slots
      · simpa [hroom] using tableToJson_doc_iff fun v => ih (v := v)
      · simp [hroom]
    | _ => simp [luaToJson, IsDoc]

/-- **The conversion answers `NULL`** for the values of that shape, and for no other. -/
theorem luaToJson_failed_iff :
    luaToJson floatText heap n room v = .failed ↔ IsNull floatText heap n room v := by
  induction n generalizing room v with
  | zero => simp [luaToJson, IsNull]
  | succ n ih =>
    cases v with
    | table r =>
      rw [luaToJson, IsNull]
      by_cases hroom : tableSlots (heap r) ≤ room.slots
      · simpa [hroom] using tableToJson_failed_iff (fun v => luaToJson_doc_iff (v := v))
          fun v => ih (v := v)
      · simp [hroom]
    | _ => simp [luaToJson, IsNull]

variable {layout : List (Node D) → List (Node D)} {r : Nat}

theorem returnedEntityToDoc_doc_iff :
    (∃ doc, returnedEntityToDoc floatText layout heap n room r = .doc doc) ↔
      EntityIsDoc floatText layout heap n room r := by
  unfold returnedEntityToDoc
  by_cases hroom : copySlots (heap r) ≤ room.slots
  · cases n with
    | zero => simp [hroom, scratchToJson, EntityIsDoc]
    | succ n =>
      simpa [hroom, scratchToJson, EntityIsDoc] using
        tableToJson_doc_iff fun v => luaToJson_doc_iff (v := v)
  · cases n <;> simp [hroom, EntityIsDoc]

theorem returnedEntityToDoc_failed_iff :
    returnedEntityToDoc floatText layout heap n room r = .failed ↔
      EntityIsNull floatText layout heap n room r := by
  unfold returnedEntityToDoc
  by_cases hroom : copySlots (heap r) ≤ room.slots
  · cases n with
    | zero => simp [hroom, scratchToJson, EntityIsNull]
    | succ n =>
      simpa [hroom, scratchToJson, EntityIsNull] using
        tableToJson_failed_iff (fun v => luaToJson_doc_iff (v := v))
          fun v => luaToJson_failed_iff (v := v)
  · cases n <;> simp [hroom, EntityIsNull]

-- a number among the keys: the string that it was turned into is not a key, or is an earlier one
example : luaToJson (D := Int) (fun _ => []) (fun _ => [(.string (cstr "a"), .boolean true),
    (.integer 1, .boolean true)]) 2 ⟨43, false⟩ (.table 0) = .raised 1 := rfl

example : luaToJson (D := Int) (fun _ => []) (fun _ => [(.string (cstr "1"), .boolean true),
    (.integer 1, .boolean true)]) 2 ⟨43, false⟩ (.table 0) = .astray .endless := rfl

-- an object in an object has its key and its value in the two slots that are not there
example : luaToJson (D := Int) (fun _ => []) (fun r => [(.string (cstr "a"), .table (r + 1))]) 2
    ⟨3, false⟩ (.table 0) = .astray .overrun := rfl

end Lua

end EpsilonDB
