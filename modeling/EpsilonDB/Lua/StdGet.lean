import EpsilonDB.Api.Config
import EpsilonDB.Api.ReplBackend
import EpsilonDB.Lua.Values
import EpsilonDB.Socket.GetQuorum
import Mathlib.Logic.Function.Basic

/-!
# `get` of the scripting library (`lua/epsilon_lua.c`)

A script reads a record as a Lua table, from the engine of a single node or by a quorum read.

- `Pushed`: Lua values as a script can tell them apart. A table is a function of the key.
- `pushJson`: `push_json`, with the levels that are left of `EDB_LUA_MAX_DEPTH`; `pushSlots`, the
  slots of the stack that it takes.
- `entry`, `Alike`: what a value has under a key, and values with the same entries down to a
  number of levels.
- `pushJson_eq_iff`: values are pushed as the same Lua value exactly when they are alike.
- `luaStdGet`: the function of the library. `edb_repl_read_get` returns the value of the record,
  and the function looks in it for a member `value`.
- `SelfNested`: the values that are found again under their member `value`.
- `SelfNested.nested`: they are nested as deep as a script can see.
-/

namespace EpsilonDB

namespace Lua

variable {D : Type} [Doubles D]

/-! ## Values a script is handed -/

/-- A key of a table that `push_json` fills. -/
inductive Key where
  | integer (i : Nat)
  | string (s : CString)
deriving DecidableEq

/-- What `push_json` leaves on the stack. A table has `nil` under the keys it is without. -/
inductive Pushed (D : Type) where
  | nil
  | null
  | boolean (b : Bool)
  | integer (i : Int)
  | float (d : D)
  | string (s : CString)
  | table (field : Key → Pushed D)

/-- A double that is pushed as an integer. An integral double in the range is between
`-2^53` and `2^53 - 1` exactly when it is so once converted. -/
def isInteger (d : D) : Prop :=
  Doubles.inRange d = true ∧ (-9007199254740992 ≤ Doubles.toInt64 d ∧
    Doubles.toInt64 d ≤ 9007199254740991) ∧ d = Doubles.ofInt64 (Doubles.toInt64 d)

instance (d : D) : Decidable (isInteger d) :=
  inferInstanceAs (Decidable (_ ∧ (_ ∧ _) ∧ _))

/-- `lua_rawseti` of the items of an array, from index `i` on. -/
def rawsetItems : List (Pushed D) → Nat → (Key → Pushed D) → Key → Pushed D
  | [], _, field => field
  | v :: vs, i, field => rawsetItems vs (i + 1) (Function.update field (.integer i) v)

/-- `lua_setfield` of the members of an object. -/
def setFields (ms : List (CString × Pushed D)) (field : Key → Pushed D) : Key → Pushed D :=
  ms.foldl (fun field m => Function.update field (.string m.1) m.2) field

/-- `push_json` with so many levels left. -/
def pushJson : Nat → Json D → Pushed D
  | 0, _ => .nil
  | _ + 1, .null => .null
  | _ + 1, .bool b => .boolean b
  | _ + 1, .num d => if isInteger d then .integer (Doubles.toInt64 d) else .float d
  | _ + 1, .str s => .string s
  | n + 1, .arr xs => .table (rawsetItems (xs.map (pushJson n)) 1 fun _ => .nil)
  | n + 1, .obj ms => .table (setFields (ms.map fun m => (m.1, pushJson n m.2)) fun _ => .nil)

/-- `push_doc_with_id`. -/
def pushDocWithId (id : CString) (doc : Option (Json D)) : Pushed D :=
  match doc with
  | none => .nil
  | some doc =>
    match pushJson (maxDepth + 1) doc with
    | .table field => .table (Function.update field (.string (cstr "id")) (.string id))
    | v => v

/-- The slots that `push_json` takes. What is in a container is pushed above it, and
`lua_setfield` pushes the name above the value of a member. -/
def pushSlots : Nat → Json D → Nat
  | n + 1, .arr xs => 1 + (xs.map (pushSlots n)).foldr max 0
  | n + 1, .obj ms => 1 + (ms.map fun m => max 2 (pushSlots n m.2)).foldr max 0
  | _, _ => 1

/-- The slots that `push_doc_with_id` takes. -/
def docSlots : Option (Json D) → Nat
  | none => 1
  | some doc => max (pushSlots (maxDepth + 1) doc) (if doc.isContainer then 3 else 1)

omit [Doubles D] in
theorem foldr_max_le {ns : List Nat} {b : Nat} (h : ∀ n ∈ ns, n ≤ b) : ns.foldr max 0 ≤ b := by
  induction ns with
  | nil => exact Nat.zero_le b
  | cons n ns ih =>
    rw [List.forall_mem_cons] at h
    exact max_le h.1 (ih h.2)

omit [Doubles D] in
/-- **A slot for each level**, and one more for a name. The entity of a handler is pushed with
33 levels in a new state, above the function and its own table, where 45 slots are enough. -/
theorem pushSlots_le (n : Nat) (v : Json D) : pushSlots n v ≤ n + 2 := by
  induction n generalizing v with
  | zero => exact Nat.le_succ 1
  | succ n ih =>
    cases v with
    | arr xs =>
      have hitems : (xs.map (pushSlots n)).foldr max 0 ≤ n + 2 :=
        foldr_max_le (List.forall_mem_map.mpr fun x _ => ih x)
      rw [pushSlots]
      omega
    | obj ms =>
      have hmembers : (ms.map fun m => max 2 (pushSlots n m.2)).foldr max 0 ≤ n + 2 :=
        foldr_max_le (List.forall_mem_map.mpr fun m _ => max_le (Nat.le_add_left 2 n) (ih m.2))
      rw [pushSlots]
      omega
    | null | bool _ | num _ | str _ => exact Nat.succ_le_succ (Nat.zero_le _)

/-! ## Values that look alike -/

/-- What a script finds under a key. Of several members with one name it is the last. -/
def entry : Json D → Key → Option (Json D)
  | .arr xs, .integer i => if i = 0 then none else xs[i - 1]?
  | .obj ms, .string name => ms.reverse.lookup name
  | _, _ => none

/-- The same entries down to so many levels. -/
def Alike : Nat → Json D → Json D → Prop
  | 0, _, _ => True
  | n + 1, v, w =>
    if v.isContainer ∧ w.isContainer then
      n = 0 ∨ ∀ key, Option.Rel (Alike n) (entry v key) (entry w key)
    else v = w

section Fields

omit [Doubles D]

/-- The items are the entries from index `i` on. -/
theorem rawsetItems_integer (vs : List (Pushed D)) (i j : Nat) (field : Key → Pushed D) :
    rawsetItems vs i field (.integer j) =
      if j < i then field (.integer j) else (vs[j - i]?).getD (field (.integer j)) := by
  induction vs generalizing i field with
  | nil => simp [rawsetItems]
  | cons v vs ih =>
    rw [rawsetItems, ih]
    rcases Nat.lt_trichotomy j i with hlt | rfl | hgt
    · have hne : Key.integer j ≠ .integer i := by simp [hlt.ne]
      simp [hlt, hlt.trans (Nat.lt_succ_self i), Function.update_of_ne hne]
    · simp
    · have hne : Key.integer j ≠ .integer i := by simp [hgt.ne']
      have hsucc : j - i = j - (i + 1) + 1 := by omega
      rw [if_neg (by omega), if_neg (by omega), Function.update_of_ne hne, hsucc,
        List.getElem?_cons_succ]

theorem rawsetItems_string (vs : List (Pushed D)) (i : Nat) (field : Key → Pushed D)
    (name : CString) : rawsetItems vs i field (.string name) = field (.string name) := by
  induction vs generalizing i field with
  | nil => rfl
  | cons v vs ih => rw [rawsetItems, ih, Function.update_of_ne (by simp)]

/-- The last member of a name is its entry. -/
theorem setFields_string (ms : List (CString × Pushed D)) (field : Key → Pushed D)
    (name : CString) :
    setFields ms field (.string name) =
      (ms.reverse.lookup name).getD (field (.string name)) := by
  induction ms generalizing field with
  | nil => rfl
  | cons m ms ih =>
    obtain ⟨k, v⟩ := m
    rw [setFields, List.foldl_cons, ← setFields, ih, List.reverse_cons, List.lookup_append]
    cases hlast : ms.reverse.lookup name with
    | some w => rfl
    | none =>
      by_cases hk : name = k
      · subst hk
        simp
      · have hbeq : (name == k) = false := beq_eq_false_iff_ne.mpr hk
        simp [List.lookup_cons, hk, hbeq]

theorem setFields_integer (ms : List (CString × Pushed D)) (field : Key → Pushed D) (i : Nat) :
    setFields ms field (.integer i) = field (.integer i) := by
  induction ms generalizing field with
  | nil => rfl
  | cons m ms ih =>
    rw [setFields, List.foldl_cons, ← setFields, ih, Function.update_of_ne (by simp)]

theorem lookup_map_snd {V W : Type} (f : V → W) (ms : List (CString × V)) (name : CString) :
    (ms.map fun m => (m.1, f m.2)).lookup name = (ms.lookup name).map f := by
  induction ms with
  | nil => rfl
  | cons m ms ih =>
    rw [List.map_cons, List.lookup_cons, List.lookup_cons, ih]
    cases name == m.1 <;> rfl

end Fields

/-- **A container** is pushed as the table of its entries. -/
theorem pushJson_container {v : Json D} (hv : v.isContainer = true) (n : Nat) :
    pushJson (n + 1) v = .table fun key => ((entry v key).map (pushJson n)).getD .nil := by
  cases v with
  | arr xs =>
    refine congrArg Pushed.table (funext fun key => ?_)
    cases key with
    | integer j =>
      rw [rawsetItems_integer, List.getElem?_map]
      rcases Nat.eq_zero_or_pos j with rfl | hpos
      · rfl
      · rw [if_neg (by omega), entry, if_neg hpos.ne']
    | string name => exact rawsetItems_string _ _ _ _
  | obj ms =>
    refine congrArg Pushed.table (funext fun key => ?_)
    cases key with
    | integer j => exact setFields_integer _ _ _
    | string name => rw [setFields_string, ← List.map_reverse, lookup_map_snd, entry]
  | null | bool _ | num _ | str _ => cases hv

theorem pushJson_num (n : Nat) (d : D) :
    pushJson (n + 1) (.num d) = .integer (Doubles.toInt64 d) ∨
      pushJson (n + 1) (.num d) = .float d := by
  rw [pushJson]
  split
  · exact .inl rfl
  · exact .inr rfl

/-- A value is pushed as `nil` only where no levels are left. -/
theorem pushJson_ne_nil (n : Nat) (v : Json D) : pushJson (n + 1) v ≠ .nil := by
  cases v with
  | num d =>
    intro h
    rcases pushJson_num n d with hd | hd <;> cases hd.symm.trans h
  | null | bool _ | str _ | arr _ | obj _ => exact nofun

/-- Values under a key, or none, that a script cannot tell apart. -/
theorem pushed_getD_eq_iff {n : Nat} (hn : n ≠ 0)
    (ih : ∀ v w : Json D, pushJson n v = pushJson n w ↔ Alike n v w) (x y : Option (Json D)) :
    (x.map (pushJson n)).getD .nil = (y.map (pushJson n)).getD .nil ↔
      Option.Rel (Alike n) x y := by
  obtain ⟨m, rfl⟩ := Nat.exists_eq_succ_of_ne_zero hn
  cases x with
  | none =>
    cases y with
    | none => exact ⟨fun _ => .none, fun _ => rfl⟩
    | some w => exact ⟨fun h => absurd h.symm (pushJson_ne_nil m w), nofun⟩
  | some v =>
    cases y with
    | none => exact ⟨fun h => absurd h (pushJson_ne_nil m v), nofun⟩
    | some w =>
      constructor
      · intro h
        exact .some ((ih v w).mp h)
      · rintro (h | _)
        exact (ih v w).mpr h

/-- Numbers are pushed as different Lua values. -/
theorem pushJson_num_inj (n : Nat) {d d' : D}
    (h : pushJson (n + 1) (.num d) = pushJson (n + 1) (.num d')) : d = d' := by
  rw [pushJson, pushJson] at h
  split at h
  · next hd =>
    split at h
    · next hd' =>
      -- both are what their integer converts to
      have hint : Doubles.toInt64 d = Doubles.toInt64 d' := Pushed.integer.inj h
      rw [hd.2.2, hd'.2.2, hint]
    · cases h
  · split at h
    · cases h
    · exact Pushed.float.inj h

/-- What is no container is pushed as no other value. -/
theorem pushJson_scalar_iff {v w : Json D} (h : ¬(v.isContainer = true ∧ w.isContainer = true))
    (n : Nat) : pushJson (n + 1) v = pushJson (n + 1) w ↔ v = w := by
  refine ⟨fun heq => ?_, fun heq => congrArg _ heq⟩
  cases v with
  | null | bool _ | str _ =>
    cases w with
    | num d' => rcases pushJson_num n d' with hd | hd <;> cases heq.trans hd
    | null | bool _ | str _ | arr _ | obj _ => cases heq <;> rfl
  | num d =>
    cases w with
    | num d' => exact congrArg Json.num (pushJson_num_inj n heq)
    | null | bool _ | str _ | arr _ | obj _ =>
      rcases pushJson_num n d with hd | hd <;> cases hd.symm.trans heq
  | arr _ | obj _ =>
    cases w with
    | num d' => rcases pushJson_num n d' with hd | hd <;> cases heq.trans hd
    | null | bool _ | str _ => cases heq
    | arr _ | obj _ => exact absurd ⟨rfl, rfl⟩ h

/-- **Values are alike** exactly when a script is handed the same. -/
theorem pushJson_eq_iff (n : Nat) (v w : Json D) :
    pushJson n v = pushJson n w ↔ Alike n v w := by
  induction n generalizing v w with
  | zero => exact ⟨fun _ => trivial, fun _ => rfl⟩
  | succ n ih =>
    rw [Alike]
    split
    · next h =>
      rw [pushJson_container h.1, pushJson_container h.2, Pushed.table.injEq, funext_iff]
      by_cases hn : n = 0
      · subst hn
        refine ⟨fun _ => .inl rfl, fun _ key => ?_⟩
        cases entry v key <;> cases entry w key <;> rfl
      · simp only [pushed_getD_eq_iff hn ih, hn, false_or]
    · next h => exact pushJson_scalar_iff h n

/-! ## The function of the library -/

/-- `edb_lua_session`, as far as the permission check looks at it. -/
structure LuaSession where
  trusted : Bool
  userGroups : UInt64
  /-- `edb_partition_get` in the database of the session -/
  edbPartitionGet : CString → Option PartitionInfo

/-- `lua_check_partition_perm`. -/
def luaCheckPartitionPerm (s : LuaSession) (partition : CString) (perm : Permission) : Bool :=
  s.trusted ||
    match s.edbPartitionGet partition with
    | none => true
    | some info => edbCheckPerm (info.mask perm) s.userGroups

/-- Where a session reads records: it has `s->ctx->repl`, or the engine alone. -/
inductive ReadFrom (D : Type) where
  | repl (edbReplReadGet : (partition keyspace id : CString) → Option (Json D))
  | engine (edbGet : (partition keyspace id : CString) → Option (Json D))

/-- How a function of the library ends. -/
inductive Returned (D : Type) where
  | pushed (v : Pushed D)
  /-- `luaL_error` -/
  | raised (message : CString)
  /-- it writes past the end of the stack -/
  | overrun

/-- `push_doc_with_id` above the arguments of a function, where Lua has made room for 26 values,
and left what there was of more. -/
def returnDoc (more : Nat) (id : CString) (doc : Option (Json D)) : Returned D :=
  if docSlots doc ≤ 26 + more then .pushed (pushDocWithId id doc) else .overrun

/-- `lua_std_get`. -/
def luaStdGet (s : LuaSession) (ctx : ReadFrom D) (more : Nat) (partition keyspace id : CString) :
    Returned D :=
  if luaCheckPartitionPerm s partition .read then
    match ctx with
    | .repl edbReplReadGet =>
      let row := edbReplReadGet partition keyspace id
      returnDoc more id (row.bind fun row => row.get (cstr "value"))
    | .engine edbGet => returnDoc more id (edbGet partition keyspace id)
  else .raised (cstr "permission denied reading '" ++ partition ++ cstr "'")

/-- **A document with its id** is the table of its entries, under `id` apart. -/
theorem pushDocWithId_container {v : Json D} (hv : v.isContainer = true) (id : CString) :
    pushDocWithId id (some v) =
      .table (Function.update (fun key => ((entry v key).map (pushJson maxDepth)).getD .nil)
        (.string (cstr "id")) (.string id)) := by
  rw [pushDocWithId, pushJson_container hv]

/-- What is no container gets no id. -/
theorem pushDocWithId_scalar {v : Json D} (hv : v.isContainer = false) (id : CString) :
    ∀ field, pushDocWithId id (some v) ≠ .table field := by
  intro field h
  cases v with
  | num d =>
    rw [pushDocWithId] at h
    rcases pushJson_num maxDepth d with hd | hd <;> rw [hd] at h <;> cases h
  | null | bool _ | str _ => cases h
  | arr _ | obj _ => cases hv

theorem pushDocWithId_ne_nil (id : CString) (v : Json D) : pushDocWithId id (some v) ≠ .nil := by
  intro h
  rw [pushDocWithId] at h
  split at h
  · cases h
  · exact pushJson_ne_nil _ v h

/-- The member `value` of a record shows a script what the record does, but for the id. -/
def SelfNested (v : Json D) : Prop :=
  ∃ w, v.get (cstr "value") = some w ∧ w.isContainer = true ∧
    ∀ key ≠ Key.string (cstr "id"), Option.Rel (Alike maxDepth) (entry v key) (entry w key)

omit [Doubles D] in
/-- What has members is an object. -/
theorem isContainer_of_get {v w : Json D} {name : CString} (h : v.get name = some w) :
    v.isContainer = true := by
  cases v with
  | obj ms => rfl
  | null | bool _ | num _ | str _ | arr _ => cases h

/-- Containers are pushed with the same id as the same table exactly when their other entries
are alike. -/
theorem pushDocWithId_eq_iff {v w : Json D} (hv : v.isContainer = true)
    (hw : w.isContainer = true) (id : CString) :
    pushDocWithId id (some w) = pushDocWithId id (some v) ↔
      ∀ key ≠ Key.string (cstr "id"),
        Option.Rel (Alike maxDepth) (entry v key) (entry w key) := by
  have hkey : ∀ key, ((entry v key).map (pushJson maxDepth)).getD .nil =
      ((entry w key).map (pushJson maxDepth)).getD .nil ↔
        Option.Rel (Alike maxDepth) (entry v key) (entry w key) := fun key =>
    pushed_getD_eq_iff (by decide) (pushJson_eq_iff maxDepth) _ _
  rw [pushDocWithId_container hv, pushDocWithId_container hw, Pushed.table.injEq,
    Function.update_eq_iff]
  constructor
  · rintro ⟨-, hrest⟩ key hne
    have heq := hrest key hne
    rw [Function.update_of_ne hne] at heq
    exact (hkey key).mp heq.symm
  · intro hrel
    refine ⟨by rw [Function.update_self], fun key hne => ?_⟩
    rw [Function.update_of_ne hne]
    exact ((hkey key).mpr (hrel key hne)).symm

/-- Looking for `value` in a record shows the record only if it is nested in itself. -/
theorem pushDocWithId_value_iff (id : CString) (v : Json D) :
    pushDocWithId id (v.get (cstr "value")) = pushDocWithId id (some v) ↔ SelfNested v := by
  cases hvalue : v.get (cstr "value") with
  | none =>
    constructor
    · intro h
      exact absurd h.symm (pushDocWithId_ne_nil id v)
    · rintro ⟨w, hw, -⟩
      cases hvalue.symm.trans hw
  | some w =>
    have hv := isContainer_of_get hvalue
    constructor
    · intro h
      have hw : w.isContainer = true := by
        by_contra hw
        rw [pushDocWithId_container hv] at h
        exact pushDocWithId_scalar (Bool.eq_false_of_not_eq_true hw) id _ h
      exact ⟨w, hvalue, hw, (pushDocWithId_eq_iff hv hw id).mp h⟩
    · rintro ⟨w', hw', hcontainer, hrel⟩
      cases hvalue.symm.trans hw'
      exact (pushDocWithId_eq_iff hv hcontainer id).mpr hrel

/-- A record that a function can push, itself and what it has under `value`. -/
def HasRoom (more : Nat) (v : Json D) : Prop :=
  docSlots (some v) ≤ 26 + more ∧ docSlots (v.get (cstr "value")) ≤ 26 + more

/-- **A record and its member** are returned as the same table where the record is nested in
itself, and there is room for both. -/
theorem returnDoc_value_iff (more : Nat) (id : CString) (v : Json D) :
    returnDoc more id (v.get (cstr "value")) = returnDoc more id (some v) ∧
        returnDoc more id (v.get (cstr "value")) ≠ .overrun ↔
      SelfNested v ∧ HasRoom more v := by
  unfold returnDoc HasRoom
  by_cases hvalue : docSlots (v.get (cstr "value")) ≤ 26 + more
  · by_cases hv : docSlots (some v) ≤ 26 + more
    · simp [hvalue, hv, pushDocWithId_value_iff]
    · simp [hvalue, hv]
  · simp [hvalue]

/-! ## With and without replication -/

section Replicated

variable {F : Type} [DecidableEq F] (docs : Documents (Json D) F)
  (answers : (partition keyspace id : CString) → GetAnswers (Json D))

/-- A session on a cluster where the gets of the records have these answers. -/
def onCluster : ReadFrom D :=
  .repl fun partition keyspace id => (answers partition keyspace id).result docs

omit [Doubles D] in
/-- Where quorums apply, a node that reads the copies of its peers is such a session. -/
theorem repl_eq_onCluster (shardKey : CString → CString → CString) {w : EpsilonDB.World}
    {self : NodeId} (clock : NodeId → Int) (reached : NodeId → Bool) {db : CString}
    (hquorum : quorumApplies (w self) db = true) :
    .repl (edbReplReadGet docs shardKey w self clock reached db) =
      onCluster docs fun partition keyspace id =>
        (readSet shardKey w self clock reached db partition keyspace).getAnswers docs id := by
  refine congrArg ReadFrom.repl (funext fun partition => funext fun keyspace => funext fun id => ?_)
  rw [edbReplReadGet, if_pos hquorum, readGet_eq_result]

/-- A session on a single node with the records that the cluster agrees on. -/
def onSingleNode : ReadFrom D :=
  .engine fun partition keyspace id => (answers partition keyspace id).result docs

/-- A script sees of a record what it sees on the single node, and `nil` when there is none. -/
def SeesSame (s : LuaSession) (more : Nat) (partition keyspace id : CString) : Prop :=
  luaStdGet s (onCluster docs answers) more partition keyspace id =
      luaStdGet s (onSingleNode docs answers) more partition keyspace id ∧
    luaStdGet s (onCluster docs answers) more partition keyspace id ≠ .overrun ∧
    (luaStdGet s (onCluster docs answers) more partition keyspace id = .pushed .nil ↔
      luaCheckPartitionPerm s partition .read = true ∧
        (answers partition keyspace id).result docs = none)

/-- **A script sees the same** of the records that are nested in themselves, with room on the
stack for all their levels, and of no other that it may read. -/
theorem seesSame_iff (s : LuaSession) (more : Nat) (partition keyspace id : CString) :
    SeesSame docs answers s more partition keyspace id ↔
      (luaCheckPartitionPerm s partition .read = true →
        ∀ v, (answers partition keyspace id).result docs = some v →
          SelfNested v ∧ HasRoom more v) := by
  by_cases hread : luaCheckPartitionPerm s partition .read = true
  · have hcluster : luaStdGet s (onCluster docs answers) more partition keyspace id =
        returnDoc more id (((answers partition keyspace id).result docs).bind
          fun row => row.get (cstr "value")) := if_pos hread
    have hsingle : luaStdGet s (onSingleNode docs answers) more partition keyspace id =
        returnDoc more id ((answers partition keyspace id).result docs) := if_pos hread
    rw [SeesSame, hcluster, hsingle]
    cases hrow : (answers partition keyspace id).result docs with
    | none =>
      -- without a row both sessions push nil
      have hnil : returnDoc more id (none : Option (Json D)) = .pushed .nil :=
        if_pos ((by decide : 1 ≤ 26).trans (Nat.le_add_right 26 more))
      constructor
      · rintro - - v hv
        cases hv
      · rintro -
        rw [Option.bind_none, hnil]
        exact ⟨rfl, nofun, fun _ => ⟨hread, rfl⟩, fun _ => rfl⟩
    | some v =>
      -- with one they push the same value where it nests itself, and where the stack has room
      rw [Option.bind_some]
      constructor
      · rintro ⟨hsame, hroom, -⟩ - w hw
        rw [← Option.some.inj hw]
        exact (returnDoc_value_iff more id v).mp ⟨hsame, hroom⟩
      · intro hnested
        have hboth := hnested hread v rfl
        obtain ⟨hsame, hroom⟩ := (returnDoc_value_iff more id v).mpr hboth
        refine ⟨hsame, hroom, fun hnil => ?_, fun h => nomatch h.2⟩
        have hv : returnDoc more id (some v) = .pushed (pushDocWithId id (some v)) :=
          if_pos hboth.2.1
        rw [hsame, hv] at hnil
        exact absurd (Returned.pushed.inj hnil) (pushDocWithId_ne_nil id v)
  · -- it is refused either way
    have hrefused : ∀ ctx : ReadFrom D, luaStdGet s ctx more partition keyspace id =
        .raised (cstr "permission denied reading '" ++ partition ++ cstr "'") :=
      fun ctx => if_neg hread
    rw [SeesSame, hrefused, hrefused]
    constructor
    · rintro - h
      exact absurd h hread
    · rintro -
      exact ⟨rfl, nofun, nofun, fun h => absurd h.1 hread⟩

end Replicated

/-- A record without a member `value`. -/
def plainRecord : Json Int := .obj [(cstr "a", .num 1)]

/-- Two peers and the reader hold it. -/
def plainAnswers : GetAnswers (Json Int) where
  holders := 3
  replies := [some ⟨some 5, some plainRecord⟩, some ⟨some 5, some plainRecord⟩]
  selfHolder := true
  own := some (plainRecord, 5)
  own_holder := fun _ => rfl
  replies_le := by decide
  responses_le := by decide

/-- The texts of the copies. -/
def plainDocuments : Documents (Json Int) CString :=
  (tableCodec [plainRecord] (by decide)).documents Json.text

theorem plain_record_hidden :
    plainAnswers.result plainDocuments = some plainRecord ∧
      ¬ SeesSame plainDocuments (fun _ _ _ => plainAnswers) ⟨true, 0, fun _ => none⟩ 0
        (cstr "p") (cstr "k") (cstr "r") := by
  have hresult : plainAnswers.result plainDocuments = some plainRecord := rfl
  refine ⟨hresult, fun h => ?_⟩
  have hnil : luaStdGet ⟨true, 0, fun _ => none⟩
      (onCluster plainDocuments fun _ _ _ => plainAnswers) 0 (cstr "p") (cstr "k") (cstr "r") =
        .pushed .nil := by
    show returnDoc 0 (cstr "r") ((plainAnswers.result plainDocuments).bind
      fun row => row.get (cstr "value")) = .pushed .nil
    rw [hresult]
    rfl
  have habsent := (h.2.2.mp hnil).2
  rw [hresult] at habsent
  cases habsent

/-! ## Records that hide -/

/-- What is found under `value`, so many times in a row. -/
def nestedValue : Nat → Json D → Option (Json D)
  | 0, v => some v
  | n + 1, v => (entry v (.string (cstr "value"))).bind (nestedValue n)

omit [Doubles D] in
/-- What has an entry is a container. -/
theorem isContainer_of_entry {v w : Json D} {key : Key} (h : entry v key = some w) :
    v.isContainer = true := by
  cases v with
  | arr xs => rfl
  | obj ms => rfl
  | null | bool _ | num _ | str _ => cases h

omit [Doubles D] in
/-- A value that is like its entry `value` has it nested down to the level. -/
theorem Alike.nestedValue {n : Nat} : ∀ {v w : Json D}, Alike n v w →
    entry v (.string (cstr "value")) = some w → ∀ k ≤ n, (nestedValue k v).isSome = true := by
  induction n with
  | zero =>
    intro v w _ _ k hk
    rw [Nat.le_zero.mp hk]
    rfl
  | succ n ih =>
    intro v w halike hvalue k hk
    obtain _ | k := k
    · rfl
    · rw [Lua.nestedValue, hvalue, Option.bind_some]
      have hk : k ≤ n := Nat.le_of_succ_le_succ hk
      rw [Alike] at halike
      split at halike
      · rcases halike with rfl | hrel
        · rw [Nat.le_zero.mp hk]
          rfl
        · -- the entry of `w` is like the one of `v`, which is `w`
          have hnext := hrel (.string (cstr "value"))
          rw [hvalue] at hnext
          rcases hw : entry w (.string (cstr "value")) with _ | x
          · rw [hw] at hnext
            cases hnext
          · rw [hw] at hnext
            cases hnext with
            | some hwx => exact ih hwx hw k hk
      · next hne =>
        have hv := isContainer_of_entry hvalue
        subst halike
        exact absurd ⟨hv, hv⟩ hne

omit [Doubles D] in
/-- A member whose name is the only one of its kind is the entry. -/
theorem entry_eq_get {v : Json D} (hnodup : (v.members.map Prod.fst).Nodup) (name : CString) :
    entry v (.string name) = v.get name := by
  cases v with
  | obj ms =>
    show ms.reverse.lookup name = ms.lookup name
    induction ms with
    | nil => rfl
    | cons m ms ih =>
      obtain ⟨k, w⟩ := m
      obtain ⟨hk, hnodup⟩ := List.nodup_cons.mp hnodup
      rw [List.reverse_cons, List.lookup_append, ih hnodup, List.lookup_cons]
      by_cases hname : name = k
      · subst hname
        have hnone : ms.lookup name = none := Json.get_eq_none (v := .obj ms).mpr hk
        rw [hnone]
        simp
      · have hbeq : (name == k) = false := beq_eq_false_iff_ne.mpr hname
        simp [List.lookup_cons, hbeq]
  | null | bool _ | num _ | str _ | arr _ => rfl

omit [Doubles D] in
/-- **A record with distinct names** that is nested in itself is so deeper than a script can
see. -/
theorem SelfNested.nested {v : Json D} (h : SelfNested v)
    (hnodup : (v.members.map Prod.fst).Nodup) :
    ∀ k ≤ maxDepth + 1, (nestedValue k v).isSome = true := by
  intro k hk
  obtain _ | k := k
  · rfl
  · obtain ⟨w, hvalue, -, hrel⟩ := h
    rw [← entry_eq_get hnodup] at hvalue
    rw [nestedValue, hvalue, Option.bind_some]
    have hnext := hrel (.string (cstr "value")) (by decide)
    rw [hvalue] at hnext
    rcases hw : entry w (.string (cstr "value")) with _ | x
    · rw [hw] at hnext
      cases hnext
    · rw [hw] at hnext
      cases hnext with
      | some hwx => exact hwx.nestedValue hw k (Nat.le_of_succ_le_succ hk)

end Lua

end EpsilonDB
