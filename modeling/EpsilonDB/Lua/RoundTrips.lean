import EpsilonDB.Engine.CJson
import EpsilonDB.Lua.Conversions
import EpsilonDB.Lua.Entities

/-!
# From a document to Lua and back (`lua/epsilon_lua.c`)

A handler that returns its entity as it was handed it leaves it to the conversions what is
written back. "Unchanged entities serialize identically", says the comment on `push_json`.

- `Holds`: the value in the tables of a Lua state that is what has been pushed.
- `Json.Same`: documents that are equal up to the order of the members.
- `EntriesOf`: a table with the entries of a container, in whatever order.
- `Reversible`: no object is empty or has a name twice, no array is too long for its keys, and
  the stack has room for all of them.
- `table_same_iff`, `luaToJson_same_iff`: the document of the table is the same exactly then.
- `returned_same_iff`: the entity, but for its key `id`.
-/

namespace EpsilonDB

/-! ## Documents up to order -/

section Same

variable {D : Type}

mutual

/-- The same types, keys and values. The members of an object are in whatever order. -/
def Json.Same : Json D → Json D → Prop
  | .null, w => w = .null
  | .bool b, w => w = .bool b
  | .num d, w => w = .num d
  | .str s, w => w = .str s
  | .arr xs, w => ∃ ys, w = .arr ys ∧ Json.SameItems xs ys
  | .obj ms, w => ∃ ns ns', w = .obj ns ∧ ns'.Perm ns ∧ Json.SameMembers ms ns'

def Json.SameItems : List (Json D) → List (Json D) → Prop
  | [], ys => ys = []
  | x :: xs, ys => ∃ y ys', ys = y :: ys' ∧ x.Same y ∧ Json.SameItems xs ys'

def Json.SameMembers : List (CString × Json D) → List (CString × Json D) → Prop
  | [], ns => ns = []
  | m :: ms, ns => ∃ n ns', ns = n :: ns' ∧ Json.SameMember m n ∧ Json.SameMembers ms ns'

def Json.SameMember : CString × Json D → CString × Json D → Prop
  | (name, v), n => name = n.1 ∧ v.Same n.2

end

variable {xs ys : List (Json D)} {ms ns : List (CString × Json D)}

theorem Json.sameItems_iff : Json.SameItems xs ys ↔ List.Forall₂ Json.Same xs ys := by
  induction xs generalizing ys with
  | nil => rw [Json.SameItems, List.forall₂_nil_left_iff]
  | cons x xs ih =>
    rw [Json.SameItems, List.forall₂_cons_left_iff]
    simp only [ih]
    exact exists₂_congr fun y ys' => ⟨fun ⟨heq, hy, hys⟩ => ⟨hy, hys, heq⟩,
      fun ⟨hy, hys, heq⟩ => ⟨heq, hy, hys⟩⟩

theorem Json.sameMembers_iff :
    Json.SameMembers ms ns ↔ List.Forall₂ (fun m n => m.1 = n.1 ∧ m.2.Same n.2) ms ns := by
  induction ms generalizing ns with
  | nil => rw [Json.SameMembers, List.forall₂_nil_left_iff]
  | cons m ms ih =>
    have hmember : ∀ n, Json.SameMember m n ↔ m.1 = n.1 ∧ m.2.Same n.2 := by
      intro n
      rw [Json.SameMember]
    rw [Json.SameMembers, List.forall₂_cons_left_iff]
    simp only [ih, hmember]
    exact exists₂_congr fun n ns' => ⟨fun ⟨heq, hn, hns⟩ => ⟨hn, hns, heq⟩,
      fun ⟨hn, hns, heq⟩ => ⟨heq, hn, hns⟩⟩

theorem Json.same_arr_iff : (Json.arr xs).Same (.arr ys) ↔ List.Forall₂ Json.Same xs ys := by
  simp [Json.Same, Json.sameItems_iff]

theorem Json.same_obj_iff :
    (Json.obj ms).Same (.obj ns) ↔
      ∃ ns', ns'.Perm ns ∧ List.Forall₂ (fun m n => m.1 = n.1 ∧ m.2.Same n.2) ms ns' := by
  simp [Json.Same, Json.sameMembers_iff]

end Same

namespace Lua

open Pairings

variable {D : Type} [Doubles D]

/-! ## Tables that hold what was pushed -/

/-- A key in a table. -/
def Key.value : Key → LuaValue D
  | .integer i => .integer i
  | .string s => .string s

/-- `lua_rawget`. -/
def rawget (nodes : List (Node D)) (key : LuaValue D) : LuaValue D :=
  ((nodes.find? fun e => e.1 = key).map Prod.snd).getD .nil

/-- A table with nothing but what it holds under each key. -/
structure TableHolds (holds : Key → LuaValue D → Prop) (nodes : List (Node D)) : Prop where
  nodup : (nodes.map Prod.fst).Nodup
  keys : ∀ e ∈ live nodes, ∃ key : Key, e.1 = key.value
  fields : ∀ key : Key, holds key (rawget nodes key.value)

/-- The value is what was pushed. -/
def Holds (heap : Heap D) : Pushed D → LuaValue D → Prop
  | .nil, v => v = .nil
  | .null, v => ∃ p, v = .lightuserdata p
  | .boolean b, v => v = .boolean b
  | .integer i, v => v = .integer i
  | .float d, v => v = .float d
  | .string s, v => v = .string s
  | .table field, v =>
    ∃ r, v = .table r ∧ TableHolds (fun key v => Holds heap (field key) v) (heap r)

/-- The entries of the table are those of the container. -/
structure EntriesOf (holds : Json D → LuaValue D → Prop) (j : Json D) (nodes : List (Node D)) :
    Prop where
  nodup : (nodes.map Prod.fst).Nodup
  entry_of_live : ∀ e ∈ live nodes, ∃ key w, e.1 = key.value ∧ entry j key = some w ∧ holds w e.2
  live_of_entry : ∀ key w, entry j key = some w → ∃ v, (key.value, v) ∈ live nodes ∧ holds w v

variable {nodes : List (Node D)} {e : Node D} {heap : Heap D} {j w : Json D}

omit [Doubles D] in
theorem Key.value_inj {key key' : Key} (h : key.value (D := D) = key'.value) : key = key' := by
  cases key with
  | integer i =>
    cases key' with
    | integer i' => exact congrArg Key.integer (Int.ofNat_inj.mp (LuaValue.integer.inj h))
    | string s' => cases h
  | string s =>
    cases key' with
    | integer i' => cases h
    | string s' => exact congrArg Key.string (LuaValue.string.inj h)

theorem rawget_of_mem (hnodup : (nodes.map Prod.fst).Nodup) (h : e ∈ nodes) :
    rawget nodes e.1 = e.2 := by
  rw [rawget, Keys.find?_of_nodup hnodup h rfl]
  rfl

theorem mem_live_of_rawget {key : LuaValue D} (h : rawget nodes key ≠ .nil) :
    (key, rawget nodes key) ∈ live nodes := by
  unfold rawget at h ⊢
  cases hfind : nodes.find? fun e => e.1 = key with
  | none =>
    rw [hfind] at h
    exact absurd rfl h
  | some e =>
    rw [hfind] at h
    have hkey : e.1 = key := by simpa using List.find?_some hfind
    exact List.mem_filter.mpr ⟨hkey ▸ List.mem_of_find?_eq_some hfind, by simpa using h⟩

/-- Only `nil` is held by `nil`. -/
theorem holds_nil_iff {p : Pushed D} : Holds heap p .nil ↔ p = .nil := by
  cases p <;> simp [Holds]

/-- **The table of a container** has its entries. -/
theorem entriesOf_of_holds {n r : Nat} (hj : j.isContainer = true)
    (h : Holds heap (pushJson (n + 2) j) (.table r)) :
    EntriesOf (fun w v => Holds heap (pushJson (n + 1) w) v) j (heap r) := by
  rw [pushJson_container hj] at h
  obtain ⟨r', hr, htable⟩ := h
  obtain rfl := LuaValue.table.inj hr
  have hfields : ∀ key, Holds heap (((entry j key).map (pushJson (n + 1))).getD .nil)
      (rawget (heap r) key.value) := htable.fields
  refine ⟨htable.nodup, fun e he => ?_, fun key w hentry => ?_⟩
  · obtain ⟨key, hkey⟩ := htable.keys e he
    have hfield := hfields key
    rw [← hkey, rawget_of_mem htable.nodup (mem_of_mem_live he)] at hfield
    cases hentry : entry j key with
    | none =>
      rw [hentry] at hfield
      have hnil : e.2 = .nil := hfield
      exact absurd hnil (by simpa using (List.mem_filter.mp he).2)
    | some w =>
      rw [hentry] at hfield
      exact ⟨key, w, hkey, hentry, hfield⟩
  · have hfield := hfields key
    rw [hentry] at hfield
    refine ⟨_, mem_live_of_rawget fun hnil => ?_, hfield⟩
    rw [hnil] at hfield
    exact pushJson_ne_nil n w (holds_nil_iff.mp hfield)

/-! ## One table -/

/-- A container that its table becomes again, where its entries are such values. -/
def ReversibleTable (reversible : Json D → Prop) : Json D → Prop
  | .arr xs => (xs.length : Int) ≤ maxArrayKey ∧ ∀ x ∈ xs, reversible x
  | .obj ms => ms ≠ [] ∧ (ms.map Prod.fst).Nodup ∧ ∀ m ∈ ms, reversible m.2
  | _ => True

/-- The slots that the table of a value needs. -/
def Json.tableSlots : Json D → Nat
  | .arr [] | .obj [] => 1
  | .arr _ | .obj _ => 2
  | _ => 0

/-- The slots that are taken while a value inside of it is converted. -/
def Json.entrySlots : Json D → Nat
  | .arr _ => 1
  | .obj _ => 2
  | _ => 0

/-- A value that comes back as it was, within so many levels and so much room: an object takes
two slots from what is in it, an array takes one. -/
def Reversible : Nat → Room → Json D → Prop
  | 0, _, _ => False
  | n + 1, room, j =>
    Json.tableSlots j ≤ room.slots ∧ ReversibleTable (Reversible n (room.less (Json.entrySlots j))) j

variable {floatText : D → CString} {convert : LuaValue D → Conversion D} {room : Room}
variable {holds : Json D → LuaValue D → Prop} {reversible : Json D → Prop}
variable {xs : List (Json D)} {ms : List (CString × Json D)}

omit [Doubles D] in
theorem entry_arr_eq_some_iff {key : Key} :
    entry (.arr xs) key = some w ↔ ∃ i, key = .integer (i + 1) ∧ xs[i]? = some w := by
  cases key with
  | integer i =>
    cases i with
    | zero => simp [entry]
    | succ i => simp [entry]
  | string name => simp [entry]

omit [Doubles D] in
theorem entry_obj_eq_some_iff {key : Key} :
    entry (.obj ms) key = some w ↔ ∃ name, key = .string name ∧ ms.reverse.lookup name = some w := by
  cases key with
  | integer i => simp [entry]
  | string name => simp [entry]

/-- The item of an array under its key. -/
theorem rawgeti_of_item (h : EntriesOf holds (.arr xs) nodes) (i : Nat) (w : Json D)
    (hw : xs[i]? = some w) :
    (.integer (i + 1), rawgeti nodes (i + 1)) ∈ live nodes ∧ holds w (rawgeti nodes (i + 1)) := by
  obtain ⟨v, hv, hholds⟩ := h.live_of_entry _ w (entry_arr_eq_some_iff.mpr ⟨i, rfl, hw⟩)
  have hget : rawgeti nodes (i + 1) = v := rawgeti_of_mem h.nodup (mem_of_mem_live hv)
  rw [hget]
  exact ⟨hv, hholds⟩

/-- The size of the table of an array, where its keys are those of an array. -/
theorem arraySize_of_array (h : EntriesOf holds (.arr xs) nodes)
    (hlength : (xs.length : Int) ≤ maxArrayKey) : arraySize nodes = some xs.length := by
  refine arraySize_eq_some_iff.mpr ⟨fun e he => ?_, ?_⟩
  · obtain ⟨key, w, hkey, hentry, -⟩ := h.entry_of_live e he
    obtain ⟨i, rfl, hw⟩ := entry_arr_eq_some_iff.mp hentry
    have hlt := (List.getElem?_eq_some_iff.mp hw).1
    exact ⟨i + 1, hlt, arrayKey_eq_some_iff.mpr ⟨by omega, by omega, hkey⟩⟩
  · rcases Nat.eq_zero_or_pos xs.length with hzero | hpos
    · exact Or.inl hzero
    · have hlast := (rawgeti_of_item h (xs.length - 1) _ (List.getElem?_eq_getElem (by omega))).1
      refine Or.inr ⟨_, hlast, arrayKey_eq_some_iff.mpr ⟨hpos, hlength, ?_⟩⟩
      exact congrArg LuaValue.integer (by omega)

/-- **An array** is the same array again exactly when its keys are those of an array. -/
theorem array_same_iff (h : EntriesOf holds (.arr xs) nodes)
    (hvalue : ∀ v, ∀ w ∈ xs, holds w v →
      ((∃ doc, convert v = .doc doc ∧ doc.Same w) ↔ reversible w)) :
    (∃ doc, tableToJson floatText convert room nodes = .doc doc ∧ doc.Same (.arr xs)) ↔
      ReversibleTable reversible (.arr xs) := by
  have hitem := rawgeti_of_item h
  by_cases hlength : (xs.length : Int) ≤ maxArrayKey
  · have hsize := arraySize_of_array h hlength
    -- the table is taken for an array, and its items are converted one by one
    have hpairs : List.Forall₂ (fun i x => holds x (rawgeti nodes (i + 1)))
        (List.range xs.length) xs :=
      forall₂_range_iff.mpr ⟨rfl, fun i x hx => (hitem i x hx).2⟩
    rw [ReversibleTable, and_iff_right hlength,
      ← forall₂_iff_right hpairs fun _ x hx hholds => hvalue _ x hx hholds,
      ← exists_forall₂_comp, tableToJson, hsize]
    constructor
    · rintro ⟨doc, hdoc, hsame⟩
      obtain ⟨items, hitems, rfl⟩ := convertItems_eq_doc_iff.mp hdoc
      exact ⟨items, List.forall₂_map_left_iff.mp hitems, Json.same_arr_iff.mp hsame⟩
    · rintro ⟨items, hitems, hsame⟩
      exact ⟨.arr items, convertItems_eq_doc_iff.mpr
        ⟨items, List.forall₂_map_left_iff.mpr hitems, rfl⟩, Json.same_arr_iff.mpr hsame⟩
  · -- the keys go further than those of an array: what comes back is no array
    have hsize : arraySize nodes = none := by
      by_contra hsome
      obtain ⟨size, hsize⟩ := Option.ne_none_iff_exists'.mp hsome
      have hlast := (hitem (xs.length - 1) _
        (List.getElem?_eq_getElem (by unfold maxArrayKey at hlength; omega))).1
      obtain ⟨k, -, hk⟩ := (arraySize_eq_some_iff.mp hsize).1 _ hlast
      obtain ⟨-, hmax, hkey⟩ := arrayKey_eq_some_iff.mp hk
      have heq := LuaValue.integer.inj hkey
      unfold maxArrayKey at hlength hmax
      omega
    refine iff_of_false ?_ fun hreversible => hlength hreversible.1
    rintro ⟨doc, hdoc, hsame⟩
    rw [tableToJson, hsize] at hdoc
    obtain ⟨_, members, -, -, rfl⟩ := objectLoop_eq_doc_iff.mp hdoc
    rw [Json.Same] at hsame
    obtain ⟨_, _, hobj, -⟩ := hsame
    cases hobj

section Objects

variable {ns : List (CString × Json D)}

omit [Doubles D] in
theorem mem_of_lookup_reverse {name : CString} (h : ms.reverse.lookup name = some w) :
    (name, w) ∈ ms :=
  List.mem_reverse.mp (Keys.mem_of_lookup h)

omit [Doubles D] in
theorem lookup_reverse_of_mem {m : CString × Json D} (hnodup : (ms.map Prod.fst).Nodup)
    (hm : m ∈ ms) : ms.reverse.lookup m.1 = some m.2 := by
  have hreverse : (ms.reverse.map Prod.fst).Nodup := by
    rw [List.map_reverse]
    exact List.nodup_reverse.mpr hnodup
  exact Keys.lookup_of_nodup hreverse (List.mem_reverse.mpr hm)

/-- The members under the keys of the table hold what is there. -/
theorem holds_iff_of_key (h : EntriesOf holds (.obj ms) nodes) (hns : ns.Perm ms)
    (hnodup : (ms.map Prod.fst).Nodup) :
    List.Forall₂ (fun e n => e.1 = .string n.1) (live nodes) ns ↔
      List.Forall₂ (fun e n => e.1 = .string n.1 ∧ holds n.2 e.2) (live nodes) ns := by
  refine forall₂_iff_of_mem fun e he n hn => (and_iff_left_of_imp fun hkey => ?_).symm
  obtain ⟨key, w, hvalue, hentry, hholds⟩ := h.entry_of_live e he
  obtain ⟨name, rfl, hw⟩ := entry_obj_eq_some_iff.mp hentry
  obtain rfl := LuaValue.string.inj (hkey.symm.trans hvalue)
  rw [lookup_reverse_of_mem hnodup (hns.mem_iff.mp hn)] at hw
  rwa [Option.some.inj hw]

omit [Doubles D] in
theorem keys_eq_names {es : List (Node D)}
    (h : List.Forall₂ (fun (e : Node D) n => e.1 = .string n.1) es ns) :
    es.map Prod.fst = (ns.map Prod.fst).map LuaValue.string := by
  rw [List.map_map, ← List.forall₂_eq_eq_eq, List.forall₂_map_left_iff, List.forall₂_map_right_iff]
  exact h

/-- The keys of the table, each there once, are the names. -/
theorem nodup_names (h : EntriesOf holds (.obj ms) nodes)
    (hns : List.Forall₂ (fun (e : Node D) n => e.1 = .string n.1) (live nodes) ns) :
    (ns.map Prod.fst).Nodup :=
  .of_map _ (keys_eq_names hns ▸ nodup_live h.nodup)

/-- With each name once, the members are found in the order of the table. -/
theorem exists_members (h : EntriesOf holds (.obj ms) nodes)
    (hnodup : (ms.map Prod.fst).Nodup) :
    ∃ ns, ns.Perm ms ∧ List.Forall₂ (fun e n => e.1 = .string n.1) (live nodes) ns := by
  obtain ⟨ns, hns⟩ : ∃ ns, List.Forall₂
      (fun (e : Node D) n => n ∈ ms ∧ e.1 = .string n.1) (live nodes) ns := by
    refine exists_forall₂ fun e he => ?_
    obtain ⟨key, w, hkey, hentry, -⟩ := h.entry_of_live e he
    obtain ⟨name, rfl, hw⟩ := entry_obj_eq_some_iff.mp hentry
    exact ⟨(name, w), mem_of_lookup_reverse hw, hkey⟩
  have hkeys := hns.imp fun _ _ hn => hn.2
  refine ⟨ns, ?_, hkeys⟩
  rw [List.perm_ext_iff_of_nodup (.of_map _ (nodup_names h hkeys)) (.of_map _ hnodup)]
  intro m
  constructor
  · intro hm
    obtain ⟨_, -, hmem, -⟩ := exists_of_mem_right hns hm
    exact hmem
  · intro hm
    obtain ⟨v, hv, -⟩ := h.live_of_entry (.string m.1) m.2
      (entry_obj_eq_some_iff.mpr ⟨m.1, rfl, lookup_reverse_of_mem hnodup hm⟩)
    obtain ⟨n, hn, hmem, hname⟩ := exists_of_mem_left hns hv
    have heq := List.inj_on_of_nodup_map hnodup hm hmem (LuaValue.string.inj hname)
    exact heq ▸ hn

/-- The object that a table with texts for keys becomes. -/
theorem tableToJson_eq_doc_iff {doc : Json D} (hnodup : (nodes.map Prod.fst).Nodup)
    (hsize : arraySize nodes = none) (hnames : ∀ e ∈ live nodes, IsName e.1) :
    tableToJson floatText convert room nodes = .doc doc ↔
      ∃ members, List.Forall₂ (IsMember floatText convert) (live nodes) members ∧
        doc = .obj members := by
  have hvisits : Visits floatText (fun _ => false) nodes .nil (live nodes) :=
    visits_of_strings hnodup fun e he => (hnames e he).string
  have hall : (live nodes).filter (fun _ => !false) = live nodes := List.filter_true _
  rw [tableToJson, hsize]
  constructor
  · intro hdoc
    obtain ⟨es, members, hes, hmembers, rfl⟩ := objectLoop_eq_doc_iff.mp hdoc
    rw [hes.unique hvisits, hall] at hmembers
    exact ⟨members, hmembers, rfl⟩
  · rintro ⟨members, hmembers, rfl⟩
    exact objectLoop_eq_doc_iff.mpr ⟨live nodes, members, hvisits, by rwa [hall], rfl⟩

/-- An object that is the same is one with the members in the order of the table. -/
theorem object_same_iff_members (hnodup : (nodes.map Prod.fst).Nodup)
    (hsize : arraySize nodes = none) (hnames : ∀ e ∈ live nodes, IsName e.1) :
    (∃ doc, tableToJson floatText convert room nodes = .doc doc ∧ doc.Same (.obj ms)) ↔
      ∃ ns, ns.Perm ms ∧ List.Forall₂ (fun e n => e.1 = .string n.1 ∧
        ∃ doc, convert e.2 = .doc doc ∧ doc.Same n.2) (live nodes) ns := by
  have hmember : ∀ e ∈ live nodes, ∀ n : CString × Json D,
      (∃ m, IsMember floatText convert e m ∧ m.1 = n.1 ∧ m.2.Same n.2) ↔
        e.1 = .string n.1 ∧ ∃ doc, convert e.2 = .doc doc ∧ doc.Same n.2 := by
    intro e he n
    obtain ⟨text, htext, hnul⟩ := hnames e he
    have hname : ∀ m, IsMember floatText convert e m ↔ convert e.2 = .doc m.2 ∧ m.1 = text := by
      intro m
      rw [IsMember, htext]
      simp [keyText, cString, takeWhile_of_nul_not_mem hnul]
    simp only [hname, htext, LuaValue.string.injEq]
    constructor
    · rintro ⟨m, ⟨hdoc, rfl⟩, hn, hsame⟩
      exact ⟨hn, m.2, hdoc, hsame⟩
    · rintro ⟨hn, doc, hdoc, hsame⟩
      exact ⟨(text, doc), ⟨hdoc, rfl⟩, hn, hsame⟩
  constructor
  · rintro ⟨doc, hdoc, hsame⟩
    obtain ⟨members, hmembers, rfl⟩ := (tableToJson_eq_doc_iff hnodup hsize hnames).mp hdoc
    obtain ⟨ns, hperm, hpairs⟩ := Json.same_obj_iff.mp hsame
    refine ⟨ns, hperm, (forall₂_iff_of_mem fun e he n _ => hmember e he n).mp ?_⟩
    exact exists_forall₂_comp.mp ⟨members, hmembers, hpairs⟩
  · rintro ⟨ns, hperm, hns⟩
    obtain ⟨members, hmembers, hpairs⟩ := exists_forall₂_comp.mpr
      ((forall₂_iff_of_mem fun e he n _ => hmember e he n).mpr hns)
    exact ⟨.obj members, (tableToJson_eq_doc_iff hnodup hsize hnames).mpr ⟨members, hmembers, rfl⟩,
      Json.same_obj_iff.mpr ⟨ns, hperm, hpairs⟩⟩

/-- The keys of the table of an object are its names. -/
theorem isName_of_object (h : EntriesOf holds (.obj ms) nodes) (hnul : ∀ m ∈ ms, 0 ∉ m.1) :
    ∀ e ∈ live nodes, IsName e.1 := by
  intro e he
  obtain ⟨key, w, hkey, hentry, -⟩ := h.entry_of_live e he
  obtain ⟨name, rfl, hw⟩ := entry_obj_eq_some_iff.mp hentry
  exact ⟨name, hkey, hnul _ (mem_of_lookup_reverse hw)⟩

/-- Each name of an object is a key of its table. -/
theorem exists_live_of_member (h : EntriesOf holds (.obj ms) nodes) {m : CString × Json D}
    (hm : m ∈ ms) : ∃ v, (.string m.1, v) ∈ live nodes := by
  obtain ⟨w, hw⟩ : ∃ w, ms.reverse.lookup m.1 = some w :=
    Keys.exists_lookup (List.mem_reverse.mpr hm)
  obtain ⟨v, hv, -⟩ := h.live_of_entry (.string m.1) w
    (entry_obj_eq_some_iff.mpr ⟨m.1, rfl, hw⟩)
  exact ⟨v, hv⟩

/-- The table of an object with members is no array. -/
theorem arraySize_of_object (h : EntriesOf holds (.obj ms) nodes) (hnul : ∀ m ∈ ms, 0 ∉ m.1)
    (hne : ms ≠ []) : arraySize nodes = none := by
  by_contra hsome
  obtain ⟨size, hsize⟩ := Option.ne_none_iff_exists'.mp hsome
  obtain ⟨m, hm⟩ := List.exists_mem_of_ne_nil ms hne
  obtain ⟨v, hv⟩ := exists_live_of_member h hm
  rw [(arraySize_of_strings hsize fun e he => (isName_of_object h hnul e he).string).1] at hv
  cases hv

/-- **An object** is the same object again exactly when it has members, each name once. -/
theorem object_same_iff (h : EntriesOf holds (.obj ms) nodes) (hnul : ∀ m ∈ ms, 0 ∉ m.1)
    (hvalue : ∀ v, ∀ m ∈ ms, holds m.2 v →
      ((∃ doc, convert v = .doc doc ∧ doc.Same m.2) ↔ reversible m.2)) :
    (∃ doc, tableToJson floatText convert room nodes = .doc doc ∧ doc.Same (.obj ms)) ↔
      ReversibleTable reversible (.obj ms) := by
  have hnames := isName_of_object h hnul
  cases hsize : arraySize nodes with
  | some size =>
    -- a table without entries becomes an array
    refine iff_of_false ?_ ?_
    · rintro ⟨doc, hdoc, hsame⟩
      rw [tableToJson, hsize] at hdoc
      obtain ⟨items, -, rfl⟩ := convertItems_eq_doc_iff.mp hdoc
      rw [Json.Same] at hsame
      obtain ⟨_, harr, -⟩ := hsame
      cases harr
    · rintro ⟨hne, -⟩
      cases hsize.symm.trans (arraySize_of_object h hnul hne)
  | none =>
    have hne : ms ≠ [] := by
      rintro rfl
      have hzero : arraySize nodes = some 0 := by
        refine arraySize_eq_some_iff.mpr ⟨fun e he => ?_, Or.inl rfl⟩
        obtain ⟨key, w, -, hentry, -⟩ := h.entry_of_live e he
        obtain ⟨_, -, hw⟩ := entry_obj_eq_some_iff.mp hentry
        cases hw
      cases hsize.symm.trans hzero
    have hpair : ∀ ns : List (CString × Json D), ns.Perm ms → ∀ (e : Node D), ∀ n ∈ ns,
        e.1 = .string n.1 ∧ holds n.2 e.2 →
          ((e.1 = .string n.1 ∧ ∃ doc, convert e.2 = .doc doc ∧ doc.Same n.2) ↔
            reversible n.2) := by
      rintro ns hperm e n hn ⟨hkey, hholds⟩
      rw [and_iff_right hkey]
      exact hvalue e.2 n (hperm.mem_iff.mp hn) hholds
    rw [object_same_iff_members h.nodup hsize hnames, ReversibleTable, and_iff_right hne]
    constructor
    · rintro ⟨ns, hperm, hns⟩
      have hkeys := hns.imp fun _ _ hn => hn.1
      have hnodup : (ms.map Prod.fst).Nodup :=
        (hperm.map Prod.fst).nodup_iff.mp (nodup_names h hkeys)
      have hpairs := (holds_iff_of_key h hperm hnodup).mp hkeys
      have hvalues := (forall₂_iff_right hpairs (hpair ns hperm)).mp hns
      exact ⟨hnodup, fun m hm => hvalues m (hperm.mem_iff.mpr hm)⟩
    · rintro ⟨hnodup, hvalues⟩
      obtain ⟨ns, hperm, hkeys⟩ := exists_members h hnodup
      have hpairs := (holds_iff_of_key h hperm hnodup).mp hkeys
      refine ⟨ns, hperm, (forall₂_iff_right hpairs (hpair ns hperm)).mpr ?_⟩
      exact fun n hn => hvalues n (hperm.mem_iff.mp hn)

/-- **The table of a container** takes the slots that the container says. -/
theorem tableSlots_of_entries (h : EntriesOf holds j nodes) (hj : j.isContainer = true) :
    tableSlots nodes = Json.tableSlots j := by
  have hempty : live nodes = [] ↔ ∀ key, entry j key = none := by
    constructor
    · intro hlive key
      by_contra hne
      obtain ⟨w, hw⟩ := Option.ne_none_iff_exists'.mp hne
      obtain ⟨v, hv, -⟩ := h.live_of_entry key w hw
      rw [hlive] at hv
      cases hv
    · intro hnone
      refine List.eq_nil_iff_forall_not_mem.mpr fun e he => ?_
      obtain ⟨key, w, -, hw, -⟩ := h.entry_of_live e he
      cases hw.symm.trans (hnone key)
  unfold tableSlots
  cases j with
  | null | bool _ | num _ | str _ => cases hj
  | arr xs =>
    cases xs with
    | nil => exact if_pos (hempty.mpr fun key => by cases key <;> simp [entry])
    | cons x xs =>
      refine if_neg fun hlive => ?_
      cases hempty.mp hlive (.integer 1)
  | obj ms =>
    cases ms with
    | nil => exact if_pos (hempty.mpr fun key => by cases key <;> simp [entry])
    | cons m ms =>
      refine if_neg fun hlive => ?_
      obtain ⟨v, hv⟩ := exists_live_of_member h List.mem_cons_self
      rw [hlive] at hv
      cases hv

theorem entrySlots_of_array (h : EntriesOf holds (.arr xs) nodes)
    (hlength : (xs.length : Int) ≤ maxArrayKey) : entrySlots nodes = 1 := by
  rw [entrySlots, arraySize_of_array h hlength]
  rfl

theorem entrySlots_of_object (h : EntriesOf holds (.obj ms) nodes) (hnul : ∀ m ∈ ms, 0 ∉ m.1)
    (hne : ms ≠ []) : entrySlots nodes = 2 := by
  rw [entrySlots, arraySize_of_object h hnul hne]
  rfl

end Objects

/-! ## Values -/

/-- Texts in a C program end at the first NUL. -/
abbrev NulFree (j : Json D) : Prop := j.All (fun _ => True) fun s => 0 ∉ s

omit [Doubles D] in
theorem nulFree_of_mem (h : NulFree (.arr xs)) : ∀ x ∈ xs, NulFree x := by
  induction xs with
  | nil => exact nofun
  | cons x xs ih => exact List.forall_mem_cons.mpr ⟨h.1, ih h.2⟩

omit [Doubles D] in
theorem nulFree_of_member (h : NulFree (.obj ms)) : ∀ m ∈ ms, 0 ∉ m.1 ∧ NulFree m.2 := by
  induction ms with
  | nil => exact nofun
  | cons m ms ih =>
    obtain ⟨name, v⟩ := m
    exact List.forall_mem_cons.mpr ⟨h.1, ih h.2⟩

/-- **A value comes back** as it was, with levels to spare in the first conversion, exactly when
it is reversible. -/
theorem luaToJson_same_iff {n k : Nat} {v : LuaValue D} (hnul : NulFree j) (hk : n < k)
    (h : Holds heap (pushJson k j) v) :
    (∃ doc, luaToJson floatText heap n room v = .doc doc ∧ doc.Same j) ↔ Reversible n room j := by
  induction n generalizing k room j v with
  | zero => simp [luaToJson, Reversible]
  -- no level is left: both sides are false
  | succ n ih =>
    obtain ⟨k, rfl⟩ : ∃ k', k = k' + 2 := ⟨k - 2, by omega⟩
    cases j with
    | null =>
      -- what has no parts comes back as it is; a number through the type that was pushed for it
      obtain ⟨p, rfl⟩ := h
      simp [luaToJson, Reversible, ReversibleTable, Json.tableSlots, Json.Same]
    | bool b =>
      obtain rfl : v = .boolean b := h
      simp [luaToJson, Reversible, ReversibleTable, Json.tableSlots, Json.Same]
    | num d =>
      rw [pushJson] at h
      split at h
      · next hd =>
        obtain rfl : v = .integer (Doubles.toInt64 d) := h
        simp [luaToJson, Reversible, ReversibleTable, Json.tableSlots, Json.Same, ← hd.2.2]
      · obtain rfl : v = .float d := h
        simp [luaToJson, Reversible, ReversibleTable, Json.tableSlots, Json.Same]
    | str s =>
      obtain rfl : v = .string s := h
      simp [luaToJson, Reversible, ReversibleTable, Json.tableSlots, Json.Same, cString,
        takeWhile_of_nul_not_mem hnul]
    | arr xs =>
      -- a table takes a slot, and its items what is left of the room
      obtain ⟨r, rfl⟩ : ∃ r, v = .table r := by
        obtain ⟨r, hr, -⟩ := h
        exact ⟨r, hr⟩
      have hentries := entriesOf_of_holds rfl h
      have htable : (∃ doc, tableToJson floatText
          (luaToJson floatText heap n (room.less (entrySlots (heap r)))) room (heap r) = .doc doc ∧
            doc.Same (.arr xs)) ↔
              ReversibleTable (Reversible n (room.less (entrySlots (heap r)))) (.arr xs) :=
        array_same_iff hentries fun v w hw hholds =>
          ih (nulFree_of_mem hnul w hw) (by omega) hholds
      have hslots : ReversibleTable (Reversible n (room.less (entrySlots (heap r)))) (.arr xs) ↔
          ReversibleTable (Reversible n (room.less 1)) (.arr xs) := by
        refine and_congr_right fun hlength => ?_
        rw [entrySlots_of_array hentries hlength]
      rw [luaToJson, tableSlots_of_entries hentries rfl, Reversible, Json.entrySlots, ← hslots]
      by_cases hroom : Json.tableSlots (.arr xs) ≤ room.slots
      · simpa [hroom] using htable
      · simp [hroom]
    | obj ms =>
      -- an object takes two slots while its entries are visited
      obtain ⟨r, rfl⟩ : ∃ r, v = .table r := by
        obtain ⟨r, hr, -⟩ := h
        exact ⟨r, hr⟩
      have hmembers := nulFree_of_member hnul
      have hentries := entriesOf_of_holds rfl h
      have htable : (∃ doc, tableToJson floatText
          (luaToJson floatText heap n (room.less (entrySlots (heap r)))) room (heap r) = .doc doc ∧
            doc.Same (.obj ms)) ↔
              ReversibleTable (Reversible n (room.less (entrySlots (heap r)))) (.obj ms) :=
        object_same_iff hentries (fun m hm => (hmembers m hm).1)
          fun v m hm hholds => ih (hmembers m hm).2 (by omega) hholds
      have hslots : ReversibleTable (Reversible n (room.less (entrySlots (heap r)))) (.obj ms) ↔
          ReversibleTable (Reversible n (room.less 2)) (.obj ms) := by
        refine and_congr_right fun hne => ?_
        rw [entrySlots_of_object hentries (fun m hm => (hmembers m hm).1) hne]
      rw [luaToJson, tableSlots_of_entries hentries rfl, Reversible, Json.entrySlots, ← hslots]
      by_cases hroom : Json.tableSlots (.obj ms) ≤ room.slots
      · simpa [hroom] using htable
      · simp [hroom]

/-! ## The entity -/

/-- The members but for the key of the record. -/
def withoutIdMember (ms : List (CString × Json D)) : List (CString × Json D) :=
  ms.filter fun m => m.1 ≠ cstr "id"

/-- A table that is filled has what it is filled with, and each key once. -/
def Fills (layout : List (Node D) → List (Node D)) : Prop :=
  ∀ es, (es.map Prod.fst).Nodup → (∀ e ∈ es, e.2 ≠ .nil) →
    ((layout es).map Prod.fst).Nodup ∧ (live (layout es)).Perm es

omit [Doubles D] in
theorem lookup_withoutIdMember {name : CString} :
    (withoutIdMember ms).reverse.lookup name = some w ↔
      name ≠ cstr "id" ∧ ms.reverse.lookup name = some w := by
  rw [withoutIdMember, ← List.filter_reverse]
  induction ms.reverse with
  | nil => simp
  | cons m l ih =>
    by_cases hm : m.1 = cstr "id"
    · rw [List.filter_cons_of_neg (by simpa using hm), ih, List.lookup_cons]
      refine and_congr_right fun hname => ?_
      rw [beq_eq_false_iff_ne.mpr (hm ▸ hname)]
    · rw [List.filter_cons_of_pos (by simpa using hm), List.lookup_cons, List.lookup_cons]
      cases hname : name == m.1 with
      | true =>
        rw [eq_of_beq hname]
        exact (and_iff_right hm).symm
      | false => exact ih

/-- **The scratch table** has the entries of the entity but for that of the key. -/
theorem entriesOf_scratchTable {layout : List (Node D) → List (Node D)} (hlayout : Fills layout)
    (hnul : ∀ m ∈ ms, 0 ∉ m.1) (h : EntriesOf holds (.obj ms) nodes) :
    EntriesOf holds (.obj (withoutIdMember ms)) (scratchTable layout nodes) := by
  have hentries : ∀ e ∈ (live nodes).filter (fun e => !isId e.1), e.2 ≠ .nil := by
    intro e he
    simpa using (List.mem_filter.mp (List.mem_of_mem_filter he)).2
  obtain ⟨hnodup, hperm⟩ := hlayout ((live nodes).filter fun e => !isId e.1)
    ((nodup_live h.nodup).sublist (List.filter_sublist.map Prod.fst)) hentries
  have hlive : ∀ e, e ∈ live (scratchTable layout nodes) ↔ e ∈ live nodes ∧ isId e.1 = false := by
    intro e
    rw [scratchTable, hperm.mem_iff, List.mem_filter, Bool.not_eq_true']
  refine ⟨hnodup, fun e he => ?_, fun key w hentry => ?_⟩
  · obtain ⟨hmem, hid⟩ := (hlive e).mp he
    obtain ⟨key, w, hkey, hentry, hholds⟩ := h.entry_of_live e hmem
    obtain ⟨name, rfl, hw⟩ := entry_obj_eq_some_iff.mp hentry
    refine ⟨.string name, w, hkey, entry_obj_eq_some_iff.mpr ⟨name, rfl, ?_⟩, hholds⟩
    refine lookup_withoutIdMember.mpr ⟨?_, hw⟩
    rintro rfl
    rw [hkey] at hid
    cases hid
  · obtain ⟨name, rfl, hw⟩ := entry_obj_eq_some_iff.mp hentry
    obtain ⟨hname, hw⟩ := lookup_withoutIdMember.mp hw
    obtain ⟨v, hv, hholds⟩ := h.live_of_entry (.string name) w
      (entry_obj_eq_some_iff.mpr ⟨name, rfl, hw⟩)
    refine ⟨v, (hlive _).mpr ⟨hv, decide_eq_false ?_⟩, hholds⟩
    rwa [cString, takeWhile_of_nul_not_mem (hnul _ (mem_of_lookup_reverse hw))]

/-- An entity with more than its key is copied in five slots. -/
theorem copySlots_of_object (hnul : ∀ m ∈ ms, 0 ∉ m.1) (h : EntriesOf holds (.obj ms) nodes)
    (hne : withoutIdMember ms ≠ []) : copySlots nodes = 5 := by
  obtain ⟨m, hm⟩ := List.exists_mem_of_ne_nil _ hne
  obtain ⟨hmem, hname⟩ := List.mem_filter.mp hm
  obtain ⟨v, hv⟩ := exists_live_of_member h hmem
  have hid : isId (.string m.1 : LuaValue D) = false := by
    rw [isId, cString, takeWhile_of_nul_not_mem (hnul m hmem)]
    simpa using hname
  have hall : ¬ (live nodes).all (fun e => isId e.1) = true := by
    intro hall
    cases hid.symm.trans (List.all_eq_true.mp hall _ hv)
  rw [copySlots, if_neg (List.ne_nil_of_mem hv), if_neg hall]

/-- **An entity that is returned unchanged** is written back as the document it was made from,
without its key `id`, exactly when that is reversible and there is room for its copy. -/
theorem returned_same_iff {layout : List (Node D) → List (Node D)} {r : Nat}
    (hlayout : Fills layout) (hnul : NulFree (.obj ms))
    (h : Holds heap (entityTable ms) (.table r)) (s : Session) (room : Room) :
    (∃ doc, returnedEntityToDoc floatText layout heap s.levels room r = .doc doc ∧
        doc.Same (.obj (withoutIdMember ms))) ↔
      5 ≤ room.slots ∧ Reversible s.levels room (.obj (withoutIdMember ms)) := by
  have hmembers := nulFree_of_member hnul
  have hnames : ∀ m ∈ ms, 0 ∉ m.1 := fun m hm => (hmembers m hm).1
  have hlevels : s.levels ≤ maxDepth + 1 := Nat.sub_le _ _
  have hentries : EntriesOf (fun w v => Holds heap (pushJson (maxDepth + 1) w) v) (.obj ms)
      (heap r) := entriesOf_of_holds rfl h
  unfold returnedEntityToDoc
  -- without a level left nothing is converted
  cases hn : s.levels with
  | zero => split <;> simp [scratchToJson, Reversible]
  | succ n =>
    have hkept : ∀ m ∈ withoutIdMember ms, m ∈ ms := fun m hm => List.mem_of_mem_filter hm
    have hscratch := entriesOf_scratchTable hlayout hnames hentries
    rw [Reversible, ReversibleTable, Json.entrySlots]
    by_cases hne : withoutIdMember ms = []
    · -- there is nothing but the key, and the scratch table becomes an array
      rw [hne] at hscratch ⊢
      refine iff_of_false ?_ fun hreversible => hreversible.2.2.1 rfl
      rintro ⟨doc, hdoc, hsame⟩
      split at hdoc
      · have htable : ReversibleTable (fun _ => True) (.obj ([] : List (CString × Json D))) :=
          (object_same_iff hscratch (by simp) (by simp)).mp
            ⟨doc, nested_eq_doc_iff.mp hdoc, hsame⟩
        exact htable.1 rfl
      · cases hdoc
    · -- the scratch table has the entries without the key, and is converted like an object
      have htable : (∃ doc, tableToJson floatText
          (luaToJson floatText heap n (room.less 2)) room (scratchTable layout (heap r)) =
            .doc doc ∧ doc.Same (.obj (withoutIdMember ms))) ↔
              ReversibleTable (Reversible n (room.less 2)) (.obj (withoutIdMember ms)) :=
        object_same_iff hscratch (fun m hm => hnames m (hkept m hm))
          fun v m hm hholds => luaToJson_same_iff (hmembers m (hkept m hm)).2 (by omega) hholds
      rw [copySlots_of_object hnames hentries hne]
      by_cases hroom : 5 ≤ room.slots
      · have hslots : Json.tableSlots (.obj (withoutIdMember ms)) ≤ room.slots := by
          obtain ⟨m, ms', hms⟩ := List.exists_cons_of_ne_nil hne
          rw [hms]
          exact le_trans (by decide : 2 ≤ 5) hroom
        rw [scratchToJson, entrySlots_of_object hscratch (fun m hm => hnames m (hkept m hm)) hne]
        simpa [hroom, hslots, ReversibleTable] using htable
      · simp [hroom]

theorem fills_id : Fills (id : List (Node D) → List (Node D)) := by
  intro es hnodup hes
  have hlive : live es = es := List.filter_eq_self.mpr fun e he => by simpa using hes e he
  refine ⟨hnodup, ?_⟩
  rw [id_eq, hlive]

/-- A table with a node for each member holds the object. -/
theorem holds_object {n r : Nat} (hnodup : (ms.map Prod.fst).Nodup)
    (h : List.Forall₂ (fun m e => e.1 = .string m.1 ∧ Holds heap (pushJson n m.2) e.2) ms
      (heap r)) :
    Holds heap (pushJson (n + 1) (.obj ms)) (.table r) := by
  have hnodes : ((heap r).map Prod.fst).Nodup := by
    rw [keys_eq_names (h.flip.imp fun _ _ hm => hm.1)]
    exact hnodup.map fun _ _ => LuaValue.string.inj
  rw [pushJson_container rfl]
  refine ⟨r, rfl, hnodes, fun e he => ?_, fun key => ?_⟩
  · obtain ⟨m, -, hkey, -⟩ := exists_of_mem_right h (mem_of_mem_live he)
    exact ⟨.string m.1, hkey⟩
  · show Holds heap (((entry (.obj ms) key).map (pushJson n)).getD .nil) _
    cases hentry : entry (.obj ms) key with
    | none =>
      show rawget (heap r) key.value = .nil
      by_contra hne
      obtain ⟨m, hm, hkey, -⟩ := exists_of_mem_right h (mem_of_mem_live (mem_live_of_rawget hne))
      obtain rfl : key = .string m.1 := Key.value_inj hkey
      cases hentry.symm.trans (lookup_reverse_of_mem hnodup hm)
    | some w =>
      obtain ⟨name, rfl, hw⟩ := entry_obj_eq_some_iff.mp hentry
      obtain ⟨e, he, hkey, hholds⟩ := exists_of_mem_left h (mem_of_lookup_reverse hw)
      show Holds heap (pushJson n w) (rawget (heap r) (.string name))
      rw [← hkey, rawget_of_mem hnodes he]
      exact hholds

/-- A record with its id, and no name yet. -/
def namelessTables : Heap Int :=
  fun _ => [(.string (cstr "id"), .string (cstr "7")), (.string (cstr "name"), .lightuserdata 0)]

theorem nameless_same :
    ∃ doc, returnedEntityToDoc (fun _ => []) id namelessTables (Session.levels {}) ⟨43, false⟩ 0 =
        .doc doc ∧ doc.Same (.obj [(cstr "name", .null)]) := by
  have hholds : Holds namelessTables
      (entityTable [(cstr "id", .str (cstr "7")), (cstr "name", .null)]) (.table 0) :=
    holds_object (by decide) (.cons ⟨rfl, rfl⟩ (.cons ⟨rfl, 0, rfl⟩ .nil))
  have hnul : NulFree (.obj [(cstr "id", .str (cstr "7")), (cstr "name", .null)] : Json Int) :=
    ⟨⟨by decide, (by decide : 0 ∉ cstr "7")⟩, ⟨by decide, trivial⟩, trivial⟩
  exact (returned_same_iff fills_id hnul hholds {} ⟨43, false⟩).mpr
    ⟨by decide, by decide, by decide, by decide,
      List.forall_mem_singleton.mpr ⟨by decide, trivial⟩⟩

/-- A record with an object that has no members. -/
def tagsTables : Heap Int
  | 0 => [(.string (cstr "tags"), .table 1)]
  | _ => []

theorem empty_object_not_same :
    Holds tagsTables (entityTable [(cstr "tags", .obj [])]) (.table 0) ∧
      returnedEntityToDoc (fun _ => []) id tagsTables (Session.levels {}) ⟨43, false⟩ 0 =
        .doc (.obj [(cstr "tags", .arr [])]) ∧
      ¬ ∃ doc, returnedEntityToDoc (fun _ => []) id tagsTables (Session.levels {}) ⟨43, false⟩ 0 =
          .doc doc ∧ doc.Same (.obj [(cstr "tags", .obj [])]) := by
  have hdoc : returnedEntityToDoc (fun _ => []) id tagsTables (Session.levels {}) ⟨43, false⟩ 0 =
      .doc (.obj [(cstr "tags", .arr [])]) := rfl
  refine ⟨?_, hdoc, ?_⟩
  · have hempty : Holds tagsTables (pushJson (maxDepth + 1) (.obj [])) (.table 1) :=
      holds_object .nil .nil
    exact holds_object (by decide) (.cons ⟨rfl, hempty⟩ .nil)
  · rintro ⟨doc, heq, hsame⟩
    obtain rfl := Conversion.doc.inj (hdoc.symm.trans heq)
    simp [Json.same_obj_iff, Json.Same] at hsame

end Lua

end EpsilonDB
