import EpsilonDB.Eql.Envelope
import EpsilonDB.Lib.Keys
import EpsilonDB.Lib.Pairings
import EpsilonDB.Lua.Fire
import EpsilonDB.Lua.Traversal

/-!
# What a table becomes (`lua/epsilon_lua.c`)

A table is an array when its keys are positive integers, and an object otherwise: "object keys
stringify". They do so in their place on the stack, where the traversal goes on from.

- `Compatible`: values of strings, numbers and tables with keys of strings or integers, within
  so many levels.
- `Represents`: a document has the entries of the value, each once and under its own name.
- `tableIsDoc_of_strings`: the tables that a script builds from fields are no trouble.
- `objectLoop_keeps_iff`: an object keeps its entries exactly when their keys are strings, with
  no NUL in them.
- `Lossless`: every table is a sequence or has such keys, and the stack has room for it.
  `luaToJson_represents_iff`.
- `tables_represented_iff`: also for the entity that `put` is given.
-/

namespace EpsilonDB

namespace Lua

open Pairings

variable {D : Type} [Doubles D]

/-! ## Tables and documents -/

/-- The keys of a table are strings and integers, each there once. The traversal finds no key
that is not one of an entry: `lua_next` raises an error at it. -/
structure WellKeyed (nodes : List (Node D)) : Prop where
  nodup : (nodes.map Prod.fst).Nodup
  keys : ∀ e ∈ live nodes, (∃ text, e.1 = .string text) ∨ ∃ i, e.1 = .integer i
  live_of_text : ∀ e ∈ nodes, ∀ i v, (.integer i, v) ∈ live nodes →
    e.1 = .string (cstr (toString i)) → e ∈ live nodes

/-- A value that has a document, with all in it, within so many levels. -/
def Compatible (heap : Heap D) : Nat → LuaValue D → Prop
  | 0, _ => False
  | n + 1, .table r => WellKeyed (heap r) ∧ ∀ e ∈ live (heap r), Compatible heap n e.2
  | _ + 1, .function _ | _ + 1, .userdata _ | _ + 1, .thread _ => False
  | _ + 1, _ => True

section Documents

variable (floatText : D → CString)

/-- The members are the entries, in whatever order. -/
def EntriesAre (represents : LuaValue D → Json D → Prop) (entries : List (Node D))
    (members : List (CString × Json D)) : Prop :=
  ∃ ms, ms.Perm members ∧
    List.Forall₂ (fun e m => keyText floatText e.1 = some m.1 ∧ represents e.2 m.2) entries ms

/-- An array has an item for each entry, an object has a member. -/
def TableRepresents (represents : LuaValue D → Json D → Prop) (nodes : List (Node D)) :
    Json D → Prop
  | .arr items => items.length = (live nodes).length ∧ ∀ e ∈ live nodes, ∃ i : Nat, ∃ item,
      e.1 = .integer (i + 1) ∧ items[i]? = some item ∧ represents e.2 item
  | .obj members => EntriesAre floatText represents (live nodes) members
  | _ => False

/-- The document of a value, with all that is in it, within so many levels. -/
def Represents (heap : Heap D) : Nat → LuaValue D → Json D → Prop
  | 0, _, _ => False
  | n + 1, .table r, doc => TableRepresents floatText (Represents heap n) (heap r) doc
  | _ + 1, .nil, doc | _ + 1, .lightuserdata _, doc => doc = .null
  | _ + 1, .boolean b, doc => doc = .bool b
  | _ + 1, .integer i, doc => doc = .num (Doubles.ofInt64 i)
  | _ + 1, .float d, doc => doc = .num d
  | _ + 1, .string s, doc => doc = .str s
  | _ + 1, .function _, _ | _ + 1, .userdata _, _ | _ + 1, .thread _, _ => False

end Documents

/-- The keys are `1`, `2` and so on, not further than those of an array may go. -/
def IsSequence (nodes : List (Node D)) : Prop :=
  ∃ n : Nat, n ≤ maxArrayKey ∧
    ((live nodes).map Prod.fst).Perm ((List.range n).map fun i : Nat => .integer (i + 1))

/-- A key that is a text, and ends where a C string does. -/
def IsName (key : LuaValue D) : Prop := ∃ text, key = .string text ∧ 0 ∉ text

/-- Every table in the value is a sequence or has names for keys, and no text has a NUL. The
tables that a table lies in leave it the slots that it takes: an object keeps two of them, a
sequence keeps one. -/
def Lossless (heap : Heap D) : Nat → Room → LuaValue D → Prop
  | n + 1, room, .table r =>
    tableSlots (heap r) ≤ room.slots ∧
      (IsSequence (heap r) ∨ ∀ e ∈ live (heap r), IsName e.1) ∧
        ∀ e ∈ live (heap r), Lossless heap n (room.less (entrySlots (heap r))) e.2
  | _, _, .string s => 0 ∉ s
  | _, _, _ => True

/-- The entries but for the key of the record. -/
def withoutId (nodes : List (Node D)) : List (Node D) :=
  (live nodes).filter fun e => !decide (e.1 = .string (cstr "id"))

/-! ## Texts -/

variable {nodes es : List (Node D)} {e : Node D}

theorem zero_notMem_cString (s : Bytes) : 0 ∉ cString s := by
  intro h
  simpa using List.mem_takeWhile_imp h

/-- No number is written `id`. -/
theorem toString_ne_id (i : Int) : cstr (toString i) ≠ cstr "id" := by
  intro h
  obtain ⟨c, t, htext, hhead⟩ := Eql.numberHead_toString i
  obtain rfl : c = 105 := (List.cons.inj (htext.symm.trans h)).1
  revert hhead
  decide

/-! ## Arrays -/

omit [Doubles D] in
theorem arrayKey_eq_some_iff {key : LuaValue D} {k : Nat} :
    arrayKey key = some k ↔ 1 ≤ k ∧ (k : Int) ≤ maxArrayKey ∧ key = .integer k := by
  cases key with
  | integer i =>
    rw [arrayKey, LuaValue.integer.injEq]
    split
    · rw [Option.some.injEq]
      omega
    · refine ⟨nofun, ?_⟩
      omega
  | _ => simp [arrayKey]

omit [Doubles D] in
/-- The first pass, from a size on. -/
theorem foldl_arraySize_iff {size : Nat} (a : Nat) :
    es.foldl (fun size e => size.bind fun n => (arrayKey e.1).map (max n)) (some a) = some size ↔
      a ≤ size ∧ (∀ e ∈ es, ∃ k ≤ size, arrayKey e.1 = some k) ∧
        (size = a ∨ ∃ e ∈ es, arrayKey e.1 = some size) := by
  induction es generalizing a with
  | nil =>
    simp only [List.foldl_nil, Option.some.injEq, List.not_mem_nil]
    grind
  | cons e es ih =>
    rw [List.foldl_cons, List.forall_mem_cons, List.exists_mem_cons_iff]
    cases hk : arrayKey e.1 with
    | none =>
      have hnone : es.foldl (fun size (e : Node D) => size.bind fun n =>
          (arrayKey e.1).map (max n)) none = none := List.foldl_fixed' (fun _ => rfl) es
      simp [hnone]
    | some k =>
      rw [Option.bind_some, Option.map_some, ih, max_le_iff, Option.some.injEq]
      constructor
      · rintro ⟨⟨ha, hle⟩, hall, hsize⟩
        refine ⟨ha, ⟨⟨k, hle, rfl⟩, hall⟩, ?_⟩
        rcases hsize with rfl | hsize
        · rcases le_total a k with h | h
          · exact Or.inr (Or.inl (max_eq_right h).symm)
          · exact Or.inl (max_eq_left h)
        · exact Or.inr (Or.inr hsize)
      · rintro ⟨ha, ⟨⟨k', hle, hk'⟩, hall⟩, hsize⟩
        obtain rfl := Option.some.inj hk'
        refine ⟨⟨ha, hle⟩, hall, ?_⟩
        rcases hsize with rfl | rfl | hsize
        · exact Or.inl (max_eq_left hle).symm
        · exact Or.inl (max_eq_right ha).symm
        · exact Or.inr hsize

/-- The size of an array is its largest key. -/
theorem arraySize_eq_some_iff {size : Nat} :
    arraySize nodes = some size ↔
      (∀ e ∈ live nodes, ∃ k ≤ size, arrayKey e.1 = some k) ∧
        (size = 0 ∨ ∃ e ∈ live nodes, arrayKey e.1 = some size) := by
  rw [arraySize, foldl_arraySize_iff, and_iff_right (Nat.zero_le size)]

variable {floatText : D → CString} {convert : LuaValue D → Conversion D} {room : Room}
variable {represents : LuaValue D → Json D → Prop} {good : LuaValue D → Prop}

omit [Doubles D] in
/-- The items of an array. -/
theorem convertItems_eq_doc_iff {vs : List (LuaValue D)} {acc : List (Json D)} {doc : Json D} :
    convertItems convert vs acc = .doc doc ↔
      ∃ items, List.Forall₂ (fun v item => convert v = .doc item) vs items ∧
        doc = .arr (acc ++ items) := by
  induction vs generalizing acc with
  | nil => simp [convertItems, eq_comm]
  | cons v vs ih =>
    simp only [List.forall₂_cons_left_iff]
    unfold convertItems
    cases hv : convert v with
    | doc item =>
      rw [ih]
      constructor
      · rintro ⟨items, hitems, rfl⟩
        exact ⟨item :: items, ⟨item, items, rfl, hitems, rfl⟩, by simp⟩
      · rintro ⟨_, ⟨item', items, hitem, hitems, rfl⟩, rfl⟩
        obtain rfl := Conversion.doc.inj hitem
        exact ⟨items, hitems, by simp⟩
    | _ => simp

theorem rawgeti_of_mem {i : Nat} {v : LuaValue D} (hnodup : (nodes.map Prod.fst).Nodup)
    (h : (.integer i, v) ∈ nodes) : rawgeti nodes i = v := by
  rw [rawgeti, Keys.find?_of_nodup hnodup h rfl]
  rfl

/-- The size of a sequence is its length. -/
theorem arraySize_of_perm {n : Nat} (hn : (n : Int) ≤ maxArrayKey)
    (hperm : ((live nodes).map Prod.fst).Perm
      ((List.range n).map fun i : Nat => .integer (i + 1))) :
    arraySize nodes = some n := by
  refine arraySize_eq_some_iff.mpr ⟨fun e he => ?_, ?_⟩
  · obtain ⟨i, hi, hkey⟩ := List.mem_map.mp (hperm.mem_iff.mp (List.mem_map_of_mem he))
    have hlt := List.mem_range.mp hi
    exact ⟨i + 1, hlt, arrayKey_eq_some_iff.mpr ⟨by omega, by omega, hkey.symm⟩⟩
  · cases n with
    | zero => exact Or.inl rfl
    | succ i =>
      obtain ⟨e, he, hkey⟩ := List.mem_map.mp (hperm.mem_iff.mpr
        (List.mem_map_of_mem (List.mem_range.mpr (Nat.lt_succ_self i))))
      exact Or.inr ⟨e, he, arrayKey_eq_some_iff.mpr ⟨by omega, hn, hkey⟩⟩

theorem isSequence_iff {size : Nat} (hsize : arraySize nodes = some size) :
    IsSequence nodes ↔
      ((live nodes).map Prod.fst).Perm ((List.range size).map fun i : Nat => .integer (i + 1)) := by
  constructor
  · rintro ⟨n, hn, hperm⟩
    obtain rfl := Option.some.inj (hsize.symm.trans (arraySize_of_perm hn hperm))
    exact hperm
  · intro hperm
    refine ⟨size, ?_, hperm⟩
    rcases (arraySize_eq_some_iff.mp hsize).2 with rfl | ⟨e, -, he⟩
    · decide
    · exact (arrayKey_eq_some_iff.mp he).2.1

/-- A table with texts for keys is an array only when it is empty. -/
theorem arraySize_of_strings {size : Nat} (hsize : arraySize nodes = some size)
    (hkeys : ∀ e ∈ live nodes, ∃ text, e.1 = .string text) : live nodes = [] ∧ size = 0 := by
  obtain ⟨harray, hmax⟩ := arraySize_eq_some_iff.mp hsize
  have hempty : live nodes = [] := by
    refine List.eq_nil_iff_forall_not_mem.mpr fun e he => ?_
    obtain ⟨text, htext⟩ := hkeys e he
    obtain ⟨k, -, hk⟩ := harray e he
    cases htext.symm.trans (arrayKey_eq_some_iff.mp hk).2.2
  refine ⟨hempty, hmax.resolve_right ?_⟩
  rw [hempty]
  exact fun ⟨_, he, _⟩ => List.not_mem_nil he

omit [Doubles D] in
theorem IsName.string {key : LuaValue D} (h : IsName key) : ∃ text, key = .string text :=
  h.imp fun _ h => h.1

theorem nodup_live (h : (nodes.map Prod.fst).Nodup) : ((live nodes).map Prod.fst).Nodup :=
  h.sublist (List.filter_sublist.map Prod.fst)

/-- A table with an item for each entry, and no others, is a sequence. -/
theorem perm_of_items {items : List (Json D)} (hnodup : (nodes.map Prod.fst).Nodup)
    (h : TableRepresents floatText represents nodes (.arr items)) :
    ((live nodes).map Prod.fst).Perm
      ((List.range items.length).map fun i : Nat => .integer (i + 1)) := by
  obtain ⟨hlength, hentries⟩ := h
  refine ((nodup_live hnodup).subperm ?_).perm_of_length_le ?_
  · intro key hkey
    obtain ⟨e, he, rfl⟩ := List.mem_map.mp hkey
    obtain ⟨i, item, hi, hitem, -⟩ := hentries e he
    have hlt := (List.getElem?_eq_some_iff.mp hitem).1
    exact List.mem_map.mpr ⟨i, List.mem_range.mpr hlt, hi.symm⟩
  · rw [List.length_map, List.length_map, List.length_range, hlength]

/-- **An array** is the document of its table exactly when that is a sequence. -/
theorem array_represents_iff {size : Nat} (hkeys : WellKeyed nodes)
    (hsize : arraySize nodes = some size)
    (hgood : ∀ e ∈ live nodes,
      (∃ item, convert e.2 = .doc item ∧ represents e.2 item) ↔ good e.2) :
    (∃ doc, tableToJson floatText convert room nodes = .doc doc ∧
        TableRepresents floatText represents nodes doc) ↔
      IsSequence nodes ∧ ∀ e ∈ live nodes, good e.2 := by
  have hvalue : ∀ e ∈ live nodes, ∀ i : Nat, e.1 = .integer (i + 1) →
      rawgeti nodes (i + 1) = e.2 := by
    rintro ⟨k, v⟩ he i rfl
    exact rawgeti_of_mem hkeys.nodup (mem_of_mem_live he)
  rw [isSequence_iff hsize, tableToJson, hsize]
  constructor
  · rintro ⟨doc, hdoc, hrepresents⟩
    -- one item for each entry, so the keys are those of a sequence
    obtain ⟨items, hitems, rfl⟩ := convertItems_eq_doc_iff.mp hdoc
    rw [List.nil_append] at hrepresents
    obtain ⟨hsizes, hturns⟩ := forall₂_range_iff.mp (List.forall₂_map_left_iff.mp hitems)
    refine ⟨hsizes ▸ perm_of_items hkeys.nodup hrepresents, fun e he => ?_⟩
    obtain ⟨i, item, hi, hitem, hrep⟩ := hrepresents.2 e he
    exact (hgood e he).mp ⟨item, hvalue e he i hi ▸ hturns i item hitem, hrep⟩
  · rintro ⟨hperm, hvalues⟩
    -- every index has an entry, and its value is converted
    obtain ⟨items, hitems⟩ : ∃ items, List.Forall₂
        (fun i item => convert (rawgeti nodes (i + 1)) = .doc item) (List.range size) items := by
      refine exists_forall₂ fun i hi => ?_
      obtain ⟨e, he, hkey⟩ := List.mem_map.mp (hperm.mem_iff.mpr (List.mem_map_of_mem hi))
      obtain ⟨item, hitem, -⟩ := (hgood e he).mpr (hvalues e he)
      exact ⟨item, (hvalue e he i hkey).symm ▸ hitem⟩
    obtain ⟨hsizes, hturns⟩ := forall₂_range_iff.mp hitems
    have hlength := hperm.length_eq
    rw [List.length_map, List.length_map, List.length_range] at hlength
    refine ⟨.arr items, convertItems_eq_doc_iff.mpr
      ⟨items, List.forall₂_map_left_iff.mpr hitems, rfl⟩, hsizes.trans hlength.symm, ?_⟩
    intro e he
    obtain ⟨i, hi, hkey⟩ := List.mem_map.mp (hperm.mem_iff.mp (List.mem_map_of_mem he))
    have hget := List.getElem?_eq_getElem (hsizes.symm ▸ List.mem_range.mp hi : i < items.length)
    obtain ⟨item, hitem, hrep⟩ := (hgood e he).mpr (hvalues e he)
    have hturn := hturns i _ hget
    rw [hvalue e he i hkey.symm, hitem] at hturn
    exact ⟨i, item, hkey.symm, Conversion.doc.inj hturn ▸ hget, hrep⟩

/-! ## Objects -/

/-- **A table whose keys are texts** becomes a document when its values do. -/
theorem tableIsDoc_of_strings (hnodup : (nodes.map Prod.fst).Nodup)
    (hkeys : ∀ e ∈ live nodes, ∃ text, e.1 = .string text)
    (hgood : ∀ e ∈ live nodes, good e.2) : TableIsDoc floatText good nodes := by
  unfold TableIsDoc
  cases hsize : arraySize nodes with
  | some size =>
    obtain ⟨-, rfl⟩ := arraySize_of_strings hsize hkeys
    exact fun i hi => absurd hi (Nat.not_lt_zero i)
  | none =>
    refine (visits_of_strings hnodup hkeys).reached .refl fun e he => ⟨hgood e he, ?_⟩
    obtain ⟨text, htext⟩ := hkeys e he
    rw [htext]
    exact Option.some_ne_none text

/-- The loop leaves out the keys that it is to leave out, and of the others at most some that
are no names. -/
structure LeavesOut (skip out : LuaValue D → Bool) : Prop where
  skips : ∀ key, out key = true → skip key = true
  string : ∀ key, skip key = true → ∃ text, key = .string text
  name : ∀ text, 0 ∉ text → skip (.string text) = true → out (.string text) = true
  number : ∀ i : Int, out (.string (cstr (toString i))) = false

omit [Doubles D] in
theorem leavesOut_none : LeavesOut (D := D) (fun _ => false) fun _ => false :=
  ⟨nofun, nofun, nofun, fun _ => rfl⟩

theorem leavesOut_id :
    LeavesOut isId fun key : LuaValue D => decide (key = .string (cstr "id")) where
  skips := by
    rintro key hkey
    rw [of_decide_eq_true hkey]
    rfl
  string := by
    intro key hkey
    cases key with
    | string text => exact ⟨text, rfl⟩
    | _ => cases hkey
  name := by
    intro text hnul hskip
    have hid : cString text = cstr "id" := of_decide_eq_true hskip
    rw [cString, takeWhile_of_nul_not_mem hnul] at hid
    exact decide_eq_true (congrArg LuaValue.string hid)
  number := fun i => decide_eq_false fun h => toString_ne_id i (LuaValue.string.inj h)

/-- The entries that are to become members. -/
def kept (out : LuaValue D → Bool) (nodes : List (Node D)) : List (Node D) :=
  (live nodes).filter fun e => !out e.1

variable {skip out : LuaValue D → Bool} {members : List (CString × Json D)} {key : LuaValue D}

theorem mem_kept_iff : e ∈ kept out nodes ↔ e ∈ live nodes ∧ out e.1 = false := by
  rw [kept, List.mem_filter, Bool.not_eq_true']

theorem Visits.mem_of_rest (h : Visits floatText skip nodes key es) (hkey : key ≠ .nil) :
    ∃ e ∈ nodes, e.1 = key := by
  have hnext : luaNext nodes key ≠ none := by
    cases h with
    | done h => exact h ▸ Option.some_ne_none _
    | next h _ => exact h ▸ Option.some_ne_none _
  rw [luaNext, if_neg hkey] at hnext
  split at hnext
  · exact absurd rfl hnext
  · next e rest hdrop =>
    have hmem : e ∈ nodes := (List.dropWhile_suffix _).subset (hdrop ▸ List.mem_cons_self)
    have hhead := List.head_dropWhile_not (fun e : Node D => decide (e.1 ≠ key))
      (hdrop ▸ List.cons_ne_nil e rest)
    simp only [hdrop, List.head_cons] at hhead
    exact ⟨e, hmem, by simpa using hhead⟩

/-- With a member for each entry, the loop visits all of them. -/
theorem visited_perm (hout : LeavesOut skip out) (hvisits : Visits floatText skip nodes .nil es)
    (hmembers : List.Forall₂ (IsMember floatText convert) (es.filter fun e => !skip e.1) members)
    (hentries : EntriesAre floatText represents (kept out nodes) members) :
    (es.filter fun e => !skip e.1).Perm (kept out nodes) := by
  refine ((hvisits.nodup.filter _).subperm ?_).perm_of_length_le ?_
  · intro e he
    obtain ⟨hmem, hskip⟩ := List.mem_filter.mp he
    rw [Bool.not_eq_true'] at hskip
    refine mem_kept_iff.mpr ⟨hvisits.subset hmem, ?_⟩
    by_contra h
    rw [hout.skips e.1 (by simpa using h)] at hskip
    cases hskip
  · obtain ⟨ms, hperm, hms⟩ := hentries
    exact (hms.length_eq.trans (hperm.length_eq.trans hmembers.length_eq.symm)).le

/-- **Every key is a text** where the loop visits all entries: after a number it goes on from
its text, as it does after the entry that has this text for a key. -/
theorem string_of_visited (hout : LeavesOut skip out) (hkeys : WellKeyed nodes)
    (hvisits : Visits floatText skip nodes .nil es)
    (hall : ∀ e ∈ kept out nodes, e ∈ es) :
    ∀ e ∈ kept out nodes, ∃ text, e.1 = .string text := by
  intro e he
  obtain ⟨hlive, -⟩ := mem_kept_iff.mp he
  rcases hkeys.keys e hlive with htext | ⟨i, hi⟩
  · exact htext
  · have hskip : skip e.1 = false := by
      by_contra h
      obtain ⟨text, htext⟩ := hout.string e.1 (by simpa using h)
      cases hi.symm.trans htext
    have hnext : nextKey floatText skip e.1 = .string (cstr (toString i)) := by
      rw [nextKey, hskip, hi]
      rfl
    obtain ⟨pre, post, hsplit⟩ := List.append_of_mem (hall e he)
    have hrest := (hsplit ▸ hvisits).rest
    rw [hnext] at hrest
    obtain ⟨q, hq, htext⟩ := hrest.mem_of_rest (fun h => by cases h)
    have hentry : (.integer i, e.2) ∈ live nodes := hi ▸ hlive
    have hqs : q ∈ es := by
      refine hall q (mem_kept_iff.mpr ⟨hkeys.live_of_text q hq i e.2 hentry htext, ?_⟩)
      rw [htext]
      exact hout.number i
    have heq : e = q := by
      refine hvisits.eq_of_nextKey (hall e he) hqs ?_
      rw [hnext, htext, nextKey_string]
    rw [heq, htext] at hi
    cases hi

/-- **An object keeps its entries** exactly when their keys are names. -/
theorem objectLoop_keeps_iff (hout : LeavesOut skip out) (hkeys : WellKeyed nodes)
    (hgood : ∀ e ∈ kept out nodes,
      (∃ item, convert e.2 = .doc item ∧ represents e.2 item) ↔ good e.2) :
    (∃ members, objectLoop floatText convert skip room nodes = .doc (.obj members) ∧
        EntriesAre floatText represents (kept out nodes) members) ↔
      (∀ e ∈ kept out nodes, IsName e.1) ∧ ∀ e ∈ kept out nodes, good e.2 := by
  constructor
  · rintro ⟨members, hdoc, hentries⟩
    obtain ⟨es, members', hvisits, hmembers, heq⟩ := objectLoop_eq_doc_iff.mp hdoc
    obtain rfl := Json.obj.inj heq
    have hperm := visited_perm hout hvisits hmembers hentries
    have hall : ∀ e ∈ kept out nodes, e ∈ es := fun e he =>
      List.mem_of_mem_filter (hperm.mem_iff.mpr he)
    have hstrings := string_of_visited hout hkeys hvisits hall
    obtain ⟨ms, hms, hentries⟩ := hentries
    have hnames : ∀ e ∈ kept out nodes, IsName e.1 := by
      intro e he
      obtain ⟨text, htext⟩ := hstrings e he
      obtain ⟨m, hm, hname, -⟩ := exists_of_mem_left hentries he
      obtain ⟨_, -, -, text', -, hname'⟩ := exists_of_mem_right hmembers (hms.mem_iff.mp hm)
      rw [htext, keyText, Option.some.injEq] at hname
      refine ⟨text, htext, ?_⟩
      rw [hname, hname']
      exact zero_notMem_cString text'
    refine ⟨hnames, fun e he => (hgood e he).mp ?_⟩
    -- the entry that the member of this one was made from has the same key
    obtain ⟨m, hm, hname, hrep⟩ := exists_of_mem_left hentries he
    obtain ⟨e', he', hitem, text', htext', hname'⟩ :=
      exists_of_mem_right hmembers (hms.mem_iff.mp hm)
    have hkept := hperm.mem_iff.mp he'
    obtain ⟨text, htext, hnul⟩ := hnames e' hkept
    obtain ⟨text₁, htext₁, -⟩ := hnames e he
    have hkey : e'.1 = e.1 := by
      rw [htext, keyText, Option.some.injEq] at htext'
      rw [htext₁, keyText, Option.some.injEq, hname', ← htext', cString,
        takeWhile_of_nul_not_mem hnul] at hname
      rw [htext, htext₁, hname]
    have heq := List.inj_on_of_nodup_map (nodup_live hkeys.nodup) (mem_kept_iff.mp hkept).1
      (mem_kept_iff.mp he).1 hkey
    exact ⟨m.2, heq ▸ hitem, hrep⟩
  · rintro ⟨hnames, hvalues⟩
    have hstrings : ∀ e ∈ live nodes, ∃ text, e.1 = .string text := by
      intro e he
      cases hskip : out e.1 with
      | true => exact hout.string e.1 (hout.skips e.1 hskip)
      | false =>
        obtain ⟨text, htext, -⟩ := hnames e (mem_kept_iff.mpr ⟨he, hskip⟩)
        exact ⟨text, htext⟩
    have hvisits : Visits floatText skip nodes .nil (live nodes) :=
      visits_of_strings hkeys.nodup hstrings
    have hkept : (live nodes).filter (fun e => !skip e.1) = kept out nodes := by
      refine List.filter_congr fun e he => congrArg (! ·) ?_
      cases hskip : out e.1 with
      | true => exact hout.skips e.1 hskip
      | false =>
        obtain ⟨text, htext, hnul⟩ := hnames e (mem_kept_iff.mpr ⟨he, hskip⟩)
        by_contra h
        rw [htext] at h hskip
        rw [hout.name text hnul (by simpa using h)] at hskip
        cases hskip
    obtain ⟨members, hmembers⟩ : ∃ members, List.Forall₂
        (fun e m => IsMember floatText convert e m ∧
          keyText floatText e.1 = some m.1 ∧ represents e.2 m.2) (kept out nodes) members := by
      refine exists_forall₂ fun e he => ?_
      obtain ⟨text, htext, hnul⟩ := hnames e he
      obtain ⟨item, hitem, hrep⟩ := (hgood e he).mpr (hvalues e he)
      have hkey : keyText floatText e.1 = some text := by rw [htext, keyText]
      exact ⟨(text, item), ⟨hitem, text, hkey, (takeWhile_of_nul_not_mem hnul).symm⟩, hkey, hrep⟩
    refine ⟨members, objectLoop_eq_doc_iff.mpr ⟨live nodes, members, hvisits, ?_, rfl⟩,
      members, .refl members, hmembers.imp fun _ _ h => h.2⟩
    rw [hkept]
    exact hmembers.imp fun _ _ h => h.1

theorem kept_none : kept (fun _ => false) nodes = live nodes := List.filter_true _

/-- **An object** is the document of its table exactly when the keys are names. -/
theorem object_represents_iff (hkeys : WellKeyed nodes) (hsize : arraySize nodes = none)
    (hgood : ∀ e ∈ live nodes,
      (∃ item, convert e.2 = .doc item ∧ represents e.2 item) ↔ good e.2) :
    (∃ doc, tableToJson floatText convert room nodes = .doc doc ∧
        TableRepresents floatText represents nodes doc) ↔
      (∀ e ∈ live nodes, IsName e.1) ∧ ∀ e ∈ live nodes, good e.2 := by
  have hkeeps : (∃ members, objectLoop floatText convert (fun _ => false) room nodes =
        .doc (.obj members) ∧ EntriesAre floatText represents (live nodes) members) ↔
      (∀ e ∈ live nodes, IsName e.1) ∧ ∀ e ∈ live nodes, good e.2 := by
    rw [← kept_none] at hgood ⊢
    exact objectLoop_keeps_iff leavesOut_none hkeys hgood
  rw [← hkeeps, tableToJson, hsize]
  constructor
  · rintro ⟨doc, hdoc, hrepresents⟩
    obtain ⟨_, members, -, -, rfl⟩ := objectLoop_eq_doc_iff.mp hdoc
    exact ⟨members, hdoc, hrepresents⟩
  · rintro ⟨members, hdoc, hentries⟩
    exact ⟨.obj members, hdoc, hentries⟩

/-- **A table** has a document with all its entries exactly when it is a sequence, or its keys
are names. -/
theorem table_represents_iff (hkeys : WellKeyed nodes)
    (hgood : ∀ e ∈ live nodes,
      (∃ item, convert e.2 = .doc item ∧ represents e.2 item) ↔ good e.2) :
    (∃ doc, tableToJson floatText convert room nodes = .doc doc ∧
        TableRepresents floatText represents nodes doc) ↔
      (IsSequence nodes ∨ ∀ e ∈ live nodes, IsName e.1) ∧ ∀ e ∈ live nodes, good e.2 := by
  cases hsize : arraySize nodes with
  | none =>
    rw [object_represents_iff hkeys hsize hgood]
    refine and_congr_left fun _ => (or_iff_right ?_).symm
    rintro ⟨n, hn, hperm⟩
    cases hsize.symm.trans (arraySize_of_perm hn hperm)
  | some size =>
    rw [array_represents_iff hkeys hsize hgood]
    refine and_congr_left fun _ => (or_iff_left_of_imp fun hnames => ?_).symm
    obtain ⟨hempty, rfl⟩ := arraySize_of_strings hsize fun e he => (hnames e he).string
    rw [isSequence_iff hsize, hempty]
    exact .refl _

/-! ## Values -/

variable {heap : Heap D} {v : LuaValue D} {n : Nat}

/-- **A value** has its document exactly when it is lossless. -/
theorem luaToJson_represents_iff (h : Compatible heap n v) :
    (∃ doc, luaToJson floatText heap n room v = .doc doc ∧ Represents floatText heap n v doc) ↔
      Lossless heap n room v := by
  induction n generalizing room v with
  | zero => exact h.elim
  | succ n ih =>
    cases v with
    | table r =>
      rw [luaToJson, Lossless]
      by_cases hroom : tableSlots (heap r) ≤ room.slots
      · have htable : (∃ doc, tableToJson floatText
            (luaToJson floatText heap n (room.less (entrySlots (heap r)))) room (heap r) =
              .doc doc ∧ TableRepresents floatText (Represents floatText heap n) (heap r) doc) ↔ _ :=
          table_represents_iff h.1 fun e he => ih (h.2 e he)
        simpa [hroom, Represents] using htable
      · simp [hroom]
    | string s =>
      simp only [luaToJson, Represents, Lossless, Conversion.doc.injEq, exists_eq_left',
        Json.str.injEq]
      constructor
      · intro hs
        exact hs ▸ zero_notMem_cString s
      · exact takeWhile_of_nul_not_mem
    | function _ | userdata _ | thread _ => exact h.elim
    | _ => simp [luaToJson, Represents, Lossless]

/-- **Tables become documents with all their entries** exactly where each of them is a sequence
or has names for keys and the stack has room for it, also in an entity that is put. -/
theorem tables_represented_iff (floatText : D → CString) (heap : Heap D) :
    (∀ n room r, Compatible heap n (.table r) →
      ((∃ doc, luaToJson floatText heap n room (.table r) = .doc doc ∧
          Represents floatText heap n (.table r) doc) ↔ Lossless heap n room (.table r))) ∧
    ∀ (s : Session) (room : Room) (entity : Nat), WellKeyed (heap entity) →
      (∀ e ∈ live (heap entity), Compatible heap s.levels e.2) →
      ((∃ members, putConversion floatText heap entity room s = .doc (.obj members) ∧
          EntriesAre floatText (Represents floatText heap s.levels) (withoutId (heap entity))
            members) ↔
        tableSlots (heap entity) ≤ room.slots ∧ ∀ e ∈ withoutId (heap entity),
          IsName e.1 ∧ Lossless heap s.levels (room.less 2) e.2) := by
  refine ⟨fun n room r h => luaToJson_represents_iff h, fun s room entity hkeys hvalues => ?_⟩
  unfold putConversion
  by_cases hroom : tableSlots (heap entity) ≤ room.slots
  · rw [if_pos hroom, and_iff_right hroom]
    refine Iff.trans (objectLoop_keeps_iff leavesOut_id hkeys fun e he =>
      luaToJson_represents_iff (hvalues e (mem_kept_iff.mp he).1)) ?_
    refine ⟨fun h e he => ⟨h.1 e he, h.2 e he⟩, fun h => ?_⟩
    exact ⟨fun e he => (h e he).1, fun e he => (h e he).2⟩
  · rw [if_neg hroom]
    refine iff_of_false ?_ fun h => hroom h.1
    rintro ⟨members, hdoc, -⟩
    cases hdoc

/-- A person with her id, her name and two numbers. -/
def staffTables : Heap Int
  | 0 => [(.string (cstr "id"), .string (cstr "7")), (.string (cstr "name"), .string (cstr "Ada")),
      (.string (cstr "rooms"), .table 1)]
  | _ => [(.integer 1, .integer 12), (.integer 2, .integer 14)]

theorem staff_represented :
    (∃ doc, luaToJson (fun _ => []) staffTables 3 ⟨26, false⟩ (.table 0) = .doc doc ∧
        Represents (fun _ => []) staffTables 3 (.table 0) doc) ∧
      ∃ members, putConversion (fun _ => []) staffTables 0 ⟨26, false⟩ {} = .doc (.obj members) ∧
        EntriesAre (fun _ => []) (Represents (fun _ => []) staffTables (Session.levels {}))
          (withoutId (staffTables 0)) members := by
  have hperson : WellKeyed (staffTables 0) :=
    ⟨by decide, by simp [staffTables, live], by simp [staffTables, live]⟩
  have hrooms : WellKeyed (staffTables 1) :=
    ⟨by decide, by simp [staffTables, live], by simp [staffTables, live]⟩
  have hsequence : IsSequence (staffTables 1) := ⟨2, by decide, .refl _⟩
  have hcompatible : ∀ n, ∀ e ∈ live (staffTables 0), Compatible staffTables (n + 2) e.2 := by
    intro n
    have hall : Compatible staffTables (n + 2) (.table 1) :=
      ⟨hrooms, by simp [staffTables, live, Compatible]⟩
    simpa [live, staffTables, Compatible] using hall
  have hnames : ∀ e ∈ live (staffTables 0), IsName e.1 := by
    have hall : 0 ∉ cstr "id" ∧ 0 ∉ cstr "name" ∧ 0 ∉ cstr "rooms" := by decide
    simpa [live, staffTables, IsName] using hall
  have hlossless : ∀ n, ∀ e ∈ live (staffTables 0),
      Lossless staffTables (n + 2) ⟨24, false⟩ e.2 := by
    intro n
    have hall : 0 ∉ cstr "7" ∧ 0 ∉ cstr "Ada" ∧
        Lossless staffTables (n + 2) ⟨24, false⟩ (.table 1) :=
      ⟨by decide, by decide, by decide, Or.inl hsequence, by simp [staffTables, live, Lossless]⟩
    simpa [live, staffTables, Lossless] using hall
  obtain ⟨htable, hput⟩ := tables_represented_iff (fun _ => []) staffTables
  refine ⟨(htable 3 ⟨26, false⟩ 0 ⟨hperson, hcompatible 0⟩).mpr
    ⟨by decide, Or.inr hnames, hlossless 0⟩, (hput {} ⟨26, false⟩ 0 hperson (hcompatible 31)).mpr
    ⟨by decide, fun e he => ?_⟩⟩
  have hlive := List.mem_of_mem_filter he
  exact ⟨hnames e hlive, hlossless 31 e hlive⟩

/-- A name, and a number at `1`. -/
def mixedTable : Heap Int :=
  fun _ => [(.string (cstr "name"), .string (cstr "Ada")), (.integer 1, .integer 12)]

theorem mixed_not_represented :
    Compatible mixedTable 2 (.table 0) ∧
      (¬ ∃ doc, luaToJson (fun _ => []) mixedTable 2 ⟨26, false⟩ (.table 0) = .doc doc ∧
        Represents (fun _ => []) mixedTable 2 (.table 0) doc) ∧
      ¬ ∃ members, putConversion (fun _ => []) mixedTable 0 ⟨26, false⟩ {} = .doc (.obj members) ∧
        EntriesAre (fun _ => []) (Represents (fun _ => []) mixedTable (Session.levels {}))
          (withoutId (mixedTable 0)) members := by
  refine ⟨⟨⟨by decide, by simp [mixedTable, live], ?_⟩, ?_⟩, ?_, ?_⟩
  · simp [mixedTable, live]
  · simp [mixedTable, live, Compatible]
  · rintro ⟨doc, hdoc, -⟩
    have hraised : luaToJson (fun _ => []) mixedTable 2 ⟨26, false⟩ (.table 0) = .raised 1 := rfl
    cases hraised.symm.trans hdoc
  · rintro ⟨members, hdoc, -⟩
    have hraised : putConversion (fun _ => []) mixedTable 0 ⟨26, false⟩ {} = .raised 0 := rfl
    cases hraised.symm.trans hdoc

end Lua

end EpsilonDB
