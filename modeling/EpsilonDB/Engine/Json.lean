import EpsilonDB.Engine.CString

/-!
# JSON values (`vendor/cjson`)

The vendored parser and printer are parameters; the values they exchange are data.

- `Doubles`: the C doubles as far as the code converts and compares them. A parsed number
  is never a NaN, and the two zeros count as one value.
- `Json`: a `cJSON` tree. An object keeps its members in order, repeated keys included.
- `Json.get`: `cJSON_GetObjectItemCaseSensitive`, the first member of the name.
- `Codec`: `cJSON_Parse` and `cJSON_PrintUnformatted`.
- `changeText`: the envelope the EQL engine writes around a printed value without escaping
  the names it splices in; `Plain` names need no escaping.
-/

namespace EpsilonDB

/-- The conversions between doubles and integers. -/
class Doubles (D : Type) where
  decEq : DecidableEq D
  /-- `d >= -9.2e18 && d <= 9.2e18` -/
  inRange : D → Bool
  /-- `(long long)d` -/
  toInt64 : D → Int
  /-- `(double)i` -/
  ofInt64 : Int → D
  /-- `(uint64_t)d`, where `d >= 0` -/
  toUInt64 : D → Option UInt64

instance {D : Type} [Doubles D] : DecidableEq D := Doubles.decEq

inductive Json (D : Type) where
  | null
  | bool (b : Bool)
  | num (d : D)
  | str (s : CString)
  | arr (xs : List (Json D))
  | obj (ms : List (CString × Json D))

mutual

/-- Values are compared member by member. -/
def Json.decEq {D : Type} [DecidableEq D] : (v w : Json D) → Decidable (v = w)
  | .null, w => match w with
    | .null => .isTrue rfl
    | .bool _ | .num _ | .str _ | .arr _ | .obj _ => .isFalse (by simp)
  | .bool b, w => match w with
    | .bool b' => decidable_of_iff (b = b') (by simp)
    | .null | .num _ | .str _ | .arr _ | .obj _ => .isFalse (by simp)
  | .num d, w => match w with
    | .num d' => decidable_of_iff (d = d') (by simp)
    | .null | .bool _ | .str _ | .arr _ | .obj _ => .isFalse (by simp)
  | .str s, w => match w with
    | .str s' => decidable_of_iff (s = s') (by simp)
    | .null | .bool _ | .num _ | .arr _ | .obj _ => .isFalse (by simp)
  | .arr xs, w => match w with
    | .arr ys => @decidable_of_iff _ (xs = ys) (by simp) (Json.decEqs xs ys)
    | .null | .bool _ | .num _ | .str _ | .obj _ => .isFalse (by simp)
  | .obj ms, w => match w with
    | .obj ns => @decidable_of_iff _ (ms = ns) (by simp) (Json.decEqMembers ms ns)
    | .null | .bool _ | .num _ | .str _ | .arr _ => .isFalse (by simp)

def Json.decEqs {D : Type} [DecidableEq D] : (xs ys : List (Json D)) → Decidable (xs = ys)
  | [], ys => match ys with
    | [] => .isTrue rfl
    | _ :: _ => .isFalse (by simp)
  | x :: xs, ys => match ys with
    | [] => .isFalse (by simp)
    | y :: ys =>
      have := Json.decEq x y
      have := Json.decEqs xs ys
      decidable_of_iff (x = y ∧ xs = ys) (by simp)

def Json.decEqMembers {D : Type} [DecidableEq D] :
    (ms ns : List (CString × Json D)) → Decidable (ms = ns)
  | [], ns => match ns with
    | [] => .isTrue rfl
    | _ :: _ => .isFalse (by simp)
  | m :: ms, ns => match ns with
    | [] => .isFalse (by simp)
    | n :: ns =>
      have := Json.decEqMember m n
      have := Json.decEqMembers ms ns
      decidable_of_iff (m = n ∧ ms = ns) (by simp)

def Json.decEqMember {D : Type} [DecidableEq D] : (m n : CString × Json D) → Decidable (m = n)
  | (k, v), (k', v') =>
    have := Json.decEq v v'
    decidable_of_iff (k = k' ∧ v = v') (by simp)

end

instance {D : Type} [DecidableEq D] : DecidableEq (Json D) := Json.decEq

namespace Json

variable {D : Type}

/-- `cJSON_IsObject`. -/
def isObject : Json D → Bool
  | .obj _ => true
  | _ => false

/-- `cJSON_IsObject(item) || cJSON_IsArray(item)`. -/
def isContainer : Json D → Bool
  | .obj _ | .arr _ => true
  | _ => false

/-- The members of an object. -/
def members : Json D → List (CString × Json D)
  | .obj ms => ms
  | _ => []

/-- `cJSON_GetObjectItemCaseSensitive`. -/
def get (v : Json D) (key : CString) : Option (Json D) := v.members.lookup key

/-- `item->valuestring` of a string member. -/
def getStr (v : Json D) (key : CString) : Option CString :=
  match v.get key with
  | some (.str s) => some s
  | _ => none

theorem get_obj (ms : List (CString × Json D)) (key : CString) :
    (Json.obj ms).get key = ms.lookup key := rfl

/-- `get` finds what is the first member of its name. -/
theorem get_eq_none {v : Json D} {key : CString} :
    v.get key = none ↔ key ∉ v.members.map Prod.fst := by
  rw [get, List.lookup_eq_none_iff]
  simp only [List.mem_map, Prod.exists, exists_and_right, exists_eq_right, not_exists,
    bne_iff_ne, ne_eq, Prod.forall]
  constructor
  · intro h w hmem
    exact h key w hmem rfl
  · intro h k w hmem hk
    exact h w (hk ▸ hmem)

end Json

/-- No byte of the name is escaped in a JSON string. -/
def Plain (s : CString) : Prop := ∀ c ∈ s, 32 ≤ c ∧ c ≠ 34 ∧ c ≠ 92

/-- `{"op":"put","db":"%s","partition":"%s","keyspace":"%s","id":"%s","value":%s,`
`"ttl_abs":-1,"ts":%lld}`. -/
def changeText (db partition keyspace id value : CString) (ts : Int) : CString :=
  cstr "\x7b\"op\":\"put\",\"db\":\"" ++ db ++ cstr "\",\"partition\":\"" ++ partition ++
    cstr "\",\"keyspace\":\"" ++ keyspace ++ cstr "\",\"id\":\"" ++ id ++
    cstr "\",\"value\":" ++ value ++ cstr ",\"ttl_abs\":-1,\"ts\":" ++ cstr (toString ts) ++
    cstr "\x7d"

/-- The parser and the printer. -/
structure Codec (D : Type) [Doubles D] where
  /-- `cJSON_Parse` -/
  parse : CString → Option (Json D)
  /-- `cJSON_PrintUnformatted` -/
  print : Json D → CString
  /-- an envelope around plain names parses, if at all, to what it was put together from -/
  parse_changeText : ∀ (db partition keyspace id : CString) (value : Json D) (ts : Int)
    (doc : Json D), Plain db → Plain partition → Plain keyspace → Plain id →
    parse (changeText db partition keyspace id (print value) ts) = some doc →
    ∃ v, doc = .obj [(cstr "op", .str (cstr "put")), (cstr "db", .str db),
      (cstr "partition", .str partition), (cstr "keyspace", .str keyspace),
      (cstr "id", .str id), (cstr "value", v), (cstr "ttl_abs", .num (Doubles.ofInt64 (-1))),
      (cstr "ts", .num (Doubles.ofInt64 ts))]
  /-- behind a plain database and a plain partition nothing makes another partition of it -/
  parse_changeText_partition : ∀ (db partition keyspace id : CString) (value : Json D) (ts : Int)
    (doc : Json D), Plain db → Plain partition →
    parse (changeText db partition keyspace id (print value) ts) = some doc →
    doc.getStr (cstr "partition") = some partition

/-- The codec reads back what it printed. -/
structure Codec.Keeps {D : Type} [Doubles D] (codec : Codec D) (v : Json D) : Prop where
  print_ne : codec.print v ≠ []
  parse_print : codec.parse (codec.print v) = some v

instance {D : Type} [Doubles D] (codec : Codec D) (v : Json D) : Decidable (codec.Keeps v) :=
  decidable_of_iff (codec.print v ≠ [] ∧ codec.parse (codec.print v) = some v)
    ⟨fun h => ⟨h.1, h.2⟩, fun h => ⟨h.1, h.2⟩⟩

/-! ## A codec for finitely many texts -/

/-- Integers as doubles, exact below `2 ^ 53`. -/
instance : Doubles Int where
  decEq := inferInstance
  inRange d := decide (-9200000000000000000 ≤ d ∧ d ≤ 9200000000000000000)
  toInt64 d := d
  ofInt64 i := i
  toUInt64 d := if 0 ≤ d then some (UInt64.ofNat d.toNat) else none

mutual

/-- The text of a value whose strings need no escaping. -/
def Json.text : Json Int → CString
  | .null => cstr "null"
  | .bool b => cstr (if b then "true" else "false")
  | .num d => cstr (toString d)
  | .str s => [34] ++ s ++ [34]
  | .arr xs => [91] ++ Json.texts xs ++ [93]
  | .obj ms => [123] ++ Json.memberTexts ms ++ [125]

def Json.texts : List (Json Int) → CString
  | [] => []
  | x :: xs => x.text ++ (if xs.isEmpty then [] else [44]) ++ Json.texts xs

def Json.memberTexts : List (CString × Json Int) → CString
  | [] => []
  | m :: ms => Json.memberText m ++ (if ms.isEmpty then [] else [44]) ++ Json.memberTexts ms

def Json.memberText : CString × Json Int → CString
  | (k, v) => [34] ++ k ++ [34, 58] ++ v.text

end

theorem no_values : ∀ v ∈ ([] : List (Json Int)), (cstr "\x7b\"op\"").isPrefixOf v.text = false :=
  fun _ hv => absurd hv List.not_mem_nil

/-- A change is none of the texts that do not begin like one. -/
theorem lookup_changeText {D : Type} {texts : List (CString × Json D)}
    (h : ∀ e ∈ texts, (cstr "\x7b\"op\"").isPrefixOf e.1 = false)
    (db partition keyspace id value : CString) (ts : Int) :
    texts.lookup (changeText db partition keyspace id value ts) = none := by
  refine Option.eq_none_iff_forall_ne_some.mpr fun doc hdoc => ?_
  obtain ⟨l, r, hsplit, -⟩ := List.lookup_eq_some_iff.mp hdoc
  have hprefix := h _ (hsplit ▸ List.mem_append_right l List.mem_cons_self)
  exact absurd hprefix (by simp [changeText, cstr, List.isPrefixOf])

/-- The codec that parses the texts of some values, none of them a change. -/
def tableCodec (values : List (Json Int))
    (h : ∀ v ∈ values, (cstr "\x7b\"op\"").isPrefixOf v.text = false) : Codec Int where
  parse s := (values.map fun v => (v.text, v)).lookup s
  print := Json.text
  parse_changeText _ _ _ _ _ _ _ _ _ _ _ hparse := by
    rw [lookup_changeText (List.forall_mem_map.mpr h)] at hparse
    cases hparse
  parse_changeText_partition _ _ _ _ _ _ _ _ _ hparse := by
    rw [lookup_changeText (List.forall_mem_map.mpr h)] at hparse
    cases hparse

/-- It reads back the values whose texts are told apart. -/
theorem tableCodec_parse_text {values : List (Json Int)}
    (h : ∀ v ∈ values, (cstr "\x7b\"op\"").isPrefixOf v.text = false)
    (hinj : ∀ v ∈ values, ∀ w ∈ values, v.text = w.text → v = w) {v : Json Int}
    (hv : v ∈ values) : (tableCodec values h).parse v.text = some v := by
  show (values.map fun v => (v.text, v)).lookup v.text = some v
  clear h
  induction values with
  | nil => cases hv
  | cons w values ih =>
    rw [List.map_cons, List.lookup_cons]
    split
    · next heq =>
      have hw : v = w := hinj v hv w List.mem_cons_self (by simpa using heq)
      rw [hw]
    · next hne =>
      rcases List.mem_cons.mp hv with rfl | hv
      · simp at hne
      · refine ih (fun a ha b hb => ?_) hv
        exact hinj a (List.mem_cons_of_mem w ha) b (List.mem_cons_of_mem w hb)

end EpsilonDB
