import EpsilonDB.Api.Groups
import EpsilonDB.Engine.CJson

/-!
# Change envelopes (`eql/epsilon_eql.c`)

`replicate_record` puts the envelope of a put together with one `snprintf`. `edb_repl_write`
parses it, adds the change id and the origin, and prints it for the other nodes.

- `putEnvelope`: the text, in the buffer that is made for it.
- `putDocument`, `sentDocument`: what it stands for, at this node and at the others.
- `parseMembers_stringMembers_iff`: strings between quotes, as members of an object.
- `RecordPut.faithful_iff`: the envelope says what it is to say exactly when there is nothing
  to escape in the names, and the value is no deeper and no finer than `cJSON` keeps it.
-/

namespace EpsilonDB.Eql

variable {D : Type}

/-! ## The code -/

/-- `EQL_ID_CAP`. -/
def idCap : ℕ := 512

/-- The envelope of a put, as `replicate_record` writes it into its buffer. -/
def putEnvelope (F : NumberText D) (db partition keyspace id : CString) (value : Json D)
    (ts : Int) : CString :=
  let vtxt := value.print F
  let cap := vtxt.length + idCap + db.length + partition.length + keyspace.length + 128
  snprintf cap (changeText db partition keyspace id vtxt ts)

/-- `edb_repl_write`: the change that it prints for the other nodes. -/
def sentDocument (cid selfId : CString) (change : Json D) : Json D :=
  let stamped := change.members ++ [(cstr "cid", .str cid)]
  .obj (if (stamped.lookup (cstr "origin")).isNone
    then stamped ++ [(cstr "origin", .str selfId)] else stamped)

/-- What another node parses of it. -/
def receivedDocument (F : NumberText D) (cid selfId text : CString) : Option (Json D) := do
  let change ← cJsonParse F text
  cJsonParse F ((sentDocument cid selfId change).print F)

/-! ## What it is to say -/

/-- A put of a record: C strings, an object, and a clock. -/
structure RecordPut (D : Type) where
  db : CString
  partition : CString
  keyspace : CString
  id : CString
  value : List (CString × Json D)
  ts : Int
  names : ∀ name ∈ [db, partition, keyspace, id], 0 ∉ name
  strings : (Json.obj value).All (fun _ => True) fun s => 0 ∉ s
  id_lt : id.length < idCap
  ts_range : -2 ^ 63 ≤ ts ∧ ts < 2 ^ 63

namespace RecordPut

/-- The document of the change. -/
def document [Doubles D] (c : RecordPut D) : Json D :=
  .obj [(cstr "op", .str (cstr "put")), (cstr "db", .str c.db),
    (cstr "partition", .str c.partition), (cstr "keyspace", .str c.keyspace),
    (cstr "id", .str c.id), (cstr "value", .obj c.value),
    (cstr "ttl_abs", .num (Doubles.ofInt64 (-1))), (cstr "ts", .num (Doubles.ofInt64 c.ts))]

/-- The text of the envelope. -/
def text (F : NumberText D) (c : RecordPut D) : CString :=
  putEnvelope F c.db c.partition c.keyspace c.id (.obj c.value) c.ts

/-- The envelope is parsed to the change it was written for, here and at every other node. -/
structure Faithful [Doubles D] (F : NumberText D) (c : RecordPut D) : Prop where
  parsed : cJsonParse F (c.text F) = some c.document
  received : ∀ cid selfId, 0 ∉ cid → 0 ∉ selfId →
    receivedDocument F cid selfId (c.text F) = some (sentDocument cid selfId c.document)

end RecordPut

/-- The library functions on integers: `strtod` rounds a decimal text as a conversion does, and
fifteen digits are printed. -/
structure IntegerText [Doubles D] (F : NumberText D) : Prop where
  strtod_toString : ∀ i : Int, -2 ^ 63 ≤ i → i < 2 ^ 63 →
    F.strtod (cstr (toString i)) = some (Doubles.ofInt64 i, (cstr (toString i)).length)
  readsBack : ∀ i : Int, i.natAbs < 10 ^ 15 → F.ReadsBack (Doubles.ofInt64 i)

/-! ## Strings between quotes -/

section Members

variable {F : NumberText D} {room fuel : ℕ} {key s t rest : CString}
  {ns : List (CString × Json D)}

/-- `"key":"s",`. -/
def stringMember (m : CString × CString) : CString :=
  34 :: (m.1 ++ 34 :: 58 :: 34 :: (m.2 ++ [34, 44]))

/-- A quote and a letter. -/
def StartsName (t : CString) : Prop := ∃ c u, t = 34 :: c :: u ∧ 97 ≤ c ∧ c ≤ 122

theorem StartsName.append (h : StartsName s) (t : CString) : StartsName (s ++ t) := by
  obtain ⟨c, u, rfl, hc⟩ := h
  exact ⟨c, u ++ t, rfl, hc⟩

/-- A member with a plain name, up to its value. -/
theorem parseMembers_value {w : CString} (hkey : Unescaped key)
    (hkeyNul : 0 ∉ key) (hw : StartsValue w) :
    parseMembers (parseValue F room) (fuel + 1) (34 :: (key ++ 34 :: 58 :: (w ++ t))) =
      (parseValue F room (w ++ t)).bind fun r =>
        match skipWhitespace r.2 with
        | [] => none
        | c :: s =>
          if c = 44 then
            (parseMembers (parseValue F room) fuel s).map fun q => ((key, r.1) :: q.1, q.2)
          else if c = 125 then some ([(key, r.1)], s)
          else none := by
  rw [parseMembers, skipWhitespace_cons (by decide), parseString_of_unescaped hkey hkeyNul]
  show (parseValue F room (skipWhitespace (w ++ t))).bind _ = _
  rewrite [(hw.append t).skipWhitespace]
  rfl

/-- **One string member** is read as it was written exactly when it has nothing to escape: where
it has, either the string is another one, or it goes on behind its closing quote. -/
theorem parseMembers_stringMember_iff (hkey : Unescaped key) (hkeyNul : 0 ∉ key)
    (hs : 0 ∉ s) (ht : StartsName t) :
    parseMembers (parseValue F room) (fuel + 1) (stringMember (key, s) ++ t) =
        some ((key, .str s) :: ns, rest) ↔
      Unescaped s ∧ parseMembers (parseValue F room) fuel t = some (ns, rest) := by
  obtain ⟨c, u, rfl, hlow, hhigh⟩ := ht
  have hspace : 32 < c := lt_of_lt_of_le (by decide) hlow
  have hcomma : c ≠ 44 := (lt_of_lt_of_le (by decide) hlow).ne'
  have hbrace : c ≠ 125 := (lt_of_le_of_lt hhigh (by decide)).ne
  have htext : stringMember (key, s) ++ 34 :: c :: u =
      34 :: (key ++ 34 :: 58 :: 34 :: (s ++ 34 :: 44 :: 34 :: c :: u)) := by
    simp [stringMember]
  have hname : parseString (skipWhitespace (stringMember (key, s) ++ 34 :: c :: u)) =
      some (key, 58 :: 34 :: (s ++ 34 :: 44 :: 34 :: c :: u)) := by
    rw [htext, skipWhitespace_cons (by decide), parseString_of_unescaped hkey hkeyNul]
  have hvalue : parseValue F room (34 :: (s ++ 34 :: 44 :: 34 :: c :: u)) =
      (parseString (34 :: (s ++ 34 :: 44 :: 34 :: c :: u))).map fun r => (.str r.1, r.2) := by
    rw [parseValue_eq, parseValueWith_cons _ (by decide) (by decide) (by decide), if_pos rfl]
  rw [parseMembers, hname]
  show (parseValue F room (34 :: (s ++ 34 :: 44 :: 34 :: c :: u))).bind _ = _ ↔ _
  rw [hvalue]
  by_cases hplain : Unescaped s
  · rw [parseString_of_unescaped hplain hs, and_iff_right hplain]
    show (parseMembers (parseValue F room) fuel (34 :: c :: u)).map _ = _ ↔ _
    rw [Option.map_eq_some_iff]
    constructor
    · rintro ⟨r, hr, heq⟩
      obtain ⟨hmembers, hrest⟩ := Prod.mk.inj heq
      rw [hr, ← hrest, ← (List.cons.inj hmembers).2]
    · intro h
      exact ⟨_, h, rfl⟩
  · rw [iff_false_intro fun h : Unescaped s ∧ _ => hplain h.1, iff_false]
    intro h
    obtain ⟨r, hr, h⟩ := Option.bind_eq_some_iff.mp h
    obtain ⟨⟨out, left⟩, hstring, rfl⟩ := Option.map_eq_some_iff.mp hr
    rcases parseString_of_escapable hplain hstring with hout | rfl
    · refine hout ?_
      dsimp only at h
      split at h
      · cases h
      · split at h
        · obtain ⟨r, -, heq⟩ := Option.map_eq_some_iff.mp h
          have hmember := (List.cons.inj (Prod.mk.inj heq).1).1
          exact Json.str.inj (Prod.mk.inj hmember).2
        · split at h
          · have hmember := (List.cons.inj (Prod.mk.inj (Option.some.inj h)).1).1
            exact Json.str.inj (Prod.mk.inj hmember).2
          · cases h
    · dsimp only at h
      rw [skipWhitespace_cons hspace] at h
      dsimp only at h
      rw [if_neg hcomma, if_neg hbrace] at h
      cases h

/-- String members with names of their own, before others. -/
theorem parseMembers_stringMembers_iff {ms : List (CString × CString)}
    (hnames : ∀ m ∈ ms, StartsName (stringMember m))
    (hkeys : ∀ m ∈ ms, Unescaped m.1 ∧ 0 ∉ m.1) (hs : ∀ m ∈ ms, 0 ∉ m.2)
    (ht : StartsName t) :
    parseMembers (parseValue F room) (ms.length + fuel) (ms.flatMap stringMember ++ t) =
        some (ms.map (fun m => (m.1, .str m.2)) ++ ns, rest) ↔
      (∀ m ∈ ms, Unescaped m.2) ∧
        parseMembers (parseValue F room) fuel t = some (ns, rest) := by
  induction ms with
  | nil => simp
  | cons m ms ih =>
    rw [List.forall_mem_cons] at hnames hkeys hs
    have hnext : StartsName (ms.flatMap stringMember ++ t) := by
      cases ms with
      | nil => exact ht
      | cons n ms => exact ((hnames.2 n List.mem_cons_self).append _).append _
    have hlength : (m :: ms).length + fuel = ms.length + fuel + 1 := by
      rw [List.length_cons]
      omega
    rw [hlength, List.flatMap_cons, List.append_assoc, List.map_cons, List.cons_append,
      List.forall_mem_cons, and_assoc, ← ih hnames.2 hkeys.2 hs.2]
    exact parseMembers_stringMember_iff hkeys.1.1 hkeys.1.2 hs.1 hnext

end Members

/-! ## Integers -/

theorem cstr_toString_negSucc (n : ℕ) :
    cstr (toString (Int.negSucc n)) = 45 :: cstr (toString (n + 1)) := by
  have htext : toString (Int.negSucc n) = "-" ++ toString (n + 1) := rfl
  rw [htext, cstr, String.toList_append, List.map_append]
  rfl

/-- A digit is a byte of a number, also the first one. -/
theorem number_of_isDigit {c : UInt8} (h : isDigit c = true) :
    numberByte c = true ∧ numberHead c = true := by
  have hall : ∀ c : UInt8, isDigit c = true → numberByte c = true ∧ numberHead c = true :=
    forall_byte (by decide +kernel)
  exact hall c h

theorem numberHead_toString (i : Int) :
    ∃ c t, cstr (toString i) = c :: t ∧ numberHead c = true := by
  cases i with
  | ofNat n =>
    show ∃ c t, cstr (toString n) = c :: t ∧ _
    obtain ⟨c, t, htext⟩ := List.exists_cons_of_ne_nil (toString_nat_ne_nil n)
    have hc : c ∈ cstr (toString n) := by
      rw [htext]
      exact List.mem_cons_self
    exact ⟨c, t, htext, (number_of_isDigit (isDigit_of_mem_toString hc)).2⟩
  | negSucc n => exact ⟨45, _, cstr_toString_negSucc n, by decide⟩

theorem startsValue_toString (i : Int) : StartsValue (cstr (toString i)) := by
  obtain ⟨c, t, htext, hc⟩ := numberHead_toString i
  exact ⟨c, t, htext, numberHead_starts c hc⟩

theorem numberByte_of_mem_toString {i : Int} {c : UInt8} (h : c ∈ cstr (toString i)) :
    numberByte c = true := by
  cases i with
  | ofNat n =>
    have hc : c ∈ cstr (toString n) := h
    exact (number_of_isDigit (isDigit_of_mem_toString hc)).1
  | negSucc n =>
    rw [cstr_toString_negSucc, List.mem_cons] at h
    rcases h with rfl | h
    · decide
    · exact (number_of_isDigit (isDigit_of_mem_toString h)).1

theorem length_toString_int_le {i : Int} {k : ℕ} (hk : 0 < k) (h : i.natAbs < 10 ^ k) :
    (cstr (toString i)).length ≤ k + 1 := by
  cases i with
  | ofNat n =>
    have hn : (cstr (toString n)).length ≤ k := length_toString_le hk h
    exact hn.trans (Nat.le_succ k)
  | negSucc n =>
    rw [cstr_toString_negSucc, List.length_cons]
    exact Nat.succ_le_succ (length_toString_le hk h)

/-! ## The envelope -/

/-- The members of the envelope that are strings. -/
def RecordPut.stringMembers (c : RecordPut D) : List (CString × CString) :=
  [(cstr "op", cstr "put"), (cstr "db", c.db), (cstr "partition", c.partition),
    (cstr "keyspace", c.keyspace), (cstr "id", c.id)]

/-- The rest of the envelope. -/
def envelopeTail (value : CString) (ts : Int) : CString :=
  34 :: (cstr "value" ++ 34 :: 58 :: (value ++ 44 :: 34 :: (cstr "ttl_abs" ++ 34 :: 58 ::
    45 :: 49 :: 44 :: 34 :: (cstr "ts" ++ 34 :: 58 :: (cstr (toString ts) ++ [125])))))

theorem changeText_eq (c : RecordPut D) (value : CString) :
    changeText c.db c.partition c.keyspace c.id value c.ts =
      123 :: (c.stringMembers.flatMap stringMember ++ envelopeTail value c.ts) := by
  simp [changeText, RecordPut.stringMembers, stringMember, envelopeTail, cstr]

/-- The buffer is long enough. -/
theorem text_eq_changeText (F : NumberText D) (c : RecordPut D) : c.text F =
    changeText c.db c.partition c.keyspace c.id ((Json.obj c.value).print F) c.ts := by
  have hclock : (cstr (toString c.ts)).length ≤ 20 := by
    obtain ⟨hlow, hhigh⟩ := c.ts_range
    exact length_toString_int_le (k := 19) (by decide) (by omega)
  have hid := c.id_lt
  refine snprintf_of_lt ?_
  rw [changeText_eq]
  simp only [RecordPut.stringMembers, stringMember, envelopeTail, List.flatMap_cons,
    List.flatMap_nil, List.length_append, List.length_cons, List.length_nil]
  have hfixed : (cstr "op").length = 2 ∧ (cstr "put").length = 3 ∧ (cstr "db").length = 2 ∧
      (cstr "partition").length = 9 ∧ (cstr "keyspace").length = 8 ∧ (cstr "id").length = 2 ∧
      (cstr "value").length = 5 ∧ (cstr "ttl_abs").length = 7 ∧ (cstr "ts").length = 2 := by
    decide
  unfold idCap at hid ⊢
  omega

/-- A text that opens an object with a name. -/
theorem cJsonParse_object (F : NumberText D) (u : CString) : cJsonParse F (123 :: 34 :: u) =
    (parseMembers (parseValue F 999) (u.length + 1) (34 :: u)).map fun r => .obj r.1 := by
  have hbom : skipBom (123 :: 34 :: u) = 123 :: 34 :: u := if_neg fun h => absurd h.2 (by simp)
  have hhead : (34 :: u).head? ≠ some 125 := fun h => absurd (Option.some.inj h) (by decide)
  unfold cJsonParse
  rw [hbom, skipWhitespace_cons (by decide)]
  show (parseValueWith F (some (parseValue F 999)) (123 :: 34 :: u)).map _ = _
  rw [parseValueWith_cons _ (by decide) (by decide) (by decide), if_neg (by decide),
    if_neg (by decide), if_neg (by decide), if_pos rfl]
  show (parseObject (parseValue F 999) (34 :: u)).map _ = _
  unfold parseObject
  dsimp only
  rw [skipWhitespace_cons (by decide), if_neg hhead, Option.map_map]
  rfl

/-- The strings of the envelope are told one by one. -/
theorem parseMembers_envelope_iff {F : NumberText D} (c : RecordPut D) {tail rest : CString}
    {room fuel : ℕ} {ns : List (CString × Json D)} (htail : StartsName tail) :
    parseMembers (parseValue F room) (5 + fuel) (c.stringMembers.flatMap stringMember ++ tail) =
        some (c.stringMembers.map (fun m => (m.1, .str m.2)) ++ ns, rest) ↔
      (∀ name ∈ [c.db, c.partition, c.keyspace, c.id], Unescaped name) ∧
        parseMembers (parseValue F room) fuel tail = some (ns, rest) := by
  have hplain : (∀ m ∈ c.stringMembers, Unescaped m.2) ↔
      ∀ name ∈ [c.db, c.partition, c.keyspace, c.id], Unescaped name := by
    show (∀ m ∈ c.stringMembers, Unescaped m.2) ↔
      ∀ name ∈ c.stringMembers.tail.map Prod.snd, Unescaped name
    rw [List.forall_mem_map]
    exact List.forall_mem_cons.trans (and_iff_right (by decide))
  have hstrings : ∀ m ∈ c.stringMembers, 0 ∉ m.2 := by
    refine List.forall_mem_cons.mpr ⟨by decide, fun m hm => c.names m.2 ?_⟩
    exact List.mem_map_of_mem hm
  rw [← hplain]
  refine parseMembers_stringMembers_iff ?_ ?_ hstrings htail
  · simp only [RecordPut.stringMembers, List.forall_mem_cons]
    exact ⟨⟨111, _, rfl, by decide⟩, ⟨100, _, rfl, by decide⟩, ⟨112, _, rfl, by decide⟩,
      ⟨107, _, rfl, by decide⟩, ⟨105, _, rfl, by decide⟩, nofun⟩
  · simp only [RecordPut.stringMembers, List.forall_mem_cons]
    exact ⟨by decide, by decide, by decide, by decide, by decide, nofun⟩

section Envelope

variable [Doubles D] {F : NumberText D}

/-- An integer is read as its conversion. -/
theorem parseValue_toString (hI : IntegerText F) {i : Int} (hlow : -2 ^ 63 ≤ i)
    (hhigh : i < 2 ^ 63) (room : ℕ) {rest : CString} (hrest : EndsNumber rest) :
    parseValue F room (cstr (toString i) ++ rest) =
      some (.num (Doubles.ofInt64 i), rest) := by
  have hlength : (cstr (toString i)).length ≤ 20 :=
    length_toString_int_le (k := 19) (by decide) (by omega)
  rw [parseValue_eq]
  exact parseValueWith_numberText _ (numberHead_toString i)
    (fun _ => numberByte_of_mem_toString) (by omega) (hI.strtod_toString i hlow hhigh) hrest

/-- The value comes back as deep as it may nest, the two numbers in any case. -/
theorem parseMembers_envelopeTail (hF : F.Lawful) (hI : IntegerText F) {v : Json D} {ts : Int}
    (hv : v.All (fun _ => True) fun s => 0 ∉ s) (hts : -2 ^ 63 ≤ ts ∧ ts < 2 ^ 63)
    (room fuel : ℕ) :
    parseMembers (parseValue F room) (fuel + 3) (envelopeTail (v.print F) ts) =
      if v.depth ≤ room then some ([(cstr "value", v.reread F),
        (cstr "ttl_abs", .num (Doubles.ofInt64 (-1))),
        (cstr "ts", .num (Doubles.ofInt64 ts))], []) else none := by
  have hclock : parseMembers (parseValue F room) (fuel + 1)
      (34 :: (cstr "ts" ++ 34 :: 58 :: (cstr (toString ts) ++ [125]))) =
        some ([(cstr "ts", .num (Doubles.ofInt64 ts))], []) := by
    rw [parseMembers_value (by decide) (by decide) (startsValue_toString ts),
      parseValue_toString hI hts.1 hts.2 room (endsNumber_cons (by decide) [])]
    rfl
  have httl : ∀ t, parseMembers (parseValue F room) (fuel + 2)
      (34 :: (cstr "ttl_abs" ++ 34 :: 58 :: 45 :: 49 :: 44 :: t)) =
        (parseMembers (parseValue F room) (fuel + 1) t).map fun q =>
          ((cstr "ttl_abs", .num (Doubles.ofInt64 (-1))) :: q.1, q.2) := by
    intro t
    show parseMembers _ _ (34 :: (cstr "ttl_abs" ++ 34 :: 58 ::
      (cstr (toString (-1 : Int)) ++ 44 :: t))) = _
    rw [parseMembers_value (by decide) (by decide) (startsValue_toString (-1)),
      parseValue_toString hI (by decide) (by decide) room (endsNumber_cons (by decide) t)]
    rfl
  unfold envelopeTail
  rw [parseMembers_value (by decide) (by decide) (startsValue_print hF v),
    parseValue_print hF v hv room _ (endsNumber_cons (by decide) _)]
  split
  · show (parseMembers (parseValue F room) (fuel + 2) _).map _ = _
    rw [httl, hclock]
    rfl
  · rfl

/-- **What the envelope is parsed to** is the change exactly when nothing in the names is to be
escaped, and the value comes back. -/
theorem cJsonParse_text_iff (hF : F.Lawful) (hI : IntegerText F) (c : RecordPut D) :
    cJsonParse F (c.text F) = some c.document ↔
      (∀ name ∈ [c.db, c.partition, c.keyspace, c.id], Unescaped name) ∧
        (Json.obj c.value).depth < nestingLimit ∧
        (Json.obj c.value).All F.ReadsBack fun _ => True := by
  set t := c.stringMembers.flatMap stringMember ++
    envelopeTail ((Json.obj c.value).print F) c.ts with ht
  have hparse : cJsonParse F (c.text F) =
      (parseMembers (parseValue F 999) t.length t).map fun r => Json.obj r.1 := by
    rw [text_eq_changeText, changeText_eq]
    exact cJsonParse_object F _
  have hfuel : t.length = 5 + (t.length - 8 + 3) := by
    have hbytes : 8 ≤ t.length := by
      rw [ht]
      simp only [RecordPut.stringMembers, stringMember, List.flatMap_cons, List.length_append,
        List.length_cons]
      omega
    omega
  have hwhole : cJsonParse F (c.text F) = some c.document ↔
      ∃ rest, parseMembers (parseValue F 999) t.length t = some (c.document.members, rest) := by
    rw [hparse, Option.map_eq_some_iff]
    constructor
    · rintro ⟨⟨ms, rest⟩, hms, hdoc⟩
      exact ⟨rest, hms.trans (by rw [← hdoc]; rfl)⟩
    · rintro ⟨rest, hms⟩
      exact ⟨_, hms, rfl⟩
  have htail : StartsName (envelopeTail ((Json.obj c.value).print F) c.ts) :=
    ⟨118, _, rfl, by decide⟩
  have hmembers : c.document.members = c.stringMembers.map (fun m => (m.1, .str m.2)) ++
      [(cstr "value", .obj c.value), (cstr "ttl_abs", .num (Doubles.ofInt64 (-1))),
        (cstr "ts", .num (Doubles.ofInt64 c.ts))] := rfl
  rw [hwhole, hfuel, hmembers]
  simp only [ht, parseMembers_envelope_iff c htail,
    parseMembers_envelopeTail hF hI c.strings c.ts_range, exists_and_left]
  refine and_congr_right fun _ => ?_
  rw [← reread_eq_iff, nestingLimit, Nat.lt_succ_iff]
  by_cases hdepth : (Json.obj c.value).depth ≤ 999
  · simp [hdepth]
  · simp [hdepth]

theorem sentDocument_document (c : RecordPut D) (cid selfId : CString) :
    sentDocument cid selfId c.document =
      .obj (c.document.members ++ [(cstr "cid", .str cid), (cstr "origin", .str selfId)]) := rfl

theorem strings_sentDocument (c : RecordPut D) {cid selfId : CString} (hcid : 0 ∉ cid)
    (hself : 0 ∉ selfId) :
    (sentDocument cid selfId c.document).All (fun _ => True) fun s => 0 ∉ s := by
  have hnames := c.names
  simp only [List.forall_mem_cons] at hnames
  obtain ⟨hdb, hpartition, hkeyspace, hid, -⟩ := hnames
  have hput : 0 ∉ cstr "put" := by decide
  exact ⟨⟨by decide, hput⟩, ⟨by decide, hdb⟩, ⟨by decide, hpartition⟩, ⟨by decide, hkeyspace⟩,
    ⟨by decide, hid⟩, ⟨by decide, c.strings⟩, ⟨by decide, trivial⟩, ⟨by decide, trivial⟩,
    ⟨by decide, hcid⟩, ⟨by decide, hself⟩, trivial⟩

/-- **What was parsed** is sent and parsed again as it is when the clock's number is read back,
too. -/
theorem cJsonParse_sentDocument_iff (hF : F.Lawful) (hI : IntegerText F) {c : RecordPut D}
    (hdepth : (Json.obj c.value).depth < nestingLimit)
    (hnumbers : (Json.obj c.value).All F.ReadsBack fun _ => True) {cid selfId : CString}
    (hcid : 0 ∉ cid) (hself : 0 ∉ selfId) :
    cJsonParse F ((sentDocument cid selfId c.document).print F) =
        some (sentDocument cid selfId c.document) ↔ F.ReadsBack (Doubles.ofInt64 c.ts) := by
  have hnested : (sentDocument cid selfId c.document).depth ≤ nestingLimit := by
    rw [sentDocument_document]
    simpa [RecordPut.document, Json.members, Json.depth, Json.depthMembers, Json.depthMember]
      using Nat.succ_le_of_lt hdepth
  rw [cJsonParse_print hF (strings_sentDocument c hcid hself), if_pos hnested,
    Option.some.injEq, reread_eq_iff]
  have hminus : F.ReadsBack (Doubles.ofInt64 (-1)) := hI.readsBack (-1) (by decide)
  constructor
  · rintro ⟨-, -, -, -, -, -, -, hts, -⟩
    exact hts.2
  · intro hts
    exact ⟨⟨trivial, trivial⟩, ⟨trivial, trivial⟩, ⟨trivial, trivial⟩, ⟨trivial, trivial⟩,
      ⟨trivial, trivial⟩, ⟨trivial, hnumbers⟩, ⟨trivial, hminus⟩, ⟨trivial, hts⟩,
      ⟨trivial, trivial⟩, ⟨trivial, trivial⟩, trivial⟩

/-- **An envelope is faithful** exactly when no name has a quote or a backslash, the value is not
nested too deeply, and its numbers and the clock's are read back from their texts. -/
theorem RecordPut.faithful_iff (hF : F.Lawful) (hI : IntegerText F) (c : RecordPut D) :
    c.Faithful F ↔
      (∀ name ∈ [c.db, c.partition, c.keyspace, c.id], Unescaped name) ∧
        (Json.obj c.value).depth < nestingLimit ∧
        ((Json.obj c.value).All F.ReadsBack fun _ => True) ∧
        F.ReadsBack (Doubles.ofInt64 c.ts) := by
  have hreceived : ∀ cid selfId, cJsonParse F (c.text F) = some c.document →
      receivedDocument F cid selfId (c.text F) =
        cJsonParse F ((sentDocument cid selfId c.document).print F) := by
    intro cid selfId hparsed
    unfold receivedDocument
    rw [hparsed]
    rfl
  constructor
  · intro h
    obtain ⟨hnames, hdepth, hnumbers⟩ := (cJsonParse_text_iff hF hI c).mp h.parsed
    have hnil : (0 : UInt8) ∉ ([] : CString) := List.not_mem_nil
    have hsent := h.received [] [] hnil hnil
    rw [hreceived [] [] h.parsed] at hsent
    exact ⟨hnames, hdepth, hnumbers,
      (cJsonParse_sentDocument_iff hF hI hdepth hnumbers hnil hnil).mp hsent⟩
  · rintro ⟨hnames, hdepth, hnumbers, hts⟩
    have hparsed := (cJsonParse_text_iff hF hI c).mpr ⟨hnames, hdepth, hnumbers⟩
    refine ⟨hparsed, fun cid selfId hcid hself => ?_⟩
    rw [hreceived cid selfId hparsed]
    exact (cJsonParse_sentDocument_iff hF hI hdepth hnumbers hcid hself).mpr hts

end Envelope

/-! ## Integers as doubles -/

/-- The library functions on integers of up to fifteen digits. -/
def shortIntegers : NumberText Int where
  finite d := decide (d.natAbs < 10 ^ 15)
  print d := cstr (toString d)
  strtod s :=
    let negative := s.head? = some 45
    let digits := (if negative then s.tail else s).takeWhile isDigit
    if digits = [] then none
    else if negative then some (-(decimal digits : Int), digits.length + 1)
    else some ((decimal digits : Int), digits.length)

theorem shortIntegers_strtod (i : Int) :
    shortIntegers.strtod (cstr (toString i)) = some (i, (cstr (toString i)).length) := by
  have hdigits : ∀ n : ℕ, (cstr (toString n)).takeWhile isDigit = cstr (toString n) := fun n =>
    List.takeWhile_eq_self_iff.mpr fun _ => isDigit_of_mem_toString
  have hvalue : ∀ n : ℕ, decimal (cstr (toString n)) = n := fun n => by
    rw [cstr_toString_nat, decimal_toDigits]
  cases i with
  | ofNat n =>
    show shortIntegers.strtod (cstr (toString n)) = some ((n : Int), (cstr (toString n)).length)
    have hhead : (cstr (toString n)).head? ≠ some 45 := by
      intro h
      have := isDigit_of_mem_toString (List.mem_of_head? h)
      exact absurd this (by decide)
    simp only [shortIntegers]
    rw [if_neg hhead, hdigits, if_neg (toString_nat_ne_nil n), if_neg hhead, hvalue]
  | negSucc n =>
    rw [cstr_toString_negSucc]
    simp only [shortIntegers, List.head?_cons, List.tail_cons, if_true]
    rw [hdigits, if_neg (toString_nat_ne_nil (n + 1)), hvalue]
    rfl

theorem shortIntegers_lawful : shortIntegers.Lawful where
  head d _ := numberHead_toString d
  bytes _ _ _ := numberByte_of_mem_toString
  length d hd := by
    have hlength : (cstr (toString d)).length ≤ 16 :=
      length_toString_int_le (by decide) (of_decide_eq_true hd)
    exact hlength.trans (by decide)
  strtod_print d _ := ⟨d, shortIntegers_strtod d⟩

theorem shortIntegers_integerText : IntegerText shortIntegers where
  strtod_toString i _ _ := shortIntegers_strtod i
  readsBack i hi := by
    refine ⟨decide_eq_true hi, ?_⟩
    show (shortIntegers.strtod (cstr (toString i))).map Prod.fst = some i
    rw [shortIntegers_strtod]
    rfl

/-- A put of one record. -/
def notePut (id : CString) (hid : 0 ∉ id) (hlt : id.length < idCap) : RecordPut Int where
  db := cstr "shop"
  partition := cstr "main"
  keyspace := cstr "notes"
  id := id
  value := [(cstr "text", .str (cstr "a\\b \"c\"")), (cstr "stars", .arr [.num (-3), .num 5])]
  ts := 1700000000
  names := by
    simp only [List.forall_mem_cons]
    exact ⟨by decide, by decide, by decide, hid, nofun⟩
  strings := ⟨⟨by decide, (by decide : 0 ∉ cstr "a\\b \"c\"")⟩,
    ⟨by decide, trivial, trivial, trivial⟩, trivial⟩
  id_lt := hlt
  ts_range := by decide

theorem RecordPut.faithful_iff_note :
    (notePut (cstr "n-1") (by decide) (by decide)).Faithful shortIntegers := by
  have hread : ∀ d : Int, d.natAbs < 10 ^ 15 → shortIntegers.ReadsBack d :=
    shortIntegers_integerText.readsBack
  refine (RecordPut.faithful_iff shortIntegers_lawful shortIntegers_integerText _).mpr
    ⟨by decide, by decide, ?_, hread 1700000000 (by decide)⟩
  exact ⟨⟨trivial, trivial⟩,
    ⟨trivial, hread (-3) (by decide), hread 5 (by decide), trivial⟩, trivial⟩

/-- An id with a quote in it: the text is not even JSON. -/
theorem RecordPut.not_faithful_quotedId :
    ¬ (notePut (cstr "x\"y") (by decide) (by decide)).Faithful shortIntegers := by
  intro h
  exact absurd h.parsed (by decide +kernel)

end EpsilonDB.Eql
