import EpsilonDB.Engine.Json
import Mathlib.Data.List.TakeWhile

/-!
# The JSON parser and printer (`vendor/cjson/cJSON.c`)

What the other modules take as a codec, for the texts whose exact bytes matter. The cursor of
`parse_buffer` is the text that is left; its end is the terminator, which no branch accepts.

- `NumberText`: `sprintf` and `strtod`, as `print_number` and `parse_number` use them.
- `parseString`, `parseValue`, `cJsonParse`: the parser. `room` is how deep the text may still
  nest.
- `printString`, `Json.print`: `cJSON_PrintUnformatted`.
- `Json.reread`: a value after a print and a parse. Strings survive; a number is what `strtod`
  makes of its text, and an infinity is null.
- `parseValue_print`: the parser reads what the printer wrote, as deep as it may nest.
-/

namespace EpsilonDB

/-! ## Numbers -/

/-- A byte that `parse_number` copies. -/
def numberByte (c : UInt8) : Bool :=
  (48 ≤ c && c ≤ 57) || c == 43 || c == 45 || c == 101 || c == 69 || c == 46

/-- A byte that a number starts with. -/
def numberHead (c : UInt8) : Bool := c == 45 || (48 ≤ c && c ≤ 57)

/-- The library functions. -/
structure NumberText (D : Type) where
  /-- neither a NaN nor an infinity -/
  finite : D → Bool
  /-- the text of a finite number -/
  print : D → CString
  /-- `strtod`: the number, and how many bytes it has -/
  strtod : CString → Option (D × ℕ)

/-- What the library promises of the texts it makes: `strtod` reads all of them. -/
structure NumberText.Lawful {D : Type} (F : NumberText D) : Prop where
  head : ∀ d, F.finite d = true → ∃ c t, F.print d = c :: t ∧ numberHead c = true
  bytes : ∀ d, F.finite d = true → ∀ c ∈ F.print d, numberByte c = true
  length : ∀ d, F.finite d = true → (F.print d).length ≤ 25
  strtod_print : ∀ d, F.finite d = true →
    ∃ e, F.strtod (F.print d) = some (e, (F.print d).length)

/-- The text of the number is read as the number. -/
def NumberText.ReadsBack {D : Type} (F : NumberText D) (d : D) : Prop :=
  F.finite d = true ∧ (F.strtod (F.print d)).map Prod.fst = some d

instance {D : Type} [DecidableEq D] (F : NumberText D) (d : D) : Decidable (F.ReadsBack d) :=
  inferInstanceAs (Decidable (_ ∧ _))

variable {D : Type} (F : NumberText D)

/-- `parse_number`: at most 63 bytes are looked at. -/
def parseNumber (s : CString) : Option (Json D × CString) :=
  (F.strtod ((s.takeWhile numberByte).take 63)).map fun r => (.num r.1, s.drop r.2)

/-- `print_number`. -/
def NumberText.printNumber (d : D) : CString := if F.finite d then F.print d else cstr "null"

/-! ## Strings -/

/-- A digit of `parse_hex4`. -/
def hex4Digit (c : UInt8) : Option ℕ :=
  if 48 ≤ c ∧ c ≤ 57 then some (c.toNat - 48)
  else if 65 ≤ c ∧ c ≤ 70 then some (c.toNat - 65 + 10)
  else if 97 ≤ c ∧ c ≤ 102 then some (c.toNat - 97 + 10)
  else none

/-- `parse_hex4`: what is no number is 0. -/
def parseHex4 (s : CString) : ℕ :=
  ((s.foldlM fun h c => (hex4Digit c).map (16 * h + ·)) 0).getD 0

/-- The encoding of a code point in `utf16_literal_to_utf8`. -/
def utf8Bytes (codepoint : ℕ) : CString :=
  let tail := fun shift : ℕ => UInt8.ofNat (codepoint / 64 ^ shift % 64 + 128)
  if codepoint < 0x80 then [UInt8.ofNat codepoint]
  else if codepoint < 0x800 then [UInt8.ofNat (codepoint / 64 + 0xC0), tail 0]
  else if codepoint < 0x10000 then [UInt8.ofNat (codepoint / 64 ^ 2 + 0xE0), tail 1, tail 0]
  else [UInt8.ofNat (codepoint / 64 ^ 3 + 0xF0), tail 2, tail 1, tail 0]

/-- `utf16_literal_to_utf8` after the `\u`: the bytes, and what is left. -/
def utf16Literal (s : CString) : Option (CString × CString) :=
  let first := parseHex4 (s.take 4)
  let rest := s.drop 4
  if s.length < 4 ∨ (0xDC00 ≤ first ∧ first ≤ 0xDFFF) then none
  else if 0xD800 ≤ first ∧ first ≤ 0xDBFF then
    let second := parseHex4 ((rest.drop 2).take 4)
    if rest.length < 6 ∨ rest.take 2 ≠ [92, 117] ∨ second < 0xDC00 ∨ 0xDFFF < second then none
    else some (utf8Bytes (0x10000 + (first - 0xD800) * 1024 + (second - 0xDC00)), rest.drop 6)
  else some (utf8Bytes first, rest)

/-- An escape sequence after its backslash. -/
def decodeEscape : CString → Option (CString × CString)
  | [] => none
  | c :: t =>
    if c = 98 then some ([8], t)
    else if c = 102 then some ([12], t)
    else if c = 110 then some ([10], t)
    else if c = 114 then some ([13], t)
    else if c = 116 then some ([9], t)
    else if c = 34 ∨ c = 92 ∨ c = 47 then some ([c], t)
    else if c = 117 then utf16Literal t
    else none

/-- The second loop of `parse_string`: every round reads at least one byte. -/
def decodeString : ℕ → CString → Option CString
  | _, [] => some []
  | 0, _ :: _ => none
  | fuel + 1, c :: t =>
    if c = 92 then do
      let (bytes, rest) ← decodeEscape t
      let out ← decodeString fuel rest
      return bytes ++ out
    else (decodeString fuel t).map (c :: ·)

/-- The first loop of `parse_string`: the text before the closing quote, and what follows
it. -/
def rawString : CString → Option (CString × CString)
  | [] => none
  | [c] => if c = 34 then some ([], []) else none
  | c :: d :: t =>
    if c = 34 then some ([], d :: t)
    else if c = 92 then (rawString t).map fun r => (c :: d :: r.1, r.2)
    else (rawString (d :: t)).map fun r => (c :: r.1, r.2)

/-- `parse_string`. A NUL that was written as an escape ends the string. -/
def parseString : CString → Option (CString × CString)
  | [] => none
  | c :: t =>
    if c = 34 then do
      let (raw, rest) ← rawString t
      let out ← decodeString raw.length raw
      return (out.takeWhile fun b => b != 0, rest)
    else none

/-- A digit of `%04x`. -/
def hexDigitByte (n : UInt8) : UInt8 := if n < 10 then 48 + n else 97 + (n - 10)

/-- A byte as `print_string_ptr` writes it. -/
def printByte (c : UInt8) : CString :=
  if c = 92 ∨ c = 34 then [92, c]
  else if c = 8 then [92, 98]
  else if c = 12 then [92, 102]
  else if c = 10 then [92, 110]
  else if c = 13 then [92, 114]
  else if c = 9 then [92, 116]
  else if c < 32 then [92, 117, 48, 48, hexDigitByte (c >>> 4), hexDigitByte (c &&& 15)]
  else [c]

/-- `print_string_ptr`. -/
def printString (s : CString) : CString := 34 :: (s.flatMap printByte ++ [34])

/-! ## Values -/

/-- `buffer_skip_whitespace`. -/
def skipWhitespace (s : CString) : CString := s.dropWhile fun c => c ≤ 32

/-- The elements of an array, each of at least one byte. -/
def parseElements (value : CString → Option (Json D × CString)) :
    ℕ → CString → Option (List (Json D) × CString)
  | 0, _ => none
  | fuel + 1, s => do
    let (v, s) ← value (skipWhitespace s)
    match skipWhitespace s with
    | [] => none
    | c :: s =>
      if c = 44 then (parseElements value fuel s).map fun r => (v :: r.1, r.2)
      else if c = 93 then some ([v], s)
      else none

/-- The members of an object. -/
def parseMembers (value : CString → Option (Json D × CString)) :
    ℕ → CString → Option (List (CString × Json D) × CString)
  | 0, _ => none
  | fuel + 1, s => do
    let (key, s) ← parseString (skipWhitespace s)
    match skipWhitespace s with
    | [] => none
    | c :: s =>
      if c = 58 then do
        let (v, s) ← value (skipWhitespace s)
        match skipWhitespace s with
        | [] => none
        | c :: s =>
          if c = 44 then (parseMembers value fuel s).map fun r => ((key, v) :: r.1, r.2)
          else if c = 125 then some ([(key, v)], s)
          else none
      else none

/-- `parse_array` after its bracket. -/
def parseArray (value : CString → Option (Json D × CString)) (s : CString) :
    Option (Json D × CString) :=
  let s := skipWhitespace s
  if s.head? = some 93 then some (.arr [], s.tail)
  else (parseElements value s.length s).map fun r => (.arr r.1, r.2)

/-- `parse_object` after its brace. -/
def parseObject (value : CString → Option (Json D × CString)) (s : CString) :
    Option (Json D × CString) :=
  let s := skipWhitespace s
  if s.head? = some 125 then some (.obj [], s.tail)
  else (parseMembers value s.length s).map fun r => (.obj r.1, r.2)

/-- `parse_value`; `inner` parses what a container contains. -/
def parseValueWith (inner : Option (CString → Option (Json D × CString))) (s : CString) :
    Option (Json D × CString) :=
  if (cstr "null").isPrefixOf s then some (.null, s.drop 4)
  else if (cstr "false").isPrefixOf s then some (.bool false, s.drop 5)
  else if (cstr "true").isPrefixOf s then some (.bool true, s.drop 4)
  else
    match s with
    | [] => none
    | c :: t =>
      if c = 34 then (parseString s).map fun r => (.str r.1, r.2)
      else if numberHead c then parseNumber F s
      else if c = 91 then inner.bind fun value => parseArray value t
      else if c = 123 then inner.bind fun value => parseObject value t
      else none

/-- `parse_value`, where `room` containers may still be opened. -/
def parseValue : ℕ → CString → Option (Json D × CString)
  | 0, s => parseValueWith F none s
  | room + 1, s => parseValueWith F (some (parseValue room)) s

/-- `CJSON_NESTING_LIMIT`. -/
def nestingLimit : ℕ := 1000

/-- `skip_utf8_bom`. -/
def skipBom (s : CString) : CString :=
  if 4 ≤ s.length ∧ [0xEF, 0xBB, 0xBF].isPrefixOf s then s.drop 3 else s

/-- `cJSON_Parse`: what follows the value does not matter. -/
def cJsonParse (s : CString) : Option (Json D) :=
  (parseValue F nestingLimit (skipWhitespace (skipBom s))).map Prod.fst

mutual

/-- `cJSON_PrintUnformatted`. -/
def Json.print : Json D → CString
  | .null => cstr "null"
  | .bool b => if b then cstr "true" else cstr "false"
  | .num d => F.printNumber d
  | .str s => printString s
  | .arr xs => 91 :: (Json.printElements xs ++ [93])
  | .obj ms => 123 :: (Json.printMembers ms ++ [125])

def Json.printElements : List (Json D) → CString
  | [] => []
  | x :: xs => x.print ++ ((if xs.isEmpty then [] else [44]) ++ Json.printElements xs)

def Json.printMembers : List (CString × Json D) → CString
  | [] => []
  | m :: ms => Json.printMember m ++ ((if ms.isEmpty then [] else [44]) ++ Json.printMembers ms)

def Json.printMember : CString × Json D → CString
  | (key, v) => printString key ++ 58 :: v.print

end

/-! ## What a round trip makes of a value -/

/-- A number after a print and a parse. -/
def rereadNumber (d : D) : Json D :=
  if F.finite d then ((F.strtod (F.print d)).map fun r => Json.num r.1).getD .null else .null

mutual

/-- A value after a print and a parse. -/
def Json.reread : Json D → Json D
  | .null => .null
  | .bool b => .bool b
  | .num d => rereadNumber F d
  | .str s => .str s
  | .arr xs => .arr (Json.rereads xs)
  | .obj ms => .obj (Json.rereadMembers ms)

def Json.rereads : List (Json D) → List (Json D)
  | [] => []
  | x :: xs => x.reread :: Json.rereads xs

def Json.rereadMembers : List (CString × Json D) → List (CString × Json D)
  | [] => []
  | m :: ms => Json.rereadMember m :: Json.rereadMembers ms

def Json.rereadMember : CString × Json D → CString × Json D
  | (key, v) => (key, v.reread)

end

mutual

/-- How deep a value nests. -/
def Json.depth : Json D → ℕ
  | .null | .bool _ | .num _ | .str _ => 0
  | .arr xs => Json.depths xs + 1
  | .obj ms => Json.depthMembers ms + 1

def Json.depths : List (Json D) → ℕ
  | [] => 0
  | x :: xs => max x.depth (Json.depths xs)

def Json.depthMembers : List (CString × Json D) → ℕ
  | [] => 0
  | m :: ms => max (Json.depthMember m) (Json.depthMembers ms)

def Json.depthMember : CString × Json D → ℕ
  | (_, v) => v.depth

end

mutual

/-- All numbers and all strings of a value are as they should be, keys included. -/
def Json.All (number : D → Prop) (string : CString → Prop) : Json D → Prop
  | .null | .bool _ => True
  | .num d => number d
  | .str s => string s
  | .arr xs => Json.AllElements number string xs
  | .obj ms => Json.AllMembers number string ms

def Json.AllElements (number : D → Prop) (string : CString → Prop) : List (Json D) → Prop
  | [] => True
  | x :: xs => x.All number string ∧ Json.AllElements number string xs

def Json.AllMembers (number : D → Prop) (string : CString → Prop) :
    List (CString × Json D) → Prop
  | [] => True
  | m :: ms => Json.AllMember number string m ∧ Json.AllMembers number string ms

def Json.AllMember (number : D → Prop) (string : CString → Prop) : CString × Json D → Prop
  | (key, v) => string key ∧ v.All number string

end

/-! ## Strings are read back -/

section Strings

variable {s t raw rest out : CString} {c : UInt8}

theorem rawString_cons (hquote : c ≠ 34) (hbackslash : c ≠ 92) (ht : t ≠ []) :
    rawString (c :: t) = (rawString t).map fun r => (c :: r.1, r.2) := by
  cases t with
  | nil => exact absurd rfl ht
  | cons d t => rw [rawString, if_neg hquote, if_neg hbackslash]

theorem rawString_quote (rest : CString) : rawString (34 :: rest) = some ([], rest) := by
  cases rest with
  | nil => rfl
  | cons d rest => rfl

/-- The first loop passes over a byte that was printed. -/
theorem rawString_printByte (c : UInt8) (ht : t ≠ []) :
    rawString (printByte c ++ t) = (rawString t).map fun r => (printByte c ++ r.1, r.2) := by
  have hpair : ∀ d : UInt8, rawString ([92, d] ++ t) =
      (rawString t).map fun r => ([92, d] ++ r.1, r.2) := fun d => rfl
  have hdigit : ∀ n : UInt8, n < 16 → hexDigitByte n ≠ 34 ∧ hexDigitByte n ≠ 92 :=
    forall_byte (by decide +kernel)
  have hhigh : ∀ c : UInt8, c >>> 4 < 16 := forall_byte (by decide +kernel)
  have hlow : ∀ c : UInt8, c &&& 15 < 16 := forall_byte (by decide +kernel)
  unfold printByte
  split
  · exact hpair c
  · next hplain =>
    obtain ⟨hbackslash, hquote⟩ := not_or.mp hplain
    split
    · exact hpair 98
    · split
      · exact hpair 102
      · split
        · exact hpair 110
        · split
          · exact hpair 114
          · split
            · exact hpair 116
            · split
              · obtain ⟨hquote₁, hbackslash₁⟩ := hdigit _ (hhigh c)
                obtain ⟨hquote₂, hbackslash₂⟩ := hdigit _ (hlow c)
                show rawString (92 :: 117 :: 48 :: 48 :: hexDigitByte (c >>> 4) ::
                  hexDigitByte (c &&& 15) :: t) = _
                rw [rawString, if_neg (by decide), if_pos rfl,
                  rawString_cons (by decide) (by decide) (List.cons_ne_nil _ _),
                  rawString_cons (by decide) (by decide) (List.cons_ne_nil _ _),
                  rawString_cons hquote₁ hbackslash₁ (List.cons_ne_nil _ _),
                  rawString_cons hquote₂ hbackslash₂ ht]
                simp only [Option.map_map]
                rfl
              · exact rawString_cons hquote hbackslash ht

theorem rawString_flatMap (s rest : CString) :
    rawString (s.flatMap printByte ++ 34 :: rest) = some (s.flatMap printByte, rest) := by
  induction s with
  | nil => exact rawString_quote rest
  | cons c s ih =>
    rw [List.flatMap_cons, List.append_assoc, rawString_printByte c (by simp), ih]
    rfl

/-- The second loop turns it back into the byte. -/
theorem decodeString_printByte (fuel : ℕ) (c : UInt8) (t : CString) :
    decodeString (fuel + 1) (printByte c ++ t) = (decodeString fuel t).map (c :: ·) := by
  -- an escape of this one byte is read back as the byte
  have hescape : ∀ {d : UInt8} {u : CString}, decodeEscape (d :: u) = some ([c], t) →
      decodeString (fuel + 1) (92 :: d :: u) = (decodeString fuel t).map (c :: ·) := by
    intro d u h
    rw [decodeString, if_pos rfl, h]
    show (decodeString fuel t).bind (fun out => some ([c] ++ out)) = _
    cases decodeString fuel t with
    | none => rfl
    | some out => rfl
  unfold printByte
  split
  · next h =>
    refine hescape ?_
    rcases h with rfl | rfl
    · rfl
    · rfl
  · next hplain =>
    obtain ⟨hbackslash, -⟩ := not_or.mp hplain
    split
    · next h => exact hescape (by rw [h]; rfl)
    · split
      · next h => exact hescape (by rw [h]; rfl)
      · split
        · next h => exact hescape (by rw [h]; rfl)
        · split
          · next h => exact hescape (by rw [h]; rfl)
          · split
            · next h => exact hescape (by rw [h]; rfl)
            · split
              · next hcontrol =>
                -- the other control characters are written with four digits
                refine hescape ?_
                have hhex : ∀ c : UInt8, c < 32 →
                    parseHex4 [48, 48, hexDigitByte (c >>> 4), hexDigitByte (c &&& 15)] =
                      c.toNat :=
                  forall_byte (by decide +kernel)
                have hlt : c.toNat < 32 := hcontrol
                have hliteral : utf16Literal (48 :: 48 :: hexDigitByte (c >>> 4) ::
                    hexDigitByte (c &&& 15) :: t) = some ([c], t) := by
                  unfold utf16Literal
                  simp only [List.take_succ_cons, List.take_zero, List.drop_succ_cons,
                    List.drop_zero, hhex c hcontrol, List.length_cons]
                  rw [if_neg (by omega), if_neg (by omega)]
                  unfold utf8Bytes
                  rw [if_pos (by omega), UInt8.ofNat_toNat]
                exact hliteral
              · show decodeString (fuel + 1) (c :: t) = _
                rw [decodeString, if_neg hbackslash]

theorem decodeString_flatMap {fuel : ℕ} (h : s.length ≤ fuel) :
    decodeString fuel (s.flatMap printByte) = some s := by
  induction s generalizing fuel with
  | nil =>
    cases fuel with
    | zero => rfl
    | succ fuel => rfl
  | cons c s ih =>
    obtain ⟨fuel, rfl⟩ := Nat.exists_eq_succ_of_ne_zero (Nat.ne_of_gt (Nat.zero_lt_of_lt h))
    rw [List.flatMap_cons, decodeString_printByte, ih (Nat.le_of_succ_le_succ h)]
    rfl

theorem takeWhile_of_nul_not_mem (h : 0 ∉ s) : s.takeWhile (fun b => b != 0) = s := by
  rw [List.takeWhile_eq_self_iff]
  intro b hb
  exact bne_iff_ne.mpr fun hzero => h (hzero ▸ hb)

theorem length_le_flatMap_printByte (s : CString) : s.length ≤ (s.flatMap printByte).length := by
  have hone : ∀ c : UInt8, 1 ≤ (printByte c).length := forall_byte (by decide +kernel)
  induction s with
  | nil => exact le_rfl
  | cons c s ih =>
    have := hone c
    rw [List.flatMap_cons, List.length_append, List.length_cons]
    omega

/-- **A printed string** is read back. -/
theorem parseString_printString (h : 0 ∉ s) (rest : CString) :
    parseString (printString s ++ rest) = some (s, rest) := by
  have happend : printString s ++ rest = 34 :: (s.flatMap printByte ++ 34 :: rest) := by
    simp [printString]
  rw [happend, parseString, if_pos rfl, rawString_flatMap]
  show (decodeString _ _).bind _ = _
  rw [decodeString_flatMap (length_le_flatMap_printByte s)]
  show some (s.takeWhile _, rest) = _
  rw [takeWhile_of_nul_not_mem h]

/-- No byte of the string is a quote or a backslash. -/
def Unescaped (s : CString) : Prop := 34 ∉ s ∧ 92 ∉ s

instance (s : CString) : Decidable (Unescaped s) := inferInstanceAs (Decidable (_ ∧ _))

/-- **A string between quotes** is read back when there is nothing to escape in it. -/
theorem parseString_of_unescaped (hs : Unescaped s) (h : 0 ∉ s) (rest : CString) :
    parseString (34 :: (s ++ 34 :: rest)) = some (s, rest) := by
  have hraw : rawString (s ++ 34 :: rest) = some (s, rest) := by
    clear h
    induction s with
    | nil => exact rawString_quote rest
    | cons c s ih =>
      simp only [Unescaped, List.mem_cons, not_or] at hs
      rw [List.cons_append, rawString_cons (Ne.symm hs.1.1) (Ne.symm hs.2.1) (by simp),
        ih ⟨hs.1.2, hs.2.2⟩]
      rfl
  have hdecode : ∀ fuel, s.length ≤ fuel → decodeString fuel s = some s := by
    clear h hraw
    induction s with
    | nil =>
      intro fuel _
      cases fuel with
      | zero => rfl
      | succ fuel => rfl
    | cons c s ih =>
      intro fuel hfuel
      simp only [Unescaped, List.mem_cons, not_or] at hs
      obtain ⟨fuel, rfl⟩ := Nat.exists_eq_succ_of_ne_zero
        (Nat.ne_of_gt (Nat.zero_lt_of_lt hfuel))
      rw [decodeString, if_neg (Ne.symm hs.2.1),
        ih ⟨hs.1.2, hs.2.2⟩ fuel (Nat.le_of_succ_le_succ hfuel)]
      rfl
  rw [parseString, if_pos rfl, hraw]
  show (decodeString _ _).bind _ = _
  rw [hdecode _ le_rfl]
  show some (s.takeWhile _, rest) = _
  rw [takeWhile_of_nul_not_mem h]

/-- A quote inside the text before the closing quote has a backslash before it. -/
theorem backslash_mem_of_quote_mem (h : rawString t = some (raw, rest)) (hquote : 34 ∈ raw) :
    92 ∈ raw := by
  fun_induction rawString t generalizing raw rest with
  | case1 => cases h
  | case2 =>
    cases h
    cases hquote
  | case3 => cases h
  | case4 =>
    cases h
    cases hquote
  | case5 c d t ih =>
    obtain ⟨r, -, hr⟩ := Option.map_eq_some_iff.mp h
    obtain ⟨rfl, -⟩ := Prod.mk.inj hr
    exact List.mem_cons_self
  | case6 c d t hc _ ih =>
    obtain ⟨⟨raw', rest'⟩, hr, heq⟩ := Option.map_eq_some_iff.mp h
    obtain ⟨rfl, -⟩ := Prod.mk.inj heq
    rcases List.mem_cons.mp hquote with hquote | hquote
    · exact absurd hquote.symm hc
    · exact List.mem_cons_of_mem c (ih hr hquote)

theorem rawString_eq_append (h : rawString t = some (raw, rest)) : t = raw ++ 34 :: rest := by
  fun_induction rawString t generalizing raw rest with
  | case1 => cases h
  | case2 =>
    cases h
    rfl
  | case3 => cases h
  | case4 =>
    cases h
    rfl
  | case5 d t _ ih =>
    obtain ⟨⟨raw', rest'⟩, hr, heq⟩ := Option.map_eq_some_iff.mp h
    obtain ⟨rfl, rfl⟩ := Prod.mk.inj heq
    rw [ih hr]
    rfl
  | case6 c d t _ _ ih =>
    obtain ⟨⟨raw', rest'⟩, hr, heq⟩ := Option.map_eq_some_iff.mp h
    obtain ⟨rfl, rfl⟩ := Prod.mk.inj heq
    rw [ih hr]
    rfl

/-- Where the quote after a text is escaped, the string goes on to the next quote, two bytes
later. -/
theorem rawString_past_end (c : UInt8) (t : CString) : ∀ (s : CString) {raw rest : CString},
    rawString (s ++ 34 :: 44 :: 34 :: c :: t) = some (raw, rest) →
      raw.length ≤ s.length ∨ rest = c :: t
  | [], raw, rest, h => by
    rw [List.nil_append, rawString_quote] at h
    cases h
    exact Or.inl le_rfl
  | [d], raw, rest, h => by
    rw [List.singleton_append, rawString] at h
    split at h
    · cases h
      exact Or.inl (Nat.zero_le _)
    · split at h
      · rw [rawString_cons (by decide) (by decide) (List.cons_ne_nil _ _), rawString_quote] at h
        cases h
        exact Or.inr rfl
      · rw [rawString_quote] at h
        cases h
        exact Or.inl le_rfl
  | d :: e :: s, raw, rest, h => by
    rw [List.cons_append, List.cons_append, rawString] at h
    split at h
    · cases h
      exact Or.inl (Nat.zero_le _)
    · split at h
      · obtain ⟨⟨raw', rest'⟩, hr, heq⟩ := Option.map_eq_some_iff.mp h
        obtain ⟨rfl, rfl⟩ := Prod.mk.inj heq
        refine (rawString_past_end c t s hr).imp_left fun hle => ?_
        simp only [List.length_cons]
        omega
      · obtain ⟨⟨raw', rest'⟩, hr, heq⟩ := Option.map_eq_some_iff.mp h
        obtain ⟨rfl, rfl⟩ := Prod.mk.inj heq
        exact (rawString_past_end c t (e :: s) hr).imp_left Nat.succ_le_succ

theorem length_utf8Bytes_le (codepoint : ℕ) : (utf8Bytes codepoint).length ≤ 4 := by
  unfold utf8Bytes
  dsimp only
  split
  · exact Nat.le_add_left 1 3
  · split
    · exact Nat.le_add_left 2 2
    · split
      · exact Nat.le_add_left 3 1
      · exact le_rfl

theorem utf16Literal_length {bytes : CString} (h : utf16Literal t = some (bytes, rest)) :
    bytes.length + rest.length ≤ t.length := by
  have hdrop : ∀ n : ℕ, (t.drop n).length = t.length - n := fun n => List.length_drop
  unfold utf16Literal at h
  dsimp only at h
  split at h
  · cases h
  · next hlength =>
    split at h
    · split at h
      · cases h
      · next hsecond =>
        obtain ⟨rfl, rfl⟩ := Prod.mk.inj (Option.some.inj h)
        refine (Nat.add_le_add_right (length_utf8Bytes_le _) _).trans ?_
        rw [List.drop_drop, hdrop]
        rw [hdrop] at hsecond
        omega
    · obtain ⟨rfl, rfl⟩ := Prod.mk.inj (Option.some.inj h)
      refine (Nat.add_le_add_right (length_utf8Bytes_le _) _).trans ?_
      rw [hdrop]
      omega

/-- An escape sequence is longer than its bytes, even without its backslash. -/
theorem decodeEscape_length {bytes : CString} (h : decodeEscape t = some (bytes, rest)) :
    bytes.length + rest.length ≤ t.length := by
  cases t with
  | nil => cases h
  | cons c t =>
    have hone : ∀ d : UInt8, some ([d], t) = some (bytes, rest) →
        bytes.length + rest.length ≤ t.length + 1 := by
      rintro d heq
      cases heq
      rw [List.length_singleton]
      omega
    rw [decodeEscape] at h
    split at h
    · exact hone _ h
    · split at h
      · exact hone _ h
      · split at h
        · exact hone _ h
        · split at h
          · exact hone _ h
          · split at h
            · exact hone _ h
            · split at h
              · exact hone _ h
              · split at h
                · exact (utf16Literal_length h).trans (Nat.le_succ _)
                · cases h

/-- Decoding makes a text shorter wherever there is something to decode. -/
theorem decodeString_length {fuel : ℕ} (h : decodeString fuel raw = some out) :
    out.length ≤ raw.length ∧ (92 ∈ raw → out.length < raw.length) := by
  induction fuel generalizing raw out with
  | zero =>
    cases raw with
    | nil =>
      cases h
      exact ⟨le_rfl, nofun⟩
    | cons c raw => cases h
  | succ fuel ih =>
    cases raw with
    | nil =>
      cases h
      exact ⟨le_rfl, nofun⟩
    | cons c raw =>
      rw [decodeString] at h
      split at h
      · obtain ⟨⟨bytes, rest⟩, hbytes, h⟩ := Option.bind_eq_some_iff.mp h
        obtain ⟨out', hout, h⟩ := Option.bind_eq_some_iff.mp h
        obtain rfl : bytes ++ out' = out := Option.some.inj h
        have hlen := decodeEscape_length hbytes
        have hrest := (ih hout).1
        rw [List.length_append, List.length_cons]
        exact ⟨by omega, fun _ => by omega⟩
      · next hc =>
        obtain ⟨out', hout, rfl⟩ := Option.map_eq_some_iff.mp h
        obtain ⟨hle, hlt⟩ := ih hout
        refine ⟨Nat.succ_le_succ hle, fun hmem => ?_⟩
        rcases List.mem_cons.mp hmem with heq | hmem
        · exact absurd heq.symm hc
        · exact Nat.succ_lt_succ (hlt hmem)

/-- **A string between quotes** that has something to escape is not read back: it comes out
shorter, or runs into what follows. -/
theorem parseString_of_escapable (hs : ¬ Unescaped s)
    (h : parseString (34 :: (s ++ 34 :: 44 :: 34 :: c :: t)) = some (out, rest)) :
    out ≠ s ∨ rest = c :: t := by
  rw [parseString, if_pos rfl] at h
  obtain ⟨⟨raw, rest'⟩, hraw, h⟩ := Option.bind_eq_some_iff.mp h
  obtain ⟨out', hout, h⟩ := Option.bind_eq_some_iff.mp h
  obtain ⟨rfl, rfl⟩ := Prod.mk.inj (Option.some.inj h)
  refine (rawString_past_end c t s hraw).imp_left fun hle heq => hs ?_
  obtain ⟨hshorter, hstrict⟩ := decodeString_length hout
  have htake : (out'.takeWhile fun b => b != 0).length ≤ out'.length :=
    (List.takeWhile_prefix _).length_le
  rw [heq] at htake
  have hlength : raw.length = s.length := by omega
  have hbackslash : 92 ∉ raw := fun hmem => by
    have := hstrict hmem
    omega
  have hsame : raw = s := (List.append_inj (rawString_eq_append hraw).symm hlength).1
  rw [← hsame]
  exact ⟨fun hquote => hbackslash (backslash_mem_of_quote_mem hraw hquote), hbackslash⟩

end Strings

/-! ## Values are read back -/

section Values

variable {F} {s t rest : CString} {c : UInt8}

theorem skipWhitespace_cons (h : 32 < c) (t : CString) : skipWhitespace (c :: t) = c :: t :=
  List.dropWhile_cons_of_neg (by simpa using h)

/-- The text starts with a byte that is no white space and ends no list. -/
def StartsValue (s : CString) : Prop :=
  ∃ c t, s = c :: t ∧ 32 < c ∧ c ≠ 93 ∧ c ≠ 125 ∧ c ≠ 0xEF

theorem StartsValue.append (h : StartsValue s) (t : CString) : StartsValue (s ++ t) := by
  obtain ⟨c, u, rfl, hc⟩ := h
  exact ⟨c, u ++ t, rfl, hc⟩

theorem StartsValue.skipWhitespace (h : StartsValue s) : skipWhitespace s = s := by
  obtain ⟨c, t, rfl, hc, -⟩ := h
  exact skipWhitespace_cons hc t

/-- The first byte of a number starts a value. -/
theorem numberHead_starts (c : UInt8) (hc : numberHead c = true) :
    32 < c ∧ c ≠ 93 ∧ c ≠ 125 ∧ c ≠ 0xEF := by
  have hspace : 32 < c := by
    rw [numberHead, Bool.or_eq_true, Bool.and_eq_true, beq_iff_eq, decide_eq_true_iff] at hc
    rcases hc with rfl | hdigit
    · decide
    · exact lt_of_lt_of_le (by decide) hdigit.1
  exact ⟨hspace, ne_of_test hc (by decide), ne_of_test hc (by decide), ne_of_test hc (by decide)⟩

theorem startsValue_print (hF : F.Lawful) (v : Json D) : StartsValue (v.print F) := by
  cases v with
  | null => exact ⟨_, _, rfl, by decide⟩
  | bool b =>
    cases b with
    | false => exact ⟨_, _, rfl, by decide⟩
    | true => exact ⟨_, _, rfl, by decide⟩
  | num d =>
    show StartsValue (F.printNumber d)
    unfold NumberText.printNumber
    split
    · next hd =>
      obtain ⟨c, t, htext, hc⟩ := hF.head d hd
      exact ⟨c, t, htext, numberHead_starts c hc⟩
    · exact ⟨_, _, rfl, by decide⟩
  | str s => exact ⟨_, _, rfl, by decide⟩
  | arr xs => exact ⟨_, _, rfl, by decide⟩
  | obj ms => exact ⟨_, _, rfl, by decide⟩

/-- A text that no word starts is told by its first byte. -/
theorem parseValueWith_cons (inner : Option (CString → Option (Json D × CString)))
    (hn : c ≠ 110) (hf : c ≠ 102) (ht : c ≠ 116) (t : CString) :
    parseValueWith F inner (c :: t) =
      if c = 34 then (parseString (c :: t)).map fun r => (.str r.1, r.2)
      else if numberHead c then parseNumber F (c :: t)
      else if c = 91 then inner.bind fun value => parseArray value t
      else if c = 123 then inner.bind fun value => parseObject value t
      else none := by
  have hprefix : ∀ (d : UInt8) (u : CString), c ≠ d → (d :: u).isPrefixOf (c :: t) = false := by
    intro d u hd
    rw [List.isPrefixOf_cons_cons, beq_eq_false_iff_ne.mpr (Ne.symm hd), Bool.false_and]
  have hnull : (cstr "null").isPrefixOf (c :: t) = false := hprefix _ _ hn
  have hfalse : (cstr "false").isPrefixOf (c :: t) = false := hprefix _ _ hf
  have htrue : (cstr "true").isPrefixOf (c :: t) = false := hprefix _ _ ht
  unfold parseValueWith
  rw [hnull, hfalse, htrue]
  rfl

/-- What follows a number ends it. -/
def EndsNumber (rest : CString) : Prop := ∀ c ∈ rest.head?, numberByte c = false

theorem endsNumber_cons (h : numberByte c = false) (t : CString) : EndsNumber (c :: t) := by
  intro d hd
  cases hd
  exact h

theorem takeWhile_number (hs : ∀ c ∈ s, numberByte c = true) (hrest : EndsNumber rest) :
    (s ++ rest).takeWhile numberByte = s := by
  rw [List.takeWhile_append_of_pos hs]
  cases rest with
  | nil => exact List.append_nil s
  | cons c rest =>
    rw [List.takeWhile_cons_of_neg (by rw [hrest c rfl]; decide), List.append_nil]

/-- The text of a number is what `strtod` reads in it. -/
theorem parseValueWith_numberText (inner : Option (CString → Option (Json D × CString)))
    {e : D} (hhead : ∃ c t, s = c :: t ∧ numberHead c = true)
    (hbytes : ∀ c ∈ s, numberByte c = true) (hlength : s.length ≤ 63)
    (hstrtod : F.strtod s = some (e, s.length)) (hrest : EndsNumber rest) :
    parseValueWith F inner (s ++ rest) = some (.num e, rest) := by
  obtain ⟨c, t, htext, hc⟩ := hhead
  have hn : c ≠ 110 := ne_of_test hc (by decide)
  have hf : c ≠ 102 := ne_of_test hc (by decide)
  have ht : c ≠ 116 := ne_of_test hc (by decide)
  have hquote : c ≠ 34 := ne_of_test hc (by decide)
  have hcons : s ++ rest = c :: (t ++ rest) := by rw [htext, List.cons_append]
  have htake : ((s ++ rest).takeWhile numberByte).take 63 = s := by
    rw [takeWhile_number hbytes hrest]
    exact List.take_of_length_le hlength
  rw [hcons, parseValueWith_cons inner hn hf ht, if_neg hquote, if_pos hc, ← hcons, parseNumber,
    htake, hstrtod]
  simp

theorem parseValueWith_printNumber (hF : F.Lawful)
    (inner : Option (CString → Option (Json D × CString))) (d : D) (hrest : EndsNumber rest) :
    parseValueWith F inner (F.printNumber d ++ rest) = some (rereadNumber F d, rest) := by
  unfold NumberText.printNumber rereadNumber
  split
  · next hd =>
    obtain ⟨e, he⟩ := hF.strtod_print d hd
    rw [parseValueWith_numberText inner (hF.head d hd) (hF.bytes d hd)
      ((hF.length d hd).trans (by decide)) he hrest, he]
    rfl
  · rfl

variable (F) in
/-- The parser of what a container contains. -/
def innerParser : ℕ → Option (CString → Option (Json D × CString))
  | 0 => none
  | room + 1 => some (parseValue F room)

theorem parseValue_eq (room : ℕ) (s : CString) :
    parseValue F room s = parseValueWith F (innerParser F room) s := by
  cases room with
  | zero => rfl
  | succ room => rfl

theorem length_le_printElements (hF : F.Lawful) (xs : List (Json D)) :
    xs.length ≤ (Json.printElements F xs).length := by
  induction xs with
  | nil => exact le_rfl
  | cons x xs ih =>
    obtain ⟨c, t, hx, -⟩ := startsValue_print hF x
    rw [Json.printElements, hx]
    simp only [List.length_append, List.length_cons]
    omega

theorem length_le_printMembers (ms : List (CString × Json D)) :
    ms.length ≤ (Json.printMembers F ms).length := by
  induction ms with
  | nil => exact le_rfl
  | cons m ms ih =>
    rw [Json.printMembers, Json.printMember, printString]
    simp only [List.length_append, List.length_cons]
    omega

variable (F) in
/-- The value is read as deep as it may nest. -/
def ParsesBack (v : Json D) : Prop :=
  ∀ (room : ℕ) (rest : CString), EndsNumber rest → parseValue F room (v.print F ++ rest) =
    if v.depth ≤ room then some (v.reread F, rest) else none

variable (F) in
/-- So are the elements of a list. -/
def ElementsParseBack (xs : List (Json D)) : Prop :=
  ∀ (room : ℕ) (rest : CString) (fuel : ℕ), xs ≠ [] → xs.length ≤ fuel →
    parseElements (parseValue F room) fuel (Json.printElements F xs ++ 93 :: rest) =
      if Json.depths xs ≤ room then some (Json.rereads F xs, rest) else none

variable (F) in
/-- So are the members of an object. -/
def MembersParseBack (ms : List (CString × Json D)) : Prop :=
  ∀ (room : ℕ) (rest : CString) (fuel : ℕ), ms ≠ [] → ms.length ≤ fuel →
    parseMembers (parseValue F room) fuel (Json.printMembers F ms ++ 125 :: rest) =
      if Json.depthMembers ms ≤ room then some (Json.rereadMembers F ms, rest) else none

theorem parsesBack_str (hs : 0 ∉ s) : ParsesBack F (.str s : Json D) := by
  intro room rest _
  have hcons : printString s ++ rest = 34 :: (s.flatMap printByte ++ [34] ++ rest) := rfl
  rw [parseValue_eq, Json.print, Json.depth, Json.reread, if_pos (Nat.zero_le _), hcons,
    parseValueWith_cons _ (by decide) (by decide) (by decide), if_pos rfl, ← hcons,
    parseString_printString hs]
  rfl

theorem parsesBack_arr (hF : F.Lawful) {xs : List (Json D)} (h : ElementsParseBack F xs) :
    ParsesBack F (.arr xs) := by
  intro room rest _
  rw [parseValue_eq, Json.print, Json.depth, Json.reread, List.cons_append,
    parseValueWith_cons _ (by decide) (by decide) (by decide), if_neg (by decide),
    if_neg (by decide), if_pos rfl]
  cases room with
  | zero => rfl
  | succ room =>
    show parseArray (parseValue F room) (Json.printElements F xs ++ [93] ++ rest) = _
    rw [List.append_assoc, List.singleton_append]
    cases xs with
    | nil => rfl
    | cons x xs =>
      have hstarts : StartsValue (Json.printElements F (x :: xs) ++ 93 :: rest) :=
        ((startsValue_print hF x).append _).append _
      have hskip := hstarts.skipWhitespace
      obtain ⟨c, t, htext, -, hc, -⟩ := hstarts
      have hlength := length_le_printElements hF (x :: xs)
      unfold parseArray
      dsimp only
      rw [hskip, if_neg (by rw [htext]; simpa using hc),
        h room rest _ (List.cons_ne_nil x xs) (by rw [List.length_append]; omega)]
      simp only [Nat.add_le_add_iff_right]
      split
      · rfl
      · rfl

theorem parsesBack_obj {ms : List (CString × Json D)} (h : MembersParseBack F ms) :
    ParsesBack F (.obj ms) := by
  intro room rest _
  rw [parseValue_eq, Json.print, Json.depth, Json.reread, List.cons_append,
    parseValueWith_cons _ (by decide) (by decide) (by decide), if_neg (by decide),
    if_neg (by decide), if_neg (by decide), if_pos rfl]
  cases room with
  | zero => rfl
  | succ room =>
    show parseObject (parseValue F room) (Json.printMembers F ms ++ [125] ++ rest) = _
    rw [List.append_assoc, List.singleton_append]
    cases ms with
    | nil => rfl
    | cons m ms =>
      have hstarts : StartsValue (Json.printMembers F (m :: ms) ++ 125 :: rest) := by
        obtain ⟨key, v⟩ := m
        exact ⟨34, _, rfl, by decide⟩
      have hskip := hstarts.skipWhitespace
      obtain ⟨c, t, htext, -, -, hc, -⟩ := hstarts
      have hlength := length_le_printMembers (F := F) (m :: ms)
      unfold parseObject
      dsimp only
      rw [hskip, if_neg (by rw [htext]; simpa using hc),
        h room rest _ (List.cons_ne_nil m ms) (by rw [List.length_append]; omega)]
      simp only [Nat.add_le_add_iff_right]
      split
      · rfl
      · rfl

theorem elementsParseBack_cons (hF : F.Lawful) {x : Json D} {xs : List (Json D)}
    (hx : ParsesBack F x) (hxs : ElementsParseBack F xs) : ElementsParseBack F (x :: xs) := by
  intro room rest fuel _ hfuel
  obtain ⟨fuel, rfl⟩ := Nat.exists_eq_succ_of_ne_zero (Nat.ne_of_gt (Nat.zero_lt_of_lt hfuel))
  have hskip : ∀ t, skipWhitespace (x.print F ++ t) = x.print F ++ t := fun t =>
    ((startsValue_print hF x).append t).skipWhitespace
  cases xs with
  | nil =>
    have htext : Json.printElements F [x] ++ 93 :: rest = x.print F ++ 93 :: rest := by
      simp [Json.printElements]
    rw [htext, parseElements, hskip, hx room _ (endsNumber_cons (by decide) rest)]
    simp only [Json.depths, Nat.max_zero]
    split
    · rfl
    · rfl
  | cons y ys =>
    have htext : Json.printElements F (x :: y :: ys) ++ 93 :: rest =
        x.print F ++ 44 :: (Json.printElements F (y :: ys) ++ 93 :: rest) := by
      rw [Json.printElements]
      simp
    have hboth : Json.depths (x :: y :: ys) ≤ room ↔
        x.depth ≤ room ∧ Json.depths (y :: ys) ≤ room := Nat.max_le
    rw [htext, parseElements, hskip, hx room _ (endsNumber_cons (by decide) _)]
    by_cases hdepth : x.depth ≤ room
    · rw [if_pos hdepth]
      show ((parseElements (parseValue F room) fuel _).map _) = _
      rw [hxs room rest fuel (List.cons_ne_nil y ys) (Nat.le_of_succ_le_succ hfuel)]
      by_cases hdepths : Json.depths (y :: ys) ≤ room
      · rw [if_pos hdepths, if_pos (hboth.mpr ⟨hdepth, hdepths⟩)]
        rfl
      · rw [if_neg hdepths, if_neg fun h => hdepths (hboth.mp h).2]
        rfl
    · rw [if_neg hdepth, if_neg fun h => hdepth (hboth.mp h).1]
      rfl

theorem membersParseBack_cons (hF : F.Lawful) {key : CString} {v : Json D}
    {ms : List (CString × Json D)} (hkey : 0 ∉ key) (hv : ParsesBack F v)
    (hms : MembersParseBack F ms) : MembersParseBack F ((key, v) :: ms) := by
  intro room rest fuel _ hfuel
  obtain ⟨fuel, rfl⟩ := Nat.exists_eq_succ_of_ne_zero (Nat.ne_of_gt (Nat.zero_lt_of_lt hfuel))
  have hskip : ∀ t, skipWhitespace (v.print F ++ t) = v.print F ++ t := fun t =>
    ((startsValue_print hF v).append t).skipWhitespace
  -- the name is read back up to the colon
  have hname : ∀ t, parseString (skipWhitespace (printString key ++ t)) = some (key, t) := by
    intro t
    have hquote : skipWhitespace (printString key ++ t) = printString key ++ t :=
      skipWhitespace_cons (by decide) _
    rw [hquote, parseString_printString hkey]
  cases ms with
  | nil =>
    -- the last member is followed by the closing brace
    have htext : Json.printMembers F [(key, v)] ++ 125 :: rest =
        printString key ++ 58 :: (v.print F ++ 125 :: rest) := by
      simp [Json.printMembers, Json.printMember]
    rw [htext, parseMembers, hname]
    show (parseValue F room (skipWhitespace (v.print F ++ 125 :: rest))).bind _ = _
    rw [hskip, hv room _ (endsNumber_cons (by decide) rest)]
    simp only [Json.depthMembers, Json.depthMember, Nat.max_zero]
    split
    · rfl
    · rfl
  | cons n ns =>
    -- a comma leads on to the others, which are no deeper than the object
    have htext : Json.printMembers F ((key, v) :: n :: ns) ++ 125 :: rest =
        printString key ++ 58 :: (v.print F ++
          44 :: (Json.printMembers F (n :: ns) ++ 125 :: rest)) := by
      rw [Json.printMembers, Json.printMember]
      simp
    have hboth : Json.depthMembers ((key, v) :: n :: ns) ≤ room ↔
        v.depth ≤ room ∧ Json.depthMembers (n :: ns) ≤ room := Nat.max_le
    rw [htext, parseMembers, hname]
    show (parseValue F room (skipWhitespace (v.print F ++ 44 :: _))).bind _ = _
    rw [hskip, hv room _ (endsNumber_cons (by decide) _)]
    by_cases hdepth : v.depth ≤ room
    · rw [if_pos hdepth]
      show ((parseMembers (parseValue F room) fuel _).map _) = _
      rw [hms room rest fuel (List.cons_ne_nil n ns) (Nat.le_of_succ_le_succ hfuel)]
      by_cases hdepths : Json.depthMembers (n :: ns) ≤ room
      · rw [if_pos hdepths, if_pos (hboth.mpr ⟨hdepth, hdepths⟩)]
        rfl
      · rw [if_neg hdepths, if_neg fun h => hdepths (hboth.mp h).2]
        rfl
    · rw [if_neg hdepth, if_neg fun h => hdepth (hboth.mp h).1]
      rfl

mutual

/-- **The parser reads what the printer wrote**, as deep as it may nest. -/
theorem parseValue_print (hF : F.Lawful) : ∀ v : Json D,
    v.All (fun _ => True) (fun s => 0 ∉ s) → ParsesBack F v
  | .null, _ => fun room rest _ => by
    rw [parseValue_eq]
    rfl
  | .bool b, _ => fun room rest _ => by
    rw [parseValue_eq]
    cases b with
    | false => rfl
    | true => rfl
  | .num d, _ => fun room rest hrest => by
    rw [parseValue_eq, Json.print, Json.depth, Json.reread, if_pos (Nat.zero_le _)]
    exact parseValueWith_printNumber hF _ d hrest
  | .str _, hs => parsesBack_str hs
  | .arr xs, hxs => parsesBack_arr hF (parseElements_print hF xs hxs)
  | .obj ms, hms => parsesBack_obj (parseMembers_print hF ms hms)

theorem parseElements_print (hF : F.Lawful) : ∀ xs : List (Json D),
    Json.AllElements (fun _ => True) (fun s => 0 ∉ s) xs → ElementsParseBack F xs
  | [], _ => fun _ _ _ h => absurd rfl h
  | x :: xs, h => elementsParseBack_cons hF (parseValue_print hF x h.1)
      (parseElements_print hF xs h.2)

theorem parseMembers_print (hF : F.Lawful) : ∀ ms : List (CString × Json D),
    Json.AllMembers (fun _ => True) (fun s => 0 ∉ s) ms → MembersParseBack F ms
  | [], _ => fun _ _ _ h => absurd rfl h
  | m :: ms, h => membersParseBack_cons hF (parseMember_print hF m h.1).1
      (parseMember_print hF m h.1).2 (parseMembers_print hF ms h.2)

theorem parseMember_print (hF : F.Lawful) : ∀ m : CString × Json D,
    Json.AllMember (fun _ => True) (fun s => 0 ∉ s) m → 0 ∉ m.1 ∧ ParsesBack F m.2
  | (_, v), h => ⟨h.1, parseValue_print hF v h.2⟩

end

/-- A value that is printed and parsed. -/
theorem cJsonParse_print (hF : F.Lawful) {v : Json D}
    (hv : v.All (fun _ => True) fun s => 0 ∉ s) :
    cJsonParse F (v.print F) = if v.depth ≤ nestingLimit then some (v.reread F) else none := by
  have hstarts := startsValue_print hF v
  have hbom : skipBom (v.print F) = v.print F := by
    obtain ⟨c, t, htext, -, -, -, hc⟩ := hstarts
    unfold skipBom
    refine if_neg fun h => ?_
    have hprefix := h.2
    rw [htext, List.isPrefixOf_cons_cons, Bool.and_eq_true, beq_iff_eq] at hprefix
    exact hc hprefix.1.symm
  have hparse := parseValue_print hF v hv nestingLimit [] nofun
  rw [List.append_nil] at hparse
  unfold cJsonParse
  rw [hbom, hstarts.skipWhitespace, hparse]
  split
  · rfl
  · rfl

theorem rereadNumber_eq_iff {d : D} : rereadNumber F d = .num d ↔ F.ReadsBack d := by
  unfold rereadNumber NumberText.ReadsBack
  split
  · next hd =>
    rw [and_iff_right hd]
    cases F.strtod (F.print d) with
    | none => simp
    | some r => simp
  · next hd => simp [hd]

mutual

/-- **What comes back is the value** exactly when every number in it is read back. -/
theorem reread_eq_iff : ∀ v : Json D, v.reread F = v ↔ v.All F.ReadsBack fun _ => True
  | .null => iff_of_true rfl trivial
  | .bool _ => iff_of_true rfl trivial
  | .num _ => rereadNumber_eq_iff
  | .str _ => iff_of_true rfl trivial
  | .arr xs => by
    rw [Json.reread, Json.arr.injEq]
    exact rereads_eq_iff xs
  | .obj ms => by
    rw [Json.reread, Json.obj.injEq]
    exact rereadMembers_eq_iff ms

theorem rereads_eq_iff : ∀ xs : List (Json D),
    Json.rereads F xs = xs ↔ Json.AllElements F.ReadsBack (fun _ => True) xs
  | [] => iff_of_true rfl trivial
  | x :: xs => by
    rw [Json.rereads, List.cons.injEq]
    exact and_congr (reread_eq_iff x) (rereads_eq_iff xs)

theorem rereadMembers_eq_iff : ∀ ms : List (CString × Json D),
    Json.rereadMembers F ms = ms ↔ Json.AllMembers F.ReadsBack (fun _ => True) ms
  | [] => iff_of_true rfl trivial
  | m :: ms => by
    rw [Json.rereadMembers, List.cons.injEq]
    exact and_congr (rereadMember_eq_iff m) (rereadMembers_eq_iff ms)

theorem rereadMember_eq_iff : ∀ m : CString × Json D,
    Json.rereadMember F m = m ↔ Json.AllMember F.ReadsBack (fun _ => True) m
  | (_, v) => by
    rw [Json.rereadMember, Prod.mk.injEq]
    exact (and_iff_right rfl).trans
      ((reread_eq_iff v).trans (and_iff_right trivial).symm)

end

end Values

end EpsilonDB
