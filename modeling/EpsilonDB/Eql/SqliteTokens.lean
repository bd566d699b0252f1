import EpsilonDB.Eql.Cursor

/-!
# The tokenizer of SQLite (`vendor/sqlite/sqlite3.c`)

The parser that a statement is handed to. A cursor is the text that is left.

- `sqliteGetToken`: `sqlite3GetToken`, with what the token is and the text after it.
- `quotedToken`: the name in a quoted token, as `sqlite3Dequote` makes it.
-/

namespace EpsilonDB.Eql

/-- What a token is, as far as names and literals are told from the rest. -/
inductive TokenKind where
  | space
  | comment
  /-- a bare or quoted identifier, or a keyword -/
  | name
  | string
  | blob
  | number
  | variable
  | dot
  | operator
  | illegal
deriving DecidableEq

/-- `IdChar`. -/
def idChar (c : UInt8) : Bool := isIdentChar c || c == 36 || 128 ≤ c

theorem idChar_of_ident {c : UInt8} (hc : isIdentChar c = true) : idChar c = true := by
  rw [idChar, hc, Bool.true_or, Bool.true_or]

/-- A byte of a name opens no quote. -/
theorem opensQuote_of_idChar {c : UInt8} (hc : idChar c = true) : opensQuote c = false := by
  rw [Bool.eq_false_iff]
  intro hquote
  rcases opensQuote_iff.mp hquote with rfl | rfl | rfl | rfl
  · exact absurd hc (by decide)
  · exact absurd hc (by decide)
  · exact absurd hc (by decide)
  · exact absurd hc (by decide)

theorem opensQuote_of_ident {c : UInt8} (hc : isIdentChar c = true) : opensQuote c = false :=
  opensQuote_of_idChar (idChar_of_ident hc)

theorem isIdentChar_of_opensQuote {c : UInt8} (hc : opensQuote c = true) :
    isIdentChar c = false := by
  rw [Bool.eq_false_iff]
  intro hident
  rw [opensQuote_of_ident hident] at hc
  cases hc

def isXDigit (c : UInt8) : Bool := isDigit c || (65 ≤ c && c ≤ 70) || (97 ≤ c && c ≤ 102)

/-- The name in a token between quotes, after the opening one, and the text after the closing
one; a quote in the name is doubled. -/
def quotedToken (delim : UInt8) : CString → Option (CString × CString)
  | [] => none
  | [c] => if c = delim then some ([], []) else none
  | c :: d :: t =>
    if c = delim then
      if d = delim then (quotedToken delim t).map fun r => (delim :: r.1, r.2)
      else some ([], d :: t)
    else (quotedToken delim (d :: t)).map fun r => (c :: r.1, r.2)

/-- The digits of a number, with separators. -/
def skipDigits (digit : UInt8 → Bool) (s : CString) : CString :=
  s.dropWhile fun c => digit c || c == 95

/-- The fraction of a number. -/
def skipFraction : CString → CString
  | 46 :: t => skipDigits isDigit t
  | s => s

/-- The exponent of a number. -/
def skipExponent (s : CString) : CString :=
  match s with
  | e :: c :: t =>
    if e = 101 ∨ e = 69 then
      if isDigit c then skipDigits isDigit t
      else if (c = 43 ∨ c = 45) ∧ t.head?.any isDigit then skipDigits isDigit t
      else s
    else s
  | _ => s

/-- A number; identifier characters after it make it illegal. -/
def numberToken (s : CString) : TokenKind × CString :=
  let rest := match s with
    | 48 :: x :: d :: t =>
      if (x = 120 ∨ x = 88) ∧ isXDigit d then skipDigits isXDigit t
      else skipExponent (skipFraction (skipDigits isDigit s))
    | _ => skipExponent (skipFraction (skipDigits isDigit s))
  (if rest.head?.any idChar then .illegal else .number, rest.dropWhile idChar)

/-- The loop over a variable; `n` is whether it has a name. -/
def variableToken : Bool → CString → TokenKind × CString
  | n, [] => (if n then .variable else .illegal, [])
  | n, c :: t =>
    if idChar c then variableToken true t
    else if c = 40 ∧ n then
      -- the parenthesis of a Tcl array
      match t.dropWhile fun d => !isSpace d && d != 41 with
      | 41 :: rest => (.variable, rest)
      | rest => (.illegal, rest)
    else match c, t with
      | 58, 58 :: u => variableToken n u
      | _, _ => (if n then .variable else .illegal, c :: t)

/-- A blob literal after `x'`. -/
def blobToken (s : CString) : TokenKind × CString :=
  let digits := s.takeWhile isXDigit
  match s.dropWhile isXDigit with
  | 39 :: rest =>
    -- an odd number of digits: the token goes on to the next quote, which is this one
    (if digits.length % 2 = 0 then .blob else .illegal, rest)
  | rest => (.illegal, (rest.dropWhile fun c => c != 39).drop 1)

/-- A token of several bytes that are neither names nor literals. -/
def operatorToken (c : UInt8) (t : CString) : TokenKind × CString :=
  match c, t with
  | 45, 62 :: 62 :: u | 45, 62 :: u | 61, 61 :: u
  | 60, 61 :: u | 60, 62 :: u | 60, 60 :: u | 62, 61 :: u | 62, 62 :: u
  | 33, 61 :: u | 124, 124 :: u => (.operator, u)
  | 33, _ => (.illegal, t)
  | _, _ =>
    (if c ∈ cstr "-()+*/%=<>|,&~;" then .operator else .illegal, t)

/-- `sqlite3GetToken` on a text that is not empty. -/
def sqliteGetToken (c : UInt8) (t : CString) : TokenKind × CString :=
  if c = 9 ∨ c = 10 ∨ c = 12 ∨ c = 13 ∨ c = 32 then (.space, t.dropWhile isSpace)
  else if c = 45 ∧ t.head? = some 45 then (.comment, t.dropWhile fun d => d != 10)
  else if c = 47 ∧ t.head? = some 42 ∧ t.tail ≠ [] then (.comment, afterComment t.tail)
  else if c = 34 ∨ c = 39 ∨ c = 96 then
    match quotedToken c t with
    | some r => (if c = 39 then .string else .name, r.2)
    | none => (.illegal, [])
  else if c = 91 then
    match t.dropWhile fun d => d != 93 with
    | _ :: rest => (.name, rest)
    | [] => (.illegal, [])
  else if c = 46 ∧ t.head?.any isDigit = false then (.dot, t)
  else if c = 46 ∨ isDigit c then numberToken (c :: t)
  else if c = 63 then (.variable, t.dropWhile isDigit)
  else if c = 36 ∨ c = 64 ∨ c = 58 ∨ c = 35 then variableToken false t
  else if (c = 120 ∨ c = 88) ∧ t.head? = some 39 then blobToken t.tail
  else if c = 0xEF ∧ [0xBB, 0xBF].isPrefixOf t then (.space, t.drop 2)
  else if idChar c then (.name, t.dropWhile idChar)
  else operatorToken c t

end EpsilonDB.Eql
