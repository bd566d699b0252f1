import EpsilonDB.Eql.Scan
import EpsilonDB.Lib.Whiles

/-!
# The cursor of the statement scanner (`eql/epsilon_eql.c`)

The scanners as they run: a text, a place in it, and loops that share the place. Reading a
byte past the terminator is a fault, and so is a loop that takes more turns than it is given.
A text of a statement has no terminator inside.

- `EqlScan`: the text and the place. `EqlScan.byte`: a byte of the text, or its terminator.
- `skipSpacesComments`, `skipQuotedRaw`, `readIdent`, `parseRef`: the lexical layer.
- `collectRefs`, `scanInsertColumns`, `scanUpdateColumns`: the scanners, with the turn of each
  outer loop (`collectTurn`, `insertTurn`, `updateTurn`).
-/

namespace EpsilonDB.Eql

open Whiles

/-- A read past the terminator. -/
structure Overread where
  index : Nat

/-- `eql_scan`. Its `len` is the length of the text. -/
structure EqlScan where
  sql : CString
  pos : Nat

/-- A run of the scanner. -/
abbrev ScanRun := Run Overread

/-- What a scanner works on. -/
structure Scanning where
  tables : List Table
  sc : EqlScan

/-- What `read_ident` works on: its own place and what it has written. -/
structure Reading where
  p : EqlScan
  out : CString

/-- What the SET clause is read with. -/
structure Assigning where
  tables : List Table
  sc : EqlScan
  depth : Nat

/-- What the next word of a statement is. -/
inductive Word where
  | ended (sc : EqlScan)
  | other (sc : EqlScan)
  | found (sc : EqlScan)

namespace EqlScan

/-! ## Lexical layer -/

def len (sc : EqlScan) : Nat := sc.sql.length

/-- `sql[i]`. -/
def byte (sc : EqlScan) (i : Nat) : ScanRun UInt8 :=
  if h : i < sc.sql.length then .ok sc.sql[i]
  else if i = sc.len then .ok 0
  else .error (.fault ⟨i⟩)

def move (sc : EqlScan) (k : Nat) : EqlScan := { sc with pos := sc.pos + k }

def skipTurn (p : UInt8 → Bool) (sc : EqlScan) : ScanRun (Turn EqlScan EqlScan) :=
  if sc.pos < sc.len then do
    let c ← sc.byte sc.pos
    .ok (if p c then .again (sc.move 1) else .done sc)
  else .ok (.done sc)

/-- `while (pos < len && p(sql[pos])) pos++`. -/
def skipWhile (fuel : Nat) (p : UInt8 → Bool) (sc : EqlScan) : ScanRun EqlScan :=
  loop (skipTurn p) fuel sc

/-- `pos + 1 < len && sql[pos] == a && sql[pos + 1] == b`. -/
def twoBytes (a b : UInt8) (sc : EqlScan) : ScanRun Bool :=
  if sc.pos + 1 < sc.len then do
    let c ← sc.byte sc.pos
    if c = a then do
      let d ← sc.byte (sc.pos + 1)
      .ok (d == b)
    else .ok false
  else .ok false

def strstrTurn (p : EqlScan) : ScanRun (Turn EqlScan (Option EqlScan)) := do
  let c ← p.byte p.pos
  if c = 0 then .ok (.done none)
  else if c = 42 then do
    let d ← p.byte (p.pos + 1)
    .ok (if d = 47 then .done (some p) else .again (p.move 1))
  else .ok (.again (p.move 1))

/-- `strstr(p, "*/")`. -/
def strstr (fuel : Nat) (p : EqlScan) : ScanRun (Option EqlScan) := loop strstrTurn fuel p

def spacesTurn (fuel : Nat) (sc : EqlScan) : ScanRun (Turn EqlScan EqlScan) := do
  let sc ← sc.skipWhile fuel isSpace
  if ← sc.twoBytes 45 45 then
    let sc ← sc.skipWhile fuel fun c => c != 10
    .ok (.again sc)
  else if ← sc.twoBytes 47 42 then
    let stop ← (sc.move 2).strstr fuel
    .ok (.again (stop.elim { sc with pos := sc.len } fun stop => stop.move 2))
  else .ok (.done sc)

def skipSpacesComments (fuel : Nat) (sc : EqlScan) : ScanRun EqlScan :=
  loop (spacesTurn fuel) fuel sc

def quotedRawTurn (quote : UInt8) (sc : EqlScan) : ScanRun (Turn EqlScan EqlScan) :=
  if sc.pos < sc.len then do
    let c ← sc.byte sc.pos
    if c = quote then
      if sc.pos + 1 < sc.len then do
        let d ← sc.byte (sc.pos + 1)
        .ok (if d = quote then .again (sc.move 2) else .done (sc.move 1))
      else .ok (.done (sc.move 1))
    else if quote = 39 ∧ c = 92 ∧ sc.pos + 1 < sc.len then .ok (.again (sc.move 2))
    else .ok (.again (sc.move 1))
  else .ok (.done sc)

def skipQuotedRaw (fuel : Nat) (sc : EqlScan) : ScanRun EqlScan := do
  let quote ← sc.byte sc.pos
  loop (quotedRawTurn quote) fuel (sc.move 1)

/-- `if (o + 1 < cap) out[o++] = c`. -/
def put (cap : Nat) (out : CString) (c : UInt8) : CString :=
  if out.length + 1 < cap then out ++ [c] else out

/-- A turn inside a quoted identifier. -/
def quotedTurn (cap : Nat) (quote : UInt8) (s : Reading) :
    ScanRun (Turn Reading (Option (CString × EqlScan))) :=
  if s.p.pos < s.p.len then do
    let c ← s.p.byte s.p.pos
    if c = quote then
      if quote = 34 ∧ s.p.pos + 1 < s.p.len then do
        let d ← s.p.byte (s.p.pos + 1)
        .ok (if d = 34 then .again ⟨s.p.move 2, put cap s.out 34⟩
          else .done (some (s.out, s.p.move 1)))
      else .ok (.done (some (s.out, s.p.move 1)))
    else .ok (.again ⟨s.p.move 1, put cap s.out c⟩)
  else .ok (.done none)

/-- A turn that copies while `keep` holds. -/
def copyTurn (cap : Nat) (keep : UInt8 → Bool) (s : Reading) : ScanRun (Turn Reading Reading) :=
  if s.p.pos < s.p.len then do
    let c ← s.p.byte s.p.pos
    .ok (if keep c then .again ⟨s.p.move 1, put cap s.out c⟩ else .done s)
  else .ok (.done s)

/-- `read_ident` into `cap` bytes. -/
def readIdent (fuel cap : Nat) (sc : EqlScan) : ScanRun (Option (CString × EqlScan)) :=
  if sc.len ≤ sc.pos then .ok none
  else do
    let c ← sc.byte sc.pos
    if c = 34 ∨ c = 96 then loop (quotedTurn cap c) fuel ⟨sc.move 1, []⟩
    else if c = 91 then do
      let s ← loop (copyTurn cap fun c => c != 93) fuel ⟨sc.move 1, []⟩
      .ok (if s.p.len ≤ s.p.pos then none else some (s.out, s.p.move 1))
    else if !isIdentChar c then .ok none
    else do
      let s ← loop (copyTurn cap isIdentChar) fuel ⟨sc, []⟩
      .ok (some (s.out, s.p))

/-- The `n` bytes at the cursor. -/
def bytes : Nat → EqlScan → ScanRun CString
  | 0, _ => .ok []
  | n + 1, sc => do
    let c ← sc.byte sc.pos
    let rest ← bytes n (sc.move 1)
    .ok (c :: rest)

/-! ## References -/

/-- A segment of a reference, and the cursor behind it or where it should start. -/
def segment (fuel : Nat) (sc : EqlScan) : ScanRun (Option CString × EqlScan) := do
  let sc ← sc.skipSpacesComments fuel
  let name ← sc.readIdent fuel 256
  .ok (name.elim (none, sc) fun name => (some name.1, name.2))

/-- The dot after a segment. -/
def dot (fuel : Nat) (sc : EqlScan) : ScanRun (Bool × EqlScan) := do
  let sc ← sc.skipSpacesComments fuel
  if sc.pos < sc.len then do
    let c ← sc.byte sc.pos
    .ok (if c = 46 then (true, sc.move 1) else (false, sc))
  else .ok (false, sc)

/-- `parse_ref2`, its three turns one after the other. -/
def parseRef (fuel : Nat) (sc : EqlScan) :
    ScanRun (Option (CString × CString × CString) × EqlScan) := do
  let (db, sc) ← sc.segment fuel
  let some db := db | .ok (none, sc)
  let (dotted, sc) ← sc.dot fuel
  if !dotted then .ok (none, sc)
  else
    let (part, sc) ← sc.segment fuel
    let some part := part | .ok (none, sc)
    let (dotted, sc) ← sc.dot fuel
    if !dotted then .ok (some (db, part, []), sc)
    else
      let (ks, sc) ← sc.segment fuel
      .ok (ks.map fun ks => (db, part, ks), sc)

/-- The optional alias after a reference. -/
def skipAlias (fuel : Nat) (sc : EqlScan) : ScanRun EqlScan := do
  let start ← sc.skipSpacesComments fuel
  let stop ← start.skipWhile fuel isIdentChar
  let wl := stop.pos - start.pos
  if start.pos < stop.pos ∧ wl < 8 then
    let low ← start.bytes wl
    if lower low = cstr "as" then
      let start ← stop.skipSpacesComments fuel
      let stop ← start.skipWhile fuel isIdentChar
      .ok (if start.pos < stop.pos then stop else sc)
    else .ok (if wl ≠ 4 ∧ wl ≠ 5 then stop else sc)
  else .ok sc

/-- A turn over the comma-separated sources. -/
def moreTurn (fuel : Nat) (s : Scanning) : ScanRun (Turn Scanning Scanning) := do
  let sc ← s.sc.skipSpacesComments fuel
  if sc.len ≤ sc.pos then .ok (.done s)
  else
    let c ← sc.byte sc.pos
    if c ≠ 44 then .ok (.done s)
    else
      let (ref, sc) ← (sc.move 1).parseRef fuel
      .ok (ref.elim (.done s) fun ref => .again ⟨addRef s.tables ref.1 ref.2.1 ref.2.2, sc⟩)

/-! ## The scanners -/

/-- The head of each outer loop: blanks, a quoted literal, and a word of `words`, which all
have one of the lengths `lens`. -/
def nextWord (fuel : Nat) (lens : List Nat) (words : List CString) (sc : EqlScan) :
    ScanRun Word := do
  let sc ← sc.skipSpacesComments fuel
  if sc.len ≤ sc.pos then .ok (.ended sc)
  else
    let c ← sc.byte sc.pos
    if opensQuote c then
      let sc ← sc.skipQuotedRaw fuel
      .ok (.other sc)
    else
      let stop ← sc.skipWhile fuel isIdentChar
      let wlen := stop.pos - sc.pos
      if stop.pos = sc.pos then .ok (.other (sc.move 1))
      else if wlen ∉ lens then .ok (.other stop)
      else
        let word ← sc.bytes wlen
        .ok (if lower word ∈ words then .found stop else .other stop)

/-- A turn of an outer loop: `found` is what it does behind one of the words. -/
def outerTurn (fuel : Nat) (lens : List Nat) (words : List CString)
    (found : Scanning → ScanRun Scanning) (s : Scanning) : ScanRun (Turn Scanning Scanning) :=
  if s.sc.pos < s.sc.len then do
    match ← s.sc.nextWord fuel lens words with
    | .ended sc => .ok (.done ⟨s.tables, sc⟩)
    | .other sc => .ok (.again ⟨s.tables, sc⟩)
    | .found sc =>
      let s ← found ⟨s.tables, sc⟩
      .ok (.again s)
  else .ok (.done s)

def collectFound (fuel : Nat) (s : Scanning) : ScanRun Scanning := do
  let (ref, sc) ← s.sc.parseRef fuel
  let some (db, part, ks) := ref | .ok ⟨s.tables, sc⟩
  let sc ← sc.skipAlias fuel
  loop (moreTurn fuel) fuel ⟨addRef s.tables db part ks, sc⟩

def collectTurn (fuel : Nat) : Scanning → ScanRun (Turn Scanning Scanning) :=
  outerTurn fuel [4, 5, 6] refWords (collectFound fuel)

/-- `collect_refs`, with loops of at most `fuel` turns. -/
def collectRefs (fuel : Nat) (sql : CString) (tables : List Table) : ScanRun (List Table) := do
  let s ← loop (collectTurn fuel) fuel ⟨tables, sql, 0⟩
  .ok s.tables

/-- A turn over the column list; the columns go to the first table that is meant. -/
def columnsTurn (fuel : Nat) (meant : Table → Bool) (s : Scanning) :
    ScanRun (Turn Scanning Scanning) := do
  let sc ← s.sc.skipSpacesComments fuel
  let some (col, sc) ← sc.readIdent fuel 128 | .ok (.done ⟨s.tables, sc⟩)
  let tables := addColumns meant [col] s.tables
  let sc ← sc.skipSpacesComments fuel
  if sc.pos < sc.len then
    let c ← sc.byte sc.pos
    .ok (if c = 44 then .again ⟨tables, sc.move 1⟩ else .done ⟨tables, sc⟩)
  else .ok (.done ⟨tables, sc⟩)

def insertFound (fuel : Nat) (s : Scanning) : ScanRun Scanning := do
  let (ref, sc) ← s.sc.parseRef fuel
  let some (db, part, ks) := ref | .ok ⟨s.tables, sc⟩
  let meant := fun t => sameShard t db part ks
  if !s.tables.any meant then .ok ⟨s.tables, sc⟩
  else
    let sc ← sc.skipSpacesComments fuel
    if sc.len ≤ sc.pos then .ok ⟨s.tables, sc⟩
    else
      let c ← sc.byte sc.pos
      if c ≠ 40 then .ok ⟨s.tables, sc⟩
      else loop (columnsTurn fuel meant) fuel ⟨s.tables, sc.move 1⟩

def insertTurn (fuel : Nat) : Scanning → ScanRun (Turn Scanning Scanning) :=
  outerTurn fuel [4] [cstr "into"] (insertFound fuel)

/-- `scan_insert_columns`, with loops of at most `fuel` turns. -/
def scanInsertColumns (fuel : Nat) (sql : CString) (tables : List Table) :
    ScanRun (List Table) := do
  let s ← loop (insertTurn fuel) fuel ⟨tables, sql, 0⟩
  .ok s.tables

/-- A turn of the search for SET, which is found or not. -/
def setTurn (fuel : Nat) (sc : EqlScan) : ScanRun (Turn EqlScan (Bool × EqlScan)) := do
  let sc ← sc.skipSpacesComments fuel
  if sc.len ≤ sc.pos then .ok (.done (false, sc))
  else
    let some (word, sc) ← sc.readIdent fuel 128 | .ok (.again (sc.move 1))
    if lower word = cstr "as" then
      let sc ← sc.skipSpacesComments fuel
      let name ← sc.readIdent fuel 128
      .ok (.again (name.elim sc Prod.snd))
    else .ok (if lower word = cstr "set" then .done (true, sc) else .again sc)

/-- A turn over the assignments. -/
def assignTurn (fuel : Nat) (meant : Table → Bool) (s : Assigning) :
    ScanRun (Turn Assigning Scanning) := do
  let sc ← s.sc.skipSpacesComments fuel
  if sc.len ≤ sc.pos then .ok (.done ⟨s.tables, sc⟩)
  else
    let c ← sc.byte sc.pos
    if opensQuote c then
      let sc ← sc.skipQuotedRaw fuel
      .ok (.again ⟨s.tables, sc, s.depth⟩)
    else if c = 40 then .ok (.again ⟨s.tables, sc.move 1, s.depth + 1⟩)
    else if c = 41 then .ok (.again ⟨s.tables, sc.move 1, s.depth - 1⟩)
    else if c = 44 ∧ s.depth = 0 then .ok (.again ⟨s.tables, sc.move 1, s.depth⟩)
    else if !isIdentChar c then .ok (.again ⟨s.tables, sc.move 1, s.depth⟩)
    else
      let some (col, after) ← sc.readIdent fuel 128
        | .ok (.again ⟨s.tables, sc.move 1, s.depth⟩)
      -- the name is not a quoted one here
      if s.depth = 0 ∧ lower col ∈ clauseWords then .ok (.done ⟨s.tables, after⟩)
      else
        let sc ← after.skipSpacesComments fuel
        if s.depth = 0 ∧ sc.pos < sc.len then
          let c ← sc.byte sc.pos
          .ok (.again (if c = 61 then ⟨addColumns meant [col] s.tables, sc.move 1, s.depth⟩
            else ⟨s.tables, after, s.depth⟩))
        else .ok (.again ⟨s.tables, after, s.depth⟩)

def updateFound (fuel : Nat) (s : Scanning) : ScanRun Scanning := do
  let (ref, sc) ← s.sc.parseRef fuel
  let some (db, part, ks) := ref | .ok ⟨s.tables, sc⟩
  let meant := fun t : Table => sameShard t db part ks && t.pw == decide (ks = [])
  if !s.tables.any meant then .ok ⟨s.tables, sc⟩
  else
    let (found, sc) ← loop (setTurn fuel) fuel sc
    if !found then .ok ⟨s.tables, sc⟩
    else loop (assignTurn fuel meant) fuel ⟨s.tables, sc, 0⟩

def updateTurn (fuel : Nat) : Scanning → ScanRun (Turn Scanning Scanning) :=
  outerTurn fuel [6] [cstr "update"] (updateFound fuel)

/-- `scan_update_columns`, with loops of at most `fuel` turns. -/
def scanUpdateColumns (fuel : Nat) (sql : CString) (tables : List Table) :
    ScanRun (List Table) := do
  let s ← loop (updateTurn fuel) fuel ⟨tables, sql, 0⟩
  .ok s.tables

end EqlScan

end EpsilonDB.Eql
