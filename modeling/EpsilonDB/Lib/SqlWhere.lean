import Mathlib.Algebra.GroupWithZero.Nat
import Mathlib.Data.List.Basic

/-!
# The WHERE clause of an SQL query

As much of the language as a query over one table is written in when its clause is a
conjunction of simple tests: from the bytes of the text to the rows it lets through.

- `Token`, `tokenize`: the words of a text; a `?` in quotes is no parameter.
- `Test`, `Cond`, `Select`: the syntax; `parseSelect` reads it.
- `parseConds_of_reads`: conditions that are read one by one are read in a row.
- `Cond.params`, `Cond.depth`: the parameters of a condition, and the height of its tree.
- `Meaning`: what columns, functions and comparisons of a row come to.
- `allHold`: the clause is true of a row; parameters take their values in the order of the
  text. `allHold_flatMap`: pieces that get as many values as they have parameters are judged
  one by one.
-/

namespace Sql

/-- A name or a text. -/
abbrev Bytes := List UInt8

inductive Comparison where
  | eq
  | ne
  | lt
  | le
  | gt
  | ge
deriving DecidableEq

inductive Keyword where
  | selectK
  | fromK
  | whereK
  | andK
  | orK
  | isK
  | notK
  | nullK
  | inK
  | orderK
  | byK
  | ascK
deriving DecidableEq

inductive Token where
  | keyword (k : Keyword)
  | name (s : Bytes)
  | param
  | text (s : Bytes)
  | lparen
  | rparen
  | comma
  | comparison (c : Comparison)
  | other (c : UInt8)
deriving DecidableEq

/-! ## Tokens -/

/-- The bytes of an ASCII word. -/
def ascii (s : String) : Bytes := s.toList.map fun c => UInt8.ofNat c.toNat

def keywords : List (Bytes × Keyword) :=
  [(ascii "SELECT", .selectK), (ascii "FROM", .fromK), (ascii "WHERE", .whereK),
    (ascii "AND", .andK), (ascii "OR", .orK), (ascii "IS", .isK), (ascii "NOT", .notK),
    (ascii "NULL", .nullK), (ascii "IN", .inK), (ascii "ORDER", .orderK), (ascii "BY", .byK),
    (ascii "ASC", .ascK)]

/-- A word is a keyword or a name. -/
def wordToken (s : Bytes) : Token :=
  match keywords.lookup s with
  | some k => .keyword k
  | none => .name s

/-- Where the tokenizer is: between two tokens, or inside of one. -/
inductive Mode where
  | between
  | word (s : Bytes)
  | text (s : Bytes)
  | less
  | greater
deriving DecidableEq

/-- Letters, digits and the underscore. -/
def isWordByte (c : UInt8) : Bool :=
  (48 ≤ c && c ≤ 57) || (65 ≤ c && c ≤ 90) || (97 ≤ c && c ≤ 122) || c == 95

/-- The byte that starts a token, or is one. -/
def start (c : UInt8) : Mode × List Token :=
  if isWordByte c then (.word [c], [])
  else if c = 32 then (.between, [])
  else if c = 63 then (.between, [.param])
  else if c = 39 then (.text [], [])
  else if c = 40 then (.between, [.lparen])
  else if c = 41 then (.between, [.rparen])
  else if c = 44 then (.between, [.comma])
  else if c = 61 then (.between, [.comparison .eq])
  else if c = 60 then (.less, [])
  else if c = 62 then (.greater, [])
  else (.between, [.other c])

def step : Mode → UInt8 → Mode × List Token
  | .between, c => start c
  | .word s, c =>
    if isWordByte c then (.word (s ++ [c]), [])
    else ((start c).1, wordToken s :: (start c).2)
  | .text s, c => if c = 39 then (.between, [.text s]) else (.text (s ++ [c]), [])
  | .less, c =>
    if c = 62 then (.between, [.comparison .ne])
    else if c = 61 then (.between, [.comparison .le])
    else ((start c).1, .comparison .lt :: (start c).2)
  | .greater, c =>
    if c = 61 then (.between, [.comparison .ge])
    else ((start c).1, .comparison .gt :: (start c).2)

/-- The tokens that are complete after some bytes. -/
def run : Mode → Bytes → Mode × List Token
  | m, [] => (m, [])
  | m, c :: cs => ((run (step m c).1 cs).1, (step m c).2 ++ (run (step m c).1 cs).2)

/-- The token the end of the text completes; a text in quotes has to be closed. -/
def finish : Mode → Option (List Token)
  | .between => some []
  | .word s => some [wordToken s]
  | .text _ => none
  | .less => some [.comparison .lt]
  | .greater => some [.comparison .gt]

def tokenize (s : Bytes) : Option (List Token) :=
  (finish (run .between s).1).map ((run .between s).2 ++ ·)

/-- Pieces of a text are read one after the other. -/
theorem run_append (m : Mode) (s t : Bytes) :
    run m (s ++ t) = ((run (run m s).1 t).1, (run m s).2 ++ (run (run m s).1 t).2) := by
  induction s generalizing m with
  | nil => rfl
  | cons c s ih => simp only [List.cons_append, run, ih, List.append_assoc]

/-- Pieces that are whole tokens each. -/
theorem run_flatMap {α : Type} {text : α → Bytes} {tokens : α → List Token}
    (h : ∀ a, run .between (text a) = (.between, tokens a)) (as : List α) :
    run .between (as.flatMap text) = (.between, as.flatMap tokens) := by
  induction as with
  | nil => rfl
  | cons a as ih => simp only [List.flatMap_cons, run_append, h, ih]

/-! ## Syntax -/

/-- A column, a parameter or a literal. -/
inductive Atom where
  | column (name : Bytes)
  | param
  | text (s : Bytes)
deriving DecidableEq

inductive Operand where
  | atom (a : Atom)
  | call (fn : Bytes) (x y : Atom)
deriving DecidableEq

inductive Test where
  | isNull (x : Operand)
  | isNotNull (x : Operand)
  | is (x y : Operand)
  | isNot (x y : Operand)
  | isIn (x : Operand) (texts : List Bytes)
  | compare (c : Comparison) (x y : Operand)
deriving DecidableEq

/-- A test, or two in brackets. -/
inductive Cond where
  | test (t : Test)
  | either (t u : Test)
deriving DecidableEq

/-- A query: what it selects, the conditions of its clause, and the column it orders by. -/
structure Select where
  head : List Token
  conds : List Cond
  orderBy : Option Bytes
deriving DecidableEq

def parseAtom : List Token → Option (Atom × List Token)
  | .name n :: ts => some (.column n, ts)
  | .param :: ts => some (.param, ts)
  | .text s :: ts => some (.text s, ts)
  | _ => none

/-- The two arguments of a call. -/
def parseArguments (fn : Bytes) (ts : List Token) : Option (Operand × List Token) :=
  match parseAtom ts with
  | some (x, .comma :: ts) =>
    match parseAtom ts with
    | some (y, .rparen :: ts) => some (.call fn x y, ts)
    | _ => none
  | _ => none

def parseOperand : List Token → Option (Operand × List Token)
  | .name fn :: .lparen :: ts => parseArguments fn ts
  | ts => (parseAtom ts).map fun r => (.atom r.1, r.2)

/-- The literals of an IN list. -/
def parseTexts : List Token → Option (List Bytes × List Token)
  | .text s :: .rparen :: ts => some ([s], ts)
  | .text s :: .comma :: ts => (parseTexts ts).map fun r => (s :: r.1, r.2)
  | _ => none

/-- The rest of a test after its first operand. -/
def parseTestOf (x : Operand) : List Token → Option (Test × List Token)
  | .keyword .isK :: .keyword .notK :: .keyword .nullK :: ts => some (.isNotNull x, ts)
  | .keyword .isK :: .keyword .nullK :: ts => some (.isNull x, ts)
  | .keyword .isK :: .keyword .notK :: ts =>
    (parseOperand ts).map fun r => (.isNot x r.1, r.2)
  | .keyword .isK :: ts => (parseOperand ts).map fun r => (.is x r.1, r.2)
  | .keyword .inK :: .lparen :: ts => (parseTexts ts).map fun r => (.isIn x r.1, r.2)
  | .comparison c :: ts => (parseOperand ts).map fun r => (.compare c x r.1, r.2)
  | _ => none

def parseTest (ts : List Token) : Option (Test × List Token) :=
  match parseOperand ts with
  | some (x, ts) => parseTestOf x ts
  | none => none

def parseCond : List Token → Option (Cond × List Token)
  | .lparen :: ts =>
    match parseTest ts with
    | some (t, .keyword .orK :: ts) =>
      match parseTest ts with
      | some (u, .rparen :: ts) => some (.either t u, ts)
      | _ => none
    | _ => none
  | ts => (parseTest ts).map fun r => (.test r.1, r.2)

/-- At most `n` conditions, joined by AND. -/
def parseConds : Nat → List Token → Option (List Cond × List Token)
  | 0, _ => none
  | n + 1, ts =>
    match parseCond ts with
    | some (c, .keyword .andK :: ts) => (parseConds n ts).map fun r => (c :: r.1, r.2)
    | some (c, ts) => some ([c], ts)
    | none => none

def parseOrderBy : List Token → Option (Option Bytes)
  | [] => some none
  | [.keyword .orderK, .keyword .byK, .name column, .keyword .ascK] => some (some column)
  | _ => none

/-- What stands before the clause, and the clause. -/
def splitWhere : List Token → Option (List Token × List Token)
  | [] => none
  | .keyword .whereK :: ts => some ([], ts)
  | t :: ts => (splitWhere ts).map fun r => (t :: r.1, r.2)

def parseSelect (ts : List Token) : Option Select :=
  match splitWhere ts with
  | none => none
  | some (head, ts) =>
    match parseConds ts.length ts with
    | none => none
    | some (conds, ts) => (parseOrderBy ts).map fun orderBy => ⟨head, conds, orderBy⟩

/-- The tokens are the condition, whatever follows. -/
def Reads (ts : List Token) (c : Cond) : Prop :=
  ∀ rest, parseCond (ts ++ rest) = some (c, rest)

/-- Conditions after a first one, each behind an AND. -/
def joined (items : List (List Token × Cond)) : List Token :=
  items.flatMap fun i => .keyword .andK :: i.1

theorem length_le_joined (items : List (List Token × Cond)) :
    items.length ≤ (joined items).length := by
  induction items with
  | nil => exact Nat.le_refl 0
  | cons i items ih =>
    rw [joined, List.flatMap_cons, List.length_append, ← joined, List.length_cons,
      List.length_cons]
    omega

/-- **Conditions in a row** are read one by one, up to what is no AND. -/
theorem parseConds_of_reads {ts : List Token} {c : Cond} (hc : Reads ts c)
    {items : List (List Token × Cond)} (h : ∀ i ∈ items, Reads i.1 i.2) {rest : List Token}
    (hrest : rest.head? ≠ some (.keyword .andK)) {n : Nat} (hn : items.length < n) :
    parseConds n (ts ++ joined items ++ rest) = some (c :: items.map Prod.snd, rest) := by
  induction items generalizing ts c n with
  | nil =>
    obtain ⟨m, rfl⟩ := Nat.exists_eq_succ_of_ne_zero (Nat.ne_of_gt hn)
    rw [joined, List.flatMap_nil, List.append_nil, parseConds, hc rest]
    cases rest with
    | nil => rfl
    | cons t rest =>
      have ht : t ≠ .keyword .andK := fun heq => hrest (by rw [heq]; rfl)
      split
      · next heq => simp_all
      · next heq =>
        cases heq
        rfl
      · next heq => cases heq
  | cons i items ih =>
    obtain ⟨m, rfl⟩ := Nat.exists_eq_succ_of_ne_zero (Nat.ne_of_gt (Nat.zero_lt_of_lt hn))
    have hsplit : ts ++ joined (i :: items) ++ rest =
        ts ++ (.keyword .andK :: (i.1 ++ joined items ++ rest)) := by
      simp [joined]
    rw [hsplit, parseConds, hc]
    show (parseConds m (i.1 ++ joined items ++ rest)).map _ = _
    rw [ih (h i List.mem_cons_self) (fun j hj => h j (List.mem_cons_of_mem i hj))
      (Nat.lt_of_succ_lt_succ hn)]
    rfl

/-! ## Parameters and height -/

def Atom.params : Atom → Nat
  | .param => 1
  | .column _ | .text _ => 0

def Operand.params : Operand → Nat
  | .atom a => a.params
  | .call _ x y => x.params + y.params

def Test.params : Test → Nat
  | .isNull x | .isNotNull x | .isIn x _ => x.params
  | .is x y | .isNot x y | .compare _ x y => x.params + y.params

def Cond.params : Cond → Nat
  | .test t => t.params
  | .either t u => t.params + u.params

/-- The parameters of conditions in a row. -/
def allParams (cs : List Cond) : Nat := (cs.map Cond.params).sum

def Operand.depth : Operand → Nat
  | .atom _ => 1
  | .call _ _ _ => 2

def Test.depth : Test → Nat
  | .isNull x | .isNotNull x | .isIn x _ => x.depth + 1
  | .is x y | .isNot x y | .compare _ x y => max x.depth y.depth + 1

def Cond.depth : Cond → Nat
  | .test t => t.depth
  | .either t u => max t.depth u.depth + 1

/-- A conjunction leans to the left. -/
def depthFrom (h : Nat) (cs : List Cond) : Nat := cs.foldl (fun h c => max h c.depth + 1) h

theorem depthFrom_append (h : Nat) (cs ds : List Cond) :
    depthFrom h (cs ++ ds) = depthFrom (depthFrom h cs) ds :=
  List.foldl_append

/-- The height of the tree of a clause. -/
def Select.depth (q : Select) : Nat :=
  match q.conds with
  | [] => 0
  | c :: cs => depthFrom c.depth cs

/-! ## Meaning -/

/-- What the clause refers to, in one row: its columns, and the values of literals and calls.
A comparison with NULL is not true. -/
structure Meaning (V : Type) where
  null : V
  column : Bytes → V
  text : Bytes → V
  call : Bytes → V → V → V
  isNull : V → Bool
  same : V → V → Bool
  compare : Comparison → V → V → Bool

section Meaning

variable {V : Type} (M : Meaning V)

/-- A parameter takes the next value; one without a value is NULL. -/
def Atom.value (vs : List V) : Atom → V
  | .column n => M.column n
  | .param => vs.headD M.null
  | .text s => M.text s

def Operand.value (vs : List V) : Operand → V
  | .atom a => a.value M vs
  | .call fn x y => M.call fn (x.value M vs) (y.value M (vs.drop x.params))

/-- The test is true. -/
def Test.holds (vs : List V) : Test → Bool
  | .isNull x => M.isNull (x.value M vs)
  | .isNotNull x => !M.isNull (x.value M vs)
  | .is x y => M.same (x.value M vs) (y.value M (vs.drop x.params))
  | .isNot x y => !M.same (x.value M vs) (y.value M (vs.drop x.params))
  | .isIn x texts => texts.any fun s => M.compare .eq (x.value M vs) (M.text s)
  | .compare c x y => M.compare c (x.value M vs) (y.value M (vs.drop x.params))

def Cond.holds (vs : List V) : Cond → Bool
  | .test t => t.holds M vs
  | .either t u => t.holds M vs || u.holds M (vs.drop t.params)

/-- The clause is true: each condition of the values that are left for it. -/
def allHold (vs : List V) : List Cond → Bool
  | [] => true
  | c :: cs => c.holds M vs && allHold (vs.drop c.params) cs

variable {M}

/-- Values that are left for later parameters do not matter. -/
theorem Atom.value_append {a : Atom} {vs : List V} (h : a.params ≤ vs.length) (ws : List V) :
    a.value M (vs ++ ws) = a.value M vs := by
  cases a with
  | column n => rfl
  | param =>
    cases vs with
    | nil => simp [Atom.params] at h
    | cons v vs => rfl
  | text s => rfl

theorem drop_append_of_le {n : Nat} {vs : List V} (h : n ≤ vs.length) (ws : List V) :
    (vs ++ ws).drop n = vs.drop n ++ ws := by
  rw [List.drop_append, Nat.sub_eq_zero_of_le h, List.drop_zero]

theorem Operand.value_append {x : Operand} {vs : List V} (h : x.params ≤ vs.length)
    (ws : List V) : x.value M (vs ++ ws) = x.value M vs := by
  cases x with
  | atom a => exact Atom.value_append h ws
  | call fn x y =>
    rw [Operand.params] at h
    rw [Operand.value, Operand.value, Atom.value_append (by omega), drop_append_of_le (by omega),
      Atom.value_append (by rw [List.length_drop]; omega)]

theorem Test.holds_append {t : Test} {vs : List V} (h : t.params ≤ vs.length) (ws : List V) :
    t.holds M (vs ++ ws) = t.holds M vs := by
  have htwo : ∀ x y : Operand, x.params + y.params ≤ vs.length →
      x.value M (vs ++ ws) = x.value M vs ∧
        y.value M ((vs ++ ws).drop x.params) = y.value M (vs.drop x.params) := by
    intro x y hxy
    rw [drop_append_of_le (by omega)]
    exact ⟨Operand.value_append (by omega) ws,
      Operand.value_append (by rw [List.length_drop]; omega) ws⟩
  cases t with
  | isNull x | isNotNull x => rw [Test.holds, Test.holds, Operand.value_append h]
  | isIn x texts => rw [Test.holds, Test.holds, Operand.value_append h]
  | is x y | isNot x y | compare c x y =>
    obtain ⟨hx, hy⟩ := htwo x y h
    rw [Test.holds, Test.holds, hx, hy]

theorem Cond.holds_append {c : Cond} {vs : List V} (h : c.params ≤ vs.length) (ws : List V) :
    c.holds M (vs ++ ws) = c.holds M vs := by
  cases c with
  | test t => exact Test.holds_append h ws
  | either t u =>
    rw [Cond.params] at h
    rw [Cond.holds, Cond.holds, Test.holds_append (by omega), drop_append_of_le (by omega),
      Test.holds_append (by rw [List.length_drop]; omega)]

theorem allParams_cons (c : Cond) (cs : List Cond) :
    allParams (c :: cs) = c.params + allParams cs := by
  rw [allParams, List.map_cons, List.sum_cons, allParams]

theorem allParams_append (cs ds : List Cond) :
    allParams (cs ++ ds) = allParams cs + allParams ds := by
  rw [allParams, List.map_append, List.sum_append, allParams, allParams]

theorem allHold_pair (vs : List V) (c d : Cond) :
    allHold M vs [c, d] = (c.holds M vs && d.holds M (vs.drop c.params)) := by
  rw [allHold, allHold, allHold, Bool.and_true]

/-- The first conditions use up their values. -/
theorem allHold_append {cs : List Cond} {vs : List V} (h : vs.length = allParams cs)
    (ds : List Cond) (ws : List V) :
    allHold M (vs ++ ws) (cs ++ ds) = (allHold M vs cs && allHold M ws ds) := by
  induction cs generalizing vs with
  | nil =>
    obtain rfl := List.eq_nil_of_length_eq_zero h
    rfl
  | cons c cs ih =>
    rw [allParams_cons] at h
    have hrest : (vs.drop c.params).length = allParams cs := by
      rw [List.length_drop]
      omega
    rw [List.cons_append, allHold, allHold, Cond.holds_append (by omega),
      drop_append_of_le (by omega), ih hrest, Bool.and_assoc]

/-- **Pieces are judged one by one**, each with its own values. -/
theorem allHold_flatMap {α : Type} {vals : α → List V} {conds : α → List Cond} {as : List α}
    (h : ∀ a ∈ as, (vals a).length = allParams (conds a)) :
    allHold M (as.flatMap vals) (as.flatMap conds) =
      as.all fun a => allHold M (vals a) (conds a) := by
  induction as with
  | nil => rfl
  | cons a as ih =>
    rw [List.flatMap_cons, List.flatMap_cons, allHold_append (h a List.mem_cons_self),
      ih fun b hb => h b (List.mem_cons_of_mem a hb), List.all_cons]

end Meaning

end Sql
