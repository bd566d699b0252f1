import EpsilonDB.Eql.References
import Mathlib.Data.List.Dedup
import Mathlib.Data.List.Perm.Subperm

/-!
# What is collected (`eql/epsilon_eql.c`)

The engine reads the keyspaces of the tables that `collect_refs` returns and of no others.

- `NamesOf.addRefs`: the tables are those of the names the scanner meets.
- `Kept`: the first of them are kept, each one once.
- `Collects`: the table of every source of a statement is there, as long as there is room.
- `collects_iff`: so it is when the scanner meets every source, or more names than there is
  room for.
-/

namespace EpsilonDB.Eql

/-! ## Tables and names -/

variable {tables : List Table} {ps : List Piece} {m : Mode}

/-- The names of a table. -/
def Table.shard (t : Table) : Names := (t.db, t.part, t.ks)

/-- One more, unless it is a known one or there are enough. -/
def addName (l : List Names) (n : Names) : List Names :=
  if n ∈ l then l else if l.length < maxTables then l ++ [n] else l

/-- The tables are those of the names. -/
def NamesOf (tables : List Table) (l : List Names) : Prop :=
  tables.map Table.shard = l ∧ ∀ t ∈ tables, t.pw = decide (t.ks = [])

variable {l ns : List Names} {n : Names}

/-- A table is known by its names. -/
theorem NamesOf.known (h : NamesOf tables l) :
    (tables.any fun t => sameShard t n.1 n.2.1 n.2.2 && t.pw == decide (n.2.2 = [])) =
      decide (n ∈ l) := by
  obtain ⟨rfl, hpw⟩ := h
  rw [Bool.eq_iff_iff, List.any_eq_true, decide_eq_true_iff, List.mem_map]
  refine exists_congr fun t => and_congr_right fun ht => ?_
  rw [hpw t ht, sameShard, Table.shard]
  constructor
  · intro hsame
    simp only [Bool.and_eq_true, decide_eq_true_iff] at hsame
    obtain ⟨⟨⟨hdb, hpart⟩, hks⟩, -⟩ := hsame
    rw [hdb, hpart, hks]
  · rintro rfl
    simp

theorem NamesOf.addRef (h : NamesOf tables l) (hn : Fits n) :
    NamesOf (addRef tables n.1 n.2.1 n.2.2) (addName l n) := by
  have hlen : tables.length = l.length := by rw [← h.1, List.length_map]
  rw [Eql.addRef, h.known, addName, hlen]
  by_cases hmem : n ∈ l
  · rw [if_pos (decide_eq_true hmem), if_pos hmem]
    exact h
  · rw [if_neg (by simpa using hmem), if_neg hmem]
    split
    · obtain ⟨hdb, hpart, hks⟩ := hn
      have hnames : (mkTable l.length n.1 n.2.1 n.2.2).shard = n := by
        rw [mkTable, Table.shard]
        dsimp only
        rw [snprintf_of_lt hdb, snprintf_of_lt hpart, snprintf_of_lt hks]
      refine ⟨by rw [List.map_append, h.1, List.map_singleton, hnames], ?_⟩
      intro t ht
      rcases List.mem_append.mp ht with ht | ht
      · exact h.2 t ht
      · obtain rfl := List.mem_singleton.mp ht
        show decide (n.2.2 = []) = decide (snprintf 128 n.2.2 = [])
        rw [snprintf_of_lt hks]
    · exact h

theorem NamesOf.addRefs (h : NamesOf tables l) (hns : ∀ n ∈ ns, Fits n) :
    NamesOf (addRefs tables ns) (ns.foldl addName l) := by
  induction ns generalizing tables l with
  | nil => exact h
  | cons n ns ih =>
    rw [List.forall_mem_cons] at hns
    exact ih (h.addRef hns.1) hns.2

/-- The names are kept in the order in which they come, until there are enough. -/
structure Kept (ns l : List Names) : Prop where
  nodup : l.Nodup
  subset : l ⊆ ns
  le : l.length ≤ maxTables
  full : l.length = maxTables ∨ ns ⊆ l

theorem Kept.addName (h : Kept ns l) : Kept (ns ++ [n]) (addName l n) := by
  have hsubset : l ⊆ ns ++ [n] := List.Subset.trans h.subset (List.subset_append_left ns [n])
  unfold Eql.addName
  split
  · next hmem =>
    refine ⟨h.nodup, hsubset, h.le, h.full.imp_right fun hns => ?_⟩
    exact List.append_subset.mpr ⟨hns, List.cons_subset.mpr ⟨hmem, List.nil_subset l⟩⟩
  · next hmem =>
    split
    · next hroom =>
      refine ⟨?_, ?_, ?_, ?_⟩
      · exact List.nodup_append'.mpr ⟨h.nodup, List.nodup_singleton n,
          List.disjoint_singleton.mpr hmem⟩
      · exact List.append_subset.mpr ⟨hsubset, List.subset_append_right ns [n]⟩
      · rw [List.length_append]
        exact hroom
      · rcases h.full with hfull | hns
        · omega
        · exact Or.inr (List.append_subset.mpr ⟨List.Subset.trans hns (List.subset_append_left l [n]),
            List.subset_append_right l [n]⟩)
    · next hroom => exact ⟨h.nodup, hsubset, h.le, Or.inl (le_antisymm h.le (Nat.le_of_not_lt hroom))⟩

theorem kept_foldl (ns : List Names) : Kept ns (ns.foldl addName []) := by
  induction ns using List.reverseRecOn with
  | nil => exact ⟨List.nodup_nil, List.Subset.refl _, Nat.zero_le _, Or.inr (List.Subset.refl _)⟩
  | append_singleton ns n ih =>
    rw [List.foldl_append]
    exact ih.addName

/-- The table is full where there are enough names. -/
theorem Kept.full_iff (h : Kept ns l) : l.length = maxTables ↔ maxTables ≤ ns.dedup.length := by
  constructor
  · intro hfull
    have hsubset : l ⊆ ns.dedup := List.Subset.trans h.subset (List.subset_dedup ns)
    rw [← hfull]
    exact (h.nodup.subperm hsubset).length_le
  · intro hmany
    rcases h.full with hfull | hns
    · exact hfull
    · have hsubset : ns.dedup ⊆ l := List.Subset.trans (List.dedup_subset ns) hns
      exact le_antisymm h.le (hmany.trans ((List.nodup_dedup ns).subperm hsubset).length_le)

/-- Only names that fit are met. -/
theorem fits_reached (h : Parses m ps) : ∀ n ∈ reached m ps, Fits n := by
  induction ps generalizing m with
  | nil => exact fun n hn => absurd hn List.not_mem_nil
  | cons p ps ih =>
    intro n hn
    rcases List.mem_append.mp hn with hn | hn
    · have hfits : ∀ {source xs names}, p = .name source xs names → m.expects = true →
          Fits names := by
        rintro source xs names rfl hm
        exact (h.1.1 hm).2.2
      cases p with
      | lexeme x =>
        cases x with
        | gap g | quoted quote body | mark c => cases m <;> cases hn
        | word w => cases m <;> cases hn
      | name source xs names =>
        cases m with
        | scan | afterRef | afterAs | afterAlias => cases hn
        | afterWord | afterComma =>
          obtain rfl := List.mem_singleton.mp hn
          exact hfits rfl rfl
    · exact ih h.2 n hn

/-! ## Every source is collected -/

/-- The table of every source of the statement is collected, as long as there is room. -/
def Collects (ps : List Piece) : Prop :=
  (collectRefs (text ps)).length = maxTables ∨ ∀ n ∈ sources ps,
    ∃ t ∈ collectRefs (text ps), sameShard t n.1 n.2.1 n.2.2 = true ∧ t.pw = decide (n.2.2 = [])

instance (ps : List Piece) : Decidable (Collects ps) := inferInstanceAs (Decidable (_ ∨ _))

/-- The tables of a statement are those of the names the scanner meets. -/
theorem namesOf_collectRefs (hreads : Reads (lexemes ps) []) (hparses : Parses .scan ps) :
    NamesOf (collectRefs (text ps)) ((reached .scan ps).foldl addName []) := by
  have hloop : collectRefs (text ps) = addRefs [] (reached .scan ps) :=
    rest_text hreads hparses
  have hnil : NamesOf [] [] := ⟨rfl, fun t ht => absurd ht List.not_mem_nil⟩
  rw [hloop]
  exact hnil.addRefs (fits_reached hparses)

/-- **The table of every source is collected** if and only if the scanner meets the source, or
so many names that there is no room. -/
theorem collects_iff (hreads : Reads (lexemes ps) []) (hparses : Parses .scan ps) :
    Collects ps ↔ maxTables ≤ (reached .scan ps).dedup.length ∨
      ∀ n ∈ sources ps, n ∈ reached .scan ps := by
  have hnames := namesOf_collectRefs hreads hparses
  have hkept := kept_foldl (reached .scan ps)
  generalize (reached .scan ps).foldl addName [] = l at hnames hkept
  have hlen : (collectRefs (text ps)).length = l.length := by rw [← hnames.1, List.length_map]
  have hmem (n : Names) : (∃ t ∈ collectRefs (text ps),
      sameShard t n.1 n.2.1 n.2.2 = true ∧ t.pw = decide (n.2.2 = [])) ↔ n ∈ l := by
    have hknown := hnames.known (n := n)
    rw [Bool.eq_iff_iff, List.any_eq_true, decide_eq_true_iff] at hknown
    rw [← hknown]
    refine exists_congr fun t => and_congr_right fun _ => ?_
    rw [Bool.and_eq_true, beq_iff_eq]
  unfold Collects
  simp only [hmem]
  rw [hlen, hkept.full_iff]
  constructor
  · rintro (hfull | hall)
    · exact Or.inl hfull
    · exact Or.inr fun n hn => hkept.subset (hall n hn)
  · rintro (hfull | hall)
    · exact Or.inl hfull
    · rcases hkept.full with hfull | hmet
      · exact Or.inl (hkept.full_iff.mp hfull)
      · exact Or.inr fun n hn => hmet (hall n hn)

/-- A word. -/
def wordPiece (w : String) : Piece := .lexeme (.word (cstr w))

/-- A space. -/
def space : Piece := .lexeme (.gap (cstr " "))

/-- A source of three bare names. -/
def bareSource (db part ks : String) : Piece :=
  .name true [.word (cstr db), .mark 46, .word (cstr part), .mark 46, .word (cstr ks)]
    (cstr db, cstr part, cstr ks)

/-- A source in a subquery, and two in a list, the first one with an alias behind AS. -/
def metSources : List Piece :=
  [wordPiece "SELECT", space, .lexeme (.mark 42), space, wordPiece "FROM", space,
    .lexeme (.mark 40), wordPiece "SELECT", space, .lexeme (.quoted 39 (cstr "from x.y")), space,
    wordPiece "FROM", space,
    .name true [.quoted 34 (cstr "a b"), .gap (cstr " "), .mark 46, .quoted 91 (cstr "c")]
      (cstr "a b", cstr "c", []),
    .lexeme (.mark 41), space, wordPiece "JOIN", space, bareSource "d" "e" "f", space,
    wordPiece "AS", space, wordPiece "customers", .lexeme (.mark 44), space, bareSource "g" "h" "i"]

theorem collects_metSources : text metSources =
      cstr "SELECT * FROM (SELECT 'from x.y' FROM \"a b\" .[c]) JOIN d.e.f AS customers, g.h.i" ∧
    Collects metSources :=
  ⟨by decide, (collects_iff (by decide +kernel) (by decide +kernel)).mpr
    (Or.inr (by decide +kernel))⟩

/-- The alias has four letters. -/
def missedSource : List Piece :=
  [wordPiece "SELECT", space, .lexeme (.mark 42), space, wordPiece "FROM", space,
    bareSource "a" "b" "c", space, wordPiece "item", .lexeme (.mark 44), space,
    bareSource "d" "e" "f"]

/-- The second source is missed. -/
theorem not_collects_missedSource :
    text missedSource = cstr "SELECT * FROM a.b.c item, d.e.f" ∧ ¬ Collects missedSource :=
  ⟨by decide, by decide +kernel⟩

end EpsilonDB.Eql
