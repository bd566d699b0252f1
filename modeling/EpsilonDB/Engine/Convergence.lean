import EpsilonDB.Engine.Shard
import EpsilonDB.Lib.LastWriter
import Mathlib.Data.Multiset.Basic

/-!
# Replica convergence

Every record of a shard is a last-writer-wins register whose versions are
`(timestamp, origin)` pairs. The guard of the replicated writes compares the
stored origin *after* copying it into a 64-byte buffer, so the order the code
really uses is `comparedVersion`, which is coarser than `version`.

- `lookup_applyAll`: the row a delivery leaves is the run of the register of its
  id (`LastWriter.run`) over the rows of the delivered changes.
- `converges_iff`: the deliveries of a multiset of changes all leave the row of
  the greatest version iff its latest changes are unambiguous.
- `HeldIn`, `Below`: a shard has a change or a newer version; a shard is nowhere newer than
  another.
- `same_second_diverges`: two values one origin writes in one second already
  break convergence: a tie overwrites, so the last delivery wins.
-/

namespace EpsilonDB

/-- A version: ordered by timestamp, then origin; `⊥` for a row without one. -/
abbrev Version := WithBot (ℤ ×ₗ CString)

/-- The version of a record, its origin seen through `f`. -/
def versionAs (f : CString → CString) (r : Option Row) : Version :=
  match r.bind Row.timestamp with
  | none => ⊥
  | some ts => ((toLex (ts, f ((r.bind Row.origin).getD [])) : ℤ ×ₗ CString) : Version)

/-- The version of a record: its full `(timestamp, origin)` pair. -/
abbrev version : Option Row → Version := versionAs id

/-- The version the guard compares: only 63 bytes of the origin count. -/
abbrev comparedVersion : Option Row → Version := versionAs (snprintf 64)

theorem versionAs_row (f : CString → CString) (c : Change) :
    versionAs f (some c.row) = ((toLex (c.ts, f c.origin) : ℤ ×ₗ CString) : Version) := by
  rw [versionAs, Option.bind_some, Option.bind_some, c.row_timestamp, c.row_origin]
  rfl

/-- A strict order under the guard is a strict order of the full versions. -/
theorem version_lt_of_compared {a b : Option Row}
    (h : comparedVersion a < comparedVersion b) : version a < version b := by
  unfold comparedVersion version versionAs at *
  cases hb : b.bind Row.timestamp with
  | none => rw [hb] at h; exact absurd h not_lt_bot
  | some tb =>
    cases ha : a.bind Row.timestamp with
    | none => exact WithBot.bot_lt_coe _
    | some ta =>
      rw [ha, hb, WithBot.coe_lt_coe, Prod.Lex.toLex_lt_toLex] at h
      rw [WithBot.coe_lt_coe, Prod.Lex.toLex_lt_toLex]
      exact h.imp_right fun ⟨hts, ho⟩ => ⟨hts, lt_of_take_lt 63 ho⟩

/-- The guard refuses a change exactly when its compared version is smaller. -/
theorem storedNewer_iff (sh : Shard) (c : Change) :
    storedNewer (storedVersionLocked sh c.id) c.ts c.origin = true ↔
      comparedVersion (some c.row) < comparedVersion (sh.lookup c.id) := by
  unfold comparedVersion
  rw [versionAs_row, storedVersionLocked, versionAs]
  cases hl : sh.lookup c.id with
  | none => simp [storedNewer]
  | some r =>
    cases hts : r.timestamp with
    | none => simp [storedNewer, hts]
    | some ts =>
      simp only [Option.map_some, Option.bind_some, hts, storedNewer,
        Bool.or_eq_true, Bool.and_eq_true, decide_eq_true_eq, WithBot.coe_lt_coe,
        Prod.Lex.toLex_lt_toLex]
      rw [gt_iff_lt, gt_iff_lt, snprintf, snprintf, lt_take_iff, @eq_comm _ ts]

/-- The writes a delivery makes to one record. -/
def writesTo (id : CString) (cs : List Change) : List (Option Row) :=
  (cs.filter fun c => c.id = id).map fun c => some c.row

theorem mem_writesTo {id : CString} {cs : List Change} {r : Option Row} :
    r ∈ writesTo id cs ↔ ∃ c ∈ cs, c.id = id ∧ some c.row = r := by
  simp [writesTo, and_assoc]

/-- One change writes the register of its own record and no other. -/
theorem lookup_applyChange (sh : Shard) (c : Change) (id : CString) :
    (applyChange sh c).lookup id =
      if c.id = id then LastWriter.write comparedVersion (sh.lookup id) (some c.row)
      else sh.lookup id := by
  rw [applyChange_eq]
  by_cases hid : c.id = id
  · subst hid
    rw [if_pos rfl, LastWriter.write]
    by_cases hnew : comparedVersion (some c.row) < comparedVersion (sh.lookup c.id)
    · rw [if_pos ((storedNewer_iff sh c).mpr hnew), if_pos hnew]
    · rw [if_neg (mt (storedNewer_iff sh c).mp hnew), if_neg hnew, AList.lookup_insert]
  · rw [if_neg hid]
    split
    · rfl
    · exact AList.lookup_insert_ne (Ne.symm hid)

/-- **The refinement**: a delivery runs the register of every record. -/
theorem lookup_applyAll (id : CString) (cs : List Change) (sh : Shard) :
    (applyAll sh cs).lookup id =
      LastWriter.run comparedVersion (sh.lookup id) (writesTo id cs) := by
  induction cs generalizing sh with
  | nil => rfl
  | cons c cs ih =>
    show (applyAll (applyChange sh c) cs).lookup id = _
    rw [ih, lookup_applyChange, writesTo, writesTo, List.filter_cons]
    by_cases hid : c.id = id
    · simp [hid]
    · simp [hid]

/-! ## The convergence property and its exact condition -/

/-- `r` is the row of the greatest version among the stored row of `id` and the
rows the changes of `id` write. -/
structure GreatestOf (sh : Shard) (cs : Multiset Change) (id : CString)
    (r : Option Row) : Prop where
  mem : r = sh.lookup id ∨ ∃ c ∈ cs, c.id = id ∧ some c.row = r
  stored : version (sh.lookup id) ≤ version r
  changes : ∀ c ∈ cs, c.id = id → version (some c.row) ≤ version r

/-- Every delivery of `cs` (any order, any repetition) leaves the same row for
every id: the one of the greatest version. -/
def Converges (sh : Shard) (cs : Multiset Change) : Prop :=
  ∀ id, ∃ r, (∀ o : List Change, (∀ c, c ∈ o ↔ c ∈ cs) → (applyAll sh o).lookup id = r) ∧
    GreatestOf sh cs id r

/-- `c` is a change of `cs` that is not older, as the guard compares, than the
stored row of its id and than any other change of that id. -/
structure IsLatest (sh : Shard) (cs : Multiset Change) (c : Change) : Prop where
  mem : c ∈ cs
  stored : comparedVersion (sh.lookup c.id) ≤ comparedVersion (some c.row)
  newest : ∀ c' ∈ cs, c'.id = c.id → comparedVersion (some c'.row) ≤ comparedVersion (some c.row)

/-- The latest changes of each id write one row, whose full version is not below
the stored one. -/
def LatestUnambiguous (sh : Shard) (cs : Multiset Change) : Prop :=
  ∀ c, IsLatest sh cs c →
    version (sh.lookup c.id) ≤ version (some c.row) ∧
      ∀ c', IsLatest sh cs c' → c'.id = c.id → c'.row = c.row

/-- Latest changes and latest writes of a register are the same thing. -/
theorem latest_iff (sh : Shard) (cs : Multiset Change) (o : List Change)
    (ho : ∀ c, c ∈ o ↔ c ∈ cs) (id : CString) (w : Option Row) :
    LastWriter.Latest comparedVersion (sh.lookup id) (writesTo id o) w ↔
      ∃ c, IsLatest sh cs c ∧ c.id = id ∧ some c.row = w := by
  constructor
  · rintro ⟨hmem, hinit, hnew⟩
    obtain ⟨c, hc, rfl, rfl⟩ := mem_writesTo.mp hmem
    refine ⟨c, ⟨(ho c).mp hc, hinit, fun c' hc' hid => ?_⟩, rfl, rfl⟩
    exact hnew _ (mem_writesTo.mpr ⟨c', (ho c').mpr hc', hid, rfl⟩)
  · rintro ⟨c, ⟨hc, hstored, hnew⟩, rfl, rfl⟩
    refine ⟨mem_writesTo.mpr ⟨c, (ho c).mpr hc, rfl, rfl⟩, hstored, fun w' hw' => ?_⟩
    obtain ⟨c', hc', hid, rfl⟩ := mem_writesTo.mp hw'
    exact hnew c' ((ho c').mp hc') hid

/-- Without a latest change of `id`, the stored row is newer than all of them. -/
theorem stored_newer_of_no_latest {sh : Shard} {cs : Multiset Change} {id : CString}
    (h : ¬ ∃ c, IsLatest sh cs c ∧ c.id = id) {c : Change} (hc : c ∈ cs)
    (hid : c.id = id) :
    comparedVersion (some c.row) < comparedVersion (sh.lookup id) := by
  refine not_le.mp fun hle => h ?_
  have ho : ∀ x, x ∈ cs.toList ↔ x ∈ cs := fun x => Multiset.mem_toList
  have hlatest : LastWriter.Latest comparedVersion (sh.lookup id) (writesTo id cs.toList) _ :=
    LastWriter.run_latest ⟨some c.row, mem_writesTo.mpr ⟨c, (ho c).mpr hc, hid, rfl⟩, hle⟩
  obtain ⟨c', hc', hid', -⟩ := (latest_iff sh cs _ ho id _).mp hlatest
  exact ⟨c', hc', hid'⟩

/-- A latest change delivered last is what its record ends in. -/
theorem lookup_applyAll_append_latest {sh : Shard} {cs : Multiset Change} {c : Change}
    (h : IsLatest sh cs c) {o : List Change} (ho : ∀ x, x ∈ o ↔ x ∈ cs) :
    (applyAll sh (o ++ [c])).lookup c.id = some c.row := by
  have hw : writesTo c.id (o ++ [c]) = writesTo c.id o ++ [some c.row] := by
    simp [writesTo]
  rw [lookup_applyAll, hw]
  exact LastWriter.run_append_latest ((latest_iff sh cs o ho c.id _).mpr ⟨c, h, rfl, rfl⟩)

theorem latestUnambiguous_of_converges {sh : Shard} {cs : Multiset Change}
    (h : Converges sh cs) : LatestUnambiguous sh cs := by
  intro c hc
  obtain ⟨r, hrun, hgreatest⟩ := h c.id
  have ho : ∀ x, x ∈ cs.toList ↔ x ∈ cs := fun x => Multiset.mem_toList
  have hends : ∀ c', IsLatest sh cs c' → c'.id = c.id → some c'.row = r := by
    intro c' hc' hid
    have happ : ∀ x, x ∈ cs.toList ++ [c'] ↔ x ∈ cs := fun x =>
      (LastWriter.Delivers.concat ((ho c').mpr hc'.mem) x).trans (ho x)
    rw [← lookup_applyAll_append_latest hc' ho, hid]
    exact hrun _ happ
  have hr := hends c hc rfl
  refine ⟨hr ▸ hgreatest.stored, fun c' hc' hid => ?_⟩
  exact Option.some.inj ((hends c' hc' hid).trans hr.symm)

theorem converges_of_latestUnambiguous {sh : Shard} {cs : Multiset Change}
    (h : LatestUnambiguous sh cs) : Converges sh cs := by
  intro id
  by_cases hex : ∃ c, IsLatest sh cs c ∧ c.id = id
  · -- every delivery ends in the one row the latest changes write
    obtain ⟨c, hc, rfl⟩ := hex
    refine ⟨some c.row, fun o ho => ?_, Or.inr ⟨c, hc.mem, rfl, rfl⟩, (h c hc).1, ?_⟩
    · have hlatest : LastWriter.Latest comparedVersion (sh.lookup c.id) (writesTo c.id o) _ :=
        LastWriter.run_latest
          ⟨some c.row, mem_writesTo.mpr ⟨c, (ho c).mpr hc.mem, rfl, rfl⟩, hc.stored⟩
      obtain ⟨c', hc', hid, hrow⟩ := (latest_iff sh cs o ho c.id _).mp hlatest
      rw [lookup_applyAll, ← hrow, (h c hc).2 c' hc' hid]
    · intro c' hc' hid
      rcases lt_or_eq_of_le (hc.newest c' hc' hid) with hlt | heq
      · exact (version_lt_of_compared hlt).le
      · have hc'latest : IsLatest sh cs c' :=
          ⟨hc', by rw [hid, heq]; exact hc.stored,
            fun c'' hc'' hid' => by rw [heq]; exact hc.newest c'' hc'' (hid'.trans hid)⟩
        rw [(h c hc).2 c' hc'latest hid]
  · -- the stored row is newer than every change of this id
    have hnewer : ∀ c ∈ cs, c.id = id →
        comparedVersion (some c.row) < comparedVersion (sh.lookup id) := fun c hc hid =>
      stored_newer_of_no_latest hex hc hid
    refine ⟨sh.lookup id, fun o ho => ?_, Or.inl rfl, le_refl _, fun c hc hid => ?_⟩
    · rw [lookup_applyAll]
      refine LastWriter.run_eq_self fun w hw => ?_
      obtain ⟨c, hc, hid, rfl⟩ := mem_writesTo.mp hw
      exact hnewer c ((ho c).mp hc) hid
    · exact (version_lt_of_compared (hnewer c hc hid)).le

/-- **Replica convergence, exactly.** -/
theorem converges_iff (sh : Shard) (cs : Multiset Change) :
    Converges sh cs ↔ LatestUnambiguous sh cs :=
  ⟨latestUnambiguous_of_converges, converges_of_latestUnambiguous⟩

/-- Two puts of record `k` by node `a` at second 5, with different values. -/
theorem same_second_diverges :
    ¬ Converges ∅
      {⟨cstr "k", .put (cstr "\x7b\"v\":1\x7d") (-1), 5, cstr "a"⟩,
       ⟨cstr "k", .put (cstr "\x7b\"v\":2\x7d") (-1), 5, cstr "a"⟩} := by
  intro h
  obtain ⟨r, hrun, -⟩ := h (cstr "k")
  have h₁ := hrun
    [⟨cstr "k", .put (cstr "\x7b\"v\":1\x7d") (-1), 5, cstr "a"⟩,
     ⟨cstr "k", .put (cstr "\x7b\"v\":2\x7d") (-1), 5, cstr "a"⟩] (fun c => by simp)
  have h₂ := hrun
    [⟨cstr "k", .put (cstr "\x7b\"v\":2\x7d") (-1), 5, cstr "a"⟩,
     ⟨cstr "k", .put (cstr "\x7b\"v\":1\x7d") (-1), 5, cstr "a"⟩] (fun c => by simp [or_comm])
  exact absurd (h₁.trans h₂.symm) (by decide)

/-! ## Shards only get newer -/

/-- The shard has the change, or a newer version of its record. -/
def HeldIn (sh : Shard) (c : Change) : Prop :=
  comparedVersion (some c.row) ≤ comparedVersion (sh.lookup c.id)

/-- The order of the versions the guard compares, computed. -/
def versionLe (a b : Option Row) : Bool :=
  match a.bind Row.timestamp, b.bind Row.timestamp with
  | none, _ => true
  | some _, none => false
  | some ta, some tb =>
    decide (ta < tb) || decide (ta = tb) &&
      decide (snprintf 64 ((a.bind Row.origin).getD []) ≤ snprintf 64 ((b.bind Row.origin).getD []))

theorem versionLe_iff {a b : Option Row} :
    versionLe a b = true ↔ comparedVersion a ≤ comparedVersion b := by
  unfold versionLe comparedVersion versionAs
  cases a.bind Row.timestamp with
  | none => exact iff_of_true rfl bot_le
  | some ta =>
    cases b.bind Row.timestamp with
    | none => exact iff_of_false Bool.false_ne_true (WithBot.not_coe_le_bot _)
    | some tb =>
      simp only [Bool.or_eq_true, Bool.and_eq_true, decide_eq_true_eq, WithBot.coe_le_coe,
        Prod.Lex.toLex_le_toLex]

instance (sh : Shard) (c : Change) : Decidable (HeldIn sh c) :=
  decidable_of_iff (versionLe (some c.row) (sh.lookup c.id) = true) versionLe_iff

/-- Every record of the second shard is at least as new as in the first. -/
def Below (sh sh' : Shard) : Prop :=
  ∀ id, comparedVersion (sh.lookup id) ≤ comparedVersion (sh'.lookup id)

theorem Below.refl (sh : Shard) : Below sh sh := fun _ => le_rfl

theorem Below.trans {sh sh' sh'' : Shard} (h : Below sh sh') (h' : Below sh' sh'') :
    Below sh sh'' :=
  fun id => (h id).trans (h' id)

/-- Only the records of the first shard have to be looked at. -/
theorem below_iff {sh sh' : Shard} :
    Below sh sh' ↔
      ∀ id ∈ sh.keys, comparedVersion (sh.lookup id) ≤ comparedVersion (sh'.lookup id) := by
  constructor
  · intro h id _
    exact h id
  · intro h id
    by_cases hid : id ∈ sh.keys
    · exact h id hid
    · rw [AList.lookup_eq_none.mpr (mt AList.mem_keys.mp hid)]
      exact bot_le

instance (sh sh' : Shard) : Decidable (Below sh sh') :=
  decidable_of_iff (∀ id ∈ sh.keys, versionLe (sh.lookup id) (sh'.lookup id) = true)
    (by simp only [versionLe_iff, below_iff])

theorem HeldIn.mono {sh sh' : Shard} {c : Change} (h : HeldIn sh c) (hle : Below sh sh') :
    HeldIn sh' c :=
  le_trans h (hle c.id)

theorem below_applyChange (sh : Shard) (c : Change) : Below sh (applyChange sh c) := by
  intro id
  rw [lookup_applyChange]
  split
  · exact LastWriter.le_write_left ..
  · exact le_rfl

end EpsilonDB
