import EpsilonDB.Socket.Tables

/-!
# Malformed tables in gossip (`merge_state` in `socket/epsilon_cluster.c`)

An assignment needs a `node_id`, a `start` and an `end`. The two halves of the merge treat one
that lacks a field differently: the live half leaves it out and adopts the rest of the table,
the target half refuses the table after it wrote the rest over ours.

- `TableDoc.Malformed`: some assignment of the table lacks a field.
- `GossipAllOrNothing`: a malformed table leaves ours, and its generation, as they were.
- `live_mergeRanges_iff`, `target_mergeTarget_iff`: when it does, for either half.
- `Ignored`: the malformed tables of a document are older than ours, or repeat it, and
  nothing else in the document ends a pending target.
- `gossipAllOrNothing_iff`: exactly then.
-/

namespace EpsilonDB

/-- The assignment lacks a string field. -/
def AssignDoc.Malformed (a : AssignDoc) : Prop :=
  a.nodeId = none ∨ a.start = none ∨ a.stop = none

/-- Some assignment of the table lacks a field. -/
def TableDoc.Malformed (doc : TableDoc) : Prop :=
  ∃ assigns ∈ doc.assignments, ∃ a ∈ assigns, a.Malformed

/-- A malformed table of the document leaves the corresponding table of the node, and its
generation, as they were. -/
structure GossipAllOrNothing (now : Int) (cl : Cluster) (doc : StateDoc) : Prop where
  live : doc.ranges.Malformed →
    (mergeState now cl doc).1.ranges = cl.ranges ∧
      (mergeState now cl doc).1.generation = cl.generation
  target : doc.target.Malformed →
    (mergeState now cl doc).1.targetRanges = cl.targetRanges ∧
      (mergeState now cl doc).1.targetGeneration = cl.targetGeneration

/-! ## Slices of a malformed table -/

theorem slice_eq_none {a : AssignDoc} : a.slice = none ↔ a.Malformed := by
  obtain ⟨nodeId, start, stop⟩ := a
  unfold AssignDoc.Malformed AssignDoc.slice
  cases nodeId with
  | none => simp
  | some nodeId =>
    cases start with
    | none => simp
    | some start => cases stop <;> simp

/-- A malformed assignment has no slice, so the table has fewer slices than assignments. -/
theorem length_filterMap_slice_ne {assigns : List AssignDoc}
    (h : ∃ a ∈ assigns, AssignDoc.Malformed a) :
    (assigns.filterMap AssignDoc.slice).length ≠ assigns.length := by
  obtain ⟨a, ha, hbad⟩ := h
  intro hlen
  have hsome := List.filterMap_length_eq_length.mp hlen a ha
  rw [slice_eq_none.mpr hbad] at hsome
  cases hsome

/-! ## The live table -/

/-- The generation of the live table once `doc` is merged. -/
def Cluster.liveAfter (cl : Cluster) (doc : TableDoc) : Int :=
  match doc.generation, doc.assignments with
  | some gen, some _ => if cl.generation < gen then gen else cl.generation
  | _, _ => cl.generation

/-- The live table of `doc` ends the pending target of the node. -/
def Cluster.Supersedes (cl : Cluster) (doc : TableDoc) : Prop :=
  0 < cl.targetGeneration ∧ ∃ gen ∈ doc.generation, cl.targetGeneration ≤ gen

theorem generation_mergeRanges (now : Int) (doc : TableDoc) (cl : Cluster) :
    (mergeRanges now doc cl).1.generation = cl.liveAfter doc := by
  obtain ⟨generation, assignments⟩ := doc
  cases generation with
  | none => rfl
  | some gen =>
    unfold mergeRanges Cluster.liveAfter
    dsimp only
    cases assignments with
    | none =>
      simp only [ite_self]
      split <;> rfl
    | some assigns =>
      by_cases hgen : cl.generation < gen
      · simp only [if_pos hgen]
        split <;> rfl
      · simp only [if_neg hgen]
        split <;> rfl

/-- A malformed live table is left out only when it is no newer than ours. -/
theorem live_mergeRanges_iff (now : Int) {doc : TableDoc} (cl : Cluster) (h : doc.Malformed) :
    ((mergeRanges now doc cl).1.ranges = cl.ranges ∧
      (mergeRanges now doc cl).1.generation = cl.generation) ↔
      ∀ gen ∈ doc.generation, gen ≤ cl.generation := by
  obtain ⟨assigns, hassigns, -⟩ := h
  constructor
  · rintro ⟨-, hkept⟩ gen hgen
    rw [generation_mergeRanges, Cluster.liveAfter, Option.mem_def.mp hgen,
      Option.mem_def.mp hassigns] at hkept
    by_contra hlt
    rw [not_le] at hlt
    simp only [if_pos hlt] at hkept
    omega
  · intro hold
    rcases (mergesRanges now doc cl).live with ⟨gen, assigns', hdoc, hnewer, -⟩ | ⟨-, hgen, hranges⟩
    · have hle := hold gen (congrArg TableDoc.generation hdoc)
      omega
    · exact ⟨hranges, hgen⟩

theorem target_mergeRanges_of_not (now : Int) {doc : TableDoc} {cl : Cluster}
    (h : ¬ cl.Supersedes doc) :
    (mergeRanges now doc cl).1.targetRanges = cl.targetRanges ∧
      (mergeRanges now doc cl).1.targetGeneration = cl.targetGeneration := by
  obtain ⟨generation, assignments⟩ := doc
  cases generation with
  | none => exact ⟨rfl, rfl⟩
  | some gen =>
    have hstays : ¬ (0 < cl.targetGeneration ∧ cl.targetGeneration ≤ gen) :=
      fun hends => h ⟨hends.1, gen, rfl, hends.2⟩
    unfold mergeRanges
    dsimp only
    rw [if_neg hstays]
    split
    · exact ⟨rfl, rfl⟩
    · exact ⟨rfl, rfl⟩

theorem target_mergeRanges_of_supersedes (now : Int) {doc : TableDoc} {cl : Cluster}
    (h : cl.Supersedes doc) : (mergeRanges now doc cl).1.targetGeneration = 0 := by
  obtain ⟨hpos, gen, hgen, hle⟩ := h
  unfold mergeRanges
  rw [Option.mem_def.mp hgen]
  dsimp only
  rw [if_pos ⟨hpos, hle⟩]

/-! ## The target -/

/-- Writing the slices over the first slots of the table leaves it as it was. -/
def Repeats (table slices : List RangeInfo) : Prop :=
  slices.take table.length = table.take slices.length

theorem overwritten_eq_iff {table slices : List RangeInfo} :
    slices.take table.length ++ table.drop slices.length = table ↔ Repeats table slices := by
  have hparts := List.take_append_drop slices.length table
  constructor
  · intro h
    have hlen : (slices.take table.length).length = (table.take slices.length).length := by
      rw [List.length_take, List.length_take, Nat.min_comm]
    exact (List.append_inj (h.trans hparts.symm) hlen).1
  · intro h
    rw [show slices.take table.length = table.take slices.length from h]
    exact hparts

/-- A malformed target is refused, but ours is only left alone when the leader does not end
it, and what is written over it repeats it. -/
theorem target_mergeTarget_iff (fromLeader : Bool) {doc : TableDoc} (cl : Cluster)
    {assigns : List AssignDoc} (hassigns : doc.assignments = some assigns)
    (h : ∃ a ∈ assigns, AssignDoc.Malformed a) :
    ((mergeTarget fromLeader doc cl).1.targetRanges = cl.targetRanges ∧
      (mergeTarget fromLeader doc cl).1.targetGeneration = cl.targetGeneration) ↔
      match doc.generation with
      | none => 0 < cl.targetGeneration → fromLeader = false
      | some tgen => cl.targetGeneration < tgen → cl.generation < tgen →
          Repeats cl.targetRanges (assigns.filterMap AssignDoc.slice) := by
  unfold mergeTarget
  cases doc.generation with
  | none =>
    dsimp only
    -- a leader without a target ends the one there is
    by_cases hends : 0 < cl.targetGeneration ∧ fromLeader = true
    · rw [if_pos hends, hends.2]
      have hpos := hends.1
      constructor
      · rintro ⟨-, hzero⟩
        have hzero : (0 : Int) = cl.targetGeneration := hzero
        omega
      · intro hfalse
        exact absurd (hfalse hpos) (by decide)
    · rw [if_neg hends]
      refine ⟨fun _ hpos => ?_, fun _ => ⟨rfl, rfl⟩⟩
      exact Bool.eq_false_iff.mpr fun htrue => hends ⟨hpos, htrue⟩
  | some tgen =>
    dsimp only
    rw [hassigns]
    dsimp only
    by_cases hnewer : cl.targetGeneration < tgen ∧ cl.generation < tgen
    · have hne : assigns ≠ [] := by
        obtain ⟨a, ha, -⟩ := h
        exact List.ne_nil_of_mem ha
      rw [if_pos hnewer, if_neg hne, if_neg (length_filterMap_slice_ne h)]
      dsimp only
      rw [overwritten_eq_iff]
      exact ⟨fun hkept _ _ => hkept.1, fun hrepeats => ⟨hrepeats hnewer.1 hnewer.2, rfl⟩⟩
    · rw [if_neg hnewer]
      exact ⟨fun _ hgen hlive => absurd ⟨hgen, hlive⟩ hnewer, fun _ => ⟨rfl, rfl⟩⟩

/-- A malformed target never gets a generation of its own. -/
theorem targetGeneration_mergeTarget (fromLeader : Bool) {doc : TableDoc} (cl : Cluster)
    (h : doc.Malformed) :
    (mergeTarget fromLeader doc cl).1.targetGeneration = cl.targetGeneration ∨
      (mergeTarget fromLeader doc cl).1.targetGeneration = 0 := by
  obtain ⟨assigns, hassigns, hbad⟩ := h
  unfold mergeTarget
  cases doc.generation with
  | none =>
    dsimp only
    split
    · exact Or.inr rfl
    · exact Or.inl rfl
  | some tgen =>
    dsimp only
    rw [Option.mem_def.mp hassigns]
    dsimp only
    rw [if_neg (length_filterMap_slice_ne hbad)]
    split
    · split
      · exact Or.inl rfl
      · exact Or.inl rfl
    · exact Or.inl rfl

theorem live_mergeTarget (fromLeader : Bool) (doc : TableDoc) (cl : Cluster) :
    (mergeTarget fromLeader doc cl).1.ranges = cl.ranges ∧
      (mergeTarget fromLeader doc cl).1.generation = cl.generation := by
  have hmerges := mergesTarget fromLeader doc cl
  exact ⟨hmerges.ranges, hmerges.generation⟩

/-! ## Both -/

/-- Merging the document meets no malformed table that matters.

- `live`: a malformed live table is no newer than ours;
- `superseded`, `ended`: next to a malformed target, nothing ends ours: no live table that is
  as new, and no word of the leader that it has none;
- `written`: a malformed target is no newer than our tables, or its well-formed assignments
  repeat ours. -/
structure Ignored (cl : Cluster) (doc : StateDoc) : Prop where
  live : doc.ranges.Malformed → ∀ gen ∈ doc.ranges.generation, gen ≤ cl.generation
  superseded : doc.target.Malformed → ¬ cl.Supersedes doc.ranges
  ended : doc.target.Malformed → doc.target.generation = none → 0 < cl.targetGeneration →
    doc.fromLeader cl = false
  written : doc.target.Malformed → ∀ tgen ∈ doc.target.generation,
    cl.targetGeneration < tgen → cl.liveAfter doc.ranges < tgen →
      ∀ assigns ∈ doc.target.assignments,
        Repeats cl.targetRanges (assigns.filterMap AssignDoc.slice)

section

variable (now : Int) (cl : Cluster) (doc : StateDoc)

/-- The node with the members of the document merged. -/
def Cluster.withNodes (cl : Cluster) (doc : StateDoc) : Cluster :=
  { cl with peers := (doc.nodes.foldl (mergeNode cl.selfId (doc.fromLeader cl))
      (cl.peers, false)).1 }

theorem mergeState_eq : (mergeState now cl doc).1 =
    (mergeTarget (doc.fromLeader cl) doc.target
      (mergeRanges now doc.ranges (cl.withNodes doc)).1).1 := rfl

theorem live_mergeState_iff (h : doc.ranges.Malformed) :
    ((mergeState now cl doc).1.ranges = cl.ranges ∧
      (mergeState now cl doc).1.generation = cl.generation) ↔
      ∀ gen ∈ doc.ranges.generation, gen ≤ cl.generation := by
  obtain ⟨hranges, hgen⟩ := live_mergeTarget (doc.fromLeader cl) doc.target
    (mergeRanges now doc.ranges (cl.withNodes doc)).1
  rw [mergeState_eq, hranges, hgen]
  exact live_mergeRanges_iff now (cl.withNodes doc) h

theorem target_mergeState_iff (h : doc.target.Malformed) :
    ((mergeState now cl doc).1.targetRanges = cl.targetRanges ∧
      (mergeState now cl doc).1.targetGeneration = cl.targetGeneration) ↔
      ¬ cl.Supersedes doc.ranges ∧
        (doc.target.generation = none → 0 < cl.targetGeneration → doc.fromLeader cl = false) ∧
        ∀ tgen ∈ doc.target.generation, cl.targetGeneration < tgen →
          cl.liveAfter doc.ranges < tgen → ∀ assigns ∈ doc.target.assignments,
            Repeats cl.targetRanges (assigns.filterMap AssignDoc.slice) := by
  rw [mergeState_eq]
  set live := (mergeRanges now doc.ranges (cl.withNodes doc)).1 with hlive
  by_cases hsup : cl.Supersedes doc.ranges
  · -- the pending target has ended before its own half runs
    have hzero : live.targetGeneration = 0 :=
      target_mergeRanges_of_supersedes now (show (cl.withNodes doc).Supersedes doc.ranges from hsup)
    have hpos : 0 < cl.targetGeneration := hsup.1
    constructor
    · rintro ⟨-, hgen⟩
      rcases targetGeneration_mergeTarget (doc.fromLeader cl) live h with hsame | hnone
      · omega
      · omega
    · rintro ⟨hnot, -⟩
      exact absurd hsup hnot
  · obtain ⟨hranges, htgen⟩ : live.targetRanges = cl.targetRanges ∧
        live.targetGeneration = cl.targetGeneration :=
      target_mergeRanges_of_not now (show ¬ (cl.withNodes doc).Supersedes doc.ranges from hsup)
    have hgen : live.generation = cl.liveAfter doc.ranges :=
      generation_mergeRanges now doc.ranges (cl.withNodes doc)
    obtain ⟨assigns, hassigns, hbad⟩ := h
    have hiff := target_mergeTarget_iff (doc.fromLeader cl) live hassigns hbad
    rw [hranges, htgen, hgen] at hiff
    rw [hiff, Option.mem_def.mp hassigns]
    cases doc.target.generation with
    | none => simp [hsup]
    | some tgen => simp [hsup]

end

/-- **Gossip with a malformed table is all-or-nothing** exactly when it is ignored: the merge
of a newer table is not. -/
theorem gossipAllOrNothing_iff (now : Int) (cl : Cluster) (doc : StateDoc) :
    GossipAllOrNothing now cl doc ↔ Ignored cl doc := by
  constructor
  · intro h
    have htarget := fun hbad => (target_mergeState_iff now cl doc hbad).mp (h.target hbad)
    exact ⟨fun hbad => (live_mergeState_iff now cl doc hbad).mp (h.live hbad),
      fun hbad => (htarget hbad).1, fun hbad => (htarget hbad).2.1,
      fun hbad => (htarget hbad).2.2⟩
  · intro h
    constructor
    · intro hbad
      exact (live_mergeState_iff now cl doc hbad).mpr (h.live hbad)
    · intro hbad
      exact (target_mergeState_iff now cl doc hbad).mpr
        ⟨h.superseded hbad, h.ended hbad, h.written hbad⟩

/-! ## A torn table -/

/-- Two slices, live under generation 1, and pending for two other nodes under 2. -/
def twoSlices : Cluster where
  selfId := cstr "a"
  selfAddr := []
  selfPort := 0
  generation := 1
  ranges := buildSlices [cstr "a", cstr "b"]
  targetGeneration := 2
  targetRanges := buildSlices [cstr "c", cstr "d"]

/-- A table of two slices; the second has no end. -/
def tornDoc (gen : Int) : TableDoc :=
  ⟨some gen, some [⟨some (cstr "x"), some (List.replicate 32 48), some lastKey⟩,
    ⟨some (cstr "y"), some lastKey, none⟩]⟩

/-- A newer live table with a torn second slice is adopted without it, and a newer target
that is torn so leaves its first slice in ours. -/
theorem torn_tables_taken :
    twoSlices.tables.Complete ∧
      ¬ GossipAllOrNothing 0 twoSlices ⟨none, [], tornDoc 2, ⟨none, none⟩⟩ ∧
        ¬ GossipAllOrNothing 0 twoSlices ⟨none, [], ⟨some 1, some []⟩, tornDoc 3⟩ := by
  have hbad : ∀ gen, (tornDoc gen).Malformed := fun gen =>
    ⟨_, rfl, _, List.mem_cons_of_mem _ List.mem_cons_self, Or.inr (Or.inr rfl)⟩
  have hfits : ∀ ids : List NodeId, (∀ id ∈ ids, id.length < nodeIdMax) →
      ∀ r ∈ buildSlices ids, r.Fits := fun ids => fits_buildSlices
  refine ⟨⟨⟨by decide, by decide, hfits _ (by decide)⟩,
    Or.inr ⟨by decide, by decide, hfits _ (by decide)⟩⟩, fun h => ?_, fun h => ?_⟩
  · exact absurd (h.live (hbad 2)).2 (by decide)
  · exact absurd (h.target (hbad 3)).1 (by decide)

end EpsilonDB
