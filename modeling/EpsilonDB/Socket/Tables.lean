import EpsilonDB.Socket.LocalRun

/-!
# The two tables of a node

What the sections do to the live table and the pending target, apart from all else.

- `Tables`, `Cluster.tables`: both tables with their generations.
- `Tables.Complete`: there is a live table, and a target is a table ahead of it.
- `Tables.merge`: what hearing of other tables makes of ours.
- `tables_mergeState`: that is what the merge of a state does.
- `MovesTables`: what a section can do. `Tables.Complete.moves`: complete tables stay so, as
  long as complete ones arrive.
-/

namespace EpsilonDB

/-- The live table and the pending target of a node. -/
structure Tables where
  generation : Int
  ranges : List RangeInfo
  targetGeneration : Int
  targetRanges : List RangeInfo

def Cluster.tables (cl : Cluster) : Tables :=
  ⟨cl.generation, cl.ranges, cl.targetGeneration, cl.targetRanges⟩

namespace Tables

/-- Without the target. -/
def settled (t : Tables) : Tables := { t with targetGeneration := 0, targetRanges := [] }

/-- There is a live table, and no target or one that is ahead of it. -/
structure Complete (t : Tables) : Prop where
  live : 0 < t.generation ∧ t.ranges ≠ [] ∧ ∀ r ∈ t.ranges, r.Fits
  target : t.targetGeneration = 0 ∧ t.targetRanges = [] ∨
    t.generation < t.targetGeneration ∧ t.targetRanges ≠ [] ∧ ∀ r ∈ t.targetRanges, r.Fits

/-- The live table after hearing of the live table of `o`, which ends a target up to it. -/
def mergeLive (t o : Tables) : Tables :=
  let live :=
    if t.generation < o.generation then { t with generation := o.generation, ranges := o.ranges }
    else t
  if 0 < t.targetGeneration ∧ t.targetGeneration ≤ o.generation then live.settled else live

/-- The target after hearing of the target of `o`, or that there is none. -/
def mergePending (fromLeader : Bool) (t o : Tables) : Tables :=
  if 0 < o.targetGeneration then
    if t.targetGeneration < o.targetGeneration ∧ t.generation < o.targetGeneration then
      { t with targetGeneration := o.targetGeneration, targetRanges := o.targetRanges }
    else t
  else if 0 < t.targetGeneration ∧ fromLeader = true then t.settled
  else t

/-- Both tables after hearing of those of `o`. -/
def merge (fromLeader : Bool) (t o : Tables) : Tables := mergePending fromLeader (mergeLive t o) o

theorem Complete.settled {t : Tables} (h : t.Complete) : t.settled.Complete :=
  ⟨h.live, Or.inl ⟨rfl, rfl⟩⟩

/-- A target of complete tables has a positive number and slices. -/
theorem Complete.pending {t : Tables} (h : t.Complete) (hpos : 0 < t.targetGeneration) :
    t.generation < t.targetGeneration ∧ t.targetRanges ≠ [] ∧ ∀ r ∈ t.targetRanges, r.Fits := by
  rcases h.target with ⟨hzero, -⟩ | hpending
  · omega
  · exact hpending

theorem Complete.mergeLive {t o : Tables} (ht : t.Complete) (ho : o.Complete) :
    (t.mergeLive o).Complete := by
  unfold Tables.mergeLive
  dsimp only
  by_cases hnewer : t.generation < o.generation
  · rw [if_pos hnewer]
    split
    · exact ⟨ho.live, Or.inl ⟨rfl, rfl⟩⟩
    · rename_i hstays
      refine ⟨ho.live, ht.target.imp_right fun hpending => ?_⟩
      -- a target up to the new live table has ended
      have hlive := ht.live.1
      have hahead := hpending.1
      refine ⟨?_, hpending.2⟩
      show o.generation < t.targetGeneration
      omega
  · rw [if_neg hnewer]
    split
    · exact ht.settled
    · exact ht

theorem Complete.mergePending {t o : Tables} (fromLeader : Bool) (ht : t.Complete)
    (ho : o.Complete) : (t.mergePending fromLeader o).Complete := by
  unfold Tables.mergePending
  split
  · rename_i hpos
    split
    · rename_i hnewer
      exact ⟨ht.live, Or.inr ⟨hnewer.2, (ho.pending hpos).2⟩⟩
    · exact ht
  · split
    · exact ht.settled
    · exact ht

/-- **Complete tables stay complete** when they hear of complete ones. -/
theorem Complete.merge {t o : Tables} (fromLeader : Bool) (ht : t.Complete) (ho : o.Complete) :
    (t.merge fromLeader o).Complete :=
  (ht.mergeLive ho).mergePending fromLeader ho

end Tables

/-! ## The merge of a state -/

theorem tables_mergeRanges (now : Int) (cl : Cluster) {o : Cluster}
    (hfits : ∀ r ∈ o.ranges, r.Fits) :
    (mergeRanges now (stateToJson o).ranges cl).1.tables = cl.tables.mergeLive o.tables := by
  show (mergeRanges now ⟨some o.generation, some (o.ranges.map RangeInfo.doc)⟩ cl).1.tables = _
  unfold mergeRanges Tables.mergeLive Cluster.tables
  dsimp only
  by_cases hnewer : cl.generation < o.generation
  · rw [if_pos hnewer, if_pos hnewer]
    dsimp only
    rw [filterMap_slice hfits]
    split <;> rfl
  · rw [if_neg hnewer, if_neg hnewer]
    dsimp only
    split <;> rfl

theorem tables_mergeTarget (fromLeader : Bool) (cl : Cluster) {o : Cluster}
    (ho : o.tables.Complete) :
    (mergeTarget fromLeader (stateToJson o).target cl).1.tables =
      cl.tables.mergePending fromLeader o.tables := by
  by_cases hpos : 0 < o.targetGeneration
  · have hdoc : (stateToJson o).target =
        ⟨some o.targetGeneration, some (o.targetRanges.map RangeInfo.doc)⟩ := if_pos hpos
    have hpending := ho.pending hpos
    have hfits : ∀ r ∈ o.targetRanges, r.Fits := hpending.2.2
    have hne : o.targetRanges ≠ [] := hpending.2.1
    have hne : o.targetRanges.map RangeInfo.doc ≠ [] := fun h => hne (List.map_eq_nil_iff.mp h)
    have hwhole : ((o.targetRanges.map RangeInfo.doc).filterMap AssignDoc.slice).length =
        (o.targetRanges.map RangeInfo.doc).length := by
      rw [filterMap_slice hfits, List.length_map]
    rw [hdoc]
    unfold mergeTarget Tables.mergePending
    dsimp only
    rw [if_neg hne, if_pos hwhole, filterMap_slice hfits,
      if_pos (show 0 < o.tables.targetGeneration from hpos)]
    by_cases hnewer : cl.targetGeneration < o.targetGeneration ∧ cl.generation < o.targetGeneration
    · rw [if_pos hnewer]
      exact (if_pos hnewer).symm
    · rw [if_neg hnewer]
      exact (if_neg hnewer).symm
  · have hdoc : (stateToJson o).target = ⟨none, none⟩ := if_neg hpos
    rw [hdoc]
    unfold mergeTarget Tables.mergePending
    dsimp only
    rw [if_neg (show ¬ 0 < o.tables.targetGeneration from hpos)]
    by_cases hends : 0 < cl.targetGeneration ∧ fromLeader = true
    · rw [if_pos hends]
      exact (if_pos hends).symm
    · rw [if_neg hends]
      exact (if_neg hends).symm

/-- The sender of the document is the leader the node knows. -/
def StateDoc.fromLeader (cl : Cluster) (doc : StateDoc) : Bool :=
  cl.leader ≠ [] && doc.sender = some cl.leader

/-- **The merge of a state** merges the tables. -/
theorem tables_mergeState (now : Int) (cl : Cluster) {o : Cluster} (ho : o.tables.Complete) :
    (mergeState now cl (stateToJson o)).1.tables =
      cl.tables.merge ((stateToJson o).fromLeader cl) o.tables := by
  unfold mergeState
  dsimp only
  rw [tables_mergeTarget _ _ ho, tables_mergeRanges _ _ ho.live.2.2]
  rfl

/-! ## The sections -/

/-- The state document a section merges. -/
def Section.doc : Section → Option StateDoc
  | .receive _ doc _ | .absorb doc _ => some doc
  | _ => none

/-- What a section can do to the tables. -/
inductive MovesTables (s : Section) (cl : Cluster) : Tables → Prop where
  | kept : MovesTables s cl cl.tables
  | ended : MovesTables s cl cl.tables.settled
  | resharded {ids : List NodeId} (hne : ids ≠ []) (hids : ∀ id ∈ ids, id.length < nodeIdMax) :
    MovesTables s cl ⟨cl.generation + 1, buildSlices ids, 0, []⟩
  | published (hne : onlineIds cl ≠ []) :
    MovesTables s cl
      { cl.tables with
        targetGeneration :=
          if 0 < cl.targetGeneration then cl.targetGeneration + 1 else cl.generation + 1
        targetRanges := buildSlices (onlineIds cl) }
  | promoted (hpos : 0 < cl.targetGeneration) (hne : cl.targetRanges ≠ []) :
    MovesTables s cl ⟨cl.targetGeneration, cl.targetRanges, 0, []⟩
  | merged (now : Int) {doc : StateDoc} (hdoc : s.doc = some doc) :
    MovesTables s cl (mergeState now cl doc).1.tables

theorem movesTables_shrinkLiveLocked (s : Section) (now : Int) {cl cl' : Cluster}
    (h : cl'.tables = cl.tables) : MovesTables s cl (shrinkLiveLocked now cl').tables := by
  have hgen : cl'.generation = cl.generation := congrArg Tables.generation h
  simp only [shrinkLiveLocked]
  split
  · have hended : ∀ lock, Cluster.tables { cl' with
        targetGeneration := 0, targetRanges := [], settingLock := lock } = cl.tables.settled :=
      fun lock => congrArg Tables.settled h
    rw [hended]
    exact .ended
  · rename_i hresized
    rw [not_or] at hresized
    show MovesTables s cl ⟨cl'.generation + 1, buildSlices (onlineIds cl'), 0, []⟩
    rw [hgen]
    exact .resharded hresized.1 fun id => length_of_mem_onlineIds

/-- A caller changes no tables. -/
theorem tables_acceptHello (now : Int) (cl : Cluster) (h : HelloDoc) :
    (acceptHello now cl h).1.tables = cl.tables := by
  have hcleared : (clearTombstone cl h).tables = cl.tables := by
    unfold clearTombstone
    split <;> rfl
  unfold acceptHello
  split
  · rfl
  · unfold adoptCaller
    split
    · exact hcleared
    · split
      · exact hcleared
      · exact hcleared

/-- **Every section** does one of these. -/
theorem movesTables (s : Section) (cl : Cluster) : MovesTables s cl (s.run cl).tables := by
  cases s with
  | hello h now =>
    show MovesTables _ cl (acceptHello now cl h).1.tables
    rw [tables_acceptHello]
    exact .kept
  | register id => exact .kept
  | receive id doc now => exact .merged now rfl
  -- a merge is one of the moves by definition
  | absorb doc now => exact .merged now rfl
  | drop id => exact .kept
  | shrink =>
    -- a teardown ends the target or splits the live table anew
    show MovesTables _ cl (teardownShrink cl).tables
    simp only [teardownShrink]
    split
    · exact .ended
    · rename_i hresized
      rw [not_or, not_or] at hresized
      exact .resharded hresized.2.1 fun id => length_of_mem_onlineIds
  | expire now =>
    show MovesTables _ cl (removeExpired now cl).tables
    unfold removeExpired
    split
    · exact movesTables_shrinkLiveLocked _ now rfl
    · exact .kept
  | remove id now =>
    show MovesTables _ cl (edbClusterRemoveNode now cl id).1.tables
    unfold edbClusterRemoveNode
    split
    · exact .kept
    · dsimp only
      split
      · exact movesTables_shrinkLiveLocked _ now rfl
      · exact .kept
  | publish =>
    -- only a leader with members online and another set of owners publishes
    show MovesTables _ cl (edbClusterPublishTarget cl).1.tables
    unfold edbClusterPublishTarget publishTargetLocked
    dsimp only
    split
    · split
      · exact .kept
      · rename_i hne
        split
        · exact .kept
        · split
          · exact .kept
          · exact .published hne
    · exact .kept
  | mark =>
    show MovesTables _ cl (edbClusterMarkCompliant cl).tables
    unfold edbClusterMarkCompliant
    dsimp only
    split <;> exact .kept
  | commit now =>
    -- a promotion needs a pending target with slices
    show MovesTables _ cl (promoteCommit now cl).1.tables
    unfold promoteCommit
    split
    · rename_i hpending
      show MovesTables _ cl (promoteTargetLocked now cl).tables
      unfold promoteTargetLocked
      split
      · exact .kept
      · rename_i htarget
        rw [not_or] at htarget
        exact .promoted hpending.2 htarget.2
    · exact .kept
  | void =>
    show MovesTables _ cl (edbClusterVoidTarget cl).1.tables
    unfold edbClusterVoidTarget
    split
    · exact .ended
    · exact .kept
  | catchUp seed => exact .kept

theorem buildSlices_ne_nil {ids : List NodeId} (hne : ids ≠ []) : buildSlices ids ≠ [] := by
  rw [← List.length_pos_iff, length_buildSlices]
  exact List.length_pos_of_ne_nil hne

/-- **Complete tables stay complete** in a section that merges no incomplete ones. -/
theorem Tables.Complete.moves {s : Section} {cl : Cluster} {t : Tables} (h : cl.tables.Complete)
    (hdoc : ∀ doc ∈ s.doc, ∃ o : Cluster, o.tables.Complete ∧ doc = stateToJson o)
    (hmoves : MovesTables s cl t) : t.Complete := by
  cases hmoves with
  | kept => exact h
  | ended => exact h.settled
  | resharded hne hids =>
    have hlive : 0 < cl.generation := h.live.1
    exact ⟨⟨show 0 < cl.generation + 1 by omega, buildSlices_ne_nil hne, fits_buildSlices hids⟩,
      Or.inl ⟨rfl, rfl⟩⟩
  | published hne =>
    refine ⟨h.live, Or.inr ⟨?_, buildSlices_ne_nil hne,
      fits_buildSlices fun id => length_of_mem_onlineIds⟩⟩
    show cl.generation < if 0 < cl.targetGeneration then cl.targetGeneration + 1
      else cl.generation + 1
    split
    · rename_i hpos
      have hahead : cl.generation < cl.targetGeneration := (h.pending hpos).1
      omega
    · omega
  | promoted hpos hne => exact ⟨⟨hpos, (h.pending hpos).2⟩, Or.inl ⟨rfl, rfl⟩⟩
  | merged now hmerged =>
    obtain ⟨o, ho, rfl⟩ := hdoc _ hmerged
    rw [tables_mergeState now cl ho]
    exact h.merge _ ho

end EpsilonDB
