import EpsilonDB.Socket.LocalRun

/-!
# The order of the generations

A node counts its live table and its pending target with two numbers, which six operations
write under different guards.

- `Disciplined`: a pending target is ahead of the live table.
- `Advances`: the live generation does not fall, and a disciplined state stays one.
- `advances_run`: every section advances the state, whatever arrives.
- `generation_discipline`: so does every run.
-/

namespace EpsilonDB

/-- A pending target is ahead of the live table. -/
def Disciplined (cl : Cluster) : Prop :=
  0 < cl.targetGeneration → cl.generation < cl.targetGeneration

/-- From `cl` to `cl'` the live generation does not fall, and discipline is kept. -/
structure Advances (cl cl' : Cluster) : Prop where
  live : cl.generation ≤ cl'.generation
  target : Disciplined cl → Disciplined cl'

theorem Advances.refl (cl : Cluster) : Advances cl cl := ⟨le_rfl, fun h => h⟩

theorem Advances.trans {c₁ c₂ c₃ : Cluster} (h : Advances c₁ c₂) (h' : Advances c₂ c₃) :
    Advances c₁ c₃ :=
  ⟨h.live.trans h'.live, fun hd => h'.target (h.target hd)⟩

/-- Without a target there is nothing to keep ahead. -/
theorem disciplined_of_zero {cl : Cluster} (h : cl.targetGeneration = 0) : Disciplined cl := by
  intro hpos
  omega

/-- A state that says no more keeps its live generation, and its target or none. -/
theorem Cluster.Within.advances {cl' cl : Cluster} (h : cl'.Within cl) : Advances cl cl' := by
  constructor
  · exact h.live.1.ge
  · intro hd
    rcases h.target with ⟨htarget, -⟩ | hzero
    · intro hpos
      rw [h.live.1, htarget]
      exact hd (htarget ▸ hpos)
    · exact disciplined_of_zero hzero

/-! ## Gossip -/

theorem MergesRanges.advances {doc : TableDoc} {cl cl' : Cluster} (h : MergesRanges doc cl cl') :
    Advances cl cl' := by
  constructor
  · rcases h.live with ⟨gen, -, -, hlt, hgen, -⟩ | ⟨-, hgen, -⟩
    · exact hgen ▸ hlt.le
    · exact hgen.ge
  · intro hd
    rcases h.target with hzero | ⟨hahead, htarget, -⟩
    · exact disciplined_of_zero hzero
    · intro hpos
      rw [htarget] at hpos ⊢
      rcases h.live with ⟨gen, assigns, rfl, -, hgen, -⟩ | ⟨-, hgen, -⟩
      · -- a target up to the new live table would have ended
        rw [hgen]
        exact hahead gen rfl hpos
      · rw [hgen]
        exact hd hpos

theorem MergesTarget.advances {doc : TableDoc} {cl cl' : Cluster} (h : MergesTarget doc cl cl') :
    Advances cl cl' := by
  cases h with
  | kept => exact Advances.refl cl
  | ended => exact ⟨le_rfl, fun _ => disciplined_of_zero rfl⟩
  | replaced _ hnewer => exact ⟨le_rfl, fun _ _ => hnewer.2⟩
  -- a malformed table leaves the numbers alone
  | overwritten _ _ => exact ⟨le_rfl, fun hd => hd⟩

/-- Whatever document arrives. -/
theorem mergeState_advances (now : Int) (cl : Cluster) (doc : StateDoc) :
    Advances cl (mergeState now cl doc).1 := by
  unfold mergeState
  dsimp only
  have hnodes : ∀ t : PeerTable, Advances cl { cl with peers := t } := fun _ =>
    ⟨le_rfl, fun hd => hd⟩
  exact (hnodes _).trans ((mergesRanges now _ _).advances.trans (mergesTarget _ _ _).advances)

/-! ## The waves -/

theorem publish_advances (cl : Cluster) : Advances cl (edbClusterPublishTarget cl).1 := by
  rcases edbClusterPublishTarget_cases cl with heq | ⟨-, heq⟩
  · rw [heq]
    exact Advances.refl cl
  · rw [heq]
    refine ⟨le_rfl, fun hd _ => ?_⟩
    show cl.generation < if 0 < cl.targetGeneration then cl.targetGeneration + 1
      else cl.generation + 1
    split
    · rename_i hpos
      have hahead := hd hpos
      omega
    · omega

theorem promoteTargetLocked_advances (now : Int) {cl : Cluster} (hd : Disciplined cl)
    (hpos : 0 < cl.targetGeneration) : Advances cl (promoteTargetLocked now cl) := by
  unfold promoteTargetLocked
  split
  · exact Advances.refl cl
  · exact ⟨(hd hpos).le, fun _ => disciplined_of_zero rfl⟩

/-- A departure ends the target, and may count the live table up. -/
theorem Shrunk.advances {cl cl' : Cluster} (h : Shrunk cl cl') : Advances cl cl' := by
  refine ⟨?_, fun _ => disciplined_of_zero h.target⟩
  rcases h.live with ⟨hgen, -⟩ | hto
  · exact hgen.ge
  · have hgen := hto.generation
    omega

/-! ## The sections -/

/-- **Every section advances** a disciplined state. -/
theorem advances_run (s : Section) {cl : Cluster} (hd : Disciplined cl) :
    Advances cl (s.run cl) := by
  cases s with
  -- a section that adds no knowledge keeps the live number
  | hello h now => exact (acceptHello_within now cl h).advances
  | register id => exact (registerConn_within cl id).advances
  | receive id doc now =>
    show Advances cl (receiveState now cl id doc).1
    unfold receiveState
    dsimp only
    exact (mergeState_advances now cl doc).trans
      ((recomputeLeader_within _).trans (setOnline_within _ _ _)).advances
  | absorb doc now =>
    show Advances cl (absorbState now cl doc).1
    unfold absorbState
    dsimp only
    exact (mergeState_advances now cl doc).trans (recomputeLeader_within _).advances
  | drop id => exact (dropConn_within cl id).advances
  | shrink => exact (shrunk_teardownShrink cl).advances
  -- a removal first marks the row, then shrinks the live table
  | expire now =>
    show Advances cl (removeExpired now cl)
    rcases removeExpired_cases now cl with heq | ⟨-, heq⟩
    · rw [heq]
      exact Advances.refl cl
    · rw [heq]
      exact (tombstoneExpired_within now cl).advances.trans
        (shrunk_shrinkLiveLocked now _).advances
  | remove id now =>
    show Advances cl (edbClusterRemoveNode now cl id).1
    rcases edbClusterRemoveNode_cases now cl id with heq | heq | ⟨-, heq⟩
    · rw [heq]
      exact Advances.refl cl
    · rw [heq]
      exact (tombstone_within cl id).advances
    · rw [heq]
      exact (tombstone_within cl id).advances.trans (shrunk_shrinkLiveLocked now _).advances
  | publish => exact publish_advances cl
  | mark =>
    show Advances cl (edbClusterMarkCompliant cl)
    unfold edbClusterMarkCompliant
    dsimp only
    split
    · exact Advances.refl cl
    · exact ⟨le_rfl, fun hd => hd⟩
  | commit now =>
    show Advances cl (promoteCommit now cl).1
    unfold promoteCommit
    split
    · rename_i hpending
      exact (promoteTargetLocked_advances now hd hpending.2).trans (clearDone_within _).advances
    · exact Advances.refl cl
  | void => exact (voidTarget_within cl).advances
  | catchUp seed => exact ⟨le_rfl, fun hd => hd⟩

theorem disciplined_start (x : NodeId) (addr : CString) (port now : Int) :
    Disciplined (Member.start x addr port now).cluster :=
  disciplined_of_zero (alone_edbClusterStart x addr port now).target

/-- What some sections leave behind. -/
theorem advances_after {x : NodeId} {m : Member x} (ss : List Section)
    (hd : Disciplined m.cluster) : Advances m.cluster (m.after ss).cluster := by
  induction ss generalizing m with
  | nil => exact Advances.refl _
  | cons s ss ih =>
    have hstep : Advances m.cluster (m.apply s.op).cluster := advances_run s hd
    exact hstep.trans (ih (hstep.target hd))

/-- **Generation discipline**: in the life of a node, from any moment to any later one, the
live generation does not fall, and a pending target is ahead of the live table, whatever
documents it is sent. -/
theorem generation_discipline (x : NodeId) (addr : CString) (port now : Int)
    (before later : List Section) :
    let m := (Member.start x addr port now).after before
    m.cluster.generation ≤ (m.after later).cluster.generation ∧
      Disciplined (m.after later).cluster := by
  intro m
  have hstart := disciplined_start x addr port now
  have hd : Disciplined m.cluster := (advances_after before hstart).target hstart
  have hlater := advances_after later hd
  exact ⟨hlater.live, hlater.target hd⟩

end EpsilonDB
