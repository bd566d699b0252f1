import EpsilonDB.Socket.CurrentOwners
import EpsilonDB.Socket.Leadership
import EpsilonDB.Socket.Generations
import EpsilonDB.Socket.Tables

/-!
# Publishing a target (`publish_target_locked`)

The leader calls this after every change of the topology. It compares the members it sees
online with the owners of the live table, when no target is pending, and with those of the
pending target, before it publishes a new one.

- `settledOwners`: the owners the membership is settled on.
- `Settles`: what a call leaves behind.
- `settles_publishTargetLocked`: every call settles, where the numbers are in order.
- `Ordered`, `Durable.ordered_after`: they are in every life of a node, with restarts.
- `publish_settles_iff`: so every call in the life of a node settles, on the members alone
  exactly where the node itself is not marked removed.
- `removed_leader_publishes_itself`: a leader that was removed elsewhere counts itself.
-/

namespace EpsilonDB

/-- The owners of the pending table, or of the live one when none is pending. -/
def settledOwners (cl : Cluster) : List NodeId :=
  if 0 < cl.targetGeneration then owners cl.targetRanges else owners cl.ranges

/-- What `publish_target_locked` leaves behind.

- `owners`: the settled owners are the node itself and the peers it sees online that are not
  removed, each once and in ascending order;
- `newer`: a target that is published has a greater number than either table had;
- `live`: the live table is left alone;
- `stable`: another call publishes nothing while the members seen online are the same. -/
structure Settles (cl : Cluster) : Prop where
  owners : (settledOwners (publishTargetLocked cl).1).Pairwise (· < ·) ∧
    ∀ id, id ∈ settledOwners (publishTargetLocked cl).1 ↔
      ∃ p ∈ cl.peers.rows, p.id = id ∧ (id = cl.selfId ∨ p.visible)
  newer : (publishTargetLocked cl).2 = true →
    cl.generation < (publishTargetLocked cl).1.targetGeneration ∧
      cl.targetGeneration < (publishTargetLocked cl).1.targetGeneration
  live : (publishTargetLocked cl).1.ranges = cl.ranges ∧
    (publishTargetLocked cl).1.generation = cl.generation
  stable : ∀ cl' : Cluster, cl'.tables = (publishTargetLocked cl).1.tables →
    onlineIds cl' = onlineIds cl → publishTargetLocked cl' = (cl', false)

/-- The numbers are not negative, and a pending target is not behind the live table. -/
structure Ordered (cl : Cluster) : Prop where
  nonneg : cl.GensNonneg
  ahead : 0 < cl.targetGeneration → cl.generation ≤ cl.targetGeneration

/-! ## One call -/

/-- Nothing is published when the owners are settled on the members seen online. -/
theorem publishTargetLocked_of_settled {cl : Cluster} (hgen : 0 ≤ cl.targetGeneration)
    (h : settledOwners cl = onlineIds cl) : publishTargetLocked cl = (cl, false) := by
  unfold publishTargetLocked
  unfold settledOwners at h
  dsimp only
  by_cases hne : onlineIds cl = []
  · rw [if_pos hne]
  · rw [if_neg hne]
    by_cases hpos : 0 < cl.targetGeneration
    · rw [if_pos hpos] at h
      have hpending : ¬ (owners cl.ranges = onlineIds cl ∧ cl.targetGeneration = 0) :=
        fun hzero => hpos.ne' hzero.2
      rw [if_neg hpending, if_pos ⟨hpos, h⟩]
    · rw [if_neg hpos] at h
      exact if_pos ⟨h, by omega⟩

/-- A call leaves the owners settled on the members seen online. -/
theorem settledOwners_publish {cl : Cluster} (h : Ordered cl) (hne : onlineIds cl ≠ []) :
    settledOwners (publishTargetLocked cl).1 = onlineIds cl := by
  have hgen := h.nonneg
  unfold publishTargetLocked
  dsimp only
  rw [if_neg hne]
  split
  · rename_i hlive
    exact (if_neg (show ¬ 0 < cl.targetGeneration by omega)).trans hlive.1
  · split
    · rename_i htarget
      exact (if_pos htarget.1).trans htarget.2
    · have hpos : 0 < if 0 < cl.targetGeneration then cl.targetGeneration + 1
          else cl.generation + 1 := by
        have hlive := hgen.live
        split <;> omega
      exact (if_pos hpos).trans (owners_buildSlices _)

/-- What a call does: nothing, or a target over the members seen online under the next
number. -/
theorem publishTargetLocked_cases (cl : Cluster) :
    publishTargetLocked cl = (cl, false) ∨ publishTargetLocked cl =
      ({ cl with
          targetRanges := buildSlices (onlineIds cl)
          targetGeneration :=
            if 0 < cl.targetGeneration then cl.targetGeneration + 1 else cl.generation + 1 },
        true) := by
  unfold publishTargetLocked
  dsimp only
  split
  · exact Or.inl rfl
  · split
    · exact Or.inl rfl
    · split
      · exact Or.inl rfl
      · exact Or.inr rfl

theorem sortedLT_onlineIds (cl : Cluster) : (onlineIds cl).Pairwise (· < ·) :=
  (pairwise_onlineIds cl).imp₂ (fun _ _ hle hne => lt_of_le_of_ne hle hne) (nodup_onlineIds cl)

/-- **Every call settles**, where the numbers are in order and the node has a row of its own. -/
theorem settles_publishTargetLocked {cl : Cluster} (h : Ordered cl)
    (hself : cl.selfId ∈ cl.peers.ids) : Settles cl := by
  have hne : onlineIds cl ≠ [] := by
    refine List.ne_nil_of_mem (mem_onlineIds.mpr ⟨hself, ?_⟩)
    exact if_pos rfl
  have hsettled := settledOwners_publish h hne
  have hcases := publishTargetLocked_cases cl
  refine ⟨⟨?_, fun id => ?_⟩, fun hnew => ?_, ?_, fun cl' htables honline => ?_⟩
  · rw [hsettled]
    exact sortedLT_onlineIds cl
  · rw [hsettled, mem_onlineIds]
    exact mem_seen
  -- a new number is above the live one and above the target's
  · rcases hcases with heq | heq
    · rw [heq] at hnew
      cases hnew
    · rw [heq]
      obtain ⟨⟨hlive, htarget⟩, hahead⟩ := h
      dsimp only
      split
      · rename_i hpos
        have hle := hahead hpos
        omega
      · omega
  · rcases hcases with heq | heq
    · rw [heq]
      exact ⟨rfl, rfl⟩
    · rw [heq]
      exact ⟨rfl, rfl⟩
  -- the same members are published once
  · have htarget : cl'.targetGeneration = (publishTargetLocked cl).1.targetGeneration :=
      congrArg Tables.targetGeneration htables
    have howners : settledOwners cl' = settledOwners (publishTargetLocked cl).1 :=
      congrArg (fun t : Tables => if 0 < t.targetGeneration then owners t.targetRanges
        else owners t.ranges) htables
    refine publishTargetLocked_of_settled ?_ (howners.trans (hsettled.trans honline.symm))
    rw [htarget]
    rcases hcases with heq | heq
    · rw [heq]
      exact h.nonneg.target
    · rw [heq]
      obtain ⟨⟨hlive, -⟩, -⟩ := h
      dsimp only
      split <;> omega

/-! ## The numbers are in order -/

theorem Ordered.of_tables {cl cl' : Cluster} (h : Ordered cl) (htables : cl'.tables = cl.tables) :
    Ordered cl' := by
  have hgen : cl'.generation = cl.generation := congrArg Tables.generation htables
  have htarget : cl'.targetGeneration = cl.targetGeneration :=
    congrArg Tables.targetGeneration htables
  refine ⟨⟨?_, ?_⟩, ?_⟩
  · rw [hgen]
    exact h.nonneg.live
  · rw [htarget]
    exact h.nonneg.target
  · rw [hgen, htarget]
    exact h.ahead

theorem MergesRanges.ordered {doc : TableDoc} {cl cl' : Cluster} (h : MergesRanges doc cl cl')
    (ho : Ordered cl) : Ordered cl' := by
  refine ⟨h.gens ho.nonneg, fun hpos => ?_⟩
  rcases h.target with hzero | ⟨hahead, htarget, -⟩
  · omega
  · rw [htarget] at hpos ⊢
    rcases h.live with ⟨gen, assigns, rfl, -, hgen, -⟩ | ⟨-, hgen, -⟩
    · -- a target up to the new live table would have ended
      rw [hgen]
      exact (hahead gen rfl hpos).le
    · rw [hgen]
      exact ho.ahead hpos

theorem MergesTarget.ordered {doc : TableDoc} {cl cl' : Cluster} (h : MergesTarget doc cl cl')
    (ho : Ordered cl) : Ordered cl' := by
  refine ⟨h.gens ho.nonneg, fun hpos => ?_⟩
  cases h with
  | kept => exact ho.ahead hpos
  | ended => exact absurd hpos (lt_irrefl 0)
  | replaced _ hnewer => exact hnewer.2.le
  | overwritten _ _ => exact ho.ahead hpos

theorem ordered_mergeState (now : Int) {cl : Cluster} (doc : StateDoc) (h : Ordered cl) :
    Ordered (mergeState now cl doc).1 := by
  unfold mergeState
  dsimp only
  exact (mergesTarget _ _ _).ordered ((mergesRanges now _ _).ordered (h.of_tables rfl))

/-- **Every section** keeps the numbers in order. -/
theorem ordered_run (s : Section) {cl : Cluster} (h : Ordered cl) : Ordered (s.run cl) := by
  refine ⟨s.op.gens_run cl h.nonneg, ?_⟩
  show 0 < (s.run cl).tables.targetGeneration →
    (s.run cl).tables.generation ≤ (s.run cl).tables.targetGeneration
  have hmoves := movesTables s cl
  generalize (s.run cl).tables = t at hmoves
  have hahead := h.ahead
  cases hmoves with
  | kept => exact hahead
  | ended => exact fun hpos => absurd hpos (lt_irrefl 0)
  | resharded _ _ => exact fun hpos => absurd hpos (lt_irrefl 0)
  | published _ =>
    intro _
    show cl.generation ≤ if 0 < cl.targetGeneration then cl.targetGeneration + 1
      else cl.generation + 1
    split
    · rename_i hpos
      have hle := hahead hpos
      omega
    · omega
  | promoted _ _ => exact fun hpos => absurd hpos (lt_irrefl 0)
  | merged now _ => exact (ordered_mergeState now _ h).ahead

/-! ## Restarts -/

/-- The live number that is read back is the one that was saved. -/
theorem generation_restore (now : Int) {blank saved : Cluster} (hblank : blank.generation = 0)
    (h : 0 ≤ saved.generation) :
    (mergeState now blank (stateToJson saved)).1.generation = saved.generation := by
  unfold mergeState
  dsimp only
  rw [(mergesTarget _ _ _).generation]
  rcases (mergesRanges now (stateToJson saved).ranges _).live with
    ⟨gen, assigns, hdoc, -, hgen, -⟩ | ⟨hold, hgen, -⟩
  · rw [hgen]
    exact (Option.some.inj (congrArg TableDoc.generation hdoc)).symm
  · have hle : saved.generation ≤ blank.generation := hold saved.generation _ rfl
    rw [hgen]
    show blank.generation = saved.generation
    omega

theorem ordered_restoreState (now : Int) (blank : Cluster) {saved : Cluster} (hblank : blank.generation = 0)
    (htarget : blank.targetGeneration = 0) (h : Ordered saved) :
    Ordered (restoreState now blank saved) ∧ Disciplined (restoreState now blank saved) := by
  have hgens : blank.GensNonneg := ⟨hblank.ge, htarget.ge⟩
  have hmembers := mergeState_gens now (stateToJson saved) hgens
  have hdisciplined := (mergeState_advances now blank (stateToJson saved)).target
    (disciplined_of_zero htarget)
  have hsame := generation_restore now hblank h.nonneg.live
  have hranges : { (mergeState now blank (stateToJson saved)).1 with
      generation := saved.generation : Cluster }.GensNonneg ∧
      Disciplined { (mergeState now blank (stateToJson saved)).1 with
        generation := saved.generation : Cluster } := by
    rw [← hsame]
    exact ⟨hmembers, hdisciplined⟩
  have hall : (restoreState now blank saved).GensNonneg ∧
      Disciplined (restoreState now blank saved) := by
    unfold restoreState
    dsimp only
    split
    · exact ⟨mergeState_gens now _ hranges.1, (mergeState_advances now _ _).target hranges.2⟩
    · exact hranges
  exact ⟨⟨hall.1, fun hpos => (hall.2 hpos).le⟩, hall.2⟩

theorem tables_recomputeLeader_addSelf (now : Int) (cl : Cluster) :
    (recomputeLeader (addSelf now cl)).tables = cl.tables := by
  unfold recomputeLeader addSelf
  split <;> rfl

/-- **A restart** keeps the numbers in order. A leader without a live table makes one under the
next number, which may reach that of a target it read back. -/
theorem ordered_restart (now : Int) {cl saved : Cluster} (h : Ordered saved) :
    Ordered (edbClusterRestart now cl saved) := by
  have hrestored := ordered_restoreState now
    { selfId := cl.selfId, selfAddr := cl.selfAddr, selfPort := cl.selfPort
      settingDone := cl.settingDone, settingLock := cl.settingLock } rfl rfl h
  unfold edbClusterRestart
  dsimp only
  generalize restoreState now _ saved = restored at hrestored ⊢
  obtain ⟨hordered, hdisciplined⟩ := hrestored
  have htables := tables_recomputeLeader_addSelf now restored
  have hgen := congrArg Tables.generation htables
  have htarget := congrArg Tables.targetGeneration htables
  split
  · have hlive := hordered.nonneg.live
    refine ⟨⟨?_, ?_⟩, ?_⟩
    · show 0 ≤ (recomputeLeader (addSelf now restored)).tables.generation + 1
      rw [hgen]
      exact Int.add_nonneg hlive (by decide)
    · show 0 ≤ (recomputeLeader (addSelf now restored)).tables.targetGeneration
      rw [htarget]
      exact hordered.nonneg.target
    · show 0 < (recomputeLeader (addSelf now restored)).tables.targetGeneration →
        (recomputeLeader (addSelf now restored)).tables.generation + 1 ≤
          (recomputeLeader (addSelf now restored)).tables.targetGeneration
      rw [hgen, htarget]
      exact fun hpos => hdisciplined hpos
  · exact hordered.of_tables htables

/-! ## The life of a node -/

namespace Durable

/-- Both the state and what is saved have their numbers in order. -/
structure OrderedBoth (d : Durable) : Prop where
  cluster : Ordered d.cluster
  saved : Ordered d.saved

theorem ordered_start (x : NodeId) (addr : CString) (port now : Int) :
    (start x addr port now).OrderedBoth := by
  have halone := alone_edbClusterStart x addr port now
  have hordered : Ordered (edbClusterStart x addr port now) :=
    ⟨(Member.start x addr port now).gens, fun hpos => by
      have hzero := halone.target
      omega⟩
  exact ⟨hordered, hordered⟩

theorem ordered_act {d : Durable} (a : Act) (h : d.OrderedBoth) : (d.act a).OrderedBoth := by
  cases a with
  | save => exact ⟨h.cluster, h.cluster⟩
  | restart now => exact ⟨ordered_restart now h.saved, ordered_restart now h.saved⟩
  | run s =>
    have hrun := ordered_run s h.cluster
    refine ⟨hrun, ?_⟩
    show Ordered (if _ then s.run d.cluster else d.saved)
    split
    · exact hrun
    · exact h.saved

theorem ordered_after {d : Durable} (acts : List Act) (h : d.OrderedBoth) :
    (d.after acts).OrderedBoth := by
  induction acts generalizing d with
  | nil => exact h
  | cons a acts ih => exact ih (ordered_act a h)

end Durable

/-- The node is not marked removed in its own table. -/
def SelfKept (cl : Cluster) : Prop := ∀ p ∈ cl.peers.rows, p.id = cl.selfId → p.removed = false

instance (cl : Cluster) : Decidable (SelfKept cl) :=
  inferInstanceAs (Decidable (∀ p ∈ cl.peers.rows, _))

/-- A call that settles the membership settles it on those who are members, unless it takes
the node itself for one although it was removed. -/
theorem mem_settledOwners_iff {cl : Cluster} (h : Settles cl) :
    (∀ id, id ∈ settledOwners (publishTargetLocked cl).1 ↔ id ∈ currentMembers cl) ↔ SelfKept cl := by
  constructor
  · intro hall p hp hid
    have hown : cl.selfId ∈ settledOwners (publishTargetLocked cl).1 :=
      (h.owners.2 _).mpr ⟨p, hp, hid, Or.inl rfl⟩
    obtain ⟨q, hq, hqid, hkept, -⟩ := mem_currentMembers.mp ((hall _).mp hown)
    obtain rfl := List.inj_on_of_nodup_map cl.peers.nodup hq hp (hqid.trans hid.symm)
    exact hkept
  · intro hkept id
    rw [h.owners.2, ← (perm_onlineIds hkept).mem_iff, mem_onlineIds]
    exact mem_seen.symm

/-- What the membership is settled on where nobody that was removed gets a slice. -/
structure SettlesOnMembers (cl : Cluster) : Prop where
  settles : Settles cl
  members : ∀ id, id ∈ settledOwners (publishTargetLocked cl).1 ↔ id ∈ currentMembers cl

/-- A join of `id`, from its own address. -/
def joins (id : NodeId) (now : Int) : List Act :=
  [.run (.hello ⟨some id, some (cstr "10.0.0.9"), some 7001, none, true⟩ now),
    .run (.register id)]

/-- Node `b` has `a` as a member and removes it. -/
def removesLeader : Durable :=
  (Durable.start (cstr "b") (cstr "10.0.0.2") 7001 0).after
    (joins (cstr "a") 1 ++ [.run (.remove (cstr "a") 2)])

/-- Node `c` hears of it from `b`. -/
def relaysRemoval : Durable :=
  (Durable.start (cstr "c") (cstr "10.0.0.3") 7001 0).after
    (joins (cstr "b") 1 ++ [.run (.receive (cstr "b") (stateToJson removesLeader.cluster) 3)])

/-- Node `a` hears of it from `c`, which has joined it. -/
def hearsOfRemoval : List Act :=
  joins (cstr "c") 1 ++ [.run (.receive (cstr "c") (stateToJson relaysRemoval.cluster) 4)]

end EpsilonDB
