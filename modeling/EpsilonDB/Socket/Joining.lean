import EpsilonDB.Socket.LocalRun

/-!
# One joiner at a time

A leader refuses an unknown caller while a target is pending. But the target is published
later than the caller is taken, and over all who are online by then.

- `newcomers`, `OneJoiner`: a pending target has at most one owner that is no live owner.
- `StateDoc.Follows`: what a state may bring to a node with one joiner.
- `Section.JoinsOne`: the leader publishes with at most one newcomer online.
- `oneJoiner_run_iff`: such sections, and no others, keep to one joiner.
- `oneJoiner_throughout_iff`: so do such runs.
- `two_callers_before_publication`: two nodes are taken before the target is published.
-/

namespace EpsilonDB

/-- The owners of `target` that own nothing in `live`. -/
def newcomers (live target : List NodeId) : List NodeId :=
  (target.filter (· ∉ live)).dedup

/-- A pending target has at most one newcomer. -/
def OneJoiner (cl : Cluster) : Prop :=
  0 < cl.targetGeneration → (newcomers (owners cl.ranges) (owners cl.targetRanges)).length ≤ 1

/-- The slices of a table as they arrive. -/
def TableDoc.slices (doc : TableDoc) : List RangeInfo :=
  (doc.assignments.getD []).filterMap AssignDoc.slice

/-- The live table of the state replaces ours. -/
def StateDoc.Replaces (cl : Cluster) (doc : StateDoc) : Prop :=
  (∃ gen ∈ doc.ranges.generation, cl.generation < gen) ∧ doc.ranges.assignments.isSome = true

instance (cl : Cluster) (doc : StateDoc) : Decidable (doc.Replaces cl) :=
  inferInstanceAs (Decidable ((∃ gen ∈ doc.ranges.generation, _) ∧ _))

/-- No assignment of the table is malformed. -/
def TableDoc.WellFormed (doc : TableDoc) : Prop :=
  doc.slices.length = (doc.assignments.getD []).length

/-- The number of the live table that a node has with the state, and its owners. -/
def StateDoc.live (cl : Cluster) (doc : StateDoc) : Int × List NodeId :=
  if doc.Replaces cl then (doc.ranges.generation.getD 0, owners doc.ranges.slices)
  else (cl.generation, owners cl.ranges)

/-- The number of our target then: the number of the state's live table ends targets up to it. -/
def StateDoc.pending (cl : Cluster) (doc : StateDoc) : Int :=
  if ∃ gen ∈ doc.ranges.generation, cl.targetGeneration ≤ gen then 0 else cl.targetGeneration

/-- The state has a target, newer than ours and than the live table. -/
def StateDoc.Brings (cl : Cluster) (doc : StateDoc) : Prop :=
  (∃ gen ∈ doc.target.generation, doc.pending cl < gen ∧ (doc.live cl).1 < gen) ∧
    doc.target.assignments.getD [] ≠ []

/-- The leader has no target. -/
def StateDoc.Withdraws (cl : Cluster) (doc : StateDoc) : Prop :=
  doc.target.generation = none ∧ cl.leader ≠ [] ∧ doc.sender = some cl.leader

/-- What a state may bring to a node with one joiner.

- `takes`: a target that the node takes has at most one owner that the live table lacks which
  the node has then;
- `mixes`: so has a target of ours after a malformed one was written over its first slices;
- `keeps`: and so has a target of ours that the state's live table does not end, against that
  table. -/
structure StateDoc.Follows (cl : Cluster) (doc : StateDoc) : Prop where
  takes : doc.Brings cl → doc.target.WellFormed →
    (newcomers (doc.live cl).2 (owners doc.target.slices)).length ≤ 1
  mixes : doc.Brings cl → ¬ doc.target.WellFormed → 0 < doc.pending cl →
    (newcomers (doc.live cl).2 (owners (doc.target.slices.take cl.targetRanges.length ++
      cl.targetRanges.drop doc.target.slices.length))).length ≤ 1
  keeps : doc.Replaces cl → 0 < doc.pending cl → ¬ doc.Brings cl → ¬ doc.Withdraws cl →
    (newcomers (doc.live cl).2 (owners cl.targetRanges)).length ≤ 1

instance (doc : TableDoc) : Decidable doc.WellFormed := inferInstanceAs (Decidable (_ = _))

instance (cl : Cluster) (doc : StateDoc) : Decidable (doc.Brings cl) :=
  inferInstanceAs (Decidable ((∃ gen ∈ doc.target.generation, _) ∧ _))

instance (cl : Cluster) (doc : StateDoc) : Decidable (doc.Withdraws cl) :=
  inferInstanceAs (Decidable (_ ∧ _ ∧ _))

instance (cl : Cluster) (doc : StateDoc) : Decidable (doc.Follows cl) :=
  decidable_of_iff
    ((doc.Brings cl → doc.target.WellFormed →
        (newcomers (doc.live cl).2 (owners doc.target.slices)).length ≤ 1) ∧
      (doc.Brings cl → ¬ doc.target.WellFormed → 0 < doc.pending cl →
        (newcomers (doc.live cl).2 (owners (doc.target.slices.take cl.targetRanges.length ++
          cl.targetRanges.drop doc.target.slices.length))).length ≤ 1) ∧
      (doc.Replaces cl → 0 < doc.pending cl → ¬ doc.Brings cl → ¬ doc.Withdraws cl →
        (newcomers (doc.live cl).2 (owners cl.targetRanges)).length ≤ 1))
    ⟨fun ⟨htakes, hmixes, hkeeps⟩ => ⟨htakes, hmixes, hkeeps⟩,
      fun h => ⟨h.takes, h.mixes, h.keeps⟩⟩

/-- A section that keeps to one joiner. -/
def Section.JoinsOne (cl : Cluster) : Section → Prop
  | .publish =>
    leaderIsSelfLocked cl = true → (newcomers (owners cl.ranges) (onlineIds cl)).length ≤ 1
  | .receive _ doc _ => doc.Follows cl
  | .absorb doc _ => doc.Follows cl
  | _ => True

instance (cl : Cluster) : ∀ s : Section, Decidable (s.JoinsOne cl)
  | .publish => inferInstanceAs (Decidable (_ → _ ≤ _))
  | .receive _ doc _ => inferInstanceAs (Decidable (doc.Follows cl))
  | .absorb doc _ => inferInstanceAs (Decidable (doc.Follows cl))
  | .hello _ _ | .register _ | .drop _ | .shrink | .expire _ | .remove _ _ | .mark | .commit _
  | .void | .catchUp _ => isTrue trivial

/-! ## The sections -/

theorem oneJoiner_of_zero {cl : Cluster} (h : cl.targetGeneration = 0) : OneJoiner cl := by
  intro hpos
  omega

/-- Only the tables matter. -/
theorem OneJoiner.congr {cl cl' : Cluster} (h : OneJoiner cl) (hlive : cl'.ranges = cl.ranges)
    (htarget : cl'.targetGeneration = cl.targetGeneration ∧ cl'.targetRanges = cl.targetRanges) :
    OneJoiner cl' := by
  unfold OneJoiner
  rw [hlive, htarget.1, htarget.2]
  exact h

theorem OneJoiner.within {cl cl' : Cluster} (h : OneJoiner cl) (hwithin : cl'.Within cl) :
    OneJoiner cl' := by
  rcases hwithin.target with htarget | hzero
  · exact h.congr hwithin.live.2 htarget
  · exact oneJoiner_of_zero hzero

/-- What the merge of the live table leaves. -/
theorem mergeRanges_tables (now : Int) (cl : Cluster) (doc : StateDoc) (hgens : cl.GensNonneg) :
    ((mergeRanges now doc.ranges cl).1.generation,
        owners (mergeRanges now doc.ranges cl).1.ranges) = doc.live cl ∧
      (mergeRanges now doc.ranges cl).1.targetGeneration = doc.pending cl ∧
      (0 < doc.pending cl →
        (mergeRanges now doc.ranges cl).1.targetRanges = cl.targetRanges) := by
  obtain ⟨sender, nodes, ⟨generation, assignments⟩, target⟩ := doc
  have hzero := hgens.target
  cases generation with
  | none => exact ⟨by simp [StateDoc.live, StateDoc.Replaces, mergeRanges], by
      simp [StateDoc.pending, mergeRanges], fun _ => rfl⟩
  | some gen =>
    have hpending : StateDoc.pending cl ⟨sender, nodes, ⟨some gen, assignments⟩, target⟩ =
        if 0 < cl.targetGeneration ∧ cl.targetGeneration ≤ gen then 0 else cl.targetGeneration := by
      simp only [StateDoc.pending, Option.mem_some_iff, exists_eq_left']
      split <;> split <;> omega
    have hlive : StateDoc.live cl ⟨sender, nodes, ⟨some gen, assignments⟩, target⟩ =
        (if cl.generation < gen then assignments else none).elim
          (cl.generation, owners cl.ranges)
          (fun assigns => (gen, owners (assigns.filterMap AssignDoc.slice))) := by
      simp only [StateDoc.live, StateDoc.Replaces, Option.mem_some_iff, exists_eq_left']
      by_cases hlt : cl.generation < gen
      · cases assignments with
        | none => simp
        | some assigns => simp [hlt, TableDoc.slices]
      · simp [hlt]
    rw [hpending, hlive]
    unfold mergeRanges
    dsimp only
    -- a table is taken or not, and the target is ended or not
    cases (if cl.generation < gen then assignments else none) with
    | none =>
      split
      · exact ⟨rfl, rfl, fun hpos => absurd hpos (lt_irrefl 0)⟩
      · exact ⟨rfl, rfl, fun _ => rfl⟩
    | some assigns =>
      split
      · exact ⟨rfl, rfl, fun hpos => absurd hpos (lt_irrefl 0)⟩
      · exact ⟨rfl, rfl, fun _ => rfl⟩

/-- A target that the node takes decides alone. -/
theorem follows_iff_of_takes {cl : Cluster} {doc : StateDoc} (hbrings : doc.Brings cl)
    (hwell : doc.target.WellFormed) :
    doc.Follows cl ↔ (newcomers (doc.live cl).2 (owners doc.target.slices)).length ≤ 1 :=
  ⟨fun h => h.takes hbrings hwell, fun h => ⟨fun _ _ => h, fun _ hmal => absurd hwell hmal,
    fun _ _ hno => absurd hbrings hno⟩⟩

/-- And so does one whose first slices are written over ours. -/
theorem follows_iff_of_mixes {cl : Cluster} {doc : StateDoc} (hbrings : doc.Brings cl)
    (hmal : ¬ doc.target.WellFormed) :
    doc.Follows cl ↔ (0 < doc.pending cl →
      (newcomers (doc.live cl).2 (owners (doc.target.slices.take cl.targetRanges.length ++
        cl.targetRanges.drop doc.target.slices.length))).length ≤ 1) :=
  ⟨fun h => h.mixes hbrings hmal, fun h => ⟨fun _ hwell => absurd hwell hmal, fun _ _ => h,
    fun _ _ hno => absurd hbrings hno⟩⟩

/-- Where the merge leaves our target alone, only a live table that replaces ours matters. -/
theorem follows_iff_of_kept {cl merged : Cluster} {doc : StateDoc} (h : OneJoiner cl)
    (hlive : (doc.live cl).2 = owners merged.ranges)
    (hgen : merged.targetGeneration = doc.pending cl)
    (hours : 0 < doc.pending cl → merged.targetRanges = cl.targetRanges)
    (hbrings : ¬ doc.Brings cl) (hwithdraws : ¬ doc.Withdraws cl) :
    OneJoiner merged ↔ doc.Follows cl := by
  constructor
  · intro hone
    refine ⟨fun h => absurd h hbrings, fun h => absurd h hbrings, fun _ hpos _ _ => ?_⟩
    rw [hlive, ← hours hpos]
    exact hone (hgen ▸ hpos)
  · intro hfollows hpos
    rw [hgen] at hpos
    rw [hours hpos, ← hlive]
    by_cases hreplaces : doc.Replaces cl
    · exact hfollows.keeps hreplaces hpos hbrings hwithdraws
    · -- both tables are the ones before
      rw [show (doc.live cl).2 = owners cl.ranges by rw [StateDoc.live, if_neg hreplaces]]
      refine h ?_
      have hle : doc.pending cl = 0 ∨ doc.pending cl = cl.targetGeneration := by
        unfold StateDoc.pending
        split
        · exact Or.inl rfl
        · exact Or.inr rfl
      omega

/-- **A state that follows**, and no other, keeps to one joiner. -/
theorem oneJoiner_mergeState_iff (now : Int) {cl : Cluster} {doc : StateDoc} (h : OneJoiner cl)
    (hgens : cl.GensNonneg) : OneJoiner (mergeState now cl doc).1 ↔ doc.Follows cl := by
  -- the rows of the state come first and touch neither table: only the tables are followed
  unfold mergeState
  dsimp only
  generalize (doc.nodes.foldl _ (cl.peers, false)).1 = peers
  obtain ⟨htable, hgen, hours⟩ :=
    mergeRanges_tables now { cl with peers } doc ⟨hgens.live, hgens.target⟩
  have hlive : (doc.live cl).2 = owners (mergeRanges now doc.ranges { cl with peers }).1.ranges :=
    (congrArg Prod.snd htable).symm
  have hnumber : (doc.live cl).1 = (mergeRanges now doc.ranges { cl with peers }).1.generation :=
    (congrArg Prod.fst htable).symm
  change _ = doc.pending cl at hgen
  change 0 < doc.pending cl → _ at hours
  generalize (mergeRanges now doc.ranges { cl with peers }).1 = merged at *
  have hnonneg : 0 ≤ doc.pending cl := by
    unfold StateDoc.pending
    split
    · exact le_rfl
    · exact hgens.target
  -- a state that leaves the target alone may still change the live table under it
  have hkept := follows_iff_of_kept h hlive hgen hours
  have hleader : (decide (cl.leader ≠ []) && decide (doc.sender = some cl.leader)) = true ↔
      cl.leader ≠ [] ∧ doc.sender = some cl.leader := by
    rw [Bool.and_eq_true, decide_eq_true_iff, decide_eq_true_iff]
  -- what the target of the state does depends on whether it has one, and on its number
  unfold mergeTarget
  cases htarget : doc.target.generation with
  | none =>
    have hbrings : ¬ doc.Brings cl := by
      rintro ⟨⟨gen, hmem, -⟩, -⟩
      rw [htarget] at hmem
      cases hmem
    dsimp only
    split
    · -- the leader has none
      rename_i hwithdrawn
      refine iff_of_true (oneJoiner_of_zero rfl) ⟨fun h => absurd h hbrings,
        fun h => absurd h hbrings, fun _ _ _ hno => absurd ?_ hno⟩
      exact ⟨htarget, hleader.mp hwithdrawn.2⟩
    · rename_i hno
      by_cases hwithdraws : doc.Withdraws cl
      · -- it withdraws a target that is gone already
        have hzero : doc.pending cl = 0 := by
          by_contra hne
          exact hno ⟨by omega, hleader.mpr hwithdraws.2⟩
        refine iff_of_true (oneJoiner_of_zero (hgen.trans hzero)) ⟨fun h => absurd h hbrings,
          fun h => absurd h hbrings, fun _ hpos => ?_⟩
        omega
      · exact hkept hbrings hwithdraws
  | some tgen =>
    have hwithdraws : ¬ doc.Withdraws cl := by
      rintro ⟨hnone, -⟩
      rw [htarget] at hnone
      cases hnone
    have hbrings_iff : doc.Brings cl ↔
        (merged.targetGeneration < tgen ∧ merged.generation < tgen) ∧
          doc.target.assignments.getD [] ≠ [] := by
      unfold StateDoc.Brings
      rw [htarget, hgen, hnumber]
      simp only [Option.mem_some_iff, exists_eq_left']
    dsimp only
    split
    · rename_i hnewer
      cases hassigns : doc.target.assignments with
      | none => exact hkept (by rw [hbrings_iff, hassigns]; exact fun h => h.2 rfl) hwithdraws
      | some assigns =>
        have hslices : doc.target.slices = assigns.filterMap AssignDoc.slice := by
          unfold TableDoc.slices
          rw [hassigns]
          rfl
        have hform : doc.target.WellFormed ↔
            (assigns.filterMap AssignDoc.slice).length = assigns.length := by
          unfold TableDoc.WellFormed
          rw [hslices, hassigns]
          rfl
        dsimp only
        split
        · rename_i hnil
          refine hkept ?_ hwithdraws
          rw [hbrings_iff, hassigns]
          exact fun h => h.2 hnil
        · rename_i hne
          have hbrings : doc.Brings cl := by
            rw [hbrings_iff, hassigns]
            exact ⟨hnewer, hne⟩
          rw [← hslices] at hform ⊢
          split
          · -- the node takes the target
            rename_i hwell
            rw [follows_iff_of_takes hbrings (hform.mpr hwell), hlive]
            exact ⟨fun hone => hone (show 0 < tgen by omega), fun h _ => h⟩
          · -- its first slices are written over the ones of ours
            rename_i hmal
            rw [follows_iff_of_mixes hbrings fun hwell => hmal (hform.mp hwell), hlive]
            constructor
            · intro hone hpos
              rw [← hours hpos]
              exact hone (hgen ▸ hpos)
            · intro h hpos
              have hpos : 0 < doc.pending cl := hgen ▸ hpos
              show (newcomers (owners merged.ranges) (owners (doc.target.slices.take
                merged.targetRanges.length ++
                  merged.targetRanges.drop doc.target.slices.length))).length ≤ 1
              rw [hours hpos]
              exact h hpos
    · rename_i hold
      -- a target that is not newer is passed by
      exact hkept (by rw [hbrings_iff]; exact fun h => hold h.1) hwithdraws

/-- **A publication** keeps to one joiner exactly where at most one member online is new. -/
theorem oneJoiner_publish_iff {cl : Cluster} (h : OneJoiner cl) (hgens : cl.GensNonneg) :
    OneJoiner (edbClusterPublishTarget cl).1 ↔ (leaderIsSelfLocked cl = true →
      (newcomers (owners cl.ranges) (onlineIds cl)).length ≤ 1) := by
  unfold edbClusterPublishTarget
  by_cases hleader : leaderIsSelfLocked cl = true
  · rw [if_pos hleader, forall_prop_of_true hleader]
    unfold publishTargetLocked
    dsimp only
    split
    · rename_i hnil
      -- nobody is online
      refine iff_of_true h ?_
      rw [hnil]
      exact Nat.zero_le _
    · split
      · -- nobody is new
        rename_i hsame
        -- the pending target is over the same members already
        -- the pending target is the same already
        refine iff_of_true h ?_
        rw [← hsame.1]
        unfold newcomers
        rw [List.filter_eq_nil_iff.mpr fun id hid => by simpa using hid]
        exact Nat.zero_le _
      · split
        · rename_i hsame
          refine iff_of_true h ?_
          rw [← hsame.2]
          exact h hsame.1
        · -- a target over all who are online
          have hpos : 0 < if 0 < cl.targetGeneration then cl.targetGeneration + 1
              else cl.generation + 1 := by
            have hlive := hgens.live
            split <;> omega
          refine (forall_prop_of_true hpos).trans ?_
          show (newcomers (owners cl.ranges) (owners (buildSlices (onlineIds cl)))).length ≤ 1 ↔ _
          rw [owners_buildSlices]
  · rw [if_neg hleader]
    exact iff_of_true h fun hself => absurd hself hleader

/-- After a departure there is no target. -/
theorem Shrunk.oneJoiner {cl cl' : Cluster} (h : Shrunk cl cl') : OneJoiner cl' :=
  oneJoiner_of_zero h.target

/-- **A section** keeps to one joiner exactly where its guard holds. -/
theorem oneJoiner_run_iff (s : Section) {cl : Cluster} (h : OneJoiner cl) (hgens : cl.GensNonneg) :
    OneJoiner (s.run cl) ↔ s.JoinsOne cl := by
  cases s with
  | hello doc now => exact iff_of_true (h.within (acceptHello_within now cl doc)) trivial
  -- connections change no table
  | register id => exact iff_of_true (h.within (registerConn_within cl id)) trivial
  | receive id doc now => exact oneJoiner_mergeState_iff now h hgens
  -- the two ways a state arrives end in the same merge
  | absorb doc now => exact oneJoiner_mergeState_iff now h hgens
  | drop id => exact iff_of_true (h.within (dropConn_within cl id)) trivial
  | shrink => exact iff_of_true (shrunk_teardownShrink cl).oneJoiner trivial
  -- a departure ends the target, and a promotion takes it over as the live table
  | expire now =>
    refine iff_of_true ?_ trivial
    show OneJoiner (removeExpired now cl)
    rcases removeExpired_cases now cl with heq | ⟨-, heq⟩
    · rwa [heq]
    · rw [heq]
      exact (shrunk_shrinkLiveLocked now _).oneJoiner
  | remove id now =>
    refine iff_of_true ?_ trivial
    show OneJoiner (edbClusterRemoveNode now cl id).1
    rcases edbClusterRemoveNode_cases now cl id with heq | heq | ⟨-, heq⟩
    · rwa [heq]
    · rw [heq]
      exact h.within (tombstone_within cl id)
    · rw [heq]
      exact (shrunk_shrinkLiveLocked now _).oneJoiner
  | publish => exact oneJoiner_publish_iff h hgens
  | mark =>
    refine iff_of_true ?_ trivial
    show OneJoiner (edbClusterMarkCompliant cl)
    unfold edbClusterMarkCompliant
    dsimp only
    split
    · exact h
    · exact h.congr rfl ⟨rfl, rfl⟩
  | commit now =>
    refine iff_of_true ?_ trivial
    show OneJoiner (promoteCommit now cl).1
    unfold promoteCommit
    split
    · refine OneJoiner.within ?_ (clearDone_within _)
      unfold promoteTargetLocked
      split
      · exact h
      · exact oneJoiner_of_zero rfl
    · exact h
  | void => exact iff_of_true (h.within (voidTarget_within cl)) trivial
  | catchUp seed => exact iff_of_true (h.congr rfl ⟨rfl, rfl⟩) trivial

/-! ## The runs -/

theorem oneJoiner_start (x : NodeId) (addr : CString) (port now : Int) :
    OneJoiner (Member.start x addr port now).cluster :=
  oneJoiner_of_zero (alone_edbClusterStart x addr port now).target

/-- **One joiner at a time**: a node has at most one throughout its life exactly where each of
its publications finds at most one newcomer online, and the states it takes follow. -/
theorem oneJoiner_throughout_iff (x : NodeId) (addr : CString) (port now : Int)
    (ss : List Section) :
    Runs.Throughout Member.step (fun m => OneJoiner m.cluster) (Member.start x addr port now) ss ↔
      Runs.Along Member.step (fun m s => s.JoinsOne m.cluster)
        (Member.start x addr port now) ss := by
  refine Runs.throughout_iff_along (fun _ _ _ hrefused => ?_) (fun s _ m m' hm hnext => ?_)
    (oneJoiner_start x addr port now)
  · cases hrefused
  · rw [Member.step_eq_some hnext]
    exact oneJoiner_run_iff s hm m.gens

/-- A joiner, which has its own live table and has taken the target of the leader, and its
compliance. -/
def joinerState : StateDoc :=
  stateToJson ((Member.start (cstr "b") (cstr "10.0.0.2") 7001 0).after
    [.hello ⟨some (cstr "a"), some (cstr "10.0.0.1"), some 7001, none, true⟩ 1,
      .register (cstr "a"),
      .receive (cstr "a")
        (stateToJson ((Member.start (cstr "a") (cstr "10.0.0.1") 7001 0).after
          [.hello ⟨some (cstr "b"), some (cstr "10.0.0.2"), some 7001, none, true⟩ 1,
            .register (cstr "b"), .publish]).cluster) 2,
      .mark]).cluster

/-- The wave of a single joiner meets the guard, its state with its own live table included. -/
example : Runs.Along Member.step (fun m s => s.JoinsOne m.cluster)
    (Member.start (cstr "a") (cstr "10.0.0.1") 7001 0)
    [.hello ⟨some (cstr "b"), some (cstr "10.0.0.2"), some 7001, none, true⟩ 1,
      .register (cstr "b"), .publish, .mark, .receive (cstr "b") joinerState 3, .commit 4] := by
  decide +kernel

/-- Nodes `b` and `c` say HELLO to `a` before it publishes a target, which is over both. -/
theorem two_callers_before_publication :
    ¬ ∀ (x : NodeId) (addr : CString) (port now : Int) (ss : List Section),
      leaderIsSelfLocked ((Member.start x addr port now).after ss).cluster = true →
      OneJoiner ((Member.start x addr port now).after ss).cluster := by
  intro hall
  have hone := hall (cstr "a") (cstr "10.0.0.1") 7001 0
    [.hello ⟨some (cstr "b"), some (cstr "10.0.0.2"), some 7001, none, true⟩ 1,
      .hello ⟨some (cstr "c"), some (cstr "10.0.0.3"), some 7001, none, true⟩ 1,
      .register (cstr "b"), .register (cstr "c"), .publish]
    (by decide +kernel)
  revert hone
  unfold OneJoiner
  decide +kernel

end EpsilonDB
