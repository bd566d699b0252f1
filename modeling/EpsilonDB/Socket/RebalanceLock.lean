import EpsilonDB.Socket.LocalRun

/-!
# The rebalance lock (`edb_cluster_acquire_rebalance_lock`)

Each node keeps the lock in its own settings store, under a name that is not replicated.
Only a joining node's catch-up copies it. So a node sees the lock of another one only when
it took a copy of it.

- `readLock`, `edbClusterAcquireRebalanceLock`: what the stored lock tells an acquirer.
- `settingLock_run`: a section leaves the stored lock alone or deletes it.
- `Lockers`, `Lockers.step`: nodes that acquire the lock, in two steps, among all they do.
  `run_acquire` puts the two steps of an acquisition together.
- `Lockers.Exclusive`: one holder at a time.
- `Lockers.Informed`: the store of the reader came from the catch-ups of a node that learned
  of another's acquisition.
- `exclusive_of_informed`: then there is one holder at a time.
- `both_sides_acquire`: two leaders of two sides.
-/

namespace EpsilonDB

/-- The stored lock is ours, another's, or to be had. -/
inductive LockAnswer where
  | ours
  | refused
  | free
deriving DecidableEq

/-- The reading half of an acquisition: another's lock is stale after 30 seconds. -/
def readLock (now : Int) (cl : Cluster) : LockAnswer :=
  match cl.settingLock with
  | none => .free
  | some (id, ts) =>
    if id = cl.selfId then .ours
    else if 0 < ts ∧ 30 < now - ts then .free
    else .refused

/-- The writing half. -/
def writeLock (now : Int) (cl : Cluster) : Cluster :=
  { cl with settingLock := some (cl.selfId, now) }

/-- `edb_cluster_acquire_rebalance_lock`. -/
def edbClusterAcquireRebalanceLock (now : Int) (cl : Cluster) : Cluster × Bool :=
  match readLock now cl with
  | .ours => (cl, true)
  | .refused => (cl, false)
  | .free => (writeLock now cl, true)

namespace LocalOp

def takeLock (now : Int) : LocalOp where
  run := writeLock now
  selfId_run := fun _ => rfl
  bounded_run := fun _ h => h
  gens_run := fun _ h => ⟨h.live, h.target⟩

end LocalOp

/-- The sections in which a node deletes its lock: its wave is promoted or over. -/
def Section.releases (cl : Cluster) : Section → Bool
  | .shrink => true
  | .expire now => leaderIsSelfLocked cl && cl.peers.rows.any (expired now cl)
  | .remove id now =>
    (edbClusterRemoveNode now cl id).2 && leaderIsSelfLocked (tombstone cl id)
  | .commit now => (promoteCommit now cl).2
  | .void => (edbClusterVoidTarget cl).2
  | _ => false

/-- Only a joining node's catch-up writes the settings of another node over its own. -/
def Section.copies : Section → Bool
  | .catchUp _ => true
  | _ => false

theorem settingLock_edbClusterStart (x : NodeId) (addr : CString) (port now : Int) :
    (edbClusterStart x addr port now).settingLock = none := by
  unfold edbClusterStart
  dsimp only
  split <;> rfl

/-- The live part of a merge leaves the settings alone. -/
theorem settingLock_mergeRanges (now : Int) (doc : TableDoc) (cl : Cluster) :
    (mergeRanges now doc cl).1.settingLock = cl.settingLock := by
  unfold mergeRanges
  split
  · rfl
  · dsimp only
    -- whether a table is taken, and whether it ends a target
    split
    · split <;> rfl
    · split <;> rfl

theorem settingLock_mergeTarget (fromLeader : Bool) (doc : TableDoc) (cl : Cluster) :
    (mergeTarget fromLeader doc cl).1.settingLock = cl.settingLock := by
  unfold mergeTarget
  split
  · split
    · split
      · rfl
      · dsimp only
        split
        · rfl
        · split <;> rfl
    · rfl
  · split <;> rfl

theorem settingLock_mergeState (now : Int) (cl : Cluster) (doc : StateDoc) :
    (mergeState now cl doc).1.settingLock = cl.settingLock := by
  unfold mergeState
  dsimp only
  rw [settingLock_mergeTarget, settingLock_mergeRanges]

theorem settingLock_shrinkLiveLocked (now : Int) (cl : Cluster) :
    (shrinkLiveLocked now cl).settingLock = none := by
  unfold shrinkLiveLocked
  dsimp only
  split <;> rfl

theorem settingLock_acceptHello (now : Int) (cl : Cluster) (h : HelloDoc) :
    (acceptHello now cl h).1.settingLock = cl.settingLock := by
  have hcleared : (clearTombstone cl h).settingLock = cl.settingLock := by
    unfold clearTombstone
    split <;> rfl
  unfold acceptHello
  split
  · rfl
  · unfold adoptCaller
    split
    · exact hcleared
    · split
      · exact hcleared
      · exact hcleared

/-- **A section** deletes the stored lock or leaves it alone, catch-ups apart. -/
theorem settingLock_run (s : Section) (hs : s.copies = false) (cl : Cluster) :
    (s.run cl).settingLock = if s.releases cl then none else cl.settingLock := by
  cases s with
  | hello h now => exact settingLock_acceptHello now cl h
  -- states and connections do not touch the settings
  | register id => rfl
  | receive id doc now => exact settingLock_mergeState now cl doc
  | absorb doc now => exact settingLock_mergeState now cl doc
  | drop id => rfl
  | shrink =>
    -- the sections that split the live table anew delete the lock, whoever wrote it
    show (teardownShrink cl).settingLock = none
    unfold teardownShrink
    dsimp only
    split <;> rfl
  | expire now =>
    show (removeExpired now cl).settingLock =
      if (leaderIsSelfLocked cl && cl.peers.rows.any (expired now cl)) = true then none else _
    unfold removeExpired
    by_cases hexpired : leaderIsSelfLocked cl = true ∧ cl.peers.rows.any (expired now cl) = true
    · rw [if_pos hexpired, if_pos (Bool.and_eq_true_iff.mpr hexpired)]
      exact settingLock_shrinkLiveLocked now _
    · rw [if_neg hexpired, if_neg fun h => hexpired (Bool.and_eq_true_iff.mp h)]
  | remove id now =>
    show (edbClusterRemoveNode now cl id).1.settingLock =
      if ((edbClusterRemoveNode now cl id).2 && leaderIsSelfLocked (tombstone cl id)) = true then
        none else _
    unfold edbClusterRemoveNode
    split
    · rfl
    · dsimp only
      rw [Bool.true_and]
      split
      · exact settingLock_shrinkLiveLocked now _
      · rfl
  | publish =>
    show (edbClusterPublishTarget cl).1.settingLock = cl.settingLock
    rcases edbClusterPublishTarget_cases cl with heq | ⟨-, heq⟩
    · rw [heq]
    · rw [heq]
  | mark =>
    show (edbClusterMarkCompliant cl).settingLock = cl.settingLock
    unfold edbClusterMarkCompliant
    dsimp only
    split <;> rfl
  | commit now =>
    -- the lock goes with the promotion, and with a target that is withdrawn
    show (promoteCommit now cl).1.settingLock = if (promoteCommit now cl).2 = true then none else _
    unfold promoteCommit
    split <;> rfl
  | void =>
    show (edbClusterVoidTarget cl).1.settingLock =
      if (edbClusterVoidTarget cl).2 = true then none else _
    unfold edbClusterVoidTarget
    split <;> rfl
  | catchUp seed => cases hs

/-! ## The nodes -/

/-- All nodes, those that have read the lock as free and not written it yet, and those whose
acquisition succeeded and that have not deleted the lock since. Beside them what the
development remembers of the run: whose acquisition a node made or heard of last, and its
time. -/
structure Lockers where
  node : ∀ x, Member x
  taking : List NodeId := []
  holders : List NodeId := []
  heard : NodeId → Option (NodeId × Int) := fun _ => none

/-- A node reads the lock, writes it, takes the settings of another node when it joins, or runs
a section. -/
inductive LockStep where
  | look (x : NodeId) (now : Int)
  | take (x : NodeId) (now : Int)
  | copy (x seed : NodeId)
  | run (x : NodeId) (s : Section)

namespace Lockers

def cluster (w : Lockers) (x : NodeId) : Cluster := (w.node x).cluster

/-- Node `x` has read the lock. -/
def answer (w : Lockers) (x : NodeId) : LockAnswer → Lockers
  | .ours => { w with holders := x :: w.holders }
  | .refused => w
  | .free => { w with taking := x :: w.taking }

def step (w : Lockers) : LockStep → Option Lockers
  | .look x now => some (w.answer x (readLock now (w.cluster x)))
  | .take x now =>
    if x ∈ w.taking then
      some
        { node := Function.update w.node x ((w.node x).apply (.takeLock now))
          taking := w.taking.erase x
          holders := x :: w.holders
          heard := Function.update w.heard x (some (x, now)) }
    else none
  | .copy x seed =>
    some
      { w with
        node := Function.update w.node x ((w.node x).apply (.catchUp (w.cluster seed)))
        heard := Function.update w.heard x (w.heard seed) }
  | .run x s =>
    if s.copies then none
    else
      some
        { w with
          node := Function.update w.node x ((w.node x).apply s.op)
          holders := if s.releases (w.cluster x) then w.holders.filter (· ≠ x) else w.holders
          heard :=
            if s.releases (w.cluster x) then Function.update w.heard x none else w.heard }

/-- All nodes at their first start. -/
def start (addr : NodeId → CString) (port : NodeId → Int) (now : Int) : Lockers where
  node := (Mesh.start addr port now).node

/-- At most one node believes it holds the lock. -/
def Exclusive (w : Lockers) : Prop := ∀ x ∈ w.holders, ∀ y ∈ w.holders, x = y

/-- The nodes that hold the lock or are about to. -/
def claimants (w : Lockers) : List NodeId := w.holders ++ w.taking

/-- A node that reads the lock while another one claims it has last heard, through the
settings it took when it joined, of an acquisition that another node made at most 30 seconds
ago, and has neither made one of its own nor deleted the lock since. -/
def Informed (w : Lockers) : LockStep → Prop
  | .look x now =>
    (∃ y ∈ w.claimants, y ≠ x) →
      ∃ made ∈ w.heard x, made.1 ≠ x ∧ now - made.2 ≤ 30
  | _ => True

instance (w : Lockers) : ∀ l : LockStep, Decidable (w.Informed l)
  | .look x now =>
    inferInstanceAs (Decidable ((∃ y ∈ w.claimants, y ≠ x) →
      ∃ made ∈ w.heard x, made.1 ≠ x ∧ now - made.2 ≤ 30))
  | .take _ _ | .copy _ _ | .run _ _ => isTrue trivial

/-- The stored locks are the acquisitions that were made or heard of. -/
def Recorded (w : Lockers) : Prop := ∀ x, (w.cluster x).settingLock = w.heard x

/-! ## What the stores say -/

variable {w w' : Lockers}

theorem mem_claimants {x : NodeId} : x ∈ w.claimants ↔ x ∈ w.holders ∨ x ∈ w.taking :=
  List.mem_append

theorem cluster_update {x y : NodeId} (op : LocalOp) {taking holders : List NodeId}
    {heard : NodeId → Option (NodeId × Int)} :
    (Lockers.mk (Function.update w.node x ((w.node x).apply op)) taking holders heard).cluster y =
      if y = x then op.run (w.cluster x) else w.cluster y := by
  unfold cluster
  by_cases hy : y = x
  · subst hy
    rw [if_pos rfl]
    show (Function.update w.node y _ y).cluster = _
    rw [Function.update_self]
    rfl
  · rw [if_neg hy]
    show (Function.update w.node x _ y).cluster = _
    rw [Function.update_of_ne hy]

theorem recorded_start (addr : NodeId → CString) (port : NodeId → Int) (now : Int) :
    (start addr port now).Recorded :=
  fun x => settingLock_edbClusterStart x (addr x) (port x) now

/-- **Every step** writes the stores as it is remembered. -/
theorem recorded_step {l : LockStep} (h : w.Recorded) (hstep : w.step l = some w') :
    w'.Recorded := by
  cases l with
  | look x now =>
    -- a read writes no store
    obtain rfl := Option.some.inj hstep
    cases readLock now (w.cluster x) with
    | ours => exact h
    | refused => exact h
    | free => exact h
  | take x now =>
    -- the node writes its own id and the time into its own settings
    obtain ⟨-, hstep⟩ := Option.ite_none_right_eq_some.mp hstep
    obtain rfl := Option.some.inj hstep
    intro y
    rw [cluster_update]
    by_cases hy : y = x
    · subst hy
      rw [if_pos rfl]
      show some ((w.cluster y).selfId, now) = Function.update w.heard y (some (y, now)) y
      rw [Function.update_self, show (w.cluster y).selfId = y from (w.node y).selfId_eq]
    · rw [if_neg hy]
      show _ = Function.update w.heard x (some (x, now)) y
      rw [Function.update_of_ne hy]
      exact h y
  | copy x seed =>
    -- the settings of the seed come with what it had heard
    obtain rfl := Option.some.inj hstep
    intro y
    rw [cluster_update]
    by_cases hy : y = x
    · subst hy
      rw [if_pos rfl]
      show (w.cluster seed).settingLock = Function.update w.heard y (w.heard seed) y
      rw [Function.update_self]
      exact h seed
    · rw [if_neg hy]
      show _ = Function.update w.heard x (w.heard seed) y
      rw [Function.update_of_ne hy]
      exact h y
  | run x s =>
    -- of the sections only the release of the lock writes the setting
    obtain ⟨hcopies, hstep⟩ := Option.ite_none_left_eq_some.mp hstep
    obtain rfl := Option.some.inj hstep
    intro y
    rw [cluster_update]
    by_cases hy : y = x
    · subst hy
      rw [if_pos rfl]
      show (s.run (w.cluster y)).settingLock =
        (if s.releases (w.cluster y) then Function.update w.heard y none else w.heard) y
      rw [settingLock_run s (by simpa using hcopies)]
      split
      · rw [Function.update_self]
      · exact h y
    · rw [if_neg hy]
      show (w.cluster y).settingLock =
        (if s.releases (w.cluster x) then Function.update w.heard x none else w.heard) y
      split
      · rw [Function.update_of_ne hy]
        exact h y
      · exact h y

/-- A reader that heard of another's acquisition is refused. -/
theorem readLock_of_heard {x : NodeId} {now : Int} (h : w.Recorded)
    (hheard : ∃ made ∈ w.heard x, made.1 ≠ x ∧ now - made.2 ≤ 30) :
    readLock now (w.cluster x) = .refused := by
  obtain ⟨⟨y, t⟩, hmade, hne, hfresh⟩ := hheard
  have hlock : (w.cluster x).settingLock = some (y, t) := (h x).trans hmade
  have hother : y ≠ (w.cluster x).selfId := by
    rw [show (w.cluster x).selfId = x from (w.node x).selfId_eq]
    exact hne
  have hstale : ¬ (0 < t ∧ 30 < now - t) := fun hold => by omega
  unfold readLock
  rw [hlock]
  dsimp only
  rw [if_neg hother, if_neg hstale]

/-- The steps of an acquisition: the lock is written if it was read as free. -/
def acquisition (w : Lockers) (x : NodeId) (now : Int) : List LockStep :=
  if readLock now (w.cluster x) = .free then [.look x now, .take x now] else [.look x now]

/-- **An acquisition** whose steps run next to each other is the function: the state it leaves,
and a new holder where it returns true. -/
theorem run_acquisition (w : Lockers) (x : NodeId) (now : Int) :
    ∃ w', Runs.run step w (w.acquisition x now) = some w' ∧
      w'.cluster x = (edbClusterAcquireRebalanceLock now (w.cluster x)).1 ∧
      w'.holders = if (edbClusterAcquireRebalanceLock now (w.cluster x)).2 then x :: w.holders
        else w.holders := by
  unfold acquisition edbClusterAcquireRebalanceLock
  cases hread : readLock now (w.cluster x) with
  | ours =>
    refine ⟨w.answer x .ours, ?_, rfl, rfl⟩
    show (match some (w.answer x (readLock now (w.cluster x))) with
      | none => none
      | some s' => Runs.run step s' []) = _
    rw [hread]
    rfl
  | refused =>
    refine ⟨w.answer x .refused, ?_, rfl, rfl⟩
    show (match some (w.answer x (readLock now (w.cluster x))) with
      | none => none
      | some s' => Runs.run step s' []) = _
    rw [hread]
    rfl
  | free =>
    have hlook : w.step (.look x now) = some (w.answer x .free) := by rw [← hread]; rfl
    have htake : (w.answer x .free).step (.take x now) = some _ :=
      if_pos (List.mem_cons_self (a := x) (l := w.taking))
    refine ⟨_, (Runs.run_cons _ hlook).trans (Runs.run_cons [] htake), ?_, rfl⟩
    rw [cluster_update, if_pos rfl]
    rfl

/-! ## One holder at a time -/

/-- **An informed step** keeps the claimants one node. -/
theorem claimants_step {l : LockStep} (hrecorded : w.Recorded)
    (h : ∀ x ∈ w.claimants, ∀ y ∈ w.claimants, x = y) (hl : w.Informed l)
    (hstep : w.step l = some w') :
    ∀ x ∈ w'.claimants, ∀ y ∈ w'.claimants, x = y := by
  cases l with
  | look x now =>
    -- a new claimant is the only one
    have hnew : readLock now (w.cluster x) ≠ .refused →
        (∀ y ∈ w'.claimants, y = x ∨ y ∈ w.claimants) →
          ∀ y ∈ w'.claimants, ∀ z ∈ w'.claimants, y = z := by
      intro hread hmem
      have hown : ∀ y ∈ w.claimants, y = x := by
        intro y hy
        by_contra hne
        exact hread (readLock_of_heard hrecorded (hl ⟨y, hy, hne⟩))
      have hall : ∀ y ∈ w'.claimants, y = x := fun y hy => (hmem y hy).elim id (hown y)
      intro y hy z hz
      rw [hall y hy, hall z hz]
    obtain rfl := Option.some.inj hstep
    cases hread : readLock now (w.cluster x) with
    | refused => exact h
    | ours =>
      rw [hread] at hnew
      refine hnew nofun fun y hy => ?_
      rw [mem_claimants] at hy ⊢
      rcases hy with hy | hy
      · exact (List.mem_cons.mp hy).imp_right Or.inl
      · exact Or.inr (Or.inr hy)
    | free =>
      rw [hread] at hnew
      refine hnew nofun fun y hy => ?_
      rw [mem_claimants] at hy ⊢
      rcases hy with hy | hy
      · exact Or.inr (Or.inl hy)
      · exact (List.mem_cons.mp hy).imp_right Or.inr
  | take x now =>
    by_cases htaking : x ∈ w.taking
    · obtain rfl := Option.some.inj ((if_pos htaking).symm.trans hstep)
      have hsub : ∀ y, y ∈ (x :: w.holders) ++ w.taking.erase x → y ∈ w.claimants := by
        intro y hy
        rw [mem_claimants]
        rcases List.mem_append.mp hy with hy | hy
        · rcases List.mem_cons.mp hy with rfl | hy
          · exact Or.inr htaking
          · exact Or.inl hy
        · exact Or.inr (List.mem_of_mem_erase hy)
      exact fun y hy z hz => h y (hsub y hy) z (hsub z hz)
    · cases (if_neg htaking).symm.trans hstep
  | copy x seed =>
    obtain rfl := Option.some.inj hstep
    exact h
  | run x s =>
    obtain ⟨-, hstep⟩ := Option.ite_none_left_eq_some.mp hstep
    obtain rfl := Option.some.inj hstep
    have hsub : ∀ y, y ∈ (if s.releases (w.cluster x) then w.holders.filter (· ≠ x)
        else w.holders) ++ w.taking → y ∈ w.claimants := by
      intro y hy
      rw [mem_claimants]
      rcases List.mem_append.mp hy with hy | hy
      · split at hy
        · exact Or.inl (List.mem_of_mem_filter hy)
        · exact Or.inl hy
      · exact Or.inr hy
    exact fun y hy z hz => h y (hsub y hy) z (hsub z hz)

end Lockers

/-- **One holder at a time**: in every run in which a node that reads the lock while another
claims it has heard of an acquisition of another node. -/
theorem exclusive_of_informed (addr : NodeId → CString) (port : NodeId → Int) (now : Int)
    (ls : List LockStep) {w : Lockers}
    (hinformed : Runs.Along Lockers.step Lockers.Informed (Lockers.start addr port now) ls)
    (hrun : Runs.run Lockers.step (Lockers.start addr port now) ls = some w) : w.Exclusive := by
  have hstep : ∀ (v : Lockers) (l : LockStep) (v' : Lockers),
      (v.Recorded ∧ ∀ x ∈ v.claimants, ∀ y ∈ v.claimants, x = y) → v.Informed l →
        v.step l = some v' → v'.Recorded ∧ ∀ x ∈ v'.claimants, ∀ y ∈ v'.claimants, x = y :=
    fun _ _ _ hv hl hnext =>
      ⟨Lockers.recorded_step hv.1 hnext, Lockers.claimants_step hv.1 hv.2 hl hnext⟩
  have hstart : ∀ x ∈ (Lockers.start addr port now).claimants,
      ∀ y ∈ (Lockers.start addr port now).claimants, x = y := fun x hx =>
    absurd hx List.not_mem_nil
  have hclaimants :=
    (Runs.inv_run hstep ⟨Lockers.recorded_start addr port now, hstart⟩ hinformed hrun).2
  intro x hx y hy
  exact hclaimants x (List.mem_append_left _ hx) y (List.mem_append_left _ hy)

/-- One leader acquires the lock, and a node that joins it takes its settings and is refused.
Once the leader has promoted its wave, the other waits for the lock to get stale and acquires
its own. -/
def oneAfterAnother : List LockStep :=
  [.look (cstr "a") 1, .take (cstr "a") 1, .copy (cstr "b") (cstr "a"), .look (cstr "b") 20,
    .run (cstr "a") .shrink, .look (cstr "b") 40, .take (cstr "b") 40]

theorem oneAfterAnother_exclusive :
    ∃ w, Runs.run Lockers.step (Lockers.start (fun _ => cstr "10.0.0.1") (fun _ => 7001) 0)
      oneAfterAnother = some w ∧ w.holders = [cstr "b"] ∧ w.Exclusive := by
  obtain ⟨w, hw, hb⟩ : ∃ w, Runs.run Lockers.step
      (Lockers.start (fun _ => cstr "10.0.0.1") (fun _ => 7001) 0) oneAfterAnother = some w ∧
        w.holders = [cstr "b"] := ⟨_, rfl, by decide +kernel⟩
  exact ⟨w, hw, hb, exclusive_of_informed _ _ _ oneAfterAnother (by decide +kernel) hw⟩

/-- The leaders of two sides of a partition acquire the lock at the same second. -/
theorem both_sides_acquire :
    ¬ ∀ (addr : NodeId → CString) (port : NodeId → Int) (now : Int) (ls : List LockStep)
      (w : Lockers),
      (∀ x t, .look x t ∈ ls ∨ .take x t ∈ ls → now ≤ t ∧ t ≤ now + 30) →
      Runs.run Lockers.step (Lockers.start addr port now) ls = some w → w.Exclusive := by
  intro hall
  have hexclusive := hall (fun _ => cstr "10.0.0.1") (fun _ => 7001) 0
    [.look (cstr "a") 1, .take (cstr "a") 1, .look (cstr "b") 1, .take (cstr "b") 1] _
    (by simp; omega) rfl (cstr "a") (by decide +kernel) (cstr "b") (by decide +kernel)
  revert hexclusive
  decide

end EpsilonDB
