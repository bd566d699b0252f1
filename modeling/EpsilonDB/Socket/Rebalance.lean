import EpsilonDB.Socket.Gossip

/-!
# Live and target tables (`socket/epsilon_cluster_rebalance.c`)

A membership change is rolled out as a wave: the leader publishes a target table over the
online members, every node reports compliance with its generation once it holds its data,
and the leader then promotes the target to the live table. A departure re-shards the live
table in place.

- `publishTargetLocked`, `promoteTargetLocked`, `shrinkLiveLocked`: the three writers of
  the tables.
- `edbClusterTargetCompliant`, `promoteCommit`: the two halves of a promotion. The lock is
  released between them.
- `edbClusterMarkCompliant`, `edbClusterVoidTarget`: compliance is reported and dropped.
- `Cluster.Within`: a state that says no more than another.
- `knows_*`: what each of them can add to what a node knows.
-/

namespace EpsilonDB

/-- `publish_target_locked`: a target over the online members, unless the live table
(without a pending target) or the pending target has these owners. The source collects the ids in
an array of `MAX_PEERS`, which more online members write past; here the list has no bound. -/
def publishTargetLocked (cl : Cluster) : Cluster × Bool :=
  let ids := onlineIds cl
  if ids = [] then (cl, false)
  else if owners cl.ranges = ids ∧ cl.targetGeneration = 0 then (cl, false)
  else if 0 < cl.targetGeneration ∧ owners cl.targetRanges = ids then (cl, false)
  else
    ({ cl with
        targetRanges := buildSlices ids
        targetGeneration :=
          if 0 < cl.targetGeneration then cl.targetGeneration + 1 else cl.generation + 1 }, true)

/-- `edb_cluster_publish_target`. -/
def edbClusterPublishTarget (cl : Cluster) : Cluster × Bool :=
  if leaderIsSelfLocked cl then publishTargetLocked cl else (cl, false)

/-- `promote_target_locked`. -/
def promoteTargetLocked (now : Int) (cl : Cluster) : Cluster :=
  if cl.targetGeneration = 0 ∨ cl.targetRanges = [] then cl
  else
    { cl with
      ranges := cl.targetRanges, generation := cl.targetGeneration
      gcAfter := now + offlineAfterSeconds, targetGeneration := 0, targetRanges := [] }

/-- `shrink_live_locked`: void the target, and re-shard the live table over the online
members when their number changed. -/
def shrinkLiveLocked (now : Int) (cl : Cluster) : Cluster :=
  let voided := { cl with targetGeneration := 0, targetRanges := [], settingLock := none }
  let ids := onlineIds cl
  if ids = [] ∨ ids.length = cl.ranges.length then voided
  else
    { voided with
      ranges := buildSlices ids, generation := cl.generation + 1
      gcAfter := now + offlineAfterSeconds }

/-- The last critical section of `conn_thread`, for a leader that lost a connection: like
`shrink_live_locked`, but an empty live table stays empty and no GC is scheduled. -/
def teardownShrink (cl : Cluster) : Cluster :=
  let voided := { cl with targetGeneration := 0, targetRanges := [], settingLock := none }
  let ids := onlineIds cl
  if cl.ranges = [] ∨ ids = [] ∨ ids.length = cl.ranges.length then voided
  else { voided with ranges := buildSlices ids, generation := cl.generation + 1 }

/-- `required`: the distinct owners of a table, at most `MAX_PEERS` of them. -/
def requiredOwners (table : List RangeInfo) : List NodeId :=
  table.foldl (fun required r =>
    if required.length < maxPeers ∧ r.nodeId ∉ required then required ++ [r.nodeId]
    else required) []

/-- A node counts as compliant by its row or by the stored flag. -/
def reportedCompliant (cl : Cluster) (generation : Int) (id : NodeId) : Bool :=
  (edbClusterPeers cl maxPeers).any (fun p => p.id = id && generation ≤ p.compliantGen) ||
    (cl.settingDone id).any fun g => generation ≤ g

/-- `edb_cluster_target_compliant`. -/
def edbClusterTargetCompliant (cl : Cluster) : Bool :=
  decide (0 < cl.targetGeneration) && requiredOwners cl.targetRanges ≠ [] &&
    (requiredOwners cl.targetRanges).all (reportedCompliant cl cl.targetGeneration)

/-- The stored flags of the members and the rebalance lock deleted. -/
def clearDone (cl : Cluster) : Cluster :=
  { cl with
    settingDone := fun id => if id ∈ cl.peers.ids then none else cl.settingDone id
    settingLock := none }

/-- The committing half of `edb_cluster_promote_target`, which takes whatever target is
pending by then. -/
def promoteCommit (now : Int) (cl : Cluster) : Cluster × Bool :=
  if leaderIsSelfLocked cl ∧ 0 < cl.targetGeneration then
    (clearDone (promoteTargetLocked now cl), true)
  else (cl, false)

/-- The generation `edb_cluster_mark_compliant` reports: the pending one, else the live
one. -/
def markGeneration (cl : Cluster) : Int :=
  if cl.targetGeneration = 0 then cl.generation else cl.targetGeneration

/-- `edb_cluster_mark_compliant`: in our own row, and as the stored flag. -/
def edbClusterMarkCompliant (cl : Cluster) : Cluster :=
  let tgen := markGeneration cl
  if tgen = 0 then cl
  else
    { cl with
      peers := cl.peers.modify cl.selfId fun p =>
        if p.compliantGen < tgen then { p with compliantGen := tgen } else p
      settingDone := fun id => if id = cl.selfId then some tgen else cl.settingDone id }

/-- `edb_cluster_void_target`: the rows forget their compliance, the stored flags stay. -/
def edbClusterVoidTarget (cl : Cluster) : Cluster × Bool :=
  if leaderIsSelfLocked cl ∧ 0 < cl.targetGeneration then
    ({ cl with
        targetGeneration := 0, targetRanges := []
        peers := cl.peers.update fun p => { p with compliantGen := 0 }
        settingLock := none }, true)
  else (cl, false)

/-! ## Tables that fit -/

theorem length_hexFixed (width n : Nat) : (hexFixed width n).length = width := by
  unfold hexFixed
  rw [List.length_map, List.length_reverse, List.length_range]

theorem length_sliceBound (v : Nat) : (sliceBound v).length = 32 := by
  unfold sliceBound
  rw [List.length_append, length_hexFixed, length_hexFixed]

/-- Slices of valid ids fit. -/
theorem fits_buildSlices {ids : List NodeId} (h : ∀ id ∈ ids, id.length < nodeIdMax) :
    ∀ r ∈ buildSlices ids, r.Fits := by
  intro r hr
  unfold buildSlices at hr
  obtain ⟨⟨id, i⟩, hmem, rfl⟩ := List.mem_map.mp hr
  refine ⟨h id (List.fst_mem_of_mem_zipIdx hmem), ?_, ?_⟩
  · dsimp only
    split
    · exact le_of_eq List.length_replicate
    · exact (length_sliceBound _).le
  · dsimp only
    split
    · exact le_of_eq List.length_replicate
    · exact (length_sliceBound _).le

theorem length_buildSlices (ids : List NodeId) : (buildSlices ids).length = ids.length := by
  unfold buildSlices
  rw [List.length_map, List.length_zipIdx]

theorem length_onlineIds_le {cl : Cluster} (h : cl.peers.rows.length ≤ maxPeers) :
    (onlineIds cl).length ≤ maxPeers := by
  unfold onlineIds
  rw [List.length_insertionSort]
  refine (List.length_filter_le _ _).trans ?_
  unfold PeerTable.ids
  rwa [List.length_map]

theorem length_of_mem_onlineIds {cl : Cluster} {id : NodeId} (h : id ∈ onlineIds cl) :
    id.length < nodeIdMax := by
  obtain ⟨p, hp, rfl⟩ := PeerTable.mem_ids.mp (mem_onlineIds.mp h).1
  have hvalid := cl.peers.valid p hp
  unfold validNodeId at hvalid
  rw [Bool.and_eq_true] at hvalid
  exact of_decide_eq_true hvalid.2

theorem fits_onlineSlices {cl : Cluster} (h : cl.peers.rows.length ≤ maxPeers) :
    (∀ r ∈ buildSlices (onlineIds cl), r.Fits) ∧
      (buildSlices (onlineIds cl)).length ≤ maxPeers := by
  refine ⟨fits_buildSlices fun id hid => length_of_mem_onlineIds hid, ?_⟩
  rw [length_buildSlices]
  exact length_onlineIds_le h

/-- All owners of a table that fits are required. -/
theorem mem_requiredOwners {table : List RangeInfo} (hlen : table.length ≤ maxPeers)
    {id : NodeId} (hid : id ∈ owners table) : id ∈ requiredOwners table := by
  -- after each prefix: every owner so far, and no more entries than slices
  have hrun : ∀ (t : List RangeInfo), t.length ≤ maxPeers →
      (requiredOwners t).length ≤ t.length ∧ ∀ x ∈ owners t, x ∈ requiredOwners t := by
    intro t
    induction t using List.reverseRecOn with
    | nil => exact fun _ => ⟨le_rfl, nofun⟩
    | append_singleton t r ih =>
      intro ht
      rw [List.length_append, List.length_singleton] at ht
      obtain ⟨hle, hmem⟩ := ih (by omega)
      have hstep : requiredOwners (t ++ [r]) =
          if (requiredOwners t).length < maxPeers ∧ r.nodeId ∉ requiredOwners t then
            requiredOwners t ++ [r.nodeId]
          else requiredOwners t := by
        unfold requiredOwners
        rw [List.foldl_append]
        rfl
      rw [hstep, List.length_append, List.length_singleton]
      have hroom : (requiredOwners t).length < maxPeers := by omega
      by_cases hr : r.nodeId ∈ requiredOwners t
      · rw [if_neg fun h => h.2 hr]
        refine ⟨by omega, fun x hx => ?_⟩
        unfold owners at hx
        rw [List.map_append, List.mem_append] at hx
        rcases hx with hx | hx
        · exact hmem x hx
        · rw [List.mem_singleton.mp hx]
          exact hr
      · rw [if_pos ⟨hroom, hr⟩, List.length_append, List.length_singleton]
        refine ⟨by omega, fun x hx => ?_⟩
        unfold owners at hx
        rw [List.map_append, List.mem_append] at hx
        rcases hx with hx | hx
        · exact List.mem_append_left _ (hmem x hx)
        · exact List.mem_append_right _ hx
  exact (hrun table hlen).2 id hid

/-! ## Saying no more -/

/-- The rows of `t'` claim no compliance that those of `t` do not claim. -/
def PeerTable.Within (t' t : PeerTable) : Prop :=
  ∀ p ∈ t'.rows, 0 < p.compliantGen →
    ∃ q ∈ t.rows, q.id = p.id ∧ q.compliantGen = p.compliantGen

/-- `cl'` says no more than `cl`. -/
structure Cluster.Within (cl' cl : Cluster) : Prop where
  peers : cl'.peers.Within cl.peers
  done : ∀ id gen, cl'.settingDone id = some gen → cl.settingDone id = some gen
  target : cl'.targetGeneration = cl.targetGeneration ∧ cl'.targetRanges = cl.targetRanges ∨
    cl'.targetGeneration = 0
  live : cl'.generation = cl.generation ∧ cl'.ranges = cl.ranges

theorem Cluster.Within.knows {cl' cl : Cluster} (h : cl'.Within cl) {φ : Fact}
    (hφ : cl'.knows φ) : cl.knows φ := by
  cases φ with
  | compliant id gen =>
    rcases hφ with ⟨p, hp, rfl, hpos, rfl⟩ | hset
    · obtain ⟨q, hq, hid, hgen⟩ := h.peers p hp hpos
      exact Or.inl ⟨q, hq, hid, by rwa [hgen], hgen⟩
    · exact Or.inr (h.done id gen hset)
  | target gen table =>
    obtain ⟨hpos, hg, ht⟩ := hφ
    rcases h.target with ⟨hg', ht'⟩ | hzero
    · exact ⟨hpos, hg'.symm.trans hg, ht'.symm.trans ht⟩
    · omega
  | live gen table => exact ⟨h.live.1.symm.trans hφ.1, h.live.2.symm.trans hφ.2⟩

namespace PeerTable

theorem Within.refl (t : PeerTable) : t.Within t := fun p hp _ => ⟨p, hp, rfl, rfl⟩

theorem Within.trans {t₁ t₂ t₃ : PeerTable} (h : t₁.Within t₂) (h' : t₂.Within t₃) :
    t₁.Within t₃ := by
  intro p hp hpos
  obtain ⟨q, hq, hid, hgen⟩ := h p hp hpos
  obtain ⟨r, hr, hid', hgen'⟩ := h' q hq (by rwa [hgen])
  exact ⟨r, hr, hid'.trans hid, hgen'.trans hgen⟩

theorem within_modify (t : PeerTable) (id : NodeId) {f : PeerInfo → PeerInfo}
    (hf : ∀ p, (f p).compliantGen = p.compliantGen) : (t.modify id f).Within t := by
  intro p hp _
  obtain ⟨q, hq, ⟨-, rfl⟩ | ⟨-, rfl⟩⟩ := mem_rows_modify hp
  · exact ⟨q, hq, rfl, (hf q).symm⟩
  · exact ⟨p, hq, rfl, rfl⟩

theorem within_update (t : PeerTable) {f : PeerInfo → PeerInfo}
    (hf : ∀ p, (f p).compliantGen = p.compliantGen ∨ (f p).compliantGen = 0) :
    (t.update f).Within t := by
  intro p hp hpos
  obtain ⟨q, hq, rfl⟩ := List.mem_map.mp hp
  have hpos : 0 < (f q).compliantGen := hpos
  rcases hf q with hsame | hzero
  · exact ⟨q, hq, rfl, hsame.symm⟩
  · omega

theorem within_add (t : PeerTable) {p : PeerInfo} (h : p.compliantGen = 0) :
    (t.add p).Within t := by
  intro q hq hpos
  rcases mem_rows_add hq with hq | rfl
  · exact ⟨q, hq, rfl, rfl⟩
  · omega

end PeerTable

theorem Cluster.Within.refl (cl : Cluster) : cl.Within cl :=
  ⟨PeerTable.Within.refl _, fun _ _ h => h, Or.inl ⟨rfl, rfl⟩, ⟨rfl, rfl⟩⟩

theorem Cluster.Within.trans {c₁ c₂ c₃ : Cluster} (h : c₁.Within c₂) (h' : c₂.Within c₃) :
    c₁.Within c₃ where
  peers := h.peers.trans h'.peers
  done := fun id gen hset => h'.done id gen (h.done id gen hset)
  target := by
    rcases h.target with ⟨hg, ht⟩ | hzero
    · rw [hg, ht]
      exact h'.target
    · exact Or.inr hzero
  live := ⟨h.live.1.trans h'.live.1, h.live.2.trans h'.live.2⟩

/-- Only the rows changed. -/
theorem within_of_peers (cl : Cluster) {t : PeerTable} (h : t.Within cl.peers) :
    { cl with peers := t : Cluster }.Within cl :=
  ⟨h, fun _ _ hset => hset, Or.inl ⟨rfl, rfl⟩, ⟨rfl, rfl⟩⟩

/-! ## What the waves add -/

/-- A publication leaves everything as it was, or the leader has a target over the online
members, under the next number. -/
theorem edbClusterPublishTarget_cases (cl : Cluster) :
    edbClusterPublishTarget cl = (cl, false) ∨
      leaderIsSelfLocked cl = true ∧ edbClusterPublishTarget cl =
        ({ cl with
            targetRanges := buildSlices (onlineIds cl)
            targetGeneration :=
              if 0 < cl.targetGeneration then cl.targetGeneration + 1 else cl.generation + 1 },
          true) := by
  simp only [edbClusterPublishTarget, publishTargetLocked]
  by_cases hleader : leaderIsSelfLocked cl = true
  · rw [if_pos hleader]
    split
    · exact Or.inl rfl
    · split
      · exact Or.inl rfl
      · split
        · exact Or.inl rfl
        · exact Or.inr ⟨hleader, rfl⟩
  · rw [if_neg hleader]
    exact Or.inl rfl

theorem knows_edbClusterPublishTarget {cl : Cluster} {φ : Fact}
    (h : (edbClusterPublishTarget cl).1.knows φ) :
    cl.knows φ ∨ (edbClusterPublishTarget cl).2 = true ∧
      φ = .target (edbClusterPublishTarget cl).1.targetGeneration (buildSlices (onlineIds cl)) := by
  rcases edbClusterPublishTarget_cases cl with heq | ⟨-, heq⟩
  · rw [heq] at h
    exact Or.inl h
  · rw [heq] at h ⊢
    cases φ with
    | compliant id gen => exact Or.inl h
    | live gen table => exact Or.inl h
    | target gen table =>
      obtain ⟨-, rfl, rfl⟩ := h
      exact Or.inr ⟨rfl, rfl⟩

/-- What a published target is. -/
theorem edbClusterPublishTarget_published {cl : Cluster}
    (h : (edbClusterPublishTarget cl).2 = true) :
    (edbClusterPublishTarget cl).1.targetRanges = buildSlices (onlineIds cl) := by
  rcases edbClusterPublishTarget_cases cl with heq | ⟨-, heq⟩
  · rw [heq] at h
    cases h
  · rw [heq]

theorem knows_promoteTargetLocked {now : Int} {cl : Cluster} {φ : Fact}
    (h : (promoteTargetLocked now cl).knows φ) :
    cl.knows φ ∨ cl.targetGeneration ≠ 0 ∧ φ = .live cl.targetGeneration cl.targetRanges := by
  unfold promoteTargetLocked at h
  split at h
  · exact Or.inl h
  · rename_i hpending
    cases φ with
    | compliant id gen => exact Or.inl h
    | live gen table =>
      obtain ⟨hg, ht⟩ := h
      right
      refine ⟨fun hzero => hpending (Or.inl hzero), ?_⟩
      rw [← hg, ← ht]
    | target gen table =>
      obtain ⟨hpos, hg, -⟩ := h
      have hg : (0 : Int) = gen := hg
      omega

theorem clearDone_within (cl : Cluster) : (clearDone cl).Within cl := by
  refine ⟨PeerTable.Within.refl _, fun id gen hset => ?_, Or.inl ⟨rfl, rfl⟩, ⟨rfl, rfl⟩⟩
  have hset : (if id ∈ cl.peers.ids then none else cl.settingDone id) = some gen := hset
  split at hset
  · cases hset
  · exact hset

theorem knows_promoteCommit {now : Int} {cl : Cluster} {φ : Fact}
    (h : (promoteCommit now cl).1.knows φ) :
    cl.knows φ ∨ (promoteCommit now cl).2 = true ∧
      φ = .live cl.targetGeneration cl.targetRanges := by
  unfold promoteCommit at h ⊢
  split at h
  · rename_i hpending
    rw [if_pos hpending]
    have hstep : (promoteTargetLocked now cl).knows φ := (clearDone_within _).knows h
    rcases knows_promoteTargetLocked hstep with h | ⟨-, rfl⟩
    · exact Or.inl h
    · exact Or.inr ⟨rfl, rfl⟩
  · exact Or.inl h

theorem pending_of_promoteCommit {now : Int} {cl : Cluster}
    (h : (promoteCommit now cl).2 = true) : 0 < cl.targetGeneration := by
  unfold promoteCommit at h
  split at h
  · rename_i hpending
    exact hpending.2
  · cases h

/-- `cl'` has the live table of `cl` re-sharded over the online members. -/
structure ReshardsTo (cl cl' : Cluster) : Prop where
  generation : cl'.generation = cl.generation + 1
  ranges : cl'.ranges = buildSlices (onlineIds cl)
  resized : (onlineIds cl).length ≠ cl.ranges.length

/-- What a departure does: the target is void, and the live table stays or is re-sharded. -/
structure Shrunk (cl cl' : Cluster) : Prop where
  peers : cl'.peers = cl.peers
  done : cl'.settingDone = cl.settingDone
  target : cl'.targetGeneration = 0
  live : cl'.generation = cl.generation ∧ cl'.ranges = cl.ranges ∨ ReshardsTo cl cl'

theorem shrunk_shrinkLiveLocked (now : Int) (cl : Cluster) :
    Shrunk cl (shrinkLiveLocked now cl) := by
  simp only [shrinkLiveLocked]
  split
  · exact ⟨rfl, rfl, rfl, Or.inl ⟨rfl, rfl⟩⟩
  · rename_i hids
    exact ⟨rfl, rfl, rfl, Or.inr ⟨rfl, rfl, fun hlen => hids (Or.inr hlen)⟩⟩

theorem shrunk_teardownShrink (cl : Cluster) : Shrunk cl (teardownShrink cl) := by
  simp only [teardownShrink]
  split
  · exact ⟨rfl, rfl, rfl, Or.inl ⟨rfl, rfl⟩⟩
  · rename_i hids
    exact ⟨rfl, rfl, rfl, Or.inr ⟨rfl, rfl, fun hlen => hids (Or.inr (Or.inr hlen))⟩⟩

/-- Only a re-sharded table can be new. -/
theorem Shrunk.knows {cl cl' : Cluster} (hshrunk : Shrunk cl cl') {φ : Fact}
    (h : cl'.knows φ) :
    cl.knows φ ∨ ReshardsTo cl cl' ∧ φ = .live cl'.generation cl'.ranges := by
  cases φ with
  | compliant id gen =>
    simp only [Cluster.knows, hshrunk.peers, hshrunk.done] at h
    exact Or.inl h
  | live gen table =>
    obtain ⟨rfl, rfl⟩ := h
    rcases hshrunk.live with ⟨hgen, hranges⟩ | hto
    · exact Or.inl ⟨hgen.symm, hranges.symm⟩
    · exact Or.inr ⟨hto, rfl⟩
  | target gen table =>
    -- no target is left
    obtain ⟨hpos, hgen, -⟩ := h
    rw [hshrunk.target] at hgen
    omega

theorem knows_markCompliant {cl : Cluster} {φ : Fact}
    (h : (edbClusterMarkCompliant cl).knows φ) :
    cl.knows φ ∨ markGeneration cl ≠ 0 ∧ φ = .compliant cl.selfId (markGeneration cl) := by
  unfold edbClusterMarkCompliant at h
  dsimp only at h
  split at h
  · exact Or.inl h
  · rename_i hgen
    cases φ with
    | live gen table => exact Or.inl h
    | target gen table => exact Or.inl h
    | compliant id gen =>
      rcases h with ⟨p, hp, rfl, hpos, rfl⟩ | hset
      · obtain ⟨q, hq, ⟨hid, rfl⟩ | ⟨-, rfl⟩⟩ := PeerTable.mem_rows_modify hp
        · -- our own row: raised to the generation, or greater already
          dsimp only at hpos ⊢
          by_cases hlt : q.compliantGen < markGeneration cl
          · rw [if_pos hlt, hid]
            exact Or.inr ⟨hgen, rfl⟩
          · rw [if_neg hlt] at hpos ⊢
            exact Or.inl (Or.inl ⟨q, hq, rfl, hpos, rfl⟩)
        · exact Or.inl (Or.inl ⟨p, hq, rfl, hpos, rfl⟩)
      · have hset : (if id = cl.selfId then some (markGeneration cl) else cl.settingDone id) =
          some gen := hset
        split at hset
        · rename_i hid
          rw [hid, ← Option.some.inj hset]
          exact Or.inr ⟨hgen, rfl⟩
        · exact Or.inl (Or.inr hset)

theorem voidTarget_within (cl : Cluster) : (edbClusterVoidTarget cl).1.Within cl := by
  unfold edbClusterVoidTarget
  split
  · exact ⟨PeerTable.within_update _ fun p => Or.inr rfl, fun _ _ h => h, Or.inr rfl, ⟨rfl, rfl⟩⟩
  · exact Cluster.Within.refl cl

/-! ## What the waves leave alone -/

/-- What makes a member, and who sees it. -/
def PeerInfo.flags (p : PeerInfo) : NodeId × Bool × Bool := (p.id, p.online, p.removed)

/-- `cl'` has the identity, the leader and the members of `cl`, with their flags. -/
structure Cluster.SameFlags (cl' cl : Cluster) : Prop where
  selfId : cl'.selfId = cl.selfId
  leader : cl'.leader = cl.leader
  flags : cl'.peers.rows.map PeerInfo.flags = cl.peers.rows.map PeerInfo.flags

namespace Cluster.SameFlags

variable {cl cl' cl'' : Cluster}

theorem refl (cl : Cluster) : cl.SameFlags cl := ⟨rfl, rfl, rfl⟩

theorem symm (h : cl'.SameFlags cl) : cl.SameFlags cl' :=
  ⟨h.selfId.symm, h.leader.symm, h.flags.symm⟩

/-- Every row has its counterpart. -/
theorem exists_row (h : cl'.SameFlags cl) {p : PeerInfo} (hp : p ∈ cl.peers.rows) :
    ∃ q ∈ cl'.peers.rows, q.id = p.id ∧ q.online = p.online ∧ q.removed = p.removed := by
  have hmem : p.flags ∈ cl'.peers.rows.map PeerInfo.flags := by
    rw [h.flags]
    exact List.mem_map_of_mem hp
  obtain ⟨q, hq, heq⟩ := List.mem_map.mp hmem
  obtain ⟨hid, hflags⟩ := Prod.mk.inj heq
  obtain ⟨honline, hremoved⟩ := Prod.mk.inj hflags
  exact ⟨q, hq, hid, honline, hremoved⟩

theorem ids (h : cl'.SameFlags cl) : cl'.peers.ids = cl.peers.ids := by
  have hids : ∀ t : PeerTable, t.ids = (t.rows.map PeerInfo.flags).map Prod.fst := by
    intro t
    rw [List.map_map]
    rfl
  rw [hids, hids, h.flags]

theorem length (h : cl'.SameFlags cl) : cl'.peers.rows.length = cl.peers.rows.length := by
  rw [← List.length_map PeerInfo.flags, h.flags, List.length_map]

end Cluster.SameFlags

/-- Updates of the rows that keep the flags. -/
theorem PeerTable.flags_modify {t : PeerTable} {id : NodeId} {f : PeerInfo → PeerInfo}
    (hf : ∀ p, (f p).online = p.online ∧ (f p).removed = p.removed) :
    (t.modify id f).rows.map PeerInfo.flags = t.rows.map PeerInfo.flags := by
  show (t.rows.map _).map _ = _
  rw [List.map_map]
  refine List.map_congr_left fun p _ => ?_
  by_cases hid : p.id = id
  · simp [PeerInfo.flags, hid, hf p]
  · simp [hid]

theorem PeerTable.flags_update {t : PeerTable} {f : PeerInfo → PeerInfo}
    (hf : ∀ p, (f p).online = p.online ∧ (f p).removed = p.removed) :
    (t.update f).rows.map PeerInfo.flags = t.rows.map PeerInfo.flags := by
  show (t.rows.map _).map _ = _
  rw [List.map_map]
  refine List.map_congr_left fun p _ => ?_
  simp [PeerInfo.flags, hf p]

theorem shrinkLiveLocked_sameFlags (now : Int) (cl : Cluster) :
    (shrinkLiveLocked now cl).SameFlags cl := by
  simp only [shrinkLiveLocked]
  split <;> exact ⟨rfl, rfl, rfl⟩

theorem teardownShrink_sameFlags (cl : Cluster) : (teardownShrink cl).SameFlags cl := by
  simp only [teardownShrink]
  split <;> exact ⟨rfl, rfl, rfl⟩

theorem edbClusterPublishTarget_sameFlags (cl : Cluster) :
    (edbClusterPublishTarget cl).1.SameFlags cl := by
  rcases edbClusterPublishTarget_cases cl with heq | ⟨-, heq⟩
  · rw [heq]
    exact Cluster.SameFlags.refl cl
  · rw [heq]
    exact ⟨rfl, rfl, rfl⟩

theorem promoteTargetLocked_sameFlags (now : Int) (cl : Cluster) :
    (promoteTargetLocked now cl).SameFlags cl := by
  rw [promoteTargetLocked]
  split <;> exact ⟨rfl, rfl, rfl⟩

theorem promoteTargetLocked_peers (now : Int) (cl : Cluster) :
    (promoteTargetLocked now cl).peers = cl.peers := by
  rw [promoteTargetLocked]
  split <;> rfl

theorem promoteCommit_sameFlags (now : Int) (cl : Cluster) :
    (promoteCommit now cl).1.SameFlags cl := by
  rw [promoteCommit]
  split
  · obtain ⟨hself, hleader, hflags⟩ := promoteTargetLocked_sameFlags now cl
    exact ⟨hself, hleader, hflags⟩
  · exact Cluster.SameFlags.refl cl

theorem edbClusterMarkCompliant_sameFlags (cl : Cluster) :
    (edbClusterMarkCompliant cl).SameFlags cl := by
  simp only [edbClusterMarkCompliant]
  split
  · exact Cluster.SameFlags.refl cl
  · refine ⟨rfl, rfl, PeerTable.flags_modify fun p => ?_⟩
    split <;> exact ⟨rfl, rfl⟩

theorem edbClusterVoidTarget_sameFlags (cl : Cluster) :
    (edbClusterVoidTarget cl).1.SameFlags cl := by
  rw [edbClusterVoidTarget]
  split
  · exact ⟨rfl, rfl, PeerTable.flags_update fun _ => ⟨rfl, rfl⟩⟩
  · exact Cluster.SameFlags.refl cl

end EpsilonDB
