import EpsilonDB.Socket.LocalRun
import Mathlib.Order.Bounds.Basic

/-!
# The recorded leader

The leader is to be the smallest member a node sees online. It is recomputed where a
connection ends and where a state arrives. A registration recomputes it *before* the new
member counts as online, and a removal does not recompute it at all.

- `seen`, `LeaderRight`: who is seen online, and the leader that fits.
- `Section.KeepsLeader`: the sections after which the recorded leader still fits.
- `leaderRight_run_iff`: these exactly.
- `leaderRight_throughout_iff`: the leader fits throughout a run if and only if all its
  sections are such.
- `smaller_id_registers`: a member with a smaller id registers.
-/

namespace EpsilonDB

/-- The members the node sees online, itself included. -/
def seen (cl : Cluster) : Set NodeId := {id | id ∈ cl.peers.ids ∧ isOnlineView cl id = true}

/-- The recorded leader is the smallest member seen online, and none when there is none. -/
def LeaderRight (cl : Cluster) : Prop :=
  if cl.leader = [] then seen cl = ∅ else IsLeast (seen cl) cl.leader

/-- After the section the recorded leader still fits. A member that comes online is no
smaller than the leader, and a removed one is another member. -/
def Section.KeepsLeader (cl : Cluster) : Section → Prop
  | .register id =>
    ∀ p, cl.peers.find id = some p → p.removed = false → p.online = false → id ≠ cl.selfId →
      cl.leader ≠ [] ∧ cl.leader ≤ id
  | .remove id _ => id = cl.leader → id = cl.selfId ∨ id = []
  | .hello h _ =>
    h.join = true → h.callerId ≠ ephemeralId → h.callerId ≠ cl.selfId →
      ∀ p, cl.peers.find h.callerId = some p → p.removed = true → p.online = true →
        cl.leader ≠ [] ∧ cl.leader ≤ h.callerId
  | _ => True

/-! ## Who is seen -/

/-- A row that makes its member visible to others. -/
def PeerInfo.visible (p : PeerInfo) : Prop := p.online = true ∧ p.removed = false

theorem mem_seen {cl : Cluster} {id : NodeId} :
    id ∈ seen cl ↔ ∃ p ∈ cl.peers.rows, p.id = id ∧ (id = cl.selfId ∨ p.visible) := by
  show id ∈ cl.peers.ids ∧ isOnlineView cl id = true ↔ _
  rw [PeerTable.mem_ids]
  unfold isOnlineView
  constructor
  · rintro ⟨⟨p, hp, rfl⟩, hview⟩
    refine ⟨p, hp, rfl, ?_⟩
    split at hview
    · rename_i hself
      exact Or.inl hself
    · rw [PeerTable.find_of_mem hp] at hview
      dsimp only at hview
      rw [Bool.and_eq_true, Bool.not_eq_true'] at hview
      exact Or.inr hview
  · rintro ⟨p, hp, rfl, hvisible⟩
    refine ⟨⟨p, hp, rfl⟩, ?_⟩
    split
    · rfl
    · rename_i hself
      rw [PeerTable.find_of_mem hp]
      dsimp only
      rw [Bool.and_eq_true, Bool.not_eq_true']
      exact hvisible.resolve_left hself

/-- Who is seen after the row of `id` was updated. -/
theorem mem_seen_modify {cl : Cluster} {t : PeerTable} {id x : NodeId} {f : PeerInfo → PeerInfo}
    (ht : t = cl.peers.modify id f) :
    x ∈ seen { cl with peers := t } ↔
      ∃ p ∈ cl.peers.rows, p.id = x ∧
        (x = cl.selfId ∨ if x = id then (f p).visible else p.visible) := by
  subst ht
  rw [mem_seen]
  constructor
  · rintro ⟨q, hq, rfl, hvisible⟩
    obtain ⟨p, hp, ⟨hid, rfl⟩ | ⟨hid, rfl⟩⟩ := PeerTable.mem_rows_modify hq
    · refine ⟨p, hp, rfl, hvisible.imp_right fun hv => ?_⟩
      rw [if_pos hid]
      exact hv
    · refine ⟨q, hp, rfl, hvisible.imp_right fun hv => ?_⟩
      rw [if_neg hid]
      exact hv
  · rintro ⟨p, hp, rfl, hvisible⟩
    refine ⟨_, List.mem_map_of_mem hp, ?_⟩
    by_cases hid : p.id = id
    · rw [if_pos hid] at hvisible ⊢
      exact ⟨rfl, hvisible⟩
    · rw [if_neg hid] at hvisible ⊢
      exact ⟨rfl, hvisible⟩

/-- An update that keeps a row visible or not keeps who is seen. -/
theorem seen_modify (cl : Cluster) {id : NodeId} {f : PeerInfo → PeerInfo}
    (hf : ∀ p, (f p).visible ↔ p.visible) :
    seen { cl with peers := cl.peers.modify id f } = seen cl := by
  ext x
  rw [mem_seen_modify rfl, mem_seen]
  simp only [hf, ite_self]

theorem seen_add {cl : Cluster} {p : PeerInfo} (hself : p.id ≠ cl.selfId) (hp : p.online = false) :
    seen { cl with peers := cl.peers.add p } = seen cl := by
  ext x
  rw [mem_seen, mem_seen]
  constructor
  · rintro ⟨q, hq, rfl, hvisible⟩
    rcases PeerTable.mem_rows_add hq with hq | rfl
    · exact ⟨q, hq, rfl, hvisible⟩
    · rcases hvisible with hid | hv
      · exact absurd hid hself
      · exact absurd (hv.1.symm.trans hp) nofun
  · rintro ⟨q, hq, rfl, hvisible⟩
    refine ⟨q, ?_, rfl, hvisible⟩
    show q ∈ (cl.peers.add p).rows
    unfold PeerTable.add
    split
    · exact List.mem_append_left _ hq
    · exact hq

/-- The expiry of members touches none that are seen. -/
theorem seen_tombstoneExpired (now : Int) (cl : Cluster) :
    seen (tombstoneExpired now cl) = seen cl := by
  have hrow : ∀ p : PeerInfo, p.id = cl.selfId ∨ p.visible ↔ p.id = cl.selfId ∨
      (if expired now cl p then { p with removed := true } else p).visible := by
    intro p
    split
    · rename_i hexpired
      have hoffline : p.online = false := by
        unfold expired at hexpired
        simp only [Bool.and_eq_true, Bool.not_eq_true'] at hexpired
        exact hexpired.1.1.2
      refine or_congr_right (iff_of_false (fun hv => ?_) fun hv => ?_)
      · exact absurd (hv.1.symm.trans hoffline) nofun
      · exact absurd (hv.1.symm.trans hoffline) nofun
    · exact Iff.rfl
  ext x
  rw [mem_seen, mem_seen]
  constructor
  · rintro ⟨q, hq, rfl, hvisible⟩
    obtain ⟨p, hp, rfl⟩ := List.mem_map.mp hq
    exact ⟨p, hp, rfl, (hrow p).mpr hvisible⟩
  · rintro ⟨p, hp, rfl, hvisible⟩
    exact ⟨_, List.mem_map_of_mem hp, rfl, (hrow p).mp hvisible⟩

/-! ## The right leader -/

theorem seen_ne_nil {cl : Cluster} {id : NodeId} (h : id ∈ seen cl) : id ≠ [] := by
  obtain ⟨p, hp, rfl⟩ := PeerTable.mem_ids.mp h.1
  have hvalid := cl.peers.valid p hp
  unfold validNodeId at hvalid
  rw [Bool.and_eq_true, decide_eq_true_eq] at hvalid
  exact hvalid.1

/-- Only the leader and who is seen matter. -/
theorem LeaderRight.congr {cl cl' : Cluster} (hleader : cl'.leader = cl.leader)
    (hseen : seen cl' = seen cl) : LeaderRight cl' ↔ LeaderRight cl := by
  unfold LeaderRight
  rw [hleader, hseen]

theorem leaderRight_recomputeLeader (cl : Cluster) : LeaderRight (recomputeLeader cl) := by
  have hsorted : (onlineIds cl).Pairwise (· ≤ ·) := List.pairwise_insertionSort _ _
  show if (onlineIds cl).head?.getD [] = [] then seen cl = ∅
    else IsLeast (seen cl) ((onlineIds cl).head?.getD [])
  have hmem : ∀ id, id ∈ seen cl ↔ id ∈ onlineIds cl := fun id => mem_onlineIds.symm
  cases hids : onlineIds cl with
  | nil =>
    rw [hids] at hmem
    rw [List.head?_nil, Option.getD_none, if_pos rfl]
    exact Set.eq_empty_of_forall_notMem fun id hid => List.not_mem_nil ((hmem id).mp hid)
  | cons least rest =>
    rw [hids] at hmem hsorted
    have hleast : least ∈ seen cl := (hmem least).mpr List.mem_cons_self
    rw [List.head?_cons, Option.getD_some, if_neg (seen_ne_nil hleast)]
    refine ⟨hleast, fun id hid => ?_⟩
    rcases List.mem_cons.mp ((hmem id).mp hid) with rfl | hrest
    · exact le_rfl
    · exact (List.pairwise_cons.mp hsorted).1 id hrest

/-- A right leader is the one the election finds. -/
theorem LeaderRight.recomputed {cl : Cluster} (h : LeaderRight cl) :
    (recomputeLeader cl).leader = cl.leader := by
  have hnew : LeaderRight (recomputeLeader cl) := leaderRight_recomputeLeader cl
  have hseen : seen (recomputeLeader cl) = seen cl := rfl
  unfold LeaderRight at h hnew
  rw [hseen] at hnew
  split at h
  · rename_i hnone
    split at hnew
    · rename_i hnone'
      rw [hnone, hnone']
    · rw [h] at hnew
      exact absurd hnew.1 (Set.notMem_empty _)
  · split at hnew
    · rw [hnew] at h
      exact absurd h.1 (Set.notMem_empty _)
    · exact hnew.unique h

/-- When a member comes online: the leader fits if it is no greater. -/
theorem leaderRight_shown_iff {cl cl' : Cluster} {id : NodeId} (h : LeaderRight cl)
    (hleader : cl'.leader = cl.leader) (hseen : seen cl' = insert id (seen cl)) :
    LeaderRight cl' ↔ cl.leader ≠ [] ∧ cl.leader ≤ id := by
  unfold LeaderRight at h ⊢
  rw [hleader, hseen]
  split at h
  · rename_i hnone
    rw [if_pos hnone]
    refine iff_of_false (fun hempty => ?_) fun hle => hle.1 hnone
    exact (Set.insert_nonempty id _).ne_empty hempty
  · rename_i hsome
    rw [if_neg hsome]
    constructor
    · intro hleast
      exact ⟨hsome, hleast.2 (Set.mem_insert id _)⟩
    · rintro ⟨-, hle⟩
      refine ⟨Set.mem_insert_of_mem _ h.1, fun x hx => ?_⟩
      rcases hx with rfl | hx
      · exact hle
      · exact h.2 hx

/-- When a member goes: the leader fits if it was another one. -/
theorem leaderRight_hidden_iff {cl cl' : Cluster} {id : NodeId} (h : LeaderRight cl)
    (hid : id ∈ seen cl) (hleader : cl'.leader = cl.leader) (hseen : seen cl' = seen cl \ {id}) :
    LeaderRight cl' ↔ id ≠ cl.leader := by
  unfold LeaderRight at h ⊢
  rw [hleader, hseen]
  split at h
  · rw [h] at hid
    exact absurd hid (Set.notMem_empty _)
  · rename_i hsome
    rw [if_neg hsome]
    constructor
    · rintro hleast rfl
      exact hleast.1.2 rfl
    · intro hne
      exact ⟨⟨h.1, fun heq => hne heq.symm⟩, fun x hx => h.2 hx.1⟩

/-! ## The sections -/

theorem seen_congr {cl cl' : Cluster} (hself : cl'.selfId = cl.selfId)
    (hpeers : cl'.peers = cl.peers) : seen cl' = seen cl := by
  ext x
  rw [mem_seen, mem_seen, hself, hpeers]

/-- With the same flags the same members are seen. -/
theorem seen_sameFlags {cl cl' : Cluster} (h : cl'.SameFlags cl) : seen cl' = seen cl := by
  have hsub : ∀ {c c' : Cluster}, c'.SameFlags c → seen c ⊆ seen c' := by
    intro c c' h x hx
    obtain ⟨p, hp, rfl, hvisible⟩ := mem_seen.mp hx
    obtain ⟨q, hq, hid, honline, hremoved⟩ := h.exists_row hp
    refine mem_seen.mpr ⟨q, hq, hid, ?_⟩
    rw [h.selfId]
    exact hvisible.imp_right fun hv => ⟨honline.trans hv.1, hremoved.trans hv.2⟩
  exact Set.Subset.antisymm (hsub h.symm) (hsub h)

theorem LeaderRight.sameFlags {cl cl' : Cluster} (h : cl'.SameFlags cl) :
    LeaderRight cl' ↔ LeaderRight cl :=
  LeaderRight.congr h.leader (seen_sameFlags h)

/-- When an update of the row of `id`, not our own, shows the member. -/
theorem seen_show {cl : Cluster} {id : NodeId} {p : PeerInfo} {f : PeerInfo → PeerInfo}
    (hp : cl.peers.find id = some p) (hf : (f p).visible) :
    seen { cl with peers := cl.peers.modify id f } = insert id (seen cl) := by
  obtain ⟨hmem, rfl⟩ := PeerTable.mem_rows_of_find hp
  ext x
  rw [mem_seen_modify rfl, Set.mem_insert_iff, mem_seen]
  constructor
  · rintro ⟨q, hq, rfl, hvisible⟩
    by_cases hid : q.id = p.id
    · exact Or.inl hid
    · rw [if_neg hid] at hvisible
      exact Or.inr ⟨q, hq, rfl, hvisible⟩
  · rintro (rfl | ⟨q, hq, rfl, hvisible⟩)
    · refine ⟨p, hmem, rfl, Or.inr ?_⟩
      rw [if_pos rfl]
      exact hf
    · refine ⟨q, hq, rfl, hvisible.imp_right fun hv => ?_⟩
      split
      · rename_i hid
        rw [List.inj_on_of_nodup_map cl.peers.nodup hq hmem hid]
        exact hf
      · exact hv

/-- When it hides the member. -/
theorem seen_hide {cl : Cluster} {id : NodeId} {f : PeerInfo → PeerInfo}
    (hself : id ≠ cl.selfId) (hf : ∀ p, ¬ (f p).visible) :
    seen { cl with peers := cl.peers.modify id f } = seen cl \ {id} := by
  ext x
  rw [mem_seen_modify rfl, Set.mem_sdiff, Set.mem_singleton_iff, mem_seen]
  constructor
  · rintro ⟨q, hq, rfl, hvisible⟩
    by_cases hid : q.id = id
    · rw [if_pos hid] at hvisible
      rcases hvisible with hq' | hv
      · exact absurd (hid.symm.trans hq') hself
      · exact absurd hv (hf q)
    · rw [if_neg hid] at hvisible
      exact ⟨⟨q, hq, rfl, hvisible⟩, hid⟩
  · rintro ⟨⟨q, hq, rfl, hvisible⟩, hid⟩
    refine ⟨q, hq, rfl, ?_⟩
    rwa [if_neg hid]

/-- When it changes nothing about who is seen. -/
theorem seen_idle {cl : Cluster} {id : NodeId} {f : PeerInfo → PeerInfo}
    (hf : ∀ p, cl.peers.find id = some p → id ≠ cl.selfId → ((f p).visible ↔ p.visible)) :
    seen { cl with peers := cl.peers.modify id f } = seen cl := by
  ext x
  rw [mem_seen_modify rfl, mem_seen]
  refine exists_congr fun p => and_congr_right fun hp => and_congr_right ?_
  rintro rfl
  split
  · rename_i hid
    have hfind : cl.peers.find id = some p := hid ▸ PeerTable.find_of_mem hp
    by_cases hself : p.id = cl.selfId
    · exact iff_of_true (Or.inl hself) (Or.inl hself)
    · exact or_congr_right (hf p hfind (hid ▸ hself))
  · exact Iff.rfl

/-- The caller's row is filled in, or added offline: nobody else is seen. -/
theorem seen_adoptCaller (now : Int) (cl : Cluster) (h : HelloDoc) :
    seen (adoptCaller now cl h) = seen cl ∧ (adoptCaller now cl h).leader = cl.leader := by
  have hadopts := adopts now cl h
  generalize adoptCaller now cl h = cl' at hadopts
  refine ⟨?_, hadopts.leader⟩
  have hvisible : ∀ {f : PeerInfo → PeerInfo}, FillsIn f → ∀ p, (f p).visible ↔ p.visible := by
    intro f hf p
    unfold PeerInfo.visible
    rw [(hf p).1, (hf p).2.1]
  cases hadopts with
  | kept => rfl
  | updated hf => exact seen_modify cl (hvisible hf)
  | added hf _ _ _ hself _ _ =>
    -- a fresh row is offline
    have hadded : seen { cl with peers := cl.peers.add { id := h.callerId } } = seen cl :=
      seen_add hself rfl
    rw [← hadded]
    exact seen_modify { cl with peers := cl.peers.add { id := h.callerId } } (hvisible hf)

/-- A tombstone that is cleared shows the member when it never went offline. -/
theorem leaderRight_clearTombstone_iff {cl : Cluster} (h : HelloDoc) (now : Int)
    (hright : LeaderRight cl) :
    LeaderRight (clearTombstone cl h) ↔ (Section.hello h now).KeepsLeader cl := by
  unfold clearTombstone
  by_cases hkept : h.callerId = cl.selfId ∨ h.callerId = [] ∨ h.callerId = ephemeralId ∨
      h.join = false
  · rw [if_pos hkept]
    refine iff_of_true hright ?_
    intro hjoin hephemeral hself p hp
    rcases hkept with hkept | hkept | hkept | hkept
    · exact absurd hkept hself
    · -- no row has the empty id
      obtain ⟨hmem, hid⟩ := PeerTable.mem_rows_of_find hp
      have hvalid := cl.peers.valid p hmem
      rw [hid, hkept] at hvalid
      cases hvalid
    · exact absurd hkept hephemeral
    · exact absurd (hjoin.symm.trans hkept) nofun
  -- a join HELLO shows the member again, and that matters where it never went offline
  · rw [if_neg hkept]
    rw [not_or, not_or, not_or, Bool.not_eq_false] at hkept
    obtain ⟨hself, -, hephemeral, hjoin⟩ := hkept
    by_cases hshown : ∃ p, cl.peers.find h.callerId = some p ∧ p.removed = true ∧ p.online = true
    · obtain ⟨p, hp, hremoved, honline⟩ := hshown
      refine (leaderRight_shown_iff hright ?_ (seen_show hp ?_)).trans ?_
      · rfl
      · rw [if_pos hremoved]
        exact ⟨honline, rfl⟩
      · constructor
        · exact fun hle _ _ _ _ _ _ _ => hle
        · exact fun hkeeps => hkeeps hjoin hephemeral hself p hp hremoved honline
    · refine (LeaderRight.congr ?_ (seen_idle ?_)).trans ?_
      · rfl
      rotate_left
      · refine iff_of_true hright fun _ _ _ p hp hremoved honline => ?_
        exact absurd ⟨p, hp, hremoved, honline⟩ hshown
      · intro p hp _
        split
        · rename_i hremoved
          refine iff_of_false (fun hv => hshown ⟨p, hp, hremoved, hv.1⟩) fun hv => ?_
          exact absurd (hremoved.symm.trans hv.2) nofun
        · exact Iff.rfl

/-- A HELLO can only show a member: one that joins again, and never went offline. -/
theorem leaderRight_hello_iff {cl : Cluster} (h : HelloDoc) (now : Int) (hright : LeaderRight cl) :
    LeaderRight (acceptHello now cl h).1 ↔ (Section.hello h now).KeepsLeader cl := by
  unfold acceptHello
  by_cases hrefused : refusesHello cl h = true
  · rw [if_pos hrefused]
    refine iff_of_true hright ?_
    intro hjoin hephemeral hself p hp hremoved
    unfold refusesHello at hrefused
    split at hrefused
    · cases hrefused
    · rw [hp, hjoin] at hrefused
      dsimp only at hrefused
      rw [Bool.not_true, Bool.and_false] at hrefused
      cases hrefused
  · rw [if_neg hrefused]
    have hadopt := seen_adoptCaller now (clearTombstone cl h) h
    exact (LeaderRight.congr hadopt.2 hadopt.1).trans (leaderRight_clearTombstone_iff h now hright)

/-- A registration elects first, and only then shows the member. -/
theorem leaderRight_register_iff {cl : Cluster} (id : NodeId) (hright : LeaderRight cl) :
    LeaderRight (registerConn cl id) ↔ (Section.register id).KeepsLeader cl := by
  have hleader : (registerConn cl id).leader = cl.leader := by
    have hconns : LeaderRight { cl with conns := id :: cl.conns } := hright
    exact hconns.recomputed
  have hseen : ∀ t : Set NodeId,
      seen { cl with peers := cl.peers.modify id fun p => { p with online := true } } = t →
        seen (registerConn cl id) = t := fun t ht => Eq.trans (seen_congr rfl rfl) ht
  by_cases hshown : ∃ p, cl.peers.find id = some p ∧ p.removed = false ∧ p.online = false ∧
      id ≠ cl.selfId
  · obtain ⟨p, hp, hremoved, honline, hself⟩ := hshown
    rw [leaderRight_shown_iff hright hleader (hseen _ (seen_show hp ⟨rfl, hremoved⟩))]
    constructor
    · exact fun hle _ _ _ _ _ => hle
    · exact fun hkeeps => hkeeps p hp hremoved honline hself
  · rw [LeaderRight.congr hleader (hseen _ (seen_idle ?_))]
    · refine iff_of_true hright fun p hp hremoved honline hself => ?_
      exact absurd ⟨p, hp, hremoved, honline, hself⟩ hshown
    · intro p hp hself
      constructor
      · rintro ⟨-, hremoved⟩
        refine ⟨?_, hremoved⟩
        by_contra honline
        exact hshown ⟨p, hp, hremoved, Bool.eq_false_iff.mpr honline, hself⟩
      · exact fun hv => ⟨rfl, hv.2⟩

/-- A removal hides the member, and does not elect. -/
theorem leaderRight_remove_iff {cl : Cluster} (id : NodeId) (now : Int)
    (hright : LeaderRight cl) :
    LeaderRight (edbClusterRemoveNode now cl id).1 ↔ (Section.remove id now).KeepsLeader cl := by
  -- the leader, when there is one, is seen
  have hleader : id = cl.leader → id ≠ [] → id ∈ seen cl := by
    intro hid hne
    unfold LeaderRight at hright
    rw [if_neg (hid ▸ hne)] at hright
    exact hid ▸ hright.1
  show _ ↔ (id = cl.leader → id = cl.selfId ∨ id = [])
  by_cases hkept : id = [] ∨ id = cl.selfId ∨ (cl.peers.find id).isNone
  · rw [edbClusterRemoveNode, if_pos hkept]
    refine iff_of_true hright fun hid => ?_
    rcases hkept with hnil | hself | hnone
    · exact Or.inr hnil
    · exact Or.inl hself
    · by_contra hne
      rw [not_or] at hne
      obtain ⟨p, hp, rfl⟩ := PeerTable.mem_ids.mp (hleader hid hne.2).1
      rw [PeerTable.find_of_mem hp] at hnone
      cases hnone
  · rw [LeaderRight.sameFlags (edbClusterRemoveNode_sameFlags now hkept)]
    rw [not_or, not_or] at hkept
    obtain ⟨hnil, hself, hfound⟩ := hkept
    have hseen : seen (tombstone cl id) = seen cl \ {id} :=
      seen_hide hself fun p hv => absurd hv.2 Bool.true_eq_false.mp
    by_cases hid : id ∈ seen cl
    · refine (leaderRight_hidden_iff hright hid ?_ hseen).trans ?_
      · rfl
      exact ⟨fun hne heq => absurd heq hne, fun hkeeps heq => (hkeeps heq).elim hself hnil⟩
    · rw [Set.sdiff_singleton_eq_self hid] at hseen
      refine (LeaderRight.congr ?_ hseen).trans ?_
      · rfl
      exact iff_of_true hright fun heq => absurd (hleader heq hnil) hid

/-- **What a section does to the leader**: a right one stays right exactly after these. -/
theorem leaderRight_run_iff {cl : Cluster} (s : Section) (hright : LeaderRight cl) :
    LeaderRight (s.run cl) ↔ s.KeepsLeader cl := by
  -- most sections keep who is seen, or elect at their end
  have hkept : ∀ cl' : Cluster, cl'.SameFlags cl → (LeaderRight cl' ↔ True) := fun cl' hflags =>
    iff_true_intro ((LeaderRight.sameFlags hflags).mpr hright)
  cases s with
  | hello h now => exact leaderRight_hello_iff h now hright
  | register id => exact leaderRight_register_iff id hright
  | receive id doc now => exact iff_true_intro (leaderRight_recomputeLeader _)
  | absorb doc now => exact iff_true_intro (leaderRight_recomputeLeader _)
  | drop id => exact iff_true_intro (leaderRight_recomputeLeader _)
  | shrink => exact hkept _ (teardownShrink_sameFlags cl)
  | expire now =>
    show LeaderRight (removeExpired now cl) ↔ True
    have hleader : (tombstoneExpired now cl).leader = cl.leader := rfl
    have hexpired : LeaderRight (tombstoneExpired now cl) :=
      (LeaderRight.congr hleader (seen_tombstoneExpired now cl)).mpr hright
    rcases removeExpired_sameFlags now cl with heq | hflags
    · rw [heq]
      exact iff_true_intro hright
    · exact iff_true_intro ((LeaderRight.sameFlags hflags).mpr hexpired)
  | remove id now => exact leaderRight_remove_iff id now hright
  | publish => exact hkept _ (edbClusterPublishTarget_sameFlags cl)
  | mark => exact hkept _ (edbClusterMarkCompliant_sameFlags cl)
  | commit now => exact hkept _ (promoteCommit_sameFlags now cl)
  | void => exact hkept _ (edbClusterVoidTarget_sameFlags cl)
  | catchUp seed => exact hkept _ ⟨rfl, rfl, rfl⟩

/-! ## The runs -/

theorem leaderRight_start (x : NodeId) (addr : CString) (port now : Int) :
    LeaderRight (Member.start x addr port now).cluster := by
  have helected := (alone_edbClusterStart x addr port now).elected
  exact (LeaderRight.congr helected rfl).mpr (leaderRight_recomputeLeader _)

/-- **When the leader fits**: in the life of a node it does throughout exactly when every
section keeps it so. -/
theorem leaderRight_throughout_iff (x : NodeId) (addr : CString) (port now : Int)
    (ss : List Section) :
    Runs.Throughout Member.step (fun m => LeaderRight m.cluster)
        (Member.start x addr port now) ss ↔
      Runs.Along Member.step (fun m s => s.KeepsLeader m.cluster)
        (Member.start x addr port now) ss := by
  refine Runs.throughout_iff_along ?_ ?_ (leaderRight_start x addr port now)
  · intro s _ m hrefused
    cases hrefused
  · intro s _ m m' hright hstep
    rw [Member.step_eq_some hstep]
    exact leaderRight_run_iff s hright

/-- A node alone is its own leader. A member with a smaller id says HELLO and registers, and
is seen online while the larger one still leads. -/
theorem smaller_id_registers :
    ¬ ∀ (x : NodeId) (addr : CString) (port now : Int) (ss : List Section),
      LeaderRight ((Member.start x addr port now).after ss).cluster := by
  intro hall
  have hright := hall (cstr "b") (cstr "10.0.0.2") 7001 0
    [.hello ⟨some (cstr "a"), some (cstr "10.0.0.1"), some 7001, none, true⟩ 1,
      .register (cstr "a")]
  generalize hcl : ((Member.start (cstr "b") (cstr "10.0.0.2") 7001 0).after
    [.hello ⟨some (cstr "a"), some (cstr "10.0.0.1"), some 7001, none, true⟩ 1,
      .register (cstr "a")]).cluster = cl at hright
  have hleader : cl.leader = cstr "b" := by
    rw [← hcl]
    decide +kernel
  have hseen : cstr "a" ∈ seen cl := by
    rw [← hcl]
    show _ ∈ _ ∧ _ = _
    decide +kernel
  unfold LeaderRight at hright
  rw [if_neg (by rw [hleader]; decide)] at hright
  have hle : cl.leader ≤ cstr "a" := hright.2 hseen
  rw [hleader] at hle
  exact absurd hle (by decide +kernel)

end EpsilonDB
