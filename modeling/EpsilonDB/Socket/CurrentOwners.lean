import EpsilonDB.Socket.LiveOwners
import EpsilonDB.Socket.Members
import EpsilonDB.Socket.Removal
import EpsilonDB.Socket.Slices
import Mathlib.Data.List.Perm.Subperm

/-!
# Live owners after a departure (`shrink_live_locked` and the end of `conn_thread`)

A leader that loses a member re-shards the live table over the members it sees online. It
decides whether to do so by counting them.

- `Spans`: a table without gaps. `spans_buildSlices`: such is every table that is built.
- `Mesh.rebuild`: the state a leader re-shards in a step, and the state after it.
- `OwnersCurrent`: the owners of the live table are the members seen online, and the owner of
  a key comes first among its holders.
- `Recounts`: where a leader re-shards, its count differs, or the owners are right already;
  and it is no removed member itself.
- `Sliced`: what every run keeps.
- `ownersCurrent_iff`: the runs whose re-shardings leave the owners current.
- `departure_unnoticed`: one member leaves and another one is there that owns nothing yet.
-/

namespace EpsilonDB

/-! ## Tables without gaps -/

/-- Each slice of the table begins where the one before ends, the first one at `a`, and the last
one ends the key space. -/
inductive Spans : CString → List RangeInfo → Prop where
  | last (r : RangeInfo) (h : r.stop = lastKey) : Spans r.start [r]
  | cons (r : RangeInfo) {rs : List RangeInfo} (h : Spans r.stop rs) : Spans r.start (r :: rs)

/-- A table without gaps covers all keys from its start on. -/
theorem Spans.covers {a : CString} {table : List RangeInfo} (h : Spans a table) {key : CString}
    (ha : a ≤ key) : ∃ r ∈ table, coveringSlice table key = some r := by
  have hsome : (coveringSlice table key).isSome = true := by
    rw [coveringSlice, List.find?_isSome]
    induction h with
    | last r hstop => exact ⟨r, List.mem_singleton_self r, by simp [ha, hstop]⟩
    | @cons r rs _ ih =>
      by_cases hkey : key < r.stop
      · exact ⟨r, List.mem_cons_self, by simp [ha, hkey]⟩
      · obtain ⟨r', hr', hcovers⟩ := ih (not_lt.mp hkey)
        exact ⟨r', List.mem_cons_of_mem _ hr', hcovers⟩
  obtain ⟨r, hr⟩ := Option.isSome_iff_exists.mp hsome
  exact ⟨r, List.mem_of_find?_eq_some hr, hr⟩

theorem spans_zipIdx {n step : Nat} (ids : List NodeId) (hne : ids ≠ []) (k : Nat)
    (hk : k + ids.length = n) :
    Spans (if k = 0 then List.replicate 32 48 else sliceBound (k * step))
      ((ids.zipIdx k).map fun (id, i) =>
        { nodeId := id
          start := if i = 0 then List.replicate 32 48 else sliceBound (i * step)
          stop := if i + 1 = n then lastKey else sliceBound ((i + 1) * step) }) := by
  induction ids generalizing k with
  | nil => exact absurd rfl hne
  | cons id ids ih =>
    rw [List.length_cons] at hk
    rw [List.zipIdx_cons, List.map_cons]
    by_cases hnil : ids = []
    · subst hnil
      refine Spans.last ⟨id, _, _⟩ (if_pos ?_)
      simpa using hk
    · have hlen := List.length_pos_of_ne_nil hnil
      have hrest := ih hnil (k + 1) (by omega)
      refine Spans.cons ⟨id, _, _⟩ ?_
      have hstop : k + 1 ≠ n := by omega
      rw [if_neg (Nat.succ_ne_zero k)] at hrest
      simpa only [if_neg hstop] using hrest

/-- The tables that are built have no gaps. -/
theorem spans_buildSlices {ids : List NodeId} (hne : ids ≠ []) :
    Spans (List.replicate 32 48) (buildSlices ids) :=
  spans_zipIdx ids hne 0 (Nat.zero_add _)

/-! ## Owners and members -/

/-- The members a node sees online, beyond those that were removed. -/
def currentMembers (cl : Cluster) : List NodeId :=
  (cl.peers.rows.filter fun p => !p.removed && isOnlineView cl p.id).map PeerInfo.id

/-- The live table has one slice for each current member and no other, and the owner of a key
is the first of its holders. -/
structure OwnersCurrent (cl : Cluster) : Prop where
  owners : (owners cl.ranges).Perm (currentMembers cl)
  first : ∀ key, IsKey key → ∀ cap, 0 < cap →
    edbClusterOwner cl key = (edbClusterHolders cl key cap).head?

/-- A leader that may re-shard: it is not removed, and the online members are not as many as
the slices, unless they own them already. -/
def Recounted (cl : Cluster) : Prop :=
  (∀ p ∈ cl.peers.rows, p.id = cl.selfId → p.removed = false) ∧
    ((onlineIds cl).length = cl.ranges.length → owners cl.ranges = onlineIds cl)

/-- A member that was removed is seen online only as the node itself. -/
theorem id_of_removed_online {cl : Cluster} {p : PeerInfo} (hp : p ∈ cl.peers.rows)
    (hremoved : p.removed = true) (honline : isOnlineView cl p.id = true) : p.id = cl.selfId := by
  by_contra hself
  rw [isOnlineView, if_neg hself, PeerTable.find_of_mem hp] at honline
  simp [hremoved] at honline

theorem mem_currentMembers {cl : Cluster} {id : NodeId} :
    id ∈ currentMembers cl ↔
      ∃ p ∈ cl.peers.rows, p.id = id ∧ p.removed = false ∧ isOnlineView cl id = true := by
  constructor
  · intro h
    obtain ⟨p, hp, rfl⟩ := List.mem_map.mp h
    obtain ⟨hp, hview⟩ := List.mem_filter.mp hp
    rw [Bool.and_eq_true, Bool.not_eq_true'] at hview
    exact ⟨p, hp, rfl, hview⟩
  · rintro ⟨p, hp, rfl, hremoved, honline⟩
    exact List.mem_map.mpr ⟨p, List.mem_filter.mpr ⟨hp, by simp [hremoved, honline]⟩, rfl⟩

theorem nodup_currentMembers (cl : Cluster) : (currentMembers cl).Nodup :=
  cl.peers.nodup.sublist (List.filter_sublist.map _)

theorem nodup_onlineIds (cl : Cluster) : (onlineIds cl).Nodup := by
  rw [onlineIds, (List.perm_insertionSort _ _).nodup_iff]
  exact cl.peers.nodup.filter _

theorem mem_onlineIds_of_current {cl : Cluster} {id : NodeId} (h : id ∈ currentMembers cl) :
    id ∈ onlineIds cl := by
  obtain ⟨p, hp, rfl, -, honline⟩ := mem_currentMembers.mp h
  exact mem_onlineIds.mpr ⟨PeerTable.mem_ids.mpr ⟨p, hp, rfl⟩, honline⟩

theorem pairwise_onlineIds (cl : Cluster) : (onlineIds cl).Pairwise (· ≤ ·) :=
  List.pairwise_insertionSort _ _

/-- Where the node itself is not removed, the current members are those it sees online. -/
theorem perm_onlineIds {cl : Cluster}
    (hself : ∀ p ∈ cl.peers.rows, p.id = cl.selfId → p.removed = false) :
    (onlineIds cl).Perm (currentMembers cl) := by
  rw [List.perm_ext_iff_of_nodup (nodup_onlineIds cl) (nodup_currentMembers cl)]
  intro id
  refine ⟨fun h => ?_, mem_onlineIds_of_current⟩
  obtain ⟨hid, honline⟩ := mem_onlineIds.mp h
  obtain ⟨p, hp, rfl⟩ := PeerTable.mem_ids.mp hid
  refine mem_currentMembers.mpr ⟨p, hp, rfl, ?_, honline⟩
  by_contra hremoved
  rw [Bool.not_eq_false] at hremoved
  rw [hself p hp (id_of_removed_online hp hremoved honline)] at hremoved
  cases hremoved

/-- A node that is removed sees more members than there are. -/
theorem length_currentMembers_lt {cl : Cluster} {p : PeerInfo} (hp : p ∈ cl.peers.rows)
    (hself : p.id = cl.selfId) (hremoved : p.removed = true) :
    (currentMembers cl).length < (onlineIds cl).length := by
  have honline : isOnlineView cl p.id = true := by rw [isOnlineView, if_pos hself]
  have hnot : p.id ∉ currentMembers cl := by
    intro hmem
    obtain ⟨q, hq, hid, hkept, -⟩ := mem_currentMembers.mp hmem
    rw [List.inj_on_of_nodup_map cl.peers.nodup hq hp hid, hremoved] at hkept
    cases hkept
  have hsub : p.id :: currentMembers cl ⊆ onlineIds cl := by
    intro id hid
    rcases List.mem_cons.mp hid with rfl | hid
    · exact mem_onlineIds.mpr ⟨PeerTable.mem_ids.mpr ⟨p, hp, rfl⟩, honline⟩
    · exact mem_onlineIds_of_current hid
  exact ((List.nodup_cons.mpr ⟨hnot, nodup_currentMembers cl⟩).subperm hsub).length_le

/-- The holders of a key begin with its owner, if that is a member. -/
theorem head?_edbClusterHolders {cl : Cluster} {key : CString} {r : RangeInfo} {cap : Nat}
    (hkey : key.length = 32) (hslice : coveringSlice cl.ranges key = some r)
    (hmember : r.nodeId ∈ holderCandidates cl) (hcap : 0 < cap) :
    (edbClusterHolders cl key cap).head? = some r.nodeId := by
  rw [edbClusterHolders, if_neg (not_not.mpr hkey), hslice]
  show (((holderCandidates cl).rotate
    (if r.nodeId ∈ holderCandidates cl then _ else 0)).take cap).head? = _
  rw [if_pos hmember, List.head?_take, if_neg hcap.ne',
    List.head?_rotate (List.idxOf_lt_length_of_mem hmember), List.getElem?_idxOf hmember]

theorem mem_holderCandidates_of_current {cl : Cluster} (hlen : cl.peers.rows.length ≤ maxPeers)
    {id : NodeId} (h : id ∈ currentMembers cl) : id ∈ holderCandidates cl := by
  obtain ⟨p, hp, rfl, hkept, -⟩ := mem_currentMembers.mp h
  have htake : (cl.peers.rows.filter fun p => !p.removed).length ≤ maxPeers :=
    (List.length_filter_le _ _).trans hlen
  rw [holderCandidates, List.mem_insertionSort, List.take_of_length_le htake]
  exact List.mem_map.mpr ⟨p, List.mem_filter.mpr ⟨hp, by simp [hkept]⟩, rfl⟩

/-- A table that is built over the current members has current owners. -/
theorem ownersCurrent_of_buildSlices {cl : Cluster} {ids : List NodeId} (hne : ids ≠ [])
    (hranges : cl.ranges = buildSlices ids) (hids : ids.Perm (currentMembers cl))
    (hlen : cl.peers.rows.length ≤ maxPeers) : OwnersCurrent cl where
  owners := by
    rw [hranges, owners_buildSlices]
    exact hids
  first := by
    intro key hkey cap hcap
    obtain ⟨r, hr, hslice⟩ := (spans_buildSlices hne).covers (replicate_le_key hkey)
    have howner : r.nodeId ∈ ids := by
      rw [← owners_buildSlices ids]
      exact List.mem_map_of_mem hr
    rw [← hranges] at hslice
    rw [head?_edbClusterHolders hkey.1 hslice
      (mem_holderCandidates_of_current hlen (hids.mem_iff.mp howner)) hcap, edbClusterOwner,
      if_neg (not_not.mpr hkey.1), hslice]
    rfl

/-! ## Re-sharding -/

/-- What a re-sharding makes of a state. -/
structure Rebuilds (cl cl' : Cluster) : Prop where
  peers : cl'.peers = cl.peers
  selfId : cl'.selfId = cl.selfId
  ranges : cl'.ranges =
    if onlineIds cl = [] ∨ (onlineIds cl).length = cl.ranges.length then cl.ranges
    else buildSlices (onlineIds cl)

theorem rebuilds_shrinkLiveLocked (now : Int) (cl : Cluster) :
    Rebuilds cl (shrinkLiveLocked now cl) := by
  unfold shrinkLiveLocked
  dsimp only
  split
  · rename_i hkept
    exact ⟨rfl, rfl, (if_pos hkept).symm⟩
  · rename_i hcounted
    exact ⟨rfl, rfl, (if_neg hcounted).symm⟩

theorem rebuilds_teardownShrink {cl : Cluster} (hne : cl.ranges ≠ []) :
    Rebuilds cl (teardownShrink cl) := by
  unfold teardownShrink
  dsimp only
  split
  · rename_i hkept
    exact ⟨rfl, rfl, (if_pos (hkept.resolve_left hne)).symm⟩
  · rename_i hcounted
    exact ⟨rfl, rfl, (if_neg fun h => hcounted (Or.inr h)).symm⟩

namespace Rebuilds

variable {cl cl' : Cluster}

theorem currentMembers_eq (h : Rebuilds cl cl') : currentMembers cl' = currentMembers cl := by
  have hview : isOnlineView cl' = isOnlineView cl := by
    funext id
    rw [isOnlineView, isOnlineView, h.peers, h.selfId]
  rw [currentMembers, currentMembers, h.peers, hview]

/-- **A re-sharding** over a state with a table that was built leaves current owners exactly
when its state is recounted. -/
theorem ownersCurrent_iff (h : Rebuilds cl cl') (hself : cl.selfId ∈ cl.peers.ids)
    (hlen : cl.peers.rows.length ≤ maxPeers)
    (hbuilt : ∃ ids : List NodeId, ids.Pairwise (· ≤ ·) ∧ cl.ranges = buildSlices ids) :
    OwnersCurrent cl' ↔ Recounted cl := by
  obtain ⟨ids, hsorted, htable⟩ := hbuilt
  have hne : onlineIds cl ≠ [] :=
    List.ne_nil_of_mem (mem_onlineIds.mpr ⟨hself, by rw [isOnlineView, if_pos rfl]⟩)
  have hranges := h.ranges
  simp only [hne, false_or] at hranges
  constructor
  · intro hcurrent
    have howners : (owners cl'.ranges).Perm (currentMembers cl) :=
      h.currentMembers_eq ▸ hcurrent.owners
    -- a re-sharding has as many owners as there are online ids
    have hcount : (onlineIds cl).length = (currentMembers cl).length := by
      rw [← howners.length_eq, owners, List.length_map, hranges]
      split
      · assumption
      · rw [length_buildSlices]
    have hkept : ∀ p ∈ cl.peers.rows, p.id = cl.selfId → p.removed = false := by
      intro p hp hid
      by_contra hremoved
      have hlt := length_currentMembers_lt hp hid (Bool.not_eq_false _ ▸ hremoved)
      omega
    refine ⟨hkept, fun hequal => ?_⟩
    rw [hranges, if_pos hequal] at howners
    -- both lists are sorted
    have howned : (owners cl.ranges).Pairwise (· ≤ ·) := by
      rw [htable, owners_buildSlices]
      exact hsorted
    exact (howners.trans (perm_onlineIds hkept).symm).eq_of_pairwise' howned (pairwise_onlineIds cl)
  · rintro ⟨hkept, hequal⟩
    have htable' : cl'.ranges = buildSlices (onlineIds cl) := by
      rw [hranges]
      split
      · rename_i hcount
        have howners := hequal hcount
        rw [htable, owners_buildSlices] at howners
        rw [htable, howners]
      · rfl
    refine ownersCurrent_of_buildSlices hne htable' ?_ (h.peers ▸ hlen)
    rw [h.currentMembers_eq]
    exact perm_onlineIds hkept

end Rebuilds

/-! ## The runs of the mesh -/

namespace Mesh

variable {w w' : Mesh} {l : Label}

/-- The state a leader re-shards in a step, and what it becomes. A live table that is empty
stays empty. -/
def rebuild (w : Mesh) : Label → Option (Cluster × Cluster)
  | .shrink x =>
    if x ∈ w.hangups ∧ (w.cluster x).ranges ≠ [] then
      some (w.cluster x, teardownShrink (w.cluster x))
    else none
  | .expire x now =>
    if leaderIsSelfLocked (w.cluster x) ∧
        (w.cluster x).peers.rows.any (expired now (w.cluster x)) then
      some (tombstoneExpired now (w.cluster x), removeExpired now (w.cluster x))
    else none
  | .remove x id now =>
    if id = [] ∨ id = (w.cluster x).selfId ∨ ((w.cluster x).peers.find id).isNone then none
    else if leaderIsSelfLocked (w.cluster x) then
      some (tombstone (w.cluster x) id, (edbClusterRemoveNode now (w.cluster x) id).1)
    else none
  | _ => none

/-- A re-sharding of the step leaves current owners. -/
def LeavesCurrent (w : Mesh) (l : Label) : Prop := ∀ p ∈ w.rebuild l, OwnersCurrent p.2

/-- A re-sharding of the step starts from a recounted state. -/
def Recounts (w : Mesh) (l : Label) : Prop := ∀ p ∈ w.rebuild l, Recounted p.1

instance (cl : Cluster) : Decidable (Recounted cl) :=
  inferInstanceAs (Decidable ((∀ p ∈ cl.peers.rows, _ → _) ∧ (_ → _)))

instance (w : Mesh) (l : Label) : Decidable (w.Recounts l) := Option.decidableForallMem _

/-- What becomes of the state is the state after the step. -/
theorem cluster_of_rebuild (h : w.step l = some w') {p : Cluster × Cluster}
    (hp : w.rebuild l = some p) : w'.cluster l.node = p.2 := by
  rw [(cluster_step h).1]
  cases l with
  | shrink x =>
    obtain ⟨-, heq⟩ := Option.ite_none_right_eq_some.mp hp
    obtain rfl := Option.some.inj heq
    rfl
  | expire x now =>
    obtain ⟨-, heq⟩ := Option.ite_none_right_eq_some.mp hp
    obtain rfl := Option.some.inj heq
    rfl
  | remove x id now =>
    obtain ⟨-, heq⟩ := Option.ite_none_left_eq_some.mp hp
    obtain ⟨-, heq⟩ := Option.ite_none_right_eq_some.mp heq
    obtain rfl := Option.some.inj heq
    rfl
  | _ => cases hp

end Mesh

/-- The tables of a fact were built over sorted ids. -/
def Fact.Built : Fact → Prop
  | .compliant _ _ => True
  | .target _ table | .live _ table =>
    ∃ ids : List NodeId, ids.Pairwise (· ≤ ·) ∧ table = buildSlices ids

/-- What every run keeps: the tables anywhere were built, a leader is a member, and a node that
is about to re-shard knows itself. -/
structure Sliced (w : Mesh) : Prop where
  tables : Runs.Grounded Mesh.Known (fun _ φ => φ.Fits ∧ φ.Built) w
  leaders : ∀ x, (w.cluster x).leader = [] ∨ (w.cluster x).leader ∈ (w.cluster x).peers.ids
  hangups : ∀ x ∈ w.hangups, x ∈ (w.cluster x).peers.ids

theorem sliced_start (addr : NodeId → CString) (port : NodeId → Int) (now : Int) :
    Sliced (Mesh.start addr port now) where
  tables := by
    rintro φ (⟨x, hx⟩ | ⟨s, hs, -⟩)
    · obtain ⟨gen, table, rfl, hfits⟩ := edbClusterStart_knows hx
      refine ⟨hfits, ?_⟩
      have htable : (edbClusterStart x (addr x) (port x) now).ranges = table := hx.2
      rcases (alone_edbClusterStart x (addr x) (port x) now).live with ⟨-, hnil⟩ | ⟨-, hown, -⟩
      · exact ⟨[], List.Pairwise.nil, by rw [← htable, hnil]; rfl⟩
      · exact ⟨[x], List.pairwise_singleton _ _, by rw [← htable, hown]⟩
    · cases hs
  leaders := by
    intro x
    have hleader := (alone_edbClusterStart x (addr x) (port x) now).elected
    have hrecomputed := leader_recomputeLeader (edbClusterStart x (addr x) (port x) now)
    rw [← hleader] at hrecomputed
    exact hrecomputed
  hangups := nofun

namespace Sliced

variable {w w' : Mesh} {l : Label}

/-- A node that leads by its own word knows itself. -/
theorem self_mem (hw : Sliced w) {x : NodeId} (h : leaderIsSelfLocked (w.cluster x) = true) :
    x ∈ (w.cluster x).peers.ids := by
  rw [leaderIsSelfLocked, Bool.and_eq_true, decide_eq_true_eq, decide_eq_true_eq] at h
  have hleader := (hw.leaders x).resolve_left h.1
  rwa [h.2, show (w.cluster x).selfId = x from (w.node x).selfId_eq] at hleader

/-- The tables a step adds were built. -/
theorem built_of_adds (hw : Sliced w) {φ : Fact} (hφ : w.Adds φ l) : φ.Built := by
  have hreshard : ∀ {cl cl' : Cluster}, Mesh.Reshards cl cl' φ → φ.Built := by
    rintro cl cl' ⟨hto, rfl⟩
    exact ⟨_, pairwise_onlineIds cl, hto.ranges⟩
  cases l with
  | publish x =>
    obtain ⟨-, rfl⟩ := hφ
    exact ⟨_, pairwise_onlineIds _, rfl⟩
  | mark x =>
    obtain ⟨-, rfl⟩ := hφ
    trivial
  | commit x gen now =>
    -- a promoted table was a target
    obtain ⟨hflag, rfl⟩ := hφ
    exact (hw.tables (.target _ _) (Or.inl ⟨x, pending_of_promoteCommit hflag, rfl, rfl⟩)).2
  | shrink x => exact hreshard hφ
  | expire x now => exact hreshard hφ.2
  | remove x id now => exact hreshard hφ.2
  | _ => exact hφ.elim

theorem leaders_step (hw : Sliced w) (h : w.step l = some w') (x : NodeId) :
    (w'.cluster x).leader = [] ∨ (w'.cluster x).leader ∈ (w'.cluster x).peers.ids := by
  refine Mesh.forall_cluster_step h
    (P := fun _ cl => cl.leader = [] ∨ cl.leader ∈ cl.peers.ids) hw.leaders (fun s _ => ?_) x
  rcases leader_run s (w.cluster l.node) with hkept | helected
  · rw [hkept]
    exact (hw.leaders _).imp_right (carries_run s _).mem_ids
  · exact helected

/-- A node that is about to re-shard was before, or has just lost a connection as a leader. -/
theorem mem_hangups_step (h : w.step l = some w') {x : NodeId} (hx : x ∈ w'.hangups) :
    x ∈ w.hangups ∨ ∃ id, l = .drop x id ∧ (dropConn (w.cluster x) id).2 = true := by
  unfold Mesh.step at h
  obtain ⟨m, -, rfl⟩ := Option.map_eq_some_iff.mp h
  cases l with
  | drop y id =>
    dsimp only at hx
    split at hx
    · rename_i hleader
      rcases List.mem_cons.mp hx with rfl | hx
      · exact Or.inr ⟨id, rfl, hleader⟩
      · exact Or.inl hx
    · exact Or.inl hx
  | shrink y => exact Or.inl (List.mem_of_mem_erase hx)
  | _ => exact Or.inl hx

theorem ids_step (h : w.step l = some w') {x y : NodeId} (hy : y ∈ (w.cluster x).peers.ids) :
    y ∈ (w'.cluster x).peers.ids := by
  obtain ⟨hacting, hother⟩ := Mesh.cluster_step h
  by_cases hx : x = l.node
  · subst hx
    rw [hacting]
    cases w.sectionOf l with
    | none => exact hy
    | some s => exact (carries_run s _).mem_ids hy
  · rwa [hother x hx]

theorem hangups_step (hw : Sliced w) (h : w.step l = some w') {x : NodeId}
    (hx : x ∈ w'.hangups) : x ∈ (w'.cluster x).peers.ids := by
  rcases mem_hangups_step h hx with hold | ⟨id, rfl, hleader⟩
  · exact ids_step h (hw.hangups x hold)
  · -- it has just elected itself
    have hcluster : w'.cluster x = (dropConn (w.cluster x) id).1 := (Mesh.cluster_step h).1
    have hself : leaderIsSelfLocked (w'.cluster x) = true := hcluster ▸ hleader
    rw [leaderIsSelfLocked, Bool.and_eq_true, decide_eq_true_eq, decide_eq_true_eq] at hself
    have hmember := (hw.leaders_step h x).resolve_left hself.1
    rwa [hself.2, show (w'.cluster x).selfId = x from (w'.node x).selfId_eq] at hmember

/-- **Every step** keeps all this. -/
theorem step (hw : Sliced w) (h : w.step l = some w') : Sliced w' where
  tables := by
    refine hw.tables.of_moves ⟨fun φ hφ => hφ, fun φ hφ => ?_⟩
    rcases Mesh.known_step (fun ψ hψ => (hw.tables ψ hψ).1) h hφ with hold | hnew
    · exact Or.inl hold
    · exact Or.inr ⟨Mesh.fits_of_adds (fun ψ hψ => (hw.tables ψ hψ).1) hnew, hw.built_of_adds hnew⟩
  leaders := hw.leaders_step h
  hangups := fun _ => hw.hangups_step h

/-- A step leaves current owners exactly when it starts from a recounted state. -/
theorem leavesCurrent_iff (hw : Sliced w) (l : Label) : w.LeavesCurrent l ↔ w.Recounts l := by
  refine forall₂_congr fun p hp => ?_
  have hlive : ∀ x, ∃ ids : List NodeId, ids.Pairwise (· ≤ ·) ∧
      (w.cluster x).ranges = buildSlices ids :=
    fun x => (hw.tables (.live _ _) (Or.inl ⟨x, rfl, rfl⟩)).2
  have hbounded : ∀ x, (w.cluster x).peers.rows.length ≤ maxPeers := fun x => (w.node x).bounded
  have hid : ∀ x, (w.cluster x).selfId = x := fun x => (w.node x).selfId_eq
  cases l with
  | shrink x =>
    -- these three steps split the live table anew, over the members online
    obtain ⟨⟨hx, hne⟩, heq⟩ := Option.ite_none_right_eq_some.mp hp
    obtain rfl := Option.some.inj heq
    exact (rebuilds_teardownShrink hne).ownersCurrent_iff ((hid x).symm ▸ hw.hangups x hx)
      (hbounded x) (hlive x)
  | expire x now =>
    obtain ⟨hleader, heq⟩ := Option.ite_none_right_eq_some.mp hp
    obtain rfl := Option.some.inj heq
    have hshrinks : removeExpired now (w.cluster x) =
        shrinkLiveLocked now (tombstoneExpired now (w.cluster x)) := if_pos hleader
    rw [hshrinks]
    refine (rebuilds_shrinkLiveLocked now _).ownersCurrent_iff ?_ ?_ (hlive x)
    · show (w.cluster x).selfId ∈ ((w.cluster x).peers.update _).ids
      rw [PeerTable.ids_update, hid x]
      exact hw.self_mem hleader.1
    · exact (PeerTable.length_update _ _).trans_le (hbounded x)
  | remove x id now =>
    obtain ⟨hfound, heq⟩ := Option.ite_none_left_eq_some.mp hp
    obtain ⟨hleader, heq⟩ := Option.ite_none_right_eq_some.mp heq
    obtain rfl := Option.some.inj heq
    have hshrinks : (edbClusterRemoveNode now (w.cluster x) id).1 =
        shrinkLiveLocked now (tombstone (w.cluster x) id) := by
      rw [edbClusterRemoveNode, if_neg hfound]
      exact if_pos hleader
    rw [hshrinks]
    refine (rebuilds_shrinkLiveLocked now _).ownersCurrent_iff ?_ ?_ (hlive x)
    · show (w.cluster x).selfId ∈ ((w.cluster x).peers.modify id _).ids
      rw [PeerTable.ids_modify, hid x]
      exact hw.self_mem hleader
    · exact (PeerTable.length_modify _ _ _).trans_le (hbounded x)
  | _ => cases hp

/-- And so does a run. -/
theorem along_leavesCurrent_iff (hw : Sliced w) (ls : List Label) :
    Runs.Along Mesh.step Mesh.LeavesCurrent w ls ↔ Runs.Along Mesh.step Mesh.Recounts w ls :=
  ⟨Runs.along_of_inv (fun _ _ _ hw _ h => hw.step h)
      (fun _ l hw => (hw.leavesCurrent_iff l).mp) hw,
    Runs.along_of_inv (fun _ _ _ hw _ h => hw.step h)
      (fun _ l hw => (hw.leavesCurrent_iff l).mpr) hw⟩

end Sliced

/-- **Live owners are current members** after every re-sharding of a run exactly when all its
re-shardings start from recounted states. -/
theorem ownersCurrent_iff_recounts (addr : NodeId → CString) (port : NodeId → Int) (now : Int)
    (ls : List Label) :
    Runs.Along Mesh.step Mesh.LeavesCurrent (Mesh.start addr port now) ls ↔
      Runs.Along Mesh.step Mesh.Recounts (Mesh.start addr port now) ls :=
  (sliced_start addr port now).along_leavesCurrent_iff ls

/-- Nodes `a` and `b` own the key space. Then `c` joins, and before `a` publishes a target over
all three `b` is lost. -/
def departureWithNewcomer : List Label :=
  firstWave ++ meet (cstr "a") (cstr "c") 5 ++ [.drop (cstr "a") (cstr "b"), .shrink (cstr "a")]

/-- The leader counts two slices and two members, and `b` keeps its slice. -/
theorem departure_unnoticed :
    ¬ Runs.Along Mesh.step Mesh.LeavesCurrent allAlone departureWithNewcomer := by
  rw [allAlone, (sliced_start _ _ _).along_leavesCurrent_iff]
  decide +kernel

end EpsilonDB
