import EpsilonDB.Engine.CString
import EpsilonDB.Lib.Keys
import Mathlib.Data.List.Sort
import Mathlib.Data.List.Nodup
import Mathlib.Data.List.Rotate

/-!
# Cluster state and placement (`socket/epsilon_cluster.c`)

The state one node keeps under `cl->lock`, and the functions that read it.

- `PeerTable`: the peers array. Every insertion path looks the id up first and
  checks its length, so distinct, non-empty, bounded ids are part of the type.
- `Cluster`: the locked fields of `edb_cluster`. The empty string stands for "no
  leader" and generation 0 for "no target pending", as in the source.
- `isOnlineView`, `recomputeLeader`: the node's own view and its election.
- `buildSlices`, `edbClusterOwner`, `edbClusterHolders`: hash-range placement.

Allocation is taken to succeed, so the capacity fields of the arrays are left out.
-/

namespace EpsilonDB

/-- `EDB_NODE_ID_MAX` and `EDB_ADDR_MAX`. -/
def nodeIdMax : Nat := 64

/-- `MAX_PEERS`, equal to `MAX_PEERS_SNAPSHOT`. -/
def maxPeers : Nat := 64

/-- `OFFLINE_AFTER_SECONDS`. -/
def offlineAfterSeconds : Int := 12

/-- `REMOVE_AFTER_SECONDS`. -/
def removeAfterSeconds : Int := 7200

/-- A node id: the printed `node_id` of a cluster member. -/
abbrev NodeId := CString

/-- `edb_peer_info`. -/
structure PeerInfo where
  id : NodeId
  addr : CString := []
  port : Int := 0
  httpPort : Int := 0
  lastSeen : Int := 0
  online : Bool := false
  removed : Bool := false
  compliantGen : Int := 0
deriving DecidableEq

/-- `edb_range_info`: a slice `[start, stop)` of the key space and its owner. -/
structure RangeInfo where
  nodeId : NodeId
  start : CString
  stop : CString
deriving DecidableEq

/-! ## The peers table -/

/-- An id the insertion paths accept: `*id && strlen(id) < EDB_NODE_ID_MAX`. -/
def validNodeId (id : NodeId) : Bool := id ≠ [] && decide (id.length < nodeIdMax)

/-- The peers array: one row an id. -/
structure PeerTable where
  rows : List PeerInfo
  nodup : (rows.map PeerInfo.id).Nodup
  valid : ∀ p ∈ rows, validNodeId p.id = true

namespace PeerTable

/-- The table without rows. -/
def empty : PeerTable := ⟨[], List.nodup_nil, nofun⟩

/-- The ids in table order. -/
def ids (t : PeerTable) : List NodeId := t.rows.map PeerInfo.id

/-- The row of `id`. -/
def find (t : PeerTable) (id : NodeId) : Option PeerInfo := t.rows.find? fun p => p.id = id

/-- Update the row of `id`, which keeps its id. -/
def modify (t : PeerTable) (id : NodeId) (f : PeerInfo → PeerInfo) : PeerTable where
  rows := t.rows.map fun p => if p.id = id then { f p with id := p.id } else p
  nodup := by
    rw [List.map_map]
    convert t.nodup using 2
    funext p
    by_cases h : p.id = id <;> simp [h]
  valid := by
    intro q hq
    obtain ⟨p, hp, rfl⟩ := List.mem_map.mp hq
    have := t.valid p hp
    by_cases h : p.id = id <;> simpa [h] using this

/-- Replace all rows, which keep their ids. -/
def update (t : PeerTable) (f : PeerInfo → PeerInfo) : PeerTable where
  rows := t.rows.map fun p => { f p with id := p.id }
  nodup := by
    rw [List.map_map]
    exact t.nodup
  valid := by
    intro q hq
    obtain ⟨p, hp, rfl⟩ := List.mem_map.mp hq
    exact t.valid p hp

/-- Append a row. Callers look the id up and check it first. -/
def add (t : PeerTable) (p : PeerInfo) : PeerTable :=
  if h : validNodeId p.id = true ∧ p.id ∉ t.ids then
    { rows := t.rows ++ [p]
      nodup := by
        rw [List.map_append]
        exact t.nodup.append (List.nodup_singleton _)
          (List.disjoint_singleton.mpr h.2)
      valid := by
        intro q hq
        rcases List.mem_append.mp hq with hq | hq
        · exact t.valid q hq
        · rw [List.mem_singleton.mp hq]
          exact h.1 }
  else t

theorem mem_ids {t : PeerTable} {id : NodeId} : id ∈ t.ids ↔ ∃ p ∈ t.rows, p.id = id :=
  List.mem_map

theorem mem_rows_of_find {t : PeerTable} {id : NodeId} {p : PeerInfo}
    (h : t.find id = some p) : p ∈ t.rows ∧ p.id = id :=
  ⟨List.mem_of_find?_eq_some h, by simpa using List.find?_some h⟩

theorem find_of_mem {t : PeerTable} {p : PeerInfo} (h : p ∈ t.rows) : t.find p.id = some p :=
  Keys.find?_of_nodup t.nodup h rfl

theorem find_eq_none {t : PeerTable} {id : NodeId} : t.find id = none ↔ id ∉ t.ids := by
  constructor
  · intro hnone hmem
    obtain ⟨p, hp, rfl⟩ := mem_ids.mp hmem
    rw [find_of_mem hp] at hnone
    cases hnone
  · intro hmem
    cases hfind : t.find id with
    | none => rfl
    | some p => exact absurd (mem_ids.mpr ⟨p, mem_rows_of_find hfind⟩) hmem

@[simp] theorem ids_modify (t : PeerTable) (id : NodeId) (f : PeerInfo → PeerInfo) :
    (t.modify id f).ids = t.ids := by
  show (t.rows.map _).map PeerInfo.id = t.rows.map PeerInfo.id
  rw [List.map_map]
  refine List.map_congr_left fun p _ => ?_
  by_cases h : p.id = id <;> simp [h]

@[simp] theorem ids_update (t : PeerTable) (f : PeerInfo → PeerInfo) :
    (t.update f).ids = t.ids := by
  show (t.rows.map _).map PeerInfo.id = t.rows.map PeerInfo.id
  rw [List.map_map]
  rfl

theorem length_modify (t : PeerTable) (id : NodeId) (f : PeerInfo → PeerInfo) :
    (t.modify id f).rows.length = t.rows.length := List.length_map _

theorem length_update (t : PeerTable) (f : PeerInfo → PeerInfo) :
    (t.update f).rows.length = t.rows.length := List.length_map _

theorem find_modify (t : PeerTable) (id x : NodeId) (f : PeerInfo → PeerInfo) :
    (t.modify id f).find x =
      (t.find x).map fun p => if p.id = id then { f p with id := p.id } else p := by
  have hid : ((fun p : PeerInfo => decide (p.id = x)) ∘ fun p =>
      if p.id = id then { f p with id := p.id } else p) = fun p => decide (p.id = x) := by
    funext p
    show decide ((if p.id = id then { f p with id := p.id } else p).id = x) = _
    split <;> rfl
  show (t.rows.map _).find? _ = _
  rw [List.find?_map, hid]
  rfl

/-- A row of the updated table is an old row, updated when it is the row of `id`. -/
theorem mem_rows_modify {t : PeerTable} {id : NodeId} {f : PeerInfo → PeerInfo}
    {q : PeerInfo} (h : q ∈ (t.modify id f).rows) :
    ∃ p ∈ t.rows, (p.id = id ∧ q = { f p with id := p.id }) ∨ (p.id ≠ id ∧ q = p) := by
  obtain ⟨p, hp, rfl⟩ := List.mem_map.mp h
  by_cases hid : p.id = id
  · exact ⟨p, hp, Or.inl ⟨hid, by simp [hid]⟩⟩
  · exact ⟨p, hp, Or.inr ⟨hid, by simp [hid]⟩⟩

theorem mem_rows_add {t : PeerTable} {p q : PeerInfo} (h : q ∈ (t.add p).rows) :
    q ∈ t.rows ∨ q = p := by
  rw [add] at h
  split at h
  · exact (List.mem_append.mp h).imp_right List.mem_singleton.mp
  · exact Or.inl h

theorem mem_ids_add {t : PeerTable} {p : PeerInfo} {id : NodeId} (h : id ∈ (t.add p).ids) :
    id ∈ t.ids ∨ id = p.id := by
  obtain ⟨q, hq, rfl⟩ := mem_ids.mp h
  rcases mem_rows_add hq with hq | rfl
  · exact Or.inl (mem_ids.mpr ⟨q, hq, rfl⟩)
  · exact Or.inr rfl

theorem mem_ids_add_self {t : PeerTable} {p : PeerInfo} (hvalid : validNodeId p.id = true) :
    p.id ∈ (t.add p).ids := by
  unfold add
  split
  · exact mem_ids.mpr ⟨p, List.mem_append_right _ (List.mem_singleton.mpr rfl), rfl⟩
  · rename_i hknown
    by_contra hmem
    exact hknown ⟨hvalid, hmem⟩

theorem length_add_le (t : PeerTable) (p : PeerInfo) :
    (t.add p).rows.length ≤ t.rows.length + 1 := by
  unfold add
  split
  · rw [List.length_append, List.length_singleton]
  · exact Nat.le_succ _

theorem find_add (t : PeerTable) {p : PeerInfo} {x : NodeId} (hp : t.find p.id = none) :
    (t.add p).find x = t.find x ∨ (t.find x = none ∧ (t.add p).find x = some p) := by
  unfold add
  split
  · show (t.rows ++ [p]).find? _ = _ ∨ _ ∧ (t.rows ++ [p]).find? _ = _
    rw [List.find?_append]
    by_cases hid : p.id = x
    · right
      subst hid
      refine ⟨hp, ?_⟩
      have hnone : t.rows.find? (fun q => decide (q.id = p.id)) = none := hp
      rw [hnone, Option.none_or, List.find?_singleton, if_pos (decide_eq_true rfl)]
    · left
      rw [List.find?_singleton, if_neg (by simpa using hid), Option.or_none]
      rfl
  · exact Or.inl rfl

/-- A row that is added is found, and hides no other. -/
theorem find_add_new {t : PeerTable} {p : PeerInfo} (hvalid : validNodeId p.id = true)
    (hnew : p.id ∉ t.ids) (x : NodeId) :
    (t.add p).find x = if p.id = x then some p else t.find x := by
  unfold add
  rw [dif_pos ⟨hvalid, hnew⟩]
  show (t.rows ++ [p]).find? _ = _
  rw [List.find?_append, List.find?_singleton]
  by_cases hid : p.id = x
  · subst hid
    rw [show t.rows.find? (fun q => decide (q.id = p.id)) = none from find_eq_none.mpr hnew,
      Option.none_or, if_pos (decide_eq_true rfl), if_pos rfl]
  · rw [if_neg (by simpa using hid), if_neg hid, Option.or_none]
    rfl

end PeerTable

/-! ## The locked state of a node -/

/-- `edb_cluster`: the fields guarded by `cl->lock`, and the settings the cluster
code keeps in the local configuration store. -/
structure Cluster where
  selfId : NodeId
  selfAddr : CString
  selfPort : Int
  selfHttpPort : Int := 0
  /-- node ids of the registered connections -/
  conns : List NodeId := []
  peers : PeerTable := .empty
  generation : Int := 0
  gcAfter : Int := 0
  ranges : List RangeInfo := []
  /-- generation 0 = none pending -/
  targetGeneration : Int := 0
  targetRanges : List RangeInfo := []
  autoCompliant : Bool := true
  leader : NodeId := []
  /-- `rebalance.done.<id>`: the generation stored under each id -/
  settingDone : NodeId → Option Int := fun _ => none
  /-- `cluster.rebalance_lock`: holder and time -/
  settingLock : Option (NodeId × Int) := none

/-! ## Views and election -/

/-- `is_online_view`: whether this node considers `id` online. -/
def isOnlineView (cl : Cluster) (id : NodeId) : Bool :=
  if id = cl.selfId then true
  else match cl.peers.find id with
    | some p => p.online && !p.removed
    | none => false

/-- `leader_is_self_locked`. -/
def leaderIsSelfLocked (cl : Cluster) : Bool := cl.leader ≠ [] && cl.leader = cl.selfId

/-- The ids seen online, in ascending order. -/
def onlineIds (cl : Cluster) : List NodeId :=
  (cl.peers.ids.filter (isOnlineView cl)).insertionSort (· ≤ ·)

/-- `recompute_leader`: the smallest id seen online, none when there is none. -/
def recomputeLeader (cl : Cluster) : Cluster :=
  { cl with leader := (onlineIds cl).head?.getD [] }

theorem mem_onlineIds {cl : Cluster} {id : NodeId} :
    id ∈ onlineIds cl ↔ id ∈ cl.peers.ids ∧ isOnlineView cl id = true := by
  rw [onlineIds, List.mem_insertionSort, List.mem_filter]

/-! ## Placement -/

/-- A lowercase hexadecimal digit. -/
def hexDigit (d : Nat) : UInt8 := UInt8.ofNat (if d < 10 then 48 + d else 87 + d)

/-- `%0<width>llx` of a value below `16 ^ width`. -/
def hexFixed (width n : Nat) : CString :=
  (List.range width).reverse.map fun k => hexDigit (n / 16 ^ k % 16)

/-- The bound printed for slice border `i`: the first 8 digits vary. -/
def sliceBound (v : Nat) : CString := hexFixed 8 v ++ hexFixed 24 0

/-- `"ffff…"`: the end of the key space. -/
def lastKey : CString := List.replicate 32 102

/-- `build_slices`: one contiguous slice a node, in the order of `ids`. -/
def buildSlices (ids : List NodeId) : List RangeInfo :=
  let n := ids.length
  let step := 0x100000000 / n
  ids.zipIdx.map fun (id, i) =>
    { nodeId := id
      start := if i = 0 then List.replicate 32 48 else sliceBound (i * step)
      stop := if i + 1 = n then lastKey else sliceBound ((i + 1) * step) }

/-- The ids a range table assigns slices to. -/
def owners (table : List RangeInfo) : List NodeId := table.map RangeInfo.nodeId

@[simp] theorem owners_buildSlices (ids : List NodeId) : owners (buildSlices ids) = ids := by
  simp [owners, buildSlices, List.map_map, Function.comp_def]

/-- The first slice of `table` that covers `key`. -/
def coveringSlice (table : List RangeInfo) (key : CString) : Option RangeInfo :=
  table.find? fun r => r.start ≤ key && (key < r.stop || r.stop = lastKey)

/-- `edb_cluster_owner`. -/
def edbClusterOwner (cl : Cluster) (key : CString) : Option NodeId :=
  if key.length ≠ 32 then none else (coveringSlice cl.ranges key).map RangeInfo.nodeId

/-- `edb_cluster_target_owner`. -/
def edbClusterTargetOwner (cl : Cluster) (key : CString) : Option NodeId :=
  if key.length ≠ 32 then none else (coveringSlice cl.targetRanges key).map RangeInfo.nodeId

/-- The non-removed members in ascending order, at most `MAX_PEERS` of them. -/
def holderCandidates (cl : Cluster) : List NodeId :=
  (((cl.peers.rows.filter fun p => !p.removed).take maxPeers).map PeerInfo.id).insertionSort
    (· ≤ ·)

/-- `edb_cluster_holders`: the members in cyclic order from the owner of `key`,
or from the first member when the owner is none of them. -/
def edbClusterHolders (cl : Cluster) (key : CString) (cap : Nat) : List NodeId :=
  if key.length ≠ 32 then []
  else
    let candidates := holderCandidates cl
    let start := match (coveringSlice cl.ranges key).map RangeInfo.nodeId with
      | some owner => if owner ∈ candidates then candidates.idxOf owner else 0
      | none => 0
    (candidates.rotate start).take cap

/-- `edb_cluster_peers`. -/
def edbClusterPeers (cl : Cluster) (cap : Nat) : List PeerInfo := cl.peers.rows.take cap

theorem mem_holderCandidates {cl : Cluster} {id : NodeId} (h : id ∈ holderCandidates cl) :
    ∃ p ∈ cl.peers.rows, p.id = id ∧ p.removed = false := by
  rw [holderCandidates, List.mem_insertionSort] at h
  obtain ⟨p, hp, rfl⟩ := List.mem_map.mp h
  have hp := List.mem_filter.mp (List.mem_of_mem_take hp)
  exact ⟨p, hp.1, rfl, by simpa using hp.2⟩

theorem nodup_holderCandidates (cl : Cluster) : (holderCandidates cl).Nodup := by
  rw [holderCandidates, (List.perm_insertionSort _ _).nodup_iff]
  exact cl.peers.nodup.sublist
    (((List.take_sublist _ _).trans List.filter_sublist).map PeerInfo.id)

theorem nodup_edbClusterHolders (cl : Cluster) (key : CString) (cap : Nat) :
    (edbClusterHolders cl key cap).Nodup := by
  rw [edbClusterHolders]
  split
  · exact List.nodup_nil
  · exact (List.nodup_rotate.mpr (nodup_holderCandidates cl)).sublist (List.take_sublist _ _)

theorem mem_edbClusterHolders {cl : Cluster} {key : CString} {cap : Nat} {id : NodeId}
    (h : id ∈ edbClusterHolders cl key cap) : id ∈ holderCandidates cl := by
  rw [edbClusterHolders] at h
  split at h
  · cases h
  · exact List.mem_rotate.mp (List.mem_of_mem_take h)

end EpsilonDB
