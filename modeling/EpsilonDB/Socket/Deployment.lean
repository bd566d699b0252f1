import EpsilonDB.Socket.ReplRead
import Mathlib.Data.Finset.Card

/-!
# A deployment seen by its nodes

The members, the live range table and the replication factor of a database may stay as
they are while nodes come and go. What a node then makes of a shard depends on the set of
nodes it sees online, and on nothing else.

- `Deployment`: what stays. Its members fit the peers array.
- `Deployment.Sees`: a node of the deployment whose view is a given set.
- `Deployment.holders`: the holders of a shard under a view, online ones first.
- `readHolders_eq`, `countedHolders_eq`: reads and writes count these holders, whoever
  asks.
- `Deployment.node`: a node of the deployment, for any view and any order of its table.
-/

namespace EpsilonDB

/-- The members of a cluster, its live range table, and a database replicated to more than
one of them. -/
structure Deployment where
  members : List NodeId
  nodup : members.Nodup
  valid : ∀ id ∈ members, validNodeId id = true
  ne_nil : members ≠ []
  fits : members.length ≤ maxPeers
  ranges : List RangeInfo
  db : CString
  rf : Int
  replicated : 1 < rf

namespace Deployment

variable (d : Deployment)

/-- Node `n` is of the deployment, and the members it considers online are those in
`online`. -/
structure Sees (online : Finset NodeId) {x : NodeId} (n : ReplNode x) : Prop where
  members : ∀ id, id ∈ d.members ↔ ∃ p ∈ n.cluster.peers.rows, p.id = id ∧ p.removed = false
  ranges : n.cluster.ranges = d.ranges
  view : ∀ id ∈ d.members, candidateOnline n.cluster id = decide (id ∈ online)
  factor : n.databases d.db = some d.rf

/-- The members, those in `first` before the others. -/
def inOrder (first : Finset NodeId) : List NodeId :=
  (d.members.filter fun id => decide (id ∈ first)) ++
    d.members.filter fun id => !decide (id ∈ first)

theorem perm_inOrder (first : Finset NodeId) : (d.inOrder first).Perm d.members :=
  List.filter_append_perm ..

/-- The row of a member. Every member has an address. -/
def row (online : Finset NodeId) (id : NodeId) : PeerInfo :=
  { id, addr := cstr "host", port := 1, online := decide (id ∈ online) }

omit d in
theorem dialable_row (online : Finset NodeId) (id : NodeId) :
    (row online id).dialable = decide (id ∈ online) := by
  have haddr : cstr "host" ≠ [] := by decide
  simp [PeerInfo.dialable, row, haddr]

/-- A peers table of the deployment. -/
def table (online first : Finset NodeId) : PeerTable where
  rows := (d.inOrder first).map (row online)
  nodup := by
    rw [List.map_map]
    simpa [Function.comp_def, row] using (d.perm_inOrder first).nodup_iff.mpr d.nodup
  valid := by
    intro p hp
    obtain ⟨id, hid, rfl⟩ := List.mem_map.mp hp
    exact d.valid id ((d.perm_inOrder first).mem_iff.mp hid)

theorem rows_table (online first : Finset NodeId) :
    (d.table online first).rows =
      (d.members.filter fun id => decide (id ∈ first)).map (row online) ++
        (d.members.filter fun id => !decide (id ∈ first)).map (row online) :=
  List.map_append

theorem length_table (online first : Finset NodeId) :
    (d.table online first).rows.length = d.members.length := by
  rw [table, List.length_map, (d.perm_inOrder first).length_eq]

/-- Node `x` of the deployment with an empty engine. -/
def node (online first : Finset NodeId) (x : NodeId) : ReplNode x where
  cluster :=
    { selfId := x, selfAddr := cstr "host", selfPort := 1
      peers := d.table online first, ranges := d.ranges }
  selfId_eq := rfl
  bounded := by
    intro p hp
    have hle : (d.table online first).rows.length ≤ maxPeers :=
      (d.length_table online first).trans_le d.fits
    rw [List.drop_eq_nil_of_le hle] at hp
    cases hp
  databases := fun _ => some d.rf
  cache := ⟨true, []⟩

theorem peers_node (online first : Finset NodeId) (x : NodeId) :
    (d.node online first x).peers = (d.table online first).rows :=
  List.take_of_length_le ((d.length_table online first).trans_le d.fits)

/-! ## Holders -/

/-- The members in the cyclic order of the ring, from the owner of `key`. -/
def ring (key : CString) : List NodeId :=
  edbClusterHolders (d.node ∅ ∅ []).cluster key maxPeers

/-- The holders of `key` while exactly `online` are seen: the first of the ring, online
ones before the others. -/
def holders (online : Finset NodeId) (key : CString) : List NodeId :=
  ((d.ring key).filter (fun id => decide (id ∈ online)) ++
    (d.ring key).filter fun id => !decide (id ∈ online)).take d.rf.toNat

/-- `required`, for every view. -/
def quorum : Nat := min d.rf.toNat d.members.length / 2 + 1

section Views

variable {d}
variable {online first : Finset NodeId} {x y : NodeId} {n : ReplNode x}

/-- The candidates are the members, sorted. -/
theorem holderCandidates_eq {cl : Cluster}
    (h : ∀ id, id ∈ d.members ↔ ∃ p ∈ cl.peers.rows, p.id = id ∧ p.removed = false) :
    holderCandidates cl = d.members.insertionSort (· ≤ ·) := by
  have hperm : ((cl.peers.rows.filter fun p => !p.removed).map PeerInfo.id).Perm d.members := by
    have hnodup : ((cl.peers.rows.filter fun p => !p.removed).map PeerInfo.id).Nodup :=
      cl.peers.nodup.sublist (List.filter_sublist.map _)
    refine (List.perm_ext_iff_of_nodup hnodup d.nodup).mpr fun id => ?_
    rw [h, List.mem_map]
    constructor
    · rintro ⟨p, hp, hid⟩
      obtain ⟨hp, hremoved⟩ := List.mem_filter.mp hp
      exact ⟨p, hp, hid, by simpa using hremoved⟩
    · rintro ⟨p, hp, hid, hremoved⟩
      exact ⟨p, List.mem_filter.mpr ⟨hp, by simpa using hremoved⟩, hid⟩
  have hlen : (cl.peers.rows.filter fun p => !p.removed).length ≤ maxPeers := by
    rw [← List.length_map PeerInfo.id, hperm.length_eq]
    exact d.fits
  rw [holderCandidates, List.take_of_length_le hlen]
  refine List.Perm.eq_of_sortedLE List.sortedLE_insertionSort List.sortedLE_insertionSort ?_
  exact (List.perm_insertionSort _ _).trans (hperm.trans (List.perm_insertionSort _ _).symm)

theorem mem_members_node (online first : Finset NodeId) (x id : NodeId) :
    id ∈ d.members ↔
      ∃ p ∈ (d.node online first x).cluster.peers.rows, p.id = id ∧ p.removed = false := by
  rw [← (d.perm_inOrder first).mem_iff]
  constructor
  · intro hid
    exact ⟨_, List.mem_map_of_mem hid, rfl, rfl⟩
  · rintro ⟨p, hp, hid, -⟩
    obtain ⟨y, hy, rfl⟩ := List.mem_map.mp hp
    exact hid ▸ hy

/-- Every node of the deployment reads off the same ring. -/
theorem edbClusterHolders_eq {cl : Cluster} (hranges : cl.ranges = d.ranges)
    (hmembers : ∀ id, id ∈ d.members ↔ ∃ p ∈ cl.peers.rows, p.id = id ∧ p.removed = false)
    (key : CString) : edbClusterHolders cl key maxPeers = d.ring key := by
  rw [ring, edbClusterHolders, edbClusterHolders, holderCandidates_eq hmembers,
    holderCandidates_eq (d.mem_members_node ∅ ∅ []), hranges]
  rfl

theorem mem_ring {key : CString} {id : NodeId} (h : id ∈ d.ring key) : id ∈ d.members := by
  have hmem := mem_edbClusterHolders h
  rwa [holderCandidates_eq (d.mem_members_node ∅ ∅ []), List.mem_insertionSort] at hmem

theorem perm_ring {key : CString} (hkey : key.length = 32) :
    (d.ring key).Perm d.members := by
  have hsort := List.perm_insertionSort (· ≤ ·) d.members
  rw [ring, edbClusterHolders, if_neg (not_not_intro hkey),
    holderCandidates_eq (d.mem_members_node ∅ ∅ [])]
  rw [List.take_of_length_le]
  · exact (List.rotate_perm _ _).trans hsort
  · rw [List.length_rotate, hsort.length_eq]
    exact d.fits

theorem mem_holders {key : CString} {id : NodeId} (h : id ∈ d.holders online key) :
    id ∈ d.members := by
  rcases List.mem_append.mp (List.mem_of_mem_take h) with hmem | hmem <;>
    exact mem_ring (List.mem_of_mem_filter hmem)

theorem length_holders {key : CString} (hkey : key.length = 32) :
    (d.holders online key).length = min d.rf.toNat d.members.length := by
  have hperm : ((d.ring key).filter (fun id => decide (id ∈ online)) ++
      (d.ring key).filter fun id => !decide (id ∈ online)).Perm (d.ring key) :=
    List.filter_append_perm ..
  rw [holders, List.length_take, hperm.length_eq, (perm_ring hkey).length_eq]

theorem length_holders_pos {key : CString} (hkey : key.length = 32) :
    0 < (d.holders online key).length := by
  have hmembers := List.length_pos_iff.mpr d.ne_nil
  have hrf := d.replicated
  rw [length_holders hkey]
  omega

variable {shardKey : CString → CString → CString} {partition keyspace : CString}

/-- **The holders a read counts** depend on the view alone. -/
theorem readHolders_eq (h : d.Sees online n) :
    n.readHolders shardKey d.db partition keyspace =
      d.holders online (shardKey partition keyspace) := by
  have hview : ∀ id ∈ d.ring (shardKey partition keyspace),
      candidateOnline n.cluster id = decide (id ∈ online) := fun id hid =>
    h.view id (mem_ring hid)
  have hrf : replicationFactor n.databases d.db = d.rf.toNat := by
    have hpos : 0 < d.rf := by have := d.replicated; omega
    rw [replicationFactor, h.factor]
    exact if_pos hpos
  rw [ReplNode.readHolders, holderIds, edbClusterHolders_eq h.ranges h.members, hrf, holders,
    List.filter_congr hview]
  congr 2
  exact List.filter_congr fun id hid => by rw [hview id hid]

/-- **The holders a write counts** are the same. -/
theorem countedHolders_eq (hkey : (shardKey partition keyspace).length = 32)
    (h : d.Sees online n) :
    n.countedHolders shardKey d.db partition keyspace =
      d.holders online (shardKey partition keyspace) := by
  have hpos : 0 < (d.holders online (shardKey partition keyspace)).length :=
    length_holders_pos hkey
  rw [← readHolders_eq h, ReplNode.readHolders] at hpos ⊢
  rw [ReplNode.countedHolders, writeHolders]
  exact if_neg hpos.ne'

/-- Peers a node can reach are online in its view. -/
theorem mem_of_dialable (h : d.Sees online n) {p : PeerInfo} (hp : p ∈ n.peers)
    (hd : p.dialable = true) (hmem : p.id ∈ d.members) : p.id ∈ online := by
  have hon : candidateOnline n.cluster p.id = true := by
    rw [PeerInfo.dialable, Bool.and_eq_true, Bool.and_eq_true] at hd
    rw [candidateOnline, Bool.or_eq_true, List.any_eq_true]
    exact Or.inr ⟨p, hp, by simpa using hd.1.1⟩
  rw [h.view _ hmem] at hon
  exact of_decide_eq_true hon

/-- The node of a deployment reaches the online members. -/
theorem contacted_node :
    Contacted x (d.node online first x).peers y ↔ y ≠ x ∧ y ∈ d.members ∧ y ∈ online := by
  rw [Contacted, peers_node, table]
  refine and_congr_right fun _ => ?_
  constructor
  · rintro ⟨p, hp, rfl, hd⟩
    obtain ⟨id, hid, rfl⟩ := List.mem_map.mp hp
    rw [dialable_row] at hd
    exact ⟨(d.perm_inOrder first).mem_iff.mp hid, of_decide_eq_true hd⟩
  · rintro ⟨hy, hon⟩
    refine ⟨_, List.mem_map_of_mem ((d.perm_inOrder first).mem_iff.mpr hy), rfl, ?_⟩
    rw [dialable_row]
    exact decide_eq_true hon

/-- The node of a deployment sees what it was built to see. -/
theorem sees_node (hx : x ∈ online) : d.Sees online (d.node online first x) where
  members := d.mem_members_node online first x
  ranges := rfl
  factor := rfl
  view := by
    intro id hid
    rw [candidateOnline, ← ReplNode.peers, peers_node]
    by_cases hon : id ∈ online
    · rw [decide_eq_true hon, Bool.or_eq_true, List.any_eq_true]
      refine Or.inr ⟨_, List.mem_map_of_mem ((d.perm_inOrder first).mem_iff.mpr hid), ?_⟩
      simpa [row] using hon
    · have hself : id ≠ x := fun heq => hon (heq ▸ hx)
      rw [decide_eq_false hon, Bool.or_eq_false_iff]
      refine ⟨decide_eq_false hself, List.any_eq_false.mpr fun p hp => ?_⟩
      obtain ⟨y, -, rfl⟩ := List.mem_map.mp hp
      by_cases hy : y = id
      · simp [row, hy, hon]
      · simp [row, hy]

end Views

end Deployment

end EpsilonDB
