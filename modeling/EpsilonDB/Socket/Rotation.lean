import EpsilonDB.Socket.CurrentOwners
import EpsilonDB.Socket.Removal
import EpsilonDB.Socket.Repl

/-!
# Replica selection (`edb_cluster_holders` and `holder_ids`)

The members are sorted and walked in a circle from the owner of the key. A copy of the
record goes to the first of them, the online ones before the others. Both functions work on
arrays of `maxPeers` entries, while `add_self_locked` appends a row without a look at the
number there are.

- `keptMembers`: the members that are not removed.
- `FullRotation`: all of them once, in the cyclic order of their ids from the owner.
- `OnlineFirst`: as many members as asked for, an offline one only next to all online ones.
- `Rotates`: both selections are so, whatever the live table and the key.
- `Shown`: the members fit the arrays, and so do the flags of those that are online.
- `take_append_cases`: what a prefix of two lists takes of each.
- `rotates_iff_shown`: the selections are right exactly for tables that are shown.
- `restarted_leaves_one_out`: a full table under a new address is not.
-/

namespace EpsilonDB

variable (shardKey : CString → CString → CString)

/-- The members that are not removed. -/
def keptMembers (cl : Cluster) : List NodeId :=
  (cl.peers.rows.filter fun p => !p.removed).map PeerInfo.id

/-- The list is every member that is not removed, once, in the cyclic order of the ids, and
starts with the owner of the key if that is one of them. -/
structure FullRotation (cl : Cluster) (key : CString) (holders : List NodeId) : Prop where
  once : holders.Nodup
  all : ∀ id, id ∈ holders ↔ ∃ p ∈ cl.peers.rows, p.id = id ∧ p.removed = false
  cyclic : ∃ sorted : List NodeId, sorted.Pairwise (· < ·) ∧ sorted ~r holders
  start : ∀ owner, edbClusterOwner cl key = some owner →
    (∃ p ∈ cl.peers.rows, p.id = owner ∧ p.removed = false) → holders.head? = some owner

/-- The list is `rf` different members, or all of them when there are fewer. One that is
offline is among them only if all are that are online; the node itself counts as online. -/
structure OnlineFirst (cl : Cluster) (rf : Nat) (holders : List NodeId) : Prop where
  once : holders.Nodup
  members : ∀ id ∈ holders, ∃ p ∈ cl.peers.rows, p.id = id ∧ p.removed = false
  count : holders.length = min rf (keptMembers cl).length
  priority : (∃ p ∈ cl.peers.rows, p.id ∈ holders ∧ p.online = false ∧ p.id ≠ cl.selfId) →
    ∀ q ∈ cl.peers.rows, q.removed = false → (q.online = true ∨ q.id = cl.selfId) →
      q.id ∈ holders

/-- The members of `cl` under another live table. -/
def withRanges (cl : Cluster) (table : List RangeInfo) : Cluster := { cl with ranges := table }

/-- **Replica selection is a full rotation** over the members of `cl`, and takes online
members first, whatever the live table, the key, the room and the number of copies. -/
structure Rotates (cl : Cluster) : Prop where
  rotation : ∀ (table : List RangeInfo) (key : CString) (cap : Nat), key.length = 32 →
    (keptMembers cl).length ≤ cap →
      FullRotation (withRanges cl table) key (edbClusterHolders (withRanges cl table) key cap)
  passes : ∀ (table : List RangeInfo) (shardKey : CString → CString → CString)
    (partition keyspace : CString) (rf : Nat), (shardKey partition keyspace).length = 32 →
      OnlineFirst (withRanges cl table) rf
        (holderIds shardKey (withRanges cl table) partition keyspace rf)

/-- The row is of a member that is not removed and counts as online. -/
def PeerInfo.Counts (cl : Cluster) (p : PeerInfo) : Prop :=
  p.removed = false ∧ (p.online = true ∨ p.id = cl.selfId)

/-- At most `maxPeers` members are not removed. Of the rows behind the first `maxPeers`, which
`edb_cluster_peers` does not return, none is of a member that is online, the node itself apart,
unless all members are online. -/
structure Shown (cl : Cluster) : Prop where
  members : (keptMembers cl).length ≤ maxPeers
  flags : ∀ q ∈ cl.peers.rows.drop maxPeers, q.removed = false → q.online = true →
    q.id ≠ cl.selfId → ∀ p ∈ cl.peers.rows, p.removed = false → p.Counts cl

variable {shardKey} {cl : Cluster}

theorem mem_keptMembers {id : NodeId} :
    id ∈ keptMembers cl ↔ ∃ p ∈ cl.peers.rows, p.id = id ∧ p.removed = false := by
  unfold keptMembers
  constructor
  · intro h
    obtain ⟨p, hp, rfl⟩ := List.mem_map.mp h
    obtain ⟨hp, hkept⟩ := List.mem_filter.mp hp
    exact ⟨p, hp, rfl, by simpa using hkept⟩
  · rintro ⟨p, hp, rfl, hkept⟩
    exact List.mem_map_of_mem (List.mem_filter.mpr ⟨hp, by simpa using hkept⟩)

/-- The candidates are the members, sorted. -/
theorem perm_holderCandidates (hroom : (keptMembers cl).length ≤ maxPeers) :
    (holderCandidates cl).Perm (keptMembers cl) := by
  have htake : (cl.peers.rows.filter fun p => !p.removed).length ≤ maxPeers := by
    rwa [keptMembers, List.length_map] at hroom
  rw [holderCandidates, List.take_of_length_le htake]
  exact List.perm_insertionSort _ _

theorem sorted_holderCandidates (cl : Cluster) : (holderCandidates cl).Pairwise (· < ·) := by
  have hsorted : (holderCandidates cl).Pairwise (· ≤ ·) := List.pairwise_insertionSort _ _
  exact hsorted.imp₂ (fun _ _ hle hne => lt_of_le_of_ne hle hne) (nodup_holderCandidates cl)

/-- The owner of a key is in the slice that covers it. -/
theorem coveringSlice_of_owner {key : CString} {owner : NodeId}
    (h : edbClusterOwner cl key = some owner) :
    ∃ r, coveringSlice cl.ranges key = some r ∧ r.nodeId = owner := by
  unfold edbClusterOwner at h
  split at h
  · cases h
  · exact Option.map_eq_some_iff.mp h

/-! ## The circle -/

/-- With room for all members, the holders are the candidates from some place on. -/
theorem isRotated_edbClusterHolders {key : CString} {cap : Nat} (hkey : key.length = 32)
    (hcap : (holderCandidates cl).length ≤ cap) :
    holderCandidates cl ~r edbClusterHolders cl key cap := by
  unfold edbClusterHolders
  dsimp only
  rw [if_neg (not_not.mpr hkey), List.take_of_length_le]
  · exact ⟨_, rfl⟩
  · rw [List.length_rotate]
    exact hcap

/-- **The walk** visits every member once, from the owner on. -/
theorem fullRotation_edbClusterHolders (hroom : (keptMembers cl).length ≤ maxPeers)
    {key : CString} {cap : Nat} (hkey : key.length = 32)
    (hcap : (keptMembers cl).length ≤ cap) :
    FullRotation cl key (edbClusterHolders cl key cap) := by
  have hperm := perm_holderCandidates hroom
  have hrotated := isRotated_edbClusterHolders hkey (hperm.length_eq.trans_le hcap)
  constructor
  · exact nodup_edbClusterHolders cl key cap
  · intro id
    rw [← hrotated.mem_iff, hperm.mem_iff, mem_keptMembers]
  · exact ⟨_, sorted_holderCandidates cl, hrotated⟩
  · intro owner howner hmember
    obtain ⟨r, hslice, rfl⟩ := coveringSlice_of_owner howner
    have hmem : r.nodeId ∈ keptMembers cl := mem_keptMembers.mpr hmember
    have hpos : 0 < cap := (List.length_pos_of_mem hmem).trans_le hcap
    exact head?_edbClusterHolders hkey hslice (hperm.mem_iff.mpr hmem) hpos

/-! ## The two passes -/

/-- A prefix of two lists stays in the first, or takes all of it. -/
theorem take_append_cases {α : Type} (n : Nat) (l l' : List α) :
    (∀ x ∈ (l ++ l').take n, x ∈ l) ∨ ∀ x ∈ l, x ∈ (l ++ l').take n := by
  rw [List.take_append]
  by_cases hn : n ≤ l.length
  · left
    intro x hx
    rw [Nat.sub_eq_zero_of_le hn, List.take_zero, List.append_nil] at hx
    exact List.mem_of_mem_take hx
  · right
    intro x hx
    rw [List.take_of_length_le (by omega)]
    exact List.mem_append_left _ hx

/-- A member that the passes take for online is online. -/
theorem online_of_candidateOnline {p : PeerInfo} (hp : p ∈ cl.peers.rows)
    (h : candidateOnline cl p.id = true) : p.online = true ∨ p.id = cl.selfId := by
  rw [candidateOnline, edbClusterPeers, Bool.or_eq_true, decide_eq_true_iff, List.any_eq_true] at h
  rcases h with hself | ⟨q, hq, hon⟩
  · exact Or.inr hself
  · rw [Bool.and_eq_true, decide_eq_true_iff] at hon
    -- the ids are distinct, so it is the same row
    obtain rfl := List.inj_on_of_nodup_map cl.peers.nodup (List.mem_of_mem_take hq) hp hon.1
    exact Or.inl hon.2

/-- An online member with its row among the first `maxPeers` is taken for online. -/
theorem candidateOnline_of_mem_take {p : PeerInfo} (hp : p ∈ cl.peers.rows.take maxPeers)
    (hon : p.online = true ∨ p.id = cl.selfId) : candidateOnline cl p.id = true := by
  rw [candidateOnline, edbClusterPeers, Bool.or_eq_true, decide_eq_true_iff, List.any_eq_true]
  rcases hon with hon | hself
  · exact Or.inr ⟨p, hp, by simp [hon]⟩
  · exact Or.inl hself

/-- A row behind the first `maxPeers` is not read, so its member is taken for offline. -/
theorem not_candidateOnline_of_mem_drop {q : PeerInfo} (hq : q ∈ cl.peers.rows.drop maxPeers)
    (hself : q.id ≠ cl.selfId) : candidateOnline cl q.id = false := by
  rw [candidateOnline, edbClusterPeers, decide_eq_false hself, Bool.false_or, List.any_eq_false]
  intro p hp hon
  rw [Bool.and_eq_true, decide_eq_true_iff] at hon
  obtain rfl := List.inj_on_of_nodup_map cl.peers.nodup (List.mem_of_mem_take hp)
    (List.mem_of_mem_drop hq) hon.1
  have hnodup : (cl.peers.rows.take maxPeers ++ cl.peers.rows.drop maxPeers).Nodup := by
    rw [List.take_append_drop]
    exact cl.peers.nodup.of_map
  exact (List.disjoint_of_nodup_append hnodup) hp hq

/-- Where the flags are shown, the passes know every online member, unless all are. -/
theorem Shown.candidateOnline (h : Shown cl) {p q : PeerInfo} (hp : p ∈ cl.peers.rows)
    (hkept : p.removed = false) (hoff : ¬ p.Counts cl) (hq : q ∈ cl.peers.rows)
    (hcounts : q.Counts cl) : candidateOnline cl q.id = true := by
  rw [← List.take_append_drop maxPeers cl.peers.rows, List.mem_append] at hq
  rcases hq with hq | hq
  · exact candidateOnline_of_mem_take hq hcounts.2
  · rcases hcounts.2 with hon | hself
    · by_cases hself : q.id = cl.selfId
      · rw [EpsilonDB.candidateOnline, decide_eq_true hself, Bool.true_or]
      · exact absurd (h.flags q hq hcounts.1 hon hself p hp hkept) hoff
    · rw [EpsilonDB.candidateOnline, decide_eq_true hself, Bool.true_or]

/-- **The passes** take the online members of the circle before the others. -/
theorem onlineFirst_holderIds (h : Shown cl) {partition keyspace : CString}
    (hkey : (shardKey partition keyspace).length = 32) (rf : Nat) :
    OnlineFirst cl rf (holderIds shardKey cl partition keyspace rf) := by
  have hring := fullRotation_edbClusterHolders h.members hkey h.members
  unfold holderIds
  dsimp only
  set ring := edbClusterHolders cl (shardKey partition keyspace) maxPeers with hringdef
  have hperm : (ring.filter (candidateOnline cl) ++
      ring.filter fun id => !candidateOnline cl id).Perm ring := List.filter_append_perm ..
  constructor
  · exact (hperm.nodup_iff.mpr hring.once).sublist (List.take_sublist _ _)
  · intro id hid
    exact (hring.all id).mp (hperm.mem_iff.mp (List.mem_of_mem_take hid))
  · have hrotated : holderCandidates cl ~r ring := isRotated_edbClusterHolders hkey
      ((perm_holderCandidates h.members).length_eq.trans_le h.members)
    rw [List.length_take, hperm.length_eq, ← hrotated.perm.length_eq,
      (perm_holderCandidates h.members).length_eq]
  · rintro ⟨p, hp, hmem, hoff, hself⟩ q hq hkept hon
    have hcounts : ¬ p.Counts cl := by simp [PeerInfo.Counts, hoff, hself]
    have hoffline : candidateOnline cl p.id ≠ true := by
      intro htaken
      have honline := online_of_candidateOnline hp htaken
      simp [hoff, hself] at honline
    rcases take_append_cases rf (ring.filter (candidateOnline cl))
      (ring.filter fun id => !candidateOnline cl id) with hfirst | hall
    · -- only online candidates are taken
      exact absurd (List.mem_filter.mp (hfirst p.id hmem)).2 hoffline
    · obtain ⟨r, hr, hid, hkeptp⟩ := (hring.all p.id).mp (hperm.mem_iff.mp (List.mem_of_mem_take hmem))
      obtain rfl := List.inj_on_of_nodup_map cl.peers.nodup hr hp hid
      refine hall q.id (List.mem_filter.mpr ⟨?_, ?_⟩)
      · exact (hring.all q.id).mpr ⟨q, hq, rfl, hkept⟩
      · exact h.candidateOnline hp hkeptp hcounts hq ⟨hkept, hon⟩

/-! ## Tables that are not shown -/

/-- With more members than the array has room for, one is left out. -/
theorem Rotates.members (h : Rotates cl) : (keptMembers cl).length ≤ maxPeers := by
  have hall := (h.rotation [] lastKey _ (by decide) le_rfl).all
  have hsub : keptMembers cl ⊆ holderCandidates cl := fun id hid =>
    @mem_edbClusterHolders (withRanges cl []) _ _ _ ((hall id).mpr (mem_keptMembers.mp hid))
  have hnodup : (keptMembers cl).Nodup := cl.peers.nodup.sublist (List.filter_sublist.map _)
  refine (hnodup.subperm hsub).length_le.trans ?_
  rw [holderCandidates, List.length_insertionSort, List.length_map]
  exact List.length_take_le _ _

/-- The live table that gives all keys to one member. -/
def wholeRange (id : NodeId) : List RangeInfo := [⟨id, List.replicate 32 48, lastKey⟩]

/-- The circle starts at the member that has all keys. -/
theorem head?_wholeRange {p : PeerInfo} (hp : p ∈ cl.peers.rows) (hkept : p.removed = false)
    (hroom : (keptMembers cl).length ≤ maxPeers) :
    (edbClusterHolders (withRanges cl (wholeRange p.id)) lastKey maxPeers).head? = some p.id := by
  have hmember : p.id ∈ holderCandidates cl :=
    (perm_holderCandidates hroom).mem_iff.mpr (mem_keptMembers.mpr ⟨p, hp, rfl, hkept⟩)
  refine head?_edbClusterHolders (r := ⟨p.id, List.replicate 32 48, lastKey⟩) (by decide) ?_ hmember
    (by decide)
  show coveringSlice (wholeRange p.id) lastKey = _
  unfold coveringSlice wholeRange
  refine List.find?_cons_of_pos ?_
  show ((decide (List.replicate 32 48 ≤ lastKey)) &&
    (decide (lastKey < lastKey) || decide (lastKey = lastKey))) = true
  decide

/-- An online member whose row is not read comes behind one that is offline, where that one
has the key. -/
theorem Rotates.flags (h : Rotates cl) {q : PeerInfo} (hq : q ∈ cl.peers.rows.drop maxPeers)
    (hkept : q.removed = false) (hon : q.online = true) (hself : q.id ≠ cl.selfId)
    {p : PeerInfo} (hp : p ∈ cl.peers.rows) (hkeptp : p.removed = false) : p.Counts cl := by
  by_contra hcounts
  have hoff : p.online = false ∧ p.id ≠ cl.selfId := by simpa [PeerInfo.Counts, hkeptp] using hcounts
  set cl' := withRanges cl (wholeRange p.id) with hcl
  obtain ⟨rest, hring⟩ := List.head?_eq_some_iff.mp (head?_wholeRange hp hkeptp h.members)
  have hlast : candidateOnline cl' p.id = false := by
    by_contra htaken
    rw [Bool.not_eq_false] at htaken
    have honline := @online_of_candidateOnline cl' p hp htaken
    rcases honline with honline | hid
    · rw [hoff.1] at honline
      cases honline
    · exact hoff.2 hid
  set first := (edbClusterHolders cl' lastKey maxPeers).filter (candidateOnline cl') with hfirst
  -- one copy more than there are members taken for online goes to the member that has the key
  have hholders : holderIds (fun _ _ => lastKey) cl' [] [] (first.length + 1) = first ++ [p.id] := by
    unfold holderIds
    dsimp only
    rw [← hfirst, hring, List.filter_cons_of_pos (by simp [hlast]), List.take_append,
      List.take_of_length_le (Nat.le_succ _), Nat.add_sub_cancel_left]
    rfl
  have honly := h.passes (wholeRange p.id) (fun _ _ => lastKey) [] [] (first.length + 1) (by decide)
  rw [← hcl, hholders] at honly
  have hmem := honly.priority ⟨p, hp, List.mem_append_right _ (List.mem_singleton.mpr rfl), hoff⟩ q
    (List.mem_of_mem_drop hq) hkept (Or.inl hon)
  rcases List.mem_append.mp hmem with hmem | hmem
  · have htaken := (List.mem_filter.mp hmem).2
    rw [@not_candidateOnline_of_mem_drop cl' q hq hself] at htaken
    cases htaken
  · obtain rfl := List.inj_on_of_nodup_map cl.peers.nodup (List.mem_of_mem_drop hq) hp
      (List.mem_singleton.mp hmem)
    rw [hoff.1] at hon
    cases hon

/-- **Replica selection** is a full rotation, online members first, exactly where the table of
members is shown to it. -/
theorem rotates_iff_shown (cl : Cluster) : Rotates cl ↔ Shown cl := by
  constructor
  · exact fun h => ⟨h.members, fun q hq hkept hon hself p hp hkeptp =>
      h.flags hq hkept hon hself hp hkeptp⟩
  · intro h
    constructor
    · exact fun table key cap hkey hcap =>
        @fullRotation_edbClusterHolders (withRanges cl table) h.members key cap hkey hcap
    · exact fun table _ _ _ rf hkey =>
        @onlineFirst_holderIds _ (withRanges cl table) ⟨h.members, h.flags⟩ _ _ hkey rf

/-- A table with as many members as there is room for, as a node `a1` may have saved it. -/
def fullTable : Cluster where
  selfId := cstr "a1"
  selfAddr := cstr "10.0.0.1"
  selfPort := 7001
  peers := (List.range maxPeers).foldl
    (fun t i => t.add { id := [97 + .ofNat (i / 8), 97 + .ofNat (i % 8)] }) .empty

/-- The node that saved it starts again under another address, so under another id `b`. It gets
a row behind the others, and no key has it as a holder. -/
theorem restarted_leaves_one_out :
    ¬ Rotates (edbClusterRestart 5
      { selfId := cstr "b", selfAddr := cstr "10.0.0.2", selfPort := 7001 } fullTable) := by
  intro h
  have hroom := h.members
  revert hroom
  decide +kernel

end EpsilonDB
