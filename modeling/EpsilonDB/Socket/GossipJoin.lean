import EpsilonDB.Lib.Joins
import EpsilonDB.Socket.Members
import EpsilonDB.Socket.Persistence
import Mathlib.Data.List.Dedup
import Mathlib.Data.List.Perm.Subperm

/-!
# Gossip is a join

What a node holds of its tables and members after some states have arrived depends on which
states arrived, and not on their order or on how often each one came.

- `PeerStanding`, `Heard`: what a node has heard: the newest live table, the newest target, and of
  each member the latest sign of life, the newest compliance, and whether it was removed.
- `Heard.tables`: the tables of such a node. A target that the live table has caught up with
  is over.
- `Heard.hear`: a state arrives. `joins_hear`: states commute.
- `Shows`: the node holds what it has heard. `shows_mergeState`: and so after a merge.
- `Gossiped`: states of other nodes that fit together and into the table.
- `mergeStates_join`: the order and the repetitions do not matter.
-/

namespace EpsilonDB

/-- What a row says of a member, beyond how to reach it. -/
structure PeerStanding where
  lastSeen : Int
  compliantGen : Int
  removed : Bool
deriving DecidableEq

def PeerInfo.standing (p : PeerInfo) : PeerStanding := ⟨p.lastSeen, p.compliantGen, p.removed⟩

def NodeDoc.standing (item : NodeDoc) : PeerStanding :=
  ⟨item.lastSeen.getD 0, item.compliant.getD 0, item.removed⟩

namespace PeerStanding

/-- Of both, the later and the more removed. A member that is new was never seen. -/
def hear (mine : Option PeerStanding) (heard : Option PeerStanding) : Option PeerStanding :=
  heard.elim mine fun s =>
    let m := mine.getD ⟨0, 0, false⟩
    some ⟨max m.lastSeen s.lastSeen, max m.compliantGen s.compliantGen, m.removed || s.removed⟩

/-- The standings join. -/
theorem joins_hear {δ : Type} (tells : δ → Option PeerStanding) (ds : Set δ) :
    Joins (fun s x => hear s (tells x)) ds where
  comm := by
    intro s x _ y _
    dsimp only [hear]
    cases tells x with
    | none => rfl
    | some sx =>
      cases tells y with
      | none => rfl
      | some sy =>
        simp only [Option.elim_some, Option.getD_some, Option.some.injEq, PeerStanding.mk.injEq]
        exact ⟨sup_right_comm _ _ _, sup_right_comm _ _ _, Bool.or_right_comm _ _ _⟩
  idem := by
    intro s x _
    dsimp only [hear]
    cases tells x with
    | none => rfl
    | some sx =>
      simp only [Option.elim_some, Option.getD_some, Option.some.injEq, PeerStanding.mk.injEq]
      refine ⟨?_, ?_, ?_⟩
      · rw [max_assoc, max_self]
      · rw [max_assoc, max_self]
      · rw [Bool.or_assoc, Bool.or_self]

end PeerStanding

/-- A table with its generation. -/
abbrev Numbered : Type := Int × List RangeInfo

/-- What a node has heard. -/
abbrev Heard : Type := (Numbered × Numbered) × (NodeId → Option PeerStanding)

namespace StateDoc

/-- A table of the document; generation 0 when there is none. -/
def numbered (doc : TableDoc) : Numbered :=
  (doc.generation.getD 0, (doc.assignments.getD []).filterMap AssignDoc.slice)

/-- What the document says of a member. -/
def tells (doc : StateDoc) (id : NodeId) : Option PeerStanding :=
  (doc.nodes.find? fun item => item.id = some id).map NodeDoc.standing

end StateDoc

namespace Heard

/-- The state `doc` arrives. -/
def hear (h : Heard) (doc : StateDoc) : Heard :=
  ((newer Prod.fst h.1.1 (StateDoc.numbered doc.ranges),
    newer Prod.fst h.1.2 (StateDoc.numbered doc.target)),
    fun id => PeerStanding.hear (h.2 id) (doc.tells id))

/-- The tables of a node that has heard this. -/
def tables (h : Heard) : Tables :=
  if h.1.1.1 < h.1.2.1 then ⟨h.1.1.1, h.1.1.2, h.1.2.1, h.1.2.2⟩ else ⟨h.1.1.1, h.1.1.2, 0, []⟩

/-- **States commute** where tables of one generation are equal. -/
theorem joins_hear {ds : Set StateDoc}
    (hlive : ∀ doc ∈ ds, ∀ doc' ∈ ds, (StateDoc.numbered doc.ranges).1 =
      (StateDoc.numbered doc'.ranges).1 →
      StateDoc.numbered doc.ranges = StateDoc.numbered doc'.ranges)
    (htarget : ∀ doc ∈ ds, ∀ doc' ∈ ds, (StateDoc.numbered doc.target).1 =
      (StateDoc.numbered doc'.target).1 →
      StateDoc.numbered doc.target = StateDoc.numbered doc'.target) : Joins hear ds := by
  have hlives : Joins (newer Prod.fst) ((fun doc => StateDoc.numbered doc.ranges) '' ds) := by
    refine joins_newer _ ?_
    rintro _ ⟨doc, hdoc, rfl⟩ _ ⟨doc', hdoc', rfl⟩
    exact hlive doc hdoc doc' hdoc'
  have htargets : Joins (newer Prod.fst) ((fun doc => StateDoc.numbered doc.target) '' ds) := by
    refine joins_newer _ ?_
    rintro _ ⟨doc, hdoc, rfl⟩ _ ⟨doc', hdoc', rfl⟩
    exact htarget doc hdoc doc' hdoc'
  exact (hlives.comap.prod htargets.comap).prod
    (Joins.pi fun id => PeerStanding.joins_hear (fun doc => doc.tells id) ds)

end Heard

/-! ## The tables -/

theorem numbered_ranges {o : Cluster} (ho : o.tables.Complete) :
    StateDoc.numbered (stateToJson o).ranges = (o.generation, o.ranges) :=
  congrArg (Prod.mk o.generation) (filterMap_slice ho.live.2.2)

theorem numbered_target {o : Cluster} (ho : o.tables.Complete) :
    StateDoc.numbered (stateToJson o).target = (o.targetGeneration, o.targetRanges) := by
  rcases ho.target with ⟨hzero, hnone⟩ | ⟨hahead, -, hfits⟩
  · have hdoc : (stateToJson o).target = ⟨none, none⟩ :=
      if_neg (show ¬ 0 < o.tables.targetGeneration by omega)
    rw [hdoc, show o.targetGeneration = 0 from hzero, show o.targetRanges = [] from hnone]
    rfl
  · have hlive := ho.live.1
    have hdoc : (stateToJson o).target =
        ⟨some o.targetGeneration, some (o.targetRanges.map RangeInfo.doc)⟩ :=
      if_pos (show 0 < o.tables.targetGeneration by omega)
    rw [hdoc]
    exact congrArg (Prod.mk o.targetGeneration) (filterMap_slice hfits)

namespace Heard

variable {live target : Numbered}

/-- The live table of `o` arrives. -/
theorem mergeLive_tables (hpos : 0 < live.1) (standings : NodeId → Option PeerStanding)
    (o : Tables) :
    (tables ((live, target), standings)).mergeLive o =
      tables ((newer Prod.fst live (o.generation, o.ranges), target), standings) := by
  -- the target stays as long as both live tables are behind it
  by_cases hahead : live.1 < target.1
  · by_cases hnewer : live.1 < o.generation
    · grind [tables, newer, Tables.mergeLive, Tables.settled]
    · grind [tables, newer, Tables.mergeLive, Tables.settled]
  · grind [tables, newer, Tables.mergeLive, Tables.settled]

/-- The target of `o` arrives, or that there is none, but not from the leader. -/
theorem mergePending_tables (hpos : 0 < live.1) (standings : NodeId → Option PeerStanding)
    {o : Tables} (ho : o.Complete) :
    (tables ((live, target), standings)).mergePending false o =
      tables ((live, newer Prod.fst target (o.targetGeneration, o.targetRanges)), standings) := by
  have hlive := ho.live.1
  rcases ho.target with ⟨hzero, -⟩ | ⟨hahead, -, -⟩
  · grind [tables, newer, Tables.mergePending, Tables.settled]
  · grind [tables, newer, Tables.mergePending, Tables.settled]

/-- **Hearing of complete tables** merges the tables. -/
theorem tables_hear {h : Heard} (hpos : 0 < h.1.1.1) {o : Cluster} (ho : o.tables.Complete) :
    (h.hear (stateToJson o)).tables = h.tables.merge false o.tables := by
  obtain ⟨⟨live, target⟩, standings⟩ := h
  have hnewer : 0 < (newer Prod.fst live (o.generation, o.ranges)).1 := by
    rw [key_newer Prod.fst live]
    exact hpos.trans_le (le_max_left _ _)
  have hmerged : (tables ((live, target), standings)).merge false o.tables =
      tables ((newer Prod.fst live (o.generation, o.ranges),
        newer Prod.fst target (o.targetGeneration, o.targetRanges)), standings) :=
    (congrArg (Tables.mergePending false · o.tables)
      (mergeLive_tables hpos standings o.tables)).trans (mergePending_tables hnewer standings ho)
  rw [hmerged]
  unfold hear
  rw [numbered_ranges ho, numbered_target ho]
  rfl

end Heard

/-! ## The rows -/

theorem standing_mergeRow (selfish : Bool) (item : NodeDoc) (mine : PeerInfo) :
    some (mergeRow selfish false item mine).1.standing =
      PeerStanding.hear (some mine.standing) (some item.standing) := by
  have hmax : ∀ a b : Int, (if a < b then b else a) = max a b := fun a b => (max_def_lt a b).symm
  show some (PeerStanding.mk (if mine.lastSeen < item.lastSeen.getD 0 then _ else _)
    (if mine.compliantGen < item.compliant.getD 0 then _ else _)
    (if item.removed then true else if false then false else mine.removed)) = _
  rw [hmax, hmax]
  show _ = some (PeerStanding.mk _ _ (mine.removed || item.removed))
  cases item.removed <;> cases mine.removed <;> rfl

theorem standing_doc {selfId : NodeId} {p : PeerInfo} (h : p.Storable selfId) :
    p.doc.standing = p.standing := by
  have hcompliant := h.compliant
  show PeerStanding.mk _ ((if 0 < p.compliantGen then some p.compliantGen else none).getD 0) _ = _
  by_cases hpos : 0 < p.compliantGen
  · rw [if_pos hpos]
    rfl
  · have hzero : p.compliantGen = 0 := by omega
    rw [if_neg hpos]
    show PeerStanding.mk p.lastSeen 0 p.removed = ⟨p.lastSeen, p.compliantGen, p.removed⟩
    rw [hzero]

/-- What is said of `id` in a table. -/
def PeerTable.standing (t : PeerTable) (id : NodeId) : Option PeerStanding :=
  (t.find id).map PeerInfo.standing

/-- The merge of one member is heard of that member. -/
theorem standing_mergeNode {selfId other : NodeId} {s : PeerTable × Bool} {p : PeerInfo}
    (hvalid : validNodeId p.id = true) (hp : p.Storable other)
    (hroom : p.id ∉ s.1.ids → s.1.rows.length < maxPeers) (id : NodeId) :
    (mergeNode selfId false s p.doc).1.standing id =
      if p.id = id then PeerStanding.hear (s.1.standing id) (some p.standing)
      else s.1.standing id := by
  unfold mergeNode PeerTable.standing
  show Option.map _ (PeerTable.find (if (!validNodeId p.id) = true then s else _).1 id) = _
  rw [hvalid, if_neg (by decide)]
  cases hfind : s.1.find p.id with
  | some mine =>
    -- the row is there, and hears of its member
    obtain ⟨-, hid⟩ := PeerTable.mem_rows_of_find hfind
    dsimp only
    rw [PeerTable.find_modify]
    by_cases heq : p.id = id
    · subst heq
      rw [if_pos rfl, hfind, Option.map_some, Option.map_some, Option.map_some, if_pos hid,
        ← standing_doc hp]
      exact standing_mergeRow _ _ _
    · rw [if_neg heq, Option.map_map]
      refine Option.map_congr fun q hq => ?_
      obtain ⟨-, rfl⟩ := PeerTable.mem_rows_of_find hq
      show PeerInfo.standing (if q.id = p.id then _ else q) = _
      rw [if_neg (Ne.symm heq)]
  | none =>
    -- a new row is as if it had heard of its member from nothing
    have hnew : p.id ∉ s.1.ids := PeerTable.find_eq_none.mp hfind
    dsimp only
    rw [if_pos (hroom hnew)]
    show ((s.1.add (p.restored selfId)).find id).map PeerInfo.standing = _
    rw [PeerTable.find_add_new (p := p.restored selfId) hvalid hnew]
    show Option.map _ (if p.id = id then _ else _) = _
    by_cases heq : p.id = id
    · subst heq
      rw [if_pos rfl, if_pos rfl, hfind, Option.map_some, Option.map_none, ← standing_doc hp]
      exact standing_mergeRow _ _ _
    · rw [if_neg heq, if_neg heq]

/-- The ids of a table stay within a set that fits. -/
theorem length_lt_of_new {t : PeerTable} {U : List NodeId} (hU : U.length ≤ maxPeers)
    (ht : ∀ id ∈ t.ids, id ∈ U) {id : NodeId} (hid : id ∈ U) (hnew : id ∉ t.ids) :
    t.rows.length < maxPeers := by
  have hsub : id :: t.ids ⊆ U := by
    intro x hx
    rcases List.mem_cons.mp hx with rfl | hx
    · exact hid
    · exact ht x hx
  have hlen := ((List.nodup_cons.mpr ⟨hnew, t.nodup⟩).subperm hsub).length_le
  rw [List.length_cons, PeerTable.ids, List.length_map] at hlen
  omega

/-- The merge of the members of a table is heard of each of them. -/
theorem standing_foldl_mergeNode {selfId other : NodeId} {U : List NodeId}
    (hU : U.length ≤ maxPeers) (ps : List PeerInfo) {s : PeerTable × Bool}
    (hvalid : ∀ p ∈ ps, validNodeId p.id = true) (hps : ∀ p ∈ ps, p.Storable other)
    (hnodup : (ps.map PeerInfo.id).Nodup) (hs : ∀ id ∈ s.1.ids, id ∈ U)
    (hids : ∀ p ∈ ps, p.id ∈ U) (id : NodeId) :
    ((ps.map PeerInfo.doc).foldl (mergeNode selfId false) s).1.standing id =
      PeerStanding.hear (s.1.standing id)
        ((ps.find? fun p => p.id = id).map PeerInfo.standing) := by
  induction ps generalizing s with
  | nil => rfl
  | cons p ps ih =>
    rw [List.map_cons, List.nodup_cons] at hnodup
    have hp := hids p List.mem_cons_self
    have hkept : ∀ x ∈ (mergeNode selfId false s p.doc).1.ids, x ∈ U := by
      intro x hx
      rcases ids_mergeNode hx with hx | hx
      · exact hs x hx
      · exact Option.some.inj hx ▸ hp
    have hfirst : (mergeNode selfId false s p.doc).1.standing id =
        if p.id = id then PeerStanding.hear (s.1.standing id) (some p.standing)
        else s.1.standing id :=
      standing_mergeNode (hvalid p List.mem_cons_self) (hps p List.mem_cons_self)
        (length_lt_of_new hU hs hp) id
    rw [List.map_cons, List.foldl_cons, ih (fun q hq => hvalid q (List.mem_cons_of_mem _ hq))
      (fun q hq => hps q (List.mem_cons_of_mem _ hq)) hnodup.2 hkept
      (fun q hq => hids q (List.mem_cons_of_mem _ hq)), hfirst]
    by_cases heq : p.id = id
    · -- no other row has this id
      have hnone : ps.find? (fun q => decide (q.id = id)) = none := by
        rw [List.find?_eq_none]
        intro q hq hqid
        exact hnodup.1 (List.mem_map.mpr ⟨q, hq, (of_decide_eq_true hqid).trans heq.symm⟩)
      have hfound : (p :: ps).find? (fun q => decide (q.id = id)) = some p :=
        List.find?_cons_of_pos (by simpa using heq)
      rw [if_pos heq, hnone, hfound]
      rfl
    · have hnext : (p :: ps).find? (fun q => decide (q.id = id)) =
          ps.find? fun q => decide (q.id = id) := List.find?_cons_of_neg (by simpa using heq)
      rw [if_neg heq, hnext]

theorem tells_stateToJson {o : Cluster} (ho : ∀ p ∈ o.peers.rows, p.Storable o.selfId)
    (id : NodeId) : (stateToJson o).tells id = o.peers.standing id := by
  have hid : ((fun item : NodeDoc => decide (item.id = some id)) ∘ PeerInfo.doc) =
      fun p => decide (p.id = id) := by
    funext p
    exact decide_eq_decide.mpr ⟨Option.some.inj, congrArg some⟩
  show ((o.peers.rows.map PeerInfo.doc).find? _).map NodeDoc.standing = (o.peers.find id).map _
  rw [List.find?_map, hid, Option.map_map]
  refine Option.map_congr fun p hp => ?_
  exact standing_doc (ho p (List.mem_of_find?_eq_some hp))

/-! ## States that arrive -/

/-- The node holds what it has heard. -/
structure Shows (cl : Cluster) (h : Heard) : Prop where
  tables : cl.tables = h.tables
  standings : cl.peers.standing = h.2
  live : 0 < h.1.1.1

/-- What a node holds is what it has heard first. -/
theorem shows_of_complete {cl : Cluster} (hcl : cl.tables.Complete) :
    Shows cl (((cl.generation, cl.ranges), (cl.targetGeneration, cl.targetRanges)),
      cl.peers.standing) := by
  refine ⟨?_, rfl, hcl.live.1⟩
  have hlive : 0 < cl.generation := hcl.live.1
  unfold Heard.tables
  dsimp only
  rcases hcl.target with ⟨hzero, hnone⟩ | ⟨hahead, -, -⟩
  · have hzero : cl.targetGeneration = 0 := hzero
    have hnone : cl.targetRanges = [] := hnone
    rw [if_neg (by omega), ← hnone, ← hzero]
    rfl
  · exact (if_pos hahead).symm

/-- **The merge of a state** that another node sent is heard. -/
theorem shows_mergeState (now : Int) {cl : Cluster} {h : Heard} (hshows : Shows cl h) {o : Cluster}
    (ho : o.Restorable) (hother : (stateToJson o).fromLeader cl = false) {U : List NodeId}
    (hU : U.length ≤ maxPeers) (hown : ∀ id ∈ cl.peers.ids, id ∈ U)
    (hids : ∀ id ∈ o.peers.ids, id ∈ U) :
    Shows (mergeState now cl (stateToJson o)).1 (h.hear (stateToJson o)) where
  tables := by
    rw [tables_mergeState now cl ho.tables, hother, hshows.tables,
      h.tables_hear hshows.live ho.tables]
  standings := by
    funext id
    have hother : (cl.leader ≠ [] && decide ((stateToJson o).sender = some cl.leader)) = false :=
      hother
    rw [mergeState_peers, hother]
    refine (standing_foldl_mergeNode hU o.peers.rows o.peers.valid ho.rows o.peers.nodup hown
      (fun p hp => hids p.id (PeerTable.mem_ids.mpr ⟨p, hp, rfl⟩)) id).trans ?_
    show PeerStanding.hear (cl.peers.standing id) (o.peers.standing id) =
      PeerStanding.hear (h.2 id) ((stateToJson o).tells id)
    rw [tells_stateToJson ho.rows, hshows.standings]
  live := by
    show 0 < (newer Prod.fst h.1.1 _).1
    rw [key_newer Prod.fst h.1.1]
    exact hshows.live.trans_le (le_max_left _ _)

theorem leader_mergeState (now : Int) (cl : Cluster) (doc : StateDoc) :
    (mergeState now cl doc).1.leader = cl.leader := by
  have hranges : ∀ c : Cluster, (mergeRanges now doc.ranges c).1.leader = c.leader := by
    intro c
    unfold mergeRanges
    split
    · rfl
    · dsimp only
      split <;> split <;> rfl
  have htarget : ∀ (b : Bool) (c : Cluster), (mergeTarget b doc.target c).1.leader = c.leader := by
    intro b c
    have hmerges := mergesTarget b doc.target c
    generalize (mergeTarget b doc.target c).1 = c' at hmerges
    cases hmerges <;> rfl
  unfold mergeState
  dsimp only
  rw [htarget, hranges]

/-- The ids of the members in a document. -/
def StateDoc.ids (doc : StateDoc) : List NodeId := doc.nodes.filterMap NodeDoc.id

/-- Documents that other nodes sent, none of them the leader of `cl`, where tables of one
generation are equal, and all ids fit the peer table. -/
structure Gossiped (cl : Cluster) (docs : List StateDoc) : Prop where
  sent : ∀ doc ∈ docs, ∃ d : Durable, d.Reachable ∧ doc = stateToJson d.cluster
  others : ∀ doc ∈ docs, doc.fromLeader cl = false
  live : ∀ doc ∈ docs, ∀ doc' ∈ docs,
    doc.ranges.generation = doc'.ranges.generation → doc.ranges = doc'.ranges
  target : ∀ doc ∈ docs, ∀ doc' ∈ docs,
    doc.target.generation = doc'.target.generation → doc.target = doc'.target
  fits : (cl.peers.ids ++ docs.flatMap StateDoc.ids).dedup.length ≤ maxPeers

/-- The documents of a list arrive one after the other, each at a time of its own. -/
def mergeStates (cl : Cluster) (docs : List (Int × StateDoc)) : Cluster :=
  docs.foldl (fun cl doc => (mergeState doc.1 cl doc.2).1) cl

/-- The live table and the target are the same, with their generations, and so is what the rows say
of every member. -/
structure SameState (cl cl' : Cluster) : Prop where
  generation : cl.generation = cl'.generation
  ranges : cl.ranges = cl'.ranges
  targetGeneration : cl.targetGeneration = cl'.targetGeneration
  targetRanges : cl.targetRanges = cl'.targetRanges
  standing : ∀ id, cl.peers.standing id = cl'.peers.standing id

theorem Shows.same {cl cl' : Cluster} {h : Heard} (hcl : Shows cl h) (hcl' : Shows cl' h) :
    SameState cl cl' := by
  have htables : cl.tables = cl'.tables := hcl.tables.trans hcl'.tables.symm
  exact ⟨congrArg Tables.generation htables, congrArg Tables.ranges htables,
    congrArg Tables.targetGeneration htables, congrArg Tables.targetRanges htables,
    congrFun (hcl.standings.trans hcl'.standings.symm)⟩

theorem ids_stateToJson (o : Cluster) : (stateToJson o).ids = o.peers.ids := by
  show (o.peers.rows.map PeerInfo.doc).filterMap NodeDoc.id = o.peers.rows.map PeerInfo.id
  rw [List.filterMap_map]
  exact (List.filterMap_eq_map' (f := PeerInfo.id)).symm ▸ rfl

/-- **Whatever of the documents arrives is heard.** -/
theorem shows_mergeStates {cl₀ : Cluster} {docs₀ : List StateDoc} (hg : Gossiped cl₀ docs₀)
    (docs : List (Int × StateDoc)) (hdocs : ∀ doc ∈ docs.map Prod.snd, doc ∈ docs₀) {cl : Cluster}
    {h : Heard} (hshows : Shows cl h) (hleader : cl.leader = cl₀.leader)
    (hown : ∀ id ∈ cl.peers.ids, id ∈ (cl₀.peers.ids ++ docs₀.flatMap StateDoc.ids).dedup) :
    Shows (mergeStates cl docs) ((docs.map Prod.snd).foldl Heard.hear h) := by
  induction docs generalizing cl h with
  | nil => exact hshows
  | cons doc docs ih =>
    obtain ⟨now, doc⟩ := doc
    have hmem : doc ∈ docs₀ := hdocs doc List.mem_cons_self
    have hother : doc.fromLeader cl = false := by
      rw [StateDoc.fromLeader, hleader]
      exact hg.others doc hmem
    have hids : ∀ id ∈ doc.ids, id ∈ (cl₀.peers.ids ++ docs₀.flatMap StateDoc.ids).dedup :=
      fun id hid => List.mem_dedup.mpr
        (List.mem_append_right _ (List.mem_flatMap.mpr ⟨doc, hmem, hid⟩))
    obtain ⟨d, hd, rfl⟩ := hg.sent doc hmem
    refine ih (fun x hx => hdocs x (List.mem_cons_of_mem _ hx)) ?_
      ((leader_mergeState now cl _).trans hleader) fun id hid => ?_
    · refine shows_mergeState now hshows hd.holds.cluster hother hg.fits hown ?_
      rwa [ids_stateToJson] at hids
    · rcases ids_mergeState hid with hid | ⟨item, hitem, heq⟩
      · exact hown id hid
      · exact hids id (List.mem_filterMap.mpr ⟨item, hitem, heq⟩)

/-- The documents commute. -/
theorem Gossiped.joins {cl : Cluster} {docs : List StateDoc} (hg : Gossiped cl docs) :
    Joins Heard.hear {doc | doc ∈ docs} := by
  refine Heard.joins_hear (fun doc hdoc doc' hdoc' heq => ?_) fun doc hdoc doc' hdoc' heq => ?_
  · obtain ⟨d, hd, rfl⟩ := hg.sent doc hdoc
    obtain ⟨d', hd', rfl⟩ := hg.sent doc' hdoc'
    exact congrArg StateDoc.numbered (hg.live _ hdoc _ hdoc' (congrArg some heq))
  · obtain ⟨d, hd, rfl⟩ := hg.sent doc hdoc
    obtain ⟨d', hd', rfl⟩ := hg.sent doc' hdoc'
    refine congrArg StateDoc.numbered (hg.target _ hdoc _ hdoc' ?_)
    rw [numbered_target hd.holds.cluster.tables, numbered_target hd'.holds.cluster.tables] at heq
    have hgen : d.cluster.targetGeneration = d'.cluster.targetGeneration := heq
    unfold stateToJson
    dsimp only
    rw [hgen]
    split <;> rfl

/-- **Gossip is a join**: however documents of other nodes arrive, in any order and with any
repetitions, the node ends with the same tables and the same standing of each member, and a
document that comes again changes none of it. -/
theorem mergeStates_join {d : Durable} (hd : d.Reachable) {docs docs' : List (Int × StateDoc)}
    (hg : Gossiped d.cluster (docs.map Prod.snd))
    (hsame : ∀ doc, doc ∈ docs.map Prod.snd ↔ doc ∈ docs'.map Prod.snd) :
    SameState (mergeStates d.cluster docs) (mergeStates d.cluster docs') ∧
      ∀ doc ∈ docs.map Prod.snd, ∀ now,
        SameState (mergeState now (mergeStates d.cluster docs) doc).1
          (mergeStates d.cluster docs) := by
  have hfirst := shows_of_complete hd.holds.cluster.tables
  have hown : ∀ id ∈ d.cluster.peers.ids,
      id ∈ (d.cluster.peers.ids ++ (docs.map Prod.snd).flatMap StateDoc.ids).dedup :=
    fun id hid => List.mem_dedup.mpr (List.mem_append_left _ hid)
  have hshows := shows_mergeStates hg docs (fun _ h => h) hfirst rfl hown
  constructor
  · have hshows' := shows_mergeStates hg docs' (fun doc => (hsame doc).mpr) hfirst rfl hown
    rw [← hg.joins.foldl_congr (fun _ h => h) hsame] at hshows'
    exact hshows.same hshows'
  · intro doc hdoc now
    have hagain := shows_mergeStates hg (docs ++ [(now, doc)]) ?_ hfirst rfl hown
    · have hmerged : mergeStates d.cluster (docs ++ [(now, doc)]) =
          (mergeState now (mergeStates d.cluster docs) doc).1 := List.foldl_append
      rw [hmerged, List.map_append, List.foldl_append] at hagain
      -- what was heard before is not news
      have hknown := hg.joins.foldl_of_mem (fun _ h => h) hdoc
      refine hagain.same ?_
      show Shows _ (Heard.hear ((docs.map Prod.snd).foldl Heard.hear _) doc)
      rw [hknown]
      exact hshows
    · intro x hx
      rw [List.map_append] at hx
      rcases List.mem_append.mp hx with hx | hx
      · exact hx
      · exact List.mem_singleton.mp hx ▸ hdoc

/-- Node `b` alone, and later, when it has let `c` in and published a target. -/
def peerAlone : Durable := .start (cstr "b") (cstr "10.0.0.2") 4002 8

def peerWithTarget : Durable :=
  ((peerAlone.act (.run (.hello ⟨some (cstr "c"), some (cstr "10.0.0.3"), some 4003, none, true⟩
    9))).act (.run (.register (cstr "c")))).act (.run .publish)

/-- Node `a` hears both states, in either order. -/
theorem mergeStates_join_peer :
    let cl := (Durable.start (cstr "a") (cstr "10.0.0.1") 4001 7).cluster
    let early := stateToJson peerAlone.cluster
    let late := stateToJson peerWithTarget.cluster
    SameState (mergeStates cl [(20, early), (21, late)])
        (mergeStates cl [(20, late), (22, early), (23, late)]) ∧
      ∀ doc ∈ [early, late], ∀ now,
        SameState (mergeState now (mergeStates cl [(20, early), (21, late)]) doc).1
          (mergeStates cl [(20, early), (21, late)]) := by
  have hearly : peerAlone.Reachable := .start (by decide) _ _ _
  have hlate : peerWithTarget.Reachable := .acts (.acts (.acts hearly rfl) rfl) rfl
  have hstart : (Durable.start (cstr "a") (cstr "10.0.0.1") 4001 7).Reachable :=
    .start (by decide) _ _ _
  have hgossiped : Gossiped (Durable.start (cstr "a") (cstr "10.0.0.1") 4001 7).cluster
      ([(20, stateToJson peerAlone.cluster), (21, stateToJson peerWithTarget.cluster)].map
        Prod.snd) := by
    refine ⟨fun doc hdoc => ?_, ?_, ?_, ?_, ?_⟩
    · rcases List.mem_pair.mp hdoc with rfl | rfl
      · exact ⟨_, hearly, rfl⟩
      · exact ⟨_, hlate, rfl⟩
    · decide +kernel
    · decide +kernel
    · decide +kernel
    · decide +kernel
  exact mergeStates_join hstart hgossiped (by simp)

end EpsilonDB
