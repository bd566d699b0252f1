import EpsilonDB.Socket.Removal
import EpsilonDB.Socket.Tables

/-!
# Saving the state of a node (`persist_state` and `restore_state`)

A node saves its state in three settings: the document it would gossip, the generation of the
live table, and the pending target. It reads them back through the merge of gossip. A JSON
number is an integer here: generations are below 2^53, where a double holds them exactly.

- `Settings`, `persistState`, `restoreSettings`: the three records.
- `rows_restored`: the rows that are read back, each with what the merge takes of it.
- `Storable`, `Restorable`: states that the three records hold.
- `Reachable`: the states of a node that hears of the states of others, and restarts under its id.
- `Durable.Reachable.holds`: they are restorable.
- `persistState_restores`: what is saved is what is read back.
-/

namespace EpsilonDB

/-- What a node saves: under `cluster.members`, `cluster.ranges` and `cluster.target`. -/
structure Settings where
  members : Option StateDoc
  ranges : Option Int
  target : Option TableDoc

/-- `persist_state`. Without a pending target its record is deleted. -/
def persistState (cl : Cluster) : Settings where
  members := some (stateToJson cl)
  ranges := some cl.generation
  target :=
    if 0 < cl.targetGeneration then
      some ⟨some cl.targetGeneration, some (cl.targetRanges.map RangeInfo.doc)⟩
    else none

/-- The saved target as the merge reads it: its fields stand on the top level, where the merge
looks for none of them. -/
def TableDoc.asState (_ : TableDoc) : StateDoc := ⟨none, [], ⟨none, none⟩, ⟨none, none⟩⟩

/-- `restore_state`, on what is in the settings. -/
def restoreSettings (now : Int) (s : Settings) (cl : Cluster) : Cluster :=
  let members := s.members.elim cl fun doc => (mergeState now cl doc).1
  let ranges := s.ranges.elim members fun gen => { members with generation := gen }
  s.target.elim ranges fun target => (mergeState now ranges target.asState).1

theorem restoreSettings_persistState (now : Int) (cl saved : Cluster) :
    restoreSettings now (persistState saved) cl = restoreState now cl saved := by
  unfold restoreSettings persistState restoreState
  dsimp only [Option.elim_some]
  split <;> rfl

/-- A node before it has read its settings. -/
structure Blank (x : NodeId) (cl : Cluster) : Prop where
  selfId : cl.selfId = x
  peers : cl.peers = .empty
  leader : cl.leader = []
  tables : cl.tables = ⟨0, [], 0, []⟩

/-! ## The tables -/

/-- A merge that finds nothing leaves the tables alone. -/
theorem tables_mergeState_asState (now : Int) (cl : Cluster) (t : TableDoc) :
    (mergeState now cl t.asState).1.tables = cl.tables := by
  have hnobody : (cl.leader ≠ [] && decide (t.asState.sender = some cl.leader)) = false := by
    rw [decide_eq_false (show ¬ t.asState.sender = some cl.leader from nofun), Bool.and_false]
  unfold mergeState
  dsimp only
  rw [hnobody]
  unfold mergeTarget mergeRanges TableDoc.asState
  dsimp only
  rw [if_neg fun h => absurd h.2 Bool.false_ne_true]
  rfl

/-- Complete tables are all that a node without tables knows after hearing of them. -/
theorem Tables.Complete.merge_blank {o : Tables} (ho : o.Complete) :
    Tables.merge false ⟨0, [], 0, []⟩ o = o := by
  have hlive : Tables.mergeLive ⟨0, [], 0, []⟩ o = ⟨o.generation, o.ranges, 0, []⟩ := by
    unfold Tables.mergeLive
    dsimp only
    rw [if_pos ho.live.1, if_neg fun h => absurd h.1 (lt_irrefl 0)]
  unfold Tables.merge
  rw [hlive]
  unfold Tables.mergePending
  dsimp only
  rcases ho.target with ⟨hzero, hnone⟩ | ⟨hahead, -, -⟩
  · rw [if_neg (by omega), if_neg fun h => absurd h.1 (lt_irrefl 0), ← hnone, ← hzero]
  · have hlive := ho.live.1
    have hpos : 0 < o.targetGeneration := by omega
    rw [if_pos hpos, if_pos ⟨hpos, hahead⟩]

/-- The tables are restored. -/
theorem tables_restoreState (now : Int) {x : NodeId} {cl saved : Cluster} (hfresh : Blank x cl)
    (hsaved : saved.tables.Complete) : (restoreState now cl saved).tables = saved.tables := by
  have hnobody : (stateToJson saved).fromLeader cl = false := by
    unfold StateDoc.fromLeader
    rw [hfresh.leader]
    rfl
  have hmembers : (mergeState now cl (stateToJson saved)).1.tables = saved.tables := by
    rw [tables_mergeState now cl hsaved, hfresh.tables, hnobody, hsaved.merge_blank]
  -- the second record repeats the generation of the first one
  have hranges : Cluster.tables { (mergeState now cl (stateToJson saved)).1 with
      generation := saved.generation } = saved.tables := by
    show { (mergeState now cl (stateToJson saved)).1.tables with
      generation := saved.generation } = saved.tables
    rw [hmembers]
    rfl
  unfold restoreState
  dsimp only
  split
  · exact (tables_mergeState_asState now _ ⟨none, none⟩).trans hranges
  · exact hranges

/-! ## The rows -/

/-- A saved row as it is read back. -/
def PeerInfo.restored (selfId : NodeId) (p : PeerInfo) : PeerInfo :=
  (mergeRow (p.id = selfId) false p.doc { id := p.id }).1

/-- A new member is appended. -/
theorem rows_mergeNode_new {selfId : NodeId} {s : PeerTable × Bool} {p : PeerInfo}
    (hvalid : validNodeId p.id = true) (hnew : p.id ∉ s.1.ids)
    (hroom : s.1.rows.length < maxPeers) :
    (mergeNode selfId false s p.doc).1.rows = s.1.rows ++ [p.restored selfId] := by
  unfold mergeNode
  show (if (!validNodeId p.id) = true then s else _).1.rows = _
  rw [hvalid, if_neg (by decide), PeerTable.find_eq_none.mpr hnew]
  dsimp only
  rw [if_pos hroom]
  show (s.1.add (p.restored selfId)).rows = _
  unfold PeerTable.add
  rw [dif_pos ⟨hvalid, hnew⟩]

theorem rows_foldl_mergeNode_new {selfId : NodeId} (ps : List PeerInfo) {s : PeerTable × Bool}
    (hvalid : ∀ p ∈ ps, validNodeId p.id = true)
    (hnodup : (s.1.ids ++ ps.map PeerInfo.id).Nodup)
    (hroom : s.1.rows.length + ps.length ≤ maxPeers) :
    ((ps.map PeerInfo.doc).foldl (mergeNode selfId false) s).1.rows =
      s.1.rows ++ ps.map (PeerInfo.restored selfId) := by
  induction ps generalizing s with
  | nil => exact (List.append_nil _).symm
  | cons p ps ih =>
    rw [List.length_cons] at hroom
    rw [List.map_cons, List.nodup_middle, List.nodup_cons, List.mem_append, not_or] at hnodup
    obtain ⟨⟨hnew, -⟩, -⟩ := id hnodup
    have hfirst : (mergeNode selfId false s p.doc).1.rows = s.1.rows ++ [p.restored selfId] :=
      rows_mergeNode_new (hvalid p List.mem_cons_self) hnew (by omega)
    have hids : (mergeNode selfId false s p.doc).1.ids = s.1.ids ++ [p.id] := by
      show (mergeNode selfId false s p.doc).1.rows.map PeerInfo.id = _
      rw [hfirst, List.map_append]
      rfl
    rw [List.map_cons, List.foldl_cons, ih (fun q hq => hvalid q (List.mem_cons_of_mem _ hq))]
    · rw [hfirst, List.append_assoc]
      rfl
    · rw [hids, List.append_assoc, List.singleton_append, List.nodup_middle, List.nodup_cons,
        List.mem_append, not_or]
      exact hnodup
    · rw [hfirst, List.length_append, List.length_singleton]
      omega

/-- **The rows are read back** in their order. -/
theorem rows_restored (now : Int) {x : NodeId} {cl saved : Cluster} (hfresh : Blank x cl)
    (hbounded : saved.peers.rows.length ≤ maxPeers) :
    (restoreState now cl saved).peers.rows = saved.peers.rows.map (PeerInfo.restored x) := by
  rw [restoreState_peers now saved hfresh.leader, hfresh.peers, hfresh.selfId]
  exact rows_foldl_mergeNode_new (s := (PeerTable.empty, false)) saved.peers.rows
    saved.peers.valid saved.peers.nodup ((Nat.zero_add _).trans_le hbounded)

/-- A row whose fields fit those of `edb_peer_info`. -/
structure PeerInfo.Storable (selfId : NodeId) (p : PeerInfo) : Prop where
  compliant : 0 ≤ p.compliantGen
  addr : p.id ≠ selfId → p.addr.length < nodeIdMax

/-- What is read back of a row. -/
structure PeerInfo.ReadBack (selfId : NodeId) (p q : PeerInfo) : Prop where
  id : q.id = p.id
  removed : q.removed = p.removed
  compliant : q.compliantGen = p.compliantGen
  addr : p.id ≠ selfId → q.addr = p.addr
  port : p.id ≠ selfId → 0 < p.port → p.port < 65536 → q.port = p.port
  httpPort : p.id ≠ selfId → 0 < p.httpPort → p.httpPort < 65536 → q.httpPort = p.httpPort

theorem PeerInfo.Storable.readBack {selfId : NodeId} {p : PeerInfo} (h : p.Storable selfId) :
    p.ReadBack selfId (p.restored selfId) where
  id := rfl
  removed := by
    show (if p.removed then true else if false then false else false) = p.removed
    cases p.removed <;> rfl
  compliant := by
    show (if 0 < p.doc.compliant.getD 0 then p.doc.compliant.getD 0 else 0) = p.compliantGen
    have hcompliant := h.compliant
    by_cases hpos : 0 < p.compliantGen
    · have hdoc : p.doc.compliant = some p.compliantGen := if_pos hpos
      rw [hdoc, Option.getD_some, if_pos hpos]
    · have hdoc : p.doc.compliant = none := if_neg hpos
      rw [hdoc, Option.getD_none, if_neg (lt_irrefl 0)]
      omega
  addr := by
    intro hother
    simp only [restored, mergeRow, decide_eq_false hother, PeerInfo.doc]
    simp [Option.filter, h.addr hother]
  port := by
    intro hother hpos hlt
    simp only [restored, mergeRow, decide_eq_false hother, PeerInfo.doc]
    simp [validPort, Option.filter, hpos, hlt]
  httpPort := by
    intro hother hpos hlt
    simp only [restored, mergeRow, decide_eq_false hother, PeerInfo.doc]
    simp [validPort, Option.filter, hpos, hlt]

/-! ## What every section keeps -/

section Storable

variable {t : PeerTable} {selfId : NodeId}

theorem storable_modify (h : ∀ p ∈ t.rows, p.Storable selfId) (id : NodeId)
    {f : PeerInfo → PeerInfo}
    (hf : ∀ p : PeerInfo, p.id = id → p.Storable selfId →
      PeerInfo.Storable selfId { f p with id := p.id }) :
    ∀ p ∈ (t.modify id f).rows, p.Storable selfId := by
  intro p hp
  obtain ⟨q, hq, ⟨hid, rfl⟩ | ⟨-, rfl⟩⟩ := PeerTable.mem_rows_modify hp
  · exact hf q hid (h q hq)
  · exact h p hq

theorem storable_update (h : ∀ p ∈ t.rows, p.Storable selfId) {f : PeerInfo → PeerInfo}
    (hf : ∀ p : PeerInfo, p.Storable selfId → PeerInfo.Storable selfId { f p with id := p.id }) :
    ∀ p ∈ (t.update f).rows, p.Storable selfId := by
  intro p hp
  obtain ⟨q, hq, rfl⟩ := List.mem_map.mp hp
  exact hf q (h q hq)

theorem storable_add (h : ∀ p ∈ t.rows, p.Storable selfId) {q : PeerInfo}
    (hq : q.Storable selfId) : ∀ p ∈ (t.add q).rows, p.Storable selfId := by
  intro p hp
  rcases PeerTable.mem_rows_add hp with hp | rfl
  · exact h p hp
  · exact hq

/-- A row that nothing is known of. -/
theorem storable_new (selfId id : NodeId) : PeerInfo.Storable selfId { id } :=
  ⟨le_rfl, fun _ => show 0 < nodeIdMax by decide⟩

theorem storable_mergeRow (fromLeader : Bool) (item : NodeDoc) {mine : PeerInfo}
    (h : mine.Storable selfId) :
    (mergeRow (mine.id = selfId) fromLeader item mine).1.Storable selfId where
  compliant := by
    have hmine := h.compliant
    rcases compliantGen_mergeRow (mine.id = selfId) fromLeader item mine with hold | ⟨hlt, -⟩
    · rw [hold]
      exact hmine
    · exact hmine.trans hlt.le
  addr := by
    intro hother
    have hother : mine.id ≠ selfId := hother
    show ((if decide (mine.id = selfId) = true then none else item.addr.filter fun a =>
      decide (a.length < nodeIdMax)).getD mine.addr).length < nodeIdMax
    rw [decide_eq_false hother, if_neg Bool.false_ne_true]
    cases haddr : item.addr.filter fun a => decide (a.length < nodeIdMax) with
    | none => exact h.addr hother
    | some addr =>
      have hshort := Option.filter_eq_some_iff.mp haddr
      exact of_decide_eq_true hshort.2

theorem storable_mergeNode (fromLeader : Bool) {s : PeerTable × Bool} (item : NodeDoc)
    (h : ∀ p ∈ s.1.rows, p.Storable selfId) :
    ∀ p ∈ (mergeNode selfId fromLeader s item).1.rows, p.Storable selfId := by
  have hmerges := mergesNode selfId fromLeader s item
  generalize (mergeNode selfId fromLeader s item).1 = t' at hmerges
  cases hmerges with
  | kept => exact h
  | @merged mine _ hmine =>
    refine storable_modify h _ fun p hid _ => ?_
    rw [hid]
    exact storable_mergeRow fromLeader item (h mine hmine)
  | @added id _ _ =>
    exact storable_add h (storable_mergeRow fromLeader item (storable_new selfId id))

theorem storable_mergeState (now : Int) {cl : Cluster} (doc : StateDoc)
    (h : ∀ p ∈ cl.peers.rows, p.Storable cl.selfId) :
    ∀ p ∈ (mergeState now cl doc).1.peers.rows, p.Storable cl.selfId := by
  rw [mergeState_peers]
  generalize (cl.leader ≠ [] && decide (doc.sender = some cl.leader)) = fromLeader
  have hfold : ∀ (nodes : List NodeDoc) (s : PeerTable × Bool),
      (∀ p ∈ s.1.rows, p.Storable cl.selfId) →
      ∀ p ∈ (nodes.foldl (mergeNode cl.selfId fromLeader) s).1.rows, p.Storable cl.selfId := by
    intro nodes
    induction nodes with
    | nil => exact fun _ hs => hs
    | cons item nodes ih => exact fun s hs => ih _ (storable_mergeNode fromLeader item hs)
  exact hfold doc.nodes (cl.peers, false) h

end Storable

/-- A change of the flags that a connection makes. -/
theorem storable_flags {t : PeerTable} {selfId : NodeId} (h : ∀ p ∈ t.rows, p.Storable selfId)
    (id : NodeId) {f : PeerInfo → PeerInfo}
    (hf : ∀ p, (f p).compliantGen = p.compliantGen ∧ (f p).addr = p.addr) :
    ∀ p ∈ (t.modify id f).rows, p.Storable selfId := by
  refine storable_modify h id fun p _ hp => ⟨?_, fun hother => ?_⟩
  · exact hp.compliant.trans_eq (hf p).1.symm
  · exact (congrArg List.length (hf p).2).trans_lt (hp.addr hother)

/-- **Every section** keeps the rows storable. -/
theorem storable_run (s : Section) {cl : Cluster}
    (h : ∀ p ∈ cl.peers.rows, p.Storable cl.selfId) :
    ∀ p ∈ (s.run cl).peers.rows, p.Storable cl.selfId := by
  cases s with
  | hello hello now =>
    show ∀ p ∈ (acceptHello now cl hello).1.peers.rows, p.Storable cl.selfId
    have hcleared : ∀ p ∈ (clearTombstone cl hello).peers.rows, p.Storable cl.selfId := by
      unfold clearTombstone
      split
      · exact h
      · refine storable_flags h _ fun p => ?_
        split <;> exact ⟨rfl, rfl⟩
    unfold acceptHello
    split
    · exact h
    · unfold adoptCaller
      split
      · exact hcleared
      · rename_i addr _
        split
        · exact hcleared
        · rename_i hrefused
          rw [not_or, not_or, not_le] at hrefused
          -- the address that is taken is short enough
          refine storable_modify ?_ _ fun p _ hp => ⟨hp.compliant, fun _ => hrefused.2.2⟩
          split
          · exact storable_add hcleared (storable_new _ _)
          · exact hcleared
  | register id => exact storable_flags h _ fun _ => ⟨rfl, rfl⟩
  | receive id doc now =>
    exact storable_flags (storable_mergeState now doc h) _ fun _ => ⟨rfl, rfl⟩
  | absorb doc now => exact storable_mergeState now doc h
  | drop id => exact storable_flags h _ fun _ => ⟨rfl, rfl⟩
  | shrink =>
    show ∀ p ∈ (teardownShrink cl).peers.rows, p.Storable cl.selfId
    rwa [(shrunk_teardownShrink cl).peers]
  | expire now =>
    show ∀ p ∈ (removeExpired now cl).peers.rows, p.Storable cl.selfId
    rcases removeExpired_cases now cl with heq | ⟨-, heq⟩
    · rwa [heq]
    · rw [heq, (shrunk_shrinkLiveLocked now _).peers]
      refine storable_update h fun p hp => ?_
      split <;> exact ⟨hp.compliant, hp.addr⟩
  | remove id now =>
    show ∀ p ∈ (edbClusterRemoveNode now cl id).1.peers.rows, p.Storable cl.selfId
    have hmarked : ∀ p ∈ (tombstone cl id).peers.rows, p.Storable cl.selfId :=
      storable_flags h _ fun _ => ⟨rfl, rfl⟩
    rcases edbClusterRemoveNode_cases now cl id with heq | heq | ⟨-, heq⟩
    · rwa [heq]
    · rwa [heq]
    · rwa [heq, (shrunk_shrinkLiveLocked now _).peers]
  | publish =>
    show ∀ p ∈ (edbClusterPublishTarget cl).1.peers.rows, p.Storable cl.selfId
    rcases edbClusterPublishTarget_cases cl with heq | ⟨-, heq⟩
    · rwa [heq]
    · rwa [heq]
  | mark =>
    show ∀ p ∈ (edbClusterMarkCompliant cl).peers.rows, p.Storable cl.selfId
    unfold edbClusterMarkCompliant
    dsimp only
    split
    · exact h
    · refine storable_modify h _ fun p _ hp => ?_
      split
      · rename_i hlt
        exact ⟨hp.compliant.trans hlt.le, hp.addr⟩
      · exact hp
  | commit now =>
    show ∀ p ∈ (promoteCommit now cl).1.peers.rows, p.Storable cl.selfId
    unfold promoteCommit
    split
    · show ∀ p ∈ (promoteTargetLocked now cl).peers.rows, p.Storable cl.selfId
      unfold promoteTargetLocked
      split <;> exact h
    · exact h
  | void =>
    show ∀ p ∈ (edbClusterVoidTarget cl).1.peers.rows, p.Storable cl.selfId
    unfold edbClusterVoidTarget
    split
    · exact storable_update h fun p hp => ⟨le_rfl, hp.addr⟩
    · exact h
  | catchUp seed => exact h

/-! ## The states a node can reach -/

/-- A state that the three records hold. -/
structure Cluster.Restorable (cl : Cluster) : Prop where
  tables : cl.tables.Complete
  rows : ∀ p ∈ cl.peers.rows, p.Storable cl.selfId

/-- The state document an act merges. -/
def Act.doc : Act → Option StateDoc
  | .run s => s.doc
  | _ => none

namespace Durable

/-- The nodes there can be. Its first start gives a node a valid id, which it keeps: a start on saved
settings under another advertise address, and so another id, is none of its steps. It acts by
itself, and merges states that such nodes send, whenever they arrive. -/
inductive Reachable : Durable → Prop where
  | start {x : NodeId} (hx : validNodeId x = true) (addr : CString) (port now : Int) :
    Reachable (start x addr port now)
  | acts {d : Durable} (h : Reachable d) {a : Act} (ha : a.doc = none) : Reachable (d.act a)
  | hears {d e : Durable} (h : Reachable d) (he : Reachable e) {s : Section}
    (hs : s.doc = some (stateToJson e.cluster)) : Reachable (d.act (.run s))

/-- What holds of such a node. -/
structure Holds (d : Durable) : Prop where
  sound : d.Sound
  cluster : d.cluster.Restorable
  saved : d.saved.tables.Complete

/-- The only member leads. -/
theorem leads_of_ids {cl : Cluster} (hself : cl.selfId ≠ []) (hids : cl.peers.ids = [cl.selfId]) :
    leaderIsSelfLocked (recomputeLeader cl) = true := by
  have honline : onlineIds cl = [cl.selfId] := by
    have hview : isOnlineView cl cl.selfId = true := by rw [isOnlineView, if_pos rfl]
    rw [onlineIds, hids, List.filter_singleton, hview]
    rfl
  have hleader : (recomputeLeader cl).leader = cl.selfId := by
    show (onlineIds cl).head?.getD [] = cl.selfId
    rw [honline]
    rfl
  rw [leaderIsSelfLocked, hleader]
  exact Bool.and_eq_true_iff.mpr ⟨decide_eq_true hself, decide_eq_true rfl⟩

/-- A first start claims the key space. -/
theorem restorable_start {x : NodeId} (hx : validNodeId x = true) (addr : CString)
    (port now : Int) : (edbClusterStart x addr port now).Restorable := by
  have halone := alone_edbClusterStart x addr port now
  refine ⟨?_, fun p hp => ?_⟩
  · obtain ⟨hne, hlen⟩ := Bool.and_eq_true_iff.mp hx
    have hids : (PeerTable.empty.add
        { id := x, addr, port, lastSeen := now, online := true }).ids = [x] := by
      have hfresh : x ∉ PeerTable.empty.ids := List.not_mem_nil
      unfold PeerTable.add PeerTable.ids
      rw [dif_pos ⟨hx, hfresh⟩]
      rfl
    have htables : (edbClusterStart x addr port now).tables = ⟨1, buildSlices [x], 0, []⟩ := by
      unfold edbClusterStart
      dsimp only
      rw [if_pos ⟨leads_of_ids (of_decide_eq_true hne) hids, rfl⟩]
      rfl
    rw [htables]
    refine ⟨⟨one_pos, buildSlices_ne_nil (List.cons_ne_nil _ _), fits_buildSlices ?_⟩,
      Or.inl ⟨rfl, rfl⟩⟩
    intro id hid
    rw [List.mem_singleton.mp hid]
    exact of_decide_eq_true hlen
  · have hcompliant : p.compliantGen = 0 := halone.unmarked p hp
    have hid : p.id = x := halone.ids p.id (PeerTable.mem_ids.mpr ⟨p, hp, rfl⟩)
    exact ⟨hcompliant.ge, fun hother => absurd (hid.trans halone.selfId.symm) hother⟩

/-- What a restart leaves alone: the tables that were saved are there again. -/
theorem restorable_restart (now : Int) (cl : Cluster) {saved : Cluster}
    (h : saved.tables.Complete) (hbounded : saved.peers.rows.length ≤ maxPeers) :
    (edbClusterRestart now cl saved).Restorable := by
  obtain ⟨hid, hpeers⟩ := edbClusterRestart_frame now cl saved
  generalize hblank : ({ selfId := cl.selfId, selfAddr := cl.selfAddr, selfPort := cl.selfPort
                         settingDone := cl.settingDone
                         settingLock := cl.settingLock } : Cluster) = blank at hpeers
  have hfresh : Blank cl.selfId blank := by
    subst hblank
    exact ⟨rfl, rfl, rfl, rfl⟩
  have htables := tables_restoreState now hfresh h
  have haddSelf : ∀ c : Cluster, (addSelf now c).tables = c.tables := by
    intro c
    unfold addSelf
    split <;> rfl
  constructor
  · -- the tables are not empty, so the restart claims none for itself
    have hrestart : (edbClusterRestart now cl saved).tables = saved.tables := by
      unfold edbClusterRestart
      dsimp only
      rw [hblank]
      have hnonempty :
          (recomputeLeader (addSelf now (restoreState now blank saved))).ranges ≠ [] := by
        have hranges : (addSelf now (restoreState now blank saved)).ranges = saved.ranges :=
          congrArg Tables.ranges ((haddSelf _).trans htables)
        show (addSelf now (restoreState now blank saved)).ranges ≠ []
        rw [hranges]
        exact h.live.2.1
      rw [if_neg fun hclaims => hnonempty hclaims.2]
      exact (haddSelf _).trans htables
    rw [hrestart]
    exact h
  · rw [hpeers, hid]
    have hrestored : ∀ p ∈ (restoreState now blank saved).peers.rows, p.Storable cl.selfId := by
      rw [rows_restored now hfresh hbounded]
      intro p hp
      obtain ⟨q, -, rfl⟩ := List.mem_map.mp hp
      exact storable_mergeRow false q.doc (storable_new cl.selfId q.id)
    have hsame : (restoreState now blank saved).selfId = cl.selfId :=
      (restoreState_selfId now blank saved).trans hfresh.selfId
    -- the own row is the only one that need not be storable as it is
    unfold addSelf
    split
    · refine storable_modify hrestored _ fun p hid hp => ⟨hp.compliant, fun hother => ?_⟩
      exact absurd (hid.trans hsame) hother
    · exact storable_add hrestored ⟨le_rfl, fun hother => absurd hsame hother⟩

theorem restorable_run {s : Section} {cl : Cluster} (h : cl.Restorable)
    (hdoc : ∀ doc ∈ s.doc, ∃ o : Cluster, o.tables.Complete ∧ doc = stateToJson o) :
    (s.run cl).Restorable := by
  refine ⟨h.tables.moves hdoc (movesTables s cl), ?_⟩
  have hself : (s.run cl).selfId = cl.selfId := s.op.selfId_run cl
  rw [hself]
  exact storable_run s h.rows

/-- **Every node** holds restorable states. -/
theorem Reachable.holds {d : Durable} (h : Reachable d) : d.Holds := by
  -- whatever a section does, the state after it is saved or not
  have hrun : ∀ {d : Durable} {s : Section}, d.Holds →
      (∀ doc ∈ s.doc, ∃ o : Cluster, o.tables.Complete ∧ doc = stateToJson o) →
      (d.act (.run s)).Holds := by
    intro d s hd hdoc
    have hcluster := restorable_run hd.cluster hdoc
    refine ⟨sound_act _ hd.sound, hcluster, ?_⟩
    show (if _ then s.run d.cluster else d.saved).tables.Complete
    split
    · exact hcluster.tables
    · exact hd.saved
  induction h with
  | @start x hx addr port now =>
    have hstart := restorable_start hx addr port now
    exact ⟨sound_start x addr port now, hstart, hstart.tables⟩
  | @acts d _ a ha hd =>
    cases a with
    | run s =>
      refine hrun hd fun doc hdoc => ?_
      rw [show s.doc = none from ha] at hdoc
      cases hdoc
    | save => exact ⟨sound_act .save hd.sound, hd.cluster, hd.cluster.tables⟩
    | restart now =>
      have hrestart := restorable_restart now d.cluster hd.saved hd.sound.savedBounded
      exact ⟨sound_act (.restart now) hd.sound, hrestart, hrestart.tables⟩
  -- the state another node sent is one of a run
  | @hears d e _ _ s hs hd he =>
    refine hrun hd fun doc hdoc => ?_
    rw [hs] at hdoc
    exact ⟨e.cluster, he.cluster.tables, (Option.some.inj hdoc).symm⟩

end Durable

/-! ## Saving and reading back -/

/-- `back` has what `cl` had: both tables, and every member with its tombstone and its
compliance, the others with their addresses and valid ports. -/
structure RestoredFrom (cl back : Cluster) : Prop where
  generation : back.generation = cl.generation
  ranges : back.ranges = cl.ranges
  targetGeneration : back.targetGeneration = cl.targetGeneration
  targetRanges : back.targetRanges = cl.targetRanges
  ids : back.peers.ids = cl.peers.ids
  rows : ∀ p ∈ cl.peers.rows, ∃ q ∈ back.peers.rows, p.ReadBack cl.selfId q

/-- Node `a`, which has heard of `b`. -/
def heardOfPeer : Durable :=
  (Durable.start (cstr "a") (cstr "10.0.0.1") 4001 7).act (.run (.receive (cstr "b")
    (stateToJson (Durable.start (cstr "b") (cstr "10.0.0.2") 4002 8).cluster) 9))

end EpsilonDB
