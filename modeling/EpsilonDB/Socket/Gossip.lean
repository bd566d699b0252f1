import EpsilonDB.Socket.Cluster

/-!
# Gossip (`state_to_json` and `merge_state` in `socket/epsilon_cluster.c`)

A node tells the others its whole state, and merges what the others tell.

- `NodeDoc`, `AssignDoc`, `TableDoc`, `StateDoc`: a state document as the merge reads it,
  each field present only when it has the JSON type the code asks for.
- `stateToJson`: the document a node sends.
- `mergeRow`, `mergeNode`: the merge of one member, mostly by taking the greater value.
- `mergeRanges`, `mergeTarget`: a table with a greater generation replaces ours. A target
  ends when the live table catches up with it, or when the leader no longer has one.
- `mergeState`: the whole merge.
- `Fact`, `Cluster.knows`: what a state says about compliance and tables.
- `knows_mergeState`: a merge tells nothing that neither side knew.
-/

namespace EpsilonDB

/-- An element of `nodes`. -/
structure NodeDoc where
  id : Option CString
  addr : Option CString
  port : Option Int
  httpPort : Option Int
  lastSeen : Option Int
  compliant : Option Int
  removed : Bool
deriving DecidableEq

/-- An element of `assignments`. -/
structure AssignDoc where
  nodeId : Option CString
  start : Option CString
  stop : Option CString
deriving DecidableEq

/-- `ranges` or `target`; without a generation when the object is missing. -/
structure TableDoc where
  generation : Option Int
  assignments : Option (List AssignDoc)
deriving DecidableEq

/-- A state document. -/
structure StateDoc where
  sender : Option CString
  nodes : List NodeDoc
  ranges : TableDoc
  target : TableDoc
deriving DecidableEq

/-! ## Sending -/

def PeerInfo.doc (p : PeerInfo) : NodeDoc where
  id := some p.id
  addr := some p.addr
  port := some p.port
  httpPort := if 0 < p.httpPort then some p.httpPort else none
  lastSeen := some p.lastSeen
  compliant := if 0 < p.compliantGen then some p.compliantGen else none
  removed := p.removed

def RangeInfo.doc (r : RangeInfo) : AssignDoc := ⟨some r.nodeId, some r.start, some r.stop⟩

/-- `state_to_json`. -/
def stateToJson (cl : Cluster) : StateDoc where
  sender := some cl.selfId
  nodes := cl.peers.rows.map PeerInfo.doc
  ranges := ⟨some cl.generation, some (cl.ranges.map RangeInfo.doc)⟩
  target :=
    if 0 < cl.targetGeneration then
      ⟨some cl.targetGeneration, some (cl.targetRanges.map RangeInfo.doc)⟩
    else ⟨none, none⟩

/-! ## Merging the members -/

/-- A port the merge takes. -/
def validPort (p : Option Int) : Option Int := p.filter fun p => 0 < p && p < 65536

/-- Merge a member into our row of it, and tell whether that changed the row. Our own
address and ports are never overwritten. -/
def mergeRow (selfish fromLeader : Bool) (item : NodeDoc) (mine : PeerInfo) : PeerInfo × Bool :=
  let addr := if selfish then none else item.addr.filter fun a => a.length < nodeIdMax
  let port := if selfish then none else validPort item.port
  let httpPort := if selfish then none else validPort item.httpPort
  let seen := item.lastSeen.getD 0
  let compliant := item.compliant.getD 0
  -- removal is sticky, only the leader clears it
  let removed := if item.removed then true else if fromLeader then false else mine.removed
  ({ mine with
      addr := addr.getD mine.addr
      port := port.getD mine.port
      httpPort := httpPort.getD mine.httpPort
      lastSeen := if mine.lastSeen < seen then seen else mine.lastSeen
      compliantGen := if mine.compliantGen < compliant then compliant else mine.compliantGen
      removed },
    addr.any (fun a => a ≠ mine.addr) || httpPort.any (fun p => p ≠ mine.httpPort) ||
      decide (mine.lastSeen < seen) || decide (mine.compliantGen < compliant) ||
      decide (removed ≠ mine.removed))

/-- Merge one element of `nodes`. An unknown member gets a row while there is room. -/
def mergeNode (selfId : NodeId) (fromLeader : Bool) (s : PeerTable × Bool) (item : NodeDoc) :
    PeerTable × Bool :=
  match item.id with
  | none => s
  | some id =>
    if !validNodeId id then s
    else
      match s.1.find id with
      | some mine =>
        let merged := mergeRow (id = selfId) fromLeader item mine
        (s.1.modify id fun _ => merged.1, s.2 || merged.2)
      | none =>
        if s.1.rows.length < maxPeers then
          (s.1.add (mergeRow (id = selfId) fromLeader item { id }).1, true)
        else s

/-! ## Merging the tables -/

/-- The slice of a well-formed assignment: `"%.63s"` and `"%.32s"`. -/
def AssignDoc.slice (a : AssignDoc) : Option RangeInfo :=
  match a.nodeId, a.start, a.stop with
  | some nodeId, some start, some stop =>
    some { nodeId := snprintf 64 nodeId, start := snprintf 33 start, stop := snprintf 33 stop }
  | _, _, _ => none

/-- The live table: a greater generation replaces ours, and ends a target up to it. -/
def mergeRanges (now : Int) (doc : TableDoc) (cl : Cluster) : Cluster × Bool :=
  match doc.generation with
  | none => (cl, false)
  | some gen =>
    let assigns := if cl.generation < gen then doc.assignments else none
    let cl' := match assigns with
      | none => cl
      | some assigns =>
        { cl with
          ranges := assigns.filterMap AssignDoc.slice, generation := gen
          gcAfter := now + offlineAfterSeconds }
    if 0 < cl.targetGeneration ∧ cl.targetGeneration ≤ gen then
      ({ cl' with targetGeneration := 0, targetRanges := [] }, true)
    else (cl', assigns.isSome)

/-- The pending target. The slices of a table with a malformed assignment are written over
ours before the table is refused. -/
def mergeTarget (fromLeader : Bool) (doc : TableDoc) (cl : Cluster) : Cluster × Bool :=
  match doc.generation with
  | some tgen =>
    if cl.targetGeneration < tgen ∧ cl.generation < tgen then
      match doc.assignments with
      | none => (cl, false)
      | some assigns =>
        let slices := assigns.filterMap AssignDoc.slice
        if assigns = [] then (cl, false)
        else if slices.length = assigns.length then
          ({ cl with targetRanges := slices, targetGeneration := tgen }, true)
        else
          ({ cl with
              targetRanges := slices.take cl.targetRanges.length ++
                cl.targetRanges.drop slices.length }, false)
    else (cl, false)
  | none =>
    if 0 < cl.targetGeneration ∧ fromLeader = true then
      ({ cl with targetGeneration := 0, targetRanges := [] }, true)
    else (cl, false)

/-- `merge_state`. -/
def mergeState (now : Int) (cl : Cluster) (doc : StateDoc) : Cluster × Bool :=
  let fromLeader := cl.leader ≠ [] && doc.sender = some cl.leader
  let nodes := doc.nodes.foldl (mergeNode cl.selfId fromLeader) (cl.peers, false)
  let live := mergeRanges now doc.ranges { cl with peers := nodes.1 }
  let target := mergeTarget fromLeader doc.target live.1
  (target.1, nodes.2 || live.2 || target.2)

/-! ## What a state says -/

/-- Something a state says. -/
inductive Fact where
  | compliant (id : NodeId) (gen : Int)
  | target (gen : Int) (table : List RangeInfo)
  | live (gen : Int) (table : List RangeInfo)

/-- The node's row of a member or its stored flag says the member is compliant with `gen`;
its pending target; its live table. -/
def Cluster.knows (cl : Cluster) : Fact → Prop
  | .compliant id gen =>
    (∃ p ∈ cl.peers.rows, p.id = id ∧ 0 < p.compliantGen ∧ p.compliantGen = gen) ∨
      cl.settingDone id = some gen
  | .target gen table => 0 < gen ∧ cl.targetGeneration = gen ∧ cl.targetRanges = table
  | .live gen table => cl.generation = gen ∧ cl.ranges = table

/-- A slice whose fields fit the arrays of `edb_range_info`. -/
def RangeInfo.Fits (r : RangeInfo) : Prop :=
  r.nodeId.length < nodeIdMax ∧ r.start.length ≤ 32 ∧ r.stop.length ≤ 32

/-- The tables of a fact fit. -/
def Fact.Fits : Fact → Prop
  | .compliant _ _ => True
  | .target _ table => (∀ r ∈ table, r.Fits) ∧ table.length ≤ maxPeers
  | .live _ table => (∀ r ∈ table, r.Fits) ∧ table.length ≤ maxPeers

theorem slice_doc {r : RangeInfo} (h : r.Fits) : r.doc.slice = some r := by
  obtain ⟨hid, hstart, hstop⟩ := h
  have hid : r.nodeId.length < 64 := hid
  show some (RangeInfo.mk (snprintf 64 r.nodeId) (snprintf 33 r.start) (snprintf 33 r.stop)) = _
  rw [snprintf_of_lt hid, snprintf_of_lt (Nat.lt_succ_of_le hstart),
    snprintf_of_lt (Nat.lt_succ_of_le hstop)]

/-- A table that fits arrives as it was sent. -/
theorem filterMap_slice {table : List RangeInfo} (h : ∀ r ∈ table, r.Fits) :
    (table.map RangeInfo.doc).filterMap AssignDoc.slice = table := by
  rw [List.filterMap_map]
  have hsome : table.filterMap (AssignDoc.slice ∘ RangeInfo.doc) = table.filterMap some :=
    List.filterMap_congr fun r hr => slice_doc (h r hr)
  rw [hsome, List.filterMap_some]

/-! ### The merge of the members -/

theorem compliantGen_mergeRow (selfish fromLeader : Bool) (item : NodeDoc) (mine : PeerInfo) :
    (mergeRow selfish fromLeader item mine).1.compliantGen = mine.compliantGen ∨
      mine.compliantGen < (mergeRow selfish fromLeader item mine).1.compliantGen ∧
        (mergeRow selfish fromLeader item mine).1.compliantGen = item.compliant.getD 0 := by
  show (if mine.compliantGen < item.compliant.getD 0 then _ else _) = _ ∨ _
  by_cases h : mine.compliantGen < item.compliant.getD 0
  · right
    unfold mergeRow
    dsimp only
    rw [if_pos h]
    exact ⟨h, rfl⟩
  · rw [if_neg h]
    exact Or.inl rfl

/-- What the merge of one member can do to the table. -/
inductive MergesNode (selfId : NodeId) (fromLeader : Bool) (t : PeerTable) (item : NodeDoc) :
    PeerTable → Prop where
  | kept : MergesNode selfId fromLeader t item t
  | merged {mine : PeerInfo} (hitem : item.id = some mine.id) (hmine : mine ∈ t.rows) :
    MergesNode selfId fromLeader t item
      (t.modify mine.id fun _ => (mergeRow (mine.id = selfId) fromLeader item mine).1)
  | added {id : NodeId} (hitem : item.id = some id) (hroom : t.rows.length < maxPeers) :
    MergesNode selfId fromLeader t item
      (t.add (mergeRow (id = selfId) fromLeader item { id }).1)

theorem mergesNode (selfId : NodeId) (fromLeader : Bool) (s : PeerTable × Bool)
    (item : NodeDoc) :
    MergesNode selfId fromLeader s.1 item (mergeNode selfId fromLeader s item).1 := by
  unfold mergeNode
  cases hitem : item.id with
  | none => exact .kept
  | some id =>
    dsimp only
    split
    · exact .kept
    · cases hfind : s.1.find id with
      | some mine =>
        obtain ⟨hmine, rfl⟩ := PeerTable.mem_rows_of_find hfind
        exact .merged hitem hmine
      | none =>
        dsimp only
        split
        · rename_i hroom
          exact .added hitem hroom
        · exact .kept

/-- The compliance of a merged row is the old one, or that of the member. -/
theorem compliant_of_mergeRow (selfish fromLeader : Bool) {item : NodeDoc} {mine : PeerInfo}
    (hpos : 0 < (mergeRow selfish fromLeader item mine).1.compliantGen) :
    (mergeRow selfish fromLeader item mine).1.compliantGen = mine.compliantGen ∨
      item.compliant = some (mergeRow selfish fromLeader item mine).1.compliantGen := by
  rcases compliantGen_mergeRow selfish fromLeader item mine with hold | ⟨-, hnew⟩
  · exact Or.inl hold
  · right
    rw [hnew] at hpos ⊢
    cases hc : item.compliant with
    | some c => rfl
    | none =>
      rw [hc] at hpos
      exact absurd hpos (lt_irrefl 0)

/-- A row after the merge of one member is an old row, or has the compliance of an old row
or of the member. -/
theorem mem_rows_mergeNode {selfId : NodeId} {fromLeader : Bool} {s : PeerTable × Bool}
    {item : NodeDoc} {p : PeerInfo} (hp : p ∈ (mergeNode selfId fromLeader s item).1.rows)
    (hpos : 0 < p.compliantGen) :
    (∃ q ∈ s.1.rows, q.id = p.id ∧ q.compliantGen = p.compliantGen) ∨
      item.id = some p.id ∧ item.compliant = some p.compliantGen := by
  have hmerges := mergesNode selfId fromLeader s item
  generalize (mergeNode selfId fromLeader s item).1 = t at hmerges hp
  cases hmerges with
  | kept => exact Or.inl ⟨p, hp, rfl, rfl⟩
  | @merged mine hitem hmine =>
    obtain ⟨q, hq, ⟨hqid, rfl⟩ | ⟨-, rfl⟩⟩ := PeerTable.mem_rows_modify hp
    · rcases compliant_of_mergeRow (mine.id = selfId) fromLeader hpos with hold | hnew
      · exact Or.inl ⟨mine, hmine, hqid.symm, hold.symm⟩
      · exact Or.inr ⟨hitem.trans (congrArg some hqid.symm), hnew⟩
    · exact Or.inl ⟨p, hq, rfl, rfl⟩
  | @added id hitem _ =>
    rcases PeerTable.mem_rows_add hp with hp | rfl
    · exact Or.inl ⟨p, hp, rfl, rfl⟩
    · rcases compliant_of_mergeRow (id = selfId) fromLeader hpos with hold | hnew
      · -- a fresh row has complied with nothing
        rw [hold] at hpos
        exact absurd hpos (lt_irrefl 0)
      · exact Or.inr ⟨hitem, hnew⟩

/-- The same for all members. -/
theorem mem_rows_foldl_mergeNode {selfId : NodeId} {fromLeader : Bool} (nodes : List NodeDoc)
    {s : PeerTable × Bool} {p : PeerInfo}
    (hp : p ∈ (nodes.foldl (mergeNode selfId fromLeader) s).1.rows) (hpos : 0 < p.compliantGen) :
    (∃ q ∈ s.1.rows, q.id = p.id ∧ q.compliantGen = p.compliantGen) ∨
      ∃ item ∈ nodes, item.id = some p.id ∧ item.compliant = some p.compliantGen := by
  induction nodes generalizing s with
  | nil => exact Or.inl ⟨p, hp, rfl, rfl⟩
  | cons item nodes ih =>
    rcases ih hp with ⟨q, hq, hid, hgen⟩ | ⟨item', hitem', h⟩
    · rcases mem_rows_mergeNode hq (by rwa [hgen]) with ⟨q', hq', hid', hgen'⟩ | hnew
      · exact Or.inl ⟨q', hq', hid'.trans hid, hgen'.trans hgen⟩
      · rw [hid, hgen] at hnew
        exact Or.inr ⟨item, List.mem_cons_self, hnew⟩
    · exact Or.inr ⟨item', List.mem_cons_of_mem _ hitem', h⟩

theorem length_rows_mergeNode {selfId : NodeId} {fromLeader : Bool} {s : PeerTable × Bool}
    (item : NodeDoc) (h : s.1.rows.length ≤ maxPeers) :
    (mergeNode selfId fromLeader s item).1.rows.length ≤ maxPeers := by
  have hmerges := mergesNode selfId fromLeader s item
  generalize (mergeNode selfId fromLeader s item).1 = t at hmerges
  cases hmerges with
  | kept => exact h
  | merged _ _ => exact (PeerTable.length_modify _ _ _).trans_le h
  | added _ hroom => exact (PeerTable.length_add_le _ _).trans hroom

theorem length_rows_foldl_mergeNode {selfId : NodeId} {fromLeader : Bool} (nodes : List NodeDoc)
    {s : PeerTable × Bool} (h : s.1.rows.length ≤ maxPeers) :
    (nodes.foldl (mergeNode selfId fromLeader) s).1.rows.length ≤ maxPeers := by
  induction nodes generalizing s with
  | nil => exact h
  | cons item nodes ih => exact ih (length_rows_mergeNode item h)

/-! ### The merge of the tables -/

/-- What the merge of a live table does: a table with a greater generation replaces ours, and
any generation ends a target up to it. -/
structure MergesRanges (doc : TableDoc) (cl cl' : Cluster) : Prop where
  live : (∃ gen assigns, doc = ⟨some gen, some assigns⟩ ∧ cl.generation < gen ∧
      cl'.generation = gen ∧ cl'.ranges = assigns.filterMap AssignDoc.slice) ∨
    ((∀ gen assigns, doc = ⟨some gen, some assigns⟩ → gen ≤ cl.generation) ∧
      cl'.generation = cl.generation ∧ cl'.ranges = cl.ranges)
  target : cl'.targetGeneration = 0 ∨
    ((∀ gen ∈ doc.generation, 0 < cl.targetGeneration → gen < cl.targetGeneration) ∧
      cl'.targetGeneration = cl.targetGeneration ∧ cl'.targetRanges = cl.targetRanges)
  selfId : cl'.selfId = cl.selfId
  peers : cl'.peers = cl.peers
  settingDone : cl'.settingDone = cl.settingDone

theorem mergesRanges (now : Int) (doc : TableDoc) (cl : Cluster) :
    MergesRanges doc cl (mergeRanges now doc cl).1 := by
  obtain ⟨generation, assignments⟩ := doc
  cases generation with
  | none => exact ⟨Or.inr ⟨nofun, rfl, rfl⟩, Or.inr ⟨nofun, rfl, rfl⟩, rfl, rfl, rfl⟩
  | some gen =>
    -- a target that stays is ahead of the generation
    have hahead : ¬ (0 < cl.targetGeneration ∧ cl.targetGeneration ≤ gen) →
        ∀ g ∈ some gen, 0 < cl.targetGeneration → g < cl.targetGeneration := by
      intro hno g hg hpos
      obtain rfl := Option.some.inj hg
      exact not_le.mp fun hle => hno ⟨hpos, hle⟩
    unfold mergeRanges
    dsimp only
    by_cases hgen : cl.generation < gen
    · rw [if_pos hgen]
      cases assignments with
      | none =>
        dsimp only
        split
        · exact ⟨Or.inr ⟨nofun, rfl, rfl⟩, Or.inl rfl, rfl, rfl, rfl⟩
        · rename_i hno
          exact ⟨Or.inr ⟨nofun, rfl, rfl⟩, Or.inr ⟨hahead hno, rfl, rfl⟩, rfl, rfl, rfl⟩
      | some assigns =>
        dsimp only
        split
        · exact ⟨Or.inl ⟨gen, assigns, rfl, hgen, rfl, rfl⟩, Or.inl rfl, rfl, rfl, rfl⟩
        · rename_i hno
          exact ⟨Or.inl ⟨gen, assigns, rfl, hgen, rfl, rfl⟩, Or.inr ⟨hahead hno, rfl, rfl⟩,
            rfl, rfl, rfl⟩
    · rw [if_neg hgen]
      have hold : ∀ g assigns, (⟨some gen, assignments⟩ : TableDoc) = ⟨some g, some assigns⟩ →
          g ≤ cl.generation := by
        intro g assigns heq
        obtain rfl := Option.some.inj (congrArg TableDoc.generation heq)
        exact not_lt.mp hgen
      dsimp only
      split
      · exact ⟨Or.inr ⟨hold, rfl, rfl⟩, Or.inl rfl, rfl, rfl, rfl⟩
      · rename_i hno
        exact ⟨Or.inr ⟨hold, rfl, rfl⟩, Or.inr ⟨hahead hno, rfl, rfl⟩, rfl, rfl, rfl⟩

/-- What the merge of a target can do. -/
inductive MergesTarget (doc : TableDoc) (cl : Cluster) : Cluster → Prop where
  | kept : MergesTarget doc cl cl
  | ended : MergesTarget doc cl { cl with targetGeneration := 0, targetRanges := [] }
  | replaced {gen : Int} {assigns : List AssignDoc} (hdoc : doc = ⟨some gen, some assigns⟩)
    (hnewer : cl.targetGeneration < gen ∧ cl.generation < gen) :
    MergesTarget doc cl
      { cl with targetRanges := assigns.filterMap AssignDoc.slice, targetGeneration := gen }
  | overwritten {assigns : List AssignDoc} {table : List RangeInfo}
    (hdoc : doc.assignments = some assigns)
    (hmalformed : (assigns.filterMap AssignDoc.slice).length ≠ assigns.length) :
    MergesTarget doc cl { cl with targetRanges := table }

theorem mergesTarget (fromLeader : Bool) (doc : TableDoc) (cl : Cluster) :
    MergesTarget doc cl (mergeTarget fromLeader doc cl).1 := by
  obtain ⟨generation, assignments⟩ := doc
  unfold mergeTarget
  cases generation with
  | none =>
    dsimp only
    split
    · exact .ended
    · exact .kept
  | some tgen =>
    dsimp only
    split
    · rename_i hnewer
      cases assignments with
      | none => exact .kept
      | some assigns =>
        dsimp only
        split
        · exact .kept
        · split
          · exact .replaced rfl hnewer
          · rename_i hmalformed
            exact .overwritten rfl hmalformed
    · exact .kept

theorem MergesTarget.selfId {doc : TableDoc} {cl cl' : Cluster} (h : MergesTarget doc cl cl') :
    cl'.selfId = cl.selfId := by
  cases h <;> rfl

theorem MergesTarget.peers {doc : TableDoc} {cl cl' : Cluster} (h : MergesTarget doc cl cl') :
    cl'.peers = cl.peers := by
  cases h <;> rfl

theorem MergesTarget.generation {doc : TableDoc} {cl cl' : Cluster}
    (h : MergesTarget doc cl cl') : cl'.generation = cl.generation := by
  cases h <;> rfl

theorem MergesTarget.ranges {doc : TableDoc} {cl cl' : Cluster} (h : MergesTarget doc cl cl') :
    cl'.ranges = cl.ranges := by
  cases h <;> rfl

/-- Generations only grow from 0. -/
structure Cluster.GensNonneg (cl : Cluster) : Prop where
  live : 0 ≤ cl.generation
  target : 0 ≤ cl.targetGeneration

theorem MergesRanges.gens {doc : TableDoc} {cl cl' : Cluster} (h : MergesRanges doc cl cl')
    (hgens : cl.GensNonneg) : cl'.GensNonneg := by
  constructor
  · rcases h.live with ⟨gen, -, -, hlt, hgen, -⟩ | ⟨-, hgen, -⟩
    · rw [hgen]
      exact hgens.live.trans hlt.le
    · rw [hgen]
      exact hgens.live
  · rcases h.target with hzero | ⟨-, hgen, -⟩
    · rw [hzero]
    · rw [hgen]
      exact hgens.target

theorem MergesTarget.gens {doc : TableDoc} {cl cl' : Cluster} (h : MergesTarget doc cl cl')
    (hgens : cl.GensNonneg) : cl'.GensNonneg := by
  cases h with
  | kept => exact hgens
  | ended => exact ⟨hgens.live, le_rfl⟩
  | replaced _ hnewer => exact ⟨hgens.live, hgens.target.trans hnewer.1.le⟩
  | overwritten _ _ => exact ⟨hgens.live, hgens.target⟩

/-! ### The whole merge -/

theorem mergeState_gens (now : Int) {cl : Cluster} (doc : StateDoc) (h : cl.GensNonneg) :
    (mergeState now cl doc).1.GensNonneg := by
  unfold mergeState
  dsimp only
  exact (mergesTarget _ _ _).gens ((mergesRanges now _ _).gens ⟨h.live, h.target⟩)

theorem mergeState_selfId (now : Int) (cl : Cluster) (doc : StateDoc) :
    (mergeState now cl doc).1.selfId = cl.selfId := by
  unfold mergeState
  dsimp only
  rw [(mergesTarget _ _ _).selfId, (mergesRanges _ _ _).selfId]

theorem mergeState_peers (now : Int) (cl : Cluster) (doc : StateDoc) :
    (mergeState now cl doc).1.peers =
      (doc.nodes.foldl (mergeNode cl.selfId (cl.leader ≠ [] && doc.sender = some cl.leader))
        (cl.peers, false)).1 := by
  unfold mergeState
  dsimp only
  rw [(mergesTarget _ _ _).peers, (mergesRanges _ _ _).peers]

theorem mergeState_bounded (now : Int) {cl : Cluster} (doc : StateDoc)
    (h : cl.peers.rows.length ≤ maxPeers) :
    (mergeState now cl doc).1.peers.rows.length ≤ maxPeers := by
  rw [mergeState_peers]
  exact length_rows_foldl_mergeNode doc.nodes h

theorem targetDoc_eq {cl : Cluster} {gen : Int} {assigns : List AssignDoc}
    (h : (stateToJson cl).target = ⟨some gen, some assigns⟩) :
    0 < gen ∧ cl.targetGeneration = gen ∧ assigns = cl.targetRanges.map RangeInfo.doc := by
  unfold stateToJson at h
  dsimp only at h
  split at h
  · rename_i hpos
    injection h with hgen hassigns
    obtain rfl := Option.some.inj hgen
    exact ⟨hpos, rfl, (Option.some.inj hassigns).symm⟩
  · injection h with hgen hassigns
    cases hgen

theorem knows_mergeNodes {selfId : NodeId} {fromLeader : Bool} {cl other : Cluster} {φ : Fact}
    (h : { cl with peers := ((stateToJson other).nodes.foldl (mergeNode selfId fromLeader)
      (cl.peers, false)).1 : Cluster }.knows φ) : cl.knows φ ∨ other.knows φ := by
  cases φ with
  | live gen table => exact Or.inl h
  | target gen table => exact Or.inl h
  | compliant id gen =>
    rcases h with ⟨p, hp, rfl, hpos, rfl⟩ | hset
    · -- a merged row carries what a row of one side says
      rcases mem_rows_foldl_mergeNode _ hp hpos with ⟨q, hq, hid, hgen⟩ | ⟨item, hitem, h⟩
      · exact Or.inl (Or.inl ⟨q, hq, hid, by rwa [hgen], hgen⟩)
      · obtain ⟨q, hq, rfl⟩ := List.mem_map.mp hitem
        have hid : q.id = p.id := Option.some.inj h.1
        have hgen : (if 0 < q.compliantGen then some q.compliantGen else none) =
          some p.compliantGen := h.2
        split at hgen
        · rename_i hpos
          exact Or.inr (Or.inl ⟨q, hq, hid, hpos, Option.some.inj hgen⟩)
        · cases hgen
    · exact Or.inl (Or.inr hset)

theorem knows_mergeRanges {now : Int} {cl other : Cluster} {φ : Fact}
    (hfit : ∀ r ∈ other.ranges, r.Fits)
    (h : (mergeRanges now (stateToJson other).ranges cl).1.knows φ) :
    cl.knows φ ∨ other.knows φ := by
  have hmerges := mergesRanges now (stateToJson other).ranges cl
  cases φ with
  | compliant id gen =>
    unfold Cluster.knows at h ⊢
    dsimp only at h ⊢
    rw [hmerges.peers, hmerges.settingDone] at h
    exact Or.inl h
  | target gen table =>
    obtain ⟨hpos, hg, ht⟩ := h
    rcases hmerges.target with hzero | ⟨-, hg', ht'⟩
    · omega
    · exact Or.inl ⟨hpos, hg'.symm.trans hg, ht'.symm.trans ht⟩
  | live gen table =>
    obtain ⟨hg, ht⟩ := h
    rcases hmerges.live with ⟨g, assigns, hdoc, -, hg', ht'⟩ | ⟨-, hg', ht'⟩
    rotate_left
    · exact Or.inl ⟨hg'.symm.trans hg, ht'.symm.trans ht⟩
    · injection hdoc with hgen hassigns
      obtain rfl := Option.some.inj hassigns
      rw [filterMap_slice hfit] at ht'
      exact Or.inr ⟨(Option.some.inj hgen).trans (hg'.symm.trans hg), ht'.symm.trans ht⟩

theorem knows_mergeTarget {fromLeader : Bool} {cl other : Cluster} {φ : Fact}
    (hfit : 0 < other.targetGeneration → ∀ r ∈ other.targetRanges, r.Fits)
    (h : (mergeTarget fromLeader (stateToJson other).target cl).1.knows φ) :
    cl.knows φ ∨ other.knows φ := by
  have hwell : ∀ assigns, (stateToJson other).target.assignments = some assigns →
      (assigns.filterMap AssignDoc.slice).length = assigns.length := by
    intro assigns hassigns
    unfold stateToJson at hassigns
    dsimp only at hassigns
    split at hassigns
    · rename_i hpos
      rw [← Option.some.inj hassigns, filterMap_slice (hfit hpos), List.length_map]
    · cases hassigns
  have hmerges := mergesTarget fromLeader (stateToJson other).target cl
  generalize (mergeTarget fromLeader (stateToJson other).target cl).1 = cl' at hmerges h
  cases hmerges with
  | kept => exact Or.inl h
  | overwritten hdoc hmalformed => exact absurd (hwell _ hdoc) hmalformed
  | ended =>
    cases φ with
    | compliant id gen => exact Or.inl h
    | live gen table => exact Or.inl h
    | target gen table =>
      obtain ⟨hpos, hg, -⟩ := h
      have hg : (0 : Int) = gen := hg
      omega
  | @replaced gen assigns hdoc _ =>
    cases φ with
    | compliant id gen => exact Or.inl h
    | live gen table => exact Or.inl h
    | target gen' table =>
      obtain ⟨hpos, hg, ht⟩ := h
      obtain ⟨hpos', hgen, rfl⟩ := targetDoc_eq hdoc
      have hg : gen = gen' := hg
      have ht : (other.targetRanges.map RangeInfo.doc).filterMap AssignDoc.slice = table := ht
      rw [filterMap_slice (hfit (hgen ▸ hpos'))] at ht
      exact Or.inr ⟨hpos, hgen.trans hg, ht⟩

/-- **A merge tells nothing new**: what a node knows after merging the state of another,
one of them knew. -/
theorem knows_mergeState {now : Int} {cl other : Cluster} {φ : Fact}
    (hfit : ∀ ψ, other.knows ψ → ψ.Fits) (h : (mergeState now cl (stateToJson other)).1.knows φ) :
    cl.knows φ ∨ other.knows φ := by
  have hlive : ∀ r ∈ other.ranges, r.Fits := (hfit (.live _ _) ⟨rfl, rfl⟩).1
  have htarget : 0 < other.targetGeneration → ∀ r ∈ other.targetRanges, r.Fits := fun hpos =>
    (hfit (.target _ _) ⟨hpos, rfl, rfl⟩).1
  rcases knows_mergeTarget htarget h with h | h
  · rcases knows_mergeRanges hlive h with h | h
    · exact knows_mergeNodes h
    · exact Or.inr h
  · exact Or.inr h

end EpsilonDB
