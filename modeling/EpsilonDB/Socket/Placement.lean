import EpsilonDB.Socket.Compliance
import EpsilonDB.Socket.LocalRun
import EpsilonDB.Socket.Repl

/-!
# Where the shard files are (`edb_cluster_needs_sync`, `edb_cluster_gc_redundant`)

The range tables say where shards belong. This module adds where their files are: a node
reports compliance by looking for the files of the shards it will own, a promotion goes by
the reports, and the collector removes a file by the holders of the live table.

- `Registry`: what the configuration store of a node says.
- `edbClusterNeedsSync`, `edbClusterGcRedundant`: the two decisions.
- `Placement`, `Placement.step`: the mesh with the files, and its steps. `comply` is the
  maintenance thread, the `mark` of the mesh is the end of a join. `replace` is a snapshot,
  an upload or a wipe.
- `Placed`, `Provided`: every holder of a promoted table has what the previous holders had,
  and when this is so (`placed_of_provided`).
- `KeepsCopies`, `Confirmed`: a collected file leaves enough copies, and when this is so
  (`keepsCopies_of_confirmed`).

A shard file counts as valid when it is there, and a file that cannot be unlinked as not
listed.
-/

namespace EpsilonDB

/-- `edb_keyspace_info`. -/
structure KeyspaceInfo where
  database : CString
  partition : CString
  name : CString
deriving DecidableEq

/-- What the configuration store of a node says. -/
structure Registry where
  keyspaces : List KeyspaceInfo := []
  /-- the replication factor of each registered database -/
  databases : CString → Option Int := fun _ => none
  /-- `server.restore_lock` -/
  restoreLocked : Bool := false

/-- `EDB_SYSTEM_DB`. -/
def systemDb : CString := cstr "__system__"

/-- The keyspaces of the configuration shards. -/
def systemKeyspaces : List CString :=
  [cstr "config_databases", cstr "config_groups", cstr "config_users",
    cstr "config_partitions", cstr "config_keyspaces", cstr "config_settings",
    cstr "config_code"]

section

variable (shardKey : CString → CString → CString)

/-- `edb_config_is_system_key`. -/
def edbConfigIsSystemKey (key : CString) : Bool :=
  decide (key.length = 32) && systemKeyspaces.any fun ks => shardKey systemDb ks = key

def KeyspaceInfo.key (k : KeyspaceInfo) : CString := shardKey k.partition k.name

/-- The owner of a key by a table. -/
def tableOwner (table : List RangeInfo) (key : CString) : Option NodeId :=
  if key.length ≠ 32 then none else (coveringSlice table key).map RangeInfo.nodeId

/-- `edb_cluster_needs_sync`. -/
def edbClusterNeedsSync (cl : Cluster) (r : Registry) (files : CString → Option Shard) : Bool :=
  decide (cl.targetGeneration ≠ 0) && r.keyspaces.any fun k =>
    !edbConfigIsSystemKey shardKey (k.key shardKey) &&
      decide (edbClusterTargetOwner cl (k.key shardKey) = some cl.selfId) &&
      (files (k.key shardKey)).isNone

/-- The factor of a shard by the registry: 1 when its keyspace is not registered. -/
def registeredFactor (r : Registry) (key : CString) : Nat :=
  match r.keyspaces.find? fun k => k.key shardKey = key with
  | some k => replicationFactor r.databases k.database
  | none => 1

/-- The holders the collector goes by. -/
def gcHolders (cl : Cluster) (r : Registry) (key : CString) : List NodeId :=
  let holders := edbClusterHolders cl key maxPeers
  let rf := registeredFactor shardKey r key
  holders.take (if holders.length < rf then holders.length else rf)

/-- `replicas_ready && !keep_local`. -/
def gcReady (cl : Cluster) (r : Registry) (key : CString) : Bool :=
  decide (0 < (gcHolders shardKey cl r key).length) &&
    (gcHolders shardKey cl r key).all fun h =>
      h ≠ cl.selfId && (edbClusterPeers cl maxPeers).any fun p => p.id = h && p.online

/-- `edb_cluster_gc_redundant`: the shard it removes, of those listed. -/
def edbClusterGcRedundant (cl : Cluster) (r : Registry) (keys : List CString) : Option CString :=
  if cl.targetGeneration ≠ 0 ∨ r.restoreLocked then none
  else keys.find? fun key => !edbConfigIsSystemKey shardKey key && gcReady shardKey cl r key

end

/-- A report of compliance: the target that was pending and its number, the keyspaces that were
registered on the node, and the files of all nodes then. -/
structure CopyReport where
  node : NodeId
  generation : Int
  table : Option (List RangeInfo)
  keyspaces : List KeyspaceInfo
  files : NodeId → CString → Option Shard
  /-- the shards whose file on the node was replaced or removed since -/
  replaced : CString → Bool := fun _ => false

/-- The report is one of node `y` for the target that `cl` has pending. -/
def CopyReport.For (r : CopyReport) (y : NodeId) (cl : Cluster) : Prop :=
  r.node = y ∧ r.generation = cl.targetGeneration ∧ r.table = some cl.targetRanges

instance (r : CopyReport) (y : NodeId) (cl : Cluster) : Decidable (r.For y cl) :=
  inferInstanceAs (Decidable (_ ∧ _ ∧ _))

/-- What a report was made on: the shards the node owned by the target that was pending, and
knew of, were there. -/
def CopyReport.Found (shardKey : CString → CString → CString) (r : CopyReport) : Prop :=
  ∀ table, r.table = some table → ∀ k ∈ r.keyspaces,
    edbConfigIsSystemKey shardKey (k.key shardKey) = false →
      tableOwner table (k.key shardKey) = some r.node →
        (r.files r.node (k.key shardKey)).isSome = true

/-- A promotion: the leader, as it was before, and its registry. -/
structure Promotion where
  node : NodeId
  before : Cluster
  registry : Registry

/-- The mesh with the shard files of all nodes. -/
structure Placement where
  mesh : Mesh
  registry : NodeId → Registry
  files : NodeId → CString → Option Shard
  /-- the nodes that can be reached -/
  online : NodeId → Bool := fun _ => true
  /-- the reports of compliance so far -/
  reports : List CopyReport := []
  /-- the promotion that was the last step -/
  promotion : Option Promotion := none

namespace Placement

inductive Label where
  | cluster (l : EpsilonDB.Label)
  | comply (x : NodeId)
  | write (y : NodeId) (key : CString) (c : Change)
  | replace (y : NodeId) (key : CString) (file : Option Shard)
  | gc (x : NodeId) (keys : List CString)
  | configure (x : NodeId) (r : Registry)
  | reach (x : NodeId) (online : Bool)

def cluster (p : Placement) (x : NodeId) : Cluster := p.mesh.cluster x

/-- Node `y` has this file of the shard. -/
def put (p : Placement) (y : NodeId) (key : CString) (file : Option Shard) : Placement :=
  { p with
    files := Function.update p.files y (Function.update (p.files y) key file)
    promotion := none }

/-- The file is another one than at the reports. -/
def forget (p : Placement) (y : NodeId) (key : CString) : Placement :=
  { p with
    reports := p.reports.map fun r =>
      if r.node = y then { r with replaced := Function.update r.replaced key true } else r }

variable (shardKey : CString → CString → CString)

/-- The first holders of a shard by the tables of a node and its registry. -/
def holders (cl : Cluster) (r : Registry) (key : CString) : List NodeId :=
  (edbClusterHolders cl key maxPeers).take (registeredFactor shardKey r key)

/-- Node `x` reports compliance. -/
def report (p : Placement) (x : NodeId) : Placement :=
  { p with
    reports :=
      { node := x, generation := markGeneration (p.cluster x)
        table := Mesh.pendingTable (p.cluster x)
        keyspaces := (p.registry x).keyspaces, files := p.files } :: p.reports }

/-- The maintenance thread reports compliance. -/
def autoCompliance (p : Placement) (x : NodeId) : Bool :=
  let cl := p.cluster x
  cl.autoCompliant && decide (0 < cl.targetGeneration) &&
    decide (((cl.peers.find cl.selfId).elim 0 PeerInfo.compliantGen) < cl.targetGeneration) &&
    !edbClusterNeedsSync shardKey cl (p.registry x) (p.files x)

/-- The promotion a step of the mesh makes. -/
def promotionOf (p : Placement) : EpsilonDB.Label → Option Promotion
  | .commit x _ now =>
    if (promoteCommit now (p.cluster x)).2 then some ⟨x, p.cluster x, p.registry x⟩ else none
  | _ => none

def step (p : Placement) : Label → Option Placement
  | .cluster l => do
    let mesh ← p.mesh.step l
    let p' := match l with
      | .mark x => p.report x
      | _ => p
    some { p' with mesh, promotion := p.promotionOf l }
  | .comply x => do
    let mesh ← p.mesh.step (.mark x)
    if p.autoCompliance shardKey x then some { p.report x with mesh, promotion := none }
    else none
  | .write y key c => some (p.put y key (some (applyChange ((p.files y key).getD ∅) c)))
  | .replace y key file => some ((p.put y key file).forget y key)
  | .gc x keys =>
    if keys.length ≤ 256 ∧ ∀ key ∈ keys, key.length = 32 ∧ (p.files x key).isSome then
      match edbClusterGcRedundant shardKey (p.cluster x) (p.registry x) keys with
      | some key => some ((p.put x key none).forget x key)
      | none => some { p with promotion := none }
    else none
  | .configure x r => some { p with registry := Function.update p.registry x r, promotion := none }
  | .reach x online => some { p with online := Function.update p.online x online, promotion := none }

/-- Nodes at their first start, with whatever files they have. -/
def start (addr : NodeId → CString) (port : NodeId → Int) (now : Int)
    (registry : NodeId → Registry) (files : NodeId → CString → Option Shard) : Placement where
  mesh := Mesh.start addr port now
  registry
  files

/-! ## Promotions -/

/-- When a target has just been promoted, every holder of every registered shard under the new
live table has a copy with what the holders under the previous one had when it reported. -/
def Placed (p : Placement) : Prop :=
  ∀ m ∈ p.promotion, ∀ k ∈ m.registry.keyspaces,
    edbConfigIsSystemKey shardKey (k.key shardKey) = false →
      ∀ y ∈ holders shardKey (p.cluster m.node) m.registry (k.key shardKey),
        ∃ file ∈ p.files y (k.key shardKey), ∀ r ∈ p.reports, r.For y m.before →
          ∀ h ∈ holders shardKey m.before m.registry (k.key shardKey),
            ∀ old ∈ r.files h (k.key shardKey), Below old file

/-- The view of a node with its target in the place of the live table. -/
def targetView (cl : Cluster) : Cluster :=
  { cl with ranges := if cl.targetRanges = [] then cl.ranges else cl.targetRanges }

/-- What a promotion needs of a holder of a shard under the target, beyond what compliance
asks.

- `known`: where the holder is the owner, the keyspace was in its registry when it reported;
- `copied`: where it is not, it has reported, and had a file of the shard each time;
- `fresh`: the file it had when it reported was not stale: it had the records of the previous
  holders;
- `stays`: the file was neither replaced nor removed since. -/
structure Ready (p : Placement) (cl : Cluster) (reg : Registry) (k : KeyspaceInfo) (y : NodeId) :
    Prop where
  known : tableOwner cl.targetRanges (k.key shardKey) = some y →
    ∀ r ∈ p.reports, r.For y cl → k ∈ r.keyspaces
  copied : tableOwner cl.targetRanges (k.key shardKey) ≠ some y →
    (∃ r ∈ p.reports, r.For y cl) ∧
      ∀ r ∈ p.reports, r.For y cl → (r.files y (k.key shardKey)).isSome = true
  fresh : ∀ r ∈ p.reports, r.For y cl → ∀ copy ∈ r.files y (k.key shardKey),
    ∀ h ∈ holders shardKey cl reg (k.key shardKey),
      ∀ old ∈ r.files h (k.key shardKey), Below old copy
  stays : ∀ r ∈ p.reports, r.For y cl → r.replaced (k.key shardKey) = false

/-- The step promotes no table whose holders are not ready. Generations are not mixed up, and a
join reports when nothing is left to fetch. -/
def Provided (p : Placement) : Label → Prop
  | .cluster (.mark x) =>
    p.mesh.Careful (.mark x) ∧
      edbClusterNeedsSync shardKey (p.cluster x) (p.registry x) (p.files x) = false
  | .cluster (.commit x gen now) =>
    p.mesh.Careful (.commit x gen now) ∧
      ((promoteCommit now (p.cluster x)).2 = true → ∀ k ∈ (p.registry x).keyspaces,
        edbConfigIsSystemKey shardKey (k.key shardKey) = false →
          ∀ y ∈ holders shardKey (targetView (p.cluster x)) (p.registry x) (k.key shardKey),
            p.Ready shardKey (p.cluster x) (p.registry x) k y)
  | .cluster l => p.mesh.Careful l
  | _ => True

instance (p : Placement) : Decidable (p.Placed shardKey) := by
  unfold Placed
  infer_instance

instance (p : Placement) (cl : Cluster) (reg : Registry) (k : KeyspaceInfo) (y : NodeId) :
    Decidable (p.Ready shardKey cl reg k y) :=
  decidable_of_iff
    ((tableOwner cl.targetRanges (k.key shardKey) = some y →
        ∀ r ∈ p.reports, r.For y cl → k ∈ r.keyspaces) ∧
      (tableOwner cl.targetRanges (k.key shardKey) ≠ some y →
        (∃ r ∈ p.reports, r.For y cl) ∧
          ∀ r ∈ p.reports, r.For y cl → (r.files y (k.key shardKey)).isSome = true) ∧
      (∀ r ∈ p.reports, r.For y cl → ∀ copy ∈ r.files y (k.key shardKey),
        ∀ h ∈ holders shardKey cl reg (k.key shardKey),
          ∀ old ∈ r.files h (k.key shardKey), Below old copy) ∧
      ∀ r ∈ p.reports, r.For y cl → r.replaced (k.key shardKey) = false)
    ⟨fun ⟨hknown, hcopied, hfresh, hstays⟩ => ⟨hknown, hcopied, hfresh, hstays⟩,
      fun h => ⟨h.known, h.copied, h.fresh, h.stays⟩⟩

instance (p : Placement) (l : Label) : Decidable (p.Provided shardKey l) := by
  unfold Provided
  split <;> infer_instance

/-! ## Collected files -/

/-- The members in the view of a node. -/
def memberCount (cl : Cluster) : Nat := (cl.peers.rows.filter fun p => !p.removed).length

/-- A file that is collected is on as many other nodes as the shard's factor asks for, or as
there are members. -/
def KeepsCopies (factor : CString → Nat) (p : Placement) : Label → Prop
  | .gc x keys =>
    ∀ key ∈ edbClusterGcRedundant shardKey (p.cluster x) (p.registry x) keys,
      ∀ file ∈ p.files x key, ∃ S : List NodeId, S.Nodup ∧
        min (factor key) (memberCount (p.cluster x)) ≤ S.length ∧
          ∀ y ∈ S, y ≠ x ∧ p.online y = true ∧ ∃ copy ∈ p.files y key, Below file copy
  | _ => True

/-- The registry of the collecting node has the shard's factor, and the holders it goes by
are there and have the file's data. -/
def Confirmed (factor : CString → Nat) (p : Placement) : Label → Prop
  | .gc x keys =>
    ∀ key ∈ edbClusterGcRedundant shardKey (p.cluster x) (p.registry x) keys,
      factor key ≤ registeredFactor shardKey (p.registry x) key ∧
        ∀ file ∈ p.files x key, ∀ h ∈ gcHolders shardKey (p.cluster x) (p.registry x) key,
          p.online h = true ∧ ∃ copy ∈ p.files h key, Below file copy
  | _ => True

instance (factor : CString → Nat) (p : Placement) (l : Label) :
    Decidable (p.Confirmed shardKey factor l) := by
  unfold Confirmed
  split <;> infer_instance

section

variable {shardKey} {p p' : Placement}

/-! ## What the steps keep -/

theorem put_files_of_ne {y z : NodeId} {key k : CString} {file : Option Shard}
    (h : ¬ (z = y ∧ k = key)) : (p.put y key file).files z k = p.files z k := by
  show Function.update p.files y (Function.update (p.files y) key file) z k = _
  by_cases hz : z = y
  · subst hz
    rw [Function.update_self, Function.update_of_ne fun hk => h ⟨rfl, hk⟩]
  · rw [Function.update_of_ne hz]

theorem put_files_self {y : NodeId} {key : CString} {file : Option Shard} :
    (p.put y key file).files y key = file := by
  show Function.update p.files y (Function.update (p.files y) key file) y key = _
  rw [Function.update_self, Function.update_self]

/-- What holds of the reports of a run.

- `found`: each was made when nothing was to be fetched;
- `kept`: the files it found are there, or were replaced;
- `marked`: every compliance that the mesh remembers is one of them. -/
structure Accounted (shardKey : CString → CString → CString) (p : Placement) : Prop where
  found : ∀ r ∈ p.reports, r.Found shardKey
  kept : ∀ r ∈ p.reports, ∀ key, r.replaced key = false → ∀ copy ∈ r.files r.node key,
    ∃ file ∈ p.files r.node key, Below copy file
  marked : ∀ o gen table, Event.marked o gen table ∈ p.mesh.history →
    ∃ r ∈ p.reports, r.node = o ∧ r.generation = gen ∧ r.table = table

/-- Nothing to be fetched for the pending target: the owned shards are there. -/
theorem found_of_needsSync {x : NodeId}
    (h : edbClusterNeedsSync shardKey (p.cluster x) (p.registry x) (p.files x) = false) :
    CopyReport.Found shardKey
      { node := x, generation := markGeneration (p.cluster x)
        table := Mesh.pendingTable (p.cluster x)
        keyspaces := (p.registry x).keyspaces, files := p.files } := by
  intro table htable k hk hsystem howner
  change Mesh.pendingTable (p.cluster x) = some table at htable
  unfold Mesh.pendingTable at htable
  split at htable
  · cases htable
  · rename_i hpending
    obtain rfl := Option.some.inj htable
    unfold edbClusterNeedsSync at h
    rw [decide_eq_true hpending, Bool.true_and, List.any_eq_false] at h
    have hk := h k hk
    have hself : (p.cluster x).selfId = x := (p.mesh.node x).selfId_eq
    have htarget : edbClusterTargetOwner (p.cluster x) (k.key shardKey) =
        some (p.cluster x).selfId := by
      rw [hself]
      exact howner
    rw [hsystem, decide_eq_true htarget] at hk
    show (p.files x (k.key shardKey)).isSome = true
    rw [Option.isSome_iff_ne_none]
    simpa using hk

/-- A report is accounted for. -/
theorem Accounted.report (h : p.Accounted shardKey) {x : NodeId} {mesh : Mesh}
    {promotion : Option Promotion}
    (hsync : edbClusterNeedsSync shardKey (p.cluster x) (p.registry x) (p.files x) = false)
    (hmesh : p.mesh.step (.mark x) = some mesh) :
    Accounted shardKey { p.report x with mesh, promotion } where
  found := by
    intro r hr
    rcases List.mem_cons.mp hr with rfl | hr
    · exact found_of_needsSync hsync
    · exact h.found r hr
  kept := by
    intro r hr key hreplaced copy hcopy
    rcases List.mem_cons.mp hr with rfl | hr
    · exact ⟨copy, hcopy, Below.refl copy⟩
    · exact h.kept r hr key hreplaced copy hcopy
  marked := by
    intro o gen table hmem
    obtain ⟨-, -, -, -, -, hhistory⟩ := Mesh.step_cases hmesh
    have hmem : Event.marked o gen table ∈ p.mesh.events (.mark x) ++ p.mesh.history :=
      hhistory ▸ hmem
    rcases List.mem_append.mp hmem with hnew | hold
    · -- the event is the one of this report
      have hevents : p.mesh.events (.mark x) = if markGeneration (p.mesh.cluster x) = 0 then [] else
          [.marked x (markGeneration (p.mesh.cluster x)) (Mesh.pendingTable (p.mesh.cluster x))] :=
        rfl
      rw [hevents] at hnew
      split at hnew
      · cases hnew
      · obtain ⟨rfl, rfl, rfl⟩ := Event.marked.inj (List.mem_singleton.mp hnew)
        exact ⟨_, List.mem_cons_self, rfl, rfl, rfl⟩
    · obtain ⟨r, hr, hsame⟩ := h.marked o gen table hold
      exact ⟨r, List.mem_cons_of_mem _ hr, hsame⟩

/-- Only a `mark` is an event of compliance. -/
theorem mem_marked_events {w : Mesh} {l : EpsilonDB.Label} {o : NodeId} {gen : Int}
    {table : Option (List RangeInfo)} (h : Event.marked o gen table ∈ w.events l) :
    ∃ x, l = .mark x := by
  have hrecords := w.records_events l
  generalize w.events l = es at hrecords h
  cases hrecords with
  | marked _ => exact ⟨_, rfl⟩
  | none => cases h
  | published _ => simp at h
  | promoted _ => simp at h
  | resharded => simp at h

/-- The reports, the files and the history of compliance stay. -/
theorem Accounted.congr (h : p.Accounted shardKey) (hfiles : p'.files = p.files)
    (hreports : p'.reports = p.reports)
    (hhistory : ∀ o gen table, Event.marked o gen table ∈ p'.mesh.history →
      Event.marked o gen table ∈ p.mesh.history) : p'.Accounted shardKey where
  found := by
    rw [hreports]
    exact h.found
  kept := by
    rw [hreports, hfiles]
    exact h.kept
  marked := by
    rw [hreports]
    exact fun o gen table hmem => h.marked o gen table (hhistory o gen table hmem)

theorem Accounted.write (h : p.Accounted shardKey) (y : NodeId) (key : CString) (c : Change) :
    (p.put y key (some (applyChange ((p.files y key).getD ∅) c))).Accounted shardKey where
  found := h.found
  marked := h.marked
  kept := by
    intro r hr k hreplaced copy hcopy
    obtain ⟨file, hfile, hle⟩ := h.kept r hr k hreplaced copy hcopy
    by_cases hsame : r.node = y ∧ k = key
    · obtain ⟨rfl, rfl⟩ := hsame
      refine ⟨_, put_files_self, hle.trans ?_⟩
      rw [Option.mem_def.mp hfile]
      exact below_applyChange file c
    · refine ⟨file, ?_, hle⟩
      rw [put_files_of_ne hsame]
      exact hfile

/-- A report after a file was replaced is one before, which has noted it. -/
theorem mem_reports_forget {y : NodeId} {key : CString} {r : CopyReport}
    (h : r ∈ (p.forget y key).reports) : ∃ r₀ ∈ p.reports, r₀.node = r.node ∧
      r₀.generation = r.generation ∧ r₀.table = r.table ∧ r₀.keyspaces = r.keyspaces ∧
        r₀.files = r.files ∧ ∀ k, r.replaced k = false →
          r₀.replaced k = false ∧ ¬ (r.node = y ∧ k = key) := by
  obtain ⟨r₀, hr₀, rfl⟩ := List.mem_map.mp h
  refine ⟨r₀, hr₀, ?_⟩
  by_cases hy : r₀.node = y
  · rw [if_pos hy]
    refine ⟨rfl, rfl, rfl, rfl, rfl, fun k hk => ?_⟩
    have hk : Function.update r₀.replaced key true k = false := hk
    have hne : k ≠ key := by
      rintro rfl
      rw [Function.update_self] at hk
      cases hk
    rw [Function.update_of_ne hne] at hk
    exact ⟨hk, fun hsame => hne hsame.2⟩
  · rw [if_neg hy]
    exact ⟨rfl, rfl, rfl, rfl, rfl, fun k hk => ⟨hk, fun hsame => hy hsame.1⟩⟩

theorem Accounted.replace (h : p.Accounted shardKey) (y : NodeId) (key : CString)
    (file : Option Shard) : ((p.put y key file).forget y key).Accounted shardKey where
  found := by
    intro r hr
    obtain ⟨r₀, hr₀, hnode, -, htable, hkeyspaces, hfiles, -⟩ := mem_reports_forget hr
    have hfound := h.found r₀ hr₀
    unfold CopyReport.Found at hfound ⊢
    rw [hnode, htable, hkeyspaces, hfiles] at hfound
    exact hfound
  kept := by
    intro r hr k hreplaced copy hcopy
    obtain ⟨r₀, hr₀, hnode, -, -, -, hfiles, hforgot⟩ := mem_reports_forget hr
    obtain ⟨hold, hother⟩ := hforgot k hreplaced
    rw [← hnode] at hother
    obtain ⟨f, hf, hle⟩ := h.kept r₀ hr₀ k hold copy (by rw [hnode, hfiles]; exact hcopy)
    refine ⟨f, ?_, hle⟩
    rw [← hnode]
    show f ∈ (p.put y key file).files r₀.node k
    rw [put_files_of_ne hother]
    exact hf
  marked := by
    intro o gen table hmem
    obtain ⟨r, hr, hnode, hgen, htable⟩ := h.marked o gen table hmem
    refine ⟨_, List.mem_map_of_mem hr, ?_⟩
    split
    · exact ⟨hnode, hgen, htable⟩
    · exact ⟨hnode, hgen, htable⟩

/-- **A step of the mesh**: the files stay, a report takes note of them. -/
theorem step_cluster {l : EpsilonDB.Label} (h : p.step shardKey (.cluster l) = some p') :
    p.mesh.step l = some p'.mesh ∧ p'.promotion = p.promotionOf l ∧
      p'.registry = p.registry ∧ p'.files = p.files ∧
        p'.reports = match l with
          | .mark x => (p.report x).reports
          | _ => p.reports := by
  obtain ⟨mesh, hmesh, h⟩ := Option.bind_eq_some_iff.mp h
  obtain rfl := Option.some.inj h
  refine ⟨hmesh, rfl, ?_, ?_, ?_⟩
  · cases l <;> rfl
  · cases l <;> rfl
  · cases l <;> rfl

/-- The maintenance thread of a node reports after it has looked. -/
theorem step_comply {x : NodeId} (h : p.step shardKey (.comply x) = some p') :
    ∃ mesh, p.mesh.step (.mark x) = some mesh ∧ p.autoCompliance shardKey x = true ∧
      p' = { p.report x with mesh, promotion := none } := by
  have h : ((p.mesh.step (.mark x)).bind fun mesh =>
      if p.autoCompliance shardKey x then some { p.report x with mesh, promotion := none }
      else none) = some p' := h
  obtain ⟨mesh, hmesh, h⟩ := Option.bind_eq_some_iff.mp h
  obtain ⟨hauto, h⟩ := Option.ite_none_right_eq_some.mp h
  exact ⟨mesh, hmesh, hauto, (Option.some.inj h).symm⟩

/-- A join reports, whether it has looked or not. -/
theorem step_mark {x : NodeId} (h : p.step shardKey (.cluster (.mark x)) = some p') :
    ∃ mesh, p.mesh.step (.mark x) = some mesh ∧
      p' = { p.report x with mesh, promotion := none } := by
  have h : ((p.mesh.step (.mark x)).bind fun mesh =>
      some { p.report x with mesh, promotion := none }) = some p' := h
  obtain ⟨mesh, hmesh, h⟩ := Option.bind_eq_some_iff.mp h
  exact ⟨mesh, hmesh, (Option.some.inj h).symm⟩

theorem accounted_cluster {l : EpsilonDB.Label} (h : p.Accounted shardKey)
    (hl : p.Provided shardKey (.cluster l)) (hs : p.step shardKey (.cluster l) = some p') :
    p'.Accounted shardKey := by
  by_cases hmark : ∃ x, l = .mark x
  · obtain ⟨x, rfl⟩ := hmark
    obtain ⟨mesh, hmesh, rfl⟩ := step_mark hs
    exact h.report hl.2 hmesh
  · obtain ⟨hmesh, -, -, hfiles, hreports⟩ := step_cluster hs
    obtain ⟨-, -, -, -, -, hhistory⟩ := Mesh.step_cases hmesh
    refine h.congr hfiles ?_ fun o gen table hmem => ?_
    · rw [hreports]
      cases l with
      | mark x => exact absurd ⟨x, rfl⟩ hmark
      | _ => rfl
    · rw [hhistory] at hmem
      exact (List.mem_append.mp hmem).resolve_left fun hnew => hmark (mem_marked_events hnew)

/-- **Every step** accounts for the reports. -/
theorem accounted_step {l : Label} (h : p.Accounted shardKey) (hl : p.Provided shardKey l)
    (hs : p.step shardKey l = some p') : p'.Accounted shardKey := by
  cases l with
  | cluster l => exact accounted_cluster h hl hs
  | comply x =>
    obtain ⟨mesh, hmesh, hauto, rfl⟩ := step_comply hs
    -- the maintenance thread has looked
    refine h.report ?_ hmesh
    unfold autoCompliance at hauto
    simpa using (Bool.and_eq_true_iff.mp hauto).2
  | write y key c =>
    obtain rfl := Option.some.inj hs
    exact h.write y key c
  | replace y key file =>
    obtain rfl := Option.some.inj hs
    exact h.replace y key file
  -- a collected file is a file replaced by nothing
  | gc x keys =>
    simp only [step] at hs
    split at hs
    · split at hs
      · obtain rfl := Option.some.inj hs
        exact h.replace x _ none
      · obtain rfl := Option.some.inj hs
        exact h.congr rfl rfl fun _ _ _ hmem => hmem
    · cases hs
  | configure x r =>
    obtain rfl := Option.some.inj hs
    exact h.congr rfl rfl fun _ _ _ hmem => hmem
  | reach x online =>
    obtain rfl := Option.some.inj hs
    exact h.congr rfl rfl fun _ _ _ hmem => hmem

/-- The mesh of a provided run is a careful one. -/
theorem traced_step {l : Label} (h : Traced p.mesh) (hl : p.Provided shardKey l)
    (hs : p.step shardKey l = some p') : Traced p'.mesh := by
  cases l with
  | cluster l =>
    obtain ⟨hmesh, -⟩ := step_cluster hs
    refine h.step ?_ hmesh
    cases l with
    | mark x => exact hl.1
    | commit x gen now => exact hl.1
    | _ => exact hl
  | comply x =>
    obtain ⟨mesh, hmesh, hauto, rfl⟩ := step_comply hs
    -- a target is pending
    have hpos : 0 < (p.cluster x).targetGeneration := by
      unfold autoCompliance at hauto
      simp only [Bool.and_eq_true, decide_eq_true_eq] at hauto
      exact hauto.1.1.2
    have hcareful : p.mesh.Careful (.mark x) := fun hzero => absurd hzero hpos.ne'
    exact h.step hcareful hmesh
  | gc x keys =>
    simp only [step] at hs
    split at hs
    · split at hs
      · obtain rfl := Option.some.inj hs
        exact h
      · obtain rfl := Option.some.inj hs
        exact h
    · cases hs
  | write y key c | replace y key file | configure x r | reach x online =>
    obtain rfl := Option.some.inj hs
    exact h

/-! ## A promotion -/

/-- Holders are read off the live table and the members. -/
theorem edbClusterHolders_congr {cl cl' : Cluster} (hranges : cl'.ranges = cl.ranges)
    (hpeers : cl'.peers = cl.peers) (key : CString) (cap : Nat) :
    edbClusterHolders cl' key cap = edbClusterHolders cl key cap := by
  unfold edbClusterHolders holderCandidates
  rw [hranges, hpeers]

theorem holders_promoteCommit {now : Int} {cl : Cluster}
    (h : (promoteCommit now cl).2 = true) (key : CString) (cap : Nat) :
    edbClusterHolders (promoteCommit now cl).1 key cap =
      edbClusterHolders (targetView cl) key cap := by
  unfold promoteCommit at h ⊢
  split at h
  · rename_i hleader
    rw [if_pos hleader]
    refine edbClusterHolders_congr ?_ ?_ key cap
    · show (promoteTargetLocked now cl).ranges = if cl.targetRanges = [] then _ else _
      unfold promoteTargetLocked
      by_cases hempty : cl.targetRanges = []
      · rw [if_pos (Or.inr hempty), if_pos hempty]
      · have hpos : ¬ (cl.targetGeneration = 0 ∨ cl.targetRanges = []) := by
          rintro (hzero | hnil)
          · exact absurd hleader.2 (by omega)
          · exact hempty hnil
        rw [if_neg hpos, if_neg hempty]
    · exact promoteTargetLocked_peers now cl
  · cases h

theorem mem_owners_of_tableOwner {table : List RangeInfo} {key : CString} {y : NodeId}
    (h : tableOwner table key = some y) : y ∈ owners table := by
  unfold tableOwner at h
  split at h
  · cases h
  · obtain ⟨r, hr, rfl⟩ := Option.map_eq_some_iff.mp h
    exact List.mem_map_of_mem (List.mem_of_find?_eq_some hr)

theorem mem_of_markedSince {o : NodeId} {gen : Int} {table : List RangeInfo} {h : List Event}
    (hm : MarkedSince o gen table h) : Event.marked o gen (some table) ∈ h := by
  induction h with
  | nil => exact hm.elim
  | cons e h ih =>
    cases e with
    | published _ _ _ => exact List.mem_cons_of_mem _ (ih hm.2)
    | marked o' g t =>
      rcases hm with ⟨rfl, rfl, rfl⟩ | hm
      · exact List.mem_cons_self
      · exact List.mem_cons_of_mem _ (ih hm)
    | promoted _ _ _ => exact List.mem_cons_of_mem _ (ih hm)
    | resharded _ _ _ _ => exact List.mem_cons_of_mem _ (ih hm)

/-- The owner of a shard under a target that is promoted has reported for it. -/
theorem exists_report_of_owner (haccounted : p.Accounted shardKey) (htraced : Traced p.mesh)
    {x y : NodeId} {gen now : Int} {key : CString} {mesh : Mesh}
    (hc : p.mesh.Careful (.commit x gen now)) (hs : p.mesh.step (.commit x gen now) = some mesh)
    (hflag : (promoteCommit now (p.cluster x)).2 = true)
    (howner : tableOwner (p.cluster x).targetRanges key = some y) :
    ∃ r ∈ p.reports, r.For y (p.cluster x) := by
  have hcomplied := (htraced.complied_of_commit hc hs hflag).2 y (mem_owners_of_tableOwner howner)
  exact haccounted.marked _ _ _ (mem_of_markedSince hcomplied)

/-- Every report of a ready holder found a file of the shard. -/
theorem Ready.isSome {cl : Cluster} {reg : Registry} {k : KeyspaceInfo} {y : NodeId}
    (h : p.Ready shardKey cl reg k y) (haccounted : p.Accounted shardKey)
    (hsystem : edbConfigIsSystemKey shardKey (k.key shardKey) = false) {r : CopyReport}
    (hr : r ∈ p.reports) (hfor : r.For y cl) : (r.files y (k.key shardKey)).isSome = true := by
  by_cases howner : tableOwner cl.targetRanges (k.key shardKey) = some y
  · -- it looked for the shards it owns
    have hknown := h.known howner r hr hfor
    obtain ⟨rfl, -, htable⟩ := hfor
    exact haccounted.found r hr _ htable k hknown hsystem howner
  · exact (h.copied howner).2 r hr hfor

/-- Only a promotion has to be looked at. -/
theorem placed_of_promotion (h : p.promotion = none) : p.Placed shardKey := by
  intro m hm
  rw [h] at hm
  cases hm

/-- **A promotion** over ready holders places the shards. -/
theorem placed_commit {x : NodeId} {gen now : Int} (haccounted : p.Accounted shardKey)
    (htraced : Traced p.mesh) (hl : p.Provided shardKey (.cluster (.commit x gen now)))
    (hs : p.step shardKey (.cluster (.commit x gen now)) = some p') : p'.Placed shardKey := by
  obtain ⟨hcareful, hready⟩ := hl
  obtain ⟨hmesh, hpromotion, -, hfiles, hreports⟩ := step_cluster hs
  have hcluster : p'.cluster x = (promoteCommit now (p.cluster x)).1 := (Mesh.cluster_step hmesh).1
  intro m hm k hk hsystem y hy
  rw [hpromotion] at hm
  obtain ⟨hflag, hm⟩ := Option.ite_none_right_eq_some.mp hm
  obtain rfl := Option.some.inj hm
  unfold holders at hy
  dsimp only at hy hk
  rw [hcluster, holders_promoteCommit hflag] at hy
  have hholder := hready hflag k hk hsystem y hy
  -- some report of the holder found its file, and the file is still there
  have hreported : ∃ r ∈ p.reports, r.For y (p.cluster x) := by
    by_cases howner : tableOwner (p.cluster x).targetRanges (k.key shardKey) = some y
    · exact exists_report_of_owner haccounted htraced hcareful hmesh hflag howner
    · exact (hholder.copied howner).1
  have hthere : ∀ r ∈ p.reports, r.For y (p.cluster x) →
      ∃ copy ∈ r.files y (k.key shardKey), ∃ file ∈ p.files y (k.key shardKey),
        Below copy file := by
    intro r hr hfor
    obtain ⟨copy, hcopy⟩ :=
      Option.isSome_iff_exists.mp (hholder.isSome haccounted hsystem hr hfor)
    have hkept := haccounted.kept r hr _ (hholder.stays r hr hfor) copy
    rw [hfor.1] at hkept
    exact ⟨copy, hcopy, hkept hcopy⟩
  obtain ⟨r, hr, hfor⟩ := hreported
  obtain ⟨-, -, file, hfile, -⟩ := hthere r hr hfor
  rw [hfiles, hreports]
  refine ⟨file, hfile, fun r hr hfor h hh old hold => ?_⟩
  obtain ⟨copy, hcopy, file', hfile', hle⟩ := hthere r hr hfor
  obtain rfl := Option.mem_unique hfile hfile'
  exact (hholder.fresh r hr hfor copy hcopy h hh old hold).trans hle

/-- **Every step** leaves the shards placed. -/
theorem placed_step {l : Label} (haccounted : p.Accounted shardKey) (htraced : Traced p.mesh)
    (hl : p.Provided shardKey l) (hs : p.step shardKey l = some p') : p'.Placed shardKey := by
  cases l with
  | cluster l =>
    cases l with
    | commit x gen now => exact placed_commit haccounted htraced hl hs
    | _ => exact placed_of_promotion (step_cluster hs).2.1
  | comply x =>
    obtain ⟨mesh, -, -, rfl⟩ := step_comply hs
    exact placed_of_promotion rfl
  | gc x keys =>
    simp only [step] at hs
    split at hs
    · split at hs
      · obtain rfl := Option.some.inj hs
        exact placed_of_promotion rfl
      · obtain rfl := Option.some.inj hs
        exact placed_of_promotion rfl
    · cases hs
  | write y key c | replace y key file | configure x r | reach x online =>
    obtain rfl := Option.some.inj hs
    exact placed_of_promotion rfl

end

/-- **Promotions over ready holders place the data**: in every run from the first start of all
nodes, whatever their registries and files. -/
theorem placed_of_provided (addr : NodeId → CString) (port : NodeId → Int) (now : Int)
    (registry : NodeId → Registry) (files : NodeId → CString → Option Shard) (ls : List Label)
    (h : Runs.Along (step shardKey) (Provided shardKey) (start addr port now registry files) ls) :
    Runs.Throughout (step shardKey) (Placed shardKey) (start addr port now registry files) ls := by
  have haccounted : (start addr port now registry files).Accounted shardKey :=
    ⟨nofun, nofun, nofun⟩
  have hplaced : (start addr port now registry files).Placed shardKey := placed_of_promotion rfl
  have hinv : Runs.Throughout (step shardKey)
      (fun p => (p.Accounted shardKey ∧ Traced p.mesh) ∧ p.Placed shardKey)
      (start addr port now registry files) ls :=
    Runs.throughout_of_along (fun _ _ _ hinv hl hs =>
      ⟨⟨accounted_step hinv.1.1 hl hs, traced_step hinv.1.2 hl hs⟩,
        placed_step hinv.1.1 hinv.1.2 hl hs⟩)
      ⟨⟨haccounted, traced_start addr port now⟩, hplaced⟩ h
  exact Runs.throughout_mono (fun _ h => h.2) hinv

section

variable {shardKey} {p : Placement} {cl : Cluster} {r : Registry} {key : CString}

/-! ## The files of other nodes -/

/-- The node whose files the step may change. -/
def Label.fileNode : Label → Option NodeId
  | .write y _ _ | .replace y _ _ | .gc y _ => some y
  | .cluster _ | .comply _ | .configure _ _ | .reach _ _ => none

theorem put_files_node {y z : NodeId} {file : Option Shard} (h : z ≠ y) :
    (p.put y key file).files z = p.files z :=
  Function.update_of_ne h ..

theorem files_step {p' : Placement} {l : Label} {y : NodeId}
    (hs : p.step shardKey l = some p') (h : l.fileNode ≠ some y) : p'.files y = p.files y := by
  cases l with
  | cluster l =>
    obtain ⟨-, -, -, hfiles, -⟩ := step_cluster hs
    rw [hfiles]
  | comply x =>
    simp only [step] at hs
    split at hs
    · obtain rfl := Option.some.inj hs
      rfl
    · cases hs
  | write z k c =>
    obtain rfl := Option.some.inj hs
    exact put_files_node fun heq => h (heq ▸ rfl)
  | replace z k file =>
    obtain rfl := Option.some.inj hs
    exact put_files_node fun heq => h (heq ▸ rfl)
  | gc x keys =>
    simp only [step] at hs
    split at hs
    · split at hs
      · obtain rfl := Option.some.inj hs
        exact put_files_node fun heq => h (heq ▸ rfl)
      · obtain rfl := Option.some.inj hs
        rfl
    · cases hs
  | configure x r | reach x online =>
    obtain rfl := Option.some.inj hs
    rfl

/-- A run that does not touch the files of a node leaves them alone. -/
theorem files_run {p' : Placement} {ls : List Label} {y : NodeId}
    (hrun : Runs.run (step shardKey) p ls = some p') (h : ∀ l ∈ ls, l.fileNode ≠ some y) :
    p'.files y = p.files y := by
  induction ls generalizing p with
  | nil =>
    obtain rfl : p = p' := Option.some.inj hrun
    rfl
  | cons l ls ih =>
    cases hnext : p.step shardKey l with
    | none =>
      unfold Runs.run at hrun
      rw [hnext] at hrun
      cases hrun
    | some q =>
      rw [Runs.run_cons _ hnext] at hrun
      rw [ih hrun fun l' hl' => h l' (List.mem_cons_of_mem l hl')]
      exact files_step hnext (h l List.mem_cons_self)

/-! ## The collector -/

/-- All members hold a shard in some order. -/
theorem length_edbClusterHolders (hbounded : cl.peers.rows.length ≤ maxPeers)
    (hkey : key.length = 32) : (edbClusterHolders cl key maxPeers).length = memberCount cl := by
  have hle : memberCount cl ≤ maxPeers := (List.length_filter_le _ _).trans hbounded
  have hcandidates : (holderCandidates cl).length = memberCount cl := by
    unfold holderCandidates
    rw [List.length_insertionSort, List.length_map, List.length_take]
    exact Nat.min_eq_right hle
  unfold edbClusterHolders
  rw [if_neg (not_not_intro hkey), List.length_take, List.length_rotate, hcandidates]
  exact Nat.min_eq_right hle

theorem nodup_gcHolders : (gcHolders shardKey cl r key).Nodup :=
  (nodup_edbClusterHolders cl key maxPeers).sublist (List.take_sublist _ _)

theorem length_gcHolders (hbounded : cl.peers.rows.length ≤ maxPeers) (hkey : key.length = 32) :
    (gcHolders shardKey cl r key).length =
      min (registeredFactor shardKey r key) (memberCount cl) := by
  unfold gcHolders
  dsimp only
  rw [List.length_take, length_edbClusterHolders hbounded hkey]
  split <;> omega

/-- Keys of another length have no holders. -/
theorem length_key_of_gcReady (h : gcReady shardKey cl r key = true) : key.length = 32 := by
  by_contra hkey
  have hnil : gcHolders shardKey cl r key = [] := by
    unfold gcHolders edbClusterHolders
    rw [if_pos hkey, List.take_nil]
  unfold gcReady at h
  rw [hnil] at h
  cases h

/-- What the collector removes: no node it goes by is the node itself. -/
theorem ready_of_collected {keys : List CString}
    (h : key ∈ edbClusterGcRedundant shardKey cl r keys) :
    key.length = 32 ∧ ∀ holder ∈ gcHolders shardKey cl r key, holder ≠ cl.selfId := by
  unfold edbClusterGcRedundant at h
  split at h
  · cases h
  · have hfound := List.find?_some
      (p := fun key => !edbConfigIsSystemKey shardKey key && gcReady shardKey cl r key) h
    have hready : gcReady shardKey cl r key = true := (Bool.and_eq_true_iff.mp hfound).2
    refine ⟨length_key_of_gcReady hready, fun holder hholder => ?_⟩
    unfold gcReady at hready
    have hall := List.all_eq_true.mp (Bool.and_eq_true_iff.mp hready).2 holder hholder
    simpa using (Bool.and_eq_true_iff.mp hall).1

/-- **A confirmed collection** leaves enough copies. -/
theorem keepsCopies_step {factor : CString → Nat} {l : Label}
    (h : p.Confirmed shardKey factor l) : p.KeepsCopies shardKey factor l := by
  cases l with
  | gc x keys =>
    intro key hkey file hfile
    obtain ⟨hlength, hother⟩ := ready_of_collected hkey
    obtain ⟨hfactor, hcopies⟩ := h key hkey
    have hself : (p.cluster x).selfId = x := (p.mesh.node x).selfId_eq
    have hbounded : (p.cluster x).peers.rows.length ≤ maxPeers := (p.mesh.node x).bounded
    refine ⟨gcHolders shardKey (p.cluster x) (p.registry x) key, nodup_gcHolders, ?_, ?_⟩
    · rw [length_gcHolders hbounded hlength]
      omega
    · intro y hy
      obtain ⟨honline, hcopy⟩ := hcopies file hfile y hy
      exact ⟨hself ▸ hother y hy, honline, hcopy⟩
  | _ => trivial

end

/-- **Collections that go by confirmed holders keep enough copies.** -/
theorem keepsCopies_of_confirmed (addr : NodeId → CString) (port : NodeId → Int) (now : Int)
    (registry : NodeId → Registry) (files : NodeId → CString → Option Shard)
    (factor : CString → Nat) (ls : List Label)
    (h : Runs.Along (step shardKey) (Confirmed shardKey factor)
      (start addr port now registry files) ls) :
    Runs.Along (step shardKey) (KeepsCopies shardKey factor)
      (start addr port now registry files) ls :=
  Runs.along_mono (fun _ _ h => keepsCopies_step h) h

/-! ## Runs of three nodes -/

/-- System shards at one key, the others at a key in the middle slice of three. -/
def twoKeys (partition _keyspace : CString) : CString :=
  if partition = systemDb then sliceBound 0 else sliceBound 0x60000000

/-- Database `d` with factor 2 and a keyspace. -/
def twoCopies : Registry where
  keyspaces := [⟨cstr "d", cstr "p", cstr "k"⟩]
  databases := fun db => if db = cstr "d" then some 2 else none

def freshNodes : Placement :=
  start (fun _ => cstr "h") (fun _ => 7000) 0 (fun _ => twoCopies) fun _ _ => none

/-- A put of record `r`. -/
def aPut : Change := ⟨cstr "r", .put (cstr "\x7b\x7d") (-1), 5, cstr "a"⟩

/-- The shard of one record. -/
def aShard : Shard := applyChange ∅ aPut

/-- Node `b` joins `a`, which has data. `b` takes `fetched` before it reports. -/
def firstJoin (fetched : List Label) : List Label :=
  .write (cstr "a") (sliceBound 0x60000000) aPut ::
    ((meet (cstr "a") (cstr "b") 1 ++
      [.publish (cstr "a"), .gossip (cstr "a"), .receive (cstr "b") (cstr "a") 0 2] :
        List EpsilonDB.Label).map .cluster ++ fetched ++
    [.comply (cstr "b"), .cluster (.gossip (cstr "b")), .comply (cstr "a"),
      .cluster (.receive (cstr "a") (cstr "b") 0 3), .cluster (.check (cstr "a")),
      .cluster (.commit (cstr "a") 2 4)])

/-- Node `y` has the shard of `a`. -/
def fetchShard (y : NodeId) : Label := .replace y (sliceBound 0x60000000) (some aShard)

/-- Node `c` joins as well, and takes `fetched` before it reports. -/
def secondJoin (fetched : List Label) : List Label :=
  (meet (cstr "a") (cstr "c") 5 ++
    [.publish (cstr "a"), .gossip (cstr "a"), .receive (cstr "c") (cstr "a") 0 6,
      .receive (cstr "b") (cstr "a") 0 6] : List EpsilonDB.Label).map .cluster ++ fetched ++
  [.comply (cstr "c"), .cluster (.gossip (cstr "c")),
    .cluster (.receive (cstr "a") (cstr "c") 0 7), .comply (cstr "b"),
    .cluster (.gossip (cstr "b")), .cluster (.receive (cstr "a") (cstr "b") 0 8),
    .comply (cstr "a"), .cluster (.check (cstr "a")), .cluster (.commit (cstr "a") 3 9)]

/-- Two nodes join one after the other and fetch the shard. The first holds it beside `a`, and
owns it once the second is there. -/
theorem twoJoins_placed :
    (Runs.run (step twoKeys) freshNodes
        (firstJoin [fetchShard (cstr "b")] ++ secondJoin [fetchShard (cstr "c")])).map
        (fun p => p.promotion.map Promotion.node) = some (some (cstr "a")) ∧
      Runs.Throughout (step twoKeys) (Placed twoKeys) freshNodes
        (firstJoin [fetchShard (cstr "b")] ++ secondJoin [fetchShard (cstr "c")]) :=
  ⟨by decide +kernel, placed_of_provided twoKeys _ _ _ _ _ _ (by decide +kernel)⟩

/-- The table over `a` and `b` is promoted while only `a` has the shard that both hold: `b`
owns another slice, and reports at once. -/
theorem second_holder_without_data :
    ¬ Runs.Throughout (step twoKeys) (Placed twoKeys) freshNodes (firstJoin []) := by
  decide +kernel

/-- With its data on `b` and `c`, the shard of `a` may go. -/
theorem twoJoins_keepCopies :
    (Runs.run (step twoKeys) freshNodes
        (firstJoin [fetchShard (cstr "b")] ++ secondJoin [fetchShard (cstr "c")] ++
          [.gc (cstr "a") [sliceBound 0x60000000]])).map
        (fun p => (p.files (cstr "a") (sliceBound 0x60000000)).isSome) = some false ∧
      Runs.Along (step twoKeys) (KeepsCopies twoKeys fun _ => 2) freshNodes
        (firstJoin [fetchShard (cstr "b")] ++ secondJoin [fetchShard (cstr "c")] ++
          [.gc (cstr "a") [sliceBound 0x60000000]]) :=
  ⟨by decide +kernel, keepsCopies_of_confirmed twoKeys _ _ _ _ _ _ _ (by decide +kernel)⟩

/-- Node `c` is now a holder of the shard without having it, and `a` collects its copy: one
is left on `b`. -/
theorem collected_for_empty_holder :
    ∃ p, Runs.run (step twoKeys) freshNodes
        (firstJoin [fetchShard (cstr "b")] ++ secondJoin []) = some p ∧
      ¬ p.KeepsCopies twoKeys (fun _ => 2) (.gc (cstr "a") [sliceBound 0x60000000]) := by
  obtain ⟨p, hp⟩ := Option.isSome_iff_exists.mp
    (show (Runs.run (step twoKeys) freshNodes
      (firstJoin [fetchShard (cstr "b")] ++ secondJoin [])).isSome = true by decide +kernel)
  have hcollects : (Runs.run (step twoKeys) freshNodes
      (firstJoin [fetchShard (cstr "b")] ++ secondJoin [])).all (fun p =>
        decide (edbClusterGcRedundant twoKeys (p.cluster (cstr "a")) (p.registry (cstr "a"))
          [sliceBound 0x60000000] = some (sliceBound 0x60000000)) &&
        decide (memberCount (p.cluster (cstr "a")) = 3) &&
        (p.files (cstr "a") (sliceBound 0x60000000)).isSome) = true := by decide +kernel
  rw [hp] at hcollects
  simp only [Option.all_some, Bool.and_eq_true, decide_eq_true_eq] at hcollects
  obtain ⟨⟨hgc, hmembers⟩, hfile⟩ := hcollects
  obtain ⟨file, hfile⟩ := Option.isSome_iff_exists.mp hfile
  refine ⟨p, hp, fun hkeeps => ?_⟩
  obtain ⟨S, hnodup, hlength, hcopies⟩ := hkeeps _ hgc file hfile
  -- every copy elsewhere is the one of `b`
  have honly : S ⊆ [cstr "b"] := by
    intro y hy
    obtain ⟨hne, -, copy, hcopy, -⟩ := hcopies y hy
    rw [List.mem_singleton]
    by_contra hb
    have hsame : p.files y = freshNodes.files y := by
      refine files_run hp fun l hl hnode => ?_
      have hnodes : ∀ l ∈ firstJoin [fetchShard (cstr "b")] ++ secondJoin [],
          ∀ z ∈ l.fileNode, z = cstr "a" ∨ z = cstr "b" := by decide +kernel
      exact (hnodes l hl y hnode).elim hne hb
    rw [hsame] at hcopy
    cases hcopy
  have hone : S.length ≤ 1 := (hnodup.subperm honly).length_le
  rw [hmembers] at hlength
  have : (2 : Nat) ≤ S.length := hlength
  omega

end Placement

end EpsilonDB
