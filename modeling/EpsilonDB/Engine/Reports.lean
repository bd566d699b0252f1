import EpsilonDB.Engine.Analytics

/-!
# Reports over a cluster (`engine/epsilon_analytics.c`, `api/epsilon_api.c`)

Nodes count, flush, start again and stop to answer; their snapshots reach the shard that a report
reads late, out of order, more than once, or not at all.

- `Flush`: a snapshot, with the operations it is of; `reportSnapshots_docs`: a report over the
  snapshots of several nodes adds up what they recorded.
- `Analytics`: the nodes, the snapshots that were sent, and the shard of one node.
- `Analytics.Inv`: every row is a snapshot that was delivered, and no newer one is alive.
- `report_counts`: **in every run** the report is the sum of the newest snapshots, one for each node
  that was heard of in the last half hour.

A snapshot is a replicated change of its node when there is a cluster (`deliver`), and a local
write of the node itself when there is none (`flushAlone`).
-/

namespace EpsilonDB

section

variable {D : Type} [Doubles D]

/-- A snapshot of a node, and what it is of. -/
structure Flush where
  node : CString
  clock : Int
  /-- the tables, with the sizes read into them -/
  recorder : Recorder
  pending : UInt64
  /-- the sizes of the shards then -/
  size : ShardName → Int
  /-- the operations since the node had started -/
  recordings : List Sample
deriving Inhabited

/-- `EDB_ANALYTICS_TTL_SECS`. -/
def analyticsTtlSecs : Int := 1800

namespace Flush

/-- The document of a snapshot. -/
def doc (f : Flush) : Json D :=
  snapshotJson f.recorder f.node f.clock (some (clusterMetrics f.pending))

/-- The absolute expiry that `flush_snapshot` asks for. -/
def ttlAbs (f : Flush) : Int := f.clock + analyticsTtlSecs

/-- The change that `api_analytics_flush` replicates. -/
def change (codec : Codec D) (f : Flush) : Change where
  id := f.node
  op := .put (codec.print f.doc) f.ttlAbs
  ts := f.clock
  origin := f.node

/-- What the snapshot says of a shard: the operations recorded on it, and its size. -/
def shardCount (f : Flush) (name : ShardName) : ShardStat :=
  if ∃ r ∈ f.recordings, cutShard r.shardName = name then
    (recordedShard name f.recordings).sized (sizeOf (f.size name))
  else 0

/-- The document can be read again. -/
structure Readable (codec : Codec D) (f : Flush) : Prop where
  keeps : codec.Keeps f.doc
  exact : f.recorder.Exact D
  pending : Exact D f.pending

instance (codec : Codec D) (f : Flush) : Decidable (f.Readable codec) :=
  decidable_of_iff (codec.Keeps f.doc ∧ f.recorder.Exact D ∧ EpsilonDB.Exact D f.pending)
    ⟨fun h => ⟨h.1, h.2.1, h.2.2⟩, fun h => ⟨h.keeps, h.exact, h.pending⟩⟩

/-- The tables are those of the operations. -/
structure Counted (f : Flush) : Prop where
  keptShards : Tallies.Kept cutShard f.recorder.shards
  keptSlow : Tallies.Kept cutSlow f.recorder.slow
  shardNames : ∀ name, name ∈ f.recorder.shards.map Prod.fst ↔
    ∃ r ∈ f.recordings, cutShard r.shardName = name
  slowNames : ∀ name, name ∈ f.recorder.slow.map Prod.fst ↔
    ∃ r ∈ f.recordings, cutSlow r.slowName = name
  shards : ∀ name, Tallies.total name f.recorder.shards = f.shardCount name
  slow : ∀ name, Tallies.total name f.recorder.slow = recordedSlow name f.recordings

end Flush

/-! ## Sizes -/

theorem sized_sized (a b : UInt64) (s : ShardStat) : (s.sized a).sized b = s.sized b := rfl

/-- One size for all entries of a name. -/
theorem total_sized (size : ShardName → UInt64) (name : ShardName)
    (t : List (ShardName × ShardStat)) :
    Tallies.total name (t.map fun e => (e.1, e.2.sized (size e.1))) =
      if name ∈ t.map Prod.fst then (Tallies.total name t).sized (size name) else 0 := by
  induction t with
  | nil => rfl
  | cons e t ih =>
    rw [List.map_cons, Tallies.total_cons, Tallies.total_cons, ih, List.map_cons]
    by_cases he : e.1 = name
    · subst he
      rw [if_pos rfl, if_pos rfl, if_pos List.mem_cons_self]
      split
      · simp only [ShardStat.add_def, ShardStat.add, ShardStat.sized, max_self]
      · next hnot =>
        rw [Tallies.total_eq_zero hnot, add_zero, add_zero]
    · rw [if_neg he, if_neg he, zero_add, zero_add]
      simp only [List.mem_cons, Ne.symm he, false_or]

theorem keys_measure (size : ShardName → Int) (a : Recorder) :
    (a.measure size).shards.map Prod.fst = a.shards.map Prod.fst := by
  rw [Recorder.measure, List.map_map]
  rfl

theorem total_measure (size : ShardName → Int) (a : Recorder) (name : ShardName) :
    Tallies.total name (a.measure size).shards =
      if name ∈ a.shards.map Prod.fst then
        (Tallies.total name a.shards).sized (sizeOf (size name)) else 0 :=
  total_sized (fun name => sizeOf (size name)) name a.shards

namespace Recorder.Holds

variable {a : Recorder} {rs : List Sample}

/-- Sizes are no operations. -/
theorem measure (h : a.Holds rs) (size : ShardName → Int) : (a.measure size).Holds rs where
  keptShards := by
    rw [Tallies.kept_iff_keys, keys_measure]
    exact Tallies.kept_iff_keys.mp h.keptShards
  keptSlow := h.keptSlow
  shardNames name := by
    rw [keys_measure]
    exact h.shardNames name
  slowNames := h.slowNames
  shards name := by
    rw [total_measure, ← h.shards]
    split
    · exact sized_sized _ _ _
    · next hnot =>
      rw [Tallies.total_eq_zero hnot]
  slow := h.slow

/-- **A snapshot** has the counters of its operations. -/
theorem counted (h : a.Holds rs) (node : CString) (clock : Int) (pending : UInt64)
    (size : ShardName → Int) :
    (Flush.mk node clock (a.measure size) pending size rs).Counted where
  keptShards := (h.measure size).keptShards
  keptSlow := h.keptSlow
  shardNames := (h.measure size).shardNames
  slowNames := h.slowNames
  shards name := by
    rw [total_measure, Flush.shardCount, ← h.shards, sized_sized]
    exact if_congr (h.shardNames name) rfl rfl
  slow := h.slow

end Recorder.Holds

/-! ## A report over snapshots -/

/-- **The report is the sum of the snapshots.** -/
structure Report.Counts (r : Report) (view : List Flush) : Prop where
  nodes : r.nodes = view.map Flush.node
  shards : ∀ name stat, (name, stat) ∈ r.shards ↔
    (∃ f ∈ view, ∃ x ∈ f.recordings, cutShard x.shardName = name) ∧
      stat = (view.map fun f => f.shardCount name).sum
  slow : ∀ name stat, (name, stat) ∈ r.slow ↔
    (∃ f ∈ view, ∃ x ∈ f.recordings, cutSlow x.slowName = name) ∧
      stat = (view.map fun f => recordedSlow name f.recordings).sum
  pendingChanges : r.pendingChanges = (view.map Flush.pending).sum

variable {codec : Codec D}

theorem foldlM_docs {view : List Flush} (h : ∀ f ∈ view, f.Readable codec) (r : Report) :
    (view.map fun f => (f.doc : Json D)).foldlM reportSnapshot r =
      some {
        nodes := r.nodes ++ view.map Flush.node
        shards := Tallies.tally cutShard 0 Prod.fst (fun e => e.2.absorb)
          (view.flatMap fun f => f.recorder.shards) r.shards
        slow := Tallies.tally cutSlow 0 Prod.fst (fun e => e.2.absorb)
          (view.flatMap fun f => f.recorder.slow) r.slow
        pendingChanges := r.pendingChanges + (view.map Flush.pending).sum } := by
  induction view generalizing r with
  | nil => simp [Tallies.tally]
  | cons f view ih =>
    obtain ⟨hf, hview⟩ := List.forall_mem_cons.mp h
    rw [List.map_cons, List.foldlM_cons, Flush.doc,
      reportSnapshot_snapshotJson hf.exact f.node f.clock hf.pending]
    refine (ih hview _).trans ?_
    simp only [List.map_cons, List.flatMap_cons, List.sum_cons, Tallies.tally, List.foldl_append,
      List.append_assoc, List.singleton_append, add_assoc]

/-- **Snapshots of several nodes** in a report. -/
theorem reportSnapshots_docs {view : List Flush} (h : ∀ f ∈ view, f.Readable codec)
    (hcounted : ∀ f ∈ view, f.Counted) :
    ∃ r, reportSnapshots (view.map fun f => (f.doc : Json D)) = some r ∧ r.Counts view := by
  refine ⟨_, foldlM_docs h {}, ?_⟩
  constructor
  · exact List.nil_append _
  · intro name stat
    have hmerged := Tallies.mem_merged (x := name) (c := stat) cutShard_cutShard
      (fun e : ShardName × ShardStat => absorb_shard e.2) fun f hf => (hcounted f hf).keptShards
    have hsum : (view.map fun f => Tallies.total name f.recorder.shards) =
        view.map fun f => f.shardCount name :=
      List.map_congr_left fun f hf => (hcounted f hf).shards name
    rw [hsum] at hmerged
    refine hmerged.trans (and_congr_left fun _ => ?_)
    exact exists_congr fun f => and_congr_right fun hf => (hcounted f hf).shardNames name
  · intro name stat
    have hmerged := Tallies.mem_merged (x := name) (c := stat) cutSlow_cutSlow
      (fun e : SlowName × SlowStat => absorb_slow e.2) fun f hf => (hcounted f hf).keptSlow
    have hsum : (view.map fun f => Tallies.total name f.recorder.slow) =
        view.map fun f => recordedSlow name f.recordings :=
      List.map_congr_left fun f hf => (hcounted f hf).slow name
    rw [hsum] at hmerged
    refine hmerged.trans (and_congr_left fun _ => ?_)
    exact exists_congr fun f => and_congr_right fun hf => (hcounted f hf).slowNames name
  · exact zero_add _

/-! ## All nodes together -/

/-- `node_id` as `edb_analytics_start` copies it. -/
def analyticsNode (nodeId : CString) : CString :=
  snprintf 64 (if nodeId = [] then cstr "local" else nodeId)

/-- The nodes, and the `config_analytics` shard of one of them. -/
structure Analytics where
  self : CString
  clock : Int
  recorders : CString → Recorder
  store : Shard
  /-- snapshots on their way -/
  sent : List Flush
  /-- snapshots that have come to the shard -/
  delivered : List Flush
  /-- the operations of every node since it started, the last one first -/
  recorded : CString → List Sample

namespace Analytics

inductive Label where
  | record (node : CString) (r : Sample)
  /-- `flush_snapshot` in a cluster -/
  | flush (node : CString) (size : ShardName → Int) (pending : UInt64)
  /-- `flush_snapshot` without one -/
  | flushAlone (size : ShardName → Int)
  /-- a snapshot arrives, not for the last time -/
  | deliver (i : Nat)
  | tick (seconds : Nat)
  | cleanup
  /-- `edb_analytics_start` -/
  | start (nodeId : CString)

/-- Nothing is recorded or stored. -/
def started (self : CString) (now : Nat) : Analytics where
  self := self
  clock := now
  recorders _ := {}
  store := ∅
  sent := []
  delivered := []
  recorded _ := []

/-- The snapshot of a node now. -/
def snapshot (s : Analytics) (node : CString) (size : ShardName → Int) (pending : UInt64) :
    Flush where
  node := node
  clock := s.clock
  recorder := (s.recorders node).measure size
  pending := pending
  size := size
  recordings := s.recorded node

/-- The sizes stay in the table. -/
def measured (s : Analytics) (node : CString) (size : ShardName → Int) : CString → Recorder :=
  Function.update s.recorders node ((s.recorders node).measure size)

def step (codec : Codec D) (s : Analytics) : Label → Option Analytics
  | .record node r =>
    some { s with
      recorders := Function.update s.recorders node ((s.recorders node).record r)
      recorded := Function.update s.recorded node (r :: s.recorded node) }
  | .flush node size pending =>
    some { s with
      recorders := s.measured node size
      sent := s.snapshot node size pending :: s.sent }
  | .flushAlone size =>
    let f := s.snapshot s.self size 0
    some { s with
      recorders := s.measured s.self size
      store := edbShardPut s.clock s.store f.node (codec.print f.doc)
        (if f.ttlAbs > s.clock then f.ttlAbs - s.clock else 0)
      delivered := f :: s.delivered }
  | .deliver i => s.sent[i]?.map fun f =>
    { s with store := applyChange s.store (f.change codec), delivered := f :: s.delivered }
  | .tick seconds => some { s with clock := s.clock + seconds }
  | .cleanup => some { s with store := edbShardCleanup s.clock s.store }
  | .start nodeId =>
    some { s with
      recorders := Function.update s.recorders (analyticsNode nodeId) {}
      recorded := Function.update s.recorded (analyticsNode nodeId) [] }

/-- The documents that a report reads. -/
def snapshots (codec : Codec D) (s : Analytics) : List (Json D) :=
  (edbShardAllTs codec.parse s.clock none s.store).map fun e => e.2.2

/-- Every snapshot can be read again. -/
def Legible (codec : Codec D) (s : Analytics) : Label → Prop
  | .flush node size pending => (s.snapshot node size pending).Readable codec
  | .flushAlone size => (s.snapshot s.self size 0).Readable codec
  | _ => True

instance (codec : Codec D) (s : Analytics) (l : Label) : Decidable (s.Legible codec l) := by
  cases l <;> unfold Legible <;> infer_instance

/-- One snapshot of each node that was heard of before its expiry, and the newest of the node. -/
structure Newest (s : Analytics) (view : List Flush) : Prop where
  nodup : (view.map Flush.node).Nodup
  delivered : ∀ f ∈ view, f ∈ s.delivered ∧ s.clock ≤ f.ttlAbs
  newest : ∀ f ∈ view, ∀ g ∈ s.delivered, g.node = f.node → g.clock ≤ f.clock
  all : ∀ g ∈ s.delivered, s.clock ≤ g.ttlAbs → ∃ f ∈ view, f.node = g.node

/-! ### The invariant -/

/-- The row is the snapshot's. -/
structure Holds (codec : Codec D) (r : Row) (f : Flush) : Prop where
  value : r.value = some (codec.print f.doc)
  ttl : r.ttl = some f.ttlAbs
  timestamp : r.timestamp = some f.clock

/-- A snapshot that was made by now, of its operations. -/
structure Made (codec : Codec D) (s : Analytics) (f : Flush) : Prop where
  clock : 0 ≤ f.clock ∧ f.clock ≤ s.clock
  counted : f.Counted
  readable : f.Readable codec

structure Inv (codec : Codec D) (s : Analytics) : Prop where
  clock : 0 ≤ s.clock
  recorders : ∀ node, (s.recorders node).Holds (s.recorded node)
  sent : ∀ f ∈ s.sent, Made codec s f
  delivered : ∀ f ∈ s.delivered, Made codec s f
  /-- a newer snapshot of the node may have come only if it has expired -/
  rows : ∀ id r, s.store.lookup id = some r → ∃ f ∈ s.delivered, f.node = id ∧ Holds codec r f ∧
    ∀ g ∈ s.delivered, g.node = id → g.clock ≤ f.clock ∨ g.ttlAbs < s.clock
  present : ∀ g ∈ s.delivered, s.clock ≤ g.ttlAbs → (s.store.lookup g.node).isSome

theorem Made.later {s s' : Analytics} {f : Flush} (h : Made codec s f) (hle : s.clock ≤ s'.clock) :
    Made codec s' f where
  clock := ⟨h.clock.1, h.clock.2.trans hle⟩
  counted := h.counted
  readable := h.readable

theorem inv_started (self : CString) (now : Nat) : Inv codec (started self now) where
  clock := Int.natCast_nonneg now
  recorders _ := Recorder.Holds.start
  sent := List.forall_mem_nil _
  delivered := List.forall_mem_nil _
  rows id r h := by cases h
  present := List.forall_mem_nil _

/-- The row of a snapshot that is written. -/
theorem holds_putRow {f : Flush} (h : 0 ≤ f.clock) (origin : CString) :
    Holds codec (putRow (codec.print f.doc) f.ttlAbs f.clock origin) f where
  value := rfl
  ttl := if_pos (Int.add_nonneg h (by decide))
  timestamp := rfl

variable {s s' : Analytics}

/-- **A snapshot is written** that is as new as what stands there. -/
theorem Inv.write (h : Inv codec s) {f : Flush} (hf : Made codec s f)
    (hnew : ∀ g ∈ s.delivered, g.node = f.node → g.clock ≤ f.clock ∨ g.ttlAbs < s.clock)
    (origin : CString) :
    Inv codec { s with
      store := s.store.insert f.node (putRow (codec.print f.doc) f.ttlAbs f.clock origin)
      delivered := f :: s.delivered } where
  clock := h.clock
  recorders := h.recorders
  sent g hg := (h.sent g hg).later le_rfl
  delivered := List.forall_mem_cons.mpr
    ⟨hf.later le_rfl, fun g hg => (h.delivered g hg).later le_rfl⟩
  rows id r hr := by
    by_cases hid : id = f.node
    · subst hid
      rw [AList.lookup_insert] at hr
      cases hr
      refine ⟨f, List.mem_cons_self, rfl, holds_putRow hf.clock.1 origin, ?_⟩
      exact List.forall_mem_cons.mpr ⟨fun _ => Or.inl le_rfl, hnew⟩
    · rw [AList.lookup_insert_ne hid] at hr
      obtain ⟨g, hg, hnode, hrow, hnewest⟩ := h.rows id r hr
      refine ⟨g, List.mem_cons_of_mem f hg, hnode, hrow, List.forall_mem_cons.mpr ⟨?_, hnewest⟩⟩
      exact fun hfid => absurd hfid.symm hid
  present g hg hlive := by
    by_cases hid : g.node = f.node
    · rw [hid, AList.lookup_insert]
      rfl
    · rw [AList.lookup_insert_ne hid]
      rcases List.mem_cons.mp hg with rfl | hg
      · exact absurd rfl hid
      · exact h.present g hg hlive

/-- **A snapshot is refused**: a newer one stands there. -/
theorem Inv.refuse (h : Inv codec s) {f g : Flush} (hf : Made codec s f) {r : Row}
    (hrow : s.store.lookup f.node = some r) (hg : Holds codec r g) (hle : f.clock ≤ g.clock) :
    Inv codec { s with delivered := f :: s.delivered } where
  clock := h.clock
  recorders := h.recorders
  sent g hg := (h.sent g hg).later le_rfl
  delivered := List.forall_mem_cons.mpr
    ⟨hf.later le_rfl, fun g hg => (h.delivered g hg).later le_rfl⟩
  rows id r' hr' := by
    obtain ⟨g', hg', hnode, hholds, hnewest⟩ := h.rows id r' hr'
    refine ⟨g', List.mem_cons_of_mem f hg', hnode, hholds,
      List.forall_mem_cons.mpr ⟨fun hfid => Or.inl ?_, hnewest⟩⟩
    -- both are what the one row holds
    have hsame : r' = r := Option.some_inj.mp (hr'.symm.trans (hfid ▸ hrow))
    have hclock : some g'.clock = some g.clock :=
      hholds.timestamp.symm.trans (hsame ▸ hg.timestamp)
    rw [Option.some_inj.mp hclock]
    exact hle
  present g' hg' hlive := by
    rcases List.mem_cons.mp hg' with rfl | hg'
    · rw [hrow]
      rfl
    · exact h.present g' hg' hlive

/-- **A delivery.** -/
theorem Inv.deliver (h : Inv codec s) {f : Flush} (hf : Made codec s f) :
    Inv codec { s with
      store := applyChange s.store (f.change codec), delivered := f :: s.delivered } := by
  rw [applyChange_eq]
  have hchange : (f.change codec).row = putRow (codec.print f.doc) f.ttlAbs f.clock f.node := rfl
  cases hrow : s.store.lookup f.node with
  | none =>
    have hstored : storedVersionLocked s.store (f.change codec).id = none := by
      show storedVersionLocked s.store f.node = none
      rw [storedVersionLocked, hrow]
    rw [hstored, hchange]
    refine h.write hf (fun g hg hnode => ?_) f.node
    by_cases hlive : s.clock ≤ g.ttlAbs
    · have hsome := h.present g hg hlive
      rw [hnode, hrow] at hsome
      cases hsome
    · exact Or.inr (not_le.mp hlive)
  | some r =>
    obtain ⟨g, hg, hnode, hholds, hnewest⟩ := h.rows f.node r hrow
    have hstored : storedVersionLocked s.store (f.change codec).id =
        some (g.clock, snprintf 64 (r.origin.getD [])) := by
      show storedVersionLocked s.store f.node = _
      simp only [storedVersionLocked, hrow, hholds.timestamp, Option.map_some]
    rw [hstored]
    show Inv codec { s with store := if (decide (g.clock > f.clock) ||
      (decide (g.clock = f.clock) && _)) = true then _ else _, delivered := f :: s.delivered }
    split
    · next hnewer =>
      refine h.refuse hf hrow hholds ?_
      rcases Bool.or_eq_true _ _ |>.mp hnewer with hlt | heq
      · exact le_of_lt (of_decide_eq_true hlt)
      · exact le_of_eq (of_decide_eq_true (Bool.and_eq_true _ _ |>.mp heq).1).symm
    · next hnewer =>
      rw [hchange]
      have hle : g.clock ≤ f.clock := by
        have hnot := (Bool.or_eq_false_iff.mp (Bool.eq_false_iff.mpr hnewer)).1
        exact not_lt.mp (of_decide_eq_false hnot)
      exact h.write hf (fun g' hg' hn => (hnewest g' hg' hn).imp_left fun hc => hc.trans hle) f.node

/-- **One node** has new tables. -/
theorem Inv.update (h : Inv codec s) {node : CString} {a : Recorder} {rs : List Sample}
    (ha : a.Holds rs) (hsent : ∀ f ∈ s'.sent, Made codec s f) (hself : s'.clock = s.clock)
    (hrecorders : s'.recorders = Function.update s.recorders node a)
    (hrecorded : s'.recorded = Function.update s.recorded node rs)
    (hstore : s'.store = s.store) (hdelivered : s'.delivered = s.delivered) : Inv codec s' where
  clock := hself ▸ h.clock
  recorders n := by
    rw [hrecorders, hrecorded]
    by_cases hn : n = node
    · subst hn
      rw [Function.update_self, Function.update_self]
      exact ha
    · rw [Function.update_of_ne hn, Function.update_of_ne hn]
      exact h.recorders n
  sent f hf := (hsent f hf).later hself.ge
  delivered f hf := (h.delivered f (hdelivered ▸ hf)).later hself.ge
  rows := by
    rw [hstore, hdelivered, hself]
    exact h.rows
  present := by
    rw [hstore, hdelivered, hself]
    exact h.present

/-- The snapshot of now. -/
theorem Inv.made (h : Inv codec s) {node : CString} {size : ShardName → Int} {pending : UInt64}
    (hread : (s.snapshot node size pending).Readable codec) :
    Made codec s (s.snapshot node size pending) where
  clock := ⟨h.clock, le_rfl⟩
  counted := (h.recorders node).counted node s.clock pending size
  readable := hread

/-- Sizes are read into the table of a node. -/
theorem Inv.measured (h : Inv codec s) (node : CString) (size : ShardName → Int)
    {sent : List Flush} (hsent : ∀ f ∈ sent, Made codec s f) :
    Inv codec { s with recorders := s.measured node size, sent } :=
  h.update ((h.recorders node).measure size) hsent rfl rfl (Function.update_eq_self _ _).symm rfl
    rfl

theorem Inv.tick (h : Inv codec s) (seconds : Nat) :
    Inv codec { s with clock := s.clock + seconds } where
  clock := Int.add_nonneg h.clock (Int.natCast_nonneg seconds)
  recorders := h.recorders
  sent f hf := (h.sent f hf).later (Int.le_add_of_nonneg_right (Int.natCast_nonneg seconds))
  delivered f hf :=
    (h.delivered f hf).later (Int.le_add_of_nonneg_right (Int.natCast_nonneg seconds))
  rows id r hr := by
    obtain ⟨f, hf, hnode, hholds, hnewest⟩ := h.rows id r hr
    refine ⟨f, hf, hnode, hholds, fun g hg hgid => (hnewest g hg hgid).imp_right fun hexpired => ?_⟩
    exact lt_of_lt_of_le hexpired (Int.le_add_of_nonneg_right (Int.natCast_nonneg seconds))
  present g hg hlive :=
    h.present g hg ((Int.le_add_of_nonneg_right (Int.natCast_nonneg seconds)).trans hlive)

/-- A snapshot that has not expired is not purged. -/
theorem Inv.cleanup (h : Inv codec s) :
    Inv codec { s with store := edbShardCleanup s.clock s.store } where
  clock := h.clock
  recorders := h.recorders
  sent f hf := (h.sent f hf).later le_rfl
  delivered f hf := (h.delivered f hf).later le_rfl
  rows id r hr := by
    rw [lookup_edbShardCleanup] at hr
    exact h.rows id r (Option.filter_eq_some_iff.mp hr).1
  present g hg hlive := by
    obtain ⟨r, hr⟩ := Option.isSome_iff_exists.mp (h.present g hg hlive)
    obtain ⟨f, -, -, hholds, hnewest⟩ := h.rows g.node r hr
    have hclock : g.clock ≤ f.clock := (hnewest g hg rfl).resolve_right (not_lt.mpr hlive)
    have hkept : r.purged s.clock = false := by
      rw [Row.purged, hholds.ttl, Option.any_some, decide_eq_false_iff_not]
      simp only [Flush.ttlAbs, cleanupGraceSeconds] at hlive ⊢
      omega
    show ((edbShardCleanup s.clock s.store).lookup g.node).isSome
    rw [lookup_edbShardCleanup, hr, Option.filter_some, hkept]
    rfl

/-- A local write is the row of the snapshot. -/
theorem edbShardPut_snapshot (codec : Codec D) (sh : Shard) {f : Flush} {now : Int}
    (hnow : f.clock = now) :
    edbShardPut now sh f.node (codec.print f.doc) (if f.ttlAbs > now then f.ttlAbs - now else 0) =
      sh.insert f.node (putRow (codec.print f.doc) f.ttlAbs f.clock []) := by
  subst hnow
  have hlater : f.ttlAbs > f.clock := Int.lt_add_of_pos_right f.clock (by decide)
  have hpos : 0 ≤ f.ttlAbs - f.clock := by omega
  rw [if_pos hlater, edbShardPut, if_pos hpos, add_sub_cancel, doPutLocked]

/-- **One step** of the nodes. -/
theorem Inv.step {l : Label} (h : Inv codec s) (hread : s.Legible codec l)
    (hstep : step codec s l = some s') : Inv codec s' := by
  cases l with
  | record node r =>
    cases hstep
    exact h.update ((h.recorders node).record r) h.sent rfl rfl rfl rfl rfl
  | flush node size pending =>
    cases hstep
    exact h.measured node size (List.forall_mem_cons.mpr ⟨h.made hread, h.sent⟩)
  | flushAlone size =>
    cases hstep
    have hf : Made codec s (s.snapshot s.self size 0) := h.made hread
    have hnow : (s.snapshot s.self size 0).clock = s.clock := rfl
    rw [edbShardPut_snapshot codec s.store hnow]
    refine (h.measured s.self size h.sent).write (hf.later le_rfl) (fun g hg _ => ?_) []
    exact Or.inl (h.delivered g hg).clock.2
  | deliver i =>
    obtain ⟨f, hf, rfl⟩ := Option.map_eq_some_iff.mp hstep
    exact h.deliver (h.sent f (List.mem_of_getElem? hf))
  | tick seconds =>
    cases hstep
    exact h.tick seconds
  | cleanup =>
    cases hstep
    exact h.cleanup
  | start nodeId =>
    cases hstep
    exact h.update Recorder.Holds.start h.sent rfl rfl rfl rfl rfl

/-! ### What a report says -/

/-- The documents of the shard are the newest snapshots. -/
theorem Inv.exists_view (h : Inv codec s) :
    ∃ view, s.Newest view ∧ s.snapshots codec = view.map fun f => f.doc := by
  have hrow : ∀ e ∈ liveRows codec.parse s.clock none s.store, ∃ f ∈ s.delivered,
      f.node = e.1 ∧ Holds codec e.2 f ∧ s.clock ≤ f.ttlAbs ∧
        ∀ g ∈ s.delivered, g.node = e.1 → g.clock ≤ f.clock ∨ g.ttlAbs < s.clock := by
    intro e he
    obtain ⟨hlookup, hlive⟩ := mem_liveRows.mp he
    obtain ⟨f, hf, hnode, hholds, hnewest⟩ := h.rows e.1 e.2 hlookup
    refine ⟨f, hf, hnode, hholds, ?_, hnewest⟩
    have hlive := (Bool.and_eq_true _ _ |>.mp hlive).1
    rw [Row.live, hholds.ttl] at hlive
    exact of_decide_eq_true hlive
  -- one snapshot for every row that is alive
  choose! pick hpicked hnode hholds hlive hnewest using hrow
  have hnodes : ((liveRows codec.parse s.clock none s.store).map pick).map Flush.node =
      (liveRows codec.parse s.clock none s.store).map Prod.fst := by
    rw [List.map_map]
    exact List.map_congr_left hnode
  refine ⟨(liveRows codec.parse s.clock none s.store).map pick, ⟨?_, ?_, ?_, ?_⟩, ?_⟩
  · rw [hnodes, ← (perm_edbShardIds s.clock none s.store).nodup_iff]
    exact nodup_edbShardIds s.clock none s.store
  · exact List.forall_mem_map.mpr fun e he => ⟨hpicked e he, hlive e he⟩
  · refine List.forall_mem_map.mpr fun e he g hg hgnode => ?_
    rcases hnewest e he g hg (hgnode.trans (hnode e he)) with hle | hexpired
    · exact hle
    · -- what has expired is older
      have hboth := lt_of_lt_of_le hexpired (hlive e he)
      exact le_of_lt (lt_of_add_lt_add_right hboth)
  · intro g hg hglive
    -- a node with a snapshot that is alive has a row, and it is alive as well
    obtain ⟨r, hr⟩ := Option.isSome_iff_exists.mp (h.present g hg hglive)
    obtain ⟨f, -, -, hf, hfnewest⟩ := h.rows g.node r hr
    have hrlive : r.live s.clock = true := by
      have hclock := (hfnewest g hg rfl).resolve_right (not_lt.mpr hglive)
      rw [Row.live, hf.ttl]
      exact decide_eq_true (hglive.trans (Int.add_le_add_right hclock _))
    have hmem : (g.node, r) ∈ liveRows codec.parse s.clock none s.store :=
      mem_liveRows.mpr ⟨hr, by rw [hrlive]; rfl⟩
    exact ⟨pick (g.node, r), List.mem_map_of_mem hmem, hnode _ hmem⟩
  -- the text of a row is read back as the document of its snapshot
  · have hdoc : ∀ e ∈ liveRows codec.parse s.clock none s.store,
        e.2.document codec.parse = some (pick e).doc := fun e he => by
      have hkeeps := (h.delivered (pick e) (hpicked e he)).readable.keeps
      rw [Row.document, (hholds e he).value]
      exact (if_neg hkeeps.print_ne).trans hkeeps.parse_print
    have hcollect : collectValues codec.parse s.clock none s.store =
        (liveRows codec.parse s.clock none s.store).map fun e =>
          (e.1, e.2.timestamp.getD 0, (pick e).doc) := by
      rw [collectValues, ← List.filterMap_eq_map]
      refine List.filterMap_congr fun e he => ?_
      rw [hdoc e he]
      rfl
    rw [snapshots, edbShardAllTs, hcollect, List.map_map, List.map_map]
    rfl

/-- **In every run** a report is the sum of the newest snapshots of the nodes that were heard of,
and of nothing else. -/
theorem report_counts {self : CString} {now : Nat} {ls : List Label}
    (hrun : Runs.run (step codec) (started self now) ls = some s)
    (hread : Runs.Along (step codec) (Legible codec) (started self now) ls) :
    ∃ (view : List Flush) (r : Report), s.Newest view ∧
      edbAnalyticsReport (s.snapshots codec) = some r.json ∧ r.Counts view := by
  have hinv : Inv codec s :=
    Runs.inv_run (fun _ _ _ h hread hstep => h.step hread hstep) (inv_started self now) hread hrun
  obtain ⟨view, hview, hdocs⟩ := hinv.exists_view
  have hdelivered := fun f hf => hinv.delivered f (hview.delivered f hf).1
  obtain ⟨r, hr, hcounts⟩ := reportSnapshots_docs (fun f hf => (hdelivered f hf).readable)
    fun f hf => (hdelivered f hf).counted
  refine ⟨view, r, hview, ?_, hcounts⟩
  rw [edbAnalyticsReport, hdocs, hr]
  rfl

/-- Two nodes count; the second snapshot of one arrives before its first. -/
def twoNodes : List Label :=
  [.start [97], .record [97] ⟨.read, [112], [107], 5⟩, .record [98] ⟨.write true, [112], [107], 9⟩,
    .flush [97] (fun _ => 4096) 0, .flush [98] (fun _ => 8192) 2,
    .record [97] ⟨.query [[120]], [112], [107], 7⟩, .tick 10, .flush [97] (fun _ => 4096) 0,
    .deliver 0, .deliver 2, .deliver 1]

/-- The documents of their snapshots. -/
def twoNodesDocs : List (Json Int) :=
  let a := ({} : Recorder).record ⟨.read, [112], [107], 5⟩
  let b := ({} : Recorder).record ⟨.write true, [112], [107], 9⟩
  let a' := a.record ⟨.query [[120]], [112], [107], 7⟩
  [snapshotJson (a.measure fun _ => 4096) [97] 0 (some (clusterMetrics 0)),
    snapshotJson (b.measure fun _ => 8192) [98] 0 (some (clusterMetrics 2)),
    snapshotJson (a'.measure fun _ => 4096) [97] 10 (some (clusterMetrics 0))]

def twoNodesCodec : Codec Int := tableCodec twoNodesDocs (by decide +kernel)

/-- What they recorded is in the report. -/
theorem twoNodes_counted :
    ∃ s, Runs.run (step twoNodesCodec) (started [97] 0) twoNodes = some s ∧
      ∃ (view : List Flush) (r : Report), s.Newest view ∧
        edbAnalyticsReport (s.snapshots twoNodesCodec) = some r.json ∧ r.Counts view := by
  obtain ⟨s, hs⟩ : ∃ s, Runs.run (step twoNodesCodec) (started [97] 0) twoNodes = some s :=
    Option.isSome_iff_exists.mp (by decide +kernel)
  exact ⟨s, hs, report_counts hs (by decide +kernel)⟩

end Analytics

end

end EpsilonDB
