import EpsilonDB.Lib.Runs
import EpsilonDB.Socket.CacheOpen
import EpsilonDB.Socket.RejectedWrite

/-!
# Pending changes of one coordinator (`edb_repl_write`, `deliver_cached`, `cache_open`)

What a write could not deliver waits in the cache until a drain delivers it. Writes and
drains run in threads of their own, and the process may be killed between any two of
their statements. Here each write and each drain is the steps of its loops, and a peer
answers whatever it likes.

- `QueuedWrite`, `Drain`, `Coordinator`: the calls under way and the node they run on.
- `Coordinator.step`: the steps of the writers (`begin` to `finish`), of the drains
  (`load`, `answer`, `remove`), what happens around them, and a restart.
- `NothingLost`: what was queued is in the cache or acknowledged, and so is what a
  successful write owes to a holder.
- `SafeStep`: no write gets the change id of a different change that is still queued, or
  being delivered, for the same peer, and no restart hits the gap in the migration.
- `nothingLost_of_safe`: then nothing is lost, in any run.
- `restart_repeats_id`: the counter in the ids starts over with the process, so a write in
  the same second as one before the restart takes the place of its change.

Two drains of one peer may overlap here, as they may in the source once a third one has
overwritten `rp->replaying`.
-/

namespace EpsilonDB

/-! ## Calls under way -/

/-- Where a call of `edb_repl_write` stands. -/
inductive WriteStage where
  /-- the loop over the peers, and those it has not come to -/
  | sending (left : List PeerInfo)
  /-- the loop over the peers it did not reach, and what the call will return -/
  | caching (left : List PeerInfo) (status : ReplStatus)

/-- A call of `edb_repl_write` under way at one coordinator. -/
structure QueuedWrite where
  cid : CString
  payload : ChangeDoc
  holders : List NodeId
  /-- the peers snapshot it took -/
  peers : List PeerInfo
  delivered : List NodeId := []
  acknowledgements : Nat
  stage : WriteStage

namespace QueuedWrite

/-- The row the write queues for a peer. -/
def row (w : QueuedWrite) (x : NodeId) : PendingRow := ⟨x, w.cid, w.payload⟩

/-- The write has to queue its change for the peer. -/
def Unreached (self : NodeId) (w : QueuedWrite) (x : NodeId) : Prop :=
  x ∉ w.delivered ∧ x ≠ self ∧ x ≠ []

instance (self : NodeId) (w : QueuedWrite) (x : NodeId) : Decidable (w.Unreached self x) :=
  inferInstanceAs (Decidable (_ ∧ _ ∧ _))

/-- The fan-out goes past a peer; `ok` says whether an acknowledgement came. -/
def exchanged (self : NodeId) (w : QueuedWrite) (p : PeerInfo) (left : List PeerInfo)
    (ok : Bool) : QueuedWrite :=
  if p.id = self then
    { w with delivered := p.id :: w.delivered, stage := .sending left }
  else if p.dialable && ok then
    { w with
      delivered := p.id :: w.delivered
      acknowledgements :=
        if p.id ∈ w.holders then w.acknowledgements + 1 else w.acknowledgements
      stage := .sending left }
  else { w with stage := .sending left }

/-- What the holders that did not acknowledge the write are owed. -/
def owes (self : NodeId) (w : QueuedWrite) : List PendingRow :=
  (w.holders.filter fun x => x ∉ w.delivered ∧ x ≠ self).map w.row

end QueuedWrite

/-- A batch of cached changes on its way to a peer. -/
structure Drain where
  target : NodeId
  /-- loaded rows that are not dealt with -/
  rows : List PendingRow
  /-- the first of them is acknowledged and about to be removed -/
  answered : Bool := false
deriving DecidableEq

/-- A coordinator with its calls under way. The last three fields are history. -/
structure Coordinator (x : NodeId) where
  node : ReplNode x
  writes : List QueuedWrite := []
  drains : List Drain := []
  /-- every change that was put in the cache -/
  queued : List PendingRow := []
  /-- every change of the cache a peer acknowledged -/
  acked : List PendingRow := []
  /-- for each write that returned OK, its change for each holder that did not
  acknowledge it -/
  owed : List PendingRow := []

namespace Coordinator

variable {self : NodeId}

/-- The rows of the cache. -/
def cached (s : Coordinator self) : List PendingRow := s.node.cache.rows

/-- A process that opened its cache. -/
def start (n : ReplNode self) (f : CacheFile) : Coordinator self where
  node := { n with cache := ⟨true, f.table.migrate.pending⟩, changeSeq := 0 }

/-- A step of a writer, of a drain, of their surroundings, or the end of the process. -/
inductive Label (self : NodeId) where
  /-- `edb_repl_write` up to its loop, at clock `now` -/
  | begin (now : Int) (db : CString) (doc : ChangeDoc)
  | exchange (i : Nat) (ok : Bool)
  /-- the quorum is counted, and the change applied locally -/
  | settle (i : Nat)
  /-- `cache_append` for the next peer, if it needs it -/
  | append (i : Nat)
  | finish (i : Nat)
  /-- `cache_load` -/
  | load (target : NodeId)
  /-- `rpc_once` in `deliver_cached` -/
  | answer (j : Nat) (ok : Bool)
  /-- `cache_remove` in `deliver_cached` -/
  | remove (j : Nat)
  /-- a change arrives from another coordinator -/
  | incoming (doc : ChangeDoc)
  /-- peers fail and reconnect, and databases are registered -/
  | observe (cluster : Cluster) (selfId_eq : cluster.selfId = self)
    (bounded : ∀ p ∈ cluster.peers.rows.drop maxPeers, p.id = self)
    (databases : CString → Option Int)
  /-- the process ends and `f` is its cache file; the next ones crash in `cache_open`
  after that many statements each, and then one gets through it -/
  | restart (f : CacheFile) (crashes : List Nat)

variable (shardKey : CString → CString → CString)

/-- A write stands before its loop. -/
def begun (s : Coordinator self) (now : Int) (db : CString) (doc : ChangeDoc)
    (partition keyspace : CString) : Coordinator self :=
  let holders := s.node.countedHolders shardKey db partition keyspace
  { s with
    node := { s.node with changeSeq := s.node.changeSeq + 1 }
    writes := s.writes ++
      [{ cid := changeId self now (s.node.changeSeq + 1)
         payload := sentDoc self doc
         holders
         peers := s.node.peers
         acknowledgements := if self ∈ holders then 1 else 0
         stage := .sending s.node.peers }] }

/-- The quorum decides, then the local apply. -/
def settled (s : Coordinator self) (i : Nat) (w : QueuedWrite) : Coordinator self :=
  if w.acknowledgements < w.holders.length / 2 + 1 then
    { s with writes := s.writes.set i { w with stage := .caching w.peers .quorumLost } }
  else
    let (engine, ok) := applyChangeLocal shardKey s.node.engine w.payload
    { s with
      node := { s.node with engine }
      writes := s.writes.set i
        { w with stage := .caching w.peers (if ok then .ok else .localFail) } }

/-- The change is queued for one more peer, or the peer is passed over. -/
def appended (s : Coordinator self) (i : Nat) (w : QueuedWrite) (p : PeerInfo)
    (left : List PeerInfo) (status : ReplStatus) : Coordinator self :=
  let writes := s.writes.set i { w with stage := .caching left status }
  if w.Unreached self p.id then
    { s with
      node := { s.node with cache := cacheAppend s.node.cache p.id w.cid w.payload }
      writes
      queued := w.row p.id :: s.queued }
  else { s with writes }

/-- The write returns. -/
def finished (s : Coordinator self) (i : Nat) (w : QueuedWrite) (status : ReplStatus) :
    Coordinator self :=
  { s with
    writes := s.writes.eraseIdx i
    owed := if status = .ok then w.owes self ++ s.owed else s.owed }

/-- What a label makes of a state, when the code can take the step. -/
def step (s : Coordinator self) : Label self → Option (Coordinator self)
  | .begin now db doc =>
    match doc.partition, doc.keyspace with
    | some partition, some keyspace => some (s.begun shardKey now db doc partition keyspace)
    | _, _ => some s
  | .exchange i ok => do
    let w ← s.writes[i]?
    match w.stage with
    | .sending (p :: left) =>
      some { s with writes := s.writes.set i (w.exchanged self p left ok) }
    | _ => none
  | .settle i => do
    let w ← s.writes[i]?
    match w.stage with
    | .sending [] => some (s.settled shardKey i w)
    | _ => none
  | .append i => do
    let w ← s.writes[i]?
    match w.stage with
    | .caching (p :: left) status => some (s.appended i w p left status)
    | _ => none
  | .finish i => do
    let w ← s.writes[i]?
    match w.stage with
    | .caching [] status => some (s.finished i w status)
    | _ => none
  | .load target =>
    some { s with drains := s.drains ++ [{ target, rows := cacheLoad s.node.cache target 256 }] }
  | .answer j ok => do
    let d ← s.drains[j]?
    match d.rows with
    | [] => none
    | r :: _ =>
      if d.answered then none
      else if ok then
        some { s with
          drains := s.drains.set j { d with answered := true }
          acked := r :: s.acked }
      else some { s with drains := s.drains.eraseIdx j }
  | .remove j => do
    let d ← s.drains[j]?
    match d.rows with
    | [] => none
    | r :: rows =>
      if d.answered then
        some { s with
          node := { s.node with cache := cacheRemove s.node.cache d.target r.cid }
          drains := s.drains.set j { d with rows, answered := false } }
      else none
  | .incoming doc =>
    some { s with
      node := { s.node with engine := (apiApplyChange shardKey s.node.engine doc).1 } }
  | .observe cluster selfId_eq bounded databases =>
    some { s with node := { s.node with cluster, selfId_eq, bounded, databases } }
  | .restart f crashes =>
    if f.table.pending = s.cached ∧ f.table.layout = .current then do
      let f ← Runs.run interruptedOpen f crashes
      let f ← cacheOpen f
      some { s with
        node := { s.node with cache := ⟨true, f.table.pending⟩, changeSeq := 0 }
        writes := []
        drains := [] }
    else none

/-! ## What is kept -/

/-- **No pending change is lost**: whatever was queued is in the cache, unless its peer
acknowledged it, and so is what a successful write owes to a holder. -/
structure NothingLost {x : NodeId} (s : Coordinator x) : Prop where
  queued : ∀ r ∈ s.queued, r ∈ s.cached ∨ r ∈ s.acked
  owed : ∀ r ∈ s.owed, r ∈ s.cached ∨ r ∈ s.acked

instance (s : Coordinator self) : Decidable s.NothingLost :=
  decidable_of_iff ((∀ r ∈ s.queued, r ∈ s.cached ∨ r ∈ s.acked) ∧
    ∀ r ∈ s.owed, r ∈ s.cached ∨ r ∈ s.acked)
    ⟨fun h => ⟨h.1, h.2⟩, fun h => ⟨h.queued, h.owed⟩⟩

/-- The row that an `append` step puts in the cache. -/
def nextRow (s : Coordinator self) (i : Nat) : Option PendingRow := do
  let w ← s.writes[i]?
  match w.stage with
  | .caching (p :: _) _ => if w.Unreached self p.id then some (w.row p.id) else none
  | _ => none

/-- No different change has the change id of the row: neither in the cache nor on its way
to the peer. -/
def FreshId (s : Coordinator self) (r : PendingRow) : Prop :=
  (∀ q ∈ s.cached, q.SameId r → q = r) ∧ ∀ d ∈ s.drains, ∀ q ∈ d.rows, q.SameId r → q = r

instance (s : Coordinator self) (r : PendingRow) : Decidable (s.FreshId r) :=
  inferInstanceAs (Decidable (_ ∧ _))

/-- A step that cannot lose a change. -/
def SafeStep (s : Coordinator self) : Label self → Prop
  | .append i => ∀ r ∈ s.nextRow i, s.FreshId r
  | .restart _ crashes => 7 ∈ crashes → s.cached = []
  | _ => True

instance (s : Coordinator self) (l : Label self) : Decidable (s.SafeStep l) := by
  cases l <;> unfold SafeStep <;> infer_instance

/-! ## What one step keeps -/

/-- A write under way has its holders among its peers, and what it has to queue is queued
or still to come. -/
structure WriteOk (x : NodeId) (queued : List PendingRow) (w : QueuedWrite) : Prop where
  holders : ∀ y ∈ w.holders, y ≠ x → y ≠ [] ∧ ∃ p ∈ w.peers, p.id = y
  caching : ∀ left status, w.stage = .caching left status →
    ∀ p ∈ w.peers, w.Unreached x p.id → p ∈ left ∨ w.row p.id ∈ queued

/-- A drain has rows of its target that no different change of the cache can be taken for,
and the first is acknowledged when it says so. -/
structure DrainOk (cached acked : List PendingRow) (d : Drain) : Prop where
  target : ∀ r ∈ d.rows, r.target = d.target
  same : ∀ r ∈ d.rows, ∀ q ∈ cached, q.SameId r → q = r
  answered : d.answered = true → ∀ r ∈ d.rows.head?, r ∈ acked

/-- What every safe step keeps. -/
structure Inv {x : NodeId} (s : Coordinator x) : Prop where
  isOpen : s.node.cache.isOpen = true
  unambiguous : Unambiguous s.cached
  queued : ∀ r ∈ s.queued, r ∈ s.cached ∨ r ∈ s.acked
  owed : ∀ r ∈ s.owed, r ∈ s.queued
  writes : ∀ w ∈ s.writes, WriteOk x s.queued w
  drains : ∀ d ∈ s.drains, DrainOk s.cached s.acked d

theorem Inv.nothingLost {s : Coordinator self} (h : s.Inv) : s.NothingLost where
  queued := h.queued
  owed r hr := h.queued r (h.owed r hr)

theorem mem_cacheAppend {cc : ChangeCache} (hopen : cc.isOpen = true) {r q : PendingRow} :
    q ∈ (cacheAppend cc r.target r.cid r.payload).rows ↔
      (q ∈ cc.rows ∧ ¬ q.SameId r) ∨ q = r := by
  rw [cacheAppend, if_pos hopen, List.mem_append, List.mem_filter, List.mem_singleton]
  simp only [Bool.not_eq_true', Bool.and_eq_false_imp, decide_eq_true_eq,
    decide_eq_false_iff_not, PendingRow.SameId, not_and]

theorem mem_cacheRemove {cc : ChangeCache} (hopen : cc.isOpen = true) {r q : PendingRow} :
    q ∈ (cacheRemove cc r.target r.cid).rows ↔ q ∈ cc.rows ∧ ¬ q.SameId r := by
  rw [cacheRemove, if_pos hopen, List.mem_filter]
  simp only [Bool.not_eq_true', Bool.and_eq_false_imp, decide_eq_true_eq,
    decide_eq_false_iff_not, PendingRow.SameId, not_and]

theorem WriteOk.mono {queued queued' : List PendingRow} {w : QueuedWrite}
    (h : WriteOk self queued w) (hsub : ∀ r ∈ queued, r ∈ queued') : WriteOk self queued' w where
  holders := h.holders
  caching left status hstage p hp hun := (h.caching left status hstage p hp hun).imp_right (hsub _)

variable {shardKey}
variable {s : Coordinator self} {w : QueuedWrite}

/-- A write moves on, and neither the cache nor the drains change. -/
theorem Inv.set_write (h : s.Inv) (i : Nat) (hw : WriteOk self s.queued w) :
    ({ s with writes := s.writes.set i w } : Coordinator self).Inv :=
  { h with
    writes := by
      intro v hv
      rcases List.mem_or_eq_of_mem_set hv with hv | rfl
      · exact h.writes v hv
      · exact hw }

theorem exchanged_spec (self : NodeId) (w : QueuedWrite) (p : PeerInfo) (left : List PeerInfo) (ok : Bool) :
    (w.exchanged self p left ok).holders = w.holders ∧
      (w.exchanged self p left ok).peers = w.peers ∧
      (w.exchanged self p left ok).stage = .sending left := by
  unfold QueuedWrite.exchanged
  split
  · exact ⟨rfl, rfl, rfl⟩
  · split <;> exact ⟨rfl, rfl, rfl⟩

theorem begun_inv (h : s.Inv) (now : Int) (db : CString) (doc : ChangeDoc)
    (partition keyspace : CString) :
    (s.begun shardKey now db doc partition keyspace).Inv :=
  { h with
    writes := by
      intro v hv
      rcases List.mem_append.mp hv with hv | hv
      · exact h.writes v hv
      · obtain rfl := List.mem_singleton.mp hv
        refine ⟨fun y hy hne => ?_, nofun⟩
        obtain ⟨p, hp, rfl⟩ := (mem_peers_of_mem_countedHolders hy).resolve_left hne
        have hvalid := s.node.cluster.peers.valid p (List.mem_of_mem_take hp)
        rw [validNodeId, Bool.and_eq_true, decide_eq_true_iff] at hvalid
        exact ⟨hvalid.1, p, hp, rfl⟩ }

theorem settled_inv (h : s.Inv) (i : Nat) (hw : WriteOk self s.queued w) :
    (s.settled shardKey i w).Inv := by
  have hnext : ∀ status,
      WriteOk self s.queued { w with stage := .caching w.peers status } := by
    intro status
    refine ⟨hw.holders, fun left status' hstage p hp _ => Or.inl ?_⟩
    obtain ⟨rfl, -⟩ := WriteStage.caching.inj hstage
    exact hp
  unfold settled
  split
  · exact h.set_write i (hnext _)
  · exact { h.set_write i (hnext _) with }

/-- The change joins the cache and takes no other one's place. -/
theorem appended_inv (h : s.Inv) {i : Nat} {p : PeerInfo} {left : List PeerInfo}
    {status : ReplStatus} (hw : WriteOk self s.queued w)
    (hstage : w.stage = .caching (p :: left) status)
    (hfresh : w.Unreached self p.id → s.FreshId (w.row p.id)) :
    (s.appended i w p left status).Inv := by
  unfold appended
  split
  · next hun =>
    obtain ⟨hcache, hdrains⟩ := hfresh hun
    have hmem : ∀ q, q ∈ (cacheAppend s.node.cache p.id w.cid w.payload).rows ↔
        q ∈ s.cached ∨ q = w.row p.id := by
      intro q
      refine (mem_cacheAppend (r := w.row p.id) h.isOpen).trans ?_
      constructor
      · rintro (⟨hq, -⟩ | rfl)
        · exact Or.inl hq
        · exact Or.inr rfl
      · -- a row of this id that was there is the same row, by `hfresh`
        rintro (hq | rfl)
        · by_cases hid : q.SameId (w.row p.id)
          · exact Or.inr (hcache q hq hid)
          · exact Or.inl ⟨hq, hid⟩
        · exact Or.inr rfl
    have hsub : ∀ r ∈ s.queued, r ∈ w.row p.id :: s.queued := fun r hr =>
      List.mem_cons_of_mem _ hr
    refine ⟨?_, ?_, ?_, ?_, ?_, ?_⟩
    · show (cacheAppend s.node.cache p.id w.cid w.payload).isOpen = true
      rw [cacheAppend, if_pos h.isOpen]
      exact h.isOpen
    · -- two rows of one id are the same, the new one included
      intro c hc d hd hid
      rcases (hmem c).mp hc with hc | rfl
      · rcases (hmem d).mp hd with hd | rfl
        · exact h.unambiguous c hc d hd hid
        · exact hcache c hc hid
      · rcases (hmem d).mp hd with hd | rfl
        · exact (hcache d hd hid.symm).symm
        · rfl
    · intro r hr
      rcases List.mem_cons.mp hr with rfl | hr
      · exact Or.inl ((hmem _).mpr (Or.inr rfl))
      · exact (h.queued r hr).imp_left fun hc => (hmem r).mpr (Or.inl hc)
    · exact fun r hr => hsub r (h.owed r hr)
    · -- the write goes on with one peer less to cache for
      intro v hv
      rcases List.mem_or_eq_of_mem_set hv with hv | rfl
      · exact (h.writes v hv).mono hsub
      · refine ⟨hw.holders, fun left' status' heq q hq hunq => ?_⟩
        obtain ⟨rfl, -⟩ := WriteStage.caching.inj heq
        rcases hw.caching _ _ hstage q hq hunq with hmore | hqueued
        · rcases List.mem_cons.mp hmore with rfl | hmore
          · exact Or.inr List.mem_cons_self
          · exact Or.inl hmore
        · exact Or.inr (hsub _ hqueued)
    · -- a drain that took a row of this id took the same row
      intro d hd
      have hok := h.drains d hd
      refine ⟨hok.target, fun r hr q hq hid => ?_, hok.answered⟩
      rcases (hmem q).mp hq with hq | rfl
      · exact hok.same r hr q hq hid
      · exact (hdrains d hd r hr hid.symm).symm
  · next hun =>
    -- the peer was reached, so nothing is cached for it
    refine h.set_write i ⟨hw.holders, fun left' status' heq q hq hunq => ?_⟩
    obtain ⟨rfl, -⟩ := WriteStage.caching.inj heq
    rcases hw.caching _ _ hstage q hq hunq with hmore | hqueued
    · rcases List.mem_cons.mp hmore with rfl | hmore
      · exact absurd hunq hun
      · exact Or.inl hmore
    · exact Or.inr hqueued

/-- A write that returns has queued what it owes. -/
theorem finished_inv (h : s.Inv) {i : Nat} {status : ReplStatus}
    (hw : WriteOk self s.queued w) (hstage : w.stage = .caching [] status) :
    (s.finished i w status).Inv :=
  { h with
    writes := fun v hv => h.writes v (List.mem_of_mem_eraseIdx hv)
    owed := by
      have howes : ∀ r ∈ w.owes self, r ∈ s.queued := by
        intro r hr
        obtain ⟨y, hy, rfl⟩ := List.mem_map.mp hr
        obtain ⟨hy, hun⟩ := List.mem_filter.mp hy
        obtain ⟨hdelivered, hne⟩ := of_decide_eq_true hun
        obtain ⟨hid, p, hp, rfl⟩ := hw.holders y hy hne
        exact (hw.caching [] status hstage p hp ⟨hdelivered, hne, hid⟩).resolve_left
          List.not_mem_nil
      intro r hr
      unfold finished at hr
      split at hr
      · rcases List.mem_append.mp hr with hr | hr
        · exact howes r hr
        · exact h.owed r hr
      · exact h.owed r hr }

/-- The rows a drain loads are rows of the cache. -/
theorem loaded_inv (h : s.Inv) (target : NodeId) :
    ({ s with
      drains := s.drains ++ [{ target, rows := cacheLoad s.node.cache target 256 }] } :
      Coordinator self).Inv :=
  { h with
    drains := by
      intro d hd
      rcases List.mem_append.mp hd with hd | hd
      · exact h.drains d hd
      · obtain rfl := List.mem_singleton.mp hd
        have hload : ∀ r ∈ cacheLoad s.node.cache target 256, r ∈ s.cached ∧ r.target = target := by
          intro r hr
          rw [cacheLoad, if_pos h.isOpen] at hr
          have hr := List.mem_of_mem_take hr
          exact ⟨(List.mem_filter.mp hr).1, of_decide_eq_true (List.mem_filter.mp hr).2⟩
        refine ⟨fun r hr => (hload r hr).2, fun r hr q hq hid => ?_,
          fun h => absurd h Bool.false_ne_true⟩
        exact h.unambiguous q hq r (hload r hr).1 hid }

/-- The peer acknowledges the first row of a drain. -/
theorem answered_inv (h : s.Inv) {j : Nat} {d : Drain} (hd : s.drains[j]? = some d)
    {r : PendingRow} {rows : List PendingRow} (hrows : d.rows = r :: rows) :
    ({ s with
      drains := s.drains.set j { d with answered := true }
      acked := r :: s.acked } : Coordinator self).Inv :=
  { h with
    queued := fun q hq => (h.queued q hq).imp_right (List.mem_cons_of_mem r)
    drains := by
      intro e he
      rcases List.mem_or_eq_of_mem_set he with he | rfl
      · have hok := h.drains e he
        exact ⟨hok.target, hok.same, fun hans q hq =>
          List.mem_cons_of_mem r (hok.answered hans q hq)⟩
      · have hok := h.drains d (List.mem_of_getElem? hd)
        refine ⟨hok.target, hok.same, fun _ q hq => ?_⟩
        rw [show d.rows.head? = some r by rw [hrows]; rfl] at hq
        obtain rfl := Option.mem_some_iff.mp hq
        exact List.mem_cons_self }

/-- An acknowledged row leaves the cache, and nothing else does. -/
theorem removed_inv (h : s.Inv) {j : Nat} {d : Drain} (hd : s.drains[j]? = some d)
    {r : PendingRow} {rows : List PendingRow} (hrows : d.rows = r :: rows)
    (hans : d.answered = true) :
    ({ s with
      node := { s.node with cache := cacheRemove s.node.cache d.target r.cid }
      drains := s.drains.set j { d with rows, answered := false } } : Coordinator self).Inv := by
  have hok := h.drains d (List.mem_of_getElem? hd)
  have hr : r ∈ d.rows := hrows ▸ List.mem_cons_self
  have hacked : r ∈ s.acked := hok.answered hans r (by rw [hrows]; rfl)
  have hmem : ∀ q, q ∈ (cacheRemove s.node.cache d.target r.cid).rows ↔
      q ∈ s.cached ∧ ¬ q.SameId r := by
    intro q
    rw [← hok.target r hr]
    exact mem_cacheRemove h.isOpen
  refine ⟨?_, ?_, ?_, h.owed, h.writes, ?_⟩
  · show (cacheRemove s.node.cache d.target r.cid).isOpen = true
    rw [cacheRemove, if_pos h.isOpen]
    exact h.isOpen
  · exact fun a ha b hb hid => h.unambiguous a ((hmem a).mp ha).1 b ((hmem b).mp hb).1 hid
  · -- the row of this id was the one acknowledged
    intro q hq
    rcases h.queued q hq with hc | hack
    · by_cases hid : q.SameId r
      · exact Or.inr (hok.same r hr q hc hid ▸ hacked)
      · exact Or.inl ((hmem q).mpr ⟨hc, hid⟩)
    · exact Or.inr hack
  · -- the other drains have less to compare with, and this one a row less
    intro e he
    rcases List.mem_or_eq_of_mem_set he with he | rfl
    · have hold := h.drains e he
      exact ⟨hold.target, fun a ha q hq => hold.same a ha q ((hmem q).mp hq).1, hold.answered⟩
    · have hsub : ∀ a ∈ rows, a ∈ d.rows := fun a ha => hrows ▸ List.mem_cons_of_mem r ha
      exact ⟨fun a ha => hok.target a (hsub a ha),
        fun a ha q hq => hok.same a (hsub a ha) q ((hmem q).mp hq).1,
        fun h => absurd h Bool.false_ne_true⟩

/-- After a restart the cache has what it had. -/
theorem restarted_inv (h : s.Inv) {f : CacheFile} {crashes : List Nat}
    (hfile : f.table.pending = s.cached) (hsafe : 7 ∈ crashes → s.cached = [])
    {t : CacheTable} (ht : t = (crashes.foldl leftover f.table).migrate) :
    ({ s with
      node := { s.node with cache := ⟨true, t.pending⟩, changeSeq := 0 }
      writes := []
      drains := [] } : Coordinator self).Inv := by
  have hkept : ∀ c ∈ s.cached, c ∈ t.pending := by
    intro c hc
    have h7 : 7 ∉ crashes := fun h7 => by
      rw [hsafe h7] at hc
      cases hc
    rw [ht]
    refine reopened_keeps h7 ?_ c (hfile ▸ hc)
    exact hfile ▸ h.unambiguous
  refine ⟨rfl, ?_, fun r hr => (h.queued r hr).imp_left (hkept r), h.owed,
    List.forall_mem_nil _, List.forall_mem_nil _⟩
  show Unambiguous t.pending
  rw [ht]
  exact CacheTable.unambiguous_of_current (CacheTable.migrate_layout _)

/-- **One safe step.** -/
theorem step_inv (s : Coordinator self) (l : Label self) (s' : Coordinator self) (h : s.Inv)
    (hsafe : s.SafeStep l) (hstep : step shardKey s l = some s') : s'.Inv := by
  cases l with
  | begin now db doc =>
    simp only [step] at hstep
    split at hstep
    · cases hstep
      exact begun_inv h now db doc _ _
    · cases hstep
      exact h
  | exchange i ok =>
    obtain ⟨w, hw, hstep⟩ := Option.bind_eq_some_iff.mp hstep
    have hok := h.writes w (List.mem_of_getElem? hw)
    split at hstep
    · next p left _ =>
      cases hstep
      obtain ⟨hholders, hpeers, hstage⟩ := exchanged_spec self w p left ok
      refine h.set_write i ⟨hholders ▸ hpeers ▸ hok.holders, fun _ _ heq => ?_⟩
      rw [hstage] at heq
      cases heq
    · cases hstep
  | settle i =>
    obtain ⟨w, hw, hstep⟩ := Option.bind_eq_some_iff.mp hstep
    split at hstep
    · cases hstep
      exact settled_inv h i (h.writes w (List.mem_of_getElem? hw))
    · cases hstep
  | append i =>
    obtain ⟨w, hw, hstep⟩ := Option.bind_eq_some_iff.mp hstep
    split at hstep
    · next p left status hstage =>
      cases hstep
      -- the row that is appended is the one the step was asked about
      refine appended_inv h (h.writes w (List.mem_of_getElem? hw)) hstage fun hun => ?_
      refine hsafe _ ?_
      rw [nextRow, hw]
      simp only [Option.bind_eq_bind, Option.bind_some, hstage, if_pos hun, Option.mem_def]
    · cases hstep
  | finish i =>
    obtain ⟨w, hw, hstep⟩ := Option.bind_eq_some_iff.mp hstep
    split at hstep
    · next hstage =>
      cases hstep
      exact finished_inv h (h.writes w (List.mem_of_getElem? hw)) hstage
    · cases hstep
  | load target =>
    cases hstep
    exact loaded_inv h target
  | answer j ok =>
    obtain ⟨d, hd, hstep⟩ := Option.bind_eq_some_iff.mp hstep
    split at hstep
    · cases hstep
    · next r rows hrows =>
      split at hstep
      · cases hstep
      · split at hstep
        · cases hstep
          exact answered_inv h hd hrows
        · cases hstep
          exact { h with drains := fun e he => h.drains e (List.mem_of_mem_eraseIdx he) }
  | remove j =>
    obtain ⟨d, hd, hstep⟩ := Option.bind_eq_some_iff.mp hstep
    split at hstep
    · cases hstep
    · next r rows hrows =>
      split at hstep
      · next hans =>
        cases hstep
        exact removed_inv h hd hrows hans
      · cases hstep
  | incoming doc =>
    cases hstep
    exact { h with }
  | observe cluster selfId_eq bounded databases =>
    cases hstep
    exact { h with }
  | restart f crashes =>
    simp only [step] at hstep
    split at hstep
    · next hfile =>
      obtain ⟨f', f'', hrun, hopen, htable⟩ := reopened_table f crashes
      rw [hrun] at hstep
      simp only [Option.bind_eq_bind, Option.bind_some, hopen] at hstep
      cases hstep
      exact restarted_inv h hfile.1 hsafe htable
    · cases hstep

/-- A process that opened its cache starts well. -/
theorem start_inv (n : ReplNode self) (f : CacheFile) : (start n f).Inv := by
  refine ⟨rfl, ?_, ?_, ?_, ?_, ?_⟩
  · show Unambiguous f.table.migrate.pending
    exact CacheTable.unambiguous_of_current f.table.migrate_layout
  all_goals exact List.forall_mem_nil _

/-- **A run of safe steps loses no pending change.** -/
theorem nothingLost_of_safe (n : ReplNode self) (f : CacheFile) {ls : List (Label self)}
    (h : Runs.Along (step shardKey) SafeStep (start n f) ls) :
    Runs.Throughout (step shardKey) NothingLost (start n f) ls :=
  Runs.throughout_mono (fun _ hs => hs.nothingLost)
    (Runs.throughout_of_along step_inv (start_inv n f) h)

/-! ## A coordinator whose third holder is offline -/

/-- Node `a` with the online peer `b` and the offline peer `c`. -/
def trioNode : ReplNode (cstr "a") where
  cluster :=
    { selfId := cstr "a"
      selfAddr := cstr "host"
      selfPort := 1
      peers := ((PeerTable.empty.add
        { id := cstr "a", addr := cstr "host", port := 1, online := true }).add
        { id := cstr "b", addr := cstr "host", port := 2, online := true }).add
        { id := cstr "c", addr := cstr "host", port := 3 }
      ranges := buildSlices [cstr "a", cstr "b", cstr "c"] }
  selfId_eq := rfl
  bounded := by decide
  databases := fun _ => some 3
  cache := ⟨false, []⟩

/-- A delete of the document `id`. -/
def deleteOf (id : String) : ChangeDoc where
  op := some (cstr "delete")
  db := some (cstr "d")
  partition := some (cstr "p")
  keyspace := some (cstr "k")
  id := some (cstr id)
  ts := some 5

/-- A write that `b` acknowledges and `c` does not. -/
def writeRun (now : Int) (doc : ChangeDoc) : List (Label (cstr "a")) :=
  [.begin now (cstr "d") doc, .exchange 0 true, .exchange 0 true, .exchange 0 false, .settle 0,
    .append 0, .append 0, .append 0, .finish 0]

/-- The cache file after that write. -/
def fileAfter (now : Int) (doc : ChangeDoc) : CacheFile
  | .pendingChanges =>
    some
      { layout := .current
        rows :=
          [⟨1, ⟨cstr "c", changeId (cstr "a") now 1, sentDoc (cstr "a") doc⟩, now⟩]
        sorted := List.pairwise_singleton ..
        unique := fun _ => List.pairwise_singleton .. }
  | .pendingChangesV2 => none

/-- Two writes with a restart between them, in which one `cache_open` crashes as well. -/
def restartRun (first second : Int) : List (Label (cstr "a")) :=
  writeRun first (deleteOf "x") ++ [.restart (fileAfter first (deleteOf "x")) [3, 8]] ++
    writeRun second (deleteOf "y")

/-- A second later the change of the first write is still there, and `c` can take it. -/
theorem restarted_later :
    (Runs.run (step fun _ _ => sliceBound 0) (start trioNode fun _ => none)
        (restartRun 100 101 ++ [.load (cstr "c"), .answer 0 true, .remove 0])).map
      (fun s => (s.owed.length, s.cached.length)) = some (2, 1) ∧
    Runs.Throughout (step fun _ _ => sliceBound 0) NothingLost (start trioNode fun _ => none)
      (restartRun 100 101 ++ [.load (cstr "c"), .answer 0 true, .remove 0]) :=
  ⟨by decide +kernel, nothingLost_of_safe trioNode (fun _ => none) (by decide +kernel)⟩

/-- In the same second it is gone, though the cache is never in the gap of a migration. -/
theorem restart_repeats_id :
    ¬ Runs.Throughout (step fun _ _ => sliceBound 0) NothingLost (start trioNode fun _ => none)
      (restartRun 100 100) := by
  decide +kernel

end Coordinator

end EpsilonDB
