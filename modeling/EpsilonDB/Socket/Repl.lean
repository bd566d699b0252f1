import EpsilonDB.Engine.Convergence
import EpsilonDB.Socket.Cluster
import Mathlib.Logic.Function.Basic

/-!
# Replicated writes (`socket/epsilon_repl.c`, `socket/epsilon_repl_cache.c`)

A write is sent to every online peer, counted against the holders of its shard,
applied locally once a quorum acknowledged it, and cached for the peers that did
not acknowledge.

- `ReplNode`, `World`: what one node keeps for replication, and all nodes.
- `Delivery`: what becomes of one exchange. A receiver that is syncing or locked
  for a restore refuses; an exchange may also fail before or after the receiver
  applied the change. An address answers as the node it is registered under.
- `holderIds`, `edbReplWrite`: the write path.
- `deliverCached`, `replayForPeer`, `edbReplDrainPeer`: the replay of the cache.

Two replays of one peer exclude each other in the source (`rp->replaying`); here a
replay is one step. The hash naming a shard is the parameter `shardKey`.
-/

namespace EpsilonDB

/-- A parsed change document: the fields the apply handlers read, each present
only when it has the JSON type they ask for. -/
structure ChangeDoc where
  op : Option CString := none
  db : Option CString := none
  partition : Option CString := none
  keyspace : Option CString := none
  id : Option CString := none
  /-- the printed `value`, when it is an object -/
  value : Option CString := none
  ttlAbs : Option Int := none
  ts : Option Int := none
  /-- `none` when the field is missing, `some none` when it is no string -/
  origin : Option (Option CString) := none
deriving DecidableEq

/-- A row of `PendingChanges`. -/
structure PendingRow where
  target : NodeId
  cid : CString
  payload : ChangeDoc
deriving DecidableEq

/-- The change cache. Its rows outlive the handle, which may fail to open. -/
structure ChangeCache where
  isOpen : Bool
  rows : List PendingRow

/-- The replication state of node `x`. Beyond `maxPeers` rows the peers table
only grows by the node's own row, which it registers unconditionally. -/
structure ReplNode (x : NodeId) where
  cluster : Cluster
  selfId_eq : cluster.selfId = x
  bounded : ∀ p ∈ cluster.peers.rows.drop maxPeers, p.id = x
  engine : CString → Shard := fun _ => ∅
  /-- the replication factor of each registered database -/
  databases : CString → Option Int
  cache : ChangeCache
  changeSeq : Int := 0

/-- All nodes. -/
abbrev World := ∀ x : NodeId, ReplNode x

/-- What becomes of one exchange with a peer. -/
inductive Delivery where
  /-- no connection, or the request was lost -/
  | lost
  /-- answered `ok: false` without applying anything -/
  | refused
  /-- handled, but the answer did not arrive in time -/
  | ackLost
  /-- handled and answered -/
  | answered
deriving DecidableEq

/-- The receiver handled the request. -/
def Delivery.handled : Delivery → Bool
  | .lost | .refused => false
  | .ackLost | .answered => true

/-- `edb_repl_status`. -/
inductive ReplStatus where
  | ok
  | localFail
  | quorumLost
deriving DecidableEq

/-- A node that holds nothing yet. -/
def blankNode (x : NodeId) : ReplNode x where
  cluster := { selfId := x, selfAddr := [], selfPort := 0 }
  selfId_eq := rfl
  bounded := by simp [PeerTable.empty]
  databases := fun _ => none
  cache := ⟨false, []⟩

/-- Node `n` among nodes that hold nothing yet. -/
def worldOf {self : NodeId} (n : ReplNode self) : World := Function.update blankNode self n

/-! ## The change cache -/

/-- `cache_append`: `INSERT OR REPLACE` under `UNIQUE(target, cid)`. -/
def cacheAppend (cc : ChangeCache) (target : NodeId) (cid : CString)
    (payload : ChangeDoc) : ChangeCache :=
  if cc.isOpen then
    { cc with
      rows := cc.rows.filter (fun r => !(r.target = target && r.cid = cid)) ++
        [⟨target, cid, payload⟩] }
  else cc

/-- `cache_remove`. -/
def cacheRemove (cc : ChangeCache) (target : NodeId) (cid : CString) : ChangeCache :=
  if cc.isOpen then
    { cc with rows := cc.rows.filter fun r => !(r.target = target && r.cid = cid) }
  else cc

/-- `cache_load`: the oldest `limit` rows of a target. -/
def cacheLoad (cc : ChangeCache) (target : NodeId) (limit : Nat) : List PendingRow :=
  if cc.isOpen then (cc.rows.filter fun r => r.target = target).take limit else []

/-! ## Applying a change document -/

/-- The origin the apply handlers use: empty unless it is a string. -/
def ChangeDoc.originText (doc : ChangeDoc) : CString := (doc.origin.getD none).getD []

/-- The shard and the change a document stands for, when it is well formed. -/
def decodeChange (doc : ChangeDoc) : Option (CString × CString × Change) := do
  let op ← doc.op
  let partition ← doc.partition
  let keyspace ← doc.keyspace
  let id ← doc.id
  let ts ← doc.ts
  if op = cstr "put" then
    let value ← doc.value
    return (partition, keyspace,
      ⟨id, .put value (doc.ttlAbs.getD (-1)), ts, doc.originText⟩)
  else if op = cstr "delete" then
    return (partition, keyspace, ⟨id, .delete, ts, doc.originText⟩)
  else none

variable (shardKey : CString → CString → CString)

/-- `apply_change_local`. -/
def applyChangeLocal (engine : CString → Shard) (doc : ChangeDoc) :
    (CString → Shard) × Bool :=
  match decodeChange doc with
  | none => (engine, false)
  | some (partition, keyspace, change) =>
    let key := shardKey partition keyspace
    (Function.update engine key (applyChange (engine key) change), true)

/-- `api_apply_change_impl`: the same, for a document that names its database. -/
def apiApplyChange (engine : CString → Shard) (doc : ChangeDoc) :
    (CString → Shard) × Bool :=
  match doc.db with
  | none => (engine, false)
  | some _ => applyChangeLocal shardKey engine doc

/-- `rpc_once` with an `ESTP_REPL` frame: the receiver, and whether an
acknowledgement with `ok: true` came back. -/
def receive {x : NodeId} (d : Delivery) (n : ReplNode x) (doc : ChangeDoc) :
    ReplNode x × Bool :=
  match d with
  | .lost | .refused => (n, false)
  | .ackLost => ({ n with engine := (apiApplyChange shardKey n.engine doc).1 }, false)
  | .answered =>
    let (engine, ok) := apiApplyChange shardKey n.engine doc
    ({ n with engine }, ok)

/-! ## The write path -/

/-- `replication_factor`. -/
def replicationFactor (databases : CString → Option Int) (db : CString) : Nat :=
  match databases db with
  | some rf => if 0 < rf then rf.toNat else 1
  | none => 1

/-- A holder candidate counts as online when it is this node or a peer with the
online flag. -/
def candidateOnline (cl : Cluster) (id : NodeId) : Bool :=
  id = cl.selfId || (edbClusterPeers cl maxPeers).any fun p => p.id = id && p.online

/-- `holder_ids`: the first `rf` candidates, the online ones before the others. -/
def holderIds (cl : Cluster) (partition keyspace : CString) (rf : Nat) : List NodeId :=
  let candidates := edbClusterHolders cl (shardKey partition keyspace) maxPeers
  (candidates.filter (candidateOnline cl) ++
    candidates.filter fun id => !candidateOnline cl id).take rf

/-- The holders a write counts: the node itself when there are none. -/
def writeHolders (cl : Cluster) (partition keyspace : CString) (rf : Nat) : List NodeId :=
  let holders := holderIds shardKey cl partition keyspace rf
  if holders.length = 0 then [cl.selfId] else holders

/-- `peers[i].online && peers[i].addr[0] && peers[i].port > 0`. -/
def PeerInfo.dialable (p : PeerInfo) : Bool := p.online && p.addr ≠ [] && decide (0 < p.port)

/-- The state of the fan-out loop. -/
structure FanOut where
  world : World
  delivered : List NodeId
  acknowledgements : Nat

/-- One round of the fan-out loop. -/
def fanOutStep (self : NodeId) (ans : NodeId → Delivery) (payload : ChangeDoc)
    (holders : List NodeId) (st : FanOut) (p : PeerInfo) : FanOut :=
  if p.id = self then { st with delivered := p.id :: st.delivered }
  else if !p.dialable then st
  else
    let (node, ok) := receive shardKey (ans p.id) (st.world p.id) payload
    { world := Function.update st.world p.id node
      delivered := if ok then p.id :: st.delivered else st.delivered
      acknowledgements :=
        if ok && p.id ∈ holders then st.acknowledgements + 1 else st.acknowledgements }

/-- Send the payload to every online peer. -/
def fanOut (self : NodeId) (ans : NodeId → Delivery) (payload : ChangeDoc)
    (holders : List NodeId) (w : World) (peers : List PeerInfo) : FanOut :=
  peers.foldl (fanOutStep shardKey self ans payload holders) ⟨w, [], 0⟩

/-- Cache the payload for every other peer that did not acknowledge it. -/
def cacheUndelivered (self : NodeId) (delivered : List NodeId) (cid : CString)
    (payload : ChangeDoc) (cc : ChangeCache) (peers : List PeerInfo) : ChangeCache :=
  peers.foldl (fun cc p =>
    if p.id ∉ delivered ∧ p.id ≠ self ∧ p.id ≠ [] then cacheAppend cc p.id cid payload
    else cc) cc

/-- `"%s-%lld-%lld"` in 96 bytes. -/
def changeId (self : NodeId) (now seq : Int) : CString :=
  snprintf 96 (self ++ cstr "-" ++ cstr (toString now) ++ cstr "-" ++ cstr (toString seq))

/-- The document that travels: the writer's id is its origin unless it has one. -/
def sentDoc (self : NodeId) (doc : ChangeDoc) : ChangeDoc :=
  { doc with origin := some (doc.origin.getD (some self)) }

/-- The peers snapshot a node takes. -/
def ReplNode.peers {x : NodeId} (n : ReplNode x) : List PeerInfo :=
  edbClusterPeers n.cluster maxPeers

/-- The holders node `n` counts for a write of a shard of `db`. -/
def ReplNode.countedHolders {x : NodeId} (n : ReplNode x) (db partition keyspace : CString) :
    List NodeId :=
  writeHolders shardKey n.cluster partition keyspace (replicationFactor n.databases db)

/-- The end of `edb_repl_write`: apply locally unless the quorum is lost, and cache
the payload for the peers it did not reach either way. -/
def finishWrite (self : NodeId) (cid : CString) (payload : ChangeDoc) (peers : List PeerInfo)
    (lost : Bool) (sent : FanOut) : ReplStatus × World :=
  let n := sent.world self
  let cache := cacheUndelivered self sent.delivered cid payload n.cache peers
  if lost then (.quorumLost, Function.update sent.world self { n with cache })
  else
    let (engine, ok) := applyChangeLocal shardKey n.engine payload
    (if ok then .ok else .localFail, Function.update sent.world self { n with engine, cache })

/-- `edb_repl_write` by node `self` at clock `now`, when exchanges go as `ans` says. -/
def edbReplWrite (w : World) (self : NodeId) (now : Int) (ans : NodeId → Delivery)
    (db : CString) (doc : ChangeDoc) : ReplStatus × World :=
  match doc.partition, doc.keyspace with
  | some partition, some keyspace =>
    let seq := (w self).changeSeq + 1
    let payload := sentDoc self doc
    let holders := (w self).countedHolders shardKey db partition keyspace
    let required := holders.length / 2 + 1
    let sent := fanOut shardKey self ans payload holders
      (Function.update w self { w self with changeSeq := seq }) (w self).peers
    let acknowledgements := (if self ∈ holders then 1 else 0) + sent.acknowledgements
    finishWrite shardKey self (changeId self now seq) payload (w self).peers
      (decide (acknowledgements < required)) sent
  | _, _ => (.localFail, w)

/-! ## Replay -/

/-- `find_peer`. -/
def findPeer (cl : Cluster) (id : NodeId) : Option PeerInfo :=
  (edbClusterPeers cl maxPeers).find? fun p =>
    p.id = id && p.addr ≠ [] && decide (0 < p.port)

/-- `edb_repl_pending_for`. -/
def edbReplPendingFor (cc : ChangeCache) (id : NodeId) : Nat :=
  if cc.isOpen then (cc.rows.filter fun r => r.target = id).length else 0

/-- `deliver_cached`: an acknowledged change leaves the cache. -/
def deliverCached (w : World) (self target : NodeId) (r : PendingRow) (d : Delivery) :
    World × Bool :=
  let (node, ok) := receive shardKey d (w target) r.payload
  let w := Function.update w target node
  if ok then
    (Function.update w self { w self with cache := cacheRemove (w self).cache target r.cid },
      true)
  else (w, false)

/-- Deliver loaded rows in order up to the first failure; whether any went through. -/
def deliverRows (self target : NodeId) (ans : Nat → Delivery) :
    World → List PendingRow → World × Bool
  | w, [] => (w, false)
  | w, r :: rows =>
    let (w, ok) := deliverCached shardKey w self target r (ans rows.length)
    if ok then ((deliverRows self target ans w rows).1, true) else (w, false)

/-- `replay_for_peer`: one batch, as the maintenance thread does it. -/
def replayForPeer (w : World) (self : NodeId) (p : PeerInfo) (ans : Nat → Delivery) : World :=
  if p.addr = [] ∨ p.port ≤ 0 then w
  else (deliverRows shardKey self p.id ans w (cacheLoad (w self).cache p.id 256)).1

/-- The rounds of `edb_repl_drain_peer`: until the queue is empty or stalls. -/
def drainRounds (self target : NodeId) (ans : Nat → Nat → Delivery) : Nat → World → World
  | 0, w => w
  | round + 1, w =>
    let rows := cacheLoad (w self).cache target 256
    if rows.length = 0 then w
    else
      let (w, progress) := deliverRows shardKey self target (ans round) w rows
      if progress then drainRounds self target ans round w else w

/-- `edb_repl_drain_peer`: the changes still queued afterwards, and all nodes. -/
def edbReplDrainPeer (w : World) (self target : NodeId) (ans : Nat → Nat → Delivery) :
    Nat × World :=
  let w := match findPeer (w self).cluster target with
    | none => w
    | some p => drainRounds shardKey self p.id ans 64 w
  (edbReplPendingFor (w self).cache target, w)

/-! ## What an exchange does -/

/-- The documents a receiver applies. -/
def ChangeDoc.accepted (doc : ChangeDoc) : Bool := doc.db.isSome && (decodeChange doc).isSome

/-- The peer acknowledges the document. -/
def acknowledges (ans : NodeId → Delivery) (doc : ChangeDoc) (x : NodeId) : Bool :=
  ans x = .answered && doc.accepted

theorem applyChangeLocal_snd (engine : CString → Shard) (doc : ChangeDoc) :
    (applyChangeLocal shardKey engine doc).2 = (decodeChange doc).isSome := by
  rw [applyChangeLocal]
  cases decodeChange doc <;> rfl

theorem apiApplyChange_snd (engine : CString → Shard) (doc : ChangeDoc) :
    (apiApplyChange shardKey engine doc).2 = doc.accepted := by
  rw [apiApplyChange, ChangeDoc.accepted]
  cases doc.db with
  | none => rfl
  | some db => exact applyChangeLocal_snd shardKey engine doc

theorem receive_fst {x : NodeId} (d : Delivery) (n : ReplNode x) (doc : ChangeDoc) :
    (receive shardKey d n doc).1 =
      if d.handled then { n with engine := (apiApplyChange shardKey n.engine doc).1 }
      else n := by
  cases d <;> rfl

theorem receive_snd {x : NodeId} (d : Delivery) (n : ReplNode x) (doc : ChangeDoc) :
    (receive shardKey d n doc).2 = (decide (d = .answered) && doc.accepted) := by
  cases d
  case answered => exact apiApplyChange_snd shardKey n.engine doc
  all_goals rfl

/-! ## What the fan-out does -/

/-- The fan-out sends to `x`. -/
def Contacted (self : NodeId) (peers : List PeerInfo) (x : NodeId) : Prop :=
  x ≠ self ∧ ∃ p ∈ peers, p.id = x ∧ p.dialable = true

instance (self : NodeId) (peers : List PeerInfo) (x : NodeId) :
    Decidable (Contacted self peers x) :=
  inferInstanceAs (Decidable (x ≠ self ∧ ∃ p ∈ peers, p.id = x ∧ p.dialable = true))

section FanOut

variable {shardKey}
variable {self : NodeId} {ans : NodeId → Delivery} {payload : ChangeDoc}
variable {holders : List NodeId}

theorem fanOutStep_self {p : PeerInfo} (st : FanOut) (h : p.id = self) :
    fanOutStep shardKey self ans payload holders st p =
      { st with delivered := p.id :: st.delivered } :=
  if_pos h

theorem fanOutStep_skip {p : PeerInfo} (st : FanOut) (h : p.id ≠ self)
    (hd : p.dialable = false) : fanOutStep shardKey self ans payload holders st p = st := by
  rw [fanOutStep, if_neg h, hd]
  rfl

theorem fanOutStep_contacted {p : PeerInfo} (st : FanOut) (h : p.id ≠ self)
    (hd : p.dialable = true) :
    fanOutStep shardKey self ans payload holders st p =
      { world := Function.update st.world p.id
          (receive shardKey (ans p.id) (st.world p.id) payload).1
        delivered :=
          if acknowledges ans payload p.id then p.id :: st.delivered else st.delivered
        acknowledgements :=
          if acknowledges ans payload p.id && p.id ∈ holders then st.acknowledgements + 1
          else st.acknowledgements } := by
  rw [fanOutStep, if_neg h, hd]
  simp only [Bool.not_true, Bool.false_eq_true, if_false, receive_snd, acknowledges]
  rfl

/-- Exactly the contacted nodes change, each as its answer says. -/
theorem foldl_fanOutStep_world {peers : List PeerInfo}
    (hnodup : (peers.map PeerInfo.id).Nodup) (st : FanOut) (x : NodeId) :
    (peers.foldl (fanOutStep shardKey self ans payload holders) st).world x =
      if Contacted self peers x then (receive shardKey (ans x) (st.world x) payload).1
      else st.world x := by
  induction peers generalizing st with
  | nil => rw [if_neg (fun h => by obtain ⟨-, p, hp, -⟩ := h; cases hp)]; rfl
  | cons p peers ih =>
    obtain ⟨hp, hnodup⟩ := List.nodup_cons.mp hnodup
    rw [List.foldl_cons, ih hnodup]
    have hne : ∀ q ∈ peers, q.id ≠ p.id := fun q hq heq =>
      hp (heq ▸ List.mem_map_of_mem hq)
    by_cases hself : p.id = self
    · have : Contacted self (p :: peers) x ↔ Contacted self peers x := by
        simp only [Contacted, List.mem_cons, exists_eq_or_imp]
        refine and_congr_right fun hx => or_iff_right fun h => hx ?_
        rw [← h.1, hself]
      simp only [fanOutStep_self st hself, this]
    · by_cases hd : p.dialable
      · rw [fanOutStep_contacted st hself hd]
        by_cases hx : x = p.id
        · subst hx
          have hrest : ¬ Contacted self peers p.id := fun ⟨_, q, hq, hid, _⟩ => hne q hq hid
          have hhead : Contacted self (p :: peers) p.id :=
            ⟨hself, p, List.mem_cons_self, rfl, hd⟩
          simp only [if_neg hrest, if_pos hhead, Function.update_self]
        · have : Contacted self (p :: peers) x ↔ Contacted self peers x := by
            simp only [Contacted, List.mem_cons, exists_eq_or_imp]
            exact and_congr_right fun _ => or_iff_right fun h => hx h.1.symm
          simp only [Function.update_of_ne hx, this]
      · rw [fanOutStep_skip st hself (by simpa using hd)]
        have : Contacted self (p :: peers) x ↔ Contacted self peers x := by
          simp only [Contacted, List.mem_cons, exists_eq_or_imp]
          exact and_congr_right fun _ => or_iff_right fun h => hd h.2
        simp only [this]

/-- The ids the fan-out counts as delivered. -/
theorem mem_foldl_fanOutStep_delivered {peers : List PeerInfo} (st : FanOut) (x : NodeId) :
    x ∈ (peers.foldl (fanOutStep shardKey self ans payload holders) st).delivered ↔
      x ∈ st.delivered ∨ (x = self ∧ ∃ p ∈ peers, p.id = x) ∨
        (Contacted self peers x ∧ acknowledges ans payload x = true) := by
  induction peers generalizing st with
  | nil => simp [Contacted]
  | cons p peers ih =>
    rw [List.foldl_cons, ih]
    by_cases hself : p.id = self
    · rw [fanOutStep_self st hself]
      simp only [Contacted, List.mem_cons, exists_eq_or_imp]
      grind
    · by_cases hd : p.dialable
      · rw [fanOutStep_contacted st hself hd]
        simp only [Contacted, List.mem_cons, exists_eq_or_imp]
        grind
      · rw [fanOutStep_skip st hself (by simpa using hd)]
        simp only [Contacted, List.mem_cons, exists_eq_or_imp]
        grind

/-- The holders among the peers that acknowledge the document. -/
def acknowledgingHolders (self : NodeId) (ans : NodeId → Delivery) (payload : ChangeDoc)
    (holders : List NodeId) (peers : List PeerInfo) : List NodeId :=
  (peers.filter fun p => p.id ≠ self && p.dialable && acknowledges ans payload p.id &&
    p.id ∈ holders).map PeerInfo.id

theorem mem_acknowledgingHolders {peers : List PeerInfo} {x : NodeId} :
    x ∈ acknowledgingHolders self ans payload holders peers ↔
      Contacted self peers x ∧ acknowledges ans payload x = true ∧ x ∈ holders := by
  simp only [acknowledgingHolders, Contacted, List.mem_map, List.mem_filter,
    Bool.and_eq_true, decide_eq_true_eq]
  constructor
  · rintro ⟨p, ⟨hp, ⟨⟨hself, hd⟩, hack⟩, hmem⟩, rfl⟩
    exact ⟨⟨hself, p, hp, rfl, hd⟩, hack, hmem⟩
  · rintro ⟨⟨hself, p, hp, rfl, hd⟩, hack, hmem⟩
    exact ⟨p, ⟨hp, ⟨⟨hself, hd⟩, hack⟩, hmem⟩, rfl⟩

theorem nodup_acknowledgingHolders {peers : List PeerInfo}
    (hnodup : (peers.map PeerInfo.id).Nodup) :
    (acknowledgingHolders self ans payload holders peers).Nodup :=
  hnodup.sublist (List.filter_sublist.map _)

theorem foldl_fanOutStep_acknowledgements {peers : List PeerInfo} (st : FanOut) :
    (peers.foldl (fanOutStep shardKey self ans payload holders) st).acknowledgements =
      st.acknowledgements + (acknowledgingHolders self ans payload holders peers).length := by
  induction peers generalizing st with
  | nil => rfl
  | cons p peers ih =>
    rw [List.foldl_cons, ih]
    simp only [acknowledgingHolders, List.length_map, List.filter_cons]
    by_cases hself : p.id = self
    · simp [fanOutStep_self st hself, hself]
    · by_cases hd : p.dialable
      · rw [fanOutStep_contacted st hself hd]
        by_cases hack : acknowledges ans payload p.id = true ∧ p.id ∈ holders
        · simp [hself, hd, hack]
          omega
        · simp only [not_and] at hack
          by_cases ha : acknowledges ans payload p.id = true
          · simp [hself, hd, ha, hack ha]
          · simp [hself, hd, ha]
      · simp [fanOutStep_skip st hself (by simpa using hd), hd]

end FanOut

/-! ## What a write does -/

section Write

variable {w : World} {self : NodeId} {now : Int} {ans : NodeId → Delivery} {db : CString}
variable {doc : ChangeDoc} {partition keyspace : CString}

theorem ReplNode.nodup_peers {x : NodeId} (n : ReplNode x) :
    (n.peers.map PeerInfo.id).Nodup :=
  n.cluster.peers.nodup.sublist ((List.take_sublist _ _).map _)

/-- The acknowledgements a write of node `n` counts. -/
def writeAcks {x : NodeId} (n : ReplNode x) (ans : NodeId → Delivery) (payload : ChangeDoc)
    (holders : List NodeId) : Nat :=
  (if x ∈ holders then 1 else 0) + (acknowledgingHolders x ans payload holders n.peers).length

/-- The quorum of a write is lost. -/
def quorumMissed {x : NodeId} (n : ReplNode x) (ans : NodeId → Delivery) (payload : ChangeDoc)
    (holders : List NodeId) : Bool :=
  decide (writeAcks n ans payload holders < holders.length / 2 + 1)

theorem finishWrite_status (cid : CString) (payload : ChangeDoc) (peers : List PeerInfo)
    (lost : Bool) (sent : FanOut) :
    (finishWrite shardKey self cid payload peers lost sent).1 =
      if lost then .quorumLost
      else if (decodeChange payload).isSome then .ok else .localFail := by
  cases lost
  · simp only [finishWrite, applyChangeLocal_snd, Bool.false_eq_true, if_false]
  · rfl

theorem finishWrite_other (cid : CString) (payload : ChangeDoc) (peers : List PeerInfo)
    (lost : Bool) (sent : FanOut) {x : NodeId} (hx : x ≠ self) :
    (finishWrite shardKey self cid payload peers lost sent).2 x = sent.world x := by
  cases lost <;> exact Function.update_of_ne hx ..

theorem finishWrite_self (cid : CString) (payload : ChangeDoc) (peers : List PeerInfo)
    (lost : Bool) (sent : FanOut) :
    (finishWrite shardKey self cid payload peers lost sent).2 self =
      { sent.world self with
        engine :=
          if lost then (sent.world self).engine
          else (applyChangeLocal shardKey (sent.world self).engine payload).1
        cache := cacheUndelivered self sent.delivered cid payload (sent.world self).cache
          peers } := by
  cases lost <;> exact Function.update_self ..

/-- The fan-out of a write leaves the writer's own node alone. -/
theorem fanOut_self (n : ReplNode self) (holders : List NodeId) (payload : ChangeDoc) :
    (fanOut shardKey self ans payload holders (Function.update w self n)
      (w self).peers).world self = n := by
  rw [fanOut, foldl_fanOutStep_world (w self).nodup_peers, if_neg (fun h => h.1 rfl)]
  exact Function.update_self ..

variable {shardKey}

/-- The write as the run of its end, once its shard is named. -/
theorem edbReplWrite_eq (hp : doc.partition = some partition)
    (hk : doc.keyspace = some keyspace) :
    edbReplWrite shardKey w self now ans db doc =
      finishWrite shardKey self (changeId self now ((w self).changeSeq + 1))
        (sentDoc self doc) (w self).peers
        (quorumMissed (w self) ans (sentDoc self doc)
          ((w self).countedHolders shardKey db partition keyspace))
        (fanOut shardKey self ans (sentDoc self doc)
          ((w self).countedHolders shardKey db partition keyspace)
          (Function.update w self { w self with changeSeq := (w self).changeSeq + 1 })
          (w self).peers) := by
  rw [edbReplWrite, hp, hk]
  simp only [quorumMissed, writeAcks, fanOut, foldl_fanOutStep_acknowledgements, Nat.zero_add]
  rfl

/-- **The outcome of a write**: the quorum decides first, then the local apply. -/
theorem edbReplWrite_status (hp : doc.partition = some partition)
    (hk : doc.keyspace = some keyspace) :
    (edbReplWrite shardKey w self now ans db doc).1 =
      if quorumMissed (w self) ans (sentDoc self doc)
        ((w self).countedHolders shardKey db partition keyspace) then .quorumLost
      else if (decodeChange (sentDoc self doc)).isSome then .ok else .localFail := by
  rw [edbReplWrite_eq hp hk, finishWrite_status]

/-- Another node changes by what it received. -/
theorem edbReplWrite_other (hp : doc.partition = some partition)
    (hk : doc.keyspace = some keyspace) {x : NodeId} (hx : x ≠ self) :
    (edbReplWrite shardKey w self now ans db doc).2 x =
      if Contacted self (w self).peers x then
        (receive shardKey (ans x) (w x) (sentDoc self doc)).1
      else w x := by
  rw [edbReplWrite_eq hp hk, finishWrite_other shardKey _ _ _ _ _ hx, fanOut,
    foldl_fanOutStep_world (w self).nodup_peers]
  simp only [Function.update_of_ne hx]

/-- The writer applies the change unless the quorum is lost. -/
theorem edbReplWrite_self_engine (hp : doc.partition = some partition)
    (hk : doc.keyspace = some keyspace) :
    ((edbReplWrite shardKey w self now ans db doc).2 self).engine =
      if quorumMissed (w self) ans (sentDoc self doc)
        ((w self).countedHolders shardKey db partition keyspace) then (w self).engine
      else (applyChangeLocal shardKey (w self).engine (sentDoc self doc)).1 := by
  rw [edbReplWrite_eq hp hk, finishWrite_self, fanOut_self]

/-- The writer caches the document for the peers that did not acknowledge it. -/
theorem edbReplWrite_self_cache (shardKey : CString → CString → CString) (w : World)
    (self : NodeId) (now : Int) (ans : NodeId → Delivery) (db : CString)
    (hp : doc.partition = some partition) (hk : doc.keyspace = some keyspace) :
    ∃ delivered : List NodeId,
      (∀ x, x ∈ delivered ↔ (x = self ∧ ∃ p ∈ (w self).peers, p.id = x) ∨
        (Contacted self (w self).peers x ∧ acknowledges ans (sentDoc self doc) x = true)) ∧
      ((edbReplWrite shardKey w self now ans db doc).2 self).cache =
        cacheUndelivered self delivered (changeId self now ((w self).changeSeq + 1))
          (sentDoc self doc) (w self).cache (w self).peers := by
  refine ⟨(fanOut shardKey self ans (sentDoc self doc)
    ((w self).countedHolders shardKey db partition keyspace)
    (Function.update w self { w self with changeSeq := (w self).changeSeq + 1 })
    (w self).peers).delivered, fun x => ?_, ?_⟩
  · rw [fanOut, mem_foldl_fanOutStep_delivered]
    exact or_iff_right List.not_mem_nil
  · rw [edbReplWrite_eq hp hk, finishWrite_self, fanOut_self]

/-- A write changes engines, caches and counters only. -/
theorem edbReplWrite_frame (shardKey : CString → CString → CString) (w : World) (self : NodeId)
    (now : Int) (ans : NodeId → Delivery) (db : CString) (doc : ChangeDoc) (x : NodeId) :
    ((edbReplWrite shardKey w self now ans db doc).2 x).cluster = (w x).cluster ∧
      ((edbReplWrite shardKey w self now ans db doc).2 x).databases = (w x).databases := by
  cases hp : doc.partition with
  | none => simp only [edbReplWrite, hp, and_self]
  | some partition =>
    cases hk : doc.keyspace with
    | none => simp only [edbReplWrite, hp, hk, and_self]
    | some keyspace =>
      by_cases hx : x = self
      · subst hx
        rw [edbReplWrite_eq hp hk, finishWrite_self, fanOut_self]
        exact ⟨rfl, rfl⟩
      · rw [edbReplWrite_other hp hk hx, receive_fst]
        split
        · split <;> exact ⟨rfl, rfl⟩
        · exact ⟨rfl, rfl⟩

end Write

/-! ## What a replay does -/

theorem update_cache_engine (w : World) (x y : NodeId) (cache : ChangeCache) :
    (Function.update w x { w x with cache } y).engine = (w y).engine := by
  by_cases hy : y = x
  · subst hy
    rw [Function.update_self]
  · rw [Function.update_of_ne hy]

/-- A delivery from a cache is an exchange for the engines. -/
theorem deliverCached_engine_eq (w : World) (self target : NodeId) (r : PendingRow)
    (d : Delivery) (y : NodeId) :
    ((deliverCached shardKey w self target r d).1 y).engine =
      (Function.update w target (receive shardKey d (w target) r.payload).1 y).engine := by
  unfold deliverCached
  cases hok : (receive shardKey d (w target) r.payload).2 with
  | true =>
    simp only [hok, if_true]
    rw [update_cache_engine]
  | false =>
    simp only [hok, Bool.false_eq_true, if_false]

end EpsilonDB
