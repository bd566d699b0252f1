import EpsilonDB.Socket.Repl
import Mathlib.Logic.Relation

/-!
# What a rejected write leaves behind

A write whose quorum is lost is not applied by its writer, but the peers that took
it keep it, and it is queued for the peers that did not.

- `LaterStep`: what the replication service does on its own afterwards.
- `NoTrace`: no cache queues the change and no shard holds its row. Traces are told
  by content, so an equal change of another write counts as well.
- `NoTrace.step`, `NoTrace.run`: what is nowhere stays nowhere.
- `rejected_noTrace_iff`: exactly the rejected writes that leave no trace.
-/

namespace EpsilonDB

variable (shardKey : CString → CString → CString)

/-- Steps of the service between client writes: a peer's queue is drained or
replayed, a node's view changes, or a node restarts. -/
inductive LaterStep (w : World) : World → Prop where
  | drain (self target : NodeId) (ans : Nat → Nat → Delivery) :
    LaterStep w (edbReplDrainPeer shardKey w self target ans).2
  | replay (self : NodeId) (p : PeerInfo) (ans : Nat → Delivery) (hp : p ∈ (w self).peers)
    (online : p.online = true) (other : p.id ≠ self) :
    LaterStep w (replayForPeer shardKey w self p ans)
  | reconnect (self : NodeId) (cluster : Cluster) (selfId_eq : cluster.selfId = self)
    (bounded : ∀ p ∈ cluster.peers.rows.drop maxPeers, p.id = self) :
    LaterStep w (Function.update w self { w self with cluster, selfId_eq, bounded })
  | restart (self : NodeId) (isOpen : Bool) :
    LaterStep w (Function.update w self
      { w self with cache := { (w self).cache with isOpen }, changeSeq := 0 })

/-- The row a document writes: shard, record and row. -/
def effect (doc : ChangeDoc) : Option (CString × CString × Row) :=
  (decodeChange doc).map fun (partition, keyspace, change) =>
    (shardKey partition keyspace, change.id, change.row)

/-- `payload` carries the change of `doc`. -/
def SameChange (doc payload : ChangeDoc) : Prop :=
  payload = doc ∨ ((effect shardKey doc).isSome = true ∧
    effect shardKey payload = effect shardKey doc)

/-- No node queues the change of `doc` and no shard holds its row. -/
structure NoTrace (doc : ChangeDoc) (w : World) : Prop where
  cache : ∀ x, ∀ r ∈ (w x).cache.rows, ¬ SameChange shardKey doc r.payload
  shard : ∀ x key id row, effect shardKey doc = some (key, id, row) →
    ((w x).engine key).lookup id ≠ some row

/-- Every receiver that handles the change already holds a newer version. -/
def SupersededAtReceivers (w : World) (self : NodeId) (ans : NodeId → Delivery)
    (doc : ChangeDoc) : Prop :=
  ∀ x, Contacted self (w self).peers x → (ans x).handled = true → doc.db.isSome = true →
    ∀ partition keyspace change, decodeChange doc = some (partition, keyspace, change) →
      comparedVersion (some change.row) <
        comparedVersion (((w x).engine (shardKey partition keyspace)).lookup change.id)

section

variable {shardKey}
variable {w w' : World} {self target : NodeId} {doc payload : ChangeDoc}

/-! ## Applying a document -/

theorem decodeChange_of_effect {key id : CString} {row : Row}
    (h : effect shardKey doc = some (key, id, row)) :
    ∃ partition keyspace change, decodeChange doc = some (partition, keyspace, change) ∧
      shardKey partition keyspace = key ∧ change.id = id ∧ change.row = row := by
  rw [effect, Option.map_eq_some_iff] at h
  obtain ⟨⟨p, k, c⟩, hdec, heq⟩ := h
  obtain ⟨rfl, rfl, rfl⟩ : shardKey p k = key ∧ c.id = id ∧ c.row = row := by
    simpa only [Prod.mk.injEq] using heq
  exact ⟨p, k, c, hdec, rfl, rfl, rfl⟩

theorem effect_of_decode {c : Change} {p k : CString}
    (h : decodeChange doc = some (p, k, c)) :
    effect shardKey doc = some (shardKey p k, c.id, c.row) := by
  rw [effect, h]
  rfl

/-- A row that was not there before comes from a document that carries it. -/
theorem lookup_apiApplyChange {engine : CString → Shard} {key id : CString} {row : Row}
    (hold : (engine key).lookup id ≠ some row)
    (hne : effect shardKey payload ≠ some (key, id, row)) :
    (((apiApplyChange shardKey engine payload).1) key).lookup id ≠ some row := by
  rw [apiApplyChange]
  cases payload.db with
  | none => exact hold
  | some db =>
    simp only [applyChangeLocal]
    cases hdec : decodeChange payload with
    | none => exact hold
    | some e =>
      obtain ⟨p, k, c⟩ := e
      by_cases hkey : key = shardKey p k
      · subst hkey
        simp only [Function.update_self]
        rw [lookup_applyChange]
        split
        · rename_i hid
          rcases lt_or_ge (comparedVersion (some c.row))
            (comparedVersion ((engine (shardKey p k)).lookup id)) with hlt | hle
          · rwa [LastWriter.write_of_lt hlt]
          · rw [LastWriter.write_of_le hle]
            intro hrow
            refine hne ?_
            rw [effect_of_decode hdec, hid, Option.some.inj hrow]
        · exact hold
      · simp only [Function.update_of_ne hkey]
        exact hold

/-- Receiving a document leaves the cache of the receiver alone. -/
theorem receive_cache {x : NodeId} (d : Delivery) (n : ReplNode x) :
    (receive shardKey d n payload).1.cache = n.cache := by
  rw [receive_fst]
  split <;> rfl

theorem lookup_receive {x : NodeId} {d : Delivery} {n : ReplNode x} {key id : CString}
    {row : Row} (hold : (n.engine key).lookup id ≠ some row)
    (hne : effect shardKey payload ≠ some (key, id, row)) :
    ((receive shardKey d n payload).1.engine key).lookup id ≠ some row := by
  rw [receive_fst]
  split
  · exact lookup_apiApplyChange hold hne
  · exact hold

/-! ## What is nowhere stays nowhere -/

theorem effect_ne_of_not_sameChange {key id : CString} {row : Row}
    (heff : effect shardKey doc = some (key, id, row))
    (h : ¬ SameChange shardKey doc payload) : effect shardKey payload ≠ some (key, id, row) :=
  fun heq => h (Or.inr ⟨by rw [heff]; rfl, by rw [heq, heff]⟩)

/-- Replacing one node keeps `NoTrace` when the new node has no trace. -/
theorem NoTrace.update (h : NoTrace shardKey doc w) {x : NodeId} {n : ReplNode x}
    (hcache : ∀ r ∈ n.cache.rows, ¬ SameChange shardKey doc r.payload)
    (hshard : ∀ key id row, effect shardKey doc = some (key, id, row) →
      (n.engine key).lookup id ≠ some row) :
    NoTrace shardKey doc (Function.update w x n) where
  cache y := by
    by_cases hy : y = x
    · subst hy
      rwa [Function.update_self]
    · rw [Function.update_of_ne hy]
      exact h.cache y
  shard y := by
    by_cases hy : y = x
    · subst hy
      rwa [Function.update_self]
    · rw [Function.update_of_ne hy]
      exact h.shard y

theorem mem_cacheRemove {cc : ChangeCache} {cid : CString} {r : PendingRow}
    (h : r ∈ (cacheRemove cc target cid).rows) : r ∈ cc.rows := by
  rw [cacheRemove] at h
  split at h
  · exact List.mem_of_mem_filter h
  · exact h

theorem mem_cacheLoad {cc : ChangeCache} {limit : Nat} {r : PendingRow}
    (h : r ∈ cacheLoad cc target limit) : r ∈ cc.rows := by
  rw [cacheLoad] at h
  split at h
  · exact List.mem_of_mem_filter (List.mem_of_mem_take h)
  · cases h

theorem NoTrace.deliverCached (h : NoTrace shardKey doc w) {r : PendingRow} {d : Delivery}
    (hr : ¬ SameChange shardKey doc r.payload) :
    NoTrace shardKey doc (deliverCached shardKey w self target r d).1 := by
  have hsent : NoTrace shardKey doc
      (Function.update w target (receive shardKey d (w target) r.payload).1) := by
    refine h.update (fun q hq => ?_) fun key id row heff => ?_
    · rw [receive_cache] at hq
      exact h.cache target q hq
    · exact lookup_receive (h.shard target key id row heff)
        (effect_ne_of_not_sameChange heff hr)
  simp only [EpsilonDB.deliverCached]
  split
  · exact hsent.update (fun q hq => hsent.cache self q (mem_cacheRemove hq))
      (hsent.shard self)
  · exact hsent

theorem NoTrace.deliverRows (ans : Nat → Delivery) (rows : List PendingRow)
    (h : NoTrace shardKey doc w) (hrows : ∀ r ∈ rows, ¬ SameChange shardKey doc r.payload) :
    NoTrace shardKey doc (deliverRows shardKey self target ans w rows).1 := by
  induction rows generalizing w with
  | nil => exact h
  | cons r rows ih =>
    have hstep : NoTrace shardKey doc
        (EpsilonDB.deliverCached shardKey w self target r (ans rows.length)).1 :=
      h.deliverCached (hrows r List.mem_cons_self)
    simp only [EpsilonDB.deliverRows]
    split
    · exact ih hstep fun q hq => hrows q (List.mem_cons_of_mem _ hq)
    · exact hstep

theorem NoTrace.drainRounds (ans : Nat → Nat → Delivery) (rounds : Nat)
    (h : NoTrace shardKey doc w) :
    NoTrace shardKey doc (drainRounds shardKey self target ans rounds w) := by
  induction rounds generalizing w with
  | zero => exact h
  | succ round ih =>
    have hbatch : NoTrace shardKey doc (EpsilonDB.deliverRows shardKey self target
        (ans round) w (cacheLoad (w self).cache target 256)).1 :=
      h.deliverRows _ _ fun r hr => h.cache self r (mem_cacheLoad hr)
    simp only [EpsilonDB.drainRounds]
    split
    · exact h
    · split
      · exact ih hbatch
      · exact hbatch

/-- **One step** of the service creates no trace. -/
theorem NoTrace.step (h : NoTrace shardKey doc w) (hs : LaterStep shardKey w w') :
    NoTrace shardKey doc w' := by
  cases hs with
  | drain self target ans =>
    simp only [edbReplDrainPeer]
    split
    · exact h
    · exact h.drainRounds ans 64
  | replay self p ans hp online other =>
    rw [replayForPeer]
    split
    · exact h
    · exact h.deliverRows ans _ fun r hr => h.cache self r (mem_cacheLoad hr)
  | reconnect self cluster selfId_eq bounded => exact h.update (h.cache self) (h.shard self)
  | restart self isOpen => exact h.update (h.cache self) (h.shard self)

/-- **A run** of the service creates no trace. -/
theorem NoTrace.run (h : NoTrace shardKey doc w)
    (hrun : Relation.ReflTransGen (LaterStep shardKey) w w') : NoTrace shardKey doc w' := by
  induction hrun with
  | refl => exact h
  | tail _ hs ih => exact ih.step hs

/-! ## The trace of a rejected write -/

variable {now : Int} {ans : NodeId → Delivery} {db : CString} {partition keyspace : CString}

/-- A counted holder is this node or a peer it sees. -/
theorem mem_peers_of_mem_countedHolders {n : ReplNode self} {x : NodeId}
    (h : x ∈ n.countedHolders shardKey db partition keyspace) :
    x = self ∨ ∃ p ∈ n.peers, p.id = x := by
  rw [ReplNode.countedHolders, writeHolders] at h
  split at h
  · left
    rw [List.mem_singleton.mp h, n.selfId_eq]
  · have hmem := List.mem_of_mem_take h
    have hcand : x ∈ edbClusterHolders n.cluster (shardKey partition keyspace) maxPeers := by
      rcases List.mem_append.mp hmem with hmem | hmem <;> exact List.mem_of_mem_filter hmem
    obtain ⟨p, hp, hid, -⟩ := mem_holderCandidates (mem_edbClusterHolders hcand)
    rw [← List.take_append_drop maxPeers n.cluster.peers.rows, List.mem_append] at hp
    rcases hp with hp | hp
    · exact Or.inr ⟨p, hp, hid⟩
    · exact Or.inl (hid ▸ n.bounded p hp)

theorem nodup_countedHolders (n : ReplNode self) :
    (n.countedHolders shardKey db partition keyspace).Nodup := by
  rw [ReplNode.countedHolders, writeHolders]
  split
  · exact List.nodup_singleton _
  · refine List.Nodup.sublist (List.take_sublist ..) (List.Nodup.append ?_ ?_ ?_)
    · exact (nodup_edbClusterHolders ..).sublist List.filter_sublist
    · exact (nodup_edbClusterHolders ..).sublist List.filter_sublist
    · intro x hx hx'
      have := List.of_mem_filter hx
      have := List.of_mem_filter hx'
      simp_all

theorem countedHolders_ne_nil (n : ReplNode self) :
    0 < (n.countedHolders shardKey db partition keyspace).length := by
  rw [ReplNode.countedHolders, writeHolders]
  split
  · exact Nat.one_pos
  · omega

/-- When the quorum is missed, some other holder did not acknowledge. -/
theorem exists_undelivered_holder {n : ReplNode self}
    (h : quorumMissed n ans payload (n.countedHolders shardKey db partition keyspace) = true) :
    ∃ p ∈ n.peers, p.id ≠ self ∧
      ¬ (Contacted self n.peers p.id ∧ acknowledges ans payload p.id = true) := by
  by_contra hall
  have hpos : 0 < (n.countedHolders shardKey db partition keyspace).length :=
    countedHolders_ne_nil n
  have hnodup : (n.countedHolders shardKey db partition keyspace).Nodup :=
    nodup_countedHolders n
  set holders := n.countedHolders shardKey db partition keyspace with hholders
  -- otherwise every holder is the writer or acknowledges, so all of them count
  have hsub : ∀ x ∈ holders.erase self,
      x ∈ acknowledgingHolders self ans payload holders n.peers := by
    intro x hx
    obtain ⟨hne, hmem⟩ := (hnodup.mem_erase_iff).mp hx
    obtain ⟨p, hp, rfl⟩ := (mem_peers_of_mem_countedHolders hmem).resolve_left hne
    have hack : Contacted self n.peers p.id ∧ acknowledges ans payload p.id = true := by
      by_contra hnot
      exact hall ⟨p, hp, hne, hnot⟩
    exact mem_acknowledgingHolders.mpr ⟨hack.1, hack.2, hmem⟩
  have hle := ((hnodup.erase self).subperm hsub).length_le
  rw [quorumMissed, decide_eq_true_eq, writeAcks] at h
  by_cases hself : self ∈ holders
  · rw [List.length_erase_of_mem hself] at hle
    rw [if_pos hself] at h
    omega
  · rw [List.erase_of_not_mem hself] at hle
    omega

theorem isOpen_cacheAppend (cc : ChangeCache) (x : NodeId) (cid : CString) :
    (cacheAppend cc x cid payload).isOpen = cc.isOpen := by
  rw [cacheAppend]
  split <;> rfl

/-- A closed cache takes nothing. -/
theorem cacheUndelivered_closed {cc : ChangeCache} (h : cc.isOpen = false)
    (delivered : List NodeId) (cid : CString) (peers : List PeerInfo) :
    cacheUndelivered self delivered cid payload cc peers = cc := by
  rw [cacheUndelivered]
  induction peers with
  | nil => rfl
  | cons p peers ih =>
    have hskip : cacheAppend cc p.id cid payload = cc := by
      rw [cacheAppend, h]
      rfl
    rw [List.foldl_cons, hskip, ite_self, ih]

/-- Rows of an open cache are the old ones or carry the payload; and a payload once
appended stays. -/
theorem mem_cacheUndelivered {delivered : List NodeId} {peers : List PeerInfo}
    (cid : CString) (payload : ChangeDoc) {cc : ChangeCache} (h : cc.isOpen = true) :
    ((∃ r ∈ cc.rows, r.payload = payload) ∨
        (∃ p ∈ peers, p.id ∉ delivered ∧ p.id ≠ self ∧ p.id ≠ [])) →
      ∃ r ∈ (cacheUndelivered self delivered cid payload cc peers).rows,
        r.payload = payload := by
  rw [cacheUndelivered]
  induction peers generalizing cc with
  | nil =>
    rintro (h | ⟨p, hp, -⟩)
    · exact h
    · cases hp
  | cons p peers ih =>
    intro hsome
    rw [List.foldl_cons]
    by_cases hp : p.id ∉ delivered ∧ p.id ≠ self ∧ p.id ≠ []
    · rw [if_pos hp]
      refine ih ((isOpen_cacheAppend ..).trans h) (Or.inl ⟨⟨p.id, cid, payload⟩, ?_, rfl⟩)
      rw [cacheAppend, if_pos h]
      exact List.mem_append_right _ List.mem_cons_self
    · rw [if_neg hp]
      refine ih h (hsome.imp_right ?_)
      rintro ⟨q, hq, hcond⟩
      rcases List.mem_cons.mp hq with rfl | hq
      · exact absurd hcond hp
      · exact ⟨q, hq, hcond⟩

/-- A rejected write is a write of a named shard that misses its quorum. -/
theorem quorumMissed_of_rejected
    (h : edbReplWrite shardKey w self now ans db doc = (.quorumLost, w')) :
    ∃ partition keyspace, doc.partition = some partition ∧ doc.keyspace = some keyspace ∧
      quorumMissed (w self) ans (sentDoc self doc)
        ((w self).countedHolders shardKey db partition keyspace) = true := by
  cases hp : doc.partition with
  | none => simp [edbReplWrite, hp] at h
  | some partition =>
    cases hk : doc.keyspace with
    | none => simp [edbReplWrite, hp, hk] at h
    | some keyspace =>
      refine ⟨partition, keyspace, rfl, rfl, ?_⟩
      have hstatus : (edbReplWrite shardKey w self now ans db doc).1 = .quorumLost := by rw [h]
      rw [edbReplWrite_status hp hk] at hstatus
      by_contra hq
      rw [if_neg hq] at hstatus
      split at hstatus <;> cases hstatus

/-- What a handled document leaves in its own record. -/
theorem lookup_receive_handled {x : NodeId} {d : Delivery} (n : ReplNode x)
    (hd : d.handled = true) (hdb : payload.db.isSome = true) {c : Change}
    (hdec : decodeChange payload = some (partition, keyspace, c)) :
    ((receive shardKey d n payload).1.engine (shardKey partition keyspace)).lookup c.id =
      LastWriter.write comparedVersion
        ((n.engine (shardKey partition keyspace)).lookup c.id) (some c.row) := by
  obtain ⟨db, hdb⟩ := Option.isSome_iff_exists.mp hdb
  rw [receive_fst, if_pos hd]
  simp only [apiApplyChange, hdb, applyChangeLocal, hdec, Function.update_self]
  rw [lookup_applyChange, if_pos rfl]

/-- A document that is not handled, or not acceptable, changes no shard. -/
theorem receive_engine_of_not {x : NodeId} {d : Delivery} (n : ReplNode x)
    (h : ¬ (d.handled = true ∧ payload.db.isSome = true ∧
      (decodeChange payload).isSome = true)) :
    (receive shardKey d n payload).1.engine = n.engine := by
  rw [receive_fst]
  split
  · rename_i hd
    simp only [apiApplyChange, applyChangeLocal]
    cases hdb : payload.db with
    | none => rfl
    | some db =>
      cases hdec : decodeChange payload with
      | none => rfl
      | some e => exact absurd ⟨hd, by rw [hdb]; rfl, by rw [hdec]; rfl⟩ h
  · rfl

/-- A write leaves the cache of the other nodes alone. -/
theorem edbReplWrite_other_cache (hp : doc.partition = some partition)
    (hk : doc.keyspace = some keyspace) {x : NodeId} (hx : x ≠ self) :
    ((edbReplWrite shardKey w self now ans db doc).2 x).cache = (w x).cache := by
  rw [edbReplWrite_other hp hk hx]
  split
  · exact receive_cache _ _
  · rfl

/-- The record of the change at another node: written where the change is handled. -/
theorem lookup_edbReplWrite_other (hp : doc.partition = some partition)
    (hk : doc.keyspace = some keyspace) {x : NodeId} (hx : x ≠ self) {key id : CString} {row : Row}
    (heff : effect shardKey (sentDoc self doc) = some (key, id, row)) :
    (((edbReplWrite shardKey w self now ans db doc).2 x).engine key).lookup id =
      if Contacted self (w self).peers x ∧ (ans x).handled = true ∧
          (sentDoc self doc).db.isSome = true then
        LastWriter.write comparedVersion (((w x).engine key).lookup id) (some row)
      else ((w x).engine key).lookup id := by
  obtain ⟨p, k, c, hdec, rfl, rfl, rfl⟩ := decodeChange_of_effect heff
  rw [edbReplWrite_other hp hk hx]
  by_cases hc : Contacted self (w self).peers x
  · rw [if_pos hc]
    by_cases hh : (ans x).handled = true ∧ (sentDoc self doc).db.isSome = true
    · rw [if_pos ⟨hc, hh⟩, lookup_receive_handled _ hh.1 hh.2 hdec]
    · rw [if_neg fun h => hh h.2, receive_engine_of_not _ fun h => hh ⟨h.1, h.2.1⟩]
  · rw [if_neg hc, if_neg fun h => hc h.1]

/-- A superseded write leaves no trace where there was none and the cache is closed. -/
theorem noTrace_of_superseded (hopen : (w self).cache.isOpen = false)
    (hbefore : NoTrace shardKey (sentDoc self doc) w)
    (hsup : SupersededAtReceivers shardKey w self ans (sentDoc self doc))
    (hrej : edbReplWrite shardKey w self now ans db doc = (.quorumLost, w')) :
    NoTrace shardKey (sentDoc self doc) w' := by
  obtain ⟨p, k, hp, hk, hq⟩ := quorumMissed_of_rejected hrej
  obtain rfl : (edbReplWrite shardKey w self now ans db doc).2 = w' := by rw [hrej]
  obtain ⟨delivered, -, hcache⟩ := edbReplWrite_self_cache shardKey w self now ans db hp hk
  rw [cacheUndelivered_closed hopen] at hcache
  constructor
  · intro x r hr
    by_cases hx : x = self
    · subst hx
      rw [hcache] at hr
      exact hbefore.cache x r hr
    · rw [edbReplWrite_other_cache hp hk hx] at hr
      exact hbefore.cache x r hr
  · intro x key id row heff
    have hold := hbefore.shard x key id row heff
    by_cases hx : x = self
    · subst hx
      rwa [edbReplWrite_self_engine hp hk, if_pos hq]
    · rw [lookup_edbReplWrite_other hp hk hx heff]
      split
      · -- the receiver holds a newer version, so it keeps its row
        rename_i hh
        obtain ⟨p', k', c, hdec, rfl, rfl, rfl⟩ := decodeChange_of_effect heff
        rwa [LastWriter.write_of_lt (hsup x hh.1 hh.2.1 hh.2.2 p' k' c hdec)]
      · exact hold

/-- A rejected write that leaves no trace has found the cache closed: an open one queues it for
the holders that did not acknowledge. -/
theorem cache_closed_of_noTrace
    (hrej : edbReplWrite shardKey w self now ans db doc = (.quorumLost, w'))
    (hafter : NoTrace shardKey (sentDoc self doc) w') : (w self).cache.isOpen = false := by
  obtain ⟨p, k, hp, hk, hq⟩ := quorumMissed_of_rejected hrej
  obtain rfl : (edbReplWrite shardKey w self now ans db doc).2 = w' := by rw [hrej]
  obtain ⟨delivered, hdel, hcache⟩ := edbReplWrite_self_cache shardKey w self now ans db hp hk
  by_contra hopen
  obtain ⟨q, hq', hne, hnot⟩ := exists_undelivered_holder hq
  have hund : q.id ∉ delivered := fun hmem =>
    ((hdel q.id).mp hmem).elim (fun h => hne h.1) hnot
  have hvalid : q.id ≠ [] := by
    have hid := (w self).cluster.peers.valid q (List.mem_of_mem_take hq')
    rw [validNodeId, Bool.and_eq_true, decide_eq_true_eq] at hid
    exact hid.1
  have hqueued := mem_cacheUndelivered (changeId self now ((w self).changeSeq + 1))
    (sentDoc self doc) (by simpa using hopen) (Or.inr ⟨q, hq', hund, hne, hvalid⟩)
  rw [← hcache] at hqueued
  obtain ⟨r, hr, hpay⟩ := hqueued
  exact hafter.cache self r hr (Or.inl hpay)

/-- Without a trace right after the rejection, nothing was queued, nothing was there
before and every receiver held a newer version. -/
theorem superseded_of_noTrace
    (hrej : edbReplWrite shardKey w self now ans db doc = (.quorumLost, w'))
    (hafter : NoTrace shardKey (sentDoc self doc) w') :
    (w self).cache.isOpen = false ∧ NoTrace shardKey (sentDoc self doc) w ∧
      SupersededAtReceivers shardKey w self ans (sentDoc self doc) := by
  have hopen := cache_closed_of_noTrace hrej hafter
  obtain ⟨p, k, hp, hk, hq⟩ := quorumMissed_of_rejected hrej
  obtain rfl : (edbReplWrite shardKey w self now ans db doc).2 = w' := by rw [hrej]
  obtain ⟨delivered, -, hcache⟩ := edbReplWrite_self_cache shardKey w self now ans db hp hk
  rw [cacheUndelivered_closed hopen] at hcache
  refine ⟨hopen, ⟨fun x r hr => ?_, fun x key id row heff => ?_⟩, ?_⟩
  · have hafter := hafter.cache x
    by_cases hx : x = self
    · subst hx
      rw [hcache] at hafter
      exact hafter r hr
    · rw [edbReplWrite_other_cache hp hk hx] at hafter
      exact hafter r hr
  · intro hrow
    have hafter := hafter.shard x key id row heff
    by_cases hx : x = self
    · subst hx
      rw [edbReplWrite_self_engine hp hk, if_pos hq] at hafter
      exact hafter hrow
    · -- a row that is there is written over by itself
      rw [lookup_edbReplWrite_other hp hk hx heff, hrow, LastWriter.write_of_le le_rfl,
        ite_self] at hafter
      exact hafter rfl
  · -- where the change is handled it lost, or the record would carry it
    intro x hx hd hdb p' k' c hdec
    have heff : effect shardKey (sentDoc self doc) = some (shardKey p' k', c.id, c.row) :=
      effect_of_decode hdec
    have hafter := hafter.shard x _ _ _ heff
    rw [lookup_edbReplWrite_other hp hk hx.1 heff, if_pos ⟨hx, hd, hdb⟩] at hafter
    by_contra hle
    exact hafter (LastWriter.write_of_le (not_lt.mp hle))

end

/-- **Rejected writes that leave no trace, exactly.** -/
theorem rejected_noTrace_iff (w w' : World) (self : NodeId) (now : Int)
    (ans : NodeId → Delivery) (db : CString) (doc : ChangeDoc)
    (hrej : edbReplWrite shardKey w self now ans db doc = (.quorumLost, w')) :
    (∀ w'', Relation.ReflTransGen (LaterStep shardKey) w' w'' →
        NoTrace shardKey (sentDoc self doc) w'') ↔
      (w self).cache.isOpen = false ∧ NoTrace shardKey (sentDoc self doc) w ∧
        SupersededAtReceivers shardKey w self ans (sentDoc self doc) := by
  constructor
  · intro h
    exact superseded_of_noTrace hrej (h w' .refl)
  · rintro ⟨hopen, hbefore, hsup⟩ w'' hrun
    exact (noTrace_of_superseded hopen hbefore hsup hrej).run hrun

/-- Node `a` with a peer `b`, and database `d` replicated twice. -/
def pairNode (isOpen online : Bool) : ReplNode (cstr "a") where
  cluster :=
    { selfId := cstr "a"
      selfAddr := cstr "host"
      selfPort := 1
      peers := (PeerTable.empty.add
        { id := cstr "a", addr := cstr "host", port := 1, online := true }).add
        { id := cstr "b", addr := cstr "host", port := 2, online }
      ranges := buildSlices [cstr "a", cstr "b"] }
  selfId_eq := rfl
  bounded := by cases online <;> decide
  databases := fun _ => some 2
  cache := ⟨isOpen, []⟩

/-- A put of an empty object as record `r`. -/
def putDoc : ChangeDoc where
  op := some (cstr "put")
  db := some (cstr "d")
  partition := some (cstr "p")
  keyspace := some (cstr "k")
  id := some (cstr "r")
  value := some (cstr "\x7b\x7d")
  ts := some 5

/-- Without a cache file, the put that `a` rejects while `b` is offline is gone. -/
theorem closed_cache_forgets :
    (edbReplWrite (fun _ _ => sliceBound 0) (worldOf (pairNode false false)) (cstr "a") 5
        (fun _ => .lost) (cstr "d") putDoc).1 = .quorumLost ∧
      ∀ w'', Relation.ReflTransGen (LaterStep fun _ _ => sliceBound 0)
        (edbReplWrite (fun _ _ => sliceBound 0) (worldOf (pairNode false false)) (cstr "a") 5
          (fun _ => .lost) (cstr "d") putDoc).2 w'' →
        NoTrace (fun _ _ => sliceBound 0) (sentDoc (cstr "a") putDoc) w'' := by
  have hempty : ∀ x, ((worldOf (pairNode false false)) x).cache.rows = [] ∧
      ((worldOf (pairNode false false)) x).engine = fun _ => ∅ := fun x => by
    by_cases hx : x = cstr "a"
    · subst hx
      exact ⟨rfl, rfl⟩
    · rw [worldOf, Function.update_of_ne hx]
      exact ⟨rfl, rfl⟩
  have hrej : (edbReplWrite (fun _ _ => sliceBound 0) (worldOf (pairNode false false))
      (cstr "a") 5 (fun _ => .lost) (cstr "d") putDoc).1 = .quorumLost := by decide
  refine ⟨hrej, (rejected_noTrace_iff _ _ _ _ _ _ _ _ (Prod.ext hrej rfl)).mpr
    ⟨rfl, ⟨fun x r hr => ?_, fun x key id row _ => ?_⟩, fun x _ hd => by cases hd⟩⟩
  · rw [(hempty x).1] at hr
    cases hr
  · rw [(hempty x).2]
    exact fun h => nomatch h

/-- With the cache file, it reaches `b` as soon as `b` is back. -/
theorem rejected_put_is_replayed : ∃ w' w'',
    edbReplWrite (fun _ _ => sliceBound 0) (worldOf (pairNode true false)) (cstr "a") 5
        (fun _ => .lost) (cstr "d") putDoc = (.quorumLost, w') ∧
      Relation.ReflTransGen (LaterStep fun _ _ => sliceBound 0) w' w'' ∧
      ¬ NoTrace (fun _ _ => sliceBound 0) (sentDoc (cstr "a") putDoc) w'' := by
  refine ⟨_, _, Prod.ext (by decide) rfl,
    .tail (.single (.reconnect (cstr "a") (pairNode true true).cluster rfl
      (pairNode true true).bounded))
      (.replay (cstr "a") { id := cstr "b", addr := cstr "host", port := 2, online := true }
        (fun _ => .answered) (by decide) rfl (by decide)), fun h => ?_⟩
  refine h.shard (cstr "b") (sliceBound 0) (cstr "r")
    (putRow (cstr "\x7b\x7d") (-1) 5 (cstr "a")) (by decide) ?_
  decide

end EpsilonDB
