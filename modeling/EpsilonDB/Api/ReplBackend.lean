import EpsilonDB.Api.Backend
import EpsilonDB.Socket.ReplRead

/-!
# The store with a replication service (`socket/epsilon_repl.c`)

The calls of a node whose `g_repl` is set: reads are merged from the replicas, writes go out
to them, and `edb_get` still reads the node's own engine. A part of the state is what every
node holds under one key, beside the memberships and the replication factors; the change
caches are no part of what a request reads. A replica that applies a put registers its
keyspace as well; the model leaves that to the handler, which registers the same place. It also
fires the event after the change; what code does then is left out of the write, and a result about
the store asks that no node has code for the place.

- `edbReplReadQueryMeta`: the read behind the collection queries.
- `changeDoc`: a parsed change text, as `edb_repl_write` looks at it.
- `confined_edbReplWrite`: a write reads and writes one key, at every node.
- `changePlace`: the names that are read of a change, which `changePlace_of_plain` shows to be those
  of the write where they are plain.
- `keepsPartition_repl`: so does the partition of a change whose first two names are.
- `replBackend`: the backend, at fixed clocks and with the answers of the peers given.
-/

namespace EpsilonDB

variable {D F : Type} [Doubles D] [DecidableEq F]

/-! ## Reads -/

section Reads

variable {V : Type} (docs : Documents V F) (shardKey : CString → CString → CString)

/-- `edb_repl_read_query_meta`. -/
def edbReplReadQueryMeta (w : World) (self : NodeId) (clock : NodeId → Int)
    (answers : NodeId → Bool) (db partition keyspace : CString)
    (filters : Option (V → Bool)) : List (CString × Int × V) :=
  if quorumApplies (w self) db then
    let rs := readSet shardKey w self clock answers db partition keyspace
    if rs.reached then
      mergeAgreedRowsMeta docs rs.required (rs.copies.map (Replica.rows docs · filters))
    else []
  else
    edbShardQueryTs docs.parse (clock self) filters
      ((w self).engine (shardKey partition keyspace))

/-- What the nodes hold under one key. -/
def nodeParts (w : World) (key : CString) (x : NodeId) :
    Cluster × (CString → Option Int) × Shard :=
  ((w x).cluster, (w x).databases, (w x).engine key)

variable {docs shardKey} {w w' : World} {self : NodeId} {key : CString}

theorem cluster_eq_of_nodeParts (h : nodeParts w key = nodeParts w' key) (x : NodeId) :
    (w x).cluster = (w' x).cluster := congrArg (fun p => (p x).1) h

theorem databases_eq_of_nodeParts (h : nodeParts w key = nodeParts w' key) (x : NodeId) :
    (w x).databases = (w' x).databases := congrArg (fun p => (p x).2.1) h

theorem engine_eq_of_nodeParts (h : nodeParts w key = nodeParts w' key) (x : NodeId) :
    (w x).engine key = (w' x).engine key := congrArg (fun p => (p x).2.2) h

theorem quorumApplies_congr (h : nodeParts w key = nodeParts w' key) (db : CString) :
    quorumApplies (w self) db = quorumApplies (w' self) db := by
  rw [quorumApplies, quorumApplies, databases_eq_of_nodeParts h self]

theorem readSet_congr {partition keyspace : CString}
    (h : nodeParts w (shardKey partition keyspace) = nodeParts w' (shardKey partition keyspace))
    (clock : NodeId → Int) (answers : NodeId → Bool) (db : CString) :
    readSet shardKey w self clock answers db partition keyspace =
      readSet shardKey w' self clock answers db partition keyspace := by
  have hholders : (w self).readHolders shardKey db partition keyspace =
      (w' self).readHolders shardKey db partition keyspace := by
    rw [ReplNode.readHolders, ReplNode.readHolders, cluster_eq_of_nodeParts h self,
      databases_eq_of_nodeParts h self]
  have hpeers : queryPeers shardKey (w self) db partition keyspace =
      queryPeers shardKey (w' self) db partition keyspace := by
    rw [queryPeers, queryPeers, ReplNode.peers, ReplNode.peers, cluster_eq_of_nodeParts h self,
      databases_eq_of_nodeParts h self]
  simp only [readSet, hholders, hpeers, engine_eq_of_nodeParts h]

end Reads

/-! ## Writes -/

section Writes

variable {shardKey : CString → CString → CString}

/-- A change goes to the record its document names. -/
theorem address_of_decode {doc : ChangeDoc} {p k : CString} {c : Change}
    (h : decodeChange doc = some (p, k, c)) :
    doc.partition = some p ∧ doc.keyspace = some k ∧ doc.id = some c.id := by
  simp only [decodeChange, Option.bind_eq_bind, Option.bind_eq_some_iff] at h
  obtain ⟨op, -, p', hp, k', hk, i, hi, ts, -, h⟩ := h
  split at h
  · obtain ⟨value, -, h⟩ := Option.bind_eq_some_iff.mp h
    obtain ⟨rfl, rfl, rfl⟩ := h
    exact ⟨hp, hk, hi⟩
  · split at h
    · obtain ⟨rfl, rfl, rfl⟩ := h
      exact ⟨hp, hk, hi⟩
    · cases h

/-- A document that cannot be applied changes nothing. -/
theorem applyChangeLocal_of_none {doc : ChangeDoc} (h : decodeChange doc = none)
    (engine : CString → Shard) : (applyChangeLocal shardKey engine doc).1 = engine := by
  rw [applyChangeLocal, h]

/-- The records of other ids stay as they are. -/
theorem lookup_applyChangeLocal_of_ne {doc : ChangeDoc} {p k : CString} {c : Change}
    (h : decodeChange doc = some (p, k, c)) {id : CString} (hid : id ≠ c.id)
    (engine : CString → Shard) :
    ((applyChangeLocal shardKey engine doc).1 (shardKey p k)).lookup id =
      (engine (shardKey p k)).lookup id := by
  rw [applyChangeLocal, h]
  dsimp only
  rw [Function.update_self, lookup_applyChange, if_neg (Ne.symm hid)]

/-- The record of the change has it, unless it is newer. -/
theorem lookup_applyChangeLocal {doc : ChangeDoc} {p k : CString} {c : Change}
    (h : decodeChange doc = some (p, k, c)) (engine : CString → Shard) :
    ((applyChangeLocal shardKey engine doc).1 (shardKey p k)).lookup c.id =
      LastWriter.write comparedVersion ((engine (shardKey p k)).lookup c.id) (some c.row) := by
  rw [applyChangeLocal, h]
  dsimp only
  rw [Function.update_self, lookup_applyChange, if_pos rfl]

theorem applyChangeLocal_of_ne {doc : ChangeDoc} {partition keyspace key : CString}
    (hp : doc.partition = some partition) (hk : doc.keyspace = some keyspace)
    (hkey : key ≠ shardKey partition keyspace) (engine : CString → Shard) :
    (applyChangeLocal shardKey engine doc).1 key = engine key := by
  rw [applyChangeLocal]
  split
  · rfl
  · rename_i p k change hdec
    obtain ⟨rfl, rfl⟩ : partition = p ∧ keyspace = k :=
      ⟨Option.some.inj (hp.symm.trans (address_of_decode hdec).1),
        Option.some.inj (hk.symm.trans (address_of_decode hdec).2.1)⟩
    exact Function.update_of_ne hkey _ _

theorem applyChangeLocal_congr {doc : ChangeDoc} {partition keyspace : CString}
    (hp : doc.partition = some partition) (hk : doc.keyspace = some keyspace)
    {engine engine' : CString → Shard}
    (h : engine (shardKey partition keyspace) = engine' (shardKey partition keyspace)) :
    (applyChangeLocal shardKey engine doc).1 (shardKey partition keyspace) =
      (applyChangeLocal shardKey engine' doc).1 (shardKey partition keyspace) := by
  rw [applyChangeLocal, applyChangeLocal]
  split
  · exact h
  · rename_i p k change hdec
    obtain ⟨rfl, rfl⟩ : partition = p ∧ keyspace = k :=
      ⟨Option.some.inj (hp.symm.trans (address_of_decode hdec).1),
        Option.some.inj (hk.symm.trans (address_of_decode hdec).2.1)⟩
    show Function.update engine _ _ _ = Function.update engine' _ _ _
    rw [Function.update_self, Function.update_self, h]

theorem peers_congr {x : NodeId} {n n' : ReplNode x} (h : n.cluster = n'.cluster) :
    n.peers = n'.peers := by
  rw [ReplNode.peers, ReplNode.peers, h]

theorem countedHolders_congr {x : NodeId} {n n' : ReplNode x} (h : n.cluster = n'.cluster)
    (hdb : n.databases = n'.databases) (db partition keyspace : CString) :
    n.countedHolders shardKey db partition keyspace =
      n'.countedHolders shardKey db partition keyspace := by
  rw [ReplNode.countedHolders, ReplNode.countedHolders, h, hdb]

theorem quorumMissed_congr {x : NodeId} {n n' : ReplNode x} (h : n.cluster = n'.cluster)
    (ans : NodeId → Delivery) (payload : ChangeDoc) (holders : List NodeId) :
    quorumMissed n ans payload holders = quorumMissed n' ans payload holders := by
  rw [quorumMissed, quorumMissed, writeAcks, writeAcks, peers_congr h]

/-- The nodes that apply a write of node `self`: the node itself unless the quorum is lost,
and the contacted peers that handle it. -/
def appliedAt (shardKey : CString → CString → CString) {self : NodeId} (n : ReplNode self)
    (ans : NodeId → Delivery) (db partition keyspace : CString) (doc : ChangeDoc)
    (x : NodeId) : Bool :=
  if x = self then
    !quorumMissed n ans (sentDoc self doc) (n.countedHolders shardKey db partition keyspace)
  else decide (Contacted self n.peers x) && (ans x).handled && doc.db.isSome

theorem appliedAt_congr {self : NodeId} {n n' : ReplNode self} (hc : n.cluster = n'.cluster)
    (hdb : n.databases = n'.databases) (ans : NodeId → Delivery) (db partition keyspace : CString)
    (doc : ChangeDoc) (x : NodeId) :
    appliedAt shardKey n ans db partition keyspace doc x =
      appliedAt shardKey n' ans db partition keyspace doc x := by
  rw [appliedAt, appliedAt, countedHolders_congr hc hdb, quorumMissed_congr hc]
  simp only [peers_congr hc]

/-- A write applies the change at these nodes and at no other. -/
theorem edbReplWrite_engine {w : World} {self : NodeId} {now : Int} {ans : NodeId → Delivery}
    {db partition keyspace : CString} {doc : ChangeDoc} (hp : doc.partition = some partition)
    (hk : doc.keyspace = some keyspace) (x : NodeId) :
    ((edbReplWrite shardKey w self now ans db doc).2 x).engine =
      if appliedAt shardKey (w self) ans db partition keyspace doc x then
        (applyChangeLocal shardKey (w x).engine (sentDoc self doc)).1
      else (w x).engine := by
  by_cases hx : x = self
  · subst hx
    rw [edbReplWrite_self_engine hp hk, appliedAt, if_pos rfl]
    cases quorumMissed (w x) ans (sentDoc x doc)
      ((w x).countedHolders shardKey db partition keyspace) <;> rfl
  · rw [edbReplWrite_other hp hk hx, appliedAt, if_neg hx, receive_fst]
    by_cases hc : Contacted self (w self).peers x
    · rw [if_pos hc]
      cases hh : (ans x).handled
      · simp
      · cases hdb : doc.db with
        | none => simp [apiApplyChange, sentDoc, hdb]
        | some d => simp [apiApplyChange, sentDoc, hdb, hc]
    · simp [hc]

/-- A replicated write is confined to its key. -/
theorem confined_edbReplWrite (self : NodeId) (now : Int) (ans : NodeId → Delivery)
    (db : CString) {doc : ChangeDoc} {partition keyspace : CString}
    (hp : doc.partition = some partition) (hk : doc.keyspace = some keyspace) :
    Confined nodeParts (shardKey partition keyspace)
      fun w => edbReplWrite shardKey w self now ans db doc := by
  have hframe := fun w x => edbReplWrite_frame shardKey w self now ans db doc x
  have hp' : (sentDoc self doc).partition = some partition := hp
  have hk' : (sentDoc self doc).keyspace = some keyspace := hk
  refine ⟨fun w key hkey => ?_, fun w w' h => ?_, fun w w' h => ?_⟩
  · funext x
    rw [nodeParts, nodeParts, (hframe w x).1, (hframe w x).2, edbReplWrite_engine hp hk x]
    split
    · rw [applyChangeLocal_of_ne hp' hk' hkey]
    · rfl
  · have hc := cluster_eq_of_nodeParts h self
    funext x
    rw [nodeParts, nodeParts, (hframe w x).1, (hframe w x).2, (hframe w' x).1, (hframe w' x).2,
      cluster_eq_of_nodeParts h x, databases_eq_of_nodeParts h x, edbReplWrite_engine hp hk x,
      edbReplWrite_engine hp hk x, appliedAt_congr hc (databases_eq_of_nodeParts h self)]
    split
    · rw [applyChangeLocal_congr hp' hk' (engine_eq_of_nodeParts h x)]
    · rw [engine_eq_of_nodeParts h x]
  · have hc := cluster_eq_of_nodeParts h self
    show (edbReplWrite shardKey w self now ans db doc).1 =
      (edbReplWrite shardKey w' self now ans db doc).1
    rw [edbReplWrite_status hp hk, edbReplWrite_status hp hk,
      countedHolders_congr hc (databases_eq_of_nodeParts h self), quorumMissed_congr hc]

end Writes

/-! ## The backend -/

section Node

variable (codec : Codec D) (fingerprint : Json D → F) (shardKey : CString → CString → CString)
  (self : NodeId) (clock : NodeId → Int) (answers : NodeId → Bool) (ans : NodeId → Delivery)

/-- The stored documents as the merges look at them. -/
def Codec.documents : Documents (Json D) F where
  parse := codec.parse
  isObject := Json.isObject
  fingerprint := fingerprint

/-- A number member. -/
def Json.getInt (v : Json D) (key : CString) : Option Int :=
  match v.get key with
  | some (.num d) => some (Doubles.toInt64 d)
  | _ => none

/-- The change a parsed text is. -/
def changeDoc (v : Json D) : ChangeDoc where
  op := v.getStr (cstr "op")
  db := v.getStr (cstr "db")
  partition := v.getStr (cstr "partition")
  keyspace := v.getStr (cstr "keyspace")
  id := v.getStr (cstr "id")
  value := ((v.get (cstr "value")).filter Json.isObject).map codec.print
  ttlAbs := v.getInt (cstr "ttl_abs")
  ts := v.getInt (cstr "ts")
  origin := (v.get (cstr "origin")).map fun o =>
    match o with
    | .str s => some s
    | _ => none

/-- The put of a document. -/
def putChange (db partition keyspace id : CString) (doc : Json D) (ttlAbs ts : Int) :
    ChangeDoc where
  op := some (cstr "put")
  db := some db
  partition := some partition
  keyspace := some keyspace
  id := some id
  value := if doc.isObject then some (codec.print doc) else none
  ttlAbs := some ttlAbs
  ts := some ts

/-- The change text of a write, parsed: a statement splices the names in unescaped. -/
def StoreWrite.change (ts : Int) : StoreWrite D → Option ChangeDoc
  | .put db partition keyspace id doc ttl =>
    some (putChange codec db partition keyspace id doc (if 0 ≤ ttl then ts + ttl else -1) ts)
  | .delete db partition keyspace id =>
    some { op := some (cstr "delete"), db := some db, partition := some partition,
           keyspace := some keyspace, id := some id, ts := some ts }
  | .replay db partition keyspace id doc =>
    (codec.parse (changeText db partition keyspace id (codec.print doc) ts)).map
      (changeDoc codec)
  | .config keyspace id obj =>
    some (putChange codec systemDb systemDb keyspace id obj (-1) ts)

/-- Where a write goes: the names of the document, when it is one that can be applied. -/
def changePlace (ts : Int) (w : StoreWrite D) : Option Place := do
  let doc ← w.change codec ts
  let (partition, keyspace, change) ← decodeChange (sentDoc self doc)
  return ⟨doc.db.getD w.db, partition, keyspace, change.id⟩

/-- What a statement writes back carries plain names. -/
def StoreWrite.Plain : StoreWrite D → Prop
  | .replay db partition keyspace id _ =>
    EpsilonDB.Plain db ∧ EpsilonDB.Plain partition ∧ EpsilonDB.Plain keyspace ∧
      EpsilonDB.Plain id
  | _ => True

variable {codec} in
/-- A plain change names the record of its write. -/
theorem StoreWrite.change_address {ts : Int} {w : StoreWrite D} {doc : ChangeDoc} (hw : w.Plain)
    (h : w.change codec ts = some doc) :
    doc.db = some w.db ∧ doc.partition = some w.partition ∧ doc.keyspace = some w.keyspace ∧
      doc.id = some w.id := by
  cases w with
  | put => cases h; exact ⟨rfl, rfl, rfl, rfl⟩
  | delete => cases h; exact ⟨rfl, rfl, rfl, rfl⟩
  | config => cases h; exact ⟨rfl, rfl, rfl, rfl⟩
  | replay db partition keyspace id value =>
    obtain ⟨v, hparse, rfl⟩ := Option.map_eq_some_iff.mp h
    obtain ⟨hdb, hp, hk, hid⟩ := hw
    obtain ⟨v, rfl⟩ := codec.parse_changeText _ _ _ _ _ _ _ hdb hp hk hid hparse
    exact ⟨rfl, rfl, rfl, rfl⟩

variable {codec self} in
/-- Where a write goes, it has a change that can be applied. -/
theorem changePlace_eq_some {ts : Int} {w : StoreWrite D} {p : Place}
    (h : changePlace codec self ts w = some p) :
    ∃ doc change, w.change codec ts = some doc ∧
      decodeChange (sentDoc self doc) = some (p.partition, p.keyspace, change) ∧
      p.id = change.id ∧ p.db = doc.db.getD w.db := by
  simp only [changePlace, Option.bind_eq_bind, Option.bind_eq_some_iff] at h
  obtain ⟨doc, hdoc, ⟨partition, keyspace, change⟩, hdecode, hplace⟩ := h
  obtain rfl := Option.some.inj hplace
  exact ⟨doc, change, hdoc, hdecode, rfl, rfl⟩

variable {codec self} in
/-- A plain write goes where it is meant to. -/
theorem changePlace_of_plain {ts : Int} {w : StoreWrite D} {p : Place} (hw : w.Plain)
    (h : changePlace codec self ts w = some p) : p = w.place := by
  obtain ⟨doc, change, hdoc, hdecode, hid, hdb⟩ := changePlace_eq_some h
  obtain ⟨hdb', hp, hk, hi⟩ := StoreWrite.change_address hw hdoc
  obtain ⟨hp', hk', hi'⟩ := address_of_decode hdecode
  obtain ⟨db, partition, keyspace, id⟩ := p
  refine (Place.mk.injEq ..).mpr ⟨?_, ?_, ?_, ?_⟩
  · rw [hdb', Option.getD_some] at hdb
    exact hdb
  · exact Option.some.inj (hp'.symm.trans hp)
  · exact Option.some.inj (hk'.symm.trans hk)
  · exact hid.trans (Option.some.inj (hi'.symm.trans hi))

/-- `edb_repl_write` of the change text of a write. -/
def replWrite (write : StoreWrite D) (w : World) : ReplStatus × World :=
  match write.change codec (clock self) with
  | none => (.localFail, w)
  | some doc => edbReplWrite shardKey w self (clock self) ans write.db doc

/-- What a write comes to: it fails, or it is the write of a change. -/
theorem replWrite_of_change {write : StoreWrite D} {doc : ChangeDoc}
    (h : write.change codec (clock self) = some doc) :
    replWrite codec shardKey self clock ans write =
      fun w => edbReplWrite shardKey w self (clock self) ans write.db doc := by
  funext w
  rw [replWrite, h]

theorem replWrite_of_none {write : StoreWrite D} (h : write.change codec (clock self) = none) :
    replWrite codec shardKey self clock ans write = fun w => (.localFail, w) := by
  funext w
  rw [replWrite, h]

/-- **A write is confined** to the shard of the place it goes to. -/
theorem confined_replWrite {write : StoreWrite D} {p : Place}
    (h : changePlace codec self (clock self) write = some p) :
    Confined nodeParts (shardKey p.partition p.keyspace)
      (replWrite codec shardKey self clock ans write) := by
  obtain ⟨doc, change, hdoc, hdecode, -, -⟩ := changePlace_eq_some h
  obtain ⟨hp, hk, -⟩ := address_of_decode hdecode
  rw [replWrite_of_change codec shardKey self clock ans hdoc]
  exact confined_edbReplWrite self (clock self) ans write.db hp hk

/-- A write that goes nowhere leaves the nodes as they are. -/
theorem nodeParts_replWrite {write : StoreWrite D}
    (h : changePlace codec self (clock self) write = none) (w : World) (key : CString) :
    nodeParts (replWrite codec shardKey self clock ans write w).2 key = nodeParts w key := by
  cases hdoc : write.change codec (clock self) with
  | none => rw [replWrite_of_none codec shardKey self clock ans hdoc]
  | some doc =>
    have hdecode : decodeChange (sentDoc self doc) = none := by
      cases hdecode : decodeChange (sentDoc self doc) with
      | none => rfl
      | some r =>
        rw [changePlace, hdoc] at h
        simp [hdecode] at h
    rw [replWrite_of_change codec shardKey self clock ans hdoc]
    cases hp : doc.partition with
    | none =>
      dsimp only
      rw [edbReplWrite, hp]
    | some partition =>
      cases hk : doc.keyspace with
      | none =>
        dsimp only
        rw [edbReplWrite, hp, hk]
      | some keyspace =>
        funext x
        have hframe := edbReplWrite_frame shardKey w self (clock self) ans write.db doc x
        rw [nodeParts, nodeParts, hframe.1, hframe.2, edbReplWrite_engine hp hk x,
          applyChangeLocal_of_none hdecode, ite_self]

/-- What the node's own reads of one record look at. -/
def ownCell (self : NodeId) (w : World) (x : CString × CString) :
    Cluster × (CString → Option Int) × Option Row :=
  ((w self).cluster, (w self).databases, ((w self).engine x.1).lookup x.2)

/-- **A write settles** the record it goes to. -/
theorem settles_replWrite {write : StoreWrite D} {p : Place}
    (h : changePlace codec self (clock self) write = some p) :
    SettlesAt (ownCell self) (shardKey p.partition p.keyspace, p.id)
      fun w => (replWrite codec shardKey self clock ans write w).2 := by
  obtain ⟨doc, change, hdoc, hdecode, hpid, -⟩ := changePlace_eq_some h
  have hp : doc.partition = some p.partition := (address_of_decode hdecode).1
  have hk : doc.keyspace = some p.keyspace := (address_of_decode hdecode).2.1
  rw [replWrite_of_change codec shardKey self clock ans hdoc, hpid]
  have hframe := fun w => edbReplWrite_frame shardKey w self (clock self) ans write.db doc self
  -- the node applies the change or it does not, as its members and databases say
  have hengine : ∀ w : World,
      ((edbReplWrite shardKey w self (clock self) ans write.db doc).2 self).engine =
        if appliedAt shardKey (w self) ans write.db p.partition p.keyspace doc self then
          (applyChangeLocal shardKey (w self).engine (sentDoc self doc)).1
        else (w self).engine := fun w => edbReplWrite_engine hp hk self
  refine ⟨fun w x hx => ?_, fun w w' hcell => ?_, fun w => ?_⟩
  · rw [ownCell, ownCell, (hframe w).1, (hframe w).2, hengine]
    split
    · obtain ⟨key, id⟩ := x
      by_cases hkey : key = shardKey p.partition p.keyspace
      · subst hkey
        have hid : id ≠ change.id := fun hid => hx (hid ▸ rfl)
        dsimp only
        rw [lookup_applyChangeLocal_of_ne hdecode hid]
      · dsimp only
        have hsent : (sentDoc self doc).partition = some p.partition := hp
        rw [applyChangeLocal_of_ne hsent hk hkey]
    · rfl
  · obtain ⟨hc, hrest⟩ := Prod.mk.inj hcell
    obtain ⟨hdb, hlookup⟩ := Prod.mk.inj hrest
    rw [ownCell, ownCell, (hframe w).1, (hframe w).2, (hframe w').1, (hframe w').2, hengine, hengine,
      appliedAt_congr hc hdb, hc, hdb]
    split
    · dsimp only at hlookup ⊢
      rw [lookup_applyChangeLocal hdecode, lookup_applyChangeLocal hdecode, hlookup]
    · exact congrArg _ (congrArg _ hlookup)
  · -- what was applied is not older than itself
    rw [ownCell, ownCell, (hframe _).1, (hframe _).2, (hframe w).1, (hframe w).2, hengine, hengine,
      appliedAt_congr (hframe w).1 (hframe w).2]
    split
    · dsimp only
      rw [lookup_applyChangeLocal hdecode, lookup_applyChangeLocal hdecode, LastWriter.write_write]
    · rfl

/-- The calls of node `self`. -/
def replBackend : Backend World D where
  Part := NodeId → Cluster × (CString → Option Int) × Shard
  view := nodeParts
  shardKey := shardKey
  get w partition keyspace id :=
    (edbShardGetTs codec.parse (clock self) ((w self).engine (shardKey partition keyspace))
      id).map Prod.fst
  all w partition keyspace :=
    (edbShardAllTs codec.parse (clock self) none
      ((w self).engine (shardKey partition keyspace))).map fun e => e.2.2
  readGet w db partition keyspace id :=
    edbReplReadGet (codec.documents fingerprint) shardKey w self clock answers db partition
      keyspace id
  readIds w db partition keyspace filters :=
    edbReplReadIds (codec.documents fingerprint) shardKey w self clock answers db partition
      keyspace filters
  readQueryMeta w db partition keyspace filters :=
    edbReplReadQueryMeta (codec.documents fingerprint) shardKey w self clock answers db
      partition keyspace filters
  write := replWrite codec shardKey self clock ans
  replicated := true
  code w := {doc | ∃ x, doc ∈ (edbShardAllTs codec.parse (clock x) none
    ((w x).engine (shardKey systemDb cfgCode))).map fun e => e.2.2}
  place := changePlace codec self (clock self)
  safe := StoreWrite.Plain
  safe_of_escaped w hw := by
    cases w with
    | replay => cases hw
    | _ => trivial
  get_congr h := by
    funext id
    rw [engine_eq_of_nodeParts h self]
  all_congr h := by rw [engine_eq_of_nodeParts h self]
  readGet_congr h db := by
    funext id
    rw [edbReplReadGet, edbReplReadGet, quorumApplies_congr h, readSet_congr h,
      engine_eq_of_nodeParts h self]
  readIds_congr h db := by
    funext filters
    rw [edbReplReadIds, edbReplReadIds, quorumApplies_congr h, readSet_congr h,
      engine_eq_of_nodeParts h self]
  readQueryMeta_congr h db := by
    funext filters
    simp only [edbReplReadQueryMeta, quorumApplies_congr h, readSet_congr h,
      engine_eq_of_nodeParts h self]
  confined w hw := by
    cases hdoc : w.change codec (clock self) with
    | none =>
      rw [replWrite_of_none codec shardKey self clock ans hdoc]
      exact ⟨fun _ _ _ => rfl, fun _ _ h => h, fun _ _ _ => rfl⟩
    | some doc =>
      obtain ⟨-, hp, hk, -⟩ := StoreWrite.change_address hw hdoc
      rw [replWrite_of_change codec shardKey self clock ans hdoc]
      exact confined_edbReplWrite self (clock self) ans w.db hp hk
  place_of_safe _ _ hw h := changePlace_of_plain hw h
  lands _ _ h := confined_replWrite codec shardKey self clock ans h
  stays _ h w key := nodeParts_replWrite codec shardKey self clock ans h w key
  Cell := Cluster × (CString → Option Int) × Option Row
  cell := ownCell self
  cell_congr h := by rw [ownCell, ownCell, cluster_eq_of_nodeParts h self,
    databases_eq_of_nodeParts h self, engine_eq_of_nodeParts h self]
  get_cell h := congrArg (Option.map Prod.fst)
    (edbShardGetTs_congr (clock self) (congrArg (fun c => c.2.2) h))
  settles _ _ h := settles_replWrite codec shardKey self clock ans h
  mem_code h := ⟨self, by exact h⟩
  code_congr h := by simp only [engine_eq_of_nodeParts h]

/-- **Plain names keep the partition**, whatever keyspaces and ids come behind them. -/
theorem keepsPartition_repl {db partition : CString} (hdb : EpsilonDB.Plain db)
    (hpartition : EpsilonDB.Plain partition) :
    (replBackend codec fingerprint shardKey self clock answers ans).KeepsPartition db partition := by
  intro keyspace id doc p hp
  obtain ⟨change, c, hchange, hdecode, -⟩ := changePlace_eq_some hp
  obtain ⟨v, hparse, rfl⟩ := Option.map_eq_some_iff.mp hchange
  have hread : (changeDoc codec v).partition = some partition :=
    codec.parse_changeText_partition _ _ _ _ _ _ _ hdb hpartition hparse
  exact Option.some.inj ((address_of_decode hdecode).1.symm.trans hread)

end Node

end EpsilonDB
