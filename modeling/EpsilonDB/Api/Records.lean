import EpsilonDB.Api.LocalConfig
import EpsilonDB.Engine.Tombstones
import EpsilonDB.Lib.Simulations

/-!
# Configuration records (`engine/epsilon_config.c`, `engine/epsilon_config_entities.c`)

The functions on groups, users, databases and partitions read and write records in the shards of
the system database: rows with texts, timestamps and tombstones. To their callers these are plain
maps from ids to documents.

- `Records`, `plainBackend`: the maps, with the store calls. A document is stored as what is read
  back of its text.
- `recordsOf`: the map that a shard stands for; `recordsOf_put`, `recordsOf_delete`.
- `Related`: a node and the maps it stands for, as time passes.
- `Serves`, `serves_local`: the calls of a node serve like those of the maps, and so do the
  operations on groups, users, databases and partitions.
-/

namespace EpsilonDB

open Simulations

variable {D : Type} [Doubles D]

/-! ## Plain maps -/

/-- The documents of a keyspace by their ids; nothing is read of a text that is no document. -/
abbrev RecordMap (D : Type) := AList fun _ : CString => Option (Json D)

/-- The maps by the keys of their shards. -/
abbrev Records (D : Type) := CString → RecordMap D

/-- What is read back of a document. -/
def reread (codec : Codec D) (obj : Json D) : Option (Json D) :=
  if codec.print obj = [] then none else codec.parse (codec.print obj)

namespace RecordMap

def get (m : RecordMap D) (id : CString) : Option (Json D) := (m.lookup id).join

/-- The documents, the one that was put last at the end. -/
def all (m : RecordMap D) : List (Json D) := m.entries.reverse.filterMap fun e => e.2

/-- The ids of the documents that satisfy the filters, if any. -/
def select (m : RecordMap D) (filters : Option (Json D → Bool)) : List (CString × Json D) :=
  m.entries.reverse.filterMap fun e =>
    (e.2.filter fun doc => filters.all fun sat => sat doc).map fun doc => (e.1, doc)

/-- A write; a map knows no lifetimes. -/
def write (codec : Codec D) (m : RecordMap D) : StoreWrite D → RecordMap D
  | .put _ _ _ id doc _ | .replay _ _ _ id doc | .config _ id doc => m.insert id (reread codec doc)
  | .delete _ _ _ id => m.erase id

/-- A write leaves the other records. -/
theorem get_write_of_ne (codec : Codec D) {m : RecordMap D} (w : StoreWrite D) {id : CString}
    (h : id ≠ w.id) : (m.write codec w).get id = m.get id := by
  unfold get
  cases w with
  | put | replay | config => exact congrArg Option.join (AList.lookup_insert_ne h)
  | delete => exact congrArg Option.join (AList.lookup_erase_ne h)

/-- Its own becomes the same whatever was there. -/
theorem get_write (codec : Codec D) (w : StoreWrite D) :
    ∃ v, ∀ m : RecordMap D, (m.write codec w).get w.id = v := by
  cases w with
  | put | replay | config => exact ⟨_, fun m => congrArg Option.join (AList.lookup_insert m)⟩
  | delete => exact ⟨_, fun m => congrArg Option.join (AList.lookup_erase _ m)⟩

theorem settles_write (codec : Codec D) (w : StoreWrite D) (key : CString) :
    SettlesAt (fun (t : Records D) x => (t x.1).get x.2) (key, w.id)
      fun t => Function.update t key ((t key).write codec w) := by
  obtain ⟨v, hv⟩ := get_write codec w
  exact settles_update get (f := fun m => m.write codec w) (fun _ _ hi => get_write_of_ne codec w hi)
    (fun m m' _ => (hv m).trans (hv m').symm) (fun m => (hv _).trans (hv m).symm) key

end RecordMap

/-- The store calls over plain maps. -/
def plainBackend (codec : Codec D) (shardKey : CString → CString → CString) :
    Backend (Records D) D where
  Part := RecordMap D
  view := id
  shardKey := shardKey
  get t partition keyspace id := (t (shardKey partition keyspace)).get id
  all t partition keyspace := (t (shardKey partition keyspace)).all
  readGet t _ partition keyspace id := (t (shardKey partition keyspace)).get id
  readIds t _ partition keyspace filters :=
    ((t (shardKey partition keyspace)).select filters).map Prod.fst
  readQueryMeta t _ partition keyspace filters :=
    ((t (shardKey partition keyspace)).select filters).map fun e => (e.1, 0, e.2)
  write w t :=
    let key := w.key shardKey
    (.ok, Function.update t key ((t key).write codec w))
  replicated := false
  code t := {doc | doc ∈ (t (shardKey systemDb cfgCode)).all}
  place w := some w.place
  safe _ := True
  safe_of_escaped _ _ := trivial
  get_congr h := by
    funext id
    exact congrArg (fun m => RecordMap.get m id) h
  all_congr h := congrArg RecordMap.all h
  readGet_congr h _ := by
    funext id
    exact congrArg (fun m => RecordMap.get m id) h
  readIds_congr h _ := by
    funext filters
    exact congrArg (fun m => (RecordMap.select m filters).map Prod.fst) h
  readQueryMeta_congr h _ := by
    funext filters
    exact congrArg (fun m => (RecordMap.select m filters).map fun e => (e.1, (0 : Int), e.2)) h
  confined w _ := confined_update _ (RecordMap.write codec · w) .ok
  place_of_safe := place_of_local
  lands w p h := by
    obtain rfl := Option.some.inj h
    exact confined_update _ (RecordMap.write codec · w) .ok
  stays _ h := by cases h
  Cell := Option (Json D)
  cell t x := (t x.1).get x.2
  cell_congr h := congrArg (fun m => RecordMap.get m _) h
  get_cell h := h
  settles w p h := by
    obtain rfl := Option.some.inj h
    exact RecordMap.settles_write codec w _
  mem_code h := by exact h
  code_congr h := congrArg (fun m => {doc | doc ∈ RecordMap.all m}) h

/-! ## The map of a shard -/

section Entries

variable {β : Type} {k k' : CString} {b : β} {l : List (Sigma fun _ : CString => β)}

theorem kerase_self : List.kerase k (⟨k, b⟩ :: l) = l := List.kerase_cons_eq rfl

theorem kerase_other (h : k ≠ k') : List.kerase k (⟨k', b⟩ :: l) = ⟨k', b⟩ :: l.kerase k :=
  List.kerase_cons_ne h

theorem dlookup_other (h : k ≠ k') : List.dlookup k (⟨k', b⟩ :: l) = List.dlookup k l :=
  List.dlookup_cons_ne l _ h

end Entries

section Shards

variable {codec : Codec D} {now later : Int} {sh : Shard} {id : CString}

/-- A row that is read, with its document. -/
def recordOf (codec : Codec D) (now : Int) (e : Sigma fun _ : CString => Row) :
    Option (Sigma fun _ : CString => Option (Json D)) :=
  if e.2.live now then some ⟨e.1, e.2.document codec.parse⟩ else none

theorem filterMap_live {key : CString} {r : Row} (h : r.live now = true)
    (l : List (Sigma fun _ : CString => Row)) :
    List.filterMap (recordOf codec now) (⟨key, r⟩ :: l) =
      ⟨key, r.document codec.parse⟩ :: l.filterMap (recordOf codec now) :=
  List.filterMap_cons_some (if_pos h)

theorem filterMap_dead {key : CString} {r : Row} (h : r.live now = false)
    (l : List (Sigma fun _ : CString => Row)) :
    List.filterMap (recordOf codec now) (⟨key, r⟩ :: l) = l.filterMap (recordOf codec now) :=
  List.filterMap_cons_none (if_neg (Bool.eq_false_iff.mp h))

theorem keys_recordOf (l : List (Sigma fun _ : CString => Row)) :
    (l.filterMap (recordOf codec now)).keys.Sublist l.keys := by
  induction l with
  | nil => exact List.Sublist.slnil
  | cons e l ih =>
    obtain ⟨key, r⟩ := e
    cases hlive : r.live now
    · rw [filterMap_dead hlive]
      exact ih.cons _
    · rw [filterMap_live hlive]
      exact ih.cons_cons _

/-- The map that a shard stands for. -/
def recordsOf (codec : Codec D) (now : Int) (sh : Shard) : RecordMap D where
  entries := sh.entries.filterMap (recordOf codec now)
  nodupKeys := List.Nodup.sublist (keys_recordOf sh.entries) sh.nodupKeys

/-- A row leaves both the table and the map. -/
theorem kerase_recordOf {l : List (Sigma fun _ : CString => Row)} (h : l.NodupKeys) :
    (l.kerase id).filterMap (recordOf codec now) =
      (l.filterMap (recordOf codec now)).kerase id := by
  induction l with
  | nil => rfl
  | cons e l ih =>
    obtain ⟨he, hl⟩ := List.nodupKeys_cons.mp h
    have hgone : e.1 ∉ (l.filterMap (recordOf codec now)).keys := fun hmem =>
      he ((keys_recordOf l).subset hmem)
    obtain ⟨key, r⟩ := e
    by_cases hid : id = key
    · subst hid
      rw [kerase_self]
      cases hlive : r.live now
      · rw [filterMap_dead hlive, List.kerase_of_notMem_keys hgone]
      · rw [filterMap_live hlive, kerase_self]
    · rw [kerase_other hid]
      cases hlive : r.live now
      · rw [filterMap_dead hlive, filterMap_dead hlive, ih hl]
      · rw [filterMap_live hlive, filterMap_live hlive, ih hl, kerase_other hid]

theorem lookup_recordsOf :
    (recordsOf codec now sh).get id =
      (sh.lookup id).bind fun r => if r.live now then r.document codec.parse else none := by
  obtain ⟨entries, hnodup⟩ := sh
  show (List.dlookup id (entries.filterMap (recordOf codec now))).join =
    (List.dlookup id entries).bind _
  induction entries with
  | nil => rfl
  | cons e l ih =>
    obtain ⟨he, hl⟩ := List.nodupKeys_cons.mp hnodup
    have hgone : List.dlookup e.1 (l.filterMap (recordOf codec now)) = none :=
      List.dlookup_eq_none.mpr fun hmem => he ((keys_recordOf l).subset hmem)
    obtain ⟨key, r⟩ := e
    by_cases hid : id = key
    · subst hid
      rw [List.dlookup_cons_eq, Option.bind_some]
      cases hlive : r.live now
      · rw [filterMap_dead hlive, hgone]
        rfl
      · rw [filterMap_live hlive, List.dlookup_cons_eq]
        rfl
    · rw [dlookup_other hid, ← ih hl]
      cases hlive : r.live now
      · rw [filterMap_dead hlive]
      · rw [filterMap_live hlive, dlookup_other hid]

/-- The list of a shard is that of its map. -/
theorem all_recordsOf : (recordsOf codec now sh).all =
    (edbShardAllTs codec.parse now none sh).map fun e => e.2.2 := by
  show (sh.entries.filterMap (recordOf codec now)).reverse.filterMap (fun e => e.2) =
    (((sh.entries.reverse.map fun e => (e.1, e.2)).filter fun e =>
      e.2.live now && e.2.selected codec.parse none).filterMap fun e =>
        (e.2.document codec.parse).map fun v => (e.1, e.2.timestamp.getD 0, v)).map fun e => e.2.2
  rw [← List.filterMap_reverse]
  induction sh.entries.reverse with
  | nil => rfl
  | cons e l ih =>
    obtain ⟨key, r⟩ := e
    cases hlive : r.live now
    · rw [filterMap_dead hlive, ih]
      simp [hlive]
    · rw [filterMap_live hlive, List.filterMap_cons, ih]
      cases hdoc : r.document codec.parse <;> simp [hlive, hdoc, Row.selected]

/-- **A record is stored.** -/
theorem recordsOf_put (obj : Json D) :
    recordsOf codec now (edbShardPut now sh id (codec.print obj) (-1)) =
      (recordsOf codec now sh).insert id (reread codec obj) := by
  apply AList.ext
  show ((⟨id, putRow (codec.print obj) (-1) now []⟩ ::
    sh.entries.kerase id : List (Sigma fun _ : CString => Row))).filterMap (recordOf codec now) =
    ⟨id, reread codec obj⟩ :: (sh.entries.filterMap (recordOf codec now)).kerase id
  rw [filterMap_live rfl, kerase_recordOf sh.nodupKeys]
  rfl

/-- **A record is removed.** -/
theorem recordsOf_delete :
    recordsOf codec now (edbShardDelete now sh id) = (recordsOf codec now sh).erase id := by
  apply AList.ext
  show (edbShardDelete now sh id).entries.filterMap (recordOf codec now) =
    (sh.entries.filterMap (recordOf codec now)).kerase id
  rw [← kerase_recordOf sh.nodupKeys, edbShardDelete]
  cases hrow : sh.lookup id with
  | none =>
    rw [List.kerase_of_notMem_keys (List.dlookup_eq_none.mp hrow)]
  | some r =>
    show ((⟨id, { r with ttl := some (now - 5), timestamp := some now }⟩ ::
      sh.entries.kerase id : List (Sigma fun _ : CString => Row))).filterMap (recordOf codec now) = _
    have hdead : Row.live now { r with ttl := some (now - 5), timestamp := some now } = false :=
      decide_eq_false (by omega)
    rw [filterMap_dead hdead]

/-- Rows that have expired or never do stand for the same map later. -/
theorem recordsOf_later (hle : now ≤ later)
    (h : ∀ id r, sh.lookup id = some r → ∀ t ∈ r.ttl, t < now) :
    recordsOf codec later sh = recordsOf codec now sh := by
  apply AList.ext
  refine List.filterMap_congr fun e he => ?_
  have hrow := h e.1 e.2 (AList.mem_lookup_iff.mpr he)
  have hlive : e.2.live later = e.2.live now := by
    rw [live_of_settled hrow, live_of_settled fun t ht => lt_of_lt_of_le (hrow t ht) hle]
  rw [recordOf, recordOf, hlive]

/-- **A pass that removes old rows** changes nothing. -/
theorem recordsOf_cleanup :
    recordsOf codec now (edbShardCleanup now sh) = recordsOf codec now sh := by
  apply AList.ext
  show (sh.entries.filter _).filterMap (recordOf codec now) =
    sh.entries.filterMap (recordOf codec now)
  rw [List.filterMap_filter]
  refine List.filterMap_congr fun e _ => ?_
  split_ifs with hkept
  · rfl
  · -- the row has been dead for the grace window
    obtain ⟨t, ht, hold⟩ : ∃ t, e.2.ttl = some t ∧ t < now - cleanupGraceSeconds := by
      simpa only [Bool.not_eq_true, Bool.not_eq_false', Option.any_eq_true, decide_eq_true_eq]
        using hkept
    have hgrace : (0 : Int) ≤ cleanupGraceSeconds := by decide
    have hdead : e.2.live now = false := by
      rw [Row.live, ht]
      exact decide_eq_false (by omega)
    rw [recordOf, if_neg (Bool.eq_false_iff.mp hdead)]

end Shards

/-! ## A node and its maps -/

/-- The maps are those of the node's configuration shards. -/
structure Related (codec : Codec D) (shardKey : CString → CString → CString) (now : Int)
    (engine : CString → Shard) (t : Records D) : Prop where
  settled : Settled shardKey now engine
  records : ∀ ks ∈ systemKeyspaces,
    recordsOf codec now (engine (shardKey systemDb ks)) = t (shardKey systemDb ks)

/-- The calls on configuration records give the same answers from related states. -/
structure Serves {σ τ : Type} (B : Backend σ D) (B' : Backend τ D) (R : σ → τ → Prop) : Prop where
  fetch : ∀ s t, R s t → ∀ ks ∈ systemKeyspaces, fetch B s ks = fetch B' t ks
  all : ∀ s t, R s t → ∀ ks ∈ systemKeyspaces, B.all s systemDb ks = B'.all t systemDb ks
  store : ∀ ks ∈ systemKeyspaces, ∀ id obj, Agree R (store B ks id obj) (store B' ks id obj)
  removeRecord : ∀ ks ∈ systemKeyspaces, ∀ id,
    Agree R (removeRecord B ks id) (removeRecord B' ks id)

section Local

variable {codec : Codec D} {shardKey : CString → CString → CString} {now later : Int}
variable {engine : CString → Shard} {t : Records D}

/-- The maps that a node stands for. -/
theorem related_recordsOf (h : Settled shardKey now engine) :
    Related codec shardKey now engine fun key => recordsOf codec now (engine key) :=
  ⟨h, fun _ _ => rfl⟩

/-- Time passes. -/
theorem Related.tick (h : Related codec shardKey now engine t) (hle : now ≤ later) :
    Related codec shardKey later engine t where
  settled := h.settled.mono hle
  records ks hks := (recordsOf_later hle (h.settled ks hks)).trans (h.records ks hks)

/-- One shard and its map change. -/
theorem Related.update (h : Related codec shardKey now engine t) (hapart : KeysApart shardKey)
    {ks : CString} (hks : ks ∈ systemKeyspaces) {sh : Shard} {m : RecordMap D}
    (hsettled : Settled shardKey now (Function.update engine (shardKey systemDb ks) sh))
    (hrecords : recordsOf codec now sh = m) :
    Related codec shardKey now (Function.update engine (shardKey systemDb ks) sh)
      (Function.update t (shardKey systemDb ks) m) where
  settled := hsettled
  records ks' hks' := by
    by_cases hne : ks' = ks
    · subst hne
      rw [Function.update_self, Function.update_self, hrecords]
    · have hkey := hapart.ne hks' hks hne
      rw [Function.update_of_ne hkey, Function.update_of_ne hkey, h.records ks' hks']

/-- A shard of something else changes. -/
theorem Related.elsewhere (h : Related codec shardKey now engine t) {key : CString}
    (hkey : ∀ ks ∈ systemKeyspaces, shardKey systemDb ks ≠ key) (sh : Shard) :
    Related codec shardKey now (Function.update engine key sh) t where
  settled ks hks id r hr := by
    rw [Function.update_of_ne (hkey ks hks)] at hr
    exact h.settled ks hks id r hr
  records ks hks := by
    rw [Function.update_of_ne (hkey ks hks)]
    exact h.records ks hks

/-- Old rows are removed. -/
theorem Related.cleanup (h : Related codec shardKey now engine t) (hapart : KeysApart shardKey)
    (key : CString) :
    Related codec shardKey now (Function.update engine key (edbShardCleanup now (engine key))) t := by
  by_cases hkey : ∃ ks ∈ systemKeyspaces, shardKey systemDb ks = key
  · obtain ⟨ks, hks, rfl⟩ := hkey
    have hsettled : Settled shardKey now (Function.update engine (shardKey systemDb ks)
        (edbShardCleanup now (engine (shardKey systemDb ks)))) :=
      h.settled.update hks fun id r hr => by
        rw [lookup_edbShardCleanup] at hr
        exact .inl (Option.filter_eq_some_iff.mp hr).1
    have hupdate := h.update hapart hks hsettled (recordsOf_cleanup.trans (h.records ks hks))
    rwa [Function.update_eq_self] at hupdate
  · exact h.elsewhere (fun ks hks heq => hkey ⟨ks, hks, heq⟩) _

/-- **A node serves like its maps.** -/
theorem serves_local (hapart : KeysApart shardKey) :
    Serves (localBackend codec shardKey now) (plainBackend codec shardKey)
      (Related codec shardKey now) where
  fetch engine t h ks hks := by
    funext id
    show EpsilonDB.fetch (localBackend codec shardKey now) engine ks id =
      (t (shardKey systemDb ks)).get id
    rw [fetch_eq, ← h.records ks hks, lookup_recordsOf]
  all engine t h ks hks := by
    show (edbShardAllTs codec.parse now none (engine (shardKey systemDb ks))).map (fun e => e.2.2) =
      (t (shardKey systemDb ks)).all
    rw [← h.records ks hks, all_recordsOf]
  store ks hks id obj := fun engine t h => by
    refine ⟨rfl, ?_⟩
    have hsettled : Settled shardKey now (EpsilonDB.store (localBackend codec shardKey now) ks id
      obj engine).2 := h.settled.store hks id obj
    rw [store_snd] at hsettled ⊢
    refine h.update hapart hks hsettled ?_
    rw [recordsOf_put, h.records ks hks]
    rfl
  removeRecord ks hks id := fun engine t h => by
    refine ⟨rfl, ?_⟩
    have hsettled := h.settled.removeRecord hks codec id
    rw [removeRecord_snd] at hsettled ⊢
    refine h.update hapart hks hsettled ?_
    rw [recordsOf_delete, h.records ks hks]
    rfl

end Local

/-! ## The operations -/

theorem cfgDatabases_mem : cfgDatabases ∈ systemKeyspaces := by simp [systemKeyspaces, cfgDatabases]

namespace Serves

variable {σ τ : Type} {B : Backend σ D} {B' : Backend τ D} {R : σ → τ → Prop} {s : σ} {t : τ}

theorem edbUserGet (hB : Serves B B' R) (h : R s t) (name : CString) :
    edbUserGet B s name = edbUserGet B' t name := by
  unfold EpsilonDB.edbUserGet
  rw [hB.fetch s t h _ cfgUsers_mem]

theorem edbDatabaseGet (hB : Serves B B' R) (h : R s t) (name : CString) :
    edbDatabaseGet B s name = edbDatabaseGet B' t name := by
  unfold EpsilonDB.edbDatabaseGet
  rw [hB.fetch s t h _ cfgDatabases_mem]

theorem edbPartitionGet (hB : Serves B B' R) (h : R s t) (database name : CString) :
    edbPartitionGet B s database name = edbPartitionGet B' t database name := by
  unfold EpsilonDB.edbPartitionGet
  rw [hB.fetch s t h _ cfgPartitions_mem]

theorem edbPartitionList (hB : Serves B B' R) (h : R s t) (database : CString) :
    edbPartitionList B s database = edbPartitionList B' t database := by
  unfold EpsilonDB.edbPartitionList
  rw [hB.all s t h _ cfgPartitions_mem]

theorem edbGroupList (hB : Serves B B' R) (h : R s t) : edbGroupList B s = edbGroupList B' t := by
  unfold EpsilonDB.edbGroupList
  rw [hB.all s t h _ cfgGroups_mem]

omit [Doubles D] in
theorem edbKeyspaceList (hB : Serves B B' R) (h : R s t) :
    edbKeyspaceList B s = edbKeyspaceList B' t := by
  unfold EpsilonDB.edbKeyspaceList
  rw [hB.all s t h _ cfgKeyspaces_mem]

theorem groupBit (hB : Serves B B' R) (h : R s t) (name : CString) :
    groupBit B s name = groupBit B' t name := by
  unfold EpsilonDB.groupBit nextFreeBit edbGroupGet
  rw [hB.fetch s t h _ cfgGroups_mem, hB.edbGroupList h]

theorem edbGroupCreate (hB : Serves B B' R) (name : CString) :
    Agree R (edbGroupCreate B name) (edbGroupCreate B' name) := by
  intro s t h
  simp only [EpsilonDB.edbGroupCreate, hB.groupBit h]
  cases EpsilonDB.groupBit B' t name with
  | none => exact ⟨rfl, h⟩
  | some bit => exact hB.store _ cfgGroups_mem _ _ s t h

theorem edbUserCreate (hB : Serves B B' R) (name : CString) (groups : UInt64) :
    Agree R (edbUserCreate B name groups) (edbUserCreate B' name groups) := by
  intro s t h
  simp only [EpsilonDB.edbUserCreate, hB.edbUserGet h]
  split_ifs
  · exact ⟨rfl, h⟩
  · exact ⟨rfl, h⟩
  · exact hB.store _ cfgUsers_mem _ _ s t h

theorem edbUserSetGroups (hB : Serves B B' R) (name : CString) (groups : UInt64) :
    Agree R (edbUserSetGroups B name groups) (edbUserSetGroups B' name groups) := by
  intro s t h
  simp only [EpsilonDB.edbUserSetGroups, hB.edbUserGet h]
  split_ifs
  · exact hB.store _ cfgUsers_mem _ _ s t h
  · exact ⟨rfl, h⟩

theorem edbUserSetPassword (hB : Serves B B' R) (name password salt hash : CString) :
    Agree R (edbUserSetPassword B name password salt hash)
      (edbUserSetPassword B' name password salt hash) := by
  intro s t h
  simp only [EpsilonDB.edbUserSetPassword, hB.edbUserGet h]
  split_ifs
  · exact ⟨rfl, h⟩
  · cases EpsilonDB.edbUserGet B' t name with
    | none => exact ⟨rfl, h⟩
    | some info => exact hB.store _ cfgUsers_mem _ _ s t h

theorem edbDatabaseCreate (hB : Serves B B' R) (name : CString) (replicationFactor : Int) :
    Agree R (edbDatabaseCreate B name replicationFactor)
      (edbDatabaseCreate B' name replicationFactor) := by
  intro s t h
  simp only [EpsilonDB.edbDatabaseCreate, hB.edbDatabaseGet h]
  split_ifs
  · exact ⟨rfl, h⟩
  · exact ⟨rfl, h⟩
  · exact hB.store _ cfgDatabases_mem _ _ s t h

theorem edbPartitionCreate (hB : Serves B B' R) (database name : CString)
    (createMask updateMask readMask deleteMask : UInt64) :
    Agree R (edbPartitionCreate B database name createMask updateMask readMask deleteMask)
      (edbPartitionCreate B' database name createMask updateMask readMask deleteMask) := by
  intro s t h
  simp only [EpsilonDB.edbPartitionCreate, hB.edbPartitionGet h]
  split_ifs
  · exact ⟨rfl, h⟩
  · exact ⟨rfl, h⟩
  · exact hB.store _ cfgPartitions_mem _ _ s t h

theorem edbPartitionSetMasks (hB : Serves B B' R) (database name : CString)
    (createMask updateMask readMask deleteMask : UInt64) :
    Agree R (edbPartitionSetMasks B database name createMask updateMask readMask deleteMask)
      (edbPartitionSetMasks B' database name createMask updateMask readMask deleteMask) := by
  intro s t h
  simp only [EpsilonDB.edbPartitionSetMasks, hB.edbPartitionGet h]
  split_ifs
  · exact hB.store _ cfgPartitions_mem _ _ s t h
  · exact ⟨rfl, h⟩

omit [Doubles D] in
/-- A round of the loop over the keyspaces. -/
theorem removeKeyspace (hB : Serves B B' R) (database : CString) (partition : Option CString)
    (item : Json D) (ok : Bool) :
    Agree R (fun s => removeKeyspace B database partition (ok, s) item)
      (fun t => removeKeyspace B' database partition (ok, t) item) := by
  intro s t h
  simp only [EpsilonDB.removeKeyspace]
  split
  · split_ifs
    · split
      · exact ⟨rfl, h⟩
      · split_ifs
        · exact ⟨rfl, h⟩
        · obtain ⟨hanswer, hstate⟩ := hB.removeRecord _ cfgKeyspaces_mem _ s t h
          exact ⟨congrArg (ok && ·) hanswer, hstate⟩
    · exact ⟨rfl, h⟩
  · exact ⟨rfl, h⟩

omit [Doubles D] in
theorem removeKeyspacesFor (hB : Serves B B' R) (database : CString)
    (partition : Option CString) :
    Agree R (removeKeyspacesFor B database partition) (removeKeyspacesFor B' database partition) := by
  intro s t h
  unfold EpsilonDB.removeKeyspacesFor
  rw [hB.all s t h _ cfgKeyspaces_mem]
  exact Agree.foldl (hB.removeKeyspace database partition) _ true s t h

omit [Doubles D] in
theorem edbPartitionDelete (hB : Serves B B' R) (database name : CString) :
    Agree R (edbPartitionDelete B database name) (edbPartitionDelete B' database name) := by
  have hrest := (hB.removeKeyspacesFor database (some name)).andThen fun ok =>
    Agree.ite (c := ok = true) (hB.removeRecord _ cfgPartitions_mem (partitionId database name))
      (Agree.known false)
  exact hrest

theorem edbDatabaseDelete (hB : Serves B B' R) (name : CString) :
    Agree R (edbDatabaseDelete B name) (edbDatabaseDelete B' name) := by
  intro s t h
  have hlater := Agree.foldl_state (fun info : PartitionInfo => hB.edbPartitionDelete name info.name)
    (EpsilonDB.edbPartitionList B' t name) h
  have hrest := (hB.removeKeyspacesFor name none).andThen fun ok =>
    Agree.ite (c := ok = true) (hB.removeRecord _ cfgDatabases_mem name) (Agree.known false)
  unfold EpsilonDB.edbDatabaseDelete
  rw [hB.edbPartitionList h]
  exact hrest _ _ hlater

omit [Doubles D] in
theorem ensureKeyspace (hB : Serves B B' R) (database partition keyspace : CString)
    (h : R s t) :
    R (ensureKeyspace B database partition keyspace s)
      (ensureKeyspace B' database partition keyspace t) := by
  simp only [EpsilonDB.ensureKeyspace, hB.fetch s t h _ cfgKeyspaces_mem]
  split
  · exact h
  · exact (hB.store _ cfgKeyspaces_mem _ _ s t h).2

theorem edbPartitionEnsure (hB : Serves B B' R) (database partition keyspace : CString)
    (h : R s t) :
    R (edbPartitionEnsure B database partition keyspace s)
      (edbPartitionEnsure B' database partition keyspace t) := by
  obtain ⟨hanswer, hstate⟩ := hB.edbPartitionCreate database partition maskAllowAll maskAllowAll
    maskAllowAll maskAllowAll s t h
  simp only [EpsilonDB.edbPartitionEnsure, hB.edbPartitionGet h, hanswer]
  split_ifs
  · exact h
  · exact hB.ensureKeyspace database partition keyspace h
  · exact hB.ensureKeyspace database partition keyspace hstate
  · exact hstate

end Serves

end EpsilonDB
