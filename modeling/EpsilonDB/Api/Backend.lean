import EpsilonDB.Engine.Json
import EpsilonDB.Lib.Views
import EpsilonDB.Socket.Placement

/-!
# The store under the request handlers (`engine/manager.c`)

Every handler reads and writes through the same few calls, answered by the local engine or,
where a replication service is attached, by the replicas (`g_repl ? … : …`). A backend is
these calls over a state, together with what every request relies on: a call names a
partition and a keyspace, and reads and writes the one shard their key names.

- `StoreWrite`: a write as a handler hands it over. A document that is printed and parsed back on
  the way is taken to stay what it is.
- `Place`: where a record is, by its names.
- `Backend`: the calls and their confinement. Names spliced into a change unescaped may turn into
  others on the way, so a write is confined to the shard of the `place` it comes to, and to the
  one of its own names where it is `safe`.
- `Backend.KeepsPartition`: names whose writes come to no other partition.
- `localBackend`: the node without replication, at a fixed clock.
-/

namespace EpsilonDB

/-- `CFG_KEYSPACE_CODE` -/
def cfgCode : CString := cstr "config_code"

theorem cfgCode_mem : cfgCode ∈ systemKeyspaces := by simp [systemKeyspaces, cfgCode]

/-- The names of a record. -/
structure Place where
  db : CString
  partition : CString
  keyspace : CString
  id : CString
deriving DecidableEq

/-- A write of a request handler. -/
inductive StoreWrite (D : Type) where
  /-- a document put over HTTP, its lifetime in seconds -/
  | put (db partition keyspace id : CString) (doc : Json D) (ttl : Int)
  /-- a delete, of either surface -/
  | delete (db partition keyspace id : CString)
  /-- a row written back by a statement -/
  | replay (db partition keyspace id : CString) (doc : Json D)
  /-- `store`: a configuration record -/
  | config (keyspace id : CString) (obj : Json D)

namespace StoreWrite

variable {D : Type}

def partition : StoreWrite D → CString
  | put _ partition _ _ _ _ | delete _ partition _ _ | replay _ partition _ _ _ => partition
  | config _ _ _ => systemDb

def keyspace : StoreWrite D → CString
  | put _ _ keyspace _ _ _ | delete _ _ keyspace _ | replay _ _ keyspace _ _ => keyspace
  | config keyspace _ _ => keyspace

def id : StoreWrite D → CString
  | put _ _ _ id _ _ | delete _ _ _ id | replay _ _ _ id _ => id
  | config _ id _ => id

/-- The database `edb_repl_write` takes the replication factor of. -/
def db : StoreWrite D → CString
  | put db _ _ _ _ _ | delete db _ _ _ | replay db _ _ _ _ => db
  | config _ _ _ => systemDb

/-- Where it is meant to go. -/
def place (w : StoreWrite D) : Place := ⟨w.db, w.partition, w.keyspace, w.id⟩

/-- The names reach the change through the JSON printer, which escapes them. -/
def escaped : StoreWrite D → Bool
  | replay _ _ _ _ _ => false
  | _ => true

/-- The key of the shard it goes to. -/
def key (shardKey : CString → CString → CString) (w : StoreWrite D) : CString :=
  shardKey w.partition w.keyspace

end StoreWrite

/-- The store calls over states `σ`. -/
structure Backend (σ D : Type) where
  /-- what a state holds under one shard key, at every node there is -/
  Part : Type
  view : σ → CString → Part
  /-- `shard_key` -/
  shardKey : CString → CString → CString
  /-- `edb_get` -/
  get : σ → CString → CString → CString → Option (Json D)
  /-- `edb_all` without filters -/
  all : σ → CString → CString → List (Json D)
  /-- `edb_repl_read_get`, or `edb_get` -/
  readGet : σ → CString → CString → CString → CString → Option (Json D)
  /-- `edb_repl_read_ids`, or `edb_ids` -/
  readIds : σ → CString → CString → CString → Option (Json D → Bool) → List CString
  /-- `edb_repl_read_query_meta`, or `edb_query_ts` -/
  readQueryMeta : σ → CString → CString → CString → Option (Json D → Bool) →
    List (CString × Int × Json D)
  /-- `edb_repl_write`, or `edb_put` and `edb_delete` -/
  write : StoreWrite D → σ → ReplStatus × σ
  /-- there is a replication service -/
  replicated : Bool
  /-- the code records that there are, at any node -/
  code : σ → Set (Json D)
  /-- where a write goes: the names that are read of it, if it is one that can be applied -/
  place : StoreWrite D → Option Place
  /-- its names reach the store as they are -/
  safe : StoreWrite D → Prop
  safe_of_escaped : ∀ w, w.escaped = true → safe w
  get_congr : ∀ {s s' partition keyspace},
    view s (shardKey partition keyspace) = view s' (shardKey partition keyspace) →
    get s partition keyspace = get s' partition keyspace
  all_congr : ∀ {s s' partition keyspace},
    view s (shardKey partition keyspace) = view s' (shardKey partition keyspace) →
    all s partition keyspace = all s' partition keyspace
  readGet_congr : ∀ {s s' partition keyspace},
    view s (shardKey partition keyspace) = view s' (shardKey partition keyspace) →
    ∀ db, readGet s db partition keyspace = readGet s' db partition keyspace
  readIds_congr : ∀ {s s' partition keyspace},
    view s (shardKey partition keyspace) = view s' (shardKey partition keyspace) →
    ∀ db, readIds s db partition keyspace = readIds s' db partition keyspace
  readQueryMeta_congr : ∀ {s s' partition keyspace},
    view s (shardKey partition keyspace) = view s' (shardKey partition keyspace) →
    ∀ db, readQueryMeta s db partition keyspace = readQueryMeta s' db partition keyspace
  confined : ∀ w, safe w → Confined view (w.key shardKey) (write w)
  place_of_safe : ∀ w p, safe w → place w = some p → p = w.place
  lands : ∀ w p, place w = some p → Confined view (shardKey p.partition p.keyspace) (write w)
  stays : ∀ w, place w = none → ∀ s key, view (write w s).2 key = view s key
  /-- what `edb_get` looks at, by shard key and id -/
  Cell : Type
  cell : σ → CString × CString → Cell
  cell_congr : ∀ {s s' x}, view s x.1 = view s' x.1 → cell s x = cell s' x
  get_cell : ∀ {s s' partition keyspace id},
    cell s (shardKey partition keyspace, id) = cell s' (shardKey partition keyspace, id) →
    get s partition keyspace id = get s' partition keyspace id
  settles : ∀ w p, place w = some p →
    SettlesAt cell (shardKey p.partition p.keyspace, p.id) fun s => (write w s).2
  mem_code : ∀ {s doc}, doc ∈ all s systemDb cfgCode → doc ∈ code s
  code_congr : ∀ {s s'},
    view s (shardKey systemDb cfgCode) = view s' (shardKey systemDb cfgCode) → code s = code s'

/-- Whatever a statement writes back under these names stays in the partition. -/
def Backend.KeepsPartition {σ D : Type} (B : Backend σ D) (db partition : CString) : Prop :=
  ∀ keyspace id doc, ∀ p ∈ B.place (.replay db partition keyspace id doc), p.partition = partition

/-- A write changes the shard of the place it comes to, if it comes to any. -/
theorem Backend.write_keeps {σ D : Type} {B : Backend σ D} {K : Set CString} {w : StoreWrite D}
    (h : ∀ p ∈ B.place w, B.shardKey p.partition p.keyspace ∈ K) (s : σ) :
    AgreeOff B.view K s (B.write w s).2 := by
  cases hplace : B.place w with
  | none => exact fun key _ => (B.stays w hplace s key).symm
  | some p => exact (B.lands w p hplace).keeps (h p hplace) s

/-! ## A node without replication -/

section Local

variable {D : Type} [Doubles D] (codec : Codec D) (shardKey : CString → CString → CString)
  (now : Int)

/-- The shard operation a write stands for. -/
def localWrite (sh : Shard) : StoreWrite D → Shard
  | .put _ _ _ id doc ttl => edbShardPut now sh id (codec.print doc) ttl
  | .delete _ _ _ id => edbShardDelete now sh id
  | .replay _ _ _ id doc => edbShardPut now sh id (codec.print doc) (-1)
  | .config _ id obj => edbShardPut now sh id (codec.print obj) (-1)

theorem confined_update {β : Type} (key : CString) (f : β → β) (status : ReplStatus) :
    Confined (id : (CString → β) → CString → β) key fun engine =>
      (status, Function.update engine key (f (engine key))) where
  frame engine key' hkey := Function.update_of_ne hkey _ _
  part engine engine' h := by
    have h : engine key = engine' key := h
    show Function.update engine _ _ _ = Function.update engine' _ _ _
    rw [Function.update_self, Function.update_self, h]
  answer _ _ _ := rfl

theorem settles_update {β γ : Type} (look : β → CString → γ) {f : β → β} {id : CString}
    (hframe : ∀ b, ∀ i ≠ id, look (f b) i = look b i)
    (hpart : ∀ b b', look b id = look b' id → look (f b) id = look (f b') id)
    (hagain : ∀ b, look (f (f b)) id = look (f b) id) (key : CString) :
    SettlesAt (fun (engine : CString → β) x => look (engine x.1) x.2) (key, id) fun engine =>
      Function.update engine key (f (engine key)) where
  frame engine x hx := by
    obtain ⟨key', i⟩ := x
    by_cases hkey : key' = key
    · subst hkey
      rw [Function.update_self]
      exact hframe _ i fun hi => hx (hi ▸ rfl)
    · rw [Function.update_of_ne hkey]
  part engine engine' h := by
    dsimp only
    rw [Function.update_self, Function.update_self]
    exact hpart _ _ h
  again engine := by
    dsimp only
    rw [Function.update_self, Function.update_self]
    exact hagain _

/-- A write leaves the other records of its shard. -/
theorem lookup_localWrite_of_ne (sh : Shard) (w : StoreWrite D) {id : CString} (h : id ≠ w.id) :
    (localWrite codec now sh w).lookup id = sh.lookup id := by
  cases w with
  | put | replay | config => exact AList.lookup_insert_ne h
  | delete db partition keyspace id' =>
    exact (lookup_edbShardDelete now sh id' id).trans (if_neg h)

/-- Of its own it makes something that another time makes the same of. -/
theorem lookup_localWrite (w : StoreWrite D) : ∃ g : Option Row → Option Row,
    (∀ r, g (g r) = g r) ∧
      ∀ sh, (localWrite codec now sh w).lookup w.id = g (sh.lookup w.id) := by
  cases w with
  | put | replay | config =>
    exact ⟨fun _ => some _, fun _ => rfl, fun sh => AList.lookup_insert sh⟩
  | delete db partition keyspace id =>
    -- a record that is deleted again gets the same times
    refine ⟨Option.map fun r => { r with ttl := some (now - 5), timestamp := some now },
      fun r => ?_, fun sh => (lookup_edbShardDelete now sh id id).trans (if_pos rfl)⟩
    cases r <;> rfl

theorem settles_localWrite (w : StoreWrite D) (key : CString) :
    SettlesAt (fun (engine : CString → Shard) x => (engine x.1).lookup x.2) (key, w.id)
      fun engine => Function.update engine key (localWrite codec now (engine key) w) := by
  obtain ⟨g, hg, hlookup⟩ := lookup_localWrite codec now w
  refine settles_update (fun (sh : Shard) i => sh.lookup i)
    (f := fun sh => localWrite codec now sh w)
    (fun sh _ hi => lookup_localWrite_of_ne codec now sh w hi) (fun sh sh' h => ?_) (fun sh => ?_) key
  · rw [hlookup, hlookup, h]
  · rw [hlookup, hlookup, hg]

omit [Doubles D] in
/-- Where every write is safe and goes where it is meant to. -/
theorem place_of_local (w : StoreWrite D) (p : Place) (_ : True) (h : some w.place = some p) :
    p = w.place := (Option.some.inj h).symm

/-- The calls on the engine of one node. -/
def localBackend : Backend (CString → Shard) D where
  Part := Shard
  view := id
  shardKey := shardKey
  get engine partition keyspace id :=
    (edbShardGetTs codec.parse now (engine (shardKey partition keyspace)) id).map Prod.fst
  all engine partition keyspace :=
    (edbShardAllTs codec.parse now none (engine (shardKey partition keyspace))).map fun e =>
      e.2.2
  readGet engine _ partition keyspace id :=
    (edbShardGetTs codec.parse now (engine (shardKey partition keyspace)) id).map Prod.fst
  readIds engine _ partition keyspace filters :=
    edbShardIds codec.parse now filters (engine (shardKey partition keyspace))
  readQueryMeta engine _ partition keyspace filters :=
    edbShardQueryTs codec.parse now filters (engine (shardKey partition keyspace))
  write w engine :=
    let key := w.key shardKey
    (.ok, Function.update engine key (localWrite codec now (engine key) w))
  replicated := false
  code engine := {doc | doc ∈ (edbShardAllTs codec.parse now none
    (engine (shardKey systemDb cfgCode))).map fun e => e.2.2}
  place w := some w.place
  safe _ := True
  safe_of_escaped _ _ := trivial
  get_congr h := by
    funext id
    exact congrArg (fun sh => (edbShardGetTs codec.parse now sh id).map Prod.fst) h
  all_congr h :=
    congrArg (fun sh => (edbShardAllTs codec.parse now none sh).map fun e => e.2.2) h
  readGet_congr h _ := by
    funext id
    exact congrArg (fun sh => (edbShardGetTs codec.parse now sh id).map Prod.fst) h
  readIds_congr h _ := by
    funext filters
    exact congrArg (edbShardIds codec.parse now filters) h
  readQueryMeta_congr h _ := by
    funext filters
    exact congrArg (edbShardQueryTs codec.parse now filters) h
  confined w _ := confined_update _ (localWrite codec now · w) .ok
  place_of_safe := place_of_local
  lands w p h := by
    obtain rfl := Option.some.inj h
    exact confined_update _ (localWrite codec now · w) .ok
  stays _ h := by cases h
  Cell := Option Row
  cell engine x := (engine x.1).lookup x.2
  cell_congr h := congrArg (fun sh : Shard => sh.lookup _) h
  get_cell h := congrArg (Option.map Prod.fst) (edbShardGetTs_congr now h)
  settles w p h := by
    obtain rfl := Option.some.inj h
    exact settles_localWrite codec now w _
  mem_code h := by exact h
  code_congr h :=
    congrArg (fun sh => {doc | doc ∈ (edbShardAllTs codec.parse now none sh).map fun e => e.2.2}) h

variable {codec shardKey now} in
theorem keepsPartition_local (db partition : CString) :
    (localBackend codec shardKey now).KeepsPartition db partition := by
  intro keyspace id doc p hp
  obtain rfl := Option.some.inj hp
  rfl

end Local

end EpsilonDB
