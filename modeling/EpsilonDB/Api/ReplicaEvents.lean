import EpsilonDB.Api.AfterEvents
import EpsilonDB.Engine.Convergence
import EpsilonDB.Lua.Entities

/-!
# What the handlers of replicas see (`api_apply_change_impl`)

The apply handler of a peer looks the record up before it applies a change, and hands a copy of
the value of a put, or the record it has found before a delete, to the handler of the event.

- `DocumentChange`: a change with the members of the value it carries.
- `duplicateItem`: the copy, which is without them.
- `EventNode.fired`: the event and the entity that a handler is run with.
- `SeesRecord`: the handler is shown the document that was written or deleted, and inserts are
  told from updates.
- `seesRecord_iff`: it is shown a document without members that was written, and a document
  within the levels that was deleted.
- `written_document_hidden`: a put whose handler is given an empty table.
-/

namespace EpsilonDB

open Lua

variable {D : Type} [Doubles D]

/-! ## The handler and its entity -/

/-- A change as it arrives, with the members of its `value` where that is an object. -/
structure DocumentChange (codec : Codec D) extends SentChange where
  members : Option (List (CString × Json D))
  value_eq : payload.value = members.map fun ms => codec.print (.obj ms)

omit [Doubles D] in
/-- `cJSON_Duplicate` of an item without its children. -/
def duplicateItem : Json D → Json D
  | .arr _ => .arr []
  | .obj _ => .obj []
  | v => v

/-- The entity of `edb_lua_fire`. The record of an after-delete is not fetched. -/
def firedEntity (event : LuaEvent) : Option (Json D) → Pushed D
  | some (.obj ms) => entityTable ms
  | _ => if event = .afterDelete then .nil else entityTable []

/-- A handler that is run: its event and entity, and the change it is run for. -/
structure FiredHandler (D : Type) where
  partition : CString
  keyspace : CString
  change : Change
  event : LuaEvent
  entity : Pushed D

section

variable (codec : Codec D) (shardKey : CString → CString → CString)

/-- The handler that `api_apply_change_impl` runs, behind the restore lock. -/
def EventNode.fired (n : EventNode) (now : Int) (c : DocumentChange codec) :
    Option (FiredHandler D) := do
  let (db, partition, keyspace, change, event) ← n.decoded codec.parse shardKey now c.payload
  if !c.lua && apiFireLua n.records event db partition keyspace then
    let original : Option (Json D) :=
      match change.op with
      | .put _ _ => c.members.map fun ms => duplicateItem (.obj ms)
      | .delete =>
        (edbShardGetTs codec.parse now (n.engine (shardKey partition keyspace)) change.id).map
          Prod.fst
    return ⟨partition, keyspace, change, event, firedEntity event original⟩
  else none

/-- The handler of a put is shown the document that is written, and is that of an insert when
there was no live record. The handler of a delete is shown the document that is deleted, or
nothing when there was none. -/
def SeesRecord (n : EventNode) (now : Int) (c : DocumentChange codec) (f : FiredHandler D) :
    Prop :=
  let before := n.engine (shardKey f.partition f.keyspace)
  let after := (n.received codec.parse shardKey now c.toSentChange).engine
    (shardKey f.partition f.keyspace)
  match f.change.op with
  | .put text _ =>
    (f.event = .afterInsert ↔ edbShardGetTs codec.parse now before f.change.id = none) ∧
      (f.event = .afterUpdate ↔ edbShardGetTs codec.parse now before f.change.id ≠ none) ∧
      after.lookup f.change.id = some f.change.row ∧
      ∃ ms, text = codec.print (.obj ms) ∧ c.members = some ms ∧ Shows (.obj ms) f.entity
  | .delete =>
    f.event = .afterDelete ∧
      match edbShardGetTs codec.parse now before f.change.id with
      | none => f.entity = .nil
      | some (doc, _) =>
        Shows doc f.entity ∧ edbShardGetTs codec.parse now after f.change.id = none

/-- The stored version is newer than the change. -/
def Skipped (n : EventNode) (f : FiredHandler D) : Bool :=
  storedNewer (storedVersionLocked (n.engine (shardKey f.partition f.keyspace)) f.change.id)
    f.change.ts f.change.origin

end

variable {codec : Codec D} {shardKey : CString → CString → CString} {n : EventNode} {now : Int}
variable {c : DocumentChange codec} {f : FiredHandler D}

/-! ## What fires -/

/-- Where a handler is run, and for what. -/
theorem fired_cases (h : n.fired codec shardKey now c = some f) :
    ∃ db, n.decoded codec.parse shardKey now c.payload =
        some (db, f.partition, f.keyspace, f.change, f.event) ∧
      f.entity = firedEntity f.event
        (match f.change.op with
        | .put _ _ => c.members.map fun ms => duplicateItem (.obj ms)
        | .delete => (edbShardGetTs codec.parse now (n.engine (shardKey f.partition f.keyspace))
            f.change.id).map Prod.fst) := by
  obtain ⟨⟨db, partition, keyspace, change, event⟩, hdecoded, h⟩ := Option.bind_eq_some_iff.mp h
  dsimp only at h
  split at h
  · obtain rfl := Option.some.inj h
    exact ⟨db, hdecoded, rfl⟩
  · cases h

/-- The event and the text of a change that is decoded. -/
theorem decoded_cases {db partition keyspace : CString} {change : Change} {event : LuaEvent}
    (h : n.decoded codec.parse shardKey now c.payload =
      some (db, partition, keyspace, change, event)) :
    c.payload.db = some db ∧ decodeChange c.payload = some (partition, keyspace, change) ∧
      event = afterEvent codec.parse now (n.engine (shardKey partition keyspace)) change := by
  obtain ⟨db', hdb, h⟩ := Option.bind_eq_some_iff.mp h
  dsimp only at h
  obtain ⟨⟨partition', keyspace', change'⟩, hdecode, h⟩ := Option.bind_eq_some_iff.mp h
  obtain ⟨rfl, rfl, rfl, rfl, rfl⟩ : db' = db ∧ partition' = partition ∧ keyspace' = keyspace ∧
      change' = change ∧
        afterEvent codec.parse now (n.engine (shardKey partition' keyspace')) change' = event := by
    simpa using h
  exact ⟨hdb, hdecode, rfl⟩

/-- The text of a put is that of its value. -/
theorem text_of_decodeChange {partition keyspace text : CString} {ttl : Int} {change : Change}
    (h : decodeChange c.payload = some (partition, keyspace, change))
    (hop : change.op = .put text ttl) :
    ∃ ms, c.members = some ms ∧ text = codec.print (.obj ms) := by
  have hvalue : c.payload.value = some text := by
    unfold decodeChange at h
    simp only [Option.bind_eq_bind, Option.bind_eq_some_iff] at h
    obtain ⟨op, -, p, -, k, -, id, -, ts, -, h⟩ := h
    split at h
    · obtain ⟨value, hvalue, h⟩ := Option.bind_eq_some_iff.mp h
      cases h
      cases hop
      exact hvalue
    · split at h
      · cases h
        cases hop
      · cases h
  rw [c.value_eq] at hvalue
  obtain ⟨ms, hms, htext⟩ := Option.map_eq_some_iff.mp hvalue
  exact ⟨ms, hms, htext.symm⟩

/-- The shard of the change afterwards. -/
theorem received_shard {db partition keyspace : CString} {change : Change}
    (hdb : c.payload.db = some db)
    (hdecode : decodeChange c.payload = some (partition, keyspace, change)) :
    (n.received codec.parse shardKey now c.toSentChange).engine (shardKey partition keyspace) =
      applyChange (n.engine (shardKey partition keyspace)) change := by
  show (apiApplyChange shardKey n.engine c.payload).1 (shardKey partition keyspace) = _
  rw [apiApplyChange, hdb]
  dsimp only
  rw [applyChangeLocal, hdecode]
  exact Function.update_self _ _ _

/-- A change is written exactly when it is not skipped. -/
theorem lookup_applyChange_iff {sh : Shard} {change : Change} :
    (applyChange sh change).lookup change.id = some change.row ↔
      storedNewer (storedVersionLocked sh change.id) change.ts change.origin = false := by
  rw [applyChange_eq]
  cases hnewer : storedNewer (storedVersionLocked sh change.id) change.ts change.origin with
  | true =>
    rw [if_pos rfl]
    refine iff_of_false (fun hlookup => ?_) (by decide)
    have hlt := (storedNewer_iff sh change).mp hnewer
    rw [hlookup] at hlt
    exact lt_irrefl _ hlt
  | false =>
    rw [if_neg (by decide)]
    exact iff_of_true (AList.lookup_insert _) rfl

/-- A delete leaves no record exactly when it is not skipped. -/
theorem edbShardGetTs_delete_iff {sh : Shard} {change : Change} (hop : change.op = .delete)
    {found : Json D × Int} (hget : edbShardGetTs codec.parse now sh change.id = some found) :
    edbShardGetTs codec.parse now (applyChange sh change) change.id = none ↔
      storedNewer (storedVersionLocked sh change.id) change.ts change.origin = false := by
  cases hskipped : storedNewer (storedVersionLocked sh change.id) change.ts change.origin with
  | true =>
    rw [applyChange_eq, hskipped, if_pos rfl, hget]
    exact iff_of_false (Option.some_ne_none _) (by decide)
  | false =>
    refine iff_of_true ?_ rfl
    unfold edbShardGetTs
    rw [lookup_applyChange_iff.mpr hskipped, Change.row, hop]
    dsimp only
    split <;> rfl

/-! ## What the handlers see -/

/-- **The handler of a put** sees the document exactly when it has no members and is written. -/
theorem seesRecord_put {text : CString} {ttl : Int} (h : n.fired codec shardKey now c = some f)
    (hop : f.change.op = .put text ttl) :
    SeesRecord codec shardKey n now c f ↔
      Skipped shardKey n f = false ∧ c.members = some [] := by
  obtain ⟨db, hdecoded, hentity⟩ := fired_cases h
  obtain ⟨hdb, hdecode, hevent⟩ := decoded_cases hdecoded
  obtain ⟨ms, hms, htext⟩ := text_of_decodeChange hdecode hop
  rw [hop, hms] at hentity
  have hentity : f.entity = entityTable [] := hentity
  unfold SeesRecord
  dsimp only
  rw [hop, received_shard hdb hdecode, lookup_applyChange_iff, ← Skipped, hentity, hms]
  dsimp only
  have hinsert : (f.event = .afterInsert ↔ edbShardGetTs codec.parse now
      (n.engine (shardKey f.partition f.keyspace)) f.change.id = none) ∧
      (f.event = .afterUpdate ↔ edbShardGetTs codec.parse now
        (n.engine (shardKey f.partition f.keyspace)) f.change.id ≠ none) := by
    rw [hevent, afterEvent, hop]
    dsimp only
    cases edbShardGetTs codec.parse now (n.engine (shardKey f.partition f.keyspace))
        f.change.id with
    | none => simp
    | some _ => simp
  constructor
  · rintro ⟨-, -, hkept, ms', -, hms', hshows⟩
    obtain rfl := Option.some.inj hms'
    exact ⟨hkept, congrArg some (shows_empty_iff.mp hshows)⟩
  · rintro ⟨hkept, hempty⟩
    obtain rfl := Option.some.inj hempty
    exact ⟨hinsert.1, hinsert.2, hkept, [], htext, rfl, shows_empty_iff.mpr rfl⟩

/-- What was deleted is shown where it is an object within the levels. -/
theorem shows_deleted_iff {doc : Json D} :
    Shows doc (firedEntity .afterDelete (some doc)) ↔
      doc.isObject = true ∧ Within (maxDepth + 2) doc := by
  cases doc with
  | obj ms => exact shows_entityTable_iff.trans (iff_and_self.mpr fun _ => rfl)
  | null | bool _ | num _ | str _ | arr _ =>
    exact iff_of_false not_shows_nil fun h => Bool.false_ne_true h.1

/-- **The handler of a delete** sees the document exactly when there was none, or it is an
object within the levels and is deleted. -/
theorem seesRecord_delete (h : n.fired codec shardKey now c = some f)
    (hop : f.change.op = .delete) :
    SeesRecord codec shardKey n now c f ↔
      ∀ doc ts, edbShardGetTs codec.parse now (n.engine (shardKey f.partition f.keyspace))
        f.change.id = some (doc, ts) →
        Skipped shardKey n f = false ∧ doc.isObject = true ∧ Within (maxDepth + 2) doc := by
  obtain ⟨db, hdecoded, hentity⟩ := fired_cases h
  obtain ⟨hdb, hdecode, hevent⟩ := decoded_cases hdecoded
  have hafter : f.event = .afterDelete := by
    rw [hevent, afterEvent, hop]
  rw [hop, hafter] at hentity
  dsimp only at hentity
  unfold SeesRecord
  dsimp only
  rw [hop, received_shard hdb hdecode, hentity]
  dsimp only
  rw [and_iff_right hafter]
  cases hget : edbShardGetTs codec.parse now (n.engine (shardKey f.partition f.keyspace))
      f.change.id with
  | none => exact iff_of_true rfl nofun
  | some found =>
    obtain ⟨doc, ts⟩ := found
    dsimp only [Option.map_some]
    rw [shows_deleted_iff, edbShardGetTs_delete_iff hop hget, ← Skipped]
    constructor
    · rintro ⟨⟨hobject, hwithin⟩, hkept⟩ doc' ts' hfound
      obtain ⟨rfl, rfl⟩ := Prod.mk.inj (Option.some.inj hfound)
      exact ⟨hkept, hobject, hwithin⟩
    · intro hall
      obtain ⟨hkept, hobject, hwithin⟩ := hall doc ts rfl
      exact ⟨⟨hobject, hwithin⟩, hkept⟩

/-- **The handlers of replicas see the record**: of a put that is not skipped and whose value has
no members, of a delete that finds no record, and of one that is not skipped and finds an object
within the levels. -/
theorem seesRecord_iff (h : n.fired codec shardKey now c = some f) :
    SeesRecord codec shardKey n now c f ↔
      match f.change.op with
      | .put _ _ => Skipped shardKey n f = false ∧ c.members = some []
      | .delete =>
        ∀ doc ts, edbShardGetTs codec.parse now (n.engine (shardKey f.partition f.keyspace))
          f.change.id = some (doc, ts) →
          Skipped shardKey n f = false ∧ doc.isObject = true ∧ Within (maxDepth + 2) doc := by
  cases hop : f.change.op with
  | put text ttl => exact seesRecord_put h hop
  | delete => exact seesRecord_delete h hop

/-! ## A put at a replica -/

/-- No text is parsed: the shard is empty. -/
def emptyCodec : Codec Int := tableCodec [] no_values

/-- A node with the code record `d_p_k_afterInsert`. -/
def replica : EventNode where
  engine := fun _ => ∅
  records := [cstr "d_p_k_afterInsert"]

/-- The put of a document with one member. -/
def writtenDocument : DocumentChange emptyCodec where
  toSentChange := firstPut
  members := some [(cstr "v", .num 1)]
  value_eq := by decide

/-- The put of a document without members. -/
def writtenEmpty : DocumentChange emptyCodec where
  toSentChange := { firstPut with
    payload := { firstPut.payload with value := some (cstr "\x7b\x7d") } }
  members := some []
  value_eq := by decide

/-- **The handler is given an empty table** for the document. -/
theorem written_document_hidden :
    ∃ f, replica.fired emptyCodec (fun _ _ => cstr "s") 5 writtenDocument = some f ∧
      f.event = .afterInsert ∧ f.entity = entityTable [] ∧
      ¬ SeesRecord emptyCodec (fun _ _ => cstr "s") replica 5 writtenDocument f := by
  refine ⟨_, rfl, rfl, rfl, fun h => ?_⟩
  have hempty := ((seesRecord_put rfl rfl).mp h).2
  cases hempty

/-- Where there is nothing to hide the handler sees it. -/
theorem written_empty_seen :
    ∃ f, replica.fired emptyCodec (fun _ _ => cstr "s") 5 writtenEmpty = some f ∧
      SeesRecord emptyCodec (fun _ _ => cstr "s") replica 5 writtenEmpty f :=
  ⟨_, rfl, (seesRecord_iff rfl).mpr ⟨rfl, rfl⟩⟩

end EpsilonDB
