import EpsilonDB.Api.Entities
import EpsilonDB.Engine.Tombstones

/-!
# The configuration store of one node

What the configuration calls do to the records a node without replication reads, from one
second to the next.

- `KeysApart`: the configuration shards have keys of their own.
- `Settled`: every record that expires has done so. Records never come back with time then
  (`fetch_later`).
- `fetch_store`, `fetch_removeRecord`: one record changes.
- `mem_all`: the list of a keyspace has the records that are found by their ids.
-/

namespace EpsilonDB

/-- The configuration shards have keys of their own. -/
def KeysApart (shardKey : CString → CString → CString) : Prop :=
  (systemKeyspaces.map (shardKey systemDb)).Nodup

instance (shardKey : CString → CString → CString) : Decidable (KeysApart shardKey) :=
  inferInstanceAs (Decidable (List.Nodup _))

/-- Every configuration record that has an expiry is past it. -/
def Settled (shardKey : CString → CString → CString) (now : Int)
    (engine : CString → Shard) : Prop :=
  ∀ ks ∈ systemKeyspaces, ∀ id r, (engine (shardKey systemDb ks)).lookup id = some r →
    ∀ t ∈ r.ttl, t < now

theorem KeysApart.ne {shardKey : CString → CString → CString} (h : KeysApart shardKey)
    {ks ks' : CString} (hks : ks ∈ systemKeyspaces) (hks' : ks' ∈ systemKeyspaces)
    (hne : ks ≠ ks') : shardKey systemDb ks ≠ shardKey systemDb ks' := fun heq =>
  hne (List.inj_on_of_nodup_map h hks hks' heq)

variable {D : Type} [Doubles D] {codec : Codec D} {shardKey : CString → CString → CString}
variable {now later : Int} {engine : CString → Shard} {ks ks' id id' : CString} {obj : Json D}

/-! ## Reading -/

/-- A record is read from its row. -/
theorem fetch_eq : fetch (localBackend codec shardKey now) engine ks id =
    ((engine (shardKey systemDb ks)).lookup id).bind fun r =>
      if r.live now then r.document codec.parse else none := by
  show (edbShardGetTs codec.parse now (engine (shardKey systemDb ks)) id).map Prod.fst = _
  unfold edbShardGetTs
  cases (engine (shardKey systemDb ks)).lookup id with
  | none => rfl
  | some r =>
    show (if r.live now then (r.document codec.parse).map fun v => (v, r.timestamp.getD 0)
      else none).map Prod.fst = if r.live now then r.document codec.parse else none
    split
    · rw [Option.map_map]
      exact Option.map_id'
    · rfl

/-- **The list of a keyspace** has what is found by id. -/
theorem mem_all {doc : Json D} :
    doc ∈ (localBackend codec shardKey now).all engine systemDb ks ↔
      ∃ id, fetch (localBackend codec shardKey now) engine ks id = some doc := by
  show doc ∈ (edbShardAllTs codec.parse now none (engine (shardKey systemDb ks))).map
    (fun e => e.2.2) ↔ _
  have hget : ∀ id, fetch (localBackend codec shardKey now) engine ks id =
      (edbShardGetTs codec.parse now (engine (shardKey systemDb ks)) id).map Prod.fst :=
    fun _ => rfl
  have hfilter : ∀ id, (collectValues codec.parse now none
      (engine (shardKey systemDb ks))).filter (fun e => decide (e.1 = id)) = _ :=
    fun id => filter_collectValues now none _ id
  simp only [hget, List.mem_map, edbShardAllTs]
  constructor
  · rintro ⟨⟨id, ts, v⟩, hmem, rfl⟩
    refine ⟨id, ?_⟩
    have hid : (id, ts, v) ∈ (collectValues codec.parse now none
        (engine (shardKey systemDb ks))).filter fun e => decide (e.1 = id) :=
      List.mem_filter.mpr ⟨hmem, by simp⟩
    rw [hfilter, List.mem_map] at hid
    obtain ⟨⟨v', ts'⟩, hd, heq⟩ := hid
    cases heq
    rw [Option.mem_toList, Option.filter_eq_some_iff] at hd
    rw [hd.1]
    rfl
  · rintro ⟨id, hid⟩
    obtain ⟨⟨v, ts⟩, hd, rfl⟩ := Option.map_eq_some_iff.mp hid
    refine ⟨(id, ts, v), ?_, rfl⟩
    have hmem : (id, ts, v) ∈ (collectValues codec.parse now none
        (engine (shardKey systemDb ks))).filter fun e => decide (e.1 = id) := by
      rw [hfilter, List.mem_map]
      refine ⟨(v, ts), ?_, rfl⟩
      rw [Option.mem_toList, Option.filter_eq_some_iff]
      exact ⟨hd, rfl⟩
    exact (List.mem_filter.mp hmem).1

/-! ## Time passes -/

theorem Settled.mono (h : Settled shardKey now engine) (hle : now ≤ later) :
    Settled shardKey later engine := fun ks hks id r hr t ht =>
  lt_of_lt_of_le (h ks hks id r hr t ht) hle

/-- A settled row is live when it never expires. -/
theorem live_of_settled {r : Row} (h : ∀ t ∈ r.ttl, t < now) : r.live now = r.ttl.isNone := by
  unfold Row.live
  cases hr : r.ttl with
  | none => rfl
  | some t =>
    have := h t hr
    exact decide_eq_false (by omega)

/-- **What is read does not change with time.** -/
theorem fetch_later (h : Settled shardKey now engine) (hle : now ≤ later)
    (hks : ks ∈ systemKeyspaces) (id : CString) :
    fetch (localBackend codec shardKey later) engine ks id =
      fetch (localBackend codec shardKey now) engine ks id := by
  rw [fetch_eq, fetch_eq]
  cases hr : (engine (shardKey systemDb ks)).lookup id with
  | none => rfl
  | some r =>
    have hlive := live_of_settled (h ks hks id r hr)
    have hlive' := live_of_settled ((h.mono hle) ks hks id r hr)
    show (if r.live later then _ else _) = if r.live now then _ else _
    rw [hlive, hlive']

/-! ## One record changes -/

theorem store_snd : (store (localBackend codec shardKey now) ks id obj engine).2 =
    Function.update engine (shardKey systemDb ks)
      (edbShardPut now (engine (shardKey systemDb ks)) id (codec.print obj) (-1)) :=
  rfl

theorem removeRecord_snd : (removeRecord (localBackend codec shardKey now) ks id engine).2 =
    Function.update engine (shardKey systemDb ks)
      (edbShardDelete now (engine (shardKey systemDb ks)) id) :=
  rfl

theorem lookup_edbShardPut (sh : Shard) (text : CString) :
    (edbShardPut now sh id text (-1)).lookup id' =
      if id' = id then some (putRow text (-1) now []) else sh.lookup id' := by
  show (sh.insert id _).lookup id' = _
  by_cases h : id' = id
  · subst h
    rw [if_pos rfl, AList.lookup_insert]
    rfl
  · rw [if_neg h, AList.lookup_insert_ne h]

theorem fetch_update_of_ne (hapart : KeysApart shardKey) (hks : ks ∈ systemKeyspaces)
    (hks' : ks' ∈ systemKeyspaces) (hne : ks' ≠ ks) (sh : Shard) :
    fetch (localBackend codec shardKey now)
        (Function.update engine (shardKey systemDb ks) sh) ks' =
      fetch (localBackend codec shardKey now) engine ks' := by
  funext id'
  rw [fetch_eq, fetch_eq, Function.update_of_ne (hapart.ne hks' hks hne)]

/-- **A stored record is found.** -/
theorem fetch_store (hobj : codec.Keeps obj) (engine : CString → Shard) (ks id : CString) :
    fetch (localBackend codec shardKey now)
        (store (localBackend codec shardKey now) ks id obj engine).2 ks =
      Function.update (fetch (localBackend codec shardKey now) engine ks) id (some obj) := by
  funext id'
  rw [store_snd, fetch_eq, Function.update_self, lookup_edbShardPut, Function.update_apply]
  by_cases hid : id' = id
  · rw [if_pos hid, if_pos hid]
    show (if codec.print obj = [] then none else codec.parse (codec.print obj)) = some obj
    rw [if_neg hobj.print_ne, hobj.parse_print]
  · rw [if_neg hid, if_neg hid, fetch_eq]

/-- **A removed record is gone.** -/
theorem fetch_removeRecord (engine : CString → Shard) (ks id : CString) :
    fetch (localBackend codec shardKey now)
        (removeRecord (localBackend codec shardKey now) ks id engine).2 ks =
      Function.update (fetch (localBackend codec shardKey now) engine ks) id none := by
  funext id'
  rw [removeRecord_snd, fetch_eq, Function.update_self, lookup_edbShardDelete,
    Function.update_apply]
  by_cases hid : id' = id
  · rw [if_pos hid, if_pos hid]
    cases (engine (shardKey systemDb ks)).lookup id with
    | none => rfl
    | some r =>
      show (if decide (now ≤ now - 5) = true then _ else none) = none
      rw [if_neg (by simp only [decide_eq_true_eq]; omega)]
  · rw [if_neg hid, if_neg hid, fetch_eq]

/-- A shard with one row put or deleted keeps the store settled. -/
theorem Settled.update (h : Settled shardKey now engine) {sh : Shard} (hks : ks ∈ systemKeyspaces)
    (hsh : ∀ id r, sh.lookup id = some r →
      (engine (shardKey systemDb ks)).lookup id = some r ∨ ∀ t ∈ r.ttl, t < now) :
    Settled shardKey now (Function.update engine (shardKey systemDb ks) sh) := by
  intro ks' hks' id r hr
  by_cases hkey : shardKey systemDb ks' = shardKey systemDb ks
  · rw [hkey, Function.update_self] at hr
    rcases hsh id r hr with hold | hnew
    · exact h ks hks id r hold
    · exact hnew
  · rw [Function.update_of_ne hkey] at hr
    exact h ks' hks' id r hr

theorem Settled.store (h : Settled shardKey now engine) (hks : ks ∈ systemKeyspaces)
    (id : CString) (obj : Json D) :
    Settled shardKey now (store (localBackend codec shardKey now) ks id obj engine).2 := by
  rw [store_snd]
  refine h.update hks fun id' r hr => ?_
  rw [lookup_edbShardPut] at hr
  split at hr
  · cases hr
    exact Or.inr nofun
  · exact Or.inl hr

theorem Settled.removeRecord (h : Settled shardKey now engine) (hks : ks ∈ systemKeyspaces)
    (codec : Codec D) (id : CString) :
    Settled shardKey now (removeRecord (localBackend codec shardKey now) ks id engine).2 := by
  rw [removeRecord_snd]
  refine h.update hks fun id' r hr => ?_
  rw [lookup_edbShardDelete] at hr
  split at hr
  · obtain ⟨r', -, rfl⟩ := Option.map_eq_some_iff.mp hr
    refine Or.inr fun t ht => ?_
    obtain rfl : now - 5 = t := Option.some.inj ht
    omega
  · exact Or.inl hr

/-! ## Operations -/

section

variable {S R : List CString} {engine' : CString → Shard}

/-- **Other keyspaces stay what they are.** -/
theorem Touches.fetch_eq (h : Touches (localBackend codec shardKey now) S R engine engine')
    (hapart : KeysApart shardKey) (hS : S ⊆ systemKeyspaces) (hR : R ⊆ systemKeyspaces)
    (hks : ks ∈ systemKeyspaces) (hstored : ks ∉ S) (hremoved : ks ∉ R) :
    fetch (localBackend codec shardKey now) engine' ks =
      fetch (localBackend codec shardKey now) engine ks := by
  induction h with
  | refl => rfl
  | store id obj _ hmem ih =>
    rw [store_snd, fetch_update_of_ne hapart (hS hmem) hks fun heq => hstored (heq ▸ hmem)]
    exact ih
  | remove id _ hmem ih =>
    rw [removeRecord_snd, fetch_update_of_ne hapart (hR hmem) hks fun heq =>
      hremoved (heq ▸ hmem)]
    exact ih

/-- Where nothing is stored, records stay or go. -/
theorem Touches.fetch_or_none
    (h : Touches (localBackend codec shardKey now) S R engine engine')
    (hapart : KeysApart shardKey) (hS : S ⊆ systemKeyspaces) (hR : R ⊆ systemKeyspaces)
    (hks : ks ∈ systemKeyspaces) (hstored : ks ∉ S) (id : CString) :
    fetch (localBackend codec shardKey now) engine' ks id =
        fetch (localBackend codec shardKey now) engine ks id ∨
      fetch (localBackend codec shardKey now) engine' ks id = none := by
  induction h with
  | refl => exact Or.inl rfl
  | store id' obj _ hmem ih =>
    rw [store_snd, fetch_update_of_ne hapart (hS hmem) hks fun heq => hstored (heq ▸ hmem)]
    exact ih
  | remove id' _ hmem ih =>
    next s' keyspace _ =>
    by_cases heq : ks = keyspace
    · subst heq
      rw [fetch_removeRecord, Function.update_apply]
      split
      · exact Or.inr rfl
      · exact ih
    · rw [removeRecord_snd, fetch_update_of_ne hapart (hR hmem) hks heq]
      exact ih

theorem Touches.settled (h : Touches (localBackend codec shardKey now) S R engine engine')
    (hS : S ⊆ systemKeyspaces) (hR : R ⊆ systemKeyspaces) (hs : Settled shardKey now engine) :
    Settled shardKey now engine' := by
  induction h with
  | refl => exact hs
  | store id obj _ hmem ih => exact ih.store (hS hmem) id obj
  | remove id _ hmem ih => exact ih.removeRecord (hR hmem) codec id

end

theorem EntityOp.stored_subset (op : EntityOp) : op.stored ⊆ systemKeyspaces := by
  cases op <;> simp [EntityOp.stored, systemKeyspaces, cfgGroups, cfgUsers, cfgDatabases,
    cfgPartitions, cfgKeyspaces]

theorem EntityOp.removed_subset (op : EntityOp) : op.removed ⊆ systemKeyspaces := by
  cases op <;> simp [EntityOp.removed, systemKeyspaces, cfgGroups, cfgUsers, cfgDatabases,
    cfgPartitions, cfgKeyspaces]

/-- The records of groups, users and partitions that an operation may store. -/
def EntityOp.written {σ : Type} (B : Backend σ D) (s : σ) : EntityOp → List (Json D)
  | .groupCreate name => (groupBit B s name).toList.map (groupRecord name)
  | .userCreate name groups | .userSetGroups name groups => [userUpdateRecord name groups]
  | .userSetPassword name _ salt hash =>
    (edbUserGet B s name).toList.map fun info => passwordRecord name info.groups salt hash
  | .partitionCreate database name createMask updateMask readMask deleteMask
  | .partitionSetMasks database name createMask updateMask readMask deleteMask =>
    [partitionRecord database name createMask updateMask readMask deleteMask]
  | .partitionEnsure database partition _ =>
    [partitionRecord database partition maskAllowAll maskAllowAll maskAllowAll maskAllowAll]
  | .groupDelete _ | .userDelete _ | .databaseCreate _ _ | .databaseDelete _
  | .partitionDelete _ _ => []

section Written

variable {σ : Type} {B : Backend σ D} {s : σ} {name : CString}

theorem EntityOp.mem_written_groupCreate {bit : UInt64} (h : groupBit B s name = some bit) :
    groupRecord name bit ∈ (EntityOp.groupCreate name).written B s := by
  rw [written, h, Option.toList_some, List.map_singleton]
  exact List.mem_singleton_self _

theorem EntityOp.mem_written_userSetPassword {info : UserInfo}
    (h : edbUserGet B s name = some info) (password salt hash : CString) :
    passwordRecord name info.groups salt hash ∈
      (EntityOp.userSetPassword name password salt hash).written B s := by
  rw [written, h, Option.toList_some, List.map_singleton]
  exact List.mem_singleton_self _

end Written

/-- An operation leaves the other keyspaces alone. -/
theorem fetch_run_eq (hapart : KeysApart shardKey) (op : EntityOp)
    (hks : ks ∈ systemKeyspaces) (hstored : ks ∉ op.stored) (hremoved : ks ∉ op.removed) :
    fetch (localBackend codec shardKey now)
        (op.run (localBackend codec shardKey now) engine).2 ks =
      fetch (localBackend codec shardKey now) engine ks :=
  (touches_run _ op engine).fetch_eq hapart op.stored_subset op.removed_subset hks hstored
    hremoved

/-- Where it only removes, records stay or go. -/
theorem fetch_run_or_none (hapart : KeysApart shardKey) (op : EntityOp)
    (hks : ks ∈ systemKeyspaces) (hstored : ks ∉ op.stored) (id : CString) :
    fetch (localBackend codec shardKey now)
        (op.run (localBackend codec shardKey now) engine).2 ks id =
        fetch (localBackend codec shardKey now) engine ks id ∨
      fetch (localBackend codec shardKey now)
        (op.run (localBackend codec shardKey now) engine).2 ks id = none :=
  (touches_run _ op engine).fetch_or_none hapart op.stored_subset op.removed_subset hks hstored
    id

theorem settled_run (op : EntityOp) (h : Settled shardKey now engine) (codec : Codec D) :
    Settled shardKey now (op.run (localBackend codec shardKey now) engine).2 :=
  (touches_run _ op engine).settled op.stored_subset op.removed_subset h

end EpsilonDB
