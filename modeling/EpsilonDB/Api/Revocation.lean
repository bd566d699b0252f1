import EpsilonDB.Api.LocalConfig
import EpsilonDB.Lib.Runs

/-!
# Bits after the end of their groups (`edb_group_delete`, `authorize_partition`)

A deleted group takes its record with it and nothing else: the sets of the users and the
masks of the partitions keep its bit, and the next group may get it.

- `SecurityGroup`: a group is the name it was created under and the number of that creation.
- `Put`: a number that was put in a user's record or a partition's masks, with the groups
  there were at that moment.
- `History`, `Access`: a node and what happened to it; `Access.step`.
- `RevokedForGood`: whoever is allowed through a bit is allowed by one group, which exists.
- `RevokedUnlessReused`: so it is where groups had the bit when it was put in the set and in
  the mask, unless one of them was deleted since. `revokedUnlessReused_run`: this is what runs
  keep.
- `Coherent`: the records against the history, whatever the store is made of.
- `deleted_group_still_allows`: the bit of a deleted group opens a partition, and so does a bit
  that was put in a mask before any group had it.
-/

namespace EpsilonDB

/-- A group: its name, and which creation of that name it is. -/
structure SecurityGroup where
  name : CString
  number : Nat
deriving DecidableEq

/-- A number put in a record, and the groups with their bits at that moment. -/
structure Put (α : Type) where
  value : α
  groups : List (SecurityGroup × UInt64) := []

/-- What happened to the groups, the sets of the users and the masks of the partitions. -/
structure History where
  /-- the number of groups created so far -/
  created : Nat := 0
  /-- which creation the group of a name is -/
  number : CString → Nat := fun _ => 0
  deleted : List SecurityGroup := []
  /-- the last put of a user's set -/
  userPut : CString → Put UInt64 := fun _ => { value := 0 }
  /-- the last put of the masks of a partition, by its record id -/
  maskPut : CString → Put (Permission → UInt64) := fun _ => { value := fun _ => 0 }

/-- A node without replication, its clock and its history. -/
structure Access where
  engine : CString → Shard
  clock : Int
  history : History := {}

/-- An operation, or time. -/
inductive AccessLabel where
  | op (o : EntityOp)
  | tick (seconds : Nat)

variable {D : Type} [Doubles D] (codec : Codec D) (shardKey : CString → CString → CString)

namespace Access

/-- The configuration calls at the clock of the node. -/
def backend (s : Access) : Backend (CString → Shard) D := localBackend codec shardKey s.clock

/-- The groups that exist, with their bits. -/
def existing (s : Access) : List (SecurityGroup × UInt64) :=
  (edbGroupList (s.backend codec shardKey) s.engine).map fun g =>
    (⟨g.name, s.history.number g.name⟩, g.bitPosition)

/-- What a successful operation that ends with `engine` adds to the history. -/
def noted (s : Access) (engine : CString → Shard) : EntityOp → History
  | .groupCreate name =>
    { s.history with
      created := s.history.created + 1
      number := Function.update s.history.number name (s.history.created + 1) }
  | .groupDelete name =>
    { s.history with
      deleted := (((s.existing codec shardKey).map Prod.fst).filter fun g => g.name = name) ++
        s.history.deleted }
  | .userCreate name groups | .userSetGroups name groups =>
    { s.history with
      userPut := Function.update s.history.userPut name ⟨groups, s.existing codec shardKey⟩ }
  | .partitionCreate database name createMask updateMask readMask deleteMask
  | .partitionSetMasks database name createMask updateMask readMask deleteMask =>
    { s.history with
      maskPut := Function.update s.history.maskPut (partitionId database name)
        ⟨maskOf createMask updateMask readMask deleteMask, s.existing codec shardKey⟩ }
  | .partitionEnsure database partition _ =>
    if (edbPartitionGet (s.backend codec shardKey) s.engine database partition).isNone ∧
        (edbPartitionGet (s.backend codec shardKey) engine database partition).isSome then
      { s.history with
        maskPut := Function.update s.history.maskPut (partitionId database partition)
          ⟨maskOf maskAllowAll maskAllowAll maskAllowAll maskAllowAll,
            s.existing codec shardKey⟩ }
    else s.history
  | _ => s.history

/-- What a step makes of the node; none is refused. -/
def step (s : Access) : AccessLabel → Option Access
  | .op o =>
    let (ok, engine) := o.run (s.backend codec shardKey) s.engine
    some { s with engine, history := if ok then s.noted codec shardKey engine o else s.history }
  | .tick seconds => some { s with clock := s.clock + seconds }

/-! ## What a bit stands for -/

/-- A user is allowed by a mask of a partition through a bit. -/
structure AllowedThrough (s : Access) (user database partition : CString) (perm : Permission)
    (b : UInt64) : Prop where
  user : ∃ info ∈ edbUserGet (s.backend codec shardKey) s.engine user, HasBit info.groups b
  mask : ∃ info ∈ edbPartitionGet (s.backend codec shardKey) s.engine database partition,
    HasBit (info.mask perm) b

/-- Through a bit one group allows a user: it had the bit when it was put in the user's set
and when it was put in the mask, and it exists. -/
def RevokedForGood (s : Access) : Prop :=
  ∀ user database partition perm b,
    s.AllowedThrough codec shardKey user database partition perm b →
      ∃ g, (g, b) ∈ (s.history.userPut user).groups ∧
        (g, b) ∈ (s.history.maskPut (partitionId database partition)).groups ∧
        (g, b) ∈ s.existing codec shardKey

/-- Through a bit a user is allowed that is in the number last put in the set and in the
number last put in the mask. A group that had it at one of these moments, if any had, has it
still unless it was deleted since, and so the groups of both moments are one. -/
structure Revoked (s : Access) (user database partition : CString) (perm : Permission)
    (b : UInt64) : Prop where
  inSet : HasBit (s.history.userPut user).value b
  inMask : HasBit ((s.history.maskPut (partitionId database partition)).value perm) b
  setGroup : ∀ g, (g, b) ∈ (s.history.userPut user).groups → g ∉ s.history.deleted →
    (g, b) ∈ s.existing codec shardKey
  maskGroup : ∀ g, (g, b) ∈ (s.history.maskPut (partitionId database partition)).groups →
    g ∉ s.history.deleted → (g, b) ∈ s.existing codec shardKey
  same : ∀ g g', (g, b) ∈ (s.history.userPut user).groups →
    (g', b) ∈ (s.history.maskPut (partitionId database partition)).groups →
      g ∉ s.history.deleted → g' ∉ s.history.deleted → g = g'

/-- Whoever is allowed through a bit is so by groups that have not been deleted, where groups
had the bit when it was put in the set and in the mask. -/
def RevokedUnlessReused (s : Access) : Prop :=
  ∀ user database partition perm b,
    s.AllowedThrough codec shardKey user database partition perm b →
      s.Revoked codec shardKey user database partition perm b

end Access

/-! ## Records and history -/

/-- A group has a bit, as the records and the numbers of the groups say. -/
def Owns (gs : CString → Option (Json D)) (h : History) (g : SecurityGroup) (b : UInt64) : Prop :=
  gs g.name = some (groupRecord g.name b) ∧ h.number g.name = g.number

/-- The groups of a put have their bits still, or have been deleted. -/
def Standing (gs : CString → Option (Json D)) (h : History)
    (groups : List (SecurityGroup × UInt64)) : Prop :=
  ∀ g b, (g, b) ∈ groups → g ∈ h.deleted ∨ Owns gs h g b

/-- The records of the groups, the users and the partitions agree with the history. -/
structure Coherent (gs us ps : CString → Option (Json D)) (h : History) : Prop where
  group : ∀ id doc, gs id = some doc →
    ∃ bit, doc = groupRecord id bit ∧ (id ≠ [] ∧ id.length < 128) ∧ ValidBit bit
  distinct : ∀ id id' bit, gs id = some (groupRecord id bit) →
    gs id' = some (groupRecord id' bit) → id = id'
  user : ∀ id doc, us id = some doc → (userInfo doc).groups = (h.userPut id).value
  mask : ∀ id doc, ps id = some doc → (partitionInfo doc).mask = (h.maskPut id).value
  userPut : ∀ id, Standing gs h (h.userPut id).groups
  maskPut : ∀ id, Standing gs h (h.maskPut id).groups

variable {gs us ps : CString → Option (Json D)} {h : History} {name : CString} {bit : UInt64}

theorem groupRecord_inj {bit' : UInt64} (hname : name.length < 128)
    (heq : (groupRecord name bit : Json D) = groupRecord name bit') : bit = bit' := by
  have hinfo := congrArg groupInfo heq
  rw [groupInfo_groupRecord hname, groupInfo_groupRecord hname] at hinfo
  exact congrArg GroupInfo.bitPosition hinfo

/-- Two groups with one bit are one. -/
theorem Coherent.owns_unique (hc : Coherent gs us ps h) {g g' : SecurityGroup} {b : UInt64}
    (hg : Owns gs h g b) (hg' : Owns gs h g' b) : g = g' := by
  have hname : g.name = g'.name := hc.distinct g.name g'.name b hg.1 hg'.1
  have hnumber : g.number = g'.number := by rw [← hg.2, ← hg'.2, hname]
  cases g
  cases g'
  exact congrArg₂ SecurityGroup.mk hname hnumber

/-- A group that did not exist is created with a bit that no group has. -/
theorem Coherent.groupCreated (hc : Coherent gs us ps h)
    (hname : name ≠ [] ∧ name.length < 128) (hbit : ValidBit bit) (hnone : gs name = none)
    (hfree : ∀ id doc, gs id = some doc → (groupInfo doc).bitPosition ≠ bit)
    (n : Nat) :
    Coherent (Function.update gs name (some (groupRecord name bit))) us ps
      { h with created := n, number := Function.update h.number name n } := by
  -- the groups that are there have other names, and their numbers stay
  have hother : ∀ {id doc}, gs id = some doc → id ≠ name := by
    rintro id doc hid rfl
    rw [hnone] at hid
    cases hid
  have hstanding : ∀ {groups}, Standing gs h groups →
      Standing (Function.update gs name (some (groupRecord name bit)))
        { h with created := n, number := Function.update h.number name n } groups := by
    intro groups hs g b hg
    refine (hs g b hg).imp_right fun ⟨hrec, hnumber⟩ => ?_
    have hne := hother hrec
    refine ⟨?_, ?_⟩
    · rw [Function.update_of_ne hne, hrec]
    · show Function.update h.number name n g.name = g.number
      rw [Function.update_of_ne hne, hnumber]
  -- and other bits, as the new bit was free
  have hfresh : ∀ {id b}, gs id = some (groupRecord id b) → b ≠ bit := by
    intro id b hid
    obtain ⟨b', heq, hlen, -⟩ := hc.group id _ hid
    have := hfree id _ hid
    rwa [groupInfo_groupRecord hlen.2] at this
  refine ⟨?_, ?_, hc.user, hc.mask, fun id => hstanding (hc.userPut id),
    fun id => hstanding (hc.maskPut id)⟩
  · intro id doc hid
    by_cases hid_eq : id = name
    · subst hid_eq
      rw [Function.update_self] at hid
      cases hid
      exact ⟨bit, rfl, hname, hbit⟩
    · rw [Function.update_of_ne hid_eq] at hid
      exact hc.group id doc hid
  · intro id id' b hid hid'
    by_cases hid_eq : id = name
    · by_cases hid_eq' : id' = name
      · rw [hid_eq, hid_eq']
      · subst hid_eq
        rw [Function.update_self] at hid
        rw [Function.update_of_ne hid_eq'] at hid'
        exact absurd (groupRecord_inj hname.2 (Option.some.inj hid)).symm (hfresh hid')
    · rw [Function.update_of_ne hid_eq] at hid
      by_cases hid_eq' : id' = name
      · subst hid_eq'
        rw [Function.update_self] at hid'
        exact absurd (groupRecord_inj hname.2 (Option.some.inj hid')).symm (hfresh hid)
      · rw [Function.update_of_ne hid_eq'] at hid'
        exact hc.distinct id id' b hid hid'

/-- A group goes, and counts as deleted. -/
theorem Coherent.groupDeleted (hc : Coherent gs us ps h) {gone : List SecurityGroup}
    (hgone : ∀ g b, Owns gs h g b → g.name = name → g ∈ gone) :
    Coherent (Function.update gs name none) us ps
      { h with deleted := gone ++ h.deleted } := by
  have hkept : ∀ {id doc}, Function.update gs name none id = some doc → gs id = some doc := by
    intro id doc hid
    by_cases hid_eq : id = name
    · subst hid_eq
      rw [Function.update_self] at hid
      cases hid
    · rwa [Function.update_of_ne hid_eq] at hid
  have hstanding : ∀ {groups}, Standing gs h groups →
      Standing (Function.update gs name none) { h with deleted := gone ++ h.deleted } groups := by
    intro groups hs g b hg
    rcases hs g b hg with hdel | howns
    · exact Or.inl (List.mem_append_right gone hdel)
    · by_cases hname : g.name = name
      · exact Or.inl (List.mem_append_left _ (hgone g b howns hname))
      · refine Or.inr ⟨?_, howns.2⟩
        rw [Function.update_of_ne hname]
        exact howns.1
  exact ⟨fun id doc hid => hc.group id doc (hkept hid),
    fun id id' b hid hid' => hc.distinct id id' b (hkept hid) (hkept hid'), hc.user, hc.mask,
    fun id => hstanding (hc.userPut id), fun id => hstanding (hc.maskPut id)⟩

/-- A user's record is replaced, with the set that was last put. -/
theorem Coherent.userStored (hc : Coherent gs us ps h) {doc : Json D} {put : Put UInt64}
    (hvalue : (userInfo doc).groups = put.value) (hput : Standing gs h put.groups) :
    Coherent gs (Function.update us name (some doc)) ps
      { h with userPut := Function.update h.userPut name put } := by
  refine ⟨hc.group, hc.distinct, fun id d hid => ?_, hc.mask, fun id => ?_, hc.maskPut⟩
  · show _ = (Function.update h.userPut name put id).value
    by_cases hid_eq : id = name
    · subst hid_eq
      rw [Function.update_self] at hid ⊢
      cases hid
      exact hvalue
    · rw [Function.update_of_ne hid_eq] at hid ⊢
      exact hc.user id d hid
  · show Standing gs h (Function.update h.userPut name put id).groups
    by_cases hid_eq : id = name
    · subst hid_eq
      rw [Function.update_self]
      exact hput
    · rw [Function.update_of_ne hid_eq]
      exact hc.userPut id

/-- Records of partitions stay, go, or are replaced by the masks that were last put. -/
theorem Coherent.maskStored (hc : Coherent gs us ps h) {doc : Json D}
    {put : Put (Permission → UInt64)} (hvalue : (partitionInfo doc).mask = put.value)
    (hput : Standing gs h put.groups) :
    Coherent gs us (Function.update ps name (some doc))
      { h with maskPut := Function.update h.maskPut name put } := by
  refine ⟨hc.group, hc.distinct, hc.user, fun id d hid => ?_, hc.userPut, fun id => ?_⟩
  · show _ = (Function.update h.maskPut name put id).value
    by_cases hid_eq : id = name
    · subst hid_eq
      rw [Function.update_self] at hid ⊢
      cases hid
      exact hvalue
    · rw [Function.update_of_ne hid_eq] at hid ⊢
      exact hc.mask id d hid
  · show Standing gs h (Function.update h.maskPut name put id).groups
    by_cases hid_eq : id = name
    · subst hid_eq
      rw [Function.update_self]
      exact hput
    · rw [Function.update_of_ne hid_eq]
      exact hc.maskPut id

/-- Users and partitions may lose their records. -/
theorem Coherent.dropped (hc : Coherent gs us ps h) {us' ps' : CString → Option (Json D)}
    (hus : ∀ id, us' id = us id ∨ us' id = none) (hps : ∀ id, ps' id = ps id ∨ ps' id = none) :
    Coherent gs us' ps' h := by
  refine ⟨hc.group, hc.distinct, fun id doc hid => ?_, fun id doc hid => ?_, hc.userPut,
    hc.maskPut⟩
  · rcases hus id with heq | heq
    · exact hc.user id doc (heq ▸ hid)
    · rw [heq] at hid
      cases hid
  · rcases hps id with heq | heq
    · exact hc.mask id doc (heq ▸ hid)
    · rw [heq] at hid
      cases hid

/-! ## One step -/

namespace Access

variable {codec shardKey} {s : Access}

/-- The records of a keyspace. -/
def records (codec : Codec D) (shardKey : CString → CString → CString) (s : Access)
    (keyspace : CString) : CString → Option (Json D) :=
  fetch (s.backend codec shardKey) s.engine keyspace

/-- What all steps keep. -/
structure Sound (codec : Codec D) (shardKey : CString → CString → CString) (s : Access) :
    Prop where
  settled : Settled shardKey s.clock s.engine
  coherent : Coherent (s.records codec shardKey cfgGroups) (s.records codec shardKey cfgUsers)
    (s.records codec shardKey cfgPartitions) s.history

/-- The records that a step stores are read back. -/
def ReadsBack (codec : Codec D) (shardKey : CString → CString → CString) (s : Access) :
    AccessLabel → Prop
  | .op o => ∀ v ∈ o.written (s.backend codec shardKey) s.engine, codec.Keeps v
  | .tick _ => True

instance (s : Access) (l : AccessLabel) : Decidable (s.ReadsBack codec shardKey l) :=
  match l with
  | .op o => inferInstanceAs (Decidable (∀ v ∈ o.written _ s.engine, codec.Keeps v))
  | .tick _ => isTrue trivial

/-- The listed groups are those that have records. -/
theorem Sound.mem_existing (h : s.Sound codec shardKey) {g : SecurityGroup} {b : UInt64} :
    (g, b) ∈ s.existing codec shardKey ↔
      Owns (s.records codec shardKey cfgGroups) s.history g b := by
  simp only [existing, edbGroupList, List.map_map, List.mem_map, backend, mem_all]
  constructor
  · rintro ⟨doc, ⟨id, hid⟩, heq⟩
    obtain ⟨bit, rfl, hlen, -⟩ := h.coherent.group id doc hid
    simp only [Function.comp_apply, groupInfo_groupRecord hlen.2, Prod.mk.injEq] at heq
    obtain ⟨rfl, rfl⟩ := heq
    exact ⟨hid, rfl⟩
  · rintro ⟨hrec, hnumber⟩
    obtain ⟨bit, -, hlen, -⟩ := h.coherent.group g.name _ hrec
    refine ⟨_, ⟨g.name, hrec⟩, ?_⟩
    simp only [Function.comp_apply, groupInfo_groupRecord hlen.2, hnumber]

/-- The groups there are stand. -/
theorem Sound.standing_existing (h : s.Sound codec shardKey) :
    Standing (s.records codec shardKey cfgGroups) s.history (s.existing codec shardKey) :=
  fun _ _ hg => Or.inr (h.mem_existing.mp hg)

/-- A group is created. -/
theorem Sound.groupCreate (h : s.Sound codec shardKey) {name : CString} {bit : UInt64}
    (hbit : groupBit (s.backend codec shardKey) s.engine name = some bit)
    (hkeeps : codec.Keeps (groupRecord name bit)) :
    Coherent (fetch (s.backend codec shardKey)
        (store (s.backend codec shardKey) cfgGroups name (groupRecord name bit) s.engine).2
        cfgGroups)
      (s.records codec shardKey cfgUsers) (s.records codec shardKey cfgPartitions)
      (s.noted codec shardKey
        (store (s.backend codec shardKey) cfgGroups name (groupRecord name bit) s.engine).2
        (.groupCreate name)) := by
  obtain ⟨hname, hget, hvalid, hfree⟩ := groupBit_spec hbit
  have hnone : s.records codec shardKey cfgGroups name = none := by
    cases hrec : s.records codec shardKey cfgGroups name with
    | none => rfl
    | some doc =>
      obtain ⟨bit', rfl, -, hvalid'⟩ := h.coherent.group name doc hrec
      unfold edbGroupGet at hget
      rw [show fetch _ _ _ _ = _ from hrec] at hget
      dsimp only at hget
      rw [groupInfo_groupRecord hname.2, if_pos ⟨hname.1, hvalid'⟩] at hget
      cases hget
  rw [backend, fetch_store hkeeps]
  refine h.coherent.groupCreated hname hvalid hnone (fun id doc hid => ?_) _
  exact hfree _ (List.mem_map_of_mem (mem_all.mpr ⟨id, hid⟩))

/-- The record of a user is replaced. -/
theorem Sound.userStored (h : s.Sound codec shardKey) (name : CString) {doc : Json D}
    (hkeeps : codec.Keeps doc) {put : Put UInt64} (hvalue : (userInfo doc).groups = put.value)
    (hput : Standing (s.records codec shardKey cfgGroups) s.history put.groups) :
    Coherent (s.records codec shardKey cfgGroups)
      (fetch (s.backend codec shardKey)
        (store (s.backend codec shardKey) cfgUsers name doc s.engine).2 cfgUsers)
      (s.records codec shardKey cfgPartitions)
      { s.history with userPut := Function.update s.history.userPut name put } := by
  rw [backend, fetch_store hkeeps]
  exact h.coherent.userStored hvalue hput

/-- The masks of a partition are replaced. -/
theorem Sound.maskStored (h : s.Sound codec shardKey) {id : CString} {doc : Json D}
    (hkeeps : codec.Keeps doc) {put : Put (Permission → UInt64)}
    (hvalue : (partitionInfo doc).mask = put.value)
    (hput : Standing (s.records codec shardKey cfgGroups) s.history put.groups) :
    Coherent (s.records codec shardKey cfgGroups) (s.records codec shardKey cfgUsers)
      (fetch (s.backend codec shardKey)
        (store (s.backend codec shardKey) cfgPartitions id doc s.engine).2 cfgPartitions)
      { s.history with maskPut := Function.update s.history.maskPut id put } := by
  rw [backend, fetch_store hkeeps]
  exact h.coherent.maskStored hvalue hput

/-- A partition with a record that names it is known. -/
theorem edbPartitionGet_isSome {database name : CString} {doc : Json D}
    {engine : CString → Shard}
    (h : fetch (s.backend codec shardKey) engine cfgPartitions (partitionId database name) =
      some doc) (hname : (partitionInfo doc).name ≠ []) :
    (edbPartitionGet (s.backend codec shardKey) engine database name).isSome := by
  unfold edbPartitionGet
  rw [h]
  show (if (partitionInfo doc).name = [] then none else some (partitionInfo doc)).isSome = true
  rw [if_neg hname]
  rfl

/-- The registry of keyspaces is apart from the partitions. -/
theorem fetch_ensureKeyspace (hapart : KeysApart shardKey)
    (database partition keyspace : CString) (engine : CString → Shard) :
    fetch (s.backend codec shardKey)
      (ensureKeyspace (s.backend codec shardKey) database partition keyspace engine)
      cfgPartitions = fetch (s.backend codec shardKey) engine cfgPartitions := by
  have htouches := touches_ensureKeyspace (B := s.backend codec shardKey) (S := [cfgKeyspaces])
    (R := []) List.mem_cons_self database partition keyspace engine
  exact htouches.fetch_eq hapart (by simp [cfgKeyspaces_mem]) (List.nil_subset _)
    cfgPartitions_mem (by simp [cfgPartitions, cfgKeyspaces, cstr]) List.not_mem_nil

/-- A write to a partition that is registered, or cannot be, needs no note. -/
theorem Sound.partitionKept (h : s.Sound codec shardKey) {engine : CString → Shard}
    (heq : fetch (s.backend codec shardKey) engine cfgPartitions =
      s.records codec shardKey cfgPartitions) (database partition keyspace : CString) :
    Coherent (s.records codec shardKey cfgGroups) (s.records codec shardKey cfgUsers)
      (fetch (s.backend codec shardKey) engine cfgPartitions)
      (s.noted codec shardKey engine (.partitionEnsure database partition keyspace)) := by
  have hget : edbPartitionGet (s.backend codec shardKey) engine database partition =
      edbPartitionGet (s.backend codec shardKey) s.engine database partition := by
    unfold edbPartitionGet
    rw [heq]
    rfl
  rw [noted, hget, if_neg (by simp), heq]
  exact h.coherent

/-- What registers a new partition stores its record. -/
theorem edbPartitionCreate_eq {database partition : CString} (hdatabase : database ≠ [])
    (hpartition : partition ≠ []) (hdatabase' : database.length < 256)
    (hpartition' : partition.length < 256)
    (hget : ¬ (edbPartitionGet (s.backend codec shardKey) s.engine database partition).isSome) :
    edbPartitionCreate (s.backend codec shardKey) database partition maskAllowAll
        maskAllowAll maskAllowAll maskAllowAll s.engine =
      store (s.backend codec shardKey) cfgPartitions (partitionId database partition)
        (partitionRecord database partition maskAllowAll maskAllowAll maskAllowAll
          maskAllowAll) s.engine := by
  rw [edbPartitionCreate, if_neg, if_neg hget]
  simp only [not_or, not_le]
  exact ⟨hdatabase, hpartition, hdatabase', hpartition'⟩

/-- A write registers its partition, with open masks when it is new. -/
theorem Sound.partitionEnsure (h : s.Sound codec shardKey) (hapart : KeysApart shardKey)
    {database partition keyspace : CString}
    (hkeeps : codec.Keeps (partitionRecord database partition maskAllowAll maskAllowAll
      maskAllowAll maskAllowAll)) :
    Coherent (s.records codec shardKey cfgGroups) (s.records codec shardKey cfgUsers)
      (fetch (s.backend codec shardKey)
        (edbPartitionEnsure (s.backend codec shardKey) database partition keyspace s.engine)
        cfgPartitions)
      (s.noted codec shardKey
        (edbPartitionEnsure (s.backend codec shardKey) database partition keyspace s.engine)
        (.partitionEnsure database partition keyspace)) := by
  have hkeyspace : ∀ engine, fetch (s.backend codec shardKey)
      (ensureKeyspace (s.backend codec shardKey) database partition keyspace engine)
      cfgPartitions = fetch (s.backend codec shardKey) engine cfgPartitions :=
    fetch_ensureKeyspace hapart database partition keyspace
  unfold edbPartitionEnsure
  split
  · exact h.partitionKept rfl ..
  · next hargs =>
    split
    · exact h.partitionKept (hkeyspace _) ..
    · next hget =>
      simp only [not_or, not_le] at hargs
      obtain ⟨hdatabase, hpartition, -, hdatabase', hpartition'⟩ := hargs
      rw [edbPartitionCreate_eq hdatabase hpartition hdatabase' (by omega) hget]
      set engine := (store (s.backend codec shardKey) cfgPartitions
        (partitionId database partition) (partitionRecord database partition maskAllowAll
          maskAllowAll maskAllowAll maskAllowAll) s.engine).2 with hengine
      show Coherent _ _ (fetch _ (ensureKeyspace _ database partition keyspace engine) _)
        (s.noted _ _ (ensureKeyspace _ database partition keyspace engine) _)
      have hfetch : fetch (s.backend codec shardKey) engine cfgPartitions =
          Function.update (s.records codec shardKey cfgPartitions) (partitionId database partition)
            (some (partitionRecord database partition maskAllowAll maskAllowAll maskAllowAll
              maskAllowAll)) := by
        rw [hengine, backend, fetch_store hkeeps]
        rfl
      -- the record that was stored names the partition, so it is found from now on
      have hafter : (edbPartitionGet (s.backend codec shardKey)
          (ensureKeyspace (s.backend codec shardKey) database partition keyspace engine)
          database partition).isSome := by
        refine edbPartitionGet_isSome ((congrFun ((hkeyspace engine).trans hfetch) _).trans
          (Function.update_self ..)) ?_
        rw [name_partitionRecord (by omega)]
        exact hpartition
      rw [noted, if_pos ⟨by simpa using hget, hafter⟩, hkeyspace]
      exact h.maskStored hkeeps (mask_partitionRecord ..) h.standing_existing

/-- An operation leaves the other keyspaces alone. -/
theorem records_run_eq (hapart : KeysApart shardKey) (o : EntityOp) {keyspace : CString}
    (hks : keyspace ∈ systemKeyspaces) (hstored : keyspace ∉ o.stored)
    (hremoved : keyspace ∉ o.removed) :
    fetch (s.backend codec shardKey) (o.run (s.backend codec shardKey) s.engine).2 keyspace =
      s.records codec shardKey keyspace :=
  fetch_run_eq hapart o hks hstored hremoved

/-- The bits of a user are those of the last set that was stored. -/
theorem Sound.groups_of_edbUserGet (h : s.Sound codec shardKey) {name : CString} {info : UserInfo}
    (hget : edbUserGet (s.backend codec shardKey) s.engine name = some info) :
    info.groups = (s.history.userPut name).value := by
  unfold edbUserGet at hget
  split at hget
  · cases hget
  · next doc hdoc =>
    split at hget
    · cases hget
    · cases hget
      exact h.coherent.user name doc hdoc

/-- A new password leaves the set of the user as it is. -/
theorem Sound.passwordStored (h : s.Sound codec shardKey) {name salt hash : CString}
    {info : UserInfo} (hget : edbUserGet (s.backend codec shardKey) s.engine name = some info)
    (hkeeps : codec.Keeps (passwordRecord name info.groups salt hash)) :
    Coherent (s.records codec shardKey cfgGroups)
      (fetch (s.backend codec shardKey)
        (store (s.backend codec shardKey) cfgUsers name
          (passwordRecord name info.groups salt hash) s.engine).2 cfgUsers)
      (s.records codec shardKey cfgPartitions) s.history := by
  have hvalue : (userInfo (passwordRecord (D := D) name info.groups salt hash)).groups =
      (s.history.userPut name).value :=
    (groups_passwordRecord name info.groups salt hash).trans (h.groups_of_edbUserGet hget)
  have hstored := h.userStored name hkeeps hvalue (h.coherent.userPut name)
  rwa [Function.update_eq_self] at hstored

/-- A group is deleted. -/
theorem Sound.groupDelete (h : s.Sound codec shardKey) (name : CString) :
    Coherent (fetch (s.backend codec shardKey)
        (removeRecord (s.backend codec shardKey) cfgGroups name s.engine).2 cfgGroups)
      (s.records codec shardKey cfgUsers) (s.records codec shardKey cfgPartitions)
      (s.noted codec shardKey s.engine (.groupDelete name)) := by
  rw [backend, fetch_removeRecord]
  refine h.coherent.groupDeleted fun g b hg hname => ?_
  rw [List.mem_filter, List.mem_map]
  exact ⟨⟨(g, b), h.mem_existing.mpr hg, rfl⟩, decide_eq_true hname⟩

/-- An operation that at most removes users and partitions needs no note. -/
theorem Sound.run_unnoted (h : s.Sound codec shardKey) (hapart : KeysApart shardKey) (o : EntityOp)
    (hnoted : ∀ e, s.noted codec shardKey e o = s.history)
    (hstored : cfgGroups ∉ o.stored) (hremoved : cfgGroups ∉ o.removed)
    (husers : cfgUsers ∉ o.stored) (hparts : cfgPartitions ∉ o.stored) :
    Coherent
      (fetch (s.backend codec shardKey) (o.run (s.backend codec shardKey) s.engine).2 cfgGroups)
      (fetch (s.backend codec shardKey) (o.run (s.backend codec shardKey) s.engine).2 cfgUsers)
      (fetch (s.backend codec shardKey) (o.run (s.backend codec shardKey) s.engine).2
        cfgPartitions)
      (if (o.run (s.backend codec shardKey) s.engine).1 then
        s.noted codec shardKey (o.run (s.backend codec shardKey) s.engine).2 o
      else s.history) := by
  rw [hnoted, ite_self, records_run_eq hapart o cfgGroups_mem hstored hremoved]
  exact h.coherent.dropped (fetch_run_or_none hapart o cfgUsers_mem husers)
    (fetch_run_or_none hapart o cfgPartitions_mem hparts)

/-- **One operation** keeps the records and the history together. -/
theorem Sound.run (h : s.Sound codec shardKey) (hapart : KeysApart shardKey) (o : EntityOp)
    (hreads : ∀ v ∈ o.written (s.backend codec shardKey) s.engine, codec.Keeps v) :
    Coherent
      (fetch (s.backend codec shardKey) (o.run (s.backend codec shardKey) s.engine).2 cfgGroups)
      (fetch (s.backend codec shardKey) (o.run (s.backend codec shardKey) s.engine).2 cfgUsers)
      (fetch (s.backend codec shardKey) (o.run (s.backend codec shardKey) s.engine).2
        cfgPartitions)
      (if (o.run (s.backend codec shardKey) s.engine).1 then
        s.noted codec shardKey (o.run (s.backend codec shardKey) s.engine).2 o
      else s.history) := by
  -- each operation touches one of the three keyspaces, and the other two are read as before
  have hnot : cfgUsers ∉ [cfgGroups] ∧ cfgPartitions ∉ [cfgGroups] ∧ cfgGroups ∉ [cfgUsers] ∧
      cfgPartitions ∉ [cfgUsers] ∧ cfgGroups ∉ [cfgPartitions, cfgKeyspaces] ∧
      cfgUsers ∉ [cfgPartitions, cfgKeyspaces] := by
    decide
  obtain ⟨hug, hpg, hgu, hpu, hgp, hup⟩ := hnot
  have hgp' : cfgGroups ∉ [cfgPartitions] := by decide
  have hup' : cfgUsers ∉ [cfgPartitions] := by decide
  cases o with
  | groupCreate name =>
    -- a new group takes a bit that no group of the history owns now
    rw [records_run_eq hapart (.groupCreate ..) cfgUsers_mem hug List.not_mem_nil,
      records_run_eq hapart (.groupCreate ..) cfgPartitions_mem hpg List.not_mem_nil]
    cases hbit : groupBit (s.backend codec shardKey) s.engine name with
    | none =>
      have hrun : (EntityOp.groupCreate name).run (s.backend codec shardKey) s.engine =
          (false, s.engine) := by
        simp only [EntityOp.run, edbGroupCreate, hbit]
      rw [hrun]
      exact h.coherent
    | some bit =>
      have hrun : (EntityOp.groupCreate name).run (s.backend codec shardKey) s.engine =
          store (s.backend codec shardKey) cfgGroups name (groupRecord name bit) s.engine := by
        simp only [EntityOp.run, edbGroupCreate, hbit]
      rw [hrun]
      exact h.groupCreate hbit (hreads _ (EntityOp.mem_written_groupCreate hbit))
  | groupDelete name =>
    -- the masks stay as they are, and the history forgets the owner of the bit
    rw [records_run_eq hapart (.groupDelete ..) cfgUsers_mem List.not_mem_nil hug,
      records_run_eq hapart (.groupDelete ..) cfgPartitions_mem List.not_mem_nil hpg]
    show Coherent (fetch _ (removeRecord (s.backend codec shardKey) cfgGroups name s.engine).2 _)
      _ _ (s.noted codec shardKey s.engine (.groupDelete name))
    exact h.groupDelete name
  | userCreate name groups =>
    -- the bits of the new record are explained by the groups that own them at this moment
    rw [records_run_eq hapart (.userCreate ..) cfgGroups_mem hgu List.not_mem_nil,
      records_run_eq hapart (.userCreate ..) cfgPartitions_mem hpu List.not_mem_nil]
    simp only [EntityOp.run, edbUserCreate]
    split
    · exact h.coherent
    · split
      · exact h.coherent
      · exact h.userStored name (hreads _ List.mem_cons_self) (groups_userUpdateRecord ..)
          h.standing_existing
  | userSetGroups name groups =>
    rw [records_run_eq hapart (.userSetGroups ..) cfgGroups_mem hgu List.not_mem_nil,
      records_run_eq hapart (.userSetGroups ..) cfgPartitions_mem hpu List.not_mem_nil]
    simp only [EntityOp.run, edbUserSetGroups]
    split
    · exact h.userStored name (hreads _ List.mem_cons_self) (groups_userUpdateRecord ..)
        h.standing_existing
    · exact h.coherent
  | userSetPassword name password salt hash =>
    -- the record keeps the bits it had, and with them what explains them
    rw [records_run_eq hapart (.userSetPassword ..) cfgGroups_mem hgu List.not_mem_nil,
      records_run_eq hapart (.userSetPassword ..) cfgPartitions_mem hpu List.not_mem_nil]
    simp only [EntityOp.run, edbUserSetPassword]
    split
    · exact h.coherent
    · cases hget : edbUserGet (s.backend codec shardKey) s.engine name with
      | none => exact h.coherent
      | some info =>
        exact h.passwordStored hget
          (hreads _ (EntityOp.mem_written_userSetPassword hget password salt hash))
  | partitionCreate database name createMask updateMask readMask deleteMask =>
    -- as for users: a mask is explained by the groups that own its bits at this moment
    rw [records_run_eq hapart (.partitionCreate ..) cfgGroups_mem hgp' List.not_mem_nil,
      records_run_eq hapart (.partitionCreate ..) cfgUsers_mem hup' List.not_mem_nil]
    simp only [EntityOp.run, edbPartitionCreate]
    split
    · exact h.coherent
    · split
      · exact h.coherent
      · exact h.maskStored (hreads _ List.mem_cons_self) (mask_partitionRecord ..)
          h.standing_existing
  | partitionSetMasks database name createMask updateMask readMask deleteMask =>
    rw [records_run_eq hapart (.partitionSetMasks ..) cfgGroups_mem hgp' List.not_mem_nil,
      records_run_eq hapart (.partitionSetMasks ..) cfgUsers_mem hup' List.not_mem_nil]
    simp only [EntityOp.run, edbPartitionSetMasks]
    split
    · exact h.maskStored (hreads _ List.mem_cons_self) (mask_partitionRecord ..)
        h.standing_existing
    · exact h.coherent
  | partitionEnsure database partition keyspace =>
    rw [records_run_eq hapart (.partitionEnsure ..) cfgGroups_mem hgp List.not_mem_nil,
      records_run_eq hapart (.partitionEnsure ..) cfgUsers_mem hup List.not_mem_nil]
    exact h.partitionEnsure hapart (hreads _ List.mem_cons_self)
  | userDelete name =>
    -- what is left stores nothing that has bits
    exact h.run_unnoted hapart _ (fun _ => rfl) List.not_mem_nil hgu List.not_mem_nil
      List.not_mem_nil
  | databaseCreate name replicationFactor =>
    exact h.run_unnoted hapart _ (fun _ => rfl) (show cfgGroups ∉ [cfgDatabases] by decide)
      List.not_mem_nil (show cfgUsers ∉ [cfgDatabases] by decide)
      (show cfgPartitions ∉ [cfgDatabases] by decide)
  | databaseDelete name =>
    exact h.run_unnoted hapart _ (fun _ => rfl) List.not_mem_nil
      (show cfgGroups ∉ [cfgKeyspaces, cfgPartitions, cfgDatabases] by decide) List.not_mem_nil
      List.not_mem_nil
  | partitionDelete database name =>
    exact h.run_unnoted hapart _ (fun _ => rfl) List.not_mem_nil
      (show cfgGroups ∉ [cfgKeyspaces, cfgPartitions] by decide) List.not_mem_nil
      List.not_mem_nil

/-- **One step** keeps the node sound. -/
theorem Sound.step (h : s.Sound codec shardKey) (hapart : KeysApart shardKey) {l : AccessLabel}
    (hreads : s.ReadsBack codec shardKey l) {s' : Access}
    (hstep : s.step codec shardKey l = some s') : s'.Sound codec shardKey := by
  cases l with
  | op o =>
    obtain rfl := Option.some.inj hstep
    exact ⟨settled_run o h.settled codec, h.run hapart o hreads⟩
  | tick seconds =>
    obtain rfl := Option.some.inj hstep
    have hle : s.clock ≤ s.clock + seconds := by omega
    have hsame : ∀ ks ∈ systemKeyspaces,
        records codec shardKey { s with clock := s.clock + seconds } ks =
          s.records codec shardKey ks :=
      fun ks hks => funext (fetch_later h.settled hle hks)
    refine ⟨h.settled.mono hle, ?_⟩
    rw [hsame _ cfgGroups_mem,
      hsame _ cfgUsers_mem,
      hsame _ cfgPartitions_mem]
    exact h.coherent

/-! ## Whole runs -/

theorem mem_edbUserGet {name : CString} {info : UserInfo}
    (h : info ∈ edbUserGet (s.backend codec shardKey) s.engine name) :
    ∃ doc, s.records codec shardKey cfgUsers name = some doc ∧ userInfo doc = info := by
  rw [Option.mem_def, edbUserGet] at h
  split at h
  · cases h
  · next doc hdoc =>
    split at h
    · cases h
    · exact ⟨doc, hdoc, Option.some.inj h⟩

theorem mem_edbPartitionGet {database name : CString} {info : PartitionInfo}
    (h : info ∈ edbPartitionGet (s.backend codec shardKey) s.engine database name) :
    ∃ doc, s.records codec shardKey cfgPartitions (partitionId database name) = some doc ∧
      partitionInfo doc = info := by
  rw [Option.mem_def, edbPartitionGet] at h
  split at h
  · cases h
  · next doc hdoc =>
    dsimp only at h
    split at h
    · cases h
    · exact ⟨doc, hdoc, Option.some.inj h⟩

/-- A partition lets a user in when it is not registered, has an open mask, or through a
bit. -/
theorem partitionAllows_iff {user database partition : CString} {perm : Permission}
    {info : UserInfo} (h : info ∈ edbUserGet (s.backend codec shardKey) s.engine user) :
    partitionAllows (s.backend codec shardKey) s.engine database partition info.groups perm =
        true ↔
      (∀ part ∈ edbPartitionGet (s.backend codec shardKey) s.engine database partition,
        part.mask perm = maskAllowAll) ∨
      ∃ b, InMask b ∧ s.AllowedThrough codec shardKey user database partition perm b := by
  unfold partitionAllows
  cases hpart : edbPartitionGet (s.backend codec shardKey) s.engine database partition with
  | none => simp
  | some part =>
    dsimp only
    rw [edbCheckPerm_iff]
    refine or_congr (by simp) (exists_congr fun b => and_congr_right fun _ => ?_)
    constructor
    · rintro ⟨hmask, huser⟩
      exact ⟨⟨info, h, huser⟩, ⟨part, hpart, hmask⟩⟩
    · rintro ⟨⟨info', hinfo', huser⟩, ⟨part', hpart', hmask⟩⟩
      obtain rfl : info = info' := Option.mem_unique h hinfo'
      obtain rfl : part = part' := Option.mem_unique hpart hpart'
      exact ⟨hmask, huser⟩

/-- A sound node revokes unless bits are used again. -/
theorem Sound.revokedUnlessReused (h : s.Sound codec shardKey) :
    s.RevokedUnlessReused codec shardKey := by
  rintro user database partition perm b ⟨⟨info, hinfo, huser⟩, ⟨part, hpart, hmask⟩⟩
  obtain ⟨doc, hdoc, rfl⟩ := mem_edbUserGet hinfo
  obtain ⟨doc', hdoc', rfl⟩ := mem_edbPartitionGet hpart
  rw [h.coherent.user user doc hdoc] at huser
  rw [h.coherent.mask _ doc' hdoc'] at hmask
  -- the groups of a put stand until they are deleted
  have hset : ∀ g, (g, b) ∈ (s.history.userPut user).groups → g ∉ s.history.deleted →
      Owns (s.records codec shardKey cfgGroups) s.history g b :=
    fun g hg hkept => (h.coherent.userPut user g b hg).resolve_left hkept
  have hput : ∀ g, (g, b) ∈ (s.history.maskPut (partitionId database partition)).groups →
      g ∉ s.history.deleted → Owns (s.records codec shardKey cfgGroups) s.history g b :=
    fun g hg hkept => (h.coherent.maskPut _ g b hg).resolve_left hkept
  exact
    { inSet := huser
      inMask := hmask
      setGroup := fun g hg hkept => h.mem_existing.mpr (hset g hg hkept)
      maskGroup := fun g hg hkept => h.mem_existing.mpr (hput g hg hkept)
      same := fun g g' hg hg' hkept hkept' =>
        h.coherent.owns_unique (hset g hg hkept) (hput g' hg' hkept') }

/-- A new node. -/
def fresh (clock : Int) : Access where
  engine _ := ∅
  clock

theorem sound_fresh (clock : Int) : (fresh clock).Sound codec shardKey := by
  have hnone : ∀ ks id, (fresh clock).records codec shardKey ks id = none := by
    intro ks id
    show fetch (localBackend codec shardKey clock) (fun _ => ∅) ks id = none
    rw [fetch_eq, AList.lookup_empty]
    rfl
  have hnot : ∀ {ks id doc}, (fresh clock).records codec shardKey ks id = some doc → False := by
    intro ks id doc h
    rw [hnone] at h
    cases h
  refine ⟨fun ks _ id r hr => ?_, fun _ _ h => (hnot h).elim, fun _ _ _ h => (hnot h).elim,
    fun _ _ h => (hnot h).elim, fun _ _ h => (hnot h).elim, fun _ _ _ h => ?_, fun _ _ _ h => ?_⟩
  · rw [fresh, AList.lookup_empty] at hr
    cases hr
  · cases h
  · cases h

/-- **Who is allowed through a bit**, in every state of every run. -/
theorem revokedUnlessReused_run (hapart : KeysApart shardKey) (clock : Int)
    {ls : List AccessLabel}
    (hreads : Runs.Along (step codec shardKey) (ReadsBack codec shardKey) (fresh clock) ls) :
    Runs.Throughout (step codec shardKey) (RevokedUnlessReused codec shardKey) (fresh clock) ls :=
  Runs.throughout_mono (fun _ h => h.revokedUnlessReused)
    (Runs.throughout_of_along (fun _ _ _ h hl hstep => h.step hapart hl hstep)
      (sound_fresh clock) hreads)

/-! ## A group that is deleted -/

/-- A codec for the records of the run below. -/
def accessCodec : Codec Int :=
  tableCodec
    [groupRecord (cstr "ops") 1, groupRecord (cstr "dev") 1, userUpdateRecord (cstr "ann") 1,
      partitionRecord (cstr "d") (cstr "p") 0 0 1 0]
    (by decide +kernel)

/-- A user and a partition get the bit of a group, which goes; the next group has its bit. -/
def deletedGroup : List AccessLabel :=
  [.op (.groupCreate (cstr "ops")), .op (.userCreate (cstr "ann") 1),
    .op (.partitionCreate (cstr "d") (cstr "p") 0 0 1 0), .tick 60,
    .op (.groupDelete (cstr "ops")), .tick 60, .op (.groupCreate (cstr "dev"))]

/-- The user is allowed by the mask when the group of the set and the mask is gone. -/
theorem deletedGroup_revoked :
    (Runs.run (step accessCodec fun _ ks => ks) (fresh 100) deletedGroup).map (fun s =>
      (s.history.deleted, s.existing accessCodec (fun _ ks => ks),
        partitionAllows (s.backend accessCodec fun _ ks => ks) s.engine (cstr "d") (cstr "p") 1
          .read)) =
      some ([⟨cstr "ops", 1⟩], [(⟨cstr "dev", 2⟩, 1)], true) ∧
    Runs.Throughout (step accessCodec fun _ ks => ks)
      (RevokedUnlessReused accessCodec fun _ ks => ks) (fresh 100) deletedGroup :=
  ⟨by decide +kernel, revokedUnlessReused_run (by decide +kernel) 100 (by decide +kernel)⟩

/-- A partition gets a mask with a bit that no group has. The next group gets it, and a user. -/
def rawMask : List AccessLabel :=
  [.op (.partitionCreate (cstr "d") (cstr "p") 0 0 1 0), .tick 60, .op (.groupCreate (cstr "ops")),
    .op (.userCreate (cstr "ann") 1)]

/-- A user with bit 1, which a partition lets in, is allowed by a group of both puts. -/
theorem RevokedForGood.group {codec : Codec D} {shardKey : CString → CString → CString}
    {s : Access} (h : s.RevokedForGood codec shardKey) {user database partition : CString}
    (huser : (edbUserGet (s.backend codec shardKey) s.engine user).map UserInfo.groups = some 1)
    (hpart : (edbPartitionGet (s.backend codec shardKey) s.engine database partition).map
      PartitionInfo.readMask = some 1) :
    ∃ g, (g, 1) ∈ (s.history.userPut user).groups ∧
      (g, 1) ∈ (s.history.maskPut (partitionId database partition)).groups ∧
        (g, 1) ∈ s.existing codec shardKey := by
  obtain ⟨info, hinfo, hgroups⟩ := Option.map_eq_some_iff.mp huser
  obtain ⟨part, hget, hmask⟩ := Option.map_eq_some_iff.mp hpart
  refine h user database partition .read 1 ⟨⟨info, hinfo, ?_⟩, ⟨part, hget, ?_⟩⟩
  · rw [hgroups]
    decide
  · show HasBit part.readMask 1
    rw [hmask]
    decide

/-- **The bit of a deleted group** opens a partition to those who had it, and a bit that was
put in a mask before any group had it opens it to the group that gets it. -/
theorem deleted_group_still_allows :
    (¬ Runs.Throughout (step accessCodec fun _ ks => ks)
      (RevokedForGood accessCodec fun _ ks => ks) (fresh 100) deletedGroup) ∧
    ¬ Runs.Throughout (step accessCodec fun _ ks => ks)
      (RevokedForGood accessCodec fun _ ks => ks) (fresh 100) rawMask := by
  constructor
  · intro h
    obtain ⟨s, hrun, huser, hpart, hput, hexisting⟩ :
        ∃ s ∈ Runs.run (step accessCodec fun _ ks => ks) (fresh 100) deletedGroup,
          (edbUserGet (s.backend accessCodec fun _ ks => ks) s.engine (cstr "ann")).map
              UserInfo.groups = some 1 ∧
            (edbPartitionGet (s.backend accessCodec fun _ ks => ks) s.engine (cstr "d")
              (cstr "p")).map PartitionInfo.readMask = some 1 ∧
            (s.history.userPut (cstr "ann")).groups = [(⟨cstr "ops", 1⟩, 1)] ∧
            s.existing accessCodec (fun _ ks => ks) = [(⟨cstr "dev", 2⟩, 1)] := by
      decide +kernel
    obtain ⟨g, hmem, -, hexists⟩ := (Runs.of_throughout h hrun).group huser hpart
    rw [hput, List.mem_singleton] at hmem
    rw [hexisting, List.mem_singleton, (Prod.mk.inj hmem).1] at hexists
    exact absurd hexists (by decide)
  · intro h
    obtain ⟨s, hrun, huser, hpart, hput⟩ :
        ∃ s ∈ Runs.run (step accessCodec fun _ ks => ks) (fresh 100) rawMask,
          (edbUserGet (s.backend accessCodec fun _ ks => ks) s.engine (cstr "ann")).map
              UserInfo.groups = some 1 ∧
            (edbPartitionGet (s.backend accessCodec fun _ ks => ks) s.engine (cstr "d")
              (cstr "p")).map PartitionInfo.readMask = some 1 ∧
            (s.history.maskPut (partitionId (cstr "d") (cstr "p"))).groups = [] := by
      decide +kernel
    obtain ⟨g, -, hmem, -⟩ := (Runs.of_throughout h hrun).group huser hpart
    rw [hput] at hmem
    cases hmem

end Access

end EpsilonDB
