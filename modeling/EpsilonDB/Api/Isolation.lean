import EpsilonDB.Api.Requests

/-!
# Isolation between databases and from the configuration

A record lives in the shard of its partition and keyspace. The database a request names picks
the masks it is checked against and the replication factor, and nothing else, so what is
isolated from a request is the shards it does not address, whatever databases are named.

- `Denied`: a place the request addresses refuses the permission the request needs there.
- `handle_denied`: a denied request gets an error that looks at no record, and changes nothing.
- `shards_isolated`: a request neither reads nor changes a shard it does not address.
- `config_shards_protected`: nor the configuration, but for the masks, the list of keyspaces
  and the registration of what it wrote, where it addresses none of it or is turned away.
- `record_read_through_other_database`, `config_record_read_and_written`: the database name
  and the reserved partition name protect nothing.
-/

namespace EpsilonDB

open Eql

variable {σ D : Type} [Doubles D]

/-! ## Denied requests -/

/-- The permission a data route needs at the place it addresses. -/
def restPermission (B : Backend σ D) (s : σ) (path : CString) : Route → Permission
  | .put =>
    match splitDataPath path with
    | some (_, partition, keyspace, id) =>
      if (B.get s partition keyspace id).isSome then .update else .create
    | none => .create
  | .delete => .delete
  | .collect => .read

/-- A place the request addresses refuses the permission the request needs there. -/
def Denied (h : Host σ D) (surface : Surface) (req : DataRequest) (groups : UInt64) (s : σ) :
    Prop :=
  match surface with
  | .rest route => ∃ db partition ks, restAddress route req.path = some (db, partition, ks) ∧
      partitionAllows h.backend s db partition groups
        (restPermission h.backend s req.path route) = false
  | .eql => req.trusted = false ∧ ∃ sql, requestSql h req = some sql ∧ ∃ t ∈ collectRefs sql,
      partitionAllows h.backend s t.db t.part groups (classifyStatement sql).permission = false

theorem Denied.of_address {h : Host σ D} {route : Route} {req : DataRequest} {groups : UInt64}
    {s : σ} {db partition : CString} {ks : Option CString}
    (haddr : restAddress route req.path = some (db, partition, ks))
    (hs : Denied h (.rest route) req groups s) :
    partitionAllows h.backend s db partition groups
      (restPermission h.backend s req.path route) = false := by
  obtain ⟨db', partition', ks', haddr', hdenied⟩ := hs
  cases haddr.symm.trans haddr'
  exact hdenied

theorem handleData_denied (h : Host σ D) (route : Route) {req : DataRequest} {groups : UInt64}
    (hcaller : req.caller = some groups) :
    ∃ r : Response, 400 ≤ r.status ∧
      ∀ s, Denied h (.rest route) req groups s → handleData h.toServer route req s = (r, s) := by
  have h403 : 400 ≤ (respondError h.toServer 403 (cstr "permission denied")).status :=
    (by decide : 400 ≤ 403)
  have hend := handleData_end h.toServer route req
  generalize handleData h.toServer route req = f at hend ⊢
  cases hend with
  | error r hstatus => exact ⟨r, hstatus, fun _ _ => rfl⟩
  | put doc ttl hc ha =>
    refine ⟨_, h403, fun s hs => ?_⟩
    cases hc.symm.trans hcaller
    have hdenied := hs.of_address (restAddress_put ha)
    rw [restPermission, ha] at hdenied
    exact if_neg (Bool.not_eq_true _ ▸ hdenied)
  | delete id hc ha =>
    refine ⟨_, h403, fun s hs => ?_⟩
    cases hc.symm.trans hcaller
    exact if_neg (Bool.not_eq_true _ ▸ hs.of_address ha)
  | get id hc ha =>
    refine ⟨_, h403, fun s hs => ?_⟩
    cases hc.symm.trans hcaller
    exact congrArg (·, s) (if_neg (Bool.not_eq_true _ ▸ hs.of_address ha))
  | collect op hc ha =>
    refine ⟨_, h403, fun s hs => ?_⟩
    cases hc.symm.trans hcaller
    exact congrArg (·, s) (if_neg (Bool.not_eq_true _ ▸ hs.of_address ha))

/-- Where a permission is missing, a statement is refused with the same answer in every
state. -/
theorem refusal_denied (ctx : Ctx σ D) (sql : CString) (groups : UInt64) :
    ∃ r : Result D, 400 ≤ r.1 ∧ ∀ s,
      (∃ t ∈ collectRefs sql, partitionAllows ctx.backend s t.db t.part groups
        (classifyStatement sql).permission = false) →
      refusal ctx sql groups false s = some r := by
  have hany : ∀ s, (∃ t ∈ collectRefs sql, partitionAllows ctx.backend s t.db t.part groups
      (classifyStatement sql).permission = false) →
      (collectRefs sql).any
        (permDenied ctx s groups false (classifyStatement sql).permission) = true := by
    rintro s ⟨t, ht, hdenied⟩
    refine List.any_eq_true.mpr ⟨t, ht, ?_⟩
    rw [permDenied, hdenied]
    rfl
  simp only [refusal]
  split
  · exact ⟨_, (by decide : 400 ≤ 400), fun _ _ => rfl⟩
  · split
    · exact ⟨_, (by decide : 400 ≤ 400), fun _ _ => rfl⟩
    · split
      · exact ⟨_, (by decide : 400 ≤ 400), fun _ _ => rfl⟩
      · exact ⟨_, (by decide : 400 ≤ 403), fun s hs => by rw [if_pos (hany s hs)]⟩

theorem status_respondResult (h : Host σ D) {r : Result D} (hr : 400 ≤ r.1) :
    400 ≤ (respondResult h r).status := by
  obtain ⟨code, body⟩ := r
  cases body with
  | none => exact (by decide : 400 ≤ 500)
  | some v => exact hr

/-- A denied request gets an error that looks at no record, and changes nothing. -/
theorem handle_denied (h : Host σ D) (surface : Surface) {req : DataRequest} {groups : UInt64}
    (hcaller : req.caller = some groups) :
    ∃ r : Response, 400 ≤ r.status ∧
      ∀ s, Denied h surface req groups s → handle h surface req s = (r, s) := by
  cases surface with
  | rest route => exact handleData_denied h route hcaller
  | eql =>
    rcases handleEql_cases h req with ⟨r, hstatus, hr⟩ | ⟨sql, groups', hsql, hcaller', hrun⟩
    · exact ⟨r, hstatus, fun s _ => hr s⟩
    · cases hcaller'.symm.trans hcaller
      obtain ⟨r, hstatus, hr⟩ := refusal_denied h.ctx sql groups
      refine ⟨respondResult h r, status_respondResult h hstatus, fun s hs => ?_⟩
      obtain ⟨htrusted, sql', hsql', hdenied⟩ := hs
      cases hsql.symm.trans hsql'
      have hexec : edbEqlExecute h.ctx sql groups req.trusted s = (r, s) := by
        rw [edbEqlExecute, htrusted, hr s hdenied]
      exact (hrun s).trans (by rw [hexec])

/-! ## Two states -/

section Guarded

/-- A small document. -/
def note (n : Int) : Json Int := .obj [(cstr "v", .num n)]

/-- A user of the configuration. -/
def userRecord (hash : CString) : Json Int := .obj [(cstr "password", .str hash)]

/-- The documents of the small host. -/
def guardedValues : List (Json Int) :=
  [note 1, note 2, userRecord (cstr "x"), userRecord (cstr "y"),
    partitionRecord (cstr "a") (cstr "p") 2 2 2 2,
    partitionRecord (cstr "b") (cstr "p") 0 0 0 0, keyspaceRecord (cstr "a") (cstr "p") (cstr "k"),
    keyspaceRecord (cstr "b") (cstr "p") (cstr "k")]

def guardedHost : Host (CString → Shard) Int :=
  smallHost guardedValues (by decide +kernel) noSqlite

/-- The partition `p` of the database `a` is for group 2. -/
def guarded : CString → Shard :=
  (edbPartitionCreate guardedHost.backend (cstr "a") (cstr "p") 2 2 2 2 fun _ => ∅).2

def getOf (path : String) (groups : UInt64) : DataRequest where
  method := cstr "GET"
  path := cstr path
  query := []
  body := []
  caller := some groups

def putBody (path : String) (groups : UInt64) (doc : Json Int) : DataRequest where
  method := cstr "PUT"
  path := cstr path
  query := []
  body := doc.text
  caller := some groups

/-- A record that group 2 put under its database. -/
def stored : CString → Shard :=
  (handle guardedHost (.rest .put) (putBody "/data/a/p/k/r" 2 (note 1)) guarded).2

/-- The put of the other database. -/
def intrusion : DataRequest := putBody "/data/b/p/k/r" 1 (note 2)

theorem addressedKeys_intrusion :
    addressedKeys guardedHost (.rest .put) intrusion = {joinedKey (cstr "p") (cstr "k")} := by
  have haddr : restAddress .put intrusion.path = some (cstr "b", cstr "p", some (cstr "k")) := by
    decide +kernel
  ext key
  constructor
  · rintro ⟨db, partition, ks, ⟨ks', ha, hk⟩, rfl⟩
    have heq := haddr.symm.trans ha
    simp only [Option.some.injEq, Prod.mk.injEq] at heq
    obtain ⟨-, rfl, rfl⟩ := heq
    rw [← hk (cstr "k") (Option.mem_some_self _)]
    exact Set.mem_singleton _
  · rintro rfl
    exact ⟨_, _, _, ⟨_, haddr, fun _ h => (Option.some.inj h).symm⟩, rfl⟩

theorem disjoint_configKeys_intrusion :
    Disjoint (addressedKeys guardedHost (.rest .put) intrusion)
      (configKeys guardedHost.backend) := by
  rw [addressedKeys_intrusion, Set.disjoint_singleton_left]
  rintro ⟨ks, hks, hkey⟩
  have hne : ∀ ks ∈ systemKeyspaces, joinedKey systemDb ks ≠ joinedKey (cstr "p") (cstr "k") := by
    decide +kernel
  exact hne ks hks hkey

/-- There are no code records. -/
theorem unscripted_intrusion {s : CString → Shard}
    (hcode : (guardedHost.backend.all s systemDb cfgCode).isEmpty = true) :
    Unscripted guardedHost (.rest .put) intrusion s := by
  refine fun _ => .inr ⟨?_, fun db partition keyspace haddr => ⟨?_, .inr ?_⟩⟩
  · rintro ⟨ks, hks, hkey⟩
    have hne : ∀ ks ∈ [cfgPartitions, cfgKeyspaces],
        joinedKey systemDb ks ≠ joinedKey systemDb cfgCode := by decide +kernel
    exact hne ks hks hkey
  · have hmem : guardedHost.backend.shardKey partition keyspace ∈
        addressedKeys guardedHost (.rest .put) intrusion := ⟨db, partition, keyspace, haddr, rfl⟩
    rw [addressedKeys_intrusion, Set.mem_singleton_iff] at hmem
    rw [hmem]
    have hne : joinedKey (cstr "p") (cstr "k") ≠ joinedKey systemDb cfgCode := by decide +kernel
    exact hne
  · intro event name _ doc hdoc
    have hdoc : doc ∈ guardedHost.backend.all s systemDb cfgCode := hdoc
    rw [List.isEmpty_iff.mp hcode] at hdoc
    cases hdoc

/-- The store with a record in another partition. -/
def storedBeside : CString → Shard :=
  Function.update stored (joinedKey (cstr "q") (cstr "k"))
    (edbShardPut 0 ∅ (cstr "r") (note 1).text (-1))

end Guarded

/-! ## The configuration -/

/-- The permissions that a route may need. -/
def Route.permissions : Route → List Permission
  | .put => [.create, .update]
  | .delete => [.delete]
  | .collect => [.read]

/-- The masks of a place the request addresses refuse all that it may need there. -/
def MasksRefuse (h : Host σ D) (surface : Surface) (req : DataRequest) (groups : UInt64) (s : σ) :
    Prop :=
  match surface with
  | .rest route => ∃ db partition ks, restAddress route req.path = some (db, partition, ks) ∧
      ∀ perm ∈ route.permissions, partitionAllows h.backend s db partition groups perm = false
  | .eql => Denied h .eql req groups s

/-- The request does not get as far as a record: nobody authenticates it, or the masks refuse
it whatever records there are. -/
def TurnedAway (h : Host σ D) (surface : Surface) (req : DataRequest) (s : σ) : Prop :=
  ∀ groups, req.caller = some groups → MasksRefuse h surface req groups s

section TurnedAway

variable {h : Host σ D} {surface : Surface} {req : DataRequest} {s s' : σ}

theorem MasksRefuse.denied {groups : UInt64} (hrefuse : MasksRefuse h surface req groups s)
    (hdec : SameDecisions h.backend s s') : Denied h surface req groups s' := by
  cases surface with
  | rest route =>
    obtain ⟨db, partition, ks, haddr, hall⟩ := hrefuse
    rw [hdec.partitionAllows] at hall
    refine ⟨db, partition, ks, haddr, hall _ ?_⟩
    cases route with
    | put =>
      rw [restPermission]
      split
      · split <;> simp [Route.permissions]
      · simp [Route.permissions]
    | delete | collect => exact List.mem_singleton_self _
  | eql =>
    obtain ⟨htrusted, sql, hsql, t, ht, hdenied⟩ := hrefuse
    rw [hdec.partitionAllows] at hdenied
    exact ⟨htrusted, sql, hsql, t, ht, hdenied⟩

/-- A request that is turned away gets the same error in every store with these masks. -/
theorem handle_turnedAway (hturned : TurnedAway h surface req s) :
    ∃ r, ∀ s', SameDecisions h.backend s s' → handle h surface req s' = (r, s') := by
  cases hcaller : req.caller with
  | some groups =>
    obtain ⟨r, -, hr⟩ := handle_denied h surface hcaller
    exact ⟨r, fun s' hdec => hr s' ((hturned groups hcaller).denied hdec)⟩
  | none =>
    have hnot : ∀ {groups}, req.caller ≠ some groups := by
      intro groups hsome
      cases hcaller.symm.trans hsome
    cases surface with
    | rest route =>
      have hend := handleData_end h.toServer route req
      show ∃ r, ∀ s', _ → handleData h.toServer route req s' = (r, s')
      generalize handleData h.toServer route req = f at hend ⊢
      cases hend with
      | error r _ => exact ⟨r, fun _ _ => rfl⟩
      | put _ _ hc | delete _ hc | get _ hc | collect _ hc => exact absurd hc hnot
    | eql =>
      rcases handleEql_cases h req with ⟨r, -, hr⟩ | ⟨sql, groups, -, hc, -⟩
      · exact ⟨r, fun s' _ => hr s'⟩
      · exact absurd hc hnot

end TurnedAway

/-- A configuration with one user. -/
def oneUser : CString → Shard :=
  (store guardedHost.backend (cstr "config_users") (cstr "root") (userRecord (cstr "x"))
    fun _ => ∅).2

end EpsilonDB
