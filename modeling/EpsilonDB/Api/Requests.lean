import EpsilonDB.Api.Data
import EpsilonDB.Eql.WriteBack

/-!
# The data plane (`api/epsilon_api_eql.c`)

A request of the data plane goes to a data route or carries a statement. Two things bound
what it does: the shards it addresses, and the registry of partitions and keyspaces.

- `Host`: the server with the engine its statements run on.
- `handleEql`: the statement route.
- `addressedKeys`: the shard keys a request addresses; one without a keyspace addresses the
  whole partition.
- `SameDecisions`: two states with the same masks and the same registered keyspaces.
- `Unscripted`: the code that is attached to events has no part in a request. `handle_eq_plain`.
- `handle_agree`: two states that agree off shards the request does not address, and that make
  the same decisions, get the same answer and still agree afterwards.
- `handle_registers`: outside its shards a request does nothing but register what it wrote.
- `handle_keeps`: it changes its shards and the registry, and no other shard.
- `smallHost`: a host to try requests on.
-/

namespace EpsilonDB

open Eql

variable {σ D : Type} [Doubles D]

/-- The server and the database engine under it. -/
structure Host (σ D : Type) [Doubles D] extends Server σ D where
  sqlite : Sqlite D
  junk : CString

/-- What the statements of a host run with. -/
def Host.ctx (h : Host σ D) : Ctx σ D := ⟨h.backend, h.codec, h.sqlite, h.junk, h.scripts⟩

variable (h : Host σ D)

/-- The response to what a statement comes to. -/
def respondResult : Result D → Response
  | (_, none) => respondError h.toServer 500 (cstr "engine returned no response")
  | (code, some v) => ⟨code, h.codec.print v⟩

/-- `handle_eql_common`. -/
def handleEql (req : DataRequest) (s : σ) : Response × σ :=
  if h.restoreLocked then (respondError h.toServer 503 (cstr "restore in progress"), s)
  else match (bodyJson h.toServer req.body).filter Json.isObject with
  | none => (respondError h.toServer 400 (cstr "body must be a JSON object"), s)
  | some body => match (body.getStr (cstr "sql")).filter (· ≠ []) with
    | none =>
      (respondError h.toServer 400 (cstr "expected a non-empty \"sql\" string in the body"), s)
    | some sql => match req.caller with
      | none => (respondError h.toServer 401 (cstr "unauthorized"), s)
      | some groups =>
        let (result, s) := edbEqlExecute h.ctx sql groups req.trusted s
        (respondResult h result, s)

/-- A surface of the data plane. -/
inductive Surface where
  | rest (route : Route)
  | eql
deriving DecidableEq

/-- The handler of a request. -/
def handle (surface : Surface) (req : DataRequest) (s : σ) : Response × σ :=
  match surface with
  | .rest route => handleData h.toServer route req s
  | .eql => handleEql h req s

/-! ## Without attached code -/

/-- The server where the code that is attached to events does nothing. -/
def Server.plain (srv : Server σ D) : Server σ D := { srv with scripts := .inert }

/-- What statements run with there. -/
def Eql.Ctx.plain (ctx : Ctx σ D) : Ctx σ D := { ctx with scripts := .inert }

def Host.plain (h : Host σ D) : Host σ D := { h with scripts := .inert }

/-! ## What a request addresses -/

/-- The names of a REST request: database, partition, and a keyspace unless it reads the
whole partition. -/
def restAddress (route : Route) (path : CString) :
    Option (CString × CString × Option CString) :=
  let record := (splitDataPath path).map fun a => (a.1, a.2.1, some a.2.2.1)
  match route with
  | .put | .delete => record
  | .collect =>
    match dataPath path with
    | none => none
    | some work =>
      let toks := tokens 8 work
      if toks.getLast?.getD [] ∈ collectOps then collectAddress toks
      else record

/-- The statement of a request. -/
def requestSql (req : DataRequest) : Option CString :=
  ((bodyJson h.toServer req.body).bind fun body => body.getStr (cstr "sql")).filter (· ≠ [])

/-- The database, partition and keyspace names a request goes to. -/
def Addresses (surface : Surface) (req : DataRequest) (db partition keyspace : CString) : Prop :=
  match surface with
  | .rest route =>
    ∃ ks, restAddress route req.path = some (db, partition, ks) ∧ ∀ k ∈ ks, k = keyspace
  | .eql =>
    ∃ sql, requestSql h req = some sql ∧ ∃ t ∈ collectRefs sql,
      t.db = db ∧ t.part = partition ∧ t.reaches h.ctx keyspace

/-- The shard keys a request addresses. -/
def addressedKeys (surface : Surface) (req : DataRequest) : Set CString :=
  { key | ∃ db partition keyspace, Addresses h surface req db partition keyspace ∧
      h.backend.shardKey partition keyspace = key }

/-- The changes the statement of a request sends. -/
def requestChanges (surface : Surface) (req : DataRequest) (s : σ) : List (Eql.Change D) :=
  match surface, requestSql h req, req.caller with
  | .eql, some sql, some groups => statementChanges h.ctx sql groups req.trusted s
  | _, _, _ => []

/-- Whatever a statement writes back, its names survive the way to the store. -/
def ChangesSafe (surface : Surface) (req : DataRequest) (s : σ) : Prop :=
  ∀ c ∈ requestChanges h surface req s, h.backend.safe c.write

/-- The request may write: a REST request that does not read, or a statement that changes rows. -/
def Writes (surface : Surface) (req : DataRequest) : Prop :=
  match surface with
  | .rest route => route ≠ .collect
  | .eql => ∃ sql, requestSql h req = some sql ∧ (classifyStatement sql).isDml = true

/-- No code runs for what the request writes: its databases are all the reserved one, or no node
has code for a place it addresses, and neither the request nor the registry writes to the shard
of the code. -/
def Unscripted (surface : Surface) (req : DataRequest) (s : σ) : Prop :=
  Writes h surface req →
    (∀ db partition keyspace, Addresses h surface req db partition keyspace → db = systemDb) ∨
      h.backend.codeKey ∉ registryKeys h.backend ∧
        ∀ db partition keyspace, Addresses h surface req db partition keyspace →
          h.backend.shardKey partition keyspace ≠ h.backend.codeKey ∧
            h.backend.Quiet s db partition keyspace

/-- The states hold the same masks and the same registered keyspaces. -/
structure SameDecisions (B : Backend σ D) (s s' : σ) : Prop where
  masks : edbPartitionGet B s = edbPartitionGet B s'
  keyspaces : edbKeyspaceList B s = edbKeyspaceList B s'

/-! ## Decisions in two states -/

section Decisions

variable {B : Backend σ D} {K : Set CString} {s s' : σ}

theorem SameDecisions.of_agreeOff (hK : Disjoint (registryKeys B) K)
    (h : AgreeOff B.view K s s') : SameDecisions B s s' :=
  ⟨edbPartitionGet_congr (h _ (Set.disjoint_left.mp hK (partitions_mem_registryKeys B))),
    edbKeyspaceList_congr (h _ (Set.disjoint_left.mp hK (keyspaces_mem_registryKeys B)))⟩

theorem SameDecisions.partitionAllows (h : SameDecisions B s s') :
    EpsilonDB.partitionAllows B s = EpsilonDB.partitionAllows B s' := by
  funext db partition groups perm
  rw [EpsilonDB.partitionAllows, EpsilonDB.partitionAllows, h.masks]

theorem SameDecisions.partitionKeyspaces (h : SameDecisions B s s') :
    EpsilonDB.partitionKeyspaces B s = EpsilonDB.partitionKeyspaces B s' := by
  funext db partition cap
  rw [EpsilonDB.partitionKeyspaces, EpsilonDB.partitionKeyspaces, h.keyspaces]

end Decisions

/-! ## A change in two runs and in one -/

section Change

variable {ctx : Ctx σ D} {K : Set CString} {s s' : σ}

/-- The key of a change. -/
def Eql.Change.key (c : Eql.Change D) (B : Backend σ D) : CString := B.shardKey c.table.part c.ks

omit [Doubles D] in
theorem key_write (c : Eql.Change D) (B : Backend σ D) : c.write.key B.shardKey = c.key B := by
  obtain ⟨t, ks, id, value⟩ := c
  cases value <;> rfl

theorem confined_change {c : Eql.Change D} (hsafe : ctx.backend.safe c.write) :
    Confined ctx.backend.view (c.key ctx.backend) (ctx.backend.write c.write) :=
  key_write c ctx.backend ▸ ctx.backend.confined c.write hsafe

theorem writeAttempts_agree {w : StoreWrite D} {key : CString}
    (hw : Confined ctx.backend.view key (ctx.backend.write w)) (hkey : key ∉ K) (n code : Nat)
    (h : AgreeOff ctx.backend.view K s s') :
    (writeAttempts ctx w n code s).1 = (writeAttempts ctx w n code s').1 ∧
      AgreeOff ctx.backend.view K (writeAttempts ctx w n code s).2
        (writeAttempts ctx w n code s').2 := by
  induction n generalizing code s s' with
  | zero => exact ⟨rfl, h⟩
  | succ n ih =>
    have hanswer := hw.answer_eq hkey h
    have hagree := hw.agreeOff h
    unfold writeAttempts
    revert hanswer hagree
    generalize ctx.backend.write w s = r
    generalize ctx.backend.write w s' = r'
    intro hanswer hagree
    obtain ⟨status, t⟩ := r
    obtain ⟨status', t'⟩ := r'
    obtain rfl : status = status' := hanswer
    cases status
    · exact ⟨rfl, hagree⟩
    · exact ih 500 hagree
    · exact ih 503 hagree

theorem writeAttempts_keeps {w : StoreWrite D}
    (hw : ∀ s, AgreeOff ctx.backend.view K s (ctx.backend.write w s).2) (n code : Nat) (s : σ) :
    AgreeOff ctx.backend.view K s (writeAttempts ctx w n code s).2 := by
  induction n generalizing code s with
  | zero => exact .refl _ K s
  | succ n ih =>
    have hkeep := hw s
    unfold writeAttempts
    revert hkeep
    generalize ctx.backend.write w s = r
    intro hkeep
    obtain ⟨status, t⟩ := r
    cases status
    · exact hkeep
    · exact hkeep.trans (ih 500 t)
    · exact hkeep.trans (ih 503 t)

/-- Without attached code a change is its write and the registration. -/
theorem replicateRecord_plain (c : Eql.Change D) (s : σ) :
    replicateRecord ctx.plain c s =
      let r := writeAttempts ctx c.write 3 0 s
      (r.1, if r.1 = 200 ∧ c.value.isSome = true then
          edbPartitionEnsure ctx.backend c.table.db c.table.part c.ks r.2
        else r.2) := by
  have hfire : ∀ event arg t, (ctx.plain.scripts.edbLuaFire ctx.plain.backend event arg t).2 = t :=
    fun event arg t => congrArg Prod.snd Scripts.edbLuaFire_inert
  rw [replicateRecord]
  dsimp only
  rw [hfire, ite_self]
  rfl

/-- A change in two runs that agree off other keys. -/
theorem replicateRecord_agree {c : Eql.Change D} (hsafe : ctx.backend.safe c.write)
    (hkey : c.key ctx.backend ∉ K)
    (hK : registryKeys ctx.backend ⊆ K ∨ Disjoint (registryKeys ctx.backend) K)
    (h : AgreeOff ctx.backend.view K s s') :
    (replicateRecord ctx.plain c s).1 = (replicateRecord ctx.plain c s').1 ∧
      AgreeOff ctx.backend.view K (replicateRecord ctx.plain c s).2
        (replicateRecord ctx.plain c s').2 := by
  obtain ⟨hcode, hagree⟩ := writeAttempts_agree (confined_change hsafe) hkey 3 0 h
  simp only [replicateRecord_plain, hcode]
  split
  · exact ⟨trivial, agreeOff_edbPartitionEnsure hK _ _ _ hagree⟩
  · exact ⟨trivial, hagree⟩

theorem take_agree {steps : List (Step D)}
    (hsteps : ∀ c ∈ steps.filterMap Step.change,
      ctx.backend.safe c.write ∧ c.key ctx.backend ∉ K)
    (hK : registryKeys ctx.backend ⊆ K ∨ Disjoint (registryKeys ctx.backend) K)
    {r r' : Replay σ} (happlied : r.applied = r'.applied) (hfailed : r.failed = r'.failed)
    (h : AgreeOff ctx.backend.view K r.state r'.state) :
    let q := steps.foldl (Replay.take ctx.plain) r
    let q' := steps.foldl (Replay.take ctx.plain) r'
    q.applied = q'.applied ∧ q.failed = q'.failed ∧
      AgreeOff ctx.backend.view K q.state q'.state := by
  induction steps generalizing r r' with
  | nil => exact ⟨happlied, hfailed, h⟩
  | cons st steps ih =>
    have hrest := fun c hc =>
      hsteps c (((List.sublist_cons_self st steps).filterMap _).subset hc)
    rw [List.foldl_cons, List.foldl_cons]
    cases st with
    | send c =>
      obtain ⟨hsafe, hkey⟩ := hsteps c (by simp [Step.change])
      -- a change is decided alike in both runs, and leaves them alike
      obtain ⟨hcode, hagree⟩ := replicateRecord_agree hsafe hkey hK h
      refine ih hrest ?_ ?_ ?_
      · simp only [Replay.take, Replay.send, hcode]
        split <;> simp [happlied]
      · simp only [Replay.take, Replay.send, hcode]
        split <;> simp [hfailed]
      · simp only [Replay.take, Replay.send]
        split <;> split <;> exact hagree
    | stale id => exact ih hrest (by simp [Replay.take, happlied]) hfailed h
    | unknown => exact ih hrest happlied (by simp [Replay.take, Replay.unknown, hfailed]) h

/-- Registering the places of a list. -/
def registerAll (B : Backend σ D) (places : List (CString × CString × CString)) (s : σ) : σ :=
  places.foldl (fun s p => edbPartitionEnsure B p.1 p.2.1 p.2.2 s) s

theorem registerAll_keeps {B : Backend σ D} (hK : registryKeys B ⊆ K)
    (places : List (CString × CString × CString)) (s : σ) :
    AgreeOff B.view K s (registerAll B places s) :=
  agreeOff_foldl_keeps places (fun p _ => edbPartitionEnsure_keeps hK p.1 p.2.1 p.2.2) s

/-- Off its key, a change registers where it went, or does nothing. -/
theorem replicateRecord_registers {c : Eql.Change D} (hsafe : ctx.backend.safe c.write)
    (hkey : c.key ctx.backend ∈ K)
    (hK : registryKeys ctx.backend ⊆ K ∨ Disjoint (registryKeys ctx.backend) K)
    (h : AgreeOff ctx.backend.view K s s') :
    ∃ places, (∀ p ∈ places, p = (c.table.db, c.table.part, c.ks)) ∧
      AgreeOff ctx.backend.view K (registerAll ctx.backend places s)
        (replicateRecord ctx.plain c s').2 := by
  have hkeep := writeAttempts_keeps ((confined_change hsafe).keeps hkey) 3 0 s'
  rw [replicateRecord_plain]
  dsimp only
  split
  · exact ⟨[(c.table.db, c.table.part, c.ks)], by simp,
      agreeOff_edbPartitionEnsure hK _ _ _ (h.trans hkeep)⟩
  · exact ⟨[], by simp, h.trans hkeep⟩

theorem state_take_send (r : Replay σ) (c : Eql.Change D) :
    (Replay.take ctx r (.send c)).state = (replicateRecord ctx c r.state).2 := by
  simp only [Replay.take, Replay.send]
  split <;> rfl

/-- Off their keys, the steps of a write-back register where the changes went. -/
theorem take_registers {steps : List (Step D)}
    (hK : registryKeys ctx.backend ⊆ K ∨ Disjoint (registryKeys ctx.backend) K)
    (hsteps : ∀ c ∈ steps.filterMap Step.change,
      ctx.backend.safe c.write ∧ c.key ctx.backend ∈ K) (s : σ) (r : Replay σ)
    (h : AgreeOff ctx.backend.view K s r.state) :
    ∃ places, (∀ p ∈ places, ∃ c ∈ steps.filterMap Step.change,
        p = (c.table.db, c.table.part, c.ks)) ∧
      AgreeOff ctx.backend.view K (registerAll ctx.backend places s)
        (steps.foldl (Replay.take ctx.plain) r).state := by
  induction steps generalizing s r with
  | nil => exact ⟨[], by simp, h⟩
  | cons st steps ih =>
    have hsub : ∀ c ∈ steps.filterMap Step.change, c ∈ (st :: steps).filterMap Step.change :=
      fun c hc => ((List.sublist_cons_self st steps).filterMap _).subset hc
    have hrest := fun c hc => hsteps c (hsub c hc)
    cases st with
    | send c =>
      have hmem : c ∈ (Step.send c :: steps).filterMap Step.change := by simp [Step.change]
      obtain ⟨hsafe, hkey⟩ := hsteps c hmem
      obtain ⟨places, hplaces, hagree⟩ := replicateRecord_registers hsafe hkey hK h
      -- what is counted does not touch the state
      have hstate : (Replay.take ctx.plain r (.send c)).state =
          (replicateRecord ctx.plain c r.state).2 := state_take_send r c
      -- the places of this change come before those of the rest
      obtain ⟨more, hmore, hagree'⟩ := ih hrest (registerAll ctx.backend places s)
        (Replay.take ctx.plain r (.send c)) (hstate ▸ hagree)
      refine ⟨places ++ more, fun p hp => ?_, ?_⟩
      · rcases List.mem_append.mp hp with hp | hp
        · exact ⟨c, hmem, hplaces p hp⟩
        · obtain ⟨d, hd, hp⟩ := hmore p hp
          exact ⟨d, hsub d hd, hp⟩
      · rw [registerAll, List.foldl_append]
        exact hagree'
    | stale id =>
      obtain ⟨places, hplaces, hagree⟩ := ih hrest s (Replay.take ctx.plain r (.stale id)) h
      exact ⟨places, fun p hp => (hplaces p hp).imp fun d hd => ⟨hsub d hd.1, hd.2⟩, hagree⟩
    | unknown =>
      obtain ⟨places, hplaces, hagree⟩ := ih hrest s (Replay.take ctx.plain r .unknown) h
      exact ⟨places, fun p hp => (hplaces p hp).imp fun d hd => ⟨hsub d hd.1, hd.2⟩, hagree⟩

/-- No change comes to the shard of the code. -/
def Eql.Change.SparesCode (c : Eql.Change D) (B : Backend σ D) : Prop :=
  ∀ p ∈ B.place c.write, B.shardKey p.partition p.keyspace ≠ B.codeKey

/-- No code runs for the changes: their databases are all the reserved one, or no node has code
for their places, and neither they nor the registry write to the shard of the code. -/
def Unattended (B : Backend σ D) (s : σ) (cs : List (Eql.Change D)) : Prop :=
  (∀ c ∈ cs, c.table.db = systemDb) ∨
    B.codeKey ∉ registryKeys B ∧
      ∀ c ∈ cs, c.SparesCode B ∧ B.Quiet s c.table.db c.table.part c.ks

omit [Doubles D] in
theorem sparesCode_of_safe {B : Backend σ D} {c : Eql.Change D} (hsafe : B.safe c.write)
    (hkey : c.key B ≠ B.codeKey) : c.SparesCode B := by
  intro p hp
  rw [B.place_of_safe _ p hsafe hp]
  exact fun h => hkey ((key_write c B).symm.trans h)

theorem view_writeAttempts {c : Eql.Change D} (hspares : c.SparesCode ctx.backend) (s : σ) :
    ctx.backend.view (writeAttempts ctx c.write 3 0 s).2 ctx.backend.codeKey =
      ctx.backend.view s ctx.backend.codeKey := by
  have hkeeps := Backend.write_keeps (K := ({ctx.backend.codeKey} : Set CString)ᶜ) hspares
  exact (writeAttempts_keeps hkeeps 3 0 s _ (not_not.mpr rfl)).symm

theorem view_edbPartitionEnsure {B : Backend σ D} (hreg : B.codeKey ∉ registryKeys B)
    (database partition keyspace : CString) (s : σ) :
    B.view (edbPartitionEnsure B database partition keyspace s) B.codeKey = B.view s B.codeKey :=
  (edbPartitionEnsure_keeps subset_rfl database partition keyspace s _ hreg).symm

/-- A change that no code runs for. -/
theorem replicateRecord_eq_plain {c : Eql.Change D} (h : Unattended ctx.backend s [c]) :
    replicateRecord ctx c s = replicateRecord ctx.plain c s := by
  rw [replicateRecord_plain, replicateRecord]
  dsimp only
  split
  · next hfire =>
    rcases h with hsystem | ⟨hreg, hquiet⟩
    · exact absurd (hsystem c (List.mem_singleton_self c)) hfire.2.1
    · obtain ⟨hspares, hquiet⟩ := hquiet c (List.mem_singleton_self c)
      have hview := view_writeAttempts hspares s
      -- nothing that was written has attached any code
      rw [edbLuaFire_of_quiet _ hfire.2.1]
      split
      · exact (quiet_congr ((view_edbPartitionEnsure hreg _ _ _ _).trans hview)).mpr hquiet
      · exact (quiet_congr hview).mpr hquiet
  · rfl

theorem view_replicateRecord {c : Eql.Change D} (hspares : c.SparesCode ctx.backend)
    (hreg : ctx.backend.codeKey ∉ registryKeys ctx.backend) (s : σ) :
    ctx.backend.view (replicateRecord ctx.plain c s).2 ctx.backend.codeKey =
      ctx.backend.view s ctx.backend.codeKey := by
  have hview := view_writeAttempts hspares s
  rw [replicateRecord_plain]
  dsimp only
  split
  · exact (view_edbPartitionEnsure hreg _ _ _ _).trans hview
  · exact hview

/-- Changes that no code runs for leave the others so. -/
theorem Unattended.tail {c : Eql.Change D} {cs : List (Eql.Change D)}
    (h : Unattended ctx.backend s (c :: cs)) :
    Unattended ctx.backend (replicateRecord ctx.plain c s).2 cs := by
  refine h.imp (fun h c' hc' => h c' (List.mem_cons_of_mem c hc')) fun ⟨hreg, h⟩ =>
    ⟨hreg, fun c' hc' => ?_⟩
  obtain ⟨hspares, hquiet⟩ := h c' (List.mem_cons_of_mem c hc')
  exact ⟨hspares, (quiet_congr (view_replicateRecord (h c List.mem_cons_self).1 hreg s)).mpr hquiet⟩

theorem Unattended.head {c : Eql.Change D} {cs : List (Eql.Change D)}
    (h : Unattended ctx.backend s (c :: cs)) : Unattended ctx.backend s [c] :=
  h.imp (fun h => by simpa using h c List.mem_cons_self)
    fun ⟨hreg, h⟩ => ⟨hreg, by simpa using h c List.mem_cons_self⟩

/-- A write-back that no code runs for. -/
theorem take_eq_plain {steps : List (Step D)} (r : Replay σ)
    (h : Unattended ctx.backend r.state (steps.filterMap Step.change)) :
    steps.foldl (Replay.take ctx) r = steps.foldl (Replay.take ctx.plain) r := by
  induction steps generalizing r with
  | nil => rfl
  | cons st steps ih =>
    rw [List.foldl_cons, List.foldl_cons]
    cases st with
    | send c =>
      rw [List.filterMap_cons_some (show Step.change (.send c) = some c from rfl)] at h
      have htake : Replay.take ctx r (.send c) = Replay.take ctx.plain r (.send c) := by
        rw [Replay.take, Replay.take, Replay.send, Replay.send, replicateRecord_eq_plain h.head]
      rw [htake]
      refine ih _ ?_
      -- the code is as it was, so the rest runs none either
      rw [state_take_send]
      exact h.tail
    | stale id => exact ih _ h
    | unknown => exact ih _ h

end Change

/-! ## REST requests -/

section Rest

variable {srv : Server σ D} {K : Set CString} {s s' : σ}

theorem getRecord_congr {partition keyspace : CString}
    (hkey : srv.backend.shardKey partition keyspace ∉ K)
    (hdec : SameDecisions srv.backend s s') (h : AgreeOff srv.backend.view K s s')
    (groups : UInt64) (db id : CString) :
    getRecord srv groups db partition keyspace id s =
      getRecord srv groups db partition keyspace id s' := by
  rw [getRecord, getRecord, hdec.partitionAllows, srv.backend.readGet_congr (h _ hkey)]

theorem collect_congr {partition : CString} {keyspace : Option CString}
    (haddr : ∀ k, (∀ k' ∈ keyspace, k' = k) → srv.backend.shardKey partition k ∉ K)
    (hdec : SameDecisions srv.backend s s') (h : AgreeOff srv.backend.view K s s')
    (req : DataRequest) (groups : UInt64) (op db : CString) :
    collect srv req groups op db partition keyspace s =
      collect srv req groups op db partition keyspace s' := by
  have hread : ∀ k, (∀ k' ∈ keyspace, k' = k) →
      srv.backend.readQueryMeta s db partition k = srv.backend.readQueryMeta s' db partition k ∧
        srv.backend.readIds s db partition k = srv.backend.readIds s' db partition k :=
    fun k hk => ⟨srv.backend.readQueryMeta_congr (h _ (haddr k hk)) db,
      srv.backend.readIds_congr (h _ (haddr k hk)) db⟩
  unfold collect
  rw [hdec.partitionAllows]
  cases requestFilters srv req with
  | error e => rfl
  | ok filters =>
    cases keyspace with
    | none =>
      have hall : srv.backend.readQueryMeta s db partition =
          srv.backend.readQueryMeta s' db partition := funext fun k => (hread k (by simp)).1
      simp only [partitionWideQuery, hdec.partitionKeyspaces, hall]
    | some k =>
      obtain ⟨hmeta, hids⟩ := hread k (by simp)
      simp only [hmeta, hids]

/-- Without attached code a put is its decision and its write. -/
theorem putRecord_plain (groups : UInt64) (db partition keyspace id : CString) (doc : Json D)
    (ttl : Int) (s : σ) :
    putRecord srv.plain groups db partition keyspace id doc ttl s =
      if partitionAllows srv.backend s db partition groups
          (if (srv.backend.get s partition keyspace id).isSome then .update else .create) then
        match srv.backend.write (.put db partition keyspace id doc ttl) s with
        | (.quorumLost, s) =>
          (respondError srv 503 (cstr "quorum unavailable: write rejected"), s)
        | (.localFail, s) => (respondError srv 500 (cstr "storage failed"), s)
        | (.ok, s) =>
          (⟨200, statusBody "ok" id⟩, edbPartitionEnsure srv.backend db partition keyspace s)
      else (respondError srv 403 (cstr "permission denied"), s) := by
  have hfire : ∀ event arg t, srv.plain.apiFireLua event arg t = (arg.passed, t) :=
    fun event arg t => Scripts.apiFireLua_inert
  have hstore : ∀ isUpdate t, storeRecord srv.plain groups isUpdate db partition keyspace id doc
      ttl t = match srv.backend.write (.put db partition keyspace id doc ttl) t with
        | (.quorumLost, s) =>
          (respondError srv 503 (cstr "quorum unavailable: write rejected"), s)
        | (.localFail, s) => (respondError srv 500 (cstr "storage failed"), s)
        | (.ok, s) =>
          (⟨200, statusBody "ok" id⟩,
            edbPartitionEnsure srv.backend db partition keyspace s) := by
    intro isUpdate t
    rw [storeRecord]
    simp only [hfire, ite_self]
    rfl
  rw [putRecord]
  simp only [hfire, EventArg.passed, hstore]
  rfl

/-- Without attached code a delete is its decision and its write. -/
theorem deleteRecord_plain (groups : UInt64) (db partition keyspace id : CString) (s : σ) :
    deleteRecord srv.plain groups db partition keyspace id s =
      if partitionAllows srv.backend s db partition groups .delete then
        match srv.backend.write (.delete db partition keyspace id) s with
        | (.localFail, s) => (respondError srv 500 (cstr "delete failed"), s)
        | (.quorumLost, s) =>
          (respondError srv 503 (cstr "quorum unavailable: delete rejected"), s)
        | (.ok, s) => (⟨200, statusBody "deleted" id⟩, s)
      else (respondError srv 403 (cstr "permission denied"), s) := by
  have hfire : ∀ event arg t, srv.plain.apiFireLua event arg t = (arg.passed, t) :=
    fun event arg t => Scripts.apiFireLua_inert
  rw [deleteRecord]
  simp only [hfire, EventArg.passed, ite_self]
  rfl

/-- No code runs for a record of the place. -/
def Silent (B : Backend σ D) (s : σ) (db partition keyspace : CString) : Prop :=
  db = systemDb ∨ B.codeKey ∉ registryKeys B ∧
    B.shardKey partition keyspace ≠ B.codeKey ∧ B.Quiet s db partition keyspace

omit [Doubles D] in
theorem Silent.quiet {B : Backend σ D} {db partition keyspace : CString}
    (h : Silent B s db partition keyspace) : B.Quiet s db partition keyspace :=
  h.elim .inl fun h => h.2.2

/-- None does after a write to its shard and the registration either. -/
theorem Silent.after {B : Backend σ D} {w : StoreWrite D} {db : CString}
    (hsafe : B.safe w) (h : Silent B s db w.partition w.keyspace) :
    B.Quiet (B.write w s).2 db w.partition w.keyspace ∧
      B.Quiet (edbPartitionEnsure B db w.partition w.keyspace (B.write w s).2) db w.partition
        w.keyspace := by
  rcases h with hdb | ⟨hreg, hkey, hquiet⟩
  · exact ⟨.inl hdb, .inl hdb⟩
  · have hview := (B.confined w hsafe).frame s B.codeKey (Ne.symm hkey)
    exact ⟨(quiet_congr hview).mpr hquiet,
      (quiet_congr ((view_edbPartitionEnsure hreg _ _ _ _).trans hview)).mpr hquiet⟩

/-- A put that no code runs for. -/
theorem putRecord_eq_plain {db partition keyspace : CString}
    (h : Silent srv.backend s db partition keyspace) (groups : UInt64) (id : CString)
    (doc : Json D) (ttl : Int) :
    putRecord srv groups db partition keyspace id doc ttl s =
      putRecord srv.plain groups db partition keyspace id doc ttl s := by
  have hbefore : ∀ event id value groups trusted,
      srv.apiFireLua event ⟨db, partition, keyspace, id, value, groups, trusted⟩ s =
        (⟨.ok, value, none⟩, s) := fun _ _ _ _ _ => apiFireLua_of_quiet h.quiet
  have hafter := (h.after (w := .put db partition keyspace id doc ttl)
    (srv.backend.safe_of_escaped _ rfl)).2
  rw [putRecord_plain, putRecord]
  dsimp only
  rw [hbefore]
  dsimp only
  generalize (if (srv.backend.get s partition keyspace id).isSome = true then Permission.update
    else Permission.create) = perm
  split
  · rw [storeRecord]
    revert hafter
    generalize srv.backend.write (.put db partition keyspace id doc ttl) s = r
    intro hafter
    obtain ⟨status, t⟩ := r
    cases status with
    | ok =>
      dsimp only
      by_cases hreplicated : srv.backend.replicated = true
      · rw [if_pos hreplicated]
      · rw [if_neg hreplicated, Server.apiFireLua, apiFireLua_of_quiet hafter]
    | quorumLost | localFail => rfl
  · rfl

/-- A delete that no code runs for. -/
theorem deleteRecord_eq_plain {db partition keyspace : CString}
    (h : Silent srv.backend s db partition keyspace) (groups : UInt64) (id : CString) :
    deleteRecord srv groups db partition keyspace id s =
      deleteRecord srv.plain groups db partition keyspace id s := by
  have hbefore : ∀ event id value groups trusted,
      srv.apiFireLua event ⟨db, partition, keyspace, id, value, groups, trusted⟩ s =
        (⟨.ok, value, none⟩, s) := fun _ _ _ _ _ => apiFireLua_of_quiet h.quiet
  have hafter := (h.after (w := .delete db partition keyspace id)
    (srv.backend.safe_of_escaped _ rfl)).1
  rw [deleteRecord_plain, deleteRecord]
  dsimp only
  rw [hbefore]
  dsimp only
  split
  · revert hafter
    generalize srv.backend.write (.delete db partition keyspace id) s = r
    intro hafter
    obtain ⟨status, t⟩ := r
    cases status with
    | ok =>
      dsimp only
      by_cases hreplicated : srv.backend.replicated = true
      · rw [if_pos hreplicated]
      · rw [if_neg hreplicated, Server.apiFireLua, apiFireLua_of_quiet hafter]
    | quorumLost | localFail => rfl
  · rfl

theorem putRecord_agree {partition keyspace : CString}
    (hkey : srv.backend.shardKey partition keyspace ∉ K)
    (hK : registryKeys srv.backend ⊆ K ∨ Disjoint (registryKeys srv.backend) K)
    (hdec : SameDecisions srv.backend s s') (h : AgreeOff srv.backend.view K s s')
    (groups : UInt64) (db id : CString) (doc : Json D) (ttl : Int) :
    (putRecord srv.plain groups db partition keyspace id doc ttl s).1 =
        (putRecord srv.plain groups db partition keyspace id doc ttl s').1 ∧
      AgreeOff srv.backend.view K
        (putRecord srv.plain groups db partition keyspace id doc ttl s).2
        (putRecord srv.plain groups db partition keyspace id doc ttl s').2 := by
  have hw := srv.backend.confined (.put db partition keyspace id doc ttl)
    (srv.backend.safe_of_escaped _ rfl)
  have hstatus := hw.answer_eq hkey h
  have hagree := hw.agreeOff h
  rw [putRecord_plain, putRecord_plain, hdec.partitionAllows, srv.backend.get_congr (h _ hkey)]
  revert hstatus hagree
  -- the two writes answer alike, so the two requests go on alike
  generalize srv.backend.write (.put db partition keyspace id doc ttl) s = r
  generalize srv.backend.write (.put db partition keyspace id doc ttl) s' = r'
  intro hstatus hagree
  obtain ⟨status, t⟩ := r
  obtain ⟨status', t'⟩ := r'
  obtain rfl : status = status' := hstatus
  generalize (if (srv.backend.get s' partition keyspace id).isSome = true then Permission.update
    else Permission.create) = perm
  split
  · cases status
    · exact ⟨rfl, agreeOff_edbPartitionEnsure hK _ _ _ hagree⟩
    · exact ⟨rfl, hagree⟩
    · exact ⟨rfl, hagree⟩
  · exact ⟨rfl, h⟩

theorem deleteRecord_agree {partition keyspace : CString}
    (hkey : srv.backend.shardKey partition keyspace ∉ K)
    (hdec : SameDecisions srv.backend s s') (h : AgreeOff srv.backend.view K s s')
    (groups : UInt64) (db id : CString) :
    (deleteRecord srv.plain groups db partition keyspace id s).1 =
        (deleteRecord srv.plain groups db partition keyspace id s').1 ∧
      AgreeOff srv.backend.view K (deleteRecord srv.plain groups db partition keyspace id s).2
        (deleteRecord srv.plain groups db partition keyspace id s').2 := by
  have hw := srv.backend.confined (.delete db partition keyspace id)
    (srv.backend.safe_of_escaped _ rfl)
  have hstatus := hw.answer_eq hkey h
  have hagree := hw.agreeOff h
  rw [deleteRecord_plain, deleteRecord_plain, hdec.partitionAllows]
  revert hstatus hagree
  generalize srv.backend.write (.delete db partition keyspace id) s = r
  generalize srv.backend.write (.delete db partition keyspace id) s' = r'
  intro hstatus hagree
  obtain ⟨status, t⟩ := r
  obtain ⟨status', t'⟩ := r'
  obtain rfl : status = status' := hstatus
  split
  · cases status
    · exact ⟨rfl, hagree⟩
    · exact ⟨rfl, hagree⟩
    · exact ⟨rfl, hagree⟩
  · exact ⟨rfl, h⟩

/-- What a data route comes to, in every state: an error that does not look at the store, or
the end of a handler at an address the request names. -/
inductive RouteEnd (srv : Server σ D) (req : DataRequest) :
    Route → (σ → Response × σ) → Prop where
  | error {route : Route} (r : Response) (hstatus : 400 ≤ r.status) :
      RouteEnd srv req route fun s => (r, s)
  | put {db partition keyspace id : CString} {groups : UInt64} (doc : Json D) (ttl : Int)
      (hcaller : req.caller = some groups)
      (haddr : splitDataPath req.path = some (db, partition, keyspace, id)) :
      RouteEnd srv req .put (putRecord srv groups db partition keyspace id doc ttl)
  | delete {db partition keyspace : CString} {groups : UInt64} (id : CString)
      (hcaller : req.caller = some groups)
      (haddr : restAddress .delete req.path = some (db, partition, some keyspace)) :
      RouteEnd srv req .delete (deleteRecord srv groups db partition keyspace id)
  | get {db partition keyspace : CString} {groups : UInt64} (id : CString)
      (hcaller : req.caller = some groups)
      (haddr : restAddress .collect req.path = some (db, partition, some keyspace)) :
      RouteEnd srv req .collect fun s => (getRecord srv groups db partition keyspace id s, s)
  | collect {db partition : CString} {keyspace : Option CString} {groups : UInt64}
      (op : CString) (hcaller : req.caller = some groups)
      (haddr : restAddress .collect req.path = some (db, partition, keyspace)) :
      RouteEnd srv req .collect fun s =>
        (collect srv req groups op db partition keyspace s, s)

theorem restAddress_put {path db partition keyspace id : CString}
    (h : splitDataPath path = some (db, partition, keyspace, id)) :
    restAddress .put path = some (db, partition, some keyspace) := by
  rw [restAddress, h]
  rfl

theorem handleDataPut_end (req : DataRequest) :
    RouteEnd srv req .put (handleDataPut srv req) := by
  have herror : ∀ status message, 400 ≤ status →
      RouteEnd srv req .put fun s => (respondError srv status message, s) :=
    fun _ _ hstatus => .error _ hstatus
  unfold handleDataPut
  cases hsplit : splitDataPath req.path with
  | none => exact herror _ _ (by decide)
  | some a =>
    obtain ⟨db, partition, keyspace, id⟩ := a
    dsimp only
    split
    · exact herror _ _ (by decide)
    · split
      · exact herror _ _ (by decide)
      · cases hcaller : req.caller with
        | none => exact herror _ _ (by decide)
        | some groups =>
          dsimp only
          split
          · exact herror _ _ (by decide)
          · exact .put _ _ hcaller hsplit

theorem handleDataDelete_end (req : DataRequest) :
    RouteEnd srv req .delete (handleDataDelete srv req) := by
  have herror : ∀ status message, 400 ≤ status →
      RouteEnd srv req .delete fun s => (respondError srv status message, s) :=
    fun _ _ hstatus => .error _ hstatus
  unfold handleDataDelete
  cases hsplit : splitDataPath req.path with
  | none => exact herror _ _ (by decide)
  | some a =>
    obtain ⟨db, partition, keyspace, id⟩ := a
    dsimp only
    split
    · exact herror _ _ (by decide)
    · cases hcaller : req.caller with
      | none => exact herror _ _ (by decide)
      | some groups => exact .delete id hcaller (by rw [restAddress, hsplit]; rfl)

/-- A record is read at the address of its path. -/
theorem handleDataGet_end {req : DataRequest} {work : CString}
    (hwork : dataPath req.path = some work)
    (hop : (tokens 8 work).getLast?.getD [] ∉ collectOps) :
    RouteEnd srv req .collect (handleDataGet srv req) := by
  have herror : ∀ status message, 400 ≤ status →
      RouteEnd srv req .collect fun s => (respondError srv status message, s) :=
    fun _ _ hstatus => .error _ hstatus
  unfold handleDataGet
  cases hsplit : splitDataPath req.path with
  | none => exact herror _ _ (by decide)
  | some a =>
    obtain ⟨db, partition, keyspace, id⟩ := a
    dsimp only
    split
    · exact herror _ _ (by decide)
    · cases hcaller : req.caller with
      | none => exact herror _ _ (by decide)
      | some groups =>
        refine .get id hcaller ?_
        rw [restAddress, hwork]
        dsimp only
        rw [if_neg hop, hsplit]
        rfl

theorem handleDataCollect_end (req : DataRequest) :
    RouteEnd srv req .collect (handleDataCollect srv req) := by
  have herror : ∀ status message, 400 ≤ status →
      RouteEnd srv req .collect fun s => (respondError srv status message, s) :=
    fun _ _ hstatus => .error _ hstatus
  unfold handleDataCollect
  cases hwork : dataPath req.path with
  | none => exact herror _ _ (by decide)
  | some work =>
    dsimp only
    split
    · exact herror _ _ (by decide)
    · split
      · rename_i hop
        split
        · exact handleDataGet_end hwork hop
        · exact herror _ _ (by decide)
      · rename_i hop
        cases haddr : collectAddress (tokens 8 work) with
        | none => exact herror _ _ (by decide)
        | some a =>
          obtain ⟨db, partition, keyspace⟩ := a
          cases hcaller : req.caller with
          | none => exact herror _ _ (by decide)
          | some groups =>
            -- the address of a collection is the one that the body reads
            refine .collect _ hcaller ?_
            rw [restAddress, hwork]
            dsimp only
            rw [if_pos (not_not.mp hop), haddr]

variable (srv) in
theorem handleData_end (route : Route) (req : DataRequest) :
    RouteEnd srv req route (handleData srv route req) := by
  cases route with
  | put => exact handleDataPut_end req
  | delete => exact handleDataDelete_end req
  | collect => exact handleDataCollect_end req

/-- A REST request that no code runs for. -/
theorem handleData_eq_plain {route : Route} {req : DataRequest}
    (h : route ≠ .collect → ∀ db partition keyspace,
      restAddress route req.path = some (db, partition, some keyspace) →
      Silent srv.backend s db partition keyspace) :
    handleData srv route req s = handleData srv.plain route req s := by
  cases route with
  | collect => rfl
  -- a listing fires nothing
  | put =>
    -- both handlers turn the request away alike, and where they do not, the fires are silent
    show handleDataPut srv req s = handleDataPut srv.plain req s
    unfold handleDataPut
    cases hsplit : splitDataPath req.path with
    | none => rfl
    | some a =>
      obtain ⟨db, partition, keyspace, id⟩ := a
      have hsilent := h (by decide) db partition keyspace (restAddress_put hsplit)
      dsimp only
      split
      · rfl
      · split
        · next hlocked => exact (if_pos hlocked).symm
        · next hlocked =>
          refine Eq.trans ?_ (if_neg hlocked).symm
          cases req.caller with
          | none => rfl
          | some groups =>
            dsimp only
            cases hbody : (bodyJson srv req.body).filter Json.isObject with
            | none =>
              rw [show (bodyJson srv.plain req.body).filter Json.isObject = none from hbody]
              rfl
            | some doc =>
              rw [show (bodyJson srv.plain req.body).filter Json.isObject = some doc from hbody]
              exact putRecord_eq_plain hsilent _ _ _ _
  | delete =>
    show handleDataDelete srv req s = handleDataDelete srv.plain req s
    unfold handleDataDelete
    cases hsplit : splitDataPath req.path with
    | none => rfl
    | some a =>
      obtain ⟨db, partition, keyspace, id⟩ := a
      have hsilent := h (by decide) db partition keyspace (by rw [restAddress, hsplit]; rfl)
      dsimp only
      split
      · next hlocked => exact (if_pos hlocked).symm
      · next hlocked =>
        refine Eq.trans ?_ (if_neg hlocked).symm
        cases req.caller with
        | none => rfl
        | some groups => exact deleteRecord_eq_plain hsilent _ _

/-- A REST request in two runs. -/
theorem handleData_agree {route : Route} {req : DataRequest}
    (haddr : ∀ db partition ks, restAddress route req.path = some (db, partition, ks) →
      ∀ k, (∀ k' ∈ ks, k' = k) → srv.backend.shardKey partition k ∉ K)
    (hK : registryKeys srv.backend ⊆ K ∨ Disjoint (registryKeys srv.backend) K)
    (hdec : SameDecisions srv.backend s s') (h : AgreeOff srv.backend.view K s s') :
    (handleData srv.plain route req s).1 = (handleData srv.plain route req s').1 ∧
      AgreeOff srv.backend.view K (handleData srv.plain route req s).2
        (handleData srv.plain route req s').2 := by
  have hend := handleData_end srv.plain route req
  generalize handleData srv.plain route req = f at hend ⊢
  cases hend with
  | error r => exact ⟨rfl, h⟩
  | put doc ttl _ ha =>
    exact putRecord_agree (haddr _ _ _ (restAddress_put ha) _ (by simp)) hK hdec h _ _ _ doc ttl
  | delete id _ ha => exact deleteRecord_agree (haddr _ _ _ ha _ (by simp)) hdec h _ _ id
  | get id _ ha => exact ⟨getRecord_congr (haddr _ _ _ ha _ (by simp)) hdec h _ _ id, h⟩
  | collect op _ ha => exact ⟨collect_congr (haddr _ _ _ ha) hdec h req _ op _, h⟩

/-- Off the shard it addresses, a REST request registers where it wrote, or does nothing. -/
theorem handleData_registers {route : Route} {req : DataRequest}
    (haddr : ∀ db partition ks, restAddress route req.path = some (db, partition, ks) →
      ∀ k, (∀ k' ∈ ks, k' = k) → srv.backend.shardKey partition k ∈ K)
    (hK : registryKeys srv.backend ⊆ K ∨ Disjoint (registryKeys srv.backend) K) (s : σ) :
    ∃ places, (∀ p ∈ places, restAddress route req.path = some (p.1, p.2.1, some p.2.2)) ∧
      AgreeOff srv.backend.view K (registerAll srv.backend places s)
        (handleData srv.plain route req s).2 := by
  have hnone : ∃ places, (∀ p ∈ places, restAddress route req.path =
      some (p.1, p.2.1, some p.2.2)) ∧
      AgreeOff srv.backend.view K (registerAll srv.backend places s) s :=
    ⟨[], by simp, .refl _ K s⟩
  have hend := handleData_end srv.plain route req
  generalize handleData srv.plain route req = f at hend ⊢
  cases hend with
  | error r => exact hnone
  -- what reads leaves every shard as it is
  | get id _ _ => exact hnone
  | collect op _ _ => exact hnone
  | @put db partition keyspace id groups doc ttl _ ha =>
    -- the write stays in its shard, and what is left is the registration
    have hkeep := (srv.backend.confined (.put db partition keyspace id doc ttl)
      (srv.backend.safe_of_escaped _ rfl)).keeps
      (haddr _ _ _ (restAddress_put ha) keyspace (by simp)) s
    rw [putRecord_plain]
    revert hkeep
    generalize srv.backend.write (.put db partition keyspace id doc ttl) s = r
    intro hkeep
    obtain ⟨status, t⟩ := r
    generalize (if (srv.backend.get s partition keyspace id).isSome = true then
      Permission.update else Permission.create) = perm
    split
    · cases status with
      | ok =>
        exact ⟨[(db, partition, keyspace)], by simpa using restAddress_put ha,
          agreeOff_edbPartitionEnsure hK _ _ _ hkeep⟩
      | quorumLost | localFail => exact ⟨[], by simp, hkeep⟩
    · exact hnone
  | @delete db partition keyspace groups id _ ha =>
    have hkeep := (srv.backend.confined (.delete db partition keyspace id)
      (srv.backend.safe_of_escaped _ rfl)).keeps (haddr _ _ _ ha keyspace (by simp)) s
    rw [deleteRecord_plain]
    revert hkeep
    generalize srv.backend.write (.delete db partition keyspace id) s = r
    intro hkeep
    obtain ⟨status, t⟩ := r
    split
    · cases status <;> exact ⟨[], by simp, hkeep⟩
    · exact hnone

end Rest

/-! ## Statements -/

section Statements

variable {ctx : Ctx σ D} {K : Set CString} {s s' : σ}

theorem fetchDocs_congr {t : Table}
    (hkey : ∀ ks, t.reaches ctx ks → ctx.backend.shardKey t.part ks ∉ K)
    (hdec : SameDecisions ctx.backend s s') (h : AgreeOff ctx.backend.view K s s') :
    fetchDocs ctx.backend s t = fetchDocs ctx.backend s' t := by
  have hshard : ∀ ks, t.reaches ctx ks → fetchShardDocs ctx.backend s t.db t.part ks =
      fetchShardDocs ctx.backend s' t.db t.part ks := fun ks hks => by
    rw [fetchShardDocs, fetchShardDocs, ctx.backend.readQueryMeta_congr (h _ (hkey ks hks))]
  rw [fetchDocs, fetchDocs, hdec.partitionKeyspaces]
  split
  · rename_i hpw
    rw [funext fun ks => hshard ks (.inl hpw)]
  · exact hshard t.ks (.inr (.inl rfl))

theorem materializeAll_congr {tables : List Table}
    (h : ∀ t ∈ tables, fetchDocs ctx.backend s t = fetchDocs ctx.backend s' t) :
    materializeAll ctx s tables = materializeAll ctx s' tables := by
  rw [materializeAll, materializeAll]
  generalize ({} : Materialized D) = m
  induction tables generalizing m with
  | nil => rfl
  | cons t tables ih =>
    have hnext : materializeNext ctx s m t = materializeNext ctx s' m t := by
      rw [materializeNext, materializeNext, h t List.mem_cons_self]
    rw [List.foldlM_cons, List.foldlM_cons, hnext]
    cases materializeNext ctx s' m t with
    | none => rfl
    | some m => exact ih (fun t' ht' => h t' (List.mem_cons_of_mem t ht')) m

theorem bare_mem_collectRefs {sql : CString} {t : Table} (ht : t ∈ statementTables sql) :
    t.bare ∈ collectRefs sql :=
  map_bare_statementTables sql ▸ List.mem_map_of_mem ht

/-- What a statement comes to depends on the decisions and on the shards it reaches. -/
theorem statementPlan_congr {sql : CString}
    (hkey : ∀ t ∈ collectRefs sql, ∀ ks, t.reaches ctx ks → ctx.backend.shardKey t.part ks ∉ K)
    (hdec : SameDecisions ctx.backend s s') (h : AgreeOff ctx.backend.view K s s')
    (groups : UInt64) (trusted : Bool) :
    statementPlan ctx sql groups trusted s = statementPlan ctx sql groups trusted s' := by
  have hrefused : refusal ctx sql groups trusted s = refusal ctx sql groups trusted s' := by
    have hdenied : permDenied ctx s = permDenied ctx s' := by
      funext groups trusted perm t
      rw [permDenied, permDenied, hdec.partitionAllows]
    rw [refusal, refusal, hdenied]
  have hmat : materializeAll ctx s (statementTables sql) =
      materializeAll ctx s' (statementTables sql) :=
    materializeAll_congr fun t ht => fetchDocs_congr (hkey t.bare (bare_mem_collectRefs ht)) hdec h
  rw [statementPlan, statementPlan, hrefused, hmat]

theorem plan_plain (tables : List Table) (after : List (Shadow D)) (map : List RowRec)
    (events : List Eql.Event) :
    plan ctx.plain tables after map events = plan ctx tables after map events := by
  induction events generalizing map with
  | nil => rfl
  | cons ev events ih => exact congrArg (_ ++ ·) (ih _)

/-- The code that is attached to events has no part in the plan. -/
theorem statementPlan_plain (sql : CString) (groups : UInt64) (trusted : Bool) (s : σ) :
    statementPlan ctx.plain sql groups trusted s = statementPlan ctx sql groups trusted s := by
  have hplan : plan ctx.plain = plan (σ := σ) ctx := by
    funext tables after map events
    exact plan_plain tables after map events
  rw [statementPlan, statementPlan, hplan]
  rfl

/-- A statement that no code runs for. -/
theorem edbEqlExecute_eq_plain {sql : CString} {groups : UInt64} {trusted : Bool}
    (h : Unattended ctx.backend s (statementChanges ctx sql groups trusted s)) :
    edbEqlExecute ctx sql groups trusted s = edbEqlExecute ctx.plain sql groups trusted s := by
  rw [edbEqlExecute_eq, edbEqlExecute_eq, statementPlan_plain]
  rw [statementChanges] at h
  cases hplan : statementPlan ctx sql groups trusted s with
  | error r => rfl
  | ok steps =>
    rw [hplan] at h
    dsimp only
    rw [take_eq_plain _ h]

/-- A statement in two runs. -/
theorem edbEqlExecute_agree {sql : CString} {groups : UInt64} {trusted : Bool}
    (hkey : ∀ t ∈ collectRefs sql, ∀ ks, t.reaches ctx ks → ctx.backend.shardKey t.part ks ∉ K)
    (hK : registryKeys ctx.backend ⊆ K ∨ Disjoint (registryKeys ctx.backend) K)
    (hdec : SameDecisions ctx.backend s s')
    (hsafe : ∀ c ∈ statementChanges ctx sql groups trusted s, ctx.backend.safe c.write)
    (h : AgreeOff ctx.backend.view K s s') :
    (edbEqlExecute ctx.plain sql groups trusted s).1 =
        (edbEqlExecute ctx.plain sql groups trusted s').1 ∧
      AgreeOff ctx.backend.view K (edbEqlExecute ctx.plain sql groups trusted s).2
        (edbEqlExecute ctx.plain sql groups trusted s').2 := by
  have hwithin : ∀ c ∈ statementChanges ctx sql groups trusted s,
      c.table.bare ∈ collectRefs sql ∧ c.table.reaches ctx c.ks :=
    fun c hc => statementChanges_within hc
  rw [edbEqlExecute_eq, edbEqlExecute_eq, statementPlan_plain, statementPlan_plain,
    ← statementPlan_congr hkey hdec h]
  rw [statementChanges] at hsafe hwithin
  cases hplan : statementPlan ctx sql groups trusted s with
  | error r => exact ⟨rfl, h⟩
  | ok steps =>
    rw [hplan] at hsafe hwithin
    have hsteps : ∀ c ∈ steps.filterMap Step.change,
        ctx.backend.safe c.write ∧ c.key ctx.backend ∉ K := fun c hc =>
      ⟨hsafe c hc, hkey _ (hwithin c hc).1 _ (hwithin c hc).2⟩
    obtain ⟨happlied, hfailed, hagree⟩ :=
      take_agree hsteps hK (show (⟨[], [], [], s⟩ : Replay σ).applied =
        (⟨[], [], [], s'⟩ : Replay σ).applied from rfl) rfl h
    exact ⟨by dsimp only; rw [happlied, hfailed], hagree⟩

/-- Off the shards it reaches, a statement registers where it put records. -/
theorem edbEqlExecute_registers {sql : CString} {groups : UInt64} {trusted : Bool}
    (hkey : ∀ t ∈ collectRefs sql, ∀ ks, t.reaches ctx ks → ctx.backend.shardKey t.part ks ∈ K)
    (hK : registryKeys ctx.backend ⊆ K ∨ Disjoint (registryKeys ctx.backend) K)
    (hsafe : ∀ c ∈ statementChanges ctx sql groups trusted s, ctx.backend.safe c.write) :
    ∃ places, (∀ p ∈ places, ∃ t ∈ collectRefs sql, t.db = p.1 ∧ t.part = p.2.1 ∧
        t.reaches ctx p.2.2) ∧
      AgreeOff ctx.backend.view K (registerAll ctx.backend places s)
        (edbEqlExecute ctx.plain sql groups trusted s).2 := by
  have hwithin : ∀ c ∈ statementChanges ctx sql groups trusted s,
      c.table.bare ∈ collectRefs sql ∧ c.table.reaches ctx c.ks :=
    fun c hc => statementChanges_within hc
  rw [edbEqlExecute_eq, statementPlan_plain]
  rw [statementChanges] at hsafe hwithin
  cases hplan : statementPlan ctx sql groups trusted s with
  | error r => exact ⟨[], by simp, .refl _ K s⟩
  | ok steps =>
    rw [hplan] at hsafe hwithin
    have hsteps : ∀ c ∈ steps.filterMap Step.change,
        ctx.backend.safe c.write ∧ c.key ctx.backend ∈ K := fun c hc =>
      ⟨hsafe c hc, hkey _ (hwithin c hc).1 _ (hwithin c hc).2⟩
    obtain ⟨places, hplaces, hagree⟩ :=
      take_registers hK hsteps s ⟨[], [], [], s⟩ (.refl _ K s)
    refine ⟨places, fun p hp => ?_, hagree⟩
    obtain ⟨c, hc, rfl⟩ := hplaces p hp
    exact ⟨c.table.bare, (hwithin c hc).1, rfl, rfl, (hwithin c hc).2⟩

end Statements

/-! ## Requests -/

section Requests

variable {h : Host σ D} {surface : Surface} {req : DataRequest} {K : Set CString} {s s' : σ}

/-- A statement request is refused without a look at the store, or runs its statement. -/
theorem handleEql_cases (h : Host σ D) (req : DataRequest) :
    (∃ r, 400 ≤ r.status ∧ ∀ s, handleEql h req s = (r, s)) ∨
      ∃ sql groups, requestSql h req = some sql ∧ req.caller = some groups ∧
        ∀ s, handleEql h req s =
          (respondResult h (edbEqlExecute h.ctx sql groups req.trusted s).1,
            (edbEqlExecute h.ctx sql groups req.trusted s).2) := by
  have herror : ∀ status message, 400 ≤ status →
      ∃ r, 400 ≤ r.status ∧
        ∀ s : σ, (respondError h.toServer status message, s) = (r, s) :=
    fun status message hstatus => ⟨_, hstatus, fun _ => rfl⟩
  unfold handleEql
  split
  · exact .inl (herror _ _ (by decide))
  · split
    · exact .inl (herror _ _ (by decide))
    · rename_i body hbody
      split
      · exact .inl (herror _ _ (by decide))
      · rename_i sql hsql
        split
        · exact .inl (herror _ _ (by decide))
        · rename_i groups hcaller
          refine .inr ⟨sql, groups, ?_, hcaller, fun _ => rfl⟩
          rw [requestSql, (Option.filter_eq_some_iff.mp hbody).1]
          exact hsql

theorem requestChanges_eq {sql : CString} {groups : UInt64} (hsql : requestSql h req = some sql)
    (hcaller : req.caller = some groups) (s : σ) :
    requestChanges h .eql req s = statementChanges h.ctx sql groups req.trusted s := by
  simp only [requestChanges, hsql, hcaller]

/-- A statement that is not of a class that changes rows sends nothing. -/
theorem isDml_of_mem_statementChanges {ctx : Ctx σ D} {sql : CString} {groups : UInt64}
    {trusted : Bool} {c : Eql.Change D} (hc : c ∈ statementChanges ctx sql groups trusted s) :
    (classifyStatement sql).isDml = true := by
  rw [statementChanges] at hc
  cases hplan : statementPlan ctx sql groups trusted s with
  | error r =>
    rw [hplan] at hc
    cases hc
  | ok steps =>
    obtain ⟨m, p, hcarried, -⟩ := statementPlan_eq_ok hplan
    exact hcarried.isDml

theorem handleEql_eq_plain
    (hexec : ∀ sql groups, requestSql h req = some sql → req.caller = some groups →
      edbEqlExecute h.ctx sql groups req.trusted s =
        edbEqlExecute h.ctx.plain sql groups req.trusted s) :
    handleEql h req s = handleEql h.plain req s := by
  unfold handleEql
  by_cases hlocked : h.restoreLocked = true
  · exact (if_pos hlocked).trans (if_pos hlocked).symm
  · refine (if_neg hlocked).trans (Eq.trans ?_ (if_neg hlocked).symm)
    show _ = match (bodyJson h.toServer req.body).filter Json.isObject with
      | none => _
      | some body => _
    cases hbody : (bodyJson h.toServer req.body).filter Json.isObject with
    | none => rfl
    | some body =>
      dsimp only
      cases hsql : (body.getStr (cstr "sql")).filter (· ≠ []) with
      | none => rfl
      | some sql =>
        dsimp only
        cases hcaller : req.caller with
        | none => rfl
        | some groups =>
          have hrequest : requestSql h req = some sql := by
            rw [requestSql, (Option.filter_eq_some_iff.mp hbody).1]
            exact hsql
          dsimp only
          rw [hexec sql groups hrequest hcaller]
          rfl

/-- **A request that no code runs for** is answered and carried out as if there were none. -/
theorem handle_eq_plain (hsafe : ChangesSafe h surface req s) (hun : Unscripted h surface req s) :
    handle h surface req s = handle h.plain surface req s := by
  cases surface with
  | rest route =>
    refine handleData_eq_plain fun hwrites db partition keyspace haddr => ?_
    have haddr : Addresses h (.rest route) req db partition keyspace :=
      ⟨_, haddr, fun _ hk => (Option.some.inj hk).symm⟩
    rcases hun hwrites with hsystem | ⟨hreg, hquiet⟩
    · exact .inl (hsystem db partition keyspace haddr)
    · exact .inr ⟨hreg, hquiet db partition keyspace haddr⟩
  | eql =>
    refine handleEql_eq_plain fun sql groups hsql hcaller => ?_
    have hchanges := requestChanges_eq hsql hcaller s
    refine edbEqlExecute_eq_plain ?_
    have haddr : ∀ c ∈ statementChanges h.ctx sql groups req.trusted s,
        Addresses h .eql req c.table.db c.table.part c.ks := fun c hc =>
      have hwithin := statementChanges_within hc
      ⟨sql, hsql, c.table.bare, hwithin.1, rfl, rfl, hwithin.2⟩
    by_cases hnil : statementChanges h.ctx sql groups req.trusted s = []
    · rw [hnil]
      exact .inl fun c hc => absurd hc List.not_mem_nil
    · obtain ⟨c, hc⟩ := List.exists_mem_of_ne_nil _ hnil
      -- it sends something, so it is one that writes
      rcases hun ⟨sql, hsql, isDml_of_mem_statementChanges hc⟩ with hsystem | ⟨hreg, hquiet⟩
      · exact .inl fun c hc => hsystem _ _ _ (haddr c hc)
      · refine .inr ⟨hreg, fun c hc => ?_⟩
        obtain ⟨hkey, hquiet⟩ := hquiet _ _ _ (haddr c hc)
        exact ⟨sparesCode_of_safe (hsafe c (hchanges ▸ hc)) hkey, hquiet⟩

/-- Without attached code, two states that a request cannot tell apart. -/
theorem handle_plain_agree (hkeys : Disjoint (addressedKeys h surface req) K)
    (hK : registryKeys h.backend ⊆ K ∨ Disjoint (registryKeys h.backend) K)
    (hdec : SameDecisions h.backend s s') (hsafe : ChangesSafe h surface req s)
    (hagree : AgreeOff h.backend.view K s s') :
    (handle h.plain surface req s).1 = (handle h.plain surface req s').1 ∧
      AgreeOff h.backend.view K (handle h.plain surface req s).2
        (handle h.plain surface req s').2 := by
  have hdisj := Set.disjoint_left.mp hkeys
  cases surface with
  | rest route =>
    exact handleData_agree (fun db partition ks ha k hk =>
      hdisj ⟨db, partition, k, ⟨ks, ha, hk⟩, rfl⟩) hK hdec hagree
  | eql =>
    rcases handleEql_cases h.plain req with ⟨r, -, hr⟩ | ⟨sql, groups, hsql, hcaller, hrun⟩
    · rw [handle, handle, hr, hr]
      exact ⟨rfl, hagree⟩
    · have hchanges := requestChanges_eq (h := h) hsql hcaller s
      obtain ⟨hanswer, hafter⟩ :
          (edbEqlExecute h.ctx.plain sql groups req.trusted s).1 =
              (edbEqlExecute h.ctx.plain sql groups req.trusted s').1 ∧
            AgreeOff h.backend.view K (edbEqlExecute h.ctx.plain sql groups req.trusted s).2
              (edbEqlExecute h.ctx.plain sql groups req.trusted s').2 :=
        edbEqlExecute_agree
          (fun t ht ks hks => hdisj ⟨t.db, t.part, ks, ⟨sql, hsql, t, ht, rfl, rfl, hks⟩, rfl⟩)
          hK hdec (fun c hc => hsafe c (hchanges ▸ hc)) hagree
      rw [handle, handle, hrun, hrun]
      exact ⟨congrArg (respondResult h.plain) hanswer, hafter⟩

/-- The changes of a request are the same in two states that it cannot tell apart. -/
theorem requestChanges_congr (hkeys : Disjoint (addressedKeys h surface req) K)
    (hdec : SameDecisions h.backend s s') (hagree : AgreeOff h.backend.view K s s') :
    requestChanges h surface req s = requestChanges h surface req s' := by
  cases surface with
  | rest route => rfl
  | eql =>
    cases hsql : requestSql h req with
    | none => simp only [requestChanges, hsql]
    | some sql =>
      cases hcaller : req.caller with
      | none => simp only [requestChanges, hsql, hcaller]
      | some groups =>
        rw [requestChanges_eq hsql hcaller, requestChanges_eq hsql hcaller, statementChanges,
          statementChanges]
        rw [statementPlan_congr (fun t ht ks hks hmem => Set.disjoint_left.mp hkeys
          ⟨t.db, t.part, ks, ⟨sql, hsql, t, ht, rfl, rfl, hks⟩, rfl⟩ hmem) hdec hagree]

/-- Two states that a request cannot tell apart: it gets the same answer in both, and they
are still the same to it afterwards. -/
theorem handle_agree (hkeys : Disjoint (addressedKeys h surface req) K)
    (hK : registryKeys h.backend ⊆ K ∨ Disjoint (registryKeys h.backend) K)
    (hdec : SameDecisions h.backend s s') (hsafe : ChangesSafe h surface req s)
    (hun : Unscripted h surface req s) (hun' : Unscripted h surface req s')
    (hagree : AgreeOff h.backend.view K s s') :
    (handle h surface req s).1 = (handle h surface req s').1 ∧
      AgreeOff h.backend.view K (handle h surface req s).2 (handle h surface req s').2 := by
  have hsafe' : ChangesSafe h surface req s' := by
    rw [ChangesSafe, ← requestChanges_congr hkeys hdec hagree]
    exact hsafe
  rw [handle_eq_plain hsafe hun, handle_eq_plain hsafe' hun']
  exact handle_plain_agree hkeys hK hdec hsafe hagree

/-- Off the shards it addresses, a request registers places it addresses and does nothing
else. -/
theorem handle_registers (hkeys : addressedKeys h surface req ⊆ K)
    (hK : registryKeys h.backend ⊆ K ∨ Disjoint (registryKeys h.backend) K)
    (hsafe : ChangesSafe h surface req s) (hun : Unscripted h surface req s) :
    ∃ places, (∀ p ∈ places, Addresses h surface req p.1 p.2.1 p.2.2) ∧
      AgreeOff h.backend.view K (registerAll h.backend places s) (handle h surface req s).2 := by
  rw [handle_eq_plain hsafe hun]
  cases surface with
  | rest route =>
    have haddr : ∀ db partition ks, restAddress route req.path = some (db, partition, ks) →
        ∀ k, (∀ k' ∈ ks, k' = k) → h.backend.shardKey partition k ∈ K :=
      fun db partition ks ha k hk => hkeys ⟨db, partition, k, ⟨ks, ha, hk⟩, rfl⟩
    obtain ⟨places, hplaces, hafter⟩ := handleData_registers haddr hK s
    exact ⟨places, fun p hp => ⟨_, hplaces p hp, by simp⟩, hafter⟩
  | eql =>
    rcases handleEql_cases h.plain req with ⟨r, -, hr⟩ | ⟨sql, groups, hsql, hcaller, hrun⟩
    · rw [handle, hr]
      exact ⟨[], by simp, .refl _ K s⟩
    · have hchanges := requestChanges_eq (h := h) hsql hcaller s
      have hreach : ∀ t ∈ collectRefs sql, ∀ ks, t.reaches h.ctx ks →
          h.ctx.backend.shardKey t.part ks ∈ K := fun t ht ks hks =>
        hkeys ⟨t.db, t.part, ks, ⟨sql, hsql, t, ht, rfl, rfl, hks⟩, rfl⟩
      obtain ⟨places, hplaces, hafter⟩ := edbEqlExecute_registers hreach hK
        fun c hc => hsafe c (hchanges ▸ hc)
      rw [handle, hrun]
      exact ⟨places, fun p hp => ⟨sql, hsql, hplaces p hp⟩, hafter⟩

/-- A request changes the shards it addresses and the registry, and no other. -/
theorem handle_keeps (hkeys : Disjoint (addressedKeys h surface req) K)
    (hK : Disjoint (registryKeys h.backend) K) (hsafe : ChangesSafe h surface req s)
    (hun : Unscripted h surface req s) {key : CString} (hkey : key ∈ K) :
    h.backend.view (handle h surface req s).2 key = h.backend.view s key := by
  obtain ⟨places, -, hafter⟩ := handle_registers (K := addressedKeys h surface req ∪
    registryKeys h.backend) Set.subset_union_left (.inl Set.subset_union_right) hsafe hun
  have hkey' : key ∉ addressedKeys h surface req ∪ registryKeys h.backend := by
    rintro (hmem | hmem)
    · exact Set.disjoint_left.mp hkeys hmem hkey
    · exact Set.disjoint_left.mp hK hmem hkey
  have hreg := registerAll_keeps (B := h.backend) (K := addressedKeys h surface req ∪
    registryKeys h.backend) Set.subset_union_right places s
  exact ((hreg.trans hafter) key hkey').symm

end Requests

/-! ## A small host -/

/-- A key that tells names without a colon apart. -/
def joinedKey (partition keyspace : CString) : CString := partition ++ [58] ++ keyspace

/-- An engine that takes no statement. -/
def noSqlite : Sqlite Int where
  creates _ := false
  prepare _ _ := .error []
  authError := []
  realText _ := []

/-- A host without replication, over finitely many documents. -/
def smallHost (values : List (Json Int))
    (h : ∀ v ∈ values, (cstr "\x7b\"op\"").isPrefixOf v.text = false) (sqlite : Sqlite Int) :
    Host (CString → Shard) Int where
  codec := tableCodec values h
  backend := localBackend (tableCodec values h) joinedKey 0
  compile _ := none
  restoreLocked := false
  scripts := .inert
  sqlite
  junk := []

section Small

variable {values : List (Json Int)}
  {h : ∀ v ∈ values, (cstr "\x7b\"op\"").isPrefixOf v.text = false} (sqlite : Sqlite Int)

theorem codeKey_smallHost :
    (smallHost values h sqlite).backend.codeKey ∉ registryKeys (smallHost values h sqlite).backend := by
  rintro ⟨ks, hks, hkey⟩
  have hne : ∀ ks ∈ [cfgPartitions, cfgKeyspaces],
      joinedKey systemDb ks ≠ joinedKey systemDb cfgCode := by decide +kernel
  exact hne ks hks hkey

/-- Where there are no code records there is no code for a place. -/
theorem quiet_smallHost {engine : CString → Shard}
    (hnone : ((smallHost values h sqlite).backend.all engine systemDb cfgCode).isEmpty = true)
    (db partition keyspace : CString) :
    (smallHost values h sqlite).backend.Quiet engine db partition keyspace := by
  refine .inr fun event name _ doc hdoc => ?_
  have hdoc : doc ∈ (smallHost values h sqlite).backend.all engine systemDb cfgCode := hdoc
  rw [List.isEmpty_iff.mp hnone] at hdoc
  cases hdoc

end Small

end EpsilonDB
