import EpsilonDB.Lib.Runs
import EpsilonDB.Lua.Events
import EpsilonDB.Socket.Placement

/-!
# After events of replicated writes (`api_apply_change_impl`, `apply_change_local`)

A change reaches a shard by one of two functions. The apply handler of a peer fires the
after event of every change it answers `ok`, also when the shard kept a newer row or had
the change already. The coordinator applies its own change through `apply_change_local`,
which fires nothing, and `handle_data_put` and `handle_data_delete` leave the event to it.

- `Ledger`: what fired and what was due, and what one more entry does to it.
- `hasAction`, `apiFireLua`: which handler an event runs. A handler fires when
  `edb_lua_fire` finds its code record.
- `EventNode`: a node with its code records and its ledger; `received`, `appliedLocally`.
- `OncePerChange`: on every node the handlers fired once for each change that altered the
  shard, and for no other.
- `Harmless`: the steps that keep it so, and `oncePerChange_iff`: a run keeps it exactly
  when all its steps are harmless.
- `run_writeLabels`: a replicated write takes these steps, one for every peer that handles
  it and one of the coordinator.
-/

namespace EpsilonDB

open Lua

/-! ## What is done and what is due -/

/-- Entries that were done, and entries that had to be. -/
structure Ledger (α : Type*) where
  done : List α := []
  due : List α := []

namespace Ledger

variable {α : Type*}

/-- Every entry that was due is done once, and no other is. -/
def Settled (l : Ledger α) : Prop := l.done.Nodup ∧ ∀ a, a ∈ l.done ↔ a ∈ l.due

/-- One more entry. -/
def record (l : Ledger α) (a : α) (isDone isDue : Bool) : Ledger α where
  done := if isDone then a :: l.done else l.done
  due := if isDue then a :: l.due else l.due

theorem settled_empty : ({} : Ledger α).Settled := ⟨List.nodup_nil, fun _ => Iff.rfl⟩

/-- **One entry**: a new one has to be done and due, or neither. -/
theorem Settled.record_iff {l : Ledger α} (h : l.Settled) (a : α) (isDone isDue : Bool) :
    (l.record a isDone isDue).Settled ↔
      if isDone then isDue = true ∧ a ∉ l.due else isDue = true → a ∈ l.due := by
  obtain ⟨hnodup, hmem⟩ := h
  cases isDone with
  | false =>
    show (l.done.Nodup ∧ ∀ b, b ∈ l.done ↔ b ∈ if isDue then a :: l.due else l.due) ↔ _
    cases isDue with
    | false => exact iff_of_true ⟨hnodup, hmem⟩ nofun
    | true =>
      constructor
      · rintro ⟨-, hmem'⟩ -
        exact (hmem a).mp ((hmem' a).mpr List.mem_cons_self)
      · intro hdue
        refine ⟨hnodup, fun b => (hmem b).trans ?_⟩
        rw [if_pos rfl, List.mem_cons]
        exact (or_iff_right_of_imp fun hb => hb ▸ hdue rfl).symm
  | true =>
    show ((a :: l.done).Nodup ∧ ∀ b, b ∈ a :: l.done ↔ b ∈ if isDue then a :: l.due else l.due) ↔
      isDue = true ∧ a ∉ l.due
    rw [List.nodup_cons, hmem a]
    constructor
    · rintro ⟨⟨hfresh, -⟩, hmem'⟩
      refine ⟨?_, hfresh⟩
      by_contra hdue
      rw [Bool.not_eq_true] at hdue
      subst hdue
      exact hfresh ((hmem' a).mp List.mem_cons_self)
    · rintro ⟨rfl, hfresh⟩
      refine ⟨⟨hfresh, hnodup⟩, fun b => ?_⟩
      rw [if_pos rfl, List.mem_cons, List.mem_cons, hmem b]

end Ledger

/-! ## The handler of an event -/

/-- A code record with the name of the event's action is registered. -/
def hasAction (records : List CString) (db partition keyspace : CString) (event : LuaEvent) :
    Bool :=
  (edbLuaActionName db partition keyspace event).any fun name => name ∈ records

/-- `api_fire_lua`: whether the handler of the event runs. -/
def apiFireLua (records : List CString) (event : LuaEvent) (db partition keyspace : CString) :
    Bool :=
  if db = systemDb then false else hasAction records db partition keyspace event

/-! ## The two ways a change is applied -/

/-- A change on its way through the cluster. All its copies and replays are the same one. -/
structure SentChange where
  cid : CString
  payload : ChangeDoc
  /-- the document has the boolean `lua`: a script wrote it -/
  lua : Bool := false
deriving DecidableEq

/-- A node with the names of its code records. Its ledger has the changes a handler fired
for, and those that altered a shard with the event's action registered. -/
structure EventNode where
  engine : CString → Shard
  records : List CString
  ledger : Ledger SentChange := {}

section

variable {V : Type} (parse : CString → Option V) (shardKey : CString → CString → CString)

/-- The event a change stands for: the handler asks for a live document before it applies
a put. -/
def afterEvent (now : Int) (sh : Shard) (change : Change) : LuaEvent :=
  match change.op with
  | .put _ _ => if (edbShardGetTs parse now sh change.id).isSome then .afterUpdate else .afterInsert
  | .delete => .afterDelete

/-- The change alters the shard. -/
def alters (sh : Shard) (change : Change) : Bool :=
  (applyChange sh change).lookup change.id ≠ sh.lookup change.id

namespace EventNode

/-- The shard of a change, the change and its event, when the document is well formed. -/
def decoded (n : EventNode) (now : Int) (doc : ChangeDoc) :
    Option (CString × CString × CString × Change × LuaEvent) := do
  let db ← doc.db
  let (partition, keyspace, change) ← decodeChange doc
  return (db, partition, keyspace, change,
    afterEvent parse now (n.engine (shardKey partition keyspace)) change)

/-- The action of the change's event is registered. -/
def registered (n : EventNode) (now : Int) (doc : ChangeDoc) : Bool :=
  match n.decoded parse shardKey now doc with
  | none => false
  | some (db, partition, keyspace, _, event) => hasAction n.records db partition keyspace event

/-- The change alters a shard of the node. -/
def altered (n : EventNode) (doc : ChangeDoc) : Bool :=
  match decodeChange doc with
  | none => false
  | some (partition, keyspace, change) => alters (n.engine (shardKey partition keyspace)) change

/-- A handler is due for the change: it alters a shard and the action of its event is
registered. -/
def due (n : EventNode) (now : Int) (doc : ChangeDoc) : Bool :=
  n.altered shardKey doc && n.registered parse shardKey now doc

/-- `api_apply_change_impl` behind the restore lock. -/
def received (n : EventNode) (now : Int) (c : SentChange) : EventNode :=
  let (engine, ok) := apiApplyChange shardKey n.engine c.payload
  let fires :=
    match n.decoded parse shardKey now c.payload with
    | none => false
    | some (db, partition, keyspace, _, event) =>
      ok && !c.lua && apiFireLua n.records event db partition keyspace
  { n with engine, ledger := n.ledger.record c fires (n.due parse shardKey now c.payload) }

/-- `apply_change_local`. -/
def appliedLocally (n : EventNode) (now : Int) (c : SentChange) : EventNode :=
  { n with
    engine := (applyChangeLocal shardKey n.engine c.payload).1
    ledger := n.ledger.record c false (n.due parse shardKey now c.payload) }

end EventNode

/-- No event is fired for the change: a script wrote it, or it is configuration. -/
def SentChange.exempt (c : SentChange) : Bool := c.lua || c.payload.db = some systemDb

/-! ## Runs -/

/-- A step of a cluster. The changes come in any order, and as often as they like. -/
inductive EventLabel where
  /-- the apply handler of a peer takes a change, sent or replayed -/
  | received (x : NodeId) (now : Int) (c : SentChange)
  /-- the coordinator applies its own change -/
  | appliedLocally (x : NodeId) (now : Int) (c : SentChange)
  /-- the code records of a node change -/
  | coded (x : NodeId) (records : List CString)
  /-- the cleanup pass goes over a shard -/
  | cleanup (x : NodeId) (key : CString) (now : Int)

/-- All nodes. -/
abbrev EventWorld := NodeId → EventNode

namespace EventWorld

/-- What a step makes of the nodes; none is refused. -/
def step (s : EventWorld) : EventLabel → Option EventWorld
  | .received x now c =>
    some (Function.update s x ((s x).received parse shardKey now c))
  | .appliedLocally x now c =>
    some (Function.update s x ((s x).appliedLocally parse shardKey now c))
  | .coded x records => some (Function.update s x { s x with records })
  | .cleanup x key now =>
    some (Function.update s x { s x with
      engine := Function.update (s x).engine key (edbShardCleanup now ((s x).engine key)) })

/-- **Once per change**: on every node a handler fired exactly once for each change that
altered a shard with its event's action registered, and for no other change. -/
def OncePerChange (s : EventWorld) : Prop := ∀ x, (s x).ledger.Settled

/-- A step that keeps it. Where the action of its event is registered, a change that
arrives has to be new to the node and alter the shard, and one that fires nothing must not
alter it, unless it did before. -/
def Harmless (s : EventWorld) : EventLabel → Prop
  | .received x now c =>
    (s x).registered parse shardKey now c.payload = true →
      if c.exempt then (s x).altered shardKey c.payload = true → c ∈ (s x).ledger.due
      else (s x).altered shardKey c.payload = true ∧ c ∉ (s x).ledger.due
  | .appliedLocally x now c =>
    (s x).registered parse shardKey now c.payload = true →
      (s x).altered shardKey c.payload = true → c ∈ (s x).ledger.due
  | .coded _ _ | .cleanup _ _ _ => True

end EventWorld

/-! ## What a node fires -/

variable {parse shardKey}

namespace EventNode

/-- The apply handler knows the event of every document it answers `ok`, and of no other. -/
theorem decoded_spec (parse : CString → Option V) (shardKey : CString → CString → CString)
    (n : EventNode) (now : Int) (doc : ChangeDoc) :
    match n.decoded parse shardKey now doc with
    | none => doc.accepted = false
    | some (db, _, _, _, _) => doc.accepted = true ∧ doc.db = some db := by
  unfold decoded ChangeDoc.accepted
  cases doc.db with
  | none => rfl
  | some db =>
    cases decodeChange doc with
    | none => rfl
    | some _ => exact ⟨rfl, rfl⟩

/-- What the apply handler fires. -/
theorem received_ledger (n : EventNode) (now : Int) (c : SentChange) :
    (n.received parse shardKey now c).ledger =
      n.ledger.record c (n.registered parse shardKey now c.payload && !c.exempt)
        (n.due parse shardKey now c.payload) := by
  show n.ledger.record c _ _ = _
  congr 1
  have hspec := decoded_spec parse shardKey n now c.payload
  unfold registered
  cases hdec : n.decoded parse shardKey now c.payload with
  | none => rfl
  | some e =>
    obtain ⟨db, partition, keyspace, change, event⟩ := e
    rw [hdec] at hspec
    obtain ⟨hok, hdb⟩ := hspec
    show ((apiApplyChange shardKey n.engine c.payload).2 && !c.lua &&
        apiFireLua n.records event db partition keyspace) =
      (hasAction n.records db partition keyspace event && !c.exempt)
    rw [apiApplyChange_snd, hok, SentChange.exempt, hdb, apiFireLua]
    by_cases hsys : db = systemDb
    · simp [hsys]
    · simp [hsys, Bool.and_comm]

end EventNode

/-! ## Runs that fire once per change -/

namespace EventWorld

/-- Only the node that takes a step may lose it. -/
theorem oncePerChange_update {s : EventWorld} (h : OncePerChange s) (x : NodeId)
    (n : EventNode) : OncePerChange (Function.update s x n) ↔ n.ledger.Settled := by
  constructor
  · intro h'
    have := h' x
    rwa [Function.update_self] at this
  · intro hn y
    by_cases hy : y = x
    · subst hy
      rwa [Function.update_self]
    · rw [Function.update_of_ne hy]
      exact h y

/-- **One step.** -/
theorem step_oncePerChange_iff {s s' : EventWorld} {l : EventLabel} (h : OncePerChange s)
    (hstep : step parse shardKey s l = some s') :
    OncePerChange s' ↔ Harmless parse shardKey s l := by
  cases l with
  | received x now c =>
    cases hstep
    rw [oncePerChange_update h, EventNode.received_ledger, (h x).record_iff, Harmless,
      EventNode.due]
    cases (s x).registered parse shardKey now c.payload with
    | false => simp
    | true => cases c.exempt <;> simp
  | appliedLocally x now c =>
    cases hstep
    rw [oncePerChange_update h]
    show ((s x).ledger.record c false _).Settled ↔ _
    rw [(h x).record_iff, Harmless, EventNode.due]
    cases (s x).registered parse shardKey now c.payload with
    | false => simp
    | true => simp
  | coded x records =>
    cases hstep
    exact iff_of_true ((oncePerChange_update h x _).mpr (h x)) trivial
  | cleanup x key now =>
    cases hstep
    exact iff_of_true ((oncePerChange_update h x _).mpr (h x)) trivial

/-- Nodes whose history starts. -/
def started (engines : NodeId → CString → Shard) (records : NodeId → List CString) :
    EventWorld :=
  fun x => { engine := engines x, records := records x }

/-- **Once per change, exactly**: a run fires once per change all along exactly when all
its steps are harmless. -/
theorem oncePerChange_iff (parse : CString → Option V)
    (shardKey : CString → CString → CString) (engines : NodeId → CString → Shard)
    (records : NodeId → List CString) (ls : List EventLabel) :
    Runs.Throughout (step parse shardKey) OncePerChange (started engines records) ls ↔
      Runs.Along (step parse shardKey) (Harmless parse shardKey) (started engines records)
        ls := by
  refine Runs.throughout_iff_along (fun l _ s hrefused => ?_)
    (fun l _ s s' h hstep => step_oncePerChange_iff h hstep) fun x => Ledger.settled_empty
  cases l <;> cases hrefused

end EventWorld

/-! ## A replicated write takes these steps -/

section Write

variable {w : World} {self : NodeId} {now : Int} {ans : NodeId → Delivery} {db : CString}
variable {c : SentChange} {partition keyspace : CString}

/-- The peers that handle a write. -/
def handlers (w : World) (self : NodeId) (ans : NodeId → Delivery) : List NodeId :=
  (((w self).peers.filter fun p => p.id ≠ self && p.dialable).map PeerInfo.id).filter fun x =>
    (ans x).handled

/-- The steps of `edb_repl_write`: the change arrives at the peers, then the coordinator
applies it unless the quorum is lost. -/
def writeLabels (shardKey : CString → CString → CString) (w : World) (self : NodeId)
    (now : Int) (ans : NodeId → Delivery) (db partition keyspace : CString) (c : SentChange) :
    List EventLabel :=
  (handlers w self ans).map (.received · now c) ++
    if quorumMissed (w self) ans c.payload
      ((w self).countedHolders shardKey db partition keyspace) then []
    else [.appliedLocally self now c]

theorem mem_handlers {x : NodeId} :
    x ∈ handlers w self ans ↔
      Contacted self (w self).peers x ∧ (ans x).handled = true := by
  simp only [handlers, Contacted, List.mem_filter, List.mem_map, Bool.and_eq_true,
    decide_eq_true_eq]
  constructor
  · rintro ⟨⟨p, ⟨hp, hself, hd⟩, rfl⟩, hans⟩
    exact ⟨⟨hself, p, hp, rfl, hd⟩, hans⟩
  · rintro ⟨⟨hself, p, hp, rfl, hd⟩, hans⟩
    exact ⟨⟨p, ⟨hp, hself, hd⟩, rfl⟩, hans⟩

theorem nodup_handlers (w : World) (self : NodeId) (ans : NodeId → Delivery) :
    (handlers w self ans).Nodup :=
  ((w self).nodup_peers.sublist (List.filter_sublist.map _)).filter _

variable (parse shardKey) in
/-- A change that arrives at some nodes, in any order. -/
theorem run_received (now : Int) (c : SentChange) {xs : List NodeId} (hxs : xs.Nodup)
    (s : EventWorld) :
    ∃ t, Runs.run (EventWorld.step parse shardKey) s (xs.map (.received · now c)) = some t ∧
      ∀ x, t x = if x ∈ xs then (s x).received parse shardKey now c else s x := by
  induction xs generalizing s with
  | nil => exact ⟨s, rfl, fun x => (if_neg List.not_mem_nil).symm⟩
  | cons y xs ih =>
    obtain ⟨hy, hxs⟩ := List.nodup_cons.mp hxs
    obtain ⟨t, hrun, ht⟩ :=
      ih hxs (Function.update s y ((s y).received parse shardKey now c))
    refine ⟨t, hrun, fun x => ?_⟩
    rw [ht x]
    by_cases hx : x = y
    · subst hx
      rw [if_neg hy, if_pos List.mem_cons_self, Function.update_self]
    · rw [Function.update_of_ne hx]
      simp only [List.mem_cons, hx, false_or]

/-- **A replicated write is a run of these steps**: they leave the engines it leaves. -/
theorem run_writeLabels (parse : CString → Option V) (doc : ChangeDoc)
    (hp : doc.partition = some partition) (hk : doc.keyspace = some keyspace)
    (hc : c.payload = sentDoc self doc) (s : EventWorld) (hs : ∀ x, (s x).engine = (w x).engine) :
    ∃ t, Runs.run (EventWorld.step parse shardKey) s
        (writeLabels shardKey w self now ans db partition keyspace c) = some t ∧
      ∀ x, (t x).engine = ((edbReplWrite shardKey w self now ans db doc).2 x).engine := by
  -- the peers that handle the change come first, and none of them is the coordinator
  obtain ⟨t, hrun, ht⟩ := run_received parse shardKey now c (nodup_handlers w self ans) s
  have hself : t self = s self := by
    rw [ht self, if_neg fun h => (mem_handlers.mp h).1.1 rfl]
  have hother : ∀ x, x ≠ self →
      (t x).engine = ((edbReplWrite shardKey w self now ans db doc).2 x).engine := by
    intro x hx
    rw [edbReplWrite_other hp hk hx, ht x, receive_fst, ← hc]
    simp only [mem_handlers]
    by_cases hcon : Contacted self (w self).peers x
    · by_cases hans : (ans x).handled = true
      · rw [if_pos ⟨hcon, hans⟩, if_pos hcon, if_pos hans]
        show (apiApplyChange shardKey (s x).engine c.payload).1 = _
        rw [hs x]
      · rw [if_neg fun h => hans h.2, if_pos hcon, if_neg hans, hs x]
    · rw [if_neg fun h => hcon h.1, if_neg hcon, hs x]
  have hwriter : ((edbReplWrite shardKey w self now ans db doc).2 self).engine = _ :=
    edbReplWrite_self_engine hp hk
  rw [← hc] at hwriter
  -- without a quorum the coordinator applies nothing, and its step is left out
  unfold writeLabels
  split at hwriter
  · next hlost =>
    refine ⟨t, ?_, fun x => ?_⟩
    · rw [if_pos hlost, List.append_nil]
      exact hrun
    · by_cases hx : x = self
      · rw [hx, hwriter, hself, hs self]
      · exact hother x hx
  · next hkept =>
    refine ⟨Function.update t self ((t self).appliedLocally parse shardKey now c), ?_,
      fun x => ?_⟩
    · rw [if_neg hkept, Runs.run_append_of _ hrun]
      rfl
    · by_cases hx : x = self
      · subst hx
        rw [Function.update_self, hwriter, hself, ← hs x]
        rfl
      · rw [Function.update_of_ne hx]
        exact hother x hx

/-- **A replay is one of these steps**, when the peer handles it. -/
theorem run_deliverCached (parse : CString → Option V) (shardKey : CString → CString → CString)
    (w : World) (self target : NodeId) {r : PendingRow} (d : Delivery) (now : Int)
    (hc : c.payload = r.payload) (s : EventWorld) (hs : ∀ x, (s x).engine = (w x).engine) :
    ∃ t, Runs.run (EventWorld.step parse shardKey) s
        (if d.handled then [.received target now c] else []) = some t ∧
      ∀ x, (t x).engine = ((deliverCached shardKey w self target r d).1 x).engine := by
  simp only [deliverCached_engine_eq, receive_fst]
  split
  · refine ⟨_, rfl, fun x => ?_⟩
    by_cases hx : x = target
    · subst hx
      rw [Function.update_self, Function.update_self, ← hs x, ← hc]
      rfl
    · rw [Function.update_of_ne hx, Function.update_of_ne hx, hs x]
  · refine ⟨s, rfl, fun x => ?_⟩
    rw [Function.update_eq_self, hs x]

end Write

end

/-! ## A put at its coordinator -/

/-- A put of a new record in the second 5, with the code record `d_p_k_afterInsert`. -/
def firstPut : SentChange where
  cid := cstr "a-5-1"
  payload :=
    { op := some (cstr "put")
      db := some (cstr "d")
      partition := some (cstr "p")
      keyspace := some (cstr "k")
      id := some (cstr "x")
      value := some (cstr "\x7b\"v\":1\x7d")
      ts := some 5
      origin := some (some (cstr "a")) }

/-- Its node applies it, and no handler fires. -/
theorem coordinator_fires_nothing :
    ¬ Runs.Throughout (EventWorld.step some fun _ _ => sliceBound 0) EventWorld.OncePerChange
      (EventWorld.started (fun _ _ => ∅) fun _ => [cstr "d_p_k_afterInsert"])
      [.appliedLocally (cstr "a") 5 firstPut] := by
  intro h
  obtain ⟨-, hafter⟩ := h
  obtain ⟨-, hfired⟩ := hafter (cstr "a")
  exact absurd ((hfired firstPut).mpr (by decide +kernel)) (by decide +kernel)

end EpsilonDB
