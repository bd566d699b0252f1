import EpsilonDB.Lib.Runs
import EpsilonDB.Socket.RejectedWrite
import EpsilonDB.Socket.WriteQuorum

/-!
# Catch-up against concurrent writes (`repl_catchup`, `repl_dispatch`)

A joiner takes a snapshot of a shard from another node, puts it in the place of its own
and asks its peers for the changes they cached for it. Writers go on meanwhile. A write
is here the steps of its loop, so that the joiner's steps fall between any two of them.

- `Write`, `CatchUp`: a write under way, and the joiner among all nodes.
- `CatchUp.step`: the writers (`begin` to `finish`), the replay of the caches
  (`replay`, `redeliver`, `forget`), the joiner's dispatcher, which reads the syncing flag
  (`letIn`, `redeliver`) and applies the change later (`handle`), and its catch-up thread
  (`setSyncing` to `giveUp`).
- `Ordered`: a snapshot is taken of a shard that has what the joiner acknowledged, and
  nothing is applied at the joiner until the snapshot is in place.
- `caughtUp_of_ordered`: then a catch-up loses no acknowledged change.
- `acknowledged_before_the_source_applied`: a run that is not ordered and loses one.

A renamed shard file is read once the handle on the file before it is closed, by
`edb_shard_invalidate` or earlier. Replay is not single-flight here, and a frame that a
peer gave up on may still be applied.
-/

namespace EpsilonDB

/-- A call of `edb_repl_write` under way. -/
structure Write where
  writer : NodeId
  cid : CString
  payload : ChangeDoc
  holders : List NodeId
  /-- the peers snapshot it took -/
  peers : List PeerInfo
  /-- the peers its loop has not come to -/
  left : List PeerInfo
  delivered : List NodeId := []
  acknowledgements : Nat

/-- The loop of the write has come to the joiner. -/
def Write.atJoiner (w : Write) (joiner : NodeId) : Bool :=
  match w.left with
  | [] => false
  | p :: _ => p.id = joiner && p.id ≠ w.writer && p.dialable

/-- A change on its way to the joiner. -/
structure Frame where
  cid : CString
  payload : ChangeDoc
deriving DecidableEq

/-- Where the thread in `repl_catchup` stands. -/
inductive Stage where
  | idle
  /-- syncing, the snapshot is asked for -/
  | syncing (source : NodeId) (key : CString)
  /-- the source has copied its shard -/
  | fetched (key : CString) (file : Shard)
  /-- the copy is renamed over the shard file -/
  | replaced (key : CString)
  /-- `edb_shard_invalidate` returned true -/
  | validated (key : CString)
  /-- in a round of `edb_repl_flush` -/
  | flushing (key : CString) (left : List PeerInfo) (allEmpty : Bool)
  /-- `repl_catchup` returned true -/
  | finished (key : CString)

/-- No catch-up is under way. -/
def Stage.ready : Stage → Bool
  | .idle | .finished _ => true
  | _ => false

/-- The joiner among all nodes, and the writes under way. -/
structure CatchUp where
  world : World
  joiner : NodeId
  syncing : Bool := false
  stage : Stage := .idle
  /-- shard files in place whose shard is still open on the file before -/
  renamed : CString → Option Shard := fun _ => none
  writes : List Write := []
  /-- frames the joiner's dispatcher let in and has not applied -/
  admitted : List Frame := []
  /-- frames the joiner answered with `ok: true` -/
  acked : List Frame := []

namespace CatchUp

/-- A step of a writer, of a replay, or of the joiner. -/
inductive Label where
  /-- `edb_repl_write` up to its loop -/
  | begin (x : NodeId) (now : Int) (db : CString) (doc : ChangeDoc)
  /-- the loop's next peer, unless the joiner handles the frame -/
  | exchange (i : Nat) (d : Delivery)
  /-- the joiner's dispatcher lets the frame of the write in -/
  | letIn (i : Nat)
  /-- the write gets the joiner's acknowledgement -/
  | answer (i : Nat)
  /-- the rest of `edb_repl_write` -/
  | finish (i : Nat)
  /-- `deliver_cached`, unless the joiner handles the frame -/
  | replay (x : NodeId) (r : PendingRow) (d : Delivery)
  | redeliver (x : NodeId) (r : PendingRow)
  | forget (x : NodeId) (r : PendingRow)
  /-- the joiner applies and acknowledges a frame it let in -/
  | handle (f : Frame)
  /-- the joiner's handle of a shard is closed -/
  | close (key : CString)
  | setSyncing (source : NodeId) (key : CString)
  /-- the source copies its shard -/
  | fetch
  | rename
  | invalidate (ok : Bool)
  | clearSyncing
  /-- no snapshot came -/
  | fail
  /-- a peer drained its cache for the joiner and says what is left -/
  | ask (answered : Bool)
  /-- a round of `edb_repl_flush` is over -/
  | conclude
  /-- its deadline has passed -/
  | giveUp

/-- The shard is read from the file in its place. -/
def adopt (s : CatchUp) (key : CString) : CatchUp :=
  match s.renamed key with
  | none => s
  | some file =>
    { s with
      world := Function.update s.world s.joiner
        { s.world s.joiner with
          engine := Function.update (s.world s.joiner).engine key file }
      renamed := Function.update s.renamed key none }

variable (shardKey : CString → CString → CString)

/-- A write stands before its loop. -/
def begun (s : CatchUp) (x : NodeId) (now : Int) (db : CString) (doc : ChangeDoc)
    (partition keyspace : CString) : CatchUp :=
  let n := s.world x
  let holders := n.countedHolders shardKey db partition keyspace
  { s with
    world := Function.update s.world x { n with changeSeq := n.changeSeq + 1 }
    writes := s.writes ++
      [{ writer := x
         cid := changeId x now (n.changeSeq + 1)
         payload := sentDoc x doc
         holders
         peers := n.peers
         left := n.peers
         acknowledgements := if x ∈ holders then 1 else 0 }] }

/-- The loop of a write goes past its next peer. -/
def pass (s : CatchUp) (i : Nat) (w : Write) (d : Delivery) (p : PeerInfo)
    (left : List PeerInfo) : CatchUp :=
  let sent := fanOutStep shardKey w.writer (fun _ => d) w.payload w.holders
    ⟨s.world, w.delivered, w.acknowledgements⟩ p
  { s with
    world := sent.world
    writes := s.writes.set i
      { w with
        left
        delivered := sent.delivered
        acknowledgements := sent.acknowledgements } }

/-- What a label makes of a state, when the code can take the step. -/
def step (s : CatchUp) : Label → Option CatchUp
  | .begin x now db doc =>
    match doc.partition, doc.keyspace with
    | some partition, some keyspace => some (s.begun shardKey x now db doc partition keyspace)
    | _, _ => some s
  | .exchange i d => do
    let w ← s.writes[i]?
    match w.left with
    | [] => none
    | p :: left =>
      if w.atJoiner s.joiner && d.handled then none else some (s.pass shardKey i w d p left)
  | .letIn i => do
    let w ← s.writes[i]?
    if w.atJoiner s.joiner && !s.syncing then
      some { s with admitted := s.admitted ++ [⟨w.cid, w.payload⟩] }
    else none
  | .answer i => do
    let w ← s.writes[i]?
    match w.left with
    | [] => none
    | p :: left =>
      if w.atJoiner s.joiner ∧ ⟨w.cid, w.payload⟩ ∈ s.acked then
        some { s with
          writes := s.writes.set i
            { w with
              left
              delivered := p.id :: w.delivered
              acknowledgements :=
                if p.id ∈ w.holders then w.acknowledgements + 1 else w.acknowledgements } }
      else none
  | .finish i => do
    let w ← s.writes[i]?
    if w.left.isEmpty then
      let required := w.holders.length / 2 + 1
      some { s with
        world := (finishWrite shardKey w.writer w.cid w.payload w.peers
          (decide (w.acknowledgements < required))
          ⟨s.world, w.delivered, w.acknowledgements⟩).2
        writes := s.writes.eraseIdx i }
    else none
  | .replay x r d =>
    if r ∉ (s.world x).cache.rows ∨ (s.world x).cache.isOpen = false ∨
        (r.target = s.joiner ∧ d.handled = true) then none
    else some { s with world := (deliverCached shardKey s.world x r.target r d).1 }
  | .redeliver x r =>
    if r ∈ (s.world x).cache.rows ∧ (s.world x).cache.isOpen = true ∧ r.target = s.joiner ∧
        s.syncing = false then
      some { s with admitted := s.admitted ++ [⟨r.cid, r.payload⟩] }
    else none
  | .forget x r =>
    if r ∈ (s.world x).cache.rows ∧ r.target = s.joiner ∧ ⟨r.cid, r.payload⟩ ∈ s.acked then
      some { s with
        world := Function.update s.world x
          { s.world x with cache := cacheRemove (s.world x).cache r.target r.cid } }
    else none
  | .handle f =>
    if f ∈ s.admitted then
      let n := s.world s.joiner
      let (engine, ok) := apiApplyChange shardKey n.engine f.payload
      some { s with
        world := Function.update s.world s.joiner { n with engine }
        admitted := s.admitted.erase f
        acked := if ok then f :: s.acked else s.acked }
    else none
  | .close key => some (s.adopt key)
  | .setSyncing source key =>
    if s.stage.ready then some { s with syncing := true, stage := .syncing source key } else none
  | .fetch =>
    match s.stage with
    | .syncing source key => some { s with stage := .fetched key ((s.world source).engine key) }
    | _ => none
  | .rename =>
    match s.stage with
    | .fetched key file =>
      some { s with
        stage := .replaced key
        renamed := Function.update s.renamed key (some file) }
    | _ => none
  | .invalidate ok =>
    match s.stage with
    | .replaced key =>
      if ok then some { s.adopt key with stage := .validated key }
      else some { s with syncing := false, stage := .idle }
    | _ => none
  | .clearSyncing =>
    match s.stage with
    | .validated key =>
      some { s with
        syncing := false
        stage := .flushing key (s.world s.joiner).peers true }
    | _ => none
  | .fail =>
    match s.stage with
    | .syncing _ _ | .fetched _ _ => some { s with syncing := false, stage := .idle }
    | _ => none
  | .ask answered =>
    match s.stage with
    | .flushing key (p :: left) allEmpty =>
      let pending := edbReplPendingFor (s.world p.id).cache s.joiner
      let empty :=
        if p.id = s.joiner || !p.online then true
        else p.dialable && answered && decide (pending = 0)
      some { s with stage := .flushing key left (allEmpty && empty) }
    | _ => none
  | .conclude =>
    match s.stage with
    | .flushing key [] allEmpty =>
      if allEmpty then some { s with stage := .finished key }
      else some { s with stage := .flushing key (s.world s.joiner).peers true }
    | _ => none
  | .giveUp =>
    match s.stage with
    | .flushing _ [] false => some { s with stage := .idle }
    | _ => none

/-! ## What the steps keep -/

/-- What is or will be the joiner's shard: the one it has open, the file renamed over it,
and the file fetched to be. -/
def copies (s : CatchUp) (key : CString) : List Shard :=
  (s.world s.joiner).engine key :: ((s.renamed key).toList ++
    match s.stage with
    | .fetched k file => if k = key then [file] else []
    | _ => [])

variable (shardKey : CString → CString → CString)

/-- Every copy has every change the joiner acknowledged. -/
def NoneLost (s : CatchUp) : Prop :=
  ∀ f ∈ s.acked, ∃ partition keyspace change,
    decodeChange f.payload = some (partition, keyspace, change) ∧
      ∀ sh ∈ s.copies (shardKey partition keyspace), HeldIn sh change

/-- The snapshot is taken of a shard that has what the joiner acknowledged for it, and
what the joiner applies until it is in place, it has already. -/
def Ordered (s : CatchUp) : Label → Prop
  | .fetch =>
    match s.stage with
    | .syncing source key =>
      ∀ f ∈ s.acked, ∀ x ∈ decodeChange f.payload, shardKey x.1 x.2.1 = key →
        HeldIn ((s.world source).engine key) x.2.2
    | _ => True
  | .handle f =>
    f ∈ s.admitted → f.payload.accepted = true → ∀ x ∈ decodeChange f.payload,
      ∀ file ∈ (s.copies (shardKey x.1 x.2.1)).tail, HeldIn file x.2.2
  | _ => True

/-- Once a catch-up has finished, the joiner's shards have all it acknowledged. -/
def CaughtUp (s : CatchUp) : Prop :=
  match s.stage with
  | .finished _ => ∀ f ∈ s.acked, Holds shardKey s.world f.payload s.joiner
  | _ => True

instance (s : CatchUp) (l : Label) : Decidable (s.Ordered shardKey l) :=
  match l with
  | .fetch => by
    unfold Ordered
    cases s.stage <;> infer_instance
  | .handle f => inferInstanceAs (Decidable (f ∈ s.admitted → _ → _))
  | .begin _ _ _ _ | .exchange _ _ | .letIn _ | .answer _ | .finish _ | .replay _ _ _
  | .redeliver _ _ | .forget _ _ | .close _ | .setSyncing _ _ | .rename | .invalidate _
  | .clearSyncing | .fail | .ask _ | .conclude | .giveUp => isTrue trivial

instance (s : CatchUp) : Decidable (s.CaughtUp shardKey) := by
  unfold CaughtUp
  cases s.stage <;> infer_instance

section

variable {shardKey} {s s' : CatchUp} {l : Label}

/-! ## Engines only get newer -/

/-- The loop leaves a node alone that does not handle the frame. -/
theorem fanOutStep_world_of {self x : NodeId} {d : Delivery} {payload : ChangeDoc}
    {holders : List NodeId} {p : PeerInfo} (st : FanOut)
    (h : p.id = x → p.id ≠ self → p.dialable = true → d.handled = false) :
    (fanOutStep shardKey self (fun _ => d) payload holders st p).world x = st.world x := by
  by_cases hself : p.id = self
  · rw [fanOutStep_self st hself]
  · cases hdial : p.dialable with
    | false => rw [fanOutStep_skip st hself hdial]
    | true =>
      rw [fanOutStep_contacted st hself hdial]
      show Function.update st.world p.id _ x = st.world x
      by_cases hx : p.id = x
      · subst hx
        rw [Function.update_self, receive_fst, h rfl hself hdial]
        rfl
      · exact Function.update_of_ne (Ne.symm hx) ..

/-- A delivery from a cache touches no engine but the one that handles it. -/
theorem deliverCached_engine {x target y : NodeId} {r : PendingRow} {d : Delivery} (w : World)
    (h : y = target → d.handled = false) :
    ((deliverCached shardKey w x target r d).1 y).engine = (w y).engine := by
  have hreceived : (Function.update w target (receive shardKey d (w target) r.payload).1 y).engine =
      (w y).engine := by
    by_cases hy : y = target
    · subst hy
      rw [Function.update_self, receive_fst, h rfl]
      rfl
    · rw [Function.update_of_ne hy]
  rw [deliverCached_engine_eq]
  exact hreceived

theorem below_finishWrite {self x : NodeId} {cid : CString} {payload : ChangeDoc}
    {peers : List PeerInfo} {lost : Bool} (sent : FanOut) (key : CString) :
    Below ((sent.world x).engine key)
      (((finishWrite shardKey self cid payload peers lost sent).2 x).engine key) := by
  by_cases hx : x = self
  · subst hx
    rw [finishWrite_self]
    cases lost with
    | true => exact Below.refl _
    | false => exact below_applyChangeLocal _ payload key
  · rw [finishWrite_other _ _ _ _ _ _ hx]
    exact Below.refl _

/-! ## One step -/

/-- Every copy comes from a copy that was no newer. -/
def Carried (s s' : CatchUp) : Prop :=
  ∀ key, ∀ sh' ∈ s'.copies key, ∃ sh ∈ s.copies key, Below sh sh'

theorem Carried.refl (s : CatchUp) : Carried s s := fun _ sh hsh => ⟨sh, hsh, Below.refl sh⟩

/-- The engine moved on, and no other copy was added. -/
theorem carried_of_engine
    (hengine : ∀ key, Below ((s.world s.joiner).engine key) ((s'.world s'.joiner).engine key))
    (hrest : ∀ key, (s'.copies key).tail ⊆ (s.copies key).tail) : Carried s s' := by
  intro key sh hsh
  rcases List.mem_cons.mp hsh with rfl | hsh
  · exact ⟨_, List.mem_cons_self, hengine key⟩
  · exact ⟨sh, List.mem_cons_of_mem _ (hrest key hsh), Below.refl sh⟩

theorem NoneLost.of_carried (h : s.NoneLost shardKey) (hacked : s'.acked ⊆ s.acked)
    (hc : Carried s s') : s'.NoneLost shardKey := by
  intro f hf
  obtain ⟨partition, keyspace, c, hdec, hheld⟩ := h f (hacked hf)
  refine ⟨partition, keyspace, c, hdec, fun sh' hsh' => ?_⟩
  obtain ⟨sh, hsh, hle⟩ := hc _ sh' hsh'
  exact (hheld sh hsh).mono hle

/-- Reading a shard from the file in its place adds no copy. -/
theorem carried_adopt (s : CatchUp) (key : CString) : Carried s (s.adopt key) := by
  unfold adopt
  cases hfile : s.renamed key with
  | none => exact Carried.refl s
  | some file =>
    intro k sh hsh
    by_cases hk : k = key
    · subst hk
      have hmem : file ∈ s.copies k := by
        refine List.mem_cons_of_mem _ (List.mem_append_left _ ?_)
        rw [hfile]
        exact List.mem_singleton_self file
      unfold copies at hsh
      simp only [Function.update_self, Option.toList_none, List.nil_append] at hsh
      rcases List.mem_cons.mp hsh with rfl | hsh
      · exact ⟨_, hmem, Below.refl _⟩
      · exact ⟨sh, List.mem_cons_of_mem _ (List.mem_append_right _ hsh), Below.refl sh⟩
    · unfold copies at hsh
      simp only [Function.update_self, Function.update_of_ne hk] at hsh
      exact ⟨sh, hsh, Below.refl sh⟩

theorem Carried.trans {s₁ s₂ s₃ : CatchUp} (h : Carried s₁ s₂) (h' : Carried s₂ s₃) :
    Carried s₁ s₃ := by
  intro key sh₃ hsh₃
  obtain ⟨sh₂, hsh₂, hle₂⟩ := h' key sh₃ hsh₃
  obtain ⟨sh₁, hsh₁, hle₁⟩ := h key sh₂ hsh₂
  exact ⟨sh₁, hsh₁, hle₁.trans hle₂⟩

/-- Steps of the writers and of the dispatcher only move the engine on. -/
theorem carried_of_world (s : CatchUp) {world : World} {writes : List Write}
    {admitted acked : List Frame}
    (h : ∀ key, Below ((s.world s.joiner).engine key) ((world s.joiner).engine key)) :
    Carried s { s with world, writes, admitted, acked } :=
  carried_of_engine h fun _ => List.Subset.refl _

/-- The catch-up thread adds a copy only when it fetches one. -/
theorem carried_of_stage (s : CatchUp) {syncing : Bool} {stage : Stage}
    (h : ∀ key file, stage ≠ .fetched key file) : Carried s { s with syncing, stage } := by
  refine carried_of_engine (fun key => Below.refl _) fun key => ?_
  have htail : (copies { s with syncing, stage } key).tail = (s.renamed key).toList := by
    cases stage with
    | fetched k file => exact absurd rfl (h k file)
    | _ => exact List.append_nil _
  rw [htail]
  exact List.subset_append_left ..

theorem carried_rename {key : CString} {file : Shard} (hstage : s.stage = .fetched key file) :
    Carried s { s with
      stage := .replaced key
      renamed := Function.update s.renamed key (some file) } := by
  refine carried_of_engine (fun key => Below.refl _) fun k sh hsh => ?_
  show sh ∈ (s.renamed k).toList ++ match s.stage with
    | .fetched k' file => if k' = k then [file] else []
    | _ => []
  have hsh : sh ∈ (Function.update s.renamed key (some file) k).toList ++ [] := hsh
  rw [List.append_nil] at hsh
  rw [hstage]
  by_cases hk : k = key
  · subst hk
    rw [Function.update_self] at hsh
    refine List.mem_append_right _ ?_
    show sh ∈ if k = k then [file] else []
    rw [if_pos rfl]
    exact hsh
  · rw [Function.update_of_ne hk] at hsh
    exact List.mem_append_left _ hsh

/-- The loop passes the joiner only when the joiner does not handle the frame. -/
theorem pass_engine (shardKey : CString → CString → CString) {i : Nat} {w : Write} {d : Delivery}
    {p : PeerInfo} {left : List PeerInfo} (hleft : w.left = p :: left)
    (h : (w.atJoiner s.joiner && d.handled) = false) :
    ((s.pass shardKey i w d p left).world s.joiner).engine = (s.world s.joiner).engine := by
  refine congrArg ReplNode.engine (fanOutStep_world_of _ fun hid hself hdial => ?_)
  have hat : w.atJoiner s.joiner = true := by
    unfold Write.atJoiner
    rw [hleft]
    simp only [hdial, decide_eq_true hid, decide_eq_true hself, Bool.and_self]
  rw [hat, Bool.true_and] at h
  exact h

theorem adopt_acked (s : CatchUp) (key : CString) : (s.adopt key).acked = s.acked := by
  unfold adopt
  cases s.renamed key with
  | none => rfl
  | some file => rfl

/-- **Every other step** carries the copies on and acknowledges nothing. -/
theorem carried_step (h : s.step shardKey l = some s') (hfetch : l ≠ .fetch)
    (hhandle : ∀ f, l ≠ .handle f) : Carried s s' ∧ s'.acked = s.acked := by
  cases l with
  | fetch => exact absurd rfl hfetch
  | handle f => exact absurd rfl (hhandle f)
  -- the writers: only the nodes that handle a frame apply it
  | begin x now db doc =>
    simp only [step] at h
    split at h
    · obtain rfl := Option.some.inj h
      refine ⟨carried_of_world s fun key => ?_, rfl⟩
      by_cases hx : s.joiner = x
      · subst hx
        rw [Function.update_self]
        exact Below.refl _
      · rw [Function.update_of_ne hx]
        exact Below.refl _
    · obtain rfl := Option.some.inj h
      exact ⟨Carried.refl s, rfl⟩
  | exchange i d =>
    obtain ⟨w, -, h⟩ := Option.bind_eq_some_iff.mp h
    split at h
    · cases h
    · rename_i p left hleft
      split at h
      · cases h
      · rename_i hat
        obtain rfl := Option.some.inj h
        refine ⟨carried_of_world s fun key => ?_, rfl⟩
        have hsame := pass_engine (i := i) shardKey hleft (by simpa using hat)
        exact hsame ▸ Below.refl _
  | letIn i =>
    obtain ⟨w, -, h⟩ := Option.bind_eq_some_iff.mp h
    split at h
    · obtain rfl := Option.some.inj h
      exact ⟨carried_of_world s fun key => Below.refl _, rfl⟩
    · cases h
  | answer i =>
    obtain ⟨w, -, h⟩ := Option.bind_eq_some_iff.mp h
    split at h
    · cases h
    · split at h
      · obtain rfl := Option.some.inj h
        exact ⟨carried_of_world s fun key => Below.refl _, rfl⟩
      · cases h
  | finish i =>
    obtain ⟨w, -, h⟩ := Option.bind_eq_some_iff.mp h
    split at h
    · obtain rfl := Option.some.inj h
      refine ⟨carried_of_world s fun key => ?_, rfl⟩
      exact below_finishWrite ⟨s.world, w.delivered, w.acknowledgements⟩ key
    · cases h
  | replay x r d =>
    simp only [step] at h
    split at h
    · cases h
    · rename_i hfree
      obtain rfl := Option.some.inj h
      push Not at hfree
      refine ⟨carried_of_world s fun key => ?_, rfl⟩
      have hsame : ((deliverCached shardKey s.world x r.target r d).1 s.joiner).engine =
          (s.world s.joiner).engine :=
        deliverCached_engine s.world fun htarget => by simpa using hfree.2.2 htarget.symm
      rw [hsame]
      exact Below.refl _
  | redeliver x r =>
    simp only [step] at h
    split at h
    · obtain rfl := Option.some.inj h
      exact ⟨carried_of_world s fun key => Below.refl _, rfl⟩
    · cases h
  | forget x r =>
    simp only [step] at h
    split at h
    · obtain rfl := Option.some.inj h
      refine ⟨carried_of_world s fun key => ?_, rfl⟩
      rw [update_cache_engine]
      exact Below.refl _
    · cases h
  -- the catch-up thread: between the fetch and the rename the file is one copy
  | close key =>
    obtain rfl := Option.some.inj h
    exact ⟨carried_adopt s key, adopt_acked s key⟩
  | setSyncing source key =>
    simp only [step] at h
    split at h
    · obtain rfl := Option.some.inj h
      exact ⟨carried_of_stage s (fun _ _ h => by cases h), rfl⟩
    · cases h
  | rename =>
    simp only [step] at h
    split at h
    · rename_i key file hstage
      obtain rfl := Option.some.inj h
      exact ⟨carried_rename hstage, rfl⟩
    · cases h
  | invalidate ok =>
    simp only [step] at h
    split at h
    · rename_i key hstage
      split at h
      · obtain rfl := Option.some.inj h
        exact ⟨(carried_adopt s key).trans
            (carried_of_stage (s.adopt key) (fun _ _ h => by cases h)),
          adopt_acked s key⟩
      · obtain rfl := Option.some.inj h
        exact ⟨carried_of_stage s (fun _ _ h => by cases h), rfl⟩
    · cases h
  | fail =>
    simp only [step] at h
    split at h
    iterate 2
      obtain rfl := Option.some.inj h
      exact ⟨carried_of_stage s (fun _ _ h => by cases h), rfl⟩
    cases h
  | clearSyncing | ask answered | giveUp =>
    simp only [step] at h
    split at h
    · obtain rfl := Option.some.inj h
      exact ⟨carried_of_stage s (fun _ _ h => by cases h), rfl⟩
    · cases h
  | conclude =>
    simp only [step] at h
    split at h
    · split at h
      · obtain rfl := Option.some.inj h
        exact ⟨carried_of_stage s (fun _ _ h => by cases h), rfl⟩
      · obtain rfl := Option.some.inj h
        exact ⟨carried_of_stage s (fun _ _ h => by cases h), rfl⟩
    · cases h

/-- A frame that is handled joins the acknowledged ones when it is accepted. -/
theorem handle_acked {f : Frame} (h : s.step shardKey (.handle f) = some s') :
    f ∈ s.admitted ∧
      s'.acked = if f.payload.accepted then f :: s.acked else s.acked := by
  simp only [step, apiApplyChange_snd] at h
  split at h
  · rename_i hmem
    obtain rfl := Option.some.inj h
    exact ⟨hmem, rfl⟩
  · cases h

theorem handle_copies {f : Frame} (h : s.step shardKey (.handle f) = some s') (key : CString) :
    s'.copies key =
      (apiApplyChange shardKey (s.world s.joiner).engine f.payload).1 key ::
        (s.copies key).tail := by
  simp only [step] at h
  split at h
  · obtain rfl := Option.some.inj h
    unfold copies
    simp only [Function.update_self, List.tail_cons]
  · cases h

theorem fetch_copies (h : s.step shardKey .fetch = some s') :
    ∃ source key, s.stage = .syncing source key ∧ s'.acked = s.acked ∧
      ∀ k, s'.copies k =
        s.copies k ++ if key = k then [(s.world source).engine key] else [] := by
  simp only [step] at h
  split at h
  · rename_i source key hstage
    obtain rfl := Option.some.inj h
    refine ⟨source, key, hstage, rfl, fun k => ?_⟩
    unfold copies
    rw [hstage, List.append_nil]
    rfl
  · cases h

/-- What an accepted document stands for. -/
theorem accepted_apply (shardKey : CString → CString → CString) (engine : CString → Shard)
    {doc : ChangeDoc} (h : doc.accepted = true) :
    ∃ partition keyspace c, decodeChange doc = some (partition, keyspace, c) ∧
      HeldIn ((apiApplyChange shardKey engine doc).1 (shardKey partition keyspace)) c := by
  rw [ChangeDoc.accepted, Bool.and_eq_true] at h
  obtain ⟨db, hdb⟩ := Option.isSome_iff_exists.mp h.1
  obtain ⟨⟨partition, keyspace, c⟩, hdec⟩ := Option.isSome_iff_exists.mp h.2
  refine ⟨partition, keyspace, c, hdec, ?_⟩
  unfold apiApplyChange
  rw [hdb]
  exact version_le_applyChangeLocal hdec

theorem noneLost_fetch (hs : s.NoneLost shardKey) (h : s.step shardKey .fetch = some s') :
    s'.NoneLost shardKey ↔ s.Ordered shardKey .fetch := by
  obtain ⟨source, key, hstage, hacked, hcopies⟩ := fetch_copies h
  unfold NoneLost Ordered
  simp only [hstage, hacked]
  constructor
  · intro hnew f hf x hx hkey
    obtain ⟨partition, keyspace, c, hdec, hheld⟩ := hnew f hf
    obtain rfl : (partition, keyspace, c) = x := Option.some.inj (hdec.symm.trans hx)
    refine hheld _ ?_
    rw [hcopies, if_pos hkey.symm]
    exact List.mem_append_right _ (List.mem_singleton_self _)
  · intro hordered f hf
    obtain ⟨partition, keyspace, c, hdec, hheld⟩ := hs f hf
    refine ⟨partition, keyspace, c, hdec, fun sh hsh => ?_⟩
    rw [hcopies] at hsh
    rcases List.mem_append.mp hsh with hold | hnew
    · exact hheld sh hold
    · split at hnew
      · rename_i hkey
        obtain rfl := List.mem_singleton.mp hnew
        exact hordered f hf _ hdec hkey.symm
      · cases hnew

theorem noneLost_handle {f : Frame} (hs : s.NoneLost shardKey)
    (h : s.step shardKey (.handle f) = some s') :
    s'.NoneLost shardKey ↔ s.Ordered shardKey (.handle f) := by
  obtain ⟨hmem, hacked⟩ := handle_acked h
  have hcopies := handle_copies h
  -- the engine's copy only grows, the file and the fetched bytes stay
  have hcarried : Carried s s' := by
    intro key sh hsh
    rw [hcopies] at hsh
    rcases List.mem_cons.mp hsh with rfl | hsh
    · exact ⟨_, List.mem_cons_self, below_apiApplyChange _ f.payload key⟩
    · exact ⟨sh, List.mem_of_mem_tail hsh, Below.refl sh⟩
  show s'.NoneLost shardKey ↔ (f ∈ s.admitted → _)
  cases haccepted : f.payload.accepted with
  | false =>
    rw [haccepted, if_neg Bool.false_ne_true] at hacked
    refine iff_of_true (hs.of_carried (fun g hg => hacked ▸ hg) hcarried) ?_
    intro _ htrue
    cases htrue
  | true =>
    rw [haccepted, if_pos rfl] at hacked
    obtain ⟨partition, keyspace, c, hdec, happlied⟩ :=
      accepted_apply shardKey (s.world s.joiner).engine haccepted
    constructor
    · -- now acknowledged, the frame is held by every copy, the fetched bytes among them
      rintro hnew - - x hx file hfile
      have hf : f ∈ s'.acked := hacked ▸ List.mem_cons_self
      obtain ⟨p, k, c', hdec', hheld⟩ := hnew f hf
      obtain rfl : (p, k, c') = x := Option.some.inj (hdec'.symm.trans hx)
      refine hheld file ?_
      rw [hcopies]
      exact List.mem_cons_of_mem _ hfile
    · intro hordered g hg
      rw [hacked] at hg
      rcases List.mem_cons.mp hg with rfl | hg
      · -- the frame itself: applied in the engine, and in every other copy before
        refine ⟨partition, keyspace, c, hdec, fun sh hsh => ?_⟩
        rw [hcopies] at hsh
        rcases List.mem_cons.mp hsh with rfl | hsh
        · exact happlied
        · exact hordered hmem rfl _ hdec sh hsh
      · -- an earlier frame: every copy of now carries one that held it
        obtain ⟨p, k, c', hdec', hheld⟩ := hs g hg
        refine ⟨p, k, c', hdec', fun sh' hsh' => ?_⟩
        obtain ⟨sh, hsh, hle⟩ := hcarried _ sh' hsh'
        exact (hheld sh hsh).mono hle

/-- **One step** loses nothing exactly when it is ordered. -/
theorem noneLost_step_iff (hs : s.NoneLost shardKey) (h : s.step shardKey l = some s') :
    s'.NoneLost shardKey ↔ s.Ordered shardKey l := by
  by_cases hfetch : l = .fetch
  · subst hfetch
    exact noneLost_fetch hs h
  · by_cases hhandle : ∃ f, l = .handle f
    · obtain ⟨f, rfl⟩ := hhandle
      exact noneLost_handle hs h
    · push Not at hhandle
      obtain ⟨hcarried, hacked⟩ := carried_step h hfetch hhandle
      have hordered : s.Ordered shardKey l := by
        cases l with
        | fetch => exact absurd rfl hfetch
        | handle f => exact absurd rfl (hhandle f)
        | _ => trivial
      exact iff_of_true (hs.of_carried (fun g hg => hacked ▸ hg) hcarried) hordered

/-- What cannot be done loses nothing. -/
theorem ordered_of_refused (h : s.step shardKey l = none) : s.Ordered shardKey l := by
  cases l with
  | fetch =>
    simp only [step] at h
    unfold Ordered
    cases hstage : s.stage <;> simp_all
  | handle f =>
    simp only [step] at h
    intro hmem
    rw [if_pos hmem] at h
    cases h
  | _ => trivial

/-- **A run loses nothing** exactly when its steps are ordered. -/
theorem noneLost_throughout_iff (hs : s.NoneLost shardKey) (ls : List Label) :
    Runs.Throughout (step shardKey) (NoneLost shardKey) s ls ↔
      Runs.Along (step shardKey) (Ordered shardKey) s ls :=
  Runs.throughout_iff_along (fun _ _ _ h => ordered_of_refused h)
    (fun _ _ _ _ hs h => noneLost_step_iff hs h) hs

theorem NoneLost.caughtUp (h : s.NoneLost shardKey) : s.CaughtUp shardKey := by
  unfold CaughtUp
  split
  · intro f hf
    obtain ⟨partition, keyspace, c, hdec, hheld⟩ := h f hf
    exact ⟨partition, keyspace, c, hdec, hheld _ List.mem_cons_self⟩
  · trivial

/-! ## A write nobody interrupts -/

/-- The count of the fan-out only adds up. -/
theorem foldl_fanOutStep_from {self : NodeId} {ans : NodeId → Delivery} {payload : ChangeDoc}
    {holders : List NodeId} (peers : List PeerInfo) (st : FanOut) (n : Nat) :
    peers.foldl (fanOutStep shardKey self ans payload holders)
        { st with acknowledgements := n + st.acknowledgements } =
      { peers.foldl (fanOutStep shardKey self ans payload holders) st with
        acknowledgements :=
          n + (peers.foldl (fanOutStep shardKey self ans payload holders) st).acknowledgements } := by
  induction peers generalizing st with
  | nil => rfl
  | cons p peers ih =>
    have hstep : fanOutStep shardKey self ans payload holders
        { st with acknowledgements := n + st.acknowledgements } p =
        { fanOutStep shardKey self ans payload holders st p with
          acknowledgements :=
            n + (fanOutStep shardKey self ans payload holders st p).acknowledgements } := by
      by_cases hself : p.id = self
      · simp only [fanOutStep_self _ hself]
      · cases hdial : p.dialable with
        | false => simp only [fanOutStep_skip _ hself hdial]
        | true =>
          simp only [fanOutStep_contacted _ hself hdial]
          congr 1
          split
          · exact Nat.add_assoc ..
          · rfl
    rw [List.foldl_cons, List.foldl_cons, hstep]
    exact ih _

/-- The loop of the last write, to its end. -/
theorem run_exchanges (shardKey : CString → CString → CString) (ans : NodeId → Delivery)
    {ws : List Write} (ps : List PeerInfo) {w : Write} (hwrites : s.writes = ws ++ [w])
    (hleft : w.left = ps) (hjoiner : (ans s.joiner).handled = false) :
    Runs.run (step shardKey) s (ps.map fun p => .exchange ws.length (ans p.id)) =
      let sent := ps.foldl (fanOutStep shardKey w.writer ans w.payload w.holders)
        ⟨s.world, w.delivered, w.acknowledgements⟩
      some { s with
        world := sent.world
        writes := ws ++
          [{ w with
             left := []
             delivered := sent.delivered
             acknowledgements := sent.acknowledgements }] } := by
  induction ps generalizing s w with
  | nil =>
    have hw : { w with left := [] } = w := by rw [← hleft]
    show some s = some { s with writes := ws ++ [{ w with left := [] }] }
    rw [hw, ← hwrites]
  | cons p ps ih =>
    -- no exchange of the loop reaches the joiner
    have hat : (w.atJoiner s.joiner && (ans p.id).handled) = false := by
      by_cases hid : p.id = s.joiner
      · rw [hid, hjoiner, Bool.and_false]
      · unfold Write.atJoiner
        rw [hleft]
        simp [hid]
    have hnext : s.step shardKey (.exchange ws.length (ans p.id)) =
        some (s.pass shardKey ws.length w (ans p.id) p ps) := by
      simp only [step, hwrites, List.getElem?_concat_length, Option.bind_eq_bind,
        Option.bind_some, hleft, hat, Bool.false_eq_true, if_false]
    rw [List.map_cons, Runs.run_cons _ hnext]
    let sent := fanOutStep shardKey w.writer ans w.payload w.holders
      ⟨s.world, w.delivered, w.acknowledgements⟩ p
    have hmoved : (s.pass shardKey ws.length w (ans p.id) p ps).writes = ws ++
        [{ w with
           left := ps
           delivered := sent.delivered
           acknowledgements := sent.acknowledgements }] := by
      show s.writes.set ws.length _ = _
      rw [hwrites, List.set_append_right _ _ le_rfl, Nat.sub_self]
      rfl
    exact ih hmoved rfl hjoiner

/-- **The steps of a write are the write**: without steps in between, and when the joiner
does not handle its frame, `begin` to `finish` do what `edbReplWrite` does. -/
theorem run_write (s : CatchUp) (x : NodeId) (now : Int) (ans : NodeId → Delivery)
    (db : CString) (doc : ChangeDoc) {partition keyspace : CString}
    (hp : doc.partition = some partition) (hk : doc.keyspace = some keyspace)
    (hjoiner : (ans s.joiner).handled = false) :
    Runs.run (step shardKey) s
        (.begin x now db doc ::
          (((s.world x).peers.map fun p => .exchange s.writes.length (ans p.id)) ++
            [.finish s.writes.length])) =
      some { s with world := (edbReplWrite shardKey s.world x now ans db doc).2 } := by
  have hbegin : s.step shardKey (.begin x now db doc) =
      some (s.begun shardKey x now db doc partition keyspace) := by
    simp only [step, hp, hk]
  have hloop := run_exchanges (s := s.begun shardKey x now db doc partition keyspace) shardKey
    ans (s.world x).peers rfl rfl hjoiner
  rw [Runs.run_cons _ hbegin, Runs.run_append_of _ hloop]
  -- the loop counts on from the writer's own acknowledgement, `edbReplWrite` adds it last
  have hcount : ∀ (world : World) (holders : List NodeId) (n : Nat),
      (s.world x).peers.foldl (fanOutStep shardKey x ans (sentDoc x doc) holders)
          ⟨world, [], n⟩ =
        { (s.world x).peers.foldl (fanOutStep shardKey x ans (sentDoc x doc) holders)
            ⟨world, [], 0⟩ with
          acknowledgements :=
            n + ((s.world x).peers.foldl (fanOutStep shardKey x ans (sentDoc x doc) holders)
              ⟨world, [], 0⟩).acknowledgements } :=
    fun world holders n => foldl_fanOutStep_from _ ⟨world, [], 0⟩ n
  have herase : ∀ w : Write, (s.writes ++ [w]).eraseIdx s.writes.length = s.writes := by
    intro w
    rw [List.eraseIdx_append_of_length_le le_rfl, Nat.sub_self]
    exact List.append_nil _
  unfold edbReplWrite fanOut
  simp only [Runs.run, hp, hk, step, begun, List.getElem?_concat_length, Option.bind_eq_bind,
    Option.bind_some, List.isEmpty_nil, if_true, herase]
  rw [hcount]
  rfl

end

/-- **Ordered catch-ups lose no acknowledged write.** -/
theorem caughtUp_of_ordered (s : CatchUp) (hstart : s.acked = []) (ls : List Label)
    (h : Runs.Along (step shardKey) (Ordered shardKey) s ls) :
    Runs.Throughout (step shardKey) (CaughtUp shardKey) s ls := by
  have hs : s.NoneLost shardKey := by
    intro f hf
    rw [hstart] at hf
    cases hf
  exact Runs.throughout_mono (fun _ h => h.caughtUp) ((noneLost_throughout_iff hs ls).mpr h)

/-- Node `b` in the cluster of `pairNode`, about to catch up. -/
def pairJoiner : ReplNode (cstr "b") where
  cluster := { (pairNode true true).cluster with selfId := cstr "b", selfPort := 2 }
  selfId_eq := rfl
  bounded := by decide
  databases := fun _ => some 2
  cache := ⟨true, []⟩

/-- Nodes `a` and `b` without data. -/
def pairStart : CatchUp where
  world := Function.update (worldOf (pairNode true true)) (cstr "b") pairJoiner
  joiner := cstr "b"

/-- The row that `a` caches for `b` when `b` refuses its second write. -/
def refusedRow : PendingRow :=
  ⟨cstr "b", changeId (cstr "a") 6 2, sentDoc (cstr "a") { putDoc with ts := some 6 }⟩

/-- `a` finishes a write, `b` catches up and refuses a second one, which is replayed. -/
def orderedRun : List Label :=
  [.begin (cstr "a") 5 (cstr "d") putDoc, .exchange 0 .lost, .letIn 0,
    .handle ⟨changeId (cstr "a") 5 1, sentDoc (cstr "a") putDoc⟩, .answer 0, .finish 0,
    .setSyncing (cstr "a") (sliceBound 0), .fetch,
    .begin (cstr "a") 6 (cstr "d") { putDoc with ts := some 6 }, .exchange 0 .lost,
    .exchange 0 .refused, .finish 0, .rename, .invalidate true, .clearSyncing,
    .redeliver (cstr "a") refusedRow, .handle ⟨refusedRow.cid, refusedRow.payload⟩,
    .forget (cstr "a") refusedRow, .ask true, .ask true, .conclude]

/-- Both writes are acknowledged by `b`, and `b` has them when it has caught up. -/
theorem orderedRun_caughtUp :
    (Runs.run (step fun _ _ => sliceBound 0) pairStart orderedRun).map
        (fun s => (s.acked.length, s.stage.ready)) = some (2, true) ∧
      Runs.Throughout (step fun _ _ => sliceBound 0) (CaughtUp fun _ _ => sliceBound 0)
        pairStart orderedRun :=
  ⟨by decide +kernel, caughtUp_of_ordered _ pairStart rfl orderedRun (by decide +kernel)⟩

/-- `b` acknowledges the write of `a`, copies the shard of `a`, and `a` applies last. -/
def racingRun : List Label :=
  [.begin (cstr "a") 5 (cstr "d") putDoc, .exchange 0 .lost, .letIn 0,
    .handle ⟨changeId (cstr "a") 5 1, sentDoc (cstr "a") putDoc⟩,
    .setSyncing (cstr "a") (sliceBound 0), .fetch, .rename, .invalidate true, .clearSyncing,
    .answer 0, .finish 0, .ask true, .ask true, .conclude]

/-- The write is accepted and acknowledged, its cache is empty, and `b` does not have it. -/
theorem acknowledged_before_the_source_applied :
    ¬ Runs.Throughout (step fun _ _ => sliceBound 0) (CaughtUp fun _ _ => sliceBound 0)
      pairStart racingRun := by
  decide +kernel

end CatchUp

end EpsilonDB
