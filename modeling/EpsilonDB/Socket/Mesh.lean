import EpsilonDB.Lib.Runs
import EpsilonDB.Socket.Membership

/-!
# The mesh of nodes

All nodes, the states they have sent, and what each thread has under way between two
critical sections. A step is one critical section of one node. Any state that was sent may
arrive anywhere, in any order, any number of times, or never.

- `Member`, `LocalOp`: the state of node `x`, and the operations that keep it one.
- `Mesh`, `Label`, `Mesh.step`: the mesh and its steps. `Mesh.move` names the acting node
  and its operation, and refuses a step that cannot happen.
- `Event`, `Mesh.history`: publications, compliance reports, promotions and re-shardings,
  newest first.
- `Mesh.Known`: what some node or some sent state says.
- `known_step`: a step spreads what is known, and can add what `Mesh.Adds` lists.
-/

namespace EpsilonDB

/-- The state of node `x`. -/
structure Member (x : NodeId) where
  cluster : Cluster
  selfId_eq : cluster.selfId = x
  bounded : cluster.peers.rows.length ≤ maxPeers
  gens : cluster.GensNonneg

/-- An operation on the locked state: it keeps the identity, the bound of the table and the
sign of the generations. -/
structure LocalOp where
  run : Cluster → Cluster
  selfId_run : ∀ cl, (run cl).selfId = cl.selfId
  bounded_run : ∀ cl, cl.peers.rows.length ≤ maxPeers → (run cl).peers.rows.length ≤ maxPeers
  gens_run : ∀ cl, cl.GensNonneg → (run cl).GensNonneg

def Member.apply {x : NodeId} (m : Member x) (op : LocalOp) : Member x where
  cluster := op.run m.cluster
  selfId_eq := (op.selfId_run m.cluster).trans m.selfId_eq
  bounded := op.bounded_run m.cluster m.bounded
  gens := op.gens_run m.cluster m.gens

/-! ## The operations -/

namespace LocalOp

def idle : LocalOp := ⟨id, fun _ => rfl, fun _ h => h, fun _ h => h⟩

def receive (now : Int) (id : NodeId) (doc : StateDoc) : LocalOp where
  run := fun cl => (receiveState now cl id doc).1
  selfId_run := fun cl => mergeState_selfId now cl doc
  bounded_run := fun cl h => by
    show ((mergeState now cl doc).1.peers.modify id _).rows.length ≤ maxPeers
    rw [PeerTable.length_modify]
    exact mergeState_bounded now doc h
  gens_run := fun _ h =>
    have hmerged := mergeState_gens now doc h
    ⟨hmerged.live, hmerged.target⟩

def absorb (now : Int) (doc : StateDoc) : LocalOp where
  run := fun cl => (absorbState now cl doc).1
  selfId_run := fun cl => mergeState_selfId now cl doc
  bounded_run := fun _ h => mergeState_bounded now doc h
  gens_run := fun _ h =>
    have hmerged := mergeState_gens now doc h
    ⟨hmerged.live, hmerged.target⟩

def hello (now : Int) (h : HelloDoc) : LocalOp where
  run := fun cl => (acceptHello now cl h).1
  selfId_run := fun cl => by
    unfold acceptHello
    split
    · rfl
    · exact (adopts now _ h).selfId.trans (clearTombstone_frame cl h).2.1
  bounded_run := fun cl hlen => by
    unfold acceptHello
    split
    · exact hlen
    · exact (adopts now _ h).length ((clearTombstone_frame cl h).2.2.2.trans_le hlen)
  gens_run := fun cl hgens => by
    obtain ⟨hlive, htarget⟩ := hgens
    have hwithin := acceptHello_within now cl h
    refine ⟨hlive.trans_eq hwithin.live.1.symm, ?_⟩
    rcases hwithin.target with ⟨heq, -⟩ | hzero
    · exact htarget.trans_eq heq.symm
    · exact hzero.ge

def register (id : NodeId) : LocalOp where
  run := fun cl => registerConn cl id
  selfId_run := fun _ => rfl
  bounded_run := fun cl h => (PeerTable.length_modify cl.peers id _).trans_le h
  gens_run := fun _ h => ⟨h.live, h.target⟩

def drop (id : NodeId) : LocalOp where
  run := fun cl => (dropConn cl id).1
  selfId_run := fun _ => rfl
  bounded_run := fun cl h => (PeerTable.length_modify cl.peers id _).trans_le h
  gens_run := fun _ h => ⟨h.live, h.target⟩

theorem gens_shrunk {cl cl' : Cluster} (hshrunk : Shrunk cl cl') (h : cl.GensNonneg) :
    cl'.GensNonneg := by
  refine ⟨?_, hshrunk.target.ge⟩
  rcases hshrunk.live with ⟨hgen, -⟩ | hto
  · exact h.live.trans_eq hgen.symm
  · have hlive := h.live
    have hgen := hto.generation
    omega

def shrink : LocalOp where
  run := teardownShrink
  selfId_run := fun cl => (teardownShrink_sameFlags cl).selfId
  bounded_run := fun cl h => (teardownShrink_sameFlags cl).length.trans_le h
  gens_run := fun cl h => gens_shrunk (shrunk_teardownShrink cl) h

def expire (now : Int) : LocalOp where
  run := removeExpired now
  selfId_run := fun cl => by
    rcases removeExpired_sameFlags now cl with heq | hflags
    · rw [heq]
    · exact hflags.selfId
  bounded_run := fun cl h => by
    rcases removeExpired_sameFlags now cl with heq | hflags
    · rwa [heq]
    · rw [hflags.length]
      exact (PeerTable.length_update cl.peers _).trans_le h
  gens_run := fun cl h => by
    rcases removeExpired_cases now cl with heq | ⟨-, heq⟩
    · rwa [heq]
    · rw [heq]
      exact gens_shrunk (shrunk_shrinkLiveLocked now _) ⟨h.live, h.target⟩

def remove (now : Int) (id : NodeId) : LocalOp where
  run := fun cl => (edbClusterRemoveNode now cl id).1
  selfId_run := fun cl => by
    rcases edbClusterRemoveNode_sameFlags_or now cl id with heq | hflags
    · rw [heq]
    · exact hflags.selfId
  bounded_run := fun cl h => by
    rcases edbClusterRemoveNode_sameFlags_or now cl id with heq | hflags
    · rwa [heq]
    · rw [hflags.length]
      exact (PeerTable.length_modify cl.peers id _).trans_le h
  gens_run := fun cl h => by
    rcases edbClusterRemoveNode_cases now cl id with heq | heq | ⟨-, heq⟩
    · rwa [heq]
    · rw [heq]
      exact ⟨h.live, h.target⟩
    · rw [heq]
      exact gens_shrunk (shrunk_shrinkLiveLocked now _) ⟨h.live, h.target⟩

def publish : LocalOp where
  run := fun cl => (edbClusterPublishTarget cl).1
  selfId_run := fun cl => (edbClusterPublishTarget_sameFlags cl).selfId
  bounded_run := fun cl h => (edbClusterPublishTarget_sameFlags cl).length.trans_le h
  gens_run := fun cl h => by
    have hlive := h.live
    have htarget := h.target
    rcases edbClusterPublishTarget_cases cl with heq | ⟨-, heq⟩
    · rwa [heq]
    · rw [heq]
      refine ⟨hlive, ?_⟩
      show 0 ≤ if 0 < cl.targetGeneration then cl.targetGeneration + 1 else cl.generation + 1
      split <;> omega

def mark : LocalOp where
  run := edbClusterMarkCompliant
  selfId_run := fun cl => (edbClusterMarkCompliant_sameFlags cl).selfId
  bounded_run := fun cl h => (edbClusterMarkCompliant_sameFlags cl).length.trans_le h
  gens_run := fun cl h => by
    unfold edbClusterMarkCompliant
    dsimp only
    split
    · exact h
    · exact ⟨h.live, h.target⟩

def commit (now : Int) : LocalOp where
  run := fun cl => (promoteCommit now cl).1
  selfId_run := fun cl => (promoteCommit_sameFlags now cl).selfId
  bounded_run := fun cl h => (promoteCommit_sameFlags now cl).length.trans_le h
  gens_run := fun cl h => by
    unfold promoteCommit
    split
    · show (clearDone (promoteTargetLocked now cl)).GensNonneg
      unfold clearDone promoteTargetLocked
      split
      · exact ⟨h.live, h.target⟩
      · exact ⟨h.target, le_rfl⟩
    · exact h

def void : LocalOp where
  run := fun cl => (edbClusterVoidTarget cl).1
  selfId_run := fun cl => (edbClusterVoidTarget_sameFlags cl).selfId
  bounded_run := fun cl h => (edbClusterVoidTarget_sameFlags cl).length.trans_le h
  gens_run := fun cl h => by
    unfold edbClusterVoidTarget
    split
    · exact ⟨h.live, le_rfl⟩
    · exact h

/-- The snapshot of the settings keyspace that a joining node takes from its seed. -/
def catchUp (seed : Cluster) : LocalOp where
  run := fun cl => { cl with settingDone := seed.settingDone, settingLock := seed.settingLock }
  selfId_run := fun _ => rfl
  bounded_run := fun _ h => h
  gens_run := fun _ h => ⟨h.live, h.target⟩

end LocalOp

/-! ## The mesh -/

/-- What the development remembers of a run. -/
inductive Event where
  | published (node : NodeId) (gen : Int) (table : List RangeInfo)
  | marked (node : NodeId) (gen : Int) (pending : Option (List RangeInfo))
  | promoted (node : NodeId) (gen : Int) (table : List RangeInfo)
  | resharded (node : NodeId) (gen : Int) (old new : List RangeInfo)
deriving DecidableEq

/-- All nodes, the sent states, the promotions decided and the connections lost by a leader
but not yet acted on, and the events so far. -/
structure Mesh where
  node : ∀ x, Member x
  sent : List Cluster := []
  decided : List (NodeId × Int) := []
  hangups : List NodeId := []
  history : List Event := []

inductive Label where
  | gossip (x : NodeId)
  | receive (x id : NodeId) (k : Nat) (now : Int)
  | absorb (x : NodeId) (k : Nat) (now : Int)
  | hello (x : NodeId) (h : HelloDoc) (now : Int)
  | register (x id : NodeId)
  | drop (x id : NodeId)
  | shrink (x : NodeId)
  | expire (x : NodeId) (now : Int)
  | remove (x id : NodeId) (now : Int)
  | publish (x : NodeId)
  | mark (x : NodeId)
  | check (x : NodeId)
  | commit (x : NodeId) (gen now : Int)
  | void (x : NodeId)
  | catchUp (x seed : NodeId)
deriving DecidableEq

namespace Mesh

/-- The locked state of node `x`. -/
def cluster (w : Mesh) (x : NodeId) : Cluster := (w.node x).cluster

/-- The acting node and its operation. -/
def move (w : Mesh) : Label → Option (NodeId × LocalOp)
  | .gossip x => some (x, .idle)
  | .receive x id k now => (w.sent[k]?).map fun s => (x, .receive now id (stateToJson s))
  | .absorb x k now => (w.sent[k]?).map fun s => (x, .absorb now (stateToJson s))
  | .hello x h now => some (x, .hello now h)
  | .register x id => some (x, .register id)
  | .drop x id => some (x, .drop id)
  | .shrink x => if x ∈ w.hangups then some (x, .shrink) else none
  | .expire x now => some (x, .expire now)
  | .remove x id now => some (x, .remove now id)
  | .publish x => some (x, .publish)
  | .mark x => some (x, .mark)
  | .check x => if edbClusterTargetCompliant (w.cluster x) then some (x, .idle) else none
  | .commit x gen now => if (x, gen) ∈ w.decided then some (x, .commit now) else none
  | .void x => some (x, .void)
  | .catchUp x seed => some (x, .catchUp (w.cluster seed))

/-- The table a compliance report is made under. -/
def pendingTable (cl : Cluster) : Option (List RangeInfo) :=
  if cl.targetGeneration = 0 then none else some cl.targetRanges

/-- A live table re-sharded in place, after its generation `gen`. -/
def reshardings (x : NodeId) (cl cl' : Cluster) : List Event :=
  if cl'.generation = cl.generation then []
  else [.resharded x cl.generation cl.ranges cl'.ranges]

/-- The events of a step. -/
def events (w : Mesh) : Label → List Event
  | .publish x =>
    let r := edbClusterPublishTarget (w.cluster x)
    if r.2 then [.published x r.1.targetGeneration r.1.targetRanges] else []
  | .mark x =>
    let cl := w.cluster x
    if markGeneration cl = 0 then [] else [.marked x (markGeneration cl) (pendingTable cl)]
  | .commit x _ now =>
    let cl := w.cluster x
    if (promoteCommit now cl).2 then [.promoted x cl.targetGeneration cl.targetRanges] else []
  | .shrink x => reshardings x (w.cluster x) (teardownShrink (w.cluster x))
  | .expire x now => reshardings x (w.cluster x) (removeExpired now (w.cluster x))
  | .remove x id now => reshardings x (w.cluster x) (edbClusterRemoveNode now (w.cluster x) id).1
  | _ => []

/-- One step. -/
def step (w : Mesh) (l : Label) : Option Mesh :=
  (w.move l).map fun m =>
    { node := Function.update w.node m.1 ((w.node m.1).apply m.2)
      sent := match l with
        | .gossip x => w.cluster x :: w.sent
        | _ => w.sent
      decided := match l with
        | .check x => (x, (w.cluster x).targetGeneration) :: w.decided
        | .commit x gen _ => w.decided.erase (x, gen)
        | _ => w.decided
      hangups := match l with
        | .drop x id => if (dropConn (w.cluster x) id).2 then x :: w.hangups else w.hangups
        | .shrink x => w.hangups.erase x
        | _ => w.hangups
      history := w.events l ++ w.history }

/-- Every node at its first start, on its own. -/
def start (addr : NodeId → CString) (port : NodeId → Int) (now : Int) : Mesh where
  node := fun x =>
    { cluster := edbClusterStart x (addr x) (port x) now
      selfId_eq := (alone_edbClusterStart ..).selfId
      bounded := (alone_edbClusterStart ..).length.trans (by decide)
      gens := by
        have halone := alone_edbClusterStart x (addr x) (port x) now
        constructor
        · rcases halone.live with ⟨hgen, -⟩ | ⟨hgen, -⟩
          · exact hgen.ge
          · exact hgen.ge.trans' Int.one_nonneg
        · exact halone.target.ge }

/-! ## What is known -/

/-- Some node or some sent state says it. -/
def Known (w : Mesh) (φ : Fact) : Prop :=
  (∃ x, (w.cluster x).knows φ) ∨ ∃ s ∈ w.sent, s.knows φ

/-- The live table of `cl'` is a re-sharding of `cl`. -/
def Reshards (cl cl' : Cluster) (φ : Fact) : Prop :=
  ReshardsTo cl cl' ∧ φ = .live cl'.generation cl'.ranges

/-- What a step can add to what is known. -/
def Adds (w : Mesh) (φ : Fact) : Label → Prop
  | .publish x =>
    (edbClusterPublishTarget (w.cluster x)).2 = true ∧
      φ = .target (edbClusterPublishTarget (w.cluster x)).1.targetGeneration
        (buildSlices (onlineIds (w.cluster x)))
  | .mark x =>
    markGeneration (w.cluster x) ≠ 0 ∧ φ = .compliant x (markGeneration (w.cluster x))
  | .commit x _ now =>
    (promoteCommit now (w.cluster x)).2 = true ∧
      φ = .live (w.cluster x).targetGeneration (w.cluster x).targetRanges
  | .shrink x => Reshards (w.cluster x) (teardownShrink (w.cluster x)) φ
  | .expire x now =>
    leaderIsSelfLocked (w.cluster x) = true ∧
      Reshards (tombstoneExpired now (w.cluster x)) (removeExpired now (w.cluster x)) φ
  | .remove x id now =>
    leaderIsSelfLocked (w.cluster x) = true ∧
      Reshards (tombstone (w.cluster x) id) (edbClusterRemoveNode now (w.cluster x) id).1 φ
  | _ => False

/-- The events a step can make, and when. -/
inductive Records (w : Mesh) : Label → List Event → Prop where
  | none {l} : Records w l []
  | published {x} (hnew : (edbClusterPublishTarget (w.cluster x)).2 = true) :
    Records w (.publish x) [.published x (edbClusterPublishTarget (w.cluster x)).1.targetGeneration
      (edbClusterPublishTarget (w.cluster x)).1.targetRanges]
  | marked {x} (hgen : markGeneration (w.cluster x) ≠ 0) :
    Records w (.mark x) [.marked x (markGeneration (w.cluster x)) (pendingTable (w.cluster x))]
  | promoted {x gen now} (hflag : (promoteCommit now (w.cluster x)).2 = true) :
    Records w (.commit x gen now)
      [.promoted x (w.cluster x).targetGeneration (w.cluster x).targetRanges]
  | resharded {l x gen old new} : Records w l [.resharded x gen old new]

variable {w w' : Mesh} {l : Label}

theorem records_reshardings (x : NodeId) (cl cl' : Cluster) :
    w.Records l (reshardings x cl cl') := by
  unfold reshardings
  split
  · exact .none
  · exact .resharded

variable (w l) in
theorem records_events : w.Records l (w.events l) := by
  cases l with
  | publish x =>
    by_cases hnew : (edbClusterPublishTarget (w.cluster x)).2 = true
    · have heq : w.events (.publish x) = [_] := if_pos hnew
      exact heq ▸ .published hnew
    · have heq : w.events (.publish x) = [] := if_neg hnew
      exact heq ▸ .none
  | mark x =>
    by_cases hgen : markGeneration (w.cluster x) = 0
    · have heq : w.events (.mark x) = [] := if_pos hgen
      exact heq ▸ .none
    · have heq : w.events (.mark x) = [_] := if_neg hgen
      exact heq ▸ .marked hgen
  | commit x gen now =>
    by_cases hflag : (promoteCommit now (w.cluster x)).2 = true
    · have heq : w.events (.commit x gen now) = [_] := if_pos hflag
      exact heq ▸ .promoted hflag
    · have heq : w.events (.commit x gen now) = [] := if_neg hflag
      exact heq ▸ .none
  | shrink x => exact records_reshardings _ _ _
  | expire x now => exact records_reshardings _ _ _
  | remove x id now => exact records_reshardings _ _ _
  | _ => exact .none

/-- A re-sharding that makes a live table is an event. -/
theorem mem_reshardings {cl₀ cl cl' : Cluster} (x : NodeId)
    (hgen : cl₀.generation = cl.generation) (hto : ReshardsTo cl₀ cl') :
    Event.resharded x cl.generation cl.ranges cl'.ranges ∈ reshardings x cl cl' := by
  have hchanged : cl'.generation ≠ cl.generation := by
    rw [hto.generation, hgen]
    omega
  unfold reshardings
  rw [if_neg hchanged]
  exact List.mem_cons_self

/-- What a step adds fits, when what was known does. -/
theorem fits_of_adds (hfit : ∀ φ, w.Known φ → φ.Fits) {φ : Fact} (hφ : w.Adds φ l) :
    φ.Fits := by
  have hreshard : ∀ {cl cl' : Cluster}, cl.peers.rows.length ≤ maxPeers →
      Reshards cl cl' φ → φ.Fits := by
    rintro cl cl' hlen ⟨hto, rfl⟩
    rw [hto.ranges]
    exact fits_onlineSlices hlen
  cases l with
  | publish x =>
    obtain ⟨-, rfl⟩ := hφ
    exact fits_onlineSlices (w.node x).bounded
  | mark x =>
    obtain ⟨-, rfl⟩ := hφ
    trivial
  | commit x gen now =>
    obtain ⟨hflag, rfl⟩ := hφ
    exact hfit (.target _ _) (Or.inl ⟨x, pending_of_promoteCommit hflag, rfl, rfl⟩)
  | shrink x => exact hreshard (w.node x).bounded hφ
  | expire x now =>
    exact hreshard ((PeerTable.length_update (w.cluster x).peers _).trans_le (w.node x).bounded)
      hφ.2
  | remove x id now =>
    exact hreshard ((PeerTable.length_modify (w.cluster x).peers id _).trans_le (w.node x).bounded)
      hφ.2
  | _ => exact hφ.elim

/-- A step that happens: who acts, and how the nodes and the history change. -/
theorem step_cases (h : w.step l = some w') : ∃ x op, w.move l = some (x, op) ∧
    w'.cluster x = op.run (w.cluster x) ∧ (∀ y, y ≠ x → w'.cluster y = w.cluster y) ∧
    w'.history = w.events l ++ w.history := by
  unfold step at h
  obtain ⟨⟨x, op⟩, hmove, rfl⟩ := Option.map_eq_some_iff.mp h
  refine ⟨x, op, hmove, ?_, fun y hy => ?_, rfl⟩
  · show (Function.update w.node x _ x).cluster = _
    rw [Function.update_self]
    rfl
  · show (Function.update w.node x _ y).cluster = _
    rw [Function.update_of_ne hy]
    rfl

/-- The sent states of a step: those before, and the state of the node that gossips. -/
theorem mem_sent_step (h : w.step l = some w') {s : Cluster} (hs : s ∈ w'.sent) :
    s ∈ w.sent ∨ ∃ x, s = w.cluster x := by
  unfold step at h
  obtain ⟨⟨x, op⟩, -, rfl⟩ := Option.map_eq_some_iff.mp h
  cases l with
  | gossip y =>
    rcases List.mem_cons.mp hs with rfl | hs
    · exact Or.inr ⟨y, rfl⟩
    · exact Or.inl hs
  | _ => exact Or.inl hs

/-- A decided promotion was decided before, or is the one the step decides. -/
theorem mem_decided_step (h : w.step l = some w') {t : NodeId × Int} (ht : t ∈ w'.decided) :
    t ∈ w.decided ∨
      ∃ x, l = .check x ∧ edbClusterTargetCompliant (w.cluster x) = true ∧
        t = (x, (w.cluster x).targetGeneration) := by
  unfold step at h
  obtain ⟨⟨x, op⟩, hmove, rfl⟩ := Option.map_eq_some_iff.mp h
  cases l with
  | check y =>
    obtain ⟨hcompliant, -⟩ := Option.ite_none_right_eq_some.mp hmove
    rcases List.mem_cons.mp ht with rfl | ht
    · exact Or.inr ⟨y, rfl, hcompliant, rfl⟩
    · exact Or.inl ht
  | commit y gen now => exact Or.inl (List.mem_of_mem_erase ht)
  | _ => exact Or.inl ht

theorem knows_removeExpired {now : Int} {cl : Cluster} {φ : Fact}
    (h : (removeExpired now cl).knows φ) :
    cl.knows φ ∨ leaderIsSelfLocked cl = true ∧
      Reshards (tombstoneExpired now cl) (removeExpired now cl) φ := by
  rcases removeExpired_cases now cl with heq | ⟨hleader, heq⟩
  · rw [heq] at h
    exact Or.inl h
  · rw [heq] at h ⊢
    rcases (shrunk_shrinkLiveLocked now _).knows h with h | h
    · exact Or.inl ((tombstoneExpired_within now cl).knows h)
    · exact Or.inr ⟨hleader, h⟩

theorem knows_edbClusterRemoveNode {now : Int} {cl : Cluster} {id : NodeId} {φ : Fact}
    (h : (edbClusterRemoveNode now cl id).1.knows φ) :
    cl.knows φ ∨ leaderIsSelfLocked cl = true ∧
      Reshards (tombstone cl id) (edbClusterRemoveNode now cl id).1 φ := by
  rcases edbClusterRemoveNode_cases now cl id with heq | heq | ⟨hleader, heq⟩
  · rw [heq] at h
    exact Or.inl h
  · rw [heq] at h
    exact Or.inl ((tombstone_within cl id).knows h)
  · rw [heq] at h ⊢
    rcases (shrunk_shrinkLiveLocked now _).knows h with h | h
    · exact Or.inl ((tombstone_within cl id).knows h)
    · exact Or.inr ⟨hleader, h⟩

/-- **What the acting node can know** after its operation. -/
theorem knows_move {x : NodeId} {op : LocalOp} (hfit : ∀ φ, w.Known φ → φ.Fits)
    (hmove : w.move l = some (x, op)) {φ : Fact} (h : (op.run (w.cluster x)).knows φ) :
    w.Known φ ∨ w.Adds φ l := by
  have hown : (w.cluster x).knows φ → w.Known φ ∨ w.Adds φ l := fun h => Or.inl (Or.inl ⟨x, h⟩)
  have hself : (w.cluster x).selfId = x := (w.node x).selfId_eq
  cases l with
  | gossip y =>
    obtain ⟨rfl, rfl⟩ : y = x ∧ LocalOp.idle = op := by simpa [move] using hmove
    exact hown h
  | receive y id k now =>
    -- what a state brings was known when it was sent
    obtain ⟨s, hs, heq⟩ := Option.map_eq_some_iff.mp hmove
    obtain ⟨rfl, rfl⟩ := Prod.mk.inj heq
    have hmem : s ∈ w.sent := List.mem_of_getElem? hs
    rcases knows_receiveState (fun ψ hψ => hfit ψ (Or.inr ⟨s, hmem, hψ⟩)) h with h | h
    · exact hown h
    · exact Or.inl (Or.inr ⟨s, hmem, h⟩)
  | absorb y k now =>
    obtain ⟨s, hs, heq⟩ := Option.map_eq_some_iff.mp hmove
    obtain ⟨rfl, rfl⟩ := Prod.mk.inj heq
    have hmem : s ∈ w.sent := List.mem_of_getElem? hs
    rcases knows_absorbState (fun ψ hψ => hfit ψ (Or.inr ⟨s, hmem, hψ⟩)) h with h | h
    · exact hown h
    · exact Or.inl (Or.inr ⟨s, hmem, h⟩)
  | hello y doc now =>
    -- opening and closing connections adds no fact
    obtain ⟨rfl, rfl⟩ : y = x ∧ LocalOp.hello now doc = op := by simpa [move] using hmove
    exact hown ((acceptHello_within now _ doc).knows h)
  | register y id =>
    obtain ⟨rfl, rfl⟩ : y = x ∧ LocalOp.register id = op := by simpa [move] using hmove
    exact hown ((registerConn_within _ id).knows h)
  | drop y id =>
    obtain ⟨rfl, rfl⟩ : y = x ∧ LocalOp.drop id = op := by simpa [move] using hmove
    exact hown ((dropConn_within _ id).knows h)
  | shrink y =>
    -- from here on the node makes a fact of its own: a table without the member, a target, a mark
    obtain ⟨-, hmove⟩ := Option.ite_none_right_eq_some.mp hmove
    obtain ⟨rfl, rfl⟩ := Prod.mk.inj (Option.some.inj hmove)
    rcases (shrunk_teardownShrink _).knows h with h | h
    · exact hown h
    · exact Or.inr h
  | expire y now =>
    obtain ⟨rfl, rfl⟩ : y = x ∧ LocalOp.expire now = op := by simpa [move] using hmove
    exact (knows_removeExpired h).elim hown Or.inr
  | remove y id now =>
    obtain ⟨rfl, rfl⟩ : y = x ∧ LocalOp.remove now id = op := by simpa [move] using hmove
    exact (knows_edbClusterRemoveNode h).elim hown Or.inr
  | publish y =>
    obtain ⟨rfl, rfl⟩ : y = x ∧ LocalOp.publish = op := by simpa [move] using hmove
    exact (knows_edbClusterPublishTarget h).elim hown Or.inr
  | mark y =>
    -- the mark is for the number of the pending target, under the node's own id
    obtain ⟨rfl, rfl⟩ : y = x ∧ LocalOp.mark = op := by simpa [move] using hmove
    rcases knows_markCompliant h with h | h
    · exact hown h
    · rw [hself] at h
      exact Or.inr h
  | check y =>
    obtain ⟨-, hmove⟩ := Option.ite_none_right_eq_some.mp hmove
    obtain ⟨rfl, rfl⟩ := Prod.mk.inj (Option.some.inj hmove)
    exact hown h
  | commit y gen now =>
    -- a promotion makes a live table of the target
    obtain ⟨-, hmove⟩ := Option.ite_none_right_eq_some.mp hmove
    obtain ⟨rfl, rfl⟩ := Prod.mk.inj (Option.some.inj hmove)
    rcases knows_promoteCommit h with h | h
    · exact hown h
    · exact Or.inr h
  | void y =>
    obtain ⟨rfl, rfl⟩ : y = x ∧ LocalOp.void = op := by simpa [move] using hmove
    exact hown ((voidTarget_within _).knows h)
  | catchUp y seed =>
    -- the settings of the seed are copied, and with them the marks they hold
    obtain ⟨rfl, rfl⟩ : y = x ∧ LocalOp.catchUp (w.cluster seed) = op := by
      simpa [move] using hmove
    cases φ with
    | target gen table => exact hown h
    | live gen table => exact hown h
    | compliant id gen =>
      rcases h with hrow | hset
      · exact hown (Or.inl hrow)
      · exact Or.inl (Or.inl ⟨seed, Or.inr hset⟩)

/-- **What a step can add** to what is known. -/
theorem known_step (hfit : ∀ φ, w.Known φ → φ.Fits) (h : w.step l = some w') {φ : Fact}
    (hφ : w'.Known φ) : w.Known φ ∨ w.Adds φ l := by
  obtain ⟨x, op, hmove, hx, hother, -⟩ := step_cases h
  rcases hφ with ⟨y, hy⟩ | ⟨s, hs, hφ⟩
  · by_cases hyx : y = x
    · subst hyx
      rw [hx] at hy
      exact knows_move hfit hmove hy
    · rw [hother y hyx] at hy
      exact Or.inl (Or.inl ⟨y, hy⟩)
  · rcases mem_sent_step h hs with hs | ⟨y, rfl⟩
    · exact Or.inl (Or.inr ⟨s, hs, hφ⟩)
    · exact Or.inl (Or.inl ⟨y, hφ⟩)

end Mesh

end EpsilonDB
