import EpsilonDB.Socket.RebalanceLock

/-!
# Connections of the data plane (`conn_thread`)

A one-shot RPC, a snapshot, a request, or a second connection of a mesh peer runs through
the same thread as a mesh connection. What it should leave alone is the skeleton of the
cluster: the tables, their generations, the rebalance lock and the online flags.

- `Skeleton`, `skeleton`: that part of the locked state.
- `Phase`, `Served`, `ConnStep`: the life of one connection, among all that other threads do.
- `Inert`: the connection's step leaves the skeleton alone.
- `Harmless`: the states in which it does.
- `inert_iff_harmless`: exactly these, along every life.
- `rpc_at_leader_voids_wave`: an RPC that ends at a leader voids the pending target.
-/

namespace EpsilonDB

/-- The tables, their generations, the lock and the online flags. -/
@[ext]
structure Skeleton where
  ranges : List RangeInfo
  targetRanges : List RangeInfo
  generation : Int
  targetGeneration : Int
  lock : Option (NodeId × Int)
  online : NodeId → Bool

def skeleton (cl : Cluster) : Skeleton where
  ranges := cl.ranges
  targetRanges := cl.targetRanges
  generation := cl.generation
  targetGeneration := cl.targetGeneration
  lock := cl.settingLock
  online := fun id => (cl.peers.find id).any PeerInfo.online

/-! ## The life of a connection -/

/-- Where the thread of a connection stands: before the HELLO, after it, in the loop that
serves frames, after a loss as leader, or at its end. -/
inductive Phase where
  | accepted
  | greeted (id : NodeId)
  | serving (id : NodeId)
  | closing
  | closed
deriving DecidableEq

/-- A node, and a connection it serves. -/
structure Served (x : NodeId) where
  member : Member x
  phase : Phase

/-- A step of the connection: its HELLO, its registration, a frame of the data plane, a void
request, the end; and what a leader does on top. `others` is anything that other threads and
the gossip do meanwhile. -/
inductive ConnStep (x : NodeId) where
  | others (m : Member x)
  | hello (h : HelloDoc) (now : Int)
  | register
  | serve
  | void
  | react
  | acquire (now : Int)
  | promote (now : Int)
  | close
  | teardown

namespace Served

variable {x : NodeId}

def cluster (c : Served x) : Cluster := c.member.cluster

/-- A section of the connection's thread, and the phase after it. -/
def move (c : Served x) (op : LocalOp) (phase : Phase) : Option (Served x) :=
  some ⟨c.member.apply op, phase⟩

def step (c : Served x) : ConnStep x → Option (Served x)
  | .others m => some { c with member := m }
  | .hello h now =>
    match c.phase with
    | .accepted =>
      c.move (.hello now h) (if refusesHello c.cluster h ∨ h.callerId = [] then .closed
        else .greeted h.callerId)
    | _ => none
  | .register =>
    match c.phase with
    | .greeted id => c.move (.register id) (.serving id)
    | _ => none
  | .serve =>
    match c.phase with
    | .serving id => c.move .idle (.serving id)
    | _ => none
  | .void =>
    match c.phase with
    | .serving id => c.move .void (.serving id)
    | _ => none
  | .react =>
    match c.phase with
    | .serving id => c.move .publish (.serving id)
    | _ => none
  | .acquire now =>
    match c.phase with
    | .serving id =>
      c.move (if readLock now c.cluster = .free then .takeLock now else .idle) (.serving id)
    | _ => none
  | .promote now =>
    match c.phase with
    | .serving id => c.move (.commit now) (.serving id)
    | _ => none
  | .close =>
    match c.phase with
    | .serving id => c.move (.drop id) (if (dropConn c.cluster id).2 then .closing else .closed)
    | _ => none
  | .teardown =>
    match c.phase with
    | .closing => c.move .shrink .closed
    | _ => none

/-- A step of the connection leaves the skeleton alone. -/
def Inert (c : Served x) : ConnStep x → Prop
  | .others _ => True
  | s => ∀ c', c.step s = some c' → skeleton c'.cluster = skeleton c.cluster

/-- A leader has nothing to publish. -/
def Settled (cl : Cluster) : Prop :=
  leaderIsSelfLocked cl = true → onlineIds cl ≠ [] →
    (owners cl.ranges = onlineIds cl ∧ cl.targetGeneration = 0) ∨
      (0 < cl.targetGeneration ∧ owners cl.targetRanges = onlineIds cl)

/-- No target is pending where the node leads. -/
def NoWave (cl : Cluster) : Prop := leaderIsSelfLocked cl = true → ¬ 0 < cl.targetGeneration

/-- The online flag of the member, if it has a row, is `b` already. -/
def FlagIs (cl : Cluster) (id : NodeId) (b : Bool) : Prop :=
  ∀ p, cl.peers.find id = some p → p.online = b

/-- There is neither a target nor a lock, and the live table has a slice for each online
member, or stays as it is. -/
def NothingToShrink (cl : Cluster) : Prop :=
  cl.targetGeneration = 0 ∧ cl.targetRanges = [] ∧ cl.settingLock = none ∧
    (cl.ranges = [] ∨ onlineIds cl = [] ∨ (onlineIds cl).length = cl.ranges.length)

instance (cl : Cluster) : Decidable (Settled cl) :=
  inferInstanceAs (Decidable (_ → _ → _ ∨ _))

instance (cl : Cluster) : Decidable (NoWave cl) := inferInstanceAs (Decidable (_ → ¬ _))

instance (cl : Cluster) : Decidable (NothingToShrink cl) :=
  inferInstanceAs (Decidable (_ ∧ _ ∧ _ ∧ (_ ∨ _ ∨ _)))

instance (cl : Cluster) (id : NodeId) (b : Bool) : Decidable (FlagIs cl id b) :=
  match hfind : cl.peers.find id with
  | none => isTrue fun _ hp => absurd (hfind.symm.trans hp) nofun
  | some p => decidable_of_iff (p.online = b)
      ⟨fun h _ hq => Option.some.inj (hfind.symm.trans hq) ▸ h, fun h => h p hfind⟩

/-- The states in which the step does no harm. -/
def Harmless (c : Served x) (s : ConnStep x) : Prop :=
  match s, c.phase with
  | .register, .greeted id => FlagIs c.cluster id true
  | .close, .serving id => FlagIs c.cluster id false
  | .teardown, .closing => NothingToShrink c.cluster
  | .void, .serving _ => NoWave c.cluster
  | .react, .serving _ => Settled c.cluster
  | .acquire now, .serving _ => readLock now c.cluster ≠ .free
  | .promote _, .serving _ =>
    NoWave c.cluster ∨ (c.cluster.targetRanges = [] ∧ c.cluster.settingLock = none)
  | _, _ => True

instance (c : Served x) (s : ConnStep x) : Decidable (c.Harmless s) := by
  unfold Harmless
  split <;> infer_instance

end Served

/-! ## The flags -/

/-- Setting a flag changes none exactly when the row has it or is missing. -/
theorem online_setOnline_iff (cl : Cluster) (id : NodeId) (b : Bool) :
    (skeleton (setOnline cl id b)).online = (skeleton cl).online ↔ Served.FlagIs cl id b := by
  have hflag : ∀ y, (skeleton (setOnline cl id b)).online y =
      ((cl.peers.find y).map fun p =>
        if p.id = id then { p with online := b } else p).any PeerInfo.online := by
    intro y
    exact congrArg (Option.any PeerInfo.online) (PeerTable.find_modify _ _ _ _)
  constructor
  · intro heq p hp
    have hid : p.id = id := (PeerTable.mem_rows_of_find hp).2
    have hown : _ = (cl.peers.find id).any PeerInfo.online :=
      (hflag id).symm.trans (congrFun heq id)
    rw [hp, Option.map_some, if_pos hid, Option.any_some, Option.any_some] at hown
    exact hown.symm
  · intro hb
    funext y
    rw [hflag y]
    show _ = (cl.peers.find y).any PeerInfo.online
    cases hy : cl.peers.find y with
    | none => rfl
    | some p =>
      rw [Option.map_some, Option.any_some, Option.any_some]
      split
      · rename_i hid
        have hid' : y = id := (PeerTable.mem_rows_of_find hy).2.symm.trans hid
        exact (hb p (hid' ▸ hy)).symm
      · rfl

/-- An update that keeps the online flag of a row keeps them all. -/
theorem online_modify {cl : Cluster} {id : NodeId} {f : PeerInfo → PeerInfo}
    (hf : ∀ p, (f p).online = p.online) (y : NodeId) :
    ((cl.peers.modify id f).find y).any PeerInfo.online =
      (cl.peers.find y).any PeerInfo.online := by
  rw [PeerTable.find_modify]
  cases cl.peers.find y with
  | none => rfl
  | some p =>
    rw [Option.map_some, Option.any_some, Option.any_some]
    split
    · exact hf p
    · rfl

/-! ## The sections -/

theorem skeleton_acceptHello (now : Int) (cl : Cluster) (h : HelloDoc) :
    skeleton (acceptHello now cl h).1 = skeleton cl := by
  have hmodify : ∀ (c : Cluster) (f : PeerInfo → PeerInfo), (∀ p, (f p).online = p.online) →
      skeleton { c with peers := c.peers.modify h.callerId f } = skeleton c := by
    intro c f hf
    ext1 <;> try rfl
    funext y
    exact online_modify hf y
  have hcleared : skeleton (clearTombstone cl h) = skeleton cl := by
    unfold clearTombstone
    split
    · rfl
    · refine hmodify cl _ fun p => ?_
      split <;> rfl
  have hadopt : ∀ c, skeleton (adoptCaller now c h) = skeleton c := by
    intro c
    have hadopts := adopts now c h
    generalize adoptCaller now c h = c' at hadopts
    cases hadopts with
    | kept => rfl
    | updated hf => exact hmodify c _ fun p => (hf p).1
    | added hf _ _ _ _ hfresh _ =>
      -- a fresh row is offline
      have hadded : skeleton { c with peers := c.peers.add { id := h.callerId } } =
          skeleton c := by
        ext1 <;> try rfl
        funext y
        show ((c.peers.add { id := h.callerId }).find y).any _ = (c.peers.find y).any _
        rcases PeerTable.find_add c.peers (p := { id := h.callerId }) (x := y) hfresh with
          heq | ⟨hno, heq⟩
        · rw [heq]
        · rw [heq, hno]
          rfl
      rw [← hadded]
      exact hmodify { c with peers := c.peers.add { id := h.callerId } } _ fun p => (hf p).1
  unfold acceptHello
  split
  · rfl
  · exact (hadopt _).trans hcleared

/-- Only the flags can change. -/
theorem skeleton_setOnline_iff (cl : Cluster) (id : NodeId) (b : Bool) :
    skeleton (setOnline cl id b) = skeleton cl ↔ Served.FlagIs cl id b := by
  rw [← online_setOnline_iff]
  constructor
  · exact congrArg Skeleton.online
  · intro honline
    ext1 <;> first | rfl | exact honline

theorem skeleton_registerConn_iff (cl : Cluster) (id : NodeId) :
    skeleton (registerConn cl id) = skeleton cl ↔ Served.FlagIs cl id true :=
  skeleton_setOnline_iff (recomputeLeader { cl with conns := id :: cl.conns }) id true

theorem skeleton_dropConn_iff (cl : Cluster) (id : NodeId) :
    skeleton (dropConn cl id).1 = skeleton cl ↔ Served.FlagIs cl id false :=
  skeleton_setOnline_iff { cl with conns := cl.conns.erase id } id false

theorem skeleton_voidTarget_iff {cl : Cluster} :
    skeleton (edbClusterVoidTarget cl).1 = skeleton cl ↔ Served.NoWave cl := by
  unfold edbClusterVoidTarget
  by_cases hpending : leaderIsSelfLocked cl ∧ 0 < cl.targetGeneration
  · rw [if_pos hpending]
    refine iff_of_false (fun heq => ?_) fun hno => hno hpending.1 hpending.2
    have hzero : 0 = cl.targetGeneration := congrArg Skeleton.targetGeneration heq
    omega
  · rw [if_neg hpending]
    exact iff_of_true rfl fun hleader hpos => hpending ⟨hleader, hpos⟩

theorem skeleton_publish_iff {cl : Cluster} (hgens : cl.GensNonneg) :
    skeleton (edbClusterPublishTarget cl).1 = skeleton cl ↔ Served.Settled cl := by
  unfold edbClusterPublishTarget
  by_cases hleader : leaderIsSelfLocked cl = true
  · rw [if_pos hleader]
    unfold publishTargetLocked
    dsimp only
    by_cases hids : onlineIds cl = []
    · rw [if_pos hids]
      exact iff_of_true rfl fun _ hne => absurd hids hne
    · rw [if_neg hids]
      by_cases hlive : owners cl.ranges = onlineIds cl ∧ cl.targetGeneration = 0
      · rw [if_pos hlive]
        exact iff_of_true rfl fun _ _ => Or.inl hlive
      · rw [if_neg hlive]
        by_cases htarget : 0 < cl.targetGeneration ∧ owners cl.targetRanges = onlineIds cl
        · rw [if_pos htarget]
          exact iff_of_true rfl fun _ _ => Or.inr htarget
        · rw [if_neg htarget]
          -- the published number is a new one
          refine iff_of_false (fun heq => ?_) fun hsettled => ?_
          · have hnumber : (if 0 < cl.targetGeneration then cl.targetGeneration + 1
                else cl.generation + 1) = cl.targetGeneration :=
              congrArg Skeleton.targetGeneration heq
            have hlive := hgens.live
            split at hnumber <;> omega
          · exact (hsettled hleader hids).elim hlive htarget
  · rw [if_neg hleader]
    exact iff_of_true rfl fun h => absurd h hleader

theorem skeleton_writeLock {now : Int} {cl : Cluster} (hfree : readLock now cl = .free) :
    skeleton (writeLock now cl) ≠ skeleton cl := by
  intro heq
  have hlock : some (cl.selfId, now) = cl.settingLock := congrArg Skeleton.lock heq
  unfold readLock at hfree
  rw [← hlock] at hfree
  dsimp only at hfree
  rw [if_pos rfl] at hfree
  cases hfree

theorem skeleton_promoteCommit_iff {now : Int} {cl : Cluster} :
    skeleton (promoteCommit now cl).1 = skeleton cl ↔
      Served.NoWave cl ∨ (cl.targetRanges = [] ∧ cl.settingLock = none) := by
  unfold promoteCommit
  by_cases hpending : leaderIsSelfLocked cl ∧ 0 < cl.targetGeneration
  · rw [if_pos hpending]
    have hnowave : ¬ Served.NoWave cl := fun hno => hno hpending.1 hpending.2
    unfold promoteTargetLocked
    by_cases hempty : cl.targetRanges = []
    · rw [if_pos (Or.inr hempty)]
      constructor
      · intro heq
        have hlock : none = cl.settingLock := congrArg Skeleton.lock heq
        exact Or.inr ⟨hempty, hlock.symm⟩
      · intro hkept
        have hlock := (hkept.resolve_left hnowave).2
        ext1 <;> first | rfl | exact hlock.symm
    · rw [if_neg (by rintro (hzero | hnil) <;> [omega; exact hempty hnil])]
      refine iff_of_false (fun heq => ?_) fun hkept => hempty (hkept.resolve_left hnowave).1
      have hzero : 0 = cl.targetGeneration := congrArg Skeleton.targetGeneration heq
      omega
  · rw [if_neg hpending]
    exact iff_of_true rfl (Or.inl fun hleader hpos => hpending ⟨hleader, hpos⟩)

theorem skeleton_teardownShrink_iff {cl : Cluster} :
    skeleton (teardownShrink cl) = skeleton cl ↔ Served.NothingToShrink cl := by
  unfold teardownShrink
  dsimp only
  by_cases hkeep : cl.ranges = [] ∨ onlineIds cl = [] ∨ (onlineIds cl).length = cl.ranges.length
  · rw [if_pos hkeep]
    constructor
    · intro heq
      have hgen : 0 = cl.targetGeneration := congrArg Skeleton.targetGeneration heq
      have hnil : [] = cl.targetRanges := congrArg Skeleton.targetRanges heq
      have hlock : none = cl.settingLock := congrArg Skeleton.lock heq
      exact ⟨hgen.symm, hnil.symm, hlock.symm, hkeep⟩
    · rintro ⟨hgen, hnil, hlock, -⟩
      ext1 <;> first | rfl | exact hnil.symm | exact hgen.symm | exact hlock.symm
  · rw [if_neg hkeep]
    refine iff_of_false (fun heq => ?_) fun hnothing => hkeep hnothing.2.2.2
    have hgen : cl.generation + 1 = cl.generation := congrArg Skeleton.generation heq
    omega

/-! ## The lives -/

namespace Served

variable {x : NodeId}

/-- A section is inert exactly when it keeps the skeleton of the state it runs in. -/
theorem inert_move {c : Served x} {op : LocalOp} {phase : Phase} :
    (∀ c', c.move op phase = some c' → skeleton c'.cluster = skeleton c.cluster) ↔
      skeleton (op.run c.cluster) = skeleton c.cluster := by
  constructor
  · exact fun h => h _ rfl
  · rintro h c' hmove
    obtain rfl := Option.some.inj hmove
    exact h

/-- A step that cannot happen does nothing. -/
theorem inert_of_refused {c : Served x} {s : ConnStep x} (h : c.step s = none) : c.Inert s := by
  cases s with
  | others m => trivial
  | _ =>
    intro c' hstep
    rw [h] at hstep
    cases hstep

/-- **One step** is inert exactly in these states. -/
theorem inert_iff (c : Served x) (s : ConnStep x) : c.Inert s ↔ c.Harmless s := by
  obtain ⟨m, phase⟩ := c
  cases s with
  | others m' => exact Iff.rfl
  | hello h now =>
    -- the answer to a HELLO is made from the state, which it leaves
    refine iff_of_true (fun c' hstep => ?_) trivial
    cases phase with
    | accepted =>
      obtain rfl := Option.some.inj hstep
      exact skeleton_acceptHello now m.cluster h
    | greeted | serving | closing | closed => cases hstep
  | register =>
    -- in any other phase the step is refused
    cases phase with
    | greeted id => exact inert_move.trans (skeleton_registerConn_iff m.cluster id)
    | accepted | serving | closing | closed => exact iff_of_true (inert_of_refused rfl) trivial
  | serve =>
    refine iff_of_true (fun c' hstep => ?_) trivial
    cases phase with
    | serving id =>
      obtain rfl := Option.some.inj hstep
      rfl
    | accepted | greeted | closing | closed => cases hstep
  | void =>
    cases phase with
    | serving id => exact inert_move.trans skeleton_voidTarget_iff
    | accepted | greeted | closing | closed => exact iff_of_true (inert_of_refused rfl) trivial
  | react =>
    -- the leader publishes on a state only where there is something to publish
    cases phase with
    | serving id => exact inert_move.trans (skeleton_publish_iff m.gens)
    | accepted | greeted | closing | closed => exact iff_of_true (inert_of_refused rfl) trivial
  | acquire now =>
    -- a refused acquisition writes nothing; one that is granted writes the setting
    cases phase with
    | serving id =>
      refine inert_move.trans ?_
      show skeleton (LocalOp.run (if readLock now m.cluster = .free then .takeLock now else .idle)
        m.cluster) = skeleton m.cluster ↔ readLock now m.cluster ≠ .free
      by_cases hfree : readLock now m.cluster = .free
      · rw [if_pos hfree]
        exact iff_of_false (skeleton_writeLock hfree) fun h => h hfree
      · rw [if_neg hfree]
        exact iff_of_true rfl hfree
    | accepted | greeted | closing | closed => exact iff_of_true (inert_of_refused rfl) trivial
  | promote now =>
    cases phase with
    | serving id => exact inert_move.trans skeleton_promoteCommit_iff
    | accepted | greeted | closing | closed => exact iff_of_true (inert_of_refused rfl) trivial
  | close =>
    cases phase with
    | serving id => exact inert_move.trans (skeleton_dropConn_iff m.cluster id)
    | accepted | greeted | closing | closed => exact iff_of_true (inert_of_refused rfl) trivial
  | teardown =>
    cases phase with
    | closing => exact inert_move.trans skeleton_teardownShrink_iff
    | accepted | greeted | serving | closed => exact iff_of_true (inert_of_refused rfl) trivial

/-- A connection that is accepted. -/
def accept (m : Member x) : Served x := ⟨m, .accepted⟩

end Served

/-- **When a connection is inert**: from its acceptance in any state, among anything that
other threads do, exactly when each of its sections meets a state in which it does no
harm. -/
theorem inert_iff_harmless {x : NodeId} (m : Member x) (steps : List (ConnStep x)) :
    Runs.Along Served.step Served.Inert (Served.accept m) steps ↔
      Runs.Along Served.step Served.Harmless (Served.accept m) steps :=
  Runs.along_congr Served.inert_iff

/-- The life of an RPC or a snapshot: the client says HELLO as "ephemeral", sends a frame and
hangs up. -/
def oneShot {x : NodeId} (now : Int) : List (ConnStep x) :=
  [.hello ⟨some ephemeralId, none, none, none, false⟩ now, .register, .serve, .close, .teardown]

/-- Node `a` leads, and has published a target for `b`. -/
def leaderWithWave : Member (cstr "a") :=
  (Member.start (cstr "a") (cstr "10.0.0.1") 7001 0).after
    [.hello ⟨some (cstr "b"), some (cstr "10.0.0.2"), some 7001, none, true⟩ 1,
      .register (cstr "b"), .publish]

/-- A pending target does not survive an RPC that ends at the leader. -/
theorem rpc_at_leader_voids_wave :
    ¬ ∀ (x : NodeId) (addr : CString) (port started now : Int) (ss : List Section),
      Runs.Along Served.step Served.Inert
        (Served.accept ((Member.start x addr port started).after ss)) (oneShot now) := by
  intro hall
  have hinert : Runs.Along Served.step Served.Inert (Served.accept leaderWithWave) (oneShot 3) :=
    hall _ _ _ _ 3 _
  rw [Runs.along_congr Served.inert_iff] at hinert
  revert hinert
  decide +kernel

end EpsilonDB
