import EpsilonDB.Socket.LocalRun

/-!
# Who becomes a member

A row of the peers table comes from the HELLO of a caller that declares an address, or from
a state that lists the member. One-shot clients say HELLO as "ephemeral", which is to be no
member. A void request is such a client, and it declares an address.

- `ClientHello`, `Label.Genuine`: the HELLO frames that clients of the code send, and the
  steps of nodes that are in the mesh.
- `MembersOnly`: no node knows, follows or places data on anyone else.
- `Section.Introduces`, `ids_run`, `leader_run`: the rows a section can add, and the leader
  it can elect.
- `VoidFindsNoRoom`: no void request makes its caller a member.
- `membersOnly_throughout_iff`: the members are nodes throughout a run if and only if this
  holds at every step.
- `void_request_joins`: a void request makes "ephemeral" a member.
-/

namespace EpsilonDB

/-- The HELLO frames clients send: of a node of the mesh, of an RPC or a snapshot, and of a
void request. -/
inductive ClientHello (mesh : NodeId → Prop) : HelloDoc → Prop
  | node (y : NodeId) (hy : mesh y) (addr : CString) (port : Int) (httpPort : Option Int)
      (join : Bool) : ClientHello mesh ⟨some y, some addr, some port, httpPort, join⟩
  | oneShot : ClientHello mesh ⟨some ephemeralId, none, none, none, false⟩
  | void (addr : CString) : ClientHello mesh ⟨some ephemeralId, some addr, some 0, none, false⟩

/-- A step of a node of the mesh. -/
def Label.Genuine (mesh : NodeId → Prop) (l : Label) : Prop :=
  mesh l.node ∧ ∀ x h now, l = .hello x h now → ClientHello mesh h

/-- The node's peers, its leader and its holders are nodes of the mesh. -/
structure KnowsOnly (mesh : NodeId → Prop) (cl : Cluster) : Prop where
  peers : ∀ id ∈ cl.peers.ids, mesh id
  leader : cl.leader ≠ [] → mesh cl.leader
  holders : ∀ key cap, ∀ id ∈ edbClusterHolders cl key cap, mesh id

/-- So it is at every node of the mesh, and in the states they have sent. -/
structure MembersOnly (mesh : NodeId → Prop) (w : Mesh) : Prop where
  node : ∀ x, mesh x → KnowsOnly mesh (w.cluster x)
  sent : ∀ s ∈ w.sent, KnowsOnly mesh s

/-- A void request reaches a node whose table is full, or declares an address that is not
taken. -/
def VoidFindsNoRoom (w : Mesh) : Label → Prop
  | .hello x h _ =>
    h.callerId = ephemeralId → ∀ addr ∈ h.addr,
      nodeIdMax ≤ addr.length ∨ maxPeers ≤ (w.cluster x).peers.rows.length
  | _ => True

instance (w : Mesh) : ∀ l : Label, Decidable (VoidFindsNoRoom w l)
  | .hello _ h _ => inferInstanceAs (Decidable (_ → ∀ addr ∈ h.addr, _ ∨ _))
  | .gossip _ | .receive _ _ _ _ | .absorb _ _ _ | .register _ _ | .drop _ _ | .shrink _
  | .expire _ _ | .remove _ _ _ | .publish _ | .mark _ | .check _ | .commit _ _ _ | .void _
  | .catchUp _ _ => isTrue trivial

/-! ## The rows a section adds -/

theorem HelloDoc.callerId_of_fits {h : HelloDoc} {y : NodeId} (hid : h.nodeId = some y)
    (hlen : y.length < nodeIdMax) : h.callerId = y := by
  unfold callerId
  rw [hid, Option.filter_some, if_pos (decide_eq_true hlen)]
  rfl

/-- A caller that is taken is the one that was named. -/
theorem HelloDoc.callerId_of_ne_nil {h : HelloDoc} {y : NodeId} (hid : h.nodeId = some y)
    (hne : h.callerId ≠ []) : h.callerId = y := by
  by_cases hlen : y.length < nodeIdMax
  · exact callerId_of_fits hid hlen
  · refine absurd ?_ hne
    unfold callerId
    rw [hid, Option.filter_some, if_neg (by simpa using hlen)]
    rfl

/-- A HELLO that makes its caller a member. -/
def introducesCaller (cl : Cluster) (h : HelloDoc) : Prop :=
  refusesHello cl h = false ∧ h.callerId ≠ [] ∧ h.callerId ≠ cl.selfId ∧
    h.callerId ∉ cl.peers.ids ∧ cl.peers.rows.length < maxPeers ∧
    ∃ addr, h.addr = some addr ∧ addr.length < nodeIdMax

/-- The rows a section may add. -/
def Section.Introduces (cl : Cluster) (id : NodeId) : Section → Prop
  | .hello h _ => introducesCaller cl h ∧ id = h.callerId
  | .receive _ doc _ => ∃ item ∈ doc.nodes, item.id = some id
  | .absorb doc _ => ∃ item ∈ doc.nodes, item.id = some id
  | _ => False

theorem ids_mergeNode {selfId : NodeId} {fromLeader : Bool} {s : PeerTable × Bool}
    {item : NodeDoc} {id : NodeId} (h : id ∈ (mergeNode selfId fromLeader s item).1.ids) :
    id ∈ s.1.ids ∨ item.id = some id := by
  have hmerges := mergesNode selfId fromLeader s item
  generalize (mergeNode selfId fromLeader s item).1 = t at hmerges h
  cases hmerges with
  | kept => exact Or.inl h
  | merged _ _ =>
    rw [PeerTable.ids_modify] at h
    exact Or.inl h
  | added hitem _ =>
    refine (PeerTable.mem_ids_add h).imp_right fun heq => ?_
    rw [hitem, heq]
    rfl

theorem ids_mergeState {now : Int} {cl : Cluster} {doc : StateDoc} {id : NodeId}
    (h : id ∈ (mergeState now cl doc).1.peers.ids) :
    id ∈ cl.peers.ids ∨ ∃ item ∈ doc.nodes, item.id = some id := by
  have hnodes : ∀ (nodes : List NodeDoc) (b : Bool) (s : PeerTable × Bool),
      id ∈ (nodes.foldl (mergeNode cl.selfId b) s).1.ids →
        id ∈ s.1.ids ∨ ∃ item ∈ nodes, item.id = some id := by
    intro nodes b
    induction nodes with
    | nil => exact fun _ h => Or.inl h
    | cons item nodes ih =>
      intro s h
      rcases ih _ h with h | ⟨item', hitem', hid⟩
      · exact (ids_mergeNode h).imp_right fun hid => ⟨item, List.mem_cons_self, hid⟩
      · exact Or.inr ⟨item', List.mem_cons_of_mem _ hitem', hid⟩
  rw [mergeState_peers] at h
  exact hnodes _ _ _ h

theorem ids_acceptHello {now : Int} {cl : Cluster} {h : HelloDoc} {id : NodeId}
    (hid : id ∈ (acceptHello now cl h).1.peers.ids) :
    id ∈ cl.peers.ids ∨ introducesCaller cl h ∧ id = h.callerId := by
  unfold acceptHello at hid
  by_cases hrefused : refusesHello cl h = true
  · rw [if_pos hrefused] at hid
    exact Or.inl hid
  · rw [if_neg hrefused] at hid
    obtain ⟨hids, hself, -, hlength⟩ := clearTombstone_frame cl h
    have hadopts := adopts now (clearTombstone cl h) h
    generalize adoptCaller now (clearTombstone cl h) h = cl' at hadopts hid
    cases hadopts with
    | kept => exact Or.inl (hids ▸ hid)
    | updated _ =>
      rw [PeerTable.ids_modify] at hid
      exact Or.inl (hids ▸ hid)
    | @added _ addr _ haddr hlen hnil hself' hfresh hroom =>
      rw [PeerTable.ids_modify] at hid
      rcases PeerTable.mem_ids_add hid with hid | rfl
      · exact Or.inl (hids ▸ hid)
      · rw [PeerTable.find_eq_none, hids] at hfresh
        exact Or.inr ⟨⟨Bool.eq_false_iff.mpr hrefused, hnil, hself ▸ hself', hfresh,
          hlength ▸ hroom, addr, haddr, hlen⟩, rfl⟩

theorem introduces_acceptHello {now : Int} {cl : Cluster} {h : HelloDoc}
    (hintroduces : introducesCaller cl h) : h.callerId ∈ (acceptHello now cl h).1.peers.ids := by
  obtain ⟨hrefused, hnil, hself, hfresh, hroom, addr, haddr, hlen⟩ := hintroduces
  obtain ⟨hids, hself', -, hlength⟩ := clearTombstone_frame cl h
  -- an id that was filtered for its length is valid
  have hvalid : validNodeId h.callerId = true := by
    have hbound : h.callerId.length < nodeIdMax := by
      unfold HelloDoc.callerId
      cases hfilter : h.nodeId.filter fun id => decide (id.length < nodeIdMax) with
      | none => decide
      | some id => exact of_decide_eq_true (Option.mem_filter_iff.mp hfilter).2
    unfold validNodeId
    rw [Bool.and_eq_true, decide_eq_true_eq, decide_eq_true_eq]
    exact ⟨hnil, hbound⟩
  unfold acceptHello
  rw [if_neg (by rw [hrefused]; exact nofun)]
  unfold adoptCaller
  rw [haddr]
  dsimp only
  -- the caller is added by the one branch that is left
  rw [if_neg]
  · dsimp only
    rw [PeerTable.ids_modify, if_pos]
    · exact PeerTable.mem_ids_add_self hvalid
    · rw [Option.isNone_iff_eq_none, PeerTable.find_eq_none, hids, hlength]
      exact ⟨hfresh, hroom⟩
  · rw [hself']
    rintro (h' | h' | h')
    · exact hnil h'
    · exact hself h'
    · exact absurd hlen (not_lt.mpr h')

/-- **The rows after a section** were there, or are those it introduces. -/
theorem ids_run {s : Section} {cl : Cluster} {id : NodeId} (h : id ∈ (s.run cl).peers.ids) :
    id ∈ cl.peers.ids ∨ s.Introduces cl id := by
  cases s with
  | hello doc now => exact ids_acceptHello h
  | register id' =>
    left
    have h : id ∈ (cl.peers.modify id' _).ids := h
    rwa [PeerTable.ids_modify] at h
  | receive id' doc now =>
    have h : id ∈ ((mergeState now cl doc).1.peers.modify id' _).ids := h
    rw [PeerTable.ids_modify] at h
    exact ids_mergeState h
  | absorb doc now =>
    exact ids_mergeState h
  | drop id' =>
    left
    have h : id ∈ (cl.peers.modify id' _).ids := h
    rwa [PeerTable.ids_modify] at h
  | shrink => exact Or.inl ((teardownShrink_sameFlags cl).ids ▸ h)
  | expire now =>
    -- a node that is marked as removed keeps its row
    left
    have h : id ∈ (removeExpired now cl).peers.ids := h
    rcases removeExpired_sameFlags now cl with heq | hflags
    · rwa [heq] at h
    · have htombstones : (tombstoneExpired now cl).peers.ids = cl.peers.ids :=
        PeerTable.ids_update _ _
      rwa [hflags.ids, htombstones] at h
  | remove id' now =>
    left
    have h : id ∈ (edbClusterRemoveNode now cl id').1.peers.ids := h
    rcases edbClusterRemoveNode_sameFlags_or now cl id' with heq | hflags
    · rwa [heq] at h
    · have htombstone : (tombstone cl id').peers.ids = cl.peers.ids := PeerTable.ids_modify _ _ _
      rwa [hflags.ids, htombstone] at h
  | publish => exact Or.inl ((edbClusterPublishTarget_sameFlags cl).ids ▸ h)
  | mark => exact Or.inl ((edbClusterMarkCompliant_sameFlags cl).ids ▸ h)
  | commit now => exact Or.inl ((promoteCommit_sameFlags now cl).ids ▸ h)
  | void => exact Or.inl ((edbClusterVoidTarget_sameFlags cl).ids ▸ h)
  | catchUp seed => exact Or.inl h

theorem leader_recomputeLeader (cl : Cluster) :
    (recomputeLeader cl).leader = [] ∨ (recomputeLeader cl).leader ∈ cl.peers.ids := by
  show (onlineIds cl).head?.getD [] = [] ∨ (onlineIds cl).head?.getD [] ∈ cl.peers.ids
  cases hids : onlineIds cl with
  | nil => exact Or.inl rfl
  | cons least rest =>
    right
    show least ∈ cl.peers.ids
    have hleast : least ∈ onlineIds cl := hids ▸ List.mem_cons_self
    exact (mem_onlineIds.mp hleast).1

/-- **The leader after a section** is the one before, or a member. -/
theorem leader_run (s : Section) (cl : Cluster) :
    (s.run cl).leader = cl.leader ∨ (s.run cl).leader = [] ∨
      (s.run cl).leader ∈ (s.run cl).peers.ids := by
  cases s with
  | hello h now =>
    left
    show (acceptHello now cl h).1.leader = cl.leader
    unfold acceptHello
    split
    · rfl
    · exact (adopts now _ h).leader.trans (clearTombstone_frame cl h).2.2.1
  | register id =>
    right
    show (recomputeLeader { cl with conns := id :: cl.conns }).leader = [] ∨
      _ ∈ (cl.peers.modify id _).ids
    rw [PeerTable.ids_modify]
    exact leader_recomputeLeader _
  | receive id doc now => exact Or.inr (leader_recomputeLeader _)
  | absorb doc now => exact Or.inr (leader_recomputeLeader _)
  | drop id => exact Or.inr (leader_recomputeLeader _)
  | shrink => exact Or.inl (teardownShrink_sameFlags cl).leader
  | expire now =>
    left
    show (removeExpired now cl).leader = cl.leader
    rcases removeExpired_sameFlags now cl with heq | hflags
    · rw [heq]
    · exact hflags.leader
  | remove id now =>
    left
    show (edbClusterRemoveNode now cl id).1.leader = cl.leader
    rcases edbClusterRemoveNode_sameFlags_or now cl id with heq | hflags
    · rw [heq]
    · exact hflags.leader
  | publish => exact Or.inl (edbClusterPublishTarget_sameFlags cl).leader
  | mark => exact Or.inl (edbClusterMarkCompliant_sameFlags cl).leader
  | commit now => exact Or.inl (promoteCommit_sameFlags now cl).leader
  | void => exact Or.inl (edbClusterVoidTarget_sameFlags cl).leader
  | catchUp seed => exact Or.inl rfl

/-! ## The runs -/

/-- Whose peers and leader are nodes, their holders are. -/
theorem KnowsOnly.of_peers {mesh : NodeId → Prop} {cl : Cluster}
    (hpeers : ∀ id ∈ cl.peers.ids, mesh id) (hleader : cl.leader ≠ [] → mesh cl.leader) :
    KnowsOnly mesh cl := by
  refine ⟨hpeers, hleader, fun key cap id hid => ?_⟩
  obtain ⟨p, hp, rfl, -⟩ := mem_holderCandidates (mem_edbClusterHolders hid)
  exact hpeers p.id (PeerTable.mem_ids.mpr ⟨p, hp, rfl⟩)

/-- **A section** that introduces only nodes. -/
theorem KnowsOnly.run {mesh : NodeId → Prop} {cl : Cluster} {s : Section} (h : KnowsOnly mesh cl)
    (hs : ∀ id, s.Introduces cl id → mesh id) : KnowsOnly mesh (s.run cl) := by
  have hpeers : ∀ id ∈ (s.run cl).peers.ids, mesh id := fun id hid =>
    (ids_run hid).elim (h.peers id) (hs id)
  refine KnowsOnly.of_peers hpeers fun hne => ?_
  rcases leader_run s cl with hleader | hleader | hleader
  · rw [hleader] at hne ⊢
    exact h.leader hne
  · exact absurd hleader hne
  · exact hpeers _ hleader

theorem knowsOnly_start {mesh : NodeId → Prop} {x : NodeId} (hx : mesh x) (addr : CString)
    (port now : Int) : KnowsOnly mesh (edbClusterStart x addr port now) := by
  have halone := alone_edbClusterStart x addr port now
  have hids : ∀ id ∈ (edbClusterStart x addr port now).peers.ids, mesh id := fun id hid =>
    (halone.ids id hid).symm ▸ hx
  refine KnowsOnly.of_peers hids fun hne => hids _ ?_
  rw [halone.elected] at hne ⊢
  exact (leader_recomputeLeader _).resolve_left hne

/-- A void request that finds room adds a row, of a member that is no node. -/
theorem voidFindsNoRoom_of_membersOnly {mesh : NodeId → Prop} (hephemeral : ¬ mesh ephemeralId)
    {w w' : Mesh} {l : Label} (hl : l.Genuine mesh) (h : MembersOnly mesh w)
    (hstep : w.step l = some w') (hnext : MembersOnly mesh w') : VoidFindsNoRoom w l := by
  cases l with
  | hello x doc now => ?_
  | _ => trivial
  intro hcaller addr haddr
  by_contra hroom
  rw [not_or, not_le, not_le] at hroom
  have hx : mesh x := hl.1
  have hself : (w.cluster x).selfId = x := (w.node x).selfId_eq
  -- a void request is never refused
  have hrefused : refusesHello (w.cluster x) doc = false := by
    unfold refusesHello
    rw [if_pos (Or.inr (Or.inr hcaller))]
  have hintroduces : introducesCaller (w.cluster x) doc := by
    refine ⟨hrefused, ?_, ?_, ?_, hroom.2, addr, haddr, hroom.1⟩
    · rw [hcaller]
      decide
    · rw [hcaller, hself]
      rintro rfl
      exact hephemeral hx
    · rw [hcaller]
      exact fun hmem => hephemeral ((h.node x hx).peers _ hmem)
  have hrow : doc.callerId ∈ (w'.cluster x).peers.ids := by
    have hrun : w'.cluster x = (acceptHello now (w.cluster x) doc).1 :=
      (Mesh.cluster_step hstep).1
    rw [hrun]
    exact introduces_acceptHello hintroduces
  rw [hcaller] at hrow
  exact hephemeral ((hnext.node x hx).peers _ hrow)

/-- What a genuine section introduces is a node, when a void request finds no room. -/
theorem mesh_of_introduces {mesh : NodeId → Prop} {w : Mesh} {l : Label} (hl : l.Genuine mesh)
    (h : MembersOnly mesh w) (hvoid : VoidFindsNoRoom w l) {s : Section}
    (hsection : w.sectionOf l = some s) {id : NodeId}
    (hid : s.Introduces (w.cluster l.node) id) : mesh id := by
  -- a state that arrives was sent, so it lists only nodes
  have hsent : ∀ (k : Nat) (s' : Cluster), w.sent[k]? = some s' →
      (∃ item ∈ (stateToJson s').nodes, item.id = some id) → mesh id := by
    rintro k s' hk ⟨item, hitem, hid⟩
    obtain ⟨p, hp, rfl⟩ := List.mem_map.mp hitem
    obtain rfl := Option.some.inj hid
    exact (h.sent s' (List.mem_of_getElem? hk)).peers _ (PeerTable.mem_ids.mpr ⟨p, hp, rfl⟩)
  cases l with
  | hello x doc now =>
    obtain rfl := Option.some.inj hsection
    obtain ⟨⟨-, hnil, hself, -, hroom, addr, haddr, hlen⟩, rfl⟩ := hid
    cases hl.2 x doc now rfl with
    | node y hy =>
      rw [HelloDoc.callerId_of_ne_nil rfl hnil]
      exact hy
    | oneShot => cases haddr
    | void addr' =>
      have hcaller : HelloDoc.callerId ⟨some ephemeralId, some addr', some 0, none, false⟩ =
        ephemeralId := HelloDoc.callerId_of_fits rfl (by decide)
      rcases hvoid hcaller addr haddr with hlong | hfull
      · exact absurd hlen (not_lt.mpr hlong)
      · exact absurd hroom (not_lt.mpr hfull)
  | receive x id' k now =>
    obtain ⟨s', hk, rfl⟩ := Option.map_eq_some_iff.mp hsection
    exact hsent k s' hk hid
  | absorb x k now =>
    obtain ⟨s', hk, rfl⟩ := Option.map_eq_some_iff.mp hsection
    exact hsent k s' hk hid
  | gossip | check => cases hsection
  | _ =>
    obtain rfl := Option.some.inj hsection
    exact hid.elim

/-- **One step** of a node keeps the members nodes exactly when no void request finds
room. -/
theorem membersOnly_step_iff {mesh : NodeId → Prop} (hephemeral : ¬ mesh ephemeralId)
    {w w' : Mesh} {l : Label} (hl : l.Genuine mesh) (h : MembersOnly mesh w)
    (hstep : w.step l = some w') : MembersOnly mesh w' ↔ VoidFindsNoRoom w l := by
  constructor
  · exact voidFindsNoRoom_of_membersOnly hephemeral hl h hstep
  · intro hvoid
    refine ⟨?_, fun s hs => ?_⟩
    · refine Mesh.forall_cluster_step hstep (P := fun x cl => mesh x → KnowsOnly mesh cl) h.node ?_
      intro s hsection hx
      exact (h.node _ hx).run fun id hid => mesh_of_introduces hl h hvoid hsection hid
    · rcases Mesh.sent_step hstep hs with hs | rfl
      · exact h.sent s hs
      · exact h.node _ hl.1

/-- A mesh in which every node has started on its own. -/
theorem membersOnly_start (mesh : NodeId → Prop) (addr : NodeId → CString) (port : NodeId → Int)
    (now : Int) : MembersOnly mesh (Mesh.start addr port now) :=
  ⟨fun x hx => knowsOnly_start hx (addr x) (port x) now, nofun⟩

/-- **When the members are nodes**: whatever nodes are in the mesh, throughout a run of theirs
no one knows, follows or uses anyone else exactly when no void request finds room for its
caller. -/
theorem membersOnly_throughout_iff (mesh : NodeId → Prop) (hephemeral : ¬ mesh ephemeralId)
    (addr : NodeId → CString) (port : NodeId → Int) (now : Int) (ls : List Label)
    (hls : ∀ l ∈ ls, l.Genuine mesh) :
    Runs.Throughout Mesh.step (MembersOnly mesh) (Mesh.start addr port now) ls ↔
      Runs.Along Mesh.step VoidFindsNoRoom (Mesh.start addr port now) ls := by
  refine Runs.throughout_iff_along ?_ ?_ (membersOnly_start mesh addr port now)
  · intro l _ w hrefused
    cases l with
    | hello x h t => cases hrefused
    | _ => trivial
  · intro l hl w w' hw hstep
    exact membersOnly_step_iff hephemeral (hls l hl) hw hstep

/-- Node `b` joins `a` and tells it its state; in between a client asks `a` for a file. -/
def joinAndRpc : List Label :=
  [.hello (cstr "node-a") ⟨some (cstr "node-b"), some (cstr "10.0.0.2"), some 7001, none, true⟩ 1,
    .register (cstr "node-a") (cstr "node-b"),
    .hello (cstr "node-a") ⟨some ephemeralId, none, none, none, false⟩ 2,
    .register (cstr "node-a") ephemeralId, .gossip (cstr "node-b"),
    .receive (cstr "node-a") (cstr "node-b") 0 3]

theorem joinAndRpc_membersOnly :
    Runs.Throughout Mesh.step (MembersOnly fun id => id ∈ [cstr "node-a", cstr "node-b"])
      (Mesh.start (fun _ => cstr "10.0.0.1") (fun _ => 7001) 0) joinAndRpc := by
  refine (membersOnly_throughout_iff _ (by decide) _ _ 0 joinAndRpc ?_).mpr (by decide +kernel)
  unfold joinAndRpc
  simp only [List.forall_mem_cons, List.not_mem_nil, false_imp_iff, implies_true, and_true]
  refine ⟨⟨by decide, ?_⟩, ⟨by decide, nofun⟩, ⟨by decide, ?_⟩, ⟨by decide, nofun⟩,
    ⟨by decide, nofun⟩, ⟨by decide, nofun⟩⟩
  · rintro _ _ _ ⟨⟩
    exact .node (cstr "node-b") (by decide) _ _ _ _
  · rintro _ _ _ ⟨⟩
    exact .oneShot

/-- The same with a void request of `b`. -/
def joinAndVoid : List Label :=
  [.hello (cstr "node-a") ⟨some (cstr "node-b"), some (cstr "10.0.0.2"), some 7001, none, true⟩ 1,
    .register (cstr "node-a") (cstr "node-b"),
    .hello (cstr "node-a") ⟨some ephemeralId, some (cstr "10.0.0.2"), some 0, none, false⟩ 2,
    .register (cstr "node-a") ephemeralId, .gossip (cstr "node-b"),
    .receive (cstr "node-a") (cstr "node-b") 0 3]

/-- A void request makes "ephemeral" a member of `a`, its leader and a holder. -/
theorem void_request_joins :
    (∀ l ∈ joinAndVoid, l.Genuine fun id => id ∈ [cstr "node-a", cstr "node-b"]) ∧
      ∃ w, Runs.run Mesh.step (Mesh.start (fun _ => cstr "10.0.0.1") (fun _ => 7001) 0)
          joinAndVoid = some w ∧
        ephemeralId ∈ (w.cluster (cstr "node-a")).peers.ids ∧
        (w.cluster (cstr "node-a")).leader = ephemeralId ∧
        ephemeralId ∈ edbClusterHolders (w.cluster (cstr "node-a")) (List.replicate 32 48) 3 := by
  constructor
  · unfold joinAndVoid
    simp only [List.forall_mem_cons, List.not_mem_nil, false_imp_iff, implies_true, and_true]
    refine ⟨⟨by decide, ?_⟩, ⟨by decide, nofun⟩, ⟨by decide, ?_⟩, ⟨by decide, nofun⟩,
      ⟨by decide, nofun⟩, ⟨by decide, nofun⟩⟩
    · rintro _ _ _ ⟨⟩
      exact .node (cstr "node-b") (by decide) _ _ _ _
    · rintro _ _ _ ⟨⟩
      exact .void _
  · exact ⟨_, rfl, by decide +kernel, by decide +kernel, by decide +kernel⟩

end EpsilonDB
