import EpsilonDB.Socket.Rebalance

/-!
# Connections and members (`conn_thread` and the maintainer in `socket/epsilon_cluster.c`)

What a connection does to the locked state, from its HELLO to its end, and how members
are removed.

- `edbClusterStart`: a node's first start. It claims the whole key space.
- `Alone`: what that leaves.
- `HelloDoc`, `acceptHello`: the HELLO frame. A caller that declares an address gets a row
  (`Adopts`).
- `registerConn`, `receiveState`, `dropConn`: a connection is registered, brings a state,
  and ends.
- `removeExpired`, `edbClusterRemoveNode`: members are tombstoned.
- `*_within`, `knows_*`: all these say no more than before, but for what a merge brings and
  for a re-sharded live table.
-/

namespace EpsilonDB

/-- `edb_cluster_start` on an empty configuration store. -/
def edbClusterStart (selfId : NodeId) (addr : CString) (port now : Int) : Cluster :=
  let cl := recomputeLeader
    { selfId, selfAddr := addr, selfPort := port
      peers := PeerTable.empty.add { id := selfId, addr, port, lastSeen := now, online := true } }
  if leaderIsSelfLocked cl ∧ cl.ranges = [] then
    { cl with ranges := buildSlices [selfId], generation := cl.generation + 1 }
  else cl

/-- A HELLO frame. -/
structure HelloDoc where
  nodeId : Option CString
  addr : Option CString
  port : Option Int
  httpPort : Option Int
  join : Bool
deriving DecidableEq

/-- The id of a caller; an oversized one is not taken. -/
def HelloDoc.callerId (h : HelloDoc) : NodeId :=
  (h.nodeId.filter fun id => id.length < nodeIdMax).getD []

/-- One-shot callers of the data plane identify as this. -/
def ephemeralId : NodeId := cstr "ephemeral"

/-- A known member that was removed is refused unless it joins again, an unknown one while
a target is pending. -/
def refusesHello (cl : Cluster) (h : HelloDoc) : Bool :=
  if h.callerId = cl.selfId ∨ h.callerId = [] ∨ h.callerId = ephemeralId then false
  else
    match cl.peers.find h.callerId with
    | some p => p.removed && !h.join
    | none => decide (0 < cl.targetGeneration)

/-- An explicit re-join clears the tombstone. -/
def clearTombstone (cl : Cluster) (h : HelloDoc) : Cluster :=
  if h.callerId = cl.selfId ∨ h.callerId = [] ∨ h.callerId = ephemeralId ∨ h.join = false then cl
  else
    { cl with
      peers := cl.peers.modify h.callerId fun p =>
        if p.removed then { p with removed := false, lastSeen := 0 } else p }

/-- Take the address a caller declares, in its row or in a fresh one while there is room. -/
def adoptCaller (now : Int) (cl : Cluster) (h : HelloDoc) : Cluster :=
  match h.addr with
  | none => cl
  | some addr =>
    if h.callerId = [] ∨ h.callerId = cl.selfId ∨ nodeIdMax ≤ addr.length then cl
    else
      let peers :=
        if (cl.peers.find h.callerId).isNone ∧ cl.peers.rows.length < maxPeers then
          cl.peers.add { id := h.callerId }
        else cl.peers
      { cl with
        peers := peers.modify h.callerId fun p =>
          { p with
            addr, port := h.port.getD 0, httpPort := (validPort h.httpPort).getD p.httpPort
            lastSeen := now } }

/-- The HELLO of `conn_thread`, and whether the caller is refused. -/
def acceptHello (now : Int) (cl : Cluster) (h : HelloDoc) : Cluster × Bool :=
  if refusesHello cl h then (cl, true) else (adoptCaller now (clearTombstone cl h) h, false)

/-- The online flag of a member. -/
def setOnline (cl : Cluster) (id : NodeId) (online : Bool) : Cluster :=
  { cl with peers := cl.peers.modify id fun p => { p with online } }

/-- The registration of a connection: the leader is elected before the member counts as
online. -/
def registerConn (cl : Cluster) (id : NodeId) : Cluster :=
  setOnline (recomputeLeader { cl with conns := id :: cl.conns }) id true

/-- A STATE frame on the connection of `id`: its merge, and `id` is online. -/
def receiveState (now : Int) (cl : Cluster) (id : NodeId) (doc : StateDoc) : Cluster × Bool :=
  let merged := mergeState now cl doc
  let wasOffline := (merged.1.peers.find id).any fun p => !p.online
  (recomputeLeader (setOnline merged.1 id true), merged.2 || wasOffline)

/-- A STATE frame a joining node reads from its seed. -/
def absorbState (now : Int) (cl : Cluster) (doc : StateDoc) : Cluster × Bool :=
  let merged := mergeState now cl doc
  (recomputeLeader merged.1, merged.2)

/-- The end of a connection, and whether the node leads then. -/
def dropConn (cl : Cluster) (id : NodeId) : Cluster × Bool :=
  let cl := recomputeLeader (setOnline { cl with conns := cl.conns.erase id } id false)
  (cl, leaderIsSelfLocked cl)

/-- A member the leader has not heard of for long enough. -/
def expired (now : Int) (cl : Cluster) (p : PeerInfo) : Bool :=
  p.id ≠ cl.selfId && !p.removed && !p.online && decide (0 < p.lastSeen) &&
    decide (removeAfterSeconds ≤ now - p.lastSeen)

/-- The expired members tombstoned. -/
def tombstoneExpired (now : Int) (cl : Cluster) : Cluster :=
  { cl with
    peers := cl.peers.update fun p => if expired now cl p then { p with removed := true } else p }

/-- The last part of `maintainer_tick`: a leader tombstones expired members. -/
def removeExpired (now : Int) (cl : Cluster) : Cluster :=
  if leaderIsSelfLocked cl ∧ cl.peers.rows.any (expired now cl) then
    shrinkLiveLocked now (tombstoneExpired now cl)
  else cl

/-- A member tombstoned. -/
def tombstone (cl : Cluster) (id : NodeId) : Cluster :=
  { cl with peers := cl.peers.modify id fun p => { p with removed := true } }

/-- `edb_cluster_remove_node`. -/
def edbClusterRemoveNode (now : Int) (cl : Cluster) (id : NodeId) : Cluster × Bool :=
  if id = [] ∨ id = cl.selfId ∨ (cl.peers.find id).isNone then (cl, false)
  else
    let cl := tombstone cl id
    (if leaderIsSelfLocked cl then shrinkLiveLocked now cl else cl, true)

/-! ## The first start -/

/-- What a first start leaves: a node with its own row and no target, and its own live table
if it leads. -/
structure Alone (x : NodeId) (cl : Cluster) : Prop where
  selfId : cl.selfId = x
  ids : ∀ id ∈ cl.peers.ids, id = x
  row : validNodeId x = true → x ∈ cl.peers.ids
  length : cl.peers.rows.length ≤ 1
  unmarked : ∀ p ∈ cl.peers.rows, p.compliantGen = 0
  unset : ∀ id, cl.settingDone id = none
  target : cl.targetGeneration = 0
  elected : cl.leader = (recomputeLeader cl).leader
  live : (cl.generation = 0 ∧ cl.ranges = []) ∨
    (cl.generation = 1 ∧ cl.ranges = buildSlices [x] ∧ x.length < nodeIdMax)

/-- A node that has just elected itself has a row, so its id is valid. -/
theorem length_of_elected {cl : Cluster} (h : leaderIsSelfLocked (recomputeLeader cl) = true) :
    cl.selfId.length < nodeIdMax := by
  unfold leaderIsSelfLocked at h
  rw [Bool.and_eq_true] at h
  have hself : (onlineIds cl).head?.getD [] = cl.selfId := of_decide_eq_true h.2
  have hne : (onlineIds cl).head?.getD [] ≠ [] := of_decide_eq_true h.1
  cases hhead : (onlineIds cl).head? with
  | none =>
    rw [hhead] at hne
    exact absurd rfl hne
  | some id =>
    rw [hhead] at hself
    have hself : id = cl.selfId := hself
    have hmem : id ∈ onlineIds cl := List.mem_of_head? hhead
    exact hself ▸ length_of_mem_onlineIds hmem

theorem alone_edbClusterStart (x : NodeId) (addr : CString) (port now : Int) :
    Alone x (edbClusterStart x addr port now) := by
  have hids : ∀ id ∈ (PeerTable.empty.add
      { id := x, addr, port, lastSeen := now, online := true }).ids, id = x := by
    intro id hid
    rcases PeerTable.mem_ids_add hid with hid | rfl
    · cases hid
    · rfl
  have hrow : validNodeId x = true → x ∈ (PeerTable.empty.add
      { id := x, addr, port, lastSeen := now, online := true }).ids :=
    fun hvalid => PeerTable.mem_ids_add_self hvalid
  have hlength : (PeerTable.empty.add
      { id := x, addr, port, lastSeen := now, online := true }).rows.length ≤ 1 :=
    PeerTable.length_add_le _ _
  have hunmarked : ∀ p ∈ (PeerTable.empty.add
      { id := x, addr, port, lastSeen := now, online := true }).rows, p.compliantGen = 0 := by
    intro p hp
    rcases PeerTable.mem_rows_add hp with hp | rfl
    · cases hp
    · rfl
  unfold edbClusterStart
  dsimp only
  split
  · rename_i hleader
    exact ⟨rfl, hids, hrow, hlength, hunmarked, fun _ => rfl, rfl, rfl,
      Or.inr ⟨rfl, rfl, length_of_elected hleader.1⟩⟩
  · exact ⟨rfl, hids, hrow, hlength, hunmarked, fun _ => rfl, rfl, rfl, Or.inl ⟨rfl, rfl⟩⟩

/-! ## HELLO -/

/-- An update that fills in the address of a row, and when it was seen. -/
def FillsIn (f : PeerInfo → PeerInfo) : Prop :=
  ∀ p, (f p).online = p.online ∧ (f p).removed = p.removed ∧ (f p).compliantGen = p.compliantGen

/-- What the address of a caller does: nothing, or it is filled in, in a fresh row if there was
none. -/
inductive Adopts (h : HelloDoc) (cl : Cluster) : Cluster → Prop where
  | kept : Adopts h cl cl
  | updated {f : PeerInfo → PeerInfo} (hf : FillsIn f) :
    Adopts h cl { cl with peers := cl.peers.modify h.callerId f }
  | added {f : PeerInfo → PeerInfo} {addr : CString} (hf : FillsIn f)
    (haddr : h.addr = some addr) (hlen : addr.length < nodeIdMax) (hnil : h.callerId ≠ [])
    (hself : h.callerId ≠ cl.selfId) (hfresh : cl.peers.find h.callerId = none)
    (hroom : cl.peers.rows.length < maxPeers) :
    Adopts h cl { cl with peers := (cl.peers.add { id := h.callerId }).modify h.callerId f }

theorem adopts (now : Int) (cl : Cluster) (h : HelloDoc) : Adopts h cl (adoptCaller now cl h) := by
  unfold adoptCaller
  cases haddr : h.addr with
  | none => exact .kept
  | some addr =>
    dsimp only
    split
    · exact .kept
    · rename_i hcaller
      rw [not_or, not_or, not_le] at hcaller
      split
      · rename_i hfresh
        exact .added (fun _ => ⟨rfl, rfl, rfl⟩) haddr hcaller.2.2 hcaller.1 hcaller.2.1
          (Option.isNone_iff_eq_none.mp hfresh.1) hfresh.2
      · exact .updated fun _ => ⟨rfl, rfl, rfl⟩

namespace Adopts

variable {h : HelloDoc} {cl cl' : Cluster}

theorem selfId (ha : Adopts h cl cl') : cl'.selfId = cl.selfId := by
  cases ha <;> rfl

theorem leader (ha : Adopts h cl cl') : cl'.leader = cl.leader := by
  cases ha <;> rfl

theorem length (ha : Adopts h cl cl') (hlen : cl.peers.rows.length ≤ maxPeers) :
    cl'.peers.rows.length ≤ maxPeers := by
  cases ha with
  | kept => exact hlen
  | updated _ => exact (PeerTable.length_modify _ _ _).trans_le hlen
  | added _ _ _ _ _ _ hroom =>
    exact (PeerTable.length_modify _ _ _).trans_le ((PeerTable.length_add_le _ _).trans hroom)

theorem within (ha : Adopts h cl cl') : cl'.Within cl := by
  cases ha with
  | kept => exact Cluster.Within.refl cl
  | updated hf => exact within_of_peers cl (PeerTable.within_modify _ _ fun p => (hf p).2.2)
  | added hf _ _ _ _ _ _ =>
    have hadded : (cl.peers.add { id := h.callerId }).Within cl.peers :=
      PeerTable.within_add _ rfl
    have hfilled := PeerTable.within_modify (cl.peers.add { id := h.callerId }) h.callerId
      fun p => (hf p).2.2
    exact within_of_peers cl (hfilled.trans hadded)

end Adopts

/-- Clearing a tombstone changes a row in place. -/
theorem clearTombstone_frame (cl : Cluster) (h : HelloDoc) :
    (clearTombstone cl h).peers.ids = cl.peers.ids ∧
      (clearTombstone cl h).selfId = cl.selfId ∧ (clearTombstone cl h).leader = cl.leader ∧
      (clearTombstone cl h).peers.rows.length = cl.peers.rows.length := by
  unfold clearTombstone
  split
  · exact ⟨rfl, rfl, rfl, rfl⟩
  · exact ⟨PeerTable.ids_modify _ _ _, rfl, rfl, PeerTable.length_modify _ _ _⟩

/-! ## What they say -/

theorem recomputeLeader_within (cl : Cluster) : (recomputeLeader cl).Within cl :=
  ⟨PeerTable.Within.refl _, fun _ _ h => h, Or.inl ⟨rfl, rfl⟩, ⟨rfl, rfl⟩⟩

theorem setOnline_within (cl : Cluster) (id : NodeId) (online : Bool) :
    (setOnline cl id online).Within cl :=
  within_of_peers cl (PeerTable.within_modify _ _ fun _ => rfl)

theorem clearTombstone_within (cl : Cluster) (h : HelloDoc) : (clearTombstone cl h).Within cl := by
  unfold clearTombstone
  split
  · exact Cluster.Within.refl cl
  · refine within_of_peers cl (PeerTable.within_modify _ _ fun p => ?_)
    split <;> rfl

theorem acceptHello_within (now : Int) (cl : Cluster) (h : HelloDoc) :
    (acceptHello now cl h).1.Within cl := by
  unfold acceptHello
  split
  · exact Cluster.Within.refl cl
  · exact (adopts now _ h).within.trans (clearTombstone_within cl h)

theorem conns_within (cl : Cluster) (conns : List NodeId) :
    { cl with conns : Cluster }.Within cl :=
  ⟨PeerTable.Within.refl _, fun _ _ h => h, Or.inl ⟨rfl, rfl⟩, ⟨rfl, rfl⟩⟩

theorem registerConn_within (cl : Cluster) (id : NodeId) : (registerConn cl id).Within cl := by
  unfold registerConn
  exact (setOnline_within _ _ _).trans ((recomputeLeader_within _).trans (conns_within cl _))

theorem dropConn_within (cl : Cluster) (id : NodeId) : (dropConn cl id).1.Within cl := by
  unfold dropConn
  exact (recomputeLeader_within _).trans ((setOnline_within _ _ _).trans (conns_within cl _))

theorem knows_receiveState {now : Int} {cl other : Cluster} {id : NodeId} {φ : Fact}
    (hfit : ∀ ψ, other.knows ψ → ψ.Fits)
    (h : (receiveState now cl id (stateToJson other)).1.knows φ) : cl.knows φ ∨ other.knows φ := by
  unfold receiveState at h
  dsimp only at h
  exact knows_mergeState hfit (((recomputeLeader_within _).trans (setOnline_within _ _ _)).knows h)

theorem knows_absorbState {now : Int} {cl other : Cluster} {φ : Fact}
    (hfit : ∀ ψ, other.knows ψ → ψ.Fits)
    (h : (absorbState now cl (stateToJson other)).1.knows φ) : cl.knows φ ∨ other.knows φ := by
  unfold absorbState at h
  dsimp only at h
  exact knows_mergeState hfit ((recomputeLeader_within _).knows h)

theorem tombstone_within (cl : Cluster) (id : NodeId) : (tombstone cl id).Within cl :=
  within_of_peers cl (PeerTable.within_modify _ _ fun _ => rfl)

theorem tombstoneExpired_within (now : Int) (cl : Cluster) :
    (tombstoneExpired now cl).Within cl := by
  refine within_of_peers cl (PeerTable.within_update _ fun p => Or.inl ?_)
  split <;> rfl

/-! ## Departures -/

/-- The expiry of members tombstones them and shrinks, at a leader. -/
theorem removeExpired_cases (now : Int) (cl : Cluster) :
    removeExpired now cl = cl ∨ leaderIsSelfLocked cl = true ∧
      removeExpired now cl = shrinkLiveLocked now (tombstoneExpired now cl) := by
  rw [removeExpired]
  split
  · rename_i hleader
    exact Or.inr ⟨hleader.1, rfl⟩
  · exact Or.inl rfl

/-- A removal that is not refused tombstones the member, and a leader shrinks. -/
theorem edbClusterRemoveNode_found (now : Int) {cl : Cluster} {id : NodeId}
    (h : ¬ (id = [] ∨ id = cl.selfId ∨ (cl.peers.find id).isNone)) :
    (edbClusterRemoveNode now cl id).1 = tombstone cl id ∨ leaderIsSelfLocked cl = true ∧
      (edbClusterRemoveNode now cl id).1 = shrinkLiveLocked now (tombstone cl id) := by
  rw [edbClusterRemoveNode, if_neg h]
  dsimp only
  split
  · rename_i hleader
    exact Or.inr ⟨hleader, rfl⟩
  · exact Or.inl rfl

theorem edbClusterRemoveNode_cases (now : Int) (cl : Cluster) (id : NodeId) :
    (edbClusterRemoveNode now cl id).1 = cl ∨
      (edbClusterRemoveNode now cl id).1 = tombstone cl id ∨ leaderIsSelfLocked cl = true ∧
        (edbClusterRemoveNode now cl id).1 = shrinkLiveLocked now (tombstone cl id) := by
  by_cases h : id = [] ∨ id = cl.selfId ∨ (cl.peers.find id).isNone
  · rw [edbClusterRemoveNode, if_pos h]
    exact Or.inl rfl
  · exact Or.inr (edbClusterRemoveNode_found now h)

/-- Beyond its tombstones, an expiry keeps everyone's flags. -/
theorem removeExpired_sameFlags (now : Int) (cl : Cluster) :
    removeExpired now cl = cl ∨ (removeExpired now cl).SameFlags (tombstoneExpired now cl) := by
  refine (removeExpired_cases now cl).imp_right fun ⟨_, heq⟩ => ?_
  rw [heq]
  exact shrinkLiveLocked_sameFlags now _

/-- And so does a removal, beyond the tombstone of the member. -/
theorem edbClusterRemoveNode_sameFlags (now : Int) {cl : Cluster} {id : NodeId}
    (h : ¬ (id = [] ∨ id = cl.selfId ∨ (cl.peers.find id).isNone)) :
    (edbClusterRemoveNode now cl id).1.SameFlags (tombstone cl id) := by
  rcases edbClusterRemoveNode_found now h with heq | ⟨-, heq⟩
  · rw [heq]
    exact Cluster.SameFlags.refl _
  · rw [heq]
    exact shrinkLiveLocked_sameFlags now _

theorem edbClusterRemoveNode_sameFlags_or (now : Int) (cl : Cluster) (id : NodeId) :
    (edbClusterRemoveNode now cl id).1 = cl ∨
      (edbClusterRemoveNode now cl id).1.SameFlags (tombstone cl id) := by
  by_cases h : id = [] ∨ id = cl.selfId ∨ (cl.peers.find id).isNone
  · rw [edbClusterRemoveNode, if_pos h]
    exact Or.inl rfl
  · exact Or.inr (edbClusterRemoveNode_sameFlags now h)

end EpsilonDB
