import EpsilonDB.Socket.Repl

/-!
# Which accepted writes are on a quorum

The write path counts acknowledgements against half of the holders it *found*, not
against half of the replication factor. A cluster with fewer members than the factor
therefore accepts writes that fewer than `rf / 2 + 1` nodes hold.

- `Holds`: a node's shard is at the change or at a newer version of its record.
- `AcceptedOnQuorum`: whatever the peers answer, an accepted write is held by
  `rf / 2 + 1` nodes.
- `acceptedOnQuorum_iff`: exactly the views in which this is so.
-/

namespace EpsilonDB

variable (shardKey : CString → CString → CString)

/-- Node `x` has applied the change of `doc`, or holds a newer version. -/
def Holds (w : World) (doc : ChangeDoc) (x : NodeId) : Prop :=
  ∃ partition keyspace change, decodeChange doc = some (partition, keyspace, change) ∧
    comparedVersion (some change.row) ≤
      comparedVersion (((w x).engine (shardKey partition keyspace)).lookup change.id)

instance (w : World) (doc : ChangeDoc) (x : NodeId) : Decidable (Holds shardKey w doc x) :=
  match h : decodeChange doc with
  | none => isFalse fun ⟨_, _, _, hdec, _⟩ => by cases h.symm.trans hdec
  | some (partition, keyspace, change) =>
    decidable_of_iff (HeldIn ((w x).engine (shardKey partition keyspace)) change)
      ⟨fun hle => ⟨partition, keyspace, change, h, hle⟩, fun ⟨_, _, _, hdec, hle⟩ => by
        obtain ⟨rfl, rfl, rfl⟩ := Option.some.inj (h.symm.trans hdec)
        exact hle⟩

/-- Every accepted write of node `n` to a shard of `db` is held by `rf / 2 + 1`
distinct nodes when it returns. -/
def AcceptedOnQuorum {self : NodeId} (n : ReplNode self) (db partition keyspace : CString) :
    Prop :=
  ∀ (w : World) (now : Int) (ans : NodeId → Delivery) (doc : ChangeDoc), w self = n →
    doc.partition = some partition → doc.keyspace = some keyspace →
    (edbReplWrite shardKey w self now ans db doc).1 = .ok →
    ∃ S : List NodeId, S.Nodup ∧ replicationFactor n.databases db / 2 + 1 ≤ S.length ∧
      ∀ x ∈ S, Holds shardKey (edbReplWrite shardKey w self now ans db doc).2
        (sentDoc self doc) x

/-- The other holders node `n` can send a write to. -/
def reachableHolders {self : NodeId} (n : ReplNode self) (holders : List NodeId) :
    List NodeId :=
  (n.peers.filter fun p => p.id ≠ self && p.dialable && p.id ∈ holders).map PeerInfo.id

/-- Either the counted quorum is out of reach, or reaching it takes `rf / 2 + 1` nodes.
A writer that is no holder itself applies the change on top of the quorum. -/
def QuorumCoversFactor {self : NodeId} (n : ReplNode self) (db partition keyspace : CString) :
    Prop :=
  let holders := n.countedHolders shardKey db partition keyspace
  let required := holders.length / 2 + 1
  (if self ∈ holders then 1 else 0) + (reachableHolders n holders).length < required ∨
    replicationFactor n.databases db / 2 + 1 ≤ required + if self ∈ holders then 0 else 1

instance {self : NodeId} (n : ReplNode self) (db partition keyspace : CString) :
    Decidable (QuorumCoversFactor shardKey n db partition keyspace) :=
  inferInstanceAs (Decidable (_ ∨ _))

section

variable {shardKey}
variable {w : World} {self : NodeId} {now : Int} {ans : NodeId → Delivery} {db : CString}
variable {doc : ChangeDoc} {partition keyspace : CString} {holders : List NodeId}

theorem mem_reachableHolders {n : ReplNode self} {x : NodeId} :
    x ∈ reachableHolders n holders ↔ Contacted self n.peers x ∧ x ∈ holders := by
  simp only [reachableHolders, Contacted, List.mem_map, List.mem_filter, Bool.and_eq_true,
    decide_eq_true_eq]
  constructor
  · rintro ⟨p, ⟨hp, ⟨hself, hd⟩, hmem⟩, rfl⟩
    exact ⟨⟨hself, p, hp, rfl, hd⟩, hmem⟩
  · rintro ⟨⟨hself, p, hp, rfl, hd⟩, hmem⟩
    exact ⟨p, ⟨hp, ⟨hself, hd⟩, hmem⟩, rfl⟩

theorem nodup_reachableHolders (n : ReplNode self) (holders : List NodeId) :
    (reachableHolders n holders).Nodup :=
  n.nodup_peers.sublist (List.filter_sublist.map _)

/-- Only reachable holders acknowledge. -/
theorem length_acknowledgingHolders_le (n : ReplNode self) (payload : ChangeDoc) :
    (acknowledgingHolders self ans payload holders n.peers).length ≤
      (reachableHolders n holders).length := by
  refine ((nodup_acknowledgingHolders n.nodup_peers).subperm fun x hx => ?_).length_le
  obtain ⟨hc, -, hmem⟩ := mem_acknowledgingHolders.mp hx
  exact mem_reachableHolders.mpr ⟨hc, hmem⟩

/-! ## Engines only get newer -/

theorem below_applyChangeLocal (engine : CString → Shard) (doc : ChangeDoc) (key : CString) :
    Below (engine key) ((applyChangeLocal shardKey engine doc).1 key) := by
  unfold applyChangeLocal
  cases decodeChange doc with
  | none => exact Below.refl _
  | some x =>
    obtain ⟨partition, keyspace, c⟩ := x
    show Below (engine key) (Function.update engine (shardKey partition keyspace) _ key)
    by_cases hkey : key = shardKey partition keyspace
    · subst hkey
      rw [Function.update_self]
      exact below_applyChange _ c
    · rw [Function.update_of_ne hkey]
      exact Below.refl _

theorem below_apiApplyChange (engine : CString → Shard) (doc : ChangeDoc) (key : CString) :
    Below (engine key) ((apiApplyChange shardKey engine doc).1 key) := by
  unfold apiApplyChange
  cases doc.db with
  | none => exact Below.refl _
  | some db => exact below_applyChangeLocal engine doc key

/-- No exchange takes a receiver back. -/
theorem below_receive {x : NodeId} (d : Delivery) (n : ReplNode x) (doc : ChangeDoc)
    (key : CString) : Below (n.engine key) ((receive shardKey d n doc).1.engine key) := by
  rw [receive_fst]
  split
  · exact below_apiApplyChange n.engine doc key
  · exact Below.refl _

/-- No write takes a node back. -/
theorem below_edbReplWrite (w : World) (self : NodeId) (now : Int) (ans : NodeId → Delivery)
    (db : CString) (doc : ChangeDoc) (x : NodeId) (key : CString) :
    Below ((w x).engine key) (((edbReplWrite shardKey w self now ans db doc).2 x).engine key) := by
  cases hp : doc.partition with
  | none =>
    rw [edbReplWrite, hp]
    exact Below.refl _
  | some partition =>
    cases hk : doc.keyspace with
    | none =>
      rw [edbReplWrite, hp, hk]
      exact Below.refl _
    | some keyspace =>
      by_cases hx : x = self
      · subst hx
        rw [edbReplWrite_self_engine hp hk]
        split
        · exact Below.refl _
        · exact below_applyChangeLocal (w x).engine (sentDoc x doc) key
      · rw [edbReplWrite_other hp hk hx]
        split
        · exact below_receive (ans x) (w x) (sentDoc self doc) key
        · exact Below.refl _

/-- A change just applied is held. -/
theorem version_le_applyChange (sh : Shard) (c : Change) :
    comparedVersion (some c.row) ≤ comparedVersion ((applyChange sh c).lookup c.id) := by
  rw [lookup_applyChange, if_pos rfl]
  exact LastWriter.le_write_right ..

theorem version_le_applyChangeLocal {engine : CString → Shard} {c : Change}
    (h : decodeChange doc = some (partition, keyspace, c)) :
    comparedVersion (some c.row) ≤ comparedVersion
      (((applyChangeLocal shardKey engine doc).1 (shardKey partition keyspace)).lookup c.id) := by
  rw [applyChangeLocal, h]
  simp only [Function.update_self]
  exact version_le_applyChange ..

/-- A receiver that handled an acceptable document holds its change. -/
theorem holds_of_received {x : NodeId} (hp : doc.partition = some partition)
    (hk : doc.keyspace = some keyspace) (hx : Contacted self (w self).peers x)
    (hans : (ans x).handled = true) (hacc : (sentDoc self doc).accepted = true) :
    Holds shardKey (edbReplWrite shardKey w self now ans db doc).2 (sentDoc self doc) x := by
  rw [ChangeDoc.accepted, Bool.and_eq_true] at hacc
  obtain ⟨hdb, hdec⟩ := hacc
  obtain ⟨⟨p, k, c⟩, hdec⟩ := Option.isSome_iff_exists.mp hdec
  obtain ⟨db', hdb⟩ := Option.isSome_iff_exists.mp hdb
  refine ⟨p, k, c, hdec, ?_⟩
  rw [edbReplWrite_other hp hk hx.1, if_pos hx, receive_fst, if_pos hans]
  simp only [apiApplyChange, hdb]
  exact version_le_applyChangeLocal hdec

/-- The writer of an accepted write holds its change. -/
theorem holds_self_of_ok (hp : doc.partition = some partition)
    (hk : doc.keyspace = some keyspace)
    (hok : (edbReplWrite shardKey w self now ans db doc).1 = .ok) :
    Holds shardKey (edbReplWrite shardKey w self now ans db doc).2 (sentDoc self doc) self := by
  rw [edbReplWrite_status hp hk] at hok
  split at hok
  · cases hok
  · rename_i hq
    split at hok
    · rename_i hdec
      obtain ⟨⟨p, k, c⟩, hdec⟩ := Option.isSome_iff_exists.mp hdec
      refine ⟨p, k, c, hdec, ?_⟩
      rw [edbReplWrite_self_engine hp hk, if_neg hq]
      exact version_le_applyChangeLocal hdec
    · cases hok

/-- The acknowledging holders of an accepted write reach the counted quorum. -/
theorem quorum_of_ok (hp : doc.partition = some partition) (hk : doc.keyspace = some keyspace)
    (hok : (edbReplWrite shardKey w self now ans db doc).1 = .ok) :
    ((w self).countedHolders shardKey db partition keyspace).length / 2 + 1 ≤
      writeAcks (w self) ans (sentDoc self doc)
        ((w self).countedHolders shardKey db partition keyspace) := by
  rw [edbReplWrite_status hp hk] at hok
  split at hok
  · cases hok
  · rename_i hq
    simpa [quorumMissed] using hq

/-- **Sufficiency**: the writer and the acknowledging holders are the quorum. -/
theorem acceptedOnQuorum_of_covers {n : ReplNode self}
    (h : QuorumCoversFactor shardKey n db partition keyspace) :
    AcceptedOnQuorum shardKey n db partition keyspace := by
  intro w now ans doc hw hp hk hok
  have hquorum := quorum_of_ok hp hk hok
  rw [hw] at hquorum
  have hreach : (acknowledgingHolders self ans (sentDoc self doc)
      (n.countedHolders shardKey db partition keyspace) n.peers).length ≤
      (reachableHolders n (n.countedHolders shardKey db partition keyspace)).length :=
    length_acknowledgingHolders_le n (sentDoc self doc)
  refine ⟨self :: acknowledgingHolders self ans (sentDoc self doc)
    (n.countedHolders shardKey db partition keyspace) n.peers, ?_, ?_, ?_⟩
  · refine List.nodup_cons.mpr ⟨fun hmem => ?_, nodup_acknowledgingHolders n.nodup_peers⟩
    exact (mem_acknowledgingHolders.mp hmem).1.1 rfl
  · rw [List.length_cons]
    simp only [writeAcks] at hquorum
    rcases h with h | h
    · -- the quorum was reached, so it was within reach
      omega
    · split at h <;> simp_all <;> omega
  · intro x hx
    rcases List.mem_cons.mp hx with rfl | hx
    · exact holds_self_of_ok hp hk hok
    · obtain ⟨hc, hack, -⟩ := mem_acknowledgingHolders.mp hx
      rw [acknowledges, Bool.and_eq_true, decide_eq_true_eq] at hack
      exact holds_of_received hp hk (hw ▸ hc) (by rw [hack.1]; rfl) hack.2

/-! ## Necessity: just enough holders answer -/

/-- Only the ids of `S` answer. -/
def answersOf (S : List NodeId) (x : NodeId) : Delivery := if x ∈ S then .answered else .lost

/-- A delete of the record with the empty id. -/
def probeDoc (db partition keyspace : CString) : ChangeDoc where
  op := some (cstr "delete")
  db := some db
  partition := some partition
  keyspace := some keyspace
  id := some []
  ts := some 0

theorem decodeChange_probeDoc (self : NodeId) :
    decodeChange (sentDoc self (probeDoc db partition keyspace)) =
      some (partition, keyspace, ⟨[], .delete, 0, self⟩) := by
  have hne : cstr "delete" ≠ cstr "put" := by decide
  simp [decodeChange, sentDoc, probeDoc, ChangeDoc.originText, hne]

theorem accepted_probeDoc (self : NodeId) :
    (sentDoc self (probeDoc db partition keyspace)).accepted = true := by
  rw [ChangeDoc.accepted, decodeChange_probeDoc]
  rfl

/-- The holders that acknowledge the probe are those chosen to answer. -/
theorem acknowledgingHolders_answersOf {n : ReplNode self} {S : List NodeId} (hS : S.Nodup)
    (hsub : ∀ x ∈ S, x ∈ reachableHolders n holders) :
    (acknowledgingHolders self (answersOf S)
      (sentDoc self (probeDoc db partition keyspace)) holders n.peers).length = S.length := by
  refine List.Perm.length_eq
    ((List.perm_ext_iff_of_nodup (nodup_acknowledgingHolders n.nodup_peers) hS).mpr fun x => ?_)
  rw [mem_acknowledgingHolders, acknowledges, accepted_probeDoc, Bool.and_true,
    decide_eq_true_eq, answersOf]
  constructor
  · rintro ⟨-, hans, -⟩
    by_contra hx
    rw [if_neg hx] at hans
    cases hans
  · intro hx
    obtain ⟨hc, hmem⟩ := mem_reachableHolders.mp (hsub x hx)
    exact ⟨hc, if_pos hx, hmem⟩

/-- A node without data holds the probe only if it answered or wrote it. -/
theorem mem_of_holds_probe {n : ReplNode self} {S : List NodeId} {x : NodeId}
    (h : Holds shardKey (edbReplWrite shardKey (worldOf n) self now (answersOf S) db
      (probeDoc db partition keyspace)).2 (sentDoc self (probeDoc db partition keyspace)) x) :
    x = self ∨ x ∈ S := by
  by_contra hx
  obtain ⟨hself, hS⟩ := not_or.mp hx
  obtain ⟨p, k, c, hdec, hle⟩ := h
  have hblank : (worldOf n) x = blankNode x := Function.update_of_ne hself ..
  have hsame : (receive shardKey (answersOf S x) ((worldOf n) x)
      (sentDoc self (probeDoc db partition keyspace))).1 = (worldOf n) x := by
    rw [answersOf, if_neg hS]
    rfl
  rw [edbReplWrite_other rfl rfl hself, hsame, ite_self, hblank] at hle
  rw [comparedVersion, versionAs_row] at hle
  exact WithBot.not_coe_le_bot _ hle

/-- **Necessity**: when exactly a counted quorum answers, nobody else holds the write. -/
theorem covers_of_acceptedOnQuorum {n : ReplNode self}
    (h : AcceptedOnQuorum shardKey n db partition keyspace) :
    QuorumCoversFactor shardKey n db partition keyspace := by
  by_contra hcover
  rw [QuorumCoversFactor] at hcover
  obtain ⟨hreach, hfew⟩ := not_or.mp hcover
  rw [not_lt] at hreach
  rw [not_le] at hfew
  set holders := n.countedHolders shardKey db partition keyspace with hholders
  -- the holders that answer: as many as the writer's own vote leaves open
  obtain ⟨m, hm⟩ : ∃ m, (if self ∈ holders then 1 else 0) + m = holders.length / 2 + 1 := by
    split
    · exact ⟨holders.length / 2, Nat.add_comm ..⟩
    · exact ⟨holders.length / 2 + 1, Nat.zero_add _⟩
  set S := (reachableHolders n holders).take m with hS
  have hlen : S.length = m := by
    rw [hS, List.length_take]
    omega
  have hnodup : S.Nodup := (nodup_reachableHolders n holders).sublist (List.take_sublist ..)
  have hself : (worldOf n) self = n := Function.update_self ..
  have hacks : writeAcks n (answersOf S) (sentDoc self (probeDoc db partition keyspace))
      holders = holders.length / 2 + 1 := by
    rw [writeAcks, acknowledgingHolders_answersOf hnodup fun x hx => List.mem_of_mem_take hx,
      hlen, hm]
  have hok : (edbReplWrite shardKey (worldOf n) self 0 (answersOf S) db
      (probeDoc db partition keyspace)).1 = .ok := by
    rw [edbReplWrite_status rfl rfl, hself, quorumMissed, ← hholders, hacks,
      decodeChange_probeDoc]
    simp
  obtain ⟨T, hT, hcount, hholds⟩ := h _ 0 (answersOf S) _ hself rfl rfl hok
  have hsub : T ⊆ self :: S := fun x hx =>
    List.mem_cons.mpr (mem_of_holds_probe (hholds x hx))
  have hle := (hT.subperm hsub).length_le
  rw [List.length_cons, hlen] at hle
  split at hm
  · rename_i hmem
    rw [if_pos hmem] at hfew
    omega
  · rename_i hmem
    rw [if_neg hmem] at hfew
    omega

end

/-- **Accepted writes are on a quorum, exactly.** -/
theorem acceptedOnQuorum_iff {self : NodeId} (n : ReplNode self)
    (db partition keyspace : CString) :
    AcceptedOnQuorum shardKey n db partition keyspace ↔
      QuorumCoversFactor shardKey n db partition keyspace :=
  ⟨covers_of_acceptedOnQuorum, acceptedOnQuorum_of_covers⟩

/-- Node `a` alone in its cluster, with database `d` replicated three times. -/
def loneNode : ReplNode (cstr "a") where
  cluster :=
    { selfId := cstr "a"
      selfAddr := cstr "host"
      selfPort := 1
      peers := PeerTable.empty.add { id := cstr "a", addr := cstr "host", port := 1, online := true }
      ranges := buildSlices [cstr "a"] }
  selfId_eq := rfl
  bounded := by decide
  databases := fun _ => some 3
  cache := ⟨true, []⟩

/-- The lone node accepts writes that no second node holds. -/
theorem loneNode_accepts_alone :
    ¬ AcceptedOnQuorum (fun _ _ => sliceBound 0) loneNode (cstr "d") (cstr "p") (cstr "k") :=
  fun h => absurd (covers_of_acceptedOnQuorum h) (by decide)

end EpsilonDB
