import EpsilonDB.Lib.Quorums
import EpsilonDB.Socket.Deployment
import EpsilonDB.Socket.MergeOrder
import EpsilonDB.Socket.WriteQuorum

/-!
# Reading what was written

Writes and quorum reads both prefer holders that are online. Between a write and a read
the set of online nodes may change, and the holders with it: the quorum that acknowledged
the write and the quorum that answers the read are then drawn from different holders.

- `WriteThenRead`: an accepted write under one view and a get of its record under another.
- `ReadsBack`: where a quorum of copies agrees, the get finds what some node reads that is at
  the written version or at a newer one.
- `CanAcknowledge`, `CanAnswer`: the sets of nodes behind an accepted write and behind a
  read with enough answers.
- `QuorumsOverlap`: the count over the two views that decides.
- `readYourQuorum_iff`: the get reads back every write exactly when it holds, which is
  exactly when all quorums of the two kinds meet.
-/

namespace EpsilonDB

variable {V F : Type} [DecidableEq F] (docs : Documents V F)
variable (shardKey : CString → CString → CString)
variable (d : Deployment) (W R : Finset NodeId) (partition keyspace : CString)

/-- A write accepted while exactly `W` are online, and a get of its record while exactly `R`
are. No node has gone back behind the write in between. -/
structure WriteThenRead where
  atWrite : World
  writer : NodeId
  now : Int
  deliveries : NodeId → Delivery
  doc : ChangeDoc
  atRead : World
  reader : NodeId
  clock : NodeId → Int
  answers : NodeId → Bool
  writer_mem : writer ∈ W
  reader_mem : reader ∈ R
  sees_atWrite : ∀ x ∈ W, d.Sees W (atWrite x)
  sees_atRead : ∀ x ∈ R, d.Sees R (atRead x)
  partition_eq : doc.partition = some partition
  keyspace_eq : doc.keyspace = some keyspace
  accepted : (edbReplWrite shardKey atWrite writer now deliveries d.db doc).1 = .ok
  kept : ∀ x,
    Holds shardKey (edbReplWrite shardKey atWrite writer now deliveries d.db doc).2
      (sentDoc writer doc) x → Holds shardKey atRead (sentDoc writer doc) x

namespace WriteThenRead

variable {shardKey d W R partition keyspace}
variable (r : WriteThenRead shardKey d W R partition keyspace)

/-- The record written. -/
def id : CString := r.doc.id.getD []

/-- Node `x` is at the written version or at a newer one when the get is asked. -/
def Current (x : NodeId) : Prop := Holds shardKey r.atRead (sentDoc r.writer r.doc) x

/-- The copy of node `x`. -/
def copy (x : NodeId) : Replica := ⟨(r.atRead x).engine (shardKey partition keyspace), r.clock x⟩

/-- The copies the get counts. -/
def readSet : ReadSet :=
  EpsilonDB.readSet shardKey r.atRead r.reader r.clock r.answers d.db partition keyspace

/-- What a quorum agrees on is what a current node reads: a value, or no record. -/
def ReadsBack : Prop :=
  (∀ v, edbReplReadGet docs shardKey r.atRead r.reader r.clock r.answers d.db partition keyspace
      r.id = some v →
    ∃ x, r.Current x ∧ ∃ e, (r.copy x).get docs r.id = some e ∧
      docs.fingerprint e.1 = docs.fingerprint v) ∧
  (r.readSet.required ≤ r.readSet.absent docs r.id →
    ∃ x, r.Current x ∧ (r.copy x).object docs r.id = none)

end WriteThenRead

/-- **Read your quorum**: every get that reaches its quorum reads the write back. -/
def ReadYourQuorum : Prop :=
  ∀ r : WriteThenRead shardKey d W R partition keyspace, r.ReadsBack docs

/-- The holders node `n` counts as acknowledging, itself included. -/
def countedAcks {self : NodeId} (n : ReplNode self) (ans : NodeId → Delivery)
    (payload : ChangeDoc) (holders : List NodeId) : Finset NodeId :=
  ((if self ∈ holders then [self] else []) ++
    acknowledgingHolders self ans payload holders n.peers).toFinset

/-- The nodes of `A` are those that acknowledge some accepted write while exactly `W` are
online. -/
def CanAcknowledge (A : Finset NodeId) : Prop :=
  ∃ (w : World) (self : NodeId) (now : Int) (ans : NodeId → Delivery) (doc : ChangeDoc),
    self ∈ W ∧ (∀ x ∈ W, d.Sees W (w x)) ∧ doc.partition = some partition ∧
    doc.keyspace = some keyspace ∧ (edbReplWrite shardKey w self now ans d.db doc).1 = .ok ∧
    A = countedAcks (w self) ans (sentDoc self doc)
      ((w self).countedHolders shardKey d.db partition keyspace)

/-- The nodes whose copies a read of node `self` counts. -/
def answeringNodes {self : NodeId} (n : ReplNode self) (answers : NodeId → Bool)
    (db partition keyspace : CString) : List NodeId :=
  ((queryPeers shardKey n db partition keyspace).filter fun p => answers p.id).map PeerInfo.id ++
    if self ∈ n.readHolders shardKey db partition keyspace then [self] else []

/-- The nodes of `B` are those that answer some read with enough answers while exactly `R`
are online. -/
def CanAnswer (B : Finset NodeId) : Prop :=
  ∃ (w : World) (self : NodeId) (clock : NodeId → Int) (answers : NodeId → Bool),
    self ∈ R ∧ (∀ x ∈ R, d.Sees R (w x)) ∧
    (readSet shardKey w self clock answers d.db partition keyspace).reached = true ∧
    B = (answeringNodes shardKey (w self) answers d.db partition keyspace).toFinset

/-- Every set of nodes that can acknowledge a write shares one with every set that can answer
a quorum read. -/
def QuorumsMeet : Prop :=
  ∀ A B, CanAcknowledge shardKey d W partition keyspace A →
    CanAnswer shardKey d R partition keyspace B → ¬ Disjoint A B

/-- The online holders under a view. -/
def Deployment.onlineHolders (online : Finset NodeId) (key : CString) : Finset NodeId :=
  (d.holders online key).toFinset ∩ online

/-- One of the two quorums is out of reach, or the online holders of both views are together
too few for two quorums that miss each other. A read hears at most `MAX_REPLIES` others. -/
def QuorumsOverlap (key : CString) : Prop :=
  (d.onlineHolders W key).card < d.quorum ∨ (d.onlineHolders R key).card < d.quorum ∨
    (d.onlineHolders W key ∪ d.onlineHolders R key).card < 2 * d.quorum ∨
    maxReplies + 1 < d.quorum

instance (key : CString) : Decidable (QuorumsOverlap d W R key) :=
  inferInstanceAs (Decidable (_ ∨ _))

/-! ## The copies behind a read -/

section Copies

variable {w : World} {self : NodeId} {clock : NodeId → Int} {answers : NodeId → Bool}
variable {db id : CString}

/-- The document node `x` brings to a read of node `self`. -/
def ballotOf (w : World) (self : NodeId) (clock : NodeId → Int) (id : CString) (x : NodeId) :
    Option (V × Int) :=
  let copy : Replica := ⟨(w x).engine (shardKey partition keyspace), clock x⟩
  if x = self then copy.get docs id else copy.object docs id

variable {docs shardKey partition keyspace}

omit [DecidableEq F] in
theorem object_of_ballotOf_none {x : NodeId}
    (h : ballotOf docs shardKey partition keyspace w self clock id x = none) :
    Replica.object docs ⟨(w x).engine (shardKey partition keyspace), clock x⟩ id = none := by
  simp only [ballotOf] at h
  split at h
  · rw [Replica.object, h]
    rfl
  · exact h

omit [DecidableEq F] in
theorem get_of_ballotOf {x : NodeId} {e : V × Int}
    (h : ballotOf docs shardKey partition keyspace w self clock id x = some e) :
    Replica.get docs ⟨(w x).engine (shardKey partition keyspace), clock x⟩ id = some e := by
  simp only [ballotOf] at h
  split at h
  · exact h
  · rw [Replica.object, Option.filter_eq_some_iff] at h
    exact h.1

variable {n : ReplNode self}

theorem nodup_answeringNodes :
    (answeringNodes shardKey n answers db partition keyspace).Nodup := by
  refine List.Nodup.append ?_ ?_ fun x hx hself => ?_
  · exact (nodup_queryPeers ..).sublist (List.filter_sublist.map _)
  · split <;> simp
  · obtain ⟨p, hp, rfl⟩ := List.mem_map.mp hx
    have hne := (queryPeers_subset shardKey n db partition keyspace p
      (List.mem_of_mem_filter hp)).1
    split at hself
    · exact hne (List.mem_singleton.mp hself)
    · cases hself

/-- An answering node is a holder, and the reader can reach it. -/
theorem mem_answeringNodes {x : NodeId}
    (h : x ∈ answeringNodes shardKey n answers db partition keyspace) :
    x ∈ n.readHolders shardKey db partition keyspace ∧
      (x = self ∨ ∃ p ∈ n.peers, p.id = x ∧ p.dialable = true) := by
  rcases List.mem_append.mp h with hx | hx
  · obtain ⟨p, hp, rfl⟩ := List.mem_map.mp hx
    have hp := List.mem_of_mem_filter hp
    obtain ⟨hpeer, hcond⟩ := List.mem_filter.mp (List.mem_of_mem_take hp)
    rw [Bool.and_eq_true] at hcond
    exact ⟨(queryPeers_subset shardKey n db partition keyspace p hp).2,
      Or.inr ⟨p, hpeer, rfl, hcond.2⟩⟩
  · split at hx
    · rename_i hself
      rw [List.mem_singleton.mp hx]
      exact ⟨hself, Or.inl rfl⟩
    · cases hx

/-- The copies are those of the answering nodes. -/
theorem length_copies_readSet
    (hne : ((w self).readHolders shardKey db partition keyspace).length ≠ 0) :
    (readSet shardKey w self clock answers db partition keyspace).copies.length =
      (answeringNodes shardKey (w self) answers db partition keyspace).length := by
  simp only [readSet, ReadSet.copies, answeringNodes, List.length_append, List.length_map,
    or_iff_right hne]
  split <;> simp [Nat.add_comm]

omit [DecidableEq F] in
/-- The ballots are those of the answering nodes. -/
theorem ballots_readSet
    (hne : ((w self).readHolders shardKey db partition keyspace).length ≠ 0) :
    (readSet shardKey w self clock answers db partition keyspace).ballots docs id =
      (answeringNodes shardKey (w self) answers db partition keyspace).filterMap
        (ballotOf docs shardKey partition keyspace w self clock id) := by
  simp only [readSet, ReadSet.ballots, answeringNodes, List.filterMap_append, List.filterMap_map,
    or_iff_right hne]
  congr 1
  · refine List.filterMap_congr fun p hp => ?_
    have hself : p.id ≠ self := (queryPeers_subset shardKey (w self) db partition keyspace p
      (List.mem_of_mem_filter hp)).1
    simp only [Function.comp_apply, ballotOf, if_neg hself]
  · split
    · simp only [Option.bind_some, ballotOf, List.filterMap_cons, if_true, List.filterMap_nil]
      cases Replica.get docs ⟨(w self).engine (shardKey partition keyspace), clock self⟩ id <;> rfl
    · rfl

theorem length_ballotsFor_filterMap {α : Type} (f : F) (ballot : α → Option (V × Int))
    (l : List α) :
    (ballotsFor docs f (l.filterMap ballot)).length =
      (l.filter fun x => (ballot x).any fun e => decide (docs.fingerprint e.1 = f)).length := by
  rw [ballotsFor]
  induction l with
  | nil => rfl
  | cons x l ih =>
    cases hx : ballot x with
    | none => simp [hx, ih]
    | some e => by_cases he : docs.fingerprint e.1 = f <;> simp [hx, he, ih]

omit [DecidableEq F] in
/-- The copies without a document are those of the answering nodes that bring none. -/
theorem absent_readSet
    (hne : ((w self).readHolders shardKey db partition keyspace).length ≠ 0) :
    (readSet shardKey w self clock answers db partition keyspace).absent docs id =
      ((answeringNodes shardKey (w self) answers db partition keyspace).filter fun x =>
        (ballotOf docs shardKey partition keyspace w self clock id x).isNone).length := by
  have hcount : ∀ (ballot : NodeId → Option (V × Int)) (l : List NodeId),
      (l.filter fun x => (ballot x).isNone).length + (l.filterMap ballot).length =
        l.length := by
    intro ballot l
    induction l with
    | nil => rfl
    | cons x l ih =>
      cases hx : ballot x <;> simp [hx, ← ih] <;> omega
  have hsum := absent_add_ballots docs
    (readSet shardKey w self clock answers db partition keyspace) id
  rw [length_copies_readSet hne, ballots_readSet hne] at hsum
  have := hcount (ballotOf docs shardKey partition keyspace w self clock id)
    (answeringNodes shardKey (w self) answers db partition keyspace)
  omega

omit [DecidableEq F] in
/-- When the nodes of `B` answer and none has the document, a copy is absent for each of them. -/
theorem absent_readSet_of_ballotOf_none
    (hne : ((w self).readHolders shardKey db partition keyspace).length ≠ 0) {B : Finset NodeId}
    (hmem : ∀ x, x ∈ answeringNodes shardKey (w self) answers db partition keyspace ↔ x ∈ B)
    (hnone : ∀ x ∈ B, ballotOf docs shardKey partition keyspace w self clock id x = none) :
    (readSet shardKey w self clock answers db partition keyspace).absent docs id = B.card := by
  have htoFinset : (answeringNodes shardKey (w self) answers db partition keyspace).toFinset =
      B := by
    ext x
    rw [List.mem_toFinset]
    exact hmem x
  rw [absent_readSet hne, List.filter_eq_self.mpr fun x hx =>
    Option.isNone_iff_eq_none.mpr (hnone x ((hmem x).mp hx)),
    ← List.toFinset_card_of_nodup nodup_answeringNodes, htoFinset]

end Copies

/-! ## Overlapping quorums meet -/

section Overlap

variable {docs shardKey d W R partition keyspace}

theorem quorumsOverlap_iff {key : CString} :
    QuorumsOverlap d W R key ↔
      Quorums.Meet d.quorum (d.onlineHolders W key) (d.onlineHolders R key) ∅ ∨
        maxReplies + 1 < d.quorum := by
  rw [Quorums.meet_iff (Finset.empty_subset _) (Nat.zero_le _), QuorumsOverlap,
    Finset.sdiff_empty, or_assoc, or_assoc]

/-- Gatherings that a read can hear share a node. -/
theorem QuorumsOverlap.not_disjoint {key : CString} (h : QuorumsOverlap d W R key)
    {A B : Finset NodeId} (hA : A ⊆ d.onlineHolders W key) (hAq : d.quorum ≤ A.card)
    (hB : B ⊆ d.onlineHolders R key) (hBq : d.quorum ≤ B.card)
    (hheard : B.card ≤ maxReplies + 1) : ¬ Disjoint A B := by
  rcases quorumsOverlap_iff.mp h with hmeet | hfar
  · exact hmeet A hA hAq B hB (Finset.empty_subset _) hBq
  · omega

variable {self : NodeId} {n : ReplNode self}

theorem required_countedHolders (hkey : (shardKey partition keyspace).length = 32)
    (h : d.Sees W n) :
    (n.countedHolders shardKey d.db partition keyspace).length / 2 + 1 = d.quorum := by
  rw [Deployment.countedHolders_eq hkey h, Deployment.length_holders hkey, Deployment.quorum]

theorem length_readHolders_pos (hkey : (shardKey partition keyspace).length = 32)
    (h : d.Sees R n) : 0 < (n.readHolders shardKey d.db partition keyspace).length := by
  rw [Deployment.readHolders_eq h]
  exact Deployment.length_holders_pos hkey

/-! ### The acknowledging nodes -/

theorem card_countedAcks (ans : NodeId → Delivery) (payload : ChangeDoc)
    (holders : List NodeId) :
    (countedAcks n ans payload holders).card = writeAcks n ans payload holders := by
  have hnodup : ((if self ∈ holders then [self] else []) ++
      acknowledgingHolders self ans payload holders n.peers).Nodup := by
    refine List.Nodup.append (by split <;> simp) (nodup_acknowledgingHolders n.nodup_peers) ?_
    intro x hx hack
    split at hx
    · exact (mem_acknowledgingHolders.mp hack).1.1 (List.mem_singleton.mp hx)
    · cases hx
  rw [countedAcks, List.toFinset_card_of_nodup hnodup, List.length_append, writeAcks]
  split <;> rfl

theorem mem_countedAcks {ans : NodeId → Delivery} {payload : ChangeDoc}
    {holders : List NodeId} {x : NodeId} :
    x ∈ countedAcks n ans payload holders ↔
      x ∈ holders ∧ (x = self ∨
        Contacted self n.peers x ∧ acknowledges ans payload x = true) := by
  rw [countedAcks, List.mem_toFinset, List.mem_append, mem_acknowledgingHolders]
  constructor
  · rintro (hx | ⟨hc, hack, hmem⟩)
    · split at hx
      · rename_i hself
        rw [List.mem_singleton.mp hx]
        exact ⟨hself, Or.inl rfl⟩
      · cases hx
    · exact ⟨hmem, Or.inr ⟨hc, hack⟩⟩
  · rintro ⟨hmem, rfl | ⟨hc, hack⟩⟩
    · left
      rw [if_pos hmem]
      exact List.mem_singleton_self x
    · exact Or.inr ⟨hc, hack, hmem⟩

/-- Whoever acknowledges is an online holder. -/
theorem countedAcks_subset (hkey : (shardKey partition keyspace).length = 32)
    (hself : self ∈ W) (h : d.Sees W n) (ans : NodeId → Delivery) (payload : ChangeDoc) :
    countedAcks n ans payload (n.countedHolders shardKey d.db partition keyspace) ⊆
      d.onlineHolders W (shardKey partition keyspace) := by
  intro x hx
  obtain ⟨hmem, hreach⟩ := mem_countedAcks.mp hx
  rw [Deployment.countedHolders_eq hkey h] at hmem
  refine Finset.mem_inter.mpr ⟨List.mem_toFinset.mpr hmem, ?_⟩
  rcases hreach with rfl | ⟨⟨-, p, hp, rfl, hd⟩, -⟩
  · exact hself
  · exact Deployment.mem_of_dialable h hp hd (Deployment.mem_holders hmem)

/-- All of them hold an accepted write. -/
theorem holds_of_mem_countedAcks {w : World} {now : Int} {ans : NodeId → Delivery}
    {doc : ChangeDoc} (hp : doc.partition = some partition) (hk : doc.keyspace = some keyspace)
    (hok : (edbReplWrite shardKey w self now ans d.db doc).1 = .ok) {holders : List NodeId}
    {x : NodeId} (hx : x ∈ countedAcks (w self) ans (sentDoc self doc) holders) :
    Holds shardKey (edbReplWrite shardKey w self now ans d.db doc).2 (sentDoc self doc) x := by
  rcases (mem_countedAcks.mp hx).2 with rfl | ⟨hc, hack⟩
  · exact holds_self_of_ok hp hk hok
  · rw [acknowledges, Bool.and_eq_true, decide_eq_true_eq] at hack
    exact holds_of_received hp hk hc (by rw [hack.1]; rfl) hack.2

theorem quorum_le_card_countedAcks (hkey : (shardKey partition keyspace).length = 32)
    {w : World} {now : Int} {ans : NodeId → Delivery} {doc : ChangeDoc} (h : d.Sees W (w self))
    (hp : doc.partition = some partition) (hk : doc.keyspace = some keyspace)
    (hok : (edbReplWrite shardKey w self now ans d.db doc).1 = .ok) :
    d.quorum ≤ (countedAcks (w self) ans (sentDoc self doc)
      ((w self).countedHolders shardKey d.db partition keyspace)).card := by
  rw [card_countedAcks, ← required_countedHolders hkey h]
  exact quorum_of_ok hp hk hok

/-! ### The answering nodes -/

/-- Whoever answers is an online holder. -/
theorem mem_onlineHolders_of_answering (hself : self ∈ R) (h : d.Sees R n)
    {answers : NodeId → Bool} {x : NodeId}
    (hx : x ∈ answeringNodes shardKey n answers d.db partition keyspace) :
    x ∈ d.onlineHolders R (shardKey partition keyspace) := by
  obtain ⟨hmem, hreach⟩ := mem_answeringNodes hx
  rw [Deployment.readHolders_eq h] at hmem
  refine Finset.mem_inter.mpr ⟨List.mem_toFinset.mpr hmem, ?_⟩
  rcases hreach with rfl | ⟨p, hp, rfl, hd⟩
  · exact hself
  · exact Deployment.mem_of_dialable h hp hd (Deployment.mem_holders hmem)

variable {w : World} {clock : NodeId → Int} {answers : NodeId → Bool}

theorem required_readSet (hkey : (shardKey partition keyspace).length = 32)
    (h : d.Sees R (w self)) :
    (readSet shardKey w self clock answers d.db partition keyspace).required = d.quorum := by
  have hpos := length_readHolders_pos hkey h
  have hlen : (d.holders R (shardKey partition keyspace)).length =
      min d.rf.toNat d.members.length := Deployment.length_holders hkey
  rw [ReadSet.required, Deployment.quorum, ← hlen, ← Deployment.readHolders_eq h]
  simp only [readSet]
  omega

/-- The answering nodes that satisfy a test, when there are a quorum of them, share a node
with every acknowledging quorum. -/
theorem exists_answering_mem (hkey : (shardKey partition keyspace).length = 32)
    (hoverlap : QuorumsOverlap d W R (shardKey partition keyspace)) (hself : self ∈ R)
    (h : d.Sees R (w self)) {A : Finset NodeId}
    (hA : A ⊆ d.onlineHolders W (shardKey partition keyspace)) (hAq : d.quorum ≤ A.card)
    (answers test : NodeId → Bool)
    (hq : d.quorum ≤ ((answeringNodes shardKey (w self) answers d.db partition keyspace).filter
      test).length) : ∃ x ∈ A, test x = true := by
  set B := (answeringNodes shardKey (w self) answers d.db partition keyspace).filter test with hB
  have hcard : B.toFinset.card = B.length :=
    List.toFinset_card_of_nodup (nodup_answeringNodes.sublist List.filter_sublist)
  have hsub : B.toFinset ⊆ d.onlineHolders R (shardKey partition keyspace) := fun x hx =>
    mem_onlineHolders_of_answering hself h (List.mem_of_mem_filter (List.mem_toFinset.mp hx))
  have hheard : B.length ≤ maxReplies + 1 := by
    have hcopies := (readSet shardKey w self (fun _ => 0) answers d.db partition
      keyspace).length_copies_le
    rw [length_copies_readSet (length_readHolders_pos hkey h).ne'] at hcopies
    exact (List.length_filter_le _ _).trans hcopies
  obtain ⟨x, hxA, hxB⟩ := Finset.not_disjoint_iff.mp (hoverlap.not_disjoint hA hAq hsub
    (hcard ▸ hq) (hcard ▸ hheard))
  exact ⟨x, hxA, (List.mem_filter.mp (List.mem_toFinset.mp hxB)).2⟩

/-! ### Sufficiency -/

/-- The acknowledging nodes of the write are current when the get is asked. -/
theorem WriteThenRead.current_of_mem (r : WriteThenRead shardKey d W R partition keyspace)
    {x : NodeId}
    (hx : x ∈ countedAcks (r.atWrite r.writer) r.deliveries (sentDoc r.writer r.doc)
      ((r.atWrite r.writer).countedHolders shardKey d.db partition keyspace)) : r.Current x :=
  r.kept x (holds_of_mem_countedAcks r.partition_eq r.keyspace_eq r.accepted hx)

variable (docs) in
/-- Where the quorums overlap, a quorum of copies names a current node. -/
theorem readsBack_of_overlap (hkey : (shardKey partition keyspace).length = 32)
    (hoverlap : QuorumsOverlap d W R (shardKey partition keyspace))
    (r : WriteThenRead shardKey d W R partition keyspace) : r.ReadsBack docs := by
  have hwriter := r.sees_atWrite r.writer r.writer_mem
  have hreader := r.sees_atRead r.reader r.reader_mem
  have hne := (length_readHolders_pos hkey
    hreader).ne'
  have hA := countedAcks_subset hkey r.writer_mem hwriter r.deliveries (sentDoc r.writer r.doc)
  have hAq := quorum_le_card_countedAcks hkey hwriter r.partition_eq r.keyspace_eq r.accepted
  have hrequired : r.readSet.required = d.quorum := required_readSet hkey hreader
  constructor
  · intro v hv
    have hquorum : quorumApplies (r.atRead r.reader) d.db = true := by
      rw [quorumApplies, hreader.factor]
      exact decide_eq_true d.replicated
    rw [edbReplReadGet, if_pos hquorum] at hv
    obtain ⟨e, es, hballots, -, hreq⟩ := (readGet_eq_some_iff _ _ _).mp hv
    have hlen := congrArg List.length hballots
    rw [ballots_readSet hne, length_ballotsFor_filterMap, List.length_cons] at hlen
    obtain ⟨x, hxA, hx⟩ := exists_answering_mem hkey hoverlap r.reader_mem hreader hA hAq
      r.answers _ (by rw [hlen, ← hrequired]; exact hreq)
    obtain ⟨e, he, hf⟩ := (Option.any_eq_true _ _).mp hx
    exact ⟨x, r.current_of_mem hxA, e, get_of_ballotOf he, of_decide_eq_true hf⟩
  · intro habsent
    rw [WriteThenRead.readSet, absent_readSet hne, ← WriteThenRead.readSet, hrequired] at habsent
    obtain ⟨x, hxA, hx⟩ := exists_answering_mem hkey hoverlap r.reader_mem hreader hA hAq
      r.answers _ habsent
    exact ⟨x, r.current_of_mem hxA, object_of_ballotOf_none (Option.isNone_iff_eq_none.mp hx)⟩

/-- Where the quorums overlap, they meet. -/
theorem quorumsMeet_of_overlap (hkey : (shardKey partition keyspace).length = 32)
    (hoverlap : QuorumsOverlap d W R (shardKey partition keyspace)) :
    QuorumsMeet shardKey d W R partition keyspace := by
  rintro A B ⟨w, self, now, ans, doc, hself, hsees, hp, hk, hok, rfl⟩
    ⟨w', self', clock, answers, hself', hsees', hreached, rfl⟩ hdisjoint
  have hwriter := hsees self hself
  have hreader := hsees' self' hself'
  have hAq := quorum_le_card_countedAcks hkey hwriter hp hk hok
  rw [ReadSet.reached, decide_eq_true_eq, required_readSet hkey hreader,
    length_copies_readSet (length_readHolders_pos hkey hreader).ne'] at hreached
  obtain ⟨x, hxA, hx⟩ := exists_answering_mem hkey hoverlap hself' hreader
    (countedAcks_subset hkey hself hwriter ans (sentDoc self doc)) hAq
    answers
    (fun x => decide (x ∈ answeringNodes shardKey (w' self') answers d.db partition keyspace))
    (by rwa [List.filter_eq_self.mpr fun x hx => decide_eq_true hx])
  exact Finset.disjoint_left.mp hdisjoint hxA (List.mem_toFinset.mpr (of_decide_eq_true hx))

end Overlap

/-! ## Quorums that miss each other -/

section Miss

/-- A put of the record with the empty id. -/
def emptyIdPut (db partition keyspace text : CString) : ChangeDoc where
  op := some (cstr "put")
  db := some db
  partition := some partition
  keyspace := some keyspace
  id := some []
  value := some text
  ts := some 0

/-- Exactly the nodes of `A` answer. -/
def answeredBy (A : Finset NodeId) (x : NodeId) : Delivery := if x ∈ A then .answered else .lost

/-- The nodes at the time of the write, all empty. -/
def emptyWorld (d : Deployment) (W : Finset NodeId) : World := fun x => d.node W ∅ x

/-- The nodes of `w` once exactly `R` are online. Their tables list `first` first. -/
def seenBy (d : Deployment) (R first : Finset NodeId) (w : World) : World := fun x =>
  { d.node R first x with engine := (w x).engine }

variable {docs shardKey d W R partition keyspace}
variable {self : NodeId} {A B : Finset NodeId} {text : CString}

theorem decodeChange_emptyIdPut (self : NodeId) (db : CString) :
    decodeChange (sentDoc self (emptyIdPut db partition keyspace text)) =
      some (partition, keyspace, ⟨[], .put text (-1), 0, self⟩) := by
  simp [decodeChange, sentDoc, emptyIdPut, ChangeDoc.originText]

theorem accepted_emptyIdPut (self : NodeId) (db : CString) :
    (sentDoc self (emptyIdPut db partition keyspace text)).accepted = true := by
  rw [ChangeDoc.accepted, decodeChange_emptyIdPut]
  rfl

/-- Any online holders may be those that acknowledge. -/
theorem countedAcks_emptyWorld (hkey : (shardKey partition keyspace).length = 32)
    (hself : self ∈ A) (hA : A ⊆ d.onlineHolders W (shardKey partition keyspace)) :
    countedAcks (emptyWorld d W self) (answeredBy A)
      (sentDoc self (emptyIdPut d.db partition keyspace text))
      ((emptyWorld d W self).countedHolders shardKey d.db partition keyspace) = A := by
  have hsees : d.Sees W (emptyWorld d W self) :=
    Deployment.sees_node (Finset.mem_inter.mp (hA hself)).2
  ext x
  rw [mem_countedAcks, Deployment.countedHolders_eq hkey hsees, acknowledges, accepted_emptyIdPut,
    Bool.and_true, decide_eq_true_eq, answeredBy, emptyWorld, Deployment.contacted_node]
  constructor
  · rintro ⟨-, rfl | ⟨-, hans⟩⟩
    · exact hself
    · by_contra hx
      rw [if_neg hx] at hans
      cases hans
  · intro hx
    obtain ⟨hholder, honline⟩ := Finset.mem_inter.mp (hA hx)
    have hholder := List.mem_toFinset.mp hholder
    refine ⟨hholder, or_iff_not_imp_left.mpr fun hne => ⟨⟨hne, ?_, honline⟩, if_pos hx⟩⟩
    exact Deployment.mem_holders hholder

/-- Such a write is accepted when they are a quorum. -/
theorem accepted_emptyWorld (hkey : (shardKey partition keyspace).length = 32)
    (hself : self ∈ A) (hA : A ⊆ d.onlineHolders W (shardKey partition keyspace))
    (hAq : d.quorum ≤ A.card) :
    (edbReplWrite shardKey (emptyWorld d W) self 0 (answeredBy A) d.db
      (emptyIdPut d.db partition keyspace text)).1 = .ok := by
  have hsees : d.Sees W (emptyWorld d W self) :=
    Deployment.sees_node (Finset.mem_inter.mp (hA hself)).2
  have hacks : d.quorum ≤ writeAcks (emptyWorld d W self) (answeredBy A)
      (sentDoc self (emptyIdPut d.db partition keyspace text))
      ((emptyWorld d W self).countedHolders shardKey d.db partition keyspace) := by
    rw [← card_countedAcks, countedAcks_emptyWorld hkey hself hA]
    exact hAq
  rw [edbReplWrite_status rfl rfl, quorumMissed, required_countedHolders hkey hsees,
    decide_eq_false (not_lt.mpr hacks), decodeChange_emptyIdPut]
  rfl

/-- After it they hold the put, and nobody else holds anything. -/
theorem engine_emptyWorld (hkey : (shardKey partition keyspace).length = 32)
    (hself : self ∈ A) (hA : A ⊆ d.onlineHolders W (shardKey partition keyspace))
    (hAq : d.quorum ≤ A.card) (x : NodeId) :
    ((edbReplWrite shardKey (emptyWorld d W) self 0 (answeredBy A) d.db
      (emptyIdPut d.db partition keyspace text)).2 x).engine (shardKey partition keyspace) =
      if x ∈ A then applyChange ∅ ⟨[], .put text (-1), 0, self⟩ else ∅ := by
  have hsees : d.Sees W (emptyWorld d W self) :=
    Deployment.sees_node (Finset.mem_inter.mp (hA hself)).2
  have happly : (applyChangeLocal shardKey (fun _ => ∅)
      (sentDoc self (emptyIdPut d.db partition keyspace text))).1 (shardKey partition keyspace) =
        applyChange ∅ ⟨[], .put text (-1), 0, self⟩ := by
    rw [applyChangeLocal, decodeChange_emptyIdPut]
    simp only [Function.update_self]
  by_cases hx : x = self
  · subst hx
    have hmissed : quorumMissed (emptyWorld d W x) (answeredBy A)
        (sentDoc x (emptyIdPut d.db partition keyspace text))
        ((emptyWorld d W x).countedHolders shardKey d.db partition keyspace) = false := by
      rw [quorumMissed, required_countedHolders hkey hsees, ← card_countedAcks,
        countedAcks_emptyWorld hkey hself hA]
      exact decide_eq_false (not_lt.mpr hAq)
    rw [edbReplWrite_self_engine rfl rfl, hmissed, if_neg Bool.false_ne_true, if_pos hself]
    exact happly
  · rw [edbReplWrite_other rfl rfl hx]
    by_cases hmem : x ∈ A
    · obtain ⟨hholder, honline⟩ := Finset.mem_inter.mp (hA hmem)
      have hcontacted : Contacted self (emptyWorld d W self).peers x :=
        Deployment.contacted_node.mpr
          ⟨hx, Deployment.mem_holders (List.mem_toFinset.mp hholder), honline⟩
      have hanswered : answeredBy A x = .answered := if_pos hmem
      rw [if_pos hcontacted, if_pos hmem, hanswered]
      exact happly
    · -- the exchange with a node outside `A` is lost, contacted or not
      have hlost : answeredBy A x = .lost := if_neg hmem
      simp only [hlost, receive, ite_self, if_neg hmem]
      rfl

/-- The first rows a filter keeps include those listed first. -/
theorem mem_take_filter_append {α : Type} {p : α → Bool} {l l' : List α} {k : ℕ} {x : α}
    (hx : x ∈ l) (hp : p x = true) (hlen : (l.filter p).length ≤ k) :
    x ∈ ((l ++ l').filter p).take k := by
  rw [List.filter_append, List.take_append, List.mem_append, List.take_of_length_le hlen]
  exact Or.inl (List.mem_filter.mpr ⟨hx, hp⟩)

/-- Any online holders a read can hear may be those that answer. -/
theorem mem_answeringNodes_iff {n : ReplNode self} (hsees : d.Sees R n)
    (hpeers : n.peers = (d.table R B).rows) (hself : self ∈ B)
    (hB : B ⊆ d.onlineHolders R (shardKey partition keyspace)) (hheard : B.card ≤ maxReplies + 1)
    {x : NodeId} :
    x ∈ answeringNodes shardKey n (fun x => decide (x ∈ B)) d.db partition keyspace ↔ x ∈ B := by
  have hholders : n.readHolders shardKey d.db partition keyspace =
      d.holders R (shardKey partition keyspace) := Deployment.readHolders_eq hsees
  have hholder : ∀ y ∈ B, y ∈ d.holders R (shardKey partition keyspace) := fun y hy =>
    List.mem_toFinset.mp (Finset.mem_inter.mp (hB hy)).1
  rw [answeringNodes, hholders, if_pos (hholder self hself), List.mem_append,
    List.mem_singleton, List.mem_map]
  constructor
  · rintro (⟨p, hp, rfl⟩ | rfl)
    · exact of_decide_eq_true (List.mem_filter.mp hp).2
    · exact hself
  · intro hx
    refine or_iff_not_imp_right.mpr fun hne => ?_
    have hasks : (decide (x ≠ self) && decide (x ∈ d.holders R (shardKey partition keyspace)) &&
        (Deployment.row R x).dialable) = true := by
      rw [Deployment.dialable_row, decide_eq_true hne, decide_eq_true (hholder x hx),
        decide_eq_true (Finset.mem_inter.mp (hB hx)).2]
      rfl
    have hfirst : x ∈ d.members.filter fun id => decide (id ∈ B) :=
      List.mem_filter.mpr ⟨Deployment.mem_holders (hholder x hx), decide_eq_true hx⟩
    refine ⟨Deployment.row R x, List.mem_filter.mpr ⟨?_, decide_eq_true hx⟩, rfl⟩
    rw [ReplNode.readHolders] at hholders
    simp only [queryPeers, hholders, hpeers, Deployment.rows_table]
    refine mem_take_filter_append (List.mem_map_of_mem hfirst) hasks ?_
    -- apart from the reader itself, at most `MAX_REPLIES` of `B` are asked
    have hle : (((d.members.filter fun id => decide (id ∈ B)).map (Deployment.row R)).filter
        fun p => decide (p.id ≠ self) &&
          decide (p.id ∈ d.holders R (shardKey partition keyspace)) && p.dialable).length ≤
        (B.erase self).card := by
      rw [List.filter_map, List.length_map, ← List.toFinset_card_of_nodup
        ((d.nodup.sublist List.filter_sublist).sublist List.filter_sublist)]
      refine Finset.card_le_card fun y hy => ?_
      obtain ⟨hy, hcond⟩ := List.mem_filter.mp (List.mem_toFinset.mp hy)
      simp only [Function.comp_apply, Bool.and_eq_true, decide_eq_true_eq] at hcond
      exact Finset.mem_erase.mpr ⟨hcond.1.1, of_decide_eq_true (List.mem_filter.mp hy).2⟩
    rw [Finset.card_erase_of_mem hself] at hle
    omega

/-- Any quorum of online holders can acknowledge. -/
theorem canAcknowledge_of_subset (hkey : (shardKey partition keyspace).length = 32)
    (hA : A ⊆ d.onlineHolders W (shardKey partition keyspace)) (hAq : d.quorum ≤ A.card) :
    CanAcknowledge shardKey d W partition keyspace A := by
  obtain ⟨self, hself⟩ : A.Nonempty := Finset.card_pos.mp (Nat.succ_pos _ |>.trans_le hAq)
  refine ⟨emptyWorld d W, self, 0, answeredBy A, emptyIdPut d.db partition keyspace [],
    (Finset.mem_inter.mp (hA hself)).2, fun x hx => Deployment.sees_node hx, rfl, rfl,
    accepted_emptyWorld hkey hself hA hAq, ?_⟩
  exact (countedAcks_emptyWorld hkey hself hA).symm

/-- Any quorum of online holders that a read can hear can answer. -/
theorem canAnswer_of_subset (hkey : (shardKey partition keyspace).length = 32)
    (hB : B ⊆ d.onlineHolders R (shardKey partition keyspace)) (hBq : d.quorum ≤ B.card)
    (hheard : B.card ≤ maxReplies + 1) : CanAnswer shardKey d R partition keyspace B := by
  obtain ⟨self, hself⟩ : B.Nonempty := Finset.card_pos.mp (Nat.succ_pos _ |>.trans_le hBq)
  have honline := (Finset.mem_inter.mp (hB hself)).2
  have hsees : d.Sees R (d.node R B self) := Deployment.sees_node honline
  have hnodes : (answeringNodes shardKey (d.node R B self) (fun x => decide (x ∈ B)) d.db
      partition keyspace).toFinset = B := by
    ext x
    rw [List.mem_toFinset,
      mem_answeringNodes_iff hsees (d.peers_node R B self) hself hB hheard]
  refine ⟨fun x => d.node R B x, self, fun _ => 0, fun x => decide (x ∈ B), honline,
    fun x hx => Deployment.sees_node hx, ?_, hnodes.symm⟩
  rw [ReadSet.reached, decide_eq_true_eq, required_readSet hkey hsees,
    length_copies_readSet (length_readHolders_pos hkey hsees).ne',
    ← List.toFinset_card_of_nodup nodup_answeringNodes, hnodes]
  exact hBq

/-- The put acknowledged by `A`, and a get that `B` answers. -/
def putThenGet (hkey : (shardKey partition keyspace).length = 32) {writer reader : NodeId}
    (text : CString) (hwriter : writer ∈ A)
    (hA : A ⊆ d.onlineHolders W (shardKey partition keyspace)) (hAq : d.quorum ≤ A.card)
    (hreader : reader ∈ B) (hB : B ⊆ d.onlineHolders R (shardKey partition keyspace)) :
    WriteThenRead shardKey d W R partition keyspace where
  atWrite := emptyWorld d W
  writer := writer
  now := 0
  deliveries := answeredBy A
  doc := emptyIdPut d.db partition keyspace text
  atRead := seenBy d R B (edbReplWrite shardKey (emptyWorld d W) writer 0 (answeredBy A) d.db
    (emptyIdPut d.db partition keyspace text)).2
  reader := reader
  clock := fun _ => 0
  answers := fun x => decide (x ∈ B)
  writer_mem := (Finset.mem_inter.mp (hA hwriter)).2
  reader_mem := (Finset.mem_inter.mp (hB hreader)).2
  sees_atWrite := fun _ hx => Deployment.sees_node hx
  sees_atRead := fun x hx =>
    have h : d.Sees R (d.node R B x) := Deployment.sees_node hx
    ⟨h.members, h.ranges, h.view, h.factor⟩
  partition_eq := rfl
  keyspace_eq := rfl
  accepted := accepted_emptyWorld hkey hwriter hA hAq
  kept := fun _ h => h

omit [DecidableEq F] in
/-- An empty copy has no documents. -/
theorem object_empty (now : Int) (id : CString) : Replica.object docs ⟨∅, now⟩ id = none := by
  rw [Replica.object, Replica.get, edbShardGetTs, AList.lookup_empty]
  rfl

theorem lookup_applyChange_empty (c : Change) : (applyChange ∅ c).lookup c.id = some c.row := by
  have hnone : storedVersionLocked ∅ c.id = none := by
    rw [storedVersionLocked, AList.lookup_empty]
  rw [applyChange_eq, hnone, storedNewer, if_neg Bool.false_ne_true, AList.lookup_insert]

omit [DecidableEq F] in
/-- A copy that took the put has its document. -/
theorem object_put {v : V} (hne : text ≠ []) (hparse : docs.parse text = some v)
    (hobject : docs.isObject v = true) (now : Int) :
    Replica.object docs ⟨applyChange ∅ ⟨[], .put text (-1), 0, self⟩, now⟩ [] = some (v, 0) := by
  have hlookup := lookup_applyChange_empty ⟨[], .put text (-1), 0, self⟩
  rw [Replica.object, Replica.get, edbShardGetTs, hlookup]
  simp [Change.row, putRow, Row.live, Row.document, hne, hparse, Option.filter_some, hobject]

/-- When the two sets are apart, all copies asked agree that there is no record, and every
current node has it. -/
theorem not_readsBack_putThenGet (hkey : (shardKey partition keyspace).length = 32)
    {writer reader : NodeId} (hwriter : writer ∈ A)
    (hA : A ⊆ d.onlineHolders W (shardKey partition keyspace)) (hAq : d.quorum ≤ A.card)
    (hreader : reader ∈ B) (hB : B ⊆ d.onlineHolders R (shardKey partition keyspace))
    (hBq : d.quorum ≤ B.card) (hheard : B.card ≤ maxReplies + 1) (hdisjoint : Disjoint A B)
    {v : V} (hne : text ≠ []) (hparse : docs.parse text = some v)
    (hobject : docs.isObject v = true) :
    ¬ (putThenGet hkey text hwriter hA hAq hreader hB).ReadsBack docs := by
  set r := putThenGet hkey text hwriter hA hAq hreader hB with hr
  have hsees : d.Sees R (r.atRead reader) :=
    r.sees_atRead reader (Finset.mem_inter.mp (hB hreader)).2
  have hengine : ∀ x, (r.atRead x).engine (shardKey partition keyspace) =
      if x ∈ A then applyChange ∅ ⟨[], .put text (-1), 0, writer⟩ else ∅ :=
    engine_emptyWorld hkey hwriter hA hAq
  have hpos := length_readHolders_pos hkey hsees
  rintro ⟨-, habsent⟩
  -- the copies of `B` are empty, so the quorum finds no record
  have hballot : ∀ x ∈ B, ballotOf docs shardKey partition keyspace r.atRead reader r.clock r.id x =
      none := by
    intro x hx
    have hempty := (hengine x).trans (if_neg (Finset.disjoint_right.mp hdisjoint hx))
    simp only [ballotOf, hempty]
    split
    · rw [Replica.get, edbShardGetTs, AList.lookup_empty]
    · exact object_empty _ _
  have hquorum : r.readSet.required ≤ r.readSet.absent docs r.id := by
    have hrequired : r.readSet.required = d.quorum := required_readSet hkey hsees
    have habsent : r.readSet.absent docs r.id = B.card :=
      absent_readSet_of_ballotOf_none hpos.ne'
        (fun x => mem_answeringNodes_iff hsees (d.peers_node R B reader) hreader hB hheard) hballot
    rw [hrequired, habsent]
    exact hBq
  obtain ⟨x, hcurrent, hnone⟩ := habsent hquorum
  by_cases hxA : x ∈ A
  · rw [WriteThenRead.copy, hengine, if_pos hxA] at hnone
    cases hnone.symm.trans (object_put hne hparse hobject _)
  · obtain ⟨p, k, c, hdec, hle⟩ := hcurrent
    obtain ⟨rfl, rfl, rfl⟩ :=
      Option.some.inj ((decodeChange_emptyIdPut writer d.db).symm.trans hdec)
    rw [hengine, if_neg hxA, comparedVersion, versionAs_row] at hle
    exact WithBot.not_coe_le_bot _ hle

/-- Without an overlap, some quorums miss each other. -/
theorem exists_missing {key : CString} (h : ¬ QuorumsOverlap d W R key) :
    ∃ A ⊆ d.onlineHolders W key, d.quorum ≤ A.card ∧ ∃ B ⊆ d.onlineHolders R key,
      d.quorum ≤ B.card ∧ B.card ≤ maxReplies + 1 ∧ Disjoint A B := by
  rw [QuorumsOverlap, not_or, not_or, not_or, not_lt, not_lt, not_lt, not_lt] at h
  obtain ⟨hX, hZ, hXZ, hheard⟩ := h
  obtain ⟨A, hA, hAq, B, hB, -, hBq, hdisjoint⟩ :=
    Quorums.exists_disjoint (Finset.empty_subset _) (Nat.zero_le _) hX hZ hXZ
  exact ⟨A, hA, hAq.ge, B, hB, hBq.ge, hBq.trans_le hheard, hdisjoint⟩

theorem overlap_of_quorumsMeet (hkey : (shardKey partition keyspace).length = 32)
    (h : QuorumsMeet shardKey d W R partition keyspace) :
    QuorumsOverlap d W R (shardKey partition keyspace) := by
  by_contra hmiss
  obtain ⟨A, hA, hAq, B, hB, hBq, hheard, hdisjoint⟩ := exists_missing hmiss
  exact h A B (canAcknowledge_of_subset hkey hA hAq) (canAnswer_of_subset hkey hB hBq hheard)
    hdisjoint

theorem overlap_of_readYourQuorum (hkey : (shardKey partition keyspace).length = 32)
    (hjson : ∃ text v, text ≠ [] ∧ docs.parse text = some v ∧ docs.isObject v = true)
    (h : ReadYourQuorum docs shardKey d W R partition keyspace) :
    QuorumsOverlap d W R (shardKey partition keyspace) := by
  by_contra hmiss
  obtain ⟨A, hA, hAq, B, hB, hBq, hheard, hdisjoint⟩ := exists_missing hmiss
  obtain ⟨text, v, hne, hparse, hobject⟩ := hjson
  obtain ⟨writer, hwriter⟩ : A.Nonempty := Finset.card_pos.mp (Nat.succ_pos _ |>.trans_le hAq)
  obtain ⟨reader, hreader⟩ : B.Nonempty := Finset.card_pos.mp (Nat.succ_pos _ |>.trans_le hBq)
  exact not_readsBack_putThenGet hkey hwriter hA hAq hreader hB hBq hheard hdisjoint hne hparse
    hobject (h _)

end Miss

/-- **Reads see accepted writes, exactly** when the quorums of the two views overlap, and that
is when they meet. Some text of `docs` is an object. -/
theorem readYourQuorum_iff (hkey : (shardKey partition keyspace).length = 32)
    (hjson : ∃ text v, text ≠ [] ∧ docs.parse text = some v ∧ docs.isObject v = true) :
    (ReadYourQuorum docs shardKey d W R partition keyspace ↔
      QuorumsOverlap d W R (shardKey partition keyspace)) ∧
    (QuorumsMeet shardKey d W R partition keyspace ↔
      QuorumsOverlap d W R (shardKey partition keyspace)) :=
  ⟨⟨overlap_of_readYourQuorum hkey hjson, fun h r => readsBack_of_overlap docs hkey h r⟩,
    ⟨overlap_of_quorumsMeet hkey, quorumsMeet_of_overlap hkey⟩⟩

/-- Members `a` to `d`, a slice each, and a database with two copies of every shard. -/
def fourMembers : Deployment where
  members := [cstr "a", cstr "b", cstr "c", cstr "d"]
  nodup := by decide
  valid := by decide
  ne_nil := by decide
  fits := by decide
  ranges := buildSlices [cstr "a", cstr "b", cstr "c", cstr "d"]
  db := cstr "db"
  rf := 2
  replicated := by decide

/-- Every shard at the start of the key space. -/
def firstKey (_ _ : CString) : CString := sliceBound 0

theorem textDocuments_object :
    ∃ text v, text ≠ [] ∧ textDocuments.parse text = some v ∧ textDocuments.isObject v = true :=
  ⟨textObject 1, textObject 1, by decide, rfl, by decide⟩

/-- While `a` and `b` are online they are the holders, and one of them still is when `b` and
`c` are. -/
theorem oneStays_readYourQuorum :
    ReadYourQuorum textDocuments firstKey fourMembers {cstr "a", cstr "b"}
        {cstr "b", cstr "c"} (cstr "p") (cstr "k") ∧
      QuorumsMeet firstKey fourMembers {cstr "a", cstr "b"}
        {cstr "b", cstr "c"} (cstr "p") (cstr "k") := by
  have h := readYourQuorum_iff textDocuments firstKey fourMembers
    {cstr "a", cstr "b"} {cstr "b", cstr "c"} (cstr "p") (cstr "k") (by decide) textDocuments_object
  exact ⟨h.1.mpr (by decide +kernel), h.2.mpr (by decide +kernel)⟩

/-- The write is acknowledged by `a` and `b`. When `c` and `d` alone are online, they are the
holders and agree that there is no such record. -/
theorem quorum_moves_away :
    ¬ ReadYourQuorum textDocuments firstKey fourMembers {cstr "a", cstr "b"}
        {cstr "c", cstr "d"} (cstr "p") (cstr "k") ∧
      ¬ QuorumsMeet firstKey fourMembers {cstr "a", cstr "b"}
        {cstr "c", cstr "d"} (cstr "p") (cstr "k") := by
  have hmiss : ¬ QuorumsOverlap fourMembers {cstr "a", cstr "b"} {cstr "c", cstr "d"}
      (firstKey (cstr "p") (cstr "k")) := by decide +kernel
  constructor
  · exact fun h => hmiss (overlap_of_readYourQuorum (by decide) textDocuments_object h)
  · exact fun h => hmiss (overlap_of_quorumsMeet (by decide) h)

end EpsilonDB
