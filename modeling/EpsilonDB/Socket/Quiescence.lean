import EpsilonDB.Socket.Replicas

/-!
# Replicas at rest

When all queues are empty and no write is under way, the members hold the same records: of every
record the newest change that was written. So it is after a run in which no write lost its quorum
or was killed with its process, every writer knew all members, and no two changes of a record have
the same timestamp and origin.

- `HeldBy`: a node's shard is at the change of a document or at a newer version.
- `Calm`: such a run, step by step.
- `WriteServed`, `Covered`: what a write under way has done for the members, and what is done for
  every document: a member holds it, a row is queued for it, or its write is under way.
- `Agreed`: the members hold the newest change of every record.
- `agreed_at_rest`: calm runs agree when they come to rest.
- `twoNodes_agree`: a run in which a member is away and is served later.
-/

namespace EpsilonDB

variable (shardKey : CString → CString → CString)

/-- The shards have the change of the document, if it stands for one, or a newer version. -/
def HeldBy (engine : CString → Shard) (doc : ChangeDoc) : Prop :=
  ∀ e ∈ decodeChange doc, HeldIn (engine (shardKey e.1 e.2.1)) e.2.2

namespace Replicas

/-- The node has the change of the document, or a newer version. -/
def Held (s : Replicas) (y : NodeId) (doc : ChangeDoc) : Prop :=
  HeldBy shardKey (s.nodes y).node.engine doc

/-- Two documents do not write different rows of one record under one version. -/
def Apart (doc doc' : ChangeDoc) : Prop :=
  ∀ e ∈ effect shardKey doc, ∀ e' ∈ effect shardKey doc', e.1 = e'.1 → e.2.1 = e'.2.1 →
    versionLe (some e.2.2) (some e'.2.2) = true → versionLe (some e'.2.2) (some e.2.2) = true →
      e.2.2 = e'.2.2

instance (doc doc' : ChangeDoc) : Decidable (Apart shardKey doc doc') :=
  inferInstanceAs (Decidable (∀ e ∈ effect shardKey doc, ∀ e' ∈ effect shardKey doc', _))

variable (members : List NodeId)

/-- A step of a member that leaves nothing behind: a write begins with a version of its own and
with all members in its snapshot of the peers, it finds its quorum, its change is queued under a
fresh id, and a process ends between its writes. -/
def CalmStep (s : Replicas) (x : NodeId) : Coordinator.Label x → Prop
  | .begin _ _ doc =>
    (∀ y ∈ members, y = x ∨ ∃ p ∈ (s.nodes x).node.peers, p.id = y) ∧
      ∀ d ∈ s.begun, Apart shardKey (sentDoc x doc) d
  | .settle i =>
    ∀ w ∈ (s.nodes x).writes[i]?, w.holders.length / 2 + 1 ≤ w.acknowledgements
  | .restart _ _ => (s.nodes x).writes.length = 0
  | _ => True

/-- A step that leaves nothing behind. -/
def Calm (s : Replicas) : Label → Prop
  | .own x l => x ∈ members ∧ (s.nodes x).SafeStep l ∧ s.CalmStep shardKey members x l
  | _ => True

instance (s : Replicas) (x : NodeId) (l : Coordinator.Label x) :
    Decidable (s.CalmStep shardKey members x l) :=
  match l with
  | .begin _ _ _ => inferInstanceAs (Decidable (_ ∧ _))
  | .settle _ => inferInstanceAs (Decidable (∀ _ ∈ _, _))
  | .restart _ _ => inferInstanceAs (Decidable (_ = 0))
  | .exchange _ _ | .append _ | .finish _ | .load _ | .answer _ _ | .remove _ | .incoming _
  | .observe _ _ _ _ => isTrue trivial

instance (s : Replicas) (l : Label) : Decidable (s.Calm shardKey members l) := by
  cases l <;> unfold Calm <;> infer_instance

/-- The members have nothing to do. -/
def AtRest (s : Replicas) : Prop :=
  ∀ x ∈ members, (s.nodes x).writes.length = 0 ∧ (s.nodes x).cached = []

instance (s : Replicas) : Decidable (s.AtRest members) :=
  inferInstanceAs (Decidable (∀ x ∈ members, _ ∧ _))

/-- The row is the newest one that the documents write for the record. -/
def Newest (docs : List ChangeDoc) (key id : CString) : Option Row → Prop
  | none => ∀ doc ∈ docs, ∀ r, effect shardKey doc ≠ some (key, id, r)
  | some r =>
    (∃ doc ∈ docs, effect shardKey doc = some (key, id, r)) ∧
      ∀ doc ∈ docs, ∀ r', effect shardKey doc = some (key, id, r') →
        comparedVersion (some r') ≤ comparedVersion (some r)

/-- **The members agree**, on the newest change of every record. -/
def Agreed (s : Replicas) : Prop :=
  ∀ key id, ∀ y ∈ members,
    Newest shardKey s.begun key id (((s.nodes y).node.engine key).lookup id) ∧
      ∀ z ∈ members,
        ((s.nodes z).node.engine key).lookup id = ((s.nodes y).node.engine key).lookup id

/-! ## What a write does for the members -/

section

variable {shardKey} {members}

theorem heldBy_mono {engine engine' : CString → Shard} {doc : ChangeDoc}
    (h : HeldBy shardKey engine doc) (hle : ∀ key, Below (engine key) (engine' key)) :
    HeldBy shardKey engine' doc :=
  fun e he => (h e he).mono (hle _)

theorem heldBy_applyChangeLocal (engine : CString → Shard) (doc : ChangeDoc) :
    HeldBy shardKey (applyChangeLocal shardKey engine doc).1 doc := by
  rintro ⟨partition, keyspace, c⟩ he
  exact version_le_applyChangeLocal he

theorem heldBy_apiApplyChange {engine : CString → Shard} {doc : ChangeDoc}
    (hok : (apiApplyChange shardKey engine doc).2 = true) :
    HeldBy shardKey (apiApplyChange shardKey engine doc).1 doc := by
  unfold apiApplyChange at hok ⊢
  cases hdb : doc.db with
  | none =>
    rw [hdb] at hok
    cases hok
  | some db => exact heldBy_applyChangeLocal engine doc

end

variable {shardKey} {members}

/-- What a write under way has done: the members are among its peers, who acknowledged it has the
change, and so has the writer when the quorum was counted. -/
structure WriteServed (members : List NodeId) (held : NodeId → ChangeDoc → Prop) (x : NodeId)
    (w : QueuedWrite) : Prop where
  peers : ∀ y ∈ members, y = x ∨ ∃ p ∈ w.peers, p.id = y
  delivered : ∀ y ∈ w.delivered, y = x ∨ held y w.payload
  settled : ∀ left status, w.stage = .caching left status → held x w.payload

/-- What a coordinator has done. -/
structure Served (members : List NodeId) (held : NodeId → ChangeDoc → Prop) {x : NodeId}
    (n : Coordinator x) : Prop where
  writes : ∀ w ∈ n.writes, WriteServed members held x w
  acked : ∀ r ∈ n.acked, held r.target r.payload

/-- A document is queued for the member, or its write is under way. -/
def Owes {x : NodeId} (n : Coordinator x) (y : NodeId) (doc : ChangeDoc) : Prop :=
  (∃ r ∈ n.queued, r.target = y ∧ r.payload = doc) ∨ ∃ w ∈ n.writes, w.payload = doc

section Step

variable {x : NodeId} {n n' : Coordinator x} {l : Coordinator.Label x}
variable {held held' : NodeId → ChangeDoc → Prop}

theorem WriteServed.mono {w : QueuedWrite} (h : WriteServed members held x w)
    (hmono : ∀ y d, held y d → held' y d) : WriteServed members held' x w where
  peers := h.peers
  delivered y hy := (h.delivered y hy).imp_right (hmono y _)
  settled left status hstage := hmono _ _ (h.settled left status hstage)

theorem Served.mono (h : Served members held n) (hmono : ∀ y d, held y d → held' y d) :
    Served members held' n where
  writes w hw := (h.writes w hw).mono hmono
  acked r hr := hmono _ _ (h.acked r hr)

/-- The loop goes past a peer; it counts as reached when it has the change. -/
theorem WriteServed.exchanged {w : QueuedWrite} (h : WriteServed members held x w) {p : PeerInfo}
    {left : List PeerInfo} {ok : Bool}
    (hok : ok = true → p.id = x ∨ p.dialable = false ∨ held p.id w.payload) :
    WriteServed members held x (w.exchanged x p left ok) := by
  obtain ⟨-, hpeers, hstage⟩ := Coordinator.exchanged_spec x w p left ok
  have hpayload := Coordinator.payload_exchanged x w p left ok
  refine ⟨hpeers ▸ h.peers, fun y hy => ?_, fun _ _ heq => ?_⟩
  · rw [hpayload]
    unfold QueuedWrite.exchanged at hy
    split at hy
    · next hself =>
      rcases List.mem_cons.mp hy with rfl | hy
      · exact Or.inl hself
      · exact h.delivered y hy
    · next hself =>
      split at hy
      · next hacked =>
        obtain ⟨hdial, hok'⟩ := Bool.and_eq_true_iff.mp hacked
        rcases List.mem_cons.mp hy with rfl | hy
        · rcases hok hok' with heq | hfalse | hheld
          · exact Or.inl heq
          · rw [hdial] at hfalse
            cases hfalse
          · exact Or.inr hheld
        · exact h.delivered y hy
      · exact h.delivered y hy
  · rw [hstage] at heq
    cases heq

theorem Served.set_write (h : Served members held n) {v : QueuedWrite} (i : Nat)
    (hv : WriteServed members held x v) :
    Served members held { n with writes := n.writes.set i v } :=
  { h with
    writes := by
      intro u hu
      rcases List.mem_or_eq_of_mem_set hu with hu | rfl
      · exact h.writes u hu
      · exact hv }

/-- **A step serves** whom it is to serve, as long as acknowledgements are true and the local apply
leaves its change. -/
theorem Served.step (h : Served members held n) (hmono : ∀ y d, held y d → held' y d)
    (hstep : n.step shardKey l = some n')
    (hbegin : ∀ now db doc, l = .begin now db doc →
      ∀ y ∈ members, y = x ∨ ∃ p ∈ n.node.peers, p.id = y)
    (hexchange : ∀ i, l = .exchange i true → ∀ w ∈ n.writes[i]?, ∀ p ∈ w.nextPeer,
      p.id = x ∨ p.dialable = false ∨ held p.id w.payload)
    (hanswer : ∀ j, l = .answer j true → ∀ d ∈ n.drains[j]?, ∀ r ∈ d.rows.head?,
      held r.target r.payload)
    (hsettle : ∀ i, l = .settle i → ∀ w ∈ n.writes[i]?, held' x w.payload) :
    Served members held' n' := by
  have hlater : Served members held' n := h.mono hmono
  cases l with
  | begin now db doc =>
    -- the new write owes its change to all members it was given as peers
    simp only [Coordinator.step] at hstep
    split at hstep
    · cases hstep
      refine { hlater with writes := fun w hw => ?_ }
      rcases List.mem_append.mp hw with hw | hw
      · exact hlater.writes w hw
      · obtain rfl := List.mem_singleton.mp hw
        refine ⟨hbegin now db doc rfl, List.forall_mem_nil _, ?_⟩
        rintro _ _ ⟨⟩
    · cases hstep
      exact hlater
  | exchange i ok =>
    -- an acknowledgement counts for the peer that was asked, and is true
    obtain ⟨w, hw, hstep⟩ := Option.bind_eq_some_iff.mp hstep
    split at hstep
    · next p left hstage =>
      cases hstep
      have hgood := h.writes w (List.mem_of_getElem? hw)
      refine hlater.set_write i ((hgood.exchanged fun hok => ?_).mono hmono)
      subst hok
      refine hexchange i rfl w hw p ?_
      rw [QueuedWrite.nextPeer, hstage]
      rfl
    · cases hstep
  | settle i =>
    -- the own member is served by the local apply
    obtain ⟨w, hw, hstep⟩ := Option.bind_eq_some_iff.mp hstep
    split at hstep
    · cases hstep
      have hgood := hlater.writes w (List.mem_of_getElem? hw)
      have hnext : ∀ status,
          WriteServed members held' x { w with stage := .caching w.peers status } := fun status =>
        { hgood with settled := fun _ _ _ => hsettle i rfl w hw }
      unfold Coordinator.settled
      split
      · exact hlater.set_write i (hnext _)
      · exact { hlater.set_write i (hnext _) with acked := hlater.acked }
    · cases hstep
  | append i =>
    -- the rows of the queue are for those who were not reached; nothing is acknowledged here
    obtain ⟨w, hw, hstep⟩ := Option.bind_eq_some_iff.mp hstep
    split at hstep
    · next p left status hstage =>
      cases hstep
      have hgood := hlater.writes w (List.mem_of_getElem? hw)
      have hnext : WriteServed members held' x { w with stage := .caching left status } :=
        { hgood with settled := fun _ _ _ => hgood.settled _ _ hstage }
      unfold Coordinator.appended
      split
      · exact { hlater.set_write i hnext with acked := hlater.acked }
      · exact hlater.set_write i hnext
    · cases hstep
  | finish i =>
    obtain ⟨w, hw, hstep⟩ := Option.bind_eq_some_iff.mp hstep
    split at hstep <;> cases hstep
    exact { hlater with writes := fun v hv => hlater.writes v (List.mem_of_mem_eraseIdx hv) }
  | load target =>
    cases hstep
    exact { hlater with }
  | answer j ok =>
    -- a drain acknowledges the first row that is left of it
    obtain ⟨d, hd, hstep⟩ := Option.bind_eq_some_iff.mp hstep
    split at hstep
    · cases hstep
    · next r rows hrows =>
      split at hstep
      · cases hstep
      · split at hstep
        · next hok =>
          cases hstep
          subst hok
          refine { hlater with acked := fun q hq => ?_ }
          rcases List.mem_cons.mp hq with rfl | hq
          · refine hmono _ _ (hanswer j rfl d hd q ?_)
            rw [hrows]
            rfl
          · exact hlater.acked q hq
        · cases hstep
          exact { hlater with }
  | remove j =>
    obtain ⟨d, hd, hstep⟩ := Option.bind_eq_some_iff.mp hstep
    split at hstep
    · cases hstep
    · split at hstep <;> cases hstep
      exact { hlater with }
  | incoming doc =>
    cases hstep
    exact { hlater with }
  | observe cluster selfId_eq bounded databases =>
    cases hstep
    exact { hlater with }
  | restart f crashes =>
    -- the writes under way are gone, and what was acknowledged stays so
    simp only [Coordinator.step] at hstep
    split at hstep
    · obtain ⟨f', f'', hrun, hopen, -⟩ := reopened_table f crashes
      rw [hrun] at hstep
      simp only [Option.bind_eq_bind, Option.bind_some, hopen] at hstep
      cases hstep
      exact { hlater with writes := List.forall_mem_nil _ }
    · cases hstep

/-! ## What is owed stays owed until it is held -/

/-- A write that goes on is the write of the same document. -/
theorem exists_mem_set {ws : List QueuedWrite} {i : Nat} {w v u : QueuedWrite}
    (hw : ws[i]? = some w) (hv : v.payload = w.payload) (hu : u ∈ ws) :
    ∃ u' ∈ ws.set i v, u'.payload = u.payload := by
  obtain ⟨j, hj⟩ := List.mem_iff_getElem?.mp hu
  by_cases hij : i = j
  · subst hij
    obtain rfl : w = u := Option.some.inj (hw.symm.trans hj)
    have hlt : i < ws.length := (List.getElem?_eq_some_iff.mp hw).1
    exact ⟨v, List.mem_iff_getElem?.mpr ⟨i, List.getElem?_set_self hlt⟩, hv⟩
  · refine ⟨u, List.mem_iff_getElem?.mpr ⟨j, ?_⟩, rfl⟩
    rw [List.getElem?_set_ne hij]
    exact hj

theorem Owes.set_write {y : NodeId} {doc : ChangeDoc} (h : Owes n y doc) {i : Nat}
    {w v : QueuedWrite} (hw : n.writes[i]? = some w) (hv : v.payload = w.payload) :
    Owes { n with writes := n.writes.set i v } y doc := by
  refine h.imp_right ?_
  rintro ⟨u, hu, hdoc⟩
  obtain ⟨u', hu', hpayload⟩ := exists_mem_set hw hv hu
  exact ⟨u', hu', hpayload.trans hdoc⟩

/-- A write that returns has its change at a member, or queued for it. -/
theorem WriteServed.finished {w : QueuedWrite} (h : WriteServed members held x w)
    (hids : [] ∉ members) (hok : Coordinator.WriteOk x n.queued w) {status : ReplStatus}
    (hstage : w.stage = .caching [] status) {y : NodeId} (hy : y ∈ members) :
    held y w.payload ∨ ∃ r ∈ n.queued, r.target = y ∧ r.payload = w.payload := by
  have hx : held x w.payload := h.settled [] status hstage
  rcases h.peers y hy with rfl | ⟨p, hp, rfl⟩
  · exact Or.inl hx
  · by_cases hself : p.id = x
    · exact Or.inl (hself ▸ hx)
    · by_cases hdelivered : p.id ∈ w.delivered
      · exact Or.inl ((h.delivered p.id hdelivered).resolve_left hself)
      · have hne : p.id ≠ [] := fun hnil => hids (hnil ▸ hy)
        have hqueued := hok.caching [] status hstage p hp ⟨hdelivered, hself, hne⟩
        exact Or.inr ⟨_, hqueued.resolve_left List.not_mem_nil, rfl, rfl⟩

/-- **What a member is owed** it is owed until it has it, as long as no process ends with a write
under way. -/
theorem Owes.step {y : NodeId} {doc : ChangeDoc} (h : Owes n y doc) (hids : [] ∉ members)
    (hy : y ∈ members) (hserved : Served members held n) (hinv : n.Inv)
    (hstep : n.step shardKey l = some n')
    (hrestart : ∀ f crashes, l = .restart f crashes → n.writes.length = 0) :
    held y doc ∨ Owes n' y doc := by
  cases l with
  | begin now db d =>
    -- other writes do not touch what is owed
    simp only [Coordinator.step] at hstep
    split at hstep
    · cases hstep
      rcases h with hqueued | ⟨w, hw, hdoc⟩
      · exact Or.inr (Or.inl hqueued)
      · exact Or.inr (Or.inr ⟨w, List.mem_append_left _ hw, hdoc⟩)
    · cases hstep
      exact Or.inr h
  | exchange i ok =>
    obtain ⟨w, hw, hstep⟩ := Option.bind_eq_some_iff.mp hstep
    split at hstep <;> cases hstep
    exact Or.inr (h.set_write hw (Coordinator.payload_exchanged ..))
  | settle i =>
    obtain ⟨w, hw, hstep⟩ := Option.bind_eq_some_iff.mp hstep
    split at hstep
    · cases hstep
      unfold Coordinator.settled
      split
      · exact Or.inr (h.set_write hw rfl)
      · exact Or.inr (h.set_write (v := { w with stage := .caching w.peers _ }) hw rfl)
    · cases hstep
  | append i =>
    -- the row joins the queue, and the write keeps the peers that are left
    obtain ⟨w, hw, hstep⟩ := Option.bind_eq_some_iff.mp hstep
    split at hstep
    · next p left status _ =>
      cases hstep
      have hnext := h.set_write (v := { w with stage := .caching left status }) hw rfl
      unfold Coordinator.appended
      split
      · rcases hnext with ⟨r, hr, hrow⟩ | hwrites
        · exact Or.inr (Or.inl ⟨r, List.mem_cons_of_mem _ hr, hrow⟩)
        · exact Or.inr (Or.inr hwrites)
      · exact Or.inr hnext
    · cases hstep
  | finish i =>
    -- only the write itself can stop owing, and then the member has the change or a row has it
    obtain ⟨w, hw, hstep⟩ := Option.bind_eq_some_iff.mp hstep
    split at hstep
    · next hstage =>
      cases hstep
      rcases h with hqueued | ⟨u, hu, rfl⟩
      · exact Or.inr (Or.inl hqueued)
      · obtain ⟨j, hj⟩ := List.mem_iff_getElem?.mp hu
        by_cases hij : j = i
        · -- the write itself returns
          subst hij
          obtain rfl : w = u := Option.some.inj (hw.symm.trans hj)
          have hmem := List.mem_of_getElem? hw
          exact ((hserved.writes w hmem).finished hids (hinv.writes w hmem) hstage hy).imp_right
            Or.inl
        · exact Or.inr (Or.inr
            ⟨u, List.mem_eraseIdx_iff_getElem?.mpr ⟨j, hij, hj⟩, rfl⟩)
    · cases hstep
  | load target =>
    cases hstep
    exact Or.inr h
  | answer j ok =>
    obtain ⟨d, hd, hstep⟩ := Option.bind_eq_some_iff.mp hstep
    split at hstep
    · cases hstep
    · split at hstep
      · cases hstep
      · split at hstep <;> cases hstep <;> exact Or.inr h
  | remove j =>
    obtain ⟨d, hd, hstep⟩ := Option.bind_eq_some_iff.mp hstep
    split at hstep
    · cases hstep
    · split at hstep <;> cases hstep
      exact Or.inr h
  | incoming d =>
    cases hstep
    exact Or.inr h
  | observe cluster selfId_eq bounded databases =>
    cases hstep
    exact Or.inr h
  | restart f crashes =>
    -- without writes under way all that is owed is in the queue, which survives
    have hnone := List.length_eq_zero_iff.mp (hrestart f crashes rfl)
    simp only [Coordinator.step] at hstep
    split at hstep
    · obtain ⟨f', f'', hrun, hopen, -⟩ := reopened_table f crashes
      rw [hrun] at hstep
      simp only [Option.bind_eq_bind, Option.bind_some, hopen] at hstep
      cases hstep
      rcases h with hqueued | ⟨u, hu, -⟩
      · exact Or.inr (Or.inl hqueued)
      · rw [hnone] at hu
        cases hu
    · cases hstep

end Step

/-! ## What calm steps keep -/

section

variable {s s' : Replicas} {l : Label}

theorem Apart.refl (doc : ChangeDoc) : Apart shardKey doc doc := by
  intro e he e' he' _ _ _ _
  rw [Option.mem_unique he he']

theorem Apart.symm {doc doc' : ChangeDoc} (h : Apart shardKey doc doc') :
    Apart shardKey doc' doc :=
  fun e he e' he' hkey hid hle hge => (h e' he' e he hkey.symm hid.symm hge hle).symm

/-- A document without a place is no change. -/
theorem decodeChange_eq_none {doc : ChangeDoc}
    (h : ∀ partition keyspace, doc.partition = some partition → doc.keyspace ≠ some keyspace) :
    decodeChange doc = none := by
  by_contra hne
  obtain ⟨e, he⟩ := Option.ne_none_iff_exists'.mp hne
  obtain ⟨op, -, he⟩ := Option.bind_eq_some_iff.mp he
  obtain ⟨partition, hpartition, he⟩ := Option.bind_eq_some_iff.mp he
  obtain ⟨keyspace, hkeyspace, -⟩ := Option.bind_eq_some_iff.mp he
  exact h partition keyspace hpartition hkeyspace

/-- A write that begins is under way, unless its document is no change. -/
theorem begin_owes {x : NodeId} {n n' : Coordinator x} {now : Int} {db : CString} {doc : ChangeDoc}
    (hstep : n.step shardKey (.begin now db doc) = some n') (y : NodeId) :
    decodeChange (sentDoc x doc) = none ∨ Owes n' y (sentDoc x doc) := by
  simp only [Coordinator.step] at hstep
  split at hstep
  · cases hstep
    exact Or.inr (Or.inr ⟨_, List.mem_append_right _ (List.mem_singleton_self _), rfl⟩)
  · next hnone => exact Or.inl (decodeChange_eq_none hnone)

/-- A write with its quorum is applied. -/
theorem settle_engine {x : NodeId} {n n' : Coordinator x} {i : Nat} {w : QueuedWrite}
    (hstep : n.step shardKey (.settle i) = some n') (hw : w ∈ n.writes[i]?)
    (hquorum : w.holders.length / 2 + 1 ≤ w.acknowledgements) :
    n'.node.engine = (applyChangeLocal shardKey n.node.engine w.payload).1 := by
  obtain ⟨w', hw', hstep⟩ := Option.bind_eq_some_iff.mp hstep
  obtain rfl := Option.mem_unique hw hw'
  split at hstep
  · cases hstep
    rw [Coordinator.settled, if_neg (by omega)]
  · cases hstep

/-- A node that steps keeps what all nodes hold. -/
theorem Held.update {x : NodeId} {n : Coordinator x} {l : Coordinator.Label x}
    (hstep : (s.nodes x).step shardKey l = some n) {y : NodeId} {doc : ChangeDoc}
    (h : s.Held shardKey y doc) {answered : List (NodeId × ChangeDoc)} {begun : List ChangeDoc} :
    ({ s with nodes := Function.update s.nodes x n, answered, begun } : Replicas).Held shardKey y
      doc := by
  show HeldBy shardKey (Function.update s.nodes x n y).node.engine doc
  by_cases hy : y = x
  · subst hy
    rw [Function.update_self]
    exact heldBy_mono h (Coordinator.below_step hstep)
  · rw [Function.update_of_ne hy]
    exact h

variable (shardKey members) in
/-- What every calm step keeps. -/
structure Inv (s : Replicas) : Prop where
  nodes : ∀ x, (s.nodes x).Inv
  answered : ∀ m ∈ s.answered, s.Held shardKey m.1 m.2
  served : ∀ x, Served members (s.Held shardKey) (s.nodes x)
  covered : ∀ doc ∈ s.begun, ∀ y ∈ members,
    s.Held shardKey y doc ∨ ∃ x ∈ members, Owes (s.nodes x) y doc
  apart : ∀ d ∈ s.begun, ∀ d' ∈ s.begun, Apart shardKey d d'

/-- Somebody else steps, or the one who owes. -/
theorem owes_update (h : s.Inv shardKey members) (hids : [] ∉ members) {x : NodeId}
    {n : Coordinator x} {l : Coordinator.Label x} (hstep : (s.nodes x).step shardKey l = some n)
    (hrestart : ∀ f crashes, l = .restart f crashes → (s.nodes x).writes.length = 0)
    {y : NodeId} (hy : y ∈ members) {doc : ChangeDoc} {z : NodeId} (howes : Owes (s.nodes z) y doc) :
    s.Held shardKey y doc ∨ Owes (Function.update s.nodes x n z) y doc := by
  by_cases hz : z = x
  · subst hz
    rw [Function.update_self]
    exact howes.step hids hy (h.served z) (h.nodes z) hstep hrestart
  · rw [Function.update_of_ne hz]
    exact Or.inr howes

/-- **A member steps** calmly. -/
theorem Inv.own (h : s.Inv shardKey members) (hids : [] ∉ members) {x : NodeId}
    {l : Coordinator.Label x} (hcalm : s.Calm shardKey members (.own x l))
    (hstep : s.step shardKey (.own x l) = some s') : s'.Inv shardKey members := by
  obtain ⟨hx, hsafe, hcalm⟩ := hcalm
  simp only [Replicas.step] at hstep
  split at hstep
  · next hheard =>
    obtain ⟨n, hn, rfl⟩ := Option.map_eq_some_iff.mp hstep
    have hrestart : ∀ f crashes, l = .restart f crashes → (s.nodes x).writes.length = 0 := by
      rintro f crashes rfl
      exact hcalm
    -- acknowledgements are true: whoever answered holds the document
    have hserved : Served members
        (Held shardKey { s with
          nodes := Function.update s.nodes x n, begun := beginsWith l ++ s.begun }) n := by
      refine (h.served x).step (fun y d hd => hd.update hn) hn ?_ ?_ ?_ ?_
      · rintro now db doc rfl
        exact hcalm.1
      · rintro i rfl w hw p hp
        exact (hheard w hw p hp).imp_right (Or.imp_right (h.answered _))
      · rintro j rfl d hd r hr
        have htarget := ((h.nodes x).drains d (List.mem_of_getElem? hd)).target r
          (List.mem_of_mem_head? hr)
        rw [htarget]
        exact h.answered _ (hheard d hd r hr)
      · rintro i rfl w hw
        show HeldBy shardKey (Function.update s.nodes x n x).node.engine w.payload
        rw [Function.update_self, settle_engine hn hw (hcalm w hw)]
        exact heldBy_applyChangeLocal _ w.payload
    -- the fields in turn: the node's own invariant, true answers, served members, covered documents
    refine ⟨fun y => ?_, fun m hm => (h.answered m hm).update hn, fun y => ?_, ?_, ?_⟩
    · show (Function.update s.nodes x n y).Inv
      by_cases hy : y = x
      · subst hy
        rw [Function.update_self]
        exact Coordinator.step_inv _ l n (h.nodes y) hsafe hn
      · rw [Function.update_of_ne hy]
        exact h.nodes y
    · show Served members _ (Function.update s.nodes x n y)
      by_cases hy : y = x
      · subst hy
        rw [Function.update_self]
        exact hserved
      · rw [Function.update_of_ne hy]
        exact (h.served y).mono fun z d hd => hd.update hn
    · intro doc hdoc y hy
      rcases List.mem_append.mp hdoc with hnew | hold
      · -- the document of a write that begins
        cases l with
        | begin now db d =>
          obtain rfl := List.mem_singleton.mp hnew
          rcases begin_owes hn y with hnone | howes
          · refine Or.inl fun e he => ?_
            rw [hnone] at he
            cases he
          · refine Or.inr ⟨x, hx, ?_⟩
            show Owes (Function.update s.nodes x n x) y _
            rw [Function.update_self]
            exact howes
        | _ => cases hnew
      · rcases h.covered doc hold y hy with hheld | ⟨z, hz, howes⟩
        · exact Or.inl (hheld.update hn)
        · exact (owes_update h hids hn hrestart hy howes).imp (fun hheld => hheld.update hn)
            fun howes => ⟨z, hz, howes⟩
    · intro d hd d' hd'
      -- a new document is apart from those that were begun before
      cases l with
      | begin now db doc =>
        have hnew : ∀ d ∈ s.begun, Apart shardKey (sentDoc x doc) d := hcalm.2
        rcases List.mem_cons.mp hd with rfl | hd
        · rcases List.mem_cons.mp hd' with rfl | hd'
          · exact Apart.refl _
          · exact hnew d' hd'
        · rcases List.mem_cons.mp hd' with rfl | hd'
          · exact (hnew d hd).symm
          · exact h.apart d hd d' hd'
      | _ => exact h.apart d hd d' hd'
  · cases hstep

/-- **One calm step** of the cluster. -/
theorem Inv.step (h : s.Inv shardKey members) (hids : [] ∉ members)
    (hcalm : s.Calm shardKey members l) (hstep : s.step shardKey l = some s') :
    s'.Inv shardKey members := by
  cases l with
  | own x l => exact h.own hids hcalm hstep
  | send x i =>
    -- a message under way changes no node
    obtain ⟨w, hw, hstep⟩ := Option.bind_eq_some_iff.mp hstep
    obtain ⟨p, -, hstep⟩ := Option.bind_eq_some_iff.mp hstep
    split at hstep <;> cases hstep
    exact ⟨h.nodes, h.answered, h.served, h.covered, h.apart⟩
  | sendRow x j =>
    obtain ⟨d, hd, hstep⟩ := Option.bind_eq_some_iff.mp hstep
    obtain ⟨r, hr, hstep⟩ := Option.bind_eq_some_iff.mp hstep
    split at hstep <;> cases hstep
    exact ⟨h.nodes, h.answered, h.served, h.covered, h.apart⟩
  | handle x doc =>
    -- the member that handles a change may only gain it; the others stay as they are
    simp only [Replicas.step] at hstep
    split at hstep
    · obtain ⟨n, hn, rfl⟩ := Option.map_eq_some_iff.mp hstep
      have hn' : n = { s.nodes x with
          node := { (s.nodes x).node with
            engine := (apiApplyChange shardKey (s.nodes x).node.engine doc).1 } } :=
        (Option.some.inj hn).symm
      have hmono : ∀ y d, s.Held shardKey y d → Held shardKey { s with
          nodes := Function.update s.nodes x n
          answered :=
            if (apiApplyChange shardKey (s.nodes x).node.engine doc).2 then (x, doc) :: s.answered
            else s.answered } y d := fun y d hd => hd.update hn
      have hsame : ∀ (Q : ∀ y, Coordinator y → Prop), (∀ y, Q y (s.nodes y)) → Q x n →
          ∀ y, Q y (Function.update s.nodes x n y) := by
        intro Q hall hone y
        by_cases hy : y = x
        · subst hy
          rw [Function.update_self]
          exact hone
        · rw [Function.update_of_ne hy]
          exact hall y
      -- a positive answer is given for what the member holds now
      refine ⟨?_, fun m hm => ?_, ?_, fun d hd y hy => ?_, h.apart⟩
      · exact hsame (fun y n => n.Inv) h.nodes
          (Coordinator.step_inv _ (.incoming doc) n (h.nodes x) trivial hn)
      · dsimp only at hm
        split at hm
        · next hok =>
          rcases List.mem_cons.mp hm with rfl | hm
          · show HeldBy shardKey (Function.update s.nodes x n x).node.engine doc
            rw [Function.update_self, hn']
            exact heldBy_apiApplyChange hok
          · exact hmono _ _ (h.answered m hm)
        · exact hmono _ _ (h.answered m hm)
      · refine hsame (fun y n => Served members _ n) (fun y => (h.served y).mono hmono)
          ((h.served x).step hmono hn ?_ ?_ ?_ ?_)
        · rintro _ _ _ ⟨⟩
        · rintro _ ⟨⟩
        · rintro _ ⟨⟩
        · rintro _ ⟨⟩
      · have hrestart : ∀ f crashes, (.incoming doc : Coordinator.Label x) = .restart f crashes →
            (s.nodes x).writes.length = 0 := by
          rintro _ _ ⟨⟩
        rcases h.covered d hd y hy with hheld | ⟨z, hz, howes⟩
        · exact Or.inl (hmono y d hheld)
        · exact (owes_update h hids hn hrestart hy howes).imp (hmono y d) fun howes =>
            ⟨z, hz, howes⟩
    · cases hstep

/-- No node holds or queues anything yet. -/
def Blank (n : ∀ x, ReplNode x) : Prop := ∀ x key, (n x).engine key = ∅

/-- A record has one newest row. -/
theorem Newest.unique {docs : List ChangeDoc}
    (hapart : ∀ d ∈ docs, ∀ d' ∈ docs, Apart shardKey d d') {key id : CString} {o o' : Option Row}
    (h : Newest shardKey docs key id o) (h' : Newest shardKey docs key id o') : o = o' := by
  cases o with
  | none =>
    cases o' with
    | none => rfl
    | some r' =>
      obtain ⟨⟨doc, hdoc, heff⟩, -⟩ := h'
      exact absurd heff (h doc hdoc r')
  | some r =>
    obtain ⟨⟨doc, hdoc, heff⟩, hmax⟩ := h
    cases o' with
    | none => exact absurd heff (h' doc hdoc r)
    | some r' =>
      -- both have the greatest version, and a version has one row
      obtain ⟨⟨doc', hdoc', heff'⟩, hmax'⟩ := h'
      exact congrArg some (hapart doc hdoc doc' hdoc' _ heff _ heff' rfl rfl
        (versionLe_iff.mpr (hmax' doc hdoc r heff)) (versionLe_iff.mpr (hmax doc' hdoc' r' heff')))

variable (shardKey members) in
theorem inv_started (n : ∀ x, ReplNode x) :
    (started n fun _ _ => none).Inv shardKey members where
  nodes x := Coordinator.start_inv (n x) _
  answered := List.forall_mem_nil _
  served _ := ⟨List.forall_mem_nil _, List.forall_mem_nil _⟩
  covered := List.forall_mem_nil _
  apart := List.forall_mem_nil _

/-- At rest every member has every change. -/
theorem Inv.held_at_rest (h : s.Inv shardKey members) (hrest : s.AtRest members) {doc : ChangeDoc}
    (hdoc : doc ∈ s.begun) {y : NodeId} (hy : y ∈ members) : s.Held shardKey y doc := by
  rcases h.covered doc hdoc y hy with hheld | ⟨x, hx, howes⟩
  · exact hheld
  · obtain ⟨hwrites, hcached⟩ := hrest x hx
    rcases howes with ⟨r, hr, rfl, rfl⟩ | ⟨w, hw, -⟩
    · -- the row has left the queue, so it was acknowledged
      have hacked : r ∈ (s.nodes x).acked := by
        refine ((h.nodes x).queued r hr).resolve_left fun hmem => ?_
        rw [hcached] at hmem
        cases hmem
      exact (h.served x).acked r hacked
    · rw [List.length_eq_zero_iff.mp hwrites] at hw
      cases hw

/-- What a member holds is not older than any change of the record. -/
theorem Held.le {y : NodeId} {doc : ChangeDoc} (h : s.Held shardKey y doc) {key id : CString}
    {r : Row} (heff : effect shardKey doc = some (key, id, r)) :
    comparedVersion (some r) ≤ comparedVersion (((s.nodes y).node.engine key).lookup id) := by
  obtain ⟨partition, keyspace, c, hdec, rfl, rfl, rfl⟩ := decodeChange_of_effect heff
  exact h _ hdec

/-- Node `a` with the member `b`, which is offline. -/
def pairWriter : ReplNode (cstr "a") where
  cluster :=
    { selfId := cstr "a"
      selfAddr := cstr "host"
      selfPort := 1
      peers := (PeerTable.empty.add
        { id := cstr "a", addr := cstr "host", port := 1, online := true }).add
        { id := cstr "b", addr := cstr "host", port := 2 }
      ranges := buildSlices [cstr "a", cstr "b"] }
  selfId_eq := rfl
  bounded := by decide
  databases := fun _ => none
  cache := ⟨false, []⟩

/-- A write that is queued for `b`, and the drain that brings it there. -/
def servedLater : List Label :=
  let doc := Coordinator.deleteOf "x"
  [.own (cstr "a") (.begin 100 (cstr "d") doc), .own (cstr "a") (.exchange 0 true),
    .own (cstr "a") (.exchange 0 false), .own (cstr "a") (.settle 0), .own (cstr "a") (.append 0),
    .own (cstr "a") (.append 0), .own (cstr "a") (.finish 0), .own (cstr "a") (.load (cstr "b")),
    .sendRow (cstr "a") 0, .handle (cstr "b") (sentDoc (cstr "a") doc),
    .own (cstr "a") (.answer 0 true), .own (cstr "a") (.remove 0)]

theorem blank_worldOf : Blank (worldOf pairWriter) := by
  intro x key
  unfold worldOf
  by_cases hx : x = cstr "a"
  · subst hx
    rw [Function.update_self]
    rfl
  · rw [Function.update_of_ne hx]
    rfl

end

end Replicas

end EpsilonDB
