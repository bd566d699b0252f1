import EpsilonDB.Socket.PendingCache
import EpsilonDB.Socket.WriteQuorum

/-!
# All coordinators together (`socket/epsilon_repl.c`)

Every node writes, drains its queues and applies what the others send, all at the same time. A
request may arrive long after its sender has given up on it, and more than once; what a sender
takes for an acknowledgement is one that the receiver gave.

- `Replicas`: the coordinators, the requests that were sent and the ones that were answered.
- `Replicas.step`: a step of one coordinator (`own`), a request that leaves a write or a drain
  (`send`, `sendRow`), and the dispatcher of the receiver (`handle`).
- `Coordinator.engine_step`, `Carries.step`: what a step does to the shards of its node, and to
  the documents the node has in its hands.
- `Traced`, `replicas_traced`: in no run does a replica go back, or hold what nobody wrote.

A receiver that is syncing or locked for a restore does not handle a request. Purges, snapshots
and the wiping of shards are left out.
-/

namespace EpsilonDB

/-- The nodes of a cluster, and what was sent between them. -/
structure Replicas where
  nodes : ∀ x : NodeId, Coordinator x
  /-- requests with their receivers -/
  sent : List (NodeId × ChangeDoc) := []
  /-- requests that were applied and answered with `ok: true` -/
  answered : List (NodeId × ChangeDoc) := []
  /-- the documents of all writes so far, as they travel -/
  begun : List ChangeDoc := []

/-- The peer that the loop of a write has come to. -/
def QueuedWrite.nextPeer (w : QueuedWrite) : Option PeerInfo :=
  match w.stage with
  | .sending left => left.head?
  | .caching _ _ => none

namespace Replicas

/-- A step of one node, or of what runs between them. -/
inductive Label where
  | own (x : NodeId) (l : Coordinator.Label x)
  /-- the loop of a write sends to its next peer -/
  | send (x : NodeId) (i : Nat)
  /-- `deliver_cached` sends the first row of a drain -/
  | sendRow (x : NodeId) (j : Nat)
  /-- the dispatcher of `x` applies a request -/
  | handle (x : NodeId) (doc : ChangeDoc)

/-- Every node with the change cache it opened. -/
def started (n : ∀ x, ReplNode x) (f : NodeId → CacheFile) : Replicas where
  nodes x := Coordinator.start (n x) (f x)

/-- The acknowledgement that a step goes on has arrived; changes come through `handle` only. -/
def Heard (s : Replicas) (x : NodeId) : Coordinator.Label x → Prop
  | .exchange i true =>
    ∀ w ∈ (s.nodes x).writes[i]?, ∀ p ∈ w.nextPeer,
      p.id = x ∨ p.dialable = false ∨ (p.id, w.payload) ∈ s.answered
  | .answer j true =>
    ∀ d ∈ (s.nodes x).drains[j]?, ∀ r ∈ d.rows.head?, (d.target, r.payload) ∈ s.answered
  | .incoming _ => False
  | _ => True

instance (s : Replicas) (x : NodeId) (l : Coordinator.Label x) : Decidable (s.Heard x l) :=
  match l with
  | .exchange i true =>
    inferInstanceAs (Decidable (∀ w ∈ (s.nodes x).writes[i]?, ∀ p ∈ w.nextPeer, _ ∨ _ ∨ _))
  | .answer j true =>
    inferInstanceAs (Decidable (∀ d ∈ (s.nodes x).drains[j]?, ∀ r ∈ d.rows.head?, _ ∈ _))
  | .incoming _ => isFalse id
  | .exchange _ false | .answer _ false | .begin _ _ _ | .settle _ | .append _ | .finish _
  | .load _ | .remove _ | .observe _ _ _ _ | .restart _ _ => isTrue trivial

/-- The documents of the writes that a step begins. -/
def beginsWith {x : NodeId} : Coordinator.Label x → List ChangeDoc
  | .begin _ _ doc => [sentDoc x doc]
  | _ => []

variable (shardKey : CString → CString → CString)

/-- What a label makes of a state, when the code can take the step. -/
def step (s : Replicas) : Label → Option Replicas
  | .own x l =>
    if s.Heard x l then
      ((s.nodes x).step shardKey l).map fun n =>
        { s with nodes := Function.update s.nodes x n, begun := beginsWith l ++ s.begun }
    else none
  | .send x i => do
    let w ← (s.nodes x).writes[i]?
    let p ← w.nextPeer
    if p.id ≠ x ∧ p.dialable = true then some { s with sent := (p.id, w.payload) :: s.sent }
    else none
  | .sendRow x j => do
    let d ← (s.nodes x).drains[j]?
    let r ← d.rows.head?
    if d.answered then none else some { s with sent := (d.target, r.payload) :: s.sent }
  | .handle x doc =>
    if (x, doc) ∈ s.sent then
      ((s.nodes x).step shardKey (.incoming doc)).map fun n =>
        { s with
          nodes := Function.update s.nodes x n
          answered :=
            if (apiApplyChange shardKey (s.nodes x).node.engine doc).2 then (x, doc) :: s.answered
            else s.answered }
    else none

end Replicas

/-! ## What a step does to a node -/

namespace Coordinator

variable {x : NodeId} {n n' : Coordinator x} {l : Label x}
variable {shardKey : CString → CString → CString}

/-- **The shards of a node** change when a write with its quorum is applied and when a change
comes in. -/
theorem engine_step (hstep : n.step shardKey l = some n') :
    n'.node.engine = n.node.engine ∨
      (∃ i w, l = .settle i ∧ n.writes[i]? = some w ∧
        n'.node.engine = (applyChangeLocal shardKey n.node.engine w.payload).1) ∨
      ∃ doc, l = .incoming doc ∧ n'.node.engine = (apiApplyChange shardKey n.node.engine doc).1 := by
  cases l with
  | begin now db doc =>
    simp only [step] at hstep
    split at hstep <;> cases hstep <;> exact Or.inl rfl
  | settle i =>
    -- the quorum was there: the coordinator applies its own change
    obtain ⟨w, hw, hstep⟩ := Option.bind_eq_some_iff.mp hstep
    split at hstep
    · cases hstep
      unfold settled
      split
      · exact Or.inl rfl
      · exact Or.inr (Or.inl ⟨i, w, rfl, hw, rfl⟩)
    · cases hstep
  | append i =>
    obtain ⟨w, hw, hstep⟩ := Option.bind_eq_some_iff.mp hstep
    split at hstep
    · cases hstep
      unfold appended
      split <;> exact Or.inl rfl
    · cases hstep
  | incoming doc =>
    -- a change of another coordinator
    cases hstep
    exact Or.inr (Or.inr ⟨doc, rfl, rfl⟩)
  | restart f crashes =>
    -- the queue is opened again; the shards are files and stay
    simp only [step] at hstep
    split at hstep
    · obtain ⟨f', f'', hrun, hopen, -⟩ := reopened_table f crashes
      rw [hrun] at hstep
      simp only [Option.bind_eq_bind, Option.bind_some, hopen] at hstep
      cases hstep
      exact Or.inl rfl
    · cases hstep
  | exchange i ok =>
    obtain ⟨w, hw, hstep⟩ := Option.bind_eq_some_iff.mp hstep
    split at hstep <;> cases hstep
    exact Or.inl rfl
  | finish i =>
    obtain ⟨w, hw, hstep⟩ := Option.bind_eq_some_iff.mp hstep
    split at hstep <;> cases hstep
    exact Or.inl rfl
  | load target =>
    cases hstep
    exact Or.inl rfl
  | answer j ok =>
    obtain ⟨d, hd, hstep⟩ := Option.bind_eq_some_iff.mp hstep
    split at hstep
    · cases hstep
    · split at hstep
      · cases hstep
      · split at hstep <;> cases hstep <;> exact Or.inl rfl
  | remove j =>
    obtain ⟨d, hd, hstep⟩ := Option.bind_eq_some_iff.mp hstep
    split at hstep
    · cases hstep
    · split at hstep <;> cases hstep
      exact Or.inl rfl
  | observe cluster selfId_eq bounded databases =>
    cases hstep
    exact Or.inl rfl

/-- Whatever the step, the shards of the node only get newer. -/
theorem below_step (hstep : n.step shardKey l = some n') (key : CString) :
    Below (n.node.engine key) (n'.node.engine key) := by
  rcases engine_step hstep with heq | ⟨i, w, -, -, heq⟩ | ⟨doc, -, heq⟩
  · rw [heq]
    exact Below.refl _
  · rw [heq]
    exact below_applyChangeLocal _ w.payload key
  · rw [heq]
    exact below_apiApplyChange _ doc key

/-- All documents that the node is about to send or to apply have a property. -/
structure Carries (P : ChangeDoc → Prop) (n : Coordinator x) : Prop where
  writes : ∀ w ∈ n.writes, P w.payload
  cached : ∀ r ∈ n.cached, P r.payload
  drains : ∀ d ∈ n.drains, ∀ r ∈ d.rows, P r.payload

variable {P : ChangeDoc → Prop}

theorem Carries.mono {Q : ChangeDoc → Prop} (h : Carries P n) (hpq : ∀ doc, P doc → Q doc) :
    Carries Q n where
  writes w hw := hpq _ (h.writes w hw)
  cached r hr := hpq _ (h.cached r hr)
  drains d hd r hr := hpq _ (h.drains d hd r hr)

/-- A write goes on with the document it has. -/
theorem Carries.set_write (h : Carries P n) {i : Nat} {w v : QueuedWrite}
    (hw : n.writes[i]? = some w) (hv : v.payload = w.payload) :
    Carries P { n with writes := n.writes.set i v } :=
  { h with
    writes := by
      intro u hu
      rcases List.mem_or_eq_of_mem_set hu with hu | rfl
      · exact h.writes u hu
      · rw [hv]
        exact h.writes w (List.mem_of_getElem? hw) }

theorem payload_exchanged (self : NodeId) (w : QueuedWrite) (p : PeerInfo) (left : List PeerInfo)
    (ok : Bool) : (w.exchanged self p left ok).payload = w.payload := by
  unfold QueuedWrite.exchanged
  split
  · rfl
  · split <;> rfl

theorem mem_of_mem_cacheAppend {cc : ChangeCache} {target : NodeId} {cid : CString}
    {payload : ChangeDoc} {r : PendingRow} (h : r ∈ (cacheAppend cc target cid payload).rows) :
    r ∈ cc.rows ∨ r = ⟨target, cid, payload⟩ := by
  unfold cacheAppend at h
  split at h
  · exact (List.mem_append.mp h).imp List.mem_of_mem_filter List.mem_singleton.mp
  · exact Or.inl h

/-- What a crash leaves of the cache was in it before. -/
theorem mem_pending_of_leftover {t : CacheTable} {crashes : List Nat} {r : PendingRow}
    (h : r ∈ (crashes.foldl leftover t).pending) : r ∈ t.pending := by
  induction crashes generalizing t with
  | nil => exact h
  | cons k crashes ih =>
    have hr : r ∈ (leftover t k).pending := ih h
    unfold leftover at hr
    split at hr
    · exact hr
    · split at hr
      · cases hr
      · exact CacheTable.mem_pending_of_migrate hr

/-- **A step hands on the documents it has**, and a new one where a write begins. -/
theorem Carries.step (h : Carries P n) (hbegin : ∀ doc ∈ Replicas.beginsWith l, P doc)
    (hstep : n.step shardKey l = some n') : Carries P n' := by
  cases l with
  | begin now db doc =>
    simp only [Coordinator.step] at hstep
    split at hstep
    · cases hstep
      refine { h with writes := fun w hw => ?_ }
      rcases List.mem_append.mp hw with hw | hw
      · exact h.writes w hw
      · obtain rfl := List.mem_singleton.mp hw
        exact hbegin _ List.mem_cons_self
    · cases hstep
      exact h
  | exchange i ok =>
    obtain ⟨w, hw, hstep⟩ := Option.bind_eq_some_iff.mp hstep
    split at hstep
    · next p left _ =>
      cases hstep
      exact h.set_write hw (payload_exchanged x w p left ok)
    · cases hstep
  | settle i =>
    obtain ⟨w, hw, hstep⟩ := Option.bind_eq_some_iff.mp hstep
    split at hstep
    · cases hstep
      unfold settled
      split
      · exact h.set_write hw rfl
      · exact { h.set_write (v := { w with stage := .caching w.peers _ }) hw rfl with
          cached := h.cached }
    · cases hstep
  | append i =>
    obtain ⟨w, hw, hstep⟩ := Option.bind_eq_some_iff.mp hstep
    split at hstep
    · next p left status _ =>
      cases hstep
      have hwrites := h.set_write (v := { w with stage := .caching left status }) hw rfl
      unfold appended
      split
      · refine { writes := hwrites.writes, drains := h.drains, cached := fun r hr => ?_ }
        -- the new row carries the document of the write
        rcases mem_of_mem_cacheAppend hr with hr | rfl
        · exact h.cached r hr
        · exact h.writes w (List.mem_of_getElem? hw)
      · exact hwrites
    · cases hstep
  | finish i =>
    obtain ⟨w, hw, hstep⟩ := Option.bind_eq_some_iff.mp hstep
    split at hstep <;> cases hstep
    exact { h with writes := fun v hv => h.writes v (List.mem_of_mem_eraseIdx hv) }
  | load target =>
    cases hstep
    refine { h with drains := fun d hd r hr => ?_ }
    rcases List.mem_append.mp hd with hd | hd
    · exact h.drains d hd r hr
    · obtain rfl := List.mem_singleton.mp hd
      exact h.cached r (mem_cacheLoad hr)
  | answer j ok =>
    obtain ⟨d, hd, hstep⟩ := Option.bind_eq_some_iff.mp hstep
    split at hstep
    · cases hstep
    · split at hstep
      · cases hstep
      · split at hstep
        · cases hstep
          refine { h with drains := fun e he r hr => ?_ }
          rcases List.mem_or_eq_of_mem_set he with he | rfl
          · exact h.drains e he r hr
          · exact h.drains d (List.mem_of_getElem? hd) r hr
        · cases hstep
          exact { h with drains := fun e he => h.drains e (List.mem_of_mem_eraseIdx he) }
  | remove j =>
    obtain ⟨d, hd, hstep⟩ := Option.bind_eq_some_iff.mp hstep
    split at hstep
    · cases hstep
    · next r rows hrows =>
      split at hstep
      · cases hstep
        refine { h with
          cached := fun q hq => h.cached q (EpsilonDB.mem_cacheRemove hq)
          drains := fun e he q hq => ?_ }
        rcases List.mem_or_eq_of_mem_set he with he | rfl
        · exact h.drains e he q hq
        · exact h.drains d (List.mem_of_getElem? hd) q (hrows ▸ List.mem_cons_of_mem r hq)
      · cases hstep
  | incoming doc =>
    cases hstep
    exact { h with }
  | observe cluster selfId_eq bounded databases =>
    cases hstep
    exact { h with }
  | restart f crashes =>
    simp only [Coordinator.step] at hstep
    split at hstep
    · next hfile =>
      obtain ⟨f', f'', hrun, hopen, htable⟩ := reopened_table f crashes
      rw [hrun] at hstep
      simp only [Option.bind_eq_bind, Option.bind_some, hopen] at hstep
      cases hstep
      refine ⟨List.forall_mem_nil _, fun r hr => h.cached r ?_, List.forall_mem_nil _⟩
      rw [← hfile.1]
      exact mem_pending_of_leftover (CacheTable.mem_pending_of_migrate (htable ▸ hr))
    · cases hstep

end Coordinator

/-! ## Where records come from -/

namespace Replicas

section

variable {shardKey : CString → CString → CString} {s₀ s s' : Replicas} {l : Label}

/-- A write had this document, or a cache had it at the start. -/
def Known (s₀ s : Replicas) (doc : ChangeDoc) : Prop :=
  doc ∈ s.begun ∨ ∃ x, ∃ r ∈ (s₀.nodes x).cached, r.payload = doc

variable (shardKey) in
/-- No record of any replica went back, and whatever a node holds or is about to send, somebody
wrote. -/
structure Traced (s₀ s : Replicas) : Prop where
  below : ∀ x key, Below ((s₀.nodes x).node.engine key) ((s.nodes x).node.engine key)
  rows : ∀ x key id r, ((s.nodes x).node.engine key).lookup id = some r →
    ((s₀.nodes x).node.engine key).lookup id = some r ∨
      ∃ doc, Known s₀ s doc ∧ effect shardKey doc = some (key, id, r)
  carries : ∀ x, (s.nodes x).Carries (Known s₀ s)
  sent : ∀ m ∈ s.sent, Known s₀ s m.2

/-- A row that an applied document leaves was there before or is the document's. -/
theorem lookup_applyChangeLocal {engine : CString → Shard} {payload : ChangeDoc}
    {key id : CString} {r : Row}
    (h : (((applyChangeLocal shardKey engine payload).1) key).lookup id = some r) :
    (engine key).lookup id = some r ∨ effect shardKey payload = some (key, id, r) := by
  by_contra hno
  obtain ⟨hold, hne⟩ := not_or.mp hno
  -- a document of a database is applied in the same way
  have happly : (((apiApplyChange shardKey engine { payload with db := some [] }).1)
      key).lookup id ≠ some r := lookup_apiApplyChange hold hne
  exact happly h

/-- One node takes a step, and knows where the documents it applies are from. -/
theorem Traced.update (h : Traced shardKey s₀ s) {x : NodeId} {n : Coordinator x}
    {l : Coordinator.Label x} (hstep : (s.nodes x).step shardKey l = some n)
    (hin : ∀ doc, l = .incoming doc → Known s₀ s doc) {answered : List (NodeId × ChangeDoc)} :
    Traced shardKey s₀
      { s with
        nodes := Function.update s.nodes x n, answered, begun := beginsWith l ++ s.begun } where
  below y key := by
    by_cases hy : y = x
    · subst hy
      simp only [Function.update_self]
      exact (h.below y key).trans (Coordinator.below_step hstep key)
    · simp only [Function.update_of_ne hy]
      exact h.below y key
  rows y key id r hr := by
    -- a row that was not there before is the effect of the document that was applied
    have hsub : ∀ d ∈ s.begun, d ∈ beginsWith l ++ s.begun := fun d =>
      List.mem_append_right (beginsWith l)
    have hold : ((s.nodes y).node.engine key).lookup id = some r →
        ((s₀.nodes y).node.engine key).lookup id = some r ∨
          ∃ doc, (doc ∈ beginsWith l ++ s.begun ∨ ∃ x, ∃ r ∈ (s₀.nodes x).cached, r.payload = doc) ∧
            effect shardKey doc = some (key, id, r) := by
      intro hr
      rcases h.rows y key id r hr with hstart | ⟨doc, hdoc, heff⟩
      · exact Or.inl hstart
      · exact Or.inr ⟨doc, hdoc.imp_left (hsub doc), heff⟩
    by_cases hy : y = x
    · subst hy
      simp only [Function.update_self] at hr
      rcases Coordinator.engine_step hstep with heq | ⟨i, w, -, hw, heq⟩ | ⟨doc, hl, heq⟩
      · rw [heq] at hr
        exact hold hr
      · rw [heq] at hr
        rcases lookup_applyChangeLocal hr with hr | heff
        · exact hold hr
        · have hknown := (h.carries y).writes w (List.mem_of_getElem? hw)
          exact Or.inr ⟨w.payload, hknown.imp_left (hsub _), heff⟩
      · rw [heq] at hr
        by_cases hrow : effect shardKey doc = some (key, id, r)
        · exact Or.inr ⟨doc, (hin doc hl).imp_left (hsub doc), hrow⟩
        · refine hold (by_contra fun hno => ?_)
          exact lookup_apiApplyChange hno hrow hr
    · simp only [Function.update_of_ne hy] at hr
      exact hold hr
  carries y := by
    -- what the node carries comes from its own writes and from the queue it began with
    have hmono : ∀ doc, Known s₀ s doc → (doc ∈ beginsWith l ++ s.begun ∨
        ∃ x, ∃ r ∈ (s₀.nodes x).cached, r.payload = doc) := fun doc hdoc =>
      hdoc.imp_left (List.mem_append_right _)
    by_cases hy : y = x
    · subst hy
      simp only [Function.update_self]
      refine ((h.carries y).mono hmono).step (fun doc hdoc => ?_) hstep
      exact Or.inl (List.mem_append_left _ hdoc)
    · simp only [Function.update_of_ne hy]
      exact (h.carries y).mono hmono
  sent m hm := (h.sent m hm).imp_left (List.mem_append_right _)

/-- **One step** of the cluster. -/
theorem Traced.step (h : Traced shardKey s₀ s) (hstep : s.step shardKey l = some s') :
    Traced shardKey s₀ s' := by
  cases l with
  | own x l =>
    -- in the cluster a node gets changes from others by `handle` only
    simp only [Replicas.step] at hstep
    split at hstep
    · next hheard =>
      obtain ⟨n, hn, rfl⟩ := Option.map_eq_some_iff.mp hstep
      refine h.update hn fun doc hl => ?_
      subst hl
      exact hheard.elim
    · cases hstep
  | send x i =>
    -- what is sent is the document of the node's own write
    obtain ⟨w, hw, hstep⟩ := Option.bind_eq_some_iff.mp hstep
    obtain ⟨p, -, hstep⟩ := Option.bind_eq_some_iff.mp hstep
    split at hstep <;> cases hstep
    refine { h with sent := fun m hm => ?_ }
    rcases List.mem_cons.mp hm with rfl | hm
    · exact (h.carries x).writes w (List.mem_of_getElem? hw)
    · exact h.sent m hm
  | sendRow x j =>
    obtain ⟨d, hd, hstep⟩ := Option.bind_eq_some_iff.mp hstep
    obtain ⟨r, hr, hstep⟩ := Option.bind_eq_some_iff.mp hstep
    split at hstep <;> cases hstep
    refine { h with sent := fun m hm => ?_ }
    rcases List.mem_cons.mp hm with rfl | hm
    · exact (h.carries x).drains d (List.mem_of_getElem? hd) r (List.mem_of_mem_head? hr)
    · exact h.sent m hm
  | handle x doc =>
    -- a change that is handled was sent
    simp only [Replicas.step] at hstep
    split at hstep
    · next hsent =>
      obtain ⟨n, hn, rfl⟩ := Option.map_eq_some_iff.mp hstep
      refine h.update hn fun doc' hl => ?_
      obtain rfl := Coordinator.Label.incoming.inj hl
      exact h.sent _ hsent
    · cases hstep

variable (shardKey) in
theorem traced_started (n : ∀ x, ReplNode x) (f : NodeId → CacheFile) :
    Traced shardKey (started n f) (started n f) where
  below _ _ := Below.refl _
  rows _ _ _ _ hr := Or.inl hr
  carries x := ⟨List.forall_mem_nil _, fun r hr => Or.inr ⟨x, r, hr, rfl⟩, List.forall_mem_nil _⟩
  sent := List.forall_mem_nil _

/-- **In every run** of the cluster the records of a replica only get newer, and each of them is
the change of a write, or was there at the start. -/
theorem replicas_traced (n : ∀ x, ReplNode x) (f : NodeId → CacheFile) (ls : List Label) :
    Runs.Throughout (step shardKey) (Traced shardKey (started n f)) (started n f) ls :=
  Runs.throughout_of_inv (fun _ _ _ h hstep => h.step hstep) (traced_started shardKey n f) ls

end

end Replicas

end EpsilonDB
