import EpsilonDB.Engine.CString
import EpsilonDB.Lib.Counted
import EpsilonDB.Lib.Runs
import Mathlib.Data.List.Nodup
import Mathlib.Data.List.Perm.Basic
import Mathlib.Logic.Function.Basic

/-!
# The connections to the peers (`socket/epsilon_cluster.c`)

Each connection has a thread that reads from it. Threads that send take references to the
connections in the list, send without the lock, and give the references back; the reader has one
too. Whoever drops the last reference closes the descriptor and frees the record. Removing a node
and stopping the cluster mark connections as dead and leave the rest to the readers.

- `PeerConn`, `Connections`: the records, the two lists, and what the threads hold between two
  sections under the lock.
- `connUnrefLocked`, `gossipState`, `maintainerTick`, `edbClusterRemoveNode`, `edbClusterStop`,
  `teardown`: the sections.
- `Connections.Label`, `Connections.step`: the steps of any number of threads.
- `Connections.object`: a connection as a counted object, which its reader owns. `moves_step`:
  a step only moves the objects.
- `Consistent`: the counts and marks of the code are what they stand for.
- `Lifecycle`, `conn_lifecycle`: what holds of the connections in every run.
-/

namespace EpsilonDB

/-- `peer_conn`. -/
structure PeerConn where
  /-- empty until the HELLO exchange, on a connection that was accepted -/
  nodeId : CString := []
  refs : Int := 0
  dead : Bool := false

/-- The connections of an `edb_cluster`, and what the threads hold. -/
structure Connections where
  conn : Nat → PeerConn := fun _ => {}
  /-- how many records were made so far -/
  spawned : Nat := 0
  pendingConns : List Nat := []
  conns : List Nat := []
  nconnThreads : Int := 0
  /-- connections whose thread is in its loop -/
  reading : List Nat := []
  /-- threads on their way out that still count -/
  exiting : List Nat := []
  /-- the arrays of the threads that are sending -/
  sending : List (List Nat) := []
  /-- connections that were never registered, and are about to be closed and freed -/
  discarding : List Nat := []
  /-- descriptors that a reader is about to close -/
  closing : List Nat := []
  /-- one entry for each `close` -/
  closed : List Nat := []
  /-- one entry for each `free` -/
  freed : List Nat := []

namespace Connections

/-- Write to a record. -/
def write (s : Connections) (i : Nat) (f : PeerConn → PeerConn) : Connections :=
  { s with conn := Function.update s.conn i (f (s.conn i)) }

/-- The section of `spawn_conn_thread`. A connection that was dialled has the id of its peer. -/
def spawnConnThread (s : Connections) (nodeId : CString) : Connections :=
  { s.write s.spawned fun _ => { nodeId } with
    spawned := s.spawned + 1
    nconnThreads := s.nconnThreads + 1
    pendingConns := s.spawned :: s.pendingConns }

/-- The section of `spawn_conn_thread` when there is no thread. It counts itself out later. -/
def spawnFails (s : Connections) (i : Nat) : Connections :=
  { s with
    pendingConns := s.pendingConns.erase i
    discarding := i :: s.discarding
    exiting := i :: s.exiting }

/-- The section of `pending_discard`, after a HELLO that named nobody or was refused. -/
def pendingDiscard (s : Connections) (i : Nat) : Connections :=
  { s with
    pendingConns := s.pendingConns.erase i
    nconnThreads := s.nconnThreads - 1
    discarding := i :: s.discarding }

/-- The rest of it: `close` and `free`. -/
def discard (s : Connections) (i : Nat) : Connections :=
  { s with
    discarding := s.discarding.erase i
    closed := i :: s.closed
    freed := i :: s.freed }

/-- The id a connection is known by after a HELLO with this id, or with none. -/
def heard (s : Connections) (i : Nat) (hello : Option CString) : CString :=
  hello.getD (s.conn i).nodeId

/-- The section of `conn_thread` that registers a connection. -/
def register (s : Connections) (i : Nat) (hello : Option CString) : Connections :=
  { s.write i fun c => { c with nodeId := s.heard i hello, refs := 1 } with
    pendingConns := s.pendingConns.erase i
    conns := i :: s.conns
    reading := i :: s.reading }

/-- The connections that a sender takes. -/
def live (s : Connections) : List Nat := s.conns.filter fun i => (s.conn i).dead = false

/-- Take a reference: `refs++`. -/
def acquire (s : Connections) (i : Nat) : Connections :=
  s.write i fun c => { c with refs := c.refs + 1 }

/-- A sender fills its array. -/
def send (s : Connections) (array : List Nat) : Connections :=
  { array.foldl acquire s with sending := array :: s.sending }

/-- The first section of `gossip_state`; there may be no memory for its array. -/
def gossipState (s : Connections) (noMemory : Bool) : Connections :=
  s.send (if noMemory then [] else s.live)

/-- The first section of `maintainer_tick`, whose array is on its stack. -/
def maintainerTick (s : Connections) : Connections := s.send (s.live.take 256)

/-- `conn_unref_locked`. -/
def connUnrefLocked (s : Connections) (i : Nat) : Connections :=
  let refs := (s.conn i).refs - 1
  let dropped := s.write i fun c => { c with refs }
  if refs = 0 ∧ (s.conn i).dead = true then
    { dropped with closed := i :: s.closed, freed := i :: s.freed }
  else dropped

/-- The last section of both: a sender gives back what is in its array. -/
def sent (s : Connections) (array : List Nat) : Connections :=
  array.foldl connUnrefLocked { s with sending := s.sending.erase array }

/-- Mark the connections in the list for which `p` holds. -/
def markDead (s : Connections) (p : PeerConn → Bool) : Connections :=
  { s with conn := fun i =>
      if i ∈ s.conns ∧ p (s.conn i) = true then { s.conn i with dead := true } else s.conn i }

/-- The section of `edb_cluster_remove_node`. The node may be unknown, or this one. -/
def edbClusterRemoveNode (s : Connections) (nodeId : CString) (found : Bool) : Connections :=
  if found then s.markDead fun c => c.nodeId = nodeId else s

/-- The section of `edb_cluster_stop`, up to its wait. -/
def edbClusterStop (s : Connections) : Connections := s.markDead fun _ => true

/-- A reader tears its connection down. The connection is closed after the section when no
sender has it. -/
def teardown (s : Connections) (i : Nat) : Connections :=
  let left := { s with reading := s.reading.erase i }
  if i ∈ s.conns then
    let unlinked := { left.write i fun c => { c with dead := true, refs := c.refs - 1 } with
      conns := s.conns.erase i, exiting := i :: s.exiting }
    if 0 < (s.conn i).refs - 1 then unlinked
    else { unlinked with freed := i :: s.freed, closing := i :: s.closing }
  else { left with nconnThreads := s.nconnThreads - 1 }

inductive Label where
  | spawn (nodeId : CString)
  | spawnFails (i : Nat)
  | pendingDiscard (i : Nat)
  | discard (i : Nat)
  | register (i : Nat) (hello : Option CString)
  | gossip (noMemory : Bool)
  | heartbeat
  | sent (array : List Nat)
  | removeNode (nodeId : CString) (found : Bool)
  | stop
  /-- the end of the wait in `edb_cluster_stop` -/
  | stopped
  | teardown (i : Nat)
  /-- `close`, after the section of a teardown -/
  | close (i : Nat)
  /-- `reader_exiting_locked` of a thread that has nothing left to close -/
  | exit (i : Nat)
deriving DecidableEq

/-- One step. -/
def step (s : Connections) : Label → Option Connections
  | .spawn nodeId => some (s.spawnConnThread nodeId)
  | .spawnFails i => if i ∈ s.pendingConns then some (s.spawnFails i) else none
  | .pendingDiscard i => if i ∈ s.pendingConns then some (s.pendingDiscard i) else none
  | .discard i => if i ∈ s.discarding then some (s.discard i) else none
  | .register i hello =>
    if i ∈ s.pendingConns ∧ s.heard i hello ≠ [] then some (s.register i hello) else none
  | .gossip noMemory => some (s.gossipState noMemory)
  | .heartbeat => some s.maintainerTick
  | .sent array => if array ∈ s.sending then some (s.sent array) else none
  | .removeNode nodeId found => some (s.edbClusterRemoveNode nodeId found)
  | .stop => some s.edbClusterStop
  | .stopped => if s.nconnThreads = 0 then some { s with conns := [] } else none
  | .teardown i => if i ∈ s.reading then some (s.teardown i) else none
  | .close i =>
    if i ∈ s.closing then
      some { s with closing := s.closing.erase i, closed := i :: s.closed }
    else none
  | .exit i =>
    if i ∈ s.exiting ∧ i ∉ s.discarding ∧ i ∉ s.closing then
      some { s with exiting := s.exiting.erase i, nconnThreads := s.nconnThreads - 1 }
    else none

/-! ## What the counts and marks stand for -/

/-- The counts and marks of the code are what they stand for, while a sender has yet to give
back the references `held`. -/
structure Consistent (s : Connections) (held : List Nat) : Prop where
  conns : s.conns = s.reading
  nodup : (s.pendingConns ++ s.reading).Nodup
  listed : ∀ i ∈ s.pendingConns ++ s.reading, i < s.spawned
  refs : ∀ i, (s.conn i).refs =
    (if i ∈ s.reading then 1 else 0) + (held ++ s.sending.flatten).count i
  users : ∀ i ∈ held ++ s.sending.flatten, i ∉ s.pendingConns ∧ i < s.spawned
  dead : ∀ i ∈ held ++ s.sending.flatten, i ∉ s.reading → (s.conn i).dead = true
  threads : s.nconnThreads = s.pendingConns.length + s.reading.length + s.exiting.length
  closed : ∀ i, s.closing.count i + s.closed.count i = s.freed.count i
  freed : ∀ i ∈ s.discarding ++ s.freed, i < s.spawned

/-- A connection as a counted object, while a sender has yet to give back the references `held`.
Its owner is the thread that reads from it. -/
def object (s : Connections) (held : List Nat) (i : Nat) : Counted.Obj where
  owned := decide (i ∈ s.pendingConns ∨ i ∈ s.reading)
  users := (held ++ s.sending.flatten).count i
  freeing := s.discarding.count i
  frees := s.freed.count i

theorem write_conn (s : Connections) (i : Nat) (f : PeerConn → PeerConn) (j : Nat) :
    (s.write i f).conn j = if j = i then f (s.conn i) else s.conn j :=
  Function.update_apply _ _ _ _

/-- A sender that takes `l` adds to the counts, and to nothing else. -/
theorem foldl_acquire (l : List Nat) (s : Connections) : l.foldl acquire s =
    { s with conn := fun j => { s.conn j with refs := (s.conn j).refs + l.count j } } := by
  induction l generalizing s with
  | nil =>
    show s = _
    simp
  | cons i l ih =>
    rw [List.foldl_cons, ih]
    have hconn : ∀ j, { (s.acquire i).conn j with
        refs := ((s.acquire i).conn j).refs + (l.count j : Int) } =
        { s.conn j with refs := (s.conn j).refs + ((i :: l).count j : Int) } := by
      intro j
      unfold acquire
      rw [write_conn]
      by_cases hj : j = i
      · subst hj
        rw [if_pos rfl, List.count_cons_self]
        dsimp only
        congr 1
        omega
      · rw [if_neg hj, List.count_cons_of_ne (Ne.symm hj)]
    rw [funext hconn]
    rfl

section Sections

variable {s : Connections} {held : List Nat}

theorem object_eq {j : Nat} {o : Counted.Obj}
    (howned : (j ∈ s.pendingConns ∨ j ∈ s.reading) ↔ o.owned = true)
    (husers : (held ++ s.sending.flatten).count j = o.users)
    (hfreeing : s.discarding.count j = o.freeing) (hfrees : s.freed.count j = o.frees) :
    s.object held j = o := by
  have howner : decide (j ∈ s.pendingConns ∨ j ∈ s.reading) = o.owned :=
    Bool.eq_iff_iff.mpr (decide_eq_true_iff.trans howned)
  obtain ⟨owned, users, freeing, frees⟩ := o
  unfold object
  rw [howner, husers, hfreeing, hfrees]

theorem owned_iff {j : Nat} :
    (s.object held j).owned = true ↔ j ∈ s.pendingConns ∨ j ∈ s.reading :=
  decide_eq_true_iff

theorem Consistent.not_reading (h : s.Consistent held) {i : Nat} (hi : i ∈ s.pendingConns) :
    i ∉ s.reading := fun hmem =>
  List.disjoint_of_nodup_append h.nodup hi hmem

/-- A connection without a thread of its own that was made before. -/
theorem Consistent.count_of_pending (h : s.Consistent held) {i : Nat} (hi : i ∈ s.pendingConns) :
    (held ++ s.sending.flatten).count i = 0 :=
  List.count_eq_zero.mpr fun hmem => (h.users i hmem).1 hi

/-! ## The sections keep the counts -/

theorem Consistent.nodup_pending (h : s.Consistent held) : s.pendingConns.Nodup :=
  h.nodup.of_append_left

theorem Consistent.nodup_reading (h : s.Consistent held) : s.reading.Nodup :=
  h.nodup.of_append_right

/-- A record that was not made yet is in no list. -/
theorem Consistent.unmade (h : s.Consistent held) :
    s.spawned ∉ s.pendingConns ++ s.reading ∧ s.spawned ∉ held ++ s.sending.flatten ∧
      s.spawned ∉ s.discarding ++ s.freed :=
  ⟨fun hmem => absurd (h.listed _ hmem) (lt_irrefl _),
    fun hmem => absurd (h.users _ hmem).2 (lt_irrefl _),
    fun hmem => absurd (h.freed _ hmem) (lt_irrefl _)⟩

theorem Consistent.spawnConnThread (h : s.Consistent held) (nodeId : CString) :
    (s.spawnConnThread nodeId).Consistent held := by
  obtain ⟨hlisted, husers, -⟩ := h.unmade
  have hconn : ∀ j, (s.spawnConnThread nodeId).conn j =
      if j = s.spawned then { nodeId } else s.conn j := fun j =>
    s.write_conn s.spawned (fun _ => { nodeId }) j
  -- the new record is in no list, so it starts with no reference and no user
  refine ⟨h.conns, List.nodup_cons.mpr ⟨hlisted, h.nodup⟩, ?_, fun j => ?_, ?_, ?_, ?_, h.closed,
    fun j hj => Nat.lt_succ_of_lt (h.freed j hj)⟩
  · intro j hj
    rcases List.mem_cons.mp hj with rfl | hj
    · exact Nat.lt_succ_self _
    · exact Nat.lt_succ_of_lt (h.listed j hj)
  · rw [hconn]
    by_cases hj : j = s.spawned
    · subst hj
      have hcount := List.count_eq_zero.mpr husers
      rw [if_pos rfl]
      show (0 : Int) =
        (if _ ∈ s.reading then 1 else 0) + ((held ++ s.sending.flatten).count _ : Int)
      rw [if_neg fun hmem => hlisted (List.mem_append_right _ hmem), hcount]
      rfl
    · rw [if_neg hj]
      exact h.refs j
  · intro j hj
    refine ⟨fun hmem => ?_, Nat.lt_succ_of_lt (h.users j hj).2⟩
    rcases List.mem_cons.mp hmem with rfl | hmem
    · exact husers hj
    · exact (h.users j hj).1 hmem
  · intro j hj hout
    rw [hconn, if_neg]
    · exact h.dead j hj hout
    · rintro rfl
      exact husers hj
  · show s.nconnThreads + 1 = ((s.spawned :: s.pendingConns).length : Int) +
      s.reading.length + s.exiting.length
    rw [h.threads, List.length_cons]
    omega

/-- A pending connection that is about to be discarded. -/
theorem Consistent.dropped (h : s.Consistent held) {i : Nat} (hi : i ∈ s.pendingConns)
    {exiting : List Nat} {threads : Int}
    (hthreads : threads + 1 = s.nconnThreads + exiting.length - s.exiting.length) :
    Consistent { s with
      pendingConns := s.pendingConns.erase i, discarding := i :: s.discarding,
      exiting := exiting, nconnThreads := threads } held where
  conns := h.conns
  nodup := h.nodup.sublist ((List.erase_sublist).append (List.Sublist.refl _))
  listed := fun j hj => h.listed j (List.mem_append.mpr
    ((List.mem_append.mp hj).imp_left List.mem_of_mem_erase))
  refs := h.refs
  users := fun j hj => ⟨fun hmem => (h.users j hj).1 (List.mem_of_mem_erase hmem), (h.users j hj).2⟩
  dead := h.dead
  threads := by
    have hlength := List.length_erase_of_mem hi
    have hpos := List.length_pos_of_mem hi
    have hold := h.threads
    dsimp only
    omega
  closed := h.closed
  freed := by
    intro j hj
    rcases List.mem_cons.mp hj with rfl | hj
    · exact h.listed _ (List.mem_append_left _ hi)
    · exact h.freed j hj

theorem Consistent.discard (h : s.Consistent held) {i : Nat} (hi : i ∈ s.discarding) :
    (s.discard i).Consistent held where
  conns := h.conns
  nodup := h.nodup
  listed := h.listed
  refs := h.refs
  users := h.users
  dead := h.dead
  threads := h.threads
  closed := by
    intro j
    have hold := h.closed j
    show s.closing.count j + (i :: s.closed).count j = (i :: s.freed).count j
    rw [List.count_cons, List.count_cons]
    omega
  freed := by
    intro j hj
    rcases List.mem_append.mp hj with hj | hj
    · exact h.freed j (List.mem_append_left _ (List.mem_of_mem_erase hj))
    · rcases List.mem_cons.mp hj with rfl | hj
      · exact h.freed j (List.mem_append_left _ hi)
      · exact h.freed j (List.mem_append_right _ hj)

/-- Registering moves a connection from one list to the other. -/
theorem perm_register {l l' : List Nat} {i : Nat} (hi : i ∈ l) :
    (l.erase i ++ i :: l').Perm (l ++ l') :=
  List.perm_middle.trans ((List.perm_cons_erase hi).symm.append_right l')

theorem Consistent.register (h : s.Consistent held) {i : Nat} (hi : i ∈ s.pendingConns)
    (hello : Option CString) : (s.register i hello).Consistent held := by
  have hperm : (s.pendingConns.erase i ++ i :: s.reading).Perm (s.pendingConns ++ s.reading) :=
    perm_register hi
  have hconn : ∀ j, (s.register i hello).conn j =
      if j = i then { s.conn i with nodeId := s.heard i hello, refs := 1 } else s.conn j :=
    fun j => s.write_conn i (fun c => { c with nodeId := s.heard i hello, refs := 1 }) j
  -- the record goes from one list to the other, and the second one has a reference
  refine ⟨congrArg (i :: ·) h.conns, hperm.nodup_iff.mpr h.nodup,
    fun j hj => h.listed j (hperm.mem_iff.mp hj), fun j => ?_, fun j hj => ?_, fun j hj hout => ?_,
    ?_, h.closed, h.freed⟩
  · rw [hconn]
    show _ = (if j ∈ i :: s.reading then 1 else 0) + ((held ++ s.sending.flatten).count j : Int)
    by_cases hj : j = i
    · subst hj
      rw [if_pos rfl, if_pos List.mem_cons_self, h.count_of_pending hi]
      rfl
    · rw [if_neg hj, h.refs j]
      simp [hj]
  · exact ⟨fun hmem => (h.users j hj).1 (List.mem_of_mem_erase hmem), (h.users j hj).2⟩
  · rw [hconn, if_neg]
    · exact h.dead j hj fun hmem => hout (List.mem_cons_of_mem i hmem)
    · rintro rfl
      exact hout List.mem_cons_self
  · have hlength := hperm.length_eq
    rw [List.length_append, List.length_append] at hlength
    have hold := h.threads
    show s.nconnThreads = ((s.pendingConns.erase i).length : Int) +
      ((i :: s.reading).length : Int) + s.exiting.length
    omega

theorem mem_live {i : Nat} : i ∈ s.live ↔ i ∈ s.conns ∧ (s.conn i).dead = false := by
  unfold live
  rw [List.mem_filter, decide_eq_true_iff]

/-- A sender takes connections that are in the list. -/
theorem Consistent.send (h : s.Consistent []) {array : List Nat}
    (harray : ∀ i ∈ array, i ∈ s.conns) : (s.send array).Consistent [] := by
  have hreading : ∀ i ∈ array, i ∈ s.reading := fun i hi => h.conns ▸ harray i hi
  unfold Connections.send
  rw [foldl_acquire]
  refine ⟨h.conns, h.nodup, h.listed, fun j => ?_, fun j hj => ?_, fun j hj hout => ?_, h.threads,
    h.closed, h.freed⟩
  · have hold : (s.conn j).refs = (if j ∈ s.reading then 1 else 0) +
        (s.sending.flatten.count j : Int) := h.refs j
    show (s.conn j).refs + (array.count j : Int) = (if j ∈ s.reading then 1 else 0) +
      ((array ++ s.sending.flatten).count j : Int)
    rw [List.count_append, hold]
    omega
  · have huser : j ∈ array ++ s.sending.flatten := hj
    rcases List.mem_append.mp huser with huser | huser
    · have hmem := hreading j huser
      exact ⟨fun hpending => h.not_reading hpending hmem,
        h.listed j (List.mem_append_right _ hmem)⟩
    · exact h.users j huser
  · have huser : j ∈ array ++ s.sending.flatten := hj
    rcases List.mem_append.mp huser with huser | huser
    · exact absurd (hreading j huser) hout
    · exact h.dead j huser hout

/-- A sender gives one reference back. -/
theorem Consistent.connUnrefLocked {i : Nat} (h : s.Consistent (i :: held)) :
    (s.connUnrefLocked i).Consistent held := by
  have hconn : ∀ j, (s.write i fun c => { c with refs := (s.conn i).refs - 1 }).conn j =
      if j = i then { s.conn i with refs := (s.conn i).refs - 1 } else s.conn j :=
    fun j => s.write_conn i (fun c => { c with refs := (s.conn i).refs - 1 }) j
  have husers : ∀ j ∈ held ++ s.sending.flatten, j ∈ i :: held ++ s.sending.flatten :=
    fun j hj => List.mem_cons_of_mem i hj
  -- the count goes down with the reference that is given back
  have hdropped : Consistent (s.write i fun c => { c with refs := (s.conn i).refs - 1 }) held := by
    refine ⟨h.conns, h.nodup, h.listed, fun j => ?_, fun j hj => h.users j (husers j hj),
      fun j hj hout => ?_, h.threads, h.closed, h.freed⟩
    · have hold := h.refs j
      rw [List.cons_append, List.count_cons] at hold
      rw [hconn]
      show _ = (if j ∈ s.reading then 1 else 0) + ((held ++ s.sending.flatten).count j : Int)
      by_cases hj : j = i
      · subst hj
        rw [beq_self_eq_true, if_pos rfl] at hold
        rw [if_pos rfl]
        dsimp only
        omega
      · rw [if_neg fun heq => hj (eq_of_beq heq).symm] at hold
        rw [if_neg hj]
        exact hold
    · rw [hconn]
      have hdead := h.dead j (husers j hj) hout
      split
      · rename_i heq
        rw [← heq]
        exact hdead
      · exact hdead
  unfold Connections.connUnrefLocked
  dsimp only
  -- the last reference closes the connection and frees the record
  split
  · refine { hdropped with closed := fun j => ?_, freed := fun j hj => ?_ }
    · have hold := h.closed j
      show s.closing.count j + (i :: s.closed).count j = (i :: s.freed).count j
      rw [List.count_cons, List.count_cons]
      omega
    · rcases List.mem_append.mp hj with hj | hj
      · exact h.freed j (List.mem_append_left _ hj)
      · rcases List.mem_cons.mp hj with rfl | hj
        · exact (h.users j List.mem_cons_self).2
        · exact h.freed j (List.mem_append_right _ hj)
  · exact hdropped

/-- What a sender has in its array are references it has yet to give back. -/
theorem perm_sent {array : List Nat} {sending : List (List Nat)} (hmem : array ∈ sending) :
    (array ++ (sending.erase array).flatten).Perm sending.flatten := by
  rw [← List.flatten_cons]
  exact (List.perm_cons_erase hmem).symm.flatten

theorem Consistent.sending_erase (h : s.Consistent []) {array : List Nat}
    (hmem : array ∈ s.sending) :
    Consistent { s with sending := s.sending.erase array } array := by
  have hperm := perm_sent hmem
  refine ⟨h.conns, h.nodup, h.listed, fun j => ?_, fun j hj => h.users j (hperm.mem_iff.mp hj),
    fun j hj => h.dead j (hperm.mem_iff.mp hj), h.threads, h.closed, h.freed⟩
  show _ = (if j ∈ s.reading then 1 else 0) +
    ((array ++ (s.sending.erase array).flatten).count j : Int)
  rw [hperm.count_eq]
  exact h.refs j

theorem Consistent.foldl_connUnrefLocked {l : List Nat} {s : Connections}
    (h : s.Consistent (l ++ held)) : (l.foldl Connections.connUnrefLocked s).Consistent held := by
  induction l generalizing s with
  | nil => exact h
  | cons i l ih => exact ih h.connUnrefLocked

theorem Consistent.sent (h : s.Consistent []) {array : List Nat} (hmem : array ∈ s.sending) :
    (s.sent array).Consistent [] := by
  have hheld : Consistent { s with sending := s.sending.erase array } (array ++ []) := by
    rw [List.append_nil]
    exact h.sending_erase hmem
  exact hheld.foldl_connUnrefLocked

/-- Whether a connection is dead only ever changes to yes. -/
theorem Consistent.markDead (h : s.Consistent held) (p : PeerConn → Bool) :
    (s.markDead p).Consistent held := by
  have hconn : ∀ j, ((s.markDead p).conn j).refs = (s.conn j).refs ∧
      ((s.conn j).dead = true → ((s.markDead p).conn j).dead = true) := by
    intro j
    unfold Connections.markDead
    dsimp only
    split
    · exact ⟨rfl, fun _ => rfl⟩
    · exact ⟨rfl, id⟩
  exact { h with
    refs := fun j => (hconn j).1.trans (h.refs j)
    dead := fun j hj hout => (hconn j).2 (h.dead j hj hout) }

theorem Consistent.teardown (h : s.Consistent held) {i : Nat} (hi : i ∈ s.reading) :
    (s.teardown i).Consistent held := by
  have hlinked : i ∈ s.conns := h.conns ▸ hi
  have hconn : ∀ j, (s.write i fun c => { c with dead := true, refs := c.refs - 1 }).conn j =
      if j = i then { s.conn i with dead := true, refs := (s.conn i).refs - 1 } else s.conn j :=
    fun j => s.write_conn i (fun c => { c with dead := true, refs := c.refs - 1 }) j
  -- the reading thread gives up the reference of the list
  have hunlinked : Consistent { s.write i fun c =>
      { c with dead := true, refs := c.refs - 1 } with
      reading := s.reading.erase i, conns := s.conns.erase i, exiting := i :: s.exiting } held := by
    refine ⟨congrArg (List.erase · i) h.conns,
      h.nodup.sublist ((List.Sublist.refl _).append List.erase_sublist), fun j hj => ?_,
      fun j => ?_, h.users, fun j huser hout => ?_, ?_, h.closed, h.freed⟩
    · exact h.listed j (List.mem_append.mpr
        ((List.mem_append.mp hj).imp_right List.mem_of_mem_erase))
    · have hold := h.refs j
      show ((s.write i fun c => { c with dead := true, refs := c.refs - 1 }).conn j).refs =
        (if j ∈ s.reading.erase i then 1 else 0) + ((held ++ s.sending.flatten).count j : Int)
      rw [hconn]
      by_cases hj : j = i
      · subst hj
        rw [if_pos hi] at hold
        rw [if_pos rfl, if_neg h.nodup_reading.not_mem_erase]
        dsimp only
        omega
      · rw [if_neg hj]
        simp only [List.mem_erase_of_ne hj]
        exact hold
    · show ((s.write i fun c => { c with dead := true, refs := c.refs - 1 }).conn j).dead = true
      rw [hconn]
      by_cases hj : j = i
      · rw [if_pos hj]
      · rw [if_neg hj]
        exact h.dead j huser fun hmem => hout ((List.mem_erase_of_ne hj).mpr hmem)
    · have hlength := List.length_erase_of_mem hi
      have hpos := List.length_pos_of_mem hi
      have hold := h.threads
      show s.nconnThreads = (s.pendingConns.length : Int) + (s.reading.erase i).length +
        (i :: s.exiting).length
      rw [List.length_cons]
      omega
  unfold Connections.teardown
  dsimp only
  rw [if_pos hlinked]
  -- without a sender it closes the connection and frees the record itself
  split
  · exact hunlinked
  · refine { hunlinked with closed := fun j => ?_, freed := fun j hj => ?_ }
    · have hold := h.closed j
      show (i :: s.closing).count j + s.closed.count j = (i :: s.freed).count j
      rw [List.count_cons, List.count_cons]
      omega
    · rcases List.mem_append.mp hj with hj | hj
      · exact h.freed j (List.mem_append_left _ hj)
      · rcases List.mem_cons.mp hj with rfl | hj
        · exact h.listed j (List.mem_append_right _ hi)
        · exact h.freed j (List.mem_append_right _ hj)

/-- **Every step** keeps the counts. -/
theorem Consistent.step (h : s.Consistent []) {l : Label} {s' : Connections}
    (hstep : s.step l = some s') : s'.Consistent [] := by
  cases l with
  | spawn nodeId =>
    obtain rfl := Option.some.inj hstep
    exact h.spawnConnThread nodeId
  | spawnFails i =>
    obtain ⟨hi, heq⟩ := Option.ite_none_right_eq_some.mp hstep
    obtain rfl := Option.some.inj heq
    refine h.dropped hi ?_
    rw [List.length_cons]
    omega
  | pendingDiscard i =>
    obtain ⟨hi, heq⟩ := Option.ite_none_right_eq_some.mp hstep
    obtain rfl := Option.some.inj heq
    refine h.dropped hi ?_
    omega
  | discard i =>
    obtain ⟨hi, heq⟩ := Option.ite_none_right_eq_some.mp hstep
    obtain rfl := Option.some.inj heq
    exact h.discard hi
  | register i hello =>
    obtain ⟨⟨hi, -⟩, heq⟩ := Option.ite_none_right_eq_some.mp hstep
    obtain rfl := Option.some.inj heq
    exact h.register hi hello
  | gossip noMemory =>
    obtain rfl := Option.some.inj hstep
    refine h.send fun i hi => ?_
    split at hi
    · cases hi
    · exact (mem_live.mp hi).1
  | heartbeat =>
    obtain rfl := Option.some.inj hstep
    exact h.send fun i hi => (mem_live.mp (List.mem_of_mem_take hi)).1
  | sent array =>
    obtain ⟨hmem, heq⟩ := Option.ite_none_right_eq_some.mp hstep
    obtain rfl := Option.some.inj heq
    exact h.sent hmem
  | removeNode nodeId found =>
    obtain rfl := Option.some.inj hstep
    unfold Connections.edbClusterRemoveNode
    split
    · exact h.markDead _
    · exact h
  | stop =>
    obtain rfl := Option.some.inj hstep
    exact h.markDead _
  | stopped =>
    obtain ⟨hzero, heq⟩ := Option.ite_none_right_eq_some.mp hstep
    obtain rfl := Option.some.inj heq
    -- every reader has counted itself out, so the list is empty already
    have hreading : s.reading = [] := by
      have hthreads := h.threads
      exact List.length_eq_zero_iff.mp (by omega)
    exact { h with conns := hreading.symm }
  | teardown i =>
    obtain ⟨hi, heq⟩ := Option.ite_none_right_eq_some.mp hstep
    obtain rfl := Option.some.inj heq
    exact h.teardown hi
  | close i =>
    obtain ⟨hi, heq⟩ := Option.ite_none_right_eq_some.mp hstep
    obtain rfl := Option.some.inj heq
    refine { h with closed := fun j => ?_ }
    have hold := h.closed j
    have hpos := List.count_pos_iff.mpr hi
    rw [List.count_erase, List.count_cons]
    simp only [beq_iff_eq]
    split
    · rename_i heq
      subst heq
      omega
    · omega
  | exit i =>
    obtain ⟨⟨hi, -⟩, heq⟩ := Option.ite_none_right_eq_some.mp hstep
    obtain rfl := Option.some.inj heq
    refine { h with threads := ?_ }
    have hlength := List.length_erase_of_mem hi
    have hpos := List.length_pos_of_mem hi
    have hold := h.threads
    dsimp only
    omega

/-! ## The sections move the objects -/

/-- The thread of a pending connection lets go of it. -/
theorem moves_dropped (h : s.Consistent held) {i : Nat} (hi : i ∈ s.pendingConns)
    (exiting : List Nat) (threads : Int) (j : Nat) :
    Counted.Moves (s.object held j)
      (object { s with
        pendingConns := s.pendingConns.erase i, discarding := i :: s.discarding,
        exiting := exiting, nconnThreads := threads } held j) := by
  by_cases hj : j = i
  · subst hj
    have hgone : object { s with
        pendingConns := s.pendingConns.erase j, discarding := j :: s.discarding,
        exiting := exiting, nconnThreads := threads } held j = (s.object held j).disown := by
      refine object_eq (iff_of_false ?_ Bool.false_ne_true) rfl ?_ rfl
      · exact fun hmem => hmem.elim h.nodup_pending.not_mem_erase (h.not_reading hi)
      · exact List.count_cons_self.trans (if_pos (h.count_of_pending hi)).symm
    rw [hgone]
    exact .single (.disown (owned_iff.mpr (Or.inl hi)))
  · have hkept : object { s with
        pendingConns := s.pendingConns.erase i, discarding := i :: s.discarding,
        exiting := exiting, nconnThreads := threads } held j = s.object held j := by
      refine object_eq ?_ rfl (List.count_cons_of_ne (Ne.symm hj)) rfl
      exact (or_congr_left (List.mem_erase_of_ne hj)).trans owned_iff.symm
    rw [hkept]

theorem moves_discard {i : Nat} (hi : i ∈ s.discarding) (j : Nat) :
    Counted.Moves (s.object held j) ((s.discard i).object held j) := by
  by_cases hj : j = i
  · subst hj
    have hfreed : (s.discard j).object held j =
        { s.object held j with
          freeing := (s.object held j).freeing - 1, frees := (s.object held j).frees + 1 } :=
      object_eq decide_eq_true_iff.symm rfl List.count_erase_self List.count_cons_self
    rw [hfreed]
    exact .single (.free (List.count_pos_iff.mpr hi))
  · have hkept : (s.discard i).object held j = s.object held j :=
      object_eq decide_eq_true_iff.symm rfl (List.count_erase_of_ne hj)
        (List.count_cons_of_ne (Ne.symm hj))
    rw [hkept]

/-- Its thread owns a connection before it is registered, and after. -/
theorem object_register {i : Nat} (hi : i ∈ s.pendingConns) (hello : Option CString) (j : Nat) :
    (s.register i hello).object held j = s.object held j := by
  refine object_eq ?_ rfl rfl rfl
  have hmem : j ∈ s.pendingConns.erase i ++ i :: s.reading ↔ j ∈ s.pendingConns ++ s.reading :=
    (perm_register hi).mem_iff
  rw [List.mem_append, List.mem_append] at hmem
  exact hmem.trans owned_iff.symm

/-- References to connections in the list are lent. -/
theorem moves_send (h : s.Consistent []) {array : List Nat} (harray : ∀ i ∈ array, i ∈ s.conns)
    (j : Nat) : Counted.Moves (s.object [] j) ((s.send array).object [] j) := by
  have hlent : (s.send array).object [] j =
      { s.object [] j with users := (s.object [] j).users + array.count j } := by
    unfold Connections.send
    rw [foldl_acquire]
    refine object_eq decide_eq_true_iff.symm ?_ rfl rfl
    show (array ++ s.sending.flatten).count j = s.sending.flatten.count j + array.count j
    rw [List.count_append, Nat.add_comm]
  rw [hlent]
  by_cases hj : j ∈ array
  · have hreading : j ∈ s.reading := h.conns ▸ harray j hj
    exact Counted.moves_lend (owned_iff.mpr (Or.inr hreading)) _
  · rw [List.count_eq_zero.mpr hj]
    exact .refl

/-- A sender gives a reference back. The code frees the connection when it is dead and there is
no other reference. -/
theorem moves_connUnrefLocked {i : Nat} (h : s.Consistent (i :: held)) (j : Nat) :
    Counted.Moves (s.object (i :: held) j) ((s.connUnrefLocked i).object held j) := by
  have huser : i ∈ i :: held ++ s.sending.flatten := List.mem_cons_self
  have hcount : (i :: held ++ s.sending.flatten).count i =
      (held ++ s.sending.flatten).count i + 1 := List.count_cons_self
  have hpos : 0 < (i :: held ++ s.sending.flatten).count i := List.count_pos_iff.mpr huser
  have hrefs := h.refs i
  rw [hcount] at hrefs
  -- the code's test is that of a counted object
  have hlast : (s.conn i).refs - 1 = 0 ∧ (s.conn i).dead = true ↔
      (s.object (i :: held) i).owned = false ∧ (s.object (i :: held) i).users - 1 = 0 := by
    have husers : (s.object (i :: held) i).users = (held ++ s.sending.flatten).count i + 1 := hcount
    have howned : (s.object (i :: held) i).owned = false ↔ i ∉ s.reading := by
      rw [← Bool.not_eq_true, owned_iff, not_or]
      exact and_iff_right (h.users i huser).1
    rw [howned, husers]
    constructor
    · rintro ⟨hzero, -⟩
      by_cases hmem : i ∈ s.reading
      · rw [if_pos hmem] at hrefs
        omega
      · rw [if_neg hmem] at hrefs
        exact ⟨hmem, by omega⟩
    · rintro ⟨hout, hzero⟩
      rw [if_neg hout] at hrefs
      exact ⟨by omega, h.dead i huser hout⟩
  by_cases hj : j = i
  · subst hj
    have hgiven := Counted.Move.giveBack (o := s.object (j :: held) j) hpos
    unfold Counted.Obj.giveBack at hgiven
    unfold Connections.connUnrefLocked
    dsimp only
    by_cases hfrees : (s.conn j).refs - 1 = 0 ∧ (s.conn j).dead = true
    · rw [if_pos (hlast.mp hfrees)] at hgiven
      rw [if_pos hfrees]
      refine (Relation.ReflTransGen.single hgiven).tail ?_
      have hfreed := Counted.Move.free (o := ⟨(s.object (j :: held) j).owned,
        (s.object (j :: held) j).users - 1, (s.object (j :: held) j).freeing + 1,
        (s.object (j :: held) j).frees⟩) (Nat.succ_pos _)
      convert hfreed using 1
      exact object_eq decide_eq_true_iff.symm (congrArg (· - 1) hcount).symm rfl
        List.count_cons_self
    · rw [if_neg fun hno => hfrees (hlast.mpr hno)] at hgiven
      rw [if_neg hfrees]
      convert Relation.ReflTransGen.single hgiven using 1
      exact object_eq decide_eq_true_iff.symm (congrArg (· - 1) hcount).symm rfl rfl
  · have hcountj : (i :: held ++ s.sending.flatten).count j =
        (held ++ s.sending.flatten).count j := List.count_cons_of_ne (Ne.symm hj)
    have hkept : (s.connUnrefLocked i).object held j = s.object (i :: held) j := by
      unfold Connections.connUnrefLocked
      dsimp only
      split
      · exact object_eq decide_eq_true_iff.symm hcountj.symm rfl
          (List.count_cons_of_ne (Ne.symm hj))
      · exact object_eq decide_eq_true_iff.symm hcountj.symm rfl rfl
    rw [hkept]

theorem moves_foldl_connUnrefLocked {l : List Nat} {s : Connections}
    (h : s.Consistent (l ++ held)) (j : Nat) :
    Counted.Moves (s.object (l ++ held) j)
      ((l.foldl Connections.connUnrefLocked s).object held j) := by
  induction l generalizing s with
  | nil => exact .refl
  | cons i l ih => exact (moves_connUnrefLocked h j).trans (ih h.connUnrefLocked)

theorem moves_sent (h : s.Consistent []) {array : List Nat} (hmem : array ∈ s.sending) (j : Nat) :
    Counted.Moves (s.object [] j) ((s.sent array).object [] j) := by
  have hheld : Consistent { s with sending := s.sending.erase array } (array ++ []) := by
    rw [List.append_nil]
    exact h.sending_erase hmem
  have hgiven := moves_foldl_connUnrefLocked hheld j
  have hkept : object { s with sending := s.sending.erase array } (array ++ []) j =
      s.object [] j := by
    refine object_eq decide_eq_true_iff.symm ?_ rfl rfl
    rw [List.append_nil]
    exact (perm_sent hmem).count_eq j
  rw [hkept] at hgiven
  exact hgiven

/-- A reader lets go of its connection, and frees it in the same section when no sender has
it. -/
theorem moves_teardown (h : s.Consistent held) {i : Nat} (hi : i ∈ s.reading) (j : Nat) :
    Counted.Moves (s.object held j) ((s.teardown i).object held j) := by
  have hlinked : i ∈ s.conns := h.conns ▸ hi
  have hnotPending : i ∉ s.pendingConns := fun hpending => h.not_reading hpending hi
  have hrefs := h.refs i
  rw [if_pos hi] at hrefs
  -- the record of the thread loses its owner, and goes at once if nobody sends
  by_cases hj : j = i
  · subst hj
    have hgone : ¬ (j ∈ s.pendingConns ∨ j ∈ s.reading.erase j) := fun hmem =>
      hmem.elim hnotPending h.nodup_reading.not_mem_erase
    have howned : (s.object held j).owned = true := owned_iff.mpr (Or.inr hi)
    have hdisowned := Counted.Move.disown howned
    unfold Counted.Obj.disown at hdisowned
    unfold Connections.teardown
    dsimp only
    rw [if_pos hlinked]
    by_cases hheld : 0 < (s.conn j).refs - 1
    · have husers : ¬ (s.object held j).users = 0 := by
        show ¬ (held ++ s.sending.flatten).count j = 0
        omega
      rw [if_neg husers] at hdisowned
      rw [if_pos hheld]
      convert Relation.ReflTransGen.single hdisowned using 1
      exact object_eq (iff_of_false hgone Bool.false_ne_true) rfl rfl rfl
    · have husers : (s.object held j).users = 0 := by
        show (held ++ s.sending.flatten).count j = 0
        omega
      rw [if_pos husers] at hdisowned
      rw [if_neg hheld]
      refine (Relation.ReflTransGen.single hdisowned).tail ?_
      have hfreed := Counted.Move.free (o := ⟨false, (s.object held j).users,
        (s.object held j).freeing + 1, (s.object held j).frees⟩) (Nat.succ_pos _)
      convert hfreed using 1
      exact object_eq (iff_of_false hgone Bool.false_ne_true) rfl rfl List.count_cons_self
  · -- another record is what it was
    have hkept : (s.teardown i).object held j = s.object held j := by
      have howned : j ∈ s.pendingConns ∨ j ∈ s.reading.erase i ↔
          (s.object held j).owned = true :=
        (or_congr_right (List.mem_erase_of_ne hj)).trans decide_eq_true_iff.symm
      unfold Connections.teardown
      dsimp only
      rw [if_pos hlinked]
      split
      · exact object_eq howned rfl rfl rfl
      · exact object_eq howned rfl rfl (List.count_cons_of_ne (Ne.symm hj))
    rw [hkept]

/-- Only `spawn_conn_thread` makes a record. -/
theorem spawned_step {l : Label} {s' : Connections} (hstep : s.step l = some s') :
    s'.spawned = s.spawned ∨ ∃ nodeId, s' = s.spawnConnThread nodeId := by
  -- references that come and go make no record
  have hunref : ∀ (l : List Nat) (s : Connections),
      (l.foldl Connections.connUnrefLocked s).spawned = s.spawned := by
    intro l
    induction l with
    | nil => exact fun _ => rfl
    | cons i l ih =>
      intro s
      refine (ih _).trans ?_
      unfold Connections.connUnrefLocked
      dsimp only
      split <;> rfl
  have hsend : ∀ array, (s.send array).spawned = s.spawned := by
    intro array
    unfold Connections.send
    rw [foldl_acquire]
  cases l with
  | spawn nodeId =>
    obtain rfl := Option.some.inj hstep
    exact Or.inr ⟨nodeId, rfl⟩
  | gossip noMemory =>
    obtain rfl := Option.some.inj hstep
    exact Or.inl (hsend _)
  | heartbeat =>
    obtain rfl := Option.some.inj hstep
    exact Or.inl (hsend _)
  | sent array =>
    obtain ⟨-, heq⟩ := Option.ite_none_right_eq_some.mp hstep
    obtain rfl := Option.some.inj heq
    exact Or.inl (hunref _ _)
  | removeNode nodeId found =>
    obtain rfl := Option.some.inj hstep
    left
    unfold Connections.edbClusterRemoveNode
    split <;> rfl
  | stop =>
    obtain rfl := Option.some.inj hstep
    exact Or.inl rfl
  | teardown i =>
    obtain ⟨-, heq⟩ := Option.ite_none_right_eq_some.mp hstep
    obtain rfl := Option.some.inj heq
    left
    unfold Connections.teardown
    dsimp only
    split
    · split <;> rfl
    · rfl
  | spawnFails i | pendingDiscard i | discard i | register i hello | stopped | close i | exit i =>
    obtain ⟨-, heq⟩ := Option.ite_none_right_eq_some.mp hstep
    obtain rfl := Option.some.inj heq
    exact Or.inl rfl

/-- The record that is made is a new object. -/
theorem object_spawned (h : s.Consistent held) (nodeId : CString) :
    (s.spawnConnThread nodeId).object held s.spawned = Counted.born := by
  obtain ⟨-, husers, hfreed⟩ := h.unmade
  refine object_eq (iff_of_true (Or.inl List.mem_cons_self) rfl) (List.count_eq_zero.mpr husers)
    (List.count_eq_zero.mpr fun hmem => hfreed (List.mem_append_left _ hmem))
    (List.count_eq_zero.mpr fun hmem => hfreed (List.mem_append_right _ hmem))

/-- **Every step moves the objects** there are. -/
theorem moves_step (h : s.Consistent []) {l : Label} {s' : Connections}
    (hstep : s.step l = some s') {j : Nat} (hj : j < s.spawned) :
    Counted.Moves (s.object [] j) (s'.object [] j) := by
  cases l with
  | spawn nodeId =>
    -- only the new object begins, and `j` is an older one
    obtain rfl := Option.some.inj hstep
    have hkept : (s.spawnConnThread nodeId).object [] j = s.object [] j := by
      refine object_eq ?_ rfl rfl rfl
      exact (or_congr_left (List.mem_cons.trans (or_iff_right hj.ne))).trans
        decide_eq_true_iff.symm
    rw [hkept]
  | spawnFails i =>
    -- the object is given up by the thread that made it
    obtain ⟨hi, heq⟩ := Option.ite_none_right_eq_some.mp hstep
    obtain rfl := Option.some.inj heq
    exact moves_dropped h hi _ _ j
  | pendingDiscard i =>
    obtain ⟨hi, heq⟩ := Option.ite_none_right_eq_some.mp hstep
    obtain rfl := Option.some.inj heq
    exact moves_dropped h hi _ _ j
  | discard i =>
    obtain ⟨hi, heq⟩ := Option.ite_none_right_eq_some.mp hstep
    obtain rfl := Option.some.inj heq
    exact moves_discard hi j
  | register i hello =>
    -- the table takes over the reference of the thread
    obtain ⟨⟨hi, -⟩, heq⟩ := Option.ite_none_right_eq_some.mp hstep
    obtain rfl := Option.some.inj heq
    rw [object_register hi]
  | gossip noMemory =>
    -- senders take references of their own, and give them back when they have sent
    obtain rfl := Option.some.inj hstep
    refine moves_send h (fun i hi => ?_) j
    split at hi
    · cases hi
    · exact (mem_live.mp hi).1
  | heartbeat =>
    obtain rfl := Option.some.inj hstep
    exact moves_send h (fun i hi => (mem_live.mp (List.mem_of_mem_take hi)).1) j
  | sent array =>
    obtain ⟨hmem, heq⟩ := Option.ite_none_right_eq_some.mp hstep
    obtain rfl := Option.some.inj heq
    exact moves_sent h hmem j
  | removeNode nodeId found =>
    obtain rfl := Option.some.inj hstep
    unfold Connections.edbClusterRemoveNode
    split
    · exact .refl
    · exact .refl
  | stop =>
    obtain rfl := Option.some.inj hstep
    exact .refl
  | teardown i =>
    -- the reader takes its entry out of the table and gives up its reference
    obtain ⟨hi, heq⟩ := Option.ite_none_right_eq_some.mp hstep
    obtain rfl := Option.some.inj heq
    exact moves_teardown h hi j
  | stopped | close i | exit i =>
    obtain ⟨-, heq⟩ := Option.ite_none_right_eq_some.mp hstep
    obtain rfl := Option.some.inj heq
    exact .refl

end Sections

/-! ## The runs -/

/-- What every step keeps: the counts and marks, and that the objects are safe. -/
structure Sound (s : Connections) : Prop where
  consistent : s.Consistent []
  safe : ∀ i < s.spawned, Counted.Safe (s.object [] i)

/-- What holds of the connections. -/
structure Lifecycle (s : Connections) : Prop where
  /-- a connection counts its reader and its senders -/
  refs : ∀ i, (s.conn i).refs = (if i ∈ s.reading then 1 else 0) + s.sending.flatten.count i
  closedOnce : ∀ i, s.closed.count i ≤ 1
  freedOnce : ∀ i, s.freed.count i ≤ 1
  /-- a connection that is closed or freed, or about to be, has no reference -/
  last : ∀ i ∈ s.discarding ++ s.closing ++ s.closed ++ s.freed,
    (s.conn i).refs = 0 ∧ i ∉ s.reading ∧ ∀ array ∈ s.sending, i ∉ array
  /-- a sender can use what it has -/
  sending : ∀ array ∈ s.sending, ∀ i ∈ array, i ∉ s.closed ∧ i ∉ s.freed
  /-- and whoever goes through the lists what is in them -/
  listed : ∀ i ∈ s.pendingConns ++ s.conns, i ∉ s.closed ∧ i ∉ s.freed
  /-- a reader finds its connection in the list -/
  linked : s.conns = s.reading
  /-- a connection without references was closed and freed, unless it was never registered, or
  its thread has yet to do so -/
  done : ∀ i < s.spawned, i ∉ s.pendingConns → i ∉ s.discarding → i ∉ s.closing →
    (s.conn i).refs = 0 → i ∈ s.closed ∧ i ∈ s.freed

/-- A cluster without connections. -/
theorem sound_empty : Sound {} where
  consistent := ⟨rfl, List.nodup_nil, nofun, fun _ => rfl, nofun, nofun, rfl, fun _ => rfl, nofun⟩
  safe := nofun

theorem Sound.step {s s' : Connections} {l : Label} (h : s.Sound) (hstep : s.step l = some s') :
    s'.Sound where
  consistent := h.consistent.step hstep
  safe := by
    intro i hi
    by_cases hold : i < s.spawned
    · exact Counted.safe_moves (h.safe i hold) (moves_step h.consistent hstep hold)
    · -- it was made in this step
      rcases spawned_step hstep with heq | ⟨nodeId, rfl⟩
      · omega
      · have hlt : i < s.spawned + 1 := hi
        obtain rfl : i = s.spawned := by omega
        rw [object_spawned h.consistent]
        exact Counted.safe_born

/-- Nobody has a connection that is freed, or about to be. -/
theorem Sound.gone {s : Connections} (h : s.Sound) {i : Nat} (hi : i ∈ s.discarding ++ s.freed) :
    i ∉ s.pendingConns ++ s.reading ∧ i ∉ s.sending.flatten := by
  have hsafe := h.safe i (h.consistent.freed i hi)
  have hfree : ¬ ((s.object [] i).freeing = 0 ∧ (s.object [] i).frees = 0) := by
    rintro ⟨hfreeing, hfrees⟩
    rcases List.mem_append.mp hi with hi | hi
    · exact absurd hfreeing (List.count_pos_iff.mpr hi).ne'
    · exact absurd hfrees (List.count_pos_iff.mpr hi).ne'
  constructor
  · exact fun hmem => hfree (hsafe.owned (owned_iff.mpr (List.mem_append.mp hmem)))
  · exact fun hmem => hfree (hsafe.used (List.count_pos_iff.mpr hmem))

/-- Closed descriptors, and those about to be, belong to freed records. -/
theorem Consistent.mem_freed {s : Connections} {held : List Nat} (h : s.Consistent held) {i : Nat}
    (hi : i ∈ s.closing ++ s.closed) : i ∈ s.freed := by
  have hcount : 0 < (s.closing ++ s.closed).count i := List.count_pos_iff.mpr hi
  rw [List.count_append, h.closed i] at hcount
  exact List.count_pos_iff.mp hcount

theorem Sound.freedOnce {s : Connections} (h : s.Sound) (i : Nat) : s.freed.count i ≤ 1 := by
  by_cases hi : i < s.spawned
  · exact (h.safe i hi).frees_le
  · have hnever : i ∉ s.freed := fun hmem =>
      hi (h.consistent.freed i (List.mem_append_right _ hmem))
    exact (List.count_eq_zero.mpr hnever).trans_le (Nat.zero_le 1)

theorem Sound.toLifecycle {s : Connections} (h : s.Sound) : s.Lifecycle := by
  have hcons := h.consistent
  have hclosed : ∀ i ∈ s.closed, i ∈ s.freed := fun i hi =>
    hcons.mem_freed (List.mem_append_right _ hi)
  have hfreed : ∀ i ∈ s.freed, i ∉ s.pendingConns ++ s.reading ∧ i ∉ s.sending.flatten :=
    fun i hi => h.gone (List.mem_append_right _ hi)
  refine ⟨hcons.refs, fun i => ?_, h.freedOnce, fun i hi => ?_, fun array hmem i hi => ?_,
    fun i hi => ?_, hcons.conns, fun i hi hpending hdiscarding hclosing hrefs => ?_⟩
  · -- a socket is closed when its record is about to be freed, which happens once
    have hcount := hcons.closed i
    have honce := h.freedOnce i
    omega
  · -- whatever is on its way to be freed has neither list nor sender
    have hi : i ∈ s.discarding ++ s.freed := by
      rcases List.mem_append.mp hi with hi | hi
      · rcases List.mem_append.mp hi with hi | hi
        · rcases List.mem_append.mp hi with hi | hi
          · exact List.mem_append_left _ hi
          · exact List.mem_append_right _ (hcons.mem_freed (List.mem_append_left _ hi))
        · exact List.mem_append_right _ (hclosed i hi)
      · exact List.mem_append_right _ hi
    obtain ⟨hlisted, husers⟩ := h.gone hi
    have hreading : i ∉ s.reading := fun hmem => hlisted (List.mem_append_right _ hmem)
    refine ⟨?_, hreading, fun array hmem hin => husers (List.mem_flatten.mpr ⟨array, hmem, hin⟩)⟩
    have hrefs : (s.conn i).refs = _ + (s.sending.flatten.count i : Int) := hcons.refs i
    rw [hrefs, if_neg hreading, List.count_eq_zero.mpr husers]
    rfl
  · have huser : i ∈ s.sending.flatten := List.mem_flatten.mpr ⟨array, hmem, hi⟩
    exact ⟨fun hmem => (hfreed i (hclosed i hmem)).2 huser, fun hmem => (hfreed i hmem).2 huser⟩
  · rw [hcons.conns] at hi
    exact ⟨fun hmem => (hfreed i (hclosed i hmem)).1 hi, fun hmem => (hfreed i hmem).1 hi⟩
  · -- without references it is in neither list, so it has been freed
    have hcount : (s.conn i).refs = (if i ∈ s.reading then 1 else 0) +
        (s.sending.flatten.count i : Int) := hcons.refs i
    have hreading : i ∉ s.reading := by
      intro hmem
      rw [if_pos hmem] at hcount
      omega
    rw [if_neg hreading] at hcount
    have husers : (s.object [] i).users = 0 := by
      show s.sending.flatten.count i = 0
      omega
    have hunowned : (s.object [] i).owned = false :=
      Bool.eq_false_iff.mpr fun howned => (owned_iff.mp howned).elim hpending hreading
    have honce : s.discarding.count i + s.freed.count i = 1 := (h.safe i hi).done hunowned husers
    have hclose := hcons.closed i
    rw [List.count_eq_zero.mpr hdiscarding] at honce
    rw [List.count_eq_zero.mpr hclosing] at hclose
    exact ⟨List.count_pos_iff.mp (by omega), List.count_pos_iff.mp (by omega)⟩

/-- **The life of a peer connection**: in every order of the steps of any number of threads, each
state has all this. -/
theorem conn_lifecycle (ls : List Label) : Runs.Throughout step Lifecycle {} ls :=
  Runs.throughout_mono (fun _ h => h.toLifecycle)
    (Runs.throughout_of_inv (fun _ _ _ h hstep => h.step hstep) sound_empty ls)

end Connections

end EpsilonDB
