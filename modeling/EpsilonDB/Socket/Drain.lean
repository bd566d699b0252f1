import EpsilonDB.Lib.Runs
import EpsilonDB.Socket.Cluster

/-!
# One drain of a queue at a time (`edb_repl_drain_peer` and `replay_for_peer`)

The changes cached for a peer are drained by the maintenance thread, and by any FLUSH request
that names the peer. A single slot holds the peer that is drained, whoever drains it.

- `Draining`: the slot, and the drains between their two critical sections.
- `Draining.step`: a drain starts, unless the slot names its peer, and ends, which clears the
  slot.
- `SingleFlight`: no queue is drained twice at the same time.
- `SlotKept`: a drain that is asked for while its peer is drained finds the peer in the slot.
- `NoOverlap`: drains start only while no other peer is drained.
- `singleFlight_iff`: the runs with single flight are those that keep the slot, among them all
  runs without overlap.
- `overlapping_drains`: a drain of another peer overwrites the slot.
-/

namespace EpsilonDB

/-- Who drains: the maintenance thread, or the thread of a FLUSH request. -/
inductive Drainer where
  | maintenance
  | flush (n : Nat)
deriving DecidableEq

/-- `rp->replaying`, and the drains under way: who drains which queue. -/
structure Draining where
  replaying : CString := []
  drains : List (Drainer × NodeId) := []
deriving DecidableEq

inductive DrainLabel where
  /-- `replay_for_peer` up to its drain -/
  | replay (peer : NodeId)
  /-- a FLUSH request for `target`, up to its drain -/
  | flush (n : Nat) (target : CString)
  /-- a drain ends, also one that did not find its peer -/
  | finish (d : Drainer)
deriving DecidableEq

namespace Draining

/-- The first critical section of `replay_for_peer`. -/
def replayForPeer (s : Draining) (peer : NodeId) : Draining :=
  if s.replaying = peer then s
  else { replaying := snprintf nodeIdMax peer, drains := (.maintenance, peer) :: s.drains }

/-- The first critical section of `edb_repl_drain_peer`. -/
def edbReplDrainPeer (s : Draining) (n : Nat) (nodeId : NodeId) : Draining :=
  if s.replaying ≠ [] ∧ s.replaying = nodeId then s
  else { replaying := snprintf nodeIdMax nodeId, drains := (.flush n, nodeId) :: s.drains }

/-- The FLUSH branch of `repl_dispatch`: `target` is cut to a node id. -/
def dispatchFlush (s : Draining) (n : Nat) (target : CString) : Draining :=
  if snprintf nodeIdMax target = [] then s else edbReplDrainPeer s n (snprintf nodeIdMax target)

/-- The last critical section of both. -/
def drained (s : Draining) (d : Drainer) : Draining where
  replaying := []
  drains := s.drains.filter fun e => e.1 ≠ d

/-- Whether the thread drains already. -/
def busy (s : Draining) (d : Drainer) : Bool := s.drains.any fun e => e.1 = d

/-- One step. A thread drains one queue at a time, and the maintenance thread goes over the
members of the cluster. -/
def step (s : Draining) : DrainLabel → Option Draining
  | .replay peer =>
    if s.busy .maintenance ∨ validNodeId peer = false then none else some (s.replayForPeer peer)
  | .flush n target => if s.busy (.flush n) then none else some (s.dispatchFlush n target)
  | .finish d => if s.busy d then some (s.drained d) else none

/-- The peer a free thread asks to drain. -/
def asked (s : Draining) : DrainLabel → Option NodeId
  | .replay peer => if s.busy .maintenance ∨ validNodeId peer = false then none else some peer
  | .flush n target =>
    if s.busy (.flush n) ∨ snprintf nodeIdMax target = [] then none
    else some (snprintf nodeIdMax target)
  | .finish _ => none

/-- No queue is drained twice at the same time. -/
def SingleFlight (s : Draining) : Prop := (s.drains.map Prod.snd).Nodup

instance (s : Draining) : Decidable s.SingleFlight :=
  inferInstanceAs (Decidable (List.Nodup _))

/-- If the peer that is asked for is being drained, the slot still names it. -/
def SlotKept (s : Draining) (l : DrainLabel) : Prop :=
  ∀ peer, s.asked l = some peer → peer ∈ s.drains.map Prod.snd → s.replaying = peer

/-- Nobody else is being drained when a drain is asked for. -/
def NoOverlap (s : Draining) (l : DrainLabel) : Prop :=
  ∀ peer, s.asked l = some peer → ∀ e ∈ s.drains, e.2 = peer

/-! ## One step -/

variable {s s' : Draining} {l : DrainLabel}

theorem asked_ne_nil {peer : NodeId} (h : s.asked l = some peer) :
    peer ≠ [] ∧ snprintf nodeIdMax peer = peer := by
  cases l with
  | replay p =>
    obtain ⟨hfree, heq⟩ := Option.ite_none_left_eq_some.mp h
    obtain rfl := Option.some.inj heq
    rw [not_or, Bool.not_eq_false, validNodeId, Bool.and_eq_true, decide_eq_true_eq,
      decide_eq_true_eq] at hfree
    exact ⟨hfree.2.1, snprintf_of_lt hfree.2.2⟩
  | flush n target =>
    obtain ⟨hfree, heq⟩ := Option.ite_none_left_eq_some.mp h
    obtain rfl := Option.some.inj heq
    exact ⟨(not_or.mp hfree).2, snprintf_of_lt (length_snprintf_lt (by decide) target)⟩
  | finish d => cases h

/-- A refused step asks for nothing. -/
theorem asked_of_refused (h : s.step l = none) : s.asked l = none := by
  cases l with
  | replay peer =>
    rw [step] at h
    split at h
    · rename_i hbusy
      exact if_pos hbusy
    · cases h
  | flush n target =>
    rw [step] at h
    split at h
    · rename_i hbusy
      exact if_pos (Or.inl hbusy)
    · cases h
  | finish d => rfl

/-- What a step does: it starts the drain that is asked for unless the slot names the peer, or
ends one, or nothing. -/
inductive Steps (s : Draining) (l : DrainLabel) : Draining → Prop where
  | refused {peer} (hasked : s.asked l = some peer) (hslot : s.replaying = peer) : Steps s l s
  | started {d peer} (hasked : s.asked l = some peer) (hslot : s.replaying ≠ peer) :
    Steps s l { replaying := peer, drains := (d, peer) :: s.drains }
  | ended {d} (hasked : s.asked l = none) (hbusy : s.busy d = true) : Steps s l (s.drained d)
  | ignored (hasked : s.asked l = none) : Steps s l s

theorem steps (h : s.step l = some s') : Steps s l s' := by
  cases l with
  | replay peer =>
    obtain ⟨hfree, heq⟩ := Option.ite_none_left_eq_some.mp h
    obtain rfl := Option.some.inj heq
    have hasked : s.asked (.replay peer) = some peer := if_neg hfree
    rw [replayForPeer, (asked_ne_nil hasked).2]
    split
    · rename_i hslot
      exact .refused hasked hslot
    · rename_i hslot
      exact .started hasked hslot
  | flush n target =>
    obtain ⟨hfree, heq⟩ := Option.ite_none_left_eq_some.mp h
    obtain rfl := Option.some.inj heq
    rw [dispatchFlush]
    by_cases hnil : snprintf nodeIdMax target = []
    · rw [if_pos hnil]
      exact .ignored (if_pos (Or.inr hnil))
    · have hasked : s.asked (.flush n target) = some (snprintf nodeIdMax target) :=
        if_neg (not_or.mpr ⟨hfree, hnil⟩)
      rw [if_neg hnil, edbReplDrainPeer, (asked_ne_nil hasked).2]
      split
      · rename_i hslot
        exact .refused hasked hslot.2
      · rename_i hslot
        -- an empty slot names nobody
        refine .started hasked fun heq => hslot ⟨?_, heq⟩
        rw [heq]
        exact hnil
  | finish d =>
    obtain ⟨hbusy, heq⟩ := Option.ite_none_right_eq_some.mp h
    obtain rfl := Option.some.inj heq
    exact .ended rfl hbusy

theorem singleFlight_drained (hs : s.SingleFlight) (d : Drainer) : (s.drained d).SingleFlight :=
  hs.sublist (List.filter_sublist.map Prod.snd)

/-- A step keeps single flight exactly when it keeps the slot. -/
theorem singleFlight_step_iff (hs : s.SingleFlight) (h : s.step l = some s') :
    s'.SingleFlight ↔ s.SlotKept l := by
  cases steps h with
  | refused hasked hslot =>
    refine iff_of_true hs fun peer hpeer _ => ?_
    rw [hslot]
    exact Option.some.inj (hasked.symm.trans hpeer)
  | @started d peer hasked hslot =>
    constructor
    · intro hnodup p hp hmem
      obtain rfl : peer = p := Option.some.inj (hasked.symm.trans hp)
      exact absurd hmem (List.nodup_cons.mp hnodup).1
    · intro hkept
      exact List.nodup_cons.mpr ⟨fun hmem => hslot (hkept peer hasked hmem), hs⟩
  | ended hasked _ =>
    refine iff_of_true (singleFlight_drained hs _) fun peer hpeer => ?_
    rw [hasked] at hpeer
    cases hpeer
  | ignored hasked =>
    refine iff_of_true hs fun peer hpeer => ?_
    rw [hasked] at hpeer
    cases hpeer

/-! ## Without overlap -/

/-- Nothing is drained and the slot is empty, or it names the only queue that is drained. -/
def OneAtATime (s : Draining) : Prop :=
  (s.replaying = [] ∧ s.drains = []) ∨ ∃ d, s.drains = [(d, s.replaying)]

/-- Without overlap the slot names the only drain. -/
theorem oneAtATime_step (hs : s.OneAtATime) (hl : s.NoOverlap l) (h : s.step l = some s') :
    s'.OneAtATime := by
  cases steps h with
  | refused _ _ => exact hs
  | ignored _ => exact hs
  | @started d peer hasked hslot =>
    right
    rcases hs with ⟨-, hnone⟩ | ⟨e, hone⟩
    · exact ⟨d, by rw [hnone]⟩
    · -- the drain under way would be of this peer, which the slot names
      have hpeer := hl peer hasked (e, s.replaying) (by rw [hone]; exact List.mem_singleton_self _)
      exact absurd hpeer hslot
  | @ended d hasked hbusy =>
    left
    refine ⟨rfl, ?_⟩
    rcases hs with ⟨-, hnone⟩ | ⟨e, hone⟩
    · rw [busy, hnone] at hbusy
      cases hbusy
    · rw [busy, hone] at hbusy
      have he : e = d := by simpa using hbusy
      show s.drains.filter _ = []
      rw [hone, he]
      simp

theorem slotKept_of_noOverlap (hs : s.OneAtATime) : s.SlotKept l := by
  intro peer hasked hmem
  rcases hs with ⟨-, hnone⟩ | ⟨e, hone⟩
  · rw [hnone] at hmem
    cases hmem
  · rw [hone] at hmem
    exact (List.mem_singleton.mp hmem).symm

/-- **Single flight**: a run drains no queue twice at the same time exactly when the slot is
kept at each of its steps, which it is in the runs without overlap. -/
theorem singleFlight_iff (ls : List DrainLabel) :
    (Runs.Throughout step SingleFlight {} ls ↔ Runs.Along step SlotKept {} ls) ∧
      (Runs.Along step NoOverlap {} ls → Runs.Along step SlotKept {} ls) := by
  refine ⟨Runs.throughout_iff_along (fun l _ s hrefused peer hpeer => ?_)
    (fun l _ s s' hs hnext => singleFlight_step_iff hs hnext) List.nodup_nil,
    Runs.along_of_inv (fun s l s' hs hl hnext => oneAtATime_step hs hl hnext)
      (fun s l hs _ => slotKept_of_noOverlap hs) (Or.inl ⟨rfl, rfl⟩)⟩
  rw [asked_of_refused hrefused] at hpeer
  cases hpeer

/-- The maintenance thread drains `b`, a FLUSH request for `c` comes in, then one for `b`. -/
def overlapping : List DrainLabel :=
  [.replay (cstr "b"), .flush 1 (cstr "c"), .flush 2 (cstr "b")]

/-- The second request starts another drain of `b`. -/
theorem overlapping_drains : ¬ Runs.Throughout step SingleFlight {} overlapping := by
  decide

end Draining

end EpsilonDB
