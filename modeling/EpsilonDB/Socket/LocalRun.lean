import EpsilonDB.Socket.Mesh

/-!
# The runs of one node

One node sees its critical sections run in some order. What arrives from others, a HELLO or
a state document, may be anything.

- `Section`: the critical sections, with what each of them is given.
- `Member.start`: a node at its first start.
- `Member.step`, `Member.after`: a section at work on the state of a node, and the state
  after some of them. None is refused.
- `Mesh.sectionOf`, `Mesh.cluster_step`: a step of the mesh is a section at one node.
-/

namespace EpsilonDB

/-- A critical section on the locked state of a node. -/
inductive Section where
  | hello (h : HelloDoc) (now : Int)
  | register (id : NodeId)
  | receive (id : NodeId) (doc : StateDoc) (now : Int)
  | absorb (doc : StateDoc) (now : Int)
  | drop (id : NodeId)
  | shrink
  | expire (now : Int)
  | remove (id : NodeId) (now : Int)
  | publish
  | mark
  | commit (now : Int)
  | void
  | catchUp (seed : Cluster)

namespace Section

/-- What the section does. -/
def op : Section → LocalOp
  | .hello h now => .hello now h
  | .register id => .register id
  | .receive id doc now => .receive now id doc
  | .absorb doc now => .absorb now doc
  | .drop id => .drop id
  | .shrink => .shrink
  | .expire now => .expire now
  | .remove id now => .remove now id
  | .publish => .publish
  | .mark => .mark
  | .commit now => .commit now
  | .void => .void
  | .catchUp seed => .catchUp seed

/-- The locked state after the section. -/
def run (s : Section) (cl : Cluster) : Cluster := s.op.run cl

end Section

namespace Member

variable {x : NodeId}

/-- A node runs a section. -/
def step (m : Member x) (s : Section) : Option (Member x) := some (m.apply s.op)

/-- A node at its first start, on its own. -/
def start (x : NodeId) (addr : CString) (port now : Int) : Member x :=
  (Mesh.start (fun _ => addr) (fun _ => port) now).node x

/-- The node after some sections. -/
def after (m : Member x) (ss : List Section) : Member x := ss.foldl (fun m s => m.apply s.op) m

theorem step_eq_some {m m' : Member x} {s : Section} (h : m.step s = some m') :
    m'.cluster = s.run m.cluster := by
  rw [← Option.some.inj h]
  rfl

end Member

/-! ## Steps of the mesh -/

/-- The node that acts. -/
def Label.node : Label → NodeId
  | .gossip x | .receive x _ _ _ | .absorb x _ _ | .hello x _ _ | .register x _ | .drop x _
  | .shrink x | .expire x _ | .remove x _ _ | .publish x | .mark x | .check x | .commit x _ _
  | .void x | .catchUp x _ => x

namespace Mesh

/-- The section a step runs. Gossip and checks only read. -/
def sectionOf (w : Mesh) : Label → Option Section
  | .gossip _ | .check _ => none
  | .receive _ id k now => (w.sent[k]?).map fun s => .receive id (stateToJson s) now
  | .absorb _ k now => (w.sent[k]?).map fun s => .absorb (stateToJson s) now
  | .hello _ h now => some (.hello h now)
  | .register _ id => some (.register id)
  | .drop _ id => some (.drop id)
  | .shrink _ => some .shrink
  | .expire _ now => some (.expire now)
  | .remove _ id now => some (.remove id now)
  | .publish _ => some .publish
  | .mark _ => some .mark
  | .commit _ _ now => some (.commit now)
  | .void _ => some .void
  | .catchUp _ seed => some (.catchUp (w.cluster seed))

/-- The operation of a step is that of its section. -/
theorem move_sectionOf {w : Mesh} {l : Label} {x : NodeId} {op : LocalOp}
    (h : w.move l = some (x, op)) :
    x = l.node ∧ ∀ cl, op.run cl = (w.sectionOf l).elim cl fun s => s.run cl := by
  cases l with
  | receive y id k now =>
    obtain ⟨s, hs, heq⟩ := Option.map_eq_some_iff.mp h
    obtain ⟨rfl, rfl⟩ := Prod.mk.inj heq
    refine ⟨rfl, fun cl => ?_⟩
    show _ = ((w.sent[k]?).map _).elim _ _
    rw [hs]
    rfl
  | absorb y k now =>
    obtain ⟨s, hs, heq⟩ := Option.map_eq_some_iff.mp h
    obtain ⟨rfl, rfl⟩ := Prod.mk.inj heq
    refine ⟨rfl, fun cl => ?_⟩
    show _ = ((w.sent[k]?).map _).elim _ _
    rw [hs]
    rfl
  | shrink y =>
    obtain ⟨-, h⟩ := Option.ite_none_right_eq_some.mp h
    obtain ⟨rfl, rfl⟩ := Prod.mk.inj (Option.some.inj h)
    exact ⟨rfl, fun _ => rfl⟩
  | check y =>
    obtain ⟨-, h⟩ := Option.ite_none_right_eq_some.mp h
    obtain ⟨rfl, rfl⟩ := Prod.mk.inj (Option.some.inj h)
    exact ⟨rfl, fun _ => rfl⟩
  | commit y gen now =>
    obtain ⟨-, h⟩ := Option.ite_none_right_eq_some.mp h
    obtain ⟨rfl, rfl⟩ := Prod.mk.inj (Option.some.inj h)
    exact ⟨rfl, fun _ => rfl⟩
  | _ =>
    obtain ⟨rfl, rfl⟩ := Prod.mk.inj (Option.some.inj h)
    exact ⟨rfl, fun _ => rfl⟩

/-- **A step of the mesh**: its section runs at the acting node, the others stay. -/
theorem cluster_step {w w' : Mesh} {l : Label} (h : w.step l = some w') :
    w'.cluster l.node = (w.sectionOf l).elim (w.cluster l.node) (fun s => s.run (w.cluster l.node)) ∧
      ∀ y, y ≠ l.node → w'.cluster y = w.cluster y := by
  obtain ⟨x, op, hmove, hx, hother, -⟩ := step_cases h
  obtain ⟨rfl, hop⟩ := move_sectionOf hmove
  exact ⟨hx.trans (hop _), hother⟩

/-- What is sent is the state of the acting node. -/
theorem sent_step {w w' : Mesh} {l : Label} (h : w.step l = some w') {s : Cluster}
    (hs : s ∈ w'.sent) : s ∈ w.sent ∨ s = w.cluster l.node := by
  unfold step at h
  obtain ⟨⟨x, op⟩, -, rfl⟩ := Option.map_eq_some_iff.mp h
  cases l with
  | gossip y =>
    rcases List.mem_cons.mp hs with rfl | hs
    · exact Or.inr rfl
    · exact Or.inl hs
  | _ => exact Or.inl hs

/-- What the acting node's section keeps, the step keeps at all nodes. -/
theorem forall_cluster_step {w w' : Mesh} {l : Label} (h : w.step l = some w')
    {P : NodeId → Cluster → Prop} (hP : ∀ x, P x (w.cluster x))
    (hs : ∀ s, w.sectionOf l = some s → P l.node (s.run (w.cluster l.node))) :
    ∀ x, P x (w'.cluster x) := by
  obtain ⟨hacting, hother⟩ := cluster_step h
  intro x
  by_cases hx : x = l.node
  · subst hx
    rw [hacting]
    cases hsection : w.sectionOf l with
    | none => exact hP _
    | some s => exact hs s hsection
  · rw [hother x hx]
    exact hP x

end Mesh

end EpsilonDB
