import EpsilonDB.Socket.Compliance
import EpsilonDB.Socket.Generations
import EpsilonDB.Socket.Members

/-!
# Numbers as names of live tables

A node takes a live table over when its number is greater, so the number is the name of the
table. But every node starts with a table of its own under number 1, and each leader counts
its own re-shardings.

- `SameCluster`, `NamesTable`: two nodes that know each other have one table a number.
- `Event.table`: the live table an event made.
- `Mesh.FreshNumber`: a new live table takes a number no earlier one took.
- `Mesh.MeetsLate`: nodes that come to know each other do not both have their first table.
- `Named`: what steps of both kinds keep.
- `namesTable_of_fresh`: in runs of such steps a number names one table.
- `split_numbers_twice`: two sides of a split use the same number.
-/

namespace EpsilonDB

/-- The nodes know each other. -/
def SameCluster (w : Mesh) (x y : NodeId) : Prop :=
  y ∈ (w.cluster x).peers.ids ∧ x ∈ (w.cluster y).peers.ids

instance (w : Mesh) (x y : NodeId) : Decidable (SameCluster w x y) :=
  inferInstanceAs (Decidable (_ ∧ _))

/-- Nodes of a cluster that have the same number have the same live table. -/
def NamesTable (w : Mesh) : Prop :=
  ∀ x y, SameCluster w x y → (w.cluster x).generation = (w.cluster y).generation →
    (w.cluster x).ranges = (w.cluster y).ranges

/-- The number and the live table an event made. -/
def Event.table : Event → Option (Int × List RangeInfo)
  | .promoted _ gen table => some (gen, table)
  | .resharded _ gen _ new => some (gen + 1, new)
  | .published _ _ _ | .marked _ _ _ => none

namespace Mesh

/-- A live table the step makes takes a number that no earlier one took. -/
def FreshNumber (w : Mesh) (l : Label) : Prop :=
  ∀ e ∈ w.events l, ∀ t ∈ e.table, ∀ e' ∈ w.history, ∀ t' ∈ e'.table, t'.1 ≠ t.1

/-- When a caller or a state makes a node know another one that knows it, one of them, or the
state, is past its first table. -/
def MeetsLate (w : Mesh) : Label → Prop
  | .hello x h _ =>
    x ∈ (w.cluster h.callerId).peers.ids → h.callerId ≠ x →
      1 < (w.cluster x).generation ∨ 1 < (w.cluster h.callerId).generation
  | .receive x _ k _ | .absorb x k _ =>
    ∀ s ∈ w.sent[k]?, ∀ y ∈ s.peers.ids, x ∈ (w.cluster y).peers.ids → y ≠ x →
      1 < (w.cluster x).generation ∨ 1 < (w.cluster y).generation ∨ 1 < s.generation
  | _ => True

instance (w : Mesh) (l : Label) : Decidable (w.FreshNumber l) :=
  inferInstanceAs (Decidable (∀ e ∈ w.events l, ∀ t ∈ e.table, ∀ e' ∈ w.history,
    ∀ t' ∈ e'.table, _))

instance (w : Mesh) : ∀ l : Label, Decidable (w.MeetsLate l)
  | .hello _ _ _ => inferInstanceAs (Decidable (_ → _ → _ ∨ _))
  | .receive _ _ k _ => inferInstanceAs (Decidable (∀ s ∈ w.sent[k]?, ∀ y ∈ s.peers.ids, _))
  | .absorb _ k _ => inferInstanceAs (Decidable (∀ s ∈ w.sent[k]?, ∀ y ∈ s.peers.ids, _))
  | .gossip _ | .register _ _ | .drop _ _ | .shrink _ | .expire _ _ | .remove _ _ _ | .publish _
  | .mark _ | .check _ | .commit _ _ _ | .void _ | .catchUp _ _ => isTrue trivial

end Mesh

/-- What holds in runs of fresh numbers and late meetings. -/
structure Named (w : Mesh) : Prop where
  fits : ∀ φ, w.Known φ → φ.Fits
  disciplined : ∀ x, Disciplined (w.cluster x)
  /-- a live table past the first ones was made by an event -/
  made : ∀ gen table, w.Known (.live gen table) → 1 < gen →
    ∃ e ∈ w.history, e.table = some (gen, table)
  unique : ∀ e ∈ w.history, ∀ e' ∈ w.history, ∀ gen table table',
    e.table = some (gen, table) → e'.table = some (gen, table') → table = table'
  apart : ∀ x y, SameCluster w x y → x ≠ y →
    1 < (w.cluster x).generation ∨ 1 < (w.cluster y).generation

/-- Then a number names one table. -/
theorem Named.namesTable {w : Mesh} (h : Named w) : NamesTable w := by
  intro x y hsame hgen
  by_cases hxy : x = y
  · rw [hxy]
  · have hpast : 1 < (w.cluster x).generation := by
      rcases h.apart x y hsame hxy with hx | hy
      · exact hx
      · rw [hgen]
        exact hy
    obtain ⟨e, he, hx⟩ := h.made _ _ (Or.inl ⟨x, rfl, rfl⟩) hpast
    obtain ⟨e', he', hy⟩ := h.made _ _ (Or.inl ⟨y, hgen.symm, rfl⟩) hpast
    exact h.unique e he e' he' _ _ _ hx hy

namespace Named

variable {w w' : Mesh} {l : Label}

/-- A live table that a step adds is one that its event made. -/
theorem made_of_adds {gen : Int} {table : List RangeInfo} (hφ : w.Adds (.live gen table) l) :
    ∃ e ∈ w.events l, e.table = some (gen, table) := by
  have hreshard : ∀ (cl₀ : Cluster) {x : NodeId} {cl cl' : Cluster},
      cl₀.generation = cl.generation → Mesh.Reshards cl₀ cl' (.live gen table) →
        ∃ e ∈ Mesh.reshardings x cl cl', e.table = some (gen, table) := by
    rintro cl₀ x cl cl' hgen ⟨hto, heq⟩
    obtain ⟨rfl, rfl⟩ := Fact.live.inj heq
    refine ⟨_, Mesh.mem_reshardings x hgen hto, ?_⟩
    show some (cl.generation + 1, cl'.ranges) = _
    rw [hto.generation, hgen]
  cases l with
  | commit x gen' now =>
    obtain ⟨hflag, heq⟩ := hφ
    obtain ⟨rfl, rfl⟩ := Fact.live.inj heq
    refine ⟨.promoted x (w.cluster x).targetGeneration (w.cluster x).targetRanges, ?_, rfl⟩
    show _ ∈ if _ then _ else _
    rw [if_pos hflag]
    exact List.mem_singleton.mpr rfl
  | shrink x => exact hreshard (w.cluster x) rfl hφ
  | expire x now => exact hreshard (tombstoneExpired now (w.cluster x)) rfl hφ.2
  | remove x id now => exact hreshard (tombstone (w.cluster x) id) rfl hφ.2
  | publish x =>
    obtain ⟨-, heq⟩ := hφ
    cases heq
  | mark x =>
    obtain ⟨-, heq⟩ := hφ
    cases heq
  | _ => exact hφ.elim

/-- A step makes at most one event. -/
theorem events_eq {e e' : Event} (he : e ∈ w.events l) (he' : e' ∈ w.events l) : e = e' := by
  have hrecords := w.records_events l
  generalize w.events l = es at hrecords he he'
  cases hrecords with
  | none => cases he
  | published _ => rw [List.mem_singleton.mp he, List.mem_singleton.mp he']
  | marked _ => rw [List.mem_singleton.mp he, List.mem_singleton.mp he']
  | promoted _ => rw [List.mem_singleton.mp he, List.mem_singleton.mp he']
  | resharded => rw [List.mem_singleton.mp he, List.mem_singleton.mp he']

/-- The acting node's live generation does not fall. -/
theorem generation_le (h : Named w) (hs : w.step l = some w') (x : NodeId) :
    (w.cluster x).generation ≤ (w'.cluster x).generation ∧ Disciplined (w'.cluster x) := by
  refine Mesh.forall_cluster_step hs
    (P := fun x cl => (w.cluster x).generation ≤ cl.generation ∧ Disciplined cl)
    (fun x => ⟨le_rfl, h.disciplined x⟩) ?_ x
  intro s _
  have hadvances := advances_run s (h.disciplined l.node)
  exact ⟨hadvances.live, hadvances.target (h.disciplined l.node)⟩

/-- A node that takes a state has at least its generation. -/
theorem generation_mergeState (now : Int) (cl other : Cluster) :
    other.generation ≤ (mergeState now cl (stateToJson other)).1.generation := by
  unfold mergeState
  dsimp only
  rw [(mergesTarget _ _ _).generation]
  rcases (mergesRanges now (stateToJson other).ranges _).live with
    ⟨gen, assigns, hdoc, -, hgen, -⟩ | ⟨hold, hgen, -⟩
  · rw [hgen]
    exact (Option.some.inj (congrArg TableDoc.generation hdoc)).le
  · rw [hgen]
    exact hold other.generation _ rfl

/-- A member that the acting node has come to know. -/
theorem apart_of_introduces (hmeets : w.MeetsLate l) (hs : w.step l = some w') {y : NodeId}
    {s : Section} (hsection : w.sectionOf l = some s) (hy : s.Introduces (w.cluster l.node) y)
    (hknown : l.node ∈ (w.cluster y).peers.ids) (hne : y ≠ l.node) :
    1 < (w.cluster l.node).generation ∨ 1 < (w.cluster y).generation ∨
      1 < (w'.cluster l.node).generation := by
  have hcluster := (Mesh.cluster_step hs).1
  rw [hsection] at hcluster
  -- the node of a state that is taken
  have hstate : ∀ sent : Cluster, (∃ item ∈ (stateToJson sent).nodes, item.id = some y) →
      (∀ z ∈ sent.peers.ids, l.node ∈ (w.cluster z).peers.ids → z ≠ l.node →
        1 < (w.cluster l.node).generation ∨ 1 < (w.cluster z).generation ∨ 1 < sent.generation) →
      sent.generation ≤ (w'.cluster l.node).generation →
        1 < (w.cluster l.node).generation ∨ 1 < (w.cluster y).generation ∨
          1 < (w'.cluster l.node).generation := by
    rintro sent ⟨item, hitem, hid⟩ hsent hle
    obtain ⟨p, hp, rfl⟩ := List.mem_map.mp hitem
    obtain rfl := Option.some.inj hid
    have hlisted : p.id ∈ sent.peers.ids := PeerTable.mem_ids.mpr ⟨p, hp, rfl⟩
    refine (hsent p.id hlisted hknown hne).imp_right (Or.imp_right fun hlt => ?_)
    exact lt_of_lt_of_le hlt hle
  cases l with
  | hello x doc now =>
    obtain rfl := Option.some.inj hsection
    obtain ⟨-, rfl⟩ := hy
    exact (hmeets hknown hne).imp_right Or.inl
  | receive x id k now =>
    obtain ⟨sent, hk, rfl⟩ := Option.map_eq_some_iff.mp hsection
    refine hstate sent hy (hmeets sent hk) ?_
    have hgen := congrArg Cluster.generation hcluster
    exact (generation_mergeState now (w.cluster x) sent).trans_eq hgen.symm
  | absorb x k now =>
    obtain ⟨sent, hk, rfl⟩ := Option.map_eq_some_iff.mp hsection
    refine hstate sent hy (hmeets sent hk) ?_
    have hgen := congrArg Cluster.generation hcluster
    exact (generation_mergeState now (w.cluster x) sent).trans_eq hgen.symm
  | gossip | check => cases hsection
  | _ =>
    obtain rfl := Option.some.inj hsection
    exact hy.elim

/-- Nodes that know each other stay apart from their first tables. -/
theorem apart_step (h : Named w) (hmeets : w.MeetsLate l) (hs : w.step l = some w') {x y : NodeId}
    (hsame : SameCluster w' x y) (hne : x ≠ y) :
    1 < (w'.cluster x).generation ∨ 1 < (w'.cluster y).generation := by
  obtain ⟨hacting, hother⟩ := Mesh.cluster_step hs
  have hgrows : ∀ z, 1 < (w.cluster z).generation → 1 < (w'.cluster z).generation :=
    fun z hz => hz.trans_le (h.generation_le hs z).1
  -- the acting node and another one
  have hpair : ∀ z, z ≠ l.node → z ∈ (w'.cluster l.node).peers.ids →
      l.node ∈ (w.cluster z).peers.ids →
        1 < (w'.cluster l.node).generation ∨ 1 < (w'.cluster z).generation := by
    intro z hz hknows hknown
    have hold : z ∈ (w.cluster l.node).peers.ids →
        1 < (w'.cluster l.node).generation ∨ 1 < (w'.cluster z).generation := fun hmem =>
      (h.apart l.node z ⟨hmem, hknown⟩ (Ne.symm hz)).imp (hgrows _) (hgrows _)
    rw [hacting] at hknows
    cases hsection : w.sectionOf l with
    | none =>
      rw [hsection] at hknows
      exact hold hknows
    | some s =>
      rw [hsection] at hknows
      rcases ids_run hknows with hmem | hintroduces
      · exact hold hmem
      · rcases apart_of_introduces hmeets hs hsection hintroduces hknown hz with hx | hz' | hx
        · exact Or.inl (hgrows _ hx)
        · exact Or.inr (hgrows _ hz')
        · exact Or.inl hx
  by_cases hx : x = l.node
  · subst hx
    have hy : w'.cluster y = w.cluster y := hother y (Ne.symm hne)
    exact hpair y (Ne.symm hne) hsame.1 (hy ▸ hsame.2)
  · by_cases hy : y = l.node
    · subst hy
      have hx' : w'.cluster x = w.cluster x := hother x hx
      exact (hpair x hx hsame.2 (hx' ▸ hsame.1)).symm
    · have hsame' : SameCluster w x y := by
        unfold SameCluster at hsame
        rw [hother x hx, hother y hy] at hsame
        exact hsame
      exact (h.apart x y hsame' hne).imp (hgrows _) (hgrows _)

/-- **A step** with a fresh number and a late meeting keeps all this. -/
theorem step (h : Named w) (hfresh : w.FreshNumber l) (hmeets : w.MeetsLate l)
    (hs : w.step l = some w') : Named w' := by
  obtain ⟨-, -, -, -, -, hhistory⟩ := Mesh.step_cases hs
  refine ⟨?_, fun x => (h.generation_le hs x).2, ?_, ?_, fun x y => h.apart_step hmeets hs⟩
  · intro φ hφ
    rcases Mesh.known_step h.fits hs hφ with hold | hnew
    · exact h.fits φ hold
    · exact Mesh.fits_of_adds h.fits hnew
  · intro gen table hknown hpast
    rw [hhistory]
    rcases Mesh.known_step h.fits hs hknown with hold | hnew
    · obtain ⟨e, he, htable⟩ := h.made gen table hold hpast
      exact ⟨e, List.mem_append_right _ he, htable⟩
    · obtain ⟨e, he, htable⟩ := made_of_adds hnew
      exact ⟨e, List.mem_append_left _ he, htable⟩
  · rw [hhistory]
    intro e he e' he' gen table table' htable htable'
    rcases List.mem_append.mp he with hnew | hold
    · rcases List.mem_append.mp he' with hnew' | hold'
      · obtain rfl := events_eq hnew hnew'
        exact (Prod.mk.inj (Option.some.inj (htable.symm.trans htable'))).2
      · exact (hfresh e hnew (gen, table) htable e' hold' (gen, table') htable' rfl).elim
    · rcases List.mem_append.mp he' with hnew' | hold'
      · exact (hfresh e' hnew' (gen, table') htable' e hold (gen, table) htable rfl).elim
      · exact h.unique e hold e' hold' gen table table' htable htable'

end Named

/-! ## The runs -/

theorem named_start (addr : NodeId → CString) (port : NodeId → Int) (now : Int) :
    Named (Mesh.start addr port now) := by
  refine ⟨?_, fun x => disciplined_start x (addr x) (port x) now, ?_, nofun, ?_⟩
  · exact fun φ hφ => (traced_start addr port now).fits hφ
  · rintro gen table (⟨x, hgen, -⟩ | ⟨s, hs, -⟩) hpast
    · -- the first table has number 1, and no table has 0
      have hlive := (alone_edbClusterStart x (addr x) (port x) now).live
      have hgen : (edbClusterStart x (addr x) (port x) now).generation = gen := hgen
      omega
    · cases hs
  · rintro x y ⟨hy, -⟩ hne
    exact absurd ((alone_edbClusterStart x (addr x) (port x) now).ids y hy).symm hne

/-- **A number names a table**: in every run in which new live tables take fresh numbers and
nodes do not meet with their first tables. -/
theorem namesTable_of_fresh (addr : NodeId → CString) (port : NodeId → Int) (now : Int)
    (ls : List Label) (w : Mesh)
    (hls : Runs.Along Mesh.step (fun w l => w.FreshNumber l ∧ w.MeetsLate l)
      (Mesh.start addr port now) ls)
    (hrun : Runs.run Mesh.step (Mesh.start addr port now) ls = some w) : NamesTable w :=
  (Runs.inv_run (fun _ _ _ h hl hs => Named.step h hl.1 hl.2 hs) (named_start addr port now) hls
    hrun).namesTable

/-- Node `a` takes `b` in by a re-sharding, and `b` its state. -/
def takenIn : List Label :=
  [.hello (cstr "a") (greeting (cstr "b")) 1, .register (cstr "a") (cstr "b"),
    .register (cstr "a") ephemeralId, .drop (cstr "a") ephemeralId, .shrink (cstr "a"),
    .gossip (cstr "a"), .receive (cstr "b") (cstr "a") 0 2]

theorem takenIn_namesTable :
    ∃ w, Runs.run Mesh.step allAlone takenIn = some w ∧ NamesTable w := by
  obtain ⟨w, hw⟩ := Option.isSome_iff_exists.mp
    (show (Runs.run Mesh.step allAlone takenIn).isSome = true by decide +kernel)
  exact ⟨w, hw, namesTable_of_fresh _ _ _ takenIn w (by decide +kernel) hw⟩

/-- After their first wave the nodes lose each other, and each shrinks the live table. -/
def splitTwice : List Label :=
  firstWave ++
    [.gossip (cstr "a"), .receive (cstr "b") (cstr "a") 0 5,
      .drop (cstr "a") (cstr "b"), .shrink (cstr "a"),
      .drop (cstr "b") (cstr "a"), .shrink (cstr "b")]

/-- Both sides of a split count to number 3, over themselves. -/
theorem split_numbers_twice :
    ∃ w, Runs.run Mesh.step allAlone splitTwice = some w ∧ ¬ NamesTable w := by
  obtain ⟨w, hw⟩ := Option.isSome_iff_exists.mp
    (show (Runs.run Mesh.step allAlone splitTwice).isSome = true by decide +kernel)
  refine ⟨w, hw, fun hnames => ?_⟩
  have hsplit : (Runs.run Mesh.step allAlone splitTwice).all (fun w =>
      decide (SameCluster w (cstr "a") (cstr "b")) &&
        decide ((w.cluster (cstr "a")).generation = (w.cluster (cstr "b")).generation) &&
        !decide ((w.cluster (cstr "a")).ranges = (w.cluster (cstr "b")).ranges)) = true := by
    decide +kernel
  rw [hw] at hsplit
  simp only [Option.all_some, Bool.and_eq_true, decide_eq_true_eq, Bool.not_eq_true',
    decide_eq_false_iff_not] at hsplit
  exact hsplit.2 (hnames _ _ hsplit.1.1 hsplit.1.2)

end EpsilonDB
