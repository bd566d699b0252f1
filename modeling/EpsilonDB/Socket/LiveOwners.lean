import EpsilonDB.Socket.Compliance

/-!
# Who becomes an owner of the live table

A joining node is to own nothing before it holds its data: it is published as a target owner,
complies, and the promotion makes it a live owner. The live table has other writers. A gossip
merge copies a table another node has. A re-sharding spreads the live table over the members
that are online at the moment, also over those that have just joined.

- `Descends`: an owner of a live table got there by a promotion it complied with, or is the
  first node of its cluster, and kept its place in every re-sharding since.
- `LiveOwnership`: all live owners of all nodes did.
- `Mesh.Shrinking`: the re-shardings that add no owner.
- `LiveTraced`: what a run of careful and shrinking steps keeps.
- `liveOwnership_of_shrinking`: such runs have `LiveOwnership`.
- `departure_promotes_newcomer`: one departure while a newcomer is online makes it an owner.
-/

namespace EpsilonDB

/-- In a history, `owner` owns the live table `table` of generation `gen` rightly. -/
inductive Descends (owner : NodeId) (h : List Event) : Int → List RangeInfo → Prop
  | first : Descends owner h 1 (buildSlices [owner])
  | promoted {pre post : List Event} {n : NodeId} {gen : Int} {table : List RangeInfo} :
      h = post ++ .promoted n gen table :: pre → owner ∈ owners table →
      MarkedSince owner gen table pre → Descends owner h gen table
  | resharded {n : NodeId} {gen : Int} {old new : List RangeInfo} :
      .resharded n gen old new ∈ h → owner ∈ owners new →
      Descends owner h gen old → Descends owner h (gen + 1) new

/-- Every owner in the live table of a node owns it rightly. -/
def LiveOwnership (w : Mesh) : Prop :=
  ∀ x, ∀ owner ∈ owners (w.cluster x).ranges,
    Descends owner w.history (w.cluster x).generation (w.cluster x).ranges

/-- A re-sharding over the online members adds no owner. -/
def NoNewOwner (cl : Cluster) : Prop :=
  (onlineIds cl).length ≠ cl.ranges.length → ∀ id ∈ onlineIds cl, id ∈ owners cl.ranges

/-- Where the step re-shards a live table, it only shrinks it. -/
def Mesh.Shrinking (w : Mesh) : Label → Prop
  | .shrink x => (w.cluster x).ranges ≠ [] → NoNewOwner (w.cluster x)
  | .expire x now =>
    leaderIsSelfLocked (w.cluster x) = true →
      (w.cluster x).peers.rows.any (expired now (w.cluster x)) = true →
        NoNewOwner (tombstoneExpired now (w.cluster x))
  | .remove x id _ =>
    leaderIsSelfLocked (w.cluster x) = true → id ≠ x → ((w.cluster x).peers.find id).isSome →
      NoNewOwner (tombstone (w.cluster x) id)
  | _ => True

instance (cl : Cluster) : Decidable (NoNewOwner cl) :=
  inferInstanceAs (Decidable (_ → ∀ id ∈ onlineIds cl, _))

instance (w : Mesh) (l : Label) : Decidable (w.Shrinking l) :=
  match l with
  | .shrink x => inferInstanceAs (Decidable ((w.cluster x).ranges ≠ [] → _))
  | .expire x _ => inferInstanceAs (Decidable (leaderIsSelfLocked (w.cluster x) = true → _ → _))
  | .remove x _ _ =>
    inferInstanceAs (Decidable (leaderIsSelfLocked (w.cluster x) = true → _ → _ → _))
  | .gossip _ | .receive _ _ _ _ | .absorb _ _ _ | .hello _ _ _ | .register _ _ | .drop _ _
  | .publish _ | .mark _ | .check _ | .commit _ _ _ | .void _ | .catchUp _ _ => isTrue trivial

/-! ## Rightful owners -/

theorem Descends.append {owner : NodeId} {h : List Event} {gen : Int} {table : List RangeInfo}
    (hd : Descends owner h gen table) (es : List Event) : Descends owner (es ++ h) gen table := by
  induction hd with
  | first => exact .first
  | @promoted pre post n gen table heq howner hmarked =>
    have happ : es ++ h = (es ++ post) ++ .promoted n gen table :: pre := by
      rw [heq, List.append_assoc]
    exact .promoted happ howner hmarked
  | resharded hmem howner _ ih => exact .resharded (List.mem_append_right _ hmem) howner ih

/-- A rightful owner is an owner. -/
theorem Descends.mem_owners {owner : NodeId} {h : List Event} {gen : Int}
    {table : List RangeInfo} (hd : Descends owner h gen table) : owner ∈ owners table := by
  cases hd with
  | first =>
    rw [owners_buildSlices]
    exact List.mem_singleton.mpr rfl
  | promoted _ howner _ => exact howner
  | resharded _ howner _ => exact howner

/-- While nothing is promoted, only re-shardings have owners after generation 1, and they
keep them. -/
theorem Descends.unpromoted {owner : NodeId} {h : List Event} {gen : Int}
    {table : List RangeInfo} (hd : Descends owner h gen table)
    (hnone : ∀ n g t, Event.promoted n g t ∉ h) :
    gen = 1 ∨ ∃ n g old, Event.resharded n g old table ∈ h ∧ owner ∈ owners old := by
  cases hd with
  | first => exact Or.inl rfl
  | @promoted pre post n _ _ heq _ _ =>
    refine absurd ?_ (hnone n gen table)
    rw [heq]
    exact List.mem_append_right _ List.mem_cons_self
  | @resharded n g old _ hmem _ hold => exact Or.inr ⟨n, g, old, hmem, hold.mem_owners⟩

/-! ## The live tables of a run -/

/-- What the live table of a node or of a sent state rests on. -/
def LiveGround (w : Mesh) : Fact → Prop
  | .live gen table => ∀ owner ∈ owners table, Descends owner w.history gen table
  | _ => True

/-- What a run of careful and shrinking steps keeps. -/
structure LiveTraced (w : Mesh) : Prop where
  traced : Traced w
  live : Runs.Grounded Mesh.Known LiveGround w

theorem liveTraced_start (addr : NodeId → CString) (port : NodeId → Int) (now : Int) :
    LiveTraced (Mesh.start addr port now) where
  traced := traced_start addr port now
  live := by
    rintro φ (⟨x, hx⟩ | ⟨s, hs, -⟩)
    · cases φ with
      | compliant id gen => trivial
      | target gen table => trivial
      | live gen table =>
        obtain ⟨hg, ht⟩ := hx
        have hg : (edbClusterStart x (addr x) (port x) now).generation = gen := hg
        have ht : (edbClusterStart x (addr x) (port x) now).ranges = table := ht
        intro owner howner
        rcases (alone_edbClusterStart x (addr x) (port x) now).live with
          ⟨-, hnil⟩ | ⟨hone, hown, -⟩
        · rw [← ht, hnil] at howner
          cases howner
        · -- its own table, whose only owner it is
          rw [← ht, hown, owners_buildSlices] at howner
          obtain rfl := List.mem_singleton.mp howner
          rw [← hg, hone, ← ht, hown]
          exact .first
    · cases hs

namespace LiveTraced

variable {w w' : Mesh} {l : Label}

/-- A re-sharding that adds no owner keeps rightful owners. -/
theorem reshard (hw : LiveTraced w) {x : NodeId} {cl cl' : Cluster} {φ : Fact}
    (hto : Mesh.Reshards cl cl' φ) (hgen : cl.generation = (w.cluster x).generation)
    (hranges : cl.ranges = (w.cluster x).ranges)
    (hevents : w.events l = Mesh.reshardings x (w.cluster x) cl') (hnew : NoNewOwner cl)
    (hs : w.step l = some w') : LiveGround w' φ := by
  obtain ⟨hreshards, rfl⟩ := hto
  obtain ⟨-, -, -, -, -, hhistory⟩ := Mesh.step_cases hs
  have hevent : Event.resharded x (w.cluster x).generation (w.cluster x).ranges cl'.ranges ∈
      w'.history := by
    rw [hhistory, hevents]
    exact List.mem_append_left _ (Mesh.mem_reshardings x hgen hreshards)
  show ∀ owner ∈ owners cl'.ranges, Descends owner w'.history cl'.generation cl'.ranges
  intro owner howner
  have hold : owner ∈ owners (w.cluster x).ranges := by
    rw [hreshards.ranges, owners_buildSlices] at howner
    rw [← hranges]
    exact hnew hreshards.resized owner howner
  have hdescends : Descends owner w.history (w.cluster x).generation (w.cluster x).ranges :=
    hw.live (.live _ _) (Or.inl ⟨x, rfl, rfl⟩) owner hold
  rw [hreshards.generation, hgen]
  refine .resharded hevent howner ?_
  rw [hhistory]
  exact hdescends.append _

/-- What a step adds is rightly owned. -/
theorem ground_of_adds (hw : LiveTraced w) (hc : w.Careful l) (hk : w.Shrinking l)
    (hs : w.step l = some w') {φ : Fact} (hφ : w.Adds φ l) : LiveGround w' φ := by
  have hself : ∀ x, (w.cluster x).selfId = x := fun x => (w.node x).selfId_eq
  cases l with
  | publish x =>
    obtain ⟨-, rfl⟩ := hφ
    trivial
  | mark x =>
    obtain ⟨-, rfl⟩ := hφ
    trivial
  | commit x gen now =>
    -- all owners complied with the target that is promoted
    obtain ⟨hflag, rfl⟩ := hφ
    obtain ⟨-, -, -, -, -, hhistory⟩ := Mesh.step_cases hs
    have hevents : w.events (.commit x gen now) =
        [.promoted x (w.cluster x).targetGeneration (w.cluster x).targetRanges] := if_pos hflag
    have hgenuine := (hw.traced.step hc hs).trace.genuine
    rw [hevents] at hhistory
    rw [hhistory] at hgenuine
    intro owner howner
    have happ : w'.history = [] ++ .promoted x (w.cluster x).targetGeneration
        (w.cluster x).targetRanges :: w.history := hhistory
    exact .promoted happ howner (hgenuine.1 owner howner)
  | shrink x =>
    refine hw.reshard (x := x) hφ rfl rfl rfl (hk fun hnil => ?_) hs
    -- an empty live table stays as it is
    have hsame : (teardownShrink (w.cluster x)).generation = (w.cluster x).generation := by
      unfold teardownShrink
      dsimp only
      rw [if_pos (Or.inl hnil)]
    have hgen := hφ.1.generation
    omega
  | expire x now =>
    obtain ⟨hleader, hto⟩ := hφ
    refine hw.reshard (x := x) hto rfl rfl rfl (hk hleader ?_) hs
    by_contra hnone
    have hsame : removeExpired now (w.cluster x) = w.cluster x := if_neg fun h => hnone h.2
    have hgen : (removeExpired now (w.cluster x)).generation = (w.cluster x).generation + 1 :=
      hto.1.generation
    rw [hsame] at hgen
    omega
  | remove x id now =>
    obtain ⟨hleader, hto⟩ := hφ
    have hgen : (edbClusterRemoveNode now (w.cluster x) id).1.generation =
      (w.cluster x).generation + 1 := hto.1.generation
    have hfound : ¬ (id = [] ∨ id = (w.cluster x).selfId ∨
        ((w.cluster x).peers.find id).isNone = true) := by
      intro hno
      have hsame : (edbClusterRemoveNode now (w.cluster x) id).1 = w.cluster x := by
        unfold edbClusterRemoveNode
        rw [if_pos hno]
      rw [hsame] at hgen
      omega
    refine hw.reshard (x := x) hto rfl rfl rfl (hk hleader (fun hid => ?_) ?_) hs
    · exact hfound (Or.inr (Or.inl (hid.trans (hself x).symm)))
    · rw [← Option.not_isNone, Bool.not_eq_true']
      by_contra hsome
      exact hfound (Or.inr (Or.inr (by simpa using hsome)))
  | _ => exact hφ.elim

/-- **A careful and shrinking step** keeps all this. -/
theorem step (hw : LiveTraced w) (hc : w.Careful l) (hk : w.Shrinking l)
    (hs : w.step l = some w') : LiveTraced w' := by
  obtain ⟨-, -, -, -, -, hhistory⟩ := Mesh.step_cases hs
  constructor
  · exact hw.traced.step hc hs
  · refine hw.live.of_moves ⟨fun φ hφ => ?_, fun φ hφ => ?_⟩
    · cases φ with
      | compliant id gen => trivial
      | target gen table => trivial
      | live gen table =>
        intro owner howner
        rw [hhistory]
        exact (hφ owner howner).append _
    · rcases Mesh.known_step (fun ψ hψ => hw.traced.fits hψ) hs hφ with hold | hnew
      · exact Or.inl hold
      · exact Or.inr (hw.ground_of_adds hc hk hs hnew)

end LiveTraced

/-- **No live ownership without compliance**, when re-shardings only shrink: every live owner
complied with a target that was promoted, or is the first node of its cluster, and owned every
live table since. -/
theorem liveOwnership_of_shrinking (addr : NodeId → CString) (port : NodeId → Int) (now : Int)
    (ls : List Label) (w : Mesh)
    (hc : Runs.Along Mesh.step (fun w l => w.Careful l ∧ w.Shrinking l)
      (Mesh.start addr port now) ls)
    (hrun : Runs.run Mesh.step (Mesh.start addr port now) ls = some w) : LiveOwnership w := by
  have hw : LiveTraced w :=
    Runs.inv_run (fun _ _ _ hw hl hs => hw.step hl.1 hl.2 hs) (liveTraced_start addr port now)
      hc hrun
  intro x owner howner
  exact hw.live (.live _ _) (Or.inl ⟨x, rfl, rfl⟩) owner howner

/-- Node `b` joins `a`, both comply, `a` promotes, and `b` leaves again. -/
def waveAndDeparture : List Label :=
  firstWave ++ [.drop (cstr "a") (cstr "b"), .shrink (cstr "a")]

theorem waveAndDeparture_liveOwnership :
    ∃ w, Runs.run Mesh.step allAlone waveAndDeparture = some w ∧ LiveOwnership w := by
  obtain ⟨w, hw⟩ := Option.isSome_iff_exists.mp
    (show (Runs.run Mesh.step allAlone waveAndDeparture).isSome = true by decide +kernel)
  exact ⟨w, hw, liveOwnership_of_shrinking _ _ _ waveAndDeparture w (by decide +kernel) hw⟩

/-- Nodes `b` and `c` join `a`, and `c` leaves before any target is published. -/
def earlyDeparture : List Label :=
  meet (cstr "a") (cstr "b") 1 ++ meet (cstr "a") (cstr "c") 2 ++
    [.drop (cstr "a") (cstr "c"), .shrink (cstr "a")]

/-- Node `b` owns half of the live table, and has complied with nothing. -/
theorem departure_promotes_newcomer :
    ∃ w, Runs.run Mesh.step allAlone earlyDeparture = some w ∧ ¬ LiveOwnership w := by
  obtain ⟨w, hw⟩ := Option.isSome_iff_exists.mp
    (show (Runs.run Mesh.step allAlone earlyDeparture).isSome = true by decide +kernel)
  refine ⟨w, hw, fun hlive => ?_⟩
  have hstate : (Runs.run Mesh.step allAlone earlyDeparture).all (fun w =>
      w.history = [.resharded (cstr "a") 1 (buildSlices [cstr "a"])
          (buildSlices [cstr "a", cstr "b"])] ∧
        (w.cluster (cstr "a")).generation = 2 ∧
        (w.cluster (cstr "a")).ranges = buildSlices [cstr "a", cstr "b"]) = true := by
    decide +kernel
  rw [hw] at hstate
  obtain ⟨hhistory, hgen, hranges⟩ := of_decide_eq_true hstate
  have hd := hlive (cstr "a") (cstr "b") (by rw [hranges]; decide +kernel)
  rw [hhistory, hgen] at hd
  rcases hd.unpromoted fun n g t hmem => nomatch List.mem_singleton.mp hmem with
    hone | ⟨n, g, old, hmem, hold⟩
  · exact absurd hone (by decide)
  · obtain ⟨-, -, rfl, -⟩ := Event.resharded.inj (List.mem_singleton.mp hmem)
    exact absurd hold (by decide +kernel)

end EpsilonDB
