import EpsilonDB.Socket.Mesh

/-!
# When a promotion rests on genuine compliance

A compliance report names a generation, not a table. Once a target is voided its number is
used again, and the old reports, which the merge of the members brings back, count for the
new table.

- `MarkedSince`: an owner reported compliance while this very target was pending.
- `GenuinePromotions`: every promotion of a history rests on such reports of all owners.
- `Mesh.Careful`: the steps that do not mix up generations.
- `Trace`, `Traced`: what a careful run keeps, of its history and of its states.
- `genuinePromotions_of_careful`: careful runs promote genuinely.
- `voided_target_counts_again`: a run in which a reused number promotes a table one of its
  owners has never seen.
-/

namespace EpsilonDB

/-- Since the last publication of generation `gen`, `owner` reported compliance with it while
`table` was its pending table. -/
def MarkedSince (owner : NodeId) (gen : Int) (table : List RangeInfo) : List Event → Prop
  | [] => False
  | .published _ g _ :: h => g ≠ gen ∧ MarkedSince owner gen table h
  | .marked o g t :: h => (o = owner ∧ g = gen ∧ t = some table) ∨ MarkedSince owner gen table h
  | .promoted _ _ _ :: h => MarkedSince owner gen table h
  | .resharded _ _ _ _ :: h => MarkedSince owner gen table h

/-- Every promoted table was complied with by all its owners before. -/
def GenuinePromotions : List Event → Prop
  | [] => True
  | .promoted _ gen table :: h =>
    (∀ o ∈ owners table, MarkedSince o gen table h) ∧ GenuinePromotions h
  | .published _ _ _ :: h => GenuinePromotions h
  | .marked _ _ _ :: h => GenuinePromotions h
  | .resharded _ _ _ _ :: h => GenuinePromotions h

instance MarkedSince.decidable (owner : NodeId) (gen : Int) (table : List RangeInfo) :
    ∀ h, Decidable (MarkedSince owner gen table h)
  | [] => isFalse id
  | .published _ g _ :: h =>
    @instDecidableAnd (g ≠ gen) _ inferInstance (MarkedSince.decidable owner gen table h)
  | .marked o g t :: h =>
    @instDecidableOr (o = owner ∧ g = gen ∧ t = some table) _ inferInstance
      (MarkedSince.decidable owner gen table h)
  | .promoted _ _ _ :: h => MarkedSince.decidable owner gen table h
  | .resharded _ _ _ _ :: h => MarkedSince.decidable owner gen table h

instance GenuinePromotions.decidable : ∀ h, Decidable (GenuinePromotions h)
  | [] => isTrue trivial
  | .promoted _ gen table :: h =>
    @instDecidableAnd (∀ o ∈ owners table, MarkedSince o gen table h) _ inferInstance
      (GenuinePromotions.decidable h)
  | .published _ _ _ :: h => GenuinePromotions.decidable h
  | .marked _ _ _ :: h => GenuinePromotions.decidable h
  | .resharded _ _ _ _ :: h => GenuinePromotions.decidable h

namespace Event

/-- The event publishes a target or reports compliance under number `gen`. -/
def uses (gen : Int) : Event → Bool
  | .published _ g _ => g = gen
  | .marked _ g _ => g = gen
  | _ => false

def publishes (gen : Int) : Event → Bool
  | .published _ g _ => g = gen
  | _ => false

def promotes (gen : Int) : Event → Bool
  | .promoted _ g _ => g = gen
  | _ => false

end Event

/-- No owner is credited with a generation above the pending one. -/
def NoneAhead (cl : Cluster) : Prop :=
  ∀ o ∈ owners cl.targetRanges,
    (∀ p ∈ cl.peers.rows, p.id = o → p.compliantGen ≤ cl.targetGeneration) ∧
      ∀ g ∈ cl.settingDone o, g ≤ cl.targetGeneration

/-- The step does not mix up generations. A new target takes an unused number. A node
without a pending target does not report the number of a target that is still to be
promoted. A promotion is decided on reports for the pending generation, and commits the
generation it was decided for. -/
def Mesh.Careful (w : Mesh) : Label → Prop
  | .publish x =>
    (edbClusterPublishTarget (w.cluster x)).2 = true →
      ∀ e ∈ w.history, e.uses (edbClusterPublishTarget (w.cluster x)).1.targetGeneration = false
  | .mark x =>
    (w.cluster x).targetGeneration = 0 →
      (∃ e ∈ w.history, e.publishes (w.cluster x).generation = true) →
        ∃ e ∈ w.history, e.promotes (w.cluster x).generation = true
  | .check x => NoneAhead (w.cluster x)
  | .commit x gen _ =>
    0 < (w.cluster x).targetGeneration → (w.cluster x).targetGeneration = gen
  | _ => True

instance (cl : Cluster) : Decidable (NoneAhead cl) :=
  inferInstanceAs (Decidable (∀ o ∈ owners cl.targetRanges, _ ∧ _))

instance (w : Mesh) (l : Label) : Decidable (w.Careful l) :=
  match l with
  | .publish x => inferInstanceAs (Decidable ((edbClusterPublishTarget (w.cluster x)).2 = true → _))
  | .mark x => inferInstanceAs (Decidable ((w.cluster x).targetGeneration = 0 → _ → _))
  | .check x => inferInstanceAs (Decidable (NoneAhead (w.cluster x)))
  | .commit x _ _ => inferInstanceAs (Decidable (0 < (w.cluster x).targetGeneration → _))
  | .gossip _ | .receive _ _ _ _ | .absorb _ _ _ | .hello _ _ _ | .register _ _ | .drop _ _
  | .shrink _ | .expire _ _ | .remove _ _ _ | .void _ | .catchUp _ _ => isTrue trivial

/-! ## Histories -/

theorem MarkedSince.cons {o : NodeId} {gen : Int} {table : List RangeInfo} {e : Event}
    {h : List Event} (hm : MarkedSince o gen table h) (he : e.publishes gen = false) :
    MarkedSince o gen table (e :: h) := by
  cases e with
  | published n g t => exact ⟨by simpa [Event.publishes] using he, hm⟩
  | marked n g t => exact Or.inr hm
  | promoted n g t => exact hm
  | resharded n g t t' => exact hm

/-- What a careful run keeps of its history. -/
structure Trace (h : List Event) : Prop where
  /-- a number is published once -/
  unique : ∀ n gen t n' t', Event.published n gen t ∈ h → .published n' gen t' ∈ h → t = t'
  /-- a report under a pending table is a report since its publication -/
  marks : ∀ o gen t, Event.marked o gen (some t) ∈ h → MarkedSince o gen t h
  /-- the table was published -/
  pending : ∀ o gen t, Event.marked o gen (some t) ∈ h → ∃ n, .published n gen t ∈ h
  /-- other reports name no target still to be promoted -/
  bare : ∀ o gen n t, Event.marked o gen none ∈ h → .published n gen t ∈ h →
    ∃ n' t', .promoted n' gen t' ∈ h
  /-- a promoted table was published, and complied with by its owners -/
  promoted : ∀ n gen t, Event.promoted n gen t ∈ h →
    (∃ n', .published n' gen t ∈ h) ∧ ∀ o ∈ owners t, MarkedSince o gen t h
  genuine : GenuinePromotions h

theorem Trace.nil : Trace [] :=
  ⟨nofun, nofun, nofun, nofun, nofun, trivial⟩

/-- An unused number is another one than that of an event so far. -/
theorem publishes_of_uses {h : List Event} {e : Event} {n : NodeId} {gen g : Int}
    {table : List RangeInfo} (hfresh : ∀ e ∈ h, e.uses gen = false) (he : e ∈ h)
    (huses : e.uses g = true) : (Event.published n gen table).publishes g = false := by
  have hne : gen ≠ g := by
    rintro rfl
    rw [hfresh e he] at huses
    cases huses
  simpa [Event.publishes] using hne

theorem Trace.publish {h : List Event} (hh : Trace h) (n : NodeId) {gen : Int}
    (table : List RangeInfo) (hfresh : ∀ e ∈ h, e.uses gen = false) :
    Trace (.published n gen table :: h) where
  unique := by
    have hnot : ∀ n' t, Event.published n' gen t ∉ h := fun n' t hmem => by
      simpa [Event.uses] using hfresh _ hmem
    intro n₁ g t₁ n₂ t₂ h₁ h₂
    rcases List.mem_cons.mp h₁ with heq₁ | hmem₁
    · obtain ⟨-, rfl, rfl⟩ := Event.published.inj heq₁
      rcases List.mem_cons.mp h₂ with heq₂ | hmem₂
      · exact (Event.published.inj heq₂).2.2.symm
      · exact absurd hmem₂ (hnot _ _)
    · rcases List.mem_cons.mp h₂ with heq₂ | hmem₂
      · obtain ⟨-, rfl, rfl⟩ := Event.published.inj heq₂
        exact absurd hmem₁ (hnot _ _)
      · exact hh.unique _ _ _ _ _ hmem₁ hmem₂
  marks := by
    intro o g t hm
    have hm : Event.marked o g (some t) ∈ h := by simpa using hm
    exact (hh.marks o g t hm).cons (publishes_of_uses hfresh hm (decide_eq_true rfl))
  pending := by
    intro o g t hm
    obtain ⟨n', hn'⟩ := hh.pending o g t (by simpa using hm)
    exact ⟨n', List.mem_cons_of_mem _ hn'⟩
  bare := by
    intro o g n' t hm hp
    -- the mark used its number, so the new publication is of another
    have hm : Event.marked o g none ∈ h := by simpa using hm
    have hne : g ≠ gen := by simpa [Event.uses] using hfresh _ hm
    rcases List.mem_cons.mp hp with heq | hp
    · exact absurd (Event.published.inj heq).2.1 hne
    · obtain ⟨n'', t'', hprom⟩ := hh.bare o g n' t hm hp
      exact ⟨n'', t'', List.mem_cons_of_mem _ hprom⟩
  promoted := by
    intro n' g t hp
    obtain ⟨⟨m, hm⟩, hmarked⟩ := hh.promoted n' g t (by simpa using hp)
    exact ⟨⟨m, List.mem_cons_of_mem _ hm⟩, fun o ho =>
      (hmarked o ho).cons (publishes_of_uses hfresh hm (decide_eq_true rfl))⟩
  genuine := hh.genuine

theorem Trace.mark {h : List Event} (hh : Trace h) (n : NodeId) {gen : Int}
    {pending : Option (List RangeInfo)}
    (hsome : ∀ t, pending = some t → ∃ m, Event.published m gen t ∈ h)
    (hnone : pending = none → (∃ e ∈ h, e.publishes gen = true) →
      ∃ e ∈ h, e.promotes gen = true) :
    Trace (.marked n gen pending :: h) where
  unique := fun n₁ g t₁ n₂ t₂ h₁ h₂ =>
    hh.unique n₁ g t₁ n₂ t₂ (by simpa using h₁) (by simpa using h₂)
  marks := by
    -- the new mark is the newest of its node, the others were there
    intro o g t hm
    rcases List.mem_cons.mp hm with heq | hm
    · obtain ⟨rfl, rfl, rfl⟩ := Event.marked.inj heq
      exact Or.inl ⟨rfl, rfl, rfl⟩
    · exact (hh.marks o g t hm).cons rfl
  pending := by
    intro o g t hm
    rcases List.mem_cons.mp hm with heq | hm
    · obtain ⟨rfl, rfl, rfl⟩ := Event.marked.inj heq
      obtain ⟨m, hpub⟩ := hsome t rfl
      exact ⟨m, List.mem_cons_of_mem _ hpub⟩
    · obtain ⟨m, hpub⟩ := hh.pending o g t hm
      exact ⟨m, List.mem_cons_of_mem _ hpub⟩
  bare := by
    -- a mark without a table is made where the number is not pending any more
    intro o g m t hm hp
    have hpub : Event.published m g t ∈ h := by simpa using hp
    rcases List.mem_cons.mp hm with heq | hm
    · -- the new mark: its number was published, so by `hnone` it was promoted
      obtain ⟨rfl, rfl, rfl⟩ := Event.marked.inj heq
      obtain ⟨e, he, hpromotes⟩ := hnone rfl ⟨_, hpub, decide_eq_true rfl⟩
      cases e with
      | promoted n' g' t' =>
        have hg : g' = g := by simpa [Event.promotes] using hpromotes
        exact ⟨n', t', List.mem_cons_of_mem _ (hg ▸ he)⟩
      | published _ _ _ => cases hpromotes
      | marked _ _ _ => cases hpromotes
      | resharded _ _ _ _ => cases hpromotes
    · obtain ⟨n', t', hprom⟩ := hh.bare o g m t hm hpub
      exact ⟨n', t', List.mem_cons_of_mem _ hprom⟩
  promoted := by
    intro n' g t hp
    obtain ⟨⟨m, hm⟩, hmarked⟩ := hh.promoted n' g t (by simpa using hp)
    exact ⟨⟨m, List.mem_cons_of_mem _ hm⟩, fun o ho => (hmarked o ho).cons rfl⟩
  genuine := hh.genuine

theorem Trace.promote {h : List Event} (hh : Trace h) (n : NodeId) {gen : Int}
    {table : List RangeInfo} (hpub : ∃ m, Event.published m gen table ∈ h)
    (hmarked : ∀ o ∈ owners table, MarkedSince o gen table h) :
    Trace (.promoted n gen table :: h) where
  unique := fun n₁ g t₁ n₂ t₂ h₁ h₂ =>
    hh.unique n₁ g t₁ n₂ t₂ (by simpa using h₁) (by simpa using h₂)
  marks := fun o g t hm => (hh.marks o g t (by simpa using hm)).cons rfl
  pending := by
    intro o g t hm
    obtain ⟨m, hp⟩ := hh.pending o g t (by simpa using hm)
    exact ⟨m, List.mem_cons_of_mem _ hp⟩
  bare := by
    intro o g m t hm hp
    obtain ⟨n', t', hprom⟩ := hh.bare o g m t (by simpa using hm) (by simpa using hp)
    exact ⟨n', t', List.mem_cons_of_mem _ hprom⟩
  promoted := by
    intro n' g t hp
    rcases List.mem_cons.mp hp with heq | hp
    · obtain ⟨-, rfl, rfl⟩ := Event.promoted.inj heq
      obtain ⟨m, hm⟩ := hpub
      exact ⟨⟨m, List.mem_cons_of_mem _ hm⟩, fun o ho => (hmarked o ho).cons rfl⟩
    · obtain ⟨⟨m, hm⟩, hmarked'⟩ := hh.promoted n' g t hp
      exact ⟨⟨m, List.mem_cons_of_mem _ hm⟩, fun o ho => (hmarked' o ho).cons rfl⟩
  genuine := ⟨hmarked, hh.genuine⟩

theorem Trace.reshard {h : List Event} (hh : Trace h) (n : NodeId) (gen : Int)
    (old new : List RangeInfo) : Trace (.resharded n gen old new :: h) where
  unique := fun n₁ g t₁ n₂ t₂ h₁ h₂ =>
    hh.unique n₁ g t₁ n₂ t₂ (by simpa using h₁) (by simpa using h₂)
  marks := fun o g t hm => (hh.marks o g t (by simpa using hm)).cons rfl
  pending := by
    intro o g t hm
    obtain ⟨m, hp⟩ := hh.pending o g t (by simpa using hm)
    exact ⟨m, List.mem_cons_of_mem _ hp⟩
  bare := by
    intro o g m t hm hp
    obtain ⟨n', t', hprom⟩ := hh.bare o g m t (by simpa using hm) (by simpa using hp)
    exact ⟨n', t', List.mem_cons_of_mem _ hprom⟩
  promoted := by
    intro n' g t hp
    obtain ⟨⟨m, hm⟩, hmarked⟩ := hh.promoted n' g t (by simpa using hp)
    exact ⟨⟨m, List.mem_cons_of_mem _ hm⟩, fun o ho => (hmarked o ho).cons rfl⟩
  genuine := hh.genuine

/-! ## States -/

/-- What a fact rests on: it fits, a report was made, a target was published. -/
def Ground (h : List Event) (φ : Fact) : Prop :=
  φ.Fits ∧
    match φ with
    | .compliant id gen => ∃ t, .marked id gen t ∈ h
    | .target gen table => ∃ n, .published n gen table ∈ h
    | .live _ _ => True

theorem Ground.append {h : List Event} {φ : Fact} (hφ : Ground h φ) (es : List Event) :
    Ground (es ++ h) φ := by
  refine ⟨hφ.1, ?_⟩
  cases φ with
  | live gen table => trivial
  | compliant id gen =>
    obtain ⟨t, ht⟩ := hφ.2
    exact ⟨t, List.mem_append_right _ ht⟩
  | target gen table =>
    obtain ⟨n, hn⟩ := hφ.2
    exact ⟨n, List.mem_append_right _ hn⟩

/-- What a careful run keeps. -/
structure Traced (w : Mesh) : Prop where
  trace : Trace w.history
  grounded : Runs.Grounded Mesh.Known (fun w : Mesh => Ground w.history) w
  /-- a promotion is decided when the owners have complied with the table of its number -/
  decided : ∀ t ∈ w.decided, ∃ n table, Event.published n t.2 table ∈ w.history ∧
    ∀ o ∈ owners table, MarkedSince o t.2 table w.history

theorem edbClusterStart_knows {x : NodeId} {addr : CString} {port now : Int} {φ : Fact}
    (h : (edbClusterStart x addr port now).knows φ) :
    ∃ gen table, φ = .live gen table ∧ φ.Fits := by
  have halone := alone_edbClusterStart x addr port now
  cases φ with
  | compliant id gen =>
    rcases h with ⟨p, hp, -, hpos, hgen⟩ | hset
    · have hzero := halone.unmarked p hp
      omega
    · rw [halone.unset id] at hset
      cases hset
  | target gen table =>
    obtain ⟨hpos, hgen, -⟩ := h
    have hzero := halone.target
    omega
  | live gen table =>
    refine ⟨gen, table, rfl, ?_⟩
    obtain ⟨-, rfl⟩ := h
    rcases halone.live with ⟨-, hnone⟩ | ⟨-, hown, hlength⟩
    · rw [hnone]
      exact ⟨nofun, Nat.zero_le _⟩
    · rw [hown]
      refine ⟨fits_buildSlices fun id hid => ?_, ?_⟩
      · rw [List.mem_singleton.mp hid]
        exact hlength
      · rw [length_buildSlices, List.length_singleton]
        decide

theorem traced_start (addr : NodeId → CString) (port : NodeId → Int) (now : Int) :
    Traced (Mesh.start addr port now) where
  trace := Trace.nil
  grounded := by
    intro φ hφ
    rcases hφ with ⟨x, hx⟩ | ⟨s, hs, -⟩
    · obtain ⟨gen, table, rfl, hfits⟩ := edbClusterStart_knows hx
      exact ⟨hfits, trivial⟩
    · cases hs
  decided := nofun

namespace Traced

variable {w w' : Mesh} {l : Label}

theorem fits (hw : Traced w) {φ : Fact} (hφ : w.Known φ) : φ.Fits := (hw.grounded φ hφ).1

/-- The pending target of a node was published. -/
theorem published_pending (hw : Traced w) {x : NodeId} (hpos : 0 < (w.cluster x).targetGeneration) :
    ∃ n, Event.published n (w.cluster x).targetGeneration (w.cluster x).targetRanges ∈ w.history :=
  (hw.grounded (.target _ _) (Or.inl ⟨x, hpos, rfl, rfl⟩)).2

/-- What a step adds is grounded. -/
theorem ground_of_adds (hw : Traced w) {φ : Fact} (hφ : w.Adds φ l) :
    Ground (w.events l ++ w.history) φ := by
  refine ⟨Mesh.fits_of_adds (fun ψ hψ => hw.fits hψ) hφ, ?_⟩
  cases l with
  | publish x =>
    obtain ⟨hflag, rfl⟩ := hφ
    have hevents : w.events (.publish x) = [.published x
        (edbClusterPublishTarget (w.cluster x)).1.targetGeneration
        (edbClusterPublishTarget (w.cluster x)).1.targetRanges] := if_pos hflag
    refine ⟨x, ?_⟩
    rw [hevents, edbClusterPublishTarget_published hflag]
    exact List.mem_cons_self
  | mark x =>
    obtain ⟨hgen, rfl⟩ := hφ
    have hevents : w.events (.mark x) = [.marked x (markGeneration (w.cluster x))
        (Mesh.pendingTable (w.cluster x))] := if_neg hgen
    refine ⟨Mesh.pendingTable (w.cluster x), ?_⟩
    rw [hevents]
    exact List.mem_cons_self
  -- the others add live tables, which rest on nothing more
  | commit x gen now =>
    obtain ⟨-, rfl⟩ := hφ
    trivial
  | shrink x =>
    obtain ⟨-, rfl⟩ := hφ
    trivial
  | expire x now =>
    obtain ⟨-, -, rfl⟩ := hφ
    trivial
  | remove x id now =>
    obtain ⟨-, -, rfl⟩ := hφ
    trivial
  | _ => exact hφ.elim

/-- A decided or promoted table stays complied with. -/
theorem markedSince_step (hc : w.Careful l) {n o : NodeId} {gen : Int} {table : List RangeInfo}
    (hpub : Event.published n gen table ∈ w.history) (hm : MarkedSince o gen table w.history) :
    MarkedSince o gen table (w.events l ++ w.history) := by
  have hrecords := w.records_events l
  generalize w.events l = es at hrecords
  cases hrecords with
  | none => exact hm
  | published hnew => exact hm.cons (publishes_of_uses (hc hnew) hpub (decide_eq_true rfl))
  | marked _ => exact hm.cons rfl
  | promoted _ => exact hm.cons rfl
  | resharded => exact hm.cons rfl

/-- The owners of a target that counts as compliant complied with it. -/
theorem complied_of_check (hw : Traced w) {x : NodeId} (hnone : NoneAhead (w.cluster x))
    (hcheck : edbClusterTargetCompliant (w.cluster x) = true) :
    ∃ n, Event.published n (w.cluster x).targetGeneration (w.cluster x).targetRanges ∈ w.history ∧
      ∀ o ∈ owners (w.cluster x).targetRanges,
        MarkedSince o (w.cluster x).targetGeneration (w.cluster x).targetRanges w.history := by
  unfold edbClusterTargetCompliant at hcheck
  rw [Bool.and_eq_true, Bool.and_eq_true, decide_eq_true_eq, List.all_eq_true] at hcheck
  obtain ⟨⟨hpos, -⟩, hall⟩ := hcheck
  obtain ⟨n, hn⟩ := hw.published_pending hpos
  have hfits := hw.fits (φ := .target _ _) (Or.inl ⟨x, hpos, rfl, rfl⟩)
  refine ⟨n, hn, fun o ho => ?_⟩
  have hreported := hall o (mem_requiredOwners hfits.2 ho)
  obtain ⟨hrows, hdone⟩ := hnone o ho
  -- the report is for the pending generation exactly
  have hknown : w.Known (.compliant o (w.cluster x).targetGeneration) := by
    unfold reportedCompliant at hreported
    rw [Bool.or_eq_true, List.any_eq_true, Option.any_eq_true] at hreported
    rcases hreported with ⟨p, hp, hgen⟩ | ⟨g, hg, hle⟩
    · rw [Bool.and_eq_true, decide_eq_true_eq, decide_eq_true_eq] at hgen
      obtain ⟨hid, hle⟩ := hgen
      have hmem : p ∈ (w.cluster x).peers.rows := List.mem_of_mem_take hp
      have heq := le_antisymm (hrows p hmem hid) hle
      exact Or.inl ⟨x, Or.inl ⟨p, hmem, hid, heq ▸ hpos, heq⟩⟩
    · have heq := le_antisymm (hdone g hg) (of_decide_eq_true hle)
      exact Or.inl ⟨x, Or.inr (heq ▸ hg)⟩
  obtain ⟨-, pending, hmarked⟩ := hw.grounded _ hknown
  cases pending with
  | some t =>
    obtain ⟨m, hm⟩ := hw.trace.pending _ _ _ hmarked
    rw [← hw.trace.unique _ _ _ _ _ hm hn]
    exact hw.trace.marks _ _ _ hmarked
  | none =>
    -- the number was promoted before, so its owners complied then
    obtain ⟨m, t, hm⟩ := hw.trace.bare _ _ _ _ hmarked hn
    obtain ⟨⟨m', hm'⟩, hcomplied⟩ := hw.trace.promoted _ _ _ hm
    have ht := hw.trace.unique _ _ _ _ _ hm' hn
    subst ht
    exact hcomplied o ho

/-- A report under a pending table names a published target. -/
theorem published_of_pendingTable (hw : Traced w) {x : NodeId} {t : List RangeInfo}
    (ht : Mesh.pendingTable (w.cluster x) = some t) :
    ∃ n, Event.published n (markGeneration (w.cluster x)) t ∈ w.history := by
  unfold Mesh.pendingTable at ht
  split at ht
  · cases ht
  · rename_i hpending
    obtain rfl := Option.some.inj ht
    have hpos := lt_of_le_of_ne (w.node x).gens.target (Ne.symm hpending)
    have hgen : markGeneration (w.cluster x) = (w.cluster x).targetGeneration := if_neg hpending
    rw [hgen]
    exact hw.published_pending hpos

/-- A report without a pending table names a promoted target, or none. -/
theorem promoted_of_pendingTable {x : NodeId} (hc : w.Careful (.mark x))
    (hnone : Mesh.pendingTable (w.cluster x) = none)
    (hpub : ∃ e ∈ w.history, e.publishes (markGeneration (w.cluster x)) = true) :
    ∃ e ∈ w.history, e.promotes (markGeneration (w.cluster x)) = true := by
  unfold Mesh.pendingTable at hnone
  split at hnone
  · rename_i hzero
    have hgen : markGeneration (w.cluster x) = (w.cluster x).generation := if_pos hzero
    rw [hgen] at hpub ⊢
    exact hc hzero hpub
  · cases hnone

/-- The owners complied with a target that is promoted. -/
theorem complied_of_commit (hw : Traced w) {x : NodeId} {gen now : Int}
    (hc : w.Careful (.commit x gen now)) (hs : w.step (.commit x gen now) = some w')
    (hflag : (promoteCommit now (w.cluster x)).2 = true) :
    (∃ n, Event.published n (w.cluster x).targetGeneration (w.cluster x).targetRanges ∈
      w.history) ∧
      ∀ o ∈ owners (w.cluster x).targetRanges,
        MarkedSince o (w.cluster x).targetGeneration (w.cluster x).targetRanges w.history := by
  have hpos := pending_of_promoteCommit hflag
  obtain ⟨y, op, hmove, -⟩ := Mesh.step_cases hs
  have hmem : (x, gen) ∈ w.decided := (Option.ite_none_right_eq_some.mp hmove).1
  obtain ⟨n, table, hn, hmarked⟩ := hw.decided _ hmem
  obtain ⟨m, hm⟩ := hw.published_pending hpos
  have hgen := hc hpos
  -- the table that was decided is the pending one, as they share their number
  rw [hgen] at hm ⊢
  have ht := hw.trace.unique _ _ _ _ _ hn hm
  subst ht
  exact ⟨⟨m, hm⟩, hmarked⟩

theorem trace_step (hw : Traced w) (hc : w.Careful l) (hs : w.step l = some w') :
    Trace (w.events l ++ w.history) := by
  have hrecords := w.records_events l
  generalize w.events l = es at hrecords
  cases hrecords with
  | none => exact hw.trace
  | published hnew => exact hw.trace.publish _ _ (hc hnew)
  | marked _ =>
    exact hw.trace.mark _ (fun t ht => hw.published_of_pendingTable ht)
      (promoted_of_pendingTable hc)
  | promoted hflag =>
    obtain ⟨hpub, hmarked⟩ := hw.complied_of_commit hc hs hflag
    exact hw.trace.promote _ hpub hmarked
  | resharded => exact hw.trace.reshard _ _ _ _

/-- **A careful step** keeps all this. -/
theorem step (hw : Traced w) (hc : w.Careful l) (hs : w.step l = some w') : Traced w' := by
  obtain ⟨-, -, -, -, -, hhistory⟩ := Mesh.step_cases hs
  refine ⟨?_, ?_, fun t ht => ?_⟩
  · rw [hhistory]
    exact hw.trace_step hc hs
  · refine hw.grounded.of_moves ⟨fun φ hφ => ?_, fun φ hφ => ?_⟩
    · show Ground w'.history φ
      rw [hhistory]
      exact Ground.append hφ _
    · rcases Mesh.known_step (fun ψ hψ => hw.fits hψ) hs hφ with hold | hnew
      · exact Or.inl hold
      · right
        show Ground w'.history φ
        rw [hhistory]
        exact hw.ground_of_adds hnew
  · rw [hhistory]
    have hdecided : ∃ n table, Event.published n t.2 table ∈ w.history ∧
        ∀ o ∈ owners table, MarkedSince o t.2 table w.history := by
      rcases Mesh.mem_decided_step hs ht with ht | ⟨x, rfl, hcheck, rfl⟩
      · exact hw.decided t ht
      · obtain ⟨n, hn, hmarked⟩ := hw.complied_of_check hc hcheck
        exact ⟨n, _, hn, hmarked⟩
    obtain ⟨n, table, hn, hmarked⟩ := hdecided
    exact ⟨n, table, List.mem_append_right _ hn, fun o ho =>
      markedSince_step hc hn (hmarked o ho)⟩

end Traced

/-- What a run of careful steps leaves. -/
theorem traced_run {addr : NodeId → CString} {port : NodeId → Int} {now : Int} {ls : List Label}
    {w : Mesh} (hc : Runs.Along Mesh.step Mesh.Careful (Mesh.start addr port now) ls)
    (hrun : Runs.run Mesh.step (Mesh.start addr port now) ls = some w) : Traced w :=
  Runs.inv_run (fun _ _ _ hw hl hs => hw.step hl hs) (traced_start addr port now) hc hrun

/-- **Careful runs promote genuinely**: whatever the order of the steps, every promoted table
was complied with by all its owners while it was pending. -/
theorem genuinePromotions_of_careful (addr : NodeId → CString) (port : NodeId → Int) (now : Int)
    (ls : List Label) (w : Mesh)
    (hc : Runs.Along Mesh.step Mesh.Careful (Mesh.start addr port now) ls)
    (hrun : Runs.run Mesh.step (Mesh.start addr port now) ls = some w) :
    GenuinePromotions w.history :=
  (traced_run hc hrun).trace.genuine

/-! ## Runs of a few nodes -/

/-- The HELLO of a node on host `h`. -/
def greeting (id : NodeId) : HelloDoc := ⟨some id, some (cstr "h"), some 7000, none, false⟩

/-- Two nodes connect. -/
def meet (x y : NodeId) (now : Int) : List Label :=
  [.hello x (greeting y) now, .register x y, .hello y (greeting x) now, .register y x]

/-- Every node on host `h`, at second 0. -/
def allAlone : Mesh := Mesh.start (fun _ => cstr "h") (fun _ => 7000) 0

/-- Node `b` joins `a`, both comply, and `a` promotes. -/
def firstWave : List Label :=
  meet (cstr "a") (cstr "b") 1 ++
    [.publish (cstr "a"), .gossip (cstr "a"), .receive (cstr "b") (cstr "a") 0 2,
      .mark (cstr "b"), .gossip (cstr "b"), .mark (cstr "a"), .receive (cstr "a") (cstr "b") 0 3,
      .check (cstr "a"), .commit (cstr "a") 2 4]

theorem firstWave_genuine :
    ∃ w, Runs.run Mesh.step allAlone firstWave = some w ∧ GenuinePromotions w.history := by
  obtain ⟨w, hw⟩ := Option.isSome_iff_exists.mp
    (show (Runs.run Mesh.step allAlone firstWave).isSome = true by decide +kernel)
  exact ⟨w, hw, genuinePromotions_of_careful _ _ _ firstWave w (by decide +kernel) hw⟩

/-- Node `b` complies with the target over `a` and `b`, which `a` voids. When `c` has joined,
the target over all three takes the same number, and the report of `b` arrives. -/
def reusedNumber : List Label :=
  meet (cstr "a") (cstr "b") 1 ++
    [.publish (cstr "a"), .gossip (cstr "a"), .receive (cstr "b") (cstr "a") 0 2,
      .mark (cstr "b"), .gossip (cstr "b"), .void (cstr "a")] ++
    meet (cstr "a") (cstr "c") 3 ++
    [.publish (cstr "a"), .receive (cstr "a") (cstr "b") 0 4, .gossip (cstr "a"),
      .receive (cstr "c") (cstr "a") 0 5, .mark (cstr "c"), .gossip (cstr "c"),
      .receive (cstr "a") (cstr "c") 0 6, .mark (cstr "a"), .check (cstr "a"),
      .commit (cstr "a") 2 7]

/-- The table over `a`, `b` and `c` is promoted, although `b` has never seen it. -/
theorem voided_target_counts_again :
    ∃ w, Runs.run Mesh.step allAlone reusedNumber = some w ∧ ¬ GenuinePromotions w.history := by
  obtain ⟨w, hw⟩ := Option.isSome_iff_exists.mp
    (show (Runs.run Mesh.step allAlone reusedNumber).isSome = true by decide +kernel)
  refine ⟨w, hw, ?_⟩
  have hno : (Runs.run Mesh.step allAlone reusedNumber).all
      (fun w => !decide (GenuinePromotions w.history)) = true := by decide +kernel
  rw [hw] at hno
  simpa using hno

end EpsilonDB
