import EpsilonDB.Lib.Selection
import EpsilonDB.Socket.ReadForms

/-!
# When a filter may be pushed down to the replicas

A filtered query sends its filters along, so each replica drops the documents that fail
them before the copies are counted. A newer copy that fails the filters is then missing
from the count it would have led or reset.

- `PushDownCommutes`: a filtered query returns the rows of the plain query that satisfy the
  filter.
- `objectCopies_filtered`: pushing the filter down selects among the copies.
- `FilterSettled`: the copies of each matching document are undisturbed by what the filter
  drops (`RunningBest.Undisturbed`).
- `pushDownCommutes_iff`: the push-down commutes exactly then.
-/

namespace EpsilonDB

variable {V F : Type} [DecidableEq F] (docs : Documents V F)

/-- A filtered query returns the rows of the plain query that satisfy the filter. -/
def PushDownCommutes (a : Answering) (sat : V → Bool) : Prop :=
  ∀ rs : ReadSet, rs.Of a → ∀ id v,
    (id, v) ∈ readPairs docs rs (some sat) ↔ (id, v) ∈ readPairs docs rs none ∧ sat v = true

/-- The fingerprint, an md5 of the printed document, tells the copies of a record apart. -/
def DistinctPrints (a : Answering) : Prop :=
  ∀ id, ∀ r ∈ objectCopies docs none id a.copies, ∀ s ∈ objectCopies docs none id a.copies,
    docs.kind r = docs.kind s → r.value = s.value

/-- The vote passes the filter. -/
def Vote.passes (sat : V → Bool) (r : Vote V) : Bool := sat r.value

/-- Every matching document that a quorum of copies holds is undisturbed by the copies the
filter drops: a newer matching document outdates all its copies anyway, or a quorum of its
copies is newer than every dropped copy. -/
def FilterSettled (a : Answering) (sat : V → Bool) : Prop :=
  ∀ id, ∀ r ∈ objectCopies docs none id a.copies, r.passes sat = true →
    a.required ≤
      (RunningBest.copies docs.kind (docs.kind r) (objectCopies docs none id a.copies)).length →
    RunningBest.Undisturbed docs.kind Vote.ts (Vote.passes sat) a.required (docs.kind r)
      (objectCopies docs none id a.copies)

section

variable {docs} {a : Answering} {rs : ReadSet} {id : CString} {sat : V → Bool}

omit [DecidableEq F] in
theorem objectCopies_filtered (copies : List Replica) :
    objectCopies docs (some sat) id copies =
      (objectCopies docs none id copies).filter (Vote.passes sat) := by
  unfold objectCopies
  rw [List.filter_filterMap]
  refine List.filterMap_congr fun x _ => ?_
  unfold objectCopy
  cases x.object docs id with
  | none => rfl
  | some d => cases hsat : sat d.1 <;> simp [Vote.passes, hsat, Option.filter_some]

/-- The value of a copy is the outcome iff its kind is accepted. -/
theorem outcome_eq_value_iff {required : Nat} {l l' : List (Vote V)} {r : Vote V} (hr : r ∈ l)
    (hl' : ∀ x ∈ l', x ∈ l)
    (hprints : ∀ x ∈ l, ∀ y ∈ l, docs.kind x = docs.kind y → x.value = y.value) :
    (RunningBest.outcome docs.kind Vote.ts required l').map Vote.value = some r.value ↔
      RunningBest.Accepts docs.kind Vote.ts required (docs.kind r) l' := by
  cases hrun : RunningBest.run docs.kind Vote.ts l' with
  | none =>
    rw [RunningBest.outcome, hrun]
    refine iff_of_false (fun h => by cases h) ?_
    rintro ⟨b, n, hb, -, -⟩
    rw [hrun] at hb
    cases hb
  | some s =>
    obtain ⟨b, n⟩ := s
    have hb : b ∈ l := hl' b (RunningBest.run_newest hrun).1
    rw [RunningBest.outcome_of_run hrun, RunningBest.accepts_iff hrun]
    constructor
    · intro h
      split at h
      · rename_i hle
        exact ⟨congrArg docs.fingerprint (Option.some.inj h), hle⟩
      · cases h
    · rintro ⟨hkind, hle⟩
      rw [if_pos hle, Option.map_some, hprints b hb r hr hkind]

/-- The outcome is the value of some copy. -/
theorem exists_of_outcome {required : Nat} {l : List (Vote V)} {v : V}
    (h : (RunningBest.outcome docs.kind Vote.ts required l).map Vote.value = some v) :
    ∃ r ∈ l, r.value = v := by
  obtain ⟨b, hb, rfl⟩ := Option.map_eq_some_iff.mp h
  cases hrun : RunningBest.run docs.kind Vote.ts l with
  | none =>
    rw [RunningBest.outcome, hrun] at hb
    cases hb
  | some s =>
    obtain ⟨b', n⟩ := s
    rw [RunningBest.outcome_of_run hrun] at hb
    split at hb
    · rw [← Option.some.inj hb]
      exact ⟨b', (RunningBest.run_newest hrun).1, rfl⟩
    · cases hb

omit [DecidableEq F] in
/-- The filter keeps or drops the copies of a document together. -/
theorem keepsKinds_passes (hprints : DistinctPrints docs a) (id : CString) :
    RunningBest.KeepsKinds docs.kind (Vote.passes sat) (objectCopies docs none id a.copies) := by
  intro x hx y hy hkind
  unfold Vote.passes
  rw [hprints id x hx y hy hkind]

/-- The push-down, record by record and order by order: both scans accept the same matching
documents. -/
theorem pushDownCommutes_iff_accepts (hshort : a.ShortIds) (hprints : DistinctPrints docs a) :
    PushDownCommutes docs a sat ↔
      ∀ id, ∀ l' : List (Vote V), l'.Perm (objectCopies docs none id a.copies) →
        ∀ r ∈ objectCopies docs none id a.copies, r.passes sat = true →
          (RunningBest.Accepts docs.kind Vote.ts a.required (docs.kind r)
              (l'.filter (Vote.passes sat)) ↔
            RunningBest.Accepts docs.kind Vote.ts a.required (docs.kind r) l') := by
  constructor
  · intro h id l' hl' r hr hsat
    obtain ⟨copies, hp, hcopies⟩ := exists_perm_filterMap _ a.copies l' hl'
    obtain ⟨rs, hrs, rfl⟩ := exists_readSet a hp
    have hl : objectCopies docs none id rs.copies = l' := hcopies
    have hpair := h rs hrs id r.value
    rw [mem_readPairs_iff hrs hshort, mem_readPairs_iff hrs hshort, objectCopies_filtered, hl]
      at hpair
    rw [← outcome_eq_value_iff hr (fun x hx => hl'.mem_iff.mp (List.mem_of_mem_filter hx))
      (hprints id), ← outcome_eq_value_iff hr (fun x hx => hl'.mem_iff.mp hx) (hprints id)]
    exact hpair.trans (and_iff_left hsat)
  · intro h rs hrs id v
    have hl' : (objectCopies docs none id rs.copies).Perm (objectCopies docs none id a.copies) :=
      objectCopies_perm hrs.copies
    rw [mem_readPairs_iff hrs hshort, mem_readPairs_iff hrs hshort, objectCopies_filtered]
    -- both sides name a document of a matching copy
    have hvalue : ∀ r ∈ objectCopies docs none id a.copies, r.passes sat = true →
        ((RunningBest.outcome docs.kind Vote.ts a.required
            ((objectCopies docs none id rs.copies).filter (Vote.passes sat))).map Vote.value =
            some r.value ↔
          (RunningBest.outcome docs.kind Vote.ts a.required
            (objectCopies docs none id rs.copies)).map Vote.value = some r.value) := by
      intro r hr hsat
      rw [outcome_eq_value_iff hr (fun x hx => hl'.mem_iff.mp (List.mem_of_mem_filter hx))
        (hprints id), outcome_eq_value_iff hr (fun x hx => hl'.mem_iff.mp hx) (hprints id)]
      exact h id _ hl' r hr hsat
    constructor
    · intro hfiltered
      obtain ⟨r, hr, rfl⟩ := exists_of_outcome hfiltered
      obtain ⟨hr, hsat⟩ := List.mem_filter.mp hr
      exact ⟨(hvalue r (hl'.mem_iff.mp hr) hsat).mp hfiltered, hsat⟩
    · rintro ⟨hplain, hsat⟩
      obtain ⟨r, hr, rfl⟩ := exists_of_outcome hplain
      exact (hvalue r (hl'.mem_iff.mp hr) hsat).mpr hplain

end

/-- **The push-down of a filter commutes with the merge, exactly.** -/
theorem pushDownCommutes_iff (a : Answering) (sat : V → Bool) (hshort : a.ShortIds)
    (hprints : DistinctPrints docs a) :
    PushDownCommutes docs a sat ↔ FilterSettled docs a sat := by
  rw [pushDownCommutes_iff_accepts hshort hprints]
  unfold FilterSettled
  exact forall_congr' fun id =>
    RunningBest.select_commutes_iff (required_pos a) (keepsKinds_passes hprints id)

/-- The filter `n = 2`. -/
def nIsTwo (v : CString) : Bool := decide (v = textObject 2)

/-- The two older copies of `oneAhead` pass the filter and are returned, although the plain
query returns nothing. -/
theorem dropped_copy_reveals_stale : ¬ PushDownCommutes textDocuments oneAhead nIsTwo := by
  intro h
  have hpair := h
    ⟨3, some (recordCopy 6 1), [recordCopy 5 2, recordCopy 5 2], by decide, by decide⟩
    ⟨rfl, List.Perm.refl _⟩ (cstr "r") (textObject 2)
  exact absurd (hpair.mp (by decide)).1 (by decide)

theorem distinctPrints_textDocuments (a : Answering) : DistinctPrints textDocuments a :=
  fun _ _ _ _ _ hkind => hkind

theorem pushDownCommutes_iff_oneAhead :
    oneAhead.ShortIds ∧ DistinctPrints textDocuments oneAhead ∧
      (PushDownCommutes textDocuments oneAhead nIsTwo ↔
        FilterSettled textDocuments oneAhead nIsTwo) :=
  ⟨shortIds_oneAhead, distinctPrints_textDocuments oneAhead,
    pushDownCommutes_iff _ oneAhead nIsTwo shortIds_oneAhead
      (distinctPrints_textDocuments oneAhead)⟩

end EpsilonDB
