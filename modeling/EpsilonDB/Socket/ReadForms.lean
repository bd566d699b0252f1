import EpsilonDB.Socket.ReadCopies

/-!
# When the three reads of a keyspace agree

The ids count the copies that list a record, whatever they hold. A query counts the copies
that agree while their value leads. A get counts the votes for each value, with no regard
for timestamps. The three decide alike only where these counts coincide.

- `FormsAgree`: in every read that some copies answer, the ids, the query and the get say
  the same of every record.
- `QuorumValue`: a value that a quorum of copies holds, newer than all that differs.
- `FormsSettled`: each record is listed by fewer copies than a quorum, or has such a value.
- `formsAgree_iff`: the forms agree exactly on settled copies.
-/

namespace EpsilonDB

variable {V F : Type} [DecidableEq F] (docs : Documents V F)

/-- The ids, the query without a filter and the get agree on every record. -/
def FormsAgree (a : Answering) : Prop :=
  ∀ rs : ReadSet, rs.Of a → ∀ id,
    (id ∈ readIds docs rs none ↔ (readGet docs rs id).isSome = true) ∧
      ∀ v, (id, v) ∈ readPairs docs rs none ↔ readGet docs rs id = some v

/-- A quorum of copies holds `v`, each newer than every copy with another fingerprint, and
only `v` has its fingerprint. -/
def QuorumValue (a : Answering) (id : CString) (v : V) : Prop :=
  a.required ≤ (RunningBest.fresh docs.kind Vote.ts (docs.fingerprint v)
      (objectCopies docs none id a.copies)).length ∧
    ∀ r ∈ objectCopies docs none id a.copies,
      docs.kind r = docs.fingerprint v → r.value = v

/-- Each record is listed by too few copies, or has a quorum value. -/
def FormsSettled (a : Answering) : Prop :=
  ∀ id, (listing docs none id a.copies).length < a.required ∨ ∃ v, QuorumValue docs a id v

section

variable {docs} {id : CString}

/-! ## Ballots and copies -/

omit [DecidableEq F] in
theorem objectCopies_none (copies : List Replica) :
    objectCopies docs none id copies =
      (copies.filterMap (Replica.object docs · id)).map fun d => ⟨id, d.2, d.1⟩ := by
  rw [objectCopies, List.map_filterMap]
  refine List.filterMap_congr fun x _ => ?_
  rw [objectCopy]
  cases x.object docs id <;> rfl

omit [DecidableEq F] in
theorem get_of_object {x : Replica} {d : V × Int} (h : x.object docs id = some d) :
    x.get docs id = some d ∧ docs.isObject d.1 = true := by
  rw [Replica.object, Option.filter_eq_some_iff] at h
  exact h

omit [DecidableEq F] in
/-- A copy with a document lists its record. -/
theorem mem_ids_of_get {x : Replica} {d : V × Int} (h : x.get docs id = some d) :
    id ∈ x.ids docs none := by
  rw [Replica.get, edbShardGetTs] at h
  rw [Replica.ids, mem_edbShardIds]
  cases hl : x.shard.lookup id with
  | none =>
    rw [hl] at h
    cases h
  | some r =>
    refine ⟨r, rfl, ?_⟩
    cases hlive : r.live x.now
    · simp [hl, hlive] at h
    · rfl

omit [DecidableEq F] in
variable (docs id) in
/-- Only copies that list a record cast a ballot for it. -/
theorem length_ballots_le (rs : ReadSet) :
    (rs.ballots docs id).length ≤ (listing docs none id rs.copies).length := by
  have hremotes : (rs.remotes.filterMap (Replica.object docs · id)).length ≤
      (listing docs none id rs.remotes).length := by
    rw [List.length_filterMap_eq_countP, listing, ← List.countP_eq_length_filter]
    refine List.countP_mono_left fun x _ hx => ?_
    obtain ⟨d, hd⟩ := Option.isSome_iff_exists.mp hx
    exact decide_eq_true (mem_ids_of_get (get_of_object hd).1)
  have hown : (rs.own.bind (Replica.get docs · id)).toList.length ≤
      (listing docs none id rs.own.toList).length := by
    cases rs.own with
    | none => exact le_rfl
    | some x =>
      show (x.get docs id).toList.length ≤ (listing docs none id [x]).length
      cases hx : x.get docs id with
      | none => exact Nat.zero_le _
      | some d =>
        rw [listing, List.filter_cons, if_pos (decide_eq_true (mem_ids_of_get hx))]
        exact le_rfl
  have hsplit : listing docs none id rs.copies =
      listing docs none id rs.own.toList ++ listing docs none id rs.remotes :=
    List.filter_append ..
  rw [ReadSet.ballots, List.length_append, hsplit, List.length_append]
  omega

omit [DecidableEq F] in
theorem filterMap_own (own : Option Replica) :
    own.toList.filterMap (Replica.object docs · id) =
      (own.bind (Replica.object docs · id)).toList := by
  cases own with
  | none => rfl
  | some x =>
    show [x].filterMap (Replica.object docs · id) = (x.object docs id).toList
    cases hx : x.object docs id <;> simp [hx]

theorem length_copies_eq (f : F) (copies : List Replica) :
    (RunningBest.copies docs.kind f (objectCopies docs none id copies)).length =
      (ballotsFor docs f (copies.filterMap (Replica.object docs · id))).length := by
  rw [objectCopies_none, RunningBest.copies, List.filter_map, List.length_map]
  rfl

variable (docs id) in
/-- Every object copy casts a ballot. -/
theorem length_copies_le_ballots (rs : ReadSet) (f : F) :
    (RunningBest.copies docs.kind f (objectCopies docs none id rs.copies)).length ≤
      (ballotsFor docs f (rs.ballots docs id)).length := by
  have hown : (ballotsFor docs f (rs.own.toList.filterMap (Replica.object docs · id))).length ≤
      (ballotsFor docs f (rs.own.bind (Replica.get docs · id)).toList).length := by
    rw [filterMap_own]
    cases rs.own with
    | none => exact le_rfl
    | some x =>
      show (ballotsFor docs f (x.object docs id).toList).length ≤
        (ballotsFor docs f (x.get docs id).toList).length
      cases hx : x.object docs id with
      | none => exact Nat.zero_le _
      | some d =>
        rw [(get_of_object hx).1]
  rw [length_copies_eq, ReadSet.copies, List.filterMap_append, ReadSet.ballots]
  unfold ballotsFor at hown ⊢
  rw [List.filter_append, List.filter_append, List.length_append, List.length_append]
  omega

omit [DecidableEq F] in
theorem mem_objectCopies {copies : List Replica} {x : Replica} {d : V × Int} (hx : x ∈ copies)
    (hd : x.object docs id = some d) :
    (⟨id, d.2, d.1⟩ : Vote V) ∈ objectCopies docs none id copies := by
  rw [objectCopies_none]
  exact List.mem_map.mpr ⟨d, List.mem_filterMap.mpr ⟨x, hx, hd⟩, rfl⟩

/-- The first ballot for a fingerprint that some object copy has comes from an object
copy. -/
theorem exists_ballotsFor {rs : ReadSet} {f : F}
    (h : 0 < (RunningBest.copies docs.kind f (objectCopies docs none id rs.copies)).length) :
    ∃ d ds, ballotsFor docs f (rs.ballots docs id) = d :: ds ∧
      (⟨id, d.2, d.1⟩ : Vote V) ∈ objectCopies docs none id rs.copies := by
  have hmem : ∀ {d : V × Int}, (∃ x ∈ rs.copies, x.object docs id = some d) →
      (⟨id, d.2, d.1⟩ : Vote V) ∈ objectCopies docs none id rs.copies := fun ⟨x, hx, hd⟩ =>
    mem_objectCopies hx hd
  rw [ReadSet.ballots, ballotsFor, List.filter_append, ← ballotsFor, ← ballotsFor]
  cases hremotes : ballotsFor docs f (rs.remotes.filterMap (Replica.object docs · id)) with
  | cons d ds =>
    have hd : d ∈ ballotsFor docs f (rs.remotes.filterMap (Replica.object docs · id)) :=
      hremotes ▸ List.mem_cons_self
    obtain ⟨x, hx, hobj⟩ := List.mem_filterMap.mp (List.mem_of_mem_filter hd)
    exact ⟨d, _, rfl, hmem ⟨x, List.mem_append_right _ hx, hobj⟩⟩
  | nil =>
    -- only the reader's own copy is left
    rw [length_copies_eq, ReadSet.copies, List.filterMap_append, ballotsFor, List.filter_append,
      ← ballotsFor, ← ballotsFor, hremotes, List.append_nil, filterMap_own] at h
    cases hown : rs.own with
    | none =>
      rw [hown] at h
      exact absurd h (lt_irrefl 0)
    | some x =>
      rw [hown] at h
      have h : 0 < (ballotsFor docs f (x.object docs id).toList).length := h
      cases hx : x.object docs id with
      | none =>
        rw [hx] at h
        exact absurd h (lt_irrefl 0)
      | some d =>
        rw [hx] at h
        have hxc : x ∈ rs.copies := by
          rw [ReadSet.copies, hown]
          exact List.mem_append_left _ (List.mem_singleton_self x)
        refine ⟨d, [], ?_, hmem ⟨x, hxc, hx⟩⟩
        show [] ++ ballotsFor docs f (x.get docs id).toList = [d]
        rw [(get_of_object hx).1, List.nil_append]
        show ballotsFor docs f [d] = [d]
        have hd : 0 < (ballotsFor docs f [d]).length := h
        unfold ballotsFor at hd ⊢
        rw [List.filter_cons] at hd ⊢
        split
        · rfl
        · rename_i hf
          rw [if_neg hf] at hd
          exact absurd hd (lt_irrefl 0)

end

/-! ## Settled copies -/

section

variable {docs} {a : Answering} {rs : ReadSet} {id : CString}

omit [DecidableEq F] in
theorem length_listing (hrs : rs.Of a) :
    (listing docs none id rs.copies).length = (listing docs none id a.copies).length :=
  (hrs.copies.filter _).length_eq

/-- What a get finds is listed by enough copies. -/
theorem required_le_of_readGet {v : V} (hrs : rs.Of a) (h : readGet docs rs id = some v) :
    a.required ≤ (listing docs none id a.copies).length := by
  obtain ⟨d, ds, hb, -, hreq⟩ := (readGet_eq_some_iff rs id v).mp h
  have hle : (d :: ds).length ≤ (rs.ballots docs id).length := by
    rw [← hb]
    exact List.length_filter_le ..
  have hlist := length_ballots_le docs id rs
  rw [length_listing hrs] at hlist
  rw [List.length_cons] at hle
  rw [required_eq hrs] at hreq
  omega

/-- A get finds nothing that too few copies list. -/
theorem readGet_eq_none (hrs : rs.Of a)
    (h : (listing docs none id a.copies).length < a.required) : readGet docs rs id = none := by
  by_contra hne
  obtain ⟨v, hv⟩ := Option.ne_none_iff_exists'.mp hne
  exact absurd (required_le_of_readGet hrs hv) (not_le.mpr h)

/-- A query returns nothing that too few copies list. -/
theorem not_mem_readPairs (hrs : rs.Of a) (hshort : a.ShortIds)
    (h : (listing docs none id a.copies).length < a.required) (v : V) :
    (id, v) ∉ readPairs docs rs none := by
  rw [mem_readPairs_iff hrs hshort, RunningBest.outcome_eq_none]
  · exact nofun
  · intro r _
    have hballots := length_copies_le_ballots docs id rs (docs.kind r)
    have hle : (ballotsFor docs (docs.kind r) (rs.ballots docs id)).length ≤
        (rs.ballots docs id).length := List.length_filter_le ..
    have hlist := length_ballots_le docs id rs
    rw [length_listing hrs] at hlist
    omega

theorem QuorumValue.perm {v : V} (h : QuorumValue docs a id v) (hrs : rs.Of a) :
    a.required ≤ (RunningBest.fresh docs.kind Vote.ts (docs.fingerprint v)
        (objectCopies docs none id rs.copies)).length ∧
      ∀ r ∈ objectCopies docs none id rs.copies,
        docs.kind r = docs.fingerprint v → r.value = v := by
  have hp : (objectCopies docs none id rs.copies).Perm (objectCopies docs none id a.copies) :=
    objectCopies_perm hrs.copies
  refine ⟨?_, fun r hr => h.2 r (hp.mem_iff.mp hr)⟩
  rw [RunningBest.length_fresh_perm hp]
  exact h.1

/-- A query returns a quorum value. -/
theorem mem_readPairs_of_quorumValue (hrs : rs.Of a) (hshort : a.ShortIds) {v : V}
    (h : QuorumValue docs a id v) (u : V) : (id, u) ∈ readPairs docs rs none ↔ v = u := by
  obtain ⟨hfresh, hvalue⟩ := h.perm hrs
  have hpos := required_pos a
  have hne : objectCopies docs none id rs.copies ≠ [] := by
    intro hnil
    rw [hnil] at hfresh
    have : a.required ≤ 0 := hfresh
    omega
  -- every newest copy has the fingerprint of `v`
  have hnewest : ∀ r, RunningBest.Newest Vote.ts (objectCopies docs none id rs.copies) r →
      r.value = v := by
    intro r hr
    obtain ⟨x, hx⟩ := List.exists_mem_of_length_pos (hpos.trans_le hfresh)
    exact hvalue r hr.1 (RunningBest.kind_of_newest hx hr)
  have hout : (RunningBest.outcome docs.kind Vote.ts a.required
      (objectCopies docs none id rs.copies)).map Vote.value = some v :=
    RunningBest.outcome_eq_some hne hnewest hfresh
  rw [mem_readPairs_iff hrs hshort, hout, Option.some.injEq]

/-- A get finds a quorum value. -/
theorem readGet_of_quorumValue (hrs : rs.Of a) {v : V} (h : QuorumValue docs a id v) :
    readGet docs rs id = some v := by
  obtain ⟨hfresh, hvalue⟩ := h.perm hrs
  have hcopies := hfresh.trans
    (RunningBest.length_fresh_le_copies (docs.fingerprint v)
      (objectCopies docs none id rs.copies))
  obtain ⟨d, ds, hb, hd⟩ := exists_ballotsFor ((required_pos a).trans_le hcopies)
  have hmem : d ∈ ballotsFor docs (docs.fingerprint v) (rs.ballots docs id) :=
    hb ▸ List.mem_cons_self
  have hfp : docs.fingerprint d.1 = docs.fingerprint v := by
    simpa [ballotsFor] using (List.mem_filter.mp hmem).2
  have hle := length_copies_le_ballots docs id rs (docs.fingerprint v)
  rw [hb, List.length_cons] at hle
  rw [readGet_eq_some_iff, required_eq hrs]
  exact ⟨d, ds, hb, hvalue _ hd hfp, hcopies.trans hle⟩

/-- **Sufficiency.** -/
theorem formsAgree_of_settled (hshort : a.ShortIds) (h : FormsSettled docs a) :
    FormsAgree docs a := by
  intro rs hrs id
  rw [mem_readIds_iff hrs hshort]
  rcases h id with hfew | ⟨v, hv⟩
  · rw [readGet_eq_none hrs hfew]
    refine ⟨iff_of_false (by omega) nofun, fun v => ?_⟩
    exact iff_of_false (not_mem_readPairs hrs hshort hfew v) nofun
  · have hget := readGet_of_quorumValue hrs hv
    rw [hget]
    refine ⟨iff_of_true (required_le_of_readGet hrs hget) rfl, fun u => ?_⟩
    rw [mem_readPairs_of_quorumValue hrs hshort hv, Option.some.injEq]

/-! ## Forms that agree -/

/-- A query accepts the fingerprint of what it returns. -/
theorem accepts_of_mem_readPairs (hrs : rs.Of a) (hshort : a.ShortIds) {v : V}
    (h : (id, v) ∈ readPairs docs rs none) :
    RunningBest.Accepts docs.kind Vote.ts a.required (docs.fingerprint v)
      (objectCopies docs none id rs.copies) := by
  rw [mem_readPairs_iff hrs hshort, RunningBest.outcome] at h
  cases hrun : RunningBest.run docs.kind Vote.ts (objectCopies docs none id rs.copies) with
  | none =>
    rw [hrun] at h
    cases h
  | some s =>
    obtain ⟨b, n⟩ := s
    rw [hrun] at h
    have h : (if a.required ≤ n then some b else none).map Vote.value = some v := h
    split at h
    · rename_i hle
      exact ⟨b, n, hrun, congrArg docs.fingerprint (Option.some.inj h), hle⟩
    · cases h

/-- Two fingerprints cannot both have a quorum of copies. -/
theorem kind_unique {f f' : F} {copies : List Replica} (hlen : copies.length < 2 * a.required)
    (h : a.required ≤ (RunningBest.copies docs.kind f (objectCopies docs none id copies)).length)
    (h' : a.required ≤
      (RunningBest.copies docs.kind f' (objectCopies docs none id copies)).length) : f = f' := by
  by_contra hne
  have hdisjoint : (RunningBest.copies docs.kind f (objectCopies docs none id copies)).length +
      (RunningBest.copies docs.kind f' (objectCopies docs none id copies)).length ≤
        (objectCopies docs none id copies).length := RunningBest.length_copies_add_le hne _
  have hle := length_objectCopies_le docs none id copies
  omega

/-- Where the forms agree, a record that enough copies list has one fingerprint that every
order of its copies accepts. -/
theorem exists_accepted (hshort : a.ShortIds) (h : FormsAgree docs a)
    (hlisted : a.required ≤ (listing docs none id a.copies).length) :
    ∃ f, ∀ l' : List (Vote V), l'.Perm (objectCopies docs none id a.copies) →
      RunningBest.Accepts docs.kind Vote.ts a.required f l' := by
  have hread : ∀ copies : List Replica, copies.Perm a.copies → ∃ f,
      RunningBest.Accepts docs.kind Vote.ts a.required f (objectCopies docs none id copies) := by
    intro copies hp
    obtain ⟨rs, hrs, rfl⟩ := exists_readSet a hp
    have hget := (h rs hrs id).1.mp ((mem_readIds_iff hrs hshort).mpr hlisted)
    obtain ⟨u, hu⟩ := Option.isSome_iff_exists.mp hget
    exact ⟨_, accepts_of_mem_readPairs hrs hshort (((h rs hrs id).2 u).mpr hu)⟩
  obtain ⟨f, hf⟩ := hread a.copies (List.Perm.refl _)
  refine ⟨f, fun l' hl' => ?_⟩
  obtain ⟨copies, hp, rfl⟩ := exists_perm_filterMap _ a.copies l' hl'
  obtain ⟨f', hf'⟩ := hread copies hp
  -- a quorum of the same copies has both fingerprints
  have hquorum : a.required ≤
      (RunningBest.copies docs.kind f' (objectCopies docs none id a.copies)).length := by
    rw [← RunningBest.length_copies_perm hl']
    exact hf'.le_copies
  have hsame : f = f' := kind_unique (length_lt_required a) hf.le_copies hquorum
  rw [hsame]
  exact hf'

omit [DecidableEq F] in
/-- Two different copies of a record may come first. -/
theorem exists_perm_pair {copies : List Replica} {r c : Vote V} (hne : r ≠ c)
    (hr : r ∈ objectCopies docs none id copies) (hc : c ∈ objectCopies docs none id copies) :
    ∃ x y rest, (x :: y :: rest).Perm copies ∧ objectCopy docs none id x = some r ∧
      objectCopy docs none id y = some c := by
  obtain ⟨x, hx, hxr⟩ := List.mem_filterMap.mp hr
  obtain ⟨y, hy, hyc⟩ := List.mem_filterMap.mp hc
  obtain ⟨s, t, rfl⟩ := List.append_of_mem hx
  have hmid : (s ++ x :: t).Perm (x :: (s ++ t)) := List.perm_middle
  have hy' : y ∈ s ++ t := by
    rcases List.mem_cons.mp (hmid.mem_iff.mp hy) with rfl | hy'
    · exact absurd (Option.some.inj (hxr.symm.trans hyc)) hne
    · exact hy'
  obtain ⟨s', t', hst⟩ := List.append_of_mem hy'
  refine ⟨x, y, s' ++ t', ?_, hxr, hyc⟩
  rw [hst] at hmid
  exact ((List.perm_middle.symm).cons x).trans hmid.symm

/-- With `c` the first answer, a get names the value of `c`. -/
theorem readGet_eq_first {y : Replica} {rest : List Replica} {c : Vote V}
    (hrs : rs.Of a) (hremotes : rs.remotes = y :: rest)
    (hy : objectCopy docs none id y = some c)
    (hquorum : a.required ≤
      (RunningBest.copies docs.kind (docs.kind c) (objectCopies docs none id rs.copies)).length) :
    readGet docs rs id = some c.value := by
  obtain ⟨d, hd, rfl⟩ : ∃ d, y.object docs id = some d ∧ (⟨id, d.2, d.1⟩ : Vote V) = c := by
    rw [objectCopy] at hy
    obtain ⟨d, hd, hdc⟩ := Option.map_eq_some_iff.mp hy
    exact ⟨d, (Option.filter_eq_some_iff.mp hd).1, hdc⟩
  have hballots : rs.ballots docs id = d :: (rest.filterMap (Replica.object docs · id) ++
      (rs.own.bind (Replica.get docs · id)).toList) := by
    have hcons : (y :: rest).filterMap (Replica.object docs · id) =
        d :: rest.filterMap (Replica.object docs · id) := by simp [hd]
    rw [ReadSet.ballots, hremotes, hcons, List.cons_append]
  obtain ⟨ds, hds⟩ : ∃ ds,
      ballotsFor docs (docs.fingerprint d.1) (rs.ballots docs id) = d :: ds := by
    rw [hballots, ballotsFor, List.filter_cons, if_pos (decide_eq_true rfl)]
    exact ⟨_, rfl⟩
  have hle := hquorum.trans (length_copies_le_ballots docs id rs _)
  have hlen : a.required ≤ ds.length + 1 := by
    have hlen : a.required ≤ (d :: ds).length := hds ▸ hle
    exact hlen
  rw [readGet_eq_some_iff, required_eq hrs]
  exact ⟨d, ds, hds, rfl, hlen⟩

/-- **Necessity.** -/
theorem settled_of_formsAgree (hshort : a.ShortIds) (h : FormsAgree docs a) :
    FormsSettled docs a := by
  intro id
  by_cases hlisted : a.required ≤ (listing docs none id a.copies).length
  · right
    obtain ⟨f, hf⟩ := exists_accepted hshort h hlisted
    have hfresh := (RunningBest.forall_perm_accepts_iff (required_pos a)).mp hf
    obtain ⟨r, n, hrun, hr, hn⟩ := hf _ (List.Perm.refl _)
    have hnewest := RunningBest.run_newest hrun
    have hcopies := (hf _ (List.Perm.refl _)).le_copies
    refine ⟨r.value, ?_, fun c hc hkind => ?_⟩
    · have hr : docs.fingerprint r.value = f := hr
      rwa [hr]
    · by_contra hne
      -- the newest copy is the reader's own, and `c` answers first
      have hrc : r ≠ c := fun heq => hne (heq ▸ rfl)
      obtain ⟨x, y, rest, hp, hx, hy⟩ := exists_perm_pair hrc hnewest.1 hc
      obtain ⟨rs, hrs, hown, hremotes⟩ := exists_readSet_cons a hp
      have hperm : (objectCopies docs none id rs.copies).Perm
          (objectCopies docs none id a.copies) := objectCopies_perm hrs.copies
      have hkc : docs.kind c = f := hkind.trans hr
      have hget : readGet docs rs id = some c.value := by
        refine readGet_eq_first hrs hremotes hy ?_
        rw [RunningBest.length_copies_perm hperm, hkc]
        exact hcopies
      have hpair := (mem_readPairs_iff hrs hshort).mp (((h rs hrs id).2 _).mpr hget)
      have hcons : objectCopies docs none id rs.copies =
          r :: objectCopies docs none id (y :: rest) := by
        rw [ReadSet.copies, hown, hremotes]
        exact List.filterMap_cons_some hx
      rw [hcons] at hperm hpair
      rw [RunningBest.outcome_of_run
        (RunningBest.run_cons_newest (hnewest.perm hperm))] at hpair
      split at hpair
      · exact hne (Option.some.inj hpair).symm
      · cases hpair
  · exact Or.inl (not_le.mp hlisted)

end

/-- **The read forms agree, exactly.** -/
theorem formsAgree_iff (a : Answering) (hshort : a.ShortIds) :
    FormsAgree docs a ↔ FormsSettled docs a :=
  ⟨settled_of_formsAgree hshort, formsAgree_of_settled hshort⟩

/-- A copy whose only record is `r`. -/
def recordCopy (ts : Int) (n : Nat) : Replica where
  shard := edbShardReplicaPut ∅ (cstr "r") (textObject n) (-1) ts (cstr "a")
  now := 100

theorem id_of_lookup_recordCopy {ts : Int} {n : Nat} {id : CString} {r : Row}
    (h : (recordCopy ts n).shard.lookup id = some r) : id = cstr "r" := by
  by_contra hne
  have hshard : (recordCopy ts n).shard =
      AList.insert (cstr "r") (putRow (textObject n) (-1) ts (cstr "a")) ∅ := rfl
  rw [hshard, AList.lookup_insert_ne hne] at h
  cases h

/-- Three holders, all answering, one of them ahead of the other two. -/
def oneAhead : Answering where
  holders := 3
  copies := [recordCopy 6 1, recordCopy 5 2, recordCopy 5 2]
  le_holders := by decide
  le_jobs := by decide

theorem shortIds_oneAhead : oneAhead.ShortIds := by
  intro x hx id r h
  have hcopy : ∃ ts n, x = recordCopy ts n := by
    rcases List.mem_cons.mp hx with rfl | hx
    · exact ⟨_, _, rfl⟩
    · exact ⟨_, _, or_self_iff.mp (List.mem_pair.mp hx)⟩
  obtain ⟨ts, n, rfl⟩ := hcopy
  rw [id_of_lookup_recordCopy h]
  decide

/-- The copy ahead hides record `r` from a query, while the ids and a get still find it. -/
theorem copy_ahead_hides_record : ¬ FormsAgree textDocuments oneAhead := by
  intro h
  have hread := h ⟨3, some (recordCopy 6 1), [recordCopy 5 2, recordCopy 5 2], by decide, by decide⟩
    ⟨rfl, List.Perm.refl _⟩ (cstr "r")
  have hpair := (hread.2 (textObject 2)).mpr (by decide)
  exact absurd hpair (by decide)

theorem formsAgree_iff_oneAhead :
    oneAhead.ShortIds ∧ (FormsAgree textDocuments oneAhead ↔ FormsSettled textDocuments oneAhead) :=
  ⟨shortIds_oneAhead, formsAgree_iff _ oneAhead shortIds_oneAhead⟩

end EpsilonDB
