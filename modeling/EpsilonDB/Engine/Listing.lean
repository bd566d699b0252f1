import EpsilonDB.Engine.Tombstones

/-!
# Listing and reading a shard (`engine/shard.c`)

Three readers look at the same rows. `edb_shard_ids` lists every row that has not expired,
in timestamp order; `collect_values` and `edb_shard_get` want a document of it as well, and
`collect_values` asks for no order.

- `ShardOp`: the local and the replicated writes, and the cleanup pass.
- `ListingAgrees`: the ids that are listed are those that are read.
- `listingAgrees_iff`: they are iff a filter is given or every tombstone has expired, which
  deletes from a clock five seconds ahead have not.
- `OrderedIteration`: the documents come in the order of their timestamps, as the ids do.
- `orderedIteration_iff`: nothing but one common timestamp ensures that.
-/

namespace EpsilonDB

variable {V : Type} (parse : CString → Option V)

/-! ## The readers -/

/-- `edb_shard_get`. -/
def edbShardGet (now : Int) (sh : Shard) (id : CString) : Option V :=
  match sh.lookup id with
  | none => none
  | some r => if r.live now then r.document parse else none

/-- The ids that are listed are the ids of the rows that are returned and, without a
filter, of the documents that can be read. -/
structure ListingAgrees (now : Int) (filters : Option (V → Bool)) (sh : Shard) : Prop where
  all : ∀ id, id ∈ edbShardIds parse now filters sh ↔
    id ∈ (edbShardAllTs parse now filters sh).map Prod.fst
  query : ∀ id, id ∈ edbShardIds parse now filters sh ↔
    id ∈ (edbShardQueryTs parse now filters sh).map Prod.fst
  records : filters = none → ∀ id, id ∈ edbShardIds parse now filters sh ↔
    (edbShardGet parse now sh id).isSome = true

/-! ## Runs of a shard -/

/-- What is done to a shard. -/
inductive ShardOp where
  | put (now : Int) (id jsonValue : CString) (ttlSeconds : Int)
  | delete (now : Int) (id : CString)
  | replicaPut (id jsonValue : CString) (ttlAbsolute timestamp : Int) (origin : CString)
  | replicaDelete (id : CString) (timestamp : Int) (origin : CString)
  | cleanup (now : Int)
deriving DecidableEq

def ShardOp.step (sh : Shard) : ShardOp → Option Shard
  | .put now id jsonValue ttlSeconds => some (edbShardPut now sh id jsonValue ttlSeconds)
  | .delete now id => some (edbShardDelete now sh id)
  | .replicaPut id jsonValue ttlAbsolute timestamp origin =>
    some (edbShardReplicaPut sh id jsonValue ttlAbsolute timestamp origin)
  | .replicaDelete id timestamp origin => some (edbShardReplicaDelete sh id timestamp origin)
  | .cleanup now => some (edbShardCleanup now sh)

/-- The text a put stores. -/
def ShardOp.text : ShardOp → Option CString
  | .put _ _ jsonValue _ => some jsonValue
  | .replicaPut _ jsonValue _ _ _ => some jsonValue
  | _ => none

/-- The second a delete carries: its clock, or the timestamp of the change. -/
def ShardOp.deletedAt : ShardOp → Option Int
  | .delete now _ => some now
  | .replicaDelete _ timestamp _ => some timestamp
  | _ => none

/-- What is put is the text of a document. -/
def ShardOp.StoresJson (op : ShardOp) : Prop :=
  ∀ text ∈ op.text, text ≠ [] ∧ (parse text).isSome = true

/-- A delete is less than five seconds ahead of `now`. -/
def ShardOp.DeletesBefore (now : Int) (op : ShardOp) : Prop :=
  ∀ ts ∈ op.deletedAt, ts < now + 5

theorem row_of_insert {sh : Shard} {id id' : CString} {r r' : Row}
    (h : (sh.insert id' r').lookup id = some r) :
    (id = id' ∧ r = r') ∨ sh.lookup id = some r := by
  by_cases hid : id = id'
  · subst hid
    rw [AList.lookup_insert] at h
    exact .inl ⟨rfl, (Option.some.inj h).symm⟩
  · rw [AList.lookup_insert_ne hid] at h
    exact .inr h

/-- **One operation**: a row was there before, or its text was put, or it was deleted,
which leaves no value or the one it had. -/
theorem ShardOp.row_cases {op : ShardOp} {sh sh' : Shard} (hstep : ShardOp.step sh op = some sh')
    {id : CString} {r : Row} (hr : sh'.lookup id = some r) :
    sh.lookup id = some r ∨ (∃ text ∈ op.text, r.value = some text) ∨
      ∃ ts ∈ op.deletedAt, r.ttl = some (ts - 5) ∧
        (r.value = none ∨ ∃ r₀, sh.lookup id = some r₀ ∧ r.value = r₀.value) := by
  cases op with
  | put now id' jsonValue ttlSeconds =>
    cases hstep
    rcases row_of_insert hr with ⟨-, rfl⟩ | hold
    · exact .inr (.inl ⟨jsonValue, rfl, rfl⟩)
    · exact .inl hold
  | delete now id' =>
    -- a local deletion keeps the text and moves the expiry into the past
    cases hstep
    rw [lookup_edbShardDelete] at hr
    split at hr
    · next hid =>
      obtain ⟨r₀, hrow, rfl⟩ := Option.map_eq_some_iff.mp hr
      exact .inr (.inr ⟨now, rfl, rfl, .inr ⟨r₀, hid ▸ hrow, rfl⟩⟩)
    · exact .inl hr
  | replicaPut id' jsonValue ttlAbsolute timestamp origin =>
    cases hstep
    unfold edbShardReplicaPut at hr
    split at hr
    · exact .inl hr
    · rcases row_of_insert hr with ⟨-, rfl⟩ | hold
      · exact .inr (.inl ⟨jsonValue, rfl, rfl⟩)
      · exact .inl hold
  | replicaDelete id' timestamp origin =>
    -- a deletion that comes from a peer has no text
    cases hstep
    unfold edbShardReplicaDelete at hr
    split at hr
    · exact .inl hr
    · rcases row_of_insert hr with ⟨-, rfl⟩ | hold
      · exact .inr (.inr ⟨timestamp, rfl, rfl, .inl rfl⟩)
      · exact .inl hold
  | cleanup now =>
    cases hstep
    rw [lookup_edbShardCleanup, Option.filter_eq_some_iff] at hr
    exact .inl hr.1

variable {parse} {now : Int} {filters : Option (V → Bool)} {sh : Shard}

/-- Every value is the text of a document. -/
def Documented (parse : CString → Option V) (sh : Shard) : Prop :=
  ∀ id r, sh.lookup id = some r → ∀ text ∈ r.value, text ≠ [] ∧ (parse text).isSome = true

/-- Every row without a value has expired. -/
def TombstonesExpired (now : Int) (sh : Shard) : Prop :=
  ∀ id r, sh.lookup id = some r → r.value = none → r.live now = false

theorem documented_step (sh : Shard) (op : ShardOp) (sh' : Shard) (h : Documented parse sh)
    (hjson : op.StoresJson parse) (hstep : ShardOp.step sh op = some sh') :
    Documented parse sh' := by
  intro id r hr text htext
  rcases ShardOp.row_cases hstep hr with hold | ⟨put, hput, hvalue⟩ | ⟨ts, -, -, hvalue⟩
  · exact h id r hold text htext
  · rw [hvalue] at htext
    cases htext
    exact hjson text hput
  · rcases hvalue with hnone | ⟨r₀, hr₀, hsame⟩
    · rw [hnone] at htext
      cases htext
    · rw [hsame] at htext
      exact h id r₀ hr₀ text htext

theorem tombstonesExpired_step (sh : Shard) (op : ShardOp) (sh' : Shard)
    (h : TombstonesExpired now sh) (hdeletes : op.DeletesBefore now)
    (hstep : ShardOp.step sh op = some sh') : TombstonesExpired now sh' := by
  intro id r hr hnone
  rcases ShardOp.row_cases hstep hr with hold | ⟨put, -, hvalue⟩ | ⟨ts, hts, httl, -⟩
  · exact h id r hold hnone
  · rw [hvalue] at hnone
    cases hnone
  · have hbefore := hdeletes ts hts
    rw [Row.live, httl]
    exact decide_eq_false (by omega)

/-! ## Agreement -/

theorem mem_map_collectValues {id : CString} :
    id ∈ (collectValues parse now filters sh).map Prod.fst ↔
      ∃ r, sh.lookup id = some r ∧ (r.live now && r.selected parse filters) = true ∧
        (r.document parse).isSome = true := by
  constructor
  · intro h
    obtain ⟨e, he, rfl⟩ := List.mem_map.mp h
    obtain ⟨⟨id, r⟩, hrow, hmap⟩ := List.mem_filterMap.mp he
    obtain ⟨v, hdoc, rfl⟩ := Option.map_eq_some_iff.mp hmap
    obtain ⟨hlookup, hlive⟩ := mem_liveRows.mp hrow
    exact ⟨r, hlookup, hlive, Option.isSome_of_eq_some hdoc⟩
  · rintro ⟨r, hlookup, hlive, hdoc⟩
    obtain ⟨v, hv⟩ := Option.isSome_iff_exists.mp hdoc
    refine List.mem_map.mpr ⟨(id, r.timestamp.getD 0, v), ?_, rfl⟩
    refine List.mem_filterMap.mpr ⟨(id, r), mem_liveRows.mpr ⟨hlookup, hlive⟩, ?_⟩
    rw [hv]
    rfl

theorem isSome_edbShardGet {id : CString} :
    (edbShardGet parse now sh id).isSome = true ↔
      ∃ r, sh.lookup id = some r ∧ r.live now = true ∧ (r.document parse).isSome = true := by
  unfold edbShardGet
  cases sh.lookup id with
  | none => simp
  | some r =>
    cases hlive : r.live now
    · simp [hlive]
    · simp [hlive]

/-- What a filter selects has a document. -/
theorem isSome_document_of_selected {sat : V → Bool} {r : Row}
    (h : r.selected parse (some sat) = true) : (r.document parse).isSome = true := by
  unfold Row.selected at h
  cases hdoc : r.document parse with
  | none =>
    rw [hdoc] at h
    cases h
  | some v => rfl

/-- In a documented shard only tombstones have no document. -/
theorem Documented.isSome_document (h : Documented parse sh) {id : CString} {r : Row}
    (hr : sh.lookup id = some r) : (r.document parse).isSome = true ↔ r.value ≠ none := by
  unfold Row.document
  cases hvalue : r.value with
  | none => simp
  | some text =>
    obtain ⟨hne, hparse⟩ := h id r hr text hvalue
    simp [hne, hparse]

theorem listingAgrees_of_selected
    (h : ∀ id r, sh.lookup id = some r → (r.live now && r.selected parse filters) = true →
      (r.document parse).isSome = true) : ListingAgrees parse now filters sh := by
  have hall : ∀ id, id ∈ edbShardIds parse now filters sh ↔
      id ∈ (collectValues parse now filters sh).map Prod.fst := by
    intro id
    rw [mem_edbShardIds, mem_map_collectValues]
    constructor
    · rintro ⟨r, hr, hlive⟩
      exact ⟨r, hr, hlive, h id r hr hlive⟩
    · rintro ⟨r, hr, hlive, -⟩
      exact ⟨r, hr, hlive⟩
  refine ⟨hall, hall, ?_⟩
  rintro rfl id
  rw [mem_edbShardIds, isSome_edbShardGet]
  simp only [Row.selected, Bool.and_true] at h ⊢
  constructor
  · rintro ⟨r, hr, hlive⟩
    exact ⟨r, hr, hlive, h id r hr hlive⟩
  · rintro ⟨r, hr, hlive, -⟩
    exact ⟨r, hr, hlive⟩

/-- **Agreement in a state**: a filter is given, or no tombstone is live. -/
theorem Documented.agrees_iff (h : Documented parse sh) :
    ListingAgrees parse now filters sh ↔ filters.isSome = true ∨ TombstonesExpired now sh := by
  cases filters with
  | some sat =>
    refine iff_of_true (listingAgrees_of_selected fun id r _ hlive => ?_) (.inl rfl)
    exact isSome_document_of_selected (Bool.and_eq_true _ _ ▸ hlive).2
  | none =>
    have hselected : ∀ r : Row, r.selected parse none = true := fun r => rfl
    constructor
    · intro hagrees
      refine .inr fun id r hr hnone => ?_
      by_contra hlive
      rw [Bool.not_eq_false] at hlive
      have hlisted : id ∈ edbShardIds parse now none sh :=
        mem_edbShardIds.mpr ⟨r, hr, by rw [hlive, hselected]; rfl⟩
      obtain ⟨r', hr', -, hdoc⟩ := isSome_edbShardGet.mp ((hagrees.records rfl id).mp hlisted)
      obtain rfl := Option.some.inj (hr.symm.trans hr')
      exact (h.isSome_document hr).mp hdoc hnone
    · rintro (hfilter | hexpired)
      · cases hfilter
      · refine listingAgrees_of_selected fun id r hr hlive => ?_
        refine (h.isSome_document hr).mpr fun hnone => ?_
        rw [hexpired id r hr hnone] at hlive
        cases hlive

/-- **Listing and reading.** In every state that operations reach, the puts storing
documents, the ids listed at a clock are those read at it iff a filter is given or every
tombstone has expired; they have when no delete was five seconds ahead of that clock. -/
theorem listingAgrees_iff {ops : List ShardOp} (hrun : Runs.run ShardOp.step ∅ ops = some sh)
    (hjson : Runs.Along ShardOp.step (fun _ op => op.StoresJson parse) ∅ ops) (now : Int)
    (filters : Option (V → Bool)) :
    (ListingAgrees parse now filters sh ↔ filters.isSome = true ∨ TombstonesExpired now sh) ∧
      (Runs.Along ShardOp.step (fun _ op => op.DeletesBefore now) ∅ ops →
        ListingAgrees parse now filters sh) := by
  have hempty : ∀ (id : CString) (r : Row), (∅ : Shard).lookup id ≠ some r := by
    intro id r h
    cases h
  have hdocs : Documented parse sh :=
    Runs.inv_run documented_step (fun id r h => absurd h (hempty id r)) hjson hrun
  refine ⟨hdocs.agrees_iff, fun hdeletes => ?_⟩
  have hexpired : TombstonesExpired now sh :=
    Runs.inv_run tombstonesExpired_step (fun id r h => absurd h (hempty id r)) hdeletes hrun
  exact hdocs.agrees_iff.mpr (.inr hexpired)

/-- A record is put and deleted by a clock that is ten seconds ahead. -/
def deletedAhead : List ShardOp :=
  [.put 100 (cstr "k") (cstr "1") (-1), .replicaDelete (cstr "k") 110 (cstr "b")]

/-- The shard they leave. -/
def aheadShard : Shard :=
  edbShardReplicaDelete (edbShardPut 100 ∅ (cstr "k") (cstr "1") (-1)) (cstr "k") 110 (cstr "b")

/-- Five seconds later the tombstone has expired. -/
theorem listingAgrees_deletedAhead :
    (ListingAgrees some 106 none aheadShard ↔
        (none : Option (CString → Bool)).isSome = true ∨ TombstonesExpired 106 aheadShard) ∧
      (Runs.Along ShardOp.step (fun _ op => op.DeletesBefore 106) ∅ deletedAhead →
        ListingAgrees some 106 none aheadShard) := by
  have hrun : Runs.run ShardOp.step ∅ deletedAhead = some aheadShard := rfl
  refine listingAgrees_iff hrun ⟨?_, ?_, trivial⟩ 106 none
  · rintro text ⟨⟩
    exact ⟨by decide, rfl⟩
  · rintro text ⟨⟩

/-- **The tombstone of a clock ahead is listed**, though no read finds a document. -/
theorem deleted_ahead_is_listed :
    Runs.run ShardOp.step ∅ deletedAhead = some aheadShard ∧
      edbShardIds some 101 none aheadShard = [cstr "k"] ∧
      edbShardAllTs some 101 none aheadShard = [] ∧
      ¬ ListingAgrees some 101 none aheadShard := by
  refine ⟨rfl, by decide +kernel, by decide +kernel, fun hagrees => ?_⟩
  have hlisted : cstr "k" ∈ edbShardIds some 101 none aheadShard := by decide +kernel
  have hread := (hagrees.records rfl (cstr "k")).mp hlisted
  exact absurd hread (by decide +kernel)

/-! ## Iteration -/

section Iteration

variable (parse now filters sh)

/-- `collect_values` without `meta`: the documents of the rows as SQLite steps through them,
each with its row. -/
def collectDocuments (rows : List (CString × Row)) : List ((CString × Row) × V) :=
  rows.filterMap fun e => (e.2.document parse).map fun v => (e, v)

/-- `edb_shard_all` and `edb_shard_query`, of the rows their statements select. -/
def edbShardAll (rows : List (CString × Row)) : List V :=
  (collectDocuments parse rows).map Prod.snd

/-- No document comes after a younger one, and those of different seconds come in the order
in which `edb_shard_ids` lists their ids. -/
structure OrderedIteration (rows : List (CString × Row)) : Prop where
  ordered : (collectDocuments parse rows).Pairwise fun a b => a.1.2.sortKey ≤ b.1.2.sortKey
  asListed : (collectDocuments parse rows).Pairwise fun a b =>
    a.1.2.sortKey = b.1.2.sortKey ∨
      (edbShardIds parse now filters sh).idxOf a.1.1 <
        (edbShardIds parse now filters sh).idxOf b.1.1

/-- The statement has no ORDER BY, so SQLite may step through its rows in any order. -/
def IterationOrdered : Prop :=
  ∀ rows : List (CString × Row), rows.Perm (liveRows parse now filters sh) →
    OrderedIteration parse now filters sh rows

/-- The documents the filters select all have one timestamp. -/
def OneTimestamp : Prop :=
  ∀ a ∈ liveRows parse now filters sh, ∀ b ∈ liveRows parse now filters sh,
    (a.2.document parse).isSome = true → (b.2.document parse).isSome = true →
      a.2.timestamp = b.2.timestamp

variable {parse now filters sh}

theorem mem_collectDocuments {rows : List (CString × Row)} {e : CString × Row} :
    (∃ v, (e, v) ∈ collectDocuments parse rows) ↔
      e ∈ rows ∧ (e.2.document parse).isSome = true := by
  constructor
  · rintro ⟨v, hmem⟩
    obtain ⟨e', he', hmap⟩ := List.mem_filterMap.mp hmem
    obtain ⟨v', hdoc, heq⟩ := Option.map_eq_some_iff.mp hmap
    cases heq
    exact ⟨he', Option.isSome_of_eq_some hdoc⟩
  · rintro ⟨he, hdoc⟩
    obtain ⟨v, hv⟩ := Option.isSome_iff_exists.mp hdoc
    exact ⟨v, List.mem_filterMap.mpr ⟨e, he, by rw [hv]; rfl⟩⟩

/-- Rows that come in order from either end have one key. -/
theorem sortKey_eq_of_reverse {rows : List ((CString × Row) × V)}
    (h : rows.Pairwise fun a b => a.1.2.sortKey ≤ b.1.2.sortKey)
    (hreverse : rows.reverse.Pairwise fun a b => a.1.2.sortKey ≤ b.1.2.sortKey) :
    ∀ a ∈ rows, ∀ b ∈ rows, a.1.2.sortKey = b.1.2.sortKey := by
  have hle : ∀ ⦃a⦄, a ∈ rows → ∀ ⦃b⦄, b ∈ rows → a.1.2.sortKey ≤ b.1.2.sortKey :=
    List.Pairwise.forall_of_forall_of_flip (fun a _ => le_refl a.1.2.sortKey) h
      (List.pairwise_reverse.mp hreverse)
  intro a ha b hb
  exact le_antisymm (hle ha hb) (hle hb ha)

/-- **Ordered iteration** is certain exactly when the documents have one timestamp. -/
theorem iterationOrdered_iff (parse : CString → Option V) (now : Int)
    (filters : Option (V → Bool)) (sh : Shard) :
    IterationOrdered parse now filters sh ↔ OneTimestamp parse now filters sh := by
  constructor
  · intro hordered a ha b hb hdoca hdocb
    have hscan := (hordered _ (List.Perm.refl _)).ordered
    have hreverse := (hordered _ (List.reverse_perm _)).ordered
    rw [collectDocuments, List.filterMap_reverse] at hreverse
    obtain ⟨va, hva⟩ := mem_collectDocuments.mpr ⟨ha, hdoca⟩
    obtain ⟨vb, hvb⟩ := mem_collectDocuments.mpr ⟨hb, hdocb⟩
    exact sortKey_eq_of_reverse hscan hreverse _ hva _ hvb
  · intro hone rows hperm
    have heq : (collectDocuments parse rows).Pairwise fun a b =>
        a.1.2.sortKey = b.1.2.sortKey := by
      refine List.pairwise_of_forall_mem_list fun a ha b hb => ?_
      obtain ⟨hmema, hdoca⟩ := mem_collectDocuments.mp ⟨a.2, ha⟩
      obtain ⟨hmemb, hdocb⟩ := mem_collectDocuments.mp ⟨b.2, hb⟩
      exact hone _ (hperm.mem_iff.mp hmema) _ (hperm.mem_iff.mp hmemb) hdoca hdocb
    exact ⟨heq.imp le_of_eq, heq.imp Or.inl⟩

/-- A late change is put behind a newer record. -/
def lateChange : List ShardOp :=
  [.replicaPut (cstr "a") (cstr "1") (-1) 200 (cstr "n"),
    .replicaPut (cstr "b") (cstr "2") (-1) 100 (cstr "n")]

/-- **Documents come out of order**: in the order of their rows the newer one is first. -/
theorem late_change_breaks_order :
    ∃ sh, Runs.run ShardOp.step ∅ lateChange = some sh ∧
      edbShardIds some 0 none sh = [cstr "b", cstr "a"] ∧
      edbShardAll some [(cstr "a", putRow (cstr "1") (-1) 200 (cstr "n")),
        (cstr "b", putRow (cstr "2") (-1) 100 (cstr "n"))] = [cstr "1", cstr "2"] ∧
      ¬ IterationOrdered some 0 none sh := by
  refine ⟨_, rfl, by decide +kernel, by decide +kernel, fun hordered => ?_⟩
  have hscan := (hordered [(cstr "a", putRow (cstr "1") (-1) 200 (cstr "n")),
    (cstr "b", putRow (cstr "2") (-1) 100 (cstr "n"))] (by decide +kernel)).ordered
  exact absurd hscan (by decide +kernel)

end Iteration

end EpsilonDB
