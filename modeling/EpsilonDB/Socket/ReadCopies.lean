import EpsilonDB.Socket.MergeOrder
import EpsilonDB.Socket.ReplRead

/-!
# What the reads of one keyspace see

The answering copies of a shard and the three reads over them, record by record.

- `Answering`: copies that can answer a read. Any of them may be the reader's own, and they
  may answer in any order (`ReadSet.Of`).
- `objectCopy`: what a copy says about a record where only objects count.
- `mem_readPairs_iff`: a query returns the outcome of the running best of these.
- `mem_readIds_iff`: the ids are those a quorum of copies lists.
-/

namespace EpsilonDB

variable {V F : Type} [DecidableEq F] (docs : Documents V F)

/-- Copies of a shard with `holders` holders that answer a read. -/
structure Answering where
  holders : Nat
  copies : List Replica
  le_holders : copies.length ≤ holders
  le_jobs : copies.length ≤ maxReplies + 1

/-- The quorum of the reads. -/
def Answering.required (a : Answering) : Nat := a.holders / 2 + 1

/-- A read that the copies of `a` answer: some order, some copy the reader's own or none. -/
structure ReadSet.Of (rs : ReadSet) (a : Answering) : Prop where
  holders : rs.holders = a.holders
  copies : rs.copies.Perm a.copies

/-- The ids of the copies fit the 512-byte buffers of the merges. -/
def Answering.ShortIds (a : Answering) : Prop :=
  ∀ x ∈ a.copies, ∀ id r, x.shard.lookup id = some r → id.length < 512

/-- What a copy says about record `id`: its live document, when it is an object the
filters accept. -/
def objectCopy (filters : Option (V → Bool)) (id : CString) (x : Replica) : Option (Vote V) :=
  ((x.object docs id).filter fun d => filters.all fun sat => sat d.1).map fun d => ⟨id, d.2, d.1⟩

/-- All that the copies say about a record, in order. -/
def objectCopies (filters : Option (V → Bool)) (id : CString) (copies : List Replica) :
    List (Vote V) :=
  copies.filterMap (objectCopy docs filters id)

/-- The copies that list a record. -/
def listing (filters : Option (V → Bool)) (id : CString) (copies : List Replica) :
    List Replica :=
  copies.filter fun x => id ∈ x.ids docs filters

section

variable {docs} {filters : Option (V → Bool)} {id : CString}

theorem required_eq {rs : ReadSet} {a : Answering} (h : rs.Of a) : rs.required = a.required := by
  rw [ReadSet.required, Answering.required, h.holders]

theorem required_pos (a : Answering) : 0 < a.required := Nat.succ_pos _

theorem length_lt_required (a : Answering) : a.copies.length < 2 * a.required := by
  have := a.le_holders
  rw [Answering.required]
  omega

/-- Any copy may be the reader's own, and the others may answer in any order. -/
theorem exists_readSet_cons (a : Answering) {x : Replica} {l : List Replica}
    (hl : (x :: l).Perm a.copies) : ∃ rs : ReadSet, rs.Of a ∧ rs.own = some x ∧ rs.remotes = l := by
  have hlen := hl.length_eq
  have hholders := a.le_holders
  have hjobs := a.le_jobs
  rw [List.length_cons] at hlen
  refine ⟨⟨a.holders, some x, l, ?_, by omega⟩, ⟨rfl, hl⟩, rfl, rfl⟩
  rw [Option.toList_some, List.length_singleton]
  omega

/-- Every order of the copies is the order of some read. -/
theorem exists_readSet (a : Answering) {l : List Replica} (hl : l.Perm a.copies) :
    ∃ rs : ReadSet, rs.Of a ∧ rs.copies = l := by
  cases l with
  | nil => exact ⟨⟨a.holders, none, [], by simp, by simp⟩, ⟨rfl, hl⟩, rfl⟩
  | cons x l =>
    obtain ⟨rs, hrs, hown, hremotes⟩ := exists_readSet_cons a hl
    refine ⟨rs, hrs, ?_⟩
    rw [ReadSet.copies, hown, hremotes]
    rfl

/-! ## Rows -/

omit [DecidableEq F] in
/-- The row of a copy that counts for a record. -/
theorem votesFor_rows (x : Replica) :
    votesFor id (RowSet.votes docs (x.rows docs filters)) = (objectCopy docs filters id x).toList := by
  have hvotes : RowSet.votes docs (x.rows docs filters) =
      (collectValues docs.parse x.now filters x.shard).filterMap fun e =>
        if docs.isObject e.2.2 then some (⟨e.1, e.2.1, e.2.2⟩ : Vote V) else none := by
    rw [Replica.rows, RowSet.votes, Option.getD_some, List.filterMap_map]
    rfl
  have hswap : votesFor id (RowSet.votes docs (x.rows docs filters)) =
      ((collectValues docs.parse x.now filters x.shard).filter fun e => decide (e.1 = id)).filterMap
        fun e => if docs.isObject e.2.2 then some (⟨e.1, e.2.1, e.2.2⟩ : Vote V) else none := by
    rw [hvotes, votesFor, List.filter_filterMap, List.filterMap_filter]
    refine List.filterMap_congr fun e _ => ?_
    by_cases hid : e.1 = id
    · by_cases hobj : docs.isObject e.2.2 = true
      · simp [hid, hobj]
      · simp [hid, hobj]
    · by_cases hobj : docs.isObject e.2.2 = true
      · simp [hid, hobj]
      · simp [hid, hobj]
  -- with the record fixed, at most the shard's own document is left
  rw [hswap, filter_collectValues, objectCopy, Replica.object, Replica.get]
  cases edbShardGetTs docs.parse x.now x.shard id with
  | none => rfl
  | some d =>
    by_cases hobj : docs.isObject d.1 = true
    · by_cases hsat : (filters.all fun sat => sat d.1) = true
      · simp [Option.filter_some, hobj, hsat]
      · simp [Option.filter_some, hobj, hsat]
    · by_cases hsat : (filters.all fun sat => sat d.1) = true
      · simp [Option.filter_some, hobj, hsat]
      · simp [Option.filter_some, hobj, hsat]

omit [DecidableEq F] in
theorem votesFor_copies (copies : List Replica) :
    votesFor id (votesOf docs (copies.map (Replica.rows docs · filters))) =
      objectCopies docs filters id copies := by
  rw [votesFor, votesOf, List.flatMap_map, List.filter_flatMap, objectCopies,
    List.filterMap_eq_flatMap_toList]
  exact List.flatMap_congr fun x _ => votesFor_rows x

omit [DecidableEq F] in
theorem objectCopies_perm {l l' : List Replica} (h : l'.Perm l) :
    (objectCopies docs filters id l').Perm (objectCopies docs filters id l) :=
  h.filterMap _

omit [DecidableEq F] in
variable (docs filters id) in
theorem length_objectCopies_le (copies : List Replica) :
    (objectCopies docs filters id copies).length ≤ copies.length :=
  List.length_filterMap_le _ _

omit [DecidableEq F] in
/-- Rows carry ids of their shard. -/
theorem length_id_of_mem_votesOf {copies : List Replica}
    (hshort : ∀ x ∈ copies, ∀ id r, x.shard.lookup id = some r → id.length < 512) {r : Vote V}
    (hr : r ∈ votesOf docs (copies.map (Replica.rows docs · filters))) : r.id.length < 512 := by
  have hmem : r ∈ votesFor r.id (votesOf docs (copies.map (Replica.rows docs · filters))) :=
    List.mem_filter.mpr ⟨hr, decide_eq_true rfl⟩
  rw [votesFor_copies, objectCopies, List.mem_filterMap] at hmem
  obtain ⟨x, hx, hcopy⟩ := hmem
  cases hl : x.shard.lookup r.id with
  | some row => exact hshort x hx r.id row hl
  | none =>
    rw [objectCopy, Replica.object, Replica.get, edbShardGetTs, hl] at hcopy
    cases hcopy

/-- **A query returns** the outcome of the running best of the copies of a record. -/
theorem mem_readPairs_iff {rs : ReadSet} {a : Answering} (hrs : rs.Of a) (hshort : a.ShortIds)
    {v : V} :
    (id, v) ∈ readPairs docs rs filters ↔
      (RunningBest.outcome docs.kind Vote.ts a.required
        (objectCopies docs filters id rs.copies)).map Vote.value = some v := by
  have hshort' : ∀ x ∈ rs.copies, ∀ id r, x.shard.lookup id = some r → id.length < 512 :=
    fun x hx => hshort x (hrs.copies.mem_iff.mp hx)
  rw [readPairs]
  by_cases hreached : rs.reached = true
  · rw [if_pos hreached, required_eq hrs]
    by_cases hlen : id.length < 512
    · rw [mem_agreedPairs_iff hlen, votesFor_copies]
      intro r hr ht
      rwa [snprintf_of_lt (length_id_of_mem_votesOf hshort' hr)] at ht
    · -- no copy has this id
      refine iff_of_false (fun hmem => hlen (length_id_of_mem_agreedPairs hmem)) ?_
      have hnil : objectCopies docs filters id rs.copies = [] := by
        rw [← votesFor_copies, List.eq_nil_iff_forall_not_mem]
        intro r hr
        obtain ⟨hr, hid⟩ := List.mem_filter.mp hr
        exact hlen (of_decide_eq_true hid ▸ length_id_of_mem_votesOf hshort' hr)
      rw [hnil]
      intro h
      cases h
  · -- too few copies to reach the required count
    rw [if_neg hreached]
    refine iff_of_false List.not_mem_nil fun hsome => ?_
    rw [ReadSet.reached, decide_eq_true_eq, required_eq hrs] at hreached
    have hnone : RunningBest.outcome docs.kind Vote.ts a.required
        (objectCopies docs filters id rs.copies) = none :=
      RunningBest.outcome_eq_none fun r _ => by
        have hle := List.length_filter_le (fun x => decide (docs.kind x = docs.kind r))
          (objectCopies docs filters id rs.copies)
        have := length_objectCopies_le docs filters id rs.copies
        unfold RunningBest.copies
        omega
    rw [hnone] at hsome
    cases hsome

/-! ## Ids -/

theorem filter_recordId_of_ne {x : CString} (h : x ≠ id) (ht : snprintf 512 x ≠ id)
    (es : List IdEntry) :
    (recordId es x).filter (fun e => decide (e.id = id)) =
      es.filter fun e => decide (e.id = id) := by
  induction es with
  | nil => simp [recordId, ht]
  | cons e es ih =>
    rw [recordId]
    split
    · rename_i heq
      have hne : e.id ≠ id := fun h' => h (heq.symm.trans h')
      simp [hne]
    · rw [List.filter_cons, List.filter_cons, ih]

theorem filter_recordId_of_eq (ht : snprintf 512 id = id) (es : List IdEntry) :
    (recordId es id).filter (fun e => decide (e.id = id)) =
      match es.filter (fun e => decide (e.id = id)) with
      | [] => [⟨id, 1⟩]
      | e :: rest => { e with seen := e.seen + 1 } :: rest := by
  induction es with
  | nil => simp [recordId, ht]
  | cons e es ih =>
    rw [recordId]
    by_cases heq : e.id = id
    · simp [heq]
    · rw [if_neg heq, List.filter_cons, List.filter_cons, ih]
      simp [heq]

/-- The entry of an id counts its occurrences. -/
theorem filter_foldl_recordId (hlen : id.length < 512) (l : List CString)
    (hl : ∀ x ∈ l, x.length < 512) :
    (l.foldl recordId []).filter (fun e => decide (e.id = id)) =
      if l.count id = 0 then [] else [⟨id, l.count id⟩] := by
  induction l using List.reverseRecOn with
  | nil => rfl
  | append_singleton l x ih =>
    have hx := hl x (List.mem_append_right _ (List.mem_singleton_self x))
    rw [List.foldl_append, List.count_append]
    show (recordId (l.foldl recordId []) x).filter _ = _
    have ih := ih fun y hy => hl y (List.mem_append_left _ hy)
    by_cases hid : x = id
    · subst hid
      rw [filter_recordId_of_eq (snprintf_of_lt hlen), ih, List.count_singleton_self,
        if_neg (Nat.succ_ne_zero _)]
      by_cases hzero : l.count x = 0
      · rw [if_pos hzero, hzero]
      · rw [if_neg hzero]
    · rw [filter_recordId_of_ne hid (by rwa [snprintf_of_lt hx]), ih]
      simp [hid]

/-- An id entry keeps at most 511 bytes. -/
theorem length_id_recordIds (l : List CString) :
    ∀ e ∈ l.foldl recordId [], e.id.length < 512 := by
  induction l using List.reverseRecOn with
  | nil => exact nofun
  | append_singleton l x ih =>
    rw [List.foldl_append]
    show ∀ e ∈ recordId (l.foldl recordId []) x, e.id.length < 512
    generalize l.foldl recordId [] = es at ih
    induction es with
    | nil =>
      intro e he
      rw [recordId, List.mem_singleton] at he
      rw [he]
      exact length_snprintf_lt (by decide) x
    | cons e es ihes =>
      intro e' he'
      have hrest := ihes fun y hy => ih y (List.mem_cons_of_mem _ hy)
      have he := ih e List.mem_cons_self
      rw [recordId] at he'
      split at he'
      · rcases List.mem_cons.mp he' with rfl | he'
        · exact he
        · exact ih e' (List.mem_cons_of_mem _ he')
      · rcases List.mem_cons.mp he' with rfl | he'
        · exact he
        · exact hrest e' he'

theorem mem_mergeAgreedIds_iff {required : Nat} (hpos : 0 < required) {lists : List (List CString)}
    (hlen : id.length < 512) (hl : ∀ x ∈ lists.flatten, x.length < 512) :
    id ∈ mergeAgreedIds required lists ↔ required ≤ lists.flatten.count id := by
  have hiff : id ∈ mergeAgreedIds required lists ↔
      ∃ e ∈ (lists.flatten.foldl recordId []).filter (fun e => decide (e.id = id)),
        required ≤ e.seen := by
    simp only [mergeAgreedIds, List.mem_map, List.mem_filter, decide_eq_true_eq]
    constructor
    · rintro ⟨e, ⟨he, hreq⟩, hid⟩
      exact ⟨e, ⟨he, hid⟩, hreq⟩
    · rintro ⟨e, ⟨he, hid⟩, hreq⟩
      exact ⟨e, ⟨he, hreq⟩, hid⟩
  rw [hiff, filter_foldl_recordId hlen _ hl]
  split
  · rename_i hzero
    rw [hzero]
    exact iff_of_false (fun ⟨e, he, _⟩ => List.not_mem_nil he) (by omega)
  · simp

omit [DecidableEq F] in
theorem count_ids (copies : List Replica) :
    (copies.map (Replica.ids docs · filters)).flatten.count id =
      (listing docs filters id copies).length := by
  induction copies with
  | nil => rfl
  | cons x copies ih =>
    rw [List.map_cons, List.flatten_cons, List.count_append, ih, listing, listing,
      List.filter_cons]
    have hnodup : (x.ids docs filters).Nodup := nodup_edbShardIds ..
    by_cases hmem : id ∈ x.ids docs filters
    · rw [List.count_eq_one_of_mem hnodup hmem, if_pos (decide_eq_true hmem), List.length_cons]
      omega
    · rw [List.count_eq_zero_of_not_mem hmem, if_neg (by simpa using hmem)]
      omega

omit [DecidableEq F] in
/-- **The ids** are those a quorum of copies lists. -/
theorem mem_readIds_iff {rs : ReadSet} {a : Answering} (hrs : rs.Of a) (hshort : a.ShortIds) :
    id ∈ readIds docs rs filters ↔
      a.required ≤ (listing docs filters id a.copies).length := by
  have hperm : (listing docs filters id rs.copies).length =
      (listing docs filters id a.copies).length := (hrs.copies.filter _).length_eq
  have hle : (listing docs filters id a.copies).length ≤ a.copies.length :=
    List.length_filter_le ..
  have hlisted : ∀ x ∈ (rs.copies.map (Replica.ids docs · filters)).flatten,
      x.length < 512 := by
    intro x hx
    obtain ⟨l, hl, hx⟩ := List.mem_flatten.mp hx
    obtain ⟨y, hy, rfl⟩ := List.mem_map.mp hl
    obtain ⟨r, hr, -⟩ := mem_edbShardIds.mp hx
    exact hshort y (hrs.copies.mem_iff.mp hy) x r hr
  rw [readIds]
  by_cases hreached : rs.reached = true
  · rw [if_pos hreached, required_eq hrs]
    by_cases hlen : id.length < 512
    · rw [mem_mergeAgreedIds_iff (required_pos a) hlen hlisted, count_ids, hperm]
    · have hnone : (listing docs filters id a.copies).length = 0 := by
        rw [List.length_eq_zero_iff, List.eq_nil_iff_forall_not_mem]
        intro x hx
        obtain ⟨hx, hid⟩ := List.mem_filter.mp hx
        obtain ⟨r, hr, -⟩ := mem_edbShardIds.mp (of_decide_eq_true hid)
        exact hlen (hshort x hx id r hr)
      rw [hnone]
      refine iff_of_false (fun hmem => ?_) (not_le.mpr (required_pos a))
      -- entries keep at most 511 bytes of an id
      obtain ⟨e, he, rfl⟩ := List.mem_map.mp hmem
      exact hlen (length_id_recordIds _ e (List.mem_of_mem_filter he))
  · rw [if_neg hreached]
    rw [ReadSet.reached, decide_eq_true_eq, required_eq hrs, hrs.copies.length_eq] at hreached
    exact iff_of_false List.not_mem_nil (by omega)

end

end EpsilonDB
