import EpsilonDB.Socket.MergeOrder

/-!
# What the row merges emit

A record is emitted when enough copies were counted for it, and the count restarts, stays or
grows with every row. It never exceeds the number of replies that really agree.

- `listedBy`: the replies that list an id with exactly a value.
- `SoundRow`: a record is a newest row of its id, and enough replies list it.
- `SoundMerge`: each id once, every record sound.
- `entry_sound`: an entry of the loop is sound for the count it keeps.
- `row_merge_sound`: both row merges emit a sound merge.
-/

namespace EpsilonDB

variable {V F : Type} [DecidableEq V] [DecidableEq F] (docs : Documents V F)

/-- The reply has a row with this id and this value. -/
def RowSet.lists (id : CString) (v : V) (s : RowSet V) : Bool :=
  (s.getD []).any fun r => r.id = some id && r.value = some v

/-- The number of replies that list `id` with exactly `v`. -/
def listedBy (sets : List (RowSet V)) (id : CString) (v : V) : Nat :=
  sets.countP (RowSet.lists id v)

/-- A record of a merge: its value is that of a row with the greatest timestamp of the
object rows of its id, and at least `required` replies list the id with it. -/
structure SoundRow (required : Nat) (sets : List (RowSet V)) (id : CString) (ts : Int)
    (v : V) : Prop where
  newest : (⟨id, ts, v⟩ : Vote V) ∈ votesOf docs sets ∧
    ∀ r ∈ votesOf docs sets, r.id = id → r.ts ≤ ts
  agreed : required ≤ listedBy sets id v

/-- The records of a merge: sound ones, no id twice. -/
structure SoundMerge (required : Nat) (sets : List (RowSet V))
    (records : List (CString × Int × V)) : Prop where
  once : (records.map Prod.fst).Nodup
  sound : ∀ e ∈ records, SoundRow docs required sets e.1 e.2.1 e.2.2

section

variable {docs} {sets : List (RowSet V)}

omit [DecidableEq F] in
/-- A reply with a vote lists its id and value. -/
theorem lists_of_mem_votes {s : RowSet V} {r : Vote V} (h : r ∈ RowSet.votes docs s) :
    s.lists r.id r.value = true := by
  obtain ⟨row, hrow, hvote⟩ := List.mem_filterMap.mp h
  obtain ⟨id, ts, value⟩ := row
  refine List.any_eq_true.mpr ⟨_, hrow, ?_⟩
  cases id with
  | none => cases hvote
  | some id =>
    cases value with
    | none => cases hvote
    | some v =>
      unfold ReplyRow.vote at hvote
      dsimp only at hvote
      split at hvote
      · cases hvote
        simp
      · cases hvote

/-- With one row of an id a reply, the copies of a value are no more than the replies that
list it. -/
theorem length_copies_le (h : TableReplies docs sets) (hinj : Function.Injective docs.fingerprint)
    (id : CString) (v : V) :
    (RunningBest.copies docs.kind (docs.fingerprint v)
      (votesFor id (votesOf docs sets))).length ≤ listedBy sets id v := by
  rw [votesFor_votesOf h, RunningBest.copies, ← List.countP_eq_length_filter,
    List.countP_filterMap]
  refine List.countP_mono_left fun s hs hcopy => ?_
  cases hvote : voteFor docs id s with
  | none =>
    rw [hvote] at hcopy
    cases hcopy
  | some r =>
    have hmem : r ∈ votesFor id (RowSet.votes docs s) := List.mem_of_mem_head? hvote
    obtain ⟨hr, hid⟩ := List.mem_filter.mp hmem
    have hkind : docs.fingerprint r.value = docs.fingerprint v := by
      rw [hvote] at hcopy
      exact of_decide_eq_true hcopy
    obtain rfl : r.id = id := of_decide_eq_true hid
    rw [← hinj hkind]
    exact lists_of_mem_votes hr

omit [DecidableEq V] in
/-- The entries of an id are the running best of its rows. -/
theorem filter_mergeEntries (h : TableReplies docs sets) {id : CString} (hlen : id.length < 512) :
    (mergeEntries docs sets).filter (fun e => decide (e.id = id)) =
      (RunningBest.run docs.kind Vote.ts (votesFor id (votesOf docs sets))).toList.map
        (entryOf docs id) :=
  filter_foldl_recordRow hlen _ (unmixed_of_table h id)

omit [DecidableEq V] in
theorem run_of_mem_mergeEntries (h : TableReplies docs sets) {e : Entry V F}
    (he : e ∈ mergeEntries docs sets) : ∃ s,
      RunningBest.run docs.kind Vote.ts (votesFor e.id (votesOf docs sets)) = some s ∧
        e = entryOf docs e.id s := by
  have hmem : e ∈ (mergeEntries docs sets).filter fun x => decide (x.id = e.id) :=
    List.mem_filter.mpr ⟨he, decide_eq_true rfl⟩
  rw [filter_mergeEntries h (length_id_foldl _ e he)] at hmem
  obtain ⟨s, hs, heq⟩ := List.mem_map.mp hmem
  exact ⟨s, Option.mem_toList.mp hs, heq.symm⟩

/-- **Each entry** is sound for the count it keeps. -/
theorem entry_sound (h : TableReplies docs sets) (hinj : Function.Injective docs.fingerprint)
    {e : Entry V F} (he : e ∈ mergeEntries docs sets) :
    SoundRow docs e.agree sets e.id e.bestTs e.bestValue := by
  obtain ⟨⟨b, n⟩, hrun, heq⟩ := run_of_mem_mergeEntries h he
  obtain ⟨hmem, hmax⟩ := RunningBest.run_newest hrun
  obtain ⟨hb, hid⟩ := List.mem_filter.mp hmem
  have hid : b.id = e.id := of_decide_eq_true hid
  have hcount := RunningBest.count_le hrun
  rw [heq]
  refine ⟨⟨?_, fun r hr hrid => ?_⟩, ?_⟩
  · show (⟨e.id, b.ts, b.value⟩ : Vote V) ∈ _
    rw [← hid]
    exact hb
  · exact hmax r (List.mem_filter.mpr ⟨hr, decide_eq_true hrid⟩)
  · exact hcount.trans (length_copies_le h hinj e.id b.value)

omit [DecidableEq V] in
/-- The loop keeps one entry an id. -/
theorem nodup_mergeEntries (h : TableReplies docs sets) :
    ((mergeEntries docs sets).map Entry.id).Nodup := by
  rw [List.nodup_iff_count]
  intro id
  rw [List.count, List.countP_map, List.countP_eq_length_filter]
  show ((mergeEntries docs sets).filter fun e => e.id == id).length ≤ 1
  by_cases hid : id.length < 512
  · have hbeq : (fun e : Entry V F => e.id == id) = fun e => decide (e.id = id) := by
      funext e
      exact beq_eq_decide ..
    rw [hbeq, filter_mergeEntries h hid, List.length_map]
    exact Option.length_toList_le
  · -- no entry has an id this long
    have hnone : ((mergeEntries docs sets).filter fun e => e.id == id) = [] := by
      refine List.filter_eq_nil_iff.mpr fun e he heq => hid ?_
      have hlen : e.id.length < 512 := length_id_foldl _ e he
      rwa [eq_of_beq heq] at hlen
    rw [hnone]
    exact Nat.zero_le 1

end

/-- **The row merges are sound**: whatever the replies and the order of their rows, both
emit records that are sound. -/
theorem row_merge_sound (required : Nat) (sets : List (RowSet V)) (h : TableReplies docs sets)
    (hinj : Function.Injective docs.fingerprint) :
    SoundMerge docs required sets (mergeAgreedRowsMeta docs required sets) ∧
      ∃ records, SoundMerge docs required sets records ∧
        mergeAgreedRows docs required sets = records.map fun e => e.2.2 := by
  have hmeta : SoundMerge docs required sets (mergeAgreedRowsMeta docs required sets) := by
    constructor
    · have hids : (mergeAgreedRowsMeta docs required sets).map Prod.fst =
          (agreedEntries docs required sets).map Entry.id := by
        rw [mergeAgreedRowsMeta, List.map_map]
        rfl
      rw [hids]
      exact (nodup_mergeEntries h).sublist (List.filter_sublist.map _)
    · intro record hrecord
      obtain ⟨e, he, rfl⟩ := List.mem_map.mp hrecord
      obtain ⟨he, hreq⟩ := List.mem_filter.mp he
      obtain ⟨hnewest, hagreed⟩ := entry_sound h hinj he
      exact ⟨hnewest, (of_decide_eq_true hreq).trans hagreed⟩
  refine ⟨hmeta, mergeAgreedRowsMeta docs required sets, hmeta, ?_⟩
  rw [mergeAgreedRows, mergeAgreedRowsMeta, List.map_map]
  rfl

/-- Two replies agree on a newer copy than the first has. -/
def newerTwice : List (RowSet CString) := [oneRow 1 0, oneRow 2 1, oneRow 2 1]

theorem row_merge_sound_newerTwice :
    TableReplies textDocuments newerTwice ∧
      mergeAgreedRowsMeta textDocuments 2 newerTwice = [(cstr "r", 2, textObject 1)] ∧
        SoundMerge textDocuments 2 newerTwice
          (mergeAgreedRowsMeta textDocuments 2 newerTwice) := by
  have htable : TableReplies textDocuments newerTwice := by
    unfold TableReplies
    decide
  exact ⟨htable, by decide, (row_merge_sound textDocuments 2 newerTwice htable
    Function.injective_id).1⟩

end EpsilonDB
