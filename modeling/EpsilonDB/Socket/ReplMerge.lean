import EpsilonDB.Engine.CString
import EpsilonDB.Lib.RunningBest

/-!
# Merging quorum replies (`merge_agreed_*` in `socket/epsilon_repl_read.c`)

The rows of all replies pass one loop that keeps, for every id, the newest value and how
many copies agreed with it.

- `Documents`: what the merges ask of a JSON value.
- `ReplyRow`, `RowSet`: a reply as the code reads it, each field present only when it has
  the JSON type the loop asks for.
- `recordRow`, `mergeEntries`: the loop. An entry keeps its id in 512 bytes, but rows are
  looked up by their whole id.
- `mergeAgreedRows`, `mergeAgreedRowsMeta`, `mergeAgreedIds`: its three outputs.
- `entries_at`: the entry of an id is the running best of the rows of this id.
-/

namespace EpsilonDB

/-- JSON values: the parser of a stored text, the object test and the fingerprint of the
printed form. -/
structure Documents (V F : Type) where
  parse : CString → Option V
  isObject : V → Bool
  fingerprint : V → F

/-- A row of a reply. -/
structure ReplyRow (V : Type) where
  id : Option CString
  timestamp : Option Int
  value : Option V
deriving DecidableEq

/-- The `rows` array of a reply, when it is one. -/
abbrev RowSet (V : Type) := Option (List (ReplyRow V))

/-- A row the merges count. -/
structure Vote (V : Type) where
  id : CString
  ts : Int
  value : V
deriving DecidableEq

variable {V F : Type} [DecidableEq F] (docs : Documents V F)

/-- A row counts when its id is a string and its value an object; a missing timestamp
counts as 0. -/
def ReplyRow.vote (r : ReplyRow V) : Option (Vote V) :=
  match r.id, r.value with
  | some id, some value => if docs.isObject value then some ⟨id, r.timestamp.getD 0, value⟩ else none
  | _, _ => none

/-- The votes of a reply. -/
def RowSet.votes (s : RowSet V) : List (Vote V) := (s.getD []).filterMap (ReplyRow.vote docs)

/-- `entry`: an id with its newest value. -/
structure Entry (V F : Type) where
  id : CString
  fp : F
  bestValue : V
  bestTs : Int
  agree : Nat

/-- A fresh entry, its id copied by `"%.511s"` into 512 bytes. -/
def Entry.first (r : Vote V) : Entry V F where
  id := snprintf 512 r.id
  fp := docs.fingerprint r.value
  bestValue := r.value
  bestTs := r.ts
  agree := 1

/-- One more row for an entry. -/
def Entry.record (e : Entry V F) (r : Vote V) : Entry V F :=
  let same := docs.fingerprint r.value = e.fp
  let agree := if same then e.agree + 1 else e.agree
  if e.bestTs < r.ts then
    { e with
      fp := docs.fingerprint r.value, bestValue := r.value, bestTs := r.ts
      agree := if same then agree else 1 }
  else { e with agree }

/-- Record a row under the first entry with its id, or under a fresh entry. -/
def recordRow (entries : List (Entry V F)) (r : Vote V) : List (Entry V F) :=
  match entries with
  | [] => [Entry.first docs r]
  | e :: es => if e.id = r.id then e.record docs r :: es else e :: recordRow es r

/-- The loop shared by `merge_agreed_rows` and `merge_agreed_rows_meta`. -/
def mergeEntries (sets : List (RowSet V)) : List (Entry V F) :=
  (sets.flatMap (RowSet.votes docs)).foldl (recordRow docs) []

/-- The entries enough copies agree on. -/
def agreedEntries (required : Nat) (sets : List (RowSet V)) : List (Entry V F) :=
  (mergeEntries docs sets).filter fun e => decide (required ≤ e.agree)

/-- `merge_agreed_rows`. -/
def mergeAgreedRows (required : Nat) (sets : List (RowSet V)) : List V :=
  (agreedEntries docs required sets).map Entry.bestValue

/-- `merge_agreed_rows_meta`. -/
def mergeAgreedRowsMeta (required : Nat) (sets : List (RowSet V)) : List (CString × Int × V) :=
  (agreedEntries docs required sets).map fun e => (e.id, e.bestTs, e.bestValue)

/-- An entry of `merge_agreed_ids`. -/
structure IdEntry where
  id : CString
  seen : Nat

/-- Count an id under the first entry that has it, or under a fresh entry. -/
def recordId (entries : List IdEntry) (id : CString) : List IdEntry :=
  match entries with
  | [] => [⟨snprintf 512 id, 1⟩]
  | e :: es => if e.id = id then { e with seen := e.seen + 1 } :: es else e :: recordId es id

/-- `merge_agreed_ids`. -/
def mergeAgreedIds (required : Nat) (lists : List (List CString)) : List CString :=
  ((lists.flatten.foldl recordId []).filter fun e => decide (required ≤ e.seen)).map IdEntry.id

/-! ## The results by id -/

/-- The `(id, value)` results of a merge. -/
def agreedPairs (required : Nat) (sets : List (RowSet V)) : List (CString × V) :=
  (agreedEntries docs required sets).map fun e => (e.id, e.bestValue)

theorem mergeAgreedRows_eq (required : Nat) (sets : List (RowSet V)) :
    mergeAgreedRows docs required sets = (agreedPairs docs required sets).map Prod.snd := by
  rw [mergeAgreedRows, agreedPairs, List.map_map]
  rfl

theorem mergeAgreedRowsMeta_eq (required : Nat) (sets : List (RowSet V)) :
    (mergeAgreedRowsMeta docs required sets).map (fun e => (e.1, e.2.2)) =
      agreedPairs docs required sets := by
  rw [mergeAgreedRowsMeta, agreedPairs, List.map_map]
  rfl

/-- The kind of a vote: the fingerprint of its value. -/
def Documents.kind (r : Vote V) : F := docs.fingerprint r.value

/-- The entry a scan of the votes of `id` stands for. -/
def entryOf (id : CString) (s : Vote V × Nat) : Entry V F where
  id := id
  fp := docs.kind s.1
  bestValue := s.1.value
  bestTs := s.1.ts
  agree := s.2

/-- All rows of the replies that count, in order. -/
def votesOf (sets : List (RowSet V)) : List (Vote V) := sets.flatMap (RowSet.votes docs)

/-- The votes for one id. -/
def votesFor (id : CString) (votes : List (Vote V)) : List (Vote V) :=
  votes.filter fun r => r.id = id

/-- Nothing mixes with the entries of `id`: rows have this id, or no truncation to it. -/
def Unmixed (id : CString) (votes : List (Vote V)) : Prop :=
  ∀ r ∈ votes, snprintf 512 r.id = id → r.id = id

section

variable {docs}

theorem votesFor_append (id : CString) (l l' : List (Vote V)) :
    votesFor id (l ++ l') = votesFor id l ++ votesFor id l' :=
  List.filter_append ..

theorem record_id (e : Entry V F) (r : Vote V) : (e.record docs r).id = e.id := by
  unfold Entry.record
  dsimp only
  split <;> rfl

/-- An entry takes a row as the running best does. -/
theorem record_entryOf (id : CString) (s : Vote V × Nat) (r : Vote V) :
    (entryOf docs id s).record docs r =
      entryOf docs id (RunningBest.next docs.kind Vote.ts s r) := by
  unfold Entry.record RunningBest.next entryOf
  dsimp only [Documents.kind]
  split <;> rfl

omit [DecidableEq F] in
theorem first_eq_entryOf (r : Vote V) :
    Entry.first docs r = entryOf docs (snprintf 512 r.id) (r, 1) := rfl

/-- A row of another id, whose truncation is another one too, leaves the entries of `id`. -/
theorem filter_recordRow_of_ne {id : CString} {r : Vote V} (h : r.id ≠ id)
    (ht : snprintf 512 r.id ≠ id) (es : List (Entry V F)) :
    (recordRow docs es r).filter (fun e => decide (e.id = id)) =
      es.filter fun e => decide (e.id = id) := by
  induction es with
  | nil =>
    have : (Entry.first docs r).id ≠ id := ht
    simp [recordRow, this]
  | cons e es ih =>
    rw [recordRow]
    split
    · rename_i heq
      have hne : e.id ≠ id := fun h' => h (heq.symm.trans h')
      rw [List.filter_cons, List.filter_cons, record_id]
      simp [hne]
    · rw [List.filter_cons, List.filter_cons, ih]

/-- A row of `id` goes to the first of its entries. -/
theorem filter_recordRow_of_eq {id : CString} {r : Vote V} (h : r.id = id)
    (ht : snprintf 512 r.id = id) (es : List (Entry V F)) :
    (recordRow docs es r).filter (fun e => decide (e.id = id)) =
      match es.filter (fun e => decide (e.id = id)) with
      | [] => [Entry.first docs r]
      | e :: rest => e.record docs r :: rest := by
  induction es with
  | nil =>
    have : (Entry.first docs r).id = id := ht
    simp [recordRow, this]
  | cons e es ih =>
    rw [recordRow, h]
    by_cases heq : e.id = id
    · rw [if_pos heq, List.filter_cons, List.filter_cons, record_id]
      simp [heq]
    · rw [if_neg heq, List.filter_cons, List.filter_cons, ih]
      simp [heq]

/-- **The step**: one row moves the entry of its id as the running best moves. -/
theorem filter_recordRow {id : CString} {votes : List (Vote V)} {r : Vote V}
    {es : List (Entry V F)} (hlen : id.length < 512)
    (hr : snprintf 512 r.id = id → r.id = id)
    (h : es.filter (fun e => decide (e.id = id)) =
      (RunningBest.run docs.kind Vote.ts (votesFor id votes)).toList.map (entryOf docs id)) :
    (recordRow docs es r).filter (fun e => decide (e.id = id)) =
      (RunningBest.run docs.kind Vote.ts (votesFor id (votes ++ [r]))).toList.map
        (entryOf docs id) := by
  rw [votesFor_append]
  by_cases hid : r.id = id
  · have ht : snprintf 512 r.id = id := by rw [hid, snprintf_of_lt hlen]
    have hone : votesFor id [r] = [r] := by simp [votesFor, hid]
    rw [filter_recordRow_of_eq hid ht, h, hone, RunningBest.run_concat]
    cases RunningBest.run docs.kind Vote.ts (votesFor id votes) with
    | none =>
      rw [first_eq_entryOf, ht]
      rfl
    | some s =>
      show [(entryOf docs id s).record docs r] = _
      rw [record_entryOf]
      rfl
  · have hnone : votesFor id [r] = [] := by simp [votesFor, hid]
    rw [filter_recordRow_of_ne hid (mt hr hid), h, hnone, List.append_nil]

/-- **The run**: the entries of an unmixed id are the running best of its rows. -/
theorem filter_foldl_recordRow {id : CString} (hlen : id.length < 512) (votes : List (Vote V))
    (hmix : Unmixed id votes) :
    (votes.foldl (recordRow docs) []).filter (fun e => decide (e.id = id)) =
      (RunningBest.run docs.kind Vote.ts (votesFor id votes)).toList.map (entryOf docs id) := by
  induction votes using List.reverseRecOn with
  | nil => rfl
  | append_singleton votes r ih =>
    rw [List.foldl_append]
    have hpre : Unmixed id votes := fun x hx => hmix x (List.mem_append_left _ hx)
    exact filter_recordRow hlen
      (hmix r (List.mem_append_right _ (List.mem_singleton_self r))) (ih hpre)

/-- A result is an entry of its id with enough copies. -/
theorem mem_agreedPairs {required : Nat} {sets : List (RowSet V)} {id : CString} {v : V} :
    (id, v) ∈ agreedPairs docs required sets ↔
      ∃ e ∈ ((votesOf docs sets).foldl (recordRow docs) []).filter
        (fun e => decide (e.id = id)), required ≤ e.agree ∧ e.bestValue = v := by
  simp only [agreedPairs, agreedEntries, mergeEntries, votesOf, List.mem_map,
    List.mem_filter, decide_eq_true_eq, Prod.mk.injEq]
  constructor
  · rintro ⟨e, ⟨he, hreq⟩, hid, hv⟩
    exact ⟨e, ⟨he, hid⟩, hreq, hv⟩
  · rintro ⟨e, ⟨he, hid⟩, hreq, hv⟩
    exact ⟨e, ⟨he, hreq⟩, hid, hv⟩

/-- The result for an unmixed id is the outcome of the running best of its rows. -/
theorem mem_agreedPairs_iff {required : Nat} {sets : List (RowSet V)} {id : CString} {v : V}
    (hlen : id.length < 512) (hmix : Unmixed id (votesOf docs sets)) :
    (id, v) ∈ agreedPairs docs required sets ↔
      (RunningBest.outcome docs.kind Vote.ts required
        (votesFor id (votesOf docs sets))).map Vote.value = some v := by
  rw [mem_agreedPairs, filter_foldl_recordRow hlen _ hmix, RunningBest.outcome]
  cases RunningBest.run docs.kind Vote.ts (votesFor id (votesOf docs sets)) with
  | none => simp
  | some s =>
    obtain ⟨b, n⟩ := s
    by_cases hn : required ≤ n
    · simp [entryOf, hn]
    · simp [entryOf, hn]

/-! ## Ids that no row has -/

/-- A truncated id that no row has collects one entry for each row it truncates. -/
theorem filter_recordRow_truncated {id : CString} {r : Vote V} (es : List (Entry V F))
    (hes : ∀ e ∈ es, e.id.length < 512) (h : r.id ≠ id) :
    (recordRow docs es r).filter (fun e => decide (e.id = id)) =
      es.filter (fun e => decide (e.id = id)) ++
        if snprintf 512 r.id = id then [Entry.first docs r] else [] := by
  by_cases ht : snprintf 512 r.id = id
  · -- the id is too long to match an entry
    have hlong : ¬ r.id.length < 512 := fun hlt => h (by rw [← ht, snprintf_of_lt hlt])
    rw [if_pos ht]
    induction es with
    | nil =>
      have : (Entry.first docs r).id = id := ht
      simp [recordRow, this]
    | cons e es ih =>
      have hne : e.id ≠ r.id := fun heq => hlong (heq ▸ hes e List.mem_cons_self)
      rw [recordRow, if_neg hne, List.filter_cons, List.filter_cons,
        ih fun e' he' => hes e' (List.mem_cons_of_mem _ he')]
      split
      · rw [List.cons_append]
      · rfl
  · rw [if_neg ht, List.append_nil]
    exact filter_recordRow_of_ne h ht es

theorem length_id_recordRow {r : Vote V} {es : List (Entry V F)}
    (hes : ∀ e ∈ es, e.id.length < 512) : ∀ e ∈ recordRow docs es r, e.id.length < 512 := by
  induction es with
  | nil =>
    intro e he
    rw [recordRow, List.mem_singleton] at he
    rw [he]
    exact length_snprintf_lt (by decide) r.id
  | cons e es ih =>
    intro e' he'
    have hrest := ih fun x hx => hes x (List.mem_cons_of_mem _ hx)
    rw [recordRow] at he'
    split at he'
    · rcases List.mem_cons.mp he' with rfl | he'
      · rw [record_id]
        exact hes e List.mem_cons_self
      · exact hes e' (List.mem_cons_of_mem _ he')
    · rcases List.mem_cons.mp he' with rfl | he'
      · exact hes e' List.mem_cons_self
      · exact hrest e' he'

theorem length_id_foldl (votes : List (Vote V)) :
    ∀ e ∈ votes.foldl (recordRow docs) [], e.id.length < 512 := by
  induction votes using List.reverseRecOn with
  | nil => exact nofun
  | append_singleton votes r ih =>
    rw [List.foldl_append]
    exact length_id_recordRow ih

theorem filter_foldl_truncated {id : CString} (votes : List (Vote V))
    (h : ∀ r ∈ votes, r.id ≠ id) :
    (votes.foldl (recordRow docs) []).filter (fun e => decide (e.id = id)) =
      (votes.filter fun r => decide (snprintf 512 r.id = id)).map (Entry.first docs) := by
  induction votes using List.reverseRecOn with
  | nil => rfl
  | append_singleton votes r ih =>
    rw [List.foldl_append]
    show (recordRow docs (votes.foldl (recordRow docs) []) r).filter _ = _
    rw [filter_recordRow_truncated _ (length_id_foldl votes)
      (h r (List.mem_append_right _ (List.mem_singleton_self r))),
      ih fun x hx => h x (List.mem_append_left _ hx), List.filter_append, List.map_append]
    congr 1
    by_cases ht : snprintf 512 r.id = id
    · simp [ht]
    · simp [ht]

/-- The results of a truncated id that no row has: each row on its own, so at most one
copy has to agree. -/
theorem mem_agreedPairs_truncated {required : Nat} {sets : List (RowSet V)} {id : CString}
    {v : V} (h : ∀ r ∈ votesOf docs sets, r.id ≠ id) :
    (id, v) ∈ agreedPairs docs required sets ↔
      required ≤ 1 ∧ ∃ r ∈ votesOf docs sets, snprintf 512 r.id = id ∧ r.value = v := by
  rw [mem_agreedPairs, filter_foldl_truncated _ h]
  simp only [List.mem_map, List.mem_filter, decide_eq_true_eq]
  constructor
  · rintro ⟨e, ⟨r, ⟨hr, ht⟩, rfl⟩, hreq, hv⟩
    exact ⟨hreq, r, hr, ht, hv⟩
  · rintro ⟨hreq, r, hr, ht, hv⟩
    exact ⟨_, ⟨r, ⟨hr, ht⟩, rfl⟩, hreq, hv⟩

end

end EpsilonDB
