import EpsilonDB.Socket.ReplMerge

/-!
# When a quorum merge depends on the order of the replies

The merge counts agreement only while a value leads. A stale copy that comes before the
newest value never counts for it, and of two values with the newest timestamp the first
one wins, so the order of the replies shows in the result.

- `OrderIndependent`: every order of the replies gives the same `(id, value)` results.
- `SettledReplies`: for each id, the newest copies are too few to be accepted in any order,
  or they share one value with enough copies newer than every other value.
- `exists_perm_filterMap`: with one row of an id a reply, all orders of its rows are orders
  of the replies.
- `orderIndependent_iff`: settled replies are order independent, and replies of the shape
  a shard table answers are order independent only if settled.
-/

namespace EpsilonDB

variable {V F : Type} [DecidableEq F] (docs : Documents V F)

/-- Every order of the replies gives the same `(id, value)` results. -/
def OrderIndependent (required : Nat) (sets : List (RowSet V)) : Prop :=
  ∀ sets' : List (RowSet V), sets'.Perm sets →
    ∀ x, x ∈ agreedPairs docs required sets' ↔ x ∈ agreedPairs docs required sets

/-- No id of a row is the truncation of a longer one, and the copies of every id that fits
an entry are settled. -/
def SettledReplies (required : Nat) (sets : List (RowSet V)) : Prop :=
  (∀ r ∈ votesOf docs sets, Unmixed r.id (votesOf docs sets)) ∧
    ∀ id : CString, id.length < 512 →
      RunningBest.Settled Vote.ts docs.fingerprint Vote.value required
        (votesFor id (votesOf docs sets))

/-- What a shard table answers, where `id` is the primary key: each id at most once a
reply. The front ends keep ids below 512 bytes. -/
def TableReplies (sets : List (RowSet V)) : Prop :=
  ∀ s ∈ sets, ((RowSet.votes docs s).map Vote.id).Nodup ∧
    ∀ r ∈ RowSet.votes docs s, r.id.length < 512

/-! ## Orders of the rows and of the replies -/

/-- Every order of the picked elements is picked from some order of the list. -/
theorem exists_perm_filterMap {α β : Type} (f : α → Option β) (l : List α) (l' : List β)
    (h : l'.Perm (l.filterMap f)) : ∃ l₂ : List α, l₂.Perm l ∧ l₂.filterMap f = l' := by
  induction l' generalizing l with
  | nil => exact ⟨l, List.Perm.refl l, List.nil_perm.mp h⟩
  | cons x l' ih =>
    obtain ⟨a, ha, hfa⟩ := List.mem_filterMap.mp (h.mem_iff.mp List.mem_cons_self)
    obtain ⟨s, t, rfl⟩ := List.append_of_mem ha
    have hmid : (s ++ a :: t).Perm (a :: (s ++ t)) := List.perm_middle
    have hrest : (x :: l').Perm (x :: (s ++ t).filterMap f) := by
      have := h.trans (hmid.filterMap f)
      rwa [List.filterMap_cons_some hfa] at this
    obtain ⟨l₂, hperm, heq⟩ := ih (s ++ t) hrest.cons_inv
    refine ⟨a :: l₂, (hperm.cons a).trans hmid.symm, ?_⟩
    rw [List.filterMap_cons_some hfa, heq]

/-- With distinct keys, at most one element has a given key. -/
theorem filter_key_eq_toList {α : Type} (key : α → CString) (id : CString) (l : List α)
    (h : (l.map key).Nodup) :
    l.filter (fun x => decide (key x = id)) =
      ((l.filter fun x => decide (key x = id)).head?).toList := by
  have hnodup : ((l.filter fun x => decide (key x = id)).map key).Nodup :=
    h.sublist (List.filter_sublist.map key)
  cases hcase : l.filter fun x => decide (key x = id) with
  | nil => rfl
  | cons x rest =>
    cases rest with
    | nil => rfl
    | cons y rest =>
      -- two elements would have the same key
      have hkey : ∀ z ∈ l.filter (fun x => decide (key x = id)), key z = id := fun z hz =>
        by simpa using (List.mem_filter.mp hz).2
      rw [hcase] at hnodup hkey
      have hx := hkey x List.mem_cons_self
      have hy := hkey y (List.mem_cons_of_mem _ List.mem_cons_self)
      refine absurd (List.nodup_cons.mp hnodup).1 (not_not.mpr ?_)
      rw [hx, ← hy]
      exact List.mem_cons_self

/-- The vote of a reply for an id. -/
def voteFor (id : CString) (s : RowSet V) : Option (Vote V) :=
  (votesFor id (RowSet.votes docs s)).head?

section

variable {docs} {required : Nat} {sets sets' : List (RowSet V)}

omit [DecidableEq F] in
theorem votesFor_votesOf (h : TableReplies docs sets) (id : CString) :
    votesFor id (votesOf docs sets) = sets.filterMap (voteFor docs id) := by
  rw [votesFor, votesOf, List.filter_flatMap, List.filterMap_eq_flatMap_toList]
  refine List.flatMap_congr fun s hs => ?_
  exact filter_key_eq_toList Vote.id id _ (h s hs).1

omit [DecidableEq F] in
variable (docs) in
theorem votesOf_perm (h : sets'.Perm sets) : (votesOf docs sets').Perm (votesOf docs sets) :=
  h.flatMap_right _

omit [DecidableEq F] in
theorem Unmixed.perm {id : CString} {l l' : List (Vote V)} (h : Unmixed id l)
    (hp : l'.Perm l) : Unmixed id l' :=
  fun r hr => h r (hp.mem_iff.mp hr)

omit [DecidableEq F] in
/-- Ids that fit an entry are never mixed up. -/
theorem unmixed_of_table (h : TableReplies docs sets) (id : CString) :
    Unmixed id (votesOf docs sets) := by
  intro r hr ht
  obtain ⟨s, hs, hr⟩ := List.mem_flatMap.mp hr
  rwa [snprintf_of_lt ((h s hs).2 r hr)] at ht

omit [DecidableEq F] in
theorem TableReplies.perm (h : TableReplies docs sets) (hp : sets'.Perm sets) :
    TableReplies docs sets' :=
  fun s hs => h s (hp.mem_iff.mp hs)

theorem length_id_of_mem_agreedPairs {id : CString} {v : V}
    (h : (id, v) ∈ agreedPairs docs required sets) : id.length < 512 := by
  obtain ⟨e, he, -, -⟩ := mem_agreedPairs.mp h
  obtain ⟨he, hid⟩ := List.mem_filter.mp he
  rw [← of_decide_eq_true hid]
  exact length_id_foldl _ e he

/-- **Sufficiency**, for arbitrary replies. -/
theorem orderIndependent_of_settled (h : SettledReplies docs required sets) :
    OrderIndependent docs required sets := by
  rintro sets' hp ⟨id, v⟩
  have hvotes := votesOf_perm docs hp
  by_cases hlen : id.length < 512
  · by_cases hex : ∃ r ∈ votesOf docs sets, r.id = id
    · -- the rows of a settled id
      obtain ⟨r, hr, rfl⟩ := hex
      have hmix := h.1 r hr
      rw [mem_agreedPairs_iff hlen hmix, mem_agreedPairs_iff hlen (hmix.perm hvotes)]
      have hsame : (RunningBest.outcome docs.kind Vote.ts required
          (votesFor r.id (votesOf docs sets'))).map Vote.value =
          (RunningBest.outcome docs.kind Vote.ts required
            (votesFor r.id (votesOf docs sets))).map Vote.value :=
        (RunningBest.outcome_perm_iff required _).mpr (h.2 r.id hlen) _ (hvotes.filter _)
      rw [hsame]
    · -- only truncations: each row is a result of its own
      have hno : ∀ r ∈ votesOf docs sets, r.id ≠ id := fun r hr heq => hex ⟨r, hr, heq⟩
      rw [mem_agreedPairs_truncated hno,
        mem_agreedPairs_truncated fun r hr => hno r (hvotes.mem_iff.mp hr)]
      simp only [hvotes.mem_iff]
  · exact iff_of_false (fun hm => hlen (length_id_of_mem_agreedPairs hm))
      fun hm => hlen (length_id_of_mem_agreedPairs hm)

/-- **Necessity**, for replies of shard tables. -/
theorem settled_of_orderIndependent (htable : TableReplies docs sets)
    (h : OrderIndependent docs required sets) : SettledReplies docs required sets := by
  refine ⟨fun r _ => unmixed_of_table htable r.id, fun id hlen => ?_⟩
  refine (RunningBest.outcome_perm_iff required _).mp fun l' hl' => ?_
  rw [votesFor_votesOf htable] at hl'
  obtain ⟨sets', hp, hsets'⟩ := exists_perm_filterMap _ sets l' hl'
  have htable' := htable.perm hp
  refine Option.ext fun v => ?_
  have := h sets' hp (id, v)
  rw [mem_agreedPairs_iff hlen (unmixed_of_table htable id),
    mem_agreedPairs_iff hlen (unmixed_of_table htable' id), votesFor_votesOf htable',
    hsets'] at this
  exact this

end

/-- **Order independence of the merge, exactly.** -/
theorem orderIndependent_iff (required : Nat) (sets : List (RowSet V)) :
    (SettledReplies docs required sets → OrderIndependent docs required sets) ∧
      (TableReplies docs sets → OrderIndependent docs required sets →
        SettledReplies docs required sets) :=
  ⟨orderIndependent_of_settled, settled_of_orderIndependent⟩

/-- Texts as documents: an object opens with a brace, and a text is its own fingerprint. -/
def textDocuments : Documents CString CString where
  parse := some
  isObject := fun v => decide (v.head? = some 123)
  fingerprint := id

/-- The document `n`. -/
def textObject (n : Nat) : CString := cstr "\x7b\"n\":" ++ cstr (toString n) ++ cstr "\x7d"

/-- A reply with one row for record `r`. -/
def oneRow (ts : Int) (n : Nat) : RowSet CString :=
  some [⟨some (cstr "r"), some ts, some (textObject n)⟩]

/-- Two copies of a value and one of another, all from second 5, with 2 required: the value
is returned unless the other copy comes first. -/
theorem first_copy_decides :
    ¬ OrderIndependent textDocuments 2 [oneRow 5 1, oneRow 5 2, oneRow 5 2] := by
  intro h
  have := h [oneRow 5 2, oneRow 5 2, oneRow 5 1] (by decide) (cstr "r", textObject 2)
  exact absurd this (by decide)

end EpsilonDB
