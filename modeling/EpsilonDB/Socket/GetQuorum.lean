import EpsilonDB.Socket.ReplRead
import EpsilonDB.Socket.MergeOrder

/-!
# A quorum get of any answers (`edb_repl_read_get`)

The peers answer a get with any JSON. The reader counts the documents it finds in the answers
by their fingerprints, and its own document last.

- `GetReply`: an answer as the reader looks at it.
- `GetAnswers`: what one get has to go by. There are no more responders than holders.
- `GetAnswers.result`: the value the get returns.
- `GetAnswers.holding`, `GetAnswers.absent`: the responders that hold a value, and those
  without the record.
- `result_eq_some_iff`: the value is the one that enough responders hold.
- `readGet_eq_result`: a get from copies of the shard is such a get.
-/

namespace EpsilonDB

/-- The `row` object of an answer: its timestamp if that is a number, and its value. -/
structure GetRow (V : Type) where
  timestamp : Option Int
  value : Option V

/-- An answer; none when its `row` is no object. -/
abbrev GetReply (V : Type) := Option (GetRow V)

variable {V F : Type} (docs : Documents V F)

/-- The document an answer has, and its timestamp. -/
def GetReply.document (r : GetReply V) : Option (V × Int) :=
  r.bind fun row => (row.value.filter docs.isObject).map fun v => (v, row.timestamp.getD 0)

/-- The answers to one get, and the reader's own copy if it is a holder. -/
structure GetAnswers (V : Type) where
  holders : Nat
  replies : List (GetReply V)
  selfHolder : Bool
  own : Option (V × Int)
  own_holder : own.isSome = true → selfHolder = true
  replies_le : replies.length ≤ maxReplies
  responses_le : replies.length + selfHolder.toNat ≤ holders

namespace GetAnswers

/-- `required`: see `read_quorum`. -/
def required (a : GetAnswers V) : Nat := a.holders / 2 + 1

/-- `responses`. -/
def responses (a : GetAnswers V) : Nat := a.replies.length + a.selfHolder.toNat

/-- The documents that are counted: those of the answers in their order, then the own one. -/
def documents (a : GetAnswers V) : List (V × Int) :=
  a.replies.filterMap (GetReply.document docs) ++ a.own.toList

/-- `absent`: the responders that report no record. -/
def absent (a : GetAnswers V) : Nat :=
  (if a.selfHolder && a.own.isNone then 1 else 0) +
    a.replies.countP fun r => (r.document docs).isNone

/-- `edb_repl_read_get`, once the answers are in. -/
def result [DecidableEq F] (a : GetAnswers V) : Option V :=
  if a.responses < a.required then none
  else if a.absent docs < a.required then
    (winner a.required (countVotes docs (a.documents docs))).map Group.sample
  else none

/-- The responders that hold exactly the value `v`. -/
def holding [DecidableEq V] (a : GetAnswers V) (v : V) : Nat :=
  (a.replies.countP fun r => decide ((r.document docs).map Prod.fst = some v)) +
    if a.own.map Prod.fst = some v then 1 else 0

/-- The same get with its answers in another order. -/
structure Reordered (a b : GetAnswers V) : Prop where
  replies : b.replies.Perm a.replies
  holders : b.holders = a.holders
  selfHolder : b.selfHolder = a.selfHolder
  own : b.own = a.own

/-! ## Counting -/

/-- Every responder has a document or none. -/
theorem absent_add_documents (a : GetAnswers V) :
    a.absent docs + (a.documents docs).length = a.responses := by
  have hreplies : (a.replies.countP fun r => (r.document docs).isNone) +
      (a.replies.filterMap (GetReply.document docs)).length = a.replies.length := by
    induction a.replies with
    | nil => rfl
    | cons r rs ih =>
      cases hr : r.document docs with
      | none =>
        simp only [List.countP_cons, List.filterMap_cons, hr, Option.isNone_none, if_true,
          List.length_cons]
        omega
      | some d =>
        simp only [List.countP_cons, List.filterMap_cons, hr, Option.isNone_some,
          Bool.false_eq_true, if_false, List.length_cons]
        omega
  have hown : (if a.selfHolder && a.own.isNone then 1 else 0) + a.own.toList.length =
      a.selfHolder.toNat := by
    cases hself : a.own with
    | none => cases a.selfHolder <;> rfl
    | some d =>
      rw [a.own_holder (by rw [hself]; rfl)]
      rfl
  rw [absent, documents, responses, List.length_append]
  omega

/-- Less than twice the required number respond. -/
theorem responses_lt (a : GetAnswers V) : a.responses < 2 * a.required := by
  have hle : a.responses ≤ a.holders := a.responses_le
  rw [required]
  omega

theorem length_documents_le (a : GetAnswers V) :
    (a.documents docs).length ≤ maxReplies + 1 := by
  have hsum := a.absent_add_documents docs
  have hreplies := a.replies_le
  have hone := a.selfHolder.toNat_le
  have hresponses : a.responses = a.replies.length + a.selfHolder.toNat := rfl
  omega

theorem length_documents_lt (a : GetAnswers V) :
    (a.documents docs).length < 2 * a.required := by
  have hsum := a.absent_add_documents docs
  have hlt := a.responses_lt
  omega

section Values

variable [DecidableEq V]

/-- The responders that hold a value are those whose document it is. -/
theorem countP_documents (a : GetAnswers V) (v : V) :
    ((a.documents docs).countP fun d => decide (d.1 = v)) = a.holding docs v := by
  have hreplies : ∀ rs : List (GetReply V),
      ((rs.filterMap (GetReply.document docs)).countP fun d => decide (d.1 = v)) =
        rs.countP fun r => decide ((r.document docs).map Prod.fst = some v) := by
    intro rs
    rw [List.countP_filterMap]
    refine List.countP_congr fun r _ => ?_
    cases r.document docs <;> simp
  rw [documents, holding, List.countP_append, hreplies]
  cases a.own <;> simp [List.countP_cons]

/-- Two values cannot both have enough holders. -/
theorem value_unique (a : GetAnswers V) {v w : V} (hv : a.required ≤ a.holding docs v)
    (hw : a.required ≤ a.holding docs w) : v = w := by
  by_contra hne
  have hmost := a.length_documents_lt docs
  rw [← countP_documents] at hv hw
  -- a document that is `v` is not `w`
  have hrest : ((a.documents docs).countP fun d => decide (d.1 = w)) ≤
      (a.documents docs).countP fun d => decide ¬ decide (d.1 = v) = true := by
    refine List.countP_mono_left fun d _ hd => ?_
    rw [of_decide_eq_true hd]
    simpa using Ne.symm hne
  have hall := List.length_eq_countP_add_countP (fun d : V × Int => decide (d.1 = v))
    (l := a.documents docs)
  omega

/-- A value that enough responders hold leaves too few without the record. -/
theorem absent_lt (a : GetAnswers V) {v : V} (hv : a.required ≤ a.holding docs v) :
    a.absent docs < a.required ∧ a.required ≤ a.responses := by
  have hsum := a.absent_add_documents docs
  have hlt := a.responses_lt
  have hle := List.countP_le_length (p := fun d : V × Int => decide (d.1 = v))
    (l := a.documents docs)
  rw [countP_documents] at hle
  omega

variable [DecidableEq F] {docs}

/-- Documents with the fingerprint of a value are documents with this value. -/
theorem ballotsFor_fingerprint (hinj : Function.Injective docs.fingerprint)
    (ballots : List (V × Int)) (v : V) :
    ballotsFor docs (docs.fingerprint v) ballots =
      ballots.filter fun d => decide (d.1 = v) := by
  refine List.filter_congr fun d _ => ?_
  rw [decide_eq_decide]
  exact hinj.eq_iff

/-- **The result** is the value that enough responders hold. -/
theorem result_eq_some_iff (hinj : Function.Injective docs.fingerprint) (a : GetAnswers V)
    (v : V) : a.result docs = some v ↔ a.required ≤ a.holding docs v := by
  have hwins : (winner a.required (countVotes docs (a.documents docs))).map Group.sample = some v ↔
      a.required ≤ a.holding docs v := by
    rw [winner_eq_some_iff (a.length_documents_le docs) (a.length_documents_lt docs),
      ballotsFor_fingerprint hinj, ← countP_documents, List.countP_eq_length_filter]
    constructor
    · rintro ⟨d, ds, hb, -, hreq⟩
      rwa [hb, List.length_cons]
    · intro hreq
      cases hb : (a.documents docs).filter fun d => decide (d.1 = v) with
      | nil =>
        rw [hb, required] at hreq
        cases hreq
      | cons d ds =>
        have hd : d ∈ (a.documents docs).filter fun d => decide (d.1 = v) :=
          hb ▸ List.mem_cons_self
        rw [hb, List.length_cons] at hreq
        exact ⟨d, ds, rfl, of_decide_eq_true (List.mem_filter.mp hd).2, hreq⟩
  rw [result]
  constructor
  · intro h
    split at h
    · cases h
    · split at h
      · exact hwins.mp h
      · cases h
  · intro hreq
    obtain ⟨habsent, hresponses⟩ := a.absent_lt docs hreq
    rw [if_neg (not_lt.mpr hresponses), if_pos habsent]
    exact hwins.mpr hreq

omit [DecidableEq F] in
/-- The holders of a value do not depend on the order of the answers. -/
theorem Reordered.holding_eq {a b : GetAnswers V} (h : Reordered a b) (v : V) :
    b.holding docs v = a.holding docs v := by
  rw [holding, holding, h.replies.countP_eq, h.own]

/-- **A quorum get** returns only a value that enough responders hold, of which there is at
most one, in whatever order the answers come, and nothing when enough of them report the
record absent. -/
theorem result_sound (hinj : Function.Injective docs.fingerprint) (a : GetAnswers V) :
    (∀ v, a.result docs = some v → a.required ≤ a.holding docs v) ∧
      (∀ v w, a.required ≤ a.holding docs v → a.required ≤ a.holding docs w → v = w) ∧
      (∀ b, Reordered a b → b.result docs = a.result docs) ∧
      (a.required ≤ a.absent docs → a.result docs = none) := by
  refine ⟨fun v => (result_eq_some_iff hinj a v).mp, fun v w => a.value_unique docs,
    fun b hb => ?_, fun habsent => ?_⟩
  · refine Option.ext fun v => ?_
    have hrequired : b.required = a.required := by rw [required, required, hb.holders]
    rw [result_eq_some_iff hinj, result_eq_some_iff hinj, hb.holding_eq, hrequired]
  · rw [result, if_neg (not_lt.mpr habsent)]
    exact ite_self _

end Values

/-- Two of three holders answer like the reader, and one has no record. -/
def threeAnswers : GetAnswers CString where
  holders := 3
  replies := [some ⟨some 5, some (textObject 1)⟩, none]
  selfHolder := true
  own := some (textObject 1, 6)
  own_holder := fun _ => rfl
  replies_le := by decide
  responses_le := by decide

theorem result_sound_threeAnswers :
    Function.Injective textDocuments.fingerprint ∧
      threeAnswers.result textDocuments = some (textObject 1) ∧
        threeAnswers.required ≤ threeAnswers.holding textDocuments (textObject 1) := by
  have hsound := result_sound (show Function.Injective textDocuments.fingerprint from
    Function.injective_id) threeAnswers
  exact ⟨Function.injective_id, by decide, hsound.1 _ (by decide)⟩

end GetAnswers

/-! ## Gets from copies of the shard -/

/-- The answer of a copy. -/
def Replica.reply (x : Replica) (id : CString) : GetReply V :=
  (x.get docs id).map fun d => ⟨some d.2, some d.1⟩

theorem document_reply (x : Replica) (id : CString) :
    GetReply.document docs (x.reply docs id) = x.object docs id := by
  rw [Replica.reply, Replica.object]
  cases x.get docs id with
  | none => rfl
  | some d =>
    obtain ⟨v, ts⟩ := d
    cases hobj : docs.isObject v <;> simp [GetReply.document, Option.filter, hobj]

/-- The answers of the copies of a read. -/
def ReadSet.getAnswers (rs : ReadSet) (id : CString) : GetAnswers V where
  holders := rs.holders
  replies := rs.remotes.map fun x => x.reply docs id
  selfHolder := rs.own.isSome
  own := rs.own.bind (Replica.get docs · id)
  own_holder := by
    intro h
    cases hown : rs.own with
    | none =>
      rw [hown] at h
      cases h
    | some x => rfl
  replies_le := (List.length_map _).trans_le rs.jobs_le
  responses_le := by
    have hle := rs.answers_le
    rw [List.length_map]
    cases hown : rs.own with
    | none =>
      rw [hown, Option.toList_none, List.length_nil] at hle
      exact (Nat.add_zero _).trans_le ((Nat.zero_add _).symm.trans_le hle)
    | some x =>
      rw [hown, Option.toList_some, List.length_singleton] at hle
      exact (Nat.add_comm _ _).trans_le hle

/-- **A get from copies** returns what the get of their answers does. -/
theorem readGet_eq_result [DecidableEq F] (rs : ReadSet) (id : CString) :
    readGet docs rs id = (rs.getAnswers docs id).result docs := by
  have hdocuments : (rs.getAnswers docs id).documents docs = rs.ballots docs id := by
    show (rs.remotes.map fun x => x.reply docs id).filterMap _ ++ _ = _ ++ _
    rw [List.filterMap_map]
    congr 1
    exact List.filterMap_congr fun x _ => document_reply docs x id
  have habsent : (rs.getAnswers docs id).absent docs = rs.absent docs id := by
    show (if rs.own.isSome && _ then 1 else 0) +
      (rs.remotes.map fun x => x.reply docs id).countP _ = _
    rw [ReadSet.absent, List.countP_map, List.countP_eq_length_filter]
    congr 3
    funext x
    exact congrArg Option.isNone (document_reply docs x id)
  have hresponses : (rs.getAnswers docs id).responses = rs.copies.length := by
    have hsum := (rs.getAnswers docs id).absent_add_documents docs
    rw [habsent, hdocuments, absent_add_ballots] at hsum
    exact hsum.symm
  have hrequired : (rs.getAnswers docs id).required = rs.required := rfl
  rw [readGet, GetAnswers.result, hdocuments, habsent, hresponses, hrequired, ReadSet.reached]
  by_cases hreached : rs.required ≤ rs.copies.length
  · simp [hreached, not_lt.mpr hreached]
  · simp [hreached, not_le.mp hreached]

end EpsilonDB
