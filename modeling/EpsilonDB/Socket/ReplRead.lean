import EpsilonDB.Socket.Repl
import EpsilonDB.Socket.ReplMerge

/-!
# Quorum reads (`socket/epsilon_repl_read.c`)

A read of a database replicated more than once asks the reachable holders of the shard
and counts what they agree on. The reader's own copy takes part when it is a holder.

- `Replica`: a node's copy of the shard, read at the node's clock. Its replies are those of
  `api_read_request`, whose documents reach the reader as they are.
- `ReadSet`: the copies that answer one read. At most the holders answer, and at most
  `MAX_REPLIES` of the others.
- `readGet`, `readIds`, `readRows`: the three ways the copies are counted.
- `edbReplReadGet`, `edbReplReadIds`, `edbReplReadQuery`: the reads of a node.
- `readGet_eq_some_iff`: a get finds what a majority of the ballots names.
-/

namespace EpsilonDB

/-- `MAX_REPLIES`. -/
def maxReplies : Nat := 16

/-- A node's copy of a shard and its clock. -/
structure Replica where
  shard : Shard
  now : Int

variable {V F : Type} [DecidableEq F] (docs : Documents V F)

namespace Replica

/-- `edb_get_ts`, and the `get` reply. -/
def get (x : Replica) (id : CString) : Option (V × Int) :=
  edbShardGetTs docs.parse x.now x.shard id

/-- `edb_ids`, and the `ids` reply. -/
def ids (x : Replica) (filters : Option (V → Bool)) : List CString :=
  edbShardIds docs.parse x.now filters x.shard

/-- `edb_query_ts`, and the `query_ts` reply. -/
def rows (x : Replica) (filters : Option (V → Bool)) : RowSet V :=
  some ((edbShardQueryTs docs.parse x.now filters x.shard).map fun e =>
    ⟨some e.1, some e.2.1, some e.2.2⟩)

/-- The document of a `get` reply, when it is an object. -/
def object (x : Replica) (id : CString) : Option (V × Int) :=
  (x.get docs id).filter fun d => docs.isObject d.1

end Replica

/-! ## Counting the answers -/

/-- The copies that answer a read: the reader's own when it is a holder, and those of the
other answering holders in the order of the peers table. -/
structure ReadSet where
  holders : Nat
  own : Option Replica
  remotes : List Replica
  answers_le : own.toList.length + remotes.length ≤ holders
  jobs_le : remotes.length ≤ maxReplies

namespace ReadSet

/-- `read_quorum`. -/
def required (rs : ReadSet) : Nat := rs.holders / 2 + 1

/-- All answering copies, the reader's own first. -/
def copies (rs : ReadSet) : List Replica := rs.own.toList ++ rs.remotes

/-- Enough copies answer. -/
def reached (rs : ReadSet) : Bool := decide (rs.required ≤ rs.copies.length)

theorem length_copies_lt (rs : ReadSet) : rs.copies.length < 2 * rs.required := by
  have := rs.answers_le
  rw [copies, List.length_append, required]
  omega

theorem length_copies_le (rs : ReadSet) : rs.copies.length ≤ maxReplies + 1 := by
  have hjobs := rs.jobs_le
  have hown : rs.own.toList.length ≤ 1 := by cases rs.own <;> simp
  rw [copies, List.length_append]
  omega

end ReadSet

/-- `group`: a value and its votes. -/
structure Group (V F : Type) where
  fp : F
  ts : Int
  sample : V
  votes : Nat

/-- Vote for the first group of the document, or for a fresh one while there is room. -/
def castVote (room : Nat) (groups : List (Group V F)) (d : V × Int) : List (Group V F) :=
  match groups with
  | [] => if 0 < room then [⟨docs.fingerprint d.1, max 0 d.2, d.1, 1⟩] else []
  | g :: gs =>
    if g.fp = docs.fingerprint d.1 then { g with votes := g.votes + 1, ts := max g.ts d.2 } :: gs
    else g :: castVote (room - 1) gs d

/-- The groups of the documents, in order. -/
def countVotes (ballots : List (V × Int)) : List (Group V F) :=
  ballots.foldl (castVote docs (maxReplies + 1)) []

/-- The group with enough votes, the newest one if there were several. -/
def winner (required : Nat) (groups : List (Group V F)) : Option (Group V F) :=
  groups.foldl (fun w g =>
    if required ≤ g.votes ∧ w.all (fun w => decide (w.ts < g.ts)) = true then some g else w) none

/-- The documents a get counts: the objects of the others, then the own document. -/
def ReadSet.ballots (rs : ReadSet) (id : CString) : List (V × Int) :=
  rs.remotes.filterMap (Replica.object docs · id) ++ (rs.own.bind (Replica.get docs · id)).toList

/-- The copies a get counts as absent. -/
def ReadSet.absent (rs : ReadSet) (id : CString) : Nat :=
  (if rs.own.isSome && (rs.own.bind (Replica.get docs · id)).isNone then 1 else 0) +
    (rs.remotes.filter fun x => (x.object docs id).isNone).length

/-- The answer of `edb_repl_read_get` where a quorum is asked. -/
def readGet (rs : ReadSet) (id : CString) : Option V :=
  if rs.reached && decide (rs.absent docs id < rs.required) then
    (winner rs.required (countVotes docs (rs.ballots docs id))).map Group.sample
  else none

/-- The answer of `edb_repl_read_ids`; NULL is no id. -/
def readIds (rs : ReadSet) (filters : Option (V → Bool)) : List CString :=
  if rs.reached then mergeAgreedIds rs.required (rs.copies.map (Replica.ids docs · filters))
  else []

/-- The answer of `edb_repl_read_query`. -/
def readRows (rs : ReadSet) (filters : Option (V → Bool)) : List V :=
  if rs.reached then mergeAgreedRows docs rs.required (rs.copies.map (Replica.rows docs · filters))
  else []

/-- The `(id, value)` results behind `readRows`. -/
def readPairs (rs : ReadSet) (filters : Option (V → Bool)) : List (CString × V) :=
  if rs.reached then agreedPairs docs rs.required (rs.copies.map (Replica.rows docs · filters))
  else []

theorem readRows_eq (rs : ReadSet) (filters : Option (V → Bool)) :
    readRows docs rs filters = (readPairs docs rs filters).map Prod.snd := by
  rw [readRows, readPairs]
  split
  · exact mergeAgreedRows_eq ..
  · rfl

/-! ## The reads of a node -/

section Node

variable (shardKey : CString → CString → CString)

/-- `quorum_applies`. -/
def quorumApplies {x : NodeId} (n : ReplNode x) (db : CString) : Bool :=
  match n.databases db with
  | some rf => decide (1 < rf)
  | none => false

/-- The peers `query_all` asks. -/
def queryPeers {x : NodeId} (n : ReplNode x) (db partition keyspace : CString) :
    List PeerInfo :=
  let holders := holderIds shardKey n.cluster partition keyspace
    (replicationFactor n.databases db)
  (n.peers.filter fun p => p.id ≠ x && p.id ∈ holders && p.dialable).take maxReplies

/-- The holders a read counts. -/
def ReplNode.readHolders {x : NodeId} (n : ReplNode x) (db partition keyspace : CString) :
    List NodeId :=
  holderIds shardKey n.cluster partition keyspace (replicationFactor n.databases db)

theorem queryPeers_subset {x : NodeId} (n : ReplNode x) (db partition keyspace : CString) :
    ∀ p ∈ queryPeers shardKey n db partition keyspace,
      p.id ≠ x ∧ p.id ∈ n.readHolders shardKey db partition keyspace := by
  intro p hp
  have hp := (List.mem_filter.mp (List.mem_of_mem_take hp)).2
  rw [Bool.and_eq_true, Bool.and_eq_true, decide_eq_true_eq, decide_eq_true_eq] at hp
  exact hp.1

theorem nodup_queryPeers {x : NodeId} (n : ReplNode x) (db partition keyspace : CString) :
    ((queryPeers shardKey n db partition keyspace).map PeerInfo.id).Nodup :=
  (n.cluster.peers.nodup.sublist ((List.take_sublist _ _).map _)).sublist
    (((List.take_sublist _ _).trans List.filter_sublist).map _)

/-- The answering peers are holders, and the node itself is not among them. -/
theorem length_answers_le {x : NodeId} (n : ReplNode x) (answers : NodeId → Bool)
    (db partition keyspace : CString) :
    (if x ∈ n.readHolders shardKey db partition keyspace then 1 else 0) +
      ((queryPeers shardKey n db partition keyspace).filter fun p => answers p.id).length ≤
        (n.readHolders shardKey db partition keyspace).length := by
  set holders := n.readHolders shardKey db partition keyspace
  set asked := (queryPeers shardKey n db partition keyspace).filter fun p => answers p.id
  have hids : (asked.map PeerInfo.id).Nodup :=
    (nodup_queryPeers shardKey n db partition keyspace).sublist (List.filter_sublist.map _)
  have hsub : ∀ y ∈ asked.map PeerInfo.id, y ≠ x ∧ y ∈ holders := by
    intro y hy
    obtain ⟨p, hp, rfl⟩ := List.mem_map.mp hy
    exact queryPeers_subset shardKey n db partition keyspace p (List.mem_of_mem_filter hp)
  rw [← List.length_map PeerInfo.id]
  split
  · rename_i hself
    have hcons : (x :: asked.map PeerInfo.id).Nodup :=
      List.nodup_cons.mpr ⟨fun hmem => (hsub x hmem).1 rfl, hids⟩
    have hle : (x :: asked.map PeerInfo.id).length ≤ holders.length :=
      (hcons.subperm fun y hy => by
        rcases List.mem_cons.mp hy with rfl | hy
        · exact hself
        · exact (hsub y hy).2).length_le
    rw [List.length_cons] at hle
    omega
  · have hle : (asked.map PeerInfo.id).length ≤ holders.length :=
      (hids.subperm fun y hy => (hsub y hy).2).length_le
    omega

/-- The copies node `self` counts for a read, when `answers` says which peers reply. A node
that finds no holder counts its own copy alone. -/
def readSet (w : World) (self : NodeId) (clock : NodeId → Int) (answers : NodeId → Bool)
    (db partition keyspace : CString) : ReadSet :=
  let n := w self
  let key := shardKey partition keyspace
  let holders := n.readHolders shardKey db partition keyspace
  let asked := (queryPeers shardKey n db partition keyspace).filter fun p => answers p.id
  { holders := max 1 holders.length
    own := if holders.length = 0 ∨ self ∈ holders then some ⟨n.engine key, clock self⟩ else none
    remotes := asked.map fun p => ⟨(w p.id).engine key, clock p.id⟩
    answers_le := by
      have hle := length_answers_le shardKey n answers db partition keyspace
      rw [List.length_map]
      by_cases hself : self ∈ holders
      · rw [if_pos hself] at hle
        rw [if_pos (Or.inr hself), Option.toList_some, List.length_singleton]
        exact hle.trans (le_max_right ..)
      · rw [if_neg hself] at hle
        by_cases hnil : holders.length = 0
        · have hasked : asked.length ≤ 0 := by
            rw [← hnil]
            exact (Nat.le_add_left _ _).trans hle
          rw [if_pos (Or.inl hnil), Option.toList_some, List.length_singleton]
          exact (Nat.add_le_add_left hasked 1).trans (le_max_left ..)
        · rw [if_neg (not_or.mpr ⟨hnil, hself⟩), Option.toList_none, List.length_nil]
          exact hle.trans (le_max_right ..)
    jobs_le := by
      rw [List.length_map]
      exact (List.length_filter_le _ _).trans (List.length_take_le _ _) }

/-- `edb_repl_read_get`. -/
def edbReplReadGet (w : World) (self : NodeId) (clock : NodeId → Int)
    (answers : NodeId → Bool) (db partition keyspace id : CString) : Option V :=
  if quorumApplies (w self) db then
    readGet docs (readSet shardKey w self clock answers db partition keyspace) id
  else
    (Replica.get docs ⟨(w self).engine (shardKey partition keyspace), clock self⟩ id).map Prod.fst

/-- `edb_repl_read_ids`. -/
def edbReplReadIds (w : World) (self : NodeId) (clock : NodeId → Int)
    (answers : NodeId → Bool) (db partition keyspace : CString)
    (filters : Option (V → Bool)) : List CString :=
  if quorumApplies (w self) db then
    readIds docs (readSet shardKey w self clock answers db partition keyspace) filters
  else
    Replica.ids docs ⟨(w self).engine (shardKey partition keyspace), clock self⟩ filters

/-- `edb_repl_read_query`. -/
def edbReplReadQuery (w : World) (self : NodeId) (clock : NodeId → Int)
    (answers : NodeId → Bool) (db partition keyspace : CString)
    (filters : Option (V → Bool)) : List V :=
  if quorumApplies (w self) db then
    readRows docs (readSet shardKey w self clock answers db partition keyspace) filters
  else
    (edbShardQueryTs docs.parse (clock self) filters
      ((w self).engine (shardKey partition keyspace))).map fun e => e.2.2

end Node

/-! ## What a get finds -/

section Get

variable {docs}

theorem length_castVote_le (room : Nat) (groups : List (Group V F)) (d : V × Int) :
    (castVote docs room groups d).length ≤ groups.length + 1 := by
  induction groups generalizing room with
  | nil =>
    rw [castVote]
    split <;> simp
  | cons g gs ih =>
    rw [castVote]
    split
    · simp
    · have := ih (room - 1)
      simp only [List.length_cons]
      omega

variable (docs) in
theorem length_countVotes_le (ballots : List (V × Int)) :
    (countVotes docs ballots).length ≤ ballots.length := by
  induction ballots using List.reverseRecOn with
  | nil => exact le_rfl
  | append_singleton ballots d ih =>
    rw [countVotes, List.foldl_append, List.length_append, List.length_singleton]
    exact (length_castVote_le ..).trans (Nat.add_le_add_right ih 1)

/-- What a group says about its value. -/
def Group.tally (g : Group V F) : V × Nat := (g.sample, g.votes)

/-- The ballots of a fingerprint. -/
def ballotsFor (docs : Documents V F) (f : F) (ballots : List (V × Int)) : List (V × Int) :=
  ballots.filter fun d => docs.fingerprint d.1 = f

/-- The tally of some ballots: the first names the sample, and all count. -/
def tallyOf (ballots : List (V × Int)) : List (V × Nat) :=
  match ballots with
  | [] => []
  | d :: ds => [(d.1, ds.length + 1)]

theorem tally_castVote_of_ne {f : F} {d : V × Int} (h : docs.fingerprint d.1 ≠ f) (room : Nat)
    (groups : List (Group V F)) :
    ((castVote docs room groups d).filter fun g => decide (g.fp = f)).map Group.tally =
      (groups.filter fun g => decide (g.fp = f)).map Group.tally := by
  induction groups generalizing room with
  | nil =>
    rw [castVote]
    split
    · simp [h]
    · rfl
  | cons g gs ih =>
    rw [castVote]
    split
    · rename_i heq
      have hne : g.fp ≠ f := fun hg => h (heq.symm.trans hg)
      simp [hne]
    · rw [List.filter_cons, List.filter_cons]
      split
      · rw [List.map_cons, List.map_cons, ih]
      · exact ih _

theorem tally_castVote_of_eq {f : F} {d : V × Int} (h : docs.fingerprint d.1 = f) (room : Nat)
    (groups : List (Group V F)) (hroom : groups.length < room) :
    ((castVote docs room groups d).filter fun g => decide (g.fp = f)).map Group.tally =
      match (groups.filter fun g => decide (g.fp = f)).map Group.tally with
      | [] => [(d.1, 1)]
      | t :: ts => (t.1, t.2 + 1) :: ts := by
  induction groups generalizing room with
  | nil =>
    rw [castVote, if_pos (by simpa using hroom)]
    simp [h, Group.tally]
  | cons g gs ih =>
    rw [castVote, h]
    by_cases hg : g.fp = f
    · rw [if_pos hg, List.filter_cons, List.filter_cons]
      simp [hg, Group.tally]
    · rw [List.length_cons] at hroom
      rw [if_neg hg, List.filter_cons, List.filter_cons]
      simp only [hg, decide_false, Bool.false_eq_true, if_false]
      exact ih (room - 1) (by omega)

variable (docs) in
/-- Each fingerprint has one group, which counts its ballots. -/
theorem tally_countVotes (f : F) (ballots : List (V × Int))
    (hlen : ballots.length ≤ maxReplies + 1) :
    ((countVotes docs ballots).filter fun g => decide (g.fp = f)).map Group.tally =
      tallyOf (ballotsFor docs f ballots) := by
  induction ballots using List.reverseRecOn with
  | nil => rfl
  | append_singleton ballots d ih =>
    rw [List.length_append, List.length_singleton] at hlen
    have ih := ih (by omega)
    have hroom := (length_countVotes_le docs ballots).trans_lt
      (show ballots.length < maxReplies + 1 by omega)
    have hstep : countVotes docs (ballots ++ [d]) =
        castVote docs (maxReplies + 1) (countVotes docs ballots) d := by
      rw [countVotes, List.foldl_append]
      rfl
    rw [hstep, ballotsFor, List.filter_append]
    by_cases hf : docs.fingerprint d.1 = f
    · have hone : ([d].filter fun d => decide (docs.fingerprint d.1 = f)) = [d] := by simp [hf]
      rw [tally_castVote_of_eq hf _ _ hroom, ih, hone, ← ballotsFor]
      cases ballotsFor docs f ballots with
      | nil => rfl
      | cons e es => simp [tallyOf]
    · have hnone : ([d].filter fun d => decide (docs.fingerprint d.1 = f)) = [] := by simp [hf]
      rw [tally_castVote_of_ne hf, ih, hnone, List.append_nil]
      rfl

omit [DecidableEq F] in
/-- The winner has enough votes, and there is one as soon as some group has. -/
theorem winner_spec (required : Nat) (groups : List (Group V F)) :
    (∀ g, winner required groups = some g → g ∈ groups ∧ required ≤ g.votes) ∧
      ((∃ g ∈ groups, required ≤ g.votes) → (winner required groups).isSome = true) := by
  induction groups using List.reverseRecOn with
  | nil =>
    constructor
    · intro g hg
      have hg : (none : Option (Group V F)) = some g := hg
      cases hg
    · rintro ⟨g, hg, -⟩
      cases hg
  | append_singleton groups x ih =>
    have hstep : winner required (groups ++ [x]) =
        if required ≤ x.votes ∧
          (winner required groups).all (fun w => decide (w.ts < x.ts)) = true then some x
        else winner required groups := by
      rw [winner, List.foldl_append]
      rfl
    rw [hstep]
    constructor
    · intro g hg
      split at hg
      · rename_i hx
        obtain rfl := Option.some.inj hg
        exact ⟨List.mem_append_right _ (List.mem_singleton_self x), hx.1⟩
      · obtain ⟨hmem, hreq⟩ := ih.1 g hg
        exact ⟨List.mem_append_left _ hmem, hreq⟩
    · rintro ⟨g, hg, hreq⟩
      split
      · rfl
      · rename_i hx
        rcases List.mem_append.mp hg with hg | hg
        · exact ih.2 ⟨g, hg, hreq⟩
        · -- `x` has enough votes but did not win, so there was a winner before
          rw [List.mem_singleton.mp hg] at hreq
          cases hw : winner required groups with
          | none =>
            rw [hw] at hx
            exact absurd ⟨hreq, rfl⟩ hx
          | some w => rfl

variable (docs) in
omit [DecidableEq F] in
/-- Every answering copy is absent or casts a ballot. -/
theorem absent_add_ballots (rs : ReadSet) (id : CString) :
    rs.absent docs id + (rs.ballots docs id).length = rs.copies.length := by
  have hremotes : (rs.remotes.filter fun x => (x.object docs id).isNone).length +
      (rs.remotes.filterMap (Replica.object docs · id)).length = rs.remotes.length := by
    induction rs.remotes with
    | nil => rfl
    | cons x xs ih =>
      cases hx : x.object docs id with
      | none =>
        simp only [List.filter_cons, List.filterMap_cons, hx, Option.isNone_none, if_true,
          List.length_cons]
        omega
      | some d =>
        simp only [List.filter_cons, List.filterMap_cons, hx, Option.isNone_some,
          Bool.false_eq_true, if_false, List.length_cons]
        omega
  rw [ReadSet.absent, ReadSet.ballots, ReadSet.copies, List.length_append, List.length_append,
    ← hremotes]
  cases rs.own with
  | none => simp
  | some x =>
    cases hx : x.get docs id with
    | none => simp [hx]; omega
    | some d => simp [hx]; omega

theorem length_ballotsFor_add_le {f f' : F} (hne : f ≠ f') (ballots : List (V × Int)) :
    (ballotsFor docs f ballots).length + (ballotsFor docs f' ballots).length ≤ ballots.length :=
  RunningBest.length_copies_add_le hne ballots

variable (docs) in
/-- Two fingerprints cannot both have more than half of the ballots. -/
theorem fingerprint_unique {required : Nat} {ballots : List (V × Int)}
    (hmost : ballots.length < 2 * required) {f f' : F}
    (h : required ≤ (ballotsFor docs f ballots).length)
    (h' : required ≤ (ballotsFor docs f' ballots).length) : f = f' := by
  by_contra hne
  have hdisjoint : (ballotsFor docs f ballots).length + (ballotsFor docs f' ballots).length ≤
      ballots.length := length_ballotsFor_add_le hne _
  omega

omit [DecidableEq F] in
variable (docs) in
theorem length_ballots_le_replies (rs : ReadSet) (id : CString) :
    (rs.ballots docs id).length ≤ maxReplies + 1 := by
  have habsent := absent_add_ballots docs rs id
  have hle := rs.length_copies_le
  omega

omit [DecidableEq F] in
variable (docs) in
theorem length_ballots_lt (rs : ReadSet) (id : CString) :
    (rs.ballots docs id).length < 2 * rs.required := by
  have habsent := absent_add_ballots docs rs id
  have hcopies := rs.length_copies_lt
  omega

/-- The group of a fingerprint, read off its ballots. -/
theorem ballotsFor_of_mem_countVotes {ballots : List (V × Int)}
    (hlen : ballots.length ≤ maxReplies + 1) {g : Group V F} (hg : g ∈ countVotes docs ballots) :
    ∃ d ds, ballotsFor docs g.fp ballots = d :: ds ∧ d.1 = g.sample ∧
      g.votes = ds.length + 1 := by
  have hmem : g.tally ∈ ((countVotes docs ballots).filter
      fun g' => decide (g'.fp = g.fp)).map Group.tally :=
    List.mem_map_of_mem (List.mem_filter.mpr ⟨hg, decide_eq_true rfl⟩)
  rw [tally_countVotes docs g.fp _ hlen] at hmem
  cases hb : ballotsFor docs g.fp ballots with
  | nil =>
    rw [hb] at hmem
    cases hmem
  | cons d ds =>
    rw [hb] at hmem
    have heq := List.mem_singleton.mp hmem
    exact ⟨d, ds, rfl, (congrArg Prod.fst heq).symm, congrArg Prod.snd heq⟩

/-- The ballots for a fingerprint have it. -/
theorem fingerprint_of_ballotsFor {f : F} {ballots : List (V × Int)} {d : V × Int}
    {ds : List (V × Int)} (hb : ballotsFor docs f ballots = d :: ds) :
    docs.fingerprint d.1 = f := by
  have hd : d ∈ ballotsFor docs f ballots := hb ▸ List.mem_cons_self
  simpa [ballotsFor] using (List.mem_filter.mp hd).2

/-- A fingerprint with enough ballots wins. -/
theorem winner_of_ballotsFor {required : Nat} {ballots : List (V × Int)}
    (hlen : ballots.length ≤ maxReplies + 1) (hmost : ballots.length < 2 * required)
    {d : V × Int} {ds : List (V × Int)}
    (hb : ballotsFor docs (docs.fingerprint d.1) ballots = d :: ds)
    (hreq : required ≤ ds.length + 1) :
    ∃ g, winner required (countVotes docs ballots) = some g ∧ g.sample = d.1 := by
  -- its group has enough votes, so there is a winner
  have htally := tally_countVotes docs (docs.fingerprint d.1) _ hlen
  rw [hb] at htally
  have hmem : (d.1, ds.length + 1) ∈ ((countVotes docs ballots).filter
      fun g => decide (g.fp = docs.fingerprint d.1)).map Group.tally :=
    htally ▸ List.mem_singleton_self _
  obtain ⟨g₀, hg₀, heq₀⟩ := List.mem_map.mp hmem
  have hvotes₀ : g₀.votes = ds.length + 1 := congrArg Prod.snd heq₀
  obtain ⟨g, hg⟩ := Option.isSome_iff_exists.mp ((winner_spec required _).2
    ⟨g₀, List.mem_of_mem_filter hg₀, by omega⟩)
  -- and a winner has this fingerprint, as two cannot both have enough
  obtain ⟨hgmem, hgreq⟩ := (winner_spec required _).1 g hg
  obtain ⟨e, es, hbe, he, hvotes⟩ := ballotsFor_of_mem_countVotes hlen hgmem
  have hsame : g.fp = docs.fingerprint d.1 := by
    refine fingerprint_unique docs hmost ?_ ?_
    · rw [hbe, List.length_cons]
      omega
    · rw [hb, List.length_cons]
      omega
  rw [hsame, hb] at hbe
  exact ⟨g, hg, by rw [← he, ← (List.cons.inj hbe).1]⟩

/-- **The winner** is the sample of the fingerprint with enough ballots. -/
theorem winner_eq_some_iff {required : Nat} {ballots : List (V × Int)}
    (hlen : ballots.length ≤ maxReplies + 1) (hmost : ballots.length < 2 * required) (v : V) :
    (winner required (countVotes docs ballots)).map Group.sample = some v ↔ ∃ d ds,
      ballotsFor docs (docs.fingerprint v) ballots = d :: ds ∧ d.1 = v ∧
        required ≤ ds.length + 1 := by
  constructor
  · intro h
    obtain ⟨g, hg, rfl⟩ := Option.map_eq_some_iff.mp h
    obtain ⟨hmem, hreq⟩ := (winner_spec required _).1 g hg
    obtain ⟨d, ds, hb, hd, hvotes⟩ := ballotsFor_of_mem_countVotes hlen hmem
    have hf := fingerprint_of_ballotsFor hb
    rw [hd] at hf
    exact ⟨d, ds, by rw [hf, hb], hd, by omega⟩
  · rintro ⟨d, ds, hb, rfl, hreq⟩
    obtain ⟨g, hg, hsample⟩ := winner_of_ballotsFor hlen hmost hb hreq
    rw [hg, Option.map_some, hsample]

/-- **A get finds** the sample of the fingerprint a quorum of ballots has. -/
theorem readGet_eq_some_iff (rs : ReadSet) (id : CString) (v : V) :
    readGet docs rs id = some v ↔ ∃ d ds,
      ballotsFor docs (docs.fingerprint v) (rs.ballots docs id) = d :: ds ∧ d.1 = v ∧
        rs.required ≤ ds.length + 1 := by
  rw [← winner_eq_some_iff (length_ballots_le_replies docs rs id) (length_ballots_lt docs rs id)]
  constructor
  · intro h
    rw [readGet] at h
    split at h
    · exact h
    · cases h
  · intro h
    obtain ⟨d, ds, hb, -, hreq⟩ := (winner_eq_some_iff (length_ballots_le_replies docs rs id)
      (length_ballots_lt docs rs id) v).mp h
    -- those who cast these ballots are not absent
    have hballots : ds.length + 1 ≤ (rs.ballots docs id).length := by
      have hle : (ballotsFor docs (docs.fingerprint v) (rs.ballots docs id)).length ≤
          (rs.ballots docs id).length := List.length_filter_le ..
      rwa [hb, List.length_cons] at hle
    have habsent := absent_add_ballots docs rs id
    have hcopies := rs.length_copies_lt
    have hcond : (rs.reached && decide (rs.absent docs id < rs.required)) = true := by
      rw [ReadSet.reached, Bool.and_eq_true, decide_eq_true_eq, decide_eq_true_eq]
      omega
    rw [readGet, if_pos hcond]
    exact h

end Get

end EpsilonDB
