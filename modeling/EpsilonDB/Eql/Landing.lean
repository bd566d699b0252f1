import EpsilonDB.Api.ReplBackend
import EpsilonDB.Api.Requests

/-!
# Where the changes of a statement come to

A write-back sends its changes one by one, and each is carried out at the record whose names are
read of it. What becomes of the store is told by these records, whatever tables the changes were
meant for.

- `sendAll`: changes carried out one after the other. `edbEqlExecute_snd`: a statement does this.
- `Change.partition`: the partition that a change comes to.
- `replicateRecord_keeps`, `replicateRecord_agreeOff`: one change in one run and in two.
- `sendAll_alike`: two lists that send the same to what is looked at.
- `Change.comesTo`: the record that a change comes to. `get_sendAll`: a record that no other change
  comes to is what the change makes of it alone.
- `Change.Taken`: a change that is read back and does nothing else. `taken_local` says which are on
  a node without replication, `taken_repl` which are with one.
-/

namespace EpsilonDB.Eql

variable {σ D : Type} [Doubles D] {ctx : Ctx σ D} {K : Set CString} {s s' : σ}

/-! ## Carrying out changes -/

variable (ctx) in
/-- Carrying out changes, one after the other. -/
def sendAll (cs : List (Eql.Change D)) (s : σ) : σ :=
  cs.foldl (fun s c => (replicateRecord ctx c s).2) s

/-- What is counted and reported aside, a write-back sends its changes. -/
theorem state_foldl_take (steps : List (Step D)) (r : Replay σ) :
    (steps.foldl (Replay.take ctx) r).state = sendAll ctx (steps.filterMap Step.change) r.state := by
  induction steps generalizing r with
  | nil => rfl
  | cons st steps ih =>
    rw [List.foldl_cons, ih]
    cases st with
    | send c => exact congrArg (sendAll ctx (steps.filterMap Step.change)) (state_take_send r c)
    | stale id => rfl
    | unknown => rfl

/-- A statement leaves what its changes make of the store. -/
theorem edbEqlExecute_snd (sql : CString) (groups : UInt64) (trusted : Bool) (s : σ) :
    (edbEqlExecute ctx sql groups trusted s).2 =
      sendAll ctx (statementChanges ctx sql groups trusted s) s := by
  rw [edbEqlExecute_eq, statementChanges]
  cases statementPlan ctx sql groups trusted s with
  | error r => rfl
  | ok steps => exact state_foldl_take steps _

/-- Without attached code it is the same. -/
theorem sendAll_eq_plain {cs : List (Change D)} (h : Unattended ctx.backend s cs) :
    sendAll ctx cs s = sendAll ctx.plain cs s := by
  induction cs generalizing s with
  | nil => rfl
  | cons c cs ih =>
    rw [sendAll, sendAll, List.foldl_cons, List.foldl_cons, replicateRecord_eq_plain h.head]
    exact ih h.tail

/-! ## Shards -/

omit [Doubles D] in
/-- The partition that a change comes to, or was meant for where it comes to none. -/
def Change.partition (B : Backend σ D) (c : Change D) : CString :=
  ((B.place c.write).map Place.partition).getD c.table.part

omit [Doubles D] in
/-- A change stays in the partition of its table. -/
theorem partition_of_keeps {B : Backend σ D} {c : Change D}
    (h : B.KeepsPartition c.table.db c.table.part) : c.partition B = c.table.part := by
  obtain ⟨t, ks, id, value⟩ := c
  rw [Change.partition]
  cases hplace : B.place (Change.write ⟨t, ks, id, value⟩) with
  | none => rfl
  | some p =>
    cases value with
    | some doc => exact h ks id doc p hplace
    | none => exact congrArg Place.partition (B.place_of_safe _ p (B.safe_of_escaped _ rfl) hplace)

omit [Doubles D] in
theorem partition_of_place {B : Backend σ D} {c : Change D} {p : Place}
    (hp : p ∈ B.place c.write) : c.partition B = p.partition := by
  rw [Change.partition, Option.mem_def.mp hp]
  rfl

/-- A change leaves everything but the shard it comes to and the registry. -/
theorem replicateRecord_keeps {c : Change D} (hK : registryKeys ctx.backend ⊆ K)
    (hc : ∀ p ∈ ctx.backend.place c.write, ctx.backend.shardKey p.partition p.keyspace ∈ K) (s : σ) :
    AgreeOff ctx.backend.view K s (replicateRecord ctx.plain c s).2 := by
  have hkeeps := writeAttempts_keeps (Backend.write_keeps hc) 3 0 s
  rw [replicateRecord_plain]
  dsimp only
  split
  · exact hkeeps.trans (edbPartitionEnsure_keeps hK _ _ _ _)
  · exact hkeeps

theorem writeAttempts_agreeOff (w : StoreWrite D) (n code : Nat)
    (h : AgreeOff ctx.backend.view K s s') :
    AgreeOff ctx.backend.view K (writeAttempts ctx w n code s).2
      (writeAttempts ctx w n code s').2 := by
  by_cases hw : ∀ p ∈ ctx.backend.place w, ctx.backend.shardKey p.partition p.keyspace ∈ K
  · -- nothing that is looked at is written
    have hkeeps := writeAttempts_keeps (Backend.write_keeps hw) n code
    exact (hkeeps s).symm.trans (h.trans (hkeeps s'))
  · push Not at hw
    obtain ⟨p, hp, hkey⟩ := hw
    exact (writeAttempts_agree (ctx.backend.lands w p hp) hkey n code h).2

/-- A change in two runs that agree still agrees, wherever it comes to. -/
theorem replicateRecord_agreeOff (c : Change D) (hK : registryKeys ctx.backend ⊆ K)
    (h : AgreeOff ctx.backend.view K s s') :
    AgreeOff ctx.backend.view K (replicateRecord ctx.plain c s).2
      (replicateRecord ctx.plain c s').2 := by
  have hregister : ∀ t, AgreeOff ctx.backend.view K (writeAttempts ctx c.write 3 0 t).2
      (replicateRecord ctx.plain c t).2 := by
    intro t
    rw [replicateRecord_plain]
    dsimp only
    split
    · exact edbPartitionEnsure_keeps hK _ _ _ _
    · exact .refl _ K _
  exact (hregister s).symm.trans ((writeAttempts_agreeOff c.write 3 0 h).trans (hregister s'))

/-- **Two lists** with the same changes of what is looked at make the same of it. -/
theorem sendAll_alike {q : Change D → Bool} (hK : registryKeys ctx.backend ⊆ K)
    {cs cs' : List (Change D)} (hsame : cs.filter q = cs'.filter q)
    (hrest : ∀ c ∈ cs ++ cs', q c = false → ∀ p ∈ ctx.backend.place c.write,
      ctx.backend.shardKey p.partition p.keyspace ∈ K)
    (h : AgreeOff ctx.backend.view K s s') :
    AgreeOff ctx.backend.view K (sendAll ctx.plain cs s) (sendAll ctx.plain cs' s') := by
  have hagree : ∀ c t t', AgreeOff ctx.backend.view K t t' → AgreeOff ctx.backend.view K
      (replicateRecord ctx.plain c t).2 (replicateRecord ctx.plain c t').2 :=
    fun c t t' h => replicateRecord_agreeOff c hK h
  have hone : AgreeOff ctx.backend.view K (sendAll ctx.plain cs s)
      (sendAll ctx.plain (cs.filter q) s') :=
    agreeOff_foldl_filter hagree cs (fun c hc hq => replicateRecord_keeps hK
      (hrest c (List.mem_append_left _ hc) hq)) h
  have hother : AgreeOff ctx.backend.view K (sendAll ctx.plain cs' s')
      (sendAll ctx.plain (cs'.filter q) s') :=
    agreeOff_foldl_filter hagree cs' (fun c hc hq => replicateRecord_keeps hK
      (hrest c (List.mem_append_right _ hc) hq)) (.refl _ K s')
  rw [← hsame] at hother
  exact hone.trans hother.symm

/-! ## Records -/

section Records

variable {B : Backend σ D} {c : Change D} {x : CString × CString}

omit [Doubles D] in
/-- The record of a change, by its shard key and its id. -/
def Change.spot (c : Change D) (B : Backend σ D) : CString × CString := (c.key B, c.id)

omit [Doubles D] in
/-- The record that a change comes to, if it comes to any. -/
def Change.comesTo (c : Change D) (B : Backend σ D) : Option (CString × CString) :=
  (B.place c.write).map fun p => (B.shardKey p.partition p.keyspace, p.id)

omit [Doubles D] in
/-- A write leaves the records it does not come to. -/
theorem cell_write_of_ne (h : c.comesTo B ≠ some x) (s : σ) :
    B.cell (B.write c.write s).2 x = B.cell s x := by
  cases hplace : B.place c.write with
  | none => exact B.cell_congr (B.stays c.write hplace s x.1)
  | some p =>
    refine (B.settles c.write p hplace).frame s x fun hx => h ?_
    rw [Change.comesTo, hplace, hx]
    rfl

omit [Doubles D] in
/-- What it makes of one record depends on that record. -/
theorem cell_write_congr (c : Change D) (h : B.cell s x = B.cell s' x) :
    B.cell (B.write c.write s).2 x = B.cell (B.write c.write s').2 x := by
  by_cases hx : c.comesTo B = some x
  · obtain ⟨p, hplace, rfl⟩ := Option.map_eq_some_iff.mp hx
    exact (B.settles c.write p hplace).part s s' h
  · rw [cell_write_of_ne hx, cell_write_of_ne hx, h]

omit [Doubles D] in
/-- And a second write of it changes nothing. -/
theorem cell_write_write (c : Change D) (s : σ) (x : CString × CString) :
    B.cell (B.write c.write (B.write c.write s).2).2 x = B.cell (B.write c.write s).2 x := by
  by_cases hx : c.comesTo B = some x
  · obtain ⟨p, hplace, rfl⟩ := Option.map_eq_some_iff.mp hx
    exact (B.settles c.write p hplace).again s
  · rw [cell_write_of_ne hx]

/-- The attempts at a change come to one. -/
theorem cell_writeAttempts (c : Change D) (n code : Nat) (s : σ) (x : CString × CString) :
    ctx.backend.cell (writeAttempts ctx c.write (n + 1) code s).2 x =
      ctx.backend.cell (ctx.backend.write c.write s).2 x := by
  induction n generalizing code s with
  | zero =>
    unfold writeAttempts
    generalize ctx.backend.write c.write s = r
    obtain ⟨status, t⟩ := r
    cases status <;> rfl
  | succ n ih =>
    have hagain := cell_write_write (B := ctx.backend) c s x
    unfold writeAttempts
    revert hagain
    generalize ctx.backend.write c.write s = r
    intro hagain
    obtain ⟨status, t⟩ := r
    cases status
    · rfl
    · exact (ih 500 t).trans hagain
    · exact (ih 503 t).trans hagain

/-- Outside the registry a change is its write. -/
theorem cell_replicateRecord (c : Change D) (hx : x.1 ∉ registryKeys ctx.backend) (s : σ) :
    ctx.backend.cell (replicateRecord ctx.plain c s).2 x =
      ctx.backend.cell (ctx.backend.write c.write s).2 x := by
  rw [replicateRecord_plain]
  dsimp only
  split
  · exact (ctx.backend.cell_congr (edbPartitionEnsure_keeps subset_rfl _ _ _ _ _ hx).symm).trans
      (cell_writeAttempts c 2 0 s x)
  · exact cell_writeAttempts c 2 0 s x

theorem cell_replicateRecord_of_ne (hx : x.1 ∉ registryKeys ctx.backend)
    (h : c.comesTo ctx.backend ≠ some x) (s : σ) :
    ctx.backend.cell (replicateRecord ctx.plain c s).2 x = ctx.backend.cell s x :=
  (cell_replicateRecord c hx s).trans (cell_write_of_ne h s)

/-- **A record that only one change of a list comes to** reads as after that change alone. -/
theorem get_sendAll {partition keyspace id : CString} {cs : List (Change D)} (hc : c ∈ cs)
    (hx : ctx.backend.shardKey partition keyspace ∉ registryKeys ctx.backend)
    (hother : ∀ c' ∈ cs, c' = c ∨
      c'.comesTo ctx.backend ≠ some (ctx.backend.shardKey partition keyspace, id)) (s : σ) :
    ctx.backend.get (sendAll ctx.plain cs s) partition keyspace id =
      ctx.backend.get (ctx.backend.write c.write s).2 partition keyspace id := by
  refine ctx.backend.get_cell ?_
  have hstep := fun s => cell_replicateRecord (s := s) c
    (x := (ctx.backend.shardKey partition keyspace, id)) hx
  have hsettles := foldl_settles (b := c) ctx.backend.cell
    (fun s c => (replicateRecord ctx.plain c s).2)
    (fun s s' h => (hstep s).trans ((cell_write_congr c h).trans (hstep s').symm))
    (fun s => (hstep _).trans ((cell_write_congr c (hstep s)).trans
      ((cell_write_write c s _).trans (hstep s).symm)))
    cs (fun c' hc' => (hother c' hc').imp_right (cell_replicateRecord_of_ne hx)) s
  rcases hsettles with ⟨-, hcell⟩ | ⟨hnot, -⟩
  · exact hcell.trans (hstep s)
  · exact absurd hc hnot

/-- And one that none comes to reads as before. -/
theorem get_sendAll_of_none {partition keyspace id : CString} {cs : List (Change D)}
    (hx : ctx.backend.shardKey partition keyspace ∉ registryKeys ctx.backend)
    (hother : ∀ c ∈ cs,
      c.comesTo ctx.backend ≠ some (ctx.backend.shardKey partition keyspace, id)) (s : σ) :
    ctx.backend.get (sendAll ctx.plain cs s) partition keyspace id =
      ctx.backend.get s partition keyspace id := by
  refine ctx.backend.get_cell ?_
  induction cs generalizing s with
  | nil => rfl
  | cons c cs ih =>
    obtain ⟨hc, hrest⟩ := List.forall_mem_cons.mp hother
    exact (ih hrest _).trans (cell_replicateRecord_of_ne hx hc s)

/-- The store takes a change: written to this state alone, it is read back under its names, and
every other record outside the registry reads as before. -/
structure Change.Taken (B : Backend σ D) (s : σ) (c : Change D) : Prop where
  reads : B.get (B.write c.write s).2 c.table.part c.ks c.id = c.value
  spares : ∀ partition keyspace id, (B.shardKey partition keyspace, id) ≠ c.spot B →
    B.shardKey partition keyspace ∉ registryKeys B →
      B.get (B.write c.write s).2 partition keyspace id = B.get s partition keyspace id

omit [Doubles D] in
/-- One that does not read so already has to come to its own record. -/
theorem Change.Taken.comesTo (h : c.Taken B s)
    (hnew : B.get s c.table.part c.ks c.id ≠ c.value) : c.comesTo B = some (c.spot B) := by
  by_contra hne
  exact hnew ((B.get_cell (cell_write_of_ne hne s)).symm.trans h.reads)

section Local

variable {codec : Codec D} {shardKey : CString → CString → CString} {now : Int}
  {engine : CString → Shard}

/-- What is read of a record that was just written. -/
theorem get_write_local (c : Change D) :
    (localBackend codec shardKey now).get ((localBackend codec shardKey now).write c.write
        engine).2 c.table.part c.ks c.id =
      c.value.bind fun doc =>
        if codec.print doc = [] then none else codec.parse (codec.print doc) := by
  obtain ⟨t, ks, id, value⟩ := c
  cases value with
  | some doc =>
    show (edbShardGetTs codec.parse now (Function.update engine (shardKey t.part ks)
      (edbShardPut now (engine (shardKey t.part ks)) id (codec.print doc) (-1))
        (shardKey t.part ks)) id).map Prod.fst = _
    rw [Function.update_self, edbShardGetTs, edbShardPut, doPutLocked, AList.lookup_insert]
    show ((Row.document codec.parse _).map _).map Prod.fst = _
    rw [Option.map_map]
    exact Option.map_id'
  | none =>
    show (edbShardGetTs codec.parse now (Function.update engine (shardKey t.part ks)
      (edbShardDelete now (engine (shardKey t.part ks)) id) (shardKey t.part ks)) id).map
        Prod.fst = none
    rw [Function.update_self, edbShardGetTs, lookup_edbShardDelete, if_pos rfl]
    cases engine (shardKey t.part ks) |>.lookup id with
    | none => rfl
    | some r =>
      have hdead : ¬ now ≤ now - 5 := by omega
      simp [Row.live, hdead]

/-- **Without replication** a change is taken if its document reads back as it is. -/
theorem taken_local :
    c.Taken (localBackend codec shardKey now) engine ↔ ∀ doc ∈ c.value, codec.Keeps doc := by
  constructor
  · intro h doc hdoc
    have hreads := (get_write_local c).symm.trans h.reads
    rw [Option.mem_def.mp hdoc, Option.bind_some] at hreads
    split at hreads
    · cases hreads
    · rename_i hne
      exact ⟨hne, hreads⟩
  · refine fun h => ⟨(get_write_local c).trans ?_, fun partition keyspace id hne _ => ?_⟩
    · cases hvalue : c.value with
      | none => rfl
      | some doc =>
        obtain ⟨hne, hparse⟩ := h doc hvalue
        rw [Option.bind_some, if_neg hne, hparse]
    · refine (localBackend codec shardKey now).get_cell (cell_write_of_ne (fun hx => hne ?_) engine)
      obtain ⟨t, ks, id', value⟩ := c
      cases value <;> exact (Option.some.inj hx).symm

end Local

section Repl

variable {codec : Codec D} {F : Type} [DecidableEq F] {fingerprint : Json D → F}
  {shardKey : CString → CString → CString} {self : NodeId} {clock : NodeId → Int}
  {answers : NodeId → Bool} {ans : NodeId → Delivery} {w : World}

/-- What a replicated change needs to be read back: the names in its envelope are read as its own
record, the quorum is reached, no newer version is stored, and its row reads as its document. -/
structure Change.Arrives (codec : Codec D) (shardKey : CString → CString → CString)
    (node : NodeId) (clock : NodeId → Int) (ans : NodeId → Delivery) (w : World) (c : Change D)
    (doc : ChangeDoc) (partition keyspace : CString) (change : EpsilonDB.Change) : Prop where
  text : c.write.change codec (clock node) = some doc
  names : decodeChange (sentDoc node doc) = some (partition, keyspace, change)
  spot : (shardKey partition keyspace, change.id) = (shardKey c.table.part c.ks, c.id)
  quorum : quorumMissed (w node) ans (sentDoc node doc)
    ((w node).countedHolders shardKey c.write.db partition keyspace) = false
  newest : comparedVersion (((w node).engine (shardKey c.table.part c.ks)).lookup c.id) ≤
    comparedVersion (some change.row)
  reads : (if change.row.live (clock node) then change.row.document codec.parse else none) =
    c.value

/-- A record reads as its row does. -/
theorem map_edbShardGetTs_of_lookup {now : Int} {sh : Shard} {id : CString}
    {r : Row} (h : sh.lookup id = some r) :
    (edbShardGetTs codec.parse now sh id).map Prod.fst =
      if r.live now then r.document codec.parse else none := by
  rw [edbShardGetTs, h]
  dsimp only
  split
  · rw [Option.map_map]
    exact Option.map_id'
  · rfl

variable (ans w) in
/-- What a change that comes to its own record makes of it at the node. -/
theorem lookup_replWrite_of_spot {doc : ChangeDoc} {partition keyspace : CString}
    {change : EpsilonDB.Change} (hdoc : c.write.change codec (clock self) = some doc)
    (hdecode : decodeChange (sentDoc self doc) = some (partition, keyspace, change))
    (hspot : (shardKey partition keyspace, change.id) = (shardKey c.table.part c.ks, c.id)) :
    (((replWrite codec shardKey self clock ans c.write w).2 self).engine
        (shardKey c.table.part c.ks)).lookup c.id =
      if quorumMissed (w self) ans (sentDoc self doc)
          ((w self).countedHolders shardKey c.write.db partition keyspace) then
        ((w self).engine (shardKey c.table.part c.ks)).lookup c.id
      else LastWriter.write comparedVersion
        (((w self).engine (shardKey c.table.part c.ks)).lookup c.id) (some change.row) := by
  obtain ⟨hkey, hid⟩ := Prod.mk.inj hspot
  have hp : doc.partition = some partition := (address_of_decode hdecode).1
  have hk : doc.keyspace = some keyspace := (address_of_decode hdecode).2.1
  rw [replWrite_of_change codec shardKey self clock ans hdoc]
  dsimp only
  rw [edbReplWrite_engine hp hk, appliedAt, if_pos rfl]
  cases quorumMissed (w self) ans (sentDoc self doc)
    ((w self).countedHolders shardKey c.write.db partition keyspace)
  · rw [← hkey, ← hid]
    exact lookup_applyChangeLocal hdecode _
  · rfl

/-- **With replication** a change that does not read so already is taken if it arrives, and only
then. -/
theorem taken_repl (hnew : (replBackend codec fingerprint shardKey self clock answers ans).get w
      c.table.part c.ks c.id ≠ c.value) :
    c.Taken (replBackend codec fingerprint shardKey self clock answers ans) w ↔
      ∃ doc partition keyspace change,
        c.Arrives codec shardKey self clock ans w doc partition keyspace change := by
  constructor
  · intro h
    obtain ⟨p, hplace, hspot⟩ := Option.map_eq_some_iff.mp (h.comesTo hnew)
    obtain ⟨doc, change, hdoc, hdecode, hid, -⟩ := changePlace_eq_some hplace
    have hspot : (shardKey p.partition p.keyspace, change.id) =
        (shardKey c.table.part c.ks, c.id) := hid ▸ hspot
    have hlookup := lookup_replWrite_of_spot ans w hdoc hdecode hspot
    -- a version that stays reads as before
    have hkept : (((replWrite codec shardKey self clock ans c.write w).2 self).engine
        (shardKey c.table.part c.ks)).lookup c.id ≠
          ((w self).engine (shardKey c.table.part c.ks)).lookup c.id := fun hsame =>
      hnew ((congrArg (Option.map Prod.fst)
        (edbShardGetTs_congr (clock self) hsame)).symm.trans h.reads)
    have hquorum : quorumMissed (w self) ans (sentDoc self doc)
        ((w self).countedHolders shardKey c.write.db p.partition p.keyspace) = false :=
      Bool.eq_false_iff.mpr fun hlost => hkept (by rw [hlookup, if_pos hlost])
    rw [hquorum, if_neg Bool.false_ne_true] at hlookup
    have hnewest : comparedVersion (((w self).engine (shardKey c.table.part c.ks)).lookup c.id) ≤
        comparedVersion (some change.row) :=
      not_lt.mp fun hlt => hkept (hlookup.trans (LastWriter.write_of_lt hlt))
    rw [LastWriter.write_of_le hnewest] at hlookup
    exact ⟨doc, p.partition, p.keyspace, change, hdoc, hdecode, hspot, hquorum, hnewest,
      (map_edbShardGetTs_of_lookup hlookup).symm.trans h.reads⟩
  · rintro ⟨doc, partition, keyspace, change, h⟩
    have hlookup := lookup_replWrite_of_spot ans w h.text h.names h.spot
    rw [h.quorum, if_neg Bool.false_ne_true, LastWriter.write_of_le h.newest] at hlookup
    refine ⟨(map_edbShardGetTs_of_lookup hlookup).trans h.reads,
      fun p k id hne _ => Backend.get_cell _ (cell_write_of_ne (fun hx => hne ?_) w)⟩
    -- the record it comes to is its own
    have hplace : changePlace codec self (clock self) c.write =
        some ⟨doc.db.getD c.write.db, partition, keyspace, change.id⟩ := by
      rw [changePlace, h.text]
      simp [h.names]
    obtain ⟨q, hq, hqx⟩ := Option.map_eq_some_iff.mp hx
    obtain rfl := Option.some.inj (hplace.symm.trans hq)
    exact hqx.symm.trans h.spot

end Repl

end Records

end EpsilonDB.Eql
