import EpsilonDB.Api.Groups
import EpsilonDB.Api.ReplBackend
import EpsilonDB.Engine.Tombstones

/-!
# The bits of the groups of a cluster (`edb_group_create`, `api_replicate_config`)

A node chooses the bit of a new group from its own registry, under a lock of its own. The
record then travels as a change of its name, so two names never meet in the guard that
decides which change of a name is newer.

- `GroupChange`: a record or a tombstone on its way.
- `GroupCluster`, `GroupCluster.step`: the registries of the nodes, all changes sent so far,
  and the calls that hold a lock. A change may arrive anywhere, any number of times.
- `BitsUnique`: no node has two groups with one bit.
- `UniqueInAnyOrder`: nor will it, whatever is delivered next.
- `FreeEverywhere`: every node that would take the new record has newer records for all
  other names the bit was ever given to. `uniqueInAnyOrder_iff`: the runs whose creations
  meet it are the ones that keep the bits unique.
- `concurrent_creates_share`: two nodes that create a group each at the same time.
-/

namespace EpsilonDB

/-- The record of a new group with its bit, or the tombstone of a group. -/
structure GroupChange where
  name : CString
  bit : Option UInt64
  ts : Int
  origin : NodeId
deriving DecidableEq

/-- The guard of the shard refuses the change. -/
def GroupChange.refused (c : GroupChange) (sh : Shard) : Bool :=
  storedNewer (storedVersionLocked sh c.name) c.ts c.origin

/-- The registries of all nodes. -/
structure GroupCluster where
  engine : NodeId → CString → Shard
  /-- every change a node sent to the others -/
  sent : List GroupChange := []
  /-- the change of the call that holds the group lock of a node -/
  busy : NodeId → Option GroupChange := fun _ => none

/-- A step of a cluster. -/
inductive GroupLabel where
  /-- `edb_group_create` up to `edb_repl_write` -/
  | create (x : NodeId) (now : Int) (name : CString)
  /-- `edb_group_delete` up to `edb_repl_write` -/
  | delete (x : NodeId) (now : Int) (name : CString)
  /-- the call returns; the change is applied unless the quorum is lost -/
  | finish (x : NodeId) (applied : Bool)
  /-- a change arrives, from its writer or from a cache -/
  | deliver (y : NodeId) (c : GroupChange)
  /-- the cleanup pass goes over the registry -/
  | cleanup (y : NodeId) (now : Int)

variable {D : Type} [Doubles D] (codec : Codec D) (shardKey : CString → CString → CString)
  (nodes : List NodeId)

namespace GroupChange

/-- `api_replicate_config`: the document that travels. -/
def doc (c : GroupChange) : ChangeDoc :=
  sentDoc c.origin
    (match c.bit with
    | some bit =>
      putChange codec systemDb systemDb cfgGroups c.name (groupRecord c.name bit) (-1) c.ts
    | none =>
      { op := some (cstr "delete"), db := some systemDb, partition := some systemDb,
        keyspace := some cfgGroups, id := some c.name, ts := some c.ts })

/-- The change of the shard it stands for. -/
def change (c : GroupChange) : Change where
  id := c.name
  op :=
    match c.bit with
    | some bit => .put (codec.print (groupRecord c.name bit)) (-1)
    | none => .delete
  ts := c.ts
  origin := c.origin

theorem decodeChange_doc (c : GroupChange) :
    decodeChange (c.doc codec) = some (systemDb, cfgGroups, c.change codec) := by
  obtain ⟨name, bit, ts, origin⟩ := c
  cases bit <;> rfl

end GroupChange

namespace GroupCluster

/-- The registry of a node. -/
def registry (s : GroupCluster) (y : NodeId) : Shard :=
  s.engine y (shardKey systemDb cfgGroups)

/-- A node applies a change. -/
def apply (s : GroupCluster) (y : NodeId) (c : GroupChange) : GroupCluster :=
  { s with
    engine := Function.update s.engine y
      (applyChangeLocal shardKey (s.engine y) (c.doc codec)).1 }

/-- A call of a node sends its change, with the lock held. -/
def send (s : GroupCluster) (x : NodeId) (c : GroupChange) : GroupCluster :=
  { s with sent := c :: s.sent, busy := Function.update s.busy x (some c) }

/-- The cleanup pass of a node. -/
def clean (s : GroupCluster) (y : NodeId) (now : Int) : GroupCluster :=
  { s with
    engine := Function.update s.engine y
      (Function.update (s.engine y) (shardKey systemDb cfgGroups)
        (edbShardCleanup now (s.registry shardKey y))) }

/-- The bit a node would give to a new group. -/
def newBit (s : GroupCluster) (x : NodeId) (now : Int) (name : CString) : Option UInt64 :=
  groupBit (localBackend codec shardKey now) (s.engine x) name

/-- What a step makes of the cluster, when it can be taken. -/
def step (s : GroupCluster) : GroupLabel → Option GroupCluster
  | .create x now name =>
    if x ∈ nodes ∧ s.busy x = none then
      match s.newBit codec shardKey x now name with
      | none => some s
      | some bit => some (s.send x ⟨name, some bit, now, x⟩)
    else none
  | .delete x now name =>
    if x ∈ nodes ∧ s.busy x = none then some (s.send x ⟨name, none, now, x⟩) else none
  | .finish x applied =>
    match s.busy x with
    | none => none
    | some c =>
      let s := if applied then s.apply codec shardKey x c else s
      some { s with busy := Function.update s.busy x none }
  | .deliver y c =>
    if y ∈ nodes ∧ c ∈ s.sent then some (s.apply codec shardKey y c) else none
  | .cleanup y now => if y ∈ nodes then some (s.clean shardKey y now) else none

/-! ## What is asked for -/

/-- The group a node has under a name. -/
def groupAt (s : GroupCluster) (y : NodeId) (now : Int) (name : CString) : Option GroupInfo :=
  edbGroupGet (localBackend codec shardKey now) (s.engine y) name

/-- **No two groups of a node share a bit.** -/
def BitsUnique (s : GroupCluster) : Prop :=
  ∀ y ∈ nodes, ∀ now a b g h, a ≠ b → s.groupAt codec shardKey y now a = some g →
    s.groupAt codec shardKey y now b = some h → g.bitPosition ≠ h.bitPosition

/-- Nor do they after any deliveries of what was sent, in any order. -/
def UniqueInAnyOrder (s : GroupCluster) : Prop :=
  ∀ ds : List (NodeId × GroupChange),
    Runs.Throughout (step codec shardKey nodes) (BitsUnique codec shardKey nodes) s
      (ds.map fun d => .deliver d.1 d.2)

/-- Of two names that were given one bit, a registry that refuses the record of one or of
the other. -/
def NoClash (sent : List GroupChange) (sh : Shard) : Prop :=
  ∀ c ∈ sent, ∀ c' ∈ sent, c.name ≠ c'.name → c.bit = c'.bit → c.bit ≠ none →
    c.refused sh = true ∨ c'.refused sh = true

instance (sent : List GroupChange) (sh : Shard) : Decidable (NoClash sent sh) :=
  inferInstanceAs (Decidable (∀ c ∈ sent, ∀ c' ∈ sent, _ → _ → _ → _))

/-- Every node that would take the record has a newer one for each other name the bit was
given to. -/
def FreeEverywhere (s : GroupCluster) (c : GroupChange) : Prop :=
  ∀ y ∈ nodes, c.refused (s.registry shardKey y) = true ∨
    ∀ c' ∈ s.sent, c'.name ≠ c.name → c'.bit = c.bit → c'.refused (s.registry shardKey y) = true

instance (s : GroupCluster) (c : GroupChange) : Decidable (s.FreeEverywhere shardKey nodes c) :=
  inferInstanceAs (Decidable (∀ y ∈ nodes, _ ∨ ∀ c' ∈ s.sent, _ → _ → _))

/-- A step that keeps the bits unique. A cleanup pass may forget which records are newer. -/
def Careful (s : GroupCluster) : GroupLabel → Prop
  | .create x now name =>
    x ∈ nodes → s.busy x = none → ∀ bit ∈ s.newBit codec shardKey x now name,
      s.FreeEverywhere shardKey nodes ⟨name, some bit, now, x⟩
  | .cleanup y now => y ∈ nodes → NoClash s.sent (edbShardCleanup now (s.registry shardKey y))
  | _ => True

instance (s : GroupCluster) : ∀ l, Decidable (s.Careful codec shardKey nodes l)
  | .create x now name =>
    -- the new bit is looked up: the other instance goes through all numbers of 64 bits
    have : Decidable (∀ bit ∈ s.newBit codec shardKey x now name,
        s.FreeEverywhere shardKey nodes ⟨name, some bit, now, x⟩) := Option.decidableForallMem _
    inferInstanceAs (Decidable (x ∈ nodes → s.busy x = none → _))
  | .cleanup y now =>
    inferInstanceAs (Decidable (y ∈ nodes → NoClash s.sent (edbShardCleanup now _)))
  | .finish .. | .deliver .. | .delete .. => isTrue trivial

/-! ## One delivery -/

variable {codec shardKey nodes}
variable {s s' : GroupCluster} {c : GroupChange} {x y : NodeId} {now : Int} {name : CString}

theorem registry_apply_self (s : GroupCluster) (y : NodeId) (c : GroupChange) :
    (s.apply codec shardKey y c).registry shardKey y =
      applyChange (s.registry shardKey y) (c.change codec) := by
  show Function.update s.engine y (applyChangeLocal shardKey (s.engine y) (c.doc codec)).1 y
    (shardKey systemDb cfgGroups) = _
  rw [Function.update_self, applyChangeLocal, c.decodeChange_doc]
  exact Function.update_self ..

theorem registry_apply_of_ne (s : GroupCluster) (c : GroupChange) {y y' : NodeId} (h : y' ≠ y) :
    (s.apply codec shardKey y c).registry shardKey y' = s.registry shardKey y' :=
  congrFun (Function.update_of_ne h _ s.engine) _

theorem registry_clean_self (s : GroupCluster) (y : NodeId) (now : Int) :
    (s.clean shardKey y now).registry shardKey y =
      edbShardCleanup now (s.registry shardKey y) := by
  show Function.update s.engine y (Function.update (s.engine y) (shardKey systemDb cfgGroups)
    (edbShardCleanup now (s.registry shardKey y))) y (shardKey systemDb cfgGroups) = _
  rw [Function.update_self]
  exact Function.update_self ..

theorem registry_clean_of_ne (s : GroupCluster) (now : Int) {y y' : NodeId} (h : y' ≠ y) :
    (s.clean shardKey y now).registry shardKey y' = s.registry shardKey y' :=
  congrFun (Function.update_of_ne h _ s.engine) _

/-- A change that is refused stays refused while the registry gets newer. -/
theorem refused_mono {sh sh' : Shard} (hle : Below sh sh') (h : c.refused sh = true) :
    c.refused sh' = true := by
  -- the guard looks at the version only, whatever the change does
  have hiff := fun sh => storedNewer_iff sh ⟨c.name, .delete, c.ts, c.origin⟩
  exact (hiff sh').mpr (lt_of_lt_of_le ((hiff sh).mp h) (hle c.name))

theorem NoClash.mono {sent : List GroupChange} {sh sh' : Shard} (hle : Below sh sh')
    (h : NoClash sent sh) : NoClash sent sh' :=
  fun c hc c' hc' hname hbit hsome =>
    (h c hc c' hc' hname hbit hsome).imp (refused_mono hle) (refused_mono hle)

/-- The row of the change is not refused by a registry that has it. -/
theorem not_refused_of_lookup {sh : Shard} (h : sh.lookup c.name = some (c.change codec).row) :
    c.refused sh = false := by
  rw [Bool.eq_false_iff]
  intro hr
  have hlt := (storedNewer_iff sh (c.change codec)).mp hr
  rw [show (c.change codec).id = c.name from rfl, h] at hlt
  exact lt_irrefl _ hlt

/-- An accepted change leaves its row, and no other name changes. -/
theorem lookup_applyChange_change (sh : Shard) (c : GroupChange) (name : CString) :
    (applyChange sh (c.change codec)).lookup name =
      if c.name = name ∧ c.refused sh = false then some (c.change codec).row
      else sh.lookup name := by
  rw [applyChange_eq]
  show (if c.refused sh = true then sh else sh.insert c.name (c.change codec).row).lookup name = _
  by_cases hr : c.refused sh = true
  · rw [if_pos hr, if_neg fun h => by rw [hr] at h; exact absurd h.2 (by decide)]
  · rw [if_neg hr]
    by_cases hname : c.name = name
    · subst hname
      rw [AList.lookup_insert, if_pos ⟨rfl, by simpa using hr⟩]
    · rw [AList.lookup_insert_ne (Ne.symm hname), if_neg fun h => hname h.1]

/-! ## What the registries hold -/

/-- What all runs keep: the rows of the registries are changes that were sent, and what is
sent can be read back. -/
structure Sound (codec : Codec D) (shardKey : CString → CString → CString)
    (nodes : List NodeId) (s : GroupCluster) : Prop where
  rows : ∀ y name r, (s.registry shardKey y).lookup name = some r →
    ∃ c ∈ s.sent, c.name = name ∧ (c.change codec).row = r
  busy : ∀ x c, s.busy x = some c → x ∈ nodes ∧ c ∈ s.sent
  groups : ∀ c ∈ s.sent, ∀ bit, c.bit = some bit →
    (c.name ≠ [] ∧ c.name.length < 128) ∧ ValidBit bit ∧ codec.Keeps (groupRecord c.name bit)

theorem groupAt_eq (s : GroupCluster) (y : NodeId) (now : Int) (name : CString) :
    s.groupAt codec shardKey y now name =
      ((edbShardGetTs codec.parse now (s.registry shardKey y) name).bind fun d =>
        let info := groupInfo d.1
        if info.name ≠ [] ∧ ValidBit info.bitPosition then some info else none) := by
  have hget : fetch (localBackend codec shardKey now) (s.engine y) cfgGroups name =
      (edbShardGetTs codec.parse now (s.registry shardKey y) name).map Prod.fst := rfl
  unfold groupAt edbGroupGet
  rw [hget]
  cases edbShardGetTs codec.parse now (s.registry shardKey y) name with
  | none => rfl
  | some d => rfl

/-- A registry with the record of a group has the group. -/
theorem Sound.groupAt_of_lookup (h : Sound codec shardKey nodes s) (hc : c ∈ s.sent)
    {bit : UInt64} (hbit : c.bit = some bit)
    (hrow : (s.registry shardKey y).lookup c.name = some (c.change codec).row) :
    s.groupAt codec shardKey y now c.name = some ⟨c.name, bit⟩ := by
  obtain ⟨⟨hne, hlen⟩, hvalid, hkeeps⟩ := h.groups c hc bit hbit
  have hchange : (c.change codec).row =
      putRow (codec.print (groupRecord c.name bit)) (-1) c.ts c.origin := by
    unfold GroupChange.change
    rw [hbit]
    rfl
  have hdoc : (c.change codec).row.document codec.parse = some (groupRecord c.name bit) := by
    rw [hchange]
    show (if codec.print (groupRecord c.name bit) = [] then none
      else codec.parse (codec.print (groupRecord c.name bit))) = _
    rw [if_neg hkeeps.print_ne, hkeeps.parse_print]
  have hlive : (c.change codec).row.live now = true := by
    rw [hchange]
    rfl
  rw [groupAt_eq, edbShardGetTs, hrow]
  dsimp only
  rw [if_pos hlive, hdoc]
  show (let info := groupInfo (groupRecord c.name bit : Json D)
    if info.name ≠ [] ∧ ValidBit info.bitPosition then some info else none) = _
  rw [groupInfo_groupRecord hlen]
  exact if_pos ⟨hne, hvalid⟩

/-- Every group of a registry is the record of a creation that was sent. -/
theorem Sound.creation_of_groupAt (h : Sound codec shardKey nodes s) {g : GroupInfo}
    (hg : s.groupAt codec shardKey y now name = some g) :
    ∃ c ∈ s.sent, c.name = name ∧ c.bit = some g.bitPosition ∧
      (s.registry shardKey y).lookup name = some (c.change codec).row := by
  cases hrow : (s.registry shardKey y).lookup name with
  | none =>
    rw [groupAt_eq, edbShardGetTs, hrow] at hg
    cases hg
  | some r =>
    obtain ⟨c, hc, rfl, rfl⟩ := h.rows y name r hrow
    cases hbit : c.bit with
    | none =>
      -- a tombstone has no document
      have hdoc : (c.change codec).row.document codec.parse = none := by
        unfold GroupChange.change
        rw [hbit]
        rfl
      rw [groupAt_eq, edbShardGetTs, hrow] at hg
      dsimp only at hg
      rw [hdoc] at hg
      split at hg <;> cases hg
    | some bit =>
      rw [h.groupAt_of_lookup hc hbit hrow] at hg
      cases hg
      exact ⟨c, hc, rfl, hbit, rfl⟩

/-- **Without a clash the bits are unique.** -/
theorem Sound.bitsUnique (h : Sound codec shardKey nodes s)
    (hclash : ∀ y ∈ nodes, NoClash s.sent (s.registry shardKey y)) :
    BitsUnique codec shardKey nodes s := by
  intro y hy now a b g g' hab hg hg' hbits
  obtain ⟨c, hc, rfl, hbit, hrow⟩ := h.creation_of_groupAt hg
  obtain ⟨c', hc', rfl, hbit', hrow'⟩ := h.creation_of_groupAt hg'
  have hsame : c.bit = c'.bit := by rw [hbit, hbit', hbits]
  rcases hclash y hy c hc c' hc' hab hsame (by rw [hbit]; nofun) with hr | hr
  · rw [not_refused_of_lookup hrow] at hr
    cases hr
  · rw [not_refused_of_lookup hrow'] at hr
    cases hr

/-! ## What a step keeps -/

theorem Sound.apply (h : Sound codec shardKey nodes s) (y : NodeId) (hc : c ∈ s.sent) :
    Sound codec shardKey nodes (s.apply codec shardKey y c) :=
  { h with
    rows := by
      intro y' name r hrow
      by_cases hy : y' = y
      · subst hy
        rw [registry_apply_self, lookup_applyChange_change] at hrow
        split at hrow
        · next hname =>
          cases hrow
          exact ⟨c, hc, hname.1, rfl⟩
        · exact h.rows y' name r hrow
      · rw [registry_apply_of_ne s c hy] at hrow
        exact h.rows y' name r hrow }

theorem Sound.clean (h : Sound codec shardKey nodes s) (y : NodeId) (now : Int) :
    Sound codec shardKey nodes (s.clean shardKey y now) :=
  { h with
    rows := by
      intro y' name r hrow
      by_cases hy : y' = y
      · subst hy
        rw [registry_clean_self, lookup_edbShardCleanup] at hrow
        exact h.rows y' name r (Option.filter_eq_some_iff.mp hrow).1
      · rw [registry_clean_of_ne s now hy] at hrow
        exact h.rows y' name r hrow }

theorem Sound.send (h : Sound codec shardKey nodes s) (hx : x ∈ nodes)
    (hc : ∀ bit, c.bit = some bit → (c.name ≠ [] ∧ c.name.length < 128) ∧ ValidBit bit ∧
      codec.Keeps (groupRecord c.name bit)) :
    Sound codec shardKey nodes (s.send x c) where
  rows y name r hrow := by
    obtain ⟨c', hc', hname⟩ := h.rows y name r hrow
    exact ⟨c', List.mem_cons_of_mem c hc', hname⟩
  busy x' c' hbusy := by
    have hbusy : Function.update s.busy x (some c) x' = some c' := hbusy
    by_cases hx' : x' = x
    · subst hx'
      rw [Function.update_self] at hbusy
      cases hbusy
      exact ⟨hx, List.mem_cons_self⟩
    · rw [Function.update_of_ne hx'] at hbusy
      exact (h.busy x' c' hbusy).imp_right (List.mem_cons_of_mem c)
  groups c' hc' := by
    rcases List.mem_cons.mp hc' with rfl | hc'
    · exact hc
    · exact h.groups c' hc'

/-- The lock of a node is released. -/
theorem Sound.release (h : Sound codec shardKey nodes s) (x : NodeId) :
    Sound codec shardKey nodes { s with busy := Function.update s.busy x none } :=
  { h with
    busy := by
      intro x' c' hbusy
      have hbusy : Function.update s.busy x none x' = some c' := hbusy
      by_cases hx : x' = x
      · subst hx
        rw [Function.update_self] at hbusy
        cases hbusy
      · rw [Function.update_of_ne hx] at hbusy
        exact h.busy x' c' hbusy }

/-- The records of the groups a run creates can be read back. -/
def Readable (codec : Codec D) (ls : List GroupLabel) : Prop :=
  ∀ x now name, .create x now name ∈ ls → ∀ bit, ValidBit bit →
    codec.Keeps (groupRecord name bit)

theorem Readable.step_sound {ls : List GroupLabel} (hls : Readable codec ls) {l : GroupLabel}
    (hl : l ∈ ls) (h : Sound codec shardKey nodes s)
    (hstep : step codec shardKey nodes s l = some s') : Sound codec shardKey nodes s' := by
  cases l with
  | create x now name =>
    -- the record that is sent has a valid bit, and its text is read back
    simp only [step] at hstep
    split at hstep
    · next hx =>
      split at hstep
      · cases hstep
        exact h
      · next bit hbit =>
        cases hstep
        obtain ⟨hname, -, hvalid, -⟩ := groupBit_spec hbit
        refine h.send hx.1 fun bit' heq => ?_
        cases heq
        exact ⟨hname, hvalid, hls x now name hl bit hvalid⟩
    · cases hstep
  | delete x now name =>
    simp only [step] at hstep
    split at hstep
    · next hx =>
      cases hstep
      exact h.send hx.1 nofun
    · cases hstep
  | finish x applied =>
    -- what was pending at the node was sound when it was sent
    simp only [step] at hstep
    split at hstep
    · cases hstep
    · next c hbusy =>
      cases hstep
      cases applied with
      | false => exact h.release x
      | true => exact (h.apply x (h.busy x c hbusy).2).release x
  | deliver y c =>
    simp only [step] at hstep
    split at hstep
    · next hy =>
      cases hstep
      exact h.apply y hy.2
    · cases hstep
  | cleanup y now =>
    simp only [step] at hstep
    split at hstep
    · cases hstep
      exact h.clean y now
    · cases hstep

/-! ## Unique in any order -/

/-- No registry of the nodes can come to have two groups with one bit. -/
def NoneClash (shardKey : CString → CString → CString) (nodes : List NodeId)
    (s : GroupCluster) : Prop :=
  ∀ y ∈ nodes, NoClash s.sent (s.registry shardKey y)

theorem NoneClash.apply (h : NoneClash shardKey nodes s) (y : NodeId) (c : GroupChange) :
    NoneClash shardKey nodes (s.apply codec shardKey y c) := by
  intro y' hy'
  by_cases hy : y' = y
  · subst hy
    rw [registry_apply_self]
    exact (h y' hy').mono (below_applyChange _ _)
  · rw [registry_apply_of_ne s c hy]
    exact h y' hy'

/-- After deliveries alone the bits stay unique. -/
theorem Sound.uniqueInAnyOrder (h : Sound codec shardKey nodes s)
    (hclash : NoneClash shardKey nodes s) : UniqueInAnyOrder codec shardKey nodes s := by
  intro ds
  induction ds generalizing s with
  | nil => exact h.bitsUnique hclash
  | cons d ds ih =>
    refine ⟨h.bitsUnique hclash, ?_⟩
    simp only [step]
    split
    · trivial
    · next t hnext =>
      split at hnext
      · next hd =>
        cases hnext
        exact ih (h.apply d.1 hd.2) (hclash.apply d.1 d.2)
      · cases hnext

theorem step_deliver (hy : y ∈ nodes) (hc : c ∈ s.sent) :
    step codec shardKey nodes s (.deliver y c) = some (s.apply codec shardKey y c) :=
  if_pos ⟨hy, hc⟩

theorem UniqueInAnyOrder.bitsUnique (h : UniqueInAnyOrder codec shardKey nodes s) :
    BitsUnique codec shardKey nodes s :=
  h []

theorem UniqueInAnyOrder.apply (h : UniqueInAnyOrder codec shardKey nodes s) (hy : y ∈ nodes)
    (hc : c ∈ s.sent) : UniqueInAnyOrder codec shardKey nodes (s.apply codec shardKey y c) := by
  intro ds
  obtain ⟨-, hrest⟩ := h ((y, c) :: ds)
  dsimp only at hrest
  rw [step_deliver hy hc] at hrest
  exact hrest

/-- Two records that a registry would take, delivered one after the other, are two groups
with one bit. -/
theorem Sound.noneClash (h : Sound codec shardKey nodes s)
    (hunique : UniqueInAnyOrder codec shardKey nodes s) : NoneClash shardKey nodes s := by
  intro y hy c hc c' hc' hname hbit hsome
  by_contra hneither
  rw [not_or, Bool.not_eq_true, Bool.not_eq_true] at hneither
  obtain ⟨htaken, htaken'⟩ := hneither
  obtain ⟨bit, hc_bit⟩ := Option.ne_none_iff_exists'.mp hsome
  have hc'_bit : c'.bit = some bit := hbit ▸ hc_bit
  -- the first delivery leaves the second name alone
  have hrow₁ : ((s.apply codec shardKey y c).registry shardKey y).lookup c.name =
      some (c.change codec).row := by
    rw [registry_apply_self, lookup_applyChange_change, if_pos ⟨rfl, htaken⟩]
  have hstored : ((s.apply codec shardKey y c).registry shardKey y).lookup c'.name =
      (s.registry shardKey y).lookup c'.name := by
    rw [registry_apply_self, lookup_applyChange_change, if_neg fun h => hname h.1]
  have htaken₁ : c'.refused ((s.apply codec shardKey y c).registry shardKey y) = false := by
    rw [← htaken', GroupChange.refused, GroupChange.refused, storedVersionLocked,
      storedVersionLocked, hstored]
  have hsound := (h.apply y hc).apply (c := c') y hc'
  have hrow : (((s.apply codec shardKey y c).apply codec shardKey y c').registry
      shardKey y).lookup c.name = some (c.change codec).row := by
    rw [registry_apply_self, lookup_applyChange_change, if_neg fun h => hname h.1.symm, hrow₁]
  have hrow' : (((s.apply codec shardKey y c).apply codec shardKey y c').registry
      shardKey y).lookup c'.name = some (c'.change codec).row := by
    rw [registry_apply_self, lookup_applyChange_change, if_pos ⟨rfl, htaken₁⟩]
  have hfinal : BitsUnique codec shardKey nodes
      ((s.apply codec shardKey y c).apply codec shardKey y c') :=
    UniqueInAnyOrder.bitsUnique ((hunique.apply hy hc).apply hy hc')
  exact hfinal y hy 0 c.name c'.name _ _ hname (hsound.groupAt_of_lookup hc hc_bit hrow)
    (hsound.groupAt_of_lookup hc' hc'_bit hrow') rfl

theorem Sound.unique_iff_noneClash (h : Sound codec shardKey nodes s) :
    UniqueInAnyOrder codec shardKey nodes s ↔ NoneClash shardKey nodes s :=
  ⟨h.noneClash, h.uniqueInAnyOrder⟩

/-! ## Runs that keep the bits unique -/

/-- A new record clashes with no other exactly when its bit is free everywhere. -/
theorem NoneClash.send_iff (h : NoneClash shardKey nodes s) (x : NodeId) (hbit : c.bit ≠ none) :
    NoneClash shardKey nodes (s.send x c) ↔ s.FreeEverywhere shardKey nodes c := by
  constructor
  · intro h' y hy
    by_cases hr : c.refused (s.registry shardKey y) = true
    · exact Or.inl hr
    · refine Or.inr fun c' hc' hname hsame => ?_
      have := h' y hy c List.mem_cons_self c' (List.mem_cons_of_mem c hc') (Ne.symm hname)
        hsame.symm hbit
      exact this.resolve_left hr
  · intro hfree y hy c₁ hc₁ c₂ hc₂ hname hsame hsome
    rcases List.mem_cons.mp hc₁ with rfl | hold₁
    · rcases List.mem_cons.mp hc₂ with rfl | hold₂
      · exact absurd rfl hname
      · exact (hfree y hy).imp_right fun hall => hall c₂ hold₂ (Ne.symm hname) hsame.symm
    · rcases List.mem_cons.mp hc₂ with rfl | hold₂
      · exact ((hfree y hy).imp_right fun hall => hall c₁ hold₁ hname hsame).symm
      · exact h y hy c₁ hold₁ c₂ hold₂ hname hsame hsome

/-- A tombstone clashes with nothing. -/
theorem NoneClash.send_tombstone (h : NoneClash shardKey nodes s) (x : NodeId)
    (hbit : c.bit = none) : NoneClash shardKey nodes (s.send x c) := by
  intro y hy c₁ hc₁ c₂ hc₂ hname hsame hsome
  rcases List.mem_cons.mp hc₁ with rfl | hold₁
  · exact absurd hbit hsome
  · rcases List.mem_cons.mp hc₂ with rfl | hold₂
    · exact absurd (hsame.trans hbit) hsome
    · exact h y hy c₁ hold₁ c₂ hold₂ hname hsame hsome

theorem NoneClash.clean_iff (h : NoneClash shardKey nodes s) (hy : y ∈ nodes) (now : Int) :
    NoneClash shardKey nodes (s.clean shardKey y now) ↔
      NoClash s.sent (edbShardCleanup now (s.registry shardKey y)) := by
  constructor
  · intro h'
    have hclean := h' y hy
    rwa [registry_clean_self] at hclean
  · intro hclean y' hy'
    by_cases heq : y' = y
    · subst heq
      rw [registry_clean_self]
      exact hclean
    · rw [registry_clean_of_ne s now heq]
      exact h y' hy'

/-- **One step.** -/
theorem noneClash_step_iff {l : GroupLabel} (h : NoneClash shardKey nodes s)
    (hstep : step codec shardKey nodes s l = some s') :
    NoneClash shardKey nodes s' ↔ s.Careful codec shardKey nodes l := by
  cases l with
  | create x now name =>
    -- the only step that gives out a bit; without a free one nothing is sent
    simp only [step] at hstep
    split at hstep
    · next hx =>
      split at hstep
      · next hnone =>
        cases hstep
        refine iff_of_true h fun _ _ bit hbit => ?_
        rw [hnone] at hbit
        cases hbit
      · next bit hsome =>
        cases hstep
        refine (h.send_iff (c := ⟨name, some bit, now, x⟩) x (Option.some_ne_none bit)).trans ?_
        constructor
        · intro hfree _ _ bit' hbit'
          rw [hsome] at hbit'
          cases hbit'
          exact hfree
        · intro hcareful
          exact hcareful hx.1 hx.2 bit hsome
    · cases hstep
  | delete x now name =>
    -- a tombstone has no bit to clash with
    simp only [step] at hstep
    split at hstep
    · cases hstep
      exact iff_of_true (h.send_tombstone x rfl) trivial
    · cases hstep
  | finish x applied =>
    -- an apply spreads a record that was in the run already
    simp only [step] at hstep
    split at hstep
    · cases hstep
    · next c _ =>
      cases hstep
      refine iff_of_true ?_ trivial
      cases applied with
      | false => exact h
      | true => exact h.apply x c
  | deliver y c =>
    simp only [step] at hstep
    split at hstep
    · cases hstep
      exact iff_of_true (h.apply y c) trivial
    · cases hstep
  | cleanup y now =>
    -- a cleanup may remove the tombstone that keeps a bit from being reused
    simp only [step] at hstep
    split at hstep
    · next hy =>
      cases hstep
      rw [h.clean_iff hy]
      exact ⟨fun hclean _ => hclean, fun hcareful => hcareful hy⟩
    · cases hstep

/-- A refused step is careful. -/
theorem careful_of_refused {l : GroupLabel} (h : step codec shardKey nodes s l = none) :
    s.Careful codec shardKey nodes l := by
  cases l with
  | create x now name =>
    intro hx hbusy
    simp only [step, if_pos (And.intro hx hbusy)] at h
    split at h <;> cases h
  | cleanup y now =>
    intro hy
    simp only [step, if_pos hy] at h
    cases h
  | delete | finish | deliver => trivial

/-- Nodes without groups. -/
def empty : GroupCluster where
  engine _ _ := ∅

variable (codec shardKey nodes) in
theorem sound_empty : Sound codec shardKey nodes empty where
  rows y name r hrow := by
    rw [show empty.registry shardKey y = ∅ from rfl, AList.lookup_empty] at hrow
    cases hrow
  busy := nofun
  groups := List.forall_mem_nil _

/-- **When the bits are unique**: in a run from nodes without groups no two groups of a node
ever share a bit, in whatever order the rest is delivered, exactly when every group is
created with a bit that is free everywhere and no cleanup pass makes room for a clash. -/
theorem uniqueInAnyOrder_iff (shardKey : CString → CString → CString) (nodes : List NodeId)
    {ls : List GroupLabel} (hls : Readable codec ls) :
    Runs.Throughout (step codec shardKey nodes) (UniqueInAnyOrder codec shardKey nodes) empty ls ↔
      Runs.Along (step codec shardKey nodes) (Careful codec shardKey nodes) empty ls := by
  rw [Runs.throughout_iff_of_inv (fun l hl s s' h hstep => hls.step_sound hl h hstep)
    (sound_empty codec shardKey nodes)]
  refine Runs.throughout_iff_along (fun l _ s h => careful_of_refused h) ?_
    ⟨sound_empty codec shardKey nodes,
      (sound_empty codec shardKey nodes).uniqueInAnyOrder fun _ _ => List.forall_mem_nil _⟩
  rintro l hl s s' ⟨hsound, hunique⟩ hstep
  have hsound' := hls.step_sound hl hsound hstep
  rw [and_iff_right hsound', hsound'.unique_iff_noneClash]
  exact noneClash_step_iff (hsound.noneClash hunique) hstep

/-! ## The calls take these steps -/

variable (codec shardKey nodes) in
/-- A change that arrives at some nodes. -/
theorem run_deliver {ys : List NodeId} (hys : ys.Nodup) (hnodes : ∀ y ∈ ys, y ∈ nodes)
    (hc : c ∈ s.sent) :
    ∃ t, Runs.run (step codec shardKey nodes) s (ys.map (.deliver · c)) = some t ∧
      t.busy = s.busy ∧ ∀ y, t.engine y =
        if y ∈ ys then (applyChangeLocal shardKey (s.engine y) (c.doc codec)).1
        else s.engine y := by
  induction ys generalizing s with
  | nil => exact ⟨s, rfl, rfl, fun y => (if_neg List.not_mem_nil).symm⟩
  | cons z ys ih =>
    obtain ⟨hz, hys⟩ := List.nodup_cons.mp hys
    obtain ⟨hz_mem, hnodes⟩ := List.forall_mem_cons.mp hnodes
    obtain ⟨t, hrun, hbusy, ht⟩ := ih (s := s.apply codec shardKey z c) hys hnodes hc
    refine ⟨t, ?_, hbusy, fun y => ?_⟩
    · rw [List.map_cons, Runs.run_cons _ (step_deliver hz_mem hc)]
      exact hrun
    · rw [ht y]
      show (if y ∈ ys then
          (applyChangeLocal shardKey (Function.update s.engine z _ y) (c.doc codec)).1
        else Function.update s.engine z _ y) = _
      by_cases hy : y = z
      · subst hy
        rw [if_neg hz, if_pos List.mem_cons_self, Function.update_self]
      · simp only [Function.update_of_ne hy, List.mem_cons, hy, false_or]

variable (codec shardKey nodes) in
/-- A call returns. -/
theorem run_finish (hbusy : s.busy x = some c) (applied : Bool) :
    ∃ t, Runs.run (step codec shardKey nodes) s [.finish x applied] = some t ∧
      t.engine = if applied then (s.apply codec shardKey x c).engine else s.engine := by
  have hstep : step codec shardKey nodes s (.finish x applied) =
      some { (if applied then s.apply codec shardKey x c else s) with
        busy := Function.update (if applied then s.apply codec shardKey x c else s).busy x none } := by
    simp only [step, hbusy]
  refine ⟨_, Runs.run_cons [] hstep, ?_⟩
  cases applied <;> rfl

variable (codec shardKey) in
/-- A call that sent its change returns after it arrived at the nodes `p`. -/
theorem run_sent (hnodup : nodes.Nodup) (hc : c ∈ s.sent) (hbusy : s.busy x = some c)
    (p : NodeId → Bool) (hp : ∀ y, p y = true → y ∈ nodes) :
    ∃ ls t, Runs.run (step codec shardKey nodes) s ls = some t ∧
      ∀ y, t.engine y =
        if p y then (applyChangeLocal shardKey (s.engine y) (c.doc codec)).1 else s.engine y := by
  obtain ⟨t, hrun, hkept, ht⟩ := run_deliver codec shardKey nodes
    (hnodup.filter fun y => y ≠ x && p y) (fun y hy => List.mem_of_mem_filter hy) hc
  obtain ⟨u, hfinish, hu⟩ := run_finish codec shardKey nodes (hkept ▸ hbusy) (p x)
  have hmem : ∀ y, y ∈ nodes.filter (fun y => y ≠ x && p y) ↔ y ≠ x ∧ p y = true := by
    intro y
    rw [List.mem_filter, Bool.and_eq_true, decide_eq_true_eq]
    exact and_iff_right_of_imp fun h => hp y h.2
  refine ⟨_, u, (Runs.run_append_of _ hrun).trans hfinish, fun y => ?_⟩
  rw [hu]
  by_cases hy : y = x
  · subst hy
    have hkeep : t.engine y = s.engine y := by
      rw [ht y, if_neg fun h => ((hmem y).mp h).1 rfl]
    cases p y with
    | false => exact hkeep
    | true =>
      show Function.update t.engine y (applyChangeLocal shardKey (t.engine y) _).1 y = _
      rw [Function.update_self, hkeep]
      rfl
  · have hother : (if p x then (t.apply codec shardKey x c).engine else t.engine) y =
        t.engine y := by
      split
      · exact Function.update_of_ne hy ..
      · rfl
    rw [hother, ht y]
    simp only [hmem y, hy, ne_eq, not_false_eq_true, true_and]

section

variable {w : World} {self : NodeId} {ans : NodeId → Delivery} {doc : ChangeDoc}
  {db partition keyspace : CString}

variable (codec shardKey) in
/-- A call that sent its change leaves the engines that `edb_repl_write` leaves. -/
theorem run_edbReplWrite (hs : ∀ y, s.engine y = (w y).engine) (hnodup : nodes.Nodup)
    (hself : self ∈ nodes) (hpeers : ∀ y, Contacted self (w self).peers y → y ∈ nodes)
    (hc : c ∈ s.sent) (hbusy : s.busy self = some c) (hdoc : c.doc codec = sentDoc self doc)
    (hp : doc.partition = some partition) (hk : doc.keyspace = some keyspace) (now : Int) :
    ∃ ls t, Runs.run (step codec shardKey nodes) s ls = some t ∧
      ∀ y, t.engine y = ((edbReplWrite shardKey w self now ans db doc).2 y).engine := by
  obtain ⟨ls, t, hrun, ht⟩ := run_sent codec shardKey hnodup hc hbusy
    (appliedAt shardKey (w self) ans db partition keyspace doc) (by
      intro y happlied
      unfold appliedAt at happlied
      split at happlied
      · next hy => exact hy ▸ hself
      · simp only [Bool.and_eq_true, decide_eq_true_eq] at happlied
        exact hpeers y happlied.1.1)
  refine ⟨ls, t, hrun, fun y => ?_⟩
  rw [ht y, edbReplWrite_engine hp hk, hs y, hdoc]

variable {F : Type} [DecidableEq F] (fingerprint : Json D → F) (clock : NodeId → Int)
  (answers : NodeId → Bool) (ans)

/-- **A group is created by these steps**: they leave the engines that `edb_group_create`
leaves on a node with replication. -/
theorem run_edbGroupCreate (hs : ∀ y, s.engine y = (w y).engine) (hnodup : nodes.Nodup)
    (hself : self ∈ nodes) (hpeers : ∀ y, Contacted self (w self).peers y → y ∈ nodes)
    (hbusy : s.busy self = none) (name : CString) :
    ∃ ls t, Runs.run (step codec shardKey nodes) s
        (.create self (clock self) name :: ls) = some t ∧
      ∀ y, t.engine y = ((edbGroupCreate (replBackend codec fingerprint shardKey self clock
        answers ans) name w).2 y).engine := by
  have hbit : groupBit (replBackend codec fingerprint shardKey self clock answers ans) w name =
      s.newBit codec shardKey self (clock self) name := by
    rw [newBit, hs self]
    rfl
  rw [edbGroupCreate, hbit]
  cases hnew : s.newBit codec shardKey self (clock self) name with
  | none =>
    have hstep : step codec shardKey nodes s (.create self (clock self) name) = some s := by
      simp only [step, hself, hbusy, and_self, if_true, hnew]
    exact ⟨[], s, Runs.run_cons [] hstep, hs⟩
  | some bit =>
    have hstep : step codec shardKey nodes s (.create self (clock self) name) =
        some (s.send self ⟨name, some bit, clock self, self⟩) := by
      simp only [step, hself, hbusy, and_self, if_true, hnew]
    obtain ⟨ls, t, hrun, ht⟩ := run_edbReplWrite codec shardKey
      (s := s.send self ⟨name, some bit, clock self, self⟩) hs hnodup hself hpeers
      List.mem_cons_self (Function.update_self ..) rfl rfl rfl (clock self)
    exact ⟨ls, t, (Runs.run_cons ls hstep).trans hrun, ht⟩

/-- **A group is deleted by these steps.** -/
theorem run_edbGroupDelete (hs : ∀ y, s.engine y = (w y).engine) (hnodup : nodes.Nodup)
    (hself : self ∈ nodes) (hpeers : ∀ y, Contacted self (w self).peers y → y ∈ nodes)
    (hbusy : s.busy self = none) (name : CString) :
    ∃ ls t, Runs.run (step codec shardKey nodes) s
        (.delete self (clock self) name :: ls) = some t ∧
      ∀ y, t.engine y = ((edbGroupDelete (replBackend codec fingerprint shardKey self clock
        answers ans) name w).2 y).engine := by
  have hstep : step codec shardKey nodes s (.delete self (clock self) name) =
      some (s.send self ⟨name, none, clock self, self⟩) := by
    simp only [step, hself, hbusy, and_self, if_true]
  obtain ⟨ls, t, hrun, ht⟩ := run_edbReplWrite codec shardKey
    (s := s.send self ⟨name, none, clock self, self⟩) hs hnodup hself hpeers
    List.mem_cons_self (Function.update_self ..) rfl rfl rfl (clock self)
  exact ⟨ls, t, (Runs.run_cons ls hstep).trans hrun, ht⟩

end

/-! ## Two nodes and two groups -/

/-- The texts of two records are told apart by names of one length and by the bits. -/
theorem text_groupRecord_inj {name name' : CString} (hlen : name.length = name'.length)
    {bit bit' : UInt64} (h : (groupRecord name bit).text = (groupRecord name' bit').text) :
    (groupRecord name bit : Json Int) = groupRecord name' bit' := by
  have htext : ∀ (n : CString) (b : UInt64), (groupRecord n b : Json Int).text =
      cstr "\x7b\"type\":\"group\",\"name\":\"" ++
        (n ++ (cstr "\",\"bit_position\":\"" ++ (cstr (toString b.toNat) ++ [34, 125]))) := by
    intro n b
    simp [groupRecord, u64Json, Json.text, Json.memberTexts, Json.memberText, cstr]
  rw [htext, htext] at h
  obtain ⟨hname, hrest⟩ := List.append_inj (List.append_cancel_left h) hlen
  have htail := List.append_cancel_left hrest
  have hdigits := List.append_cancel_right htail
  have hbit := congrArg strtoull hdigits
  rw [strtoull_toString, strtoull_toString] at hbit
  rw [hname, Option.some.inj hbit]

/-- The records of two groups with short names, with any bit. -/
def groupTable : List (Json Int) :=
  bitPositions.flatMap fun bit => [groupRecord (cstr "ops") bit, groupRecord (cstr "dev") bit]

theorem mem_groupTable {v : Json Int} :
    v ∈ groupTable ↔
      ∃ name ∈ [cstr "ops", cstr "dev"], ∃ bit, ValidBit bit ∧ v = groupRecord name bit := by
  simp only [groupTable, List.mem_flatMap, mem_bitPositions, List.mem_cons, List.not_mem_nil,
    or_false, exists_eq_or_imp, exists_eq_left]
  constructor
  · rintro ⟨bit, hbit, rfl | rfl⟩
    · exact Or.inl ⟨bit, hbit, rfl⟩
    · exact Or.inr ⟨bit, hbit, rfl⟩
  · rintro (⟨bit, hbit, rfl⟩ | ⟨bit, hbit, rfl⟩)
    · exact ⟨bit, hbit, Or.inl rfl⟩
    · exact ⟨bit, hbit, Or.inr rfl⟩

/-- A codec for these records. -/
def groupCodec : Codec Int := tableCodec groupTable fun v hv => by
  obtain ⟨name, -, bit, -, rfl⟩ := mem_groupTable.mp hv
  rfl

theorem groupCodec_keeps {name : CString} (hname : name ∈ [cstr "ops", cstr "dev"])
    {bit : UInt64} (hbit : ValidBit bit) : groupCodec.Keeps (groupRecord name bit) where
  print_ne := List.cons_ne_nil _ _
  parse_print := by
    refine tableCodec_parse_text _ (fun v hv w hw htext => ?_)
      (mem_groupTable.mpr ⟨name, hname, bit, hbit, rfl⟩)
    obtain ⟨n, hn, b, -, rfl⟩ := mem_groupTable.mp hv
    obtain ⟨n', hn', b', -, rfl⟩ := mem_groupTable.mp hw
    have hlen : ∀ n ∈ [cstr "ops", cstr "dev"], n.length = 3 := by decide
    exact text_groupRecord_inj ((hlen n hn).trans (hlen n' hn').symm) htext

/-- A group at `a`, and after its end has reached both nodes another one with its bit. -/
def oneAfterTheOther : List GroupLabel :=
  [.create (cstr "a") 5 (cstr "ops"), .finish (cstr "a") true,
    .deliver (cstr "b") ⟨cstr "ops", some 1, 5, cstr "a"⟩,
    .delete (cstr "b") 9 (cstr "ops"), .finish (cstr "b") true,
    .deliver (cstr "a") ⟨cstr "ops", none, 9, cstr "b"⟩,
    .create (cstr "b") 9 (cstr "dev"), .finish (cstr "b") true,
    .deliver (cstr "a") ⟨cstr "dev", some 1, 9, cstr "b"⟩]

theorem readable_oneAfterTheOther : Readable groupCodec oneAfterTheOther := by
  intro x now name hmem bit hbit
  refine groupCodec_keeps ?_ hbit
  simp only [oneAfterTheOther, List.mem_cons, List.not_mem_nil, or_false, reduceCtorEq, false_or,
    or_false, GroupLabel.create.injEq] at hmem
  rcases hmem with ⟨-, -, rfl⟩ | ⟨-, -, rfl⟩
  · exact List.mem_cons_self
  · exact List.mem_cons_of_mem _ List.mem_cons_self

/-- The two nodes. -/
def pair : List NodeId := [cstr "a", cstr "b"]

/-- The second group may have the bit: both nodes know that the first one is gone. -/
theorem oneAfterTheOther_unique :
    (Runs.run (step groupCodec (fun _ _ => sliceBound 0) pair) empty oneAfterTheOther).map
      (fun s => (s.sent.map GroupChange.bit, pair.map fun y =>
        s.groupAt groupCodec (fun _ _ => sliceBound 0) y 9 (cstr "dev"))) =
      some ([some 1, none, some 1], [some ⟨cstr "dev", 1⟩, some ⟨cstr "dev", 1⟩]) ∧
    Runs.Throughout (step groupCodec (fun _ _ => sliceBound 0) pair)
      (UniqueInAnyOrder groupCodec (fun _ _ => sliceBound 0) pair) empty oneAfterTheOther :=
  ⟨by decide +kernel,
    (uniqueInAnyOrder_iff (fun _ _ => sliceBound 0) pair readable_oneAfterTheOther).mpr
      (by decide +kernel)⟩

/-- Both nodes create a group before either change arrives. -/
def atTheSameTime : List GroupLabel :=
  [.create (cstr "a") 5 (cstr "ops"), .create (cstr "b") 5 (cstr "dev"),
    .finish (cstr "a") true, .finish (cstr "b") true,
    .deliver (cstr "b") ⟨cstr "ops", some 1, 5, cstr "a"⟩]

/-- Then `b` has two groups with bit 1. -/
theorem concurrent_creates_share :
    ¬ Runs.Throughout (step groupCodec (fun _ _ => sliceBound 0) pair)
      (BitsUnique groupCodec (fun _ _ => sliceBound 0) pair) empty atTheSameTime := by
  intro h
  obtain ⟨s, hrun, hops, hdev⟩ :
      ∃ s ∈ Runs.run (step groupCodec (fun _ _ => sliceBound 0) pair) empty atTheSameTime,
        s.groupAt groupCodec (fun _ _ => sliceBound 0) (cstr "b") 5 (cstr "ops") =
            some ⟨cstr "ops", 1⟩ ∧
          s.groupAt groupCodec (fun _ _ => sliceBound 0) (cstr "b") 5 (cstr "dev") =
            some ⟨cstr "dev", 1⟩ := by
    decide +kernel
  exact Runs.of_throughout h hrun (cstr "b") (by decide) 5 _ _ _ _ (by decide) hops hdev rfl

end GroupCluster

end EpsilonDB
