import EpsilonDB.Api.Restore
import EpsilonDB.Httpd.Replies
import Mathlib.Data.List.Dedup

/-!
# Nodes behind a tool (`epsilonbkup.c`, `api/epsilon_api_cluster.c`)

The backup tool makes one request after the other, and the nodes of a cluster go on with their
work between two of them. A request may be refused, and its answer may be lost or break off.

- `ShardFormat`: the files of SQLite.
- `StorageNode`, `StorageNode.step`: a node with what a scan of its directory finds, and the
  steps of `Restoring`.
- `StorageNode.rows`: what the file of a shard holds. `rows_step`: the steps that leave it.
- `handleManifest`, `handleDownload`, `handleLock`, `handleUnlock`, `handleWipe`, `handleUpload`:
  the handlers, in these steps.
- `uploadArgs_uploadQuery`: the query of an upload is read as it was meant.
- `Net`, `Net.request`: all nodes, and one request. `request_cases`: what it does.
-/

namespace EpsilonDB

/-! ## Files -/

/-- The bytes of a file: their number is an `off_t`. -/
abbrev FileBytes : Type := { bytes : Bytes // bytes.length < 2 ^ 63 }

/-- The file that SQLite has copied a shard to, and what it finds in one that it calls intact. -/
structure ShardFormat where
  encode : Shard → FileBytes
  decode : Bytes → Option Shard

/-- The copy of the rows is not empty, and is read back. -/
structure ShardFormat.Keeps (format : ShardFormat) (rows : Shard) : Prop where
  encode_ne : (format.encode rows).1 ≠ []
  decode_encode : format.decode (format.encode rows).1 = some rows

namespace Restoring

/-- The shards whose files a step may create. -/
def Label.creates : Label → List CString
  | .upload key _ _ _ | .engine (.openShard key) => [key]
  | _ => []

/-- The step leaves the file of a shard alone. -/
def Label.Spares (key : CString) : Label → Prop
  | .unlink key' => key' ≠ key
  | .upload key' _ _ final => key' ≠ key ∨ final = false
  | .put _ _ _ _ _ _ | .cleanup _ _ => False
  | _ => True

variable {isSystemKey : CString → Bool} {decode : Bytes → Option Shard} {s s' : Restoring}
variable {key : CString}

theorem file_openFile {t : Store} {key' : CString}
    (h : ((t.openFile key).1.file key').isSome) : key' = key ∨ (t.file key').isSome := by
  unfold Store.openFile at h
  split at h
  · exact .inr h
  · have hfile : (Function.update t.file key (some t.made) key').isSome := h
    by_cases heq : key' = key
    · exact .inl heq
    · rw [Function.update_of_ne heq] at hfile
      exact .inr hfile

/-- No other file comes into being. -/
theorem file_step {l : Label} (hstep : s.step isSystemKey decode l = some s')
    (h : (s'.store.file key).isSome) : key ∈ l.creates ∨ (s.store.file key).isSome := by
  cases l with
  | lock | unlock =>
    obtain rfl := Option.some.inj hstep
    exact .inr h
  | wipe keys =>
    obtain rfl := Option.some.inj hstep
    rw [wipe_store] at h
    exact .inr h
  | wipeKey key' =>
    obtain ⟨-, heq⟩ := Option.ite_none_right_eq_some.mp hstep
    obtain rfl := Option.some.inj heq
    exact .inr h
  | gc key' =>
    obtain rfl := Option.some.inj hstep
    exact .inr h
  | unlink key' =>
    -- a file that is removed is none that came into being
    obtain ⟨-, heq⟩ := Option.ite_none_right_eq_some.mp hstep
    obtain rfl := Option.some.inj heq
    have hfile : (Function.update s.store.file key' none key).isSome := h
    by_cases hkey : key = key'
    · subst hkey
      rw [Function.update_self] at hfile
      cases hfile
    · rw [Function.update_of_ne hkey] at hfile
      exact .inr hfile
  | upload key' offset body final =>
    -- the rename of the last chunk makes the file, under the key of the upload
    obtain rfl := Option.some.inj hstep
    rcases s.upload_store isSystemKey decode key' offset body final with heq | ⟨rows, heq⟩
    · rw [heq] at h
      exact .inr h
    · rw [heq] at h
      have hfile : (Function.update s.store.file key' (some s.store.made) key).isSome := h
      by_cases hkey : key = key'
      · exact .inl (List.mem_singleton.mpr hkey)
      · rw [Function.update_of_ne hkey] at hfile
        exact .inr hfile
  | engine l =>
    -- an open makes the file of its key
    obtain ⟨-, t, ht, rfl⟩ := engine_of_step hstep
    rcases Store.engine_cases ht with ⟨key', rfl, rfl⟩ | ⟨-, -, heq⟩
    · exact (file_openFile h).imp_left List.mem_singleton.mpr
    · rw [heq] at h
      exact .inr h
  | put i now id jsonValue ttlSeconds notices =>
    obtain ⟨-, heq⟩ := Option.ite_none_right_eq_some.mp hstep
    obtain rfl := Option.some.inj heq
    unfold Store.put at h
    split at h <;> exact .inr h
  | cleanup i now =>
    obtain ⟨-, heq⟩ := Option.ite_none_right_eq_some.mp hstep
    obtain rfl := Option.some.inj heq
    exact .inr h

/-! ### The rows in a file -/

theorem restart_congr {t t' : Store} (hfile : t'.file key = t.file key)
    (hrows : ∀ f ∈ t.file key, t'.rows f = t.rows f) : t'.restart key = t.restart key := by
  unfold Store.restart
  rw [hfile]
  cases h : t.file key with
  | none => rfl
  | some f => exact hrows f h

theorem restart_of_some {t : Store} {f : Nat} (h : t.file key = some f) :
    t.restart key = t.rows f := by
  rw [Store.restart, h]

theorem restart_of_none {t : Store} (h : t.file key = none) : t.restart key = ∅ := by
  rw [Store.restart, h]

/-- Opening a shard gives an empty file to one that has none. -/
theorem restart_openFile {t : Store} (hmade : ∀ f ∈ t.file key, f < t.made) (key' : CString) :
    (t.openFile key').1.restart key = t.restart key := by
  unfold Store.openFile
  split
  · rfl
  · next hnone =>
    by_cases hkey : key = key'
    · subst hkey
      rw [restart_of_none hnone]
      exact (restart_of_some (Function.update_self ..)).trans (Function.update_self ..)
    · refine restart_congr (Function.update_of_ne hkey ..) fun f hf => ?_
      exact Function.update_of_ne (hmade f hf).ne ..

theorem restart_engine {t t' : Store} (h : Sane t) {l : Manager.Label}
    (hstep : t.engine l = some t') : t'.restart key = t.restart key := by
  obtain ⟨home, hhomed⟩ := h.homed
  rcases Store.engine_cases hstep with ⟨key', rfl, rfl⟩ | ⟨-, -, heq⟩
  · exact restart_openFile (fun f hf => (hhomed.file key f hf).2) key'
  · rw [heq]
    rfl

theorem restart_rename_self (t : Store) (key : CString) (rows : Shard) :
    (t.rename key rows).restart key = rows := by
  have hrows := restart_of_some (t := t.rename key rows) (Function.update_self ..)
  exact hrows.trans (Function.update_self ..)

theorem restart_rename_of_ne {t : Store} (h : Sane t) {key' : CString} (hne : key' ≠ key)
    (rows : Shard) : (t.rename key' rows).restart key = t.restart key := by
  obtain ⟨home, hhomed⟩ := h.homed
  refine restart_congr (Function.update_of_ne hne.symm ..) fun f hf => ?_
  exact Function.update_of_ne (hhomed.file key f hf).2.ne ..

/-- **A step that spares a shard** leaves its rows. -/
theorem restart_step {l : Label} (h : Sane s.store) (hl : l.Spares key)
    (hstep : s.step isSystemKey decode l = some s') :
    s'.store.restart key = s.store.restart key := by
  cases l with
  | lock | unlock =>
    obtain rfl := Option.some.inj hstep
    rfl
  | wipe keys =>
    obtain rfl := Option.some.inj hstep
    rw [wipe_store]
  | wipeKey key' =>
    obtain ⟨-, heq⟩ := Option.ite_none_right_eq_some.mp hstep
    obtain rfl := Option.some.inj heq
    rfl
  | gc key' =>
    obtain rfl := Option.some.inj hstep
    rfl
  | unlink key' =>
    obtain ⟨-, heq⟩ := Option.ite_none_right_eq_some.mp hstep
    obtain rfl := Option.some.inj heq
    exact restart_congr (Function.update_of_ne (Ne.symm hl) ..) fun _ _ => rfl
  | upload key' offset body final =>
    obtain rfl := Option.some.inj hstep
    rcases hl with hne | rfl
    · rcases s.upload_store isSystemKey decode key' offset body final with heq | ⟨rows, heq⟩
      · rw [heq]
      · rw [heq, restart_rename_of_ne h hne]
    · unfold handleRestoreShardUpload
      split
      · rfl
      split
      · rfl
      split
      · rfl
      split <;> rfl
  | engine l =>
    obtain ⟨-, t, ht, rfl⟩ := engine_of_step hstep
    exact restart_engine h ht
  | put i now id jsonValue ttlSeconds notices => exact hl.elim
  | cleanup i now => exact hl.elim

/-- Nothing but an unlock takes the lock away. -/
theorem locked_step {l : Label} (hl : l ≠ .unlock) (h : s.locked = true)
    (hstep : s.step isSystemKey decode l = some s') : s'.locked = true := by
  cases l with
  | lock =>
    obtain rfl := Option.some.inj hstep
    rfl
  | unlock => exact absurd rfl hl
  | wipe keys =>
    obtain rfl := Option.some.inj hstep
    unfold handleRestoreWipe
    split <;> exact h
  | gc key' =>
    obtain rfl := Option.some.inj hstep
    exact h
  | wipeKey key' | unlink key' | put | cleanup =>
    obtain ⟨-, heq⟩ := Option.ite_none_right_eq_some.mp hstep
    obtain rfl := Option.some.inj heq
    exact h
  | upload key' offset body final =>
    -- the answers to an upload differ, the lock does not
    obtain rfl := Option.some.inj hstep
    unfold handleRestoreShardUpload
    split
    · exact h
    split
    · exact h
    split
    · exact h
    split
    · exact h
    split
    · split <;> exact h
    · exact h
  | engine l =>
    obtain ⟨-, t, -, rfl⟩ := engine_of_step hstep
    exact h

end Restoring

/-! ## A node -/

/-- A node, and the shards that `edb_engine_shard_keys` finds in its data directory. -/
structure StorageNode where
  restoring : Restoring
  listed : List CString
  mem_listed : ∀ key, key ∈ listed ↔ key.length = 32 ∧ (restoring.store.file key).isSome
  sane : Restoring.Sane restoring.store

namespace StorageNode

variable (isSystemKey : CString → Bool) (format : ShardFormat)

/-- A step of the node; one that cannot be made leaves it as it is. -/
def step (n : StorageNode) (l : Restoring.Label) : StorageNode :=
  match h : n.restoring.step isSystemKey format.decode l with
  | none => n
  | some s =>
    { restoring := s
      listed := (l.creates ++ n.listed).dedup.filter fun key =>
        decide (key.length = 32 ∧ (s.store.file key).isSome)
      mem_listed := fun key => by
        rw [List.mem_filter, List.mem_dedup, List.mem_append, n.mem_listed, decide_eq_true_eq]
        exact and_iff_right_of_imp fun hfile =>
          (Restoring.file_step h hfile.2).imp_right (And.intro hfile.1)
      sane := n.sane.step h }

def steps (n : StorageNode) (ls : List Restoring.Label) : StorageNode :=
  ls.foldl (step isSystemKey format) n

/-- The rows in the file of a shard. -/
def rows (n : StorageNode) (key : CString) : Shard := n.restoring.store.restart key

variable {isSystemKey format} {n : StorageNode} {key : CString}

theorem step_eq {l : Restoring.Label} {s : Restoring}
    (h : n.restoring.step isSystemKey format.decode l = some s) :
    (n.step isSystemKey format l).restoring = s := by
  unfold step
  split
  · next hnone =>
    rw [hnone] at h
    cases h
  · next s' hsome =>
    rw [hsome] at h
    exact Option.some.inj h

theorem step_cases (n : StorageNode) (l : Restoring.Label) :
    n.step isSystemKey format l = n ∨
      n.restoring.step isSystemKey format.decode l =
        some (n.step isSystemKey format l).restoring := by
  unfold step
  split
  · exact .inl rfl
  · next h => exact .inr h

/-! ### The rows of a shard -/

theorem rows_step {l : Restoring.Label} (hl : l.Spares key) :
    (n.step isSystemKey format l).rows key = n.rows key := by
  rcases step_cases n l with heq | hstep
  · rw [heq]
  · exact Restoring.restart_step n.sane hl hstep

variable (isSystemKey format) in
/-- An operation of the engine is about the tables in memory and the files that are opened. -/
theorem step_engine (n : StorageNode) (l : Manager.Label) :
    ∃ t, (n.step isSystemKey format (.engine l)).restoring = { n.restoring with store := t } := by
  rcases n.step_cases (.engine l) with heq | hstep
  · exact ⟨n.restoring.store, by rw [heq]⟩
  · obtain ⟨-, t, -, heq⟩ := Restoring.engine_of_step hstep
    exact ⟨t, heq⟩

/-- A shard that is found stays. -/
theorem listed_engine (n : StorageNode) (l : Manager.Label) (h : key ∈ n.listed) :
    key ∈ (n.step isSystemKey format (.engine l)).listed := by
  rw [mem_listed] at h ⊢
  refine ⟨h.1, ?_⟩
  rcases n.step_cases (.engine l) with heq | hstep
  · rw [heq]
    exact h.2
  · obtain ⟨-, t, ht, heq⟩ := Restoring.engine_of_step hstep
    rw [heq]
    rcases Store.engine_cases ht with ⟨key', rfl, rfl⟩ | ⟨-, -, hstore⟩
    · obtain ⟨f, hf⟩ := Option.isSome_iff_exists.mp h.2
      exact Option.isSome_iff_exists.mpr ⟨f, (n.restoring.store.openFile_spec key').2 key f hf⟩
    · rw [hstore]
      exact h.2

/-! ### The handlers -/

variable (isSystemKey format n)

/-- The shards of `handle_backup_manifest`, with `system`. -/
def handleManifest : List (CString × Bool) := n.listed.map fun key => (key, isSystemKey key)

/-- The copy of a shard that `handle_backup_shard_download` sends: nothing at all when SQLite
cannot open the file. -/
def copyOf (key : CString) : FileBytes :=
  match n.restoring.store.file key with
  | none => ⟨[], by decide⟩
  | some f => format.encode (n.restoring.store.rows f)

/-- `handle_backup_shard_download`, without the text of an error. -/
def handleDownload (key : CString) : Nat × Option FileBytes :=
  if Restoring.validShardKey key then (200, some (n.copyOf format key)) else (400, none)

/-- `handle_restore_lock`. -/
def handleLock : StorageNode × Nat := (n.step isSystemKey format .lock, 200)

/-- `handle_restore_unlock`. -/
def handleUnlock : StorageNode × Nat := (n.step isSystemKey format .unlock, 200)

/-- The `edb_shard_gc` of each key. -/
def wipeLabels (keys : List CString) : List Restoring.Label :=
  keys.flatMap fun key => [.wipeKey key, .unlink key]

/-- `handle_restore_wipe`. -/
def handleWipe : StorageNode × Nat :=
  if n.restoring.locked then
    (n.steps isSystemKey format
      (.wipe n.listed :: wipeLabels (n.listed.filter fun key => !isSystemKey key)), 200)
  else (n, 409)

/-- `"offset=%lld"` with `"&final=1"`. -/
def uploadQuery (offset : Nat) (last : Bool) : CString :=
  cstr "offset=" ++ cstr (toString offset) ++ if last then cstr "&final=1" else []

/-- What `handle_restore_shard_upload` reads of a query. -/
def uploadArgs (query : CString) : Int × Bool :=
  let qoffset := (queryParam query (cstr "offset") 32).getD []
  let qfinal := (queryParam query (cstr "final") 8).getD []
  (if qoffset = [] then 0 else strtoll qoffset, qfinal == cstr "1")

/-- `handle_restore_shard_upload`. -/
def handleUpload (key query : CString) (body : Bytes) : StorageNode × Nat :=
  let (offset, final) := uploadArgs query
  (n.step isSystemKey format (.upload key offset body final),
    (n.restoring.handleRestoreShardUpload isSystemKey format.decode key offset body final).2)

variable {isSystemKey format n}

/-- **The query of an upload** is read as it was meant. -/
theorem uploadArgs_uploadQuery {offset : Nat} (h : offset < 2 ^ 63) (last : Bool) :
    uploadArgs (uploadQuery offset last) = ((offset : Int), last) := by
  have hdigits : ∀ c ∈ cstr (toString offset), c ≠ 38 := fun c hc =>
    ne_of_test (p := isDigit) (isDigit_of_mem_toString hc) (by decide)
  have hfirst : (38 : UInt8) ∉ cstr "offset=" ++ cstr (toString offset) := fun hmem =>
    (List.mem_append.mp hmem).elim (by decide) fun hmem => hdigits 38 hmem rfl
  -- the first argument has no `&`, so the split is where the query was put together
  have hsplit : (uploadQuery offset last).splitOn 38 =
      (cstr "offset=" ++ cstr (toString offset)) :: if last then [cstr "final=1"] else [] := by
    cases last with
    | false =>
      rw [uploadQuery, if_neg Bool.false_ne_true, List.append_nil, List.splitOn_eq_singleton hfirst]
      rfl
    | true =>
      show (cstr "offset=" ++ cstr (toString offset) ++ 38 :: cstr "final=1").splitOn 38 = _
      rw [List.splitOn_append_cons_self, List.splitOn_eq_singleton hfirst]
      rfl
  have hoffset : queryParam (uploadQuery offset last) (cstr "offset") 32 =
      some (cstr (toString offset)) := by
    have hlen : (cstr (toString offset)).length ≤ 19 :=
      length_toString_le (by decide) (h.trans (by decide))
    have hpos : 0 < (cstr (toString offset)).length :=
      List.length_pos_iff.mpr (toString_nat_ne_nil offset)
    unfold queryParam
    dsimp only
    rw [hsplit, List.find?_cons_of_pos]
    · rw [Option.map_some, show cstr "offset" ++ cstr "=" = cstr "offset=" from rfl,
        List.drop_left, snprintf_of_lt (by omega)]
    · rw [Bool.and_eq_true, List.isPrefixOf_iff_prefix, decide_eq_true_eq]
      refine ⟨List.prefix_append .., ?_⟩
      show 7 < _
      rw [List.length_append]
      exact Nat.lt_add_of_pos_right hpos
  -- the argument `final` is there in the last chunk only
  have hfinal : queryParam (uploadQuery offset last) (cstr "final") 8 =
      if last then some (cstr "1") else none := by
    unfold queryParam
    dsimp only
    rw [hsplit, List.find?_cons_of_neg]
    · cases last <;> rfl
    · simp [cstr, List.isPrefixOf]
  have hread : strtoll (cstr (toString offset)) = offset := by
    have := strtoll_toString h (t := []) nofun
    rwa [List.append_nil] at this
  unfold uploadArgs
  rw [hoffset, hfinal, Option.getD_some]
  dsimp only
  rw [if_neg (toString_nat_ne_nil offset), hread]
  cases last <;> rfl

/-! ### A wipe -/

theorem rows_of_file_none (h : n.restoring.store.file key = none) : n.rows key = ∅ := by
  rw [rows, Store.restart, h]

/-- The files of the keys are gone, one after the other. -/
theorem file_wipeLabels {keys left : List CString} (h : n.restoring.wiping = keys ++ left) :
    (n.steps isSystemKey format (wipeLabels keys)).restoring.store.file key =
      if key ∈ keys then none else n.restoring.store.file key := by
  induction keys generalizing n with
  | nil => exact (if_neg List.not_mem_nil).symm
  | cons key' keys ih =>
    have hmem : key' ∈ n.restoring.wiping := h ▸ List.mem_cons_self
    have hwipe : n.restoring.step isSystemKey format.decode (.wipeKey key') =
        some { n.restoring.edbShardGc key' with wiping := keys ++ left } := by
      rw [Restoring.step, if_pos hmem, h, List.cons_append, List.erase_cons_head]
    have hn₁ := step_eq hwipe
    set n₁ := n.step isSystemKey format (.wipeKey key') with hn₁def
    have hremoving : key' ∈ n₁.restoring.removing := hn₁ ▸ List.mem_cons_self
    have hunlink : n₁.restoring.step isSystemKey format.decode (.unlink key') =
        some { n₁.restoring with
          store := n₁.restoring.store.unlink key', removing := n₁.restoring.removing.erase key' } :=
      if_pos hremoving
    have hn₂ := step_eq hunlink
    set n₂ := n₁.step isSystemKey format (.unlink key') with hn₂def
    have hfile : ∀ k, n₂.restoring.store.file k =
        Function.update n.restoring.store.file key' none k := by
      intro k
      rw [hn₂, hn₁]
      rfl
    have hsteps : n.steps isSystemKey format (wipeLabels (key' :: keys)) =
        n₂.steps isSystemKey format (wipeLabels keys) := rfl
    rw [hsteps, ih (n := n₂) (by rw [hn₂, hn₁]), hfile]
    by_cases hkey : key = key'
    · subst hkey
      rw [Function.update_self, ite_self, if_pos List.mem_cons_self]
    · rw [Function.update_of_ne hkey]
      simp only [List.mem_cons, hkey, false_or]

/-- **A wipe** leaves nothing but the configuration. -/
theorem rows_handleWipe (hlocked : n.restoring.locked = true) (hlen : key.length = 32)
    (hsystem : isSystemKey key = false) : (n.handleWipe isSystemKey format).1.rows key = ∅ := by
  refine rows_of_file_none ?_
  rw [handleWipe, if_pos hlocked]
  have hwipe : n.restoring.step isSystemKey format.decode (.wipe n.listed) =
      some { n.restoring with
        wiping := (n.listed.filter fun key => !isSystemKey key) ++ n.restoring.wiping } := by
    rw [Restoring.step, Restoring.handleRestoreWipe, if_pos hlocked]
  have hn := step_eq hwipe
  show ((n.step isSystemKey format (.wipe n.listed)).steps isSystemKey format
    (wipeLabels (n.listed.filter fun key => !isSystemKey key))).restoring.store.file key = none
  rw [file_wipeLabels (by rw [hn])]
  split
  · rfl
  · next hnot =>
    rw [hn]
    cases hfile : n.restoring.store.file key with
    | none => rfl
    | some f =>
      refine absurd (List.mem_filter.mpr ⟨(n.mem_listed key).mpr ⟨hlen, ?_⟩, ?_⟩) hnot
      · rw [hfile]
        rfl
      · rw [hsystem]
        rfl

theorem locked_steps {ls : List Restoring.Label} (hls : ∀ l ∈ ls, l ≠ .unlock)
    (h : n.restoring.locked = true) : (n.steps isSystemKey format ls).restoring.locked = true := by
  induction ls generalizing n with
  | nil => exact h
  | cons l ls ih =>
    refine ih (fun l' hl' => hls l' (List.mem_cons_of_mem l hl')) ?_
    rcases n.step_cases l with heq | hstep
    · rw [heq]
      exact h
    · exact Restoring.locked_step (hls l List.mem_cons_self) h hstep

theorem locked_handleWipe (h : n.restoring.locked = true) :
    (n.handleWipe isSystemKey format).1.restoring.locked = true := by
  rw [handleWipe, if_pos h]
  refine locked_steps (fun l hl => ?_) h
  rcases List.mem_cons.mp hl with rfl | hl
  · exact nofun
  · obtain ⟨key', -, hl⟩ := List.mem_flatMap.mp hl
    rcases List.mem_pair.mp hl with rfl | rfl <;> exact nofun

/-! ### An upload -/

theorem rows_handleUnlock : (n.handleUnlock isSystemKey format).1.rows key = n.rows key := by
  have hspares : Restoring.Label.unlock.Spares key := trivial
  exact rows_step hspares

/-- Other shards stay as they are. -/
theorem rows_handleUpload {key' : CString} (hne : key' ≠ key) (query : CString) (body : Bytes) :
    (n.handleUpload isSystemKey format key' query body).1.rows key = n.rows key :=
  rows_step (l := .upload key' (uploadArgs query).1 body (uploadArgs query).2) (.inl hne)

/-- The `.rtmp` file of a shard holds these bytes. -/
def Holds (n : StorageNode) (key : CString) (bytes : Bytes) : Prop :=
  n.restoring.rtmp key = some bytes

/-- **A chunk that is answered 200** is in the `.rtmp` file, or has completed the shard. -/
theorem handleUpload_spec {query : CString} {body : Bytes}
    (h : (n.handleUpload isSystemKey format key query body).2 = 200) :
    if (uploadArgs query).2 then
      ∃ rows, format.decode (n.restoring.written key (uploadArgs query).1 body) = some rows ∧
        (n.handleUpload isSystemKey format key query body).1.rows key = rows
    else (n.handleUpload isSystemKey format key query body).1.Holds key
      (n.restoring.written key (uploadArgs query).1 body) := by
  rcases hargs : uploadArgs query with ⟨offset, final⟩
  have hdone : (n.handleUpload isSystemKey format key query body).1.restoring =
      (n.restoring.handleRestoreShardUpload isSystemKey format.decode key offset body final).1 := by
    rw [handleUpload, hargs]
    exact step_eq rfl
  have hstatus : (n.restoring.handleRestoreShardUpload isSystemKey format.decode key offset body
      final).2 = 200 := by
    rw [handleUpload, hargs] at h
    exact h
  unfold Holds rows
  rw [hdone]
  dsimp only
  -- the first four answers are refusals, so none of their conditions holds
  unfold Restoring.handleRestoreShardUpload at hstatus ⊢
  split at hstatus
  · cases hstatus
  split at hstatus
  · cases hstatus
  split at hstatus
  · cases hstatus
  split at hstatus
  · cases hstatus
  rename_i hlocked hvalid hsystem hoffset
  rw [if_neg hlocked, if_neg hvalid, if_neg hsystem, if_neg hoffset]
  cases final with
  | false => exact Function.update_self ..
  | true =>
    rw [if_pos rfl] at hstatus ⊢
    cases hrows : format.decode (n.restoring.written key offset body) with
    | none =>
      rw [hrows] at hstatus
      cases hstatus
    | some rows => exact ⟨rows, rfl, Restoring.restart_rename_self ..⟩

end StorageNode

/-! ## Requests -/

/-- How a request goes. -/
inductive RequestEnd where
  | answered
  /-- of the body of the answer only the first bytes arrive -/
  | cut (n : Nat)
  /-- the node does nothing, say for want of credentials -/
  | refused (status : Nat) (h : 400 ≤ status)
  /-- no answer: the node has done what it was asked by the next request, or never does. A wipe
  that goes on late, while files are pushed, is left out. -/
  | lost (reached : Bool)

/-- What the nodes do before a request, and how it goes. -/
structure Fate (ν : Type) where
  before : List (ν × Restoring.Label) := []
  outcome : RequestEnd := .answered

/-- The nodes, and what is to come; after that all requests are answered. -/
structure Net (ν : Type) where
  node : ν → StorageNode
  fates : List (Fate ν) := []

/-- An answer: `none` for the text of an error. -/
structure Reply (α : Type) where
  status : Nat
  content : Option α
  cut : Option Nat := none

namespace Net

variable {ν α : Type} [DecidableEq ν] (isSystemKey : CString → Bool) (format : ShardFormat)

/-- What the nodes do on their own. -/
def meanwhile (node : ν → StorageNode) (before : List (ν × Restoring.Label)) : ν → StorageNode :=
  before.foldl
    (fun node x => Function.update node x.1 ((node x.1).step isSystemKey format x.2)) node

/-- A request at a node. -/
def request (net : Net ν) (id : ν)
    (handler : StorageNode → StorageNode × Nat × Option α) : Option (Reply α) × Net ν :=
  let fate := net.fates.headD {}
  let node := meanwhile isSystemKey format net.node fate.before
  let idle : Net ν := ⟨node, net.fates.tail⟩
  let (n, status, content) := handler (node id)
  let done : Net ν := ⟨Function.update node id n, net.fates.tail⟩
  match fate.outcome with
  | .answered => (some ⟨status, content, none⟩, done)
  | .cut k => (some ⟨status, content, some k⟩, done)
  | .refused status _ => (some ⟨status, none, none⟩, idle)
  | .lost reached => (none, if reached then done else idle)

variable {isSystemKey format}

variable (isSystemKey format) in
/-- What a request does. -/
theorem request_cases (net : Net ν) (id : ν)
    (handler : StorageNode → StorageNode × Nat × Option α) :
    ∃ node, node = meanwhile isSystemKey format net.node (net.fates.headD {}).before ∧
      (net.request isSystemKey format id handler).2.fates = net.fates.tail ∧
      ((net.request isSystemKey format id handler).2.node = node ∧
          (∀ r ∈ (net.request isSystemKey format id handler).1, 400 ≤ r.status) ∨
        (net.request isSystemKey format id handler).2.node =
            Function.update node id (handler (node id)).1 ∧
          ∀ r ∈ (net.request isSystemKey format id handler).1,
            r.status = (handler (node id)).2.1 ∧ r.content = (handler (node id)).2.2) := by
  refine ⟨_, rfl, ?_⟩
  unfold request
  dsimp only
  cases (net.fates.headD {}).outcome with
  | answered => exact ⟨rfl, .inr ⟨rfl, fun r hr => Option.some.inj hr ▸ ⟨rfl, rfl⟩⟩⟩
  | cut k => exact ⟨rfl, .inr ⟨rfl, fun r hr => Option.some.inj hr ▸ ⟨rfl, rfl⟩⟩⟩
  | refused status h => exact ⟨rfl, .inl ⟨rfl, fun r hr => Option.some.inj hr ▸ h⟩⟩
  | lost reached =>
    cases reached with
    | false => exact ⟨rfl, .inl ⟨rfl, nofun⟩⟩
    | true => exact ⟨rfl, .inr ⟨rfl, nofun⟩⟩

/-- Between the requests the nodes do nothing but read. -/
def Quiet (net : Net ν) : Prop := ∀ f ∈ net.fates, ∀ x ∈ f.before, ∃ l, x.2 = .engine l

omit [DecidableEq ν] in
theorem Quiet.head {net : Net ν} (h : net.Quiet) :
    ∀ x ∈ (net.fates.headD {}).before, ∃ l, x.2 = .engine l := by
  cases hfates : net.fates with
  | nil => exact nofun
  | cons f fates => exact h f (hfates ▸ List.mem_cons_self)

omit [DecidableEq ν] in
theorem Quiet.tail {net net' : Net ν} (h : net.Quiet) (heq : net'.fates = net.fates.tail) :
    net'.Quiet := fun f hf => h f (List.mem_of_mem_tail (heq ▸ hf))

/-- What the engine keeps stays true meanwhile. -/
theorem meanwhile_inv {P : StorageNode → Prop}
    (hP : ∀ n l, P n → P (n.step isSystemKey format (.engine l))) {node : ν → StorageNode} {v : ν}
    {before : List (ν × Restoring.Label)} (hbefore : ∀ x ∈ before, ∃ l, x.2 = .engine l)
    (h : P (node v)) : P (meanwhile isSystemKey format node before v) := by
  induction before generalizing node with
  | nil => exact h
  | cons x before ih =>
    refine ih (fun y hy => hbefore y (List.mem_cons_of_mem x hy)) ?_
    obtain ⟨l, hl⟩ := hbefore x List.mem_cons_self
    show P (Function.update node x.1 ((node x.1).step isSystemKey format x.2) v)
    rcases eq_or_ne v x.1 with rfl | hne
    · rw [Function.update_self, hl]
      exact hP _ l h
    · rw [Function.update_of_ne hne]
      exact h

/-- **What the engine and a handler keep**, a request keeps. -/
theorem request_inv {P : StorageNode → Prop}
    (hP : ∀ n l, P n → P (n.step isSystemKey format (.engine l))) {net : Net ν} (hquiet : net.Quiet)
    {v id : ν} {handler : StorageNode → StorageNode × Nat × Option α}
    (hhandler : v = id → ∀ n, P n → P (handler n).1) (h : P (net.node v)) :
    P ((net.request isSystemKey format id handler).2.node v) := by
  obtain ⟨node, hnode, -, hcases⟩ := request_cases isSystemKey format net id handler
  have hmid : P (node v) := hnode ▸ meanwhile_inv hP hquiet.head h
  rcases hcases with ⟨heq, -⟩ | ⟨heq, -⟩
  · rw [heq]
    exact hmid
  · rw [heq]
    rcases eq_or_ne v id with rfl | hne
    · rw [Function.update_self]
      exact hhandler rfl _ hmid
    · rw [Function.update_of_ne hne]
      exact hmid

theorem Quiet.request {net : Net ν} (h : net.Quiet) (id : ν)
    (handler : StorageNode → StorageNode × Nat × Option α) :
    (net.request isSystemKey format id handler).2.Quiet := by
  obtain ⟨_, -, hfates, -⟩ := request_cases isSystemKey format net id handler
  exact h.tail hfates

/-- All requests are answered. -/
def Answered (net : Net ν) : Prop := ∀ f ∈ net.fates, f.outcome = .answered

theorem Answered.request {net : Net ν} (h : net.Answered) (id : ν)
    (handler : StorageNode → StorageNode × Nat × Option α) :
    (net.request isSystemKey format id handler).2.Answered := by
  obtain ⟨_, -, hfates, -⟩ := request_cases isSystemKey format net id handler
  exact fun f hf => h f (List.mem_of_mem_tail (hfates ▸ hf))

theorem Answered.request_eq {net : Net ν} (h : net.Answered) (id : ν)
    (handler : StorageNode → StorageNode × Nat × Option α) :
    net.request isSystemKey format id handler =
      let node := meanwhile isSystemKey format net.node (net.fates.headD {}).before
      (some ⟨(handler (node id)).2.1, (handler (node id)).2.2, none⟩,
        ⟨Function.update node id (handler (node id)).1, net.fates.tail⟩) := by
  have houtcome : (net.fates.headD {}).outcome = .answered := by
    cases hfates : net.fates with
    | nil => rfl
    | cons f fates => exact h f (hfates ▸ List.mem_cons_self)
  unfold Net.request
  dsimp only
  rw [houtcome]

end Net

/-! ## The tool -/

/-- Where the tool connects to: as it was told with `-h` and `-p`, or the admin socket without
them; the HTTP port of a node; its mesh port. -/
inductive Endpoint where
  | own
  | http (addr : CString) (port : Int)
  | mesh (addr : CString) (port : Int)

/-- `g_host` and `g_port`. -/
structure ToolArgs where
  host : Option CString := none
  port : Int := 8123

/-- `cluster_node`. -/
structure ClusterNode where
  id : CString
  addr : CString := []
  meshPort : Int := 0
  httpPort : Int := 0
  online : Bool := false
  isLocal : Bool := false

/-- `MAX_NODES`. -/
def maxNodes : Nat := 64

/-- `MAX_SHARDS`. -/
def maxShards : Nat := 8192

/-- A backup: the keys of its `manifest.json`, and its files. -/
structure Archive where
  shards : List CString
  file : CString → Option FileBytes

/-- `qsort` with `node_cmp`. -/
def sortNodes (nodes : List ClusterNode) : List ClusterNode :=
  nodes.insertionSort fun a b => a.id ≤ b.id

/-! ## One node -/

/-- A data directory with a shard. -/
def oneDirectory : Directory where
  file := Function.update (fun _ => none) Restoring.sampleKey (some 0)
  made := 1
  rows _ := Restoring.sampleRows
  file_lt key f h := by
    rcases eq_or_ne key Restoring.sampleKey with rfl | hne
    · rw [Function.update_self] at h
      exact Option.some.inj h ▸ Nat.one_pos
    · rw [Function.update_of_ne hne] at h
      cases h
  file_inj key key' f h h' := by
    have hkey : ∀ k, Function.update (fun _ => none) Restoring.sampleKey (some 0) k = some f →
        k = Restoring.sampleKey := by
      intro k hk
      by_contra hne
      rw [Function.update_of_ne hne] at hk
      cases hk
    exact (hkey key h).trans (hkey key' h').symm

def oneNode : StorageNode where
  restoring := Restoring.started oneDirectory
  listed := [Restoring.sampleKey]
  mem_listed key := by
    rw [List.mem_singleton]
    show _ ↔ _ ∧ (Function.update (fun _ => none) Restoring.sampleKey (some 0) key).isSome
    rcases eq_or_ne key Restoring.sampleKey with rfl | hne
    · rw [Function.update_self]
      exact iff_of_true rfl ⟨by decide, rfl⟩
    · rw [Function.update_of_ne hne]
      exact iff_of_false hne fun h => Bool.false_ne_true h.2
  sane := Restoring.sane_started oneDirectory

/-- The files of two shards, an empty one and the one that is there. -/
def oneFormat : ShardFormat where
  encode rows :=
    if rows.keys = [] then ⟨cstr "empty", by decide⟩ else ⟨Restoring.sampleFile, by decide⟩
  decode file := if file = cstr "empty" then some ∅ else Restoring.sampleDecode file

theorem rows_oneNode (key : CString) :
    oneNode.rows key = if key = Restoring.sampleKey then Restoring.sampleRows else ∅ := by
  have hfile : oneNode.restoring.store.file key =
      Function.update (fun _ => none) Restoring.sampleKey (some 0) key := rfl
  rcases eq_or_ne key Restoring.sampleKey with rfl | hne
  · rw [if_pos rfl]
    exact Restoring.restart_of_some (hfile.trans (Function.update_self ..))
  · rw [if_neg hne]
    exact Restoring.restart_of_none (hfile.trans (Function.update_of_ne hne ..))

end EpsilonDB
