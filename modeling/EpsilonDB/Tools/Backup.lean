import EpsilonDB.Tools.Restore

/-!
# Backing up a cluster (`epsilonbkup.c`)

The backup asks every node for the shards it has, and copies each shard from the first of its
holders that sends one, over the mesh or else over HTTP.

- `ShardEntry`, `mergeShard`, `readManifests`: the union of the manifests.
- `fetchShard`, `fetchShards`: the copies.
- `cmdBackup`: the command, with its exit status and the backup.
- `mem_readManifests`: what the union has.
- `backup_spec`: what a backup holds.
- `restore_backup`: a backup that was restored.
-/

namespace EpsilonDB

variable {ν : Type}

/-! ## The command -/

/-- `shard_entry`, without the size and the names. -/
structure ShardEntry where
  key : CString
  system : Bool := false
  /-- the places of its holders in the table of nodes -/
  holders : List Nat := []

/-- What the manifest of a node says of a shard. -/
def ShardEntry.add (i : Nat) (system : Bool) (e : ShardEntry) : ShardEntry where
  key := e.key
  system := e.system || system
  holders := if e.holders.length < maxNodes then e.holders ++ [i] else e.holders

/-- One shard of the manifest of node `i`. -/
def mergeShard (i : Nat) (shards : List ShardEntry) (s : CString × Bool) : List ShardEntry :=
  if maxShards ≤ shards.length then shards
  else
    match shards.findIdx? (·.key = s.1) with
    | some j => shards.modify j (ShardEntry.add i s.2)
    | none => shards ++ [ShardEntry.add i s.2 { key := snprintf 33 s.1 }]

section Command

variable [DecidableEq ν] (isSystemKey : CString → Bool) (format : ShardFormat) (route : Endpoint → ν)

/-- The nodes of a cluster, or without clustering the one the tool is connected to. -/
def backupNodes (tool : ToolArgs) (single : Bool) (topology : List ClusterNode) :
    List ClusterNode :=
  if single then
    [{ id := tool.seedAddr, httpPort := tool.seedPort, online := true, isLocal := true }]
  else sortNodes (topology.take maxNodes)

/-- Where a node answers HTTP. -/
def backupEndpoint (single : Bool) (n : ClusterNode) : Endpoint :=
  if single then .own else .http n.addr n.httpPort

/-- The node is asked for its manifest. -/
def ClusterNode.answers (n : ClusterNode) : Bool :=
  n.online && (n.isLocal || decide (0 < n.httpPort))

/-- The loop over the nodes, the first of which has place `i`. -/
def readManifests (single : Bool) :
    Nat → List ClusterNode → List ShardEntry → Net ν → List ShardEntry × Net ν
  | _, [], shards, net => (shards, net)
  | i, n :: nodes, shards, net =>
    if n.answers then
      let (reply, net) := net.request isSystemKey format (route (backupEndpoint single n))
        fun node => (node, 200, some (node.handleManifest isSystemKey))
      match reply with
      | some ⟨200, some manifest, none⟩ =>
        readManifests single (i + 1) nodes (manifest.foldl (mergeShard i) shards) net
      | _ => readManifests single (i + 1) nodes shards net
    else readManifests single (i + 1) nodes shards net

/-- `edb_snap_fetch`, which takes a whole file or none. -/
def snapCopy (net : Net ν) (v : ν) (key : CString) : Option FileBytes × Net ν :=
  if Restoring.validShardKey key then
    let (reply, net) := net.request isSystemKey format v
      fun node => (node, 200, some (node.copyOf format key))
    match reply with
    | some ⟨_, some bytes, none⟩ => (some bytes, net)
    | _ => (none, net)
  else (none, net)

/-- A body that breaks off. -/
def FileBytes.upTo (bytes : FileBytes) : Option Nat → FileBytes
  | none => bytes
  | some k => ⟨bytes.1.take k, (List.length_take_le' ..).trans_lt bytes.2⟩

/-- `GET /admin/backup/shard/<key>`: what has arrived of the body of a 200. -/
def httpCopy (net : Net ν) (v : ν) (key : CString) : Option FileBytes × Net ν :=
  let (reply, net) := net.request isSystemKey format v
    fun node => (node, (node.handleDownload format key).1, (node.handleDownload format key).2)
  match reply with
  | some ⟨200, some bytes, cut⟩ => (some (bytes.upTo cut), net)
  | _ => (none, net)

/-- The loop over the holders of a shard. -/
def fetchShard (single : Bool) (nodes : List ClusterNode) (key : CString) :
    List Nat → Net ν → Option FileBytes × Net ν
  | [], net => (none, net)
  | i :: holders, net =>
    match nodes[i]?.filter (·.online) with
    | none => fetchShard single nodes key holders net
    | some n =>
      let (mesh, net) :=
        if 0 < n.meshPort ∧ n.addr ≠ [] then
          snapCopy isSystemKey format net (route (.mesh n.addr n.meshPort)) key
        else (none, net)
      let (got, net) :=
        if mesh.isNone && (n.isLocal || decide (0 < n.httpPort)) then
          httpCopy isSystemKey format net (route (backupEndpoint single n)) key
        else (mesh, net)
      match got with
      | some bytes => (some bytes, net)
      | none => fetchShard single nodes key holders net

/-- The loop over the shards: how many have failed, and the staging directory. -/
def fetchShards (single : Bool) (nodes : List ClusterNode) :
    List ShardEntry → (CString → Option FileBytes) → Net ν →
      Nat × (CString → Option FileBytes) × Net ν
  | [], staging, net => (0, staging, net)
  | e :: shards, staging, net =>
    let (got, net) := fetchShard isSystemKey format route single nodes e.key e.holders net
    match got with
    | some bytes => fetchShards single nodes shards (Function.update staging e.key (some bytes)) net
    | none =>
      let (failed, staging, net) := fetchShards single nodes shards staging net
      (failed + 1, staging, net)

/-- The shards that are backed up. -/
def dataShards (shards : List ShardEntry) : List ShardEntry :=
  (shards.insertionSort fun a b => a.key ≤ b.key).filter fun e => !e.system

/-- `cmd_backup`: the exit status, and the backup if one is written. -/
def cmdBackup (tool : ToolArgs) (single : Bool) (topology : List ClusterNode) (net : Net ν) :
    Nat × Option Archive × Net ν :=
  let nodes := backupNodes tool single topology
  let (shards, net) := readManifests isSystemKey format route single 0 nodes [] net
  if dataShards shards = [] then (0, none, net)
  else
    let (failed, file, net) := fetchShards isSystemKey format route single nodes
      (dataShards shards) (fun _ => none) net
    (if 0 < failed then 1 else 0, some ⟨(dataShards shards).map ShardEntry.key, file⟩, net)

end Command

variable {isSystemKey : CString → Bool} {format : ShardFormat} {route : Endpoint → ν}

/-! ## Reading -/

/-- After some requests that only read. -/
structure Net.Later (net net' : Net ν) : Prop where
  rows : ∀ v key, (net'.node v).rows key = (net.node v).rows key
  listed : ∀ v, ∀ key ∈ (net.node v).listed, key ∈ (net'.node v).listed
  quiet : net.Quiet → net'.Quiet
  answered : net.Answered → net'.Answered

theorem Net.Later.refl (net : Net ν) : net.Later net :=
  ⟨fun _ _ => rfl, fun _ _ => id, id, id⟩

theorem Net.Later.trans {net net' net'' : Net ν} (h : net.Later net') (h' : net'.Later net'') :
    net.Later net'' where
  rows v key := (h'.rows v key).trans (h.rows v key)
  listed v key hkey := h'.listed v key (h.listed v key hkey)
  quiet hquiet := h'.quiet (h.quiet hquiet)
  answered hanswered := h'.answered (h.answered hanswered)

variable [DecidableEq ν] (isSystemKey format) in
/-- **A request that reads** is answered from the state it finds. -/
theorem Net.get_spec {α : Type} {net : Net ν} (hquiet : net.Quiet) (hanswered : net.Answered)
    (v : ν) (status : StorageNode → Nat) (content : StorageNode → Option α) :
    ∃ net', net.request isSystemKey format v (fun n => (n, status n, content n)) =
      (some ⟨status (net'.node v), content (net'.node v), none⟩, net') ∧ net.Later net' := by
  rw [hanswered.request_eq]
  refine ⟨⟨meanwhile isSystemKey format net.node (net.fates.headD {}).before, net.fates.tail⟩,
    ?_, fun u key => ?_, fun u key hkey => ?_, fun hquiet => hquiet.tail rfl,
    fun hanswered f hf => hanswered f (List.mem_of_mem_tail hf)⟩
  · dsimp only
    rw [Function.update_eq_self]
  · exact meanwhile_inv (P := fun n => n.rows key = (net.node u).rows key)
      (fun n l h => n.rows_engine l h) hquiet.head rfl
  · exact meanwhile_inv (P := fun n => key ∈ n.listed) (fun n l h => n.listed_engine l h)
      hquiet.head hkey

/-- The copy of a shard that is there. -/
theorem copyOf_eq {n : StorageNode} {key : CString} (h : key ∈ n.listed) :
    n.copyOf format key = format.encode (n.rows key) := by
  obtain ⟨f, hf⟩ := Option.isSome_iff_exists.mp ((n.mem_listed key).mp h).2
  rw [StorageNode.copyOf, StorageNode.rows, Store.restart, hf]

/-! ## The union of the manifests -/

variable {single : Bool} {nodes : List ClusterNode} {net net' : Net ν} {i : Nat}
variable {shards : List ShardEntry} {s : CString × Bool}

/-- A node that was asked for its manifest, at place `i`, has the shard. -/
def HeldAt (route : Endpoint → ν) (single : Bool) (nodes : List ClusterNode) (net : Net ν)
    (i : Nat) (key : CString) : Prop :=
  ∃ n, nodes[i]? = some n ∧ n.answers = true ∧
    key ∈ (net.node (route (backupEndpoint single n))).listed

/-- What an entry of the union says is so. -/
structure ShardEntry.Sound (isSystemKey : CString → Bool) (route : Endpoint → ν) (single : Bool)
    (nodes : List ClusterNode) (net : Net ν) (e : ShardEntry) : Prop where
  length : e.key.length = 32
  system : e.system = isSystemKey e.key
  held : e.holders ≠ []
  holds : ∀ i ∈ e.holders, HeldAt route single nodes net i e.key

theorem HeldAt.later {key : CString} (h : HeldAt route single nodes net i key)
    (hlater : net.Later net') : HeldAt route single nodes net' i key := by
  obtain ⟨n, hn, hanswers, hkey⟩ := h
  exact ⟨n, hn, hanswers, hlater.listed _ _ hkey⟩

theorem ShardEntry.Sound.later {e : ShardEntry} (h : e.Sound isSystemKey route single nodes net)
    (hlater : net.Later net') : e.Sound isSystemKey route single nodes net' :=
  ⟨h.length, h.system, h.held, fun i hi => (h.holds i hi).later hlater⟩

/-- One more holder. -/
theorem ShardEntry.Sound.add {e : ShardEntry} (h : e.Sound isSystemKey route single nodes net)
    (hheld : HeldAt route single nodes net i e.key) :
    (e.add i (isSystemKey e.key)).Sound isSystemKey route single nodes net where
  length := h.length
  system := by
    show (e.system || isSystemKey e.key) = isSystemKey e.key
    rw [h.system, Bool.or_self]
  held := by
    show (if e.holders.length < maxNodes then e.holders ++ [i] else e.holders) ≠ []
    split
    · exact List.append_ne_nil_of_right_ne_nil _ (List.cons_ne_nil _ _)
    · exact h.held
  holds j hj := by
    have hj : j ∈ if e.holders.length < maxNodes then e.holders ++ [i] else e.holders := hj
    split at hj
    · rcases List.mem_append.mp hj with hj | hj
      · exact h.holds j hj
      · exact List.mem_singleton.mp hj ▸ hheld
    · exact h.holds j hj

/-- The shards of the union. -/
def keysOf (shards : List ShardEntry) : List CString := shards.map ShardEntry.key

theorem keysOf_mergeShard (hlen : s.1.length = 32) : keysOf (mergeShard i shards s) =
    if maxShards ≤ shards.length then keysOf shards
    else if s.1 ∈ keysOf shards then keysOf shards else keysOf shards ++ [s.1] := by
  unfold mergeShard
  split
  · rfl
  split
  · next j hj =>
    obtain ⟨hlt, hkey, -⟩ := List.findIdx?_eq_some_iff_getElem.mp hj
    have hmem : s.1 ∈ keysOf shards :=
      List.mem_map.mpr ⟨shards[j], List.getElem_mem hlt, of_decide_eq_true hkey⟩
    rw [if_pos hmem, keysOf, keysOf]
    refine List.ext_getElem? fun k => ?_
    rw [List.getElem?_map, List.getElem?_map, List.getElem?_modify]
    cases shards[k]? with
    | none => rfl
    | some e => split <;> rfl
  · next hnone =>
    have hnot : s.1 ∉ keysOf shards := by
      intro hmem
      obtain ⟨e, he, hkey⟩ := List.mem_map.mp hmem
      have := List.findIdx?_eq_none_iff.mp hnone e he
      exact absurd (decide_eq_true hkey) (by rw [this]; decide)
    rw [if_neg hnot, keysOf, List.map_append]
    show _ ++ [snprintf 33 s.1] = _
    rw [snprintf_of_lt (by omega)]
    rfl

/-- The union is sound, and names every shard once. -/
structure Union (isSystemKey : CString → Bool) (route : Endpoint → ν) (single : Bool)
    (nodes : List ClusterNode) (net : Net ν) (shards : List ShardEntry) : Prop where
  sound : ∀ e ∈ shards, e.Sound isSystemKey route single nodes net
  nodup : (keysOf shards).Nodup
  fits : shards.length ≤ maxShards

theorem Union.later (h : Union isSystemKey route single nodes net shards)
    (hlater : net.Later net') : Union isSystemKey route single nodes net' shards :=
  ⟨fun e he => (h.sound e he).later hlater, h.nodup, h.fits⟩

theorem Union.mergeShard (h : Union isSystemKey route single nodes net shards) {key : CString}
    (hlen : key.length = 32) (hheld : HeldAt route single nodes net i key) :
    Union isSystemKey route single nodes net
      (EpsilonDB.mergeShard i shards (key, isSystemKey key)) where
  sound e he := by
    -- the node joins the holders of an entry that is there, or a new entry has it alone
    unfold EpsilonDB.mergeShard at he
    split at he
    · exact h.sound e he
    split at he
    · next j hj =>
      obtain ⟨hlt, hkey, -⟩ := List.findIdx?_eq_some_iff_getElem.mp hj
      have hkey : shards[j].key = key := of_decide_eq_true hkey
      obtain ⟨k, hk⟩ := List.mem_iff_getElem?.mp he
      rw [List.getElem?_modify] at hk
      obtain ⟨e', he', rfl⟩ := Option.map_eq_some_iff.mp hk
      split
      · next heq =>
        subst heq
        obtain rfl : shards[j] = e' :=
          Option.some.inj ((List.getElem?_eq_getElem hlt).symm.trans he')
        have hadd := (h.sound _ (List.getElem_mem hlt)).add (i := i) (hkey ▸ hheld)
        rwa [hkey] at hadd
      · exact h.sound e' (List.mem_of_getElem? he')
    · rcases List.mem_append.mp he with he | he
      · exact h.sound e he
      · obtain rfl := List.mem_singleton.mp he
        have hsnprintf : snprintf 33 key = key := snprintf_of_lt (by omega)
        refine ⟨?_, ?_, List.cons_ne_nil _ _, fun j hj => ?_⟩
        · show (snprintf 33 key).length = 32
          rw [hsnprintf, hlen]
        · show (false || isSystemKey key) = isSystemKey (snprintf 33 key)
          rw [hsnprintf, Bool.false_or]
        · obtain rfl := List.mem_singleton.mp hj
          show HeldAt route single nodes net _ (snprintf 33 key)
          rwa [hsnprintf]
  nodup := by
    rw [keysOf_mergeShard hlen]
    split
    · exact h.nodup
    split
    · exact h.nodup
    · next hnot =>
      exact List.nodup_append.mpr ⟨h.nodup, List.nodup_singleton _, fun a ha b hb hab =>
        hnot (List.mem_singleton.mp hb ▸ hab ▸ ha)⟩
  fits := by
    -- a full list takes no more
    have hlength : ∀ shards : List ShardEntry, (keysOf shards).length = shards.length :=
      fun _ => List.length_map _
    rw [← hlength, keysOf_mergeShard hlen]
    split
    · exact (hlength shards).trans_le h.fits
    split
    · exact (hlength shards).trans_le h.fits
    · next hfull _ =>
      rw [List.length_append, hlength, List.length_singleton]
      omega

/-- The shards that the asked nodes have. -/
def Held (route : Endpoint → ν) (single : Bool) (nodes : List ClusterNode) (net : Net ν)
    (key : CString) : Prop :=
  ∃ i, HeldAt route single nodes net i key

/-- **As long as there is room**, a shard of a manifest gets into the union. -/
theorem Union.mem_mergeShard (h : Union isSystemKey route single nodes net shards) {key : CString}
    (hlen : key.length = 32) (hheld : HeldAt route single nodes net i key) {all : List CString}
    (hall : ∀ key, Held route single nodes net key → key ∈ all) (hroom : all.length ≤ maxShards) :
    key ∈ keysOf (EpsilonDB.mergeShard i shards (key, isSystemKey key)) := by
  rw [keysOf_mergeShard hlen]
  by_cases hmem : key ∈ keysOf shards
  · split <;> exact hmem
  · rw [if_neg hmem, if_neg]
    · exact List.mem_append_right _ (List.mem_singleton.mpr rfl)
    · -- a full table without the shard would have too many others
      intro hfull
      have hsub : ∀ k ∈ keysOf shards, k ∈ all.erase key := by
        intro k hk
        obtain ⟨e, he, rfl⟩ := List.mem_map.mp hk
        obtain ⟨j, hj⟩ := List.exists_mem_of_ne_nil _ (h.sound e he).held
        have hne : e.key ≠ key := fun heq => hmem (heq ▸ hk)
        exact (List.mem_erase_of_ne hne).mpr (hall _ ⟨j, (h.sound e he).holds j hj⟩)
      have hle := (h.nodup.subperm hsub).length_le
      rw [List.length_erase_of_mem (hall key ⟨i, hheld⟩), keysOf, List.length_map] at hle
      have hpos : 0 < all.length := List.length_pos_of_mem (hall key ⟨i, hheld⟩)
      omega

/-- What stays in the union. -/
theorem mem_keysOf_mergeShard (hlen : s.1.length = 32) {key : CString}
    (h : key ∈ keysOf shards) : key ∈ keysOf (mergeShard i shards s) := by
  rw [keysOf_mergeShard hlen]
  split
  · exact h
  split
  · exact h
  · exact List.mem_append_left _ h

/-- A manifest is merged. -/
theorem Union.foldl (h : Union isSystemKey route single nodes net shards) {keys : List CString}
    (hkeys : ∀ key ∈ keys, key.length = 32 ∧ HeldAt route single nodes net i key) :
    let merged := (keys.map fun key => (key, isSystemKey key)).foldl (EpsilonDB.mergeShard i) shards
    Union isSystemKey route single nodes net merged ∧
      (∀ key ∈ keysOf shards, key ∈ keysOf merged) ∧
      ∀ all : List CString, (∀ key, Held route single nodes net key → key ∈ all) →
        all.length ≤ maxShards → ∀ key ∈ keys, key ∈ keysOf merged := by
  induction keys generalizing shards with
  | nil => exact ⟨h, fun _ => id, fun _ _ _ _ hkey => absurd hkey List.not_mem_nil⟩
  | cons key keys ih =>
    obtain ⟨hlen, hheld⟩ := hkeys key List.mem_cons_self
    obtain ⟨hunion, hkept, hadded⟩ := ih (h.mergeShard hlen hheld)
      fun k hk => hkeys k (List.mem_cons_of_mem key hk)
    refine ⟨hunion, fun k hk => hkept k (mem_keysOf_mergeShard hlen hk),
      fun all hall hroom k hk => ?_⟩
    rcases List.mem_cons.mp hk with rfl | hk
    · exact hkept _ (h.mem_mergeShard hlen hheld hall hroom)
    · exact hadded all hall hroom k hk

variable [DecidableEq ν]

variable (isSystemKey format) in
/-- **The union of the manifests**, when all requests are answered and the nodes only read. -/
theorem readManifests_spec (hquiet : net.Quiet) (hanswered : net.Answered)
    {rest : List ClusterNode} (hrest : ∀ j, rest[j]? = nodes[i + j]?)
    (h : Union isSystemKey route single nodes net shards) :
    let result := readManifests isSystemKey format route single i rest shards net
    net.Later result.2 ∧ Union isSystemKey route single nodes result.2 result.1 ∧
      (∀ key ∈ keysOf shards, key ∈ keysOf result.1) ∧
      ∀ all : List CString, (∀ key, Held route single nodes result.2 key → key ∈ all) →
        all.length ≤ maxShards → ∀ n ∈ rest, n.answers = true →
          ∀ key ∈ (net.node (route (backupEndpoint single n))).listed, key ∈ keysOf result.1 := by
  induction rest generalizing i shards net with
  | nil => exact ⟨.refl net, h, fun _ => id, fun _ _ _ n hn => absurd hn List.not_mem_nil⟩
  | cons n rest ih =>
    have hn : nodes[i]? = some n := (hrest 0).symm
    have hrest' : ∀ j, rest[j]? = nodes[i + 1 + j]? := fun j => by
      rw [show i + 1 + j = i + (j + 1) by omega, ← hrest]
      rfl
    unfold readManifests
    -- only the nodes that answer are asked
    by_cases hanswers : n.answers = true
    · rw [if_pos hanswers]
      obtain ⟨net', hget, hlater⟩ := Net.get_spec isSystemKey format hquiet hanswered
        (route (backupEndpoint single n)) (fun _ => 200)
        fun node => some (node.handleManifest isSystemKey)
      rw [hget]
      dsimp only
      have hheld : ∀ key ∈ (net'.node (route (backupEndpoint single n))).listed,
          key.length = 32 ∧ HeldAt route single nodes net' i key := fun key hkey =>
        ⟨((StorageNode.mem_listed _ key).mp hkey).1, n, hn, hanswers, hkey⟩
      -- what the manifest lists is merged into the list, if there is room
      obtain ⟨hmerged, hkept₁, hadded₁⟩ := (h.later hlater).foldl hheld
      obtain ⟨hlater₂, hunion, hkept₂, hadded₂⟩ :=
        ih (hlater.quiet hquiet) (hlater.answered hanswered) hrest' hmerged
      refine ⟨hlater.trans hlater₂, hunion, fun key hkey => hkept₂ key (hkept₁ key hkey),
        fun all hall hroom m hm hmanswers key hkey => ?_⟩
      rcases List.mem_cons.mp hm with rfl | hm
      · refine hkept₂ key (hadded₁ all (fun k hk => hall k ?_) hroom key
          (hlater.listed _ key hkey))
        obtain ⟨j, hj⟩ := hk
        exact ⟨j, hj.later hlater₂⟩
      · exact hadded₂ all hall hroom m hm hmanswers key (hlater.listed _ key hkey)
    · rw [if_neg hanswers]
      obtain ⟨hlater, hunion, hkept, hadded⟩ := ih hquiet hanswered hrest' h
      refine ⟨hlater, hunion, hkept, fun all hall hroom m hm hmanswers => ?_⟩
      rcases List.mem_cons.mp hm with rfl | hm
      · exact absurd hmanswers hanswers
      · exact hadded all hall hroom m hm hmanswers

/-! ## The copies -/

/-- Both ports of a node lead to it. -/
def OneNode (route : Endpoint → ν) (single : Bool) (nodes : List ClusterNode) : Prop :=
  ∀ n ∈ nodes, 0 < n.meshPort → route (.mesh n.addr n.meshPort) = route (backupEndpoint single n)

/-- The file is a copy of the shard at one of the nodes. -/
def Copied (format : ShardFormat) (route : Endpoint → ν) (single : Bool)
    (nodes : List ClusterNode) (net : Net ν) (key : CString) (bytes : FileBytes) : Prop :=
  ∃ n ∈ nodes, n.answers = true ∧
    bytes = format.encode ((net.node (route (backupEndpoint single n))).rows key)

theorem snapCopy_spec (hquiet : net.Quiet) (hanswered : net.Answered) {v : ν} {key : CString}
    (hkey : key ∈ (net.node v).listed) :
    net.Later (snapCopy isSystemKey format net v key).2 ∧
      ∀ bytes ∈ (snapCopy isSystemKey format net v key).1,
        bytes = format.encode ((net.node v).rows key) := by
  unfold snapCopy
  split
  · obtain ⟨net', hget, hlater⟩ := Net.get_spec isSystemKey format hquiet hanswered v
      (fun _ => 200) fun node => some (node.copyOf format key)
    rw [hget]
    refine ⟨hlater, fun bytes hbytes => ?_⟩
    rw [← Option.some.inj hbytes, copyOf_eq (hlater.listed v key hkey), hlater.rows]
  · exact ⟨.refl net, nofun⟩

theorem httpCopy_spec (hquiet : net.Quiet) (hanswered : net.Answered) {v : ν} {key : CString}
    (hkey : key ∈ (net.node v).listed) :
    net.Later (httpCopy isSystemKey format net v key).2 ∧
      ∀ bytes ∈ (httpCopy isSystemKey format net v key).1,
        bytes = format.encode ((net.node v).rows key) := by
  unfold httpCopy
  obtain ⟨net', hget, hlater⟩ := Net.get_spec isSystemKey format hquiet hanswered v
    (fun node => (node.handleDownload format key).1)
    fun node => (node.handleDownload format key).2
  rw [hget]
  by_cases hvalid : Restoring.validShardKey key = true
  · simp only [StorageNode.handleDownload, if_pos hvalid]
    refine ⟨hlater, fun bytes hbytes => ?_⟩
    rw [← Option.some.inj hbytes]
    show (net'.node v).copyOf format key = _
    rw [copyOf_eq (hlater.listed v key hkey), hlater.rows]
  · simp only [StorageNode.handleDownload, if_neg hvalid]
    exact ⟨hlater, nofun⟩

variable (isSystemKey format) in
/-- **A copy is of a holder.** -/
theorem fetchShard_spec (hroute : OneNode route single nodes) (hquiet : net.Quiet)
    (hanswered : net.Answered) (hlater : net.Later net') {key : CString} {holders : List Nat}
    (hheld : ∀ i ∈ holders, HeldAt route single nodes net i key) :
    let result := fetchShard isSystemKey format route single nodes key holders net'
    net.Later result.2 ∧
      ∀ bytes ∈ result.1, Copied format route single nodes net key bytes := by
  induction holders generalizing net' with
  | nil => exact ⟨hlater, nofun⟩
  | cons i holders ih =>
    have hrest : ∀ net₁ : Net ν, net.Later net₁ → _ := fun net₁ h =>
      ih h fun j hj => hheld j (List.mem_cons_of_mem i hj)
    obtain ⟨n, hn, hanswers, hkey⟩ := hheld i List.mem_cons_self
    have hmem : n ∈ nodes := List.mem_of_getElem? hn
    have honline : n.online = true := (Bool.and_eq_true_iff.mp hanswers).1
    unfold fetchShard
    rw [hn, Option.filter_some, if_pos honline]
    dsimp only
    -- the mesh first
    generalize hmesh : (if 0 < n.meshPort ∧ n.addr ≠ [] then
      snapCopy isSystemKey format net' (route (.mesh n.addr n.meshPort)) key
      else (none, net')) = mesh
    have hmesh_spec : net.Later mesh.2 ∧ ∀ bytes ∈ mesh.1,
        bytes = format.encode ((net.node (route (backupEndpoint single n))).rows key) := by
      rw [← hmesh]
      split
      · next hport =>
        rw [hroute n hmem hport.1]
        obtain ⟨hlater₁, hbytes⟩ := snapCopy_spec (hlater.quiet hquiet)
          (hlater.answered hanswered) (hlater.listed _ key hkey)
        exact ⟨hlater.trans hlater₁, fun bytes hb => by rw [hbytes bytes hb, hlater.rows]⟩
      · exact ⟨hlater, nofun⟩
    obtain ⟨mesh, net₁⟩ := mesh
    dsimp only at hmesh_spec ⊢
    -- HTTP otherwise
    generalize hgot : (if (mesh.isNone && (n.isLocal || decide (0 < n.httpPort))) = true then
      httpCopy isSystemKey format net₁ (route (backupEndpoint single n)) key
      else (mesh, net₁)) = got
    have hgot_spec : net.Later got.2 ∧ ∀ bytes ∈ got.1,
        bytes = format.encode ((net.node (route (backupEndpoint single n))).rows key) := by
      rw [← hgot]
      split
      · obtain ⟨hlater₁, hbytes⟩ := httpCopy_spec (hmesh_spec.1.quiet hquiet)
          (hmesh_spec.1.answered hanswered) (hmesh_spec.1.listed _ key hkey)
        exact ⟨hmesh_spec.1.trans hlater₁,
          fun bytes hb => by rw [hbytes bytes hb, hmesh_spec.1.rows]⟩
      · exact hmesh_spec
    obtain ⟨got, net₂⟩ := got
    dsimp only at hgot_spec ⊢
    cases got with
    | none => exact hrest net₂ hgot_spec.1
    | some bytes =>
      refine ⟨hgot_spec.1, fun bytes' hbytes' => ⟨n, hmem, hanswers, ?_⟩⟩
      obtain rfl := Option.some.inj hbytes'
      exact hgot_spec.2 _ rfl

variable (isSystemKey format) in
theorem fetchShards_spec (hroute : OneNode route single nodes) (hquiet : net.Quiet)
    (hanswered : net.Answered) (hlater : net.Later net') {staging : CString → Option FileBytes}
    (hstaging : ∀ key, ∀ bytes ∈ staging key, Copied format route single nodes net key bytes)
    (hheld : ∀ e ∈ shards, ∀ i ∈ e.holders, HeldAt route single nodes net i e.key) :
    let result := fetchShards isSystemKey format route single nodes shards staging net'
    net.Later result.2.2 ∧
      (∀ key, ∀ bytes ∈ result.2.1 key, Copied format route single nodes net key bytes) ∧
      (∀ key, (staging key).isSome → (result.2.1 key).isSome) ∧
      (result.1 = 0 → ∀ e ∈ shards, (result.2.1 e.key).isSome) := by
  induction shards generalizing staging net' with
  | nil => exact ⟨hlater, hstaging, fun _ => id, fun _ e he => absurd he List.not_mem_nil⟩
  | cons e shards ih =>
    have hheld' : ∀ e ∈ shards, ∀ i ∈ e.holders, HeldAt route single nodes net i e.key :=
      fun e' he' => hheld e' (List.mem_cons_of_mem e he')
    obtain ⟨hlater₁, hgot⟩ := fetchShard_spec isSystemKey format hroute hquiet hanswered hlater
      (hheld e List.mem_cons_self)
    unfold fetchShards
    generalize fetchShard isSystemKey format route single nodes e.key e.holders net' = result at *
    obtain ⟨got, net₁⟩ := result
    dsimp only at hlater₁ hgot ⊢
    cases got with
    | none =>
      -- none of the holders gave the shard: it counts as failed
      obtain ⟨hlater₂, hcopied, hkept, -⟩ := ih hlater₁ hstaging hheld'
      exact ⟨hlater₂, hcopied, hkept, fun h => absurd h (Nat.succ_ne_zero _)⟩
    | some bytes =>
      -- the copy joins those that were made before
      have hstaging₁ : ∀ key, ∀ bytes' ∈ Function.update staging e.key (some bytes) key,
          Copied format route single nodes net key bytes' := by
        intro key bytes' hbytes'
        rcases eq_or_ne key e.key with rfl | hne
        · rw [Function.update_self] at hbytes'
          exact hgot bytes' hbytes'
        · rw [Function.update_of_ne hne] at hbytes'
          exact hstaging key bytes' hbytes'
      obtain ⟨hlater₂, hcopied, hkept, hall⟩ := ih hlater₁ hstaging₁ hheld'
      refine ⟨hlater₂, hcopied, fun key hkey => hkept key ?_, fun h e' he' => ?_⟩
      · rcases eq_or_ne key e.key with rfl | hne
        · rw [Function.update_self]
          rfl
        · rwa [Function.update_of_ne hne]
      · rcases List.mem_cons.mp he' with rfl | he'
        · refine hkept _ ?_
          rw [Function.update_self]
          rfl
        · exact hall h e' he'

theorem mem_dataShards {e : ShardEntry} :
    e ∈ dataShards shards ↔ e ∈ shards ∧ e.system = false := by
  rw [dataShards, List.mem_filter, (List.perm_insertionSort _ _).mem_iff, Bool.not_eq_true']

/-! ## A backup that exits with 0 -/

variable {tool : ToolArgs} {topology : List ClusterNode} {zip : Archive}

/-- **A backup that exits with 0** while the nodes only read has a copy of each of its shards, and
has every shard of the nodes that were asked, but for those of the configuration, if there are
not more than fit. -/
theorem backup_spec (hroute : OneNode route single (backupNodes tool single topology))
    (hquiet : net.Quiet) (hanswered : net.Answered)
    (h : cmdBackup isSystemKey format route tool single topology net = (0, some zip, net')) :
    (∀ key ∈ zip.shards, key.length = 32 ∧ ∃ bytes, zip.file key = some bytes ∧
        Copied format route single (backupNodes tool single topology) net key bytes) ∧
      zip.shards.length ≤ maxShards ∧
      ∀ all : List CString,
        (∀ key, Held route single (backupNodes tool single topology) net' key → key ∈ all) →
        all.length ≤ maxShards → ∀ n ∈ backupNodes tool single topology, n.answers = true →
          ∀ key ∈ (net.node (route (backupEndpoint single n))).listed, isSystemKey key = false →
            key ∈ zip.shards := by
  unfold cmdBackup at h
  dsimp only at h
  set nodes := backupNodes tool single topology
  have hempty : Union isSystemKey route single nodes net [] :=
    ⟨fun e he => absurd he List.not_mem_nil, List.nodup_nil, Nat.zero_le _⟩
  -- the manifests are merged into one list of shards with their holders
  have hread := readManifests_spec isSystemKey format hquiet hanswered
    (fun j => by rw [Nat.zero_add]) hempty
  generalize readManifests isSystemKey format route single 0 nodes [] net = read at h hread
  obtain ⟨shards, net₁⟩ := read
  obtain ⟨hlater, hunion, -, hadded⟩ := hread
  dsimp only at h hlater hunion hadded
  split at h
  · cases h
  have hheld : ∀ e ∈ dataShards shards, ∀ i ∈ e.holders,
      HeldAt route single nodes net₁ i e.key := fun e he =>
    (hunion.sound e (mem_dataShards.mp he).1).holds
  -- each shard is fetched from one of its holders, and the nodes have only been read
  have hfetch := fetchShards_spec isSystemKey format hroute (hlater.quiet hquiet)
    (hlater.answered hanswered) (.refl net₁)
    (fun _ _ hb => absurd hb (Option.not_mem_none _)) hheld
  generalize fetchShards isSystemKey format route single nodes (dataShards shards) (fun _ => none)
    net₁ = fetched at h hfetch
  obtain ⟨failed, file, net₂⟩ := fetched
  obtain ⟨hlater₂, hcopied, -, hall⟩ := hfetch
  dsimp only at h hlater₂ hcopied hall
  obtain ⟨hexit, hdone⟩ := Prod.mk.inj h
  obtain ⟨hzip, rfl⟩ := Prod.mk.inj hdone
  obtain rfl := Option.some.inj hzip
  -- with a failure the exit code is not 0
  have hfailed : failed = 0 := by
    by_contra hne
    rw [if_pos (Nat.pos_of_ne_zero hne)] at hexit
    cases hexit
  refine ⟨fun key hkey => ?_, ?_, fun all hall' hroom n hn hanswers key hkey hsystem => ?_⟩
  · obtain ⟨e, he, rfl⟩ := List.mem_map.mp hkey
    obtain ⟨bytes, hbytes⟩ := Option.isSome_iff_exists.mp (hall hfailed e he)
    obtain ⟨n, hn, hanswers, hcopy⟩ := hcopied e.key bytes hbytes
    exact ⟨(hunion.sound e (mem_dataShards.mp he).1).length, bytes, hbytes, n, hn, hanswers,
      by rw [hcopy, hlater.rows]⟩
  · rw [List.length_map]
    refine (List.length_filter_le ..).trans ?_
    rw [List.length_insertionSort]
    exact hunion.fits
  · have hall₁ : ∀ k, Held route single nodes net₁ k → k ∈ all := by
      rintro k ⟨i, hi⟩
      exact hall' k ⟨i, hi.later hlater₂⟩
    obtain ⟨e, he, rfl⟩ := List.mem_map.mp (hadded all hall₁ hroom n hn hanswers key hkey)
    refine List.mem_map.mpr ⟨e, mem_dataShards.mpr ⟨he, ?_⟩, rfl⟩
    rw [(hunion.sound e he).system, hsystem]

theorem Archive.mem_keys {key : CString} (hshards : ∀ key ∈ zip.shards, key.length = 32)
    (hfits : zip.shards.length ≤ maxShards) (hkey : key ∈ zip.shards) : key ∈ zip.keys := by
  rw [Archive.keys, (List.perm_insertionSort _ _).mem_iff, List.take_of_length_le hfits]
  exact List.mem_map.mpr ⟨key, hkey, snprintf_of_lt (by rw [hshards key hkey]; decide)⟩

/-- **A backup that is restored.** When a backup exits with 0 while the nodes only read, and a
restore of it exits with 0, at this cluster or another, then every shard of a node that was asked
is at every node with an HTTP port, with the rows it had at one of the nodes of the backup. -/
theorem restore_backup {μ : Type} [DecidableEq μ] {isSystemKey' : CString → Bool}
    {route' : Endpoint → μ} {tool' : ToolArgs} {topology' : List ClusterNode} {target : Net μ}
    (hroute : OneNode route single (backupNodes tool single topology))
    (hquiet : net.Quiet) (hanswered : net.Answered)
    (hkeeps : ∀ v key, format.Keeps ((net.node v).rows key))
    (hbackup : cmdBackup isSystemKey format route tool single topology net = (0, some zip, net'))
    {all : List CString}
    (hall : ∀ key, Held route single (backupNodes tool single topology) net' key → key ∈ all)
    (hroom : all.length ≤ maxShards) (hquiet' : target.Quiet)
    (hrestore : (cmdRestore isSystemKey' format route' tool' topology' zip target).1 = 0) :
    ∀ n ∈ backupNodes tool single topology, n.answers = true →
      ∀ key ∈ (net.node (route (backupEndpoint single n))).listed, isSystemKey key = false →
        ∀ m ∈ restoreNodes tool' topology', m.Takes →
          ∃ n' ∈ backupNodes tool single topology, n'.answers = true ∧
            ((cmdRestore isSystemKey' format route' tool' topology' zip target).2.node
              (route' (.http m.addr m.httpPort))).rows key =
                (net.node (route (backupEndpoint single n'))).rows key := by
  obtain ⟨hcopied, hfits, hcomplete⟩ := backup_spec hroute hquiet hanswered hbackup
  intro n hn hanswers key hkey hsystem m hm htakes
  have hmem := hcomplete all hall hroom n hn hanswers key hkey hsystem
  obtain ⟨-, bytes, hbytes, n', hn', hanswers', hcopy⟩ := hcopied key hmem
  have hkeys : key ∈ zip.keys :=
    Archive.mem_keys (fun k hk => (hcopied k hk).1) hfits hmem
  have hkeep := hkeeps (route (backupEndpoint single n')) key
  obtain ⟨rows, hrows, hnode⟩ := (pushed_of_exit_zero hquiet' hrestore hkeys).2 m hm htakes
    bytes hbytes (hcopy ▸ hkeep.encode_ne)
  rw [hcopy, hkeep.decode_encode] at hrows
  exact ⟨n', hn', hanswers', hnode.trans (Option.some.inj hrows).symm⟩

/-! ## One node -/

def oneNet : Net Unit := ⟨fun _ => oneNode, []⟩

/-- The backup of a node over its admin socket. -/
def oneBackup : Nat × Option Archive × Net Unit :=
  cmdBackup (fun _ => false) oneFormat (fun _ => ()) {} true [] oneNet

/-- It is restored to the node over HTTP. -/
theorem oneBackup_restored : oneBackup = (0, some oneArchive, oneNet) ∧
    ∀ n ∈ backupNodes {} true [], n.answers = true →
      ∀ key ∈ (oneNet.node ()).listed, (fun _ : CString => false) key = false →
        ∀ m ∈ restoreNodes { host := some (cstr "10.0.0.1") } [], m.Takes →
          ∃ n' ∈ backupNodes {} true [], n'.answers = true ∧
            ((cmdRestore (fun _ => false) oneFormat (fun _ => ())
              { host := some (cstr "10.0.0.1") } [] oneArchive oneNet).2.node ()).rows key =
                (oneNet.node ()).rows key := by
  have hkeeps : ∀ v key, oneFormat.Keeps ((oneNet.node v).rows key) := by
    intro _ key
    show oneFormat.Keeps (oneNode.rows key)
    rw [rows_oneNode]
    split
    · exact ⟨by decide, rfl⟩
    · exact ⟨by decide, rfl⟩
  have hquiet : oneNet.Quiet := fun _ hf => absurd hf List.not_mem_nil
  have hanswered : oneNet.Answered := fun _ hf => absurd hf List.not_mem_nil
  have hall : ∀ key, Held (fun _ => ()) true (backupNodes {} true []) oneNet key →
      key ∈ [Restoring.sampleKey] := by
    rintro key ⟨i, n, -, -, hkey⟩
    exact hkey
  have hbackup : oneBackup = (0, some oneArchive, oneNet) := rfl
  refine ⟨hbackup, ?_⟩
  exact restore_backup (fun _ _ _ => rfl) hquiet hanswered hkeeps hbackup hall (by decide) hquiet
    (by decide +kernel)

end EpsilonDB
