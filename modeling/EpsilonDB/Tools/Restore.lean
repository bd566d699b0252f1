import EpsilonDB.Tools.Nodes

/-!
# Restoring a cluster (`epsilonbkup.c`)

The restore locks the nodes, wipes them, sends every file of a backup to every node with an HTTP
port, and unlocks the nodes. A node without one is reached over the connection the tool was
started with, and gets no files.

- `pushChunks`, `pushNodes`, `pushShards`: the loops of the upload. A chunk is as large as a
  pointer.
- `restoreNodes`, `eachOnline`, `cmdRestore`: the command, with its exit status.
- `pushChunks_spec`: a file that is sent without an error is there in the end.
- `restored_of_exit_zero`: so are all files of a restore that exits with 0, and where.
- `restore_without_ports`: it exits with 0 as well when it has only wiped.
-/

namespace EpsilonDB

variable {ν : Type} [DecidableEq ν]

/-! ## The command -/

section Command

variable (isSystemKey : CString → Bool) (format : ShardFormat) (route : Endpoint → ν)

/-- A request whose answer says nothing but its status. -/
def Net.call (net : Net ν) (v : ν) (handler : StorageNode → StorageNode × Nat) :
    Option (Reply Unit) × Net ν :=
  net.request isSystemKey format v fun n => ((handler n).1, (handler n).2, some ())

/-- `sizeof(chunk)`, where `chunk` is a pointer. -/
def chunkSize : Nat := 8

/-- The chunk at an offset. -/
def chunkAt (file : Bytes) (offset : Nat) : Bytes := (file.drop offset).take chunkSize

/-- The query of its upload. -/
def chunkQuery (file : Bytes) (offset : Nat) : CString :=
  StorageNode.uploadQuery offset (decide (file.length ≤ offset + (chunkAt file offset).length))

/-- The loop over a file, from an offset on. -/
def pushChunks (v : ν) (key : CString) (file : Bytes) : Nat → Nat → Net ν → Bool × Net ν
  | 0, _, net => (true, net)
  | fuel + 1, offset, net =>
    if file.length ≤ offset then (true, net)
    else
      let (reply, net) := net.call isSystemKey format v fun n =>
        n.handleUpload isSystemKey format key (chunkQuery file offset) (chunkAt file offset)
      if reply.any (·.status = 200) then
        pushChunks v key file fuel (offset + (chunkAt file offset).length) net
      else (false, net)

/-- The loop over the nodes for one file: how many uploads have failed. -/
def pushNodes (key : CString) (file : Bytes) : List ClusterNode → Net ν → Nat × Net ν
  | [], net => (0, net)
  | n :: nodes, net =>
    if n.online && decide (0 < n.httpPort) then
      let (ok, net) := pushChunks isSystemKey format (route (.http n.addr n.httpPort)) key file
        file.length 0 net
      let (failed, net) := pushNodes key file nodes net
      (failed + (if ok then 0 else 1), net)
    else pushNodes key file nodes net

/-- The loop over the files. -/
def pushShards (zip : Archive) (nodes : List ClusterNode) :
    List CString → Net ν → Nat × Net ν
  | [], net => (0, net)
  | key :: keys, net =>
    let (failed, net) :=
      match zip.file key with
      | none => (1, net)
      | some file => pushNodes isSystemKey format route key file.1 nodes net
    let (failed', net) := pushShards zip nodes keys net
    (failed + failed', net)

/-- `seed_addr`. -/
def ToolArgs.seedAddr (tool : ToolArgs) : CString := tool.host.getD (cstr "local")

/-- `seed_port`. -/
def ToolArgs.seedPort (tool : ToolArgs) : Int := if tool.host.isSome then tool.port else 0

/-- The nodes of the cluster, or else the one the tool is connected to. -/
def restoreNodes (tool : ToolArgs) (topology : List ClusterNode) : List ClusterNode :=
  sortNodes <|
    match topology.take maxNodes with
    | [] => [{ id := tool.seedAddr, addr := tool.seedAddr, httpPort := tool.seedPort,
               online := true }]
    | nodes => nodes

/-- Where a node is wiped and unlocked. -/
def restoreEndpoint (tool : ToolArgs) (n : ClusterNode) : Option Endpoint :=
  if 0 < n.httpPort then some (.http n.addr n.httpPort)
  else if n.addr = tool.seedAddr then some .own
  else none

/-- Where a node is locked. -/
def lockEndpoint (tool : ToolArgs) (n : ClusterNode) : Option Endpoint :=
  if 0 < n.httpPort then some (.http n.addr n.httpPort)
  else if n.addr = tool.seedAddr ∧ (tool.seedPort = 0 ∨ n.meshPort = 0) then some .own
  else none

/-- A request at each node that is online, and how many of them are answered 200. -/
def eachOnline (endpoint : ClusterNode → Option Endpoint)
    (handler : StorageNode → StorageNode × Nat) : List ClusterNode → Net ν → Nat × Net ν
  | [], net => (0, net)
  | n :: nodes, net =>
    match if n.online then endpoint n else none with
    | none => eachOnline endpoint handler nodes net
    | some e =>
      let (reply, net) := net.call isSystemKey format (route e) handler
      let (count, net) := eachOnline endpoint handler nodes net
      (count + (if reply.any (·.status = 200) then 1 else 0), net)

/-- The keys of a backup as they are pushed. -/
def Archive.keys (zip : Archive) : List CString :=
  ((zip.shards.take maxShards).map (snprintf 33)).insertionSort (· ≤ ·)

/-- `cmd_restore`, with what the zip holds and what the tool learns of the cluster: the exit
status and the nodes afterwards. -/
def cmdRestore (tool : ToolArgs) (topology : List ClusterNode) (zip : Archive) (net : Net ν) :
    Nat × Net ν :=
  if zip.keys = [] then (1, net)
  else
    let nodes := restoreNodes tool topology
    let (locked, net) := eachOnline isSystemKey format route (lockEndpoint tool)
      (fun n => n.handleLock isSystemKey format) nodes net
    if locked = 0 then (1, net)
    else
      let (_, net) := eachOnline isSystemKey format route (restoreEndpoint tool)
        (fun n => n.handleWipe isSystemKey format) nodes net
      let (failed, net) := pushShards isSystemKey format route zip nodes zip.keys net
      let (_, net) := eachOnline isSystemKey format route (restoreEndpoint tool)
        (fun n => n.handleUnlock isSystemKey format) nodes net
      (if 0 < failed then 1 else 0, net)

end Command

variable {isSystemKey : CString → Bool} {format : ShardFormat} {route : Endpoint → ν}
variable {net : Net ν} {v : ν} {key : CString} {file : Bytes}

/-! ## One file at one node -/

namespace StorageNode

/-- The chunks that came before are in the `.rtmp` file. -/
def HoldsTo (key : CString) (file : Bytes) (offset : Nat) (n : StorageNode) : Prop :=
  offset = 0 ∨ n.Holds key (file.take offset)

theorem HoldsTo.engine {offset : Nat} (n : StorageNode) (l : Manager.Label)
    (h : n.HoldsTo key file offset) :
    (n.step isSystemKey format (.engine l)).HoldsTo key file offset := by
  obtain ⟨t, ht⟩ := n.step_engine isSystemKey format l
  refine h.imp_right fun h => ?_
  rw [Holds, ht]
  exact h

theorem rows_engine {rows : Shard} (n : StorageNode) (l : Manager.Label) (h : n.rows key = rows) :
    (n.step isSystemKey format (.engine l)).rows key = rows :=
  (rows_step (l := .engine l) trivial).trans h

/-- The next chunk goes behind them. -/
theorem HoldsTo.written {n : StorageNode} {offset : Nat} (h : n.HoldsTo key file offset)
    (hle : offset ≤ file.length) (k : Nat) :
    n.restoring.written key offset ((file.drop offset).take k) = file.take (offset + k) := by
  have hbase : (if (offset : Int) = 0 then [] else (n.restoring.rtmp key).getD []) =
      file.take offset := by
    rcases h with rfl | h
    · rfl
    · split
      · next hzero =>
        obtain rfl : offset = 0 := by omega
        rfl
      · rw [h, Option.getD_some]
  have hwrite := Restoring.pwrite_length (file.take offset) ((file.drop offset).take k)
  rw [List.length_take_of_le hle] at hwrite
  rw [Restoring.written, hbase, Int.toNat_natCast, hwrite, List.take_add]

end StorageNode

open StorageNode

theorem pushChunks_inv {P : StorageNode → Prop}
    (hP : ∀ n l, P n → P (n.step isSystemKey format (.engine l))) (hquiet : net.Quiet) {u : ν}
    (hupload : u = v → ∀ n query body, P n →
      P (n.handleUpload isSystemKey format key query body).1)
    (h : P (net.node u)) (fuel offset : Nat) :
    P ((pushChunks isSystemKey format v key file fuel offset net).2.node u) ∧
      (pushChunks isSystemKey format v key file fuel offset net).2.Quiet := by
  induction fuel generalizing net offset with
  | zero => exact ⟨h, hquiet⟩
  | succ fuel ih =>
    unfold pushChunks
    split
    · exact ⟨h, hquiet⟩
    · dsimp only
      have hnext : P ((net.call isSystemKey format v fun n => n.handleUpload isSystemKey format key
          (chunkQuery file offset) (chunkAt file offset)).2.node u) :=
        Net.request_inv hP hquiet (fun hu n => hupload hu n _ _) h
      split
      · exact ih (hquiet.request _ _) hnext _
      · exact ⟨hnext, hquiet.request _ _⟩

/-- A chunk that is answered 200 follows those before it, or is the last. -/
theorem chunk_spec (hlt : file.length < 2 ^ 63) {offset : Nat} (hquiet : net.Quiet)
    (hoffset : offset < file.length) (hholds : (net.node v).HoldsTo key file offset)
    {reply : Reply Unit} {net' : Net ν}
    (h : (net.call isSystemKey format v fun n => n.handleUpload isSystemKey format key
      (chunkQuery file offset) (chunkAt file offset)) = (some reply, net'))
    (hok : reply.status = 200) :
    if file.length ≤ offset + (chunkAt file offset).length then
      ∃ rows, format.decode file = some rows ∧ (net'.node v).rows key = rows
    else (net'.node v).HoldsTo key file (offset + (chunkAt file offset).length) := by
  obtain ⟨node, hnode, -, hcases⟩ := Net.request_cases isSystemKey format net v
    fun n => ((n.handleUpload isSystemKey format key
      (chunkQuery file offset) (chunkAt file offset)).1, (n.handleUpload isSystemKey format key
      (chunkQuery file offset) (chunkAt file offset)).2, some ())
  rw [Net.call] at h
  rw [h] at hcases
  -- what others do before the node handles the chunk leaves the upload as it is
  have hmid : (node v).HoldsTo key file offset :=
    hnode ▸ Net.meanwhile_inv (fun n l h => h.engine n l) hquiet.head hholds
  rcases hcases with ⟨-, hrefused⟩ | ⟨heq, hanswer⟩
  · have := hrefused reply rfl
    omega
  · have hnode' : net'.node v = ((node v).handleUpload isSystemKey format key
        (chunkQuery file offset) (chunkAt file offset)).1 := by
      rw [heq, Function.update_self]
    have hspec := handleUpload_spec ((hanswer reply rfl).1.symm.trans hok)
    rw [← hnode'] at hspec
    have hlen : (chunkAt file offset).length = min chunkSize (file.length - offset) := by
      rw [chunkAt, List.length_take, List.length_drop]
    -- the chunk is written behind the bytes that were there
    have hwritten : (node v).restoring.written key (offset : Int) (chunkAt file offset) =
        file.take (offset + (chunkAt file offset).length) := by
      rw [chunkAt, hmid.written hoffset.le, ← chunkAt, hlen]
      rcases Nat.le_total chunkSize (file.length - offset) with hle | hle
      · rw [min_eq_left hle]
      · rw [min_eq_right hle, List.take_of_length_le (by omega), List.take_of_length_le (by omega)]
    rw [chunkQuery, uploadArgs_uploadQuery (by omega)] at hspec
    dsimp only at hspec
    rw [hwritten] at hspec
    -- the last chunk renames the file, any other one leaves a longer prefix
    split
    · next hlast =>
      rw [if_pos (decide_eq_true hlast), List.take_of_length_le hlast] at hspec
      exact hspec
    · next hlast =>
      rw [if_neg (by simpa using hlast)] at hspec
      exact .inr hspec

/-- **A file that is sent without an error** is there in the end. -/
theorem pushChunks_spec (hlt : file.length < 2 ^ 63) {fuel offset : Nat} (hquiet : net.Quiet)
    (hfuel : file.length ≤ offset + fuel) (hoffset : offset < file.length)
    (hholds : (net.node v).HoldsTo key file offset)
    (h : (pushChunks isSystemKey format v key file fuel offset net).1 = true) :
    ∃ rows, format.decode file = some rows ∧
      ((pushChunks isSystemKey format v key file fuel offset net).2.node v).rows key = rows := by
  induction fuel generalizing net offset with
  | zero => omega
  | succ fuel ih =>
    unfold pushChunks at h ⊢
    rw [if_neg (by omega)] at h ⊢
    dsimp only at h ⊢
    have hquiet' : (net.call isSystemKey format v fun n => n.handleUpload isSystemKey format key
        (chunkQuery file offset) (chunkAt file offset)).2.Quiet := hquiet.request _ _
    generalize hcall : (net.call isSystemKey format v fun n => n.handleUpload isSystemKey format key
      (chunkQuery file offset) (chunkAt file offset)) = result at h hquiet' ⊢
    obtain ⟨reply, net'⟩ := result
    dsimp only at h hquiet' ⊢
    split at h
    · next hok =>
      rw [if_pos hok]
      rw [Option.any_eq_true] at hok
      obtain ⟨r, rfl, hok⟩ := hok
      have hspec := chunk_spec hlt hquiet hoffset hholds hcall (of_decide_eq_true hok)
      have hpos : 0 < (chunkAt file offset).length := by
        rw [chunkAt, List.length_take, List.length_drop]
        exact Nat.lt_min.mpr ⟨by decide, by omega⟩
      split at hspec
      · next hlast =>
        -- nothing is left to send
        have hrest : pushChunks isSystemKey format v key file fuel
            (offset + (chunkAt file offset).length) net' = (true, net') := by
          cases fuel with
          | zero => rfl
          | succ fuel => rw [pushChunks, if_pos hlast]
        rw [hrest]
        exact hspec
      · next hlast => exact ih hquiet' (by omega) (by omega) hspec h
    · cases h

/-! ## All files at all nodes -/

/-- What the node has of a file that was sent to it. -/
def Pushed (format : ShardFormat) (zip : Archive) (net : Net ν) (v : ν) (key : CString) : Prop :=
  ∀ file ∈ zip.file key, file.1 ≠ [] →
    ∃ rows, format.decode file.1 = some rows ∧ (net.node v).rows key = rows

variable {zip : Archive}

/-- An upload is about one shard of one node. -/
theorem pushChunks_rows {u : ν} {key' : CString} (hne : u = v → key ≠ key') (hquiet : net.Quiet)
    (fuel offset : Nat) :
    ((pushChunks isSystemKey format v key file fuel offset net).2.node u).rows key' =
      (net.node u).rows key' :=
  (pushChunks_inv (fun n l h => rows_engine n l h) hquiet
    (fun hu _ query body h => (rows_handleUpload (hne hu) query body).trans h) rfl fuel offset).1

theorem pushChunks_pushed {stored : FileBytes} (hquiet : net.Quiet)
    (hfile : zip.file key = some stored)
    (h : (pushChunks isSystemKey format v key stored.1 stored.1.length 0 net).1 = true) :
    Pushed format zip (pushChunks isSystemKey format v key stored.1 stored.1.length 0 net).2 v
      key := by
  intro file' hfile' hne
  obtain rfl := Option.some.inj (hfile.symm.trans hfile')
  exact pushChunks_spec stored.2 hquiet (by omega)
    (List.length_pos_iff.mpr hne) (.inl rfl) h

/-- What was sent before is not lost. -/
theorem pushChunks_keeps {stored : FileBytes} (hquiet : net.Quiet)
    (hfile : zip.file key = some stored)
    (h : (pushChunks isSystemKey format v key stored.1 stored.1.length 0 net).1 = true) {u : ν}
    {key' : CString} (hpushed : Pushed format zip net u key') :
    Pushed format zip (pushChunks isSystemKey format v key stored.1 stored.1.length 0 net).2 u
      key' := by
  by_cases hsame : u = v ∧ key = key'
  · obtain ⟨rfl, rfl⟩ := hsame
    exact pushChunks_pushed hquiet hfile h
  · intro file' hfile' hne
    obtain ⟨rows, hrows, hnode⟩ := hpushed file' hfile' hne
    exact ⟨rows, hrows, (pushChunks_rows (fun hu hkey => hsame ⟨hu, hkey⟩) hquiet _ _).trans hnode⟩

theorem pushChunks_quiet (hquiet : net.Quiet) (fuel offset : Nat) :
    (pushChunks isSystemKey format v key file fuel offset net).2.Quiet :=
  (pushChunks_inv (P := fun _ => True) (u := v) (fun _ _ _ => trivial) hquiet
    (fun _ _ _ _ _ => trivial) trivial fuel offset).2

/-- The nodes that are sent files. -/
def ClusterNode.Takes (n : ClusterNode) : Prop := n.online = true ∧ 0 < n.httpPort

theorem pushNodes_spec {stored : FileBytes} (hfile : zip.file key = some stored)
    {nodes : List ClusterNode} (hquiet : net.Quiet)
    (h : (pushNodes isSystemKey format route key stored.1 nodes net).1 = 0) :
    (pushNodes isSystemKey format route key stored.1 nodes net).2.Quiet ∧
      (∀ u key', Pushed format zip net u key' →
        Pushed format zip (pushNodes isSystemKey format route key stored.1 nodes net).2 u key') ∧
      ∀ n ∈ nodes, n.Takes → Pushed format zip
        (pushNodes isSystemKey format route key stored.1 nodes net).2 (route (.http n.addr n.httpPort))
        key := by
  induction nodes generalizing net with
  | nil => exact ⟨hquiet, fun _ _ => id, nofun⟩
  | cons n nodes ih =>
    unfold pushNodes at h ⊢
    split at h
    · next htakes =>
      rw [if_pos htakes]
      dsimp only at h ⊢
      obtain ⟨hrest, hok⟩ := Nat.add_eq_zero_iff.mp h
      have hok : (pushChunks isSystemKey format (route (.http n.addr n.httpPort)) key stored.1
          stored.1.length 0 net).1 = true := by
        by_contra hfalse
        rw [if_neg hfalse] at hok
        cases hok
      obtain ⟨hquiet', hkeeps, hnodes⟩ := ih (pushChunks_quiet hquiet _ _) hrest
      refine ⟨hquiet', fun u key' hpushed => hkeeps u key' (pushChunks_keeps hquiet hfile hok hpushed),
        fun m hm hmtakes => ?_⟩
      rcases List.mem_cons.mp hm with rfl | hm
      · exact hkeeps _ _ (pushChunks_pushed hquiet hfile hok)
      · exact hnodes m hm hmtakes
    · next hskip =>
      rw [if_neg hskip]
      obtain ⟨hquiet', hkeeps, hnodes⟩ := ih hquiet h
      refine ⟨hquiet', hkeeps, fun m hm hmtakes => ?_⟩
      rcases List.mem_cons.mp hm with rfl | hm
      · exact absurd (by simpa [ClusterNode.Takes] using hmtakes) hskip
      · exact hnodes m hm hmtakes

theorem pushShards_spec {nodes : List ClusterNode} {keys : List CString} (hquiet : net.Quiet)
    (h : (pushShards isSystemKey format route zip nodes keys net).1 = 0) :
    (pushShards isSystemKey format route zip nodes keys net).2.Quiet ∧
      (∀ u key', Pushed format zip net u key' →
        Pushed format zip (pushShards isSystemKey format route zip nodes keys net).2 u key') ∧
      ∀ key ∈ keys, (zip.file key).isSome ∧ ∀ n ∈ nodes, n.Takes → Pushed format zip
        (pushShards isSystemKey format route zip nodes keys net).2
        (route (.http n.addr n.httpPort)) key := by
  induction keys generalizing net with
  | nil => exact ⟨hquiet, fun _ _ => id, nofun⟩
  | cons key keys ih =>
    unfold pushShards at h ⊢
    cases hfile : zip.file key with
    | none =>
      rw [hfile] at h
      have h : 1 + (pushShards isSystemKey format route zip nodes keys net).1 = 0 := h
      omega
    | some file =>
      rw [hfile] at h
      dsimp only at h ⊢
      obtain ⟨hnodes, hrest⟩ := Nat.add_eq_zero_iff.mp h
      obtain ⟨hquiet₁, hkeeps₁, hpushed₁⟩ := pushNodes_spec hfile hquiet hnodes
      obtain ⟨hquiet₂, hkeeps₂, hpushed₂⟩ := ih hquiet₁ hrest
      refine ⟨hquiet₂, fun u key' hp => hkeeps₂ u key' (hkeeps₁ u key' hp), fun key' hkey' => ?_⟩
      rcases List.mem_cons.mp hkey' with rfl | hkey'
      · exact ⟨hfile ▸ rfl, fun n hn htakes => hkeeps₂ _ _ (hpushed₁ n hn htakes)⟩
      · exact hpushed₂ key' hkey'

/-! ## A restore that exits with 0 -/

variable {endpoint : ClusterNode → Option Endpoint} {handler : StorageNode → StorageNode × Nat}
variable {tool : ToolArgs} {topology : List ClusterNode}

theorem eachOnline_inv {P : StorageNode → Prop}
    (hP : ∀ n l, P n → P (n.step isSystemKey format (.engine l)))
    (hhandler : ∀ n, P n → P (handler n).1) (hquiet : net.Quiet) (h : P (net.node v))
    (nodes : List ClusterNode) :
    P ((eachOnline isSystemKey format route endpoint handler nodes net).2.node v) ∧
      (eachOnline isSystemKey format route endpoint handler nodes net).2.Quiet := by
  induction nodes generalizing net with
  | nil => exact ⟨h, hquiet⟩
  | cons n nodes ih =>
    unfold eachOnline
    split
    · exact ih hquiet h
    · exact ih (hquiet.request _ _) (Net.request_inv hP hquiet (fun _ => hhandler) h)

theorem eachOnline_quiet (hquiet : net.Quiet) (nodes : List ClusterNode) :
    (eachOnline isSystemKey format route endpoint handler nodes net).2.Quiet :=
  (eachOnline_inv (P := fun _ => True) (v := route .own) (fun _ _ _ => trivial)
    (fun _ _ => trivial) hquiet trivial nodes).2

/-- The shards have been pushed when the unlocking begins. -/
theorem pushed_of_exit_zero (hquiet : net.Quiet)
    (h : (cmdRestore isSystemKey format route tool topology zip net).1 = 0) {key : CString}
    (hkey : key ∈ zip.keys) :
    (zip.file key).isSome ∧
      ∀ n ∈ restoreNodes tool topology, n.Takes → ∀ file ∈ zip.file key, file.1 ≠ [] →
        ∃ rows, format.decode file.1 = some rows ∧
          ((cmdRestore isSystemKey format route tool topology zip net).2.node
            (route (.http n.addr n.httpPort))).rows key = rows := by
  unfold cmdRestore at h ⊢
  split at h
  · cases h
  next hkeys =>
  rw [if_neg hkeys]
  dsimp only at h ⊢
  split at h
  · cases h
  next hlocked =>
  rw [if_neg hlocked]
  dsimp only at h ⊢
  split at h
  · cases h
  next hfailed =>
  obtain ⟨hquiet', -, hpushed⟩ := pushShards_spec
    (eachOnline_quiet (eachOnline_quiet hquiet _) _) (Nat.eq_zero_of_not_pos hfailed)
  refine ⟨(hpushed key hkey).1, fun n hn htakes file hfile hne => ?_⟩
  obtain ⟨rows, hrows, hnode⟩ := (hpushed key hkey).2 n hn htakes file hfile hne
  refine ⟨rows, hrows, ?_⟩
  exact (eachOnline_inv (fun n l h => rows_engine n l h)
    (fun _ h => rows_handleUnlock.trans h) hquiet' hnode _).1

/-- **A restore that exits with 0** has found every file of the backup, and every node that is
online and has an HTTP port ends up with the rows of each of them that is not empty, whatever
requests fail on the way. -/
theorem restored_of_exit_zero (hquiet : net.Quiet)
    (h : (cmdRestore isSystemKey format route tool topology zip net).1 = 0) :
    ∀ key ∈ zip.keys, (zip.file key).isSome ∧
      ∀ n ∈ restoreNodes tool topology, n.Takes → Pushed format zip
        (cmdRestore isSystemKey format route tool topology zip net).2
        (route (.http n.addr n.httpPort)) key := fun _ hkey =>
  pushed_of_exit_zero hquiet h hkey

theorem length_sampleFile_lt : Restoring.sampleFile.length < 2 ^ 63 := by decide

/-- A backup of one shard. -/
def oneArchive : Archive where
  shards := [Restoring.sampleKey]
  file := Function.update (fun _ => none) Restoring.sampleKey
    (some ⟨Restoring.sampleFile, length_sampleFile_lt⟩)

/-- It is restored to a node that is told by its address. -/
theorem oneArchive_restored : oneArchive.keys = [Restoring.sampleKey] ∧
    ∀ key ∈ oneArchive.keys, (oneArchive.file key).isSome ∧
      ∀ n ∈ restoreNodes { host := some (cstr "10.0.0.1") } [], n.Takes →
        Pushed oneFormat oneArchive
          (cmdRestore (fun _ => false) oneFormat (fun _ => ()) { host := some (cstr "10.0.0.1") } []
            oneArchive ⟨fun _ => oneNode, []⟩).2 () key :=
  ⟨by decide, restored_of_exit_zero nofun (by decide +kernel)⟩

/-! ## A restore without HTTP ports -/

theorem locked_engine (n : StorageNode) (l : Manager.Label) (h : n.restoring.locked = true) :
    (n.step isSystemKey format (.engine l)).restoring.locked = true := by
  obtain ⟨t, ht⟩ := n.step_engine isSystemKey format l
  rw [ht]
  exact h

/-- A locked node without data. -/
def Wiped (isSystemKey : CString → Bool) (n : StorageNode) : Prop :=
  n.restoring.locked = true ∧
    ∀ key, key.length = 32 → isSystemKey key = false → n.rows key = ∅

theorem Wiped.engine (n : StorageNode) (l : Manager.Label) (h : Wiped isSystemKey n) :
    Wiped isSystemKey (n.step isSystemKey format (.engine l)) :=
  ⟨locked_engine n l h.1, fun key hlen hkey => rows_engine n l (h.2 key hlen hkey)⟩

/-- A request that is answered does what it is for. -/
theorem eachOnline_establishes {P Q : StorageNode → Prop}
    (hQ : ∀ n l, Q n → Q (n.step isSystemKey format (.engine l)))
    (hP : ∀ n l, P n → P (n.step isSystemKey format (.engine l)))
    (hhandler : ∀ n, Q n → P (handler n).1) (hPQ : ∀ n, P n → Q n) (hquiet : net.Quiet)
    (hanswered : net.Answered) (h : Q (net.node v)) {nodes : List ClusterNode}
    (hex : ∃ n ∈ nodes, n.online = true ∧ ∃ e, endpoint n = some e ∧ route e = v) :
    P ((eachOnline isSystemKey format route endpoint handler nodes net).2.node v) := by
  induction nodes generalizing net with
  | nil =>
    -- the node is asked, so the list is not empty
    obtain ⟨n, hn, -⟩ := hex
    cases hn
  | cons n nodes ih =>
    obtain ⟨m, hm, honline, e, he, hroute⟩ := hex
    unfold eachOnline
    split
    · next hnone =>
      rcases List.mem_cons.mp hm with rfl | hm
      · -- a node without an endpoint is passed by, and it is not this one
        rw [if_pos honline, he] at hnone
        cases hnone
      · exact ih hquiet hanswered h ⟨m, hm, honline, e, he, hroute⟩
    · next e' hsome =>
      have hquiet' : (net.call isSystemKey format (route e') handler).2.Quiet := hquiet.request _ _
      have hanswered' : (net.call isSystemKey format (route e') handler).2.Answered :=
        hanswered.request _ _
      by_cases hv : route e' = v
      · -- the rest keeps what this request has established
        have hdone : P ((net.call isSystemKey format (route e') handler).2.node v) := by
          rw [Net.call, hanswered.request_eq]
          subst hv
          dsimp only
          rw [Function.update_self]
          exact hhandler _ (Net.meanwhile_inv hQ hquiet.head h)
        exact (eachOnline_inv hP (fun n hn => hhandler n (hPQ n hn)) hquiet' hdone nodes).1
      · have hkept : Q ((net.call isSystemKey format (route e') handler).2.node v) :=
          Net.request_inv hQ hquiet (fun heq => absurd heq.symm hv) h
        rcases List.mem_cons.mp hm with rfl | hm
        · rw [if_pos honline, he] at hsome
          obtain rfl := Option.some.inj hsome
          exact absurd hroute hv
        · exact ih hquiet' hanswered' hkept ⟨m, hm, honline, e, he, hroute⟩

theorem eachOnline_answered (hanswered : net.Answered) (nodes : List ClusterNode) :
    (eachOnline isSystemKey format route endpoint handler nodes net).2.Answered := by
  induction nodes generalizing net with
  | nil => exact hanswered
  | cons n nodes ih =>
    unfold eachOnline
    split
    · exact ih hanswered
    · exact ih (hanswered.request _ _)

theorem eachOnline_pos (hstatus : ∀ n, (handler n).2 = 200) (hanswered : net.Answered)
    {nodes : List ClusterNode} (hex : ∃ n ∈ nodes, n.online = true ∧ (endpoint n).isSome) :
    0 < (eachOnline isSystemKey format route endpoint handler nodes net).1 := by
  induction nodes generalizing net with
  | nil =>
    obtain ⟨n, hn, -⟩ := hex
    cases hn
  | cons n nodes ih =>
    obtain ⟨m, hm, honline, hsome⟩ := hex
    unfold eachOnline
    split
    · next hnone =>
      rcases List.mem_cons.mp hm with rfl | hm
      · rw [if_pos honline] at hnone
        rw [hnone] at hsome
        cases hsome
      · exact ih hanswered ⟨m, hm, honline, hsome⟩
    · next e he =>
      refine Nat.add_pos_right _ ?_
      rw [Net.call, hanswered.request_eq, if_pos]
      · exact Nat.one_pos
      · exact decide_eq_true (hstatus _)

theorem pushNodes_none {nodes : List ClusterNode} (hnone : ∀ n ∈ nodes, ¬ n.Takes) :
    pushNodes isSystemKey format route key file nodes net = (0, net) := by
  induction nodes with
  | nil => rfl
  | cons n nodes ih =>
    unfold pushNodes
    rw [if_neg, ih fun m hm => hnone m (List.mem_cons_of_mem n hm)]
    intro htakes
    exact hnone n List.mem_cons_self (by simpa [ClusterNode.Takes] using htakes)

theorem pushShards_none {nodes : List ClusterNode} (hnone : ∀ n ∈ nodes, ¬ n.Takes)
    {keys : List CString} (hfiles : ∀ key ∈ keys, (zip.file key).isSome) :
    pushShards isSystemKey format route zip nodes keys net = (0, net) := by
  induction keys with
  | nil => rfl
  | cons key keys ih =>
    unfold pushShards
    obtain ⟨file, hfile⟩ := Option.isSome_iff_exists.mp (hfiles key List.mem_cons_self)
    rw [hfile]
    dsimp only
    rw [pushNodes_none hnone]
    dsimp only
    rw [ih fun k hk => hfiles k (List.mem_cons_of_mem key hk)]
    rfl

/-- **A restore that reaches no HTTP port**, such as one over the admin socket of a single node,
exits with 0 and leaves none of the data. -/
theorem restore_without_ports (hquiet : net.Quiet) (hanswered : net.Answered)
    (hkeys : zip.keys ≠ []) (hfiles : ∀ key ∈ zip.keys, (zip.file key).isSome)
    (hports : ∀ n ∈ restoreNodes tool topology, n.online = true → n.httpPort ≤ 0)
    (hlock : ∃ n ∈ restoreNodes tool topology, n.online = true ∧ (lockEndpoint tool n).isSome) :
    (cmdRestore isSystemKey format route tool topology zip net).1 = 0 ∧
      ∀ key, key.length = 32 → isSystemKey key = false →
        ((cmdRestore isSystemKey format route tool topology zip net).2.node (route .own)).rows
          key = ∅ := by
  have hnone : ∀ n ∈ restoreNodes tool topology, ¬ n.Takes := fun n hn htakes =>
    absurd htakes.2 (not_lt.mpr (hports n hn htakes.1))
  -- the node behind the tool's connection is locked, and wiped over it
  obtain ⟨n, hn, honline, hsome⟩ := hlock
  have hown : lockEndpoint tool n = some .own ∧ restoreEndpoint tool n = some .own := by
    have hport : ¬ 0 < n.httpPort := not_lt.mpr (hports n hn honline)
    unfold lockEndpoint at hsome ⊢
    unfold restoreEndpoint
    rw [if_neg hport] at hsome ⊢
    split at hsome
    · next haddr =>
      rw [if_pos haddr, if_neg hport, if_pos haddr.1]
      exact ⟨rfl, rfl⟩
    · cases hsome
  set nodes := restoreNodes tool topology with hnodes
  set afterLock := eachOnline isSystemKey format route (lockEndpoint tool)
    (fun n => n.handleLock isSystemKey format) nodes net with hafterLock
  have hlocked : (afterLock.2.node (route .own)).restoring.locked = true :=
    eachOnline_establishes (P := fun n => n.restoring.locked = true) (Q := fun _ => True)
      (fun _ _ _ => trivial) locked_engine
      (fun n _ => by rw [handleLock, step_eq (l := .lock) rfl]) (fun _ _ => trivial) hquiet
      hanswered trivial ⟨n, hn, honline, .own, hown.1, rfl⟩
  have hquiet₁ : afterLock.2.Quiet := eachOnline_quiet hquiet nodes
  have hanswered₁ : afterLock.2.Answered := eachOnline_answered hanswered nodes
  have hpos : 0 < afterLock.1 :=
    eachOnline_pos (fun _ => rfl) hanswered ⟨n, hn, honline, hsome⟩
  set afterWipe := eachOnline isSystemKey format route (restoreEndpoint tool)
    (fun n => n.handleWipe isSystemKey format) nodes afterLock.2 with hafterWipe
  have hwiped : Wiped isSystemKey (afterWipe.2.node (route .own)) :=
    eachOnline_establishes (P := Wiped isSystemKey) (Q := fun n => n.restoring.locked = true)
      locked_engine Wiped.engine
      (fun n h => ⟨locked_handleWipe h, fun key hlen hkey => rows_handleWipe h hlen hkey⟩)
      (fun _ h => h.1) hquiet₁ hanswered₁ hlocked ⟨n, hn, honline, .own, hown.2, rfl⟩
  have hquiet₂ : afterWipe.2.Quiet := eachOnline_quiet hquiet₁ nodes
  have hpush : pushShards isSystemKey format route zip nodes zip.keys afterWipe.2 =
      (0, afterWipe.2) := pushShards_none hnone hfiles
  have hrun : cmdRestore isSystemKey format route tool topology zip net =
      (0, (eachOnline isSystemKey format route (restoreEndpoint tool)
        (fun n => n.handleUnlock isSystemKey format) nodes afterWipe.2).2) := by
    unfold cmdRestore
    rw [if_neg hkeys]
    dsimp only
    rw [← hnodes, ← hafterLock, if_neg hpos.ne']
    rw [← hafterWipe, hpush]
    rfl
  rw [hrun]
  refine ⟨rfl, fun key hlen hkey => ?_⟩
  exact (eachOnline_inv rows_engine (fun _ h => rows_handleUnlock.trans h) hquiet₂
    (hwiped.2 key hlen hkey) nodes).1

/-- The same backup at the same node over its admin socket. -/
theorem oneArchive_lost :
    (cmdRestore (fun _ => false) oneFormat (fun _ => ()) {} [] oneArchive
        ⟨fun _ => oneNode, []⟩).1 = 0 ∧
      ∀ key, key.length = 32 → (fun _ : CString => false) key = false →
        ((cmdRestore (fun _ => false) oneFormat (fun _ => ()) {} [] oneArchive
          ⟨fun _ => oneNode, []⟩).2.node ()).rows key = ∅ :=
  restore_without_ports nofun nofun (by decide) (by decide) (by decide) (by decide)

end EpsilonDB
