import EpsilonDB.Engine.Json
import EpsilonDB.Lib.Files
import EpsilonDB.Socket.EstpWire
import Mathlib.Data.Nat.Digits.Defs
import Mathlib.Data.Rat.Floor

/-!
# Shard snapshots (`socket/epsilon_snap.c`)

A node pulls a copy of a shard file over a connection of its own: `SNAP_REQ`, then the
size, the bytes in pieces, an empty piece and a final acknowledgement.

- `snapServe`: the frames a server sends, when its sends go as `net` says.
- `snapFetch`: what a client does to its directory, for any turns of its receive loop.
- `Complete`: the frames are a whole transfer of some content.
- `loop_eq_true`: only such frames end the loop well, and then the temporary file has
  that content.
- `snapFetch_all_or_nothing`: the shard file is replaced by such content or not changed,
  at every moment, and what an honest server sends replaces it.

The cJSON parser is the parameter `parse`. The doubles it yields are rationals here; an
infinite one may be any rational above the bounds it is compared with. Files are written
without a buffer, as the source asks for.
-/

namespace EpsilonDB

open Files

/-! ## Acknowledgements -/

/-- `SNAP_MAX_BYTES`. -/
def snapMaxBytes : Nat := 4 * 1024 * 1024 * 1024

/-- What both sides read of a `SNAP_ACK` frame. -/
structure SnapAck where
  ok : Bool
  size : Option ℚ

/-- The `SNAP_ACK` frame as the receiver reads it. -/
def snapAck (parse : Bytes → Option (Json ℚ)) (payload : Option Bytes) : SnapAck :=
  let ack := payload.bind parse
  { ok := ack.bind (·.get (cstr "ok")) = some (.bool true)
    size :=
      match ack.bind (·.get (cstr "size")) with
      | some (.num d) => some d
      | _ => none }

/-- The size an acknowledgement declares, when it may start a transfer. -/
def SnapAck.declared (ack : SnapAck) : Option Nat :=
  match ack.size with
  | some d => if ack.ok ∧ 0 ≤ d ∧ d ≤ snapMaxBytes then some ⌊d⌋₊ else none
  | none => none

/-- `{"ok":true,"size":n}`, and the document it stands for. -/
def snapMeta (n : Nat) : Bytes :=
  (Json.obj [(cstr "ok", .bool true), (cstr "size", .num (n : Int))]).text

/-- `{"ok":b}`. -/
def snapFinal (ok : Bool) : Bytes := (Json.obj [(cstr "ok", .bool ok)] : Json Int).text

/-! ## The server -/

/-- `valid_key`. -/
def validKey (key : CString) : Bool :=
  key.length = 32 && key.all fun c => (48 ≤ c && c ≤ 57) || (97 ≤ c && c ≤ 102)

/-- What `edb_snap_serve` finds when it copies the shard file. -/
inductive SnapCopy where
  /-- no engine, or no name for the temporary file -/
  | unavailable
  /-- `backup_shard_file` fails; whether the shard file does not exist -/
  | failed (missing : Bool)
  /-- the copy cannot be read back -/
  | unreadable
  | copied (content : Bytes)

/-- The frames sent so far, and the calls of `estp_send_frame_raw`. -/
structure Serving where
  sent : List EstpFrame := []
  calls : Nat := 0

/-- `estp_send_frame_raw` with a payload of `len` bytes. -/
def Serving.send (net : Nat → Bool) (s : Serving) (type : EstpType) (payload : Bytes) :
    Serving × Bool :=
  if h : payload.length ≤ estpMaxPayload ∧ net s.calls then
    ({ sent := s.sent ++ [⟨type, payload, h.1⟩], calls := s.calls + 1 }, true)
  else ({ s with calls := s.calls + 1 }, false)

/-- The pieces the loop over the copy reads. -/
def snapChunks (content : Bytes) : List Bytes :=
  let chunk := content.take estpMaxPayload
  if _h : chunk.length = 0 then []
  else if chunk.length < estpMaxPayload then [chunk]
  else chunk :: snapChunks (content.drop estpMaxPayload)
termination_by content.length
decreasing_by
  rw [List.length_take] at _h
  rw [List.length_drop]
  have : 0 < estpMaxPayload := by decide
  omega

/-- The pieces are sent until a send fails. -/
def sendChunks (net : Nat → Bool) : Serving → List Bytes → Serving × Bool
  | s, [] => (s, true)
  | s, c :: cs =>
    match s.send net .snapData c with
    | (s, true) => sendChunks net s cs
    | (s, false) => (s, false)

/-- The data path of `edb_snap_serve`: the metadata, the pieces and the end marker. What
is sent, and the flags `ok` and `sent_eof`. -/
def serveCopy (net : Nat → Bool) (content : Bytes) : Serving × Bool × Bool :=
  if snapMaxBytes < content.length then ({}, false, false)
  else
    match Serving.send net {} .snapAck (snapMeta content.length) with
    | (s, false) => (s, false, false)
    | (s, true) =>
      let (s, ok) := sendChunks net s (snapChunks content)
      let (s, sentEof) := s.send net .snapData []
      (s, ok && sentEof, sentEof)

/-- `edb_snap_serve`: the frames it sends for a request. -/
def snapServe (net : Nat → Bool) (req : Option (Json ℚ)) (copy : SnapCopy) :
    List EstpFrame :=
  let key := (req.bind (·.getStr (cstr "key"))).filter validKey
  let allowMissing := decide (req.bind (·.get (cstr "allow_missing")) = some (.bool true))
  let (s, ok, sentEof) :=
    match key, copy with
    | none, _ | _, .unavailable | _, .unreadable => (({} : Serving), false, false)
    | some _, .failed missing => ({}, allowMissing && missing, false)
    | some _, .copied content => serveCopy net content
  let (s, ok) :=
    if ok && !sentEof then
      match s.send net .snapAck (snapMeta 0) with
      | (s, true) => s.send net .snapData []
      | (s, false) => (s, false)
    else (s, ok)
  (s.send net .snapAck (snapFinal ok)).1.sent

/-! ## The client -/

/-- What one turn of the receive loop meets. -/
structure Turn where
  /-- the deadline has passed -/
  late : Bool := false
  /-- `estp_recv_frame_raw`; `none` when it returns -1 -/
  frame : Option Received
  /-- a frame has as many bytes as it says -/
  whole : ∀ r ∈ frame, r.bytes.length = r.plen
  /-- the free bytes of the directory, when `statvfs` succeeds -/
  space : Option Nat
  /-- the bytes `fwrite` can write -/
  written : Nat

/-- A turn without trouble: there is time, room for `n` bytes, and the frame is written. -/
def Turn.Smooth (n : Nat) (t : Turn) : Prop :=
  t.late = false ∧ (∃ space, t.space = some space ∧ n ≤ space) ∧
    ∀ r ∈ t.frame, r.plen ≤ t.written

/-- The flags and counters of the loop. -/
structure SnapLoop where
  metadataSeen : Bool := false
  eofSeen : Bool := false
  expectedSize : Nat := 0
  receivedSize : Nat := 0

/-- How a turn ends. -/
inductive TurnEnd where
  | next (st : SnapLoop)
  /-- the loop is left with `ack_ok` -/
  | stop (ackOk : Bool)
  /-- `goto done` -/
  | fail

namespace SnapLoop

variable (parse : Bytes → Option (Json ℚ)) (incoming : CString)

/-- The turn of a `SNAP_ACK` frame. -/
def onAck (st : SnapLoop) (t : Turn) (r : Received) : TurnEnd :=
  let ack := snapAck parse r.payload
  match if st.metadataSeen then none else ack.declared with
  | some size =>
    match t.space with
    | none => .fail
    | some space =>
      if space < size then .fail
      else .next { st with metadataSeen := true, expectedSize := size }
  | none =>
    .stop (st.metadataSeen && st.eofSeen && ack.ok &&
      decide (st.receivedSize = st.expectedSize))

/-- The turn of any other frame. -/
def onData (st : SnapLoop) (t : Turn) (r : Received) : List (Files.Op CString UInt8) × TurnEnd :=
  if r.type ≠ EstpType.snapData.code || !st.metadataSeen || st.eofSeen ||
      (decide (0 < r.plen) && r.payload.isNone) ||
      decide (st.expectedSize < st.receivedSize) ||
      decide (st.expectedSize - st.receivedSize < r.plen) then
    ([], .fail)
  else if r.plen = 0 then ([], .next { st with eofSeen := true })
  else if t.written < r.plen then
    ([.append incoming (r.bytes.take t.written)], .fail)
  else
    ([.append incoming r.bytes], .next { st with receivedSize := st.receivedSize + r.plen })

/-- One turn. -/
def turn (st : SnapLoop) (t : Turn) : List (Files.Op CString UInt8) × TurnEnd :=
  if t.late then ([], .fail)
  else
    match t.frame with
    | none => ([], .fail)
    | some r =>
      if !st.metadataSeen &&
          (decide (r.type = EstpType.hello.code) || decide (r.type = EstpType.state.code)) then
        ([], .next st)
      else if r.type = EstpType.snapAck.code then ([], st.onAck parse t r)
      else st.onData incoming t r

/-- The loop: what it writes, and whether it is left with `ack_ok`. -/
def loop : SnapLoop → List Turn → List (Files.Op CString UInt8) × Bool
  | _, [] => ([], false)
  | st, t :: ts =>
    match st.turn parse incoming t with
    | (ops, .next st) => let (ops', ok) := loop st ts; (ops ++ ops', ok)
    | (ops, .stop ok) => (ops, ok)
    | (ops, .fail) => (ops, false)

end SnapLoop

/-- A call of `edb_snap_fetch` and how the calls around its loop go. -/
structure SnapCall where
  destDir : CString
  key : CString
  /-- `estp_dial` connects -/
  dialled : Bool
  /-- the hello and the request are sent -/
  requested : Bool
  /-- the six letters `mkstemp` finds -/
  suffix : Option CString
  /-- `fdopen` succeeds -/
  opened : Bool
  /-- `rename` would succeed -/
  renames : Bool

/-- `"%s/.%s.incoming.XXXXXX"`. -/
def SnapCall.incoming (c : SnapCall) (suffix : CString) : CString :=
  c.destDir ++ cstr "/." ++ c.key ++ cstr ".incoming." ++ suffix

/-- `"%s/%s.sqlite"`. -/
def SnapCall.finalPath (c : SnapCall) : CString :=
  c.destDir ++ cstr "/" ++ c.key ++ cstr ".sqlite"

/-- The size of both path buffers. -/
def snapPathMax : Nat := 1100

/-- `edb_snap_fetch`: what it does to the files, and whether it returns 0. -/
def snapFetch (parse : Bytes → Option (Json ℚ)) (c : SnapCall) (turns : List Turn) :
    List (Files.Op CString UInt8) × Bool :=
  let template := c.incoming (cstr "XXXXXX")
  if !validKey c.key || !c.dialled then ([], false)
  else if snapPathMax ≤ template.length || snapPathMax ≤ c.finalPath.length ||
      !c.requested then
    ([.unlink (snprintf snapPathMax template)], false)
  else
    match c.suffix with
    | none => ([.unlink template], false)
    | some suffix =>
      let incoming := c.incoming suffix
      if !c.opened then ([.create incoming, .unlink incoming], false)
      else
        let (ops, ackOk) := SnapLoop.loop parse incoming {} turns
        if ackOk && c.renames then
          (.create incoming :: ops ++ [.rename incoming c.finalPath], true)
        else (.create incoming :: ops ++ [.unlink incoming], false)

/-! ## Whole transfers -/

/-- The frames are a whole transfer of `content`: the size, the bytes in pieces, an end
marker and a final acknowledgement, after any greetings. -/
def Complete (parse : Bytes → Option (Json ℚ)) (content : Bytes)
    (frames : List (Option Received)) : Prop :=
  ∃ (greetings pieces : List Received) (first eof final : Received)
    (rest : List (Option Received)),
    frames = greetings.map some ++ some first :: (pieces.map some ++
      some eof :: some final :: rest) ∧
    (∀ r ∈ greetings, r.type = EstpType.hello.code ∨ r.type = EstpType.state.code) ∧
    first.type = EstpType.snapAck.code ∧
    (snapAck parse first.payload).declared = some content.length ∧
    (∀ r ∈ pieces, r.type = EstpType.snapData.code ∧ 0 < r.plen) ∧
    pieces.flatMap Received.bytes = content ∧
    eof.type = EstpType.snapData.code ∧ eof.plen = 0 ∧
    final.type = EstpType.snapAck.code ∧ (snapAck parse final.payload).ok = true

/-! ## What a turn does -/

namespace SnapLoop

variable {parse : Bytes → Option (Json ℚ)} {incoming : CString} {st st' : SnapLoop} {t : Turn}
variable {ops : List (Files.Op CString UInt8)}

/-- An acknowledgement goes on only as the metadata. -/
theorem onAck_next {r : Received} (h : st.onAck parse t r = .next st') :
    st.metadataSeen = false ∧ ∃ size, (snapAck parse r.payload).declared = some size ∧
      st' = { st with metadataSeen := true, expectedSize := size } := by
  unfold onAck at h
  cases hseen : st.metadataSeen with
  | true => simp [hseen] at h
  | false =>
    cases hdeclared : (snapAck parse r.payload).declared with
    | none => simp [hseen, hdeclared] at h
    | some size =>
      simp only [hseen, hdeclared, Bool.false_eq_true, if_false] at h
      split at h
      · cases h
      · split at h
        · cases h
        · cases h
          exact ⟨rfl, size, rfl, rfl⟩

/-- It ends the loop well only as the final one: the first is the metadata. -/
theorem onAck_stop {r : Received} (h : st.onAck parse t r = .stop true) :
    (snapAck parse r.payload).ok = true ∧ st.metadataSeen = true ∧ st.eofSeen = true ∧
      st.receivedSize = st.expectedSize := by
  unfold onAck at h
  dsimp only at h
  split at h
  · split at h
    · cases h
    · split at h <;> cases h
  · simp only [TurnEnd.stop.injEq, Bool.and_eq_true, decide_eq_true_eq] at h
    obtain ⟨⟨⟨hseen, heof⟩, hok⟩, hsize⟩ := h
    exact ⟨hok, hseen, heof, hsize⟩

/-- Data goes on only while it fits what was declared. -/
theorem onData_next {r : Received} (h : st.onData incoming t r = (ops, .next st')) :
    st.metadataSeen = true ∧ st.eofSeen = false ∧ r.type = EstpType.snapData.code ∧
      (0 < r.plen ∧ st.receivedSize + r.plen ≤ st.expectedSize ∧
          ops = [.append incoming r.bytes] ∧
          st' = { st with receivedSize := st.receivedSize + r.plen } ∨
        r.plen = 0 ∧ ops = [] ∧ st' = { st with eofSeen := true }) := by
  unfold onData at h
  split at h
  · cases h
  · next hok =>
    simp only [Bool.or_eq_true, Bool.and_eq_true, decide_eq_true_eq, not_or,
      Bool.not_eq_true', Bool.not_eq_true, Bool.not_eq_false, not_and, not_lt,
      ne_eq, not_not] at hok
    obtain ⟨⟨⟨⟨⟨htype, hseen⟩, heof⟩, -⟩, hle⟩, hfits⟩ := hok
    refine ⟨hseen, heof, htype, ?_⟩
    split at h
    · next hzero =>
      cases h
      exact Or.inr ⟨hzero, rfl, rfl⟩
    · next hpos =>
      split at h
      · cases h
      · cases h
        exact Or.inl ⟨by omega, by omega, rfl, rfl⟩

/-- Data never ends the loop well. -/
theorem onData_ne_stop {r : Received} : st.onData incoming t r ≠ (ops, .stop true) := by
  intro h
  unfold onData at h
  split at h
  · cases h
  · split at h
    · cases h
    · split at h <;> cases h

/-- A turn that does not fail takes a frame in: a greeting before the metadata, an
acknowledgement, or any other frame. -/
theorem turn_cases {e : TurnEnd} (h : st.turn parse incoming t = (ops, e)) (he : e ≠ .fail) :
    ∃ r, t.frame = some r ∧
      ((st.metadataSeen = false ∧ (r.type = EstpType.hello.code ∨ r.type = EstpType.state.code) ∧
          ops = [] ∧ e = .next st) ∨
        (r.type = EstpType.snapAck.code ∧ ops = [] ∧ st.onAck parse t r = e) ∨
        st.onData incoming t r = (ops, e)) := by
  unfold turn at h
  split at h
  · exact absurd (Prod.mk.inj h).2.symm he
  · cases hframe : t.frame with
    | none =>
      rw [hframe] at h
      exact absurd (Prod.mk.inj h).2.symm he
    | some r =>
      rw [hframe] at h
      refine ⟨r, rfl, ?_⟩
      dsimp only at h
      split at h
      · next hgreeting =>
        obtain ⟨rfl, rfl⟩ := Prod.mk.inj h
        left
        simpa using hgreeting
      · split at h
        · next htype =>
          obtain ⟨rfl, hack⟩ := Prod.mk.inj h
          exact Or.inr (Or.inl ⟨htype, rfl, hack⟩)
        · exact Or.inr (Or.inr h)

/-- **A turn that goes on**: a greeting, the metadata, a piece or the end marker. -/
theorem turn_next (h : st.turn parse incoming t = (ops, .next st')) :
    ∃ r, t.frame = some r ∧
      ((st.metadataSeen = false ∧ (r.type = EstpType.hello.code ∨ r.type = EstpType.state.code) ∧
          ops = [] ∧ st' = st) ∨
        (st.metadataSeen = false ∧ r.type = EstpType.snapAck.code ∧ ops = [] ∧
          ∃ size, (snapAck parse r.payload).declared = some size ∧
            st' = { st with metadataSeen := true, expectedSize := size }) ∨
        (st.metadataSeen = true ∧ st.eofSeen = false ∧ r.type = EstpType.snapData.code ∧
          0 < r.plen ∧ st.receivedSize + r.plen ≤ st.expectedSize ∧
          ops = [.append incoming r.bytes] ∧
          st' = { st with receivedSize := st.receivedSize + r.plen }) ∨
        (st.metadataSeen = true ∧ st.eofSeen = false ∧ r.type = EstpType.snapData.code ∧
          r.plen = 0 ∧ ops = [] ∧ st' = { st with eofSeen := true })) := by
  obtain ⟨r, hframe, ⟨hseen, htype, hops, hst⟩ | ⟨htype, hops, hack⟩ | hdata⟩ :=
    turn_cases h nofun
  · exact ⟨r, hframe, Or.inl ⟨hseen, htype, hops, TurnEnd.next.inj hst⟩⟩
  · obtain ⟨hseen, hsize⟩ := onAck_next hack
    exact ⟨r, hframe, Or.inr (Or.inl ⟨hseen, htype, hops, hsize⟩)⟩
  · obtain ⟨hseen, heof, htype, hpiece | hend⟩ := onData_next hdata
    · exact ⟨r, hframe, Or.inr (Or.inr (Or.inl ⟨hseen, heof, htype, hpiece⟩))⟩
    · exact ⟨r, hframe, Or.inr (Or.inr (Or.inr ⟨hseen, heof, htype, hend⟩))⟩

/-- **A turn that ends the loop well**: a final acknowledgement when everything is there. -/
theorem turn_stop (h : st.turn parse incoming t = (ops, .stop true)) :
    ∃ r, t.frame = some r ∧ r.type = EstpType.snapAck.code ∧
      (snapAck parse r.payload).ok = true ∧ st.metadataSeen = true ∧ st.eofSeen = true ∧
      st.receivedSize = st.expectedSize ∧ ops = [] := by
  obtain ⟨r, hframe, ⟨-, -, -, hst⟩ | ⟨htype, hops, hack⟩ | hdata⟩ := turn_cases h nofun
  · cases hst
  · obtain ⟨hok, hseen, heof, hsize⟩ := onAck_stop hack
    exact ⟨r, hframe, htype, hok, hseen, heof, hsize, hops⟩
  · exact absurd hdata onData_ne_stop

variable (parse incoming) in
/-- A turn only appends to the temporary file. -/
theorem turn_appends (st : SnapLoop) (t : Turn) :
    ∀ op ∈ (st.turn parse incoming t).1, ∃ xs, op = .append incoming xs := by
  unfold turn onData
  intro op hop
  split at hop
  · cases hop
  · split at hop
    · cases hop
    · split at hop
      · cases hop
      · split at hop
        · cases hop
        · split at hop
          · cases hop
          · split at hop
            · cases hop
            · split at hop <;> exact ⟨_, List.mem_singleton.mp hop⟩

variable (parse incoming) in
theorem loop_appends (st : SnapLoop) (ts : List Turn) :
    ∀ op ∈ (loop parse incoming st ts).1, ∃ xs, op = .append incoming xs := by
  induction ts generalizing st with
  | nil => exact fun op hop => absurd hop List.not_mem_nil
  | cons t ts ih =>
    intro op hop
    have hturn := turn_appends parse incoming st t
    unfold loop at hop
    split at hop
    · next ops st' heq =>
      rw [heq] at hturn
      rcases List.mem_append.mp hop with hop | hop
      · exact hturn op hop
      · exact ih st' op hop
    · next ops ok heq =>
      rw [heq] at hturn
      exact hturn op hop
    · next ops heq =>
      rw [heq] at hturn
      exact hturn op hop

/-! ## What the loop accepts -/

theorem loop_cons_true {ts : List Turn} (h : loop parse incoming st (t :: ts) = (ops, true)) :
    (∃ ops₁ st₁ ops₂, st.turn parse incoming t = (ops₁, .next st₁) ∧
      loop parse incoming st₁ ts = (ops₂, true) ∧ ops = ops₁ ++ ops₂) ∨
    st.turn parse incoming t = (ops, .stop true) := by
  unfold loop at h
  split at h
  · next ops₁ st₁ hturn =>
    left
    obtain ⟨rfl, hok⟩ := Prod.mk.inj h
    exact ⟨ops₁, st₁, _, hturn, Prod.ext rfl hok, rfl⟩
  · next ops₁ ok hturn =>
    right
    obtain ⟨rfl, rfl⟩ := Prod.mk.inj h
    exact hturn
  · cases h

/-- After the end marker only a final acknowledgement is accepted. -/
theorem loop_afterEof {ts : List Turn} (h : loop parse incoming st ts = (ops, true))
    (hseen : st.metadataSeen = true) (heof : st.eofSeen = true) :
    ∃ final rest, ts.map Turn.frame = some final :: rest ∧
      final.type = EstpType.snapAck.code ∧ (snapAck parse final.payload).ok = true ∧
      st.receivedSize = st.expectedSize ∧ ops = [] := by
  cases ts with
  | nil => cases h
  | cons t ts =>
    rcases loop_cons_true h with ⟨ops₁, st₁, ops₂, hturn, -⟩ | hturn
    · obtain ⟨r, -, ⟨hno, -⟩ | ⟨hno, -⟩ | ⟨-, hno, -⟩ | ⟨-, hno, -⟩⟩ := turn_next hturn
      · rw [hseen] at hno
        cases hno
      · rw [hseen] at hno
        cases hno
      · rw [heof] at hno
        cases hno
      · rw [heof] at hno
        cases hno
    · obtain ⟨r, hframe, htype, hok, -, -, hsize, hops⟩ := turn_stop hturn
      exact ⟨r, ts.map Turn.frame, by rw [List.map_cons, hframe], htype, hok, hsize, hops⟩

/-- After the metadata the loop accepts the missing bytes in pieces, the end marker and a
final acknowledgement. -/
theorem loop_afterMetadata {ts : List Turn} (h : loop parse incoming st ts = (ops, true))
    (hseen : st.metadataSeen = true) (hnot : st.eofSeen = false) :
    ∃ (pieces : List Received) (eof final : Received) (rest : List (Option Received)),
      ts.map Turn.frame = pieces.map some ++ some eof :: some final :: rest ∧
      (∀ r ∈ pieces, r.type = EstpType.snapData.code ∧ 0 < r.plen) ∧
      eof.type = EstpType.snapData.code ∧ eof.plen = 0 ∧
      final.type = EstpType.snapAck.code ∧ (snapAck parse final.payload).ok = true ∧
      st.receivedSize + (pieces.flatMap Received.bytes).length = st.expectedSize ∧
      ops = pieces.map fun r => .append incoming r.bytes := by
  induction ts generalizing st ops with
  | nil => cases h
  | cons t ts ih =>
    rcases loop_cons_true h with ⟨ops₁, st₁, ops₂, hturn, hloop, rfl⟩ | hturn
    · obtain ⟨r, hframe, hgreeting | hmeta | hpiece | heof⟩ := turn_next hturn
      · -- after the metadata neither a greeting nor a second one goes on
        rw [hseen] at hgreeting
        cases hgreeting.1
      · rw [hseen] at hmeta
        cases hmeta.1
      · -- a piece: the rest is what the loop accepts with so many bytes more
        obtain ⟨-, -, htype, hpos, -, rfl, rfl⟩ := hpiece
        obtain ⟨pieces, eof, final, rest, hts, hpieces, htail⟩ := ih hloop hseen hnot
        obtain ⟨heof, hzero, hfinal, hok, hsize, rfl⟩ := htail
        refine ⟨r :: pieces, eof, final, rest, ?_, ?_, heof, hzero, hfinal, hok, ?_, rfl⟩
        · rw [List.map_cons, hframe, hts]
          rfl
        · exact List.forall_mem_cons.mpr ⟨⟨htype, hpos⟩, hpieces⟩
        · have hwhole := t.whole r hframe
          rw [List.flatMap_cons, List.length_append, hwhole]
          dsimp only at hsize
          omega
      · -- the end marker: only the final acknowledgement may follow
        obtain ⟨-, -, htype, hzero, rfl, rfl⟩ := heof
        obtain ⟨final, rest, hts, hfinal, hok, hsize, rfl⟩ := loop_afterEof hloop hseen rfl
        refine ⟨[], r, final, rest, ?_, nofun, htype, hzero, hfinal, hok, hsize, rfl⟩
        rw [List.map_cons, hframe, hts]
        rfl
    · obtain ⟨r, -, -, -, -, heof, -⟩ := turn_stop hturn
      rw [hnot] at heof
      cases heof

/-- **What the loop accepts** is a whole transfer, and it wrote its content. -/
theorem loop_eq_true {ts : List Turn} (h : loop parse incoming {} ts = (ops, true)) :
    ∃ pieces : List Bytes, Complete parse pieces.flatten (ts.map Turn.frame) ∧
      ops = pieces.map (.append incoming) := by
  induction ts generalizing ops with
  | nil => cases h
  | cons t ts ih =>
    rcases loop_cons_true h with ⟨ops₁, st₁, ops₂, hturn, hloop, rfl⟩ | hturn
    · obtain ⟨r, hframe, hgreeting | hmeta | hpiece | heof⟩ := turn_next hturn
      · -- a greeting stands before what the rest accepts
        obtain ⟨-, htype, rfl, rfl⟩ := hgreeting
        obtain ⟨pieces, hcomplete, rfl⟩ := ih hloop
        refine ⟨pieces, ?_, rfl⟩
        obtain ⟨greetings, datas, first, eof, final, rest, hts, hgreetings, htail⟩ := hcomplete
        refine ⟨r :: greetings, datas, first, eof, final, rest, ?_, ?_, htail⟩
        · rw [List.map_cons, hframe, hts]
          rfl
        · exact List.forall_mem_cons.mpr ⟨htype, hgreetings⟩
      · obtain ⟨-, htype, rfl, size, hdeclared, rfl⟩ := hmeta
        obtain ⟨pieces, eof, final, rest, hts, hpieces, heof, hzero, hfinal, hok, hsize, rfl⟩ :=
          loop_afterMetadata hloop rfl rfl
        have hflat : (pieces.map Received.bytes).flatten = pieces.flatMap Received.bytes :=
          (List.flatMap_def ..).symm
        refine ⟨pieces.map Received.bytes, ⟨[], pieces, r, eof, final, rest, ?_, nofun, htype, ?_,
          hpieces, hflat.symm, heof, hzero, hfinal, hok⟩, ?_⟩
        · rw [List.map_cons, hframe, hts]
          rfl
        · rw [hdeclared, hflat]
          exact congrArg some (by simpa using hsize.symm)
        · rw [List.map_map]
          rfl
      · -- there is no data before the metadata
        cases hpiece.1
      · cases heof.1
    · obtain ⟨r, -, -, -, hseen, -⟩ := turn_stop hturn
      cases hseen

/-! ## A transfer without trouble -/

theorem turn_of_smooth {n : Nat} {r : Received} (hsmooth : t.Smooth n)
    (hframe : t.frame = some r) :
    st.turn parse incoming t =
      if !st.metadataSeen &&
          (decide (r.type = EstpType.hello.code) || decide (r.type = EstpType.state.code)) then
        ([], .next st)
      else if r.type = EstpType.snapAck.code then ([], st.onAck parse t r)
      else st.onData incoming t r := by
  rw [turn, hsmooth.1, hframe]
  rfl

variable (parse incoming st) in
theorem turn_metadata {n : Nat} {r : Received} (hsmooth : t.Smooth n)
    (hframe : t.frame = some r) (hseen : st.metadataSeen = false)
    (htype : r.type = EstpType.snapAck.code)
    (hdeclared : (snapAck parse r.payload).declared = some n) :
    st.turn parse incoming t =
      ([], .next { st with metadataSeen := true, expectedSize := n }) := by
  obtain ⟨space, hspace, hle⟩ := hsmooth.2.1
  rw [turn_of_smooth hsmooth hframe, htype, if_neg (by rw [hseen]; decide), if_pos rfl, onAck]
  simp only [hseen, Bool.false_eq_true, if_false, hdeclared, hspace, if_neg (not_lt.mpr hle)]

theorem turn_data {n : Nat} {r : Received} (hsmooth : t.Smooth n) (hframe : t.frame = some r)
    (hseen : st.metadataSeen = true) (htype : r.type = EstpType.snapData.code) :
    st.turn parse incoming t = st.onData incoming t r := by
  rw [turn_of_smooth hsmooth hframe, hseen, htype]
  rfl

variable (parse incoming st) in
theorem turn_piece {n : Nat} {r : Received} (hsmooth : t.Smooth n) (hframe : t.frame = some r)
    (hseen : st.metadataSeen = true) (heof : st.eofSeen = false)
    (htype : r.type = EstpType.snapData.code) (hpos : 0 < r.plen)
    (hfits : st.receivedSize + r.plen ≤ st.expectedSize) :
    st.turn parse incoming t =
      ([.append incoming r.bytes],
        .next { st with receivedSize := st.receivedSize + r.plen }) := by
  have hpayload : r.payload.isNone = false := by
    have hwhole := t.whole r hframe
    cases hp : r.payload with
    | none =>
      rw [Received.bytes, hp] at hwhole
      exact absurd hwhole.symm (by simpa using hpos.ne')
    | some b => rfl
  have hwritten := hsmooth.2.2 r hframe
  rw [turn_data hsmooth hframe hseen htype, onData, if_neg, if_neg hpos.ne',
    if_neg (not_lt.mpr hwritten)]
  simp only [htype, hseen, heof, hpayload, ne_eq, not_true_eq_false, decide_false,
    Bool.not_true, Bool.or_false, Bool.and_false, Bool.or_eq_true, decide_eq_true_eq, not_or,
    not_lt]
  simp
  omega

theorem turn_eof {n : Nat} {r : Received} (hsmooth : t.Smooth n) (hframe : t.frame = some r)
    (hseen : st.metadataSeen = true) (heof : st.eofSeen = false)
    (htype : r.type = EstpType.snapData.code) (hzero : r.plen = 0)
    (hfits : st.receivedSize ≤ st.expectedSize) :
    st.turn parse incoming t = ([], .next { st with eofSeen := true }) := by
  rw [turn_data hsmooth hframe hseen htype, onData, if_neg, if_pos hzero]
  simp [htype, hseen, heof, hzero]
  omega

variable (parse incoming st) in
theorem turn_final {n : Nat} {r : Received} (hsmooth : t.Smooth n) (hframe : t.frame = some r)
    (hseen : st.metadataSeen = true) (heof : st.eofSeen = true)
    (htype : r.type = EstpType.snapAck.code) (hok : (snapAck parse r.payload).ok = true)
    (hsize : st.receivedSize = st.expectedSize) :
    st.turn parse incoming t = ([], .stop true) := by
  rw [turn_of_smooth hsmooth hframe, hseen, htype, onAck]
  simp [hseen, heof, hok, hsize]

theorem loop_next {ts : List Turn} {ops' : List (Files.Op CString UInt8)} {ok : Bool}
    (hturn : st.turn parse incoming t = (ops, .next st'))
    (hloop : loop parse incoming st' ts = (ops', ok)) :
    loop parse incoming st (t :: ts) = (ops ++ ops', ok) := by
  unfold loop
  simp only [hturn, hloop]

variable (parse incoming st) in
/-- The bytes that are missing, the end marker and the final acknowledgement. -/
theorem loop_pieces {n : Nat} {pieces : List Received} {eof final : Received}
    {rest : List (Option Received)} {ts : List Turn} (hsmooth : ∀ t ∈ ts, t.Smooth n)
    (hts : ts.map Turn.frame = pieces.map some ++ some eof :: some final :: rest)
    (hseen : st.metadataSeen = true) (hnot : st.eofSeen = false)
    (hpieces : ∀ r ∈ pieces, r.type = EstpType.snapData.code ∧ 0 < r.plen)
    (heof : eof.type = EstpType.snapData.code) (hzero : eof.plen = 0)
    (hfinal : final.type = EstpType.snapAck.code)
    (hok : (snapAck parse final.payload).ok = true)
    (hsize : st.receivedSize + (pieces.flatMap Received.bytes).length = st.expectedSize) :
    loop parse incoming st ts = (pieces.map fun r => .append incoming r.bytes, true) := by
  induction pieces generalizing st ts with
  | nil =>
    -- without pieces the end marker is next, and then the final acknowledgement
    obtain ⟨t, ts, rfl, hframe, hts⟩ := List.map_eq_cons_iff.mp hts
    obtain ⟨t', ts, rfl, hframe', -⟩ := List.map_eq_cons_iff.mp hts
    have hsize : st.receivedSize = st.expectedSize := by simpa using hsize
    refine loop_next (turn_eof (hsmooth t List.mem_cons_self) hframe hseen hnot heof
      hzero hsize.le) ?_
    unfold loop
    rw [turn_final parse incoming { st with eofSeen := true } (hsmooth t' (by simp)) hframe' hseen rfl
      hfinal hok hsize]
  | cons r pieces ih =>
    -- a piece fits, for the bytes still missing have its length among them
    obtain ⟨t, ts, rfl, hframe, hts⟩ := List.map_eq_cons_iff.mp hts
    obtain ⟨⟨htype, hpos⟩, hpieces⟩ := List.forall_mem_cons.mp hpieces
    have hwhole := t.whole r hframe
    rw [List.flatMap_cons, List.length_append, hwhole] at hsize
    have hpiece := turn_piece parse incoming st
      (hsmooth t List.mem_cons_self) hframe hseen hnot htype hpos (by omega)
    refine loop_next hpiece (ih _ (fun t ht => hsmooth t (List.mem_cons_of_mem _ ht)) hts hseen hnot
      hpieces ?_)
    show st.receivedSize + r.plen + (pieces.flatMap Received.bytes).length = st.expectedSize
    omega

variable (incoming) in
/-- **A whole transfer is accepted** when there is no trouble. -/
theorem loop_complete {content : Bytes} {ts : List Turn}
    (hsmooth : ∀ t ∈ ts, t.Smooth content.length)
    (h : Complete parse content (ts.map Turn.frame)) :
    ∃ pieces : List Bytes, pieces.flatten = content ∧
      loop parse incoming {} ts = (pieces.map (.append incoming), true) := by
  obtain ⟨greetings, pieces, first, eof, final, rest, hts, hgreetings, htype, hdeclared,
    hpieces, hflat, heof, hzero, hfinal, hok⟩ := h
  refine ⟨pieces.map Received.bytes, ?_, ?_⟩
  · rw [← hflat, List.flatMap_def]
  induction greetings generalizing ts with
  | nil =>
    obtain ⟨t, ts, rfl, hframe, hts⟩ := List.map_eq_cons_iff.mp hts
    have hmeta := turn_metadata parse incoming {}
      (hsmooth t List.mem_cons_self) hframe rfl htype hdeclared
    refine loop_next hmeta ?_
    have hloop := loop_pieces parse incoming
      { metadataSeen := true, expectedSize := content.length }
      (fun t ht => hsmooth t (List.mem_cons_of_mem _ ht)) hts rfl rfl hpieces heof hzero
      hfinal hok (by simp [hflat])
    rw [hloop, List.map_map]
    rfl
  | cons r greetings ih =>
    obtain ⟨t, ts, rfl, hframe, hts⟩ := List.map_eq_cons_iff.mp hts
    obtain ⟨hgreeting, hgreetings⟩ := List.forall_mem_cons.mp hgreetings
    have hturn : ({} : SnapLoop).turn parse incoming t = ([], .next {}) := by
      rw [turn_of_smooth (hsmooth t List.mem_cons_self) hframe, if_pos]
      simpa using hgreeting
    exact loop_next hturn
      (ih (fun t ht => hsmooth t (List.mem_cons_of_mem _ ht)) hts hgreetings)

end SnapLoop

/-! ## The whole call -/

section Fetch

variable {parse : Bytes → Option (Json ℚ)} {c : SnapCall}

/-- The temporary file, also with its name cut short, is not the shard file. -/
theorem incoming_ne_finalPath (hkey : validKey c.key = true) (suffix : CString) (n : Nat) :
    (c.incoming suffix).take n ≠ c.finalPath := by
  intro heq
  rw [validKey, Bool.and_eq_true, decide_eq_true_iff] at hkey
  obtain ⟨hlength, hhex⟩ := hkey
  obtain ⟨a, key, hcons⟩ : ∃ a key, c.key = a :: key :=
    List.exists_cons_of_length_pos (by omega)
  have hdrop := congrArg (List.drop (c.destDir ++ cstr "/").length) heq
  have hincoming : c.incoming suffix =
      (c.destDir ++ cstr "/") ++ (46 :: (c.key ++ cstr ".incoming." ++ suffix)) := by
    simp [SnapCall.incoming, cstr]
  have hfinal : c.finalPath = (c.destDir ++ cstr "/") ++ (a :: (key ++ cstr ".sqlite")) := by
    simp [SnapCall.finalPath, hcons]
  rw [hincoming, hfinal, List.drop_take, List.drop_left, List.drop_left] at hdrop
  cases hm : n - (c.destDir ++ cstr "/").length with
  | zero =>
    rw [hm] at hdrop
    cases hdrop
  | succ m =>
    rw [hm, List.take_succ_cons] at hdrop
    obtain ⟨rfl, -⟩ := List.cons.inj hdrop
    rw [hcons, List.all_cons] at hhex
    cases hhex

/-- **How a call ends**: it fails without touching the shard file, or it renames a whole
transfer into its place. -/
theorem snapFetch_cases (parse : Bytes → Option (Json ℚ)) (c : SnapCall) (turns : List Turn) :
    ((snapFetch parse c turns).2 = false ∧
      ∀ op ∈ (snapFetch parse c turns).1, ¬ op.Touches c.finalPath) ∨
    ∃ (incoming : CString) (pieces : List Bytes), incoming ≠ c.finalPath ∧
      Complete parse pieces.flatten (turns.map Turn.frame) ∧
      snapFetch parse c turns =
        (.create incoming :: pieces.map (.append incoming) ++ [.rename incoming c.finalPath],
          true) := by
  unfold snapFetch
  dsimp only
  split
  · exact Or.inl ⟨rfl, nofun⟩
  · next hstart =>
    have hkey : validKey c.key = true := by
      rw [Bool.or_eq_true, not_or] at hstart
      simpa using hstart.1
    have hne := incoming_ne_finalPath hkey
    have hwhole : ∀ suffix, c.incoming suffix ≠ c.finalPath := fun suffix heq =>
      hne suffix (c.incoming suffix).length (by rw [List.take_length, heq])
    split
    · -- the temporary file cannot be made: nothing but its name was touched
      refine Or.inl ⟨rfl, fun op hop => ?_⟩
      rw [List.mem_singleton.mp hop]
      exact hne _ _
    · cases c.suffix with
      | none =>
        -- no name is left to try; the one in hand is not the shard's
        refine Or.inl ⟨rfl, fun op hop => ?_⟩
        rw [List.mem_singleton.mp hop]
        exact hwhole _
      | some suffix =>
        dsimp only
        split
        · refine Or.inl ⟨rfl, fun op hop => ?_⟩
          simp only [List.mem_cons, List.not_mem_nil, or_false] at hop
          rcases hop with rfl | rfl <;> exact hwhole _
        · -- the loop writes the temporary file alone; only when it ends well is it renamed
          cases hloop : SnapLoop.loop parse (c.incoming suffix) {} turns with
          | mk ops ackOk =>
            dsimp only
            split
            · next hok =>
              rw [Bool.and_eq_true] at hok
              rw [hok.1] at hloop
              obtain ⟨pieces, hcomplete, rfl⟩ := SnapLoop.loop_eq_true hloop
              exact Or.inr ⟨_, pieces, hwhole suffix, hcomplete, rfl⟩
            · refine Or.inl ⟨rfl, fun op hop => ?_⟩
              have happends := SnapLoop.loop_appends parse (c.incoming suffix) {} turns
              rw [hloop] at happends
              simp only [List.mem_append, List.mem_cons, List.not_mem_nil, or_false] at hop
              rcases hop with (rfl | hop) | rfl
              · exact hwhole _
              · obtain ⟨xs, rfl⟩ := happends op hop
                exact hwhole _
              · exact hwhole _

/-- At every moment the shard file is what it was or the content of a whole transfer; it
is the latter when the call returns 0, and was never changed when it does not. -/
def AllOrNothing (parse : Bytes → Option (Json ℚ)) (c : SnapCall) (turns : List Turn)
    (d : CString → Option Bytes) : Prop :=
  (∀ k, runs d ((snapFetch parse c turns).1.take k) c.finalPath = d c.finalPath ∨
    ∃ content, Complete parse content (turns.map Turn.frame) ∧
      runs d ((snapFetch parse c turns).1.take k) c.finalPath = some content) ∧
  ((snapFetch parse c turns).2 = true →
    ∃ content, Complete parse content (turns.map Turn.frame) ∧
      runs d (snapFetch parse c turns).1 c.finalPath = some content) ∧
  ((snapFetch parse c turns).2 = false →
    ∀ k, runs d ((snapFetch parse c turns).1.take k) c.finalPath = d c.finalPath)

theorem snapFetch_allOrNothing (parse : Bytes → Option (Json ℚ)) (c : SnapCall)
    (turns : List Turn) (d : CString → Option Bytes) : AllOrNothing parse c turns d := by
  rcases snapFetch_cases parse c turns with ⟨hfail, huntouched⟩ | ⟨incoming, pieces, hne, hwhole, heq⟩
  · have hkept : ∀ k, runs d ((snapFetch parse c turns).1.take k) c.finalPath = d c.finalPath :=
      fun k => runs_untouched d fun op hop => huntouched op (List.mem_of_mem_take hop)
    refine ⟨fun k => Or.inl (hkept k), fun hok => ?_, fun _ => hkept⟩
    rw [hfail] at hok
    cases hok
  · have hbody : ∀ op ∈ Files.Op.create incoming :: pieces.map (Files.Op.append incoming),
        ¬ op.Touches c.finalPath := by
      intro op hop
      rcases List.mem_cons.mp hop with rfl | hop
      · exact hne
      · obtain ⟨xs, -, rfl⟩ := List.mem_map.mp hop
        exact hne
    have hwritten := runs_written d incoming pieces
    unfold AllOrNothing
    rw [heq]
    refine ⟨fun k => ?_, fun _ => ⟨pieces.flatten, hwhole, ?_⟩, nofun⟩
    · rcases replaced_at_once d hbody k with hold | ⟨xs, hxs, hnew⟩
      · exact Or.inl hold
      · obtain rfl := Option.some.inj (hwritten.symm.trans hxs)
        exact Or.inr ⟨_, hwhole, hnew⟩
    · rw [runs_append]
      show (Files.Op.rename incoming c.finalPath).run _ c.finalPath = _
      simp only [Files.Op.run, hwritten, Function.update_self]

end Fetch

/-! ## What an honest server sends -/

theorem snapChunks_spec (content : Bytes) :
    (snapChunks content).flatten = content ∧
      ∀ chunk ∈ snapChunks content, 0 < chunk.length ∧ chunk.length ≤ estpMaxPayload := by
  induction content using snapChunks.induct with
  | case1 content chunk hzero =>
    have hnil : content = [] := by
      have hle : 0 < estpMaxPayload := by decide
      rw [List.length_take] at hzero
      exact List.length_eq_zero_iff.mp (by omega)
    rw [snapChunks, dif_pos hzero, hnil]
    exact ⟨rfl, nofun⟩
  | case2 content chunk hpos hshort =>
    rw [snapChunks, dif_neg hpos, if_pos hshort]
    refine ⟨?_, fun chunk' hmem => ?_⟩
    · rw [List.flatten_singleton]
      refine List.take_of_length_le ?_
      rw [List.length_take] at hshort
      omega
    · rw [List.mem_singleton.mp hmem]
      exact ⟨Nat.pos_of_ne_zero hpos, List.length_take_le ..⟩
  | case3 content chunk hpos hfull ih =>
    rw [snapChunks, dif_neg hpos, if_neg hfull]
    refine ⟨?_, fun chunk' hmem => ?_⟩
    · rw [List.flatten_cons, ih.1, List.take_append_drop]
    · rcases List.mem_cons.mp hmem with rfl | hmem
      · exact ⟨Nat.pos_of_ne_zero hpos, List.length_take_le ..⟩
      · exact ih.2 chunk' hmem

/-- Types and payloads of frames. -/
def EstpFrame.log (frames : List EstpFrame) : List (EstpType × Bytes) :=
  frames.map fun f => (f.type, f.payload)

/-- A send that goes through. -/
theorem send_ok (s : Serving) (type : EstpType) {payload : Bytes}
    (h : payload.length ≤ estpMaxPayload) :
    ∃ s', s.send (fun _ => true) type payload = (s', true) ∧
      EstpFrame.log s'.sent = EstpFrame.log s.sent ++ [(type, payload)] := by
  refine ⟨_, dif_pos ⟨h, rfl⟩, ?_⟩
  exact List.map_append

theorem sendChunks_ok (s : Serving) {chunks : List Bytes}
    (h : ∀ chunk ∈ chunks, chunk.length ≤ estpMaxPayload) :
    ∃ s', sendChunks (fun _ => true) s chunks = (s', true) ∧
      EstpFrame.log s'.sent =
        EstpFrame.log s.sent ++ chunks.map fun chunk => (EstpType.snapData, chunk) := by
  induction chunks generalizing s with
  | nil => exact ⟨s, rfl, (List.append_nil _).symm⟩
  | cons chunk chunks ih =>
    obtain ⟨hfirst, hrest⟩ := List.forall_mem_cons.mp h
    obtain ⟨s₁, hsend, hlog⟩ := send_ok s .snapData hfirst
    obtain ⟨s', hchunks, hlog'⟩ := ih s₁ hrest
    refine ⟨s', ?_, ?_⟩
    · rw [sendChunks, hsend]
      exact hchunks
    · rw [hlog', hlog, List.append_assoc]
      rfl

theorem length_snapMeta_le {n : Nat} (h : n ≤ snapMaxBytes) :
    (snapMeta n).length ≤ estpMaxPayload := by
  have hdigits : (toString (n : Int)).toList.length ≤ 10 := by
    show (Nat.repr n).toList.length ≤ 10
    rw [String.length_toList]
    exact Nat.repr_length n 10 (by decide) (lt_of_le_of_lt h (by decide))
  have hmax : 40 ≤ estpMaxPayload := by decide
  simp only [snapMeta, Json.text, Json.memberTexts, Json.memberText, cstr, List.length_append,
    List.length_map, List.length_cons, List.length_nil, List.isEmpty_cons, List.isEmpty_nil,
    Bool.false_eq_true, if_false, if_true]
  have hok : "ok".toList.length = 2 := rfl
  have hsize : "size".toList.length = 4 := rfl
  have htrue : "true".toList.length = 4 := rfl
  omega

/-- The request names a valid key. -/
def AsksForShard (req : Option (Json ℚ)) : Prop :=
  ∃ key, req.bind (·.getStr (cstr "key")) = some key ∧ validKey key = true

/-- What is sent of a copy that is not too long: its size, its bytes in pieces, the end
marker and the final acknowledgement. -/
def servedLog (content : Bytes) : List (EstpType × Bytes) :=
  (.snapAck, snapMeta content.length) ::
    ((snapChunks content).map fun chunk => (EstpType.snapData, chunk)) ++
    [(.snapData, []), (.snapAck, snapFinal true)]

theorem snapServe_copied {req : Option (Json ℚ)} (hreq : AsksForShard req) {content : Bytes}
    (h : content.length ≤ snapMaxBytes) :
    EstpFrame.log (snapServe (fun _ => true) req (.copied content)) = servedLog content := by
  obtain ⟨key, hkey, hvalid⟩ := hreq
  obtain ⟨s₁, hmeta, hlog₁⟩ := send_ok {} .snapAck (length_snapMeta_le h)
  obtain ⟨s₂, hchunks, hlog₂⟩ :=
    sendChunks_ok s₁ fun chunk hc => ((snapChunks_spec content).2 chunk hc).2
  obtain ⟨s₃, heof, hlog₃⟩ := send_ok s₂ .snapData (show ([] : Bytes).length ≤ _ by decide)
  obtain ⟨s₄, hfinal, hlog₄⟩ := send_ok s₃ .snapAck (show (snapFinal true).length ≤ _ by decide)
  have hcopy : serveCopy (fun _ => true) content = (s₃, true, true) := by
    rw [serveCopy, if_neg (not_lt.mpr h), hmeta]
    simp only [hchunks, heof, Bool.and_self]
  have hserve : snapServe (fun _ => true) req (.copied content) = s₄.sent := by
    unfold snapServe
    rw [hkey, Option.filter_some, hvalid]
    simp only [if_true, hcopy, Bool.not_true, Bool.and_false, Bool.false_eq_true, if_false,
      hfinal]
  rw [hserve, hlog₄, hlog₃, hlog₂, hlog₁, servedLog]
  simp [EstpFrame.log]

/-! ## The transfer -/

/-- What the parser makes of the acknowledgements of a transfer of `n` bytes. -/
def ParsesAcks (parse : Bytes → Option (Json ℚ)) (n : Nat) : Prop :=
  parse (snapMeta n) = some (.obj [(cstr "ok", .bool true), (cstr "size", .num n)]) ∧
    parse (snapFinal true) = some (.obj [(cstr "ok", .bool true)])

theorem EstpFrame.received_payload (key : Option MeshKey) {f : EstpFrame} (h : f.payload ≠ []) :
    (f.received key).payload = some f.payload := by
  rw [EstpFrame.received, if_neg (fun hnone => h hnone.2)]

theorem declared_snapMeta {parse : Bytes → Option (Json ℚ)} {n : Nat} (hn : n ≤ snapMaxBytes)
    (hparse : ParsesAcks parse n) :
    (snapAck parse (some (snapMeta n))).declared = some n := by
  have hle : (n : ℚ) ≤ snapMaxBytes := by exact_mod_cast hn
  have hok : (cstr "size" == cstr "ok") = false := by decide
  simp [snapAck, SnapAck.declared, hparse.1, Json.get_obj, List.lookup_cons, hok, hle]

theorem ok_snapFinal {parse : Bytes → Option (Json ℚ)} {n : Nat} (hparse : ParsesAcks parse n) :
    (snapAck parse (some (snapFinal true))).ok = true := by
  simp [snapAck, hparse.2, Json.get_obj]

/-- **What an honest server sends is a whole transfer.** -/
theorem complete_of_served {parse : Bytes → Option (Json ℚ)} {content : Bytes}
    (hlen : content.length ≤ snapMaxBytes) (hparse : ParsesAcks parse content.length)
    (key : Option MeshKey) (after : List EstpFrame) {greetings served : List EstpFrame}
    (hgreetings : ∀ f ∈ greetings, f.type = .hello ∨ f.type = .state)
    (hserved : EstpFrame.log served = servedLog content) :
    Complete parse content
      ((greetings ++ served ++ after).map fun f => some (f.received key)) := by
  -- the log is the metadata, the pieces, the end marker and the acknowledgement
  obtain ⟨first, served, rfl, hfirst, hserved⟩ := List.map_eq_cons_iff.mp hserved
  obtain ⟨pieces, served, rfl, hpieces, hserved⟩ := List.map_eq_append_iff.mp hserved
  obtain ⟨eof, served, rfl, heof, hserved⟩ := List.map_eq_cons_iff.mp hserved
  obtain ⟨final, served, rfl, hfinal, hserved⟩ := List.map_eq_cons_iff.mp hserved
  obtain rfl := List.map_eq_nil_iff.mp hserved
  obtain ⟨hfirstType, hfirst⟩ := Prod.mk.inj hfirst
  obtain ⟨heofType, heof⟩ := Prod.mk.inj heof
  obtain ⟨hfinalType, hfinal⟩ := Prod.mk.inj hfinal
  refine ⟨greetings.map (·.received key), pieces.map (·.received key), first.received key,
    eof.received key, final.received key, after.map fun f => some (f.received key), ?_, ?_, ?_,
    ?_, ?_, ?_, ?_, ?_, ?_, ?_⟩
  · simp only [List.map_append, List.map_cons, List.map_map, List.append_assoc,
      List.cons_append, List.nil_append]
    rfl
  · intro r hr
    obtain ⟨f, hf, rfl⟩ := List.mem_map.mp hr
    exact (hgreetings f hf).imp (congrArg EstpType.code) (congrArg EstpType.code)
  · exact congrArg EstpType.code hfirstType
  · have hne : first.payload ≠ [] := by
      rw [hfirst]
      exact List.cons_ne_nil _ _
    rw [first.received_payload key hne, hfirst]
    exact declared_snapMeta hlen hparse
  · intro r hr
    obtain ⟨f, hf, rfl⟩ := List.mem_map.mp hr
    have hmem : (f.type, f.payload) ∈ EstpFrame.log pieces := List.mem_map_of_mem hf
    rw [EstpFrame.log, hpieces] at hmem
    obtain ⟨chunk, hchunk, heq⟩ := List.mem_map.mp hmem
    obtain ⟨htype, hpayload⟩ := Prod.mk.inj heq
    refine ⟨congrArg EstpType.code htype.symm, ?_⟩
    show 0 < f.payload.length
    rw [← hpayload]
    exact ((snapChunks_spec content).2 chunk hchunk).1
  · have hpayloads : pieces.map EstpFrame.payload = snapChunks content := by
      have hsnd := congrArg (List.map Prod.snd) hpieces
      rw [List.map_map, List.map_map] at hsnd
      exact hsnd.trans (List.map_id _)
    rw [List.flatMap_map, List.flatMap_congr fun f _ => f.bytes_received key, List.flatMap_def,
      hpayloads]
    exact (snapChunks_spec content).1
  · exact congrArg EstpType.code heofType
  · exact congrArg List.length heof
  · exact congrArg EstpType.code hfinalType
  · have hne : final.payload ≠ [] := by
      rw [hfinal]
      exact List.cons_ne_nil _ _
    rw [final.received_payload key hne, hfinal]
    exact ok_snapFinal hparse

/-- Nothing around the loop goes wrong. -/
structure SnapCall.Ready (c : SnapCall) : Prop where
  key : validKey c.key = true
  dialled : c.dialled = true
  requested : c.requested = true
  incoming : (c.incoming (cstr "XXXXXX")).length < snapPathMax
  finalPath : c.finalPath.length < snapPathMax
  suffix : c.suffix.isSome = true
  opened : c.opened = true
  renames : c.renames = true

/-- **A whole transfer is put in place** when there is no trouble. -/
theorem snapFetch_of_complete {parse : Bytes → Option (Json ℚ)} {c : SnapCall} (hc : c.Ready)
    {content : Bytes} {turns : List Turn} (hsmooth : ∀ t ∈ turns, t.Smooth content.length)
    (h : Complete parse content (turns.map Turn.frame)) (d : CString → Option Bytes) :
    (snapFetch parse c turns).2 = true ∧
      runs d (snapFetch parse c turns).1 c.finalPath = some content := by
  obtain ⟨suffix, hsuffix⟩ := Option.isSome_iff_exists.mp hc.suffix
  obtain ⟨pieces, rfl, hloop⟩ :=
    SnapLoop.loop_complete (c.incoming suffix) hsmooth h
  have hfetch : snapFetch parse c turns =
      (.create (c.incoming suffix) :: pieces.map (.append (c.incoming suffix)) ++
        [.rename (c.incoming suffix) c.finalPath], true) := by
    unfold snapFetch
    simp only [hc.key, hc.dialled, hc.requested, hc.opened, hc.renames, hsuffix, hloop,
      decide_eq_false (not_le.mpr hc.incoming), decide_eq_false (not_le.mpr hc.finalPath),
      Bool.not_true, Bool.or_self, Bool.false_eq_true, if_false, Bool.and_self, if_true]
  rw [hfetch]
  refine ⟨rfl, ?_⟩
  rw [runs_append]
  show (Files.Op.rename (c.incoming suffix) c.finalPath).run _ c.finalPath = _
  simp only [Files.Op.run, runs_written, Function.update_self]

/-- **Snapshot fetch is all or nothing**, whatever the turns of its loop are. What a server
sends of a copy within the bounds, after any greetings, is read back from the connection,
and fetched as it is when there is no trouble. -/
theorem snapFetch_all_or_nothing (parse : Bytes → Option (Json ℚ)) (c : SnapCall)
    (d : CString → Option Bytes) :
    (∀ turns, AllOrNothing parse c turns d) ∧
    ∀ (content : Bytes) (req : Option (Json ℚ)) (key : Option MeshKey)
      (greetings : List EstpFrame) (wire : List (EstpFrame × Vector UInt8 12)) (out : Bytes)
      (cs : List Bytes),
      content.length ≤ snapMaxBytes → ParsesAcks parse content.length → AsksForShard req →
      c.Ready → (∀ f ∈ greetings, f.type = .hello ∨ f.type = .state) →
      wire.map Prod.fst = greetings ++ snapServe (fun _ => true) req (.copied content) →
      sendFrames key wire = some out → cs.flatten = out →
      ∃ cs', recvFrames key wire.length cs =
          some (wire.map fun f => f.1.received key, cs') ∧
        ∀ turns, turns.map Turn.frame = wire.map (fun f => some (f.1.received key)) →
          (∀ t ∈ turns, t.Smooth content.length) →
          (snapFetch parse c turns).2 = true ∧
            runs d (snapFetch parse c turns).1 c.finalPath = some content := by
  refine ⟨fun turns => snapFetch_allOrNothing parse c turns d, ?_⟩
  intro content req key greetings wire out cs hlen hparse hreq hc hgreetings hwire hsend hcs
  rw [sendFrames_eq] at hsend
  obtain ⟨cs', hmany, -⟩ := (decodes_estpRecvFrameRaw key).many wire
    (hcs.trans ((Option.some.inj hsend).symm.trans (List.append_nil _).symm))
  refine ⟨cs', hmany, fun turns hturns hsmooth => ?_⟩
  refine snapFetch_of_complete hc hsmooth ?_ d
  have hcomplete := complete_of_served hlen hparse key [] hgreetings
    (snapServe_copied hreq hlen)
  rw [List.append_nil, ← hwire, List.map_map] at hcomplete
  rw [hturns]
  exact hcomplete

/-! ## A transfer of three bytes -/

/-- A parser that knows the two acknowledgements. -/
def threeParse (text : Bytes) : Option (Json ℚ) :=
  [(snapMeta 3, .obj [(cstr "ok", .bool true), (cstr "size", .num (3 : Nat))]),
    (snapFinal true, .obj [(cstr "ok", .bool true)])].lookup text

/-- A call that goes well. -/
def threeCall : SnapCall where
  destDir := cstr "d"
  key := List.replicate 32 48
  dialled := true
  requested := true
  suffix := some (cstr "a1b2c3")
  opened := true
  renames := true

/-- The request it sends. -/
def threeRequest : Option (Json ℚ) :=
  some (.obj [(cstr "key", .str threeCall.key), (cstr "allow_missing", .bool true)])

theorem fits_braces : (cstr "\x7b\x7d").length ≤ estpMaxPayload := by decide

/-- The greeting of the server. -/
def helloFrame : EstpFrame := ⟨.hello, cstr "\x7b\x7d", fits_braces⟩

/-- What the server sends, in plaintext. -/
def threeWire : List (EstpFrame × Vector UInt8 12) :=
  (helloFrame :: snapServe (fun _ => true) threeRequest (.copied [1, 2, 3])).map fun f =>
    (f, Vector.replicate 12 0)

theorem threeParse_acks : ParsesAcks threeParse 3 := by
  refine ⟨List.lookup_cons_self, ?_⟩
  have hne : (snapFinal true == snapMeta 3) = false := by decide
  simp [threeParse, List.lookup_cons, hne]

theorem threeCall_ready : threeCall.Ready where
  key := by decide
  dialled := rfl
  requested := rfl
  incoming := by decide
  finalPath := by decide
  suffix := rfl
  opened := rfl
  renames := rfl

/-- Three bytes arrive, in one chunk of the connection. -/
theorem snapFetch_three_bytes :
    ∃ cs', recvFrames none threeWire.length [threeWire.flatMap (EstpFrame.written none)] =
        some (threeWire.map fun f => f.1.received none, cs') ∧
      ∀ turns, turns.map Turn.frame = threeWire.map (fun f => some (f.1.received none)) →
        (∀ t ∈ turns, t.Smooth 3) →
        (snapFetch threeParse threeCall turns).2 = true ∧
          runs (fun _ => none) (snapFetch threeParse threeCall turns).1 threeCall.finalPath =
            some [1, 2, 3] :=
  (snapFetch_all_or_nothing threeParse threeCall fun _ => none).2 [1, 2, 3] threeRequest none
    [helloFrame] threeWire _ [_] (by decide) threeParse_acks ⟨threeCall.key, rfl, by decide⟩
    threeCall_ready (fun f hf => Or.inl (List.mem_singleton.mp hf ▸ rfl))
    (by rw [threeWire, List.map_map]; exact List.map_id _) (sendFrames_eq none threeWire) (List.append_nil _)

end EpsilonDB
