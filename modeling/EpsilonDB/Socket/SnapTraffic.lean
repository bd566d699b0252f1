import EpsilonDB.Socket.Snap

/-!
# Snapshots and heartbeats (`edb_snap_serve`, `maintainer_tick`)

The connection a snapshot is pulled over is one of the serving node's mesh connections,
so every tick of its maintainer sends a `STATE` frame on it as well. The client skips
such frames before the metadata only.

- `Interleaves`: the frames on the wire, without the heartbeats, are what the server
  sends for the request.
- `duringTransfer`: the frames between the metadata and the final acknowledgement.
- `quiet_of_complete`: a whole transfer has no heartbeat there.
- `completes_iff`: exactly such transfers arrive.
- `heartbeat_ends_transfer`: one heartbeat after the metadata, and nothing arrives.

Frames do not mix on the wire here. In the source the server sends without the lock the
maintainer takes, so even their bytes may.
-/

namespace EpsilonDB

open Files

/-- A heartbeat. -/
def EstpFrame.isState (f : EstpFrame) : Bool := f.type = .state

/-- Greetings, the frames a server sends of a shard copy, and heartbeats anywhere. -/
structure Interleaves (req : Option (Json ℚ)) (content : Bytes) (frames : List EstpFrame)
    (greetings : List EstpFrame) : Prop where
  hellos : ∀ f ∈ greetings, f.type = .hello
  served : frames.filter (fun f => !f.isState) =
    greetings ++ snapServe (fun _ => true) req (.copied content)

/-- The frames between the first and the second acknowledgement. -/
def duringTransfer (frames : List EstpFrame) : List EstpFrame :=
  ((frames.dropWhile fun f => decide (f.type ≠ .snapAck)).drop 1).takeWhile fun f =>
    decide (f.type ≠ .snapAck)

/-- A turn of the receive loop that gets a frame, with room for `n` bytes. -/
def smoothTurn (key : Option MeshKey) (n : Nat) (f : EstpFrame) : Turn where
  frame := some (f.received key)
  whole r hr := by
    obtain rfl := Option.mem_some_iff.mp hr
    rw [f.bytes_received key]
    rfl
  space := some n
  written := f.payload.length

theorem smoothTurn_smooth (key : Option MeshKey) (n : Nat) (f : EstpFrame) :
    (smoothTurn key n f).Smooth n := by
  refine ⟨rfl, ⟨n, rfl, le_rfl⟩, fun r hr => ?_⟩
  obtain rfl := Option.mem_some_iff.mp hr
  exact le_rfl

/-- The client gets the frames without any trouble and puts exactly `content` in place. -/
def Completes (parse : Bytes → Option (Json ℚ)) (c : SnapCall) (key : Option MeshKey)
    (d : CString → Option Bytes) (frames : List EstpFrame) (content : Bytes) : Prop :=
  (snapFetch parse c (frames.map (smoothTurn key content.length))).2 = true ∧
    runs d (snapFetch parse c (frames.map (smoothTurn key content.length))).1 c.finalPath =
      some content

section

variable {parse : Bytes → Option (Json ℚ)} {c : SnapCall} {key : Option MeshKey}
variable {d : CString → Option Bytes} {req : Option (Json ℚ)} {content : Bytes}
variable {frames greetings : List EstpFrame}

theorem map_frame_smoothTurn (key : Option MeshKey) (n : Nat) (frames : List EstpFrame) :
    (frames.map (smoothTurn key n)).map Turn.frame =
      frames.map fun f => some (f.received key) := by
  rw [List.map_map]
  rfl

/-- The type byte tells the types apart. -/
theorem code_injective : Function.Injective EstpType.code := by
  intro a b h
  revert h
  cases a <;> cases b <;> decide

/-- What a call that returns 0 was sent, frame by frame. -/
theorem shape_of_complete
    (h : Complete parse content (frames.map fun f => some (f.received key))) :
    ∃ (before pieces : List EstpFrame) (first eof final : EstpFrame) (after : List EstpFrame),
      frames = before ++ first :: (pieces ++ eof :: final :: after) ∧
      (∀ f ∈ before, f.type = .hello ∨ f.type = .state) ∧ first.type = .snapAck ∧
      (∀ f ∈ pieces, f.type = .snapData) ∧ eof.type = .snapData ∧ final.type = .snapAck := by
  obtain ⟨before, pieces, first, eof, final, after, heq, hbefore, hfirst, -, hpieces, -, heof, -,
    hfinal, -⟩ := h
  obtain ⟨before', frames', rfl, hmap, heq⟩ := List.map_eq_append_iff.mp heq
  obtain ⟨first', frames', rfl, hfirst', heq⟩ := List.map_eq_cons_iff.mp heq
  obtain ⟨pieces', frames', rfl, hmap', heq⟩ := List.map_eq_append_iff.mp heq
  obtain ⟨eof', frames', rfl, heof', heq⟩ := List.map_eq_cons_iff.mp heq
  obtain ⟨final', frames', rfl, hfinal', -⟩ := List.map_eq_cons_iff.mp heq
  obtain rfl := Option.some.inj hfirst'
  obtain rfl := Option.some.inj heof'
  obtain rfl := Option.some.inj hfinal'
  refine ⟨before', pieces', first', eof', final', frames', rfl, fun f hf => ?_,
    code_injective hfirst, fun f hf => ?_, code_injective heof, code_injective hfinal⟩
  · have hmem : some (f.received key) ∈ before.map some :=
      hmap ▸ List.mem_map_of_mem (f := fun f => some (EstpFrame.received key f)) hf
    obtain ⟨r, hr, heq⟩ := List.mem_map.mp hmem
    obtain rfl := Option.some.inj heq
    exact (hbefore _ hr).imp (fun h => code_injective h) fun h => code_injective h
  · have hmem : some (f.received key) ∈ pieces.map some :=
      hmap' ▸ List.mem_map_of_mem (f := fun f => some (EstpFrame.received key f)) hf
    obtain ⟨r, hr, heq⟩ := List.mem_map.mp hmem
    obtain rfl := Option.some.inj heq
    exact code_injective (hpieces _ hr).1

theorem duringTransfer_eq {before mid after : List EstpFrame} {first final : EstpFrame}
    (hbefore : ∀ f ∈ before, f.type ≠ .snapAck) (hfirst : first.type = .snapAck)
    (hmid : ∀ f ∈ mid, f.type ≠ .snapAck) (hfinal : final.type = .snapAck) :
    duringTransfer (before ++ first :: (mid ++ final :: after)) = mid := by
  unfold duringTransfer
  rw [List.dropWhile_append_of_pos (by simpa using hbefore), List.dropWhile_cons_of_neg
    (by simp [hfirst]), List.drop_one, List.tail_cons,
    List.takeWhile_append_of_pos (by simpa using hmid), List.takeWhile_cons_of_neg
    (by simp [hfinal]), List.append_nil]

/-- **A whole transfer is quiet**: no heartbeat between its acknowledgements. -/
theorem quiet_of_complete
    (h : Complete parse content (frames.map fun f => some (f.received key))) :
    ∀ f ∈ duringTransfer frames, f.isState = false := by
  obtain ⟨before, pieces, first, eof, final, after, rfl, hbefore, hfirst, hpieces, heof,
    hfinal⟩ := shape_of_complete h
  have hdata : ∀ f ∈ pieces ++ [eof], f.type = .snapData := by
    intro f hf
    rcases List.mem_append.mp hf with hf | hf
    · exact hpieces f hf
    · rw [List.mem_singleton.mp hf]
      exact heof
  have hsplit : pieces ++ eof :: final :: after = (pieces ++ [eof]) ++ final :: after := by
    rw [List.append_assoc]
    rfl
  rw [hsplit, duringTransfer_eq (fun f hf => ?_) hfirst (fun f hf => ?_) hfinal]
  · intro f hf
    rw [EstpFrame.isState, hdata f hf]
    rfl
  · rcases hbefore f hf with h | h <;> rw [h] <;> decide
  · rw [hdata f hf]
    decide

theorem eq_nil_of_states {l : List EstpFrame} (hstate : ∀ f ∈ l, ¬ (!f.isState) = true)
    (hquiet : ∀ f ∈ l, f.isState = false) : l = [] := by
  refine List.eq_nil_iff_forall_not_mem.mpr fun f hf => hstate f hf ?_
  rw [hquiet f hf]
  rfl

/-- Without a heartbeat during the transfer the frames are a whole one. -/
theorem complete_of_quiet (hlen : content.length ≤ snapMaxBytes)
    (hparse : ParsesAcks parse content.length) (hreq : AsksForShard req)
    (h : Interleaves req content frames greetings)
    (hquiet : ∀ f ∈ duringTransfer frames, f.isState = false) :
    Complete parse content (frames.map fun f => some (f.received key)) := by
  have hlog := snapServe_copied hreq hlen
  have hserved := h.served
  revert hserved hlog
  generalize snapServe (fun _ => true) req (.copied content) = served
  intro hlog hserved
  -- the served frames: the metadata, what is between, and the final acknowledgement
  obtain ⟨first, tail, rfl, hfirst, htail⟩ := List.map_eq_cons_iff.mp hlog
  obtain ⟨pieces, tail, rfl, hpieces, htail⟩ := List.map_eq_append_iff.mp htail
  obtain ⟨eof, tail, rfl, heof, htail⟩ := List.map_eq_cons_iff.mp htail
  obtain ⟨final, tail, rfl, hfinal, htail⟩ := List.map_eq_cons_iff.mp htail
  obtain rfl := List.map_eq_nil_iff.mp htail
  have hmid : ∀ f ∈ pieces ++ [eof], f.type ≠ .snapAck := by
    intro f hf
    rcases List.mem_append.mp hf with hf | hf
    · have hmem := List.mem_map_of_mem (f := fun f => (EstpFrame.type f, EstpFrame.payload f)) hf
      rw [hpieces] at hmem
      obtain ⟨chunk, -, heq⟩ := List.mem_map.mp hmem
      rw [← (Prod.mk.inj heq).1]
      decide
    · rw [List.mem_singleton.mp hf, (Prod.mk.inj heof).1]
      decide
  -- where they are on the wire
  obtain ⟨before, rest, rfl, hbefore, hrest⟩ := List.filter_eq_append_iff.mp hserved
  obtain ⟨gap, rest, rfl, hgap, -, hrest⟩ := List.filter_eq_cons_iff.mp hrest
  have hsplit : pieces ++ [eof, final] = (pieces ++ [eof]) ++ [final] := by simp
  rw [hsplit] at hrest
  obtain ⟨mid, rest, rfl, hmidEq, hrest⟩ := List.filter_eq_append_iff.mp hrest
  obtain ⟨gap', after, rfl, hgap', -, -⟩ := List.filter_eq_cons_iff.mp hrest
  have hlead : ∀ f ∈ before ++ gap, f.type = .hello ∨ f.type = .state := by
    intro f hf
    by_cases hstate : f.isState = true
    · exact Or.inr (of_decide_eq_true hstate)
    · rcases List.mem_append.mp hf with hf | hf
      · have hmem : f ∈ before.filter fun f => !f.isState :=
          List.mem_filter.mpr ⟨hf, by simpa using hstate⟩
        rw [hbefore] at hmem
        exact Or.inl (h.hellos f hmem)
      · exact absurd (by simpa using hstate) (hgap f hf)
  have hnoAck : ∀ f ∈ mid ++ gap', f.type ≠ .snapAck := by
    intro f hf
    by_cases hstate : f.isState = true
    · rw [of_decide_eq_true hstate]
      decide
    · rcases List.mem_append.mp hf with hf | hf
      · have hmem : f ∈ mid.filter fun f => !f.isState :=
          List.mem_filter.mpr ⟨hf, by simpa using hstate⟩
        rw [hmidEq] at hmem
        exact hmid f hmem
      · exact absurd (by simpa using hstate) (hgap' f hf)
  have hassoc : before ++ (gap ++ first :: (mid ++ (gap' ++ final :: after))) =
      (before ++ gap) ++ first :: ((mid ++ gap') ++ final :: after) := by simp
  rw [hassoc, duringTransfer_eq (fun f hf => ?_) (Prod.mk.inj hfirst).1 hnoAck
    (Prod.mk.inj hfinal).1] at hquiet
  · -- no heartbeat in between, so what is there is what was served
    obtain rfl : gap' = [] :=
      eq_nil_of_states hgap' fun f hf => hquiet f (List.mem_append_right mid hf)
    have hmidAll : mid.filter (fun f => !f.isState) = mid :=
      List.filter_eq_self.mpr fun f hf => by
        rw [hquiet f (List.mem_append_left [] hf)]
        rfl
    obtain rfl : mid = pieces ++ [eof] := hmidAll.symm.trans hmidEq
    have hframes : before ++ (gap ++ first :: ((pieces ++ [eof]) ++ ([] ++ final :: after))) =
        (before ++ gap) ++ (first :: (pieces ++ [eof, final])) ++ after := by simp
    rw [hframes]
    exact complete_of_served hlen hparse key after hlead hlog
  · rcases hlead f hf with h | h <;> rw [h] <;> decide

/-- A copy that is too long is refused before anything is sent of it. -/
theorem snapServe_long (hreq : AsksForShard req) (hlong : snapMaxBytes < content.length) :
    EstpFrame.log (snapServe (fun _ => true) req (.copied content)) =
      [(.snapAck, snapFinal false)] := by
  obtain ⟨asked, hkey, hvalid⟩ := hreq
  obtain ⟨s, hfinal, hlog⟩ :=
    send_ok {} .snapAck (show (snapFinal false).length ≤ estpMaxPayload by decide)
  have hserve : snapServe (fun _ => true) req (.copied content) = s.sent := by
    unfold snapServe
    rw [hkey, Option.filter_some, hvalid]
    simp only [if_true, serveCopy, if_pos hlong, Bool.false_and, Bool.false_eq_true, if_false,
      hfinal]
  rw [hserve, hlog]
  rfl

/-- A whole transfer is not too long. -/
theorem short_of_complete (hreq : AsksForShard req)
    (h : Interleaves req content frames greetings) {other : Bytes}
    (hcomplete : Complete parse other (frames.map fun f => some (f.received key))) :
    content.length ≤ snapMaxBytes := by
  by_contra hlong
  have hlog := snapServe_long hreq (not_le.mp hlong)
  obtain ⟨before, pieces, first, eof, final, after, rfl, -, -, -, heof, -⟩ :=
    shape_of_complete hcomplete
  have hmem : eof ∈ greetings ++ snapServe (fun _ => true) req (.copied content) := by
    rw [← h.served]
    refine List.mem_filter.mpr ⟨by simp, ?_⟩
    rw [EstpFrame.isState, heof]
    rfl
  rcases List.mem_append.mp hmem with hmem | hmem
  · have hhello := h.hellos eof hmem
    rw [heof] at hhello
    cases hhello
  · have hmem := List.mem_map_of_mem (f := fun f => (EstpFrame.type f, EstpFrame.payload f)) hmem
    rw [show List.map (fun f => (EstpFrame.type f, EstpFrame.payload f)) _ = _ from hlog,
      List.mem_singleton, heof] at hmem
    cases (Prod.mk.inj hmem).1

variable (content) in
/-- **When a transfer survives the heartbeats**: the copy is within the bounds and no
heartbeat comes between the metadata and the final acknowledgement. -/
theorem completes_iff (hparse : ParsesAcks parse content.length) (hreq : AsksForShard req)
    (hc : c.Ready) (h : Interleaves req content frames greetings) (key : Option MeshKey)
    (d : CString → Option Bytes) :
    Completes parse c key d frames content ↔
      content.length ≤ snapMaxBytes ∧ ∀ f ∈ duringTransfer frames, f.isState = false := by
  constructor
  · rintro ⟨hok, -⟩
    rcases snapFetch_cases parse c (frames.map (smoothTurn key content.length)) with
      ⟨hfail, -⟩ | ⟨-, pieces, -, hcomplete, -⟩
    · rw [hfail] at hok
      cases hok
    · rw [map_frame_smoothTurn] at hcomplete
      exact ⟨short_of_complete hreq h hcomplete, quiet_of_complete hcomplete⟩
  · rintro ⟨hlen, hquiet⟩
    refine snapFetch_of_complete hc (fun t ht => ?_) ?_ d
    · obtain ⟨f, -, rfl⟩ := List.mem_map.mp ht
      exact smoothTurn_smooth key content.length f
    · rw [map_frame_smoothTurn]
      exact complete_of_quiet hlen hparse hreq h hquiet

end

/-! ## Three bytes and a heartbeat -/

/-- A heartbeat. -/
def stateFrame : EstpFrame := ⟨.state, cstr "\x7b\x7d", fits_braces⟩

/-- What is sent of a copy of three bytes. -/
def threeServed : List EstpFrame :=
  [⟨.snapAck, snapMeta 3, by decide⟩, ⟨.snapData, [1, 2, 3], by decide⟩,
    ⟨.snapData, [], by decide⟩, ⟨.snapAck, snapFinal true, by decide⟩]

theorem log_injective : Function.Injective EstpFrame.log := by
  refine List.map_injective_iff.mpr fun f g h => ?_
  obtain ⟨type, payload, _⟩ := f
  obtain ⟨rfl, rfl⟩ := Prod.mk.inj h
  rfl

theorem snapServe_three :
    snapServe (fun _ => true) threeRequest (.copied [1, 2, 3]) = threeServed := by
  refine log_injective ((snapServe_copied ⟨threeCall.key, rfl, by decide⟩ (by decide)).trans ?_)
  have hchunks : snapChunks [1, 2, 3] = [[1, 2, 3]] := by
    rw [snapChunks]
    rfl
  rw [servedLog, hchunks]
  rfl

/-- Heartbeats before and after the transfer. -/
def quietFrames : List EstpFrame := stateFrame :: helloFrame :: threeServed ++ [stateFrame]

/-- A heartbeat right after the metadata. -/
def busyFrames : List EstpFrame :=
  helloFrame :: threeServed.take 1 ++ stateFrame :: threeServed.drop 1

theorem quietFrames_interleave :
    Interleaves threeRequest [1, 2, 3] quietFrames [helloFrame] where
  hellos f hf := List.mem_singleton.mp hf ▸ rfl
  served := by
    rw [snapServe_three]
    rfl

/-- The bytes arrive between heartbeats. -/
theorem quietFrames_complete :
    Completes threeParse threeCall none (fun _ => none) quietFrames [1, 2, 3] := by
  refine (completes_iff [1, 2, 3] threeParse_acks ⟨threeCall.key, rfl, by decide⟩ threeCall_ready
    quietFrames_interleave none fun _ => none).mpr ⟨by decide, ?_⟩
  have hduring : duringTransfer quietFrames = (threeServed.drop 1).take 2 := rfl
  rw [hduring]
  decide

/-- **A heartbeat ends the transfer**, though the server sent everything. -/
theorem heartbeat_ends_transfer :
    Interleaves threeRequest [1, 2, 3] busyFrames [helloFrame] ∧
      ¬ Completes threeParse threeCall none (fun _ => none) busyFrames [1, 2, 3] := by
  constructor
  · refine ⟨fun f hf => List.mem_singleton.mp hf ▸ rfl, ?_⟩
    rw [snapServe_three]
    rfl
  · rintro ⟨hok, -⟩
    rcases snapFetch_cases threeParse threeCall (busyFrames.map (smoothTurn none 3)) with
      ⟨hfail, -⟩ | ⟨-, pieces, -, hcomplete, -⟩
    · exact absurd (hfail.symm.trans hok) Bool.false_ne_true
    · have hduring : duringTransfer busyFrames = stateFrame :: (threeServed.drop 1).take 2 := rfl
      rw [map_frame_smoothTurn] at hcomplete
      have hquiet := quiet_of_complete hcomplete stateFrame (hduring ▸ List.mem_cons_self)
      cases hquiet

end EpsilonDB
