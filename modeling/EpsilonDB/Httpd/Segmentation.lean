import EpsilonDB.Httpd.Reading

/-!
# Requests and the chunks they arrive in

Whether a connection gives the same requests and the same end however its bytes are cut.

- `Boundary`: where the requests of a stream begin, with a capacity carried from one to
  the next.
- `readStream`: the connection read from the stream alone.
- `connMain_eq_readStream`: when every head is unambiguous and every body fits, the worker
  does what `readStream` says, whatever the chunks are.
- `Filled`: reads that always fill the buffer. They leave it as small as it can be, so a
  body that does not fit is seen to be read through a stale pointer.
- `exists_serve_eq_readStream`, `exists_serve_undefined`: what some cut gives.
- `sameOutcome_iff_bodiesFit`: the main result.
-/

namespace EpsilonDB

open Chunked

/-! ## The stream alone -/

/-- From a stream and a capacity to a later request and the capacity then. -/
inductive Boundary (handler : HttpRequest → Bool) (after : Message → Nat → Nat) :
    Nat → Bytes → Nat → Bytes → Prop
  | here {cap : Nat} {s : Bytes} : Boundary handler after cap s cap s
  | next {cap cap' : Nat} {s s' : Bytes} {m : Message} (hm : firstMessage s = some m)
      (hkeep : keepAlive handler (m.request s) = true)
      (h : Boundary handler after (after m cap) (s.drop m.total) cap' s') :
      Boundary handler after cap s cap' s'

/-- At every request the head can be found in one way only. -/
def HeadsUnambiguous (handler : HttpRequest → Bool) (cap : Nat) (s : Bytes) : Prop :=
  ∀ cap' s', Boundary handler Message.capAfterMost cap s cap' s' → UnambiguousHead cap' s'

/-- Every body can be read without growing the buffer once more. -/
def BodiesFit (handler : HttpRequest → Bool) (cap : Nat) (s : Bytes) : Prop :=
  ∀ cap' s' m, Boundary handler Message.capAfterLeast cap s cap' s' →
    firstMessage s' = some m → m.BodyFits cap'

/-- The connection, read from the stream alone. -/
def readStream (handler : HttpRequest → Bool) : Nat → Bytes → Outcome
  | 0, _ => ⟨[], .closed⟩
  | fuel + 1, s =>
    match firstMessage s with
    | none => ⟨[], .closed⟩
    | some m =>
      if keepAlive handler (m.request s) then
        (readStream handler fuel (s.drop m.total)).cons (m.request s)
      else ⟨[m.request s], .closed⟩

theorem readStream_closed (handler : HttpRequest → Bool) (fuel : Nat) (s : Bytes) :
    (readStream handler fuel s).ending = .closed := by
  induction fuel generalizing s with
  | zero => rfl
  | succ fuel ih =>
    unfold readStream
    split
    · rfl
    · split
      · exact ih _
      · rfl

theorem Message.headLen_pos {s : Bytes} {m : Message} (h : firstMessage s = some m) :
    0 < m.headLen := by
  obtain ⟨hend, -⟩ := firstMessage_eq_some.mp h
  have hzero : findHead (s.take 0) = none := by rw [List.take_zero]; rfl
  exact findHead_take_eq_none.mp hzero _ hend

theorem HeadsUnambiguous.next {handler : HttpRequest → Bool} {cap : Nat} {s : Bytes} {m : Message}
    (h : HeadsUnambiguous handler cap s) (hm : firstMessage s = some m)
    (hkeep : keepAlive handler (m.request s) = true) :
    HeadsUnambiguous handler (m.capAfterMost cap) (s.drop m.total) :=
  fun cap' s' hb => h cap' s' (.next hm hkeep hb)

theorem BodiesFit.next {handler : HttpRequest → Bool} {cap : Nat} {s : Bytes} {m : Message}
    (h : BodiesFit handler cap s) (hm : firstMessage s = some m)
    (hkeep : keepAlive handler (m.request s) = true) :
    BodiesFit handler (m.capAfterLeast cap) (s.drop m.total) :=
  fun cap' s' m' hb => h cap' s' m' (.next hm hkeep hb)

/-- The capacities carried along are ones a buffer can have. -/
theorem Message.capAfterLeast_spec {s : Bytes} {m : Message} (hm : firstMessage s = some m)
    {cap : Nat} (hcap : ValidCap cap) :
    IsCap (m.capAfterLeast cap) ∧ cap ≤ m.capAfterLeast cap ∧ m.total + 1 ≤ m.capAfterLeast cap ∧
      ∀ c, IsCap c → cap ≤ c → m.total + 1 ≤ c → m.capAfterLeast cap ≤ c :=
  have hsize := Message.total_le hm
  reserveCap_spec hcap (Nat.succ_pos _) (by unfold minRoom at hsize; omega)

theorem Message.capAfterMost_isCap {s : Bytes} {m : Message} (hm : firstMessage s = some m)
    {cap : Nat} (hcap : ValidCap cap) : IsCap (m.capAfterMost cap) := by
  obtain ⟨-, hmax, -⟩ := firstMessage_eq_some.mp hm
  exact (Message.capAfterLeast_spec hm (.inr (le_capOfHead hcap hmax).2)).1

/-- What is left after a request. -/
theorem Reading.consume {s : Bytes} {rb : RecvBuf} {cs : List Bytes} (h : Reading s rb cs) {n : Nat}
    (hn : n ≤ rb.buf.length) : Reading (s.drop n) { rb with buf := rb.buf.drop n } cs where
  stream := by rw [← h.stream, List.drop_append_of_le_length hn]
  cap := h.cap
  held := by
    rw [List.length_drop]
    exact (Nat.sub_le _ _).trans h.held

/-- **The worker reads the stream.** -/
theorem connMain_eq_readStream (handler : HttpRequest → Bool) {fuel lo cap : Nat} {s : Bytes}
    {rb : RecvBuf} {cs : List Bytes} (hlo : ValidCap lo) (hcap : ValidCap cap)
    (hr : Reading s rb cs) (hge : lo ≤ rb.cap) (hle : rb.cap ≤ cap)
    (hheads : HeadsUnambiguous handler cap s) (hbodies : BodiesFit handler lo s) :
    connMain handler fuel rb cs = readStream handler fuel s := by
  induction fuel generalizing lo cap s rb cs with
  | zero => rfl
  | succ fuel ih =>
    have hs := hheads cap s .here
    rw [connMain, readStream]
    cases hm : firstMessage s with
    | none => rw [hr.parseRequestFull_none hcap hs hm hle]
    | some m =>
      obtain ⟨p, hparse, hreq, hcons, hr', hlen, hfit⟩ := hr.parseRequestFull hcap hs hm hle
      obtain ⟨hblock, hge', hle'⟩ := hfit lo hlo hge (hbodies lo s m .here hm)
      simp only [hparse, hblock, ne_eq, not_true_eq_false, if_false, hreq, hcons]
      split
      · rename_i hkeep
        rw [ih (.inr (Message.capAfterLeast_spec hm hlo).1)
          (.inr (Message.capAfterMost_isCap hm hcap)) (hr'.consume hlen) hge' hle'
          (hheads.next hm hkeep) (hbodies.next hm hkeep)]
      · rfl

/-! ## Reads that fill the buffer -/

/-- The chunk `t` is read up to the end of the buffer, or to its own end; `rest` comes
after it. -/
def Filled (t : Bytes) (rest : List Bytes) (rb : RecvBuf) (cs : List Bytes) : Prop :=
  (rb.buf = t ∧ cs = rest) ∨
    ∃ k, rb.buf = t.take k ∧ cs = t.drop k :: rest ∧ k < t.length ∧ (k = 0 ∨ k = rb.cap)

/-- Room for a read in a capacity that is more than what is full. -/
theorem IsCap.add_minRoom_le {cap old k : Nat} (hcap : IsCap cap) (hold : ValidCap old)
    (hk : k < cap) (hfull : k = 0 ∨ k = old) : k + minRoom ≤ cap := by
  have hpos := hcap.pos
  have hroom : minRoom ≤ firstCap := by decide
  rcases hfull with rfl | rfl
  · omega
  · rcases hold with h0 | hold
    · omega
    · have hdouble := hold.double_le hcap hk
      have holdPos := hold.pos
      omega

/-- **A read of a chunk** fills the buffer or takes the chunk to its end, and does not grow
the buffer beyond a capacity that is enough for the chunk. -/
theorem Filled.recvAppend {t : Bytes} {rest cs cs' : List Bytes} {rb rb' : RecvBuf} {cap : Nat}
    (h : Filled t rest rb cs) (hcap : IsCap cap) (htcap : t.length ≤ cap)
    (hsize : cap + minRoom ≤ sizeBound) (hvalid : ValidCap rb.cap)
    (hheld : rb.buf.length ≤ rb.cap) (hle : rb.cap ≤ cap) (hlt : rb.buf.length < t.length)
    (happend : recvAppend rb cs = some (rb', cs')) : Filled t rest rb' cs' ∧ rb'.cap ≤ cap := by
  rcases h with ⟨rfl, -⟩ | ⟨k, hbuf, rfl, hk, hfull⟩
  · omega
  have hlen : rb.buf.length = k := by rw [hbuf, List.length_take]; omega
  -- whatever is missing fits beside the room that a read leaves
  have hneed : k + minRoom ≤ cap := hcap.add_minRoom_le hvalid (by omega) hfull
  rw [recvAppend_eq hvalid hheld (by omega), hlen] at happend
  obtain ⟨-, -, hgrown, hleast⟩ :=
    reserveCap_spec hvalid (show 0 < k + minRoom by unfold minRoom; omega) (by omega)
  have hcapLe := hleast cap hcap hle hneed
  obtain ⟨r, hrecv, happend⟩ := Option.map_eq_some_iff.mp happend
  obtain ⟨rfl, rfl⟩ := Prod.mk.inj happend
  have hdropNe : t.drop k ≠ [] := by
    rw [Ne, List.drop_eq_nil_iff]
    omega
  rw [recv_cons hdropNe] at hrecv
  refine ⟨?_, hcapLe⟩
  split at hrecv
  · -- the rest of the chunk fits in the room
    obtain rfl := Option.some.inj hrecv
    exact .inl ⟨by rw [hbuf, List.take_append_drop], rfl⟩
  · -- the room is filled, and what is left of the chunk stays on the wire
    rename_i hroom
    obtain rfl := Option.some.inj hrecv
    rw [List.length_drop] at hroom
    refine .inr ⟨reserveCap rb.cap (k + minRoom), ?_, ?_, by omega, .inr rfl⟩
    · show rb.buf ++ (t.drop k).take _ = _
      rw [hbuf, ← List.take_add]
      congr 1
      omega
    · show (t.drop k).drop _ :: rest = _
      rw [List.drop_drop]
      congr 2
      omega

theorem headLoop_invariant {I : RecvBuf → List Bytes → Prop}
    (hstep : ∀ rb cs rb' cs', I rb cs → findHead rb.buf = none →
      recvAppend rb cs = some (rb', cs') → I rb' cs')
    {fuel total n : Nat} {rb rb' : RecvBuf} {cs cs' : List Bytes}
    (h : headLoop fuel total rb cs = some (n, rb', cs')) (hI : I rb cs) : I rb' cs' := by
  induction fuel generalizing total rb cs with
  | zero => cases h
  | succ fuel ih =>
    unfold headLoop at h
    split at h
    · obtain ⟨rfl, rfl, rfl⟩ := h
      exact hI
    · rename_i hnone
      split at h
      · cases h
      · obtain ⟨⟨rb₁, cs₁⟩, happend, h⟩ := Option.bind_eq_some_iff.mp h
        exact ih h (hstep rb cs rb₁ cs₁ hI hnone happend)

theorem bodyLoop_of_le {need fuel : Nat} {rb : RecvBuf} {cs : List Bytes}
    {r : RecvBuf × List Bytes} (hle : need ≤ rb.buf.length)
    (h : bodyLoop need fuel rb cs = some r) : r = (rb, cs) := by
  cases fuel with
  | zero => cases h
  | succ fuel =>
    rw [bodyLoop, if_pos hle] at h
    exact (Option.some.inj h).symm

theorem bodyLoop_of_lt {need fuel : Nat} {rb : RecvBuf} {cs : List Bytes}
    {r x : RecvBuf × List Bytes} (hlt : rb.buf.length < need) (happend : recvAppend rb cs = some x)
    (h : bodyLoop need fuel rb cs = some r) : ∃ fuel', bodyLoop need fuel' x.1 x.2 = some r := by
  cases fuel with
  | zero => cases h
  | succ fuel =>
    rw [bodyLoop, if_neg (not_le.mpr hlt), happend] at h
    exact ⟨fuel, h⟩

/-- No request makes the buffer larger than this. -/
def maxCap : Nat := 2 ^ 25

theorem isCap_maxCap : IsCap maxCap := ⟨12, by decide⟩

theorem Message.capAfterLeast_le {s : Bytes} {m : Message} (hm : firstMessage s = some m)
    {cap : Nat} (hcap : ValidCap cap) (hle : cap ≤ maxCap) : m.capAfterLeast cap ≤ maxCap := by
  obtain ⟨-, hmax, hparse, -⟩ := firstMessage_eq_some.mp hm
  have hbody := parseHead_bodyLen_le hparse
  refine (Message.capAfterLeast_spec hm hcap).2.2.2 _ isCap_maxCap hle ?_
  calc m.headLen + m.head.bodyLen + 1 ≤ maxHeaderBytes + maxBodyBytes + 1 := by omega
    _ ≤ maxCap := by decide

/-- The buffer at a request, with nothing left over from the one before. -/
structure Fresh (rb : RecvBuf) : Prop where
  buf : rb.buf = []
  cap : ValidCap rb.cap
  le : rb.cap ≤ maxCap

section Chunk

variable {s : Bytes} {m : Message} (hm : firstMessage s = some m) {N : Nat}
  (hhead : m.headLen ≤ N) (htotal : N ≤ m.total) {rest : List Bytes}
  (hrest : s.take N ++ rest.flatten = s)

include hm hhead htotal hrest

/-- After the head of a request whose first `N` bytes are one chunk, the buffer is reserved
for the body and is as small as it can be. -/
theorem filled_of_headLoop {rb rb₁ rb₂ : RecvBuf} {cs₁ : List Bytes} {fuel n : Nat}
    (hfresh : Fresh rb) (hloop : headLoop fuel 0 rb (s.take N :: rest) = some (n, rb₁, cs₁))
    (hreserve : recvReserve rb₁ (m.total + 1) = some rb₂) :
    Filled (s.take N) rest rb₁ cs₁ ∧ Reading s rb₁ cs₁ ∧ rb₁.cap ≤ m.capAfterLeast rb.cap ∧
      rb₂.buf = rb₁.buf ∧ rb₂.cap = m.capAfterLeast rb.cap := by
  obtain ⟨hend, -, -, hlen⟩ := firstMessage_eq_some.mp hm
  obtain ⟨hC, hgeC, htotalC, hleastC⟩ := Message.capAfterLeast_spec hm hfresh.cap
  have hheadPos := Message.headLen_pos hm
  have hsize : m.capAfterLeast rb.cap + minRoom ≤ sizeBound :=
    (Nat.add_le_add_right (Message.capAfterLeast_le hm hfresh.cap hfresh.le) minRoom).trans
      (by decide)
  have htlen : (s.take N).length = N := by rw [List.length_take]; omega
  have hstart : Filled (s.take N) rest rb (s.take N :: rest) := by
    refine .inr ⟨0, hfresh.buf, rfl, ?_, .inl rfl⟩
    rw [htlen]
    omega
  have hreading : Reading s rb (s.take N :: rest) := by
    refine ⟨?_, hfresh.cap, ?_⟩
    · rw [hfresh.buf]
      exact hrest
    · rw [hfresh.buf]
      exact Nat.zero_le _
  -- the reads before the head is complete keep all of this
  obtain ⟨hfilled, hr₁, hle₁, hge₁⟩ := headLoop_invariant
    (I := fun rb' cs' => Filled (s.take N) rest rb' cs' ∧ Reading s rb' cs' ∧
      rb'.cap ≤ m.capAfterLeast rb.cap ∧ rb.cap ≤ rb'.cap)
    (fun rb' cs' rb'' cs'' ⟨hf, hr, hle, hge⟩ hnone happend => by
      rw [hr.buf_eq, findHead_take_eq_none] at hnone
      have hshort := hnone _ hend
      have hheld := hr.held
      obtain ⟨hf', hle'⟩ := hf.recvAppend hC (by omega) hsize hr.cap hr.held hle (by omega) happend
      obtain ⟨_, _, happend', hr', -, hcap', -⟩ := hr.recvAppend (by omega) (by omega)
      obtain ⟨rfl, rfl⟩ := Prod.mk.inj (Option.some.inj (happend'.symm.trans happend))
      refine ⟨hf', hr', hle', hge.trans ?_⟩
      rw [hcap']
      exact (reserveCap_spec hr.cap (by unfold minRoom; omega) (by omega)).2.1)
    hloop ⟨hstart, hreading, hgeC, le_rfl⟩
  rw [recvReserve_eq hr₁.cap (by omega)] at hreserve
  obtain rfl := Option.some.inj hreserve
  obtain ⟨-, -, -, hleast₁⟩ := Message.capAfterLeast_spec hm hr₁.cap
  refine ⟨hfilled, hr₁, hle₁, rfl, le_antisymm (hleast₁ _ hC hle₁ htotalC) ?_⟩
  exact reserveCap_mono hfresh.cap hr₁.cap (Nat.succ_pos _) (by omega) hge₁ le_rfl

omit hhead in
/-- What is left of the chunk is read at once. -/
theorem bodyLoop_of_filled {rb₁ rb₂ : RecvBuf} {cs₁ : List Bytes} {cap fuel : Nat}
    {r : RecvBuf × List Bytes} (hcap : ValidCap cap) (hle : cap ≤ maxCap)
    (hfilled : Filled (s.take N) rest rb₁ cs₁) (hr₁ : Reading s rb₁ cs₁)
    (hbuf₂ : rb₂.buf = rb₁.buf)
    (hcap₂ : rb₂.cap = m.capAfterLeast cap) (hbody : bodyLoop m.total fuel rb₂ cs₁ = some r) :
    ∃ fuel', bodyLoop m.total fuel' { rb₂ with buf := s.take N } rest = some r := by
  obtain ⟨hC, -, htotalC, -⟩ := Message.capAfterLeast_spec hm hcap
  have hsize : m.capAfterLeast cap + minRoom ≤ sizeBound :=
    (Nat.add_le_add_right (Message.capAfterLeast_le hm hcap hle) minRoom).trans (by decide)
  have htlen : (s.take N).length ≤ N := List.length_take_le N s
  rcases hfilled with ⟨hbuf, rfl⟩ | ⟨k, hbuf, rfl, hk, hfull⟩
  · rw [← hbuf, ← hbuf₂]
    exact ⟨fuel, hbody⟩
  · rw [hbuf] at hbuf₂
    have hlen : rb₂.buf.length = k := by rw [hbuf₂, List.length_take]; omega
    have hneed : k + minRoom ≤ rb₂.cap := by
      rw [hcap₂]
      exact hC.add_minRoom_le hr₁.cap (by omega) hfull
    have happend : recvAppend rb₂ ((s.take N).drop k :: rest) =
        some ({ rb₂ with buf := s.take N }, rest) := by
      rw [recvAppend_eq (.inr (hcap₂ ▸ hC)) (by omega) (by omega), hlen, reserveCap_of_le hneed,
        if_pos hneed, recv_cons, if_pos, Option.map_some, hbuf₂, List.take_append_drop]
      · rw [List.length_drop]
        omega
      · rw [Ne, List.drop_eq_nil_iff]
        omega
    exact bodyLoop_of_lt (by omega) happend hbody

/-- **The parse of such a request** continues after the chunk with a buffer that holds
exactly the chunk. -/
theorem parseRequestFull_of_chunk {cap : Nat} (hcap : ValidCap cap) (hs : UnambiguousHead cap s)
    {rb : RecvBuf} (hfresh : Fresh rb) (hle : rb.cap ≤ cap) :
    ∃ p rb₂ fuel, parseRequestFull rb (s.take N :: rest) = some p ∧ p.request = m.request s ∧
      p.consumed = m.total ∧ p.headerBlock = rb₂.block ∧ rb₂.buf = s.take N ∧
      rb₂.cap = m.capAfterLeast rb.cap ∧
      bodyLoop m.total fuel rb₂ rest = some (p.rb, p.cs) := by
  have hr : Reading s rb (s.take N :: rest) :=
    ⟨by rw [hfresh.buf]; exact hrest, hfresh.cap, by rw [hfresh.buf]; exact Nat.zero_le _⟩
  obtain ⟨p, hparse, hreq, hcons, -⟩ := hr.parseRequestFull hcap hs hm hle
  obtain ⟨n, rb₁, cs₁, head, rb₂, rb₃, cs₃, hloop, -, -, hreserve, hbody, rfl⟩ :=
    parseRequestFull_eq_some.mp hparse
  have htotal' : n + head.bodyLen = m.total := hcons
  rw [htotal'] at hreserve hbody
  obtain ⟨hfilled, hr₁, -, hbuf₂, hcap₂⟩ :=
    filled_of_headLoop hm hhead htotal hrest hfresh hloop hreserve
  obtain ⟨fuel', hbody'⟩ := bodyLoop_of_filled hm htotal hrest hfresh.cap hfresh.le hfilled
    hr₁ hbuf₂ hcap₂ hbody
  exact ⟨_, { rb₂ with buf := s.take N }, fuel', hparse, hreq, hcons, rfl, rfl, hcap₂, hbody'⟩

end Chunk

/-- A request that arrives as one chunk leaves nothing behind. -/
theorem parseRequestFull_whole {s : Bytes} {m : Message} (hm : firstMessage s = some m)
    {cs : List Bytes} (hcs : cs.flatten = s.drop m.total) {cap : Nat} (hcap : ValidCap cap)
    (hs : UnambiguousHead cap s) {rb : RecvBuf} (hfresh : Fresh rb) (hle : rb.cap ≤ cap) :
    ∃ p, parseRequestFull rb (s.take m.total :: cs) = some p ∧ p.request = m.request s ∧
      p.consumed = m.total ∧ p.headerBlock = p.rb.block ∧ p.rb.buf = s.take m.total ∧
      p.rb.cap = m.capAfterLeast rb.cap ∧ p.cs = cs := by
  obtain ⟨-, -, -, hlen⟩ := firstMessage_eq_some.mp hm
  obtain ⟨p, rb₂, fuel, hparse, hreq, hcons, hblock, hbuf₂, hcap₂, hbody⟩ :=
    parseRequestFull_of_chunk hm (show m.headLen ≤ m.total from Nat.le_add_right _ _) le_rfl
      (by rw [hcs, List.take_append_drop]) hcap hs hfresh hle
  obtain ⟨hrb, hcs'⟩ := Prod.mk.inj <| bodyLoop_of_le
    (by rw [hbuf₂, List.length_take]; omega) hbody
  exact ⟨p, hparse, hreq, hcons, by rw [hblock, hrb], by rw [hrb, hbuf₂], by rw [hrb, hcap₂], hcs'⟩

/-- **A body that does not fit**, all but its last byte in one chunk, is read with the
header pointers left in the old block. -/
theorem parseRequestFull_stale {s : Bytes} {m : Message} (hm : firstMessage s = some m)
    {cap : Nat} (hcap : ValidCap cap) (hs : UnambiguousHead cap s) {rb : RecvBuf}
    (hfresh : Fresh rb) (hle : rb.cap ≤ cap) (hfits : ¬ m.BodyFits rb.cap) :
    ∃ p, parseRequestFull rb [s.take (m.total - 1), s.drop (m.total - 1)] = some p ∧
      p.headerBlock ≠ p.rb.block := by
  obtain ⟨-, -, -, hlen⟩ := firstMessage_eq_some.mp hm
  obtain ⟨hC, -, htotalC, -⟩ := Message.capAfterLeast_spec hm hfresh.cap
  have hmaxCap := Message.capAfterLeast_le hm hfresh.cap hfresh.le
  unfold Message.BodyFits at hfits
  have hheadLe : m.headLen ≤ m.total - 1 := by unfold Message.total; omega
  have htotalPos : 0 < m.total := by unfold Message.total; omega
  have hflat : s.take (m.total - 1) ++ [s.drop (m.total - 1)].flatten = s := by
    rw [List.flatten_cons, List.flatten_nil, List.append_nil, List.take_append_drop]
  obtain ⟨p, rb₂, fuel, hparse, -, -, hblock, hbuf₂, hcap₂, hbody⟩ :=
    parseRequestFull_of_chunk hm hheadLe (Nat.sub_le _ _) hflat hcap hs hfresh hle
  have hlen₂ : rb₂.buf.length = m.total - 1 := by rw [hbuf₂, List.length_take]; omega
  have hr₂ : Reading s rb₂ [s.drop (m.total - 1)] :=
    ⟨by rw [hbuf₂]; exact hflat, .inr (hcap₂ ▸ hC), by omega⟩
  have hsize : rb₂.buf.length + minRoom ≤ sizeBound := by
    rw [hlen₂]
    have : maxCap + minRoom ≤ sizeBound := by decide
    omega
  -- the last byte is read after one more reservation, which moves the buffer
  obtain ⟨rb₃, cs₃, happend, -, hlt, -, hblock₃⟩ := hr₂.recvAppend (by omega) hsize
  obtain ⟨fuel', hbody'⟩ := bodyLoop_of_lt (by omega) happend hbody
  obtain ⟨hrb, -⟩ := Prod.mk.inj (bodyLoop_of_le (show m.total ≤ rb₃.buf.length by omega) hbody')
  refine ⟨p, hparse, ?_⟩
  rw [hblock, hrb, hblock₃, if_neg (by omega)]
  omega

/-! ## Whole connections -/

/-- The buffer after a request that arrived as one chunk. -/
theorem Fresh.next {s : Bytes} {m : Message} (hm : firstMessage s = some m) {rb : RecvBuf}
    (hfresh : Fresh rb) {p : ParsedRequest} (hcons : p.consumed = m.total)
    (hbuf : p.rb.buf = s.take m.total) (hcap : p.rb.cap = m.capAfterLeast rb.cap) :
    Fresh { p.rb with buf := p.rb.buf.drop p.consumed } where
  buf := by
    show p.rb.buf.drop p.consumed = []
    rw [hbuf, hcons, List.drop_eq_nil_iff]
    exact List.length_take_le _ _
  cap := by
    show ValidCap p.rb.cap
    rw [hcap]
    exact .inr (Message.capAfterLeast_spec hm hfresh.cap).1
  le := by
    show p.rb.cap ≤ maxCap
    rw [hcap]
    exact Message.capAfterLeast_le hm hfresh.cap hfresh.le

theorem Message.capAfterLeast_le_capAfterMost {s : Bytes} {m : Message}
    (hm : firstMessage s = some m) {lo cap : Nat} (hlo : ValidCap lo) (hcap : ValidCap cap)
    (hle : lo ≤ cap) : m.capAfterLeast lo ≤ m.capAfterMost cap := by
  obtain ⟨-, hmax, -⟩ := firstMessage_eq_some.mp hm
  obtain ⟨hge, hcap'⟩ := le_capOfHead hcap hmax
  have hsize := Message.total_le hm
  exact reserveCap_mono hlo (.inr hcap') (Nat.succ_pos _) (by unfold minRoom at hsize; omega)
    (hle.trans hge) le_rfl

/-- Some way to cut the stream gives such an outcome, from an empty buffer of that
capacity. -/
def CanGive (handler : HttpRequest → Bool) (P : Outcome → Prop) (fuel cap : Nat) (s : Bytes) :
    Prop :=
  ∃ cs, cs.flatten = s ∧ ∀ rb, Fresh rb → rb.cap = cap → P (connMain handler fuel rb cs)

section Whole

variable {handler : HttpRequest → Bool} {lo cap : Nat} (hlo : ValidCap lo) (hcap : ValidCap cap)
  (hle : lo ≤ cap) {s : Bytes} (hheads : HeadsUnambiguous handler cap s)

include hcap hle hheads

/-- One more request, as one chunk before the others. -/
theorem CanGive.cons {m : Message} (hm : firstMessage s = some m)
    (hkeep : keepAlive handler (m.request s) = true) {P Q : Outcome → Prop} {fuel : Nat}
    (hPQ : ∀ o, Q o → P (o.cons (m.request s)))
    (h : CanGive handler Q fuel (m.capAfterLeast lo) (s.drop m.total)) :
    CanGive handler P (fuel + 1) lo s := by
  obtain ⟨cs, hcs, hend⟩ := h
  refine ⟨s.take m.total :: cs, by rw [List.flatten_cons, hcs, List.take_append_drop], ?_⟩
  rintro rb hfresh rfl
  obtain ⟨p, hparse, hreq, hcons, hblock, hbuf, hcapNext, rfl⟩ :=
    parseRequestFull_whole hm hcs hcap (hheads cap s .here) hfresh hle
  rw [connMain, hparse]
  simp only [hblock, ne_eq, not_true_eq_false, if_false, hreq, hkeep, if_true]
  exact hPQ _ (hend _ (hfresh.next hm hcons hbuf hcapNext) hcapNext)

/-- Some way to cut the stream gives what the stream alone gives. -/
theorem canGive_readStream (hlo : ValidCap lo) (hmax : lo ≤ maxCap) (fuel : Nat) :
    CanGive handler (· = readStream handler fuel s) fuel lo s := by
  induction fuel generalizing lo cap s with
  | zero => exact ⟨[s], by simp, fun _ _ _ => rfl⟩
  | succ fuel ih =>
    have hs := hheads cap s .here
    cases hm : firstMessage s with
    | none =>
      refine ⟨[s], by simp, ?_⟩
      rintro rb hfresh rfl
      have hr : Reading s rb [s] :=
        ⟨by simp [hfresh.buf], hfresh.cap, by rw [hfresh.buf]; exact Nat.zero_le _⟩
      rw [connMain, hr.parseRequestFull_none hcap hs hm hle, readStream, hm]
    | some m =>
      by_cases hkeep : keepAlive handler (m.request s) = true
      · refine CanGive.cons hcap hle hheads hm hkeep (fun o ho => ?_)
          (ih (.inr (Message.capAfterMost_isCap hm hcap))
            (Message.capAfterLeast_le_capAfterMost hm hlo hcap hle) (hheads.next hm hkeep)
            (.inr (Message.capAfterLeast_spec hm hlo).1) (Message.capAfterLeast_le hm hlo hmax))
        simp only [ho, readStream, hm, hkeep, if_true]
      · refine ⟨[s.take m.total, s.drop m.total], by simp, ?_⟩
        rintro rb hfresh rfl
        obtain ⟨p, hparse, hreq, -, hblock, -⟩ := parseRequestFull_whole hm
          (show [s.drop m.total].flatten = s.drop m.total by simp) hcap hs hfresh hle
        simp only [connMain, readStream, hparse, hm, hblock, ne_eq, not_true_eq_false, if_false,
          hreq, hkeep, Bool.false_eq_true]

/-- A body that does not fit lets a connection end with a stale pointer. -/
theorem canGive_undefined (hlo : ValidCap lo) (hmax : lo ≤ maxCap) {lo' : Nat} {s' : Bytes}
    {m' : Message} (hb : Boundary handler Message.capAfterLeast lo s lo' s')
    (hm' : firstMessage s' = some m') (hfits : ¬ m'.BodyFits lo') {fuel : Nat}
    (hfuel : s.length < fuel) : CanGive handler (·.ending = .undefined) fuel lo s := by
  induction hb generalizing cap fuel with
  | here =>
    rename_i lo s
    obtain ⟨fuel, rfl⟩ := Nat.exists_eq_succ_of_ne_zero (Nat.ne_of_gt (Nat.zero_lt_of_lt hfuel))
    refine ⟨[s.take (m'.total - 1), s.drop (m'.total - 1)], by simp, ?_⟩
    rintro rb hfresh rfl
    obtain ⟨p, hparse, hblock⟩ :=
      parseRequestFull_stale hm' hcap (hheads cap s .here) hfresh hle hfits
    rw [connMain, hparse]
    simp only [hblock, ne_eq, not_false_eq_true, if_true]
  | next hm hkeep _ ih =>
    rename_i lo _ s _ m
    obtain ⟨fuel, rfl⟩ := Nat.exists_eq_succ_of_ne_zero (Nat.ne_of_gt (Nat.zero_lt_of_lt hfuel))
    have hpos := Message.headLen_pos hm
    obtain ⟨-, -, -, hlen⟩ := firstMessage_eq_some.mp hm
    refine CanGive.cons hcap hle hheads hm hkeep (fun o ho => ho)
      (ih (.inr (Message.capAfterMost_isCap hm hcap))
        (Message.capAfterLeast_le_capAfterMost hm hlo hcap hle) (hheads.next hm hkeep)
        (.inr (Message.capAfterLeast_spec hm hlo).1) (Message.capAfterLeast_le hm hlo hmax) hm' hfits
        ?_)
    rw [List.length_drop]
    unfold Message.total at hlen ⊢
    omega

end Whole

/-! ## The result -/

/-- Every two ways to cut the stream give the same requests and the same end. -/
def SameOutcome (handler : HttpRequest → Bool) (s : Bytes) : Prop :=
  ∀ cs cs' : List Bytes, cs.flatten = s → cs'.flatten = s → serve handler cs = serve handler cs'

theorem reading_start (cs : List Bytes) : Reading cs.flatten {} cs :=
  ⟨rfl, .inl rfl, le_rfl⟩

theorem serve_eq_readStream {handler : HttpRequest → Bool} {s : Bytes}
    (hheads : HeadsUnambiguous handler 0 s) (hbodies : BodiesFit handler 0 s) {cs : List Bytes}
    (hcs : cs.flatten = s) : serve handler cs = readStream handler (s.length + 1) s := by
  subst hcs
  exact connMain_eq_readStream handler (.inl rfl) (.inl rfl) (reading_start cs) le_rfl le_rfl
    hheads hbodies

theorem exists_serve_eq_readStream {handler : HttpRequest → Bool} {s : Bytes}
    (hheads : HeadsUnambiguous handler 0 s) :
    ∃ cs : List Bytes, cs.flatten = s ∧
      serve handler cs = readStream handler (s.length + 1) s := by
  obtain ⟨cs, rfl, hend⟩ :=
    canGive_readStream (.inl rfl) le_rfl hheads (.inl rfl) (Nat.zero_le _) (s.length + 1)
  exact ⟨cs, rfl, hend {} ⟨rfl, .inl rfl, Nat.zero_le _⟩ rfl⟩

theorem exists_serve_undefined {handler : HttpRequest → Bool} {s : Bytes}
    (hheads : HeadsUnambiguous handler 0 s) (hbodies : ¬ BodiesFit handler 0 s) :
    ∃ cs : List Bytes, cs.flatten = s ∧ (serve handler cs).ending = .undefined := by
  unfold BodiesFit at hbodies
  push Not at hbodies
  obtain ⟨lo', s', m, hb, hm, hfits⟩ := hbodies
  obtain ⟨cs, rfl, hend⟩ := canGive_undefined (.inl rfl) le_rfl hheads (.inl rfl)
    (Nat.zero_le _) hb hm hfits (Nat.lt_succ_self _)
  exact ⟨cs, rfl, hend {} ⟨rfl, .inl rfl, Nat.zero_le _⟩ rfl⟩

theorem bufFind_drop_eq_none {needle s : Bytes} (h : bufFind needle s = none) (n : Nat) :
    bufFind needle (s.drop n) = none := by
  induction n generalizing s with
  | zero => exact h
  | succ n ih =>
    cases s with
    | nil => exact h
    | cons c s =>
      rw [bufFind] at h
      split at h
      · cases h
      · exact ih (Option.map_eq_none_iff.mp h)

/-- A stream without `LF LF` is not ambiguous. -/
theorem headsUnambiguous_of_no_lfLf (handler : HttpRequest → Bool) {cap : Nat} {s : Bytes}
    (h : bufFind lfLf s = none) : HeadsUnambiguous handler cap s := by
  intro cap' s' hb
  induction hb with
  | here =>
    intro e c he
    rw [endOf, h] at he
    cases he
  | next hm hkeep _ ih => exact ih (bufFind_drop_eq_none h _)

/-- **A connection without ambiguous heads** is the same however its bytes are cut, exactly
when every body fits. -/
theorem sameOutcome_iff_bodiesFit (handler : HttpRequest → Bool) (s : Bytes)
    (hheads : HeadsUnambiguous handler 0 s) :
    SameOutcome handler s ↔ BodiesFit handler 0 s := by
  constructor
  · intro hsame
    by_contra hbodies
    obtain ⟨cs, hcs, hread⟩ := exists_serve_eq_readStream hheads
    obtain ⟨cs', hcs', hundefined⟩ := exists_serve_undefined hheads hbodies
    rw [← hsame cs cs' hcs hcs', hread, readStream_closed] at hundefined
    cases hundefined
  · intro hbodies cs cs' hcs hcs'
    rw [serve_eq_readStream hheads hbodies hcs, serve_eq_readStream hheads hbodies hcs']

/-- A request with a body, and one behind it. -/
def postAndGet : Bytes :=
  cstr "POST /a X\r\nContent-Length: 3\r\n\r\nbod" ++ cstr "GET /b X\r\n\r\n"

theorem bodiesFit_postAndGet : BodiesFit (fun _ => true) 0 postAndGet := by
  intro cap' s' m hb hm
  have hfits : ∀ m ∈ firstMessage postAndGet, m.BodyFits 0 ∧
      ∀ m' ∈ firstMessage (postAndGet.drop m.total), m'.head.bodyLen = 0 ∧
        firstMessage ((postAndGet.drop m.total).drop m'.total) = none := by
    unfold Message.BodyFits
    decide +kernel
  cases hb with
  | here => exact (hfits m hm).1
  | next hm₁ _ hb =>
    obtain ⟨-, hsecond⟩ := hfits _ hm₁
    cases hb with
    | here => exact .inl (hsecond m hm).1
    | next hm₂ _ hb =>
      -- behind the second request there is nothing
      have hnone := (hsecond _ hm₂).2
      cases hb with
      | here => cases hnone.symm.trans hm
      | next hm₃ => cases hnone.symm.trans hm₃

theorem sameOutcome_postAndGet : SameOutcome (fun _ => true) postAndGet :=
  (sameOutcome_iff_bodiesFit _ _ (headsUnambiguous_of_no_lfLf _ (by decide +kernel))).mpr
    bodiesFit_postAndGet

/-- A head that ends with `LF LF`, and a second request behind it. -/
def twoHeads : Bytes := cstr "GET /a X\n\nGET /b X\r\n\r\n"

/-- In one chunk they are one request, in two chunks they are two. -/
theorem not_sameOutcome_twoHeads : ¬ SameOutcome (fun _ => true) twoHeads := by
  intro h
  have hcut : [twoHeads.take 10, twoHeads.drop 10].flatten = twoHeads := by simp
  have hsame := h [twoHeads] _ (by simp) hcut
  revert hsame
  decide +kernel

end EpsilonDB
