import EpsilonDB.Httpd.Http

/-!
# Reading one request

What the loops of `parse_request_full` do, said once for a stream `s` that is partly in
the buffer and partly still to come. Capacities are `firstCap` doubled a number of times, a
reservation is the least of them that is enough, and so reservations are monotone.

- `Reading s rb cs`: buffer and chunks hold the stream `s`.
- `endOf`, `headEnd`: where a terminator ends in the stream, and which ends first.
- `UnambiguousHead`: no `CR LF CR LF` further on can be in the buffer when the head is
  noticed. Without it the same bytes are read in two ways.
- `firstMessage`: the request at the front of a stream, read from the stream alone.
- `Reading.parseRequestFull_none`, `Reading.parseRequestFull`: the parser finds exactly
  that, and `Message.BodyFits` keeps its header pointers good.
-/

namespace EpsilonDB

open Chunked

/-! ## Capacities -/

def IsCap (c : Nat) : Prop := ∃ j, c = firstCap * 2 ^ j

def ValidCap (c : Nat) : Prop := c = 0 ∨ IsCap c

theorem IsCap.pos {c : Nat} (h : IsCap c) : firstCap ≤ c := by
  obtain ⟨j, rfl⟩ := h
  exact Nat.le_mul_of_pos_right _ (Nat.two_pow_pos j)

theorem isCap_firstCap : IsCap firstCap := ⟨0, rfl⟩

theorem IsCap.double {c : Nat} (h : IsCap c) : IsCap (c * 2) := by
  obtain ⟨j, rfl⟩ := h
  exact ⟨j + 1, by rw [Nat.pow_succ, Nat.mul_assoc]⟩

/-- The next capacity is the double. -/
theorem IsCap.double_le {a b : Nat} (ha : IsCap a) (hb : IsCap b) (h : a < b) : a * 2 ≤ b := by
  obtain ⟨i, rfl⟩ := ha
  obtain ⟨j, rfl⟩ := hb
  have hij : i < j := (Nat.pow_lt_pow_iff_right (by decide)).mp (Nat.lt_of_mul_lt_mul_left h)
  rw [Nat.mul_assoc, ← Nat.pow_succ]
  exact Nat.mul_le_mul_left _ (Nat.pow_le_pow_right (by decide) hij)

/-- No size of a request comes near this bound. -/
def sizeBound : Nat := 2 ^ 60

/-- **The doubling loop** ends with the least capacity that is enough. -/
theorem growCap_spec {need : Nat} (hneed : need ≤ sizeBound) (fuel : Nat) {newcap : Nat}
    (hcap : IsCap newcap) (hfuel : need ≤ newcap * 2 ^ fuel) :
    ∃ c, growCap (fuel + 1) need newcap = some c ∧ IsCap c ∧ newcap ≤ c ∧ need ≤ c ∧
      ∀ c', IsCap c' → newcap ≤ c' → need ≤ c' → c ≤ c' := by
  induction fuel generalizing newcap with
  | zero =>
    rw [Nat.pow_zero, Nat.mul_one] at hfuel
    exact ⟨newcap, if_neg (not_lt.mpr hfuel), hcap, le_rfl, hfuel, fun c' _ h _ => h⟩
  | succ fuel ih =>
    rw [growCap]
    by_cases hlt : newcap < need
    · have hsize : ¬ sizeMax / 2 < newcap := by
        have hbound : sizeBound ≤ sizeMax / 2 := by decide
        omega
      rw [if_pos hlt, if_neg hsize]
      obtain ⟨c, hgrow, hc, hle, hneed, hleast⟩ := ih hcap.double
        (by rwa [Nat.mul_assoc, ← Nat.pow_succ'])
      refine ⟨c, hgrow, hc, by omega, hneed, fun c' hc' h hn => ?_⟩
      exact hleast c' hc' (hcap.double_le hc' (by omega)) hn
    · rw [if_neg hlt]
      exact ⟨newcap, rfl, hcap, le_rfl, by omega, fun c' _ h _ => h⟩

/-- The capacity after a reservation. -/
def reserveCap (cap need : Nat) : Nat :=
  if need ≤ cap then cap
  else (growCap 64 need (if cap = 0 then firstCap else cap)).getD cap

/-- A buffer starts at `firstCap` and goes on from what it has. -/
theorem growCap_start {cap need : Nat} (hcap : ValidCap cap) (hneed : need ≤ sizeBound) :
    ∃ c, growCap 64 need (if cap = 0 then firstCap else cap) = some c ∧ IsCap c ∧ cap ≤ c ∧
      need ≤ c ∧ ∀ c', IsCap c' → cap ≤ c' → need ≤ c' → c ≤ c' := by
  have hstart : IsCap (if cap = 0 then firstCap else cap) := by
    split
    · exact isCap_firstCap
    · rename_i hne
      exact hcap.resolve_left hne
  have hle : cap ≤ (if cap = 0 then firstCap else cap) := by
    split <;> omega
  have hpos : 0 < (if cap = 0 then firstCap else cap) := lt_of_lt_of_le (by decide) hstart.pos
  obtain ⟨c, hgrow, hc, hle', hneed', hleast⟩ := growCap_spec hneed 63 hstart <|
    calc need ≤ 2 ^ 63 := hneed.trans (by decide)
      _ ≤ (if cap = 0 then firstCap else cap) * 2 ^ 63 := Nat.le_mul_of_pos_left _ hpos
  refine ⟨c, hgrow, hc, hle.trans hle', hneed', fun c' hc' h hn => hleast c' hc' ?_ hn⟩
  split
  · exact hc'.pos
  · exact h

/-- **A reservation** is the least capacity that is enough. -/
theorem reserveCap_spec {cap need : Nat} (hcap : ValidCap cap) (hpos : 0 < need)
    (hneed : need ≤ sizeBound) :
    IsCap (reserveCap cap need) ∧ cap ≤ reserveCap cap need ∧ need ≤ reserveCap cap need ∧
      ∀ c', IsCap c' → cap ≤ c' → need ≤ c' → reserveCap cap need ≤ c' := by
  unfold reserveCap
  split
  · rename_i hle
    refine ⟨hcap.resolve_left ?_, le_rfl, hle, fun c' _ h _ => h⟩
    omega
  · obtain ⟨c, hgrow, hc⟩ := growCap_start hcap hneed
    rw [hgrow, Option.getD_some]
    exact hc

theorem reserveCap_of_le {cap need : Nat} (h : need ≤ cap) : reserveCap cap need = cap :=
  if_pos h

theorem reserveCap_mono {cap cap' need need' : Nat} (hcap : ValidCap cap) (hcap' : ValidCap cap')
    (hpos : 0 < need) (hbound : need' ≤ sizeBound) (h : cap ≤ cap') (hneed : need ≤ need') :
    reserveCap cap need ≤ reserveCap cap' need' := by
  obtain ⟨hc', hle', hn', -⟩ := reserveCap_spec hcap' (hpos.trans_le hneed) hbound
  exact (reserveCap_spec hcap hpos (hneed.trans hbound)).2.2.2 _ hc' (h.trans hle')
    (hneed.trans hn')

/-! ## One read -/

/-- **A reservation of the buffer** moves it to a new block when it was too small. -/
theorem recvReserve_eq {rb : RecvBuf} {need : Nat} (hcap : ValidCap rb.cap)
    (hneed : need ≤ sizeBound) :
    recvReserve rb need = some
      { rb with
        cap := reserveCap rb.cap need
        block := if need ≤ rb.cap then rb.block else rb.block + 1 } := by
  unfold recvReserve
  split
  · rename_i hle
    rw [reserveCap_of_le hle]
  · rename_i hlt
    obtain ⟨c, hgrow, -⟩ := growCap_start hcap hneed
    rw [reserveCap, if_neg hlt, hgrow]
    rfl

theorem recvReserve_buf {rb rb' : RecvBuf} {need : Nat} (h : recvReserve rb need = some rb') :
    rb'.buf = rb.buf := by
  unfold recvReserve at h
  split at h
  · rw [← Option.some.inj h]
  · obtain ⟨c, -, rfl⟩ := Option.map_eq_some_iff.mp h
    rfl

/-- The stream `s` is partly in the buffer, which is large enough, and partly to come. -/
structure Reading (s : Bytes) (rb : RecvBuf) (cs : List Bytes) : Prop where
  stream : rb.buf ++ cs.flatten = s
  cap : ValidCap rb.cap
  held : rb.buf.length ≤ rb.cap

theorem Reading.buf_eq {s : Bytes} {rb : RecvBuf} {cs : List Bytes} (h : Reading s rb cs) :
    rb.buf = s.take rb.buf.length := by
  rw [← h.stream, List.take_left]

/-- The room before a read is made with a reservation. -/
theorem recvAppend_eq {rb : RecvBuf} {cs : List Bytes} (hcap : ValidCap rb.cap)
    (hheld : rb.buf.length ≤ rb.cap) (hsize : rb.buf.length + minRoom ≤ sizeBound) :
    recvAppend rb cs =
      (recv (reserveCap rb.cap (rb.buf.length + minRoom) - rb.buf.length) cs).map fun r =>
        ({ buf := rb.buf ++ r.1
           cap := reserveCap rb.cap (rb.buf.length + minRoom)
           block := if rb.buf.length + minRoom ≤ rb.cap then rb.block else rb.block + 1 }, r.2) := by
  have hreserve : (if rb.cap - rb.buf.length < minRoom
        then recvReserve rb (rb.buf.length + minRoom) else some rb) =
      recvReserve rb (rb.buf.length + minRoom) := by
    split
    · rfl
    · rw [recvReserve, if_pos (by omega)]
  rw [recvAppend, hreserve, recvReserve_eq hcap hsize, Option.bind_some]

/-- **A read** before the end of the stream. -/
theorem Reading.recvAppend {s : Bytes} {rb : RecvBuf} {cs : List Bytes} (h : Reading s rb cs)
    (hmore : rb.buf.length < s.length) (hsize : rb.buf.length + minRoom ≤ sizeBound) :
    ∃ rb' cs', recvAppend rb cs = some (rb', cs') ∧ Reading s rb' cs' ∧
      rb.buf.length < rb'.buf.length ∧
      rb'.cap = reserveCap rb.cap (rb.buf.length + minRoom) ∧
      rb'.block = if rb.buf.length + minRoom ≤ rb.cap then rb.block else rb.block + 1 := by
  obtain ⟨hcap, -, hneed, -⟩ := reserveCap_spec h.cap (by unfold minRoom; omega) hsize
  have hroom : 0 < reserveCap rb.cap (rb.buf.length + minRoom) - rb.buf.length := by
    unfold minRoom at hneed ⊢
    omega
  cases hr : recv (reserveCap rb.cap (rb.buf.length + minRoom) - rb.buf.length) cs with
  | none =>
    rw [← h.stream, recv_eq_none.mp hr, List.append_nil] at hmore
    omega
  | some r =>
    obtain ⟨hne, hle, hsplit⟩ := recv_spec hroom hr
    have hpos := List.length_pos_iff.mpr hne
    refine ⟨_, r.2, by rw [recvAppend_eq h.cap h.held hsize, hr, Option.map_some],
      ⟨?_, .inr hcap, ?_⟩, ?_, rfl, rfl⟩
    · rw [List.append_assoc, hsplit, h.stream]
    · show (rb.buf ++ r.1).length ≤ reserveCap rb.cap (rb.buf.length + minRoom)
      rw [List.length_append]
      omega
    · rw [List.length_append]
      omega

/-- Whatever a read returns, the stream is the same. -/
theorem recvAppend_stream {rb rb' : RecvBuf} {cs cs' : List Bytes}
    (h : recvAppend rb cs = some (rb', cs')) : rb'.buf ++ cs'.flatten = rb.buf ++ cs.flatten := by
  unfold recvAppend at h
  obtain ⟨rb₁, hreserve, h⟩ := Option.bind_eq_some_iff.mp h
  obtain ⟨r, hrecv, h⟩ := Option.map_eq_some_iff.mp h
  obtain ⟨rfl, rfl⟩ := Prod.mk.inj h
  have hbuf : rb₁.buf = rb.buf := by
    split at hreserve
    · exact recvReserve_buf hreserve
    · rw [← Option.some.inj hreserve]
  rw [List.append_assoc, hbuf, recv_append hrecv]

/-! ## Where a head ends -/

/-- Where the first occurrence of a terminator ends. -/
def endOf (needle s : Bytes) : Option Nat :=
  (bufFind needle s).map (· + needle.length)

/-- Where the terminator that ends first ends. -/
def headEnd (s : Bytes) : Option Nat :=
  Option.merge min (endOf crlfCrlf s) (endOf lfLf s)

/-- A search of the first `n` bytes finds the occurrences that end there. -/
theorem bufFind_take {needle : Bytes} (hne : needle ≠ []) (s : Bytes) (n : Nat) :
    bufFind needle (s.take n) = (bufFind needle s).filter fun i => i + needle.length ≤ n := by
  have hpos := List.length_pos_iff.mpr hne
  induction s generalizing n with
  | nil => rw [List.take_nil]; rfl
  | cons c s ih =>
    cases n with
    | zero =>
      have hnone (o : Option Nat) : (o.filter fun i => i + needle.length ≤ 0) = none := by
        rw [Option.filter_eq_none_iff]
        intro i _
        rw [decide_eq_true_eq]
        omega
      rw [hnone]
      rfl
    | succ n =>
      rw [List.take_succ_cons, bufFind, bufFind]
      -- an occurrence here counts if it ends within the first bytes
      by_cases hpre : needle <+: c :: s
      · by_cases hle : needle.length ≤ n + 1
        · have htake : needle <+: c :: s.take n := by
            rw [← List.take_succ_cons]
            exact List.prefix_take_iff.mpr ⟨hpre, hle⟩
          simp [hpre, htake, hle, Option.filter]
        · have htake : ¬ needle <+: c :: s.take n := by
            rw [← List.take_succ_cons, List.prefix_take_iff]
            exact fun h => hle h.2
          have hnone : bufFind needle (s.take n) = none := by
            rw [ih, Option.filter_eq_none_iff]
            intro i _
            rw [decide_eq_true_eq]
            omega
          simp [hpre, htake, hle, hnone, Option.filter]
      · -- otherwise both searches go on one byte later
        have htake : ¬ needle <+: c :: s.take n := by
          rw [← List.take_succ_cons, List.prefix_take_iff]
          exact fun h => hpre h.1
        have hfilter : ((bufFind needle s).filter fun i => i + needle.length ≤ n).map (· + 1) =
            ((bufFind needle s).map (· + 1)).filter fun i => i + needle.length ≤ n + 1 := by
          cases bufFind needle s with
          | none => rfl
          | some i => simp [Option.filter, Nat.add_right_comm]
        simp [hpre, htake, ih, hfilter]

theorem endOf_take {needle : Bytes} (hne : needle ≠ []) (s : Bytes) (n : Nat) :
    endOf needle (s.take n) = (endOf needle s).filter (· ≤ n) := by
  rw [endOf, bufFind_take hne, endOf]
  cases bufFind needle s with
  | none => rfl
  | some i =>
    simp only [Option.filter_some, Option.map_some]
    split <;> rfl

theorem findHead_eq (s : Bytes) : findHead s = (endOf crlfCrlf s).or (endOf lfLf s) := by
  unfold findHead endOf
  cases bufFind crlfCrlf s <;> rfl

theorem findHead_take (s : Bytes) (n : Nat) :
    findHead (s.take n) =
      ((endOf crlfCrlf s).filter (· ≤ n)).or ((endOf lfLf s).filter (· ≤ n)) := by
  rw [findHead_eq, endOf_take (by decide), endOf_take (by decide)]

/-- No head is found in the first bytes exactly when none ends there. -/
theorem findHead_take_eq_none {s : Bytes} {n : Nat} :
    findHead (s.take n) = none ↔ ∀ h, headEnd s = some h → n < h := by
  rw [findHead_take]
  unfold headEnd
  cases endOf crlfCrlf s <;> cases endOf lfLf s <;> grind [Option.filter, Option.merge]

theorem endOf_le {needle s : Bytes} {e : Nat} (hne : needle ≠ []) (h : endOf needle s = some e) :
    e ≤ s.length := by
  have htake := endOf_take hne s s.length
  rw [List.take_length, h] at htake
  exact of_decide_eq_true (Option.filter_eq_some_iff.mp htake.symm).2

theorem headEnd_le {s : Bytes} {h : Nat} (hhead : headEnd s = some h) : h ≤ s.length := by
  have hc : ∀ e, endOf crlfCrlf s = some e → e ≤ s.length := fun _ => endOf_le (by decide)
  have hl : ∀ e, endOf lfLf s = some e → e ≤ s.length := fun _ => endOf_le (by decide)
  unfold headEnd at hhead
  cases hcr : endOf crlfCrlf s <;> cases hlf : endOf lfLf s <;>
    simp only [hcr, hlf, Option.merge] at hhead hc hl
  all_goals grind

/-- A head that is found ends no earlier than the first one, and where a terminator ends. -/
theorem le_of_findHead_take {s : Bytes} {n x : Nat} (h : findHead (s.take n) = some x) :
    ∃ e, headEnd s = some e ∧ e ≤ x ∧ x ≤ n := by
  rw [findHead_take] at h
  unfold headEnd
  cases hc : endOf crlfCrlf s <;> cases he : endOf lfLf s <;>
    simp [Option.filter, Option.merge, hc, he] at h ⊢
  all_goals grind

/-- Every capacity the buffer can have before the head is noticed is too small for a
`CR LF CR LF` that ends after an `LF LF`. -/
def UnambiguousHead (cap : Nat) (s : Bytes) : Prop :=
  ∀ e c, endOf lfLf s = some e → endOf crlfCrlf s = some c → e < c → e ≤ maxHeaderBytes →
    reserveCap cap (e - 1 + minRoom) < c

theorem findHead_take_of_unambiguous {s : Bytes} {cap h n : Nat} (hs : UnambiguousHead cap s)
    (hhead : headEnd s = some h) (hmax : h ≤ maxHeaderBytes) (hle : h ≤ n)
    (hcap : n ≤ reserveCap cap (h - 1 + minRoom)) : findHead (s.take n) = some h := by
  rw [findHead_take]
  unfold headEnd at hhead
  unfold UnambiguousHead at hs
  cases hc : endOf crlfCrlf s <;> cases he : endOf lfLf s <;>
    simp [Option.filter, Option.merge, hc, he] at hhead hs ⊢
  all_goals grind

/-! ## The loops -/

/-- Whatever the loop finds is in the stream. -/
theorem headLoop_sound {fuel total n : Nat} {rb rb' : RecvBuf} {cs cs' : List Bytes}
    (h : headLoop fuel total rb cs = some (n, rb', cs')) :
    rb'.buf ++ cs'.flatten = rb.buf ++ cs.flatten ∧ findHead rb'.buf = some n := by
  induction fuel generalizing total rb cs with
  | zero => cases h
  | succ fuel ih =>
    unfold headLoop at h
    split at h
    · rename_i headLen hfind
      obtain ⟨rfl, rfl, rfl⟩ := h
      exact ⟨rfl, hfind⟩
    · split at h
      · cases h
      · obtain ⟨⟨rb₁, cs₁⟩, happend, h⟩ := Option.bind_eq_some_iff.mp h
        rw [← recvAppend_stream happend]
        exact ih h

theorem bodyLoop_sound {need fuel : Nat} {rb rb' : RecvBuf} {cs cs' : List Bytes}
    (h : bodyLoop need fuel rb cs = some (rb', cs')) :
    rb'.buf ++ cs'.flatten = rb.buf ++ cs.flatten ∧ need ≤ rb'.buf.length := by
  induction fuel generalizing rb cs with
  | zero => cases h
  | succ fuel ih =>
    unfold bodyLoop at h
    split at h
    · rename_i hneed
      obtain ⟨rfl, rfl⟩ := h
      exact ⟨rfl, hneed⟩
    · obtain ⟨⟨rb₁, cs₁⟩, happend, h⟩ := Option.bind_eq_some_iff.mp h
      rw [← recvAppend_stream happend]
      exact ih h

/-- **The head loop** finds the head that ends first, whatever the chunks are. -/
theorem Reading.headLoop {s : Bytes} {cap h : Nat} (hcap : ValidCap cap)
    (hs : UnambiguousHead cap s) (hhead : headEnd s = some h) (hmax : h ≤ maxHeaderBytes)
    {fuel total : Nat} {rb : RecvBuf} {cs : List Bytes} (hr : Reading s rb cs)
    (hle : rb.cap ≤ reserveCap cap (h - 1 + minRoom)) (htotal : total ≤ rb.buf.length)
    (hfuel : s.length - rb.buf.length < fuel) :
    ∃ rb' cs', headLoop fuel total rb cs = some (h, rb', cs') ∧ Reading s rb' cs' ∧
      h ≤ rb'.buf.length ∧ rb.cap ≤ rb'.cap ∧ rb'.cap ≤ reserveCap cap (h - 1 + minRoom) := by
  induction fuel generalizing total rb cs with
  | zero => omega
  | succ fuel ih =>
    have hheldLe := hr.held.trans hle
    rw [EpsilonDB.headLoop]
    -- the head is in the buffer, and the loop stops with it
    by_cases hfound : h ≤ rb.buf.length
    · have hfind := findHead_take_of_unambiguous hs hhead hmax hfound hheldLe
      rw [← hr.buf_eq] at hfind
      rw [hfind]
      exact ⟨rb, cs, rfl, hr, hfound, le_rfl, hle⟩
    · -- it is not yet, so no head is, and the next read makes the buffer longer
      have hfind : findHead rb.buf = none := by
        rw [hr.buf_eq, findHead_take_eq_none]
        intro h' hh'
        obtain rfl := Option.some.inj (hhead.symm.trans hh')
        omega
      have hlen : h ≤ s.length := headEnd_le hhead
      have hbound : h - 1 + minRoom ≤ sizeBound :=
        (Nat.add_le_add_right ((Nat.sub_le h 1).trans hmax) minRoom).trans (by decide)
      obtain ⟨rb₁, cs₁, happend, hr₁, hlt, hcap₁, -⟩ := hr.recvAppend (by omega) (by omega)
      obtain ⟨hB, hcapB, hneedB, -⟩ := reserveCap_spec hcap (by unfold minRoom; omega) hbound
      obtain ⟨-, hge, -, hleast⟩ := reserveCap_spec hr.cap
        (show 0 < rb.buf.length + minRoom by unfold minRoom; omega) (by omega)
      obtain ⟨rb', cs', hloop, hr', hfound', hge', hle'⟩ :=
        ih hr₁ (hcap₁.trans_le (hleast _ hB hle (by omega)))
          (show total + (rb₁.buf.length - rb.buf.length) ≤ rb₁.buf.length by omega) (by omega)
      refine ⟨rb', cs', ?_, hr', hfound', hge.trans (hcap₁ ▸ hge'), hle'⟩
      rw [hfind]
      simp only [if_neg (show ¬ maxHeaderBytes < total by omega), happend, Option.bind_eq_bind,
        Option.bind_some, hloop]

/-- **The body loop** reads the body, and in the same block when it fits. -/
theorem Reading.bodyLoop {s : Bytes} {need : Nat} (hneed : need ≤ s.length)
    (hsize : need + minRoom ≤ sizeBound) {fuel : Nat} {rb : RecvBuf} {cs : List Bytes}
    (hr : Reading s rb cs) (hfuel : s.length - rb.buf.length < fuel) :
    ∃ rb' cs', bodyLoop need fuel rb cs = some (rb', cs') ∧ Reading s rb' cs' ∧
      need ≤ rb'.buf.length ∧
      (need ≤ rb.buf.length ∨ need + minRoom ≤ rb.cap + 1 →
        rb'.cap = rb.cap ∧ rb'.block = rb.block) := by
  induction fuel generalizing rb cs with
  | zero => omega
  | succ fuel ih =>
    rw [EpsilonDB.bodyLoop]
    by_cases hdone : need ≤ rb.buf.length
    · rw [if_pos hdone]
      exact ⟨rb, cs, rfl, hr, hdone, fun _ => ⟨rfl, rfl⟩⟩
    · obtain ⟨rb₁, cs₁, happend, hr₁, hlt, hcap₁, hblock₁⟩ :=
        hr.recvAppend (by omega) (by omega)
      obtain ⟨rb', cs', hloop, hr', hdone', hsame⟩ := ih hr₁ (by omega)
      refine ⟨rb', cs', ?_, hr', hdone', ?_⟩
      · rw [if_neg hdone, happend, Option.bind_eq_bind, Option.bind_some]
        exact hloop
      · rintro (h | hfits)
        · exact absurd h hdone
        · -- nothing short of the whole body is too long for the buffer to take another read
          have hroom : rb.buf.length + minRoom ≤ rb.cap := by omega
          rw [reserveCap_of_le hroom] at hcap₁
          rw [if_pos hroom] at hblock₁
          rw [← hcap₁, ← hblock₁]
          exact hsame (.inr (hcap₁ ▸ hfits))

/-! ## One request -/

/-- A head and where it ends. -/
structure Message where
  head : Head
  headLen : Nat

/-- The bytes the request takes. -/
def Message.total (m : Message) : Nat := m.headLen + m.head.bodyLen

/-- The request, when the stream begins with it. -/
def Message.request (m : Message) (s : Bytes) : HttpRequest :=
  ⟨m.head.method, m.head.path, m.head.query, m.head.headers,
    (s.drop m.headLen).take m.head.bodyLen⟩

/-- The request at the front of a stream, read from the stream alone. -/
def firstMessage (s : Bytes) : Option Message :=
  (headEnd s).bind fun h =>
    if maxHeaderBytes < h then none
    else (parseHead (s.take h)).bind fun head =>
      if s.length < h + head.bodyLen then none else some ⟨head, h⟩

/-- The capacity the request leaves, from the most the buffer can have before it. -/
def Message.capAfterMost (m : Message) (cap : Nat) : Nat :=
  reserveCap (reserveCap cap (m.headLen - 1 + minRoom)) (m.total + 1)

/-- The capacity the request leaves, from the least. -/
def Message.capAfterLeast (m : Message) (cap : Nat) : Nat :=
  reserveCap cap (m.total + 1)

/-- The body can be read to its end without growing the buffer once more. -/
def Message.BodyFits (m : Message) (cap : Nat) : Prop :=
  m.head.bodyLen = 0 ∨ m.total + minRoom ≤ m.capAfterLeast cap + 1

/-- What a message at the front says about the stream. -/
theorem firstMessage_eq_some {s : Bytes} {m : Message} :
    firstMessage s = some m ↔ headEnd s = some m.headLen ∧ m.headLen ≤ maxHeaderBytes ∧
      parseHead (s.take m.headLen) = some m.head ∧ m.total ≤ s.length := by
  unfold firstMessage Message.total
  constructor
  · intro h
    obtain ⟨e, hend, h⟩ := Option.bind_eq_some_iff.mp h
    split at h
    · cases h
    · rename_i hmax
      obtain ⟨head, hparse, h⟩ := Option.bind_eq_some_iff.mp h
      split at h
      · cases h
      · rename_i hlen
        obtain rfl := Option.some.inj h
        exact ⟨hend, not_lt.mp hmax, hparse, not_lt.mp hlen⟩
  · rintro ⟨hend, hmax, hparse, hlen⟩
    rw [hend, Option.bind_some, if_neg (not_lt.mpr hmax), hparse, Option.bind_some,
      if_neg (not_lt.mpr hlen)]

/-- A body length that is accepted is within the maximum. -/
theorem contentLength_le {headers : List (Bytes × Bytes)} {n : Nat}
    (h : contentLength headers = some n) : n ≤ maxBodyBytes := by
  unfold contentLength at h
  split at h
  · obtain rfl := Option.some.inj h
    omega
  · split at h
    · cases h
    split at h
    · cases h
    split at h
    · cases h
    split at h
    · cases h
    · obtain rfl := Option.some.inj h
      omega

theorem parseHead_bodyLen_le {b : Bytes} {head : Head} (h : parseHead b = some head) :
    head.bodyLen ≤ maxBodyBytes := by
  unfold parseHead at h
  simp only [Option.bind_eq_bind, Option.bind_eq_some_iff] at h
  obtain ⟨line, -, ⟨method, rest⟩, -, ⟨target, _⟩, -, headers, -, bodyLen, hlen, h⟩ := h
  split at h
  · cases h
  · rw [← Option.some.inj h]
    exact contentLength_le hlen

/-- A message is far from the largest size. -/
theorem Message.total_le {s : Bytes} {m : Message} (h : firstMessage s = some m) :
    m.total + minRoom ≤ sizeBound := by
  obtain ⟨-, hmax, hparse, -⟩ := firstMessage_eq_some.mp h
  have hbody := parseHead_bodyLen_le hparse
  calc m.headLen + m.head.bodyLen + minRoom ≤ maxHeaderBytes + maxBodyBytes + minRoom := by omega
    _ ≤ sizeBound := by decide

theorem Reading.take_eq {s : Bytes} {rb : RecvBuf} {cs : List Bytes} (h : Reading s rb cs)
    {n : Nat} (hn : n ≤ rb.buf.length) : rb.buf.take n = s.take n := by
  rw [← h.stream, List.take_append_of_le_length hn]

theorem Reading.drop_take_eq {s : Bytes} {rb : RecvBuf} {cs : List Bytes} (h : Reading s rb cs)
    {i n : Nat} (hn : i + n ≤ rb.buf.length) :
    (rb.buf.drop i).take n = (s.drop i).take n := by
  rw [← h.stream, List.drop_append_of_le_length (by omega),
    List.take_append_of_le_length (by rw [List.length_drop]; omega)]

theorem Reading.recvReserve {s : Bytes} {rb : RecvBuf} {cs : List Bytes} (h : Reading s rb cs)
    {need : Nat} (hpos : 0 < need) (hneed : need ≤ sizeBound) :
    ∃ rb', recvReserve rb need = some rb' ∧ Reading s rb' cs ∧ rb'.buf = rb.buf ∧
      rb'.cap = reserveCap rb.cap need := by
  obtain ⟨hcap, hge, -, -⟩ := reserveCap_spec h.cap hpos hneed
  exact ⟨_, recvReserve_eq h.cap hneed, ⟨h.stream, .inr hcap, h.held.trans hge⟩, rfl, rfl⟩

/-- **A successful parse**, stage by stage. -/
theorem parseRequestFull_eq_some {rb : RecvBuf} {cs : List Bytes} {p : ParsedRequest} :
    parseRequestFull rb cs = some p ↔ ∃ h rb₁ cs₁ head rb₂ rb₃ cs₃,
      headLoop (cs.flatten.length + 1) 0 rb cs = some (h, rb₁, cs₁) ∧ h ≤ maxHeaderBytes ∧
      parseHead (rb₁.buf.take h) = some head ∧
      recvReserve rb₁ (h + head.bodyLen + 1) = some rb₂ ∧
      bodyLoop (h + head.bodyLen) (cs₁.flatten.length + 1) rb₂ cs₁ = some (rb₃, cs₃) ∧
      p = ⟨⟨head.method, head.path, head.query, head.headers,
        (rb₃.buf.drop h).take head.bodyLen⟩, rb₂.block, h + head.bodyLen, rb₃, cs₃⟩ := by
  unfold parseRequestFull
  constructor
  · intro h
    obtain ⟨⟨n, rb₁, cs₁⟩, hloop, h⟩ := Option.bind_eq_some_iff.mp h
    dsimp only at h
    split at h
    · cases h
    rename_i hmax
    obtain ⟨head, hparse, h⟩ := Option.bind_eq_some_iff.mp h
    obtain ⟨rb₂, hreserve, h⟩ := Option.bind_eq_some_iff.mp h
    obtain ⟨⟨rb₃, cs₃⟩, hbody, h⟩ := Option.bind_eq_some_iff.mp h
    exact ⟨n, rb₁, cs₁, head, rb₂, rb₃, cs₃, hloop, not_lt.mp hmax, hparse, hreserve, hbody,
      (Option.some.inj h).symm⟩
  · rintro ⟨n, rb₁, cs₁, head, rb₂, rb₃, cs₃, hloop, hmax, hparse, hreserve, hbody, rfl⟩
    simp only [hloop, Option.bind_eq_bind, Option.bind_some, if_neg (not_lt.mpr hmax), hparse,
      hreserve, hbody]
    rfl

/-- The most the buffer can have when the head is noticed. -/
theorem le_capOfHead {cap e : Nat} (hcap : ValidCap cap) (hmax : e ≤ maxHeaderBytes) :
    cap ≤ reserveCap cap (e - 1 + minRoom) ∧ IsCap (reserveCap cap (e - 1 + minRoom)) := by
  have hpos : 0 < e - 1 + minRoom := by unfold minRoom; omega
  have hbound : e - 1 + minRoom ≤ sizeBound :=
    (Nat.add_le_add_right ((Nat.sub_le e 1).trans hmax) minRoom).trans (by decide)
  obtain ⟨hc, hle, -, -⟩ := reserveCap_spec hcap hpos hbound
  exact ⟨hle, hc⟩

theorem Reading.fuel {s : Bytes} {rb : RecvBuf} {cs : List Bytes} (h : Reading s rb cs) :
    s.length - rb.buf.length < cs.flatten.length + 1 := by
  rw [← h.stream, List.length_append]
  omega

/-- **A refused request** is refused whatever the chunks are. -/
theorem Reading.parseRequestFull_none {s : Bytes} {cap : Nat} (hcap : ValidCap cap)
    (hs : UnambiguousHead cap s) (hm : firstMessage s = none) {rb : RecvBuf} {cs : List Bytes}
    (hr : Reading s rb cs) (hle : rb.cap ≤ cap) : parseRequestFull rb cs = none := by
  rw [Option.eq_none_iff_forall_not_mem]
  intro p h
  obtain ⟨n, rb₁, cs₁, head, rb₂, rb₃, cs₃, hloop, hmax, hparse, hreserve, hbody, -⟩ :=
    parseRequestFull_eq_some.mp h
  -- the head that was found is the one that ends first
  obtain ⟨hstream₁, hfind⟩ := headLoop_sound hloop
  rw [hr.stream] at hstream₁
  have hbuf₁ : rb₁.buf = s.take rb₁.buf.length := by rw [← hstream₁, List.take_left]
  rw [hbuf₁] at hfind
  obtain ⟨e, hend, hen, -⟩ := le_of_findHead_take hfind
  have hcapLe := hle.trans (le_capOfHead hcap (hen.trans hmax)).1
  obtain ⟨rb', cs', hloop', hr₁, hlen₁, -⟩ :=
    hr.headLoop hcap hs hend (hen.trans hmax) hcapLe (Nat.zero_le _) hr.fuel
  obtain ⟨rfl, rfl, rfl⟩ := Option.some.inj (hloop'.symm.trans hloop)
  -- and the bytes of the body are in the stream
  obtain ⟨hstream₃, hneed⟩ := bodyLoop_sound hbody
  rw [recvReserve_buf hreserve, hstream₁] at hstream₃
  have hlen : n + head.bodyLen ≤ s.length := by
    rw [← hstream₃, List.length_append]
    omega
  rw [hr₁.take_eq hlen₁] at hparse
  have hm' : firstMessage s = some ⟨head, n⟩ := firstMessage_eq_some.mpr ⟨hend, hmax, hparse, hlen⟩
  cases hm.symm.trans hm'

/-- **A request** is read from the stream, whatever the chunks are; when its body fits, its
header pointers are good. -/
theorem Reading.parseRequestFull {s : Bytes} {m : Message} {cap : Nat} (hcap : ValidCap cap)
    (hs : UnambiguousHead cap s) (hm : firstMessage s = some m) {rb : RecvBuf} {cs : List Bytes}
    (hr : Reading s rb cs) (hle : rb.cap ≤ cap) :
    ∃ p, parseRequestFull rb cs = some p ∧ p.request = m.request s ∧ p.consumed = m.total ∧
      Reading s p.rb p.cs ∧ m.total ≤ p.rb.buf.length ∧
      ∀ lo, ValidCap lo → lo ≤ rb.cap → m.BodyFits lo →
        p.headerBlock = p.rb.block ∧ m.capAfterLeast lo ≤ p.rb.cap ∧
          p.rb.cap ≤ m.capAfterMost cap := by
  obtain ⟨hend, hmax, hparse, hlen⟩ := firstMessage_eq_some.mp hm
  have hsize := Message.total_le hm
  have hreserveBound : m.total + 1 ≤ sizeBound := by unfold minRoom at hsize; omega
  obtain ⟨hcapHead, hcapHeadIs⟩ := le_capOfHead hcap hmax
  obtain ⟨rb₁, cs₁, hloop, hr₁, hlen₁, hge₁, hle₁⟩ :=
    hr.headLoop hcap hs hend hmax (hle.trans hcapHead) (Nat.zero_le _) hr.fuel
  obtain ⟨rb₂, hreserve, hr₂, hbuf₂, hcap₂⟩ := hr₁.recvReserve (Nat.succ_pos _) hreserveBound
  obtain ⟨rb₃, cs₃, hbody, hr₃, hneed₃, hsame⟩ := hr₂.bodyLoop hlen hsize hr₂.fuel
  rw [← hr₁.take_eq hlen₁] at hparse
  refine ⟨_, parseRequestFull_eq_some.mpr
    ⟨m.headLen, rb₁, cs₁, m.head, rb₂, rb₃, cs₃, hloop, hmax, hparse, hreserve, hbody, rfl⟩,
    ?_, rfl, hr₃, hneed₃, ?_⟩
  · rw [Message.request, ← hr₃.drop_take_eq hneed₃]
  · intro lo hlo hloLe hfits
    obtain ⟨hcap₂Is, hge₂, hneed₂, -⟩ := reserveCap_spec hr₁.cap (Nat.succ_pos _) hreserveBound
    have hleast : m.capAfterLeast lo ≤ rb₂.cap := by
      rw [hcap₂]
      exact reserveCap_mono hlo hr₁.cap (Nat.succ_pos _) hreserveBound (hloLe.trans hge₁) le_rfl
    obtain ⟨hcap₃, hblock₃⟩ := hsame <| hfits.imp
      (fun h => by rw [hbuf₂, Message.total, h]; exact hlen₁) (fun h => h.trans (Nat.succ_le_succ hleast))
    refine ⟨hblock₃.symm, hleast.trans_eq hcap₃.symm, ?_⟩
    show rb₃.cap ≤ _
    rw [hcap₃, hcap₂]
    exact reserveCap_mono hr₁.cap (.inr hcapHeadIs) (Nat.succ_pos _) hreserveBound hle₁ le_rfl

end EpsilonDB
