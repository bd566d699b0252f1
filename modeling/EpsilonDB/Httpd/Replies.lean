import EpsilonDB.Api.Data
import EpsilonDB.Api.Groups
import EpsilonDB.Httpd.Pipelining

/-!
# Answers on the wire (`httpd/epsilon_http.c`, `epsilonbkup_http.c`)

The server prints an answer, and the tools (`epsilonbkup`, `epsilonctl` and `epsilonbench` have
the same code for it) read it back: the head byte by byte into one buffer of 1024 bytes, then
the body. The connection may break at any byte.

- `HttpResponse`: an answer, with what the handlers keep of it.
- `writeResponse`: its bytes.
- `readReply`: what `http_request_raw` makes of the bytes that arrive.
- `replyLines`: the head, read from the stream alone.
- `readReply_take`: the main result, for an answer that is cut anywhere.
-/

namespace EpsilonDB

open Chunked

/-! ## What the server writes -/

/-- `edb_http_response`: the status is an `int`, the length of the body a `size_t`, and the
content type a literal or a text of at most 127 bytes. -/
structure HttpResponse extends Response where
  contentType : CString := cstr "application/json"
  status_lt : status < 2 ^ 31
  body_lt : body.length < 2 ^ 64
  contentType_length : contentType.length < 128
  contentType_line : ∀ c ∈ contentType, 32 ≤ c

/-- `status_text`. -/
def statusText (status : Nat) : CString :=
  match status with
  | 200 => cstr "OK"
  | 201 => cstr "Created"
  | 204 => cstr "No Content"
  | 400 => cstr "Bad Request"
  | 401 => cstr "Unauthorized"
  | 403 => cstr "Forbidden"
  | 404 => cstr "Not Found"
  | 405 => cstr "Method Not Allowed"
  | 409 => cstr "Conflict"
  | 500 => cstr "Internal Server Error"
  | _ => cstr "Unknown"

/-- The lines of the head that `write_response` prints. -/
def responseLines (res : HttpResponse) (keepAlive : Bool) : List Bytes :=
  [cstr "HTTP/1.1 " ++ (cstr (toString res.status) ++ 32 :: statusText res.status),
    cstr "Content-Type: " ++ res.contentType,
    cstr "Content-Length: " ++ cstr (toString res.body.length),
    cstr "Connection: " ++ if keepAlive then cstr "keep-alive" else cstr "close"]

/-- The text in `head`. -/
def responseHead (res : HttpResponse) (keepAlive : Bool) : Bytes :=
  ClientRequest.headBytes (responseLines res keepAlive)

/-- `write_response`. -/
def writeResponse (res : HttpResponse) (keepAlive : Bool) : Bytes :=
  responseHead res keepAlive ++ res.body

/-! ## What a tool reads -/

/-- `strncasecmp(a, b, n) == 0`. -/
def strncasecmpEq (n : Nat) (a b : CString) : Bool := strcasecmpEq (a.take n) (b.take n)

/-- `strtoull(s, NULL, 10)`: what the leading digits stand for, a minus sign taken modulo
`2 ^ 64`, clamped. -/
def strtoullPrefix (s : CString) : Nat :=
  let (negative, t) := match s.dropWhile isSpace with
    | 45 :: t => (true, t)
    | 43 :: t => (false, t)
    | t => (false, t)
  let n := decimal (t.takeWhile isDigit)
  if 2 ^ 64 ≤ n then 2 ^ 64 - 1 else if negative then (2 ^ 64 - n) % 2 ^ 64 else n

/-- `status` and `content_length`. -/
structure ReplyHead where
  status : Int := 0
  contentLength : Nat := 0
deriving DecidableEq

/-- What one line of the head says. The status is what follows the ninth byte; a line that ends
before it shows what the buffer held earlier, which is not modelled. -/
def ReplyHead.line (h : ReplyHead) (line : CString) : ReplyHead :=
  if (cstr "HTTP/").isPrefixOf line then { h with status := strtoll (line.drop 9) }
  else if strncasecmpEq 15 line (cstr "Content-Length:") then
    { h with contentLength := strtoullPrefix (line.drop 15) }
  else h

/-- A finished line, without a carriage return at its end. -/
def replyLine (line : Bytes) : CString :=
  cString (if line.getLast? = some 13 then line.dropLast else line)

/-- The room for the bytes of a line. -/
def replyLineMax : Nat := 1023

/-- The loop over the head: one byte a read; what a line has beyond the buffer is dropped. -/
def replyHead : Nat → Bytes → ReplyHead → List Bytes → Option (ReplyHead × List Bytes)
  | 0, _, _, _ => none
  | fuel + 1, line, h, cs => do
    let (b, cs) ← recv 1 cs
    let c ← b.head?
    if c = 10 then
      if replyLine line = [] then some (h, cs)
      else replyHead fuel [] (h.line (replyLine line)) cs
    else replyHead fuel (if line.length < replyLineMax then line ++ [c] else line) h cs

/-- The loop over a body of known length: what has arrived when the stream ends is kept. -/
def replyBody : Nat → List Bytes → Bytes
  | 0, _ => []
  | n + 1, cs =>
    match _hr : recv (n + 1) cs with
    | none => []
    | some (b, cs') => b ++ replyBody (n + 1 - b.length) cs'
termination_by n => n
decreasing_by
  have := List.length_pos_iff.mpr (recv_spec n.succ_pos _hr).1
  omega

/-- `read_all`: a body whose length is not known, into a buffer that doubles. -/
def readAll : Nat → Nat → Bytes → List Bytes → Bytes
  | 0, _, buf, _ => buf
  | fuel + 1, cap, buf, cs =>
    let cap := if cap - buf.length < 2 then cap * 2 else cap
    match recv (cap - buf.length - 1) cs with
    | none => buf
    | some (b, cs) => readAll fuel cap (buf ++ b) cs

/-- The second half of `http_request_raw`: the status and the body, or nothing when the stream
ends within the head. -/
def readReply (cs : List Bytes) : Option (Int × Bytes) := do
  let (h, cs) ← replyHead (cs.flatten.length + 1) [] {} cs
  if 0 < h.contentLength then return (h.status, replyBody h.contentLength cs)
  else return (h.status, readAll (cs.flatten.length + 1) 65536 [] cs)

/-! ## Bodies -/

theorem replyBody_eq (n : Nat) (cs : List Bytes) : replyBody n cs = cs.flatten.take n := by
  induction n, cs using replyBody.induct with
  | case1 cs => rw [replyBody, List.take_zero]
  | case2 n cs hr =>
    rw [replyBody, hr, recv_eq_none.mp hr]
    rfl
  | case3 n cs b cs' hr ih =>
    obtain ⟨-, hle, hsplit⟩ := recv_spec n.succ_pos hr
    rw [replyBody, hr]
    show b ++ replyBody (n + 1 - b.length) cs' = _
    rw [ih, ← hsplit, List.take_append, List.take_of_length_le hle]

theorem readAll_eq {fuel cap : Nat} {buf : Bytes} {cs : List Bytes} (hcap : buf.length < cap)
    (hpos : 2 ≤ cap) (hfuel : cs.flatten.length < fuel) :
    readAll fuel cap buf cs = buf ++ cs.flatten := by
  induction fuel generalizing cap buf cs with
  | zero => omega
  | succ fuel ih =>
    rw [readAll]
    generalize hgrown : (if cap - buf.length < 2 then cap * 2 else cap) = cap'
    have hroom : 0 < cap' - buf.length - 1 := by
      split at hgrown <;> omega
    cases hr : recv (cap' - buf.length - 1) cs with
    | none =>
      rw [recv_eq_none.mp hr, List.append_nil]
    | some r =>
      obtain ⟨b, cs'⟩ := r
      obtain ⟨hne, hle, hsplit⟩ := recv_spec hroom hr
      have hpos := List.length_pos_iff.mpr hne
      have hlen := congrArg List.length hsplit
      rw [List.length_append] at hlen
      show readAll fuel cap' (buf ++ b) cs' = _
      rw [ih (by rw [List.length_append]; omega) (by omega) (by omega), ← hsplit,
        List.append_assoc]

/-! ## The head, read from the stream alone -/

/-- `replyHead`, over the bytes instead of the chunks. -/
def replyLines (line : Bytes) (h : ReplyHead) : Bytes → Option (ReplyHead × Bytes)
  | [] => none
  | c :: s =>
    if c = 10 then
      if replyLine line = [] then some (h, s) else replyLines [] (h.line (replyLine line)) s
    else replyLines (if line.length < replyLineMax then line ++ [c] else line) h s

/-- **The head** does not depend on the chunks. -/
theorem replyHead_eq {fuel : Nat} {line : Bytes} {h : ReplyHead} {cs : List Bytes}
    (hfuel : cs.flatten.length < fuel) :
    (replyHead fuel line h cs).map (fun r => (r.1, r.2.flatten)) =
      replyLines line h cs.flatten := by
  induction fuel generalizing line h cs with
  | zero => omega
  | succ fuel ih =>
    rw [replyHead]
    cases hr : recv 1 cs with
    | none =>
      rw [recv_eq_none.mp hr]
      rfl
    | some r =>
      obtain ⟨b, cs'⟩ := r
      obtain ⟨hne, hle, hsplit⟩ := recv_spec one_pos hr
      obtain ⟨c, rfl⟩ : ∃ c, b = [c] :=
        List.length_eq_one_iff.mp (le_antisymm hle (List.length_pos_iff.mpr hne))
      have hlen : cs'.flatten.length < fuel := by
        rw [← hsplit, List.length_append, List.length_singleton] at hfuel
        omega
      rw [← hsplit, List.singleton_append, replyLines]
      simp only [Option.bind_eq_bind, Option.bind_some, List.head?_cons]
      split
      · split
        · rfl
        · exact ih hlen
      · exact ih hlen

variable {line l s : Bytes} {h : ReplyHead}

/-- The bytes of a line are gathered, as long as there is room. -/
theorem replyLines_append (hl : 10 ∉ l) (hlen : (line ++ l).length ≤ replyLineMax) :
    replyLines line h (l ++ s) = replyLines (line ++ l) h s := by
  induction l generalizing line with
  | nil => rw [List.append_nil, List.nil_append]
  | cons c l ih =>
    have hc : c ≠ 10 := fun hc => hl (hc ▸ List.mem_cons_self)
    have hroom : line.length < replyLineMax := by
      rw [List.length_append, List.length_cons] at hlen
      omega
    rw [List.cons_append, replyLines, if_neg hc, if_pos hroom,
      ih (fun h => hl (List.mem_cons_of_mem c h)) (by simpa using hlen), List.append_assoc,
      List.singleton_append]

/-- What the bytes so far decide, later bytes do not change. -/
theorem replyLines_mono {h' : ReplyHead} {r t : Bytes} (hs : replyLines line h s = some (h', r)) :
    replyLines line h (s ++ t) = some (h', r ++ t) := by
  induction s generalizing line h with
  | nil => cases hs
  | cons c s ih =>
    rw [List.cons_append, replyLines]
    rw [replyLines] at hs
    split at hs
    · next hc =>
      rw [if_pos hc]
      split at hs
      · next hempty =>
        obtain ⟨rfl, rfl⟩ := Prod.mk.inj (Option.some.inj hs)
        rw [if_pos hempty]
      · next hempty =>
        rw [if_neg hempty]
        exact ih hs
    · next hc =>
      rw [if_neg hc]
      exact ih hs

/-- A line that the tool reads as it is. -/
def ReplyLine (l : Bytes) : Prop := IsLine l ∧ 0 ∉ l ∧ l.length < replyLineMax

theorem cString_eq_self (h : 0 ∉ l) : cString l = l := by
  rw [cString, List.takeWhile_eq_self_iff]
  intro c hc
  rw [bne_iff_ne]
  rintro rfl
  exact h hc

/-- **A head** is read line by line, up to the empty one. -/
theorem replyLines_headBytes {ls : List Bytes} (hls : ∀ l ∈ ls, ReplyLine l) :
    replyLines [] h (ClientRequest.headBytes ls ++ s) = some (ls.foldl ReplyHead.line h, s) := by
  induction ls generalizing h with
  | nil =>
    show replyLines [] h (13 :: 10 :: s) = _
    rfl
  | cons l ls ih =>
    obtain ⟨⟨hne, -, h10⟩, h0, hlen⟩ := hls l List.mem_cons_self
    have h10' : 10 ∉ l ++ [13] := by
      rw [List.mem_append, List.mem_singleton]
      rintro (h | h)
      · exact h10 h
      · cases h
    have hlen' : ([] ++ (l ++ [13])).length ≤ replyLineMax := by
      rw [List.nil_append, List.length_append, List.length_singleton]
      exact hlen
    have hline : replyLine (l ++ [13]) = l := by
      rw [replyLine, List.getLast?_append, if_pos (by rfl), List.dropLast_concat, cString_eq_self h0]
    rw [headBytes_cons, List.append_assoc, List.cons_append, List.cons_append, List.foldl_cons,
      ← List.singleton_append (l := 10 :: _), ← List.append_assoc, replyLines_append h10' hlen',
      List.nil_append, replyLines, if_pos rfl, hline, if_neg hne,
      ih fun l' hl' => hls l' (List.mem_cons_of_mem l hl')]

/-- A head that is cut is no head. -/
theorem replyLines_take {ls : List Bytes} (hls : ∀ l ∈ ls, ReplyLine l) {n : Nat}
    (hn : n < (ClientRequest.headBytes ls).length) :
    replyLines [] h ((ClientRequest.headBytes ls).take n) = none := by
  rw [Option.eq_none_iff_forall_not_mem]
  rintro ⟨h', r⟩ hr
  have hmono := replyLines_mono (t := (ClientRequest.headBytes ls).drop n) hr
  have hwhole := replyLines_headBytes (s := []) (h := h) hls
  rw [List.take_append_drop] at hmono
  rw [List.append_nil, hmono] at hwhole
  have hrest := List.append_eq_nil_iff.mp (Prod.mk.inj (Option.some.inj hwhole)).2
  have := List.drop_eq_nil_iff.mp hrest.2
  omega

/-! ## The head the server writes -/

/-- Digits are read up to the blank behind them. -/
theorem takeWhile_isDigit_toString (n : Nat) {t : Bytes}
    (ht : ∀ c, t.head? = some c → isDigit c = false) :
    (cstr (toString n) ++ t).takeWhile isDigit = cstr (toString n) := by
  rw [List.takeWhile_append_of_pos fun c hc => isDigit_of_mem_toString hc]
  cases t with
  | nil => rw [List.takeWhile_nil, List.append_nil]
  | cons c t =>
    rw [List.takeWhile_cons_of_neg (by rw [ht c rfl]; decide), List.append_nil]

theorem decimal_toString (n : Nat) : decimal (cstr (toString n)) = n := by
  rw [cstr_toString_nat, decimal_toDigits]

/-- A number starts with neither a blank nor a sign. -/
theorem exists_cons_toString (n : Nat) : ∃ c t, cstr (toString n) = c :: t ∧
    isSpace c = false ∧ c ≠ 45 ∧ c ≠ 43 := by
  obtain ⟨c, t, hs⟩ := List.exists_cons_of_ne_nil (toString_nat_ne_nil n)
  exact ⟨c, t, hs, isDigit_class c (isDigit_of_mem_toString (n := n) (hs ▸ List.mem_cons_self))⟩

theorem strtoll_toString {n : Nat} (hn : n < 2 ^ 63) {t : Bytes}
    (ht : ∀ c, t.head? = some c → isDigit c = false) :
    strtoll (cstr (toString n) ++ t) = n := by
  obtain ⟨c, u, hs, hspace, hminus, hplus⟩ := exists_cons_toString n
  have hdrop : (cstr (toString n) ++ t).dropWhile isSpace = c :: (u ++ t) := by
    rw [hs, List.cons_append, List.dropWhile_cons_of_neg (by rw [hspace]; decide)]
  have hdigits : (c :: (u ++ t)).takeWhile isDigit = cstr (toString n) := by
    rw [← List.cons_append, ← hs, takeWhile_isDigit_toString n ht]
  unfold strtoll
  rw [hdrop]
  split
  rename_i negative t' hmatch
  split at hmatch
  · next heq => exact absurd (List.cons.inj heq).1 hminus
  · next heq => exact absurd (List.cons.inj heq).1 hplus
  · obtain ⟨rfl, rfl⟩ := Prod.mk.inj hmatch
    rw [hdigits, decimal_toString]
    have hle : (n : Int) ≤ 2 ^ 63 - 1 := by
      have : (2 : Int) ^ 63 - 1 = 9223372036854775807 := by decide
      omega
    simp only [Bool.false_eq_true, if_false, min_eq_right hle]

theorem strtoullPrefix_toString {n : Nat} (hn : n < 2 ^ 64) :
    strtoullPrefix (32 :: cstr (toString n)) = n := by
  obtain ⟨c, u, hs, hspace, hminus, hplus⟩ := exists_cons_toString n
  have hdrop : (32 :: cstr (toString n)).dropWhile isSpace = c :: u := by
    rw [List.dropWhile_cons_of_pos (by decide), hs,
      List.dropWhile_cons_of_neg (by rw [hspace]; decide)]
  have hdigits : (c :: u).takeWhile isDigit = cstr (toString n) := by
    rw [← hs]
    have := takeWhile_isDigit_toString n (t := []) (by rintro c ⟨⟩)
    rwa [List.append_nil] at this
  unfold strtoullPrefix
  rw [hdrop]
  split
  rename_i negative t' hmatch
  split at hmatch
  · next heq => exact absurd (List.cons.inj heq).1 hminus
  · next heq => exact absurd (List.cons.inj heq).1 hplus
  · obtain ⟨rfl, rfl⟩ := Prod.mk.inj hmatch
    rw [hdigits, decimal_toString, if_neg (by omega)]
    simp

theorem statusText_line (status : Nat) :
    (∀ c ∈ statusText status, 32 ≤ c) ∧ (statusText status).length ≤ 21 := by
  unfold statusText
  split <;> exact ⟨by decide +kernel, by decide +kernel⟩

variable (res : HttpResponse) (keepAlive : Bool)

/-- **The four lines** are read as they are. -/
theorem replyLine_responseLines : ∀ l ∈ responseLines res keepAlive, ReplyLine l := by
  have hdigit : ∀ n : Nat, ∀ c ∈ cstr (toString n), (32 : UInt8) ≤ c := by
    intro n c hc
    have h := isDigit_of_mem_toString hc
    rw [isDigit, Bool.and_eq_true, decide_eq_true_eq] at h
    exact le_trans (by decide) h.1
  have hstatus : (cstr (toString res.status)).length ≤ 10 :=
    length_toString_le (by decide) (res.status_lt.trans (by decide))
  have hbody : (cstr (toString res.body.length)).length ≤ 20 :=
    length_toString_le (by decide) (res.body_lt.trans (by decide))
  have htype := res.contentType_length
  have htext := (statusText_line res.status).2
  -- a line of printable bytes that fits is read as one line
  have hsafe : ∀ l : Bytes, (∀ c ∈ l, (32 : UInt8) ≤ c) → l ≠ [] → l.length < replyLineMax →
      ReplyLine l := by
    intro l hl hne hlen
    have hmem : ∀ c < (32 : UInt8), c ∉ l := fun c hc h => absurd (hl c h) (not_le.mpr hc)
    exact ⟨⟨hne, hmem 13 (by decide), hmem 10 (by decide)⟩, hmem 0 (by decide), hlen⟩
  have hname : ∀ l ∈ [cstr "HTTP/1.1 ", cstr "Content-Type: ", cstr "Content-Length: "],
      ∀ c ∈ l, (32 : UInt8) ≤ c := by
    decide +kernel
  intro l hl
  simp only [responseLines, List.mem_cons, List.not_mem_nil, or_false] at hl
  -- the status, the type, the length and whether the connection is kept
  rcases hl with rfl | rfl | rfl | rfl
  · refine hsafe _ ?_ (by simp [cstr]) ?_
    · intro c hc
      rw [List.mem_append, List.mem_append, List.mem_cons] at hc
      rcases hc with hc | hc | rfl | hc
      · exact hname _ (by simp) c hc
      · exact hdigit _ c hc
      · exact le_rfl
      · exact (statusText_line res.status).1 c hc
    · rw [List.length_append, List.length_append, List.length_cons,
        show (cstr "HTTP/1.1 ").length = 9 from rfl, replyLineMax]
      omega
  · refine hsafe _ ?_ (by simp [cstr]) ?_
    · intro c hc
      rcases List.mem_append.mp hc with hc | hc
      · exact hname _ (by simp) c hc
      · exact res.contentType_line c hc
    · rw [List.length_append, show (cstr "Content-Type: ").length = 14 from rfl, replyLineMax]
      omega
  · refine hsafe _ ?_ (by simp [cstr]) ?_
    · intro c hc
      rcases List.mem_append.mp hc with hc | hc
      · exact hname _ (by simp) c hc
      · exact hdigit _ c hc
    · rw [List.length_append, show (cstr "Content-Length: ").length = 16 from rfl, replyLineMax]
      omega
  · refine hsafe _ ?_ (by simp [cstr]) ?_ <;> cases keepAlive <;> decide +kernel

/-- `head` has 512 bytes, so that nothing of it is cut. -/
theorem length_responseHead_lt : (responseHead res keepAlive).length < 512 := by
  have hstatus : (cstr (toString res.status)).length ≤ 10 :=
    length_toString_le (by decide) (res.status_lt.trans (by decide))
  have hbody : (cstr (toString res.body.length)).length ≤ 20 :=
    length_toString_le (by decide) (res.body_lt.trans (by decide))
  have htype := res.contentType_length
  have htext := (statusText_line res.status).2
  have hkeep : (if keepAlive then cstr "keep-alive" else cstr "close").length ≤ 10 := by
    cases keepAlive <;> decide
  simp only [responseHead, responseLines, ClientRequest.headBytes, List.flatMap_cons,
    List.flatMap_nil, List.length_append, List.length_cons, List.length_nil,
    show (cstr "HTTP/1.1 ").length = 9 from rfl, show (cstr "Content-Type: ").length = 14 from rfl,
    show (cstr "Content-Length: ").length = 16 from rfl,
    show (cstr "Connection: ").length = 12 from rfl]
  omega

/-- What the four lines say. -/
theorem foldl_responseLines :
    (responseLines res keepAlive).foldl ReplyHead.line {} = ⟨res.status, res.body.length⟩ := by
  have h1 : ReplyHead.line {} (cstr "HTTP/1.1 " ++ (cstr (toString res.status) ++
      32 :: statusText res.status)) = ⟨res.status, 0⟩ := by
    have hdrop : (cstr "HTTP/1.1 " ++ (cstr (toString res.status) ++
        32 :: statusText res.status)).drop 9 =
        cstr (toString res.status) ++ 32 :: statusText res.status := List.drop_left' rfl
    rw [ReplyHead.line, if_pos (by simp [cstr]), hdrop,
      strtoll_toString (res.status_lt.trans (by decide))]
    rintro c hc
    obtain rfl := Option.some.inj hc
    decide
  have h2 : ∀ h, ReplyHead.line h (cstr "Content-Type: " ++ res.contentType) = h := by
    intro h
    rw [ReplyHead.line, if_neg (by simp [cstr]), if_neg]
    -- the texts differ before the colon
    intro heq
    rw [strncasecmpEq, strcasecmpEq, beq_iff_eq] at heq
    have := congrArg (fun s => s.take 9) heq
    revert this
    simp [cstr, toLower]
  have h3 : ∀ h : ReplyHead, h.line (cstr "Content-Length: " ++ cstr (toString res.body.length)) =
      { h with contentLength := res.body.length } := by
    intro h
    have hdrop : (cstr "Content-Length: " ++ cstr (toString res.body.length)).drop 15 =
        32 :: cstr (toString res.body.length) := by simp [cstr]
    have hname : (cstr "Content-Length: " ++ cstr (toString res.body.length)).take 15 =
        cstr "Content-Length:" := by simp [cstr]
    rw [ReplyHead.line, if_neg (by simp [cstr]), strncasecmpEq, hname, if_pos (by decide), hdrop,
      strtoullPrefix_toString res.body_lt]
  have h4 : ∀ h : ReplyHead,
      h.line (cstr "Connection: " ++ if keepAlive then cstr "keep-alive" else cstr "close") = h := by
    intro h
    rw [ReplyHead.line, if_neg (by simp [cstr]), if_neg (by cases keepAlive <;> decide)]
  simp only [responseLines, List.foldl_cons, List.foldl_nil, h1, h2, h3, h4]

/-- A head that is cut is no answer. -/
theorem readReply_cut {n : Nat} {cs : List Bytes}
    (hcs : cs.flatten = (writeResponse res keepAlive).take n)
    (hn : n < (responseHead res keepAlive).length) : readReply cs = none := by
  have hlines := replyLine_responseLines res keepAlive
  unfold readReply
  generalize hfuel : cs.flatten.length + 1 = fuel
  have hhead : (replyHead fuel [] {} cs).map (fun r => (r.1, r.2.flatten)) =
      replyLines [] {} cs.flatten := replyHead_eq (by omega)
  rw [hcs, writeResponse, List.take_append_of_le_length hn.le, responseHead,
    replyLines_take hlines hn] at hhead
  rw [Option.map_eq_none_iff.mp hhead]
  rfl

/-- After the head there is as much of the body as arrives. -/
theorem readReply_head {body : Bytes} {cs : List Bytes}
    (hcs : cs.flatten = responseHead res keepAlive ++ body)
    (hle : body.length ≤ res.body.length) :
    readReply cs = some ((res.status : Int), body) := by
  have hlines := replyLine_responseLines res keepAlive
  unfold readReply
  generalize hfuel : cs.flatten.length + 1 = fuel
  have hhead : (replyHead fuel [] {} cs).map (fun r => (r.1, r.2.flatten)) =
      replyLines [] {} cs.flatten := replyHead_eq (by omega)
  have hlen : cs.flatten.length = (responseHead res keepAlive).length + body.length := by
    rw [hcs, List.length_append]
  rw [hcs, responseHead, replyLines_headBytes hlines, foldl_responseLines,
    Option.map_eq_some_iff] at hhead
  obtain ⟨⟨h, cs'⟩, hread, heq⟩ := hhead
  obtain ⟨rfl, hrest⟩ := Prod.mk.inj heq
  rw [hread]
  show (if 0 < res.body.length then some ((res.status : Int), replyBody res.body.length cs')
    else _) = _
  split
  · rw [replyBody_eq, hrest, List.take_of_length_le hle]
  · show some ((res.status : Int), readAll _ 65536 [] cs') = _
    rw [readAll_eq (by decide) (by decide) (by rw [hrest]; omega), hrest, List.nil_append]

/-- **An answer that is cut** anywhere is read as nothing when the cut is in its head. After it
the status is there, and of the body what has arrived; nothing tells the two apart. -/
theorem readReply_take {n : Nat} {cs : List Bytes}
    (hcs : cs.flatten = (writeResponse res keepAlive).take n) :
    readReply cs = if n < (responseHead res keepAlive).length then none
      else some ((res.status : Int), res.body.take (n - (responseHead res keepAlive).length)) := by
  split
  · next hn => exact readReply_cut res keepAlive hcs hn
  · next hn =>
    refine readReply_head res keepAlive ?_ (List.length_take_le' ..)
    rw [hcs, writeResponse, List.take_append, List.take_of_length_le (not_lt.mp hn)]

def smallResponse : HttpResponse where
  status := 200
  body := cstr "abc"
  status_lt := by decide
  body_lt := by decide
  contentType_length := by decide
  contentType_line := by decide +kernel

/-- An answer without its last byte is read as a shorter one. -/
theorem readReply_smallResponse :
    readReply [(writeResponse smallResponse false).dropLast] = some (200, cstr "ab") := by
  have hcs : [(writeResponse smallResponse false).dropLast].flatten =
      (writeResponse smallResponse false).take ((writeResponse smallResponse false).length - 1) := by
    rw [List.flatten_singleton, List.dropLast_eq_take]
  exact (readReply_take smallResponse false hcs).trans (by decide +kernel)

end EpsilonDB
