import EpsilonDB.Api.Authenticate
import EpsilonDB.Httpd.Replies

/-!
# A call of a tool (`epsilonbkup_http.c`, `httpd/epsilon_http.c`)

A tool opens a connection, prints one request with its credentials in two headers, asks for the
connection to be closed, and reads one answer. Both directions arrive in chunks.

- `ToolCall`: what `http_request_raw` prints. `ToolCall.Sendable`: what the server takes of it.
- `trim_headerLine`: a value loses the blanks at its ends.
- `ToolCall.received`: the request as a handler sees it.
- `answered`: what the server writes to a connection.
- `delivered_iff`: when the tool gets the handler's answer, however the bytes are cut.
- `credentials_received_iff`: when the server gets the user and the password that were given.
-/

namespace EpsilonDB

open Chunked

/-! ## What the tool writes -/

/-- The arguments of `http_request_raw` and the settings it reads; no host stands for the admin
socket, and an empty body for a null pointer too. -/
structure ToolCall where
  method : CString
  path : CString
  body : Bytes
  host : Option CString
  port : Nat
  user : CString
  password : CString

namespace ToolCall

variable (c : ToolCall)

/-- The text of the head. -/
def head : Bytes :=
  c.method ++ 32 :: (c.path ++ (cstr " HTTP/1.1\r\n" ++
    (cstr "Host: " ++
      (c.host.getD (cstr "local") ++ 58 :: (cstr (toString c.port) ++ cstr "\r\n"))) ++
    (cstr "Authorization: Bearer " ++ (c.user ++ cstr "\r\n")) ++
    (cstr "X-Epsilon-Password: " ++ (c.password ++ cstr "\r\n")) ++
    (cstr "Content-Length: " ++ (cstr (toString c.body.length) ++ cstr "\r\n")) ++
    cstr "Connection: close\r\n" ++ cstr "\r\n"))

/-- What is sent. -/
def bytes : Bytes := c.head ++ c.body

/-- The same as a list of headers. -/
def asRequest : ClientRequest where
  method := c.method
  target := c.path
  headers := [(cstr "Host", c.host.getD (cstr "local") ++ 58 :: cstr (toString c.port)),
    (cstr "Authorization", cstr "Bearer " ++ c.user),
    (cstr "X-Epsilon-Password", c.password),
    (cstr "Content-Length", cstr (toString c.body.length)),
    (cstr "Connection", cstr "close")]
  body := c.body

theorem head_eq : c.head = c.asRequest.head := by
  simp [head, asRequest, ClientRequest.head, ClientRequest.headBytes, ClientRequest.lines,
    ClientRequest.requestLine, ClientRequest.headerLine, cstr]

/-- The calls that fit the parser: one word for the method and the path each, and texts of one
line for the rest. -/
structure Sendable : Prop where
  method_ne : c.method ≠ []
  method_word : ∀ b ∈ c.method, isSpace b = false ∧ b ≠ 0
  method_length : c.method.length < 16
  path_ne : c.path ≠ []
  path_word : ∀ b ∈ c.path, isSpace b = false ∧ b ≠ 0
  path_length : c.asRequest.path.length < 1024
  query_length : c.asRequest.query.length < 2048
  line : ∀ b ∈ c.host.getD [] ++ c.user ++ c.password, b ≠ 0 ∧ b ≠ 10 ∧ b ≠ 13
  head_length : c.head.length ≤ maxHeaderBytes
  body_length : c.body.length ≤ maxBodyBytes

end ToolCall

/-! ## Values between blanks -/

/-- White space that a value loses at its end. -/
def endBlank (b : UInt8) : Bool := b == 32 || b == 9 || b == 13

/-- What `trim` does at the end of a value. -/
def trimEnd (s : Bytes) : Bytes := ((s.reverse).dropWhile endBlank).reverse

theorem trim_eq (s : Bytes) : trim s = trimEnd (s.dropWhile fun b => b == 32 || b == 9) := rfl

theorem trimEnd_append_cr (s : Bytes) : trimEnd (s ++ [13]) = trimEnd s := by
  rw [trimEnd, List.reverse_append]
  rfl

/-- Text that ends in no blank stays, whatever blanks follow it. -/
theorem trimEnd_append_of_ne {s t : Bytes} (hs : s ≠ []) (hlast : s.getLast?.any endBlank = false) :
    trimEnd (s ++ t) = s ++ trimEnd t := by
  obtain ⟨u, b, rfl⟩ := List.eq_nil_or_concat s |>.resolve_left hs
  have hb : endBlank b = false := by simpa using hlast
  rw [trimEnd, trimEnd, List.reverse_append, List.dropWhile_append]
  split
  · next hempty =>
    have hnil : t.reverse.dropWhile endBlank = [] := List.isEmpty_iff.mp hempty
    simp [hnil, hb]
  · rw [List.reverse_append, List.reverse_reverse]

/-- **A header value** loses the blanks at its ends, and nothing else. -/
theorem trim_headerLine (v : Bytes) : trim (32 :: (v ++ [13])) = trim v := by
  rw [trim_eq, trim_eq, List.dropWhile_cons_of_pos (by decide), List.dropWhile_append]
  split
  · next hempty =>
    rw [List.isEmpty_iff.mp hempty]
    rfl
  · exact trimEnd_append_cr _

/-! ## What the server reads -/

/-- A header line that is read as a name and a value. -/
def HeaderText (h : Bytes × Bytes) : Prop :=
  trim h.1 = h.1 ∧ h.1.head?.any (fun b => b != 13) = true ∧ 58 ∉ h.1

theorem headerLoop_trimmed {hs : List (Bytes × Bytes)} (hhs : ∀ h ∈ hs, HeaderText h) {n : Nat}
    (hn : n + hs.length ≤ maxHeaders) :
    headerLoop n ((hs.map ClientRequest.headerLine).map (· ++ [13])) =
      some (hs.map fun h => (h.1, trim h.2)) := by
  induction hs generalizing n with
  | nil => rfl
  | cons h hs ih =>
    obtain ⟨name, value⟩ := h
    obtain ⟨hname, hhead, hcolon⟩ := hhs _ List.mem_cons_self
    dsimp only at hname hhead hcolon
    have hline : ClientRequest.headerLine (name, value) ++ [13] =
        name ++ 58 :: (32 :: (value ++ [13])) := by
      simp [ClientRequest.headerLine]
    have hstart : ¬ (name ++ 58 :: (32 :: (value ++ [13])) = [] ∨
        (name ++ 58 :: (32 :: (value ++ [13]))).head? = some 13) := by
      cases name with
      | nil => cases hhead
      | cons b name =>
        rintro (h | h)
        · cases h
        · obtain rfl := Option.some.inj h
          cases hhead
    rw [List.length_cons] at hn
    rw [List.map_cons, List.map_cons, hline, headerLoop, if_neg hstart, if_neg (by omega),
      splitAt?_append hcolon]
    simp only [hname, trim_headerLine]
    rw [ih (fun h' hh' => hhs h' (List.mem_cons_of_mem _ hh')) (by omega)]
    rfl

namespace ToolCall

variable {c : ToolCall}

/-- The headers as the server keeps them. -/
def headers (c : ToolCall) : List (Bytes × Bytes) :=
  c.asRequest.headers.map fun h => (h.1, trim h.2)

/-- The request as a handler sees it. -/
def received (c : ToolCall) : HttpRequest :=
  ⟨c.method, c.asRequest.path, c.asRequest.query, c.headers, c.body⟩

theorem headerText_headers : ∀ h ∈ c.asRequest.headers, HeaderText h := by
  have hnames : ∀ name ∈ [cstr "Host", cstr "Authorization", cstr "X-Epsilon-Password",
      cstr "Content-Length", cstr "Connection"], trim name = name ∧
      name.head?.any (fun b => b != 13) = true ∧ 58 ∉ name := by
    decide +kernel
  intro h hh
  refine hnames h.1 ?_
  simp only [asRequest, List.mem_cons, List.not_mem_nil, or_false] at hh
  rcases hh with rfl | rfl | rfl | rfl | rfl <;> simp

/-- A number has no blanks at its ends. -/
theorem trim_toString (n : Nat) : trim (cstr (toString n)) = cstr (toString n) := by
  have hdigit : ∀ b, isDigit b = true → (b == 32 || b == 9) = false ∧ endBlank b = false :=
    forall_byte (by decide +kernel)
  have hhead : (cstr (toString n)).dropWhile (fun b => b == 32 || b == 9) = cstr (toString n) :=
    dropWhile_eq_self fun b hb => (hdigit b (isDigit_of_mem_toString (List.mem_of_mem_head? hb))).1
  have hback : (cstr (toString n)).reverse.dropWhile endBlank = (cstr (toString n)).reverse :=
    dropWhile_eq_self fun b hb =>
      (hdigit b (isDigit_of_mem_toString (List.mem_reverse.mp (List.mem_of_mem_head? hb)))).2
  rw [trim_eq, hhead, trimEnd, hback, List.reverse_reverse]

theorem headers_eq : c.headers = [
    (cstr "Host", trim (c.host.getD (cstr "local") ++ 58 :: cstr (toString c.port))),
    (cstr "Authorization", trim (cstr "Bearer " ++ c.user)),
    (cstr "X-Epsilon-Password", trim c.password),
    (cstr "Content-Length", cstr (toString c.body.length)),
    (cstr "Connection", cstr "close")] := by
  simp only [headers, asRequest, List.map_cons, List.map_nil, trim_toString,
    show trim (cstr "close") = cstr "close" by decide]

/-- The five names are different. -/
theorem header_names : ∀ a ∈ [cstr "Host", cstr "Authorization", cstr "X-Epsilon-Password",
    cstr "Content-Length", cstr "Connection"], ∀ b ∈ [cstr "Host", cstr "Authorization",
    cstr "X-Epsilon-Password", cstr "Content-Length", cstr "Connection",
    cstr "Transfer-Encoding"], strcasecmpEq a b = decide (a = b) := by
  decide +kernel

variable (hc : c.Sendable)

include hc

/-- No byte of the head ends a line or the text, but the ends of its lines. -/
theorem line_bytes : ∀ l ∈ c.asRequest.lines, l ≠ [] ∧ ∀ b ∈ l, b ≠ 0 ∧ b ≠ 10 ∧ b ≠ 13 := by
  have hword : ∀ b, isSpace b = false ∧ b ≠ 0 → b ≠ 0 ∧ b ≠ 10 ∧ b ≠ 13 := by
    rintro b ⟨hspace, h0⟩
    refine ⟨h0, ?_, ?_⟩ <;> rintro rfl <;> exact absurd hspace (by decide)
  have hdigit : ∀ n : Nat, ∀ b ∈ cstr (toString n), b ≠ 0 ∧ b ≠ 10 ∧ b ≠ 13 := by
    intro n b hb
    have h : ∀ b, isDigit b = true → b ≠ 0 ∧ b ≠ 10 ∧ b ≠ 13 := forall_byte (by decide +kernel)
    exact h b (isDigit_of_mem_toString hb)
  -- the words of the protocol, the digits and the user's texts have no byte that ends a line
  have hliteral : ∀ l ∈ [cstr " HTTP/1.1", cstr "Host", cstr "Authorization",
      cstr "X-Epsilon-Password", cstr "Content-Length", cstr "Connection", cstr "Bearer ",
      cstr "local", cstr "close", [58, 32], [58], [32]], ∀ b ∈ l, b ≠ 0 ∧ b ≠ 10 ∧ b ≠ 13 := by
    decide +kernel
  have hhost : ∀ b ∈ c.host.getD (cstr "local"), b ≠ 0 ∧ b ≠ 10 ∧ b ≠ 13 := by
    intro b hb
    cases hh : c.host with
    | none =>
      rw [hh] at hb
      exact hliteral _ (by simp) b hb
    | some host =>
      rw [hh] at hb
      exact hc.line b (by rw [hh]; exact List.mem_append_left _ (List.mem_append_left _ hb))
  have hjoin : ∀ {l t : Bytes}, (∀ b ∈ l, b ≠ 0 ∧ b ≠ 10 ∧ b ≠ 13) →
      (∀ b ∈ t, b ≠ 0 ∧ b ≠ 10 ∧ b ≠ 13) → ∀ b ∈ l ++ t, b ≠ 0 ∧ b ≠ 10 ∧ b ≠ 13 :=
    fun hl ht b hb => (List.mem_append.mp hb).elim (hl b) (ht b)
  have huser : ∀ b ∈ c.user, b ≠ 0 ∧ b ≠ 10 ∧ b ≠ 13 := fun b hb =>
    hc.line b (List.mem_append_left _ (List.mem_append_right _ hb))
  have hpassword : ∀ b ∈ c.password, b ≠ 0 ∧ b ≠ 10 ∧ b ≠ 13 := fun b hb =>
    hc.line b (List.mem_append_right _ hb)
  have hheader : ∀ {name value : Bytes}, (∀ b ∈ name, b ≠ 0 ∧ b ≠ 10 ∧ b ≠ 13) →
      (∀ b ∈ value, b ≠ 0 ∧ b ≠ 10 ∧ b ≠ 13) →
      ClientRequest.headerLine (name, value) ≠ [] ∧
        ∀ b ∈ ClientRequest.headerLine (name, value), b ≠ 0 ∧ b ≠ 10 ∧ b ≠ 13 :=
    fun hname hvalue => ⟨by simp [ClientRequest.headerLine],
      hjoin hname (hjoin (hliteral [58, 32] (by simp)) hvalue)⟩
  intro l hl
  simp only [ClientRequest.lines, asRequest, List.map_cons, List.map_nil, List.mem_cons,
    List.not_mem_nil, or_false] at hl
  rcases hl with rfl | rfl | rfl | rfl | rfl | rfl
  · refine ⟨by simp [ClientRequest.requestLine], ?_⟩
    exact hjoin (fun b hb => hword b (hc.method_word b hb)) (hjoin (hliteral [32] (by simp))
      (hjoin (fun b hb => hword b (hc.path_word b hb)) (hliteral _ (by simp))))
  · exact hheader (hliteral _ (by simp)) (hjoin hhost (hjoin (hliteral [58] (by simp)) (hdigit _)))
  · exact hheader (hliteral _ (by simp)) (hjoin (hliteral _ (by simp)) huser)
  · exact hheader (hliteral _ (by simp)) hpassword
  · exact hheader (hliteral _ (by simp)) (hdigit _)
  · exact hheader (hliteral _ (by simp)) (hliteral _ (by simp))

theorem isLine_lines : ∀ l ∈ c.asRequest.lines, IsLine l := fun l hl =>
  ⟨(line_bytes hc l hl).1, fun h => ((line_bytes hc l hl).2 _ h).2.2 rfl,
    fun h => ((line_bytes hc l hl).2 _ h).2.1 rfl⟩

theorem cString_head : cString c.head.dropLast = c.head.dropLast := by
  refine cString_eq_self fun h0 => ?_
  have hmem := List.dropLast_subset _ h0
  rw [head_eq, ClientRequest.head, ClientRequest.headBytes, List.mem_append,
    List.mem_flatMap] at hmem
  rcases hmem with ⟨l, hl, hmem⟩ | hmem
  · rcases List.mem_append.mp hmem with hmem | hmem
    · exact ((line_bytes hc l hl).2 0 hmem).1 rfl
    · revert hmem
      decide
  · revert hmem
    decide

theorem path_length_lt : c.path.length < 3072 := by
  have hsplit := congrArg List.length (List.takeWhile_append_dropWhile (p := (· != 63)) (l := c.path))
  have hpath : (c.path.takeWhile (· != 63)).length < 1024 := hc.path_length
  have hquery : ((c.path.dropWhile (· != 63)).drop 1).length < 2048 := hc.query_length
  rw [List.length_drop] at hquery
  rw [List.length_append] at hsplit
  omega

/-- **The head of a call** is read back, its values without the blanks at their ends. -/
theorem parseHead_head : parseHead c.head =
    some ⟨c.method, c.asRequest.path, c.asRequest.query, c.headers, c.body.length⟩ := by
  have hlines : cLines (cString c.head.dropLast) = (c.asRequest.requestLine ++ [13]) ::
      (c.asRequest.headers.map ClientRequest.headerLine).map (· ++ [13]) := by
    rw [cString_head hc, head_eq, ClientRequest.head, cLines_dropLast_headBytes (isLine_lines hc),
      ClientRequest.lines, List.map_cons]
  -- the request line: the method, the target and the version, with blanks between them
  have hmethod : scanWord 15 (c.asRequest.requestLine ++ [13]) =
      some (c.method, 32 :: (c.path ++ 32 :: (cstr "HTTP/1.1" ++ [13]))) := by
    have hline : c.asRequest.requestLine ++ [13] =
        c.method ++ 32 :: (c.path ++ 32 :: (cstr "HTTP/1.1" ++ [13])) := by
      simp [ClientRequest.requestLine, asRequest, cstr]
    rw [hline, scanWord_append hc.method_ne (fun b hb => (hc.method_word b hb).1) (by decide)
      (Nat.le_of_lt_succ hc.method_length)]
  have htarget : scanWord 3071 (32 :: (c.path ++ 32 :: (cstr "HTTP/1.1" ++ [13]))) =
      some (c.path, 32 :: (cstr "HTTP/1.1" ++ [13])) := by
    rw [scanWord_space (by decide), scanWord_append hc.path_ne
      (fun b hb => (hc.path_word b hb).1) (by decide) (Nat.le_of_lt_succ (path_length_lt hc))]
  -- then the headers, of which two say how long the body is
  have hheaders : headerLoop 0 ((c.asRequest.headers.map ClientRequest.headerLine).map (· ++ [13])) =
      some c.headers := headerLoop_trimmed headerText_headers (show 0 + 5 ≤ maxHeaders by decide)
  have htransfer : (edbHttpHeader c.headers (cstr "Transfer-Encoding")).isSome = false := by
    rw [headers_eq]
    simp [edbHttpHeader, header_names, cstr]
  have hlength : contentLength c.headers = some c.body.length := by
    have hdigits : (cstr (toString c.body.length)).any (fun b => !isDigit b) = false := by
      rw [List.any_eq_false]
      intro b hb
      rw [isDigit_of_mem_toString hb]
      decide
    have hfind : edbHttpHeader c.headers (cstr "Content-Length") =
        some (cstr (toString c.body.length)) := by
      rw [headers_eq]
      simp [edbHttpHeader, header_names, cstr]
    have hone : (c.headers.filter fun h => strcasecmpEq h.1 (cstr "Content-Length")).length = 1 := by
      rw [headers_eq]
      simp [header_names, cstr]
    rw [contentLength, hfind]
    simp only [hone, lt_irrefl, if_false, toString_nat_ne_nil, hdigits, Bool.false_eq_true,
      decimal_toString, if_neg (not_lt.mpr hc.body_length)]
  unfold parseHead
  simp only [hlines, List.head?_cons, List.tail_cons, Option.bind_eq_bind, Option.bind_some,
    hmethod, htarget, splitAt?_target, hheaders, hlength, htransfer, Bool.false_eq_true, if_false]
  show some (⟨_, snprintf 1024 c.asRequest.path, snprintf 2048 c.asRequest.query, _, _⟩ : Head) = _
  rw [snprintf_of_lt hc.path_length, snprintf_of_lt hc.query_length]

/-- **The stream of a call** starts with it, and with nothing else. -/
theorem firstMessage_bytes : ∃ m, firstMessage c.bytes = some m ∧ m.request c.bytes = c.received ∧
    m.total = c.bytes.length ∧ m.head.bodyLen = c.body.length := by
  have hbytes : c.bytes = ClientRequest.headBytes c.asRequest.lines ++ c.body := by
    rw [bytes, head_eq, ClientRequest.head]
  have hhead : c.head = ClientRequest.headBytes c.asRequest.lines := by
    rw [head_eq, ClientRequest.head]
  have hparse := parseHead_head hc
  have hmax := hc.head_length
  rw [hhead] at hparse hmax
  refine ⟨⟨⟨c.method, c.asRequest.path, c.asRequest.query, c.headers, c.body.length⟩,
    (ClientRequest.headBytes c.asRequest.lines).length⟩, ?_, ?_, ?_, rfl⟩
  · refine firstMessage_eq_some.mpr ⟨?_, hmax, ?_, ?_⟩
    · rw [hbytes]
      exact (headEnd_headBytes (isLine_lines hc) (List.cons_ne_nil _ _) _).1
    · rw [hbytes, List.take_left]
      exact hparse
    · rw [hbytes, List.length_append]
      exact le_rfl
  · show (⟨_, _, _, _, _⟩ : HttpRequest) = _
    rw [hbytes, List.drop_left, List.take_length]
    rfl
  · rw [hbytes, List.length_append]
    rfl

omit hc in
/-- The connection is closed after the request. -/
theorem keepAlive_received (handler : HttpRequest → Bool) :
    keepAlive handler c.received = false := by
  have hfind : edbHttpHeader c.received.headers (cstr "Connection") = some (cstr "close") := by
    show edbHttpHeader c.headers _ = _
    rw [headers_eq]
    simp [edbHttpHeader, header_names, cstr]
  rw [keepAlive, hfind]
  exact Bool.and_false _

omit hc in
/-- The body can be read into the buffer that the head was parsed in. -/
def BodyFits (c : ToolCall) : Prop :=
  c.body = [] ∨ c.bytes.length + minRoom ≤ reserveCap 0 (c.bytes.length + 1) + 1

theorem bodiesFit_iff (handler : HttpRequest → Bool) :
    BodiesFit handler 0 c.bytes ↔ c.BodyFits := by
  obtain ⟨m, hm, hrequest, htotal, hlen⟩ := firstMessage_bytes hc
  have hfits : m.BodyFits 0 ↔ c.BodyFits := by
    rw [Message.BodyFits, Message.capAfterLeast, hlen, htotal, List.length_eq_zero_iff, BodyFits]
  constructor
  · intro h
    exact hfits.mp (h 0 c.bytes m .here hm)
  · intro h cap' s' m' hb hm'
    cases hb with
    | here =>
      obtain rfl := Option.some.inj (hm.symm.trans hm')
      exact hfits.mpr h
    | next hm₁ hkeep _ =>
      obtain rfl := Option.some.inj (hm.symm.trans hm₁)
      rw [hrequest, keepAlive_received] at hkeep
      cases hkeep

theorem headsUnambiguous (handler : HttpRequest → Bool) : HeadsUnambiguous handler 0 c.bytes := by
  obtain ⟨m, hm, hrequest, -, -⟩ := firstMessage_bytes hc
  intro cap' s' hb
  cases hb with
  | here =>
    rw [bytes, head_eq, ClientRequest.head]
    exact unambiguousHead_headBytes (isLine_lines hc) (List.cons_ne_nil _ _) _ _
  | next hm₁ hkeep _ =>
    obtain rfl := Option.some.inj (hm.symm.trans hm₁)
    rw [hrequest, keepAlive_received] at hkeep
    cases hkeep

theorem readStream_bytes (handler : HttpRequest → Bool) (fuel : Nat) :
    readStream handler (fuel + 1) c.bytes = ⟨[c.received], .closed⟩ := by
  obtain ⟨m, hm, hrequest, -, -⟩ := firstMessage_bytes hc
  rw [readStream, hm]
  simp only [hrequest, keepAlive_received, Bool.false_eq_true, if_false]

end ToolCall

/-! ## The exchange -/

/-- What a worker writes to the connection: one answer for each request. Nothing is known of it
when a header is read through a stale pointer. -/
def answered (handler : HttpRequest → HttpResponse × Bool) (cs : List Bytes) : Option Bytes :=
  let keep := fun r => (handler r).2
  match serve keep cs with
  | ⟨requests, .closed⟩ =>
    some (requests.flatMap fun r => writeResponse (handler r).1 (keepAlive keep r))
  | ⟨_, .undefined⟩ => none

/-- The tool gets the answer the handler gave to its request, however both directions are cut. -/
def ToolCall.Delivered (c : ToolCall) (handler : HttpRequest → HttpResponse × Bool) : Prop :=
  ∀ up : List Bytes, up.flatten = c.bytes → ∃ out, answered handler up = some out ∧
    ∀ down : List Bytes, down.flatten = out →
      readReply down = some (((handler c.received).1.status : Int), (handler c.received).1.body)

/-- **A call** is answered to the tool by its handler, and with every way the bytes can be cut,
exactly when its body fits. -/
theorem ToolCall.delivered_iff {c : ToolCall} (hc : c.Sendable)
    (handler : HttpRequest → HttpResponse × Bool) : c.Delivered handler ↔ c.BodyFits := by
  rw [← bodiesFit_iff hc fun r => (handler r).2]
  have hheads := headsUnambiguous hc fun r => (handler r).2
  constructor
  · intro hdelivered
    by_contra hbodies
    obtain ⟨up, hup, hending⟩ := exists_serve_undefined hheads hbodies
    obtain ⟨out, hout, -⟩ := hdelivered up hup
    revert hout
    rw [answered]
    split
    · next heq =>
      rw [heq] at hending
      cases hending
    · rintro ⟨⟩
  · intro hbodies up hup
    have hserve := serve_eq_readStream hheads hbodies hup
    rw [readStream_bytes hc] at hserve
    refine ⟨writeResponse (handler c.received).1 false, ?_, ?_⟩
    · rw [answered, hserve]
      simp only [List.flatMap_cons, List.flatMap_nil, List.append_nil, keepAlive_received]
    · intro down hdown
      generalize (handler c.received).1 = res at hdown ⊢
      exact readReply_head res false hdown le_rfl

/-- A call with a body. -/
def clusterCall : ToolCall where
  method := cstr "POST"
  path := cstr "/api/admin/cluster?check=1"
  body := cstr "\x7b\"op\":\"list\"\x7d"
  host := some (cstr "10.0.0.2")
  port := 8123
  user := cstr "admin"
  password := cstr "secret"

theorem sendable_clusterCall : clusterCall.Sendable where
  method_ne := by decide
  method_word := by decide +kernel
  method_length := by decide
  path_ne := by decide
  path_word := by decide +kernel
  path_length := by decide +kernel
  query_length := by decide +kernel
  line := by decide +kernel
  head_length := by decide +kernel
  body_length := by decide +kernel

/-- A handler that answers with the body it got. -/
def echoHandler (r : HttpRequest) : HttpResponse × Bool :=
  (if h : r.body.length < 2 ^ 64 then { smallResponse with body := r.body, body_lt := h }
  else { smallResponse with status := 500, status_lt := by decide }, true)

theorem delivered_clusterCall : clusterCall.Delivered echoHandler :=
  (ToolCall.delivered_iff sendable_clusterCall echoHandler).mpr (.inr (by decide +kernel))

/-! ## The credentials -/

namespace ToolCall

variable {c : ToolCall}

/-- The name that the server takes a text for: an empty one leaves the scheme behind. -/
def bearerName (user : CString) : CString :=
  if trimEnd user = [] then cstr "Bearer" else trimEnd user

/-- A blank at the end goes, unless text follows it. -/
theorem trimEnd_blank {b : UInt8} (hb : endBlank b = true) (s : Bytes) :
    trimEnd (b :: s) = if trimEnd s = [] then [] else b :: trimEnd s := by
  have hempty : trimEnd s = [] ↔ (s.reverse.dropWhile endBlank).isEmpty = true := by
    rw [trimEnd, List.reverse_eq_nil_iff, List.isEmpty_iff]
  rw [trimEnd, List.reverse_cons, List.dropWhile_append]
  by_cases h : trimEnd s = []
  · rw [if_pos (hempty.mp h), if_pos h, List.dropWhile_cons_of_pos hb]
    rfl
  · rw [if_neg (fun he => h (hempty.mpr he)), if_neg h, List.reverse_append]
    rfl

/-- The name in a header, as `bearer_token` takes it. -/
theorem bearerValue_trim (user : CString) :
    bearerValue (trim (cstr "Bearer " ++ user)) = bearerName user := by
  have htrim : trim (cstr "Bearer " ++ user) = cstr "Bearer" ++ trimEnd (32 :: user) := by
    rw [trim_eq, show cstr "Bearer " ++ user = cstr "Bearer" ++ 32 :: user by simp [cstr],
      show (cstr "Bearer" ++ 32 :: user).dropWhile (fun b => b == 32 || b == 9) =
        cstr "Bearer" ++ 32 :: user by simp [cstr]]
    exact trimEnd_append_of_ne (by decide) (by decide)
  rw [htrim, trimEnd_blank (by decide), bearerName]
  split
  · decide
  · rw [bearerValue, if_pos (by simp [cstr])]
    simp [cstr]

/-- **The credentials** that the server looks up, when the tool gives a password. -/
theorem credentials_received {D : Type} [Doubles D] (codec : Codec D) {req : AuthRequest}
    (hreq : req.toHttpRequest = c.received) (huser : (bearerName c.user).length < 256)
    (hne : trim c.password ≠ []) (hpassword : (trim c.password).length < 1024) :
    credentials codec req = (some (bearerName c.user), some (trim c.password)) := by
  have hheaders : req.headers = c.headers := congrArg HttpRequest.headers hreq
  have hbearer : edbHttpHeader c.headers (cstr "Authorization") =
      some (trim (cstr "Bearer " ++ c.user)) := by
    rw [headers_eq]
    simp [edbHttpHeader, header_names, cstr]
  have hfind : edbHttpHeader c.headers (cstr "X-Epsilon-Password") = some (trim c.password) := by
    rw [headers_eq]
    simp [edbHttpHeader, header_names, cstr]
  have htoken : headToken req = some (bearerName c.user) := by
    rw [headToken, bearerToken, hheaders, hbearer, Option.bind_some, bearerValue_trim, fits,
      if_pos huser, Option.some_or, Option.some_or]
  have hword : headPassword req = some (trim c.password) := by
    rw [headPassword, hheaders, hfind, Option.filter_some, if_pos (decide_eq_true hne),
      Option.bind_some, fits, if_pos hpassword]
  rw [credentials, htoken, hword]
  rfl

/-- **The user and the password** that were given reach the server unless blanks are lost from
their ends. Without a user the name that is looked up is that of the scheme. -/
theorem credentials_received_iff {D : Type} [Doubles D] (codec : Codec D) {req : AuthRequest}
    (hreq : req.toHttpRequest = c.received) (huser : c.user.length < 256)
    (hne : trim c.password ≠ []) (hpassword : c.password.length < 1024) :
    credentials codec req = (some c.user, some c.password) ↔
      c.user ≠ [] ∧ trimEnd c.user = c.user ∧ trim c.password = c.password := by
  have htrimEnd : ∀ s : Bytes, (trimEnd s).length ≤ s.length := by
    intro s
    rw [trimEnd, List.length_reverse]
    exact (List.dropWhile_suffix _).length_le.trans List.length_reverse.le
  have htrim : (trim c.password).length ≤ c.password.length := by
    rw [trim_eq]
    exact (htrimEnd _).trans (List.dropWhile_suffix _).length_le
  have hname : (bearerName c.user).length < 256 := by
    rw [bearerName]
    split
    · decide
    · exact (htrimEnd _).trans_lt huser
  rw [credentials_received codec hreq hname hne (htrim.trans_lt hpassword), Prod.mk.injEq,
    Option.some.injEq, Option.some.injEq, ← and_assoc]
  refine and_congr_left' ?_
  rw [bearerName]
  constructor
  · intro h
    split at h
    · next hempty =>
      -- a user who is called as the scheme is has no blank at the end
      rw [← h] at hempty
      exact absurd hempty (by decide)
    · next hfull =>
      rw [h] at hfull
      exact ⟨hfull, h⟩
  · rintro ⟨hfull, h⟩
    rw [h, if_neg hfull]

/-- The call from above, as it comes to the server. -/
theorem credentials_clusterCall :
    credentials (tableCodec [] no_values) { clusterCall.received with peerIp := cstr "10.0.0.9" } =
      (some (cstr "admin"), some (cstr "secret")) :=
  (credentials_received_iff (c := clusterCall) _ rfl (by decide) (by decide) (by decide)).mpr
    (by decide)

end ToolCall

end EpsilonDB
