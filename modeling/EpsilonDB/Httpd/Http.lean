import EpsilonDB.Engine.Crypto
import EpsilonDB.Lib.Chunked

/-!
# The HTTP server's connection loop (`httpd/epsilon_http.c`)

A connection worker keeps one growing buffer, reads until a request is complete, hands it
to a handler and moves what is left to the front. Time and memory do not run out; the
handler that the route table selects is a parameter that says whether the connection is
kept open.

- `RecvBuf`: the bytes held, the capacity, and which allocation they are in. Growing the
  buffer is a `realloc`: pointers into the old block may not be used afterwards.
- `recvReserve`, `recvAppend`: growing the buffer, and one read into it.
- `findHead`: the end of the head, `CR LF CR LF` sought before `LF LF`.
- `parseHead`: the request line and the headers, from the bytes of the head.
- `parseRequestFull`, `connMain`: one request, and the loop of the worker. What a
  handler would read through a stale pointer is not defined, so a run ends there.
-/

namespace EpsilonDB

open Chunked

/-! ## Constants -/

/-- `EDB_HTTP_MAX_HEADER_BYTES`. -/
def maxHeaderBytes : Nat := 32 * 1024

/-- `EDB_HTTP_MAX_BODY_BYTES`. -/
def maxBodyBytes : Nat := 16 * 1024 * 1024

/-- `EDB_HTTP_MAX_HEADERS`. -/
def maxHeaders : Nat := 32

/-- The first capacity of a buffer. -/
def firstCap : Nat := 8192

/-- The room there has to be before a read. -/
def minRoom : Nat := 4096

/-- `SIZE_MAX`. -/
def sizeMax : Nat := 2 ^ 64 - 1

/-! ## The receive buffer -/

/-- `recv_buf`, with a number for the block its bytes are in. -/
structure RecvBuf where
  buf : Bytes := []
  cap : Nat := 0
  block : Nat := 0

/-- The doubling loop of `recv_reserve`; 64 doublings exceed every size. -/
def growCap : Nat → Nat → Nat → Option Nat
  | 0, _, _ => none
  | fuel + 1, need, newcap =>
    if newcap < need then
      if sizeMax / 2 < newcap then none else growCap fuel need (newcap * 2)
    else some newcap

def recvReserve (rb : RecvBuf) (need : Nat) : Option RecvBuf :=
  if need ≤ rb.cap then some rb
  else
    (growCap 64 need (if rb.cap = 0 then firstCap else rb.cap)).map fun newcap =>
      { rb with cap := newcap, block := rb.block + 1 }

/-- One read, with at least `minRoom` bytes of room; nothing at the end of the stream. -/
def recvAppend (rb : RecvBuf) (cs : List Bytes) : Option (RecvBuf × List Bytes) :=
  (if rb.cap - rb.buf.length < minRoom then recvReserve rb (rb.buf.length + minRoom)
    else some rb).bind fun rb =>
      (recv (rb.cap - rb.buf.length) cs).map fun r => ({ rb with buf := rb.buf ++ r.1 }, r.2)

/-! ## The head -/

/-- `buf_find`: where a non-empty needle occurs first. -/
def bufFind (needle : Bytes) : Bytes → Option Nat
  | [] => none
  | c :: hay =>
    if needle.isPrefixOf (c :: hay) then some 0 else (bufFind needle hay).map (· + 1)

/-- `"\r\n\r\n"`. -/
def crlfCrlf : Bytes := [13, 10, 13, 10]

/-- `"\n\n"`. -/
def lfLf : Bytes := [10, 10]

/-- `head_len`: the length of the head with its terminator, if the buffer has one. -/
def findHead (buf : Bytes) : Option Nat :=
  match bufFind crlfCrlf buf with
  | some i => some (i + 4)
  | none => (bufFind lfLf buf).map (· + 2)

/-- Reads until the head is there. `total` counts the bytes read for this request. -/
def headLoop : Nat → Nat → RecvBuf → List Bytes → Option (Nat × RecvBuf × List Bytes)
  | 0, _, _, _ => none
  | fuel + 1, total, rb, cs =>
    match findHead rb.buf with
    | some headLen => some (headLen, rb, cs)
    | none =>
      if maxHeaderBytes < total then none
      else do
        let (rb', cs') ← recvAppend rb cs
        headLoop fuel (total + (rb'.buf.length - rb.buf.length)) rb' cs'

/-- `isspace` of the C locale. -/
def isSpace (c : UInt8) : Bool := c == 32 || (9 ≤ c && c ≤ 13)

/-- `%<width>s`: white space skipped, then up to `width` other bytes. -/
def scanWord (width : Nat) (s : Bytes) : Option (Bytes × Bytes) :=
  let s := s.dropWhile isSpace
  let w := (s.takeWhile fun c => !isSpace c).take width
  if w = [] then none else some (w, s.drop w.length)

/-- The bytes before a NUL. -/
def cString (s : Bytes) : CString := s.takeWhile fun c => c != 0

/-- The lines that end in `'\n'`, without it. -/
def cLines : Bytes → List Bytes
  | [] => []
  | c :: s =>
    if c = 10 then [] :: cLines s
    else
      match cLines s with
      | [] => []
      | l :: ls => (c :: l) :: ls

/-- `strchr`: what is before and after the first `c`. -/
def splitAt? (c : UInt8) (s : Bytes) : Option (Bytes × Bytes) :=
  match s.dropWhile fun x => x != c with
  | [] => none
  | _ :: after => some (s.takeWhile fun x => x != c, after)

def trim (s : Bytes) : Bytes :=
  (((s.dropWhile fun c => c == 32 || c == 9).reverse).dropWhile fun c =>
    c == 32 || c == 9 || c == 13).reverse

/-- The header lines up to the empty one, after `n` headers; a line without a colon is
passed over. -/
def headerLoop : Nat → List Bytes → Option (List (Bytes × Bytes))
  | _, [] => some []
  | n, l :: ls =>
    if l = [] ∨ l.head? = some 13 then some []
    else if maxHeaders ≤ n then none
    else
      match splitAt? 58 l with
      | none => headerLoop n ls
      | some (name, value) => (headerLoop (n + 1) ls).map ((trim name, trim value) :: ·)

/-- `tolower` of the C locale. -/
def toLower (c : UInt8) : UInt8 := if 65 ≤ c ∧ c ≤ 90 then c + 32 else c

/-- `strcasecmp(a, b) == 0`. -/
def strcasecmpEq (a b : Bytes) : Bool := a.map toLower == b.map toLower

/-- `edb_http_header`: the value of the first header of that name. -/
def edbHttpHeader (headers : List (Bytes × Bytes)) (name : CString) : Option Bytes :=
  (headers.find? fun h => strcasecmpEq h.1 name).map Prod.snd

def isDigit (c : UInt8) : Bool := 48 ≤ c && c ≤ 57

/-- The value of a string of decimal digits. -/
def decimal (s : Bytes) : Nat := s.foldl (fun n c => n * 10 + (c.toNat - 48)) 0

/-- The body length the headers announce, or nothing when the request is refused. A value
out of the range of `strtoull` is above the maximum as well. -/
def contentLength (headers : List (Bytes × Bytes)) : Option Nat :=
  match edbHttpHeader headers (cstr "Content-Length") with
  | none => some 0
  | some cl =>
    if 1 < (headers.filter fun h => strcasecmpEq h.1 (cstr "Content-Length")).length then none
    else if cl = [] then none
    else if cl.any fun c => !isDigit c then none
    else if maxBodyBytes < decimal cl then none
    else some (decimal cl)

/-- What the bytes of a head say. -/
structure Head where
  method : CString
  path : CString
  query : CString
  headers : List (Bytes × Bytes)
  bodyLen : Nat
deriving DecidableEq

/-- The request line and the headers; the last byte of the head is overwritten by a NUL. -/
def parseHead (head : Bytes) : Option Head := do
  let lines := cLines (cString head.dropLast)
  let line ← lines.head?
  let (method, rest) ← scanWord 15 line
  let (target, _) ← scanWord 3071 rest
  let (path, query) := (splitAt? 63 target).getD (target, [])
  let headers ← headerLoop 0 lines.tail
  let bodyLen ← contentLength headers
  if (edbHttpHeader headers (cstr "Transfer-Encoding")).isSome then none
  else return ⟨method, snprintf 1024 path, snprintf 2048 query, headers, bodyLen⟩

/-! ## Requests -/

/-- `edb_http_request`, as far as a request carries it. -/
structure HttpRequest where
  method : CString
  path : CString
  query : CString
  headers : List (Bytes × Bytes)
  body : Bytes
deriving DecidableEq

/-- Reads until `need` bytes are there. -/
def bodyLoop (need : Nat) : Nat → RecvBuf → List Bytes → Option (RecvBuf × List Bytes)
  | 0, _, _ => none
  | fuel + 1, rb, cs =>
    if need ≤ rb.buf.length then some (rb, cs)
    else do
      let (rb', cs') ← recvAppend rb cs
      bodyLoop need fuel rb' cs'

/-- What `parse_request_full` leaves: the request, the block its header pointers are into,
the bytes consumed and the buffer. -/
structure ParsedRequest where
  request : HttpRequest
  headerBlock : Nat
  consumed : Nat
  rb : RecvBuf
  cs : List Bytes

/-- One request from the front of the buffer, or nothing when it is refused or the stream
ends. The header pointers are set anew after the buffer is reserved for the body, and not
when a read of the body grows it again. -/
def parseRequestFull (rb : RecvBuf) (cs : List Bytes) : Option ParsedRequest := do
  let (headLen, rb, cs) ← headLoop (cs.flatten.length + 1) 0 rb cs
  if maxHeaderBytes < headLen then none
  else
    let head ← parseHead (rb.buf.take headLen)
    let rb ← recvReserve rb (headLen + head.bodyLen + 1)
    let headerBlock := rb.block
    let (rb, cs) ← bodyLoop (headLen + head.bodyLen) (cs.flatten.length + 1) rb cs
    return {
      request := ⟨head.method, head.path, head.query, head.headers,
        (rb.buf.drop headLen).take head.bodyLen⟩
      headerBlock
      consumed := headLen + head.bodyLen
      rb
      cs }

/-! ## The worker -/

/-- How a connection ends: it is closed, or a header is read through a stale pointer. -/
inductive Ending where
  | closed
  | undefined
deriving DecidableEq

/-- The requests handed to handlers and the end of the connection. -/
structure Outcome where
  requests : List HttpRequest
  ending : Ending
deriving DecidableEq

def Outcome.cons (r : HttpRequest) (o : Outcome) : Outcome := { o with requests := r :: o.requests }

/-- `keep_alive` after a request: what the handler returned, unless the client asked for
the connection to be closed. -/
def keepAlive (handler : HttpRequest → Bool) (r : HttpRequest) : Bool :=
  handler r && !(edbHttpHeader r.headers (cstr "Connection")).any fun v =>
    strcasecmpEq v (cstr "close")

/-- The loop of `conn_main` of a running server. -/
def connMain (handler : HttpRequest → Bool) : Nat → RecvBuf → List Bytes → Outcome
  | 0, _, _ => ⟨[], .closed⟩
  | fuel + 1, rb, cs =>
    match parseRequestFull rb cs with
    | none => ⟨[], .closed⟩
    | some p =>
      if p.headerBlock ≠ p.rb.block then ⟨[], .undefined⟩
      else if keepAlive handler p.request then
        (connMain handler fuel { p.rb with buf := p.rb.buf.drop p.consumed } p.cs).cons p.request
      else ⟨[p.request], .closed⟩

/-- A connection from its start; every request takes at least one byte. -/
def serve (handler : HttpRequest → Bool) (cs : List Bytes) : Outcome :=
  connMain handler (cs.flatten.length + 1) {} cs

end EpsilonDB
