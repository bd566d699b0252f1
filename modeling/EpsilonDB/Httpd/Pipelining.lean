import EpsilonDB.Httpd.Segmentation
import Mathlib.Data.List.TakeWhile

/-!
# Pipelined requests

A client writes a list of requests one after the other, with `CR LF` line ends. Which of
them the server reads back, and in what pieces the bytes may arrive.

- `ClientRequest`: a request as the client has it, and its bytes.
- `ClientRequest.WellFormed`: within the limits of the parser, and in the form a client
  is expected to write.
- `parseHead_head`: the head is read back, unless a NUL is in its first line.
- `headEnd_head`, `unambiguousHead_head`: it ends where the client ended it.
- `FitIn`: the bodies fit, one after the other.
- `pipelined_iff`: the main result.
-/

namespace EpsilonDB

/-! ## What the client writes -/

/-- A request of a client. -/
structure ClientRequest where
  method : Bytes
  target : Bytes
  headers : List (Bytes × Bytes)
  body : Bytes

namespace ClientRequest

def requestLine (r : ClientRequest) : Bytes :=
  r.method ++ 32 :: (r.target ++ cstr " HTTP/1.1")

def headerLine (h : Bytes × Bytes) : Bytes := h.1 ++ 58 :: 32 :: h.2

def lines (r : ClientRequest) : List Bytes := r.requestLine :: r.headers.map headerLine

/-- The lines, each with its `CR LF`, and an empty one. -/
def headBytes (ls : List Bytes) : Bytes := ls.flatMap (· ++ [13, 10]) ++ [13, 10]

def head (r : ClientRequest) : Bytes := headBytes r.lines

def bytes (r : ClientRequest) : Bytes := r.head ++ r.body

def path (r : ClientRequest) : Bytes := r.target.takeWhile (· != 63)

def query (r : ClientRequest) : Bytes := (r.target.dropWhile (· != 63)).drop 1

/-- The request a handler is to get. -/
def request (r : ClientRequest) : HttpRequest := ⟨r.method, r.path, r.query, r.headers, r.body⟩

/-- No blank at either end. -/
def Unpadded (s : Bytes) : Prop := s.head? ≠ some 32 ∧ s.getLast? ≠ some 32

/-- A request with no body and no length, or with its length in one header. -/
def Length (r : ClientRequest) : Prop :=
  (r.headers.filter (strcasecmpEq ·.1 (cstr "Content-Length")) = [] ∧ r.body = []) ∨
    ∃ h, r.headers.filter (strcasecmpEq ·.1 (cstr "Content-Length")) = [h] ∧ h.2 ≠ [] ∧
      (∀ c ∈ h.2, isDigit c = true) ∧ decimal h.2 = r.body.length

/-- The requests the server is to read back. -/
structure WellFormed (handler : HttpRequest → Bool) (r : ClientRequest) : Prop where
  method_ne : r.method ≠ []
  method_space : ∀ c ∈ r.method, isSpace c = false
  target_ne : r.target ≠ []
  target_space : ∀ c ∈ r.target, isSpace c = false
  name_colon : ∀ h ∈ r.headers, 58 ∉ h.1
  control : ∀ h ∈ r.headers, ∀ c ∈ h.1 ++ h.2, 32 ≤ c ∧ c ≠ 127
  unpadded : ∀ h ∈ r.headers, Unpadded h.1 ∧ Unpadded h.2
  no_transfer : ∀ h ∈ r.headers, strcasecmpEq h.1 (cstr "Transfer-Encoding") = false
  length : r.Length
  keep : keepAlive handler r.request = true
  method_length : r.method.length < 16
  target_length : r.target.length < 3072
  path_length : r.path.length < 1024
  query_length : r.query.length < 2048
  headers_length : r.headers.length ≤ maxHeaders
  head_length : r.head.length ≤ maxHeaderBytes
  body_length : r.body.length ≤ maxBodyBytes

/-- No NUL in the first line. -/
def NulFree (r : ClientRequest) : Prop := 0 ∉ r.method ∧ 0 ∉ r.target

instance (r : ClientRequest) : Decidable r.NulFree := inferInstanceAs (Decidable (_ ∧ _))

end ClientRequest

/-! ## Where the head ends -/

/-- A line of a head: not empty and without line ends of its own. -/
def IsLine (l : Bytes) : Prop := l ≠ [] ∧ 13 ∉ l ∧ 10 ∉ l

theorem bufFind_append {c : UInt8} {l : Bytes} (h : c ∉ l) (needle t : Bytes) :
    bufFind (c :: needle) (l ++ t) = (bufFind (c :: needle) t).map (· + l.length) := by
  induction l with
  | nil => simp
  | cons x l ih =>
    have hx : c ≠ x := fun hcx => h (hcx ▸ List.mem_cons_self)
    have hl : c ∉ l := fun hl => h (List.mem_cons_of_mem x hl)
    have hpre : ¬ (c :: needle) <+: x :: (l ++ t) := fun hpre => hx (List.cons_prefix_cons.mp hpre).1
    rw [List.cons_append, bufFind, if_neg (by simpa using hpre), ih hl, Option.map_map]
    congr 1

theorem headBytes_cons (l : Bytes) (ls : List Bytes) :
    ClientRequest.headBytes (l :: ls) = l ++ 13 :: 10 :: ClientRequest.headBytes ls := by
  simp [ClientRequest.headBytes]

/-- What comes after a line of a head is another line, or the empty one. -/
theorem head?_headBytes_ne {ls : List Bytes} (hls : ∀ l ∈ ls, IsLine l) :
    (ClientRequest.headBytes ls).head? ≠ some 10 ∧
      (ls ≠ [] → (ClientRequest.headBytes ls).head? ≠ some 13) := by
  cases ls with
  | nil => exact ⟨by decide, fun h => absurd rfl h⟩
  | cons l ls =>
    obtain ⟨hne, h13, h10⟩ := hls l List.mem_cons_self
    rw [headBytes_cons]
    cases l with
    | nil => exact absurd rfl hne
    | cons x l =>
      simp only [List.cons_append, List.head?_cons, ne_eq, Option.some.injEq]
      exact ⟨fun h => h10 (h ▸ List.mem_cons_self), fun _ h => h13 (h ▸ List.mem_cons_self)⟩

theorem bufFind_crlfCrlf_step {t : Bytes} (h : t.head? ≠ some 13) :
    bufFind crlfCrlf (13 :: 10 :: t) = (bufFind crlfCrlf t).map (· + 2) := by
  cases t with
  | nil => rfl
  | cons x t =>
    have hx : (13 == x) = false := by
      rw [beq_eq_false_iff_ne]
      rintro rfl
      exact h rfl
    have h10 : (13 == (10 : UInt8)) = false := by decide
    rw [bufFind, bufFind]
    simp only [crlfCrlf, List.isPrefixOf, hx, h10, Bool.false_and, Bool.and_false,
      Bool.false_eq_true, if_false, Option.map_map]
    rfl

theorem bufFind_lfLf_step {t : Bytes} (h : t.head? ≠ some 10) :
    bufFind lfLf (10 :: t) = (bufFind lfLf t).map (· + 1) := by
  cases t with
  | nil => rfl
  | cons x t =>
    have hx : (10 == x) = false := by
      rw [beq_eq_false_iff_ne]
      rintro rfl
      exact h rfl
    rw [bufFind]
    simp only [lfLf, List.isPrefixOf, hx, Bool.false_and, Bool.and_false, Bool.false_eq_true,
      if_false]

/-- **`CR LF CR LF`** first ends at the end of the head. -/
theorem endOf_crlfCrlf_headBytes {ls : List Bytes} (hls : ∀ l ∈ ls, IsLine l) (hne : ls ≠ [])
    (rest : Bytes) :
    endOf crlfCrlf (ClientRequest.headBytes ls ++ rest) =
      some (ClientRequest.headBytes ls).length := by
  induction ls with
  | nil => exact absurd rfl hne
  | cons l ls ih =>
    obtain ⟨-, h13, -⟩ := hls l List.mem_cons_self
    have hls' : ∀ l ∈ ls, IsLine l := fun l' h => hls l' (List.mem_cons_of_mem l h)
    have hfind := bufFind_append h13 [10, 13, 10]
      (13 :: 10 :: (ClientRequest.headBytes ls ++ rest))
    rw [headBytes_cons, List.append_assoc, List.cons_append, List.cons_append, endOf]
    show (bufFind (13 :: [10, 13, 10]) _).map (· + 4) = _
    rw [hfind]
    -- after the last line the empty one follows; after another one the search goes on
    cases ls with
    | nil => simp [ClientRequest.headBytes, bufFind, List.isPrefixOf]
    | cons l' ls =>
      -- the next line does not start with a carriage return, so the match is not here
      have hhead := (head?_headBytes_ne hls').2 (List.cons_ne_nil l' ls)
      have hhead' : (ClientRequest.headBytes (l' :: ls) ++ rest).head? ≠ some 13 := by
        rwa [List.head?_append_of_ne_nil]
        rw [headBytes_cons]
        simp
      have ih' := ih hls' (List.cons_ne_nil l' ls)
      unfold endOf at ih'
      obtain ⟨i, hi, hlen⟩ := Option.map_eq_some_iff.mp ih'
      show ((bufFind crlfCrlf _).map _).map _ = _
      rw [bufFind_crlfCrlf_step hhead', hi]
      simp only [Option.map_some, List.length_append, List.length_cons, ← hlen]
      rw [show crlfCrlf.length = 4 from rfl]
      congr 1
      omega

/-- No **`LF LF`** ends within the head. -/
theorem bufFind_lfLf_headBytes {ls : List Bytes} (hls : ∀ l ∈ ls, IsLine l) :
    bufFind lfLf (ClientRequest.headBytes ls) = none := by
  induction ls with
  | nil => decide
  | cons l ls ih =>
    obtain ⟨-, -, h10⟩ := hls l List.mem_cons_self
    have hls' : ∀ l ∈ ls, IsLine l := fun l' h => hls l' (List.mem_cons_of_mem l h)
    have h10' : 10 ∉ l ++ [13] := by
      rw [List.mem_append, List.mem_singleton]
      rintro (h | h)
      · exact h10 h
      · cases h
    have hfind := bufFind_append h10' [10] (10 :: ClientRequest.headBytes ls)
    rw [List.append_assoc] at hfind
    rw [headBytes_cons]
    refine hfind.trans ?_
    show ((bufFind lfLf _).map _) = _
    rw [bufFind_lfLf_step (head?_headBytes_ne hls').1, ih hls']
    rfl

/-- **The head of a request** ends where the client ended it, whatever comes after. -/
theorem headEnd_headBytes {ls : List Bytes} (hls : ∀ l ∈ ls, IsLine l) (hne : ls ≠ [])
    (rest : Bytes) :
    headEnd (ClientRequest.headBytes ls ++ rest) = some (ClientRequest.headBytes ls).length ∧
      ∀ e, endOf lfLf (ClientRequest.headBytes ls ++ rest) = some e →
        (ClientRequest.headBytes ls).length < e := by
  have hlf : ∀ e, endOf lfLf (ClientRequest.headBytes ls ++ rest) = some e →
      (ClientRequest.headBytes ls).length < e := by
    intro e he
    by_contra hle
    have htake := endOf_take (show lfLf ≠ [] by decide) (ClientRequest.headBytes ls ++ rest)
      (ClientRequest.headBytes ls).length
    rw [List.take_left, he, endOf, bufFind_lfLf_headBytes hls, Option.filter_some, if_pos] at htake
    · cases htake
    · exact decide_eq_true (not_lt.mp hle)
  refine ⟨?_, hlf⟩
  rw [headEnd, endOf_crlfCrlf_headBytes hls hne]
  cases he : endOf lfLf (ClientRequest.headBytes ls ++ rest) with
  | none => rfl
  | some e =>
    have := hlf e he
    simp only [Option.merge]
    rw [min_eq_left (by omega)]

theorem unambiguousHead_headBytes {ls : List Bytes} (hls : ∀ l ∈ ls, IsLine l) (hne : ls ≠ [])
    (rest : Bytes) (cap : Nat) : UnambiguousHead cap (ClientRequest.headBytes ls ++ rest) := by
  intro e c he hc hlt
  rw [endOf_crlfCrlf_headBytes hls hne] at hc
  obtain rfl := Option.some.inj hc
  have := (headEnd_headBytes hls hne rest).2 e he
  omega

/-! ## What the head says -/

theorem cLines_append {l t : Bytes} (h : 10 ∉ l) : cLines (l ++ 10 :: t) = l :: cLines t := by
  induction l with
  | nil => rfl
  | cons c l ih =>
    have hc : c ≠ 10 := fun hc => h (hc ▸ List.mem_cons_self)
    rw [List.cons_append, cLines, if_neg hc, ih fun hl => h (List.mem_cons_of_mem c hl)]

theorem cLines_of_not_mem {l : Bytes} (h : 10 ∉ l) : cLines l = [] := by
  induction l with
  | nil => rfl
  | cons c l ih =>
    have hc : c ≠ 10 := fun hc => h (hc ▸ List.mem_cons_self)
    rw [cLines, if_neg hc, ih fun hl => h (List.mem_cons_of_mem c hl)]

/-- The lines of a head, each with its carriage return. -/
theorem cLines_dropLast_headBytes {ls : List Bytes} (hls : ∀ l ∈ ls, IsLine l) :
    cLines (ClientRequest.headBytes ls).dropLast = ls.map (· ++ [13]) := by
  rw [ClientRequest.headBytes, List.dropLast_append_of_ne_nil (by simp)]
  induction ls with
  | nil => decide
  | cons l ls ih =>
    obtain ⟨-, -, h10⟩ := hls l List.mem_cons_self
    have h10' : 10 ∉ l ++ [13] := by
      rw [List.mem_append, List.mem_singleton]
      rintro (h | h)
      · exact h10 h
      · cases h
    have hcons := cLines_append (t := ls.flatMap (· ++ [13, 10]) ++ [13]) h10'
    rw [List.map_cons, ← ih fun l' h => hls l' (List.mem_cons_of_mem l h)]
    refine Eq.trans ?_ hcons
    congr 1
    simp

/-- A word that is followed by a blank is read by itself. -/
theorem scanWord_append {width : Nat} {w t : Bytes} {c : UInt8} (hne : w ≠ [])
    (hw : ∀ x ∈ w, isSpace x = false) (hc : isSpace c = true) (hlen : w.length ≤ width) :
    scanWord width (w ++ c :: t) = some (w, c :: t) := by
  have hdrop : (w ++ c :: t).dropWhile isSpace = w ++ c :: t := by
    cases w with
    | nil => exact absurd rfl hne
    | cons x w =>
      rw [List.cons_append, List.dropWhile_cons_of_neg]
      rw [hw x List.mem_cons_self]
      exact Bool.false_ne_true
  have htake : (w ++ c :: t).takeWhile (fun c => !isSpace c) = w := by
    rw [List.takeWhile_append_of_pos (by simpa using hw), List.takeWhile_cons_of_neg (by simp [hc]),
      List.append_nil]
  unfold scanWord
  simp only [hdrop, htake, List.take_of_length_le hlen, if_neg hne, List.drop_left]

theorem scanWord_space {width : Nat} {c : UInt8} {s : Bytes} (hc : isSpace c = true) :
    scanWord width (c :: s) = scanWord width s := by
  unfold scanWord
  rw [List.dropWhile_cons_of_pos hc]

theorem splitAt?_append {c : UInt8} {a b : Bytes} (h : c ∉ a) :
    splitAt? c (a ++ c :: b) = some (a, b) := by
  have ha : ∀ x ∈ a, (x != c) = true := by
    intro x hx
    rw [bne_iff_ne]
    rintro rfl
    exact h hx
  unfold splitAt?
  rw [List.dropWhile_append_of_pos ha, List.takeWhile_append_of_pos ha]
  simp

/-- The split of a target, as a client sees it. -/
theorem splitAt?_target (s : Bytes) :
    (splitAt? 63 s).getD (s, []) =
      (s.takeWhile (· != 63), (s.dropWhile (· != 63)).drop 1) := by
  unfold splitAt?
  cases h : s.dropWhile (· != 63) with
  | nil =>
    have hall := List.takeWhile_append_dropWhile (p := (· != 63)) (l := s)
    rw [h, List.append_nil] at hall
    simp [hall]
  | cons x t => rfl

theorem dropWhile_eq_self {p : UInt8 → Bool} {s : Bytes} (h : ∀ c, s.head? = some c → p c = false) :
    s.dropWhile p = s := by
  cases s with
  | nil => rfl
  | cons c s =>
    rw [List.dropWhile_cons_of_neg]
    rw [h c rfl]
    exact Bool.false_ne_true

/-- Trimming leaves what has no blank at its ends, and takes the blank before a value and
the carriage return after it. -/
theorem trim_of_unpadded {s : Bytes} (hblank : ∀ c ∈ s, 32 ≤ c) (h : ClientRequest.Unpadded s) :
    trim s = s ∧ trim (32 :: (s ++ [13])) = s := by
  -- only blanks and tabs are cut off in front, and a carriage return at the end
  have hends : ∀ c ∈ s, c ≠ 32 → (c == 32 || c == 9 || c == 13) = false := by
    intro c hc hne
    have h32 := hblank c hc
    rw [Bool.or_eq_false_iff, Bool.or_eq_false_iff, beq_eq_false_iff_ne, beq_eq_false_iff_ne,
      beq_eq_false_iff_ne]
    refine ⟨⟨hne, ?_⟩, ?_⟩
    · rintro rfl
      exact absurd h32 (by decide)
    · rintro rfl
      exact absurd h32 (by decide)
  have hback : s.reverse.dropWhile (fun c => c == 32 || c == 9 || c == 13) = s.reverse := by
    refine dropWhile_eq_self fun c hc => hends c ?_ ?_
    · exact List.mem_reverse.mp (List.mem_of_mem_head? hc)
    · rintro rfl
      rw [List.head?_reverse] at hc
      exact h.2 hc
  have hfront : ∀ t : Bytes, (∀ c, t.head? = some c → c ≠ 32 ∧ c ≠ 9) →
      t.dropWhile (fun c => c == 32 || c == 9) = t := by
    intro t ht
    refine dropWhile_eq_self fun c hc => ?_
    rw [Bool.or_eq_false_iff, beq_eq_false_iff_ne, beq_eq_false_iff_ne]
    exact ht c hc
  have hhead : ∀ c, s.head? = some c → c ≠ 32 ∧ c ≠ 9 := by
    intro c hc
    refine ⟨?_, ?_⟩
    · rintro rfl
      exact h.1 hc
    · rintro rfl
      exact absurd (hblank 9 (List.mem_of_mem_head? hc)) (by decide)
  constructor
  · rw [trim, hfront s hhead, hback, List.reverse_reverse]
  · -- the line gives one blank before the value and the carriage return after it
    have hhead' : ∀ c, (s ++ [13]).head? = some c → c ≠ 32 ∧ c ≠ 9 := by
      intro c hc
      cases s with
      | nil =>
        obtain rfl := Option.some.inj hc
        decide
      | cons x s => exact hhead c hc
    rw [trim, List.dropWhile_cons_of_pos (by decide), hfront _ hhead', List.reverse_append]
    show (List.dropWhile _ (13 :: s.reverse)).reverse = s
    rw [List.dropWhile_cons_of_pos (by decide), hback, List.reverse_reverse]

namespace ClientRequest

variable {handler : HttpRequest → Bool} {r : ClientRequest} (hr : r.WellFormed handler)

include hr

/-- The header lines give back the headers. -/
theorem headerLoop_headerLine {hs : List (Bytes × Bytes)} (hhs : ∀ h ∈ hs, h ∈ r.headers) {n : Nat}
    (hn : n + hs.length ≤ maxHeaders) :
    headerLoop n ((hs.map headerLine).map (· ++ [13])) = some hs := by
  induction hs generalizing n with
  | nil => rfl
  | cons h hs ih =>
    obtain ⟨name, value⟩ := h
    have hmem := hhs _ List.mem_cons_self
    have hcolon := hr.name_colon _ hmem
    have hcontrol := hr.control _ hmem
    obtain ⟨hname, hvalue⟩ := hr.unpadded _ hmem
    have hline : headerLine (name, value) ++ [13] = name ++ 58 :: (32 :: (value ++ [13])) := by
      simp [headerLine]
    -- a header line is neither empty nor the one that ends the head
    have hstart : ¬ (headerLine (name, value) ++ [13] = [] ∨
        (headerLine (name, value) ++ [13]).head? = some 13) := by
      rw [hline]
      rintro (h | h)
      · simp at h
      · cases name with
        | nil => simp at h
        | cons x name =>
          obtain rfl := Option.some.inj h
          exact absurd (hcontrol 13 (by simp)).1 (by decide)
    have htrimName := (trim_of_unpadded
      (fun c hc => (hcontrol c (List.mem_append_left _ hc)).1) hname).1
    have htrimValue := (trim_of_unpadded
      (fun c hc => (hcontrol c (List.mem_append_right _ hc)).1) hvalue).2
    rw [List.length_cons] at hn
    rw [List.map_cons, List.map_cons, headerLoop, if_neg hstart, if_neg (by omega), hline,
      splitAt?_append hcolon]
    simp only [htrimName, htrimValue]
    rw [ih (fun h' hh' => hhs h' (List.mem_cons_of_mem _ hh')) (by omega)]
    rfl

theorem contentLength_eq : contentLength r.headers = some r.body.length := by
  have hfind := List.head?_filter (p := (strcasecmpEq ·.1 (cstr "Content-Length"))) (l := r.headers)
  unfold contentLength edbHttpHeader
  rcases hr.length with ⟨hfilter, hbody⟩ | ⟨h, hfilter, hne, hdigits, hdecimal⟩
  · rw [← hfind, hfilter, hbody]
    rfl
  · have hdig : h.2.any (fun c => !isDigit c) = false := by
      rw [List.any_eq_false]
      intro c hc
      rw [hdigits c hc]
      decide
    have hmax := hr.body_length
    rw [← hfind, hfilter]
    simp only [List.head?_cons, Option.map_some, List.length_singleton, lt_irrefl, if_false, hne,
      hdig, Bool.false_eq_true, hdecimal, if_neg (not_lt.mpr hmax)]

theorem isLine_lines : ∀ l ∈ r.lines, IsLine l := by
  have hspace : ∀ c, isSpace c = false → c ≠ 13 ∧ c ≠ 10 := by
    rintro c hc
    refine ⟨?_, ?_⟩ <;> rintro rfl <;> exact absurd hc (by decide)
  intro l hl
  rcases List.mem_cons.mp hl with rfl | hl
  · -- the request line
    have hchars : ∀ c ∈ r.requestLine, c ≠ 13 ∧ c ≠ 10 := by
      intro c hc
      simp only [requestLine, List.mem_append, List.mem_cons] at hc
      rcases hc with hc | rfl | hc | hc
      · exact hspace c (hr.method_space c hc)
      · decide
      · exact hspace c (hr.target_space c hc)
      · revert c
        decide +kernel
    refine ⟨by simp [requestLine], fun h => (hchars _ h).1 rfl, fun h => (hchars _ h).2 rfl⟩
  · -- a header line
    obtain ⟨h, hmem, rfl⟩ := List.mem_map.mp hl
    have hchars : ∀ c ∈ headerLine h, 32 ≤ c := by
      intro c hc
      simp only [headerLine, List.mem_append, List.mem_cons] at hc
      rcases hc with hc | rfl | rfl | hc
      · exact (hr.control h hmem c (List.mem_append_left _ hc)).1
      · decide
      · decide
      · exact (hr.control h hmem c (List.mem_append_right _ hc)).1
    exact ⟨by simp [headerLine], fun h => absurd (hchars _ h) (by decide),
      fun h => absurd (hchars _ h) (by decide)⟩

/-- The bytes of the head, up to the NUL that the parser puts at its end. -/
theorem cString_head (hnul : r.NulFree) : cString r.head.dropLast = r.head.dropLast := by
  refine List.takeWhile_eq_self_iff.mpr fun c hc => ?_
  rw [bne_iff_ne]
  rintro rfl
  have hmem := List.dropLast_subset _ hc
  simp only [head, headBytes, lines, List.mem_append, List.mem_flatMap, List.mem_cons,
    List.mem_map] at hmem
  rcases hmem with ⟨l, (rfl | ⟨h, hmem, rfl⟩), hl⟩ | hl
  · simp only [requestLine, List.mem_append, List.mem_cons] at hl
    rcases hl with (hl | hl | hl | hl) | hl
    · exact hnul.1 hl
    · cases hl
    · exact hnul.2 hl
    · revert hl
      decide
    · revert hl
      decide
  · simp only [headerLine, List.mem_append, List.mem_cons] at hl
    rcases hl with (hl | hl | hl | hl) | hl
    · exact absurd (hr.control h hmem 0 (List.mem_append_left _ hl)).1 (by decide)
    · cases hl
    · cases hl
    · exact absurd (hr.control h hmem 0 (List.mem_append_right _ hl)).1 (by decide)
    · revert hl
      decide
  · revert hl
    decide

/-- **The head is read back.** -/
theorem parseHead_head (hnul : r.NulFree) :
    parseHead r.head = some ⟨r.method, r.path, r.query, r.headers, r.body.length⟩ := by
  -- each step of the parser finds what the writer put in its place
  have hlines : cLines (cString r.head.dropLast) =
      (r.requestLine ++ [13]) :: (r.headers.map headerLine).map (· ++ [13]) := by
    rw [cString_head hr hnul, head, cLines_dropLast_headBytes (isLine_lines hr), lines,
      List.map_cons]
  have hmethod : scanWord 15 (r.requestLine ++ [13]) =
      some (r.method, 32 :: (r.target ++ 32 :: (cstr "HTTP/1.1" ++ [13]))) := by
    have hline : r.requestLine ++ [13] =
        r.method ++ 32 :: (r.target ++ 32 :: (cstr "HTTP/1.1" ++ [13])) := by
      simp [requestLine, cstr]
    rw [hline, scanWord_append hr.method_ne hr.method_space (by decide)
      (Nat.le_of_lt_succ hr.method_length)]
  have htarget : scanWord 3071 (32 :: (r.target ++ 32 :: (cstr "HTTP/1.1" ++ [13]))) =
      some (r.target, 32 :: (cstr "HTTP/1.1" ++ [13])) := by
    rw [scanWord_space (by decide), scanWord_append hr.target_ne hr.target_space (by decide)
      (Nat.le_of_lt_succ hr.target_length)]
  have htransfer : (edbHttpHeader r.headers (cstr "Transfer-Encoding")).isSome = false := by
    have hfind : r.headers.find? (strcasecmpEq ·.1 (cstr "Transfer-Encoding")) = none := by
      rw [List.find?_eq_none]
      intro h hh
      rw [hr.no_transfer h hh]
      exact Bool.false_ne_true
    rw [edbHttpHeader, hfind]
    rfl
  have hheaders : headerLoop 0 ((r.headers.map headerLine).map (· ++ [13])) = some r.headers :=
    headerLoop_headerLine hr (fun _ h => h) (by rw [Nat.zero_add]; exact hr.headers_length)
  unfold parseHead
  simp only [hlines, List.head?_cons, List.tail_cons, Option.bind_eq_bind, Option.bind_some,
    hmethod, htarget, splitAt?_target, hheaders, contentLength_eq hr, htransfer,
    Bool.false_eq_true, if_false]
  rw [← path, ← query, snprintf_of_lt hr.path_length, snprintf_of_lt hr.query_length]
  rfl

/-- With a NUL in its first line the head has no line at all. -/
theorem parseHead_head_of_nul (hnul : ¬ r.NulFree) : parseHead r.head = none := by
  have hmem : 0 ∈ r.requestLine := by
    unfold NulFree at hnul
    rw [not_and_or, not_not, not_not] at hnul
    simp only [requestLine, List.mem_append, List.mem_cons]
    tauto
  obtain ⟨-, -, h10⟩ := isLine_lines hr r.requestLine List.mem_cons_self
  have hhead : r.head.dropLast =
      r.requestLine ++ 13 :: 10 :: (headBytes (r.headers.map headerLine)).dropLast := by
    rw [head, lines, headBytes_cons, List.dropLast_append_of_ne_nil (List.cons_ne_nil _ _),
      List.dropLast_cons_of_ne_nil (List.cons_ne_nil _ _), List.dropLast_cons_of_ne_nil]
    simp [headBytes]
  have hcut : cString r.head.dropLast = r.requestLine.takeWhile (· != 0) := by
    rw [cString, hhead, List.takeWhile_append, if_neg]
    intro hlen
    have hself := (List.takeWhile_prefix (fun c : UInt8 => c != 0)).eq_of_length hlen
    have := List.takeWhile_eq_self_iff.mp hself 0 hmem
    exact absurd this (by decide)
  have hlines : cLines (cString r.head.dropLast) = [] := by
    rw [hcut]
    exact cLines_of_not_mem fun h => h10 (List.takeWhile_prefix _ |>.mem h)
  unfold parseHead
  rw [hlines]
  rfl

end ClientRequest

/-! ## The stream of a list of requests -/

/-- The bytes of the requests, one after the other. -/
def pipelined (rs : List ClientRequest) : Bytes := rs.flatMap ClientRequest.bytes

/-- The bodies can be read without growing the buffer once more. -/
def FitIn : Nat → List ClientRequest → Prop
  | _, [] => True
  | cap, r :: rs =>
    (r.body = [] ∨ r.bytes.length + minRoom ≤ reserveCap cap (r.bytes.length + 1) + 1) ∧
      FitIn (reserveCap cap (r.bytes.length + 1)) rs

section Stream

variable {handler : HttpRequest → Bool} {r : ClientRequest} (hr : r.WellFormed handler)

include hr

/-- The first request is read from the stream, and what is left is the stream of the others. -/
theorem firstMessage_bytes (hnul : r.NulFree) (rest : Bytes) :
    ∃ m, firstMessage (r.bytes ++ rest) = some m ∧ m.request (r.bytes ++ rest) = r.request ∧
      m.total = r.bytes.length ∧ m.head.bodyLen = r.body.length := by
  have hlines : r.lines ≠ [] := List.cons_ne_nil _ _
  have hbytes : r.bytes ++ rest = r.head ++ (r.body ++ rest) := List.append_assoc ..
  have htotal : r.head.length + r.body.length = r.bytes.length := by
    rw [ClientRequest.bytes, List.length_append]
  refine ⟨⟨⟨r.method, r.path, r.query, r.headers, r.body.length⟩, r.head.length⟩, ?_, ?_, htotal,
    rfl⟩
  · refine firstMessage_eq_some.mpr ⟨?_, hr.head_length, ?_, ?_⟩
    · rw [hbytes]
      exact (headEnd_headBytes (r.isLine_lines hr) hlines _).1
    · rw [hbytes, List.take_left]
      exact r.parseHead_head hr hnul
    · show r.head.length + r.body.length ≤ _
      rw [List.length_append]
      omega
  · show (⟨_, _, _, _, _⟩ : HttpRequest) = _
    rw [hbytes, List.drop_left, List.take_left]
    rfl

theorem firstMessage_bytes_of_nul (hnul : ¬ r.NulFree) (rest : Bytes) :
    firstMessage (r.bytes ++ rest) = none := by
  rw [Option.eq_none_iff_forall_not_mem]
  intro m hm
  obtain ⟨hend, -, hparse, -⟩ := firstMessage_eq_some.mp hm
  have hbytes : r.bytes ++ rest = r.head ++ (r.body ++ rest) := List.append_assoc ..
  rw [hbytes] at hend hparse
  have hlen : r.head.length = m.headLen := Option.some.inj
    ((headEnd_headBytes (r.isLine_lines hr) (List.cons_ne_nil _ _) _).1.symm.trans hend)
  rw [← hlen, List.take_left, r.parseHead_head_of_nul hr hnul] at hparse
  cases hparse

theorem unambiguousHead_bytes (rest : Bytes) (cap : Nat) :
    UnambiguousHead cap (r.bytes ++ rest) := by
  rw [ClientRequest.bytes, List.append_assoc]
  exact unambiguousHead_headBytes (r.isLine_lines hr) (List.cons_ne_nil _ _) _ cap

end Stream

variable {handler : HttpRequest → Bool} {rs : List ClientRequest}

theorem pipelined_cons (r : ClientRequest) (rs : List ClientRequest) :
    pipelined (r :: rs) = r.bytes ++ pipelined rs := rfl

theorem firstMessage_nil : firstMessage [] = none := by decide

/-- The stream alone gives the requests up to the first with a NUL in its first line. -/
theorem readStream_pipelined (hrs : ∀ r ∈ rs, r.WellFormed handler) {fuel : Nat}
    (hfuel : rs.length < fuel) :
    readStream handler fuel (pipelined rs) =
      ⟨(rs.takeWhile (·.NulFree)).map ClientRequest.request, .closed⟩ := by
  induction rs generalizing fuel with
  | nil => cases fuel <;> rfl
  | cons r rs ih =>
    obtain ⟨fuel, rfl⟩ := Nat.exists_eq_succ_of_ne_zero (Nat.ne_of_gt (Nat.zero_lt_of_lt hfuel))
    have hr := hrs r List.mem_cons_self
    rw [pipelined_cons, readStream]
    by_cases hnul : r.NulFree
    · obtain ⟨m, hm, hreq, htotal, -⟩ := firstMessage_bytes hr hnul (pipelined rs)
      have ih' := ih (fun r' h => hrs r' (List.mem_cons_of_mem r h)) (Nat.lt_of_succ_lt_succ hfuel)
      simp only [hm, hreq, hr.keep, if_true, htotal, List.drop_left, ih']
      rw [List.takeWhile_cons, if_pos (decide_eq_true hnul)]
      rfl
    · rw [firstMessage_bytes_of_nul hr hnul, List.takeWhile_cons, if_neg (by simpa using hnul)]
      rfl

/-- No head of the stream is ambiguous. -/
theorem headsUnambiguous_pipelined (hrs : ∀ r ∈ rs, r.WellFormed handler) (cap : Nat) :
    HeadsUnambiguous handler cap (pipelined rs) := by
  induction rs generalizing cap with
  | nil =>
    intro cap' s' hb
    cases hb with
    | here => intro e c he; cases he
    | next hm => cases firstMessage_nil.symm.trans hm
  | cons r rs ih =>
    have hr := hrs r List.mem_cons_self
    intro cap' s' hb
    rw [pipelined_cons] at hb
    cases hb with
    | here => exact unambiguousHead_bytes hr _ _
    | next hm _ hb =>
      by_cases hnul : r.NulFree
      · obtain ⟨m, hm', -, htotal, -⟩ := firstMessage_bytes hr hnul (pipelined rs)
        obtain rfl := Option.some.inj (hm'.symm.trans hm)
        rw [htotal, List.drop_left] at hb
        exact ih (fun r' h => hrs r' (List.mem_cons_of_mem r h)) _ _ _ hb
      · cases (firstMessage_bytes_of_nul hr hnul _).symm.trans hm

/-- Whether the bodies fit is read off the list. -/
theorem bodiesFit_pipelined (hrs : ∀ r ∈ rs, r.WellFormed handler) (hnul : ∀ r ∈ rs, r.NulFree)
    (cap : Nat) : BodiesFit handler cap (pipelined rs) ↔ FitIn cap rs := by
  induction rs generalizing cap with
  | nil =>
    refine iff_of_true (fun cap' s' m hb hm => ?_) trivial
    cases hb with
    | here => cases firstMessage_nil.symm.trans hm
    | next hm' => cases firstMessage_nil.symm.trans hm'
  | cons r rs ih =>
    have hr := hrs r List.mem_cons_self
    obtain ⟨m, hm, hreq, htotal, hlen⟩ :=
      firstMessage_bytes hr (hnul r List.mem_cons_self) (pipelined rs)
    have hdrop : (pipelined (r :: rs)).drop m.total = pipelined rs := by
      rw [pipelined_cons, htotal, List.drop_left]
    have hkeep : keepAlive handler (m.request (pipelined (r :: rs))) = true := by
      rw [pipelined_cons, hreq]
      exact hr.keep
    have hcap : m.capAfterLeast cap = reserveCap cap (r.bytes.length + 1) := by
      rw [Message.capAfterLeast, htotal]
    have hfits : m.BodyFits cap ↔
        r.body = [] ∨ r.bytes.length + minRoom ≤ reserveCap cap (r.bytes.length + 1) + 1 := by
      rw [Message.BodyFits, hlen, htotal, hcap, List.length_eq_zero_iff]
    have ih' := ih (fun r' h => hrs r' (List.mem_cons_of_mem r h))
      (fun r' h => hnul r' (List.mem_cons_of_mem r h)) (reserveCap cap (r.bytes.length + 1))
    rw [FitIn, ← hfits, ← ih']
    -- the first body on its own, and the others with the room that the first one leaves
    constructor
    · intro h
      refine ⟨h cap _ m .here hm, ?_⟩
      have := h.next hm hkeep
      rwa [hcap, hdrop] at this
    · rintro ⟨hfit, hrest⟩ cap' s' m' hb hm'
      cases hb with
      | here =>
        obtain rfl := Option.some.inj (hm.symm.trans hm')
        exact hfit
      | next hm'' _ hb =>
        obtain rfl := Option.some.inj (hm.symm.trans hm'')
        rw [hcap, hdrop] at hb
        exact hrest _ _ _ hb hm'

theorem length_le_pipelined (rs : List ClientRequest) : rs.length ≤ (pipelined rs).length := by
  induction rs with
  | nil => exact le_rfl
  | cons r rs ih =>
    rw [pipelined_cons, List.length_append, List.length_cons]
    have hpos : 0 < r.bytes.length := by
      simp only [ClientRequest.bytes, ClientRequest.head, ClientRequest.headBytes,
        List.length_append, List.length_cons]
      omega
    omega

/-- The requests are read back as they were written, and then the connection is closed. -/
def DeliveredExactly (handler : HttpRequest → Bool) (rs : List ClientRequest) : Prop :=
  ∀ cs : List Bytes, cs.flatten = pipelined rs →
    serve handler cs = ⟨rs.map ClientRequest.request, .closed⟩

/-- A body that does not fit is not read back in some of the ways to cut the stream. -/
theorem fitIn_of_deliveredExactly (hrs : ∀ r ∈ rs, r.WellFormed handler)
    (h : DeliveredExactly handler rs) : (∀ r ∈ rs, r.NulFree) ∧ FitIn 0 rs := by
  have hheads := headsUnambiguous_pipelined hrs 0
  have hnul : ∀ r ∈ rs, r.NulFree := by
    obtain ⟨cs, hcs, hread⟩ := exists_serve_eq_readStream hheads
    rw [h cs hcs, readStream_pipelined hrs (Nat.lt_succ_of_le (length_le_pipelined rs))] at hread
    have hlen := congrArg List.length (Outcome.mk.inj hread).1
    rw [List.length_map, List.length_map] at hlen
    have hself := (List.takeWhile_prefix (fun r : ClientRequest => decide r.NulFree)).eq_of_length
      hlen.symm
    exact fun r hmem => of_decide_eq_true (List.takeWhile_eq_self_iff.mp hself r hmem)
  refine ⟨hnul, ?_⟩
  by_contra hfit
  rw [← bodiesFit_pipelined hrs hnul] at hfit
  obtain ⟨cs, hcs, hundefined⟩ := exists_serve_undefined hheads hfit
  rw [h cs hcs] at hundefined
  cases hundefined

/-- **Pipelined requests** are read back exactly, whatever the chunks are, if and only if no
first line has a NUL and every body fits. -/
theorem pipelined_iff (hrs : ∀ r ∈ rs, r.WellFormed handler) :
    DeliveredExactly handler rs ↔ (∀ r ∈ rs, r.NulFree) ∧ FitIn 0 rs := by
  refine ⟨fitIn_of_deliveredExactly hrs, ?_⟩
  rintro ⟨hnul, hfit⟩ cs hcs
  have hall : rs.takeWhile (·.NulFree) = rs :=
    List.takeWhile_eq_self_iff.mpr fun r hmem => decide_eq_true (hnul r hmem)
  rw [serve_eq_readStream (headsUnambiguous_pipelined hrs 0)
    ((bodiesFit_pipelined hrs hnul 0).mpr hfit) hcs,
    readStream_pipelined hrs (Nat.lt_succ_of_le (length_le_pipelined rs)), hall]

/-- A request without headers or a body. -/
def getRequest : ClientRequest where
  method := cstr "GET"
  target := cstr "/a?b"
  headers := []
  body := []

theorem wellFormed_getRequest : getRequest.WellFormed fun _ => true where
  method_ne := by decide
  method_space := by decide +kernel
  target_ne := by decide
  target_space := by decide +kernel
  name_colon := by decide +kernel
  control := by decide
  unpadded := fun _ h => absurd h List.not_mem_nil
  no_transfer := by decide
  length := .inl ⟨rfl, rfl⟩
  keep := by decide
  method_length := by decide
  target_length := by decide
  path_length := by decide
  query_length := by decide
  headers_length := by decide
  head_length := by decide
  body_length := by decide

/-- One with both. -/
def echoRequest : ClientRequest where
  method := cstr "POST"
  target := cstr "/echo"
  headers := [(cstr "Accept", cstr "*/*"), (cstr "Content-Length", cstr "5")]
  body := cstr "GET /"

theorem wellFormed_echoRequest : echoRequest.WellFormed fun _ => true where
  method_ne := by decide
  method_space := by decide +kernel
  target_ne := by decide
  target_space := by decide +kernel
  name_colon := by decide +kernel
  control := by decide +kernel
  unpadded := by
    unfold ClientRequest.Unpadded
    decide
  no_transfer := by decide
  length := .inr ⟨(cstr "Content-Length", cstr "5"), rfl, by decide, by decide +kernel, by decide⟩
  keep := by decide
  method_length := by decide
  target_length := by decide
  path_length := by decide
  query_length := by decide
  headers_length := by decide
  head_length := by decide
  body_length := by decide

/-- Three requests, the middle one with a body that begins like a request. -/
theorem deliveredExactly_three :
    DeliveredExactly (fun _ => true) [getRequest, echoRequest, getRequest] := by
  have hwf : ∀ r ∈ [getRequest, echoRequest, getRequest], r.WellFormed fun _ => true := by
    simp [wellFormed_getRequest, wellFormed_echoRequest]
  refine (pipelined_iff hwf).mpr ⟨by decide, .inl rfl, .inr ?_, .inl rfl, trivial⟩
  decide +kernel

/-- A request whose body does not fit into the first buffer with room for a read. -/
def postRequest : ClientRequest where
  method := cstr "POST"
  target := cstr "/a"
  headers := [(cstr "Content-Length", cstr "5000")]
  body := List.replicate 5000 98

theorem wellFormed_postRequest : postRequest.WellFormed fun _ => true where
  method_ne := by decide
  method_space := by decide +kernel
  target_ne := by decide
  target_space := by decide +kernel
  name_colon := by decide +kernel
  control := by decide +kernel
  unpadded := by
    unfold ClientRequest.Unpadded
    decide
  no_transfer := by decide
  length := by
    refine .inr ⟨(cstr "Content-Length", cstr "5000"), rfl, by decide, by decide +kernel, ?_⟩
    rw [postRequest, List.length_replicate]
    decide
  keep := by decide
  method_length := by decide
  target_length := by decide
  path_length := by decide
  query_length := by decide
  headers_length := by decide
  head_length := by decide
  body_length := by
    rw [postRequest, List.length_replicate]
    decide

/-- It is not read back however the bytes are cut. -/
theorem not_deliveredExactly : ¬ ∀ (handler : HttpRequest → Bool) (rs : List ClientRequest),
    (∀ r ∈ rs, r.WellFormed handler) → DeliveredExactly handler rs := by
  intro h
  have hwf : ∀ r ∈ [postRequest], r.WellFormed fun _ => true := by
    simpa using wellFormed_postRequest
  obtain ⟨-, hfit, -⟩ := fitIn_of_deliveredExactly hwf (h _ _ hwf)
  have hlen : postRequest.bytes.length = 5042 := by
    have hhead : postRequest.head.length = 42 := by decide
    rw [ClientRequest.bytes, List.length_append, hhead, postRequest, List.length_replicate]
  rw [hlen] at hfit
  rcases hfit with hbody | hfit
  · exact absurd (congrArg List.length hbody) (by rw [postRequest, List.length_replicate]; decide)
  · revert hfit
    decide

end EpsilonDB
