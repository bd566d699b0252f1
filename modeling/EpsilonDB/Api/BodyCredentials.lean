import EpsilonDB.Api.Sessions

/-!
# Credentials in a body

A request that names its session in the `Authorization` header may carry a document. When no
password comes with the header, the document is searched for credentials as well, and a string
it has under `authorization` takes the place of the token.

- `CarriesSession`: the header has the token of an open session.
- `BodyBlind`: whatever the body is, the groups and the success are the same.
- `bodyBlind_iff`: that is so where the body is not looked at, and nowhere else.
- `stored_document_decides`: a document that locks its own session out.
-/

namespace EpsilonDB

variable {σ D : Type} [Doubles D] (codec : Codec D) (B : Backend σ D) (now : Int)

/-- The `Authorization` header has the token of an open session. -/
def CarriesSession (req : AuthRequest) (gate : Gate) : Prop :=
  ∃ token ∈ bearerToken req,
    token ≠ [] ∧ (sessionLookup now token gate.sessions).1.isSome = true

/-- Whatever the body is, the groups and the success are the same. -/
def BodyBlind (req : AuthRequest) (s : σ) (gate : Gate) : Prop :=
  ∀ body body' : CString, (authenticate codec B now { req with body } s gate).1 =
    (authenticate codec B now { req with body := body' } s gate).1

/-- A name that does not fit `char token[65]`. -/
def stranger : CString := List.replicate 65 120

/-- `{"authorization":"xx..x"}`. -/
def strangerBody : CString :=
  cstr "\x7b\"authorization\":\"" ++ stranger ++ cstr "\"\x7d"

variable {codec B now} {req : AuthRequest} {s : σ} {gate : Gate} {token : CString}

theorem headToken_of_bearerToken (h : bearerToken req = some token) :
    headToken req = some token := by
  unfold headToken
  rw [h, Option.some_or, Option.some_or]

/-- With a token and a password in the headers the body is not read. -/
theorem credentials_of_head {password : CString} (htoken : headToken req = some token)
    (hpassword : headPassword req = some password) (body : CString) :
    credentials codec { req with body } = (some token, some password) := by
  have htoken' : headToken { req with body } = some token := htoken
  have hpassword' : headPassword { req with body } = some password := hpassword
  unfold credentials
  simp [htoken', hpassword']

theorem credentials_nil (htoken : headToken req = some token) :
    (credentials codec { req with body := [] }).1 = some token := by
  have htoken' : headToken { req with body := [] } = some token := htoken
  unfold credentials
  simp [htoken']

/-- Without a password in the headers the token of the body comes first. -/
theorem credentials_strangerBody (hpassword : headPassword req = none)
    (hreads : codec.parse strangerBody =
      some (.obj [(cstr "authorization", .str stranger)])) :
    credentials codec { req with body := strangerBody } = (some stranger, none) := by
  have hpassword' : headPassword { req with body := strangerBody } = none := hpassword
  have hbody : strangerBody ≠ [] := List.cons_ne_nil _ _
  have hauthorization : (Json.obj [(cstr "authorization", .str stranger)] : Json D).getStr
      (cstr "authorization") = some stranger := by
    simp [Json.getStr, Json.get_obj]
  have hno : (Json.obj [(cstr "authorization", .str stranger)] : Json D).getStr
      (cstr "password") = none := by
    have hkey : (cstr "password" == cstr "authorization") = false := by decide
    unfold Json.getStr
    rw [Json.get_obj, List.lookup_cons, hkey]
    rfl
  unfold credentials
  simp only [hpassword', Option.isNone_none, Bool.true_or, hbody, ne_eq, not_false_eq_true,
    decide_true, Bool.and_true, if_true, hreads, hauthorization, hno, Option.filter_none,
    Option.bind_none, Option.or_none]
  rw [if_pos (by decide)]

/-- No session has a token that does not fit. -/
theorem sessionLookup_stranger (hfits : ∀ x ∈ gate.sessions, x.token.length < 65) :
    sessionLookup now stranger gate.sessions = (none, gate.sessions) := by
  have hnone : (gate.sessions.find? fun x => x.used && x.token == stranger) = none := by
    rw [List.find?_eq_none]
    intro x hx hfound
    simp only [Bool.and_eq_true, beq_iff_eq] at hfound
    have := hfits x hx
    rw [hfound.2] at this
    exact absurd this (by decide)
  unfold sessionLookup
  rw [hnone]

/-- A name that comes without a password is refused. -/
theorem authenticate_of_no_password (huntrusted : req.trusted = false)
    (hthrottled : edbAuthThrottled now req.peerIp gate.attempts = false)
    (hcredentials : credentials codec req = (some token, none)) (hne : token ≠ [])
    (hlookup : (sessionLookup now token gate.sessions).1 = none) :
    (authenticate codec B now req s gate).1 = (0, false) := by
  have hfilter : (credentials codec req).1.filter (· ≠ []) = some token := by
    rw [hcredentials, Option.filter_some, if_pos (decide_eq_true hne)]
  have hverified : passwordVerified B s token (credentials codec req).2 = false := by
    rw [hcredentials]
    rfl
  unfold authenticate
  rw [huntrusted, hthrottled, if_neg Bool.false_ne_true, if_neg Bool.false_ne_true]
  dsimp only
  rw [hfilter]
  dsimp only
  rw [hlookup]
  dsimp only
  rw [hverified, if_neg Bool.false_ne_true]

/-- **The header decides** exactly when the body is not looked at: over the admin socket, for a
source that is locked out, and with a password beside the token. -/
theorem bodyBlind_iff (hfits : ∀ x ∈ gate.sessions, x.token.length < 65)
    (hreads : codec.parse strangerBody = some (.obj [(cstr "authorization", .str stranger)]))
    (hcarries : CarriesSession now req gate) :
    BodyBlind codec B now req s gate ↔
      req.trusted = true ∨ edbAuthThrottled now req.peerIp gate.attempts = true ∨
        (headPassword req).isSome = true := by
  obtain ⟨token, htoken, hne, hsession⟩ := hcarries
  have hhead := headToken_of_bearerToken htoken
  constructor
  · intro hblind
    by_contra hnot
    simp only [not_or, Bool.not_eq_true, Option.isSome_eq_false_iff, Option.isNone_iff_eq_none]
      at hnot
    obtain ⟨huntrusted, hthrottled, hpassword⟩ := hnot
    obtain ⟨info, hinfo⟩ := Option.isSome_iff_exists.mp hsession
    have haccepts : AcceptsSession codec now { req with body := [] } gate info :=
      ⟨huntrusted, hthrottled, token, credentials_nil hhead, hne, hinfo⟩
    have hrefused :
        (authenticate codec B now { req with body := strangerBody } s gate).1 = (0, false) :=
      authenticate_of_no_password huntrusted hthrottled
        (credentials_strangerBody hpassword hreads) (List.cons_ne_nil _ _)
        (congrArg Prod.fst (sessionLookup_stranger hfits))
    have hsame := hblind [] strangerBody
    rw [haccepts.authenticate_eq, hrefused] at hsame
    exact Bool.noConfusion (congrArg Prod.snd hsame)
  · intro h body body'
    unfold authenticate
    rcases h with htrusted | hthrottled | hpassword
    · simp only [htrusted, if_true]
    · simp only [hthrottled, if_true]
    · obtain ⟨password, hpassword⟩ := Option.isSome_iff_exists.mp hpassword
      have hcredentials : ∀ body, credentials codec { req with body } = _ :=
        credentials_of_head hhead hpassword
      rw [hcredentials body, hcredentials body']

/-! ## A document that is stored -/

/-- A document with a note on how access is granted. -/
def noteDocument : Json Int :=
  .obj [(cstr "title", .str (cstr "note")), (cstr "authorization", .str (cstr "none"))]

def noteCodec : Codec Int :=
  tableCodec [noteDocument, .obj [(cstr "authorization", .str stranger)]] (by decide +kernel)

/-- A node with a session open. -/
def noteGate : Gate where
  sessions := sessionCreate 0 ⟨cstr "admin", 1⟩ Console.exampleToken ({} : Gate).sessions

def noteRequest : AuthRequest where
  method := cstr "PUT"
  path := cstr "/data/d/p/k/1"
  query := []
  headers := [(cstr "Authorization", cstr "Bearer " ++ Console.exampleToken)]
  body := []

theorem carriesSession_noteRequest : CarriesSession 0 noteRequest noteGate :=
  ⟨Console.exampleToken, by decide +kernel, by decide +kernel, by decide +kernel⟩

/-- **A stored document decides**: with its note in the body the session is not accepted. -/
theorem stored_document_decides :
    CarriesSession 0 noteRequest noteGate ∧
      ¬ BodyBlind noteCodec (localBackend noteCodec (fun _ ks => ks) 0) 0 noteRequest
        (fun _ => ∅) noteGate := by
  refine ⟨carriesSession_noteRequest, fun hblind => ?_⟩
  have hsame := hblind [] noteDocument.text
  revert hsame
  decide +kernel

/-- Where no password is beside the token, the body is looked at. -/
theorem bodyBlind_iff_note :
    (∀ x ∈ noteGate.sessions, x.token.length < 65) ∧
      noteCodec.parse strangerBody = some (.obj [(cstr "authorization", .str stranger)]) ∧
      CarriesSession 0 noteRequest noteGate ∧
      (BodyBlind noteCodec (localBackend noteCodec (fun _ ks => ks) 0) 0 noteRequest
          (fun _ => ∅) noteGate ↔
        noteRequest.trusted = true ∨
          edbAuthThrottled 0 noteRequest.peerIp noteGate.attempts = true ∨
          (headPassword noteRequest).isSome = true) := by
  have hfits : ∀ x ∈ noteGate.sessions, x.token.length < 65 := by decide +kernel
  have hreads : noteCodec.parse strangerBody =
      some (.obj [(cstr "authorization", .str stranger)]) := by decide +kernel
  exact ⟨hfits, hreads, carriesSession_noteRequest,
    bodyBlind_iff hfits hreads carriesSession_noteRequest⟩

end EpsilonDB
