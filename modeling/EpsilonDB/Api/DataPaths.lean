import EpsilonDB.Api.Data
import EpsilonDB.Httpd.Pipelining
import EpsilonDB.Lib.Joined

/-!
# The addresses of records (`httpd/epsilon_http.c`, `api/epsilon_api.c`)

The path of a request goes through the buffers of the target, of the path, of the tokens and of
the four names. None of the copies is checked.

- `targetPath`: the path in the request line, as it was sent.
- `splitDataPath_cases`, `path_of_parseHead`: what is left of it.
- `Spells`: four names are the segments of a path.
- `FitsTarget`: nothing is cut.
- `spells_iff`: two accepted paths address what they say, and the same record only when they
  are the same but for slashes, exactly when both fit.
- `sameRecord`: two paths that are cut to one.
-/

namespace EpsilonDB

open Joined

/-- The path of the request line, before a `?`. -/
def targetPath (head : Bytes) : CString :=
  match (cLines (cString head.dropLast)).head?.bind (scanWord 15) with
  | none => []
  | some (_, rest) =>
    ((rest.dropWhile isSpace).takeWhile fun c => !isSpace c).takeWhile fun c => c != 63

/-- What is behind `"/data/"`, divided at its slashes. -/
def pathSegments (path : CString) : List CString := segments 47 (path.drop 6)

/-- The names are the segments of the path. -/
def Spells (path : CString) (names : CString × CString × CString × CString) : Prop :=
  pathSegments path = [names.1, names.2.1, names.2.2.1, names.2.2.2]

/-- There is nothing but slashes behind the first 1023 bytes, and the segments fit their
buffers. -/
def FitsTarget (path : CString) : Prop :=
  (∀ c ∈ path.drop 1023, c = 47) ∧
    List.Forall₂ (fun segment cap => segment.length < cap) (pathSegments path)
      [128, 256, 128, 512]

instance (path : CString) : Decidable (FitsTarget path) := inferInstanceAs (Decidable (_ ∧ _))

variable {s tok rest path : CString} {names : CString × CString × CString × CString}

/-! ## Tokens -/

theorem segments_dropWhile (s : CString) :
    segments 47 (s.dropWhile fun c => c == 47) = segments 47 s := by
  induction s with
  | nil => rfl
  | cons c s ih =>
    rw [List.dropWhile_cons]
    split
    · next hc =>
      rw [ih, eq_of_beq hc, segments_cons_self]
    · rfl

/-- **A token is the first segment.** -/
theorem segments_strtok (h : strtok s = some (tok, rest)) :
    segments 47 s = tok :: segments 47 rest := by
  unfold strtok at h
  dsimp only at h
  rw [← segments_dropWhile s]
  generalize ht : (s.dropWhile fun c => c == 47) = t at h ⊢
  split at h
  · cases h
  · next hne =>
    obtain ⟨htok, hrest⟩ := Prod.mk.inj (Option.some.inj h)
    have hhead : (t.head hne == 47) = false := by
      subst ht
      exact List.head_dropWhile_not _ hne
    have hplain : (47 : UInt8) ∉ t.takeWhile fun c => c != 47 := fun hmem => by
      simpa using List.mem_takeWhile_imp hmem
    have htok_ne : (t.takeWhile fun c => c != 47) ≠ [] := by
      obtain ⟨c, t', rfl⟩ := List.exists_cons_of_ne_nil hne
      rw [List.takeWhile_cons_of_pos (by simpa using hhead)]
      exact List.cons_ne_nil _ _
    rw [← htok, ← hrest]
    conv_lhs => rw [← List.takeWhile_append_dropWhile (p := fun c => c != 47) (l := t)]
    cases hdrop : t.dropWhile fun c => c != 47 with
    | nil =>
      rw [List.append_nil, segments_of_plain htok_ne hplain]
      rfl
    | cons c t' =>
      have hc := List.head_dropWhile_not (fun c : UInt8 => c != 47) (l := t)
        (by rw [hdrop]; exact List.cons_ne_nil _ _)
      simp only [hdrop, List.head_cons, bne_eq_false_iff_eq] at hc
      rw [hc, segments_append_cons, segments_of_plain htok_ne hplain]
      rfl

/-- **An accepted path** has four segments in its buffer, and the names are what fits theirs. -/
theorem splitDataPath_cases (h : splitDataPath path = some names) :
    ∃ a b c d, segments 47 ((path.drop 6).take 1023) = [a, b, c, d] ∧
      names = (a.take 127, b.take 255, c.take 127, d.take 511) := by
  obtain ⟨work, hwork, h⟩ := Option.bind_eq_some_iff.mp h
  dsimp only at h
  obtain ⟨⟨a, work₁⟩, ha, h⟩ := Option.bind_eq_some_iff.mp h
  obtain ⟨⟨b, work₂⟩, hb, h⟩ := Option.bind_eq_some_iff.mp h
  obtain ⟨⟨c, d⟩, hc, h⟩ := Option.bind_eq_some_iff.mp h
  dsimp only at h
  split at h
  · cases h
  · next hd =>
    rw [not_or] at hd
    refine ⟨a, b, c, d, ?_, (Option.some.inj h).symm⟩
    have hstrip : segments 47 (if work.getLast? = some 47 then work.dropLast else work) =
        segments 47 work := by
      split
      · next hlast =>
        conv_rhs => rw [← List.dropLast_append_getLast? 47 hlast]
        exact (segments_append_of_forall _ (by simp)).symm
      · rfl
    have hbuffer : work = (path.drop 6).take 1023 := by
      unfold dataPath at hwork
      split at hwork
      · exact (Option.some.inj hwork).symm
      · cases hwork
    rw [← hbuffer, ← hstrip, segments_strtok ha, segments_strtok hb, segments_strtok hc,
      segments_of_plain hd.1 hd.2]

/-! ## What is cut -/

/-- **The names are the segments** of a path exactly when it fits. -/
theorem spells_iff_fits {a b c d : CString}
    (h : segments 47 ((path.drop 6).take 1017) = [a, b, c, d]) :
    Spells path (a.take 127, b.take 255, c.take 127, d.take 511) ↔ FitsTarget path := by
  have hpath : (path.drop 6).take 1017 ++ path.drop 1023 = path.drop 6 := by
    have hdrop : path.drop 1023 = (path.drop 6).drop 1017 := by rw [List.drop_drop]
    rw [hdrop, List.take_append_drop]
  have hkept : ((path.drop 6).take 1017).countP (fun x => x != 47) =
      a.length + (b.length + (c.length + d.length)) := by
    rw [List.countP_eq_length_filter, ← flatten_segments, h]
    simp
  unfold Spells FitsTarget
  constructor
  · intro hspells
    have hall : (path.drop 6).countP (fun x => x != 47) =
        min 127 a.length + (min 255 b.length + (min 127 c.length + min 511 d.length)) := by
      have hflatten : (segments 47 (path.drop 6)).flatten = _ := flatten_segments (path.drop 6)
      rw [List.countP_eq_length_filter, ← hflatten, ← pathSegments, hspells]
      simp
    rw [← hpath, List.countP_append, hkept] at hall
    have htail : (path.drop 1023).countP (fun x => x != 47) = 0 := by omega
    rw [List.countP_eq_zero] at htail
    refine ⟨fun x hx => by simpa using htail x hx, ?_⟩
    rw [hspells]
    simp only [List.forall₂_cons, List.length_take, List.forall₂_nil_left_iff, and_true]
    omega
  · rintro ⟨htail, hlengths⟩
    have hsegments : pathSegments path = [a, b, c, d] := by
      rw [pathSegments, ← hpath, segments_append_of_forall _ htail, h]
    rw [hsegments] at hlengths ⊢
    simp only [List.forall₂_cons, List.forall₂_nil_left_iff, and_true] at hlengths
    obtain ⟨ha, hb, hc, hd⟩ := hlengths
    dsimp only
    rw [List.take_of_length_le (by omega), List.take_of_length_le (by omega),
      List.take_of_length_le (by omega), List.take_of_length_le (by omega)]

section

variable {head head' : Bytes} {r r' : Head} {names' : CString × CString × CString × CString}

/-- **The path of a request** is the first 1023 bytes of the one that was sent. -/
theorem path_of_parseHead (h : parseHead head = some r) :
    r.path = (targetPath head).take 1023 := by
  obtain ⟨line, hline, h⟩ := Option.bind_eq_some_iff.mp h
  obtain ⟨⟨method, rest⟩, hmethod, h⟩ := Option.bind_eq_some_iff.mp h
  dsimp only at h
  obtain ⟨⟨target, rest'⟩, htarget, h⟩ := Option.bind_eq_some_iff.mp h
  dsimp only at h
  rw [splitAt?_target] at h
  obtain ⟨headers, -, h⟩ := Option.bind_eq_some_iff.mp h
  obtain ⟨bodyLen, -, h⟩ := Option.bind_eq_some_iff.mp h
  have hpath : r.path = (target.takeWhile fun c => c != 63).take 1023 := by
    split at h
    · cases h
    · exact congrArg Head.path (Option.some.inj h).symm
  have hword : target = ((rest.dropWhile isSpace).takeWhile fun c => !isSpace c).take 3071 := by
    unfold scanWord at htarget
    dsimp only at htarget
    split at htarget
    · cases htarget
    · exact (Prod.mk.inj (Option.some.inj htarget)).1.symm
  unfold targetPath
  rw [hline, Option.bind_some, hmethod, hpath, hword, ← List.take_takeWhile, List.take_take]
  rfl

/-- What an accepted request addresses. -/
theorem spells_iff_of_accepted (hhead : parseHead head = some r)
    (hnames : splitDataPath r.path = some names) :
    Spells (targetPath head) names ↔ FitsTarget (targetPath head) := by
  obtain ⟨a, b, c, d, hsegments, rfl⟩ := splitDataPath_cases hnames
  have hbuffer : (r.path.drop 6).take 1023 = ((targetPath head).drop 6).take 1017 := by
    rw [path_of_parseHead hhead, List.drop_take, List.take_take]
    rfl
  rw [hbuffer] at hsegments
  exact spells_iff_fits hsegments

/-- **Accepted paths address one record**, the one they spell, and share it only when they are
the same but for slashes, exactly when nothing of them is cut. -/
theorem spells_iff (hhead : parseHead head = some r)
    (hnames : splitDataPath r.path = some names) (hhead' : parseHead head' = some r')
    (hnames' : splitDataPath r'.path = some names') :
    (Spells (targetPath head) names ∧ Spells (targetPath head') names' ∧
        (names = names' → pathSegments (targetPath head) = pathSegments (targetPath head'))) ↔
      FitsTarget (targetPath head) ∧ FitsTarget (targetPath head') := by
  rw [spells_iff_of_accepted hhead hnames, spells_iff_of_accepted hhead' hnames']
  constructor
  · rintro ⟨hfits, hfits', -⟩
    exact ⟨hfits, hfits'⟩
  · rintro ⟨hfits, hfits'⟩
    refine ⟨hfits, hfits', ?_⟩
    rintro rfl
    exact ((spells_iff_of_accepted hhead hnames).mpr hfits).trans
      ((spells_iff_of_accepted hhead' hnames').mpr hfits').symm

end

/-! ## Requests -/

/-- The head of a request for a path. -/
def getHead (path : CString) : Bytes :=
  cstr "GET " ++ path ++ cstr " HTTP/1.1\r\n\r\n"

/-- One path with and without a slash at its end. -/
theorem spells_note :
    Spells (targetPath (getHead (cstr "/data/d/p/k/r")))
        (cstr "d", cstr "p", cstr "k", cstr "r") ∧
      Spells (targetPath (getHead (cstr "/data/d//p/k/r/?x")))
        (cstr "d", cstr "p", cstr "k", cstr "r") ∧
      ((cstr "d", cstr "p", cstr "k", cstr "r") = (cstr "d", cstr "p", cstr "k", cstr "r") →
        pathSegments (targetPath (getHead (cstr "/data/d/p/k/r"))) =
          pathSegments (targetPath (getHead (cstr "/data/d//p/k/r/?x")))) := by
  have hhead : parseHead (getHead (cstr "/data/d/p/k/r")) =
      some ⟨cstr "GET", cstr "/data/d/p/k/r", [], [], 0⟩ := by decide +kernel
  have hhead' : parseHead (getHead (cstr "/data/d//p/k/r/?x")) =
      some ⟨cstr "GET", cstr "/data/d//p/k/r/", cstr "x", [], 0⟩ := by decide +kernel
  exact (spells_iff hhead (by decide) hhead' (by decide)).mpr (by decide +kernel)

/-- A path with a database name of 128 bytes. -/
def longPath (c : UInt8) : CString :=
  cstr "/data/" ++ List.replicate 127 97 ++ c :: cstr "/p/k/r"

/-- **Two records under one address**: the last byte of the name is cut. -/
theorem sameRecord :
    ∃ r r' names, parseHead (getHead (longPath 120)) = some r ∧
      parseHead (getHead (longPath 121)) = some r' ∧
      splitDataPath r.path = some names ∧ splitDataPath r'.path = some names ∧
      ¬ (Spells (targetPath (getHead (longPath 120))) names ∧
        Spells (targetPath (getHead (longPath 121))) names ∧
        (names = names → pathSegments (targetPath (getHead (longPath 120))) =
          pathSegments (targetPath (getHead (longPath 121))))) := by
  have hsegments : pathSegments (targetPath (getHead (longPath 120))) ≠
      pathSegments (targetPath (getHead (longPath 121))) := by decide +kernel
  exact ⟨⟨cstr "GET", longPath 120, [], [], 0⟩, ⟨cstr "GET", longPath 121, [], [], 0⟩,
    (List.replicate 127 97, cstr "p", cstr "k", cstr "r"), by decide +kernel, by decide +kernel,
    by decide +kernel, by decide +kernel, fun h => hsegments (h.2.2 rfl)⟩

end EpsilonDB
