import EpsilonDB.Engine.CString
import Mathlib.Tactic.Tauto

/-!
# JSON paths (`json_path_for_key`)

The key of a filter names a member of a document by its dot-separated segments. Its SQLite
path quotes each of them: `$."a"."b"`.

- `filterKeyValid`: the keys a filter may have.
- `jsonPathForKey`: the path; `jsonPathStores`: the bytes the loop writes, one after the
  other, into a buffer of `pathCapacity` bytes.
- `readPath`: the labels of a path, as SQLite's `jsonLookupStep` walks it.
- `PathSound`: the writes stay in the buffer, and the path stands for its key alone.
- `pathSound_iff`: they do iff the key has more plain bytes than dots.
-/

namespace EpsilonDB

/-! ## Keys -/

/-- The loop of `filter_key_valid`; `segment`: the segment has a byte already. -/
def keySegmentsValid : Bool → CString → Bool
  | segment, [] => segment
  | segment, c :: key =>
    if c = 46 then
      if segment then keySegmentsValid false key else false
    else if c < 32 then false
    else keySegmentsValid true key

def filterKeyValid (key : CString) : Bool :=
  if key = [] ∨ 512 < key.length ∨ key.head? = some 46 ∨ key.getLast? = some 46 then false
  else keySegmentsValid false key

/-! ## Paths -/

/-- `length * 2 + 4`, the bytes of the buffer. -/
def pathCapacity (key : CString) : Nat := key.length * 2 + 4

/-- A quote or a backslash gets a backslash before it. -/
def escapeByte (c : UInt8) : List UInt8 :=
  if c = 34 ∨ c = 92 then [92, c] else [c]

/-- `."segment"`. -/
def pathSegment (segment : CString) : CString :=
  [46, 34] ++ segment.flatMap escapeByte ++ [34]

/-- The loop goes from dot to dot. -/
def pathText (key : CString) : CString :=
  36 :: (key.splitOn 46).flatMap pathSegment

/-- What is stored at `path[0]`, `path[1]`, ...: the path and its terminator. -/
def jsonPathStores (key : CString) : List UInt8 := pathText key ++ [0]

/-- NULL when the size of the buffer overflows. -/
def jsonPathForKey (key : CString) : Option CString :=
  if key.length > (2 ^ 64 - 1 - 4) / 2 then none else some (pathText key)

/-! ## Reading a path -/

mutual

/-- The steps of a path. The code writes no other kind than quoted labels. -/
def readSteps : CString → Option (List CString)
  | [] => some []
  | [_] => none
  | c :: d :: rest => if c = 46 ∧ d = 34 then readLabel false [] rest else none

/-- A label ends at its first quote that is not `escaped` by a backslash. -/
def readLabel : Bool → CString → CString → Option (List CString)
  | _, _, [] => none
  | true, label, c :: rest =>
    if c = 34 ∨ c = 92 then readLabel false (label ++ [c]) rest else none
  | false, label, c :: rest =>
    if c = 34 then (readSteps rest).map (label :: ·)
    else if c = 92 then readLabel true label rest
    else readLabel false (label ++ [c]) rest

end

/-- The labels that lead from the root to the element of the path. -/
def readPath : CString → Option (List CString)
  | [] => none
  | c :: rest => if c = 36 then readSteps rest else none

/-- An escaped byte is read back. -/
theorem readLabel_escapeByte (label : CString) (c : UInt8) (rest : CString) :
    readLabel false label (escapeByte c ++ rest) = readLabel false (label ++ [c]) rest := by
  unfold escapeByte
  split
  · next hc =>
    show readLabel false label (92 :: c :: rest) = _
    rw [readLabel, if_neg (by decide), if_pos rfl, readLabel, if_pos hc]
  · next hc =>
    obtain ⟨hquote, hbackslash⟩ := not_or.mp hc
    show readLabel false label (c :: rest) = _
    rw [readLabel, if_neg hquote, if_neg hbackslash]

theorem readLabel_segment (segment label rest : CString) :
    readLabel false label (segment.flatMap escapeByte ++ 34 :: rest) =
      (readSteps rest).map ((label ++ segment) :: ·) := by
  induction segment generalizing label with
  | nil =>
    rw [List.flatMap_nil, List.nil_append, List.append_nil, readLabel, if_pos rfl]
  | cons c segment ih =>
    rw [List.flatMap_cons, List.append_assoc, readLabel_escapeByte, ih, List.append_assoc,
      List.singleton_append]

theorem readSteps_segments (segments : List CString) :
    readSteps (segments.flatMap pathSegment) = some segments := by
  induction segments with
  | nil => rfl
  | cons segment segments ih =>
    have hstep : (segment :: segments).flatMap pathSegment =
        46 :: 34 :: (segment.flatMap escapeByte ++ 34 :: segments.flatMap pathSegment) := by
      simp [pathSegment]
    rw [hstep, readSteps, if_pos ⟨rfl, rfl⟩, readLabel_segment, ih]
    rfl

/-- **A path is read as the segments of its key.** -/
theorem readPath_pathText (key : CString) : readPath (pathText key) = some (key.splitOn 46) := by
  rw [pathText, readPath, if_pos rfl, readSteps_segments]

/-- The segments make up the key. -/
theorem pathText_injective : Function.Injective pathText := by
  intro key key' h
  have hread : some (key.splitOn 46) = some (key'.splitOn 46) := by
    rw [← readPath_pathText, ← readPath_pathText, h]
  have hsegments := Option.some.inj hread
  calc key = [46].intercalate (key.splitOn 46) := (List.intercalate_splitOn 46).symm
    _ = [46].intercalate (key'.splitOn 46) := by rw [hsegments]
    _ = key' := List.intercalate_splitOn 46

/-! ## The buffer -/

/-- The bytes that cost one byte of the path: neither delimiters nor escaped. -/
def plainBytes (key : CString) : Nat :=
  key.countP fun c => c ≠ 46 ∧ c ≠ 34 ∧ c ≠ 92

/-- A dot starts a segment, any other byte goes to the first one. -/
theorem splitOn_dot_cons (c : UInt8) (key : CString) :
    (c :: key).splitOn 46 =
      if c = 46 then [] :: key.splitOn 46 else (key.splitOn 46).modifyHead (c :: ·) := by
  rw [List.splitOn, List.splitOnP_cons_eq_if_modifyHead]
  simp [List.splitOn]

theorem length_escapeByte (c : UInt8) :
    (escapeByte c).length = if c = 34 ∨ c = 92 then 2 else 1 := by
  unfold escapeByte
  split <;> rfl

theorem length_pathSegment (segment : CString) :
    (pathSegment segment).length = (segment.flatMap escapeByte).length + 3 := by
  rw [pathSegment, List.length_append, List.length_append]
  simp only [List.length_cons, List.length_nil]
  omega

/-- A byte at the front of the first segment adds what its escape takes. -/
theorem length_segments_cons (c : UInt8) {segments : List CString} (h : segments ≠ []) :
    ((segments.modifyHead (c :: ·)).flatMap pathSegment).length =
      (escapeByte c).length + (segments.flatMap pathSegment).length := by
  cases segments with
  | nil => exact absurd rfl h
  | cons segment segments =>
    rw [List.modifyHead_cons, List.flatMap_cons, List.flatMap_cons, List.length_append,
      List.length_append, length_pathSegment, length_pathSegment, List.flatMap_cons,
      List.length_append]
    omega

theorem plainBytes_cons (c : UInt8) (key : CString) :
    plainBytes (c :: key) = plainBytes key + if c ≠ 46 ∧ c ≠ 34 ∧ c ≠ 92 then 1 else 0 := by
  simp only [plainBytes, List.countP_cons, decide_eq_true_eq]

theorem count_dot_cons (c : UInt8) (key : CString) :
    (c :: key).count 46 = key.count 46 + if c = 46 then 1 else 0 := by
  simp only [List.count_cons, beq_iff_eq]

/-- **The size of the segments**: a dot costs three bytes, an escaped byte two, any other
one. -/
theorem length_segments (key : CString) :
    ((key.splitOn 46).flatMap pathSegment).length + plainBytes key =
      2 * key.length + key.count 46 + 3 := by
  induction key with
  | nil => rfl
  | cons c key ih =>
    rw [splitOn_dot_cons, List.length_cons, count_dot_cons, plainBytes_cons]
    by_cases hdot : c = 46
    · subst hdot
      have hempty : (pathSegment []).length = 3 := rfl
      rw [if_pos rfl, if_pos rfl, if_neg (by simp), List.flatMap_cons, List.length_append,
        hempty]
      omega
    · rw [if_neg hdot, if_neg hdot, length_segments_cons c (List.splitOn_ne_nil 46 key),
        length_escapeByte]
      by_cases hquoted : c = 34 ∨ c = 92
      · rw [if_pos hquoted, if_neg (by tauto)]
        omega
      · rw [if_neg hquoted, if_pos ⟨hdot, not_or.mp hquoted⟩]
        omega

theorem length_jsonPathStores (key : CString) :
    (jsonPathStores key).length + plainBytes key = 2 * key.length + key.count 46 + 5 := by
  have h := length_segments key
  rw [jsonPathStores, pathText, List.length_append, List.length_cons, List.length_singleton]
  omega

theorem length_le_of_filterKeyValid {key : CString} (h : filterKeyValid key = true) :
    key.length ≤ 512 := by
  unfold filterKeyValid at h
  split at h
  · cases h
  · next hkey => exact not_lt.mp fun hlong => hkey (.inr (.inl hlong))

theorem jsonPathForKey_of_valid {key : CString} (h : filterKeyValid key = true) :
    jsonPathForKey key = some (pathText key) := by
  have hlength := length_le_of_filterKeyValid h
  exact if_neg (by omega)

/-- The path of a key is built inside its buffer, and addresses the segments of this key
and of no other. -/
structure PathSound (key : CString) : Prop where
  inBounds : (jsonPathStores key).length ≤ pathCapacity key
  addresses : (jsonPathForKey key).bind readPath = some (key.splitOn 46)
  distinct : ∀ key', filterKeyValid key' = true → key' ≠ key →
    jsonPathForKey key' ≠ jsonPathForKey key

/-- **Paths.** The path of a valid key is sound iff the dots of the key are fewer than its
bytes that are neither dots nor escaped; only the bounds of the buffer depend on that. -/
theorem pathSound_iff {key : CString} (h : filterKeyValid key = true) :
    PathSound key ↔ key.count 46 < plainBytes key := by
  have hstores := length_jsonPathStores key
  constructor
  · intro hsound
    have hbounds := hsound.inBounds
    rw [pathCapacity] at hbounds
    omega
  · intro hplain
    constructor
    · rw [pathCapacity]
      omega
    · rw [jsonPathForKey_of_valid h, Option.bind_some, readPath_pathText]
    · intro key' h' hne heq
      rw [jsonPathForKey_of_valid h, jsonPathForKey_of_valid h'] at heq
      exact hne (pathText_injective (Option.some.inj heq))

/-- A key of two segments, one of them a byte to escape. -/
theorem pathSound_quoted :
    filterKeyValid (cstr "a\\.bc") = true ∧
      (PathSound (cstr "a\\.bc") ↔ (cstr "a\\.bc").count 46 < plainBytes (cstr "a\\.bc")) :=
  ⟨by decide, pathSound_iff (by decide)⟩

/-- **The buffer is too small for a key of one quote**: seven bytes go into six. -/
theorem path_overflows_buffer : filterKeyValid [34] = true ∧ ¬ PathSound [34] := by
  constructor
  · decide
  · intro hsound
    exact absurd hsound.inBounds (by decide)

end EpsilonDB
