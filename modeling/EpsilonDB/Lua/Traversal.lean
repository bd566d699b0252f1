import EpsilonDB.Lua.Values

/-!
# What a traversal visits (`lua/epsilon_lua.c`)

The loop over the members of an object asks for the entry after the key on the stack, and
`lua_tolstring` may have made another key of it.

- `Visits`: the entries that a traversal comes past, from a key to its end.
- `objectLoop_eq_doc_iff`: the members of the document are those of the entries visited.
- `Visits.nodup`, `Visits.eq_of_nextKey`: no entry is visited twice, and no two with the same
  key on the stack afterwards.
- `visits_live`: with keys that stay what they are every entry is visited; they do where they
  are texts, `visits_of_strings`.
-/

namespace EpsilonDB

namespace Lua

open Loops

variable {D : Type} [Doubles D]

/-- The entries from a key to the end of the traversal. -/
inductive Visits (floatText : D → CString) (skip : LuaValue D → Bool) (nodes : List (Node D)) :
    LuaValue D → List (Node D) → Prop where
  | done {key : LuaValue D} (h : luaNext nodes key = some none) :
      Visits floatText skip nodes key []
  | next {key : LuaValue D} {e : Node D} {es : List (Node D)}
      (h : luaNext nodes key = some (some e))
      (hrest : Visits floatText skip nodes (nextKey floatText skip e.1) es) :
      Visits floatText skip nodes key (e :: es)

/-- The member that an entry becomes. -/
def IsMember (floatText : D → CString) (convert : LuaValue D → Conversion D) (e : Node D)
    (m : CString × Json D) : Prop :=
  convert e.2 = .doc m.2 ∧ ∃ text, keyText floatText e.1 = some text ∧ m.1 = cString text

variable {floatText : D → CString} {convert : LuaValue D → Conversion D}
variable {skip : LuaValue D → Bool} {room : Room} {nodes es es' : List (Node D)}
  {key key' : LuaValue D}
variable {members : List (CString × Json D)}

/-! ## The loop -/

omit [Doubles D] in
/-- What a turn puts out for an entry that it goes past. -/
theorem isMember_iff {e : Node D} {out : List (CString × Json D)} :
    List.Forall₂ (IsMember floatText convert) ([e].filter fun e => !skip e.1) out ↔
      if skip e.1 then out = []
      else ∃ item text, convert e.2 = .doc item ∧ keyText floatText e.1 = some text ∧
        out = [(cString text, item)] := by
  cases hskip : skip e.1 with
  | true =>
    rw [List.filter_cons_of_neg (by rw [hskip]; decide), if_pos rfl]
    exact List.forall₂_nil_left_iff
  | false =>
    rw [List.filter_cons_of_pos (by rw [hskip]; decide), if_neg (by decide), List.filter_nil]
    constructor
    · intro h
      obtain ⟨m, out', ⟨hitem, text, htext, hname⟩, hrest, rfl⟩ := List.forall₂_cons_left_iff.mp h
      rw [List.forall₂_nil_left_iff.mp hrest]
      exact ⟨m.2, text, hitem, htext, congrArg (fun name => [(name, m.2)]) hname⟩
    · rintro ⟨item, text, hitem, htext, rfl⟩
      exact .cons ⟨hitem, text, htext, rfl⟩ .nil

/-- A turn that goes on, with what it puts out. -/
theorem objectTurn_eq_go_iff {out : List (CString × Json D)} :
    objectTurn floatText convert skip room nodes key = .go key' out ↔
      ∃ e, luaNext nodes key = some (some e) ∧ nextKey floatText skip e.1 = key' ∧
        List.Forall₂ (IsMember floatText convert) ([e].filter fun e => !skip e.1) out := by
  simp only [isMember_iff]
  unfold objectTurn nextKey
  cases hnext : luaNext nodes key with
  | none => simp
  | some found =>
    obtain _ | ⟨k, v⟩ := found
    · simp
    · simp only [Option.some.injEq, exists_eq_left']
      cases hskip : skip k with
      | true =>
        rw [if_pos rfl, if_pos rfl, if_pos rfl, Turn.go.injEq]
        exact and_congr_right fun _ => eq_comm
      | false =>
        cases hconvert : convert v with
        | doc item =>
          cases htext : keyText floatText k with
          | none => simp
          | some text =>
            simp only [Bool.false_eq_true, if_false, Turn.go.injEq, Conversion.doc.injEq,
              Option.some.injEq, exists_eq_left', exists_and_left]
            exact and_congr_right fun _ => eq_comm
        | _ => simp

/-- **The loop ends** with the members of the entries that it visits. -/
theorem ends_objectTurn_iff :
    Ends (objectTurn floatText convert skip room nodes) key none members ↔
      ∃ es, Visits floatText skip nodes key es ∧
        List.Forall₂ (IsMember floatText convert) (es.filter fun e => !skip e.1) members := by
  constructor
  · intro h
    generalize hr : (none : Option (Conversion D)) = r at h
    induction h with
    | stop h =>
      subst hr
      rcases objectTurn_eq_stop_iff.mp h with ⟨-, hr⟩ | ⟨hnext, -⟩ | ⟨_, _, -, -, h⟩
      · cases hr
      · exact ⟨[], .done hnext, .nil⟩
      · rcases h with ⟨-, hr⟩ | ⟨-, -, hr⟩ <;> cases hr
    | go h _ ih =>
      obtain ⟨e, hnext, rfl, hout⟩ := objectTurn_eq_go_iff.mp h
      obtain ⟨es, hvisits, hmembers⟩ := ih hr
      refine ⟨e :: es, .next hnext hvisits, ?_⟩
      rw [← List.singleton_append, List.filter_append]
      exact List.rel_append hout hmembers
  · rintro ⟨es, hvisits, hmembers⟩
    induction hvisits generalizing members with
    | done h =>
      rw [List.forall₂_nil_left_iff.mp hmembers]
      exact .stop (objectTurn_eq_stop_iff.mpr (Or.inr (Or.inl ⟨h, rfl⟩)))
    | @next key e es h _ ih =>
      rw [← List.singleton_append, List.filter_append] at hmembers
      have hout := (List.forall₂_take_append _ _ _ hmembers.flip).flip
      have houts := (List.forall₂_drop_append _ _ _ hmembers.flip).flip
      rw [← List.take_append_drop ([e].filter fun e => !skip e.1).length members]
      exact .go (objectTurn_eq_go_iff.mpr ⟨e, h, rfl, hout⟩) (ih houts)

/-- **The document of the loop.** -/
theorem objectLoop_eq_doc_iff {doc : Json D} :
    objectLoop floatText convert skip room nodes = .doc doc ↔
      ∃ es members, Visits floatText skip nodes .nil es ∧
        List.Forall₂ (IsMember floatText convert) (es.filter fun e => !skip e.1) members ∧
        doc = .obj members := by
  constructor
  · intro hdoc
    obtain ⟨r, members, hends⟩ := ends_of_objectLoop (by rw [hdoc]; simp)
    have hresult := objectLoop_of_ends hends
    rw [hdoc] at hresult
    cases r with
    | none =>
      obtain ⟨es, hvisits, hmembers⟩ := ends_objectTurn_iff.mp hends
      exact ⟨es, members, hvisits, hmembers, Conversion.doc.inj hresult⟩
    | some c =>
      obtain ⟨key, -, hstop⟩ := ends_iff_goes.mp ⟨members, hends⟩
      have hc : c = .doc doc := hresult.symm
      rcases objectTurn_eq_stop_iff.mp hstop with ⟨-, hr⟩ | ⟨-, hr⟩ |
        ⟨k, v, -, -, ⟨hv, hr⟩ | ⟨-, -, hr⟩⟩
      · exact absurd ((Option.some.inj hr).trans hc) nextError_ne_doc
      · cases hr
      · exact absurd ((Option.some.inj hr).trans hc) (hv doc)
      · cases (Option.some.inj hr).trans hc
  · rintro ⟨es, members, hvisits, hmembers, rfl⟩
    exact objectLoop_of_ends (ends_objectTurn_iff.mpr ⟨es, hvisits, hmembers⟩)

/-! ## The entries visited -/

/-- A traversal goes one way. -/
theorem Visits.unique (h : Visits floatText skip nodes key es)
    (h' : Visits floatText skip nodes key es') : es = es' := by
  induction h generalizing es' with
  | done h =>
    cases h' with
    | done => rfl
    | next h' => cases h.symm.trans h'
  | next h _ ih =>
    cases h' with
    | done h' => cases h.symm.trans h'
    | next h' hrest =>
      obtain rfl := Option.some.inj (Option.some.inj (h.symm.trans h'))
      rw [ih hrest]

/-- The rest of a traversal. -/
theorem Visits.rest {pre post : List (Node D)} {e : Node D}
    (h : Visits floatText skip nodes key (pre ++ e :: post)) :
    Visits floatText skip nodes (nextKey floatText skip e.1) post := by
  induction pre generalizing key with
  | nil =>
    cases h with
    | next _ hrest => exact hrest
  | cons e' pre ih =>
    cases h with
    | next _ hrest => exact ih hrest

/-- **Two entries that leave one key** on the stack are the same: what comes after them is. -/
theorem Visits.eq_of_nextKey {e e' : Node D} (h : Visits floatText skip nodes key es)
    (he : e ∈ es) (he' : e' ∈ es)
    (hkey : nextKey floatText skip e.1 = nextKey floatText skip e'.1) : e = e' := by
  obtain ⟨pre, post, hsplit⟩ := List.append_of_mem he
  obtain ⟨pre', post', hsplit'⟩ := List.append_of_mem he'
  have hpost : post = post' := by
    have hrest := (hsplit ▸ h).rest
    have hrest' := (hsplit' ▸ h).rest
    rw [hkey] at hrest
    exact hrest.unique hrest'
  subst hpost
  have hboth : pre ++ e :: post = pre' ++ e' :: post := hsplit.symm.trans hsplit'
  exact (List.cons.inj (List.append_inj' hboth rfl).2).1

/-- **No entry is visited twice.** -/
theorem Visits.nodup (h : Visits floatText skip nodes key es) : es.Nodup := by
  induction h with
  | done => exact List.nodup_nil
  | @next key e es _ hrest ih =>
    refine List.nodup_cons.mpr ⟨fun hmem => ?_, ih⟩
    obtain ⟨pre, post, rfl⟩ := List.append_of_mem hmem
    have hlength := congrArg List.length (hrest.unique hrest.rest)
    rw [List.length_append, List.length_cons] at hlength
    omega

theorem Visits.subset (h : Visits floatText skip nodes key es) : es ⊆ live nodes := by
  induction h with
  | done => exact List.nil_subset _
  | next h _ ih => exact List.cons_subset.mpr ⟨luaNext_mem_live h, ih⟩

/-- The entry after the key of a node is the next one that holds a value. -/
theorem luaNext_of_split {pre post : List (Node D)} {e : Node D}
    (hnodes : nodes = pre ++ e :: post) (hpre : ∀ e' ∈ pre, e'.1 ≠ e.1) (hkey : e.1 ≠ .nil) :
    luaNext nodes e.1 = some (live post).head? := by
  have hdrop : (nodes.dropWhile fun e' => e'.1 ≠ e.1) = e :: post := by
    rw [hnodes, List.dropWhile_append_of_pos (by simpa using hpre),
      List.dropWhile_cons_of_neg (by simp)]
  rw [luaNext, if_neg hkey, hdrop]

/-- **Every entry is visited** where the keys stay what they are. -/
theorem visits_live (hnodup : (nodes.map Prod.fst).Nodup)
    (hkeys : ∀ e ∈ live nodes, e.1 ≠ .nil ∧ nextKey floatText skip e.1 = e.1) :
    Visits floatText skip nodes .nil (live nodes) := by
  suffices hwalk : ∀ post pre key, nodes = pre ++ post →
      luaNext nodes key = some (live post).head? → Visits floatText skip nodes key (live post) from
    hwalk nodes [] .nil rfl (if_pos rfl)
  intro post
  induction post with
  | nil => exact fun _ _ _ hnext => .done hnext
  | cons e post ih =>
    intro pre key hsplit hnext
    have hsplit' : nodes = (pre ++ [e]) ++ post := by
      rw [hsplit, List.append_assoc, List.singleton_append]
    by_cases hdead : e.2 = .nil
    · have hlive : live (e :: post) = live post := List.filter_cons_of_neg (by simpa using hdead)
      rw [hlive] at hnext ⊢
      exact ih _ _ hsplit' hnext
    · have hlive : live (e :: post) = e :: live post :=
        List.filter_cons_of_pos (by simpa using hdead)
      rw [hlive] at hnext ⊢
      have hmem : e ∈ live nodes := luaNext_mem_live hnext
      refine .next hnext ?_
      rw [(hkeys e hmem).2]
      refine ih _ _ hsplit' (luaNext_of_split hsplit ?_ (hkeys e hmem).1)
      intro e' he' heq
      rw [hsplit, List.map_append, List.map_cons] at hnodup
      exact List.disjoint_of_nodup_append hnodup (List.mem_map_of_mem he')
        (heq ▸ List.mem_cons_self)

omit [Doubles D] in
/-- A text stays what it is. -/
theorem nextKey_string (text : Bytes) : nextKey floatText skip (.string text) = .string text := by
  unfold nextKey
  split <;> rfl

/-- With texts for keys every entry is visited. -/
theorem visits_of_strings (hnodup : (nodes.map Prod.fst).Nodup)
    (hkeys : ∀ e ∈ live nodes, ∃ text, e.1 = .string text) :
    Visits floatText skip nodes .nil (live nodes) := by
  refine visits_live hnodup fun e he => ?_
  obtain ⟨text, htext⟩ := hkeys e he
  rw [htext]
  exact ⟨nofun, nextKey_string text⟩

/-- What is visited is reached, where it becomes members. -/
theorem Visits.reached {good : LuaValue D → Prop}
    (h : Visits floatText (fun _ => false) nodes key es) (hreached : Reached floatText good nodes key)
    (hes : ∀ e ∈ es, good e.2 ∧ keyText floatText e.1 ≠ none) :
    ∃ key', Reached floatText good nodes key' ∧ luaNext nodes key' = some none := by
  induction h with
  | done h => exact ⟨_, hreached, h⟩
  | next h _ ih =>
    rw [List.forall_mem_cons] at hes
    exact ih (hreached.tail ⟨_, _, h, rfl, hes.1⟩) hes.2

end Lua

end EpsilonDB
