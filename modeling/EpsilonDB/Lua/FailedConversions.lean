import EpsilonDB.Lua.Fire

/-!
# Failed conversions (`lua/epsilon_lua.c`)

`lua_to_json` counts its levels in the session. A Lua error leaves it without counting back, and
a script may catch the error and go on.

- `Restored`: the session is what it was before a conversion.
- `restored_iff`: after an error it is so only when the conversion had no level left to begin
  with.
- `Session.after`: the session after some conversions, one after the other.
- `failures_le_convertDepth`: each error costs a level, until none is left.
- `not_restored_first`: the first error of a handler is never made good.
-/

namespace EpsilonDB

namespace Lua

variable {D : Type} [Doubles D]

section

variable (floatText : D → CString)

/-- The depth is what it was, and every later conversion answers as it would have. -/
structure Restored (heap : Heap D) (s : Session) (room : Room) (v : LuaValue D) : Prop where
  depth : (s.converted (luaToJson floatText heap s.levels room v)).convertDepth = s.convertDepth
  later : ∀ (heap' : Heap D) (room' : Room) (v' : LuaValue D),
    luaToJson floatText heap' (s.converted (luaToJson floatText heap s.levels room v)).levels
        room' v' =
      luaToJson floatText heap' s.levels room' v'

/-- The session after conversions, each of a value in the tables of its time and with the room
that there was. -/
def Session.after (s : Session) (conversions : List (Heap D × Room × LuaValue D)) : Session :=
  conversions.foldl (fun s c => s.converted (luaToJson floatText c.1 s.levels c.2.1 c.2.2)) s

/-- How many of the conversions raise an error. -/
def failures (s : Session) : List (Heap D × Room × LuaValue D) → Nat
  | [] => 0
  | c :: conversions =>
    let result := luaToJson floatText c.1 s.levels c.2.1 c.2.2
    failures (s.converted result) conversions +
      match result with
      | .raised _ => 1
      | _ => 0

end

variable {floatText : D → CString} {heap : Heap D} {s : Session} {room : Room} {v : LuaValue D}
  {left left' n : Nat}

omit [Doubles D] in
/-- With room for its message an error is raised. -/
theorem error_eq_raised (h : room.error (D := D) left = .raised left') : left = left' := by
  unfold Room.error at h
  split at h
  · exact Conversion.raised.inj h
  · cases h

omit [Doubles D] in
theorem nested_pos {c : Conversion D} (h : c.nested = .raised left) : 0 < left := by
  cases c with
  | raised left' =>
    cases h
    exact Nat.succ_pos left'
  | doc | failed | astray => cases h

/-- An error leaves a level behind wherever there was one. -/
theorem raised_pos (h : luaToJson floatText heap (n + 1) room v = .raised left) : 0 < left := by
  cases v with
  | table r =>
    rw [luaToJson] at h
    split at h
    · exact nested_pos h
    · cases h
  | function | userdata | thread => exact error_eq_raised h ▸ Nat.one_pos
  | nil | boolean | lightuserdata | integer | float | string => cases h

theorem levels_eq_zero_iff : s.levels = 0 ↔ maxDepth < s.convertDepth := by
  unfold Session.levels
  omega

/-- **After an error** the session is what it was exactly when no level was left before. -/
theorem restored_iff (hraised : luaToJson floatText heap s.levels room v = .raised left) :
    Restored floatText heap s room v ↔ maxDepth < s.convertDepth := by
  rw [← levels_eq_zero_iff]
  constructor
  · rintro ⟨hdepth, -⟩
    rw [hraised] at hdepth
    have hleft : left = 0 := Nat.add_eq_left.mp hdepth
    cases hlevels : s.levels with
    | zero => rfl
    | succ n =>
      rw [hlevels] at hraised
      exact absurd (raised_pos hraised) (by omega)
  · intro hlevels
    have hleft : left = 0 := by
      rw [hlevels] at hraised
      exact (error_eq_raised hraised).symm
    have hsession : s.converted (luaToJson floatText heap s.levels room v) = s := by
      rw [hraised, hleft]
      rfl
    constructor
    · rw [hsession]
    · intro heap' room' v'
      rw [hsession]

/-! ## A handler -/

variable {conversions : List (Heap D × Room × LuaValue D)}

/-- **Each error costs a level** until none is left. -/
theorem failures_le_convertDepth :
    min (maxDepth + 1) (s.convertDepth + failures floatText s conversions) ≤
      (s.after floatText conversions).convertDepth := by
  induction conversions generalizing s with
  | nil => exact min_le_right _ _
  | cons c conversions ih =>
    refine le_trans ?_ (ih (s := s.converted (luaToJson floatText c.1 s.levels c.2.1 c.2.2)))
    rw [failures]
    cases hresult : luaToJson floatText c.1 s.levels c.2.1 c.2.2 with
    | raised left =>
      show min (maxDepth + 1) (s.convertDepth + (_ + 1)) ≤
        min (maxDepth + 1) (s.convertDepth + left + _)
      cases hlevels : s.levels with
      | zero =>
        rw [levels_eq_zero_iff] at hlevels
        omega
      | succ n =>
        rw [hlevels] at hresult
        have hpos := raised_pos hresult
        omega
    | doc | failed | astray => exact le_rfl

/-- **A handler that has caught too many errors** converts nothing any more. -/
theorem raised_of_failures (h : maxDepth < failures floatText {} conversions) (heap : Heap D)
    (hroom : 2 ≤ room.slots) (v : LuaValue D) :
    luaToJson floatText heap (Session.after floatText {} conversions).levels room v =
      .raised 0 := by
  have hdepth : min (maxDepth + 1) (0 + failures floatText {} conversions) ≤
      (Session.after floatText {} conversions).convertDepth := failures_le_convertDepth (s := {})
  have hlevels : (Session.after floatText {} conversions).levels = 0 :=
    levels_eq_zero_iff.mpr (by omega)
  rw [hlevels, luaToJson, Room.error, if_pos hroom]

/-- Without errors the depth stays what it is. -/
theorem convertDepth_after (h : failures floatText s conversions = 0) :
    (s.after floatText conversions).convertDepth = s.convertDepth := by
  induction conversions generalizing s with
  | nil => rfl
  | cons c conversions ih =>
    rw [failures] at h
    show ((s.converted (luaToJson floatText c.1 s.levels c.2.1 c.2.2)).after floatText
      conversions).convertDepth = _
    cases hresult : luaToJson floatText c.1 s.levels c.2.1 c.2.2 with
    | raised left =>
      rw [hresult] at h
      cases h
    | doc | failed | astray =>
      rw [hresult] at h
      exact (ih (Nat.add_eq_zero_iff.mp h).1).trans rfl

/-- **The first error of a handler** is never made good. -/
theorem not_restored_first (h : failures floatText {} conversions = 0)
    (hraised : luaToJson floatText heap (Session.after floatText {} conversions).levels room v =
      .raised left) :
    ¬ Restored floatText heap (Session.after floatText {} conversions) room v := by
  rw [restored_iff hraised, convertDepth_after h]
  exact Nat.not_lt_zero _

/-! ## A function as a filter -/

/-- A script hands over a function, and catches the error. -/
theorem not_restored_function :
    luaToJson (D := Int) (fun _ => []) (fun _ => []) (Session.levels {}) ⟨26, false⟩
        (.function 0) = .raised 1 ∧
      ¬ Restored (D := Int) (fun _ => []) (fun _ => []) {} ⟨26, false⟩ (.function 0) :=
  ⟨rfl, fun h => absurd h.depth (by decide)⟩

/-- Without a level left nothing gets worse. -/
theorem restored_exhausted :
    Restored (D := Int) (fun _ => []) (fun _ => []) { convertDepth := 33 } ⟨26, false⟩ .nil :=
  (restored_iff rfl).mpr (by decide)

end Lua

end EpsilonDB
