import EpsilonDB.Httpd.Http
import Mathlib.Data.List.Induction
import Mathlib.Data.List.Nodup
import Mathlib.Data.List.Perm.Basic

/-!
# The route table (`httpd/epsilon_http.c`)

A request goes to the handler whose method is its own and whose path prefix is the longest one
it starts with; of two equally long ones the later registration wins.

- `HttpRoute`, `edbHttpAddHandler`: the table, in the order of registration.
- `bestRoute`: the loop of `conn_main` over it.
- `bestRoute_eq_some_iff`: what the loop finds where no route is registered twice.
- `bestRoute_perm`: the order of registration is of no account then.
-/

namespace EpsilonDB

/-- `EDB_HTTP_MAX_ROUTES`. -/
def maxRoutes : Nat := 64

/-- `http_route`. -/
structure HttpRoute (H : Type) where
  method : CString
  start : CString
  handler : H

variable {H : Type}

/-- `edb_http_add_handler`, in a table that may be full. -/
def edbHttpAddHandler (method start : CString) (handler : H) (routes : List (HttpRoute H)) :
    Bool × List (HttpRoute H) :=
  if maxRoutes ≤ routes.length then (false, routes)
  else (true, routes ++ [⟨snprintf 16 method, snprintf 256 start, handler⟩])

/-- The route takes the request. -/
def HttpRoute.Takes (r : HttpRoute H) (method path : CString) : Prop :=
  r.start <+: path ∧ method = r.method

instance (r : HttpRoute H) (method path : CString) : Decidable (r.Takes method path) :=
  inferInstanceAs (Decidable (_ ∧ _))

/-- One turn of the loop: a route that takes the request and is not shorter than the best one
so far. -/
def betterRoute (method path : CString) (best : Option (HttpRoute H)) (r : HttpRoute H) :
    Option (HttpRoute H) :=
  if r.Takes method path ∧ best.all (·.start.length ≤ r.start.length) then some r else best

/-- The loop of `conn_main` over the table. -/
def bestRoute (routes : List (HttpRoute H)) (method path : CString) : Option (HttpRoute H) :=
  routes.foldl (betterRoute method path) none

/-- No method and prefix is registered twice. -/
def Distinct (routes : List (HttpRoute H)) : Prop :=
  (routes.map fun r => (r.method, r.start)).Nodup

instance (routes : List (HttpRoute H)) : Decidable (Distinct routes) :=
  inferInstanceAs (Decidable (List.Nodup _))

variable {routes routes' : List (HttpRoute H)} {method path : CString}

/-- What the loop has found after a part of the table. -/
theorem bestRoute_spec (routes : List (HttpRoute H)) (method path : CString) :
    match bestRoute routes method path with
    | none => ∀ r ∈ routes, ¬ r.Takes method path
    -- nothing has taken the request so far
    | some b => b ∈ routes ∧ b.Takes method path ∧
        -- the new route takes over where it is not shorter
        ∀ r ∈ routes, r.Takes method path → r.start.length ≤ b.start.length := by
  induction routes using List.reverseRecOn with
  | nil => exact fun r hr => absurd hr List.not_mem_nil
  | append_singleton routes r ih =>
    rw [bestRoute, List.foldl_append, List.foldl_cons, List.foldl_nil, ← bestRoute]
    unfold betterRoute
    cases hbest : bestRoute routes method path with
    | none =>
      rw [hbest] at ih
      by_cases htakes : r.Takes method path
      · rw [if_pos ⟨htakes, rfl⟩]
        refine ⟨by simp, htakes, fun r' hr' htakes' => ?_⟩
        rcases List.mem_append.mp hr' with hr' | hr'
        · exact absurd htakes' (ih r' hr')
        · rw [List.mem_singleton.mp hr']
      · rw [if_neg fun h => htakes h.1]
        intro r' hr'
        rcases List.mem_append.mp hr' with hr' | hr'
        · exact ih r' hr'
        · exact List.mem_singleton.mp hr' ▸ htakes
    | some b =>
      rw [hbest] at ih
      obtain ⟨hb, hbtakes, hlongest⟩ := ih
      by_cases h : r.Takes method path ∧ b.start.length ≤ r.start.length
      · rw [if_pos (by simpa using h)]
        refine ⟨by simp, h.1, fun r' hr' htakes' => ?_⟩
        rcases List.mem_append.mp hr' with hr' | hr'
        · exact (hlongest r' hr' htakes').trans h.2
        · rw [List.mem_singleton.mp hr']
      · rw [if_neg (by simpa using h)]
        refine ⟨List.mem_append_left _ hb, hbtakes, fun r' hr' htakes' => ?_⟩
        rcases List.mem_append.mp hr' with hr' | hr'
        · exact hlongest r' hr' htakes'
        · obtain rfl := List.mem_singleton.mp hr'
          exact Nat.le_of_not_le fun hle => h ⟨htakes', hle⟩

/-- Two routes that take a request and have prefixes of one length are registered alike. -/
theorem HttpRoute.Takes.start_eq {r r' : HttpRoute H} (h : r.Takes method path)
    (h' : r'.Takes method path) (hlen : r.start.length = r'.start.length) :
    (r.method, r.start) = (r'.method, r'.start) := by
  have hstart : r.start = r'.start :=
    (List.prefix_of_prefix_length_le h.1 h'.1 hlen.le).eq_of_length hlen
  rw [← h.2, ← h'.2, hstart]

/-- **The best route**, where no route is registered twice. -/
theorem bestRoute_eq_some_iff (hdistinct : Distinct routes) {b : HttpRoute H} :
    bestRoute routes method path = some b ↔ b ∈ routes ∧ b.Takes method path ∧
      ∀ r ∈ routes, r.Takes method path → r.start.length ≤ b.start.length := by
  have hspec := bestRoute_spec routes method path
  constructor
  · intro h
    rwa [h] at hspec
  · rintro ⟨hb, htakes, hlongest⟩
    cases hbest : bestRoute routes method path with
    | none =>
      rw [hbest] at hspec
      exact absurd htakes (hspec b hb)
    | some r =>
      rw [hbest] at hspec
      obtain ⟨hr, hrtakes, hrlongest⟩ := hspec
      have hlen := le_antisymm (hlongest r hr hrtakes) (hrlongest b hb htakes)
      rw [List.inj_on_of_nodup_map hdistinct hr hb (hrtakes.start_eq htakes hlen)]

/-- **The order of registration** is of no account where no route is registered twice. -/
theorem bestRoute_perm (hdistinct : Distinct routes) (hperm : routes.Perm routes')
    (method path : CString) : bestRoute routes method path = bestRoute routes' method path := by
  have hdistinct' : Distinct routes' := (hperm.map _).nodup_iff.mp hdistinct
  refine Option.ext fun b => ?_
  rw [bestRoute_eq_some_iff hdistinct,
    bestRoute_eq_some_iff hdistinct', hperm.mem_iff]
  refine and_congr_right fun _ => and_congr_right fun _ => ?_
  exact forall_congr' fun r => by rw [hperm.mem_iff]

end EpsilonDB
