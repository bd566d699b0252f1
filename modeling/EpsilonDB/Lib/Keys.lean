import Mathlib.Data.List.Nodup

/-!
# Lists with keys

What is found under a key, in a list whose elements have keys and in a list of pairs.

- `exists_find?`, `exists_lookup`: something is, where an element has the key.
- `find?_of_nodup`, `lookup_of_nodup`: it is that element, where keys are all different.
- `mem_of_lookup`: what is found is there.
-/

namespace Keys

variable {α β κ : Type*}

section Elements

variable [DecidableEq κ] {key : α → κ} {l : List α}

/-- Under the key of an element something is found. -/
theorem exists_find? {a : α} {k : κ} (ha : a ∈ l) (hk : key a = k) :
    ∃ b ∈ l, key b = k ∧ l.find? (fun x => key x = k) = some b := by
  obtain ⟨b, hb⟩ : ∃ b, l.find? (fun x => key x = k) = some b := by
    rw [← Option.isSome_iff_exists, List.find?_isSome]
    exact ⟨a, ha, by simpa using hk⟩
  exact ⟨b, List.mem_of_find?_eq_some hb, by simpa using List.find?_some hb, hb⟩

/-- An element is found under its key where keys are all different. -/
theorem find?_of_nodup (hl : (l.map key).Nodup) {a : α} {k : κ} (ha : a ∈ l) (hk : key a = k) :
    l.find? (fun x => key x = k) = some a := by
  obtain ⟨b, hb, hkey, hfind⟩ := exists_find? ha hk
  rw [hfind, List.inj_on_of_nodup_map hl hb ha (hkey.trans hk.symm)]

end Elements

section Pairs

variable [BEq κ] [LawfulBEq κ] {pairs : List (κ × β)}

theorem mem_of_lookup {k : κ} {b : β} (h : pairs.lookup k = some b) : (k, b) ∈ pairs := by
  obtain ⟨pre, post, hsplit, -⟩ := List.lookup_eq_some_iff.mp h
  exact hsplit ▸ List.mem_append_right pre List.mem_cons_self

/-- Under the key of a pair something is found. -/
theorem exists_lookup {p : κ × β} (hp : p ∈ pairs) : ∃ b, pairs.lookup p.1 = some b := by
  rw [← Option.isSome_iff_exists, List.lookup_isSome_iff]
  exact ⟨p, hp, beq_self_eq_true p.1⟩

/-- A pair is found under its key where keys are all different. -/
theorem lookup_of_nodup (hpairs : (pairs.map Prod.fst).Nodup) {p : κ × β} (hp : p ∈ pairs) :
    pairs.lookup p.1 = some p.2 := by
  obtain ⟨b, hb⟩ := exists_lookup hp
  have heq : (p.1, b) = p := List.inj_on_of_nodup_map hpairs (mem_of_lookup hb) hp rfl
  rw [hb, ← heq]

end Pairs

end Keys
