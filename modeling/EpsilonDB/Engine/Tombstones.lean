import EpsilonDB.Engine.Convergence
import EpsilonDB.Lib.Runs

/-!
# Deletes, late changes and the cleanup pass (`engine/shard.c`)

A delete leaves a tombstone: a row without a value that expired five seconds before the
version of the delete. It keeps older changes out like any other row, until a cleanup pass
removes it, 7200 seconds after it expired.

- `ShardEvent`: a delivery, first or repeated, or a pass at some clock.
- `Purges`: a pass removes the row of an id.
- `ShowsOlder`: some read finds a value of the id that is older than a version.
- `deleted_until_purged`: after a delete no older value is found as long as no pass removes
  the row of its id; for the tombstone that takes 7195 seconds.
- `purged_delete_resurrects`: afterwards a change that is delivered late is found again.

Versions are compared as the guard of the replicated writes compares them.
-/

namespace EpsilonDB

/-- What happens to a shard of replicated records. -/
inductive ShardEvent where
  | deliver (c : Change)
  /-- `edb_shard_cleanup` at clock `now` -/
  | cleanup (now : Int)
deriving DecidableEq

/-- One event. -/
def ShardEvent.step (sh : Shard) : ShardEvent → Option Shard
  | .deliver c => some (applyChange sh c)
  | .cleanup now => some (edbShardCleanup now sh)

/-- The row is removed by a pass at clock `now`. -/
def Row.purged (now : Int) (r : Row) : Bool :=
  r.ttl.any fun t => decide (t < now - cleanupGraceSeconds)

/-- The event removes the row of `id`. -/
def Purges (id : CString) (sh : Shard) : ShardEvent → Prop
  | .deliver _ => False
  | .cleanup now => ∃ r ∈ sh.lookup id, r.purged now = true

instance (id : CString) (sh : Shard) (e : ShardEvent) : Decidable (Purges id sh e) := by
  cases e with
  | deliver c => exact inferInstanceAs (Decidable False)
  | cleanup now =>
    exact match h : sh.lookup id with
      | none => isFalse (by simp [Purges, h])
      | some r => decidable_of_iff (r.purged now = true) (by simp [Purges, h])

/-- Some read of `id` finds a value older than `v`. -/
def ShowsOlder (v : Version) (id : CString) (sh : Shard) : Prop :=
  ∃ now r, sh.lookup id = some r ∧ r.live now = true ∧ r.value.isSome = true ∧
    comparedVersion (some r) < v

theorem lookup_edbShardCleanup (now : Int) (sh : Shard) (id : CString) :
    (edbShardCleanup now sh).lookup id = (sh.lookup id).filter fun r => !r.purged now := by
  refine Option.ext fun r => ?_
  have hsh : sh.lookup id = some r ↔ Sigma.mk id r ∈ sh.entries := AList.mem_lookup_iff
  have hclean : (edbShardCleanup now sh).lookup id = some r ↔
      Sigma.mk id r ∈ (edbShardCleanup now sh).entries := AList.mem_lookup_iff
  rw [hclean, Option.filter_eq_some_iff, hsh]
  exact List.mem_filter

/-- A row is not lost by a pass that does not purge it. -/
theorem lookup_of_not_purges {now : Int} {sh : Shard} {id : CString}
    (h : ¬ Purges id sh (.cleanup now)) : (edbShardCleanup now sh).lookup id = sh.lookup id := by
  rw [lookup_edbShardCleanup]
  cases hrow : sh.lookup id with
  | none => rfl
  | some r =>
    have hkept : r.purged now = false := by
      by_contra hpurged
      exact h ⟨r, hrow, by simpa using hpurged⟩
    rw [Option.filter_some, hkept]
    rfl

/-- A tombstone is purged 7195 seconds after the version of its delete. -/
theorem purges_tombstone_iff {sh : Shard} {c : Change} (hc : c.op = .delete)
    (hrow : sh.lookup c.id = some c.row) (now : Int) :
    Purges c.id sh (.cleanup now) ↔ c.ts + 7195 < now := by
  have hpurged : c.row.purged now = decide (c.ts - 5 < now - cleanupGraceSeconds) := by
    rw [Change.row, hc]
    rfl
  constructor
  · rintro ⟨r, hr, h⟩
    obtain rfl := Option.some.inj (hrow.symm.trans hr)
    rw [hpurged, decide_eq_true_iff, cleanupGraceSeconds] at h
    omega
  · intro h
    refine ⟨c.row, hrow, ?_⟩
    rw [hpurged, decide_eq_true_iff, cleanupGraceSeconds]
    omega

/-! ## What a delete keeps out -/

/-- The row of an id is not older than `v`. -/
def AtLeast (v : Version) (id : CString) (sh : Shard) : Prop :=
  v ≤ comparedVersion (sh.lookup id)

theorem AtLeast.not_showsOlder {v : Version} {id : CString} {sh : Shard}
    (h : AtLeast v id sh) : ¬ ShowsOlder v id sh := by
  rintro ⟨now, r, hrow, -, -, hlt⟩
  rw [AtLeast, hrow] at h
  exact absurd hlt (not_lt.mpr h)

/-- A delivered change is there, or something newer is. -/
theorem atLeast_applyChange (sh : Shard) (c : Change) :
    AtLeast (comparedVersion (some c.row)) c.id (applyChange sh c) := by
  rw [AtLeast, lookup_applyChange, if_pos rfl]
  exact LastWriter.le_write_right ..

/-- **One event** makes no row older, unless it removes it. -/
theorem step_atLeast {v : Version} {id : CString} (sh : Shard) (e : ShardEvent) (sh' : Shard)
    (h : AtLeast v id sh) (hkept : ¬ Purges id sh e) (hstep : ShardEvent.step sh e = some sh') :
    AtLeast v id sh' := by
  cases e with
  | deliver c =>
    cases hstep
    exact h.trans (below_applyChange sh c id)
  | cleanup now =>
    cases hstep
    show v ≤ comparedVersion ((edbShardCleanup now sh).lookup id)
    rw [lookup_of_not_purges hkept]
    exact h

/-- **Deletes do not resurrect until they are purged.** After a delete is delivered no
read finds an older value of its id in any run in which no pass removes the row of the id;
the tombstone itself is removed by passes more than 7195 seconds after its version. -/
theorem deleted_until_purged (sh : Shard) {c : Change} (hc : c.op = .delete)
    {events : List ShardEvent}
    (h : Runs.Along ShardEvent.step (fun sh e => ¬ Purges c.id sh e) (applyChange sh c) events) :
    Runs.Throughout ShardEvent.step (fun sh => ¬ ShowsOlder (comparedVersion (some c.row)) c.id sh)
        (applyChange sh c) events ∧
      ∀ (sh : Shard) (now : Int), sh.lookup c.id = some c.row →
        (Purges c.id sh (.cleanup now) ↔ c.ts + 7195 < now) := by
  constructor
  · exact Runs.throughout_mono (fun _ hs => hs.not_showsOlder)
      (Runs.throughout_of_along step_atLeast (atLeast_applyChange sh c) h)
  · exact fun sh now hrow => purges_tombstone_iff hc hrow now

/-- A delete of record `k` at second 100. -/
def lateDelete : Change := ⟨cstr "k", .delete, 100, cstr "a"⟩

/-- A put of second 50 that waits in a cache. -/
def cachedPut : Change := ⟨cstr "k", .put (cstr "\x7b\"v\":1\x7d") (-1), 50, cstr "b"⟩

/-- The put is delivered before and after a pass within the grace window. -/
theorem deleted_within_grace :
    Runs.Throughout ShardEvent.step
        (fun sh => ¬ ShowsOlder (comparedVersion (some lateDelete.row)) (cstr "k") sh)
        (applyChange (applyChange ∅ cachedPut) lateDelete)
        [.deliver cachedPut, .cleanup 7295, .deliver cachedPut] ∧
      ∀ (sh : Shard) (now : Int), sh.lookup (cstr "k") = some lateDelete.row →
        (Purges (cstr "k") sh (.cleanup now) ↔ 100 + 7195 < now) :=
  deleted_until_purged (c := lateDelete) (applyChange ∅ cachedPut) rfl (by decide +kernel)

/-- **Behind a pass after the window the put is found again.** -/
theorem purged_delete_resurrects :
    ¬ Runs.Throughout ShardEvent.step
      (fun sh => ¬ ShowsOlder (comparedVersion (some lateDelete.row)) (cstr "k") sh)
      (applyChange ∅ lateDelete) [.cleanup 7296, .deliver cachedPut] := by
  intro h
  refine h.2.2 ⟨7296, cachedPut.row, by decide +kernel, by decide, rfl, ?_⟩
  refine lt_of_not_ge fun hle => ?_
  exact absurd (versionLe_iff.mpr hle) (by decide)

end EpsilonDB
