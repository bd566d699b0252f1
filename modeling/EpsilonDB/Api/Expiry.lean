import EpsilonDB.Api.Data
import EpsilonDB.Engine.Listing
import EpsilonDB.Lib.Rounding

/-!
# The expiry of a record (`handle_data_put`, `edb_shard_put`, `apply_change_local`)

A put carries seconds to live; a row stores the second it expires. Without replication the
shard adds the two in 64 bits. With it the handler does, and the sum travels in the change as
a JSON number, a double that is printed and parsed once for the own node and once more for
each hop.

- `edbShardPut64`: the local put, or nothing when its addition overflows.
- `printNumber`, `travelled`: what printing and parsing make of an integral double.
- `replicatedPut64`: the put a node applies after the change was parsed some times.
- `TtlLaw`: the record can be read until the put time plus its seconds to live.
- `ttlLaw_iff`: when it is obeyed; `jsonExact_of_lt`: below `2 ^ 52` nothing is lost.
-/

namespace EpsilonDB

open Rounding

/-! ## Integers and doubles -/

/-- The values of a `long long`. -/
def LongLong (i : Int) : Prop := -2 ^ 63 ≤ i ∧ i < 2 ^ 63

instance (i : Int) : Decidable (LongLong i) := inferInstanceAs (Decidable (_ ∧ _))

/-- `(double)i`; also the double `strtod` reads from a decimal integer. -/
def toDouble (i : Int) : Int := toDigitsInt 2 53 i

/-- `(long long)d`, which is undefined out of range. -/
def toLongLong (d : Int) : Option Int := if LongLong d then some d else none

/-- `compare_double`: `fabs(a - b) <= maxVal * DBL_EPSILON`. -/
def compareDouble (a b : Int) : Bool := decide (|a - b| * 2 ^ 52 ≤ max |a| |b|)

/-- `print_number`, the text given by the integer it denotes: `"%d"`, else `"%1.15g"` when
that reads back as the double or near it, else `"%1.17g"`. -/
def printNumber (d : Int) : Int :=
  if -2 ^ 31 ≤ d ∧ d < 2 ^ 31 then d
  else if compareDouble (toDouble (toDigitsInt 10 15 d)) d then toDigitsInt 10 15 d
  else toDigitsInt 10 17 d

/-- A number printed and parsed once: `parse_number` takes what `strtod` reads. -/
def travelled (d : Int) : Int := toDouble (printNumber d)

/-- A number member that was parsed `trips` times, as `(long long)item->valuedouble`. -/
def jsonLongLong (trips : Nat) (i : Int) : Option Int :=
  toLongLong (travelled^[trips] (toDouble i))

/-! ## Puts -/

/-- The seconds to live of a request: none given is `-1`. -/
def requestTtl (query : CString) : Int :=
  ((queryParam query (cstr "ttl") 32).map strtoll).getD (-1)

/-- `edb_shard_put` in 64 bits: no state when `now + ttl_seconds` overflows. -/
def edbShardPut64 (now : Int) (sh : Shard) (id jsonValue : CString) (ttlSeconds : Int) :
    Option Shard :=
  if 0 ≤ ttlSeconds ∧ ¬ LongLong (now + ttlSeconds) then none
  else some (edbShardPut now sh id jsonValue ttlSeconds)

/-- The put of a change that `handle_data_put` makes at second `ts`, as a node applies it
that has it from `trips` parsed texts. -/
def replicatedPut64 (trips : Nat) (ts : Int) (sh : Shard) (id jsonValue : CString)
    (ttl : Int) (origin : CString) : Option Shard :=
  if 0 ≤ ttl ∧ ¬ LongLong (ts + ttl) then none
  else do
    let ttlAbsolute ← jsonLongLong trips (if 0 ≤ ttl then ts + ttl else -1)
    let modified ← jsonLongLong trips ts
    return edbShardReplicaPut sh id jsonValue ttlAbsolute modified origin

variable {V : Type} (parse : CString → Option V)

/-- Nothing overflows, and from the put on the record is found exactly as long as its
seconds to live last; for ever when they are negative. -/
def TtlLaw (put ttl : Int) (id : CString) (result : Option Shard) : Prop :=
  ∃ sh, result = some sh ∧ ∀ read, put ≤ read → read < 2 ^ 63 →
    ((edbShardGet parse read sh id).isSome = true ↔ (0 ≤ ttl → read ≤ put + ttl))

/-- The sum is a double, and so is what `print_number` writes of it: its first 15 digits
denote it or are too far off to be taken for it. -/
def JsonExact (n : Nat) : Prop :=
  Fits 2 53 n ∧ (toDigits 2 53 (toDigits 10 15 n) = n ∨
    max (toDigits 2 53 (toDigits 10 15 n) : Int) n <
      |(toDigits 2 53 (toDigits 10 15 n) : Int) - n| * 2 ^ 52)

instance (n : Nat) : Decidable (JsonExact n) := inferInstanceAs (Decidable (_ ∧ _))

/-! ## Printed numbers -/

theorem fits_toDouble (i : Int) : Fits 2 53 (toDouble i).natAbs :=
  fits_toDigitsInt (by omega) (by omega) i

theorem toDouble_of_fits {d : Int} (h : Fits 2 53 d.natAbs) : toDouble d = d :=
  toDigitsInt_of_fits (by omega) h

/-- Seventeen digits identify a double. -/
theorem toDouble_seventeen {d : Int} (h : Fits 2 53 d.natAbs) :
    toDouble (toDigitsInt 10 17 d) = d :=
  toDigitsInt_toDigitsInt (by omega) (by omega) (by omega) (by omega) (by norm_num) h

/-- A double keeps fifteen digits. -/
theorem fifteen_toDouble (i : Int) :
    toDigitsInt 10 15 (toDouble (toDigitsInt 10 15 i)) = toDigitsInt 10 15 i :=
  toDigitsInt_toDigitsInt (by omega) (by omega) (by omega) (by omega) (by norm_num)
    (fits_toDigitsInt (by omega) (by omega) i)

/-- The three ways of printing, read back. -/
theorem travelled_eq {d : Int} (h : Fits 2 53 d.natAbs) :
    travelled d =
      if -2 ^ 31 ≤ d ∧ d < 2 ^ 31 then d
      else if compareDouble (toDouble (toDigitsInt 10 15 d)) d then
        toDouble (toDigitsInt 10 15 d)
      else d := by
  unfold travelled printNumber
  split
  · exact toDouble_of_fits h
  · split
    · rfl
    · exact toDouble_seventeen h

theorem fits_travelled (d : Int) : Fits 2 53 (travelled d).natAbs := fits_toDouble _

/-- **The first trip decides**: what was read once is read again. -/
theorem travelled_travelled {d : Int} (h : Fits 2 53 d.natAbs) :
    travelled (travelled d) = travelled d := by
  have hcases : travelled d = d ∨ travelled d = toDouble (toDigitsInt 10 15 d) := by
    rw [travelled_eq h]
    split
    · exact .inl rfl
    · split
      · exact .inr rfl
      · exact .inl rfl
  rcases hcases with hsame | hshort
  · rw [hsame, hsame]
  · rw [hshort, travelled_eq (fits_toDouble _), fifteen_toDouble]
    split
    · rfl
    · split
      · rfl
      · rfl

theorem iterate_travelled {d : Int} (h : Fits 2 53 d.natAbs) {trips : Nat} (htrips : 1 ≤ trips) :
    travelled^[trips] d = travelled d := by
  induction trips, htrips using Nat.le_induction with
  | base => rfl
  | succ trips _ ih => rw [Function.iterate_succ_apply', ih, travelled_travelled h]

theorem travelled_nonneg {d : Int} (h : 0 ≤ d) : 0 ≤ travelled d := by
  refine toDigitsInt_nonneg 2 53 ?_
  unfold printNumber
  split
  · exact h
  · split
    · exact toDigitsInt_nonneg 10 15 h
    · exact toDigitsInt_nonneg 10 17 h

/-- The first fifteen digits of a natural number, read as a double. -/
theorem toDouble_fifteen (n : Nat) :
    toDouble (toDigitsInt 10 15 n) = (toDigits 2 53 (toDigits 10 15 n) : Int) := by
  rw [toDouble, toDigitsInt_natCast 10 15 n (by omega), toDigitsInt_natCast 2 53 _ (by omega)]

/-- A number below `2 ^ 31` has less than fifteen digits. -/
theorem fifteen_of_small {n : Nat} (h : n < 2 ^ 31) : toDigits 2 53 (toDigits 10 15 n) = n := by
  have hten : toDigits 10 15 n = n := toDigits_of_fits (by omega) (fits_of_lt (by omega))
  rw [hten]
  exact toDigits_of_fits (by omega) (fits_of_lt (by omega))

/-- **What survives printing.** -/
theorem travelled_toDouble_iff (n : Nat) : travelled (toDouble n) = n ↔ JsonExact n := by
  have hself : (n : Int).natAbs = n := Int.natAbs_natCast n
  constructor
  · intro h
    have hfits : Fits 2 53 n := by
      have hread := fits_travelled (toDouble n)
      rwa [h, hself] at hread
    refine ⟨hfits, ?_⟩
    rw [toDouble_of_fits (hself.symm ▸ hfits), travelled_eq (hself.symm ▸ hfits),
      toDouble_fifteen] at h
    split at h
    · next hsmall => exact .inl (fifteen_of_small (by omega))
    · split at h
      · exact .inl (Int.natCast_inj.mp h)
      · next hcompare =>
        right
        simpa [compareDouble] using hcompare
  · rintro ⟨hfits, hshort⟩
    rw [toDouble_of_fits (hself.symm ▸ hfits), travelled_eq (hself.symm ▸ hfits),
      toDouble_fifteen]
    split
    · rfl
    · split
      · next hcompare =>
        rcases hshort with hsame | hfar
        · rw [hsame]
        · exact absurd hcompare (by simpa [compareDouble] using hfar)
      · rfl

/-- **Below `2 ^ 52` every number survives**: a sixteenth digit is too far off. -/
theorem jsonExact_of_lt {n : Nat} (h : n < 2 ^ 52) : JsonExact n := by
  refine ⟨fits_of_lt (by omega), ?_⟩
  rcases Nat.lt_or_ge n (10 ^ 15) with hfew | hmany
  · rw [toDigits_of_fits (by omega) (fits_of_lt hfew)]
    exact .inl (toDigits_of_fits (by omega) (fits_of_lt (by omega)))
  · have hulp : ulp 10 15 n = 10 := ulp_of_log hmany (by omega)
    obtain ⟨hle, hge⟩ := nearest_bounds (u := 10) (by omega) n
    obtain ⟨k, hk⟩ := dvd_nearest 10 n
    rw [toDigits, toDigits, hulp]
    generalize nearest 10 n = m at hle hge hk
    have hdouble : nearest (ulp 2 53 m) m = m :=
      toDigits_of_fits (by omega) (fits_of_lt (by omega))
    rw [hdouble]
    rcases lt_trichotomy m n with hlt | heq | hgt
    · right
      rw [abs_of_neg (by omega)]
      omega
    · exact .inl heq
    · right
      rw [abs_of_pos (by omega)]
      omega

/-! ## The law -/

section Law

variable {parse} {put : Int} {sh : Shard} {id jsonValue : CString}

/-- A row that was just written is found as long as its expiry says. -/
theorem isSome_edbShardGet_putRow (hjson : jsonValue ≠ [] ∧ (parse jsonValue).isSome = true)
    {ttlAbsolute timestamp : Int} {origin : CString} (read : Int) :
    (edbShardGet parse read (doPutLocked sh id jsonValue ttlAbsolute timestamp origin)
        id).isSome = true ↔ (0 ≤ ttlAbsolute → read ≤ ttlAbsolute) := by
  have hdoc : ((putRow jsonValue ttlAbsolute timestamp origin).document parse).isSome = true := by
    rw [Row.document, putRow]
    dsimp only
    rw [if_neg hjson.1]
    exact hjson.2
  rw [edbShardGet, doPutLocked, AList.lookup_insert]
  dsimp only
  by_cases hneg : 0 ≤ ttlAbsolute
  · have hlive : (putRow jsonValue ttlAbsolute timestamp origin).live read =
        decide (read ≤ ttlAbsolute) := by rw [Row.live, putRow, if_pos hneg]
    by_cases hread : read ≤ ttlAbsolute
    · rw [hlive, decide_eq_true hread, if_pos rfl]
      exact iff_of_true hdoc fun _ => hread
    · rw [hlive, decide_eq_false hread, if_neg Bool.false_ne_true]
      exact iff_of_false (by simp) fun h => hread (h hneg)
  · have hlive : (putRow jsonValue ttlAbsolute timestamp origin).live read = true := by
      rw [Row.live, putRow, if_neg hneg]
    rw [hlive, if_pos rfl]
    exact iff_of_true hdoc fun h => absurd h hneg

/-- Two expiries let the same reads through. -/
theorem sameReads_iff {ttl abs : Int} (hput : LongLong put) (hsum : LongLong (put + ttl))
    (habs : LongLong abs) (httl : 0 ≤ ttl) (hsign : 0 ≤ put + ttl → 0 ≤ abs) :
    (∀ read, put ≤ read → read < 2 ^ 63 →
        ((0 ≤ abs → read ≤ abs) ↔ (0 ≤ ttl → read ≤ put + ttl))) ↔
      0 ≤ put + ttl ∧ abs = put + ttl := by
  unfold LongLong at *
  constructor
  · intro h
    have hzero := h (max put 0) (by omega) (by omega)
    have hlast := h (max abs (put + ttl)) (by omega) (by omega)
    omega
  · rintro ⟨hpos, rfl⟩ read - -
    omega

/-- The law for a record that was stored with some expiry. -/
theorem ttlLaw_stored (hjson : jsonValue ≠ [] ∧ (parse jsonValue).isSome = true) {ttl abs : Int}
    {timestamp : Int} {origin : CString} (hput : LongLong put) (hsum : 0 ≤ ttl → LongLong (put + ttl))
    (habs : LongLong abs) (hneg : ttl < 0 → abs = -1)
    (hsign : 0 ≤ ttl → 0 ≤ put + ttl → 0 ≤ abs) :
    TtlLaw parse put ttl id (some (doPutLocked sh id jsonValue abs timestamp origin)) ↔
      ttl < 0 ∨ (0 ≤ put + ttl ∧ abs = put + ttl) := by
  have hlaw : TtlLaw parse put ttl id (some (doPutLocked sh id jsonValue abs timestamp origin)) ↔
      ∀ read, put ≤ read → read < 2 ^ 63 →
        ((0 ≤ abs → read ≤ abs) ↔ (0 ≤ ttl → read ≤ put + ttl)) := by
    constructor
    · rintro ⟨sh', hsome, h⟩ read hfrom hto
      obtain rfl := Option.some.inj hsome
      exact (isSome_edbShardGet_putRow hjson read).symm.trans (h read hfrom hto)
    · intro h
      exact ⟨_, rfl, fun read hfrom hto =>
        (isSome_edbShardGet_putRow hjson read).trans (h read hfrom hto)⟩
  rw [hlaw]
  rcases lt_or_ge ttl 0 with hforever | httl
  · rw [hneg hforever]
    exact iff_of_true (fun read _ _ => by omega) (.inl hforever)
  · rw [sameReads_iff hput (hsum httl) habs httl (hsign httl)]
    exact (or_iff_right (not_lt.mpr httl)).symm

/-- **Without replication**: the sum fits and is no sentinel. -/
theorem ttlLaw_local_iff (hjson : jsonValue ≠ [] ∧ (parse jsonValue).isSome = true)
    (hput : LongLong put) {ttl : Int} :
    TtlLaw parse put ttl id (edbShardPut64 put sh id jsonValue ttl) ↔
      ttl < 0 ∨ (0 ≤ put + ttl ∧ put + ttl < 2 ^ 63) := by
  unfold edbShardPut64
  split
  · next hover =>
    refine iff_of_false ?_ ?_
    · rintro ⟨sh', hnone, -⟩
      cases hnone
    · unfold LongLong at *
      omega
  · next hfits =>
    have hsum : 0 ≤ ttl → LongLong (put + ttl) := fun httl => by
      by_contra hover
      exact hfits ⟨httl, hover⟩
    rw [edbShardPut]
    rcases lt_or_ge ttl 0 with hforever | httl
    · rw [if_neg (not_le.mpr hforever),
        ttlLaw_stored hjson hput hsum (by decide) (fun _ => rfl) (by omega)]
      exact iff_of_true (.inl hforever) (.inl hforever)
    · rw [if_pos httl, ttlLaw_stored hjson hput hsum (hsum httl) (by omega) (fun _ h => h)]
      have hlast := (hsum httl).2
      simp only [and_true, hlast]

theorem jsonLongLong_neg_one {trips : Nat} (htrips : 1 ≤ trips) :
    jsonLongLong trips (-1) = some (-1) := by
  have hdouble : toDouble (-1) = -1 := toDouble_of_fits (by decide)
  have htravel : travelled (-1) = -1 := by
    rw [travelled_eq (by decide)]
    rfl
  rw [jsonLongLong, iterate_travelled (fits_toDouble _) htrips, hdouble, htravel]
  rfl

theorem jsonLongLong_eq {trips : Nat} (htrips : 1 ≤ trips) (i : Int) :
    jsonLongLong trips i = toLongLong (travelled (toDouble i)) := by
  rw [jsonLongLong, iterate_travelled (fits_toDouble i) htrips]

/-- An accepted change stores its row. -/
theorem replicatedPut64_of_longLong {trips : Nat} (htrips : 1 ≤ trips) {ttl : Int}
    {origin : CString} (hsum : 0 ≤ ttl → LongLong (put + ttl)) {abs : Int}
    (habs : jsonLongLong trips (if 0 ≤ ttl then put + ttl else -1) = some abs)
    (hput : LongLong (travelled (toDouble put)))
    (hnew : storedNewer (storedVersionLocked sh id) (travelled (toDouble put)) origin = false) :
    replicatedPut64 trips put sh id jsonValue ttl origin =
      some (doPutLocked sh id jsonValue abs (travelled (toDouble put)) origin) := by
  have hstamp : jsonLongLong trips put = some (travelled (toDouble put)) := by
    rw [jsonLongLong_eq htrips, toLongLong, if_pos hput]
  rw [replicatedPut64, if_neg (by tauto), habs, hstamp]
  show some (edbShardReplicaPut sh id jsonValue abs (travelled (toDouble put)) origin) = _
  rw [edbShardReplicaPut, hnew, if_neg Bool.false_ne_true]

/-- A conversion out of range leaves no state. -/
theorem replicatedPut64_eq_none {trips : Nat} (htrips : 1 ≤ trips) {ttl : Int}
    {origin : CString}
    (h : ¬ LongLong (travelled (toDouble put)) ∨
      0 ≤ ttl ∧ ¬ LongLong (travelled (toDouble (put + ttl)))) :
    replicatedPut64 trips put sh id jsonValue ttl origin = none := by
  unfold replicatedPut64
  split
  · rfl
  · rw [jsonLongLong_eq htrips, jsonLongLong_eq htrips, toLongLong, toLongLong]
    rcases h with hstamp | ⟨httl, hsum⟩
    · rw [if_neg hstamp]
      cases (if LongLong (travelled (toDouble (if 0 ≤ ttl then put + ttl else -1))) then
        some (travelled (toDouble (if 0 ≤ ttl then put + ttl else -1))) else none) with
      | none => rfl
      | some abs => rfl
    · rw [if_pos httl, if_neg hsum]
      rfl

/-- **With replication**: both numbers stay in range, and the sum survives its printing. -/
theorem ttlLaw_replicated_iff (hjson : jsonValue ≠ [] ∧ (parse jsonValue).isSome = true)
    (hput : LongLong put) {trips : Nat} (htrips : 1 ≤ trips) {ttl : Int} {origin : CString}
    (hnew : storedNewer (storedVersionLocked sh id) (travelled (toDouble put)) origin = false) :
    TtlLaw parse put ttl id (replicatedPut64 trips put sh id jsonValue ttl origin) ↔
      LongLong (travelled (toDouble put)) ∧
        (ttl < 0 ∨ (0 ≤ put + ttl ∧ put + ttl < 2 ^ 63 ∧ JsonExact (put + ttl).toNat)) := by
  have hnone : replicatedPut64 trips put sh id jsonValue ttl origin = none →
      ¬ TtlLaw parse put ttl id (replicatedPut64 trips put sh id jsonValue ttl origin) := by
    rintro h ⟨sh', hsome, -⟩
    rw [h] at hsome
    cases hsome
  have hexact : 0 ≤ put + ttl →
      (travelled (toDouble (put + ttl)) = put + ttl ↔ JsonExact (put + ttl).toNat) := by
    intro hpos
    rw [← travelled_toDouble_iff, Int.toNat_of_nonneg hpos]
  by_cases hstamp : LongLong (travelled (toDouble put))
  · rw [and_iff_right hstamp]
    rcases lt_or_ge ttl 0 with hforever | httl
    -- the record never expires: `-1` travels unchanged
    · have habs : jsonLongLong trips (if 0 ≤ ttl then put + ttl else -1) = some (-1) := by
        rw [if_neg (not_le.mpr hforever), jsonLongLong_neg_one htrips]
      rw [replicatedPut64_of_longLong htrips (by omega) habs hstamp hnew,
        ttlLaw_stored hjson hput (by omega) (by decide) (fun _ => rfl) (by omega)]
      exact iff_of_true (.inl hforever) (.inl hforever)
    · rw [or_iff_right (not_lt.mpr httl)]
      by_cases hsum : LongLong (put + ttl)
      · by_cases hjsum : LongLong (travelled (toDouble (put + ttl)))
        · have habs : jsonLongLong trips (if 0 ≤ ttl then put + ttl else -1) =
              some (travelled (toDouble (put + ttl))) := by
            rw [if_pos httl, jsonLongLong_eq htrips, toLongLong, if_pos hjsum]
          rw [replicatedPut64_of_longLong htrips (fun _ => hsum) habs hstamp hnew,
            ttlLaw_stored hjson hput (fun _ => hsum) hjsum (by omega)
              fun _ hpos => travelled_nonneg (toDigitsInt_nonneg 2 53 hpos),
            or_iff_right (not_lt.mpr httl), and_congr_right_iff]
          intro hpos
          rw [hexact hpos, and_iff_right hsum.2]
        -- the sum is rounded out of the range on its way
        · refine iff_of_false (hnone (replicatedPut64_eq_none htrips (.inr ⟨httl, hjsum⟩))) ?_
          rintro ⟨hpos, -, hsurvives⟩
          rw [(hexact hpos).mpr hsurvives] at hjsum
          exact hjsum hsum
      -- the sum itself overflows
      · refine iff_of_false (hnone (if_pos ⟨httl, hsum⟩)) ?_
        rintro ⟨hpos, hlt, -⟩
        exact hsum ⟨by omega, hlt⟩
  · exact iff_of_false (hnone (replicatedPut64_eq_none htrips (.inl hstamp)))
      fun h => hstamp h.1

/-- **The expiry law.** For the seconds to live of any request, the record a put stores
without replication obeys the law iff the sum is neither negative nor out of range; a node
that applies the put as a change obeys it iff the put time stays in range as well and the
sum survives being a JSON number. -/
theorem ttlLaw_iff (hput : LongLong put) (query : CString)
    (hjson : jsonValue ≠ [] ∧ (parse jsonValue).isSome = true) (sh : Shard) (id : CString) :
    (TtlLaw parse put (requestTtl query) id
        (edbShardPut64 put sh id jsonValue (requestTtl query)) ↔
      requestTtl query < 0 ∨
        (0 ≤ put + requestTtl query ∧ put + requestTtl query < 2 ^ 63)) ∧
    ∀ (trips : Nat) (origin : CString), 1 ≤ trips →
      storedNewer (storedVersionLocked sh id) (travelled (toDouble put)) origin = false →
      (TtlLaw parse put (requestTtl query) id
          (replicatedPut64 trips put sh id jsonValue (requestTtl query) origin) ↔
        LongLong (travelled (toDouble put)) ∧ (requestTtl query < 0 ∨
          (0 ≤ put + requestTtl query ∧ put + requestTtl query < 2 ^ 63 ∧
            JsonExact (put + requestTtl query).toNat))) :=
  ⟨ttlLaw_local_iff hjson hput, fun _ _ htrips hnew =>
    ttlLaw_replicated_iff hjson hput htrips hnew⟩

/-- **What is put and expires before second `2 ^ 52`** obeys the law on every node. -/
theorem ttlLaw_of_lt {ttl : Int} (hpos : 0 ≤ put) (hput : put < 2 ^ 52)
    (hsum : put + ttl < 2 ^ 52) (hjson : jsonValue ≠ [] ∧ (parse jsonValue).isSome = true)
    {trips : Nat} (htrips : 1 ≤ trips) {origin : CString}
    (hnew : storedNewer (storedVersionLocked sh id) put origin = false) :
    TtlLaw parse put ttl id (edbShardPut64 put sh id jsonValue ttl) ∧
      TtlLaw parse put ttl id (replicatedPut64 trips put sh id jsonValue ttl origin) := by
  have hrange : LongLong put := ⟨by omega, by omega⟩
  have hkept : travelled (toDouble put) = put := by
    have hexact := (travelled_toDouble_iff put.toNat).mpr (jsonExact_of_lt (by omega))
    rwa [Int.toNat_of_nonneg hpos] at hexact
  constructor
  · exact (ttlLaw_local_iff hjson hrange).mpr (by omega)
  · refine (ttlLaw_replicated_iff hjson hrange htrips (by rwa [hkept])).mpr ⟨by rwa [hkept], ?_⟩
    rcases lt_or_ge ttl 0 with hforever | httl
    · exact .inl hforever
    · exact .inr ⟨by omega, by omega, jsonExact_of_lt (by omega)⟩

/-- A put of one hour, alone and on a node two hops away. -/
theorem ttlLaw_anHour :
    TtlLaw some 1700000000 (requestTtl (cstr "ttl=3600")) (cstr "k")
        (edbShardPut64 1700000000 ∅ (cstr "k") (cstr "1") (requestTtl (cstr "ttl=3600"))) ∧
      TtlLaw some 1700000000 (requestTtl (cstr "ttl=3600")) (cstr "k")
        (replicatedPut64 2 1700000000 ∅ (cstr "k") (cstr "1") (requestTtl (cstr "ttl=3600"))
          (cstr "a")) := by
  have hput : LongLong 1700000000 := by decide
  have hjson : cstr "1" ≠ [] ∧ (some (cstr "1")).isSome = true := ⟨by decide, rfl⟩
  obtain ⟨hlocal, hreplicated⟩ := ttlLaw_iff hput (cstr "ttl=3600") hjson ∅ (cstr "k")
  constructor
  · exact hlocal.mpr (by decide +kernel)
  · exact (hreplicated 2 (cstr "a") (by decide) rfl).mpr (by decide +kernel)

/-- **The expiry overflows, and it loses a second**: the largest `ttl` does not fit next to
the time of the put; one that expires in second 4503599627370501 is printed as 4503599627370500. -/
theorem expiry_overflows_or_rounds :
    ¬ TtlLaw some 1700000000 (requestTtl (cstr "ttl=9223372036854775807")) (cstr "k")
        (edbShardPut64 1700000000 ∅ (cstr "k") (cstr "1")
          (requestTtl (cstr "ttl=9223372036854775807"))) ∧
      jsonLongLong 1 4503599627370501 = some 4503599627370500 ∧
      ¬ TtlLaw some 1700000000 (requestTtl (cstr "ttl=4503597927370501")) (cstr "k")
        (replicatedPut64 1 1700000000 ∅ (cstr "k") (cstr "1")
          (requestTtl (cstr "ttl=4503597927370501")) (cstr "a")) := by
  have hjson : cstr "1" ≠ [] ∧ (some (cstr "1")).isSome = true := ⟨by decide, rfl⟩
  refine ⟨fun hlaw => ?_, by decide +kernel, fun hlaw => ?_⟩
  · exact absurd ((ttlLaw_local_iff hjson (by decide)).mp hlaw) (by decide +kernel)
  · have hsurvives := (ttlLaw_replicated_iff hjson (by decide) (by decide) rfl).mp hlaw
    exact absurd hsurvives (by decide +kernel)

end Law

end EpsilonDB
