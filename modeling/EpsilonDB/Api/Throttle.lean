import EpsilonDB.Api.BodyCredentials
import EpsilonDB.Lib.Runs

/-!
# The throttle (`api/epsilon_api.c`)

Failed attempts are counted per source in a table of 64 slots, and after eight failures the
source is to be locked out for thirty seconds. The counter starts over whenever the lock of
the slot is not in the future, and a slot without a lock has its lock at second 0: no counter
gets past one, and nobody is ever locked out.

- `ThrottleCall`: a call of the three functions; `throttleRun`.
- `Harmless`: what every table is that can come about. No slot is locked, and a slot that is
  taken has one failure. A failure then only takes a slot, if one is there first.
- `throttle_per_source`: what one source does is nothing to another.
- `Door`: the attempts of all sources, over the open port and on the login page, with the
  failures in a row of each.
- `Door.LockoutEngages`: who failed eight times in a row within the period is locked out.
- `Door.lockoutEngages_iff`: nobody is.

Seconds are counted from the epoch of `time`. An address fits `char peer_ip[64]`.
-/

namespace EpsilonDB

/-! ## Calls -/

/-- `edb_auth_throttled`, `edb_auth_throttle_fail` and `edb_auth_throttle_reset`. -/
inductive ThrottleCall where
  | check (now : ℕ) (ip : CString)
  | fail (now : ℕ) (ip : CString)
  | reset (ip : CString)

/-- The source that a call is for. -/
def ThrottleCall.source : ThrottleCall → CString
  | .check _ ip | .fail _ ip | .reset ip => ip

/-- What a call makes of the table. -/
def ThrottleCall.run (attempts : List AuthAttempt) : ThrottleCall → List AuthAttempt
  | .check _ _ => attempts
  | .fail now ip => edbAuthThrottleFail now ip attempts
  | .reset ip => edbAuthThrottleReset ip attempts

/-- The table after some calls. -/
def throttleRun (attempts : List AuthAttempt) (calls : List ThrottleCall) : List AuthAttempt :=
  calls.foldl ThrottleCall.run attempts

/-- `g_auth_attempts` at the start. -/
def noAttempts : List AuthAttempt := List.replicate authAttemptSlots {}

/-- The failures counted for a source. -/
def failsOf (ip : CString) (attempts : List AuthAttempt) : ℕ :=
  ((attempts.find? fun a => a.ip == ip).map AuthAttempt.fails).getD 0

/-! ## Tables that can come about -/

/-- No slot is locked, and the slots that are taken have one failure each. -/
def Harmless (attempts : List AuthAttempt) : Prop :=
  ∀ a ∈ attempts, a.lockedUntil = 0 ∧ a.fails = if a.ip = [] then 0 else 1

variable {attempts : List AuthAttempt} {a : AuthAttempt} {ip : CString} {now : ℕ}

theorem harmless_noAttempts : Harmless noAttempts := by
  intro a ha
  obtain rfl := List.eq_of_mem_replicate ha
  exact ⟨rfl, rfl⟩

theorem snprintf_ne_nil (hip : ip ≠ []) : snprintf 64 ip ≠ [] := by
  cases ip with
  | nil => exact absurd rfl hip
  | cons b ip => exact List.cons_ne_nil b _

/-- **A failure** starts the count over. -/
theorem AuthAttempt.fail_of_harmless (hlocked : a.lockedUntil = 0) (now : ℕ) (ip : CString) :
    a.fail now ip = ⟨if a.ip = [] then snprintf 64 ip else a.ip, 1, 0⟩ := by
  have hcount : ∀ b : AuthAttempt, b.lockedUntil = 0 →
      (if (now : Int) < b.lockedUntil ∧ authMaxFails ≤ b.fails then
        { b with lockedUntil := now + authLockoutSecs }
      else
        let fails := (if b.lockedUntil ≤ now then 0 else b.fails) + 1
        { b with
          fails
          lockedUntil := if authMaxFails ≤ fails then now + authLockoutSecs
            else b.lockedUntil } : AuthAttempt) = ⟨b.ip, 1, 0⟩ := by
    intro b hb
    have hpast : b.lockedUntil ≤ (now : Int) := by omega
    rw [if_neg fun h => absurd h.1 (not_lt.mpr hpast), if_pos hpast]
    dsimp only
    rw [if_neg (by decide), hb]
  unfold fail
  dsimp only
  by_cases hempty : a.ip = []
  · rw [if_pos hempty, if_pos hempty]
    exact hcount { a with ip := snprintf 64 ip } hlocked
  · rw [if_neg hempty, if_neg hempty]
    exact hcount a hlocked

theorem Harmless.modify (h : Harmless attempts) {i : ℕ} {f : AuthAttempt → AuthAttempt}
    (hf : ∀ a ∈ attempts, (f a).lockedUntil = 0 ∧ (f a).fails = if (f a).ip = [] then 0 else 1) :
    Harmless (attempts.modify i f) := by
  intro b hb
  obtain ⟨j, hj⟩ := List.getElem?_of_mem hb
  rw [List.getElem?_modify] at hj
  obtain ⟨a, ha, rfl⟩ := Option.map_eq_some_iff.mp hj
  have hmem := List.mem_of_getElem? ha
  split
  · exact hf a hmem
  · exact h a hmem

/-- **No call does harm.** -/
theorem Harmless.run (h : Harmless attempts) (c : ThrottleCall) : Harmless (c.run attempts) := by
  cases c with
  | check => exact h
  | fail now ip =>
    show Harmless (edbAuthThrottleFail now ip attempts)
    unfold edbAuthThrottleFail
    split
    · exact h
    · next hip =>
      split
      · exact h
      · refine h.modify fun a ha => ?_
        rw [AuthAttempt.fail_of_harmless (h a ha).1]
        by_cases hempty : a.ip = []
        · simp [hempty, snprintf_ne_nil hip]
        · simp [hempty]
  | reset ip =>
    show Harmless (edbAuthThrottleReset ip attempts)
    unfold edbAuthThrottleReset
    split
    · exact h
    · split
      · exact h
      · exact h.modify fun _ _ => ⟨rfl, rfl⟩

theorem Harmless.throttleRun (h : Harmless attempts) (calls : List ThrottleCall) :
    Harmless (throttleRun attempts calls) := by
  induction calls generalizing attempts with
  | nil => exact h
  | cons c calls ih => exact ih (h.run c)

/-- **Nobody is throttled.** -/
theorem Harmless.edbAuthThrottled (h : Harmless attempts) (now : Int) (ip : CString) :
    edbAuthThrottled now ip attempts = false := by
  unfold EpsilonDB.edbAuthThrottled
  rw [Bool.and_eq_false_iff]
  refine Or.inr ?_
  cases hslot : (authSlot now ip attempts).bind (attempts[·]?) with
  | none => rfl
  | some a =>
    obtain ⟨i, -, hi⟩ := Option.bind_eq_some_iff.mp hslot
    have hfails := (h a (List.mem_of_getElem? hi)).2
    have hone : a.fails ≤ 1 := by
      rw [hfails]
      split
      · exact Nat.zero_le 1
      · exact le_rfl
    exact decide_eq_false fun hboth => absurd (hboth.1.trans hone) (by decide)

/-! ## One source and another -/

theorem find?_modify_of_same {α : Type} {p : α → Bool} {f : α → α} (l : List α) (i : ℕ)
    (h : ∀ a, l[i]? = some a → f a = a ∨ p a = false ∧ p (f a) = false) :
    (l.modify i f).find? p = l.find? p := by
  induction l generalizing i with
  | nil => rw [List.modify_nil]
  | cons a l ih =>
    cases i with
    | zero =>
      rw [List.modify_zero_cons]
      rcases h a rfl with hsame | ⟨hold, hnew⟩
      · rw [hsame]
      · rw [List.find?_cons_of_neg (by simp [hnew]), List.find?_cons_of_neg (by simp [hold])]
    | succ i =>
      rw [List.modify_succ_cons, List.find?_cons, List.find?_cons, ih i h]

/-- **The entry of another source** stays what it is. -/
theorem Harmless.find?_run (h : Harmless attempts) {c : ThrottleCall} {other : CString}
    (hfits : c.source.length < 64) (hne : c.source ≠ other) (hother : other ≠ []) :
    (c.run attempts).find? (fun a => a.ip == other) = attempts.find? fun a => a.ip == other := by
  cases c with
  | check => rfl
  | fail now ip =>
    -- the slot that is written is empty or the source's own, and in both cases not the other's
    show (edbAuthThrottleFail now ip attempts).find? _ = _
    unfold edbAuthThrottleFail
    split
    · rfl
    · split
      · rfl
      · refine find?_modify_of_same attempts _ fun a ha => ?_
        have hharmless := h a (List.mem_of_getElem? ha)
        rw [AuthAttempt.fail_of_harmless hharmless.1]
        by_cases hempty : a.ip = []
        · refine Or.inr ⟨?_, ?_⟩
          · rw [hempty]
            exact beq_eq_false_iff_ne.mpr (Ne.symm hother)
          · have hlength : ip.length < 64 := hfits
            rw [if_pos hempty, snprintf_of_lt hlength]
            exact beq_eq_false_iff_ne.mpr hne
        · left
          rw [if_neg hempty, ← hharmless.1]
          have hone : a.fails = 1 := by rw [hharmless.2, if_neg hempty]
          rw [← hone]
  | reset ip =>
    -- only an entry with the source's address is cleared
    show (edbAuthThrottleReset ip attempts).find? _ = _
    unfold edbAuthThrottleReset
    split
    · rfl
    · split
      · rfl
      · next i hi =>
        refine find?_modify_of_same attempts i fun a ha => Or.inr ⟨?_, ?_⟩
        · obtain ⟨hlt, hfound, -⟩ := List.findIdx?_eq_some_iff_getElem.mp hi
          rw [List.getElem?_eq_getElem hlt] at ha
          obtain rfl := Option.some.inj ha
          rw [beq_iff_eq.mp hfound]
          exact beq_eq_false_iff_ne.mpr hne
        · exact beq_eq_false_iff_ne.mpr (Ne.symm hother)

theorem Harmless.failsOf_throttleRun (h : Harmless attempts) {calls : List ThrottleCall}
    {other : CString} (hcalls : ∀ c ∈ calls, c.source = ip) (hfits : ip.length < 64)
    (hne : ip ≠ other) (hother : other ≠ []) :
    failsOf other (EpsilonDB.throttleRun attempts calls) = failsOf other attempts := by
  induction calls generalizing attempts with
  | nil => rfl
  | cons c calls ih =>
    obtain rfl := hcalls c List.mem_cons_self
    have hrest := ih (h.run c) fun d hd => hcalls d (List.mem_cons_of_mem c hd)
    refine hrest.trans ?_
    unfold failsOf
    rw [h.find?_run hfits hne hother]

/-- The failures of a source at some seconds. -/
def failuresAt (ip : CString) (times : List ℕ) : List ThrottleCall :=
  times.map fun now => .fail now ip

/-- **Throttling is per source**: after any calls, what is called for `a` changes neither
whether `b` is throttled, nor the failures counted for `b`, nor whether `b` is throttled after
further failures of its own. -/
theorem throttle_per_source {before calls : List ThrottleCall} {a b : CString}
    (hcalls : ∀ c ∈ calls, c.source = a) (hfits : a.length < 64) (hne : a ≠ b) (hb : b ≠ [])
    (now : Int) (times : List ℕ) :
    let attempts := throttleRun noAttempts before
    edbAuthThrottled now b (throttleRun attempts calls) = edbAuthThrottled now b attempts ∧
      failsOf b (throttleRun attempts calls) = failsOf b attempts ∧
      edbAuthThrottled now b (throttleRun (throttleRun attempts calls) (failuresAt b times)) =
        edbAuthThrottled now b (throttleRun attempts (failuresAt b times)) := by
  have hattempts : Harmless (throttleRun noAttempts before) :=
    harmless_noAttempts.throttleRun before
  refine ⟨?_, hattempts.failsOf_throttleRun hcalls hfits hne hb, ?_⟩
  · rw [(hattempts.throttleRun calls).edbAuthThrottled, hattempts.edbAuthThrottled]
  · rw [((hattempts.throttleRun calls).throttleRun _).edbAuthThrottled,
      (hattempts.throttleRun _).edbAuthThrottled]

/-- Somebody fails before the table is looked at, and a stranger after that. -/
theorem throttle_per_source_example :
    let attempts := throttleRun noAttempts [.fail 5 (cstr "10.0.0.1")]
    edbAuthThrottled 9 (cstr "10.0.0.1")
          (throttleRun attempts [.fail 6 (cstr "10.0.0.2"), .reset (cstr "10.0.0.2")]) =
        edbAuthThrottled 9 (cstr "10.0.0.1") attempts ∧
      failsOf (cstr "10.0.0.1")
          (throttleRun attempts [.fail 6 (cstr "10.0.0.2"), .reset (cstr "10.0.0.2")]) =
        failsOf (cstr "10.0.0.1") attempts ∧
      edbAuthThrottled 9 (cstr "10.0.0.1")
          (throttleRun (throttleRun attempts
            [.fail 6 (cstr "10.0.0.2"), .reset (cstr "10.0.0.2")])
            (failuresAt (cstr "10.0.0.1") [7, 8])) =
        edbAuthThrottled 9 (cstr "10.0.0.1")
          (throttleRun attempts (failuresAt (cstr "10.0.0.1") [7, 8])) :=
  throttle_per_source (a := cstr "10.0.0.2") (by decide) (by decide) (by decide) (by decide) 9
    [7, 8]

/-! ## Attempts of all sources -/

variable {σ D : Type} [Doubles D] (codec : Codec D)

/-- What happens at the door. The records and the sessions that an attempt finds are those of
its moment. -/
inductive DoorLabel (σ D : Type) [Doubles D] where
  | tick (secs : ℕ)
  | request (B : Backend σ D) (s : σ) (sessions : List Session) (req : AuthRequest)
  | login (B : Backend σ D) (s : σ) (req : AuthRequest)

/-- The table with the clock; for every source the failures in a row, and when it last
failed. -/
structure Door where
  attempts : List AuthAttempt := noAttempts
  clock : ℕ := 0
  streak : CString → ℕ := fun _ => 0
  latest : CString → ℕ := fun _ => 0

namespace Door

/-- An attempt from an address went well or failed. -/
def count (d : Door) (req : AuthRequest) (ok : Bool) (attempts : List AuthAttempt) : Door :=
  if req.trusted then { d with attempts }
  else if ok then { d with attempts, streak := Function.update d.streak req.peerIp 0 }
  else
    { d with
      attempts
      streak := Function.update d.streak req.peerIp (d.streak req.peerIp + 1)
      latest := Function.update d.latest req.peerIp d.clock }

/-- A step. -/
def step (d : Door) : DoorLabel σ D → Option Door
  | .tick secs => some { d with clock := d.clock + secs }
  | .request B s sessions req =>
    let out := authenticate codec B d.clock req s ⟨sessions, d.attempts⟩
    some (d.count req out.1.2 out.2.attempts)
  | .login B s req =>
    let out := handleAdminLogin codec B d.clock req s d.attempts
    some (d.count req out.1.isSome out.2)

/-- The last attempts of a source failed, eight at least, and the period is not over. -/
def Due (d : Door) (ip : CString) : Prop :=
  ip ≠ [] ∧ authMaxFails ≤ d.streak ip ∧ (d.clock : Int) < d.latest ip + authLockoutSecs

/-- The source is locked out. -/
def LockedOut (d : Door) (ip : CString) : Prop :=
  edbAuthThrottled d.clock ip d.attempts = true

/-- Who is due is locked out. -/
def LockoutEngages (d : Door) : Prop := ∀ ip, d.Due ip → d.LockedOut ip

instance (d : Door) (ip : CString) : Decidable (d.Due ip) := inferInstanceAs (Decidable (_ ∧ _))

instance (d : Door) (ip : CString) : Decidable (d.LockedOut ip) :=
  inferInstanceAs (Decidable (_ = true))

variable {codec}

@[simp] theorem attempts_count (d : Door) (req : AuthRequest) (ok : Bool)
    (attempts : List AuthAttempt) : (d.count req ok attempts).attempts = attempts := by
  unfold count
  split
  · rfl
  · split
    · rfl
    · rfl

end Door

/-- A request makes at most one call. -/
theorem authenticate_attempts (codec : Codec D) (B : Backend σ D) (now : ℕ)
    (req : AuthRequest) (s : σ) (gate : Gate) : ∃ calls, (authenticate codec B now req s gate).2.attempts =
      throttleRun gate.attempts calls := by
  unfold authenticate
  split
  · exact ⟨[], rfl⟩
  · split
    · exact ⟨[], rfl⟩
    · dsimp only
      split
      · exact ⟨[], rfl⟩
      · split
        · exact ⟨[], rfl⟩
        · split
          · split
            · exact ⟨[.reset req.peerIp], rfl⟩
            · exact ⟨[.reset req.peerIp], rfl⟩
          · exact ⟨[.fail now req.peerIp], rfl⟩

/-- So does a login. -/
theorem handleAdminLogin_attempts (codec : Codec D) (B : Backend σ D) (now : ℕ)
    (req : AuthRequest) (s : σ) (attempts : List AuthAttempt) : ∃ calls,
      (handleAdminLogin codec B now req s attempts).2 = throttleRun attempts calls := by
  unfold handleAdminLogin
  split
  · exact ⟨[], rfl⟩
  · split
    · exact ⟨[], rfl⟩
    · split
      · dsimp only
        split
        · split
          · exact ⟨[], rfl⟩
          · exact ⟨[.fail now req.peerIp], rfl⟩
        · split
          · exact ⟨[], rfl⟩
          · split
            · exact ⟨[], rfl⟩
            · exact ⟨[.reset req.peerIp], rfl⟩
      · exact ⟨[], rfl⟩

namespace Door

variable {codec}

theorem harmless_step {d d' : Door} {l : DoorLabel σ D} (h : Harmless d.attempts)
    (hstep : d.step codec l = some d') : Harmless d'.attempts := by
  cases l with
  | tick secs =>
    obtain rfl := Option.some.inj hstep
    exact h
  | request B s sessions req =>
    obtain ⟨calls, hcalls⟩ :=
      authenticate_attempts codec B d.clock req s ⟨sessions, d.attempts⟩
    rw [← Option.some.inj hstep, attempts_count, hcalls]
    exact h.throttleRun calls
  | login B s req =>
    obtain ⟨calls, hcalls⟩ :=
      handleAdminLogin_attempts codec B d.clock req s d.attempts
    rw [← Option.some.inj hstep, attempts_count, hcalls]
    exact h.throttleRun calls

/-- **The lockout never engages**: after whatever happened it does what it should only where
nobody is due. -/
theorem lockoutEngages_iff {ls : List (DoorLabel σ D)} {d : Door}
    (hrun : Runs.run (step codec) {} ls = some d) :
    d.LockoutEngages ↔ ∀ ip, ¬ d.Due ip := by
  have hharmless : Runs.Throughout (step codec) (fun d => Harmless d.attempts) {} ls :=
    Runs.throughout_of_inv (fun _ _ _ h hstep => harmless_step h hstep) harmless_noAttempts ls
  have hfree : ∀ ip, ¬ d.LockedOut ip := fun ip hlocked =>
    Bool.false_ne_true (((Runs.of_throughout hharmless hrun).edbAuthThrottled d.clock ip).symm.trans
      hlocked)
  constructor
  · exact fun hengages ip hdue => hfree ip (hengages ip hdue)
  · exact fun hnone ip hdue => absurd hdue (hnone ip)

/-! ## Eight guesses -/

/-- A name without its password. -/
def guess : AuthRequest where
  method := cstr "GET"
  path := cstr "/data/d/p/k"
  query := []
  headers := [(cstr "Authorization", cstr "Bearer admin")]
  body := []
  peerIp := cstr "10.0.0.1"

/-- A request of the source, on a node without users. -/
def guessed : DoorLabel (CString → Shard) Int :=
  .request (localBackend noteCodec (fun _ ks => ks) 0) (fun _ => ∅) [] guess

/-- Eight guesses in one second. -/
def eightGuesses : List (DoorLabel (CString → Shard) Int) :=
  .tick 100 :: List.replicate 8 guessed

/-- **Eight guesses** in a row, and the ninth would be heard. -/
theorem not_lockoutEngages_eightGuesses :
    ¬ Runs.Throughout (step noteCodec) LockoutEngages {} eightGuesses := by
  intro h
  obtain ⟨d, hrun, hdue, hfree⟩ :
      ∃ d ∈ Runs.run (step noteCodec) {} eightGuesses,
        d.Due (cstr "10.0.0.1") ∧ ¬ d.LockedOut (cstr "10.0.0.1") := by
    decide +kernel
  exact hfree (Runs.of_throughout h hrun _ hdue)

/-- Twenty seconds later it would be, too. -/
theorem lockoutEngages_iff_eightGuesses :
    ∃ d, Runs.run (step noteCodec) {} (eightGuesses ++ [.tick 20]) = some d ∧
      d.Due (cstr "10.0.0.1") ∧ (d.LockoutEngages ↔ ∀ ip, ¬ d.Due ip) := by
  obtain ⟨d, hrun, hdue⟩ :
      ∃ d ∈ Runs.run (step noteCodec) {} (eightGuesses ++ [.tick 20]),
        d.Due (cstr "10.0.0.1") := by
    decide +kernel
  exact ⟨d, hrun, hdue, lockoutEngages_iff hrun⟩

end Door

end EpsilonDB
