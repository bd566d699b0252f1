import EpsilonDB.Api.Sessions

/-!
# Updates of a user record (`engine/epsilon_config_entities.c`)

`edb_user_set_groups` and `edb_user_set_password` both build the record anew. What a user
record says is a name, groups and credentials; each of the calls is meant to change one of
the last two.

- `Account`: what a record says; `Account.after`: what a call is meant to make of it.
- `Accounting.step`: a call on the configuration store, next to what it is meant to do.
- `AccountKept`: the stored record, `edb_user_get` and `edb_user_verify_password` all answer
  what is meant, at any time.
- `accountKept_iff`: so they do throughout exactly when no set of groups is assigned to a
  user that has credentials.
- `password_lost`: a password that a set of groups takes away.

A password is verified by its hash, under the salt that was drawn when it was set.
-/

namespace EpsilonDB

theorem length_iterate {f : Bytes → Bytes} {n : ℕ} (h : ∀ data, (f data).length = n) (k : ℕ)
    (data : Bytes) : (f^[k] (f data)).length = n := by
  induction k generalizing data with
  | zero => exact h data
  | succ k ih => exact ih (f data)

theorem length_hexPairs (bytes : Bytes) : (bytes.flatMap fun (b : UInt8) =>
    [hexDigits.getD (b >>> 4).toNat 0, hexDigits.getD (b &&& 15).toNat 0]).length =
      2 * bytes.length := by
  induction bytes with
  | nil => rfl
  | cons b bytes ih =>
    rw [List.flatMap_cons, List.length_append, ih]
    simp only [List.length_cons, List.length_nil]
    omega

theorem length_hashPassword (salt password : CString) :
    (hashPassword salt password).length = 64 := by
  unfold hashPassword
  rw [length_hexPairs, length_iterate length_edbSha256]

/-! ## What a record says -/

/-- The name, the groups, and the salt with the hash of the password. -/
structure Account where
  name : CString
  groups : UInt64
  credentials : Option (CString × CString)
deriving DecidableEq

/-- The password has the hash. -/
def Account.verifies (a : Account) (password : CString) : Bool :=
  a.credentials.any fun (salt, hash) => hashPassword salt password == hash

section

variable {D : Type} [Doubles D]

/-- The salt and the hash of a record, when they have the lengths of a salt and a hash. -/
def credentialsOf (obj : Json D) : Option (CString × CString) :=
  match obj.getStr (cstr "salt"), obj.getStr (cstr "password_hash") with
  | some salt, some hash =>
    if salt.length = 32 ∧ hash.length = 64 then some (salt, hash) else none
  | _, _ => none

/-- What a record says. -/
def Account.ofRecord (obj : Json D) : Account :=
  ⟨(userInfo obj).name, (userInfo obj).groups, credentialsOf obj⟩

theorem ofRecord_userUpdateRecord (name : CString) (groups : UInt64) :
    Account.ofRecord (userUpdateRecord name groups : Json D) =
      ⟨snprintf 128 name, groups, none⟩ := by
  unfold Account.ofRecord
  rw [groups_userUpdateRecord]
  rfl

theorem ofRecord_passwordRecord (name : CString) (groups : UInt64) {salt hash : CString}
    (hsalt : salt.length = 32) (hhash : hash.length = 64) :
    Account.ofRecord (passwordRecord name groups salt hash : Json D) =
      ⟨snprintf 128 name, groups, some (salt, hash)⟩ := by
  have hcredentials : credentialsOf (passwordRecord name groups salt hash : Json D) =
      some (salt, hash) := if_pos ⟨hsalt, hhash⟩
  unfold Account.ofRecord
  rw [groups_passwordRecord, hcredentials]
  rfl

variable {σ : Type} {B : Backend σ D} {s : σ} {name : CString} {obj : Json D}

theorem edbUserGet_of_fetch (h : fetch B s cfgUsers name = some obj)
    (hname : (Account.ofRecord obj).name ≠ []) :
    edbUserGet B s name =
      some ⟨(Account.ofRecord obj).name, (Account.ofRecord obj).groups⟩ := by
  unfold edbUserGet
  rw [h]
  exact if_neg hname

/-- `Account.verifies` for any hash. -/
theorem any_credentials (digest : CString → CString → CString) (salt hash password : CString) :
    ((if salt.length = 32 ∧ hash.length = 64 then some (salt, hash) else none).any
        fun (salt, hash) => digest salt password == hash) =
      (decide (salt.length = 32 ∧ hash.length = 64) && digest salt password == hash) := by
  by_cases hlengths : salt.length = 32 ∧ hash.length = 64
  · rw [decide_eq_true hlengths, Bool.true_and, if_pos hlengths]
    rfl
  · rw [decide_eq_false hlengths, Bool.false_and, if_neg hlengths]
    rfl

/-- A password is verified by what the record says. -/
theorem edbUserVerifyPassword_of_fetch (h : fetch B s cfgUsers name = some obj)
    (password : CString) :
    edbUserVerifyPassword B s name password = (Account.ofRecord obj).verifies password := by
  unfold edbUserVerifyPassword Account.verifies Account.ofRecord credentialsOf
  rw [h]
  dsimp only
  cases hsalt : obj.getStr (cstr "salt") with
  | none => rfl
  | some salt =>
    cases hhash : obj.getStr (cstr "password_hash") with
    | none => rfl
    | some hash => exact (any_credentials hashPassword salt hash password).symm

end

/-! ## Calls -/

/-- A call at a second; a salt is drawn for a password. -/
inductive UserCall where
  | setGroups (now : Int) (name : CString) (groups : UInt64)
  | setPassword (now : Int) (name password salt : CString)

/-- The user that a call is for. -/
def UserCall.user : UserCall → CString
  | .setGroups _ user _ | .setPassword _ user _ _ => user

/-- What a call is meant to make of the account of a user. -/
def Account.after (name : CString) (a : Account) : UserCall → Account
  | .setGroups _ user groups => if user = name then { a with groups } else a
  | .setPassword _ user password salt =>
    if user = name ∧ password ≠ [] then
      { a with credentials := some (salt, hashPassword salt password) }
    else a

/-- The configuration store of a node, and what is meant to be stored for a user. -/
structure Accounting where
  engine : CString → Shard
  account : Account

variable {D : Type} [Doubles D] (codec : Codec D) (shardKey : CString → CString → CString)
variable (name : CString)

/-- A call on the store. -/
def UserCall.run : UserCall → (CString → Shard) → CString → Shard
  | .setGroups now user groups, engine =>
    (edbUserSetGroups (localBackend codec shardKey now) user groups engine).2
  | .setPassword now user password salt, engine =>
    (edbUserSetPassword (localBackend codec shardKey now) user password salt
      (hashPassword salt password) engine).2

/-- A call, next to what it is meant to do. -/
def Accounting.step (s : Accounting) (c : UserCall) : Option Accounting :=
  some ⟨c.run codec shardKey s.engine, s.account.after name c⟩

/-- At any time the store answers what is meant. -/
structure AccountKept (s : Accounting) : Prop where
  record : ∀ now, (fetch (localBackend codec shardKey now) s.engine cfgUsers name).map
    Account.ofRecord = some s.account
  groups : ∀ now, edbUserGet (localBackend codec shardKey now) s.engine name =
    some ⟨s.account.name, s.account.groups⟩
  verifies : ∀ now password,
    edbUserVerifyPassword (localBackend codec shardKey now) s.engine name password =
      s.account.verifies password

/-- The salt has its length, and the record that the call writes is read back. -/
def UserCall.Legal (s : Accounting) : UserCall → Prop
  | .setGroups _ user groups => user = name → codec.Keeps (userUpdateRecord user groups)
  | .setPassword _ user password salt => user = name → password ≠ [] →
    salt.length = 32 ∧ codec.Keeps
      (passwordRecord user s.account.groups salt (hashPassword salt password))

/-- No set of groups is assigned to the user while there are credentials. -/
def UserCall.Spares (s : Accounting) : UserCall → Prop
  | .setGroups _ user _ => user = name → s.account.credentials = none
  | .setPassword .. => True

instance (s : Accounting) (c : UserCall) : Decidable (c.Spares name s) :=
  match c with
  | .setGroups _ user _ =>
    inferInstanceAs (Decidable (user = name → s.account.credentials = none))
  | .setPassword .. => isTrue trivial

variable {codec shardKey name} {s : Accounting} {engine : CString → Shard}

/-- **A stored record is found** at any time. -/
theorem fetch_store_later {obj : Json D} (hobj : codec.Keeps obj) (now later : Int)
    (engine : CString → Shard) (ks id : CString) :
    fetch (localBackend codec shardKey later)
        (store (localBackend codec shardKey now) ks id obj engine).2 ks id = some obj := by
  rw [store_snd, fetch_eq, Function.update_self, lookup_edbShardPut, if_pos rfl]
  show (if codec.print obj = [] then none else codec.parse (codec.print obj)) = some obj
  rw [if_neg hobj.print_ne, hobj.parse_print]

/-- The other records stay what they are. -/
theorem fetch_store_of_ne {obj : Json D} {id id' : CString} (hne : id' ≠ id) (now later : Int)
    (engine : CString → Shard) (ks : CString) :
    fetch (localBackend codec shardKey later)
        (store (localBackend codec shardKey now) ks id obj engine).2 ks id' =
      fetch (localBackend codec shardKey later) engine ks id' := by
  rw [store_snd, fetch_eq, Function.update_self, lookup_edbShardPut, if_neg hne, fetch_eq]

theorem accountKept_iff_record (hname : s.account.name ≠ []) :
    AccountKept codec shardKey name s ↔ ∀ now,
      (fetch (localBackend codec shardKey now) s.engine cfgUsers name).map Account.ofRecord =
        some s.account := by
  refine ⟨AccountKept.record, fun h => ?_⟩
  have hdoc : ∀ now, ∃ obj,
      fetch (localBackend codec shardKey now) s.engine cfgUsers name = some obj ∧
        Account.ofRecord obj = s.account := fun now => Option.map_eq_some_iff.mp (h now)
  refine ⟨h, fun now => ?_, fun now password => ?_⟩
  · obtain ⟨obj, hfetch, hobj⟩ := hdoc now
    rw [← hobj] at hname ⊢
    exact edbUserGet_of_fetch hfetch hname
  · obtain ⟨obj, hfetch, hobj⟩ := hdoc now
    rw [← hobj]
    exact edbUserVerifyPassword_of_fetch hfetch password

/-- A call for another user leaves the record. -/
theorem UserCall.fetch_run_of_ne {c : UserCall} (hne : name ≠ c.user) (later : Int) :
    fetch (localBackend codec shardKey later) (c.run codec shardKey engine) cfgUsers name =
      fetch (localBackend codec shardKey later) engine cfgUsers name := by
  cases c with
  | setGroups now user groups =>
    show fetch _ (edbUserSetGroups _ user groups engine).2 cfgUsers name = _
    unfold edbUserSetGroups
    split
    · exact fetch_store_of_ne hne now later engine cfgUsers
    · rfl
  | setPassword now user password salt =>
    show fetch _ (edbUserSetPassword _ user password salt _ engine).2 cfgUsers name = _
    unfold edbUserSetPassword
    split
    · rfl
    · split
      · rfl
      · exact fetch_store_of_ne hne now later engine cfgUsers

theorem Account.after_of_ne {a : Account} {c : UserCall} (hne : name ≠ c.user) :
    a.after name c = a := by
  cases c with
  | setGroups => exact if_neg (Ne.symm hne)
  | setPassword => exact if_neg fun h => hne h.1.symm

theorem Account.name_after (a : Account) (c : UserCall) : (a.after name c).name = a.name := by
  cases c with
  | setGroups => exact (apply_ite Account.name _ _ _).trans (ite_self _)
  | setPassword => exact (apply_ite Account.name _ _ _).trans (ite_self _)

/-- The new groups come without credentials. -/
theorem fetch_setGroups {now : Int} {groups : UInt64} (h : AccountKept codec shardKey name s)
    (hkeeps : codec.Keeps (userUpdateRecord name groups)) (later : Int) :
    (fetch (localBackend codec shardKey later)
        ((UserCall.setGroups now name groups).run codec shardKey s.engine) cfgUsers name).map
      Account.ofRecord = some ⟨snprintf 128 name, groups, none⟩ := by
  have hsome : (edbUserGet (localBackend codec shardKey now) s.engine name).isSome = true := by
    rw [h.groups now]
    rfl
  show (fetch _ (edbUserSetGroups _ name groups s.engine).2 cfgUsers name).map _ = _
  unfold edbUserSetGroups
  rw [if_pos hsome, fetch_store_later hkeeps, Option.map_some, ofRecord_userUpdateRecord]

/-- The new credentials come with the groups that are stored. -/
theorem fetch_setPassword {now : Int} {password salt : CString} (hpassword : password ≠ [])
    (h : AccountKept codec shardKey name s) (hsalt : salt.length = 32)
    (hkeeps : codec.Keeps
      (passwordRecord name s.account.groups salt (hashPassword salt password))) (later : Int) :
    (fetch (localBackend codec shardKey later)
        ((UserCall.setPassword now name password salt).run codec shardKey s.engine) cfgUsers
        name).map Account.ofRecord =
      some ⟨snprintf 128 name, s.account.groups, some (salt, hashPassword salt password)⟩ := by
  show (fetch _ (edbUserSetPassword _ name password salt _ s.engine).2 cfgUsers name).map _ = _
  unfold edbUserSetPassword
  rw [if_neg hpassword, h.groups now]
  dsimp only
  rw [fetch_store_later hkeeps, Option.map_some,
    ofRecord_passwordRecord _ _ hsalt (length_hashPassword salt password)]

/-- **One call** does what is meant unless it assigns groups to a user with credentials. -/
theorem accountKept_step {s' : Accounting} {c : UserCall} (hname : name ≠ [])
    (hown : s.account.name = snprintf 128 name) (h : AccountKept codec shardKey name s)
    (hlegal : c.Legal codec name s) (hstep : s.step codec shardKey name c = some s') :
    AccountKept codec shardKey name s' ↔ c.Spares name s := by
  have hne : snprintf 128 name ≠ [] := by
    cases name with
    | nil => exact absurd rfl hname
    | cons b name => exact List.cons_ne_nil b _
  obtain rfl : _ = s' := Option.some.inj hstep
  rw [accountKept_iff_record (by rwa [Account.name_after, hown])]
  dsimp only
  by_cases huser : name = c.user
  · cases c with
    | setGroups now user groups =>
      -- what is stored has the groups only, so the account is kept if it had no credentials
      obtain rfl : name = user := huser
      have hafter : s.account.after name (.setGroups now name groups) =
          { s.account with groups } := if_pos rfl
      simp only [fetch_setGroups h (hlegal rfl), hafter, ← hown, UserCall.Spares, forall_const,
        Option.some.injEq, Account.mk.injEq, true_and]
      exact eq_comm
    | setPassword now user password salt =>
      -- an empty password is refused, any other one is stored beside the groups that are there
      obtain rfl : name = user := huser
      refine iff_of_true (fun later => ?_) trivial
      by_cases hpassword : password = []
      · subst hpassword
        have hafter : s.account.after name (.setPassword now name [] salt) = s.account :=
          if_neg fun h => h.2 rfl
        have hrun : (UserCall.setPassword now name [] salt).run codec shardKey s.engine =
            s.engine := by
          show (edbUserSetPassword _ name [] salt _ s.engine).2 = s.engine
          unfold edbUserSetPassword
          rw [if_pos rfl]
        rw [hrun, hafter]
        exact h.record later
      · obtain ⟨hsalt, hkeeps⟩ := hlegal rfl hpassword
        rw [fetch_setPassword hpassword h hsalt hkeeps, ← hown]
        exact congrArg some (if_pos ⟨rfl, hpassword⟩).symm
  · refine iff_of_true (fun later => ?_) ?_
    · rw [UserCall.fetch_run_of_ne huser, Account.after_of_ne huser]
      exact h.record later
    · cases c with
      | setGroups => exact fun h => absurd h.symm huser
      | setPassword => trivial

/-- **User updates keep the other fields** throughout a sequence of calls exactly when groups
are assigned to the user only while there are no credentials. -/
theorem accountKept_iff {obj : Json D} {calls : List UserCall} (hname : name ≠ [])
    (hown : (userInfo obj).name = snprintf 128 name)
    (hstored : ∀ now, fetch (localBackend codec shardKey now) engine cfgUsers name = some obj)
    (hlegal : Runs.Along (Accounting.step codec shardKey name)
      (fun s c => UserCall.Legal codec name s c) ⟨engine, Account.ofRecord obj⟩ calls) :
    Runs.Throughout (Accounting.step codec shardKey name) (AccountKept codec shardKey name)
        ⟨engine, Account.ofRecord obj⟩ calls ↔
      Runs.Along (Accounting.step codec shardKey name) (fun s c => UserCall.Spares name s c)
        ⟨engine, Account.ofRecord obj⟩ calls := by
  have hne : snprintf 128 name ≠ [] := by
    cases name with
    | nil => exact absurd rfl hname
    | cons b name => exact List.cons_ne_nil b _
  have hfirst : AccountKept codec shardKey name ⟨engine, Account.ofRecord obj⟩ := by
    refine (accountKept_iff_record ?_).mpr fun now => ?_
    · show (userInfo obj).name ≠ []
      rwa [hown]
    · show (fetch _ engine cfgUsers name).map _ = _
      rw [hstored now, Option.map_some]
  have hnames : ∀ c ∈ calls, ∀ s s' : Accounting, s.account.name = snprintf 128 name →
      s.step codec shardKey name c = some s' → s'.account.name = snprintf 128 name := by
    intro c _ s s' hs hstep
    obtain rfl : _ = s' := Option.some.inj hstep
    exact (Account.name_after s.account c).trans hs
  rw [Runs.throughout_iff_of_inv hnames hown]
  refine Runs.throughout_iff_along_of hlegal (fun _ _ _ _ => nofun) ?_
    ⟨hown, hfirst⟩
  rintro c hc s s' hl ⟨hs, hkept⟩ hstep
  rw [and_iff_right (hnames c hc s s' hs hstep)]
  exact accountKept_step hname hs hkept hl hstep

/-! ## An administrator -/

namespace Console

/-- A store with an administrator that has no password yet. -/
def adminEngine : CString → Shard :=
  (store (localBackend consoleCodec (fun _ ks => ks) 0) cfgUsers (cstr "admin")
    (userUpdateRecord (cstr "admin") 1) fun _ => ∅).2

/-- What its record says. -/
def adminAccount : Account := Account.ofRecord (userUpdateRecord (cstr "admin") 1 : Json Int)

theorem fetch_adminEngine (now : Int) :
    fetch (localBackend consoleCodec (fun _ ks => ks) now) adminEngine cfgUsers (cstr "admin") =
      some (userUpdateRecord (cstr "admin") 1) :=
  fetch_store_later keeps_setup.1 0 now _ _ _

/-- The administrator gets a password. -/
def setSecret : UserCall := .setPassword 1 (cstr "admin") (cstr "secret") exampleSalt

theorem legal_setSecret : setSecret.Legal consoleCodec (cstr "admin")
    ⟨adminEngine, adminAccount⟩ :=
  fun _ _ => ⟨rfl, keeps_setup.2⟩

/-- **A password is lost** when the administrator is given the same groups once more. -/
theorem password_lost :
    ¬ Runs.Throughout (Accounting.step consoleCodec (fun _ ks => ks) (cstr "admin"))
      (AccountKept consoleCodec (fun _ ks => ks) (cstr "admin")) ⟨adminEngine, adminAccount⟩
      [setSecret, .setGroups 2 (cstr "admin") 1] := by
  rintro ⟨-, hkept, hlost⟩
  have hspares := (accountKept_step (c := .setGroups 2 (cstr "admin") 1) (by decide)
    ((Account.name_after _ setSecret).trans rfl) hkept (fun _ => keeps_setup.1) rfl).mp hlost rfl
  have hcredentials : (adminAccount.after (cstr "admin") setSecret).credentials =
      some (exampleSalt, adminHash) :=
    congrArg Account.credentials (if_pos ⟨rfl, by decide⟩)
  exact Option.some_ne_none _ (hcredentials.symm.trans hspares)

/-- Groups, then a password, then groups for somebody else. -/
def orderlyUpdates : List UserCall :=
  [.setGroups 0 (cstr "admin") 1, setSecret, .setGroups 2 (cstr "ann") 2]

/-- In that order nothing is lost. -/
theorem accountKept_iff_orderlyUpdates :
    Runs.Throughout (Accounting.step consoleCodec (fun _ ks => ks) (cstr "admin"))
        (AccountKept consoleCodec (fun _ ks => ks) (cstr "admin")) ⟨adminEngine, adminAccount⟩
        orderlyUpdates ↔
      Runs.Along (Accounting.step consoleCodec (fun _ ks => ks) (cstr "admin"))
        (fun s c => UserCall.Spares (cstr "admin") s c) ⟨adminEngine, adminAccount⟩
        orderlyUpdates :=
  accountKept_iff (by decide) (by decide +kernel) fetch_adminEngine
    ⟨fun _ => keeps_setup.1, legal_setSecret, fun h => absurd h (by decide), trivial⟩

end Console

end EpsilonDB
