import EpsilonDB.Api.Accounts

/-!
# The check of a password (`engine/epsilon_config_entities.c`)

Of a password the first 256 bytes are hashed, with the salt before them. The hash is kept as
hexadecimal digits, and these are what the check compares.

- `hexDecode_hexPairs`: the digits stand for the digest.
- `Collides`: two inputs that the iterated digest does not tell apart.
- `hashPassword_eq_iff`: equal hashes under one salt.
- `edbUserVerifyPassword_iff`: which passwords are accepted, at any time after one was set.
- `longer_password_accepted`: one that is longer than the one that was set.
-/

namespace EpsilonDB

/-- The digest of the salt and the password, taken over and over. -/
def stretch (input : Bytes) : Bytes := edbSha256^[passwordIterations - 1] (edbSha256 input)

/-- What is hashed of a password. -/
def passwordInput (saltHex password : CString) : Bytes :=
  (hexDecode 16 saltHex).getD (List.replicate 16 0) ++ password.take 256

/-- Two inputs with the same digest. -/
def Collides (input input' : Bytes) : Prop := input ≠ input' ∧ stretch input = stretch input'

/-- The two digits of a byte. -/
theorem hexValue_digits (b : UInt8) :
    hexValue (hexDigits.getD (b >>> 4).toNat 0) = some (b >>> 4) ∧
      hexValue (hexDigits.getD (b &&& 15).toNat 0) = some (b &&& 15) ∧
      ((b >>> 4) <<< 4) ||| (b &&& 15) = b := by
  have hbyte : ∀ b : UInt8, hexValue (hexDigits.getD (b >>> 4).toNat 0) = some (b >>> 4) ∧
      hexValue (hexDigits.getD (b &&& 15).toNat 0) = some (b &&& 15) ∧
      ((b >>> 4) <<< 4) ||| (b &&& 15) = b := forall_byte (by decide +kernel)
  exact hbyte b

/-- **The digits** are read back. -/
theorem hexDecode_hexPairs (bytes : Bytes) :
    hexDecode bytes.length (bytes.flatMap fun (b : UInt8) =>
      [hexDigits.getD (b >>> 4).toNat 0, hexDigits.getD (b &&& 15).toNat 0]) = some bytes := by
  induction bytes with
  | nil => rfl
  | cons b bytes ih =>
    obtain ⟨hhigh, hlow, hbyte⟩ := hexValue_digits b
    rw [List.flatMap_cons, List.length_cons, List.cons_append, List.cons_append, List.nil_append,
      hexDecode, hhigh, hlow, ih]
    show some ((((b >>> 4) <<< 4) ||| (b &&& 15)) :: bytes) = some (b :: bytes)
    rw [hbyte]

theorem length_stretch (input : Bytes) : (stretch input).length = 32 :=
  length_iterate length_edbSha256 _ _

/-- Equal hashes stand for equal digests. -/
theorem hashPassword_eq_iff_stretch {salt p q : CString} :
    hashPassword salt p = hashPassword salt q ↔
      stretch (passwordInput salt p) = stretch (passwordInput salt q) := by
  constructor
  · intro h
    have hp := hexDecode_hexPairs (stretch (passwordInput salt p))
    have hq := hexDecode_hexPairs (stretch (passwordInput salt q))
    rw [length_stretch] at hp hq
    have hdigits : hexDecode 32 (hashPassword salt p) = hexDecode 32 (hashPassword salt q) :=
      congrArg (hexDecode 32) h
    exact Option.some.inj (hp.symm.trans (hdigits.trans hq))
  · intro h
    exact congrArg (List.flatMap fun (b : UInt8) =>
      [hexDigits.getD (b >>> 4).toNat 0, hexDigits.getD (b &&& 15).toNat 0]) h

/-- **Equal hashes** under one salt, but for a collision of the digest. -/
theorem hashPassword_eq_iff {salt p q : CString}
    (hfree : ¬ Collides (passwordInput salt p) (passwordInput salt q)) :
    hashPassword salt p = hashPassword salt q ↔ p.take 256 = q.take 256 := by
  rw [hashPassword_eq_iff_stretch]
  constructor
  · intro h
    have hinput : passwordInput salt p = passwordInput salt q := by
      by_contra hne
      exact hfree ⟨hne, h⟩
    exact List.append_cancel_left hinput
  · intro h
    rw [passwordInput, h]
    rfl

variable {D : Type} [Doubles D] {codec : Codec D} {shardKey : CString → CString → CString}
variable {engine : CString → Shard} {now : Int} {name p salt : CString}

theorem verifies_iff {groups : UInt64} {hash q : CString} :
    (Account.mk name groups (some (salt, hash))).verifies q = true ↔
      hashPassword salt q = hash := by
  rw [Account.verifies, Option.any_some, beq_iff_eq]

/-- What is stored when a password is set. -/
theorem edbUserSetPassword_cases {hash : CString}
    (hset : (edbUserSetPassword (localBackend codec shardKey now) name p salt hash engine).1 =
      true) :
    ∃ info, edbUserGet (localBackend codec shardKey now) engine name = some info ∧
      edbUserSetPassword (localBackend codec shardKey now) name p salt hash engine =
        store (localBackend codec shardKey now) cfgUsers name
          (passwordRecord name info.groups salt hash) engine := by
  unfold edbUserSetPassword at hset ⊢
  split at hset
  · cases hset
  · next hp =>
    rw [if_neg hp]
    cases hget : edbUserGet (localBackend codec shardKey now) engine name with
    | none =>
      rw [hget] at hset
      cases hset
    | some info => exact ⟨info, rfl, rfl⟩

/-- What is accepted at any time after a password was set: what has its hash. -/
theorem edbUserVerifyPassword_iff_hash
    (hset : (edbUserSetPassword (localBackend codec shardKey now) name p salt
      (hashPassword salt p) engine).1 = true)
    (hsalt : salt.length = 32)
    (hkeeps : ∀ info, edbUserGet (localBackend codec shardKey now) engine name = some info →
      codec.Keeps (passwordRecord name info.groups salt (hashPassword salt p)))
    (q : CString) (later : Int) :
    edbUserVerifyPassword (localBackend codec shardKey later)
        (edbUserSetPassword (localBackend codec shardKey now) name p salt (hashPassword salt p)
          engine).2 name q = true ↔ hashPassword salt q = hashPassword salt p := by
  obtain ⟨info, hget, hstore⟩ := edbUserSetPassword_cases hset
  have hfetch : fetch (localBackend codec shardKey later)
      (store (localBackend codec shardKey now) cfgUsers name
        (passwordRecord name info.groups salt (hashPassword salt p)) engine).2 cfgUsers name =
      some (passwordRecord name info.groups salt (hashPassword salt p)) :=
    fetch_store_later (hkeeps info hget) now later engine cfgUsers name
  rw [hstore, edbUserVerifyPassword_of_fetch hfetch,
    ofRecord_passwordRecord _ _ hsalt (length_hashPassword salt p), verifies_iff]

/-- **The check of a password** at any time after one was set: what it accepts agrees with that
one in the first 256 bytes. -/
theorem edbUserVerifyPassword_iff
    (hset : (edbUserSetPassword (localBackend codec shardKey now) name p salt
      (hashPassword salt p) engine).1 = true)
    (hsalt : salt.length = 32)
    (hkeeps : ∀ info, edbUserGet (localBackend codec shardKey now) engine name = some info →
      codec.Keeps (passwordRecord name info.groups salt (hashPassword salt p)))
    {q : CString} (hfree : ¬ Collides (passwordInput salt p) (passwordInput salt q))
    (later : Int) :
    edbUserVerifyPassword (localBackend codec shardKey later)
        (edbUserSetPassword (localBackend codec shardKey now) name p salt (hashPassword salt p)
          engine).2 name q = true ↔ q.take 256 = p.take 256 := by
  rw [edbUserVerifyPassword_iff_hash hset hsalt hkeeps, eq_comm, hashPassword_eq_iff hfree,
    eq_comm]

namespace Console

/-- A password of 256 bytes. -/
def fullPassword : CString := List.replicate 256 97

def fullTable : List (Json Int) :=
  [userUpdateRecord (cstr "admin") 1,
    passwordRecord (cstr "admin") 1 exampleSalt (hashPassword exampleSalt fullPassword)]

def fullCodec : Codec Int := tableCodec fullTable (by decide +kernel)

theorem keeps_fullTable :
    fullCodec.Keeps (userUpdateRecord (cstr "admin") 1) ∧
      fullCodec.Keeps (passwordRecord (cstr "admin") 1 exampleSalt
        (hashPassword exampleSalt fullPassword)) := by
  have hnodup : (fullTable.map fun v => v.text.take 60).Nodup := by decide +kernel
  have hparse : ∀ v ∈ fullTable, fullCodec.parse v.text = some v := fun v hv =>
    tableCodec_parse_text _ (fun v hv w hw h =>
      List.inj_on_of_nodup_map hnodup hv hw (congrArg (List.take 60) h)) hv
  exact ⟨⟨List.cons_ne_nil _ _, hparse _ List.mem_cons_self⟩,
    ⟨List.cons_ne_nil _ _, hparse _ (List.mem_cons_of_mem _ List.mem_cons_self)⟩⟩

/-- A store with an administrator. -/
def fullEngine : CString → Shard :=
  (store (localBackend fullCodec (fun _ ks => ks) 0) cfgUsers (cstr "admin")
    (userUpdateRecord (cstr "admin") 1) fun _ => ∅).2

/-- The administrator with a password of 256 bytes. -/
def fullAdmin : Bool × (CString → Shard) :=
  edbUserSetPassword (localBackend fullCodec (fun _ ks => ks) 1) (cstr "admin") fullPassword
    exampleSalt (hashPassword exampleSalt fullPassword) fullEngine

theorem get_fullEngine :
    edbUserGet (localBackend fullCodec (fun _ ks => ks) 1) fullEngine (cstr "admin") =
      some ⟨cstr "admin", 1⟩ := by
  have hfetch : fetch (localBackend fullCodec (fun _ ks => ks) 1) fullEngine cfgUsers
      (cstr "admin") = some (userUpdateRecord (cstr "admin") 1) :=
    fetch_store_later keeps_fullTable.1 0 1 _ _ _
  unfold edbUserGet
  rw [hfetch]
  rfl

theorem fst_fullAdmin : fullAdmin.1 = true := by
  unfold fullAdmin edbUserSetPassword
  rw [if_neg (by decide), get_fullEngine]
  rfl

theorem keeps_fullAdmin {info : UserInfo}
    (hinfo : edbUserGet (localBackend fullCodec (fun _ ks => ks) 1) fullEngine (cstr "admin") =
      some info) :
    fullCodec.Keeps (passwordRecord (cstr "admin") info.groups exampleSalt
      (hashPassword exampleSalt fullPassword)) := by
  rw [get_fullEngine] at hinfo
  cases hinfo
  exact keeps_fullTable.2

/-- Behind 256 bytes anything may follow. -/
theorem tail_accepted :
    edbUserVerifyPassword (localBackend fullCodec (fun _ ks => ks) 5) fullAdmin.2 (cstr "admin")
      (fullPassword ++ cstr "tail") = true := by
  have hinput : passwordInput exampleSalt fullPassword =
      passwordInput exampleSalt (fullPassword ++ cstr "tail") := by decide +kernel
  exact (edbUserVerifyPassword_iff fst_fullAdmin rfl (fun _ => keeps_fullAdmin)
    (fun h => h.1 hinput) 5).mpr (by decide +kernel)

/-- **A longer password** is accepted: the 257th byte does not count. -/
theorem longer_password_accepted :
    fullAdmin.1 = true ∧
      ¬ (edbUserVerifyPassword (localBackend fullCodec (fun _ ks => ks) 5) fullAdmin.2
          (cstr "admin") (fullPassword ++ [97]) = true ↔ fullPassword ++ [97] = fullPassword) := by
  have hinput : passwordInput exampleSalt fullPassword =
      passwordInput exampleSalt (fullPassword ++ [97]) := by decide +kernel
  have haccepted : edbUserVerifyPassword (localBackend fullCodec (fun _ ks => ks) 5) fullAdmin.2
      (cstr "admin") (fullPassword ++ [97]) = true :=
    (edbUserVerifyPassword_iff_hash fst_fullAdmin rfl (fun _ => keeps_fullAdmin) _ 5).mpr
      (hashPassword_eq_iff_stretch.mpr (congrArg stretch hinput.symm))
  refine ⟨fst_fullAdmin, fun h => ?_⟩
  have hself : fullPassword ++ [97] = fullPassword := h.mp haccepted
  exact List.cons_ne_nil _ _ (List.append_right_eq_self.mp hself)

end Console

end EpsilonDB
