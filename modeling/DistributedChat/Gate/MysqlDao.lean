import DistributedChat.Lib.Threads

/-!
# Passwords at the gate

`PasswordHasher`, `ApplyPasswordUpgradeIfCurrent`, and `MigrateLegacyPasswords`, `UpdatePwd` and
`CheckPwd` of the gate's `MysqlDao`. Any number of threads of any number of gate instances take
turns at every SQL statement. A statement may fail, and one that writes may fail for the caller
after it has been committed.

The primitives of libsodium and the collation are parameters. A row also keeps the raw password it is meant to stand
for, which no statement but that of `UpdatePwd` changes.
-/

namespace DistributedChat.Gate

open Lib

abbrev Text := List Char

inductive Scheme
  | argon2id_raw
  | legacy_client_sha256
  | other (name : Text)
  deriving DecidableEq, Repr

/-- A row of the table `user`. -/
structure User where
  uid : ℕ
  name : Text
  email : Text
  pwd : Text
  password_scheme : Scheme
  /-- The raw password of the last committed `UpdatePwd`, or the original one. -/
  password : Text
  deriving DecidableEq, Repr

/-! ## Hashing -/

/-- `crypto_pwhash_str_alg` with its salt, `crypto_pwhash_str_verify`,
`crypto_pwhash_str_needs_rehash` and `crypto_hash_sha256` in hexadecimal digits; and how the database
compares texts, which the collation of the columns decides. -/
structure Primitives where
  pwhash_str : ℕ → Text → Text
  pwhash_str_verify : Text → Text → Bool
  pwhash_str_needs_rehash : Text → Bool
  sha256_hex : Text → Text
  sqlEq : Text → Text → Bool

def hashMark : Text := ['$', 'a', 'r', 'g', 'o', 'n', '2', 'i', 'd', '$']

def isEncodedHash (value : Text) : Bool := hashMark.isPrefixOf value

def hexDigits : Text :=
  ['0', '1', '2', '3', '4', '5', '6', '7', '8', '9', 'a', 'b', 'c', 'd', 'e', 'f']

/-- A password verifies against its own hashes only, hashes are encoded, and digests do not collide.
The collation tells a digest from every other one and from hashes. -/
structure Primitives.Ideal (prim : Primitives) : Prop where
  encoded : ∀ salt p, isEncodedHash (prim.pwhash_str salt p) = true
  verify : ∀ salt p q, prim.pwhash_str_verify (prim.pwhash_str salt q) p = true ↔ p = q
  sha_injective : Function.Injective prim.sha256_hex
  sha_hex : ∀ p, ∀ c ∈ prim.sha256_hex p, c ∈ hexDigits
  sha_ne_nil : ∀ p, prim.sha256_hex p ≠ []
  collation : ∀ a q, prim.sqlEq a (prim.sha256_hex q) = true →
    (∃ p, a = prim.sha256_hex p) ∨ (∃ salt p, a = prim.pwhash_str salt p) → a = prim.sha256_hex q

inductive Error
  | invalid_argument
  | runtime_error
  | sql
  deriving DecidableEq, Repr

/-! ## Effects -/

inductive Call
  | getConnection
  | pwhash (password : Text)
  /-- `SELECT uid, pwd FROM user`. -/
  | selectAll
  /-- `SELECT name,uid,pwd,password_scheme FROM user WHERE email = ?`. -/
  | selectByEmail (email : Text)
  /-- `UPDATE user SET pwd = ? WHERE uid = ? AND pwd = ?`. -/
  | updateMigrated (encoded : Text) (uid : ℕ) (plaintext : Text)
  /-- `UPDATE user SET pwd = ?, password_scheme = 'argon2id_raw' WHERE name = ?`, for a new
  password. -/
  | updateReset (hash : Text) (name newpwd : Text)
  /-- `UPDATE user SET pwd = ?, password_scheme = 'argon2id_raw' WHERE uid = ? AND BINARY pwd =
  BINARY ? AND password_scheme = ?`. -/
  | updateUpgraded (upgraded : Text) (uid : ℕ) (expected : Text) (scheme : Scheme)
  /-- A call begins, and a call of `CheckPwd` that began then returns true. -/
  | moment
  | grant (uid : ℕ) (pwd : Text) (began : ℕ)

abbrev Call.Answer : Call → Type
  | .getConnection => Bool
  | .pwhash _ => Option Text
  | .selectAll => Option (List (ℕ × Text))
  | .selectByEmail _ => Option (Option User)
  | .updateMigrated _ _ _ | .updateReset _ _ _ | .updateUpgraded _ _ _ _ => Option ℕ
  | .moment => ℕ
  | .grant _ _ _ => Unit

abbrev Svc := Task Call Call.Answer Error

/-- A call that cannot fail. -/
def call (e : Call) : Svc e.Answer := Task.perform e .ok

def orThrow {α : Type} (e : Error) : Option α → Except Error α
  | some a => .ok a
  | none => .error e

def hash (password : Text) : Svc Text :=
  if password = [] then Task.throw .invalid_argument
  else Task.perform (.pwhash password) (orThrow .runtime_error)

def selectAll : Svc (List (ℕ × Text)) := Task.perform .selectAll (orThrow .sql)

def selectByEmail (email : Text) : Svc (Option User) :=
  Task.perform (.selectByEmail email) (orThrow .sql)

def updateMigrated (encoded : Text) (uid : ℕ) (plaintext : Text) : Svc ℕ :=
  Task.perform (.updateMigrated encoded uid plaintext) (orThrow .sql)

def updateReset (password_hash name newpwd : Text) : Svc ℕ :=
  Task.perform (.updateReset password_hash name newpwd) (orThrow .sql)

def updateUpgraded (upgraded : Text) (uid : ℕ) (expected : Text) (scheme : Scheme) : Svc ℕ :=
  Task.perform (.updateUpgraded upgraded uid expected scheme) (orThrow .sql)

/-! ## `PasswordHasher` -/

structure PasswordVerificationResult where
  valid : Bool := false
  upgrade_required : Bool := false
  upgraded_hash : Text := []

namespace Primitives

variable (prim : Primitives)

def verify (password encoded_hash : Text) : Bool :=
  isEncodedHash encoded_hash && prim.pwhash_str_verify encoded_hash password

def needsRehash (encoded_hash : Text) : Bool :=
  !isEncodedHash encoded_hash || prim.pwhash_str_needs_rehash encoded_hash

def legacyClientSha256 (password : Text) : Text := prim.sha256_hex password

/-- `candidate` of `verifyCredential`, for the schemes it knows. -/
def candidate (raw_password : Text) : Scheme → Option Text
  | .argon2id_raw => some raw_password
  | .legacy_client_sha256 => some (prim.legacyClientSha256 raw_password)
  | .other _ => none

/-- `result.valid` of `verifyCredential`. -/
def matchesStored (candidate stored_hash : Text) : Bool :=
  if isEncodedHash stored_hash then prim.verify candidate stored_hash
  else candidate == stored_hash

def verifyCredential (raw_password stored_hash : Text) (password_scheme : Scheme) :
    Svc PasswordVerificationResult :=
  match prim.candidate raw_password password_scheme with
  | none => return {}
  | some candidate =>
    if prim.matchesStored candidate stored_hash = false then return {}
    else if isEncodedHash stored_hash = false ∨ password_scheme = .legacy_client_sha256 ∨
        prim.needsRehash stored_hash = true then do
      let upgraded_hash ← hash raw_password
      return { valid := true, upgrade_required := true, upgraded_hash }
    else return { valid := true }

end Primitives

/-- The upgrade only replaces the credential that has just been verified. -/
def ApplyPasswordUpgradeIfCurrent (verification : PasswordVerificationResult) (stored_hash : Text)
    (stored_scheme : Scheme) (compare_and_swap : Text → Text → Scheme → Svc ℕ) : Svc Bool :=
  if verification.upgrade_required = false then return true
  else do
    let changed ← compare_and_swap verification.upgraded_hash stored_hash stored_scheme
    return changed == 1

/-! ## `MysqlDao` -/

structure UserInfo where
  name : Text
  email : Text
  uid : ℕ

/-- What `CheckPwd` returns, and `*unavailable`. -/
structure Checked where
  userInfo : Option UserInfo := none
  unavailable : Bool := false

/-- The loop of `MigrateLegacyPasswords`. -/
def migrateRows : List (ℕ × Text) → Svc Unit
  | [] => return ()
  | (uid, plaintext) :: rest =>
    if plaintext = [] then migrateRows rest
    else do
      let encoded ← hash plaintext
      let _ ← updateMigrated encoded uid plaintext
      migrateRows rest

def MigrateLegacyPasswords : Svc Unit := do
  if (← call .getConnection) then
    Task.recover (do
      let rows ← selectAll
      migrateRows (rows.filter fun row => !isEncodedHash row.2)) fun _ => return ()
  else return ()

/-- Only an `SQLException` is caught. -/
def catchSql {α : Type} (p : Svc α) (otherwise : α) : Svc α :=
  Task.recover p fun e => if e = .sql then return otherwise else Task.throw e

def UpdatePwd (name newpwd : Text) : Svc Bool := do
  if (← call .getConnection) then
    catchSql (do
      let password_hash ← hash newpwd
      let _ ← updateReset password_hash name newpwd
      return true) false
  else return false

namespace Primitives

variable (prim : Primitives)

/-- `CheckPwd` from the row it has read. -/
def checkRow (email pwd : Text) (row : User) : Svc Checked := do
  let verification ← prim.verifyCredential pwd row.pwd row.password_scheme
  if verification.valid = false then return {}
  else do
    let upgrade_applied ← ApplyPasswordUpgradeIfCurrent verification row.pwd row.password_scheme
      fun upgraded expected scheme => updateUpgraded upgraded row.uid expected scheme
    if upgrade_applied then return { userInfo := some ⟨row.name, email, row.uid⟩ }
    else return {}

def CheckPwd (email pwd : Text) : Svc Checked := do
  if (← call .getConnection) then
    catchSql (do
      match (← selectByEmail email) with
      | none => return {}
      | some row => prim.checkRow email pwd row) { unavailable := true }
  else return { unavailable := true }

end Primitives

/-! ## The gates -/

/-- A call of `CheckPwd` that returned true: between which moments it ran. -/
structure Login where
  uid : ℕ
  pwd : Text
  began : ℕ
  ended : ℕ
  deriving DecidableEq, Repr

structure State where
  users : List User
  /-- The table before each statement that wrote to it, oldest first. -/
  past : List (List User) := []
  logins : List Login := []
  deriving DecidableEq

namespace State

def moment (s : State) : ℕ := s.past.length

def tableAt (s : State) (k : ℕ) : List User := (s.past ++ [s.users]).getD k []

/-- A statement that changes the rows that `p` selects. -/
def update (s : State) (p : User → Bool) (f : User → User) : State :=
  { s with
    users := s.users.map fun u => if p u then f u else u
    past := s.past ++ [s.users] }

end State

/-- The salt of a hash, and whether a statement fails and is applied all the same. -/
structure Pick where
  salt : ℕ := 0
  fails : Bool := false
  applied : Bool := false

def performUpdate (pick : Pick) (s : State) (p : User → Bool) (f : User → User) :
    Option (Option ℕ × State) :=
  if pick.fails then some (none, if pick.applied then s.update p f else s)
  else some (some (s.users.countP p), s.update p f)

def perform (prim : Primitives) (e : Call) (pick : Pick) (s : State) : Option (e.Answer × State) :=
  match e with
  | .getConnection => some (!pick.fails, s)
  | .pwhash password =>
    some (if pick.fails then none else some (prim.pwhash_str pick.salt password), s)
  | .selectAll =>
    some (if pick.fails then none else some (s.users.map fun u => (u.uid, u.pwd)), s)
  | .selectByEmail email =>
    some (if pick.fails then none else some (s.users.find? fun u => prim.sqlEq u.email email), s)
  | .updateMigrated encoded uid plaintext =>
    performUpdate pick s (fun u => u.uid == uid && prim.sqlEq u.pwd plaintext)
      fun u => { u with pwd := encoded }
  | .updateReset password_hash name newpwd =>
    performUpdate pick s (fun u => prim.sqlEq u.name name)
      fun u => { u with
        pwd := password_hash
        password_scheme := .argon2id_raw
        password := newpwd }
  | .updateUpgraded upgraded uid expected scheme =>
    performUpdate pick s
      (fun u => u.uid == uid && u.pwd == expected && u.password_scheme == scheme)
      fun u => { u with
        pwd := upgraded
        password_scheme := .argon2id_raw }
  | .moment => some (s.moment, s)
  | .grant uid pwd began =>
    some ((), { s with logins := s.logins ++ [⟨uid, pwd, began, s.moment⟩] })

inductive Launch
  | migrate
  | updatePwd (name newpwd : Text)
  | checkPwd (email pwd : Text)

namespace Primitives

variable (prim : Primitives)

def program : Launch → Svc Unit
  | .migrate => MigrateLegacyPasswords
  | .updatePwd name newpwd => do
    let _ ← UpdatePwd name newpwd
  | .checkPwd email pwd => do
    let began ← call .moment
    let checked ← prim.CheckPwd email pwd
    match checked.userInfo with
    | none => return ()
    | some info => call (.grant info.uid pwd began)

/-- A row that stands for its password: the raw password hashed, or the digest of an old client,
hashed or not. No account has an empty password. -/
def Stands (u : User) : Prop :=
  u.password ≠ [] ∧
    (u.password_scheme = .argon2id_raw ∧ (∃ salt, u.pwd = prim.pwhash_str salt u.password) ∨
      u.password_scheme = .legacy_client_sha256 ∧ (u.pwd = prim.sha256_hex u.password ∨
          ∃ salt, u.pwd = prim.pwhash_str salt (prim.sha256_hex u.password)))

/-- The gates on their accounts. A thread may stop after any effect. -/
def gates : System ℕ Call Call.Answer (Except Error Unit) State where
  init s := (∀ u ∈ s.users, prim.Stands u) ∧ s.past = [] ∧ s.logins = []
  exec _ e s r s' := ∃ pick, perform prim e pick s = some (r, s')
  start _ _ p := ∃ l, p = prim.program l
  stop _ _ s s' := s' = s
  env _ _ := False

def launch (l : ℕ × Launch) (_ : State) : Option (ℕ × Svc Unit) := some (l.1, prim.program l.2)

end Primitives

end DistributedChat.Gate
