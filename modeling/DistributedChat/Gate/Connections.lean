import DistributedChat.Gate.MysqlDao
import DistributedChat.Lib.Custody

/-!
# Connections of the gate

The database operations of the gate's `MysqlDao` as users of the connection pool. Every call of the
driver may throw an `SQLException`, every call of `PasswordHasher` what its code throws. A
connection is held by a local `unique_ptr`, which is empty once it has been moved to
`returnConnection`; when the function is left, whatever it still holds is destroyed. The pool counts
a connection that it lent as live until it is given back, so that one that is destroyed elsewhere
takes up its slot for good.

1. The six operations, with their exits.
2. `discipline`: what an operation may do with its connection. All of them keep to it; only
   `UpdatePwd` ever leaves its connection to be destroyed, namely if `PasswordHasher::hash` throws.
3. `connections_returned_iff`: with no operation in progress, every connection has been given back
   exactly once, unless `hash` threw in an `UpdatePwd`.
-/

namespace DistributedChat.Gate

open Lib List
open Function (update update_self update_of_ne update_eq_self)

namespace Connections

/-! ## Effects -/

/-- The calls of the driver. A result set is represented by the number of rows left in it. -/
inductive SqlCall
  | createStatement
  | prepareStatement (text : String)
  | setString (index : ℕ) (value : Text)
  | setInt (index : ℕ) (value : ℤ)
  | execute (text : String)
  | executeUpdate
  | executeQuery
  | next
  | getString (column : String)
  | getInt (column : String)
  | setAutoCommit (on : Bool)
  | rollback
  | commit

abbrev SqlCall.Result : SqlCall → Type
  | .execute _ | .executeUpdate => ℤ
  | .executeQuery => ℕ
  | .getString _ => Text
  | .getInt _ => ℤ
  | _ => Unit

/-- What `PasswordHasher` throws. -/
inductive HashFault
  | sodium
  | empty
  | pwhash
  deriving DecidableEq, Repr

def HashFault.what : HashFault → String
  | .sodium => "libsodium initialization failed"
  | .empty => "password must not be empty"
  | .pwhash => "password hashing failed"

/-- The operations that call `PasswordHasher::hash`. -/
inductive Caller
  | migrateLegacyPasswords
  | regUserTransaction
  | updatePwd
  deriving DecidableEq, Repr

/-- Effects; a connection is named by the number of the loan it was obtained in. -/
inductive Op
  | getConnection
  | returnConnection (con : ℕ)
  /-- The destructor of the local pointer. -/
  | destroy (con : ℕ)
  | hash (caller : Caller) (password : Text)
  | verifyCredential (raw_password stored_hash stored_scheme : Text)
  | sql (call : SqlCall)

abbrev Op.Answer : Op → Type
  | .getConnection => Option ℕ
  | .returnConnection _ | .destroy _ => Unit
  | .hash _ _ => Except HashFault Text
  | .verifyCredential _ _ _ => Except HashFault PasswordVerificationResult
  | .sql call => Except (ℕ × String) call.Result

/-- Exceptions: an `SQLException` with its code and text, or another one with its text. -/
inductive Fault
  | sqlException (code : ℕ) (what : String)
  | other (what : String)
  deriving DecidableEq, Repr

abbrev Dao := Task Op Op.Answer Fault

def sql (call : SqlCall) : Dao call.Result :=
  Task.perform (.sql call) fun r => r.mapError fun e => .sqlException e.1 e.2

def hash (caller : Caller) (password : Text) : Dao Text :=
  Task.perform (.hash caller password) fun r => r.mapError fun e => .other e.what

def verifyCredential (raw_password stored_hash stored_scheme : Text) :
    Dao PasswordVerificationResult :=
  Task.perform (.verifyCredential raw_password stored_hash stored_scheme) fun r =>
    r.mapError fun e => .other e.what

/-- `returnConnection`; a null pointer is ignored. -/
def returnConnection : Option ℕ → Dao Unit
  | none => return ()
  | some con => Task.perform (.returnConnection con) .ok

def destroy : Option ℕ → Dao Unit
  | none => return ()
  | some con => Task.perform (.destroy con) .ok

/-- `auto con = pool_->getConnection();`, and the rest of the function. -/
def withConnection {α : Type} (body : Option ℕ → Dao α) : Dao α :=
  Task.perform .getConnection .ok >>= fun con => Task.ensuring (body con) (destroy con)

/-- A `Defer` that gives the connection back. -/
def defer {α : Type} (con : Option ℕ) (body : Dao α) : Dao α :=
  Task.ensuring body (returnConnection con)

/-- `catch (sql::SQLException&)`. -/
def catchSql {α : Type} (p : Dao α) (handler : ℕ → String → Dao α) : Dao α :=
  Task.recover p fun e =>
    match e with
    | .sqlException code what => handler code what
    | .other _ => Task.throw e

/-- `next()` on a result set with so many rows left. -/
def next (rows : ℕ) : Dao Bool := do
  sql .next
  return 0 < rows

/-! ## The operations -/

def EnsurePasswordSchemeColumn : Dao Unit :=
  withConnection fun con =>
    if con = none then
      Task.throw (.other "password scheme migration failed: database unavailable")
    else
      defer con (catchSql (do
        catchSql (do
          sql .createStatement
          let _ ← sql (.execute ("ALTER TABLE user ADD COLUMN password_scheme VARCHAR(32) " ++
            "NOT NULL DEFAULT 'legacy_client_sha256'"))
          return ()) fun code what =>
            if code ≠ 1060 then Task.throw (.sqlException code what) else return ()
        sql .createStatement
        let _ ← sql (.execute "ALTER TABLE user ALTER password_scheme SET DEFAULT 'argon2id_raw'")
        return ()) fun _ what => Task.throw (.other ("password scheme migration failed: " ++ what)))

/-- The rows of `MigrateLegacyPasswords` that are not hashed. -/
def readLegacy : ℕ → Dao (List (ℤ × Text))
  | 0 => do
    let _ ← next 0
    return []
  | rows + 1 => do
    let _ ← next (rows + 1)
    let stored_password ← sql (.getString "pwd")
    if isEncodedHash stored_password then readLegacy rows
    else do
      let uid ← sql (.getInt "uid")
      let rest ← readLegacy rows
      return (uid, stored_password) :: rest

/-- The updates of `MigrateLegacyPasswords`. -/
def migrateLegacy : List (ℤ × Text) → Dao Unit
  | [] => return ()
  | (uid, plaintext) :: rest =>
    if plaintext = [] then migrateLegacy rest
    else do
      let encoded ← hash .migrateLegacyPasswords plaintext
      sql (.prepareStatement "UPDATE user SET pwd = ? WHERE uid = ? AND pwd = ?")
      sql (.setString 1 encoded)
      sql (.setInt 2 uid)
      sql (.setString 3 plaintext)
      let _ ← sql .executeUpdate
      migrateLegacy rest

def MigrateLegacyPasswords : Dao Unit :=
  withConnection fun con =>
    if con = none then return ()
    else
      defer con (Task.recover (do
        sql (.prepareStatement "SELECT uid, pwd FROM user")
        let rows ← sql .executeQuery
        let legacy_passwords ← readLegacy rows
        migrateLegacy legacy_passwords) fun _ => return ())

/-- `RegUserTransaction` once name and address are known to be free. -/
def insertUser (name email password_hash icon : Text) : Dao ℤ := do
  sql (.prepareStatement "UPDATE user_id SET id = id + 1")
  let _ ← sql .executeUpdate
  sql (.prepareStatement "SELECT id FROM user_id")
  let res_uid ← sql .executeQuery
  if (← next res_uid) then do
    let newId ← sql (.getInt "id")
    sql (.prepareStatement
      ("INSERT INTO user (uid, name, email, pwd, nick, icon) " ++ "VALUES (?, ?, ?, ?,?,?)"))
    sql (.setInt 1 newId)
    sql (.setString 2 name)
    sql (.setString 3 email)
    sql (.setString 4 password_hash)
    sql (.setString 5 name)
    sql (.setString 6 icon)
    let _ ← sql .executeUpdate
    sql .commit
    return newId
  else do
    sql .rollback
    return -1

/-- The handler rolls back, which may throw again. -/
def RegUserTransaction (name email pwd icon : Text) : Dao ℤ :=
  withConnection fun con =>
    if con = none then return 0
    else
      defer con (catchSql (do
        let password_hash ← hash .regUserTransaction pwd
        sql (.setAutoCommit false)
        sql (.prepareStatement "SELECT 1 FROM user WHERE email = ?")
        sql (.setString 1 email)
        let res_email ← sql .executeQuery
        if (← next res_email) then do
          sql .rollback
          return 0
        else do
          sql (.prepareStatement "SELECT 1 FROM user WHERE name = ?")
          sql (.setString 1 name)
          let res_name ← sql .executeQuery
          if (← next res_name) then do
            sql .rollback
            return 0
          else insertUser name email password_hash icon) fun _ _ => do
            sql .rollback
            return -1)

def CheckEmail (name email : Text) : Dao Bool :=
  withConnection fun con =>
    catchSql (if con = none then do
        returnConnection con
        return false
      else do
        sql (.prepareStatement "SELECT email FROM user WHERE name = ?")
        sql (.setString 1 name)
        let res ← sql .executeQuery
        -- every path through the loop returns, so that it runs at most once
        if (← next res) then do
          let stored ← sql (.getString "email")
          if email ≠ stored then do
            returnConnection con
            return false
          else do
            returnConnection con
            return true
        else do
          returnConnection con
          return false) fun _ _ => do
            returnConnection con
            return false

def UpdatePwd (name newpwd : Text) : Dao Bool :=
  withConnection fun con =>
    catchSql (if con = none then do
        returnConnection con
        return false
      else do
        let password_hash ← hash .updatePwd newpwd
        sql (.prepareStatement
          "UPDATE user SET pwd = ?, password_scheme = 'argon2id_raw' WHERE name = ?")
        sql (.setString 2 name)
        sql (.setString 1 password_hash)
        let _ ← sql .executeUpdate
        returnConnection con
        return true) fun _ _ => do
          returnConnection con
          return false

/-- `ApplyPasswordUpgradeIfCurrent` with the statement of `CheckPwd`. -/
def upgradeIfCurrent (verification : PasswordVerificationResult) (stored_hash stored_scheme : Text)
    (uid : ℤ) : Dao Bool :=
  if verification.upgrade_required = false then return true
  else do
    sql (.prepareStatement
      ("UPDATE user SET pwd = ?, " ++ "password_scheme = 'argon2id_raw' WHERE uid = ? " ++
      "AND BINARY pwd = BINARY ? AND password_scheme = ?"))
    sql (.setString 1 verification.upgraded_hash)
    sql (.setInt 2 uid)
    sql (.setString 3 stored_hash)
    sql (.setString 4 stored_scheme)
    let changed ← sql .executeUpdate
    return changed == 1

/-- What `CheckPwd` makes of the row it found. -/
def checkFound (email pwd : Text) : Dao Checked := do
  let stored_hash ← sql (.getString "pwd")
  let stored_scheme ← sql (.getString "password_scheme")
  let verification ← verifyCredential pwd stored_hash stored_scheme
  if verification.valid = false then return {}
  else do
    let uid ← sql (.getInt "uid")
    let upgrade_applied ← upgradeIfCurrent verification stored_hash stored_scheme uid
    if upgrade_applied = false then return {}
    else do
      let name ← sql (.getString "name")
      return { userInfo := some ⟨name, email, uid.toNat⟩ }

def CheckPwd (email pwd : Text) : Dao Checked :=
  withConnection fun con =>
    defer con (catchSql (if con = none then return { unavailable := true }
      else do
        sql (.prepareStatement "SELECT name,uid,pwd,password_scheme FROM user WHERE email = ?")
        sql (.setString 1 email)
        let res ← sql .executeQuery
        if (← next res) then checkFound email pwd
        else return {}) fun _ _ => return { unavailable := true })

/-! ## The loans -/

/-- The loans of the pool: how many there were, which connections were given back, and which were
destroyed without being given back. `hashFailures` counts how often `hash` threw in an `UpdatePwd`.
-/
structure Ledger where
  borrowed : ℕ := 0
  returned : List ℕ := []
  destroyed : List ℕ := []
  hashFailures : ℕ := 0
  deriving DecidableEq, Repr

namespace Ledger

/-- An answer that an effect may have: a loan is a new one, and `hash` rejects exactly the empty
password. -/
def Possible (l : Ledger) : (e : Op) → e.Answer → Prop
  | .getConnection, r => r = none ∨ r = some l.borrowed
  | .hash _ password, .ok _ => password ≠ []
  | .hash _ password, .error fault => fault = .sodium ∨ (fault = .empty ↔ password = [])
  | _, _ => True

/-- What an effect does. A pointer that has been moved is empty: it is neither given back again nor
destroyed. -/
def after (l : Ledger) : (e : Op) → e.Answer → Ledger
  | .getConnection, some _ => { l with borrowed := l.borrowed + 1 }
  | .returnConnection con, _ =>
    if con ∈ l.returned then l else { l with returned := l.returned ++ [con] }
  | .destroy con, _ =>
    if con ∈ l.returned then l else { l with destroyed := l.destroyed ++ [con] }
  | .hash .updatePwd _, .error _ => { l with hashFailures := l.hashFailures + 1 }
  | _, _ => l

/-- How many borrowers a pool of size `n` can serve while no operation is in progress. -/
def servable (l : Ledger) (n : ℕ) : ℕ := n - (l.borrowed - l.returned.length)

end Ledger

inductive Launch
  | ensurePasswordSchemeColumn
  | migrateLegacyPasswords
  | regUserTransaction (name email pwd icon : Text)
  | checkEmail (name email : Text)
  | updatePwd (name newpwd : Text)
  | checkPwd (email pwd : Text)

/-- A call; the caller catches what it throws. -/
def program : Launch → Dao Unit
  | .ensurePasswordSchemeColumn => EnsurePasswordSchemeColumn
  | .migrateLegacyPasswords => MigrateLegacyPasswords
  | .regUserTransaction name email pwd icon => do
    let _ ← RegUserTransaction name email pwd icon
  | .checkEmail name email => do
    let _ ← CheckEmail name email
  | .updatePwd name newpwd => do
    let _ ← UpdatePwd name newpwd
  | .checkPwd email pwd => do
    let _ ← CheckPwd email pwd

/-- Any number of operations at a time, in any order. -/
def gate : System ℕ Op Op.Answer (Except Fault Unit) Ledger where
  init l := l = {}
  exec _ e l r l' := l.Possible e r ∧ l' = l.after e r
  start _ _ p := ∃ launch, p = program launch
  stop _ p l l' := (∃ r, p = .ret r) ∧ l' = l
  env _ _ := False

/-! ## What an operation does with its connection -/

/-- Where an operation stands with its connection. -/
inductive Stage
  | fresh
  | holds (con : ℕ)
  /-- `hash` threw in `UpdatePwd`. -/
  | failing (con : ℕ)
  | gave (con : ℕ)
  | over
  deriving DecidableEq, Repr

/-- A connection is used while it is held, then given back, and the empty pointer is destroyed. Only
after a failure of `hash` in `UpdatePwd` the connection itself is destroyed. -/
def discipline : Monitor Op Op.Answer where
  Ghost := Stage
  allow
    | .fresh, .getConnection => True
    | .holds con, .returnConnection con' => con' = con
    | .holds _, .hash _ _ | .holds _, .verifyCredential _ _ _ | .holds _, .sql _ => True
    | .failing con, .destroy con' | .gave con, .destroy con' => con' = con
    | _, _ => False
  answer _ _ _ := True
  next
    | .fresh, .getConnection, none => .over
    | .fresh, .getConnection, some con => .holds con
    | .holds con, .returnConnection _, _ => .gave con
    | .holds con, .hash .updatePwd _, .error _ => .failing con
    | .failing _, .destroy _, _ | .gave _, .destroy _, _ => .over
    | m, _, _ => m
  final m := m = .over

section Keeps

variable {α β : Type} {con : ℕ}

/-- A part of an operation that only uses the connection. -/
def Keeps (con : ℕ) (p : Dao α) : Prop :=
  Meets discipline (fun m _ => m = .holds con) (.holds con) p

theorem keeps_pure (a : α) : Keeps con (pure a : Dao α) := Eq.refl (Stage.holds con)

theorem keeps_throw (e : Fault) : Keeps con (Task.throw e : Dao α) := Eq.refl (Stage.holds con)

variable {p : Dao α}

theorem keeps_bind {f : α → Dao β} (hp : Keeps con p) (hf : ∀ a, Keeps con (f a)) :
    Keeps con (p >>= f) := by
  apply Meets.andThen
  refine hp.weaken ?_
  rintro m (e | a) rfl
  · exact Eq.refl (Stage.holds con)
  · exact hf a

theorem keeps_recover {f : Fault → Dao α} (hp : Keeps con p) (hf : ∀ e, Keeps con (f e)) :
    Keeps con (Task.recover p f) := by
  apply Meets.recover
  refine hp.weaken ?_
  rintro m (e | a) rfl
  · exact hf e
  · exact Eq.refl (Stage.holds con)

theorem keeps_catchSql {handler : ℕ → String → Dao α} (hp : Keeps con p)
    (hh : ∀ code what, Keeps con (handler code what)) : Keeps con (catchSql p handler) := by
  apply keeps_recover hp
  intro e
  cases e with
  | sqlException code what => exact hh code what
  | other what => exact keeps_throw _

theorem keeps_ite {c : Prop} [Decidable c] {q : Dao α} (hp : Keeps con p) (hq : Keeps con q) :
    Keeps con (if c then p else q) := by
  by_cases hc : c
  · rwa [if_pos hc]
  · rwa [if_neg hc]

theorem keeps_sql (call : SqlCall) : Keeps con (sql call) :=
  ⟨trivial, fun _ _ => Eq.refl (Stage.holds con)⟩

theorem keeps_verifyCredential (raw_password stored_hash stored_scheme : Text) :
    Keeps con (verifyCredential raw_password stored_hash stored_scheme) :=
  ⟨trivial, fun _ _ => Eq.refl (Stage.holds con)⟩

theorem keeps_hash {caller : Caller} (h : caller ≠ .updatePwd) (password : Text) :
    Keeps con (hash caller password) := by
  cases caller with
  | migrateLegacyPasswords | regUserTransaction =>
    exact ⟨trivial, fun _ _ => Eq.refl (Stage.holds con)⟩
  | updatePwd => exact absurd rfl h

theorem keeps_next (rows : ℕ) : Keeps con (next rows) :=
  keeps_bind (keeps_sql _) fun _ => keeps_pure _

end Keeps

section Operations

variable {α : Type}

/-- The operations keep to the discipline, whatever they return or throw. -/
def Disciplined (p : Dao α) : Prop := Meets discipline (fun m _ => m = .over) .fresh p

theorem disciplined_withConnection {body : Option ℕ → Dao α}
    (hnone : Meets discipline (fun m _ => m = .over) .over (body none))
    (hsome : ∀ con,
      Meets discipline (fun m _ => m = .gave con ∨ m = .failing con) (.holds con) (body (some con)))
      :
    Disciplined (withConnection body) := by
  apply Meets.perform trivial
  intro r _
  apply Meets.ensuring
  cases r with
  | none => exact hnone.weaken fun m _ hm => hm
  | some con =>
    refine (hsome con).weaken ?_
    rintro m _ (rfl | rfl) <;> exact ⟨rfl, fun _ _ => Eq.refl Stage.over⟩

variable {con : ℕ}

theorem gives_defer {p : Dao α} (hp : Keeps con p) :
    Meets discipline (fun m _ => m = .gave con ∨ m = .failing con) (.holds con)
    (defer (some con) p) := by
  apply Meets.ensuring
  refine hp.weaken ?_
  rintro m _ rfl
  exact ⟨rfl, fun _ _ => Or.inl rfl⟩

theorem gives_returnConnection (a : α) :
    Meets discipline (fun m _ => m = .gave con ∨ m = .failing con) (.holds con)
      (returnConnection (some con) >>= fun _ => pure a : Dao α) :=
  Meets.perform rfl fun _ _ => Or.inl rfl

theorem disciplined_ensurePasswordSchemeColumn : Disciplined EnsurePasswordSchemeColumn := by
  apply disciplined_withConnection
  · exact Eq.refl Stage.over
  · intro con
    rw [if_neg (by simp)]
    apply gives_defer
    apply keeps_catchSql
    · apply keeps_bind
      · apply keeps_catchSql
        · exact keeps_bind (keeps_sql _) fun _ => keeps_bind (keeps_sql _) fun _ => keeps_pure _
        · intro code what
          exact keeps_ite (keeps_throw _) (keeps_pure _)
      · intro _
        exact keeps_bind (keeps_sql _) fun _ => keeps_bind (keeps_sql _) fun _ => keeps_pure _
    · intro _ _
      exact keeps_throw _

theorem keeps_readLegacy (rows : ℕ) : Keeps con (readLegacy rows) := by
  induction rows with
  | zero => exact keeps_bind (keeps_next _) fun _ => keeps_pure _
  | succ rows ih =>
    refine keeps_bind (keeps_next _) fun _ => keeps_bind (keeps_sql _) fun stored => ?_
    exact keeps_ite ih (keeps_bind (keeps_sql _) fun _ => keeps_bind ih fun _ => keeps_pure _)

theorem keeps_migrateLegacy (rows : List (ℤ × Text)) : Keeps con (migrateLegacy rows) := by
  induction rows with
  | nil => exact keeps_pure _
  | cons row rows ih =>
    refine keeps_ite ih (keeps_bind (keeps_hash (by decide) _) fun encoded => ?_)
    iterate 5 refine keeps_bind (keeps_sql _) fun _ => ?_
    exact ih

theorem disciplined_migrateLegacyPasswords : Disciplined MigrateLegacyPasswords := by
  apply disciplined_withConnection
  · exact Eq.refl Stage.over
  · intro con
    rw [if_neg (by simp)]
    apply gives_defer
    apply keeps_recover
    · refine keeps_bind (keeps_sql _) fun _ => keeps_bind (keeps_sql _) fun rows => ?_
      exact keeps_bind (keeps_readLegacy rows) fun legacy => keeps_migrateLegacy legacy
    · intro _
      exact keeps_pure _

theorem keeps_insertUser (name email password_hash icon : Text) :
    Keeps con (insertUser name email password_hash icon) := by
  unfold insertUser
  iterate 4 refine keeps_bind (keeps_sql _) fun _ => ?_
  refine keeps_bind (keeps_next _) fun found => keeps_ite ?_ ?_
  · iterate 10 refine keeps_bind (keeps_sql _) fun _ => ?_
    exact keeps_pure _
  · exact keeps_bind (keeps_sql _) fun _ => keeps_pure _

theorem disciplined_regUserTransaction (name email pwd icon : Text) :
    Disciplined (RegUserTransaction name email pwd icon) := by
  have hrollback : ∀ {con : ℕ} (n : ℤ), Keeps con (sql .rollback >>= fun _ => pure n) :=
    fun n => keeps_bind (keeps_sql _) fun _ => keeps_pure n
  apply disciplined_withConnection
  · exact Eq.refl Stage.over
  · intro con
    rw [if_neg (by simp)]
    apply gives_defer
    apply keeps_catchSql
    · refine keeps_bind (keeps_hash (by decide) _) fun password_hash => ?_
      iterate 4 refine keeps_bind (keeps_sql _) fun _ => ?_
      refine keeps_bind (keeps_next _) fun found => keeps_ite (hrollback 0) ?_
      iterate 3 refine keeps_bind (keeps_sql _) fun _ => ?_
      refine keeps_bind (keeps_next _) fun found => keeps_ite (hrollback 0) ?_
      exact keeps_insertUser name email password_hash icon
    · intro _ _
      exact hrollback (-1)

/-- The body of an operation without a `Defer`: it gives the connection back itself, but for an
`SQLException`, which leaves that to the handler. -/
def GivesBack (con : ℕ) (p : Dao α) : Prop :=
  Meets discipline (fun m r => match r with
    | .error (.sqlException _ _) => m = .holds con
    | _ => m = .gave con ∨ m = .failing con) (.holds con) p

theorem gives_catchSql {p : Dao α} (hp : GivesBack con p) (a : α) :
    Meets discipline (fun m _ => m = .gave con ∨ m = .failing con) (.holds con)
      (catchSql p fun _ _ => returnConnection (some con) >>= fun _ => pure a) := by
  apply Meets.recover
  refine hp.weaken ?_
  rintro m ((⟨code, what⟩ | ⟨what⟩) | b) hm
  · obtain rfl := hm
    exact gives_returnConnection a
  · exact hm
  · exact hm

theorem givesBack_returnConnection (a : α) :
    GivesBack con (returnConnection (some con) >>= fun _ => pure a : Dao α) :=
  Meets.perform rfl fun _ _ => Or.inl rfl

theorem givesBack_sql (call : SqlCall) {f : call.Result → Dao α} (hf : ∀ a, GivesBack con (f a)) :
    GivesBack con (sql call >>= f) := by
  apply Meets.perform trivial
  intro r _
  cases r with
  | error e => exact Eq.refl (Stage.holds con)
  | ok a => exact hf a

theorem givesBack_next {rows : ℕ} {f : Bool → Dao α} (hf : ∀ found, GivesBack con (f found)) :
    GivesBack con (next rows >>= f) := by
  apply Meets.andThen
  apply Meets.perform trivial
  intro r _
  cases r with
  | error e => exact Eq.refl (Stage.holds con)
  | ok _ => exact hf _

theorem disciplined_checkEmail (name email : Text) : Disciplined (CheckEmail name email) := by
  apply disciplined_withConnection
  · exact Eq.refl Stage.over
  · intro con
    rw [if_neg (by simp)]
    apply gives_catchSql
    iterate 3 refine givesBack_sql _ fun _ => ?_
    apply givesBack_next
    intro found
    cases found with
    | false => exact givesBack_returnConnection false
    | true =>
      apply givesBack_sql
      intro stored
      by_cases hne : email ≠ stored
      · rw [if_pos hne]
        exact givesBack_returnConnection false
      · rw [if_neg hne]
        exact givesBack_returnConnection true

theorem disciplined_updatePwd (name newpwd : Text) : Disciplined (UpdatePwd name newpwd) := by
  apply disciplined_withConnection
  · exact Eq.refl Stage.over
  · intro con
    rw [if_neg (by simp)]
    apply gives_catchSql
    apply Meets.perform trivial
    intro r _
    cases r with
    | error e => exact Or.inr rfl
    | ok password_hash =>
      iterate 4 refine givesBack_sql _ fun _ => ?_
      exact givesBack_returnConnection true

theorem keeps_checkFound (email pwd : Text) : Keeps con (checkFound email pwd) := by
  refine keeps_bind (keeps_sql _) fun _ => keeps_bind (keeps_sql _) fun _ => ?_
  refine keeps_bind (keeps_verifyCredential _ _ _) fun verification => keeps_ite (keeps_pure _) ?_
  refine keeps_bind (keeps_sql _) fun uid =>
    keeps_bind (keeps_ite (keeps_pure _) ?_) fun applied => ?_
  · iterate 6 refine keeps_bind (keeps_sql _) fun _ => ?_
    exact keeps_pure _
  · exact keeps_ite (keeps_pure _) (keeps_bind (keeps_sql _) fun _ => keeps_pure _)

theorem disciplined_checkPwd (email pwd : Text) : Disciplined (CheckPwd email pwd) := by
  apply disciplined_withConnection
  · exact Eq.refl Stage.over
  · intro con
    apply gives_defer
    rw [if_neg (by simp)]
    apply keeps_catchSql
    · iterate 3 refine keeps_bind (keeps_sql _) fun _ => ?_
      refine keeps_bind (keeps_next _) fun found => ?_
      exact keeps_ite (keeps_checkFound email pwd) (keeps_pure _)
    · intro _ _
      exact keeps_pure _

theorem disciplined_program (launch : Launch) : Disciplined (program launch) := by
  have hdiscard : ∀ {β : Type} {p : Dao β}, Disciplined p →
    Disciplined (p >>= fun _ => pure ()) := by
    intro β p hp
    apply Meets.andThen
    refine hp.weaken ?_
    rintro m (e | a) rfl <;> exact Eq.refl Stage.over
  cases launch with
  | ensurePasswordSchemeColumn => exact disciplined_ensurePasswordSchemeColumn
  | migrateLegacyPasswords => exact disciplined_migrateLegacyPasswords
  | regUserTransaction name email pwd icon =>
    exact hdiscard (disciplined_regUserTransaction name email pwd icon)
  | checkEmail name email => exact hdiscard (disciplined_checkEmail name email)
  | updatePwd name newpwd => exact hdiscard (disciplined_updatePwd name newpwd)
  | checkPwd email pwd => exact hdiscard (disciplined_checkPwd email pwd)

end Operations

/-! ## All runs -/

/-- The connection an operation has to give back. -/
def Stage.con : Stage → Option ℕ
  | .holds con | .failing con => some con
  | _ => none

/-- What the operations in progress have in their hands. -/
def hands (g : ℕ → Option Stage) (t : ℕ) : Option ℕ := (g t).bind Stage.con

theorem hands_update (g : ℕ → Option Stage) (t : ℕ) (m : Option Stage) :
    hands (update g t m) = update (hands g) t (m.bind Stage.con) := by
  funext t'
  unfold hands
  by_cases h : t' = t
  · rw [h, update_self, update_self]
  · rw [update_of_ne h, update_of_ne h]

/-- Every loan is given back, destroyed, or in the hands of one operation; connections are destroyed
only where `hash` threw in an `UpdatePwd`. -/
structure Accounted (l : Ledger) (g : ℕ → Option Stage) : Prop where
  custody : Custody l.borrowed (l.returned ++ l.destroyed) (hands g)
  gave : ∀ t con, g t = some (.gave con) → con ∈ l.returned
  failures : 0 < l.hashFailures ↔ l.destroyed ≠ [] ∨ ∃ t con, g t = some (.failing con)

section Step

variable {l l' : Ledger} {g : ℕ → Option Stage} {t : ℕ} {m m' : Stage}

theorem hands_of_stage (ht : g t = some m) : hands g t = m.con := by
  rw [hands, ht]
  rfl

theorem hands_of_none (ht : g t = none) : hands g t = none := by
  rw [hands, ht]
  rfl

theorem Accounted.gave_update (h : Accounted l g) (hreturned : l.returned ⊆ l'.returned)
    {m' : Option Stage} (hgave : ∀ con, m' = some (.gave con) → con ∈ l'.returned) (t' con : ℕ)
    (ht' : update g t m' t' = some (.gave con)) : con ∈ l'.returned := by
  rcases update_cases ht' with ⟨heq, ht'⟩ | ⟨heq, ht'⟩
  · exact hgave con ht'
  · exact hreturned (h.gave t' con ht')

theorem exists_failing_update {m' : Option Stage} (hfrom : ∀ con, g t ≠ some (.failing con))
    (hto : ∀ con, m' ≠ some (.failing con)) :
    (∃ t' con, update g t m' t' = some (.failing con)) ↔ ∃ t' con, g t' = some (.failing con) := by
  constructor
  · rintro ⟨t', con, ht'⟩
    rcases update_cases ht' with ⟨heq, ht'⟩ | ⟨heq, ht'⟩
    · exact absurd ht' (hto con)
    · exact ⟨t', con, ht'⟩
  · rintro ⟨t', con, ht'⟩
    refine ⟨t', con, ?_⟩
    rw [update_of_ne ?_, ht']
    rintro rfl
    exact hfrom con ht'

theorem Accounted.move (h : Accounted l g) {m' : Option Stage}
    (hfrom : ∀ con, g t ≠ some (.failing con))
    (hto : ∀ con, m' ≠ some (.failing con))
    (hcustody : Custody l'.borrowed (l'.returned ++ l'.destroyed)
      (update (hands g) t (m'.bind Stage.con)))
    (hreturned : l.returned ⊆ l'.returned)
    (hgave : ∀ con, m' = some (.gave con) → con ∈ l'.returned)
    (hdestroyed : l'.destroyed = l.destroyed) (hfailures : l'.hashFailures = l.hashFailures) :
    Accounted l' (update g t m') where
  custody := by rwa [hands_update]
  gave := h.gave_update hreturned hgave
  failures := by rw [hfailures, hdestroyed, exists_failing_update hfrom hto, h.failures]

theorem Accounted.stage (h : Accounted l g) {m' : Option Stage}
    (hcon : hands g t = m'.bind Stage.con)
    (hfrom : ∀ con, g t ≠ some (.failing con)) (hto : ∀ con, m' ≠ some (.failing con))
    (hgave : ∀ con, m' = some (.gave con) → con ∈ l.returned) : Accounted l (update g t m') := by
  refine h.move hfrom hto ?_ (fun _ hi => hi) hgave rfl rfl
  rw [← hcon, update_eq_self]
  exact h.custody

variable {con : ℕ}

theorem Accounted.giveBack (h : Accounted l g) (ht : g t = some (.holds con)) :
    Accounted (l.after (.returnConnection con) ()) (update g t (some (.gave con))) := by
  have hhands : hands g t = some con := hands_of_stage ht
  have hnot : con ∉ l.returned := fun hi =>
    (h.custody.held t con hhands).2 (mem_append_left _ hi)
  have hafter : l.after (.returnConnection con) () = { l with returned := l.returned ++ [con] } :=
    if_neg hnot
  rw [hafter]
  refine h.move (fun _ hf => nomatch ht.symm.trans hf) nofun ?_ ?_ ?_ rfl rfl
  · refine (h.custody.put hhands).perm ?_
    show (l.returned ++ l.destroyed ++ [con]).Perm (l.returned ++ [con] ++ l.destroyed)
    rw [append_assoc, append_assoc]
    exact List.Perm.append_left _ perm_append_comm
  · exact subset_append_left _ _
  · intro con' hcon'
    cases hcon'
    exact mem_append_right _ (mem_singleton.mpr rfl)

theorem Accounted.destroy (h : Accounted l g) (ht : g t = some (.failing con)) :
    Accounted (l.after (.destroy con) ()) (update g t (some .over)) := by
  have hhands : hands g t = some con := hands_of_stage ht
  have hnot : con ∉ l.returned := fun hi =>
    (h.custody.held t con hhands).2 (mem_append_left _ hi)
  have hafter : l.after (.destroy con) () = { l with destroyed := l.destroyed ++ [con] } :=
    if_neg hnot
  rw [hafter]
  constructor
  · rw [hands_update]
    show Custody l.borrowed (l.returned ++ (l.destroyed ++ [con])) _
    rw [← append_assoc]
    exact h.custody.put hhands
  · exact h.gave_update (fun _ hi => hi) nofun
  · have hpos : 0 < l.hashFailures := h.failures.mpr (Or.inr ⟨t, con, ht⟩)
    exact ⟨fun _ => Or.inl (append_ne_nil_of_right_ne_nil _ (cons_ne_nil _ _)), fun _ => hpos⟩

theorem Accounted.fail (h : Accounted l g) (ht : g t = some (.holds con)) :
    Accounted { l with hashFailures := l.hashFailures + 1 }
      (update g t (some (.failing con))) := by
  constructor
  · rw [hands_update, show (some (Stage.failing con)).bind Stage.con = hands g t from
      (hands_of_stage ht).symm, update_eq_self]
    exact h.custody
  · exact h.gave_update (fun _ hi => hi) nofun
  · exact ⟨fun _ => Or.inr ⟨t, con, update_self ..⟩, fun _ => Nat.succ_pos _⟩

theorem Accounted.borrow (h : Accounted l g) (ht : g t = some .fresh) :
    Accounted { l with borrowed := l.borrowed + 1 }
      (update g t (some (.holds l.borrowed))) := by
  refine h.move (fun _ hf => nomatch ht.symm.trans hf) nofun ?_ (fun _ hi => hi)
    nofun rfl rfl
  exact h.custody.fresh (hands_of_stage ht)

theorem Accounted.same (h : Accounted l g) (ht : g t = some m) :
    Accounted l (update g t (some m)) := by
  rwa [← ht, update_eq_self]

end Step

theorem accounted_call {l : Ledger} {g : ℕ → Option Stage} {t : ℕ} {m : Stage} {e : Op}
    {r : e.Answer}
    (h : Accounted l g) (ht : g t = some m) (hallow : discipline.allow m e) (hr : l.Possible e r) :
    Accounted (l.after e r) (update g t (some (discipline.next m e r))) := by
  cases m with
  | fresh =>
    cases e with
    | getConnection =>
      cases r with
      | none =>
        exact h.stage (hands_of_stage ht) (fun _ hf => nomatch ht.symm.trans hf) nofun
          nofun
      | some con =>
        obtain rfl : con = l.borrowed := by simpa [Ledger.Possible] using hr
        exact h.borrow ht
    | _ => exact hallow.elim
  | holds con =>
    cases e with
    | returnConnection con' =>
      obtain rfl : con' = con := hallow
      exact h.giveBack ht
    | hash caller password =>
      cases caller with
      | updatePwd =>
        cases r with
        | error fault => exact h.fail ht
        | ok encoded => exact h.same ht
      | _ => exact h.same ht
    | verifyCredential _ _ _ | sql call => exact h.same ht
    | _ => exact hallow.elim
  | failing con =>
    cases e with
    | destroy con' =>
      obtain rfl : con' = con := hallow
      exact h.destroy ht
    | _ => exact hallow.elim
  | gave con =>
    cases e with
    | destroy con' =>
      obtain rfl : con' = con := hallow
      have hafter : l.after (.destroy con') r = l := if_pos (h.gave t con' ht)
      rw [hafter]
      exact h.stage (hands_of_stage ht) (fun _ hf => nomatch ht.symm.trans hf) nofun
        nofun
    | _ => exact hallow.elim
  | _ => cases e <;> exact hallow.elim

theorem accounted_inductive : Inductive gate discipline Accounted where
  init l hl := by
    obtain rfl := hl
    exact ⟨Custody.empty, nofun, by simp⟩
  env _ _ _ _ henv := henv.elim
  start l g t p h ht hstart := by
    obtain ⟨launch, rfl⟩ := hstart
    refine ⟨.fresh, disciplined_program launch, h.stage ?_ ?_ ?_ ?_⟩
    · exact hands_of_none ht
    · exact fun _ hf => nomatch ht.symm.trans hf
    · exact nofun
    · exact nofun
  call l l' g t m e r h ht hallow hexec := by
    obtain ⟨hr, rfl⟩ := hexec
    exact ⟨trivial, accounted_call h ht hallow hr⟩
  stop l l' g t m p h ht hmeets hstop := by
    obtain ⟨⟨r, rfl⟩, rfl⟩ := hstop
    obtain rfl : m = .over := hmeets
    exact h.stage (hands_of_stage ht) (fun _ hf => nomatch ht.symm.trans hf) nofun
      nofun
  crash _ _ _ _ _ hcrash := hcrash.elim

/-- **With no operation in progress, every connection has been given back to the pool exactly once,
and a pool of any size serves as many borrowers as ever, if and only if `PasswordHasher::hash` never
threw in an `UpdatePwd`.** -/
theorem connections_returned_iff {c : Config ℕ Op Op.Answer (Except Fault Unit) Ledger}
    (hc : Reachable gate c) (idle : ∀ t, c.threads t = none) :
    (c.shared.returned.Perm (List.range c.shared.borrowed) ∧ ∀ n, c.shared.servable n = n) ↔
      c.shared.hashFailures = 0 := by
  obtain ⟨g, h, hfollows⟩ := reachable_invariant accounted_inductive hc
  have hg : ∀ t, g t = none := by
    intro t
    rcases hfollows t with ⟨-, hnone⟩ | ⟨p, m, hp, -⟩
    · exact hnone
    · exact nomatch (idle t).symm.trans hp
  have hall : (c.shared.returned ++ c.shared.destroyed).Perm (List.range c.shared.borrowed) :=
    h.custody.all_at_rest fun t => hands_of_none (hg t)
  have hlength := hall.length_eq
  rw [length_append, length_range] at hlength
  have hfail : 0 < c.shared.hashFailures ↔ c.shared.destroyed ≠ [] := by
    rw [h.failures]
    constructor
    · rintro (hne | ⟨t, con, ht⟩)
      · exact hne
      · exact nomatch (hg t).symm.trans ht
    · exact Or.inl
  constructor
  · rintro ⟨hperm, -⟩
    have hsame := hperm.length_eq
    rw [length_range] at hsame
    have hnil : c.shared.destroyed = [] := length_eq_zero_iff.mp (by omega)
    by_contra hne
    exact hfail.mp (Nat.pos_of_ne_zero hne) hnil
  · intro hzero
    have hnil : c.shared.destroyed = [] := by
      by_contra hne
      exact absurd (hfail.mpr hne) (by omega)
    rw [hnil, append_nil] at hall
    rw [hnil, length_nil] at hlength
    refine ⟨hall, fun n => ?_⟩
    unfold Ledger.servable
    omega

theorem solo_effect {l : Ledger} {p : Dao Unit} {e : Op} {k : e.Answer → Dao Unit}
    (h : Solo gate 0 l p) (hp : p = .call e k) (r : e.Answer) (hr : l.Possible e r) :
    Solo gate 0 (l.after e r) (k r) := h.call hp ⟨hr, rfl⟩

/-- A `CheckEmail` whose statement cannot be prepared. -/
theorem connections_returned_iff_sample :
    ([0] : List ℕ).Perm (List.range 1) ∧ ∀ n, (Ledger.mk 1 [0] [] 0).servable n = n := by
  have h₀ : Solo gate 0 {} (program (.checkEmail ['a'] ['b'])) := .start rfl ⟨_, rfl⟩
  have h₁ := solo_effect h₀ rfl (some 0) (Or.inr rfl)
  have h₂ := solo_effect h₁ rfl (.error (2006, "MySQL server has gone away")) trivial
  have h₃ := solo_effect h₂ rfl () trivial
  have h₄ := solo_effect h₃ rfl () trivial
  exact (connections_returned_iff (h₄.finish ⟨⟨_, rfl⟩, rfl⟩) fun _ => rfl).mpr rfl

/-- In an `UpdatePwd` the Argon2id computation fails, for want of memory say. The exception passes
by the handler for `SQLException`, the connection is destroyed, and a pool of five serves four
borrowers from then on. -/
theorem update_pwd_leaks : ∃ c : Config ℕ Op Op.Answer (Except Fault Unit) Ledger,
    Reachable gate c ∧ (∀ t, c.threads t = none) ∧ c.shared.borrowed = 1 ∧ c.shared.returned = [] ∧
      c.shared.servable 5 = 4 := by
  have h₀ : Solo gate 0 {} (program (.updatePwd ['a'] ['s'])) := .start rfl ⟨_, rfl⟩
  have h₁ := solo_effect h₀ rfl (some 0) (Or.inr rfl)
  have h₂ := solo_effect h₁ rfl (.error .pwhash) (Or.inr (by decide))
  have h₃ := solo_effect h₂ rfl () trivial
  exact ⟨_, h₃.finish ⟨⟨_, rfl⟩, rfl⟩, fun _ => rfl, rfl, rfl, rfl⟩

end Connections

end DistributedChat.Gate
