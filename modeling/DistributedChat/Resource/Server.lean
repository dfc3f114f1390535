import DistributedChat.Lib.Table
import DistributedChat.Lib.Threads
import DistributedChat.Resource.Service

/-!
# The resource servers

What the effects of the resource service do. Any number of workers, on any number of instances,
share one database, one storage directory and the resource locks; a worker is a number.

A statement may fail without effect, succeed, or succeed with its reply lost. Outside a transaction
its writes take effect at once, within one at the commit, and until then only its own worker sees
them. A `SELECT` reads the newest committed rows, as at the isolation level `READ COMMITTED`. A
worker may stop at any point: its transaction is undone and its locks are free again.
-/

namespace DistributedChat.Resource

open Lib Function

/-! ## The database -/

/-- The tables `file_transfer`, `resource_outbox` and `resource_avatar`, and the avatars of `user`.
-/
structure Db where
  files : Table Id Row
  outbox : Table EventKey Event
  avatars : Table Id Avatar
  profiles : Table Uid Profile

def Db.empty : Db := ⟨.empty, .empty, .empty, .empty⟩

inductive Write
  | insertFile (id : Id) (row : Row)
  | setFile (id : Id) (row : Row)
  | deleteFile (id : Id)
  | insertOutbox (key : EventKey) (event : Event)
  | setOutbox (key : EventKey) (event : Event)
  | deleteOutbox (key : EventKey)
  | insertAvatar (id : Id) (row : Avatar)
  | setAvatar (id : Id) (row : Avatar)
  | deleteAvatar (id : Id)
  | setProfile (uid : Uid) (profile : Profile)

def Write.apply (db : Db) : Write → Db
  | .insertFile id row => { db with files := db.files.insert id row }
  | .setFile id row => { db with files := db.files.update id fun _ => row }
  | .deleteFile id => { db with files := db.files.erase id }
  | .insertOutbox key event => { db with outbox := db.outbox.insert key event }
  | .setOutbox key event => { db with outbox := db.outbox.update key fun _ => event }
  | .deleteOutbox key => { db with outbox := db.outbox.erase key }
  | .insertAvatar id row => { db with avatars := db.avatars.insert id row }
  | .setAvatar id row => { db with avatars := db.avatars.update id fun _ => row }
  | .deleteAvatar id => { db with avatars := db.avatars.erase id }
  | .setProfile uid profile =>
    { db with profiles := (db.profiles.insert uid profile).update uid fun _ => profile }

/-- Rows a transaction holds until it ends. -/
inductive RowLock
  | user (uid : Uid)
  | file (id : Id)
  | event (key : EventKey)
  | avatar (id : Id)
  deriving DecidableEq, Repr

/-- The users and their friends, and how the database compares two idempotency keys. -/
structure Directory where
  known : Uid → Bool
  friend : Uid → Uid → Bool
  sameKey : Bytes → Bytes → Bool

/-- The row `notify` inserts, unless its key is there. -/
def Event.new (payload : Payload) (now : ℕ) : Event := ⟨payload, 0, now, none⟩

/-- A day, in the seconds of the clock. -/
def Day : ℕ := 24 * 60 * 60

def NewFile.row (new : NewFile) (now : ℕ) : Row where
  sender_uid := new.sender_uid
  receiver_uid := new.receiver_uid
  original_name := new.original_name
  mime_type := new.mime_type
  total_size := new.total_size
  uploaded_size := 0
  sha256 := new.sha256
  idempotency_key := new.idempotency_key
  status := .uploading
  expires_at := now + 7 * Day

/-- `expires_at<=NOW()`. -/
def Row.expired (row : Row) (now : ℕ) : Bool := row.expires_at ≤ now

/-- The rows the quota counts. -/
def Row.counts (row : Row) (uid : Uid) (now : ℕ) : Bool :=
  row.sender_uid == uid && !row.expired now && row.status != .cancelled

/-- An update of the row with an id, if there is one that `p` selects: the number of rows it matches
and the write. Where the service looks at the number, a matched row is also a changed one. -/
def updateWhere (db : Db) (id : Id) (p : Row → Bool) (f : Row → Row) : ℕ × List Write :=
  match (db.files.get id).filter p with
  | none => (0, [])
  | some row => (1, [.setFile id (f row)])

/-- What a statement returns, writes and locks; `none` if a key constraint refuses it or the call
is no statement. -/
def statement (dir : Directory) (now : ℕ) (db : Db) : (e : Call) → Option
    (e.Value × List Write × List RowLock)
  | .selectFile id => some ((db.files.get id).map fun row => (row, row.expired now), [], [])
  | .lockUser uid => some (dir.known uid, [], [.user uid])
  | .selectPrior uid key =>
    some ((db.files.rows.find? fun r =>
      r.2.sender_uid == uid && dir.sameKey r.2.idempotency_key key).map Prod.fst, [], [])
  | .selectFriend uid touid => some (dir.friend uid touid, [], [])
  | .selectQuota uid =>
    let counted := db.files.rows.filter fun r => r.2.counts uid now
    some ((counted.length, (counted.map fun r => r.2.total_size).sum), [], [])
  | .insertFile id new =>
    if db.files.get id = none ∧ db.files.rows.all (fun r =>
        !(r.2.sender_uid == new.sender_uid && dir.sameKey r.2.idempotency_key new.idempotency_key))
    then some ((), [.insertFile id (new.row now)], [.file id])
    else none
  | .updateOffset id next confirmed =>
    let (n, ws) := updateWhere db id
      (fun row => row.uploaded_size == confirmed && row.status == .uploading && !row.expired now)
      fun row => { row with uploaded_size := next }
    some (n, ws, [.file id])
  | .publish id =>
    let (n, ws) := updateWhere db id (fun row => row.status == .uploading)
      fun row => { row with status := .available, expires_at := now + 7 * Day }
    some (n, ws, [.file id])
  | .insertOutbox id event =>
    some ((), [.insertOutbox (.file id) (.new (.file event) now)], [.event (.file id)])
  | .cancel id =>
    let (_, ws) := updateWhere db id (fun _ => true)
      fun row => { row with status := .cancelled, expires_at := now }
    some ((), ws, [.file id])
  | .downloaded id =>
    let (_, ws) := updateWhere db id (fun _ => true)
      fun row => { row with status := .downloaded, expires_at := min row.expires_at (now + Day) }
    some ((), ws, [.file id])
  | .selectExpired =>
    some (((db.files.rows.filter fun r => r.2.expired now || r.2.status == .cancelled).map
      Prod.fst).take 32, [], [])
  | .selectExpiredRow id =>
    some (((db.files.get id).filter fun row =>
      row.expired now || row.status == .cancelled).isSome, [], [.file id])
  | .deleteOutbox id => some ((), [.deleteOutbox (.file id)], [.event (.file id)])
  | .deleteFile id => some ((), [.deleteFile id], [.file id])
  | _ => none

/-! ## Shared state -/

structure Shared where
  now : ℕ
  directory : Directory
  db : Db
  /-- The writes of a worker's open transaction. -/
  tx : ℕ → Option (List Write)
  rowLocks : RowLock → Option ℕ
  /-- Who holds the `ResourceLock` of an id. -/
  locks : Id → Option ℕ
  dir : Store.Dir

namespace Shared

/-- The database as worker `t` sees it: what is committed by now, and its own writes. -/
def view (s : Shared) (t : ℕ) : Db := ((s.tx t).getD []).foldl Write.apply s.db

/-- No other worker holds the row. -/
def Free (s : Shared) (t : ℕ) (l : RowLock) : Prop := s.rowLocks l = none ∨ s.rowLocks l = some t

instance (s : Shared) (t : ℕ) (l : RowLock) : Decidable (s.Free t l) :=
  inferInstanceAs (Decidable (_ ∨ _))

/-- The writes of a statement: at once, or kept with their row locks for the commit. -/
def write (s : Shared) (t : ℕ) (ws : List Write) (ls : List RowLock) : Shared :=
  match s.tx t with
  | none => { s with db := ws.foldl Write.apply s.db }
  | some pending =>
    { s with
      tx := update s.tx t (some (pending ++ ws))
      rowLocks := fun l => if l ∈ ls then some t else s.rowLocks l }

/-- End the transaction of `t` and leave the database `db`. -/
def endTx (s : Shared) (t : ℕ) (db : Db) : Shared :=
  { s with
    db := db
    tx := update s.tx t none
    rowLocks := fun l => if s.rowLocks l = some t then none else s.rowLocks l }

/-- Close the file of a `ResourceLock`. -/
def unlock (s : Shared) (t : ℕ) (id : Id) : Shared :=
  if s.locks id = some t then { s with locks := update s.locks id none } else s

/-- What a stopped worker leaves: its transaction undone, its locks free. -/
def stopped (s : Shared) (t : ℕ) : Shared :=
  { s.endTx t s.db with locks := fun id => if s.locks id = some t then none else s.locks id }

section Writes

variable {s : Shared} {t : ℕ} {ws : List Write} {ls : List RowLock}

@[simp] theorem write_now : (s.write t ws ls).now = s.now := by
  unfold write
  split <;> rfl

@[simp] theorem write_locks : (s.write t ws ls).locks = s.locks := by
  unfold write
  split <;> rfl

@[simp] theorem write_dir : (s.write t ws ls).dir = s.dir := by
  unfold write
  split <;> rfl

theorem write_tx {t' : ℕ} (h : t' ≠ t) : (s.write t ws ls).tx t' = s.tx t' := by
  unfold write
  split
  · rfl
  · exact update_of_ne h _ _

/-- Outside of a transaction a statement takes effect at once. -/
theorem write_auto (h : s.tx t = none) :
    s.write t ws ls = { s with db := ws.foldl Write.apply s.db } := by
  unfold write
  rw [h]

theorem view_auto (h : s.tx t = none) : s.view t = s.db := by
  unfold view
  rw [h]
  rfl

/-- In a transaction a statement takes effect for its own connection only. -/
theorem write_opened {pending : List Write} (h : s.tx t = some pending) :
    (s.write t ws ls).tx t = some (pending ++ ws) ∧ (s.write t ws ls).db = s.db := by
  unfold write
  rw [h]
  exact ⟨update_self .., rfl⟩

theorem write_rowLocks {pending : List Write} (h : s.tx t = some pending) (l : RowLock) :
    (s.write t ws ls).rowLocks l = if l ∈ ls then some t else s.rowLocks l := by
  unfold write
  rw [h]

end Writes

end Shared

/-! ## Effects -/

section Effects

variable (C : Store.Crypto) (master_key : Bytes)

/-- The calls that always take effect: the destructors. -/
def Call.Sure : Call → Prop
  | .unlock _ => True
  | .returnConnection => True
  | _ => False

/-- Worker `t` performs an effect. -/
inductive Exec (t : ℕ) : (e : Call) → Shared → e.Answer → Shared → Prop
  /-- The call throws and has done nothing. -/
  | refused {e : Call} {s : Shared} (h : ¬ e.Sure) : Exec t e s none s
  /-- A statement succeeds. -/
  | sql {e : Call} {s : Shared} {v : e.Value} {ws : List Write} {ls : List RowLock}
      (h : statement s.directory s.now (s.view t) e = some (v, ws, ls))
      (free : ∀ l ∈ ls, s.Free t l) : Exec t e s (some v) (s.write t ws ls)
  /-- A statement succeeds and its reply is lost. -/
  | sqlLost {e : Call} {s : Shared} {v : e.Value} {ws : List Write} {ls : List RowLock}
      (h : statement s.directory s.now (s.view t) e = some (v, ws, ls))
      (free : ∀ l ∈ ls, s.Free t l) : Exec t e s none (s.write t ws ls)
  | lock {s : Shared} {id : Id} (free : s.locks id = none) :
      Exec t (.lock id) s (some ()) { s with locks := update s.locks id (some t) }
  | unlock {s : Shared} {id : Id} : Exec t (.unlock id) s (some ()) (s.unlock t id)
  | getConnection {s : Shared} : Exec t .getConnection s (some ()) s
  /-- The pool rolls back what a connection has left open, or closes it. -/
  | returnConnection {s : Shared} : Exec t .returnConnection s (some ()) (s.endTx t s.db)
  /-- Autocommit is off from here on; what the connection has left open stays open. -/
  | begin {s : Shared} :
      Exec t .begin s (some ()) { s with tx := update s.tx t (some ((s.tx t).getD [])) }
  /-- The commit takes effect; its reply, or that of `setAutoCommit` after it, may be lost. -/
  | commit {s : Shared} {r : Option Unit} : Exec t .commit s r (s.endTx t (s.view t))
  | rollback {s : Shared} {r : Option Unit} : Exec t .rollback s r (s.endTx t s.db)
  /-- The random generator gives an id, not necessarily a fresh one. -/
  | uuid {s : Shared} {id : Id} (h : validId id = true) : Exec t .uuid s (some id) s
  | storeCreate {s : Shared} {id : Id} (fault : Option ℕ) (pre : Store.Prefix) :
      Exec t (.storeCreate id) s (Store.create fault id pre s.dir).1.toOption
        { s with dir := (Store.create fault id pre s.dir).2 }
  | storeAppend {s : Shared} {id : Id} {offset : ℕ} {plaintext : Bytes} (fault : Option ℕ) :
      Exec t (.storeAppend id offset plaintext) s
        ((Store.append C master_key fault id (UInt64.ofNat offset) plaintext s.dir).1.toOption.map
          UInt64.toNat)
        { s with dir :=
          (Store.append C master_key fault id (UInt64.ofNat offset) plaintext s.dir).2 }
  | storeRead {s : Shared} {id : Id} {offset maximum_bytes : ℕ} :
      Exec t (.storeRead id offset maximum_bytes) s
        (Store.read C master_key s.dir id (UInt64.ofNat offset) maximum_bytes).toOption s
  | storeSha256 {s : Shared} {id : Id} {total_size : ℕ} :
      Exec t (.storeSha256 id total_size) s
        (Store.sha256 C master_key s.dir id (UInt64.ofNat total_size)).toOption s
  | storeRemove {s : Shared} {id : Id} :
      Exec t (.storeRemove id) s (Store.remove id s.dir).1.toOption
        { s with dir := (Store.remove id s.dir).2 }

/-- The environment: the clock does not go back, and users and friendships may change. -/
def Env (s s' : Shared) : Prop :=
  ∃ now directory, s.now ≤ now ∧ s' = { s with now := now, directory := directory }

/-- Empty tables and an empty storage directory; no worker has done anything. -/
def Initial (s : Shared) : Prop :=
  s.db = .empty ∧ (∀ t, s.tx t = none) ∧ (∀ l, s.rowLocks l = none) ∧
    (∀ id, s.locks id = none) ∧ s.dir = Store.Dir.empty

/-- The resource servers: workers run requests on the shared state. -/
def server : System ℕ Call Call.Answer (Except Failure Reply) Shared where
  init := Initial
  exec := Exec C master_key
  start _ _ p := ∃ req, p = handle req
  stop t _ s s' := s' = s.stopped t
  env := Env

/-! ## Schedules -/

/-- An effect that succeeds, without faults; `id` is what the random generator gives. -/
def perform (t : ℕ) (id : Id) (s : Shared) : (e : Call) → Option (e.Answer × Shared)
  | .lock id =>
    if s.locks id = none then
      some (some (), { s with locks := update s.locks id (some t) })
    else none
  | .unlock id => some (some (), s.unlock t id)
  | .getConnection => some (some (), s)
  | .returnConnection => some (some (), s.endTx t s.db)
  | .begin => some (some (), { s with tx := update s.tx t (some ((s.tx t).getD [])) })
  | .commit => some (some (), s.endTx t (s.view t))
  | .rollback => some (some (), s.endTx t s.db)
  | .uuid => if validId id = true then some (some id, s) else none
  | .storeCreate id =>
    let r := Store.create none id ⟨List.replicate 16 0, rfl⟩ s.dir
    some (r.1.toOption, { s with dir := r.2 })
  | .storeAppend id offset plaintext =>
    let r := Store.append C master_key none id (UInt64.ofNat offset) plaintext s.dir
    some (r.1.toOption.map UInt64.toNat, { s with dir := r.2 })
  | .storeRead id offset maximum_bytes =>
    some ((Store.read C master_key s.dir id (UInt64.ofNat offset) maximum_bytes).toOption, s)
  | .storeSha256 id total_size =>
    some ((Store.sha256 C master_key s.dir id (UInt64.ofNat total_size)).toOption, s)
  | .storeRemove id =>
    let r := Store.remove id s.dir
    some (r.1.toOption, { s with dir := r.2 })
  | e =>
    match statement s.directory s.now (s.view t) e with
    | none => none
    | some (v, ws, ls) =>
      if ∀ l ∈ ls, s.Free t l then some (some v, s.write t ws ls) else none

/-- The executable server takes steps of the server. -/
theorem exec_perform {t : ℕ} {id : Id} {s s' : Shared} {e : Call} {r : e.Answer}
    (h : perform C master_key t id s e = some (r, s')) : Exec C master_key t e s r s' := by
  have hsql : ∀ {v ws ls}, statement s.directory s.now (s.view t) e = some (v, ws, ls) →
      (if ∀ l ∈ ls, s.Free t l then some (some v, s.write t ws ls) else none) = some (r, s') →
      Exec C master_key t e s r s' := by
    intro v ws ls hst hfree
    split at hfree
    · rename_i hls
      cases hfree
      exact .sql hst hls
    · cases hfree
  cases e with
  | lock id =>
    obtain ⟨hfree, h⟩ := Option.ite_none_right_eq_some.mp h
    cases h
    exact .lock hfree
  | unlock id =>
    cases h
    exact .unlock
  | getConnection =>
    cases h
    exact .getConnection
  | returnConnection =>
    cases h
    exact .returnConnection
  | begin =>
    cases h
    exact .begin
  | commit =>
    cases h
    exact .commit
  | rollback =>
    cases h
    exact .rollback
  | uuid =>
    obtain ⟨hid, h⟩ := Option.ite_none_right_eq_some.mp h
    cases h
    exact .uuid hid
  | storeCreate id =>
    cases h
    exact .storeCreate none _
  | storeAppend id offset plaintext =>
    cases h
    exact .storeAppend none
  | storeRead id offset maximum_bytes =>
    cases h
    exact .storeRead
  | storeSha256 id total_size =>
    cases h
    exact .storeSha256
  | storeRemove id =>
    cases h
    exact .storeRemove
  | _ =>
    simp only [perform] at h
    split at h
    · cases h
    · exact hsql ‹_› h

inductive Turn
  | start (t : ℕ) (req : Request)
  | call (t : ℕ) (id : Id)
  | wait (now : ℕ)

/-- One turn, if it is possible; `ok` says which effects are. -/
def turn (ok : ℕ → Call → Shared → Bool)
    (c : Config ℕ Call Call.Answer (Except Failure Reply) Shared) :
    Turn → Option (Config ℕ Call Call.Answer (Except Failure Reply) Shared)
  | .start t req =>
    if (c.threads t).isNone then
      some { c with threads := update c.threads t (some (handle req)) }
    else none
  | .call t id =>
    match c.threads t with
    | some (.call e k) =>
      if ok t e c.shared then
        (perform C master_key t id c.shared e).map fun rs =>
          ⟨rs.2, update c.threads t (some (k rs.1))⟩
      else none
    | _ => none
  | .wait now =>
    if c.shared.now ≤ now then some { c with shared := { c.shared with now := now } } else none

def turns (ok : ℕ → Call → Shared → Bool)
    (c : Config ℕ Call Call.Answer (Except Failure Reply) Shared) :
    List Turn → Option (Config ℕ Call Call.Answer (Except Failure Reply) Shared)
  | [] => some c
  | m :: ms => (turn C master_key ok c m).bind fun c' => turns ok c' ms

/-- The servers, with only those effects that are `ok`. -/
structure Serves (ok : ℕ → Call → Shared → Bool)
    (sys : System ℕ Call Call.Answer (Except Failure Reply) Shared) : Prop where
  exec : ∀ t e s r s', ok t e s = true → Exec C master_key t e s r s' → sys.exec t e s r s'
  start : ∀ t s req, sys.start t s (handle req)
  env : ∀ s s', Env s s' → sys.env s s'

variable {C master_key} {ok : ℕ → Call → Shared → Bool}
  {sys : System ℕ Call Call.Answer (Except Failure Reply) Shared}
  {c c' : Config ℕ Call Call.Answer (Except Failure Reply) Shared}

theorem Serves.step (h : Serves C master_key ok sys) {m : Turn}
    (hm : turn C master_key ok c m = some c') :
    Step sys c c' := by
  cases m with
  | start t req =>
    obtain ⟨hfree, hm⟩ := Option.ite_none_right_eq_some.mp hm
    cases hm
    exact .start (Option.isNone_iff_eq_none.mp hfree) (h.start t _ req)
  | call t id =>
    simp only [turn] at hm
    split at hm
    · rename_i e k hrunning
      obtain ⟨hok, hm⟩ := Option.ite_none_right_eq_some.mp hm
      obtain ⟨⟨r, s'⟩, hr, rfl⟩ := Option.map_eq_some_iff.mp hm
      exact .call hrunning (h.exec t e _ r s' hok (exec_perform C master_key hr))
    · cases hm
  | wait now =>
    obtain ⟨hle, hm⟩ := Option.ite_none_right_eq_some.mp hm
    cases hm
    exact .env (h.env _ _ ⟨now, c.shared.directory, hle, rfl⟩)

/-- A schedule that runs ends in a state that can be reached. -/
theorem Serves.reachable (h : Serves C master_key ok sys) (hc : Reachable sys c) {ms : List Turn}
    (hms : turns C master_key ok c ms = some c') : Reachable sys c' := by
  induction ms generalizing c with
  | nil => exact Option.some.inj hms ▸ hc
  | cons m ms ih =>
    obtain ⟨c₁, hm, hrest⟩ := Option.bind_eq_some_iff.mp hms
    exact ih (.step hc (h.step hm)) hrest

theorem serves_server : Serves C master_key (fun _ _ _ => true) (server C master_key) :=
  ⟨fun _ _ _ _ _ _ h => h, fun _ _ req => ⟨req, rfl⟩, fun _ _ h => h⟩

end Effects

/-- The servers before any request: everybody is known, and a friend of everybody. -/
def sampleStart : Shared where
  now := 0
  directory := ⟨fun _ => true, fun _ _ => true, fun a b => a == b⟩
  db := .empty
  tx := fun _ => none
  rowLocks := fun _ => none
  locks := fun _ => none
  dir := Store.Dir.empty

theorem initial_sampleStart : Initial sampleStart :=
  ⟨rfl, fun _ => rfl, fun _ => rfl, fun _ => rfl, rfl⟩

namespace Sample

/-- A store whose every file has one hash. -/
def crypto : Store.Crypto :=
    { (default : Store.Crypto) with hashSha256 := fun _ => List.replicate 64 48 }

def id (n : ℕ) : Id :=
  (UInt8.ofNat (48 + n / 10)) :: (UInt8.ofNat (48 + n % 10)) ::
    ascii "111111-1111-4111-8111-111111111111"

/-- A file of some bytes for user 2. -/
def upload (n total_size : ℕ) : Json := .obj
  [(ascii "touid", .int 2), (ascii "total_size", .int total_size), (ascii "name", .str (ascii "a")),
    (ascii "sha256", .str (List.replicate 64 48)),
    (ascii "idempotency_key", .str [UInt8.ofNat (n + 1)])]

/-- User 1 creates an upload, up to the commit of its row. -/
def creates (n total_size : ℕ) : List Turn :=
  .start n (.create 1 (upload n total_size)) :: List.replicate 15 (.call n (id n))

end Sample

end DistributedChat.Resource
