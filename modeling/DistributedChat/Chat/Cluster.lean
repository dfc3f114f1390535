import DistributedChat.Chat.Database
import DistributedChat.Chat.Logic
import DistributedChat.Lib.ExpiringMap
import DistributedChat.Lib.Threads

/-!
# The chat cluster

Any number of chat servers and the status server share one Redis and one database. The jobs of a
session run one after another (its shard runs them in turn); everything else a server does
(accepting and closing connections, notifications, calls of its peers) runs on any number of further
threads. An effect that can fail does so without effect, or takes effect with its reply lost.
Clients send any frames they like. A server may crash: its threads, sessions and registry are gone.

The histories record what happened: tickets, logins, friendship checks, frames. No program reads
them.
-/

namespace DistributedChat.Chat

open Lib

/-! ## State -/

/-- Who runs a program: the shard of a session for it, another thread of a server, or a thread of
the status server. -/
inductive Worker
  | session (s : Sid)
  | server (name : ServerName) (n : ℕ)
  | status (n : ℕ)
  deriving DecidableEq, Repr

structure Session where
  closed : Bool := false
  uid : Uid := 0
  /-- The session is in the table of its server. -/
  listed : Bool := false
  /-- The session has been started: its frames are read. -/
  started : Bool := false
  delivery : DeliveryState := {}
  /-- The job its shard runs. -/
  job : Option Job := none
  /-- History: the friendship checks of the job, and whether the two were mutual friends. -/
  checks : List (Uid × Uid × Bool) := []
  /-- History: the last ticket taken for the session, and when. -/
  ticket : Option (Bytes × ℕ) := none
  /-- History: `ClearSession` has found no user or has removed the registration. -/
  cleared : Bool := false

/-- A ticket that was stored. -/
structure Issued where
  token : Bytes
  value : RedisValue
  at_ : ℕ

/-- A session becomes authenticated by a ticket taken at a time. -/
structure Auth where
  session : Sid
  uid : Uid
  token : Bytes
  at_ : ℕ
  deriving DecidableEq, Repr

structure History where
  /-- The random tokens, and who asked for them. -/
  tokens : List (Bytes × Worker) := []
  issued : List Issued := []
  /-- The tickets taken, and the session each was taken for. -/
  redeemed : List (Bytes × Sid) := []
  auths : List Auth := []
  /-- The session last bound to a user on a server. -/
  bound : ServerName → Uid → Option Sid := fun _ _ => none
  /-- The frames of clients that were taken up, and those sent to them. -/
  handled : List (Sid × Frame) := []
  pushed : List (Sid × OutFrame) := []

structure Shared where
  /-- The clocks: seconds for Redis and the database, milliseconds for the delivery. -/
  now : ℕ
  steady : ℕ
  redis : ExpiringMap Bytes RedisValue
  sql : Transactions Worker Db Write RowKey
  sessions : Table Sid Session
  registry : ServerName → Uid → Option Sid
  wakes : List (Sid × Uid)
  notifications : List (ServerName × Uid × List TextMessage)
  cursor : ℕ
  history : History

/-- What is left open in an effect. -/
inductive Fault
  | ok
  /-- No effect. -/
  | refused
  /-- The effect takes place but its reply is lost. -/
  | lost
  deriving DecidableEq, Repr

structure Pick where
  fault : Fault := .ok
  /-- A pool or a queue has room; a peer answers. -/
  flag : Bool := true
  /-- A random text. -/
  id : Bytes := []
  job : Job := .tick
  files : Option Json := some (.arr [])
  index : ℕ := 0

namespace Shared

def update (s : Shared) (sid : Sid) (f : Session → Session) : Shared :=
  { s with sessions := s.sessions.update sid f }

def record (s : Shared) (f : History → History) : Shared := { s with history := f s.history }

def redeem (s : Shared) (t : Worker) (key : Bytes) : Shared :=
  match t, ticketToken key with
  | .session sid, some token =>
    (s.update sid fun x => { x with ticket := some (token, s.now) }).record fun h =>
      { h with redeemed := (token, sid) :: h.redeemed }
  | _, _ => s

def issue (s : Shared) (key : Bytes) (value : RedisValue) : Shared :=
  match ticketToken key with
  | some token => s.record fun h => { h with issued := ⟨token, value, s.now⟩ :: h.issued }
  | none => s

def put (s : Shared) (key : Bytes) (entry : Option (Entry RedisValue)) : Shared :=
  { s with redis := Function.update s.redis key entry }

def lookup (s : Shared) (key : Bytes) : Option RedisValue :=
  (s.redis.find s.now key).map Entry.value

def noteCheck (s : Shared) (t : Worker) (q : Query) : Shared :=
  match t, q with
  | .session sid, .countFriends a b =>
    s.update sid fun x => { x with checks := (a, b, s.sql.db.mutual a b) :: x.checks }
  | _, _ => s

def sessionCount (s : Shared) (server : ServerName) : ℕ :=
  (s.sessions.rows.filter fun r => r.1.server = server ∧ r.2.listed).length

def onSession {α : Type} (s : Shared) (sid : Sid) (read : Session → α) (f : Session → Session) :
    Option (α × Shared) :=
  (s.sessions.get sid).map fun x => (read x, s.update sid f)

theorem onSession_eq_some {α : Type} {s s' : Shared} {sid : Sid} {read : Session → α}
    {f : Session → Session} {a : α} (h : s.onSession sid read f = some (a, s')) :
    ∃ x, s.sessions.get sid = some x ∧ a = read x ∧ s' = s.update sid f := by
  obtain ⟨x, hx, heq⟩ := Option.map_eq_some_iff.mp h
  cases heq
  exact ⟨x, hx, rfl, rfl⟩

theorem lookup_eq_some {s : Shared} {key : Bytes} {value : RedisValue}
    (h : s.lookup key = some value) :
    ∃ e, s.redis key = some e ∧ e.value = value ∧ e.live s.now = true := by
  obtain ⟨e, he, rfl⟩ := Option.map_eq_some_iff.mp h
  simp only [ExpiringMap.find, Option.filter_eq_some_iff] at he
  exact ⟨e, he.1, rfl, he.2⟩

end Shared

/-- Process-wide limit on sessions. -/
def MAX_CHAT_SESSIONS : ℕ := 10000

/-! ## Effects -/

/-- A Redis command with an effect: its success and the state, for each fault. -/
def withFault (fault : Fault) (s s' : Shared) : Bool × Shared :=
  match fault with
  | .ok => (true, s')
  | .refused => (false, s)
  | .lost => (false, s')

def RedisCall.perform (t : Worker) (fault : Fault) (s : Shared) :
    (c : RedisCall) → c.Answer × Shared
  | .get key =>
    match fault with
    | .ok => (s.lookup key, s)
    | _ => (none, s)
  | .getDel key =>
    match fault, s.lookup key with
    | .refused, _ => (none, s)
    | _, none => (none, s)
    | .ok, some v => (some v, (s.put key none).redeem t key)
    | .lost, some _ => (none, s.put key none)
  | .set key value => withFault fault s (s.put key (some ⟨value, none⟩))
  | .setEx key value ttl => withFault fault s (s.put key (some ⟨value, some (s.now + ttl)⟩))
  | .setExNx key value ttl =>
    match s.lookup key with
    | some _ => (false, s)
    | none =>
      withFault fault s ((s.put key (some ⟨value, some (s.now + ttl)⟩)).issue key value)
  | .del key => withFault fault s (s.put key none)

/-- A call of the connection that answers nothing. -/
def orLost {α : Type} (fault : Fault) (a : α) (s s' : Shared) : Option α × Shared :=
  match fault with
  | .ok => (some a, s')
  | .refused => (none, s)
  | .lost => (none, s')

section Perform

variable (setup : Setup)

/-- A statement, once no other connection holds its rows; `none` if it has to wait. -/
def Query.perform (t : Worker) (fault : Fault) (s : Shared) (q : Query) :
    Option (Option q.Value × Shared) :=
  match fault, q.run setup s.now (s.sql.view engine t) with
  | .refused, _ => some (none, s)
  | _, none => none
  | _, some (v, ws, ks) =>
    if ∀ k ∈ ks, s.sql.Free t k then
      some (orLost fault v s { s.noteCheck t q with sql := s.sql.write engine t ws ks })
    else none

def DbCall.perform (t : Worker) (p : Pick) (s : Shared) : (c : DbCall) → Option (c.Answer × Shared)
  | .getConnection => some (p.flag, s)
  | .returnConnection => some ((), { s with sql := s.sql.reset t })
  | .setAutoCommit on =>
    some (orLost p.fault () s { s with sql := s.sql.setAutoCommit engine t on })
  | .commit => some (orLost p.fault () s { s with sql := s.sql.commit engine t })
  | .rollback => some (orLost p.fault () s { s with sql := s.sql.rollback t })
  | .query q => q.perform setup t p.fault s

def SessionCall.perform (p : Pick) (s : Shared) : (c : SessionCall) → Option (c.Answer × Shared)
  | .newSession server =>
    if s.sessions.get ⟨server, p.id⟩ = none then
      some (⟨server, p.id⟩, { s with sessions := s.sessions.insert ⟨server, p.id⟩ {} })
    else none
  | .insertSession sid =>
    if s.sessionCount sid.server < MAX_CHAT_SESSIONS then
      s.onSession sid (fun _ => true) fun x => { x with listed := true, started := true }
    else some (false, s)
  | .sessionCount server => some (s.sessionCount server, s)
  | .isClosed sid => s.onSession sid Session.closed fun x => x
  | .getUserId sid => s.onSession sid Session.uid fun x => x
  | .setUserId sid uid =>
    match s.sessions.get sid with
    | none => none
    | some x =>
      some ((), (s.update sid fun x => { x with uid := uid }).record fun h =>
        { h with auths :=
          ⟨sid, uid, (x.ticket.getD ([], 0)).1, (x.ticket.getD ([], 0)).2⟩ :: h.auths })
  | .exchangeClosed sid => s.onSession sid Session.closed fun x => { x with closed := true }
  | .findSession sid => s.onSession sid Session.listed fun x =>
      { x with cleared := x.cleared || !x.listed }
  | .clearUserId sid => s.onSession sid Session.uid fun x =>
      { x with cleared := x.cleared || decide (x.uid ≤ 0) }
  | .eraseSession sid => s.onSession sid (fun _ => ()) fun x => { x with listed := false }
  | .push sid frame =>
    some (p.flag, if p.flag then s.record fun h => { h with pushed := (sid, frame) :: h.pushed }
      else s)
  | .getSession server uid => some (s.registry server uid, s)
  | .setUserSession uid sid =>
    some ((), { s with
      registry := Function.update s.registry sid.server
        (Function.update (s.registry sid.server) uid (some sid))
      history := { s.history with
        bound := Function.update s.history.bound sid.server
          (Function.update (s.history.bound sid.server) uid (some sid)) } })
  | .rmvUserSession uid sid =>
    let s' := s.update sid fun x => { x with cleared := true }
    some ((), if s.registry sid.server uid = some sid then
        { s' with
          registry := Function.update s.registry sid.server
            (Function.update (s.registry sid.server) uid none) }
      else s')

/-- The shard of a session takes up a job: any frame of its client, a wake-up that was posted, or
the visit of a tick. -/
def Shared.takeJob (s : Shared) (sid : Sid) (job : Job) : Option Shared :=
  let s' := s.update sid fun x => { x with job := some job, checks := [] }
  match job with
  | .frame f => some (s'.record fun h => { h with handled := (sid, f) :: h.handled })
  | .wake uid =>
    if (sid, uid) ∈ s.wakes then some { s' with wakes := s.wakes.erase (sid, uid) } else none
  | .tick => some s'

def LogicCall.perform (p : Pick) (s : Shared) : (c : LogicCall) → Option (c.Answer × Shared)
  | .nextJob sid => (s.takeJob sid p.job).map fun s' => (p.job, s')
  | .jobDone sid => some ((), s.update sid fun x => { x with job := none })
  | .postWake sid uid =>
    some (p.flag, if p.flag then { s with wakes := s.wakes ++ [(sid, uid)] } else s)
  | .postNotification server touid messages =>
    some (p.flag, if p.flag then
        { s with notifications := s.notifications ++ [(server, touid, messages)] }
      else s)
  | .nextNotification server =>
    match s.notifications[p.index]? with
    | none => none
    | some n =>
      if n.1 = server then
        some (n.2, { s with notifications := s.notifications.eraseIdx p.index })
      else none
  | .delivery sid => s.onSession sid Session.delivery fun x => x
  | .setDelivery sid state => some ((), s.update sid fun x => { x with delivery := state })
  | .eraseDelivery sid => some ((), s.update sid fun x => { x with delivery := {} })
  | .steadyNow => some (s.steady, s)

def PeerCall.perform (t : Worker) (p : Pick) (s : Shared) :
    (c : PeerCall) → Option (c.Answer × Shared)
  | .notify _ _ => some (p.flag, s)
  | .pendingResources _ => some (p.files, s)
  | .newToken =>
    if p.id ∈ s.history.tokens.map Prod.fst then none
    else some (p.id, s.record fun h => { h with tokens := (p.id, t) :: h.tokens })
  | .selectServer healthy_servers =>
    match selectLeastLoaded healthy_servers s.cursor with
    | none => some (none, s)
    | some server => some (some server, { s with cursor := s.cursor + 1 })

/-- Worker `t` performs an effect; `none` if it has to wait. -/
def perform (t : Worker) (e : Call) (p : Pick) (s : Shared) : Option (e.Answer × Shared) :=
  match e with
  | .redis c => some (c.perform t p.fault s)
  | .db c => c.perform setup t p s
  | .session c => c.perform p s
  | .logic c => c.perform p s
  | .peer c => c.perform t p s

/-! ## Programs and the system -/

inductive Launch
  | job (s : Sid)
  | accept (server : ServerName) (n : ℕ)
  | close (s : Sid) (n : ℕ)
  | notification (server : ServerName) (n : ℕ)
  | publishHealth (server : ServerName) (n : ℕ)
  | peer (server : ServerName) (n : ℕ) (request : PeerRequest)
  | getChatServer (n : ℕ) (uid : Uid)

def servePeer (server : ServerName) : PeerRequest → Svc Bool
  | .addFriend request => ChatServiceImp.NotifyAddFriend setup server request
  | .authFriend fromuid touid => ChatServiceImp.NotifyAuthFriend setup server fromuid touid
  | .textChatMsg request => ChatServiceImp.NotifyTextChatMsg server request

/-- The worker and the program; jobs run for sessions that were started, and a session is closed
after it was created. -/
def launch (l : Launch) (s : Shared) : Option (Worker × Svc Unit) :=
  match l with
  | .job sid =>
    if (s.sessions.get sid).any Session.started then some (.session sid, runJob setup sid) else none
  | .accept server n => some (.server server n, CServer.HandleAccept server)
  | .close sid n =>
    if (s.sessions.get sid).isSome then some (.server sid.server n, CSession.Close sid) else none
  | .notification server n => some (.server server n, runNotification server)
  | .publishHealth server n => some (.server server n, CServer.PublishHealth server)
  | .peer server n request =>
    some (.server server n, do let _ ← servePeer setup server request)
  | .getChatServer n uid =>
    some (.status n, do let _ ← StatusServiceImpl.GetChatServer setup uid)

def Worker.on (server : ServerName) : Worker → Bool
  | .session s => s.server = server
  | .server name _ => name = server
  | .status _ => false

/-- What the crash of a server leaves: its connections are lost, its sessions closed, its registry
and queues empty. -/
def Shared.crashed (s : Shared) (server : ServerName) : Shared :=
  { s with
    sql := s.sql.resetAll (Worker.on server)
    sessions := s.sessions.mapRows fun sid x =>
      if sid.server = server then
        { x with closed := true, listed := false, job := none, cleared := true }
      else x
    registry := Function.update s.registry server fun _ => none
    wakes := s.wakes.filter fun w => w.1.server ≠ server
    notifications := s.notifications.filter fun n => n.1 ≠ server
    history := { s.history with
      bound := Function.update s.history.bound server fun _ => none } }

/-- The environment: the clocks do not go back; users register and change their profiles. -/
def Env (s s' : Shared) : Prop :=
  ∃ now steady users, s.now ≤ now ∧ s.steady ≤ steady ∧
    (∀ uid, (s.sql.db.users.get uid).isSome → (users.get uid).isSome) ∧
    s' = { s with
      now := now
      steady := steady
      sql := { s.sql with db := { s.sql.db with users := users } } }

/-- The start of a run at a time, with the users that are registered. -/
def Shared.fresh (now steady : ℕ) (users : Table Uid UserInfo) : Shared where
  now := now
  steady := steady
  redis _ := none
  sql := ⟨⟨users, .empty, .empty, .empty⟩, fun _ => none, fun _ => none⟩
  sessions := .empty
  registry _ _ := none
  wakes := []
  notifications := []
  cursor := 0
  history := {}

/-- Worker `t` with nobody else at work and nothing failing; the resource servers list these files.
-/
def alone (t : Worker) (files : Json) (e : Call) (s : Shared) : Option (e.Answer × Shared) :=
  perform setup t e { files := some files } s

/-- The chat servers, the status server and whoever connects to them. -/
def cluster : System Worker Call Call.Answer (Except Unit Unit) Shared where
  init s := ∃ now steady users, s = .fresh now steady users
  exec t e s r s' := ∃ p, perform setup t e p s = some (r, s')
  start t s p := ∃ l, launch setup l s = some (t, p)
  stop _ p s s' := (∃ r, p = .ret r) ∧ s' = s
  crash K s s' := ∃ server, K = Worker.on server ∧ s' = s.crashed server
  env := Env

theorem cluster_playable : Playable (launch setup) (perform setup) (cluster setup) where
  launch l _ _ _ h := ⟨l, h⟩
  perform _ _ p _ _ _ h := ⟨p, h⟩
  finish _ a _ := ⟨⟨a, rfl⟩, rfl⟩

end Perform

end DistributedChat.Chat
