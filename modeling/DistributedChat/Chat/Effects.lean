import DistributedChat.Chat.Protocol
import DistributedChat.Lib.Prog

/-!
# Effects of the chat servers, storage and sessions

The programs of a chat server act on the shared Redis and MySQL, on the sessions and the registry of
their process, on the executors and on other servers; each access is one effect. A SQL call may
throw, which its callers in `MysqlDao` catch; a Redis command returns `false` if it fails.

The functions of this module are those of `servers/chat/storage` (`RedisMgr`, `MysqlDao`), of
`common/FriendAcceptanceTransaction.h`, and of `servers/chat/network` (`CSession`, `CServer`).
-/

namespace DistributedChat.Chat

open Lib

/-! ## Effects -/

/-- A value in Redis: a plain text, or the text of a JSON value. -/
inductive RedisValue
  | text (s : Bytes)
  | json (v : Json)

/-- What the JSON reader makes of a value; the plain texts the servers store are no JSON objects. -/
def RedisValue.parse : RedisValue → Option Json
  | .text _ => none
  | .json v => some v

def RedisValue.isText (v : RedisValue) (s : Bytes) : Bool :=
  match v with
  | .text t => t == s
  | .json _ => false

inductive RedisCall
  | get (key : Bytes)
  /-- The script `GET` and `DEL`. -/
  | getDel (key : Bytes)
  | set (key : Bytes) (value : RedisValue)
  | setEx (key : Bytes) (value : RedisValue) (ttl : ℕ)
  /-- `SET … EX … NX`. -/
  | setExNx (key : Bytes) (value : RedisValue) (ttl : ℕ)
  | del (key : Bytes)

abbrev RedisCall.Answer : RedisCall → Type
  | .get _ => Option RedisValue
  | .getDel _ => Option RedisValue
  | _ => Bool

inductive Query
  | selectUser (uid : Uid)
  | selectUserByName (name : Bytes)
  | selectApplyList (touid : Uid) (limit : ℕ)
  | selectFriends (self_id : Uid)
  | countFriends (first_uid second_uid : Uid)
  | selectPendingApply (from_uid to_uid : Uid)
  | insertApply (from_uid to_uid : Uid)
  | insertFriend (self_uid friend_uid : Uid) (back : Bytes)
  | acceptApply (applicant_uid accepter_uid : Uid)
  | insertMessage (message : TextMessage)
  | verifyMessage (sender_uid : Uid) (client_message_id : Bytes)
  | selectPendingMessages (receiver_uid : Uid) (limit : ℕ)
  | acknowledge (receiver_uid sender_uid : Uid) (client_message_id : Bytes)

/-- What a statement returns: the rows, or the number of affected rows. -/
abbrev Query.Value : Query → Type
  | .selectUser _ => Option UserInfo
  | .selectUserByName _ => Option UserInfo
  | .selectApplyList _ _ => List ApplyInfo
  | .selectFriends _ => List (Uid × Bytes)
  | .countFriends _ _ => ℕ
  | .selectPendingApply _ _ => Bool
  | .verifyMessage _ _ => Option (Uid × Bytes)
  | .selectPendingMessages _ _ => List TextMessage
  | _ => ℤ

inductive DbCall
  | getConnection
  | returnConnection
  | setAutoCommit (on : Bool)
  | commit
  | rollback
  | query (q : Query)

/-- `none` is an exception. -/
abbrev DbCall.Answer : DbCall → Type
  | .getConnection => Bool
  | .returnConnection => Unit
  | .query q => Option q.Value
  | _ => Option Unit

/-- The fields of a session, the session table of its server and the registry of users. -/
inductive SessionCall
  | newSession (server : ServerName)
  | insertSession (s : Sid)
  | sessionCount (server : ServerName)
  | isClosed (s : Sid)
  | getUserId (s : Sid)
  | setUserId (s : Sid) (uid : Uid)
  | exchangeClosed (s : Sid)
  | findSession (s : Sid)
  /-- `GetUserId` where `ClearSession` calls it. -/
  | clearUserId (s : Sid)
  | eraseSession (s : Sid)
  /-- The queue of outgoing frames takes a frame, or is full. -/
  | push (s : Sid) (frame : OutFrame)
  | getSession (server : ServerName) (uid : Uid)
  | setUserSession (uid : Uid) (s : Sid)
  | rmvUserSession (uid : Uid) (expected : Sid)

abbrev SessionCall.Answer : SessionCall → Type
  | .newSession _ => Sid
  | .insertSession _ => Bool
  | .sessionCount _ => ℕ
  | .isClosed _ => Bool
  | .getUserId _ => Uid
  | .exchangeClosed _ => Bool
  | .findSession _ => Bool
  | .clearUserId _ => Uid
  | .push _ _ => Bool
  | .getSession _ _ => Option Sid
  | _ => Unit

/-- What the shard of a session runs for it: a frame, a wake-up of the delivery for a user, or the
visit of the periodic tick. -/
inductive Job
  | frame (f : Frame)
  | wake (uid : Uid)
  | tick

/-- The executors and what they keep for a session. -/
inductive LogicCall
  | nextJob (s : Sid)
  | jobDone (s : Sid)
  | postWake (s : Sid) (uid : Uid)
  | postNotification (server : ServerName) (touid : Uid) (messages : List TextMessage)
  | nextNotification (server : ServerName)
  | delivery (s : Sid)
  | setDelivery (s : Sid) (state : DeliveryState)
  | eraseDelivery (s : Sid)
  | steadyNow

abbrev LogicCall.Answer : LogicCall → Type
  | .nextJob _ => Job
  | .postWake _ _ => Bool
  | .postNotification _ _ _ => Bool
  | .nextNotification _ => Uid × List TextMessage
  | .delivery _ => DeliveryState
  | .steadyNow => ℕ
  | _ => Unit

structure AddFriendReq where
  applyuid : Uid
  touid : Uid
  name : Bytes
  desc : Bytes
  icon : Bytes
  sex : ℤ
  nick : Bytes
  deriving DecidableEq, Repr

inductive PeerRequest
  | addFriend (request : AddFriendReq)
  | authFriend (fromuid touid : Uid)
  | textChatMsg (request : TextChatMsgReq)

/-- Other services and sources of randomness. -/
inductive PeerCall
  /-- The answer says whether the reply carries no error. -/
  | notify (server : ServerName) (request : PeerRequest)
  /-- The pending files of the resource servers: null if none answers, `none` if it throws. -/
  | pendingResources (uid : Uid)
  | newToken
  /-- The choice of `selectLeastLoaded`, and the step of the round robin cursor. -/
  | selectServer (healthy_servers : List (ServerName × ℕ))

abbrev PeerCall.Answer : PeerCall → Type
  | .notify _ _ => Bool
  | .pendingResources _ => Option Json
  | .newToken => Bytes
  | .selectServer _ => Option ServerName

inductive Call
  | redis (c : RedisCall)
  | db (c : DbCall)
  | session (c : SessionCall)
  | logic (c : LogicCall)
  | peer (c : PeerCall)

abbrev Call.Answer : Call → Type
  | .redis c => c.Answer
  | .db c => c.Answer
  | .session c => c.Answer
  | .logic c => c.Answer
  | .peer c => c.Answer

/-- Programs of a chat server; no handler looks at what an exception carries. -/
abbrev Svc := Task Call Call.Answer Unit

def call (e : Call) : Svc e.Answer := Task.perform e .ok

def throw {α : Type} : Svc α := Task.throw ()

/-! ## `RedisMgr` -/

/-- What a `%s` of a Redis command takes of a string. -/
def cString (s : Bytes) : Bytes := s.takeWhile (· != 0)

def RedisValue.cString : RedisValue → RedisValue
  | .text s => .text (Chat.cString s)
  | .json v => .json v

namespace RedisMgr

def Get (key : Bytes) : Svc (Option RedisValue) := call (.redis (.get (cString key)))

def GetDel (key : Bytes) : Svc (Option RedisValue) := call (.redis (.getDel key))

def Set (key : Bytes) (value : RedisValue) : Svc Bool :=
  call (.redis (.set (cString key) value.cString))

def SetWithTtl (key : Bytes) (value : RedisValue) (ttl_seconds : ℕ) : Svc Bool :=
  if ttl_seconds = 0 then return false else call (.redis (.setEx key value ttl_seconds))

def SetEx (key : Bytes) (value : RedisValue) (ttl_seconds : ℕ) : Svc Bool :=
  call (.redis (.setExNx key value ttl_seconds))

def Del (key : Bytes) : Svc Bool := call (.redis (.del (cString key)))

end RedisMgr

/-! ## `MysqlDao` -/

/-- A call of the connection, which throws if it is answered by `none`. -/
def dbCall (c : DbCall) {α : Type} (f : c.Answer → Option α) : Svc α :=
  Task.perform (.db c) fun r => match f r with
    | none => .error ()
    | some a => .ok a

def query (q : Query) : Svc q.Value := dbCall (.query q) fun r => r

def setAutoCommit (on : Bool) : Svc Unit := dbCall (.setAutoCommit on) fun r => r

def commit : Svc Unit := dbCall .commit fun r => r

def rollback : Svc Unit := dbCall .rollback fun r => r

/-- Borrow a connection for `body` and give it back however `body` ends. -/
def withConnection {α : Type} (unavailable : α) (body : Svc α) : Svc α := do
  if (← call (.db .getConnection)) then
    Task.ensuring body (call (.db .returnConnection))
  else
    return unavailable

/-- `try { body } catch (sql::SQLException&) { return failed; }`. -/
def caught {α : Type} (failed : α) (body : Svc α) : Svc α :=
  Task.recover body fun _ => return failed

namespace MysqlDao

def AddFriendApply (from_uid to_uid : Uid) : Svc Bool :=
  withConnection false (caught false do
    let rowAffected ← query (.insertApply from_uid to_uid)
    return decide (¬ rowAffected < 0))

inductive FriendAcceptanceResult
  | Success
  | PendingMissing
  | StorageError
  deriving DecidableEq, Repr

def ExecuteFriendAcceptanceTransaction (accepter_uid applicant_uid : Uid) (back_name : Bytes) :
    Svc FriendAcceptanceResult := do
  setAutoCommit false
  Task.recover
    (do
      let first ← query (.insertFriend accepter_uid applicant_uid back_name)
      if first < 0 then do
        rollback
        return .StorageError
      else do
        let second ← query (.insertFriend applicant_uid accepter_uid [])
        if second < 0 then do
          rollback
          return .StorageError
        else do
          let accepted ← query (.acceptApply applicant_uid accepter_uid)
          if accepted ≠ 1 then do
            rollback
            return .PendingMissing
          else do
            commit
            return .Success)
    fun _ => do
      -- a rollback that throws does not hide the first exception
      Task.recover rollback fun _ => return ()
      throw

def AddFriend (from_uid to_uid : Uid) (back_name : Bytes) : Svc FriendAcceptanceResult :=
  withConnection .StorageError (caught .StorageError
    (ExecuteFriendAcceptanceTransaction from_uid to_uid back_name))

def GetUser (uid : Uid) : Svc (Option UserInfo) :=
  withConnection none (caught none (query (.selectUser uid)))

def GetUserByName (name : Bytes) : Svc (Option UserInfo) :=
  withConnection none (caught none (query (.selectUserByName name)))

/-- `none` stands for the result `false`. -/
def GetApplyList (touid : Uid) (limit : ℕ) : Svc (Option (List ApplyInfo)) :=
  withConnection none (caught none (do
    let rows ← query (.selectApplyList touid limit)
    return some rows))

/-- The loop of `GetFriendList`, which looks up each friend on a connection of its own. -/
def friendInfos : List (Uid × Bytes) → Svc (List UserInfo)
  | [] => return []
  | (friend_id, back) :: rest => do
    match ← GetUser friend_id with
    | none => friendInfos rest
    | some user => do
      let others ← friendInfos rest
      return { user with back := if back.length = 0 then user.name else back } :: others

/-- `none` stands for the result `false`. -/
def GetFriendList (self_id : Uid) : Svc (Option (List UserInfo)) :=
  withConnection none (caught none (do
    let rows ← query (.selectFriends self_id)
    let users ← friendInfos rows
    return some users))

def CheckFriendRelation (first_uid second_uid : Uid) : Svc (Option Bool) :=
  withConnection none (caught none (do
    let relation_count ← query (.countFriends first_uid second_uid)
    return some (relation_count == 2)))

def AreFriends (first_uid second_uid : Uid) : Svc Bool := do
  return (← CheckFriendRelation first_uid second_uid).getD false

def HasPendingFriendApply (from_uid to_uid : Uid) : Svc Bool :=
  withConnection false (caught false (query (.selectPendingApply from_uid to_uid)))

/-- The loop of `PersistTextMessages`; `false` if a message conflicts with its row. -/
def persistLoop : List TextMessage → Svc Bool
  | [] => return true
  | m :: ms => do
    let _ ← query (.insertMessage m)
    let row ← query (.verifyMessage m.sender_uid m.client_message_id)
    if row = some (m.receiver_uid, m.content) then persistLoop ms
    else return false

/-- `catch (sql::SQLException&)` of the two transactions on messages. -/
def undone (body : Svc Bool) : Svc Bool :=
  Task.recover body fun _ => do
    Task.recover (do rollback; setAutoCommit true) fun _ => return ()
    return false

def PersistTextMessages (messages : List TextMessage) : Svc Bool :=
  if messages = [] then return false
  else withConnection false (undone do
    setAutoCommit false
    if (← persistLoop messages) then do
      commit
      setAutoCommit true
      return true
    else do
      rollback
      setAutoCommit true
      return false)

def GetPendingTextMessages (receiver_uid : Uid) (limit : ℕ) : Svc (Option (List TextMessage)) :=
  if receiver_uid ≤ 0 ∨ limit = 0 then return none
  else withConnection none (caught none (do
    let rows ← query (.selectPendingMessages receiver_uid limit)
    return some rows))

def acknowledgeLoop (receiver_uid sender_uid : Uid) : List Bytes → Svc Unit
  | [] => return ()
  | id :: ids => do
    let _ ← query (.acknowledge receiver_uid sender_uid id)
    acknowledgeLoop receiver_uid sender_uid ids

def AcknowledgeTextMessages (receiver_uid sender_uid : Uid) (client_message_ids : List Bytes) :
    Svc Bool :=
  if receiver_uid ≤ 0 ∨ sender_uid ≤ 0 ∨ client_message_ids = [] then return false
  else withConnection false (undone do
    setAutoCommit false
    acknowledgeLoop receiver_uid sender_uid client_message_ids
    commit
    setAutoCommit true
    return true)

end MysqlDao

/-! ## Sessions -/

def isClosed (s : Sid) : Svc Bool := call (.session (.isClosed s))

def getUserId (s : Sid) : Svc Uid := call (.session (.getUserId s))

/-- `UserMgr::GetSession` on a server. -/
def getSession (server : ServerName) (uid : Uid) : Svc (Option Sid) :=
  call (.session (.getSession server uid))

namespace CServer

def ClearSession (s : Sid) : Svc Unit := do
  if (← call (.session (.findSession s))) then do
    let uid ← call (.session (.clearUserId s))
    if 0 < uid then
      call (.session (.rmvUserSession uid s))
  call (.session (.eraseSession s))

end CServer

namespace CSession

def Close (s : Sid) : Svc Unit := do
  if (← call (.session (.exchangeClosed s))) then return ()
  else CServer.ClearSession s

/-- `Send`: `false` if the frame is not queued. -/
def Send (setup : Setup) (s : Sid) (body : Json) (msgid : MsgId) : Svc Bool := do
  if 65535 < setup.size body then do
    Close s
    return false
  else if (← isClosed s) then return false
  else if (← isClosed s) then return false
  else call (.session (.push s ⟨msgid, body⟩))

end CSession

namespace CServer

/-- `HandleAccept` for a new connection; a session above the limit is closed at once. -/
def HandleAccept (server : ServerName) : Svc Unit := do
  let s ← call (.session (.newSession server))
  if (← call (.session (.insertSession s))) then return ()
  else CSession.Close s

end CServer

end DistributedChat.Chat
