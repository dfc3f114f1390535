import DistributedChat.Chat.Effects

/-!
# The handlers of the chat servers

`LogicSystem` (`servers/chat/service/LogicSystem.cpp`): what a server does with a frame, with a
wake-up of the delivery and at a tick; `ChatServiceImp` (`servers/chat/rpc`): the calls of other
chat servers; and `StatusServiceImpl` (`servers/status/rpc`), which issues the login tickets.

A handler builds its reply step by step and sends what it has when it is left, by `return` or by an
exception: `Reply` holds the value at that point.
-/

namespace DistributedChat.Chat

open Lib

/-! ## Keys -/

def USERIPPREFIX : Bytes := ascii "uip_"
def CHAT_TICKET_PREFIX : Bytes := ascii "chat_ticket_"
def CHAT_HEALTH_PREFIX : Bytes := ascii "chat_health_"
def USER_BASE_INFO : Bytes := ascii "ubaseinfo_"
def NAME_INFO : Bytes := ascii "nameinfo_"

def ticketToken (key : Bytes) : Option Bytes :=
  if CHAT_TICKET_PREFIX.isPrefixOf key then some (key.drop CHAT_TICKET_PREFIX.length) else none

/-- `std::to_string`. -/
def decimal (n : ℤ) : Bytes := ascii (toString n)

/-- `std::from_chars` for an `int`, if it takes the whole string. -/
def fromChars (s : Bytes) : Option ℤ :=
  let digits := if s.head? = some 45 then s.tail else s
  let magnitude : ℤ := (digits.foldl (fun n c => 10 * n + (c.toNat - 48)) 0 : ℕ)
  let value := if s.head? = some 45 then -magnitude else magnitude
  if digits ≠ [] ∧ digits.all (fun c => 48 ≤ c && c ≤ 57) ∧ -(2 ^ 31) ≤ value ∧ value < 2 ^ 31 then
    some value
  else none

def resourceSessionKey (session_id : Bytes) : Bytes := ascii "resource_session:" ++ session_id

def resourceTokenKey (setup : Setup) (token : Bytes) : Bytes :=
  ascii "resource_token:" ++ setup.tokenDigest token

/-! ## Replies -/

structure Reply where
  rtvalue : Json
  /-- An exception leaves the handler. -/
  thrown : Bool := false
  authenticated : Bool := false

def failed (rtvalue : Json) (e : ErrorCode) : Reply := ⟨rtvalue.set "error" e.json, false, false⟩

/-- The body of a frame, if it is an object. -/
def object (data : Option Json) : Option Json := data.filter Json.isObject

/-- `request_id` is echoed if it is a string of at most 64 bytes. -/
def echoRequestId (root rtvalue : Json) : Json :=
  match (root.get "request_id").str? with
  | some id => if id.length ≤ 64 then rtvalue.set "request_id" (.str id) else rtvalue
  | none => rtvalue

/-! ## Profiles -/

def profileJson (uid : Uid) (user : UserInfo) : Json :=
  Json.null.setAll [("uid", .int uid), ("name", .str user.name), ("email", .str user.email),
    ("nick", .str user.nick), ("desc", .str user.desc), ("sex", .int user.sex),
    ("icon", .str user.icon)]

/-- A cached profile of `uid`, if all its members have their types. -/
def cachedProfile (value : RedisValue) (uid : Uid) : Option UserInfo := do
  let root ← object value.parse
  let found ← (root.get "uid").int?
  let name ← (root.get "name").str?
  let email ← (root.get "email").str?
  let nick ← (root.get "nick").str?
  let desc ← (root.get "desc").str?
  let sex ← (root.get "sex").int?
  let icon ← (root.get "icon").str?
  if found = uid then some { name, uid, email, nick, desc, sex, icon } else none

/-- The second half of `GetBaseInfo`: look the user up and fill the cache. -/
def loadBaseInfo (base_key : Bytes) (uid : Uid) : Svc (Option UserInfo) := do
  match ← MysqlDao.GetUser uid with
  | none => return none
  | some user => do
    let _ ← RedisMgr.Set base_key (.json (profileJson uid user))
    return some user

def GetBaseInfo (base_key : Bytes) (uid : Uid) : Svc (Option UserInfo) := do
  match ← RedisMgr.Get base_key with
  | none => loadBaseInfo base_key uid
  | some info =>
    match cachedProfile info uid with
    | some user => return some user
    | none => do
      let _ ← RedisMgr.Del base_key
      loadBaseInfo base_key uid

/-! ## Delivery -/

section Handlers

variable (setup : Setup)

def notification (m : TextMessage) : Json :=
  Json.null.setAll
    [("error", ErrorCode.ok.json), ("fromuid", .int m.sender_uid), ("touid", .int m.receiver_uid),
    ("text_array", .arr [Json.null.setAll
      [("msgid", .str m.client_message_id), ("content", .str m.content)]])]

/-- The loop of `DeliverPendingTextMessages`: it ends at the first message that is not queued. -/
def deliverLoop (s : Sid) (now : ℕ) : List TextMessage → DeliveryWindow → Svc DeliveryWindow
  | [], window => return window
  | m :: ms, window =>
    if window.due m now then do
      if (← CSession.Send setup s (notification m) .notifyTextChatMsgReq) then
        deliverLoop s now ms (window.sent m now).1
      else
        return window
    else deliverLoop s now ms window

def DeliverPendingTextMessages (s : Sid) (receiver_uid : Uid) : Svc Unit := do
  if (← isClosed s) then return ()
  else do
    let state ← call (.logic (.delivery s))
    let now ← call (.logic .steadyNow)
    match ← MysqlDao.GetPendingTextMessages receiver_uid DeliveryWindow.Capacity with
    | none =>
      let idle_seconds := min (state.idle_seconds * 2) 30
      call (.logic (.setDelivery s { state with
        idle_seconds := idle_seconds, next := now + seconds idle_seconds }))
    | some pending => do
      let idle_seconds := if pending = [] then min (state.idle_seconds * 2) 30 else 1
      let window ← deliverLoop setup s now pending (state.window.reconcile pending)
      call (.logic (.setDelivery s ⟨window, now + seconds idle_seconds, idle_seconds⟩))

/-- `WakeDelivery` on a server; `false` if the queue is full. -/
def WakeDelivery (server : ServerName) (uid : Uid) : Svc Bool := do
  match ← getSession server uid with
  | none => return true
  | some s =>
    if (← isClosed s) then return true
    else call (.logic (.postWake s uid))

/-- The visit of a session by `Tick`. -/
def tickVisit (s : Sid) : Svc Unit := do
  let now ← call (.logic .steadyNow)
  if (← isClosed s) then call (.logic (.eraseDelivery s))
  else do
    let registered ← getSession s.server (← getUserId s)
    if registered ≠ some s then call (.logic (.eraseDelivery s))
    else do
      let state ← call (.logic (.delivery s))
      if state.next ≤ now then DeliverPendingTextMessages setup s (← getUserId s)

/-- The request `NotifyRecipient` builds from a batch. -/
def notifyRequest (touid : Uid) (messages : List TextMessage) : TextChatMsgReq :=
  ⟨(messages.head?.map TextMessage.sender_uid).getD 0, touid,
    messages.map fun m => ⟨m.client_message_id, m.content⟩⟩

def NotifyRecipient (server : ServerName) (touid : Uid) (messages : List TextMessage) :
    Svc Unit := do
  match ← getSession server touid with
  | some _ => do
    let _ ← WakeDelivery server touid
    return ()
  | none =>
    match ← RedisMgr.Get (USERIPPREFIX ++ decimal touid) with
    | none => return ()
    | some target_server =>
      if target_server.isText server then return ()
      else
        match target_server with
        | .json _ => return ()
        | .text target => do
          let _ ← call (.peer (.notify target (.textChatMsg (notifyRequest touid messages))))
          return ()

/-! ## Login -/

def loginRequest (data : Option Json) : Option (Json × Uid × Bytes) := do
  let root ← object data
  let uid ← (root.get "uid").int?
  let token ← (root.get "token").str?
  return (root, uid, token)

/-- A ticket is for this user and this server. -/
def validTicket (value : RedisValue) (uid : Uid) (server : ServerName) : Bool :=
  match object value.parse with
  | none => false
  | some ticket =>
    (ticket.get "uid").int? == some uid && (ticket.get "server").str? == some server

def applyJson (a : ApplyInfo) : Json :=
  Json.null.setAll [("name", .str a.name), ("uid", .int a.uid), ("icon", .str a.icon),
    ("nick", .str a.nick), ("sex", .int a.sex), ("desc", .str a.desc), ("status", .int a.status)]

def friendJson (u : UserInfo) : Json :=
  Json.null.setAll [("name", .str u.name), ("uid", .int u.uid), ("icon", .str u.icon),
    ("nick", .str u.nick), ("sex", .int u.sex), ("desc", .str u.desc), ("back", .str u.back)]

/-- `rtvalue[key].append(x)` for each element. -/
def appendAll (rtvalue : Json) (key : String) (xs : List Json) : Json :=
  xs.foldl (fun v x => v.set key ((v.get key).append x)) rtvalue

/-- The end of a login: the user is known, the lists are read, and the session is bound to them. -/
def bindSession (s : Sid) (uid : Uid) (user : UserInfo) : Svc Reply := do
  let rtvalue := Json.null.setAll [("error", ErrorCode.ok.json), ("uid", .int uid),
    ("name", .str user.name), ("email", .str user.email), ("nick", .str user.nick),
    ("desc", .str user.desc), ("sex", .int user.sex), ("icon", .str user.icon)]
  let apply_list ← MysqlDao.GetApplyList uid 50
  let rtvalue := appendAll rtvalue "apply_list" ((apply_list.getD []).map applyJson)
  let friend_list ← MysqlDao.GetFriendList uid
  let rtvalue := appendAll rtvalue "friend_list" ((friend_list.getD []).map friendJson)
  match ← call (.peer (.pendingResources uid)) with
  | none => return ⟨rtvalue, true, false⟩
  | some files => do
    let unavailable := match files with
      | .null => true
      | _ => false
    let rtvalue := rtvalue.setAll
      [("pending_files", files), ("resources_unavailable", .bool unavailable)]
    call (.session (.setUserId s uid))
    let _ ← RedisMgr.Set (USERIPPREFIX ++ decimal uid) (.text s.server)
    call (.session (.setUserSession uid s))
    return ⟨rtvalue, false, true⟩

/-- The body of `LoginChatCallback`. -/
def login (s : Sid) (root : Json) (uid : Uid) (token : Bytes) : Svc Reply := do
  let bound ← getUserId s
  if 0 < bound ∨ uid ≤ 0 ∨ token = [] then return failed .null .tokenInvalid
  else
    match ((root.find "resource_protocol_version").getD (.int 0)).asInt with
    | none => return ⟨.null, true, false⟩
    | some version =>
      if version ≠ 1 then
        return ⟨Json.null.setAll [("error", .int 426), ("message",
          .str (ascii "Please upgrade the client: HTTPS resource protocol v1 required"))],
          false, false⟩
      else
        match ← RedisMgr.GetDel (CHAT_TICKET_PREFIX ++ token) with
        | none => return failed .null .uidInvalid
        | some ticket_value =>
          if validTicket ticket_value uid s.server then
            match ← GetBaseInfo (USER_BASE_INFO ++ decimal uid) uid with
            | none => return failed .null .uidInvalid
            | some user => bindSession s uid user
          else return failed .null .tokenInvalid

def LoginChatCallback (s : Sid) (data : Option Json) : Svc Unit :=
  match loginRequest data with
  | none => CSession.Close s
  | some (root, uid, token) => do
    let reply ← login s root uid token
    let sent ← CSession.Send setup s reply.rtvalue .chatLoginRsp
    if sent ∧ reply.authenticated then DeliverPendingTextMessages setup s uid
    if reply.thrown then throw

/-! ## Search -/

def isPureDigit (s : Bytes) : Bool := !s.isEmpty && s.all fun c => 48 ≤ c && c ≤ 57

/-- A member of a cached value; `operator[]` throws for a value that is neither object nor null. -/
def cachedMember (root : Json) (key : String) : Option Json :=
  match root with
  | .obj _ => some (root.get key)
  | .null => some .null
  | _ => none

/-- What a search answers from the cache; `none` if a member cannot be converted. A value that is
no JSON is read as null. -/
def cachedSearch (info : RedisValue) (icon : Json → Option Json) :
    Option (List (String × Json)) := do
  let root := info.parse.getD .null
  let uid ← (← cachedMember root "uid").asInt
  let name ← (← cachedMember root "name").asString
  let nick ← (← cachedMember root "nick").asString
  let desc ← (← cachedMember root "desc").asString
  let sex ← (← cachedMember root "sex").asInt
  let icon ← icon (← cachedMember root "icon")
  return [("uid", .int uid), ("name", .str name), ("nick", .str nick), ("desc", .str desc),
    ("sex", .int sex), ("icon", icon)]

def foundUser (user : UserInfo) : List (String × Json) :=
  [("uid", .int user.uid), ("name", .str user.name), ("nick", .str user.nick),
    ("desc", .str user.desc), ("sex", .int user.sex), ("icon", .str user.icon)]

/-- The lookup that `GetUserByUid` and `GetUserByName` share: the cache, then the database, whose
answer is cached. -/
def searchThrough (base_key : Bytes) (icon : Json → Option Json) (lookup : Svc (Option UserInfo)) :
    Svc Reply := do
  let rtvalue := Json.null.set "error" ErrorCode.ok.json
  match ← RedisMgr.Get base_key with
  | some info =>
    match cachedSearch info icon with
    | none => return ⟨rtvalue, true, false⟩
    | some members => return ⟨rtvalue.setAll members, false, false⟩
  | none =>
    match ← lookup with
    | none => return failed rtvalue .uidInvalid
    | some user => do
      let _ ← RedisMgr.Set base_key (.json (profileJson user.uid user))
      return ⟨rtvalue.setAll (foundUser user), false, false⟩

def GetUserByUid (uid_str : Bytes) : Svc Reply :=
  match fromChars uid_str with
  | none => return failed .null .uidInvalid
  | some uid =>
    if uid ≤ 0 then return failed .null .uidInvalid
    else searchThrough (USER_BASE_INFO ++ uid_str) (fun icon => icon.asString.map .str)
      (MysqlDao.GetUser uid)

/-- The access `root["icon"]` creates the member, so the test for its absence that follows in the
source never succeeds. -/
def GetUserByName (name : Bytes) : Svc Reply :=
  searchThrough (NAME_INFO ++ name) some (MysqlDao.GetUserByName name)

def SearchUserCallback (s : Sid) (data : Option Json) : Svc Unit :=
  match (object data).bind fun root => (root.get "uid").str? with
  | none => do
    let _ ← CSession.Send setup s (Json.null.set "error" ErrorCode.jsonError.json) .searchUserRsp
    return ()
  | some uid_str => do
    let reply ←
      if uid_str = [] then pure (failed .null .jsonError)
      else if isPureDigit uid_str then GetUserByUid uid_str
      else GetUserByName uid_str
    let _ ← CSession.Send setup s reply.rtvalue .searchUserRsp
    if reply.thrown then throw

/-! ## Friends -/

/-- `"icon"`, `"sex"` and `"nick"` are sent if the profile of the sender is known. -/
def profileMembers (info : Option UserInfo) : List (String × Json) :=
  match info with
  | none => []
  | some u => [("icon", .str u.icon), ("sex", .int u.sex), ("nick", .str u.nick)]

/-- The notification of the applicant's request, after it is stored: the reply with
`notification_pending` set if it could not be passed on. -/
def notifyApplication (server : ServerName) (uid touid : Uid) (applyname : Bytes) (rtvalue : Json) :
    Svc Json := do
  match ← RedisMgr.Get (USERIPPREFIX ++ decimal touid) with
  | none => return rtvalue
  | some ip => do
    let info ← GetBaseInfo (USER_BASE_INFO ++ decimal uid) uid
    let applyname := (info.map UserInfo.name).getD applyname
    if ip.isText server then do
      match ← getSession server touid with
      | none => return rtvalue
      | some peer => do
        let notify := Json.null.setAll ([("error", ErrorCode.ok.json), ("applyuid", .int uid),
          ("name", .str applyname), ("desc", .str [])] ++ profileMembers info)
        if (← CSession.Send setup peer notify .notifyAddFriendReq) then return rtvalue
        else return rtvalue.set "notification_pending" (.bool true)
    else
      match ip with
      | .json _ => return rtvalue
      | .text target => do
        let request : AddFriendReq :=
          match info with
          | none => ⟨uid, touid, applyname, [], [], 0, []⟩
          | some u => ⟨uid, touid, applyname, [], u.icon, u.sex, u.nick⟩
        if (← call (.peer (.notify target (.addFriend request)))) then return rtvalue
        else return rtvalue.set "notification_pending" (.bool true)

def optionalString (root : Json) (key : String) : Option Bytes :=
  match root.find key with
  | none => some []
  | some v => v.str?

def addFriendRequest (data : Option Json) : Option (Json × Uid × Bytes) := do
  let root ← object data
  let touid ← (root.get "touid").int?
  let applyname ← optionalString root "applyname"
  let _ ← optionalString root "bakname"
  return (root, touid, applyname)

/-- The body of `AddFriendCallback`. -/
def addFriend (server : ServerName) (uid touid : Uid) (applyname : Bytes) (rtvalue : Json) :
    Svc Json :=
  let invalid := rtvalue.set "error" ErrorCode.uidInvalid.json
  if touid ≤ 0 ∨ touid = uid then return invalid
  else do
    match ← MysqlDao.CheckFriendRelation uid touid with
    | none => return rtvalue.set "error" ErrorCode.rpcError.json
    | some true => return invalid
    | some false =>
      match ← MysqlDao.GetUser touid with
      | none => return invalid
      | some _ =>
        if (← MysqlDao.AddFriendApply uid touid) then
          notifyApplication setup server uid touid applyname rtvalue
        else return invalid

def AddFriendCallback (s : Sid) (data : Option Json) : Svc Unit :=
  match addFriendRequest data with
  | none => CSession.Close s
  | some (root, touid, applyname) => do
    let uid ← getUserId s
    let rtvalue := Json.null.setAll [("error", ErrorCode.ok.json), ("touid", .int touid)]
    let rtvalue ← addFriend setup s.server uid touid applyname (echoRequestId root rtvalue)
    let _ ← CSession.Send setup s rtvalue .addFriendRsp
    return ()

def authFriendRequest (data : Option Json) : Option (Json × Uid × Bytes) := do
  let root ← object data
  let touid ← (root.get "touid").int?
  let back ← (root.get "back").str?
  return (root, touid, back)

def notifyAcceptance (server : ServerName) (uid touid : Uid) : Svc Unit := do
  match ← RedisMgr.Get (USERIPPREFIX ++ decimal touid) with
  | none => return ()
  | some ip =>
    if ip.isText server then do
      match ← getSession server touid with
      | none => return ()
      | some peer => do
        let notify := Json.null.setAll [("error", ErrorCode.ok.json), ("fromuid", .int uid),
          ("touid", .int touid)]
        let notify := match ← GetBaseInfo (USER_BASE_INFO ++ decimal uid) uid with
          | none => notify.set "error" ErrorCode.uidInvalid.json
          | some u => notify.setAll [("name", .str u.name), ("nick", .str u.nick),
              ("icon", .str u.icon), ("sex", .int u.sex)]
        let _ ← CSession.Send setup peer notify .notifyAuthFriendReq
        return ()
    else
      match ip with
      | .json _ => return ()
      | .text target => do
        let _ ← call (.peer (.notify target (.authFriend uid touid)))
        return ()

/-- What `AuthFriendCallback` does once the profile of the applicant is read. -/
def authFriend (uid touid : Uid) (back_name : Bytes) (info : Option UserInfo) (rtvalue : Json) :
    Svc (Json × Bool) :=
  if touid ≤ 0 ∨ touid = uid ∨ info = none then
    return (rtvalue.set "error" ErrorCode.uidInvalid.json, false)
  else do
    match ← MysqlDao.CheckFriendRelation uid touid with
    | none => return (rtvalue.set "error" ErrorCode.rpcError.json, false)
    | some true => return (rtvalue, true)
    | some false =>
      match ← MysqlDao.AddFriend uid touid back_name with
      | .PendingMissing => return (rtvalue.set "error" ErrorCode.uidInvalid.json, false)
      | .StorageError => return (rtvalue.set "error" ErrorCode.rpcError.json, false)
      | .Success => return (rtvalue, true)

def AuthFriendCallback (s : Sid) (data : Option Json) : Svc Unit :=
  match authFriendRequest data with
  | none => CSession.Close s
  | some (root, touid, back_name) => do
    let uid ← getUserId s
    let rtvalue := echoRequestId root
      (Json.null.setAll [("error", ErrorCode.ok.json), ("uid", .int touid)])
    let info ← GetBaseInfo (USER_BASE_INFO ++ decimal touid) touid
    let rtvalue := match info with
      | none => rtvalue.set "error" ErrorCode.uidInvalid.json
      | some u => rtvalue.setAll [("name", .str u.name), ("nick", .str u.nick),
          ("icon", .str u.icon), ("sex", .int u.sex), ("uid", .int touid)]
    let (rtvalue, accepted) ← authFriend uid touid back_name info rtvalue
    if accepted then notifyAcceptance setup s.server uid touid
    let _ ← CSession.Send setup s rtvalue .authFriendRsp
    return ()

/-! ## Text messages -/

namespace TextMessageService

inductive Result
  | Accepted
  | InvalidMessage
  | InvalidRecipient
  | Unavailable
  deriving DecidableEq, Repr

def accept (friendship : Uid → Uid → Svc (Option Bool)) (persist : List TextMessage → Svc Bool)
    (sender receiver : Uid) (messages : List TextMessage) : Svc Result :=
  if sender ≤ 0 ∨ receiver ≤ 0 ∨ sender = receiver then return .InvalidRecipient
  else if messages = [] ∨ 50 < messages.length then return .InvalidMessage
  else if acceptsAll sender receiver messages 0 then
    Task.recover
      (do
        match ← friendship sender receiver with
        | none => return .Unavailable
        | some false => return .InvalidRecipient
        | some true =>
          if (← persist messages) then return .Accepted else return .Unavailable)
      fun _ => return .Unavailable
  else return .InvalidMessage

end TextMessageService

def textChatRequest (data : Option Json) : Option (Uid × List Json) := do
  let root ← object data
  let touid ← (root.get "touid").int?
  let texts ← (root.get "text_array").arr?
  if texts ≠ [] ∧ texts.length ≤ MAX_TEXT_MESSAGES_PER_FRAME then some (touid, texts) else none

/-- A text of the request as a message; `none` if it lacks its strings. -/
def textMessage (uid touid : Uid) (text : Json) : Option TextMessage := do
  if text.isObject then
    let content ← (text.get "content").str?
    let msgid ← (text.get "msgid").str?
    some ⟨msgid, uid, touid, content⟩
  else none

/-- The reply of an accepted batch and of the others. -/
def textChatReply (uid touid : Uid) (texts : List Json) : TextMessageService.Result → Json
  | .Accepted => reply.set "delivery" (.str (ascii "accepted"))
  | .InvalidMessage => reply.set "error" ErrorCode.jsonError.json
  | .InvalidRecipient => reply.set "error" ErrorCode.uidInvalid.json
  | .Unavailable => reply.setAll
      [("error", ErrorCode.rpcError.json), ("retryable", .bool true)]
where
  reply : Json := Json.null.setAll [("error", ErrorCode.ok.json), ("text_array", .arr texts),
    ("fromuid", .int uid), ("touid", .int touid)]

def TextChatMsgCallback (s : Sid) (data : Option Json) : Svc Unit :=
  match textChatRequest data with
  | none => CSession.Close s
  | some (touid, texts) => do
    let uid ← getUserId s
    match texts.mapM (textMessage uid touid) with
    | none => do
      let _ ← CSession.Send setup s (textChatReply uid touid texts .InvalidMessage) .textChatMsgRsp
      return ()
    | some messages => do
      let result ← TextMessageService.accept MysqlDao.CheckFriendRelation
        MysqlDao.PersistTextMessages uid touid messages
      if result = .Accepted then do
        let _ ← call (.logic (.postNotification s.server touid messages))
      let _ ← CSession.Send setup s (textChatReply uid touid texts result) .textChatMsgRsp
      return ()

def ackRequest (data : Option Json) : Option (Uid × List Json) := do
  let root ← object data
  let fromuid ← (root.get "fromuid").int?
  let msgids ← (root.get "msgids").arr?
  if msgids ≠ [] ∧ msgids.length ≤ MAX_TEXT_MESSAGES_PER_FRAME then some (fromuid, msgids) else none

def ackId (v : Json) : Option Bytes :=
  v.str?.filter fun id => !id.isEmpty && id.length ≤ MAX_TEXT_MESSAGE_ID_BYTES

def TextChatAckCallback (s : Sid) (data : Option Json) : Svc Unit :=
  match ackRequest data with
  | none => CSession.Close s
  | some (sender_uid, msgids) =>
    match msgids.mapM ackId with
    | none => CSession.Close s
    | some ids => do
      if (← MysqlDao.AcknowledgeTextMessages (← getUserId s) sender_uid ids) then
        DeliverPendingTextMessages setup s (← getUserId s)

/-! ## Heartbeat and resource credentials -/

/-- `flush` of `HeartbeatCallback`: send the snapshot and empty its lists. -/
def flushSnapshot (s : Sid) (snapshot : Json) : Svc Json := do
  let _ ← CSession.Send setup s snapshot .heartbeatRsp
  return snapshot.setAll
    [("apply_list", .arr []), ("friend_list", .arr []), ("pending_files", .arr [])]

/-- The loop over the items of one list of the snapshot. -/
def snapshotLoop (s : Sid) (key : String) : List Json → Json → Svc Json
  | [], snapshot => return snapshot
  | item :: items, snapshot => do
    let snapshot ←
      if 12 * 1024 < setup.size snapshot + setup.size item then flushSnapshot setup s snapshot
      else pure snapshot
    let snapshot := snapshot.set key ((snapshot.get key).append item)
    let snapshot ←
      if (snapshot.get key).elements.length = 20 then flushSnapshot setup s snapshot
      else pure snapshot
    snapshotLoop s key items snapshot

def HeartbeatCallback (s : Sid) (data : Option Json) : Svc Unit := do
  match (object data).map fun root => root.get "sync_friends" with
  | some (Json.bool true) =>
    let snapshot := Json.null.setAll [("apply_list", .arr []), ("friend_list", .arr []),
      ("pending_files", .arr [])]
    let applications ← MysqlDao.GetApplyList (← getUserId s) 50
    let snapshot ← snapshotLoop setup s "apply_list" ((applications.getD []).map applyJson) snapshot
    let friends ← MysqlDao.GetFriendList (← getUserId s)
    let snapshot ← snapshotLoop setup s "friend_list" ((friends.getD []).map friendJson) snapshot
    match ← call (.peer (.pendingResources (← getUserId s))) with
    | none => throw
    | some files => do
      let unavailable := match files with
        | .null => true
        | _ => false
      let snapshot := snapshot.set "resources_unavailable" (.bool unavailable)
      let snapshot ← snapshotLoop setup s "pending_files" files.elements snapshot
      let _ ← flushSnapshot setup s snapshot
      return ()
  | _ => do
    let _ ← CSession.Send setup s (.obj []) .heartbeatRsp
    return ()

def TokenSeconds : ℕ := 900

def ResourceTokenCallback (s : Sid) (data : Option Json) : Svc Unit :=
  match (object data).bind fun root => (root.get "request_id").str? with
  | none => throw
  | some request_id =>
    if request_id = [] ∨ 64 < request_id.length then throw
    else do
      let response := Json.null.setAll [("error", .int 0), ("uid", .int (← getUserId s)),
        ("request_id", .str request_id)]
      let token ← call (.peer .newToken)
      let record := Json.null.setAll [("uid", .int (← getUserId s)),
        ("session", .str s.session_id), ("generation", .str s.session_id)]
      let ok ← do
        if (← RedisMgr.SetWithTtl (resourceSessionKey s.session_id) (.text s.session_id)
            TokenSeconds) then
          RedisMgr.SetWithTtl (resourceTokenKey setup token) (.json record) TokenSeconds
        else pure false
      let response :=
        if ok then response.setAll [("token", .str token), ("expires_in", .int TokenSeconds)]
        else response.set "error" (.int 503)
      let _ ← CSession.Send setup s response .resourceTokenRsp
      return ()

def ResourceRevokeCallback (s : Sid) (_data : Option Json) : Svc Unit := do
  let _ ← RedisMgr.Del (resourceSessionKey s.session_id)
  CSession.Close s

/-! ## Jobs of a session -/

/-- `RegisterCallBacks`. -/
def callback : MsgId → Option (Sid → Option Json → Svc Unit)
  | .resourceTokenReq => some (ResourceTokenCallback setup)
  | .resourceRevokeReq => some ResourceRevokeCallback
  | .chatLogin => some (LoginChatCallback setup)
  | .searchUserReq => some (SearchUserCallback setup)
  | .addFriendReq => some (AddFriendCallback setup)
  | .authFriendReq => some (AuthFriendCallback setup)
  | .textChatMsgReq => some (TextChatMsgCallback setup)
  | .textChatMsgAck => some (TextChatAckCallback setup)
  | .heartBeatReq => some (HeartbeatCallback setup)
  | _ => none

def DealMsg (s : Sid) (f : Frame) : Svc Unit := do
  if (← isClosed s) then return ()
  else
    match callback setup f.id with
    | none => return ()
    | some handler =>
      let run := Task.recover (handler s f.body) fun _ => CSession.Close s
      if f.id = .chatLogin then run
      else if (← getUserId s) ≤ 0 then CSession.Close s
      else run

def handleJob (s : Sid) : Job → Svc Unit
  | .frame f => DealMsg setup s f
  | .wake uid => do
    if (← isClosed s) then return () else DeliverPendingTextMessages setup s uid
  | .tick => tickVisit setup s

/-- What the shard of a session runs for it: one job, to its end, whatever it throws. -/
def runJob (s : Sid) : Svc Unit := do
  let job ← call (.logic (.nextJob s))
  Task.recover (handleJob setup s job) fun _ => return ()
  call (.logic (.jobDone s))

def runNotification (server : ServerName) : Svc Unit := do
  let (touid, messages) ← call (.logic (.nextNotification server))
  NotifyRecipient server touid messages

/-! ## Calls of other chat servers -/

def validProfileNotification (request : AddFriendReq) : Bool :=
  request.name.length ≤ 128 && request.nick.length ≤ 128 && request.desc.length ≤ 1024 &&
    request.icon.length ≤ 2048

namespace ChatServiceImp

/-- The result of a call says whether it is answered by `OK`. -/
def NotifyAddFriend (server : ServerName) (request : AddFriendReq) : Svc Bool := do
  if request.applyuid ≤ 0 ∨ request.touid ≤ 0 ∨ validProfileNotification request = false then
    return false
  else if (← MysqlDao.HasPendingFriendApply request.applyuid request.touid) then
    match ← getSession server request.touid with
    | none => return true
    | some s => CSession.Send setup s (Json.null.setAll [("error", ErrorCode.ok.json),
        ("applyuid", .int request.applyuid), ("name", .str request.name),
        ("desc", .str request.desc), ("icon", .str request.icon), ("sex", .int request.sex),
        ("nick", .str request.nick)]) .notifyAddFriendReq
  else return false

def NotifyAuthFriend (server : ServerName) (fromuid touid : Uid) : Svc Bool := do
  if fromuid ≤ 0 ∨ touid ≤ 0 then return false
  else if (← MysqlDao.AreFriends fromuid touid) then
    match ← getSession server touid with
    | none => return true
    | some s => do
      let rtvalue := Json.null.setAll [("error", ErrorCode.ok.json), ("fromuid", .int fromuid),
        ("touid", .int touid)]
      let rtvalue := match ← GetBaseInfo (USER_BASE_INFO ++ decimal fromuid) fromuid with
        | none => rtvalue.set "error" ErrorCode.uidInvalid.json
        | some u => rtvalue.setAll [("name", .str u.name), ("nick", .str u.nick),
            ("icon", .str u.icon), ("sex", .int u.sex)]
      CSession.Send setup s rtvalue .notifyAuthFriendReq
  else return false

def NotifyTextChatMsg (server : ServerName) (request : TextChatMsgReq) : Svc Bool := do
  if request.fromuid ≤ 0 ∨ request.touid ≤ 0 ∨ validTextNotification request = false then
    return false
  else if (← MysqlDao.AreFriends request.fromuid request.touid) then
    match ← getSession server request.touid with
    | none => return true
    | some _ => WakeDelivery server request.touid
  else return false

end ChatServiceImp

/-! ## The status server -/

/-- `PublishHealth`, which a server runs every few seconds. -/
def CServer.PublishHealth (server : ServerName) : Svc Unit := do
  let session_count ← call (.session (.sessionCount server))
  let _ ← RedisMgr.SetWithTtl (CHAT_HEALTH_PREFIX ++ server) (.text (decimal session_count)) 15
  return ()

namespace StatusServiceImpl

def CHAT_TICKET_TTL_SECONDS : ℕ := 60

/-- The loads of the servers that have published one. -/
def healthyServers : List ServerName → Svc (List (ServerName × ℕ))
  | [] => return []
  | name :: names => do
    let count ← RedisMgr.Get (CHAT_HEALTH_PREFIX ++ name)
    let rest ← healthyServers names
    match count with
    | some (.text count_text) =>
      match fromChars count_text with
      | none => return rest
      | some n => if n < 0 then return rest else return (name, n.toNat) :: rest
    | _ => return rest

def getChatServer : Svc (Option ServerName) := do
  if setup.servers = [] then return none
  else do
    let healthy_servers ← healthyServers setup.servers
    call (.peer (.selectServer healthy_servers))

/-- The ticket of a user for a server. -/
def ticket (uid : Uid) (server : ServerName) : Json :=
  Json.null.setAll [("uid", .int uid), ("server", .str server)]

def insertToken (uid : Uid) (token : Bytes) (server_name : ServerName) : Svc Bool :=
  RedisMgr.SetEx (CHAT_TICKET_PREFIX ++ token) (.json (ticket uid server_name))
    CHAT_TICKET_TTL_SECONDS

/-- `GetChatServer`: a server and a token for it, if all went well. -/
def GetChatServer (uid : Uid) : Svc (Option (ServerName × Bytes)) := do
  if uid ≤ 0 then return none
  else
    match ← getChatServer setup with
    | none => return none
    | some server => do
      let token ← call (.peer .newToken)
      if (← insertToken uid token server) then return some (server, token) else return none

end StatusServiceImpl

end Handlers

end DistributedChat.Chat
