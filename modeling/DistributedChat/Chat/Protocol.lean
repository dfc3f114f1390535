import DistributedChat.Lib.Json

/-!
# The data of the chat servers

Message ids, error codes and limits (`servers/chat/core/const.h`), the records the servers pass
around, the batch checks of `TextMessageService` and of the peer interface, and the delivery window
of a session (`common/DeliveryWindow.h`).

A text that is read or written as JSON is represented by the value it holds: a frame carries what
the reader makes of its body. Of the text itself only its length matters, which `Setup.size` gives.
-/

namespace DistributedChat.Chat

open Lib

abbrev Uid := ℤ

/-- The name of a chat server, `SelfServer.Name` of its configuration. -/
abbrev ServerName := Bytes

/-! ## Frames -/

inductive MsgId
  | chatLogin
  | chatLoginRsp
  | searchUserReq
  | searchUserRsp
  | addFriendReq
  | addFriendRsp
  | notifyAddFriendReq
  | authFriendReq
  | authFriendRsp
  | notifyAuthFriendReq
  | textChatMsgReq
  | textChatMsgRsp
  | notifyTextChatMsgReq
  | textChatMsgAck
  | notifyOffLineReq
  | heartBeatReq
  | heartbeatRsp
  | uploadFileReq
  | uploadFileRsp
  | uploadFileChunkReq
  | uploadFileChunkRsp
  | uploadFileFinishReq
  | uploadFileFinishRsp
  | notifyFileReq
  | downloadFileReq
  | downloadFileChunk
  | downloadFileDone
  | fileTransferCancel
  | resourceTokenReq
  | resourceTokenRsp
  | resourceRevokeReq
  | avatarChanged
  deriving DecidableEq, Repr

/-- A frame of a client; the body is `none` if the JSON reader rejects it. -/
structure Frame where
  id : MsgId
  body : Option Json

structure OutFrame where
  id : MsgId
  body : Json

/-- A session: the server it lives on and its random id. -/
structure Sid where
  server : ServerName
  session_id : Bytes
  deriving DecidableEq, Repr

/-- `ErrorCodes`, as far as the handlers answer with them. -/
inductive ErrorCode
  | ok
  | jsonError
  | rpcError
  | tokenInvalid
  | uidInvalid
  deriving DecidableEq, Repr

def ErrorCode.code : ErrorCode → ℤ
  | .ok => 0
  | .jsonError => 1001
  | .rpcError => 1002
  | .tokenInvalid => 1010
  | .uidInvalid => 1011

def ErrorCode.json (e : ErrorCode) : Json := .int e.code

def MAX_TEXT_MESSAGES_PER_FRAME : ℕ := 50
def MAX_TEXT_CONTENT_BYTES : ℕ := 2048
def MAX_TEXT_MESSAGE_ID_BYTES : ℕ := 128

/-! ## Records -/

structure TextMessage where
  client_message_id : Bytes
  sender_uid : Uid
  receiver_uid : Uid
  content : Bytes
  deriving DecidableEq, Repr

/-- `UserInfo` without the password. -/
structure UserInfo where
  name : Bytes
  uid : Uid
  email : Bytes
  nick : Bytes
  desc : Bytes
  sex : ℤ
  icon : Bytes
  back : Bytes := []
  deriving DecidableEq, Repr

structure ApplyInfo where
  uid : Uid
  name : Bytes
  desc : Bytes
  icon : Bytes
  nick : Bytes
  sex : ℤ
  status : ℤ
  deriving DecidableEq, Repr

/-- What is fixed for a deployment: the configured chat servers, how the database compares texts
(two texts are equal to it if their keys are), what the column `back` keeps of a text, the length of
the text the JSON writer prints, and the digest of a token in hexadecimal digits. -/
structure Setup where
  servers : List ServerName
  collationKey : Bytes → Bytes
  storedBack : Bytes → Bytes
  size : Json → ℕ
  tokenDigest : Bytes → Bytes

/-! ## Batches -/

/-- The running check of `TextMessageService::accept` over a batch. -/
def acceptsAll (sender receiver : Uid) : List TextMessage → ℕ → Bool
  | [], _ => true
  | m :: ms, bytes =>
    if m.sender_uid ≠ sender ∨ m.receiver_uid ≠ receiver ∨ m.client_message_id = [] ∨
        128 < m.client_message_id.length ∨ m.content = [] ∨ 2048 < m.content.length then false
    else if 8192 < bytes + (m.client_message_id.length + m.content.length) then false
    else acceptsAll sender receiver ms (bytes + (m.client_message_id.length + m.content.length))

/-- A text of `TextChatMsgReq`. -/
structure PeerText where
  msgid : Bytes
  msgcontent : Bytes
  deriving DecidableEq, Repr

/-- `TextChatMsgReq`, the request that wakes the delivery on another server. -/
structure TextChatMsgReq where
  fromuid : Uid
  touid : Uid
  textmsgs : List PeerText
  deriving DecidableEq, Repr

/-- The running check of `validTextNotification`. -/
def notifiesAll : List PeerText → ℕ → Bool
  | [], _ => true
  | m :: ms, bytes =>
    if MAX_TEXT_CONTENT_BYTES < m.msgcontent.length ∨
        MAX_TEXT_MESSAGE_ID_BYTES < m.msgid.length then
      false
    else if 8192 < bytes + (m.msgcontent.length + m.msgid.length) then false
    else notifiesAll ms (bytes + (m.msgcontent.length + m.msgid.length))

def validTextNotification (request : TextChatMsgReq) : Bool :=
  !request.textmsgs.isEmpty && request.textmsgs.length ≤ MAX_TEXT_MESSAGES_PER_FRAME &&
    notifiesAll request.textmsgs 0

/-! ## Routing -/

/-- `selectLeastLoaded` (`common/ChatServerSelector.cpp`). -/
def selectLeastLoaded (healthy_servers : List (ServerName × ℕ)) (round_robin_cursor : ℕ) :
    Option ServerName :=
  let minimum := healthy_servers.foldl (fun m s => min m s.2) (2 ^ 31 - 1)
  let candidates := ((healthy_servers.filter fun s => s.2 = minimum).map Prod.fst).insertionSort
    fun a b => a ≤ b
  candidates[round_robin_cursor % candidates.length]?

/-! ## The delivery window -/

/-- The steady clock counts milliseconds. -/
def seconds (n : ℕ) : ℕ := 1000 * n

structure Attempt where
  count : ℕ
  next : ℕ
  deriving DecidableEq, Repr

abbrev WindowKey := Uid × Bytes

def TextMessage.windowKey (m : TextMessage) : WindowKey := (m.sender_uid, m.client_message_id)

/-- `DeliveryWindow`: the attempts, by sender and message id. -/
structure DeliveryWindow where
  attempts : List (WindowKey × Attempt) := []
  deriving DecidableEq, Repr

namespace DeliveryWindow

def Capacity : ℕ := 32

def reconcile (w : DeliveryWindow) (pending : List TextMessage) : DeliveryWindow :=
  ⟨w.attempts.filter fun a => pending.any fun m => m.windowKey == a.1⟩

def due (w : DeliveryWindow) (m : TextMessage) (now : ℕ) : Bool :=
  match w.attempts.lookup m.windowKey with
  | none => true
  | some a => a.next ≤ now

/-- `sent`, which also says whether this was a retry. -/
def sent (w : DeliveryWindow) (m : TextMessage) (now : ℕ) : DeliveryWindow × Bool :=
  let count := ((w.attempts.lookup m.windowKey).map Attempt.count).getD 0
  let attempt : Attempt := ⟨min (count + 1) 4, now + seconds (5 * 2 ^ min count 3)⟩
  (⟨w.attempts.filter (fun a => a.1 != m.windowKey) ++ [(m.windowKey, attempt)]⟩, count != 0)

end DeliveryWindow

/-- `DeliveryState` of a session. -/
structure DeliveryState where
  window : DeliveryWindow := {}
  next : ℕ := 0
  idle_seconds : ℕ := 1
  deriving DecidableEq, Repr

end DistributedChat.Chat
