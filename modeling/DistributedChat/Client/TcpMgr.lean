import DistributedChat.Client.MessageStore

/-!
# Text messages in the client

The part of `client/network/TcpMgr.cpp` that handles text messages: the outbox, the acceptance of a
message by the server, and the notification of a message by it. All of it runs on one thread. The
process may stop at any point; what it has committed to its store stays.

`size` is the length of the text a frame is sent as.
-/

namespace DistributedChat.Client

open Lib Chat

/-! ## Frames -/

/-- The longest frame the client reads, by its id. -/
def allowedLength : MsgId → ℕ
  | .downloadFileChunk => 60 * 1024
  | .chatLoginRsp => 65535
  | _ => 16 * 1024

/-- `writeFrame` for a frame of text: nothing is sent if its length is not allowed. -/
def writeFrame (size : Json → ℕ) (id : MsgId) (data : Json) : List Frame :=
  if size data = 0 ∨ 2048 < size data then [] else [⟨id, some data⟩]

/-- `enqueueText` of the user `uid`, up to the call of `flushOutbox`; `none` stands for the result
`false`. -/
def enqueueText (size : Json → ℕ) (uid : Uid) (store : MessageStore) (ok : Bool) (message : Json) :
    Option MessageStore :=
  let texts := (message.get "text_array").toArr
  if texts.any (fun value => 2048 < size (message.set "text_array" (.arr [value]))) then none
  else if (message.get "fromuid").toInt ≠ uid then none
  else
    match store.save ok (message.get "fromuid").toInt (message.get "touid").toInt texts with
    | .error _ => none
    | .ok (store', _) => some store'

/-- The loop of `flushOutbox`; it ends early if a row cannot be updated. -/
def flushLoop (size : Json → ℕ) (now : ℤ) : List Json → MessageStore → MessageStore × List Frame
  | [], store => (store, [])
  | message :: rest, store =>
    match store.attempted true message now with
    | none => (store, [])
    | some store' =>
      let r := flushLoop size now rest store'
      (r.1, writeFrame size .textChatMsgReq message ++ r.2)

/-- `flushOutbox` on a connection, where the loop gets through `n` requests before the buffer of the
socket is full, a statement fails or the process stops. -/
def flushOutbox (size : Json → ℕ) (now : ℤ) (n : ℕ) (store : MessageStore) :
    MessageStore × List Frame :=
  flushLoop size now ((store.pending now).take n) store

/-! ## Handlers -/

/-- What a handler does after it has committed. -/
inductive Output
  | send (f : Frame)
  /-- `sig_text_chat_msg`: new messages for the user interface. -/
  | present (fromUid toUid : Uid) (freshMessages : List Json)

/-- The check of `error` both handlers begin with. -/
def hasError (body : Json) : Bool := (body.find "error").isNone || (body.get "error").toInt != 0

/-- The handler of `ID_TEXT_CHAT_MSG_RSP`. -/
def handleTextChatMsgRsp (store : MessageStore) (ok : Bool) (body : Json) : MessageStore :=
  if hasError body then store else (store.accept ok body).getD store

def ackBody (fromUid : Uid) (ackBatch : List Bytes) : Json :=
  .obj [(ascii "fromuid", .int fromUid), (ascii "msgids", .arr (ackBatch.map .str))]

def flushAcks (fromUid : Uid) (ackBatch : List Bytes) : List Output :=
  if ackBatch = [] then [] else [.send ⟨.textChatMsgAck, some (ackBody fromUid ackBatch)⟩]

/-- The loop over the messages of a notification: the acknowledgements it sends, and the last batch;
`none` if it gives up. -/
def ackLoop (size : Json → ℕ) (fromUid : Uid) :
    List Json → List Bytes → List Output × Option (List Bytes)
  | [], ackBatch => ([], some ackBatch)
  | value :: values, ackBatch =>
    let object := MessageStore.objectOf value
    let id := (object.get "msgid").toStr
    if id = [] ∨ (object.get "content").str? = none then ([], none)
    else if 1800 < size (ackBody fromUid (ackBatch ++ [id])) then
      let r := ackLoop size fromUid values [id]
      (flushAcks fromUid ackBatch ++ r.1, r.2)
    else ackLoop size fromUid values (ackBatch ++ [id])

/-- The handler of `ID_NOTIFY_TEXT_CHAT_MSG_REQ` for the user `uid`: the store, and what it does
then. -/
def handleNotifyTextChatMsg (size : Json → ℕ) (uid : Uid) (store : MessageStore) (ok : Bool)
    (body : Json) : MessageStore × List Output :=
  let fromUid := (body.get "fromuid").toInt
  let toUid := (body.get "touid").toInt
  let messages := (body.get "text_array").toArr
  if hasError body ∨ fromUid ≤ 0 ∨ toUid ≠ uid ∨ messages = [] ∨
    50 < messages.length then (store, [])
  else
    match store.save ok fromUid toUid messages with
    | .error _ => (store, [])
    | .ok (store', freshMessages) =>
      let r := ackLoop size fromUid messages []
      match r.2 with
      | none => (store', r.1)
      | some ackBatch =>
        (store', r.1 ++
          (if freshMessages = [] then [] else [.present fromUid toUid freshMessages]) ++
          flushAcks fromUid ackBatch)

/-! ## The client -/

/-- A client and its history: the frames it has sent and the messages it has presented. -/
structure App where
  store : MessageStore
  sent : List Frame := []
  presented : List (Uid × Bytes) := []

def App.emit (c : App) : List Output → App
  | [] => c
  | .send f :: outs => App.emit { c with sent := f :: c.sent } outs
  | .present fromUid _ freshMessages :: outs =>
    App.emit { c with
      presented := c.presented ++ freshMessages.map fun m => (fromUid, (m.get "msgid").toStr) } outs

/-- The steps of the client of user `uid`, where `Incoming` are the frames it may read. A handler
does the first `n` of its outputs; then it is done, or the process stops. -/
inductive App.Step (size : Json → ℕ) (uid : Uid) (Incoming : OutFrame → Prop) :
    App → App → Prop
  | enqueueText {c : App} {ok : Bool} {message : Json} {store : MessageStore}
      (h : enqueueText size uid c.store ok message = some store) : Step size uid Incoming c
        { c with store := store }
  | flushOutbox (c : App) (now : ℤ) (n : ℕ) : Step size uid Incoming c
      { c with
        store := (flushOutbox size now n c.store).1
        sent := (flushOutbox size now n c.store).2 ++ c.sent }
  | textChatMsgRsp {c : App} {f : OutFrame} (ok : Bool) (hf : Incoming f)
      (hid : f.id = .textChatMsgRsp) : Step size uid Incoming c
        { c with store := handleTextChatMsgRsp c.store ok f.body }
  | notifyTextChatMsg {c : App} {f : OutFrame} (ok : Bool) (n : ℕ) (hf : Incoming f)
      (hid : f.id = .notifyTextChatMsgReq) : Step size uid Incoming c
        (App.emit { c with store := (handleNotifyTextChatMsg size uid c.store ok f.body).1 }
          ((handleNotifyTextChatMsg size uid c.store ok f.body).2.take n))
  /-- Frames that have nothing to do with text messages. -/
  | other (c : App) (f : Frame) (hreq : f.id ≠ .textChatMsgReq) (hack : f.id ≠ .textChatMsgAck) :
      Step size uid Incoming c { c with sent := f :: c.sent }

def App.init (uid : Uid) : App := { store := { uid := uid } }

end DistributedChat.Client
