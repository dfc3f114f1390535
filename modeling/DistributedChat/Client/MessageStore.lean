import DistributedChat.Chat.Protocol
import DistributedChat.Lib.Fallible
import DistributedChat.Lib.Table

/-!
# The message store of the client

`client/model/MessageStore.cpp`: a table of the messages one account has sent and received, in the
order they were saved, and unique by sender and id. A message of the account itself is pending until
its acceptance is stored. Texts are the bytes of their UTF-8 form.

Each operation is one transaction. What can fail in it other than by its arguments, and then leaves
the table as it was, is an argument `ok` of the operation.
-/

namespace DistributedChat.Client

open Lib Chat

/-- `state`. -/
inductive MessageState
  | pending
  | received
  | accepted
  deriving DecidableEq, Repr

structure StoredMessage where
  receiver : Uid
  content : Bytes
  state : MessageState
  next_attempt : ℤ := 0
  attempts : ℕ := 0
  deriving DecidableEq, Repr

/-- The next attempt, after a delay that grows with the attempts. -/
def StoredMessage.retry (row : StoredMessage) (now : ℤ) : StoredMessage :=
  { row with
    next_attempt := now + min 60 (5 * 2 ^ min row.attempts 4)
    attempts := min (row.attempts + 1) 5 }

abbrev Messages := Table (Uid × Bytes) StoredMessage

/-- The store, opened for an account. -/
structure MessageStore where
  uid : Uid
  messages : Messages := .empty

namespace MessageStore

/-- `toObject` of an element. -/
def objectOf (value : Json) : Json := if value.isObject then value else .obj []

/-- The loop of `save`; it also returns what it inserted. -/
def saveLoop (uid sender receiver : Uid) :
    List Json → Messages → Except String (Messages × List Json)
  | [], messages => .ok (messages, [])
  | value :: values, messages =>
    let object := objectOf value
    let id := (object.get "msgid").toStr
    let content := (object.get "content").toStr
    if id = [] ∨ 128 < id.length ∨ content = [] ∨ 2048 < content.length then
      .error "Invalid message content"
    else
      match messages.get (sender, id) with
      | some row =>
        if row.receiver ≠ receiver ∨ row.content ≠ content then
          .error "Message ID has conflicting content"
        else saveLoop uid sender receiver values messages
      | none =>
        let row : StoredMessage :=
          ⟨receiver, content, if sender = uid then .pending else .received, 0, 0⟩
        (saveLoop uid sender receiver values (messages.insert (sender, id) row)).map fun r =>
          (r.1, object :: r.2)

/-- `save`: the store with the new messages, and those that were new. -/
def save (s : MessageStore) (ok : Bool) (sender receiver : Uid) (messages : List Json) :
    Except String (MessageStore × List Json) :=
  if s.uid = 0 ∨ sender ≤ 0 ∨ receiver ≤ 0 ∨ sender = receiver ∨
      (sender ≠ s.uid ∧ receiver ≠ s.uid) ∨ messages = [] ∨ 50 < messages.length then
    .error "Invalid message batch"
  else if ok then
    (saveLoop s.uid sender receiver messages s.messages).map fun r =>
      ({ s with messages := r.1 }, r.2)
  else .error "database error"

/-- The loop of `accept`: each element names one message of the account. -/
def acceptLoop (uid touid : Uid) : List Json → Messages → Option Messages
  | [], messages => some messages
  | value :: values, messages =>
    let id := ((objectOf value).get "msgid").toStr
    match messages.get (uid, id) with
    | some row =>
      if row.receiver = touid ∧ row.content = ((objectOf value).get "content").toStr then
        acceptLoop uid touid values
          (messages.update (uid, id) fun row => { row with state := .accepted })
      else none
    | none => none

/-- `accept`; `none` stands for the result `false`. -/
def accept (s : MessageStore) (ok : Bool) (response : Json) : Option MessageStore :=
  let texts := (response.get "text_array").toArr
  if s.uid = 0 ∨ (response.get "fromuid").toInt ≠ s.uid ∨
    (response.get "error").int?.getD (-1) ≠ 0 ∨
      (response.get "delivery").toStr ≠ ascii "accepted" ∨ texts = [] ∨ 50 < texts.length ∨
        ok = false then
    none
  else
    (acceptLoop s.uid (response.get "touid").toInt texts s.messages).map fun messages =>
      { s with messages := messages }

/-- The request that sends a stored message. -/
def request (uid receiver : Uid) (id content : Bytes) : Json :=
  .obj [(ascii "fromuid", .int uid), (ascii "text_array", .arr [.obj
    [(ascii "content", .str content), (ascii "msgid", .str id)]]), (ascii "touid", .int receiver)]

/-- `pending`: the requests of the messages that are due, at most 16. -/
def pending (s : MessageStore) (now : ℤ) : List Json :=
  let due := s.messages.rows.filter fun r =>
    r.2.state = .pending ∧ r.1.1 = s.uid ∧ r.2.next_attempt ≤ now
  if s.uid = 0 then []
  else ((due.insertionSort fun a b => a.2.next_attempt ≤ b.2.next_attempt).take 16).map fun r =>
    request s.uid r.2.receiver r.1.2 r.2.content

/-- `attempted`; `none` stands for the result `false`. -/
def attempted (s : MessageStore) (ok : Bool) (message : Json) (now : ℤ) : Option MessageStore :=
  let id := ((objectOf ((message.get "text_array").toArr.headD .null)).get "msgid").toStr
  match s.messages.get (s.uid, id) with
  | some row =>
    if s.uid ≠ 0 ∧ row.state = .pending ∧ ok then
      some { s with messages := s.messages.update (s.uid, id) fun row => row.retry now }
    else none
  | none => none

end MessageStore

end DistributedChat.Client
