import DistributedChat.Client.MessageStore
import DistributedChat.Lib.Connection

/-!
# The message store, statement by statement

The methods of `client/model/MessageStore.cpp` as programs on an SQLite file, any statement or
commit of which may fail. `fail` ends a method and undoes its transaction.

The operations of `MessageStore` are what these programs come to: a program that succeeds has done
the operation, and one that fails has done nothing. It fails only if the operation does or a
statement has failed.
-/

namespace DistributedChat.Client

open Lib Chat

/-- A database file. A table that has not been created has no rows. -/
structure StoreFile where
  account : List Uid := []
  messages : Messages := .empty

namespace StoreFile

open MessageStore (objectOf request)

abbrev Program := Sql StoreFile

/-! ## Programs -/

/-- What `open` creates, if it is not there; no rows change. -/
def schema : List String :=
  ["PRAGMA journal_mode=WAL", "PRAGMA synchronous=FULL", "account", "messages", "pending_messages",
    "message_peers"]

/-- The loop of `open` over the schema. -/
def create : List String → Program Unit
  | [] => pure ()
  | _ :: sqls => do
    Sql.statement fun file => ((), file)
    create sqls

/-- `open` of a database that could be opened. -/
def openAccount (uid : Uid) : Program Unit := Sql.orRollback do
  create schema
  match ← Sql.statement fun file => (file.account, file) with
  | account :: more => if account ≠ uid ∨ more ≠ [] then Sql.fail "Account mismatch" else pure ()
  | [] => Sql.statement fun file => ((), { file with account := file.account ++ [uid] })

def saveLoop (uid_ sender receiver : Uid) : List Json → List Json → Program (List Json)
  | [], inserted => pure inserted
  | value :: values, inserted =>
    let object := objectOf value
    let id := (object.get "msgid").toStr
    let content := (object.get "content").toStr
    if id = [] ∨ 128 < id.length ∨ content = [] ∨ 2048 < content.length then
      Sql.fail "Invalid message content"
    else do
      match ← Sql.statement fun file => (file.messages.get (sender, id), file) with
      | some row =>
        if row.receiver ≠ receiver ∨ row.content ≠ content then
          Sql.fail "Message ID has conflicting content"
        else saveLoop uid_ sender receiver values inserted
      | none =>
        let row : StoredMessage :=
          ⟨receiver, content, if sender = uid_ then .pending else .received, 0, 0⟩
        Sql.statement fun file =>
          ((), { file with messages := file.messages.insert (sender, id) row })
        saveLoop uid_ sender receiver values (inserted ++ [object])

/-- `save`; it returns `fresh`. -/
def save (uid_ sender receiver : Uid) (messages : List Json) :
    Program (List Json) := Sql.orRollback <|
  if uid_ = 0 ∨ sender ≤ 0 ∨ receiver ≤ 0 ∨ sender = receiver ∨ (sender ≠ uid_ ∧ receiver ≠ uid_) ∨
      messages = [] ∨ 50 < messages.length then
    Sql.fail "Invalid message batch"
  else do
    Sql.transaction
    let inserted ← saveLoop uid_ sender receiver messages []
    Sql.commit
    return inserted

def acceptLoop (uid_ touid : Uid) : List Json → Program Unit
  | [] => pure ()
  | value :: values => do
    let id := ((objectOf value).get "msgid").toStr
    let content := ((objectOf value).get "content").toStr
    let rows ← Sql.statement fun file =>
      let r := file.messages.updateWhere
        (fun k row =>
          decide (k = (uid_, id)) && decide (row.receiver = touid ∧ row.content = content))
        fun row => { row with state := .accepted }
      (r.1, { file with messages := r.2 })
    if rows ≠ 1 then Sql.fail "Acceptance does not match stored message"
    else acceptLoop uid_ touid values

def accept (uid_ : Uid) (response : Json) : Program Bool :=
  let messages := (response.get "text_array").toArr
  if uid_ = 0 ∨ (response.get "fromuid").toInt ≠ uid_ ∨ (response.get "error").int?.getD (-1) ≠ 0 ∨
      (response.get "delivery").toStr ≠ ascii "accepted" then pure false
  else if messages = [] ∨ 50 < messages.length then pure false
  else Sql.orRollback do
    Sql.transaction
    acceptLoop uid_ (response.get "touid").toInt messages
    Sql.commit
    return true

/-- The rows `pending` reads, in their order. -/
def due (messages : Messages) (uid_ : Uid) (now : ℤ) : List ((Uid × Bytes) × StoredMessage) :=
  (messages.rows.filter fun r =>
    r.2.state = .pending ∧ r.1.1 = uid_ ∧ r.2.next_attempt ≤ now).insertionSort
    fun a b => a.2.next_attempt ≤ b.2.next_attempt

def pending (uid_ : Uid) (now limit : ℤ) : Program (List Json) :=
  if uid_ = 0 then pure []
  else Sql.orRollback <| Sql.statement fun file =>
    (((due file.messages uid_ now).take (max 1 (min limit 16)).toNat).map fun r =>
      request uid_ r.2.receiver r.1.2 r.2.content, file)

/-- The id `attempted` reads from a request. -/
def requestId (message : Json) : Bytes :=
  ((objectOf ((message.get "text_array").toArr.headD .null)).get "msgid").toStr

def attempted (uid_ : Uid) (message : Json) (now : ℤ) : Program Bool :=
  if uid_ = 0 then pure false
  else Sql.orRollback do
    let rows ← Sql.statement fun file =>
      let r := file.messages.updateWhere
        (fun k row => decide (k = (uid_, requestId message)) && decide (row.state = .pending))
        fun row => row.retry now
      (r.1, { file with messages := r.2 })
    return rows == 1

/-! ## What they come to -/

section Specs

variable {uid_ sender receiver : Uid} {c : Connection StoreFile}

/-- The store of the account `uid_` in a file. -/
def store (uid_ : Uid) (file : StoreFile) : MessageStore := ⟨uid_, file.messages⟩

/-- What a part of a method leaves: nothing more is committed. -/
structure Within (c c' : Connection StoreFile) : Prop where
  saved : c'.saved = c.saved
  faulty : c'.Faulty → c.Faulty

theorem Within.refl (c : Connection StoreFile) : Within c c := ⟨rfl, id⟩

theorem Within.spent (c : Connection StoreFile) : Within c c.spent := ⟨rfl, .of_spent⟩

theorem Within.trans {c c' c'' : Connection StoreFile} (h : Within c c') (h' : Within c' c'') :
    Within c c'' :=
  ⟨h'.saved.trans h.saved, h.faulty ∘ h'.faulty⟩

theorem Within.at (c : Connection StoreFile) (file : StoreFile) :
    Within c ⟨c.saved, some file, c.outcomes.tail⟩ := ⟨rfl, .of_spent⟩

end Specs

end StoreFile

end DistributedChat.Client
