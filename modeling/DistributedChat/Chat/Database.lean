import DistributedChat.Chat.Effects
import DistributedChat.Lib.Table
import DistributedChat.Lib.Transactions

/-!
# The chat database

The tables `user`, `friend_apply`, `friend` and `chat_message` (`database/schema.sql`) and what the
statements of `MysqlDao` do with them. The rows of a table stand in the order of their ids. Texts
are compared by their collation keys, so the unique key of a message is its sender and the key of
its id.
-/

namespace DistributedChat.Chat

open Lib

/-! ## Rows -/

structure MessageRow where
  client_message_id : Bytes
  receiver_uid : Uid
  content : Bytes
  acknowledged_at : Option ℕ
  deriving DecidableEq, Repr

abbrev MessageKey := Uid × Bytes

structure Db where
  users : Table Uid UserInfo
  /-- The status of the application of the first user to the second. -/
  applies : Table (Uid × Uid) ℤ
  /-- The name the first user has for the second. -/
  friends : Table (Uid × Uid) Bytes
  messages : Table MessageKey MessageRow

inductive RowKey
  | apply (from_uid to_uid : Uid)
  | friend (self_id friend_id : Uid)
  | message (key : MessageKey)
  deriving DecidableEq, Repr

inductive RowValue
  | apply (status : ℤ)
  | friend (back : Bytes)
  | message (row : MessageRow)
  deriving DecidableEq, Repr

def Db.row (db : Db) : RowKey → Option RowValue
  | .apply a b => (db.applies.get (a, b)).map .apply
  | .friend a b => (db.friends.get (a, b)).map .friend
  | .message k => (db.messages.get k).map .message

/-! ## Writes -/

inductive Write
  | insertApply (from_uid to_uid : Uid)
  | acceptApply (from_uid to_uid : Uid)
  | insertFriend (self_id friend_id : Uid) (back : Bytes)
  | insertMessage (key : MessageKey) (row : MessageRow)
  | acknowledge (key : MessageKey) (receiver_uid : Uid) (now : ℕ)

def Write.key : Write → RowKey
  | .insertApply a b => .apply a b
  | .acceptApply a b => .apply a b
  | .insertFriend a b _ => .friend a b
  | .insertMessage k _ => .message k
  | .acknowledge k _ _ => .message k

/-- `acknowledged_at=COALESCE(acknowledged_at,NOW())` where the receiver is the given one. -/
def MessageRow.acknowledge (receiver_uid : Uid) (now : ℕ) (row : MessageRow) : MessageRow :=
  if row.receiver_uid = receiver_uid then
    { row with acknowledged_at := row.acknowledged_at.or (some now) }
  else row

def Write.apply (db : Db) : Write → Db
  | .insertApply a b => { db with applies := db.applies.insert (a, b) 0 }
  | .acceptApply a b =>
    { db with applies := db.applies.update (a, b) fun status => if status = 0 then 1 else status }
  | .insertFriend a b back => { db with friends := db.friends.insert (a, b) back }
  | .insertMessage k row => { db with messages := db.messages.insert k row }
  | .acknowledge k r now => { db with messages := db.messages.update k (.acknowledge r now) }

/-! ## Statements -/

def Db.known (db : Db) (uid : Uid) : Bool := (db.users.get uid).isSome

def Db.mutual (db : Db) (a b : Uid) : Bool :=
  (db.friends.get (a, b)).isSome && (db.friends.get (b, a)).isSome

section Statements

variable (setup : Setup)

def messageKey (sender_uid : Uid) (client_message_id : Bytes) : MessageKey :=
  (sender_uid, setup.collationKey client_message_id)

def TextMessage.row (m : TextMessage) : MessageRow :=
  ⟨m.client_message_id, m.receiver_uid, m.content, none⟩

/-- A row as the message it stands for. -/
def MessageRow.message (sender_uid : Uid) (row : MessageRow) : TextMessage :=
  ⟨row.client_message_id, sender_uid, row.receiver_uid, row.content⟩

/-- The applications to a user, pending ones first and later ones first. -/
def Db.applyList (db : Db) (touid : Uid) : List ApplyInfo :=
  let rows := (db.applies.rows.filter fun r => r.1.2 = touid).filterMap fun r =>
    (db.users.get r.1.1).map fun u => ⟨r.1.1, u.name, [], u.icon, u.nick, u.sex, r.2⟩
  (rows.filter fun a => a.status = 0).reverse ++ (rows.filter fun a => a.status ≠ 0).reverse

/-- The friends of a user by their ids, at most 200. -/
def Db.friendRows (db : Db) (self_id : Uid) : List (Uid × Bytes) :=
  (((db.friends.rows.filter fun r => r.1.1 = self_id).map fun r => (r.1.2, r.2)).insertionSort
    fun a b => a.1 ≤ b.1).take 200

/-- `COUNT(*)` over the rows of both directions. -/
def Db.friendCount (db : Db) (a b : Uid) : ℕ :=
  (db.friends.rows.filter fun r => r.1 = (a, b) ∨ r.1 = (b, a)).length

def Db.pendingMessages (db : Db) (receiver_uid : Uid) : List TextMessage :=
  (db.messages.rows.filter fun r =>
    r.2.receiver_uid = receiver_uid ∧ r.2.acknowledged_at = none).map fun r => r.2.message r.1.1

/-- What a statement returns, writes and locks; `none` if a foreign key refuses it. -/
def Query.run (now : ℕ) (db : Db) : (q : Query) → Option (q.Value × List Write × List RowKey)
  | .selectUser uid =>
    some ((db.users.get uid).map fun u => { u with uid := uid, back := [] }, [], [])
  | .selectUserByName name =>
    some ((db.users.rows.find? fun r =>
      setup.collationKey r.2.name = setup.collationKey name).map fun r =>
        { r.2 with uid := r.1, back := [] }, [], [])
  | .selectApplyList touid limit => some ((db.applyList touid).take limit, [], [])
  | .selectFriends self_id => some (db.friendRows self_id, [], [])
  | .countFriends a b => some (db.friendCount a b, [], [])
  | .selectPendingApply a b => some (decide (db.applies.get (a, b) = some 0), [], [])
  | .insertApply a b =>
    if db.known a ∧ db.known b then
      some (if db.applies.get (a, b) = none then 1 else 0, [.insertApply a b], [.apply a b])
    else none
  -- `INSERT IGNORE` passes over a missing user as over a row that is there
  | .insertFriend a b back =>
    if db.known a ∧ db.known b then
      some (if db.friends.get (a, b) = none then 1 else 0,
        [.insertFriend a b (setup.storedBack back)], [.friend a b])
    else some (0, [], [.friend a b])
  | .acceptApply a b =>
    if db.applies.get (a, b) = some 0 then some (1, [.acceptApply a b], [.apply a b])
    else some (0, [], [.apply a b])
  | .insertMessage m =>
    let key := messageKey setup m.sender_uid m.client_message_id
    if db.known m.sender_uid ∧ db.known m.receiver_uid then
      if db.messages.get key = none then some (1, [.insertMessage key m.row], [.message key])
      else some (0, [], [.message key])
    else none
  | .verifyMessage sender id =>
    let key := messageKey setup sender id
    some ((db.messages.get key).map fun row => (row.receiver_uid, row.content), [], [.message key])
  | .selectPendingMessages receiver limit =>
    some ((db.pendingMessages receiver).take limit, [], [])
  | .acknowledge receiver sender id =>
    let key := messageKey setup sender id
    if (db.messages.get key).any fun row => row.receiver_uid = receiver then
      some (1, [.acknowledge key receiver now], [.message key])
    else some (0, [], [.message key])

theorem Query.run_keys {now : ℕ} {db : Db} {q : Query} {v : q.Value} {ws : List Write}
    {ks : List RowKey} (h : q.run setup now db = some (v, ws, ks)) : ∀ w ∈ ws, w.key ∈ ks := by
  intro w hw
  cases q <;> simp only [Query.run] at h <;> (try split at h) <;> (try split at h) <;>
    simp only [Option.some.injEq, Prod.mk.injEq, reduceCtorEq] at h <;>
    obtain ⟨-, rfl, rfl⟩ := h <;> simp_all [Write.key]

end Statements

/-! ## The engine -/

theorem Write.row_apply_of_ne (db : Db) (w : Write) {k : RowKey} (h : k ≠ w.key) :
    (w.apply db).row k = db.row k := by
  cases w <;> cases k <;>
    simp only [Write.key, ne_eq, RowKey.apply.injEq, RowKey.friend.injEq, RowKey.message.injEq,
      reduceCtorEq, not_false_eq_true, ← Prod.mk.injEq] at h <;>
    simp only [Write.apply, Db.row, Table.get_update, Table.get_insert_or, h, if_false]

theorem Write.row_apply_congr {db db' : Db} {w : Write} (h : db.row w.key = db'.row w.key) :
    (w.apply db).row w.key = (w.apply db').row w.key := by
  have happly : Function.Injective (Option.map RowValue.apply) :=
    Option.map_injective fun _ _ => RowValue.apply.inj
  have hfriend : Function.Injective (Option.map RowValue.friend) :=
    Option.map_injective fun _ _ => RowValue.friend.inj
  have hmessage : Function.Injective (Option.map RowValue.message) :=
    Option.map_injective fun _ _ => RowValue.message.inj
  cases w with
  | insertApply a b =>
    simp only [Write.key, Write.apply, Db.row, Table.get_insert_or, happly h]
  | acceptApply a b =>
    simp only [Write.key, Write.apply, Db.row, Table.get_update, happly h]
  | insertFriend a b back =>
    simp only [Write.key, Write.apply, Db.row, Table.get_insert_or, hfriend h]
  | insertMessage k row =>
    simp only [Write.key, Write.apply, Db.row, Table.get_insert_or, hmessage h]
  | acknowledge k r now =>
    simp only [Write.key, Write.apply, Db.row, Table.get_update, hmessage h]

/-- The chat database as an engine for transactions. -/
def engine : Engine Db Write RowKey (Option RowValue) where
  apply db w := w.apply db
  key := Write.key
  row := Db.row
  row_other db w _ h := w.row_apply_of_ne db h
  row_local _ _ _ h := Write.row_apply_congr h

end DistributedChat.Chat
