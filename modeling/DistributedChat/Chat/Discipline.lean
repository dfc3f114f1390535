import DistributedChat.Chat.Cluster

/-!
# The discipline of the chat programs

What the programs of the cluster keep to, as a monitor: in which order they use a connection and
close a session, and which facts they have established before an effect that matters. A ticket is
needed to set the user of a session, a friendship check to store a message, a committed row to tell
a client that its message is accepted. The facts stay true once they are known, or belong to the
program itself, so they are still true when they are used.

`Quiet` and `Keeps` are the two forms of a specification. A quiet program leaves the connection and
the session table as it found them and forgets nothing; a program that keeps may forget.
-/

namespace DistributedChat.Chat

open Lib

/-! ## Facts -/

inductive Fact
  /-- A registered user. -/
  | known (uid : Uid)
  | bound (s : Sid) (uid : Uid)
  /-- The session the program runs for has no user yet. -/
  | unbound (s : Sid)
  /-- The last ticket taken for that session. -/
  | ticket (token : Bytes) (value : RedisValue)
  /-- A token nobody else has. -/
  | fresh (token : Bytes)
  /-- The job has found the two to be mutual friends. -/
  | checked (a b : Uid)
  /-- The message has a committed row. -/
  | stored (m : TextMessage)

def profileUid (key : Bytes) (value : RedisValue) : Option Uid :=
  if USER_BASE_INFO.isPrefixOf key then
    (object value.parse).bind fun root => (root.get "uid").int?
  else none

/-- A value that `GetBaseInfo` can read the uid of. -/
def ProfileOf (value : RedisValue) (uid : Uid) : Prop :=
  ∃ root, object value.parse = some root ∧ root.get "uid" = .int uid

/-- What `accept` has checked of a message. -/
structure TextMessage.Valid (m : TextMessage) : Prop where
  sender : 0 < m.sender_uid ∧ m.sender_uid < 2 ^ 31
  receiver : 0 < m.receiver_uid ∧ m.receiver_uid < 2 ^ 31
  distinct : m.sender_uid ≠ m.receiver_uid
  id : m.client_message_id ≠ [] ∧ m.client_message_id.length ≤ 128
  content : m.content ≠ [] ∧ m.content.length ≤ 2048

/-- The frame acknowledges a message of the sender. -/
def Frame.Acknowledges (f : Frame) (sender_uid : Uid) (id : Bytes) : Prop :=
  f.id = .textChatMsgAck ∧
    ∃ msgids, ackRequest f.body = some (sender_uid, msgids) ∧ ∃ v ∈ msgids, ackId v = some id

/-- What a frame to a client says of messages is true of them. -/
def OutFrame.Sound (Stored : TextMessage → Prop) (f : OutFrame) : Prop :=
  match f.id with
  | .textChatMsgRsp => ∃ uid touid texts result, f.body = textChatReply uid touid texts result ∧
      (result = .Accepted → ∃ messages, texts.mapM (textMessage uid touid) = some messages ∧
        ∀ m ∈ messages, Stored m)
  | .notifyTextChatMsgReq => ∃ m, f.body = notification m ∧ Stored m
  | _ => True

/-- A true frame stays true while messages are only added. -/
theorem OutFrame.Sound.mono {Stored Stored' : TextMessage → Prop} {f : OutFrame}
    (h : f.Sound Stored) (hmono : ∀ m, Stored m → Stored' m) : f.Sound Stored' := by
  obtain ⟨id, body⟩ := f
  cases id with
  | textChatMsgRsp =>
    obtain ⟨uid, touid, texts, result, hbody, hstored⟩ := h
    refine ⟨uid, touid, texts, result, hbody, fun hresult => ?_⟩
    obtain ⟨messages, hmessages, hall⟩ := hstored hresult
    exact ⟨messages, hmessages, fun m hm => hmono m (hall m hm)⟩
  | notifyTextChatMsgReq =>
    obtain ⟨m, hbody, hm⟩ := h
    exact ⟨m, hbody, hmono m hm⟩
  | _ => trivial

/-! ## Ghost states -/

/-- Where a program is with its connection. -/
inductive Conn
  /-- Autocommit is on. -/
  | auto
  | opened
  /-- One and two rows of a friendship are inserted, and its application is accepted. -/
  | friend (a b : Uid)
  | friends (a b : Uid)
  | accepted (a b : Uid)
  /-- Messages were inserted and read back, the last one only inserted. -/
  | inserted (verified : List TextMessage) (m : TextMessage)
  | verified (ms : List TextMessage)
  | acknowledged
  /-- Nothing is uncommitted; the program is about to give the connection back. -/
  | over
  /-- Something failed; the program is about to undo the transaction. -/
  | failing

def Conn.messages : Conn → List TextMessage
  | .verified ms => ms
  | _ => []

/-- Where a program is with closing a session. -/
inductive Clearing
  | flagged
  | found
  | read (uid : Uid)
  | passed

structure Ghost where
  self : Worker
  job : Option Job := none
  know : Set Fact := ∅
  conn : Conn := .auto
  closing : Option (Sid × Clearing) := none

namespace Ghost

def learn (g : Ghost) (F : Set Fact) : Ghost := { g with know := g.know ∪ F }

/-- The program has no transaction open and is not closing a session. -/
def Idle (g : Ghost) : Prop := g.conn = .auto ∧ g.closing = none

/-- The program acts for a session with this user. -/
def Acts (g : Ghost) (uid : Uid) : Prop := ∃ s, g.self = .session s ∧ Fact.bound s uid ∈ g.know

def MayInsert (g : Ghost) (m : TextMessage) : Prop :=
  ∃ f, g.job = some (.frame f) ∧ f.id = .textChatMsgReq ∧ g.Acts m.sender_uid ∧
    Fact.checked m.sender_uid m.receiver_uid ∈ g.know ∧ m.Valid

def MayAcknowledge (g : Ghost) (receiver_uid sender_uid : Uid) (id : Bytes) : Prop :=
  ∃ f, g.job = some (.frame f) ∧ g.Acts receiver_uid ∧ f.Acknowledges sender_uid id

end Ghost

/-! ## Redis -/

/-- What may stand at a key: no tickets, and profiles of registered users. -/
def Ghost.MayCache (g : Ghost) (key : Bytes) (value : RedisValue) : Prop :=
  ticketToken key = none ∧
    (USER_BASE_INFO.isPrefixOf key = true → ∃ uid, ProfileOf value uid ∧ Fact.known uid ∈ g.know)

def RedisCall.Allow (g : Ghost) : RedisCall → Prop
  | .getDel _ => ∃ s, g.self = .session s
  | .set key value => g.MayCache key value
  | .setEx key value _ => g.MayCache key value
  | .setExNx key value ttl => ∃ token uid server, ticketToken key = some token ∧
      Fact.fresh token ∈ g.know ∧ 0 < uid ∧ value = .json (StatusServiceImpl.ticket uid server) ∧
      ttl = StatusServiceImpl.CHAT_TICKET_TTL_SECONDS ∧ key = CHAT_TICKET_PREFIX ++ token
  | _ => True

def RedisCall.next (g : Ghost) : (c : RedisCall) → c.Answer → Ghost
  | .get key, some v => g.learn {f | ∃ uid, profileUid key v = some uid ∧ f = .known uid}
  | .getDel key, some v =>
    match ticketToken key with
    | some token =>
      { g with know := {f | f ∈ g.know ∧ ∀ k x, f ≠ .ticket k x} ∪ {.ticket token v} }
    | none => g
  | .setExNx _ _ _, _ => { g with know := {f | f ∈ g.know ∧ ∀ token, f ≠ .fresh token} }
  | _, _ => g

/-! ## The database -/

def Query.Allow (g : Ghost) : Query → Prop
  | .insertApply a _ => g.conn = .auto ∧ g.Acts a
  | .insertFriend a b _ => a ≠ b ∧ Fact.known a ∈ g.know ∧ Fact.known b ∈ g.know ∧
      (∃ uid, g.Acts uid) ∧ (g.conn = .opened ∨ g.conn = .friend b a)
  | .acceptApply a b => (∃ uid, g.Acts uid) ∧ g.conn = .friends b a
  | .insertMessage m => (g.conn = .opened ∨ ∃ ms, g.conn = .verified ms) ∧ g.MayInsert m
  | .verifyMessage sender id =>
    ∃ ms m, g.conn = .inserted ms m ∧ sender = m.sender_uid ∧ id = m.client_message_id
  | .acknowledge r sender id =>
    (g.conn = .opened ∨ g.conn = .acknowledged) ∧ g.MayAcknowledge r sender id
  | _ => g.conn = .auto

def Query.teaches : (q : Query) → Option q.Value → Set Fact
  | .selectUser uid, some (some info) => {.known uid, .known info.uid}
  | .selectUserByName _, some (some info) => {.known info.uid}
  | .countFriends a b, some n => {f | n = 2 ∧ f = .checked a b}
  | .selectPendingMessages _ _, some ms => {f | ∃ m ∈ ms, f = .stored m}
  | _, _ => ∅

def Query.moves (c : Conn) : (q : Query) → Option q.Value → Conn
  | .insertFriend a b _, some _ =>
    match c with
    | .opened => .friend a b
    | .friend x y => .friends x y
    | _ => .failing
  | .acceptApply a b, some n => if n = 1 then .accepted b a else .failing
  | .insertMessage m, some _ => .inserted c.messages m
  | .verifyMessage _ _, some row =>
    match c with
    | .inserted ms m =>
      if row = some (m.receiver_uid, m.content) then .verified (ms ++ [m]) else .failing
    | _ => .failing
  | .acknowledge _ _ _, some _ => .acknowledged
  | .insertFriend _ _ _, none => .failing
  | .acceptApply _ _, none => .failing
  | .insertMessage _, none => .failing
  | .verifyMessage _ _, none => .failing
  | .acknowledge _ _ _, none => .failing
  | _, _ => c

def Conn.Committable : Conn → Prop
  | .opened => True
  | .accepted _ _ => True
  | .verified _ => True
  | .acknowledged => True
  | _ => False

def DbCall.Allow (g : Ghost) : DbCall → Prop
  | .getConnection => g.conn = .auto
  | .setAutoCommit true => g.conn = .opened ∨ g.conn = .over
  | .setAutoCommit false => g.conn = .auto
  | .commit => g.conn.Committable
  | .query q => q.Allow g
  | _ => True

def DbCall.next (g : Ghost) : (c : DbCall) → c.Answer → Ghost
  | .getConnection, _ => g
  | .returnConnection, _ => { g with conn := .auto }
  | .setAutoCommit on, some _ => { g with conn := if on then .auto else .opened }
  | .setAutoCommit _, none => { g with conn := .over }
  | .commit, some _ =>
    { g.learn {f | ∃ m ∈ g.conn.messages, f = .stored m} with conn := .opened }
  | .commit, none => { g with conn := .failing }
  | .rollback, some _ => { g with conn := .over }
  | .rollback, none => { g with conn := .failing }
  | .query q, r => { g.learn (q.teaches r) with conn := q.moves g.conn r }

/-! ## Sessions, executors and peers -/

def SessionCall.Allow (g : Ghost) : SessionCall → Prop
  | .setUserId s uid => g.self = .session s ∧ Fact.unbound s ∈ g.know ∧ Fact.known uid ∈ g.know ∧
      (0 < uid ∧ uid < 2 ^ 31) ∧
      ∃ token value, Fact.ticket token value ∈ g.know ∧ validTicket value uid s.server = true
  | .setUserSession uid s => g.self = .session s ∧ Fact.bound s uid ∈ g.know
  | .exchangeClosed _ => g.closing = none
  | .findSession s => g.closing = some (s, .flagged)
  | .clearUserId s => g.closing = some (s, .found)
  | .rmvUserSession uid s => g.closing = some (s, .read uid)
  | .eraseSession s => g.closing = some (s, .passed)
  | .push _ f => f.Sound fun m => Fact.stored m ∈ g.know
  | _ => True

def SessionCall.next (g : Ghost) : (c : SessionCall) → c.Answer → Ghost
  | .getUserId s, uid => g.learn {f | (0 < uid ∧ (f = .bound s uid ∨ f = .known uid)) ∨
      (uid ≤ 0 ∧ g.self = .session s ∧ f = .unbound s)}
  | .setUserId s uid, _ =>
    { g with know := {f | f ∈ g.know ∧ f ≠ .unbound s} ∪ {.bound s uid} }
  | .exchangeClosed s, closed => if closed then g else { g with closing := some (s, .flagged) }
  | .findSession s, found => { g with closing := some (s, if found then .found else .passed) }
  | .clearUserId s, uid => { g with closing := some (s, if 0 < uid then .read uid else .passed) }
  | .rmvUserSession _ s, _ => { g with closing := some (s, .passed) }
  | .eraseSession _, _ => { g with closing := none }
  | _, _ => g

/-- The users of a session are numbers of 32 bits, and do not change once they are set. -/
def SessionCall.Expect (g : Ghost) : (c : SessionCall) → c.Answer → Prop
  | .getUserId s, uid => uid < 2 ^ 31 ∧ ∀ known, Fact.bound s known ∈ g.know → uid = known
  | _, _ => True

def LogicCall.Allow (g : Ghost) : LogicCall → Prop
  | .nextJob s => g.self = .session s ∧ g.Idle
  | .jobDone s => g.self = .session s ∧ g.Idle
  | .postNotification _ touid messages => messages ≠ [] ∧ messages.length ≤ 50 ∧
      ∃ sender, acceptsAll sender touid messages 0 = true
  | _ => True

def LogicCall.next (g : Ghost) : (c : LogicCall) → c.Answer → Ghost
  | .nextJob _, job => { g with job := some job, know := ∅ }
  | .jobDone _, _ => { g with job := none }
  | _, _ => g

def PeerCall.next (g : Ghost) : (c : PeerCall) → c.Answer → Ghost
  | .newToken, token => g.learn {.fresh token}
  | _, _ => g

/-! ## The monitor -/

def Call.Allow (g : Ghost) : Call → Prop
  | .redis c => c.Allow g
  | .db c => c.Allow g
  | .session c => c.Allow g
  | .logic c => c.Allow g
  | .peer _ => True

def Call.next (g : Ghost) : (e : Call) → e.Answer → Ghost
  | .redis c, r => c.next g r
  | .db c, r => c.next g r
  | .session c, r => c.next g r
  | .logic c, r => c.next g r
  | .peer c, r => c.next g r

def Call.Expect (g : Ghost) : (e : Call) → e.Answer → Prop
  | .session c, r => c.Expect g r
  | _, _ => True

def discipline : Monitor Call Call.Answer where
  Ghost := Ghost
  allow := Call.Allow
  answer := Call.Expect
  next := Call.next
  final := Ghost.Idle

/-! ## Specifications -/

namespace Ghost

/-- The program is where it was with its job, its connection and the session it closes. -/
structure Same (g g' : Ghost) : Prop where
  self : g'.self = g.self
  job : g'.job = g.job
  conn : g'.conn = g.conn
  closing : g'.closing = g.closing

/-- And it has forgotten nothing. -/
structure Le (g g' : Ghost) : Prop extends Same g g' where
  know : g.know ⊆ g'.know

/-- The same in the midst of a transaction. -/
structure Near (g g' : Ghost) : Prop where
  self : g'.self = g.self
  job : g'.job = g.job
  closing : g'.closing = g.closing
  know : g.know ⊆ g'.know

variable {g g' g'' : Ghost}

theorem Same.refl (g : Ghost) : g.Same g := ⟨rfl, rfl, rfl, rfl⟩

theorem Same.trans (h : g.Same g') (h' : g'.Same g'') : g.Same g'' :=
  ⟨h'.self.trans h.self, h'.job.trans h.job, h'.conn.trans h.conn, h'.closing.trans h.closing⟩

theorem Same.idle (h : g.Same g') (hg : g.Idle) : g'.Idle :=
  ⟨h.conn.trans hg.1, h.closing.trans hg.2⟩

theorem Le.refl (g : Ghost) : g.Le g := ⟨.refl g, Set.Subset.rfl⟩

theorem Le.trans (h : g.Le g') (h' : g'.Le g'') : g.Le g'' :=
  ⟨h.toSame.trans h'.toSame, h.know.trans h'.know⟩

theorem Le.near (h : g.Le g') : g.Near g' := ⟨h.self, h.job, h.closing, h.know⟩

theorem Near.trans (h : g.Near g') (h' : g'.Near g'') : g.Near g'' :=
  ⟨h'.self.trans h.self, h'.job.trans h.job, h'.closing.trans h.closing, h.know.trans h'.know⟩

theorem le_learn (g : Ghost) (F : Set Fact) : g.Le (g.learn F) :=
  ⟨⟨rfl, rfl, rfl, rfl⟩, Set.subset_union_left⟩

theorem near_conn (g : Ghost) (c : Conn) : g.Near { g with conn := c } :=
  ⟨rfl, rfl, rfl, Set.Subset.rfl⟩

/-- A program acts for the same user all through a transaction. -/
theorem Near.acts (h : g.Near g') {uid : Uid} (hacts : g.Acts uid) : g'.Acts uid := by
  obtain ⟨s, hself, hbound⟩ := hacts
  exact ⟨s, h.self.trans hself, h.know hbound⟩

theorem Near.mayInsert (h : g.Near g') {m : TextMessage} (hm : g.MayInsert m) : g'.MayInsert m := by
  obtain ⟨f, hjob, hid, hacts, hchecked, hvalid⟩ := hm
  exact ⟨f, h.job.trans hjob, hid, h.acts hacts, h.know hchecked, hvalid⟩

theorem Near.mayAcknowledge (h : g.Near g') {r sender : Uid} {id : Bytes}
    (hr : g.MayAcknowledge r sender id) : g'.MayAcknowledge r sender id := by
  obtain ⟨f, hjob, hacts, hf⟩ := hr
  exact ⟨f, h.job.trans hjob, h.acts hacts, hf⟩

end Ghost

section Rules

variable {α β : Type} {g : Ghost} {P : Set Fact → α → Prop} {Q : Set Fact → β → Prop}

/-- From an idle state the program keeps to the discipline, and ends idle and where it was; what it
returns is as `P` says of the facts known then. -/
def Keeps (g : Ghost) (p : Svc α) (P : Set Fact → α → Prop) : Prop :=
  g.Idle → Meets discipline (fun g' r => g.Same g' ∧ ∀ a, r = .ok a → P g'.know a) g p

/-- And it has forgotten nothing. -/
def Quiet (g : Ghost) (p : Svc α) (P : Set Fact → α → Prop) : Prop :=
  g.Idle → Meets discipline (fun g' r => g.Le g' ∧ ∀ a, r = .ok a → P g'.know a) g p

abbrev Tame (g : Ghost) (p : Svc α) : Prop := Quiet g p fun _ _ => True

variable {p : Svc α}

theorem Quiet.keeps (h : Quiet g p P) : Keeps g p fun K a => g.know ⊆ K ∧ P K a := by
  intro hidle
  refine (h hidle).weaken ?_
  rintro g' r ⟨hle, hP⟩
  exact ⟨hle.toSame, fun a ha => ⟨hle.know, hP a ha⟩⟩

theorem Quiet.weaken {P' : Set Fact → α → Prop} (h : Quiet g p P) (hP : ∀ K a, P K a → P' K a) :
    Quiet g p P' := by
  intro hidle
  refine (h hidle).weaken ?_
  rintro g' r ⟨hle, hr⟩
  exact ⟨hle, fun a ha => hP g'.know a (hr a ha)⟩

theorem Keeps.weaken {P' : Set Fact → α → Prop} (h : Keeps g p P) (hP : ∀ K a, P K a → P' K a) :
    Keeps g p P' := by
  intro hidle
  refine (h hidle).weaken ?_
  rintro g' r ⟨hle, hr⟩
  exact ⟨hle, fun a ha => hP g'.know a (hr a ha)⟩

theorem Quiet.pure {a : α} (h : P g.know a) : Quiet g (Pure.pure a) P := by
  intro _
  refine Meets.pure ⟨.refl g, ?_⟩
  rintro b hb
  cases hb
  exact h

theorem Keeps.pure {a : α} (h : P g.know a) : Keeps g (Pure.pure a) P :=
  fun hidle => (Quiet.pure h hidle).weaken fun _ _ hr => ⟨hr.1.toSame, hr.2⟩

theorem Quiet.throw : Quiet g (throw : Svc α) P :=
  fun _ => Meets.throw ⟨.refl g, fun _ h => by cases h⟩

theorem Keeps.throw : Keeps g (Chat.throw : Svc α) P :=
  fun _ => Meets.throw ⟨.refl g, fun _ h => by cases h⟩

/-- The rule for one program after another: the second starts with what the first has learnt. -/
theorem Quiet.bind {f : α → Svc β} (hp : Quiet g p P)
    (hf : ∀ g' a, g.Le g' → P g'.know a → Quiet g' (f a) Q) :
    Quiet g (p >>= f) Q := by
  intro hidle
  refine Meets.andThen ((hp hidle).weaken ?_)
  rintro g' (e | a) ⟨hle, hP⟩
  · exact ⟨hle, fun _ h => by cases h⟩
  · refine (hf g' a hle (hP a rfl) (hle.idle hidle)).weaken ?_
    rintro g'' r ⟨hle', hQ⟩
    exact ⟨hle.trans hle', hQ⟩

theorem Keeps.bind {f : α → Svc β} (hp : Keeps g p P)
    (hf : ∀ g' a, g.Same g' → P g'.know a → Keeps g' (f a) Q) :
    Keeps g (p >>= f) Q := by
  intro hidle
  refine Meets.andThen ((hp hidle).weaken ?_)
  rintro g' (e | a) ⟨hsame, hP⟩
  · exact ⟨hsame, fun _ h => by cases h⟩
  · refine (hf g' a hsame (hP a rfl) (hsame.idle hidle)).weaken ?_
    rintro g'' r ⟨hsame', hQ⟩
    exact ⟨hsame.trans hsame', hQ⟩

/-- The rule for a handler: of the failed body it may use only that nothing was forgotten. -/
theorem Quiet.recover {f : Unit → Svc α} (hp : Quiet g p P)
    (hf : ∀ g', g.Le g' → Quiet g' (f ()) P) :
    Quiet g (Task.recover p f) P := by
  intro hidle
  refine Meets.recover ((hp hidle).weaken ?_)
  rintro g' (e | a) ⟨hle, hP⟩
  · refine (hf g' hle (hle.idle hidle)).weaken ?_
    rintro g'' r ⟨hle', hQ⟩
    exact ⟨hle.trans hle', hQ⟩
  · exact ⟨hle, hP⟩

theorem Keeps.recover {f : Unit → Svc α} (hp : Keeps g p P)
    (hf : ∀ g', g.Same g' → Keeps g' (f ()) P) :
    Keeps g (Task.recover p f) P := by
  intro hidle
  refine Meets.recover ((hp hidle).weaken ?_)
  rintro g' (e | a) ⟨hsame, hP⟩
  · refine (hf g' hsame (hsame.idle hidle)).weaken ?_
    rintro g'' r ⟨hsame', hQ⟩
    exact ⟨hsame.trans hsame', hQ⟩
  · exact ⟨hsame, hP⟩

variable {e : Call}

/-- One call, against the rest of the program. -/
theorem meets_call {f : e.Answer → Svc β} {R : Ghost → Except Unit β → Prop} (hallow : e.Allow g)
    (hnext : ∀ r, e.Expect g r → Meets discipline R (e.next g r) (f r)) :
    Meets discipline R g (Chat.call e >>= f : Svc β) :=
  Meets.perform hallow hnext

/-- A call that moves neither the connection nor the session. -/
theorem Quiet.call {P : Set Fact → e.Answer → Prop} (hallow : g.Idle → e.Allow g)
    (hnext : ∀ r, e.Expect g r → g.Le (e.next g r) ∧ P (e.next g r).know r) :
    Quiet g (Chat.call e) P := by
  intro hidle
  refine ⟨hallow hidle, fun r hr => ⟨(hnext r hr).1, ?_⟩⟩
  rintro a ha
  cases ha
  exact (hnext r hr).2

theorem Quiet.silent (hallow : e.Allow g) (hnext : ∀ r, e.next g r = g) : Tame g (Chat.call e) :=
  .call (fun _ => hallow) fun r _ => ⟨(hnext r).symm ▸ .refl g, trivial⟩

end Rules

end DistributedChat.Chat
