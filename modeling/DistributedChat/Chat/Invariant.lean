import DistributedChat.Chat.Programs
import DistributedChat.Chat.Tables

/-!
# The invariant of the chat cluster

What holds in every state of every run, as far as tickets, users, friends and messages are
concerned. `Vital` is the part of the state this depends on. The facts the running programs know are
true, and so are the stages of their transactions; nothing a program does makes untrue what another
one relies on.
-/

namespace DistributedChat.Chat

open Lib

/-! ## The state that matters -/

structure Core where
  uid : Uid
  job : Option Job
  checks : List (Uid × Uid × Bool)
  ticket : Option (Bytes × ℕ)

def Session.core (x : Session) : Core := ⟨x.uid, x.job, x.checks, x.ticket⟩

structure Vital where
  now : ℕ
  redis : ExpiringMap Bytes RedisValue
  sql : Transactions Worker Db Write RowKey
  core : Sid → Option Core
  notifications : List (ServerName × Uid × List TextMessage)
  tokens : List (Bytes × Worker)
  issued : List Issued
  redeemed : List (Bytes × Sid)
  auths : List Auth
  handled : List (Sid × Frame)
  pushed : List (Sid × OutFrame)

def Shared.vital (s : Shared) : Vital where
  now := s.now
  redis := s.redis
  sql := s.sql
  core sid := (s.sessions.get sid).map Session.core
  notifications := s.notifications
  tokens := s.history.tokens
  issued := s.history.issued
  redeemed := s.history.redeemed
  auths := s.history.auths
  handled := s.history.handled
  pushed := s.history.pushed

/-! ## Tickets -/

/-- The ticket was taken for the session at a time, while it was valid. -/
def Redeemed (v : Vital) (token : Bytes) (sid : Sid) (value : RedisValue) (at_ : ℕ) : Prop :=
  (token, sid) ∈ v.redeemed ∧ ∃ i ∈ v.issued, i.token = token ∧ i.value = value ∧
    i.at_ ≤ at_ ∧ at_ < i.at_ + StatusServiceImpl.CHAT_TICKET_TTL_SECONDS

structure TicketsOk (v : Vital) : Prop where
  tokens : (v.tokens.map Prod.fst).Nodup
  issued : (v.issued.map Issued.token).Nodup
  redeemed : (v.redeemed.map Prod.fst).Nodup
  /-- A ticket is made from a token of its own, for a user and a server. -/
  made : ∀ i ∈ v.issued, (∃ t, (i.token, t) ∈ v.tokens) ∧
    ∃ uid server, i.value = .json (StatusServiceImpl.ticket uid server)
  taken : ∀ p ∈ v.redeemed, ∃ i ∈ v.issued, i.token = p.1
  /-- A ticket in Redis has not been taken, and expires when it should. -/
  entry : ∀ key e token, v.redis key = some e → ticketToken key = some token →
    (∀ sid, (token, sid) ∉ v.redeemed) ∧ ∃ i ∈ v.issued, i.token = token ∧ i.value = e.value ∧
      i.at_ ≤ v.now ∧ e.expireAt = some (i.at_ + StatusServiceImpl.CHAT_TICKET_TTL_SECONDS)
  sessions : (v.auths.map Auth.session).Nodup
  auth : ∀ a ∈ v.auths, 0 < a.uid ∧
    Redeemed v a.token a.session (.json (StatusServiceImpl.ticket a.uid a.session.server)) a.at_ ∧
      ∃ x, v.core a.session = some x ∧ x.uid = a.uid
  bound : ∀ sid x, v.core sid = some x → 0 < x.uid → ∃ a ∈ v.auths, a.session = sid

/-! ## Facts -/

section Invariant

variable (setup : Setup)

def Holds (v : Vital) (t : Worker) : Fact → Prop
  | .known uid => v.sql.db.known uid = true
  | .bound sid uid => 0 < uid ∧ ∃ x, v.core sid = some x ∧ x.uid = uid
  | .unbound sid => t = .session sid ∧ ∃ x, v.core sid = some x ∧ x.uid ≤ 0
  | .ticket token value => ∃ sid x at_, t = .session sid ∧ v.core sid = some x ∧
      x.ticket = some (token, at_) ∧ Redeemed v token sid value at_
  | .fresh token => (token, t) ∈ v.tokens ∧ ∀ i ∈ v.issued, i.token ≠ token
  | .checked a b => ∀ sid, t = .session sid → ∃ x, v.core sid = some x ∧ (a, b, true) ∈ x.checks
  | .stored m => Stored setup v.sql.db m

/-! ## Transactions -/

/-- Worker `t` may insert the message: it handles a text frame of the sender, who has been found to
be a friend of the receiver. -/
def InsertsAs (v : Vital) (t : Worker) (m : TextMessage) : Prop :=
  ∃ sid x f, t = .session sid ∧ v.core sid = some x ∧ x.job = some (.frame f) ∧
    f.id = .textChatMsgReq ∧ x.uid = m.sender_uid ∧
      (m.sender_uid, m.receiver_uid, true) ∈ x.checks ∧ m.Valid

/-- Worker `t` may acknowledge the message at a key: it handles a frame of the receiver that says
so. -/
def AcknowledgesAs (v : Vital) (t : Worker) (key : MessageKey) (receiver_uid : Uid) : Prop :=
  ∃ sid x f sender id, t = .session sid ∧ v.core sid = some x ∧ x.job = some (.frame f) ∧
    x.uid = receiver_uid ∧ 0 < receiver_uid ∧ f.Acknowledges sender id ∧
      key = messageKey setup sender id

/-- Worker `t` acts for a session that has a user. -/
def ActsAs (v : Vital) (t : Worker) : Prop :=
  ∃ sid x, t = .session sid ∧ v.core sid = some x ∧ 0 < x.uid

abbrev WritesAs (v : Vital) (t : Worker) (w : Write) : Prop :=
  w.Justified setup (InsertsAs v t) (AcknowledgesAs setup v t)

/-- The worker holds the row of the message and sees it there. -/
def Held (sql : Transactions Worker Db Write RowKey) (t : Worker) (m : TextMessage) : Prop :=
  sql.locks (.message (messageKey setup m.sender_uid m.client_message_id)) = some t ∧
    Stored setup (sql.view engine t) m

def MessagesOnly (sql : Transactions Worker Db Write RowKey) (t : Worker) : Prop :=
  ∃ ws, sql.pending t = some ws ∧ ∀ w ∈ ws, w.onMessages = true

/-- The stages of a transaction. -/
def ConnHolds (sql : Transactions Worker Db Write RowKey) (t : Worker) : Conn → Prop
  | .auto => sql.pending t = none
  | .opened => sql.pending t = some []
  | .friend a b => a ≠ b ∧ ∃ x, sql.pending t = some [.insertFriend a b x]
  | .friends a b => a ≠ b ∧ ∃ x y, sql.pending t = some [.insertFriend a b x, .insertFriend b a y]
  | .accepted a b => a ≠ b ∧ (sql.db.applies.get (b, a)).isSome ∧ ∃ x y,
      sql.pending t = some [.insertFriend a b x, .insertFriend b a y, .acceptApply b a]
  | .inserted ms _ => MessagesOnly sql t ∧ ∀ m ∈ ms, Held setup sql t m
  | .verified ms => MessagesOnly sql t ∧ ∀ m ∈ ms, Held setup sql t m
  | .acknowledged => MessagesOnly sql t
  | .over => sql.uncommitted t = []
  | .failing => True

/-! ## The invariant -/

/-- A row was checked before it was inserted, and stands under its own key. -/
structure RowOk (key : MessageKey) (row : MessageRow) : Prop where
  place : key = messageKey setup key.1 row.client_message_id
  valid : (row.message key.1).Valid

/-- The batch of a notification is as `accept` has checked it. -/
def BatchOk (touid : Uid) (messages : List TextMessage) : Prop :=
  messages ≠ [] ∧ messages.length ≤ 50 ∧ ∃ sender, acceptsAll sender touid messages 0 = true

/-- A client of the receiver has acknowledged the message at the key. -/
def AckHandled (v : Vital) (key : MessageKey) (receiver_uid : Uid) : Prop :=
  ∃ sid f sender id, (sid, f) ∈ v.handled ∧ (∃ x, v.core sid = some x ∧ x.uid = receiver_uid) ∧
    0 < receiver_uid ∧ f.Acknowledges sender id ∧ key = messageKey setup sender id

/-- What holds of the shared state. -/
structure World (v : Vital) : Prop where
  handled : ∀ sid x f, v.core sid = some x → x.job = some (.frame f) → (sid, f) ∈ v.handled
  users : ∀ sid x, v.core sid = some x → x.uid < 2 ^ 31 ∧ (0 < x.uid → v.sql.db.known x.uid = true)
  cache : ∀ key e, v.redis key = some e → USER_BASE_INFO.isPrefixOf key = true →
    ∃ uid, ProfileOf e.value uid ∧ v.sql.db.known uid = true
  tickets : TicketsOk v
  locked : v.sql.Locked engine
  friends : FriendsOk v.sql.db
  messages : ∀ key row, v.sql.db.messages.get key = some row → RowOk setup key row
  acked : ∀ key row, v.sql.db.messages.get key = some row → row.acknowledged_at ≠ none →
    AckHandled setup v key row.receiver_uid
  pushed : ∀ p ∈ v.pushed, p.2.Sound (Stored setup v.sql.db)
  notifications : ∀ n ∈ v.notifications, BatchOk n.2.1 n.2.2

/-- What holds of a running program. -/
structure Local (v : Vital) (t : Worker) (m : Ghost) : Prop where
  self : m.self = t
  facts : ∀ f ∈ m.know, Holds setup v t f
  job : ∀ j, m.job = some j → ∃ sid x, t = .session sid ∧ v.core sid = some x ∧ x.job = some j
  conn : ConnHolds setup v.sql t m.conn
  writes : ∀ w ∈ v.sql.uncommitted t, WritesAs setup v t w ∧ ActsAs v t
  session : ∀ sid, t = .session sid → ∃ x, v.core sid = some x

structure Inv (v : Vital) (g : Worker → Option Ghost) : Prop where
  world : World setup v
  running : ∀ t m, g t = some m → Local setup v t m
  idle : ∀ t, g t = none → v.sql.pending t = none

/-! ## What the others rely on -/

/-- Users, applications and bound sessions stay, and what has happened. -/
structure Extends (v v' : Vital) : Prop where
  known : ∀ uid, v.sql.db.known uid = true → v'.sql.db.known uid = true
  applies : ∀ k, (v.sql.db.applies.get k).isSome → (v'.sql.db.applies.get k).isSome
  bound : ∀ sid x, v.core sid = some x → 0 < x.uid → ∃ x', v'.core sid = some x' ∧ x'.uid = x.uid
  tokens : ∀ p ∈ v.tokens, p ∈ v'.tokens
  issued : ∀ i ∈ v.issued, i ∈ v'.issued
  redeemed : ∀ p ∈ v.redeemed, p ∈ v'.redeemed

/-- A step of worker `t` takes away nothing that another worker relies on. -/
structure Preserves (t : Worker) (v v' : Vital) : Prop extends Extends v v' where
  evolves : Evolves setup (InsertsAs v t) (AcknowledgesAs setup v t) v.sql.db v'.sql.db
  /-- Only a session with a user changes the tables. -/
  tables : ActsAs v t ∨ v'.sql.db = v.sql.db
  core : ∀ sid x, t ≠ .session sid → v.core sid = some x → v'.core sid = some x
  handled : ∀ p ∈ v.handled, p ∈ v'.handled
  /-- New tickets are made from tokens of the worker. -/
  fresh : ∀ i ∈ v'.issued, i ∈ v.issued ∨ (i.token, t) ∈ v.tokens
  sql : v.sql.Spares engine t v'.sql

variable {setup} {t t' : Worker} {v v' : Vital}

theorem Preserves.refl (t : Worker) (v : Vital) : Preserves setup t v v where
  known _ h := h
  evolves := .of_eq rfl
  tables := Or.inr rfl
  applies _ h := h
  core _ _ _ h := h
  bound _ x h _ := ⟨x, h, rfl⟩
  tokens _ h := h
  issued _ h := h
  redeemed _ h := h
  handled _ h := h
  fresh _ h := Or.inl h
  sql := .refl t v.sql

/-- A stored message stays stored through any step of any thread. -/
theorem Preserves.stored (h : Preserves setup t v v') {m : TextMessage}
    (hm : Stored setup v.sql.db m) : Stored setup v'.sql.db m := hm.evolves h.evolves

/-- A redeemed ticket stays redeemed while the records only grow. -/
theorem Redeemed.mono {token : Bytes} {sid : Sid} {value : RedisValue} {at_ : ℕ}
    (h : Redeemed v token sid value at_) (hissued : ∀ i ∈ v.issued, i ∈ v'.issued)
    (hredeemed : ∀ p ∈ v.redeemed, p ∈ v'.redeemed) : Redeemed v' token sid value at_ := by
  obtain ⟨hmem, i, hi, hrest⟩ := h
  exact ⟨hredeemed _ hmem, i, hissued i hi, hrest⟩

variable (setup) in
/-- What worker `t` relies on is as it was. -/
structure Unharmed (t : Worker) (v v' : Vital) : Prop extends Extends v v' where
  stored : ∀ m, Stored setup v.sql.db m → Stored setup v'.sql.db m
  core : ∀ sid x, t = .session sid → v.core sid = some x → v'.core sid = some x
  fresh : ∀ token, (token, t) ∈ v.tokens → (∀ i ∈ v.issued, i.token ≠ token) → ∀ i ∈ v'.issued,
    i.token ≠ token
  pending : v'.sql.pending t = v.sql.pending t
  held : ∀ k, v.sql.locks k = some t → v'.sql.locks k = some t ∧
    engine.row v'.sql.db k = engine.row v.sql.db k

/-- What a step preserves for its own thread leaves every other thread unharmed. -/
theorem Preserves.unharmed (h : Preserves setup t v v') (htokens : (v.tokens.map Prod.fst).Nodup)
    (ht : t' ≠ t) : Unharmed setup t' v v' where
  toExtends := h.toExtends
  stored _ hm := h.stored hm
  core sid x hsid hx := h.core sid x (hsid ▸ ht.symm) hx
  fresh token hmem hnot i hi heq := by
    rcases h.fresh i hi with hold | hown
    · exact hnot i hold heq
    · -- a token has one owner
      have := List.inj_on_of_nodup_map htokens hown hmem heq
      exact ht (congrArg Prod.snd this).symm
  pending := h.sql.pending t' ht
  held k hk := h.sql.held t' ht k hk

section Unharmed

variable (h : Unharmed setup t v v')

include h

/-- What a thread knows stays true while the others take steps. -/
theorem Unharmed.holds {f : Fact} (hf : Holds setup v t f) : Holds setup v' t f := by
  cases f with
  | known uid => exact h.known uid hf
  | bound sid uid =>
    obtain ⟨hpos, x, hx, rfl⟩ := hf
    obtain ⟨x', hx', huid⟩ := h.bound sid x hx hpos
    exact ⟨hpos, x', hx', huid⟩
  | unbound sid =>
    obtain ⟨hsid, x, hx, hle⟩ := hf
    exact ⟨hsid, x, h.core sid x hsid hx, hle⟩
  | ticket token value =>
    obtain ⟨sid, x, at_, hsid, hx, hticket, hredeemed⟩ := hf
    exact ⟨sid, x, at_, hsid, h.core sid x hsid hx, hticket, hredeemed.mono h.issued h.redeemed⟩
  | fresh token => exact ⟨h.tokens _ hf.1, h.fresh token hf.1 hf.2⟩
  | checked a b =>
    intro sid hsid
    obtain ⟨x, hx, hmem⟩ := hf sid hsid
    exact ⟨x, h.core sid x hsid hx, hmem⟩
  | stored m => exact h.stored m hf

theorem Unharmed.uncommitted : v'.sql.uncommitted t = v.sql.uncommitted t := by
  unfold Transactions.uncommitted
  rw [h.pending]

theorem Unharmed.messageHeld {m : TextMessage} (hm : Held setup v.sql t m) :
    Held setup v'.sql t m := by
  refine ⟨(h.held _ hm.1).1, hm.2.of_row ?_⟩
  unfold Transactions.view
  rw [h.uncommitted]
  exact engine.row_applyAll_congr (h.held _ hm.1).2 _

/-- A transaction in progress keeps what it has written and locked. -/
theorem Unharmed.conn {c : Conn} (hc : ConnHolds setup v.sql t c) : ConnHolds setup v'.sql t c := by
  have honly : MessagesOnly v.sql t → MessagesOnly v'.sql t := fun ⟨ws, hws, hall⟩ =>
    ⟨ws, h.pending.trans hws, hall⟩
  cases c with
  | auto | opened => exact h.pending.trans hc
  | friend a b => exact ⟨hc.1, hc.2.imp fun _ hx => h.pending.trans hx⟩
  | friends a b => exact ⟨hc.1, hc.2.imp fun _ => .imp fun _ hx => h.pending.trans hx⟩
  | accepted a b =>
    exact ⟨hc.1, h.applies _ hc.2.1, hc.2.2.imp fun _ => .imp fun _ hx => h.pending.trans hx⟩
  | inserted ms m | verified ms => exact ⟨honly hc.1, fun m' hm' => h.messageHeld (hc.2 m' hm')⟩
  | acknowledged => exact honly hc
  | failing => trivial
  | _ => exact h.uncommitted.trans hc

theorem Unharmed.writes {w : Write} (hw : WritesAs setup v t w ∧ ActsAs v t) :
    WritesAs setup v' t w ∧ ActsAs v' t := by
  refine ⟨hw.1.mono ?_ ?_, ?_⟩
  · rintro m ⟨sid, x, f, hsid, hx, hrest⟩
    exact ⟨sid, x, f, hsid, h.core sid x hsid hx, hrest⟩
  · rintro key receiver ⟨sid, x, f, sender, id, hsid, hx, hrest⟩
    exact ⟨sid, x, f, sender, id, hsid, h.core sid x hsid hx, hrest⟩
  · obtain ⟨sid, x, hsid, hx, hpos⟩ := hw.2
    exact ⟨sid, x, hsid, h.core sid x hsid hx, hpos⟩

/-- **Steps of the others leave a program where it is**: its knowledge, its connection and its
session. -/
theorem Unharmed.program {m : Ghost} (hm : Local setup v t m) : Local setup v' t m where
  self := hm.self
  facts f hf := h.holds (hm.facts f hf)
  job j hj := by
    obtain ⟨sid, x, hsid, hx, hjob⟩ := hm.job j hj
    exact ⟨sid, x, hsid, h.core sid x hsid hx, hjob⟩
  conn := h.conn hm.conn
  writes w hw := h.writes (hm.writes w (h.uncommitted ▸ hw))
  session sid hsid := (hm.session sid hsid).imp fun x hx => h.core sid x hsid hx

end Unharmed

variable (setup) in
/-- A step of worker `t` from `v` to `v'` that leaves the invariant, and the worker in state `m'`.
-/
structure Takes (t : Worker) (v v' : Vital) (m' : Ghost) : Prop where
  frame : Preserves setup t v v'
  world : World setup v'
  own : Local setup v' t m'

/-- **One step of one thread keeps the invariant**, given what the step does to the shared state
and what the thread knows after it. -/
theorem Inv.update {g : Worker → Option Ghost} (h : Inv setup v g) {m' : Ghost}
    (ht : Takes setup t v v' m') : Inv setup v' (Function.update g t (some m')) where
  world := ht.world
  running := forall_set ht.own fun t' n hne hn =>
    (ht.frame.unharmed h.world.tickets.tokens hne).program (h.running t' n hn)
  idle := forall_unset fun t' hne hnone => (ht.frame.sql.pending t' hne).trans (h.idle t' hnone)

theorem Local.learns {m : Ghost} (h : Local setup v t m) {F : Set Fact}
    (hF : ∀ f ∈ F, Holds setup v t f) : Local setup v t (m.learn F) :=
  { h with facts := fun f hf => hf.elim (h.facts f) (hF f) }

theorem World.takes {m' : Ghost} (h : World setup v) (hm : Local setup v t m') :
    Takes setup t v v m' := ⟨.refl t v, h, hm⟩

end Invariant

end DistributedChat.Chat
