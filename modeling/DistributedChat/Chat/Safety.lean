import DistributedChat.Chat.Soundness
import DistributedChat.Resource.Server

/-!
# Tickets, friends and messages in every run

What the invariant says about the cluster: a ticket authenticates one session, friendship is mutual
and needs consent, and a row of `chat_message` is written by its sender and acknowledged by its
receiver.
-/

namespace DistributedChat.Chat

open Lib

abbrev ChatConfig := Config Worker Call Call.Answer (Except Unit Unit) Shared

/-! ## A run to look at

Two users log in, become friends, and one sends the other a message, which is acknowledged. -/

namespace Sample

def setup : Setup := ⟨[ascii "s1"], fun b => b, fun b => b, fun _ => 0, fun b => b⟩

def user (name : String) (uid : Uid) : UserInfo :=
  ⟨ascii name, uid, ascii "u@example.com", [], [], 0, [], []⟩

def start : ChatConfig :=
  ⟨.fresh 0 0 ((Table.empty.insert 1 (user "a" 1)).insert 2 (user "b" 2)), fun _ => none⟩

def sid (id : String) : Sid := ⟨ascii "s1", ascii id⟩

def frame (id : MsgId) (members : List (String × Json)) : Frame :=
  ⟨id, some (.obj (members.map fun p => (ascii p.1, p.2)))⟩

def login (uid : Uid) (token : String) : Frame :=
  frame .chatLogin
    [("uid", .int uid), ("token", .str (ascii token)), ("resource_protocol_version", .int 1)]

/-- A program to its end after `n` effects. -/
def whole (l : Launch) (t : Worker) (picks : List Pick) : List (Move Worker Launch Pick) :=
  .start l :: picks.map (.call t ·) ++ [.finish t]

def job (id : String) (f : Frame) (n : ℕ) : List (Move Worker Launch Pick) :=
  whole (.job (sid id)) (.session (sid id)) ({ job := .frame f } :: List.replicate n {})

def connect (id : String) : List (Move Worker Launch Pick) :=
  whole (.accept (ascii "s1") 0) (.server (ascii "s1") 0) [{ id := ascii id }, {}]

def ticket (uid : Uid) (token : String) : List (Move Worker Launch Pick) :=
  whole (.getChatServer 0 uid) (.status 0) [{}, {}, { id := ascii token }, {}]

def schedule : List (Move Worker Launch Pick) :=
  whole (.publishHealth (ascii "s1") 0) (.server (ascii "s1") 0) [{}, {}] ++
  connect "x" ++ connect "y" ++ ticket 1 "t" ++ ticket 2 "u" ++
  job "x" (login 1 "t") 29 ++ job "y" (login 2 "u") 29 ++
  job "x" (frame .addFriendReq [("touid", .int 2), ("applyname", .str (ascii "a"))]) 22 ++
  job "y" (frame .authFriendReq [("touid", .int 1), ("back", .str (ascii "a"))]) 24 ++
  job "x" (frame .textChatMsgReq [("touid", .int 2), ("text_array", .arr [.obj
    [(ascii "msgid", .str (ascii "m")), (ascii "content", .str (ascii "hi"))]])]) 18 ++
  job "y" (frame .textChatMsgAck [("fromuid", .int 1), ("msgids", .arr [.str (ascii "m")])]) 18

theorem reachable_start : Reachable (cluster setup) start := .init ⟨0, 0, _, rfl⟩

theorem reaches (P : ChatConfig → Bool)
    (h : (play (launch setup) (perform setup) start schedule).any P = true) :
    ∃ c, Reachable (cluster setup) c ∧ P c = true := by
  obtain ⟨c, hc, hP⟩ := (Option.any_eq_true ..).mp h
  exact ⟨c, (cluster_playable setup).play reachable_start hc, hP⟩

end Sample

variable {setup : Setup} {c c' : ChatConfig}

theorem reachable_world (hc : Reachable (cluster setup) c) : World setup c.shared.vital := by
  obtain ⟨g, hg, -⟩ := reachable_invariant (inv_inductive setup) hc
  exact hg.world

/-! ## Tickets -/

/-- **A ticket authenticates one session.** The logins of a run have different tickets and different
sessions. The ticket of a login was issued for the user and for the server of the session, and was
taken out of Redis before its time ended; the session still has that user. No other session has a
user. -/
theorem tickets_one_shot (hc : Reachable (cluster setup) c) :
    (c.shared.history.auths.map Auth.token).Nodup ∧
    (c.shared.history.auths.map Auth.session).Nodup ∧
    (c.shared.history.issued.map Issued.token).Nodup ∧
    (∀ a ∈ c.shared.history.auths,
      (∃ i ∈ c.shared.history.issued, i.token = a.token ∧
        i.value = .json (StatusServiceImpl.ticket a.uid a.session.server) ∧
        i.at_ ≤ a.at_ ∧ a.at_ < i.at_ + StatusServiceImpl.CHAT_TICKET_TTL_SECONDS) ∧
      ∃ x, c.shared.sessions.get a.session = some x ∧ x.uid = a.uid ∧ 0 < a.uid) ∧
    ∀ sid x, c.shared.sessions.get sid = some x → 0 < x.uid →
      ∃ a ∈ c.shared.history.auths, a.session = sid ∧ a.uid = x.uid := by
  have h := (reachable_world hc).tickets
  have hcore : ∀ sid y, c.shared.vital.core sid = some y →
      ∃ x, c.shared.sessions.get sid = some x ∧ x.core = y := fun _ _ hy =>
    Option.map_eq_some_iff.mp hy
  have htoken : ∀ a ∈ c.shared.history.auths, ∀ b ∈ c.shared.history.auths,
      a.token = b.token → a = b := by
    intro a ha b hb heq
    -- a ticket was taken for one session
    have hpair := List.inj_on_of_nodup_map h.redeemed (h.auth a ha).2.1.1 (h.auth b hb).2.1.1 heq
    exact List.inj_on_of_nodup_map h.sessions ha hb (congrArg Prod.snd hpair)
  refine ⟨(List.Nodup.of_map _ h.sessions).map_on htoken, h.sessions, h.issued, fun a ha => ?_,
    fun sid x hx hpos => ?_⟩
  · obtain ⟨hpos, ⟨-, i, hi, hissued⟩, y, hy, huid⟩ := h.auth a ha
    obtain ⟨x, hx, rfl⟩ := hcore _ y hy
    exact ⟨⟨i, hi, hissued⟩, x, hx, huid, hpos⟩
  · have hy : c.shared.vital.core sid = some x.core :=
      by simp only [Shared.vital, hx, Option.map_some]
    obtain ⟨a, ha, rfl⟩ := h.bound sid x.core hy hpos
    obtain ⟨-, -, y, hy', huid⟩ := h.auth a ha
    cases hy.symm.trans hy'
    exact ⟨a, ha, rfl, huid.symm⟩

set_option maxRecDepth 10000 in
/-- Two sessions have logged in. -/
theorem tickets_one_shot_sample : ∃ c, Reachable (cluster Sample.setup) c ∧
    c.shared.history.auths.map Auth.session = [Sample.sid "y", Sample.sid "x"] ∧
    (c.shared.history.auths.map Auth.token).Nodup := by
  obtain ⟨c, hc, h⟩ := Sample.reaches (fun c =>
    c.shared.history.auths.map Auth.session == [Sample.sid "y", Sample.sid "x"]) (by decide +kernel)
  exact ⟨c, hc, eq_of_beq h, (tickets_one_shot hc).1⟩

/-! ## Friends -/

/-- The users and friends of the chat database as the resource servers see them. -/
def directory (db : Db) (sameKey : Bytes → Bytes → Bool) : Resource.Directory :=
  ⟨db.known, fun a b => (db.friends.get (a, b)).isSome, sameKey⟩

/-- What a program returns that worker `t` runs to its end, alone. -/
def result {α : Type} (setup : Setup) (t : Worker) (p : Svc α) (s : Shared) :
    Option (Except Unit α) :=
  (Prog.run (alone setup t (.arr [])) p s).map Prod.fst

theorem result_CheckFriendRelation {t : Worker} {s : Shared} (h : s.sql.pending t = none)
    (a b : Uid) :
    result setup t (MysqlDao.CheckFriendRelation a b) s = some
    (.ok (some (s.sql.db.friendCount a b == 2))) := by
  have hview : s.sql.view engine t = s.sql.db := by
    simp only [Transactions.view, Transactions.uncommitted, h, Option.getD_none,
      Engine.applyAll_nil]
  have hquery :
    (Query.countFriends a b).perform setup t .ok s = some (some (s.sql.db.friendCount a b),
        { s.noteCheck t (.countFriends a b) with sql := s.sql.write engine t [] [] }) := by
    simp only [Query.perform, Query.run, hview, List.not_mem_nil, false_implies, implies_true,
      if_true, orLost]
  have hprog : MysqlDao.CheckFriendRelation a b = Prog.call (.db .getConnection) fun available =>
      if available = true then
        Task.ensuring (caught none do
          let relation_count ← query (.countFriends a b)
          return some (relation_count == 2)) (call (.db .returnConnection))
      else Prog.ret (.ok none) := rfl
  rw [result, hprog]
  simp only [Prog.run, alone, perform, DbCall.perform, Option.bind_some]
  show Option.map Prod.fst (Prog.run (alone setup t (.arr []))
    (Prog.call (.db (.query (.countFriends a b))) _) s) = _
  simp only [Prog.run, alone, perform, DbCall.perform, hquery]
  rfl

theorem friendCount_eq_two {db : Db} (h : FriendsOk db) (a b : Uid) :
    db.friendCount a b = 2 ↔ (db.friends.get (a, b)).isSome := by
  constructor
  · intro hcount
    have := mutual_of_friendCount hcount
    simp only [Db.mutual, Bool.and_eq_true] at this
    exact this.1
  · intro hab
    have hne : a ≠ b := by
      rintro rfl
      rw [h.irrefl a] at hab
      cases hab
    rw [friendCount_eq hne, if_pos hab, if_pos (h.symm a b hab)]

/-- **Friendship is mutual and needs consent.** In every committed state; so the two checks of
friendship agree, that of the chat servers, which counts the rows of both directions, and that of
the resource servers, which looks for one row. -/
theorem friendship_mutual_consensual (hc : Reachable (cluster setup) c) :
    (∀ a b, (c.shared.sql.db.friends.get (a, b)).isSome ↔
      (c.shared.sql.db.friends.get (b, a)).isSome) ∧
    (∀ a, c.shared.sql.db.friends.get (a, a) = none) ∧
    (∀ a b, (c.shared.sql.db.friends.get (a, b)).isSome ↔
      c.shared.sql.db.applies.get (a, b) = some 1 ∨ c.shared.sql.db.applies.get (b, a) = some 1) ∧
    ∀ t a b sameKey now files, c.shared.sql.pending t = none →
      (result setup t (MysqlDao.CheckFriendRelation a b) c.shared = some (.ok (some true)) ↔
        Resource.statement (directory c.shared.sql.db sameKey) now files (.selectFriend a b) =
          some (true, [], [])) := by
  have h := (reachable_world hc).friends
  refine ⟨fun a b =>
    ⟨h.symm a b, h.symm b a⟩, h.irrefl, h.consent, fun t a b _ now files hnone => ?_⟩
  rw [result_CheckFriendRelation hnone a b]
  simp only [Resource.statement, directory, Option.some.injEq, Except.ok.injEq, beq_iff_eq,
    Prod.mk.injEq, and_true]
  exact friendCount_eq_two h a b

set_option maxRecDepth 10000 in
/-- Two users have become friends. -/
theorem friendship_mutual_consensual_sample : ∃ c, Reachable (cluster Sample.setup) c ∧
    c.shared.sql.db.applies.get (1, 2) = some 1 ∧
    (c.shared.sql.db.friends.get (2, 1)).isSome := by
  obtain ⟨c, hc, h⟩ := Sample.reaches (fun c => c.shared.sql.db.applies.get (1, 2) == some 1)
    (by decide +kernel)
  have happlies := eq_of_beq h
  exact ⟨c, hc, happlies, ((friendship_mutual_consensual hc).2.2.1 2 1).mpr (Or.inr happlies)⟩

/-! ## Messages -/

def Handling (s : Shared) (sid : Sid) (x : Session) (f : Frame) : Prop :=
  s.sessions.get sid = some x ∧ x.job = some (.frame f)

/-- The rows of `chat_message`. -/
abbrev rowAt (c : ChatConfig) (key : MessageKey) : Option MessageRow :=
  c.shared.sql.db.messages.get key

theorem preserves_of_moves (hc : Reachable (cluster setup) c) {t : Worker}
    (h : Moves (cluster setup) t c c') : Preserves setup t c.shared.vital c'.shared.vital := by
  obtain ⟨e, k, r, s', ht, ⟨p, hp⟩, rfl⟩ := h
  obtain ⟨g, m, hg, hm, hallow⟩ := reachable_call (inv_inductive setup) hc ht
  exact (takes_perform hg.world (hg.running t m hm) hallow hp).2.frame

theorem tables_of_step (h : Step (cluster setup) c c') : (∃ t, Moves (cluster setup) t c c') ∨
    c'.shared.sql.db = { c.shared.sql.db with users := c'.shared.sql.db.users } := by
  cases h with
  | env h =>
    obtain ⟨now, steady, users, -, -, -, rfl⟩ := h
    exact Or.inr rfl
  | start free h => exact Or.inr rfl
  | call running h => exact Or.inl ⟨_, _, _, _, _, running, h, rfl⟩
  | stop running h =>
    obtain ⟨-, rfl⟩ := h
    exact Or.inr rfl
  | crash h =>
    obtain ⟨server, -, rfl⟩ := h
    exact Or.inr rfl

theorem messages_of_step (h : Step (cluster setup) c c') :
    (∃ t, Moves (cluster setup) t c c') ∨ ∀ key, rowAt c' key = rowAt c key := by
  refine (tables_of_step h).imp_right fun hsame key => ?_
  rw [rowAt, hsame]

theorem handling_of_core {s : Shared} {sid : Sid} {y : Core} (hy : s.vital.core sid = some y)
    {f : Frame}
    (hjob : y.job = some (.frame f)) :
    ∃ x, Handling s sid x f ∧ x.uid = y.uid ∧ x.checks = y.checks := by
  obtain ⟨x, hx, rfl⟩ := Option.map_eq_some_iff.mp hy
  exact ⟨x, ⟨hx, hjob⟩, rfl, rfl⟩

/-- A new row is inserted for a session that handles a text frame of the sender, who has been found
to be a friend of the receiver. -/
theorem row_inserted (hc : Reachable (cluster setup) c) (h : Step (cluster setup) c c')
    {key : MessageKey}
    {row : MessageRow} (hnone : rowAt c key = none) (hrow : rowAt c' key = some row) :
    ∃ sid x f, Moves (cluster setup) (.session sid) c c' ∧ Handling c.shared sid x f ∧
      f.id = .textChatMsgReq ∧ x.uid = key.1 ∧ key.1 ≠ row.receiver_uid ∧
      (key.1, row.receiver_uid, true) ∈ x.checks ∧ row.acknowledged_at = none := by
  rcases messages_of_step h with ⟨t, hmoves⟩ | hsame
  · obtain ⟨-, hins, hack⟩ := (preserves_of_moves hc hmoves).evolves.new key row hnone hrow
    obtain ⟨sid, y, f, rfl, hy, hjob, hid, huid, hcheck, hvalid⟩ := hins
    obtain ⟨x, hx, hxuid, hchecks⟩ := handling_of_core hy hjob
    refine ⟨sid, x, f, hmoves, hx, hid, hxuid.trans huid, hvalid.distinct, hchecks ▸ hcheck, ?_⟩
    rcases hack with hnone | ⟨sid', y', f', -, -, hsid, hy', hjob', -, -, ⟨hid', -⟩, -⟩
    · exact hnone
    · -- the frame is a text frame, not an acknowledgement
      cases hsid
      cases hy.symm.trans hy'
      cases hjob.symm.trans hjob'
      rw [hid] at hid'
      cases hid'
  · rw [hsame, hnone] at hrow
    cases hrow

theorem row_kept (hc : Reachable (cluster setup) c) (h : Step (cluster setup) c c')
    {key : MessageKey} {row : MessageRow} (hrow : rowAt c key = some row) :
    ∃ row', rowAt c' key = some row' ∧ row'.client_message_id = row.client_message_id ∧
      row'.receiver_uid = row.receiver_uid ∧ row'.content = row.content ∧
      (row'.acknowledged_at = row.acknowledged_at ∨ row.acknowledged_at = none ∧
        ∃ sid x f, Moves (cluster setup) (.session sid) c c' ∧ Handling c.shared sid x f ∧
          f.id = .textChatMsgAck ∧ x.uid = row.receiver_uid) := by
  rcases messages_of_step h with ⟨t, hmoves⟩ | hsame
  · obtain ⟨row', hrow', hmessage, hack⟩ := (preserves_of_moves hc hmoves).evolves.kept key row hrow
    obtain ⟨hid, hreceiver, hcontent⟩ := MessageRow.fields_of_message hmessage
    refine ⟨row', hrow', hid, hreceiver, hcontent, hack.imp_right ?_⟩
    rintro ⟨hnone, sid, y, f, sender, id, rfl, hy, hjob, huid, -, ⟨hf, -⟩, -⟩
    obtain ⟨x, hx, hxuid, -⟩ := handling_of_core hy hjob
    exact ⟨hnone, sid, x, f, hmoves, hx, hf, hxuid.trans huid⟩
  · exact ⟨row, (hsame key).trans hrow, rfl, rfl, rfl, Or.inl rfl⟩

theorem tables_kept (hc : Reachable (cluster setup) c) {sid : Sid} {x : Session}
    (h : Moves (cluster setup) (.session sid) c c') (hx : c.shared.sessions.get sid = some x)
    (huid : x.uid ≤ 0) : c'.shared.sql.db = c.shared.sql.db := by
  rcases (preserves_of_moves hc h).tables with ⟨sid', y, hsid, hy, hpos⟩ | hsame
  · cases hsid
    obtain ⟨x', hx', rfl⟩ := Option.map_eq_some_iff.mp hy
    cases hx.symm.trans hx'
    exact absurd hpos (not_lt.mpr huid)
  · exact hsame

/-- **Who writes `chat_message`.** Every row was inserted, in some step of the run, by a session
handling a text frame, whose user is the sender and had just been found to be a mutual friend of the
receiver. In every step a row keeps its receiver and content and becomes acknowledged only by a
session of the receiver handling an acknowledgement; and a session without a user changes no table.
-/
theorem messages_authentic (hc : Reachable (cluster setup) c) :
    (∀ key row, rowAt c key = some row → ∃ c₁ c₂ sid x f,
      Reachable (cluster setup) c₁ ∧ Moves (cluster setup) (.session sid) c₁ c₂ ∧
      Relation.ReflTransGen (Step (cluster setup)) c₂ c ∧
      rowAt c₁ key = none ∧ rowAt c₂ key = some { row with acknowledged_at := none } ∧
      Handling c₁.shared sid x f ∧ f.id = .textChatMsgReq ∧ x.uid = key.1 ∧
      key.1 ≠ row.receiver_uid ∧ (key.1, row.receiver_uid, true) ∈ x.checks) ∧
    ∀ c', Step (cluster setup) c c' →
      (∀ key row, rowAt c key = some row → ∃ row', rowAt c' key = some row' ∧
        row'.client_message_id = row.client_message_id ∧
        row'.receiver_uid = row.receiver_uid ∧ row'.content = row.content ∧
        (row'.acknowledged_at = row.acknowledged_at ∨ row.acknowledged_at = none ∧
          ∃ sid x f, Moves (cluster setup) (.session sid) c c' ∧ Handling c.shared sid x f ∧
            f.id = .textChatMsgAck ∧ x.uid = row.receiver_uid)) ∧
      ∀ sid x, Moves (cluster setup) (.session sid) c c' → c.shared.sessions.get sid = some x →
        x.uid ≤ 0 → c'.shared.sql.db = c.shared.sql.db := by
  refine ⟨fun key row hrow => ?_, fun c' h => ⟨fun key row hrow => row_kept hc h hrow,
    fun sid x hmoves hx huid => tables_kept hc hmoves hx huid⟩⟩
  -- the step in which the message appeared
  let There (c : ChatConfig) : Prop :=
    ∃ row', rowAt c key = some row' ∧ row'.message key.1 = row.message key.1
  have hinit : ∀ s, (cluster setup).init s → ¬ There ⟨s, fun _ => none⟩ := by
    rintro s ⟨now, steady, users, rfl⟩ ⟨row', hrow', -⟩
    cases hrow'
  obtain ⟨c₁, c₂, h₁, hstep, hnot, ⟨row₂, hrow₂, hmessage⟩, hrest⟩ :=
    Reachable.began hinit hc ⟨row, hrow, rfl⟩
  have hnone : rowAt c₁ key = none := by
    cases hrow₁ : rowAt c₁ key with
    | none => rfl
    | some row₁ =>
      obtain ⟨row', hrow', hid, hreceiver, hcontent, -⟩ := row_kept h₁ hstep hrow₁
      cases hrow'.symm.trans hrow₂
      refine absurd ⟨row₁, hrow₁, ?_⟩ hnot
      rw [← hmessage]
      simp only [MessageRow.message, hid, hreceiver, hcontent]
  obtain ⟨sid, x, f, hmoves, hx, hf, huid, hne, hcheck, hack⟩ := row_inserted h₁ hstep hnone hrow₂
  obtain ⟨hid, hreceiver, hcontent⟩ := MessageRow.fields_of_message hmessage
  have hrow₂' : row₂ = { row with acknowledged_at := none } := by
    cases row₂
    simp only at hid hreceiver hcontent hack
    rw [hid, hreceiver, hcontent, hack]
  exact ⟨c₁, c₂, sid, x, f, h₁, hmoves, hrest, hnone, hrow₂' ▸ hrow₂, hx, hf, huid,
    hreceiver ▸ hne, hreceiver ▸ hcheck⟩

set_option maxRecDepth 10000 in
/-- A message from one friend to the other. -/
theorem messages_authentic_sample : ∃ c row, Reachable (cluster Sample.setup) c ∧
    rowAt c (1, ascii "m") = some row ∧ row.receiver_uid = 2 ∧
    ∃ c₁ sid x f, Reachable (cluster Sample.setup) c₁ ∧ Handling c₁.shared sid x f ∧ x.uid = 1 ∧
      (1, 2, true) ∈ x.checks := by
  obtain ⟨c, hc, h⟩ := Sample.reaches (fun c => (rowAt c (1, ascii "m")).any fun row =>
    row.receiver_uid == 2) (by decide +kernel)
  obtain ⟨row, hrow, hreceiver⟩ := (Option.any_eq_true ..).mp h
  have hreceiver := eq_of_beq hreceiver
  obtain ⟨c₁, -, sid, x, f, hc₁, -, -, -, -, hx, -, huid, -, hcheck⟩ :=
    (messages_authentic hc).1 _ row hrow
  exact ⟨c, row, hc, hrow, hreceiver, c₁, sid, x, f, hc₁, hx, huid, hreceiver ▸ hcheck⟩

/-! ## The rest of the invariant -/

/-- **Only users who have logged in write to the tables.** A step of the cluster, of whatever
worker, also one that ends a program or loses a server, leaves the tables of friends, applications
and messages, or it is an effect of a session whose user has been authenticated with a ticket. -/
theorem tables_written_by_users (hc : Reachable (cluster setup) c) (h : Step (cluster setup) c c') :
    c'.shared.sql.db = { c.shared.sql.db with users := c'.shared.sql.db.users } ∨
    ∃ sid x, Moves (cluster setup) (.session sid) c c' ∧ c.shared.sessions.get sid = some x ∧
      0 < x.uid ∧
      ∃ a ∈ c.shared.history.auths, a.session = sid ∧ a.uid = x.uid := by
  rcases tables_of_step h with ⟨t, hmoves⟩ | hsame
  · rcases (preserves_of_moves hc hmoves).tables with ⟨sid, y, rfl, hy, hpos⟩ | hsame
    · obtain ⟨x, hx, rfl⟩ := Option.map_eq_some_iff.mp hy
      have hw := (reachable_world hc).tickets
      obtain ⟨a, ha, rfl⟩ := hw.bound sid _ hy hpos
      obtain ⟨-, -, y, hy', huid⟩ := hw.auth a ha
      cases hy.symm.trans hy'
      exact Or.inr ⟨_, x, hmoves, hx, hpos, a, ha, rfl, huid.symm⟩
    · have hsame : c'.shared.sql.db = c.shared.sql.db := hsame
      rw [hsame]
      exact Or.inl rfl
  · exact Or.inl hsame

set_option maxRecDepth 10000 in
/-- The step that brought the message. -/
theorem tables_written_by_users_sample : ∃ c c' sid x, Reachable (cluster Sample.setup) c ∧
    Moves (cluster Sample.setup)
    (.session sid) c c' ∧ c.shared.sessions.get sid = some x ∧ 0 < x.uid ∧
    rowAt c (1, ascii "m") = none ∧ (rowAt c' (1, ascii "m")).isSome := by
  obtain ⟨c, hc, h⟩ := Sample.reaches (fun c => (rowAt c (1, ascii "m")).isSome) (by decide +kernel)
  obtain ⟨c₁, c₂, h₁, hstep, hnot, hrow, -⟩ :=
    Reachable.began (P := fun c => (rowAt c (1, ascii "m")).isSome = true) (by
      rintro s ⟨now, steady, users, rfl⟩ hsome
      cases hsome) hc h
  rcases tables_written_by_users h₁ hstep with hsame | ⟨sid, x, hmoves, hx, hpos, -⟩
  · rw [rowAt, hsame] at hrow
    exact absurd hrow hnot
  · exact ⟨c₁, c₂, sid, x, h₁, hmoves, hx, hpos, by simpa using hnot, hrow⟩

/-- **What servers say about messages**, in every run: a notification carries a message, and a reply
says `accepted` only of a batch of messages, under whose keys there are committed rows with their
receivers and contents (`Sound`, `Stored`). A row is acknowledged only after a session of its
receiver has handled a frame that says so. -/
theorem frames_truthful (hc : Reachable (cluster setup) c) :
    (∀ sid f, (sid, f) ∈ c.shared.history.pushed → f.Sound (Stored setup c.shared.sql.db)) ∧
    ∀ key row, rowAt c key = some row → row.acknowledged_at ≠ none → ∃ sid f x sender id,
      (sid, f) ∈ c.shared.history.handled ∧ c.shared.sessions.get sid = some x ∧ x.uid =
      row.receiver_uid ∧
      f.Acknowledges sender id ∧ key = messageKey setup sender id := by
  have hw := reachable_world hc
  refine ⟨fun _ _ hf => hw.pushed _ hf, fun key row hrow hack => ?_⟩
  obtain ⟨sid, f, sender, id, hf, ⟨y, hy, huid⟩, -, hack, hkey⟩ := hw.acked key row hrow hack
  obtain ⟨x, hx, rfl⟩ := Option.map_eq_some_iff.mp hy
  exact ⟨sid, f, x, sender, id, hf, hx, huid, hack, hkey⟩

set_option maxRecDepth 10000 in
theorem frames_truthful_sample : ∃ c sid f, Reachable (cluster Sample.setup) c ∧
    (sid, f) ∈ c.shared.history.handled ∧ f.id = .textChatMsgAck := by
  obtain ⟨c, hc, h⟩ := Sample.reaches (fun c => (rowAt c (1, ascii "m")).any fun row =>
    row.acknowledged_at.isSome) (by decide +kernel)
  obtain ⟨row, hrow, hack⟩ := (Option.any_eq_true ..).mp h
  obtain ⟨sid, f, x, sender, id, hf, -, -, hsays, -⟩ :=
    (frames_truthful hc).2 _ row hrow (Option.isSome_iff_ne_none.mp hack)
  exact ⟨c, sid, f, hc, hf, hsays.1⟩

/-- **Sessions and cached profiles are of users that exist**, in every state of every run. Every
entry under `ubaseinfo_` is a profile whose uid can be read, and the uid is a registered user's. -/
theorem users_exist (hc : Reachable (cluster setup) c) :
    (∀ sid x, c.shared.sessions.get sid = some x → 0 < x.uid → c.shared.sql.db.known x.uid = true) ∧
    (∀ key e uid, c.shared.redis key = some e → profileUid key e.value = some uid →
      c.shared.sql.db.known uid = true) ∧
    ∀ key e, c.shared.redis key = some e → USER_BASE_INFO.isPrefixOf key = true →
      ∃ uid, ProfileOf e.value uid ∧ c.shared.sql.db.known uid = true := by
  have hw := reachable_world hc
  refine ⟨fun sid x hx hpos => ?_, fun _ _ _ he hprofile => hw.known_of_profileUid he hprofile,
    hw.cache⟩
  have hy : c.shared.vital.core sid = some x.core := by
    simp only [Shared.vital, hx, Option.map_some]
  exact (hw.users sid x.core hy).2 hpos

set_option maxRecDepth 10000 in
theorem users_exist_sample : ∃ c x, Reachable (cluster Sample.setup) c ∧
    c.shared.sessions.get
    (Sample.sid "x") = some x ∧ x.uid = 1 ∧ c.shared.sql.db.known x.uid = true := by
  obtain ⟨c, hc, h⟩ :=
    Sample.reaches (fun c => (c.shared.sessions.get (Sample.sid "x")).any (·.uid == 1))
    (by decide +kernel)
  obtain ⟨x, hx, huid⟩ := (Option.any_eq_true ..).mp h
  have huid : x.uid = 1 := eq_of_beq huid
  exact ⟨c, x, hc, hx, huid, (users_exist hc).1 _ x hx (huid ▸ by decide)⟩

end DistributedChat.Chat
