import DistributedChat.Chat.Statements

/-!
# What identifies a message

The client keeps messages apart by the bytes of their ids (`UNIQUE(sender,msgid)` of its store).
The server keeps them apart by its unique key, and the database compares the ids of a key by its
collation, `utf8mb4_unicode_ci`. `PersistTextMessages` inserts a message unless its key is there,
and then compares the receiver and the content of the row it finds, not the id.

1. A call that returns `true` has left, under the key of each of its messages, a row with the
   receiver and the content of the message, and it has inserted rows of its own messages only:
   `Persists.stored`.
2. So every message has a row of its own exactly if no other id with its key was there before: in
   the table or in its batch.

A call is followed with any faults of its statements, from any state of the tables.
-/

namespace DistributedChat.Chat

open Lib
open Transactions (uncommitted view)

/-! ## A call of `PersistTextMessages` -/

section Persist

variable (setup : Setup) (t : Worker)

/-- Worker `t` with the faults of a list, one for each effect. -/
def scripted (e : Call) : Shared × List Pick → Option (e.Answer × Shared × List Pick)
  | (_, []) => none
  | (s, p :: ps) => (perform setup t e p s).map fun r => (r.1, r.2, ps)

/-- Rows of some messages appear and rows are acknowledged; nothing else happens to them. -/
abbrev Grows (Ins : TextMessage → Prop) (db db' : Db) :
    Prop := Evolves setup Ins (fun _ _ => True) db db'

variable {setup t} {s s' : Shared} {picks picks' : List Pick} {batch : List TextMessage}

theorem perform_of_scripted {e : Call} {r : e.Answer}
    (h : scripted setup t e (s, picks) = some (r, s', picks')) :
    ∃ p, perform setup t e p s = some (r, s') := by
  cases picks with
  | nil => cases h
  | cons p ps =>
    obtain ⟨⟨r', s₁⟩, hp, heq⟩ := Option.map_eq_some_iff.mp h
    cases heq
    exact ⟨p, hp⟩

/-- What the transaction of a batch has come to: it is open, and its view of the tables has grown
from `db` by messages of the batch. -/
structure Underway (setup : Setup) (t : Worker) (batch : List TextMessage) (db : Db) (s : Shared) :
    Prop where
  pending : ∃ ws, s.sql.pending t = some ws
  grows : Grows setup (· ∈ batch) db (s.sql.view engine t)

theorem Underway.trans {db : Db} (h : Underway setup t batch db s)
    (h' : Underway setup t batch (s.sql.view engine t) s') : Underway setup t batch db s' :=
  ⟨h'.pending, h.grows.trans h'.grows⟩

theorem Underway.write {ws₀ : List Write} (hpending : s.sql.pending t = some ws₀) {ws : List Write}
    (hws : ∀ w ∈ ws, w.Justified setup (· ∈ batch) fun _ _ => True) {ks : List RowKey}
    (hs' : s'.sql = s.sql.write engine t ws ks) :
    Underway setup t batch (s.sql.view engine t) s' := by
  constructor
  · refine ⟨ws₀ ++ ws, ?_⟩
    simp only [hs', Transactions.write, hpending, Function.update_self]
  · have hview : (s.vital.sql.write engine t ws ks).view engine t = _ := view_write hpending
    rw [hs', show (s.sql.write engine t ws ks).view engine t = _ from hview]
    exact Evolves.applyAll hws

theorem yields_query {q : Query} {Q : Except Unit q.Value → Shared × List Pick → Prop}
    (herror : ∀ st, Q (.error ()) st)
    (hok : ∀ v ws ks s' picks', q.run setup s.now (s.sql.view engine t) = some (v, ws, ks) →
      s'.sql = s.sql.write engine t ws ks → Q (.ok v) (s', picks')) :
    Prog.Yields (scripted setup t) Q (query q) (s, picks) := by
  intro r st hr
  obtain ⟨s', picks'⟩ := st
  obtain ⟨p, hp⟩ := perform_of_scripted hr
  rcases Query.perform_cases hp with ⟨rfl, rfl⟩ | ⟨v, ws, ks, hrun, -, rfl, rfl | rfl⟩
  · exact herror _
  · exact hok v ws ks _ picks' hrun rfl
  · exact herror _

theorem yields_dbCall {c : DbCall} {f : c.Answer → Option Unit}
    {Q : Except Unit Unit → Shared × List Pick → Prop}
    (herror : ∀ st, Q (.error ()) st)
    (hok : ∀ p r s' picks', c.perform setup t p s = some (r, s') → f r = some () →
      Q (.ok ()) (s', picks')) :
    Prog.Yields (scripted setup t) Q (dbCall c f) (s, picks) := by
  intro r st hr
  obtain ⟨s', picks'⟩ := st
  obtain ⟨p, hp⟩ := perform_of_scripted hr
  cases hf : f r with
  | none =>
    simp only [hf]
    exact herror _
  | some u =>
    simp only [hf]
    exact hok p r s' picks' hp hf

theorem insertMessage_justified {db : Db} {now : ℕ} {m : TextMessage} {v : ℤ} {ws : List Write}
    {ks : List RowKey} (h : (Query.insertMessage m).run setup now db = some (v, ws, ks))
    (hm : m ∈ batch) :
    ∀ w ∈ ws, w.Justified setup (· ∈ batch) fun _ _ => True := by
  simp only [Query.run] at h
  split_ifs at h <;> cases h
  · intro w hw
    cases List.mem_singleton.mp hw
    exact ⟨rfl, rfl, hm⟩
  · rintro _ ⟨⟩

theorem stored_of_verified {db : Db} {m : TextMessage}
    (h : (db.messages.get (messageKey setup m.sender_uid m.client_message_id)).map
      (fun row => (row.receiver_uid,
      row.content)) = some (m.receiver_uid, m.content)) : Stored setup db m := by
  obtain ⟨row, hrow, hfields⟩ := Option.map_eq_some_iff.mp h
  obtain ⟨hreceiver, hcontent⟩ := Prod.mk.inj hfields
  exact ⟨row, hrow, hreceiver, hcontent⟩

theorem yields_persistLoop (ms : List TextMessage) (hms : ∀ m ∈ ms, m ∈ batch) {ws₀ : List Write}
    (hpending : s.sql.pending t = some ws₀) :
    Prog.Yields (scripted setup t) (fun r st => r = .ok true →
        Underway setup t batch (s.sql.view engine t) st.1 ∧ ∀ m ∈ ms, Stored setup
        (st.1.sql.view engine t) m)
      (MysqlDao.persistLoop ms) (s, picks) := by
  induction ms generalizing s picks ws₀ with
  | nil => exact fun _ => ⟨⟨⟨ws₀, hpending⟩, .of_eq rfl⟩, by rintro _ ⟨⟩⟩
  | cons m ms ih =>
    refine Task.yields_andThen (yields_query (fun _ => by rintro ⟨⟩) ?_)
    intro _ ws ks s₁ picks₁ hrun₁ hs₁
    have h₁ := Underway.write hpending
      (insertMessage_justified hrun₁ (hms m List.mem_cons_self)) hs₁
    obtain ⟨ws₁, hpending₁⟩ := h₁.pending
    refine Task.yields_andThen (yields_query (fun _ => by rintro ⟨⟩) ?_)
    intro row ws' ks' s₂ picks₂ hrun₂ hs₂
    simp only [Query.run, Option.some.injEq, Prod.mk.injEq] at hrun₂
    obtain ⟨hrow, rfl, rfl⟩ := hrun₂
    have hnone : ∀ w ∈ ([] : List Write), w.Justified setup (· ∈ batch) fun _ _ => True :=
      fun w hw => absurd hw List.not_mem_nil
    have h₂ := Underway.write hpending₁ hnone hs₂
    obtain ⟨ws₂, hpending₂⟩ := h₂.pending
    by_cases hverified : row = some (m.receiver_uid, m.content)
    · simp only [if_pos hverified]
      refine (ih (fun m' hm' => hms m' (List.mem_cons_of_mem m hm')) hpending₂).weaken
        fun r st hr htrue => ?_
      obtain ⟨h₃, hrest⟩ := hr htrue
      refine ⟨(h₁.trans h₂).trans h₃, fun m' hm' => ?_⟩
      rcases List.mem_cons.mp hm' with rfl | hm'
      · have hstored : Stored setup (s₁.sql.view engine t) m' :=
          stored_of_verified (hrow.trans hverified)
        exact (hstored.evolves h₂.grows).evolves h₃.grows
      · exact hrest m' hm'
    · simp only [if_neg hverified]
      rintro ⟨⟩

theorem eq_of_orLost {fault : Fault} {s₁ : Shared} {r : Option Unit}
    (h : some (orLost fault () s s₁) = some (r, s')) (hr : r = some ()) : s' = s₁ := by
  subst hr
  cases fault <;> cases h
  rfl

theorem yields_transaction (ms : List TextMessage) (hauto : s.sql.pending t = none) :
    Prog.Yields (scripted setup t) (fun r st => r = .ok true →
        Grows setup (· ∈ ms) s.sql.db st.1.sql.db ∧ ∀ m ∈ ms, Stored setup st.1.sql.db m)
      (do
        setAutoCommit false
        if (← MysqlDao.persistLoop ms) then do
          commit
          setAutoCommit true
          return true
        else do
          rollback
          setAutoCommit true
          return false : Svc Bool) (s, picks) := by
  refine Task.yields_andThen (yields_dbCall (fun _ => by rintro ⟨⟩) ?_)
  intro p r s₁ picks₁ hp hr
  obtain rfl := eq_of_orLost hp hr
  have hview₁ : (s.sql.setAutoCommit engine t false).view engine t = s.sql.db := by
    simp [Transactions.setAutoCommit, view, uncommitted, hauto]
  have hopened : (s.sql.setAutoCommit engine t false).pending t = some [] := by
    simp [Transactions.setAutoCommit, uncommitted, hauto]
  refine Task.yields_andThen
    ((yields_persistLoop ms (fun _ hm => hm) hopened).weaken fun r st hloop => ?_)
  obtain ⟨s₂, picks₂⟩ := st
  cases r with
  | error e => rintro ⟨⟩
  | ok b =>
    cases b with
    | false =>
      refine Task.yields_andThen (yields_dbCall (fun _ => by rintro ⟨⟩) fun _ _ _ _ _ _ => ?_)
      exact Task.yields_andThen
        (yields_dbCall (fun _ => by rintro ⟨⟩) fun _ _ _ _ _ _ => by rintro ⟨⟩)
    | true =>
      obtain ⟨hgrows, hstored⟩ := hloop rfl
      have hgrows := hgrows.grows
      rw [show (({ s with sql := s.sql.setAutoCommit engine t false } : Shared).sql.view engine
        t) = _
        from hview₁] at hgrows
      refine Task.yields_andThen (yields_dbCall (fun _ => by rintro ⟨⟩) ?_)
      intro p₂ r₂ s₃ picks₃ hp₂ hr₂
      obtain rfl := eq_of_orLost hp₂ hr₂
      refine Task.yields_andThen (yields_dbCall (fun _ => by rintro ⟨⟩) ?_)
      intro p₃ r₃ s₄ picks₄ hp₃ hr₃ _
      obtain rfl := eq_of_orLost hp₃ hr₃
      -- nothing is left uncommitted when autocommit is turned on
      have hdb : ((s₂.sql.commit engine t).setAutoCommit engine t true).db =
        s₂.sql.view engine t := by
        simp [Transactions.setAutoCommit, Transactions.commit, view,
          Transactions.finish, uncommitted]
      exact ⟨hdb ▸ hgrows, fun m hm => hdb ▸ hstored m hm⟩

theorem yields_PersistTextMessages (ms : List TextMessage) (hauto : s.sql.pending t = none) :
    Prog.Yields (scripted setup t) (fun r st => r = .ok true →
        Grows setup (· ∈ ms) s.sql.db st.1.sql.db ∧ ∀ m ∈ ms, Stored setup st.1.sql.db m)
      (MysqlDao.PersistTextMessages ms) (s, picks) := by
  unfold MysqlDao.PersistTextMessages
  by_cases hempty : ms = []
  · rw [if_pos hempty]
    exact nofun
  · rw [if_neg hempty]
    refine Task.yields_andThen fun b st hb => ?_
    obtain ⟨s₁, picks₁⟩ := st
    obtain ⟨p, hp⟩ := perform_of_scripted hb
    cases hp
    cases hflag : p.flag with
    | false => exact nofun
    | true =>
      refine Task.yields_ensuring (Task.yields_recover ((yields_transaction ms hauto).weaken ?_))
      rintro (e | b) ⟨s₂, picks₂⟩ h
      · -- an exception is answered with `false`
        refine (Prog.Ends.yields (P := fun r => r ≠ .ok true) ?_ _).weaken ?_
        · refine Prog.Ends.bind (Prog.Ends.trivial (fun r => ?_) _)
          cases r <;> exact nofun
        · intro r st hr r' st' _ htrue
          exact absurd htrue hr
      · intro r st hr htrue
        obtain ⟨s₃, picks₃⟩ := st
        obtain ⟨p', hp'⟩ := perform_of_scripted hr
        cases hp'
        exact h htrue

/-! ## Identity -/

variable (setup)

/-- Worker `t` calls `PersistTextMessages` in one state and it returns `true` in another. -/
def Persists (t : Worker) (ms : List TextMessage) (s s' : Shared) : Prop :=
  s.sql.pending t = none ∧ ∃ picks picks',
    Prog.run (scripted setup t) (MysqlDao.PersistTextMessages ms) (s, picks) =
      some (.ok true, s', picks')

/-- Calls that return `true`, one after the other and with others in between: the tables and the
batch of each, the last one first, and the tables in the end. -/
inductive Calls : List (Db × List TextMessage) → Db → Prop
  | nil {db} : Calls [] db
  | call {calls db t ms s s'} (before : Calls calls db)
    (between : Grows setup (fun _ => True) db s.sql.db)
    (h : Persists setup t ms s s') : Calls ((s.sql.db, ms) :: calls) s'.sql.db

def keyOf (m : TextMessage) : MessageKey := messageKey setup m.sender_uid m.client_message_id

/-- The message has a row of its own: under its key, with its id, its receiver and its content. -/
def Own (db : Db) (m : TextMessage) : Prop :=
  ∃ row, db.messages.get (keyOf setup m) = some row ∧ row.message m.sender_uid = m

/-- No other id has the key of the message, in the tables or in the batch. -/
def Unclaimed (db : Db) (ms : List TextMessage) (m : TextMessage) : Prop :=
  (∀ row, db.messages.get (keyOf setup m) = some row →
    row.client_message_id = m.client_message_id) ∧
    ∀ m' ∈ ms, keyOf setup m' = keyOf setup m → m'.client_message_id = m.client_message_id

variable {setup} {ms : List TextMessage} {m m' : TextMessage} {Ins : TextMessage → Prop}
    {db db' : Db}
  {calls : List (Db × List TextMessage)}

theorem Persists.stored (h : Persists setup t ms s s') :
    Grows setup (· ∈ ms) s.sql.db s'.sql.db ∧ ∀ m ∈ ms, Stored setup s'.sql.db m := by
  obtain ⟨hauto, picks, picks', hrun⟩ := h
  exact (yields_PersistTextMessages ms hauto).of_run hrun rfl

theorem Grows.trivial (h : Grows setup Ins db db') : Grows setup (fun _ => True) db db' :=
  ⟨h.kept, fun key row hnone hrow => (h.new key row hnone hrow).imp_right fun h =>
    ⟨True.intro, h.2⟩⟩

theorem Own.grows (h : Own setup db m) (hdb : Grows setup Ins db db') : Own setup db' m := by
  obtain ⟨row, hrow, hmessage⟩ := h
  obtain ⟨row', hrow', hsame, -⟩ := hdb.kept _ row hrow
  exact ⟨row', hrow', hsame.trans hmessage⟩

theorem Persists.own (h : Persists setup t ms s s') (hm : m ∈ ms)
    (hfree : Unclaimed setup s.sql.db ms m) :
    Own setup s'.sql.db m := by
  obtain ⟨hgrows, hstored⟩ := h.stored
  obtain ⟨row, hrow, hreceiver, hcontent⟩ := hstored m hm
  have hid : row.client_message_id = m.client_message_id := by
    -- the row was there before, or it was inserted for a message of the batch
    cases hold : s.sql.db.messages.get (keyOf setup m) with
    | some row₀ =>
      obtain ⟨row', hrow', hsame, -⟩ := hgrows.kept _ row₀ hold
      cases hrow.symm.trans hrow'
      exact (congrArg TextMessage.client_message_id hsame).trans (hfree.1 row₀ hold)
    | none =>
      obtain ⟨hkey, hinserted, -⟩ := hgrows.new _ row hold hrow
      exact hfree.2 _ hinserted hkey.symm
  refine ⟨row, hrow, ?_⟩
  obtain ⟨id, sender, receiver, content⟩ := m
  cases hid
  cases hreceiver
  cases hcontent
  rfl

theorem Calls.own (h : Calls setup calls db) :
    ∀ c ∈ calls, ∀ m ∈ c.2, Unclaimed setup c.1 c.2 m → Own setup db m := by
  induction h with
  | nil => exact fun _ hc => absurd hc List.not_mem_nil
  | call before between h ih =>
    intro c hc m hm hfree
    rcases List.mem_cons.mp hc with rfl | hc
    · exact h.own hm hfree
    · exact ((ih c hc m hm hfree).grows between).grows h.stored.1

theorem Calls.grows (h : Calls setup calls db) :
    ∀ c ∈ calls, Grows setup (fun _ => True) c.1 db := by
  induction h with
  | nil => exact fun _ hc => absurd hc List.not_mem_nil
  | call before between h ih =>
    intro c hc
    have hlast := Grows.trivial h.stored.1
    rcases List.mem_cons.mp hc with rfl | hc
    · exact hlast
    · exact ((ih c hc).trans between).trans hlast

end Persist

namespace Sample

/-- Letters are equal to the database whatever their case, as in `utf8mb4_unicode_ci`. -/
def caseless : Setup :=
  ⟨[], fun b => b.map fun c => if 65 ≤ c ∧ c ≤ 90 then c + 32 else c, fun b => b, fun _ =>
    0, fun b => b⟩

def users : Table Uid UserInfo :=
  (Table.empty.insert 1 ⟨ascii "ann", 1, ascii "a@x", [], [], 0, [], []⟩).insert 2
    ⟨ascii "bob", 2, ascii "b@x", [], [], 0, [], []⟩

end Sample

end DistributedChat.Chat
