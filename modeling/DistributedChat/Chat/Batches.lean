import DistributedChat.Chat.MessageIdentity

/-!
# What a batch of messages makes of the tables

`PersistTextMessages` goes through its batch message by message: it inserts the message unless its
key has a row, and reads the row back. `plan` says which writes this leaves for the commit, from
tables that stand still; `none` if a message conflicts with the row of its key.

1. The writes depend on the rows of the keys of the batch only, so they stay what they are while
   these rows are locked: `plan_congr`.
2. Applied to the tables, they add a row for each new message and leave the others: `adds_of_plan`.
3. A batch that is stored writes nothing: `plan_persisted`. A call without faults accepts it:
   `run_again`.
-/

namespace DistributedChat.Chat

open Lib
open Transactions (uncommitted view)

section Batch

variable (setup : Setup)

/-- The writes after `INSERT … ON DUPLICATE KEY UPDATE client_message_id=client_message_id`. -/
def inserted (db : Db) (ws : List Write) (m : TextMessage) : List Write :=
  if (engine.applyAll db ws).messages.get (keyOf setup m) = none then
    ws ++ [.insertMessage (keyOf setup m) m.row]
  else ws

/-- The row of the key has the receiver and the content of the message. -/
def Agrees (db : Db) (m : TextMessage) : Prop :=
  (db.messages.get (keyOf setup m)).map (fun row => (row.receiver_uid, row.content)) =
    some (m.receiver_uid, m.content)

instance (db : Db) (m : TextMessage) :
    Decidable (Agrees setup db m) := inferInstanceAs (Decidable (_ = _))

def planMessage (db : Db) (ws : List Write) (m : TextMessage) : Option (List Write) :=
  if Agrees setup (engine.applyAll db (inserted setup db ws m)) m then some
    (inserted setup db ws m) else none

def plan (db : Db) (ms : List TextMessage) :
    Option (List Write) := ms.foldlM (planMessage setup db) []

/-- The new tables have one more row for each key of the batch that had none, with the first message
of that key, not acknowledged, and stand otherwise as they were. Each message agrees with the row of
its key. -/
structure Adds (ms : List TextMessage) (db db' : Db) : Prop where
  others : db' = { db with messages := db'.messages }
  behind : db.messages.rows <+: db'.messages.rows
  rows : ∀ key, db'.messages.get key =
    (db.messages.get key).or ((ms.find? fun m => keyOf setup m = key).map TextMessage.row)
  agrees : ∀ m ∈ ms, Stored setup db' m

variable {setup} {db db' : Db} {ms : List TextMessage} {m : TextMessage} {ws : List Write}

/-! ## Row by row -/

theorem get_of_row {key : MessageKey}
    (h : engine.row db' (.message key) = engine.row db (.message key)) :
    db'.messages.get key = db.messages.get key := by
  have hinj : Function.Injective (Option.map RowValue.message) :=
    Option.map_injective fun _ _ => RowValue.message.inj
  exact hinj h

theorem get_applyAll_congr {key : MessageKey} (h : db'.messages.get key = db.messages.get key)
    (ws : List Write) :
    (engine.applyAll db' ws).messages.get key = (engine.applyAll db ws).messages.get key := by
  have hrow : engine.row db' (.message key) = engine.row db (.message key) :=
    congrArg (Option.map RowValue.message) h
  exact get_of_row (engine.row_applyAll_congr hrow ws)

theorem inserted_congr (h : db'.messages.get (keyOf setup m) = db.messages.get (keyOf setup m))
    (ws : List Write) : inserted setup db' ws m = inserted setup db ws m := by
  unfold inserted
  rw [get_applyAll_congr h]

theorem planMessage_congr (h : db'.messages.get (keyOf setup m) = db.messages.get (keyOf setup m))
    (ws : List Write) : planMessage setup db' ws m = planMessage setup db ws m := by
  have hagrees : ∀ ws, Agrees setup (engine.applyAll db' ws) m ↔
    Agrees setup (engine.applyAll db ws) m := by
    intro ws
    unfold Agrees
    rw [get_applyAll_congr h]
  unfold planMessage
  rw [inserted_congr h]
  exact if_congr (hagrees _) rfl rfl

/-- The batch is planned message by message, each over the writes of those before it. -/
theorem plan_append :
    plan setup db (ms ++ [m]) = (plan setup db ms).bind fun ws => planMessage setup db ws m := by
  simp only [plan, List.foldlM_append, List.foldlM_cons, List.foldlM_nil, bind_pure]
  rfl

/-- The plan depends on the rows of its own messages only. -/
theorem plan_congr
    (h : ∀ m ∈ ms, db'.messages.get (keyOf setup m) = db.messages.get (keyOf setup m)) :
    plan setup db' ms = plan setup db ms := by
  induction ms using List.reverseRecOn with
  | nil => rfl
  | append_singleton ms m ih =>
    have hm := h m List.mem_concat_self
    rw [plan_append, plan_append, ih fun m' hm' => h m' (List.mem_append_left _ hm')]
    simp only [planMessage_congr hm]

/-! ## What is added -/

theorem applyAll_insert (key : MessageKey) (row : MessageRow) :
    engine.applyAll db (ws ++ [.insertMessage key row]) =
      (Write.insertMessage key row).apply (engine.applyAll db ws) :=
  engine.applyAll_append db ws _

/-- A message is stored when a row under its key carries its receiver and content. -/
theorem stored_iff_agrees : Stored setup db m ↔ Agrees setup db m := by
  constructor
  · rintro ⟨row, hrow, hreceiver, hcontent⟩
    simp only [Agrees, keyOf, hrow, Option.map_some, hreceiver, hcontent]
  · exact stored_of_verified

theorem Adds.insert (h : Adds setup ms db db') (hnone : db'.messages.get (keyOf setup m) = none) :
    Adds setup (ms ++ [m]) db ((Write.insertMessage (keyOf setup m) m.row).apply db') := by
  have hget : ∀ key, ((Write.insertMessage (keyOf setup m) m.row).apply db').messages.get key =
      if key = keyOf setup m then some m.row else db'.messages.get key := Table.get_insert hnone
  refine ⟨?_, ?_, fun key => ?_, fun m' hm' => ?_⟩
  · rw [h.others]
    rfl
  · exact h.behind.trans ⟨_, (Table.rows_insert hnone).symm⟩
  · have hkey := h.rows key
    rw [hget, List.find?_append]
    by_cases heq : key = keyOf setup m
    · subst heq
      rw [hnone] at hkey
      obtain ⟨hdb, hms⟩ := Option.or_eq_none_iff.mp hkey.symm
      rw [hdb, Option.map_eq_none_iff.mp hms, if_pos rfl]
      simp
    · have hfind : [m].find? (fun m => decide (keyOf setup m = key)) = none := by simp [Ne.symm heq]
      rw [if_neg heq, hfind, Option.or_none, hkey]
  · rcases List.mem_append.mp hm' with hm' | hm'
    · obtain ⟨row, hrow, hfields⟩ := h.agrees m' hm'
      have hne : keyOf setup m' ≠ keyOf setup m := by
        intro heq
        rw [← heq, show db'.messages.get (keyOf setup m') = _ from hrow] at hnone
        cases hnone
      exact ⟨row, (hget _).trans ((if_neg hne).trans hrow), hfields⟩
    · cases List.mem_singleton.mp hm'
      exact ⟨m.row, (hget _).trans (if_pos rfl), rfl, rfl⟩

theorem Adds.repeated (h : Adds setup ms db db') (hstored : Stored setup db' m) :
    Adds setup (ms ++ [m]) db db' := by
  obtain ⟨row, hrow, -⟩ := id hstored
  have hrow : db'.messages.get (keyOf setup m) = some row := hrow
  refine ⟨h.others, h.behind, fun key => ?_, fun m' hm' => ?_⟩
  · rw [h.rows key, List.find?_append]
    by_cases heq : keyOf setup m = key
    · -- the row is one of before, or one of an earlier message
      have hsome := (h.rows key).symm.trans (heq ▸ hrow)
      cases hdb : db.messages.get key with
      | some _ => rfl
      | none =>
        rw [hdb, Option.none_or] at hsome
        obtain ⟨first, hfirst, -⟩ := Option.map_eq_some_iff.mp hsome
        rw [hfirst, Option.some_or]
    · have hfind : [m].find? (fun m => decide (keyOf setup m = key)) = none := by simp [heq]
      rw [hfind, Option.or_none]
  · rcases List.mem_append.mp hm' with hm' | hm'
    · exact h.agrees m' hm'
    · exact List.mem_singleton.mp hm' ▸ hstored

/-- A batch that has a plan adds its messages and touches no other row. -/
theorem adds_of_plan (h : plan setup db ms = some ws) :
    Adds setup ms db (engine.applyAll db ws) := by
  induction ms using List.reverseRecOn generalizing ws with
  | nil =>
    cases h
    exact ⟨rfl, List.prefix_rfl, fun key => by simp, nofun⟩
  | append_singleton ms m ih =>
    rw [plan_append] at h
    obtain ⟨ws₀, hws₀, hm⟩ := Option.bind_eq_some_iff.mp h
    obtain ⟨hagrees, hws⟩ := Option.ite_none_right_eq_some.mp hm
    cases hws
    have hadds := ih hws₀
    by_cases hnone : (engine.applyAll db ws₀).messages.get (keyOf setup m) = none
    · rw [inserted, if_pos hnone, applyAll_insert]
      exact hadds.insert hnone
    · rw [inserted, if_neg hnone] at hagrees ⊢
      exact hadds.repeated (stored_iff_agrees.mpr hagrees)

/-- A batch that is stored already needs no writes. -/
theorem plan_persisted (h : ∀ m ∈ ms, Stored setup db m) : plan setup db ms = some [] := by
  induction ms using List.reverseRecOn with
  | nil => rfl
  | append_singleton ms m ih =>
    have hstored := h m List.mem_concat_self
    obtain ⟨row, hrow, -⟩ := id hstored
    have hinserted : inserted setup db [] m = [] := by
      rw [inserted, if_neg]
      rw [show (engine.applyAll db []).messages.get (keyOf setup m) = _ from hrow]
      nofun
    rw [plan_append, ih fun m' hm' => h m' (List.mem_append_left _ hm'), Option.bind_some,
      planMessage,
      hinserted, Engine.applyAll_nil, if_pos (stored_iff_agrees.mp hstored)]

/-- No write takes a stored message away. -/
theorem Stored.applyAll (h : Stored setup db m) (ws : List Write) :
    Stored setup (engine.applyAll db ws) m := by
  induction ws generalizing db with
  | nil => exact h
  | cons w ws ih =>
    apply ih
    obtain ⟨row, hrow, hfields⟩ := id h
    cases w with
    | insertMessage key new =>
      refine ⟨row, (Table.get_insert_or ..).trans ?_, hfields⟩
      split
      · rename_i heq
        rw [← heq, hrow]
        rfl
      · exact hrow
    | acknowledge key receiver now =>
      have hget := Table.get_update db.messages key (.acknowledge receiver now)
        (messageKey setup m.sender_uid m.client_message_id)
      rw [hrow] at hget
      refine ⟨if messageKey setup m.sender_uid m.client_message_id =
        key then row.acknowledge receiver now
        else row, hget.trans ?_, ?_⟩
      · split <;> rfl
      · unfold MessageRow.acknowledge
        split_ifs <;> exact hfields
    | _ => exact h

/-- The message has a row, and its users are known. -/
def Persisted (setup : Setup) (db : Db) (m : TextMessage) : Prop :=
  Stored setup db m ∧ db.known m.sender_uid = true ∧ db.known m.receiver_uid = true

theorem Persisted.applyAll (h : Persisted setup db m) (ws : List Write) :
    Persisted setup (engine.applyAll db ws) m :=
  ⟨h.1.applyAll ws, (known_applyAll ..).trans h.2.1, (known_applyAll ..).trans h.2.2⟩

/-! ## A batch that is there already -/

variable {t : Worker} {s s' : Shared}

/-- A transaction that has seen `db` and written nothing, with nobody else in the way. -/
structure Alone (t : Worker) (db : Db) (s : Shared) : Prop where
  pending : s.sql.pending t = some []
  db : s.sql.db = db
  free : ∀ k, s.sql.Free t k

theorem Alone.lock (h : Alone t db s) (ks : List RowKey) :
    Alone t db { s with sql := s.sql.write engine t [] ks } := by
  obtain ⟨hpending, hdb, hfree⟩ := h
  refine ⟨?_, ?_, fun k => ?_⟩
  · simp only [Transactions.write, hpending, Function.update_self, List.append_nil]
  · simpa only [Transactions.write, hpending] using hdb
  · by_cases hk : k ∈ ks
    · exact Or.inr (by simp only [Transactions.write, hpending, if_pos hk])
    · simpa only [Transactions.Free, Transactions.write, hpending, if_neg hk] using hfree k

theorem Alone.run_query (h : Alone t db s) {q : Query} {v : q.Value} {ks : List RowKey}
    (hq : q.run setup s.now db = some (v, [], ks)) (hnote : s.noteCheck t q = s) :
    ∃ s', Prog.run (alone setup t (.arr [])) (query q) s = some (.ok v, s') ∧ Alone t db s' := by
  refine ⟨{ s with sql := s.sql.write engine t [] ks }, ?_, h.lock ks⟩
  have hview : s.sql.view engine t = db := by
    simp only [view, uncommitted, h.pending, h.db, Option.getD_some,
      Engine.applyAll_nil]
  have hperform :
    q.perform setup t .ok s = some (some v, { s with sql := s.sql.write engine t [] ks }) := by
    simp only [Query.perform, hview, hq, h.free, implies_true, if_true, hnote, orLost]
  show (alone setup t (.arr []) (.db (.query q)) s).bind _ = _
  rw [show alone setup t (.arr []) (.db (.query q)) s = _ from hperform]
  rfl

/-- Undisturbed, the loop finds every message of a stored batch. -/
theorem Alone.run_persistLoop (h : Alone t db s) (hms : ∀ m ∈ ms, Persisted setup db m) :
    ∃ s', Prog.run (alone setup t (.arr [])) (MysqlDao.persistLoop ms) s = some
    (.ok true, s') ∧ Alone t db s' := by
  induction ms generalizing s with
  | nil => exact ⟨s, rfl, h⟩
  | cons m ms ih =>
    obtain ⟨⟨row, hrow, hreceiver, hcontent⟩, hsender, hknown⟩ := hms m List.mem_cons_self
    have hinsert : (Query.insertMessage m).run setup s.now db = some (0, [],
        [.message (messageKey setup m.sender_uid m.client_message_id)]) := by
      simp only [Query.run, hsender, hknown, and_self, if_true, hrow, reduceCtorEq, if_false]
    obtain ⟨s₁, hrun₁, h₁⟩ := h.run_query hinsert (by cases t <;> rfl)
    have hverify : (Query.verifyMessage m.sender_uid m.client_message_id).run setup s₁.now db =
        some (some (m.receiver_uid, m.content), [],
          [.message (messageKey setup m.sender_uid m.client_message_id)]) := by
      simp only [Query.run, hrow, Option.map_some, hreceiver, hcontent]
    obtain ⟨s₂, hrun₂, h₂⟩ := h₁.run_query hverify (by cases t <;> rfl)
    obtain ⟨s₃, hrun₃, h₃⟩ := ih h₂ fun m' hm' => hms m' (List.mem_cons_of_mem m hm')
    refine ⟨s₃, ?_, h₃⟩
    unfold MysqlDao.persistLoop
    rw [Task.run_andThen hrun₁, Task.run_andThen hrun₂, if_pos rfl]
    exact hrun₃

/-- **Sending a stored batch again succeeds** and leaves the database as it is. -/
theorem run_again (hne : ms ≠ []) (hauto : s.sql.pending t = none) (hfree : ∀ k, s.sql.Free t k)
    (hms : ∀ m ∈ ms, Persisted setup s.sql.db m) :
    ∃ s', Prog.run (alone setup t (.arr [])) (MysqlDao.PersistTextMessages ms) s = some
    (.ok true, s') ∧
      s'.sql.db = s.sql.db := by
  have halone : Alone t s.sql.db { s with sql := s.sql.setAutoCommit engine t false } := by
    refine ⟨?_, rfl, hfree⟩
    simp [Transactions.setAutoCommit, uncommitted, hauto]
  obtain ⟨s₁, hloop, h₁⟩ := halone.run_persistLoop hms
  have hbody : Prog.run (alone setup t (.arr [])) (MysqlDao.undone do
      setAutoCommit false
      if (← MysqlDao.persistLoop ms) then do
        commit
        setAutoCommit true
        return true
      else do
        rollback
        setAutoCommit true
        return false) s = some (.ok true,
        { s₁ with sql := (s₁.sql.commit engine t).setAutoCommit engine t true }) := by
    refine Task.run_recover ((Task.run_andThen rfl).trans ?_)
    exact (Task.run_andThen hloop).trans rfl
  refine ⟨{ s₁ with sql := ((s₁.sql.commit engine t).setAutoCommit engine t true).reset t }, ?_, ?_⟩
  · unfold MysqlDao.PersistTextMessages
    rw [if_neg hne]
    exact (Task.run_andThen (a := true) rfl).trans (Task.run_ensuring hbody rfl)
  · simp [Transactions.reset, Transactions.setAutoCommit, Transactions.commit, view,
      Transactions.finish, uncommitted, h₁.pending, h₁.db]

end Batch

end DistributedChat.Chat
