import DistributedChat.Chat.Batches

/-!
# Calls that store and acknowledge messages

Calls of `PersistTextMessages` and `AcknowledgeTextMessages` on any number of connections,
interleaved at every statement, each of which may fail; the tables begin in any state. A call is
followed from its beginning to its result, with the tables before and after each of its effects.

A monitor follows the stages of a call of `PersistTextMessages`: the transaction is opened, its
messages are inserted and verified one by one, it is committed and the connection restored; or it is
undone. The programs keep to it: `keeps_run`.
-/

namespace DistributedChat.Chat.Persistence

open Lib

/-! ## Calls and their effects -/

inductive Request
  | persist (messages : List TextMessage)
  | acknowledge (receiver_uid sender_uid : Uid) (client_message_ids : List Bytes)

def Request.program : Request → Svc Bool
  | .persist messages => MysqlDao.PersistTextMessages messages
  | .acknowledge receiver sender ids => MysqlDao.AcknowledgeTextMessages receiver sender ids

/-- A call begins, performs effects and returns. -/
inductive Act
  | begins (request : Request)
  | performs (e : Call)
  | returns (result : Except Unit Bool)

abbrev Act.Answer : Act → Type
  | .performs e => e.Answer
  | _ => Unit

def Request.run (request : Request) : Prog Act Act.Answer Unit :=
  .call (.begins request) fun _ =>
    (Prog.embed Act.performs request.program : Prog Act Act.Answer (Except Unit Bool)).bind
      fun result =>
      .call (.returns result) fun _ => .ret ()

/-- No connection is free, or the call of the connection throws. -/
def failed : (c : DbCall) → c.Answer → Bool
  | .getConnection, available => !available
  | .returnConnection, _ => false
  | .setAutoCommit _, r => r.isNone
  | .commit, r => r.isNone
  | .rollback, r => r.isNone
  | .query _, r => r.isNone

/-- An effect of a call on the database, with the tables before and after. -/
structure Effect where
  call : DbCall
  failed : Bool
  before : Db
  after : Db

structure Invocation where
  request : Request
  /-- The requests that had returned `true` when the call began. -/
  earlier : List Request
  effects : List Effect

def Invocation.extend (call : Invocation) (x : Effect) :
    Invocation := { call with effects := call.effects ++ [x] }

structure Returned where
  call : Invocation
  result : Except Unit Bool

def Returned.accepted (x : Returned) : Bool :=
  match x.result with
  | .ok ok => ok
  | .error _ => false

structure Desk where
  shared : Shared
  /-- The call a worker makes. -/
  current : Worker → Invocation
  returned : List Returned

/-- The requests that have returned `true`. -/
def Desk.accepted (d : Desk) : List Request :=
  (d.returned.filter Returned.accepted).map fun x => x.call.request

section System

variable (setup : Setup)

def Desk.note (d : Desk) (t : Worker) (c : DbCall) (r : c.Answer) (s' : Shared) : Desk :=
  { d with
    shared := s'
    current := Function.update d.current t
      ((d.current t).extend ⟨c, failed c r, d.shared.sql.db, s'.sql.db⟩) }

def Desk.act (t : Worker) (a : Act) (p : Pick) (d : Desk) : Option (a.Answer × Desk) :=
  match a with
  | .begins request =>
    some ((), { d with current := Function.update d.current t ⟨request, d.accepted, []⟩ })
  | .performs (.db c) => (c.perform setup t p d.shared).map fun rs => (rs.1, d.note t c rs.1 rs.2)
  | .performs _ => none
  | .returns result => some ((), { d with returned := ⟨d.current t, result⟩ :: d.returned })

/-- Calls with non-empty batches on any number of connections, from any tables. -/
def messaging : System Worker Act Act.Answer Unit Desk where
  init d := (∀ t, d.shared.sql.pending t = none) ∧ (∀ k, d.shared.sql.locks k = none) ∧
    d.returned = []
  exec t a d r d' := ∃ p, d.act setup t a p = some (r, d')
  start _ _ p := ∃ request, request ≠ .persist [] ∧ p = Request.run request
  stop _ p d d' := (∃ a, p = .ret a) ∧ d' = d
  env d d' := ∃ s', Env d.shared s' ∧ d' = { d with shared := s' }

end System

/-! ## The stages of a call -/

inductive Stage
  | idle
  | acknowledging
  /-- The transaction has not begun. -/
  | ready
  /-- The messages `done` of the batch are inserted and verified. -/
  | opened (done : List TextMessage)
  | verifying (done : List TextMessage) (m : TextMessage)
  /-- The transaction is to be undone. -/
  | aborted
  | undone
  | committed
  /-- The transaction is committed and autocommit is on. -/
  | restored
  /-- The transaction is committed but autocommit could not be turned on. -/
  | spoilt
  /-- The commit has failed. -/
  | unsure
  deriving DecidableEq

/-- The call will return `false`. -/
def Stage.over : Stage → Bool
  | .aborted | .undone | .spoilt | .unsure => true
  | _ => false

/-- The calls of the connection a call of a batch makes, stage by stage. -/
inductive Allowed (batch : List TextMessage) : Stage → DbCall → Prop
  | acknowledge {c : DbCall} : Allowed batch .acknowledging c
  | borrow : Allowed batch .ready .getConnection
  | open : Allowed batch .ready (.setAutoCommit false)
  | insert {done : List TextMessage} {m : TextMessage} (h : m ∈ batch) :
    Allowed batch (.opened done) (.query (.insertMessage m))
  | verify {done : List TextMessage} {m : TextMessage} :
    Allowed batch (.verifying done m) (.query (.verifyMessage m.sender_uid m.client_message_id))
  | commit : Allowed batch (.opened batch) .commit
  | restore : Allowed batch .committed (.setAutoCommit true)
  | rollback {stage : Stage} (h : stage.over = true) : Allowed batch stage .rollback
  | close {stage : Stage} (h : stage.over = true) (hne : stage ≠ .aborted) :
    Allowed batch stage (.setAutoCommit true)
  | giveBack {stage : Stage} (h : stage.over = true ∨ stage = .restored) :
    Allowed batch stage .returnConnection

theorem Allowed.ne_idle {batch : List TextMessage} {stage : Stage} {c : DbCall}
    (h : Allowed batch stage c) :
    stage ≠ .idle := by
  rintro rfl
  cases h with
  | rollback hover | close hover _ => cases hover
  | giveBack hover => rcases hover with hover | hover <;> cases hover

def Stage.next : Stage → (c : DbCall) → c.Answer → Stage
  | .ready, .getConnection, available => if available then .ready else .undone
  | .ready, .setAutoCommit _, r => if r.isSome then .opened [] else .undone
  | .opened done, .query (.insertMessage m), r => if r.isSome then .verifying done m else .aborted
  | .verifying done m, .query (.verifyMessage _ _), r =>
    if r = some (some (m.receiver_uid, m.content)) then .opened (done ++ [m]) else .aborted
  | .opened _, .commit, r => if r.isSome then .committed else .unsure
  | .committed, .setAutoCommit _, r => if r.isSome then .restored else .spoilt
  | .aborted, .rollback, r => if r.isSome then .undone else .aborted
  | .aborted, .returnConnection, _ => .undone
  | stage, _, _ => stage

def Stage.Returns : Stage → Bool → Prop
  | .acknowledging, _ => True
  | .restored, ok => ok = true
  | .undone, ok => ok = false
  | .spoilt, ok => ok = false
  | .unsure, ok => ok = false
  | _, _ => False

structure Progress where
  batch : List TextMessage
  /-- The call has a connection. -/
  borrowed : Bool
  stage : Stage

def Request.progress : Request → Progress
  | .persist messages => ⟨messages, false, .ready⟩
  | .acknowledge _ _ _ => ⟨[], false, .acknowledging⟩

/-- Whether there is a connection when a call of it is made, and after it. -/
def holding : DbCall → Bool
  | .getConnection => false
  | _ => true

def stillHolding : (c : DbCall) → c.Answer → Bool
  | .getConnection, available => available
  | .returnConnection, _ => false
  | _, _ => true

def Progress.next (g : Progress) (c : DbCall) (r : c.Answer) : Progress :=
  ⟨g.batch, stillHolding c r, g.stage.next c r⟩

def following : Monitor Act Act.Answer where
  Ghost := Progress
  allow g
    | .begins _ => g.stage = .idle ∧ g.borrowed = false
    | .performs (.db c) => g.borrowed = holding c ∧ Allowed g.batch g.stage c
    | .performs _ => False
    | .returns result => g.borrowed = false ∧ ∃ ok, result = .ok ok ∧ g.stage.Returns ok
  answer _ _ _ := True
  next g
    | .begins request, _ => request.progress
    | .performs (.db c), r => g.next c r
    | .performs _, _ => g
    | .returns _, _ => ⟨[], false, .idle⟩
  final g := g.stage = .idle ∧ g.borrowed = false

/-! ## The programs keep to the stages -/

section Programs

abbrev Keeps (g : Progress) {α : Type} (p : Svc α) (Q : Progress → Except Unit α → Prop) : Prop :=
  Meets (following.pull Act.performs) Q g p

variable {batch done : List TextMessage} {stage : Stage}

variable {α : Type}

theorem keeps_dbCall {g : Progress} {c : DbCall} {f : c.Answer → Option α}
    {Q : Progress → Except Unit α → Prop}
    (hborrowed : g.borrowed = holding c) (hallowed : Allowed g.batch g.stage c)
    (h : ∀ r, Q (g.next c r) (match f r with | none => .error () | some a => .ok a)) :
    Keeps g (dbCall c f) Q :=
  ⟨⟨hborrowed, hallowed⟩, fun r _ => h r⟩

/-- A message counts as verified only when the row that was read carries its receiver and content.
-/
theorem next_verify {m : TextMessage} {row : Option (Uid × Bytes)} :
    (Stage.verifying done m).next (.query (.verifyMessage m.sender_uid m.client_message_id))
    (some row) =
      if row = some (m.receiver_uid, m.content) then .opened (done ++ [m]) else .aborted := by
  simp only [Stage.next, Option.some.injEq]

/-- How the loop ends: with the whole batch, or with a transaction that is to be undone. -/
def LoopEnds (batch all : List TextMessage) (g : Progress) (r : Except Unit Bool) : Prop :=
  g = ⟨batch, true, if r = .ok true then .opened all else .aborted⟩

/-- The loop goes through the batch in order and stops at the first message that does not agree. -/
theorem keeps_persistLoop {ms : List TextMessage} (hms : ∀ m ∈ ms, m ∈ batch) :
    Keeps ⟨batch, true, .opened done⟩ (MysqlDao.persistLoop ms) (LoopEnds batch (done ++ ms)) := by
  induction ms generalizing done with
  | nil =>
    refine Meets.pure ?_
    rw [LoopEnds, if_pos rfl, List.append_nil]
  | cons m ms ih =>
    refine Meets.andThen (keeps_dbCall rfl (.insert (hms m List.mem_cons_self)) fun r => ?_)
    cases r with
    | none => rfl
    | some v =>
      refine Meets.andThen (keeps_dbCall rfl .verify fun r => ?_)
      cases r with
      | none => rfl
      | some row =>
        show Keeps (Progress.mk batch true ((Stage.verifying done m).next ..)) _ _
        rw [next_verify]
        by_cases hrow : row = some (m.receiver_uid, m.content)
        · simp only [if_pos hrow]
          have h := @ih (done ++ [m]) fun m' hm' => hms m' (List.mem_cons_of_mem m hm')
          rw [List.append_assoc] at h
          exact h
        · simp only [if_neg hrow]
          exact Meets.pure rfl

/-- Stages in which a call returns a value. -/
def Settled (batch : List TextMessage) (g : Progress) (r : Except Unit Bool) : Prop :=
  ∃ stage, g = ⟨batch, true, stage⟩ ∧
    ((stage = .restored ∧ r = .ok true) ∨ (stage.over = true ∧ r ≠ .ok true))

/-- A rollback that succeeds leaves no aborted transaction behind. -/
theorem keeps_rollback (hover : stage.over = true) : Keeps ⟨batch, true, stage⟩ rollback fun g r =>
      ∃ stage', g = ⟨batch, true, stage'⟩ ∧ stage'.over = true ∧
      (r = .ok () → stage' ≠ .aborted) := by
  refine keeps_dbCall rfl (.rollback hover) fun r => ⟨_, rfl, ?_⟩
  cases stage <;> cases hover <;> cases r <;> exact ⟨rfl, by simp [Stage.next]⟩

theorem keeps_close (hover : stage.over = true) (hne : stage ≠ .aborted) :
    Keeps ⟨batch, true, stage⟩ (setAutoCommit true) fun g _ => g = ⟨batch, true, stage⟩ := by
  refine keeps_dbCall rfl (.close hover hne) fun r => ?_
  cases stage with
  | aborted => exact absurd rfl hne
  | undone | spoilt | unsure => rfl
  | _ => cases hover

theorem keeps_transaction :
    Keeps ⟨batch, true, .ready⟩ (do
      setAutoCommit false
      if (← MysqlDao.persistLoop batch) then do
        commit
        setAutoCommit true
        return true
      else do
        rollback
        setAutoCommit true
        return false : Svc Bool) (Settled batch) := by
  refine Meets.andThen (keeps_dbCall rfl .open fun r => ?_)
  cases r with
  | none => exact ⟨.undone, rfl, Or.inr ⟨rfl, nofun⟩⟩
  | some u =>
    refine Meets.andThen ((keeps_persistLoop fun _ hm => hm).weaken fun g r hr => ?_)
    subst hr
    cases r with
    | error e => exact ⟨.aborted, rfl, Or.inr ⟨rfl, nofun⟩⟩
    | ok b =>
      cases b with
      | false =>
        refine Meets.andThen ((keeps_rollback rfl).weaken ?_)
        rintro g r ⟨stage, rfl, hover, hne⟩
        cases r with
        | error e => exact ⟨stage, rfl, Or.inr ⟨hover, nofun⟩⟩
        | ok u =>
          refine Meets.andThen ((keeps_close hover (hne rfl)).weaken ?_)
          rintro g r rfl
          cases r with
          | error e | ok u => exact ⟨stage, rfl, Or.inr ⟨hover, nofun⟩⟩
      | true =>
        refine Meets.andThen (keeps_dbCall rfl .commit fun r => ?_)
        cases r with
        | none => exact ⟨.unsure, rfl, Or.inr ⟨rfl, nofun⟩⟩
        | some u =>
          refine Meets.andThen (keeps_dbCall rfl .restore fun r => ?_)
          cases r with
          | none => exact ⟨.spoilt, rfl, Or.inr ⟨rfl, nofun⟩⟩
          | some u => exact ⟨.restored, rfl, Or.inl ⟨rfl, rfl⟩⟩

/-- After a failure the transaction is undone and the call returns. -/
theorem keeps_undone {g : Progress} {body : Svc Bool} (h : Keeps g body (Settled batch)) :
    Keeps g (MysqlDao.undone body) fun g r => Settled batch g r ∧ ∃ ok, r = .ok ok := by
  refine Meets.recover (h.weaken ?_)
  rintro g (e | ok) hr
  · obtain ⟨stage, rfl, ⟨-, hnot⟩ | ⟨hover, -⟩⟩ := hr
    · cases hnot
    · refine Meets.andThen (Meets.recover (Meets.andThen ((keeps_rollback hover).weaken ?_)))
      rintro g r ⟨stage', rfl, hover', hne⟩
      have hfalse : Settled batch ⟨batch, true, stage'⟩ (.ok false) ∧
          ∃ ok, (.ok false : Except Unit Bool) = .ok ok :=
            ⟨⟨stage', rfl, Or.inr ⟨hover', nofun⟩⟩, false, rfl⟩
      cases r with
      | error e => exact hfalse
      | ok u =>
        refine (keeps_close hover' (hne rfl)).weaken ?_
        rintro g (e | u) rfl <;> exact hfalse
  · exact ⟨hr, ok, rfl⟩

/-- What `returns` may say. -/
def Ready (g : Progress) (r : Except Unit Bool) : Prop :=
  g.borrowed = false ∧ ∃ ok, r = .ok ok ∧ g.stage.Returns ok

/-- **`PersistTextMessages` follows the protocol of a batch** and returns its connection. -/
theorem keeps_PersistTextMessages (hne : batch ≠ []) :
    Keeps ⟨batch, false, .ready⟩ (MysqlDao.PersistTextMessages batch) Ready := by
  unfold MysqlDao.PersistTextMessages
  rw [if_neg hne]
  refine Meets.andThen ⟨⟨rfl, .borrow⟩, fun available _ => ?_⟩
  cases available with
  | false => exact ⟨rfl, false, rfl, rfl⟩
  | true =>
    refine Meets.ensuring ((keeps_undone keeps_transaction).weaken ?_)
    rintro g r ⟨⟨stage, rfl, h⟩, ok, rfl⟩
    refine ⟨⟨rfl, .giveBack ?_⟩, fun u _ => ⟨rfl, ok, rfl, ?_⟩⟩
    · exact h.symm.imp And.left And.left
    · rcases h with ⟨rfl, hok⟩ | ⟨hover, hok⟩
      · cases hok
        rfl
      · have hfalse : ok = false := by
          cases ok with
          | false => rfl
          | true => exact absurd rfl hok
        cases stage with
        | aborted | undone | spoilt | unsure => exact hfalse
        | _ => cases hover

/-- A call that acknowledges may make any calls of its connection. -/
def acknowledging : Progress := ⟨[], true, .acknowledging⟩

abbrev Acknowledges {α : Type} (p : Svc α) :
    Prop := Keeps acknowledging p fun g _ => g = acknowledging

theorem acknowledges_dbCall {c : DbCall} {f : c.Answer → Option α} (hc : holding c = true)
    (hr : ∀ r, stillHolding c r = true) : Acknowledges (dbCall c f) := by
  refine keeps_dbCall hc.symm .acknowledge fun r => ?_
  show Progress.mk [] (stillHolding c r) .acknowledging = _
  rw [hr]
  rfl

theorem Acknowledges.andThen {β : Type} {p : Svc α} {f : α → Svc β} (hp : Acknowledges p)
    (hf : ∀ a, Acknowledges (f a)) : Acknowledges (p >>= f) := by
  refine Meets.andThen (Meets.weaken hp ?_)
  rintro g (e | a) rfl
  · rfl
  · exact hf a

theorem acknowledges_acknowledgeLoop (receiver sender : Uid) (ids : List Bytes) :
    Acknowledges (MysqlDao.acknowledgeLoop receiver sender ids) := by
  induction ids with
  | nil => exact rfl
  | cons id ids ih => exact (acknowledges_dbCall rfl fun _ => rfl).andThen fun _ => ih

/-- `AcknowledgeTextMessages` inserts nothing and returns its connection. -/
theorem keeps_AcknowledgeTextMessages (receiver sender : Uid) (ids : List Bytes) :
    Keeps ⟨[], false, .acknowledging⟩
    (MysqlDao.AcknowledgeTextMessages receiver sender ids) Ready := by
  unfold MysqlDao.AcknowledgeTextMessages
  by_cases hrefused : receiver ≤ 0 ∨ sender ≤ 0 ∨ ids = []
  · rw [if_pos hrefused]
    exact ⟨rfl, false, rfl, trivial⟩
  · rw [if_neg hrefused]
    refine Meets.andThen ⟨⟨rfl, .acknowledge⟩, fun available _ => ?_⟩
    cases available with
    | false => exact ⟨rfl, false, rfl, trivial⟩
    | true =>
      have hcall : ∀ {c : DbCall} {f : c.Answer → Option Unit}, holding c = true →
          (∀ r, stillHolding c r = true) → Acknowledges (dbCall c f) := acknowledges_dbCall
      have hbody : Acknowledges (do
          setAutoCommit false
          MysqlDao.acknowledgeLoop receiver sender ids
          commit
          setAutoCommit true
          return true : Svc Bool) :=
        (hcall rfl fun _ => rfl).andThen fun _ =>
          (acknowledges_acknowledgeLoop receiver sender ids).andThen fun _ =>
            (hcall rfl fun _ => rfl).andThen fun _ => (hcall rfl fun _ => rfl).andThen fun _ => rfl
      refine Meets.ensuring (Meets.recover (Meets.weaken hbody ?_))
      have hback : ∀ ok : Bool, Keeps acknowledging (call (.db .returnConnection)) fun g _ =>
        Ready g (.ok ok) :=
        fun ok => ⟨⟨rfl, .acknowledge⟩, fun _ _ => ⟨rfl, ok, rfl, trivial⟩⟩
      rintro g (e | ok) rfl
      · have hundo : Acknowledges (do rollback; setAutoCommit true : Svc Unit) :=
          (hcall rfl fun _ => rfl).andThen fun _ => hcall rfl fun _ => rfl
        refine Meets.andThen (Meets.recover (Meets.weaken hundo ?_))
        rintro g (e | u) rfl <;> exact hback false
      · exact hback ok

/-- Every request a client of the database may make follows the protocol. -/
theorem keeps_run {request : Request} (hne : request ≠ .persist []) :
    Meets following (fun g _ => following.final g) ⟨[], false, .idle⟩ request.run := by
  have hprogram : Keeps request.progress request.program Ready := by
    cases request with
    | persist ms => exact keeps_PersistTextMessages fun h => hne (h ▸ rfl)
    | acknowledge receiver sender ids => exact keeps_AcknowledgeTextMessages receiver sender ids
  refine ⟨⟨rfl, rfl⟩, fun _ _ => Meets.bind ((Meets.embed hprogram).weaken fun g r hr => ?_)⟩
  exact ⟨hr, fun _ _ => ⟨rfl, rfl⟩⟩

end Programs

end DistributedChat.Chat.Persistence
