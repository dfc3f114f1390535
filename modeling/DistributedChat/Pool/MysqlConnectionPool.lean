import DistributedChat.Lib.Threads

/-!
# The connection pool

`MySqlPool` of `common/MysqlConnectionPool.h`: a constructor, one health thread and any number of
callers of `getConnection`, `returnConnection` and `Close`. All members are read and written under
`mutex_`, so each critical section is one effect. The factory, the calls of the sanitizer and the
health check run outside of it, and each may throw.

A connection is named by the number of the call of the factory that made it. Of its state on the
server there is what matters between two borrowers: whether autocommit is on, and whether a
transaction is open, which takes autocommit to be off.

The loops of the health thread have no bound; it is given one for each of them, and any bound is
possible. `live` is an integer, so that a decrement below zero would show.
-/

namespace DistributedChat.Pool

open Lib

/-! ## Connections -/

/-- The state of a connection; `soiled` if it was used after the sanitizer last got through. -/
structure Session where
  autoCommit : Bool
  transaction : Bool
  soiled : Bool
  consistent : transaction = true → autoCommit = false

namespace Session

def fresh : Session := ⟨true, false, false, fun h => (by cases h)⟩

/-- A connection that may be handed out. -/
structure Clean (s : Session) : Prop where
  autoCommit : s.autoCommit = true
  transaction : s.transaction = false
  soiled : s.soiled = false

def used (s : Session) : Session := { s with soiled := true }

/-- The sanitizer finds autocommit on. -/
def checked (s : Session) : Session := { s with soiled := false }

def rolledBack (s : Session) : Session :=
  { s with transaction := false, consistent := fun h => (by cases h) }

end Session

/-! ## Effects -/

inductive Op
  /-- `getConnection`. -/
  | borrow
  /-- The borrower uses its connection. -/
  | use (con : ℕ)
  | getAutoCommit (con : ℕ)
  | rollback (con : ℕ)
  | setAutoCommit (con : ℕ)
  /-- The end of `returnConnection`, and of a round of `CheckIdleConnections`. -/
  | giveBack (con : ℕ)
  | discard (con : ℕ)
  /-- The beginning of `CreateOneConnection`, its call of the factory, and its two ends. -/
  | reserve
  | factory
  | release
  | add (con : ℕ)
  | countIdle
  | takeIdle
  | healthCheck (con : ℕ)
  | healthWait
  /-- The parts of `Close`. -/
  | setStopped
  | join
  | drain

/-- `none` and `false` stand for an exception, where there may be one. -/
abbrev Op.Answer : Op → Type
  | .borrow | .takeIdle | .factory => Option ℕ
  | .getAutoCommit _ => Option Bool
  | .rollback _ | .setAutoCommit _ | .healthCheck _ => Bool
  | .reserve | .add _ | .healthWait => Bool
  | .countIdle => ℕ
  | .use _ | .giveBack _ | .discard _ | .release | .setStopped | .join | .drain => Unit

/-- What a thread has in its hands when it performs an effect: nothing, a slot for a connection that
is being created, or a connection. -/
inductive Held
  | nothing
  | slot
  | connection (con : ℕ)
  deriving DecidableEq, Repr

def Op.held : Op → Held
  | .borrow | .reserve | .countIdle | .takeIdle | .healthWait | .setStopped | .join | .drain =>
    .nothing
  | .factory | .release => .slot
  | .use con | .getAutoCommit con | .rollback con | .setAutoCommit con | .giveBack con
    | .discard con
  | .add con | .healthCheck con => .connection con

abbrev Svc := Prog Op Op.Answer

def call (e : Op) : Svc e.Answer := .call e .ret

instance : Monad Svc where
  pure := Prog.ret
  bind := Prog.bind

/-! ## The operations -/

def CreateOneConnection : Svc Bool := do
  if (← call .reserve) then
    match (← call .factory) with
    | none =>
      call .release
      return false
    | some connection => call (.add connection)
  else return false

/-- `ResetMysqlTransaction`; `false` if it throws. -/
def ResetMysqlTransaction (connection : ℕ) : Svc Bool := do
  match (← call (.getAutoCommit connection)) with
  | none => return false
  | some true => return true
  | some false =>
    if (← call (.rollback connection)) then call (.setAutoCommit connection)
    else return false

def returnConnection (connection : ℕ) : Svc Unit := do
  if (← ResetMysqlTransaction connection) then call (.giveBack connection)
  else do
    call (.discard connection)
    let _ ← CreateOneConnection

/-- A caller borrows a connection, uses it and gives it back. -/
def borrower : Svc Unit := do
  match (← call .borrow) with
  | none => return ()
  | some connection =>
    call (.use connection)
    returnConnection connection

def Close : Svc Unit := do
  call .setStopped
  call .join
  call .drain

/-- The rounds of `CheckIdleConnections`. -/
def checkIdle : ℕ → Svc Unit
  | 0 => return ()
  | rounds + 1 => do
    match (← call .takeIdle) with
    | none => return ()
    | some connection =>
      if (← call (.healthCheck connection)) then call (.giveBack connection)
      else call (.discard connection)
      checkIdle rounds

def CheckIdleConnections : Svc Unit := do
  let idle_count ← call .countIdle
  checkIdle idle_count

def ReplenishConnections : ℕ → Svc Unit
  | 0 => return ()
  | rounds + 1 => do
    if (← CreateOneConnection) then ReplenishConnections rounds
    else return ()

/-- `HealthWorker`, with the rounds of `ReplenishConnections` in each round of its own. -/
def HealthWorker : List ℕ → Svc Unit
  | [] => return ()
  | replenish :: rounds => do
    if (← call .healthWait) then return ()
    else do
      CheckIdleConnections
      ReplenishConnections replenish
      HealthWorker rounds

/-- The loop of the constructor. -/
def construct : ℕ → Svc Unit
  | 0 => return ()
  | rounds + 1 => do
    if (← CreateOneConnection) then construct rounds
    else return ()

/-! ## The pool -/

structure State where
  pool_size : ℕ
  connections : List ℕ
  live : ℤ
  stopped : Bool
  /-- The calls of the factory that made a connection, the connections, and those that were
  destroyed. -/
  created : ℕ
  sessions : ℕ → Session
  destroyed : List ℕ
  /-- The constructor has returned, the health thread has ended, `Close` has returned. -/
  constructed : Bool
  healthEnded : Bool
  closed : Bool

namespace State

/-- The members before the constructor runs; without a health thread none has to end. -/
def empty (pool_size : ℕ) (start_health_worker : Bool) : State where
  pool_size := pool_size
  connections := []
  live := 0
  stopped := false
  created := 0
  sessions := fun _ => .fresh
  destroyed := []
  constructed := false
  healthEnded := !start_health_worker
  closed := false

def setSession (s : State) (con : ℕ) (session : Session) : State :=
  { s with sessions := Function.update s.sessions con session }

def push (s : State) (con : ℕ) : State := { s with connections := s.connections ++ [con] }

/-- A connection is destroyed; `if (live_connections_ > 0) --live_connections_`. -/
def drop (s : State) (con : ℕ) : State :=
  { s with
    destroyed := s.destroyed ++ [con]
    live := if 0 < s.live then s.live - 1 else s.live }

/-- `while (!connections_.empty())` of `Close`. -/
def dropAll (s : State) : List ℕ → State
  | [] => s
  | con :: rest => dropAll (drop { s with connections := rest } con) rest

/-- What is left open: whether a call of the factory, the driver or the health check throws, and the
state a borrower leaves its connection in. -/
structure Pick where
  throws : Bool := false
  session : Session := .fresh

/-- The front of the queue, unless the pool is stopped. A caller that finds nothing has waited. -/
def popFront (s : State) : Option ℕ × State :=
  match s.stopped, s.connections with
  | false, con :: rest => (some con, { s with connections := rest })
  | _, _ => (none, s)

def perform (s : State) (e : Op) (pick : Pick) : Option (e.Answer × State) :=
  match e with
  | .borrow | .takeIdle => some s.popFront
  | .use con => some ((), s.setSession con pick.session.used)
  | .getAutoCommit con =>
    some (if pick.throws then (none, s)
      else if (s.sessions con).autoCommit then
        (some true, s.setSession con (s.sessions con).checked)
      else (some false, s))
  | .rollback con =>
    some (if pick.throws then (false, s)
      else (true, s.setSession con (s.sessions con).rolledBack))
  | .setAutoCommit con =>
    some (if pick.throws then (false, s) else (true, s.setSession con .fresh))
  | .giveBack con => some ((), if s.stopped then s.drop con else s.push con)
  | .discard con => some ((), s.drop con)
  | .reserve =>
    some (if s.stopped = true ∨ (s.pool_size : ℤ) ≤ s.live then (false, s)
      else (true, { s with live := s.live + 1 }))
  | .factory =>
    some (if pick.throws then (none, s)
      else (some s.created, { s.setSession s.created .fresh with created := s.created + 1 }))
  | .release => some ((), { s with live := s.live - 1 })
  | .add con =>
    some (if s.stopped then
        (false, { s with destroyed := s.destroyed ++ [con], live := s.live - 1 })
      else (true, s.push con))
  | .countIdle => some (s.connections.length, s)
  | .healthCheck _ => some (!pick.throws, s)
  | .healthWait => some (s.stopped, s)
  | .setStopped => some ((), { s with stopped := true })
  | .join => if s.healthEnded then some ((), s) else none
  | .drain => some ((), dropAll s s.connections)

end State

inductive Thread
  | constructor
  | health
  | caller (k : ℕ)
  /-- A caller of `Close`. -/
  | closer (k : ℕ)
  deriving DecidableEq, Repr

/-- What may be started: the constructor first, then the health thread, once, and the callers. -/
inductive Launch
  | construct
  | health (rounds : List ℕ)
  | borrow (k : ℕ)
  | close (k : ℕ)

def launch (l : Launch) (s : State) : Option (Thread × Svc Unit) :=
  match l with
  | .construct => if s.constructed then none else some (.constructor, construct s.pool_size)
  | .health rounds =>
    if s.constructed = true ∧
      s.healthEnded = false then some (.health, HealthWorker rounds) else none
  | .borrow k => if s.constructed then some (.caller k, borrower) else none
  | .close k => if s.constructed then some (.closer k, Close) else none

/-- A thread has returned. -/
def State.ended (s : State) : Thread → State
  | .constructor => { s with constructed := true }
  | .health => { s with healthEnded := true }
  | .caller _ => s
  | .closer _ => { s with closed := true }

def mySqlPool (pool_size : ℕ) (start_health_worker : Bool) :
    System Thread Op Op.Answer Unit State where
  init s := s = .empty pool_size start_health_worker
  exec _ e s r s' := ∃ pick, s.perform e pick = some (r, s')
  start t s p := ∃ l, launch l s = some (t, p)
  stop t p s s' := p = .ret () ∧ s' = s.ended t
  env _ _ := False

end DistributedChat.Pool
