import DistributedChat.Lib.Calls
import DistributedChat.Lib.Mutex

/-!
# The keyed executor

`post`, `stop` and the worker loop `run` of `common/KeyedExecutor.h`. Any number of threads post
and stop; every shard has one worker. Threads take turns at every effect, also inside the critical
sections: a mutex is an effect that waits until it is free. Tasks and ticks take time, may throw,
and may post like any other thread; they do not call `stop`.

A worker runs one pass of its loop after the other. The clock is free: a wait may time out and a
tick may be due at any pass. The counters are integers; 64 bits hold them modulo `2 ^ 64`. The times
in the metrics are left out.

A ledger notes the calls of `post` that pushed their task, and what each call returned.
-/

namespace DistributedChat.Executor

open Lib

/-! ## Shards -/

/-- A task, with the key it was posted with. -/
structure Job where
  key : ℕ
  name : ℕ
  deriving DecidableEq, Repr

/-- What the mutex of a shard guards. -/
structure Queue where
  queue : List Job := []
  stopping : Bool := false
  /-- The tasks pushed, popped and discarded, in this order. -/
  accepted : List Job := []
  taken : List Job := []
  cancelled : List Job := []
  /-- The part of `queued_` and `cancelled_` that is about this shard. -/
  queuedPart : ℤ := 0
  cancelledPart : ℤ := 0
  deriving DecidableEq

namespace Queue

def push (q : Queue) (job : Job) : Queue :=
  { q with queue := q.queue ++ [job], accepted := q.accepted ++ [job] }

def pop (q : Queue) : Queue :=
  { q with queue := q.queue.tail, taken := q.taken ++ q.queue.take 1 }

/-- `discarded.swap(s->queue)`. -/
def discard (q : Queue) : Queue := { q with queue := [], cancelled := q.cancelled ++ q.queue }

def setStopping (q : Queue) : Queue := { q with stopping := true }

def countQueued (q : Queue) (k : ℤ) : Queue := { q with queuedPart := q.queuedPart + k }

def countCancelled (q : Queue) (k : ℤ) : Queue := { q with cancelledPart := q.cancelledPart + k }

end Queue

inductive Activity
  | task (job : Job)
  | tick
  deriving DecidableEq

def Activity.job? : Activity → Option Job
  | .task job => some job
  | .tick => none

structure Worker where
  /-- The call it is in. -/
  active : Option Activity := none
  /-- Two calls have overlapped. -/
  overlapped : Bool := false
  /-- The calls begun so far. -/
  began : List Activity := []
  /-- The task it has popped and not yet counted as completed, and those it has. -/
  running : Option Job := none
  completed : List Job := []
  /-- `run` has returned. -/
  finished : Bool := false
  deriving DecidableEq

namespace Worker

def take (w : Worker) (job : Job) : Worker := { w with running := some job }

def enter (w : Worker) (a : Activity) : Worker :=
  { w with
    active := some a
    overlapped := w.overlapped || w.active.isSome
    began := w.began ++ [a] }

def leave (w : Worker) : Worker := { w with active := none }

def complete (w : Worker) : Worker :=
  { w with running := none, completed := w.completed ++ w.running.toList }

def exit (w : Worker) : Worker := { w with finished := true }

def ran (w : Worker) : List Job := w.began.filterMap Activity.job?

end Worker

inductive Thread (n : ℕ)
  | worker (i : Fin n)
  | caller (k : ℕ)
  deriving DecidableEq

structure State (n : ℕ) where
  shards : Mutexes (Thread n) (Fin n) Queue := ⟨fun _ => none, fun _ => {}⟩
  workers : Fin n → Worker := fun _ => {}
  queued : ℤ := 0
  completed : ℕ := 0
  rejected : ℕ := 0
  failures : ℕ := 0
  cancelled : ℤ := 0
  /-- The thread that holds `stop_mutex_`. -/
  stopOwner : Option (Thread n) := none
  /-- The threads that are no longer `joinable`. -/
  joined : Fin n → Bool := fun _ => false
  /-- The calls of `stop` that began, and those that returned, with their argument. -/
  issued : List Bool := []
  returned : List Bool := []
  /-- The calls of `post`. -/
  posts : Ledger (Thread n) Job := {}

namespace State

variable {n : ℕ}

def shard (s : State n) (i : Fin n) : Queue := s.shards.data i

def write (s : State n) (i : Fin n) (q : Queue) : State n := { s with shards := s.shards.write i q }

def work (s : State n) (i : Fin n) (w : Worker) : State n :=
  { s with workers := Function.update s.workers i w }

end State

/-! ## Programs -/

inductive Call (n : ℕ)
  /-- Wait for the mutex of a shard. What it guards stays as it is until this thread changes it. -/
  | lock (i : Fin n)
  | unlock (i : Fin n)
  | push (i : Fin n) (job : Job)
  | pop (i : Fin n)
  | discard (i : Fin n)
  | setStopping (i : Fin n)
  | countQueued (i : Fin n) (k : ℤ)
  | countCancelled (i : Fin n) (k : ℤ)
  | countRejected
  | countFailure
  | countCompleted (i : Fin n)
  | notify_one (i : Fin n)
  /-- `wait_until` has reached its time. -/
  | timeout
  /-- `Clock::now() >= next`. -/
  | due
  | enter (i : Fin n) (a : Activity)
  /-- The call ends, or throws. -/
  | leave (i : Fin n) (a : Activity)
  | exit (i : Fin n)
  | lockStop
  | unlockStop
  | joinable (i : Fin n)
  | join (i : Fin n)
  /-- A call of `stop` begins, and returns. -/
  | issue (drain : Bool)
  | returned (drain : Bool)
  /-- A call of `post` returns `r`. -/
  | posted (job : Job) (r : Bool)

abbrev Call.Answer {n : ℕ} : Call n → Type
  | .lock _ => Queue
  | .timeout | .due | .leave _ _ | .joinable _ => Bool
  | _ => Unit

abbrev Svc (n : ℕ) := Lib.Task (Call n) Call.Answer Empty

def call {n : ℕ} (e : Call n) : Svc n e.Answer := Task.perform e .ok

/-- What the constructor accepts. -/
structure Setup where
  count : ℕ
  capacity : ℕ
  /-- `tick_` is not empty. -/
  hasTick : Bool
  count_pos : 0 < count
  capacity_pos : 0 < capacity

namespace Setup

variable (setup : Setup)

def shard (key : ℕ) : Fin setup.count := ⟨key % setup.count, Nat.mod_lt _ setup.count_pos⟩

/-- `post`, with what it finds under the mutex. -/
def postLocked (i : Fin setup.count) (task : Job) (stopping : Bool) (size : ℕ) :
    Svc setup.count Bool :=
  if stopping = true ∨ setup.capacity ≤ size then do
    call .countRejected
    call (.unlock i)
    return false
  else do
    call (.push i task)
    call (.countQueued i 1)
    call (.unlock i)
    call (.notify_one i)
    return true

def post (task : Job) : Svc setup.count Bool := do
  let i := setup.shard task.key
  let s ← call (.lock i)
  setup.postLocked i task s.stopping s.queue.length

/-- The queue is discarded unless it is to be drained. -/
def discard (drain : Bool) (i : Fin setup.count) (size : ℕ) : Svc setup.count Unit :=
  if drain then return ()
  else do
    call (.countCancelled i size)
    call (.countQueued i (-size))
    call (.discard i)

def stopShards (drain : Bool) : List (Fin setup.count) → Svc setup.count Unit
  | [] => return ()
  | i :: rest => do
    let s ← call (.lock i)
    call (.setStopping i)
    setup.discard drain i s.queue.length
    call (.unlock i)
    call (.notify_one i)
    stopShards drain rest

def joinShards : List (Fin setup.count) → Svc setup.count Unit
  | [] => return ()
  | i :: rest => do
    let joinable ← call (.joinable i)
    if joinable then do
      call (.join i)
      joinShards rest
    else joinShards rest

def stop (drain : Bool) : Svc setup.count Unit := do
  call .lockStop
  setup.stopShards drain (List.finRange setup.count)
  setup.joinShards (List.finRange setup.count)
  call .unlockStop

def invoke (i : Fin setup.count) (a : Activity) : Svc setup.count Unit := do
  call (.enter i a)
  let threw ← call (.leave i a)
  if threw then call .countFailure else return ()

def runTick (i : Fin setup.count) : Svc setup.count Unit := do
  call (.unlock i)
  if setup.hasTick then setup.invoke i .tick else return ()

def runTask (i : Fin setup.count) (task : Job) : Svc setup.count Unit := do
  call (.pop i)
  call (.countQueued i (-1))
  call (.unlock i)
  setup.invoke i (.task task)
  call (.countCompleted i)

/-- One pass of the loop of `run`. A wait that has neither found its condition true nor timed out
lets go of the mutex, and the next pass goes on with it. -/
def runPass (i : Fin setup.count) : Svc setup.count Unit := do
  let s ← call (.lock i)
  let timeout ← call .timeout
  if s.stopping = false ∧ s.queue = [] ∧ timeout = false then call (.unlock i)
  else if s.stopping = true ∧ s.queue = [] then do
    call (.unlock i)
    call (.exit i)
  else do
    let due ← call .due
    if s.stopping = false ∧ due = true then setup.runTick i
    else match s.queue with
      | [] => call (.unlock i)
      | task :: _ => setup.runTask i task

end Setup

/-! ## The executor -/

section Executor

variable {n : ℕ}

def perform (t : Thread n) (e : Call n) (pick : Bool) (s : State n) : Option (e.Answer × State n) :=
  match e with
  | .lock i =>
    if s.shards.owner i =
      none then some (s.shard i, { s with shards := s.shards.lock t i }) else none
  | .unlock i => some ((), { s with shards := s.shards.unlock i })
  | .push i job => some ((), s.write i ((s.shard i).push job))
  | .pop i =>
    match (s.shard i).queue with
    | [] => none
    | job :: _ => some ((), (s.write i (s.shard i).pop).work i ((s.workers i).take job))
  | .discard i => some ((), s.write i (s.shard i).discard)
  | .setStopping i => some ((), s.write i (s.shard i).setStopping)
  | .countQueued i k =>
    some ((), { s.write i ((s.shard i).countQueued k) with queued := s.queued + k })
  | .countCancelled i k =>
    some ((), { s.write i ((s.shard i).countCancelled k) with cancelled := s.cancelled + k })
  | .countRejected => some ((), { s with rejected := s.rejected + 1 })
  | .countFailure => some ((), { s with failures := s.failures + 1 })
  | .countCompleted i =>
    some ((), { s.work i (s.workers i).complete with completed := s.completed + 1 })
  | .notify_one _ => some ((), s)
  | .timeout => some (pick, s)
  | .due => some (pick, s)
  | .enter i a => some ((), s.work i ((s.workers i).enter a))
  | .leave i _ => some (pick, s.work i (s.workers i).leave)
  | .exit i => some ((), s.work i (s.workers i).exit)
  | .lockStop => if s.stopOwner = none then some ((), { s with stopOwner := some t }) else none
  | .unlockStop => some ((), { s with stopOwner := none })
  | .joinable i => some (!s.joined i, s)
  | .join i =>
    if (s.workers i).finished then
      some ((), { s with joined := Function.update s.joined i true })
    else none
  | .issue drain => some ((), { s with issued := s.issued ++ [drain] })
  | .returned drain => some ((), { s with returned := s.returned ++ [drain] })
  | .posted _ _ => some ((), s)

def Call.mark : Call n → Mark Job
  | .push _ job => .takes job
  | .posted job r => .returns job r
  | _ => .other

/-- An effect, with what it means for a call of `post`. -/
def performNoted (t : Thread n) (e : Call n) (pick : Bool) (s : State n) :
    Option (e.Answer × State n) :=
  (perform t e pick s).map fun rs => (rs.1, { rs.2 with posts := s.posts.record t e.mark true })

end Executor

inductive Launch (n : ℕ)
  | post (k : ℕ) (task : Job)
  | stop (k : ℕ) (drain : Bool)
  | run (i : Fin n)

namespace Setup

variable (setup : Setup)

def program : Launch setup.count → Svc setup.count Unit
  | .post _ task => do
    let r ← setup.post task
    call (.posted task r)
  | .stop _ drain => do
    call (.issue drain)
    setup.stop drain
    call (.returned drain)
  | .run i => setup.runPass i

/-- Callers post, each call in a thread of its own, and stop; a worker goes on until its `run` has
returned. -/
def launch (l : Launch setup.count) (s : State setup.count) :
    Option (Thread setup.count × Prog (Call setup.count) Call.Answer (Except Empty Unit)) :=
  match l with
  | .post k _ => if s.posts.Unused (.caller k) then some (.caller k, setup.program l) else none
  | .stop k _ => some (.caller k, setup.program l)
  | .run i => if (s.workers i).finished then none else some (.worker i, setup.program l)

def executor : System (Thread setup.count) (Call setup.count) Call.Answer (Except Empty Unit)
    (State setup.count) where
  init s := s = {}
  exec t e s r s' := ∃ pick, performNoted t e pick s = some (r, s')
  start t s p := ∃ l, setup.launch l s = some (t, p)
  stop _ p s s' := (∃ a, p = .ret a) ∧ s' = s
  env _ _ := False

theorem executor_playable : Playable setup.launch performNoted setup.executor where
  launch l _ _ _ h := ⟨l, h⟩
  perform _ _ pick _ _ _ h := ⟨pick, h⟩
  finish _ a _ := ⟨⟨a, rfl⟩, rfl⟩

end Setup

end DistributedChat.Executor
