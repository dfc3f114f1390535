import DistributedChat.Executor.KeyedExecutor

/-!
# What the threads of the executor may do

`Shard` is what always holds of a shard: the tasks it has accepted are, in this order, those its
worker has completed, the one it runs, those in the queue and those that were discarded. Every
change a thread can make to the queue or to a worker keeps it. `discipline` says which changes a
thread makes, by what it knows, and the programs of `KeyedExecutor` keep to it.
-/

namespace DistributedChat.Executor

open Lib Function

/-! ## One shard -/

structure Queue.Ok (capacity : ℕ) (q : Queue) : Prop where
  accepted : q.accepted = q.taken ++ q.queue ++ q.cancelled
  bounded : q.queue.length ≤ capacity
  cancelled : q.cancelled ≠ [] → q.stopping = true ∧ q.queue = []

/-- The counters agree with the queue. -/
structure Queue.InOrder (q : Queue) : Prop where
  queued : q.queuedPart = q.queue.length
  cancelled : q.cancelledPart = q.cancelled.length

/-- The worker is between two passes. -/
structure Worker.Rested (w : Worker) : Prop where
  active : w.active = none
  running : w.running = none
  ran : w.ran = w.completed

structure Worker.Ok (w : Worker) : Prop where
  overlapped : w.overlapped = false
  ran : w.ran = w.completed ∨ w.ran = w.completed ++ w.running.toList

/-- Nothing is left to do for the shard, now and later. -/
def Queue.Drained (q : Queue) : Prop := q.stopping = true ∧ q.queue = []

/-- What always holds of a shard that takes the tasks `here` says. -/
structure Shard (capacity : ℕ) (issued : List Bool) (here : Job → Prop) (q : Queue) (w : Worker) :
    Prop where
  queue : q.Ok capacity
  placed : ∀ job ∈ q.accepted, here job
  worker : w.Ok
  taken : q.taken = w.completed ++ w.running.toList
  cancelled : q.cancelled ≠ [] → false ∈ issued
  finished : w.finished = true → q.Drained ∧ w.Rested

/-- A call the worker may begin: its task or a tick, and only with no call under way. -/
def Worker.MayEnter (w : Worker) : Activity → Prop
  | .task job => w.active = none ∧ w.running = some job ∧ w.ran = w.completed
  | .tick => w.active = none

/-- The task has been called, and the call is over. -/
structure Worker.Ran (w : Worker) : Prop where
  active : w.active = none
  running : w.running.isSome = true
  ran : w.ran = w.completed ++ w.running.toList

namespace Shard

variable {capacity : ℕ} {issued : List Bool} {here : Job → Prop} {q : Queue} {w : Worker}

/-- A shard at rest, before anything is posted. -/
theorem initial : Shard capacity [] here {} {} where
  queue := ⟨rfl, Nat.zero_le _, fun h => absurd rfl h⟩
  placed _ h := absurd h List.not_mem_nil
  worker := ⟨rfl, Or.inl rfl⟩
  taken := rfl
  cancelled h := absurd rfl h
  finished h := Bool.noConfusion h

section

variable (h : Shard capacity issued here q w)

include h

/-- An accepted task goes to the back of a queue that has room for it. -/
theorem push {job : Job} (hhere : here job)
    (hopen : q.stopping = false) (hroom : q.queue.length < capacity) :
    Shard capacity issued here (q.push job) w := by
  have hnone : q.cancelled = [] := by
    by_contra hne
    exact absurd (h.queue.cancelled hne).1 (by simp [hopen])
  refine ⟨⟨?_, ?_, fun hne => absurd hnone hne⟩, ?_, h.worker, h.taken, h.cancelled, fun hfin => ?_⟩
  · simp [Queue.push, h.queue.accepted, hnone]
  · simp only [Queue.push, List.length_append, List.length_singleton]
    omega
  · intro job' hjob'
    rcases List.mem_append.mp hjob' with hold | hnew
    · exact h.placed job' hold
    · exact List.mem_singleton.mp hnew ▸ hhere
  · have := (h.finished hfin).1.1
    simp [hopen] at this

theorem discard (hstop : q.stopping = true) (hissued : false ∈ issued) :
    Shard capacity issued here q.discard w := by
  have hempty : q.cancelled = [] ∨ q.queue = [] := by
    by_cases hne : q.cancelled = []
    · exact Or.inl hne
    · exact Or.inr (h.queue.cancelled hne).2
  refine ⟨⟨?_, Nat.zero_le _, fun _ => ⟨hstop, rfl⟩⟩, h.placed, h.worker, h.taken, fun _ => hissued,
    fun hfin => ⟨⟨hstop, rfl⟩, (h.finished hfin).2⟩⟩
  rcases hempty with hnone | hnone <;> simp [Queue.discard, h.queue.accepted, hnone]

theorem setStopping : Shard capacity issued here q.setStopping w where
  queue := ⟨h.queue.accepted, h.queue.bounded, fun hne => ⟨rfl, (h.queue.cancelled hne).2⟩⟩
  placed := h.placed
  worker := h.worker
  taken := h.taken
  cancelled := h.cancelled
  finished hfin := ⟨⟨rfl, (h.finished hfin).1.2⟩, (h.finished hfin).2⟩

theorem countQueued (k : ℤ) : Shard capacity issued here (q.countQueued k) w :=
  { h with queue := { h.queue with } }

theorem countCancelled (k : ℤ) : Shard capacity issued here (q.countCancelled k) w :=
  { h with queue := { h.queue with } }

/-- The worker takes the oldest task. -/
theorem pop {job : Job} {rest : List Job} (hq : q.queue = job :: rest) (hw : w.Rested) :
    Shard capacity issued here q.pop (w.take job) := by
  have hnone : q.cancelled = [] := by
    by_contra hne
    simp [(h.queue.cancelled hne).2] at hq
  have hbound := h.queue.bounded
  refine ⟨⟨?_, ?_, fun hne => absurd hnone hne⟩, h.placed, ⟨h.worker.overlapped, Or.inl hw.ran⟩, ?_,
    h.cancelled,
    fun hfin => ?_⟩
  · simp [Queue.pop, h.queue.accepted, hq]
  · simp only [Queue.pop, hq, List.tail_cons, List.length_cons] at hbound ⊢
    omega
  · simp [Queue.pop, Worker.take, h.taken, hw.running, hq]
  · have := (h.finished hfin).1.2
    simp [hq] at this

/-- The worker begins a call only when the one before is over. -/
theorem enter {a : Activity} (ha : w.MayEnter a)
    (hfin : w.finished = false) : Shard capacity issued here q (w.enter a) := by
  have hactive : w.active = none := by
    cases a with
    | task job => exact ha.1
    | tick => exact ha
  refine ⟨h.queue, h.placed, ⟨?_, ?_⟩, h.taken, h.cancelled, fun h' => ?_⟩
  · simp [Worker.enter, h.worker.overlapped, hactive]
  · cases a with
    | task job =>
      obtain ⟨-, hrunning, hran⟩ := ha
      right
      rw [show (w.enter (.task job)).ran = w.ran ++ [job] by
        simp [Worker.enter, Worker.ran, Activity.job?], hran]
      simp [Worker.enter, hrunning]
    | tick =>
      rw [show (w.enter .tick).ran = w.ran by simp [Worker.enter, Worker.ran, Activity.job?]]
      exact h.worker.ran
  · simp [Worker.enter, hfin] at h'

theorem leave (hfin : w.finished = false) : Shard capacity issued here q w.leave :=
  ⟨h.queue, h.placed, ⟨h.worker.overlapped, h.worker.ran⟩, h.taken, h.cancelled,
    fun h' => by simp [Worker.leave, hfin] at h'⟩

/-- A task is done once, after its call. -/
theorem complete (hran : w.Ran) (hfin : w.finished = false) :
    Shard capacity issued here q w.complete := by
  refine ⟨h.queue, h.placed, ⟨h.worker.overlapped, Or.inl hran.ran⟩, ?_, h.cancelled, fun h' => ?_⟩
  · simp [Worker.complete, h.taken]
  · simp [Worker.complete, hfin] at h'

/-- The worker leaves only a drained shard. -/
theorem exit (hq : q.Drained) (hw : w.Rested) : Shard capacity issued here q w.exit :=
  ⟨h.queue, h.placed, ⟨h.worker.overlapped, h.worker.ran⟩, h.taken, h.cancelled,
    fun _ => ⟨hq, { hw with }⟩⟩

theorem issue {issued' : List Bool} (hsub : issued ⊆ issued') : Shard capacity issued' here q w :=
  { h with cancelled := fun hne => hsub (h.cancelled hne) }

end

end Shard

/-! ## What a thread knows -/

/-- The knowledge of a running thread. -/
structure Known (n : ℕ) where
  self : Thread n
  /-- The mutex it holds and what that guards. -/
  view : Option (Fin n × Queue) := none
  /-- A worker's own record. -/
  own : Worker := {}
  /-- A worker's shard is drained. -/
  drained : Bool := false
  /-- The shards whose workers have returned. -/
  gone : Fin n → Bool := fun _ => false
  /-- A `stop(false)` has been issued. -/
  cancels : Bool := false

namespace Known

variable {n : ℕ}

def edit (m : Known n) (f : Queue → Queue) : Known n :=
  { m with view := m.view.map fun v => (v.1, f v.2) }

/-- The worker sees that its shard is drained. -/
def seesDrained (m : Known n) : Bool :=
  match m.view with
  | some (i, q) => decide (m.self = .worker i) && (q.stopping && q.queue.isEmpty)
  | none => false

/-- The worker takes the front of the queue it sees. -/
def takeFront (m : Known n) : Worker :=
  match m.view with
  | some (_, q) => { m.own with running := q.queue.head? }
  | none => m.own

end Known

/-- A thread between two programs. -/
structure Known.Idle {n : ℕ} (m : Known n) : Prop where
  view : m.view = none
  rested : m.own.Rested

section Discipline

variable {n : ℕ}

/-- The task belongs to shard `i`. -/
def Here (i : Fin n) (job : Job) : Prop := job.key % n = i

def Call.Allow (capacity : ℕ) (m : Known n) : Call n → Prop
  | .lock _ => m.view = none
  | .unlock i => ∃ q, m.view = some (i, q) ∧ q.InOrder
  | .push i job =>
    Here i job ∧ ∃ q, m.view = some (i, q) ∧ q.stopping = false ∧ q.queue.length < capacity
  | .pop i => m.self = .worker i ∧ m.own.Rested ∧ ∃ q, m.view = some (i, q) ∧ q.queue ≠ []
  | .discard i => m.cancels = true ∧ ∃ q, m.view = some (i, q) ∧ q.stopping = true
  | .setStopping i | .countQueued i _ | .countCancelled i _ => ∃ q, m.view = some (i, q)
  | .countCompleted i => m.self = .worker i ∧ m.own.finished = false ∧ m.own.Ran
  | .enter i a => m.self = .worker i ∧ m.own.finished = false ∧ m.own.MayEnter a
  | .leave i _ => m.self = .worker i ∧ m.own.finished = false
  | .exit i => m.self = .worker i ∧ m.own.Rested ∧ m.drained = true
  | .returned _ => ∀ i, m.gone i = true
  | _ => True

def Call.next (m : Known n) : (e : Call n) → e.Answer → Known n
  | .lock i, q => { m with view := some (i, q) }
  | .unlock _, _ => { m with view := none, drained := m.drained || m.seesDrained }
  | .push _ job, _ => m.edit (·.push job)
  | .pop _, _ => { m.edit Queue.pop with own := m.takeFront }
  | .discard _, _ => m.edit Queue.discard
  | .setStopping _, _ => m.edit Queue.setStopping
  | .countQueued _ k, _ => m.edit (·.countQueued k)
  | .countCancelled _ k, _ => m.edit (·.countCancelled k)
  | .countCompleted _, _ => { m with own := m.own.complete }
  | .enter _ a, _ => { m with own := m.own.enter a }
  | .leave _ _, _ => { m with own := m.own.leave }
  | .exit _, _ => { m with own := m.own.exit }
  | .joinable i, live => if live then m else { m with gone := update m.gone i true }
  | .join i, _ => { m with gone := update m.gone i true }
  | .issue drain, _ => { m with cancels := m.cancels || !drain }
  | .countRejected, _ => m
  | .countFailure, _ => m
  | .notify_one _, _ => m
  | .timeout, _ => m
  | .due, _ => m
  | .lockStop, _ => m
  | .unlockStop, _ => m
  | .returned _, _ => m
  | .posted _ _, _ => m

def discipline (capacity : ℕ) : Monitor (Call n) Call.Answer where
  Ghost := Known n
  allow m e := e.Allow capacity m
  answer _ e r :=
    -- What a thread has just locked is in order, since the mutex was free.
    match e, r with
    | .lock _, q => Queue.InOrder q
    | _, _ => True
  next m e r := e.next m r
  final m := m.Idle

end Discipline

/-! ## What the programs do -/

section Programs

variable (setup : Setup)

variable {setup} {m : Known setup.count}

/-- `Post` keeps to the discipline, whichever of its checks turns the task away. -/
theorem meets_post (h : m.Idle) (task : Job) :
    Meets (discipline setup.capacity) (fun m' _ => m'.Idle) m (setup.post task) := by
  refine Meets.perform h.view fun q hq => ?_
  by_cases hfull : q.stopping = true ∨ setup.capacity ≤ q.queue.length
  · simp only [Setup.postLocked, if_pos hfull]
    exact ⟨trivial, fun _ _ => ⟨⟨q, rfl, hq⟩, fun _ _ => ⟨rfl, h.rested⟩⟩⟩
  · simp only [Setup.postLocked, if_neg hfull]
    rw [not_or, Bool.not_eq_true, not_le] at hfull
    have horder : ((q.push task).countQueued 1).InOrder := by
      refine ⟨?_, hq.cancelled⟩
      simp [Queue.countQueued, Queue.push, hq.queued]
    exact ⟨⟨rfl, q, rfl, hfull⟩, fun _ _ => ⟨⟨_, rfl⟩, fun _ _ => ⟨⟨_, rfl, horder⟩, fun _ _ =>
      ⟨trivial, fun _ _ => ⟨rfl, h.rested⟩⟩⟩⟩⟩

theorem Known.release (hself : ∀ i, m.self ≠ .worker i) (h : m.view = none) (i : Fin setup.count)
    (q : Queue) :
    Call.next ({ m with view := some (i, q) } : Known setup.count) (.unlock i) () = m := by
  obtain ⟨self, view, own, drained, gone, cancels⟩ := m
  obtain rfl : view = none := h
  simp [Call.next, Known.seesDrained, hself i]

theorem meets_stopShards {drain : Bool} (hdrain : drain = false → m.cancels = true)
    (hself : ∀ i, m.self ≠ .worker i) (h : m.view = none) (l : List (Fin setup.count)) :
    Meets (discipline setup.capacity) (fun m' r => m' = m ∧ r = .ok ()) m
    (setup.stopShards drain l) := by
  induction l with
  | nil => exact ⟨rfl, rfl⟩
  | cons i rest ih =>
    have hrest : ∀ q : Queue, Meets (discipline setup.capacity) (fun m' r => m' = m ∧ r = .ok ())
        (Call.next ({ m with view := some (i, q) } : Known setup.count) (.unlock i) ())
        (setup.stopShards drain rest) := by
      intro q
      rw [Known.release hself h i q]
      exact ih
    refine Meets.perform h fun q hq => Meets.perform ⟨_, rfl⟩ fun _ _ => ?_
    cases drain with
    | true =>
      exact ⟨⟨_, rfl, ⟨hq.queued, hq.cancelled⟩⟩, fun _ _ => ⟨trivial, fun _ _ => hrest _⟩⟩
    | false =>
      refine ⟨⟨_, rfl⟩, fun _ _ => ⟨⟨_, rfl⟩, fun _ _ => ⟨⟨hdrain rfl, _, rfl, rfl⟩, fun _ _ =>
        ⟨⟨_, rfl, ?_⟩, fun _ _ => ⟨trivial, fun _ _ => hrest _⟩⟩⟩⟩⟩
      constructor
      · simp [Queue.discard, Queue.countQueued, Queue.countCancelled, Queue.setStopping, hq.queued]
      · simp [Queue.discard, Queue.countQueued, Queue.countCancelled, Queue.setStopping,
          hq.cancelled]

theorem meets_joinShards (h : m.Idle) (l : List (Fin setup.count)) :
    Meets (discipline setup.capacity)
      (fun m' r => r = .ok () ∧ m'.Idle ∧ ∀ i, i ∈ l ∨ m.gone i = true → m'.gone i = true) m
      (setup.joinShards l) := by
  induction l generalizing m with
  | nil => exact ⟨rfl, h, fun i hi => hi.resolve_left List.not_mem_nil⟩
  | cons i rest ih =>
    -- Whether it joins the worker or finds it joined, it goes on knowing that the worker is gone.
    have hrest : Meets (discipline setup.capacity)
        (fun m' r => r = .ok () ∧ m'.Idle ∧ ∀ j, j ∈ i :: rest ∨ m.gone j = true → m'.gone j = true)
        ({ m with gone := update m.gone i true } : Known setup.count)
        (setup.joinShards rest) := by
      have hidle : ({ m with gone := update m.gone i true } : Known setup.count).Idle :=
        ⟨h.view, h.rested⟩
      refine (ih hidle).weaken fun m' r ⟨hr, hidle', hgone⟩ =>
        ⟨hr, hidle', fun j hj => hgone j ?_⟩
      by_cases hji : j = i
      · subst hji
        exact Or.inr (update_self ..)
      · exact hj.imp (List.mem_of_ne_of_mem hji) fun hm => (update_of_ne hji ..).trans hm
    refine Meets.perform trivial fun live _ => ?_
    cases live with
    | true => exact ⟨trivial, fun _ _ => hrest⟩
    | false => exact hrest

/-- `Stop` keeps to the discipline, and when it returns every worker is gone. -/
theorem meets_stop {drain : Bool} (h : m.Idle) (hself : ∀ i, m.self ≠ .worker i)
    (hdrain : drain = false → m.cancels = true) : Meets (discipline setup.capacity)
      (fun m' r => r = .ok () ∧ m'.Idle ∧ ∀ i, m'.gone i = true) m (setup.stop drain) := by
  refine Meets.perform trivial fun _ _ => Meets.andThen ?_
  refine (meets_stopShards hdrain hself h.view _).weaken ?_
  rintro m' _ ⟨rfl, rfl⟩
  refine Meets.andThen ((meets_joinShards h _).weaken ?_)
  rintro m' _ ⟨rfl, hidle, hgone⟩
  exact ⟨trivial, fun _ _ => ⟨rfl, hidle, fun i => hgone i (Or.inl (List.mem_finRange i))⟩⟩

variable {w : Worker}

theorem meets_invoke {i : Fin setup.count} {a : Activity} (hown : m.own = w)
    (hself : m.self = .worker i)
    (hfin : w.finished = false) (ha : w.MayEnter a) : Meets (discipline setup.capacity)
      (fun m' r => m' = { m with own := (w.enter a).leave } ∧ r = .ok ()) m (setup.invoke i a) := by
  subst hown
  refine ⟨⟨hself, hfin, ha⟩, fun _ _ => ⟨⟨hself, hfin⟩, fun threw _ => ?_⟩⟩
  cases threw with
  | true => exact ⟨trivial, fun _ _ => ⟨rfl, rfl⟩⟩
  | false => exact ⟨rfl, rfl⟩

theorem Worker.Rested.tick (h : w.Rested) : ((w.enter .tick).leave).Rested := by
  refine ⟨rfl, h.running, ?_⟩
  rw [show ((w.enter .tick).leave).ran = w.ran by
    simp [Worker.enter, Worker.leave, Worker.ran, Activity.job?]]
  exact h.ran

theorem Worker.Rested.task (h : w.Rested) (job : Job) :
    ((((w.take job).enter (.task job)).leave).Ran) := by
  refine ⟨rfl, rfl, ?_⟩
  rw [show (((w.take job).enter (.task job)).leave).ran = w.ran ++ [job] by
    simp [Worker.take, Worker.enter, Worker.leave, Worker.ran, Activity.job?], h.ran]
  simp [Worker.take, Worker.enter, Worker.leave]

theorem Worker.Ran.rested (h : w.Ran) : w.complete.Rested :=
  ⟨h.active, rfl, h.ran⟩

/-- One pass of a worker keeps to the discipline and ends between two passes. -/
theorem meets_runPass {i : Fin setup.count} (h : m.Idle) (hself : m.self = .worker i)
    (hfin : m.own.finished = false) :
    Meets (discipline setup.capacity) (fun m' _ => m'.Idle) m (setup.runPass i) := by
  refine Meets.perform h.view fun q hq => Meets.perform trivial fun timeout _ => ?_
  by_cases hwait : q.stopping = false ∧ q.queue = [] ∧ timeout = false
  · simp only [if_pos hwait]
    exact ⟨⟨q, rfl, hq⟩, fun _ _ => ⟨rfl, h.rested⟩⟩
  simp only [if_neg hwait]
  by_cases hdrained : q.stopping = true ∧ q.queue = []
  · simp only [if_pos hdrained]
    refine ⟨⟨q, rfl, hq⟩, fun _ _ => ⟨⟨hself, h.rested, ?_⟩, fun _ _ =>
      ⟨rfl, { h.rested with }⟩⟩⟩
    simp [discipline, Call.next, Known.seesDrained, hself, hdrained.1, hdrained.2]
  simp only [if_neg hdrained]
  refine Meets.perform trivial fun due _ => ?_
  by_cases htick : q.stopping = false ∧ due = true
  · simp only [if_pos htick]
    refine Meets.perform ⟨q, rfl, hq⟩ fun _ _ => ?_
    cases hhas : setup.hasTick with
    | true =>
      have hmay : m.own.MayEnter .tick := h.rested.active
      refine Meets.weaken (meets_invoke rfl hself hfin hmay) ?_
      rintro m' _ ⟨rfl, -⟩
      exact ⟨rfl, h.rested.tick⟩
    | false => exact ⟨rfl, h.rested⟩
  simp only [if_neg htick]
  cases hqueue : q.queue with
  | nil => exact ⟨⟨q, rfl, hq⟩, fun _ _ => ⟨rfl, h.rested⟩⟩
  | cons task rest =>
    have horder : (q.pop.countQueued (-1)).InOrder := by
      refine ⟨?_, hq.cancelled⟩
      simp [Queue.countQueued, Queue.pop, hq.queued, hqueue]
    refine Meets.perform ⟨hself, h.rested, q, rfl, by simp [hqueue]⟩ fun _ _ =>
      Meets.perform ⟨_, rfl⟩ fun _ _ => Meets.perform ⟨_, rfl, horder⟩ fun _ _ => Meets.andThen ?_
    have hown : Known.takeFront ({ m with view := some (i, q) } : Known setup.count) =
      m.own.take task := by
      simp [Known.takeFront, Worker.take, hqueue]
    have hmay : (m.own.take task).MayEnter (.task task) := ⟨h.rested.active, rfl, h.rested.ran⟩
    refine Meets.weaken (meets_invoke hown hself hfin hmay) ?_
    rintro m' _ ⟨rfl, rfl⟩
    have hran := h.rested.task task
    exact ⟨⟨hself, hfin, hran⟩, fun _ _ => ⟨rfl, hran.rested⟩⟩

/-- **Every program a thread may be running keeps to the discipline.** -/
theorem meets_program {l : Launch setup.count} {s : State setup.count} {t : Thread setup.count}
    {p : Prog (Call setup.count) Call.Answer (Except Empty Unit)}
    (hl : setup.launch l s = some (t, p))
    (hself : m.self = t) (h : m.Idle) (hown : ∀ i, t = .worker i → m.own = s.workers i) :
    Meets (discipline setup.capacity) (fun m' _ => m'.Idle) m p := by
  cases l with
  | post k task =>
    obtain ⟨-, hl⟩ := Option.ite_none_right_eq_some.mp hl
    cases hl
    exact Meets.andThen ((meets_post h task).weaken fun m' r hr => by
      cases r with
      | error e => exact hr
      | ok a => exact ⟨trivial, fun _ _ => hr⟩)
  | stop k drain =>
    cases hl
    refine Meets.perform trivial fun _ _ => Meets.andThen ?_
    have hcancels : drain = false → (m.cancels || !drain) = true := by
      rintro rfl
      simp
    refine Meets.weaken
      (meets_stop ⟨h.view, h.rested⟩ (by simp [discipline, Call.next, hself]) hcancels) ?_
    rintro m' _ ⟨rfl, hidle, hgone⟩
    exact ⟨hgone, fun _ _ => hidle⟩
  | run i =>
    simp only [Setup.launch] at hl
    split at hl
    · cases hl
    · rename_i hlive
      cases hl
      refine meets_runPass h hself ?_
      rw [hown i rfl]
      simpa using hlive

end Programs

end DistributedChat.Executor
