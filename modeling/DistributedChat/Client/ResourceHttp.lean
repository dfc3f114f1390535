import Mathlib

/-!
# Resource requests of the client

`ResourceHttp` of `client/network/ResourceHttp.cpp` as a machine that takes one event at a time.
Where the code calls out, it may be entered again before it goes on: a callback, a signal or the end
of a reply inside `abort()`. An event therefore ends where the code calls out, and what the code
still has to do after that is state: the closures of `pending` in the token handler, `configuring`
in `configure`. Every order of events is allowed between, so also the nested ones. A reply ends at
most once.

The log is kept in two parts. What comes in from outside (calls, answers) is noted by `step`,
whatever the code makes of it; what goes out (callbacks, network requests, renewals) is noted where
the code sends it. Network requests are reduced to their token and the request they are for.
`generation_` is not bounded.
-/

namespace DistributedChat.ResourceHttp

abbrev Text := List Char

/-! ## State -/

/-- The parts of a `QUrl` that are checked. -/
structure Url where
  scheme : String := ""
  host : String := ""
  userInfo : String := ""
  path : String := ""
  deriving DecidableEq, Repr

/-- `RequestControl`, with the path of its request. The reply it points to is one of `active_`. -/
structure Control where
  path : Text
  cancelled : Bool := false
  generation : ℕ
  deriving DecidableEq, Repr

/-- A call of `request` that has been put off: the control object and the number of retries. -/
structure Closure where
  handle : ℕ
  retry : ℕ
  deriving DecidableEq, Repr

/-- What the handler of `finished` has captured. -/
structure Reply where
  closure : Closure
  generation : ℕ
  deriving DecidableEq, Repr

inductive Timer
  /-- After an empty token. -/
  | emptyToken (generation : ℕ)
  /-- No answer to a renewal. -/
  | renewalTimeout (generation requestId : ℕ)
  | retry (closure : Closure) (generation : ℕ)
  deriving DecidableEq, Repr

/-- What can be observed. -/
inductive Entry
  /-- `request` is called, and will return this handle. -/
  | registered (handle : ℕ)
  /-- `cancel` is called with a handle. -/
  | cancelled (handle : ℕ)
  /-- `reset` is called, or `configure`, which begins with it. -/
  | reset
  /-- `configure` goes on with this account. -/
  | configured (uid : ℤ)
  /-- An answer to a renewal arrives. -/
  | delivered (requestId : ℕ) (uid : ℤ) (token : Text)
  /-- The code calls a callback. -/
  | callback (handle : ℕ) (code : ℕ)
  /-- It sends a network request with its bearer token. -/
  | sent (handle : ℕ) (token : Text)
  /-- It issues a renewal while this account is configured. -/
  | renewal (requestId : ℕ) (uid : ℤ)
  deriving DecidableEq, Repr

structure State where
  base_ : Url := {}
  uid_ : ℤ := 0
  token_ : Text := []
  /-- `renewal_` is running. -/
  renewal_ : Bool := false
  renewing_ : Bool := false
  generation_ : ℕ := 0
  renewalRequestId_ : Option ℕ := none
  waiting_ : List Closure := []
  active_ : List Reply := []
  timers : List Timer := []
  controls : List Control := []
  /-- The next fresh id of a renewal. -/
  nextId : ℕ := 0
  /-- The closures the token handler still has to run. -/
  pending : List Closure := []
  /-- `configure` is in its call of `reset`. -/
  configuring : Option (Url × ℤ) := none
  log : List Entry := []
  deriving DecidableEq

/-! ## Calls -/

namespace State

def note (s : State) (e : Entry) : State := { s with log := s.log ++ [e] }

def callback (s : State) (handle code : ℕ) : State := s.note (.callback handle code)

def reset (s : State) : State :=
  { s with
    generation_ := s.generation_ + 1
    renewal_ := false
    token_ := []
    waiting_ := []
    renewing_ := false
    uid_ := 0
    base_ := {}
    renewalRequestId_ := none }

def renew (s : State) : State :=
  if s.renewing_ = true ∨ s.uid_ ≤ 0 then s
  else { s with
    renewing_ := true
    renewalRequestId_ := some s.nextId
    nextId := s.nextId + 1
    timers := s.timers ++ [.renewalTimeout s.generation_ s.nextId]
    log := s.log ++ [.renewal s.nextId s.uid_] }

/-- `cancel`; a handle that is none of a control object is null. -/
def cancel (s : State) (handle : ℕ) : State :=
  { s with controls := s.controls.modify handle fun control => { control with cancelled := true } }

def cancelled (s : State) (handle : ℕ) : Bool :=
  match s.controls[handle]? with
  | some control => control.cancelled
  | none => true

/-- The control object has been neither cancelled nor left behind. -/
def live (s : State) (handle : ℕ) : Bool :=
  match s.controls[handle]? with
  | some control => !control.cancelled && control.generation == s.generation_
  | none => false

def validEndpoint (s : State) (handle : ℕ) : Bool :=
  match s.controls[handle]? with
  | some control =>
    s.base_.scheme == "https" && s.base_.host != "" && s.base_.userInfo == "" &&
      control.path.head? == some '/'
  | none => false

def send (s : State) (c : Closure) : State :=
  { s with
    active_ := s.active_ ++ [⟨c, s.generation_⟩]
    log := s.log ++ [.sent c.handle s.token_] }

/-- `request` with a control object. -/
def requestWith (s : State) (c : Closure) : State :=
  if s.live c.handle = false then s
  else if s.uid_ ≤ 0 then s.callback c.handle 401
  else if s.validEndpoint c.handle = false then s.callback c.handle 400
  else if s.token_ = [] then
    if 64 ≤ s.waiting_.length then s.callback c.handle 503
    else { s with waiting_ := s.waiting_ ++ [c] }.renew
  else s.send c

/-- `request` makes a control object. -/
def register (s : State) (path : Text) : State :=
  { s with controls := s.controls ++ [{ path, generation := s.generation_ }] }

def request (s : State) (path : Text) : State :=
  (s.register path).requestWith ⟨s.controls.length, 0⟩

/-- The handler of `sig_resource_token`, up to its loop. -/
def tokenResponse (s : State) (uid : ℤ) (requestId : Option ℕ) (token : Text) : State :=
  match requestId with
  | none => s
  | some requestId =>
    if s.renewing_ = false ∨ s.uid_ ≤ 0 ∨ uid ≠ s.uid_ ∨ s.renewalRequestId_ ≠ some requestId then s
    else if token = [] then
      { s with
        renewing_ := false
        token_ := []
        timers := s.timers ++ [.emptyToken s.generation_] }
    else
      { s with
        renewing_ := false
        token_ := token
        renewal_ := true
        pending := s.pending ++ s.waiting_
        waiting_ := [] }

/-- The handler of `finished`, for a reply that has been taken from `active_`. -/
def finished (s : State) (r : Reply) (code : ℕ) (failed : Bool) : State :=
  if r.generation ≠ s.generation_ ∨ s.cancelled r.closure.handle = true then s
  else if r.closure.retry < 5 ∧ (code = 401 ∨ code = 429 ∨ code = 503 ∨ code = 0) then
    { s with
      token_ := if code = 401 then [] else s.token_
      timers := s.timers ++ [.retry ⟨r.closure.handle, r.closure.retry + 1⟩ s.generation_] }
  else s.callback r.closure.handle (if code = 0 ∨ (failed = true ∧ code < 400) then 503 else code)

/-- A single-shot timer fires, after it has been taken from `timers`. -/
def fire (s : State) : Timer → State
  | .emptyToken generation => if generation = s.generation_ then s.renew else s
  | .renewalTimeout generation requestId =>
    if generation = s.generation_ ∧ s.renewing_ = true ∧ s.renewalRequestId_ = some requestId then
      { s with renewing_ := false }.renew
    else s
  | .retry closure generation =>
    if generation = s.generation_ ∧
      s.cancelled closure.handle = false then s.requestWith closure else s

/-- `configure` after its call of `reset`. -/
def assign (s : State) (url : Url) (uid : ℤ) : State :=
  { s with
    base_ := if url.path = "" ∨
      url.path = "/" then { url with path := "/api/resources/v1" } else url
    uid_ := uid
    configuring := none }

end State

/-! ## Events -/

inductive Event
  | configure (url : Url) (uid : ℤ)
  /-- `configure` goes on after `reset`. -/
  | assign
  | reset
  | cancel (handle : ℕ)
  | request (path : Text)
  /-- `renewal_` fires, or the connection is up again. -/
  | renewalTimer
  | connected
  | tokenResponse (uid : ℤ) (requestId : Option ℕ) (token : Text)
  /-- The token handler runs its next closure. -/
  | resume
  | finished (index code : ℕ) (failed : Bool)
  | timer (index : ℕ)

/-- What can happen inside the call of `reset` in `configure`: what a handler of `resetAccount`
does, and replies that are aborted. -/
def Event.nested : Event → Bool
  | .assign | .reset | .cancel _ | .request _ | .finished _ _ _ => true
  | _ => false

/-- What comes in with an event. -/
def Event.arrives (s : State) : Event → Option Entry
  | .configure _ _ | .reset => some .reset
  | .assign => s.configuring.map fun c => .configured c.2
  | .cancel handle => if handle < s.controls.length then some (.cancelled handle) else none
  | .request _ => some (.registered s.controls.length)
  | .tokenResponse uid (some requestId) token => some (.delivered requestId uid token)
  | _ => none

def State.noteArrival (s : State) (e : Event) : State :=
  match e.arrives s with
  | some entry => s.note entry
  | none => s

/-- What the code does at an event. -/
def react (s : State) (e : Event) : Option State :=
  if s.configuring ≠ none ∧ e.nested = false then none
  else match e with
  | .configure url uid => some { s.reset with configuring := some (url, uid) }
  | .assign => s.configuring.map fun c => s.assign c.1 c.2
  | .reset => some s.reset
  | .cancel handle => some (s.cancel handle)
  | .request path => some (s.request path)
  | .renewalTimer => if s.renewal_ then some s.renew else none
  | .connected => some s.renew
  | .tokenResponse uid requestId token => some (s.tokenResponse uid requestId token)
  | .resume =>
    match s.pending with
    | [] => none
    | c :: rest => some ({ s with pending := rest }.requestWith c)
  | .finished index code failed =>
    s.active_[index]?.map fun r =>
      { s with active_ := s.active_.eraseIdx index }.finished r code failed
  | .timer index =>
    s.timers[index]?.map fun t => { s with timers := s.timers.eraseIdx index }.fire t

def step (s : State) (e : Event) : Option State := react (s.noteArrival e) e

inductive Reachable : State → Prop
  | init : Reachable {}
  | step {s s' : State} {e : Event} (hs : Reachable s) (h : step s e = some s') : Reachable s'

def run (s : State) : List Event → Option State
  | [] => some s
  | e :: es => (step s e).bind fun s' => run s' es

theorem Reachable.run {s s' : State} (hs : Reachable s) {es : List Event}
    (h : ResourceHttp.run s es = some s') : Reachable s' := by
  induction es generalizing s with
  | nil => exact Option.some.inj h ▸ hs
  | cons e es ih =>
    obtain ⟨s₁, hstep, hrest⟩ := Option.bind_eq_some_iff.mp h
    exact ih (.step hs hstep) hrest

end DistributedChat.ResourceHttp
