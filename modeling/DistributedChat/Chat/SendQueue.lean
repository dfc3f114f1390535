import DistributedChat.Chat.Framing
import DistributedChat.Lib.Calls

/-!
# The outgoing frames of a session

`Send`, `StartWrite`, `HandleWrite` and `Close` of `chat/network/CSession.cpp`. Any number of
threads send; the executor of the socket runs `StartWrite` after it was posted and `HandleWrite`
after a write has ended, well or not. What happens under `_send_lock` is one step; `_b_close` is
read and set outside of it too. Numbers of type `size_t` have 64 bits.

There is one baton: it lies idle while the queue is empty, and from the frame that finds the queue
empty on it goes from the posted call to the thread that runs it, to the socket, to the ended write
and to its handler, which passes it on with the next frame. It can only get lost once the session is
closed.

What each call of `Send` returned is noted at its return, beside the frames that were put into the
queue.
-/

namespace DistributedChat.SendQueue

open Lib List
open Chat (HEAD_TOTAL_LEN sendNode)

/-! ## Frames -/

def MAX_SENDQUE : ℕ := 1000
def SendByteLimit : ℕ := 4 * 1024 * 1024

structure SendNode where
  msg_id : ℕ
  msg : Bytes
  deriving DecidableEq, Repr

/-- `_data`: the id, the length and the message. -/
def SendNode.data (n : SendNode) : Bytes := sendNode n.msg n.msg_id

/-- `_total_len`. -/
def SendNode.total_len (n : SendNode) : ℕ := n.data.length

theorem SendNode.total_len_eq (n : SendNode) : n.total_len = n.msg.length + HEAD_TOTAL_LEN := by
  simp only [total_len, data, sendNode, be16, HEAD_TOTAL_LEN, length_append, length_cons,
    length_nil]
  omega

def sub64 (a b : ℕ) : ℕ := (a + 2 ^ 64 - b) % 2 ^ 64

theorem sub64_eq {a b : ℕ} (h : b ≤ a) (ha : a < 2 ^ 64) : sub64 a b = a - b := by
  unfold sub64
  omega

/-! ## State -/

structure State where
  /-- `_b_close`. -/
  closed : Bool := false
  send_que : List SendNode := []
  send_bytes : ℕ := 0
  /-- The calls of `StartWrite` that were posted. -/
  posted : ℕ := 0
  /-- The writes the socket is working on. -/
  writing : List SendNode := []
  /-- The writes that have ended, well or not, whose handler has not run yet. -/
  ended : List Bool := []
  /-- The front of an empty queue has been read. -/
  undefined : Bool := false
  /-- The calls of `Send`: those that put their frame into the queue, and what each returned. -/
  calls : Ledger ℕ SendNode := {}
  /-- The frames handed to the socket. -/
  written : List SendNode := []
  deriving DecidableEq

/-- The frames that were put into the queue. -/
def State.accepted (s : State) : List SendNode := s.calls.items

/-- `async_write`. -/
def State.async_write (s : State) (n : SendNode) : State :=
  { s with writing := s.writing ++ [n], written := s.written ++ [n] }

/-- The bytes of the frames in the queue. -/
def State.queuedBytes (s : State) : ℕ := (s.send_que.map SendNode.total_len).sum

/-! ## Programs -/

inductive Call
  | load
  | exchange
  /-- `Send` under the lock. -/
  | push (msg : Bytes) (msgid : ℕ)
  /-- The executor takes a posted call. -/
  | takePosted
  /-- `StartWrite` under the lock. -/
  | startFront
  /-- The executor takes an ended write. -/
  | takeEnded
  /-- `HandleWrite` under the lock. -/
  | popFront
  /-- The socket ends a write. -/
  | endWrite
  /-- `Send` returns `r`. -/
  | returned (n : SendNode) (r : Bool)

abbrev Call.Answer : Call → Type
  | .load | .exchange | .push _ _ | .takeEnded => Bool
  | _ => Unit

abbrev Svc := Task Call Call.Answer Empty

def call (e : Call) : Svc e.Answer := Task.perform e .ok

/-- `Close`, as far as it concerns the queue. -/
def Close : Svc Unit := do
  let _ ← call .exchange

def Send (msg : Bytes) (msgid : ℕ) : Svc Bool := do
  if 65535 < msg.length then do
    Close
    return false
  else if (← call .load) then return false
  else call (.push msg msgid)

def StartWrite : Svc Unit := do
  if (← call .load) then return ()
  else call .startFront

def HandleWrite (error : Bool) : Svc Unit :=
  if error then Close else call .popFront

/-! ## The session -/

/-- What is left open in an effect: the write it is about, and how that ended. -/
structure Pick where
  index : ℕ := 0
  error : Bool := false

def perform (t : ℕ) (e : Call) (p : Pick) (s : State) : Option (e.Answer × State) :=
  match e with
  | .load => some (s.closed, s)
  | .exchange => some (s.closed, { s with closed := true })
  | .push msg msgid =>
    let send_que_size := s.send_que.length
    let frame_bytes := msg.length + HEAD_TOTAL_LEN
    if s.closed then some (false, s)
    else if MAX_SENDQUE ≤ send_que_size ∨ sub64 SendByteLimit s.send_bytes < frame_bytes then
      some (false, s)
    else some (true, { s with
      send_que := s.send_que ++ [⟨msgid, msg⟩]
      send_bytes := (s.send_bytes + frame_bytes) % 2 ^ 64
      posted := if 0 < send_que_size then s.posted else s.posted + 1
      calls := s.calls.record t (.takes ⟨msgid, msg⟩) true })
  | .takePosted => if s.posted = 0 then none else some ((), { s with posted := s.posted - 1 })
  | .startFront =>
    match s.send_que with
    | [] => some ((), s)
    | node :: _ => some ((), s.async_write node)
  | .takeEnded =>
    (s.ended[p.index]?).map fun error => (error, { s with ended := s.ended.eraseIdx p.index })
  | .popFront =>
    match s.send_que with
    | [] => some ((), { s with undefined := true })
    | node :: rest =>
      let s := { s with send_que := rest, send_bytes := sub64 s.send_bytes node.total_len }
      match rest with
      | [] => some ((), s)
      | msgnode :: _ => some ((), if s.closed then s else s.async_write msgnode)
  | .endWrite =>
    if p.index < s.writing.length then
      some ((), { s with writing := s.writing.eraseIdx p.index, ended := s.ended ++ [p.error] })
    else none
  | .returned n r => some ((), { s with calls := s.calls.record t (.returns n r) true })

inductive Launch
  | send (msg : Bytes) (msgid : ℕ)
  | close
  | startWrite
  | handleWrite
  | socket

def program : Launch → Svc Unit
  | .send msg msgid => do
    let r ← Send msg msgid
    call (.returned ⟨msgid, msg⟩ r)
  | .close => Close
  | .startWrite => do
    call .takePosted
    StartWrite
  | .handleWrite => do
    let error ← call .takeEnded
    HandleWrite error
  | .socket => call .endWrite

/-- The session, with any number of threads; each call has a new one. -/
def session : System ℕ Call Call.Answer (Except Empty Unit) State where
  init s := s = {}
  exec t e s r s' := ∃ p, perform t e p s = some (r, s')
  start t s p := s.calls.Unused t ∧ ∃ l, p = program l
  stop _ p s s' := (∃ a, p = .ret a) ∧ s' = s
  env _ _ := False

/-! ## Who holds the baton -/

/-- What a thread is about to do with the baton. -/
inductive Stage
  | plain
  | starting
  | handling (error : Bool)
  deriving DecidableEq

def Call.Allow (m : Stage) : Call → Prop
  | .load => m = .plain ∨ m = .starting
  | .exchange => m = .plain ∨ m = .handling true
  | .startFront => m = .starting
  | .popFront => m = .handling false
  | _ => m = .plain

/-- A closed session ends `StartWrite`. -/
def Call.next (m : Stage) : (e : Call) → e.Answer → Stage
  | .load, closed => if closed then .plain else m
  | .takePosted, _ => .starting
  | .takeEnded, error => .handling error
  | .push _ _, _ => m
  | .endWrite, _ => m
  | .returned _ _, _ => m
  | .exchange, _ => .plain
  | .startFront, _ => .plain
  | .popFront, _ => .plain

def discipline : Monitor Call Call.Answer where
  Ghost := Stage
  allow m e := e.Allow m
  answer _ _ _ := True
  next m e r := e.next m r
  final m := m = .plain

theorem meets_program (l : Launch) :
    Meets discipline (fun m _ => discipline.final m) .plain (program l) := by
  cases l with
  | send msg msgid =>
    by_cases hlong : 65535 < msg.length
    · simp only [program, Send, if_pos hlong]
      exact ⟨Or.inl rfl, fun _ _ => ⟨rfl, fun _ _ => rfl⟩⟩
    · simp only [program, Send, if_neg hlong]
      refine ⟨Or.inl rfl, fun closed _ => ?_⟩
      cases closed with
      | true => exact ⟨rfl, fun _ _ => rfl⟩
      | false => exact ⟨rfl, fun _ _ => ⟨rfl, fun _ _ => rfl⟩⟩
  | close => exact ⟨Or.inl rfl, fun _ _ => rfl⟩
  | startWrite =>
    refine ⟨rfl, fun _ _ => ⟨Or.inr rfl, fun closed _ => ?_⟩⟩
    cases closed with
    | true => exact rfl
    | false => exact ⟨rfl, fun _ _ => rfl⟩
  | handleWrite =>
    refine ⟨rfl, fun error _ => ?_⟩
    cases error with
    | true => exact ⟨Or.inr rfl, fun _ _ => rfl⟩
    | false => exact ⟨rfl, fun _ _ => rfl⟩
  | socket => exact ⟨rfl, fun _ _ => rfl⟩

inductive Baton
  | idle
  | posted
  | starting (t : ℕ)
  | writing
  | ended (error : Bool)
  | handling (t : ℕ) (error : Bool)
  | lost
  deriving DecidableEq

/-- What thread `t` does with the baton. -/
def Baton.stage (t : ℕ) : Baton → Stage
  | .starting t' => if t' = t then .starting else .plain
  | .handling t' error => if t' = t then .handling error else .plain
  | _ => .plain

def Baton.endings : Baton → List Bool
  | .ended error => [error]
  | _ => []

/-- The front of the queue has been handed to the socket. -/
def Baton.Handed : Baton → Prop
  | .writing | .ended _ | .handling _ _ => True
  | _ => False

/-- The threads know who holds the baton. -/
structure Shared (b : Baton) (g : ℕ → Option Stage) : Prop where
  known : ∀ t m, g t = some m → m = b.stage t
  holder : ∀ t, g t = none → b.stage t = .plain

/-- The baton is where the state says. -/
structure Placed (b : Baton) (s : State) : Prop where
  posted : s.posted = if b = .posted then 1 else 0
  writing : s.writing = if b = .writing then s.send_que.take 1 else []
  ended : s.ended = b.endings
  idle : s.send_que = [] ↔ b = .idle
  lost : b = .lost → s.closed = true

/-- The frames handed to the socket are those that have left the queue, and its front if it has been
handed over. -/
structure Frames (b : Baton) (s : State) : Prop where
  sent : ∃ done, s.accepted = done ++ s.send_que ∧
    (s.written = done ∧ ¬ b.Handed ∨ s.written = done ++ s.send_que.take 1 ∧ (b.Handed ∨ b = .lost))
  bytes : s.send_bytes = s.queuedBytes
  limit : s.send_bytes ≤ SendByteLimit
  defined : s.undefined = false

structure Ok (b : Baton) (s : State) : Prop where
  placed : Placed b s
  frames : Frames b s

section Steps

variable {b b' : Baton} {s s' : State} {g : ℕ → Option Stage} {t : ℕ} {m m' : Stage}

theorem Shared.pass (h : Shared b g) (ht : b'.stage t = m')
    (hothers : ∀ t', t' ≠ t → b'.stage t' = b.stage t') :
    Shared b' (Function.update g t (some m')) where
  known := forall_set ht.symm fun t' n hne hn => (h.known t' n hn).trans (hothers t' hne).symm
  holder := forall_unset fun t' hne hnone => (hothers t' hne).trans (h.holder t' hnone)

theorem Baton.eq_starting {b : Baton} (h : b.stage t = .starting) : b = .starting t := by
  cases b with
  | starting t' =>
    rw [stage] at h
    split at h
    · rename_i heq
      rw [heq]
    · cases h
  | handling t' error =>
    rw [stage] at h
    split at h <;> cases h
  | _ => cases h

variable {error : Bool}

theorem Baton.eq_handling {b : Baton} (h : b.stage t = .handling error) :
    b = .handling t error := by
  cases b with
  | starting t' =>
    rw [stage] at h
    split at h <;> cases h
  | handling t' error' =>
    rw [stage] at h
    split at h
    · rename_i heq
      cases h
      rw [heq]
    · cases h
  | _ => cases h

theorem Baton.stage_starting_of_ne {t' : ℕ} (h : t' ≠ t) : (Baton.starting t).stage t' = .plain :=
  if_neg h.symm

theorem Baton.stage_handling_of_ne {t' : ℕ} (h : t' ≠ t) :
    (Baton.handling t error).stage t' = .plain := if_neg h.symm

variable {p : Pick}

theorem Ok.push (h : Ok b s) {msg : Bytes} {msgid : ℕ} {r : Bool}
    (hp : perform t (.push msg msgid) p s = some (r, s')) :
    ∃ b', Ok b' s' ∧ ∀ t, b'.stage t = b.stage t := by
  simp only [perform] at hp
  split at hp
  · cases hp
    exact ⟨b, h, fun _ => rfl⟩
  split at hp
  · cases hp
    exact ⟨b, h, fun _ => rfl⟩
  rename_i hopen hroom
  cases hp
  obtain ⟨⟨hposted, hwriting, hended, hidle, hlost⟩, ⟨done, haccepted, hwritten⟩, hbytes, hlimit,
    hdefined⟩ := h
  have hmax : SendByteLimit < 2 ^ 64 := by decide
  rw [sub64_eq hlimit hmax] at hroom
  have hsum : (s.send_bytes + (msg.length + HEAD_TOTAL_LEN)) % 2 ^ 64 =
      s.send_bytes + (msg.length + HEAD_TOTAL_LEN) ∧
      s.send_bytes + (msg.length + HEAD_TOTAL_LEN) ≤ SendByteLimit := by
    omega
  have hqueued : (((s.send_que ++ [(⟨msgid, msg⟩ : SendNode)]).map SendNode.total_len).sum) =
      s.queuedBytes + (msg.length + HEAD_TOTAL_LEN) := by
    rw [map_append, sum_append, map_singleton, sum_singleton, SendNode.total_len_eq]
    rfl
  have hframes : ∀ b', (b'.Handed ↔ b.Handed) → (b' = .lost ↔ b = .lost) →
      (s.send_que = [] → ¬ b.Handed ∧ b ≠ .lost) →
      Frames b' { s with
        send_que := s.send_que ++ [⟨msgid, msg⟩]
        send_bytes := (s.send_bytes + (msg.length + HEAD_TOTAL_LEN)) % 2 ^ 64
        posted := if 0 < s.send_que.length then s.posted else s.posted + 1
        calls := s.calls.record t (.takes ⟨msgid, msg⟩) true } := by
    intro b' hhanded hlost' hnone
    refine ⟨⟨done, ?_, ?_⟩, ?_, ?_, hdefined⟩
    · rw [State.accepted, Ledger.items_record_granted, ← append_assoc, ← haccepted]
      rfl
    · rw [hhanded, hlost']
      refine hwritten.imp_right fun ⟨hw, hb⟩ => ⟨hw.trans ?_, hb⟩
      cases hq : s.send_que with
      | nil => exact absurd hb (not_or.mpr (hnone hq))
      | cons n rest => rfl
    · rw [hsum.1, hbytes]
      exact hqueued.symm
    · rw [hsum.1]
      exact hsum.2
  have hne : s.send_que ++ [(⟨msgid, msg⟩ : SendNode)] ≠ [] := by simp
  by_cases hempty : s.send_que = []
  · -- the frame is alone: its write is posted
    obtain rfl := hidle.mp hempty
    refine ⟨.posted, ⟨⟨?_, hwriting, hended, ⟨fun h => absurd h hne, nofun⟩, nofun⟩, ?_⟩,
      fun _ => rfl⟩
    · simp only [hempty, length_nil, hposted, if_true]
      rfl
    · exact hframes _ Iff.rfl ⟨nofun, nofun⟩ fun _ => ⟨id, nofun⟩
  · refine ⟨b, ⟨⟨?_, ?_, hended, ?_, hlost⟩, ?_⟩, fun _ => rfl⟩
    · simp only [length_pos_of_ne_nil hempty, if_true, hposted]
    · rw [show s.writing = _ from hwriting]
      cases hq : s.send_que with
      | nil => exact absurd hq hempty
      | cons n rest => rfl
    · exact ⟨fun h => absurd h hne, fun h => absurd (hidle.mpr h) hempty⟩
    · exact hframes b Iff.rfl Iff.rfl fun h => absurd h hempty

theorem Ok.takePosted (h : Ok b s) {r : Unit} (hp : perform t .takePosted p s = some (r, s'))
    (t' : ℕ) :
    b = .posted ∧ Ok (.starting t') s' := by
  obtain ⟨⟨hposted, hwriting, hended, hidle, hlost⟩, ⟨done, haccepted, hwritten⟩, hbytes, hlimit,
    hdefined⟩ := h
  simp only [perform] at hp
  split at hp
  · cases hp
  rename_i hpos
  cases hp
  obtain rfl : b = .posted := by
    by_contra hne
    rw [if_neg hne] at hposted
    exact hpos hposted
  rw [if_pos rfl] at hposted
  refine ⟨rfl, ⟨?_, hwriting, hended, ⟨fun h => ?_, nofun⟩, nofun⟩, ⟨done, haccepted, ?_⟩, hbytes,
    hlimit,
    hdefined⟩
  · simp only [hposted]
    rfl
  · cases hidle.mp h
  · exact Or.inl ⟨(hwritten.resolve_right fun h => h.2.elim id nofun).1, id⟩

theorem Ok.startFront (h : Ok (.starting t) s) {r : Unit}
    (hp : perform t .startFront p s = some (r, s')) :
    Ok .writing s' := by
  obtain ⟨⟨hposted, hwriting, hended, hidle, hlost⟩, ⟨done, haccepted, hwritten⟩, hbytes, hlimit,
    hdefined⟩ := h
  simp only [perform] at hp
  have hwritten := (hwritten.resolve_right fun h => h.2.elim id nofun).1
  split at hp
  · rename_i hempty
    cases hidle.mp hempty
  · rename_i n rest hque
    cases hp
    refine ⟨⟨hposted, ?_, hended, ⟨fun h => ?_, nofun⟩, nofun⟩,
      ⟨done, haccepted, Or.inr ⟨?_, Or.inl trivial⟩⟩,
      hbytes, hlimit, hdefined⟩
    · simp only [State.async_write, show s.writing = [] from hwriting, hque]
      rfl
    · cases hidle.mp h
    · simp only [State.async_write, hwritten, hque]
      rfl

theorem Ok.endWrite (h : Ok b s) {r : Unit} (hp : perform t .endWrite p s = some (r, s')) :
    b = .writing ∧ Ok (.ended p.error) s' := by
  obtain ⟨⟨hposted, hwriting, hended, hidle, hlost⟩, ⟨done, haccepted, hwritten⟩, hbytes, hlimit,
    hdefined⟩ := h
  obtain ⟨hindex, hp⟩ := Option.ite_none_right_eq_some.mp hp
  cases hp
  obtain rfl : b = .writing := by
    by_contra hne
    rw [hwriting, if_neg hne] at hindex
    exact absurd hindex (Nat.not_lt_zero _)
  have hque : s.send_que ≠ [] := fun h => by cases hidle.mp h
  have hone : s.writing.eraseIdx p.index = [] := by
    rw [hwriting, if_pos rfl] at hindex ⊢
    have hle : (s.send_que.take 1).length ≤ 1 := length_take_le 1 _
    exact eq_nil_of_length_eq_zero (by rw [length_eraseIdx_of_lt hindex]; omega)
  refine ⟨rfl, ⟨hposted, hone, ?_, ⟨fun h => absurd h hque, nofun⟩, nofun⟩, ⟨done, haccepted, ?_⟩,
    hbytes,
    hlimit, hdefined⟩
  · rw [show s.ended = [] from hended]
    rfl
  · exact Or.inr ⟨(hwritten.resolve_left fun h => h.2 trivial).1, Or.inl trivial⟩

theorem Ok.takeEnded (h : Ok b s) (hp : perform t .takeEnded p s = some (error, s')) (t' : ℕ) :
    b = .ended error ∧ Ok (.handling t' error) s' := by
  obtain ⟨⟨hposted, hwriting, hended, hidle, hlost⟩, ⟨done, haccepted, hwritten⟩, hbytes, hlimit,
    hdefined⟩ := h
  simp only [perform] at hp
  obtain ⟨error', hget, heq⟩ := Option.map_eq_some_iff.mp hp
  cases heq
  cases b with
  | ended error' =>
    have hended : s.ended = [error'] := hended
    rw [hended] at hget ⊢
    have hque : s.send_que ≠ [] := fun h => by cases hidle.mp h
    cases hindex : p.index with
    | zero =>
      rw [hindex] at hget
      cases hget
      refine ⟨rfl, ⟨hposted, hwriting, rfl, ⟨fun h => absurd h hque, nofun⟩, nofun⟩,
        ⟨done, haccepted, ?_⟩, hbytes, hlimit, hdefined⟩
      exact Or.inr ⟨(hwritten.resolve_left fun h => h.2 trivial).1, Or.inl trivial⟩
    | succ i =>
      rw [hindex] at hget
      cases hget
  | _ =>
    rw [show s.ended = [] from hended] at hget
    cases hget

theorem Ok.popFront (h : Ok (.handling t false) s) {r : Unit}
    (hp : perform t .popFront p s = some (r, s')) :
    ∃ b', Ok b' s' ∧ ∀ t', b'.stage t' = .plain := by
  obtain ⟨⟨hposted, hwriting, hended, hidle, hlost⟩, ⟨done, haccepted, hwritten⟩, hbytes, hlimit,
    hdefined⟩ := h
  have hwritten := (hwritten.resolve_left fun h => h.2 trivial).1
  simp only [perform] at hp
  split at hp
  · rename_i hempty
    cases hidle.mp hempty
  rename_i n rest hque
  have hsum : s.queuedBytes = n.total_len + (rest.map SendNode.total_len).sum := by
    rw [State.queuedBytes, hque, map_cons, sum_cons]
  have hleft : sub64 s.send_bytes n.total_len = (rest.map SendNode.total_len).sum := by
    have hmax : SendByteLimit < 2 ^ 64 := by decide
    rw [sub64_eq (by omega) (by omega)]
    omega
  have hdone : s.accepted = (done ++ [n]) ++ rest := by rw [haccepted, hque, append_assoc]; rfl
  have hwritten : s.written = done ++ [n] := by rw [hwritten, hque]; rfl
  have hlimit : sub64 s.send_bytes n.total_len ≤ SendByteLimit := by omega
  have hwriting : s.writing = [] := hwriting
  split at hp
  · -- the queue is empty
    cases hp
    exact ⟨.idle, ⟨⟨hposted, hwriting, hended, ⟨fun _ => rfl, fun _ => rfl⟩, nofun⟩,
      ⟨done ++ [n], hdone, Or.inl ⟨hwritten, id⟩⟩, hleft, hlimit, hdefined⟩, fun _ => rfl⟩
  · rename_i next rest'
    cases hp
    cases hclosed : s.closed with
    | true =>
      rw [if_pos rfl]
      exact ⟨.lost, ⟨⟨hposted, hwriting, hended, ⟨nofun, nofun⟩, fun _ => rfl⟩,
        ⟨done ++ [n], hdone, Or.inl ⟨hwritten, id⟩⟩, hleft, hlimit, hdefined⟩, fun _ => rfl⟩
    | false =>
      rw [if_neg Bool.false_ne_true]
      refine ⟨.writing, ⟨⟨hposted, ?_, hended, ⟨nofun, nofun⟩, nofun⟩,
        ⟨done ++ [n], hdone, Or.inr ⟨?_, Or.inl trivial⟩⟩, hleft, hlimit, hdefined⟩, fun _ => rfl⟩
      · simp only [State.async_write, hwriting]
        rfl
      · simp only [State.async_write, hwritten]
        rfl

theorem Ok.lose (h : Ok b s) (hclosed : s.closed = true)
    (hb : b = .starting t ∨ b = .handling t true) : Ok .lost s := by
  obtain ⟨⟨hposted, hwriting, hended, hidle, hlost⟩, ⟨done, haccepted, hwritten⟩, hbytes, hlimit,
    hdefined⟩ := h
  have hque : s.send_que ≠ [] := fun h => by
    rcases hb with rfl | rfl <;> cases hidle.mp h
  refine ⟨⟨?_, ?_, ?_, ⟨fun h => absurd h hque, nofun⟩, fun _ => hclosed⟩, ⟨done, haccepted, ?_⟩,
    hbytes, hlimit,
    hdefined⟩
  · rcases hb with rfl | rfl <;> exact hposted
  · rcases hb with rfl | rfl <;> exact hwriting
  · rcases hb with rfl | rfl <;> exact hended
  · rcases hb with rfl | rfl
    · exact Or.inl ⟨(hwritten.resolve_right fun h => h.2.elim id nofun).1, id⟩
    · exact Or.inr ⟨(hwritten.resolve_left fun h => h.2 trivial).1, Or.inr rfl⟩

theorem Ok.exchange (h : Ok b s) : Ok b { s with closed := true } :=
  ⟨{ h.placed with lost := fun _ => rfl }, { h.frames with }⟩

theorem Ok.returned (h : Ok b s) (n : SendNode) (r : Bool) :
    Ok b { s with calls := s.calls.record t (.returns n r) true } :=
  ⟨{ h.placed with }, { h.frames with }⟩

theorem ok_perform (h : Ok b s) (hg : Shared b g) (hm : g t = some m) {e : Call}
    (hallow : e.Allow m)
    {r : e.Answer} (hp : perform t e p s = some (r, s')) :
    ∃ b', Ok b' s' ∧ Shared b' (Function.update g t (some (e.next m r))) := by
  have hstage := hg.known t m hm
  cases e with
  | load =>
    cases hp
    rcases hallow with rfl | rfl
    · refine ⟨b, h, hg.pass ?_ fun _ _ => rfl⟩
      rw [← hstage, Call.next, ite_self]
    · obtain rfl := Baton.eq_starting hstage.symm
      cases hclosed : s.closed with
      | true =>
        refine ⟨.lost, h.lose hclosed (Or.inl rfl), hg.pass rfl fun t' ht' => ?_⟩
        rw [Baton.stage_starting_of_ne ht']
        rfl
      | false => exact ⟨_, h, hg.pass hstage.symm fun _ _ => rfl⟩
  | exchange =>
    cases hp
    rcases hallow with rfl | rfl
    · exact ⟨b, h.exchange, hg.pass hstage.symm fun _ _ => rfl⟩
    · obtain rfl := Baton.eq_handling hstage.symm
      refine ⟨.lost, h.exchange.lose rfl (Or.inr rfl), hg.pass rfl fun t' ht' => ?_⟩
      rw [Baton.stage_handling_of_ne ht']
      rfl
  | push msg msgid =>
    obtain ⟨b', hok, hstages⟩ := h.push hp
    exact ⟨b', hok, hg.pass ((hstages t).trans hstage.symm) fun t' _ => hstages t'⟩
  | takePosted =>
    obtain ⟨rfl, hok⟩ := h.takePosted hp t
    exact ⟨_, hok, hg.pass (if_pos rfl) fun t' ht' => Baton.stage_starting_of_ne ht'⟩
  | startFront =>
    cases hallow
    obtain rfl := Baton.eq_starting hstage.symm
    refine ⟨_, h.startFront hp, hg.pass rfl fun t' ht' => ?_⟩
    rw [Baton.stage_starting_of_ne ht']
    rfl
  | takeEnded =>
    obtain ⟨rfl, hok⟩ := h.takeEnded hp t
    exact ⟨_, hok, hg.pass (if_pos rfl) fun t' ht' => Baton.stage_handling_of_ne ht'⟩
  | popFront =>
    cases hallow
    obtain rfl := Baton.eq_handling hstage.symm
    obtain ⟨b', hok, hstages⟩ := h.popFront hp
    refine ⟨b', hok, hg.pass (hstages t) fun t' ht' => ?_⟩
    rw [hstages, Baton.stage_handling_of_ne ht']
  | endWrite =>
    cases hallow
    obtain ⟨rfl, hok⟩ := h.endWrite hp
    exact ⟨_, hok, hg.pass rfl fun _ _ => rfl⟩
  | returned n r =>
    cases hp
    exact ⟨b, h.returned n r, hg.pass hstage.symm fun _ _ => rfl⟩

end Steps

theorem ok_inductive : Inductive session discipline fun s g => ∃ b, Ok b s ∧ Shared b g where
  init := by
    rintro s rfl
    exact ⟨.idle,
      ⟨⟨rfl, rfl, rfl, ⟨fun _ => rfl, fun _ => rfl⟩, nofun⟩, ⟨[], rfl, Or.inl ⟨rfl, id⟩⟩, rfl,
      Nat.zero_le _, rfl⟩, nofun, fun _ _ => rfl⟩
  env _ _ _ _ h := h.elim
  start := by
    rintro s g t p ⟨b, hok, hg⟩ hfree ⟨-, l, rfl⟩
    exact ⟨.plain, meets_program l, b, hok, hg.pass (hg.holder t hfree) fun _ _ => rfl⟩
  call := by
    rintro s s' g t m e r ⟨b, hok, hg⟩ hm hallow ⟨p, hp⟩
    exact ⟨trivial, ok_perform hok hg hm hallow hp⟩
  stop := by
    rintro s s' g t m p ⟨b, hok, hg⟩ hm hmeets ⟨⟨a, rfl⟩, rfl⟩
    have hplain : m = .plain := hmeets
    refine ⟨b, hok, fun t' n hn => ?_, fun t' hnone => ?_⟩
    · rcases update_cases hn with ⟨rfl, hnew⟩ | ⟨heq, hn⟩
      · cases hnew
      · exact hg.known t' n hn
    · by_cases heq : t' = t
      · subst heq
        rw [← hg.known t' m hm, hplain]
      · rw [Function.update_of_ne heq] at hnone
        exact hg.holder t' hnone
  crash _ _ _ _ _ h := h.elim

/-! ## What `Send` returned -/

def Call.mark : Call → Mark SendNode
  | .push msg msgid => .takes ⟨msgid, msg⟩
  | .returned n r => .returns n r
  | _ => .other

def Call.granted : (e : Call) → e.Answer → Bool
  | .push _ _, r => r
  | _, _ => true

theorem meets_calls (l : Launch) :
    Meets (callMonitor Call.mark Call.granted)
      (fun m _ => (callMonitor Call.mark Call.granted).final m) .fresh (program l) := by
  have hfresh : (callMonitor Call.mark Call.granted).final .fresh := by rintro k r ⟨⟩
  have hdone : (callMonitor Call.mark Call.granted).final .done := by rintro k r ⟨⟩
  cases l with
  | send msg msgid =>
    by_cases hlong : 65535 < msg.length
    · simp only [program, Send, if_pos hlong]
      exact ⟨trivial, fun _ _ => ⟨Or.inr ⟨rfl, rfl⟩, fun _ _ => hdone⟩⟩
    · simp only [program, Send, if_neg hlong]
      refine ⟨trivial, fun closed _ => ?_⟩
      cases closed with
      | true => exact ⟨Or.inr ⟨rfl, rfl⟩, fun _ _ => hdone⟩
      | false => exact ⟨rfl, fun r _ => ⟨Or.inl rfl, fun _ _ => hdone⟩⟩
  | close => exact ⟨trivial, fun _ _ => hfresh⟩
  | startWrite =>
    refine ⟨trivial, fun _ _ => ⟨trivial, fun closed _ => ?_⟩⟩
    cases closed with
    | true => exact hfresh
    | false => exact ⟨trivial, fun _ _ => hfresh⟩
  | handleWrite =>
    refine ⟨trivial, fun error _ => ?_⟩
    cases error with
    | true => exact ⟨trivial, fun _ _ => hfresh⟩
    | false => exact ⟨trivial, fun _ _ => hfresh⟩
  | socket => exact ⟨trivial, fun _ _ => hfresh⟩

theorem calls_perform {t : ℕ} {e : Call} {p : Pick} {s s' : State} {r : e.Answer}
    (h : perform t e p s = some (r, s')) : s'.calls = s.calls.record t e.mark (e.granted r) := by
  cases e with
  | push msg msgid =>
    simp only [perform] at h
    split at h
    · cases h
      rfl
    · split at h <;> cases h <;> rfl
  | takePosted | endWrite =>
    simp only [perform] at h
    split at h <;> cases h
    rfl
  | startFront =>
    simp only [perform] at h
    split at h <;> cases h <;> rfl
  | takeEnded =>
    obtain ⟨error, -, heq⟩ := Option.map_eq_some_iff.mp h
    cases heq
    rfl
  | popFront =>
    simp only [perform] at h
    split at h
    · cases h
      rfl
    · split at h <;> cases h
      · rfl
      · show (if s.closed = true then _ else State.async_write _ _ : State).calls = _
        split <;> rfl
  | load | exchange | returned =>
    cases h
    rfl

theorem session_keeps : Keeps session Call.mark Call.granted State.calls where
  init := by
    rintro s rfl
    rfl
  env _ _ h := h.elim
  start := by
    rintro t s p ⟨hunused, l, rfl⟩
    exact ⟨.fresh, Or.inl ⟨rfl, hunused⟩, meets_calls l⟩
  exec := by
    rintro t e s r s' ⟨p, hp⟩
    exact calls_perform hp
  stop := by
    rintro t p s s' ⟨hret, rfl⟩
    exact ⟨hret, rfl⟩
  crash _ _ _ h := h.elim

theorem written_leads {b : Baton} {s : State} (h : Frames b s) : s.written <+: s.accepted := by
  obtain ⟨done, haccepted, hwritten⟩ := h.sent
  rw [haccepted]
  rcases hwritten with ⟨hw, -⟩ | ⟨hw, -⟩
  · exact hw ▸ prefix_append done _
  · rw [hw]
    exact (prefix_append_right_inj done).mpr (List.take_prefix 1 _)

/-- **Frames leave in order.**

* In every state at most one write is under way, and it writes the front of the queue.
* The frames handed to the socket are the first of those of the calls that took effect. Each call
  took effect at most once; one that has returned, returned true exactly if it took effect; and one
  that took effect and has not returned is still running.
* The count of bytes is that of the queue and stays within its limit, and the front of an empty
  queue is never read. -/
theorem send_queue_in_order {c : Config ℕ Call Call.Answer (Except Empty Unit) State}
    (hc : Reachable session c) :
    c.shared.writing.length ≤ 1 ∧ (∀ n ∈ c.shared.writing, c.shared.send_que.head? = some n) ∧
    (c.shared.written <+: c.shared.calls.accepted.map Prod.snd ∧
      (c.shared.calls.accepted.map Prod.fst).Nodup ∧
      (∀ t n r, (t, n, r) ∈ c.shared.calls.returned →
        (r = true ↔ (t, n) ∈ c.shared.calls.accepted)) ∧
      ∀ t n, (t, n) ∈ c.shared.calls.accepted →
        (t, n, true) ∈ c.shared.calls.returned ∨ (c.threads t).isSome = true) ∧
    c.shared.send_bytes = (c.shared.send_que.map SendNode.total_len).sum ∧
    c.shared.send_bytes ≤ SendByteLimit ∧ c.shared.undefined = false := by
  obtain ⟨g, ⟨b, ⟨hplaced, hframes⟩, -⟩, -⟩ := reachable_invariant ok_inductive hc
  obtain ⟨honce, hreturned, haccepted⟩ := session_keeps.settled hc
  refine ⟨?_, fun n hn => ?_, ⟨written_leads hframes, honce, hreturned, haccepted⟩, hframes.bytes,
    hframes.limit, hframes.defined⟩
  · rw [hplaced.writing]
    split
    · exact length_take_le 1 _
    · exact Nat.zero_le 1
  · rw [hplaced.writing] at hn
    split at hn
    · cases hque : c.shared.send_que with
      | nil =>
        rw [hque] at hn
        cases hn
      | cons n' rest =>
        rw [hque] at hn
        rw [mem_singleton.mp hn]
        rfl
    · cases hn

/-- A schedule: each call runs in a thread of its own. -/
def launch (l : ℕ × Launch) (s : State) : Option (ℕ × Svc Unit) :=
  if s.calls.Unused l.1 then some (l.1, program l.2) else none

theorem session_playable : Playable launch perform session where
  launch l s t p h := by
    obtain ⟨hunused, h⟩ := Option.ite_none_right_eq_some.mp h
    cases h
    exact ⟨hunused, l.2, rfl⟩
  perform _ _ p _ _ _ h := ⟨p, h⟩
  finish _ a _ := ⟨⟨a, rfl⟩, rfl⟩

/-- Two calls take effect, the first has returned, and its frame has been written. A third finds the
session closed. -/
theorem send_queue_in_order_sample : ∃ c, Reachable session c ∧
    c.shared.calls.returned = [(0, ⟨1, [97]⟩, true), (5, ⟨3, [99]⟩, false)] ∧
    c.shared.calls.accepted = [(0, ⟨1, [97]⟩), (1, ⟨2, [98]⟩)] ∧
    c.shared.writing = [⟨2, [98]⟩] ∧ c.shared.send_bytes = 5 ∧
    c.shared.written <+: c.shared.calls.accepted.map Prod.snd := by
  have hplay : (play launch perform ⟨{}, fun _ => none⟩
      [.start (0, .send [97] 1), .start (1, .send [98] 2), .call 0 {}, .call 1 {}, .call 0 {},
        .call 1 {}, .call 0 {}, .finish 0, .start (2, .startWrite), .call 2 {}, .call 2 {},
          .call 2 {},
        .start (3, .socket), .call 3 {}, .start (4, .handleWrite), .call 4 {}, .call 4 {},
        .start (6, .close), .call 6 {}, .start (5, .send [99] 3), .call 5 {}, .call 5 {}]).any
          (fun c =>
      c.shared.calls.returned == [(0, ⟨1, [97]⟩, true), (5, ⟨3, [99]⟩, false)] &&
      c.shared.calls.accepted == [(0, ⟨1, [97]⟩), (1, ⟨2, [98]⟩)] &&
      c.shared.writing == [⟨2, [98]⟩] && c.shared.send_bytes == 5) = true := by
    decide +kernel
  obtain ⟨c, hc, h⟩ := (Option.any_eq_true ..).mp hplay
  simp only [Bool.and_eq_true, beq_iff_eq] at h
  have hreachable := session_playable.play (.init rfl) hc
  exact ⟨c, hreachable, h.1.1.1, h.1.1.2, h.1.2, h.2, (send_queue_in_order hreachable).2.2.1.1⟩

end DistributedChat.SendQueue
