import DistributedChat.Chat.Logic
import DistributedChat.Lib.Pace

/-!
# The pace of the delivery

The passes of `DeliverPendingTextMessages` for one session that stays open: each reads the oldest
unacknowledged messages of the user, at most 32, and sends those that are due. Between passes time
goes on, messages are stored behind those that are there, and messages are acknowledged. A query can
fail and the queue of the session can refuse a frame.

A message that was read once stays among the oldest until it is acknowledged, so reconciling the
window with what a query returns never forgets an attempt that still matters: for each
unacknowledged message the window holds exactly what follows from the times at which it was sent
(`Paced.tracked`).
-/

namespace DistributedChat.Chat

open Lib List
open DeliveryWindow (Capacity)

/-! ## The session and its user -/

/-- The message a frame notifies of. -/
def OutFrame.windowKey (frame : OutFrame) : Option WindowKey := do
  let sender ← (frame.body.get "fromuid").whole?
  let text ← match frame.body.get "text_array" with
    | .arr (text :: _) => some text
    | _ => none
  let id ← (text.get "msgid").str?
  if frame.id = .notifyTextChatMsgReq then some (sender, id) else none

theorem windowKey_notification (m : TextMessage) :
    (⟨.notifyTextChatMsgReq, notification m⟩ : OutFrame).windowKey = some m.windowKey := by
  simp +decide only [OutFrame.windowKey, notification, Json.setAll, foldl_cons, foldl_nil,
    Json.get_set, if_true, if_false]
  rfl

structure Line where
  now : ℕ
  /-- The unacknowledged messages of the user, in the order of their ids. -/
  rows : List TextMessage
  /-- The keys of all messages that were ever stored. -/
  known : List WindowKey
  state : DeliveryState := {}
  /-- What the last successful query returned. -/
  queried : List TextMessage := []
  /-- The query of the last pass succeeded; a frame of the last pass was refused. -/
  answered : Bool := false
  refused : Bool := false
  /-- The frames that were accepted and when, the last first. -/
  log : List (WindowKey × ℕ) := []

def Line.push (l : Line) (frame : OutFrame) : Line :=
  match frame.windowKey with
  | some key => { l with log := (key, l.now) :: l.log }
  | none => l

/-- The effects of a pass; what can fail does so as the list of booleans says. -/
def Line.answer (uid : Uid) : (e : Call) → Line × List Bool → Option (e.Answer × Line × List Bool)
  | .session (.isClosed _), (l, bs) => some (false, l, bs)
  | .session (.push _ frame), (l, b :: bs) =>
    some (b, if b then l.push frame else { l with refused := true }, bs)
  | .logic (.delivery _), (l, bs) => some (l.state, l, bs)
  | .logic (.setDelivery _ state), (l, bs) => some ((), { l with state := state }, bs)
  | .logic .steadyNow, (l, bs) => some (l.now, { l with answered := false, refused := false }, bs)
  | .db .getConnection, (l, b :: bs) => some (b, l, bs)
  | .db .returnConnection, (l, bs) => some ((), l, bs)
  | .db (.query (.selectPendingMessages receiver limit)), (l, b :: bs) =>
    if receiver = uid then
      if b then
        some (some (l.rows.take limit),
          { l with queried := l.rows.take limit, answered := true }, bs)
      else some (none, l, bs)
    else none
  | _, _ => none

section Steps

variable (setup : Setup) (sid : Sid) (uid : Uid)

def Pass (l l' : Line) : Prop :=
  ∃ bs bs', Prog.run (Line.answer uid) (DeliverPendingTextMessages setup sid uid) (l, bs) =
    some (.ok (), l', bs')

inductive LineStep : Line → Line → Prop
  | time {l now} (h : l.now ≤ now) : LineStep l { l with now := now }
  | stored {l} {m : TextMessage} (h : m.windowKey ∉ l.known) :
    LineStep l { l with rows := l.rows ++ [m], known := m.windowKey :: l.known }
  | acknowledged {l} (waiting : TextMessage → Bool) :
    LineStep l { l with rows := l.rows.filter waiting }
  | pass {l l'} (h : Pass setup sid uid l l') : LineStep l l'

/-- A new session: messages of the user are waiting, nothing was sent. -/
structure Line.Fresh (l : Line) : Prop where
  nodup : (l.rows.map TextMessage.windowKey).Nodup
  known : ∀ m ∈ l.rows, m.windowKey ∈ l.known
  state : l.state = {}
  queried : l.queried = []
  log : l.log = []

/-- The states of a session that stays open. -/
def Line.Reached (l : Line) : Prop :=
  ∃ l₀ : Line, l₀.Fresh ∧ Relation.ReflTransGen (LineStep setup sid uid) l₀ l

end Steps

/-! ## The window -/

namespace DeliveryWindow

def find (w : DeliveryWindow) (key : WindowKey) : Option Attempt := w.attempts.lookup key

theorem lookup_filter (l : List (WindowKey × Attempt)) (p : WindowKey → Bool) (key : WindowKey) :
    (l.filter fun a => p a.1).lookup key = if p key then l.lookup key else none := by
  induction l with
  | nil => simp
  | cons a l ih =>
    obtain ⟨k, x⟩ := a
    by_cases hk : key = k
    · subst hk
      by_cases hp : p key = true
      · simp [hp]
      · simp [hp, ih]
    · have hbeq : (key == k) = false := by simpa using hk
      by_cases hp : p k = true <;> simp [hp, lookup_cons, hbeq, ih]

theorem find_reconcile (w : DeliveryWindow) (pending : List TextMessage) (key : WindowKey) :
    (w.reconcile pending).find key =
    if key ∈ pending.map TextMessage.windowKey then w.find key else none := by
  unfold reconcile find
  rw [lookup_filter w.attempts (fun k => pending.any fun m => m.windowKey == k) key]
  congr 1
  simp

theorem find_sent (w : DeliveryWindow) (m : TextMessage) (now : ℕ) (key : WindowKey) :
    (w.sent m now).1.find key = if key = m.windowKey then
        some ⟨min (((w.find m.windowKey).map Attempt.count).getD 0 + 1) 4,
          now + seconds (5 * 2 ^ min (((w.find m.windowKey).map Attempt.count).getD 0) 3)⟩
      else w.find key := by
  unfold sent find
  dsimp only
  rw [lookup_append, lookup_filter w.attempts (fun k => k != m.windowKey) key]
  by_cases hk : key = m.windowKey
  · simp [hk]
  · have hbeq : (key == m.windowKey) = false := by simpa using hk
    simp [hk, lookup_cons, hbeq]

def Distinct (w : DeliveryWindow) : Prop := (w.attempts.map Prod.fst).Nodup

theorem Distinct.reconcile {w : DeliveryWindow} (h : w.Distinct) (pending : List TextMessage) :
    (w.reconcile pending).Distinct := h.sublist (filter_sublist.map Prod.fst)

theorem Distinct.sent {w : DeliveryWindow} (h : w.Distinct) (m : TextMessage) (now : ℕ) :
    (w.sent m now).1.Distinct := by
  unfold Distinct DeliveryWindow.sent
  dsimp only
  rw [map_append, map_singleton]
  refine List.Nodup.append (h.sublist (filter_sublist.map Prod.fst)) (nodup_singleton _) ?_
  rw [disjoint_singleton]
  simp

end DeliveryWindow

/-! ## The times of a message -/

/-- The times at which a message was sent, the last first. -/
def sends (log : List (WindowKey × ℕ)) (key : WindowKey) : List ℕ :=
  (log.filter fun a => a.1 = key).map Prod.snd

theorem sends_cons (key : WindowKey) (now : ℕ) (log : List (WindowKey × ℕ)) (key' : WindowKey) :
    sends ((key, now) :: log) key' = if key =
    key' then now :: sends log key' else sends log key' := by
  unfold sends
  by_cases h : key = key' <;> simp [h]

/-- The pause after a message was sent `n + 1` times. -/
def pause (n : ℕ) : ℕ := seconds (5 * 2 ^ min n 3)

/-- What the window should hold for a message that was sent at these times. -/
def record : List ℕ → Option Attempt
  | [] => none
  | t :: ts => some ⟨min (ts.length + 1) 4, t + pause ts.length⟩

theorem record_cons (now : ℕ) (ts : List ℕ) :
    record (now :: ts) = some ⟨min (((record ts).map Attempt.count).getD 0 + 1) 4,
      now + seconds (5 * 2 ^ min (((record ts).map Attempt.count).getD 0) 3)⟩ := by
  cases ts with
  | nil => rfl
  | cons t ts =>
    have hcount : min (min (ts.length + 1) 4 + 1) 4 = min (ts.length + 1 + 1) 4 := by omega
    have hpause : min (min (ts.length + 1) 4) 3 = min (ts.length + 1) 3 := by omega
    simp only [record, pause, length_cons, Option.map_some, Option.getD_some, hcount, hpause]

/-- A message that is due is sent after the pause. -/
theorem spaced_cons {ts : List ℕ} (h : Spaced pause ts.reverse) {now : ℕ}
    (hdue : ∀ a, record ts = some a → a.next ≤ now) : Spaced pause (now :: ts).reverse := by
  rw [reverse_cons]
  refine h.concat fun t ht => ?_
  rw [getLast?_reverse] at ht
  cases ts with
  | nil => cases ht
  | cons x ts =>
    cases ht
    rw [length_reverse, length_cons, Nat.add_sub_cancel]
    exact hdue _ rfl

/-- The window holds what follows from the times, and the pauses were kept. -/
structure Paced (rows : List TextMessage) (w : DeliveryWindow) (log : List (WindowKey × ℕ)) :
    Prop where
  tracked : ∀ m ∈ rows, w.find m.windowKey = record (sends log m.windowKey)
  spaced : ∀ key, Spaced pause (sends log key).reverse
  distinct : w.Distinct

section Paced

variable {rows : List TextMessage} {w : DeliveryWindow} {log : List (WindowKey × ℕ)}
    {m : TextMessage}
  {now : ℕ}

theorem Paced.sent (h : Paced rows w log) (hm : m ∈ rows) (hdue : w.due m now = true) :
    Paced rows (w.sent m now).1 ((m.windowKey, now) :: log) := by
  have hspaced : Spaced pause (now :: sends log m.windowKey).reverse := by
    refine spaced_cons (h.spaced m.windowKey) fun a ha => ?_
    have hfind := (h.tracked m hm).trans ha
    unfold DeliveryWindow.due at hdue
    rw [show w.attempts.lookup m.windowKey = some a from hfind] at hdue
    exact of_decide_eq_true hdue
  refine ⟨fun m' hm' => ?_, fun key => ?_, h.distinct.sent m now⟩
  · rw [DeliveryWindow.find_sent, sends_cons]
    by_cases hkey : m'.windowKey = m.windowKey
    · rw [if_pos hkey, if_pos hkey.symm, hkey, record_cons, h.tracked m hm]
    · rw [if_neg hkey, if_neg (Ne.symm hkey)]
      exact h.tracked m' hm'
  · rw [sends_cons]
    by_cases hkey : m.windowKey = key
    · rw [if_pos hkey, ← hkey]
      exact hspaced
    · rw [if_neg hkey]
      exact h.spaced key

/-- Messages that were sent are among those a query returns, so reconciling forgets none. -/
theorem Paced.reconcile (h : Paced rows w log) {pending : List TextMessage}
    (hplaced : ∀ m ∈ rows, sends log m.windowKey ≠ [] → m ∈ pending) :
    Paced rows (w.reconcile pending) log := by
  refine ⟨fun m hm => ?_, h.spaced, h.distinct.reconcile pending⟩
  rw [DeliveryWindow.find_reconcile]
  by_cases hkey : m.windowKey ∈ pending.map TextMessage.windowKey
  · rw [if_pos hkey]
    exact h.tracked m hm
  · rw [if_neg hkey]
    by_cases hsent : sends log m.windowKey = []
    · rw [hsent]
      rfl
    · exact absurd (mem_map_of_mem (hplaced m hm hsent)) hkey

end Paced

/-! ## A pass -/

section Pass

variable {setup : Setup} {sid : Sid} {uid : Uid} {l : Line} {bs : List Bool}

theorem yields_isClosed {Q : Except Unit Bool → Line × List Bool → Prop}
    (h : Q (.ok false) (l, bs)) :
    Prog.Yields (Line.answer uid) Q (isClosed sid) (l, bs) := by
  intro r st hr
  cases hr
  exact h

/-- A frame is queued or refused; a session that stays open is not closed for a long one. -/
theorem yields_Send (body : Json) (id : MsgId) :
    Prog.Yields (Line.answer uid) (fun r st => ∃ b, r = .ok b ∧
        st.1 = if b then l.push ⟨id, body⟩ else { l with refused := true })
      (CSession.Send setup sid body id) (l, bs) := by
  unfold CSession.Send
  by_cases hsize : 65535 < setup.size body
  · rw [if_pos hsize]
    refine Task.yields_andThen (Task.yields_andThen fun r st hr => ?_)
    cases hr
  · rw [if_neg hsize]
    refine Task.yields_andThen (yields_isClosed ?_)
    refine Task.yields_andThen (yields_isClosed ?_)
    intro r st hr
    cases bs with
    | nil => cases hr
    | cons b bs =>
      cases hr
      exact ⟨_, rfl, rfl⟩

/-- What the loop over the messages `ms` does to the window and the log. -/
structure Loops (ms : List TextMessage) (l l' : Line) (w w' : DeliveryWindow)
    (new : List (WindowKey × ℕ)) : Prop where
  line : l' = { l with log := new ++ l.log, refused := l'.refused }
  sent : ∀ a ∈ new, ∃ m ∈ ms, m.windowKey = a.1
  kept : ∀ key, key ∉ new.map Prod.fst → w'.find key = w.find key
  all : l'.refused = false → ∀ m ∈ ms, sends l'.log m.windowKey ≠ []
  paced : Paced l.rows w' l'.log
  keys : ∀ key ∈ w'.attempts.map Prod.fst, key ∈ w.attempts.map Prod.fst ∨
    key ∈ ms.map TextMessage.windowKey

theorem sends_append (new log : List (WindowKey × ℕ)) (key : WindowKey) :
    sends (new ++ log) key = sends new key ++ sends log key := by
  unfold sends
  rw [filter_append, map_append]

variable {log : List (WindowKey × ℕ)}

theorem sends_ne_nil_of_mem {key : WindowKey} (h : key ∈ log.map Prod.fst) :
    sends log key ≠ [] := by
  intro hempty
  obtain ⟨a, ha, rfl⟩ := mem_map.mp h
  have hmem : a ∈ log.filter fun b => b.1 = a.1 := mem_filter.mpr ⟨ha, by simp⟩
  rw [map_eq_nil_iff.mp hempty] at hmem
  cases hmem

theorem sends_append_ne_nil {key : WindowKey} (h : sends log key ≠ [])
    (new : List (WindowKey × ℕ)) :
    sends (new ++ log) key ≠ [] := by
  rw [sends_append]
  exact append_ne_nil_of_right_ne_nil _ h

variable {w : DeliveryWindow} {m : TextMessage}

theorem Paced.sends_of_not_due {rows : List TextMessage} {now : ℕ} (h : Paced rows w log)
    (hm : m ∈ rows)
    (hdue : ¬ w.due m now = true) : sends log m.windowKey ≠ [] := by
  intro hempty
  have hfind := h.tracked m hm
  rw [hempty] at hfind
  refine hdue ?_
  unfold DeliveryWindow.due
  rw [show w.attempts.lookup m.windowKey = none from hfind]

theorem Loops.after_sent {ms : List TextMessage} {l' : Line} {w' : DeliveryWindow}
    {new : List (WindowKey × ℕ)}
    (h : Loops ms { l with log := (m.windowKey, l.now) :: l.log } l' (w.sent m l.now).1 w' new) :
    Loops (m :: ms) l l' w w' (new ++ [(m.windowKey, l.now)]) := by
  have hlog : l'.log = new ++ (m.windowKey, l.now) :: l.log := by rw [h.line]
  refine ⟨?_, ?_, ?_, ?_, h.paced, ?_⟩
  · rw [append_assoc]
    exact h.line
  · intro a ha
    rcases mem_append.mp ha with ha | ha
    · obtain ⟨m', hm', hkey⟩ := h.sent a ha
      exact ⟨m', mem_cons_of_mem m hm', hkey⟩
    · rw [mem_singleton.mp ha]
      exact ⟨m, mem_cons_self, rfl⟩
  · intro key hkey
    rw [map_append, mem_append, not_or, map_singleton, mem_singleton] at hkey
    rw [h.kept key hkey.1, DeliveryWindow.find_sent, if_neg hkey.2]
  · intro hrefused m' hm'
    rcases mem_cons.mp hm' with rfl | hm'
    · rw [hlog]
      refine sends_append_ne_nil ?_ new
      rw [sends_cons, if_pos rfl]
      exact cons_ne_nil _ _
    · exact h.all hrefused m' hm'
  · intro key hkey
    rw [map_cons, mem_cons]
    rcases h.keys key hkey with hkey | hkey
    · unfold DeliveryWindow.sent at hkey
      dsimp only at hkey
      rw [map_append, mem_append, map_singleton, mem_singleton] at hkey
      rcases hkey with hkey | hkey
      · exact Or.inl ((filter_sublist.map Prod.fst).subset hkey)
      · exact Or.inr (Or.inl hkey)
    · exact Or.inr (Or.inr hkey)

theorem Loops.after_skipped {ms : List TextMessage} {l' : Line} {w' : DeliveryWindow}
    {new : List (WindowKey × ℕ)}
    (h : Loops ms l l' w w' new) (hsent : sends l.log m.windowKey ≠ []) :
    Loops (m :: ms) l l' w w' new := by
  refine ⟨h.line, ?_, h.kept, ?_, h.paced, ?_⟩
  · intro a ha
    obtain ⟨m', hm', hkey⟩ := h.sent a ha
    exact ⟨m', mem_cons_of_mem m hm', hkey⟩
  · intro hrefused m' hm'
    rcases mem_cons.mp hm' with rfl | hm'
    · rw [h.line]
      exact sends_append_ne_nil hsent new
    · exact h.all hrefused m' hm'
  · intro key hkey
    rw [map_cons, mem_cons]
    exact (h.keys key hkey).imp_right Or.inr

theorem yields_deliverLoop (ms : List TextMessage) (hpaced : Paced l.rows w l.log)
    (hms : ∀ m ∈ ms, m ∈ l.rows) :
    Prog.Yields (Line.answer uid) (fun r st => ∃ w' new, r = .ok w' ∧ Loops ms l st.1 w w' new)
      (deliverLoop setup sid l.now ms w) (l, bs) := by
  induction ms generalizing l w bs with
  | nil =>
    exact ⟨w, [], rfl, rfl, nofun, fun _ _ => rfl, fun _ => nofun, hpaced, fun _ h => Or.inl h⟩
  | cons m ms ih =>
    have hm := hms m mem_cons_self
    have hrest : ∀ m' ∈ ms, m' ∈ l.rows := fun m' hm' => hms m' (mem_cons_of_mem m hm')
    unfold deliverLoop
    by_cases hdue : w.due m l.now = true
    · rw [if_pos hdue]
      refine Task.yields_andThen ((yields_Send (l := l) _ _).weaken ?_)
      rintro r ⟨l₁, bs₁⟩ ⟨b, rfl, rfl⟩
      cases b with
      | false =>
        exact ⟨w, [], rfl, rfl, nofun, fun _ _ => rfl, nofun, hpaced, fun _ h => Or.inl h⟩
      | true =>
        have hpush : l.push ⟨.notifyTextChatMsgReq, notification m⟩ =
            { l with log := (m.windowKey, l.now) :: l.log } := by
          simp only [Line.push, windowKey_notification]
        show Prog.Yields _ _ (deliverLoop setup sid l.now ms (w.sent m l.now).1)
          (l.push ⟨.notifyTextChatMsgReq, notification m⟩, bs₁)
        rw [hpush]
        refine (ih (l := { l with log := (m.windowKey, l.now) :: l.log }) (hpaced.sent hm hdue)
          hrest).weaken ?_
        rintro r ⟨l', bs'⟩ ⟨w', new, rfl, h⟩
        exact ⟨w', _, rfl, h.after_sent⟩
    · rw [if_neg hdue]
      refine (ih hpaced hrest).weaken ?_
      rintro r ⟨l', bs'⟩ ⟨w', new, rfl, h⟩
      exact ⟨w', new, rfl, h.after_skipped (hpaced.sends_of_not_due hm hdue)⟩

/-- The session as the loop of a pass finds it. -/
def Line.queries (l : Line) : Line :=
  { l with queried := l.rows.take DeliveryWindow.Capacity, answered := true, refused := false }

/-- What a pass does: nothing to the window if its query fails, else what its loop does. -/
def PassResult (l l' : Line) : Prop :=
  (∃ state : DeliveryState, state.window = l.state.window ∧
    l' = { l with answered := false, refused := false, state := state }) ∨
  ∃ l₂ state new, Loops (l.rows.take DeliveryWindow.Capacity) l.queries l₂
    (l.state.window.reconcile (l.rows.take DeliveryWindow.Capacity)) state.window new ∧
    l' = { l₂ with state := state }

theorem yields_GetPendingTextMessages
    {Q : Except Unit (Option (List TextMessage)) → Line × List Bool → Prop}
    (hfailed : ∀ bs', Q (.ok none) (l, bs'))
    (hok : ∀ bs', Q (.ok (some (l.rows.take Capacity)))
      ({ l with queried := l.rows.take Capacity, answered := true }, bs')) :
    Prog.Yields (Line.answer uid) Q
      (MysqlDao.GetPendingTextMessages uid Capacity) (l, bs) := by
  unfold MysqlDao.GetPendingTextMessages
  by_cases hbad : uid ≤ 0 ∨ Capacity = 0
  · rw [if_pos hbad]
    exact hfailed bs
  · rw [if_neg hbad]
    refine Task.yields_andThen fun r st hr => ?_
    cases bs with
    | nil => cases hr
    | cons b bs =>
      cases hr
      cases r with
      | false => exact hfailed bs
      | true =>
        refine Task.yields_ensuring (Task.yields_recover (Task.yields_andThen fun r st hr => ?_))
        cases bs with
        | nil => cases hr
        | cons b bs =>
          simp only [Line.answer, if_true] at hr
          cases b with
          | false =>
            cases hr
            intro r st hr
            cases hr
            exact hfailed bs
          | true =>
            cases hr
            intro r st hr
            cases hr
            exact hok bs

theorem yields_pass (hpaced : Paced l.rows l.state.window l.log)
    (hplaced : ∀ m ∈ l.rows, sends l.log m.windowKey ≠ [] → m ∈ l.rows.take Capacity) :
    Prog.Yields (Line.answer uid) (fun _ st => PassResult l st.1)
      (DeliverPendingTextMessages setup sid uid) (l, bs) := by
  unfold DeliverPendingTextMessages
  refine Task.yields_andThen (yields_isClosed ?_)
  refine Task.yields_andThen fun r st hr => ?_
  cases hr
  refine Task.yields_andThen fun r st hr => ?_
  cases hr
  refine Task.yields_andThen (yields_GetPendingTextMessages (fun bs' => ?_) fun bs' => ?_)
  · intro r st hr
    cases hr
    exact Or.inl ⟨{ l.state with
      idle_seconds := min (l.state.idle_seconds * 2) 30
      next := l.now + seconds (min (l.state.idle_seconds * 2) 30) }, rfl, rfl⟩
  · refine Task.yields_andThen (Prog.Yields.weaken (yields_deliverLoop (l := l.queries)
      (l.rows.take Capacity) (hpaced.reconcile hplaced)
      fun m hm => mem_of_mem_take hm) ?_)
    rintro r ⟨l₂, bs₂⟩ ⟨w', new, rfl, h⟩ r st hr
    cases hr
    exact Or.inr ⟨l₂, _, new, h, rfl⟩

end Pass

/-! ## Runs -/

structure LineOk (l : Line) : Prop where
  nodup : (l.rows.map TextMessage.windowKey).Nodup
  known : ∀ m ∈ l.rows, m.windowKey ∈ l.known
  paced : Paced l.rows l.state.window l.log
  /-- A message that was sent is among the oldest. -/
  placed : ∀ m ∈ l.rows, sends l.log m.windowKey ≠ [] → m ∈ l.rows.take Capacity
  logged : ∀ a ∈ l.log, a.1 ∈ l.known
  queried : ∀ m ∈ l.queried, m.windowKey ∈ l.known
  short : l.queried.length ≤ Capacity
  keys : ∀ key ∈ l.state.window.attempts.map Prod.fst, key ∈ l.queried.map TextMessage.windowKey

section Runs

variable {setup : Setup} {sid : Sid} {uid : Uid} {l l' : Line}

theorem sends_eq_nil {log : List (WindowKey × ℕ)} {key : WindowKey}
    (h : ∀ a ∈ log, a.1 ≠ key) : sends log key = [] := by
  unfold sends
  rw [filter_eq_nil_iff.mpr fun a ha => by simpa using h a ha]
  rfl

theorem LineOk.fresh (h : l.Fresh) : LineOk l := by
  obtain ⟨hnodup, hknown, hstate, hqueried, hlog⟩ := h
  refine ⟨hnodup, hknown, ⟨fun m _ => ?_, fun key => ?_, ?_⟩, fun m _ hm => ?_, ?_, ?_, ?_, ?_⟩
  · rw [hstate, hlog]
    rfl
  · rw [hlog]
    exact .nil pause
  · rw [hstate]
    exact nodup_nil
  · rw [hlog] at hm
    exact absurd rfl hm
  · rw [hlog]
    exact nofun
  · rw [hqueried]
    exact nofun
  · rw [hqueried]
    exact Nat.zero_le _
  · rw [hstate]
    exact nofun

theorem LineOk.stored (h : LineOk l) {m : TextMessage} (hm : m.windowKey ∉ l.known) :
    LineOk { l with rows := l.rows ++ [m], known := m.windowKey :: l.known } := by
  have hold : ∀ {key}, key ∈ l.known → key ∈ m.windowKey :: l.known :=
    fun hkey => mem_cons_of_mem _ hkey
  have hsends : sends l.log m.windowKey = [] :=
    sends_eq_nil fun a ha heq => hm (heq ▸ h.logged a ha)
  have hfind : l.state.window.find m.windowKey = none := by
    refine lookup_eq_none_iff.mpr fun a ha => ?_
    rw [bne_iff_ne]
    intro heq
    have hqueried := h.keys a.1 (mem_map_of_mem ha)
    obtain ⟨m', hm', hkey⟩ := mem_map.mp hqueried
    exact hm (heq ▸ hkey ▸ h.queried m' hm')
  refine ⟨?_, ?_, ⟨?_, h.paced.spaced, h.paced.distinct⟩, ?_, fun a ha => hold (h.logged a ha),
    fun m' hm' => hold (h.queried m' hm'), h.short, h.keys⟩
  · rw [map_append, map_singleton]
    refine List.Nodup.append h.nodup (nodup_singleton _) (disjoint_singleton.mpr ?_)
    intro hmem
    obtain ⟨m', hm', hkey⟩ := mem_map.mp hmem
    exact hm (hkey ▸ h.known m' hm')
  · intro m' hm'
    rcases mem_append.mp hm' with hm' | hm'
    · exact hold (h.known m' hm')
    · rw [mem_singleton.mp hm']
      exact mem_cons_self
  · intro m' hm'
    rcases mem_append.mp hm' with hm' | hm'
    · exact h.paced.tracked m' hm'
    · rw [mem_singleton.mp hm', hfind, hsends]
      rfl
  · intro m' hm' hsent
    rcases mem_append.mp hm' with hm' | hm'
    · rw [take_append]
      exact mem_append_left _ (h.placed m' hm' hsent)
    · rw [mem_singleton.mp hm'] at hsent
      exact absurd hsends hsent

theorem mem_take_filter {rows : List TextMessage} {p : TextMessage → Bool} {m : TextMessage} {n : ℕ}
    (h : m ∈ rows.take n) (hp : p m = true) : m ∈ (rows.filter p).take n := by
  have hsplit : rows.filter p = (rows.take n).filter p ++ (rows.drop n).filter p := by
    rw [← filter_append, take_append_drop]
  have hlength : ((rows.take n).filter p).length ≤ n :=
    (length_filter_le _ _).trans (length_take_le _ _)
  rw [hsplit, take_append, take_of_length_le hlength]
  exact mem_append_left _ (mem_filter.mpr ⟨h, hp⟩)

theorem LineOk.acknowledged (h : LineOk l) (waiting : TextMessage → Bool) :
    LineOk { l with rows := l.rows.filter waiting } := by
  have hsub : ∀ {m}, m ∈ l.rows.filter waiting → m ∈ l.rows := fun hm => (mem_filter.mp hm).1
  refine ⟨h.nodup.sublist (filter_sublist.map _), fun m hm => h.known m (hsub hm),
    ⟨fun m hm => h.paced.tracked m (hsub hm), h.paced.spaced, h.paced.distinct⟩, ?_, h.logged,
    h.queried, h.short, h.keys⟩
  intro m hm hsent
  exact mem_take_filter (h.placed m (hsub hm) hsent) (mem_filter.mp hm).2

theorem mem_of_sends_ne_nil {log : List (WindowKey × ℕ)} {key : WindowKey}
    (h : sends log key ≠ []) :
    ∃ a ∈ log, a.1 = key := by
  by_contra hnone
  exact h (sends_eq_nil fun a ha heq => hnone ⟨a, ha, heq⟩)

theorem LineOk.result (h : LineOk l) (hpass : PassResult l l') : LineOk l' := by
  rcases hpass with ⟨state, hwindow, rfl⟩ | ⟨l₂, state, new, hloop, rfl⟩
  · have hpaced : Paced l.rows state.window l.log := by
      rw [hwindow]
      exact h.paced
    exact { h with
      paced := hpaced
      keys := by
        rw [hwindow]
        exact h.keys }
  · have hl₂ : l₂ = { l.queries with log := new ++ l.log, refused := l₂.refused } := hloop.line
    have hpaced : Paced l.rows state.window (new ++ l.log) := by
      have := hloop.paced
      rwa [show l₂.log = new ++ l.log by rw [hl₂]] at this
    have htake : ∀ m ∈ l.rows.take Capacity, m ∈ l.rows :=
      fun m hm => mem_of_mem_take hm
    rw [hl₂]
    refine ⟨h.nodup, h.known, hpaced, ?_, ?_, fun m hm =>
      h.known m (htake m hm), length_take_le _ _, ?_⟩
    · intro m hm hsent
      by_cases hold : sends l.log m.windowKey = []
      · -- the message was sent in this pass
        obtain ⟨a, ha, hkey⟩ := mem_of_sends_ne_nil hsent
        rcases mem_append.mp ha with ha | ha
        · obtain ⟨m', hm', hkey'⟩ := hloop.sent a ha
          obtain rfl : m' = m :=
            inj_on_of_nodup_map h.nodup (htake m' hm') hm (hkey'.trans hkey)
          exact hm'
        · exact absurd hold (sends_ne_nil_of_mem (hkey ▸ mem_map_of_mem ha))
      · exact h.placed m hm hold
    · intro a ha
      rcases mem_append.mp ha with ha | ha
      · obtain ⟨m, hm, hkey⟩ := hloop.sent a ha
        exact hkey ▸ h.known m (htake m hm)
      · exact h.logged a ha
    · intro key hkey
      rcases hloop.keys key hkey with hkey | hkey
      · obtain ⟨a, ha, rfl⟩ := mem_map.mp hkey
        obtain ⟨-, hany⟩ := mem_filter.mp ha
        obtain ⟨m, hm, hmkey⟩ := any_eq_true.mp hany
        exact mem_map.mpr ⟨m, hm, eq_of_beq hmkey⟩
      · exact hkey

theorem LineOk.passResult (h : LineOk l) (hpass : Pass setup sid uid l l') : PassResult l l' := by
  obtain ⟨bs, bs', hrun⟩ := hpass
  exact (yields_pass h.paced h.placed).of_run hrun

theorem LineOk.step (h : LineOk l) (hstep : LineStep setup sid uid l l') : LineOk l' := by
  cases hstep with
  | time hnow => exact { h with }
  | stored hm => exact h.stored hm
  | acknowledged waiting => exact h.acknowledged waiting
  | pass hpass => exact h.result (h.passResult hpass)

theorem Line.Reached.ok (h : l.Reached setup sid uid) : LineOk l := by
  obtain ⟨l₀, hfresh, hsteps⟩ := h
  induction hsteps with
  | refl => exact LineOk.fresh hfresh
  | tail _ hstep ih => exact ih.step hstep

/-- **The pace of the delivery.** In every state that the passes for an open session reach:

* the window tracks messages of the last successful query only, and at most 32;
* the times at which a message was sent are 5, 10, 20 and from then on 40 seconds apart, at least.

Of every pass from there:

* a query that fails changes no attempt, and neither does a frame that is refused: what the window
  holds for a message that was returned changes only if the message was sent;
* if the query and all frames succeed, every message it returned has been sent. -/
theorem delivery_paced (h : l.Reached setup sid uid) :
    ((∀ a ∈ l.state.window.attempts, ∃ m ∈ l.queried, m.windowKey = a.1) ∧
      l.state.window.attempts.length ≤ DeliveryWindow.Capacity) ∧
    (∀ key k t t', (sends l.log key).reverse[k]? = some t →
      (sends l.log key).reverse[k + 1]? = some t' → t + seconds (5 * 2 ^ min k 3) ≤ t') ∧
    ∀ l', Pass setup sid uid l l' →
      (l'.answered = false → l'.state.window = l.state.window) ∧
      (l'.answered = true → l'.queried = l.rows.take DeliveryWindow.Capacity ∧
        ∀ key ∈ l'.queried.map TextMessage.windowKey, sends l'.log key = sends l.log key →
          l'.state.window.find key = l.state.window.find key) ∧
      (l'.answered = true → l'.refused = false →
        ∀ m ∈ l'.queried, sends l'.log m.windowKey ≠ []) := by
  have hok := h.ok
  refine ⟨⟨fun a ha => ?_, ?_⟩, fun key => hok.paced.spaced key, fun l' hpass => ?_⟩
  · obtain ⟨m, hm, hkey⟩ := mem_map.mp (hok.keys a.1 (mem_map_of_mem ha))
    exact ⟨m, hm, hkey⟩
  · have hsub := hok.paced.distinct.subperm hok.keys
    have hlength := hsub.length_le
    rw [length_map, length_map] at hlength
    exact hlength.trans hok.short
  · rcases hok.passResult hpass with ⟨state, hwindow, rfl⟩ | ⟨l₂, state, new, hloop, rfl⟩
    · exact ⟨fun _ => hwindow, nofun, nofun⟩
    · have hl₂ : l₂ = { l.queries with log := new ++ l.log, refused := l₂.refused } := hloop.line
      have hqueried : l₂.queried = l.rows.take Capacity := by
        rw [hl₂]
        rfl
      have hanswered : l₂.answered = true := by
        rw [hl₂]
        rfl
      refine ⟨fun hfailed => ?_, fun _ => ⟨hqueried, ?_⟩, ?_⟩
      · cases hanswered.symm.trans hfailed
      · intro key hkey hsame
        rw [hqueried] at hkey
        have hnot : key ∉ new.map Prod.fst := by
          intro hmem
          refine sends_ne_nil_of_mem hmem ?_
          rw [show l₂.log = new ++ l.log by rw [hl₂], sends_append] at hsame
          exact append_left_eq_self.mp hsame
        rw [hloop.kept key hnot, DeliveryWindow.find_reconcile, if_pos hkey]
      · intro _ hrefused m hm
        exact hloop.all hrefused m (hqueried ▸ hm)

end Runs

namespace Sample

def terse : Setup := ⟨[], fun b => b, fun b => b, fun _ => 0, fun b => b⟩

/-- Two messages are waiting for user 2. -/
def waiting : Line where
  now := 0
  rows := [⟨ascii "m", 1, 2, ascii "hi"⟩, ⟨ascii "n", 1, 2, ascii "you"⟩]
  known := [(1, ascii "m"), (1, ascii "n")]

/-- A pass in which nothing fails. -/
def pass (l : Line) : Option Line :=
  (Prog.run (Line.answer 2) (DeliverPendingTextMessages terse ⟨[], []⟩ 2)
    (l, List.replicate 8 true)).bind fun r =>
      match r.1 with
      | .ok _ => some r.2.1
      | .error _ => none

theorem pass_of_eq {l l' : Line} (h : pass l = some l') : Pass terse ⟨[], []⟩ 2 l l' := by
  obtain ⟨⟨r, l'', bs⟩, hrun, hr⟩ := Option.bind_eq_some_iff.mp h
  cases r with
  | error e => cases hr
  | ok u =>
    cases hr
    exact ⟨_, bs, hrun⟩

/-- Nobody acknowledges the messages, and after five seconds they are sent again. -/
def twice : Option Line := (pass waiting).bind fun l => pass { l with now := seconds 5 }

end Sample

theorem delivery_paced_sample : ∃ l : Line, l.Reached Sample.terse ⟨[], []⟩ 2 ∧
    sends l.log (1, ascii "n") = [seconds 5, 0] ∧ l.state.window.attempts.length ≤ 32 ∧
    ∀ k t t', (sends l.log (1, ascii "n")).reverse[k]? = some t →
      (sends l.log (1, ascii "n")).reverse[k + 1]? = some t' →
      t + seconds (5 * 2 ^ min k 3) ≤ t' := by
  have htwice : Sample.twice.any (fun l =>
      decide (sends l.log (1, ascii "n") = [seconds 5, 0])) = true := by decide +kernel
  have htime : (Sample.pass Sample.waiting).all (fun l => decide (l.now ≤ seconds 5)) = true := by
    decide +kernel
  obtain ⟨l, hl, hsends⟩ := (Option.any_eq_true ..).mp htwice
  obtain ⟨l₁, hfirst, hsecond⟩ := Option.bind_eq_some_iff.mp hl
  rw [hfirst] at htime
  have hfresh : Sample.waiting.Fresh := ⟨by decide, by decide, rfl, rfl, rfl⟩
  have hreached : l.Reached Sample.terse ⟨[], []⟩ 2 := by
    refine ⟨Sample.waiting, hfresh, ?_⟩
    have hrun := Relation.ReflTransGen.single (LineStep.pass (Sample.pass_of_eq hfirst))
    exact (hrun.tail (.time (of_decide_eq_true htime))).tail (.pass (Sample.pass_of_eq hsecond))
  have hpaced := delivery_paced hreached
  exact ⟨l, hreached, of_decide_eq_true hsends, hpaced.1.2, hpaced.2.1 _⟩

end DistributedChat.Chat
