import DistributedChat.Chat.Logic
import DistributedChat.Lib.RoundRobin

/-!
# The tick of a shard

`Tick` of `servers/chat/service/LogicSystem.cpp` visits the sessions that a shard tracks, a bounded
number at a time. A cursor remembers the last one; the next is found with `upper_bound`, and the
first session follows the last. A session that is gone is erased, one that is due gets a delivery
pass.

1. `shardRules`: the sessions of the shard and the cursor, and what the effects of a tick do to
   them.
2. `calm_…`: a delivery pass changes the state of its own session only.
3. `meets_tickLoop`: the visits are the stops of the cursor, and they end early only after four
   passes.
-/

namespace DistributedChat.Chat

open Lib List

/-! ## The sessions of a shard -/

/-- The order of `std::string`. -/
instance instLinearOrderUInt8 : LinearOrder UInt8 where
  le_refl _ := UInt8.le_refl _
  le_trans _ _ _ := UInt8.le_trans
  le_antisymm _ _ := UInt8.le_antisymm
  le_total := UInt8.le_total
  lt_iff_le_not_ge a b := by rw [UInt8.not_le]; exact ⟨fun h => ⟨UInt8.le_of_lt h, h⟩, And.right⟩
  toDecidableLE := inferInstance

/-- For the tests of membership in `ids`. -/
local instance instLawfulBEqBytes : LawfulBEq Bytes := inferInstance

/-- `_delivery[shard]`, a map ordered by session id, and `_delivery_cursor[shard]`. -/
structure Shard where
  ids : List Bytes
  sorted : ids.Pairwise (· < ·)
  state : Bytes → DeliveryState
  cursor : Bytes

namespace Shard

theorem sorted_insert {ids : List Bytes} (h : ids.Pairwise (· < ·)) {id : Bytes} (hid : id ∉ ids) :
    (ids.orderedInsert (· < ·) id).Pairwise (· < ·) := by
  induction h with
  | nil => exact pairwise_singleton _ _
  | @cons k ids hk h ih =>
    rw [mem_cons, not_or] at hid
    rw [List.orderedInsert]
    split_ifs with hlt
    · refine pairwise_cons.mpr ⟨forall_mem_cons.mpr ⟨hlt, fun k' hk' => hlt.trans (hk k' hk')⟩, ?_⟩
      exact pairwise_cons.mpr ⟨hk, h⟩
    · refine pairwise_cons.mpr ⟨fun k' hk' => ?_, ih hid.2⟩
      rcases (mem_orderedInsert ..).mp hk' with rfl | hk'
      · exact lt_of_le_of_ne (not_lt.mp hlt) (Ne.symm hid.1)
      · exact hk k' hk'

/-- `operator[]`: a session that is not tracked gets a new state. -/
def track (sh : Shard) (id : Bytes) : Shard :=
  if h : id ∈ sh.ids then sh
  else { sh with
    ids := sh.ids.orderedInsert (· < ·) id
    sorted := sorted_insert sh.sorted h
    state := Function.update sh.state id {} }

def put (sh : Shard) (id : Bytes) (state : DeliveryState) : Shard :=
  { sh.track id with state := Function.update (sh.track id).state id state }

def erase (sh : Shard) (id : Bytes) : Shard :=
  { sh with ids := without sh.ids id, sorted := sorted_without sh.sorted id }

theorem track_of_mem {sh : Shard} {id : Bytes} (h : id ∈ sh.ids) : sh.track id = sh := dif_pos h

end Shard

/-! ## The program -/

/-- The effects of a tick: those of the handlers, `size` of the map, the search for the next
session, which moves the cursor, and `lock` of the weak pointer to a session. -/
inductive TickOp
  | call (c : Call)
  | size
  | advance
  | lock (s : Sid)

abbrev TickOp.Answer : TickOp → Type
  | .call c => c.Answer
  | .size => ℕ
  | .advance => Sid
  | .lock _ => Bool

abbrev TickSvc := Task TickOp TickOp.Answer Unit

def tickOp (e : TickOp) : TickSvc e.Answer := Task.perform e .ok

def lift {α : Type} (p : Svc α) : TickSvc α := Prog.embed TickOp.call p

def stale (s : Sid) : TickSvc Bool := do
  if (← tickOp (.lock s)) then do
    if (← lift (isClosed s)) then return true
    else do
      let registered ← lift (getSession s.server (← lift (getUserId s)))
      return decide (registered ≠ some s)
  else return true

section Tick

variable (setup : Setup)

/-- What `Tick` does with a session; `true` if it ran a delivery pass. -/
def visit (now : ℕ) (s : Sid) : TickSvc Bool := do
  if (← stale s) then do
    lift (call (.logic (.eraseDelivery s)))
    return false
  else do
    let state ← lift (call (.logic (.delivery s)))
    if state.next ≤ now then do
      lift (DeliverPendingTextMessages setup s (← lift (getUserId s)))
      return true
    else return false

/-- The loop of `Tick` with what is left of `scan_budget`. -/
def tickLoop (now : ℕ) : ℕ → ℕ → TickSvc Unit
  | 0, _ => return ()
  | budget + 1, queries => do
    if (← tickOp .size) ≠ 0 ∧ queries < 4 then do
      let s ← tickOp .advance
      if (← visit setup now s) then tickLoop now budget (queries + 1)
      else tickLoop now budget queries
    else return ()

def Tick : TickSvc Unit := do
  let now ← lift (call (.logic .steadyNow))
  let size ← tickOp .size
  tickLoop setup now (min size 128) 0

end Tick

/-! ## What a tick runs in -/

/-- The shard and the stops of the cursor in this tick, the last first. -/
structure Ticking where
  shard : Shard
  stops : List (Stop Bytes) := []

/-- The last stop was at a session that is erased. -/
def markDropped : List (Stop Bytes) → List (Stop Bytes)
  | [] => []
  | stop :: stops => { stop with dropped := true } :: stops

/-- The effects of a tick on the shard. Sessions, the database and the clock answer anything. -/
def shardRules (server : ServerName) : Monitor TickOp TickOp.Answer where
  Ghost := Ticking
  allow _ _ := True
  answer m e r :=
    match e, r with
    | .size, n => n = m.shard.ids.length
    | .advance, s => s.server = server ∧ nextAfter m.shard.ids m.shard.cursor = some s.session_id
    | .call (.logic (.delivery s)), state => state = (m.shard.track s.session_id).state s.session_id
    | _, _ => True
  next m e r :=
    match e, r with
    | .advance, s =>
      ⟨{ m.shard with cursor := s.session_id }, ⟨s.session_id, m.shard.ids, false⟩ :: m.stops⟩
    | .call (.logic (.delivery s)), _ => { m with shard := m.shard.track s.session_id }
    | .call (.logic (.setDelivery s state)), _ => { m with shard := m.shard.put s.session_id state }
    | .call (.logic (.eraseDelivery s)), _ =>
      ⟨m.shard.erase s.session_id, markDropped m.stops⟩
    | _, _ => m

section Calm

variable (server : ServerName)

/-- A handler program that leaves the sessions of the shard and the cursor alone, wherever it
starts. -/
def Calm {α : Type} (p : Svc α) : Prop :=
  ∀ m : Ticking, Meets ((shardRules server).pull TickOp.call) (fun (m' : Ticking) _ => m' = m) m p

/-- An effect that is not about the delivery states. -/
def Call.aside : Call → Bool
  | .logic (.delivery _) => false
  | .logic (.setDelivery _ _) => false
  | .logic (.eraseDelivery _) => false
  | _ => true

variable {server} {α β : Type}

theorem next_aside {c : Call} (h : c.aside = true) (m : Ticking) (r : c.Answer) :
    (shardRules server).next m (.call c) r = m := by
  unfold Call.aside at h
  split at h
  · cases h
  · cases h
  · cases h
  · next hdelivery hset herase =>
    rcases c with c | c | c | c | c
    · rfl
    · rfl
    · rfl
    · cases c <;> first | rfl | simp at hdelivery hset herase
    · rfl

variable {p : Svc α}

theorem Calm.bind {f : α → Svc β} (hp : Calm server p) (hf : ∀ a, Calm server (f a)) :
    Calm server (p >>= f : Svc β) := by
  intro m
  refine Meets.andThen ((hp m).weaken fun m' r hm => ?_)
  subst hm
  cases r with
  | error e => rfl
  | ok a => exact hf a m'

theorem Calm.perform {c : Call} (h : c.aside = true) (g : c.Answer → Except Unit α) :
    Calm server (Task.perform c g : Svc α) :=
  fun m => ⟨trivial, fun r _ => @next_aside server c h m r⟩

theorem Calm.pure (a : α) : Calm server (pure a : Svc α) := fun _ => rfl

theorem Calm.recover {f : Unit → Svc α} (hp : Calm server p) (hf : ∀ e, Calm server (f e)) :
    Calm server (Task.recover p f) := by
  intro m
  refine Meets.recover ((hp m).weaken fun m' r hm => ?_)
  subst hm
  cases r with
  | error e => exact hf e m'
  | ok a => rfl

theorem Calm.ensuring {after : Svc Unit} (hp : Calm server p) (hafter : Calm server after) :
    Calm server (Task.ensuring p after) := by
  intro m
  refine Meets.ensuring ((hp m).weaken fun m' r hm => ?_)
  subst hm
  exact hafter m'

theorem calm_withConnection {a : α} {body : Svc α} (h : Calm server body) :
    Calm server (withConnection a body) := by
  refine (Calm.perform rfl _).bind fun ok => ?_
  cases ok with
  | true => exact h.ensuring (Calm.perform rfl _)
  | false => exact Calm.pure a

theorem calm_GetPendingTextMessages (uid : Uid) (limit : ℕ) :
    Calm server (MysqlDao.GetPendingTextMessages uid limit) := by
  unfold MysqlDao.GetPendingTextMessages
  split_ifs
  · exact Calm.pure none
  · refine calm_withConnection (Calm.recover ?_ fun _ => Calm.pure none)
    exact (Calm.perform rfl _).bind fun rows => Calm.pure (some rows)

theorem calm_Close (s : Sid) : Calm server (CSession.Close s) := by
  refine (Calm.perform rfl _).bind fun closed => ?_
  cases closed with
  | true => exact Calm.pure ()
  | false =>
    refine (Calm.perform rfl _).bind fun found => ?_
    have herase : Calm server (call (.session (.eraseSession s))) := Calm.perform rfl _
    cases found with
    | false => exact herase
    | true =>
      refine (Calm.perform rfl _).bind fun uid => ?_
      by_cases hpos : 0 < uid
      · simp only [if_pos hpos]
        exact (Calm.perform rfl _).bind fun _ => herase
      · simp only [if_neg hpos]
        exact herase

theorem calm_Send (setup : Setup) (s : Sid) (body : Json) (msgid : MsgId) :
    Calm server (CSession.Send setup s body msgid) := by
  unfold CSession.Send
  split_ifs
  · exact (calm_Close s).bind fun _ => Calm.pure false
  · refine (Calm.perform rfl _).bind fun closed => ?_
    cases closed with
    | true => exact Calm.pure false
    | false =>
      refine (Calm.perform rfl _).bind fun closed => ?_
      cases closed with
      | true => exact Calm.pure false
      | false => exact Calm.perform rfl _

theorem calm_deliverLoop (setup : Setup) (s : Sid) (now : ℕ) (ms : List TextMessage)
    (w : DeliveryWindow) :
    Calm server (deliverLoop setup s now ms w) := by
  induction ms generalizing w with
  | nil => exact Calm.pure w
  | cons m ms ih =>
    unfold deliverLoop
    split_ifs
    · refine (calm_Send setup s _ _).bind fun sent => ?_
      cases sent with
      | true => exact ih _
      | false => exact Calm.pure w
    · exact ih w

end Calm

/-! ## The visits of a tick -/

/-- Nothing but the states of tracked sessions has changed. -/
structure Ticking.Same (m m' : Ticking) : Prop where
  ids : m'.shard.ids = m.shard.ids
  cursor : m'.shard.cursor = m.shard.cursor
  stops : m'.stops = m.stops

section Visits

variable {server : ServerName} {setup : Setup} {m : Ticking}

theorem Calm.andThen {α β : Type} {p : Svc α} (hp : Calm server p) {f : α → Svc β}
    {Q : Ticking → Except Unit β → Prop} (herror : ∀ e, Q m (.error e))
    (hok : ∀ a, Meets ((shardRules server).pull TickOp.call) Q m (f a)) :
    Meets ((shardRules server).pull TickOp.call) Q m (p >>= f : Svc β) := by
  refine Meets.andThen ((hp m).weaken fun m' r hm => ?_)
  subst hm
  cases r with
  | error e => exact herror e
  | ok a => exact hok a

theorem Calm.lift {α β : Type} {p : Svc α} (hp : Calm server p) {f : α → TickSvc β}
    {Q : Ticking → Except Unit β → Prop} (herror : ∀ e, Q m (.error e))
    (hok : ∀ a, Meets (shardRules server) Q m (f a)) :
    Meets (shardRules server) Q m (Chat.lift p >>= f : TickSvc β) := by
  refine Meets.andThen (Meets.embed ((hp m).weaken fun m' r hm => ?_))
  subst hm
  cases r with
  | error e => exact herror e
  | ok a => exact hok a

theorem same_put {s : Sid} (h : s.session_id ∈ m.shard.ids) (state : DeliveryState) :
    m.Same { m with shard := m.shard.put s.session_id state } := by
  unfold Shard.put
  rw [Shard.track_of_mem h]
  exact ⟨rfl, rfl, rfl⟩

/-- **A delivery pass changes the state of its own session only.** -/
theorem meets_pass (s : Sid) (uid : Uid) (h : s.session_id ∈ m.shard.ids) :
    Meets ((shardRules server).pull TickOp.call) (fun (m' : Ticking) _ => m.Same m') m
      (DeliverPendingTextMessages setup s uid) := by
  unfold DeliverPendingTextMessages
  refine (Calm.perform rfl _).andThen (fun _ => ⟨rfl, rfl, rfl⟩) fun closed => ?_
  cases closed with
  | true => exact ⟨rfl, rfl, rfl⟩
  | false =>
    refine Meets.perform trivial fun state _ => ?_
    show Meets ((shardRules server).pull TickOp.call) _
      ({ m with shard := m.shard.track s.session_id } : Ticking) _
    rw [Shard.track_of_mem h]
    refine (Calm.perform rfl _).andThen (fun _ => ⟨rfl, rfl, rfl⟩) fun now => ?_
    refine (calm_GetPendingTextMessages uid _).andThen (fun _ => ⟨rfl, rfl, rfl⟩) fun pending => ?_
    cases pending with
    | none => exact ⟨trivial, fun _ _ => same_put h _⟩
    | some pending =>
      refine (calm_deliverLoop setup s now pending _).andThen (fun _ => ⟨rfl, rfl, rfl⟩)
        fun window => ?_
      exact ⟨trivial, fun _ _ => same_put h _⟩

/-- The session of the last stop is looked at: it is erased and the stop says so, or nothing but its
state changes. -/
theorem meets_visit (now : ℕ) {s : Sid} {tracked : List Bytes} {stops : List (Stop Bytes)}
    (hstops : m.stops = ⟨s.session_id, tracked, false⟩ :: stops) (hids : m.shard.ids = tracked)
    (hmem : s.session_id ∈ tracked) (hcursor : m.shard.cursor = s.session_id) :
    Meets (shardRules server)
      (fun (m' : Ticking) _ => ∃ dropped : Bool, m'.stops =
        ⟨s.session_id, tracked, dropped⟩ :: stops ∧
        m'.shard.cursor = s.session_id ∧
        m'.shard.ids = if dropped then without tracked s.session_id else tracked)
      m (visit setup now s) := by
  subst hids
  have hkept : ∀ m' : Ticking, m.Same m' → ∃ dropped : Bool,
      m'.stops = ⟨s.session_id, m.shard.ids, dropped⟩ :: stops ∧ m'.shard.cursor = s.session_id ∧
      m'.shard.ids = if dropped then without m.shard.ids s.session_id else m.shard.ids :=
        fun m' hsame =>
    ⟨false, hsame.stops.trans hstops, hsame.cursor.trans hcursor, hsame.ids⟩
  have hsame : m.Same m := ⟨rfl, rfl, rfl⟩
  have hstale : Meets (shardRules server) (fun (m' : Ticking) _ => m' = m) m (stale s) := by
    unfold stale
    refine Meets.perform trivial fun locked _ => ?_
    cases locked with
    | false => rfl
    | true =>
      refine (Calm.perform rfl _).lift (fun _ => rfl) fun closed => ?_
      cases closed with
      | true => rfl
      | false =>
        refine (Calm.perform rfl _).lift (fun _ => rfl) fun uid => ?_
        exact (Calm.perform rfl _).lift (fun _ => rfl) fun registered => rfl
  unfold visit
  refine Meets.andThen (hstale.weaken fun m' r hm => ?_)
  subst hm
  cases r with
  | error e => exact hkept m' hsame
  | ok gone =>
    cases gone with
    | true =>
      refine Meets.andThen (Meets.embed ⟨trivial, fun _ _ => ?_⟩)
      refine ⟨true, ?_, hcursor, rfl⟩
      show markDropped m'.stops = _
      rw [hstops]
      rfl
    | false =>
      refine Meets.andThen (Meets.embed ⟨trivial, fun state _ => ?_⟩)
      show Meets (shardRules server) _
        ({ m' with shard := m'.shard.track s.session_id } : Ticking) _
      rw [Shard.track_of_mem hmem]
      by_cases hdue : state.next ≤ now
      · simp only [if_pos hdue]
        refine (Calm.perform rfl _).lift (fun _ => hkept m' hsame) fun uid => ?_
        refine Meets.andThen (Meets.embed ((meets_pass s uid hmem).weaken fun m₁ r hm => ?_))
        cases r with
        | error e | ok u => exact hkept m₁ hm
      · simp only [if_neg hdue]
        exact hkept m' hsame

/-- The stops from one state of a tick to another. -/
def Toured (m m' : Ticking) (least : ℕ) : Prop :=
  ∃ stops, m'.stops = stops.reverse ++ m.stops ∧
    Tour m.shard.ids m.shard.cursor stops m'.shard.ids m'.shard.cursor ∧
    (m'.shard.ids = [] ∨ least ≤ stops.length)

/-- **The loop visits what the cursor stops at**, until the budget is used up, four passes have run
or no session is left. -/
theorem meets_tickLoop (now budget queries : ℕ) (m : Ticking) :
    Meets (shardRules server)
    (fun (m' : Ticking) r => r = .ok () → Toured m m' (min budget (4 - queries))) m
      (tickLoop setup now budget queries) := by
  induction budget generalizing m queries with
  | zero => exact fun _ => ⟨[], rfl, .nil _ _, Or.inr (by simp)⟩
  | succ budget ih =>
    unfold tickLoop
    refine Meets.perform trivial fun size hsize => ?_
    obtain rfl : size = m.shard.ids.length := hsize
    show Meets (shardRules server) _ m _
    by_cases hgo : m.shard.ids.length ≠ 0 ∧ queries < 4
    · simp only [if_pos hgo]
      refine Meets.perform trivial fun s hs => ?_
      obtain ⟨-, hnext⟩ : s.server = server ∧
        nextAfter m.shard.ids m.shard.cursor = some s.session_id := hs
      have hmem := (isNext_nextAfter m.shard.sorted hnext).1
      let m₀ : Ticking :=
        ⟨{ m.shard with cursor := s.session_id }, ⟨s.session_id, m.shard.ids, false⟩ :: m.stops⟩
      have hvisit := @meets_visit server setup m₀ now s m.shard.ids m.stops rfl rfl hmem rfl
      refine Meets.andThen (hvisit.weaken fun m₁ r hm => ?_)
      obtain ⟨dropped, hstops, hcursor, hids⟩ := hm
      -- the rest of the loop goes on from the stop
      have hrest : ∀ (queries' : ℕ) (m₂ : Ticking), queries' ≤ queries + 1 →
          Toured m₁ m₂ (min budget (4 - queries')) →
            Toured m m₂ (min (budget + 1) (4 - queries)) := by
        rintro queries' m₂ hle ⟨stops, hm₂, htour, hleast⟩
        rw [hids, hcursor] at htour
        refine ⟨⟨s.session_id, m.shard.ids, dropped⟩ :: stops, ?_, .cons hnext htour, ?_⟩
        · rw [hm₂, hstops, reverse_cons, append_assoc, singleton_append]
        · refine hleast.imp_right fun hleast => ?_
          rw [length_cons]
          omega
      cases r with
      | error e => exact nofun
      | ok passed =>
        cases passed with
        | true => exact (ih (queries + 1) m₁).weaken fun m₂ r h hr => hrest _ m₂ le_rfl (h hr)
        | false => exact (ih queries m₁).weaken fun m₂ r h hr => hrest _ m₂ (Nat.le_succ _) (h hr)
    · simp only [if_neg hgo]
      refine fun _ => ⟨[], rfl, .nil _ _, ?_⟩
      rw [not_and_or, not_not, length_eq_zero_iff] at hgo
      exact hgo.imp_right fun hqueries => by simp; omega

theorem meets_Tick (m : Ticking) :
    Meets (shardRules server)
    (fun (m' : Ticking) r => r = .ok () → ∃ stops, m'.stops = stops.reverse ++ m.stops ∧
        Tour m.shard.ids m.shard.cursor stops m'.shard.ids m'.shard.cursor ∧
        min m.shard.ids.length 4 ≤ stops.length) m (Tick setup) := by
  unfold Tick
  refine (Calm.perform rfl _).lift (fun _ => nofun) fun now => ?_
  refine Meets.perform trivial fun size hsize => ?_
  obtain rfl : size = m.shard.ids.length := hsize
  refine (meets_tickLoop now (min m.shard.ids.length 128) 0 m).weaken fun m' r h hr => ?_
  obtain ⟨stops, hstops, htour, hleast⟩ := h hr
  refine ⟨stops, hstops, htour, ?_⟩
  rcases hleast with hempty | hleast
  · have hle := htour.length_le
    rw [hempty, length_nil] at hle
    omega
  · omega

end Visits

/-! ## Ticks -/

/-- What a tick did: how many sessions there were at its start, and its stops. -/
structure TickRecord where
  tracked : ℕ
  stops : List (Stop Bytes)

/-- Ticks of a shard, each to its end. Between two ticks other tasks of the shard change the states
of the sessions; no session is added. -/
inductive Ticks (setup : Setup) (server : ServerName) : Shard → List TickRecord → Shard → Prop
  | done (sh : Shard) : Ticks setup server sh [] sh
  | others {sh sh₁ sh' : Shard} {ticks : List TickRecord} (hids : sh₁.ids = sh.ids)
      (hcursor : sh₁.cursor = sh.cursor) (h : Ticks setup server sh₁ ticks sh') :
      Ticks setup server sh ticks sh'
  | tick {sh sh₁ sh' : Shard} {stops : List (Stop Bytes)} {ticks : List TickRecord}
      (hrun : (shardRules server).Exec (⟨sh, []⟩ : Ticking) (Tick setup) (⟨sh₁, stops⟩ : Ticking)
        (.ok ()))
      (h : Ticks setup server sh₁ ticks sh') :
    Ticks setup server sh (⟨sh.ids.length, stops.reverse⟩ :: ticks) sh'

section Ticks

variable {setup : Setup} {server : ServerName} {sh sh₁ sh' : Shard} {ticks : List TickRecord}

theorem tick_tour {stops : List (Stop Bytes)}
    (hrun : (shardRules server).Exec (⟨sh, []⟩ : Ticking) (Tick setup) (⟨sh₁, stops⟩ : Ticking)
      (.ok ())) :
    Tour sh.ids sh.cursor stops.reverse sh₁.ids sh₁.cursor ∧
    min sh.ids.length 4 ≤ stops.length := by
  obtain ⟨stops', hstops, htour, hleast⟩ := (meets_Tick ⟨sh, []⟩).exec hrun rfl
  obtain rfl : stops = stops'.reverse := by simpa using hstops
  rw [reverse_reverse, length_reverse]
  exact ⟨htour, hleast⟩

theorem Ticks.tour (h : Ticks setup server sh ticks sh') :
    Tour sh.ids sh.cursor (ticks.flatMap TickRecord.stops) sh'.ids sh'.cursor := by
  induction h with
  | done sh => exact .nil _ _
  | others hids hcursor _ ih =>
    rw [← hids, ← hcursor]
    exact ih
  | tick hrun _ ih =>
    rw [flatMap_cons]
    exact (tick_tour hrun).1.append ih

theorem Ticks.length_le (h : Ticks setup server sh ticks sh') :
    min sh.ids.length (4 * ticks.length) ≤ (ticks.flatMap TickRecord.stops).length := by
  induction h with
  | done sh => simp
  | others hids _ _ ih =>
    rw [← hids]
    exact ih
  | @tick sh sh₁ sh' stops ticks hrun _ ih =>
    obtain ⟨htour, hleast⟩ := tick_tour hrun
    have hle := htour.length_le
    rw [length_reverse] at hle
    rw [flatMap_cons, length_append, length_reverse, length_cons]
    omega

theorem Ticks.least (h : Ticks setup server sh ticks sh') :
    ∀ tick ∈ ticks, min tick.tracked 4 ≤ tick.stops.length := by
  induction h with
  | done sh => exact nofun
  | others _ _ _ ih => exact ih
  | tick hrun _ ih =>
    refine forall_mem_cons.mpr ⟨?_, ih⟩
    rw [length_reverse]
    exact (tick_tour hrun).2

end Ticks

/-- **No session is starved by the tick.** For every shard, every cursor and every sequence of ticks
during which no session is added:

* each session that is visited is the next one after the last, in the cyclic order of the ids,
* no session is visited again before every other one that is still tracked,
* each tick visits four sessions or all there are,
* so every session is visited within as many ticks as there are groups of four. -/
theorem ticks_fair {setup : Setup} {server : ServerName} {sh sh' : Shard} {ticks : List TickRecord}
    (h : Ticks setup server sh ticks sh') :
    (∀ pre stop post, ticks.flatMap TickRecord.stops = pre ++ stop :: post →
      IsNext stop.tracked (cursorAfter sh.cursor pre) stop.id) ∧
    (∀ pre stop mid stop' post, ticks.flatMap TickRecord.stops =
      pre ++ stop :: (mid ++ stop' :: post) →
      stop'.id = stop.id → ∀ id ∈ stop'.tracked, id ≠ stop.id → ∃ other ∈ mid, other.id = id) ∧
    (∀ tick ∈ ticks, min tick.tracked 4 ≤ tick.stops.length) ∧
    ((sh.ids.length + 3) / 4 ≤ ticks.length →
      ∀ id ∈ sh.ids, ∃ stop ∈ ticks.flatMap TickRecord.stops, stop.id = id) := by
  refine ⟨fun pre stop post hsplit => ?_, fun pre stop mid stop' post hsplit hid => ?_, h.least,
    fun hlen => ?_⟩
  · exact h.tour.isNext sh.sorted hsplit
  · exact h.tour.again sh.sorted hsplit hid
  · have hle := h.length_le
    exact h.tour.covers sh.sorted (by omega)

def quietSetup : Setup := ⟨[], fun b => b, fun b => b, fun _ => 0, fun b => b⟩

def oneSession : Shard := ⟨[[1]], pairwise_singleton _ _, fun _ => {}, []⟩

/-- The session is gone when the tick visits it. -/
def oneTick : List TickRecord := [⟨1, [⟨[1], [[1]], true⟩]⟩]

theorem ticks_oneTick : ∃ sh', Ticks quietSetup [] oneSession oneTick sh' := by
  have hnext : nextAfter oneSession.ids oneSession.cursor = some [1] := by decide +kernel
  refine ⟨{ oneSession with cursor := [1] }.erase [1],
    @Ticks.tick quietSetup [] oneSession _ _ [⟨[1], [[1]], true⟩] [] ?_ (.done _)⟩
  refine Monitor.Exec.call (r := (0 : ℕ)) trivial ?_
  refine Monitor.Exec.call (r := (1 : ℕ)) ?_ (Monitor.Exec.call (r := (1 : ℕ)) ?_ ?_)
  · rfl
  · rfl
  refine Monitor.Exec.call (r := (⟨[], [1]⟩ : Sid)) ?_ (Monitor.Exec.call (r := false) trivial ?_)
  · exact ⟨rfl, hnext⟩
  refine Monitor.Exec.call (r := ()) trivial ?_
  exact .ret

theorem ticks_fair_sample :
    ∃ sh', Ticks quietSetup [] oneSession oneTick sh' ∧
      ∀ id ∈ oneSession.ids, ∃ stop ∈ oneTick.flatMap TickRecord.stops, stop.id = id := by
  obtain ⟨sh', h⟩ := ticks_oneTick
  exact ⟨sh', h, (ticks_fair h).2.2.2 (by decide)⟩

end DistributedChat.Chat
