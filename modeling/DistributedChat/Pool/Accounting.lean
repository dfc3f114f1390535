import DistributedChat.Lib.Custody
import DistributedChat.Pool.MysqlConnectionPool

/-!
# The accounts of the connection pool

1. `Slots`: the connections that were ever made are each in the queue, destroyed, or in the hands of
   one thread; `live` counts the queue and the threads with a connection or a slot in their hands.
   One lemma for each thing an effect can do.
2. `Tidy`: the connections in the queue are clean, and so are those a thread may put there.
3. `Phases`: what has ended when `Close` has returned.
4. `discipline` for the programs, and `pool_accounts` for all runs.
-/

namespace DistributedChat.Pool

open Lib Function List

/-! ## Slots -/

def Held.con : Held → Option ℕ
  | .connection con => some con
  | _ => none

def Held.busy : Held → Bool
  | .nothing => false
  | _ => true

open Held (busy)

/-- The connections and slots of the pool, given what each thread has in its hands. -/
structure Slots (s : State) (h : Thread → Held) : Prop where
  custody : Custody s.created (s.connections ++ s.destroyed) (Held.con ∘ h)
  count : ∃ k, Tally k (Held.busy ∘ h) ∧ s.live = s.connections.length + k
  bound : s.live ≤ s.pool_size

namespace Slots

variable {s s' : State} {h : Thread → Held} {t : Thread} {con : ℕ}

section

variable (hs : Slots s h)

include hs

theorem same (hcreated : s'.created = s.created)
    (hconnections : s'.connections = s.connections) (hdestroyed : s'.destroyed = s.destroyed)
    (hlive : s'.live = s.live) (hsize : s'.pool_size = s.pool_size) : Slots s' h := by
  constructor
  · rw [hcreated, hconnections, hdestroyed]
    exact hs.custody
  · rw [hconnections, hlive]
    exact hs.count
  · rw [hlive, hsize]
    exact hs.bound

/-- A thread changes what it has in its hands, and the pool with it. -/
theorem move {x : Held}
    (hcustody : Custody s'.created (s'.connections ++ s'.destroyed) (update (Held.con ∘ h) t x.con))
    (hlive : s'.live + s.connections.length + (h t).busy.toNat =
      s.live + s'.connections.length + x.busy.toNat)
    (hbound : s'.live ≤ s'.pool_size) : Slots s' (update h t x) := by
  obtain ⟨k, htally, hcount⟩ := hs.count
  obtain ⟨k', htally', hk⟩ := htally.update t x.busy
  refine ⟨by rwa [comp_update], ⟨k', by rwa [comp_update], ?_⟩, hbound⟩
  rw [comp_apply] at hk
  omega

theorem takeFront (ht : h t = .nothing) {rest : List ℕ} (front : s.connections = con :: rest) :
    Slots { s with connections := rest } (update h t (.connection con)) := by
  refine hs.move ?_ ?_ hs.bound
  · have htake :=
      hs.custody.take (t := t) (i := con) (by rw [comp_apply, ht]; rfl) (by simp [front])
    rwa [front, cons_append, erase_cons_head] at htake
  · simp [ht, front, busy]
    omega

theorem reserve (ht : h t = .nothing) (hroom : s.live < s.pool_size) :
    Slots { s with live := s.live + 1 } (update h t .slot) := by
  refine hs.move ?_ ?_ hroom
  · rw [show Held.con .slot = (Held.con ∘ h) t by rw [comp_apply, ht]; rfl, update_eq_self]
    exact hs.custody
  · simp [ht, busy]
    omega

theorem make (ht : h t = .slot) (session : Session) :
    Slots { s.setSession s.created session with created := s.created + 1 }
      (update h t (.connection s.created)) := by
  refine hs.move (hs.custody.fresh ?_) ?_ hs.bound
  · rw [comp_apply, ht]
    rfl
  · rw [ht]
    rfl

theorem live_pos (ht : (h t).busy = true) : 0 < s.live := by
  obtain ⟨k, htally, hlive⟩ := hs.count
  obtain ⟨k', -, hk⟩ := htally.update t false
  rw [comp_apply, ht] at hk
  simp only [Bool.toNat_true, Bool.toNat_false] at hk
  omega

theorem release (ht : h t = .slot) : Slots { s with live := s.live - 1 } (update h t .nothing) := by
  refine hs.move ?_ ?_ ?_
  · rw [show Held.con .nothing = (Held.con ∘ h) t by rw [comp_apply, ht]; rfl, update_eq_self]
    exact hs.custody
  · simp [ht, busy]
    omega
  · exact (Int.sub_le_self _ (by decide)).trans hs.bound

theorem push (ht : h t = .connection con) : Slots (s.push con) (update h t .nothing) := by
  refine hs.move ?_ ?_ hs.bound
  · refine (hs.custody.put (t := t) (i := con) (by rw [comp_apply, ht]; rfl)).perm ?_
    show (s.connections ++ s.destroyed ++ [con]).Perm (s.connections ++ [con] ++ s.destroyed)
    rw [append_assoc, append_assoc]
    exact List.Perm.append_left _ perm_append_comm
  · simp [ht, busy, State.push]
    omega

theorem destroy (ht : h t = .connection con) :
    Slots { s with destroyed := s.destroyed ++ [con], live := s.live - 1 }
      (update h t .nothing) := by
  refine hs.move ?_ ?_ ?_
  · show Custody s.created (s.connections ++ (s.destroyed ++ [con])) _
    rw [← append_assoc]
    exact hs.custody.put (by rw [comp_apply, ht]; rfl)
  · simp [ht, busy]
    omega
  · exact (Int.sub_le_self _ (by decide)).trans hs.bound

theorem drop (ht : h t = .connection con) : Slots (s.drop con) (update h t .nothing) := by
  have hpos : 0 < s.live := hs.live_pos (t := t) (by rw [ht]; rfl)
  rw [State.drop, if_pos hpos]
  exact hs.destroy ht

end

theorem dropAll : ∀ {connections : List ℕ} {s : State}, s.connections = connections → Slots s h →
    Slots (State.dropAll s connections) h ∧ (State.dropAll s connections).connections = [] := by
  intro connections
  induction connections with
  | nil => exact fun hnil hs => ⟨hs, hnil⟩
  | cons con rest ih =>
    intro s front hs
    obtain ⟨k, htally, hlive⟩ := hs.count
    rw [front, length_cons] at hlive
    push_cast at hlive
    have hpos : 0 < s.live := by omega
    have hbound := hs.bound
    rw [State.dropAll]
    apply ih
    · rfl
    · rw [State.drop, if_pos hpos]
      constructor
      · refine hs.custody.perm ?_
        show (s.connections ++ s.destroyed).Perm (rest ++ (s.destroyed ++ [con]))
        rw [front, cons_append, ← append_assoc]
        exact (perm_append_singleton con (rest ++ s.destroyed)).symm
      · refine ⟨k, htally, ?_⟩
        show s.live - 1 = (rest.length : ℤ) + k
        omega
      · show s.live - 1 ≤ (s.pool_size : ℤ)
        omega

end Slots

theorem dropAll_eq : ∀ {connections : List ℕ} {s : State}, s.connections = connections →
    ∃ live destroyed, State.dropAll s connections =
      { s with connections := [], live := live, destroyed := destroyed } := by
  intro connections
  induction connections with
  | nil =>
    intro s hnil
    refine ⟨s.live, s.destroyed, ?_⟩
    rw [State.dropAll, ← hnil]
  | cons con rest ih =>
    intro s _
    obtain ⟨live, destroyed, heq⟩ := ih (s := State.drop { s with connections := rest } con) rfl
    exact ⟨live, destroyed, by rw [State.dropAll, heq]; rfl⟩

variable {s : State}

theorem popFront_none (h : s.stopped = true ∨ s.connections = []) : s.popFront = (none, s) := by
  unfold State.popFront
  split
  · rename_i hstopped front
    rw [hstopped, front] at h
    rcases h with h | h <;> cases h
  · rfl

theorem popFront_some {con : ℕ} {rest : List ℕ} (hstopped : s.stopped = false)
    (front : s.connections = con :: rest) :
    s.popFront = (some con, { s with connections := rest }) := by
  unfold State.popFront
  rw [hstopped, front]

/-! ## What a thread may do -/

inductive Stage
  | free
  | slot
  | has (con : ℕ) (clean : Bool)
  /-- A call of `Close` before its parts, and after them. -/
  | closing
  | stopping
  | joined
  | done
  deriving DecidableEq, Repr

def Stage.held : Stage → Held
  | .slot => .slot
  | .has con _ => .connection con
  | _ => .nothing

/-- A thread performs the effects that go with what it has in its hands; only a clean connection
goes to the queue. -/
def discipline : Monitor Op Op.Answer where
  Ghost := Stage
  allow
    | .free, .borrow | .free, .reserve | .free, .countIdle | .free, .takeIdle | .free,
      .healthWait => True
    | .slot, .factory | .slot, .release => True
    | .has con clean, .giveBack con' | .has con clean, .add con' => con' = con ∧ clean = true
    | .has con _, .use con' | .has con _, .getAutoCommit con' | .has con _, .rollback con'
    | .has con _, .setAutoCommit con' | .has con _, .discard con' | .has con _, .healthCheck con' =>
      con' = con
    | .closing, .setStopped | .stopping, .join | .joined, .drain => True
    | _, _ => False
  answer _ _ _ := True
  next
    | .free, .borrow, some con | .free, .takeIdle, some con => .has con true
    | .free, .reserve, true => .slot
    | .slot, .factory, some con => .has con true
    | .slot, .release, _ => .free
    | .has con _, .use _, _ => .has con false
    | .has con _, .getAutoCommit _, some true | .has con _, .setAutoCommit _, true => .has con true
    | .has _ _, .giveBack _, _ | .has _ _, .add _, _ | .has _ _, .discard _, _ => .free
    | .closing, .setStopped, _ => .stopping
    | .stopping, .join, _ => .joined
    | .joined, .drain, _ => .done
    | m, _, _ => m
  final m := m = .free ∨ m = .done

/-- A program that begins and ends with empty hands. -/
def Safe {α : Type} (p : Svc α) : Prop := Meets discipline (fun m _ => m = .free) .free p

theorem safe_bind {α β : Type} {p : Svc α} {f : α → Svc β} (hp : Safe p) (hf : ∀ a, Safe (f a)) :
    Safe (p >>= f) := by
  apply Meets.bind
  refine hp.weaken ?_
  rintro m a rfl
  exact hf a

theorem safe_createOneConnection : Safe CreateOneConnection := by
  refine ⟨trivial, fun reserved _ => ?_⟩
  cases reserved with
  | false => exact Eq.refl Stage.free
  | true =>
    refine ⟨trivial, fun made _ => ?_⟩
    cases made with
    | none => exact ⟨trivial, fun _ _ => Eq.refl Stage.free⟩
    | some con => exact ⟨⟨rfl, rfl⟩, fun _ _ => Eq.refl Stage.free⟩

theorem meets_resetMysqlTransaction (con : ℕ) (clean : Bool) :
    Meets discipline (fun m ok => (∃ clean', m = .has con clean') ∧ (ok = true → m = .has con true))
      (.has con clean) (ResetMysqlTransaction con) := by
  refine ⟨rfl, fun answer _ => ?_⟩
  match answer with
  | none => exact ⟨⟨clean, rfl⟩, nofun⟩
  | some true => exact ⟨⟨true, rfl⟩, fun _ => rfl⟩
  | some false =>
    refine ⟨rfl, fun rolledBack _ => ?_⟩
    cases rolledBack with
    | false => exact ⟨⟨clean, rfl⟩, nofun⟩
    | true =>
      refine ⟨rfl, fun ok _ => ?_⟩
      cases ok with
      | false => exact ⟨⟨clean, rfl⟩, nofun⟩
      | true => exact ⟨⟨true, rfl⟩, fun _ => rfl⟩

theorem meets_returnConnection (con : ℕ) (clean : Bool) :
    Meets discipline (fun m _ => m = .free) (.has con clean) (returnConnection con) := by
  apply Meets.bind
  refine (meets_resetMysqlTransaction con clean).weaken ?_
  rintro m ok ⟨⟨clean', rfl⟩, hok⟩
  cases ok with
  | true =>
    rw [hok rfl]
    exact ⟨⟨rfl, rfl⟩, fun _ _ => Eq.refl Stage.free⟩
  | false =>
    refine ⟨rfl, fun _ _ => ?_⟩
    show Safe (CreateOneConnection >>= fun _ => pure ())
    exact safe_bind safe_createOneConnection fun _ => Eq.refl Stage.free

theorem safe_borrower : Safe borrower := by
  refine ⟨trivial, fun lent _ => ?_⟩
  cases lent with
  | none => exact Eq.refl Stage.free
  | some con => exact ⟨rfl, fun _ _ => meets_returnConnection con false⟩

theorem safe_checkIdle (rounds : ℕ) : Safe (checkIdle rounds) := by
  induction rounds with
  | zero => exact Eq.refl Stage.free
  | succ rounds ih =>
    refine ⟨trivial, fun taken _ => ?_⟩
    cases taken with
    | none => exact Eq.refl Stage.free
    | some con =>
      refine ⟨rfl, fun healthy _ => ?_⟩
      cases healthy with
      | true => exact ⟨⟨rfl, rfl⟩, fun _ _ => ih⟩
      | false => exact ⟨rfl, fun _ _ => ih⟩

theorem safe_retry {p : Svc Unit} (hp : Safe p) :
    Safe (CreateOneConnection >>= fun made => if made = true then p else pure ()) := by
  refine safe_bind safe_createOneConnection fun made => ?_
  cases made with
  | true => exact hp
  | false => exact Eq.refl Stage.free

theorem safe_replenishConnections (rounds : ℕ) : Safe (ReplenishConnections rounds) := by
  induction rounds with
  | zero => exact Eq.refl Stage.free
  | succ rounds ih => exact safe_retry ih

theorem safe_construct (rounds : ℕ) : Safe (construct rounds) := by
  induction rounds with
  | zero => exact Eq.refl Stage.free
  | succ rounds ih => exact safe_retry ih

theorem safe_healthWorker (rounds : List ℕ) : Safe (HealthWorker rounds) := by
  induction rounds with
  | nil => exact Eq.refl Stage.free
  | cons replenish rounds ih =>
    refine ⟨trivial, fun stopped _ => ?_⟩
    cases stopped with
    | true => exact Eq.refl Stage.free
    | false =>
      have hcheck : Safe CheckIdleConnections :=
        ⟨trivial, fun idle_count _ => safe_checkIdle idle_count⟩
      show Safe (CheckIdleConnections >>= fun _ =>
        ReplenishConnections replenish >>= fun _ => HealthWorker rounds)
      exact safe_bind hcheck fun _ => safe_bind (safe_replenishConnections replenish) fun _ => ih

theorem meets_close : Meets discipline (fun m _ => m = .done) .closing Close :=
  ⟨trivial, fun _ _ => ⟨trivial, fun _ _ => ⟨trivial, fun _ _ => Eq.refl Stage.done⟩⟩⟩

/-! ## Clean connections -/

section Accounts

variable {s s' : State} {g : Thread → Option Stage} {t : Thread} {m m' : Stage} {con : ℕ}

/-- What the threads have in their hands. -/
def heldOf : Option Stage → Held
  | none => .nothing
  | some m => m.held

/-- The connections that may be handed out are clean: those in the queue, and those a thread may put
there. -/
structure Tidy (s : State) (g : Thread → Option Stage) : Prop where
  idle : ∀ con ∈ s.connections, (s.sessions con).Clean
  clean : ∀ t con, g t = some (.has con true) → (s.sessions con).Clean

/-- The sessions stay as they are, and only connections that are clean are added to the queue. -/
theorem Tidy.move (h : Tidy s g) {m' : Option Stage} (hsessions : s'.sessions = s.sessions)
    (hidle : ∀ con ∈ s'.connections, con ∈ s.connections ∨ (s.sessions con).Clean)
    (hm : ∀ con, m' = some (.has con true) → (s.sessions con).Clean) : Tidy s' (update g t m') := by
  constructor
  · intro con hcon
    rw [hsessions]
    exact (hidle con hcon).elim (h.idle con) id
  · intro t' con ht'
    rw [hsessions]
    rcases update_cases ht' with ⟨heq, ht'⟩ | ⟨heq, ht'⟩
    · exact hm con ht'
    · exact h.clean t' con ht'

variable {session : Session}

theorem Tidy.setSession (h : Tidy s g) (hnot : con ∉ s.connections)
    (halone : ∀ t' clean, t' ≠ t → g t' ≠ some (.has con clean)) {m' : Option Stage}
    (hm : ∀ con', m' = some (.has con' true) → con' = con ∧ session.Clean) :
    Tidy (s.setSession con session) (update g t m') := by
  constructor
  · intro con' hcon'
    show (update s.sessions con session con').Clean
    have hne : con' ≠ con := by
      rintro rfl
      exact hnot hcon'
    rw [update_of_ne hne]
    exact h.idle con' hcon'
  · intro t' con' ht'
    show (update s.sessions con session con').Clean
    rcases update_cases ht' with ⟨heq, ht'⟩ | ⟨heq, ht'⟩
    · obtain ⟨rfl, hclean⟩ := hm con' ht'
      rwa [update_self]
    · have hne : con' ≠ con := by
        rintro rfl
        exact halone t' true heq ht'
      rw [update_of_ne hne]
      exact h.clean t' con' ht'

/-! ## Phases of the pool -/

/-- Nothing is handed out any more. -/
def State.Shut (s : State) : Prop :=
  s.constructed = true ∧ s.stopped = true ∧ s.healthEnded = true ∧ s.connections = []

/-- What a call of `Close` has seen to; the other threads do not run `Close`. -/
def Stage.Sound (s : State) (t : Thread) : Stage → Prop
  | .closing => s.constructed = true
  | .stopping => s.constructed = true ∧ s.stopped = true
  | .joined => s.constructed = true ∧ s.stopped = true ∧ s.healthEnded = true
  | .done => s.Shut
  | _ => ∀ k, t ≠ .closer k

structure Phases (s : State) (g : Thread → Option Stage) : Prop where
  sound : ∀ t m, g t = some m → m.Sound s t
  constructed : s.constructed = true → g .constructor = none
  healthEnded : s.healthEnded = true → g .health = none
  closed : s.closed = true → s.Shut

/-- What cannot be undone. -/
structure Later (s s' : State) : Prop where
  constructed : s.constructed = true → s'.constructed = true
  stopped : s.stopped = true → s'.stopped = true
  healthEnded : s.healthEnded = true → s'.healthEnded = true
  connections : s.stopped = true → s.connections = [] → s'.connections = []

theorem State.Shut.later (h : s.Shut) (hlater : Later s s') : s'.Shut :=
  ⟨hlater.constructed h.1, hlater.stopped h.2.1, hlater.healthEnded h.2.2.1,
    hlater.connections h.2.1 h.2.2.2⟩

theorem Stage.Sound.later (h : m.Sound s t) (hlater : Later s s') : m.Sound s' t := by
  cases m with
  | closing => exact hlater.constructed h
  | stopping => exact ⟨hlater.constructed h.1, hlater.stopped h.2⟩
  | joined => exact ⟨hlater.constructed h.1, hlater.stopped h.2.1, hlater.healthEnded h.2.2⟩
  | done => exact State.Shut.later h hlater
  | _ => exact h

theorem Phases.move (h : Phases s g) (ht : g t = some m)
    (hconstructed : s'.constructed = s.constructed)
    (hended : s'.healthEnded = s.healthEnded) (hclosed : s'.closed = s.closed) (hlater : Later s s')
    (hm : m'.Sound s' t) : Phases s' (update g t (some m')) where
  sound := forall_set hm fun t' m₁ _ ht' => (h.sound t' m₁ ht').later hlater
  constructed hc := by
    have hnone := h.constructed (hconstructed ▸ hc)
    rwa [update_of_ne]
    rintro rfl
    rw [hnone] at ht
    cases ht
  healthEnded he := by
    have hnone := h.healthEnded (hended ▸ he)
    rwa [update_of_ne]
    rintro rfl
    rw [hnone] at ht
    cases ht
  closed hc := (h.closed (hclosed ▸ hc)).later hlater

/-- A step that leaves the phase of the pool; what is in the queue of a stopped pool does not grow.
-/
theorem Phases.quiet (h : Phases s g) (ht : g t = some m)
    (hconstructed : s'.constructed = s.constructed)
    (hended : s'.healthEnded = s.healthEnded) (hstopped : s'.stopped = s.stopped)
    (hclosed : s'.closed = s.closed)
    (hconnections : s.stopped = true → s.connections = [] → s'.connections = [])
    (hm : m'.Sound s' t) :
    Phases s' (update g t (some m')) :=
  h.move ht hconstructed hended hclosed
    ⟨hconstructed ▸ id, hstopped ▸ id, hended ▸ id, hconnections⟩ hm

/-! ## The accounts -/

structure Accounts (n : ℕ) (s : State) (g : Thread → Option Stage) : Prop where
  slots : Slots s (heldOf ∘ g)
  tidy : Tidy s g
  phases : Phases s g
  size : s.pool_size = n

variable {n : ℕ}

theorem heldOf_update (g : Thread → Option Stage) (t : Thread) (m' : Option Stage) :
    heldOf ∘ update g t m' = update (heldOf ∘ g) t (heldOf m') :=
  comp_update heldOf g t m'

theorem heldOf_of_stage (ht : g t = some m) : (heldOf ∘ g) t = m.held := by
  rw [comp_apply, ht]
  rfl

theorem heldOf_keep (ht : g t = some m) (m' : Stage) (hheld : m'.held = m.held) :
    heldOf ∘ update g t (some m') = heldOf ∘ g := by
  rw [heldOf_update,
    show heldOf (some m') = (heldOf ∘ g) t from hheld.trans (heldOf_of_stage ht).symm,
    update_eq_self]

namespace Accounts

variable (h : Accounts n s g) (ht : g t = some m)

include h ht

theorem same : Accounts n s (update g t (some m)) := by
  rwa [← ht, update_eq_self]

theorem alone (hheld : m.held = .connection con) :
    con ∉ s.connections ∧ con < s.created ∧ ∀ t' clean, t' ≠ t → g t' ≠ some (.has con clean) := by
  have hhas : (Held.con ∘ heldOf ∘ g) t = some con := by
    rw [comp_apply, heldOf_of_stage ht, hheld]
    rfl
  obtain ⟨hlt, hnot⟩ := h.slots.custody.held t con hhas
  refine ⟨fun hmem => hnot (mem_append_left _ hmem), hlt, fun t' clean hne ht' => hne ?_⟩
  refine h.slots.custody.apart t' t con ?_ hhas
  rw [comp_apply, heldOf_of_stage ht']
  rfl

theorem setSession {session : Session} {clean : Bool} (hheld : m.held = .connection con)
    (hclean : clean = true → session.Clean) :
    Accounts n (s.setSession con session) (update g t (some (.has con clean))) := by
  obtain ⟨hnot, -, halone⟩ := h.alone ht hheld
  have hsound : (Stage.has con clean).Sound (s.setSession con session) t := by
    have hold := h.phases.sound t m ht
    cases m with
    | has con' clean' => exact hold
    | _ => cases hheld
  refine ⟨?_, ?_, ?_, h.size⟩
  · rw [heldOf_keep ht (.has con clean) hheld.symm]
    exact h.slots.same rfl rfl rfl rfl rfl
  · refine h.tidy.setSession hnot halone ?_
    rintro con' hcon'
    obtain ⟨rfl, rfl⟩ := Stage.has.inj (Option.some.inj hcon')
    exact ⟨rfl, hclean rfl⟩
  · exact h.phases.quiet ht rfl rfl rfl rfl (fun _ hnil => hnil) hsound

theorem popFront (hm : m = .free) :
    Accounts n s.popFront.2 (update g t (some (match s.popFront.1 with
      | some con => .has con true
      | none => .free))) := by
  subst hm
  cases hstopped : s.stopped with
  | true =>
    rw [popFront_none (Or.inl hstopped)]
    exact h.same ht
  | false =>
    cases front : s.connections with
    | nil =>
      rw [popFront_none (Or.inr front)]
      exact h.same ht
    | cons con rest =>
      rw [popFront_some hstopped front]
      refine ⟨?_, ?_, ?_, h.size⟩
      · rw [heldOf_update]
        exact h.slots.takeFront (heldOf_of_stage ht) front
      · refine h.tidy.move rfl (fun con' hcon' => Or.inl ?_) fun con' hcon' => ?_
        · rw [front]
          exact mem_cons_of_mem con hcon'
        · cases hcon'
          refine h.tidy.idle con ?_
          rw [front]
          exact mem_cons_self
      · refine h.phases.quiet ht rfl rfl rfl rfl (fun hyes _ => ?_) (h.phases.sound t .free ht)
        rw [hstopped] at hyes
        cases hyes

theorem push (hm : m = .has con true) (hstopped : s.stopped = false) :
    Accounts n (s.push con) (update g t (some .free)) := by
  subst hm
  refine ⟨?_, ?_, ?_, h.size⟩
  · rw [heldOf_update]
    exact h.slots.push (heldOf_of_stage ht)
  · refine h.tidy.move rfl (fun con' hcon' => ?_) nofun
    rcases mem_append.mp hcon' with hmem | hmem
    · exact Or.inl hmem
    · obtain rfl := mem_singleton.mp hmem
      exact Or.inr (h.tidy.clean t con' ht)
  · refine h.phases.quiet ht rfl rfl rfl rfl (fun hyes _ => ?_)
      (h.phases.sound t (.has con true) ht)
    rw [hstopped] at hyes
    cases hyes

/-- The queue and the phase of the pool stay as they are. -/
theorem move {live : ℤ} {destroyed : List ℕ}
    (hslots : Slots { s with live := live, destroyed := destroyed } (update (heldOf ∘ g) t m'.held))
    (hm : ∀ con, m' ≠ .has con true)
      (hsound : m'.Sound { s with live := live, destroyed := destroyed } t) :
    Accounts n { s with live := live, destroyed := destroyed } (update g t (some m')) where
  slots := by rwa [heldOf_update]
  tidy := h.tidy.move rfl (fun _ hcon => Or.inl hcon) fun con hcon =>
    (hm con (Option.some.inj hcon)).elim
  phases := h.phases.quiet ht rfl rfl rfl rfl (fun _ hnil => hnil) hsound
  size := h.size

theorem make (hm : m = .slot) :
    Accounts n { s.setSession s.created .fresh with created := s.created + 1 }
      (update g t (some (.has s.created true))) := by
  subst hm
  refine ⟨?_, ?_, ?_, h.size⟩
  · rw [heldOf_update]
    exact h.slots.make (heldOf_of_stage ht) .fresh
  · have hnot : s.created ∉ s.connections := fun hmem =>
      absurd (h.slots.custody.known _ (mem_append_left _ hmem)) (lt_irrefl _)
    have halone : ∀ t' clean, t' ≠ t → g t' ≠ some (.has s.created clean) := by
      intro t' clean _ ht'
      exact absurd (h.alone ht' rfl).2.1 (lt_irrefl _)
    have htidy : Tidy (s.setSession s.created .fresh)
        (update g t (some (.has s.created true))) := by
      refine h.tidy.setSession hnot halone ?_
      rintro con' hcon'
      obtain ⟨rfl, -⟩ := Stage.has.inj (Option.some.inj hcon')
      exact ⟨rfl, rfl, rfl, rfl⟩
    exact ⟨htidy.idle, htidy.clean⟩
  · exact h.phases.quiet ht rfl rfl rfl rfl (fun _ hnil => hnil) (h.phases.sound t .slot ht)

theorem setStopped (hm : m = .closing) :
    Accounts n { s with stopped := true } (update g t (some .stopping)) := by
  subst hm
  have hsound : s.constructed = true := h.phases.sound t _ ht
  refine ⟨?_, ?_, ?_, h.size⟩
  · rw [heldOf_keep ht .stopping rfl]
    exact h.slots.same rfl rfl rfl rfl rfl
  · exact h.tidy.move rfl (fun con' hcon' => Or.inl hcon') nofun
  · exact h.phases.move ht rfl rfl rfl ⟨id, fun _ => rfl, id, fun _ => id⟩ ⟨hsound, rfl⟩

theorem drain (hm : m = .joined) :
    Accounts n (State.dropAll s s.connections) (update g t (some .done)) := by
  subst hm
  have hsound : s.constructed = true ∧ s.stopped = true ∧ s.healthEnded = true :=
    h.phases.sound t _ ht
  obtain ⟨hslots, -⟩ := Slots.dropAll rfl h.slots
  obtain ⟨live, destroyed, heq⟩ := dropAll_eq (s := s) rfl
  rw [heq] at hslots ⊢
  refine ⟨?_, ?_, ?_, h.size⟩
  · rw [heldOf_keep ht .done rfl]
    exact hslots.same rfl rfl rfl rfl rfl
  · exact h.tidy.move rfl nofun nofun
  · exact h.phases.move ht rfl rfl rfl ⟨id, id, id, fun _ _ => rfl⟩
      ⟨hsound.1, hsound.2.1, hsound.2.2, rfl⟩

end Accounts

theorem Session.Clean.rolledBack (h : session.Clean) : session.rolledBack.Clean :=
  ⟨h.autoCommit, rfl, h.soiled⟩

theorem Session.clean_checked (h : session.autoCommit = true) : session.checked.Clean := by
  refine ⟨h, ?_, rfl⟩
  show session.transaction = false
  cases htransaction : session.transaction with
  | false => rfl
  | true => exact nomatch h.symm.trans (session.consistent htransaction)

theorem accounts_perform {e : Op} {pick : State.Pick} {r : e.Answer} (h : Accounts n s g)
    (ht : g t = some m) (hallow : discipline.allow m e) (hp : s.perform e pick = some (r, s')) :
    Accounts n s' (update g t (some (discipline.next m e r))) := by
  cases m with
  | free =>
    cases e with
    | borrow | takeIdle =>
      have hpop := h.popFront ht rfl
      rw [show s.popFront = (r, s') from Option.some.inj hp] at hpop
      cases r with
      | none | some con => exact hpop
    | reserve =>
      rcases ite_eq_iff.mp (Option.some.inj hp) with ⟨-, hp⟩ | ⟨hfull, hp⟩ <;> cases hp
      · exact h.same ht
      · rw [not_or, not_le] at hfull
        exact h.move ht (h.slots.reserve (heldOf_of_stage ht) hfull.2) nofun
          (h.phases.sound t .free ht)
    | countIdle | healthWait =>
      cases hp
      exact h.same ht
    | _ => exact hallow.elim
  | slot =>
    cases e with
    | factory =>
      rcases ite_eq_iff.mp (Option.some.inj hp) with ⟨-, hp⟩ | ⟨-, hp⟩ <;> cases hp
      · exact h.same ht
      · exact h.make ht rfl
    | release =>
      cases hp
      exact h.move ht (h.slots.release (heldOf_of_stage ht)) nofun (h.phases.sound t .slot ht)
    | _ => exact hallow.elim
  | has con clean =>
    cases e with
    | use con' =>
      obtain rfl : con' = con := hallow
      cases hp
      exact h.setSession ht rfl nofun
    | getAutoCommit con' =>
      obtain rfl : con' = con := hallow
      rcases ite_eq_iff.mp (Option.some.inj hp) with ⟨-, hp⟩ | ⟨-, hp⟩
      · cases hp
        exact h.same ht
      · rcases ite_eq_iff.mp hp with ⟨hon, hp⟩ | ⟨-, hp⟩ <;> cases hp
        · exact h.setSession ht rfl fun _ => Session.clean_checked hon
        · exact h.same ht
    | rollback con' =>
      obtain rfl : con' = con := hallow
      rcases ite_eq_iff.mp (Option.some.inj hp) with ⟨-, hp⟩ | ⟨-, hp⟩ <;> cases hp
      · exact h.same ht
      · refine h.setSession ht rfl fun hclean => ?_
        subst hclean
        exact (h.tidy.clean t con' ht).rolledBack
    | setAutoCommit con' =>
      obtain rfl : con' = con := hallow
      rcases ite_eq_iff.mp (Option.some.inj hp) with ⟨-, hp⟩ | ⟨-, hp⟩ <;> cases hp
      · exact h.same ht
      · exact h.setSession ht rfl fun _ => ⟨rfl, rfl, rfl⟩
    | giveBack con' =>
      obtain ⟨rfl, rfl⟩ : con' = con ∧ clean = true := hallow
      cases hp
      by_cases hstopped : s.stopped = true
      · rw [if_pos hstopped]
        exact h.move ht (h.slots.drop (heldOf_of_stage ht)) nofun (h.phases.sound t _ ht)
      · rw [if_neg hstopped]
        exact h.push ht rfl (by simpa using hstopped)
    | add con' =>
      obtain ⟨rfl, rfl⟩ : con' = con ∧ clean = true := hallow
      rcases ite_eq_iff.mp (Option.some.inj hp) with ⟨-, hp⟩ | ⟨hstopped, hp⟩ <;> cases hp
      · exact h.move ht (h.slots.destroy (heldOf_of_stage ht)) nofun (h.phases.sound t _ ht)
      · exact h.push ht rfl (by simpa using hstopped)
    | discard con' =>
      obtain rfl : con' = con := hallow
      cases hp
      exact h.move ht (h.slots.drop (heldOf_of_stage ht)) nofun (h.phases.sound t _ ht)
    | healthCheck con' =>
      cases hp
      exact h.same ht
    | _ => exact hallow.elim
  | closing =>
    cases e with
    | setStopped =>
      cases hp
      exact h.setStopped ht rfl
    | _ => exact hallow.elim
  | stopping =>
    cases e with
    | join =>
      rcases ite_eq_iff.mp hp with ⟨hended, hp⟩ | ⟨-, hp⟩ <;> cases hp
      obtain ⟨hconstructed, hstopped⟩ : s.constructed = true ∧ s.stopped = true :=
        h.phases.sound t _ ht
      have hslots : Slots s (update (heldOf ∘ g) t .nothing) := by
        rw [← show (heldOf ∘ g) t = .nothing from heldOf_of_stage ht, update_eq_self]
        exact h.slots
      exact h.move ht hslots nofun ⟨hconstructed, hstopped, hended⟩
    | _ => exact hallow.elim
  | joined =>
    cases e with
    | drain =>
      cases hp
      exact h.drain ht rfl
    | _ => exact hallow.elim
  | done => cases e <;> exact hallow.elim

/-! ## All runs -/

theorem heldOf_empty {m' : Option Stage} (ht : heldOf (g t) = .nothing)
    (hm' : heldOf m' = .nothing) :
    heldOf ∘ update g t m' = heldOf ∘ g := by
  rw [heldOf_update, hm', show Held.nothing = (heldOf ∘ g) t from ht.symm, update_eq_self]

theorem Accounts.start (h : Accounts n s g) (ht : g t = none) (hheld : m.held = .nothing)
    (hm : m.Sound s t) (hconstructor : t = .constructor → s.constructed = false)
    (hhealth : t = .health → s.healthEnded = false) : Accounts n s (update g t (some m)) := by
  have hhands : heldOf ∘ update g t (some m) = heldOf ∘ g :=
    heldOf_empty (show heldOf (g t) = .nothing by rw [ht]; rfl) hheld
  refine ⟨?_, ?_, ?_, h.size⟩
  · rw [hhands]
    exact h.slots
  · refine h.tidy.move rfl (fun con hcon => Or.inl hcon) ?_
    rintro con hcon
    cases hcon
    cases hheld
  · refine ⟨forall_set hm fun t' m₁ _ => h.phases.sound t' m₁, fun hc => ?_, fun he => ?_,
      h.phases.closed⟩
    · rw [update_of_ne]
      · exact h.phases.constructed hc
      · rintro rfl
        exact nomatch hc.symm.trans (hconstructor rfl)
    · rw [update_of_ne]
      · exact h.phases.healthEnded he
      · rintro rfl
        exact nomatch he.symm.trans (hhealth rfl)

theorem Accounts.stop (h : Accounts n s g) (ht : g t = some m) (hfinal : m = .free ∨ m = .done) :
    Accounts n (s.ended t) (update g t none) := by
  have hheld : m.held = .nothing := by rcases hfinal with rfl | rfl <;> rfl
  have hhands : heldOf ∘ update g t none = heldOf ∘ g :=
    heldOf_empty (show heldOf (g t) = .nothing by rw [ht]; exact hheld) rfl
  have hsound : ∀ t' m₁, update g t none t' = some m₁ → m₁.Sound s t' :=
    forall_erased h.phases.sound
  have hnone : ∀ t', g t' = none → update g t none t' = none := by
    intro t' ht'
    by_cases heq : t' = t
    · rw [heq, update_self]
    · rwa [update_of_ne heq]
  have htidy : Tidy s (update g t none) :=
    h.tidy.move rfl (fun con hcon => Or.inl hcon) nofun
  have hslots : Slots s (heldOf ∘ update g t none) := hhands ▸ h.slots
  have hconstructed := fun hc => hnone _ (h.phases.constructed hc)
  have hended := fun he => hnone _ (h.phases.healthEnded he)
  cases t with
  | constructor =>
    have hlater : Later s (s.ended .constructor) := ⟨fun _ => rfl, id, id, fun _ => id⟩
    refine ⟨hslots.same rfl rfl rfl rfl rfl, ⟨htidy.idle, htidy.clean⟩, ⟨?_, ?_, hended, ?_⟩,
      h.size⟩
    · exact fun t' m₁ ht' => (hsound t' m₁ ht').later hlater
    · exact fun _ => update_self ..
    · exact fun hc => (h.phases.closed hc).later hlater
  | health =>
    have hlater : Later s (s.ended .health) := ⟨id, id, fun _ => rfl, fun _ => id⟩
    refine ⟨hslots.same rfl rfl rfl rfl rfl, ⟨htidy.idle, htidy.clean⟩, ⟨?_, hconstructed, ?_, ?_⟩,
      h.size⟩
    · exact fun t' m₁ ht' => (hsound t' m₁ ht').later hlater
    · exact fun _ => update_self ..
    · exact fun hc => (h.phases.closed hc).later hlater
  | caller k => exact ⟨hslots, htidy, ⟨hsound, hconstructed, hended, h.phases.closed⟩, h.size⟩
  | closer k =>
    -- `Close` has returned: it has run to its end.
    have hshut : s.Shut := by
      have hlast := h.phases.sound _ m ht
      rcases hfinal with rfl | rfl
      · exact absurd rfl (hlast k)
      · exact hlast
    exact ⟨hslots.same rfl rfl rfl rfl rfl, ⟨htidy.idle, htidy.clean⟩,
      ⟨fun t' m₁ ht' => (hsound t' m₁ ht').later ⟨id, id, id, fun _ => id⟩, hconstructed, hended,
        fun _ => hshut⟩, h.size⟩

theorem accounts_empty (n : ℕ) (start_health_worker : Bool) :
    Accounts n (.empty n start_health_worker) fun _ => none where
  slots :=
    ⟨Custody.empty, ⟨0, Tally.none, rfl⟩, Int.natCast_nonneg n⟩
  tidy := ⟨nofun, nofun⟩
  phases := ⟨nofun, (fun _ => rfl), (fun _ => rfl), nofun⟩
  size := rfl

end Accounts

theorem accounts_inductive (n : ℕ) (start_health_worker : Bool) :
    Inductive (mySqlPool n start_health_worker) discipline (Accounts n) where
  init s hs := by
    obtain rfl := hs
    exact accounts_empty n start_health_worker
  env _ _ _ _ henv := henv.elim
  start s g t p h ht hstart := by
    have hfinal : ∀ {p : Svc Unit}, Safe p →
      Meets discipline (fun m _ => discipline.final m) .free p :=
      fun hp => hp.weaken fun _ _ hm => Or.inl hm
    obtain ⟨l, hl⟩ := hstart
    cases l with
    | construct =>
      rcases ite_eq_iff.mp hl with ⟨-, hl⟩ | ⟨hc, hl⟩ <;> cases hl
      refine ⟨.free, hfinal (safe_construct _), h.start ht rfl nofun ?_ nofun⟩
      exact fun _ => by simpa using hc
    | health rounds =>
      rcases ite_eq_iff.mp hl with ⟨hc, hl⟩ | ⟨-, hl⟩ <;> cases hl
      exact ⟨.free, hfinal (safe_healthWorker rounds),
        h.start ht rfl nofun nofun fun _ => hc.2⟩
    | borrow k =>
      rcases ite_eq_iff.mp hl with ⟨hc, hl⟩ | ⟨-, hl⟩ <;> cases hl
      exact ⟨.free, hfinal safe_borrower, h.start ht rfl nofun nofun nofun⟩
    | close k =>
      rcases ite_eq_iff.mp hl with ⟨hc, hl⟩ | ⟨-, hl⟩ <;> cases hl
      exact ⟨.closing, meets_close.weaken fun _ _ hm => Or.inr hm,
        h.start ht rfl hc nofun nofun⟩
  call s s' g t m e r h ht hallow hexec := by
    obtain ⟨pick, hp⟩ := hexec
    exact ⟨trivial, accounts_perform h ht hallow hp⟩
  stop s s' g t m p h ht hmeets hstop := by
    obtain ⟨rfl, rfl⟩ := hstop
    exact h.stop ht hmeets
  crash _ _ _ _ _ hcrash := hcrash.elim

/-- What a thread has in its hands, by the effect it performs next: a connection that is borrowed,
being sanitized, being health-checked or just made, or the slot of one that is being created. -/
def inHands : Option (Svc Unit) → Held
  | some (.call e _) => e.held
  | _ => .nothing

theorem held_of_allow {m : Stage} {e : Op} (h : discipline.allow m e) : e.held = m.held := by
  cases m with
  | has con clean =>
    cases e with
    | giveBack con' | add con' => exact congrArg Held.connection h.1
    | use con' | getAutoCommit con' | rollback con' | setAutoCommit con' | discard con'
    | healthCheck con' => exact congrArg Held.connection h
    | _ => exact h.elim
  | _ =>
    cases e with
    | _ => first | exact h.elim | rfl

theorem inHands_of_follows {threads : Thread → Option (Svc Unit)} {g : Thread → Option Stage}
    (h : Follows discipline threads g) : inHands ∘ threads = heldOf ∘ g := by
  funext t
  rw [comp_apply, comp_apply]
  rcases h t with ⟨hp, hm⟩ | ⟨p, m, hp, hm, hmeets⟩
  · rw [hp, hm]
    rfl
  · rw [hp, hm]
    cases p with
    | ret a =>
      obtain rfl | rfl : m = .free ∨ m = .done := hmeets <;> rfl
    | call e k => exact held_of_allow hmeets.1

/-- **The accounts of the pool**, for every size, with or without a health thread, in every state of
every run.

* `live` is the number of connections in the queue and of threads with a connection or a slot in
  their hands, and never more than the size of the pool.
* No connection is in two of these places at once.
* A connection that `getConnection` hands out is in autocommit mode, has no open transaction, and
  has been sanitized since it was last used.
* When `Close` has returned, no connection is handed out, and once the callers have given back what
  they borrowed, `live` is zero. -/
theorem pool_accounts {n : ℕ} {start_health_worker : Bool}
    {c : Config Thread Op Op.Answer Unit State}
    (hc : Reachable (mySqlPool n start_health_worker) c) :
    c.shared.live =
        c.shared.connections.length + {t | inHands (c.threads t) ≠ .nothing}.ncard ∧
      c.shared.live ≤ n ∧
      (c.shared.connections.Nodup ∧
        (∀ t con, inHands (c.threads t) = .connection con → con ∉ c.shared.connections) ∧
        ∀ t t' con, inHands (c.threads t) = .connection con →
          inHands (c.threads t') = .connection con → t = t') ∧
      (∀ t con s', (mySqlPool n start_health_worker).exec t .borrow c.shared (some con) s' →
        (c.shared.sessions con).Clean) ∧
      (c.shared.closed = true →
        (∀ t r s', (mySqlPool n start_health_worker).exec t .borrow c.shared r s' → r = none) ∧
        ((∀ k, inHands (c.threads (.caller k)) = .nothing) → c.shared.live = 0)) := by
  obtain ⟨g, h, hfollows⟩ : ∃ g : Thread → Option Stage,
      Accounts n c.shared g ∧ Follows discipline c.threads g :=
    reachable_invariant (accounts_inductive n start_health_worker) hc
  have hhands := inHands_of_follows hfollows
  have hcon : ∀ t con, inHands (c.threads t) = .connection con →
      (Held.con ∘ heldOf ∘ g) t = some con := by
    intro t con ht
    rw [← hhands, comp_apply, comp_apply, ht]
    rfl
  obtain ⟨k, htally, hlive⟩ := h.slots.count
  refine ⟨?_, h.size ▸ h.slots.bound, ⟨?_, ?_, ?_⟩, ?_, ?_⟩
  · have hset : {t | inHands (c.threads t) ≠ .nothing} = {t | (busy ∘ heldOf ∘ g) t = true} := by
      ext t
      rw [← hhands]
      show inHands (c.threads t) ≠ .nothing ↔ (inHands (c.threads t)).busy = true
      cases inHands (c.threads t) <;> simp [busy]
    rw [hset, htally.ncard, hlive]
  · exact h.slots.custody.nodup.of_append_left
  · intro t con ht hmem
    exact (h.slots.custody.held t con (hcon t con ht)).2 (mem_append_left _ hmem)
  · intro t t' con ht ht'
    exact h.slots.custody.apart t t' con (hcon t con ht) (hcon t' con ht')
  · rintro t con s' ⟨pick, hp⟩
    refine h.tidy.idle con ?_
    have hpop : c.shared.popFront = (some con, s') := Option.some.inj hp
    unfold State.popFront at hpop
    split at hpop
    · rename_i con' rest _ front
      cases hpop
      rw [front]
      exact mem_cons_self
    · cases hpop
  · intro hclosed
    obtain ⟨hconstructed, hstopped, hended, hnil⟩ := h.phases.closed hclosed
    constructor
    · rintro t r s' ⟨pick, hp⟩
      have hpop : c.shared.popFront = (r, s') := Option.some.inj hp
      rw [popFront_none (Or.inl hstopped)] at hpop
      exact (Prod.mk.inj hpop).1.symm
    · intro hcallers
      have hidle : ∀ t, (busy ∘ heldOf ∘ g) t = false := by
        intro t
        cases t with
        | constructor =>
          rw [comp_apply, comp_apply, h.phases.constructed hconstructed]
          rfl
        | health =>
          rw [comp_apply, comp_apply, h.phases.healthEnded hended]
          rfl
        | caller i =>
          rw [← hhands, comp_apply, comp_apply, hcallers i]
          rfl
        | closer i =>
          rw [comp_apply, comp_apply]
          cases hg : g (.closer i) with
          | none => rfl
          | some m =>
            have hsound := h.phases.sound _ m hg
            cases m with
            | slot | has con clean => exact absurd rfl (hsound i)
            | _ => rfl
      rw [hlive, htally.eq_zero hidle, hnil]
      rfl

theorem solo_effect {n : ℕ} {health : Bool} {t : Thread} {s' : State} {p : Svc Unit} {e : Op}
    {k : e.Answer → Svc Unit} {r : e.Answer} (h : Solo (mySqlPool n health) t s p)
    (hp : p = .call e k)
    (pick : State.Pick) (hperform : s.perform e pick = some (r, s')) :
    Solo (mySqlPool n health) t s' (k r) := h.call hp ⟨pick, hperform⟩

/-- A pool of one connection, which is made, lent, used, given back and, when `Close` returns,
destroyed. -/
theorem pool_accounts_sample : ∃ c : Config Thread Op Op.Answer Unit State,
    Reachable (mySqlPool 1 false) c ∧ c.shared.closed = true ∧ c.shared.destroyed = [0] ∧
      c.shared.live = 0 ∧
      ∀ t r s', (mySqlPool 1 false).exec t .borrow c.shared r s' → r = none := by
  have h₀ : Solo (mySqlPool 1 false) .constructor (.empty 1 false) (construct 1) :=
    .start rfl ⟨.construct, rfl⟩
  have h₃ := solo_effect (solo_effect (solo_effect h₀ rfl {} rfl) rfl {} rfl) rfl {} rfl
  have h₄ : Solo (mySqlPool 1 false) (.caller 0) _ borrower :=
    .begin (h₃.finish ⟨rfl, rfl⟩) ⟨.borrow 0, rfl⟩
  have h₈ := solo_effect
    (solo_effect (solo_effect (solo_effect h₄ rfl {} rfl) rfl {} rfl) rfl {} rfl)
    rfl {} rfl
  have h₉ : Solo (mySqlPool 1 false) (.closer 1) _ Close :=
    .begin (h₈.finish ⟨rfl, rfl⟩) ⟨.close 1, rfl⟩
  have h₁₂ := solo_effect (solo_effect (solo_effect h₉ rfl {} rfl) rfl {} rfl) rfl {} rfl
  have hend := h₁₂.finish ⟨rfl, rfl⟩
  obtain ⟨hnone, hlive⟩ := (pool_accounts hend).2.2.2.2 rfl
  exact ⟨_, hend, rfl, rfl, hlive fun _ => rfl, hnone⟩

end DistributedChat.Pool
