import DistributedChat.Chat.Persistence

/-!
# Storing messages is atomic and can be repeated

1. While the transaction of a call of `PersistTextMessages` is open, its writes are those of `plan`
   on the tables as they are (`Stage.Holds`): the rows it concerns are locked.
2. One effect of a call leads from what holds at its stage to what holds at the next (`holds_next`),
   and leaves the others alone (`Spared.holds`).
3. So a commit adds the new messages of the batch at once: `Outcome` says how a call can end.

The call returns `false` although it has stored its messages if the statement after the commit,
which turns autocommit on, fails: `persist_atomic_iff`.
-/

namespace DistributedChat.Chat.Persistence

open Lib List
open Function (update_self update update_of_ne)
open Transactions (uncommitted_finish mode_getD)

/-! ## What holds at each stage -/

section Facts

variable (setup : Setup)

/-- The effects have left the tables, and none of them is a commit. -/
def Quiet (effects : List Effect) : Prop := ∀ x ∈ effects, x.after = x.before ∧ x.call ≠ .commit

def Clean (effects : List Effect) : Prop := ∀ x ∈ effects, x.failed = false

/-- One of the effects is a commit that adds the batch, and changes nothing if the batch was
accepted before; the others leave the tables. -/
def Commits (batch : List TextMessage) (call : Invocation) : Prop :=
  ∃ before x after, call.effects = before ++ x :: after ∧ x.call = .commit ∧ x.failed = false ∧
    Adds setup batch x.before x.after ∧ (.persist batch ∈ call.earlier → x.after = x.before) ∧
    Quiet (before ++ after)

/-- An effect has failed, or the batch was not accepted before. -/
def Excused (batch : List TextMessage) (call : Invocation) : Prop :=
  (∃ x ∈ call.effects, x.failed = true) ∨ .persist batch ∉ call.earlier

/-- A commit has failed, and none has not. -/
def Unsure (effects : List Effect) : Prop :=
  (∃ x ∈ effects, x.call = .commit) ∧ ∀ x ∈ effects, x.call = .commit → x.failed = true

/-- Turning autocommit on has failed. -/
def Unrestored (effects : List Effect) :
    Prop := ∃ x ∈ effects, x.call = .setAutoCommit true ∧ x.failed = true

/-- The rows of the messages are locked, and their users known. -/
def Reserved (sql : Transactions Worker Db Write RowKey) (t : Worker) (ms : List TextMessage) :
    Prop :=
  ∀ m ∈ ms, sql.locks (.message (keyOf setup m)) = some t ∧ sql.db.known m.sender_uid = true ∧
    sql.db.known m.receiver_uid = true

def Stage.Holds (sql : Transactions Worker Db Write RowKey) (t : Worker) (call : Invocation)
    (batch : List TextMessage) : Stage → Prop
  | .idle => True
  | .acknowledging => True
  | .ready => sql.uncommitted t = [] ∧ Quiet call.effects ∧ Clean call.effects
  | .opened done => ∃ ws, sql.pending t = some ws ∧ plan setup sql.db done = some ws ∧
      Reserved setup sql t done ∧ Quiet call.effects ∧ Clean call.effects
  | .verifying done m => m ∈ batch ∧ ∃ ws, sql.pending t = some (inserted setup sql.db ws m) ∧
      plan setup sql.db done = some ws ∧ Reserved setup sql t (done ++ [m]) ∧ Quiet call.effects ∧
      Clean call.effects
  | .aborted => Quiet call.effects ∧ Excused batch call
  | .undone => sql.uncommitted t = [] ∧ Quiet call.effects ∧ Excused batch call
  | .committed => sql.uncommitted t = [] ∧ Commits setup batch call ∧ Clean call.effects ∧
      ∀ m ∈ batch, Persisted setup sql.db m
  | .restored => sql.uncommitted t = [] ∧ Commits setup batch call ∧ Clean call.effects ∧
      ∀ m ∈ batch, Persisted setup sql.db m
  | .spoilt => sql.uncommitted t = [] ∧ Commits setup batch call ∧ Unrestored call.effects
  | .unsure => Unsure call.effects

/-- How a call of `PersistTextMessages` ends. -/
inductive Outcome (batch : List TextMessage) (call : Invocation) : Bool → Prop
  | stored (h : Commits setup batch call) (clean : Clean call.effects) : Outcome batch call true
  | refused (h : Quiet call.effects) (excused : Excused batch call) : Outcome batch call false
  | unsure (h : Unsure call.effects) : Outcome batch call false
  | late (h : Commits setup batch call) (unrestored : Unrestored call.effects) :
    Outcome batch call false

variable {setup} {effects : List Effect} {batch : List TextMessage} {call : Invocation} {x : Effect}

theorem Quiet.extend (h : Quiet call.effects) (hx : x.after = x.before) (hcall : x.call ≠ .commit) :
    Quiet (call.extend x).effects := by
  intro y hy
  rcases mem_append.mp hy with hy | hy
  · exact h y hy
  · exact mem_singleton.mp hy ▸ ⟨hx, hcall⟩

theorem Clean.extend (h : Clean call.effects) (hx : x.failed = false) :
    Clean (call.extend x).effects := by
  intro y hy
  rcases mem_append.mp hy with hy | hy
  · exact h y hy
  · exact mem_singleton.mp hy ▸ hx

theorem Commits.extend (h : Commits setup batch call) (hx : x.after = x.before)
    (hcall : x.call ≠ .commit) :
    Commits setup batch (call.extend x) := by
  obtain ⟨before, y, after, heffects, hcommit, hok, hadds, hagain, hquiet⟩ := h
  refine ⟨before, y, after ++ [x], ?_, hcommit, hok, hadds, hagain, ?_⟩
  · rw [Invocation.extend, heffects, append_assoc, cons_append]
  · intro z hz
    rw [← append_assoc] at hz
    rcases mem_append.mp hz with hz | hz
    · exact hquiet z hz
    · exact mem_singleton.mp hz ▸ ⟨hx, hcall⟩

theorem Excused.extend (h : Excused batch call) (x : Effect) : Excused batch (call.extend x) := by
  refine h.imp_left ?_
  rintro ⟨y, hy, hfailed⟩
  exact ⟨y, mem_append_left _ hy, hfailed⟩

theorem excused_of_failed (hx : x.failed = true) : Excused batch (call.extend x) :=
  Or.inl ⟨x, mem_concat_self, hx⟩

theorem Unsure.extend (h : Unsure call.effects) (hcall : x.call ≠ .commit) :
    Unsure (call.extend x).effects := by
  obtain ⟨⟨y, hy, hcommit⟩, hall⟩ := h
  refine ⟨⟨y, mem_append_left _ hy, hcommit⟩, fun z hz hz' => ?_⟩
  rcases mem_append.mp hz with hz | hz
  · exact hall z hz hz'
  · exact absurd (mem_singleton.mp hz ▸ hz') hcall

theorem Unrestored.extend (h : Unrestored call.effects) (x : Effect) :
    Unrestored (call.extend x).effects := by
  obtain ⟨y, hy, hfailed⟩ := h
  exact ⟨y, mem_append_left _ hy, hfailed⟩

end Facts

/-! ## One effect -/

section Effects

variable {setup : Setup} {t : Worker} {p : Pick} {s s' : Shared} {batch : List TextMessage}
    {call : Invocation}

theorem orLost_cases {α : Type} {fault : Fault} {a : α} {s₁ : Shared} {r : Option α}
    (h : some (orLost fault a s s₁) = some (r, s')) : (r = some a ∧ s' = s₁) ∨
    (r = none ∧ (s' = s ∨ s' = s₁)) := by
  cases fault <;> cases h
  · exact Or.inl ⟨rfl, rfl⟩
  · exact Or.inr ⟨rfl, Or.inl rfl⟩
  · exact Or.inr ⟨rfl, Or.inr rfl⟩

variable {c : DbCall}

/-- The tables after an effect come from writes, and the other connections find what they rely on.
-/
theorem perform_spares {r : c.Answer} (hlocked : s.sql.Locked engine)
    (h : c.perform setup t p s = some (r, s')) :
    s.sql.Spares engine t s'.sql ∧ s'.sql.Locked engine ∧ ∃ ws, s'.sql.db =
    engine.applyAll s.sql.db ws := by
  have hsame : s.sql.Spares engine t s.sql ∧ s.sql.Locked engine ∧ ∃ ws,
    s.sql.db = engine.applyAll s.sql.db ws :=
    ⟨.refl t s.sql, hlocked, [], rfl⟩
  cases c with
  | getConnection =>
    cases h
    exact hsame
  | returnConnection =>
    cases h
    exact ⟨Transactions.spares_reset, hlocked.reset, [], rfl⟩
  | setAutoCommit on =>
    have hdone : s.sql.Spares engine t (s.sql.setAutoCommit engine t on) ∧
        (s.sql.setAutoCommit engine t on).Locked engine ∧
        ∃ ws, (s.sql.setAutoCommit engine t on).db = engine.applyAll s.sql.db ws := by
      refine ⟨hlocked.spares_setAutoCommit on, hlocked.setAutoCommit on, ?_⟩
      cases on with
      | false => exact ⟨[], rfl⟩
      | true => exact ⟨s.sql.uncommitted t, rfl⟩
    obtain ⟨-, rfl⟩ | ⟨-, rfl | rfl⟩ := orLost_cases h
    · exact hdone
    · exact hsame
    · exact hdone
  | commit =>
    obtain ⟨-, rfl⟩ | ⟨-, rfl | rfl⟩ := orLost_cases h
    · exact ⟨hlocked.spares_commit, hlocked.commit, s.sql.uncommitted t, rfl⟩
    · exact hsame
    · exact ⟨hlocked.spares_commit, hlocked.commit, s.sql.uncommitted t, rfl⟩
  | rollback =>
    obtain ⟨-, rfl⟩ | ⟨-, rfl | rfl⟩ := orLost_cases h
    · exact ⟨Transactions.spares_rollback, hlocked.rollback, [], rfl⟩
    · exact hsame
    · exact ⟨Transactions.spares_rollback, hlocked.rollback, [], rfl⟩
  | query q =>
    obtain ⟨-, rfl⟩ | ⟨a, ws, ks, hrun, hfree, rfl, -⟩ := Query.perform_cases h
    · exact hsame
    · have hkeys := Query.run_keys setup hrun
      refine ⟨Transactions.spares_write hkeys hfree, hlocked.write hkeys hfree, ?_⟩
      simp only [Transactions.write]
      cases s.sql.pending t with
      | none => exact ⟨ws, rfl⟩
      | some pending => exact ⟨[], rfl⟩

theorem perform_settled {r : c.Answer}
    (hc : c = .rollback ∨ c = .setAutoCommit true ∨ c = .returnConnection)
    (hnone : s.sql.uncommitted t = []) (h : c.perform setup t p s = some (r, s')) :
    s'.sql.db = s.sql.db ∧ s'.sql.uncommitted t = [] := by
  have hview : s.sql.view engine t = s.sql.db := by
    rw [Transactions.view, hnone, Engine.applyAll_nil]
  rcases hc with rfl | rfl | rfl
  · obtain ⟨-, rfl⟩ | ⟨-, rfl | rfl⟩ := orLost_cases h
    · exact ⟨rfl, (uncommitted_finish ..).trans mode_getD⟩
    · exact ⟨rfl, hnone⟩
    · exact ⟨rfl, (uncommitted_finish ..).trans mode_getD⟩
  · obtain ⟨-, rfl⟩ | ⟨-, rfl | rfl⟩ := orLost_cases h
    · exact ⟨hview, uncommitted_finish ..⟩
    · exact ⟨rfl, hnone⟩
    · exact ⟨hview, uncommitted_finish ..⟩
  · cases h
    exact ⟨rfl, uncommitted_finish ..⟩

theorem perform_rollback {r : Option Unit}
    (h : DbCall.rollback.perform setup t p s = some (r, s')) :
    s'.sql.db = s.sql.db ∧ (r = some () → s'.sql.uncommitted t = []) := by
  obtain ⟨-, rfl⟩ | ⟨rfl, rfl | rfl⟩ := orLost_cases h
  · exact ⟨rfl, fun _ => (uncommitted_finish ..).trans mode_getD⟩
  · exact ⟨rfl, nofun⟩
  · exact ⟨rfl, nofun⟩

abbrev noted (c : DbCall) (r : c.Answer) (s s' : Shared) :
    Effect := ⟨c, failed c r, s.sql.db, s'.sql.db⟩

section Cases

variable {done : List TextMessage} {m : TextMessage}

theorem holds_borrow {available : Bool} (h : Stage.ready.Holds setup s.sql t call batch)
    (hp : DbCall.getConnection.perform setup t p s = some (available, s')) :
    (Stage.ready.next .getConnection available).Holds setup s'.sql t
      (call.extend (noted .getConnection available s s')) batch := by
  obtain ⟨hnone, hquiet, hclean⟩ := h
  cases hp
  have hquiet' : Quiet (call.extend (noted .getConnection p.flag s s)).effects :=
    hquiet.extend rfl nofun
  cases hflag : p.flag with
  | true => exact ⟨hnone, hflag ▸ hquiet', hclean.extend rfl⟩
  | false => exact ⟨hnone, hflag ▸ hquiet', excused_of_failed rfl⟩

theorem holds_open {r : Option Unit} (h : Stage.ready.Holds setup s.sql t call batch)
    (hp : (DbCall.setAutoCommit false).perform setup t p s = some (r, s')) :
    (Stage.ready.next (.setAutoCommit false) r).Holds setup s'.sql t
      (call.extend (noted (.setAutoCommit false) r s s')) batch := by
  obtain ⟨hnone, hquiet, hclean⟩ := h
  have hpending : (s.sql.setAutoCommit engine t false).pending t = some [] := by
    simp [Transactions.setAutoCommit, hnone]
  obtain ⟨rfl, rfl⟩ | ⟨rfl, rfl | rfl⟩ := orLost_cases hp
  · exact ⟨[], hpending, rfl, by rintro _ ⟨⟩, hquiet.extend rfl (by rintro ⟨⟩), hclean.extend rfl⟩
  · exact ⟨hnone, hquiet.extend rfl (by rintro ⟨⟩), excused_of_failed rfl⟩
  · exact ⟨by simp [Transactions.uncommitted, hpending], hquiet.extend rfl (by rintro ⟨⟩), excused_of_failed rfl⟩

theorem run_insertMessage {now : ℕ} {db : Db} {v : ℤ} {ws : List Write} {ks : List RowKey}
    (h : (Query.insertMessage m).run setup now db = some (v, ws, ks)) :
    db.known m.sender_uid = true ∧ db.known m.receiver_uid = true ∧ ks =
    [.message (keyOf setup m)] ∧
      ws = if db.messages.get
      (keyOf setup m) = none then [.insertMessage (keyOf setup m) m.row] else [] := by
  simp only [Query.run] at h
  split at h
  · rename_i hknown
    refine ⟨hknown.1, hknown.2, ?_⟩
    split at h
    · rename_i hnone
      cases h
      exact ⟨rfl, (if_pos hnone).symm⟩
    · rename_i hsome
      cases h
      exact ⟨rfl, (if_neg hsome).symm⟩
  · cases h

variable {sql : Transactions Worker Db Write RowKey}

theorem write_pending {ws₀ : List Write} (h : sql.pending t = some ws₀) (ws : List Write)
    (ks : List RowKey) :
    (sql.write engine t ws ks).db = sql.db ∧ (sql.write engine t ws ks).pending t = some
    (ws₀ ++ ws) ∧
      ∀ k, (sql.write engine t ws ks).locks k = if k ∈ ks then some t else sql.locks k := by
  simp only [Transactions.write, h, update_self, implies_true, and_self]

theorem Reserved.write (h : Reserved setup sql t done) {ws₀ : List Write}
    (hpending : sql.pending t = some ws₀)
    (ws : List Write) (ks : List RowKey) : Reserved setup (sql.write engine t ws ks) t done := by
  obtain ⟨hdb, -, hlocks⟩ := write_pending hpending ws ks
  intro m hm
  obtain ⟨hlock, hknown⟩ := h m hm
  refine ⟨(hlocks _).trans ?_, hdb ▸ hknown⟩
  rw [hlock, ite_self]

theorem Reserved.snoc (h : Reserved setup sql t done)
    (hm : sql.locks (.message (keyOf setup m)) = some t ∧ sql.db.known m.sender_uid = true ∧
      sql.db.known m.receiver_uid = true) : Reserved setup sql t (done ++ [m]) := by
  intro m' hm'
  rcases mem_append.mp hm' with hm' | hm'
  · exact h m' hm'
  · exact mem_singleton.mp hm' ▸ hm

theorem view_pending {ws : List Write} (h : sql.pending t = some ws) :
    sql.view engine t = engine.applyAll sql.db ws := by
  rw [Transactions.view, Transactions.uncommitted, h, Option.getD_some]

theorem holds_insert {r : Option ℤ} (hm : m ∈ batch)
    (h : (Stage.opened done).Holds setup s.sql t call batch)
    (hp : (DbCall.query (.insertMessage m)).perform setup t p s = some (r, s')) :
    ((Stage.opened done).next (.query (.insertMessage m)) r).Holds setup s'.sql t
      (call.extend (noted (.query (.insertMessage m)) r s s')) batch := by
  obtain ⟨ws, hpending, hplan, hreserved, hquiet, hclean⟩ := h
  rcases Query.perform_cases hp with ⟨rfl, rfl⟩ | ⟨v, ws', ks, hrun, -, rfl, hr⟩
  · exact ⟨hquiet.extend rfl (by rintro ⟨⟩), excused_of_failed rfl⟩
  · obtain ⟨hdb, hpending', hlocks⟩ := write_pending hpending ws' ks
    rcases hr with rfl | rfl
    · rw [view_pending hpending] at hrun
      obtain ⟨hsender, hreceiver, rfl, rfl⟩ := run_insertMessage hrun
      rw [known_applyAll] at hsender hreceiver
      refine ⟨hm, ws, ?_, ?_, ?_, hquiet.extend hdb (by rintro ⟨⟩), hclean.extend rfl⟩
      · refine hpending'.trans (congrArg some ?_)
        show _ = inserted setup (s.sql.write engine t _ _).db ws m
        rw [hdb, inserted]
        split
        · rfl
        · exact append_nil ws
      · exact (congrArg (fun db => plan setup db done) hdb).trans hplan
      · refine (hreserved.write hpending _ _).snoc ⟨?_, ?_⟩
        · exact (hlocks _).trans (if_pos (mem_singleton.mpr rfl))
        · exact (congrArg
            (fun db : Db => db.known m.sender_uid = true ∧ db.known m.receiver_uid = true)
            hdb).mpr ⟨hsender, hreceiver⟩
    · exact ⟨hquiet.extend hdb (by rintro ⟨⟩), excused_of_failed rfl⟩

theorem holds_verify {r : Option (Option (Uid × Bytes))}
    (hagain : .persist batch ∈ call.earlier → ∀ m ∈ batch, Persisted setup s.sql.db m)
    (h : (Stage.verifying done m).Holds setup s.sql t call batch)
    (hp : (DbCall.query (.verifyMessage m.sender_uid m.client_message_id)).perform setup t p s =
      some (r, s')) :
    ((Stage.verifying done m).next (.query (.verifyMessage m.sender_uid m.client_message_id))
      r).Holds setup
      s'.sql t (call.extend
        (noted (.query (.verifyMessage m.sender_uid m.client_message_id)) r s s')) batch := by
  obtain ⟨hm, ws, hpending, hplan, hreserved, hquiet, hclean⟩ := h
  rcases Query.perform_cases hp with ⟨rfl, rfl⟩ | ⟨row, ws', ks, hrun, -, rfl, hr⟩
  · exact ⟨hquiet.extend rfl (by rintro ⟨⟩), excused_of_failed rfl⟩
  · obtain ⟨hdb, hpending', hlocks⟩ := write_pending hpending ws' ks
    rcases hr with rfl | rfl
    · rw [view_pending hpending] at hrun
      simp only [Query.run, Option.some.injEq, Prod.mk.injEq] at hrun
      obtain ⟨hrow, rfl, rfl⟩ := hrun
      rw [next_verify]
      by_cases hagrees : row = some (m.receiver_uid, m.content)
      · rw [if_pos hagrees]
        refine ⟨inserted setup s.sql.db ws m, hpending'.trans (congrArg some (append_nil _)), ?_,
          hreserved.write hpending _ _, hquiet.extend hdb (by rintro ⟨⟩), hclean.extend rfl⟩
        refine (congrArg (fun db => plan setup db (done ++ [m])) hdb).trans ?_
        rw [plan_append, hplan]
        exact if_pos (hrow.trans hagrees)
      · rw [if_neg hagrees]
        refine ⟨hquiet.extend hdb (by rintro ⟨⟩), Or.inr fun hearlier => hagrees ?_⟩
        have hstored := (hagain hearlier m hm).1.applyAll (inserted setup s.sql.db ws m)
        exact hrow.symm.trans (stored_iff_agrees.mp hstored)
    · exact ⟨hquiet.extend hdb (by rintro ⟨⟩), excused_of_failed rfl⟩

theorem holds_commit {r : Option Unit}
    (hagain : .persist batch ∈ call.earlier → ∀ m ∈ batch, Persisted setup s.sql.db m)
    (h : (Stage.opened batch).Holds setup s.sql t call batch)
    (hp : DbCall.commit.perform setup t p s = some (r, s')) :
    ((Stage.opened batch).next .commit r).Holds setup s'.sql t
    (call.extend (noted .commit r s s')) batch := by
  obtain ⟨ws, hpending, hplan, hreserved, hquiet, hclean⟩ := h
  have hunsure : ∀ s', Unsure (call.extend (noted .commit none s s')).effects := by
    refine fun s' => ⟨⟨_, mem_concat_self, rfl⟩, fun x hx hcommit => ?_⟩
    rcases mem_append.mp hx with hx | hx
    · exact absurd hcommit (hquiet x hx).2
    · exact mem_singleton.mp hx ▸ rfl
  obtain ⟨rfl, rfl⟩ | ⟨rfl, -⟩ := orLost_cases hp
  · have hdb : (s.sql.commit engine t).db = engine.applyAll s.sql.db ws := view_pending hpending
    have hadds : Adds setup batch s.sql.db (s.sql.commit engine t).db := by
      rw [hdb]
      exact adds_of_plan hplan
    refine ⟨(uncommitted_finish ..).trans mode_getD, ?_, hclean.extend rfl, fun m hm => ?_⟩
    · refine ⟨call.effects, _, [], rfl, rfl, rfl, hadds, fun hearlier => ?_, ?_⟩
      · rw [plan_persisted fun m hm => (hagain hearlier m hm).1] at hplan
        cases hplan
        exact hdb
      · rw [append_nil]
        exact hquiet
    · obtain ⟨-, hsender, hreceiver⟩ := hreserved m hm
      refine ⟨hadds.agrees m hm, ?_, ?_⟩
      · exact (congrArg (fun db : Db => db.known m.sender_uid) hdb).trans
          ((known_applyAll ..).trans hsender)
      · exact (congrArg (fun db : Db => db.known m.receiver_uid) hdb).trans
          ((known_applyAll ..).trans hreceiver)
  · exact hunsure s'

theorem holds_restore {r : Option Unit} (h : Stage.committed.Holds setup s.sql t call batch)
    (hp : (DbCall.setAutoCommit true).perform setup t p s = some (r, s')) :
    (Stage.committed.next (.setAutoCommit true) r).Holds setup s'.sql t
      (call.extend (noted (.setAutoCommit true) r s s')) batch := by
  obtain ⟨hnone, hcommits, hclean, hpersisted⟩ := h
  obtain ⟨hdb, hnone'⟩ := perform_settled (Or.inr (Or.inl rfl)) hnone hp
  cases r with
  | some u => exact ⟨hnone', hcommits.extend hdb nofun, hclean.extend rfl, hdb ▸ hpersisted⟩
  | none => exact ⟨hnone', hcommits.extend hdb nofun, _, mem_concat_self, rfl, rfl⟩

variable {stage : Stage}

theorem holds_rollback {r : Option Unit} (hover : stage.over = true)
    (h : stage.Holds setup s.sql t call batch)
    (hp : DbCall.rollback.perform setup t p s = some (r, s')) :
    (stage.next .rollback r).Holds setup s'.sql t (call.extend (noted .rollback r s s')) batch := by
  obtain ⟨hdb, hnone'⟩ := perform_rollback hp
  cases stage with
  | aborted =>
    obtain ⟨hquiet, hexcused⟩ := h
    cases r with
    | none => exact ⟨hquiet.extend hdb nofun, hexcused.extend _⟩
    | some u => exact ⟨hnone' rfl, hquiet.extend hdb nofun, hexcused.extend _⟩
  | undone =>
    obtain ⟨hnone, hquiet, hexcused⟩ := h
    exact ⟨(perform_settled (Or.inl rfl) hnone hp).2, hquiet.extend hdb nofun, hexcused.extend _⟩
  | spoilt =>
    obtain ⟨hnone, hcommits, hunrestored⟩ := h
    exact ⟨(perform_settled (Or.inl rfl) hnone hp).2, hcommits.extend hdb nofun,
      hunrestored.extend _⟩
  | unsure => exact Unsure.extend h nofun
  | _ => cases hover

theorem holds_close {r : Option Unit} (hover : stage.over = true) (hne : stage ≠ .aborted)
    (h : stage.Holds setup s.sql t call batch)
    (hp : (DbCall.setAutoCommit true).perform setup t p s = some (r, s')) :
    (stage.next (.setAutoCommit true) r).Holds setup s'.sql t
      (call.extend (noted (.setAutoCommit true) r s s')) batch := by
  cases stage with
  | aborted => exact absurd rfl hne
  | undone =>
    obtain ⟨hnone, hquiet, hexcused⟩ := h
    obtain ⟨hdb, hnone'⟩ := perform_settled (Or.inr (Or.inl rfl)) hnone hp
    exact ⟨hnone', hquiet.extend hdb nofun, hexcused.extend _⟩
  | spoilt =>
    obtain ⟨hnone, hcommits, hunrestored⟩ := h
    obtain ⟨hdb, hnone'⟩ := perform_settled (Or.inr (Or.inl rfl)) hnone hp
    exact ⟨hnone', hcommits.extend hdb nofun, hunrestored.extend _⟩
  | unsure => exact Unsure.extend h nofun
  | _ => cases hover

theorem holds_giveBack {r : Unit} (hover : stage.over = true ∨ stage = .restored)
    (h : stage.Holds setup s.sql t call batch)
    (hp : DbCall.returnConnection.perform setup t p s = some (r, s')) :
    (stage.next .returnConnection r).Holds setup s'.sql t
    (call.extend (noted .returnConnection r s s')) batch := by
  cases hp
  have hnone' : (s.sql.reset t).uncommitted t = [] := uncommitted_finish ..
  cases stage with
  | aborted => exact ⟨hnone', h.1.extend rfl nofun, h.2.extend _⟩
  | undone | spoilt => exact ⟨hnone', h.2.1.extend rfl nofun, h.2.2.extend _⟩
  | unsure => exact Unsure.extend h nofun
  | restored => exact ⟨hnone', h.2.1.extend rfl nofun, h.2.2.1.extend rfl, h.2.2.2⟩
  | _ => rcases hover with hover | hover <;> cases hover

end Cases

/-- **One effect of a call.** What holds at its stage leads to what holds at the next. -/
theorem holds_next {r : c.Answer} {stage : Stage} (hallowed : Allowed batch stage c)
    (hagain : .persist batch ∈ call.earlier → ∀ m ∈ batch, Persisted setup s.sql.db m)
    (h : stage.Holds setup s.sql t call batch) (hp : c.perform setup t p s = some (r, s')) :
    (stage.next c r).Holds setup s'.sql t (call.extend (noted c r s s')) batch := by
  cases hallowed with
  | acknowledge => trivial
  | borrow => exact holds_borrow h hp
  | «open» => exact holds_open h hp
  | insert hm => exact holds_insert hm h hp
  | verify => exact holds_verify hagain h hp
  | commit => exact holds_commit hagain h hp
  | restore => exact holds_restore h hp
  | rollback hover => exact holds_rollback hover h hp
  | close hover hne => exact holds_close hover hne h hp
  | giveBack hover => exact holds_giveBack hover h hp

end Effects

/-! ## All calls -/

section Runs

variable (setup : Setup)

/-- What is known of a call that is under way. -/
structure Local (d : Desk) (t : Worker) (g : Progress) : Prop where
  free : g.borrowed = false → d.shared.sql.pending t = none
  again : g.stage ≠ .idle →
    ∀ ms, .persist ms ∈ (d.current t).earlier → ∀ m ∈ ms, Persisted setup d.shared.sql.db m
  request : g.stage = .idle ∨
    (g.stage = .acknowledging ∧ ∀ ms, (d.current t).request ≠ .persist ms) ∨
    (g.stage ≠ .acknowledging ∧ (d.current t).request = .persist g.batch)
  holds : g.stage.Holds setup d.shared.sql t (d.current t) g.batch

structure Inv (d : Desk) (g : Worker → Option Progress) : Prop where
  locked : d.shared.sql.Locked engine
  free : ∀ t, g t = none → d.shared.sql.pending t = none
  accepted : ∀ ms, .persist ms ∈ d.accepted → ∀ m ∈ ms, Persisted setup d.shared.sql.db m
  outcomes : ∀ x ∈ d.returned, ∀ ms, x.call.request = .persist ms →
    ∃ ok, x.result = .ok ok ∧ Outcome setup ms x.call ok
  calls : ∀ t m, g t = some m → Local setup d t m

/-- The database as a call of `t` relies on it, after something else has happened. -/
structure Spared (t : Worker) (s s' : Shared) : Prop where
  pending : s'.sql.pending t = s.sql.pending t
  rows : ∀ key, s.sql.locks (.message key) = some t →
    s'.sql.locks (.message key) = some t ∧ s'.sql.db.messages.get key = s.sql.db.messages.get key
  persisted : ∀ m, Persisted setup s.sql.db m → Persisted setup s'.sql.db m
  known : ∀ uid, s.sql.db.known uid = true → s'.sql.db.known uid = true

variable {setup} {d d' : Desk} {t t' : Worker} {g : Worker → Option Progress} {s s' : Shared}
  {batch : List TextMessage} {call : Invocation} {stage : Stage}

theorem Spared.uncommitted (h : Spared setup t s s') :
    s'.sql.uncommitted t = s.sql.uncommitted t := by
  rw [Transactions.uncommitted, Transactions.uncommitted, h.pending]

variable {ms : List TextMessage}

theorem Spared.reserved (h : Spared setup t s s') (hms : Reserved setup s.sql t ms) :
    Reserved setup s'.sql t ms := by
  intro m hm
  obtain ⟨hlock, hsender, hreceiver⟩ := hms m hm
  exact ⟨(h.rows _ hlock).1, h.known _ hsender, h.known _ hreceiver⟩

theorem Spared.get (h : Spared setup t s s') (hms : Reserved setup s.sql t ms) :
    ∀ m ∈ ms, s'.sql.db.messages.get (keyOf setup m) = s.sql.db.messages.get (keyOf setup m) :=
  fun m hm => (h.rows _ (hms m hm).1).2

theorem Spared.holds (h : Spared setup t s s') (hstage : stage.Holds setup s.sql t call batch) :
    stage.Holds setup s'.sql t call batch := by
  cases stage with
  | idle | acknowledging => trivial
  | ready | undone | spoilt => exact hstage.imp_left h.uncommitted.trans
  | opened done =>
    obtain ⟨ws, hpending, hplan, hreserved, heffects⟩ := hstage
    exact ⟨ws, h.pending.trans hpending, (plan_congr (h.get hreserved)).trans hplan,
      h.reserved hreserved,
      heffects⟩
  | verifying done m =>
    obtain ⟨hm, ws, hpending, hplan, hreserved, heffects⟩ := hstage
    have hget := h.get hreserved
    refine ⟨hm, ws, ?_, ?_, h.reserved hreserved, heffects⟩
    · rw [h.pending, hpending, inserted_congr (hget m mem_concat_self)]
    · rw [plan_congr fun m' hm' => hget m' (mem_append_left _ hm'), hplan]
  | aborted | unsure => exact hstage
  | committed | restored =>
    obtain ⟨hnone, hcommits, hclean, hpersisted⟩ := hstage
    exact ⟨h.uncommitted.trans hnone, hcommits, hclean, fun m hm => h.persisted m (hpersisted m hm)⟩

variable {m : Progress}

theorem Local.spared (hm : Local setup d t m) (h : Spared setup t d.shared d'.shared)
    (hcall : d'.current t = d.current t) : Local setup d' t m where
  free hborrowed := h.pending.trans (hm.free hborrowed)
  again hne ms hms m' hm' := by
    rw [hcall] at hms
    exact h.persisted m' (hm.again hne ms hms m' hm')
  request := by
    rw [hcall]
    exact hm.request
  holds := by
    rw [hcall]
    exact h.holds hm.holds

variable {c : DbCall} {r : c.Answer} {p : Pick}

theorem spared_of_perform (hlocked : s.sql.Locked engine)
    (hp : c.perform setup t p s = some (r, s'))
    (hne : t' ≠ t) : Spared setup t' s s' := by
  obtain ⟨hspares, -, ws, hdb⟩ := perform_spares hlocked hp
  refine ⟨hspares.pending t' hne, fun key hkey => ?_, fun m hm => ?_, fun uid huid => ?_⟩
  · obtain ⟨hlock, hrow⟩ := hspares.held t' hne _ hkey
    exact ⟨hlock, get_of_row hrow⟩
  · rw [hdb]
    exact hm.applyAll ws
  · rw [hdb, known_applyAll]
    exact huid

theorem spared_of_env (h : Env s s') (t : Worker) : Spared setup t s s' := by
  obtain ⟨now, steady, users, -, -, husers, rfl⟩ := h
  exact ⟨rfl, fun key hkey => ⟨hkey, rfl⟩, fun m hm =>
    ⟨hm.1, husers _ hm.2.1, husers _ hm.2.2⟩, husers⟩

theorem next_acknowledging (r : c.Answer) : Stage.acknowledging.next c r = .acknowledging := by
  cases c <;> rfl

theorem next_ne_acknowledging (hne : stage ≠ .acknowledging) (r : c.Answer) :
    stage.next c r ≠ .acknowledging := by
  unfold Stage.next
  split <;> first | exact hne | (split <;> nofun) | nofun

theorem Local.perform (hm : Local setup d t m) (hlocked : d.shared.sql.Locked engine)
    (hborrowed : m.borrowed = holding c) (hallowed : Allowed m.batch m.stage c)
    (hp : c.perform setup t p d.shared = some (r, s')) :
    Local setup (d.note t c r s') t (m.next c r) := by
  have hcall : (d.note t c r s').current t = (d.current t).extend (noted c r d.shared s') :=
    update_self ..
  have hidle := hallowed.ne_idle
  obtain ⟨-, -, ws, hdb⟩ := perform_spares hlocked hp
  constructor
  · intro hfree
    cases c with
    | getConnection =>
      cases hp
      exact hm.free hborrowed
    | returnConnection =>
      cases hp
      exact update_self ..
    | _ => cases hfree
  · intro _ ms hms m' hm'
    rw [hcall] at hms
    show Persisted setup s'.sql.db m'
    rw [hdb]
    exact (hm.again hidle ms hms m' hm').applyAll ws
  · rw [hcall]
    rcases hm.request with hnot | ⟨hack, hrequest⟩ | ⟨hne, hrequest⟩
    · exact absurd hnot hidle
    · refine Or.inr (Or.inl ⟨?_, hrequest⟩)
      show m.stage.next c r = _
      rw [hack, next_acknowledging]
    · exact Or.inr (Or.inr ⟨next_ne_acknowledging hne r, hrequest⟩)
  · rw [hcall]
    exact holds_next hallowed (hm.again hidle m.batch) hm.holds hp

theorem Inv.perform (h : Inv setup d g) (hm : g t = some m) (hborrowed : m.borrowed = holding c)
    (hallowed : Allowed m.batch m.stage c) (hp : c.perform setup t p d.shared = some (r, s')) :
    Inv setup (d.note t c r s') (update g t (some (m.next c r))) := by
  obtain ⟨hspares, hlocked, ws, hdb⟩ := perform_spares h.locked hp
  refine ⟨hlocked, fun t' ht' => ?_, fun ms hms m' hm' => ?_, h.outcomes, ?_⟩
  · have hne : t' ≠ t := by
      rintro rfl
      rw [update_self] at ht'
      cases ht'
    rw [update_of_ne hne] at ht'
    exact (hspares.pending t' hne).trans (h.free t' ht')
  · show Persisted setup s'.sql.db m'
    rw [hdb]
    exact (h.accepted ms hms m' hm').applyAll ws
  · refine forall_set ((h.calls t m hm).perform h.locked hborrowed hallowed hp)
      fun t' m' hne hm' => ?_
    exact (h.calls t' m' hm').spared (spared_of_perform h.locked hp hne) (update_of_ne hne ..)

theorem Local.outcome (hm : Local setup d t m) {ok : Bool} (hreturns : m.stage.Returns ok)
    (hrequest : (d.current t).request = .persist ms) :
    Outcome setup ms (d.current t) ok ∧
    (ok = true → ∀ m ∈ ms, Persisted setup d.shared.sql.db m) := by
  obtain ⟨batch, borrowed, stage⟩ := m
  have hholds := hm.holds
  rcases hm.request with hidle | ⟨-, hnot⟩ | ⟨hne, hbatch⟩
  · cases hidle
    cases hreturns
  · exact absurd hrequest (hnot ms)
  · cases hrequest.symm.trans hbatch
    cases stage with
    | restored =>
      obtain ⟨-, hcommits, hclean, hpersisted⟩ := hholds
      cases hreturns
      exact ⟨.stored hcommits hclean, fun _ => hpersisted⟩
    | undone =>
      cases hreturns
      exact ⟨.refused hholds.2.1 hholds.2.2, nofun⟩
    | spoilt =>
      cases hreturns
      exact ⟨.late hholds.2.1 hholds.2.2, nofun⟩
    | unsure =>
      cases hreturns
      exact ⟨.unsure hholds, nofun⟩
    | acknowledging => exact absurd rfl hne
    | _ => cases hreturns

theorem Inv.change (h : Inv setup d g) {m' : Option Progress} (hshared : d'.shared = d.shared)
    (hcurrent : ∀ t' ≠ t, d'.current t' = d.current t')
    (hfree : m' = none → d.shared.sql.pending t = none)
    (haccepted : ∀ ms, .persist ms ∈ d'.accepted → ∀ m ∈ ms, Persisted setup d.shared.sql.db m)
    (houtcomes : ∀ x ∈ d'.returned, ∀ ms, x.call.request = .persist ms → ∃ ok, x.result = .ok ok ∧
      Outcome setup ms x.call ok) (hlocal : ∀ m, m' = some m → Local setup d' t m) :
    Inv setup d' (update g t m') := by
  have hspared : ∀ t, Spared setup t d.shared d'.shared := by
    rw [hshared]
    exact fun t => ⟨rfl, fun _ hkey => ⟨hkey, rfl⟩, fun _ hm => hm, fun _ huid => huid⟩
  refine ⟨hshared ▸ h.locked, fun t' ht' => ?_, hshared ▸ haccepted, houtcomes, fun t' m hm => ?_⟩
  · rw [hshared]
    rcases update_cases ht' with ⟨rfl, hnew⟩ | ⟨hne, ht'⟩
    · exact hfree hnew
    · exact h.free t' ht'
  · rcases update_cases hm with ⟨rfl, hnew⟩ | ⟨hne, hm⟩
    · exact hlocal m hnew
    · exact (h.calls t' m hm).spared (hspared t') (hcurrent t' hne)

theorem Inv.begins (h : Inv setup d g) (hm : g t = some m) (hfree : m.borrowed = false)
    (request : Request) :
    Inv setup { d with current := update d.current t ⟨request, d.accepted, []⟩ }
      (update g t (some request.progress)) := by
  have hpending := (h.calls t m hm).free hfree
  refine h.change rfl (fun t' hne => update_of_ne hne ..) nofun h.accepted h.outcomes
    fun m' hm' => ?_
  cases hm'
  constructor
  · exact fun _ => hpending
  · simp only [update_self]
    exact fun _ => h.accepted
  · simp only [update_self]
    cases request with
    | persist ms => exact Or.inr (Or.inr ⟨nofun, rfl⟩)
    | acknowledge _ _ _ => exact Or.inr (Or.inl ⟨rfl, nofun⟩)
  · simp only [update_self]
    cases request with
    | persist ms =>
      exact ⟨by simp only [Transactions.uncommitted, hpending, Option.getD_none], nofun, nofun⟩
    | acknowledge _ _ _ => trivial

theorem Inv.returns (h : Inv setup d g) (hm : g t = some m) (hfree : m.borrowed = false) {ok : Bool}
    (hreturns : m.stage.Returns ok) :
    Inv setup { d with returned := ⟨d.current t, .ok ok⟩ :: d.returned }
      (update g t (some ⟨[], false, .idle⟩)) := by
  have hlocal := h.calls t m hm
  refine h.change rfl (fun _ _ => rfl) nofun (fun ms hms => ?_) (fun x hx ms hms => ?_)
    fun m' hm' => ?_
  · obtain ⟨x, hx, hrequest⟩ := mem_map.mp hms
    obtain ⟨hx, haccepted⟩ := mem_filter.mp hx
    rcases mem_cons.mp hx with rfl | hx
    · exact (hlocal.outcome hreturns hrequest).2 haccepted
    · exact h.accepted ms (mem_map.mpr ⟨x, mem_filter.mpr ⟨hx, haccepted⟩, hrequest⟩)
  · rcases mem_cons.mp hx with rfl | hx
    · exact ⟨ok, rfl, (hlocal.outcome hreturns hms).1⟩
    · exact h.outcomes x hx ms hms
  · cases hm'
    exact ⟨fun _ => hlocal.free hfree, fun hidle => absurd rfl hidle, Or.inl rfl, trivial⟩

theorem inv_inductive (setup : Setup) : Inductive (messaging setup) following (Inv setup) where
  init d h := by
    obtain ⟨hpending, -, hreturned⟩ := h
    refine ⟨fun t w hw => ?_, fun t _ =>
      hpending t, fun ms hms => ?_, fun x hx => ?_, by rintro _ _ ⟨⟩⟩
    · rw [Transactions.uncommitted, hpending] at hw
      cases hw
    · rw [Desk.accepted, hreturned] at hms
      cases hms
    · rw [hreturned] at hx
      cases hx
  env d d' g h henv := by
    obtain ⟨s', henv, rfl⟩ := henv
    have hspared : ∀ t, Spared setup t d.shared s' := spared_of_env henv
    refine ⟨?_, fun t ht => (hspared t).pending.trans (h.free t ht),
      fun ms hms m hm => (hspared (.status 0)).persisted m (h.accepted ms hms m hm), h.outcomes,
      fun t m hm => (h.calls t m hm).spared (hspared t) rfl⟩
    obtain ⟨now, steady, users, -, -, -, rfl⟩ := henv
    exact h.locked
  start d g t p h hg hp := by
    obtain ⟨request, hne, rfl⟩ := hp
    refine ⟨⟨[], false, .idle⟩, keeps_run hne, ?_⟩
    refine h.change rfl (fun _ _ => rfl) (by rintro ⟨⟩) h.accepted h.outcomes fun m hm => ?_
    cases hm
    exact ⟨fun _ => h.free t hg, fun hidle => absurd rfl hidle, Or.inl rfl, trivial⟩
  call d d' g t m a r h hm hallow hexec := by
    obtain ⟨p, hp⟩ := hexec
    refine ⟨trivial, ?_⟩
    cases a with
    | begins request =>
      cases hp
      exact h.begins hm hallow.2 request
    | performs e =>
      cases e with
      | db c =>
        obtain ⟨⟨r', s'⟩, hperform, heq⟩ := Option.map_eq_some_iff.mp hp
        cases heq
        exact h.perform hm hallow.1 hallow.2 hperform
      | _ => cases hallow
    | returns result =>
      obtain ⟨hfree, ok, rfl, hreturns⟩ := hallow
      cases hp
      exact h.returns hm hfree hreturns
  stop d d' g t m p h hm hmeets hstop := by
    obtain ⟨⟨a, rfl⟩, rfl⟩ := hstop
    refine h.change rfl (fun _ _ => rfl) (fun _ => ?_) h.accepted h.outcomes (by rintro _ ⟨⟩)
    exact (h.calls t m hm).free hmeets.2
  crash _ _ _ _ _ h := h.elim

end Runs

/-! ## Atomicity -/

section Atomicity

variable (setup : Setup)

def Unchanged (effects : List Effect) : Prop := ∀ x ∈ effects, x.after = x.before

def CommitError (effects : List Effect) : Prop := ∃ x ∈ effects, x.call = .commit ∧ x.failed = true

/-- All or nothing: a call that returns `true` adds its batch in one step, and one that returns
`false` without an error of the commit leaves the tables. -/
def Atomic (ms : List TextMessage) (effects : List Effect) (ok : Bool) : Prop :=
  (ok = true → ∃ before x after, effects = before ++ x :: after ∧ x.call = .commit ∧
    x.failed = false ∧
    Adds setup ms x.before x.after ∧ Unchanged (before ++ after)) ∧
  (ok = false → ¬ CommitError effects → Unchanged effects)

/-- The commit has gone through, with new rows, and turning autocommit on has failed after it. -/
def LateFailure (effects : List Effect) : Prop :=
  (∃ x ∈ effects, x.call = .commit ∧ x.failed = false ∧ x.after ≠ x.before) ∧ Unrestored effects

variable {setup} {ms : List TextMessage} {call : Invocation} {ok : Bool}

theorem Quiet.unchanged {effects : List Effect} (h : Quiet effects) : Unchanged effects :=
  fun x hx => (h x hx).1

theorem Outcome.atomic_iff (h : Outcome setup ms call ok) :
    Atomic setup ms call.effects ok ↔ ¬ LateFailure call.effects := by
  cases h with
  | stored h clean =>
    obtain ⟨before, x, after, heffects, hcommit, hok, hadds, -, hquiet⟩ := h
    refine iff_of_true ⟨fun _ => ?_, nofun⟩ ?_
    · exact ⟨before, x, after, heffects, hcommit, hok, hadds, hquiet.unchanged⟩
    · rintro ⟨-, y, hy, -, hfailed⟩
      rw [clean y hy] at hfailed
      cases hfailed
  | refused h excused =>
    refine iff_of_true ⟨nofun, fun _ _ => h.unchanged⟩ ?_
    rintro ⟨⟨x, hx, -, -, hchanged⟩, -⟩
    exact hchanged (h x hx).1
  | unsure h =>
    obtain ⟨⟨x, hx, hcommit⟩, hall⟩ := h
    refine iff_of_true ⟨nofun, fun _ hnot => absurd ⟨x, hx, hcommit, hall x hx hcommit⟩ hnot⟩ ?_
    rintro ⟨⟨y, hy, hcommit, hok, -⟩, -⟩
    rw [hall y hy hcommit] at hok
    cases hok
  | late h unrestored =>
    obtain ⟨before, x, after, heffects, hcommit, hok, -, -, hquiet⟩ := h
    have hmem : ∀ y ∈ call.effects, y = x ∨ y ∈ before ++ after := by
      intro y hy
      rw [heffects] at hy
      simp only [mem_append, mem_cons] at hy ⊢
      tauto
    -- the only commit is the one that has gone through
    have hno : ¬ CommitError call.effects := by
      rintro ⟨y, hy, hy', hfailed⟩
      rcases hmem y hy with rfl | hy
      · rw [hok] at hfailed
        cases hfailed
      · exact (hquiet y hy).2 hy'
    constructor
    · rintro ⟨-, hunchanged⟩ ⟨⟨y, hy, -, -, hchanged⟩, -⟩
      exact hchanged (hunchanged rfl hno y hy)
    · refine fun hnot => ⟨nofun, fun _ _ y hy => ?_⟩
      rcases hmem y hy with rfl | hy
      · by_contra hchanged
        exact hnot ⟨⟨y, hy, hcommit, hok, hchanged⟩, unrestored⟩
      · exact (hquiet y hy).1

/-- A batch that was accepted before is accepted again, unless something fails, and changes nothing.
-/
theorem Outcome.again (h : Outcome setup ms call ok) (hearlier : .persist ms ∈ call.earlier)
    (hclean : Clean call.effects) : ok = true ∧ Unchanged call.effects := by
  have hno : ¬ ∃ x ∈ call.effects, x.failed = true := by
    rintro ⟨x, hx, hfailed⟩
    rw [hclean x hx] at hfailed
    cases hfailed
  cases h with
  | stored h clean =>
    obtain ⟨before, x, after, heffects, -, -, -, hagain, hquiet⟩ := h
    refine ⟨rfl, fun y hy => ?_⟩
    rw [heffects] at hy
    rcases mem_append.mp hy with hy | hy
    · exact (hquiet y (mem_append_left _ hy)).1
    · rcases mem_cons.mp hy with rfl | hy
      · exact hagain hearlier
      · exact (hquiet y (mem_append_right _ hy)).1
  | refused h excused => exact (excused.elim hno fun hnot => hnot hearlier).elim
  | unsure h =>
    obtain ⟨⟨x, hx, hcommit⟩, hall⟩ := h
    exact absurd ⟨x, hx, hall x hx hcommit⟩ hno
  | late h unrestored =>
    obtain ⟨x, hx, -, hfailed⟩ := unrestored
    exact absurd ⟨x, hx, hfailed⟩ hno

/-- **Storing a batch is atomic exactly if the connection is restored.** In every run of calls of
`PersistTextMessages` and `AcknowledgeTextMessages` on any number of connections, from any tables
and with any failures:
* a call returns a value. It is all or nothing, if and only if turning autocommit on does not fail
  after the commit of new rows;
* a call for a batch that was accepted before returns `true` if nothing fails, and leaves the
  tables;
* such a call ends, if no other connection is in its way. -/
theorem persist_atomic_iff {c : Config Worker Act Act.Answer Unit Desk}
    (hc : Reachable (messaging setup) c) :
    (∀ x ∈ c.shared.returned, ∀ ms, x.call.request = .persist ms → ∃ ok, x.result = .ok ok ∧
      (Atomic setup ms x.call.effects ok ↔ ¬ LateFailure x.call.effects) ∧
      (.persist ms ∈ x.call.earlier → Clean x.call.effects → ok = true ∧
        Unchanged x.call.effects)) ∧
    ∀ ms t, ms ≠ [] → .persist ms ∈ c.shared.accepted → c.threads t = none →
      (∀ k, c.shared.shared.sql.Free t k) →
      ∃ s', Prog.run (alone setup t (.arr []))
      (MysqlDao.PersistTextMessages ms) c.shared.shared = some (.ok true, s') ∧
        s'.sql.db = c.shared.shared.sql.db := by
  obtain ⟨g, hinv, hfollows⟩ := reachable_invariant (inv_inductive setup) hc
  refine ⟨fun x hx ms hms => ?_, fun ms t hne haccepted hidle hfree => ?_⟩
  · obtain ⟨ok, hok, houtcome⟩ := hinv.outcomes x hx ms hms
    exact ⟨ok, hok, houtcome.atomic_iff, houtcome.again⟩
  · have hg : g t = none := by
      rcases hfollows t with ⟨-, hg⟩ | ⟨p, m, hp, -⟩
      · exact hg
      · rw [hidle] at hp
        cases hp
    exact run_again hne (hinv.free t hg) hfree (hinv.accepted ms haccepted)

/-! ## Two runs -/

def launch : Worker × Request → Desk → Option (Worker × Prog Act Act.Answer Unit)
  | (_, .persist []), _ => none
  | (t, request), _ => some (t, request.run)

theorem messaging_playable : Playable launch (Desk.act setup) (messaging setup) where
  launch l _ t p h := by
    obtain ⟨t', request⟩ := l
    cases request with
    | persist ms =>
      cases ms with
      | nil => cases h
      | cons m ms =>
        cases h
        exact ⟨.persist (m :: ms), nofun, rfl⟩
    | acknowledge receiver sender ids =>
      cases h
      exact ⟨.acknowledge receiver sender ids, nofun, rfl⟩
  perform _ _ p _ _ _ h := ⟨p, h⟩
  finish _ a _ := ⟨⟨a, rfl⟩, rfl⟩

namespace Sample

def hello : TextMessage := ⟨ascii "id", 1, 2, ascii "hello"⟩

def empty : Shared := .fresh 0 0 Sample.users

def begin : Config Worker Act Act.Answer Unit Desk :=
  ⟨⟨empty, fun _ => ⟨.persist [], [], []⟩, []⟩, fun _ => none⟩

/-- A call for a message, with the faults of its effects. -/
def callWith (faults : List Fault) : List (Move Worker (Worker × Request) Pick) :=
  .start (.status 0, .persist [hello]) :: faults.map fun fault =>
    .call (.status 0) { fault := fault }

/-- The tables before the message is stored and after it. -/
def without : Db := empty.sql.db

def stored : Db := engine.applyAll without [.insertMessage (keyOf Sample.caseless hello) hello.row]

/-- The effects up to the commit. -/
def effects : List Effect :=
  [⟨.getConnection, false, without, without⟩, ⟨.setAutoCommit false, false, without, without⟩,
    ⟨.query (.insertMessage hello), false, without, without⟩,
    ⟨.query (.verifyMessage hello.sender_uid hello.client_message_id), false, without, without⟩,
    ⟨.commit, false, without, stored⟩]

theorem init_begin :
    (messaging Sample.caseless).init begin.shared := ⟨fun _ => rfl, fun _ => rfl, rfl⟩

theorem stored_ne : stored ≠ without := by
  intro h
  have hlength : stored.messages.rows.length = without.messages.rows.length := by rw [h]
  exact absurd hlength (by decide)

theorem returns_true :
    (play launch (Desk.act Sample.caseless) begin (callWith (List.replicate 9 .ok))).map
    (fun c => c.shared.returned) = some [⟨⟨.persist [hello], [], effects ++
      [⟨.setAutoCommit true, false, stored, stored⟩, ⟨.returnConnection, false, stored, stored⟩]⟩,
        .ok true⟩] := by
  rfl

theorem returns_false : (play launch (Desk.act Sample.caseless) begin
    (callWith (List.replicate 6 .ok ++ .refused :: List.replicate 4 .ok))).map
      (fun c => c.shared.returned) =
      some [⟨⟨.persist [hello], [], effects ++ [⟨.setAutoCommit true, true, stored, stored⟩,
        ⟨.rollback, false, stored, stored⟩, ⟨.setAutoCommit true, false, stored, stored⟩,
        ⟨.returnConnection, false, stored, stored⟩]⟩, .ok false⟩] := by
  rfl

end Sample

/-- One call without faults. -/
theorem hello_atomic : ∃ c, Reachable (messaging Sample.caseless) c ∧ ∃ x ∈ c.shared.returned,
    x.call.request = .persist [Sample.hello] ∧ x.result = .ok true ∧
      Atomic Sample.caseless [Sample.hello] x.call.effects true := by
  obtain ⟨c, hplay, hreturned⟩ := Option.map_eq_some_iff.mp Sample.returns_true
  have hc := messaging_playable.play (.init Sample.init_begin) hplay
  have hx : _ ∈ c.shared.returned := hreturned ▸ mem_singleton_self _
  obtain ⟨ok, hok, hatomic, -⟩ := (persist_atomic_iff hc).1 _ hx _ rfl
  cases hok
  refine ⟨c, hc, _, hx, rfl, rfl, hatomic.mpr ?_⟩
  rintro ⟨-, y, hy, -, hfailed⟩
  simp only [Sample.effects, cons_append, nil_append, mem_cons, not_mem_nil,
    or_false] at hy
  rcases hy with rfl | rfl | rfl | rfl | rfl | rfl | rfl <;> cases hfailed

/-- **A message is stored and the call says it is not.** The commit goes through, and the statement
after it, which turns autocommit on, fails: the call returns `false` without an error of the commit,
and the table has the new row. -/
theorem stored_but_refused : ∃ c, Reachable (messaging Sample.caseless) c ∧ ∃ x ∈ c.shared.returned,
    x.call.request = .persist [Sample.hello] ∧ x.result = .ok false ∧ ¬ CommitError x.call.effects ∧
      ¬ Unchanged x.call.effects := by
  obtain ⟨c, hplay, hreturned⟩ := Option.map_eq_some_iff.mp Sample.returns_false
  have hc := messaging_playable.play (.init Sample.init_begin) hplay
  have hx : _ ∈ c.shared.returned := hreturned ▸ mem_singleton_self _
  refine ⟨c, hc, _, hx, rfl, rfl, ?_, fun hunchanged => ?_⟩
  · rintro ⟨y, hy, hcommit, hfailed⟩
    simp only [Sample.effects, cons_append, nil_append, mem_cons, not_mem_nil,
      or_false] at hy
    rcases hy with rfl | rfl | rfl | rfl | rfl | rfl | rfl | rfl | rfl <;>
      first | (cases hfailed; done) | cases hcommit
  · refine Sample.stored_ne (hunchanged ⟨.commit, false, Sample.without, Sample.stored⟩ ?_)
    simp [Sample.effects]

end Atomicity

end DistributedChat.Chat.Persistence
