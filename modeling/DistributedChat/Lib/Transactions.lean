import Mathlib

/-!
# Transactions with row locks

A database server as its connections see it. Outside a transaction the writes of a statement take
effect at once; within one they are kept for the commit, together with locks on the rows they
concern, and until then only the connection itself sees them. A statement waits until no other
connection holds a row it needs.

`Engine` says what a write is: it changes one row, and what it makes of that row depends on nothing
else. So a row that a connection has locked looks the same to it until it ends its transaction,
whatever the others do: `Spares.row_view`.
-/

namespace DistributedChat.Lib

open Function (update update_of_ne)

/-- How writes act on a database. -/
structure Engine (Db W K V : Type) where
  apply : Db → W → Db
  key : W → K
  row : Db → K → V
  row_other : ∀ db w k, k ≠ key w → row (apply db w) k = row db k
  row_local : ∀ db db' w, row db (key w) = row db' (key w) →
    row (apply db w) (key w) = row (apply db' w) (key w)

/-- A database, the open transactions of its connections and the rows they hold. -/
structure Transactions (T Db W K : Type) where
  db : Db
  /-- The writes of an open transaction; `none` while autocommit is on. -/
  pending : T → Option (List W)
  locks : K → Option T

section Engine

variable {Db W K V : Type} (E : Engine Db W K V)

def Engine.applyAll (db : Db) (ws : List W) : Db := ws.foldl E.apply db

@[simp] theorem Engine.applyAll_nil (db : Db) : E.applyAll db [] = db := rfl

theorem Engine.applyAll_append (db : Db) (ws ws' : List W) :
    E.applyAll db (ws ++ ws') = E.applyAll (E.applyAll db ws) ws' := List.foldl_append

/-- Writes give a row the same value in two databases that agree on it. -/
theorem Engine.row_applyAll_congr {db db' : Db} {k : K} (h : E.row db k = E.row db' k)
    (ws : List W) : E.row (E.applyAll db ws) k = E.row (E.applyAll db' ws) k := by
  induction ws generalizing db db' with
  | nil => exact h
  | cons w ws ih =>
    apply ih
    by_cases hk : k = E.key w
    · subst hk
      exact E.row_local db db' w h
    · rw [E.row_other db w k hk, E.row_other db' w k hk, h]

/-- Writes with other keys leave a row alone. -/
theorem Engine.row_applyAll_other {db : Db} {k : K} {ws : List W} (h : ∀ w ∈ ws, E.key w ≠ k) :
    E.row (E.applyAll db ws) k = E.row db k := by
  induction ws generalizing db with
  | nil => rfl
  | cons w ws ih =>
    have hw : k ≠ E.key w := (h w List.mem_cons_self).symm
    exact (ih fun v hv => h v (List.mem_cons_of_mem w hv)).trans (E.row_other db w k hw)

end Engine

namespace Transactions

variable {T Db W K V : Type} [DecidableEq T] (E : Engine Db W K V)

def uncommitted (s : Transactions T Db W K) (t : T) : List W := (s.pending t).getD []

/-- The database as connection `t` sees it. -/
def view (s : Transactions T Db W K) (t : T) : Db := E.applyAll s.db (s.uncommitted t)

/-- No other connection holds the row. -/
def Free (s : Transactions T Db W K) (t : T) (k : K) : Prop :=
  s.locks k = none ∨ s.locks k = some t

instance (s : Transactions T Db W K) (t : T) (k : K) : Decidable (s.Free t k) :=
  inferInstanceAs (Decidable (_ ∨ _))

/-- The writes of a statement: at once, or kept with their locks for the commit. -/
def write [DecidableEq K] (s : Transactions T Db W K) (t : T) (ws : List W) (ks : List K) :
    Transactions T Db W K :=
  match s.pending t with
  | none => { s with db := E.applyAll s.db ws }
  | some pending =>
    { s with
      pending := update s.pending t (some (pending ++ ws))
      locks := fun k => if k ∈ ks then some t else s.locks k }

/-- End the transaction of `t`, leave the database `db` and go on in the given mode. -/
def finish (s : Transactions T Db W K) (t : T) (db : Db) (mode : Option (List W)) :
    Transactions T Db W K where
  db := db
  pending := update s.pending t mode
  locks k := if s.locks k = some t then none else s.locks k

/-- Without autocommit the next transaction begins at once. -/
def mode (s : Transactions T Db W K) (t : T) : Option (List W) := (s.pending t).map fun _ => []

def commit (s : Transactions T Db W K) (t : T) : Transactions T Db W K :=
  s.finish t (s.view E t) (s.mode t)

def rollback (s : Transactions T Db W K) (t : T) : Transactions T Db W K :=
  s.finish t s.db (s.mode t)

/-- Turning autocommit on commits what is open. -/
def setAutoCommit (s : Transactions T Db W K) (t : T) (on : Bool) : Transactions T Db W K :=
  if on then s.finish t (s.view E t) none
  else { s with pending := update s.pending t (some (s.uncommitted t)) }

/-- The connection is reset or lost: its transaction is undone. -/
def reset (s : Transactions T Db W K) (t : T) : Transactions T Db W K := s.finish t s.db none

/-- The connections of a set are lost at once. -/
def resetAll (s : Transactions T Db W K) (lost : T → Bool) : Transactions T Db W K where
  db := s.db
  pending t := if lost t then none else s.pending t
  locks k := match s.locks k with
    | none => none
    | some t => if lost t then none else some t

/-! ## What a connection has written it has locked -/

/-- Every uncommitted write holds the lock on its row. -/
def Locked (s : Transactions T Db W K) : Prop :=
  ∀ t, ∀ w ∈ s.uncommitted t, s.locks (E.key w) = some t

variable {E} {s : Transactions T Db W K} {t t' : T} {k : K}

@[simp] theorem uncommitted_finish (db : Db) (mode : Option (List W)) :
    (s.finish t db mode).uncommitted t = mode.getD [] := by
  simp [uncommitted, finish]

omit [DecidableEq T] in
@[simp] theorem mode_getD : (s.mode t).getD [] = [] := by
  unfold mode
  cases s.pending t <;> rfl

theorem uncommitted_finish_of_ne (h : t' ≠ t) (db : Db) (mode : Option (List W)) :
    (s.finish t db mode).uncommitted t' = s.uncommitted t' := by
  simp [uncommitted, finish, update_of_ne h]

theorem uncommitted_write_of_ne [DecidableEq K] (h : t' ≠ t) (ws : List W) (ks : List K) :
    (s.write E t ws ks).uncommitted t' = s.uncommitted t' := by
  unfold write
  cases hp : s.pending t with
  | none => rfl
  | some pending => simp [uncommitted, update_of_ne h]

theorem uncommitted_write_of_some [DecidableEq K] {pending : List W}
    (h : s.pending t = some pending) (ws : List W) (ks : List K) :
    (s.write E t ws ks).uncommitted t = pending ++ ws := by
  simp [uncommitted, write, h]

theorem locks_finish (hk : s.locks k = some t') (h : t' ≠ t) (db : Db) (mode : Option (List W)) :
    (s.finish t db mode).locks k = some t' := by
  simp only [finish, hk, Option.some.injEq, h, if_false]

section

variable (hs : s.Locked E)

include hs

/-- The end of a transaction releases its own locks only, so every other write stays covered. -/
theorem Locked.finish (db : Db) {mode : Option (List W)}
    (hmode : mode.getD [] = []) : (s.finish t db mode).Locked E := by
  intro t' w hw
  by_cases h : t' = t
  · subst h
    rw [uncommitted_finish, hmode] at hw
    cases hw
  · rw [uncommitted_finish_of_ne h] at hw
    exact locks_finish (hs t' w hw) h db mode

theorem Locked.commit : (s.commit E t).Locked E := hs.finish _ mode_getD

theorem Locked.rollback : (s.rollback t).Locked E := hs.finish _ mode_getD

theorem Locked.reset : (s.reset t).Locked E := hs.finish _ rfl

theorem Locked.setAutoCommit (on : Bool) : (s.setAutoCommit E t on).Locked E := by
  cases on with
  | true => exact hs.finish _ rfl
  | false =>
    intro t' w hw
    refine hs t' w ?_
    by_cases h : t' = t
    · subst h
      simpa [Transactions.setAutoCommit, uncommitted] using hw
    · simpa [Transactions.setAutoCommit, uncommitted, update_of_ne h] using hw

omit [DecidableEq T] in
theorem Locked.resetAll (lost : T → Bool) : (s.resetAll lost).Locked E := by
  intro t w hw
  by_cases h : lost t = true
  · simp [Transactions.resetAll, uncommitted, h] at hw
  · have hlock := hs t w (by simpa [Transactions.resetAll, uncommitted, h] using hw)
    simp [Transactions.resetAll, hlock, h]

/-- A statement that takes the rows it writes, all of them free, keeps every write covered. -/
theorem Locked.write [DecidableEq K] {ws : List W} {ks : List K} (hkeys : ∀ w ∈ ws, E.key w ∈ ks)
    (hfree : ∀ k ∈ ks, s.Free t k) :
    (s.write E t ws ks).Locked E := by
  cases hp : s.pending t with
  | none =>
    intro t' w hw
    have hlocks : (s.write E t ws ks).locks = s.locks := by simp [Transactions.write, hp]
    rw [hlocks]
    exact hs t' w (by simpa [Transactions.write, hp, uncommitted] using hw)
  | some pending =>
    intro t' w hw
    have hlocks : (s.write E t ws ks).locks (E.key w) =
        if E.key w ∈ ks then some t else s.locks (E.key w) := by simp [Transactions.write, hp]
    rw [hlocks]
    by_cases h : t' = t
    · subst h
      rw [uncommitted_write_of_some hp, List.mem_append] at hw
      rcases hw with hw | hw
      · rw [hs t' w (by simpa [uncommitted, hp] using hw), ite_self]
      · rw [if_pos (hkeys w hw)]
    · rw [uncommitted_write_of_ne h] at hw
      have hlock := hs t' w hw
      rw [if_neg, hlock]
      intro hmem
      -- a row somebody else holds is not free
      rcases hfree _ hmem with hnone | hmine
      · rw [hlock] at hnone
        cases hnone
      · rw [hlock] at hmine
        exact h (Option.some.inj hmine)

end

/-! ## Isolation -/

variable (E) in
/-- What the other connections rely on: their transactions, and the rows they hold. -/
structure Spares (t : T) (s s' : Transactions T Db W K) : Prop where
  pending : ∀ t' ≠ t, s'.pending t' = s.pending t'
  held : ∀ t' ≠ t, ∀ k, s.locks k = some t' → s'.locks k = some t' ∧ E.row s'.db k = E.row s.db k

omit [DecidableEq T] in
theorem Spares.refl (t : T) (s : Transactions T Db W K) : s.Spares E t s :=
  ⟨fun _ _ => rfl, fun _ _ _ hk => ⟨hk, rfl⟩⟩

variable {s' : Transactions T Db W K}

theorem spares_finish {db : Db} {mode : Option (List W)}
    (hdb : ∀ t' ≠ t, ∀ k, s.locks k = some t' → E.row db k = E.row s.db k) :
    s.Spares E t (s.finish t db mode) :=
  ⟨fun _ ht => update_of_ne ht .., fun t' ht k hk => ⟨locks_finish hk ht db mode, hdb t' ht k hk⟩⟩

omit [DecidableEq T] in
/-- **Isolation**: of a row that another connection holds, a connection sees the committed value. -/
theorem Locked.row_view (hs : s.Locked E) (ht : t' ≠ t) (hk : s.locks k = some t') :
    E.row (s.view E t) k = E.row s.db k := by
  refine E.row_applyAll_other fun w hw heq => ?_
  have := hs t w hw
  rw [heq, hk] at this
  exact ht (Option.some.inj this)

/-- A commit is nothing to the other connections. -/
theorem Locked.spares_commit (hs : s.Locked E) : s.Spares E t (s.commit E t) :=
  spares_finish fun _ ht _ hk => hs.row_view ht hk

theorem spares_rollback : s.Spares E t (s.rollback t) := spares_finish fun _ _ _ _ => rfl

theorem spares_reset : s.Spares E t (s.reset t) := spares_finish fun _ _ _ _ => rfl

theorem Locked.spares_setAutoCommit (hs : s.Locked E) (on : Bool) :
    s.Spares E t (s.setAutoCommit E t on) := by
  cases on with
  | true => exact spares_finish fun _ ht _ hk => hs.row_view ht hk
  | false => exact ⟨fun _ ht => update_of_ne ht .., fun _ _ _ hk => ⟨hk, rfl⟩⟩

/-- A statement is nothing to the other connections. -/
theorem spares_write [DecidableEq K] {ws : List W} {ks : List K} (hkeys : ∀ w ∈ ws, E.key w ∈ ks)
    (hfree : ∀ k ∈ ks, s.Free t k) : s.Spares E t (s.write E t ws ks) := by
  -- a row somebody else holds is none of those it writes or locks
  have hnot : ∀ t' ≠ t, ∀ k, s.locks k = some t' → k ∉ ks := by
    intro t' ht k hk hmem
    rcases hfree k hmem with hnone | hmine
    · rw [hk] at hnone
      cases hnone
    · rw [hk] at hmine
      exact ht (Option.some.inj hmine)
  unfold write
  cases s.pending t with
  | none =>
    refine ⟨fun _ _ => rfl, fun t' ht k hk => ⟨hk, E.row_applyAll_other fun w hw heq => ?_⟩⟩
    exact hnot t' ht k hk (heq ▸ hkeys w hw)
  | some pending =>
    refine ⟨fun _ ht => update_of_ne ht .., fun t' ht k hk => ⟨?_, rfl⟩⟩
    exact (if_neg (hnot t' ht k hk)).trans hk

theorem write_nil [DecidableEq K] (h : s.pending t = none) : s.write E t [] [] = s := by
  simp [write, h]

end Transactions

end DistributedChat.Lib
