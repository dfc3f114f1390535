import Mathlib

/-!
# Statements on one connection

A program of statements on a database. A statement takes effect at once, or within the transaction
that is open. Any of them may fail, and then has no effect; `outcomes` says which do. A failure ends
the program.

`Gives Q p c` says how a program ends; the rules prove it along the program text.
-/

namespace DistributedChat.Lib

structure Connection (Db : Type) where
  /-- What is committed. -/
  saved : Db
  /-- What the open transaction has made of it. -/
  working : Option Db := none
  /-- Which of the next statements succeed; those that are not listed do. -/
  outcomes : List Bool := []

namespace Connection

variable {Db : Type}

def view (c : Connection Db) : Db := c.working.getD c.saved

def put (c : Connection Db) (db : Db) : Connection Db :=
  match c.working with
  | none => { c with saved := db }
  | some _ => { c with working := some db }

def spent (c : Connection Db) : Connection Db := { c with outcomes := c.outcomes.tail }

/-- Some statement is going to fail. -/
def Faulty (c : Connection Db) : Prop := false ∈ c.outcomes

theorem Faulty.of_spent {c : Connection Db} (h : c.spent.Faulty) :
    c.Faulty := List.mem_of_mem_tail h

end Connection

/-- A program on a connection, which may fail with a message. -/
def Sql (Db α : Type) := Connection Db → Except String α × Connection Db

namespace Sql

variable {Db α β : Type}

def andThen (p : Sql Db α) (f : α → Sql Db β) : Sql Db β := fun c =>
  match (p c).1 with
  | .error e => (.error e, (p c).2)
  | .ok a => f a (p c).2

instance : Monad (Sql Db) where
  pure a c := (.ok a, c)
  bind := andThen

def fail (e : String) : Sql Db α := fun c => (.error e, c)

/-- A step that may fail; what it does otherwise is `run`. -/
def attempt (run : Sql Db α) : Sql Db α := fun c =>
  if c.outcomes.headD true then run c.spent else (.error "database error", c.spent)

/-- A statement reads and changes the database. -/
def statement (f : Db → α × Db) :
    Sql Db α := attempt fun c => (.ok (f c.view).1, c.put (f c.view).2)

def transaction : Sql Db Unit := attempt fun c =>
  match c.working with
  | none => (.ok (), { c with working := some c.saved })
  | some _ => (.error "cannot start a transaction within a transaction", c)

def commit : Sql Db Unit := attempt fun c =>
  match c.working with
  | none => (.error "no transaction is active", c)
  | some db => (.ok (), { c with saved := db, working := none })

/-- If the program fails, its transaction is undone. -/
def orRollback (p : Sql Db α) : Sql Db α := fun c =>
  match (p c).1 with
  | .error e => (.error e, { (p c).2 with working := none })
  | .ok a => (.ok a, (p c).2)

/-- How a program ends. -/
def Gives (Q : Except String α → Connection Db → Prop) (p : Sql Db α) (c : Connection Db) : Prop :=
  Q (p c).1 (p c).2

variable {Q : Except String α → Connection Db → Prop} {c : Connection Db}

variable {p : Sql Db α}

theorem Gives.weaken {Q' : Except String α → Connection Db → Prop} (h : Gives Q p c)
    (hQ : ∀ r c', Q r c' → Q' r c') : Gives Q' p c := hQ _ _ h

theorem Gives.pure {a : α} (h : Q (.ok a) c) : Gives Q (pure a : Sql Db α) c := h

theorem Gives.andThen {Q : Except String β → Connection Db → Prop} {f : α → Sql Db β}
    (h : Gives (fun r c' => match r with | .error e => Q (.error e) c' | .ok a => Gives Q (f a) c')
      p c) :
    Gives Q (p >>= f : Sql Db β) c := by
  change Q (Sql.andThen p f c).1 (Sql.andThen p f c).2
  simp only [Gives] at h
  unfold Sql.andThen
  cases hr : (p c).1 with
  | error e | ok a => simpa only [hr] using h

theorem Gives.orRollback
    (h :
      Gives (fun r c' => match r with
        | .error e => Q (.error e) { c' with working := none }
        | .ok a => Q (.ok a) c') p c) :
    Gives Q (orRollback p) c := by
  change Q (Sql.orRollback p c).1 (Sql.orRollback p c).2
  simp only [Gives] at h
  unfold Sql.orRollback
  cases hr : (p c).1 with
  | error e | ok a => simpa only [hr] using h

theorem Gives.attempt {run : Sql Db α} (hfail : c.Faulty → ∀ e, Q (.error e) c.spent)
    (hrun : Gives Q run c.spent) : Gives Q (attempt run) c := by
  unfold Gives Sql.attempt
  by_cases h : c.outcomes.headD true = true
  · rw [if_pos h]
    exact hrun
  · rw [if_neg h]
    refine hfail ?_ _
    unfold Connection.Faulty
    cases hs : c.outcomes with
    | nil =>
      rw [hs] at h
      exact absurd rfl h
    | cons b bs =>
      rw [hs, List.headD_cons, Bool.not_eq_true] at h
      rw [h]
      exact List.mem_cons_self

theorem Gives.transaction {Q : Except String Unit → Connection Db → Prop} (hnone : c.working = none)
    (hfail : c.Faulty → ∀ e, Q (.error e) c.spent)
    (hok : Q (.ok ()) ⟨c.saved, some c.saved, c.outcomes.tail⟩) : Gives Q transaction c := by
  refine .attempt hfail ?_
  simp only [Gives, show c.spent.working = none from hnone]
  exact hok

theorem Gives.commit {Q : Except String Unit → Connection Db → Prop} {db : Db}
    (hsome : c.working = some db)
    (hfail : c.Faulty → ∀ e, Q (.error e) c.spent)
    (hok : Q (.ok ()) ⟨db, none, c.outcomes.tail⟩) : Gives Q commit c := by
  refine .attempt hfail ?_
  simp only [Gives, show c.spent.working = some db from hsome]
  exact hok

end Sql

end DistributedChat.Lib
