import Mathlib

/-!
# Programs with effects

A program is a tree: it returns, or it performs an effect and goes on with the answer. What the
effects do is left to the system the program runs in. `Task` adds exceptions.

A monitor is an automaton that follows one program. In each of its states it says which effects the
program may perform and which answers it may count on. `Meets mon Q m p` says that `p`, followed
from state `m`, performs only effects the monitor allows and ends as `Q` says; it is proved along
the program text, once for each program.
-/

namespace DistributedChat.Lib

/-- A program over effects `E`, where effect `e` is answered by an `R e`. -/
inductive Prog (E : Type) (R : E → Type) (α : Type)
  | ret (a : α)
  | call (e : E) (k : R e → Prog E R α)

namespace Prog

variable {E : Type} {R : E → Type} {α β γ : Type}

def bind : Prog E R α → (α → Prog E R β) → Prog E R β
  | .ret a, f => f a
  | .call e k, f => .call e fun r => (k r).bind f

/-- Run the program to its end, each effect answered from a state. -/
def run {S : Type} (answer : (e : E) → S → Option (R e × S)) : Prog E R α → S → Option (α × S)
  | .ret a, s => some (a, s)
  | .call e k, s => (answer e s).bind fun rs => (k rs.1).run answer rs.2

/-- However its effects are answered, the program returns what `P` says. -/
def Ends (P : α → Prop) : Prog E R α → Prop
  | .ret a => P a
  | .call _ k => ∀ r, (k r).Ends P

theorem Ends.trivial {P : α → Prop} (h : ∀ a, P a) (p : Prog E R α) : p.Ends P := by
  induction p with
  | ret a => exact h a
  | call e k ih => exact ih

theorem Ends.bind {P : β → Prop} {p : Prog E R α} {f : α → Prog E R β}
    (h : p.Ends fun a => (f a).Ends P) : (p.bind f).Ends P := by
  induction p with
  | ret a => exact h
  | call e k ih => exact fun r => ih r (h r)

/-- The program may return `a`. -/
def Returns (a : α) : Prog E R α → Prop
  | .ret b => b = a
  | .call _ k => ∃ r, (k r).Returns a

theorem Ends.of_returns {P : α → Prop} {p : Prog E R α} {a : α} (h : p.Ends P) (ha : p.Returns a) :
    P a := by
  induction p with
  | ret b => exact ha ▸ h
  | call e k ih =>
    obtain ⟨r, hr⟩ := ha
    exact ih r (h r) hr

theorem run_bind {S : Type} (answer : (e : E) → S → Option (R e × S)) (p : Prog E R α)
    (f : α → Prog E R β)
    (s : S) : (p.bind f).run answer s = (p.run answer s).bind fun r => (f r.1).run answer r.2 := by
  induction p generalizing s with
  | ret a => rfl
  | call e k ih =>
    simp only [bind, run, Option.bind_assoc]
    congr 1
    funext rs
    exact ih rs.1 rs.2

section Yields

variable {S : Type} (answer : (e : E) → S → Option (R e × S))

/-- If the program ends from a state, it ends as `Q` says. -/
def Yields (Q : α → S → Prop) : Prog E R α → S → Prop
  | .ret a, s => Q a s
  | .call e k, s => ∀ r s', answer e s = some (r, s') → (k r).Yields Q s'

variable {answer} {Q : α → S → Prop} {s s' : S}

variable {p : Prog E R α}

theorem Yields.of_run {a : α} (h : p.Yields answer Q s) (hrun : p.run answer s = some (a, s')) :
    Q a s' := by
  induction p generalizing s with
  | ret b =>
    cases hrun
    exact h
  | call e k ih =>
    obtain ⟨⟨r, s₁⟩, hr, hk⟩ := Option.bind_eq_some_iff.mp hrun
    exact ih r (h r s₁ hr) hk

theorem Yields.weaken {Q' : α → S → Prop} (h : p.Yields answer Q s) (hQ : ∀ a s, Q a s → Q' a s) :
    p.Yields answer Q' s := by
  induction p generalizing s with
  | ret a => exact hQ a s h
  | call e k ih => exact fun r s' hr => ih r (h r s' hr)

theorem Yields.bind {Q : β → S → Prop} {f : α → Prog E R β}
    (h : p.Yields answer (fun a s => (f a).Yields answer Q s) s) :
    (p.bind f).Yields answer Q s := by
  induction p generalizing s with
  | ret a => exact h
  | call e k ih => exact fun r s' hr => ih r (h r s' hr)

theorem Ends.yields {P : α → Prop} (h : p.Ends P) (s : S) : p.Yields answer (fun a _ => P a) s := by
  induction p generalizing s with
  | ret a => exact h
  | call e k ih => exact fun r s' _ => ih r (h r) s'

end Yields

/-- A program run where its effects are among others. -/
def embed {E' : Type} {R' : E' → Type} (i : E → E') :
    Prog E (fun e => R' (i e)) α → Prog E' R' α
  | .ret a => .ret a
  | .call e k => .call (i e) fun r => (k r).embed i

end Prog

/-- A program that may end with an exception. -/
def Task (E : Type) (R : E → Type) (ε α : Type) := Prog E R (Except ε α)

namespace Task

variable {E : Type} {R : E → Type} {ε α β : Type}

def andThen (p : Task E R ε α) (f : α → Task E R ε β) : Task E R ε β :=
  Prog.bind p fun
    | .error e => .ret (.error e)
    | .ok a => f a

instance : Monad (Task E R ε) where
  pure a := Prog.ret (.ok a)
  bind := andThen

def throw (e : ε) : Task E R ε α := Prog.ret (.error e)

/-- Go on only if `c` holds. -/
def require (c : Prop) [Decidable c] (e : ε) : Task E R ε Unit :=
  if c then Prog.ret (.ok ()) else throw e

/-- Perform an effect and return or throw what `f` makes of its answer. -/
def perform (e : E) (f : R e → Except ε α) : Task E R ε α := Prog.call e fun r => .ret (f r)

/-- Run `p`, then `after` whatever way `p` ended, then end as `p` did: the destructor of an object
that lives around `p`. -/
def ensuring (p : Task E R ε α) (after : Task E R ε Unit) : Task E R ε α :=
  Prog.bind p fun r => Prog.bind after fun _ => .ret r

/-- Run `p`; if it throws, throw `f` of it instead. -/
def catching (p : Task E R ε α) (f : ε → ε) : Task E R ε α :=
  Prog.bind p fun
    | .error e => .ret (.error (f e))
    | .ok a => .ret (.ok a)

/-- Run `p`; if it throws, go on with `f` of what it threw. -/
def recover (p : Task E R ε α) (f : ε → Task E R ε α) : Task E R ε α :=
  Prog.bind p fun
    | .error e => f e
    | .ok a => .ret (.ok a)

/-- A program without effects. -/
def Silent (p : Task E R ε α) : Prop := ∃ r, p = Prog.ret r

theorem Silent.andThen {p : Task E R ε α} {f : α → Task E R ε β} (hp : Silent p)
    (hf : ∀ a, Silent (f a)) : Silent (p >>= f : Task E R ε β) := by
  obtain ⟨r, rfl⟩ := hp
  cases r with
  | error e => exact ⟨.error e, rfl⟩
  | ok a => exact hf a

theorem silent_require (c : Prop) [Decidable c] (e : ε) :
    Silent (require c e : Task E R ε Unit) := by
  by_cases h : c
  · exact ⟨_, if_pos h⟩
  · exact ⟨_, if_neg h⟩

theorem ends_andThen {P : Except ε β → Prop} {p : Task E R ε α} {f : α → Task E R ε β}
    (herror : ∀ e, P (.error e)) (h : ∀ a, Prog.Ends P (f a)) :
    Prog.Ends P (p >>= f : Task E R ε β) := by
  refine Prog.Ends.bind (Prog.Ends.trivial (fun r => ?_) p)
  cases r with
  | error e => exact herror e
  | ok a => exact h a

section Run

variable {S : Type} {answer : (e : E) → S → Option (R e × S)} {s s' s'' : S} {p : Task E R ε α}
  {a : α}

theorem run_andThen {f : α → Task E R ε β} (h : Prog.run answer p s = some (.ok a, s')) :
    Prog.run answer (p >>= f : Task E R ε β) s = Prog.run answer (f a) s' := by
  refine (Prog.run_bind answer p _ s).trans ?_
  rw [h]
  rfl

theorem run_ensuring {after : Task E R ε Unit} {r : Except ε α} {u : Except ε Unit}
    (h : Prog.run answer p s = some (r, s')) (hafter : Prog.run answer after s' = some (u, s'')) :
    Prog.run answer (ensuring p after) s = some (r, s'') := by
  refine (Prog.run_bind answer p _ s).trans ?_
  rw [h]
  refine (Prog.run_bind answer after _ s').trans ?_
  rw [hafter]
  rfl

theorem run_recover {f : ε → Task E R ε α} (h : Prog.run answer p s = some (.ok a, s')) :
    Prog.run answer (recover p f) s = some (.ok a, s') := by
  refine (Prog.run_bind answer p _ s).trans ?_
  rw [h]
  rfl

theorem run_andThen_unit {p : Task E R ε Unit} :
    Prog.run answer (p >>= fun _ => pure () : Task E R ε Unit) s = Prog.run answer p s := by
  refine (Prog.run_bind answer p _ s).trans ?_
  cases Prog.run answer p s with
  | none => rfl
  | some r =>
    obtain ⟨a, s'⟩ := r
    cases a <;> rfl

end Run

section Yields

variable {S : Type} {answer : (e : E) → S → Option (R e × S)} {s : S} {p : Task E R ε α}

theorem yields_andThen {Q : Except ε β → S → Prop} {f : α → Task E R ε β}
    (h : Prog.Yields answer (fun r s =>
      match r with
      | .error e => Q (.error e) s
      | .ok a => Prog.Yields answer Q (f a) s) p s) :
    Prog.Yields answer Q (p >>= f : Task E R ε β) s := by
  refine Prog.Yields.bind (h.weaken fun r s hr => ?_)
  cases r with
  | error e | ok a => exact hr

theorem yields_recover {Q : Except ε α → S → Prop} {f : ε → Task E R ε α}
    (h :
      Prog.Yields answer
        (fun r s => match r with | .error e => Prog.Yields answer Q (f e) s | .ok a => Q (.ok a) s)
        p s) :
    Prog.Yields answer Q (recover p f) s := by
  refine Prog.Yields.bind (h.weaken fun r s hr => ?_)
  cases r with
  | error e | ok a => exact hr

theorem yields_ensuring {Q : Except ε α → S → Prop} {after : Task E R ε Unit}
    (h : Prog.Yields answer (fun r s => Prog.Yields answer (fun _ s' => Q r s') after s) p s) :
    Prog.Yields answer Q (ensuring p after) s :=
  Prog.Yields.bind (h.weaken fun _ _ hr => Prog.Yields.bind hr)

end Yields

end Task

/-! ## Monitors -/

/-- An automaton that follows a program. -/
structure Monitor (E : Type) (R : E → Type) where
  Ghost : Type
  /-- The effects a program may perform. -/
  allow : Ghost → E → Prop
  /-- The answers a program may be given. -/
  answer : Ghost → (e : E) → R e → Prop
  next : Ghost → (e : E) → R e → Ghost
  /-- The states in which a program may end. -/
  final : Ghost → Prop := fun _ => True

section Meets

variable {E : Type} {R : E → Type} {ε α β : Type} (mon : Monitor E R)

/-- `p` keeps to the monitor from `m` on and ends in a monitor state and with a value as `Q` says.
-/
def Meets (Q : mon.Ghost → α → Prop) : mon.Ghost → Prog E R α → Prop
  | m, .ret a => Q m a
  | m, .call e k => mon.allow m e ∧ ∀ r, mon.answer m e r → Meets Q (mon.next m e r) (k r)

variable {mon} {Q : mon.Ghost → α → Prop} {m : mon.Ghost}

theorem Meets.weaken {Q' : mon.Ghost → α → Prop} {p : Prog E R α} (h : Meets mon Q m p)
    (hQ : ∀ m a, Q m a → Q' m a) : Meets mon Q' m p := by
  induction p generalizing m with
  | ret a => exact hQ m a h
  | call e k ih => exact ⟨h.1, fun r hr => ih r (h.2 r hr)⟩

theorem Meets.bind {Q : mon.Ghost → β → Prop} {p : Prog E R α} {f : α → Prog E R β}
    (h : Meets mon (fun m a => Meets mon Q m (f a)) m p) : Meets mon Q m (p.bind f) := by
  induction p generalizing m with
  | ret a => exact h
  | call e k ih => exact ⟨h.1, fun r hr => ih r (h.2 r hr)⟩

/-- A sequence: the first part leaves the second to its own proof; an exception ends it. -/
theorem Meets.andThen {Q : mon.Ghost → Except ε β → Prop} {p : Task E R ε α} {f : α → Task E R ε β}
    (h : Meets mon
      (fun m r => match r with | .error e => Q m (.error e) | .ok a => Meets mon Q m (f a)) m p) :
    Meets mon Q m (p >>= f : Task E R ε β) := by
  refine Meets.bind (h.weaken fun m r hr => ?_)
  cases r with
  | error e | ok a => exact hr

theorem Meets.pure {Q : mon.Ghost → Except ε α → Prop} {a : α} (h : Q m (.ok a)) :
    Meets mon Q m (pure a : Task E R ε α) := h

theorem Meets.throw {Q : mon.Ghost → Except ε α → Prop} {e : ε} (h : Q m (.error e)) :
    Meets mon Q m (Task.throw e : Task E R ε α) := h

theorem Meets.silent {Q : mon.Ghost → Except ε α → Prop} {p : Task E R ε α} (hp : p.Silent)
    (h : ∀ r, Q m r) : Meets mon Q m p := by
  obtain ⟨r, rfl⟩ := hp
  exact h r

theorem Meets.require {Q : mon.Ghost → Except ε β → Prop} {c : Prop} [Decidable c] {e : ε}
    {f : Unit → Task E R ε β} (herror : ¬ c → Q m (.error e)) (hok : c → Meets mon Q m (f ())) :
    Meets mon Q m (Task.require c e >>= f : Task E R ε β) := by
  refine Meets.andThen ?_
  by_cases hc : c
  · rw [show (Task.require c e : Task E R ε Unit) = Prog.ret (.ok ()) from if_pos hc]
    exact hok hc
  · rw [show (Task.require c e : Task E R ε Unit) = Task.throw e from if_neg hc]
    exact herror hc

theorem Meets.perform {Q : mon.Ghost → Except ε β → Prop} {e : E} {g : R e → Except ε α}
    {f : α → Task E R ε β}
    (hallow : mon.allow m e)
    (hnext : ∀ r, mon.answer m e r →
      match g r with
      | .error x => Q (mon.next m e r) (.error x)
      | .ok a => Meets mon Q (mon.next m e r) (f a)) :
    Meets mon Q m (Task.perform e g >>= f : Task E R ε β) := by
  refine Meets.andThen ⟨hallow, fun r hr => ?_⟩
  exact hnext r hr

theorem Meets.ensuring {Q : mon.Ghost → Except ε α → Prop} {p : Task E R ε α}
    {after : Task E R ε Unit}
    (h : Meets mon (fun m r => Meets mon (fun m' _ => Q m' r) m after) m p) :
    Meets mon Q m (Task.ensuring p after) :=
  Meets.bind (h.weaken fun _ _ hr => Meets.bind hr)

theorem Meets.catching {Q : mon.Ghost → Except ε α → Prop} {p : Task E R ε α} {g : ε → ε}
    (h : Meets mon (fun m r => Q m (r.mapError g)) m p) : Meets mon Q m (Task.catching p g) := by
  refine Meets.bind (h.weaken fun m r hr => ?_)
  cases r with
  | error e | ok a => exact hr

theorem Meets.recover {Q : mon.Ghost → Except ε α → Prop} {p : Task E R ε α} {f : ε → Task E R ε α}
    (h : Meets mon
      (fun m r => match r with | .error e => Meets mon Q m (f e) | .ok a => Q m (.ok a)) m p) :
    Meets mon Q m (Task.recover p f) := by
  refine Meets.bind (h.weaken fun m r hr => ?_)
  cases r with
  | error e | ok a => exact hr

end Meets

section Exec

variable {E : Type} {R : E → Type} {α : Type}

/-- A run of a program to its end in which every effect is answered as the monitor says: the monitor
is what the program runs in. -/
inductive Monitor.Exec (mon : Monitor E R) : mon.Ghost → Prog E R α → mon.Ghost → α → Prop
  | ret {m : mon.Ghost} {a : α} : mon.Exec m (.ret a) m a
  | call {m m' : mon.Ghost} {e : E} {k : R e → Prog E R α} {r : R e} {a : α} (hr : mon.answer m e r)
      (h : mon.Exec (mon.next m e r) (k r) m' a) : mon.Exec m (.call e k) m' a

theorem Meets.exec {mon : Monitor E R} {Q : mon.Ghost → α → Prop} {m m' : mon.Ghost}
    {p : Prog E R α} {a : α}
    (h : Meets mon Q m p) (hrun : mon.Exec m p m' a) : Q m' a := by
  induction hrun with
  | ret => exact h
  | call hr _ ih => exact ih (h.2 _ hr)

end Exec

section Embed

variable {E E' : Type} {R' : E' → Type} {α : Type} {mon : Monitor E' R'} {i : E → E'}

/-- What a monitor of all effects says about some of them. -/
def Monitor.pull (mon : Monitor E' R') (i : E → E') : Monitor E fun e => R' (i e) where
  Ghost := mon.Ghost
  allow m e := mon.allow m (i e)
  answer m e r := mon.answer m (i e) r
  next m e r := mon.next m (i e) r
  final := mon.final

theorem Meets.embed {Q : mon.Ghost → α → Prop} {m : mon.Ghost} {p : Prog E (fun e => R' (i e)) α}
    (h : Meets (mon.pull i) Q m p) : Meets mon Q m (p.embed i) := by
  induction p generalizing m with
  | ret a => exact h
  | call e k ih => exact ⟨h.1, fun r hr => ih r (h.2 r hr)⟩

end Embed

end DistributedChat.Lib
