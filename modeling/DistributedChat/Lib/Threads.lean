import DistributedChat.Lib.Prog

/-!
# Threads over shared state

Programs run as threads that share a state and take turns at every effect. A thread may stop, a set
of threads may be lost at once, a new one may be started, and the environment moves the state on its
own.

`reachable_invariant` is the rule for safety: give each running thread a monitor state, and show
that an assertion about the shared state and all monitor states survives every effect that the
monitor allows. The programs enter only through `Meets`. `play` runs a schedule, for systems whose
effects can be evaluated.
-/

namespace DistributedChat.Lib

open Function

/-- A system of threads `T` that run programs over the effects `E` on a shared state `S`. -/
structure System (T E : Type) (R : E → Type) (α S : Type) where
  init : S → Prop
  /-- Thread `t` performs an effect, is answered, and leaves a state. -/
  exec : T → (e : E) → S → R e → S → Prop
  /-- The programs that may be started. -/
  start : T → S → Prog E R α → Prop
  /-- A thread ends, or is stopped with the rest of its program undone. -/
  stop : T → Prog E R α → S → S → Prop
  /-- The threads of a set are lost at once. -/
  crash : (T → Bool) → S → S → Prop := fun _ _ _ => False
  env : S → S → Prop

structure Config (T E : Type) (R : E → Type) (α S : Type) where
  shared : S
  threads : T → Option (Prog E R α)

section Threads

variable {T E : Type} {R : E → Type} {α S : Type} [DecidableEq T]

inductive Step (sys : System T E R α S) : Config T E R α S → Config T E R α S → Prop
  | env {c : Config T E R α S} {s' : S} (h : sys.env c.shared s') :
      Step sys c { c with shared := s' }
  | start {c : Config T E R α S} {t : T} {p : Prog E R α} (free : c.threads t = none)
      (h : sys.start t c.shared p) :
      Step sys c { c with threads := update c.threads t (some p) }
  | call {c : Config T E R α S} {t : T} {e : E} {k : R e → Prog E R α} {r : R e} {s' : S}
      (running : c.threads t = some (.call e k)) (h : sys.exec t e c.shared r s') :
      Step sys c ⟨s', update c.threads t (some (k r))⟩
  | stop {c : Config T E R α S} {t : T} {p : Prog E R α} {s' : S}
      (running : c.threads t = some p) (h : sys.stop t p c.shared s') :
      Step sys c ⟨s', update c.threads t none⟩
  | crash {c : Config T E R α S} {K : T → Bool} {s' : S} (h : sys.crash K c.shared s') :
      Step sys c ⟨s', fun t => if K t then none else c.threads t⟩

theorem update_cases {f : T → S} {t t' : T} {x y : S} (h : update f t x t' = y) :
    t' = t ∧ x = y ∨ t' ≠ t ∧ f t' = y := by
  by_cases ht : t' = t
  · subst ht
    rw [update_self] at h
    exact Or.inl ⟨rfl, h⟩
  · rw [update_of_ne ht] at h
    exact Or.inr ⟨ht, h⟩

section Updated

variable {P : T → S → Prop} {f : T → Option S} {t : T} {x : S}

theorem forall_set (hx : P t x) (hf : ∀ t' y, t' ≠ t → f t' = some y → P t' y) (t' : T) (y : S)
    (h : update f t (some x) t' = some y) : P t' y := by
  rcases update_cases h with ⟨rfl, hnew⟩ | ⟨hne, h⟩
  · exact Option.some.inj hnew ▸ hx
  · exact hf t' y hne h

theorem forall_erased (hf : ∀ t' y, f t' = some y → P t' y) (t' : T) (y : S)
    (h : update f t none t' = some y) : P t' y := by
  rcases update_cases h with ⟨-, hnew⟩ | ⟨-, h⟩
  · cases hnew
  · exact hf t' y h

theorem forall_unset {Q : T → Prop} (hf : ∀ t', t' ≠ t → f t' = none → Q t') (t' : T)
    (h : update f t (some x) t' = none) : Q t' := by
  rcases update_cases h with ⟨-, hnew⟩ | ⟨hne, h⟩
  · cases hnew
  · exact hf t' hne h

end Updated

/-- The configurations of all runs. -/
inductive Reachable (sys : System T E R α S) : Config T E R α S → Prop
  | init {s : S} (h : sys.init s) : Reachable sys ⟨s, fun _ => none⟩
  | step {c c' : Config T E R α S} (hc : Reachable sys c) (h : Step sys c c') : Reachable sys c'

/-- Thread `t` performs an effect. -/
def Moves (sys : System T E R α S) (t : T) (c c' : Config T E R α S) : Prop :=
  ∃ e k r s', c.threads t = some (.call e k) ∧ sys.exec t e c.shared r s' ∧
    c' = ⟨s', update c.threads t (some (k r))⟩

variable {sys : System T E R α S} {c : Config T E R α S}

theorem Reachable.began {P : Config T E R α S → Prop}
    (hinit : ∀ s, sys.init s → ¬ P ⟨s, fun _ => none⟩)
    (hc : Reachable sys c) (h : P c) :
    ∃ c₁ c₂, Reachable sys c₁ ∧ Step sys c₁ c₂ ∧ ¬ P c₁ ∧ P c₂ ∧ Relation.ReflTransGen
    (Step sys) c₂ c := by
  induction hc with
  | init hs => exact absurd h (hinit _ hs)
  | @step c c' hc hstep ih =>
    by_cases hP : P c
    · obtain ⟨c₁, c₂, h₁, h₁₂, hnot, hP₂, hrest⟩ := ih hP
      exact ⟨c₁, c₂, h₁, h₁₂, hnot, hP₂, hrest.tail hstep⟩
    · exact ⟨c, c', hc, hstep, hP, h, .refl⟩

/-! ## One thread alone -/

/-- A run of one thread alone leads to the state `s` with `p` still to run. -/
def Solo (sys : System T E R α S) (t : T) (s : S) (p : Prog E R α) : Prop :=
  Reachable sys ⟨s, update (fun _ => none) t (some p)⟩

variable {t : T} {s : S}

theorem Solo.begin {p : Prog E R α} (hs : Reachable sys ⟨s, fun _ => none⟩) (hp : sys.start t s p) :
    Solo sys t s p :=
  .step hs (.start rfl hp)

theorem Solo.start {p : Prog E R α} (hs : sys.init s) (hp : sys.start t s p) : Solo sys t s p :=
  .begin (.init hs) hp

variable {s' : S}

theorem Solo.call {p : Prog E R α} {e : E} {k : R e → Prog E R α} {r : R e} (h : Solo sys t s p)
    (hp : p = .call e k) (hexec : sys.exec t e s r s') : Solo sys t s' (k r) := by
  subst hp
  have hrunning : update (fun _ => none) t (some (Prog.call e k)) t = some (Prog.call e k) :=
    update_self ..
  have hstep := Reachable.step h (Step.call hrunning hexec)
  simp only [update_idem] at hstep
  exact hstep

theorem Solo.run {β : Type} {p : Prog E R β} {f : β → Prog E R α}
    {answer : (e : E) → S → Option (R e × S)}
    {b : β} (hanswer : ∀ e s r s', answer e s = some (r, s') → sys.exec t e s r s')
    (h : Solo sys t s (p.bind f)) (hrun : p.run answer s = some (b, s')) : Solo sys t s' (f b) := by
  induction p generalizing s with
  | ret a =>
    cases hrun
    exact h
  | call e k ih =>
    obtain ⟨⟨r, s₁⟩, hr, hk⟩ := Option.bind_eq_some_iff.mp hrun
    exact ih r (Solo.call h rfl (hanswer e s r s₁ hr)) hk

theorem Solo.finish {p : Prog E R α} (h : Solo sys t s p) (hstop : sys.stop t p s s') :
    Reachable sys ⟨s', fun _ => none⟩ := by
  have hrunning : update (fun _ => none) t (some p) t = some p := update_self ..
  have hstep := Reachable.step h (Step.stop hrunning hstop)
  simp only [update_idem] at hstep
  rwa [update_eq_self_iff.mpr rfl] at hstep

/-! ## Schedules -/

/-- A move of a schedule: `L` names the programs to start, `P` what is left open in an effect. -/
inductive Move (T L P : Type)
  | start (l : L)
  | call (t : T) (pick : P)
  | finish (t : T)

section Play

variable {L P : Type} (launch : L → S → Option (T × Prog E R α))
  (perform : T → (e : E) → P → S → Option (R e × S))

/-- One move, if it is possible. -/
def move (c : Config T E R α S) : Move T L P → Option (Config T E R α S)
  | .start l =>
    match launch l c.shared with
    | none => none
    | some (t, p) =>
      if (c.threads t).isNone then
        some { c with threads := update c.threads t (some p) }
      else none
  | .call t pick =>
    match c.threads t with
    | some (.call e k) =>
      (perform t e pick c.shared).map fun rs =>
        ⟨rs.2, update c.threads t (some (k rs.1))⟩
    | _ => none
  | .finish t =>
    match c.threads t with
    | some (.ret _) => some { c with threads := update c.threads t none }
    | _ => none

/-- The moves of a schedule in turn. -/
def play (c : Config T E R α S) : List (Move T L P) → Option (Config T E R α S)
  | [] => some c
  | m :: ms => (move launch perform c m).bind fun c' => play c' ms

/-- A system a schedule can be played on. -/
structure Playable (sys : System T E R α S) : Prop where
  launch : ∀ l s t p, launch l s = some (t, p) → sys.start t s p
  perform : ∀ t e pick s r s', perform t e pick s = some (r, s') → sys.exec t e s r s'
  finish : ∀ t a s, sys.stop t (.ret a) s s

variable {launch perform} {sys : System T E R α S}

variable {c c' : Config T E R α S}

theorem Playable.move (h : Playable launch perform sys) {m : Move T L P}
    (hm : Lib.move launch perform c m = some c') : Step sys c c' := by
  cases m with
  | start l =>
    simp only [Lib.move] at hm
    split at hm
    · cases hm
    · rename_i t p hl
      split at hm
      · rename_i hfree
        cases hm
        exact .start (Option.isNone_iff_eq_none.mp hfree) (h.launch l _ t p hl)
      · cases hm
  | call t pick =>
    simp only [Lib.move] at hm
    split at hm
    · rename_i e k hrunning
      obtain ⟨⟨r, s'⟩, hr, rfl⟩ := Option.map_eq_some_iff.mp hm
      exact .call hrunning (h.perform t e pick _ r s' hr)
    · cases hm
  | finish t =>
    simp only [Lib.move] at hm
    split at hm
    · rename_i a hrunning
      cases hm
      exact .stop hrunning (h.finish t a _)
    · cases hm

theorem Playable.play (h : Playable launch perform sys) (hc : Reachable sys c)
    {ms : List (Move T L P)}
    (hplay : Lib.play launch perform c ms = some c') : Reachable sys c' := by
  induction ms generalizing c with
  | nil => exact Option.some.inj hplay ▸ hc
  | cons m ms ih =>
    obtain ⟨c₁, hm, hrest⟩ := Option.bind_eq_some_iff.mp hplay
    exact ih (.step hc (h.move hm)) hrest

end Play

/-! ## The invariant rule -/

/-- An assertion about the shared state and the monitor states of the running threads that survives
everything threads that keep to the monitor can do. -/
structure Inductive (sys : System T E R α S) (mon : Monitor E R)
    (J : S → (T → Option mon.Ghost) → Prop) : Prop where
  init : ∀ s, sys.init s → J s fun _ => none
  env : ∀ s s' g, J s g → sys.env s s' → J s' g
  start : ∀ s g t p, J s g → g t = none → sys.start t s p →
    ∃ m, Meets mon (fun m _ => mon.final m) m p ∧ J s (update g t (some m))
  call : ∀ s s' g t m e r, J s g → g t = some m → mon.allow m e → sys.exec t e s r s' →
    mon.answer m e r ∧ J s' (update g t (some (mon.next m e r)))
  stop : ∀ s s' g t m p, J s g → g t = some m → Meets mon (fun m _ => mon.final m) m p →
    sys.stop t p s s' → J s' (update g t none)
  crash : ∀ s s' g K, J s g → sys.crash K s s' → J s' fun t => if K t then none else g t

/-- The monitor states follow the running programs. -/
def Follows (mon : Monitor E R) (threads : T → Option (Prog E R α)) (g : T → Option mon.Ghost) :
    Prop :=
  ∀ t, (threads t = none ∧ g t = none) ∨
    ∃ p m, threads t = some p ∧ g t = some m ∧ Meets mon (fun m _ => mon.final m) m p

variable {mon : Monitor E R}

theorem Follows.update {threads : T → Option (Prog E R α)} {g : T → Option mon.Ghost}
    (h : Follows mon threads g) (t : T) {p : Option (Prog E R α)} {m : Option mon.Ghost}
    (hnew : (p = none ∧ m = none) ∨ ∃ p' m', p = some p' ∧ m = some m' ∧
      Meets mon (fun m _ => mon.final m) m' p') :
    Follows mon (update threads t p) (update g t m) := by
  intro t'
  by_cases heq : t' = t
  · subst heq
    rw [update_self, update_self]
    exact hnew
  · rw [update_of_ne heq, update_of_ne heq]
    exact h t'

omit [DecidableEq T] in
theorem Follows.running {threads : T → Option (Prog E R α)} {g : T → Option mon.Ghost}
    (h : Follows mon threads g)
    {p : Prog E R α} (ht : threads t = some p) :
    ∃ m, g t = some m ∧ Meets mon (fun m _ => mon.final m) m p := by
  rcases h t with ⟨hnone, -⟩ | ⟨p', m, hp, hm, hmeets⟩
  · rw [ht] at hnone
    cases hnone
  · obtain rfl : p = p' := Option.some.inj (ht.symm.trans hp)
    exact ⟨m, hm, hmeets⟩

/-- **The invariant rule.** -/
theorem reachable_invariant {J : S → (T → Option mon.Ghost) → Prop} (hJ : Inductive sys mon J)
    (hc : Reachable sys c) : ∃ g, J c.shared g ∧ Follows mon c.threads g := by
  induction hc with
  | @init s h => exact ⟨fun _ => none, hJ.init s h, fun _ => Or.inl ⟨rfl, rfl⟩⟩
  | @step c c' hc h ih =>
    obtain ⟨g, hs, hg⟩ := ih
    cases h with
    | env h => exact ⟨g, hJ.env _ _ g hs h, hg⟩
    | @start t p free h =>
      have hfree : g t = none := by
        rcases hg t with ⟨-, h⟩ | ⟨p', m, hp, -⟩
        · exact h
        · rw [free] at hp
          cases hp
      obtain ⟨m, hm, hs'⟩ := hJ.start _ g t p hs hfree h
      exact ⟨_, hs', hg.update t (Or.inr ⟨p, m, rfl, rfl, hm⟩)⟩
    | @call t e k r s' running h =>
      obtain ⟨m, hm, hmeets⟩ := hg.running running
      obtain ⟨hanswer, hs'⟩ := hJ.call _ s' g t m e r hs hm hmeets.1 h
      exact ⟨_, hs', hg.update t (Or.inr ⟨_, _, rfl, rfl, hmeets.2 r hanswer⟩)⟩
    | @stop t p s' running h =>
      obtain ⟨m, hm, hmeets⟩ := hg.running running
      exact ⟨_, hJ.stop _ s' g t m p hs hm hmeets h, hg.update t (Or.inl ⟨rfl, rfl⟩)⟩
    | @crash K s' h =>
      refine ⟨_, hJ.crash _ s' g K hs h, fun t => ?_⟩
      by_cases hK : K t = true
      · exact Or.inl ⟨if_pos hK, if_pos hK⟩
      · rcases hg t with ⟨hp, hm⟩ | ⟨p, m, hp, hm, hmeets⟩
        · exact Or.inl ⟨(if_neg hK).trans hp, (if_neg hK).trans hm⟩
        · exact Or.inr ⟨p, m, (if_neg hK).trans hp, (if_neg hK).trans hm, hmeets⟩

theorem reachable_call {J : S → (T → Option mon.Ghost) → Prop} (hJ : Inductive sys mon J)
    (hc : Reachable sys c)
    {e : E} {k : R e → Prog E R α} (ht : c.threads t = some (.call e k)) :
    ∃ g m, J c.shared g ∧ g t = some m ∧ mon.allow m e := by
  obtain ⟨g, hg, hfollows⟩ := reachable_invariant hJ hc
  obtain ⟨m, hm, hmeets⟩ := hfollows.running ht
  exact ⟨g, m, hg, hm, hmeets.1⟩

end Threads

end DistributedChat.Lib
