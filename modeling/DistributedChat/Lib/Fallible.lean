import Mathlib

/-!
# Computations that may fail

Inversion of `Except` programs: when a sequence of steps and checks ends in `ok`, every step did
and every check passed. The same for a list that is read element by element.
-/

namespace DistributedChat.Lib

variable {ε α β : Type}

theorem ok_bind (a : α) (f : α → Except ε β) : (Except.ok a >>= f) = f a := rfl

theorem bind_eq_ok {x : Except ε α} {f : α → Except ε β} {b : β} :
    (x >>= f) = .ok b ↔ ∃ a, x = .ok a ∧ f a = .ok b := by
  cases x with
  | error e => exact ⟨nofun, fun ⟨_, h, _⟩ => nomatch h⟩
  | ok a => exact ⟨fun h => ⟨a, rfl, h⟩, fun ⟨_, h, h'⟩ => by cases h; exact h'⟩

theorem check_eq_ok {c : Prop} [Decidable c] {e : ε} {m : Except ε α} {a : α} :
    (if c then throw e else m) = .ok a ↔ ¬ c ∧ m = .ok a := by
  by_cases h : c
  · rw [if_pos h]
    exact ⟨nofun, fun h' => absurd h h'.1⟩
  · rw [if_neg h]
    exact ⟨fun h' => ⟨h, h'⟩, fun h' => h'.2⟩

theorem pure_eq_ok {a b : α} : (pure a : Except ε α) = .ok b ↔ a = b :=
  ⟨fun h => by cases h; rfl, fun h => by rw [h]; rfl⟩

variable {xs : List α} {ys : List β}

theorem mapM_eq_some {f : α → Option β} :
    xs.mapM f = some ys ↔ List.Forall₂ (fun x y => f x = some y) xs ys := by
  induction xs generalizing ys with
  | nil => simp [eq_comm]
  | cons x xs ih =>
    simp only [List.mapM_cons, Option.bind_eq_bind, Option.bind_eq_some_iff, Option.pure_def,
      Option.some.injEq, List.forall₂_cons_left_iff]
    constructor
    · rintro ⟨y, hy, ys', hys, rfl⟩
      exact ⟨y, ys', hy, ih.mp hys, rfl⟩
    · rintro ⟨y, ys', hy, hys, rfl⟩
      exact ⟨y, hy, ys', ih.mpr hys, rfl⟩

theorem mapM_of_mem {f : α → Option β} (h : xs.mapM f = some ys) :
    ∀ x ∈ xs, ∃ y ∈ ys, f x = some y := by
  have h := mapM_eq_some.mp h
  induction h with
  | nil => nofun
  | @cons _ y _ _ hxy _ ih =>
    intro x hx
    rcases List.mem_cons.mp hx with rfl | hx
    · exact ⟨y, List.mem_cons_self, hxy⟩
    · obtain ⟨y', hy', hxy'⟩ := ih (mapM_eq_some.mpr ‹_›) x hx
      exact ⟨y', List.mem_cons_of_mem _ hy', hxy'⟩

theorem mem_of_mapM {f : α → Option β} (h : xs.mapM f = some ys) :
    ∀ y ∈ ys, ∃ x ∈ xs, f x = some y := by
  have h := mapM_eq_some.mp h
  induction h with
  | nil => nofun
  | cons hxy _ ih =>
    intro y hy
    rcases List.mem_cons.mp hy with rfl | hy
    · exact ⟨_, List.mem_cons_self, hxy⟩
    · obtain ⟨x, hx, hxy⟩ := ih (mapM_eq_some.mpr ‹_›) y hy
      exact ⟨x, List.mem_cons_of_mem _ hx, hxy⟩

end DistributedChat.Lib
