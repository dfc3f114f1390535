import DistributedChat.Lib.Threads

/-!
# Data behind mutexes

Every mutex `i` guards a value. The thread that holds it knows the value, since no other thread can
change it, and puts it in order before it lets go. `Guarded` is that discipline as an assertion about
the mutexes and what the threads know; there is one lemma for each thing a thread can do.
-/

namespace DistributedChat.Lib

open Function

/-- Mutexes `I`, the threads `T` that hold them and the values they guard. -/
structure Mutexes (T I D : Type) where
  owner : I → Option T
  data : I → D

namespace Mutexes

variable {T I D : Type} [DecidableEq I]

def lock (m : Mutexes T I D) (t : T) (i : I) : Mutexes T I D :=
  { m with owner := update m.owner i (some t) }

def unlock (m : Mutexes T I D) (i : I) : Mutexes T I D :=
  { m with owner := update m.owner i none }

def write (m : Mutexes T I D) (i : I) (d : D) : Mutexes T I D :=
  { m with data := update m.data i d }

end Mutexes

/-- A value behind a free mutex is in order, and a mutex that is not free is held by one thread, which
knows the value. -/
structure Guarded {T I D : Type} (inOrder : D → Prop) (m : Mutexes T I D)
    (view : T → Option (I × D)) : Prop where
  free : ∀ i, m.owner i = none → inOrder (m.data i)
  held : ∀ t i d, view t = some (i, d) → m.owner i = some t ∧ m.data i = d

namespace Guarded

variable {T I D : Type} [DecidableEq T] [DecidableEq I] {inOrder : D → Prop} {m : Mutexes T I D}
  {view : T → Option (I × D)}

variable {t : T} {i : I}

theorem lock (h : Guarded inOrder m view) (hfree : m.owner i = none) :
    Guarded inOrder (m.lock t i) (update view t (some (i, m.data i))) := by
  refine ⟨fun j hj => ?_, fun t' j d hview => ?_⟩
  · by_cases hji : j = i
    · subst hji
      simp only [Mutexes.lock, update_self, reduceCtorEq] at hj
    · simp only [Mutexes.lock, update_of_ne hji] at hj
      exact h.free j hj
  · rcases update_cases hview with ⟨rfl, hnew⟩ | ⟨-, hview⟩
    · cases hnew
      exact ⟨update_self .., rfl⟩
    · obtain ⟨howner, hdata⟩ := h.held t' j d hview
      have hji : j ≠ i := by
        rintro rfl
        simp only [hfree, reduceCtorEq] at howner
      exact ⟨(update_of_ne hji ..).trans howner, hdata⟩

theorem unlock (h : Guarded inOrder m view) {d : D} (ht : view t = some (i, d)) (hd : inOrder d) :
    Guarded inOrder (m.unlock i) (update view t none) := by
  obtain ⟨howner, hdata⟩ := h.held t i d ht
  refine ⟨fun j hj => ?_, fun t' j d' hview => ?_⟩
  · by_cases hji : j = i
    · subst hji
      exact hdata ▸ hd
    · simp only [Mutexes.unlock, update_of_ne hji] at hj
      exact h.free j hj
  · rcases update_cases hview with ⟨-, hnew⟩ | ⟨htt, hview⟩
    · cases hnew
    · obtain ⟨howner', hdata'⟩ := h.held t' j d' hview
      have hji : j ≠ i := by
        rintro rfl
        exact htt (Option.some.inj (howner'.symm.trans howner))
      exact ⟨(update_of_ne hji ..).trans howner', hdata'⟩

theorem write (h : Guarded inOrder m view) {d d' : D} (ht : view t = some (i, d)) :
    Guarded inOrder (m.write i d') (update view t (some (i, d'))) := by
  obtain ⟨howner, -⟩ := h.held t i d ht
  refine ⟨fun j hj => ?_, fun t' j e hview => ?_⟩
  · have hji : j ≠ i := by
      rintro rfl
      simp only [Mutexes.write, howner, reduceCtorEq] at hj
    simp only [Mutexes.write, update_of_ne hji]
    exact h.free j hj
  · rcases update_cases hview with ⟨rfl, hnew⟩ | ⟨htt, hview⟩
    · cases hnew
      exact ⟨howner, update_self ..⟩
    · obtain ⟨howner', hdata'⟩ := h.held t' j e hview
      have hji : j ≠ i := by
        rintro rfl
        exact htt (Option.some.inj (howner'.symm.trans howner))
      exact ⟨howner', (update_of_ne hji ..).trans hdata'⟩

end Guarded

end DistributedChat.Lib
