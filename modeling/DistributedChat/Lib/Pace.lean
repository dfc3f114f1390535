import Mathlib

/-!
# Growing pauses

The times of repeated attempts, the first one first, with a pause after each that depends on how
many there have been.
-/

namespace DistributedChat.Lib

variable {α : Type} [Add α] [LE α] {pause : ℕ → α} {times : List α} {now : α}

/-- Each time is later than the one before by the pause. -/
def Spaced (pause : ℕ → α) (times : List α) : Prop :=
  ∀ n a b, times[n]? = some a → times[n + 1]? = some b → a + pause n ≤ b

theorem Spaced.nil (pause : ℕ → α) : Spaced pause [] := by
  intro n a b ha
  cases ha

/-- An attempt that waits for the pause after the last one keeps all of them. -/
theorem Spaced.concat (h : Spaced pause times)
    (hlast : ∀ t, times.getLast? = some t → t + pause (times.length - 1) ≤ now) :
    Spaced pause (times ++ [now]) := by
  intro n a b ha hb
  have hlt : n + 1 < (times ++ [now]).length := (List.getElem?_eq_some_iff.mp hb).1
  rw [List.length_append, List.length_singleton] at hlt
  rw [List.getElem?_append_left (by omega)] at ha
  by_cases hold : n + 1 < times.length
  · rw [List.getElem?_append_left hold] at hb
    exact h n a b ha hb
  · -- the last two
    obtain rfl : n = times.length - 1 := by omega
    have hnow : (times ++ [now])[times.length]? = some now := List.getElem?_concat_length
    rw [show times.length - 1 + 1 = times.length by omega, hnow] at hb
    cases hb
    exact hlast a (List.getLast?_eq_getElem? ▸ ha)

end DistributedChat.Lib
