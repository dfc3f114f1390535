import Mathlib

/-!
# Fixed windows

A counter starts at a first event and restarts at the first event after a fixed time `w`; up to `l`
of the events it counts are admitted. An interval of length `w` can lie across a restart but not
across two, so it holds at most `2 * l` admitted events (`FixedWindow.within_le`).
-/

namespace DistributedChat.Lib

/-- The number of times from `a` to `a + w`, both included. -/
def within (a w : ℕ) (ts : List ℕ) : ℕ := ts.countP fun t => a ≤ t ∧ t ≤ a + w

theorem within_append (a w : ℕ) (ts ts' : List ℕ) :
    within a w (ts ++ ts') = within a w ts + within a w ts' :=
  List.countP_append

theorem within_le_length (a w : ℕ) (ts : List ℕ) :
    within a w ts ≤ ts.length := List.countP_le_length

theorem within_eq_zero {a w : ℕ} {ts : List ℕ} (h : ∀ t ∈ ts, t < a ∨ a + w < t) :
    within a w ts = 0 := by
  unfold within
  rw [List.countP_eq_zero]
  intro t ht hin
  have hin := of_decide_eq_true hin
  have := h t ht
  omega

/-- The counter started at `g` and stands at `n`; the admitted times are `ts`. Those before the last
window ended more than `w` before `g`. -/
structure FixedWindow (w l g n : ℕ) (ts : List ℕ) : Prop where
  within_le : ∀ a, within a w ts ≤ 2 * l
  windows : ∃ older last cur, ts = older ++ last ++ cur ∧ last.length ≤ l ∧ cur.length ≤ l ∧
    cur.length ≤ n ∧ (∀ t ∈ older, t + w < g) ∧ (∀ t ∈ last, t < g) ∧ ∀ t ∈ cur, g ≤ t ∧ t < g + w

namespace FixedWindow

variable {w l g n : ℕ} {ts : List ℕ}

theorem first : FixedWindow w l g n [] where
  within_le _ := Nat.zero_le _
  windows := ⟨[], [], [], rfl, Nat.zero_le _, Nat.zero_le _, Nat.zero_le _, nofun, nofun, nofun⟩

theorem skip (h : FixedWindow w l g n ts) : FixedWindow w l g (n + 1) ts := by
  obtain ⟨hle, older, last, cur, hts, hlast, hcur, hn, hrest⟩ := h
  exact ⟨hle, older, last, cur, hts, hlast, hcur, Nat.le_succ_of_le hn, hrest⟩

theorem step (h : FixedWindow w l g n ts) {t : ℕ} (hn : n < l) (hg : g ≤ t) (ht : t < g + w) :
    FixedWindow w l g (n + 1) (ts ++ [t]) := by
  obtain ⟨hle, older, last, cur, rfl, hlast, hcur, hcount, holder, hbefore, hin⟩ := h
  have hcur' : ∀ t' ∈ cur ++ [t], g ≤ t' ∧ t' < g + w :=
    List.forall_mem_append.mpr ⟨hin, List.forall_mem_singleton.mpr ⟨hg, ht⟩⟩
  have hlength : (cur ++ [t]).length = cur.length + 1 := List.length_append
  refine ⟨fun a => ?_, older, last, cur ++ [t], (List.append_assoc ..), hlast,
    by omega, by omega, holder,
    hbefore, hcur'⟩
  -- An interval that holds an older time ends before the window starts.
  by_cases ha : a + w < g
  · have hzero : within a w [t] = 0 := within_eq_zero (by simp; omega)
    rw [within_append, hzero]
    exact hle a
  · have hzero : within a w older = 0 := within_eq_zero fun t' ht' => by
      have := holder t' ht'
      omega
    have hlast' := within_le_length a w last
    have hnow' := within_le_length a w (cur ++ [t])
    rw [List.append_assoc, within_append, within_append, hzero]
    omega

theorem restart (h : FixedWindow w l g n ts) {g' : ℕ} (hg : g + w ≤ g') :
    FixedWindow w l g' 0 ts := by
  obtain ⟨hle, older, last, cur, rfl, hlast, hcur, hcount, holder, hbefore, hin⟩ := h
  refine ⟨hle, older ++ last, cur, [], (List.append_nil _).symm, hcur, Nat.zero_le _,
    Nat.zero_le _, ?_, ?_, nofun⟩
  · refine List.forall_mem_append.mpr ⟨fun t ht => ?_, fun t ht => ?_⟩
    · have := holder t ht
      omega
    · have := hbefore t ht
      omega
  · intro t ht
    have := hin t ht
    omega

end FixedWindow

end DistributedChat.Lib
