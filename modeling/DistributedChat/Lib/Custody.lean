import DistributedChat.Lib.Threads

/-!
# Numbered objects in one place each

Objects are numbered in the order they come up. Each is at rest, in one place of a list, or in the
hands of one holder. A holder has at most one object in its hands. `Tally` counts the holders that
are busy.
-/

namespace DistributedChat.Lib

open Function List

/-- The objects below `n` are each at rest in `rest`, once, or in the hands of one holder. -/
structure Custody {T : Type} (n : ℕ) (rest : List ℕ) (hands : T → Option ℕ) : Prop where
  nodup : rest.Nodup
  known : ∀ i ∈ rest, i < n
  held : ∀ t i, hands t = some i → i < n ∧ i ∉ rest
  apart : ∀ t t' i, hands t = some i → hands t' = some i → t = t'
  covered : ∀ i < n, i ∈ rest ∨ ∃ t, hands t = some i

namespace Custody

variable {T : Type} {n : ℕ} {rest rest' : List ℕ} {hands : T → Option ℕ}

theorem empty : Custody 0 [] (fun _ : T => none) where
  nodup := nodup_nil
  known _ hi := absurd hi not_mem_nil
  held _ _ h := nomatch h
  apart _ _ _ h := nomatch h
  covered i h := absurd h (Nat.not_lt_zero i)

theorem perm (h : Custody n rest hands) (hp : rest.Perm rest') : Custody n rest' hands where
  nodup := hp.nodup_iff.mp h.nodup
  known i hi := h.known i (hp.mem_iff.mpr hi)
  held t i ht := ⟨(h.held t i ht).1, fun hi => (h.held t i ht).2 (hp.mem_iff.mpr hi)⟩
  apart := h.apart
  covered i hi := (h.covered i hi).imp_left hp.mem_iff.mp

theorem all_at_rest (h : Custody n rest hands) (hnone : ∀ t, hands t = none) :
    rest.Perm (List.range n) := by
  rw [perm_ext_iff_of_nodup h.nodup nodup_range]
  intro i
  rw [mem_range]
  constructor
  · exact h.known i
  · intro hi
    rcases h.covered i hi with hrest | ⟨t, ht⟩
    · exact hrest
    · rw [hnone t] at ht
      cases ht

theorem grow (h : Custody n rest hands) : Custody (n + 1) (n :: rest) hands where
  nodup := nodup_cons.mpr ⟨fun hn => lt_irrefl n (h.known n hn), h.nodup⟩
  known i hi := by
    rcases mem_cons.mp hi with rfl | hi
    · exact Nat.lt_succ_self i
    · exact Nat.lt_succ_of_lt (h.known i hi)
  held t i ht := by
    obtain ⟨hlt, hrest⟩ := h.held t i ht
    exact ⟨Nat.lt_succ_of_lt hlt, fun hi => (mem_cons.mp hi).elim hlt.ne hrest⟩
  apart := h.apart
  covered i hi := by
    rcases Nat.lt_succ_iff_lt_or_eq.mp hi with hlt | rfl
    · exact (h.covered i hlt).imp_left (mem_cons_of_mem n)
    · exact Or.inl mem_cons_self

variable [DecidableEq T] {t : T}

theorem put (h : Custody n rest hands) {i : ℕ} (ht : hands t = some i) :
    Custody n (rest ++ [i]) (update hands t none) where
  nodup := by
    rw [← concat_eq_append]
    exact h.nodup.concat (h.held t i ht).2
  known j hj := by
    rcases mem_append.mp hj with hj | hj
    · exact h.known j hj
    · exact mem_singleton.mp hj ▸ (h.held t i ht).1
  held t' j ht' := by
    rcases update_cases ht' with ⟨-, hnew⟩ | ⟨heq, ht'⟩
    · cases hnew
    · refine ⟨(h.held t' j ht').1, fun hj => ?_⟩
      rcases mem_append.mp hj with hj | hj
      · exact (h.held t' j ht').2 hj
      · obtain rfl := mem_singleton.mp hj
        exact heq (h.apart t' t j ht' ht)
  apart t₁ t₂ j h₁ h₂ := by
    rcases update_cases h₁ with ⟨-, hnew⟩ | ⟨-, h₁⟩
    · cases hnew
    · rcases update_cases h₂ with ⟨-, hnew⟩ | ⟨-, h₂⟩
      · cases hnew
      · exact h.apart t₁ t₂ j h₁ h₂
  covered j hj := by
    rcases h.covered j hj with hrest | ⟨t', ht'⟩
    · exact Or.inl (mem_append_left _ hrest)
    · by_cases heq : t' = t
      · rw [heq, ht] at ht'
        exact Or.inl (mem_append_right _ (mem_singleton.mpr (Option.some.inj ht').symm))
      · exact Or.inr ⟨t', by rw [update_of_ne heq, ht']⟩

theorem take (h : Custody n rest hands) {i : ℕ} (ht : hands t = none) (hi : i ∈ rest) :
    Custody n (rest.erase i) (update hands t (some i)) where
  nodup := h.nodup.erase i
  known j hj := h.known j (mem_of_mem_erase hj)
  held t' j ht' := by
    rcases update_cases ht' with ⟨-, hnew⟩ | ⟨-, ht'⟩
    · obtain rfl := Option.some.inj hnew
      exact ⟨h.known i hi, h.nodup.not_mem_erase⟩
    · exact ⟨(h.held t' j ht').1, fun hj => (h.held t' j ht').2 (mem_of_mem_erase hj)⟩
  apart t₁ t₂ j h₁ h₂ := by
    rcases update_cases h₁ with ⟨heq₁, hnew₁⟩ | ⟨-, h₁⟩ <;>
      rcases update_cases h₂ with ⟨heq₂, hnew₂⟩ | ⟨-, h₂⟩
    · exact heq₁.trans heq₂.symm
    · obtain rfl := Option.some.inj hnew₁
      exact absurd hi (h.held t₂ i h₂).2
    · obtain rfl := Option.some.inj hnew₂
      exact absurd hi (h.held t₁ i h₁).2
    · exact h.apart t₁ t₂ j h₁ h₂
  covered j hj := by
    by_cases heq : j = i
    · exact Or.inr ⟨t, by rw [heq, update_self]⟩
    · rcases h.covered j hj with hrest | ⟨t', ht'⟩
      · exact Or.inl ((mem_erase_of_ne heq).mpr hrest)
      · refine Or.inr ⟨t', ?_⟩
        rw [update_of_ne ?_, ht']
        rintro rfl
        rw [ht] at ht'
        cases ht'

theorem fresh (h : Custody n rest hands) (ht : hands t = none) :
    Custody (n + 1) rest (update hands t (some n)) := by
  have htaken := h.grow.take ht mem_cons_self
  rwa [erase_cons_head] at htaken

end Custody

/-! ## Counting holders -/

/-- So many holders are busy. -/
def Tally {T : Type} (k : ℕ) (busy : T → Bool) : Prop :=
  ∃ S : Finset T, (∀ t, t ∈ S ↔ busy t = true) ∧ S.card = k

namespace Tally

variable {T : Type} {k : ℕ} {busy : T → Bool}

theorem none : Tally 0 (fun _ : T => false) :=
  ⟨∅, fun _ => by simp, rfl⟩

theorem ncard (h : Tally k busy) : {t | busy t = true}.ncard = k := by
  obtain ⟨S, hS, rfl⟩ := h
  rw [← Set.ncard_coe_finset]
  congr 1
  ext t
  exact (hS t).symm

theorem eq_zero (h : Tally k busy) (hidle : ∀ t, busy t = false) : k = 0 := by
  obtain ⟨S, hS, rfl⟩ := h
  rw [Finset.card_eq_zero, Finset.eq_empty_iff_forall_notMem]
  intro t ht
  rw [hS, hidle t] at ht
  cases ht

variable [DecidableEq T]

theorem update (h : Tally k busy) (t : T) (b : Bool) :
    ∃ k', Tally k' (Function.update busy t b) ∧ k' + (busy t).toNat = k + b.toNat := by
  obtain ⟨S, hS, rfl⟩ := h
  have hmem := hS t
  cases b with
  | true =>
    refine ⟨_, ⟨insert t S, fun t' => ?_, rfl⟩, ?_⟩
    · by_cases heq : t' = t <;> simp [heq, hS]
    · by_cases hin : t ∈ S
      · simp [hin, hmem.mp hin]
      · simp [hin, Bool.eq_false_iff.mpr (mt hmem.mpr hin)]
  | false =>
    refine ⟨_, ⟨S.erase t, fun t' => ?_, rfl⟩, ?_⟩
    · by_cases heq : t' = t <;> simp [heq, hS]
    · by_cases hin : t ∈ S
      · simp [hmem.mp hin, Finset.card_erase_add_one hin]
      · simp [hin, Bool.eq_false_iff.mpr (mt hmem.mpr hin)]

end Tally

end DistributedChat.Lib
