import Mathlib

/-!
# Taking turns

A queue of members that take turns: the first one is visited and goes to the end or is dropped.
Nobody joins. Then nobody is visited again before everyone else who is still in the queue
(`Rotates.again`), and a queue of `n` members has been visited completely after `n` turns
(`Rotates.covers`).

A cursor on an ordered set implements the queue: the next member is the least one above the cursor,
or the least of all, and the cursor moves there. What is to be visited, in order, is `rotation`. A
counter on a list that stays the same gives each member its share of the turns (`count_turns`).
-/

namespace DistributedChat.Lib

open List

/-! ## The queue -/

section Queue

variable {K : Type}

/-- A turn: the member that is visited, those behind it, and whether it is dropped. -/
structure Visit (K : Type) where
  id : K
  others : List K
  dropped : Bool

def Visit.before (v : Visit K) : List K := v.id :: v.others

def Visit.after (v : Visit K) : List K := if v.dropped then v.others else v.others ++ [v.id]

/-- The visits `vs` lead from one queue to the other. -/
inductive Rotates : List K → List (Visit K) → List K → Prop
  | nil (q : List K) : Rotates q [] q
  | cons {v : Visit K} {vs : List (Visit K)} {q : List K} (h : Rotates v.after vs q) :
    Rotates v.before (v :: vs) q

namespace Rotates

variable {q q' q'' : List K} {vs ws : List (Visit K)}

theorem split (h : Rotates q (vs ++ ws) q'') : ∃ q', Rotates q vs q' ∧ Rotates q' ws q'' := by
  induction vs generalizing q with
  | nil => exact ⟨q, .nil q, h⟩
  | cons v vs ih =>
    cases h with
    | cons h =>
      obtain ⟨q', hvs, hws⟩ := ih h
      exact ⟨q', .cons hvs, hws⟩

theorem subset_after (v : Visit K) : v.after ⊆ v.before := by
  intro k hk
  unfold Visit.after at hk
  unfold Visit.before
  split_ifs at hk
  · exact mem_cons_of_mem _ hk
  · simpa [or_comm] using hk

theorem subset (h : Rotates q vs q') : q' ⊆ q := by
  induction h with
  | nil q => exact List.Subset.refl q
  | @cons v vs q h ih => exact List.Subset.trans ih (subset_after v)

theorem order {front back : List K} (h : Rotates (front ++ back) vs q')
    (hlen : vs.length ≤ front.length) :
    vs.map Visit.id = front.take vs.length := by
  induction vs generalizing front back with
  | nil => rfl
  | cons v vs ih =>
    cases front with
    | nil => simp at hlen
    | cons k front =>
      generalize hq : k :: front ++ back = q at h
      cases h with
      | cons h =>
        obtain ⟨rfl, hothers⟩ : k = v.id ∧ front ++ back = v.others := by
          unfold Visit.before at hq
          exact List.cons.inj hq
        have hafter : v.after = front ++ if v.dropped then back else back ++ [v.id] := by
          unfold Visit.after
          rw [← hothers]
          split_ifs <;> simp
        rw [hafter] at h
        rw [map_cons, length_cons, take_succ_cons, ih h (by simpa using hlen)]

theorem covers {front back : List K} (h : Rotates (front ++ back) vs q')
    (hlen : front.length ≤ vs.length) :
    ∀ k ∈ front, ∃ v ∈ vs, v.id = k := by
  intro k hk
  rw [← take_append_drop front.length vs] at h
  obtain ⟨q₁, hround, -⟩ := h.split
  have hlength : (vs.take front.length).length = front.length := by
    rw [length_take]
    omega
  have horder := hround.order hlength.le
  rw [hlength, take_length] at horder
  rw [← horder] at hk
  obtain ⟨v, hv, rfl⟩ := mem_map.mp hk
  exact ⟨v, mem_of_mem_take hv, rfl⟩

/-- **Nobody is visited again before everyone else.** -/
theorem again {v v' : Visit K} {mid : List (Visit K)} (h : Rotates q (v :: mid ++ [v']) q')
    (hq : q.Nodup)
    (hid : v'.id = v.id) : ∀ k ∈ v'.before, k ≠ v.id → ∃ u ∈ mid, u.id = k := by
  intro k hk hne
  rw [cons_append] at h
  cases h with
  | cons h =>
    have hafter : v.after = v.others ++ if v.dropped then [] else [v.id] := by
      unfold Visit.after
      split_ifs <;> simp
    obtain ⟨q₁, hmid, hlast⟩ := h.split
    have hback : v'.before ⊆ v.after := by
      cases hlast with
      | cons _ => exact hmid.subset
    have hothers : k ∈ v.others := by
      have hk' := subset_after v (hback hk)
      unfold Visit.before at hk'
      exact (mem_cons.mp hk').resolve_left hne
    rw [hafter] at h hmid
    refine hmid.covers ?_ k hothers
    -- With fewer turns in between, the last one would still be that of another member.
    by_contra hshort
    have hall : (mid ++ [v']).length ≤ v.others.length := by
      rw [length_append, length_singleton]
      omega
    have hmem : v'.id ∈ (mid ++ [v']).map Visit.id := by simp
    rw [h.order hall, hid] at hmem
    exact (nodup_cons.mp hq).1 (mem_of_mem_take hmem)

end Rotates

end Queue

/-! ## The cursor -/

section Cursor

variable {K : Type} [LinearOrder K]

/-- The least member above the cursor, or the least of all. -/
def nextAfter (ids : List K) (cursor : K) : Option K :=
  (ids.find? fun k => cursor < k).or ids.head?

/-- The members in the order of their turns. -/
def rotation (ids : List K) (cursor : K) : List K :=
  ids.filter (fun k => cursor < k) ++ ids.filter fun k => k ≤ cursor

def without (ids : List K) (id : K) : List K := ids.erase id

variable {ids : List K} {cursor k : K} {q : List K}

theorem mem_rotation : k ∈ rotation ids cursor ↔ k ∈ ids := by
  unfold rotation
  rw [mem_append, mem_filter, mem_filter, ← and_or_left]
  simp [lt_or_ge]

theorem sorted_split (h : ids.Pairwise (· < ·)) (cursor : K) :
    ∃ low high, ids = low ++ high ∧ (∀ k ∈ low, k ≤ cursor) ∧ ∀ k ∈ high, cursor < k := by
  induction h with
  | nil => exact ⟨[], [], rfl, nofun, nofun⟩
  | @cons k ids hk h ih =>
    by_cases hle : k ≤ cursor
    · obtain ⟨low, high, rfl, hlow, hhigh⟩ := ih
      exact ⟨k :: low, high, rfl, forall_mem_cons.mpr ⟨hle, hlow⟩, hhigh⟩
    · have hlt := not_le.mp hle
      exact ⟨[], k :: ids, rfl, nofun,
        forall_mem_cons.mpr ⟨hlt, fun k' hk' => hlt.trans (hk k' hk')⟩⟩

/-- Where the list is split at the cursor, the turns are what is above and then what is not. -/
theorem rotation_append {low high : List K} (hlow : ∀ k ∈ low, k ≤ cursor)
    (hhigh : ∀ k ∈ high, cursor < k) :
    rotation (low ++ high) cursor = high ++ low := by
  unfold rotation
  have h₁ : low.filter (fun k => cursor < k) = [] :=
    filter_eq_nil_iff.mpr fun k hk => by simpa using hlow k hk
  have h₂ : high.filter (fun k => cursor < k) = high :=
    filter_eq_self.mpr fun k hk => by simpa using hhigh k hk
  have h₃ : low.filter (fun k => k ≤ cursor) = low :=
    filter_eq_self.mpr fun k hk => by simpa using hlow k hk
  have h₄ : high.filter (fun k => k ≤ cursor) = [] :=
    filter_eq_nil_iff.mpr fun k hk => by simpa using hhigh k hk
  rw [filter_append, filter_append, h₁, h₂, h₃, h₄, nil_append, append_nil]

theorem nextAfter_eq (ids : List K) (cursor : K) :
    nextAfter ids cursor = (rotation ids cursor).head? := by
  unfold nextAfter rotation
  rw [List.head?_append, List.head?_filter]
  cases hfind : ids.find? fun k => cursor < k with
  | some k => rfl
  | none =>
    -- nothing is above the cursor, so the second part of the queue is the whole list
    have hlow : ids.filter (fun k => k ≤ cursor) = ids := by
      refine filter_eq_self.mpr fun k hk => ?_
      simpa using List.find?_eq_none.mp hfind k hk
    rw [hlow]

theorem rotation_next (h : ids.Pairwise (· < ·)) (hq : rotation ids cursor = k :: q) :
    rotation ids k = q ++ [k] := by
  obtain ⟨low, high, rfl, hlow, hhigh⟩ := sorted_split h cursor
  rw [rotation_append hlow hhigh] at hq
  cases high with
  | nil =>
    obtain rfl : low = [k] ++ q := hq
    rw [append_nil] at h ⊢
    exact rotation_append (by simp) (pairwise_cons.mp h).1
  | cons k' high =>
    obtain ⟨rfl, rfl⟩ := List.cons.inj hq
    have habove : ∀ k ∈ high, k' < k := (pairwise_cons.mp (pairwise_append.mp h).2.1).1
    have hbelow : ∀ k ∈ low ++ [k'], k ≤ k' :=
      forall_mem_append.mpr ⟨fun k hk => (hlow k hk).trans (hhigh k' mem_cons_self).le, by simp⟩
    rw [← singleton_append, ← append_assoc, rotation_append hbelow habove, ← append_assoc]
    rfl

theorem length_rotation (h : ids.Pairwise (· < ·)) (cursor : K) :
    (rotation ids cursor).length = ids.length := by
  obtain ⟨low, high, rfl, hlow, hhigh⟩ := sorted_split h cursor
  rw [rotation_append hlow hhigh, length_append, length_append, Nat.add_comm]

theorem nodup_rotation (h : ids.Pairwise (· < ·)) (cursor : K) : (rotation ids cursor).Nodup := by
  obtain ⟨low, high, rfl, hlow, hhigh⟩ := sorted_split h cursor
  rw [rotation_append hlow hhigh]
  exact nodup_append_comm.mp (h.imp fun hlt => hlt.ne)

theorem rotation_erase (h : ids.Pairwise (· < ·)) (hq : rotation ids k = q ++ [k]) :
    rotation (without ids k) k = q := by
  have hnot : k ∉ q := by
    have hnodup := nodup_rotation h k
    rw [hq] at hnodup
    exact (nodup_cons.mp (nodup_append_comm.mp hnodup)).1
  have hids : ids.Nodup := h.imp fun hlt => hlt.ne
  have hfilter : rotation (without ids k) k = (rotation ids k).filter (· != k) := by
    unfold rotation without
    rw [hids.erase_eq_filter, filter_append, filter_comm, filter_comm (p := fun k' => k' ≤ k)]
  rw [hfilter, hq, filter_append, filter_eq_self.mpr]
  · simp
  · intro k' hk'
    rw [bne_iff_ne]
    rintro rfl
    exact hnot hk'

/-- A stop of the cursor: the member it moved to, all members there were, and whether it was
dropped. -/
structure Stop (K : Type) where
  id : K
  tracked : List K
  dropped : Bool
  deriving DecidableEq, Repr

/-- The stops of a cursor on a sorted list. -/
inductive Tour : List K → K → List (Stop K) → List K → K → Prop
  | nil (ids : List K) (cursor : K) : Tour ids cursor [] ids cursor
  | cons {ids : List K} {cursor id : K} {dropped : Bool} {stops : List (Stop K)} {ids' : List K}
    {cursor' : K}
      (hnext : nextAfter ids cursor = some id)
      (h : Tour (if dropped then without ids id else ids) id stops ids' cursor') :
    Tour ids cursor (⟨id, ids, dropped⟩ :: stops) ids' cursor'

/-- The next one in the cyclic order: the least above the cursor or, if nothing is above, the least
of all. -/
def IsNext (tracked : List K) (cursor id : K) : Prop :=
  id ∈ tracked ∧ ((cursor < id ∧ ∀ k ∈ tracked, cursor < k → id ≤ k) ∨
    ((∀ k ∈ tracked, k ≤ cursor) ∧ ∀ k ∈ tracked, id ≤ k))

def cursorAfter (cursor : K) (stops : List (Stop K)) : K := (stops.getLast?.map Stop.id).getD cursor

/-- The turn a stop is, with the others in the order of theirs. -/
def Stop.visit (stop : Stop K) :
    Visit K := ⟨stop.id, (rotation stop.tracked stop.id).dropLast, stop.dropped⟩

section

variable (h : ids.Pairwise (· < ·)) (hnext : nextAfter ids cursor = some k)

include h hnext

theorem visit_before (dropped : Bool) :
    (Stop.visit ⟨k, ids, dropped⟩).before = rotation ids cursor := by
  rw [nextAfter_eq] at hnext
  obtain ⟨q, hq⟩ := List.head?_eq_some_iff.mp hnext
  unfold Stop.visit Visit.before
  rw [rotation_next h hq, hq, dropLast_concat]

theorem visit_after (dropped : Bool) :
    (Stop.visit ⟨k, ids, dropped⟩).after = rotation (if dropped then without ids k else ids) k := by
  rw [nextAfter_eq] at hnext
  obtain ⟨q, hq⟩ := List.head?_eq_some_iff.mp hnext
  have hrot := rotation_next h hq
  unfold Stop.visit Visit.after
  dsimp only
  rw [hrot, dropLast_concat]
  split_ifs
  · exact (rotation_erase h hrot).symm
  · exact hrot.symm

theorem isNext_nextAfter : IsNext ids cursor k := by
  obtain ⟨low, high, rfl, hlow, hhigh⟩ := sorted_split h cursor
  rw [nextAfter_eq, rotation_append hlow hhigh] at hnext
  cases high with
  | nil =>
    obtain ⟨low, rfl⟩ : ∃ low', low = k :: low' := List.head?_eq_some_iff.mp hnext
    rw [append_nil] at h ⊢
    refine ⟨mem_cons_self, Or.inr ⟨hlow, forall_mem_cons.mpr ⟨le_rfl, fun k' hk' => ?_⟩⟩⟩
    exact ((pairwise_cons.mp h).1 k' hk').le
  | cons k' high =>
    obtain rfl : k' = k := Option.some.inj hnext
    refine ⟨by simp, Or.inl ⟨hhigh k' mem_cons_self, fun j hj hlt => ?_⟩⟩
    rcases mem_append.mp hj with hj | hj
    · exact absurd (hlow j hj) (not_le.mpr hlt)
    · rcases mem_cons.mp hj with rfl | hj
      · exact le_rfl
      · exact ((pairwise_cons.mp (pairwise_append.mp h).2.1).1 j hj).le

end

theorem sorted_without (h : ids.Pairwise (· < ·)) (id : K) : (without ids id).Pairwise (· < ·) :=
  h.sublist erase_sublist

theorem sorted_stop (h : ids.Pairwise (· < ·)) (dropped : Bool) (id : K) :
    (if dropped then without ids id else ids).Pairwise (· < ·) := by
  split_ifs
  · exact sorted_without h id
  · exact h

namespace Tour

variable {ids' ids'' : List K} {cursor' cursor'' : K} {stops stops' : List (Stop K)}

theorem append (h : Tour ids cursor stops ids' cursor')
    (h' : Tour ids' cursor' stops' ids'' cursor'') :
    Tour ids cursor (stops ++ stops') ids'' cursor'' := by
  induction h with
  | nil => exact h'
  | cons hnext h ih => exact .cons hnext (ih h')

section

variable (h : Tour ids cursor stops ids' cursor') (hids : ids.Pairwise (· < ·))

include h hids

theorem sorted : ids'.Pairwise (· < ·) := by
  induction h with
  | nil => exact hids
  | @cons ids _ id dropped _ _ _ hnext h ih =>
    exact ih (sorted_stop hids dropped id)

/-- **The cursor implements the queue.** -/
theorem rotates : Rotates (rotation ids cursor) (stops.map Stop.visit) (rotation ids' cursor') := by
  induction h with
  | nil => exact .nil _
  | @cons ids cursor id dropped stops ids' cursor' hnext h ih =>
    rw [← visit_before hids hnext dropped, map_cons]
    refine .cons ?_
    rw [visit_after hids hnext]
    exact ih (sorted_stop hids dropped id)

theorem isNext {pre post : List (Stop K)} {stop : Stop K} (hsplit : stops = pre ++ stop :: post) :
    IsNext stop.tracked (cursorAfter cursor pre) stop.id := by
  induction h generalizing pre with
  | nil => simp at hsplit
  | @cons ids cursor id dropped stops ids' cursor' hnext h ih =>
    cases pre with
    | nil =>
      obtain ⟨rfl, -⟩ := List.cons.inj hsplit
      exact isNext_nextAfter hids hnext
    | cons stop' pre =>
      obtain ⟨rfl, hrest⟩ := List.cons.inj hsplit
      have hlater := ih (sorted_stop hids dropped id) hrest
      unfold cursorAfter at hlater ⊢
      rw [List.getLast?_cons]
      cases hlast : pre.getLast? with
      | none | some last => simpa [hlast] using hlater

end

theorem split (h : Tour ids cursor (stops ++ stops') ids'' cursor'') :
    ∃ ids' cursor', Tour ids cursor stops ids' cursor' ∧
    Tour ids' cursor' stops' ids'' cursor'' := by
  induction stops generalizing ids cursor with
  | nil => exact ⟨ids, cursor, .nil ids cursor, h⟩
  | cons stop stops ih =>
    cases h with
    | cons hnext h =>
      obtain ⟨ids', cursor', hfirst, hrest⟩ := ih h
      exact ⟨ids', cursor', .cons hnext hfirst, hrest⟩

theorem length_le (h : Tour ids cursor stops ids' cursor') :
    ids.length ≤ stops.length + ids'.length := by
  induction h with
  | nil => simp
  | @cons ids _ id dropped _ _ _ _ h ih =>
    have hdrop : ids.length ≤ (if dropped then without ids id else ids).length + 1 := by
      split_ifs
      · have hle : ids.length - 1 ≤ (without ids id).length := le_length_erase
        omega
      · omega
    rw [length_cons]
    omega

theorem covers (h : Tour ids cursor stops ids' cursor') (hids : ids.Pairwise (· < ·))
    (hlen : ids.length ≤ stops.length) : ∀ k ∈ ids, ∃ stop ∈ stops, stop.id = k := by
  intro k hk
  have hrot := h.rotates hids
  rw [← append_nil (rotation ids cursor)] at hrot
  have hlength : (rotation ids cursor).length ≤ (stops.map Stop.visit).length := by
    rwa [length_rotation hids, length_map]
  obtain ⟨v, hv, rfl⟩ := hrot.covers hlength k (mem_rotation.mpr hk)
  obtain ⟨stop, hstop, rfl⟩ := mem_map.mp hv
  exact ⟨stop, hstop, rfl⟩

/-- **Nobody is visited again before everyone else who is still there.** -/
theorem again (h : Tour ids cursor stops ids' cursor') (hids : ids.Pairwise (· < ·))
    {pre mid post : List (Stop K)} {stop stop' : Stop K}
    (hsplit : stops = pre ++ stop :: (mid ++ stop' :: post))
    (hid : stop'.id = stop.id) :
    ∀ k ∈ stop'.tracked, k ≠ stop.id → ∃ other ∈ mid, other.id = k := by
  intro k hk hne
  have hstops : stops = pre ++ ((stop :: mid ++ [stop']) ++ post) := by rw [hsplit]; simp
  rw [hstops] at h
  obtain ⟨ids₁, cursor₁, hpre, hrest⟩ := h.split
  obtain ⟨ids₂, cursor₂, hround, -⟩ := hrest.split
  have hids₁ := hpre.sorted hids
  have hrot := hround.rotates hids₁
  rw [map_append, map_cons, map_singleton] at hrot
  have hbefore : k ∈ stop'.visit.before := by
    obtain ⟨ids₃, cursor₃, hmid, hlast⟩ := hround.split
    cases hlast with
    | cons hnext _ =>
      rw [visit_before (hmid.sorted hids₁) hnext]
      exact mem_rotation.mpr hk
  obtain ⟨u, hu, rfl⟩ := hrot.again (nodup_rotation hids₁ cursor₁) hid k hbefore hne
  obtain ⟨other, hother, rfl⟩ := mem_map.mp hu
  exact ⟨other, hother, rfl⟩

end Tour

end Cursor

/-! ## The counter -/

section Turns

variable {K : Type} {l : List K}

/-- The member whose turn the `i`-th is. -/
def turn (l : List K) (i : ℕ) : Option K := l[i % l.length]?

theorem turn_eq_iff (hl : l.Nodup) {j : ℕ} (hj : j < l.length) (i : ℕ) :
    turn l i = some l[j] ↔ i ≡ j [MOD l.length] := by
  have hi : i % l.length < l.length := Nat.mod_lt _ (by omega)
  unfold turn Nat.ModEq
  rw [List.getElem?_eq_getElem hi, Option.some.injEq, hl.getElem_inj_iff, Nat.mod_eq_of_lt hj]

/-- **Turns are shared out evenly**: of `n` turns in a row each of `k` members gets `n / k`, rounded
up or down. -/
theorem count_turns [BEq K] [LawfulBEq K] (hl : l.Nodup) {a : K} (ha : a ∈ l) (c n : ℕ) :
    ((List.range' c n).map (turn l)).count (some a) = n / l.length ∨
      ((List.range' c n).map (turn l)).count (some a) = n ⌈/⌉ l.length := by
  obtain ⟨j, hj, rfl⟩ := getElem_of_mem ha
  have hk : 0 < l.length := by omega
  have hcount :
    ((List.range' c n).map (turn l)).count (some l[j]) + Nat.count (· ≡ j [MOD l.length]) c =
      Nat.count (· ≡ j [MOD l.length]) (c + n) := by
    induction n with
    | zero => simp
    | succ n ih =>
      rw [List.range'_concat, map_append, count_append, ← Nat.add_assoc, Nat.count_succ, ← ih]
      simp only [map_cons, map_nil, count_singleton, beq_iff_eq, turn_eq_iff hl hj, Nat.one_mul]
      omega
  rw [Nat.count_modEq_card _ hk, Nat.count_modEq_card _ hk, Nat.mod_eq_of_lt hj, Nat.add_div hk,
    Nat.add_mod_eq_ite] at hcount
  have hc := Nat.mod_lt c hk
  have hn := Nat.mod_lt n hk
  have hup : n ⌈/⌉ l.length = n / l.length + if n % l.length = 0 then 0 else 1 := by
    rw [Nat.ceilDiv_eq_add_pred_div, Nat.add_sub_assoc hk, Nat.add_div hk,
      Nat.div_eq_of_lt (a := l.length - 1) (by omega),
        Nat.mod_eq_of_lt (a := l.length - 1) (by omega)]
    split_ifs <;> omega
  rw [hup]
  split_ifs at hcount ⊢ <;> omega

end Turns

end DistributedChat.Lib
