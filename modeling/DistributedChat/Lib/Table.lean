import Mathlib

/-!
# Tables with a primary key

A table is a list of rows, in the order they were inserted, in which no key stands twice. Looking
up, inserting, updating and deleting rows by key; queries over all rows read the list, and one with
an order sorts it.
-/

namespace DistributedChat.Lib

open List

/-- The rows of a table, by key. -/
structure Table (K V : Type) where
  rows : List (K × V)
  nodup : (rows.map Prod.fst).Nodup

namespace Table

variable {K V : Type}

def empty : Table K V := ⟨[], nodup_nil⟩

def mapRows (t : Table K V) (f : K → V → V) : Table K V where
  rows := t.rows.map fun kv => (kv.1, f kv.1 kv.2)
  nodup := by
    have h : (t.rows.map fun kv => (kv.1, f kv.1 kv.2)).map Prod.fst = t.rows.map Prod.fst := by
      rw [map_map]
      rfl
    rw [h]
    exact t.nodup

/-- Delete the rows that do not satisfy `p`. -/
def restrict (t : Table K V) (p : K → V → Bool) : Table K V where
  rows := t.rows.filter fun kv => p kv.1 kv.2
  nodup := t.nodup.sublist (filter_sublist.map Prod.fst)

variable [DecidableEq K]

def get (t : Table K V) (k : K) : Option V := (t.rows.find? fun kv => kv.1 = k).map Prod.snd

variable {t : Table K V} {k : K} {v : V}

theorem get_eq_some : t.get k = some v ↔ (k, v) ∈ t.rows := by
  unfold get
  constructor
  · intro h
    obtain ⟨⟨k', v'⟩, hfind, rfl⟩ := Option.map_eq_some_iff.mp h
    obtain rfl : k' = k := by simpa using List.find?_some hfind
    exact mem_of_find?_eq_some hfind
  · intro h
    cases hfind : t.rows.find? fun kv => decide (kv.1 = k) with
    | none =>
      have := List.find?_eq_none.mp hfind (k, v) h
      simp at this
    | some kv =>
      obtain ⟨k', v'⟩ := kv
      obtain rfl : k' = k := by simpa using List.find?_some hfind
      -- the keys are distinct, so the row found is the row asked for
      have hmem := mem_of_find?_eq_some hfind
      have := inj_on_of_nodup_map t.nodup hmem h rfl
      rw [this]
      rfl

theorem get_eq_none : t.get k = none ↔ ∀ v, (k, v) ∉ t.rows := by
  constructor
  · intro h v hv
    rw [get_eq_some.mpr hv] at h
    cases h
  · intro h
    cases hget : t.get k with
    | none => rfl
    | some v => exact absurd (get_eq_some.mp hget) (h v)

/-- Insert a row behind the others, unless its key is there. -/
def insert (t : Table K V) (k : K) (v : V) : Table K V :=
  if h : t.get k = none then
    { rows := t.rows ++ [(k, v)]
      nodup := by
        rw [map_append, map_cons, map_nil, nodup_append]
        refine ⟨t.nodup, nodup_singleton _, fun a ha b hb heq => ?_⟩
        obtain ⟨⟨k', v'⟩, hmem, rfl⟩ := mem_map.mp ha
        obtain rfl := mem_singleton.mp hb
        simp only at heq
        subst heq
        exact get_eq_none.mp h v' hmem }
  else t

theorem rows_insert (h : t.get k = none) : (t.insert k v).rows = t.rows ++ [(k, v)] := by
  unfold insert
  rw [dif_pos h]

theorem get_insert (h : t.get k = none) (k' : K) :
    (t.insert k v).get k' = if k' = k then some v else t.get k' := by
  have hrow : ∀ w, (t.insert k v).get k' = some w ↔ (k', w) ∈ t.rows ∨ (k', w) = (k, v) := by
    intro w
    rw [get_eq_some, rows_insert h, mem_append, mem_singleton]
  by_cases heq : k' = k
  · subst heq
    rw [if_pos rfl]
    exact (hrow v).mpr (Or.inr rfl)
  · rw [if_neg heq]
    apply Option.ext
    intro w
    rw [hrow, get_eq_some]
    refine or_iff_left fun hpair => heq ?_
    exact congrArg Prod.fst hpair

theorem get_insert_or (t : Table K V) (k : K) (v : V) (k' : K) :
    (t.insert k v).get k' = if k' = k then some ((t.get k).getD v) else t.get k' := by
  cases hget : t.get k with
  | none => exact get_insert hget k'
  | some w =>
    have hsame : t.insert k v = t := by
      unfold insert
      rw [dif_neg (by simp [hget])]
    rw [hsame]
    by_cases heq : k' = k
    · rw [if_pos heq, heq, hget]
      rfl
    · rw [if_neg heq]

theorem get_mapRows (t : Table K V) (f : K → V → V) (k : K) : (t.mapRows f).get k = (t.get k).map
    (f k) := by
  apply Option.ext
  intro w
  rw [get_eq_some, Option.map_eq_some_iff]
  simp only [mapRows, mem_map, Prod.mk.injEq, Prod.exists]
  constructor
  · rintro ⟨k', v, hmem, rfl, rfl⟩
    exact ⟨v, get_eq_some.mpr hmem, rfl⟩
  · rintro ⟨v, hget, rfl⟩
    exact ⟨k, v, get_eq_some.mp hget, rfl, rfl⟩

theorem get_restrict (t : Table K V) (p : K → V → Bool) (k : K) : (t.restrict p).get k =
    (t.get k).filter (p k) := by
  apply Option.ext
  intro w
  rw [get_eq_some, Option.filter_eq_some_iff, get_eq_some]
  simp only [restrict, mem_filter]

def update (t : Table K V) (k : K) (f : V → V) : Table K V :=
  t.mapRows fun k' v => if k' = k then f v else v

theorem get_update (t : Table K V) (k : K) (f : V → V) (k' : K) :
    (t.update k f).get k' = if k' = k then (t.get k').map f else t.get k' := by
  unfold update
  rw [get_mapRows]
  by_cases h : k' = k <;> simp [h]

theorem length_filter_key (t : Table K V) (k : K) :
    (t.rows.filter fun r => r.1 = k).length = if (t.get k).isSome then 1 else 0 := by
  have hall : ∀ r ∈ t.rows.filter (fun r => decide (r.1 = k)), (t.get k) = some r.2 := by
    intro r hr
    obtain ⟨hmem, hk⟩ := mem_filter.mp hr
    obtain rfl : r.1 = k := of_decide_eq_true hk
    exact get_eq_some.mpr hmem
  have hnodup : ((t.rows.filter fun r => r.1 = k).map Prod.fst).Nodup :=
    t.nodup.sublist (filter_sublist.map Prod.fst)
  cases hget : t.get k with
  | none =>
    cases hrows : t.rows.filter (fun r => decide (r.1 = k)) with
    | nil => rfl
    | cons r rs =>
      have := hall r (hrows ▸ mem_cons_self)
      rw [hget] at this
      cases this
  | some v =>
    have hmem : (k, v) ∈ t.rows.filter (fun r => decide (r.1 = k)) :=
      mem_filter.mpr ⟨get_eq_some.mp hget, decide_eq_true rfl⟩
    cases hrows : t.rows.filter (fun r => decide (r.1 = k)) with
    | nil =>
      rw [hrows] at hmem
      cases hmem
    | cons r rs =>
      cases rs with
      | nil => rfl
      | cons r' rs =>
        have hkey : ∀ r ∈ t.rows.filter (fun r => decide (r.1 = k)), r.1 = k := fun r hr =>
          of_decide_eq_true (mem_filter.mp hr).2
        have h₁ := hkey r (hrows ▸ mem_cons_self)
        have h₂ := hkey r' (hrows ▸ mem_cons_of_mem _ mem_cons_self)
        rw [hrows] at hnodup
        simp [h₁, h₂] at hnodup

/-- Change the rows that satisfy `p`, and count them. -/
def updateWhere (t : Table K V) (p : K → V → Bool) (f : V → V) : ℕ × Table K V :=
  ((t.rows.filter fun kv => p kv.1 kv.2).length, t.mapRows fun k v => if p k v then f v else v)

def erase (t : Table K V) (k : K) : Table K V := t.restrict fun k' _ => decide (k' ≠ k)

theorem get_erase (t : Table K V) (k k' : K) :
    (t.erase k).get k' = if k' = k then none else t.get k' := by
  unfold erase
  rw [get_restrict]
  by_cases h : k' = k <;> cases t.get k' <;> simp [h]

/-! ## Totals -/

/-- The sum of a weight over all rows. -/
def total (t : Table K V) (w : V → ℕ) : ℕ := (t.rows.map fun kv => w kv.2).sum

omit [DecidableEq K] in
theorem total_mono (t : Table K V) {w w' : V → ℕ} (h : ∀ v, w v ≤ w' v) : t.total w ≤ t.total w' :=
  sum_le_sum fun kv _ => h kv.2

theorem total_insert_le (t : Table K V) (k : K) (v : V) (w : V → ℕ) :
    (t.insert k v).total w ≤ t.total w + w v := by
  cases hget : t.get k with
  | none =>
    unfold total
    rw [rows_insert hget, map_append, sum_append]
    simp
  | some old =>
    have hsame : t.insert k v = t := by
      unfold insert
      rw [dif_neg (by rw [hget]; nofun)]
    rw [hsame]
    exact Nat.le_add_right _ _

theorem total_update_le (t : Table K V) (k : K) (f : V → V) (w : V → ℕ)
    (h : ∀ v, t.get k = some v → w (f v) ≤ w v) : (t.update k f).total w ≤ t.total w := by
  unfold total update mapRows
  rw [map_map]
  refine sum_le_sum fun kv hkv => ?_
  obtain ⟨k', v⟩ := kv
  show w (if k' = k then f v else v) ≤ w v
  split
  · rename_i heq
    subst heq
    exact h v (get_eq_some.mpr hkv)
  · exact le_rfl

theorem total_erase_le (t : Table K V) (k : K) (w : V → ℕ) : (t.erase k).total w ≤ t.total w :=
  (filter_sublist.map _).sum_le_sum fun _ _ => Nat.zero_le _

end Table

/-! ## Queries with an order -/

section OrderBy

variable {α : Type} {f : α → ℤ} {a x : α}

end OrderBy

end DistributedChat.Lib
