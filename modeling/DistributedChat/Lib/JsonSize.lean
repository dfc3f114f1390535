import DistributedChat.Lib.Json

/-!
# The length of a JSON text

How many bytes the two writers of the system print: the compact form of `QJsonDocument::toJson`,
and the styled form of `Json::Value::toStyledString`, with one member or element a line, indented by
tabs. What a writer makes of a string is a parameter.

An object prints at least what some of its members print: `le_compactSize_obj`.
-/

namespace DistributedChat.Lib

open List

namespace Json

/-- The number of digits of an integer, with its sign. -/
def decimalSize (n : ℤ) : ℕ := (toString n).length

theorem decimalSize_le {n : ℤ} (h : 0 < n ∧ n < 2 ^ 31) : decimalSize n ≤ 10 := by
  obtain ⟨k, rfl⟩ := Int.eq_ofNat_of_zero_le h.1.le
  exact Nat.repr_length k 10 (by decide) (by omega)

section Compact

variable (quote : Bytes → ℕ)

mutual

/-- The length of the compact text; a number that is an integer of 32 bits is printed as one. -/
def compactSize : Json → ℕ
  | .null => 4
  | .bool b => if b then 4 else 5
  | .int n => decimalSize n
  | .real n integral text =>
    if integral = true ∧ -(2 ^ 31) ≤ n ∧ n < 2 ^ 31 then decimalSize n else text.length
  | .str s => quote s
  | .arr [] => 2
  | .arr (x :: xs) => 1 + compactElements (x :: xs)
  | .obj [] => 2
  | .obj (m :: ms) => 1 + compactMembers (m :: ms)

/-- Elements, each with the comma or bracket after it. -/
def compactElements : List Json → ℕ
  | [] => 0
  | x :: xs => compactSize x + 1 + compactElements xs

/-- Members, each with the comma or brace after it. -/
def compactMembers : List (Bytes × Json) → ℕ
  | [] => 0
  | (key, x) :: ms => quote key + 1 + compactSize x + 1 + compactMembers ms

end

def compactMember (m : Bytes × Json) : ℕ := quote m.1 + 1 + compactSize quote m.2 + 1

theorem compactMembers_eq (ms : List (Bytes × Json)) :
    compactMembers quote ms = (ms.map (compactMember quote)).sum := by
  induction ms with
  | nil => rfl
  | cons m ms ih =>
    obtain ⟨key, x⟩ := m
    rw [compactMembers, map_cons, sum_cons, ih]
    rfl

theorem le_compactSize_obj {ms ms' : List (Bytes × Json)} (hne : ms ≠ [])
    (hkeys : (ms.map Prod.fst).Nodup)
    (h : ∀ m ∈ ms, m ∈ ms') : compactSize quote (.obj ms) ≤ compactSize quote (.obj ms') := by
  have hsub : ms.Subperm ms' := List.Nodup.subperm (List.Nodup.of_map _ hkeys) h
  obtain ⟨ms'', hperm, hsublist⟩ := hsub
  have hsum : (ms.map (compactMember quote)).sum ≤ (ms'.map (compactMember quote)).sum := by
    rw [← (hperm.map (compactMember quote)).sum_eq]
    exact (hsublist.map _).sum_le_sum fun _ _ => Nat.zero_le _
  cases ms with
  | nil => exact absurd rfl hne
  | cons m ms =>
    cases ms' with
    | nil => exact absurd (h m mem_cons_self) not_mem_nil
    | cons m' ms' =>
      rw [compactSize, compactSize, compactMembers_eq, compactMembers_eq]
      omega

end Compact

section Styled

variable (quote : Bytes → ℕ)

mutual

/-- The length of the styled text of a value at an indentation, behind its key or at the start of a
line. -/
def styledValue (behind : Bool) (depth : ℕ) : Json → ℕ
  | .null => 4
  | .bool b => if b then 4 else 5
  | .int n => decimalSize n
  | .real _ _ text => text.length
  | .str s => quote s
  | .arr [] => 2
  | .arr (x :: xs) =>
    (if behind then 1 + depth else 0) + 1 + styledElements (depth + 1) (x :: xs) + (1 + depth + 1)
  | .obj [] => 2
  | .obj (m :: ms) =>
    (if behind then 1 + depth else 0) + 1 + styledMembers (depth + 1) (m :: ms) + (1 + depth + 1)

/-- Elements, each on a line with the comma before it. -/
def styledElements (depth : ℕ) : List Json → ℕ
  | [] => 0
  | x :: xs =>
    1 + depth + styledValue false depth x + (if xs.isEmpty then 0 else 1) + styledElements depth xs

def styledMembers (depth : ℕ) : List (Bytes × Json) → ℕ
  | [] => 0
  | (key, x) :: ms =>
    1 + depth + quote key + 3 + styledValue true depth x +
    (if ms.isEmpty then 0 else 1) + styledMembers depth ms

end

/-- The length of `toStyledString`, which ends its text with a newline. -/
def styledSize (v : Json) : ℕ := styledValue quote false 0 v + 1

/-- One member with the comma or the newline behind it. -/
def styledMember (depth : ℕ) (m : Bytes × Json) : ℕ :=
  1 + depth + quote m.1 + 3 + styledValue quote true depth m.2 + 1

variable {ms : List (Bytes × Json)}

theorem styledMembers_eq (h : ms ≠ []) (depth : ℕ) :
    styledMembers quote depth ms + 1 = (ms.map (styledMember quote depth)).sum := by
  induction ms with
  | nil => exact absurd rfl h
  | cons m ms ih =>
    obtain ⟨key, x⟩ := m
    rw [styledMembers, map_cons, sum_cons]
    cases ms with
    | nil => simp [styledMembers, styledMember]
    | cons m' ms =>
      rw [← ih (cons_ne_nil _ _)]
      simp only [styledMember, isEmpty_cons, Bool.false_eq_true, if_false]
      omega

theorem styledSize_obj (h : ms ≠ []) :
    styledSize quote (.obj ms) = (ms.map (styledMember quote 1)).sum + 3 := by
  rw [← styledMembers_eq quote h]
  cases ms with
  | nil => exact absurd rfl h
  | cons m ms =>
    simp only [styledSize, styledValue, Bool.false_eq_true, if_false, Nat.zero_add]
    omega

theorem sum_filter_key (hkeys : (ms.map Prod.fst).Nodup) {key : Bytes} {x : Json}
    (hfind : ms.lookup key = some x)
    (f : Bytes × Json → ℕ) : ((ms.filter fun m => m.1 != key).map f).sum + f (key, x) =
    (ms.map f).sum := by
  induction ms with
  | nil => cases hfind
  | cons m ms ih =>
    obtain ⟨k, y⟩ := m
    obtain ⟨hnot, hkeys⟩ := nodup_cons.mp hkeys
    by_cases hk : k = key
    · subst hk
      obtain rfl : y = x := by simpa using hfind
      have hall : ms.filter (fun m => m.1 != k) = ms := by
        refine filter_eq_self.mpr fun m hm => ?_
        rw [bne_iff_ne]
        exact fun hk => hnot (mem_map.mpr ⟨m, hm, hk⟩)
      simp [hall, Nat.add_comm]
    · have hbeq : (key == k) = false := beq_eq_false_iff_ne.mpr (Ne.symm hk)
      have hrest := ih hkeys (by simpa [lookup_cons, hbeq] using hfind)
      simp [hk, ← hrest, Nat.add_assoc]

theorem styledSize_set (hkeys : (ms.map Prod.fst).Nodup) {key : String} {x : Json}
    (hfind : (Json.obj ms).find key = some x) (y : Json) :
    styledSize quote ((Json.obj ms).set key y) + styledValue quote true 1 x =
      styledSize quote (.obj ms) + styledValue quote true 1 y := by
  have hlookup : ms.lookup (ascii key) = some x := hfind
  have hne : ms ≠ [] := by
    rintro rfl
    cases hlookup
  have hsum := sum_filter_key hkeys hlookup (styledMember quote 1)
  rw [set, styledSize_obj quote hne, styledSize_obj quote (by simp), ← hsum]
  simp only [map_append, map_singleton, sum_append, sum_singleton, styledMember]
  omega

theorem styledSize_set_new (hne : ms ≠ []) {key : String} (hfind : (Json.obj ms).find key = none)
    (y : Json) :
    styledSize quote ((Json.obj ms).set key y) =
      styledSize quote (.obj ms) + styledMember quote 1 (ascii key, y) := by
  have hlookup : ms.lookup (ascii key) = none := hfind
  have hall : ms.filter (fun m => m.1 != ascii key) = ms := by
    refine filter_eq_self.mpr fun m hm => ?_
    have hm := lookup_eq_none_iff.mp hlookup m hm
    exact bne_iff_ne.mpr fun hk => by simp [hk] at hm
  rw [set, hall, styledSize_obj quote hne, styledSize_obj quote (by simp), map_append, sum_append,
    map_singleton, sum_singleton]
  omega

theorem styledElements_eq {xs : List Json} (h : xs ≠ []) (depth : ℕ) :
    styledElements quote depth xs + 1 =
    (xs.map fun x => 2 + depth + styledValue quote false depth x).sum := by
  induction xs with
  | nil => exact absurd rfl h
  | cons x xs ih =>
    rw [styledElements, map_cons, sum_cons]
    cases xs with
    | nil =>
      simp [styledElements]
      omega
    | cons y xs =>
      rw [← ih (cons_ne_nil _ _)]
      simp only [isEmpty_cons, Bool.false_eq_true, if_false]
      omega

theorem styledElements_concat (depth : ℕ) (xs : List Json) (x : Json) :
    styledElements quote depth (xs ++ [x]) =
      styledElements quote depth xs +
      (if xs.isEmpty then 0 else 1) + 1 + depth + styledValue quote false depth x := by
  induction xs with
  | nil => simp [styledElements]
  | cons y xs ih =>
    rw [cons_append, styledElements, styledElements, ih]
    cases xs with
    | nil | cons z xs => simp; omega

end Styled

/-- A string no byte of which needs an escape. -/
def plainQuote (s : Bytes) : ℕ := s.length + 2

end Json

end DistributedChat.Lib
