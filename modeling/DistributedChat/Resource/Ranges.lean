import DistributedChat.Resource.Routes
import DistributedChat.Store.Contents

/-!
# Byte ranges

What a request for the content of a file is answered with: the bytes its header `Range` selects
(`resource/ResourceService.cpp`), read from the encrypted store in parts of 32 KiB and written one
after the other (`resource/main.cpp`).

1. Numerals, and what the standard of HTTP prescribes for a single range (`RangeSpec.prescribed`).
2. What `content` selects, and that its words of 64 bits do not wrap.
3. The loop of the connection writes exactly the selected bytes (`serves_next`).
-/

namespace DistributedChat.Resource

open Lib List
open Store (PlainChunkBytes)

/-! ## Numerals -/

def numeral (s : Bytes) : ℕ := s.foldl (fun n c => 10 * n + (c.toNat - 48)) 0

def Digits (s : Bytes) : Prop := s ≠ [] ∧ ∀ c ∈ s, 48 ≤ c ∧ c ≤ 57

variable {s : Bytes}

theorem decimal?_eq_some {n : ℕ} : decimal? s = some n ↔ Digits s ∧ numeral s = n ∧ n < 2 ^ 64 := by
  unfold decimal? Digits
  by_cases h : s ≠ [] ∧ (s.all fun c => 48 ≤ c && c ≤ 57) = true
  · rw [if_pos h]
    simp only [Option.filter_eq_some_iff, Option.some.injEq, decide_eq_true_eq]
    have hdigits : ∀ c ∈ s, 48 ≤ c ∧ c ≤ 57 := by simpa using h.2
    constructor
    · rintro ⟨rfl, hlt⟩
      exact ⟨⟨h.1, hdigits⟩, rfl, hlt⟩
    · rintro ⟨-, rfl, hlt⟩
      exact ⟨rfl, hlt⟩
  · rw [if_neg h]
    refine ⟨nofun, fun hs => absurd ?_ h⟩
    exact ⟨hs.1.1, by simpa using hs.1.2⟩

theorem Digits.decimal? (h : Digits s) :
    decimal? s = if numeral s < 2 ^ 64 then some (numeral s) else none := by
  split
  · exact decimal?_eq_some.mpr ⟨h, rfl, ‹_›⟩
  · refine Option.eq_none_iff_forall_ne_some.mpr fun n hn => ?_
    obtain ⟨-, rfl, hlt⟩ := decimal?_eq_some.mp hn
    contradiction

theorem Digits.not_mem (h : Digits s) {c : UInt8} (hc : c < 48) : c ∉ s := by
  intro hmem
  exact absurd hc (UInt8.not_lt.mpr (h.2 c hmem).1)

/-! ## What is prescribed -/

/-- A single range. -/
inductive RangeSpec
  | span (first last : ℕ)
  | tail (first : ℕ)
  | suffix (length : ℕ)

/-- The first byte and the number of bytes a range selects from `total`; `none` if it is not
satisfiable. -/
def RangeSpec.prescribed (total : ℕ) : RangeSpec → Option (ℕ × ℕ)
  | .span first last =>
    if first < total ∧ first ≤ last then some (first, min last (total - 1) - first + 1) else none
  | .tail first => if first < total then some (first, total - first) else none
  | .suffix length => if 0 < length then some (total - min length total, min length total) else none

inductive RangeSpec.Header : Bytes → RangeSpec → Prop
  | span {a b : Bytes} (ha : Digits a) (hb : Digits b) :
      Header (ascii "bytes=" ++ (a ++ 45 :: b)) (.span (numeral a) (numeral b))
  | tail {a : Bytes} (ha : Digits a) : Header (ascii "bytes=" ++ (a ++ [45])) (.tail (numeral a))
  | suffix {n : Bytes} (hn : Digits n) : Header (ascii "bytes=" ++ 45 :: n) (.suffix (numeral n))

/-- The numbers that decide where the range ends have 64 bits. -/
def RangeSpec.Fits : RangeSpec → Prop
  | .span _ last => last < 2 ^ 64
  | .tail _ => True
  | .suffix length => length < 2 ^ 64

/-! ## What is selected -/

variable {α : Type}

theorem require_andThen (c : Prop) [Decidable c] (status : ℕ) (message : String)
    (k : Unit → Svc α) :
    (require c status message >>= k) = if c then k () else Task.throw
    (.error status message none) := by
  by_cases h : c
  · rw [if_pos h, show (require c status message : Svc Unit) = pure () from if_pos h]
    rfl
  · rw [if_neg h, show (require c status message : Svc Unit) = Task.throw _ from if_neg h]
    rfl

theorem number_andThen (s : Bytes) (k : ℕ → Svc α) :
    (number s >>= k) = match decimal? s with
      | none => Task.throw (.error 400 "invalid number" none)
      | some n => k n := by
  unfold number
  cases decimal? s <;> rfl

theorem split_at {sep : UInt8} {a b : Bytes} (ha : sep ∉ a) :
    (a ++ sep :: b).takeWhile (· != sep) = a ∧
    ((a ++ sep :: b).dropWhile (· != sep)).drop 1 = b := by
  have hall : ∀ c ∈ a, (c != sep) = true := fun c hc => bne_iff_ne.mpr fun heq => ha (heq ▸ hc)
  rw [takeWhile_append_of_pos hall, dropWhile_append_of_pos hall]
  simp

/-- The answer to a range from its first to its last byte. -/
def answered (id : Id) (f : FileInfo) (first finish : ℕ) : Svc Reply :=
  if first < f.total_size ∧ first ≤ finish then
    pure (.stream 206 id first (finish - first + 1) f.total_size f.sha256)
  else Task.throw (.error 416 "range outside file" none)

theorem content_bytes (id : Id) (f : FileInfo) {first last : Bytes} (hdash : 45 ∉ first)
    (hcomma : 44 ∉ first ++ last) :
    content id f (ascii "bytes=" ++ (first ++ 45 :: last)) = if 0 < f.total_size then
        rangeBounds first last f.total_size >>= fun bounds => answered id f bounds.1 bounds.2
      else Task.throw (.error 416 "invalid range" none) := by
  obtain ⟨htake, hdrop⟩ := split_at (b := last) hdash
  have hne : ascii "bytes=" ++ (first ++ 45 :: last) ≠ [] := cons_ne_nil _ _
  have hsix : (ascii "bytes=" ++ (first ++ 45 :: last)).drop 6 = first ++ 45 :: last := rfl
  have hunit : (ascii "bytes=" ++ (first ++ 45 :: last)).take 6 = ascii "bytes=" ∧
      44 ∉ ascii "bytes=" ++ (first ++ 45 :: last) := by
    refine ⟨rfl, ?_⟩
    simp only [mem_append, mem_cons, not_or] at hcomma ⊢
    exact ⟨by decide, hcomma.1, by decide, hcomma.2⟩
  have hmem : 45 ∈ first ++ 45 :: last := mem_append_right _ mem_cons_self
  unfold content
  rw [if_neg hne]
  simp only [require_andThen, hsix, htake, hdrop, if_pos hunit, hmem, true_and]
  rfl

section Header

variable (id : Id) (f : FileInfo) {a b n : Bytes}

theorem content_span (ha : Digits a) (hb : Digits b) :
    content id f (ascii "bytes=" ++ (a ++ 45 :: b)) = if 0 < f.total_size then
        if numeral a < 2 ^ 64 then
          if numeral b < 2 ^ 64 then
            answered id f (numeral a) (min (f.total_size - 1) (numeral b))
          else Task.throw (.error 400 "invalid number" none)
        else Task.throw (.error 400 "invalid number" none)
      else Task.throw (.error 416 "invalid range" none) := by
  have hcomma : 44 ∉ a ++ b := by
    simp only [mem_append, not_or]
    exact ⟨ha.not_mem (by decide), hb.not_mem (by decide)⟩
  rw [content_bytes id f (ha.not_mem (by decide)) hcomma]
  simp only [rangeBounds, if_neg ha.1, if_neg hb.1, number_andThen, ha.decimal?, hb.decimal?]
  split_ifs <;> rfl

theorem content_tail (ha : Digits a) :
    content id f (ascii "bytes=" ++ (a ++ [45])) = if 0 < f.total_size then
        if numeral a < 2 ^ 64 then
          answered id f (numeral a) (f.total_size - 1)
        else Task.throw (.error 400 "invalid number" none)
      else Task.throw (.error 416 "invalid range" none) := by
  have hcomma : 44 ∉ a ++ [] := by
    rw [append_nil]
    exact ha.not_mem (by decide)
  rw [content_bytes id f (ha.not_mem (by decide)) hcomma]
  simp only [rangeBounds, if_neg ha.1, if_true, number_andThen, ha.decimal?]
  split_ifs <;> rfl

theorem content_suffix (hn : Digits n) :
    content id f (ascii "bytes=" ++ 45 :: n) = if 0 < f.total_size then
        if numeral n < 2 ^ 64 then
          if 0 < numeral n then
            answered id f (f.total_size - min f.total_size (numeral n)) (f.total_size - 1)
          else Task.throw (.error 416 "invalid suffix" none)
        else Task.throw (.error 400 "invalid number" none)
      else Task.throw (.error 416 "invalid range" none) := by
  rw [show ascii "bytes=" ++ 45 :: n = ascii "bytes=" ++ ([] ++ 45 :: n) from rfl,
    content_bytes id f (by simp) (hn.not_mem (by decide))]
  simp only [rangeBounds, if_true, number_andThen, require_andThen, hn.decimal?]
  split_ifs with h₀ h₁ h₂
  · simp only [if_pos h₂]
    rfl
  · simp only [if_neg h₂]
    rfl
  · rfl
  · rfl

/-- **What `content` makes of a single range.** One that is not satisfiable is rejected. Another is
served as prescribed if its numbers have 64 bits and the file is not empty; otherwise it is
rejected, too. -/
theorem content_header (hsize : f.total_size < 2 ^ 64) {text : Bytes} {spec : RangeSpec}
    (h : spec.Header text) :
    (spec.prescribed f.total_size = none → ∃ e, content id f text = Task.throw e) ∧
      ∀ first length, spec.prescribed f.total_size = some (first, length) →
      (spec.Fits ∧ 0 < f.total_size →
          content id f text = pure (.stream 206 id first length f.total_size f.sha256)) ∧
        (¬(spec.Fits ∧ 0 < f.total_size) → ∃ e, content id f text = Task.throw e) := by
  cases h with
  | span ha hb =>
    rename_i a b
    rw [content_span id f ha hb]
    simp only [RangeSpec.prescribed, RangeSpec.Fits, answered]
    generalize numeral a = first
    generalize numeral b = last
    constructor
    · intro hnone
      split_ifs with h₀ h₁ h₂ h₃
      · rw [if_pos (by omega)] at hnone
        cases hnone
      all_goals exact ⟨_, rfl⟩
    · intro first' length hsome
      split at hsome
      · cases hsome
        constructor
        · intro hfits
          rw [if_pos hfits.2, if_pos (by omega), if_pos hfits.1, if_pos (by omega), Nat.min_comm]
        · intro hfits
          split_ifs with h₀ h₁ h₂ h₃
          · exact absurd ⟨h₂, h₀⟩ hfits
          all_goals exact ⟨_, rfl⟩
      · cases hsome
  | tail ha =>
    rename_i a
    rw [content_tail id f ha]
    simp only [RangeSpec.prescribed, RangeSpec.Fits, answered]
    generalize numeral a = first
    constructor
    · intro hnone
      split_ifs with h₀ h₁ h₂
      · rw [if_pos (by omega)] at hnone
        cases hnone
      all_goals exact ⟨_, rfl⟩
    · intro first' length hsome
      split at hsome
      · cases hsome
        constructor
        · intro hfits
          rw [if_pos hfits.2, if_pos (by omega), if_pos (by omega)]
          congr 2
          omega
        · intro hfits
          split_ifs with h₀ h₁ h₂
          · exact absurd ⟨trivial, h₀⟩ hfits
          all_goals exact ⟨_, rfl⟩
      · cases hsome
  | suffix hn =>
    rename_i n
    rw [content_suffix id f hn]
    simp only [RangeSpec.prescribed, RangeSpec.Fits, answered]
    generalize numeral n = count
    constructor
    · intro hnone
      split_ifs with h₀ h₁ h₂
      · rw [if_pos (by omega)] at hnone
        cases hnone
      all_goals exact ⟨_, rfl⟩
    · intro first' length hsome
      split at hsome
      · cases hsome
        constructor
        · intro hfits
          rw [if_pos hfits.2, if_pos hfits.1, if_pos (by omega), if_pos (by omega)]
          congr 2 <;> omega
        · intro hfits
          split_ifs with h₀ h₁ h₂
          · exact absurd ⟨h₁, h₀⟩ hfits
          all_goals exact ⟨_, rfl⟩
      · cases hsome

theorem rangeBounds_eq (first last : Bytes) (total : ℕ) :
    rangeBounds first last total = if first = [] then
        match decimal? last with
        | none => Task.throw (.error 400 "invalid number" none)
        | some n =>
          if 0 < n then pure (total - min total n, total - 1)
          else Task.throw (.error 416 "invalid suffix" none)
      else
        match decimal? first with
        | none => Task.throw (.error 400 "invalid number" none)
        | some start =>
          if last = [] then pure (start, total - 1)
          else
            match decimal? last with
            | none => Task.throw (.error 400 "invalid number" none)
            | some n => pure (start, min (total - 1) n) := by
  simp only [rangeBounds, number_andThen, require_andThen]

theorem rangeBounds_cases (first last : Bytes) (total : ℕ) :
    (∃ e, rangeBounds first last total = Task.throw e) ∨
      ∃ start finish, rangeBounds first last total = pure (start, finish) ∧ finish ≤ total - 1 := by
  rw [rangeBounds_eq]
  split
  · split
    · exact .inl ⟨_, rfl⟩
    · split
      · exact .inr ⟨_, _, rfl, le_rfl⟩
      · exact .inl ⟨_, rfl⟩
  · split
    · exact .inl ⟨_, rfl⟩
    · split
      · exact .inr ⟨_, _, rfl, le_rfl⟩
      · split
        · exact .inl ⟨_, rfl⟩
        · exact .inr ⟨_, _, rfl, min_le_left _ _⟩

theorem content_within (range : Bytes) :
    (∃ e, content id f range = Task.throw e) ∨ ∃ status first length,
      content id f range = pure (.stream status id first length f.total_size f.sha256) ∧
        first + length ≤ f.total_size := by
  unfold content
  split
  · exact .inr ⟨200, 0, f.total_size, rfl, (Nat.zero_add _).le⟩
  simp only [require_andThen]
  split
  · split
    · rename_i hpos
      rcases rangeBounds_cases ((range.drop 6).takeWhile (· != 45))
        (((range.drop 6).dropWhile (· != 45)).drop 1)
        f.total_size with ⟨e, he⟩ | ⟨start, finish, hbounds, hfinish⟩
      · rw [he]
        exact .inl ⟨e, rfl⟩
      · rw [hbounds]
        change (∃ e, (if start < f.total_size ∧ start ≤ finish then _ else _ : Svc Reply) = _) ∨
          ∃ status first length,
            (if start < f.total_size ∧ start ≤ finish then _ else _ : Svc Reply) = _ ∧ _
        split
        · refine .inr ⟨206, start, finish - start + 1, rfl, ?_⟩
          omega
        · exact .inl ⟨_, rfl⟩
    · exact .inl ⟨_, rfl⟩
  · exact .inl ⟨_, rfl⟩

end Header

/-! ## Words of 64 bits -/

def word? (s : Bytes) : Option UInt64 := (decimal? s).map UInt64.ofNat

/-- The first and the last byte of a range, in words that wrap, as the source computes them. -/
def wordBounds (first last : Bytes) (total : UInt64) : Option (UInt64 × UInt64) :=
  if first = [] then do
    let suffix ← word? last
    if 0 < suffix then some (total - min total suffix, total - 1) else none
  else do
    let start ← word? first
    if last = [] then some (start, total - 1)
    else do
      let n ← word? last
      some (start, min (total - 1) n)

/-- The first byte and the number of bytes. -/
def rangeWords (first last : Bytes) (total : UInt64) : Option (UInt64 × UInt64) := do
  let bounds ← wordBounds first last total
  if bounds.1 < total ∧ bounds.1 ≤ bounds.2 then some (bounds.1, bounds.2 - bounds.1 + 1) else none

theorem toNat_min (a b : UInt64) : (min a b).toNat = min a.toNat b.toNat := by
  change (if a ≤ b then a else b).toNat = _
  split
  · rename_i h
    exact (min_eq_left (UInt64.le_iff_toNat_le.mp h)).symm
  · rename_i h
    exact (min_eq_right (not_le.mp (mt UInt64.le_iff_toNat_le.mpr h)).le).symm

theorem word?_eq {n : ℕ} (h : decimal? s = some n) : ∃ w, word? s = some w ∧ w.toNat = n :=
  ⟨UInt64.ofNat n, by rw [word?, h]; rfl, UInt64.toNat_ofNat_of_lt (decimal?_eq_some.mp h).2.2⟩

theorem word?_eq_none (h : decimal? s = none) : word? s = none := by rw [word?, h]; rfl

variable {total : UInt64}

theorem rangeBounds_words (hpos : 0 < total.toNat) (first last : Bytes) :
    match wordBounds first last total with
    | none => ∃ e, rangeBounds first last total.toNat = Task.throw e
    | some b => rangeBounds first last total.toNat = pure (b.1.toNat, b.2.toNat) ∧
        b.2.toNat ≤ total.toNat - 1 := by
  have hone : (total - 1).toNat = total.toNat - 1 := by
    refine UInt64.toNat_sub_of_le _ _ (UInt64.le_iff_toNat_le.mpr ?_)
    exact hpos
  rw [rangeBounds_eq]
  unfold wordBounds
  by_cases hfirst : first = []
  · rw [if_pos hfirst, if_pos hfirst]
    cases hn : decimal? last with
    | none =>
      rw [word?_eq_none hn]
      exact ⟨_, rfl⟩
    | some n =>
      obtain ⟨w, hw, rfl⟩ := word?_eq hn
      rw [hw]
      have hstart : (total - min total w).toNat = total.toNat - min total.toNat w.toNat := by
        rw [UInt64.toNat_sub_of_le, toNat_min]
        rw [UInt64.le_iff_toNat_le, toNat_min]
        exact min_le_left _ _
      have hiff : 0 < w ↔ 0 < w.toNat := UInt64.lt_iff_toNat_lt
      by_cases hzero : 0 < w
      · simp only [Option.bind_eq_bind, Option.bind_some, if_pos hzero, if_pos (hiff.mp hzero),
          hstart, hone]
        exact ⟨trivial, le_rfl⟩
      · simp only [Option.bind_eq_bind, Option.bind_some, if_neg hzero, if_neg (mt hiff.mpr hzero)]
        exact ⟨_, rfl⟩
  · rw [if_neg hfirst, if_neg hfirst]
    cases ha : decimal? first with
    | none =>
      rw [word?_eq_none ha]
      exact ⟨_, rfl⟩
    | some a =>
      obtain ⟨start, hstart, rfl⟩ := word?_eq ha
      rw [hstart]
      by_cases hlast : last = []
      · simp only [Option.bind_eq_bind, Option.bind_some, if_pos hlast, hone]
        exact ⟨trivial, le_rfl⟩
      · simp only [Option.bind_eq_bind, Option.bind_some, if_neg hlast]
        cases hb : decimal? last with
        | none =>
          rw [word?_eq_none hb]
          exact ⟨_, rfl⟩
        | some b =>
          obtain ⟨w, hw, rfl⟩ := word?_eq hb
          simp only [hw, Option.bind_some, toNat_min, hone]
          exact ⟨trivial, min_le_left _ _⟩

theorem answered_words (id : Id) (f : FileInfo) (htotal : f.total_size = total.toNat)
    (hpos : 0 < total.toNat)
    (start finish : UInt64) (hfinish : finish.toNat ≤ total.toNat - 1) :
    match (if start < total ∧ start ≤ finish then some (start, finish - start + 1) else none :
      Option (UInt64 × UInt64)) with
    | none => ∃ e, answered id f start.toNat finish.toNat = Task.throw e
    | some w => answered id f start.toNat finish.toNat =
        pure (.stream 206 id w.1.toNat w.2.toNat f.total_size f.sha256) := by
  have hiff : start < total ∧ start ≤ finish ↔ start.toNat < f.total_size ∧
    start.toNat ≤ finish.toNat := by
    rw [htotal, UInt64.lt_iff_toNat_lt, UInt64.le_iff_toNat_le]
  unfold answered
  by_cases h : start < total ∧ start ≤ finish
  · have hlength : (finish - start + 1).toNat = finish.toNat - start.toNat + 1 := by
      have hlt := total.toNat_lt
      rw [UInt64.toNat_add, UInt64.toNat_sub_of_le _ _ h.2]
      change (finish.toNat - start.toNat + 1) % 2 ^ 64 = _
      omega
    rw [if_pos h, if_pos (hiff.mp h)]
    simp only [hlength]
  · rw [if_neg h, if_neg (mt hiff.mpr h)]
    exact ⟨_, rfl⟩

/-- `content` answers the range `first-last` as the words of the source say. -/
def AsWords (id : Id) (f : FileInfo) (total : UInt64) (first last : Bytes) : Prop :=
  match rangeWords first last total with
  | none => ∃ e, content id f (ascii "bytes=" ++ (first ++ 45 :: last)) = Task.throw e
  | some w => content id f (ascii "bytes=" ++ (first ++ 45 :: last)) =
      pure (.stream 206 id w.1.toNat w.2.toNat f.total_size f.sha256)

/-- **No word wraps.** -/
theorem content_words (id : Id) (f : FileInfo) (htotal : f.total_size = total.toNat)
    (hpos : 0 < total.toNat)
    {first last : Bytes} (hdash : 45 ∉ first) (hcomma : 44 ∉ first ++ last) :
    AsWords id f total first last := by
  have hbounds := rangeBounds_words hpos first last
  unfold AsWords
  rw [content_bytes id f hdash hcomma, if_pos (htotal ▸ hpos), htotal]
  unfold rangeWords
  cases hb : wordBounds first last total with
  | none =>
    rw [hb] at hbounds
    obtain ⟨e, he⟩ := hbounds
    rw [he]
    exact ⟨e, rfl⟩
  | some b =>
    rw [hb] at hbounds
    obtain ⟨hbounds, hfinish⟩ := hbounds
    rw [hbounds, ← htotal]
    exact answered_words id f htotal hpos b.1 b.2 hfinish

/-! ## The bytes that are sent -/

/-- What a connection has written: the header of its reply, and the bytes after it. -/
structure Sent where
  header : Option Response := none
  body : Bytes := []

section Serving

variable (C : Store.Crypto) (master_key : Bytes) (uid : Uid) (id : Id) (hash : Bytes)
    (chunks : List Bytes)

/-- The row of a file that the user can fetch. -/
structure Fetchable (row : Row) : Prop where
  receiver : row.receiver_uid = uid
  status : row.status = .available ∨ row.status = .downloaded
  size : row.total_size = chunks.flatten.length
  sha256 : row.sha256 = hash

/-- Statements, reads of the store and writes to the connection all succeed. The row of the file is
that of a file the user can fetch, and the store holds its chunks. -/
def serving : Monitor Op Op.Answer where
  Ghost := Sent
  allow _ _ := True
  answer _ e r := match e, r with
    | .call (.selectFile _), r =>
      ∃ row, Fetchable uid hash chunks row ∧ r = some (some (row, false))
    | .call (.storeRead i offset maximum_bytes), r => ∃ d, Store.Stored C master_key d id chunks ∧
        r = (Store.read C master_key d i (UInt64.ofNat offset) maximum_bytes).toOption
    | _, r => r.isSome
  next m e _ := match e with
    | .respond r => { m with header := some r }
    | .write _ bytes => { m with body := m.body ++ bytes }
    | _ => m

variable {C master_key uid id hash chunks} {α : Type} {m : Sent}
    {Q : Sent → Except Failure α → Prop}

/-- A lock or a lease that is taken or given back. -/
def Call.Handled : Call → Prop
  | .lock _ => True
  | .unlock _ => True
  | .getConnection => True
  | .returnConnection => True
  | _ => False

variable {e : Call}

theorem Call.Handled.isSome (he : e.Handled) {r : e.Answer}
    (hr : (serving C master_key uid id hash chunks).answer m (.call e) r) : r.isSome := by
  cases e with
  | lock i | unlock i | getConnection | returnConnection => exact hr
  | _ => exact he.elim

/-- What the file programs do while they serve. -/
abbrev fetching (C : Store.Crypto) (master_key : Bytes) (uid : Uid) (id : Id) (hash : Bytes)
    (chunks : List Bytes) :
    Monitor Call Call.Answer := (serving C master_key uid id hash chunks).pull Op.call

theorem fetching_handled (he : e.Handled) {failure : Failure} {k : e.Value → Svc α}
    (h : ∀ v, Meets (fetching C master_key uid id hash chunks) Q m (k v)) :
    Meets (fetching C master_key uid id hash chunks) Q m (callOr failure e >>= k : Svc α) := by
  refine Meets.perform trivial fun r hr => ?_
  cases r with
  | none => cases he.isSome (m := m) hr
  | some v => exact h v

theorem fetching_last (he : e.Handled) {Q : Sent → Except Failure e.Value → Prop}
    (h : ∀ v, Q m (.ok v)) :
    Meets (fetching C master_key uid id hash chunks) Q m (call e) := by
  refine ⟨trivial, fun r hr => ?_⟩
  cases r with
  | none => cases he.isSome (m := m) hr
  | some v => exact h v

theorem fetching_scopes (hid : validId id = true) {body : Svc α}
    (h : Meets (fetching C master_key uid id hash chunks) Q m body) :
    Meets (fetching C master_key uid id hash chunks) Q m (withLock id (withLease body)) := by
  refine Meets.require (fun hno => absurd hid hno) fun _ => ?_
  refine fetching_handled (e := .lock id) trivial fun _ => ?_
  refine Meets.ensuring
    (Meets.weaken (Q := Q) ?_ fun m' r hr => fetching_last (e := .unlock id) trivial fun _ => hr)
  refine fetching_handled (e := .getConnection) trivial fun _ => ?_
  exact Meets.ensuring
    (h.weaken fun m' r hr => fetching_last (e := .returnConnection) trivial fun _ => hr)

theorem fetching_file (hid : validId id = true) {k : FileInfo → Svc α}
    (h : ∀ row, Fetchable uid hash chunks row →
      Meets (fetching C master_key uid id hash chunks) Q m (k (.ofRow id row false))) :
    Meets (fetching C master_key uid id hash chunks) Q m (file id >>= k : Svc α) := by
  refine Meets.andThen ?_
  refine Meets.require (fun hno => absurd hid hno) fun _ => ?_
  refine Meets.perform trivial fun r hr => ?_
  obtain ⟨row, hrow, rfl⟩ := hr
  exact h row hrow

theorem serves_read (hid : validId id = true) {n : ℕ} (hn : n < chunks.length)
    (hsize : PlainChunkBytes * n < 2 ^ 64) {Q : Sent → Except Failure Bytes → Prop}
    (h : Q m (.ok ((chunks.flatten.drop (PlainChunkBytes * n)).take PlainChunkBytes))) :
    Meets (fetching C master_key uid id hash chunks) Q m
    (read id (UInt64.ofNat (PlainChunkBytes * n))) := by
  refine fetching_scopes hid (fetching_file hid fun row hrow => ?_)
  refine Meets.require (fun hno => absurd ⟨rfl, hrow.status⟩ hno) fun _ => ?_
  refine ⟨trivial, fun r hr => ?_⟩
  obtain ⟨d, hstored, rfl⟩ := hr
  rw [UInt64.ofNat_toNat, hstored.read hn hsize]
  exact h

/-- What the loop takes from a chunk: bytes of the file from `offset` on, and at least one. -/
theorem part_eq (c : Bytes) {offset remaining : ℕ} (hpos : 0 < remaining)
    (hend : offset + remaining ≤ c.length) :
    ∃ count, 0 < count ∧ count ≤ remaining ∧
      (((c.drop (PlainChunkBytes * (offset / PlainChunkBytes))).take PlainChunkBytes).drop
        (offset - PlainChunkBytes * (offset / PlainChunkBytes))).take remaining =
      (c.drop offset).take count ∧ ((c.drop offset).take count).length = count := by
  have hchunk : 0 < PlainChunkBytes := by decide
  have hmod := Nat.mod_lt offset hchunk
  have hdiv := Nat.div_add_mod offset PlainChunkBytes
  generalize PlainChunkBytes * (offset / PlainChunkBytes) = base at hdiv ⊢
  refine ⟨min remaining (PlainChunkBytes - (offset - base)), by omega, min_le_left _ _, ?_, ?_⟩
  · rw [drop_take, take_take, drop_drop, show base + (offset - base) = offset by omega]
  · rw [length_take, length_drop]
    omega

/-- **The loop writes the selected bytes.** -/
theorem serves_next (hid : validId id = true) (hsize : chunks.flatten.length < 2 ^ 64)
    (hshape : Store.WellShaped chunks) (turns offset remaining : ℕ) (hturns : remaining ≤ turns)
    (hend : offset + remaining ≤ chunks.flatten.length) :
    Meets (serving C master_key uid id hash chunks)
      (fun (m' : Sent) r => r = .ok () ∧
        m' = { m with body := m.body ++ (chunks.flatten.drop offset).take remaining })
      m (next id turns offset remaining) := by
  have hnone : ∀ (m : Sent) (rest : Bytes), m = { m with body := m.body ++ rest.take 0 } := by
    intro m rest
    rw [take_zero, append_nil]
  induction turns generalizing offset remaining m with
  | zero =>
    obtain rfl : remaining = 0 := by omega
    exact ⟨rfl, hnone _ _⟩
  | succ turns ih =>
    unfold next
    by_cases hzero : remaining = 0
    · subst hzero
      exact ⟨rfl, hnone _ _⟩
    rw [if_neg hzero]
    have hchunk : offset / PlainChunkBytes < chunks.length := by
      have hle := Store.length_flatten_le hshape.isChunk
      exact Nat.div_lt_of_lt_mul (by omega)
    obtain ⟨count, hpos, hcount, hpart, hlength⟩ :=
      part_eq chunks.flatten (Nat.pos_of_ne_zero hzero) hend
    have hbase := Nat.mul_div_le offset PlainChunkBytes
    rw [Nat.mul_comm (offset / PlainChunkBytes)]
    refine Meets.andThen (Meets.embed (serves_read hid hchunk (by omega) ?_))
    refine Meets.require (fun hno => absurd ?_ hno) fun _ => ?_
    · have hmod := Nat.mod_lt offset (show 0 < PlainChunkBytes by decide)
      have hdiv := Nat.div_add_mod offset PlainChunkBytes
      rw [length_take, length_drop]
      omega
    simp only [hpart, hlength]
    refine Meets.perform trivial fun r hr => ?_
    cases r with
    | none => cases hr
    | some _ =>
      refine (ih (offset + count) (remaining - count) (by omega) (by omega)).weaken fun m' r hr =>
        ⟨hr.1, ?_⟩
      rw [hr.2]
      change ({ m with body := m.body ++ List.take remaining _ ++ _ } : Sent) = _
      obtain ⟨rest, rfl⟩ := Nat.exists_eq_add_of_le hcount
      rw [hpart, Nat.add_sub_cancel_left, take_add, drop_drop, append_assoc]

theorem content_congr {f f' : FileInfo} (hsize : f.total_size = f'.total_size)
    (hsha : f.sha256 = f'.sha256)
    (range : Bytes) : content id f range = content id f' range := by
  unfold content
  rw [hsize, hsha]

theorem serves_handleFile (hid : validId id = true) {f : FileInfo}
    (hsize : f.total_size = chunks.flatten.length)
    (hsha : f.sha256 = hash) (range : Bytes) :
    Meets (fetching C master_key uid id hash chunks)
    (fun (m' : Sent) r => m' = m ∧ content id f range = Prog.ret r) m
      (handleFile uid .files .get id (ascii "content") range) := by
  refine fetching_scopes hid (fetching_file hid fun row hrow => ?_)
  refine Meets.require (fun hno => absurd (.inr hrow.receiver) hno) fun _ => ?_
  refine Meets.require (fun hno => absurd nofun hno) fun _ => ?_
  have hactive : (FileInfo.ofRow id row false).expired = false ∧
    (FileInfo.ofRow id row false).status ≠ .cancelled := by
    refine ⟨rfl, ?_⟩
    change row.status ≠ .cancelled
    rcases hrow.status with hstatus | hstatus <;> rw [hstatus] <;> nofun
  refine Meets.require (fun hno => absurd hactive hno) fun _ => ?_
  rw [if_neg (by decide), if_neg (by decide)]
  refine Meets.require (fun hno => absurd ⟨rfl, hrow.receiver⟩ hno) fun _ => ?_
  refine Meets.require (fun hno => absurd hrow.status hno) fun _ => ?_
  rw [if_neg (by decide)]
  refine Meets.require (fun hno => absurd ⟨rfl, rfl⟩ hno) fun _ => ?_
  have hcontent : content id (.ofRow id row false) range = content id f range :=
    content_congr (hrow.size.trans hsize.symm) (hrow.sha256.trans hsha.symm) range
  obtain ⟨r, hr⟩ := silent_content id f range
  rw [hcontent, hr]
  exact ⟨rfl, rfl⟩

end Serving

/-! ## The route -/

/-- The request for the content of a file. -/
def fetchRequest (id : Id) (range : Bytes) : HttpRequest where
  method := .get
  target := ascii "/api/resources/v1/files/" ++ (id ++ ascii "/content")
  range := range
  if_match := []
  if_none_match := []
  body := []

variable {id : Id}

theorem slash_not_mem (hid : validId id = true) : 47 ∉ id := by
  intro hmem
  obtain ⟨i, hi⟩ := mem_iff_getElem?.mp hmem
  have hall := (Bool.and_eq_true_iff.mp hid).2
  have hchar := all_eq_true.mp hall (47, i) (mk_mem_zipIdx_iff_getElem?.mpr hi)
  simp only at hchar
  split at hchar <;> exact absurd hchar (by decide)

theorem check_andThen {c : Prop} [Decidable c] (h : c) (status : ℕ) (message : String)
    (k : Unit → Web α) :
    (check c status message >>= k) = k () := by
  rw [show (check c status message : Web Unit) = pure () from if_pos h]
  rfl

theorem fileRoute_content (uid : Uid) (hid : validId id = true) (req : HttpRequest) :
    fileRoute uid { req with method := .get } (ascii "files/" ++ (id ++ ascii "/content")) = (do
      let r ← lift (handleFile uid .files .get id (ascii "content") req.range)
      return .file r) := by
  obtain ⟨hid', haction⟩ := split_at (b := ascii "content") (slash_not_mem hid)
  have hslash : 47 ∈ ascii "files/" ++ (id ++ ascii "/content") := by
    refine mem_append_left _ ?_
    decide
  have hgroup :
    (ascii "files/" ++ (id ++ ascii "/content")).takeWhile (· != 47) = ascii "files" := rfl
  have hrest : ((ascii "files/" ++ (id ++ ascii "/content")).dropWhile (· != 47)).drop 1 =
      id ++ 47 :: ascii "content" := rfl
  unfold fileRoute
  simp only [check_andThen hslash, hgroup, hrest, hid', haction]
  rw [check_andThen (by decide), if_neg (by decide : ascii "files" ≠ ascii "uploads"),
    if_neg (by simp),
    if_neg (by simp)]

theorem serve_fetch (setup : Setup) (uid : Uid) (hid : validId id = true) (range : Bytes) :
    serve setup uid (fetchRequest id range) = (do
      let r ← lift (handleFile uid .files .get id (ascii "content") range)
      return .file r) := by
  have hlive : (fetchRequest id range).target ≠ ascii "/health/live" :=
    fun h => absurd (congrArg (List.take 2) h) (show [47, 97] ≠ [47, 104] by decide)
  have hready : (fetchRequest id range).target ≠ ascii "/health/ready" :=
    fun h => absurd (congrArg (List.take 2) h) (show [47, 97] ≠ [47, 104] by decide)
  have hapi : startsWith "/api/resources/v1/" (fetchRequest id range).target = true :=
    decide_eq_true rfl
  have hdrop : (fetchRequest id range).target.drop 18 =
    ascii "files/" ++ (id ++ ascii "/content") := rfl
  unfold serve
  rw [if_neg hlive, if_neg hready, check_andThen hapi, hdrop]
  -- no other route begins with an `f`
  have hother : ∀ text : Bytes, text.take 1 ≠ [102] →
    ascii "files/" ++ (id ++ ascii "/content") ≠ text :=
    fun text htext h => htext (congrArg (List.take 1) h).symm
  have husers : startsWith "users/" (ascii "files/" ++ (id ++ ascii "/content")) = false :=
    decide_eq_false fun h => absurd (congrArg (List.take 1) h) (show [102] ≠ [117] by decide)
  have havatars : startsWith "avatars/" (ascii "files/" ++ (id ++ ascii "/content")) = false :=
    decide_eq_false fun h => absurd (congrArg (List.take 1) h) (show [102] ≠ [97] by decide)
  unfold route
  rw [if_neg (by simp [husers]), if_neg, if_neg]
  · exact fileRoute_content uid hid (fetchRequest id range)
  · exact fun h => hother _ (by decide) h.1
  · rintro (h | h)
    · exact hother _ (by decide) h
    · rw [havatars] at h
      cases h

/-! ## The whole -/

section Whole

variable {C : Store.Crypto} {master_key : Bytes} {uid : Uid} {id : Id} {hash : Bytes}
    {chunks : List Bytes}

/-- A request was rejected and nothing was sent, or the bytes that `content` selects of `c` were
announced and sent. -/
def Delivered (id : Id) (f : FileInfo) (c range : Bytes) (m : Sent) (r : Except Failure Unit) :
    Prop :=
  (∃ e, content id f range = Task.throw e ∧ r = .error e ∧ m = {}) ∨
  ∃ status first length, first + length ≤ f.total_size ∧
    content id f range = pure (.stream status id first length f.total_size f.sha256) ∧ r = .ok () ∧
    m.header = some (.file (.stream status id first length f.total_size f.sha256)) ∧
    m.body = (c.drop first).take length ∧ m.body.length = length

theorem serves_fetch (setup : Setup) (hid : validId id = true) (hshape : Store.WellShaped chunks)
    (hsize : chunks.flatten.length < 2 ^ 64) {f : FileInfo}
    (htotal : f.total_size = chunks.flatten.length)
    (hsha : f.sha256 = hash) (range : Bytes) :
    Meets (serving C master_key uid id hash chunks) (Delivered id f chunks.flatten range) {}
      (Job.program setup (.http uid (fetchRequest id range))) := by
  have hprogram : Job.program setup (.http uid (fetchRequest id range)) =
      ((do let r ← lift (handleFile uid .files .get id (ascii "content") range); return .file r :
        Web Response) >>=
        send : Web Unit) := by
    rw [← serve_fetch setup uid hid range]
    rfl
  rw [hprogram]
  refine Meets.andThen
    (Meets.andThen (Meets.embed ((serves_handleFile hid htotal hsha range).weaken ?_)))
  rintro m r ⟨rfl, hr⟩
  rcases content_within id f range with ⟨e, he⟩ | ⟨status, first, length, hreply, hend⟩
  · rw [he] at hr
    cases hr
    exact .inl ⟨e, he, rfl, rfl⟩
  · rw [hreply] at hr
    cases hr
    refine Meets.perform trivial fun r hr => ?_
    cases r with
    | none => cases hr
    | some _ =>
      refine (serves_next hid hsize hshape length first length le_rfl (htotal ▸ hend)).weaken
        fun m r hr => ?_
      refine .inr ⟨status, first, length, hend, hreply, hr.1, ?_⟩
      rw [hr.2]
      refine ⟨rfl, rfl, ?_⟩
      change ((chunks.flatten.drop first).take length).length = length
      rw [length_take, length_drop]
      omega

theorem pathFor_of_validId (hid : validId id = true) : Store.pathFor id = .ok () := by
  obtain ⟨hlength, hall⟩ := Bool.and_eq_true_iff.mp hid
  refine if_neg ?_
  rintro (hno | hbad)
  · exact hno (beq_iff_eq.mp hlength)
  · obtain ⟨c, hc, hbad⟩ := any_eq_true.mp hbad
    obtain ⟨i, hi⟩ := mem_iff_getElem?.mp hc
    have hchar := all_eq_true.mp hall (c, i) (mk_mem_zipIdx_iff_getElem?.mpr hi)
    simp only at hchar
    split at hchar
    · rw [beq_iff_eq.mp hchar] at hbad
      exact absurd hbad (by decide)
    · rw [hchar, Bool.true_or] at hbad
      cases hbad

theorem serving_answers (hid : validId id = true) (hshape : Store.WellShaped chunks) (m : Sent)
    (e : Op) :
    ∃ r, (serving C master_key uid id hash chunks).answer m e r := by
  have hstored : ∃ d, Store.Stored C master_key d id chunks := by
    refine ⟨⟨fun _ => some (Store.encodeFile C master_key id ⟨List.replicate 16 0, rfl⟩ chunks []),
      fun _ => true⟩, ?_⟩
    exact ⟨pathFor_of_validId hid, rfl, hshape, _, [], .inl rfl, rfl⟩
  cases e with
  | call e =>
    cases e with
    | selectFile i =>
      let row : Row := ⟨0, uid, [], [], chunks.flatten.length, 0, hash, [], .available, 0⟩
      exact ⟨_, row, ⟨rfl, .inl rfl, rfl, rfl⟩, rfl⟩
    | storeRead i offset maximum_bytes =>
      obtain ⟨d, hd⟩ := hstored
      exact ⟨_, d, hd, rfl⟩
    | _ => exact ⟨some default, rfl⟩
  | _ => exact ⟨some default, rfl⟩

end Whole

/-- **Byte ranges are served exactly.** Let the store hold a file, and let every statement, read and
write succeed. For every header `Range`, a request for the content is rejected, or its reply
announces `length` bytes from `first` on, which are in the file, and exactly these bytes follow.

* Without a header, the whole file is selected.
* A single range that is not satisfiable is rejected. A satisfiable one selects what is prescribed
  if and only if its numbers have 64 bits and the file is not empty.
* Computed in words of 64 bits, the selection is the same: no word wraps. -/
theorem ranges_served_iff (setup : Setup) (uid : Uid) {id : Id} (hid : validId id = true)
    {chunks : List Bytes}
    (hshape : Store.WellShaped chunks) (hsize : chunks.flatten.length < 2 ^ 64) (f : FileInfo)
    (htotal : f.total_size = chunks.flatten.length) :
    (∀ m e, ∃ r, (serving setup.crypto setup.master_key uid id f.sha256 chunks).answer m e r) ∧
    (∀ range, Meets (serving setup.crypto setup.master_key uid id f.sha256 chunks)
      (Delivered id f chunks.flatten range) {}
      (Job.program setup (.http uid (fetchRequest id range)))) ∧
    content id f [] = pure (.stream 200 id 0 f.total_size f.total_size f.sha256) ∧
    (∀ text spec, RangeSpec.Header text spec →
      (spec.prescribed f.total_size = none → ∃ e, content id f text = Task.throw e) ∧
      ∀ first length, spec.prescribed f.total_size = some (first, length) →
        (content id f text = pure (.stream 206 id first length f.total_size f.sha256) ↔
          spec.Fits ∧ 0 < f.total_size)) ∧
    ∀ total : UInt64, total.toNat = f.total_size → 0 < f.total_size → ∀ first last :
    Bytes, 45 ∉ first →
      44 ∉ first ++ last → AsWords id f total first last := by
  have hserves := fun range =>
    @serves_fetch setup.crypto setup.master_key uid _ _ _ setup hid hshape hsize f htotal rfl range
  refine ⟨serving_answers hid hshape, hserves, ?_, fun text spec htext => ?_, ?_⟩
  · rw [content, if_pos rfl]
  · obtain ⟨hnone, hsome⟩ := content_header id f (htotal ▸ hsize) htext
    refine ⟨hnone, fun first length h => ⟨fun hcontent => ?_, (hsome first length h).1⟩⟩
    by_contra hno
    obtain ⟨e, he⟩ := (hsome first length h).2 hno
    rw [he] at hcontent
    cases hcontent
  · intro total hw hpos first last hdash hcomma
    exact content_words id f hw.symm (hpos.trans_eq hw.symm) hdash hcomma

def smallFile : FileInfo where
  id := ascii "00000000-0000-0000-0000-000000000000"
  fromuid := 1
  touid := 2
  name := ascii "a"
  mime := []
  sha256 := []
  status := .available
  total_size := 5
  offset := 5
  expired := false

theorem digits_of_all (h : s ≠ [] ∧ s.all (fun c => 48 ≤ c && c ≤ 57) = true) : Digits s :=
  ⟨h.1, by simpa using h.2⟩

/-- The bytes 1 to 9 of five. -/
theorem ranges_served_small :
    content smallFile.id smallFile (ascii "bytes=" ++ (ascii "1" ++ 45 :: ascii "9")) =
      pure (.stream 206 smallFile.id 1 4 5 []) := by
  let setup : Setup :=
    ⟨default, [], ⟨fun _ => .error .dependency, fun _ _ => none, nofun⟩, [], fun _ => none⟩
  have hshape : Store.WellShaped [[1, 2, 3, 4, 5]] :=
    ⟨by simp [Store.IsChunk, PlainChunkBytes], nofun⟩
  have hheader : RangeSpec.Header (ascii "bytes=" ++ (ascii "1" ++ 45 :: ascii "9")) (.span 1 9) :=
    .span (digits_of_all (by decide)) (digits_of_all (by decide))
  have hserved :=
    ranges_served_iff setup 2 (by decide : validId smallFile.id = true) hshape (by decide) smallFile
    rfl
  exact ((hserved.2.2.2.1 _ _ hheader).2 1 4 rfl).mpr ⟨show 9 < 2 ^ 64 by decide, by decide⟩

/-- All bytes from the first on, up to a number that does not fit 64 bits. -/
theorem long_range_rejected :
    RangeSpec.Header (ascii "bytes=0-18446744073709551616") (.span 0 (2 ^ 64)) ∧
      (RangeSpec.span 0 (2 ^ 64)).prescribed smallFile.total_size = some (0, 5) ∧
      content smallFile.id smallFile (ascii "bytes=0-18446744073709551616") =
        Task.throw (.error 400 "invalid number" none) := by
  have hfirst : Digits (ascii "0") := digits_of_all (by decide)
  have hlast : Digits (ascii "18446744073709551616") := digits_of_all (by decide)
  refine ⟨.span hfirst hlast, by decide, ?_⟩
  exact content_span smallFile.id smallFile hfirst hlast

end DistributedChat.Resource
