import DistributedChat.Gate.Addresses

/-!
# New passwords

`validNewPassword` of the gate (`servers/gate/service/LogicSystem.cpp`) decodes the bytes of a
password by hand. It accepts exactly the passwords of 10 to 128 characters without white space,
written in UTF-8.

1. `continued`: the bytes after the leading one add six bits each.
2. `codePoint_eq_some`: one turn of the loop reads a character that the text starts with, and
   nothing else.
3. `scan_eq_some`: the loop reads a whole text and counts its characters.
-/

namespace DistributedChat.Gate

open Lib List

/-! ## The loop -/

/-- The bits of the leading byte and the number of bytes it announces. -/
def leading (lead : UInt8) : Option (ℕ × ℕ) :=
  if lead ≤ 0x7f then some (lead.toNat, 1)
  else if 0xc2 ≤ lead ∧ lead ≤ 0xdf then some (lead.toNat &&& 0x1f, 2)
  else if 0xe0 ≤ lead ∧ lead ≤ 0xef then some (lead.toNat &&& 0x0f, 3)
  else if 0xf0 ≤ lead ∧ lead ≤ 0xf4 then some (lead.toNat &&& 0x07, 4)
  else none

/-- The inner loop, over the bytes that follow the leading one. -/
def continued (value : ℕ) : Bytes → Option ℕ
  | [] => some value
  | byte :: rest =>
    if byte &&& 0xc0 ≠ 0x80 then none
    else continued (value <<< 6 ||| byte.toNat &&& 0x3f) rest

/-- The values that are no characters, or were written with too many bytes. -/
def malformed (width value : ℕ) : Bool :=
  width = 2 && value < 0x80 || width = 3 && value < 0x800 || width = 4 && value < 0x10000 ||
    0x10ffff < value || 0xd800 ≤ value && value ≤ 0xdfff

/-- One turn of the loop up to the value: the code point, and what is left of the password. -/
def codePoint (lead : UInt8) (rest : Bytes) : Option (ℕ × Bytes) :=
  match leading lead with
  | none => none
  | some (value, width) =>
    if rest.length + 1 < width then none
    else
      match continued value (rest.take (width - 1)) with
      | none => none
      | some value => if malformed width value then none else some (value, rest.drop (width - 1))

def whitespace (value : ℕ) : Bool :=
  0x09 ≤ value && value ≤ 0x0d || value = 0x20 || value = 0x85 || value = 0xa0 || value = 0x1680 ||
    0x2000 ≤ value && value ≤ 0x200a || value = 0x2028 || value = 0x2029 || value = 0x202f ||
    value = 0x205f || value = 0x3000

variable {lead : UInt8} {rest : Bytes} {value : ℕ}

theorem length_codePoint {rest' : Bytes} (h : codePoint lead rest = some (value, rest')) :
    rest'.length ≤ rest.length := by
  unfold codePoint at h
  split at h
  · cases h
  · split_ifs at h
    split at h
    · cases h
    · split_ifs at h
      cases h
      rw [length_drop]
      exact Nat.sub_le _ _

/-- The loop over the password, with the code points counted so far. -/
def scan (password : Bytes) (code_points : ℕ) : Option ℕ :=
  match password with
  | [] => some code_points
  | lead :: rest =>
    match h : codePoint lead rest with
    | none => none
    | some (value, rest') =>
      if whitespace value ∨ 128 < code_points + 1 then none
      else scan rest' (code_points + 1)
termination_by password.length
decreasing_by exact Nat.lt_succ_of_le (length_codePoint h)

theorem scan_none (h : codePoint lead rest = none) (code_points : ℕ) :
    scan (lead :: rest) code_points = none := by
  rw [scan]
  split
  · rfl
  · simp_all

theorem scan_some {rest' : Bytes} (h : codePoint lead rest = some (value, rest'))
    (code_points : ℕ) :
    scan (lead :: rest) code_points =
      if whitespace value ∨ 128 < code_points + 1 then none else scan rest' (code_points + 1) := by
  rw [scan]
  split
  · simp_all
  · next value' rest'' h' =>
    rw [h] at h'
    cases h'
    rfl

def validNewPassword (password : Bytes) : Bool :=
  if password = [] ∨ 128 * 4 < password.length then false
  else (scan password 0).any fun code_points => 10 ≤ code_points

/-! ## Characters -/

/-- The property `White_Space` of the Unicode character database. -/
def WhiteSpace (c : Char) : Prop :=
  (0x9 ≤ c.toNat ∧ c.toNat ≤ 0xd) ∨ (0x2000 ≤ c.toNat ∧ c.toNat ≤ 0x200a) ∨
    c.toNat ∈ [0x20, 0x85, 0xa0, 0x1680, 0x2028, 0x2029, 0x202f, 0x205f, 0x3000]

theorem whitespace_iff (c : Char) : whitespace c.toNat = true ↔ WhiteSpace c := by
  unfold whitespace WhiteSpace
  simp only [Bool.or_eq_true, Bool.and_eq_true, decide_eq_true_eq, mem_cons, not_mem_nil, or_false]
  omega

theorem exists_char (h : value ≤ 0x10ffff) (h' : ¬ (0xd800 ≤ value ∧ value ≤ 0xdfff)) :
    ∃ c : Char, c.toNat = value := by
  have hvalid : value.isValidChar := by
    unfold Nat.isValidChar
    omega
  exact ⟨Char.ofNatAux value hvalid, rfl⟩

theorem toNat_char (c : Char) : c.toNat ≤ 0x10ffff ∧ ¬ (0xd800 ≤ c.toNat ∧ c.toNat ≤ 0xdfff) := by
  have hvalid : c.toNat.isValidChar := c.valid
  unfold Nat.isValidChar at hvalid
  omega

/-- The bytes that follow a leading one. -/
def isTail (byte : UInt8) : Prop := 128 ≤ byte.toNat ∧ byte.toNat < 192

theorem forall_byte {p : UInt8 → Prop} (h : ∀ n < 256, p (UInt8.ofNat n)) (byte : UInt8) :
    p byte := by
  have hbyte := h byte.toNat byte.toNat_lt
  rwa [UInt8.ofNat_toNat] at hbyte

theorem isTail_iff (byte : UInt8) : byte &&& 0xc0 = 0x80 ↔ isTail byte := by
  unfold isTail
  revert byte
  exact forall_byte (by decide +kernel)

theorem leading_eq (lead : UInt8) :
    leading lead = if lead.toNat < 128 then some (lead.toNat, 1)
      else if 194 ≤ lead.toNat ∧ lead.toNat < 224 then some (lead.toNat - 192, 2)
      else if 224 ≤ lead.toNat ∧ lead.toNat < 240 then some (lead.toNat - 224, 3)
      else if 240 ≤ lead.toNat ∧ lead.toNat < 245 then some (lead.toNat - 240, 4)
      else none := by
  revert lead
  exact forall_byte (by decide +kernel)

theorem shiftLeft_or (value : ℕ) (byte : UInt8) :
    value <<< 6 ||| byte.toNat &&& 0x3f = value * 64 + byte.toNat % 64 := by
  have hbits : byte.toNat &&& 0x3f = byte.toNat % 2 ^ 6 :=
    Nat.and_two_pow_sub_one_eq_mod byte.toNat 6
  have hlt : byte.toNat % 2 ^ 6 < 2 ^ 6 := Nat.mod_lt _ (by decide)
  rw [hbits, ← Nat.shiftLeft_add_eq_or_of_lt hlt]
  exact congrArg (· + byte.toNat % 64) (Nat.shiftLeft_eq value 6)

@[simp] theorem continued_nil (value final : ℕ) :
    continued value [] = some final ↔ value = final := by
  rw [continued, Option.some.injEq]

@[simp] theorem continued_cons (value final : ℕ) (byte : UInt8) (rest : Bytes) :
    continued value (byte :: rest) = some final ↔
      isTail byte ∧ continued (value * 64 + byte.toNat % 64) rest = some final := by
  rw [continued, shiftLeft_or]
  by_cases h : byte &&& 0xc0 = 0x80
  · rw [if_neg (not_not.mpr h)]
    exact ⟨fun hrest => ⟨(isTail_iff byte).mp h, hrest⟩, And.right⟩
  · rw [if_pos h]
    exact ⟨nofun, fun hrest => absurd ((isTail_iff byte).mpr hrest.1) h⟩

/-! ## One character -/

theorem utf8EncodeChar_eq (c : Char) :
    String.utf8EncodeChar c = if c.toNat ≤ 127 then [UInt8.ofNat c.toNat]
      else if c.toNat ≤ 2047 then
        [UInt8.ofNat (c.toNat / 64 % 32 + 192), UInt8.ofNat (c.toNat % 64 + 128)]
      else if c.toNat ≤ 65535 then
        [UInt8.ofNat (c.toNat / 4096 % 16 + 224), UInt8.ofNat (c.toNat / 64 % 64 + 128),
          UInt8.ofNat (c.toNat % 64 + 128)]
      else
        [UInt8.ofNat (c.toNat / 262144 % 8 + 240), UInt8.ofNat (c.toNat / 4096 % 64 + 128),
          UInt8.ofNat (c.toNat / 64 % 64 + 128), UInt8.ofNat (c.toNat % 64 + 128)] := by
  unfold String.utf8EncodeChar
  rfl

@[simp] theorem leading_eq_some (lead : UInt8) (value width : ℕ) :
    leading lead = some (value, width) ↔ (width = 1 ∧ lead.toNat < 128 ∧ lead.toNat = value) ∨
      (width = 2 ∧ 194 ≤ lead.toNat ∧ lead.toNat < 224 ∧ lead.toNat = value + 192) ∨
      (width = 3 ∧ 224 ≤ lead.toNat ∧ lead.toNat < 240 ∧ lead.toNat = value + 224) ∨
      (width = 4 ∧ 240 ≤ lead.toNat ∧ lead.toNat < 245 ∧ lead.toNat = value + 240) := by
  rw [leading_eq]
  split_ifs <;> simp <;> omega

@[simp] theorem malformed_eq_false (width value : ℕ) :
    malformed width value = false ↔
      ¬ (width = 2 ∧ value < 0x80) ∧ ¬ (width = 3 ∧ value < 0x800) ∧ ¬
      (width = 4 ∧ value < 0x10000) ∧
        value ≤ 0x10ffff ∧ ¬ (0xd800 ≤ value ∧ value ≤ 0xdfff) := by
  unfold malformed
  simp only [Bool.or_eq_false_iff, Bool.and_eq_false_iff, decide_eq_false_iff_not]
  omega

theorem ofNat_eq_byte {n : ℕ} (byte : UInt8) (h : n = byte.toNat) : UInt8.ofNat n = byte := by
  rw [h, UInt8.ofNat_toNat]

/-- The bytes of a character are a leading one, which says how many there are, and tails with the
rest. -/
theorem utf8EncodeChar_eq_cons (c : Char) (lead : UInt8) (tail : Bytes) :
    String.utf8EncodeChar c = lead :: tail ↔
      ∃ value, leading lead = some (value, tail.length + 1) ∧ continued value tail = some c.toNat ∧
        malformed (tail.length + 1) c.toNat = false := by
  have hc := toNat_char c
  constructor
  · intro h
    rw [utf8EncodeChar_eq] at h
    split_ifs at h <;> injection h with hlead htail <;> subst hlead htail
    · refine ⟨c.toNat, ?_⟩
      simp
      omega
    · refine ⟨c.toNat / 64 % 32, ?_⟩
      simp [isTail]
      omega
    · refine ⟨c.toNat / 4096 % 16, ?_⟩
      simp [isTail]
      omega
    · refine ⟨c.toNat / 262144 % 8, ?_⟩
      simp [isTail]
      omega
  · rintro ⟨value, hlead, htail, hform⟩
    -- The width fixes the range of the character, and with it the bytes that encode it.
    match tail with
    | [] =>
      simp at hlead htail
      rw [utf8EncodeChar_eq, if_pos (by omega), ofNat_eq_byte lead (by omega)]
    | [b] =>
      simp [isTail] at hlead htail hform
      rw [utf8EncodeChar_eq, if_neg (by omega), if_pos (by omega), ofNat_eq_byte lead (by omega),
        ofNat_eq_byte b (by omega)]
    | [b, b'] =>
      simp [isTail] at hlead htail hform
      rw [utf8EncodeChar_eq, if_neg (by omega), if_neg (by omega), if_pos (by omega),
        ofNat_eq_byte lead (by omega), ofNat_eq_byte b (by omega), ofNat_eq_byte b' (by omega)]
    | [b, b', b''] =>
      simp [isTail] at hlead htail hform
      rw [utf8EncodeChar_eq, if_neg (by omega), if_neg (by omega), if_neg (by omega),
        ofNat_eq_byte lead (by omega), ofNat_eq_byte b (by omega), ofNat_eq_byte b' (by omega),
        ofNat_eq_byte b'' (by omega)]
    | _ :: _ :: _ :: _ :: _ =>
      simp only [leading_eq_some, length_cons] at hlead
      omega

theorem utf8EncodeChar_ne_nil (c : Char) : String.utf8EncodeChar c ≠ [] := by
  rw [utf8EncodeChar_eq]
  split_ifs <;> exact cons_ne_nil _ _

/-- **One turn of the loop reads the character that the text starts with.** -/
theorem codePoint_eq_some (lead : UInt8) (rest rest' : Bytes) (value : ℕ) :
    codePoint lead rest = some (value, rest') ↔
      ∃ c : Char, c.toNat = value ∧ lead :: rest = String.utf8EncodeChar c ++ rest' := by
  constructor
  · intro h
    unfold codePoint at h
    split at h
    · cases h
    · next bits width hlead =>
      split_ifs at h with hlong
      split at h
      · cases h
      · next final hfinal =>
        split_ifs at h with hform
        obtain ⟨rfl, rfl⟩ : final = value ∧ rest.drop (width - 1) = rest' := by
          cases h
          exact ⟨rfl, rfl⟩
        rw [Bool.not_eq_true, malformed_eq_false] at hform
        obtain ⟨c, rfl⟩ := exists_char hform.2.2.2.1 hform.2.2.2.2
        have hwidth : (rest.take (width - 1)).length + 1 = width := by
          rw [leading_eq_some] at hlead
          rw [length_take]
          omega
        refine ⟨c, rfl, ?_⟩
        rw [(utf8EncodeChar_eq_cons c lead (rest.take (width - 1))).mpr
          ⟨bits, by rwa [hwidth], hfinal, ?_⟩,
          cons_append, take_append_drop]
        rwa [hwidth, malformed_eq_false]
  · rintro ⟨c, rfl, h⟩
    obtain ⟨tail, hc, rfl⟩ : ∃ tail, String.utf8EncodeChar c = lead :: tail ∧
      rest = tail ++ rest' := by
      rcases cons_eq_append_iff.mp h with ⟨hnil, -⟩ | hcons
      · exact absurd hnil (utf8EncodeChar_ne_nil c)
      · exact hcons
    obtain ⟨bits, hlead, htail, hform⟩ := (utf8EncodeChar_eq_cons c lead tail).mp hc
    unfold codePoint
    simp only [hlead, Nat.add_sub_cancel, take_left, drop_left, htail, hform]
    simp

/-! ## A password -/

theorem cons_eq_utf8 {s : List Char} (h : lead :: rest = utf8 s) :
    ∃ c s', s = c :: s' ∧ codePoint lead rest = some (c.toNat, utf8 s') := by
  cases s with
  | nil => exact absurd h (cons_ne_nil _ _)
  | cons c s' =>
    refine ⟨c, s', rfl, (codePoint_eq_some ..).mpr ⟨c, rfl, ?_⟩⟩
    rw [h, utf8_cons]

/-- **The loop reads a whole text and counts its characters**, as long as there are at most 128. -/
theorem scan_eq_some (password : Bytes) (code_points n : ℕ) (hcount : code_points ≤ 128) :
    scan password code_points = some n ↔
      ∃ s : List Char, password = utf8 s ∧ code_points + s.length = n ∧ n ≤ 128 ∧ ∀ c ∈ s,
      ¬ WhiteSpace c := by
  induction password, code_points using scan.induct with
  | case1 code_points =>
    rw [scan, Option.some.injEq]
    constructor
    · rintro rfl
      exact ⟨[], rfl, rfl, hcount, nofun⟩
    · rintro ⟨s, hs, rfl, -, -⟩
      cases s with
      | nil => rfl
      | cons c s => exact absurd hs.symm (by simp [utf8_cons])
  | case2 code_points lead rest h =>
    rw [scan_none h]
    refine ⟨nofun, ?_⟩
    rintro ⟨s, hs, -⟩
    obtain ⟨c, s', -, hc⟩ := cons_eq_utf8 hs
    rw [h] at hc
    cases hc
  | case3 code_points lead rest value rest' h hstop =>
    rw [scan_some h, if_pos hstop]
    refine ⟨nofun, ?_⟩
    rintro ⟨s, hs, hlen, hle, hblank⟩
    obtain ⟨c, s', rfl, hc⟩ := cons_eq_utf8 hs
    obtain ⟨rfl, -⟩ : value = c.toNat ∧ rest' = utf8 s' := by
      rw [h] at hc
      cases hc
      exact ⟨rfl, rfl⟩
    rw [length_cons] at hlen
    rcases hstop with hwhite | hmany
    · exact absurd ((whitespace_iff c).mp hwhite) (hblank c (mem_cons_self ..))
    · omega
  | case4 code_points lead rest value rest' h hgo ih =>
    rw [not_or] at hgo
    rw [scan_some h, if_neg (not_or.mpr hgo), ih (by omega)]
    constructor
    · rintro ⟨s, rfl, hlen, hle, hblank⟩
      obtain ⟨c, rfl, hc⟩ := (codePoint_eq_some ..).mp h
      refine ⟨c :: s, hc.trans (utf8_cons c s).symm, ?_, hle, ?_⟩
      · rw [length_cons]
        omega
      · exact forall_mem_cons.mpr ⟨fun hwhite => hgo.1 ((whitespace_iff c).mpr hwhite), hblank⟩
    · rintro ⟨s, hs, hlen, hle, hblank⟩
      obtain ⟨c, s', rfl, hc⟩ := cons_eq_utf8 hs
      rw [h] at hc
      cases hc
      rw [length_cons] at hlen
      exact ⟨s', rfl, by omega, hle, (forall_mem_cons.mp hblank).2⟩

theorem length_utf8_le (s : List Char) : (utf8 s).length ≤ s.length * 4 := by
  induction s with
  | nil => exact Nat.le_refl 0
  | cons c s ih =>
    have hc : (String.utf8EncodeChar c).length ≤ 4 := by
      rw [utf8EncodeChar_eq]
      split_ifs <;> simp
    rw [utf8_cons, length_append, length_cons]
    omega

/-- **The policy for new passwords.** A password is accepted if and only if its bytes are the UTF-8
encoding of a text of 10 to 128 characters without white space. -/
theorem validNewPassword_iff (password : Bytes) :
    validNewPassword password = true ↔
      ∃ s : List Char, password = utf8 s ∧ 10 ≤ s.length ∧ s.length ≤ 128 ∧ ∀ c ∈ s,
      ¬ WhiteSpace c := by
  unfold validNewPassword
  constructor
  · intro h
    split_ifs at h
    obtain ⟨n, hscan, hn⟩ := (Option.any_eq_true ..).mp h
    obtain ⟨s, hs, hlen, hle, hblank⟩ := (scan_eq_some password 0 n (Nat.zero_le _)).mp hscan
    have hmin : 10 ≤ n := of_decide_eq_true hn
    exact ⟨s, hs, by omega, by omega, hblank⟩
  · rintro ⟨s, rfl, hmin, hmax, hblank⟩
    have hlong := length_utf8_le s
    -- The cut-off by bytes is no restriction: 128 characters have at most 512 bytes.
    rw [if_neg]
    · rw [(scan_eq_some (utf8 s) 0 s.length (Nat.zero_le _)).mpr
        ⟨s, rfl, Nat.zero_add _, hmax, hblank⟩]
      simpa using hmin
    · rintro (hempty | hbytes)
      · have hnil : s = [] := utf8_injective hempty
        simp [hnil] at hmin
      · omega

end DistributedChat.Gate
