import DistributedChat.Lib.Bytes
import DistributedChat.Verification.Codes

/-!
# The address of a verification code

The gate (`servers/gate/service/LogicSystem.cpp`) normalizes an address before it forwards it to
the verification service, and again before it consumes a code. It works on the bytes of the address
and changes ASCII characters only. The service (`VarifyServer/security.js`) normalizes what it is
sent once more, with the Unicode notions of white space and lower case, and stores the code under
the result.

1. `toLowerCase` leaves a text unchanged exactly if it leaves each character unchanged.
2. The code is stored where it is looked for exactly if the service finds nothing to change.
-/

namespace DistributedChat.Gate

open Lib Verification List

/-! ## The gate -/

/-- `std::isspace` in the C locale. -/
def isspace (ch : UInt8) : Bool := ch == 32 || (9 ≤ ch && ch ≤ 13)

/-- `std::tolower` in the C locale. -/
def tolower (ch : UInt8) : UInt8 := if 65 ≤ ch ∧ ch ≤ 90 then ch + 32 else ch

/-- `normalizeEmail` of the gate. -/
def normalizeEmail (email : Bytes) : Bytes :=
  ((email.dropWhile isspace).rdropWhile isspace).map tolower

/-- The keys of `ConsumeVerificationCode`, in the bytes it sends to Redis. -/
def codeKey (email : Bytes) : Bytes := [99, 111, 100, 101, 95] ++ email

def attemptsKey (email : Bytes) : Bytes :=
  [99, 111, 100, 101, 95, 97, 116, 116, 101, 109, 112, 116, 115, 95] ++ email

/-! ## Bytes and characters -/

def utf8 (s : List Char) : Bytes := s.flatMap String.utf8EncodeChar

theorem utf8_injective : Function.Injective utf8 := by
  intro s s' h
  have hbytes : (String.ofList s).toByteArray = (String.ofList s').toByteArray := by
    rw [String.toByteArray_ofList, String.toByteArray_ofList]
    exact toByteArray_inj.mpr h
  exact String.ofList_injective (String.toByteArray_inj.mp hbytes)

theorem utf8_append (s s' : List Char) : utf8 (s ++ s') = utf8 s ++ utf8 s' := flatMap_append

theorem utf8_cons (c : Char) (s : List Char) : utf8 (c :: s) = String.utf8EncodeChar c ++ utf8 s :=
  flatMap_cons

/-! ## Lower case -/

/-- The case mappings of Unicode as `String.prototype.toLowerCase` applies them: a mapping for each
character, except for the capital sigma, whose form depends on what stands around it. -/
structure CaseMapping where
  lower : Char → List Char
  /-- The sigma ends a word, seen from the text before and after it. -/
  finalSigma : List Char → List Char → Bool
  lower_ne_nil : ∀ c, lower c ≠ []
  lower_ascii : ∀ c, c.toNat < 128 → lower c = [c.toLower]

namespace CaseMapping

variable (m : CaseMapping)

/-- The text `after` in lower case, with `before` in front of it. -/
def lowerFrom (before : List Char) : List Char → List Char
  | [] => []
  | c :: after =>
    (if c = 'Σ' then [if m.finalSigma before after then 'ς' else 'σ'] else m.lower c) ++
      lowerFrom (before ++ [c]) after

def toLowerCase (s : List Char) : List Char := m.lowerFrom [] s

/-- A character that `toLowerCase` leaves alone. -/
def Fixes (c : Char) : Prop := c ≠ 'Σ' ∧ m.lower c = [c]

theorem length_le_lowerFrom (before s : List Char) : s.length ≤ (m.lowerFrom before s).length := by
  induction s generalizing before with
  | nil => exact Nat.le_refl 0
  | cons c s ih =>
    have hrest := ih (before ++ [c])
    have hne := length_pos_iff.mpr (m.lower_ne_nil c)
    rw [lowerFrom, length_append, length_cons]
    split
    · rw [length_singleton]
      omega
    · omega

theorem lowerFrom_eq_self_iff (before s : List Char) :
    m.lowerFrom before s = s ↔ ∀ c ∈ s, m.Fixes c := by
  induction s generalizing before with
  | nil => exact ⟨fun _ => nofun, fun _ => rfl⟩
  | cons c s ih =>
    have hstep : m.lowerFrom before (c :: s) =
      (if c = 'Σ' then [if m.finalSigma before s then 'ς' else 'σ'] else m.lower c) ++
        m.lowerFrom (before ++ [c]) s := rfl
    rw [forall_mem_cons, ← ih (before ++ [c]), hstep]
    constructor
    · intro h
      -- no character vanishes, so each part has the length it had
      have hlength := congrArg List.length h
      have hrest := m.length_le_lowerFrom (before ++ [c]) s
      by_cases hc : c = 'Σ'
      · rw [if_pos hc, singleton_append, List.cons.injEq, hc] at h
        exfalso
        have := h.1
        split_ifs at this <;> exact absurd this (by decide)
      · rw [if_neg hc] at h hlength
        have hne := length_pos_iff.mpr (m.lower_ne_nil c)
        rw [length_append, length_cons] at hlength
        obtain ⟨d, hd⟩ := length_eq_one_iff.mp (show (m.lower c).length = 1 by omega)
        rw [hd, singleton_append, List.cons.injEq] at h
        exact ⟨⟨hc, by rw [hd, h.1]⟩, h.2⟩
    · rintro ⟨⟨hc, hlower⟩, hrest⟩
      rw [if_neg hc, hlower, hrest, singleton_append]

/-- `toLowerCase` leaves a text unchanged exactly if it leaves each character unchanged. -/
theorem toLowerCase_eq_self_iff (s : List Char) : m.toLowerCase s = s ↔ ∀ c ∈ s, m.Fixes c :=
  m.lowerFrom_eq_self_iff [] s

end CaseMapping

/-! ## The same address -/

/-- The service finds nothing to change: no white space at either end, no character with another
lower case. -/
def Settled (m : CaseMapping) (s : List Char) : Prop :=
  trim s = s ∧ ∀ c ∈ s, m.Fixes c

theorem trim_eq_self {s : List Char} (h : ∀ c ∈ s, isSpace c = false) : trim s = s := by
  have hdrop : ∀ l : List Char, (∀ c ∈ l, isSpace c = false) → l.dropWhile isSpace = l := by
    intro l hl
    cases l with
    | nil => rfl
    | cons c l => rw [dropWhile_cons, hl c mem_cons_self, if_neg Bool.false_ne_true]
  rw [trim, hdrop s h, hdrop s.reverse fun c hc => h c (mem_reverse.mp hc), reverse_reverse]

theorem isSpace_of_pattern {s : List Char} (h : EMAIL_PATTERN s = true) :
    ∀ c ∈ s, isSpace c = false := by
  have hplain : ∀ c, isPlain c = true → isSpace c = false := by
    intro c hc
    simp only [isPlain, Bool.and_eq_true, Bool.not_eq_true'] at hc
    exact hc.1
  unfold EMAIL_PATTERN at h
  rw [span_eq_takeWhile_dropWhile] at h
  cases hdrop : s.dropWhile isPlain with
  | nil => simp [hdrop] at h
  | cons at_ domain =>
    rw [hdrop] at h
    split at h
    · rename_i name domain' heq
      obtain ⟨-, hat⟩ := Prod.mk.inj heq
      obtain ⟨rfl, rfl⟩ := List.cons.inj hat
      simp only [Bool.and_eq_true, all_eq_true] at h
      intro c hc
      rw [← takeWhile_append_dropWhile (p := isPlain) (l := s), hdrop, mem_append, mem_cons] at hc
      rcases hc with hc | rfl | hc
      · exact hplain c (mem_takeWhile_imp hc)
      · decide
      · exact hplain c (h.1.2 c hc)
    · cases h

/-- **A code is stored where it is looked for exactly if the service finds nothing to change.** Let
the gate forward the address `e` as `v`, and let the service accept it: the keys under which the
service stores the code and counts the attempts are the keys that `ConsumeVerificationCode` uses for
`e`, if and only if `v` has no Unicode white space at its ends and no character with another lower
case. -/
theorem issued_where_consumed_iff (m : CaseMapping) {e v : List Char} {email : String}
    (hv : utf8 v = normalizeEmail (utf8 e))
    (haccept : Verification.normalizeEmail m.toLowerCase (String.ofList v) = some email) :
    (utf8 (verificationKeys email).code.toList = codeKey (normalizeEmail (utf8 e)) ∧
      utf8 (verificationKeys email).attempts.toList = attemptsKey (normalizeEmail (utf8 e))) ↔
    Settled m v := by
  unfold Verification.normalizeEmail at haccept
  dsimp only at haccept
  split_ifs at haccept with hbad
  rw [not_or, not_or, Bool.not_eq_false] at hbad
  obtain ⟨-, -, hpattern⟩ := hbad
  rw [String.toList_ofList] at haccept hpattern
  obtain rfl := Option.some.inj haccept
  have hcode : utf8 (verificationKeys (String.ofList (m.toLowerCase (trim v)))).code.toList =
      codeKey (utf8 (m.toLowerCase (trim v))) := by
    simp only [verificationKeys, String.toList_append, String.toList_ofList, utf8_append]
    rfl
  have hattempts :
    utf8 (verificationKeys (String.ofList (m.toLowerCase (trim v)))).attempts.toList =
      attemptsKey (utf8 (m.toLowerCase (trim v))) := by
    simp only [verificationKeys, String.toList_append, String.toList_ofList, utf8_append]
    rfl
  rw [hcode, hattempts, ← hv]
  constructor
  · rintro ⟨hkey, -⟩
    have hsame : m.toLowerCase (trim v) = v := utf8_injective (append_cancel_left hkey)
    -- what is accepted has no white space, so nothing was trimmed
    have htrim : trim v = v := trim_eq_self (by rw [← hsame]; exact isSpace_of_pattern hpattern)
    rw [htrim] at hsame
    exact ⟨htrim, (m.toLowerCase_eq_self_iff v).mp hsame⟩
  · rintro ⟨htrim, hfixes⟩
    rw [htrim, (m.toLowerCase_eq_self_iff v).mpr hfixes]
    exact ⟨rfl, rfl⟩

/-- The mapping of one letter outside ASCII. -/
def Sample.latin : CaseMapping where
  lower c := if c = 'É' then ['é'] else [c.toLower]
  finalSigma _ _ := false
  lower_ne_nil c := by split <;> simp
  lower_ascii c h := by
    refine if_neg fun hc => ?_
    subst hc
    exact absurd h (by decide)

theorem issued_where_consumed_iff_sample :
    utf8 (verificationKeys "a@b.cc").code.toList = codeKey
    (normalizeEmail (utf8 [' ', 'A', '@', 'b', '.', 'c', 'c'])) := by
  have hv : utf8 ['a', '@', 'b', '.', 'c', 'c'] =
      normalizeEmail (utf8 [' ', 'A', '@', 'b', '.', 'c', 'c']) := by decide +kernel
  have haccept : Verification.normalizeEmail Sample.latin.toLowerCase
      (String.ofList ['a', '@', 'b', '.', 'c', 'c']) = some "a@b.cc" := by decide +kernel
  refine ((issued_where_consumed_iff Sample.latin hv haccept).mpr ⟨by decide +kernel, ?_⟩).1
  refine (Sample.latin.toLowerCase_eq_self_iff _).mp ?_
  decide +kernel

/-- **A code that cannot be used.** The address `É@b.cc` passes the gate unchanged; the service
accepts it as `é@b.cc` and stores the code under another key than the one the gate reads. -/
theorem code_out_of_reach :
    utf8 ['É', '@', 'b', '.', 'c', 'c'] = normalizeEmail (utf8 ['É', '@', 'b', '.', 'c', 'c']) ∧
    Verification.normalizeEmail Sample.latin.toLowerCase
    (String.ofList ['É', '@', 'b', '.', 'c', 'c']) =
      some "é@b.cc" ∧
    utf8 (verificationKeys "é@b.cc").code.toList ≠
      codeKey (normalizeEmail (utf8 ['É', '@', 'b', '.', 'c', 'c'])) := by
  decide +kernel

end DistributedChat.Gate
