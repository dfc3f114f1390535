import DistributedChat.Lib.Fallible
import DistributedChat.Store.EncryptedFile

/-!
# What an append does

`After content i rest` says that a file starts with `i` full records behind its header and that
`rest` is what follows them. An append at record `i` writes only if nothing follows, and otherwise
succeeds only if its own record does (`planAppend_eq_ok`). Since bytes behind a record do not change
how it is read, `After` is stable under everything an append writes (`After.append`).
-/

namespace DistributedChat.Store

open Lib List

/-! ## Headers and lengths -/

def HasHeader (content : Bytes) : Prop :=
  Magic.length + 16 ≤ content.length ∧ content.take Magic.length = Magic

def prefixOf (content : Bytes) : Bytes := (content.drop Magic.length).take 16

variable {header : Bytes}

theorem readHeader_eq_ok {what : String} {content : Option Bytes} {pre : Bytes} :
    readHeader what content = .ok (pre, header) ↔
      ∃ bytes, content = some bytes ∧ HasHeader bytes ∧ pre = prefixOf bytes ∧
        header = bytes.drop (Magic.length + 16) := by
  unfold readHeader HasHeader
  cases content with
  | none => simp
  | some bytes =>
    by_cases h : bytes.length < Magic.length + 16 ∨ bytes.take Magic.length ≠ Magic
    · simp only [if_pos h, reduceCtorEq, Option.some.injEq, exists_eq_left', false_iff]
      rintro ⟨⟨hlen, hmagic⟩, -⟩
      rcases h with h | h
      · omega
      · exact h hmagic
    · simp only [if_neg h, Except.ok.injEq, Prod.mk.injEq, Option.some.injEq, exists_eq_left']
      push Not at h
      constructor
      · rintro ⟨rfl, rfl⟩
        exact ⟨h, rfl, rfl⟩
      · rintro ⟨-, rfl, rfl⟩
        exact ⟨rfl, rfl⟩

variable {rest : Bytes}

theorem readLength_eq_ok {input : Bytes} {n : ℕ} :
    readLength input = .ok (n, rest) ↔ readBe32 input = some (n, rest) := by
  unfold readLength
  cases readBe32 input with
  | none => simp
  | some r => simp

/-! ## Full records -/

/-- `rest` is what the file holds behind its header and `i` full records. -/
def After (content : Bytes) (i : ℕ) (rest : Bytes) : Prop :=
  skipConfirmed content.length i (content.drop (Magic.length + 16)) = .ok rest

variable {size i : ℕ}

theorem skipConfirmed_succ (hsize : header.length ≤ size) :
    skipConfirmed size (i + 1) header = .ok rest ↔ ∃ body, readBe32 header = some
    (PlainChunkBytes, body) ∧
        PlainChunkBytes + TagBytes ≤ body.length ∧
        skipConfirmed size i (body.drop (PlainChunkBytes + TagBytes)) = .ok rest := by
  simp only [skipConfirmed, bind_eq_ok, check_eq_ok, Prod.exists, readLength_eq_ok]
  constructor
  · rintro ⟨n, body, hread, hcheck, hrest⟩
    push Not at hcheck
    obtain ⟨rfl, hfit⟩ := hcheck
    have hlen := length_of_readBe32 hread
    exact ⟨body, hread, by omega, hrest⟩
  · rintro ⟨body, hread, hfit, hrest⟩
    have hlen := length_of_readBe32 hread
    exact ⟨_, body, hread, by omega, hrest⟩

theorem skipConfirmed_append (hsize : header.length ≤ size)
    (h : skipConfirmed size i header = .ok rest)
    (t : Bytes) : skipConfirmed (size + t.length) i (header ++ t) = .ok (rest ++ t) := by
  induction i generalizing header with
  | zero =>
    obtain rfl := Except.ok.inj h
    rfl
  | succ i ih =>
    obtain ⟨body, hread, hfit, hrest⟩ := (skipConfirmed_succ hsize).mp h
    have hlen := length_of_readBe32 hread
    have hdrop : (body.drop (PlainChunkBytes + TagBytes)).length ≤ size := by
      rw [length_drop]
      omega
    refine (skipConfirmed_succ (by rw [length_append]; omega)).mpr
      ⟨body ++ t, readBe32_append hread t, by rw [length_append]; omega, ?_⟩
    rw [drop_append_of_le_length hfit]
    exact ih hdrop hrest

theorem skipConfirmed_length (hsize : header.length ≤ size)
    (h : skipConfirmed size i header = .ok rest) :
    rest.length ≤ header.length := by
  induction i generalizing header with
  | zero =>
    obtain rfl := Except.ok.inj h
    exact le_refl _
  | succ i ih =>
    obtain ⟨body, hread, hfit, hrest⟩ := (skipConfirmed_succ hsize).mp h
    have hlen := length_of_readBe32 hread
    have hle := ih (by rw [length_drop]; omega) hrest
    rw [length_drop] at hle
    omega

theorem prefixOf_append {content : Bytes} (h : HasHeader content) (t : Bytes) :
    prefixOf (content ++ t) = prefixOf content := by
  have hlen := h.1
  unfold prefixOf
  rw [drop_append_of_le_length (by omega), take_append_of_le_length (by rw [length_drop]; omega)]

theorem After.append {content : Bytes} (hheader : HasHeader content) (h : After content i rest)
    (t : Bytes) :
    After (content ++ t) i (rest ++ t) := by
  have hlen := hheader.1
  unfold After
  rw [length_append, drop_append_of_le_length hlen]
  exact skipConfirmed_append (by rw [length_drop]; omega) h t

theorem After.unique {content rest' : Bytes} (h : After content i rest)
    (h' : After content i rest') :
    rest = rest' :=
  Except.ok.inj (h.symm.trans h')

/-! ## The plan of an append -/

/-- The record of a chunk: its length and its ciphertext. -/
def recordOf (C : Crypto) (master_key : Bytes) (transfer_id : TransferId) (pre : Bytes) (i : ℕ)
    (plaintext : Bytes) : Bytes :=
  writeLength plaintext.length ++ C.encrypt (transferKey C master_key transfer_id)
    (nonceFor pre i) plaintext

theorem length_recordOf (C : Crypto) (master_key : Bytes) (transfer_id : TransferId) (pre : Bytes)
    (i : ℕ) (plaintext : Bytes) :
    (recordOf C master_key transfer_id pre i plaintext).length = 4 +
    (plaintext.length + TagBytes) := by
  unfold recordOf writeLength
  rw [length_append, length_be32, C.length_encrypt]

/-- The arguments `append` checks before it looks at the file. -/
def ValidChunk (offset : UInt64) (plaintext : Bytes) : Prop :=
  1 ≤ plaintext.length ∧ plaintext.length ≤ PlainChunkBytes ∧ offset.toNat % PlainChunkBytes = 0

theorem replay_check {ciphertext : Bytes} {n : ℕ} (hn : n < 2 ^ 32) :
    (∃ size body, readBe32 rest = some (size, body) ∧
      ¬ (size ≠ n ∨ rest.length < 4 + ciphertext.length) ∧
        ¬ body.take ciphertext.length ≠ ciphertext) ↔ be32 n ++ ciphertext <+: rest := by
  constructor
  · rintro ⟨size, body, hread, hsize, hbody⟩
    push Not at hsize hbody
    obtain ⟨rfl, -⟩ := hsize
    rw [eq_of_readBe32 hread, prefix_append_right_inj]
    exact hbody ▸ take_prefix _ _
  · rintro ⟨t, rfl⟩
    refine ⟨n, ciphertext ++ t, ?_, ?_, ?_⟩
    · rw [append_assoc]
      exact readBe32_be32 hn _
    · simp only [ne_eq, not_true_eq_false, false_or, length_append, length_be32]
      omega
    · rw [take_left' rfl]
      exact not_not.mpr rfl

section Plan

variable {C : Crypto} {master_key : Bytes} {d : Dir} {transfer_id : TransferId} {offset : UInt64}
  {plaintext : Bytes}

theorem replay_or_write {content rest ciphertext : Bytes} {n : ℕ} {a : Action} (hn : n < 2 ^ 32)
    (hrest : rest.length ≤ content.length) :
    ((if content.length - rest.length < content.length then do
        let (existing_size, header) ← readLength rest
        if existing_size ≠ n ∨
            content.length - (content.length - rest.length) < 4 + ciphertext.length then
          throw (.runtimeError "conflicting or incomplete attachment chunk; start a new upload")
        else if header.take ciphertext.length ≠ ciphertext then
          throw (.runtimeError "attachment chunk conflict; start a new upload")
        else
          return .replay
      else
        return .write content (writeLength n ++ ciphertext) : Except StoreError Action) = .ok a) ↔
      (rest ≠ [] ∧ writeLength n ++ ciphertext <+: rest ∧ a = .replay) ∨
        (rest = [] ∧ a = .write content (writeLength n ++ ciphertext)) := by
  have hsub : content.length - (content.length - rest.length) = rest.length := by omega
  rw [hsub]
  by_cases hnil : rest = []
  · subst hnil
    rw [if_neg (by simp), pure_eq_ok]
    constructor
    · rintro rfl
      exact Or.inr ⟨rfl, rfl⟩
    · rintro (⟨h, -⟩ | ⟨-, rfl⟩)
      · exact absurd rfl h
      · rfl
  · have hpos : 0 < rest.length := length_pos_iff.mpr hnil
    rw [if_pos (by omega)]
    simp only [bind_eq_ok, check_eq_ok, pure_eq_ok, Prod.exists, readLength_eq_ok]
    constructor
    · rintro ⟨size, body, hread, hsize, hbody, rfl⟩
      exact Or.inl ⟨hnil, (replay_check hn).mp ⟨size, body, hread, hsize, hbody⟩, rfl⟩
    · rintro (⟨-, hrecord, rfl⟩ | ⟨hnil', -⟩)
      · obtain ⟨size, body, hread, hsize, hbody⟩ := (replay_check hn).mpr hrecord
        exact ⟨size, body, hread, hsize, hbody, rfl⟩
      · exact absurd hnil' hnil

/-- **The plan of an append.** The arguments are valid, the file is there with its lock and header
and `i` full records, and either the rest of the file starts with the record, or there is no rest
and the record is to be written. -/
theorem planAppend_eq_ok {a : Action} :
    planAppend C master_key d transfer_id offset plaintext = .ok a ↔
      ValidChunk offset plaintext ∧ pathFor transfer_id = .ok () ∧ d.locks transfer_id = true ∧
      ∃ content rest, d.files transfer_id = some content ∧ HasHeader content ∧
        After content (offset.toNat / PlainChunkBytes) rest ∧
        let record := recordOf C master_key transfer_id (prefixOf content)
          (offset.toNat / PlainChunkBytes) plaintext
        (rest ≠ [] ∧ record <+: rest ∧ a = .replay) ∨ (rest = [] ∧ a = .write content record) := by
  have harg : (¬ (plaintext.length = 0 ∨ PlainChunkBytes < plaintext.length ∨
      offset.toNat % PlainChunkBytes ≠ 0)) ↔ ValidChunk offset plaintext := by
    unfold ValidChunk
    omega
  unfold planAppend
  simp only [bind_eq_ok, check_eq_ok, Prod.exists, readHeader_eq_ok, harg, Bool.not_eq_false]
  constructor
  · rintro ⟨hvalid, _, hpath, hlock, pre, header, ⟨content, hfile, hheader, rfl, rfl⟩, rest, hskip,
      hfinish⟩
    have hlen : (content.drop (Magic.length + 16)).length ≤ content.length := by
      rw [length_drop]
      omega
    rw [hfile, Option.getD_some] at hskip hfinish
    have hrest := skipConfirmed_length hlen hskip
    refine ⟨hvalid, hpath, hlock, content, rest, hfile, hheader, hskip, ?_⟩
    exact (replay_or_write (by have := hvalid.2.1; unfold PlainChunkBytes at this; omega)
      (by omega)).mp hfinish
  · rintro ⟨hvalid, hpath, hlock, content, rest, hfile, hheader, hskip, hfinish⟩
    have hlen : (content.drop (Magic.length + 16)).length ≤ content.length := by
      rw [length_drop]
      omega
    have hrest := skipConfirmed_length hlen hskip
    refine ⟨hvalid, (), hpath, hlock, _, _, ⟨content, hfile, hheader, rfl, rfl⟩, rest, ?_, ?_⟩
    · rw [hfile, Option.getD_some]
      exact hskip
    · rw [hfile, Option.getD_some]
      exact (replay_or_write (by have := hvalid.2.1; unfold PlainChunkBytes at this; omega)
        (by omega)).mpr hfinish

variable {fault : Option ℕ}

end Plan

end DistributedChat.Store
