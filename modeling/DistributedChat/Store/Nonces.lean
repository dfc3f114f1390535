import DistributedChat.Lib.Threads
import DistributedChat.Store.AppendSpec

/-!
# Files grow by appending and nonces are used once

A run is any sequence of operations of any number of store instances, each with its own master key
and each write possibly torn. The log of a run holds what reached the files: for every append that
changed a file its key, nonce and plaintext. The records of one file are written in order, each at
the end of the file, so the index of a logged write is a place where the file now goes on
(`Inv.occupied`), and no later append writes there again. Different files have different prefixes.
-/

namespace DistributedChat.Store

open Lib Function List

/-! ## Runs -/

inductive Op
  | create (fault : Option ℕ) (transfer_id : TransferId) (pre : Prefix)
  | append (master_key : Bytes) (fault : Option ℕ) (transfer_id : TransferId) (offset : UInt64)
      (plaintext : Bytes)
  | read (master_key : Bytes) (transfer_id : TransferId) (offset : UInt64) (maximum_bytes : ℕ)
  | remove (transfer_id : TransferId)
  deriving DecidableEq

/-- A chunk of which at least a byte of the record reached a file. -/
structure Write where
  transfer_id : TransferId
  key : Bytes
  pre : Bytes
  index : ℕ
  plaintext : Bytes
  deriving DecidableEq

def Write.nonce (w : Write) : Bytes := nonceFor w.pre w.index

structure State where
  dir : Dir
  writes : List Write

def step (C : Crypto) (s : State) : Op → State
  | .create fault transfer_id pre => { s with dir := (create fault transfer_id pre s.dir).2 }
  | .append master_key fault transfer_id offset plaintext =>
    let dir := (append C master_key fault transfer_id offset plaintext s.dir).2
    if dir.files transfer_id = s.dir.files transfer_id then { s with dir := dir }
    else
      { dir := dir
        writes := ⟨transfer_id, transferKey C master_key transfer_id,
          prefixOf ((s.dir.files transfer_id).getD []), offset.toNat / PlainChunkBytes,
          plaintext⟩ :: s.writes }
  | .read _ _ _ _ => s
  | .remove transfer_id => { s with dir := (remove transfer_id s.dir).2 }

/-- The state after a sequence of operations on an empty directory. -/
def run (C : Crypto) (ops : List Op) : State := ops.foldl (step C) ⟨Dir.empty, []⟩

def Op.drawn : Op → Option Prefix
  | .create _ _ pre => some pre
  | _ => none

def drawn (ops : List Op) : List Prefix := ops.filterMap Op.drawn

theorem run_concat (C : Crypto) (ops : List Op) (op : Op) :
    run C (ops ++ [op]) = step C (run C ops) op :=
  foldl_concat ..

/-! ## One step -/

/-- What an operation can do to the files and the log. -/
inductive Change (s s' : State) (op : Op) : Prop
  /-- Nothing. -/
  | same (files : s'.dir.files = s.dir.files) (writes : s'.writes = s.writes)
  /-- A new file, possibly cut short. -/
  | created (transfer_id : TransferId) (pre : Prefix) (n : ℕ) (drawn : op.drawn = some pre)
      (absent : s.dir.files transfer_id = none)
      (files : s'.dir.files = update s.dir.files transfer_id (some ((Magic ++ pre.val).take n)))
      (writes : s'.writes = s.writes)
  /-- Bytes of a record behind a file that ends with the full records before it. -/
  | appended (w : Write) (content t : Bytes)
      (present : s.dir.files w.transfer_id = some content) (header : HasHeader content)
      (pre : w.pre = prefixOf content) (index : w.index < 2 ^ 64) (after : After content w.index [])
      (part : t ≠ [])
      (files : s'.dir.files = update s.dir.files w.transfer_id (some (content ++ t)))
      (writes : s'.writes = w :: s.writes)
  /-- A file less. -/
  | removed (transfer_id : TransferId) (op_eq : op = .remove transfer_id)
      (files : s'.dir.files = update s.dir.files transfer_id none)
      (writes : s'.writes = s.writes)

theorem prefixOf_created {pre : Prefix} {n : ℕ} (h : HasHeader ((Magic ++ pre.val).take n)) :
    prefixOf ((Magic ++ pre.val).take n) = pre.val := by
  have hpre := pre.property
  have hlen : (Magic ++ pre.val).length = Magic.length + 16 := by rw [length_append, hpre]
  have hn := h.1
  rw [length_take, hlen] at hn
  rw [take_of_length_le (by omega)]
  unfold prefixOf
  rw [drop_left' rfl, take_of_length_le (by omega)]

/-! ## The invariant -/

/-- What holds of a directory and a log after a run that drew the prefixes `used`. -/
structure Inv (used : List Prefix) (s : State) : Prop where
  /-- The prefix of a file was drawn. -/
  file_drawn : ∀ id content, s.dir.files id = some content → HasHeader content →
    ∃ pre ∈ used, prefixOf content = pre.val
  /-- Different files have different prefixes. -/
  distinct : ∀ id id' content content', s.dir.files id = some content →
    s.dir.files id' = some content' → HasHeader content → HasHeader content' →
    prefixOf content = prefixOf content' → id = id'
  write_drawn : ∀ w ∈ s.writes, ∃ pre ∈ used, w.pre = pre.val
  index_lt : ∀ w ∈ s.writes, w.index < 2 ^ 64
  /-- Where a record was written the file goes on. -/
  occupied : ∀ w ∈ s.writes, ∀ id content, s.dir.files id = some content → HasHeader content →
    prefixOf content = w.pre → ∃ rest, rest ≠ [] ∧ After content w.index rest
  /-- No place of a file is written twice. -/
  once : s.writes.Pairwise fun w w' => ¬ (w.pre = w'.pre ∧ w.index = w'.index)

variable {id : TransferId} {content : Bytes}

section Step

variable {used : List Prefix} {s s' : State} {op : Op}

theorem Inv.created (hinv : Inv used s) {id : TransferId} {pre : Prefix} {n : ℕ} (hpre : pre ∉ used)
    (hfiles : s'.dir.files = update s.dir.files id (some ((Magic ++ pre.val).take n)))
    (hwrites : s'.writes = s.writes) : Inv (pre :: used) s' := by
  -- a file that was there before cannot have the new prefix
  have hold : ∀ id content, s.dir.files id = some content → HasHeader content →
    prefixOf content ≠ pre.val := by
    intro id content hfile hheader heq
    obtain ⟨pre', hmem, hpre'⟩ := hinv.file_drawn id content hfile hheader
    exact hpre (Subtype.ext (heq.symm.trans hpre') ▸ hmem)
  constructor
  · intro id' content hfile hheader
    rw [hfiles] at hfile
    rcases update_cases hfile with ⟨-, hnew⟩ | ⟨-, hfile⟩
    · cases hnew
      exact ⟨pre, mem_cons_self, prefixOf_created hheader⟩
    · obtain ⟨pre', hmem, hpre'⟩ := hinv.file_drawn id' content hfile hheader
      exact ⟨pre', mem_cons_of_mem _ hmem, hpre'⟩
  · intro id₁ id₂ content₁ content₂ h₁ h₂ hheader₁ hheader₂ heq
    rw [hfiles] at h₁ h₂
    rcases update_cases h₁ with ⟨hid₁, hnew₁⟩ | ⟨-, hold₁⟩ <;>
      rcases update_cases h₂ with ⟨hid₂, hnew₂⟩ | ⟨-, hold₂⟩
    · exact hid₁.trans hid₂.symm
    · cases hnew₁
      rw [prefixOf_created hheader₁] at heq
      exact absurd heq.symm (hold _ _ hold₂ hheader₂)
    · cases hnew₂
      rw [prefixOf_created hheader₂] at heq
      exact absurd heq (hold _ _ hold₁ hheader₁)
    · exact hinv.distinct id₁ id₂ content₁ content₂ hold₁ hold₂ hheader₁ hheader₂ heq
  · intro w hw
    rw [hwrites] at hw
    obtain ⟨pre', hmem, hpre'⟩ := hinv.write_drawn w hw
    exact ⟨pre', mem_cons_of_mem _ hmem, hpre'⟩
  · intro w hw
    rw [hwrites] at hw
    exact hinv.index_lt w hw
  · intro w hw id' content hfile hheader heq
    rw [hwrites] at hw
    rw [hfiles] at hfile
    rcases update_cases hfile with ⟨-, hnew⟩ | ⟨-, hfile⟩
    · -- nothing was written under the new prefix
      cases hnew
      rw [prefixOf_created hheader] at heq
      obtain ⟨pre', hmem, hpre'⟩ := hinv.write_drawn w hw
      exact absurd (Subtype.ext (heq.trans hpre') ▸ hmem) hpre
    · exact hinv.occupied w hw id' content hfile hheader heq
  · rw [hwrites]
    exact hinv.once

theorem Inv.grow (hinv : Inv used s)
    (hgrow : ∀ id content', s'.dir.files id = some content' → HasHeader content' →
      ∃ content t, s.dir.files id = some content ∧ HasHeader content ∧ content' = content ++ t)
    (hwrites : s'.writes = s.writes) : Inv used s' := by
  constructor
  · intro id content' hfile' hheader'
    obtain ⟨content, t, hfile, hheader, rfl⟩ := hgrow id content' hfile' hheader'
    rw [prefixOf_append hheader]
    exact hinv.file_drawn id content hfile hheader
  · intro id₁ id₂ content₁' content₂' h₁' h₂' hheader₁' hheader₂' heq
    obtain ⟨content₁, t₁, h₁, hheader₁, rfl⟩ := hgrow id₁ content₁' h₁' hheader₁'
    obtain ⟨content₂, t₂, h₂, hheader₂, rfl⟩ := hgrow id₂ content₂' h₂' hheader₂'
    rw [prefixOf_append hheader₁, prefixOf_append hheader₂] at heq
    exact hinv.distinct id₁ id₂ content₁ content₂ h₁ h₂ hheader₁ hheader₂ heq
  · rw [hwrites]
    exact hinv.write_drawn
  · rw [hwrites]
    exact hinv.index_lt
  · intro w hw id content' hfile' hheader' heq
    rw [hwrites] at hw
    obtain ⟨content, t, hfile, hheader, rfl⟩ := hgrow id content' hfile' hheader'
    rw [prefixOf_append hheader] at heq
    obtain ⟨rest, hrest, hafter⟩ := hinv.occupied w hw id content hfile hheader heq
    exact ⟨rest ++ t, by simp [hrest], hafter.append hheader t⟩
  · rw [hwrites]
    exact hinv.once

theorem Inv.appended (hinv : Inv used s) {w : Write} {content t : Bytes}
    (hpresent : s.dir.files w.transfer_id = some content) (hheader : HasHeader content)
    (hpre : w.pre = prefixOf content) (hindex : w.index < 2 ^ 64)
    (hafter : After content w.index [])
    (ht : t ≠ []) (hfiles : s'.dir.files = update s.dir.files w.transfer_id (some (content ++ t)))
    (hwrites : s'.writes = w :: s.writes) : Inv used s' := by
  have hgrow : Inv used ⟨s'.dir, s.writes⟩ := by
    refine hinv.grow (fun id content' hfile hheader' => ?_) rfl
    rcases update_cases (hfiles ▸ hfile) with ⟨rfl, hnew⟩ | ⟨-, hfile⟩
    · cases hnew
      exact ⟨content, t, hpresent, hheader, rfl⟩
    · exact ⟨content', [], hfile, hheader', (append_nil _).symm⟩
  constructor
  · exact hgrow.file_drawn
  · exact hgrow.distinct
  · intro w' hw'
    rw [hwrites] at hw'
    rcases mem_cons.mp hw' with rfl | hw'
    · rw [hpre]
      exact hinv.file_drawn _ content hpresent hheader
    · exact hgrow.write_drawn w' hw'
  · intro w' hw'
    rw [hwrites] at hw'
    rcases mem_cons.mp hw' with rfl | hw'
    · exact hindex
    · exact hgrow.index_lt w' hw'
  · intro w' hw' id content' hfile hheader' heq
    rw [hwrites] at hw'
    rcases mem_cons.mp hw' with rfl | hw'
    · -- the file with this prefix is the one just written
      rcases update_cases (hfiles ▸ hfile) with ⟨-, hnew⟩ | ⟨hne, hfile⟩
      · cases hnew
        exact ⟨[] ++ t, ht, hafter.append hheader t⟩
      · exact absurd (hinv.distinct id _ content' content hfile hpresent hheader' hheader
          (heq.trans hpre)) hne
    · exact hgrow.occupied w' hw' id content' hfile hheader' heq
  · rw [hwrites]
    refine List.Pairwise.cons (fun w' hw' heq => ?_) hinv.once
    -- the file ended here, so nothing had been written at this index
    obtain ⟨rest, hrest, hafter'⟩ :=
      hinv.occupied w' hw' _ content hpresent hheader (hpre.symm.trans heq.1)
    rw [← heq.2] at hafter'
    exact hrest (hafter'.unique hafter)

theorem Inv.step (hinv : Inv used s) (hchange : Change s s' op)
    (hfresh : ∀ pre, op.drawn = some pre → pre ∉ used) : Inv (op.drawn.toList ++ used) s' := by
  have hmore : ∀ {s'' : State}, Inv used s'' → Inv (op.drawn.toList ++ used) s'' := by
    intro s'' h
    refine ⟨fun id content hfile hheader => ?_, h.distinct, fun w hw => ?_, h.index_lt, h.occupied,
      h.once⟩
    · obtain ⟨pre, hmem, hpre⟩ := h.file_drawn id content hfile hheader
      exact ⟨pre, mem_append_right _ hmem, hpre⟩
    · obtain ⟨pre, hmem, hpre⟩ := h.write_drawn w hw
      exact ⟨pre, mem_append_right _ hmem, hpre⟩
  cases hchange with
  | same files writes =>
    refine hmore (hinv.grow (fun id content hfile hheader => ?_) writes)
    exact ⟨content, [], files ▸ hfile, hheader, (append_nil _).symm⟩
  | created id pre n drawn absent files writes =>
    rw [drawn]
    exact hinv.created (hfresh pre drawn) files writes
  | appended w content t present header pre index after part files writes =>
    exact hmore (hinv.appended present header pre index after part files writes)
  | removed id op_eq files writes =>
    refine hmore (hinv.grow (fun id' content hfile hheader => ?_) writes)
    rcases update_cases (files ▸ hfile) with ⟨-, hnew⟩ | ⟨-, hfile⟩
    · cases hnew
    · exact ⟨content, [], hfile, hheader, (append_nil _).symm⟩

end Step

end DistributedChat.Store
