import DistributedChat.Store.AppendSpec

/-!
# Files as lists of chunks

The purpose of the store: a file stands for the list of plaintext chunks appended to it. `AbsFile`
is that abstract file, `Spec` the operations on it, and `Represents` relates it to the bytes of an
encrypted file: header, the records of the chunks in order and, after a write that was cut short, a
part of one more record.
-/

namespace DistributedChat.Store

open Lib List

/-! ## Abstract files -/

/-- A chunk `append` accepts. -/
def IsChunk (p : Bytes) : Prop := 1 ≤ p.length ∧ p.length ≤ PlainChunkBytes

def IsFull (p : Bytes) : Prop := p.length = PlainChunkBytes

instance (p : Bytes) : Decidable (IsFull p) := inferInstanceAs (Decidable (_ = _))

instance (offset : UInt64) (p : Bytes) : Decidable (ValidChunk offset p) := by
  unfold ValidChunk; infer_instance

/-- What a file stands for. -/
inductive AbsFile
  /-- The header was cut short: no operation reads the file. -/
  | broken
  /-- The chunks of the file. -/
  | whole (chunks : List Bytes)
  /-- The chunks of the file, followed by a part of a record. -/
  | torn (chunks : List Bytes)
  deriving DecidableEq, Repr

def AbsFile.chunks : AbsFile → List Bytes
  | .broken => []
  | .whole chunks => chunks
  | .torn chunks => chunks

namespace Spec

/-- `append` on a file: a chunk that is there already is accepted again, and the next one is added
if all chunks are full. A fault loses the reply and adds the chunk, a part of it or nothing. -/
def appendFile (fault : Option ℕ) (i : ℕ) (p : Bytes) : AbsFile → Bool × AbsFile
  | .broken => (false, .broken)
  | .torn chunks => (decide (chunks[i]? = some p) && fault.isNone, .torn chunks)
  | .whole chunks =>
    if chunks[i]? = some p then (fault.isNone, .whole chunks)
    else if i = chunks.length ∧ ∀ c ∈ chunks, IsFull c then
      match fault with
      | none => (true, .whole (chunks ++ [p]))
      | some n =>
        (false, if n = 0 then .whole chunks
          else if n < 4 + (p.length + TagBytes) then .torn chunks
          else .whole (chunks ++ [p]))
    else (false, .whole chunks)

end Spec

/-! ## Representation -/

/-- Every chunk but the last is full. -/
structure WellShaped (chunks : List Bytes) : Prop where
  isChunk : ∀ p ∈ chunks, IsChunk p
  isFull : ∀ p ∈ chunks.dropLast, IsFull p

section Representation

variable (C : Crypto) (master_key : Bytes) (transfer_id : TransferId)

/-- The records of a list of chunks, the first with index `i`. -/
def encodeRecords (pre : Bytes) : ℕ → List Bytes → Bytes
  | _, [] => []
  | i, p :: chunks => recordOf C master_key transfer_id pre i p ++ encodeRecords pre (i + 1) chunks

/-- A non-empty proper part of the record of a chunk. -/
def IsPart (pre : Bytes) (i : ℕ) (t : Bytes) : Prop :=
  ∃ p, IsChunk p ∧ t ≠ [] ∧ t <+: recordOf C master_key transfer_id pre i p ∧
    t.length < (recordOf C master_key transfer_id pre i p).length

/-- The bytes of a file with the given prefix, chunks and bytes behind them. -/
def encodeFile (pre : Prefix) (chunks : List Bytes) (t : Bytes) : Bytes :=
  Magic ++ pre.val ++ (encodeRecords C master_key transfer_id pre.val 0 chunks ++ t)

/-- The bytes of a file represent an abstract one. -/
inductive Represents : AbsFile → Bytes → Prop
  | broken {content : Bytes} (header : ¬ HasHeader content) : Represents .broken content
  | whole {chunks : List Bytes} (pre : Prefix) (shape : WellShaped chunks) :
      Represents (.whole chunks) (encodeFile C master_key transfer_id pre chunks [])
  | torn {chunks : List Bytes} (pre : Prefix) (full : ∀ p ∈ chunks, IsFull p) {t : Bytes}
      (part : IsPart C master_key transfer_id pre.val chunks.length t) :
      Represents (.torn chunks) (encodeFile C master_key transfer_id pre chunks t)

end Representation

/-! ## Shapes -/

variable {p : Bytes}

theorem IsFull.isChunk (h : IsFull p) : IsChunk p := by
  unfold IsFull at h
  unfold IsChunk
  rw [h]
  decide

variable {chunks : List Bytes}

theorem wellShaped_of_full (h : ∀ p ∈ chunks, IsFull p) : WellShaped chunks where
  isChunk p hp := (h p hp).isChunk
  isFull p hp := h p (dropLast_subset _ hp)

theorem wellShaped_concat (h : ∀ p ∈ chunks, IsFull p) (hp : IsChunk p) :
    WellShaped (chunks ++ [p]) where
  isChunk q hq := by
    rcases mem_append.mp hq with hq | hq
    · exact (h q hq).isChunk
    · rw [mem_singleton.mp hq]
      exact hp
  isFull q hq := by
    rw [dropLast_concat] at hq
    exact h q hq

theorem WellShaped.take (h : WellShaped chunks) {i : ℕ} (hi : i < chunks.length) :
    ∀ p ∈ chunks.take i, IsFull p := by
  intro p hp
  refine h.isFull p ?_
  rw [dropLast_eq_take]
  exact take_subset_take_left chunks (by omega) hp

/-! ## Reading an encoded file -/

/-- Bytes behind the last record from which no whole record can be read. -/
def Stuck (t : Bytes) : Prop :=
  ∀ n body, readBe32 t = some (n, body) → 1 ≤ n ∧ n ≤ PlainChunkBytes ∧ body.length < n + TagBytes

theorem stuck_nil : Stuck [] := nofun

theorem IsChunk.lt (h : IsChunk p) : p.length < 2 ^ 32 := by
  have := h.2
  unfold PlainChunkBytes at this
  omega

section Reading

variable {C : Crypto} {master_key : Bytes} {transfer_id : TransferId} {pre : Bytes}

variable {i : ℕ} {p : Bytes}

theorem readBe32_recordOf (hp : IsChunk p) (s : Bytes) :
    readBe32 (recordOf C master_key transfer_id pre i p ++ s) =
      some (p.length,
        C.encrypt (transferKey C master_key transfer_id) (nonceFor pre i) p ++ s) := by
  unfold recordOf writeLength
  rw [append_assoc]
  exact readBe32_be32 hp.lt _

variable {t : Bytes}

theorem IsPart.stuck (h : IsPart C master_key transfer_id pre i t) : Stuck t := by
  obtain ⟨p, hp, -, ⟨s, hs⟩, hlen⟩ := h
  intro n body hread
  have hread' := readBe32_append hread s
  rw [hs, ← append_nil (recordOf _ _ _ _ _ _), readBe32_recordOf hp] at hread'
  obtain ⟨rfl, -⟩ := Prod.mk.inj (Option.some.inj hread')
  have hbody := length_of_readBe32 hread
  rw [length_recordOf] at hlen
  exact ⟨hp.1, hp.2, by omega⟩

theorem recordOf_front_iff {q : Bytes} (hp : IsChunk p) (hq : IsChunk q) {s : Bytes} :
    recordOf C master_key transfer_id pre i p <+: recordOf C master_key transfer_id pre i q ++ s ↔
    p = q := by
  constructor
  · rintro ⟨u, hu⟩
    have hread := @readBe32_recordOf C master_key transfer_id pre i p hp u
    rw [hu, readBe32_recordOf hq] at hread
    obtain ⟨hlen, hbody⟩ := Prod.mk.inj (Option.some.inj hread)
    have hcipher := (append_inj hbody (by rw [C.length_encrypt, C.length_encrypt, hlen])).1
    exact (C.encrypt_injective _ _ hcipher).symm
  · rintro rfl
    exact prefix_append _ _

theorem not_recordOf_prefix_part (hp : IsChunk p) (h : IsPart C master_key transfer_id pre i t) :
    ¬ recordOf C master_key transfer_id pre i p <+: t := by
  rintro ⟨u, rfl⟩
  obtain ⟨-, -, hfit⟩ := h.stuck _ _ (readBe32_recordOf hp u)
  rw [length_append, C.length_encrypt] at hfit
  omega

theorem skip_records {size j : ℕ} {chunks : List Bytes} {rest : Bytes} (ht : Stuck t)
    (hchunks : ∀ p ∈ chunks, IsChunk p)
    (hsize : (encodeRecords C master_key transfer_id pre j chunks ++ t).length ≤ size) :
    skipConfirmed size i (encodeRecords C master_key transfer_id pre j chunks ++ t) = .ok rest ↔
      i ≤ chunks.length ∧ (∀ p ∈ chunks.take i, IsFull p) ∧
        rest = encodeRecords C master_key transfer_id pre (j + i) (chunks.drop i) ++ t := by
  induction i generalizing j chunks with
  | zero =>
    simp only [skipConfirmed, Except.ok.injEq, Nat.zero_le, take_zero, not_mem_nil,
      false_implies, implies_true, true_and, Nat.add_zero, drop_zero]
    exact eq_comm
  | succ i ih =>
    rw [skipConfirmed_succ hsize]
    cases chunks with
    | nil =>
      -- no record can be read off the bytes behind the last one
      constructor
      · rintro ⟨body, hread, hfit, -⟩
        obtain ⟨-, -, hlt⟩ := ht _ _ hread
        omega
      · rintro ⟨hle, -⟩
        exact absurd hle (Nat.not_succ_le_zero i)
    | cons p chunks =>
      have hp : IsChunk p := hchunks p mem_cons_self
      have hread := @readBe32_recordOf C master_key transfer_id pre j p hp
        (encodeRecords C master_key transfer_id pre (j + 1) chunks ++ t)
      have henc : encodeRecords C master_key transfer_id pre j (p :: chunks) ++ t =
          recordOf C master_key transfer_id pre j p ++
            (encodeRecords C master_key transfer_id pre (j + 1) chunks ++ t) :=
        append_assoc _ _ _
      have hsize' :
        (encodeRecords C master_key transfer_id pre (j + 1) chunks ++ t).length ≤ size := by
        rw [henc, length_append] at hsize
        omega
      have hih := @ih (j + 1) chunks (fun q hq => hchunks q (mem_cons_of_mem _ hq)) hsize'
      rw [henc, hread]
      constructor
      · rintro ⟨body, hbody, -, hrest⟩
        obtain ⟨hlen, rfl⟩ := Prod.mk.inj (Option.some.inj hbody)
        rw [← hlen, drop_left' (C.length_encrypt _ _ _), hih] at hrest
        obtain ⟨hle, hfull, rfl⟩ := hrest
        refine ⟨Nat.succ_le_succ hle, fun q hq => ?_, by rw [Nat.add_assoc, Nat.add_comm 1]; rfl⟩
        rcases mem_cons.mp hq with rfl | hq
        · exact hlen
        · exact hfull q hq
      · rintro ⟨hle, hfull, rfl⟩
        have hlen : p.length = PlainChunkBytes := hfull p mem_cons_self
        refine ⟨_, by rw [hlen], ?_, ?_⟩
        · rw [length_append, C.length_encrypt, hlen]
          omega
        · rw [← hlen, drop_left' (C.length_encrypt _ _ _), hih]
          exact ⟨Nat.le_of_succ_le_succ hle, fun q hq => hfull q (mem_cons_of_mem _ hq),
            by rw [Nat.add_assoc, Nat.add_comm 1]; rfl⟩

end Reading

/-! ## Appending to an encoded file -/

section Append

variable {C : Crypto} {master_key : Bytes} {transfer_id : TransferId} {pre : Prefix}
  {chunks : List Bytes} {t : Bytes}

theorem drop_encodeFile : (encodeFile C master_key transfer_id pre chunks t).drop
    (Magic.length + 16) = encodeRecords C master_key transfer_id pre.val 0 chunks ++ t := by
  unfold encodeFile
  exact drop_left' (by rw [length_append, pre.property])

theorem hasHeader_encodeFile : HasHeader (encodeFile C master_key transfer_id pre chunks t) := by
  unfold encodeFile
  refine ⟨?_, ?_⟩
  · rw [length_append, length_append, pre.property]
    omega
  · rw [append_assoc]
    exact take_left' rfl

theorem prefixOf_encodeFile :
    prefixOf (encodeFile C master_key transfer_id pre chunks t) = pre.val := by
  unfold prefixOf encodeFile
  rw [append_assoc, drop_left' rfl, take_left' pre.property]

theorem after_encodeFile {i : ℕ} {rest : Bytes} (ht : Stuck t) (hchunks : ∀ p ∈ chunks, IsChunk p) :
    After (encodeFile C master_key transfer_id pre chunks t) i rest ↔
      i ≤ chunks.length ∧ (∀ p ∈ chunks.take i, IsFull p) ∧
        rest = encodeRecords C master_key transfer_id pre.val i (chunks.drop i) ++ t := by
  unfold After
  rw [drop_encodeFile, skip_records ht hchunks, Nat.zero_add]
  unfold encodeFile
  simp only [length_append]
  omega

theorem encodeRecords_concat (i : ℕ) (p : Bytes) :
    encodeRecords C master_key transfer_id pre.val i (chunks ++ [p]) =
      encodeRecords C master_key transfer_id pre.val i chunks ++
        recordOf C master_key transfer_id pre.val (i + chunks.length) p := by
  induction chunks generalizing i with
  | nil => simp [encodeRecords]
  | cons q chunks ih =>
    simp only [cons_append, encodeRecords, ih, append_assoc, length_cons, Nat.add_assoc,
      Nat.add_comm 1]

/-- The bytes of a file that end with its records, or with a part of one more. -/
def IsTail (C : Crypto) (master_key : Bytes) (transfer_id : TransferId) (pre : Bytes)
    (chunks : List Bytes) (t : Bytes) : Prop :=
  t = [] ∨ ((∀ p ∈ chunks, IsFull p) ∧ IsPart C master_key transfer_id pre chunks.length t)

theorem IsTail.stuck (h : IsTail C master_key transfer_id pre.val chunks t) : Stuck t := by
  rcases h with rfl | ⟨-, h⟩
  · exact stuck_nil
  · exact h.stuck

variable {d : Dir} {offset : UInt64} {p : Bytes}

/-- The plan of an append to an encoded file: replay the chunk that is there, write the next one
behind full chunks, and nothing else. -/
theorem plan_encodeFile (hvalid : ValidChunk offset p) (hpath : pathFor transfer_id = .ok ())
    (hlock : d.locks transfer_id = true)
    (hfile : d.files transfer_id = some (encodeFile C master_key transfer_id pre chunks t))
    (hshape : WellShaped chunks) (ht : IsTail C master_key transfer_id pre.val chunks t)
    (a : Action) :
    planAppend C master_key d transfer_id offset p = .ok a ↔
      (chunks[offset.toNat / PlainChunkBytes]? = some p ∧ a = .replay) ∨
      (offset.toNat / PlainChunkBytes = chunks.length ∧ (∀ c ∈ chunks, IsFull c) ∧ t = [] ∧
        a = .write (encodeFile C master_key transfer_id pre chunks t)
          (recordOf C master_key transfer_id pre.val chunks.length p)) := by
  have hp : IsChunk p := ⟨hvalid.1, hvalid.2.1⟩
  generalize hi : offset.toNat / PlainChunkBytes = i
  rw [planAppend_eq_ok, hi]
  constructor
  · rintro ⟨-, -, -, content, rest, hfile', -, hafter, h⟩
    obtain rfl := Option.some.inj (hfile.symm.trans hfile')
    rw [prefixOf_encodeFile] at h
    obtain ⟨hle, hfull, rfl⟩ := (after_encodeFile ht.stuck hshape.isChunk).mp hafter
    rcases Nat.lt_or_eq_of_le hle with hlt | heq
    · -- there is a chunk at `i`
      obtain ⟨c, hc⟩ : ∃ c, chunks[i]? = some c := ⟨_, List.getElem?_eq_getElem hlt⟩
      have hcmem : c ∈ chunks := mem_of_getElem? hc
      have hdrop : chunks.drop i = c :: chunks.drop (i + 1) := by
        rw [drop_eq_getElem_cons hlt, ← Option.some.inj (hc.symm.trans
          (List.getElem?_eq_getElem hlt))]
      rw [hdrop, encodeRecords, append_assoc] at h
      rcases h with ⟨-, hrecord, rfl⟩ | ⟨hnil, -⟩
      · rw [recordOf_front_iff hp (hshape.isChunk c hcmem)] at hrecord
        exact Or.inl ⟨hrecord ▸ hc, rfl⟩
      · have := congrArg List.length hnil
        rw [length_append, length_recordOf] at this
        simp only [length_nil] at this
        omega
    · -- the chunks end at `i`
      subst heq
      rw [drop_length, encodeRecords, nil_append] at h
      rw [take_length] at hfull
      rcases h with ⟨hne, hrecord, -⟩ | ⟨rfl, rfl⟩
      · exact absurd hrecord (not_recordOf_prefix_part hp (ht.resolve_left hne).2)
      · exact Or.inr ⟨rfl, hfull, rfl, rfl⟩
  · rintro (⟨hc, rfl⟩ | ⟨rfl, hfull, rfl, rfl⟩)
    · obtain ⟨hlt, hget⟩ := List.getElem?_eq_some_iff.mp hc
      have hdrop : chunks.drop i = p :: chunks.drop (i + 1) := by
        rw [drop_eq_getElem_cons hlt, hget]
      refine ⟨hvalid, hpath, hlock, _, _, hfile, hasHeader_encodeFile,
        (after_encodeFile ht.stuck hshape.isChunk).mpr
          ⟨Nat.le_of_lt hlt, hshape.take hlt, rfl⟩, Or.inl ⟨?_, ?_, rfl⟩⟩
      · intro hnil
        have := congrArg List.length hnil
        rw [hdrop, encodeRecords, length_append, length_append, length_recordOf] at this
        simp only [length_nil] at this
        omega
      · rw [hdrop, encodeRecords, append_assoc, prefixOf_encodeFile]
        exact prefix_append _ _
    · refine ⟨hvalid, hpath, hlock, _, [], hfile, hasHeader_encodeFile,
        (after_encodeFile ht.stuck hshape.isChunk).mpr ⟨le_refl _, ?_, ?_⟩, Or.inr ⟨rfl, ?_⟩⟩
      · rw [take_length]
        exact hfull
      · rw [drop_length, encodeRecords, nil_append]
      · rw [prefixOf_encodeFile]

theorem append_of_error (fault : Option ℕ)
    (h : ∀ a, planAppend C master_key d transfer_id offset p ≠ .ok a) :
    (append C master_key fault transfer_id offset p d).1.toOption = none ∧
      (append C master_key fault transfer_id offset p d).2 = d := by
  unfold append
  rcases hplan : planAppend C master_key d transfer_id offset p with e | a
  · exact ⟨rfl, rfl⟩
  · exact absurd hplan (h a)

/-- The reply of `append`. -/
def reply (offset : UInt64) (p : Bytes) (ok : Bool) : Option UInt64 :=
  if ok then some (offset + UInt64.ofNat p.length) else none

theorem append_of_replay (fault : Option ℕ)
    (h : planAppend C master_key d transfer_id offset p = .ok .replay) :
    (append C master_key fault transfer_id offset p d).1.toOption = reply offset p fault.isNone ∧
      (append C master_key fault transfer_id offset p d).2 = d := by
  unfold append
  rw [h]
  cases fault <;> exact ⟨rfl, rfl⟩

theorem represents_write (hfull : ∀ c ∈ chunks, IsFull c) (hp : IsChunk p) (n : ℕ) :
    Represents C master_key transfer_id
      (if n = 0 then .whole chunks
        else if n < 4 + (p.length + TagBytes) then .torn chunks else .whole (chunks ++ [p]))
      (encodeFile C master_key transfer_id pre chunks [] ++
        (recordOf C master_key transfer_id pre.val chunks.length p).take n) := by
  have hfile : ∀ u, encodeFile C master_key transfer_id pre chunks [] ++ u =
      encodeFile C master_key transfer_id pre chunks u := by
    intro u
    unfold encodeFile
    simp only [append_assoc, nil_append]
  have hlen := length_recordOf C master_key transfer_id pre.val chunks.length p
  rw [hfile]
  split_ifs with h0 hn
  · rw [h0, take_zero]
    exact .whole pre (wellShaped_of_full hfull)
  · refine .torn pre hfull ⟨p, hp, ?_, take_prefix _ _, ?_⟩
    · intro hnil
      have := congrArg List.length hnil
      rw [length_take, length_nil] at this
      omega
    · rw [length_take]
      omega
  · rw [take_of_length_le (by omega)]
    have hconcat : encodeFile C master_key transfer_id pre chunks
        (recordOf C master_key transfer_id pre.val chunks.length p) =
        encodeFile C master_key transfer_id pre (chunks ++ [p]) [] := by
      unfold encodeFile
      rw [encodeRecords_concat, Nat.zero_add, append_nil]
    rw [hconcat]
    exact .whole pre (wellShaped_concat hfull hp)

/-- **Append refines.** An append to a file that represents an abstract one leaves a file that
represents what `Spec.appendFile` leaves, and answers as it does. -/
theorem append_represents {content : Bytes} {f : AbsFile} (fault : Option ℕ)
    (hvalid : ValidChunk offset p)
    (hpath : pathFor transfer_id = .ok ()) (hlock : d.locks transfer_id = true)
    (hfile : d.files transfer_id = some content)
    (hrep : Represents C master_key transfer_id f content) :
    (append C master_key fault transfer_id offset p d).1.toOption =
        reply offset p (Spec.appendFile fault (offset.toNat / PlainChunkBytes) p f).1 ∧
      ∃ content', (append C master_key fault transfer_id offset p d).2 =
          { d with files := Function.update d.files transfer_id (some content') } ∧
        Represents C master_key transfer_id
          (Spec.appendFile fault (offset.toNat / PlainChunkBytes) p f).2 content' := by
  have hsame : d = { d with files := Function.update d.files transfer_id (some content) } := by
    rw [← hfile, Function.update_eq_self]
  have hp : IsChunk p := ⟨hvalid.1, hvalid.2.1⟩
  cases hrep with
  | broken header =>
    obtain ⟨hreply, hdir⟩ := append_of_error fault (fun a hplan => by
      obtain ⟨-, -, -, content', rest, hfile', hheader, -⟩ := planAppend_eq_ok.mp hplan
      obtain rfl := Option.some.inj (hfile.symm.trans hfile')
      exact header hheader)
    exact ⟨hreply, content, hdir.trans hsame, .broken header⟩
  | @whole chunks pre shape =>
    have hplan := plan_encodeFile hvalid hpath hlock hfile shape (Or.inl rfl)
    simp only [Spec.appendFile]
    split_ifs with hchunk hnext
    · obtain ⟨hreply, hdir⟩ := append_of_replay fault ((hplan .replay).mpr (Or.inl ⟨hchunk, rfl⟩))
      exact ⟨hreply, _, hdir.trans hsame, .whole pre shape⟩
    · -- the chunk is the next one
      have hwrite := (hplan _).mpr (Or.inr ⟨hnext.1, hnext.2, rfl, rfl⟩)
      unfold append
      rw [hwrite]
      cases fault with
      | none =>
        refine ⟨rfl, _, rfl, ?_⟩
        have hrep := @represents_write C master_key transfer_id pre chunks p hnext.2 hp
          (4 + (p.length + TagBytes))
        rw [if_neg (by omega), if_neg (lt_irrefl _), take_of_length_le
          (by rw [length_recordOf])] at hrep
        exact hrep
      | some n => exact ⟨rfl, _, rfl, represents_write hnext.2 hp n⟩
    · obtain ⟨hreply, hdir⟩ := append_of_error fault (fun a ha => by
        rcases (hplan a).mp ha with ⟨h, -⟩ | ⟨h, hfull, -⟩
        · exact hchunk h
        · exact hnext ⟨h, hfull⟩)
      exact ⟨hreply, _, hdir.trans hsame, .whole pre shape⟩
  | @torn chunks pre full t part =>
    have hplan := plan_encodeFile hvalid hpath hlock hfile (wellShaped_of_full full)
      (Or.inr ⟨full, part⟩)
    simp only [Spec.appendFile]
    by_cases hchunk : chunks[offset.toNat / PlainChunkBytes]? = some p
    · obtain ⟨hreply, hdir⟩ := append_of_replay fault ((hplan .replay).mpr (Or.inl ⟨hchunk, rfl⟩))
      refine ⟨?_, _, hdir.trans hsame, .torn pre full part⟩
      rw [hreply, decide_eq_true hchunk, Bool.true_and]
    · obtain ⟨hreply, hdir⟩ := append_of_error fault (fun a ha => by
        rcases (hplan a).mp ha with ⟨h, -⟩ | ⟨-, -, h, -⟩
        · exact hchunk h
        · obtain ⟨-, -, hne, -⟩ := part
          exact hne h)
      refine ⟨?_, _, hdir.trans hsame, .torn pre full part⟩
      rw [hreply, decide_eq_false hchunk]
      rfl

end Append

end DistributedChat.Store
