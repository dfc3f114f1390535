import DistributedChat.Store.Refinement

/-!
# What a file holds, faults included

`completeRecords` reads the complete records of a file and stops at a torn one. `Stored` says that a
file holds a list of chunks in its complete records, and there is one theorem for each operation,
with any fault: what it leaves in its own file, and that it leaves the other files alone.
-/

namespace DistributedChat.Store

open Lib Function List

/-- The complete records at the front of some bytes, decrypted, the first with index `i`. -/
def completeRecords (C : Crypto) (key pre : Bytes) : ℕ → ℕ → Bytes → List Bytes
  | 0, _, _ => []
  | fuel + 1, i, bytes =>
    match readBe32 bytes with
    | none => []
    | some (n, body) =>
      if body.length < n + TagBytes then []
      else
        match C.decrypt key (nonceFor pre i) (body.take (n + TagBytes)) with
        | none => []
        | some p => p :: completeRecords C key pre fuel (i + 1) (body.drop (n + TagBytes))

/-- The complete records of the file of an id, if the file exists. -/
def storedChunks (C : Crypto) (master_key : Bytes) (d : Dir) (id : TransferId) :
    Option (List Bytes) :=
  (d.files id).map fun content =>
    match readHeader "" (some content) with
    | .error _ => []
    | .ok (pre, records) =>
      completeRecords C (transferKey C master_key id) pre content.length 0 records

section Contents

variable {C : Crypto} {master_key : Bytes} {d : Dir} {id : TransferId} {chunks : List Bytes}

theorem completeRecords_stuck {key pre t : Bytes} (ht : Stuck t) (fuel i : ℕ) :
    completeRecords C key pre fuel i t = [] := by
  cases fuel with
  | zero => rfl
  | succ fuel =>
    unfold completeRecords
    rcases hread : readBe32 t with _ | ⟨n, body⟩
    · rfl
    · obtain ⟨-, -, hshort⟩ := ht n body hread
      simp only [if_pos hshort]

theorem completeRecords_encode {pre t : Bytes} (ht : Stuck t) (hchunks : ∀ p ∈ chunks, IsChunk p)
    {fuel i : ℕ}
    (hfuel : (encodeRecords C master_key id pre i chunks).length ≤ fuel) :
    completeRecords C (transferKey C master_key id) pre fuel i
      (encodeRecords C master_key id pre i chunks ++ t) = chunks := by
  induction chunks generalizing fuel i with
  | nil => exact completeRecords_stuck ht fuel i
  | cons p chunks ih =>
    have hp := hchunks p mem_cons_self
    have hlen := length_recordOf C master_key id pre i p
    rw [encodeRecords, length_append] at hfuel
    obtain ⟨fuel, rfl⟩ : ∃ n, fuel = n + 1 := ⟨fuel - 1, by omega⟩
    have hcipher := C.length_encrypt (transferKey C master_key id) (nonceFor pre i) p
    rw [encodeRecords, append_assoc]
    unfold completeRecords
    rw [readBe32_recordOf hp]
    simp only
    rw [if_neg (by rw [length_append]; omega), take_left' hcipher, drop_left' hcipher,
      C.decrypt_encrypt]
    simp only
    rw [ih (fun q hq => hchunks q (mem_cons_of_mem _ hq)) (by omega)]

/-- The file of an id holds these chunks in its complete records. -/
def Stored (C : Crypto) (master_key : Bytes) (d : Dir) (id : TransferId) (chunks : List Bytes) :
    Prop :=
  pathFor id = .ok () ∧ d.locks id = true ∧ WellShaped chunks ∧
    ∃ (pre : Prefix) (t : Bytes), IsTail C master_key id pre.val chunks t ∧
      d.files id = some (encodeFile C master_key id pre chunks t)

theorem Stored.storedChunks (h : Stored C master_key d id chunks) :
    storedChunks C master_key d id = some chunks := by
  obtain ⟨-, -, hshape, pre, t, htail, hfile⟩ := h
  have hheader : readHeader "" (some (encodeFile C master_key id pre chunks t)) =
      .ok (pre.val, encodeRecords C master_key id pre.val 0 chunks ++ t) :=
    readHeader_eq_ok.mpr
      ⟨_, rfl, hasHeader_encodeFile, prefixOf_encodeFile.symm, drop_encodeFile.symm⟩
  unfold Store.storedChunks
  rw [hfile, Option.map_some, hheader]
  simp only
  rw [completeRecords_encode htail.stuck hshape.isChunk]
  unfold encodeFile
  simp only [length_append]
  omega

theorem Stored.congr {d' : Dir} (h : Stored C master_key d id chunks)
    (hfile : d'.files id = d.files id)
    (hlock : d.locks id = true → d'.locks id = true) : Stored C master_key d' id chunks := by
  obtain ⟨hpath, hl, hshape, pre, t, htail, hf⟩ := h
  exact ⟨hpath, hlock hl, hshape, pre, t, htail, hfile.trans hf⟩

theorem Stored.of_represents {f : AbsFile} {content : Bytes} (hpath : pathFor id = .ok ())
    (hlock : d.locks id = true) (hfile : d.files id = some content) (hf : f ≠ .broken)
    (h : Represents C master_key id f content) : Stored C master_key d id f.chunks := by
  cases h with
  | broken header => exact absurd rfl hf
  | whole pre shape => exact ⟨hpath, hlock, shape, pre, [], Or.inl rfl, hfile⟩
  | torn pre full part =>
    exact ⟨hpath, hlock, wellShaped_of_full full, pre, _, Or.inr ⟨full, part⟩, hfile⟩

theorem Stored.represents (h : Stored C master_key d id chunks) :
    ∃ f content, f ≠ .broken ∧ f.chunks = chunks ∧ d.files id = some content ∧
      Represents C master_key id f content := by
  obtain ⟨-, -, hshape, pre, t, htail, hfile⟩ := h
  rcases htail with rfl | ⟨hfull, hpart⟩
  · exact ⟨.whole chunks, _, nofun, rfl, hfile, .whole pre hshape⟩
  · exact ⟨.torn chunks, _, nofun, rfl, hfile, .torn pre hfull hpart⟩

/-! ## Operations -/

/-- An append keeps the chunks or adds the next one, and if it succeeds its chunk is there. -/
theorem appendFile_chunks (fault : Option ℕ) (i : ℕ) (p : Bytes) {f : AbsFile} (hf : f ≠ .broken) :
    (Spec.appendFile fault i p f).2 ≠ .broken ∧ ((Spec.appendFile fault i p f).2.chunks = f.chunks ∨
        ((Spec.appendFile fault i p f).2.chunks = f.chunks ++ [p] ∧ i = f.chunks.length ∧
          ∀ c ∈ f.chunks, IsFull c)) ∧
      ((Spec.appendFile fault i p f).1 = true → (Spec.appendFile fault i p f).2.chunks[i]? =
        some p) := by
  cases f with
  | broken => exact absurd rfl hf
  | torn chunks =>
    refine ⟨by rintro ⟨⟩, Or.inl rfl, fun h => ?_⟩
    simp only [Spec.appendFile, Bool.and_eq_true, decide_eq_true_eq] at h
    exact h.1
  | whole chunks =>
    simp only [Spec.appendFile]
    split_ifs with hthere hnext
    · exact ⟨by rintro ⟨⟩, Or.inl rfl, fun _ => hthere⟩
    · cases fault with
      | none =>
        refine ⟨by rintro ⟨⟩, Or.inr ⟨rfl, hnext⟩, fun _ => ?_⟩
        rw [hnext.1]
        exact List.getElem?_concat_length
      | some n =>
        refine ⟨?_, ?_, by rintro ⟨⟩⟩
        · simp only
          split_ifs <;> rintro ⟨⟩
        · simp only
          split_ifs
          · exact Or.inl rfl
          · exact Or.inl rfl
          · exact Or.inr ⟨rfl, hnext⟩
    · exact ⟨by rintro ⟨⟩, Or.inl rfl, by rintro ⟨⟩⟩

/-- **Append**, with any fault, to a file that holds some chunks. -/
theorem Stored.append {offset : UInt64} {p : Bytes} (h : Stored C master_key d id chunks)
    (fault : Option ℕ) (hvalid : ValidChunk offset p) :
    ∃ chunks', Stored C master_key (append C master_key fault id offset p d).2 id chunks' ∧
      (chunks' = chunks ∨ (chunks' = chunks ++ [p] ∧
        offset.toNat / PlainChunkBytes = chunks.length ∧ ∀ c ∈ chunks, IsFull c)) ∧
      (∀ v, (append C master_key fault id offset p d).1.toOption = some v → v =
        offset + UInt64.ofNat p.length ∧
          chunks'[offset.toNat / PlainChunkBytes]? = some p) := by
  obtain ⟨f, content, hf, rfl, hfile, hrep⟩ := h.represents
  obtain ⟨hpath, hlock, -⟩ := h
  obtain ⟨hreply, content', hdir, hrep'⟩ :=
    append_represents fault hvalid hpath hlock hfile hrep
  obtain ⟨hf', hchunks, hthere⟩ :=
    appendFile_chunks fault (offset.toNat / PlainChunkBytes) p hf
  refine ⟨_, ?_, hchunks, fun v hv => ?_⟩
  · rw [hdir]
    exact .of_represents hpath hlock (update_self ..) hf' hrep'
  · rw [hreply] at hv
    unfold reply at hv
    split_ifs at hv with hok
    exact ⟨(Option.some.inj hv).symm, hthere hok⟩

/-- Two directories agree on an id: the same file, and its lock file is still there. -/
def Dir.Agree (d d' : Dir) (id : TransferId) : Prop :=
  d'.files id = d.files id ∧ (d.locks id = true → d'.locks id = true)

theorem Dir.Agree.refl (d : Dir) (id : TransferId) : d.Agree d id := ⟨rfl, fun h => h⟩

theorem Stored.agree {d' : Dir} (h : Stored C master_key d id chunks) (ha : d.Agree d' id) :
    Stored C master_key d' id chunks :=
  h.congr ha.1 ha.2

variable {id' : TransferId}

theorem append_agree (fault : Option ℕ) (offset : UInt64) (p : Bytes) (hne : id' ≠ id) :
    d.Agree (append C master_key fault id offset p d).2 id' := by
  unfold append
  split
  · exact .refl d id'
  · cases fault <;> exact .refl d id'
  · cases fault <;> exact ⟨update_of_ne hne _ _, fun h => h⟩

theorem create_agree (fault : Option ℕ) (pre : Prefix) (h : id' ≠ id ∨ d.files id' ≠ none) :
    d.Agree (create fault id pre d).2 id' := by
  rcases hpath : pathFor id with e | ⟨⟩
  · simp only [create, hpath]
    exact .refl d id'
  rcases hfile : d.files id with _ | content
  · have hne : id' ≠ id := by
      rintro rfl
      exact h.elim (fun hne => hne rfl) fun hn => hn hfile
    cases fault with
    | none | some n =>
      simp only [create, hpath, hfile]
      exact ⟨update_of_ne hne _ _, lock_update⟩
  · simp only [create, hpath, hfile]
    exact ⟨rfl, lock_update⟩

theorem create_stored (fault : Option ℕ) (pre : Prefix)
    (h : (create fault id pre d).1.toOption = some ()) :
    Stored C master_key (create fault id pre d).2 id [] := by
  rcases hpath : pathFor id with e | ⟨⟩
  · simp [create, hpath, Except.toOption] at h
  rcases hfile : d.files id with _ | content
  · cases fault with
    | some n => simp [create, hpath, hfile, Except.toOption] at h
    | none =>
      simp only [create, hpath, hfile]
      refine ⟨hpath, update_self .., ⟨by rintro _ ⟨⟩, by rintro _ ⟨⟩⟩, pre, [], Or.inl rfl, ?_⟩
      show update d.files id (some (Magic ++ pre.val)) id = _
      rw [update_self]
      unfold encodeFile encodeRecords
      rw [append_nil, append_nil]
  · simp [create, hpath, hfile, Except.toOption] at h

theorem remove_agree (hne : id' ≠ id) : d.Agree (remove id d).2 id' := by
  unfold remove
  split
  · exact .refl d id'
  · exact ⟨update_of_ne hne _ _, fun h => h⟩

/-- **Sha256** of a file whose complete records have the given size. -/
theorem Stored.sha256 {total_size : UInt64} (h : Stored C master_key d id chunks)
    (htotal : total_size.toNat = chunks.flatten.length) :
    sha256 C master_key d id total_size = .ok (C.hashSha256 chunks.flatten) := by
  obtain ⟨hpath, hlock, hshape, pre, t, htail, hfile⟩ := h
  exact sha256_represents hpath hlock hfile hshape htail.stuck htotal

theorem WellShaped.getElem_eq (h : WellShaped chunks) {k : ℕ} (hk : k < chunks.length) :
    chunks[k] = (chunks.flatten.drop (PlainChunkBytes * k)).take PlainChunkBytes := by
  have hfront := length_flatten_of_full (h.take hk)
  rw [length_take, Nat.min_eq_left hk.le] at hfront
  have hsplit :
    chunks.flatten = (chunks.take k).flatten ++ (chunks[k] ++ (chunks.drop (k + 1)).flatten) := by
    rw [← flatten_cons, ← drop_eq_getElem_cons hk, ← flatten_append, take_append_drop]
  rw [hsplit, drop_left' hfront]
  by_cases hlast : k + 1 < chunks.length
  · have hfull : chunks[k].length = PlainChunkBytes := by
      refine h.take hlast _ ?_
      rw [take_succ_eq_append_getElem hk]
      exact mem_append_right _ mem_cons_self
    exact (take_left' hfull).symm
  · rw [drop_eq_nil_of_le (by omega), flatten_nil, append_nil]
    exact (take_of_length_le (h.isChunk _ (getElem_mem hk)).2).symm

/-- **Read** at the start of a chunk. -/
theorem Stored.read {k : ℕ} (h : Stored C master_key d id chunks) (hk : k < chunks.length)
    (hsize : PlainChunkBytes * k < 2 ^ 64) :
    read C master_key d id (UInt64.ofNat (PlainChunkBytes * k)) PlainChunkBytes =
      .ok ((chunks.flatten.drop (PlainChunkBytes * k)).take PlainChunkBytes) := by
  obtain ⟨hpath, hlock, hshape, pre, t, htail, hfile⟩ := h
  have hoffset : (UInt64.ofNat (PlainChunkBytes * k)).toNat = PlainChunkBytes * k :=
    UInt64.toNat_ofNat_of_lt hsize
  rw [read_represents hpath hlock hfile hshape.isChunk htail.stuck hoffset,
    List.getElem?_eq_getElem hk,
    hshape.getElem_eq hk]
  exact ⟨rfl, length_take_le _ _⟩

end Contents

end DistributedChat.Store
