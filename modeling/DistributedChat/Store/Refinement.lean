import DistributedChat.Store.Chunks

/-!
# The store is a map of chunk lists

Reading back what the records hold: `read` returns a chunk, `sha256` hashes all of them, and
`decodeFile` decodes a whole file. Over runs without torn writes the directory decodes to a map from
ids to lists of chunks that evolves as `Spec.step` says, and the answers of the operations are those
of the map.
-/

namespace DistributedChat.Store

open Lib Function List

/-! ## Reading chunks -/

section Read

variable {C : Crypto} {master_key : Bytes} {transfer_id : TransferId}

variable {t : Bytes} {maximum_bytes : ℕ}

theorem readRecord_stuck {key pre : Bytes} {target skip : ℕ} (ht : Stuck t) (b : Bytes) :
    readRecord C key pre maximum_bytes target skip t ≠ .ok b := by
  intro h
  rw [readRecord.eq_def] at h
  simp only [bind_eq_ok, Prod.exists, readLength_eq_ok, check_eq_ok] at h
  obtain ⟨n, body, hread, -, hfit, -⟩ := h
  obtain ⟨-, -, hlt⟩ := ht n body hread
  exact hfit hlt

section Rounds

variable {pre s p b : Bytes} {maximum_bytes j : ℕ}

theorem round_recordOf (hp : IsChunk p) (m : ℕ → Bytes → Bytes → Except StoreError Bytes) :
    (do
      let (plain_size, input) ← readLength (recordOf C master_key transfer_id pre j p ++ s)
      if plain_size = 0 ∨ PlainChunkBytes < plain_size then
        throw (.runtimeError "invalid record size")
      else if input.length < plain_size + TagBytes then
        throw (.runtimeError "truncated encrypted attachment")
      else
        m plain_size (input.take (plain_size + TagBytes)) (input.drop (plain_size + TagBytes))) =
      m p.length (C.encrypt (transferKey C master_key transfer_id) (nonceFor pre j) p) s := by
  have hlen := C.length_encrypt (transferKey C master_key transfer_id) (nonceFor pre j) p
  have hread : readLength (recordOf C master_key transfer_id pre j p ++ s) =
      .ok (p.length, C.encrypt (transferKey C master_key transfer_id) (nonceFor pre j) p ++ s) :=
    readLength_eq_ok.mpr (readBe32_recordOf hp s)
  have hsize : ¬ (p.length = 0 ∨ PlainChunkBytes < p.length) := by
    have := hp.1
    have := hp.2
    omega
  rw [hread]
  show (if p.length = 0 ∨ PlainChunkBytes < p.length then _ else _) = _
  rw [if_neg hsize, if_neg (by rw [length_append, hlen]; omega), take_left' hlen, drop_left' hlen]

theorem readRecord_decrypt (hp : IsChunk p) :
    readRecord C (transferKey C master_key transfer_id) pre maximum_bytes j 0
        (recordOf C master_key transfer_id pre j p ++ s) =
      match C.decrypt (transferKey C master_key transfer_id) (nonceFor pre j)
          (C.encrypt (transferKey C master_key transfer_id) (nonceFor pre j) p) with
      | none => throw (.runtimeError "attachment authentication failed")
      | some plaintext =>
        if maximum_bytes < plaintext.length then
          throw (.runtimeError "download buffer is too small")
        else
          return plaintext := by
  rw [readRecord.eq_def]
  exact round_recordOf hp fun _ ciphertext _ =>
    match C.decrypt (transferKey C master_key transfer_id) (nonceFor pre j) ciphertext with
    | none => throw (.runtimeError "attachment authentication failed")
    | some plaintext =>
      if maximum_bytes < plaintext.length then
        throw (.runtimeError "download buffer is too small")
      else
        return plaintext

theorem readRecord_zero (hp : IsChunk p) :
    readRecord C (transferKey C master_key transfer_id) pre maximum_bytes j 0
        (recordOf C master_key transfer_id pre j p ++ s) = .ok b ↔ p = b ∧
        b.length ≤ maximum_bytes := by
  rw [readRecord_decrypt hp, C.decrypt_encrypt]
  simp only [check_eq_ok, pure_eq_ok]
  constructor
  · rintro ⟨hle, rfl⟩
    exact ⟨rfl, by omega⟩
  · rintro ⟨rfl, hle⟩
    exact ⟨by omega, rfl⟩

theorem readRecord_succ {target skip : ℕ} (hp : IsChunk p) :
    readRecord C (transferKey C master_key transfer_id) pre maximum_bytes target (skip + 1)
        (recordOf C master_key transfer_id pre j p ++ s) =
      readRecord C (transferKey C master_key transfer_id) pre maximum_bytes target skip s := by
  rw [readRecord.eq_def]
  exact round_recordOf hp fun _ _ rest =>
    readRecord C (transferKey C master_key transfer_id) pre maximum_bytes target skip rest

end Rounds

/-- The loop of `read` returns the chunk `skip` records further on, if there is one and it fits. -/
theorem readRecord_records {pre : Bytes} {target skip j : ℕ} {chunks : List Bytes} (ht : Stuck t)
    (hchunks : ∀ p ∈ chunks, IsChunk p) (htarget : j + skip = target) {b : Bytes} :
    readRecord C (transferKey C master_key transfer_id) pre maximum_bytes target skip
        (encodeRecords C master_key transfer_id pre j chunks ++ t) = .ok b ↔
      chunks[skip]? = some b ∧ b.length ≤ maximum_bytes := by
  induction skip generalizing j chunks with
  | zero =>
    subst htarget
    cases chunks with
    | nil =>
      refine ⟨fun h => absurd h ?_, fun h => by cases h.1⟩
      exact readRecord_stuck ht b
    | cons p chunks =>
      rw [encodeRecords, append_assoc, Nat.add_zero,
        readRecord_zero (hchunks p mem_cons_self), List.getElem?_cons_zero, Option.some.injEq]
  | succ skip ih =>
    cases chunks with
    | nil =>
      refine ⟨fun h => absurd h ?_, fun h => by cases h.1⟩
      exact readRecord_stuck ht b
    | cons p chunks =>
      rw [encodeRecords, append_assoc, readRecord_succ (hchunks p mem_cons_self),
        List.getElem?_cons_succ]
      exact ih (fun q hq => hchunks q (mem_cons_of_mem _ hq)) (by omega)

/-- **Read refines.** -/
theorem read_represents {d : Dir} {pre : Prefix} {chunks : List Bytes} {b : Bytes} {offset : UInt64}
    {i : ℕ}
    (hpath : pathFor transfer_id = .ok ()) (hlock : d.locks transfer_id = true)
    (hfile : d.files transfer_id = some (encodeFile C master_key transfer_id pre chunks t))
    (hchunks : ∀ p ∈ chunks, IsChunk p) (ht : Stuck t)
    (hoffset : offset.toNat = PlainChunkBytes * i) :
    read C master_key d transfer_id offset maximum_bytes = .ok b ↔
      chunks[i]? = some b ∧ b.length ≤ maximum_bytes := by
  have hpos : 0 < PlainChunkBytes := by decide
  have hmod : offset.toNat % PlainChunkBytes = 0 := by rw [hoffset, Nat.mul_mod_right]
  have hdiv : offset.toNat / PlainChunkBytes = i := by rw [hoffset, Nat.mul_div_cancel_left i hpos]
  unfold read
  simp only [bind_eq_ok, check_eq_ok, Prod.exists, readHeader_eq_ok, hmod, hdiv, ne_eq,
    not_true_eq_false, false_or, hlock, Bool.true_eq_false, not_false_eq_true, true_and]
  constructor
  · rintro ⟨-, _, -, pre', input, ⟨content, hfile', -, rfl, rfl⟩, h⟩
    obtain rfl := Option.some.inj (hfile.symm.trans hfile')
    rw [drop_encodeFile, prefixOf_encodeFile] at h
    exact (readRecord_records ht hchunks (Nat.zero_add i)).mp h
  · rintro ⟨hget, hle⟩
    have hb : IsChunk b := hchunks b (mem_of_getElem? hget)
    refine ⟨by have := hb.1; omega, (), hpath, _, _, ⟨_, hfile, hasHeader_encodeFile, rfl, rfl⟩, ?_⟩
    rw [drop_encodeFile, prefixOf_encodeFile]
    exact (readRecord_records ht hchunks (Nat.zero_add i)).mpr ⟨hget, hle⟩

end Read

/-! ## Hashing all chunks -/

variable {chunks : List Bytes}

theorem length_flatten_of_full (h : ∀ p ∈ chunks, IsFull p) :
    chunks.flatten.length = PlainChunkBytes * chunks.length := by
  induction chunks with
  | nil => rfl
  | cons p chunks ih =>
    have hp : p.length = PlainChunkBytes := h p mem_cons_self
    rw [flatten_cons, length_append, length_cons, hp,
      ih fun q hq => h q (mem_cons_of_mem _ hq), Nat.mul_succ, Nat.add_comm]

theorem length_flatten_le (h : ∀ p ∈ chunks, IsChunk p) :
    chunks.flatten.length ≤ PlainChunkBytes * chunks.length := by
  induction chunks with
  | nil => exact le_refl _
  | cons p chunks ih =>
    have hp := (h p mem_cons_self).2
    have hle := ih fun q hq => h q (mem_cons_of_mem _ hq)
    rw [flatten_cons, length_append, length_cons, Nat.mul_succ]
    omega

theorem WellShaped.offset_lt (h : WellShaped chunks) {k : ℕ} (hk : k < chunks.length) :
    PlainChunkBytes * k < chunks.flatten.length := by
  have hsplit := congrArg (fun l : List Bytes => l.flatten.length) (take_append_drop k chunks)
  have htake := length_flatten_of_full (h.take hk)
  have hget : 1 ≤ chunks[k].length := (h.isChunk _ (getElem_mem hk)).1
  rw [length_take, Nat.min_eq_left (Nat.le_of_lt hk)] at htake
  rw [drop_eq_getElem_cons hk] at hsplit
  simp only [flatten_append, flatten_cons, length_append] at hsplit
  omega

section Sha

variable {C : Crypto} {master_key : Bytes} {transfer_id : TransferId} {d : Dir} {pre : Prefix}
  {chunks : List Bytes} {t : Bytes}

theorem sha256From_step {total_size offset : ℕ} {state chunk : Bytes} (h : offset < total_size)
    (hread : read C master_key d transfer_id (UInt64.ofNat offset) PlainChunkBytes = .ok chunk) :
    sha256From C master_key d transfer_id total_size offset state =
      sha256From C master_key d transfer_id total_size (offset + PlainChunkBytes)
      (state ++ chunk) := by
  rw [sha256From, if_pos h, hread, ok_bind]

theorem sha256From_end {total_size offset : ℕ} {state : Bytes} (h : total_size ≤ offset) :
    sha256From C master_key d transfer_id total_size offset state = .ok (C.hashSha256 state) := by
  rw [sha256From, if_neg (by omega)]

theorem sha256From_chunks (hpath : pathFor transfer_id = .ok ())
    (hlock : d.locks transfer_id = true)
    (hfile : d.files transfer_id = some (encodeFile C master_key transfer_id pre chunks t))
    (hshape : WellShaped chunks) (ht : Stuck t) (htotal : chunks.flatten.length < 2 ^ 64)
    (rest k : ℕ)
    (hk : k + rest = chunks.length) :
    sha256From C master_key d transfer_id chunks.flatten.length (PlainChunkBytes * k)
        (chunks.take k).flatten = .ok (C.hashSha256 chunks.flatten) := by
  induction rest generalizing k with
  | zero =>
    obtain rfl : k = chunks.length := by omega
    rw [sha256From_end (length_flatten_le hshape.isChunk), take_length]
  | succ rest ih =>
    have hlt : k < chunks.length := by omega
    have hoffset := hshape.offset_lt hlt
    have hget : chunks[k]? = some chunks[k] := List.getElem?_eq_getElem hlt
    have hread : read C master_key d transfer_id (UInt64.ofNat (PlainChunkBytes * k))
        PlainChunkBytes = .ok chunks[k] := by
      refine (read_represents (i := k) hpath hlock hfile hshape.isChunk ht ?_).mpr
        ⟨hget, (hshape.isChunk _ (getElem_mem hlt)).2⟩
      rw [UInt64.toNat_ofNat', Nat.mod_eq_of_lt (by omega)]
    have hstate : (chunks.take k).flatten ++ chunks[k] = (chunks.take (k + 1)).flatten := by
      rw [take_succ_eq_append_getElem hlt, flatten_concat]
    rw [sha256From_step hoffset hread, hstate, ← Nat.mul_add_one]
    exact ih (k + 1) (by omega)

/-- **Sha256 refines.** -/
theorem sha256_represents {total_size : UInt64} (hpath : pathFor transfer_id = .ok ())
    (hlock : d.locks transfer_id = true)
    (hfile : d.files transfer_id = some (encodeFile C master_key transfer_id pre chunks t))
    (hshape : WellShaped chunks) (ht : Stuck t)
    (htotal : total_size.toNat = chunks.flatten.length) :
    sha256 C master_key d transfer_id total_size = .ok (C.hashSha256 chunks.flatten) := by
  have hlt : chunks.flatten.length < 2 ^ 64 := htotal ▸ total_size.toNat_lt
  unfold sha256
  rw [htotal]
  exact sha256From_chunks hpath hlock hfile hshape ht hlt chunks.length 0 (Nat.zero_add _)

end Sha

/-! ## Decoding -/

/-- All records of a file, from index `i` on, decrypted. -/
def decodeRecords (C : Crypto) (key pre : Bytes) : ℕ → ℕ → Bytes → Option (List Bytes)
  | _, _, [] => some []
  | 0, _, _ :: _ => none
  | fuel + 1, i, b :: bytes => do
    let (n, body) ← readBe32 (b :: bytes)
    if body.length < n + TagBytes then none
    else
      let p ← C.decrypt key (nonceFor pre i) (body.take (n + TagBytes))
      let chunks ← decodeRecords C key pre fuel (i + 1) (body.drop (n + TagBytes))
      return p :: chunks

def decodeFile (C : Crypto) (master_key : Bytes) (transfer_id : TransferId) (content : Bytes) :
    Option (List Bytes) :=
  match readHeader "" (some content) with
  | .error _ => none
  | .ok (pre, records) =>
    decodeRecords C (transferKey C master_key transfer_id) pre content.length 0 records

/-- The chunks an id stands for in a directory. -/
def chunksOf (C : Crypto) (master_key : Bytes) (d : Dir) (transfer_id : TransferId) :
    Option (List Bytes) :=
  (d.files transfer_id).bind (decodeFile C master_key transfer_id)

theorem decodeRecords_encodeRecords {C : Crypto} {master_key pre : Bytes} {transfer_id : TransferId}
    (hchunks : ∀ p ∈ chunks, IsChunk p) {fuel i : ℕ}
    (hfuel : (encodeRecords C master_key transfer_id pre i chunks).length ≤ fuel) :
    decodeRecords C (transferKey C master_key transfer_id) pre fuel i
      (encodeRecords C master_key transfer_id pre i chunks) = some chunks := by
  induction chunks generalizing fuel i with
  | nil => cases fuel <;> rfl
  | cons p chunks ih =>
    have hp := hchunks p mem_cons_self
    have hlen := length_recordOf C master_key transfer_id pre i p
    rw [encodeRecords, length_append] at hfuel
    obtain ⟨fuel, rfl⟩ : ∃ n, fuel = n + 1 := ⟨fuel - 1, by omega⟩
    have hread := @readBe32_recordOf C master_key transfer_id pre i p hp
      (encodeRecords C master_key transfer_id pre (i + 1) chunks)
    have hcipher := C.length_encrypt (transferKey C master_key transfer_id) (nonceFor pre i) p
    rw [encodeRecords]
    rcases hbytes : recordOf C master_key transfer_id pre i p ++
        encodeRecords C master_key transfer_id pre (i + 1) chunks with _ | ⟨b, bytes⟩
    · have := congrArg List.length hbytes
      rw [length_append, length_nil] at this
      omega
    rw [hbytes] at hread
    simp only [decodeRecords, hread, Option.bind_eq_bind, Option.bind_some]
    rw [if_neg (by rw [length_append, hcipher]; omega), take_left' hcipher,
      drop_left' hcipher, C.decrypt_encrypt, Option.bind_some,
      ih (fun q hq => hchunks q (mem_cons_of_mem _ hq)) (by omega)]
    rfl

theorem decodeFile_encodeFile {C : Crypto} {master_key : Bytes} {transfer_id : TransferId}
    {pre : Prefix}
    (hchunks : ∀ p ∈ chunks, IsChunk p) :
    decodeFile C master_key transfer_id
    (encodeFile C master_key transfer_id pre chunks []) = some chunks := by
  have hheader : readHeader "" (some (encodeFile C master_key transfer_id pre chunks [])) =
      .ok (pre.val, encodeRecords C master_key transfer_id pre.val 0 chunks) :=
    readHeader_eq_ok.mpr ⟨_, rfl, hasHeader_encodeFile, prefixOf_encodeFile.symm, by
      rw [drop_encodeFile, append_nil]⟩
  unfold decodeFile
  rw [hheader]
  refine decodeRecords_encodeRecords hchunks ?_
  unfold encodeFile
  simp only [length_append]
  omega

/-! ## Runs -/

/-- An operation without a torn write; all instances share the master key. -/
inductive StoreOp
  | create (transfer_id : TransferId) (pre : Prefix)
  | append (transfer_id : TransferId) (offset : UInt64) (plaintext : Bytes)
  | read (transfer_id : TransferId) (offset : UInt64) (maximum_bytes : ℕ)
  | sha256 (transfer_id : TransferId) (total_size : UInt64)
  | remove (transfer_id : TransferId)

def StoreOp.apply (C : Crypto) (master_key : Bytes) (d : Dir) : StoreOp → Dir
  | .create id pre => (Store.create none id pre d).2
  | .append id offset p => (Store.append C master_key none id offset p d).2
  | .read _ _ _ => d
  | .sha256 _ _ => d
  | .remove id => (Store.remove id d).2

def runStore (C : Crypto) (master_key : Bytes) (ops : List StoreOp) : Dir :=
  ops.foldl (StoreOp.apply C master_key) Dir.empty

/-- A map from ids to lists of chunks. -/
abbrev ChunkMap := TransferId → Option (List Bytes)

/-- The next chunk goes behind full chunks only. -/
def Extends (offset : UInt64) (p : Bytes) (chunks : List Bytes) : Prop :=
  ValidChunk offset p ∧ offset.toNat / PlainChunkBytes = chunks.length ∧ ∀ c ∈ chunks, IsFull c

instance (offset : UInt64) (p : Bytes) (chunks : List Bytes) :
    Decidable (Extends offset p chunks) := by
  unfold Extends; infer_instance

/-- What an operation does to the map. -/
def Spec.step (m : ChunkMap) : StoreOp → ChunkMap
  | .create id _ =>
    match pathFor id, m id with
    | .ok (), none => update m id (some [])
    | _, _ => m
  | .append id offset p =>
    match m id with
    | none => m
    | some chunks =>
      if Extends offset p chunks then update m id (some (chunks ++ [p])) else m
  | .read _ _ _ => m
  | .sha256 _ _ => m
  | .remove id =>
    match pathFor id with
    | .ok () => update m id none
    | .error _ => m

def Spec.run (ops : List StoreOp) : ChunkMap := ops.foldl Spec.step fun _ => none

/-! ## The simulation -/

/-- The file of an id holds a list of chunks, or there is none. -/
def FileHolds (C : Crypto) (master_key : Bytes) (d : Dir) (id : TransferId) :
    Option (List Bytes) → Prop
  | none => d.files id = none
  | some chunks => pathFor id = .ok () ∧ d.locks id = true ∧ WellShaped chunks ∧
      ∃ pre, d.files id = some (encodeFile C master_key id pre chunks [])

/-- Every file holds the list of chunks the map gives. -/
def Holds (C : Crypto) (master_key : Bytes) (d : Dir) (m : ChunkMap) : Prop :=
  ∀ id, FileHolds C master_key d id (m id)

section Simulation

variable {C : Crypto} {master_key : Bytes} {d d' : Dir} {m : ChunkMap} {id : TransferId}

theorem Holds.chunksOf (h : Holds C master_key d m) (id : TransferId) :
    chunksOf C master_key d id = m id := by
  have hid := h id
  unfold Store.chunksOf
  rcases hm : m id with _ | chunks <;> rw [hm] at hid
  · rw [show d.files id = none from hid]
    rfl
  · obtain ⟨-, -, hshape, pre, hfile⟩ := hid
    rw [hfile]
    exact decodeFile_encodeFile hshape.isChunk

theorem Holds.update (h : Holds C master_key d m) {new : Option (List Bytes)}
    (hfiles : ∀ id', id' ≠ id → d'.files id' = d.files id')
    (hlocks : ∀ id', d.locks id' = true → d'.locks id' = true)
    (hnew : FileHolds C master_key d' id new) :
    Holds C master_key d' (update m id new) := by
  intro id'
  by_cases heq : id' = id
  · subst heq
    rw [update_self]
    exact hnew
  · rw [update_of_ne heq]
    have hid := h id'
    rcases hm : m id' with _ | chunks <;> rw [hm] at hid
    · exact (hfiles id' heq).trans hid
    · obtain ⟨hpath, hlock, hshape, pre, hfile⟩ := hid
      exact ⟨hpath, hlocks id' hlock, hshape, pre, (hfiles id' heq).trans hfile⟩

theorem Holds.same (h : Holds C master_key d m) (hfiles : d'.files = d.files)
    (hlocks : ∀ id', d.locks id' = true → d'.locks id' = true) : Holds C master_key d' m := by
  intro id
  have hid := h id
  rcases hm : m id with _ | chunks <;> rw [hm] at hid
  · exact (congrFun hfiles id).trans hid
  · obtain ⟨hpath, hlock, hshape, pre, hfile⟩ := hid
    exact ⟨hpath, hlocks id hlock, hshape, pre, (congrFun hfiles id).trans hfile⟩

theorem lock_update {locks : TransferId → Bool} {id id' : TransferId} (h : locks id' = true) :
    update locks id true id' = true := by
  by_cases heq : id' = id
  · subst heq
    exact update_self ..
  · rw [update_of_ne heq]
    exact h

theorem Holds.create (h : Holds C master_key d m) (id : TransferId) (pre : Prefix) :
    Holds C master_key (Store.create none id pre d).2 (Spec.step m (.create id pre)) := by
  have hid := h id
  rcases hpath : pathFor id with e | ⟨⟩
  · simp only [Store.create, Spec.step, hpath]
    exact h
  rcases hm : m id with _ | chunks <;> rw [hm] at hid
  · have hnone : d.files id = none := hid
    simp only [Store.create, Spec.step, hpath, hm, hnone]
    refine h.update (fun id' hne => update_of_ne hne _ _)
      (fun id' hlock => lock_update hlock) ?_
    refine ⟨hpath, update_self .., ⟨nofun, nofun⟩, pre, ?_⟩
    show Function.update d.files id (some (Magic ++ pre.val)) id = _
    rw [update_self]
    unfold encodeFile encodeRecords
    rw [append_nil, append_nil]
  · obtain ⟨-, -, -, pre', hfile⟩ := hid
    simp only [Store.create, Spec.step, hpath, hm, hfile]
    exact h.same rfl fun id' hlock => lock_update hlock

theorem Holds.remove (h : Holds C master_key d m) (id : TransferId) :
    Holds C master_key (Store.remove id d).2 (Spec.step m (.remove id)) := by
  rcases hpath : pathFor id with e | ⟨⟩
  · simp only [Store.remove, Spec.step, hpath]
    exact h
  · simp only [Store.remove, Spec.step, hpath]
    exact h.update (fun id' hne => update_of_ne hne _ _) (fun _ hlock => hlock)
      (update_self ..)

theorem append_rejected {offset : UInt64} {p : Bytes}
    (h : d.files id = none ∨ ¬ ValidChunk offset p) :
    (Store.append C master_key none id offset p d).1.toOption = none ∧
      (Store.append C master_key none id offset p d).2 = d := by
  refine append_of_error none fun a hplan => ?_
  obtain ⟨hvalid, -, -, content, rest, hfile, -⟩ := planAppend_eq_ok.mp hplan
  rcases h with h | h
  · rw [h] at hfile
    cases hfile
  · exact h hvalid

theorem append_holds {offset : UInt64} {p : Bytes} {chunks : List Bytes}
    (hvalid : ValidChunk offset p) (hid : FileHolds C master_key d id (some chunks)) :
    (Store.append C master_key none id offset p d).1.toOption =
        reply offset p
        (decide (chunks[offset.toNat / PlainChunkBytes]? = some p ∨ Extends offset p chunks)) ∧
      ∃ content', (Store.append C master_key none id offset p d).2 =
          { d with files := update d.files id (some content') } ∧
        Represents C master_key id
          (.whole (if Extends offset p chunks then chunks ++ [p] else chunks)) content' := by
  obtain ⟨hpath, hlock, hshape, pre, hfile⟩ := hid
  have hext : Extends offset p chunks ↔ offset.toNat / PlainChunkBytes = chunks.length ∧
    ∀ c ∈ chunks, IsFull c :=
    ⟨fun h => h.2, fun h => ⟨hvalid, h⟩⟩
  obtain ⟨hreply, content', hdir, hrep⟩ :=
    append_represents none hvalid hpath hlock hfile (.whole pre hshape)
  refine ⟨hreply.trans ?_, content', hdir, ?_⟩
  · congr 1
    simp only [Spec.appendFile, hext]
    split_ifs with h1 h2
    · exact (decide_eq_true (Or.inl h1)).symm
    · exact (decide_eq_true (Or.inr h2)).symm
    · refine (decide_eq_false ?_).symm
      rintro (h | h)
      · exact h1 h
      · exact h2 h
  · convert hrep using 1
    simp only [Spec.appendFile, hext]
    by_cases h2 : offset.toNat / PlainChunkBytes = chunks.length ∧ ∀ c ∈ chunks, IsFull c
    · have h1 : chunks[offset.toNat / PlainChunkBytes]? ≠ some p := by
        rw [h2.1, List.getElem?_eq_none (le_refl _)]
        rintro ⟨⟩
      rw [if_pos h2, if_neg h1, if_pos h2]
    · rw [if_neg h2, if_neg h2]
      split_ifs <;> rfl

theorem Holds.append (h : Holds C master_key d m) (id : TransferId) (offset : UInt64) (p : Bytes) :
    Holds C master_key (Store.append C master_key none id offset p d).2
    (Spec.step m (.append id offset p)) := by
  have hid := h id
  rcases hm : m id with _ | chunks <;> rw [hm] at hid <;> simp only [Spec.step, hm]
  · rw [(append_rejected (Or.inl hid)).2]
    exact h
  by_cases hvalid : ValidChunk offset p
  swap
  · rw [(append_rejected (Or.inr hvalid)).2]
    rw [if_neg fun hext : Extends offset p chunks => hvalid hext.1]
    exact h
  obtain ⟨-, content', hdir, hrep⟩ := append_holds hvalid hid
  have hfile : FileHolds C master_key (Store.append C master_key none id offset p d).2 id
      (some (if Extends offset p chunks then chunks ++ [p] else chunks)) := by
    rw [hdir]
    cases hrep with
    | whole pre hshape => exact ⟨hid.1, hid.2.1, hshape, pre, update_self ..⟩
  have hupdate : Holds C master_key (Store.append C master_key none id offset p d).2
      (Function.update m id
        (some (if Extends offset p chunks then chunks ++ [p] else chunks))) := by
    refine h.update (fun id' hne => ?_) (fun id' hlock => ?_) hfile
    · rw [hdir]
      exact update_of_ne hne _ _
    · rw [hdir]
      exact hlock
  split_ifs at hupdate ⊢ with hext
  · exact hupdate
  · rw [← hm, update_eq_self] at hupdate
    exact hupdate

theorem Holds.step (h : Holds C master_key d m) (op : StoreOp) :
    Holds C master_key (op.apply C master_key d) (Spec.step m op) := by
  cases op with
  | create id pre => exact h.create id pre
  | append id offset p => exact h.append id offset p
  | read id offset n | sha256 id total => exact h
  | remove id => exact h.remove id

theorem holds_run (C : Crypto) (master_key : Bytes) (ops : List StoreOp) :
    Holds C master_key (runStore C master_key ops) (Spec.run ops) := by
  induction ops using List.reverseRecOn with
  | nil => exact fun _ => rfl
  | append_singleton ops op ih =>
    unfold runStore Spec.run
    rw [foldl_append, foldl_append]
    exact ih.step op

end Simulation

/-! ## The refinement -/

section Refinement

variable {C : Crypto} {master_key : Bytes} {d : Dir} {id : TransferId} {chunks : List Bytes}

theorem toOption_eq_some {ε α : Type} {x : Except ε α} {a : α} :
    x.toOption = some a ↔ x = .ok a := by
  cases x with
  | error e => exact ⟨nofun, nofun⟩
  | ok b => exact ⟨fun h => by cases h; rfl, fun h => by cases h; rfl⟩

variable {offset : UInt64} {p : Bytes}

theorem validChunk_iff :
    ValidChunk offset p ↔ IsChunk p ∧ ∃ i, offset.toNat = PlainChunkBytes * i := by
  constructor
  · rintro ⟨h1, h2, h3⟩
    exact ⟨⟨h1, h2⟩, offset.toNat / PlainChunkBytes,
      (Nat.mul_div_cancel' (Nat.dvd_of_mod_eq_zero h3)).symm⟩
  · rintro ⟨⟨h1, h2⟩, i, hi⟩
    exact ⟨h1, h2, by rw [hi, Nat.mul_mod_right]⟩

theorem index_of_offset {i : ℕ} (h : offset.toNat = PlainChunkBytes * i) :
    offset.toNat / PlainChunkBytes = i := by
  rw [h, Nat.mul_div_cancel_left i (by decide)]

theorem append_eq_ok (hid : FileHolds C master_key d id (some chunks)) {v : UInt64} :
    (append C master_key none id offset p d).1 = .ok v ↔
      v = offset + UInt64.ofNat p.length ∧ IsChunk p ∧ ∃ i, offset.toNat = PlainChunkBytes * i ∧
        ((i = chunks.length ∧ ∀ c ∈ chunks, IsFull c) ∨ chunks[i]? = some p) := by
  rw [← toOption_eq_some]
  constructor
  · intro h
    by_cases hvalid : ValidChunk offset p
    · obtain ⟨hp, i, hi⟩ := validChunk_iff.mp hvalid
      rw [(append_holds hvalid hid).1] at h
      unfold reply at h
      split_ifs at h with hok
      rw [decide_eq_true_eq, index_of_offset hi] at hok
      refine ⟨(Option.some.inj h).symm, hp, i, hi, ?_⟩
      rcases hok with hok | ⟨-, hlen, hfull⟩
      · exact Or.inr hok
      · exact Or.inl ⟨(index_of_offset hi).symm.trans hlen, hfull⟩
    · rw [(append_rejected (Or.inr hvalid)).1] at h
      cases h
  · rintro ⟨rfl, hp, i, hi, hok⟩
    have hvalid : ValidChunk offset p := validChunk_iff.mpr ⟨hp, i, hi⟩
    rw [(append_holds hvalid hid).1]
    unfold reply
    rw [if_pos]
    rw [decide_eq_true_eq, index_of_offset hi]
    rcases hok with ⟨hlen, hfull⟩ | hok
    · exact Or.inr ⟨hvalid, (index_of_offset hi).trans hlen, hfull⟩
    · exact Or.inl hok

theorem append_replay (hid : FileHolds C master_key d id (some chunks))
    (h : chunks[offset.toNat / PlainChunkBytes]? = some p) :
    (append C master_key none id offset p d).2 = d := by
  obtain ⟨hpath, hlock, hshape, pre, hfile⟩ := hid
  by_cases hvalid : ValidChunk offset p
  · have hplan := (plan_encodeFile hvalid hpath hlock hfile hshape (Or.inl rfl) .replay).mpr
      (Or.inl ⟨h, rfl⟩)
    exact (append_of_replay none hplan).2
  · exact (append_rejected (Or.inr hvalid)).2

end Refinement

/-- **The store refines a map of chunk lists.** After every run without torn writes the directory
decodes to the map the run leaves, in which all chunks of a file but the last are full. A chunk of
1 to 32 KiB is accepted exactly at the index of an equal chunk, which changes nothing, or behind
full chunks, where it is added; `read` returns exactly the chunks that fit the buffer, and `sha256`
of the whole length is the hash of all chunks. -/
theorem store_refines_chunk_lists (C : Crypto) (master_key : Bytes) (ops : List StoreOp) :
    let d := runStore C master_key ops
    (∀ id, chunksOf C master_key d id = Spec.run ops id) ∧
    (∀ id content, d.files id = some content →
      ∃ chunks, decodeFile C master_key id content = some chunks ∧ WellShaped chunks) ∧
    (∀ id chunks, chunksOf C master_key d id = some chunks →
      (∀ offset p v, (append C master_key none id offset p d).1 = .ok v ↔
        v = offset + UInt64.ofNat p.length ∧ IsChunk p ∧ ∃ i, offset.toNat = PlainChunkBytes * i ∧
          ((i = chunks.length ∧ ∀ c ∈ chunks, IsFull c) ∨ chunks[i]? = some p)) ∧
      (∀ offset p, IsChunk p → offset.toNat = PlainChunkBytes * chunks.length →
        (∀ c ∈ chunks, IsFull c) →
        chunksOf C master_key (append C master_key none id offset p d).2 id =
          some (chunks ++ [p])) ∧
      (∀ offset p, chunks[offset.toNat / PlainChunkBytes]? = some p →
        (append C master_key none id offset p d).2 = d) ∧
      (∀ offset i n b, offset.toNat = PlainChunkBytes * i →
        (read C master_key d id offset n = .ok b ↔ chunks[i]? = some b ∧ b.length ≤ n)) ∧
      (∀ total, total.toNat = chunks.flatten.length →
        sha256 C master_key d id total = .ok (C.hashSha256 chunks.flatten))) := by
  intro d
  have hholds : Holds C master_key d (Spec.run ops) := holds_run C master_key ops
  refine ⟨hholds.chunksOf, ?_, ?_⟩
  · intro id content hfile
    have hid := hholds id
    rcases hm : Spec.run ops id with _ | chunks <;> rw [hm] at hid
    · rw [show d.files id = none from hid] at hfile
      cases hfile
    · obtain ⟨-, -, hshape, pre, hfile'⟩ := hid
      obtain rfl := Option.some.inj (hfile.symm.trans hfile')
      exact ⟨chunks, decodeFile_encodeFile hshape.isChunk, hshape⟩
  · intro id chunks hchunks
    rw [hholds.chunksOf] at hchunks
    have hid := hholds id
    rw [hchunks] at hid
    refine ⟨fun offset p v => append_eq_ok hid, ?_, fun offset p h => append_replay hid h, ?_, ?_⟩
    · intro offset p hp hoffset hfull
      have hext : Extends offset p chunks :=
        ⟨validChunk_iff.mpr ⟨hp, _, hoffset⟩, index_of_offset hoffset, hfull⟩
      rw [(hholds.append id offset p).chunksOf]
      simp only [Spec.step, hchunks]
      rw [if_pos hext, update_self]
    · obtain ⟨hpath, hlock, hshape, pre, hfile⟩ := hid
      intro offset i n b hoffset
      exact read_represents hpath hlock hfile hshape.isChunk stuck_nil hoffset
    · obtain ⟨hpath, hlock, hshape, pre, hfile⟩ := hid
      intro total htotal
      exact sha256_represents hpath hlock hfile hshape stuck_nil htotal

/-- Not every chunk is accepted behind full ones: the empty chunk is an invalid argument. -/
theorem empty_chunk_not_appended :
    ¬ ∀ (ops : List StoreOp) (id : TransferId) (chunks : List Bytes) (offset : UInt64) (p : Bytes),
      chunksOf default [] (runStore default [] ops) id = some chunks →
      ((∃ v, (append default [] none id offset p (runStore default [] ops)).1 = .ok v) ↔
        ∃ i, offset.toNat = PlainChunkBytes * i ∧
          ((i = chunks.length ∧ ∀ c ∈ chunks, IsFull c) ∨ chunks[i]? = some p)) := by
  intro h
  have hempty := (h [.create (List.replicate 36 48) ⟨List.replicate 16 0, rfl⟩]
    (List.replicate 36 48) [] 0 [] (by decide)).mpr ⟨0, rfl, Or.inl ⟨rfl, nofun⟩⟩
  obtain ⟨v, hv⟩ := hempty
  cases hv

end DistributedChat.Store
