import DistributedChat.Lib.Bytes

/-!
# The encrypted file store

`EncryptedFileStore` (`chat/files/EncryptedFileStore.cpp`) keeps one file for each transfer id. A
file is a header, the nine bytes of `Magic` and a random prefix of sixteen, followed by records: the
length of a plaintext chunk in four bytes and the ciphertext of the chunk with its tag. The nonce of
the record with index `i` is the prefix of the file followed by `i`.

The operations work on a directory. Those on one id hold its file lock, so each is one step. A
`fault` lets only the first bytes of a write reach the file, and the call then throws: the process
stopped, the disk was full or the flush failed.
-/

namespace DistributedChat.Store

open Lib Function

/-! ## Constants and cryptography -/

def PlainChunkBytes : ℕ := 32 * 1024

/-- `"CHATFILE1"`. -/
def Magic : Bytes := [67, 72, 65, 84, 70, 73, 76, 69, 49]

/-- `crypto_aead_xchacha20poly1305_ietf_ABYTES`. -/
def TagBytes : ℕ := 16

/-- The functions of libsodium the store calls. Encryption appends a tag and decryption under the
same key and nonce inverts it. The streaming hash is the hash of the bytes fed to it. -/
structure Crypto where
  /-- `crypto_generichash` of a message under a key. -/
  generichash : Bytes → Bytes → Bytes
  /-- `crypto_aead_xchacha20poly1305_ietf_encrypt` of key, nonce and plaintext. -/
  encrypt : Bytes → Bytes → Bytes → Bytes
  /-- `crypto_aead_xchacha20poly1305_ietf_decrypt` of key, nonce and ciphertext. -/
  decrypt : Bytes → Bytes → Bytes → Option Bytes
  /-- `crypto_hash_sha256`. -/
  hashSha256 : Bytes → Bytes
  length_encrypt : ∀ key nonce p, (encrypt key nonce p).length = p.length + TagBytes
  decrypt_encrypt : ∀ key nonce p, decrypt key nonce (encrypt key nonce p) = some p

/-- The assumptions can be met: a tag of zeros that decryption drops. -/
instance : Inhabited Crypto where
  default :=
    { generichash := fun message key => message ++ key
      encrypt := fun _ _ p => p ++ List.replicate TagBytes 0
      decrypt := fun _ _ c => some (c.take (c.length - TagBytes))
      hashSha256 := id
      length_encrypt := fun _ _ p => by simp
      decrypt_encrypt := fun _ _ p => by simp }

theorem Crypto.encrypt_injective (C : Crypto) (key nonce : Bytes) :
    Injective (C.encrypt key nonce) := by
  intro p q h
  have hdec := C.decrypt_encrypt key nonce p
  rw [h, C.decrypt_encrypt] at hdec
  exact (Option.some.inj hdec).symm

/-! ## Files -/

inductive StoreError
  | invalidArgument (what : String)
  | runtimeError (what : String)
  deriving DecidableEq, Repr

abbrev TransferId := Bytes

/-- The directory: for each id the content of its file, and whether its lock file is there. -/
structure Dir where
  files : TransferId → Option Bytes
  locks : TransferId → Bool

def Dir.empty : Dir := ⟨fun _ => none, fun _ => false⟩

/-- `pathFor`: an id is 36 characters, hexadecimal digits or `-`. -/
def pathFor (transfer_id : TransferId) : Except StoreError Unit :=
  if transfer_id.length ≠ 36 ∨
      transfer_id.any (fun c => !((48 ≤ c && c ≤ 57) || (97 ≤ c && c ≤ 102) || c == 45)) then
    .error (.invalidArgument "invalid transfer id")
  else .ok ()

def transferKey (C : Crypto) (master_key transfer_id : Bytes) : Bytes :=
  C.generichash transfer_id master_key

def nonceFor (pre : Bytes) (chunk_index : ℕ) : Bytes := pre ++ le64 chunk_index

/-- A random prefix: `std::array<unsigned char, 16>`. -/
abbrev Prefix := {pre : Bytes // pre.length = 16}

/-- Magic and prefix from the front of a file, and the bytes after them. -/
def readHeader (what : String) (content : Option Bytes) : Except StoreError (Bytes × Bytes) :=
  match content with
  | none => .error (.runtimeError what)
  | some bytes =>
    if bytes.length < Magic.length + 16 ∨ bytes.take Magic.length ≠ Magic then
      .error (.runtimeError what)
    else .ok ((bytes.drop Magic.length).take 16, bytes.drop (Magic.length + 16))

def readLength (input : Bytes) : Except StoreError (ℕ × Bytes) :=
  match readBe32 input with
  | none => .error (.runtimeError "encrypted attachment record is truncated")
  | some r => .ok r

def writeLength (value : ℕ) : Bytes := be32 value

/-! ## Operations -/

/-- `create`; `pre` are the bytes `randombytes_buf` gives. -/
def create (fault : Option ℕ) (transfer_id : TransferId) (pre : Prefix) (d : Dir) :
    Except StoreError Unit × Dir :=
  match pathFor transfer_id with
  | .error e => (.error e, d)
  | .ok () =>
    let d := { d with locks := update d.locks transfer_id true }
    match d.files transfer_id with
    | some _ => (.error (.runtimeError "attachment already exists"), d)
    | none =>
      let written (bytes : Bytes) : Dir :=
        { d with files := update d.files transfer_id (some bytes) }
      match fault with
      | none => (.ok (), written (Magic ++ pre.val))
      | some n =>
        (.error (.runtimeError "attachment write failed"), written ((Magic ++ pre.val).take n))

/-- The loop of `append` over the confirmed records: each must be full and lie in the file. Returns
what is left of the file after them. -/
def skipConfirmed (file_size : ℕ) : ℕ → Bytes → Except StoreError Bytes
  | 0, header => .ok header
  | count + 1, header => do
    let (confirmed_size, header) ← readLength header
    let tellg := file_size - header.length
    if confirmed_size ≠ PlainChunkBytes ∨ file_size < tellg + confirmed_size + TagBytes then
      throw (.runtimeError "invalid confirmed attachment record")
    else
      skipConfirmed file_size count (header.drop (confirmed_size + TagBytes))

/-- What `append` does with the file once its checks are done. -/
inductive Action
  /-- The record is there already. -/
  | replay
  /-- The record to write at the end of the file. -/
  | write (content record : Bytes)
  deriving DecidableEq, Repr

/-- `append` up to the point where it touches the file. -/
def planAppend (C : Crypto) (master_key : Bytes) (d : Dir) (transfer_id : TransferId)
    (offset : UInt64) (plaintext : Bytes) : Except StoreError Action := do
  if plaintext.length = 0 ∨ PlainChunkBytes < plaintext.length ∨
    offset.toNat % PlainChunkBytes ≠ 0 then
    throw (.invalidArgument "invalid chunk")
  else
    pathFor transfer_id
    if d.locks transfer_id = false then
      throw (.runtimeError "cannot lock attachment")
    else
      let (pre, header) ← readHeader "invalid encrypted attachment header" (d.files transfer_id)
      let chunk_index := offset.toNat / PlainChunkBytes
      let content := (d.files transfer_id).getD []
      let file_size := content.length
      let header ← skipConfirmed file_size chunk_index header
      let confirmed_end := file_size - header.length
      let ciphertext :=
        C.encrypt (transferKey C master_key transfer_id) (nonceFor pre chunk_index) plaintext
      if confirmed_end < file_size then
        let (existing_size, header) ← readLength header
        if existing_size ≠ plaintext.length ∨ file_size - confirmed_end < 4 + ciphertext.length then
          throw (.runtimeError "conflicting or incomplete attachment chunk; start a new upload")
        else if header.take ciphertext.length ≠ ciphertext then
          throw (.runtimeError "attachment chunk conflict; start a new upload")
        else
          return .replay
      else
        return .write content (writeLength plaintext.length ++ ciphertext)

def append (C : Crypto) (master_key : Bytes) (fault : Option ℕ) (transfer_id : TransferId)
    (offset : UInt64) (plaintext : Bytes) (d : Dir) : Except StoreError UInt64 × Dir :=
  match planAppend C master_key d transfer_id offset plaintext with
  | .error e => (.error e, d)
  | .ok .replay =>
    match fault with
    | none => (.ok (offset + UInt64.ofNat plaintext.length), d)
    | some _ => (.error (.runtimeError "attachment durable flush failed"), d)
  | .ok (.write content record) =>
    let written (bytes : Bytes) : Dir :=
      { d with files := update d.files transfer_id (some (content ++ bytes)) }
    match fault with
    | none => (.ok (offset + UInt64.ofNat plaintext.length), written record)
    | some n => (.error (.runtimeError "attachment write failed"), written (record.take n))

/-- The loop of `read`, with `target - index` records still to skip. -/
def readRecord (C : Crypto) (key pre : Bytes) (maximum_bytes target : ℕ) :
    ℕ → Bytes → Except StoreError Bytes
  | skip, input => do
    let (plain_size, input) ← readLength input
    if plain_size = 0 ∨ PlainChunkBytes < plain_size then
      throw (.runtimeError "invalid record size")
    else if input.length < plain_size + TagBytes then
      throw (.runtimeError "truncated encrypted attachment")
    else
      let ciphertext := input.take (plain_size + TagBytes)
      match skip with
      | skip + 1 =>
        readRecord C key pre maximum_bytes target skip (input.drop (plain_size + TagBytes))
      | 0 =>
        match C.decrypt key (nonceFor pre target) ciphertext with
        | none => throw (.runtimeError "attachment authentication failed")
        | some plaintext =>
          if maximum_bytes < plaintext.length then
            throw (.runtimeError "download buffer is too small")
          else
            return plaintext

def read (C : Crypto) (master_key : Bytes) (d : Dir) (transfer_id : TransferId) (offset : UInt64)
    (maximum_bytes : ℕ) : Except StoreError Bytes := do
  if offset.toNat % PlainChunkBytes ≠ 0 ∨ maximum_bytes = 0 then
    throw (.invalidArgument "invalid download offset")
  else
    pathFor transfer_id
    if d.locks transfer_id = false then
      throw (.runtimeError "cannot lock attachment")
    else
      let (pre, input) ← readHeader "invalid attachment" (d.files transfer_id)
      let target := offset.toNat / PlainChunkBytes
      readRecord C (transferKey C master_key transfer_id) pre maximum_bytes target target input

/-- The loop of `sha256`: `state` holds the bytes hashed so far. -/
def sha256From (C : Crypto) (master_key : Bytes) (d : Dir) (transfer_id : TransferId)
    (total_size offset : ℕ) (state : Bytes) : Except StoreError Bytes :=
  if offset < total_size then do
    let chunk ← read C master_key d transfer_id (UInt64.ofNat offset) PlainChunkBytes
    sha256From C master_key d transfer_id total_size (offset + PlainChunkBytes) (state ++ chunk)
  else
    .ok (C.hashSha256 state)
termination_by total_size - offset
decreasing_by
  unfold PlainChunkBytes
  omega

def sha256 (C : Crypto) (master_key : Bytes) (d : Dir) (transfer_id : TransferId)
    (total_size : UInt64) : Except StoreError Bytes :=
  sha256From C master_key d transfer_id total_size.toNat 0 []

/-- `remove`: the lock file stays. -/
def remove (transfer_id : TransferId) (d : Dir) : Except StoreError Unit × Dir :=
  match pathFor transfer_id with
  | .error e => (.error e, d)
  | .ok () => (.ok (), { d with files := update d.files transfer_id none })

end DistributedChat.Store
