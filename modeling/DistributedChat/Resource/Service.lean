import DistributedChat.Lib.Json
import DistributedChat.Lib.Prog
import DistributedChat.Store.EncryptedFile

/-!
# The resource service

The programs of `resource::Service` (`resource/ResourceService.cpp`) that create, fill, publish,
send, cancel and clean up file transfers, from the routed request to the reply. The effects are the
SQL statements, the calls of the encrypted store, the connection pool and the resource lock, each of
which may throw. `withLock`, `withLease` and `transaction` are the scopes of the C++ objects
`ResourceLock`, `Database::Lease` and `Transaction`, nested in the order of their declarations.
-/

namespace DistributedChat.Resource

open Lib

abbrev Id := Store.TransferId
abbrev Uid := ℤ

/-! ## Rows and replies -/

/-- The values of `file_transfer.status`. -/
inductive Status
  | uploading
  | available
  | downloaded
  | cancelled
  deriving DecidableEq, Repr

/-- A row of `file_transfer`. -/
structure Row where
  sender_uid : Uid
  receiver_uid : Uid
  original_name : Bytes
  mime_type : Bytes
  total_size : ℕ
  uploaded_size : ℕ
  sha256 : Bytes
  idempotency_key : Bytes
  status : Status
  expires_at : ℕ
  deriving DecidableEq, Repr

/-- The JSON object `Service::file` builds from a row; its member `error` is always `0`. -/
structure FileInfo where
  id : Id
  fromuid : Uid
  touid : Uid
  name : Bytes
  mime : Bytes
  sha256 : Bytes
  status : Status
  total_size : ℕ
  offset : ℕ
  expired : Bool
  deriving DecidableEq, Repr

def FileInfo.ofRow (id : Id) (row : Row) (expired : Bool) : FileInfo where
  id := id
  fromuid := row.sender_uid
  touid := row.receiver_uid
  name := row.original_name
  mime := row.mime_type
  sha256 := row.sha256
  status := row.status
  total_size := row.total_size
  offset := row.uploaded_size
  expired := expired

/-- A thumbnail in the member `variants` of `resource_avatar`: its side, the id of its file and the
size. -/
structure Variant where
  size : ℕ
  id : Id
  bytes : ℕ
  deriving DecidableEq, Repr

/-- A row of `resource_avatar`; `none` is the expiry `NULL`. -/
structure Avatar where
  owner_uid : Uid
  variants : List Variant
  expires_at : Option ℕ
  deriving DecidableEq, Repr

/-- The avatar columns of `user`. -/
structure Profile where
  avatar_id : Option Id
  avatar_version : ℕ
  deriving DecidableEq, Repr

/-- The JSON object `avatar` answers with and notifies; its member `error` is always `0`. -/
structure AvatarChanged where
  uid : Uid
  avatar_id : Id
  version : ℕ
  deriving DecidableEq, Repr

/-- `resource_outbox.event_key`: `file:` or `avatar:` and an id. -/
inductive EventKey
  | file (id : Id)
  | avatar (id : Id)
  deriving DecidableEq, Repr

/-- `kind` and `payload` of an event. -/
inductive Payload
  | file (v : FileInfo)
  | avatar (v : AvatarChanged)
  deriving DecidableEq, Repr

/-- A row of `resource_outbox`. -/
structure Event where
  payload : Payload
  attempts : ℕ
  next_attempt_at : ℕ
  delivered_at : Option ℕ
  deriving DecidableEq, Repr

/-- The values `create` inserts. -/
structure NewFile where
  sender_uid : Uid
  receiver_uid : Uid
  original_name : Bytes
  mime_type : Bytes
  total_size : ℕ
  sha256 : Bytes
  idempotency_key : Bytes
  deriving DecidableEq, Repr

/-- A `Response` of the file routes: a file as JSON, no content, or bytes of a file to stream with
the range, the total size and the hash its headers name. -/
inductive Reply
  | json (status : ℕ) (file : FileInfo)
  | noContent
  | stream (status : ℕ) (stream_id : Id) (first length total : ℕ) (etag : Bytes)
  /-- What the streaming loop reads. -/
  | bytes (chunk : Bytes)
  /-- A pass of `maintenance` has no reply. -/
  | done
  deriving DecidableEq, Repr

/-- The exceptions of a request: `resource::Error` with the confirmed offset it may carry, or any
other one, which is answered with `503`. -/
inductive Failure
  | error (status : ℕ) (message : String) (offset : Option ℕ)
  | dependency
  deriving DecidableEq, Repr

/-! ## Effects -/

inductive Call
  | lock (id : Id)
  | unlock (id : Id)
  | getConnection
  | returnConnection
  | begin
  | commit
  | rollback
  | selectFile (id : Id)
  | lockUser (uid : Uid)
  | selectPrior (uid : Uid) (key : Bytes)
  | selectFriend (uid touid : Uid)
  | selectQuota (uid : Uid)
  | insertFile (id : Id) (file : NewFile)
  | updateOffset (id : Id) (next confirmed : ℕ)
  | publish (id : Id)
  | insertOutbox (id : Id) (file : FileInfo)
  | cancel (id : Id)
  | downloaded (id : Id)
  | selectExpired
  | selectExpiredRow (id : Id)
  | deleteOutbox (id : Id)
  | deleteFile (id : Id)
  | uuid
  | storeCreate (id : Id)
  | storeAppend (id : Id) (offset : ℕ) (plaintext : Bytes)
  | storeRead (id : Id) (offset maximum_bytes : ℕ)
  | storeSha256 (id : Id) (total_size : ℕ)
  | storeRemove (id : Id)

abbrev Call.Value : Call → Type
  | .selectFile _ => Option (Row × Bool)
  | .lockUser _ => Bool
  | .selectPrior _ _ => Option Id
  | .selectFriend _ _ => Bool
  | .selectQuota _ => ℕ × ℕ
  | .updateOffset _ _ _ => ℕ
  | .publish _ => ℕ
  | .selectExpired => List Id
  | .selectExpiredRow _ => Bool
  | .uuid => Id
  | .storeAppend _ _ _ => ℕ
  | .storeRead _ _ _ => Bytes
  | .storeSha256 _ _ => Bytes
  | _ => Unit

abbrev Call.Answer (e : Call) : Type := Option e.Value

abbrev Svc := Task Call Call.Answer Failure

/-- Perform a call; `failure` is what it throws. -/
def callOr (failure : Failure) (e : Call) : Svc e.Value :=
  Task.perform e fun
    | none => .error failure
    | some a => .ok a

def call (e : Call) : Svc e.Value := callOr .dependency e

def require (c : Prop) [Decidable c] (status : ℕ) (message : String) : Svc Unit :=
  Task.require c (.error status message none)

def validId (id : Id) : Bool :=
  id.length == 36 && id.zipIdx.all fun (c, i) =>
    if i = 8 ∨ i = 13 ∨ i = 18 ∨ i = 23 then c == 45
    else (48 ≤ c && c ≤ 57) || (97 ≤ c && c ≤ 102)

section Scopes

variable {α : Type}

/-- The scope of a `ResourceLock`. Its exceptions are no `resource::Error`. -/
def withLock (id : Id) (body : Svc α) : Svc α := do
  Task.require (validId id = true) .dependency
  call (.lock id)
  Task.ensuring body (call (.unlock id))

/-- The scope of a `Lease`. -/
def withLease (body : Svc α) : Svc α := do
  callOr (.error 503 "database unavailable" none) .getConnection
  Task.ensuring body (call .returnConnection)

/-- The scope of a `Transaction`. Its destructor rolls back what was not committed; after a commit
there is nothing to roll back. -/
def transaction (body : Svc α) : Svc α := do
  call .begin
  Task.ensuring body (call .rollback)

end Scopes

/-! ## Creating -/

def MaxFileBytes : ℕ := 100 * 1024 * 1024

def file (id : Id) : Svc FileInfo := do
  require (validId id = true) 400 "invalid resource id"
  match ← call (.selectFile id) with
  | none => Task.throw (.error 404 "resource not found" none)
  | some (row, expired) => return .ofRow id row expired

/-- The file names `create` accepts: no `/`, backslash, line break or zero, not `.` or `..`. -/
def validName (name : Bytes) : Bool :=
  !name.isEmpty && name.length ≤ 255 &&
    name.all (fun c => c != 47 && c != 92 && c != 13 && c != 10 && c != 0) &&
    name != [46] && name != [46, 46]

/-- The hashes `create` accepts: 64 lower case hexadecimal digits. -/
def validHash (hash : Bytes) : Bool :=
  hash.length == 64 && hash.all fun c => (48 ≤ c && c ≤ 57) || (97 ≤ c && c ≤ 102)

/-- The transaction of `create`; `touid` is the member of the request, which is compared with its
JSON type. -/
def createRow (touid : Json) (new : NewFile) : Svc FileInfo := do
  let known ← call (.lockUser new.sender_uid)
  require (known = true) 403 "unknown user"
  match ← call (.selectPrior new.sender_uid new.idempotency_key) with
  | some old => do
    let f ← file old
    require (touid.eqInt f.touid = true ∧ f.name = new.original_name ∧ f.sha256 = new.sha256 ∧
      f.total_size = new.total_size ∧ f.mime = new.mime_type) 409 "idempotency conflict"
    require (f.expired = false ∧ f.status ≠ .cancelled) 410 "upload expired"
    call .commit
    return f
  | none => do
    let friendship ← call (.selectFriend new.sender_uid new.receiver_uid)
    require (friendship = true) 403 "recipient must be a friend"
    let usage ← call (.selectQuota new.sender_uid)
    require (usage.1 < 16 ∧ usage.2 + new.total_size ≤ 1024 * 1024 * 1024)
      429 "attachment quota exceeded"
    let id ← call .uuid
    withLock id do
      call (.storeCreate id)
      call (.insertFile id new)
      call .commit
      file id

/-- `create`; `v` is the parsed body, an object. -/
def create (uid : Uid) (v : Json) : Svc FileInfo :=
  match (v.get "touid").int?, (v.get "total_size").uint64?, (v.get "name").str?,
    (v.get "sha256").str?, (v.get "idempotency_key").str? with
  | some touid, some size, some name, some hash, some key =>
    match ((v.find "mime").getD (.str (ascii "application/octet-stream"))).asString with
    | none => Task.throw .dependency
    | some mime => do
      require (validName name = true) 400 "invalid filename"
      require (validHash hash = true ∧ key ≠ [] ∧ key.length ≤ 128 ∧ mime.length ≤ 128)
        400 "invalid upload metadata"
      require (size ≤ MaxFileBytes) 413 "file exceeds 100 MiB"
      withLease (transaction
        (createRow (v.get "touid") ⟨uid, touid, name, mime, size, hash, key⟩))
  | _, _, _, _, _ => Task.throw (.error 400 "missing upload metadata" none)

/-! ## Filling and publishing -/

/-- The positions of the loop of `chunk` and the part of the body at each. -/
def parts (bytes : Bytes) : List (ℕ × Bytes) :=
  (List.range ((bytes.length + Store.PlainChunkBytes - 1) / Store.PlainChunkBytes)).map fun k =>
    (k * Store.PlainChunkBytes, (bytes.drop (k * Store.PlainChunkBytes)).take Store.PlainChunkBytes)

/-- The loop of `chunk`. The sums are those of the source: `chunk` has checked that the body ends
within the file, so none of them overflows. -/
def chunkLoop (id : Id) (offset : ℕ) : List (ℕ × Bytes) → ℕ → Svc ℕ
  | [], confirmed => return confirmed
  | (pos, part) :: rest, confirmed =>
    if offset + pos < confirmed then do
      let previous ← call (.storeRead id (offset + pos) part.length)
      require (previous = part) 409 "immutable chunk conflict"
      chunkLoop id offset rest confirmed
    else do
      let next ← Task.catching (call (.storeAppend id (offset + pos) part)) fun _ =>
        .error 409 "conflicting or damaged ciphertext; start a new upload" none
      let n ← call (.updateOffset id next confirmed)
      require (n = 1) 503 "offset commit uncertain; query upload state"
      chunkLoop id offset rest next

def chunk (uid : Uid) (id : Id) (offset : UInt64) (bytes : Bytes) : Svc FileInfo := do
  require (bytes ≠ [] ∧ bytes.length ≤ 256 * 1024 ∧ offset.toNat % Store.PlainChunkBytes = 0)
    400 "invalid chunk"
  withLock id (withLease do
    let f ← file id
    require (f.fromuid = uid) 403 "upload owner required"
    require (f.expired = false ∧ f.status = .uploading) 410 "upload unavailable"
    require (offset.toNat ≤ f.total_size ∧ bytes.length ≤ f.total_size - offset.toNat ∧
      (bytes.length % Store.PlainChunkBytes = 0 ∨ offset.toNat + bytes.length = f.total_size))
      400 "invalid chunk length"
    Task.require (¬ f.offset < offset.toNat) (.error 409 "offset conflict" (some f.offset))
    let confirmed ← chunkLoop id offset.toNat (parts bytes) f.offset
    return { f with offset := confirmed })

def complete (uid : Uid) (id : Id) : Svc FileInfo :=
  withLock id (withLease do
    let f ← file id
    require (f.fromuid = uid) 403 "upload owner required"
    require (f.expired = false ∧ f.status ≠ .cancelled) 410 "resource expired"
    if f.status = .available ∨ f.status = .downloaded then
      return f
    else do
      require (f.offset = f.total_size) 409 "upload incomplete"
      let hash ← call (.storeSha256 id f.total_size)
      require (hash = f.sha256) 422 "checksum mismatch"
      transaction do
        let n ← call (.publish id)
        require (n = 1) 409 "state conflict"
        call (.insertOutbox id { f with status := .available })
        call .commit
        return { f with status := .available })

/-! ## The routes of a file -/

/-- The methods `handle` tells apart. -/
inductive Method
  | get
  | post
  | put
  | delete
  | other
  deriving DecidableEq, Repr

inductive Group
  | uploads
  | files
  deriving DecidableEq, Repr

/-- The decimals of 64 bits, as `std::from_chars` reads them from the whole text. -/
def decimal? (s : Bytes) : Option ℕ :=
  if s ≠ [] ∧ s.all (fun c => 48 ≤ c && c ≤ 57) then
    (some (s.foldl (fun n c => 10 * n + (c.toNat - 48)) 0)).filter (· < 2 ^ 64)
  else none

def number (s : Bytes) : Svc ℕ :=
  match decimal? s with
  | none => Task.throw (.error 400 "invalid number" none)
  | some n => return n

/-- The first and last byte a range names, for a file of `total` bytes. -/
def rangeBounds (first last : Bytes) (total : ℕ) : Svc (ℕ × ℕ) :=
  if first = [] then do
    let suffix ← number last
    require (0 < suffix) 416 "invalid suffix"
    return (total - min total suffix, total - 1)
  else do
    let start ← number first
    if last = [] then
      return (start, total - 1)
    else do
      let finish ← number last
      return (start, min (total - 1) finish)

/-- The reply to `content`, with what the header `Range` selects. -/
def content (id : Id) (f : FileInfo) (range : Bytes) : Svc Reply :=
  if range = [] then
    return .stream 200 id 0 f.total_size f.total_size f.sha256
  else do
    require (range.take 6 = ascii "bytes=" ∧ 44 ∉ range) 416 "single byte range required"
    require (45 ∈ range.drop 6 ∧ 0 < f.total_size) 416 "invalid range"
    let first := (range.drop 6).takeWhile (· != 45)
    let last := ((range.drop 6).dropWhile (· != 45)).drop 1
    let bounds ← rangeBounds first last f.total_size
    require (bounds.1 < f.total_size ∧ bounds.1 ≤ bounds.2) 416 "range outside file"
    return .stream 206 id bounds.1 (bounds.2 - bounds.1 + 1) f.total_size f.sha256

theorem silent_number (s : Bytes) : Task.Silent (number s) := by
  unfold number
  split <;> exact ⟨_, rfl⟩

theorem silent_rangeBounds (first last : Bytes) (total : ℕ) :
    Task.Silent (rangeBounds first last total) := by
  unfold rangeBounds
  split
  · refine (silent_number last).andThen fun suffix => ?_
    exact (Task.silent_require _ _).andThen fun _ => ⟨_, rfl⟩
  · refine (silent_number first).andThen fun start => ?_
    split
    · exact ⟨_, rfl⟩
    · exact (silent_number last).andThen fun _ => ⟨_, rfl⟩

theorem silent_content (id : Id) (f : FileInfo) (range : Bytes) :
    Task.Silent (content id f range) := by
  unfold content
  split
  · exact ⟨_, rfl⟩
  · refine (Task.silent_require _ _).andThen fun _ => ?_
    refine (Task.silent_require _ _).andThen fun _ => ?_
    refine (silent_rangeBounds _ _ _).andThen fun bounds => ?_
    exact (Task.silent_require _ _).andThen fun _ => ⟨_, rfl⟩

/-- `handle` for the routes of a file other than `chunk` and `complete`. -/
def handleFile (uid : Uid) (group : Group) (method : Method) (id : Id) (action range : Bytes) :
    Svc Reply :=
  withLock id (withLease do
    let f ← file id
    require (f.fromuid = uid ∨ f.touid = uid) 403 "resource access denied"
    require (group = .uploads → f.fromuid = uid) 403 "upload owner required"
    require (f.expired = false ∧ f.status ≠ .cancelled) 410 "resource expired"
    if method = .get ∧ action = [] then
      return .json 200 f
    else if method = .delete ∧ action = [] then do
      require (group = .uploads → f.status = .uploading) 409 "upload already published"
      call (.cancel id)
      return .noContent
    else do
      require (group = .files ∧ f.touid = uid) 403 "receiver required"
      require (f.status = .available ∨ f.status = .downloaded) 409 "file not available"
      if method = .post ∧ action = ascii "downloaded" then do
        call (.downloaded id)
        return .json 200 f
      else do
        require (method = .get ∧ action = ascii "content") 404 "route not found"
        content id f range)

/-- `read`, which the streaming loop calls for each part. -/
def read (id : Id) (offset : UInt64) : Svc Bytes :=
  withLock id (withLease do
    let f ← file id
    require (f.expired = false ∧ (f.status = .available ∨ f.status = .downloaded))
      410 "file unavailable"
    call (.storeRead id offset.toNat Store.PlainChunkBytes))

/-! ## Maintenance -/

/-- The loop of `maintenance` over expired and cancelled files. -/
def cleanupLoop : List Id → Svc Unit
  | [] => return ()
  | id :: ids => do
    withLock id (transaction do
      let found ← call (.selectExpiredRow id)
      if found then do
        call (.storeRemove id)
        call (.deleteOutbox id)
        call (.deleteFile id)
        call .commit
      else
        call .commit)
    cleanupLoop ids

/-- The cleanup of files by `maintenance`. -/
def maintenance : Svc Unit :=
  withLease do
    let ids ← call .selectExpired
    cleanupLoop ids

/-! ## What a worker runs -/

/-- A routed request of an authenticated user, a step of the streaming loop, or a maintenance
pass. -/
inductive Request
  | create (uid : Uid) (v : Json)
  | chunk (uid : Uid) (id : Id) (offset : UInt64) (bytes : Bytes)
  | complete (uid : Uid) (id : Id)
  | file (uid : Uid) (group : Group) (method : Method) (id : Id) (action range : Bytes)
  | read (id : Id) (offset : UInt64)
  | maintenance

def handle : Request → Svc Reply
  | .create uid v => do
    let f ← create uid v
    return .json 201 f
  | .chunk uid id offset bytes => do
    let f ← chunk uid id offset bytes
    return .json 200 f
  | .complete uid id => do
    let f ← complete uid id
    return .json 200 f
  | .file uid group method id action range => handleFile uid group method id action range
  | .read id offset => do
    let chunk ← read id offset
    return .bytes chunk
  | .maintenance => do
    maintenance
    return .done

end DistributedChat.Resource
