import DistributedChat.Resource.Service

/-!
# Avatars and maintenance

The programs of `resource::Service` that go beyond one file transfer: `avatar` (`resource/Avatar.cpp`),
which stores three thumbnails of an image and makes them the avatar of a user, and `maintenance`
(`resource/ResourceService.cpp`), which delivers one event of the outbox and removes expired avatars
and files.

Their effects are those of the file transfers and the statements on `user`, `resource_avatar` and
`resource_outbox`, the calls of the chat servers, and the writes of a streamed file to its connection.
-/

namespace DistributedChat.Resource

open Lib

/-! ## Replies -/

/-- The replies of `avatar`. -/
inductive AvatarReply
  | changed (v : AvatarChanged)
  | notModified (etag : Bytes)
  | image (etag body : Bytes)
  deriving DecidableEq, Repr

/-- The replies of `handle`. -/
inductive Response
  | alive
  | ready (ok : Bool)
  | profile (v : Profile)
  | avatar (r : AvatarReply)
  | file (r : Reply)
  deriving DecidableEq, Repr

/-! ## Effects -/

inductive Op
  | call (e : Call)
  /-- `INSERT INTO resource_avatar`, to expire after a day. -/
  | insertAvatar (id : Id) (owner_uid : Uid)
  | setVariants (id : Id) (variants : List Variant)
  /-- `SELECT avatar_id,avatar_version FROM user … FOR UPDATE`. -/
  | lockProfile (uid : Uid)
  | selectProfile (uid : ℕ)
  /-- `UPDATE user SET avatar_id=?,avatar_version=avatar_version+1`. -/
  | setProfile (uid : Uid) (id : Id)
  /-- The expiry of an avatar becomes `NULL`, or a day from now. -/
  | keepAvatar (id : Id)
  | retireAvatar (id : Id)
  | notifyAvatar (v : AvatarChanged)
  | selectAvatar (id : Id)
  /-- `SELECT id,kind,payload FROM resource_outbox … FOR UPDATE SKIP LOCKED`. -/
  | claimEvent
  /-- `NotifyFileAvailable` or `NotifyAvatarChanged` of a chat server. -/
  | notifyPeer (peer : Bytes) (payload : Payload)
  | markDelivered (key : EventKey)
  | postpone (key : EventKey)
  | selectExpiredAvatars
  /-- `SELECT variants FROM resource_avatar … FOR UPDATE`, for an expired avatar nobody has. -/
  | selectExpiredAvatar (id : Id)
  | deleteAvatar (id : Id)
  /-- `ready`. -/
  | ready
  /-- The connection writes a reply, and bytes of the file it streams. -/
  | respond (r : Response)
  | write (id : Id) (bytes : Bytes)

/-- What a statement or call returns. A chat server accepts a notification or does not. -/
abbrev Op.Value : Op → Type
  | .call e => e.Value
  | .lockProfile _ => Option Profile
  | .selectProfile _ => Option Profile
  | .selectAvatar _ => Option (List Variant)
  | .claimEvent => Option (EventKey × Payload)
  | .notifyPeer _ _ => Bool
  | .selectExpiredAvatars => List Id
  | .selectExpiredAvatar _ => Option (List Variant)
  | .ready => Bool
  | _ => Unit

abbrev Op.Answer (e : Op) : Type := Option e.Value

abbrev Web := Task Op Op.Answer Failure

/-- Perform an effect; it throws what is answered with `503`. -/
def op (e : Op) : Web e.Value :=
  Task.perform e fun
    | none => .error .dependency
    | some a => .ok a

/-- A program on file transfers. -/
def lift {α : Type} (p : Svc α) : Web α := Prog.embed Op.call p

def check (c : Prop) [Decidable c] (status : ℕ) (message : String) : Web Unit :=
  Task.require c (.error status message none)

/-- A value, or the exception of a function without effects. -/
def ofExcept {α : Type} (r : Except Failure α) : Web α := Prog.ret r

section Scopes

variable {α : Type}

/-- The scopes of `ResourceLock`, `Lease` and `Transaction`. -/
def inLock (id : Id) (body : Web α) : Web α := do
  Task.require (validId id = true) .dependency
  op (.call (.lock id))
  Task.ensuring body (op (.call (.unlock id)))

def inLease (body : Web α) : Web α := do
  lift (callOr (.error 503 "database unavailable" none) .getConnection)
  Task.ensuring body (op (.call .returnConnection))

def inTransaction (body : Web α) : Web α := do
  op (.call .begin)
  Task.ensuring body (op (.call .rollback))

end Scopes

/-! ## Images -/

/-- A decoded image: rows of pixels, three bytes each. -/
structure Image where
  width : ℕ
  height : ℕ
  rgb : Bytes

/-- The mean of a colour over the part of the image that pixel `(x, y)` of the thumbnail covers. -/
def sample (image : Image) (size y x k : ℕ) : UInt8 :=
  let side := min image.width image.height
  let left := (image.width - side) / 2
  let top := (image.height - side) / 2
  let x0 := left + x * side / size
  let x1 := max (left + (x + 1) * side / size) (x0 + 1)
  let y0 := top + y * side / size
  let y1 := max (top + (y + 1) * side / size) (y0 + 1)
  let sum := ((List.range' y0 (y1 - y0)).map fun yy =>
    ((List.range' x0 (x1 - x0)).map fun xx =>
      (image.rgb.getD ((yy * image.width + xx) * 3 + k) 0).toNat).sum).sum
  UInt8.ofNat (sum / ((x1 - x0) * (y1 - y0)))

def pixels (image : Image) (size : ℕ) : Bytes :=
  (List.range size).flatMap fun y =>
    (List.range size).flatMap fun x => (List.range 3).map fun k => sample image size y x k

/-- The image libraries. An encoded thumbnail of at most 256 × 256 pixels fits into the bytes `avatar`
is ready to send. -/
structure Codec where
  decode : Bytes → Except Failure Image
  /-- `png_image_write_to_memory`. -/
  encode : ℕ → Bytes → Option Bytes
  encode_bounded : ∀ size pixels out, size ≤ 256 → pixels.length = size * size * 3 →
    encode size pixels = some out → out.length ≤ 1024 * 1024

def thumbnail (codec : Codec) (image : Image) (size : ℕ) : Except Failure Bytes :=
  match codec.encode size (pixels image size) with
  | none => .error (.error 503 "PNG encoding failed" none)
  | some output => .ok output

/-! ## Replacing an avatar -/

section Avatar

variable (codec : Codec)

/-- The loop of `avatar` over the parts of a thumbnail. -/
def appendParts (variant : Id) : List (ℕ × Bytes) → Web Unit
  | [] => return ()
  | (pos, part) :: rest => do
    let _ ← op (.call (.storeAppend variant pos part))
    appendParts variant rest

/-- The loop of `avatar` over the sizes. The row names a thumbnail before its file is created. -/
def storeVariants (image : Image) (id : Id) : List ℕ → List Variant → Web Unit
  | [], _ => return ()
  | size :: sizes, variants => do
    let output ← ofExcept (thumbnail codec image size)
    let variant ← op (.call .uuid)
    let variants := variants ++ [⟨size, variant, output.length⟩]
    op (.setVariants id variants)
    op (.call (.storeCreate variant))
    appendParts variant (parts output)
    storeVariants image id sizes variants

/-- The avatar a user had so far stays for a day. -/
def retireOld : Option Id → Web Unit
  | none => return ()
  | some old => op (.retireAvatar old)

def replaceAvatar (uid : Uid) (id : Id) (expected : ℕ) : Web AvatarChanged :=
  inTransaction do
    match ← op (.lockProfile uid) with
    | none => Task.throw (.error 403 "unknown user" none)
    | some profile => do
      check (profile.avatar_version = expected) 412 "avatar changed; refresh profile"
      op (.setProfile uid id)
      op (.keepAvatar id)
      retireOld profile.avatar_id
      op (.notifyAvatar ⟨uid, id, expected + 1⟩)
      op (.call .commit)
      return ⟨uid, id, expected + 1⟩

/-- The quotes around an entity tag are optional. -/
def unquote (version : Bytes) : Bytes :=
  if 2 ≤ version.length ∧ version.head? = some 34 ∧ version.getLast? = some 34 then
    (version.drop 1).take (version.length - 2)
  else version

def Sizes : List ℕ := [64, 128, 256]

/-- `avatar`, for a `PUT` with a body and a header `If-Match`. -/
def putAvatar (uid : Uid) (body if_match : Bytes) : Web AvatarChanged := do
  check (body ≠ [] ∧ body.length ≤ 5 * 1024 * 1024) 413 "avatar size limit"
  check (if_match ≠ []) 428 "If-Match avatar version required"
  let expected ← lift (number (unquote if_match))
  let image ← ofExcept (codec.decode body)
  let id ← op (.call .uuid)
  op (.insertAvatar id uid)
  inLock id do
    storeVariants codec image id Sizes []
    replaceAvatar uid id expected

end Avatar

/-! ## Reading an avatar -/

/-- The loop of `avatar` over the parts of a file of `total` bytes. -/
def readParts (variant : Id) : List ℕ → Bytes → Web Bytes
  | [], body => return body
  | pos :: rest, body => do
    let bytes ← op (.call (.storeRead variant pos Store.PlainChunkBytes))
    readParts variant rest (body ++ bytes)

def positions (total : ℕ) : List ℕ :=
  (List.range ((total + Store.PlainChunkBytes - 1) / Store.PlainChunkBytes)).map
    (· * Store.PlainChunkBytes)

/-- The sizes `avatar` accepts in a target. -/
def sizeOf? (size : Bytes) : Option ℕ :=
  if size = ascii "64" then some 64
  else if size = ascii "128" then some 128
  else if size = ascii "256" then some 256
  else none

/-- `avatar`, for a `GET` of what follows the route: an id and a size. -/
def getAvatar (tail if_none_match : Bytes) : Web AvatarReply := do
  check (47 ∈ tail) 404 "avatar size required"
  let id := tail.takeWhile (· != 47)
  let size := (tail.dropWhile (· != 47)).drop 1
  match sizeOf? size, validId id with
  | some side, true => do
    let etag := [34] ++ id ++ [58] ++ size ++ [34]
    inLock id do
      match ← op (.selectAvatar id) with
      | none => Task.throw (.error 404 "avatar not found" none)
      | some variants =>
        match variants.find? fun v => v.size = side with
        | none => Task.throw (.error 404 "avatar unavailable" none)
        | some variant =>
          if if_none_match = etag then
            return .notModified etag
          else do
            check (variant.bytes ≤ 1024 * 1024) 503 "invalid avatar metadata"
            let body ← readParts variant.id (positions variant.bytes) []
            return .image etag body
  | _, _ => Task.throw (.error 400 "invalid avatar" none)

/-! ## Maintenance -/

/-- The loop over the configured chat servers: each is notified, whatever the others answered. -/
def notifyPeers (payload : Payload) : List Bytes → Bool → Web Bool
  | [], sent => return sent
  | peer :: peers, sent => do
    let accepted ← op (.notifyPeer peer payload)
    notifyPeers payload peers (accepted && sent)

/-- What becomes of the event that was claimed. -/
def settleEvent (peers : List Bytes) : Option (EventKey × Payload) → Web Unit
  | none => return ()
  | some (key, payload) => do
    let sent ← notifyPeers payload peers true
    if sent then op (.markDelivered key) else op (.postpone key)

/-- The first transaction of `maintenance`. -/
def deliver (peers : List Bytes) : Web Unit :=
  inTransaction do
    let claimed ← op .claimEvent
    settleEvent peers claimed
    op (.call .commit)

def removeVariants : List Variant → Web Unit
  | [] => return ()
  | variant :: rest => do
    op (.call (.storeRemove variant.id))
    removeVariants rest

/-- An avatar that was found expired goes with its files. -/
def purgeAvatar (id : Id) : Option (List Variant) → Web Unit
  | none => return ()
  | some variants => do
    removeVariants variants
    op (.deleteAvatar id)

/-- The loop of `maintenance` over expired avatars. -/
def cleanupAvatars : List Id → Web Unit
  | [] => return ()
  | id :: ids => do
    inLock id (inTransaction do
      let found ← op (.selectExpiredAvatar id)
      purgeAvatar id found
      op (.call .commit))
    cleanupAvatars ids

/-- `maintenance`. -/
def maintenancePass (peers : List Bytes) : Web Unit :=
  inLease do
    deliver peers
    let avatars ← op .selectExpiredAvatars
    cleanupAvatars avatars
    let ids ← op (.call .selectExpired)
    lift (cleanupLoop ids)

end DistributedChat.Resource
