import DistributedChat.Resource.Avatar

/-!
# Requests and their routes

`Service::handle` from the target, the headers and the body of an authenticated request, sliced as the
source slices them, to the program that answers it; and `Connection` (`resource/main.cpp`), which sends
the reply and streams the file it names in parts that are read one at a time.
-/

namespace DistributedChat.Resource

open Lib

/-- What `handle` reads of a request. -/
structure HttpRequest where
  method : Method
  target : Bytes
  range : Bytes
  if_match : Bytes
  if_none_match : Bytes
  body : Bytes
  deriving DecidableEq, Repr

/-- What the service is configured with: the key and the primitives of the store, the image libraries, the
chat servers to notify, and the reader of JSON bodies. -/
structure Setup where
  crypto : Store.Crypto
  master_key : Bytes
  codec : Codec
  peers : List Bytes
  parse : Bytes → Option Json

section Routes

variable (setup : Setup)

/-- `target.rfind(text, 0) == 0`. -/
def startsWith (text : String) (target : Bytes) : Bool :=
  target.take text.length = ascii text

def avatar (uid : Uid) (req : HttpRequest) : Web AvatarReply :=
  inLease do
    if req.target = ascii "/api/resources/v1/users/me/avatar" ∧ req.method = .put then do
      let v ← putAvatar setup.codec uid req.body req.if_match
      return .changed v
    else do
      check (req.method = .get ∧ startsWith "/api/resources/v1/avatars/" req.target = true)
        404 "route not found"
      getAvatar (req.target.drop 26) req.if_none_match

/-- The current avatar of a user; `text` stands between `users/` and `/avatar`. -/
def profile (text : Bytes) : Web Response := do
  let profileUid ← lift (number text)
  inLease do
    match ← op (.selectProfile profileUid) with
    | none => Task.throw (.error 404 "user not found" none)
    | some v => return .profile v

/-- `parse` of a body. -/
def parseBody (body : Bytes) : Web Json :=
  match (setup.parse body).filter Json.isObject with
  | none => Task.throw (.error 400 "invalid JSON object" none)
  | some v => return v

/-- The routes of one file: `target` is a group, an id and an action. -/
def fileRoute (uid : Uid) (req : HttpRequest) (target : Bytes) : Web Response := do
  check (47 ∈ target) 404 "route not found"
  let group := target.takeWhile (· != 47)
  check (group = ascii "uploads" ∨ group = ascii "files") 404 "route not found"
  let rest := (target.dropWhile (· != 47)).drop 1
  let id := rest.takeWhile (· != 47)
  let action := (rest.dropWhile (· != 47)).drop 1
  let group : Group := if group = ascii "uploads" then .uploads else .files
  if group = .uploads ∧ req.method = .put ∧ startsWith "chunks?offset=" action = true then do
    let offset ← lift (number (action.drop 14))
    let f ← lift (chunk uid id (UInt64.ofNat offset) req.body)
    return .file (.json 200 f)
  else if group = .uploads ∧ action = ascii "complete" ∧ req.method = .post then do
    let f ← lift (complete uid id)
    return .file (.json 200 f)
  else do
    let r ← lift (handleFile uid group req.method id action req.range)
    return .file r

def route (uid : Uid) (req : HttpRequest) (target : Bytes) : Web Response :=
  if req.method = .get ∧ startsWith "users/" target = true ∧ 13 < target.length ∧
      target.drop (target.length - 7) = ascii "/avatar" then
    profile ((target.drop 6).take (target.length - 13))
  else if target = ascii "users/me/avatar" ∨ startsWith "avatars/" target = true then do
    let r ← avatar setup uid req
    return .avatar r
  else if target = ascii "uploads" ∧ req.method = .post then do
    let v ← parseBody setup req.body
    let f ← lift (create uid v)
    return .file (.json 201 f)
  else
    fileRoute uid req target

/-- `Service::handle` for a request of user `uid`. -/
def serve (uid : Uid) (req : HttpRequest) : Web Response :=
  if req.target = ascii "/health/live" then
    return .alive
  else if req.target = ascii "/health/ready" then do
    let ok ← op .ready
    return .ready ok
  else do
    check (startsWith "/api/resources/v1/" req.target = true) 404 "route not found"
    route setup uid req (req.target.drop 18)

end Routes

/-! ## Connections -/

/-- `Connection::next`: read the part that holds `offset` and write what it has from there on. A part
writes at least one byte, so `remaining` turns are enough. -/
def next (id : Id) : ℕ → ℕ → ℕ → Web Unit
  | 0, _, _ => return ()
  | turns + 1, offset, remaining =>
    if remaining = 0 then
      return ()
    else do
      let base := offset / Store.PlainChunkBytes * Store.PlainChunkBytes
      let bytes ← lift (read id (UInt64.ofNat base))
      let skip := offset - base
      Task.require (skip < bytes.length) .dependency
      let part := (bytes.drop skip).take remaining
      op (.write id part)
      next id turns (offset + part.length) (remaining - part.length)

/-- The bytes that follow the header of a reply. -/
def stream : Response → Web Unit
  | .file (.stream _ id first length _ _) => next id length first length
  | _ => return ()

def send (r : Response) : Web Unit := do
  op (.respond r)
  stream r

/-- What a thread of the service runs: a request on its connection, or a pass of the maintenance. -/
inductive Job
  | http (uid : Uid) (req : HttpRequest)
  | maintenance

def Job.program (setup : Setup) : Job → Web Unit
  | .http uid req => do
    let r ← serve setup uid req
    send r
  | .maintenance => maintenancePass setup.peers

end DistributedChat.Resource
