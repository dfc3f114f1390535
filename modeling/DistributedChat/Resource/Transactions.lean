import DistributedChat.Resource.Service

/-!
# The transactions of file requests

What a worker has done in its transaction, as the states of a monitor: `create` counts the sender's
files under the lock of the sender's row before it inserts a row, `complete` publishes a row
together with its event, and `maintenance` deletes an expired or cancelled row together with its
event. A transaction that stops in between is not committed. Every program of the service keeps to
the monitor.
-/

namespace DistributedChat.Resource

open Lib

/-- The quota of a sender: rows and bytes. -/
def MaxFiles : ℕ := 16

def MaxBytes : ℕ := 1024 * 1024 * 1024

/-- What a worker has done in its transaction. -/
inductive Hold
  /-- It has none open. -/
  | free
  /-- It has written nothing. -/
  | opened
  /-- It holds the row of a user, and has read the usage under it. -/
  | user (uid : Uid)
  | quota (uid : Uid) (usage : ℕ × ℕ)
  | inserted (id : Id) (usage : ℕ × ℕ) (new : NewFile)
  /-- It has published a row, without its event and with it. -/
  | publishing (id : Id)
  | published (id : Id)
  /-- It has found a row expired or cancelled, and deletes its event and then the row. -/
  | condemned (id : Id)
  | unposted (id : Id)
  | removed (id : Id)
  /-- Something failed: it will not commit. -/
  | spoilt
  deriving DecidableEq

/-- The transactions that may be committed. -/
def Hold.Closed : Hold → Prop
  | .free | .publishing _ | .condemned _ | .unposted _ | .spoilt => False
  | _ => True

def txRules : Monitor Call Call.Answer where
  Ghost := Hold
  allow
    | m, .begin => m = .free
    | m, .commit => m.Closed
    | m, .lockUser _ => m = .opened
    | m, .selectQuota uid => m = .user uid
    | m, .insertFile _ new => ∃ usage : ℕ × ℕ, m = .quota new.sender_uid usage ∧
        usage.1 < MaxFiles ∧ usage.2 + new.total_size ≤ MaxBytes
    | m, .updateOffset _ _ _ | m, .cancel _ | m, .downloaded _ => m = .free
    | m, .publish _ => m = .opened
    | m, .insertOutbox id _ => m = .publishing id
    | m, .selectExpiredRow _ => m = .opened
    | m, .deleteOutbox id => m = .condemned id
    | m, .deleteFile id => m = .unposted id
    | _, _ => True
  answer _ _ _ := True
  next
    | _, .begin, some () => .opened
    | _, .commit, some () | _, .rollback, some () | _, .returnConnection, _ => .free
    | _, .commit, none => .spoilt
    | m, .rollback, none => if m = .free then .free else .spoilt
    | _, .lockUser uid, some true => .user uid
    | .user uid, .selectQuota _, some usage => .quota uid usage
    | .quota _ usage, .insertFile id new, some () => .inserted id usage new
    | _, .insertFile _ _, none => .spoilt
    | _, .publish id, some 1 => .publishing id
    | _, .publish _, none => .spoilt
    | _, .insertOutbox id _, some () => .published id
    | _, .insertOutbox _ _, none => .spoilt
    | _, .selectExpiredRow id, some true => .condemned id
    | _, .deleteOutbox id, some () => .unposted id
    | _, .deleteOutbox _, none => .spoilt
    | _, .deleteFile id, some () => .removed id
    | _, .deleteFile _, none => .spoilt
    | m, _, _ => m

/-- The calls that have nothing to do with transactions and rows. -/
def Call.Plain : Call → Prop
  | .lock _ | .unlock _ | .getConnection | .selectFile _ | .selectPrior _ _ | .selectFriend _ _
  | .selectExpired | .uuid | .storeCreate _ | .storeAppend _ _ _ | .storeRead _ _ _
  | .storeSha256 _ _ | .storeRemove _ => True
  | _ => False

section Programs

variable {α β : Type} {m : Hold} {Q : Hold → Except Failure α → Prop}

variable {e : Call}

theorem Call.Plain.allow (h : e.Plain) (m : Hold) : txRules.allow m e := by
  cases e <;> trivial

theorem Call.Plain.next (h : e.Plain) (m : Hold) (r : e.Answer) : txRules.next m e r = m := by
  cases e <;> first | rfl | cases h

/-- The rule for a call: it may fail, or answer and go on. -/
theorem tx_call {failure : Failure} {f : e.Value → Svc α} (hallow : txRules.allow m e)
    (hnone : Q (txRules.next m e none) (.error failure))
    (hsome : ∀ v, Meets txRules Q (txRules.next m e (some v)) (f v)) :
    Meets txRules Q m (callOr failure e >>= f : Svc α) := by
  refine Meets.perform hallow fun r _ => ?_
  cases r with
  | none => exact hnone
  | some v => exact hsome v

/-- A call outside of transactions changes nothing for them. -/
theorem tx_plain {failure : Failure} {f : e.Value → Svc α} (h : e.Plain)
    (hnone : Q m (.error failure))
    (hsome : ∀ v, Meets txRules Q m (f v)) :
    Meets txRules Q m (callOr failure e >>= f : Svc α) := by
  refine tx_call (h.allow m) ?_ fun v => ?_
  · rw [h.next]
    exact hnone
  · rw [h.next]
    exact hsome v

theorem tx_last {Q : Hold → Except Failure e.Value → Prop} (hallow : txRules.allow m e)
    (hnone : Q (txRules.next m e none) (.error .dependency))
    (hsome : ∀ v, Q (txRules.next m e (some v)) (.ok v)) : Meets txRules Q m (call e) := by
  refine ⟨hallow, fun r _ => ?_⟩
  cases r with
  | none => exact hnone
  | some v => exact hsome v

theorem tx_require {c : Prop} [Decidable c] {status : ℕ} {message : String} {f : Unit → Svc α}
    (herror : Q m (.error (.error status message none))) (hok : c → Meets txRules Q m (f ())) :
    Meets txRules Q m (require c status message >>= f : Svc α) :=
  Meets.require (fun _ => herror) hok

variable {id : Id} {body : Svc α}

theorem tx_withLock (herror : ∀ x, Q m (.error x)) (hbody : Meets txRules Q m body) :
    Meets txRules Q m (withLock id body) := by
  refine Meets.require (fun _ => herror _) fun _ => ?_
  refine tx_plain (e := .lock id) trivial (herror _) fun _ => ?_
  exact Meets.ensuring (hbody.weaken fun _ _ hr => tx_last (e := .unlock id) trivial hr fun _ => hr)

/-- Whatever the body leaves open, the connection is given back without a transaction. -/
theorem tx_withLease (herror : ∀ x, Q m (.error x))
    (hbody : Meets txRules (fun _ r => Q .free r) m body) :
    Meets txRules Q m (withLease body) := by
  refine tx_plain (e := .getConnection) trivial (herror _) fun _ => ?_
  exact Meets.ensuring (hbody.weaken fun _ _ hr =>
    tx_last (e := .returnConnection) trivial hr fun _ => hr)

/-- The scope ends with the transaction committed or rolled back, unless the rollback itself fails.
-/
theorem tx_transaction (herror : ∀ x, Q .free (.error x))
    (hbody : Meets txRules (fun (m' : Hold) r => Q .free r ∧ Q (if m' =
      .free then .free else .spoilt) r) .opened body) : Meets txRules Q .free
        (transaction body) := by
  refine tx_call (e := .begin) (Eq.refl Hold.free) (herror _) fun _ => ?_
  exact Meets.ensuring (hbody.weaken fun _ _ hr =>
    tx_last (e := .rollback) trivial hr.2 fun _ => hr.1)

theorem tx_file {f : FileInfo → Svc α} (herror : ∀ x, Q m (.error x))
    (hok : ∀ info, Meets txRules Q m (f info)) :
    Meets txRules Q m (file id >>= f : Svc α) := by
  refine Meets.andThen ?_
  refine tx_require (herror _) fun _ => ?_
  refine tx_plain (e := .selectFile id) trivial (herror _) fun found => ?_
  cases found with
  | none => exact herror _
  | some found => exact hok _

theorem tx_file_last {Q : Hold → Except Failure FileInfo → Prop} (herror : ∀ x, Q m (.error x))
    (hok : ∀ info, Q m (.ok info)) : Meets txRules Q m (file id) := by
  refine tx_require (herror _) fun _ => ?_
  refine tx_plain (e := .selectFile id) trivial (herror _) fun found => ?_
  cases found with
  | none => exact herror _
  | some found => exact hok _

/-! ### The programs -/

/-- A program that keeps to the rules, however it ends. -/
def Orderly (m : Hold) (p : Svc α) : Prop := Meets txRules (fun _ _ => True) m p

/-- A request leaves no transaction open. -/
def Tidy (p : Svc α) : Prop := Meets txRules (fun m _ => m = .free) .free p

theorem Orderly.transaction (h : Orderly .opened body) :
    Orderly .free (Resource.transaction body) :=
  tx_transaction (fun _ => trivial) (h.weaken fun _ _ _ => ⟨trivial, trivial⟩)

theorem Orderly.withLease (h : Orderly .free body) : Tidy (Resource.withLease body) :=
  tx_withLease (fun _ => rfl) (h.weaken fun _ _ _ => rfl)

theorem Tidy.withLock (h : Tidy body) : Tidy (Resource.withLock id body) :=
  tx_withLock (fun _ => rfl) h

theorem orderly_createRow (touid : Json) (new : NewFile) :
    Orderly .opened (createRow touid new) := by
  refine tx_call (e := .lockUser new.sender_uid) (Eq.refl Hold.opened) trivial fun known => ?_
  refine tx_require trivial fun hknown => ?_
  subst hknown
  refine tx_plain (e := .selectPrior _ _) trivial trivial fun prior => ?_
  cases prior with
  | some old =>
    refine tx_file (fun _ => trivial) fun f => ?_
    iterate 2 refine tx_require trivial fun _ => ?_
    exact tx_call (e := .commit) trivial trivial fun _ => trivial
  | none =>
    refine tx_plain (e := .selectFriend _ _) trivial trivial fun friendship => ?_
    refine tx_require trivial fun _ => ?_
    refine tx_call (e := .selectQuota _) (Eq.refl (Hold.user _)) trivial fun usage => ?_
    refine tx_require trivial fun hroom => ?_
    refine tx_plain (e := .uuid) trivial trivial fun id => ?_
    refine tx_withLock (fun _ => trivial) ?_
    refine tx_plain (e := .storeCreate id) trivial trivial fun _ => ?_
    refine tx_call (e := .insertFile id new) ⟨usage, rfl, hroom⟩ trivial fun _ => ?_
    refine tx_call (e := .commit) trivial trivial fun _ => ?_
    exact tx_file_last (fun _ => trivial) fun _ => trivial

/-- `create` leaves no transaction open. -/
theorem tidy_create (uid : Uid) (v : Json) : Tidy (create uid v) := by
  unfold create
  split
  · split
    · exact Meets.throw rfl
    · refine tx_require rfl fun _ => ?_
      iterate 2 refine tx_require rfl fun _ => ?_
      exact (orderly_createRow _ _).transaction.withLease
  · exact Meets.throw rfl

theorem orderly_chunkLoop (id : Id) (offset : ℕ) (ps : List (ℕ × Bytes)) (confirmed : ℕ) :
    Meets txRules (fun _ _ => True) .free (chunkLoop id offset ps confirmed) := by
  induction ps generalizing confirmed with
  | nil => trivial
  | cons head rest ih =>
    obtain ⟨pos, part⟩ := head
    unfold chunkLoop
    split
    · refine tx_plain (e := .storeRead _ _ _) trivial trivial fun previous => ?_
      exact tx_require trivial fun _ => ih confirmed
    · refine Meets.andThen (Meets.catching (tx_last (e := .storeAppend _ _ _) trivial trivial
        fun next => ?_))
      refine tx_call (e := .updateOffset _ _ _) (Eq.refl Hold.free) trivial fun n => ?_
      exact tx_require trivial fun _ => ih next

/-- `chunk` leaves no transaction open. -/
theorem tidy_chunk (uid : Uid) (id : Id) (offset : UInt64) (bytes : Bytes) :
    Tidy (chunk uid id offset bytes) := by
  refine tx_require rfl fun _ => ?_
  refine Tidy.withLock (Orderly.withLease ?_)
  refine tx_file (fun _ => trivial) fun f => ?_
  iterate 3 refine tx_require trivial fun _ => ?_
  refine Meets.require (fun _ => trivial) fun _ => ?_
  refine Meets.andThen ((orderly_chunkLoop id _ _ _).weaken fun m r _ => ?_)
  cases r <;> trivial

/-- `complete` leaves no transaction open. -/
theorem tidy_complete (uid : Uid) (id : Id) : Tidy (complete uid id) := by
  refine Tidy.withLock (Orderly.withLease ?_)
  refine tx_file (fun _ => trivial) fun f => ?_
  iterate 2 refine tx_require trivial fun _ => ?_
  split
  · trivial
  · refine tx_require trivial fun _ => ?_
    refine tx_plain (e := .storeSha256 _ _) trivial trivial fun hash => ?_
    refine tx_require trivial fun _ => ?_
    refine Orderly.transaction ?_
    refine tx_call (e := .publish id) (Eq.refl Hold.opened) trivial fun n => ?_
    refine tx_require trivial fun hn => ?_
    subst hn
    refine tx_call (e := .insertOutbox _ _) (Eq.refl (Hold.publishing id)) trivial fun _ => ?_
    exact tx_call (e := .commit) trivial trivial fun _ => trivial

theorem tidy_handleFile (uid : Uid) (group : Group) (method : Method) (id : Id)
    (action range : Bytes) : Tidy (handleFile uid group method id action range) := by
  refine Tidy.withLock (Orderly.withLease ?_)
  refine tx_file (fun _ => trivial) fun f => ?_
  iterate 3 refine tx_require trivial fun _ => ?_
  split
  · trivial
  · split
    · refine tx_require trivial fun _ => ?_
      exact tx_call (e := .cancel id) (Eq.refl Hold.free) trivial fun _ => trivial
    · refine tx_require trivial fun _ => ?_
      refine tx_require trivial fun _ => ?_
      split
      · exact tx_call (e := .downloaded id) (Eq.refl Hold.free) trivial fun _ => trivial
      · exact tx_require trivial fun _ => Meets.silent (silent_content id f range) fun _ => trivial

theorem tidy_read (id : Id) (offset : UInt64) : Tidy (read id offset) := by
  refine Tidy.withLock (Orderly.withLease ?_)
  refine tx_file (fun _ => trivial) fun f => ?_
  refine tx_require trivial fun _ => ?_
  exact tx_last (e := .storeRead _ _ _) trivial trivial fun _ => trivial

theorem orderly_cleanupLoop (ids : List Id) : Orderly .free (cleanupLoop ids) := by
  induction ids with
  | nil => trivial
  | cons id ids ih =>
    refine Meets.andThen (tx_withLock (fun _ => trivial) ?_)
    refine tx_transaction (fun _ => trivial) ?_
    refine tx_call (e := .selectExpiredRow id) (Eq.refl Hold.opened) ⟨trivial, trivial⟩
      fun found => ?_
    cases found with
    | false => exact tx_last (e := .commit) trivial ⟨trivial, trivial⟩ fun _ => ⟨ih, ih⟩
    | true =>
      refine tx_plain (e := .storeRemove id) trivial ⟨trivial, trivial⟩ fun _ => ?_
      refine tx_call (e := .deleteOutbox id) (Eq.refl (Hold.condemned id)) ⟨trivial, trivial⟩
        fun _ => ?_
      refine tx_call (e := .deleteFile id) (Eq.refl (Hold.unposted id)) ⟨trivial, trivial⟩
        fun _ => ?_
      exact tx_last (e := .commit) trivial ⟨trivial, trivial⟩ fun _ => ⟨ih, ih⟩

/-- `maintenance` leaves no transaction open. -/
theorem tidy_maintenance : Tidy maintenance := by
  refine Orderly.withLease ?_
  exact tx_plain (e := .selectExpired) trivial trivial fun ids => orderly_cleanupLoop ids

theorem tidy_handle (req : Request) : Tidy (handle req) := by
  have hreply : ∀ {α : Type} {p : Svc α} (f : α → Reply), Tidy p →
      Tidy (p >>= fun a => pure (f a) : Svc Reply) := by
    intro α p f hp
    refine Meets.andThen (hp.weaken fun m r hm => ?_)
    cases r <;> exact hm
  cases req with
  | create uid v => exact hreply _ (tidy_create uid v)
  | chunk uid id offset bytes => exact hreply _ (tidy_chunk uid id offset bytes)
  | complete uid id => exact hreply _ (tidy_complete uid id)
  | file uid group method id action range => exact tidy_handleFile uid group method id action range
  | read id offset => exact hreply _ (tidy_read id offset)
  | maintenance => exact hreply _ tidy_maintenance

end Programs

end DistributedChat.Resource
