import DistributedChat.Resource.Server
import DistributedChat.Store.Contents

/-!
# The discipline of the resource service

What a worker knows about the file whose `ResourceLock` it holds, as the phases of a monitor: a row
read under the lock stays as it was read, an append goes to the confirmed offset only, a file is
published after its hash was compared, and removed after its row was found expired or cancelled.
Every program of the service keeps to the monitor.
-/

namespace DistributedChat.Resource

open Lib Store

/-! ## Rows -/

/-- Neither cancelled nor expired. -/
def Row.Live (row : Row) (now : ℕ) : Prop := row.status ≠ .cancelled ∧ now < row.expires_at

/-- Published: the receiver may read the file. -/
def Status.Published (status : Status) : Prop := status = .available ∨ status = .downloaded

/-- The sizes of a row fit together. -/
structure Row.Sized (row : Row) : Prop where
  bounded : row.total_size ≤ MaxFileBytes
  le : row.uploaded_size ≤ row.total_size
  aligned : row.uploaded_size % PlainChunkBytes = 0 ∨ row.uploaded_size = row.total_size

/-! ## The monitor -/

inductive Phase
  /-- It holds no lock. -/
  | idle
  | locked (id : Id)
  /-- The row was live when it was read under the lock. -/
  | checked (id : Id) (row : Row)
  /-- The store has confirmed the plaintext up to `next`. -/
  | appended (id : Id) (row : Row) (next : ℕ)
  /-- The hash of the whole file is the one of the row. -/
  | hashed (id : Id) (row : Row)
  /-- The file was created and is empty. -/
  | created (id : Id)
  /-- The row was found expired or cancelled. -/
  | condemned (id : Id)

def Phase.lock : Phase → Option Id
  | .idle => none
  | .locked id => some id
  | .checked id _ => some id
  | .appended id _ _ => some id
  | .hashed id _ => some id
  | .created id => some id
  | .condemned id => some id

def Phase.forget (p : Phase) : Phase :=
  match p.lock with
  | none => .idle
  | some id => .locked id

@[simp] theorem Phase.lock_forget (p : Phase) : p.forget.lock = p.lock := by
  cases p <;> rfl

/-- What a worker knows about its transaction: there is none, its writes are justified by the phase,
or nothing. -/
inductive TxState
  | auto
  | opened
  | unknown
  deriving DecidableEq

structure Ghost where
  phase : Phase
  tx : TxState

def Allow (m : Ghost) : Call → Prop
  | .lock _ => m.phase = .idle
  | .unlock id => m.phase.lock = some id
  | .begin => m.tx = .auto
  | .commit => m.tx = .opened
  | .updateOffset id next confirmed =>
    m.tx = .auto ∧ ∃ row, m.phase = .appended id row next ∧ confirmed = row.uploaded_size
  | .publish id => m.tx = .opened ∧ ∃ row, m.phase = .hashed id row
  | .cancel id => m.tx = .auto ∧ ∃ row, m.phase = .checked id row
  | .downloaded id => m.tx = .auto ∧ ∃ row, m.phase = .checked id row ∧ row.status.Published
  | .insertFile id new =>
    m.tx = .opened ∧ m.phase = .created id ∧ new.total_size ≤ MaxFileBytes
  | .selectExpiredRow id => m.tx = .opened ∧ m.phase = .locked id
  | .deleteFile id => m.tx = .opened ∧ m.phase = .condemned id
  | .storeCreate id => m.phase = .locked id
  | .storeAppend id offset p => ∃ row, m.phase = .checked id row ∧ row.status = .uploading ∧
      offset = row.uploaded_size ∧ offset % PlainChunkBytes = 0 ∧ IsChunk p ∧
      offset + p.length ≤ row.total_size ∧ (IsFull p ∨ offset + p.length = row.total_size)
  | .storeRemove id => m.phase = .condemned id
  | _ => True

/-- The answers a worker may count on: a live row it reads under the lock has sizes that fit, and an
append returns the end of its chunk. -/
def Answers (m : Ghost) : (e : Call) → e.Answer → Prop
  | .selectFile id, r => ∀ row, r = some (some (row, false)) → m.phase = .locked id →
      m.tx = .auto → row.status ≠ .cancelled → row.Sized
  | .storeAppend _ offset p, r => ∀ n, r = some n → n = offset + p.length
  | _, _ => True

def Next (m : Ghost) : (e : Call) → e.Answer → Ghost
  | .lock id, some () => { m with phase := .locked id }
  | .unlock _, _ => ⟨.idle, if m.tx = .opened then .unknown else m.tx⟩
  | .returnConnection, _ => { m with tx := .auto }
  | .begin, some () => { m with tx := .opened }
  | .commit, some () => ⟨m.phase.forget, .auto⟩
  | .commit, none => ⟨m.phase.forget, .unknown⟩
  | .rollback, some () => { m with tx := .auto }
  | .rollback, none => { m with tx := if m.tx = .auto then .auto else .unknown }
  | .selectFile id, some (some (row, false)) =>
    match m.phase, m.tx with
    | .locked id', .auto =>
      if id' = id ∧ row.status ≠ .cancelled then { m with phase := .checked id row } else m
    | _, _ => m
  | .updateOffset _ _ _, some 1 =>
    match m.phase with
    | .appended id row next => { m with phase := .checked id { row with uploaded_size := next } }
    | p => { m with phase := p.forget }
  | .updateOffset _ _ _, _ => { m with phase := m.phase.forget }
  | .cancel _, _ => { m with phase := m.phase.forget }
  | .downloaded _, _ => { m with phase := m.phase.forget }
  | .selectExpiredRow id, some true => { m with phase := .condemned id }
  | .storeCreate id, some () => { m with phase := .created id }
  | .storeAppend _ _ _, some n =>
    match m.phase with
    | .checked id row => { m with phase := .appended id row n }
    | p => { m with phase := p.forget }
  | .storeAppend _ _ _, none => { m with phase := m.phase.forget }
  | .storeSha256 id total_size, some hash =>
    match m.phase with
    | .checked id' row =>
      if id' = id ∧ row.status = .uploading ∧ row.uploaded_size = row.total_size ∧
          total_size = row.total_size ∧ hash = row.sha256 then
        { m with phase := .hashed id' row }
      else m
    | _ => m
  | _, _ => m

def discipline : Monitor Call Call.Answer where
  Ghost := Ghost
  allow := Allow
  answer := Answers
  next := Next

/-! ## Scopes -/

section Rules

variable {α β : Type} {m : Ghost} {Q : Ghost → Except Failure α → Prop}

variable {e : Call}

theorem meets_callOr {failure : Failure} {f : e.Value → Svc α} (hallow : Allow m e)
    (hnone : Q (Next m e none) (.error failure))
    (hsome : ∀ v, Answers m e (some v) → Meets discipline Q (Next m e (some v)) (f v)) :
    Meets discipline Q m (callOr failure e >>= f : Svc α) := by
  refine Meets.perform hallow fun r hr => ?_
  cases r with
  | none => exact hnone
  | some v => exact hsome v hr

theorem meets_call {f : e.Value → Svc α} (hallow : Allow m e)
    (hnone : Q (Next m e none) (.error .dependency))
    (hsome : ∀ v, Answers m e (some v) → Meets discipline Q (Next m e (some v)) (f v)) :
    Meets discipline Q m (call e >>= f : Svc α) :=
  meets_callOr hallow hnone hsome

theorem meets_call_last {Q : Ghost → Except Failure e.Value → Prop} (hallow : Allow m e)
    (hnone : Q (Next m e none) (.error .dependency))
    (hsome : ∀ v, Answers m e (some v) → Q (Next m e (some v)) (.ok v)) :
    Meets discipline Q m (call e) := by
  refine ⟨hallow, fun r hr => ?_⟩
  cases r with
  | none => exact hnone
  | some v => exact hsome v hr

theorem meets_require {c : Prop} [Decidable c] {status : ℕ} {message : String} {f : Unit → Svc α}
    (herror : Q m (.error (.error status message none))) (hok : c → Meets discipline Q m (f ())) :
    Meets discipline Q m (require c status message >>= f : Svc α) :=
  Meets.require (fun _ => herror) hok

variable {body : Svc α}

theorem meets_withLock {id : Id} (hidle : m.phase = .idle) (herror : ∀ x, Q m (.error x))
    (hbody : Meets discipline (fun m' r => m'.phase.lock = some id ∧ Q ⟨.idle, if m'.tx =
      .opened then .unknown else m'.tx⟩ r) ⟨.locked id, m.tx⟩ body) :
    Meets discipline Q m (withLock id body) := by
  refine Meets.require (fun _ => herror _) fun _ => ?_
  refine meets_call hidle (herror _) fun _ _ => ?_
  refine Meets.ensuring (hbody.weaken fun m' r hr => ?_)
  exact meets_call_last hr.1 hr.2 fun _ _ => hr.2

theorem meets_withLease (herror : ∀ x, Q m (.error x))
    (hbody : Meets discipline (fun m' r => Q ⟨m'.phase, .auto⟩ r) m body) :
    Meets discipline Q m (withLease body) := by
  refine meets_callOr trivial (herror _) fun _ _ => ?_
  refine Meets.ensuring (hbody.weaken fun m' r hr => ?_)
  exact meets_call_last trivial hr fun _ _ => hr

theorem meets_transaction (hauto : m.tx = .auto) (herror : ∀ x, Q m (.error x))
    (hbody : Meets discipline (fun m' r => Q ⟨m'.phase, .auto⟩ r ∧ Q ⟨m'.phase, if m'.tx =
      .auto then .auto else .unknown⟩ r) ⟨m.phase, .opened⟩ body) : Meets discipline Q m
        (transaction body) := by
  refine meets_call hauto (herror _) fun _ _ => ?_
  refine Meets.ensuring (hbody.weaken fun m' r hr => ?_)
  exact meets_call_last trivial hr.2 fun _ _ => hr.1

end Rules

/-! ## The loop of `chunk` -/

/-- The parts of a body that starts at `offset`, from position `pos` on: they lie one behind the
other within the file, and only the last may be short, at the end of the file. -/
def Fits (offset total : ℕ) : ℕ → List (ℕ × Bytes) → Prop
  | _, [] => True
  | pos, (pos', part) :: rest => pos' = pos ∧ IsChunk part ∧ offset + pos + part.length ≤ total ∧
      (IsFull part ∨ (offset + pos + part.length = total ∧ rest = [])) ∧
      Fits offset total (pos + PlainChunkBytes) rest

variable {offset total : ℕ}

theorem fits_range {bytes : Bytes} (hlen : offset + bytes.length ≤ total)
    (hend : bytes.length % PlainChunkBytes = 0 ∨ offset + bytes.length = total) (n k : ℕ)
    (hn : k + n = (bytes.length + PlainChunkBytes - 1) / PlainChunkBytes) :
    Fits offset total (k * PlainChunkBytes) ((List.range' k n).map fun k =>
      (k * PlainChunkBytes, (bytes.drop (k * PlainChunkBytes)).take PlainChunkBytes)) := by
  induction n generalizing k with
  | zero => trivial
  | succ n ih =>
    have hpart : ((bytes.drop (k * PlainChunkBytes)).take PlainChunkBytes).length =
        min PlainChunkBytes (bytes.length - k * PlainChunkBytes) := by
      rw [List.length_take, List.length_drop]
    rw [List.range'_succ, List.map_cons]
    refine ⟨rfl, ?_, ?_, ?_, ?_⟩
    · unfold IsChunk
      rw [hpart]
      unfold PlainChunkBytes at hn ⊢
      omega
    · rw [hpart]
      unfold PlainChunkBytes at hn ⊢
      omega
    · unfold IsFull
      rw [hpart]
      cases n with
      | zero =>
        rw [List.range'_zero, List.map_nil]
        unfold PlainChunkBytes at hn hend ⊢
        simp only [and_true]
        omega
      | succ n =>
        unfold PlainChunkBytes at hn ⊢
        omega
    · rw [← Nat.succ_mul]
      exact ih (k + 1) (by omega)

theorem fits_parts {bytes : Bytes} (hlen : offset + bytes.length ≤ total)
    (hend : bytes.length % PlainChunkBytes = 0 ∨ offset + bytes.length = total) :
    Fits offset total 0 (parts bytes) := by
  have h := fits_range hlen hend _ 0 (Nat.zero_add _)
  rw [Nat.zero_mul, ← List.range_eq_range'] at h
  exact h

variable {id : Id}

theorem lock_next_updateOffset (m : Ghost) {next confirmed : ℕ}
    (r : (Call.updateOffset id next confirmed).Answer) :
    (Next m (.updateOffset id next confirmed) r).phase.lock = m.phase.lock := by
  obtain ⟨phase, tx⟩ := m
  rcases r with _ | _ | _ | n
  · exact phase.lock_forget
  · exact phase.lock_forget
  · cases phase <;> rfl
  · exact phase.lock_forget

/-- The loop appends at the confirmed offset only: a part below it is compared, and the first part
that is not lies exactly there. -/
theorem meets_chunkLoop (hoffset : offset % PlainChunkBytes = 0) (ps : List (ℕ × Bytes)) {pos : ℕ}
    {row : Row}
    (hpos : pos % PlainChunkBytes = 0) (hsized : row.Sized) (hstatus : row.status = .uploading)
    (htotal : row.total_size = total) (hle : ps = [] ∨ offset + pos ≤ row.uploaded_size)
    (hfits : Fits offset total pos ps) :
    Meets discipline (fun m' _ => m'.phase.lock = some id) (⟨.checked id row, .auto⟩ : Ghost)
      (chunkLoop id offset ps row.uploaded_size) := by
  induction ps generalizing pos row with
  | nil => exact Meets.pure rfl
  | cons head rest ih =>
    obtain ⟨pos', part⟩ := head
    obtain ⟨rfl, hchunk, hend, hfull, hrest⟩ := hfits
    have hle : offset + pos' ≤ row.uploaded_size := hle.resolve_left nofun
    have hpos' : (pos' + PlainChunkBytes) % PlainChunkBytes = 0 := by
      rw [Nat.add_mod_right]
      exact hpos
    by_cases hlt : offset + pos' < row.uploaded_size
    · -- confirmed already: compare
      rw [chunkLoop, if_pos hlt]
      refine meets_call trivial rfl fun previous _ => ?_
      refine meets_require rfl fun _ => ?_
      refine ih hpos' hsized hstatus htotal ?_ hrest
      rcases rest with _ | ⟨⟨pos'', part'⟩, rest'⟩
      · exact Or.inl rfl
      · right
        obtain ⟨-, hchunk', hend', -⟩ := hrest
        have haligned := hsized.aligned
        unfold PlainChunkBytes at hoffset hpos haligned hend' ⊢
        omega
    · -- the next part: append and confirm
      have heq : offset + pos' = row.uploaded_size := by omega
      have hmod : (offset + pos') % PlainChunkBytes = 0 := by
        unfold PlainChunkBytes at hoffset hpos ⊢
        omega
      rw [chunkLoop, if_neg hlt]
      refine Meets.andThen (Meets.catching (meets_call_last ?_ rfl fun next hnext => ?_))
      · refine ⟨row, rfl, hstatus, heq, hmod, hchunk, htotal ▸ hend, ?_⟩
        rw [htotal]
        exact hfull.imp (fun h => h) And.left
      obtain rfl : next = offset + pos' + part.length := hnext next rfl
      refine meets_call ⟨rfl, row, rfl, rfl⟩ (lock_next_updateOffset _ _) fun n _ => ?_
      refine meets_require (lock_next_updateOffset _ _) fun hn => ?_
      subst hn
      refine @ih (pos' + PlainChunkBytes)
        { row with uploaded_size := offset + pos' + part.length } hpos'
        ⟨hsized.bounded, htotal ▸ hend, ?_⟩ hstatus htotal ?_ hrest
      · rcases hfull with hfull | ⟨hlast, -⟩
        · left
          show (offset + pos' + part.length) % PlainChunkBytes = 0
          rw [show part.length = PlainChunkBytes from hfull, Nat.add_mod_right]
          exact hmod
        · exact Or.inr (hlast.trans htotal.symm)
      · rcases hfull with hfull | ⟨-, hlast⟩
        · right
          show offset + (pos' + PlainChunkBytes) ≤ offset + pos' + part.length
          rw [show part.length = PlainChunkBytes from hfull, Nat.add_assoc]
        · exact Or.inl hlast

/-! ## Requests -/

/-- `file` under the lock: what it returns is the row, and a live row is known from then on. -/
theorem meets_file_locked {α : Type} {f : FileInfo → Svc α} {Q : Ghost → Except Failure α → Prop}
    (herror : ∀ x, Q ⟨.locked id, .auto⟩ (.error x))
    (hdead : ∀ row expired, (expired = true ∨ row.status = .cancelled) →
      Meets discipline Q (⟨.locked id,
      .auto⟩ : Ghost) (f (.ofRow id row expired)))
    (hlive : ∀ row, row.Sized → row.status ≠ .cancelled →
      Meets discipline Q (⟨.checked id row, .auto⟩ :
      Ghost) (f (.ofRow id row false))) :
    Meets discipline Q (⟨.locked id, .auto⟩ : Ghost) (file id >>= f : Svc α) := by
  refine Meets.andThen ?_
  unfold file
  refine meets_require (herror _) fun _ => ?_
  refine meets_call trivial (herror _) fun found hfound => ?_
  rcases found with _ | ⟨row, expired⟩
  · exact herror _
  · cases expired with
    | true => exact hdead row true (Or.inl rfl)
    | false =>
      by_cases hc : row.status = .cancelled
      · have hnext : Next ⟨.locked id, .auto⟩ (.selectFile id) (some (some (row, false))) =
            ⟨.locked id, .auto⟩ := if_neg fun h => h.2 hc
        rw [hnext]
        exact hdead row false (Or.inr hc)
      · have hnext : Next ⟨.locked id, .auto⟩ (.selectFile id) (some (some (row, false))) =
            ⟨.checked id row, .auto⟩ := if_pos ⟨rfl, hc⟩
        rw [hnext]
        exact hlive row (hfound row rfl rfl rfl hc) hc

theorem meets_file {m : Ghost} {Q : Ghost → Except Failure FileInfo → Prop}
    (h : ∀ m' r, m'.phase.lock = m.phase.lock → m'.tx = m.tx → Q m' r) :
    Meets discipline Q m (file id) := by
  have hnext : ∀ r, (Next m (.selectFile id) r).phase.lock = m.phase.lock ∧
      (Next m (.selectFile id) r).tx = m.tx := by
    obtain ⟨phase, tx⟩ := m
    rintro (_ | _ | ⟨row, _ | _⟩)
    · exact ⟨rfl, rfl⟩
    · exact ⟨rfl, rfl⟩
    · cases phase <;> cases tx <;> try exact ⟨rfl, rfl⟩
      rename_i id'
      by_cases hc : id' = id ∧ row.status ≠ .cancelled
      · rw [show Next ⟨.locked id', .auto⟩ (.selectFile id) (some (some (row, false))) =
          ⟨.checked id row, .auto⟩ from if_pos hc, hc.1]
        exact ⟨rfl, rfl⟩
      · rw [show Next ⟨.locked id', .auto⟩ (.selectFile id) (some (some (row, false))) =
          ⟨.locked id', .auto⟩ from if_neg hc]
        exact ⟨rfl, rfl⟩
    · exact ⟨rfl, rfl⟩
  unfold file
  refine meets_require (h _ _ rfl rfl) fun _ => ?_
  refine meets_call trivial (h _ _ rfl rfl) fun found _ => ?_
  rcases found with _ | ⟨row, expired⟩ <;> exact h _ _ (hnext _).1 (hnext _).2

/-- A worker that holds nothing. -/
def Ghost.start : Ghost := ⟨.idle, .auto⟩

theorem meets_onFile {α : Type} {f : FileInfo → Svc α}
    (hdead : ∀ row expired, (expired = true ∨ row.status = .cancelled) →
      Meets discipline (fun m' _ => m'.phase.lock = some id) (⟨.locked id, .auto⟩ :
      Ghost) (f (.ofRow id row expired)))
    (hlive : ∀ row, row.Sized → row.status ≠ .cancelled →
      Meets discipline (fun m' _ => m'.phase.lock =
      some id) (⟨.checked id row, .auto⟩ : Ghost) (f (.ofRow id row false))) :
    Meets discipline (fun _ _ => True) Ghost.start
    (withLock id (withLease (file id >>= f)) : Svc α) := by
  refine meets_withLock rfl (fun _ => trivial) ?_
  refine meets_withLease (fun _ => ⟨rfl, trivial⟩) ?_
  refine Meets.weaken ?_ fun m' r hr => ⟨hr, trivial⟩
  exact meets_file_locked (fun _ => rfl) hdead hlive

theorem meets_chunk (uid : Uid) (id : Id) (offset : UInt64) (bytes : Bytes) :
    Meets discipline (fun _ _ => True) Ghost.start (chunk uid id offset bytes) := by
  refine meets_require trivial fun ⟨_, _, hoffset⟩ => ?_
  refine meets_onFile (fun row expired hd => ?_) fun row hsized _ => ?_
  · refine meets_require rfl fun _ => ?_
    refine meets_require rfl fun ⟨hexpired, hstatus⟩ => ?_
    rcases hd with rfl | hd
    · exact absurd hexpired nofun
    · exact absurd (hd.symm.trans hstatus) nofun
  · refine meets_require rfl fun _ => ?_
    refine meets_require rfl fun ⟨_, hstatus⟩ => ?_
    refine meets_require rfl fun ⟨hle, hlen, hend⟩ => ?_
    refine Meets.require (fun _ => rfl) fun hconfirmed => ?_
    refine Meets.andThen ?_
    refine (meets_chunkLoop hoffset (parts bytes) rfl hsized hstatus rfl
      (Or.inr (Nat.le_of_not_lt hconfirmed)) (fits_parts ?_ hend)).weaken fun m' r hr => ?_
    · simp only [FileInfo.ofRow] at hle hlen
      omega
    · cases r with
      | error x => exact hr
      | ok confirmed => exact Meets.pure hr

theorem meets_complete (uid : Uid) (id : Id) :
    Meets discipline (fun _ _ => True) Ghost.start (complete uid id) := by
  refine meets_onFile (fun row expired hd => ?_) fun row hsized hcancelled => ?_
  · refine meets_require rfl fun _ => ?_
    refine meets_require rfl fun ⟨hexpired, hstatus⟩ => ?_
    rcases hd with rfl | hd
    · exact absurd hexpired nofun
    · exact absurd hd hstatus
  · refine meets_require rfl fun _ => ?_
    refine meets_require rfl fun _ => ?_
    by_cases hpublished : row.status = .available ∨ row.status = .downloaded
    · rw [if_pos (show (FileInfo.ofRow id row false).status = .available ∨
        (FileInfo.ofRow id row false).status = .downloaded from hpublished)]
      exact Meets.pure rfl
    rw [if_neg (show ¬ ((FileInfo.ofRow id row false).status = .available ∨
        (FileInfo.ofRow id row false).status = .downloaded) from hpublished)]
    have huploading : row.status = .uploading := by
      cases hstatus : row.status with
      | uploading => rfl
      | available => exact absurd (Or.inl hstatus) hpublished
      | downloaded => exact absurd (Or.inr hstatus) hpublished
      | cancelled => exact absurd hstatus hcancelled
    refine meets_require rfl fun hsize => ?_
    refine meets_call trivial rfl fun hash _ => ?_
    -- the phase after the hash depends on the comparison, which is the next check
    by_cases hhash : hash = row.sha256
    · have hnext : Next ⟨.checked id row, .auto⟩ (.storeSha256 id row.total_size) (some hash) =
          ⟨.hashed id row, .auto⟩ := if_pos ⟨rfl, huploading, hsize, rfl, hhash⟩
      show Meets discipline _ (Next ⟨.checked id row, .auto⟩ (.storeSha256 id row.total_size)
        (some hash)) _
      rw [hnext]
      refine meets_require rfl fun _ => ?_
      refine meets_transaction rfl (fun _ => rfl) ?_
      refine meets_call ⟨rfl, row, rfl⟩ ⟨rfl, rfl⟩ fun n _ => ?_
      refine meets_require ⟨rfl, rfl⟩ fun _ => ?_
      refine meets_call trivial ⟨rfl, rfl⟩ fun _ _ => ?_
      refine meets_call rfl ⟨rfl, rfl⟩ fun _ _ => ?_
      exact Meets.pure ⟨rfl, rfl⟩
    · have hnext : Next ⟨.checked id row, .auto⟩ (.storeSha256 id row.total_size) (some hash) =
          ⟨.checked id row, .auto⟩ := if_neg fun h => hhash h.2.2.2.2
      show Meets discipline _ (Next ⟨.checked id row, .auto⟩ (.storeSha256 id row.total_size)
        (some hash)) _
      rw [hnext]
      exact meets_require rfl fun h => absurd h hhash

theorem meets_handleFile (uid : Uid) (group : Group) (method : Method) (id : Id)
    (action range : Bytes) : Meets discipline (fun _ _ => True) Ghost.start
      (handleFile uid group method id action range) := by
  refine meets_onFile (fun row expired hd => ?_) fun row hsized hcancelled => ?_
  · refine meets_require rfl fun _ => ?_
    refine meets_require rfl fun _ => ?_
    refine meets_require rfl fun ⟨hexpired, hstatus⟩ => ?_
    rcases hd with rfl | hd
    · exact absurd hexpired nofun
    · exact absurd hd hstatus
  · refine meets_require rfl fun _ => ?_
    iterate 2 refine meets_require rfl fun _ => ?_
    by_cases hget : method = .get ∧ action = []
    · rw [if_pos hget]
      exact Meets.pure rfl
    rw [if_neg hget]
    by_cases hdelete : method = .delete ∧ action = []
    · rw [if_pos hdelete]
      refine meets_require rfl fun _ => ?_
      exact meets_call ⟨rfl, row, rfl⟩ rfl fun _ _ => Meets.pure rfl
    rw [if_neg hdelete]
    refine meets_require rfl fun _ => ?_
    refine meets_require rfl fun hpublished => ?_
    by_cases hdownloaded : method = .post ∧ action = ascii "downloaded"
    · rw [if_pos hdownloaded]
      exact meets_call ⟨rfl, row, rfl, hpublished⟩ rfl fun _ _ => Meets.pure rfl
    rw [if_neg hdownloaded]
    exact meets_require rfl fun _ => Meets.silent (silent_content id _ range) fun _ => rfl

theorem meets_read (id : Id) (offset : UInt64) :
    Meets discipline (fun _ _ => True) Ghost.start (read id offset) := by
  refine meets_onFile (fun row expired _ => ?_) fun row _ _ => ?_
  · exact meets_require rfl fun _ => meets_call_last trivial rfl fun _ _ => rfl
  · exact meets_require rfl fun _ => meets_call_last trivial rfl fun _ _ => rfl

theorem meets_createRow (touid : Json) (new : NewFile) (hsize : new.total_size ≤ MaxFileBytes) :
    Meets discipline (fun _ _ => True) (⟨.idle, .opened⟩ : Ghost) (createRow touid new) := by
  refine meets_call trivial trivial fun known _ => ?_
  refine meets_require trivial fun _ => ?_
  refine meets_call trivial trivial fun prior _ => ?_
  cases prior with
  | some old =>
    refine Meets.andThen (meets_file fun m' r _ htx => ?_)
    cases r with
    | error x => trivial
    | ok f =>
      iterate 2 refine meets_require trivial fun _ => ?_
      exact meets_call htx trivial fun _ _ => Meets.pure trivial
  | none =>
    refine meets_call trivial trivial fun friendship _ => ?_
    refine meets_require trivial fun _ => ?_
    refine meets_call trivial trivial fun usage _ => ?_
    refine meets_require trivial fun _ => ?_
    refine meets_call trivial trivial fun id _ => ?_
    refine meets_withLock rfl (fun _ => trivial) ?_
    refine meets_call rfl ⟨rfl, trivial⟩ fun _ _ => ?_
    refine meets_call ⟨rfl, rfl, hsize⟩ ⟨rfl, trivial⟩ fun _ _ => ?_
    refine meets_call rfl ⟨rfl, trivial⟩ fun _ _ => ?_
    exact meets_file fun m' r hlock _ => ⟨hlock, trivial⟩

theorem meets_create (uid : Uid) (v : Json) :
    Meets discipline (fun _ _ => True) Ghost.start (create uid v) := by
  unfold create
  split
  · split
    · exact Meets.throw trivial
    · refine meets_require trivial fun _ => ?_
      refine meets_require trivial fun _ => ?_
      refine meets_require trivial fun hsize => ?_
      refine meets_withLease (fun _ => trivial) ?_
      refine meets_transaction rfl (fun _ => trivial) ?_
      exact (meets_createRow _ _ hsize).weaken fun _ _ _ => ⟨trivial, trivial⟩
  · exact Meets.throw trivial

/-- Each round of the cleanup ends without a lock and without a transaction, or throws. -/
theorem meets_cleanupLoop (ids : List Id) :
    Meets discipline (fun _ _ => True) Ghost.start (cleanupLoop ids) := by
  induction ids with
  | nil => exact Meets.pure trivial
  | cons id ids ih =>
    refine Meets.andThen (meets_withLock rfl (fun _ => trivial) ?_)
    refine meets_transaction rfl (fun _ => ⟨rfl, trivial⟩) ?_
    refine meets_call ⟨rfl, rfl⟩ ⟨⟨rfl, trivial⟩, rfl, trivial⟩ fun found _ => ?_
    cases found with
    | false =>
      exact meets_call_last rfl ⟨⟨rfl, trivial⟩, rfl, trivial⟩ fun _ _ => ⟨⟨rfl, ih⟩, rfl, ih⟩
    | true =>
      refine meets_call rfl ⟨⟨rfl, trivial⟩, rfl, trivial⟩ fun _ _ => ?_
      refine meets_call trivial ⟨⟨rfl, trivial⟩, rfl, trivial⟩ fun _ _ => ?_
      refine meets_call ⟨rfl, rfl⟩ ⟨⟨rfl, trivial⟩, rfl, trivial⟩ fun _ _ => ?_
      exact meets_call_last rfl ⟨⟨rfl, trivial⟩, rfl, trivial⟩ fun _ _ => ⟨⟨rfl, ih⟩, rfl, ih⟩

theorem meets_maintenance : Meets discipline (fun _ _ => True) Ghost.start maintenance := by
  refine meets_withLease (fun _ => trivial) ?_
  exact meets_call trivial trivial fun ids _ => meets_cleanupLoop ids

/-- **Conformance.** Every request keeps to the discipline. -/
theorem meets_handle (req : Request) :
    Meets discipline (fun _ _ => True) Ghost.start (handle req) := by
  have hreply : ∀ {α : Type} {p : Svc α} (f : α → Reply),
    Meets discipline (fun _ _ => True) Ghost.start p →
      Meets discipline (fun _ _ => True) Ghost.start (p >>= fun a => pure (f a) : Svc Reply) := by
    intro α p f hp
    refine Meets.andThen (hp.weaken fun m r _ => ?_)
    cases r with
    | error x => trivial
    | ok a => exact Meets.pure trivial
  cases req with
  | create uid v => exact hreply _ (meets_create uid v)
  | chunk uid id offset bytes => exact hreply _ (meets_chunk uid id offset bytes)
  | complete uid id => exact hreply _ (meets_complete uid id)
  | file uid group method id action range =>
    exact meets_handleFile uid group method id action range
  | read id offset => exact hreply _ (meets_read id offset)
  | maintenance => exact hreply _ meets_maintenance

end DistributedChat.Resource
