import DistributedChat.Resource.Server
import DistributedChat.Resource.Transactions

/-!
# The quota of a sender

`create` checks the quota under the lock of the sender's row; every later statement has to leave
it. All do, except one: `complete` moves the expiry of a row on after it has hashed the file, and
does not ask whether the row has expired meanwhile.

1. The weights of a row, and what each statement does to the totals of a sender.
2. `Kept`: the totals are within the quota, and a worker that has checked it still has the room it
   found.
3. `quota_kept` for all runs in which a publication is committed before its row expires, and a run
   in which it is not. The transactions of the runs read as at `READ COMMITTED`: the quota counts
   what is committed by then, not what was when its transaction began.
-/

namespace DistributedChat.Resource

open Lib Function List
open Shared (write_opened write_rowLocks write_now write_auto)

/-! ## Weights -/

/-- The rows of a sender that count now, and their bytes. -/
def quotaUsage (db : Db) (uid : Uid) (now : ℕ) : ℕ × ℕ :=
  let counted := db.files.rows.filter fun r => r.2.counts uid now
  (counted.length, (counted.map fun r => r.2.total_size).sum)

/-- What a row adds to the two sums. -/
def Row.one (uid : Uid) (now : ℕ) (row : Row) : ℕ := if row.counts uid now then 1 else 0

def Row.bytes (uid : Uid) (now : ℕ) (row : Row) : ℕ :=
  if row.counts uid now then row.total_size else 0

theorem quotaUsage_eq (db : Db) (uid : Uid) (now : ℕ) :
    quotaUsage db uid now =
    (db.files.total (Row.one uid now), db.files.total (Row.bytes uid now)) := by
  unfold quotaUsage Table.total
  induction db.files.rows with
  | nil => rfl
  | cons r rows ih =>
    obtain ⟨hlength, hsum⟩ := Prod.mk.inj ih
    simp only [map_cons, sum_cons]
    rw [← hlength, ← hsum]
    by_cases h : r.2.counts uid now = true
    · rw [show r.2.one uid now = 1 from if_pos h,
        show r.2.bytes uid now = r.2.total_size from if_pos h,
        filter_cons_of_pos (by exact h), length_cons, map_cons, sum_cons,
        Nat.add_comm]
    · rw [show r.2.one uid now = 0 from if_neg h, show r.2.bytes uid now = 0 from if_neg h,
        filter_cons_of_neg (by exact h), Nat.zero_add, Nat.zero_add]

/-- One row counts no more than another. -/
def Row.Lighter (row' row : Row) (now : ℕ) : Prop :=
  ∀ uid, row'.one uid now ≤ row.one uid now ∧ row'.bytes uid now ≤ row.bytes uid now

variable {row : Row} {now : ℕ}

theorem Row.lighter_of_counts {row' : Row} (hsize : row'.total_size = row.total_size)
    (h : ∀ uid, row'.counts uid now = true → row.counts uid now = true) : row'.Lighter row now := by
  intro uid
  unfold Row.one Row.bytes
  by_cases h' : row'.counts uid now = true
  · rw [if_pos h', if_pos h', if_pos (h uid h'), if_pos (h uid h'), hsize]
    exact ⟨le_rfl, le_rfl⟩
  · rw [if_neg h', if_neg h']
    exact ⟨Nat.zero_le _, Nat.zero_le _⟩

variable {uid : Uid}

theorem Row.counts_iff : row.counts uid now = true ↔
    row.sender_uid = uid ∧ now < row.expires_at ∧ row.status ≠ .cancelled := by
  unfold Row.counts Row.expired
  simp only [Bool.and_eq_true, beq_iff_eq, Bool.not_eq_true', decide_eq_false_iff_not, not_le,
    bne_iff_ne, and_assoc]

open Row (one bytes counts_iff)

/-- The totals of a sender do not grow from one database to another. -/
def Shrinks (db db' : Db) (now : ℕ) (uid : Uid) : Prop :=
  db'.files.total (Row.one uid now) ≤ db.files.total (Row.one uid now) ∧
    db'.files.total (Row.bytes uid now) ≤ db.files.total (Row.bytes uid now)

theorem Shrinks.refl (db : Db) (now : ℕ) (uid : Uid) : Shrinks db db now uid := ⟨le_rfl, le_rfl⟩

variable {db : Db}

theorem Shrinks.trans {db' db'' : Db} (h : Shrinks db db' now uid) (h' : Shrinks db' db'' now uid) :
    Shrinks db db'' now uid :=
  ⟨h'.1.trans h.1, h'.2.trans h.2⟩

theorem shrinks_setFile {id : Id} {row' : Row}
    (h : ∀ row, db.files.get id = some row → row'.Lighter row now)
    (uid : Uid) : Shrinks db (Write.apply db (.setFile id row')) now uid :=
  ⟨Table.total_update_le _ _ _ _ fun row hrow => (h row hrow uid).1,
    Table.total_update_le _ _ _ _ fun row hrow => (h row hrow uid).2⟩

theorem shrinks_deleteFile (db : Db) (id : Id) (now : ℕ) (uid : Uid) :
    Shrinks db (Write.apply db (.deleteFile id)) now uid :=
  ⟨Table.total_erase_le _ _ _, Table.total_erase_le _ _ _⟩

theorem shrinks_insertFile {id : Id} (h : row.sender_uid ≠ uid) :
    Shrinks db (Write.apply db (.insertFile id row)) now uid := by
  have hcounts : ¬ row.counts uid now = true := fun hc => h (counts_iff.mp hc).1
  have hone : row.one uid now = 0 := if_neg hcounts
  have hbytes : row.bytes uid now = 0 := if_neg hcounts
  have h₁ := db.files.total_insert_le id row (one uid now)
  have h₂ := db.files.total_insert_le id row (bytes uid now)
  rw [hone] at h₁
  rw [hbytes] at h₂
  exact ⟨h₁, h₂⟩

/-! ## The invariant -/

/-- The row of a file a write is about. -/
def Write.file : Write → Option Id
  | .insertFile id _ | .setFile id _ | .deleteFile id => some id
  | _ => none

def Write.Removes : Write → Prop
  | .deleteFile _ | .deleteOutbox _ => True
  | _ => False

/-- The usage of a sender is at most what a worker has read. -/
def AtMost (s : Shared) (uid : Uid) (usage : ℕ × ℕ) : Prop :=
  s.db.files.total (Row.one uid s.now) ≤ usage.1 ∧ s.db.files.total (Row.bytes uid s.now) ≤ usage.2

def Publishes (s : Shared) (t : ℕ) (id : Id) : Prop :=
  ∃ row e ws, s.db.files.get id = some row ∧ row.status = .uploading ∧
    s.tx t = some (.setFile id { row with status := .available, expires_at := e } :: ws) ∧
    ∀ w ∈ ws, w.file = none

def Removing (s : Shared) (t : ℕ) : Prop := ∃ ws, s.tx t = some ws ∧ ∀ w ∈ ws, w.Removes

/-- What a worker's transaction stands for. -/
def Hold.Holds (s : Shared) (t : ℕ) : Hold → Prop
  | .free => s.tx t = none
  | .opened => s.tx t = some []
  | .user uid => s.tx t = some [] ∧ s.rowLocks (.user uid) = some t
  | .quota uid usage => s.tx t = some [] ∧ s.rowLocks (.user uid) = some t ∧ AtMost s uid usage
  | .inserted id usage new => (∃ now, s.tx t = some [.insertFile id (new.row now)]) ∧
      s.rowLocks (.user new.sender_uid) = some t ∧ AtMost s new.sender_uid usage ∧
      usage.1 < MaxFiles ∧ usage.2 + new.total_size ≤ MaxBytes
  | .publishing id | .published id => Publishes s t id
  | .condemned _ | .unposted _ | .removed _ => Removing s t
  | .spoilt => True

structure Kept (s : Shared) (g : ℕ → Option Hold) : Prop where
  within : ∀ uid, AtMost s uid (MaxFiles, MaxBytes)
  cancelled : ∀ id row, s.db.files.get id = some row → row.status = .cancelled →
    row.expires_at ≤ s.now
  locks : ∀ t ws, s.tx t = some ws → ∀ w ∈ ws, ∀ id, w.file = some id →
    s.rowLocks (.file id) = some t
  holds : ∀ t m, g t = some m → m.Holds s t
  resting : ∀ t, g t = none → s.tx t = none

section Steps

variable {s s' : Shared} {g : ℕ → Option Hold} {t : ℕ} {m m' : Hold}

variable {uid : Uid} {usage : ℕ × ℕ}

theorem AtMost.shrinks (h : AtMost s uid usage) (hnow : s'.now = s.now)
    (hs : Shrinks s.db s'.db s.now uid) :
    AtMost s' uid usage := by
  unfold AtMost
  rw [hnow]
  exact ⟨hs.1.trans h.1, hs.2.trans h.2⟩

/-- What a worker knows survives the effects of the others: they do not write rows it holds, and the
usage of a user whose row it holds does not grow. -/
theorem Hold.Holds.frame {t' : ℕ} (h : m.Holds s t') (hk : Kept s g) (hnow : s'.now = s.now)
    (htx : s'.tx t' = s.tx t') (hrows : ∀ l, s.rowLocks l = some t' → s'.rowLocks l = some t')
    (hshrinks : ∀ uid, s.rowLocks (.user uid) = some t' → Shrinks s.db s'.db s.now uid)
    (hfiles : ∀ id, s.rowLocks (.file id) = some t' → s'.db.files.get id = s.db.files.get id) :
    m.Holds s' t' := by
  have hpublishes : ∀ id, Publishes s t' id → Publishes s' t' id := by
    rintro id ⟨row, e, ws, hrow, hstatus, hpending, hws⟩
    have hlock := hk.locks t' _ hpending _ mem_cons_self id rfl
    exact ⟨row, e, ws, (hfiles id hlock).trans hrow, hstatus, htx.trans hpending, hws⟩
  have hremoving : Removing s t' → Removing s' t' := by
    rintro ⟨ws, h₁, h₂⟩
    exact ⟨ws, htx.trans h₁, h₂⟩
  cases m with
  | free | opened => exact htx.trans h
  | user uid => exact ⟨htx.trans h.1, hrows _ h.2⟩
  | quota uid usage =>
    obtain ⟨h₁, h₂, h₃⟩ := h
    exact ⟨htx.trans h₁, hrows _ h₂, h₃.shrinks hnow (hshrinks uid h₂)⟩
  | inserted id usage new =>
    obtain ⟨⟨now, h₁⟩, h₂, h₃, h₄⟩ := h
    exact ⟨⟨now, htx.trans h₁⟩, hrows _ h₂, h₃.shrinks hnow (hshrinks _ h₂), h₄⟩
  | publishing id | published id => exact hpublishes id h
  | condemned id | unposted id | removed id => exact hremoving h
  | spoilt => trivial

theorem Kept.step (h : Kept s g) {new : Option Hold} (hnow : s'.now = s.now)
    (hwithin : ∀ uid, AtMost s' uid (MaxFiles, MaxBytes))
    (hcancelled : ∀ id row, s'.db.files.get id = some row → row.status = .cancelled →
      row.expires_at ≤ s.now)
    (htx : ∀ t', t' ≠ t → s'.tx t' = s.tx t')
    (hrows : ∀ l t', t' ≠ t → s.rowLocks l = some t' → s'.rowLocks l = some t')
    (hshrinks : ∀ uid t', t' ≠ t → s.rowLocks (.user uid) = some t' → Shrinks s.db s'.db s.now uid)
    (hfiles : ∀ id t', t' ≠ t → s.rowLocks (.file id) = some t' → s'.db.files.get id =
      s.db.files.get id)
    (hlocks : ∀ ws, s'.tx t = some ws → ∀ w ∈ ws, ∀ id, w.file = some id → s'.rowLocks (.file id) =
      some t)
    (hnew : (new = none ∧ s'.tx t = none) ∨ ∃ m', new = some m' ∧ m'.Holds s' t) :
    Kept s' (update g t new) where
  within := hwithin
  cancelled := by
    rw [hnow]
    exact hcancelled
  locks t' ws hws := by
    by_cases heq : t' = t
    · subst heq
      exact hlocks ws hws
    · rw [htx t' heq] at hws
      exact fun w hw id hid => hrows _ t' heq (h.locks t' ws hws w hw id hid)
  holds t' m₁ hm := by
    rcases update_cases hm with ⟨rfl, hnew⟩ | ⟨heq, hm⟩
    · rcases hnew with ⟨rfl, -⟩ | ⟨m', rfl, hm'⟩
      · cases hnew
      · cases hnew
        exact hm'
    · exact (h.holds t' m₁ hm).frame h hnow (htx t' heq) (fun l => hrows l t' heq)
        (fun uid => hshrinks uid t' heq) fun id => hfiles id t' heq
  resting t' hm := by
    rcases update_cases hm with ⟨rfl, hnew⟩ | ⟨heq, hm⟩
    · rcases hnew with ⟨-, htx⟩ | ⟨m', rfl, -⟩
      · exact htx
      · cases hnew
    · exact (htx t' heq).trans (h.resting t' hm)

theorem Kept.unseen (h : Kept s g) (hnow : s'.now = s.now) (hdb : s'.db = s.db) (htx : s'.tx = s.tx)
    (hrows : s'.rowLocks = s.rowLocks) : Kept s' g where
  within uid := (h.within uid).shrinks hnow (hdb ▸ .refl _ _ _)
  cancelled := by
    rw [hdb, hnow]
    exact h.cancelled
  locks := by
    rw [htx, hrows]
    exact h.locks
  holds t m hm := by
    refine (h.holds t m hm).frame h hnow (by rw [htx]) ?_ ?_ ?_
    · rw [hrows]
      exact fun _ hl => hl
    · rw [hdb]
      exact fun _ _ => .refl _ _ _
    · rw [hdb]
      exact fun _ _ => rfl
  resting := by
    rw [htx]
    exact h.resting

theorem Kept.knows (h : Kept s g) (hm' : m'.Holds s t) : Kept s (update g t (some m')) :=
  h.step rfl h.within h.cancelled (fun _ _ => rfl) (fun _ _ _ hl => hl)
    (fun _ _ _ _ => .refl _ _ _) (fun _ _ _ _ => rfl) (h.locks t) (Or.inr ⟨m', rfl, hm'⟩)

/-! ### Statements -/

variable {ws : List Write} {ls : List RowLock}

theorem Kept.pending (h : Kept s g) {pending : List Write} (htx : s.tx t = some pending)
    (hfree : ∀ l ∈ ls, s.Free t l) (hws : ∀ w ∈ ws, ∀ id, w.file = some id → .file id ∈ ls)
    (hm' : m'.Holds (s.write t ws ls) t) : Kept (s.write t ws ls) (update g t (some m')) := by
  obtain ⟨hpending, hdb⟩ := @write_opened s t ws ls pending htx
  have hrows : ∀ l, (s.write t ws ls).rowLocks l = if l ∈ ls then some t else s.rowLocks l :=
    write_rowLocks htx
  refine h.step write_now (fun uid => (h.within uid).shrinks write_now ?_) ?_
    (fun t' hne => Shared.write_tx hne) (fun l t' hne hl => ?_) ?_ ?_
      (fun ws' hws' w hw id hid => ?_)
    (Or.inr ⟨m', rfl, hm'⟩)
  · rw [hdb]
    exact .refl _ _ _
  · rw [hdb]
    exact h.cancelled
  · -- a row another worker holds is not among those the statement takes
    rw [hrows, if_neg fun hmem => ?_]
    · exact hl
    · rcases hfree l hmem with hnone | hmine
      · rw [hl] at hnone
        cases hnone
      · exact hne (Option.some.inj (hl.symm.trans hmine))
  · rw [hdb]
    exact fun _ _ _ _ => .refl _ _ _
  · rw [hdb]
    exact fun _ _ _ _ => rfl
  · rw [hpending] at hws'
    obtain rfl := Option.some.inj hws'
    rw [hrows]
    rcases mem_append.mp hw with hw | hw
    · rw [h.locks t pending htx w hw id hid, ite_self]
    · rw [if_pos (hws w hw id hid)]

theorem Hold.Holds.reads (h : m.Holds s t) (hk : Kept s g) : m.Holds (s.write t [] ls) t := by
  cases hcase : s.tx t with
  | none =>
    rw [write_auto hcase]
    exact h
  | some pending =>
    obtain ⟨hpending, hdb⟩ := @write_opened s t [] ls pending hcase
    rw [append_nil] at hpending
    refine h.frame hk write_now (hpending.trans hcase.symm) (fun l hl => ?_) ?_ ?_
    · rw [write_rowLocks hcase, hl, ite_self]
    · rw [hdb]
      exact fun _ _ => .refl _ _ _
    · rw [hdb]
      exact fun _ _ => rfl

theorem Kept.reads (h : Kept s g) (hfree : ∀ l ∈ ls, s.Free t l)
    (hm' : m'.Holds (s.write t [] ls) t) :
    Kept (s.write t [] ls) (update g t (some m')) := by
  cases hcase : s.tx t with
  | none =>
    rw [write_auto hcase] at hm' ⊢
    exact h.knows hm'
  | some pending => exact h.pending hcase hfree nofun hm'

variable {db : Db} {id : Id} {n : ℕ}

theorem updateWhere_cases {p : Row → Bool} {f : Row → Row} (h : updateWhere db id p f = (n, ws)) :
    (n = 0 ∧ ws = []) ∨ ∃ row, db.files.get id = some row ∧ p row = true ∧ n = 1 ∧ ws =
    [.setFile id (f row)] := by
  unfold updateWhere at h
  split at h
  · obtain ⟨rfl, rfl⟩ := Prod.mk.inj h
    exact Or.inl ⟨rfl, rfl⟩
  · rename_i row hfound
    obtain ⟨hget, hp⟩ := Option.filter_eq_some_iff.mp hfound
    obtain ⟨rfl, rfl⟩ := Prod.mk.inj h
    exact Or.inr ⟨row, hget, hp, rfl, rfl⟩

theorem Kept.autocommit (h : Kept s g) (hm : g t = some .free) {p : Row → Bool} {f : Row → Row}
    (hst : updateWhere (s.view t) id p f = (n, ws)) (hfree : s.Free t (.file id))
    (hlighter : ∀ row, s.db.files.get id = some row → (f row).Lighter row s.now)
    (hcancelled : ∀ row, s.db.files.get id = some row → (f row).status = .cancelled →
      (f row).expires_at ≤ s.now) :
    Kept (s.write t ws [.file id]) (update g t (some .free)) := by
  have htx : s.tx t = none := h.holds t .free hm
  rw [Shared.view_auto htx] at hst
  rcases updateWhere_cases hst with ⟨-, rfl⟩ | ⟨row, hrow, -, -, rfl⟩
  · exact h.reads (fun l hl => mem_singleton.mp hl ▸ hfree) ((h.holds t .free hm).reads h)
  · have hshrinks : ∀ uid, Shrinks s.db (Write.apply s.db (.setFile id (f row))) s.now uid :=
      shrinks_setFile fun row' hrow' => by
        rw [hrow] at hrow'
        obtain rfl := Option.some.inj hrow'
        exact hlighter row hrow
    have hget : ∀ id', (Write.apply s.db (.setFile id (f row))).files.get id' =
        if id' = id then (s.db.files.get id').map fun _ => f row else s.db.files.get id' :=
      s.db.files.get_update id _
    rw [write_auto htx]
    refine h.step rfl (fun uid => (h.within uid).shrinks rfl (hshrinks uid))
      (fun id' row' hrow' hc => ?_)
      (fun _ _ => rfl) (fun _ _ _ hl => hl) (fun uid _ _ _ => hshrinks uid)
        (fun id' t' hne hl => ?_)
      (h.locks t) (Or.inr ⟨_, rfl, htx⟩)
    · rw [foldl_cons, foldl_nil, hget] at hrow'
      split at hrow'
      · rename_i heq
        rw [heq, hrow] at hrow'
        obtain rfl := Option.some.inj hrow'
        exact hcancelled row hrow hc
      · exact h.cancelled id' row' hrow' hc
    · show (Write.apply s.db (.setFile id (f row))).files.get id' = s.db.files.get id'
      rw [hget, if_neg]
      rintro rfl
      rcases hfree with hnone | hmine
      · rw [hl] at hnone
        cases hnone
      · exact hne (Option.some.inj (hl.symm.trans hmine))

variable {e : Call}

/-- A call that throws and has done nothing leaves the worker with what it knows, or spoilt. -/
theorem Hold.Holds.refused (h : m.Holds s t) (hallow : txRules.allow m e) (hsure : ¬ e.Sure) :
    (txRules.next m e none).Holds s t := by
  cases e with
  | commit | publish id | insertOutbox id event | deleteOutbox id | deleteFile id => trivial
  | insertFile id new => cases m <;> trivial
  | rollback =>
    show Hold.Holds s t (if m = .free then .free else .spoilt)
    split
    · rename_i hfree
      rw [← hfree]
      exact h
    · trivial
  | returnConnection => exact absurd trivial hsure
  | _ => cases m <;> exact h

theorem Kept.removes (h : Kept s g) (hold : Removing s t) (w : Write) (hw : w.Removes)
    (hfree : ∀ l ∈ ls, s.Free t l) (hls : ∀ id, w.file = some id → .file id ∈ ls)
    (hm' : Removing (s.write t [w] ls) t → m'.Holds (s.write t [w] ls) t) :
    Kept (s.write t [w] ls) (update g t (some m')) := by
  obtain ⟨ws, htx, hws⟩ := hold
  refine h.pending htx hfree (fun w' hw' => ?_)
    (hm' ⟨ws ++ [w], (@write_opened s t [w] ls ws htx).1, fun w' hw' => ?_⟩)
  · obtain rfl := mem_singleton.mp hw'
    exact hls
  · rcases mem_append.mp hw' with hw' | hw'
    · exact hws w' hw'
    · exact mem_singleton.mp hw' ▸ hw

theorem Kept.selectQuota (h : Kept s g) (hm : g t = some (.user uid)) :
    Kept (s.write t [] []) (update g t (some (.quota uid (quotaUsage (s.view t) uid s.now)))) := by
  have hold : s.tx t = some [] ∧ s.rowLocks (.user uid) = some t := h.holds t _ hm
  have hview : s.view t = s.db := by
    unfold Shared.view
    rw [hold.1]
    rfl
  have hquota : (Hold.quota uid (quotaUsage (s.view t) uid s.now)).Holds s t := by
    refine ⟨hold.1, hold.2, ?_⟩
    rw [hview, quotaUsage_eq]
    exact ⟨le_rfl, le_rfl⟩
  exact h.reads nofun (hquota.reads h)

theorem Kept.insertFile (h : Kept s g) {new : NewFile}
    (hm : g t = some (.quota new.sender_uid usage))
    (hroom : usage.1 < MaxFiles) (hbytes : usage.2 + new.total_size ≤ MaxBytes)
    (hfree : s.Free t (.file id)) :
    Kept (s.write t [.insertFile id (new.row s.now)] [.file id])
    (update g t (some (.inserted id usage new))) := by
  obtain ⟨htx, hlock, hmost⟩ := h.holds t _ hm
  obtain ⟨hpending, hdb⟩ :=
    @write_opened s t [.insertFile id (new.row s.now)] [.file id] [] htx
  refine h.pending htx (fun l hl => mem_singleton.mp hl ▸ hfree) (fun w hw id' hid => ?_)
    ⟨⟨s.now, hpending⟩, ?_, ?_, hroom, hbytes⟩
  · obtain rfl := mem_singleton.mp hw
    exact mem_singleton.mpr (congrArg RowLock.file (Option.some.inj hid).symm)
  · rw [write_rowLocks htx, hlock, ite_self]
  · refine hmost.shrinks write_now ?_
    rw [hdb]
    exact .refl _ _ _

theorem Kept.publish (h : Kept s g) (hm : g t = some .opened)
    (hst :
      updateWhere (s.view t) id (fun row => row.status == .uploading)
        (fun row => { row with status := .available, expires_at := s.now + 7 * Day }) = (n, ws))
    (hfree : s.Free t (.file id))
      (hm' : m' = .spoilt ∨ m' = txRules.next .opened (.publish id) (some n)) :
    Kept (s.write t ws [.file id]) (update g t (some m')) := by
  have htx : s.tx t = some [] := h.holds t .opened hm
  have hview : s.view t = s.db := by
    unfold Shared.view
    rw [htx]
    rfl
  have hfree' : ∀ l ∈ [RowLock.file id], s.Free t l := fun l hl => mem_singleton.mp hl ▸ hfree
  rw [hview] at hst
  rcases updateWhere_cases hst with ⟨rfl, rfl⟩ | ⟨row, hrow, hstatus, rfl, rfl⟩
  · refine h.reads hfree' ?_
    rcases hm' with rfl | rfl
    · trivial
    · exact (h.holds t .opened hm).reads h
  · obtain ⟨hpending, hdb⟩ := @write_opened s t
      [.setFile id { row with status := .available, expires_at := s.now + 7 * Day }] [.file id]
        [] htx
    refine h.pending htx hfree' (fun w hw id' hid => ?_) ?_
    · obtain rfl := mem_singleton.mp hw
      exact mem_singleton.mpr (congrArg RowLock.file (Option.some.inj hid).symm)
    · rcases hm' with rfl | rfl
      · trivial
      · exact ⟨row, _, [], hdb ▸ hrow, eq_of_beq hstatus, hpending, nofun⟩

theorem Kept.insertOutbox (h : Kept s g) {key : EventKey} {event : Event}
    (hm : g t = some (.publishing id))
    (hfree : ∀ l ∈ ls, s.Free t l) :
    Kept (s.write t [.insertOutbox key event] ls) (update g t (some (.published id))) := by
  obtain ⟨row, e, ws, hrow, hstatus, htx, hws⟩ := h.holds t _ hm
  obtain ⟨hpending, hdb⟩ := @write_opened s t [.insertOutbox key event] ls _ htx
  refine h.pending htx hfree (fun w hw id₁ hid => ?_)
    ⟨row, e, ws ++ [Write.insertOutbox key event], hdb ▸ hrow, hstatus, hpending, fun w hw => ?_⟩
  · obtain rfl := mem_singleton.mp hw
    cases hid
  · rcases mem_append.mp hw with hw | hw
    · exact hws w hw
    · obtain rfl := mem_singleton.mp hw
      rfl

theorem statement_plain {dir : Directory} {now : ℕ} {v : e.Value} (he : e.Plain)
    (h : statement dir now db e = some (v, ws, ls)) : ws = [] := by
  cases e <;> first | exact he.elim | (cases h <;> rfl)

/-- **Statements.** A statement that takes effect, its reply delivered or lost. -/
theorem Kept.sql (h : Kept s g) (hm : g t = some m) {v : e.Value} (hallow : txRules.allow m e)
    (hst : statement s.directory s.now (s.view t) e = some (v, ws, ls))
    (hfree : ∀ l ∈ ls, s.Free t l)
    {r : e.Answer} (hr : r = some v ∨ r = none) :
    Kept (s.write t ws ls) (update g t (some (txRules.next m e r))) := by
  have hold := h.holds t m hm
  have hreads : Kept (s.write t [] ls) (update g t (some m)) :=
    h.reads hfree (hold.reads h)
  have hplain : e.Plain → Kept (s.write t ws ls) (update g t (some (txRules.next m e r))) := by
    intro hp
    obtain rfl := statement_plain hp hst
    rw [hp.next]
    exact hreads
  cases e with
  | selectFile _ | selectPrior _ _ | selectFriend _ _ | selectExpired => exact hplain trivial
  | selectExpiredRow id =>
    obtain rfl : m = .opened := hallow
    obtain ⟨-, hst⟩ := Prod.mk.inj (Option.some.inj hst)
    cases hst
    rcases hr with rfl | rfl
    · cases v with
      | false => exact hreads
      | true =>
        refine h.reads hfree ⟨[], ?_, nofun⟩
        exact (@write_opened s t [] _ [] hold).1
    · exact hreads
  | lockUser uid =>
    obtain rfl : m = .opened := hallow
    obtain ⟨-, hst⟩ := Prod.mk.inj (Option.some.inj hst)
    cases hst
    rcases hr with rfl | rfl
    · cases v with
      | false => exact hreads
      | true =>
        refine h.reads hfree ⟨?_, ?_⟩
        · exact (@write_opened s t [] _ [] hold).1
        · rw [write_rowLocks hold, if_pos (mem_singleton_self _)]
    · exact hreads
  | selectQuota uid =>
    obtain rfl : m = .user uid := hallow
    cases hst
    rcases hr with rfl | rfl
    · exact h.selectQuota hm
    · exact hreads
  | insertFile id new =>
    obtain ⟨usage, rfl, hroom, hbytes⟩ := hallow
    obtain ⟨-, hst⟩ := Option.ite_none_right_eq_some.mp hst
    cases hst
    have hinserted := h.insertFile hm hroom hbytes (hfree _ (mem_singleton_self _))
    rcases hr with rfl | rfl
    · exact hinserted
    · have hspoilt := @Kept.knows _ _ t .spoilt hinserted trivial
      rwa [update_idem] at hspoilt
  | updateOffset id next confirmed =>
    obtain rfl : m = .free := hallow
    cases hst
    rw [show txRules.next .free (.updateOffset id next confirmed) r = Hold.free by cases r <;> rfl]
    refine h.autocommit hm rfl (hfree _ (mem_singleton_self _)) (fun row _ => ?_) ?_
    · exact Row.lighter_of_counts rfl fun _ hc => hc
    · exact h.cancelled id
  | publish id =>
    obtain rfl : m = .opened := hallow
    cases hst
    refine h.publish hm rfl (hfree _ (mem_singleton_self _)) ?_
    rcases hr with rfl | rfl
    · exact Or.inr rfl
    · exact Or.inl rfl
  | insertOutbox id event =>
    obtain rfl : m = .publishing id := hallow
    cases hst
    have hposted : Kept (s.write t [.insertOutbox (.file id) (.new (.file event) s.now)] _) _ :=
      h.insertOutbox hm hfree
    rcases hr with rfl | rfl
    · exact hposted
    · have hspoilt := @Kept.knows _ _ t .spoilt hposted trivial
      rwa [update_idem] at hspoilt
  | cancel id =>
    obtain rfl : m = .free := hallow
    cases hst
    rw [show txRules.next .free (.cancel id) r = Hold.free by cases r <;> rfl]
    refine h.autocommit hm rfl (hfree _ (mem_singleton_self _)) (fun row _ => ?_)
      fun _ _ _ => le_rfl
    exact Row.lighter_of_counts rfl fun _ hc => absurd rfl (counts_iff.mp hc).2.2
  | downloaded id =>
    obtain rfl : m = .free := hallow
    cases hst
    rw [show txRules.next .free (.downloaded id) r = Hold.free by cases r <;> rfl]
    refine h.autocommit hm rfl (hfree _ (mem_singleton_self _)) (fun row hrow => ?_)
      nofun
    -- a cancelled row is expired, and its expiry does not move on
    refine Row.lighter_of_counts rfl fun uid hc => ?_
    obtain ⟨hsender, hlive, -⟩ := counts_iff.mp hc
    have hlive' : s.now < row.expires_at := lt_of_lt_of_le hlive (min_le_left _ _)
    refine counts_iff.mpr ⟨hsender, hlive', fun hcancelled => ?_⟩
    exact absurd (h.cancelled id row hrow hcancelled) (Nat.not_le.mpr hlive')
  | deleteOutbox id =>
    obtain rfl : m = .condemned id := hallow
    cases hst
    refine h.removes hold (.deleteOutbox (.file id)) trivial hfree nofun fun hremoving => ?_
    rcases hr with rfl | rfl
    · exact hremoving
    · trivial
  | deleteFile id =>
    cases hst
    obtain rfl : m = .unposted id := hallow
    refine h.removes hold (.deleteFile id) trivial hfree (fun id' hid => ?_) fun hremoving => ?_
    · exact mem_singleton.mpr (congrArg RowLock.file (Option.some.inj hid).symm)
    · rcases hr with rfl | rfl
      · exact hremoving
      · trivial
  | _ => cases hst

/-! ### Transactions -/

theorem Kept.begin (h : Kept s g) (hm : g t = some .free) :
    Kept { s with tx := update s.tx t (some ((s.tx t).getD [])) }
      (update g t (some .opened)) := by
  have htx : s.tx t = none := h.holds t .free hm
  rw [htx]
  refine h.step rfl h.within h.cancelled (fun t' hne => update_of_ne hne _ _)
    (fun _ _ _ hl => hl) (fun _ _ _ _ => .refl _ _ _) (fun _ _ _ _ => rfl) (fun ws hws w hw => ?_)
    (Or.inr ⟨_, rfl, update_self ..⟩)
  have hnil : some [] = some ws := (update_self t (some []) s.tx).symm.trans hws
  obtain rfl := Option.some.inj hnil
  cases hw

/-- The end of a transaction: the totals of the senders do not grow, except where there is room. -/
theorem Kept.endTx (h : Kept s g) {new : Option Hold}
    (hwithin : ∀ uid, AtMost { s with db := db } uid (MaxFiles, MaxBytes))
    (hcancelled : ∀ id row, db.files.get id = some row → row.status = .cancelled →
      row.expires_at ≤ s.now)
    (hshrinks : ∀ uid t', t' ≠ t → s.rowLocks (.user uid) = some t' → Shrinks s.db db s.now uid)
    (hfiles : ∀ id, s.rowLocks (.file id) ≠ some t → db.files.get id = s.db.files.get id)
    (hnew : new = none ∨ new = some .free ∨ new = some .spoilt) :
      Kept (s.endTx t db) (update g t new) := by
  refine h.step rfl hwithin hcancelled (fun t' hne => update_of_ne hne _ _)
    (fun l t' hne hl => ?_) hshrinks (fun id t' hne hl => hfiles id fun hmine => ?_)
    (fun ws hws => ?_) ?_
  · show (if s.rowLocks l = some t then none else s.rowLocks l) = some t'
    rw [if_neg fun hmine => hne (Option.some.inj (hl.symm.trans hmine))]
    exact hl
  · exact hne (Option.some.inj (hl.symm.trans hmine))
  · have hnone : (s.endTx t db).tx t = none := update_self ..
    rw [hnone] at hws
    cases hws
  · rcases hnew with rfl | rfl | rfl
    · exact Or.inl ⟨rfl, update_self ..⟩
    · exact Or.inr ⟨_, rfl, update_self ..⟩
    · exact Or.inr ⟨_, rfl, trivial⟩

theorem Kept.undo (h : Kept s g) {new : Option Hold}
    (hnew : new = none ∨ new = some .free ∨ new = some .spoilt) :
    Kept (s.endTx t s.db) (update g t new) :=
  h.endTx h.within h.cancelled (fun _ _ _ _ => .refl _ _ _) (fun _ _ => rfl) hnew

theorem get_foldl (hws : ∀ w ∈ ws, w.file ≠ some id) (db : Db) :
    (ws.foldl Write.apply db).files.get id = db.files.get id := by
  induction ws generalizing db with
  | nil => rfl
  | cons w ws ih =>
    rw [foldl_cons, ih fun w' hw' => hws w' (mem_cons_of_mem _ hw')]
    have hw := hws w mem_cons_self
    cases w with
    | insertFile id' row =>
      show (db.files.insert id' row).get id = _
      rw [Table.get_insert_or, if_neg fun heq => hw (congrArg some heq.symm)]
    | setFile id' row =>
      show (db.files.update id' fun _ => row).get id = _
      rw [Table.get_update, if_neg fun heq => hw (congrArg some heq.symm)]
    | deleteFile id' =>
      show (db.files.erase id').get id = _
      rw [Table.get_erase, if_neg fun heq => hw (congrArg some heq.symm)]
    | _ => rfl

theorem files_foldl (hws : ∀ w ∈ ws, w.file = none) (db : Db) :
    (ws.foldl Write.apply db).files = db.files := by
  induction ws generalizing db with
  | nil => rfl
  | cons w ws ih =>
    rw [foldl_cons, ih fun w' hw' => hws w' (mem_cons_of_mem _ hw')]
    have hw := hws w mem_cons_self
    cases w with
    | insertFile id row | setFile id row | deleteFile id => cases hw
    | _ => rfl

theorem removes_foldl (hws : ∀ w ∈ ws, w.Removes) (db : Db) (now : ℕ) :
    (∀ uid, Shrinks db (ws.foldl Write.apply db) now uid) ∧
      ∀ id row, (ws.foldl Write.apply db).files.get id = some row → db.files.get id = some row := by
  induction ws generalizing db with
  | nil => exact ⟨fun _ => .refl _ _ _, fun _ _ hrow => hrow⟩
  | cons w ws ih =>
    obtain ⟨hrest, hrows⟩ := ih (fun w' hw' => hws w' (mem_cons_of_mem _ hw')) (w.apply db)
    have hw := hws w mem_cons_self
    cases w with
    | deleteFile id' =>
      refine ⟨fun uid => (shrinks_deleteFile db id' now uid).trans (hrest uid),
        fun id row hrow => ?_⟩
      have hget : (db.files.erase id').get id = some row := hrows id row hrow
      rw [Table.get_erase] at hget
      split at hget
      · cases hget
      · exact hget
    | deleteOutbox id' => exact ⟨hrest, hrows⟩
    | _ => exact hw.elim

theorem Kept.commits (h : Kept s g) {new : Option Hold} (htx : s.tx t = some ws)
    (hnew : new = none ∨ new = some .free ∨ new = some .spoilt)
    (hwithin : ∀ uid, Shrinks s.db (s.view t) s.now uid ∨ (s.rowLocks (.user uid) = some t ∧
      AtMost { s with db := s.view t } uid (MaxFiles, MaxBytes)))
    (hcancelled : ∀ id row, (s.view t).files.get id = some row → row.status = .cancelled →
      s.db.files.get id =
      some row) : Kept (s.endTx t (s.view t)) (update g t new) := by
  refine h.endTx (fun uid => ?_)
    (fun id row hrow hc => h.cancelled id row (hcancelled id row hrow hc) hc)
    (fun uid t' hne hl => ?_) (fun id hid => ?_) hnew
  · rcases hwithin uid with hshrinks | ⟨-, hmost⟩
    · exact (h.within uid).shrinks rfl hshrinks
    · exact hmost
  · rcases hwithin uid with hshrinks | ⟨hmine, -⟩
    · exact hshrinks
    · exact absurd (Option.some.inj (hl.symm.trans hmine)) hne
  · unfold Shared.view
    rw [htx]
    exact get_foldl (fun w hw hfile => hid (h.locks t ws htx w hw id hfile)) s.db

theorem Kept.commit_published (h : Kept s g) {new : Option Hold} (hm : g t = some (.published id))
    (hnew : new = none ∨ new = some .free ∨ new = some .spoilt)
    (hlive : ∀ row, s.db.files.get id = some row → s.now < row.expires_at) :
    Kept (s.endTx t (s.view t)) (update g t new) := by
  obtain ⟨row, e, ws, hrow, hstatus, htx, hws⟩ := h.holds t _ hm
  have hfiles : (s.view t).files = s.db.files.update id fun _ =>
      { row with status := .available, expires_at := e } := by
    unfold Shared.view
    rw [htx]
    exact files_foldl hws _
  refine h.commits htx hnew (fun uid => Or.inl ?_) fun id' row' hrow' hc => ?_
  · have hlighter : ∀ row', s.db.files.get id = some row' →
        Row.Lighter { row with status := .available, expires_at := e } row' s.now := by
      intro row' hrow'
      rw [hrow] at hrow'
      obtain rfl := Option.some.inj hrow'
      refine Row.lighter_of_counts rfl fun uid hc => counts_iff.mpr ?_
      refine ⟨(counts_iff.mp hc).1, hlive row hrow, ?_⟩
      rw [hstatus]
      nofun
    have hshrinks := shrinks_setFile hlighter uid
    unfold Shrinks at hshrinks ⊢
    rw [hfiles]
    exact hshrinks
  · rw [hfiles, Table.get_update] at hrow'
    split at hrow'
    · rename_i heq
      rw [heq, hrow] at hrow'
      obtain rfl := Option.some.inj hrow'
      cases hc
    · exact hrow'

theorem Kept.commit_inserted (h : Kept s g) {new' : Option Hold} {new : NewFile}
    (hm : g t = some (.inserted id usage new))
    (hnew : new' = none ∨ new' = some .free ∨ new' = some .spoilt) :
    Kept (s.endTx t (s.view t)) (update g t new') := by
  obtain ⟨⟨now, htx⟩, hlock, hmost, hroom, hbytes⟩ := h.holds t _ hm
  have hview : s.view t = Write.apply s.db (.insertFile id (new.row now)) := by
    unfold Shared.view
    rw [htx]
    rfl
  refine h.commits htx hnew (fun uid => ?_) fun id' row' hrow' hc => ?_
  · rw [hview]
    by_cases hsender : new.sender_uid = uid
    · subst hsender
      refine Or.inr ⟨hlock, ?_, ?_⟩
      · have hone : (new.row now).one new.sender_uid s.now ≤ 1 := by
          unfold one
          split <;> omega
        have hle := s.db.files.total_insert_le id (new.row now) (one new.sender_uid s.now)
        have husage := hmost.1
        show (s.db.files.insert id (new.row now)).total (one new.sender_uid s.now) ≤ MaxFiles
        omega
      · have hbytes' : (new.row now).bytes new.sender_uid s.now ≤ new.total_size := by
          unfold bytes
          split
          · exact le_rfl
          · exact Nat.zero_le _
        have hle := s.db.files.total_insert_le id (new.row now) (bytes new.sender_uid s.now)
        have husage := hmost.2
        show (s.db.files.insert id (new.row now)).total (bytes new.sender_uid s.now) ≤ MaxBytes
        omega
    · exact Or.inl (shrinks_insertFile hsender)
  · rw [hview] at hrow'
    have hget : (s.db.files.insert id (new.row now)).get id' = some row' := hrow'
    rw [Table.get_insert_or] at hget
    split at hget
    · rename_i heq
      subst heq
      cases hold : s.db.files.get id' with
      | none =>
        rw [hold] at hget
        obtain rfl := Option.some.inj hget
        cases hc
      | some row =>
        rw [hold] at hget
        exact hget
    · exact hget

/-- A publication is of a row that has not expired. -/
def Write.timely (s : Shared) : Write → Bool
  | .setFile id _ => (s.db.files.get id).all fun row => s.now < row.expires_at
  | _ => true

/-- The commit of a worker publishes no expired row. -/
def timelyNow (t : ℕ) (e : Call) (s : Shared) : Bool :=
  match e with
  | .commit => (s.tx t).all fun ws => ws.all (Write.timely s)
  | _ => true

theorem Kept.commit (h : Kept s g) {new : Option Hold} (hm : g t = some m)
    (hallow : txRules.allow m .commit)
    (htimely : timelyNow t .commit s = true)
    (hnew : new = none ∨ new = some .free ∨ new = some .spoilt) :
    Kept (s.endTx t (s.view t)) (update g t new) := by
  have hempty : s.tx t = some [] → Kept (s.endTx t (s.view t)) (update g t new) := by
    intro htx
    have hview : s.view t = s.db := by
      unfold Shared.view
      rw [htx]
      rfl
    rw [hview]
    exact h.undo hnew
  have hold := h.holds t m hm
  cases m with
  | free | publishing id | condemned id | unposted id | spoilt => exact hallow.elim
  | opened => exact hempty hold
  | user uid | quota uid usage => exact hempty hold.1
  | inserted id usage new => exact h.commit_inserted hm hnew
  | published id =>
    obtain ⟨row, e, ws, -, -, htx, -⟩ := hold
    simp only [timelyNow, htx, Option.all_some, all_eq_true] at htimely
    have hlive : (s.db.files.get id).all (fun row => s.now < row.expires_at) = true :=
      htimely _ mem_cons_self
    refine h.commit_published hm hnew fun row hrow => ?_
    rw [hrow] at hlive
    exact of_decide_eq_true hlive
  | removed id =>
    obtain ⟨ws, htx, hws⟩ := hold
    obtain ⟨hshrinks, hrows⟩ := removes_foldl hws s.db s.now
    have hview : s.view t = ws.foldl Write.apply s.db := by
      unfold Shared.view
      rw [htx]
      rfl
    refine h.commits htx hnew (fun uid => Or.inl ?_) fun id row hrow _ => ?_
    · rw [hview]
      exact hshrinks uid
    · rw [hview] at hrow
      exact hrows id row hrow

/-- **Effects.** Every effect the rules allow keeps the quota, if it is timely. -/
theorem Kept.exec {C : Store.Crypto} {master_key : Bytes} (h : Kept s g) (hm : g t = some m)
    {r : e.Answer}
    (hallow : txRules.allow m e) (hexec : Exec C master_key t e s r s')
    (htimely : timelyNow t e s = true) :
    Kept s' (update g t (some (txRules.next m e r))) := by
  have hplain : ∀ {s' : Shared}, s'.now = s.now → s'.db = s.db → s'.tx = s.tx →
      s'.rowLocks = s.rowLocks → Kept s' (update g t (some m)) :=
    fun hnow hdb htx hrows => (h.knows (h.holds t m hm)).unseen hnow hdb htx hrows
  cases hexec with
  | refused hsure => exact h.knows ((h.holds t m hm).refused hallow hsure)
  | sql hst hfree => exact h.sql hm hallow hst hfree (Or.inl rfl)
  | sqlLost hst hfree => exact h.sql hm hallow hst hfree (Or.inr rfl)
  | lock hfree | getConnection | uuid hid => exact hplain rfl rfl rfl rfl
  | @unlock _ id =>
    unfold Shared.unlock
    split <;> exact hplain rfl rfl rfl rfl
  | returnConnection => exact h.undo (Or.inr (Or.inl rfl))
  | begin =>
    obtain rfl : m = .free := hallow
    exact h.begin hm
  | @commit _ r =>
    refine h.commit hm hallow htimely ?_
    cases r with
    | none => exact Or.inr (Or.inr rfl)
    | some u => exact Or.inr (Or.inl rfl)
  | @rollback _ r =>
    refine h.undo (Or.inr ?_)
    cases r with
    | none =>
      show some (if m = .free then Hold.free else .spoilt) = some .free ∨
        some (if m = .free then Hold.free else .spoilt) = some .spoilt
      split
      · exact Or.inl rfl
      · exact Or.inr rfl
    | some u => exact Or.inl rfl
  | storeCreate | storeAppend | storeRead | storeSha256 | storeRemove =>
    rw [Call.Plain.next]
    exacts [hplain rfl rfl rfl rfl, trivial]

theorem AtMost.later (h : AtMost s uid usage) (hdb : s'.db = s.db) (hle : s.now ≤ s'.now) :
    AtMost s' uid usage := by
  have hcounts : ∀ row : Row, row.counts uid s'.now = true → row.counts uid s.now = true := by
    intro row hc
    obtain ⟨hsender, hlive, hstatus⟩ := counts_iff.mp hc
    exact counts_iff.mpr ⟨hsender, lt_of_le_of_lt hle hlive, hstatus⟩
  unfold AtMost
  rw [hdb]
  refine ⟨(Table.total_mono _ fun row => ?_).trans h.1,
    (Table.total_mono _ fun row => ?_).trans h.2⟩
  · unfold one
    split
    · rename_i hc
      rw [if_pos (hcounts row hc)]
    · exact Nat.zero_le _
  · unfold bytes
    split
    · rename_i hc
      rw [if_pos (hcounts row hc)]
    · exact Nat.zero_le _

theorem Kept.env (h : Kept s g) (henv : Env s s') : Kept s' g := by
  obtain ⟨now, directory, hle, rfl⟩ := henv
  refine ⟨fun uid => (h.within uid).later rfl hle, fun id row hrow hc =>
    (h.cancelled id row hrow hc).trans hle, h.locks, fun t m hm => ?_, h.resting⟩
  have hold := h.holds t m hm
  cases m with
  | quota uid usage => exact ⟨hold.1, hold.2.1, hold.2.2.later rfl hle⟩
  | inserted id usage new => exact ⟨hold.1, hold.2.1, hold.2.2.1.later rfl hle, hold.2.2.2⟩
  | _ => exact hold

end Steps

/-! ## Runs -/

section Runs

variable (C : Store.Crypto) (master_key : Bytes)

/-- The resource servers, with every publication committed before its row expires. -/
def timely : System ℕ Call Call.Answer (Except Failure Reply) Shared where
  init := Initial
  exec t e s r s' := Exec C master_key t e s r s' ∧ timelyNow t e s = true
  start _ _ p := ∃ req, p = handle req
  stop t _ s s' := s' = s.stopped t
  env := Env

theorem kept_inductive : Inductive (timely C master_key) txRules Kept where
  init s h := by
    obtain ⟨hdb, htx, -, -, -⟩ := h
    refine ⟨fun uid => ?_, fun id row hrow => ?_, fun t ws hws => ?_, nofun, fun t _ => htx t⟩
    · unfold AtMost
      rw [hdb]
      exact ⟨Nat.zero_le _, Nat.zero_le _⟩
    · rw [hdb] at hrow
      cases hrow
    · rw [htx] at hws
      cases hws
  env s s' g h henv := h.env henv
  start s g t p h hnone hstart := by
    obtain ⟨req, rfl⟩ := hstart
    refine ⟨.free, (tidy_handle req).weaken fun _ _ _ => trivial, ?_⟩
    exact h.knows (h.resting t hnone)
  call s s' g t m e r h hm hallow hexec := ⟨trivial, h.exec hm hallow hexec.1 hexec.2⟩
  stop s s' g t m p h hm _ hstop := by
    subst hstop
    exact (h.undo (Or.inl rfl)).unseen rfl rfl rfl rfl
  crash s s' g K h hcrash := hcrash.elim

/-- **The quota is kept.** In every state that runs of any number of workers on any number of
instances lead to, whatever requests they serve, with time passing between any two statements, and
with lost replies and stopped workers: the rows of a sender that have not expired and are not
cancelled number at most `MaxFiles`, and their sizes sum to at most `MaxBytes`, if every publication
is committed before the row it publishes has expired and transactions read as at `READ COMMITTED`.
-/
theorem quota_kept {c : Config ℕ Call Call.Answer (Except Failure Reply) Shared}
    (hc : Reachable (timely C master_key) c) (uid : Uid) :
    (quotaUsage c.shared.db uid c.shared.now).1 ≤ MaxFiles ∧
      (quotaUsage c.shared.db uid c.shared.now).2 ≤ MaxBytes := by
  obtain ⟨g, hkept, -⟩ := reachable_invariant (kept_inductive C master_key) hc
  rw [quotaUsage_eq]
  exact hkept.within uid

theorem serves_timely : Serves C master_key timelyNow (timely C master_key) :=
  ⟨fun _ _ _ _ _ hok h => ⟨h, hok⟩, fun _ _ req => ⟨req, rfl⟩, fun _ _ h => h⟩

end Runs

/-- User 1 creates two uploads and publishes the first. -/
theorem quota_kept_created : ∃ c, Reachable (timely Sample.crypto []) c ∧
    (c.shared.db.files.get (Sample.id 0)).any (fun row => row.status = .available) = true ∧
      (quotaUsage c.shared.db 1 c.shared.now).1 = 2 ∧
      (quotaUsage c.shared.db 1 c.shared.now).2 ≤ MaxBytes := by
  have hturns : (turns Sample.crypto [] timelyNow ⟨sampleStart, fun _ => none⟩ (List.flatten
      [Sample.creates 0 0, Sample.creates 1 0, [.wait 1, .start 20 (.complete 1 (Sample.id 0))],
        List.replicate 8 (.call 20 [])])).any (fun c =>
        (c.shared.db.files.get (Sample.id 0)).any (fun row => row.status = .available) &&
          decide ((quotaUsage c.shared.db 1 c.shared.now).1 = 2)) = true := by
    decide +kernel
  obtain ⟨c, hc, h⟩ := (Option.any_eq_true ..).mp hturns
  obtain ⟨hrow, husage⟩ := (Bool.and_eq_true ..).mp h
  have hreachable := (serves_timely Sample.crypto []).reachable (.init initial_sampleStart) hc
  exact ⟨c, hreachable, hrow, of_decide_eq_true husage,
    (quota_kept Sample.crypto [] hreachable 1).2⟩

/-! ### A publication that comes late -/

namespace Sample

/-- User 1 has 16 files, the first of them a second older than the others. A worker reads the row of
the first and hashes its file in the last second of its week; it publishes it when the week is over
and another upload was created in its place. -/
def late : List Turn :=
  List.flatten [creates 0 0, [.wait 1], (List.range 15).flatMap fun n => creates (n + 1) 0,
    [.wait (7 * Day - 1), .start 20 (.complete 1 (id 0))], List.replicate 4 (.call 20 []),
    [.wait (7 * Day)], creates 16 0,
    List.replicate 4 (.call 20 [])]

end Sample

theorem quota_exceeded : ∃ c, Reachable (server Sample.crypto []) c ∧
    (quotaUsage c.shared.db 1 c.shared.now).1 = MaxFiles + 1 := by
  have hturns :
    (turns Sample.crypto [] (fun _ _ _ => true) ⟨sampleStart, fun _ => none⟩ Sample.late).any
    (fun c =>
      decide ((quotaUsage c.shared.db 1 c.shared.now).1 = MaxFiles + 1)) = true := by
    decide +kernel
  obtain ⟨c, hc, h⟩ := (Option.any_eq_true ..).mp hturns
  exact ⟨c, serves_server.reachable (.init initial_sampleStart) hc, of_decide_eq_true h⟩

end DistributedChat.Resource
