import DistributedChat.Resource.Upload

/-!
# The invariant of the resource servers

A live row is backed by its file: the complete records hold what the row says was uploaded and at
most one chunk more, and a published file is complete and has the hash of its row.

The invariant says this of the rows, what each worker's phase stands for, and that the writes of an
open transaction are justified by the phase. A worker changes the row and the file of the id it has
locked and no other, so one lemma, `Consistent.step`, carries the invariant over every effect.
-/

namespace DistributedChat.Resource

open Lib Store Function

/-! ## Backed rows -/

/-- The file of an id holds what a row says. -/
structure Backed (C : Crypto) (master_key : Bytes) (d : Dir) (id : Id) (row : Row) : Prop where
  sized : row.Sized
  stored : ∃ chunks, Stored C master_key d id chunks ∧ row.uploaded_size ≤ chunks.flatten.length ∧
    chunks.flatten.length ≤ row.uploaded_size + PlainChunkBytes ∧
    chunks.flatten.length ≤ row.total_size ∧
    (row.status.Published → row.uploaded_size = row.total_size ∧
      C.hashSha256 chunks.flatten = row.sha256)

section Backed

variable {C : Crypto} {master_key : Bytes} {d d' : Dir} {id : Id} {row : Row} {p : Bytes}

theorem Backed.agree (h : Backed C master_key d id row) (ha : d.Agree d' id) :
    Backed C master_key d' id row := by
  obtain ⟨chunks, hstored, hrest⟩ := h.stored
  exact ⟨h.sized, chunks, hstored.agree ha, hrest⟩

theorem Backed.file_ne_none (h : Backed C master_key d id row) : d.files id ≠ none := by
  obtain ⟨chunks, ⟨-, -, -, pre, t, -, hfile⟩, -⟩ := h.stored
  rw [hfile]
  nofun

theorem toNat_offset {n : ℕ} (hsized : row.Sized) (hn : n ≤ row.total_size) :
    (UInt64.ofNat n).toNat = n := by
  have hbounded := hsized.bounded
  unfold MaxFileBytes at hbounded
  rw [UInt64.toNat_ofNat']
  exact Nat.mod_eq_of_lt (by omega)

theorem length_of_chunk {chunks : List Bytes} {i : ℕ} (hshape : WellShaped chunks)
    (hchunk : chunks[i]? = some p)
    (hle : chunks.flatten.length ≤ PlainChunkBytes * i + PlainChunkBytes) :
    chunks.flatten.length = PlainChunkBytes * i + p.length := by
  obtain ⟨hi, hget⟩ := List.getElem?_eq_some_iff.mp hchunk
  have hlast : chunks.length = i + 1 := by
    by_contra hne
    have hlt := hshape.offset_lt (show i + 1 < chunks.length by omega)
    rw [Nat.mul_add_one] at hlt
    omega
  have hfull := length_flatten_of_full (hshape.take hi)
  have hsplit : chunks = chunks.take i ++ [p] := by
    conv_lhs => rw [← List.take_append_drop i chunks, List.drop_eq_getElem_cons hi, hget,
      List.drop_of_length_le (Nat.le_of_eq hlast)]
  rw [List.length_take, Nat.min_eq_left (Nat.le_of_lt hi)] at hfull
  rw [hsplit, List.flatten_concat, List.length_append, hfull]

/-- **Append at the confirmed offset.** With any fault the row stays backed, and if the append
succeeds the row with the new offset is backed too. -/
theorem Backed.append (h : Backed C master_key d id row) (fault : Option ℕ)
    (hstatus : row.status = .uploading) (haligned : row.uploaded_size % PlainChunkBytes = 0)
    (hp : IsChunk p) (hend : row.uploaded_size + p.length ≤ row.total_size)
    (hfull : IsFull p ∨ row.uploaded_size + p.length = row.total_size) : Backed C master_key
        (Store.append C master_key fault id (UInt64.ofNat row.uploaded_size) p d).2 id row ∧
      ∀ v, (Store.append C master_key fault id (UInt64.ofNat row.uploaded_size) p d).1.toOption =
          some v → v.toNat = row.uploaded_size + p.length ∧ Backed C master_key
          (Store.append C master_key fault id (UInt64.ofNat row.uploaded_size) p d).2 id
          { row with uploaded_size := row.uploaded_size + p.length } := by
  obtain ⟨chunks, hstored, hlow, hhigh, htotal, -⟩ := h.stored
  have hoffset := toNat_offset h.sized h.sized.le
  have hunpublished : ¬ row.status.Published := by
    rw [hstatus]
    rintro (h | h) <;> cases h
  obtain ⟨i, hi⟩ : ∃ i, row.uploaded_size = PlainChunkBytes * i :=
    ⟨_, (Nat.mul_div_cancel' (Nat.dvd_of_mod_eq_zero haligned)).symm⟩
  have hindex : row.uploaded_size / PlainChunkBytes = i := by
    rw [hi, Nat.mul_div_cancel_left i (by decide)]
  obtain ⟨chunks', hstored', hchunks', hthere⟩ := hstored.append fault
    (show ValidChunk (UInt64.ofNat row.uploaded_size) p from
      ⟨hp.1, hp.2, by rw [hoffset]; exact haligned⟩)
  rw [hoffset, hindex] at hchunks' hthere
  have hple : p.length ≤ PlainChunkBytes := hp.2
  -- an append adds nothing, or the chunk behind full ones
  have hsame : chunks' = chunks ∨ chunks'.flatten.length = row.uploaded_size + p.length := by
    rcases hchunks' with heq | ⟨rfl, rfl, hall⟩
    · exact Or.inl heq
    · right
      rw [List.flatten_concat, List.length_append, length_flatten_of_full hall, hi]
  refine ⟨⟨h.sized, chunks', hstored', ?_⟩, fun v hv => ?_⟩
  · rcases hsame with rfl | hlen
    · exact ⟨hlow, hhigh, htotal, fun hpub => absurd hpub hunpublished⟩
    · exact ⟨by omega, by omega, by omega, fun hpub => absurd hpub hunpublished⟩
  · obtain ⟨rfl, hget⟩ := hthere v hv
    have hlen : chunks'.flatten.length = row.uploaded_size + p.length := by
      rcases hsame with rfl | hlen
      · rw [hi]
        exact length_of_chunk hstored.2.2.1 hget (by omega)
      · exact hlen
    refine ⟨?_, ⟨h.sized.bounded, hend, ?_⟩, chunks', hstored', ?_⟩
    · have hbounded := h.sized.bounded
      unfold MaxFileBytes at hbounded
      rw [UInt64.toNat_add, hoffset, UInt64.toNat_ofNat']
      omega
    · rcases hfull with hfull | hlast
      · left
        show (row.uploaded_size + p.length) % PlainChunkBytes = 0
        rw [show p.length = PlainChunkBytes from hfull, Nat.add_mod_right]
        exact haligned
      · exact Or.inr hlast
    · refine ⟨Nat.le_of_eq hlen.symm, ?_, hlen.trans_le hend, fun hpub => absurd hpub hunpublished⟩
      show chunks'.flatten.length ≤ row.uploaded_size + p.length + PlainChunkBytes
      omega

end Backed

/-! ## The invariant -/

section Invariant

variable (C : Crypto) (master_key : Bytes)

/-- What a phase stands for. -/
def PhaseHolds (s : Shared) : Phase → Prop
  | .idle => True
  | .locked _ => True
  | .checked id row => s.db.files.get id = some row ∧ Backed C master_key s.dir id row
  | .appended id row next => s.db.files.get id = some row ∧ Backed C master_key s.dir id row ∧
      Backed C master_key s.dir id { row with uploaded_size := next }
  | .hashed id row => s.db.files.get id = some row ∧
      Backed C master_key s.dir id { row with status := .available }
  | .created id => Stored C master_key s.dir id []
  | .condemned id => ∀ row, s.db.files.get id = some row → ¬ row.Live s.now

/-- The rows a transaction may leave in a phase. -/
def Product : Phase → Row → Prop
  | .created _, row =>
    ∃ (new : NewFile) (now : ℕ), new.total_size ≤ MaxFileBytes ∧ row = new.row now
  | .hashed _ row₀, row => ∃ e, row = { row₀ with status := .available, expires_at := e }
  | _, _ => False

/-- The writes a transaction may hold in a phase. -/
def Justified (phase : Phase) : Write → Prop
  | .insertFile id row => phase.lock = some id ∧ Product phase row
  | .setFile id row => phase.lock = some id ∧ Product phase row
  | .deleteFile id => phase = .condemned id
  | _ => True

def TxHolds (s : Shared) (t : ℕ) (m : Ghost) : Prop :=
  match m.tx with
  | .auto => s.tx t = none
  | .opened => ∃ ws, s.tx t = some ws ∧ ∀ w ∈ ws, Justified m.phase w
  | .unknown => True

/-- The invariant of the resource servers. -/
structure Consistent (s : Shared) (g : ℕ → Option Ghost) : Prop where
  locks : ∀ id t, s.locks id = some t ↔ ∃ m, g t = some m ∧ m.phase.lock = some id
  rows : ∀ id row, s.db.files.get id = some row → row.Live s.now → Backed C master_key s.dir id row
  phases : ∀ t m, g t = some m → PhaseHolds C master_key s m.phase
  txs : ∀ t m, g t = some m → TxHolds s t m
  resting : ∀ t, g t = none → s.tx t = none

end Invariant

section Frame

variable {C : Crypto} {master_key : Bytes} {s s' : Shared} {g : ℕ → Option Ghost} {t : ℕ}
  {m m' : Ghost}

/-- A phase depends on the row and the file of its id, and survives the passing of time. -/
theorem PhaseHolds.frame {p : Phase} (h : PhaseHolds C master_key s p) (hnow : s.now ≤ s'.now)
    (hsame : ∀ id, p.lock = some id → s'.db.files.get id = s.db.files.get id ∧
      s.dir.Agree s'.dir id) :
    PhaseHolds C master_key s' p := by
  cases p with
  | idle | locked id => trivial
  | checked id row | hashed id row =>
    obtain ⟨hrow, ha⟩ := hsame id rfl
    exact ⟨hrow.trans h.1, h.2.agree ha⟩
  | appended id row next =>
    obtain ⟨hrow, ha⟩ := hsame id rfl
    exact ⟨hrow.trans h.1, h.2.1.agree ha, h.2.2.agree ha⟩
  | created id => exact Stored.agree h (hsame id rfl).2
  | condemned id =>
    intro row hrow hlive
    rw [(hsame id rfl).1] at hrow
    exact h row hrow ⟨hlive.1, lt_of_le_of_lt hnow hlive.2⟩

theorem phaseHolds_forget (p : Phase) : PhaseHolds C master_key s p.forget := by
  cases p <;> trivial

theorem Consistent.exclusive (h : Consistent C master_key s g) {t' : ℕ} {m' : Ghost} {id : Id}
    (ht : g t = some m)
    (ht' : g t' = some m') (hlock : m.phase.lock = some id) (hlock' : m'.phase.lock = some id) :
    t' = t := by
  have h₁ := (h.locks id t).mpr ⟨m, ht, hlock⟩
  have h₂ := (h.locks id t').mpr ⟨m', ht', hlock'⟩
  exact Option.some.inj (h₂.symm.trans h₁)

/-- **One effect.** A worker that keeps its lock, changes nothing but the row and the file of the
id it has locked, and leaves them in order, keeps the invariant. -/
theorem Consistent.step (h : Consistent C master_key s g) (ht : g t = some m)
    (hnow : s'.now = s.now)
    (hlocks : s'.locks = s.locks) (hlock : m'.phase.lock = m.phase.lock)
    (hother : ∀ id, m.phase.lock ≠ some id → s'.db.files.get id = s.db.files.get id ∧
      s.dir.Agree s'.dir id)
    (hrow : ∀ id row, m.phase.lock = some id → s'.db.files.get id = some row → row.Live s.now →
      Backed C master_key s'.dir id row) (hphase : PhaseHolds C master_key s' m'.phase) (htx :
      TxHolds s' t m')
    (htxs : ∀ t', t' ≠ t → s'.tx t' = s.tx t') :
    Consistent C master_key s' (update g t (some m')) where
  locks id t' := by
    rw [hlocks, h.locks]
    by_cases heq : t' = t
    · subst heq
      rw [update_self, ht]
      simp only [Option.some.injEq, exists_eq_left', hlock]
    · rw [update_of_ne heq]
  rows id row hget hlive := by
    rw [hnow] at hlive
    by_cases hid : m.phase.lock = some id
    · exact hrow id row hid hget hlive
    · obtain ⟨hsame, ha⟩ := hother id hid
      exact (h.rows id row (hsame ▸ hget) hlive).agree ha
  phases := by
    refine forall_set hphase fun t' m₁ hne hm => ?_
    refine (h.phases t' m₁ hm).frame (Nat.le_of_eq hnow.symm) fun id hid =>
      hother id fun hmine => ?_
    exact hne (h.exclusive ht hm hmine hid)
  txs := by
    refine forall_set htx fun t' m₁ hne hm => ?_
    have hold := h.txs t' m₁ hm
    unfold TxHolds at hold ⊢
    rw [htxs t' hne]
    exact hold
  resting := forall_unset fun t' hne hm => (htxs t' hne).trans (h.resting t' hm)

end Frame

/-! ## Transactions -/

section Transactions

variable {C : Crypto} {master_key : Bytes} {s : Shared} {phase : Phase} {id : Id} {db : Db}

/-- A write of a phase that leaves no row is about events only, and any phase may hold it. -/
theorem Justified.of_idle {w : Write} (h : Justified .idle w) (phase : Phase) :
    Justified phase w := by
  cases w with
  | insertFile id row | setFile id row => exact absurd h.1 nofun
  | deleteFile id => exact absurd h nofun
  | _ => trivial

/-- The row of an id is the one it was, or the phase is about this id and the row its product. -/
def Settled (phase : Phase) (db db' : Db) (id : Id) : Prop :=
  db'.files.get id = db.files.get id ∨
    (phase.lock = some id ∧ ∀ row, db'.files.get id = some row → Product phase row)

theorem Justified.settled {w : Write} (h : Justified phase w) (db : Db) (id : Id) :
    Settled phase db (w.apply db) id := by
  cases w with
  | insertFile id' row =>
    obtain ⟨hlock, hproduct⟩ := h
    cases hget : db.files.get id' with
    | some old =>
      left
      show (db.files.insert id' row).get id = _
      unfold Table.insert
      rw [dif_neg (by rw [hget]; nofun)]
    | none =>
      by_cases heq : id = id'
      · subst heq
        refine Or.inr ⟨hlock, fun row' hrow' => ?_⟩
        have hrow : (db.files.insert id row).get id = some row' := hrow'
        rw [Table.get_insert hget, if_pos rfl] at hrow
        exact Option.some.inj hrow ▸ hproduct
      · left
        show (db.files.insert id' row).get id = _
        rw [Table.get_insert hget, if_neg heq]
  | setFile id' row =>
    obtain ⟨hlock, hproduct⟩ := h
    by_cases heq : id = id'
    · subst heq
      refine Or.inr ⟨hlock, fun row' hrow' => ?_⟩
      have hrow : (db.files.update id fun _ => row).get id = some row' := hrow'
      rw [Table.get_update, if_pos rfl] at hrow
      obtain ⟨old, -, rfl⟩ := Option.map_eq_some_iff.mp hrow
      exact hproduct
    · left
      show (db.files.update id' fun _ => row).get id = _
      rw [Table.get_update, if_neg heq]
  | deleteFile id' =>
    obtain rfl : phase = .condemned id' := h
    by_cases heq : id = id'
    · subst heq
      refine Or.inr ⟨rfl, fun row' hrow' => ?_⟩
      have hrow : (db.files.erase id).get id = some row' := hrow'
      rw [Table.get_erase, if_pos rfl] at hrow
      cases hrow
    · left
      show (db.files.erase id').get id = _
      rw [Table.get_erase, if_neg heq]
  | _ => exact Or.inl rfl

theorem settled_foldl {ws : List Write} (h : ∀ w ∈ ws, Justified phase w) (db : Db) (id : Id) :
    Settled phase db (ws.foldl Write.apply db) id := by
  induction ws using List.reverseRecOn with
  | nil => exact Or.inl rfl
  | append_singleton ws w ih =>
    have hws := ih fun w' hw' => h w' (List.mem_append_left _ hw')
    have hw := (h w (List.mem_append_right _ (List.mem_singleton_self w))).settled
      (ws.foldl Write.apply db) id
    rw [List.foldl_append, List.foldl_cons, List.foldl_nil]
    rcases hw with hw | hw
    · unfold Settled at hws ⊢
      rw [hw]
      exact hws
    · exact Or.inr hw

/-- In a phase without products a transaction sees the rows as they are, or misses them. -/
theorem Settled.get_eq {db' : Db} {row : Row} (h : Settled phase db db' id)
    (hnone : ∀ row, ¬ Product phase row)
    (hget : db'.files.get id = some row) : db.files.get id = some row := by
  rcases h with h | ⟨-, h⟩
  · exact h ▸ hget
  · exact absurd (h row hget) (hnone row)

theorem Product.backed {row : Row} (h : Product phase row) (hlock : phase.lock = some id)
    (hphase : PhaseHolds C master_key s phase) : Backed C master_key s.dir id row := by
  cases phase with
  | created id' =>
    obtain rfl := Option.some.inj hlock
    obtain ⟨new, now, hsize, rfl⟩ := h
    refine ⟨⟨hsize, Nat.zero_le _, Or.inl rfl⟩, [], hphase, Nat.zero_le _, Nat.zero_le _,
      Nat.zero_le _, ?_⟩
    rintro (h | h) <;> cases h
  | hashed id' row₀ =>
    obtain rfl := Option.some.inj hlock
    obtain ⟨e, rfl⟩ := h
    -- nothing in `Backed` depends on the expiry
    obtain ⟨⟨hbounded, hle, haligned⟩, hstored⟩ := hphase.2
    exact ⟨⟨hbounded, hle, haligned⟩, hstored⟩
  | idle | locked _ | checked _ _ | appended _ _ _ | condemned _ => exact h.elim

end Transactions

/-! ## Statements -/

section Statements

variable {C : Crypto} {master_key : Bytes} {s : Shared} {g : ℕ → Option Ghost} {t : ℕ}
  {m m' : Ghost} {ws : List Write} {ls : List RowLock}

theorem write_plain (hws : ∀ w ∈ ws, Justified .idle w) (id : Id) :
    (s.write t ws ls).db.files.get id = s.db.files.get id := by
  unfold Shared.write
  split
  · exact (settled_foldl hws s.db id).resolve_right fun h => by cases h.1
  · rfl

section

variable (h : Consistent C master_key s g) (ht : g t = some m)

include h ht

theorem Consistent.plain (hws : ∀ w ∈ ws, Justified .idle w) (hlock : m'.phase.lock = m.phase.lock)
    (hphase : PhaseHolds C master_key s m'.phase) (htx : m'.tx = m.tx)
    (hjust : m.tx = .opened → ∀ w, Justified m.phase w → Justified m'.phase w) :
    Consistent C master_key (s.write t ws ls) (update g t (some m')) := by
  refine h.step ht Shared.write_now Shared.write_locks hlock
    (fun id _ => ⟨write_plain hws id, ?_⟩) (fun id row _ hget hlive => ?_) ?_ ?_
    fun t' hne => Shared.write_tx hne
  · rw [Shared.write_dir]
    exact .refl _ _
  · rw [Shared.write_dir]
    rw [write_plain hws] at hget
    exact h.rows id row hget hlive
  · refine hphase.frame (Nat.le_of_eq Shared.write_now.symm) fun id _ => ⟨write_plain hws id, ?_⟩
    rw [Shared.write_dir]
    exact .refl _ _
  · have hold := h.txs t m ht
    unfold TxHolds at hold ⊢
    rw [htx]
    cases hcase : m.tx with
    | auto =>
      rw [hcase] at hold
      have hnone : s.tx t = none := hold
      rw [Shared.write_auto hnone]
      exact hnone
    | opened =>
      rw [hcase] at hold
      obtain ⟨pending, hpending, hall⟩ := hold
      refine ⟨_, (Shared.write_opened hpending).1, fun w hw => ?_⟩
      rcases List.mem_append.mp hw with hw | hw
      · exact hjust hcase w (hall w hw)
      · exact (hws w hw).of_idle _
    | unknown => trivial

theorem Consistent.pending (htx : m.tx = .opened) (hws : ∀ w ∈ ws, Justified m.phase w) :
    Consistent C master_key (s.write t ws ls) (update g t (some m)) := by
  have hold := h.txs t m ht
  unfold TxHolds at hold
  rw [htx] at hold
  obtain ⟨pending, hpending, hall⟩ := hold
  obtain ⟨hnew, hdb⟩ := @Shared.write_opened s t ws ls pending hpending
  have hsame : ∀ id, (s.write t ws ls).db.files.get id = s.db.files.get id ∧
      s.dir.Agree (s.write t ws ls).dir id := by
    intro id
    rw [hdb, Shared.write_dir]
    exact ⟨rfl, .refl _ _⟩
  refine h.step ht Shared.write_now Shared.write_locks rfl (fun id _ => hsame id)
    (fun id row _ hget hlive => ?_) ?_ ?_ fun t' hne => Shared.write_tx hne
  · rw [(hsame id).1] at hget
    exact (h.rows id row hget hlive).agree (hsame id).2
  · exact (h.phases t m ht).frame (Nat.le_of_eq Shared.write_now.symm) fun id _ => hsame id
  · unfold TxHolds
    rw [htx]
    refine ⟨_, hnew, fun w hw => ?_⟩
    rcases List.mem_append.mp hw with hw | hw
    · exact hall w hw
    · exact hws w hw

theorem Consistent.autocommit (htx : m.tx = .auto) (htx' : m'.tx = .auto) {id : Id} {row row' : Row}
    (hid : m.phase.lock = some id) (hlock : m'.phase.lock = some id)
    (hget : s.db.files.get id = some row)
    (hrow' : row'.Live s.now → Backed C master_key s.dir id row')
    (hphase :
      PhaseHolds C master_key
      { s with db := { s.db with files := s.db.files.update id fun _ => row' } } m'.phase) :
    Consistent C master_key (s.write t [.setFile id row'] ls) (update g t (some m')) := by
  have hnone : s.tx t = none := by
    have hold := h.txs t m ht
    unfold TxHolds at hold
    rw [htx] at hold
    exact hold
  rw [Shared.write_auto hnone]
  refine h.step ht rfl rfl (hlock.trans hid.symm) (fun id' hne => ⟨?_, .refl _ _⟩)
    (fun id' r hid' hr hlive => ?_) hphase ?_ fun _ _ => rfl
  · have hdiff : id' ≠ id := fun heq => hne (heq ▸ hid)
    show (s.db.files.update id fun _ => row').get id' = _
    rw [Table.get_update, if_neg hdiff]
  · obtain rfl : id = id' := Option.some.inj (hid.symm.trans hid')
    have hr' : (s.db.files.update id fun _ => row').get id = some r := hr
    rw [Table.get_update, if_pos rfl, hget, Option.map_some] at hr'
    obtain rfl := Option.some.inj hr'
    exact hrow' hlive
  · unfold TxHolds
    rw [htx']
    exact hnone

end

end Statements

end DistributedChat.Resource
