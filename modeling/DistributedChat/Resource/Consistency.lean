import DistributedChat.Resource.Invariant

/-!
# Rows and ciphertext agree

Every effect the discipline allows keeps the invariant, so it holds in every state the resource
servers can reach, whichever workers run, stop, lose replies or tear writes.
-/

namespace DistributedChat.Resource

open Lib Store Function

/-! ## Statements -/

section Effects

variable {C : Crypto} {master_key : Bytes} {s : Shared} {g : ℕ → Option Ghost} {t : ℕ}
  {m m' : Ghost}

variable {id : Id} {row : Row}

theorem justified_checked {w : Write} (h : Justified (.checked id row) w) : Justified .idle w := by
  cases w with
  | insertFile id' row' | setFile id' row' => exact h.2.elim
  | deleteFile id' => cases h
  | _ => trivial

theorem justified_locked {w : Write} (h : Justified (.locked id) w) : Justified .idle w := by
  cases w with
  | insertFile id' row' | setFile id' row' => exact h.2.elim
  | deleteFile id' => cases h
  | _ => trivial

theorem TxHolds.phase (h : TxHolds s t m) {p : Phase}
    (hjust : ∀ w, Justified m.phase w → Justified p w) : TxHolds s t ⟨p, m.tx⟩ := by
  unfold TxHolds at h ⊢
  cases hcase : m.tx with
  | auto =>
    rw [hcase] at h
    exact h
  | opened =>
    rw [hcase] at h
    obtain ⟨ws, hws, hall⟩ := h
    exact ⟨ws, hws, fun w hw => hjust w (hall w hw)⟩
  | unknown => trivial

theorem updateWhere_eq {db : Db} {q : Row → Bool} {f : Row → Row}
    (hget : db.files.get id = some row) :
    updateWhere db id q f = if q row then (1, [.setFile id (f row)]) else (0, []) := by
  unfold updateWhere
  rw [hget]
  by_cases hq : q row <;> simp [Option.filter, hq]

variable (h : Consistent C master_key s g) (ht : g t = some m)

include h ht

theorem Consistent.tx_auto (htx : m.tx = .auto) : s.tx t = none := by
  have hold := h.txs t m ht
  unfold TxHolds at hold
  rw [htx] at hold
  exact hold

theorem Consistent.tx_opened (htx : m.tx = .opened) :
    ∃ ws, s.tx t = some ws ∧ ∀ w ∈ ws, Justified m.phase w := by
  have hold := h.txs t m ht
  unfold TxHolds at hold
  rw [htx] at hold
  exact hold

theorem Consistent.view (htx : m.tx = .opened) (id : Id) : Settled m.phase s.db (s.view t) id := by
  obtain ⟨ws, hws, hall⟩ := h.tx_opened ht htx
  unfold Shared.view
  rw [hws]
  exact settled_foldl hall s.db id

theorem Consistent.relax (hphase : m'.phase = m.phase ∨ m'.phase = m.phase.forget)
    (htx : TxHolds s t m') :
    Consistent C master_key s (update g t (some m')) := by
  refine h.step ht rfl rfl ?_ (fun id _ => ⟨rfl, .refl _ _⟩)
    (fun id row _ hget hlive => h.rows id row hget hlive) ?_ htx fun _ _ => rfl
  · rcases hphase with hp | hp
    · rw [hp]
    · rw [hp, Phase.lock_forget]
  · rcases hphase with hp | hp
    · rw [hp]
      exact h.phases t m ht
    · rw [hp]
      exact phaseHolds_forget _

theorem Consistent.same : Consistent C master_key s (update g t (some m)) :=
  h.relax ht (Or.inl rfl) (h.txs t m ht)

variable {e : Call}

theorem Consistent.refused (hallow : Allow m e) (hsure : ¬ e.Sure) :
    Answers m e none ∧ Consistent C master_key s (update g t (some (Next m e none))) := by
  have htxs := h.txs t m ht
  cases e with
  | unlock id | returnConnection => exact absurd trivial hsure
  | commit => exact ⟨trivial, h.relax ht (Or.inr rfl) trivial⟩
  | rollback =>
    refine ⟨trivial, h.relax ht (Or.inl rfl) ?_⟩
    by_cases hauto : m.tx = .auto
    · rw [show Next m .rollback none = { m with tx := .auto } by simp only [Next, if_pos hauto]]
      exact h.tx_auto ht hauto
    · rw [show Next m .rollback none = { m with tx := .unknown } by simp only [Next, if_neg hauto]]
      trivial
  | updateOffset _ _ _ | cancel _ | downloaded _ =>
    refine ⟨trivial, h.relax ht (Or.inr rfl) ?_⟩
    show TxHolds s t ⟨m.phase.forget, m.tx⟩
    rw [hallow.1]
    exact h.tx_auto ht hallow.1
  | storeAppend id offset p =>
    obtain ⟨row, hphase, -⟩ := hallow
    refine ⟨nofun, h.relax ht (Or.inr rfl) (htxs.phase fun w hw => ?_)⟩
    rw [hphase] at hw
    exact (justified_checked hw).of_idle _
  | selectFile id => exact ⟨nofun, h.same ht⟩
  | _ => exact ⟨trivial, h.same ht⟩

variable {ls : List RowLock}

theorem Consistent.selectFile {v : Option (Row × Bool)}
    (hv : v = ((s.view t).files.get id).map fun row => (row, row.expired s.now)) :
    Answers m (.selectFile id) (some v) ∧ Consistent C master_key (s.write t [] ls)
      (update g t (some (Next m (.selectFile id) (some v)))) := by
  -- outside a transaction a row that is not expired is the committed one, and backed
  have hlive : ∀ row, v = some (row, false) → m.tx = .auto → row.status ≠ .cancelled →
      s.db.files.get id = some row ∧ Backed C master_key s.dir id row := by
    intro row hrow htx hcancelled
    rw [hv, Shared.view_auto (h.tx_auto ht htx)] at hrow
    obtain ⟨row', hget, hpair⟩ := Option.map_eq_some_iff.mp hrow
    obtain ⟨rfl, hexpired⟩ := Prod.mk.inj hpair
    refine ⟨hget, h.rows id row' hget ⟨hcancelled, ?_⟩⟩
    exact Nat.lt_of_not_le (of_decide_eq_false hexpired)
  have hsame : Consistent C master_key (s.write t [] ls) (update g t (some m)) :=
    h.plain ht nofun rfl (h.phases t m ht) rfl fun _ _ hw => hw
  refine ⟨fun row hrow _ htx hcancelled =>
    (hlive row (Option.some.inj hrow) htx hcancelled).2.sized, ?_⟩
  obtain ⟨phase, tx⟩ := m
  rcases v with _ | ⟨row, _ | _⟩
  · exact hsame
  · cases phase <;> cases tx <;> try exact hsame
    rename_i id'
    by_cases hc : id' = id ∧ row.status ≠ .cancelled
    · rw [show Next ⟨.locked id', .auto⟩ (.selectFile id) (some (some (row, false))) =
        ⟨.checked id row, .auto⟩ from if_pos hc]
      refine h.plain ht nofun ?_ (hlive row rfl rfl hc.2) rfl nofun
      rw [hc.1]
      rfl
    · rw [show Next ⟨.locked id', .auto⟩ (.selectFile id) (some (some (row, false))) =
        ⟨.locked id', .auto⟩ from if_neg hc]
      exact hsame
  · exact hsame

variable {ws : List Write}

theorem Consistent.updateOffset {next confirmed n : ℕ}
    (hallow : Allow m (.updateOffset id next confirmed))
    (hst :
      updateWhere (s.view t) id
        (fun row => row.uploaded_size == confirmed && row.status == .uploading && !row.expired
          s.now)
        (fun row => { row with uploaded_size := next }) = (n, ws))
    {r : Option ℕ} (hr : r = some n ∨ r = none) :
    Consistent C master_key (s.write t ws ls)
      (update g t (some (Next m (.updateOffset id next confirmed) r))) := by
  obtain ⟨htx, row, hphase, rfl⟩ := hallow
  obtain ⟨phase, tx⟩ := m
  obtain rfl : phase = .appended id row next := hphase
  obtain rfl : tx = .auto := htx
  obtain ⟨hget, hbacked, hbacked'⟩ := h.phases t _ ht
  rw [Shared.view_auto (h.tx_auto ht rfl), updateWhere_eq hget] at hst
  split_ifs at hst with hq
  · obtain ⟨rfl, rfl⟩ := Prod.mk.inj hst
    rcases hr with rfl | rfl
    · refine h.autocommit ht rfl rfl rfl rfl hget (fun _ => hbacked') ⟨?_, hbacked'⟩
      rw [Table.get_update, if_pos rfl, hget, Option.map_some]
    · exact h.autocommit ht rfl rfl rfl rfl hget (fun _ => hbacked') trivial
  · obtain ⟨rfl, rfl⟩ := Prod.mk.inj hst
    rcases hr with rfl | rfl <;> exact h.plain ht nofun rfl trivial rfl nofun

omit ht in
theorem Consistent.updateChecked (ht : g t = some ⟨.checked id row, .auto⟩)
    {f : Row → Row} (hst : (updateWhere (s.view t) id (fun _ => true) f).2 = ws)
    (hrow : (f row).Live s.now → Backed C master_key s.dir id (f row)) :
    Consistent C master_key (s.write t ws ls)
      (update g t (some ⟨.locked id, .auto⟩)) := by
  obtain ⟨hget, -⟩ := h.phases t _ ht
  rw [Shared.view_auto (h.tx_auto ht rfl), updateWhere_eq hget, if_pos rfl] at hst
  subst hst
  exact h.autocommit ht rfl rfl rfl rfl hget hrow trivial

theorem Consistent.publish {n : ℕ} (hallow : Allow m (.publish id))
    (hst :
      updateWhere (s.view t) id (fun row => row.status == .uploading)
        (fun row => { row with status := .available, expires_at := s.now + 7 * Day }) = (n, ws)) :
    Consistent C master_key (s.write t ws ls) (update g t (some m)) := by
  obtain ⟨htx, row, hphase⟩ := hallow
  refine h.pending ht htx fun w hw => ?_
  have hview := h.view ht htx id
  unfold updateWhere at hst
  rcases hfound : ((s.view t).files.get id).filter fun row => row.status == .uploading with _ | row'
  · rw [hfound] at hst
    obtain ⟨-, rfl⟩ := Prod.mk.inj hst
    cases hw
  · rw [hfound] at hst
    obtain ⟨-, rfl⟩ := Prod.mk.inj hst
    obtain rfl := List.mem_singleton.mp hw
    obtain ⟨hget, hstatus⟩ := Option.filter_eq_some_iff.mp hfound
    have hp := h.phases t m ht
    rw [hphase] at hp hview ⊢
    refine ⟨rfl, s.now + 7 * Day, ?_⟩
    rcases hview with hsame | ⟨-, hproduct⟩
    · rw [hsame, hp.1] at hget
      rw [Option.some.inj hget]
    · obtain ⟨e, rfl⟩ := hproduct row' hget
      rfl

/-- **Statements.** A statement that takes effect, its reply delivered or lost. -/
theorem Consistent.sql {v : e.Value} (hallow : Allow m e)
    (hst : statement s.directory s.now (s.view t) e = some (v, ws, ls)) {r : e.Answer}
    (hr : r = some v ∨ r = none) :
    Answers m e r ∧ Consistent C master_key (s.write t ws ls) (update g t (some (Next m e r))) := by
  have hsame : ∀ {ws' : List Write}, (∀ w ∈ ws', Justified .idle w) →
      Consistent C master_key (s.write t ws' ls) (update g t (some m)) := fun hws =>
    h.plain ht hws rfl (h.phases t m ht) rfl fun _ _ hw => hw
  cases e with
  | selectFile id =>
    cases hst
    rcases hr with rfl | rfl
    · exact h.selectFile ht rfl
    · exact ⟨nofun, hsame nofun⟩
  | lockUser _ | selectPrior _ _ | selectFriend _ _ | selectQuota _ | selectExpired =>
    cases hst
    rcases hr with rfl | rfl <;> exact ⟨trivial, hsame nofun⟩
  | insertOutbox _ _ | deleteOutbox _ =>
    cases hst
    rcases hr with rfl | rfl <;> exact ⟨trivial, hsame (by simp [Justified])⟩
  | insertFile id new =>
    obtain ⟨htx, hphase, hsize⟩ := hallow
    obtain ⟨-, hst⟩ := Option.ite_none_right_eq_some.mp hst
    cases hst
    have hpending := @Consistent.pending C master_key s g t m
      [.insertFile id (new.row s.now)] [.file id] h ht htx fun w hw => by
        obtain rfl := List.mem_singleton.mp hw
        rw [hphase]
        exact ⟨rfl, new, s.now, hsize, rfl⟩
    rcases hr with rfl | rfl <;> exact ⟨trivial, hpending⟩
  | deleteFile id =>
    obtain ⟨htx, hphase⟩ := hallow
    cases hst
    have hpending := @Consistent.pending C master_key s g t m [.deleteFile id] [.file id] h ht htx
      fun w hw => by
        obtain rfl := List.mem_singleton.mp hw
        exact hphase
    rcases hr with rfl | rfl <;> exact ⟨trivial, hpending⟩
  | updateOffset id next confirmed =>
    cases hst
    exact ⟨trivial, h.updateOffset ht hallow rfl hr⟩
  | publish id =>
    cases hst
    rcases hr with rfl | rfl <;> exact ⟨trivial, h.publish ht hallow rfl⟩
  | cancel id =>
    obtain ⟨htx, row, hphase⟩ := hallow
    cases hst
    obtain ⟨phase, tx⟩ := m
    cases hphase
    cases htx
    rcases hr with rfl | rfl <;>
      exact ⟨trivial, h.updateChecked ht rfl fun hlive => absurd rfl hlive.1⟩
  | downloaded id =>
    obtain ⟨htx, row, hphase, hpublished⟩ := hallow
    cases hst
    obtain ⟨phase, tx⟩ := m
    cases hphase
    cases htx
    obtain ⟨⟨hbounded, hle, haligned⟩, chunks, hstored, h₁, h₂, h₃, hhash⟩ := (h.phases t _ ht).2
    rcases hr with rfl | rfl <;> exact ⟨trivial, h.updateChecked ht rfl fun _ =>
      ⟨⟨hbounded, hle, haligned⟩, chunks, hstored, h₁, h₂, h₃, fun _ => hhash hpublished⟩⟩
  | selectExpiredRow id =>
    obtain ⟨htx, hphase⟩ := hallow
    obtain ⟨hv, hrest⟩ := Prod.mk.inj (Option.some.inj hst)
    cases hrest
    rcases hr with rfl | rfl
    · cases v with
      | false => exact ⟨trivial, hsame nofun⟩
      | true =>
        refine ⟨trivial, h.plain ht nofun ?_ ?_ rfl fun _ w hw => ?_⟩
        · rw [hphase]
          rfl
        · -- the row the transaction sees is the committed one: it is dead
          intro row hget hlive
          obtain ⟨row', hrow'⟩ := Option.isSome_iff_exists.mp hv
          obtain ⟨hget', hdead⟩ := Option.filter_eq_some_iff.mp hrow'
          have hview := h.view ht htx id
          rw [hphase] at hview
          have hrow := hview.get_eq (fun _ hp => hp) hget'
          obtain rfl := Option.some.inj (hget.symm.trans hrow)
          rcases Bool.or_eq_true_iff.mp hdead with hexpired | hcancelled
          · exact absurd (of_decide_eq_true hexpired) (Nat.not_le_of_lt hlive.2)
          · exact hlive.1 (beq_iff_eq.mp hcancelled)
        · rw [hphase] at hw
          exact (justified_locked hw).of_idle _
    · exact ⟨trivial, hsame nofun⟩
  | _ => cases hst

/-! ## The store -/

theorem Consistent.store {d' : Dir} (hlock : m'.phase.lock = m.phase.lock)
    (hother : ∀ id, m.phase.lock ≠ some id → s.dir.Agree d' id)
    (hrow : ∀ id row, m.phase.lock = some id → s.db.files.get id = some row → row.Live s.now →
      Backed C master_key d' id row) (hphase :
      PhaseHolds C master_key { s with dir := d' } m'.phase)
    (htx : m'.tx = m.tx) (hjust : ∀ w, Justified m.phase w → Justified m'.phase w) :
    Consistent C master_key { s with dir := d' } (update g t (some m')) := by
  refine h.step ht rfl rfl hlock (fun id hne => ⟨rfl, hother id hne⟩) hrow hphase ?_ fun _ _ => rfl
  obtain ⟨phase, tx⟩ := m'
  obtain rfl : tx = m.tx := htx
  exact (h.txs t m ht).phase hjust

theorem Consistent.storeCreate (hallow : Allow m (.storeCreate id)) (fault : Option ℕ)
    (pre : Prefix) :
    Consistent C master_key { s with dir := (Store.create fault id pre s.dir).2 }
      (update g t (some (Next m (.storeCreate id)
        (Store.create fault id pre s.dir).1.toOption))) := by
  obtain ⟨phase, tx⟩ := m
  obtain rfl : phase = .locked id := hallow
  have hother : ∀ id', (Phase.locked id).lock ≠ some id' →
      s.dir.Agree (Store.create fault id pre s.dir).2 id' := fun id' hne =>
    create_agree fault pre (Or.inl fun heq => hne (heq ▸ rfl))
  -- a live row has its file already, which a create leaves alone
  have hrow : ∀ id' row, (Phase.locked id).lock = some id' → s.db.files.get id' = some row →
      row.Live s.now → Backed C master_key (Store.create fault id pre s.dir).2 id' row := by
    intro id' row _ hget hlive
    have hbacked := h.rows id' row hget hlive
    exact hbacked.agree (create_agree fault pre (Or.inr hbacked.file_ne_none))
  rcases hr : (Store.create fault id pre s.dir).1.toOption with _ | ⟨⟩
  · exact h.store ht rfl hother hrow trivial rfl fun _ hw => hw
  · exact h.store ht rfl hother hrow (create_stored fault pre hr) rfl
      fun _ hw => (justified_locked hw).of_idle _

theorem Consistent.storeAppend {offset : ℕ} {p : Bytes}
    (hallow : Allow m (.storeAppend id offset p)) (fault : Option ℕ) :
    Answers m (.storeAppend id offset p)
        ((Store.append C master_key fault id (UInt64.ofNat offset) p s.dir).1.toOption.map
          UInt64.toNat) ∧
      Consistent C master_key
        { s with dir := (Store.append C master_key fault id (UInt64.ofNat offset) p s.dir).2 }
        (update g t (some (Next m (.storeAppend id offset p)
          ((Store.append C master_key fault id (UInt64.ofNat offset) p s.dir).1.toOption.map
            UInt64.toNat)))) := by
  obtain ⟨row, hphase, hstatus, rfl, haligned, hp, hend, hfull⟩ := hallow
  obtain ⟨phase, tx⟩ := m
  obtain rfl : phase = .checked id row := hphase
  obtain ⟨hget, hbacked⟩ := h.phases t _ ht
  obtain ⟨hkept, hnew⟩ := hbacked.append fault hstatus haligned hp hend hfull
  have hother : ∀ id', (Phase.checked id row).lock ≠ some id' → s.dir.Agree
      (Store.append C master_key fault id (UInt64.ofNat row.uploaded_size) p s.dir).2 id' :=
    fun id' hne => append_agree fault _ p fun heq => hne (heq ▸ rfl)
  have hrow : ∀ id' row', (Phase.checked id row).lock = some id' →
      s.db.files.get id' = some row' → row'.Live s.now → Backed C master_key
        (Store.append C master_key fault id (UInt64.ofNat row.uploaded_size) p s.dir).2 id'
          row' := by
    intro id' row' hid hget' _
    obtain rfl : id = id' := Option.some.inj hid
    obtain rfl := Option.some.inj (hget.symm.trans hget')
    exact hkept
  rcases hr : (Store.append C master_key fault id (UInt64.ofNat row.uploaded_size) p
    s.dir).1.toOption with _ | v
  · exact ⟨nofun, h.store ht rfl hother hrow trivial rfl
      fun _ hw => (justified_checked hw).of_idle _⟩
  · obtain ⟨hv, hnext⟩ := hnew v hr
    refine ⟨fun n hn => (Option.some.inj hn).symm.trans hv, ?_⟩
    refine h.store ht rfl hother hrow ⟨hget, hkept, ?_⟩ rfl
      fun _ hw => (justified_checked hw).of_idle _
    rw [hv]
    exact hnext

theorem Consistent.storeSha256 {total_size : ℕ} :
    Consistent C master_key s (update g t (some (Next m (.storeSha256 id total_size)
      (Store.sha256 C master_key s.dir id (UInt64.ofNat total_size)).toOption))) := by
  rcases hr : (Store.sha256 C master_key s.dir id (UInt64.ofNat total_size)).toOption with _ | hash
  · exact h.same ht
  obtain ⟨phase, tx⟩ := m
  cases phase <;> try exact h.same ht
  rename_i id' row
  by_cases hc : id' = id ∧ row.status = .uploading ∧ row.uploaded_size = row.total_size ∧
      total_size = row.total_size ∧ hash = row.sha256
  · rw [show Next ⟨.checked id' row, tx⟩ (.storeSha256 id total_size) (some hash) =
      ⟨.hashed id' row, tx⟩ from if_pos hc]
    obtain ⟨rfl, -, hall, rfl, rfl⟩ := hc
    obtain ⟨hget, hbacked⟩ := h.phases t _ ht
    obtain ⟨chunks, hstored, hlow, hhigh, htotal, -⟩ := hbacked.stored
    have hlen : chunks.flatten.length = row.total_size := by omega
    have hhash := hstored.sha256 ((toNat_offset hbacked.sized (Nat.le_refl _)).trans hlen.symm)
    rw [toOption_eq_some, hhash] at hr
    refine h.store ht rfl (fun _ _ => .refl _ _) (fun id row _ hg hl => h.rows id row hg hl)
      ⟨hget, { hbacked.sized with }, chunks, hstored,
        hlow, hhigh, htotal, fun _ => ⟨hall, Except.ok.inj hr⟩⟩ rfl
      fun _ hw => (justified_checked hw).of_idle _
  · rw [show Next ⟨.checked id' row, tx⟩ (.storeSha256 id total_size) (some hash) =
      ⟨.checked id' row, tx⟩ from if_neg hc]
    exact h.same ht

theorem Consistent.storeRemove (hallow : Allow m (.storeRemove id)) :
    Consistent C master_key { s with dir := (Store.remove id s.dir).2 }
      (update g t (some m)) := by
  obtain ⟨phase, tx⟩ := m
  obtain rfl : phase = .condemned id := hallow
  have hdead := h.phases t _ ht
  refine h.store ht rfl (fun id' hne => remove_agree fun heq => hne (heq ▸ rfl))
    (fun id' row hid hget hlive => ?_) hdead rfl fun _ hw => hw
  obtain rfl : id = id' := Option.some.inj hid
  exact absurd hlive (hdead row hget)

/-! ## The end of a transaction -/

theorem Consistent.endTx {db : Db} (hlock : m'.phase.lock = m.phase.lock)
    (hdb : ∀ id, Settled m.phase s.db db id)
    (hphase : PhaseHolds C master_key (s.endTx t db) m'.phase) (htx : m'.tx ≠ .opened) :
    Consistent C master_key (s.endTx t db) (update g t (some m')) := by
  refine h.step ht rfl rfl hlock (fun id hne => ⟨?_, .refl _ _⟩) (fun id row hid hget hlive => ?_)
    hphase ?_ fun t' hne => update_of_ne hne _ _
  · exact (hdb id).resolve_right fun hp => hne hp.1
  · have hget' : db.files.get id = some row := hget
    rcases hdb id with hsame | ⟨-, hproduct⟩
    · exact h.rows id row (hsame ▸ hget') hlive
    · have hbacked : Backed C master_key s.dir id row :=
        (hproduct row hget').backed hid (h.phases t m ht)
      exact hbacked
  · unfold TxHolds
    cases hcase : m'.tx with
    | auto => exact update_self ..
    | opened => exact absurd hcase htx
    | unknown => trivial

theorem Consistent.undo {tx : TxState} (htx : tx ≠ .opened) :
    Consistent C master_key (s.endTx t s.db) (update g t (some ⟨m.phase, tx⟩)) :=
  h.endTx ht rfl (fun _ => Or.inl rfl)
    ((h.phases t m ht).frame (Nat.le_refl _) fun _ _ => ⟨rfl, .refl _ _⟩) htx

/-! ## Locks -/

theorem Consistent.lock (hidle : m.phase = .idle) (hfree : s.locks id = none) :
    Consistent C master_key { s with locks := update s.locks id (some t) }
      (update g t (some ⟨.locked id, m.tx⟩)) where
  locks id' t' := by
    show update s.locks id (some t) id' = some t' ↔ _
    by_cases hid : id' = id
    · subst hid
      rw [update_self]
      by_cases heq : t' = t
      · subst heq
        rw [update_self]
        exact ⟨fun _ => ⟨_, rfl, rfl⟩, fun _ => rfl⟩
      · rw [update_of_ne heq, ← h.locks, hfree]
        exact ⟨fun he => absurd (Option.some.inj he).symm heq, nofun⟩
    · rw [update_of_ne hid, h.locks]
      by_cases heq : t' = t
      · subst heq
        rw [update_self, ht]
        constructor
        · rintro ⟨m₁, hm₁, hlock⟩
          rw [← Option.some.inj hm₁, hidle] at hlock
          cases hlock
        · rintro ⟨m₁, hm₁, hlock⟩
          rw [← Option.some.inj hm₁] at hlock
          exact absurd (Option.some.inj hlock).symm hid
      · rw [update_of_ne heq]
  rows := h.rows
  phases := forall_set trivial fun t' m₁ _ hm =>
    (h.phases t' m₁ hm).frame (Nat.le_refl _) fun _ _ => ⟨rfl, .refl _ _⟩
  txs := forall_set ((h.txs t m ht).phase fun w hw => (hidle ▸ hw : Justified .idle w).of_idle _)
    fun t' m₁ _ => h.txs t' m₁
  resting := forall_unset fun t' _ => h.resting t'

theorem Consistent.release {s' : Shared} {new : Option Ghost} (hnow : s'.now = s.now)
    (hdb : s'.db = s.db)
    (hdir : s'.dir = s.dir)
    (hlocks : s'.locks = fun id => if s.locks id = some t then none else s.locks id)
    (htxs : ∀ t', t' ≠ t → s'.tx t' = s.tx t')
    (hnew : (new = none ∧ s'.tx t = none) ∨ ∃ tx, new = some ⟨.idle, tx⟩ ∧
      TxHolds s' t ⟨.idle, tx⟩) :
    Consistent C master_key s' (update g t new) where
  locks id t' := by
    rw [hlocks]
    by_cases heq : t' = t
    · subst heq
      rw [update_self]
      refine ⟨fun hl => ?_, ?_⟩
      · simp only at hl
        split_ifs at hl with hmine
        exact absurd hl hmine
      · rintro ⟨m₁, hm₁, hlock⟩
        rcases hnew with ⟨rfl, -⟩ | ⟨tx, rfl, -⟩
        · cases hm₁
        · rw [← Option.some.inj hm₁] at hlock
          cases hlock
    · rw [update_of_ne heq, ← h.locks]
      simp only
      split_ifs with hmine
      · rw [hmine]
        exact ⟨nofun, fun he => absurd (Option.some.inj he).symm heq⟩
      · rfl
  rows id row hget hlive := by
    rw [hdb] at hget
    rw [hnow] at hlive
    rw [hdir]
    exact h.rows id row hget hlive
  phases t' m₁ hm := by
    rcases update_cases hm with ⟨rfl, hnew⟩ | ⟨heq, hm⟩
    · rcases hnew with ⟨rfl, -⟩ | ⟨tx, rfl, -⟩
      · cases hnew
      · rw [← Option.some.inj hnew]
        trivial
    · refine (h.phases t' m₁ hm).frame (Nat.le_of_eq hnow.symm) fun id _ => ?_
      rw [hdb, hdir]
      exact ⟨rfl, .refl _ _⟩
  txs t' m₁ hm := by
    rcases update_cases hm with ⟨rfl, hnew⟩ | ⟨heq, hm⟩
    · rcases hnew with ⟨rfl, -⟩ | ⟨tx, rfl, htx⟩
      · cases hnew
      · rw [← Option.some.inj hnew]
        exact htx
    · have hold := h.txs t' m₁ hm
      unfold TxHolds at hold ⊢
      rw [htxs t' heq]
      exact hold
  resting t' hm := by
    rcases update_cases hm with ⟨rfl, hnew⟩ | ⟨heq, hm⟩
    · rcases hnew with ⟨-, htx⟩ | ⟨tx, rfl, -⟩
      · exact htx
      · cases hnew
    · rw [htxs t' heq]
      exact h.resting t' hm

theorem Consistent.unlock (hid : m.phase.lock = some id) :
    Consistent C master_key (s.unlock t id)
      (update g t (some ⟨.idle, if m.tx = .opened then .unknown else m.tx⟩)) := by
  have hmine : s.locks id = some t := (h.locks id t).mpr ⟨m, ht, hid⟩
  have hs : s.unlock t id = { s with locks := update s.locks id none } := if_pos hmine
  rw [hs]
  refine h.release ht rfl rfl rfl ?_ (fun _ _ => rfl) (Or.inr ⟨_, rfl, ?_⟩)
  · -- the worker holds no other lock
    funext id'
    show update s.locks id none id' = _
    by_cases heq : id' = id
    · subst heq
      rw [update_self, if_pos hmine]
    · rw [update_of_ne heq, if_neg]
      intro hother
      obtain ⟨m₁, hm₁, hlock⟩ := (h.locks id' t).mp hother
      obtain rfl := Option.some.inj (ht.symm.trans hm₁)
      exact heq (Option.some.inj (hlock.symm.trans hid))
  · have hold := h.txs t m ht
    unfold TxHolds at hold ⊢
    cases hcase : m.tx with
    | auto =>
      rw [hcase] at hold
      exact hold
    | opened | unknown => trivial

/-- **Effects.** Every effect the discipline allows keeps the invariant, and is answered as the
discipline says. -/
theorem Consistent.exec {r : e.Answer} {s' : Shared} (hallow : Allow m e)
    (hexec : Exec C master_key t e s r s') :
    Answers m e r ∧ Consistent C master_key s' (update g t (some (Next m e r))) := by
  cases hexec with
  | refused hsure => exact h.refused ht hallow hsure
  | sql hst _ => exact h.sql ht hallow hst (Or.inl rfl)
  | sqlLost hst _ => exact h.sql ht hallow hst (Or.inr rfl)
  | lock hfree => exact ⟨trivial, h.lock ht hallow hfree⟩
  | unlock => exact ⟨trivial, h.unlock ht hallow⟩
  | getConnection | uuid _ | storeRead => exact ⟨trivial, h.same ht⟩
  | returnConnection => exact ⟨trivial, h.undo ht nofun⟩
  | begin =>
    have hnone := h.tx_auto ht hallow
    refine ⟨trivial, h.step ht rfl rfl rfl (fun _ _ => ⟨rfl, .refl _ _⟩)
      (fun id row _ hget hlive => h.rows id row hget hlive)
      ((h.phases t m ht).frame (Nat.le_refl _) fun _ _ => ⟨rfl, .refl _ _⟩)
      ⟨[], ?_, nofun⟩ fun t' hne => update_of_ne hne _ _⟩
    show update s.tx t (some ((s.tx t).getD [])) t = some []
    rw [update_self, hnone]
    rfl
  | @commit _ r =>
    refine ⟨trivial, ?_⟩
    have hview := h.view ht hallow
    cases r with
    | none | some _ => exact h.endTx ht m.phase.lock_forget hview (phaseHolds_forget _) nofun
  | @rollback _ r =>
    refine ⟨trivial, ?_⟩
    cases r with
    | some _ => exact h.undo ht nofun
    | none =>
      refine h.undo ht ?_
      split_ifs <;> nofun
  | storeCreate fault pre => exact ⟨trivial, h.storeCreate ht hallow fault pre⟩
  | storeAppend fault => exact h.storeAppend ht hallow fault
  | storeSha256 => exact ⟨trivial, h.storeSha256 ht⟩
  | storeRemove => exact ⟨trivial, h.storeRemove ht hallow⟩

end Effects

/-! ## Every reachable state -/

theorem consistent_inductive (C : Crypto) (master_key : Bytes) :
    Inductive (server C master_key) discipline (Consistent C master_key) where
  init s := by
    rintro ⟨hdb, htx, -, hlocks, -⟩
    refine ⟨fun id t => ?_, fun id row hget => ?_, nofun, nofun, fun t _ => htx t⟩
    · rw [hlocks]
      exact ⟨nofun, nofun⟩
    · rw [hdb] at hget
      cases hget
  env s s' g h := by
    rintro ⟨now, directory, hnow, rfl⟩
    refine ⟨h.locks, fun id row hget hlive => ?_, fun t m hm => ?_, h.txs, h.resting⟩
    · exact h.rows id row hget ⟨hlive.1, lt_of_le_of_lt hnow hlive.2⟩
    · exact (h.phases t m hm).frame hnow fun _ _ => ⟨rfl, .refl _ _⟩
  start s g t p h ht := by
    rintro ⟨req, rfl⟩
    refine ⟨Ghost.start, meets_handle req, ?_, h.rows, forall_set trivial fun t' m _ =>
      h.phases t' m,
      forall_set (h.resting t ht) fun t' m _ => h.txs t' m, forall_unset fun t' _ => h.resting t'⟩
    · intro id t'
      rw [h.locks]
      by_cases heq : t' = t
      · subst heq
        rw [update_self, ht]
        refine ⟨nofun, ?_⟩
        rintro ⟨m, hm, hlock⟩
        rw [← Option.some.inj hm] at hlock
        cases hlock
      · rw [update_of_ne heq]
  call s s' g t m e r h ht hallow hexec := h.exec ht hallow hexec
  stop s s' g t m p h ht _ hstop := by
    obtain rfl : s' = s.stopped t := hstop
    exact h.release ht rfl rfl rfl rfl (fun t' hne => update_of_ne hne _ _)
      (Or.inl ⟨rfl, update_self ..⟩)
  crash s s' g K _ hcrash := hcrash.elim

/-- Rows and ciphertext agree: for every row that is neither cancelled nor expired the sizes fit,
the file exists, its complete records hold the uploaded bytes and at most one chunk more, and a
published file is complete with the hash of its row. -/
def UploadsConsistent (C : Crypto) (master_key : Bytes) (s : Shared) : Prop :=
  ∀ id row, s.db.files.get id = some row → row.status ≠ .cancelled → s.now < row.expires_at →
    row.uploaded_size ≤ row.total_size ∧
    (row.uploaded_size % PlainChunkBytes = 0 ∨ row.uploaded_size = row.total_size) ∧
    ∃ chunks, storedChunks C master_key s.dir id = some chunks ∧
      row.uploaded_size ≤ chunks.flatten.length ∧
      chunks.flatten.length ≤ row.uploaded_size + PlainChunkBytes ∧
      chunks.flatten.length ≤ row.total_size ∧
      (row.status = .available ∨ row.status = .downloaded →
        row.uploaded_size = row.total_size ∧ C.hashSha256 chunks.flatten = row.sha256)

/-- **Upload consistency.** It holds in every state of every run of the resource servers. -/
theorem uploads_consistent (C : Crypto) (master_key : Bytes)
    {c : Config ℕ Call Call.Answer (Except Failure Reply) Shared}
    (hc : Reachable (server C master_key) c) : UploadsConsistent C master_key c.shared := by
  obtain ⟨g, h, -⟩ := reachable_invariant (consistent_inductive C master_key) hc
  intro id row hget hstatus hexpiry
  obtain ⟨hsized, chunks, hstored, hlow, hhigh, htotal, hpublished⟩ :=
    h.rows id row hget ⟨hstatus, hexpiry⟩
  exact ⟨hsized.le, hsized.aligned, chunks, hstored.storedChunks, hlow, hhigh, htotal, hpublished⟩

/-- An upload is created, gets its bytes and is published. -/
theorem uploads_consistent_created : ∃ c row, Reachable (server Sample.crypto []) c ∧
    c.shared.db.files.get (Sample.id 0) = some row ∧ row.status = .available ∧ row.total_size = 5 ∧
      UploadsConsistent Sample.crypto [] c.shared := by
  have hturns :
    (turns Sample.crypto [] (fun _ _ _ => true) ⟨sampleStart, fun _ => none⟩ (List.flatten
      [Sample.creates 0 5, [.start 1 (.chunk 1 (Sample.id 0) 0 (ascii "hello"))],
        List.replicate 7 (.call 1 []),
        [.start 2 (.complete 1 (Sample.id 0))], List.replicate 8 (.call 2 [])])).any (fun c =>
        (c.shared.db.files.get (Sample.id 0)).any fun row =>
          row.status = .available ∧ row.total_size = 5) =
      true := by
    decide +kernel
  obtain ⟨c, hc, h⟩ := (Option.any_eq_true ..).mp hturns
  obtain ⟨row, hrow, h⟩ := (Option.any_eq_true ..).mp h
  obtain ⟨hstatus, hsize⟩ := of_decide_eq_true h
  have hreachable := serves_server.reachable (.init initial_sampleStart) hc
  exact ⟨c, row, hreachable, hrow, hstatus, hsize, uploads_consistent Sample.crypto [] hreachable⟩

end DistributedChat.Resource
