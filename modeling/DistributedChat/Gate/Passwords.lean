import DistributedChat.Gate.MysqlDao

/-!
# A password reset is never undone

Every row stands for one password (`Stands`), whichever of its formats it has, and
`verifyCredential` accepts exactly this one. A late write is harmless for one reason only: its
condition compares the row with the text that was verified, so what was found out about that text
holds of the row it changes.

1. `Stands.valid_iff`: what a stored credential accepts.
2. `Stands.migrate`, `Stands.reset`, `Stands.upgrade`: the three writers.
3. `discipline` and `Ok`: what the threads know when they write, and when they let a user in.
-/

namespace DistributedChat.Gate

open Lib Function List

/-! ## Stored credentials -/

namespace Primitives

variable {prim : Primitives}

/-- The candidate made of the password matches what is stored. -/
def Valid (prim : Primitives) (raw stored : Text) (scheme : Scheme) : Prop :=
  ∃ c, prim.candidate raw scheme = some c ∧ prim.matchesStored c stored = true

section

variable (h : prim.Ideal)

include h

theorem Ideal.sha_head (p : Text) : ∃ c rest, prim.sha256_hex p = c :: rest ∧ c ≠ '$' := by
  obtain ⟨c, rest, hc⟩ := exists_cons_of_ne_nil (h.sha_ne_nil p)
  refine ⟨c, rest, hc, ?_⟩
  rintro rfl
  have hmem := h.sha_hex p '$' (hc ▸ mem_cons_self)
  revert hmem
  decide

theorem Ideal.sha_plain (p : Text) : isEncodedHash (prim.sha256_hex p) = false := by
  obtain ⟨c, rest, hc, hne⟩ := h.sha_head p
  rw [hc, isEncodedHash, hashMark, isPrefixOf_cons_cons]
  simp [Ne.symm hne]

theorem Ideal.hash_head (salt : ℕ) (p : Text) : ∃ rest, prim.pwhash_str salt p = '$' :: rest := by
  have henc := h.encoded salt p
  rw [isEncodedHash, isPrefixOf_iff_prefix] at henc
  obtain ⟨rest, hrest⟩ := henc
  exact ⟨hashMark.tail ++ rest, hrest.symm⟩

theorem Ideal.sqlEq_sha {p q : Text}
    (heq : prim.sqlEq (prim.sha256_hex p) (prim.sha256_hex q) = true) : p = q :=
  h.sha_injective (h.collation _ q heq (Or.inl ⟨p, rfl⟩))

theorem Ideal.sqlEq_hash (salt : ℕ) (p q : Text) :
    prim.sqlEq (prim.pwhash_str salt p) (prim.sha256_hex q) = false := by
  obtain ⟨rest, hrest⟩ := h.hash_head salt p
  obtain ⟨c, rest', hc, hne⟩ := h.sha_head q
  rw [Bool.eq_false_iff]
  intro heq
  have hsame := h.collation _ q heq (Or.inr ⟨salt, p, rfl⟩)
  rw [hrest, hc] at hsame
  exact hne (List.cons.inj hsame).1.symm

theorem Ideal.matchesStored_hash (salt : ℕ) (c p : Text) :
    prim.matchesStored c (prim.pwhash_str salt p) = true ↔ c = p := by
  rw [matchesStored, if_pos (h.encoded salt p), Primitives.verify, h.encoded salt p, Bool.true_and]
  exact h.verify salt c p

theorem Ideal.matchesStored_sha (c p : Text) :
    prim.matchesStored c (prim.sha256_hex p) = true ↔ c = prim.sha256_hex p := by
  rw [matchesStored, h.sha_plain p]
  simp

end

variable {u : User}

theorem Stands.valid_iff (h : prim.Ideal) (hu : prim.Stands u) (q : Text) :
    prim.Valid q u.pwd u.password_scheme ↔ q = u.password := by
  obtain ⟨-, ⟨hscheme, salt, hpwd⟩ | ⟨hscheme, hpwd | ⟨salt, hpwd⟩⟩⟩ := hu
  · simp [Valid, candidate, hscheme, hpwd, h.matchesStored_hash]
  · simp [Valid, candidate, legacyClientSha256, hscheme, hpwd, h.matchesStored_sha,
      h.sha_injective.eq_iff]
  · simp [Valid, candidate, legacyClientSha256, hscheme, hpwd, h.matchesStored_hash,
      h.sha_injective.eq_iff]

theorem Stands.plain (h : prim.Ideal) (hu : prim.Stands u) (hplain : isEncodedHash u.pwd = false) :
    u.pwd = prim.sha256_hex u.password := by
  obtain ⟨-, ⟨-, salt, hpwd⟩ | ⟨-, hpwd | ⟨salt, hpwd⟩⟩⟩ := hu
  · simp [hpwd, h.encoded] at hplain
  · exact hpwd
  · simp [hpwd, h.encoded] at hplain

theorem Stands.migrate (h : prim.Ideal) (hu : prim.Stands u) {x : Text}
    (heq : prim.sqlEq u.pwd (prim.sha256_hex x) = true) (salt : ℕ) :
    prim.Stands { u with pwd := prim.pwhash_str salt (prim.sha256_hex x) } := by
  obtain ⟨hne, ⟨-, salt', hpwd⟩ | ⟨hscheme, hpwd | ⟨salt', hpwd⟩⟩⟩ := hu
  · rw [hpwd, h.sqlEq_hash] at heq
    cases heq
  · rw [hpwd] at heq
    obtain rfl := h.sqlEq_sha heq
    exact ⟨hne, Or.inr ⟨hscheme, Or.inr ⟨salt, rfl⟩⟩⟩
  · rw [hpwd, h.sqlEq_hash] at heq
    cases heq

theorem Stands.reset (u : User) {newpwd : Text} (hne : newpwd ≠ []) (salt : ℕ) :
    prim.Stands { u with
      pwd := prim.pwhash_str salt newpwd
      password_scheme := .argon2id_raw
      password := newpwd } :=
  ⟨hne, Or.inl ⟨rfl, salt, rfl⟩⟩

theorem Stands.upgrade (h : prim.Ideal) (hu : prim.Stands u) {raw : Text}
    (hvalid : prim.Valid raw u.pwd u.password_scheme) (salt : ℕ) :
    prim.Stands { u with
      pwd := prim.pwhash_str salt raw
      password_scheme := .argon2id_raw } := by
  obtain rfl := (hu.valid_iff h raw).mp hvalid
  exact ⟨hu.1, Or.inl ⟨rfl, salt, rfl⟩⟩

end Primitives

/-! ## What a thread knows -/

structure Known where
  /-- The hashes it has computed, with their passwords. -/
  hashes : List (Text × Text) := []
  /-- The row it has read in `CheckPwd`. -/
  row : Option User := none
  /-- The moment its call began. -/
  began : Option ℕ := none

section Discipline

variable (prim : Primitives)

def Call.Allow (m : Known) : Call → Prop
  | .updateMigrated encoded _ plaintext =>
    (encoded, plaintext) ∈ m.hashes ∧ ∃ x, plaintext = prim.sha256_hex x
  | .updateReset password_hash _ newpwd => (password_hash, newpwd) ∈ m.hashes ∧ newpwd ≠ []
  | .updateUpgraded upgraded _ expected scheme =>
    ∃ raw, (upgraded, raw) ∈ m.hashes ∧ prim.Valid raw expected scheme
  | .moment => m.row = none
  | .grant uid pwd began =>
    m.began = some began ∧ ∃ u, m.row = some u ∧ u.uid = uid ∧
    prim.Valid pwd u.pwd u.password_scheme
  | _ => True

/-- Passwords a thread reads in plain are digests. -/
def Call.Honest : (e : Call) → e.Answer → Prop
  | .selectAll, some rows =>
    ∀ row ∈ rows, isEncodedHash row.2 = false → ∃ x, row.2 = prim.sha256_hex x
  | _, _ => True

def Call.next (m : Known) : (e : Call) → e.Answer → Known
  | .pwhash password, some encoded => { m with hashes := (encoded, password) :: m.hashes }
  | .selectByEmail _, some (some u) => { m with row := some u }
  | .moment, k => { m with began := some k }
  | _, _ => m

def discipline : Monitor Call Call.Answer where
  Ghost := Known
  allow m e := e.Allow prim m
  answer _ e r := e.Honest prim r
  next m e r := e.next m r

variable {prim} {m : Known}

theorem meets_hash {p : Text} {Q : Known → Except Error Text → Prop} (herror : ∀ e, Q m (.error e))
    (hok : p ≠ [] → ∀ encoded, Q { m with hashes := (encoded, p) :: m.hashes } (.ok encoded)) :
    Meets (discipline prim) Q m (hash p) := by
  by_cases hp : p = []
  · simp only [hash, if_pos hp]
    exact herror _
  · simp only [hash, if_neg hp]
    refine ⟨trivial, fun r _ => ?_⟩
    cases r with
    | none => exact herror _
    | some encoded => exact hok hp encoded

theorem meets_migrateRows {rows : List (ℕ × Text)}
    (hrows : ∀ row ∈ rows, ∃ x, row.2 = prim.sha256_hex x) :
    Meets (discipline prim) (fun _ _ => True) m (migrateRows rows) := by
  induction rows generalizing m with
  | nil => trivial
  | cons row rest ih =>
    obtain ⟨uid, plaintext⟩ := row
    have hrest := fun m => @ih m fun row hrow => hrows row (mem_cons_of_mem _ hrow)
    have hsha := hrows _ mem_cons_self
    by_cases hempty : plaintext = []
    · simp only [migrateRows, if_pos hempty]
      exact hrest m
    · simp only [migrateRows, if_neg hempty]
      refine Meets.andThen (meets_hash (fun _ => trivial) fun _ encoded => ?_)
      refine Meets.perform ⟨mem_cons_self, hsha⟩ fun r _ => ?_
      cases r with
      | none => trivial
      | some changed => exact hrest _

theorem meets_migrate : Meets (discipline prim) (fun _ _ => True) m MigrateLegacyPasswords := by
  refine Meets.perform trivial fun live _ => ?_
  cases live with
  | false => trivial
  | true =>
    refine Meets.recover (Meets.weaken (?_ : Meets _ (fun _ _ => True) _ _) fun m r _ => ?_)
    · refine Meets.perform trivial fun r hr => ?_
      cases r with
      | none => trivial
      | some rows =>
        refine meets_migrateRows fun row hrow => ?_
        obtain ⟨hmem, hplain⟩ := mem_filter.mp hrow
        exact hr row hmem (by simpa using hplain)
    · cases r with
      | error e | ok a => trivial

theorem meets_catchSql {α : Type} {p : Svc α} {otherwise : α} {Q : Known → Except Error α → Prop}
    (hp : Meets (discipline prim) Q m p) (hother : ∀ m e, Q m (.error e) → Q m (.ok otherwise)) :
    Meets (discipline prim) Q m (catchSql p otherwise) := by
  refine Meets.recover (hp.weaken fun m r hr => ?_)
  cases r with
  | error e =>
    by_cases he : e = .sql
    · simp only [if_pos he]
      exact hother m e hr
    · simp only [if_neg he]
      exact hr
  | ok a => exact hr

theorem meets_updatePwd (name newpwd : Text) :
    Meets (discipline prim) (fun _ _ => True) m (UpdatePwd name newpwd) := by
  refine Meets.perform trivial fun live _ => ?_
  cases live with
  | false => trivial
  | true =>
    refine meets_catchSql ?_ fun _ _ _ => trivial
    refine Meets.andThen (meets_hash (fun _ => trivial) fun hne encoded => ?_)
    refine Meets.perform ⟨mem_cons_self, hne⟩ fun r _ => ?_
    cases r with
    | none | some changed => trivial

/-- A credential is found valid only if it is, and an upgrade is a hash of the password. -/
theorem meets_verifyCredential {raw stored : Text} {scheme : Scheme}
    {Q : Known → Except Error PasswordVerificationResult → Prop} (herror : ∀ e, Q m (.error e))
    (hinvalid : Q m (.ok {})) (hvalid : prim.Valid raw stored scheme → Q m (.ok { valid := true }))
    (hupgrade : prim.Valid raw stored scheme → ∀ upgraded_hash,
      Q { m with hashes := (upgraded_hash, raw) ::
      m.hashes } (.ok { valid := true, upgrade_required := true, upgraded_hash })) :
    Meets (discipline prim) Q m (prim.verifyCredential raw stored scheme) := by
  rw [Primitives.verifyCredential]
  cases hc : prim.candidate raw scheme with
  | none => exact hinvalid
  | some c =>
    by_cases hmatch : prim.matchesStored c stored = false
    · simp only [if_pos hmatch]
      exact hinvalid
    simp only [if_neg hmatch]
    have hv : prim.Valid raw stored scheme := ⟨c, hc, by simpa using hmatch⟩
    by_cases hneeds : isEncodedHash stored = false ∨ scheme = .legacy_client_sha256 ∨
        prim.needsRehash stored = true
    · simp only [if_pos hneeds]
      exact Meets.andThen (meets_hash herror fun _ encoded => hupgrade hv encoded)
    · simp only [if_neg hneeds]
      exact hvalid hv

/-- Who is let in had a password that was valid for the row that was read. -/
def Admits (prim : Primitives) (pwd : Text) (began : Option ℕ) (m : Known)
    (r : Except Error Checked) :
    Prop :=
  m.began = began ∧ ∀ checked info, r = .ok checked → checked.userInfo = some info →
    ∃ u, m.row = some u ∧ u.uid = info.uid ∧ prim.Valid pwd u.pwd u.password_scheme

theorem meets_checkRow {email pwd : Text} {row : User} (hrow : m.row = some row) :
    Meets (discipline prim) (Admits prim pwd m.began) m (prim.checkRow email pwd row) := by
  refine Meets.andThen (meets_verifyCredential (fun e => ⟨rfl, fun _ _ h => by cases h⟩)
    ⟨rfl, fun _ _ h hinfo => by cases h; cases hinfo⟩ (fun hv => ?_) fun hv upgraded => ?_)
  · refine ⟨rfl, fun _ _ h hinfo => ?_⟩
    cases h
    cases hinfo
    exact ⟨row, hrow, rfl, hv⟩
  · refine ⟨⟨pwd, mem_cons_self, hv⟩, fun r _ => ?_⟩
    cases r with
    | none => exact ⟨rfl, fun _ _ h => by cases h⟩
    | some changed =>
      change Meets (discipline prim) _ _ (if (changed == 1) = true then _ else _)
      cases hone : changed == 1 with
      | true =>
        refine ⟨rfl, fun _ _ h hinfo => ?_⟩
        cases h
        cases hinfo
        exact ⟨row, hrow, rfl, hv⟩
      | false => exact ⟨rfl, fun _ _ h hinfo => by cases h; cases hinfo⟩

theorem meets_checkPwd (email pwd : Text) :
    Meets (discipline prim) (Admits prim pwd m.began) m (prim.CheckPwd email pwd) := by
  have hnone : ∀ unavailable,
    Admits prim pwd m.began m (.ok { userInfo := none, unavailable }) := by
    intro unavailable
    refine ⟨rfl, fun _ _ h hinfo => ?_⟩
    cases h
    cases hinfo
  refine Meets.perform trivial fun live _ => ?_
  cases live with
  | false => exact hnone true
  | true =>
    refine meets_catchSql (Meets.perform trivial fun r _ => ?_) fun m' e h =>
      ⟨h.1, fun _ _ h hinfo => ?_⟩
    · cases r with
      | none => exact ⟨rfl, fun _ _ h => by cases h⟩
      | some found =>
        cases found with
        | none => exact hnone false
        | some row => exact meets_checkRow (m := { m with row := some row }) rfl
    · cases h
      cases hinfo

theorem meets_program (l : Launch) :
    Meets (discipline prim) (fun m _ => (discipline prim).final m) {} (prim.program l) := by
  cases l with
  | migrate => exact meets_migrate
  | updatePwd name newpwd =>
    refine Meets.andThen ((meets_updatePwd name newpwd).weaken fun m r _ => ?_)
    cases r with
    | error e | ok a => trivial
  | checkPwd email pwd =>
    refine Meets.perform rfl fun began _ => Meets.andThen ?_
    refine (meets_checkPwd email pwd).weaken fun m r hr => ?_
    cases r with
    | error e => trivial
    | ok checked =>
      obtain ⟨hbegan, hall⟩ := hr
      cases hinfo : checked.userInfo with
      | none =>
        simp only [hinfo]
        trivial
      | some info =>
        simp only [hinfo]
        exact ⟨⟨hbegan, hall checked info rfl hinfo⟩, fun _ _ => trivial⟩

end Discipline

/-! ## Tables over time -/

section Tables

variable {s : State}

theorem State.tableAt_moment (s : State) : s.tableAt s.moment = s.users := by
  simp [tableAt, moment]

theorem State.tableAt_update {p : User → Bool} {f : User → User} {k : ℕ} (hk : k ≤ s.moment) :
    (s.update p f).tableAt k = s.tableAt k := by
  have hlt : k < (s.past ++ [s.users]).length := by
    simp only [length_append, length_singleton]
    exact Nat.lt_succ_of_le hk
  simp only [tableAt, update, getD_eq_getElem?_getD]
  rw [List.getElem?_append_left hlt]

/-- The table at every moment up to now is as it was, and time goes on. -/
structure Goes (s s' : State) : Prop where
  moment : s.moment ≤ s'.moment
  tables : ∀ k ≤ s.moment, s'.tableAt k = s.tableAt k

theorem Goes.refl (s : State) : Goes s s := ⟨Nat.le_refl _, fun _ _ => rfl⟩

theorem Goes.update (s : State) (p : User → Bool) (f : User → User) : Goes s (s.update p f) where
  moment := by simp [State.moment, State.update]
  tables _ hk := State.tableAt_update hk

/-- A login is sound: its password was that of the account at some moment of the call. -/
def Login.Sound (s : State) (l : Login) : Prop :=
  l.ended ≤ s.moment ∧ ∃ k, l.began ≤ k ∧ k ≤ l.ended ∧ ∃ u ∈ s.tableAt k, u.uid = l.uid ∧
    u.password = l.pwd

theorem Login.Sound.mono {s' : State} {l : Login} (h : l.Sound s) (hgoes : Goes s s') :
    l.Sound s' := by
  obtain ⟨hended, k, hbegan, hk, u, hu, huid⟩ := h
  refine ⟨Nat.le_trans hended hgoes.moment, k, hbegan, hk, u, ?_, huid⟩
  rw [hgoes.tables k (Nat.le_trans hk hended)]
  exact hu

end Tables

/-! ## The invariant -/

section Invariant

variable {prim : Primitives} {s s' : State} {g : ℕ → Option Known} {t : ℕ} {m m' : Known}

structure Knows (prim : Primitives) (s : State) (m : Known) : Prop where
  hashes : ∀ h p, (h, p) ∈ m.hashes → ∃ salt, h = prim.pwhash_str salt p
  began : ∀ b, m.began = some b → b ≤ s.moment
  row : ∀ u, m.row = some u → ∃ k, (∀ b, m.began = some b → b ≤ k) ∧ k ≤ s.moment ∧ u ∈ s.tableAt k

theorem Knows.mono (h : Knows prim s m) (hgoes : Goes s s') : Knows prim s' m where
  hashes := h.hashes
  began b hb := Nat.le_trans (h.began b hb) hgoes.moment
  row u hu := by
    obtain ⟨k, hbegan, hk, hmem⟩ := h.row u hu
    exact ⟨k, hbegan, Nat.le_trans hk hgoes.moment, (hgoes.tables k hk).symm ▸ hmem⟩

structure Ok (prim : Primitives) (s : State) (g : ℕ → Option Known) : Prop where
  stands : ∀ k ≤ s.moment, ∀ u ∈ s.tableAt k, prim.Stands u
  knows : ∀ t m, g t = some m → Knows prim s m
  logins : ∀ l ∈ s.logins, l.Sound s

theorem Ok.users (h : Ok prim s g) : ∀ u ∈ s.users, prim.Stands u := by
  intro u hu
  refine h.stands s.moment (Nat.le_refl _) u ?_
  rw [s.tableAt_moment]
  exact hu

theorem Ok.threads (h : Ok prim s g) (hgoes : Goes s s') (hm : Knows prim s' m') :
    ∀ t' k, update g t (some m') t' = some k → Knows prim s' k :=
  forall_set hm fun t' k _ hk => (h.knows t' k hk).mono hgoes

variable {p : User → Bool} {f : User → User}

theorem Ok.update (h : Ok prim s g) (ht : g t = some m)
    (hf : ∀ u, prim.Stands u → p u = true → prim.Stands (f u)) :
    Ok prim (s.update p f) (update g t (some m)) := by
  have hgoes := Goes.update s p f
  refine ⟨fun k hk u hu => ?_, h.threads hgoes ((h.knows t m ht).mono hgoes),
    fun l hl => (h.logins l hl).mono hgoes⟩
  by_cases hold : k ≤ s.moment
  · rw [hgoes.tables k hold] at hu
    exact h.stands k hold u hu
  · -- The only new moment is the present one.
    obtain rfl : k = (s.update p f).moment := by
      have : (s.update p f).moment = s.moment + 1 := by simp [State.moment, State.update]
      omega
    rw [State.tableAt_moment] at hu
    obtain ⟨v, hv, rfl⟩ := mem_map.mp hu
    have hstands := h.users v hv
    by_cases hp : p v = true
    · simp only [if_pos hp]
      exact hf v hstands hp
    · simp only [if_neg hp]
      exact hstands

variable {pick : Pick}

theorem Ok.performUpdate (h : Ok prim s g) (ht : g t = some m) {r : Option ℕ}
    (hp : performUpdate pick s p f = some (r, s'))
    (hf : ∀ u, prim.Stands u → p u = true → prim.Stands (f u)) :
    Ok prim s' (Function.update g t (some m)) := by
  have hsame : Ok prim s (Function.update g t (some m)) :=
    ⟨h.stands, h.threads (.refl s) (h.knows t m ht), h.logins⟩
  unfold Gate.performUpdate at hp
  split at hp
  · cases hp
    split
    · exact h.update ht hf
    · exact hsame
  · cases hp
    exact h.update ht hf

variable {e : Call}

theorem ok_perform (hprim : prim.Ideal) (h : Ok prim s g) (ht : g t = some m)
    (hallow : e.Allow prim m)
    {r : e.Answer} (hp : perform prim e pick s = some (r, s')) :
    e.Honest prim r ∧ Ok prim s' (update g t (some (e.next m r))) := by
  have hold := h.knows t m ht
  have hlearn : ∀ m', Knows prim s m' → Ok prim s (update g t (some m')) := fun m' hm' =>
    ⟨h.stands, h.threads (.refl s) hm', h.logins⟩
  cases e with
  | getConnection =>
    cases hp
    exact ⟨trivial, hlearn m hold⟩
  | pwhash password =>
    cases hp
    refine ⟨trivial, ?_⟩
    cases hfails : pick.fails with
    | true => exact hlearn m hold
    | false =>
      refine hlearn _ ⟨fun encoded p hmem => ?_, hold.began, hold.row⟩
      rcases mem_cons.mp hmem with heq | hmem
      · cases heq
        exact ⟨pick.salt, rfl⟩
      · exact hold.hashes encoded p hmem
  | selectAll =>
    cases hp
    cases hfails : pick.fails with
    | true => exact ⟨trivial, hlearn m hold⟩
    | false =>
      refine ⟨fun row hrow hplain => ?_, hlearn m hold⟩
      obtain ⟨u, hu, rfl⟩ := mem_map.mp hrow
      exact ⟨u.password, (h.users u hu).plain hprim hplain⟩
  | selectByEmail email =>
    cases hp
    refine ⟨trivial, ?_⟩
    cases hfails : pick.fails with
    | true => exact hlearn m hold
    | false =>
      cases hfound : s.users.find? fun u => prim.sqlEq u.email email with
      | none => exact hlearn m hold
      | some u =>
        refine hlearn _ ⟨hold.hashes, hold.began, fun v hv => ?_⟩
        cases hv
        refine ⟨s.moment, hold.began, Nat.le_refl _, ?_⟩
        rw [s.tableAt_moment]
        exact mem_of_find?_eq_some hfound
  | updateMigrated encoded uid plaintext =>
    obtain ⟨hhash, x, rfl⟩ := hallow
    obtain ⟨salt, rfl⟩ := hold.hashes _ _ hhash
    refine ⟨trivial, h.performUpdate ht hp fun u hu hsel => ?_⟩
    simp only [Bool.and_eq_true] at hsel
    exact hu.migrate hprim hsel.2 salt
  | updateReset password_hash name newpwd =>
    obtain ⟨hhash, hne⟩ := hallow
    obtain ⟨salt, rfl⟩ := hold.hashes _ _ hhash
    exact ⟨trivial, h.performUpdate ht hp fun u _ _ => Primitives.Stands.reset u hne salt⟩
  | updateUpgraded upgraded uid expected scheme =>
    obtain ⟨raw, hhash, hvalid⟩ := hallow
    obtain ⟨salt, rfl⟩ := hold.hashes _ _ hhash
    refine ⟨trivial, h.performUpdate ht hp fun u hu hsel => ?_⟩
    simp only [Bool.and_eq_true, beq_iff_eq] at hsel
    obtain ⟨⟨-, rfl⟩, rfl⟩ := hsel
    exact hu.upgrade hprim hvalid salt
  | moment =>
    cases hp
    refine ⟨trivial, hlearn _ ⟨hold.hashes, fun b hb => ?_, fun u hu => ?_⟩⟩
    · cases hb
      exact Nat.le_refl _
    · have hnone : m.row = none := hallow
      change m.row = some u at hu
      rw [hnone] at hu
      cases hu
  | grant uid pwd began =>
    cases hp
    obtain ⟨hbegan, u, hrow, huid, hvalid⟩ := hallow
    obtain ⟨k, hk, hmoment, hmem⟩ := hold.row u hrow
    have hpwd := ((h.stands k hmoment u hmem).valid_iff hprim pwd).mp hvalid
    have hgoes : Goes s { s with logins := s.logins ++ [⟨uid, pwd, began, s.moment⟩] } :=
      ⟨Nat.le_refl _, fun _ _ => rfl⟩
    refine ⟨trivial, h.stands, h.threads hgoes (hold.mono hgoes), fun l hl => ?_⟩
    rcases mem_append.mp hl with hl | hl
    · exact h.logins l hl
    · obtain rfl := mem_singleton.mp hl
      exact ⟨Nat.le_refl _, k, hk began hbegan, hmoment, u, hmem, huid, hpwd.symm⟩

theorem ok_inductive (hprim : prim.Ideal) : Inductive prim.gates (discipline prim) (Ok prim) where
  init s hs := by
    obtain ⟨hstands, hpast, hlogins⟩ := hs
    refine ⟨fun k hk u hu => ?_, fun _ _ h => (by cases h), fun l hl => ?_⟩
    · obtain rfl : k = s.moment := by
        have : s.moment = 0 := by simp [State.moment, hpast]
        omega
      rw [s.tableAt_moment] at hu
      exact hstands u hu
    · rw [hlogins] at hl
      cases hl
  env s s' g h henv := henv.elim
  start s g t p h ht hstart := by
    obtain ⟨l, rfl⟩ := hstart
    refine ⟨{}, meets_program l, h.stands, h.threads (.refl s) ?_, h.logins⟩
    exact ⟨fun _ _ hmem => absurd hmem not_mem_nil, fun _ hb => (by cases hb), fun _ hu =>
      (by cases hu)⟩
  call s s' g t m e r h ht hallow hexec := by
    obtain ⟨pick, hp⟩ := hexec
    exact ok_perform hprim h ht hallow hp
  stop s s' g t m p h ht hmeets hstop := by
    cases hstop
    exact ⟨h.stands, forall_erased h.knows, h.logins⟩
  crash s s' g K h hcrash := hcrash.elim

/-! ## What a step does to an account -/

/-- An account after a step: it is the same account, a raw scheme stays, and only the statement of
`UpdatePwd` gives it another password. -/
structure Changed (prim : Primitives) (e : Call) (u u' : User) : Prop where
  uid : u'.uid = u.uid
  scheme : u.password_scheme = .argon2id_raw → u'.password_scheme = .argon2id_raw
  password : u'.password = u.password ∨
    ∃ password_hash name, e = .updateReset password_hash name u'.password ∧
      prim.sqlEq u.name name = true

theorem Changed.refl (prim : Primitives) (e : Call) (u : User) : Changed prim e u u :=
  ⟨rfl, fun h => h, Or.inl rfl⟩

variable {c c' : Config ℕ Call Call.Answer (Except Error Unit) State} {u : User}

end Invariant

namespace Sample

/-- A number as a text that ends where it ends. -/
def unary (n : ℕ) : Text := List.replicate n '1' ++ ['0']

theorem unary_append_inj {n m : ℕ} {a b : Text} (h : unary n ++ a = unary m ++ b) :
    n = m ∧ a = b := by
  induction n generalizing m with
  | zero =>
    cases m with
    | zero => exact ⟨rfl, by simpa [unary] using h⟩
    | succ m => simp [unary, replicate_succ] at h
  | succ n ih =>
    cases m with
    | zero => simp [unary, replicate_succ] at h
    | succ m =>
      have hrest : unary n ++ a = unary m ++ b := by
        simpa [unary, replicate_succ] using h
      exact ⟨congrArg (· + 1) (ih hrest).1, (ih hrest).2⟩

/-- A hash that shows its password. -/
def pwhash (salt : ℕ) (p : Text) : Text := hashMark ++ (unary salt ++ p)

/-- A digest that spells its password. -/
def sha (p : Text) : Text := '0' :: p.flatMap fun c => unary c.toNat

theorem sha_injective : Injective sha := by
  intro p q h
  simp only [sha, List.cons.injEq, true_and] at h
  induction p generalizing q with
  | nil =>
    cases q with
    | nil => rfl
    | cons d q => simp [unary] at h
  | cons c p ih =>
    cases q with
    | nil => simp [unary] at h
    | cons d q =>
      simp only [flatMap_cons] at h
      obtain ⟨hc, hrest⟩ := unary_append_inj h
      rw [ih hrest, Char.toNat_inj.mp hc]

theorem sha_hex {p : Text} {c : Char} (hc : c ∈ sha p) : c = '0' ∨ c = '1' := by
  simp only [sha, unary, mem_cons, mem_flatMap, mem_append, mem_replicate, not_mem_nil,
    or_false] at hc
  rcases hc with rfl | ⟨d, -, ⟨-, rfl⟩ | rfl⟩ <;> simp

def prim : Primitives where
  pwhash_str := pwhash
  pwhash_str_verify encoded p :=
    (List.range encoded.length).any fun salt => encoded == pwhash salt p
  pwhash_str_needs_rehash _ := false
  sha256_hex := sha
  sqlEq a b := a.map Char.toLower == b.map Char.toLower

/-- An account of an old client. -/
def account : User :=
  ⟨1, ['a'], ['e'], prim.sha256_hex ['p'], .legacy_client_sha256, ['p']⟩

/-- A login reads the old row and computes its upgrade, a reset comes in between, and the upgrade
finds another row; a login with the new password goes through. -/
def schedule : List (Move ℕ (ℕ × Launch) Pick) :=
  List.flatten
    [[.start (0, .checkPwd ['e'] ['p'])], List.replicate 4 (.call 0 {}),
      [.start (1, .updatePwd ['a'] ['q'])], List.replicate 3 (.call 1 {}),
      [.call 0 {}, .start (2, .checkPwd ['e'] ['q'])], List.replicate 4 (.call 2 {})]

end Sample

end DistributedChat.Gate
