import DistributedChat.Verification.Isolation

/-!
# Colliding addresses

What the scripts leave in the bookkeeping keys of an address: after a first request the cooldown
and the hourly counter hold `1`, and after one wrong submission so does the counter of attempts.
For the address that is the key's word followed by the first one, that value is a code: submitting
`1` for it succeeds although no code was ever issued for it. So isolation holds of a set of
addresses exactly when no two of them collide.
-/

namespace DistributedChat.Verification

open Lib Function List
open Script (bind_of_some onlyIf expire ttl)

/-- Settings under which a first request is answered: limits that admit one, lifetimes that are
not zero, and more than one attempt. -/
def Settings.Usable (cfg : Settings) : Prop :=
  0 < cfg.issue.cooldownSeconds ∧ 0 < cfg.issue.hourlyWindowSeconds ∧ 1 ≤ cfg.issue.hourlyLimit ∧
    0 < cfg.issue.codeTtlSeconds ∧ 1 ≤ cfg.issue.globalHourlyLimit ∧ 2 ≤ cfg.maxAttempts

instance (cfg : Settings) : Decidable cfg.Usable := by
  unfold Settings.Usable; infer_instance

/-! ## A first request and a first wrong submission -/

variable {k : String} {now : ℕ} {s : Redis}

theorem incr_fresh (h : s k = none) : incr k now s = (some 1, update s k (some ⟨"1", none⟩)) := by
  unfold incr Script.alter ExpiringMap.find
  rw [h]
  rfl

variable {v : String} {n : ℕ}

theorem expire_fresh (hn : 0 < n) (s : Redis) :
    expire k n now (update s k (some ⟨v, none⟩)) =
    (some (), update s k (some ⟨v, some (now + n)⟩)) := by
  have hfind : ExpiringMap.find (update s k (some ⟨v, none⟩)) now k = some ⟨v, none⟩ := by
    unfold ExpiringMap.find
    rw [update_self]
    rfl
  unfold expire
  rw [hfind]
  simp [Script.put, Nat.ne_of_gt hn]

theorem count_fresh {α : Type} (hn : 0 < n) (h : s k = none) (f : ℤ → Script String String α) :
    (do let c ← incr k; onlyIf (c = 1) (expire k n); f c) now s =
      f 1 now (update s k (some ⟨"1", some (now + n)⟩)) := by
  rw [bind_of_some (incr_fresh h)]
  exact bind_of_some (expire_fresh hn s)

theorem setEx_pos (hn : 0 < n) (s : Redis) :
    Script.setEx k v n now s = (some (), update s k (some ⟨v, some (now + n)⟩)) := by
  unfold Script.setEx
  rw [if_neg (Nat.ne_of_gt hn)]
  rfl

theorem find_live (hn : now < n) (h : s k = some ⟨v, some n⟩) :
    ExpiringMap.find s now k = some ⟨v, some n⟩ := by
  unfold ExpiringMap.find
  rw [h]
  simp [Entry.live, hn]

theorem get_live (hn : now < n) (h : s k = some ⟨v, some n⟩) :
    Script.get k now s = (some (some v), s) := by
  show (some (Option.map Entry.value (ExpiringMap.find s now k)), s) = _
  rw [find_live hn h]
  rfl

theorem ttl_live (hn : now < n) (h : s k = some ⟨v, some n⟩) :
    ttl k now s = (some ((n : ℤ) - now), s) := by
  unfold ttl
  rw [find_live hn h]

theorem readDigits_eq {cs : List Char} (h : ∀ c ∈ cs, c.isDigit = true) (n : ℕ) :
    readDigits n cs = some (Nat.ofDigitChars 10 cs n) := by
  induction cs generalizing n with
  | nil => rfl
  | cons c cs ih =>
    rw [readDigits, if_pos (h c mem_cons_self), Nat.ofDigitChars_cons]
    exact ih (fun c' hc' => h c' (mem_cons_of_mem c hc')) _

variable {n : ℕ}

theorem head_toDigits (hn : 0 < n) : ∃ c cs, Nat.toDigits 10 n = c :: cs ∧ c ≠ '0' := by
  induction n using Nat.strongRecOn with
  | _ n ih =>
    by_cases h : n < 10
    · have hdigit : ∀ d < 10, 0 < d → d.digitChar ≠ '0' := by decide
      exact ⟨n.digitChar, [], Nat.toDigits_of_lt_base h, hdigit n h hn⟩
    · obtain ⟨c, cs, hcs, hc⟩ := ih (n / 10) (by omega) (by omega)
      refine ⟨c, cs ++ [(n % 10).digitChar], ?_, hc⟩
      rw [Nat.toDigits_of_base_le (by decide) (by omega), hcs, cons_append]

theorem string2ll_toString (hn : 0 < n) (hlt : (n : ℤ) < 2 ^ 63) :
    string2ll (toString (n : ℤ)) = some (n : ℤ) := by
  obtain ⟨c, cs, hcs, hc⟩ := head_toDigits hn
  have hdigits : ∀ d ∈ c :: cs, d.isDigit = true := fun d hd =>
    Nat.isDigit_of_mem_toDigits (by decide) (by decide) (hcs.symm ▸ hd)
  have hminus : c ≠ '-' := by
    rintro rfl
    exact absurd (hdigits '-' mem_cons_self) (by decide)
  have htext : (toString (n : ℤ)).toList = c :: cs := by
    show (toString n).toList = _
    rw [Nat.toString_eq_ofList_toDigits, String.toList_ofList, hcs]
  have hread : readDigits 0 (c :: cs) = some n := by
    rw [readDigits_eq hdigits, ← hcs, Nat.ofDigitChars_ten_toDigits]
  unfold string2ll
  rw [htext]
  split
  · rename_i heq
    cases heq
    exact absurd rfl hc
  · rename_i heq
    cases heq
    exact absurd rfl hminus
  · rename_i heq
    cases heq
    rw [if_neg hc, hread]
    have hrange : decide (-(2 ^ 63 : ℤ) ≤ n ∧ (n : ℤ) < 2 ^ 63) = true := decide_eq_true (by omega)
    exact Option.filter_some_pos hrange
  · rename_i heq
    cases heq

theorem incr_live {k : String} {now t : ℕ} (ht : now < t) (hn : 0 < n) (hlt : (n : ℤ) + 1 < 2 ^ 63)
    {s : Redis}
    (h : s k = some ⟨toString (n : ℤ), some t⟩) :
    incr k now s = (some ((n : ℤ) + 1), update s k (some ⟨toString ((n : ℤ) + 1), some t⟩)) := by
  have hstep : (do
      let m ← string2ll (toString (n : ℤ))
      if m + 1 < 2 ^ 63 then some (m + 1, toString (m + 1)) else none : Option (ℤ × String)) =
      some ((n : ℤ) + 1, toString ((n : ℤ) + 1)) := by
    rw [string2ll_toString hn (by omega), Option.bind_eq_bind, Option.bind_some, if_pos hlt]
  unfold incr Script.alter
  rw [find_live ht h]
  simp only [Option.map_some, hstep, Option.bind_some]

theorem cooldown_ne_hourly (e : String) :
    "code_cooldown_" ++ e ≠ "code_hourly_" ++ e := key_ne (by decide) e
theorem cooldown_ne_attempts (e : String) :
    "code_cooldown_" ++ e ≠ "code_attempts_" ++ e := key_ne (by decide) e
theorem hourly_ne_attempts (e : String) :
    "code_hourly_" ++ e ≠ "code_attempts_" ++ e := key_ne (by decide) e

theorem hourly_ne_global (e : String) : "code_hourly_" ++ e ≠ globalKey := by
  intro h
  exact globalKey_notMem e (h ▸ hourly_mem e)

theorem cooldown_ne_global (e : String) : "code_cooldown_" ++ e ≠ globalKey := by
  intro h
  exact globalKey_notMem e (h ▸ cooldown_mem e)

/-- Redis after the first code `c` was issued at time zero, for `e`. -/
def issuedOnce (o : IssueOptions) (e c : String) : Redis :=
  let s := update empty ("code_hourly_" ++ e) (some ⟨"1", some o.hourlyWindowSeconds⟩)
  let s := update s globalKey (some ⟨"1", some o.hourlyWindowSeconds⟩)
  let s := update s ("code_cooldown_" ++ e) (some ⟨"1", some o.cooldownSeconds⟩)
  let s := update s ("code_" ++ e) (some ⟨c, some o.codeTtlSeconds⟩)
  update s ("code_attempts_" ++ e) none

variable {cfg : Settings}

theorem issue_first (hcfg : cfg.Usable) (e c : String) :
    ISSUE_CODE_SCRIPT (verificationKeys e) c cfg.issue 0 empty =
    (some 1, issuedOnce cfg.issue e c) := by
  obtain ⟨hcool, hwin, hlim, httl, hglob, -⟩ := hcfg
  unfold ISSUE_CODE_SCRIPT verificationKeys issuedOnce
  have hg : update empty ("code_hourly_" ++ e)
      (some ⟨"1", some (0 + cfg.issue.hourlyWindowSeconds)⟩) globalKey = none :=
    update_of_ne (hourly_ne_global e).symm _ _
  have hfirst : Script.present ("code_cooldown_" ++ e) 0 empty = (some false, empty) := rfl
  rw [bind_of_some hfirst, if_neg (by decide), count_fresh hwin rfl,
    if_neg (not_lt.mpr hlim), count_fresh hwin hg, if_neg (not_lt.mpr hglob),
    bind_of_some (setEx_pos hcool _), bind_of_some (setEx_pos httl _)]
  simp only [Nat.zero_add]
  rfl

section IssuedOnce

variable (o : IssueOptions) (e c : String)

theorem issuedOnce_code : issuedOnce o e c ("code_" ++ e) = some ⟨c, some o.codeTtlSeconds⟩ := by
  unfold issuedOnce
  rw [update_of_ne (code_ne_attempts e), update_self]

theorem issuedOnce_attempts : issuedOnce o e c ("code_attempts_" ++ e) = none :=
  update_self (f := _) ..

theorem issuedOnce_cooldown :
    issuedOnce o e c ("code_cooldown_" ++ e) = some ⟨"1", some o.cooldownSeconds⟩ := by
  unfold issuedOnce
  rw [update_of_ne (cooldown_ne_attempts e), update_of_ne (code_ne_cooldown e).symm, update_self]

theorem issuedOnce_hourly :
    issuedOnce o e c ("code_hourly_" ++ e) = some ⟨"1", some o.hourlyWindowSeconds⟩ := by
  unfold issuedOnce
  rw [update_of_ne (hourly_ne_attempts e), update_of_ne (code_ne_hourly e).symm,
    update_of_ne (cooldown_ne_hourly e).symm, update_of_ne (hourly_ne_global e),
    update_self]

end IssuedOnce

variable {e : String}

theorem consume_stored {m : ℤ} (hn : now < n) (h : s ("code_" ++ e) = some ⟨v, some n⟩) :
    (ConsumeVerificationCode m e v now s).1 = .Success ∧ (ConsumeVerificationCode m e v now s).2 =
      update (update s ("code_" ++ e) none) ("code_attempts_" ++ e) none := by
  unfold ConsumeVerificationCode consumeScript
  rw [bind_of_some (get_live hn h)]
  dsimp only
  rw [if_neg (not_not.mpr rfl)]
  exact ⟨rfl, rfl⟩

/-- The code `c` can be submitted until time `t`, and `w` wrong ones have been. -/
structure Open (e c : String) (t w : ℕ) (s : Redis) : Prop where
  code : s ("code_" ++ e) = some ⟨c, some t⟩
  attempts : s ("code_attempts_" ++ e) = if w = 0 then none else some ⟨toString (w : ℤ), some t⟩

section Wrong

variable {e c submitted : String} {t w now : ℕ} {m : ℤ} {s : Redis} (h : Open e c t w s)
    (hnow : now < t)

include h hnow

theorem count_attempts {α : Type} (hw : (w : ℤ) + 1 < 2 ^ 63) (f : ℤ → Script String String α) :
    (do
      let attempts ← incr ("code_attempts_" ++ e)
      onlyIf (attempts = 1) do
        let ttl ← ttl ("code_" ++ e)
        expire ("code_attempts_" ++ e) (if ttl < 1 then 300 else ttl.toNat)
      f attempts) now s =
    f ((w : ℤ) + 1) now (update s ("code_attempts_" ++ e)
      (some ⟨toString ((w : ℤ) + 1), some t⟩)) := by
  by_cases hzero : w = 0
  · subst hzero
    have hattempts : s ("code_attempts_" ++ e) = none := h.attempts
    have hcode : update s ("code_attempts_" ++ e) (some ⟨"1", none⟩) ("code_" ++ e) =
        some ⟨c, some t⟩ := (update_of_ne (code_ne_attempts e) _ _).trans h.code
    have hseconds : (if ((t : ℤ) - now) < 1 then 300 else ((t : ℤ) - now).toNat) = t - now := by
      rw [if_neg (by omega)]
      omega
    have hcount : onlyIf ((1 : ℤ) = 1) (do
          let ttl ← ttl ("code_" ++ e)
          expire ("code_attempts_" ++ e) (if ttl < 1 then 300 else ttl.toNat)) now
        (update s ("code_attempts_" ++ e) (some ⟨"1", none⟩)) =
        (some (), update s ("code_attempts_" ++ e) (some ⟨"1", some (now + (t - now))⟩)) := by
      refine (bind_of_some (ttl_live hnow hcode)).trans ?_
      rw [hseconds]
      exact expire_fresh (by omega) s
    rw [bind_of_some (incr_fresh hattempts), bind_of_some hcount, show now + (t - now) = t by omega]
    rfl
  · have hattempts := h.attempts
    rw [if_neg hzero] at hattempts
    rw [bind_of_some (incr_live hnow (Nat.pos_of_ne_zero hzero) hw hattempts)]
    have hskip : ¬ ((w : ℤ) + 1 = 1) := by omega
    rw [onlyIf, if_neg hskip]
    rfl

/-- A wrong submission moves the counter of attempts on; the first one starts it with the lifetime
of the code. -/
theorem consume_wrong_open (hne : c ≠ submitted) (hw : (w : ℤ) + 1 < 2 ^ 63)
    (hlast : (w : ℤ) + 1 < m) :
    (ConsumeVerificationCode m e submitted now s).1 = .Mismatch ∧
      Open e c t (w + 1) (ConsumeVerificationCode m e submitted now s).2 := by
  unfold ConsumeVerificationCode consumeScript
  rw [bind_of_some (get_live hnow h.code)]
  dsimp only
  rw [if_pos hne, count_attempts h hnow hw, if_neg (not_le.mpr hlast)]
  refine ⟨rfl, (update_of_ne (code_ne_attempts e) _ _).trans h.code, ?_⟩
  exact (update_self ..).trans (if_neg (Nat.succ_ne_zero w)).symm

end Wrong

/-! ## Isolation and collisions -/

theorem lastIssued_other (cfg : Settings) (rs : List Request) (hrs : ∀ r ∈ rs, r.call.email ≠ e)
    (s : Redis) :
    lastIssued e (run cfg s rs).1 = none := by
  unfold lastIssued
  induction rs generalizing s with
  | nil => rfl
  | cons r rs ih =>
    show ((run cfg (perform cfg s r).2 rs).1).foldl (record e) (record e none _) = none
    rw [record_of_ne none (hrs r List.mem_cons_self)]
    exact ih (fun r' hr' => hrs r' (List.mem_cons_of_mem r hr')) _

/-- If requests about `e'` alone lead to a store that accepts a submission for `e`, codes are not
kept apart. -/
theorem unsound_of_accepted {A : Set String} {e' : String} (he : e ∈ A) (he' : e' ∈ A)
    (hne : e' ≠ e)
    (rs : List Request) (hrs : ∀ r ∈ rs, r.call.email = e') (hn : 0 < n)
    (h : (run cfg empty rs).2 ("code_" ++ e) = some ⟨v, some n⟩) : ¬ SuccessSound cfg A := by
  intro hsound
  have hover : Over A rs := fun r hr => (hrs r hr).symm ▸ he'
  have hlast := hsound rs hover e he v 0 (congrArg Outcome.consumed (consume_stored hn h).1)
  rw [lastIssued_other cfg rs (fun r hr => (hrs r hr).symm ▸ hne)] at hlast
  cases hlast

theorem perform_first (hcfg : cfg.Usable) (e c : String) :
    (perform cfg empty ⟨0, .issue e c⟩).2 = issuedOnce cfg.issue e c :=
  congrArg Prod.snd (issue_first hcfg e c)

/-- Of two addresses that collide, the longer one accepts `1` after requests about the shorter one
alone. -/
theorem collides_unsound (hcfg : cfg.Usable) {A : Set String} {e' : String} (he : e ∈ A)
    (he' : e' ∈ A)
    (h : Collides e e') : ¬ SuccessSound cfg A := by
  have hissue := perform_first hcfg e' "0"
  have hne := h.ne.symm
  obtain ⟨hcool, hwin, -, httl, -, hmax⟩ := hcfg
  rcases h with rfl | rfl | rfl
  · -- the counter of attempts, after one wrong submission
    refine unsound_of_accepted (v := "1") he he' hne [⟨0, .issue e' "0"⟩, ⟨0, .consume e' "1"⟩]
      (by simp [Call.email]) httl ?_
    rw [← attempts_eq]
    show (perform cfg (perform cfg empty ⟨0, .issue e' "0"⟩).2 ⟨0, .consume e' "1"⟩).2 _ = _
    rw [hissue]
    have hopen : Open e' "0" cfg.issue.codeTtlSeconds 0 (issuedOnce cfg.issue e' "0") :=
      ⟨issuedOnce_code _ _ _, issuedOnce_attempts _ _ _⟩
    exact (consume_wrong_open hopen httl (by decide) (by decide) (by push_cast; omega)).2.attempts
  · -- the cooldown
    refine unsound_of_accepted (v := "1") he he' hne [⟨0, .issue e' "0"⟩]
      (by simp [Call.email]) hcool ?_
    rw [← cooldown_eq]
    show (perform cfg empty ⟨0, .issue e' "0"⟩).2 _ = _
    rw [hissue]
    exact issuedOnce_cooldown _ _ _
  · -- the hourly counter
    refine unsound_of_accepted (v := "1") he he' hne [⟨0, .issue e' "0"⟩]
      (by simp [Call.email]) hwin ?_
    rw [← hourly_eq]
    show (perform cfg empty ⟨0, .issue e' "0"⟩).2 _ = _
    rw [hissue]
    exact issuedOnce_hourly _ _ _

/-- **Isolation.** Over the addresses of `A` a consumption succeeds only with the code most
recently issued for its address, and no request changes an outcome of another address but through
the global counter, exactly when no two addresses of `A` collide. -/
theorem sound_and_isolated_iff_collisionFree (cfg : Settings) (hcfg : cfg.Usable)
    (A : Set String) : (SuccessSound cfg A ∧ Isolated cfg A) ↔ CollisionFree A := by
  constructor
  · rintro ⟨hsound, -⟩ e he e' he' h
    exact collides_unsound hcfg he he' h hsound
  · intro hA
    exact ⟨successSound cfg hA, isolated cfg hA⟩

theorem sound_and_isolated_defaults : Settings.Usable {} ∧
    (SuccessSound {} {"alice@example.com", "bob@example.com"} ∧
      Isolated {} {"alice@example.com", "bob@example.com"}) := by
  refine ⟨by decide, (sound_and_isolated_iff_collisionFree {} (by decide) _).mpr ?_⟩
  rintro e (rfl | rfl) e' (rfl | rfl) <;> unfold Collides <;> decide

/-- Lower case on ASCII letters, other characters kept. -/
def toLowerCaseAscii (s : List Char) : List Char := s.map Char.toLower

/-- `normalizeEmail` accepts addresses that collide, so codes are not kept apart over the addresses
it accepts. -/
theorem accepted_not_isolated :
    ¬ (SuccessSound {} (Accepted toLowerCaseAscii) ∧ Isolated {} (Accepted toLowerCaseAscii)) := by
  rintro ⟨hsound, -⟩
  have he : "cooldown_bob@example.com" ∈ Accepted toLowerCaseAscii :=
    ⟨"cooldown_bob@example.com", by decide⟩
  have he' : "bob@example.com" ∈ Accepted toLowerCaseAscii := ⟨"bob@example.com", by decide⟩
  exact collides_unsound (by decide) he he' (Or.inr (Or.inl (by decide))) hsound

end DistributedChat.Verification
