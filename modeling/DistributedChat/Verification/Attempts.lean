import DistributedChat.Verification.Collisions

/-!
# Codes are used once, and guesses are limited

Two keys of an address carry a code that was issued for it and has not been used: the code, and the
number of wrong submissions if there were any, both until the same time (`Open`). A wrong submission
moves the counter on and starts it with the lifetime of the code; a right one, and the last wrong
one that is allowed, delete both keys (`Closed`). Only the next code opens them again.
-/

namespace DistributedChat.Verification

open Lib Function List
open Script (bind_of_some bind_apply onlyIf expire Keeps)

/-! ## What the scripts do to the two keys -/

theorem attempts_ne_global (e : String) : "code_attempts_" ++ e ≠ globalKey :=
  fun h => globalKey_notMem e (h ▸ attempts_mem e)

theorem count_cases {α : Type} (k : String) (n : ℕ) (f : ℤ → Script String String α) (now : ℕ)
    (s : Redis) : ∃ s₁ : Redis, (∀ k', k' ≠ k → s₁ k' = s k') ∧
      ((do let c ← incr k; onlyIf (c = 1) (expire k n); f c) now s = (none, s₁) ∨
        ∃ c, (do let c ← incr k; onlyIf (c = 1) (expire k n); f c) now s = f c now s₁) := by
  have hincr : ∀ k', k' ≠ k → (incr k now s).2 k' = s k' := fun k' hk' => Keeps.alter hk' _ now s
  rw [bind_apply]
  rcases hr : incr k now s with ⟨_ | c, s₁⟩ <;> rw [hr] at hincr
  · exact ⟨s₁, hincr, Or.inl rfl⟩
  have hexpire : ∀ k', k' ≠ k → (onlyIf (c = 1) (expire k n) now s₁).2 k' = s k' :=
    fun k' hk' => (Keeps.onlyIf (Keeps.expire hk' n) now s₁).trans (hincr k' hk')
  dsimp only
  rw [bind_apply]
  rcases hr' : onlyIf (c = 1) (expire k n) now s₁ with ⟨_ | u, s₂⟩ <;> rw [hr'] at hexpire
  · exact ⟨s₂, hexpire, Or.inl rfl⟩
  · exact ⟨s₂, hexpire, Or.inr ⟨c, rfl⟩⟩

/-- Issuing stores the code until its time and clears the counter, or leaves the two keys alone. -/
def Issues (o : IssueOptions) (e code : String) (now : ℕ) (s : Redis) (out : Option ℤ × Redis) :
    Prop :=
  (out.1 = some 1 ∧ out.2 ("code_" ++ e) = some ⟨code, some (now + o.codeTtlSeconds)⟩ ∧
    out.2 ("code_attempts_" ++ e) = none) ∨
  (out.1 ≠ some 1 ∧ out.2 ("code_" ++ e) = s ("code_" ++ e) ∧
    out.2 ("code_attempts_" ++ e) = s ("code_attempts_" ++ e))

theorem issues_script (o : IssueOptions) (e code : String) (now : ℕ) (s : Redis) :
    Issues o e code now s (ISSUE_CODE_SCRIPT (verificationKeys e) code o now s) := by
  -- the ways out before the code is stored
  have hkept : ∀ (r : Option ℤ) (s₁ : Redis), r ≠ some 1 → (∀ k, k ≠ "code_hourly_" ++ e →
      k ≠ globalKey → k ≠ "code_cooldown_" ++ e → s₁ k = s k) → Issues o e code now s (r, s₁) :=
    fun r s₁ hr h => Or.inr ⟨hr, h _ (code_ne_hourly e) (code_ne_global e) (code_ne_cooldown e),
      h _ (hourly_ne_attempts e).symm (attempts_ne_global e) (cooldown_ne_attempts e).symm⟩
  unfold ISSUE_CODE_SCRIPT verificationKeys
  dsimp only
  have hpresent : Script.present ("code_cooldown_" ++ e) now s =
      (some (s.find now ("code_cooldown_" ++ e)).isSome, s) := rfl
  rw [bind_of_some hpresent]
  split
  · exact hkept (some 2) s (by decide) fun _ _ _ _ => rfl
  obtain ⟨s₁, hs₁, hout⟩ := count_cases ("code_hourly_" ++ e) o.hourlyWindowSeconds _ now s
  rcases hout with hout | ⟨hourly, hout⟩
  · rw [hout]
    exact hkept none s₁ (by decide) fun k hk _ _ => hs₁ k hk
  rw [hout]
  split
  · exact hkept (some 3) s₁ (by decide) fun k hk _ _ => hs₁ k hk
  obtain ⟨s₂, hs₂, hout⟩ := count_cases globalKey o.hourlyWindowSeconds _ now s₁
  rcases hout with hout | ⟨global_hourly, hout⟩
  · rw [hout]
    exact hkept none s₂ (by decide) fun k hk hk' _ => (hs₂ k hk').trans (hs₁ k hk)
  rw [hout]
  split
  · exact hkept (some 4) s₂ (by decide) fun k hk hk' _ => (hs₂ k hk').trans (hs₁ k hk)
  have hcool : ∀ k, k ≠ "code_cooldown_" ++ e →
      (Script.setEx ("code_cooldown_" ++ e) "1" o.cooldownSeconds now s₂).2 k = s₂ k :=
    fun k hk => Keeps.setEx hk _ _ now s₂
  rw [bind_apply]
  rcases hr : Script.setEx ("code_cooldown_" ++ e) "1" o.cooldownSeconds now s₂ with ⟨_ | u, s₃⟩ <;>
    rw [hr] at hcool
  · exact hkept none s₃ (by decide) fun k hk hk' hk'' =>
      (hcool k hk'').trans ((hs₂ k hk').trans (hs₁ k hk))
  by_cases httl : o.codeTtlSeconds = 0
  · have hset : Script.setEx ("code_" ++ e) code o.codeTtlSeconds now s₃ = (none, s₃) := by
      unfold Script.setEx
      rw [if_pos httl]
    dsimp only
    rw [bind_apply, hset]
    exact hkept none s₃ (by decide) fun k hk hk' hk'' =>
      (hcool k hk'').trans ((hs₂ k hk').trans (hs₁ k hk))
  · refine Or.inl ?_
    dsimp only
    rw [bind_of_some (setEx_pos (Nat.pos_of_ne_zero httl) s₃)]
    refine ⟨rfl, ?_, update_self ..⟩
    exact (update_of_ne (code_ne_attempts e) _ _).trans (update_self ..)

def Closed (e : String) (s : Redis) : Prop := s ("code_" ++ e) = none

section Consume

variable {e c submitted : String} {t w now : ℕ} {m : ℤ} {s : Redis}

theorem consume_expired (h : s.find now ("code_" ++ e) = none) (m : ℤ) (submitted : String) :
    ConsumeVerificationCode m e submitted now s = (.Expired, s) := by
  have hget : Script.get ("code_" ++ e) now s = (some none, s) := by
    show (some (Option.map Entry.value (s.find now ("code_" ++ e))), s) = _
    rw [h]
    rfl
  unfold ConsumeVerificationCode consumeScript
  rw [bind_of_some hget]
  rfl

theorem consume_closed (h : Closed e s) (m : ℤ) (submitted : String) (now : ℕ) :
    ConsumeVerificationCode m e submitted now s = (.Expired, s) := by
  refine consume_expired ?_ m submitted
  unfold ExpiringMap.find
  rw [show s ("code_" ++ e) = none from h]
  rfl

theorem consume_late (h : Open e c t w s) (hlate : t ≤ now) (m : ℤ) (submitted : String) :
    ConsumeVerificationCode m e submitted now s = (.Expired, s) := by
  refine consume_expired ?_ m submitted
  unfold ExpiringMap.find
  rw [h.code]
  simp [Entry.live, hlate]

theorem closed_delete (s : Redis) :
    Closed e (update (update s ("code_" ++ e) none) ("code_attempts_" ++ e) none) :=
  (update_of_ne (code_ne_attempts e) _ _).trans (update_self ..)

section

variable (h : Open e c t w s) (hnow : now < t)

include h hnow

theorem consume_wrong_last (hne : c ≠ submitted) (hw : (w : ℤ) + 1 < 2 ^ 63)
    (hlast : m ≤ (w : ℤ) + 1) :
    (ConsumeVerificationCode m e submitted now s).1 = .TooManyAttempts ∧
      Closed e (ConsumeVerificationCode m e submitted now s).2 := by
  unfold ConsumeVerificationCode consumeScript
  rw [bind_of_some (get_live hnow h.code)]
  dsimp only
  rw [if_pos hne, count_attempts h hnow hw, if_pos hlast]
  exact ⟨rfl, closed_delete _⟩

end

end Consume

/-! ## Runs -/

def Event.issues (ev : Event) : Bool :=
  match ev.request.call, ev.outcome with
  | .issue _ _, .issued n => n == 1
  | _, _ => false

def Event.succeeds (ev : Event) : Bool := ev.outcome == .consumed .Success

/-- A submission was compared with a code and found wrong. -/
def Event.misses (ev : Event) : Bool :=
  match ev.outcome with
  | .consumed result => result != .Success && result != .Expired
  | .issued _ => false

open Event (misses)

def eventOf (cfg : Settings) (s : Redis) (r : Request) : Event :=
  ⟨r, globalSeen s r, (perform cfg s r).1⟩

theorem run_cons (cfg : Settings) (s : Redis) (r : Request) (rs : List Request) :
    run cfg s (r :: rs) = (eventOf cfg s r :: (run cfg (perform cfg s r).2 rs).1,
      (run cfg (perform cfg s r).2 rs).2) := rfl

theorem run_concat (cfg : Settings) (s : Redis) (rs : List Request) (r : Request) :
    run cfg s (rs ++ [r]) = ((run cfg s rs).1 ++ [eventOf cfg (run cfg s rs).2 r],
      (perform cfg (run cfg s rs).2 r).2) := by
  induction rs generalizing s with
  | nil => rfl
  | cons q rs ih => rw [cons_append, run_cons, ih, run_cons, cons_append]

theorem run_split {cfg : Settings} {s : Redis} {rs : List Request} {pre post : List Event}
    (h : (run cfg s rs).1 = pre ++ post) :
    ∃ rs₁ rs₂, rs = rs₁ ++ rs₂ ∧ (run cfg s rs₁).1 = pre ∧
    (run cfg (run cfg s rs₁).2 rs₂).1 = post := by
  induction pre generalizing s rs with
  | nil => exact ⟨[], rs, rfl, rfl, h⟩
  | cons ev pre ih =>
    cases rs with
    | nil => cases h
    | cons r rs =>
      rw [run_cons] at h
      obtain ⟨hev, htail⟩ := List.cons.inj h
      obtain ⟨rs₁, rs₂, rfl, hpre, hpost⟩ := ih htail
      refine ⟨r :: rs₁, rs₂, rfl, ?_, hpost⟩
      rw [run_cons, hpre, hev]

section Phase

variable (cfg : Settings) (e : String)

/-- What the events say of the two keys: no code has been issued; or the last one is open and has
met only wrong submissions since, fewer than are allowed; or it has been closed by one that
succeeded or by the last one allowed. -/
inductive Phase (es : List Event) (s : Redis) : Prop
  | unissued (hnone : ∀ ev ∈ es, ev.issues = false ∧ ev.succeeds = false) (h : Closed e s)
  | opened {pre mid : List Event} {i : Event} {c : String} (hes : es = pre ++ i :: mid)
      (hcall : i.request.call = .issue e c) (hissued : i.issues = true)
      (hmid : ∀ ev ∈ mid, ev.issues = false) (hnone : mid.countP Event.succeeds = 0)
      (hmisses : (mid.countP Event.misses : ℤ) < cfg.maxAttempts)
      (h : Open e c (i.request.now + cfg.issue.codeTtlSeconds) (mid.countP Event.misses) s)
  | closed {pre mid : List Event} {i : Event} (hes : es = pre ++ i :: mid)
      (hissued : i.issues = true) (hmid : ∀ ev ∈ mid, ev.issues = false)
      (honce : mid.countP Event.succeeds ≤ 1)
      (hmisses : (mid.countP Event.misses : ℤ) ≤ cfg.maxAttempts) (h : Closed e s)

variable {cfg e} {es : List Event} {s : Redis}

variable {now : ℕ}

theorem issues_iff {code : String} : (eventOf cfg s ⟨now, .issue e code⟩).issues = true ↔
    (ISSUE_CODE_SCRIPT (verificationKeys e) code cfg.issue now s).1 = some 1 := by
  show ((ISSUE_CODE_SCRIPT (verificationKeys e) code cfg.issue now s).1.getD 0 == 1) = true ↔ _
  rcases (ISSUE_CODE_SCRIPT (verificationKeys e) code cfg.issue now s).1 with _ | n
  · exact ⟨fun h => absurd h (by decide), nofun⟩
  · rw [Option.getD_some, beq_iff_eq, Option.some.injEq]

theorem Phase.idle (h : Phase cfg e es s) {s' : Redis} {ev : Event} (hissues : ev.issues = false)
    (hsucceeds : ev.succeeds = false) (hmisses : ev.misses = false)
    (hcode : s' ("code_" ++ e) = s ("code_" ++ e))
    (hattempts : s' ("code_attempts_" ++ e) = s ("code_attempts_" ++ e)) :
    Phase cfg e (es ++ [ev]) s' := by
  have hall : ∀ mid : List Event, (∀ ev ∈ mid, ev.issues = false) →
      ∀ ev' ∈ mid ++ [ev], ev'.issues = false := fun mid hmid =>
    forall_mem_append.mpr ⟨hmid, forall_mem_singleton.mpr hissues⟩
  have hcount : ∀ mid : List Event,
    (mid ++ [ev]).countP Event.succeeds = mid.countP Event.succeeds ∧
      (mid ++ [ev]).countP misses = mid.countP misses := fun mid => by
    rw [countP_append, countP_append, countP_singleton, countP_singleton, hsucceeds, hmisses]
    exact ⟨rfl, rfl⟩
  cases h with
  | unissued hnone h =>
    refine .unissued ?_ (hcode.trans h)
    exact forall_mem_append.mpr ⟨hnone, forall_mem_singleton.mpr ⟨hissues, hsucceeds⟩⟩
  | @opened pre mid i c hes hcall hissued hmid hnone hmiss h =>
    rw [← (hcount mid).2] at hmiss h
    rw [← (hcount mid).1] at hnone
    exact .opened (by rw [hes, append_assoc, cons_append]) hcall hissued (hall mid hmid) hnone
      hmiss ⟨hcode.trans h.code, hattempts.trans h.attempts⟩
  | @closed pre mid i hes hissued hmid honce hmiss h =>
    rw [← (hcount mid).2] at hmiss
    rw [← (hcount mid).1] at honce
    exact .closed (by rw [hes, append_assoc, cons_append]) hissued (hall mid hmid) honce hmiss
      (hcode.trans h)

theorem Phase.issue (hm : 1 ≤ cfg.maxAttempts) (h : Phase cfg e es s) (now : ℕ) (code : String) :
    Phase cfg e (es ++ [eventOf cfg s ⟨now, .issue e code⟩])
    (perform cfg s ⟨now, .issue e code⟩).2 := by
  rcases issues_script cfg.issue e code now s with
    ⟨hone, hcode, hattempts⟩ | ⟨hnot, hcode, hattempts⟩
  · refine .opened rfl rfl (issues_iff.mpr hone) (forall_mem_nil _) rfl ?_ ⟨hcode, hattempts⟩
    show ((0 : ℕ) : ℤ) < _
    omega
  · have hissues : (eventOf cfg s ⟨now, .issue e code⟩).issues = false := by
      rw [← Bool.not_eq_true, issues_iff]
      exact hnot
    exact h.idle hissues rfl rfl hcode hattempts

variable {submitted : String}

theorem eventOf_consume {result : VerificationResult}
    (h : (ConsumeVerificationCode cfg.maxAttempts e submitted now s).1 = result) :
    (eventOf cfg s ⟨now, .consume e submitted⟩).issues = false ∧
      (eventOf cfg s ⟨now, .consume e submitted⟩).succeeds = (result == .Success) ∧
      (eventOf cfg s ⟨now, .consume e submitted⟩).misses =
      (result != .Success && result != .Expired) := by
  have hout : (eventOf cfg s ⟨now, .consume e submitted⟩).outcome = .consumed result :=
    congrArg Outcome.consumed h
  refine ⟨rfl, ?_, ?_⟩
  · unfold Event.succeeds
    rw [hout, Bool.eq_iff_iff, beq_iff_eq, beq_iff_eq, Outcome.consumed.injEq]
  · unfold misses
    rw [hout]

theorem Phase.expired (h : Phase cfg e es s)
    (hout : ConsumeVerificationCode cfg.maxAttempts e submitted now s = (.Expired, s)) :
    Phase cfg e (es ++ [eventOf cfg s ⟨now, .consume e submitted⟩])
      (perform cfg s ⟨now, .consume e submitted⟩).2 := by
  have hstore : (perform cfg s ⟨now, .consume e submitted⟩).2 = s := congrArg Prod.snd hout
  obtain ⟨hissues, hsucceeds, hmisses⟩ := eventOf_consume (congrArg Prod.fst hout)
  rw [hstore]
  exact h.idle hissues hsucceeds hmisses rfl rfl

theorem Phase.consume (hm : cfg.maxAttempts < 2 ^ 31) (h : Phase cfg e es s) (now : ℕ)
    (submitted : String) :
    Phase cfg e (es ++ [eventOf cfg s ⟨now, .consume e submitted⟩])
      (perform cfg s ⟨now, .consume e submitted⟩).2 := by
  cases h with
  | unissued hnone h => exact (Phase.unissued hnone h).expired (consume_closed h _ submitted now)
  | closed hes hissued hmid honce hmisses h =>
    exact (Phase.closed hes hissued hmid honce hmisses h).expired (consume_closed h _ submitted now)
  | @opened pre mid i c hes hcall hissued hmid hnone hmisses h =>
    have hes' : ∀ x, es ++ [x] = pre ++ i :: (mid ++ [x]) := fun x => by
      rw [hes, append_assoc, cons_append]
    have hmid' : ∀ x : Event, x.issues = false → ∀ ev ∈ mid ++ [x], ev.issues = false := fun x hx =>
      forall_mem_append.mpr ⟨hmid, forall_mem_singleton.mpr hx⟩
    by_cases hlate : i.request.now + cfg.issue.codeTtlSeconds ≤ now
    · exact (Phase.opened hes hcall hissued hmid hnone hmisses h).expired
        (consume_late h hlate _ submitted)
    have hnow := not_le.mp hlate
    have hw : ((mid.countP misses : ℕ) : ℤ) + 1 < 2 ^ 63 := by omega
    by_cases hright : c = submitted
    · -- the code is used up
      subst hright
      obtain ⟨hresult, hstore⟩ := consume_stored (m := cfg.maxAttempts) hnow h.code
      have hclosed : Closed e (perform cfg s ⟨now, .consume e c⟩).2 := hstore ▸ closed_delete s
      obtain ⟨hissues, hsucceeds, hmiss⟩ := eventOf_consume hresult
      refine .closed (hes' _) hissued (hmid' _ hissues) ?_ ?_ hclosed
      · rw [countP_append, countP_singleton, hnone, hsucceeds]
        decide
      · rw [countP_append, countP_singleton, hmiss]
        exact hmisses.le
    · by_cases hlast : ((mid.countP misses : ℕ) : ℤ) + 1 < cfg.maxAttempts
      · obtain ⟨hresult, hopen⟩ := consume_wrong_open h hnow hright hw hlast
        obtain ⟨hissues, hsucceeds, hmiss⟩ := eventOf_consume hresult
        have hcount : (mid ++ [eventOf cfg s ⟨now, .consume e submitted⟩]).countP misses =
            mid.countP misses + 1 := by
          rw [countP_append, countP_singleton, hmiss]
          rfl
        refine .opened (hes' _) hcall hissued (hmid' _ hissues) ?_ ?_ (hcount ▸ hopen)
        · rw [countP_append, countP_singleton, hnone, hsucceeds]
          rfl
        · rw [hcount]
          exact hlast
      · obtain ⟨hresult, hclosed⟩ := consume_wrong_last h hnow hright hw (not_lt.mp hlast)
        obtain ⟨hissues, hsucceeds, hmiss⟩ := eventOf_consume hresult
        refine .closed (hes' _) hissued (hmid' _ hissues) ?_ ?_ hclosed
        · rw [countP_append, countP_singleton, hnone, hsucceeds]
          decide
        · rw [countP_append, countP_singleton, hmiss]
          push_cast
          exact hmisses

theorem phase_run (hm : 1 ≤ cfg.maxAttempts ∧ cfg.maxAttempts < 2 ^ 31) (rs : List Request)
    (hrs : ∀ r ∈ rs, r.call.email = e) : Phase cfg e (run cfg empty rs).1 (run cfg empty rs).2 := by
  induction rs using List.reverseRecOn with
  | nil => exact .unissued (forall_mem_nil _) rfl
  | append_singleton rs r ih =>
    have ih := ih fun q hq => hrs q (mem_append_left _ hq)
    have hr := hrs r (mem_append_right _ (mem_singleton_self r))
    rw [run_concat]
    obtain ⟨now, ⟨e', code⟩ | ⟨e', submitted⟩⟩ := r
    · obtain rfl : e' = e := hr
      exact ih.issue hm.1 now code
    · obtain rfl : e' = e := hr
      exact ih.consume hm.2 now submitted

theorem Phase.succeeds (h : Phase cfg e es s)
    (hok : (eventOf cfg s ⟨now, .consume e submitted⟩).succeeds = true) :
    ∃ pre i mid, es = pre ++ i :: mid ∧ i.issues = true ∧ (∀ ev ∈ mid, ev.issues = false) ∧
      i.request.call = .issue e submitted ∧ now < i.request.now + cfg.issue.codeTtlSeconds ∧
      (mid.countP misses : ℤ) < cfg.maxAttempts := by
  have hclosed : ¬ ConsumeVerificationCode cfg.maxAttempts e submitted now s = (.Expired, s) := by
    intro hout
    rw [(eventOf_consume (congrArg Prod.fst hout)).2.1] at hok
    cases hok
  cases h with
  | unissued _ h | closed _ _ _ _ _ h => exact absurd (consume_closed h _ submitted now) hclosed
  | @opened pre mid i c hes hcall hissued hmid hnone hmisses h =>
    have hnow : now < i.request.now + cfg.issue.codeTtlSeconds := by
      by_contra hlate
      exact hclosed (consume_late h (not_lt.mp hlate) _ submitted)
    have hresult : (ConsumeVerificationCode cfg.maxAttempts e submitted now s).1 = .Success :=
      eq_of_beq ((eventOf_consume rfl).2.1.symm.trans hok)
    obtain ⟨t, ht⟩ := consume_success hresult
    cases h.code.symm.trans ht
    exact ⟨pre, i, mid, hes, hissued, hmid, hcall, hnow, hmisses⟩

theorem last_issue_unique {pre pre' mid mid' : List Event} {i i' : Event}
    (h : pre ++ i :: mid = pre' ++ i' :: mid') (hi : i.issues = true) (hi' : i'.issues = true)
    (hmid : ∀ ev ∈ mid, ev.issues = false) (hmid' : ∀ ev ∈ mid', ev.issues = false) :
    mid = mid' := by
  have hnot : ∀ {x : Event} {xs ys zs : List Event}, (∀ ev ∈ xs, ev.issues = false) →
      x.issues = true → xs ≠ ys ++ x :: zs := by
    rintro x xs ys zs hxs hx rfl
    rw [hxs x (mem_append_right _ mem_cons_self)] at hx
    cases hx
  rcases append_eq_append_iff.mp h with ⟨as, -, has⟩ | ⟨as, -, has⟩
  · cases as with
    | nil => exact (List.cons.inj has).2
    | cons a as => exact absurd (List.cons.inj has).2 (hnot hmid hi')
  · cases as with
    | nil => exact (List.cons.inj has).2.symm
    | cons a as => exact absurd (List.cons.inj has).2 (hnot hmid' hi)

theorem Phase.counts {pre mid : List Event} {i : Event} (h : Phase cfg e (pre ++ i :: mid) s)
    (hi : i.issues = true) (hmid : ∀ ev ∈ mid, ev.issues = false) :
    mid.countP Event.succeeds ≤ 1 ∧ (mid.countP misses : ℤ) ≤ cfg.maxAttempts := by
  cases h with
  | unissued hnone h =>
    rw [(hnone i (mem_append_right _ mem_cons_self)).1] at hi
    cases hi
  | opened hes hcall hissued hmid' hnone hmisses h =>
    obtain rfl := last_issue_unique hes hi hissued hmid hmid'
    rw [hnone]
    exact ⟨Nat.zero_le 1, hmisses.le⟩
  | closed hes hissued hmid' honce hmisses h =>
    obtain rfl := last_issue_unique hes hi hissued hmid hmid'
    exact ⟨honce, hmisses⟩

end Phase

/-- **A code is used once and guessed at most `max_attempts` times.** In every run about one address
a submission succeeds only with the code of the last issue before it, and before the time of that
code ends. Between an issue and the next one at most one submission succeeds, and at most
`max_attempts` are found wrong; after that many none succeeds. -/
theorem codes_single_use {cfg : Settings} (hm : 1 ≤ cfg.maxAttempts ∧ cfg.maxAttempts < 2 ^ 31)
    {e : String} {rs : List Request} (hrs : ∀ r ∈ rs, r.call.email = e) :
    (∀ pre ev post, (run cfg empty rs).1 = pre ++ ev :: post → ev.succeeds = true →
      ∃ pre' i mid code, pre = pre' ++ i :: mid ∧ i.issues = true ∧ (∀ x ∈ mid, x.issues = false) ∧
        i.request.call = .issue e code ∧ ev.request.call = .consume e code ∧
        ev.request.now < i.request.now + cfg.issue.codeTtlSeconds) ∧
    ∀ pre i mid post, (run cfg empty rs).1 = pre ++ i :: (mid ++ post) → i.issues = true →
      (∀ x ∈ mid, x.issues = false) →
      mid.countP Event.succeeds ≤ 1 ∧ (mid.countP Event.misses : ℤ) ≤ cfg.maxAttempts ∧
      ∀ mid₁ ev mid₂, mid = mid₁ ++ ev :: mid₂ →
        cfg.maxAttempts ≤ (mid₁.countP Event.misses : ℤ) → ev.succeeds = false := by
  -- an event that succeeds, and the keys before it
  have hsucceeds : ∀ pre ev post, (run cfg empty rs).1 = pre ++ ev :: post → ev.succeeds = true →
      ∃ pre' i mid code, pre = pre' ++ i :: mid ∧ i.issues = true ∧ (∀ x ∈ mid, x.issues = false) ∧
        i.request.call = .issue e code ∧ ev.request.call = .consume e code ∧
        ev.request.now < i.request.now + cfg.issue.codeTtlSeconds ∧
        (mid.countP misses : ℤ) < cfg.maxAttempts := by
    intro pre ev post hes hok
    obtain ⟨rs₁, rs₂, rfl, rfl, hpost⟩ := run_split hes
    have hphase := phase_run hm rs₁ fun r hr => hrs r (mem_append_left _ hr)
    cases rs₂ with
    | nil => cases hpost
    | cons r rs₂ =>
      have hr := hrs r (mem_append_right _ mem_cons_self)
      rw [run_cons] at hpost
      obtain rfl := (List.cons.inj hpost).1
      obtain ⟨now, ⟨e', code⟩ | ⟨e', submitted⟩⟩ := r
      · cases hok
      · obtain rfl : e' = e := hr
        obtain ⟨pre', i, mid, hpre, hi, hmid, hcall, hnow, hmisses⟩ := hphase.succeeds hok
        exact ⟨pre', i, mid, submitted, hpre, hi, hmid, hcall, rfl, hnow, hmisses⟩
  refine ⟨fun pre ev post hes hok => ?_, fun pre i mid post hes hi hmid => ?_⟩
  · obtain ⟨pre', i, mid, code, hpre, hi, hmid, hcall, hcall', hnow, -⟩ :=
      hsucceeds pre ev post hes hok
    exact ⟨pre', i, mid, code, hpre, hi, hmid, hcall, hcall', hnow⟩
  · have hes' : (run cfg empty rs).1 = (pre ++ i :: mid) ++ post := by
      rw [hes, append_assoc, cons_append]
    obtain ⟨rs₁, rs₂, rfl, hpre, -⟩ := run_split hes'
    have hphase := phase_run hm rs₁ fun r hr => hrs r (mem_append_left _ hr)
    rw [hpre] at hphase
    obtain ⟨honce, hmisses⟩ := hphase.counts hi hmid
    refine ⟨honce, hmisses, fun mid₁ ev mid₂ hsplit hlimit => ?_⟩
    by_contra hok
    rw [Bool.not_eq_false] at hok
    have hes'' : (run cfg empty (rs₁ ++ rs₂)).1 = (pre ++ i :: mid₁) ++ ev :: (mid₂ ++ post) := by
      rw [hes, hsplit]
      simp only [append_assoc, cons_append]
    obtain ⟨pre', i', mid', code, hpre', hi', hmid', -, -, -, hfew⟩ := hsucceeds _ ev _ hes'' hok
    have hmid₁ : ∀ x ∈ mid₁, x.issues = false := fun x hx =>
      hmid x (hsplit ▸ mem_append_left _ hx)
    obtain rfl := last_issue_unique hpre' hi hi' hmid₁ hmid'
    exact absurd hlimit (not_le.mpr hfew)

/-- One wrong submission, then the right one, then the right one again. -/
theorem codes_single_use_sample :
    let rs : List Request := [⟨0, .consume "a@b.c" "1"⟩, ⟨1, .consume "a@b.c" "2"⟩,
      ⟨2, .consume "a@b.c" "2"⟩]
    let s := (perform {} empty ⟨0, .issue "a@b.c" "2"⟩).2
    (run {} s rs).1.map Event.outcome =
      [.consumed .Mismatch, .consumed .Success, .consumed .Expired] ∧
    (run {} s rs).1.countP Event.succeeds ≤ 1 := by
  intro rs s
  have hevents : (run {} s rs).1.map Event.outcome =
      [.consumed .Mismatch, .consumed .Success, .consumed .Expired] := by decide +kernel
  have hes : (run {} empty (⟨0, .issue "a@b.c" "2"⟩ :: rs)).1 =
      [] ++ eventOf {} empty ⟨0, .issue "a@b.c" "2"⟩ :: ((run {} s rs).1 ++ []) := by
    rw [run_cons, append_nil]
    rfl
  have hissued : (eventOf {} empty ⟨0, .issue "a@b.c" "2"⟩).issues = true := by decide +kernel
  have hmid : ∀ x ∈ (run {} s rs).1, x.issues = false := by decide +kernel
  have hrs : ∀ r ∈ (⟨0, .issue "a@b.c" "2"⟩ : Request) :: rs, r.call.email = "a@b.c" := by decide
  exact ⟨hevents, ((codes_single_use (by decide) hrs).2 [] _ _ [] hes hissued hmid).1⟩

end DistributedChat.Verification
