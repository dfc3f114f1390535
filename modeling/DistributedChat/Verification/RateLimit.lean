import DistributedChat.Lib.FixedWindow
import DistributedChat.Verification.Attempts

/-!
# Issuing is rate limited

Two keys of an address limit how often a code is issued for it: the cooldown, which is present for
some seconds after an issue, and the hourly counter, a fixed window. The third limit is the global
counter, which all addresses share; here it is set to anything between two calls.

1. `count_counter`: what counting does to a counter with a lifetime.
2. `issue_limited`: what the script does to the two keys of the address.
3. `Limited`: what they say about the times of the issues, in every run.
-/

namespace DistributedChat.Verification

open Lib Function List
open Script (Keeps bind_of_some onlyIf expire)

/-! ## A counter with a lifetime -/

/-- The counter at `k`: absent, or started at `g` and at `n`. -/
inductive Counter (k : String) (w : ℕ) (s : Redis) : Option (ℕ × ℕ) → Prop
  | absent (h : s k = none) : Counter k w s none
  | counting {n g : ℕ} (h : s k = some ⟨toString (n : ℤ), some (g + w)⟩) (hn : 0 < n)
      (hlt : (n : ℤ) < 2 ^ 63) : Counter k w s (some (n, g))

/-- The counter after it has counted one call: a new one, or one more. -/
def Counts (w now n g : ℕ) (old : Option (ℕ × ℕ)) : Prop :=
  (n = 1 ∧ g = now ∧ ∀ n₀ g₀, old = some (n₀, g₀) → g₀ + w ≤ now) ∨
    ∃ n₀, old = some (n₀, g) ∧ n = n₀ + 1 ∧ now < g + w

variable {k : String} {now : ℕ} {s : Redis}

theorem incr_absent (h : s.find now k = none) :
    incr k now s = (some 1, update s k (some ⟨"1", none⟩)) := by
  unfold incr Script.alter
  rw [h]
  rfl

theorem find_expired {v : String} {t : ℕ} (ht : t ≤ now) (h : s k = some ⟨v, some t⟩) :
    s.find now k = none := by
  unfold ExpiringMap.find
  rw [h]
  simp [Entry.live, ht]

theorem incr_overflow {t n : ℕ} (ht : now < t) (hn : 0 < n) (hlt : (n : ℤ) < 2 ^ 63)
    (hlast : ¬ (n : ℤ) + 1 < 2 ^ 63) (h : s k = some ⟨toString (n : ℤ), some t⟩) :
    incr k now s = (none, s) := by
  have hstep : (do
      let m ← string2ll (toString (n : ℤ))
      if m + 1 < 2 ^ 63 then some (m + 1, toString (m + 1)) else none : Option (ℤ × String)) =
        none := by
    rw [string2ll_toString hn hlt, Option.bind_eq_bind, Option.bind_some, if_neg hlast]
  unfold incr Script.alter
  rw [find_live ht h]
  simp only [Option.map_some, hstep]

theorem count_counter {α : Type} {w : ℕ} (hw : 0 < w) {old : Option (ℕ × ℕ)} (h : Counter k w s old)
    (now : ℕ)
    (f : ℤ → Script String String α) :
    (do let c ← incr k; onlyIf (c = 1) (expire k w); f c) now s = (none, s) ∨
    ∃ n g : ℕ, 0 < n ∧ (n : ℤ) < 2 ^ 63 ∧ Counts w now n g old ∧
      (do let c ← incr k; onlyIf (c = 1) (expire k w); f c) now s =
        f n now (update s k (some ⟨toString (n : ℤ), some (g + w)⟩)) := by
  have hnew : s.find now k = none → (∀ n₀ g₀, old = some (n₀, g₀) → g₀ + w ≤ now) →
      ∃ n g : ℕ, 0 < n ∧ (n : ℤ) < 2 ^ 63 ∧ Counts w now n g old ∧
        (do let c ← incr k; onlyIf (c = 1) (expire k w); f c) now s =
          f n now (update s k (some ⟨toString (n : ℤ), some (g + w)⟩)) := by
    intro hfind hold
    refine ⟨1, now, Nat.one_pos, by decide, Or.inl ⟨rfl, rfl, hold⟩, ?_⟩
    rw [bind_of_some (incr_absent hfind)]
    exact bind_of_some (expire_fresh hw s)
  cases h with
  | absent h => exact Or.inr (hnew (by unfold ExpiringMap.find; rw [h]; rfl) nofun)
  | @counting n g h hn hlt =>
    by_cases hlive : now < g + w
    · by_cases hlast : (n : ℤ) + 1 < 2 ^ 63
      · refine Or.inr
          ⟨n + 1, g, Nat.succ_pos n, by exact_mod_cast hlast, Or.inr ⟨n, rfl, rfl, hlive⟩, ?_⟩
        rw [bind_of_some (incr_live hlive hn hlast h), onlyIf, if_neg (by omega)]
        rfl
      · refine Or.inl ?_
        rw [Script.bind_apply, incr_overflow hlive hn hlt hlast h]
    · refine Or.inr (hnew (find_expired (not_lt.mp hlive) h) fun n₀ g₀ hold => ?_)
      cases hold
      exact not_lt.mp hlive

/-! ## The two scripts and the two keys -/

variable {e : String}

/-- An issue finds the cooldown or fails to count, and changes neither key; or it counts. Then it
succeeds only within the limit, and sets the cooldown. -/
theorem issue_limited {o : IssueOptions} (hc : 0 < o.cooldownSeconds)
    (hw : 0 < o.hourlyWindowSeconds)
    (httl : 0 < o.codeTtlSeconds) {old : Option (ℕ × ℕ)}
    (h : Counter ("code_hourly_" ++ e) o.hourlyWindowSeconds s old) (code : String) (now : ℕ) :
    let out := ISSUE_CODE_SCRIPT (verificationKeys e) code o now s
    (out.1 ≠ some 1 ∧ out.2 ("code_cooldown_" ++ e) = s ("code_cooldown_" ++ e) ∧
      out.2 ("code_hourly_" ++ e) = s ("code_hourly_" ++ e)) ∨
    (s.find now ("code_cooldown_" ++ e) = none ∧ ∃ n g : ℕ, 0 < n ∧ (n : ℤ) < 2 ^ 63 ∧
      Counts o.hourlyWindowSeconds now n g old ∧
      out.2 ("code_hourly_" ++ e) = some ⟨toString (n : ℤ), some (g + o.hourlyWindowSeconds)⟩ ∧
      ((out.1 ≠ some 1 ∧ out.2 ("code_cooldown_" ++ e) = s ("code_cooldown_" ++ e)) ∨
        (out.1 = some 1 ∧ n ≤ o.hourlyLimit ∧
          out.2 ("code_cooldown_" ++ e) = some ⟨"1", some (now + o.cooldownSeconds)⟩))) := by
  dsimp only
  unfold ISSUE_CODE_SCRIPT verificationKeys
  dsimp only
  have hpresent : Script.present ("code_cooldown_" ++ e) now s =
      (some (s.find now ("code_cooldown_" ++ e)).isSome, s) := rfl
  rw [bind_of_some hpresent]
  split
  · exact Or.inl ⟨by simp [Script.pure_apply], rfl, rfl⟩
  · next hcool =>
    have hcool : s.find now ("code_cooldown_" ++ e) = none := by simpa using hcool
    rcases count_counter hw h now _ with hout | ⟨n, g, hn, hlt, hcounts, hout⟩
    · rw [hout]
      exact Or.inl ⟨by rintro ⟨⟩, rfl, rfl⟩
    rw [hout]
    refine Or.inr ⟨hcool, n, g, hn, hlt, hcounts, ?_⟩
    -- the store after the hourly counter, and its two keys
    generalize hs₁ : update s ("code_hourly_" ++ e)
      (some ⟨toString (n : ℤ), some (g + o.hourlyWindowSeconds)⟩) = s₁
    have hhourly :
      s₁ ("code_hourly_" ++ e) = some ⟨toString (n : ℤ), some (g + o.hourlyWindowSeconds)⟩ := by
      rw [← hs₁, update_self]
    have hcooldown : s₁ ("code_cooldown_" ++ e) = s ("code_cooldown_" ++ e) := by
      rw [← hs₁, update_of_ne (cooldown_ne_hourly e)]
    split
    · exact ⟨hhourly, Or.inl ⟨by simp [Script.pure_apply], hcooldown⟩⟩
    · next hlimit =>
      obtain ⟨s₂, hs₂, hout⟩ := count_cases globalKey o.hourlyWindowSeconds _ now s₁
      have hhourly₂ := (hs₂ _ (hourly_ne_global e)).trans hhourly
      have hcooldown₂ := (hs₂ _ (cooldown_ne_global e)).trans hcooldown
      rcases hout with hout | ⟨global_hourly, hout⟩ <;> rw [hout]
      · exact ⟨hhourly₂, Or.inl ⟨by rintro ⟨⟩, hcooldown₂⟩⟩
      split
      · exact ⟨hhourly₂, Or.inl ⟨by simp [Script.pure_apply], hcooldown₂⟩⟩
      · have hdel : ∀ s : Redis,
          (do Script.del ("code_attempts_" ++ e); pure 1 : Script String String ℤ) now s =
            (some 1, update s ("code_attempts_" ++ e) none) := fun _ => rfl
        rw [bind_of_some (setEx_pos hc s₂), bind_of_some (setEx_pos httl _), hdel]
        dsimp only
        refine ⟨?_, Or.inr ⟨rfl, not_lt.mp hlimit, ?_⟩⟩
        · rw [update_of_ne (hourly_ne_attempts e), update_of_ne (code_ne_hourly e).symm,
            update_of_ne (cooldown_ne_hourly e).symm, hhourly₂]
        · rw [update_of_ne (cooldown_ne_attempts e), update_of_ne (code_ne_cooldown e).symm,
            update_self]

theorem consume_keeps {submitted : String} {m : ℤ} (hcode : k ≠ "code_" ++ e)
    (hattempts : k ≠ "code_attempts_" ++ e) :
    Keeps k (consumeScript ("code_" ++ e) ("code_attempts_" ++ e) submitted m) := by
  have hget : Keeps k (Script.get ("code_" ++ e) : Script String String _) := fun _ _ => rfl
  have hret : ∀ n : ℤ, Keeps k (pure n : Script String String ℤ) := fun _ _ _ => rfl
  have hdel : ∀ n : ℤ, Keeps k (do
      Script.del ("code_" ++ e); Script.del ("code_attempts_" ++ e); return n :
        Script String String ℤ) :=
    fun n => (Keeps.del hcode).andThen fun _ => (Keeps.del hattempts).andThen fun _ => hret n
  unfold consumeScript
  refine hget.andThen fun expected => ?_
  cases expected with
  | none => exact hret _
  | some expected =>
    dsimp only
    split
    · refine (Keeps.alter hattempts _).andThen fun attempts => ?_
      refine (Keeps.onlyIf ((Keeps.ttl _).andThen fun _ => Keeps.expire hattempts _)).andThen
        fun _ => ?_
      split
      · exact hdel _
      · exact hret _
    · exact hdel 1

/-! ## Runs -/

/-- A call about the address, or a call that changes only the global counter. -/
inductive Act
  | call (r : Request)
  | setGlobal (value : Option (Entry String))
  deriving DecidableEq

def Act.time : Act → Option ℕ
  | .call r => some r.now
  | .setGlobal _ => none

def act (cfg : Settings) (s : Redis) : Act → List Event × Redis
  | .call r => ([eventOf cfg s r], (perform cfg s r).2)
  | .setGlobal value => ([], update s globalKey value)

/-- The events of the calls, and the store they leave. -/
def replay (cfg : Settings) (s : Redis) : List Act → List Event × Redis
  | [] => ([], s)
  | a :: as =>
    let (es, s') := act cfg s a
    let (es', s'') := replay cfg s' as
    (es ++ es', s'')

theorem replay_concat (cfg : Settings) (s : Redis) (as : List Act) (a : Act) :
    replay cfg s (as ++ [a]) =
      ((replay cfg s as).1 ++ (act cfg (replay cfg s as).2 a).1,
        (act cfg (replay cfg s as).2 a).2) := by
  induction as generalizing s with
  | nil => simp [replay]
  | cons b as ih => simp [replay, ih]

/-- The times at which a code was issued. -/
def issueTimes (es : List Event) : List ℕ := (es.filter Event.issues).map fun ev => ev.request.now

theorem issueTimes_idle {es : List Event} {ev : Event} (h : ev.issues = false) :
    issueTimes (es ++ [ev]) = issueTimes es := by
  simp [issueTimes, h]

theorem issueTimes_issue {es : List Event} {ev : Event} (h : ev.issues = true) :
    issueTimes (es ++ [ev]) = issueTimes es ++ [ev.request.now] := by
  simp [issueTimes, h]

section Limits

variable (cfg : Settings) (e : String)

/-- What the two keys say about the times `ts` of the issues, in a run whose calls came at `times`.
-/
structure Limited (times ts : List ℕ) (s : Redis) : Prop where
  cooldown : (ts = [] ∧ s ("code_cooldown_" ++ e) = none) ∨ ∃ ts' t, ts = ts' ++ [t] ∧
      s ("code_cooldown_" ++ e) = some ⟨"1", some (t + cfg.issue.cooldownSeconds)⟩
  spaced : ts.Pairwise fun t t' => t + cfg.issue.cooldownSeconds ≤ t'
  hourly : ∃ c, Counter ("code_hourly_" ++ e) cfg.issue.hourlyWindowSeconds s c ∧
    (c = none → ts = []) ∧ ∀ n g, c = some (n, g) → g ∈ times ∧
      FixedWindow cfg.issue.hourlyWindowSeconds cfg.issue.hourlyLimit.toNat g n ts

variable {cfg e} {times ts : List ℕ} {s s' : Redis}

theorem Counter.congr {k : String} {w : ℕ} {c : Option (ℕ × ℕ)} (h : Counter k w s c)
    (hk : s' k = s k) :
    Counter k w s' c := by
  cases h with
  | absent h => exact .absent (hk.trans h)
  | counting h hn hlt => exact .counting (hk.trans h) hn hlt

theorem Limited.idle (h : Limited cfg e times ts s) {times' : List ℕ} (htimes : times ⊆ times')
    (hcool : s' ("code_cooldown_" ++ e) = s ("code_cooldown_" ++ e))
    (hhour : s' ("code_hourly_" ++ e) = s ("code_hourly_" ++ e)) : Limited cfg e times' ts s' := by
  refine ⟨?_, h.spaced, ?_⟩
  · rw [hcool]
    exact h.cooldown
  · obtain ⟨c, hc, hnone, hsome⟩ := h.hourly
    exact ⟨c, hc.congr hhour, hnone, fun n g hng => ⟨htimes (hsome n g hng).1, (hsome n g hng).2⟩⟩

variable {now : ℕ}

theorem Limited.free (h : Limited cfg e times ts s)
    (hfree : s.find now ("code_cooldown_" ++ e) = none) :
    ∀ t ∈ ts, t + cfg.issue.cooldownSeconds ≤ now := by
  rcases h.cooldown with ⟨rfl, -⟩ | ⟨ts', t', rfl, hcool⟩
  · exact nofun
  · have hlast : t' + cfg.issue.cooldownSeconds ≤ now := by
      by_contra hlive
      rw [find_live (not_le.mp hlive) hcool] at hfree
      cases hfree
    refine forall_mem_append.mpr ⟨fun t ht => ?_, forall_mem_singleton.mpr hlast⟩
    have hbefore := (pairwise_append.mp h.spaced).2.2 t ht t' (mem_singleton_self t')
    omega

theorem window_counts {n g : ℕ} {c : Option (ℕ × ℕ)} (hnone : c = none → ts = [])
    (hsome : ∀ n g, c = some (n, g) → g ∈ times ∧
      FixedWindow cfg.issue.hourlyWindowSeconds cfg.issue.hourlyLimit.toNat g n ts)
    (hw : 0 < cfg.issue.hourlyWindowSeconds) (htimes : ∀ t ∈ times, t ≤ now)
    (hcounts : Counts cfg.issue.hourlyWindowSeconds now n g c) :
    g ∈ times ++ [now] ∧ g ≤ now ∧ now < g + cfg.issue.hourlyWindowSeconds ∧ 0 < n ∧
      FixedWindow cfg.issue.hourlyWindowSeconds cfg.issue.hourlyLimit.toNat g (n - 1) ts := by
  rcases hcounts with ⟨rfl, rfl, hold⟩ | ⟨n₀, rfl, rfl, hlive⟩
  · refine ⟨mem_append_right _ (mem_singleton_self g), le_rfl, by omega, Nat.one_pos, ?_⟩
    cases c with
    | none =>
      rw [hnone rfl]
      exact .first
    | some c => exact (hsome c.1 c.2 rfl).2.restart (hold c.1 c.2 rfl)
  · obtain ⟨hg, hwindow⟩ := hsome n₀ g rfl
    exact ⟨mem_append_left _ hg, htimes g hg, hlive, Nat.succ_pos n₀, hwindow⟩

theorem Limited.issue (hc : 0 < cfg.issue.cooldownSeconds) (hw : 0 < cfg.issue.hourlyWindowSeconds)
    (httl : 0 < cfg.issue.codeTtlSeconds) {es : List Event}
    (h : Limited cfg e times (issueTimes es) s)
    (htimes : ∀ t ∈ times, t ≤ now) (code : String) :
    Limited cfg e (times ++ [now]) (issueTimes (es ++ [eventOf cfg s ⟨now, .issue e code⟩]))
      (perform cfg s ⟨now, .issue e code⟩).2 := by
  obtain ⟨c, hcounter, hnone, hsome⟩ := h.hourly
  have hrefused : (ISSUE_CODE_SCRIPT (verificationKeys e) code cfg.issue now s).1 ≠ some 1 →
      issueTimes (es ++ [eventOf cfg s ⟨now, .issue e code⟩]) = issueTimes es := fun hnot =>
    issueTimes_idle (by rw [← Bool.not_eq_true, issues_iff]; exact hnot)
  rcases issue_limited hc hw httl hcounter code now with
    ⟨hnot, hcool, hhour⟩ | ⟨hfree, n, g, hn, hlt, hcounts, hhour, hend⟩
  · rw [hrefused hnot]
    exact h.idle (subset_append_left _ _) hcool hhour
  · obtain ⟨hg, hgnow, hlive, -, hwindow⟩ := window_counts hnone hsome hw htimes hcounts
    have hcounter' : Counter ("code_hourly_" ++ e) cfg.issue.hourlyWindowSeconds
        (perform cfg s ⟨now, .issue e code⟩).2 (some (n, g)) := .counting hhour hn hlt
    have hn' : n - 1 + 1 = n := by omega
    rcases hend with ⟨hnot, hcool⟩ | ⟨hone, hlimit, hcool⟩
    · rw [hrefused hnot]
      refine ⟨?_, h.spaced, some (n, g), hcounter', nofun, fun n' g' hng => ?_⟩
      · rw [show (perform cfg s ⟨now, .issue e code⟩).2 ("code_cooldown_" ++ e) =
          s ("code_cooldown_" ++ e) from
          hcool]
        exact h.cooldown
      · cases hng
        exact ⟨hg, hn' ▸ hwindow.skip⟩
    · rw [issueTimes_issue (issues_iff.mpr hone)]
      refine ⟨Or.inr ⟨_, _, rfl, hcool⟩, ?_, some (n, g), hcounter', nofun, fun n' g' hng => ?_⟩
      · refine pairwise_append.mpr ⟨h.spaced, pairwise_singleton _ _, fun t ht t' ht' => ?_⟩
        obtain rfl := mem_singleton.mp ht'
        exact h.free hfree t ht
      · cases hng
        exact ⟨hg, hn' ▸ hwindow.step (by omega) hgnow hlive⟩

theorem Limited.consume {es : List Event} (h : Limited cfg e times (issueTimes es) s) (now : ℕ)
    (submitted : String) :
    Limited cfg e (times ++ [now]) (issueTimes (es ++ [eventOf cfg s ⟨now, .consume e submitted⟩]))
      (perform cfg s ⟨now, .consume e submitted⟩).2 := by
  rw [issueTimes_idle rfl]
  refine h.idle (subset_append_left _ _) ?_ ?_
  · exact consume_keeps (code_ne_cooldown e).symm (cooldown_ne_attempts e) now s
  · exact consume_keeps (code_ne_hourly e).symm (hourly_ne_attempts e) now s

theorem limited_replay (hc : 0 < cfg.issue.cooldownSeconds) (hw : 0 < cfg.issue.hourlyWindowSeconds)
    (httl : 0 < cfg.issue.codeTtlSeconds) (hs : ∀ k ∈ ownKeys e, s k = none) (as : List Act)
    (has : ∀ r, .call r ∈ as → r.call.email = e)
    (htime : (as.filterMap Act.time).Pairwise (· ≤ ·)) :
    Limited cfg e (as.filterMap Act.time) (issueTimes (replay cfg s as).1) (replay cfg s as).2 := by
  induction as using List.reverseRecOn with
  | nil =>
    refine ⟨Or.inl ⟨rfl, hs _ (cooldown_mem e)⟩, List.Pairwise.nil, none,
      .absent (hs _ (hourly_mem e)), ?_, nofun⟩
    exact fun _ => rfl
  | append_singleton as a ih =>
    rw [filterMap_append, pairwise_append] at htime
    have ih := ih (fun r hr => has r (mem_append_left _ hr)) htime.1
    rw [replay_concat, filterMap_append]
    cases a with
    | setGlobal value =>
      have hcool := update_of_ne (cooldown_ne_global e) value (replay cfg s as).2
      have hhour := update_of_ne (hourly_ne_global e) value (replay cfg s as).2
      show Limited cfg e (_ ++ []) (issueTimes (_ ++ [])) _
      rw [append_nil, append_nil]
      exact ih.idle (List.Subset.refl _) hcool hhour
    | call r =>
      have hr := has r (mem_append_right _ (mem_singleton_self _))
      have htimes : ∀ t ∈ as.filterMap Act.time, t ≤ r.now := fun t ht =>
        htime.2.2 t ht r.now (mem_singleton_self _)
      obtain ⟨now, ⟨e', code⟩ | ⟨e', submitted⟩⟩ := r
      · obtain rfl : e' = e := hr
        exact ih.issue hc hw httl htimes code
      · obtain rfl : e' = e := hr
        exact ih.consume now submitted

end Limits

/-- **Issuing a code is rate limited.** In every run about one address, from a store that has no key
of it and with the global counter changed in any way between the calls:

* two issues that succeed are at least the cooldown apart,
* in every interval of the length of the window at most twice the hourly limit succeed,
* the hourly counter is never there without an expiry,
* an issue that is refused changes neither the code nor its attempts. -/
theorem issues_limited {cfg : Settings} (hc : 0 < cfg.issue.cooldownSeconds)
    (hw : 0 < cfg.issue.hourlyWindowSeconds) (hl : 0 < cfg.issue.hourlyLimit)
    (httl : 0 < cfg.issue.codeTtlSeconds) {e : String} {s : Redis}
    (hs : ∀ k ∈ ownKeys e, s k = none)
    {as : List Act} (has : ∀ r, .call r ∈ as → r.call.email = e)
    (htime : (as.filterMap Act.time).Pairwise (· ≤ ·)) :
    (issueTimes (replay cfg s as).1).Pairwise (fun t t' => t + cfg.issue.cooldownSeconds ≤ t') ∧
    (∀ a, (within a cfg.issue.hourlyWindowSeconds (issueTimes (replay cfg s as).1) : ℤ) ≤
      2 * cfg.issue.hourlyLimit) ∧
    (∀ entry, (replay cfg s as).2 ("code_hourly_" ++ e) = some entry → entry.expireAt ≠ none) ∧
    ∀ now code, (perform cfg (replay cfg s as).2 ⟨now, .issue e code⟩).1 ≠ .issued 1 →
      (perform cfg (replay cfg s as).2 ⟨now, .issue e code⟩).2 ("code_" ++ e) =
        (replay cfg s as).2 ("code_" ++ e) ∧
      (perform cfg (replay cfg s as).2 ⟨now, .issue e code⟩).2 ("code_attempts_" ++ e) =
        (replay cfg s as).2 ("code_attempts_" ++ e) := by
  have h := limited_replay hc hw httl hs as has htime
  obtain ⟨c, hcounter, hnone, hsome⟩ := h.hourly
  refine ⟨h.spaced, fun a => ?_, fun entry hentry => ?_, fun now code hrefused => ?_⟩
  · cases c with
    | none =>
      rw [hnone rfl]
      show ((0 : ℕ) : ℤ) ≤ _
      omega
    | some c =>
      have hle := (hsome c.1 c.2 rfl).2.within_le a
      omega
  · cases hcounter with
    | absent habsent =>
      rw [habsent] at hentry
      cases hentry
    | counting hcount hn hlt =>
      rw [hcount] at hentry
      cases hentry
      nofun
  · rcases issues_script cfg.issue e code now (replay cfg s as).2 with ⟨hone, -⟩ | ⟨-, hkept⟩
    · refine absurd ?_ hrefused
      show Outcome.issued
        ((ISSUE_CODE_SCRIPT (verificationKeys e) code cfg.issue now _).1.getD 0) = _
      rw [hone]
      rfl
    · exact hkept

/-- Three issues; the second comes too early. -/
def sampleActs : List Act :=
  [.call ⟨0, .issue "a@b.c" "1"⟩, .call ⟨59, .issue "a@b.c" "2"⟩, .setGlobal none,
    .call ⟨60, .issue "a@b.c" "3"⟩]

theorem issues_limited_sample :
    issueTimes (replay {} empty sampleActs).1 = [0, 60] ∧
      (issueTimes (replay {} empty sampleActs).1).Pairwise (fun t t' => t + 60 ≤ t') := by
  refine ⟨by decide +kernel, ?_⟩
  refine (@issues_limited {} (by decide) (by decide) (by decide) (by decide) "a@b.c" empty
    (fun _ _ => rfl)
    sampleActs ?_ (by decide)).1
  intro r hr
  simp only [sampleActs, mem_cons, not_mem_nil, or_false, Act.call.injEq, reduceCtorEq,
    false_or] at hr
  rcases hr with rfl | rfl | rfl <;> rfl

end DistributedChat.Verification
