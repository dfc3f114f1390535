import DistributedChat.Verification.Codes

/-!
# Isolation of addresses

Every key of an address is `code_` followed by the address or by one of the words `attempts_`,
`cooldown_`, `hourly_` and the address. Two addresses meet in one key exactly when one of them is
such a word followed by the other (`Collides`). Away from these pairs the keys of different
addresses are disjoint (`ownKeys_disjoint`), so a request neither sees nor changes the keys of
another address, and the code key of an address holds the code last issued for it
(`codesOn_run`). A pair that collides lets the code key of one address be filled by the
bookkeeping of the other (`collides_unsound`).
-/

namespace DistributedChat.Verification

open Lib Function Script.Confined

/-! ## The keys of an address -/

/-- The keys the two programs build for an address. -/
def ownKeys (e : String) : Set String :=
  {k | k = (verificationKeys e).code ∨ k = (verificationKeys e).attempts ∨
    k = (verificationKeys e).cooldown ∨ k = (verificationKeys e).hourly}

/-- `e` is a word of another key family followed by `e'`. -/
def Collides (e e' : String) : Prop :=
  e = "attempts_" ++ e' ∨ e = "cooldown_" ++ e' ∨ e = "hourly_" ++ e'

/-- No address of `A` is a word of another key family followed by an address of `A`. -/
def CollisionFree (A : Set String) : Prop := ∀ e ∈ A, ∀ e' ∈ A, ¬ Collides e e'

theorem attempts_eq (e : String) : "code_attempts_" ++ e = "code_" ++ ("attempts_" ++ e) := by
  rw [← String.append_assoc]; rfl

theorem cooldown_eq (e : String) : "code_cooldown_" ++ e = "code_" ++ ("cooldown_" ++ e) := by
  rw [← String.append_assoc]; rfl

theorem hourly_eq (e : String) : "code_hourly_" ++ e = "code_" ++ ("hourly_" ++ e) := by
  rw [← String.append_assoc]; rfl

variable {k e : String}

theorem mem_ownKeys : k ∈ ownKeys e ↔ ∃ x, k = "code_" ++ x ∧ (x = e ∨ Collides x e) := by
  unfold ownKeys Collides verificationKeys
  simp only [Set.mem_ofPred_eq, attempts_eq, cooldown_eq, hourly_eq]
  constructor
  · rintro (h | h | h | h)
    · exact ⟨_, h, Or.inl rfl⟩
    · exact ⟨_, h, Or.inr (Or.inl rfl)⟩
    · exact ⟨_, h, Or.inr (Or.inr (Or.inl rfl))⟩
    · exact ⟨_, h, Or.inr (Or.inr (Or.inr rfl))⟩
  · rintro ⟨x, rfl, rfl | rfl | rfl | rfl⟩ <;> simp

variable {e' : String}

theorem Collides.ne (h : Collides e e') : e ≠ e' := by
  rintro rfl
  rcases h with h | h | h <;>
  · have := congrArg (fun s => s.toList.length) h
    simp only [String.toList_append, List.length_append] at this
    simp at this

/-- The words of the families start differently: two addresses extended by them are equal only
if word and address are. -/
theorem eq_of_collides_both {x : String} (h : Collides x e) (h' : Collides x e') : e = e' := by
  rcases h with rfl | rfl | rfl <;> rcases h' with h' | h' | h'
  all_goals first
    | exact (String.append_right_inj _).mp h'
    | simpa using congrArg String.toList h'

theorem ownKeys_disjoint (hne : e ≠ e') (h : ¬ Collides e e') (h' : ¬ Collides e' e)
    (hk : k ∈ ownKeys e) :
    k ∉ ownKeys e' := by
  intro hk'
  obtain ⟨x, rfl, hx⟩ := mem_ownKeys.mp hk
  obtain ⟨y, hy, hy'⟩ := mem_ownKeys.mp hk'
  obtain rfl := (String.append_right_inj _).mp hy
  rcases hx with rfl | hx <;> rcases hy' with rfl | hy'
  · exact hne rfl
  · exact h hy'
  · exact h' hx
  · exact hne (eq_of_collides_both hx hy')

theorem globalKey_notMem (e : String) : globalKey ∉ ownKeys e := by
  intro h
  obtain ⟨x, hx, -⟩ := mem_ownKeys.mp h
  have := congrArg String.toList hx
  simp [globalKey] at this

theorem key_ne {a b : String} (h : a ≠ b) (e : String) : a ++ e ≠ b ++ e :=
  fun heq => h ((String.append_left_inj e).mp heq)

section Members

variable (e : String)

theorem code_mem : "code_" ++ e ∈ ownKeys e := Or.inl rfl
theorem attempts_mem : "code_attempts_" ++ e ∈ ownKeys e := Or.inr (Or.inl rfl)
theorem cooldown_mem : "code_cooldown_" ++ e ∈ ownKeys e := Or.inr (Or.inr (Or.inl rfl))
theorem hourly_mem : "code_hourly_" ++ e ∈ ownKeys e := Or.inr (Or.inr (Or.inr rfl))

theorem code_ne_attempts : "code_" ++ e ≠ "code_attempts_" ++ e := key_ne (by decide) e
theorem code_ne_cooldown : "code_" ++ e ≠ "code_cooldown_" ++ e := key_ne (by decide) e
theorem code_ne_hourly : "code_" ++ e ≠ "code_hourly_" ++ e := key_ne (by decide) e

theorem code_ne_global : "code_" ++ e ≠ globalKey :=
  fun h => globalKey_notMem e (h ▸ code_mem e)

end Members

/-! ## The scripts are confined to the keys of their address -/

theorem incr_confined {F : Set String} (hk : k ∈ F) : Script.Confined F (incr k) :=
  alter hk _

theorem issue_confined (e code : String) (o : IssueOptions) :
    Script.Confined (insert globalKey (ownKeys e))
    (ISSUE_CODE_SCRIPT (verificationKeys e) code o) := by
  have hc : (verificationKeys e).code ∈ insert globalKey (ownKeys e) := Or.inr (code_mem e)
  have ha : (verificationKeys e).attempts ∈ insert globalKey (ownKeys e) := Or.inr (attempts_mem e)
  have hd : (verificationKeys e).cooldown ∈ insert globalKey (ownKeys e) := Or.inr (cooldown_mem e)
  have hh : (verificationKeys e).hourly ∈ insert globalKey (ownKeys e) := Or.inr (hourly_mem e)
  have hg : globalKey ∈ insert globalKey (ownKeys e) := Or.inl rfl
  unfold ISSUE_CODE_SCRIPT
  refine (present hd).andThen fun _ => (ret 2).ite ?_
  refine (incr_confined hh).andThen fun _ => ?_
  refine (expire hh _).onlyIf.andThen fun _ => (ret 3).ite ?_
  refine (incr_confined hg).andThen fun _ => ?_
  refine (expire hg _).onlyIf.andThen fun _ => (ret 4).ite ?_
  refine (setEx hd _ _).andThen fun _ => ?_
  refine (setEx hc _ _).andThen fun _ => ?_
  exact (del ha).andThen fun _ => ret 1

theorem consume_confined (e submitted : String) (m : ℤ) : Script.Confined (ownKeys e)
      (consumeScript ("code_" ++ e) ("code_attempts_" ++ e) submitted m) := by
  have hc := code_mem e
  have ha := attempts_mem e
  have hdel : ∀ n : ℤ, Script.Confined (ownKeys e)
      (do Script.del ("code_" ++ e); Script.del ("code_attempts_" ++ e); return n :
        Script String String ℤ) := fun n =>
    (del hc).andThen fun _ => (del ha).andThen fun _ =>
      ret n
  unfold consumeScript
  refine (get hc).andThen fun expected => ?_
  cases expected with
  | none => exact ret _
  | some expected =>
    refine ite ?_ (hdel 1)
    refine (incr_confined ha).andThen fun _ => ?_
    refine andThen (onlyIf ?_) fun _ => (hdel _).ite (ret _)
    exact (ttl hc).andThen fun _ => expire ha _

/-! ## The code key -/

/-- What issuing does to the code key: a reply of `1` stores the code there, any other reply
leaves the key as it was. -/
theorem issue_code (e code : String) (o : IssueOptions) (old : Option (Entry String)) :
    Script.Triple (fun s => s ("code_" ++ e) = old) (ISSUE_CODE_SCRIPT (verificationKeys e) code o)
      (fun r s => (r = some 1 ∧ ∃ t, s ("code_" ++ e) = some ⟨code, t⟩) ∨
        (r ≠ some 1 ∧ s ("code_" ++ e) = old)) := by
  have kept : ∀ {r : Option ℤ} (s : Redis), r ≠ some 1 → s ("code_" ++ e) = old →
      (r = some 1 ∧ ∃ t, s ("code_" ++ e) = some ⟨code, t⟩) ∨
        (r ≠ some 1 ∧ s ("code_" ++ e) = old) := fun _ hr hs => Or.inr ⟨hr, hs⟩
  unfold ISSUE_CODE_SCRIPT
  refine .keep (fun _ _ => rfl) (fun s => kept s (by decide)) fun _ => ?_
  refine .ite (fun _ => .ret fun s => kept s (by decide)) fun _ => ?_
  refine .keep (.alter (code_ne_hourly e) _) (fun s => kept s (by decide)) fun _ => ?_
  refine .keep (.onlyIf (.expire (code_ne_hourly e) _)) (fun s => kept s (by decide)) fun _ => ?_
  refine .ite (fun _ => .ret fun s => kept s (by decide)) fun _ => ?_
  refine .keep (.alter (code_ne_global e) _) (fun s => kept s (by decide)) fun _ => ?_
  refine .keep (.onlyIf (.expire (code_ne_global e) _)) (fun s => kept s (by decide)) fun _ => ?_
  refine .ite (fun _ => .ret fun s => kept s (by decide)) fun _ => ?_
  refine .keep (.setEx (code_ne_cooldown e) _ _) (fun s => kept s (by decide)) fun _ => ?_
  refine .andThen (.setEx _ _ _ _) ?_ fun _ => ?_
  · -- the reply is an error, the code was not stored
    rintro s (⟨h, -⟩ | ⟨-, h⟩)
    · cases h
    · exact kept s (by decide) h
  · rintro now s (⟨-, t, h⟩ | ⟨h, -⟩)
    · exact Or.inl ⟨rfl, t, (Script.Keeps.del (code_ne_attempts e) now s).trans h⟩
    · cases h

/-- What consuming does to the code key: the key keeps its entry or is deleted, and a reply of `1`
means that it held the submitted code. -/
theorem consume_code (e submitted : String) (m : ℤ) (old : Option (Entry String)) :
    Script.Triple (fun s => s ("code_" ++ e) = old)
    (consumeScript ("code_" ++ e) ("code_attempts_" ++ e) submitted m)
      (fun r s => (s ("code_" ++ e) = old ∨ s ("code_" ++ e) = none) ∧
        (r = some 1 → ∃ t, old = some ⟨submitted, t⟩)) := by
  -- both ends of the script that delete the keys
  have finish : ∀ (P : Redis → Prop) (n : ℤ), (n = 1 → ∃ t, old = some ⟨submitted, t⟩) →
      Script.Triple P (do Script.del ("code_" ++ e); Script.del ("code_attempts_" ++ e); return n)
        (fun r s => (s ("code_" ++ e) = old ∨ s ("code_" ++ e) = none) ∧
          (r = some 1 → ∃ t, old = some ⟨submitted, t⟩)) := by
    intro P n hn
    refine .andThen (.del _) (fun s h => absurd h.1 nofun) fun _ => ?_
    intro now s hs
    refine ⟨Or.inr ?_, fun h => hn (Option.some.inj h)⟩
    exact (Script.Keeps.del (code_ne_attempts e) now s).trans hs.2
  unfold consumeScript
  refine .andThen (.get _ old) (fun s h => ⟨Or.inl h.1, nofun⟩) fun expected => ?_
  cases expected with
  | none => exact .ret fun s h => ⟨Or.inl h.1, fun h => absurd h (by decide)⟩
  | some expected =>
    refine .ite (fun _ => ?_) fun heq => ?_
    · -- a wrong code: only the counter of attempts changes, unless it has run out
      refine .weaken (fun s h => h.1) ?_
      refine .keep (.alter (code_ne_attempts e) _) (fun s h => ⟨Or.inl h, nofun⟩) fun _ => ?_
      refine .keep (.onlyIf (.andThen (.ttl _) fun _ => .expire (code_ne_attempts e) _))
        (fun s h => ⟨Or.inl h, nofun⟩) fun _ => ?_
      exact .ite (fun _ => finish _ _ fun h => absurd h (by decide)) fun _ =>
        .ret fun s h => ⟨Or.inl h, fun h => absurd h (by decide)⟩
    · intro now s hs
      obtain rfl : expected = submitted := not_not.mp heq
      exact finish (fun _ => True) 1 (fun _ => hs.2 expected rfl) now s trivial

/-! ## One request -/

section Perform

variable (cfg : Settings)

theorem consume_success {m : ℤ} {e submitted : String} {now : ℕ} {s : Redis}
    (h : (ConsumeVerificationCode m e submitted now s).1 = .Success) :
    ∃ t, s ("code_" ++ e) = some ⟨submitted, t⟩ := by
  have hcode := (consume_code e submitted m _ now s rfl).2
  unfold ConsumeVerificationCode at h
  rcases hr : consumeScript ("code_" ++ e) ("code_attempts_" ++ e) submitted m now s with
    ⟨reply, s'⟩
  rw [hr] at h hcode
  dsimp only at h
  split at h
  · exact hcode rfl
  all_goals cases h

theorem perform_frame (s : Redis) (r : Request) {k : String} (hk : k ∉ ownKeys r.call.email)
    (hg : k ≠ globalKey) : (perform cfg s r).2 k = s k := by
  obtain ⟨now, ⟨e, c⟩ | ⟨e, c⟩⟩ := r
  · exact (issue_confined e c cfg.issue).frame now s k (by rintro (h | h); exacts [hg h, hk h])
  · exact (consume_confined e c cfg.maxAttempts).frame now s k hk

/-- A request depends only on the keys of its own address and the global counter it sees, and
leaves stores that agree on its own keys if they agreed before. -/
theorem perform_local {s t : Redis} (r : Request) (h : Set.EqOn s t (ownKeys r.call.email)) :
    let t' := update t globalKey (globalSeen s r)
    (perform cfg s r).1 = (perform cfg t' r).1 ∧
      Set.EqOn (perform cfg s r).2 (perform cfg t' r).2 (ownKeys r.call.email) := by
  intro t'
  have hown : Set.EqOn s t' (ownKeys r.call.email) := by
    intro k hk
    have hne : k ≠ globalKey := fun hk' => globalKey_notMem _ (hk' ▸ hk)
    rw [h hk]
    exact (update_of_ne hne _ t).symm
  obtain ⟨now, ⟨e, c⟩ | ⟨e, c⟩⟩ := r
  · have hall : Set.EqOn s t' (insert globalKey (ownKeys e)) := by
      rintro k (rfl | hk)
      · exact (update_self (f := t) ..).symm
      · exact hown hk
    have hconf := issue_confined e c cfg.issue
    refine ⟨?_, (hconf.agree now s t' hall).mono (Set.subset_insert _ _)⟩
    exact congrArg (fun reply => Outcome.issued (reply.getD 0)) (hconf.result now s t' hall)
  · have hconf := consume_confined e c cfg.maxAttempts
    refine ⟨congrArg Outcome.consumed ?_, hconf.agree now s t' hown⟩
    show (ConsumeVerificationCode _ e c now s).1 = (ConsumeVerificationCode _ e c now t').1
    unfold ConsumeVerificationCode
    dsimp only
    rw [hconf.result now s t' hown]

end Perform

/-! ## Codes and outcomes over a run -/

/-- The code on record for `e` after an event: an `issue` for `e` answered `1` replaces it. -/
def record (e : String) (last : Option String) (ev : Event) : Option String :=
  match ev.request.call, ev.outcome with
  | .issue e' code, .issued n => if e' = e ∧ n = 1 then some code else last
  | _, _ => last

/-- The code most recently issued for `e`. -/
def lastIssued (e : String) (es : List Event) : Option String := es.foldl (record e) none

theorem record_of_ne (last : Option String) {ev : Event} (h : ev.request.call.email ≠ e) :
    record e last ev = last := by
  obtain ⟨⟨now, ⟨e', c'⟩ | ⟨e', c'⟩⟩, g, o⟩ := ev
  · cases o with
    | issued n => exact if_neg fun h' => h h'.1
    | consumed v => rfl
  · rfl

def about (e : String) (es : List Event) : List Event :=
  es.filter fun ev => decide (ev.request.call.email = e)

/-- All requests are about addresses of `A`. -/
def Over (A : Set String) (rs : List Request) : Prop := ∀ r ∈ rs, r.call.email ∈ A

/-- After every run over addresses of `A`, a consumption for `e` succeeds only with the code most
recently issued for `e`. -/
def SuccessSound (cfg : Settings) (A : Set String) : Prop :=
  ∀ rs, Over A rs → ∀ e ∈ A, ∀ submitted now,
    (perform cfg (run cfg empty rs).2 ⟨now, .consume e submitted⟩).1 = .consumed .Success →
      lastIssued e (run cfg empty rs).1 = some submitted

/-- The outcomes of the requests about `e` are the same in every two runs over addresses of `A`
that make the same requests about `e` and find the same global counter at them: the requests about
other addresses change nothing but the global counter. -/
def Isolated (cfg : Settings) (A : Set String) : Prop :=
  ∀ rs rs', Over A rs → Over A rs' → ∀ e ∈ A,
    (about e (run cfg empty rs).1).map (fun ev => (ev.request, ev.global)) =
      (about e (run cfg empty rs').1).map (fun ev => (ev.request, ev.global)) →
    (about e (run cfg empty rs).1).map Event.outcome =
      (about e (run cfg empty rs').1).map Event.outcome

/-- What the code key of each address of `A` holds is the code on record for it. -/
def CodesOn (A : Set String) (s : Redis) (last : String → Option String) : Prop :=
  ∀ e ∈ A, ∀ c t, s ("code_" ++ e) = some ⟨c, t⟩ → last e = some c

section Run

variable (cfg : Settings) {A : Set String} (hA : CollisionFree A)

include hA

theorem perform_other {e : String} (he : e ∈ A) (s : Redis) {r : Request} (hr : r.call.email ∈ A)
    (hne : r.call.email ≠ e) : Set.EqOn (perform cfg s r).2 s (ownKeys e) := by
  intro k hk
  have hk' : k ∉ ownKeys r.call.email :=
    ownKeys_disjoint (Ne.symm hne) (hA e he _ hr) (hA _ hr e he) hk
  exact perform_frame cfg s r hk' fun h => globalKey_notMem e (h ▸ hk)

theorem codesOn_perform {s : Redis} {last : String → Option String} (hs : CodesOn A s last)
    {r : Request} (hr : r.call.email ∈ A) : CodesOn A (perform cfg s r).2
      (fun e => record e (last e) ⟨r, globalSeen s r, (perform cfg s r).1⟩) := by
  intro e he c t hc
  by_cases hne : r.call.email = e
  swap
  · -- another address: neither the key nor the record of `e` changes
    rw [perform_other cfg hA he s hr hne (code_mem e)] at hc
    exact (record_of_ne (last e) hne).trans (hs e he c t hc)
  obtain ⟨now, ⟨e', c'⟩ | ⟨e', c'⟩⟩ := r <;> obtain rfl : e' = e := hne
  · rcases issue_code e' c' cfg.issue _ now s rfl with ⟨hone, t', ht'⟩ | ⟨hone, hkeep⟩
    · -- the code is stored and recorded
      have hcc : some (⟨c', t'⟩ : Entry String) = some ⟨c, t⟩ := ht'.symm.trans hc
      have hreply :
        ((ISSUE_CODE_SCRIPT (verificationKeys e') c' cfg.issue now s).1).getD 0 = 1 := by
        rw [hone]; rfl
      cases hcc
      exact if_pos ⟨rfl, hreply⟩
    · have hold := hs e' he c t (hkeep.symm.trans hc)
      have hreply :
        ((ISSUE_CODE_SCRIPT (verificationKeys e') c' cfg.issue now s).1).getD 0 ≠ 1 := by
        intro h
        rcases hr' : (ISSUE_CODE_SCRIPT (verificationKeys e') c' cfg.issue now s).1 with _ | n
        · rw [hr'] at h; cases h
        · rw [hr'] at h hone; exact hone (congrArg some h)
      exact (if_neg fun h => hreply h.2).trans hold
  · rcases (consume_code e' c' cfg.maxAttempts _ now s rfl).1 with hkeep | hdel
    · exact hs e' he c t (hkeep.symm.trans hc)
    · have hcc : (none : Option (Entry String)) = some ⟨c, t⟩ := hdel.symm.trans hc
      cases hcc

/-- **The record.** Along a run over `A` the code key of an address holds the code most recently
issued for it, or nothing. -/
theorem codesOn_run (rs : List Request) (hrs : Over A rs) {s : Redis}
    {last : String → Option String} (hs : CodesOn A s last) :
    CodesOn A (run cfg s rs).2 (fun e => (run cfg s rs).1.foldl (record e) (last e)) := by
  induction rs generalizing s last with
  | nil => exact hs
  | cons r rs ih =>
    refine ih (fun r' hr' => hrs r' (List.mem_cons_of_mem r hr')) ?_
    exact codesOn_perform cfg hA hs (hrs r List.mem_cons_self)

theorem successSound : SuccessSound cfg A := by
  intro rs hrs e he submitted now h
  obtain ⟨t, ht⟩ := consume_success (Outcome.consumed.inj h)
  have hempty : CodesOn A empty fun _ => none := fun _ _ _ _ hc => absurd hc nofun
  exact codesOn_run cfg hA rs hrs hempty e he submitted t ht

end Run

/-- The requests about one address alone, each with the global counter it finds. -/
def localRun (cfg : Settings) (s : Redis) : List (Request × Option (Entry String)) → List Outcome
  | [] => []
  | (r, g) :: rest =>
    let (o, s') := perform cfg (update s globalKey g) r
    o :: localRun cfg s' rest

/-- The outcomes about an address are those of its own requests alone, from any store that agrees
on its keys. -/
theorem outcomes_eq_localRun (cfg : Settings) {A : Set String} (hA : CollisionFree A) (he : e ∈ A)
    (rs : List Request) (hrs : Over A rs) {s t : Redis} (h : Set.EqOn s t (ownKeys e)) :
    (about e (run cfg s rs).1).map Event.outcome =
      localRun cfg t ((about e (run cfg s rs).1).map fun ev => (ev.request, ev.global)) := by
  induction rs generalizing s t with
  | nil => rfl
  | cons r rs ih =>
    have hr : r.call.email ∈ A := hrs r List.mem_cons_self
    replace ih := fun {s t} => @ih (fun r' hr' => hrs r' (List.mem_cons_of_mem r hr')) s t
    by_cases hne : r.call.email = e
    · have hcons : about e (run cfg s (r :: rs)).1 =
          ⟨r, globalSeen s r, (perform cfg s r).1⟩ :: about e (run cfg (perform cfg s r).2 rs).1 :=
        List.filter_cons_of_pos (decide_eq_true hne)
      subst hne
      obtain ⟨hout, hagree⟩ := perform_local cfg r h
      rw [hcons]
      exact congrArg₂ List.cons hout (ih hagree)
    · have hcons : about e (run cfg s (r :: rs)).1 = about e (run cfg (perform cfg s r).2 rs).1 :=
        List.filter_cons_of_neg (by simpa using hne)
      rw [hcons]
      exact ih ((perform_other cfg hA he s hr hne).trans h)

theorem isolated (cfg : Settings) {A : Set String} (hA : CollisionFree A) : Isolated cfg A := by
  intro rs rs' hrs hrs' e he h
  have hl := outcomes_eq_localRun cfg hA he rs hrs (Set.eqOn_refl empty (ownKeys e))
  have hl' := outcomes_eq_localRun cfg hA he rs' hrs' (Set.eqOn_refl empty (ownKeys e))
  rw [hl, hl', h]

end DistributedChat.Verification
