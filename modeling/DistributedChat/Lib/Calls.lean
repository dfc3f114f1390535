import DistributedChat.Lib.Threads

/-!
# Calls that take effect and return

Threads call an operation on an item. Somewhere on the way the call takes effect or is refused, and
it returns whether it did. A ledger keeps both: the calls that took effect, in that order, and what
each call returned. Every call has a thread of its own.

`ledger_inductive` is the rule: if each program returns what its effect was answered, then the
calls that returned true are those that took effect, once each, and a call that took effect without
having returned is still running.
-/

namespace DistributedChat.Lib

open Function List

/-- What an effect means for the call it is part of. -/
inductive Mark (K : Type)
  | other
  /-- The call on `k` takes effect, or is refused. -/
  | takes (k : K)
  /-- The call on `k` returns `r`. -/
  | returns (k : K) (r : Bool)

/-- How far a call is. -/
inductive Phase (K : Type)
  | fresh
  | asked (k : K) (r : Bool)
  | done

structure Ledger (T K : Type) where
  /-- The calls that took effect, in this order. -/
  accepted : List (T × K) := []
  returned : List (T × K × Bool) := []
  deriving DecidableEq

namespace Ledger

variable {T K : Type}

/-- The items of the calls that took effect. -/
def items (l : Ledger T K) : List K := l.accepted.map Prod.snd

/-- No call of thread `t` has taken effect or returned. -/
def Unused (l : Ledger T K) (t : T) : Prop :=
  (∀ k, (t, k) ∉ l.accepted) ∧ ∀ k r, (t, k, r) ∉ l.returned

instance decidableUnused [DecidableEq T] (l : Ledger T K) (t : T) : Decidable (l.Unused t) :=
  decidable_of_iff (t ∉ l.accepted.map Prod.fst ∧ t ∉ l.returned.map Prod.fst) (by simp [Unused])

/-- Thread `t` performs an effect; `r` says whether it was granted. -/
def record (l : Ledger T K) (t : T) (mark : Mark K) (r : Bool) : Ledger T K :=
  match mark with
  | .other => l
  | .takes k => if r then { l with accepted := l.accepted ++ [(t, k)] } else l
  | .returns k r => { l with returned := l.returned ++ [(t, k, r)] }

variable (l : Ledger T K) (t : T) (k : K)

@[simp] theorem items_record_other (r : Bool) : (l.record t .other r).items = l.items := rfl

@[simp] theorem items_record_refused : (l.record t (.takes k) false).items = l.items := rfl

@[simp] theorem items_record_granted : (l.record t (.takes k) true).items = l.items ++ [k] := by
  simp [record, items]

@[simp] theorem items_record_returns (r r' : Bool) :
    (l.record t (.returns k r) r').items = l.items := rfl

/-- What a running call has in the ledger. -/
def Entry (l : Ledger T K) (t : T) : Phase K → Prop
  | .fresh => l.Unused t
  | .asked k r => ((t, k) ∈ l.accepted ↔ r = true) ∧ (∀ k', (t, k') ∈ l.accepted → k' = k) ∧
      ∀ k' r', (t, k', r') ∉ l.returned
  | .done => True

/-- The ledger is in step with the calls. -/
structure Ok (l : Ledger T K) (g : T → Option (Phase K)) : Prop where
  nodup : (l.accepted.map Prod.fst).Nodup
  entry : ∀ t m, g t = some m → l.Entry t m
  returned : ∀ t k r, (t, k, r) ∈ l.returned → (r = true ↔ (t, k) ∈ l.accepted)
  accepted : ∀ t k, (t, k) ∈ l.accepted → (t, k, true) ∈ l.returned ∨ g t = some (.asked k true)

end Ledger

section Rule

variable {T E : Type} {R : E → Type} {α S K : Type}

/-- The monitor of calls: an effect on the item first, then the return of its answer. A call that is
refused early returns false. -/
def callMonitor (mark : E → Mark K) (granted : (e : E) → R e → Bool) : Monitor E R where
  Ghost := Phase K
  allow m e :=
    match mark e with
    | .other => True
    | .takes _ => m = .fresh
    | .returns k r => m = .asked k r ∨ m = .fresh ∧ r = false
  answer _ _ _ := True
  next m e r :=
    match mark e with
    | .other => m
    | .takes k => .asked k (granted e r)
    | .returns _ _ => .done
  final m := ∀ k r, m ≠ .asked k r

/-- An effect that is no part of a call is allowed and changes nothing. -/
theorem callMonitor_other {mark : E → Mark K} {granted : (e : E) → R e → Bool} {e : E}
    (h : mark e = .other) (m : Phase K) :
    (callMonitor mark granted).allow m e ∧ ∀ r, (callMonitor mark granted).next m e r = m := by
  simp [callMonitor, h]

namespace Ledger

theorem ok_empty : Ok ({} : Ledger T K) fun _ => none := ⟨nodup_nil, nofun, nofun, nofun⟩

variable [DecidableEq T] {l : Ledger T K} {g : T → Option (Phase K)} {t : T} {m : Phase K}

theorem Ok.same (h : l.Ok g) (ht : g t = some m) : l.Ok (update g t (some m)) := by
  rwa [← ht, update_eq_self]

theorem Ok.start (h : l.Ok g) (hunused : l.Unused t) :
    l.Ok (update g t (some .fresh)) where
  nodup := h.nodup
  entry := forall_set hunused fun t' m' _ => h.entry t' m'
  returned := h.returned
  accepted t' k hk := (h.accepted t' k hk).imp_right fun hg => by
    rwa [update_of_ne]
    rintro rfl
    exact hunused.1 k hk

/-- A program that is no call, or no longer one. -/
theorem Ok.begin (h : l.Ok g) (hfree : g t = none) : l.Ok (update g t (some .done)) where
  nodup := h.nodup
  entry := forall_set trivial fun t' m' _ => h.entry t' m'
  returned := h.returned
  accepted t' k hk := (h.accepted t' k hk).imp_right fun hg => by
    rwa [update_of_ne]
    rintro rfl
    rw [hfree] at hg
    cases hg

theorem Ok.stop (h : l.Ok g) (ht : g t = some m) (hm : ∀ k r, m ≠ .asked k r) :
    l.Ok (update g t none) where
  nodup := h.nodup
  entry := forall_erased h.entry
  returned := h.returned
  accepted t' k hk := (h.accepted t' k hk).imp_right fun hg => by
    rwa [update_of_ne]
    rintro rfl
    exact absurd (Option.some.inj (ht.symm.trans hg)) (hm k true)

/-- A call takes effect, or is refused. -/
theorem Ok.takes (h : l.Ok g) (ht : g t = some .fresh) (k : K) (r : Bool) :
    (l.record t (.takes k) r).Ok (update g t (some (.asked k r))) := by
  have hunused : l.Unused t := h.entry t _ ht
  have hrest : ∀ t' k', (t', k') ∈ l.accepted →
      (t', k', true) ∈ l.returned ∨ update g t (some (.asked k r)) t' = some (.asked k' true) := by
    intro t' k' hk
    refine (h.accepted t' k' hk).imp_right fun hg => ?_
    rwa [update_of_ne]
    rintro rfl
    exact hunused.1 k' hk
  cases r with
  | false =>
    refine ⟨h.nodup, forall_set ?_ fun t' m' _ => h.entry t' m', h.returned, hrest⟩
    exact ⟨iff_of_false (hunused.1 k) Bool.false_ne_true,
      fun k' hk => absurd hk (hunused.1 k'), hunused.2⟩
  | true =>
    have hmem : ∀ t' k', (t', k') ∈ l.accepted ++ [(t, k)] ↔
        (t', k') ∈ l.accepted ∨ t' = t ∧ k' = k := by simp
    refine ⟨?_, forall_set ⟨?_, ?_, hunused.2⟩ fun t' m' hne hm => ?_, fun t' k' r hr => ?_,
      fun t' k' hk => ?_⟩
    · show ((l.accepted ++ [(t, k)]).map Prod.fst).Nodup
      rw [map_append, map_singleton, nodup_append_comm, singleton_append, nodup_cons]
      refine ⟨fun hmem => ?_, h.nodup⟩
      obtain ⟨⟨t', k'⟩, hk, rfl⟩ := mem_map.mp hmem
      exact hunused.1 k' hk
    · exact iff_of_true ((hmem t k).mpr (Or.inr ⟨rfl, rfl⟩)) rfl
    · intro k' hk
      exact ((hmem t k').mp hk).elim (fun hold => absurd hold (hunused.1 k')) And.right
    · have hother : ∀ k', (t', k') ∈ l.accepted ++ [(t, k)] ↔ (t', k') ∈ l.accepted :=
        fun k' => (hmem t' k').trans (or_iff_left fun heq => hne heq.1)
      have hentry := h.entry t' m' hm
      cases m' with
      | fresh => exact ⟨fun k' hk => hentry.1 k' ((hother k').mp hk), hentry.2⟩
      | asked k₁ r₁ =>
        exact ⟨(hother k₁).trans hentry.1, fun k' hk =>
          hentry.2.1 k' ((hother k').mp hk), hentry.2.2⟩
      | done => trivial
    · have hne : t' ≠ t := by
        rintro rfl
        exact hunused.2 k' r hr
      exact (h.returned t' k' r hr).trans
        ((hmem t' k').trans (or_iff_left fun heq => hne heq.1)).symm
    · rcases (hmem t' k').mp hk with hold | ⟨rfl, rfl⟩
      · exact hrest t' k' hold
      · exact Or.inr (update_self ..)

/-- A call returns. -/
theorem Ok.returns (h : l.Ok g) (ht : g t = some m) {k : K} {r : Bool}
    (hm : m = .asked k r ∨ m = .fresh ∧ r = false) (r' : Bool) :
    (l.record t (.returns k r) r').Ok (update g t (some .done)) := by
  have hentry := h.entry t m ht
  have hnew : (t, k) ∈ l.accepted ↔ r = true := by
    rcases hm with rfl | ⟨rfl, rfl⟩
    · exact hentry.1
    · exact iff_of_false (hentry.1 k) Bool.false_ne_true
  have hmem : ∀ t' k' r₁, (t', k', r₁) ∈ l.returned ++ [(t, k, r)] ↔
      (t', k', r₁) ∈ l.returned ∨ t' = t ∧ k' = k ∧ r₁ = r := by simp
  refine ⟨h.nodup, forall_set trivial fun t' m' hne hm' => ?_, fun t' k' r₁ hr => ?_,
    fun t' k' hk => ?_⟩
  · have hold := h.entry t' m' hm'
    have hnot : ∀ {k' r₁}, (t', k', r₁) ∉ l.returned → (t', k', r₁) ∉ l.returned ++ [(t, k, r)] :=
      fun hout hin => ((hmem ..).mp hin).elim hout fun heq => hne heq.1
    cases m' with
    | fresh => exact ⟨hold.1, fun k' r₁ => hnot (hold.2 k' r₁)⟩
    | asked k₁ r₂ => exact ⟨hold.1, hold.2.1, fun k' r₁ => hnot (hold.2.2 k' r₁)⟩
    | done => trivial
  · rcases (hmem t' k' r₁).mp hr with hold | ⟨rfl, rfl, rfl⟩
    · exact h.returned t' k' r₁ hold
    · exact hnew.symm
  · rcases h.accepted t' k' hk with hold | hg
    · exact Or.inl ((hmem t' k' true).mpr (Or.inl hold))
    · by_cases heq : t' = t
      · subst heq
        obtain rfl : m = .asked k' true := Option.some.inj (ht.symm.trans hg)
        obtain heq | ⟨heq, -⟩ := hm <;> cases heq
        exact Or.inl ((hmem t' _ true).mpr (Or.inr ⟨rfl, rfl, rfl⟩))
      · exact Or.inr (by rwa [update_of_ne heq])

end Ledger

variable [DecidableEq T] {sys : System T E R α S} {mark : E → Mark K}
  {granted : (e : E) → R e → Bool} {ledger : S → Ledger T K}

/-- A program that begins a call in a thread without one, or that is none. -/
def Begins (mark : E → Mark K) (granted : (e : E) → R e → Bool) (unused : Prop) (p : Prog E R α) :
    Prop :=
  ∃ m, (m = .fresh ∧ unused ∨ m = .done) ∧
    Meets (callMonitor mark granted) (fun m _ => (callMonitor mark granted).final m) m p

/-- A system whose effects keep the ledger `ledger`, whose programs return what they were answered,
and which starts each call on a thread of its own. -/
structure Keeps (sys : System T E R α S) (mark : E → Mark K) (granted : (e : E) → R e → Bool)
    (ledger : S → Ledger T K) : Prop where
  init : ∀ s, sys.init s → ledger s = {}
  env : ∀ s s', sys.env s s' → ledger s' = ledger s
  start : ∀ t s p, sys.start t s p → Begins mark granted ((ledger s).Unused t) p
  exec : ∀ t e s r s', sys.exec t e s r s' → ledger s' = (ledger s).record t (mark e) (granted e r)
  stop : ∀ t p s s', sys.stop t p s s' → (∃ a, p = .ret a) ∧ ledger s' = ledger s
  crash : ∀ K s s', ¬ sys.crash K s s'

/-- **The rule for ledgers.** -/
theorem ledger_inductive (h : Keeps sys mark granted ledger) :
    Inductive sys (callMonitor mark granted) (fun s g => (ledger s).Ok g) where
  init s hs := by
    rw [h.init s hs]
    exact Ledger.ok_empty
  env s s' g hJ henv := by rwa [h.env s s' henv]
  start s g t p hJ ht hp := by
    obtain ⟨m, hm, hmeets⟩ := h.start t s p hp
    refine ⟨m, hmeets, ?_⟩
    obtain ⟨rfl, hunused⟩ | rfl := hm
    · exact hJ.start hunused
    · exact hJ.begin ht
  call s s' g t m e r hJ ht hallow hexec := by
    refine ⟨trivial, ?_⟩
    rw [h.exec t e s r s' hexec]
    simp only [callMonitor] at hallow ⊢
    cases hmark : mark e with
    | other =>
      exact hJ.same ht
    | takes k =>
      rw [hmark] at hallow
      obtain rfl : m = .fresh := hallow
      exact hJ.takes ht k _
    | returns k r' =>
      rw [hmark] at hallow
      exact hJ.returns ht hallow _
  stop s s' g t m p hJ ht hmeets hstop := by
    obtain ⟨⟨a, rfl⟩, hsame⟩ := h.stop t p s s' hstop
    rw [hsame]
    exact hJ.stop ht hmeets
  crash s s' g dead _ hcrash := absurd hcrash (h.crash dead s s')

/-- What holds of the calls of a run: each took effect at most once, exactly those that took effect
returned true, and one that took effect and has not returned is still running. -/
structure Settled (l : Ledger T K) (running : T → Prop) : Prop where
  once : (l.accepted.map Prod.fst).Nodup
  returned : ∀ t k r, (t, k, r) ∈ l.returned → (r = true ↔ (t, k) ∈ l.accepted)
  accepted : ∀ t k, (t, k) ∈ l.accepted → (t, k, true) ∈ l.returned ∨ running t

theorem Keeps.settled (h : Keeps sys mark granted ledger) {c : Config T E R α S}
    (hc : Reachable sys c) :
    Settled (ledger c.shared) fun t => (c.threads t).isSome = true := by
  obtain ⟨g, hok, hfollows⟩ := reachable_invariant (ledger_inductive h) hc
  refine ⟨hok.nodup, hok.returned, fun t k hk => (hok.accepted t k hk).imp_right fun hg => ?_⟩
  rcases hfollows t with ⟨-, hnone⟩ | ⟨p, m, hp, -⟩
  · rw [hnone] at hg
    cases hg
  · rw [hp]
    rfl

end Rule

end DistributedChat.Lib
