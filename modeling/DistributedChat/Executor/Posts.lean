import DistributedChat.Executor.KeyedExecutor

/-!
# What posts return

The calls of `post` keep their ledger: `post` returns true exactly if it pushed its task, and no
other program pushes. A shard accepts what is pushed to it and nothing else.
-/

namespace DistributedChat.Executor

open Lib Function

/-- The monitor of the calls of `post`; a push is always granted. -/
abbrev postMonitor (n : ℕ) : Monitor (Call n) Call.Answer := callMonitor Call.mark fun _ _ => true

section Programs

variable {setup : Setup}

/-- A program without a push. -/
def Pushless (p : Svc setup.count Unit) : Prop :=
  Meets (postMonitor setup.count) (fun m _ => m = .done) .done p

theorem pushless_call {e : Call setup.count} (h : e.mark = .other)
    (k : e.Answer → Svc setup.count Unit)
    (hk : ∀ r, Pushless (k r)) : Pushless (call e >>= k) := by
  obtain ⟨hallow, hnext⟩ := callMonitor_other h Phase.done
  refine Meets.perform hallow fun r _ => ?_
  rw [hnext r]
  exact hk r

theorem pushless_andThen {p q : Svc setup.count Unit} (hp : Pushless p) (hq : Pushless q) :
    Pushless (p >>= fun _ => q) := by
  refine Meets.andThen (hp.weaken ?_)
  rintro m r rfl
  cases r with
  | error e => exact e.elim
  | ok a => exact hq

theorem pushless_stopShards (drain : Bool) (l : List (Fin setup.count)) :
    Pushless (setup.stopShards drain l) := by
  induction l with
  | nil => exact Eq.refl Phase.done
  | cons i rest ih =>
    refine pushless_call rfl _ fun q => pushless_call rfl _ fun _ => pushless_andThen ?_ ?_
    · cases drain with
      | true => exact Eq.refl Phase.done
      | false => exact ⟨trivial, fun _ _ => ⟨trivial, fun _ _ => ⟨trivial, fun _ _ => rfl⟩⟩⟩
    · exact pushless_call rfl _ fun _ => pushless_call rfl _ fun _ => ih

theorem pushless_joinShards (l : List (Fin setup.count)) : Pushless (setup.joinShards l) := by
  induction l with
  | nil => exact Eq.refl Phase.done
  | cons i rest ih =>
    refine pushless_call rfl _ fun joinable => ?_
    cases joinable with
    | true => exact pushless_call rfl _ fun _ => ih
    | false => exact ih

theorem pushless_stop (drain : Bool) : Pushless (setup.program (.stop 0 drain)) := by
  refine pushless_call rfl _ fun _ => pushless_andThen ?_ ⟨trivial, fun _ _ => rfl⟩
  refine pushless_call rfl _ fun _ => pushless_andThen (pushless_stopShards drain _) ?_
  exact pushless_andThen (pushless_joinShards _) ⟨trivial, fun _ _ => rfl⟩

theorem pushless_invoke (i : Fin setup.count) (a : Activity) : Pushless (setup.invoke i a) := by
  refine pushless_call rfl _ fun _ => pushless_call rfl _ fun threw => ?_
  cases threw with
  | true => exact ⟨trivial, fun _ _ => rfl⟩
  | false => exact Eq.refl Phase.done

theorem pushless_runPass (i : Fin setup.count) : Pushless (setup.runPass i) := by
  refine pushless_call rfl _ fun s => pushless_call rfl _ fun timeout => ?_
  by_cases hwait : s.stopping = false ∧ s.queue = [] ∧ timeout = false
  · rw [if_pos hwait]
    exact ⟨trivial, fun _ _ => rfl⟩
  rw [if_neg hwait]
  by_cases hdrained : s.stopping = true ∧ s.queue = []
  · rw [if_pos hdrained]
    exact ⟨trivial, fun _ _ => ⟨trivial, fun _ _ => rfl⟩⟩
  rw [if_neg hdrained]
  refine pushless_call rfl _ fun due => ?_
  by_cases htick : s.stopping = false ∧ due = true
  · rw [if_pos htick]
    refine pushless_call rfl _ fun _ => ?_
    by_cases hhas : setup.hasTick = true
    · rw [if_pos hhas]
      exact pushless_invoke i .tick
    · rw [if_neg hhas]
      exact Eq.refl Phase.done
  rw [if_neg htick]
  cases s.queue with
  | nil => exact ⟨trivial, fun _ _ => rfl⟩
  | cons task rest =>
    refine pushless_call rfl _ fun _ => pushless_call rfl _ fun _ => pushless_call rfl _ fun _ => ?_
    exact pushless_andThen (pushless_invoke i (.task task)) ⟨trivial, fun _ _ => rfl⟩

/-- `post` returns whether it pushed. -/
theorem meets_posted (task : Job) :
    Meets (postMonitor setup.count) (fun m _ => m = .done) .fresh
    (setup.program (.post 0 task)) := by
  refine Meets.andThen (Meets.perform trivial fun q _ => ?_)
  by_cases hfull : q.stopping = true ∨ setup.capacity ≤ q.queue.length
  · simp only [Setup.postLocked, if_pos hfull]
    exact ⟨trivial, fun _ _ => ⟨trivial, fun _ _ => ⟨Or.inr ⟨rfl, rfl⟩, fun _ _ => rfl⟩⟩⟩
  · simp only [Setup.postLocked, if_neg hfull]
    exact ⟨rfl, fun _ _ => ⟨trivial, fun _ _ => ⟨trivial, fun _ _ => ⟨trivial, fun _ _ =>
      ⟨Or.inl rfl, fun _ _ => rfl⟩⟩⟩⟩⟩

theorem final_done {α : Type} {m : Phase Job} {p : Prog (Call setup.count) Call.Answer α}
    (h : Meets (postMonitor setup.count) (fun m _ => m = .done) m p) :
    Meets (postMonitor setup.count) (fun m _ => (postMonitor setup.count).final m) m p := by
  refine h.weaken ?_
  rintro _ _ rfl k r ⟨⟩

/-- The calls of `post` keep their ledger. -/
theorem executor_keeps (setup : Setup) :
    Keeps setup.executor Call.mark (fun _ _ => true) State.posts where
  init := by
    rintro s rfl
    rfl
  env _ _ h := h.elim
  start := by
    rintro t s p ⟨l, hl⟩
    cases l with
    | post k task =>
      obtain ⟨hunused, hl⟩ := Option.ite_none_right_eq_some.mp hl
      cases hl
      exact ⟨.fresh, Or.inl ⟨rfl, hunused⟩, final_done (meets_posted task)⟩
    | stop k drain =>
      cases hl
      exact ⟨.done, Or.inr rfl, final_done (pushless_stop drain)⟩
    | run i =>
      obtain ⟨-, hl⟩ := Option.ite_none_left_eq_some.mp hl
      cases hl
      exact ⟨.done, Or.inr rfl, final_done (pushless_runPass i)⟩
  exec := by
    rintro t e s r s' ⟨pick, hp⟩
    obtain ⟨rs, -, heq⟩ := Option.map_eq_some_iff.mp hp
    cases heq
    rfl
  stop := by
    rintro t p s s' ⟨hret, rfl⟩
    exact ⟨hret, rfl⟩
  crash _ _ _ h := h.elim

end Programs

/-! ## What the shards accept -/

section Accepted

variable {n : ℕ} {s s' : State n} {t : Thread n} {e : Call n} {r : e.Answer}

/-- What an effect pushes, and what of it to shard `j`. -/
def Call.pushed : Call n → List Job
  | .push _ job => [job]
  | _ => []

def Call.pushedTo (j : Fin n) : Call n → List Job
  | .push i job => if i = j then [job] else []
  | _ => []

theorem items_noted (l : Ledger (Thread n) Job) (t : Thread n) (e : Call n) :
    (l.record t e.mark true).items = l.items ++ e.pushed := by
  cases e with
  | push i job => exact Ledger.items_record_granted l t job
  | _ => exact (List.append_nil _).symm

theorem accepted_write {i : Fin n} {q : Queue} {jobs : List Job}
    (h : q.accepted = (s.shard i).accepted ++ jobs) (j : Fin n) :
    ((s.write i q).shard j).accepted = (s.shard j).accepted ++ if i = j then jobs else [] := by
  by_cases hij : i = j
  · subst hij
    rw [if_pos rfl, ← h]
    exact congrArg Queue.accepted (update_self ..)
  · rw [if_neg hij, List.append_nil]
    exact congrArg Queue.accepted (update_of_ne (Ne.symm hij) ..)

theorem accepted_perform {pick : Bool} (h : perform t e pick s = some (r, s')) (j : Fin n) :
    (s'.shard j).accepted = (s.shard j).accepted ++ e.pushedTo j := by
  have hkept : ∀ {i : Fin n} {q : Queue}, q.accepted = (s.shard i).accepted →
      ((s.write i q).shard j).accepted = (s.shard j).accepted ++ [] := by
    intro i q hq
    have hnone : q.accepted = (s.shard i).accepted ++ [] := by rw [hq, List.append_nil]
    rw [accepted_write hnone j, ite_self]
  have hsame : (s.shard j).accepted = (s.shard j).accepted ++ [] := (List.append_nil _).symm
  cases e with
  | push i job =>
    cases h
    exact accepted_write rfl j
  | pop i =>
    simp only [perform] at h
    split at h <;> cases h
    exact hkept rfl
  | discard i | setStopping i | countQueued i k | countCancelled i k =>
    cases h
    exact hkept rfl
  | lock i | lockStop | join i =>
    obtain ⟨-, h⟩ := Option.ite_none_right_eq_some.mp h
    cases h
    exact hsame
  | _ =>
    cases h
    exact hsame

end Accepted

end DistributedChat.Executor
