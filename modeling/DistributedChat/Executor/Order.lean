import DistributedChat.Executor.Discipline
import DistributedChat.Executor.Posts

/-!
# Accepted tasks run once and in order

The mutex of a shard keeps the queue and its part of the counters together, and the record of a
worker belongs to its thread. `Ok` says this of all shards, threads and counters at once; there is
one lemma for a change behind a mutex, one for a change of a worker, and one for everything else.
-/

namespace DistributedChat.Executor

open Lib Function

/-! ## All shards and threads -/

section Invariant

variable {n capacity : ℕ}

structure Knows (s : State n) (t : Thread n) (m : Known n) : Prop where
  self : m.self = t
  own : ∀ i, t = .worker i → m.own = s.workers i
  drained : m.drained = true → ∀ i, t = .worker i → (s.shard i).Drained
  gone : ∀ i, m.gone i = true → (s.workers i).finished = true
  cancels : m.cancels = true → false ∈ s.issued

/-- What cannot be undone. -/
structure Grows (s s' : State n) : Prop where
  stopping : ∀ i, (s.shard i).stopping = true →
    (s'.shard i).stopping = true ∧ (s'.shard i).accepted = (s.shard i).accepted
  drained : ∀ i, (s.shard i).Drained → (s'.shard i).Drained
  finished : ∀ i, (s.workers i).finished = true → (s'.workers i).finished = true
  issued : s.issued ⊆ s'.issued

/-- The mutexes the threads hold. -/
def views (g : Thread n → Option (Known n)) (t : Thread n) : Option (Fin n × Queue) :=
  (g t).bind Known.view

structure Ok (capacity : ℕ) (s : State n) (g : Thread n → Option (Known n)) : Prop where
  guarded : Guarded Queue.InOrder s.shards (views g)
  knows : ∀ t m, g t = some m → Knows s t m
  rested : ∀ i, g (.worker i) = none → (s.workers i).Rested
  shards : ∀ i, Shard capacity s.issued (Here i) (s.shard i) (s.workers i)
  queued : s.queued = ∑ i, (s.shard i).queuedPart
  cancelled : s.cancelled = ∑ i, (s.shard i).cancelledPart
  completed : s.completed = ∑ i, (s.workers i).completed.length
  joined : ∀ i, s.joined i = true → (s.workers i).finished = true
  returned : s.returned ≠ [] → ∀ i, (s.workers i).finished = true

variable {s s' : State n} {g : Thread n → Option (Known n)} {t : Thread n} {m m' : Known n}

theorem views_update (g : Thread n → Option (Known n)) (t : Thread n) (o : Option (Known n)) :
    views (update g t o) = update (views g) t (o.bind Known.view) := by
  funext t'
  by_cases ht : t' = t
  · subst ht
    simp [views]
  · simp [views, ht]

theorem Knows.mono {t' : Thread n} {k : Known n} (h : Knows s t' k) (hgrows : Grows s s')
    (hothers : ∀ i, t' = .worker i → s'.workers i = s.workers i) : Knows s' t' k where
  self := h.self
  own i hi := (h.own i hi).trans (hothers i hi).symm
  drained hd i hi := hgrows.drained i (h.drained hd i hi)
  gone i hi := hgrows.finished i (h.gone i hi)
  cancels hc := hgrows.issued (h.cancels hc)

theorem Ok.threads (h : Ok capacity s g) (ht : g t = some m) (hgrows : Grows s s')
    (hothers : ∀ i, t ≠ .worker i → s'.workers i = s.workers i) (hknows : Knows s' t m') :
    (∀ t' k, update g t (some m') t' = some k → Knows s' t' k) ∧
      ∀ i, update g t (some m') (.worker i) = none → (s'.workers i).Rested := by
  refine ⟨forall_set hknows fun t' k htt hk => ?_, fun i hi => ?_⟩
  · exact (h.knows t' k hk).mono hgrows fun i hi => hothers i (hi ▸ Ne.symm htt)
  · rcases update_cases hi with ⟨rfl, hnew⟩ | ⟨htt, hi⟩
    · cases hnew
    · rw [hothers i (Ne.symm htt)]
      exact h.rested i hi

theorem sum_update {D M : Type} [AddCommMonoid M] (f : D → M) (data : Fin n → D) (i : Fin n)
    (d : D) :
    ∑ j, f (update data i d j) + f (data i) = ∑ j, f (data j) + f d := by
  have hpart : (fun j => f (update data i d j)) = update (fun j => f (data j)) i (f d) := by
    funext j
    exact apply_update (fun _ => f) data i d j
  rw [hpart, Finset.sum_update_of_mem (Finset.mem_univ i), Finset.sdiff_singleton_eq_erase,
    ← Finset.add_sum_erase Finset.univ (fun j => f (data j)) (Finset.mem_univ i)]
  abel

variable {i : Fin n} {q : Queue}

section

variable (h : Ok capacity s g)

include h

theorem Ok.seen (ht : g t = some m) (hview : m.view = some (i, q)) :
    views g t = some (i, q) ∧ s.shard i = q := by
  have hviews : views g t = some (i, q) := by simp [views, ht, hview]
  exact ⟨hviews, (h.guarded.held t i q hviews).2⟩

/-- A change of the queue and the worker of one shard. -/
theorem Ok.change (ht : g t = some m) {q' : Queue} {w : Worker}
    (hw : w = s.workers i ∨ t = .worker i)
    (hfinished : (s.workers i).finished = true → w.finished = true)
    (hshard : Shard capacity s.issued (Here i) q' w)
    (hstop : (s.shard i).stopping = true → q'.stopping = true ∧ q'.accepted = (s.shard i).accepted)
    (hdrained : (s.shard i).Drained → q'.Drained)
    (hshards : s'.shards.data = update s.shards.data i q')
    (hworkers : s'.workers = update s.workers i w) (hissued : s'.issued = s.issued)
    (hqueued : s'.queued + (s.shard i).queuedPart = s.queued + q'.queuedPart)
    (hcancelled : s'.cancelled + (s.shard i).cancelledPart = s.cancelled + q'.cancelledPart)
    (hcompleted : s'.completed + (s.workers i).completed.length = s.completed + w.completed.length)
    (hjoined : s'.joined = s.joined) (hreturned : s'.returned = s.returned)
    (hguarded : Guarded Queue.InOrder s'.shards (update (views g) t m'.view))
    (hm' : m' = { m with view := m'.view, own := if t = .worker i then w else m.own }) :
    Ok capacity s' (update g t (some m')) ∧ Grows s s' := by
  have hone : ∀ P : Fin n → Queue → Worker → Prop, P i q' w → (∀ j, P j (s.shard j) (s.workers j)) →
      ∀ j, P j (s'.shard j) (s'.workers j) := by
    intro P hi hrest j
    rw [State.shard, hshards, hworkers]
    by_cases hji : j = i
    · subst hji
      rwa [update_self, update_self]
    · rw [update_of_ne hji, update_of_ne hji]
      exact hrest j
  have hgrows : Grows s s' := ⟨
    hone (fun j q _ => (s.shard j).stopping = true → q.stopping = true ∧
      q.accepted = (s.shard j).accepted) hstop
      fun _ hj => ⟨hj, rfl⟩,
    hone (fun j q _ => (s.shard j).Drained → q.Drained) hdrained fun _ hj => hj,
    hone (fun j _ w => (s.workers j).finished = true → w.finished = true) hfinished fun _ hj => hj,
    hissued ▸ List.Subset.refl _⟩
  have hothers : ∀ j, t ≠ .worker j → s'.workers j = s.workers j :=
    hone (fun j _ w => t ≠ .worker j → w = s.workers j) hw.resolve_right fun _ _ => rfl
  have hold := h.knows t m ht
  have hknows : Knows s' t m' := by
    rw [hm']
    refine ⟨hold.self, fun j hj => ?_, fun hd j hj => hgrows.drained j (hold.drained hd j hj),
      fun j hj => hgrows.finished j (hold.gone j hj), fun hc => hgrows.issued (hold.cancels hc)⟩
    rw [hworkers]
    subst hj
    by_cases hji : j = i
    · simp [hji]
    · simp [hji, hold.own j rfl]
  obtain ⟨hall, hrested⟩ := h.threads ht hgrows hothers hknows
  refine ⟨⟨?_, hall, hrested, fun j => ?_, ?_, ?_, ?_, fun j hj => ?_, fun hne j => ?_⟩, hgrows⟩
  · rw [views_update]
    exact hguarded
  · rw [hissued]
    exact hone (fun j => Shard capacity s.issued (Here j)) hshard h.shards j
  · have hsum := sum_update Queue.queuedPart s.shards.data i q'
    have hold := h.queued
    simp only [State.shard, hshards] at *
    omega
  · have hsum := sum_update Queue.cancelledPart s.shards.data i q'
    have hold := h.cancelled
    simp only [State.shard, hshards] at *
    omega
  · have hsum := sum_update (fun w : Worker => w.completed.length) s.workers i w
    have hold := h.completed
    rw [hworkers]
    omega
  · exact hgrows.finished j (h.joined j (hjoined ▸ hj))
  · exact hgrows.finished j (h.returned (hreturned ▸ hne) j)

theorem Ok.edit (ht : g t = some m) {q' : Queue} (hview : m.view = some (i, q)) {w : Worker}
    {a b : ℤ}
    (hw : w = s.workers i ∨ t = .worker i) (hcompleted : w.completed = (s.workers i).completed)
    (hfinished : w.finished = (s.workers i).finished)
    (hshard : Shard capacity s.issued (Here i) q' w)
    (hstop : q.stopping = true → q'.stopping = true ∧ q'.accepted = q.accepted)
    (hdrained : q.Drained → q'.Drained) (ha : a + q.queuedPart = s.queued + q'.queuedPart)
    (hb : b + q.cancelledPart = s.cancelled + q'.cancelledPart)
    (hs' : s' = { (s.write i q').work i w with queued := a, cancelled := b })
    (hm' : m' = { m with view := some (i, q'), own := if t = .worker i then w else m.own }) :
    Ok capacity s' (update g t (some m')) ∧ Grows s s' := by
  obtain ⟨hviews, rfl⟩ := h.seen ht hview
  subst hs' hm'
  exact h.change ht hw (fun hdone => hfinished.trans hdone) hshard hstop hdrained rfl rfl rfl ha hb
    (by rw [hcompleted]; rfl) rfl rfl (h.guarded.write hviews) rfl

theorem Ok.editQueue (ht : g t = some m) (hview : m.view = some (i, q))
    (f : Queue → Queue) {a b : ℤ}
    (hshard : Shard capacity s.issued (Here i) q (s.workers i) →
      Shard capacity s.issued (Here i) (f q) (s.workers i))
    (hstop : q.stopping = true → (f q).stopping = true ∧ (f q).accepted = q.accepted)
    (hdrained : q.Drained → (f q).Drained) (ha : a + q.queuedPart = s.queued + (f q).queuedPart)
    (hb : b + q.cancelledPart = s.cancelled + (f q).cancelledPart)
    (hs' : s' = { s.write i (f (s.shard i)) with queued := a, cancelled := b }) :
    Ok capacity s' (update g t (some (m.edit f))) ∧ Grows s s' := by
  obtain ⟨-, hq⟩ := h.seen ht hview
  have hold := h.knows t m ht
  refine h.edit ht hview (Or.inl rfl) rfl rfl (hshard (hq ▸ h.shards i)) hstop hdrained ha hb ?_ ?_
  · rw [hs', hq, State.work, show (s.write i (f q)).workers = s.workers from rfl, update_eq_self]
    rfl
  · simp only [Known.edit, hview, Option.map_some]
    split
    · rename_i hi
      rw [← hold.own i hi]
    · rfl

theorem Ok.work (ht : g (.worker i) = some m) {w : Worker} {k : ℕ}
    (hshard : Shard capacity s.issued (Here i) (s.shard i) w)
    (hfinished : (s.workers i).finished = true → w.finished = true)
    (hk : k + (s.workers i).completed.length = s.completed + w.completed.length)
    (hs' : s' = { s.work i w with completed := k }) (hm' : m' = { m with own := w }) :
    Ok capacity s' (update g (.worker i) (some m')) ∧ Grows s s' := by
  subst hs' hm'
  refine h.change ht (Or.inr rfl) hfinished hshard (fun hstop => ⟨hstop, rfl⟩) id
    (update_eq_self ..).symm rfl rfl
    rfl rfl hk rfl rfl ?_ (by rw [if_pos rfl])
  have hview : m.view = views g (.worker i) := by rw [views, ht, Option.bind_some]
  rw [hview, update_eq_self]
  exact h.guarded

theorem Ok.quiet (ht : g t = some m) (hdata : ∀ i, s'.shard i = s.shard i)
    (hworkers : s'.workers = s.workers)
    (hissued : s.issued ⊆ s'.issued)
    (hcounters : s'.queued = s.queued ∧ s'.cancelled = s.cancelled ∧ s'.completed = s.completed)
    (hguarded : Guarded Queue.InOrder s'.shards (update (views g) t m'.view))
    (hjoined : ∀ i, s'.joined i = true → (s.workers i).finished = true)
    (hreturned : s'.returned ≠ [] → ∀ i, (s.workers i).finished = true) (hself : m'.self = m.self)
    (hown : m'.own = m.own)
    (hdrained : m'.drained = true → ∀ i, t = .worker i → (s.shard i).Drained)
    (hgone : ∀ i, m'.gone i = true → (s.workers i).finished = true)
    (hcancels : m'.cancels = true → false ∈ s'.issued) :
    Ok capacity s' (update g t (some m')) ∧ Grows s s' := by
  have hgrows : Grows s s' := by
    refine ⟨fun i hi => ?_, fun i hi => ?_, fun i hi => ?_, hissued⟩
    · rw [hdata i]
      exact ⟨hi, rfl⟩
    · rw [hdata i]
      exact hi
    · rw [hworkers]
      exact hi
  have hold := h.knows t m ht
  have hknows : Knows s' t m' := by
    refine ⟨hself.trans hold.self, fun i hi => ?_, fun hd i hi => ?_, fun i hi => ?_, hcancels⟩
    · rw [hown, hworkers]
      exact hold.own i hi
    · rw [hdata i]
      exact hdrained hd i hi
    · rw [hworkers]
      exact hgone i hi
  obtain ⟨hall, hrested⟩ := h.threads ht hgrows (fun i _ => congrFun hworkers i) hknows
  refine ⟨⟨?_, hall, hrested, fun i => ?_, ?_, ?_, ?_, fun i hi => ?_, fun hne i => ?_⟩, hgrows⟩
  · rw [views_update]
    exact hguarded
  · rw [hdata i, hworkers]
    exact (h.shards i).issue hissued
  · simp only [hcounters.1, hdata]
    exact h.queued
  · simp only [hcounters.2.1, hdata]
    exact h.cancelled
  · rw [hcounters.2.2, hworkers]
    exact h.completed
  · rw [hworkers]
    exact hjoined i hi
  · rw [hworkers]
    exact hreturned hne i

theorem Ok.sameViews (ht : g t = some m) (hview : m'.view = m.view)
    (hshards : s'.shards = s.shards) :
    Guarded Queue.InOrder s'.shards (update (views g) t m'.view) := by
  have hviews : m'.view = views g t := by
    rw [hview, views, ht]
    rfl
  rw [hviews, update_eq_self, hshards]
  exact h.guarded

theorem Ok.skip (ht : g t = some m) (hshards : s'.shards = s.shards)
    (hworkers : s'.workers = s.workers) (hissued : s'.issued = s.issued)
    (hcounters : s'.queued = s.queued ∧ s'.cancelled = s.cancelled ∧ s'.completed = s.completed)
    (hjoined : s'.joined = s.joined) (hreturned : s'.returned = s.returned) :
    Ok capacity s' (update g t (some m)) ∧ Grows s s' := by
  have hold := h.knows t m ht
  refine h.quiet ht (fun i => by rw [State.shard, hshards]; rfl) hworkers (fun b hb => hissued ▸ hb)
    hcounters (h.sameViews ht rfl hshards) (fun i hi => h.joined i (hjoined ▸ hi))
    (fun hne => h.returned (hreturned ▸ hne)) rfl rfl hold.drained hold.gone
    (fun hc => hissued ▸ hold.cancels hc)

theorem ok_perform (ht : g t = some m) {e : Call n} (hallow : e.Allow capacity m)
    {pick : Bool} {r : e.Answer} (hp : perform t e pick s = some (r, s')) :
    (discipline capacity).answer m e r ∧ Ok capacity s'
    (update g t (some (e.next m r))) ∧ Grows s s' := by
  have hold := h.knows t m ht
  have hmine : ∀ i, m.self = .worker i → t = .worker i ∧ m.own = s.workers i :=
    fun i hself => ⟨hold.self.symm.trans hself, hold.own i (hold.self.symm.trans hself)⟩
  cases e with
  | lock i =>
    obtain ⟨hfree, hp⟩ := Option.ite_none_right_eq_some.mp hp
    cases hp
    exact ⟨h.guarded.free i hfree,
      h.quiet ht (fun _ => rfl) rfl (List.Subset.refl _) ⟨rfl, rfl, rfl⟩
      (h.guarded.lock hfree) h.joined h.returned rfl rfl hold.drained hold.gone hold.cancels⟩
  | unlock i =>
    cases hp
    obtain ⟨q, hview, hq⟩ := hallow
    obtain ⟨hviews, hseen⟩ := h.seen ht hview
    refine ⟨trivial, h.quiet ht (fun _ => rfl) rfl (List.Subset.refl _) ⟨rfl, rfl, rfl⟩
      (h.guarded.unlock hviews hq) h.joined h.returned rfl rfl (fun hd j hj => ?_) hold.gone
      hold.cancels⟩
    -- A worker that saw its shard drained knows it from now on.
    rcases Bool.or_eq_true_iff.mp hd with hd | hd
    · exact hold.drained hd j hj
    · simp only [Known.seesDrained, hview, Bool.and_eq_true, decide_eq_true_eq,
        List.isEmpty_iff] at hd
      obtain ⟨hself, hdrained⟩ := hd
      obtain rfl : i = j := by
        have := hself.symm.trans (hold.self.trans hj)
        exact Thread.worker.inj this
      rw [hseen]
      exact hdrained
  | push i job =>
    cases hp
    obtain ⟨hhere, q, hview, hopen, hroom⟩ := hallow
    refine ⟨trivial,
      h.editQueue ht hview (·.push job) (fun hq => hq.push hhere hopen hroom) (fun hs => ?_)
      (fun hd => ?_) rfl rfl rfl⟩
    · simp [hopen] at hs
    · simp [Queue.Drained, hopen] at hd
  | pop i =>
    obtain ⟨hself, hrested, q, hview, hne⟩ := hallow
    obtain ⟨job, rest, hqueue⟩ := List.exists_cons_of_ne_nil hne
    obtain ⟨-, hseen⟩ := h.seen ht hview
    obtain ⟨rfl, hown⟩ := hmine i hself
    simp only [perform, hseen, hqueue] at hp
    cases hp
    have hshard := h.shards i
    rw [hseen] at hshard
    have hnew := hshard.pop hqueue (hown ▸ hrested)
    refine ⟨trivial,
      h.edit ht hview (Or.inr rfl) ?_ ?_ hnew (fun hs => ⟨hs, rfl⟩) (fun hd => ?_) rfl rfl
      rfl ?_⟩
    · rfl
    · rfl
    · simp [Queue.Drained, hqueue] at hd
    · simp [Call.next, Known.edit, Known.takeFront, hview, hqueue, hown, Worker.take]
  | discard i =>
    cases hp
    obtain ⟨hcancels, q, hview, hstop⟩ := hallow
    exact ⟨trivial,
      h.editQueue ht hview Queue.discard (fun hq => hq.discard hstop (hold.cancels hcancels))
      (fun hs => ⟨hs, rfl⟩) (fun hd => ⟨hd.1, rfl⟩) rfl rfl rfl⟩
  | setStopping i =>
    cases hp
    obtain ⟨q, hview⟩ := hallow
    exact ⟨trivial, h.editQueue ht hview Queue.setStopping (fun hq => hq.setStopping)
      (fun _ => ⟨rfl, rfl⟩) (fun hd => ⟨rfl, hd.2⟩) rfl rfl rfl⟩
  | countQueued i k =>
    cases hp
    obtain ⟨q, hview⟩ := hallow
    refine ⟨trivial, h.editQueue ht hview (·.countQueued k) (fun hq => hq.countQueued k)
      (fun hs => ⟨hs, rfl⟩) (fun hd => hd) ?_ rfl rfl⟩
    simp only [Queue.countQueued]
    omega
  | countCancelled i k =>
    cases hp
    obtain ⟨q, hview⟩ := hallow
    refine ⟨trivial, h.editQueue ht hview (·.countCancelled k) (fun hq => hq.countCancelled k)
      (fun hs => ⟨hs, rfl⟩) (fun hd => hd) rfl ?_ rfl⟩
    simp only [Queue.countCancelled]
    omega
  | countCompleted i =>
    cases hp
    obtain ⟨hself, hfin, hran⟩ := hallow
    obtain ⟨rfl, hown⟩ := hmine i hself
    rw [hown] at hfin hran
    refine ⟨trivial, h.work ht ((h.shards i).complete hran hfin) (fun hf => hf) ?_ rfl
      (by simp [Call.next, hown])⟩
    obtain ⟨job, hjob⟩ := Option.isSome_iff_exists.mp hran.running
    simp only [Worker.complete, hjob, Option.toList_some, List.length_append, List.length_singleton]
    omega
  | enter i a =>
    cases hp
    obtain ⟨hself, hfin, hmay⟩ := hallow
    obtain ⟨rfl, hown⟩ := hmine i hself
    rw [hown] at hfin hmay
    exact ⟨trivial, h.work ht ((h.shards i).enter hmay hfin) (fun hf => hf) rfl rfl
      (by simp [Call.next, hown])⟩
  | leave i a =>
    cases hp
    obtain ⟨hself, hfin⟩ := hallow
    obtain ⟨rfl, hown⟩ := hmine i hself
    rw [hown] at hfin
    exact ⟨trivial, h.work ht ((h.shards i).leave hfin) (fun hf => hf) rfl rfl
      (by simp [Call.next, hown])⟩
  | exit i =>
    cases hp
    obtain ⟨hself, hrested, hdrained⟩ := hallow
    obtain ⟨rfl, hown⟩ := hmine i hself
    exact ⟨trivial, h.work ht ((h.shards i).exit (hold.drained hdrained i rfl) (hown ▸ hrested))
      (fun _ => rfl) rfl rfl (by simp [Call.next, hown])⟩
  | joinable i =>
    cases hp
    refine ⟨trivial, ?_⟩
    cases hjoined : s.joined i with
    | false => exact h.skip ht rfl rfl rfl ⟨rfl, rfl, rfl⟩ rfl rfl
    | true =>
      refine h.quiet ht (fun _ => rfl) rfl (List.Subset.refl _) ⟨rfl, rfl, rfl⟩
        (h.sameViews ht rfl rfl)
        h.joined h.returned rfl rfl hold.drained (fun j hj => ?_) hold.cancels
      by_cases hji : j = i
      · subst hji
        exact h.joined j hjoined
      · exact hold.gone j ((update_of_ne hji ..).symm.trans hj)
  | join i =>
    obtain ⟨hfin, hp⟩ := Option.ite_none_right_eq_some.mp hp
    cases hp
    refine ⟨trivial, h.quiet ht (fun _ => rfl) rfl (List.Subset.refl _) ⟨rfl, rfl, rfl⟩
      (h.sameViews ht rfl rfl) (fun j hj => ?_) h.returned rfl rfl hold.drained (fun j hj => ?_)
      hold.cancels⟩
    · by_cases hji : j = i
      · exact hji ▸ hfin
      · exact h.joined j ((update_of_ne hji ..).symm.trans hj)
    · by_cases hji : j = i
      · exact hji ▸ hfin
      · exact hold.gone j ((update_of_ne hji ..).symm.trans hj)
  | issue drain =>
    cases hp
    refine ⟨trivial, h.quiet ht (fun _ => rfl) rfl (List.subset_append_left _ _) ⟨rfl, rfl, rfl⟩
      (h.sameViews ht rfl rfl) h.joined h.returned rfl rfl hold.drained hold.gone fun hc => ?_⟩
    rcases Bool.or_eq_true_iff.mp hc with hc | hc
    · exact List.mem_append_left _ (hold.cancels hc)
    · simp only [Bool.not_eq_true'] at hc
      simp [hc]
  | returned drain =>
    cases hp
    exact ⟨trivial, h.quiet ht (fun _ => rfl) rfl (List.Subset.refl _) ⟨rfl, rfl, rfl⟩
      (h.sameViews ht rfl rfl) h.joined
        (fun _ i => hold.gone i (hallow i)) rfl rfl hold.drained hold.gone
      hold.cancels⟩
  | lockStop =>
    obtain ⟨-, hp⟩ := Option.ite_none_right_eq_some.mp hp
    cases hp
    exact ⟨trivial, h.skip ht rfl rfl rfl ⟨rfl, rfl, rfl⟩ rfl rfl⟩
  | countRejected | countFailure | notify_one i | timeout | due | unlockStop | posted job r =>
    cases hp
    exact ⟨trivial, h.skip ht rfl rfl rfl ⟨rfl, rfl, rfl⟩ rfl rfl⟩

end

theorem Ok.noted (h : Ok capacity s g) (l : Ledger (Thread n) Job) :
    Ok capacity { s with posts := l } g :=
  { h with knows := fun t m ht => { h.knows t m ht with } }

theorem ok_performNoted (h : Ok capacity s g) (ht : g t = some m) {e : Call n}
    (hallow : e.Allow capacity m) {pick : Bool} {r : e.Answer}
    (hp : performNoted t e pick s = some (r, s')) :
    (discipline capacity).answer m e r ∧ Ok capacity s'
    (update g t (some (e.next m r))) ∧ Grows s s' := by
  obtain ⟨⟨r', s₁⟩, hcore, heq⟩ := Option.map_eq_some_iff.mp hp
  cases heq
  obtain ⟨hanswer, hok, hgrows⟩ := ok_perform h ht hallow hcore
  exact ⟨hanswer, hok.noted _, { hgrows with }⟩

end Invariant

/-! ## The executor -/

section Executor

variable {setup : Setup}

theorem ok_initial : Ok setup.capacity ({} : State setup.count) fun _ => none where
  guarded := ⟨fun _ _ => ⟨rfl, rfl⟩, fun _ _ _ h => by cases h⟩
  knows _ _ h := by cases h
  rested _ _ := ⟨rfl, rfl, rfl⟩
  shards _ := Shard.initial
  queued := by simp [State.shard]
  cancelled := by simp [State.shard]
  completed := by simp
  joined _ h := by cases h
  returned h := absurd rfl h

/-- What a thread knows at its start. -/
def Known.first (s : State setup.count) (t : Thread setup.count) : Known setup.count where
  self := t
  own := match t with
    | .worker i => s.workers i
    | .caller _ => {}

theorem Ok.start {s : State setup.count} {g : Thread setup.count → Option (Known setup.count)}
    {t : Thread setup.count} (h : Ok setup.capacity s g) (ht : g t = none) :
    Ok setup.capacity s (update g t (some (Known.first s t))) where
  guarded := by
    have hviews : (some (Known.first s t)).bind Known.view = views g t := by
      rw [views, ht]
      rfl
    rw [views_update, hviews, update_eq_self]
    exact h.guarded
  knows := by
    refine forall_set
      ⟨rfl, fun i hi => ?_, fun hd => Bool.noConfusion hd, fun _ hg => Bool.noConfusion hg,
      fun hc => Bool.noConfusion hc⟩ fun t' m _ hm => h.knows t' m hm
    subst hi
    rfl
  rested i hi := by
    rcases update_cases hi with ⟨htt, hi⟩ | ⟨htt, hi⟩
    · cases hi
    · exact h.rested i hi
  shards := h.shards
  queued := h.queued
  cancelled := h.cancelled
  completed := h.completed
  joined := h.joined
  returned := h.returned

theorem Ok.stop {s : State setup.count} {g : Thread setup.count → Option (Known setup.count)}
    {t : Thread setup.count} {m : Known setup.count} (h : Ok setup.capacity s g) (ht : g t = some m)
    (hm : m.Idle) : Ok setup.capacity s (update g t none) where
  guarded := by
    have hviews : (none : Option (Known setup.count)).bind Known.view = views g t := by
      rw [views, ht]
      exact hm.view.symm
    rw [views_update, hviews, update_eq_self]
    exact h.guarded
  knows := forall_erased h.knows
  rested i hi := by
    by_cases htt : .worker i = t
    · subst htt
      rw [← (h.knows _ m ht).own i rfl]
      exact hm.rested
    · rw [update_of_ne htt] at hi
      exact h.rested i hi
  shards := h.shards
  queued := h.queued
  cancelled := h.cancelled
  completed := h.completed
  joined := h.joined
  returned := h.returned

theorem ok_inductive :
    Inductive setup.executor (discipline setup.capacity) (Ok setup.capacity) where
  init s hs := by
    cases hs
    exact ok_initial
  env s s' g h henv := henv.elim
  start s g t p h ht hstart := by
    obtain ⟨l, hl⟩ := hstart
    refine ⟨Known.first s t, ?_, h.start ht⟩
    have hown : ∀ i, t = .worker i → (Known.first s t).own = s.workers i := by
      rintro i rfl
      rfl
    refine meets_program hl rfl ⟨rfl, ?_⟩ hown
    cases t with
    | worker i => exact h.rested i ht
    | caller k => exact ⟨rfl, rfl, rfl⟩
  call s s' g t m e r h ht hallow hexec := by
    obtain ⟨pick, hp⟩ := hexec
    obtain ⟨hanswer, hok, -⟩ := ok_performNoted h ht hallow hp
    exact ⟨hanswer, hok⟩
  stop s s' g t m p h ht hmeets hstop := by
    obtain ⟨⟨a, rfl⟩, rfl⟩ := hstop
    exact h.stop ht hmeets
  crash s s' g K h hcrash := hcrash.elim

theorem grows_of_step {c c' : Config (Thread setup.count) (Call setup.count) Call.Answer
    (Except Empty Unit) (State setup.count)} (hc : Reachable setup.executor c)
    (h : Step setup.executor c c') (i : Fin setup.count)
    (hstop : (c.shared.shard i).stopping = true) :
    (c'.shared.shard i).stopping = true ∧ (c'.shared.shard i).accepted =
    (c.shared.shard i).accepted := by
  cases h with
  | env h | crash h => exact h.elim
  | start free h => exact ⟨hstop, rfl⟩
  | @call t e k r s' running h =>
    obtain ⟨g, m, hok, hm, hallow⟩ := reachable_call ok_inductive hc running
    obtain ⟨pick, hp⟩ := h
    exact (ok_performNoted hok hm hallow hp).2.2.stopping i hstop
  | stop running h =>
    obtain ⟨-, rfl⟩ := h
    exact ⟨hstop, rfl⟩

theorem stopped_of_run {c c' : Config (Thread setup.count) (Call setup.count) Call.Answer
    (Except Empty Unit) (State setup.count)} (hc : Reachable setup.executor c)
    (h : Relation.ReflTransGen (Step setup.executor) c c') (i : Fin setup.count)
    (hstop : (c.shared.shard i).stopping = true) :
    Reachable setup.executor c' ∧ (c'.shared.shard i).stopping = true ∧
      (c'.shared.shard i).accepted = (c.shared.shard i).accepted := by
  induction h with
  | refl => exact ⟨hc, hstop, rfl⟩
  | tail _ hstep ih =>
    obtain ⟨hreach, hstop', hsame⟩ := ih
    obtain ⟨hstop'', hsame'⟩ := grows_of_step hreach hstep i hstop'
    exact ⟨.step hreach hstep, hstop'', hsame'.trans hsame⟩

/-- A shard has accepted what the calls that took effect posted to it, in this order. -/
theorem accepted_eq_posts {c : Config (Thread setup.count) (Call setup.count) Call.Answer
    (Except Empty Unit) (State setup.count)} (hc : Reachable setup.executor c) (i :
    Fin setup.count) :
    (c.shared.shard i).accepted =
      c.shared.posts.items.filter fun job => setup.shard job.key = i := by
  induction hc with
  | init h =>
    cases h
    rfl
  | @step c c' hc h ih =>
    cases h with
    | env h | crash h => exact h.elim
    | start free h => exact ih
    | stop running h =>
      obtain ⟨-, rfl⟩ := h
      exact ih
    | @call t e k r s' running h =>
      obtain ⟨g, m, -, -, hallow⟩ := reachable_call ok_inductive hc running
      obtain ⟨pick, hp⟩ := h
      obtain ⟨⟨r', s₁⟩, hcore, heq⟩ := Option.map_eq_some_iff.mp hp
      cases heq
      have hpushed : e.pushedTo i = e.pushed.filter fun job => setup.shard job.key = i := by
        cases e with
        | push j job =>
          have hhere : setup.shard job.key = j := Fin.ext hallow.1
          simp only [Call.pushedTo, Call.pushed, List.filter_cons, List.filter_nil, hhere,
            decide_eq_true_eq]
        | _ => rfl
      show (s₁.shard i).accepted = _
      rw [items_noted, List.filter_append, accepted_perform hcore, ih, hpushed]

theorem posts_of_step {c c' : Config (Thread setup.count) (Call setup.count) Call.Answer
    (Except Empty Unit) (State setup.count)} (hc : Reachable setup.executor c)
    (h : Step setup.executor c c') (hstop : ∀ i, (c.shared.shard i).stopping = true) :
    c'.shared.posts.accepted = c.shared.posts.accepted := by
  cases h with
  | env h | crash h => exact h.elim
  | start free h => rfl
  | stop running h =>
    obtain ⟨-, rfl⟩ := h
    rfl
  | @call t e k r s' running h =>
    obtain ⟨g, m, hok, hm, hallow⟩ := reachable_call ok_inductive hc running
    obtain ⟨pick, hp⟩ := h
    obtain ⟨⟨r', s₁⟩, -, heq⟩ := Option.map_eq_some_iff.mp hp
    cases heq
    cases e with
    | push i job =>
      obtain ⟨-, q, hview, hopen, -⟩ := hallow
      have hstopped := hstop i
      rw [(hok.seen hm hview).2, hopen] at hstopped
      cases hstopped
    | _ => rfl

/-- Once all shards are stopping, no call takes effect any more. -/
theorem posts_of_run {c c' : Config (Thread setup.count) (Call setup.count) Call.Answer
    (Except Empty Unit) (State setup.count)} (hc : Reachable setup.executor c)
    (h : Relation.ReflTransGen (Step setup.executor) c c')
    (hstop : ∀ i, (c.shared.shard i).stopping = true) :
    Reachable setup.executor c' ∧ c'.shared.posts.accepted = c.shared.posts.accepted := by
  induction h with
  | refl => exact ⟨hc, rfl⟩
  | tail hrun hstep ih =>
    obtain ⟨hreach, hsame⟩ := ih
    refine ⟨.step hreach hstep, (posts_of_step hreach hstep fun i => ?_).trans hsame⟩
    exact (stopped_of_run hc hrun i (hstop i)).2.1

/-- **Accepted tasks run once and in order.** In every run, at every moment:

* of the calls of `post` that have returned, exactly those returned true that took effect; each
  takes effect at most once, and one that took effect and has not returned is still running;
* the tasks a shard accepted are those of the calls that took effect, in this order, and they are
  those its worker completed, the one it runs, those in the queue and those cancelled; the tasks
  called are the completed ones and perhaps the running one, in the same order; no call of the
  worker begins while another is under way; every task is in the shard of its key; tasks are
  cancelled only once a `stop(false)` was issued; the queue is within the capacity;
* while no critical section is active, the counters add up;
* once a `stop` has returned, every task has been called or cancelled; after `stop(true)` without
  any `stop(false)` every task has been completed, and from then on no call of `post` takes effect,
  and one that had not taken effect returns false. -/
theorem executor_runs_in_order (setup : Setup) {c : Config (Thread setup.count) (Call setup.count)
    Call.Answer (Except Empty Unit) (State setup.count)} (hc : Reachable setup.executor c) :
    ((c.shared.posts.accepted.map Prod.fst).Nodup ∧
      (∀ t job r, (t, job, r) ∈ c.shared.posts.returned →
        (r = true ↔ (t, job) ∈ c.shared.posts.accepted)) ∧
      ∀ t job, (t, job) ∈ c.shared.posts.accepted →
        (t, job, true) ∈ c.shared.posts.returned ∨ (c.threads t).isSome = true) ∧
    (∀ i,
      (c.shared.shard i).accepted =
        (c.shared.posts.accepted.map Prod.snd).filter (fun job => setup.shard job.key = i) ∧
      (c.shared.shard i).accepted = (c.shared.workers i).completed ++
        (c.shared.workers i).running.toList ++ (c.shared.shard i).queue ++
        (c.shared.shard i).cancelled ∧
      ((c.shared.workers i).ran = (c.shared.workers i).completed ∨
        (c.shared.workers i).ran =
          (c.shared.workers i).completed ++ (c.shared.workers i).running.toList) ∧
      (c.shared.workers i).overlapped = false ∧
      (∀ job ∈ (c.shared.shard i).accepted, setup.shard job.key = i) ∧
      ((c.shared.shard i).cancelled ≠ [] → false ∈ c.shared.issued) ∧
      (c.shared.shard i).queue.length ≤ setup.capacity) ∧
    ((∀ i, c.shared.shards.owner i = none) →
      c.shared.queued = ∑ i, ((c.shared.shard i).queue.length : ℤ) ∧
      ∑ i, ((c.shared.shard i).accepted.length : ℤ) = c.shared.queued +
        ∑ i, ((c.shared.workers i).running.toList.length : ℤ) + c.shared.completed +
        c.shared.cancelled) ∧
    (c.shared.returned ≠ [] → ∀ i,
      (c.shared.workers i).ran = (c.shared.workers i).completed ∧
      (c.shared.shard i).accepted =
        (c.shared.workers i).completed ++ (c.shared.shard i).cancelled) ∧
    (true ∈ c.shared.returned → false ∉ c.shared.issued →
      (∀ i, (c.shared.shard i).accepted = (c.shared.workers i).completed) ∧
      ∀ c', Relation.ReflTransGen (Step setup.executor) c c' →
        c'.shared.posts.accepted = c.shared.posts.accepted ∧
        ∀ t job r, c.shared.posts.Unused t →
        (t, job, r) ∈ c'.shared.posts.returned → r = false) := by
  obtain ⟨g, hok, -⟩ := reachable_invariant ok_inductive hc
  have haccepted : ∀ i, (c.shared.shard i).accepted = (c.shared.workers i).completed ++
      (c.shared.workers i).running.toList ++ (c.shared.shard i).queue ++
      (c.shared.shard i).cancelled := by
    intro i
    rw [(hok.shards i).queue.accepted, (hok.shards i).taken]
  have hreturned : c.shared.returned ≠ [] → ∀ i,
      (c.shared.workers i).ran = (c.shared.workers i).completed ∧
        (c.shared.shard i).stopping = true ∧
      (c.shared.shard i).accepted =
        (c.shared.workers i).completed ++ (c.shared.shard i).cancelled := by
    intro hne i
    obtain ⟨⟨hstop, hempty⟩, hrested⟩ := (hok.shards i).finished (hok.returned hne i)
    refine ⟨hrested.ran, hstop, ?_⟩
    rw [haccepted i, hempty, hrested.running]
    simp
  obtain ⟨honce, hposts, hrunning⟩ := (executor_keeps setup).settled hc
  refine ⟨⟨honce, hposts, hrunning⟩, fun i =>
    ⟨accepted_eq_posts hc i, haccepted i, (hok.shards i).worker.ran,
    (hok.shards i).worker.overlapped,
    fun job hjob => Fin.ext ((hok.shards i).placed job hjob), (hok.shards i).cancelled,
    (hok.shards i).queue.bounded⟩, fun hfree => ?_, fun hne i => ?_, fun htrue hnone => ?_⟩
  · have hqueued : c.shared.queued = ∑ i, ((c.shared.shard i).queue.length : ℤ) := by
      rw [hok.queued]
      exact Finset.sum_congr rfl fun i _ => (hok.guarded.free i (hfree i)).queued
    have hcancelled : c.shared.cancelled = ∑ i, ((c.shared.shard i).cancelled.length : ℤ) := by
      rw [hok.cancelled]
      exact Finset.sum_congr rfl fun i _ => (hok.guarded.free i (hfree i)).cancelled
    refine ⟨hqueued, ?_⟩
    rw [hqueued, hcancelled, hok.completed]
    push_cast
    simp only [← Finset.sum_add_distrib]
    refine Finset.sum_congr rfl fun i _ => ?_
    rw [haccepted i]
    simp only [List.length_append, Nat.cast_add]
    omega
  · obtain ⟨hran, -, hall⟩ := hreturned hne i
    exact ⟨hran, hall⟩
  · have hall := hreturned (List.ne_nil_of_mem htrue)
    refine ⟨fun i => ?_, fun c' hrun => ?_⟩
    · have hkept : (c.shared.shard i).cancelled = [] := by
        by_contra hne
        exact hnone ((hok.shards i).cancelled hne)
      rw [(hall i).2.2, hkept, List.append_nil]
    · obtain ⟨hreach, hsame⟩ := posts_of_run hc hrun fun i => (hall i).2.1
      refine ⟨hsame, fun t job r hunused hr => ?_⟩
      have htook := ((executor_keeps setup).settled hreach).returned t job r hr
      rw [hsame] at htook
      exact Bool.eq_false_iff.mpr fun hyes => hunused.1 job (htook.mp hyes)

end Executor

/-- Two shards with room for one task each. -/
def Sample.setup : Setup := ⟨2, 1, true, by decide, by decide⟩

/-- A thread performs its next `k` effects. -/
def Sample.calls (k : ℕ) (t : Thread Sample.setup.count) :
    List (Move (Thread Sample.setup.count) (Launch Sample.setup.count) Bool) :=
  List.replicate k (.call t false)

/-- One task is accepted, the next one of the same shard is not, `stop(true)` returns when the first
has run, and a third call returns false. -/
def Sample.schedule : List (Move (Thread Sample.setup.count) (Launch Sample.setup.count) Bool) :=
  List.flatten
    [[.start (.post 0 ⟨0, 7⟩)], calls 6 (.caller 0), [.start (.post 1 ⟨2, 8⟩)], calls 4 (.caller 1),
      [.start (.stop 2 true)], calls 10 (.caller 2),
      [.start (.run (setup.shard 0))], calls 9 (.worker (setup.shard 0)),
      [.finish (.worker (setup.shard 0)), .start (.run (setup.shard 0))],
      calls 4 (.worker (setup.shard 0)), [.start (.run (setup.shard 1))],
      calls 4 (.worker (setup.shard 1)), calls 6 (.caller 2),
      [.start (.post 3 ⟨1, 9⟩)], calls 4 (.caller 3)]

set_option maxRecDepth 10000 in
theorem executor_runs_in_order_sample : ∃ c, Reachable Sample.setup.executor c ∧
    c.shared.posts.returned = [(.caller 0, ⟨0, 7⟩, true), (.caller 1, ⟨2, 8⟩, false),
      (.caller 3, ⟨1, 9⟩, false)] ∧
    c.shared.returned = [true] ∧ (c.shared.workers (Sample.setup.shard 0)).completed =
    [⟨0, 7⟩] := by
  have hplay : (play Sample.setup.launch performNoted ⟨{}, fun _ => none⟩ Sample.schedule).any
    (fun c =>
      c.shared.posts.returned == [(.caller 0, ⟨0, 7⟩, true), (.caller 1, ⟨2, 8⟩, false),
        (.caller 3, ⟨1, 9⟩, false)] &&
      c.shared.returned == [true] && c.shared.issued == [true] &&
      (c.shared.shard (Sample.setup.shard 0)).accepted == [⟨0, 7⟩]) = true := by
    decide +kernel
  obtain ⟨c, hc, h⟩ := (Option.any_eq_true ..).mp hplay
  simp only [Bool.and_eq_true, beq_iff_eq] at h
  have hreachable := Sample.setup.executor_playable.play (.init rfl) hc
  have hall := (executor_runs_in_order Sample.setup hreachable).2.2.2.2 (by simp [h.1.1.2])
    (by simp [h.1.2])
  exact ⟨c, hreachable, h.1.1.1, h.1.1.2, (hall.1 (Sample.setup.shard 0)).symm.trans h.2⟩

end DistributedChat.Executor
