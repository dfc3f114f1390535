import DistributedChat.Client.ResourceHttp

/-!
# Resource requests keep to their account

The generation of a control object and its cancelled flag say whether a request is still alive, and
every way to a callback or to the network looks at both.

1. `Retired` and `Quiet`: what the log says about requests that were cancelled or left behind.
2. `load`: the places a request can be in. It is in one of them, or its callback has been called.
3. `Backed`: where a token comes from.
4. `Ok`, with the closures in `hand` that have left their place and are being run.
-/

namespace DistributedChat.ResourceHttp

open List
open State (note live)

/-! ## The log -/

namespace Entry

/-- The entry is a callback or a network request of `h`. -/
def actsOn (h : ℕ) : Entry → Bool
  | .callback handle _ => handle == h
  | .sent handle _ => handle == h
  | _ => false

def isCallback (h : ℕ) : Entry → Bool
  | .callback handle _ => handle == h
  | _ => false

def isSent (h : ℕ) : Entry → Bool
  | .sent handle _ => handle == h
  | _ => false

end Entry

open Entry (isCallback isSent actsOn)

/-- The request was registered before a reset, or cancelled. -/
def Retired (log : List Entry) (h : ℕ) : Prop :=
  (∃ pre post, log = pre ++ Entry.reset :: post ∧ Entry.registered h ∈ pre) ∨
    Entry.cancelled h ∈ log

/-- Nothing is done for a retired request. -/
def Quiet (log : List Entry) : Prop :=
  ∀ pre e post, log = pre ++ e :: post → ∀ h, e.actsOn h = true → ¬ Retired pre h

def sinceReset : List Entry → List Entry := fun log =>
  log.foldl (fun acc e => if e = .reset then [] else acc ++ [e]) []

/-- Every network request carries a token that was delivered in answer to a renewal issued after the
last reset for the account configured then. -/
def Backed (log : List Entry) : Prop :=
  ∀ pre h token post, log = pre ++ Entry.sent h token :: post → ∃ uid requestId,
    List.Sublist [Entry.configured uid, .renewal requestId uid, .delivered requestId uid token]
      (sinceReset pre)

section Log

variable {log : List Entry} {e : Entry} {h : ℕ}

theorem sinceReset_append (log : List Entry) (e : Entry) :
    sinceReset (log ++ [e]) = if e = .reset then [] else sinceReset log ++ [e] := by
  simp [sinceReset]

theorem split_append {α : Type} {l pre post : List α} {a b : α}
    (heq : l ++ [a] = pre ++ b :: post) :
    (post = [] ∧ b = a ∧ pre = l) ∨ ∃ post', post = post' ++ [a] ∧ l = pre ++ b :: post' := by
  rcases eq_nil_or_concat post with rfl | ⟨post', c, rfl⟩
  · obtain ⟨hl, hab⟩ := append_inj' heq rfl
    cases hab
    exact Or.inl ⟨rfl, rfl, hl.symm⟩
  · rw [concat_eq_append, ← cons_append, ← append_assoc] at heq
    obtain ⟨hl, hab⟩ := append_inj' heq rfl
    cases hab
    exact Or.inr ⟨post', concat_eq_append .., hl⟩

theorem Quiet.append (hq : Quiet log) (he : ∀ h, e.actsOn h = true → ¬ Retired log h) :
    Quiet (log ++ [e]) := by
  intro pre e' post heq h hacts
  rcases split_append heq with ⟨-, rfl, rfl⟩ | ⟨post', -, hlog⟩
  · exact he h hacts
  · exact hq pre e' post' hlog h hacts

theorem Backed.append (hb : Backed log)
    (he : ∀ h token, e = .sent h token → ∃ uid requestId, List.Sublist [Entry.configured uid,
      .renewal requestId uid, .delivered requestId uid token] (sinceReset log)) : Backed
        (log ++ [e]) := by
  intro pre h token post heq
  rcases split_append heq with ⟨-, hsent, rfl⟩ | ⟨post', -, hlog⟩
  · exact he h token hsent.symm
  · exact hb pre h token post' hlog

theorem retired_append (hr : Retired (log ++ [e]) h) :
    Retired log h ∨ e = .cancelled h ∨ (e = .reset ∧ Entry.registered h ∈ log) := by
  rcases hr with ⟨pre, post, heq, hmem⟩ | hmem
  · rcases split_append heq with ⟨-, hreset, rfl⟩ | ⟨post', -, hlog⟩
    · exact Or.inr (Or.inr ⟨hreset.symm, hmem⟩)
    · exact Or.inl (Or.inl ⟨pre, post', hlog, hmem⟩)
  · rcases mem_append.mp hmem with hmem | hmem
    · exact Or.inl (Or.inr hmem)
    · exact Or.inr (Or.inl (mem_singleton.mp hmem).symm)

end Log

/-! ## Where a request is -/

def Timer.closure? : Timer → Option Closure
  | .retry closure _ => some closure
  | _ => none

/-- The calls of `request` that have been put off. -/
def State.unsent (s : State) : List Closure :=
  s.waiting_ ++ s.pending ++ s.timers.filterMap Timer.closure?

def State.genOf (s : State) (h : ℕ) : Option ℕ := s.controls[h]?.map Control.generation

open State (unsent genOf)

def callbacks (log : List Entry) (h : ℕ) : ℕ := log.countP (isCallback h)

def sends (log : List Entry) (h : ℕ) : ℕ := log.countP (isSent h)

def held (l : List Closure) (h : ℕ) : ℕ := l.countP (·.handle == h)

def replies (l : List Reply) (h : ℕ) : ℕ := l.countP (·.closure.handle == h)

/-- Every request is in at most one place, or its callback has been called; its number of network
requests is bounded by its number of retries. -/
structure Places (s : State) (hand : List Closure) : Prop where
  once : ∀ h, held (s.unsent ++ hand) h + replies s.active_ h + callbacks s.log h ≤ 1
  unsent : ∀ c ∈ s.unsent ++ hand, c.retry ≤ 5 ∧ sends s.log c.handle ≤ c.retry ∧
    (s.genOf c.handle).isSome = true
  active : ∀ r ∈ s.active_, r.closure.retry ≤ 5 ∧
    sends s.log r.closure.handle ≤ r.closure.retry + 1 ∧
    s.genOf r.closure.handle = some r.generation
  sends : ∀ h, sends s.log h ≤ 6
  fresh : ∀ h, s.genOf h = none → ResourceHttp.sends s.log h = 0 ∧ callbacks s.log h = 0

section Places

variable {s s' : State} {hand hand' : List Closure} {c : Closure}

theorem Places.shrink (h : Places s hand)
    (hunsent : List.Subperm (s'.unsent ++ hand') (s.unsent ++ hand))
    (hactive : List.Subperm s'.active_ s.active_)
    (hgen : ∀ h g, s.genOf h = some g → s'.genOf h = some g)
    (hsends : ∀ h, ResourceHttp.sends s'.log h = ResourceHttp.sends s.log h)
    (hcallbacks : ∀ h, callbacks s'.log h = callbacks s.log h) : Places s' hand' where
  once k := by
    have honce := h.once k
    have hheld : held (s'.unsent ++ hand') k ≤ held (s.unsent ++ hand) k := hunsent.countP_le _
    have hreplies : replies s'.active_ k ≤ replies s.active_ k := hactive.countP_le _
    rw [hcallbacks k]
    omega
  unsent c hc := by
    obtain ⟨hretry, hsent, hknown⟩ := h.unsent c (hunsent.subset hc)
    obtain ⟨g, hg⟩ := Option.isSome_iff_exists.mp hknown
    refine ⟨hretry, ?_, ?_⟩
    · rw [hsends]
      exact hsent
    · rw [hgen _ g hg]
      rfl
  active r hr := by
    obtain ⟨hretry, hsent, hknown⟩ := h.active r (hactive.subset hr)
    refine ⟨hretry, ?_, hgen _ _ hknown⟩
    rw [hsends]
    exact hsent
  sends k := by
    rw [hsends k]
    exact h.sends k
  fresh k hk := by
    rw [hsends k, hcallbacks k]
    refine h.fresh k ?_
    cases hg : s.genOf k with
    | none => rfl
    | some g =>
      rw [hgen k g hg] at hk
      cases hk

theorem callbacks_append (log : List Entry) (e : Entry) (h : ℕ) :
    callbacks (log ++ [e]) h = callbacks log h + if e.isCallback h then 1 else 0 := by
  simp [callbacks, countP_append, countP_singleton]

theorem sends_append (log : List Entry) (e : Entry) (h : ℕ) :
    ResourceHttp.sends (log ++ [e]) h = ResourceHttp.sends log h + if e.isSent h then 1 else 0 := by
  simp [ResourceHttp.sends, countP_append, countP_singleton]

theorem held_append_singleton (l : List Closure) (c : Closure) (h : ℕ) :
    held (l ++ [c]) h = held l h + if c.handle = h then 1 else 0 := by
  simp [held, countP_append, countP_singleton]

theorem Places.call {handle : ℕ} (h : Places s []) (hknown : (s.genOf handle).isSome = true)
    (hfree : held s.unsent handle + replies s.active_ handle + callbacks s.log handle = 0)
    (code : ℕ) :
    Places (s.callback handle code) [] where
  once k := by
    have honce := h.once k
    rw [append_nil] at honce
    simp only [State.callback, note, callbacks_append, isCallback, beq_iff_eq, append_nil]
    change held s.unsent k + replies s.active_ k + _ ≤ 1
    split
    · rename_i heq
      subst heq
      omega
    · omega
  unsent d hd := by
    simp only [State.callback, note, sends_append, isSent]
    exact h.unsent d hd
  active r hr := by
    simp only [State.callback, note, sends_append, isSent]
    exact h.active r hr
  sends k := by
    simp only [State.callback, note, sends_append, isSent]
    exact h.sends k
  fresh k hk := by
    have hne : handle ≠ k := by
      rintro rfl
      rw [show s.genOf handle = none from hk] at hknown
      cases hknown
    simp only [State.callback, note, sends_append, callbacks_append, isSent,
      isCallback, beq_iff_eq, if_neg hne]
    exact h.fresh k hk

theorem Places.callback (h : Places s [c]) (code : ℕ) : Places (s.callback c.handle code) [] := by
  have honce := h.once c.handle
  rw [held_append_singleton, if_pos rfl] at honce
  refine Places.call
    (h.shrink ?_ (List.Subperm.refl _) (fun _ _ hg => hg) (fun _ => rfl) fun _ => rfl)
    (h.unsent c (mem_append_right _ mem_cons_self)).2.2 (by omega) code
  rw [append_nil]
  exact (sublist_append_left ..).subperm

theorem Places.send (h : Places s [c]) (hgen : s.genOf c.handle = some s.generation_) :
    Places (s.send c) [] := by
  obtain ⟨hretry, hsent, -⟩ := h.unsent c (mem_append_right _ mem_cons_self)
  -- Another closure or reply of the same request would be a second place.
  have halone : ∀ k, held s.unsent k + replies s.active_ k + callbacks s.log k +
      (if c.handle = k then 1 else 0) ≤ 1 := by
    intro k
    have honce := h.once k
    rw [held_append_singleton] at honce
    omega
  refine ⟨fun k => ?_, fun d hd => ?_, fun r hr => ?_, fun k => ?_, fun k hk => ?_⟩
  · simp only [State.send, callbacks_append, isCallback, append_nil, replies,
      countP_append, countP_singleton, beq_iff_eq, Bool.false_eq_true, if_false]
    have := halone k
    simp only [replies] at this
    change held s.unsent k + _ + _ ≤ 1
    omega
  · simp only [append_nil] at hd
    have hd' : d ∈ s.unsent := hd
    have hne : c.handle ≠ d.handle := by
      intro heq
      have hpos : 0 < held s.unsent d.handle := countP_pos_iff.mpr ⟨d, hd', by simp⟩
      have := halone d.handle
      rw [if_pos heq] at this
      omega
    simp only [State.send, sends_append, isSent, beq_iff_eq, if_neg hne]
    exact h.unsent d (mem_append_left _ hd')
  · rcases mem_append.mp hr with hr | hr
    · have hne : c.handle ≠ r.closure.handle := by
        intro heq
        have hpos : 0 < replies s.active_ r.closure.handle := countP_pos_iff.mpr ⟨r, hr, by simp⟩
        have := halone r.closure.handle
        rw [if_pos heq] at this
        omega
      simp only [State.send, sends_append, isSent, beq_iff_eq, if_neg hne]
      exact h.active r hr
    · obtain rfl := mem_singleton.mp hr
      refine ⟨hretry, ?_, hgen⟩
      simp only [State.send, sends_append, isSent, beq_iff_eq, if_true]
      omega
  · simp only [State.send, sends_append, isSent, beq_iff_eq]
    split
    · rename_i heq
      subst heq
      omega
    · exact h.sends k
  · have hne : c.handle ≠ k := by
      rintro rfl
      rw [show s.genOf c.handle = none from hk] at hgen
      cases hgen
    simp only [State.send, sends_append, callbacks_append, isSent, isCallback, beq_iff_eq,
      if_neg hne]
    exact h.fresh k hk

theorem State.control_register (s : State) (path : Text) (h : ℕ) :
    (s.register path).controls[h]? =
      if h = s.controls.length then some ⟨path, false, s.generation_⟩ else s.controls[h]? := by
  simp only [register, List.getElem?_append]
  split
  · rename_i hlt
    rw [if_neg (by omega)]
  · rename_i hge
    split
    · rename_i heq
      subst heq
      simp
    · rename_i hne
      rw [List.getElem?_eq_none (by simp; omega), List.getElem?_eq_none (by omega)]

theorem State.genOf_register (s : State) (path : Text) (h : ℕ) :
    (s.register path).genOf h = if h =
    s.controls.length then some s.generation_ else s.genOf h := by
  rw [genOf, s.control_register path h]
  split <;> rfl

theorem Places.register (h : Places s []) (path : Text) :
    Places ((s.note (.registered s.controls.length)).register path) [⟨s.controls.length, 0⟩] := by
  have hnone : s.genOf s.controls.length = none := by simp [genOf]
  obtain ⟨hsends, hcallbacks⟩ := h.fresh _ hnone
  have hlog : ∀ k, ResourceHttp.sends (s.log ++ [.registered s.controls.length]) k =
        ResourceHttp.sends s.log k ∧
      callbacks (s.log ++ [.registered s.controls.length]) k = callbacks s.log k := by
    intro k
    simp [sends_append, callbacks_append, isSent, isCallback]
  have hgen : ∀ k g, s.genOf k = some g → (s.register path).genOf k = some g := by
    intro k g hg
    rw [s.genOf_register path k, if_neg]
    · exact hg
    · rintro rfl
      rw [hnone] at hg
      cases hg
  -- Nothing else is about the new handle.
  have hempty : held s.unsent s.controls.length = 0 ∧ replies s.active_ s.controls.length = 0 := by
    constructor
    · refine countP_eq_zero.mpr fun c hc heq => ?_
      have hknown := (h.unsent c (mem_append_left _ hc)).2.2
      rw [show c.handle = s.controls.length by simpa using heq, hnone] at hknown
      cases hknown
    · refine countP_eq_zero.mpr fun r hr heq => ?_
      have hknown := (h.active r hr).2.2
      rw [show r.closure.handle = s.controls.length by simpa using heq, hnone] at hknown
      cases hknown
  refine ⟨fun k => ?_, fun c hc => ?_, fun r hr => ?_, fun k => ?_, fun k hk => ?_⟩
  · have honce := h.once k
    rw [append_nil] at honce
    rw [held_append_singleton]
    change held s.unsent k + _ + replies s.active_ k + callbacks (s.log ++ _) k ≤ 1
    rw [(hlog k).2]
    by_cases heq : s.controls.length = k
    · subst heq
      simp only [hempty.1, hempty.2, hcallbacks, if_true]
      omega
    · simp only [if_neg heq]
      omega
  · show c.retry ≤ 5 ∧ ResourceHttp.sends (s.log ++ _) c.handle ≤ c.retry ∧ _
    rw [(hlog c.handle).1]
    rcases mem_append.mp hc with hc | hc
    · obtain ⟨hretry, hsent, hknown⟩ := h.unsent c (mem_append_left _ hc)
      obtain ⟨g, hg⟩ := Option.isSome_iff_exists.mp hknown
      exact ⟨hretry, hsent, Option.isSome_iff_exists.mpr ⟨g, hgen _ g hg⟩⟩
    · obtain rfl := mem_singleton.mp hc
      refine ⟨Nat.zero_le 5, Nat.le_of_eq hsends, ?_⟩
      exact Option.isSome_iff_exists.mpr ⟨_, (s.genOf_register path _).trans (if_pos rfl)⟩
  · obtain ⟨hretry, hsent, hknown⟩ := h.active r hr
    refine ⟨hretry, ?_, hgen _ _ hknown⟩
    exact ((hlog _).1).trans_le hsent
  · exact ((hlog k).1).trans_le (h.sends k)
  · have hold : s.genOf k = none := by
      have hk : (s.register path).genOf k = none := hk
      rw [s.genOf_register path k] at hk
      split at hk
      · cases hk
      · exact hk
    exact ⟨(hlog k).1.trans (h.fresh k hold).1, (hlog k).2.trans (h.fresh k hold).2⟩

variable {k : ℕ}

theorem countP_eraseIdx {α : Type} (p : α → Bool) {l : List α} {a : α} (ha : l[k]? = some a) :
    l.countP p = (l.eraseIdx k).countP p + if p a then 1 else 0 := by
  obtain ⟨hk, rfl⟩ := List.getElem?_eq_some_iff.mp ha
  rw [← (getElem_cons_eraseIdx_perm hk).countP_eq p, countP_cons]

theorem Places.retry (h : Places s []) {r : Reply} (hr : s.active_[k]? = some r)
    (hretry : r.closure.retry < 5) :
    Places { s with active_ := s.active_.eraseIdx k }
    [⟨r.closure.handle, r.closure.retry + 1⟩] := by
  have hmem := mem_of_getElem? hr
  refine ⟨fun j => ?_, fun c hc => ?_, fun r' hr' =>
    h.active r' (mem_of_mem_eraseIdx hr'), h.sends, h.fresh⟩
  · have honce := h.once j
    rw [append_nil, replies, countP_eraseIdx _ hr] at honce
    rw [held_append_singleton]
    simp only [beq_iff_eq] at honce
    change held s.unsent j + _ + replies (s.active_.eraseIdx k) j + callbacks s.log j ≤ 1
    simp only [replies]
    omega
  · rcases mem_append.mp hc with hc | hc
    · exact h.unsent c (mem_append_left _ hc)
    · obtain rfl := mem_singleton.mp hc
      obtain ⟨-, hsent, hknown⟩ := h.active r hmem
      refine ⟨hretry, hsent, ?_⟩
      change (s.genOf r.closure.handle).isSome = true
      rw [hknown]
      rfl

theorem Places.reply (h : Places s []) {r : Reply} (hr : s.active_[k]? = some r) (code : ℕ) :
    Places ({ s with active_ := s.active_.eraseIdx k }.callback r.closure.handle code) [] := by
  have honce := h.once r.closure.handle
  rw [append_nil, replies, countP_eraseIdx _ hr, beq_self_eq_true, if_pos rfl] at honce
  have hleft : Places { s with active_ := s.active_.eraseIdx k } [] :=
    h.shrink (List.Subperm.refl _) (eraseIdx_sublist ..).subperm (fun _ _ hg => hg) (fun _ => rfl)
      fun _ => rfl
  refine hleft.call ?_ ?_ code
  · change (s.genOf r.closure.handle).isSome = true
    rw [(h.active r (mem_of_getElem? hr)).2.2]
    rfl
  · change held s.unsent _ + replies (s.active_.eraseIdx k) _ + callbacks s.log _ = 0
    simp only [replies]
    omega

end Places

/-! ## Which requests are alive -/

structure Life (s : State) : Prop where
  gens : ∀ h g, s.genOf h = some g → g ≤ s.generation_
  noted : ∀ h, Entry.registered h ∈ s.log ∨ Entry.cancelled h ∈ s.log → h < s.controls.length
  retired : ∀ h, Retired s.log h → s.live h = false
  quiet : Quiet s.log

section Life

variable {s s' : State}

/-- An entry that retires nothing, and that is about a request that is alive if it is about any. -/
theorem Life.note (h : Life s) {e : Entry} (hcontrols : s'.controls = s.controls)
    (hgeneration : s'.generation_ = s.generation_) (hlog : s'.log = s.log ++ [e])
    (hacts : ∀ k, e.actsOn k = true → s.live k = true) (hreset : e ≠ .reset)
    (hcancelled : ∀ k, e ≠ .cancelled k) (hregistered : ∀ k, e ≠ .registered k) : Life s' := by
  refine ⟨fun k g hk => ?_, fun k hk => ?_, fun k hk => ?_, ?_⟩
  · rw [hgeneration]
    refine h.gens k g ?_
    rw [← hk, genOf, genOf, hcontrols]
  · rw [hcontrols]
    refine h.noted k ?_
    rw [hlog, mem_append, mem_append, mem_singleton, mem_singleton] at hk
    rcases hk with (hk | hk) | (hk | hk)
    · exact Or.inl hk
    · exact absurd hk.symm (hregistered k)
    · exact Or.inr hk
    · exact absurd hk.symm (hcancelled k)
  · rw [hlog] at hk
    rw [live, hcontrols, hgeneration]
    rcases retired_append hk with hk | hk | hk
    · exact h.retired k hk
    · exact absurd hk (hcancelled k)
    · exact absurd hk.1 hreset
  · rw [hlog]
    refine h.quiet.append fun k hk hretired => ?_
    have hlive := hacts k hk
    rw [h.retired k hretired] at hlive
    cases hlive

theorem Life.reset (h : Life s) : Life (s.note .reset).reset := by
  have hdead : ∀ k, (s.note .reset).reset.live k = false := by
    intro k
    cases hc : s.controls[k]? with
    | none => simp [live, State.reset, State.note, hc]
    | some control =>
      have hg := h.gens k control.generation (by simp [genOf, hc])
      simp only [live, State.reset, State.note, hc]
      simp only [Bool.and_eq_false_iff, beq_eq_false_iff_ne]
      right
      omega
  refine ⟨fun k g hk => Nat.le_succ_of_le (h.gens k g hk), fun k hk => h.noted k ?_, fun k _ =>
    hdead k,
    h.quiet.append fun k hk => ?_⟩
  · simpa [State.reset, State.note] using hk
  · cases hk

theorem State.genOf_cancel (s : State) (handle k : ℕ) : (s.cancel handle).genOf k = s.genOf k := by
  simp only [genOf, cancel, List.getElem?_modify]
  cases s.controls[k]? with
  | none => simp
  | some control => by_cases heq : handle = k <;> simp [heq]

theorem State.live_cancel (s : State) (handle k : ℕ) :
    (s.cancel handle).live k = (s.live k && handle != k) := by
  simp only [live, cancel, List.getElem?_modify]
  cases s.controls[k]? with
  | none => simp
  | some control => by_cases heq : handle = k <;> simp [heq]

theorem Life.cancel (h : Life s) {handle : ℕ} (hlt : handle < s.controls.length) :
    Life ((s.note (.cancelled handle)).cancel handle) := by
  refine ⟨fun k g hk => ?_, fun k hk => ?_, fun k hk => ?_, h.quiet.append fun k hk => by cases hk⟩
  · rw [State.genOf_cancel] at hk
    exact h.gens k g hk
  · simp only [State.cancel, State.note, mem_append, mem_singleton, reduceCtorEq, or_false,
      length_modify,
      Entry.cancelled.injEq] at hk ⊢
    rcases hk with hk | hk | rfl
    · exact h.noted k (Or.inl hk)
    · exact h.noted k (Or.inr hk)
    · exact hlt
  · rw [State.live_cancel]
    rcases retired_append hk with hk | hk | hk
    · rw [show (s.note (.cancelled handle)).live k = false from h.retired k hk]
      rfl
    · cases hk
      simp
    · cases hk.1

theorem State.live_register (s : State) (path : Text) (k : ℕ) :
    (s.register path).live k = if k = s.controls.length then true else s.live k := by
  rw [live, s.control_register path k]
  by_cases hk : k = s.controls.length
  · rw [if_pos hk, if_pos hk]
    simp [register]
  · rw [if_neg hk, if_neg hk]
    rfl

theorem Life.register (h : Life s) (path : Text) :
    Life ((s.note (.registered s.controls.length)).register path) := by
  have hnew : ∀ k, Retired s.log k → k < s.controls.length := by
    rintro k (⟨pre, post, hlog, hmem⟩ | hmem)
    · refine h.noted k (Or.inl ?_)
      rw [hlog]
      exact mem_append_left _ hmem
    · exact h.noted k (Or.inr hmem)
  refine ⟨fun k g hk => ?_, fun k hk => ?_, fun k hk => ?_, h.quiet.append fun k hk => by cases hk⟩
  · have hk : (s.register path).genOf k = some g := hk
    rw [s.genOf_register path k] at hk
    split at hk
    · cases hk
      exact Nat.le_refl _
    · exact h.gens k g hk
  · simp only [State.register, State.note, length_append, length_singleton]
    simp only [State.register, State.note, mem_append, mem_singleton, Entry.registered.injEq,
      reduceCtorEq, or_false] at hk
    rcases hk with (hk | rfl) | hk
    · exact Nat.lt_succ_of_lt (h.noted k (Or.inl hk))
    · exact Nat.lt_succ_self _
    · exact Nat.lt_succ_of_lt (h.noted k (Or.inr hk))
  · rcases retired_append hk with hk | hk | hk
    · show (s.register path).live k = false
      rw [s.live_register path k, if_neg (Nat.ne_of_lt (hnew k hk))]
      exact h.retired k hk
    · cases hk
    · cases hk.1

theorem State.genOf_of_live {k : ℕ} (h : s.live k = true) : s.genOf k = some s.generation_ := by
  rw [live] at h
  cases hc : s.controls[k]? with
  | none =>
    rw [hc] at h
    cases h
  | some control =>
    rw [hc] at h
    simp only [Bool.and_eq_true, beq_iff_eq] at h
    simp [genOf, hc, h.2]

theorem State.live_of_genOf {k : ℕ} (hgen : s.genOf k = some s.generation_)
    (hcancelled : s.cancelled k = false) : s.live k = true := by
  rw [genOf] at hgen
  rw [State.cancelled] at hcancelled
  cases hc : s.controls[k]? with
  | none =>
    rw [hc] at hgen
    cases hgen
  | some control =>
    rw [hc] at hgen hcancelled
    have hg : control.generation = s.generation_ := by simpa using hgen
    have hnot : control.cancelled = false := hcancelled
    simp [live, hc, hg, hnot]

end Life

/-! ## Whose token it is -/

/-- What led to the state of the credential, since the last reset. -/
structure Account (s : State) : Prop where
  signedOut : s.uid_ ≤ 0 → s.token_ = [] ∧ s.renewing_ = false
  configuring : s.configuring ≠ none → s.uid_ ≤ 0
  configured : 0 < s.uid_ → List.Sublist [Entry.configured s.uid_] (sinceReset s.log)
  renewing : s.renewing_ = true → ∃ requestId, s.renewalRequestId_ = some requestId ∧
    List.Sublist [Entry.configured s.uid_, .renewal requestId s.uid_] (sinceReset s.log)
  token : s.token_ ≠ [] → ∃ requestId, List.Sublist
    [Entry.configured s.uid_, .renewal requestId s.uid_, .delivered requestId s.uid_ s.token_]
    (sinceReset s.log)
  backed : Backed s.log

section Account

variable {s s' : State}

theorem Account.change (h : Account s)
    (hgrows : ∀ l, List.Sublist l (sinceReset s.log) → List.Sublist l (sinceReset s'.log))
    (huid : s'.uid_ = s.uid_)
    (hconfiguring : s'.configuring = s.configuring) (htoken : s'.token_ = s.token_ ∨ s'.token_ = [])
    (hrenewing : s'.renewing_ = s.renewing_ ∨ s'.renewing_ = false)
    (hid : s'.renewalRequestId_ = s.renewalRequestId_) (hbacked : Backed s'.log) : Account s' := by
  refine ⟨fun hu => ?_, fun hc => ?_, fun hu => ?_, fun hr => ?_, fun ht => ?_, hbacked⟩
  · obtain ⟨htok, hren⟩ := h.signedOut (huid ▸ hu)
    exact ⟨htoken.elim (·.trans htok) id, hrenewing.elim (·.trans hren) id⟩
  · rw [huid]
    exact h.configuring (hconfiguring ▸ hc)
  · rw [huid] at hu ⊢
    exact hgrows _ (h.configured hu)
  · rcases hrenewing with heq | heq
    · obtain ⟨requestId, hsome, hsub⟩ := h.renewing (heq ▸ hr)
      refine ⟨requestId, hid.trans hsome, ?_⟩
      rw [huid]
      exact hgrows _ hsub
    · rw [heq] at hr
      cases hr
  · rcases htoken with heq | heq
    · obtain ⟨requestId, hsub⟩ := h.token (heq ▸ ht)
      refine ⟨requestId, ?_⟩
      rw [huid, heq]
      exact hgrows _ hsub
    · exact absurd heq ht

theorem Account.note (h : Account s) {e : Entry} (hlog : s'.log = s.log ++ [e])
    (hreset : e ≠ .reset)
    (huid : s'.uid_ = s.uid_) (hconfiguring : s'.configuring = s.configuring)
    (htoken : s'.token_ = s.token_)
    (hrenewing : s'.renewing_ = s.renewing_) (hid : s'.renewalRequestId_ = s.renewalRequestId_)
    (hsent : ∀ k token, e = .sent k token → token = s.token_ ∧ s.token_ ≠ []) : Account s' := by
  refine h.change (fun l hl => ?_) huid hconfiguring (Or.inl htoken) (Or.inl hrenewing) hid ?_
  · rw [hlog, sinceReset_append, if_neg hreset]
    exact hl.trans (sublist_append_left _ _)
  · rw [hlog]
    refine h.backed.append fun k token heq => ?_
    obtain ⟨rfl, hne⟩ := hsent k token heq
    obtain ⟨requestId, hsub⟩ := h.token hne
    exact ⟨s.uid_, requestId, hsub⟩

theorem Account.reset (h : Account s) : Account (s.note .reset).reset := by
  refine ⟨fun _ => ⟨rfl, rfl⟩, fun _ => Int.le_refl 0, fun hu => ?_, fun hr => ?_, fun ht => ?_,
    h.backed.append fun k token heq => by cases heq⟩
  · exact absurd hu (by simp [State.reset])
  · cases hr
  · exact absurd rfl ht

theorem Account.assign (h : Account s) (hc : s.configuring ≠ none) (url : Url) (uid : ℤ) :
    Account ((s.note (.configured uid)).assign url uid) := by
  obtain ⟨htoken, hrenewing⟩ := h.signedOut (h.configuring hc)
  refine ⟨fun _ => ⟨htoken, hrenewing⟩, fun hne => absurd rfl hne, fun _ => ?_, fun hr => ?_,
    fun ht => absurd htoken ht, h.backed.append fun k token heq => by cases heq⟩
  · simp only [State.assign, State.note, sinceReset_append, reduceCtorEq, if_false]
    exact sublist_append_right _ _
  · change s.renewing_ = true at hr
    rw [hrenewing] at hr
    cases hr

theorem Account.renew (h : Account s) : Account s.renew := by
  rw [State.renew]
  split
  · exact h
  · rename_i hnot
    rw [not_or] at hnot
    have hpos : 0 < s.uid_ := by omega
    have hsince : sinceReset (s.log ++ [.renewal s.nextId s.uid_]) =
        sinceReset s.log ++ [.renewal s.nextId s.uid_] := by
      rw [sinceReset_append, if_neg (by simp)]
    refine ⟨fun hu => absurd hpos (by simpa using hu), h.configuring, fun _ => ?_, fun _ => ?_,
      fun ht => ?_, h.backed.append fun k token heq => by cases heq⟩
    · rw [hsince]
      exact (h.configured hpos).trans (sublist_append_left _ _)
    · refine ⟨s.nextId, rfl, ?_⟩
      rw [hsince]
      exact (h.configured hpos).append (List.Sublist.refl [_])
    · obtain ⟨requestId, hsub⟩ := h.token ht
      refine ⟨requestId, ?_⟩
      rw [hsince]
      exact hsub.trans (sublist_append_left _ _)

theorem Account.delivered (h : Account s) {requestId : ℕ} {token : Text}
    (hrenewing : s.renewing_ = true)
    (hid : s.renewalRequestId_ = some requestId) (hpos : 0 < s.uid_)
    (hlog : s'.log = s.log ++ [.delivered requestId s.uid_ token]) (huid : s'.uid_ = s.uid_)
    (htoken : s'.token_ = token) (hrenewing' : s'.renewing_ = false)
    (hconfiguring : s'.configuring = s.configuring) : Account s' := by
  have hsince : sinceReset s'.log = sinceReset s.log ++ [.delivered requestId s.uid_ token] := by
    rw [hlog, sinceReset_append, if_neg (by simp)]
  refine ⟨fun hu => ?_, fun hc => ?_, fun _ => ?_, fun hr => ?_, fun _ => ⟨requestId, ?_⟩, ?_⟩
  · omega
  · rw [huid]
    exact h.configuring (hconfiguring ▸ hc)
  · rw [huid, hsince]
    exact (h.configured hpos).trans (sublist_append_left _ _)
  · rw [hrenewing'] at hr
    cases hr
  · obtain ⟨requestId', hsome, hsub⟩ := h.renewing hrenewing
    obtain rfl : requestId' = requestId := Option.some.inj (hsome.symm.trans hid)
    rw [huid, htoken, hsince]
    exact hsub.append (List.Sublist.refl [_])
  · rw [hlog]
    exact h.backed.append fun k token heq => by cases heq

end Account

/-! ## Events -/

structure Ok (s : State) (hand : List Closure) : Prop where
  places : Places s hand
  life : Life s
  account : Account s

section Events

variable {s s' : State} {c : Closure}

theorem Ok.initial : Ok {} [] where
  places := ⟨fun _ => Nat.zero_le 1, fun _ h => absurd h not_mem_nil,
    fun _ h => absurd h not_mem_nil, fun _ => Nat.zero_le 6, fun _ _ => ⟨rfl, rfl⟩⟩
  life := by
    refine ⟨fun _ _ h => (by cases h), fun _ h => ?_, fun _ _ => rfl, fun pre e post h => ?_⟩
    · simp at h
    · simp at h
  account := by
    refine ⟨fun _ => ⟨rfl, rfl⟩, fun h => absurd rfl h, fun h => absurd h (by decide),
      fun h => (by cases h), fun h => absurd rfl h, fun pre k token post h => ?_⟩
    simp at h

/-- Closures change places, and the credential is kept or given up. -/
theorem Ok.move {hand hand' : List Closure} (h : Ok s hand)
    (hunsent : List.Subperm (s'.unsent ++ hand') (s.unsent ++ hand))
    (hactive : List.Subperm s'.active_ s.active_)
    (hcontrols : s'.controls = s.controls) (hgeneration : s'.generation_ = s.generation_)
    (hlog : s'.log = s.log) (huid : s'.uid_ = s.uid_)
    (hconfiguring : s'.configuring = s.configuring)
    (htoken : s'.token_ = s.token_ ∨ s'.token_ = [])
    (hrenewing : s'.renewing_ = s.renewing_ ∨ s'.renewing_ = false)
    (hid : s'.renewalRequestId_ = s.renewalRequestId_) : Ok s' hand' := by
  have hgen : ∀ k, s'.genOf k = s.genOf k := fun k => by rw [genOf, genOf, hcontrols]
  have hlive : ∀ k, s'.live k = s.live k := fun k => by rw [live, live, hcontrols, hgeneration]
  refine ⟨h.places.shrink hunsent hactive (fun k g hg => (hgen k).trans hg) (fun _ => hlog ▸ rfl)
    (fun _ => hlog ▸ rfl), ⟨fun k g hg => ?_, ?_, fun k hk => ?_, hlog ▸ h.life.quiet⟩, ?_⟩
  · exact hgeneration ▸ h.life.gens k g ((hgen k).symm.trans hg)
  · rw [hlog, hcontrols]
    exact h.life.noted
  · exact (hlive k).trans (h.life.retired k (hlog ▸ hk))
  · exact h.account.change (fun _ hl => hlog ▸ hl) huid hconfiguring htoken hrenewing hid
      (hlog ▸ h.account.backed)

theorem Ok.drop {hand : List Closure} (h : Ok s hand) : Ok s [] := by
  refine h.move ?_ (.refl _) rfl rfl rfl rfl rfl (.inl rfl) (.inl rfl) rfl
  rw [append_nil]
  exact (sublist_append_left _ _).subperm

theorem Ok.callback (h : Ok s [c]) (hlive : s.live c.handle = true) (code : ℕ) :
    Ok (s.callback c.handle code) [] where
  places := h.places.callback code
  life := by
    refine h.life.note rfl rfl rfl (fun k hk => ?_) (by simp) (by simp) (by simp)
    simp only [actsOn, beq_iff_eq] at hk
    exact hk ▸ hlive
  account := h.account.note rfl (by simp) rfl rfl rfl rfl rfl (by simp)

theorem Ok.renew (h : Ok s []) : Ok s.renew [] := by
  refine ⟨?_, ?_, h.account.renew⟩
  · rw [State.renew]
    split
    · exact h.places
    · refine h.places.shrink ?_ (List.Subperm.refl _) (fun _ _ hg => hg) (fun k => ?_) (fun k => ?_)
      · simp [unsent, filterMap_append, filterMap_cons, Timer.closure?, List.Subperm.refl]
      · simp [sends_append, isSent]
      · simp [callbacks_append, isCallback]
  · rw [State.renew]
    split
    · exact h.life
    · exact h.life.note rfl rfl rfl (by simp [actsOn]) (by simp) (by simp) (by simp)

theorem Ok.requestWith (h : Ok s [c]) : Ok (s.requestWith c) [] := by
  rw [State.requestWith]
  split
  · exact h.drop
  rename_i hdead
  have hlive : s.live c.handle = true := by simpa using hdead
  split
  · exact h.callback hlive 401
  split
  · exact h.callback hlive 400
  split
  · split
    · exact h.callback hlive 503
    · -- The closure goes from hand to the end of the queue.
      refine Ok.renew (h.move ?_ (.refl _) rfl rfl rfl rfl rfl (.inl rfl) (.inl rfl) rfl)
      refine List.Perm.subperm ?_
      simp only [unsent, append_assoc, append_nil]
      exact List.Perm.append_left _ (perm_append_comm.trans (by simp))
  · rename_i htoken
    refine ⟨h.places.send (State.genOf_of_live hlive), ?_, ?_⟩
    · refine h.life.note rfl rfl rfl (fun k hk => ?_) (by simp) (by simp) (by simp)
      simp only [actsOn, beq_iff_eq] at hk
      exact hk ▸ hlive
    · refine h.account.note rfl (by simp) rfl rfl rfl rfl rfl fun k token heq => ?_
      cases heq
      exact ⟨rfl, htoken⟩

theorem Ok.reset (h : Ok s []) : Ok (s.note .reset).reset [] := by
  refine ⟨h.places.shrink ?_ (List.Subperm.refl _) (fun _ _ hg => hg) (fun k => ?_) (fun k => ?_),
    h.life.reset, h.account.reset⟩
  · refine List.Sublist.subperm ?_
    simp only [unsent, State.reset, State.note, nil_append, append_nil, append_assoc]
    exact sublist_append_right _ _
  · simp [State.reset, State.note, sends_append, isSent]
  · simp [State.reset, State.note, callbacks_append, isCallback]

theorem Ok.cancel (h : Ok s []) {handle : ℕ} (hlt : handle < s.controls.length) :
    Ok ((s.note (.cancelled handle)).cancel handle) [] := by
  refine ⟨h.places.shrink (.refl _) (.refl _) (fun k g hg => ?_) (fun k => ?_) (fun k => ?_),
    h.life.cancel hlt, h.account.note rfl (by simp) rfl rfl rfl rfl rfl (by simp)⟩
  · exact (State.genOf_cancel _ handle k).trans hg
  · simp [State.cancel, State.note, sends_append, isSent]
  · simp [State.cancel, State.note, callbacks_append, isCallback]

theorem Ok.request (h : Ok s []) (path : Text) :
    Ok ((s.note (.registered s.controls.length)).request path) [] :=
  Ok.requestWith ⟨h.places.register path, h.life.register path,
    h.account.note rfl (by simp) rfl rfl rfl rfl rfl (by simp)⟩

theorem Ok.delivered (h : Ok s []) (requestId : ℕ) (uid : ℤ) (token : Text) :
    Ok ((s.note (.delivered requestId uid token)).tokenResponse uid (some requestId) token) [] := by
  have hnoted : Ok (s.note (.delivered requestId uid token)) [] := by
    refine ⟨h.places.shrink (.refl _) (.refl _) (fun _ _ hg => hg) (fun k => ?_)
      (fun k => ?_), ?_, ?_⟩
    · simp [note, sends_append, isSent]
    · simp [note, callbacks_append, isCallback]
    · exact h.life.note rfl rfl rfl (by simp [actsOn]) (by simp) (by simp) (by simp)
    · exact h.account.note rfl (by simp) rfl rfl rfl rfl rfl (by simp)
  simp only [State.tokenResponse]
  split
  · exact hnoted
  rename_i hmatch
  simp only [not_or, Bool.not_eq_false, Decidable.not_not] at hmatch
  obtain ⟨hrenewing, hpos, huid, hid⟩ := hmatch
  obtain rfl : uid = s.uid_ := huid
  split
  · refine hnoted.move ?_ (.refl _) rfl rfl rfl rfl rfl (.inr rfl) (.inr rfl) rfl
    simp [unsent, filterMap_append, filterMap_cons, Timer.closure?, List.Subperm.refl]
  · refine ⟨hnoted.places.shrink ?_ (.refl _) (fun _ _ hg => hg) (fun _ => rfl) (fun _ => rfl),
      { hnoted.life with }, ?_⟩
    · refine List.Perm.subperm ?_
      simp only [unsent, nil_append, append_nil]
      exact List.Perm.append_right _ perm_append_comm
    · exact h.account.delivered hrenewing hid (Int.not_le.mp hpos) rfl rfl rfl rfl rfl

theorem Ok.finished (h : Ok s []) {k : ℕ} {r : Reply} (hr : s.active_[k]? = some r) (code : ℕ)
    (failed : Bool) :
    Ok ({ s with active_ := s.active_.eraseIdx k }.finished r code failed) [] := by
  have hmem := mem_of_getElem? hr
  rw [State.finished]
  split
  · exact h.move (.refl _) (eraseIdx_sublist ..).subperm rfl rfl rfl rfl rfl (.inl rfl)
      (.inl rfl) rfl
  rename_i hcurrent
  rw [not_or, not_not, Bool.not_eq_true] at hcurrent
  obtain ⟨hgeneration, hcancelled⟩ := hcurrent
  have hlive : s.live r.closure.handle = true := by
    refine State.live_of_genOf ?_ hcancelled
    rw [(h.places.active r hmem).2.2]
    exact congrArg some hgeneration
  split
  · rename_i hretry
    have hheld : Ok { s with active_ := s.active_.eraseIdx k } _ :=
      ⟨h.places.retry hr hretry.1, { h.life with }, { h.account with }⟩
    refine hheld.move ?_ (.refl _) rfl rfl rfl rfl rfl ?_ (.inl rfl) rfl
    · refine List.Perm.subperm ?_
      simp [unsent, filterMap_append, Timer.closure?]
    · simp only
      split
      · exact Or.inr rfl
      · exact Or.inl rfl
  · refine ⟨h.places.reply hr _, ?_, ?_⟩
    · refine h.life.note rfl rfl rfl (fun j hj => ?_) (by simp) (by simp) (by simp)
      simp only [actsOn, beq_iff_eq] at hj
      exact hj ▸ hlive
    · exact h.account.note rfl (by simp) rfl rfl rfl rfl rfl (by simp)

theorem Ok.fire (h : Ok s []) {k : ℕ} {t : Timer} (ht : s.timers[k]? = some t) :
    Ok ({ s with timers := s.timers.eraseIdx k }.fire t) [] := by
  -- The closure of the timer, if it has one, is in hand.
  have hrest : Ok { s with timers := s.timers.eraseIdx k } t.closure?.toList := by
    refine h.move ?_ (.refl _) rfl rfl rfl rfl rfl (.inl rfl) (.inl rfl) rfl
    obtain ⟨hk, rfl⟩ := List.getElem?_eq_some_iff.mp ht
    have hperm := (getElem_cons_eraseIdx_perm hk).filterMap Timer.closure?
    refine List.Perm.subperm ?_
    simp only [unsent, append_nil, append_assoc]
    refine List.Perm.append_left _ (List.Perm.append_left _ (perm_append_comm.trans ?_))
    refine List.Perm.trans ?_ hperm
    rw [filterMap_cons]
    cases s.timers[k].closure? with
    | none | some closure => exact List.Perm.refl _
  cases t with
  | emptyToken generation =>
    simp only [State.fire]
    split
    · exact hrest.renew
    · exact hrest
  | renewalTimeout generation requestId =>
    simp only [State.fire]
    split
    · exact Ok.renew (hrest.move (.refl _) (.refl _) rfl rfl rfl rfl rfl (.inl rfl) (.inr rfl) rfl)
    · exact hrest
  | retry closure generation =>
    simp only [State.fire]
    split
    · exact Ok.requestWith hrest
    · exact hrest.drop

theorem Ok.step (h : Ok s []) {e : Event} (hstep : ResourceHttp.step s e = some s') : Ok s' [] := by
  unfold ResourceHttp.step react at hstep
  split at hstep
  · cases hstep
  cases e with
  | configure url uid =>
    cases hstep
    have hreset := h.reset
    refine ⟨hreset.places.shrink (List.Subperm.refl _) (List.Subperm.refl _) (fun _ _ hg => hg)
      (fun _ => rfl) (fun _ => rfl), { hreset.life with }, ?_⟩
    obtain ⟨hsigned, -, hconfigured, hrenewing, htoken, hbacked⟩ := hreset.account
    exact ⟨hsigned, fun _ => Int.le_refl 0, hconfigured, hrenewing, htoken, hbacked⟩
  | assign =>
    cases hc : s.configuring with
    | none => simp [State.noteArrival, Event.arrives, hc] at hstep
    | some c =>
      simp only [State.noteArrival, Event.arrives, hc, Option.map_some, note, Option.some.injEq]
        at hstep
      subst hstep
      refine ⟨h.places.shrink (.refl _) (.refl _) (fun _ _ hg => hg) (fun k => ?_)
        (fun k => ?_), ?_, h.account.assign (by simp [hc]) c.1 c.2⟩
      · simp [State.assign, sends_append, isSent]
      · simp [State.assign, callbacks_append, isCallback]
      · exact h.life.note rfl rfl rfl (by simp [actsOn]) (by simp) (by simp) (by simp)
  | reset =>
    cases hstep
    exact h.reset
  | cancel handle =>
    cases hstep
    by_cases hlt : handle < s.controls.length
    · rw [State.noteArrival, Event.arrives, if_pos hlt]
      exact h.cancel hlt
    · -- no control object
      have hsame : s.cancel handle = s := by
        rw [State.cancel, List.modify_eq_self (Nat.not_lt.mp hlt)]
      rw [State.noteArrival, Event.arrives, if_neg hlt]
      exact hsame.symm ▸ h
  | request path =>
    cases hstep
    exact h.request path
  | renewalTimer =>
    obtain ⟨-, hstep⟩ := Option.ite_none_right_eq_some.mp hstep
    cases hstep
    exact h.renew
  | connected =>
    cases hstep
    exact h.renew
  | tokenResponse uid requestId token =>
    cases hstep
    cases requestId with
    | none => exact h
    | some requestId => exact h.delivered requestId uid token
  | resume =>
    simp only at hstep
    split at hstep
    · cases hstep
    · rename_i c rest hpending
      have hpending : s.pending = c :: rest := hpending
      cases hstep
      refine Ok.requestWith (h.move ?_ (.refl _) rfl rfl rfl rfl rfl (.inl rfl) (.inl rfl) rfl)
      refine List.Perm.subperm ?_
      simp only [unsent, hpending, append_assoc, append_nil, cons_append]
      refine List.Perm.append_left _ ?_
      rw [← append_assoc]
      exact perm_append_singleton c _
  | finished index code failed =>
    obtain ⟨r, hr, rfl⟩ := Option.map_eq_some_iff.mp hstep
    exact h.finished hr code failed
  | timer index =>
    obtain ⟨t, ht, rfl⟩ := Option.map_eq_some_iff.mp hstep
    exact h.fire ht

theorem Reachable.ok (hs : Reachable s) : Ok s [] := by
  induction hs with
  | init => exact Ok.initial
  | step _ h ih => exact ih.step h

theorem Quiet.rest {log pre post : List Entry} (hq : Quiet log) (hlog : log = pre ++ post) {h : ℕ}
    (hretired : Retired pre h) : ∀ e ∈ post, e.actsOn h = false := by
  intro e he
  obtain ⟨a, b, rfl⟩ := append_of_mem he
  by_contra hacts
  refine hq (pre ++ a) e b (by rw [hlog, append_assoc]) h (by simpa using hacts) ?_
  rcases hretired with ⟨pre', post', rfl, hmem⟩ | hmem
  · exact Or.inl ⟨pre', post' ++ a, by simp, hmem⟩
  · exact Or.inr (mem_append_left _ hmem)

end Events

/-- **Requests keep to their account.** In every run, with any calls from inside callbacks and
signals and any answers:

* after a reset there is neither a callback nor a network request for a request registered before
  it;
* after a cancel there is neither for the cancelled request;
* every callback is called at most once, and every request leads to at most six network requests;
* every network request carries a token that was delivered in answer to a renewal issued after the
  last reset, for the account configured then. -/
theorem requests_keep_to_account {s : State} (hs : Reachable s) :
    (∀ pre post h, s.log = pre ++ Entry.reset :: post → Entry.registered h ∈ pre →
      ∀ e ∈ post, e.actsOn h = false) ∧
    (∀ pre post h, s.log = pre ++ Entry.cancelled h :: post → ∀ e ∈ post, e.actsOn h = false) ∧
    (∀ h, callbacks s.log h ≤ 1 ∧ sends s.log h ≤ 6) ∧
    (∀ pre h token post, s.log = pre ++ Entry.sent h token :: post → ∃ uid requestId,
      List.Sublist [Entry.configured uid, .renewal requestId uid, .delivered requestId uid token]
        (sinceReset pre)) := by
  have hok := hs.ok
  refine ⟨fun pre post h hlog hmem => ?_, fun pre post h hlog => ?_, fun h =>
    ⟨?_, hok.places.sends h⟩,
    hok.account.backed⟩
  · refine hok.life.quiet.rest (hlog.trans (append_cons ..)) (Or.inl ⟨pre, [], rfl, hmem⟩)
  · exact hok.life.quiet.rest (hlog.trans (append_cons ..)) (Or.inr (by simp))
  · have honce := hok.places.once h
    omega

namespace Sample

/-- One request is about to be retried, one is cancelled while it is under way, and one is under way
when the account is reset; a fourth one comes after that. -/
def events : List Event :=
  [.configure ⟨"https", "chat", "", ""⟩ 2, .assign, .request ['/'], .tokenResponse 2 (some 0) ['t'],
    .resume, .finished 0 503 true, .request ['/'], .request ['/'], .cancel 1, .finished 0 200 false,
    .reset, .finished 0 0 true, .timer 1, .request ['/']]

end Sample

theorem requests_keep_to_account_sample : ∃ s pre₁ post₁ pre₂ post₂, Reachable s ∧
    sends s.log 0 = 1 ∧ sends s.log 1 = 1 ∧ sends s.log 2 = 1 ∧
    s.log = pre₁ ++ Entry.cancelled 1 :: post₁ ∧ (∀ e ∈ post₁, e.actsOn 1 = false) ∧
    s.log = pre₂ ++ Entry.reset :: post₂ ∧ Entry.registered 0 ∈ pre₂ ∧
    post₂ = [.registered 3, .callback 3 401] ∧ ∀ e ∈ post₂, e.actsOn 0 = false := by
  have hrun : (run {} Sample.events).any (fun s => sends s.log 0 == 1 && sends s.log 1 == 1 &&
      sends s.log 2 == 1 &&
      s.log.drop 10 == [.cancelled 1, .reset, .registered 3, .callback 3 401] &&
      (s.log.take 10).contains (Entry.registered 0)) = true := by
    decide +kernel
  obtain ⟨s, hs, h⟩ := (Option.any_eq_true ..).mp hrun
  simp only [Bool.and_eq_true, beq_iff_eq, contains_iff_mem] at h
  obtain ⟨⟨⟨⟨h₀, h₁⟩, h₂⟩, hdrop⟩, hmem⟩ := h
  have hreachable := Reachable.init.run hs
  have hcancel : s.log =
      s.log.take 10 ++ Entry.cancelled 1 :: [.reset, .registered 3, .callback 3 401] := by
    rw [← hdrop, take_append_drop]
  have hreset : s.log =
      (s.log.take 10 ++ [.cancelled 1]) ++ Entry.reset :: [.registered 3, .callback 3 401] := by
    rw [append_assoc, singleton_append, ← hcancel]
  have hall := requests_keep_to_account hreachable
  exact ⟨s, _, _, _, _, hreachable, h₀, h₁, h₂, hcancel, hall.2.1 _ _ 1 hcancel, hreset,
    mem_append_left _ hmem, rfl, hall.1 _ _ 0 hreset (mem_append_left _ hmem)⟩

end DistributedChat.ResourceHttp
