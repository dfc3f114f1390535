import Mathlib

/-!
# Expiring maps and atomic scripts over them

A flat key-value map whose entries may carry an expiry time, and the scripts a server runs on it
atomically. A script runs at one fixed time; a command that raises an error ends the script and
keeps the writes made so far, so a script returns `none` together with the map it leaves.

`Confined F m` says that the script `m` reads and writes only keys of `F`. It composes along
`>>=`, so a script built from commands on the keys of `F` is confined to `F`; two scripts confined
to disjoint sets do not see each other. `Triple P m Q` relates what holds before a script to what
holds of its result and the map it leaves.
-/

namespace DistributedChat.Lib

open Function

/-- A stored value and the time at which it disappears, if any. -/
structure Entry (V : Type) where
  value : V
  expireAt : Option ℕ
  deriving DecidableEq, Repr

/-- A flat map with expiry times. -/
abbrev ExpiringMap (K V : Type) := K → Option (Entry V)

namespace Entry

variable {V : Type}

/-- An entry is live strictly before its expiry time. -/
def live (e : Entry V) (now : ℕ) : Bool :=
  match e.expireAt with
  | none => true
  | some t => decide (now < t)

end Entry

namespace ExpiringMap

variable {K V : Type}

/-- The entry found at `k` at time `now`: an expired entry is not there. -/
def find (s : ExpiringMap K V) (now : ℕ) (k : K) : Option (Entry V) :=
  (s k).filter (fun e => e.live now)

theorem find_congr {s s' : ExpiringMap K V} {k : K} (h : s k = s' k) (now : ℕ) :
    s.find now k = s'.find now k := by
  unfold find; rw [h]

end ExpiringMap

/-- A script: run at a time, on a map, it returns a value or raises an error. -/
def Script (K V α : Type) := ℕ → ExpiringMap K V → Option α × ExpiringMap K V

namespace Script

variable {K V α β : Type}

def ret (a : α) : Script K V α := fun _ s => (some a, s)

/-- Raise an error: the script ends, its earlier writes stay. -/
def fail : Script K V α := fun _ s => (none, s)

def andThen (m : Script K V α) (f : α → Script K V β) : Script K V β := fun now s =>
  match m now s with
  | (none, s') => (none, s')
  | (some a, s') => f a now s'

instance : Monad (Script K V) where
  pure := ret
  bind := andThen

/-- Run `m` if `c` holds, else do nothing. -/
def onlyIf (c : Prop) [Decidable c] (m : Script K V Unit) : Script K V Unit :=
  if c then m else pure ()

theorem pure_apply (a : α) (now : ℕ) (s : ExpiringMap K V) :
    (pure a : Script K V α) now s = (some a, s) := rfl

theorem bind_apply (m : Script K V α) (f : α → Script K V β) (now : ℕ) (s : ExpiringMap K V) :
    (m >>= f) now s = match m now s with
      | (none, s') => (none, s')
      | (some a, s') => f a now s' := rfl

theorem bind_of_some {m : Script K V α} {f : α → Script K V β} {now : ℕ} {s s' : ExpiringMap K V}
    {a : α} (h : m now s = (some a, s')) : (m >>= f) now s = f a now s' := by
  rw [bind_apply, h]

/-! ## Commands -/

section Commands

/-- The entry at a key. -/
def entry (k : K) : Script K V (Option (Entry V)) := fun now s => (some (s.find now k), s)

def get (k : K) : Script K V (Option V) := do
  let e ← entry k
  return e.map Entry.value

/-- `EXISTS`. -/
def present (k : K) : Script K V Bool := do
  let e ← entry k
  return e.isSome

/-- `TTL`: the remaining lifetime, `-1` for a key without expiry and `-2` for no key. -/
def ttl (k : K) : Script K V ℤ := fun now s =>
  match s.find now k with
  | none => (some (-2), s)
  | some e => match e.expireAt with
    | none => (some (-1), s)
    | some t => (some ((t : ℤ) - now), s)

variable [DecidableEq K]

def put (k : K) (e : Option (Entry V)) : Script K V Unit := fun _ s =>
  (some (), update s k e)

def del (k : K) : Script K V Unit := put k none

/-- `SET … EX`: an expiry of zero seconds is an error. -/
def setEx (k : K) (v : V) (seconds : ℕ) : Script K V Unit := fun now s =>
  if seconds = 0 then (none, s) else put k (some ⟨v, some (now + seconds)⟩) now s

/-- `EXPIRE`: sets the expiry of a live key; zero seconds delete it. -/
def expire (k : K) (seconds : ℕ) : Script K V Unit := fun now s =>
  match s.find now k with
  | none => (some (), s)
  | some e => put k (if seconds = 0 then none else some { e with expireAt := some (now + seconds) })
      now s

/-- Read the entry at `k` and replace its value, keeping its expiry. `step` maps the old value, or
`none` for a missing key, to a result and the new value, or fails. `INCR` is an instance. -/
def alter (k : K) (step : Option V → Option (α × V)) : Script K V α := fun now s =>
  match step ((s.find now k).map Entry.value) with
  | none => (none, s)
  | some (a, v) =>
    (some a, update s k (some ⟨v, (s.find now k).bind Entry.expireAt⟩))

end Commands

/-! ## Confinement -/

/-- `m` reads and writes only the keys of `F`: on maps that agree on `F` it returns the same value
and leaves maps that agree on `F`, and it changes no other key. -/
structure Confined (F : Set K) (m : Script K V α) : Prop where
  result : ∀ now s s', Set.EqOn s s' F → (m now s).1 = (m now s').1
  agree : ∀ now s s', Set.EqOn s s' F → Set.EqOn (m now s).2 (m now s').2 F
  frame : ∀ now s k, k ∉ F → (m now s).2 k = s k

namespace Confined

variable {F : Set K}

theorem ret (a : α) : Confined F (pure a : Script K V α) where
  result _ _ _ _ := rfl
  agree _ _ _ h := h
  frame _ _ _ _ := rfl

theorem fail : Confined F (Script.fail : Script K V α) where
  result _ _ _ _ := rfl
  agree _ _ _ h := h
  frame _ _ _ _ := rfl

theorem andThen {m : Script K V α} {f : α → Script K V β} (hm : Confined F m)
    (hf : ∀ a, Confined F (f a)) : Confined F (m >>= f) := by
  have hboth : ∀ now s s', Set.EqOn s s' F → ((m >>= f) now s).1 = ((m >>= f) now s').1 ∧
      Set.EqOn ((m >>= f) now s).2 ((m >>= f) now s').2 F := by
    intro now s s' h
    have h1 := hm.result now s s' h
    have h2 := hm.agree now s s' h
    rw [bind_apply, bind_apply]
    rcases hs : m now s with ⟨_ | a, t⟩ <;> rcases hs' : m now s' with ⟨_ | a', t'⟩ <;>
      rw [hs, hs'] at h1 h2 <;> simp only [reduceCtorEq, Option.some.injEq] at h1
    · exact ⟨rfl, h2⟩
    · subst h1
      exact ⟨(hf a).result now t t' h2, (hf a).agree now t t' h2⟩
  refine ⟨fun now s s' h => (hboth now s s' h).1, fun now s s' h =>
    (hboth now s s' h).2, fun now s k hk => ?_⟩
  have h1 := hm.frame now s k hk
  rw [bind_apply]
  rcases hs : m now s with ⟨_ | a, t⟩ <;> rw [hs] at h1
  · exact h1
  · exact ((hf a).frame now t k hk).trans h1

theorem ite {c : Prop} [Decidable c] {m m' : Script K V α} (h : Confined F m)
    (h' : Confined F m') : Confined F (if c then m else m') := by
  split
  · exact h
  · exact h'

theorem onlyIf {c : Prop} [Decidable c] {m : Script K V Unit} (h : Confined F m) :
    Confined F (Script.onlyIf c m) :=
  h.ite (ret ())

variable {k : K}

theorem entry (hk : k ∈ F) : Confined F (Script.entry k : Script K V _) where
  result now _ _ h := congrArg some (ExpiringMap.find_congr (h hk) now)
  agree _ _ _ h := h
  frame _ _ _ _ := rfl

theorem get (hk : k ∈ F) : Confined F (Script.get k : Script K V _) :=
  (entry hk).andThen fun _ => ret _

theorem present (hk : k ∈ F) : Confined F (Script.present k : Script K V _) :=
  (entry hk).andThen fun _ => ret _

theorem ttl_snd (k : K) (now : ℕ) (s : ExpiringMap K V) : (Script.ttl k now s).2 = s := by
  unfold Script.ttl
  rcases ExpiringMap.find s now k with _ | ⟨v, _ | t⟩ <;> rfl

theorem ttl (hk : k ∈ F) : Confined F (Script.ttl k : Script K V _) where
  result now s s' h := by
    unfold Script.ttl
    rw [ExpiringMap.find_congr (h hk) now]
    rcases ExpiringMap.find s' now k with _ | ⟨v, _ | t⟩ <;> rfl
  agree now s s' h := by rw [ttl_snd, ttl_snd]; exact h
  frame now s k' _ := by rw [ttl_snd]

variable [DecidableEq K]

theorem eqOn_update {s s' : ExpiringMap K V} (h : Set.EqOn s s' F) (k : K)
    (e : Option (Entry V)) : Set.EqOn (update s k e) (update s' k e) F := by
  intro k' hk'
  by_cases he : k' = k
  · subst he; rw [update_self, update_self]
  · rw [update_of_ne he, update_of_ne he]; exact h hk'

theorem put (hk : k ∈ F) (e : Option (Entry V)) : Confined F (Script.put k e) where
  result _ _ _ _ := rfl
  agree _ _ _ h := eqOn_update h k e
  frame _ s k' hk' := by
    have hne : k' ≠ k := fun he => hk' (by rw [he]; exact hk)
    exact update_of_ne hne _ s

theorem del (hk : k ∈ F) : Confined F (Script.del k : Script K V _) := put hk none

theorem setEx (hk : k ∈ F) (v : V) (seconds : ℕ) : Confined F (Script.setEx k v seconds) := by
  by_cases h : seconds = 0
  · rw [show (Script.setEx k v seconds : Script K V _) = Script.fail by
      funext now s; unfold Script.setEx; rw [if_pos h]; rfl]
    exact fail
  · have hput : ∀ now s, Script.setEx k v seconds now s =
        Script.put k (some ⟨v, some (now + seconds)⟩) now s := by
      intro now s; unfold Script.setEx; rw [if_neg h]
    refine ⟨fun now s s' hs => ?_, fun now s s' hs => ?_, fun now s k' hk' => ?_⟩
    · rw [hput, hput]; rfl
    · rw [hput, hput]; exact (put hk _).agree now s s' hs
    · rw [hput]; exact (put hk _).frame now s k' hk'

theorem expire (hk : k ∈ F) (seconds : ℕ) :
    Confined F (Script.expire k seconds : Script K V _) where
  result now s s' h := by
    unfold Script.expire
    rw [ExpiringMap.find_congr (h hk) now]
    rcases ExpiringMap.find s' now k with _ | e <;> rfl
  agree now s s' h := by
    unfold Script.expire
    rw [ExpiringMap.find_congr (h hk) now]
    rcases ExpiringMap.find s' now k with _ | e
    · exact h
    · exact (put hk _).agree now s s' h
  frame now s k' hk' := by
    unfold Script.expire
    rcases ExpiringMap.find s now k with _ | e
    · rfl
    · exact (put hk _).frame now s k' hk'

theorem alter (hk : k ∈ F) (step : Option V → Option (α × V)) :
    Confined F (Script.alter k step) where
  result now s s' h := by
    unfold Script.alter
    rw [ExpiringMap.find_congr (h hk) now]
    rcases step ((ExpiringMap.find s' now k).map Entry.value) with _ | ⟨a, v⟩ <;> rfl
  agree now s s' h := by
    unfold Script.alter
    rw [ExpiringMap.find_congr (h hk) now]
    rcases step ((ExpiringMap.find s' now k).map Entry.value) with _ | ⟨a, v⟩
    · exact h
    · exact eqOn_update h k _
  frame now s k' hk' := by
    unfold Script.alter
    rcases step ((ExpiringMap.find s now k).map Entry.value) with _ | ⟨a, v⟩
    · rfl
    · exact (put hk _).frame now s k' hk'

end Confined

/-! ## Keys a script leaves alone -/

/-- `m` does not write `k`; it may read it. -/
def Keeps (k : K) (m : Script K V α) : Prop := ∀ now s, (m now s).2 k = s k

namespace Keeps

variable {k : K}

theorem of_confined {F : Set K} {m : Script K V α} (hm : Confined F m) (hk : k ∉ F) : Keeps k m :=
  fun now s => hm.frame now s k hk

theorem andThen {m : Script K V α} {f : α → Script K V β} (hm : Keeps k m)
    (hf : ∀ a, Keeps k (f a)) : Keeps k (m >>= f) := by
  intro now s
  have h := hm now s
  rw [bind_apply]
  rcases hms : m now s with ⟨_ | a, s'⟩ <;> rw [hms] at h
  · exact h
  · exact (hf a now s').trans h

theorem onlyIf {c : Prop} [Decidable c] {m : Script K V Unit} (hm : Keeps k m) :
    Keeps k (Script.onlyIf c m) := by
  unfold Script.onlyIf
  split
  · exact hm
  · exact fun _ _ => rfl

theorem ttl (k' : K) : Keeps k (Script.ttl k' : Script K V _) :=
  fun now s => congrFun (Confined.ttl_snd k' now s) k

section Writes

variable [DecidableEq K] {k' : K}

theorem del (h : k ≠ k') : Keeps k (Script.del k' : Script K V _) :=
  of_confined (Confined.del (Set.mem_singleton k')) h

theorem setEx (h : k ≠ k') (v : V) (seconds : ℕ) : Keeps k (Script.setEx k' v seconds) :=
  of_confined (Confined.setEx (Set.mem_singleton k') v seconds) h

theorem expire (h : k ≠ k') (seconds : ℕ) : Keeps k (Script.expire k' seconds : Script K V _) :=
  of_confined (Confined.expire (Set.mem_singleton k') seconds) h

theorem alter (h : k ≠ k') (step : Option V → Option (α × V)) : Keeps k (Script.alter k' step) :=
  of_confined (Confined.alter (Set.mem_singleton k') step) h

end Writes

end Keeps

/-! ## Pre- and postconditions -/

/-- From a map with `P`, the result of `m` and the map it leaves satisfy `Q`; the result is `none`
when `m` raised an error. -/
def Triple (P : ExpiringMap K V → Prop) (m : Script K V α)
    (Q : Option α → ExpiringMap K V → Prop) : Prop :=
  ∀ now s, P s → Q (m now s).1 (m now s).2

namespace Triple

variable {P : ExpiringMap K V → Prop} {Q : Option β → ExpiringMap K V → Prop}

theorem ret {b : β} (h : ∀ s, P s → Q (some b) s) : Triple P (pure b) Q := fun _ s hs => h s hs

theorem weaken {P' : ExpiringMap K V → Prop} {m : Script K V β} (h : ∀ s, P s → P' s)
    (hm : Triple P' m Q) : Triple P m Q := fun now s hs => hm now s (h s hs)

theorem andThen {R : Option α → ExpiringMap K V → Prop} {m : Script K V α}
    {f : α → Script K V β} (hm : Triple P m R) (hfail : ∀ s, R none s → Q none s)
    (hf : ∀ a, Triple (R (some a)) (f a) Q) : Triple P (m >>= f) Q := by
  intro now s hs
  have hR := hm now s hs
  rw [bind_apply]
  rcases hms : m now s with ⟨_ | a, s'⟩ <;> rw [hms] at hR
  · exact hfail s' hR
  · exact hf a now s' hR

theorem ite {c : Prop} [Decidable c] {m m' : Script K V β} (h : c → Triple P m Q)
    (h' : ¬ c → Triple P m' Q) : Triple P (if c then m else m') Q := by
  split
  · exact h ‹_›
  · exact h' ‹_›

/-- A script that does not write `k` leaves the rest of the program to the same precondition on
the entry at `k`. -/
theorem keep {k : K} {e : Option (Entry V)} {m : Script K V α} {f : α → Script K V β}
    (hm : Keeps k m) (hfail : ∀ s, s k = e → Q none s)
    (hf : ∀ a, Triple (fun s => s k = e) (f a) Q) : Triple (fun s => s k = e) (m >>= f) Q :=
  andThen (R := fun _ s => s k = e) (fun now s hs => (hm now s).trans hs) hfail hf

theorem get (k : K) (e : Option (Entry V)) : Triple (fun s => s k = e) (Script.get k)
    (fun r s => s k = e ∧ ∀ v, r = some (some v) → ∃ t, e = some ⟨v, t⟩) := by
  intro now s hs
  refine ⟨hs, fun v hv => ?_⟩
  have hfind : (s.find now k).map Entry.value = some v := Option.some.inj hv
  obtain ⟨⟨w, t⟩, hw, rfl⟩ := Option.map_eq_some_iff.mp hfind
  unfold ExpiringMap.find at hw
  rw [hs] at hw
  exact ⟨t, (Option.filter_eq_some_iff.mp hw).1⟩

section Writes

variable [DecidableEq K]

theorem del (k : K) : Triple P (Script.del k) (fun r s => r = some () ∧ s k = none) :=
  fun _ s _ => ⟨rfl, update_self (f := s) ..⟩

theorem setEx (k : K) (v : V) (seconds : ℕ) (e : Option (Entry V)) :
    Triple (fun s => s k = e) (Script.setEx k v seconds)
      (fun r s => (r = some () ∧ ∃ t, s k = some ⟨v, t⟩) ∨ (r = none ∧ s k = e)) := by
  intro now s hs
  unfold Script.setEx
  by_cases h : seconds = 0
  · rw [if_pos h]
    exact Or.inr ⟨rfl, hs⟩
  · rw [if_neg h]
    exact Or.inl ⟨rfl, some (now + seconds), update_self k _ s⟩

end Writes

end Triple

end Script

end DistributedChat.Lib
