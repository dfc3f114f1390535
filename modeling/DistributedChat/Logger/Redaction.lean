import DistributedChat.Lib.Json

/-!
# Redaction of tickets in log messages

`sanitized` (`common/ChatLogger.cpp`) searches the message it is changing, from a position behind
its last change. What it should do needs no positions: `rewrite new` puts `new` in the place of
every ticket.

1. What stands before the position stays, and the rest is rewritten: `sanitizedFrom_eq`.
2. Deleting the tickets loses only what redaction hides: `rewrite_delete`.
-/

namespace DistributedChat.Logger

open Lib List

/-! ## The code -/

/-- `std::string::find`, from the beginning. -/
def indexOf (pattern : Bytes) : Bytes → Option ℕ
  | [] => if pattern = [] then some 0 else none
  | c :: s => if pattern.isPrefixOf (c :: s) then some 0 else (indexOf pattern s).map (· + 1)

/-- `message.find(pattern, position)`. -/
def find (message pattern : Bytes) (position : ℕ) : Option ℕ :=
  if position ≤ message.length then (indexOf pattern (message.drop position)).map
    (position + ·) else none

/-- `message.find_first_of(chars, position)`. -/
def findFirstOf (message chars : Bytes) (position : ℕ) : Option ℕ :=
  ((message.drop position).findIdx? (· ∈ chars)).map (position + ·)

/-- `message.replace(position, count, text)`. -/
def replace (message : Bytes) (position count : ℕ) (text : Bytes) : Bytes :=
  message.take position ++ text ++ message.drop (position + count)

def marker : Bytes := ascii "chat_ticket_"

def stops : Bytes := ascii " \t\r\n]\x7d)"

def redacted : Bytes := ascii "[redacted]"

theorem length_marker : marker.length = 12 := by decide

theorem indexOf_le {pattern s : Bytes} {i : ℕ} (h : indexOf pattern s = some i) :
    i + pattern.length ≤ s.length := by
  induction s generalizing i with
  | nil =>
    unfold indexOf at h
    split_ifs at h with hnil
    cases h
    simp [hnil]
  | cons c s ih =>
    unfold indexOf at h
    split_ifs at h with hprefix
    · cases h
      simpa using (List.isPrefixOf_iff_prefix.mp hprefix).length_le
    · obtain ⟨j, hj, rfl⟩ := Option.map_eq_some_iff.mp h
      have := ih hj
      rw [length_cons]
      omega

theorem find_le {message pattern : Bytes} {position i : ℕ}
    (h : find message pattern position = some i) :
    position ≤ i ∧ i + pattern.length ≤ message.length := by
  unfold find at h
  split_ifs at h with hle
  obtain ⟨j, hj, rfl⟩ := Option.map_eq_some_iff.mp h
  have := indexOf_le hj
  rw [length_drop] at this
  omega

def sanitizedFrom (message : Bytes) (position : ℕ) : Bytes :=
  match h : find message marker position with
  | none => message
  | some found =>
    let begin_ := found + marker.length
    let end_ := (findFirstOf message stops begin_).getD message.length
    sanitizedFrom (replace message begin_ (end_ - begin_) redacted) (begin_ + 10)
termination_by message.length - position
decreasing_by
  have hfound := find_le h
  have hredacted : redacted.length = 10 := by decide
  simp only [replace, length_append, length_take, length_drop, length_marker] at hfound ⊢
  omega

def sanitized (message : Bytes) : Bytes := sanitizedFrom message 0

/-! ## Tickets -/

/-- What follows a ticket at the beginning of a text: the ticket ends at the next stop. -/
def afterTicket (s : Bytes) : Bytes := s.dropWhile fun c => c ∉ stops

theorem length_afterTicket_le (s : Bytes) : (afterTicket s).length ≤ s.length :=
  (dropWhile_sublist _).length_le

/-- The message with `new` in the place of each ticket. -/
def rewrite (new : Bytes) : Bytes → Bytes
  | [] => []
  | c :: rest =>
    if marker.isPrefixOf (c :: rest) then
      marker ++ new ++ rewrite new (afterTicket ((c :: rest).drop marker.length))
    else c :: rewrite new rest
termination_by message => message.length
decreasing_by
  · have := length_afterTicket_le ((c :: rest).drop marker.length)
    have hmarker := length_marker
    rw [length_drop, length_cons] at this
    rw [length_cons]
    omega
  · simp

variable {new : Bytes}

theorem rewrite_marker (s : Bytes) :
    rewrite new (marker ++ s) = marker ++ new ++ rewrite new (afterTicket s) := by
  rw [show marker ++ s = 99 :: (marker.tail ++ s) from rfl, rewrite, if_pos]
  · rfl
  · exact isPrefixOf_iff_prefix.mpr (prefix_append marker s)

theorem rewrite_other {c : UInt8} {s : Bytes} (h : ¬ marker.isPrefixOf (c :: s)) :
    rewrite new (c :: s) = c :: rewrite new s := by
  rw [rewrite, if_neg h]

theorem ticket_induction {P : Bytes → Prop} (nil : P [])
    (ticket : ∀ s, P (afterTicket s) → P (marker ++ s))
    (other : ∀ c s, ¬ marker.isPrefixOf (c :: s) → P s → P (c :: s)) (m : Bytes) : P m := by
  induction hn : m.length using Nat.strong_induction_on generalizing m with
  | _ n ih =>
    cases m with
    | nil => exact nil
    | cons c s =>
      by_cases h : marker.isPrefixOf (c :: s)
      · obtain ⟨rest, hrest⟩ := isPrefixOf_iff_prefix.mp h
        have hlength := congrArg List.length hrest
        have hafter := length_afterTicket_le rest
        rw [length_append, length_marker, hn] at hlength
        rw [← hrest]
        exact ticket rest (ih _ (by omega) _ rfl)
      · rw [length_cons] at hn
        exact other c s h (ih _ (by omega) s rfl)

/-! ## The loop -/

theorem rewrite_of_indexOf_none {s : Bytes} (h : indexOf marker s = none) : rewrite new s = s := by
  induction s with
  | nil => rw [rewrite]
  | cons c s ih =>
    unfold indexOf at h
    split_ifs at h with hmarker
    rw [rewrite_other hmarker, ih (Option.map_eq_none_iff.mp h)]

theorem exists_of_indexOf (new : Bytes) {s : Bytes} {i : ℕ} (h : indexOf marker s = some i) :
    ∃ text rest,
    s = text ++ marker ++ rest ∧ i = text.length ∧
      rewrite new s = text ++ marker ++ new ++ rewrite new (afterTicket rest) := by
  induction s generalizing i with
  | nil => cases h
  | cons c s ih =>
    unfold indexOf at h
    split_ifs at h with hmarker
    · obtain ⟨rest, hrest⟩ := isPrefixOf_iff_prefix.mp hmarker
      refine ⟨[], rest, hrest.symm, (Option.some.inj h).symm, ?_⟩
      rw [← hrest, rewrite_marker]
      rfl
    · obtain ⟨j, hj, rfl⟩ := Option.map_eq_some_iff.mp h
      obtain ⟨text, rest, rfl, rfl, hrewrite⟩ := ih hj
      refine ⟨c :: text, rest, rfl, rfl, ?_⟩
      rw [rewrite_other hmarker, hrewrite]
      rfl

theorem replace_ticket (before rest text : Bytes) : replace (before ++ rest) before.length
      ((findFirstOf (before ++ rest) stops before.length).getD (before ++ rest).length -
        before.length) text =
      before ++ text ++ afterTicket rest := by
  have hend : (findFirstOf (before ++ rest) stops before.length).getD
    (before ++ rest).length - before.length =
      rest.findIdx (· ∈ stops) := by
    rw [findFirstOf, drop_left, findIdx_eq_getD_findIdx?, length_append]
    cases rest.findIdx? (· ∈ stops) <;> simp
  rw [hend, replace, take_left, drop_append, afterTicket, dropWhile_eq_drop_findIdx_not]
  simp

/-- **The loop**: what stands before the position stays, and the rest is rewritten. -/
theorem sanitizedFrom_eq (done rest : Bytes) :
    sanitizedFrom (done ++ rest) done.length = done ++ rewrite redacted rest := by
  induction hn : rest.length using Nat.strong_induction_on generalizing done rest with
  | _ n ih =>
    have hfind : find (done ++ rest) marker done.length =
      (indexOf marker rest).map (done.length + ·) := by
      rw [find, if_pos (by simp), drop_left]
    rw [sanitizedFrom]
    split
    · next hnone =>
      rw [hfind, Option.map_eq_none_iff] at hnone
      rw [rewrite_of_indexOf_none hnone]
    · next found hfound =>
      rw [hfind] at hfound
      obtain ⟨i, hindex, rfl⟩ := Option.map_eq_some_iff.mp hfound
      obtain ⟨text, after, rfl, rfl, hrewrite⟩ := exists_of_indexOf redacted hindex
      obtain ⟨before, hbefore⟩ : ∃ before, before = done ++ text ++ marker := ⟨_, rfl⟩
      have hbegin : done.length + text.length + marker.length = before.length := by
        rw [hbefore, length_append, length_append]
      have hmessage : done ++ (text ++ marker ++ after) = before ++ after := by simp [hbefore]
      have hposition : before.length + 10 = (before ++ redacted).length := by
        rw [length_append, show redacted.length = 10 by decide]
      have hshorter : (afterTicket after).length < n := by
        have := length_afterTicket_le after
        rw [length_append, length_append, length_marker] at hn
        omega
      dsimp only
      rw [hbegin, hmessage, replace_ticket, hposition, ih _ hshorter _ _ rfl, hrewrite, hbefore]
      simp

/-! ## What redaction hides -/

theorem take_rewrite (new m : Bytes) :
    (rewrite new m).take marker.length = m.take marker.length := by
  induction m using ticket_induction with
  | nil => rw [rewrite]
  | ticket s _ => rw [rewrite_marker, append_assoc, take_left, take_left]
  | other c s h ih =>
    have hless := congrArg (List.take 11) ih
    rw [length_marker, take_take, take_take] at hless
    rw [rewrite_other h, length_marker, take_succ_cons, take_succ_cons]
    exact congrArg (c :: ·) hless

theorem isPrefixOf_rewrite {c : UInt8} {s : Bytes} :
    marker.isPrefixOf (c :: rewrite new s) = marker.isPrefixOf (c :: s) := by
  have hless := congrArg (List.take 11) (take_rewrite new s)
  rw [length_marker, take_take, take_take] at hless
  rw [Bool.eq_iff_iff, isPrefixOf_iff_prefix, isPrefixOf_iff_prefix, prefix_iff_eq_take,
    prefix_iff_eq_take, length_marker, take_succ_cons, take_succ_cons]
  exact (congrArg (fun l => marker = c :: l) hless).to_iff

theorem afterTicket_rewrite (s : Bytes) :
    afterTicket (rewrite new (afterTicket s)) = rewrite new (afterTicket s) := by
  cases h : afterTicket s with
  | nil => rw [rewrite]; rfl
  | cons c rest =>
    have hstop : c ∈ stops := by
      have := List.head?_dropWhile_not (fun c => decide (c ∉ stops)) s
      unfold afterTicket at h
      rw [h] at this
      simpa using this
    have hother : ¬ marker.isPrefixOf (c :: rest) := by
      intro hprefix
      obtain ⟨_, hmarker⟩ := isPrefixOf_iff_prefix.mp hprefix
      cases hmarker
      revert hstop
      decide
    rw [rewrite_other hother, afterTicket, dropWhile_cons_of_neg (by simpa using hstop)]

/-- **What is left of a message without its tickets determines the redacted message.** -/
theorem rewrite_delete (m : Bytes) : rewrite new (rewrite [] m) = rewrite new m := by
  induction m using ticket_induction with
  | nil => rw [rewrite]
  | ticket s ih =>
    rw [rewrite_marker, append_nil, rewrite_marker, rewrite_marker, afterTicket_rewrite, ih]
  | other c s h ih =>
    rw [rewrite_other h, rewrite_other (by rwa [isPrefixOf_rewrite]), rewrite_other h, ih]

/-- **Tickets do not get into the log.** The message is logged with every ticket replaced and the
other text as it was, and messages that differ only in their tickets are logged the same. -/
theorem tickets_redacted :
    (∀ message, sanitized message = rewrite redacted message) ∧
    ∀ message message', rewrite [] message = rewrite
    [] message' → sanitized message = sanitized message' := by
  have heq : ∀ message, sanitized message = rewrite redacted message :=
    fun message => sanitizedFrom_eq [] message
  refine ⟨heq, fun message message' h => ?_⟩
  rw [heq, heq, ← rewrite_delete message, h, rewrite_delete]

theorem two_tickets_logged_alike :
    rewrite [] (marker ++ ascii "9f3a] was used") = rewrite [] (marker ++ ascii "7] was used") ∧
      sanitized (marker ++ ascii "9f3a] was used") = sanitized (marker ++ ascii "7] was used") := by
  have hdeleted :
    rewrite [] (marker ++ ascii "9f3a] was used") = rewrite [] (marker ++ ascii "7] was used") := by
    rw [rewrite_marker, rewrite_marker]
    exact congrArg (fun s => marker ++ [] ++ rewrite [] s) (by decide)
  exact ⟨hdeleted, tickets_redacted.2 _ _ hdeleted⟩

end DistributedChat.Logger
