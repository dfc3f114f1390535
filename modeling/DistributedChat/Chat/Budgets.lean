import DistributedChat.Chat.Framing

/-!
# The request budget of a session

`common/TokenBucket.h` over any sequence of calls, in exact arithmetic. A clock that goes back
leaves the bucket as it is, so the tokens that come back are those for the latest time seen.

1. What one call does: `consume_spec`.
2. Over a block of calls, what is granted and what is left come from what was there and what came
   back: `Ok.after`.
-/

namespace DistributedChat.Chat.TokenBucket

def create (capacity per_second now : ℚ) : Except String TokenBucket :=
  if ¬ 0 < capacity ∨ ¬ 0 < per_second then .error "invalid token bucket limits"
  else .ok ⟨capacity, per_second, capacity, now⟩

/-- A call of `consume`: the amount and the reading of the clock. -/
structure Consumption where
  amount : ℚ
  now : ℚ

/-- The bucket after some calls. -/
def after (b : TokenBucket) (calls : List Consumption) : TokenBucket :=
  calls.foldl (fun b c => (b.consume c.amount c.now).1) b

/-- The total amount that some calls are granted. -/
def granted : TokenBucket → List Consumption → ℚ
  | _, [] => 0
  | b, c :: cs =>
    (if (b.consume c.amount c.now).2 then c.amount else 0) + granted (b.consume c.amount c.now).1 cs

/-- The largest reading of the clock up to some calls. -/
def latest (start : ℚ) (calls : List Consumption) : ℚ := calls.foldl (fun t c => max t c.now) start

structure Ok (b : TokenBucket) : Prop where
  rate : 0 < b.rate
  nonneg : 0 ≤ b.tokens
  le : b.tokens ≤ b.capacity

variable {b : TokenBucket}

/-- The tokens as a call finds them, with what has come back since. -/
def filled (b : TokenBucket) (now : ℚ) : ℚ :=
  if b.last < now then min b.capacity (b.tokens + (now - b.last) * b.rate) else b.tokens

theorem consume_eq (b : TokenBucket) (amount now : ℚ) : b.consume amount now =
    if ¬ 0 ≤ amount ∨ b.filled now < amount then
      ({ b with tokens := b.filled now, last := max b.last now }, false)
    else ({ b with tokens := b.filled now - amount, last := max b.last now }, true) := by
  unfold consume filled
  by_cases h : b.last < now
  · simp only [if_pos h, max_eq_right h.le]
  · simp only [if_neg h, max_eq_left (not_lt.mp h)]

theorem filled_bounds (h : b.Ok) (now : ℚ) :
    0 ≤ b.filled now ∧ b.filled now ≤ b.capacity ∧ b.filled now ≤ b.tokens + b.rate *
    (max b.last now - b.last) := by
  have hle := h.le
  unfold filled
  by_cases hnow : b.last < now
  · rw [if_pos hnow, max_eq_right hnow.le, mul_comm b.rate]
    have hback : 0 ≤ (now - b.last) * b.rate := mul_nonneg (sub_nonneg.mpr hnow.le) h.rate.le
    exact ⟨le_min (h.nonneg.trans hle) (add_nonneg h.nonneg hback), min_le_left .., min_le_right ..⟩
  · rw [if_neg hnow, max_eq_left (not_lt.mp hnow), sub_self, mul_zero, add_zero]
    exact ⟨h.nonneg, hle, le_rfl⟩

theorem consume_spec (h : b.Ok) (c : Consumption) :
    ∃ g, (if (b.consume c.amount c.now).2 then c.amount else 0) = g ∧ 0 ≤ g ∧ g ≤ b.filled c.now ∧
      (b.consume c.amount c.now).1 =
      { b with tokens := b.filled c.now - g, last := max b.last c.now } := by
  rw [consume_eq]
  by_cases hcheck : ¬ 0 ≤ c.amount ∨ b.filled c.now < c.amount
  · rw [if_pos hcheck]
    refine ⟨0, rfl, le_rfl, (filled_bounds h c.now).1, ?_⟩
    rw [sub_zero]
  · rw [if_neg hcheck]
    rw [not_or, not_not, not_lt] at hcheck
    exact ⟨c.amount, rfl, hcheck.1, hcheck.2, rfl⟩

theorem Ok.consume (h : b.Ok) (c : Consumption) : (b.consume c.amount c.now).1.Ok := by
  obtain ⟨g, -, hg, hle, heq⟩ := consume_spec h c
  obtain ⟨-, hfilled, -⟩ := filled_bounds h c.now
  rw [heq]
  exact ⟨h.rate, sub_nonneg.mpr hle, (sub_le_self _ hg).trans hfilled⟩

theorem Ok.after (h : b.Ok) (calls : List Consumption) : (b.after calls).Ok ∧
    (b.after calls).capacity = b.capacity ∧ (b.after calls).rate = b.rate ∧
      (b.after calls).last = latest b.last calls ∧
      b.granted calls + (b.after calls).tokens ≤ b.tokens + b.rate *
      (latest b.last calls - b.last) := by
  induction calls generalizing b with
  | nil =>
    refine ⟨h, rfl, rfl, rfl, ?_⟩
    show 0 + b.tokens ≤ b.tokens + b.rate * (b.last - b.last)
    rw [zero_add, sub_self, mul_zero, add_zero]
  | cons c cs ih =>
    obtain ⟨g, hg, -, -, heq⟩ := consume_spec h c
    obtain ⟨-, -, hfilled⟩ := filled_bounds h c.now
    have hgranted : b.granted (c :: cs) = g + (b.consume c.amount c.now).1.granted cs := by
      rw [← hg]
      rfl
    have hrest := ih (h.consume c)
    rw [heq] at hrest hgranted
    obtain ⟨hok, hcapacity, hrate, hlast, hle⟩ := hrest
    have hafter : b.after (c :: cs) = _ := congrArg (after · cs) heq
    rw [hgranted, hafter]
    refine ⟨hok, hcapacity, hrate, hlast, ?_⟩
    have hlatest : latest b.last (c :: cs) = latest (max b.last c.now) cs := rfl
    rw [hlatest]
    linarith

/-- **A block of calls is granted at most the capacity and what came back.** For any capacity and
rate, after any calls with any amounts and any readings of the clock:

* the tokens are between zero and the capacity;
* any further calls are granted at most the capacity, and the rate for the time by which they moved
  the latest reading on. -/
theorem granted_within_budget {capacity per_second : ℚ} (hcapacity : 0 < capacity)
    (hrate : 0 < per_second)
    (start : ℚ) :
    ∃ b, create capacity per_second start = .ok b ∧ ∀ past block : List Consumption,
      (0 ≤ (b.after past).tokens ∧ (b.after past).tokens ≤ capacity) ∧
      (b.after past).granted block ≤
        capacity + per_second * (latest start (past ++ block) - latest start past) := by
  refine ⟨⟨capacity, per_second, capacity, start⟩, ?_, fun past block => ?_⟩
  · unfold create
    rw [if_neg]
    rintro (h | h)
    exacts [h hcapacity, h hrate]
  · have hnew : Ok ⟨capacity, per_second, capacity, start⟩ := ⟨hrate, hcapacity.le, le_rfl⟩
    obtain ⟨hok, hc, hr, hlast, -⟩ := hnew.after past
    generalize TokenBucket.after _ past = b at hok hc hr hlast ⊢
    have hle : b.tokens ≤ capacity := hok.le.trans_eq hc
    obtain ⟨hend, -, -, -, hblock⟩ := hok.after block
    have hnonneg := hend.nonneg
    rw [hlast, hr] at hblock
    have hlatest : latest start (past ++ block) = latest (latest start past) block :=
      List.foldl_append ..
    rw [hlatest]
    exact ⟨⟨hok.nonneg, hle⟩, by linarith⟩

theorem chat_requests_within_budget :
    ∃ b, create 200 100 0 = .ok b ∧ ∀ past block : List Consumption,
      (0 ≤ (b.after past).tokens ∧ (b.after past).tokens ≤ 200) ∧
      (b.after past).granted block ≤ 200 + 100 * (latest 0 (past ++ block) - latest 0 past) :=
  granted_within_budget (by norm_num) (by norm_num) 0

end DistributedChat.Chat.TokenBucket
