import Mathlib

/-!
# Token buckets

A bucket of a `Meter` holds between none and `capacity` tokens. A call refills it at `rate` for the time since
the last one and takes a token when a whole one is there. In a window of any length the calls that got one are
at most `capacity` and what the window refills (`admitted_window`), a bucket left alone long enough is full
(`refill_of_idle`), and one that was found short has a token when the missing part has been refilled
(`one_le_refill_later`).
-/

namespace TokenBucket

/-- How much a bucket holds and how fast it is refilled. -/
structure Meter (K : Type*) [Field K] [LinearOrder K] where
  capacity : K
  rate : K
  one_le_capacity : 1 ≤ capacity
  rate_pos : 0 < rate

variable {K : Type*} [Field K] [LinearOrder K]

/-- The tokens of a bucket since its last call. -/
structure Level (m : Meter K) where
  tokens : K
  since : K
  nonneg : 0 ≤ tokens
  le_capacity : tokens ≤ m.capacity

variable {m : Meter K}

namespace Level

/-- The tokens at a later time. -/
def refill (level : Level m) (now : K) : K :=
  min (level.tokens + max (now - level.since) 0 * m.rate) m.capacity

theorem refill_le_capacity (level : Level m) (now : K) : level.refill now ≤ m.capacity := min_le_right _ _

variable [IsStrictOrderedRing K]

def full (m : Meter K) (now : K) : Level m :=
  ⟨m.capacity, now, zero_le_one.trans m.one_le_capacity, le_rfl⟩

theorem refill_nonneg (level : Level m) (now : K) : 0 ≤ level.refill now := by
  refine le_min (add_nonneg level.nonneg ?_) (zero_le_one.trans m.one_le_capacity)
  exact mul_nonneg (le_max_right _ _) m.rate_pos.le

theorem refill_le {level : Level m} {now : K} (h : level.since ≤ now) :
    level.refill now ≤ level.tokens + m.rate * (now - level.since) := by
  refine (min_le_left _ _).trans_eq ?_
  rw [max_eq_left (sub_nonneg.2 h), mul_comm]

/-- The bucket after a call. -/
def take (level : Level m) (now : K) : Level m :=
  if h : 1 ≤ level.refill now then
    { tokens := level.refill now - 1
      since := now
      nonneg := sub_nonneg.2 h
      le_capacity := (sub_le_self _ zero_le_one).trans (level.refill_le_capacity now) }
  else
    { tokens := level.refill now
      since := now
      nonneg := level.refill_nonneg now
      le_capacity := level.refill_le_capacity now }

@[simp] theorem take_since (level : Level m) (now : K) : (level.take now).since = now := by
  rw [take]
  split_ifs <;> rfl

theorem take_tokens (level : Level m) (now : K) :
    (level.take now).tokens = if 1 ≤ level.refill now then level.refill now - 1 else level.refill now := by
  rw [take]
  split_ifs <;> rfl

/-- The bucket after calls. -/
def after (level : Level m) (times : List K) : Level m := times.foldl take level

/-- The calls that got a token. -/
def admitted (level : Level m) : List K → List K
  | [] => []
  | now :: times =>
    if 1 ≤ level.refill now then now :: (level.take now).admitted times else (level.take now).admitted times

theorem after_append (level : Level m) (times times' : List K) :
    level.after (times ++ times') = (level.after times).after times' := List.foldl_append

theorem admitted_append (level : Level m) (times times' : List K) :
    level.admitted (times ++ times') = level.admitted times ++ (level.after times).admitted times' := by
  induction times generalizing level with
  | nil => rfl
  | cons now times ih =>
    rw [List.cons_append, admitted, admitted, ih]
    split_ifs with h
    · rfl
    · rfl

theorem admitted_subset (level : Level m) (times : List K) : level.admitted times ⊆ times := by
  induction times generalizing level with
  | nil => exact List.Subset.refl _
  | cons now times ih =>
    rw [admitted]
    split_ifs with h
    · exact List.cons_subset_cons now (ih _)
    · exact List.subset_cons_of_subset now (ih _)

/-! ### Idle buckets -/

theorem refill_of_full {level : Level m} (h : level.tokens = m.capacity) (now : K) :
    level.refill now = m.capacity := by
  rw [refill, h, min_eq_right]
  exact le_add_of_nonneg_right (mul_nonneg (le_max_right _ _) m.rate_pos.le)

/-- A bucket that was left alone for as long as it takes to fill one is full. -/
theorem refill_of_idle {level : Level m} {now : K} (h : m.capacity ≤ (now - level.since) * m.rate) :
    level.refill now = m.capacity := by
  rw [refill, min_eq_right]
  calc m.capacity ≤ (now - level.since) * m.rate := h
    _ ≤ max (now - level.since) 0 * m.rate := mul_le_mul_of_nonneg_right (le_max_left _ _) m.rate_pos.le
    _ ≤ level.tokens + max (now - level.since) 0 * m.rate := le_add_of_nonneg_left level.nonneg

/-- Found short of a token, a bucket has one when the missing part has been refilled. -/
theorem one_le_refill_later {level : Level m} {now later : K} (h : ¬ 1 ≤ level.refill now)
    (hlater : (1 - level.refill now) / m.rate ≤ later - now) : 1 ≤ (level.take now).refill later := by
  have htokens : (level.take now).tokens = level.refill now := by rw [take_tokens, if_neg h]
  have hmissing : 1 - level.refill now ≤ (later - now) * m.rate := (div_le_iff₀ m.rate_pos).1 hlater
  refine le_min ?_ m.one_le_capacity
  rw [htokens, take_since]
  calc 1 ≤ level.refill now + (later - now) * m.rate := sub_le_iff_le_add'.1 hmissing
    _ ≤ level.refill now + max (later - now) 0 * m.rate :=
      add_le_add_right (mul_le_mul_of_nonneg_right (le_max_left _ _) m.rate_pos.le) _

/-! ### Windows -/

/-- A call that is counted: what it takes and what it leaves is what it found. -/
theorem countP_admitted_cons {p : K → Prop} [DecidablePred p] (level : Level m) {now : K} (h : p now)
    (times : List K) :
    ((level.admitted (now :: times)).countP (p ·) : K) + (level.take now).tokens =
      level.refill now + ((level.take now).admitted times).countP (p ·) := by
  rw [admitted, take_tokens]
  split_ifs with htake
  · rw [List.countP_cons_of_pos (by simpa using h), Nat.cast_succ]
    ring
  · ring

theorem countP_admitted_skip {p : K → Prop} [DecidablePred p] (level : Level m) {now : K} (h : ¬ p now)
    (times : List K) :
    (level.admitted (now :: times)).countP (p ·) = ((level.take now).admitted times).countP (p ·) := by
  rw [admitted]
  split_ifs with htake
  · exact List.countP_cons_of_neg (by simpa using h)
  · rfl

/-- Up to a time, the calls that got a token are at most the tokens at hand and what is refilled until then. -/
theorem admitted_until {level : Level m} {times : List K} {last : K} (hlast : level.since ≤ last)
    (hsorted : (level.since :: times).Pairwise (· ≤ ·)) :
    ((level.admitted times).countP (· ≤ last) : K) ≤ level.tokens + m.rate * (last - level.since) := by
  induction times generalizing level with
  | nil =>
    rw [admitted, List.countP_nil, Nat.cast_zero]
    exact add_nonneg level.nonneg (mul_nonneg m.rate_pos.le (sub_nonneg.2 hlast))
  | cons now times ih =>
    obtain ⟨hsince, hnow⟩ := List.pairwise_cons.1 hsorted
    by_cases hin : now ≤ last
    · have hrest := @ih (level.take now) (by rwa [take_since]) (by rwa [take_since])
      have hcall := level.countP_admitted_cons (p := (· ≤ last)) hin times
      have hrefill := refill_le (hsince now List.mem_cons_self)
      rw [take_since] at hrest
      linarith
    · -- the times only get later
      have hnone : (level.admitted (now :: times)).countP (· ≤ last) = 0 := by
        rw [List.countP_eq_zero]
        intro time htime
        rcases List.mem_cons.1 (level.admitted_subset _ htime) with rfl | htime
        · simpa using hin
        · simpa using (not_le.1 hin).trans_le ((List.pairwise_cons.1 hnow).1 time htime)
      rw [hnone, Nat.cast_zero]
      exact add_nonneg level.nonneg (mul_nonneg m.rate_pos.le (sub_nonneg.2 hlast))

/-- In a window the calls that got a token are at most a full bucket and what the window refills. -/
theorem admitted_window (level : Level m) {times : List K} (hsorted : times.Pairwise (· ≤ ·)) {start last : K}
    (hwindow : start ≤ last) :
    ((level.admitted times).countP (fun time => start ≤ time ∧ time ≤ last) : K) ≤
      m.capacity + m.rate * (last - start) := by
  induction times generalizing level with
  | nil =>
    rw [admitted, List.countP_nil, Nat.cast_zero]
    exact add_nonneg (zero_le_one.trans m.one_le_capacity)
      (mul_nonneg m.rate_pos.le (sub_nonneg.2 hwindow))
  | cons now times ih =>
    obtain ⟨hnow, htimes⟩ := List.pairwise_cons.1 hsorted
    by_cases hin : start ≤ now ∧ now ≤ last
    · -- from the first call in the window on, what the bucket holds is what bounds the rest
      have hcall := level.countP_admitted_cons (p := fun time => start ≤ time ∧ time ≤ last) hin times
      have hmono : ((level.take now).admitted times).countP (fun time => start ≤ time ∧ time ≤ last) ≤
          ((level.take now).admitted times).countP (· ≤ last) :=
        List.countP_mono_left fun time _ h => by simpa using (by simpa using h : start ≤ time ∧ time ≤ last).2
      have hrest := @admitted_until _ _ _ _ _ (level.take now) times last (by rw [take_since]; exact hin.2)
        (by rwa [take_since])
      have hcount := (Nat.cast_le (α := K)).2 hmono
      have hlater := mul_le_mul_of_nonneg_left (sub_le_sub_left hin.1 last) m.rate_pos.le
      have hcap := level.refill_le_capacity now
      rw [take_since] at hrest
      linarith
    · rw [countP_admitted_skip level hin]
      exact ih (level.take now) htimes

end Level

end TokenBucket
