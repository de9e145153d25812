import AtlasTeam.Posting.Values

/-!
# Rounding to cents and thousandths (`posting/values.rs`)

`round2` and `round3` are nearest values on their grids: they are off by at most half a step, they leave
the grid alone, and what they round to has a sign only from half a step on.
-/

namespace AtlasTeam

/-! ### To the integers -/

@[simp] theorem roundHalfAway_intCast (n : ℤ) : roundHalfAway n = n := by
  have hnearest := roundHalfAway_nearest n n
  rw [sub_self, abs_zero] at hnearest
  exact (sub_eq_zero.1 (abs_nonpos_iff.1 hnearest)).symm

theorem abs_sub_roundHalfAway_le (v : ℚ) : |v - roundHalfAway v| ≤ 1 / 2 :=
  (roundHalfAway_nearest v (round v)).trans (abs_sub_round v)

theorem roundHalfAway_neg (v : ℚ) : roundHalfAway (-v) = -roundHalfAway v := by
  rcases lt_trichotomy v 0 with h | rfl | h
  · rw [roundHalfAway_of_neg h, neg_neg, roundHalfAway_of_nonneg (by linarith)]
  · have hzero := roundHalfAway_intCast 0
    rw [Int.cast_zero] at hzero
    rw [neg_zero, hzero, neg_zero]
  · rw [roundHalfAway_of_neg (neg_lt_zero.2 h), neg_neg, roundHalfAway_of_nonneg h.le]

theorem roundHalfAway_pos_iff {v : ℚ} : 0 < roundHalfAway v ↔ 1 / 2 ≤ v := by
  rcases lt_or_ge v 0 with h | h
  · have hnonneg : 0 ≤ round (-v) := by
      rw [round_eq, Int.floor_nonneg]
      linarith
    rw [roundHalfAway_of_neg h, neg_pos, Int.cast_lt_zero]
    constructor <;> intro _ <;> [omega; linarith]
  · rw [roundHalfAway_of_nonneg h, Int.cast_pos, round_eq, Int.floor_pos]
    constructor <;> intro _ <;> linarith

theorem roundHalfAway_neg_iff {v : ℚ} : roundHalfAway v < 0 ↔ v ≤ -(1 / 2) := by
  rw [← neg_pos, ← roundHalfAway_neg, roundHalfAway_pos_iff, le_neg]

/-! ### To cents -/

theorem abs_sub_round2_le (v : ℚ) : |v - round2 v| ≤ 1 / 200 := by
  have hscaled : v - round2 v = (v * 100 - roundHalfAway (v * 100)) / 100 := by
    rw [round2]
    ring
  rw [hscaled, abs_div, abs_of_pos (by norm_num : (0 : ℚ) < 100), div_le_iff₀ (by norm_num)]
  exact (abs_sub_roundHalfAway_le _).trans (by norm_num)

theorem round2_cents (v : ℚ) : ∃ n : ℤ, round2 v = n / 100 := by
  obtain ⟨n, hn⟩ := roundHalfAway_int (v * 100)
  exact ⟨n, by rw [round2, hn]⟩

theorem round2_of_cents (n : ℤ) : round2 (n / 100) = n / 100 := by
  rw [round2, div_mul_cancel₀ _ (by norm_num), roundHalfAway_intCast]

/-- A sum of cents is in cents. -/
theorem round2_add_round2 (v w : ℚ) : round2 (round2 v + round2 w) = round2 v + round2 w := by
  obtain ⟨m, hm⟩ := round2_cents v
  obtain ⟨n, hn⟩ := round2_cents w
  have hsum : round2 v + round2 w = ((m + n : ℤ) : ℚ) / 100 := by
    rw [hm, hn]
    push_cast
    ring
  rw [hsum, round2_of_cents]

theorem round2_pos_iff {v : ℚ} : 0 < round2 v ↔ 1 / 200 ≤ v := by
  rw [round2, div_pos_iff_of_pos_right (by norm_num), roundHalfAway_pos_iff]
  constructor <;> intro _ <;> linarith

theorem round2_neg (v : ℚ) : round2 (-v) = -round2 v := by
  rw [round2, neg_mul, roundHalfAway_neg, neg_div]
  rfl

/-- What is below half a cent rounds to nothing. -/
theorem round2_eq_zero {v : ℚ} (h : |v| < 1 / 200) : round2 v = 0 := by
  obtain ⟨hlower, hupper⟩ := abs_lt.1 h
  have hpos : ¬ 0 < round2 v := fun hpos => absurd (round2_pos_iff.1 hpos) (not_le.2 hupper)
  have hneg : ¬ 0 < round2 (-v) := fun hpos => absurd (round2_pos_iff.1 hpos) (by linarith)
  rw [round2_neg, Left.neg_pos_iff] at hneg
  exact le_antisymm (not_lt.1 hpos) (not_lt.1 hneg)

/-! ### To thousandths -/

theorem round3_thousandths (v : ℚ) : ∃ n : ℤ, round3 v = n / 1000 := by
  obtain ⟨n, hn⟩ := roundHalfAway_int (v * 1000)
  exact ⟨n, by rw [round3, hn]⟩

theorem round3_of_thousandths (n : ℤ) : round3 (n / 1000) = n / 1000 := by
  rw [round3, div_mul_cancel₀ _ (by norm_num), roundHalfAway_intCast]

theorem round3_neg_iff {v : ℚ} : round3 v < 0 ↔ v ≤ -(1 / 2000) := by
  have hsign : round3 v < 0 ↔ roundHalfAway (v * 1000) < 0 := by
    rw [round3, div_lt_iff₀ (by norm_num), zero_mul]
  rw [hsign, roundHalfAway_neg_iff]
  constructor <;> intro _ <;> linarith

end AtlasTeam
