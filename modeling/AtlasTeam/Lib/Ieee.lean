import Mathlib

/-!
# Rationals extended with infinities and NaN

What a binary float denotes when its rounding and overflow are left aside: a rational, an infinity
of either sign or NaN, with the arithmetic and the comparisons IEEE 754 gives them. A comparison
with NaN is false whichever way it is put, so `¬ a < b` does not say `b ≤ a` here.

Sums, products and differences are finite exactly when their operands are (`isFinite_add`,
`isFinite_mul`, `isFinite_sum`); a quotient by a finite number other than zero is finite exactly when
its dividend is.
-/

inductive Ieee where
  | fin (q : ℚ)
  | inf (negative : Bool)
  | nan
deriving DecidableEq

namespace Ieee

instance : Coe ℚ Ieee := ⟨fin⟩

instance : Zero Ieee := ⟨fin 0⟩

instance : One Ieee := ⟨fin 1⟩

/-! ### Arithmetic -/

protected def neg : Ieee → Ieee
  | fin q => fin (-q)
  | inf negative => inf !negative
  | nan => nan

protected def add : Ieee → Ieee → Ieee
  | fin p, fin q => fin (p + q)
  | fin _, inf negative | inf negative, fin _ => inf negative
  | inf negative, inf negative' => if negative = negative' then inf negative else nan
  | nan, _ | _, nan => nan

protected def mul : Ieee → Ieee → Ieee
  | fin p, fin q => fin (p * q)
  | fin q, inf negative | inf negative, fin q =>
    if q = 0 then nan else inf (xor negative (q < 0))
  | inf negative, inf negative' => inf (xor negative negative')
  | nan, _ | _, nan => nan

/-- The zero of a rational has no sign: it divides as `+0` does. -/
protected def div : Ieee → Ieee → Ieee
  | fin p, fin q => if q = 0 then (if p = 0 then nan else inf (p < 0)) else fin (p / q)
  | fin _, inf _ => fin 0
  | inf negative, fin q => inf (xor negative (q < 0))
  | inf _, inf _ => nan
  | nan, _ | _, nan => nan

protected def abs : Ieee → Ieee
  | fin q => fin |q|
  | inf _ => inf false
  | nan => nan

/-- A function of the finite values that leaves the others alone, such as a rounding. -/
def map (f : ℚ → ℚ) : Ieee → Ieee
  | fin q => fin (f q)
  | inf negative => inf negative
  | nan => nan

instance : Neg Ieee := ⟨Ieee.neg⟩

instance : Add Ieee := ⟨Ieee.add⟩

instance : Sub Ieee := ⟨fun a b => a + -b⟩

instance : Mul Ieee := ⟨Ieee.mul⟩

instance : Div Ieee := ⟨Ieee.div⟩

/-! ### Comparison -/

protected def lt : Ieee → Ieee → Bool
  | fin p, fin q => p < q
  | fin _, inf negative => !negative
  | inf negative, fin _ => negative
  | inf negative, inf negative' => negative && !negative'
  | nan, _ | _, nan => false

protected def le : Ieee → Ieee → Bool
  | fin p, fin q => p ≤ q
  | fin _, inf negative => !negative
  | inf negative, fin _ => negative
  | inf negative, inf negative' => negative || !negative'
  | nan, _ | _, nan => false

instance : LT Ieee := ⟨fun a b => a.lt b = true⟩

instance : LE Ieee := ⟨fun a b => a.le b = true⟩

instance : DecidableRel (α := Ieee) (· < ·) := fun a b => inferInstanceAs (Decidable (a.lt b = true))

instance : DecidableRel (α := Ieee) (· ≤ ·) := fun a b => inferInstanceAs (Decidable (a.le b = true))

/-! ### Finite values -/

def IsFinite (a : Ieee) : Prop := ∃ q, a = fin q

@[simp] theorem isFinite_fin (q : ℚ) : (fin q).IsFinite := ⟨q, rfl⟩

@[simp] theorem isFinite_zero : (0 : Ieee).IsFinite := ⟨0, rfl⟩

@[simp] theorem isFinite_one : (1 : Ieee).IsFinite := ⟨1, rfl⟩

@[simp] theorem not_isFinite_inf (negative : Bool) : ¬(inf negative).IsFinite := by
  rintro ⟨q, h⟩
  cases h

@[simp] theorem not_isFinite_nan : ¬nan.IsFinite := by
  rintro ⟨q, h⟩
  cases h

instance (a : Ieee) : Decidable a.IsFinite :=
  match a with
  | fin q => isTrue (isFinite_fin q)
  | inf negative => isFalse (not_isFinite_inf negative)
  | nan => isFalse not_isFinite_nan

section
variable {a b : Ieee}

@[simp] theorem isFinite_neg : (-a).IsFinite ↔ a.IsFinite := by
  cases a with
  | fin q => exact ⟨fun _ => isFinite_fin q, fun _ => isFinite_fin (-q)⟩
  | inf negative => exact iff_of_false (not_isFinite_inf _) (not_isFinite_inf _)
  | nan => exact iff_of_false not_isFinite_nan not_isFinite_nan

@[simp] theorem isFinite_abs : a.abs.IsFinite ↔ a.IsFinite := by
  cases a <;> simp [Ieee.abs]

@[simp] theorem isFinite_map (f : ℚ → ℚ) : (a.map f).IsFinite ↔ a.IsFinite := by
  cases a <;> simp [map]

@[simp] theorem isFinite_add : (a + b).IsFinite ↔ a.IsFinite ∧ b.IsFinite := by
  show (a.add b).IsFinite ↔ _
  cases a <;> cases b <;> simp [Ieee.add, apply_ite]

@[simp] theorem isFinite_sub : (a - b).IsFinite ↔ a.IsFinite ∧ b.IsFinite := by
  show (a + -b).IsFinite ↔ _
  rw [isFinite_add, isFinite_neg]

@[simp] theorem isFinite_mul : (a * b).IsFinite ↔ a.IsFinite ∧ b.IsFinite := by
  show (a.mul b).IsFinite ↔ _
  cases a <;> cases b <;> simp [Ieee.mul, apply_ite]

/-- A quotient by a finite number other than zero. -/
theorem isFinite_div (hb : b.IsFinite) (hne : b ≠ 0) : (a / b).IsFinite ↔ a.IsFinite := by
  obtain ⟨q, rfl⟩ := hb
  have hq : q ≠ 0 := fun hq => hne (hq ▸ rfl)
  show (a.div (fin q)).IsFinite ↔ _
  cases a <;> simp [Ieee.div, hq]

theorem IsFinite.div (ha : a.IsFinite) (hb : b.IsFinite) (hne : b ≠ 0) : (a / b).IsFinite :=
  (isFinite_div hb hne).2 ha

/-- A sum is finite when every summand is, and only then. -/
@[simp] theorem isFinite_sum {xs : List Ieee} : xs.sum.IsFinite ↔ ∀ x ∈ xs, x.IsFinite := by
  induction xs with
  | nil => simp
  | cons x xs ih => rw [List.sum_cons, isFinite_add, ih, List.forall_mem_cons]

/-- What is not finite is close to nothing. -/
theorem not_abs_lt (h : ¬a.IsFinite) (q : ℚ) : ¬a.abs < fin q := by
  cases a with
  | fin p => exact absurd (isFinite_fin p) h
  | inf negative => exact Bool.false_ne_true
  | nan => exact Bool.false_ne_true

theorem ne_zero_of_pos (h : 0 < a) : a ≠ 0 := by
  rintro rfl
  exact absurd h (by decide)

end

@[simp] theorem fin_lt_fin {p q : ℚ} : fin p < fin q ↔ p < q := decide_eq_true_iff

@[simp] theorem fin_le_fin {p q : ℚ} : fin p ≤ fin q ↔ p ≤ q := decide_eq_true_iff

end Ieee
