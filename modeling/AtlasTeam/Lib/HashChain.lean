import Mathlib

/-!
# Chains of hashes over a log

Every entry of a log gets the value `step position previous entry`, where `previous` is the value of the
entry before it. `value` is the last of these values and `values` has them all. Two logs whose steps
nowhere collide (`Apart`) have the same value after as many entries exactly when they have the same
entries (`value_eq_iff`): a value commits to everything before it.
-/

namespace HashChain

variable {V E F : Type} {step : Nat → V → E → V} {start : V}

/-- The value behind the entries, when `n` stand before them. -/
def valueFrom (step : Nat → V → E → V) (n : Nat) (v : V) : List E → V
  | [] => v
  | e :: es => valueFrom step (n + 1) (step n v e) es

/-- The value behind a log. -/
def value (step : Nat → V → E → V) (start : V) (es : List E) : V := valueFrom step 0 start es

/-- The values of the entries of a log. -/
def values (step : Nat → V → E → V) (start : V) (es : List E) : List V :=
  (List.range es.length).map fun i => value step start (es.take (i + 1))

theorem valueFrom_concat (n : Nat) (v : V) (es : List E) (e : E) :
    valueFrom step n v (es ++ [e]) = step (n + es.length) (valueFrom step n v es) e := by
  induction es generalizing n v with
  | nil => rfl
  | cons first es ih =>
    rw [List.cons_append, valueFrom, ih, List.length_cons, valueFrom]
    congr 1
    omega

@[simp] theorem value_nil : value step start [] = start := rfl

theorem value_concat (es : List E) (e : E) :
    value step start (es ++ [e]) = step es.length (value step start es) e := by
  rw [value, valueFrom_concat, Nat.zero_add, value]

@[simp] theorem length_values (es : List E) : (values step start es).length = es.length := by
  simp [values]

theorem values_getElem? (es : List E) {i : Nat} (hi : i < es.length) :
    (values step start es)[i]? = some (value step start (es.take (i + 1))) := by
  simp [values, hi]

theorem values_concat (es : List E) (e : E) :
    values step start (es ++ [e]) = values step start es ++ [value step start (es ++ [e])] := by
  have hold : ∀ i ∈ List.range es.length, value step start ((es ++ [e]).take (i + 1)) =
      value step start (es.take (i + 1)) := by
    intro i hi
    rw [List.take_append_of_le_length (List.mem_range.1 hi)]
  have hnew : (es ++ [e]).take (es.length + 1) = es ++ [e] :=
    List.take_of_length_le (by simp)
  rw [values, List.length_append, List.length_singleton, List.range_succ, List.map_append,
    List.map_congr_left hold, List.map_singleton, hnew]
  rfl

/-- The last value is the value behind the log. -/
theorem values_getLast (es : List E) :
    (values step start es).getLast?.getD start = value step start es := by
  induction es using List.reverseRecOn with
  | nil => rfl
  | append_singleton es e _ => rw [values_concat, List.getLast?_concat, Option.getD_some]

/-- A step that looks at entries through `view` gives the logs with equal views the same value. -/
theorem value_map (view : E → F) {step' : Nat → V → F → V}
    (hstep : ∀ n v e, step n v e = step' n v (view e)) (es : List E) :
    value step start es = value step' start (es.map view) := by
  induction es using List.reverseRecOn with
  | nil => rfl
  | append_singleton es e ih =>
    rw [value_concat, hstep, ih, List.map_append, List.map_singleton, value_concat, List.length_map]

/-- No two different steps of the logs at one place give the same value. -/
def Apart (step : Nat → V → E → V) (start : V) (es es' : List E) : Prop :=
  ∀ n e e', es[n]? = some e → es'[n]? = some e' →
    step n (value step start (es.take n)) e = step n (value step start (es'.take n)) e' →
    value step start (es.take n) = value step start (es'.take n) ∧ e = e'

theorem Apart.take {es es' : List E} (h : Apart step start es es') (n : Nat) :
    Apart step start (es.take n) (es'.take n) := by
  intro i e e' he he' hstep
  rw [List.getElem?_take] at he he'
  split_ifs at he he' with hi
  simp only [List.take_take, Nat.min_eq_left (Nat.le_of_lt hi)] at hstep ⊢
  exact h i e e' he he' hstep

/-- Values of logs of one length are equal exactly when the logs are. -/
theorem value_eq_iff {es es' : List E} (h : Apart step start es es')
    (hlength : es.length = es'.length) : value step start es = value step start es' ↔ es = es' := by
  refine ⟨fun heq => ?_, fun heq => heq ▸ rfl⟩
  induction es using List.reverseRecOn generalizing es' with
  | nil => exact (List.eq_nil_of_length_eq_zero hlength.symm).symm
  | append_singleton es e ih =>
    cases es' using List.reverseRecOn with
    | nil => simp at hlength
    | append_singleton es' e' =>
      have hlen : es.length = es'.length := by simpa using hlength
      have happart : Apart step start es es' := by
        have htake := h.take es.length
        rwa [List.take_left, hlen, List.take_left] at htake
      rw [value_concat, value_concat, ← hlen] at heq
      have hlast := h es.length e e' List.getElem?_concat_length (hlen ▸ List.getElem?_concat_length)
      rw [List.take_left, hlen, List.take_left, ← hlen] at hlast
      obtain ⟨hvalue, rfl⟩ := hlast heq
      rw [ih happart hlen hvalue]

end HashChain
