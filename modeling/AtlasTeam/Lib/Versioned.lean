import Mathlib

/-!
# Logs numbered from one

A log `Counts` when its entries have the versions 1, 2, 3 and so on in their order. What a reader selects
by version then has its place in the log: the entries beyond version `n` are those behind the first `n`
(`Counts.filter_lt`), in order, and an entry is found under its version where it stands (`Counts.find?`).
-/

namespace Versioned

variable {E : Type}

/-- The versions of the entries are 1, 2, 3, … -/
def Counts (version : E → Int) (es : List E) : Prop :=
  es.map version = (List.range es.length).map fun (i : Nat) => (i : Int) + 1

variable {version : E → Int} {es : List E}

theorem Counts.get (h : Counts version es) {i : Nat} (hi : i < es.length) :
    version es[i] = i + 1 := by
  have hversions := congrArg (fun versions : List Int => versions[i]?) h
  simpa [hi] using hversions

theorem Counts.concat (h : Counts version es) {e : E} (he : version e = es.length + 1) :
    Counts version (es ++ [e]) := by
  rw [Counts, List.map_append, h, List.length_append, List.length_singleton, List.range_succ,
    List.map_append, List.map_singleton, List.map_singleton, he]

/-- The versions go up. -/
theorem Counts.increasing (h : Counts version es) :
    es.Pairwise fun a b => version a < version b := by
  rw [List.pairwise_iff_getElem]
  intro i j hi hj hij
  rw [h.get hi, h.get hj]
  omega

theorem Counts.sorted (h : Counts version es) :
    es.Pairwise fun a b => version a ≤ version b :=
  h.increasing.imp fun hlt => le_of_lt hlt

/-- The entries beyond a version are those behind as many entries. -/
theorem Counts.filter_lt (h : Counts version es) (n : Nat) :
    es.filter (fun e => (n : Int) < version e) = es.drop n := by
  have hearly : (es.take n).filter (fun e => (n : Int) < version e) = [] := by
    refine List.filter_eq_nil_iff.2 fun e he => ?_
    obtain ⟨i, hi, rfl⟩ := List.mem_iff_getElem.1 he
    have hlength := List.length_take_le n es
    rw [List.getElem_take, h.get]
    simp only [decide_eq_true_eq]
    omega
  have hlate : (es.drop n).filter (fun e => (n : Int) < version e) = es.drop n := by
    refine List.filter_eq_self.2 fun e he => ?_
    obtain ⟨i, hi, rfl⟩ := List.mem_iff_getElem.1 he
    rw [List.getElem_drop, h.get]
    simp only [decide_eq_true_eq]
    omega
  calc es.filter (fun e => (n : Int) < version e)
      = (es.take n ++ es.drop n).filter (fun e => (n : Int) < version e) := by
        rw [List.take_append_drop]
    _ = es.drop n := by rw [List.filter_append, hearly, hlate, List.nil_append]

/-- An entry is found under its version. -/
theorem Counts.find? (h : Counts version es) (n : Nat) :
    es.find? (fun e => version e = (n : Int) + 1) = es[n]? := by
  induction es using List.reverseRecOn with
  | nil => simp
  | append_singleton es e ih =>
    have hlast : version e = es.length + 1 := by
      have hget := h.get (i := es.length) (by simp)
      rwa [List.getElem_concat_length rfl] at hget
    have hbefore : Counts version es := by
      have hversions := congrArg List.dropLast h
      simpa [Counts, List.range_succ] using hversions
    rw [List.find?_append, ih hbefore]
    rcases lt_trichotomy n es.length with hlt | rfl | hgt
    · rw [List.getElem?_append_left hlt, List.getElem?_eq_getElem hlt, Option.some_or]
    · simp [hlast]
    · have hne : ¬version e = (n : Int) + 1 := by omega
      rw [List.getElem?_eq_none (by omega), List.getElem?_eq_none (by simp; omega)]
      simp [hne]

end Versioned
