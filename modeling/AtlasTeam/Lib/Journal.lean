import Mathlib

/-!
# Logs written by a journal

A log that holds the rows of the entries of a journal, one entry after the other, each under a key of
its own. When a property of rows holds of all rows of one entry and of no row under another key, the
rows of the log with the property are those of the entry (`filter_flatMap_eq`): this is how a lookup
that knows nothing of entries finds exactly what one entry wrote. `sum_filter_reversed` is the
arithmetic of writing every row once more with its amount negated.
-/

namespace Journal

variable {E K R A : Type}

theorem filter_flatMap_eq {key : E → K} {rows : E → List R} {P : R → Bool} {journal : List E} {e : E}
    (hnodup : (journal.map key).Nodup) (he : e ∈ journal) (hown : ∀ r ∈ rows e, P r = true)
    (hother : ∀ e' ∈ journal, key e' ≠ key e → ∀ r ∈ rows e', P r = false) :
    (journal.flatMap rows).filter P = rows e := by
  induction journal with
  | nil => exact absurd he List.not_mem_nil
  | cons first journal ih =>
    rw [List.map_cons, List.nodup_cons] at hnodup
    obtain ⟨hfirst, hrest⟩ := List.forall_mem_cons.1 hother
    rw [List.flatMap_cons, List.filter_append]
    rcases List.mem_cons.1 he with rfl | he
    · -- the later entries stand under other keys
      have hlater : (journal.flatMap rows).filter P = [] := by
        refine List.filter_eq_nil_iff.2 fun r hr => ?_
        obtain ⟨e', he', hr⟩ := List.mem_flatMap.1 hr
        have hkey : key e' ≠ key e := fun heq => hnodup.1 (heq ▸ List.mem_map_of_mem he')
        rw [hrest e' he' hkey r hr]
        exact Bool.false_ne_true
      rw [hlater, List.append_nil, List.filter_eq_self.2 hown]
    · have hkey : key first ≠ key e := fun heq => hnodup.1 (heq ▸ List.mem_map_of_mem he)
      have hnone : (rows first).filter P = [] :=
        List.filter_eq_nil_iff.2 fun r hr => by simp [hfirst hkey r hr]
      rw [hnone, List.nil_append, ih hnodup.2 he hrest]

/-- Rows and their reversals, in any order and up to what `plain` takes off them, come to nothing
wherever they are summed. -/
theorem sum_filter_reversed [AddCommGroup A] {amount : R → A} {P : R → Bool} {reverse plain : R → R}
    (hamount : ∀ r, amount (reverse r) = -amount r) (hP : ∀ r, P (reverse r) = P r)
    (hplain : ∀ r, amount (plain r) = amount r) (hplainP : ∀ r, P (plain r) = P r)
    {rows reversed : List R} (hperm : (reversed.map plain).Perm (rows.map reverse)) :
    (((rows ++ reversed).filter P).map amount).sum = 0 := by
  have hnegated : (((rows.map reverse).filter P).map amount).sum =
      -((rows.filter P).map amount).sum := by
    clear hperm
    induction rows with
    | nil => simp
    | cons r rows ih =>
      rw [List.map_cons, List.filter_cons, List.filter_cons, hP]
      cases P r with
      | false => simpa using ih
      | true =>
        simp only [if_true, List.map_cons, List.sum_cons, hamount, ih]
        rw [neg_add]
  have hsame : ((reversed.filter P).map amount).sum =
      (((reversed.map plain).filter P).map amount).sum := by
    have hfilter : (reversed.map plain).filter P = (reversed.filter P).map plain := by
      rw [List.filter_map]
      exact congrArg (List.map plain) (List.filter_congr fun r _ => hplainP r)
    rw [hfilter, List.map_map]
    exact congrArg List.sum (List.map_congr_left fun r _ => (hplain r).symm)
  rw [List.filter_append, List.map_append, List.sum_append, hsame,
    ((hperm.filter P).map amount).sum_eq, hnegated, add_neg_cancel]

end Journal
