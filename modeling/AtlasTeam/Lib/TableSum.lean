import Mathlib

/-!
# Sums over the entries of a map

`TableSum.total weigh m` adds up what each entry of an association map weighs. The sum depends on
the map only through its lookups (`total_eq_sum`), so a write that changes what one key weighs
changes the sum by the difference at that key and by nothing else (`total_add_weight`). A sum over
rows that belong to keys splits into the sums of the keys (`sum_by_key`).
-/

namespace TableSum

section Sums
variable {K V M : Type} [DecidableEq K] [AddCommMonoid M] (weigh : K → V → M)

/-- What the entries of a map weigh together. -/
def total (m : AList fun _ : K => V) : M := (m.entries.map fun e => weigh e.1 e.2).sum

/-- What stands under a key weighs. -/
def weight (m : AList fun _ : K => V) (k : K) : M := (AList.lookup k m).elim 0 (weigh k)

/-- The sum, over any set of keys that has those of the map. -/
theorem total_eq_sum (m : AList fun _ : K => V) {keys : Finset K} (hkeys : m.keys.toFinset ⊆ keys) :
    total weigh m = ∑ k ∈ keys, weight weigh m k := by
  have hentries : m.entries.map (fun e => weigh e.1 e.2) = m.keys.map (weight weigh m) := by
    rw [AList.keys, List.keys, List.map_map]
    refine List.map_congr_left fun e he => ?_
    have hlookup : AList.lookup e.1 m = some e.2 := List.mem_dlookup m.nodupKeys he
    simp only [Function.comp_apply, weight, hlookup, Option.elim_some]
  rw [total, hentries, ← List.sum_toFinset _ m.keys_nodup]
  refine Finset.sum_subset hkeys fun k _ hk => ?_
  have hnone : AList.lookup k m = none := by
    rw [AList.lookup_eq_none, AList.mem_keys]
    exact fun hmem => hk (List.mem_toFinset.2 hmem)
  simp only [weight, hnone, Option.elim_none]

variable {weigh}

/-- Two maps that agree but for one key differ by what stands under that key. -/
theorem total_add_weight {m m' : AList fun _ : K => V} {k : K}
    (h : ∀ k' ≠ k, weight weigh m' k' = weight weigh m k') :
    total weigh m' + weight weigh m k = total weigh m + weight weigh m' k := by
  let keys := insert k (m.keys.toFinset ∪ m'.keys.toFinset)
  have hk : k ∈ keys := Finset.mem_insert_self _ _
  have hm : m.keys.toFinset ⊆ keys :=
    Finset.subset_union_left.trans (Finset.subset_insert _ _)
  have hm' : m'.keys.toFinset ⊆ keys :=
    Finset.subset_union_right.trans (Finset.subset_insert _ _)
  have hrest : ∑ k' ∈ keys.erase k, weight weigh m' k' = ∑ k' ∈ keys.erase k, weight weigh m k' :=
    Finset.sum_congr rfl fun k' hk' => h k' (Finset.ne_of_mem_erase hk')
  rw [total_eq_sum weigh m hm, total_eq_sum weigh m' hm', ← Finset.add_sum_erase keys _ hk,
    ← Finset.add_sum_erase keys _ hk, hrest]
  ac_rfl

omit [DecidableEq K] in
/-- Entries that weigh two things together weigh the sum of what they weigh of each. -/
theorem total_add (weigh' : K → V → M) (m : AList fun _ : K => V) :
    total (fun k v => weigh k v + weigh' k v) m = total weigh m + total weigh' m := by
  rw [total, List.sum_map_add]
  rfl

/-- Only what stands under the keys is weighed. -/
theorem total_congr {weigh' : K → V → M} {m : AList fun _ : K => V}
    (h : ∀ k v, AList.lookup k m = some v → weigh k v = weigh' k v) : total weigh m = total weigh' m :=
  congrArg List.sum (List.map_congr_left fun e he => h e.1 e.2 (List.mem_dlookup m.nodupKeys he))

/-- A map in which no entry weighs anything weighs nothing. -/
theorem total_eq_zero {m : AList fun _ : K => V}
    (h : ∀ k v, AList.lookup k m = some v → weigh k v = 0) : total weigh m = 0 := by
  refine List.sum_eq_zero fun x hx => ?_
  obtain ⟨e, he, rfl⟩ := List.mem_map.1 hx
  exact h e.1 e.2 (List.mem_dlookup m.nodupKeys he)

omit [DecidableEq K] in
/-- The sum over the entries that pass a test is the sum in which the others weigh nothing. -/
theorem sum_filter_eq_total (m : AList fun _ : K => V) (p : (Σ _ : K, V) → Bool) (f : V → M) :
    ((m.entries.filter p).map fun e => f e.2).sum =
      total (fun k v => if p ⟨k, v⟩ then f v else 0) m := by
  rw [total]
  induction m.entries with
  | nil => rfl
  | cons e entries ih =>
    obtain ⟨k, v⟩ := e
    by_cases hp : p ⟨k, v⟩ = true
    · simp [hp, ih]
    · simp [hp, ih]

/-- A sum over rows that each belong to a key, taken key by key. -/
theorem sum_by_key {R : Type} (key : R → K) (f : R → M) {keys : Finset K} {rows : List R}
    (hkeys : ∀ r ∈ rows, key r ∈ keys) :
    (rows.map f).sum = ∑ k ∈ keys, ((rows.filter fun r => key r = k).map f).sum := by
  induction rows with
  | nil => simp
  | cons r rows ih =>
    obtain ⟨hr, hrows⟩ := List.forall_mem_cons.1 hkeys
    have hhead : ∀ k, (((r :: rows).filter fun r => key r = k).map f).sum =
        (if key r = k then f r else 0) + ((rows.filter fun r => key r = k).map f).sum := by
      intro k
      by_cases hk : key r = k
      · simp [hk]
      · simp [hk]
    rw [List.map_cons, List.sum_cons, ih hrows, Finset.sum_congr rfl fun k _ => hhead k,
      Finset.sum_add_distrib, Finset.sum_ite_eq, if_pos hr]

end Sums

end TableSum
