import Mathlib

/-!
# The part of a map that a predicate picks

Two association maps can agree on the entries of a predicate and hold anything else besides. The entries
picked are then the same up to their order (`filter_perm`), and in the order of a key that tells the
picked values apart they are the same list (`sorted_eq`). Where the keys are pairs, what stands under one
first component is read and written without the rest (`SameUnder`), and two maps alike there differ by a
reordering in what is walked (`SameUnder.reorder`).
-/

namespace TableSlice

/-- What is read off the first entry that fits, where all that fit read the same. -/
theorem find?_map_eq {A B : Type} {q : A → Bool} {f : A → B} {l l' : List A}
    (hperm : (l.filter q).Perm (l'.filter q)) (hsame : ∀ a ∈ l, ∀ b ∈ l, q a → q b → f a = f b) :
    (l.find? q).map f = (l'.find? q).map f := by
  rw [← List.head?_filter, ← List.head?_filter]
  cases hfirst : l.filter q with
  | nil =>
    rw [hfirst] at hperm
    rw [hperm.symm.eq_nil]
  | cons a rest =>
    have ha : a ∈ l.filter q := hfirst ▸ List.mem_cons_self
    cases hfirst' : l'.filter q with
    | nil =>
      rw [hfirst'] at hperm
      cases (hperm.eq_nil).symm.trans hfirst
    | cons b rest' =>
      have hb : b ∈ l.filter q := hperm.symm.subset (hfirst' ▸ List.mem_cons_self)
      obtain ⟨ha, hqa⟩ := List.mem_filter.1 ha
      obtain ⟨hb, hqb⟩ := List.mem_filter.1 hb
      exact congrArg some (hsame a ha b hb hqa hqb)

section Agree
variable {K V : Type} [DecidableEq K] {p : K → V → Bool} {m m' : AList fun _ : K => V}

/-- The same entries are picked from both maps. -/
def Agree (p : K → V → Bool) (m m' : AList fun _ : K => V) : Prop :=
  ∀ k v, p k v = true → (AList.lookup k m = some v ↔ AList.lookup k m' = some v)

/-- Writing a value that is not picked over one that is not, or over none. -/
theorem agree_insert {k : K} {v : V} (hnew : p k v = false)
    (hold : ∀ v', AList.lookup k m = some v' → p k v' = false) : Agree p m (AList.insert k v m) := by
  intro k' v' hp
  by_cases hk : k' = k
  · subst hk
    rw [AList.lookup_insert]
    constructor
    · intro hlookup
      exact absurd (hp.symm.trans (hold v' hlookup)) (by simp)
    · intro hlookup
      obtain rfl := Option.some.inj hlookup
      exact absurd (hp.symm.trans hnew) (by simp)
  · rw [AList.lookup_insert_ne hk]

theorem Agree.filter_perm (h : Agree p m m') :
    (m.entries.filter fun e => p e.1 e.2).Perm (m'.entries.filter fun e => p e.1 e.2) := by
  have hnodup : ∀ m : AList fun _ : K => V, (m.entries.filter fun e => p e.1 e.2).Nodup :=
    fun m => (List.NodupKeys.nodup m.nodupKeys).filter _
  refine (List.perm_ext_iff_of_nodup (hnodup m) (hnodup m')).2 ?_
  rintro ⟨k, v⟩
  rw [List.mem_filter, List.mem_filter, ← AList.mem_lookup_iff, ← AList.mem_lookup_iff]
  exact and_congr_left fun hp => h k v hp

/-- The values that `keep` picks, by key. -/
def sorted {L : Type} [LinearOrder L] (key : V → L) (keep : K → Bool) (m : AList fun _ : K => V) :
    List V :=
  ((m.entries.filter fun e => keep e.1).map Sigma.snd).insertionSort fun a b => key a ≤ key b

/-- What `q` picks of the sorted values is the same, where the key tells the entries of each map
apart. -/
theorem Agree.sorted_eq {L : Type} [LinearOrder L] {key : V → L} {keep : K → Bool} {q : V → Bool}
    (h : Agree (fun k v => keep k && q v) m m')
    (hkey : ∀ k v k' v', keep k = true → keep k' = true → AList.lookup k m = some v →
      AList.lookup k' m = some v' → key v = key v' → k = k') :
    (sorted key keep m).filter q = (sorted key keep m').filter q := by
  have hpicked : ∀ m : AList fun _ : K => V,
      (((m.entries.filter fun e => keep e.1).map Sigma.snd).filter q) =
        (m.entries.filter fun e => keep e.1 && q e.2).map Sigma.snd := by
    intro m
    rw [List.filter_map, List.filter_filter]
    congr 1
    exact List.filter_congr fun e _ => Bool.and_comm _ _
  have hperm : ((sorted key keep m).filter q).Perm ((sorted key keep m').filter q) := by
    refine ((List.perm_insertionSort _ _).filter q).trans (List.Perm.trans ?_
      ((List.perm_insertionSort _ _).filter q).symm)
    rw [hpicked, hpicked]
    exact h.filter_perm.map _
  have hpairwise : ∀ m : AList fun _ : K => V,
      ((sorted key keep m).filter q).Pairwise fun a b => key a ≤ key b := fun m =>
    (List.pairwise_insertionSort (fun a b : V => key a ≤ key b) _).filter q
  have hmem : ∀ v ∈ (sorted key keep m).filter q, ∃ k, keep k = true ∧ AList.lookup k m = some v := by
    intro v hv
    have hsorted := (List.mem_filter.1 hv).1
    rw [sorted, List.mem_insertionSort, List.mem_map] at hsorted
    obtain ⟨⟨k, _⟩, hentry, rfl⟩ := hsorted
    obtain ⟨hentry, hkeep⟩ := List.mem_filter.1 hentry
    exact ⟨k, hkeep, AList.mem_lookup_iff.2 hentry⟩
  refine hperm.eq_of_pairwise (fun a b ha hb hab hba => ?_) (hpairwise m) (hpairwise m')
  obtain ⟨k, hk, hlookup⟩ := hmem a ha
  obtain ⟨k', hk', hlookup'⟩ := hmem b (hperm.symm.subset hb)
  obtain rfl := hkey k a k' b hk hk' hlookup hlookup' (le_antisymm hab hba)
  exact Option.some.inj (hlookup.symm.trans hlookup')

end Agree

section Under
variable {C X V : Type} [DecidableEq C] [DecidableEq X] {c d : C} {m m' m'' : AList fun _ : C × X => V}

/-- Two maps hold the same under a first component. -/
def SameUnder (c : C) (m m' : AList fun _ : C × X => V) : Prop :=
  ∀ x, AList.lookup (c, x) m = AList.lookup (c, x) m'

theorem SameUnder.refl (c : C) (m : AList fun _ : C × X => V) : SameUnder c m m := fun _ => rfl

theorem SameUnder.trans (h : SameUnder c m m') (h' : SameUnder c m' m'') : SameUnder c m m'' :=
  fun x => (h x).trans (h' x)

theorem SameUnder.insert (h : SameUnder c m m') (x : X) (v : V) :
    SameUnder c (AList.insert (c, x) v m) (AList.insert (c, x) v m') := by
  intro y
  by_cases hy : (c, y) = (c, x)
  · rw [hy, AList.lookup_insert, AList.lookup_insert]
  · rw [AList.lookup_insert_ne hy, AList.lookup_insert_ne hy, h y]

theorem sameUnder_insert_ne (hc : c ≠ d) (x : X) (v : V) :
    SameUnder c (AList.insert (d, x) v m) m := by
  intro y
  refine AList.lookup_insert_ne fun heq => hc ?_
  exact (Prod.mk.inj heq).1

/-- A fold whose steps keep two maps alike. -/
theorem SameUnder.foldl {A : Type} {f : (AList fun _ : C × X => V) → A → AList fun _ : C × X => V}
    (hf : ∀ m m' a, SameUnder c m m' → SameUnder c (f m a) (f m' a)) (l : List A)
    (h : SameUnder c m m') : SameUnder c (l.foldl f m) (l.foldl f m') := by
  induction l generalizing m m' with
  | nil => exact h
  | cons a l ih => exact ih (hf m m' a h)

/-- A fold whose steps write elsewhere. -/
theorem sameUnder_foldl_ne {A : Type} {f : (AList fun _ : C × X => V) → A → AList fun _ : C × X => V}
    (hf : ∀ m a, SameUnder c (f m a) m) (l : List A) (m : AList fun _ : C × X => V) :
    SameUnder c (l.foldl f m) m := by
  induction l generalizing m with
  | nil => exact SameUnder.refl c m
  | cons a l ih => exact (ih (f m a)).trans (hf m a)

/-- The entries under a first component, in the order of the map. -/
def under (c : C) (m : AList fun _ : C × X => V) : List (Sigma fun _ : C × X => V) :=
  m.entries.filter fun e => e.1.1 = c

theorem SameUnder.under_perm (h : SameUnder c m m') : (under c m).Perm (under c m') := by
  have hagree : Agree (fun (k : C × X) (_ : V) => k.1 = c) m m' := by
    rintro ⟨d, x⟩ v hd
    obtain rfl : d = c := of_decide_eq_true hd
    rw [h x]
  exact hagree.filter_perm

/-- The order of the entries does not matter to what stands under a component. -/
theorem sameUnder_of_perm (h : m.entries.Perm m'.entries) : SameUnder c m m' :=
  fun _ => AList.perm_lookup h

/-- One of two maps that hold the same under a component can be reordered to walk like the other there. -/
theorem SameUnder.reorder (h : SameUnder c m m') :
    ∃ m'' : AList fun _ : C × X => V, m''.entries.Perm m'.entries ∧ under c m'' = under c m := by
  let rest := m'.entries.filter fun e => !decide (e.1.1 = c)
  have hperm : (under c m ++ rest).Perm m'.entries :=
    (h.under_perm.append_right rest).trans (List.filter_append_perm _ _)
  refine ⟨⟨under c m ++ rest, (List.perm_nodupKeys hperm).2 m'.nodupKeys⟩, hperm, ?_⟩
  have hunder : (under c m).filter (fun e => e.1.1 = c) = under c m := by
    rw [under, List.filter_filter]
    exact List.filter_congr fun e _ => Bool.and_self _
  have hrest : rest.filter (fun e => e.1.1 = c) = [] := by
    rw [List.filter_filter]
    exact List.filter_eq_nil_iff.2 fun e _ => by simp
  show (under c m ++ rest).filter (fun e => e.1.1 = c) = under c m
  rw [List.filter_append, hunder, hrest, List.append_nil]

/-- A search among the entries under a component does not see their order. -/
theorem SameUnder.any_eq (h : SameUnder c m m') (q : (Sigma fun _ : C × X => V) → Bool) :
    (m.entries.any fun e => e.1.1 = c && q e) = m'.entries.any fun e => e.1.1 = c && q e := by
  have hunder : ∀ m : AList fun _ : C × X => V,
      (m.entries.any fun e => e.1.1 = c && q e) = (under c m).any q := by
    intro m
    rw [under, List.any_filter]
  rw [hunder, hunder, h.under_perm.any_eq]

end Under

end TableSlice
