import Mathlib

/-!
# Maps kept in key order

Association lists read with `List.lookup` and written by `SortedMap.put`, which replaces the
value of a key that is present and otherwise inserts at its place in the key order. The raw
operations need no invariant for the laws of reading (`lookup_put_self`, `lookup_put_ne`,
`lookup_drop_self`, `lookup_drop_ne`); `SortedMap` bundles a list with the order of its keys, so that
walking the entries and looking keys up agree (`SortedMap.mem_entries_iff`).
-/

namespace SortedMap.Raw

section Operations
variable {K V : Type} [LinearOrder K]

/-- Write `v` under `k`. -/
def put (k : K) (v : V) : List (K × V) → List (K × V)
  | [] => [(k, v)]
  | (k', v') :: m =>
    if k = k' then (k, v) :: m
    else if k < k' then (k, v) :: (k', v') :: m
    else (k', v') :: put k v m

/-- Remove `k`. -/
def drop (k : K) (m : List (K × V)) : List (K × V) := m.filter fun e => e.1 ≠ k

/-- Write the fields one after the other. -/
def ofList (fields : List (K × V)) : List (K × V) := fields.foldl (fun m f => put f.1 f.2 m) []

theorem lookup_put_self (k : K) (v : V) (m : List (K × V)) : (put k v m).lookup k = some v := by
  induction m with
  | nil => simp [put]
  | cons e m ih =>
    obtain ⟨k', v'⟩ := e
    by_cases h : k = k'
    · simp [put, h]
    · by_cases hlt : k < k'
      · simp [put, h, hlt]
      · have hb : (k == k') = false := by simpa using h
        simp [put, h, hlt, List.lookup_cons, hb, ih]

theorem lookup_put_ne {k k' : K} (h : k' ≠ k) (v : V) (m : List (K × V)) :
    (put k v m).lookup k' = m.lookup k' := by
  have hb : (k' == k) = false := by simpa using h
  induction m with
  | nil => simp [put, List.lookup_cons, hb]
  | cons e m ih =>
    obtain ⟨k₀, v₀⟩ := e
    by_cases he : k = k₀
    · subst he
      simp [put, List.lookup_cons, hb]
    · by_cases hlt : k < k₀
      · simp [put, he, hlt, List.lookup_cons, hb]
      · simp [put, he, hlt, List.lookup_cons, ih]

theorem lookup_drop_self (k : K) (m : List (K × V)) : (drop k m).lookup k = none := by
  induction m with
  | nil => rfl
  | cons e m ih =>
    obtain ⟨k₀, v₀⟩ := e
    by_cases h : k₀ = k
    · simpa [drop, h] using ih
    · have hb : (k == k₀) = false := by simpa using Ne.symm h
      simpa [drop, h, List.lookup_cons, hb] using ih

theorem lookup_drop_ne {k k' : K} (h : k' ≠ k) (m : List (K × V)) :
    (drop k m).lookup k' = m.lookup k' := by
  induction m with
  | nil => rfl
  | cons e m ih =>
    obtain ⟨k₀, v₀⟩ := e
    by_cases he : k₀ = k
    · have hb : (k' == k₀) = false := by simpa [he] using h
      simpa [drop, he, List.lookup_cons, hb, he ▸ hb] using ih
    · simp only [drop, ne_eq, he, not_false_eq_true, decide_true, List.filter_cons_of_pos,
        List.lookup_cons] at ih ⊢
      rw [ih]

/-- Of the fields written under one key the last one stands. -/
theorem lookup_ofList (fields : List (K × V)) (k : K) :
    (ofList fields).lookup k = fields.reverse.lookup k := by
  induction fields using List.reverseRecOn with
  | nil => rfl
  | append_singleton fields f ih =>
    obtain ⟨k', v⟩ := f
    have hput : ofList (fields ++ [(k', v)]) = put k' v (ofList fields) := by
      simp [ofList, List.foldl_append]
    rw [hput, List.reverse_concat, List.lookup_cons]
    by_cases h : k = k'
    · subst h
      simp [lookup_put_self]
    · have hb : (k == k') = false := by simpa using h
      rw [lookup_put_ne h, hb, ih]

theorem mem_put {k : K} {v : V} {m : List (K × V)} {e : K × V} (h : e ∈ put k v m) :
    e = (k, v) ∨ e ∈ m := by
  induction m with
  | nil => simpa [put] using h
  | cons e' m ih =>
    obtain ⟨k', v'⟩ := e'
    simp only [put] at h
    split_ifs at h
    · rcases List.mem_cons.1 h with h | h
      · exact .inl h
      · exact .inr (List.mem_cons_of_mem _ h)
    · rcases List.mem_cons.1 h with h | h
      · exact .inl h
      · exact .inr h
    · rcases List.mem_cons.1 h with h | h
      · exact .inr (h ▸ List.mem_cons_self)
      · rcases ih h with h | h
        · exact .inl h
        · exact .inr (List.mem_cons_of_mem _ h)

/-- The keys in strictly increasing order. -/
def Ordered (m : List (K × V)) : Prop := m.Pairwise fun a b => a.1 < b.1

theorem Ordered.put {m : List (K × V)} (h : Ordered m) (k : K) (v : V) : Ordered (put k v m) := by
  induction m with
  | nil => simp [Raw.put, Ordered]
  | cons e m ih =>
    obtain ⟨k', v'⟩ := e
    obtain ⟨hhead, htail⟩ := List.pairwise_cons.1 h
    simp only [Raw.put]
    split_ifs with heq hlt
    · exact List.pairwise_cons.2 ⟨fun b hb => heq ▸ hhead b hb, htail⟩
    · refine List.pairwise_cons.2 ⟨fun b hb => ?_, h⟩
      rcases List.mem_cons.1 hb with rfl | hb
      · exact hlt
      · exact hlt.trans (hhead b hb)
    · refine List.pairwise_cons.2 ⟨fun b hb => ?_, ih htail⟩
      rcases mem_put hb with rfl | hb
      · exact lt_of_le_of_ne (not_lt.1 hlt) (Ne.symm heq)
      · exact hhead b hb

theorem Ordered.mem_iff {m : List (K × V)} (h : Ordered m) {k : K} {v : V} :
    (k, v) ∈ m ↔ m.lookup k = some v := by
  induction m with
  | nil => simp
  | cons e m ih =>
    obtain ⟨k₀, v₀⟩ := e
    obtain ⟨hhead, htail⟩ := List.pairwise_cons.1 h
    by_cases hk : k = k₀
    · subst hk
      have hnot : (k, v) ∉ m := fun hm => lt_irrefl k (hhead (k, v) hm)
      simp [hnot, eq_comm]
    · have hb : (k == k₀) = false := by simpa using hk
      simp [List.lookup_cons, hk, hb, ih htail]

theorem ordered_ofList (fields : List (K × V)) : Ordered (ofList fields) := by
  induction fields using List.reverseRecOn with
  | nil => exact List.Pairwise.nil
  | append_singleton fields f ih =>
    rw [ofList, List.foldl_append]
    exact ih.put f.1 f.2

theorem Ordered.drop {m : List (K × V)} (h : Ordered m) (k : K) : Ordered (drop k m) :=
  h.sublist List.filter_sublist

/-- Maps in key order that read alike are the same. -/
theorem Ordered.ext {m m' : List (K × V)} (h : Ordered m) (h' : Ordered m')
    (hlookup : ∀ k, m.lookup k = m'.lookup k) : m = m' := by
  have hmem : ∀ e, e ∈ m ↔ e ∈ m' := fun e => by
    rw [← Prod.eta e, h.mem_iff, h'.mem_iff, hlookup]
  have hnodup : ∀ {m : List (K × V)}, Ordered m → m.Nodup := fun h => by
    refine List.Pairwise.imp (fun {a b} hlt => ?_) h
    rintro rfl
    exact lt_irrefl _ hlt
  exact ((List.perm_ext_iff_of_nodup (hnodup h) (hnodup h')).2 hmem).eq_of_pairwise
    (fun a b _ _ hab hba => absurd hab (lt_asymm hba)) h h'

/-- Reading the entries that pass a test. -/
theorem Ordered.lookup_filter {m : List (K × V)} (h : Ordered m) (p : K × V → Bool) (k : K) :
    (m.filter p).lookup k = (m.lookup k).filter fun v => p (k, v) := by
  have hfiltered : Ordered (m.filter p) := h.sublist List.filter_sublist
  refine Option.ext fun v => ?_
  rw [← hfiltered.mem_iff, List.mem_filter, h.mem_iff, Option.filter_eq_some_iff]

end Operations

/-! ### Sums by key -/

section Sums
variable {K V : Type} [LinearOrder K] [AddCommGroup V]

/-- Adding under one key. -/
theorem lookup_put_add (k k' : K) (n : V) (m : List (K × V)) :
    ((put k ((m.lookup k).getD 0 + n) m).lookup k').getD 0 =
      (m.lookup k').getD 0 + if k = k' then n else 0 := by
  by_cases h : k' = k
  · subst h
    rw [lookup_put_self, if_pos rfl, Option.getD_some]
  · rw [lookup_put_ne h, if_neg (Ne.symm h), add_zero]

/-- The sum of the values after a write: the value that stood there is gone. -/
theorem Ordered.sum_put {m : List (K × V)} (h : Ordered m) (k : K) (v : V) :
    ((Raw.put k v m).map Prod.snd).sum = (m.map Prod.snd).sum + (v - (m.lookup k).getD 0) := by
  induction m with
  | nil => simp [Raw.put]
  | cons e m ih =>
    obtain ⟨k', v'⟩ := e
    obtain ⟨hhead, htail⟩ := List.pairwise_cons.1 h
    by_cases heq : k = k'
    · subst heq
      simp only [Raw.put, if_pos, List.map_cons, List.sum_cons, List.lookup_cons, beq_self_eq_true,
        Option.getD_some]
      abel
    · have hne : (k == k') = false := by simpa using heq
      by_cases hlt : k < k'
      · have habsent : m.lookup k = none := by
          refine Option.eq_none_iff_forall_ne_some.2 fun w hw => ?_
          exact lt_asymm hlt (hhead (k, w) ((Ordered.mem_iff htail).2 hw))
        simp only [Raw.put, if_neg heq, if_pos hlt, List.map_cons, List.sum_cons, List.lookup_cons, hne,
          habsent, Option.getD_none, sub_zero]
        exact add_comm _ _
      · simp only [Raw.put, if_neg heq, if_neg hlt, List.map_cons, List.sum_cons, List.lookup_cons, hne,
          ih htail, add_assoc]

end Sums

end SortedMap.Raw

/-- A map whose entries are walked in key order. -/
structure SortedMap (K V : Type) [LinearOrder K] where
  entries : List (K × V)
  ordered : SortedMap.Raw.Ordered entries

namespace SortedMap
variable {K V : Type} [LinearOrder K]

def empty : SortedMap K V := ⟨[], List.Pairwise.nil⟩

def lookup (m : SortedMap K V) (k : K) : Option V := m.entries.lookup k

def put (m : SortedMap K V) (k : K) (v : V) : SortedMap K V :=
  ⟨Raw.put k v m.entries, m.ordered.put k v⟩

@[simp] theorem lookup_empty (k : K) : (empty : SortedMap K V).lookup k = none := rfl

@[simp] theorem lookup_put_self (m : SortedMap K V) (k : K) (v : V) :
    (m.put k v).lookup k = some v :=
  Raw.lookup_put_self k v m.entries

theorem lookup_put_ne (m : SortedMap K V) {k k' : K} (h : k' ≠ k) (v : V) :
    (m.put k v).lookup k' = m.lookup k' :=
  Raw.lookup_put_ne h v m.entries

theorem lookup_put (m : SortedMap K V) (k k' : K) (v : V) :
    (m.put k v).lookup k' = if k' = k then some v else m.lookup k' := by
  by_cases h : k' = k
  · subst h
    rw [lookup_put_self, if_pos rfl]
  · rw [lookup_put_ne m h, if_neg h]

theorem mem_entries_iff (m : SortedMap K V) {k : K} {v : V} :
    (k, v) ∈ m.entries ↔ m.lookup k = some v :=
  m.ordered.mem_iff

end SortedMap
