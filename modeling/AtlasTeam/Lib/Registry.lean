import Mathlib

/-!
# Keys handed out once

A table that hands out keys: each key is new when it is issued for something, and a key can be retired.
What was issued is a history beside the table. `Registers` says that the table holds exactly the keys
issued and not retired, each with a value that still says what it was issued for; the rest of a value may
change (`Registers.update`). So a lookup answers what the history says (`Registers.lookup_iff`), and a key
that was retired, or never issued, stays without an answer. `Persists` is about two states of a table: a
value may get a mark, and keeps it from then on.
-/

namespace Registry

variable {K V G : Type} [DecidableEq K]

/-- The table holds what was issued and not retired; `subject` is the part of a value that stays. -/
structure Registers (subject : V → G) (table : AList fun _ : K => V) (issued : List (K × G))
    (retired : List K) : Prop where
  nodup : (issued.map Prod.fst).Nodup
  lookup_iff : ∀ k g, (table.lookup k).map subject = some g ↔ (k, g) ∈ issued ∧ k ∉ retired

section
variable {subject : V → G} {table : AList fun _ : K => V} {issued : List (K × G)} {retired : List K}

theorem Registers.empty : Registers subject (∅ : AList fun _ : K => V) [] [] := by
  refine ⟨List.nodup_nil, fun k g => ?_⟩
  simp

/-- A stored value's key was issued for the value's subject. -/
theorem Registers.issued_of_lookup (h : Registers subject table issued retired) {k : K} {v : V}
    (hv : table.lookup k = some v) : (k, subject v) ∈ issued ∧ k ∉ retired :=
  (h.lookup_iff k (subject v)).1 (by rw [hv, Option.map_some])

/-- An issued key that is not retired is found. -/
theorem Registers.lookup_of_issued (h : Registers subject table issued retired) {k : K} {g : G}
    (hissued : (k, g) ∈ issued) (hlive : k ∉ retired) : ∃ v, table.lookup k = some v ∧ subject v = g :=
  Option.map_eq_some_iff.1 ((h.lookup_iff k g).2 ⟨hissued, hlive⟩)

/-- A key was issued for one thing. -/
theorem Registers.subject_eq (h : Registers subject table issued retired) {k : K} {g g' : G}
    (hg : (k, g) ∈ issued) (hg' : (k, g') ∈ issued) : g = g' :=
  congrArg Prod.snd (List.inj_on_of_nodup_map h.nodup hg hg' rfl)

theorem Registers.absent (h : Registers subject table issued retired) {k : K}
    (hnew : k ∉ issued.map Prod.fst) : table.lookup k = none := by
  cases hv : table.lookup k with
  | none => rfl
  | some v => exact absurd (List.mem_map_of_mem (h.issued_of_lookup hv).1) hnew

/-- A new key is issued. -/
theorem Registers.issue (h : Registers subject table issued retired) {k : K} (v : V)
    (hnew : k ∉ issued.map Prod.fst) (hretired : k ∉ retired) :
    Registers subject (table.insert k v) (issued ++ [(k, subject v)]) retired where
  nodup := by
    rw [List.map_append, List.map_singleton, List.nodup_append]
    refine ⟨h.nodup, List.nodup_singleton _, ?_⟩
    rintro k' hk' _ hlast rfl
    obtain rfl := List.mem_singleton.1 hlast
    exact hnew hk'
  lookup_iff k' g := by
    rw [List.mem_append, List.mem_singleton, Prod.mk.injEq]
    by_cases hk : k' = k
    · subst hk
      have hnone : (k', g) ∉ issued := fun hmem => hnew (List.mem_map_of_mem hmem)
      rw [AList.lookup_insert, Option.map_some, Option.some.injEq]
      constructor
      · rintro rfl
        exact ⟨.inr ⟨rfl, rfl⟩, hretired⟩
      · rintro ⟨hmem | ⟨-, hg⟩, -⟩
        · exact absurd hmem hnone
        · exact hg.symm
    · rw [AList.lookup_insert_ne hk, h.lookup_iff]
      simp only [hk, false_and, or_false]

/-- A key is retired. -/
theorem Registers.retire (h : Registers subject table issued retired) (k : K) :
    Registers subject (table.erase k) issued (retired ++ [k]) where
  nodup := h.nodup
  lookup_iff k' g := by
    rw [List.mem_append, List.mem_singleton]
    by_cases hk : k' = k
    · subst hk
      rw [AList.lookup_erase]
      simp
    · rw [AList.lookup_erase_ne hk, h.lookup_iff]
      simp only [hk, or_false]

/-- What is stored changes, but not the subjects. -/
theorem Registers.congr (h : Registers subject table issued retired) {table' : AList fun _ : K => V}
    (hsame : ∀ k, (table'.lookup k).map subject = (table.lookup k).map subject) :
    Registers subject table' issued retired where
  nodup := h.nodup
  lookup_iff k g := by rw [hsame, h.lookup_iff]

/-- One value changes, but not its subject. -/
theorem Registers.update (h : Registers subject table issued retired) {k : K} {v v' : V}
    (hv : table.lookup k = some v) (hsubject : subject v' = subject v) :
    Registers subject (table.insert k v') issued retired := by
  refine h.congr fun k' => ?_
  by_cases hk : k' = k
  · subst hk
    rw [AList.lookup_insert, hv, Option.map_some, Option.map_some, hsubject]
  · rw [AList.lookup_insert_ne hk]

end

/-! ### Many values at once -/

/-- Writing the entries of a list, each changed by `f`, over a table. -/
theorem lookup_foldl_insert (f : V → V) (l : List (Sigma fun _ : K => V)) (hl : l.NodupKeys)
    (table : AList fun _ : K => V) (k : K) :
    (l.foldl (fun t e => AList.insert e.1 (f e.2) t) table).lookup k =
      ((l.dlookup k).map f).or (table.lookup k) := by
  induction l generalizing table with
  | nil => rfl
  | cons e l ih =>
    obtain ⟨k', v⟩ := e
    obtain ⟨hnew, hl⟩ := List.nodupKeys_cons.1 hl
    rw [List.foldl_cons, ih hl]
    by_cases hk : k = k'
    · subst hk
      rw [List.dlookup_eq_none.2 hnew, List.dlookup_cons_eq, AList.lookup_insert]
      rfl
    · rw [AList.lookup_insert_ne hk, List.dlookup_cons_ne _ _ hk]

/-- Changing every value that `p` picks. -/
theorem lookup_foldl_update (p : V → Bool) (f : V → V) (table : AList fun _ : K => V) (k : K) :
    ((table.entries.filter fun e => p e.2).foldl (fun t e => AList.insert e.1 (f e.2) t) table).lookup k =
      (table.lookup k).map fun v => if p v then f v else v := by
  have hnodup : (table.entries.filter fun e => p e.2).NodupKeys :=
    List.NodupKeys.sublist List.filter_sublist table.nodupKeys
  rw [lookup_foldl_insert f _ hnodup]
  cases hv : table.lookup k with
  | none =>
    have hnone : (table.entries.filter fun e => p e.2).dlookup k = none := by
      rw [List.dlookup_eq_none]
      intro hmem
      have hkeys : k ∈ table.keys := (List.filter_sublist.map Sigma.fst).subset hmem
      exact absurd (AList.lookup_eq_none.1 hv) (not_not.2 hkeys)
    rw [hnone]
    rfl
  | some v =>
    have hmem : ⟨k, v⟩ ∈ table.entries := List.of_mem_dlookup hv
    by_cases hp : p v = true
    · have hpicked := List.mem_dlookup hnodup (List.mem_filter.2 ⟨hmem, hp⟩)
      rw [Option.mem_def.1 hpicked, Option.map_some, Option.map_some, if_pos hp]
      rfl
    · have hnone : (table.entries.filter fun e => p e.2).dlookup k = none := by
        rw [List.dlookup_eq_none]
        intro hkeys
        obtain ⟨w, hw⟩ := List.exists_of_mem_keys hkeys
        obtain ⟨hw, hpw⟩ := List.mem_filter.1 hw
        obtain rfl := table.nodupKeys.eq_of_mk_mem hmem hw
        exact hp hpw
      rw [hnone, Option.map_some, if_neg hp]
      rfl

/-! ### Search by a value's tag -/

/-- A search by a tag that tells the values apart finds the value under it. -/
theorem find?_tag_iff {T : Type} [DecidableEq T] {tag : V → T} {table : AList fun _ : K => V}
    (hinj : ∀ k v k' v', table.lookup k = some v → table.lookup k' = some v' → tag v = tag v' → v = v')
    {t : T} {v : V} :
    ((table.entries.map Sigma.snd).find? fun v => tag v = t) = some v ↔
      (∃ k, table.lookup k = some v) ∧ tag v = t := by
  have hmem : ∀ w, w ∈ table.entries.map Sigma.snd ↔ ∃ k, table.lookup k = some w := by
    intro w
    rw [List.mem_map]
    constructor
    · rintro ⟨⟨k, w⟩, hentry, rfl⟩
      exact ⟨k, List.mem_dlookup table.nodupKeys hentry⟩
    · rintro ⟨k, hlookup⟩
      exact ⟨⟨k, w⟩, List.of_mem_dlookup hlookup, rfl⟩
  have htag : ∀ w, ((table.entries.map Sigma.snd).find? fun v => tag v = t) = some w → tag w = t := by
    intro w hfind
    simpa using List.find?_some hfind
  constructor
  · intro hfind
    exact ⟨(hmem v).1 (List.mem_of_find?_eq_some hfind), htag v hfind⟩
  · rintro ⟨⟨k, hk⟩, hv⟩
    cases hfind : (table.entries.map Sigma.snd).find? fun v => tag v = t with
    | none =>
      have hnone := List.find?_eq_none.1 hfind v ((hmem v).2 ⟨k, hk⟩)
      simp only [hv, decide_true, not_true_eq_false] at hnone
    | some w =>
      obtain ⟨k', hk'⟩ := (hmem w).1 (List.mem_of_find?_eq_some hfind)
      rw [hinj k' w k v hk' hk ((htag w hfind).trans hv.symm)]

/-- In a table that tracks distinct tags, the search finds the value of the key issued under the tag. -/
theorem Registers.find?_iff {G T : Type} [DecidableEq T] {subject : V → G} {tag : G → T}
    {table : AList fun _ : K => V} {issued : List (K × G)} {retired : List K}
    (h : Registers subject table issued retired) (htags : (issued.map fun e => tag e.2).Nodup) {t : T} {v : V} :
    ((table.entries.map Sigma.snd).find? fun v => tag (subject v) = t) = some v ↔
      ∃ k g, (k, g) ∈ issued ∧ tag g = t ∧ table.lookup k = some v := by
  refine (find?_tag_iff ?_).trans ⟨?_, ?_⟩
  · intro k v k' v' hv hv' htag
    have heq := List.inj_on_of_nodup_map htags (h.issued_of_lookup hv).1 (h.issued_of_lookup hv').1 htag
    obtain rfl := congrArg Prod.fst heq
    exact Option.some.inj (hv.symm.trans hv')
  · rintro ⟨⟨k, hk⟩, rfl⟩
    exact ⟨k, subject v, (h.issued_of_lookup hk).1, rfl, hk⟩
  · rintro ⟨k, g, hmem, rfl, hk⟩
    exact ⟨⟨k, hk⟩, congrArg tag (h.subject_eq (h.issued_of_lookup hk).1 hmem)⟩

/-! ### Marks that stay -/

section
variable {T : Type} (subject : V → G) (mark : V → Option T)

/-- Every key keeps its subject, and its mark once it has one. -/
def Persists (table table' : AList fun _ : K => V) : Prop :=
  ∀ k v, table.lookup k = some v →
    ∃ v', table'.lookup k = some v' ∧ subject v' = subject v ∧ ∀ t, mark v = some t → mark v' = some t

variable {subject mark} {table table' table'' : AList fun _ : K => V}

theorem Persists.refl : Persists subject mark table table := fun _ v hv => ⟨v, hv, rfl, fun _ h => h⟩

theorem Persists.trans (h : Persists subject mark table table')
    (h' : Persists subject mark table' table'') : Persists subject mark table table'' := by
  intro k v hv
  obtain ⟨v', hv', hsubject', hmark'⟩ := h k v hv
  obtain ⟨v'', hv'', hsubject'', hmark''⟩ := h' k v' hv'
  exact ⟨v'', hv'', hsubject''.trans hsubject', fun t ht => hmark'' t (hmark' t ht)⟩

theorem Persists.insert_new {k : K} (hnew : table.lookup k = none) (v : V) :
    Persists subject mark table (table.insert k v) := by
  intro k' v' hv'
  have hk : k' ≠ k := by
    rintro rfl
    cases hnew.symm.trans hv'
  exact ⟨v', by rw [AList.lookup_insert_ne hk, hv'], rfl, fun _ h => h⟩

theorem Persists.update {k : K} {v v' : V} (hv : table.lookup k = some v)
    (hsubject : subject v' = subject v) (hmark : ∀ t, mark v = some t → mark v' = some t) :
    Persists subject mark table (table.insert k v') := by
  intro k' w hw
  by_cases hk : k' = k
  · subst hk
    obtain rfl := Option.some.inj (hv.symm.trans hw)
    exact ⟨v', AList.lookup_insert _, hsubject, hmark⟩
  · exact ⟨w, by rw [AList.lookup_insert_ne hk, hw], rfl, fun _ h => h⟩

end

end Registry
