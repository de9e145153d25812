import Mathlib

/-!
# Distinct names

Rows made from the positions of a list, one or two for each, under names that tell the positions
apart: `nodup_filterMap` and `filterMap_labels` for rows some positions give, `nodup_flatMap_pair` for
two names per key. `eq_of_filterMap` finds an element by its name. The texts of numbers are told apart by `numbered_inj`, and texts with different ends
by `ne_of_getLast`.
-/

namespace Distinct

section Lists
variable {α β γ : Type}

/-- The rows that numbered entries give have distinct names when a name determines its number. -/
theorem nodup_filterMap {entries : List (α × Nat)} (hentries : (entries.map Prod.snd).Nodup)
    {f : α × Nat → Option β} {name : β → γ}
    (h : ∀ a i b j x y, f (a, i) = some x → f (b, j) = some y → name x = name y → i = j) :
    ((entries.filterMap f).map name).Nodup := by
  induction entries with
  | nil => exact List.nodup_nil
  | cons entry entries ih =>
    obtain ⟨a, i⟩ := entry
    rw [List.map_cons, List.nodup_cons] at hentries
    rw [List.filterMap_cons]
    cases hrow : f (a, i) with
    | none => exact ih hentries.2
    | some x =>
      rw [List.map_cons, List.nodup_cons]
      refine ⟨fun hmem => ?_, ih hentries.2⟩
      obtain ⟨y, hy, hname⟩ := List.mem_map.1 hmem
      obtain ⟨⟨b, j⟩, hentry, hrow'⟩ := List.mem_filterMap.1 hy
      obtain rfl := h a i b j x y hrow hrow' hname.symm
      exact hentries.1 (List.mem_map.2 ⟨_, hentry, rfl⟩)

/-- The rows that numbered entries give are named by distinct numbers when each is named by its own. -/
theorem filterMap_labels {entries : List (α × Nat)} (hentries : (entries.map Prod.snd).Nodup)
    {f : α × Nat → Option β} {name : β → γ} {label : Nat → γ}
    (h : ∀ a i x, f (a, i) = some x → name x = label i) :
    ∃ numbers : List Nat, numbers.Nodup ∧ (entries.filterMap f).map name = numbers.map label := by
  refine ⟨(entries.filter fun e => (f e).isSome).map Prod.snd,
    hentries.sublist (List.filter_sublist.map _), ?_⟩
  clear hentries
  induction entries with
  | nil => rfl
  | cons entry entries ih =>
    obtain ⟨a, i⟩ := entry
    cases hrow : f (a, i) with
    | none => simpa [List.filterMap_cons, hrow] using ih
    | some x => simpa [List.filterMap_cons, hrow, h a i x hrow] using ih

/-- Where names that some elements have are distinct, an element is told by its name. -/
theorem eq_of_filterMap {l : List α} {name : α → Option γ} (h : (l.filterMap name).Nodup) {a b : α}
    (ha : a ∈ l) (hb : b ∈ l) {k : γ} (hka : name a = some k) (hkb : name b = some k) : a = b := by
  induction l with
  | nil => exact absurd ha List.not_mem_nil
  | cons x l ih =>
    have hlater : ∀ {y}, y ∈ l → name y = some k → name x ≠ some k := by
      intro y hy hky hkx
      rw [List.filterMap_cons_some hkx, List.nodup_cons] at h
      exact h.1 (List.mem_filterMap.2 ⟨y, hy, hky⟩)
    rcases List.mem_cons.1 ha with rfl | ha' <;> rcases List.mem_cons.1 hb with rfl | hb'
    · rfl
    · exact absurd hka (hlater hb' hkb)
    · exact absurd hkb (hlater ha' hka)
    · refine ih (h.sublist ?_) ha' hb'
      exact (List.sublist_cons_self x l).filterMap name

/-- Two names for each of a list of distinct keys. -/
theorem nodup_flatMap_pair {keys : List α} (hkeys : keys.Nodup) {u v : α → γ}
    (hu : Function.Injective u) (hv : Function.Injective v) (huv : ∀ a b, u a ≠ v b) :
    (keys.flatMap fun k => [u k, v k]).Nodup := by
  rw [List.nodup_flatMap]
  refine ⟨fun k _ => by simpa using huv k k, hkeys.imp fun {a b} hab => ?_⟩
  simp only [Function.onFun, List.disjoint_cons_left, List.mem_cons, List.not_mem_nil, or_false,
    not_or, List.disjoint_nil_left, and_true]
  exact ⟨⟨fun h => hab (hu h), huv a b⟩, fun h => huv b a h.symm, fun h => hab (hv h)⟩

theorem flatMap_sublist {l : List α} {f g : α → List β} (h : ∀ a ∈ l, (f a).Sublist (g a)) :
    (l.flatMap f).Sublist (l.flatMap g) := by
  induction l with
  | nil => exact List.Sublist.refl _
  | cons a l ih =>
    obtain ⟨hfirst, hrest⟩ := List.forall_mem_cons.1 h
    rw [List.flatMap_cons, List.flatMap_cons]
    exact hfirst.append (ih hrest)

end Lists

/-! ### Texts -/

theorem numbered_inj {start : String} {i j : Nat} (h : start ++ toString i = start ++ toString j) :
    i = j :=
  Nat.repr_injective ((String.append_right_inj start).1 h)

/-- Texts that end in different characters are different. -/
theorem ne_of_getLast {s t : String} (h : s.toList.getLast? ≠ t.toList.getLast?) : s ≠ t :=
  fun heq => h (by rw [heq])

end Distinct
