import Mathlib

/-!
# Counters with floors

A counter that hands out values one above its high-water mark, and whose mark may be raised to a
floor at any time. A history lists the allocations and the floors in order; `Lawful` histories are
those such a counter makes. Their allocated values increase (`Lawful.increasing`), and they are
consecutive where no floor above the counter came between (`Lawful.consecutive`).
-/

namespace HighWater

inductive Move (α : Type) where
  | allocated (value : α)
  | floor (value : Int)

def Move.map {α β : Type} (f : α → β) : Move α → Move β
  | .allocated value => .allocated (f value)
  | .floor value => .floor value

def Move.allocation {α : Type} : Move α → Option α
  | .allocated value => some value
  | .floor _ => none

def Move.raised {α : Type} : Move α → Option Int
  | .allocated _ => none
  | .floor value => some value

/-- The values allocated, in order. -/
def allocations {α : Type} (moves : List (Move α)) : List α := moves.filterMap Move.allocation

/-- The floors raised, in order. -/
def floors {α : Type} (moves : List (Move α)) : List Int := moves.filterMap Move.raised

section Simp
variable {α : Type} (moves moves' : List (Move α))

@[simp] theorem allocations_append :
    allocations (moves ++ moves') = allocations moves ++ allocations moves' :=
  List.filterMap_append ..

@[simp] theorem allocations_cons_allocated (v : α) :
    allocations (.allocated v :: moves) = v :: allocations moves := rfl

@[simp] theorem allocations_cons_floor (f : Int) :
    allocations (.floor f :: moves) = allocations moves := rfl

@[simp] theorem allocations_nil : allocations ([] : List (Move α)) = [] := rfl

@[simp] theorem floors_append : floors (moves ++ moves') = floors moves ++ floors moves' :=
  List.filterMap_append ..

@[simp] theorem floors_cons_allocated (v : α) : floors (.allocated v :: moves) = floors moves := rfl

@[simp] theorem floors_cons_floor (f : Int) :
    floors (.floor f :: moves) = f :: floors moves := rfl

@[simp] theorem floors_nil : floors ([] : List (Move α)) = [] := rfl

end Simp

/-- The last value allocated, 0 before the first. -/
def lastAllocated (moves : List (Move Int)) : Int := (allocations moves).getLastD 0

/-- The highest floor raised, 0 before the first. -/
def highestFloor (moves : List (Move Int)) : Int := (floors moves).foldl max 0

/-- The high-water mark. -/
def height (moves : List (Move Int)) : Int := max (lastAllocated moves) (highestFloor moves)

/-- The histories a counter with floors makes. -/
inductive Lawful : List (Move Int) → Prop
  | nil : Lawful []
  | allocate {moves : List (Move Int)} :
      Lawful moves → Lawful (moves ++ [.allocated (height moves + 1)])
  | raise {moves : List (Move Int)} (value : Int) :
      Lawful moves → Lawful (moves ++ [.floor value])

@[simp] theorem height_nil : height [] = 0 := rfl

@[simp] theorem height_append_allocated (moves : List (Move Int)) :
    height (moves ++ [.allocated (height moves + 1)]) = height moves + 1 := by
  have hfloor : highestFloor moves ≤ height moves := le_max_right _ _
  have hlast : lastAllocated (moves ++ [.allocated (height moves + 1)]) = height moves + 1 := by
    simp [lastAllocated]
  have hhigh : highestFloor (moves ++ [.allocated (height moves + 1)]) = highestFloor moves := by
    simp [highestFloor]
  rw [height, hlast, hhigh]
  exact max_eq_left (by omega)

@[simp] theorem height_append_floor (moves : List (Move Int)) (value : Int) :
    height (moves ++ [.floor value]) = max (height moves) value := by
  simp [height, lastAllocated, highestFloor, max_assoc]

/-- Raising several floors in turn. -/
theorem Lawful.raises {moves : List (Move Int)} (h : Lawful moves) (values : List Int) :
    Lawful (moves ++ values.map .floor) ∧
      height (moves ++ values.map .floor) = values.foldl max (height moves) := by
  induction values generalizing moves with
  | nil => simpa using h
  | cons value values ih =>
    obtain ⟨hlawful, hheight⟩ := ih (h.raise value)
    rw [List.map_cons, ← List.singleton_append, ← List.append_assoc]
    exact ⟨hlawful, by rw [hheight, height_append_floor, List.foldl_cons]⟩

/-- Every allocated value is one above the mark its predecessors left. -/
theorem Lawful.next {moves : List (Move Int)} (h : Lawful moves) {pre post : List (Move Int)} {v : Int}
    (hmoves : moves = pre ++ .allocated v :: post) :
    v = max (lastAllocated pre) (highestFloor pre) + 1 := by
  induction h generalizing post with
  | nil => simp at hmoves
  | @allocate moves _ ih =>
    rcases List.eq_nil_or_concat post with rfl | ⟨post', m, rfl⟩
    · obtain ⟨rfl, hlast⟩ := List.append_inj' hmoves rfl
      cases hlast
      rfl
    · rw [List.concat_eq_append, ← List.cons_append, ← List.append_assoc] at hmoves
      exact ih (List.append_inj' hmoves rfl).1
  | @raise moves value _ ih =>
    rcases List.eq_nil_or_concat post with rfl | ⟨post', m, rfl⟩
    · exact absurd (List.append_inj' hmoves rfl).2 (by simp)
    · rw [List.concat_eq_append, ← List.cons_append, ← List.append_assoc] at hmoves
      exact ih (List.append_inj' hmoves rfl).1

/-- No allocated value is above the mark. -/
theorem Lawful.le_height {moves : List (Move Int)} (h : Lawful moves) :
    ∀ v ∈ allocations moves, v ≤ height moves := by
  induction h with
  | nil => simp
  | @allocate moves _ ih =>
    intro v hv
    rw [height_append_allocated]
    rcases List.mem_append.1 (allocations_append .. ▸ hv) with hv | hv
    · have := ih v hv
      omega
    · exact (List.mem_singleton.1 hv).le
  | @raise moves value _ ih =>
    intro v hv
    rw [height_append_floor]
    exact (ih v (by simpa using hv)).trans (le_max_left _ _)

theorem Lawful.increasing {moves : List (Move Int)} (h : Lawful moves) :
    (allocations moves).Pairwise (· < ·) := by
  induction h with
  | nil => exact List.Pairwise.nil
  | @allocate moves hlawful ih =>
    rw [allocations_append, List.pairwise_append]
    refine ⟨ih, List.pairwise_singleton _ _, fun a ha b hb => ?_⟩
    obtain rfl : b = height moves + 1 := List.mem_singleton.1 hb
    exact Int.lt_add_one_of_le (hlawful.le_height a ha)
  | raise value _ ih => simpa using ih

theorem foldl_max_le {values : List Int} {base bound : Int} (hbase : base ≤ bound)
    (hvalues : ∀ f ∈ values, f ≤ bound) : values.foldl max base ≤ bound := by
  induction values generalizing base with
  | nil => exact hbase
  | cons f fs ih =>
    obtain ⟨hf, hfs⟩ := List.forall_mem_cons.1 hvalues
    exact ih (max_le hbase hf) hfs

theorem le_foldl_max (values : List Int) (base : Int) : base ≤ values.foldl max base := by
  induction values generalizing base with
  | nil => exact le_refl base
  | cons f fs ih => exact (le_max_left base f).trans (ih (max base f))

theorem le_foldl_max_of_mem {values : List Int} {f : Int} (h : f ∈ values) (base : Int) :
    f ≤ values.foldl max base := by
  induction values generalizing base with
  | nil => exact absurd h List.not_mem_nil
  | cons g fs ih =>
    rcases List.mem_cons.1 h with rfl | h
    · exact (le_max_right base f).trans (le_foldl_max fs _)
    · exact ih h (max base g)

/-- Floors at or below the counter between two allocations leave no gap. -/
theorem Lawful.consecutive {moves : List (Move Int)} (h : Lawful moves)
    {pre between post : List (Move Int)} {v w : Int}
    (hmoves : moves = pre ++ .allocated v :: (between ++ .allocated w :: post))
    (hbetween : ∀ m ∈ between, ∃ f, f ≤ v ∧ m = .floor f) : w = v + 1 := by
  have hv : v = max (lastAllocated pre) (highestFloor pre) + 1 := h.next hmoves
  have hw : w = max (lastAllocated (pre ++ .allocated v :: between))
      (highestFloor (pre ++ .allocated v :: between)) + 1 := h.next (by simpa using hmoves)
  have hallocations : allocations between = [] := by
    refine List.filterMap_eq_nil_iff.2 fun m hm => ?_
    obtain ⟨f, -, rfl⟩ := hbetween m hm
    rfl
  have hfloors : ∀ f ∈ floors between, f ≤ v := by
    intro f hf
    obtain ⟨m, hm, hraised⟩ := List.mem_filterMap.1 hf
    obtain ⟨f', hf', rfl⟩ := hbetween m hm
    exact Option.some.inj hraised ▸ hf'
  have hlast : lastAllocated (pre ++ .allocated v :: between) = v := by
    simp [lastAllocated, hallocations]
  have hpre : highestFloor pre ≤ v := by
    have := le_max_right (lastAllocated pre) (highestFloor pre)
    omega
  have hhigh : highestFloor (pre ++ .allocated v :: between) ≤ v := by
    rw [highestFloor, floors_append, floors_cons_allocated, List.foldl_append]
    exact foldl_max_le hpre hfloors
  rw [hw, hlast, max_eq_left hhigh]

end HighWater
