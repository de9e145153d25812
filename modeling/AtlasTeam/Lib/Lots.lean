import Mathlib

/-!
# Lots taken from the front

A stock is a list of lots, each a positive amount at a price of its own, and it is used up from the
front. `Lots.left q` is what is left after `q` units, `Lots.cost q` what they cost. Whatever is taken, cost
and rest add up to the value there was (`cost_add_value_left`), and taking in two goes is taking at once
(`left_left`), so a split costs nothing (`cost_add`, `cost_sum`). Where units beyond the lots are to be had
at a price of their own, two stocks cost the same for every quantity if and only if each of their units has
the same price (`costOr_eq_iff`).
-/

namespace Lots

variable {K : Type} [Field K]

/-- The units there are. -/
def total (lots : List (K × K)) : K := (lots.map Prod.fst).sum

/-- What they are worth. -/
def value (lots : List (K × K)) : K := (lots.map fun lot => lot.1 * lot.2).sum

section Append
variable (lots lots' : List (K × K))

theorem total_append : total (lots ++ lots') = total lots + total lots' := by
  simp [total]

theorem value_append : value (lots ++ lots') = value lots + value lots' := by
  simp [value]

end Append

variable [LinearOrder K]

/-- The lots after `q` units were taken off the front. -/
def left (q : K) : List (K × K) → List (K × K)
  | [] => []
  | lot :: lots =>
    if q ≤ 0 then lot :: lots
    else if lot.1 ≤ q then left (q - lot.1) lots
    else (lot.1 - q, lot.2) :: lots

/-- What `q` units off the front cost. -/
def cost (q : K) : List (K × K) → K
  | [] => 0
  | lot :: lots =>
    if q ≤ 0 then 0
    else if lot.1 ≤ q then lot.1 * lot.2 + cost (q - lot.1) lots
    else q * lot.2

/-- Every lot holds something. -/
def Positive (lots : List (K × K)) : Prop := ∀ lot ∈ lots, 0 < lot.1

theorem left_of_nonpos {q : K} (h : q ≤ 0) (lots : List (K × K)) : left q lots = lots := by
  cases lots with
  | nil => rfl
  | cons lot lots => rw [left, if_pos h]

theorem cost_of_nonpos {q : K} (h : q ≤ 0) (lots : List (K × K)) : cost q lots = 0 := by
  cases lots with
  | nil => rfl
  | cons lot lots => rw [cost, if_pos h]

section Cons
variable {q : K} {lot : K × K} (hq : 0 < q)
include hq

/-- A lot that is not more than what is taken is used up. -/
theorem left_cons_of_le (h : lot.1 ≤ q) (lots : List (K × K)) :
    left q (lot :: lots) = left (q - lot.1) lots := by
  rw [left, if_neg hq.not_ge, if_pos h]

theorem left_cons_of_lt (h : q < lot.1) (lots : List (K × K)) :
    left q (lot :: lots) = (lot.1 - q, lot.2) :: lots := by
  rw [left, if_neg hq.not_ge, if_neg h.not_ge]

theorem cost_cons_of_le (h : lot.1 ≤ q) (lots : List (K × K)) :
    cost q (lot :: lots) = lot.1 * lot.2 + cost (q - lot.1) lots := by
  rw [cost, if_neg hq.not_ge, if_pos h]

theorem cost_cons_of_lt (h : q < lot.1) (lots : List (K × K)) : cost q (lot :: lots) = q * lot.2 := by
  rw [cost, if_neg hq.not_ge, if_neg h.not_ge]

end Cons

/-- Taking the first lot leaves the others. -/
theorem left_first {lot : K × K} (h : 0 < lot.1) (lots : List (K × K)) :
    left lot.1 (lot :: lots) = lots := by
  rw [left_cons_of_le h le_rfl, sub_self, left_of_nonpos le_rfl]

/-- What was taken and what is left are worth what there was. -/
theorem cost_add_value_left (q : K) (lots : List (K × K)) :
    cost q lots + value (left q lots) = value lots := by
  induction lots generalizing q with
  | nil => simp [cost, left, value]
  | cons lot lots ih =>
    simp only [cost, left]
    split_ifs
    · rw [zero_add]
    · rw [add_assoc, ih]
      simp [value]
    · simp only [value, List.map_cons, List.sum_cons]
      ring

/-- What was taken has the prices of the lots. -/
theorem mem_left {lots : List (K × K)} {q : K} {lot : K × K} (h : lot ∈ left q lots) :
    ∃ was ∈ lots, was.2 = lot.2 := by
  induction lots generalizing q with
  | nil => exact absurd h List.not_mem_nil
  | cons first lots ih =>
    rw [left] at h
    split_ifs at h
    · exact ⟨lot, h, rfl⟩
    · obtain ⟨was, hwas, hprice⟩ := ih h
      exact ⟨was, List.mem_cons_of_mem _ hwas, hprice⟩
    · rcases List.mem_cons.1 h with rfl | hmem
      · exact ⟨first, List.mem_cons_self, rfl⟩
      · exact ⟨lot, List.mem_cons_of_mem _ hmem, rfl⟩

theorem length_left_le (q : K) (lots : List (K × K)) : (left q lots).length ≤ lots.length := by
  induction lots generalizing q with
  | nil => exact le_rfl
  | cons lot lots ih =>
    rw [left]
    split_ifs
    · exact le_rfl
    · exact (ih _).trans (Nat.le_succ _)
    · exact le_rfl

variable [IsStrictOrderedRing K]

section Positive
variable {lots : List (K × K)}

theorem Positive.total_nonneg (h : Positive lots) : 0 ≤ total lots := by
  refine List.sum_nonneg fun q hq => ?_
  obtain ⟨lot, hlot, rfl⟩ := List.mem_map.1 hq
  exact (h lot hlot).le

/-- Only the empty stock has no units. -/
theorem Positive.eq_nil (h : Positive lots) (htotal : total lots ≤ 0) : lots = [] := by
  cases lots with
  | nil => rfl
  | cons lot lots =>
    obtain ⟨hlot, hlots⟩ := List.forall_mem_cons.1 h
    have hrest := Positive.total_nonneg hlots
    have hsum : total (lot :: lots) = lot.1 + total lots := List.sum_cons
    linarith

theorem Positive.left (h : Positive lots) (q : K) : Positive (left q lots) := by
  induction lots generalizing q with
  | nil => exact h
  | cons lot lots ih =>
    obtain ⟨hlot, hlots⟩ := List.forall_mem_cons.1 h
    rw [Lots.left]
    split_ifs with hnone hall
    · exact h
    · exact ih hlots _
    · exact List.forall_mem_cons.2 ⟨sub_pos.2 (not_le.1 hall), hlots⟩

/-- Units that are there are taken. -/
theorem Positive.total_left (h : Positive lots) {q : K} (hq : 0 ≤ q) (hle : q ≤ total lots) :
    total (Lots.left q lots) = total lots - q := by
  induction lots generalizing q with
  | nil =>
    have hnone : total ([] : List (K × K)) = 0 := rfl
    rw [Lots.left, hnone]
    linarith
  | cons lot lots ih =>
    obtain ⟨hlot, hlots⟩ := List.forall_mem_cons.1 h
    have hsum : total (lot :: lots) = lot.1 + total lots := List.sum_cons
    rw [Lots.left]
    split_ifs with hnone hall
    · linarith
    · rw [ih hlots (sub_nonneg.2 hall) (by linarith)]
      linarith
    · rw [hsum, show total ((lot.1 - q, lot.2) :: lots) = lot.1 - q + total lots from List.sum_cons]
      ring

/-- Taking in two goes is taking at once. -/
theorem Positive.left_left (h : Positive lots) {q q' : K} (hq : 0 ≤ q) (hq' : 0 ≤ q') :
    Lots.left q' (Lots.left q lots) = Lots.left (q + q') lots := by
  induction lots generalizing q with
  | nil => rfl
  | cons lot lots ih =>
    obtain ⟨hlot, hlots⟩ := List.forall_mem_cons.1 h
    rcases hq.eq_or_lt with rfl | hpos
    · rw [left_of_nonpos le_rfl, zero_add]
    rw [Lots.left, Lots.left, if_neg hpos.not_ge, if_neg (by linarith : ¬ q + q' ≤ 0)]
    by_cases hall : lot.1 ≤ q
    · rw [if_pos hall, if_pos (by linarith), ih hlots (sub_nonneg.2 hall)]
      congr 1
      ring
    · rw [if_neg hall, Lots.left]
      rcases hq'.eq_or_lt with rfl | hpos'
      · rw [if_pos le_rfl, add_zero, if_neg hall]
      rw [if_neg hpos'.not_ge]
      by_cases hboth : lot.1 ≤ q + q'
      · rw [if_pos (by linarith), if_pos hboth]
        congr 1
        ring
      · rw [if_neg (by linarith), if_neg hboth]
        congr 2
        ring

/-- A split costs nothing. -/
theorem Positive.cost_add (h : Positive lots) {q q' : K} (hq : 0 ≤ q) (hq' : 0 ≤ q') :
    cost (q + q') lots = cost q lots + cost q' (Lots.left q lots) := by
  have hwhole := cost_add_value_left (q + q') lots
  have hfirst := cost_add_value_left q lots
  have hsecond := cost_add_value_left q' (Lots.left q lots)
  rw [h.left_left hq hq'] at hsecond
  linarith

end Positive

/-- Units that are there cost something where every lot does. -/
theorem cost_pos {lots : List (K × K)} (h : Positive lots) (hprice : ∀ lot ∈ lots, 0 < lot.2)
    (hne : lots ≠ []) {q : K} (hq : 0 < q) : 0 < cost q lots := by
  induction lots generalizing q with
  | nil => exact absurd rfl hne
  | cons lot lots ih =>
    obtain ⟨hlot, hlots⟩ := List.forall_mem_cons.1 h
    obtain ⟨hone, hrest⟩ := List.forall_mem_cons.1 hprice
    rcases le_or_gt lot.1 q with hall | hsome
    · rw [cost_cons_of_le hq hall]
      have hfirst := mul_pos hlot hone
      rcases hall.eq_or_lt with rfl | hmore
      · rwa [sub_self, cost_of_nonpos le_rfl, add_zero]
      cases lots with
      | nil => simpa [cost] using hfirst
      | cons lot' lots => exact add_pos hfirst (ih hlots hrest (List.cons_ne_nil _ _) (sub_pos.2 hmore))
    · rw [cost_cons_of_lt hq hsome]
      exact mul_pos hq hone

/-! ### Beyond the lots -/

section Beyond
variable (d : K)

/-- What `q` units cost where those beyond the lots cost `d` each. -/
def costOr (q : K) (lots : List (K × K)) : K := cost q lots + max (q - total lots) 0 * d

/-- The price of the next unit. -/
def price : List (K × K) → K
  | [] => d
  | lot :: _ => lot.2

variable {d} {lots lots' : List (K × K)}

/-- Taking all there is leaves nothing. -/
theorem Positive.left_all (h : Positive lots) {q : K} (hle : total lots ≤ q) : Lots.left q lots = [] := by
  induction lots generalizing q with
  | nil => rfl
  | cons lot lots ih =>
    obtain ⟨hlot, hlots⟩ := List.forall_mem_cons.1 h
    have hrest := Positive.total_nonneg hlots
    have hsum : total (lot :: lots) = lot.1 + total lots := List.sum_cons
    rw [left_cons_of_le (by linarith) (by linarith)]
    exact ih hlots (by linarith)

theorem Positive.total_left_max (h : Positive lots) {q : K} (hq : 0 ≤ q) :
    total (Lots.left q lots) = max (total lots - q) 0 := by
  rcases le_total q (total lots) with hle | hle
  · rw [h.total_left hq hle, max_eq_left (sub_nonneg.2 hle)]
  · rw [h.left_all hle, max_eq_right (sub_nonpos.2 hle)]
    rfl

theorem Positive.cost_all (h : Positive lots) {q : K} (hle : total lots ≤ q) : cost q lots = value lots := by
  have hsplit := cost_add_value_left q lots
  rw [h.left_all hle] at hsplit
  simpa [value] using hsplit

theorem Positive.costOr_add (h : Positive lots) {q q' : K} (hq : 0 ≤ q) (hq' : 0 ≤ q') :
    costOr d (q + q') lots = costOr d q lots + costOr d q' (Lots.left q lots) := by
  have hbeyond : max (q + q' - total lots) 0 =
      max (q - total lots) 0 + max (q' - total (Lots.left q lots)) 0 := by
    rw [h.total_left_max hq]
    rcases le_total q (total lots) with hle | hle
    · rw [max_eq_right (sub_nonpos.2 hle), max_eq_left (sub_nonneg.2 hle), zero_add]
      congr 1
      ring
    · rw [max_eq_left (sub_nonneg.2 hle), max_eq_right (sub_nonpos.2 hle), sub_zero, max_eq_left hq',
        max_eq_left (by linarith)]
      ring
  rw [costOr, costOr, costOr, h.cost_add hq hq', hbeyond]
  ring

/-- The next units all have the price of the first, as many as its lot holds. -/
theorem Positive.costOr_next (h : Positive lots) {q : K} (hq : 0 ≤ q)
    (hle : ∀ lot ∈ lots.head?, q ≤ lot.1) : costOr d q lots = q * price d lots := by
  cases lots with
  | nil => simp [costOr, cost, total, price, hq]
  | cons lot lots =>
    obtain ⟨hlot, hlots⟩ := List.forall_mem_cons.1 h
    have hfirst : q ≤ lot.1 := hle lot rfl
    have hrest := Positive.total_nonneg hlots
    have hsum : total (lot :: lots) = lot.1 + total lots := List.sum_cons
    have hnone : max (q - total (lot :: lots)) 0 = 0 := max_eq_right (by linarith)
    rw [costOr, hnone, zero_mul, add_zero]
    rcases hq.eq_or_lt with rfl | hpos
    · rw [cost_of_nonpos le_rfl, zero_mul]
    rcases hfirst.eq_or_lt with rfl | hlt
    · rw [cost_cons_of_le hpos le_rfl, sub_self, cost_of_nonpos le_rfl, add_zero]
      rfl
    · rw [cost_cons_of_lt hpos hlt]
      rfl

/-- Some next units have the price of the first. -/
theorem Positive.next (h : Positive lots) : ∃ r : K, 0 < r ∧ ∀ lot ∈ lots.head?, r ≤ lot.1 := by
  cases lots with
  | nil => exact ⟨1, one_pos, by simp⟩
  | cons lot lots => exact ⟨lot.1, h lot List.mem_cons_self, by simp⟩

omit [IsStrictOrderedRing K] in
/-- Taking the smaller of two first lots leaves fewer lots. -/
theorem Positive.shorter (h : Positive lots) (h' : Positive lots') (hne : lots ≠ [] ∨ lots' ≠ []) :
    ∃ r : K, 0 ≤ r ∧ (∀ lot ∈ lots.head?, r ≤ lot.1) ∧ (∀ lot ∈ lots'.head?, r ≤ lot.1) ∧
      (Lots.left r lots).length + (Lots.left r lots').length < lots.length + lots'.length := by
  -- the stock whose first lot is taken comes first
  have hone : ∀ {lots lots' : List (K × K)} {lot : K × K}, Positive (lot :: lots) →
      (∀ lot' ∈ lots'.head?, lot.1 ≤ lot'.1) → ∃ r : K, 0 ≤ r ∧
        (∀ first ∈ (lot :: lots).head?, r ≤ first.1) ∧ (∀ lot' ∈ lots'.head?, r ≤ lot'.1) ∧
        (Lots.left r (lot :: lots)).length + (Lots.left r lots').length <
          (lot :: lots).length + lots'.length := by
    intro lots lots' lot h hle
    have hlot : 0 < lot.1 := h lot List.mem_cons_self
    refine ⟨lot.1, hlot.le, by simp, hle, ?_⟩
    have hother := length_left_le lot.1 lots'
    rw [left_first hlot, List.length_cons]
    omega
  have hother : (∃ r : K, 0 ≤ r ∧ (∀ lot ∈ lots'.head?, r ≤ lot.1) ∧ (∀ lot ∈ lots.head?, r ≤ lot.1) ∧
      (Lots.left r lots').length + (Lots.left r lots).length < lots'.length + lots.length) →
        ∃ r : K, 0 ≤ r ∧ (∀ lot ∈ lots.head?, r ≤ lot.1) ∧ (∀ lot ∈ lots'.head?, r ≤ lot.1) ∧
          (Lots.left r lots).length + (Lots.left r lots').length < lots.length + lots'.length := by
    rintro ⟨r, hr, hlots', hlots, hlength⟩
    exact ⟨r, hr, hlots, hlots', by omega⟩
  cases lots with
  | nil =>
    cases lots' with
    | nil => simp at hne
    | cons lot' lots' => exact hother (hone h' (by simp))
  | cons lot lots =>
    cases lots' with
    | nil => exact hone h (by simp)
    | cons lot' lots' =>
      rcases le_total lot.1 lot'.1 with hle | hle
      · exact hone h (by simpa using hle)
      · exact hother (hone h' (by simpa using hle))

/-- Stocks whose units have the same prices cost the same up to a first lot, and then as what is left. -/
theorem costOr_eq_of_left (h : Positive lots) (h' : Positive lots') {r : K} (hr : 0 ≤ r)
    (hlots : ∀ lot ∈ lots.head?, r ≤ lot.1) (hlots' : ∀ lot ∈ lots'.head?, r ≤ lot.1)
    (hprice : price d lots = price d lots')
    (hleft : ∀ q, 0 ≤ q → costOr d q (left r lots) = costOr d q (left r lots')) {q : K} (hq : 0 ≤ q) :
    costOr d q lots = costOr d q lots' := by
  rcases le_total q r with hle | hle
  · rw [h.costOr_next hq fun lot hlot => hle.trans (hlots lot hlot),
      h'.costOr_next hq fun lot hlot => hle.trans (hlots' lot hlot), hprice]
  · obtain ⟨q, rfl⟩ : ∃ q', q = r + q' := ⟨q - r, by ring⟩
    have hrest : 0 ≤ q := by linarith
    rw [h.costOr_add hr hrest, h'.costOr_add hr hrest, hleft q hrest,
      h.costOr_next hr hlots, h'.costOr_next hr hlots', hprice]

/-- Two stocks cost the same for every quantity if and only if every unit has the same price. -/
theorem costOr_eq_iff (h : Positive lots) (h' : Positive lots') :
    (∀ q, 0 ≤ q → costOr d q lots = costOr d q lots') ↔
      ∀ q, 0 ≤ q → price d (left q lots) = price d (left q lots') := by
  constructor
  · intro hcost q hq
    obtain ⟨r, hr, hlots⟩ := (h.left q).next
    obtain ⟨r', hr', hlots'⟩ := (h'.left q).next
    have hmin : 0 < min r r' := lt_min hr hr'
    have hsum := hcost (q + min r r') (by linarith)
    rw [h.costOr_add hq hmin.le, h'.costOr_add hq hmin.le, hcost q hq, add_right_inj,
      (h.left q).costOr_next hmin.le fun lot hlot => (min_le_left r r').trans (hlots lot hlot),
      (h'.left q).costOr_next hmin.le fun lot hlot => (min_le_right r r').trans (hlots' lot hlot)] at hsum
    exact mul_left_cancel₀ hmin.ne' hsum
  · intro hprice
    induction hn : lots.length + lots'.length using Nat.strong_induction_on generalizing lots lots' with
    | _ n ih =>
      have hfirst : price d lots = price d lots' := by
        simpa only [left_of_nonpos le_rfl] using hprice 0 le_rfl
      by_cases hne : lots ≠ [] ∨ lots' ≠ []
      · obtain ⟨r, hr, hlots, hlots', hlength⟩ := h.shorter h' hne
        have hleft : ∀ q, 0 ≤ q → costOr d q (left r lots) = costOr d q (left r lots') := by
          refine ih _ (hn ▸ hlength) (h.left r) (h'.left r) (fun q hq => ?_) rfl
          rw [h.left_left hr hq, h'.left_left hr hq]
          exact hprice _ (add_nonneg hr hq)
        exact fun q hq => costOr_eq_of_left h h' hr hlots hlots' hfirst hleft hq
      · simp only [not_or, not_not] at hne
        obtain ⟨rfl, rfl⟩ := hne
        exact fun q _ => rfl

end Beyond

/-! ### The lots that remain -/

/-- The lots are the last of those there were, at their prices and with no more in them. -/
def Remain (lots were : List (K × K)) : Prop :=
  ∃ used rest, were = used ++ rest ∧
    List.Forall₂ (fun lot was => lot.2 = was.2 ∧ lot.1 ≤ was.1) lots rest

omit [Field K] [IsStrictOrderedRing K] in
theorem Remain.refl (lots : List (K × K)) : Remain lots lots :=
  ⟨[], lots, rfl, List.forall₂_same.2 fun _ _ => ⟨rfl, le_rfl⟩⟩

omit [Field K] [IsStrictOrderedRing K] in
/-- A new lot goes to the end. -/
theorem Remain.concat {lots were : List (K × K)} (h : Remain lots were) (lot : K × K) :
    Remain (lots ++ [lot]) (were ++ [lot]) := by
  obtain ⟨used, rest, rfl, hrest⟩ := h
  exact ⟨used, rest ++ [lot], List.append_assoc .., List.rel_append hrest (.cons ⟨rfl, le_rfl⟩ .nil)⟩

theorem Remain.left {lots were : List (K × K)} (h : Remain lots were) (hlots : Positive lots) (q : K) :
    Remain (left q lots) were := by
  induction lots generalizing were q with
  | nil => exact h
  | cons lot lots ih =>
    obtain ⟨used, rest, rfl, hrest⟩ := h
    obtain ⟨was, rest, ⟨hprice, hunits⟩, htail, rfl⟩ := List.forall₂_cons_left_iff.1 hrest
    rw [Lots.left]
    split_ifs with hnone hall
    · exact ⟨used, was :: rest, rfl, hrest⟩
    · -- the first lot is used up
      obtain ⟨used', rest', heq, hrest'⟩ :=
        ih ⟨[], rest, rfl, htail⟩ (List.forall_mem_cons.1 hlots).2 (q - lot.1)
      rw [List.nil_append] at heq
      exact ⟨used ++ was :: used', rest', by rw [heq, List.append_assoc, List.cons_append], hrest'⟩
    · refine ⟨used, was :: rest, rfl, .cons ⟨hprice, ?_⟩ htail⟩
      simp only
      linarith

end Lots
