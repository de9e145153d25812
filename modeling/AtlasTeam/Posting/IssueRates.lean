import AtlasTeam.Posting.Engine
import AtlasTeam.Posting.Fifo
import AtlasTeam.Posting.Rounding

/-!
# What an issue costs (`posting/stock.rs`)

Three questions about `issue_rate` over the ledger of a pair. Issuing all that is on hand at the moving
average leaves a value of at most half a cent and half a cent a unit (`issue_all_residue`): however often
a rate was rounded before, only the last rounding counts. An issue costs something if and only if the
stock's value is half a cent a unit or, for FIFO, the layers make up for it (`issueRate_pos_iff`). And a
voucher that is submitted and cancelled leaves the balance and the moving average as they were, while its
reversals join the FIFO layers as any rows do (`cancelled_voucher_costs`).
-/

namespace AtlasTeam

section Ledger
variable {prior : List LedgerRow} {qty : ℚ}

theorem computeBalance_valuationRate (rows : List LedgerRow) :
    (computeBalance rows).valuationRate =
      if round3 (qtyOnHand rows) ≠ 0 then round2 (round2 (ledgerValue rows) / round3 (qtyOnHand rows))
      else 0 := rfl

theorem issueRate_fifo (hqty : 0 < qty) : issueRate prior qty (some fifo) = fifoRate prior qty := by
  rw [issueRate, if_neg hqty.not_ge, if_pos rfl]

theorem issueRate_average {method : Option String} (hqty : 0 < qty) (hmethod : method ≠ some fifo) :
    issueRate prior qty method = (computeBalance prior).valuationRate := by
  rw [issueRate, if_neg hqty.not_ge, if_neg hmethod]

/-! ### The residue of the moving average -/

/-- Issuing all that is on hand at the moving average leaves no quantity, and no more value than the
rounding of the stock value and of the rate. -/
theorem issue_all_residue (hpos : 0 < qtyOnHand prior)
    (hplaces : ∃ n : ℤ, qtyOnHand prior = n / 1000) :
    let qty := qtyOnHand prior
    let issued := prior ++ [⟨-qty, issueRate prior qty none⟩]
    qtyOnHand issued = 0 ∧ |ledgerValue issued| ≤ 5 / 1000 * qty + 5 / 1000 := by
  intro qty issued
  have hthousandths : round3 qty = qty := by
    obtain ⟨n, hn⟩ := hplaces
    rw [show qty = n / 1000 from hn, round3_of_thousandths]
  have hrate : issueRate prior qty none = round2 (round2 (ledgerValue prior) / qty) := by
    have hne : round3 (qtyOnHand prior) ≠ 0 := hthousandths.trans_ne hpos.ne'
    rw [issueRate_average hpos (by decide), computeBalance_valuationRate, if_pos hne]
    exact congrArg (fun q => round2 (round2 (ledgerValue prior) / q)) hthousandths
  refine ⟨?_, ?_⟩
  · rw [qtyOnHand_concat]
    exact add_neg_cancel qty
  · have hvalue := abs_sub_round2_le (ledgerValue prior)
    have hunit := abs_sub_round2_le (round2 (ledgerValue prior) / qty)
    -- the value was off by its own rounding, and by the rate's for every unit
    have hsplit : ledgerValue issued = (ledgerValue prior - round2 (ledgerValue prior)) +
        qty * (round2 (ledgerValue prior) / qty - issueRate prior qty none) := by
      rw [ledgerValue_concat, mul_sub, mul_div_cancel₀ _ hpos.ne']
      ring
    rw [hsplit, hrate]
    calc |(ledgerValue prior - round2 (ledgerValue prior)) +
          qty * (round2 (ledgerValue prior) / qty - round2 (round2 (ledgerValue prior) / qty))|
        ≤ 1 / 200 + qty * (1 / 200) := by
          refine (abs_add_le _ _).trans (add_le_add hvalue ?_)
          rw [abs_mul, abs_of_pos hpos]
          exact mul_le_mul_of_nonneg_left hunit hpos.le
      _ = 5 / 1000 * qty + 5 / 1000 := by ring

/-- Three at 3.333 and an issue of one at the rounded rate: 6.67 for the two that are left. -/
theorem issue_all_residue_two :
    let prior : List LedgerRow := [⟨3, 3333 / 1000⟩, ⟨-1, 333 / 100⟩]
    |ledgerValue (prior ++ [⟨-qtyOnHand prior, issueRate prior (qtyOnHand prior) none⟩])| ≤ 15 / 1000 := by
  intro prior
  have hqty : qtyOnHand prior = 2 := by decide +kernel
  have hresidue := (@issue_all_residue prior (by rw [hqty]; norm_num)
    ⟨2000, by rw [hqty]; norm_num⟩).2
  refine hresidue.trans (le_of_eq ?_)
  rw [hqty]
  norm_num

/-! ### Issues that cost nothing -/

/-- The stock on hand is worth at least half a cent a unit; where the books are below zero, both
quantity and value are. -/
def AverageCosts (rows : List LedgerRow) : Prop :=
  (0 < round3 (qtyOnHand rows) ∧ round3 (qtyOnHand rows) / 200 ≤ round2 (ledgerValue rows)) ∨
  (round3 (qtyOnHand rows) < 0 ∧ round2 (ledgerValue rows) ≤ round3 (qtyOnHand rows) / 200)

/-- An issue meets a cost: the stock's average or, for a FIFO item, layers that cover it or that are worth
more than an average below zero takes off for what they lack. -/
def MeetsCost (prior : List LedgerRow) (qty : ℚ) (method : Option String) : Prop :=
  AverageCosts prior ∨ method = some fifo ∧
    (qty ≤ Lots.total (lotsOf prior) ∨
      (qty - Lots.total (lotsOf prior)) * -(computeBalance prior).valuationRate <
        Lots.value (lotsOf prior))

theorem valuationRate_pos_iff (rows : List LedgerRow) :
    0 < (computeBalance rows).valuationRate ↔ AverageCosts rows := by
  rw [computeBalance_valuationRate, AverageCosts]
  rcases lt_trichotomy (round3 (qtyOnHand rows)) 0 with hneg | hzero | hpos
  · rw [if_pos hneg.ne, round2_pos_iff, le_div_iff_of_neg hneg]
    simp only [hneg.not_gt, false_and, hneg, true_and, false_or]
    rw [one_div_mul_eq_div]
  · simp [hzero]
  · rw [if_pos hpos.ne', round2_pos_iff, le_div_iff₀ hpos]
    simp only [hpos.not_gt, false_and, hpos, true_and, or_false]
    rw [one_div_mul_eq_div]

/-- The layers have the rates of receipts. -/
theorem lotsOf_rates {rows : List LedgerRow} {lot : ℚ × ℚ} (h : lot ∈ lotsOf rows) :
    ∃ row ∈ rows, row.valuationRate = lot.2 := by
  induction rows using List.reverseRecOn generalizing lot with
  | nil => exact absurd h List.not_mem_nil
  | append_singleton rows row ih =>
    obtain ⟨qty, rate⟩ := row
    have hearlier : ∀ lot ∈ lotsOf rows, ∃ row ∈ rows ++ [⟨qty, rate⟩], row.valuationRate = lot.2 := by
      intro lot hlot
      obtain ⟨row, hrow, hrate⟩ := ih hlot
      exact ⟨row, List.mem_append_left _ hrow, hrate⟩
    rcases lt_or_ge 0 qty with hpos | hneg
    · rw [lotsOf_receipt rows hpos] at h
      rcases List.mem_append.1 h with hlot | hlot
      · exact hearlier lot hlot
      · obtain rfl := List.mem_singleton.1 hlot
        exact ⟨_, List.mem_append_right _ List.mem_cons_self, rfl⟩
    · have hissue := lotsOf_issue rows (neg_nonneg.2 hneg) rate
      rw [neg_neg] at hissue
      rw [hissue] at h
      obtain ⟨was, hwas, hprice⟩ := Lots.mem_left h
      obtain ⟨row, hrow, hrate⟩ := hearlier was hwas
      exact ⟨row, hrow, hrate.trans hprice⟩

theorem fifoRate_pos_iff (hrates : ∀ row ∈ prior, 1 / 100 ≤ row.valuationRate) (hqty : 0 < qty) :
    0 < fifoRate prior qty ↔ MeetsCost prior qty (some fifo) := by
  have hpositive := lotsOf_positive prior
  have hprices : ∀ lot ∈ lotsOf prior, 0 < lot.2 := by
    intro lot hlot
    obtain ⟨row, hrow, hrate⟩ := lotsOf_rates hlot
    have hcent := hrates row hrow
    rw [← hrate]
    linarith
  have hsign : 0 < fifoRate prior qty ↔
      0 < Lots.costOr (computeBalance prior).valuationRate qty (lotsOf prior) := by
    rw [← mul_fifoRate_or prior hqty, mul_pos_iff_of_pos_left hqty]
  rw [hsign, MeetsCost]
  rcases le_or_gt qty (Lots.total (lotsOf prior)) with hle | hmore
  · have hne : lotsOf prior ≠ [] := by
      intro hnone
      rw [hnone] at hle
      exact absurd hle hqty.not_ge
    have hcost := Lots.cost_pos hpositive hprices hne hqty
    rw [Lots.costOr, max_eq_right (sub_nonpos.2 hle), zero_mul, add_zero]
    exact ⟨fun _ => .inr ⟨rfl, .inl hle⟩, fun _ => hcost⟩
  · have hlack : 0 < qty - Lots.total (lotsOf prior) := sub_pos.2 hmore
    have hvalue : 0 ≤ Lots.value (lotsOf prior) := by
      refine List.sum_nonneg fun worth hworth => ?_
      obtain ⟨lot, hlot, rfl⟩ := List.mem_map.1 hworth
      exact (mul_pos (hpositive lot hlot) (hprices lot hlot)).le
    rw [Lots.costOr, hpositive.cost_all hmore.le, max_eq_left hlack.le]
    constructor
    · intro hcost
      exact .inr ⟨rfl, .inr (by linarith)⟩
    · rintro (haverage | ⟨-, hcovered | hmade⟩)
      · have hshort := mul_pos hlack ((valuationRate_pos_iff prior).2 haverage)
        linarith
      · exact absurd hcovered hmore.not_ge
      · linarith

/-- An issue is valued above zero if and only if it meets a cost. -/
theorem issueRate_pos_iff (hrates : ∀ row ∈ prior, 1 / 100 ≤ row.valuationRate) (hqty : 0 < qty)
    (method : Option String) : 0 < issueRate prior qty method ↔ MeetsCost prior qty method := by
  by_cases hmethod : method = some fifo
  · rw [hmethod, issueRate_fifo hqty, fifoRate_pos_iff hrates hqty]
  · rw [issueRate_average hqty hmethod, valuationRate_pos_iff, MeetsCost]
    simp [hmethod]

/-- Two at 4 and an issue of three: the third is costed at the average of 4. -/
theorem issueRate_pos_iff_short : 0 < issueRate [⟨2, 4⟩] 3 (some fifo) :=
  (issueRate_pos_iff (by decide +kernel) (by decide) _).2 (.inl (.inl ⟨by decide +kernel, by decide +kernel⟩))

/-- Once the stock is used up, the next issue is valued at zero, whatever the method. -/
theorem issue_after_last_unit :
    let prior : List LedgerRow := [⟨1, 5⟩, ⟨-1, 5⟩]
    (∀ row ∈ prior, 1 / 100 ≤ row.valuationRate) ∧ (∃ row ∈ prior, 0 < row.qtyChange) ∧
      issueRate prior 1 none = 0 ∧ issueRate prior 1 (some fifo) = 0 := by
  decide +kernel

end Ledger

/-! ### A voucher that is cancelled -/

/-- A cancel's row for a stored row. -/
def LedgerRow.reversed (row : LedgerRow) : LedgerRow := { row with qtyChange := -row.qtyChange }

def LedgerRow.lot (row : LedgerRow) : ℚ × ℚ := (row.qtyChange, row.valuationRate)

theorem StockLedgerEntry.reversal_row (batchId : String) (sle : StockLedgerEntry) :
    (sle.reversal batchId).row = sle.row.reversed := rfl

section Cancelled
variable (prior : List LedgerRow) {rows : List LedgerRow}

theorem qtyOnHand_append (rows rows' : List LedgerRow) :
    qtyOnHand (rows ++ rows') = qtyOnHand rows + qtyOnHand rows' := by
  simp [qtyOnHand]

theorem ledgerValue_append (rows rows' : List LedgerRow) :
    ledgerValue (rows ++ rows') = ledgerValue rows + ledgerValue rows' := by
  simp [ledgerValue]

theorem qtyOnHand_reversed (rows : List LedgerRow) :
    qtyOnHand (rows.map LedgerRow.reversed) = -qtyOnHand rows := by
  induction rows with
  | nil => simp [qtyOnHand]
  | cons row rows ih =>
    simp only [qtyOnHand, List.map_cons, List.sum_cons] at ih ⊢
    rw [ih, LedgerRow.reversed, neg_add]

theorem ledgerValue_reversed (rows : List LedgerRow) :
    ledgerValue (rows.map LedgerRow.reversed) = -ledgerValue rows := by
  induction rows with
  | nil => simp [ledgerValue]
  | cons row rows ih =>
    simp only [ledgerValue, List.map_cons, List.sum_cons] at ih ⊢
    rw [ih, LedgerRow.reversed, neg_add, neg_mul]

/-- The balance is that of before the voucher. -/
theorem computeBalance_cancelled (rows : List LedgerRow) :
    computeBalance (prior ++ rows ++ rows.map LedgerRow.reversed) = computeBalance prior := by
  have hqty : qtyOnHand (prior ++ rows ++ rows.map LedgerRow.reversed) = qtyOnHand prior := by
    rw [qtyOnHand_append, qtyOnHand_append, qtyOnHand_reversed]
    ring
  have hvalue : ledgerValue (prior ++ rows ++ rows.map LedgerRow.reversed) = ledgerValue prior := by
    rw [ledgerValue_append, ledgerValue_append, ledgerValue_reversed]
    ring
  have hsums : ∀ rows, computeBalance rows =
      { actualQty := round3 (qtyOnHand rows)
        valuationRate :=
          if round3 (qtyOnHand rows) ≠ 0 then round2 (round2 (ledgerValue rows) / round3 (qtyOnHand rows))
          else 0
        stockValue := round2 (ledgerValue rows) } := fun _ => rfl
  rw [hsums, hsums prior, hqty, hvalue]

/-- Receipts are the last layers, in their order. -/
theorem lotsOf_receipts (h : ∀ row ∈ rows, 0 < row.qtyChange) :
    lotsOf (prior ++ rows) = lotsOf prior ++ rows.map LedgerRow.lot := by
  induction rows generalizing prior with
  | nil => simp
  | cons row rows ih =>
    obtain ⟨hrow, hrows⟩ := List.forall_mem_cons.1 h
    rw [List.append_cons, ih _ hrows, lotsOf_receipt prior hrow, List.append_assoc]
    rfl

/-- Issues take their quantities off the front at once. -/
theorem lotsOf_issues (h : ∀ row ∈ rows, row.qtyChange < 0) :
    lotsOf (prior ++ rows) = Lots.left (-qtyOnHand rows) (lotsOf prior) := by
  induction rows generalizing prior with
  | nil => simp [qtyOnHand, Lots.left_of_nonpos le_rfl]
  | cons row rows ih =>
    obtain ⟨hrow, hrows⟩ := List.forall_mem_cons.1 h
    have hfirst := lotsOf_issue prior (neg_pos.2 hrow).le row.valuationRate
    rw [neg_neg] at hfirst
    have hrest : 0 ≤ -qtyOnHand rows := by
      rw [← qtyOnHand_reversed]
      refine List.sum_nonneg fun qty hqty => ?_
      obtain ⟨reversal, hreversal, rfl⟩ := List.mem_map.1 hqty
      obtain ⟨row, hrow, rfl⟩ := List.mem_map.1 hreversal
      exact (neg_pos.2 (hrows row hrow)).le
    have hsum : -qtyOnHand (row :: rows) = -row.qtyChange + -qtyOnHand rows := by
      rw [qtyOnHand, List.map_cons, List.sum_cons, neg_add]
      rfl
    rw [List.append_cons, ih _ hrows, hfirst, (lotsOf_positive prior).left_left (neg_pos.2 hrow).le hrest,
      hsum]

/-- FIFO issues from two ledgers of the same average cost the same if and only if each unit does. -/
theorem fifo_rates_eq_iff {ledger : List LedgerRow}
    (haverage : (computeBalance ledger).valuationRate = (computeBalance prior).valuationRate) :
    (∀ qty, 0 < qty → issueRate ledger qty (some fifo) = issueRate prior qty (some fifo)) ↔
      ∀ x, 0 ≤ x → Lots.price (computeBalance prior).valuationRate (Lots.left x (lotsOf ledger)) =
        Lots.price (computeBalance prior).valuationRate (Lots.left x (lotsOf prior)) := by
  rw [← Lots.costOr_eq_iff (lotsOf_positive ledger) (lotsOf_positive prior)]
  constructor
  · intro hrates qty hqty
    rcases hqty.eq_or_lt with rfl | hpos
    · have hnone : ∀ rows, Lots.costOr (computeBalance prior).valuationRate 0 (lotsOf rows) = 0 := by
        intro rows
        rw [Lots.costOr, Lots.cost_of_nonpos le_rfl, zero_sub,
          max_eq_right (neg_nonpos.2 (lotsOf_positive rows).total_nonneg), zero_mul, add_zero]
      rw [hnone, hnone]
    · have hrate := hrates qty hpos
      rw [issueRate_fifo hpos, issueRate_fifo hpos] at hrate
      rw [← mul_fifoRate_or prior hpos, ← haverage, ← mul_fifoRate_or ledger hpos, hrate]
  · intro hcosts qty hqty
    have hcost := hcosts qty hqty.le
    rw [← mul_fifoRate_or prior hqty, ← haverage, ← mul_fifoRate_or ledger hqty] at hcost
    rw [issueRate_fifo hqty, issueRate_fifo hqty, mul_left_cancel₀ hqty.ne' hcost]

/-- A voucher that is submitted and cancelled leaves the balance and the moving average as they were. Later
FIFO issues cost what they would have if and only if the layers have the same prices unit by unit: a cancelled
receipt takes as much off the front of the layers with its own at the end, and a cancelled issue is a layer
at the end at the rate it was issued at. -/
theorem cancelled_voucher_costs (rows : List LedgerRow) :
    let ledger := prior ++ rows ++ rows.map LedgerRow.reversed
    let average := (computeBalance prior).valuationRate
    computeBalance ledger = computeBalance prior ∧
    (∀ qty method, method ≠ some fifo → issueRate ledger qty method = issueRate prior qty method) ∧
    ((∀ qty, 0 < qty → issueRate ledger qty (some fifo) = issueRate prior qty (some fifo)) ↔
      ∀ x, 0 ≤ x → Lots.price average (Lots.left x (lotsOf ledger)) =
        Lots.price average (Lots.left x (lotsOf prior))) ∧
    ((∀ row ∈ rows, 0 < row.qtyChange) →
      lotsOf ledger = Lots.left (qtyOnHand rows) (lotsOf prior ++ rows.map LedgerRow.lot)) ∧
    ((∀ row ∈ rows, row.qtyChange < 0) →
      lotsOf ledger = Lots.left (-qtyOnHand rows) (lotsOf prior) ++
        rows.map fun row => row.reversed.lot) := by
  intro ledger average
  have hbalance := computeBalance_cancelled prior rows
  refine ⟨hbalance, fun qty method hmethod => ?_, fifo_rates_eq_iff prior (by rw [hbalance]), ?_, ?_⟩
  · rcases le_or_gt qty 0 with hnone | hpos
    · rw [issueRate, issueRate, if_pos hnone, if_pos hnone]
    · rw [issueRate_average hpos hmethod, issueRate_average hpos hmethod, hbalance]
  · intro hreceipts
    have hreversed : ∀ row ∈ rows.map LedgerRow.reversed, row.qtyChange < 0 := by
      intro row hrow
      obtain ⟨receipt, hreceipt, rfl⟩ := List.mem_map.1 hrow
      exact neg_neg_iff_pos.2 (hreceipts receipt hreceipt)
    rw [lotsOf_issues _ hreversed, lotsOf_receipts _ hreceipts, qtyOnHand_reversed, neg_neg]
  · intro hissues
    have hreversed : ∀ row ∈ rows.map LedgerRow.reversed, 0 < row.qtyChange := by
      intro row hrow
      obtain ⟨issue, hissue, rfl⟩ := List.mem_map.1 hrow
      exact neg_pos.2 (hissues issue hissue)
    rw [lotsOf_receipts _ hreversed, lotsOf_issues _ hissues, List.map_map]
    rfl

/-- An issue of the ten at 5 that is cancelled: they are behind the ten at 7 then. -/
theorem cancelled_voucher_costs_issue :
    let prior : List LedgerRow := [⟨10, 5⟩, ⟨10, 7⟩]
    let rows : List LedgerRow := [⟨-10, issueRate prior 10 (some fifo)⟩]
    lotsOf (prior ++ rows ++ rows.map LedgerRow.reversed) = [(10, 7), (10, 5)] := by
  intro prior rows
  rw [(cancelled_voucher_costs prior rows).2.2.2.2 (by decide)]
  decide +kernel

/-- Before the ten were issued and returned the next unit cost 5, and after it costs 7. -/
theorem cancelled_issue_dearer :
    let prior : List LedgerRow := [⟨10, 5⟩, ⟨10, 7⟩]
    let rows : List LedgerRow := [⟨-10, issueRate prior 10 (some fifo)⟩]
    issueRate prior 1 (some fifo) = 5 ∧
      issueRate (prior ++ rows ++ rows.map LedgerRow.reversed) 1 (some fifo) = 7 := by
  decide +kernel

end Cancelled

end AtlasTeam
