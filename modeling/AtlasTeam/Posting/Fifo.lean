import AtlasTeam.Lib.Lots
import AtlasTeam.Posting.Costing

/-!
# FIFO costing (`posting/stock.rs`)

The layers of a pair are lots, the replay of its ledger and the consuming loop of `fifo_rate` both take
units off the front (`consumeOldest_lots`, `takeLayers_eq`). So the rows of a ledger whose issues carry their
FIFO rate are worth its layers (`fifo_value_in_layers`), and splitting an issue over several lines of a
voucher does not change its cost (`split_issue_cost`).
-/

namespace AtlasTeam

def Layer.lot (layer : Layer) : ℚ × ℚ := (layer.qty, layer.rate)

/-- The layers of a ledger as lots. -/
def lotsOf (rows : List LedgerRow) : List (ℚ × ℚ) := (remainingLayers rows).map Layer.lot

/-! ### Both loops take from the front -/

theorem consumeOldest_lots (q : ℚ) (layers : List Layer) :
    (consumeOldest q layers).map Layer.lot = Lots.left q (layers.map Layer.lot) := by
  induction layers generalizing q with
  | nil => rfl
  | cons layer layers ih =>
    rw [consumeOldest, List.map_cons]
    rcases le_or_gt q 0 with hnone | hpos
    · rw [if_pos hnone, Lots.left_of_nonpos hnone]
      rfl
    rw [if_neg hpos.not_ge]
    rcases le_or_gt layer.qty q with hall | hsome
    · rw [if_pos hall, Lots.left_cons_of_le hpos hall]
      exact ih _
    · rw [if_neg hsome.not_ge, Lots.left_cons_of_lt hpos hsome]
      rfl

/-- The consuming loop of `fifo_rate` on layers that hold enough. -/
theorem takeLayers_eq {layers : List Layer} (h : Lots.Positive (layers.map Layer.lot)) {need : ℚ}
    (hneed : 0 ≤ need) (hle : need ≤ Lots.total (layers.map Layer.lot)) (cost taken : ℚ) :
    takeLayers layers (need, cost, taken) =
      (0, cost + Lots.cost need (layers.map Layer.lot), taken + need) := by
  induction layers generalizing need cost taken with
  | nil =>
    obtain rfl : need = 0 := le_antisymm hle hneed
    simp [takeLayers, Lots.cost]
  | cons layer layers ih =>
    obtain ⟨hlayer, hlayers⟩ := List.forall_mem_cons.1 h
    have htotal : Lots.total ((layer :: layers).map Layer.lot) =
        layer.qty + Lots.total (layers.map Layer.lot) := List.sum_cons
    rw [takeLayers, List.map_cons]
    rcases hneed.eq_or_lt with rfl | hpos
    · rw [if_pos le_rfl, Lots.cost_of_nonpos le_rfl, add_zero, add_zero]
    rw [if_neg hpos.not_ge]
    rcases le_or_gt layer.qty need with hall | hsome
    · simp only [if_pos hall, le_refl, if_true]
      have hcost := @Lots.cost_cons_of_le _ _ _ _ layer.lot hpos hall (layers.map Layer.lot)
      have hlot : layer.lot.1 * layer.lot.2 = layer.qty * layer.rate := rfl
      rw [ih hlayers (sub_nonneg.2 hall) (by linarith), hcost, hlot, add_assoc, add_assoc, add_sub_cancel]
      rfl
    · simp only [if_neg hsome.not_ge, sub_self]
      have hcost := @Lots.cost_cons_of_lt _ _ _ _ layer.lot hpos hsome (layers.map Layer.lot)
      rw [hcost]
      rfl

/-- The consuming loop of `fifo_rate` on layers that hold no more than what is needed. -/
theorem takeLayers_all {layers : List Layer} (h : Lots.Positive (layers.map Layer.lot)) {need : ℚ}
    (hle : Lots.total (layers.map Layer.lot) ≤ need) (cost taken : ℚ) :
    takeLayers layers (need, cost, taken) =
      (need - Lots.total (layers.map Layer.lot), cost + Lots.value (layers.map Layer.lot),
        taken + Lots.total (layers.map Layer.lot)) := by
  induction layers generalizing need cost taken with
  | nil => simp [takeLayers, Lots.total, Lots.value]
  | cons layer layers ih =>
    obtain ⟨hlayer, hlayers⟩ := List.forall_mem_cons.1 h
    have hpos : 0 < layer.qty := hlayer
    have hrest := Lots.Positive.total_nonneg hlayers
    have htotal : Lots.total ((layer :: layers).map Layer.lot) =
        layer.qty + Lots.total (layers.map Layer.lot) := List.sum_cons
    have hvalue : Lots.value ((layer :: layers).map Layer.lot) =
        layer.qty * layer.rate + Lots.value (layers.map Layer.lot) := List.sum_cons
    rw [takeLayers, if_neg (by linarith : ¬ need ≤ 0)]
    simp only [if_pos (by linarith : layer.qty ≤ need), le_refl, if_true]
    rw [ih hlayers (by linarith), htotal, hvalue]
    ring_nf

theorem remainingLayers_concat (rows : List LedgerRow) (row : LedgerRow) :
    remainingLayers (rows ++ [row]) = foldLayer (remainingLayers rows) row := by
  rw [remainingLayers, List.foldl_append]
  rfl

/-- A receipt is the last lot. -/
theorem lotsOf_receipt (rows : List LedgerRow) {qty : ℚ} (hqty : 0 < qty) (rate : ℚ) :
    lotsOf (rows ++ [⟨qty, rate⟩]) = lotsOf rows ++ [(qty, rate)] := by
  rw [lotsOf, remainingLayers_concat, foldLayer, if_pos hqty, List.map_append]
  rfl

/-- An issue takes from the front. -/
theorem lotsOf_issue (rows : List LedgerRow) {qty : ℚ} (hqty : 0 ≤ qty) (rate : ℚ) :
    lotsOf (rows ++ [⟨-qty, rate⟩]) = Lots.left qty (lotsOf rows) := by
  rw [lotsOf, remainingLayers_concat, foldLayer, if_neg (by simpa using hqty)]
  rcases hqty.eq_or_lt with rfl | hpos
  · rw [if_neg (by simp), Lots.left_of_nonpos le_rfl]
    rfl
  · rw [if_pos (by simpa using hpos), neg_neg, consumeOldest_lots]
    rfl

/-- Whatever the ledger, its layers hold something. -/
theorem lotsOf_positive (rows : List LedgerRow) : Lots.Positive (lotsOf rows) := by
  induction rows using List.reverseRecOn with
  | nil => exact fun lot hlot => absurd hlot List.not_mem_nil
  | append_singleton rows row ih =>
    obtain ⟨qty, rate⟩ := row
    rcases lt_or_ge 0 qty with hpos | hneg
    · rw [lotsOf_receipt rows hpos]
      exact List.forall_mem_append.2 ⟨ih, List.forall_mem_singleton.2 hpos⟩
    · have hissue := lotsOf_issue rows (neg_nonneg.2 hneg) rate
      rw [neg_neg] at hissue
      rw [hissue]
      exact ih.left _

/-- The FIFO cost of units that are there. -/
theorem mul_fifoRate {rows : List LedgerRow} {qty : ℚ} (hqty : 0 ≤ qty)
    (hle : qty ≤ Lots.total (lotsOf rows)) : qty * fifoRate rows qty = Lots.cost qty (lotsOf rows) := by
  have htaken := takeLayers_eq (lotsOf_positive rows) hqty hle 0 0
  rcases hqty.eq_or_lt with rfl | hpos
  · rw [zero_mul, Lots.cost_of_nonpos le_rfl]
  · simp only [fifoRate, htaken, lt_irrefl, if_false, zero_add, if_pos hpos]
    rw [mul_div_cancel₀ _ hpos.ne']
    rfl

/-- The FIFO cost of any units: those the layers lack are costed at the moving average. -/
theorem mul_fifoRate_or (rows : List LedgerRow) {qty : ℚ} (hqty : 0 < qty) :
    qty * fifoRate rows qty =
      Lots.costOr (computeBalance rows).valuationRate qty (lotsOf rows) := by
  have hpositive := lotsOf_positive rows
  rcases le_or_gt qty (Lots.total (lotsOf rows)) with hle | hmore
  · rw [mul_fifoRate hqty.le hle, Lots.costOr, max_eq_right (sub_nonpos.2 hle), zero_mul, add_zero]
  · have htaken : takeLayers (remainingLayers rows) (qty, 0, 0) =
        (qty - Lots.total (lotsOf rows), 0 + Lots.value (lotsOf rows), 0 + Lots.total (lotsOf rows)) :=
      takeLayers_all hpositive hmore.le 0 0
    simp only [fifoRate, htaken, zero_add, sub_pos, if_pos hmore, add_sub_cancel, if_pos hqty]
    rw [mul_div_cancel₀ _ hqty.ne', Lots.costOr, hpositive.cost_all hmore.le,
      max_eq_left (sub_nonneg.2 hmore.le)]

/-! ### The value of a ledger -/

def qtyOnHand (rows : List LedgerRow) : ℚ := (rows.map LedgerRow.qtyChange).sum

def ledgerValue (rows : List LedgerRow) : ℚ :=
  (rows.map fun row => row.qtyChange * row.valuationRate).sum

/-- A ledger of receipts at any rate, and of issues of what is on hand at their FIFO rate. -/
inductive FifoLedger : List LedgerRow → Prop
  | nil : FifoLedger []
  | receipt {rows : List LedgerRow} (h : FifoLedger rows) {qty : ℚ} (hqty : 0 < qty) (rate : ℚ) :
      FifoLedger (rows ++ [⟨qty, rate⟩])
  | issue {rows : List LedgerRow} (h : FifoLedger rows) {qty : ℚ} (hqty : 0 ≤ qty)
      (hle : qty ≤ qtyOnHand rows) : FifoLedger (rows ++ [⟨-qty, fifoRate rows qty⟩])

theorem qtyOnHand_concat (rows : List LedgerRow) (row : LedgerRow) :
    qtyOnHand (rows ++ [row]) = qtyOnHand rows + row.qtyChange := by
  simp [qtyOnHand]

theorem ledgerValue_concat (rows : List LedgerRow) (row : LedgerRow) :
    ledgerValue (rows ++ [row]) = ledgerValue rows + row.qtyChange * row.valuationRate := by
  simp [ledgerValue]

section Ledger
variable {rows : List LedgerRow}

theorem FifoLedger.qtyOnHand_eq (h : FifoLedger rows) : qtyOnHand rows = Lots.total (lotsOf rows) := by
  induction h with
  | nil => rfl
  | receipt _ hqty rate ih =>
    rw [qtyOnHand_concat, lotsOf_receipt _ hqty, Lots.total_append, ih]
    simp [Lots.total]
  | issue _ hqty hle ih =>
    rw [qtyOnHand_concat, lotsOf_issue _ hqty, (lotsOf_positive _).total_left hqty (ih ▸ hle), ih]
    ring

theorem FifoLedger.value_eq (h : FifoLedger rows) : ledgerValue rows = Lots.value (lotsOf rows) := by
  induction h with
  | nil => rfl
  | receipt _ hqty rate ih =>
    rw [ledgerValue_concat, lotsOf_receipt _ hqty, Lots.value_append, ih]
    simp [Lots.value]
  | @issue rows hledger qty hqty hle ih =>
    have hcost := mul_fifoRate hqty (hledger.qtyOnHand_eq ▸ hle)
    have hleft := Lots.cost_add_value_left qty (lotsOf rows)
    rw [ledgerValue_concat, lotsOf_issue _ hqty, ih]
    simp only [neg_mul]
    linarith

/-- The receipts of a ledger as lots. -/
def receiptsOf (rows : List LedgerRow) : List (ℚ × ℚ) :=
  (rows.filter fun row => 0 < row.qtyChange).map fun row => (row.qtyChange, row.valuationRate)

theorem FifoLedger.remain (h : FifoLedger rows) : Lots.Remain (lotsOf rows) (receiptsOf rows) := by
  induction h with
  | nil => exact Lots.Remain.refl _
  | @receipt rows _ qty hqty rate ih =>
    have hreceipts : receiptsOf (rows ++ [⟨qty, rate⟩]) = receiptsOf rows ++ [(qty, rate)] := by
      simp [receiptsOf, hqty]
    rw [lotsOf_receipt _ hqty, hreceipts]
    exact ih.concat _
  | @issue rows _ qty hqty _ ih =>
    have hreceipts : receiptsOf (rows ++ [⟨-qty, fifoRate rows qty⟩]) = receiptsOf rows := by
      simp [receiptsOf, hqty]
    rw [lotsOf_issue _ hqty, hreceipts]
    exact ih.left (lotsOf_positive _) qty

end Ledger

/-- On a ledger of receipts and of issues at their FIFO rate, quantity and value are those of the remaining
layers; the layers hold something, are the last receipts in their order at their rates; and issuing
all that is on hand leaves a value of zero. -/
theorem fifo_value_in_layers {rows : List LedgerRow} (h : FifoLedger rows) :
    let layers := remainingLayers rows
    (rows.map LedgerRow.qtyChange).sum = (layers.map Layer.qty).sum ∧
    (rows.map fun row => row.qtyChange * row.valuationRate).sum =
      (layers.map fun layer => layer.qty * layer.rate).sum ∧
    (∀ layer ∈ layers, 0 < layer.qty) ∧
    (∃ used rest, (rows.filter fun row => 0 < row.qtyChange) = used ++ rest ∧
      List.Forall₂ (fun layer receipt => layer.rate = receipt.valuationRate ∧
        layer.qty ≤ receipt.qtyChange) layers rest) ∧
    let qty := (rows.map LedgerRow.qtyChange).sum
    let issue : LedgerRow := ⟨-qty, fifoRate rows qty⟩
    ((rows ++ [issue]).map fun row => row.qtyChange * row.valuationRate).sum = 0 := by
  intro layers
  have htotal : Lots.total (lotsOf rows) = (layers.map Layer.qty).sum := by
    rw [Lots.total, lotsOf, List.map_map]
    rfl
  have hvalue : Lots.value (lotsOf rows) = (layers.map fun layer => layer.qty * layer.rate).sum := by
    rw [Lots.value, lotsOf, List.map_map]
    rfl
  refine ⟨h.qtyOnHand_eq.trans htotal, h.value_eq.trans hvalue, fun layer hlayer => ?_, ?_, ?_⟩
  · exact lotsOf_positive rows layer.lot (List.mem_map_of_mem hlayer)
  · obtain ⟨used, rest, heq, hrest⟩ := h.remain
    obtain ⟨usedRows, restRows, hrows, -, rfl⟩ := List.map_eq_append_iff.1 heq
    rw [lotsOf, List.forall₂_map_left_iff, List.forall₂_map_right_iff] at hrest
    exact ⟨usedRows, restRows, hrows, hrest⟩
  · intro qty issue
    have hqty : 0 ≤ qty := (lotsOf_positive rows).total_nonneg.trans_eq h.qtyOnHand_eq.symm
    have hall : FifoLedger (rows ++ [⟨-qty, fifoRate rows qty⟩]) := h.issue hqty le_rfl
    -- nothing is on hand, so no lot is left
    have hnone : lotsOf (rows ++ [⟨-qty, fifoRate rows qty⟩]) = [] := by
      refine (lotsOf_positive _).eq_nil (le_of_eq ?_)
      rw [← hall.qtyOnHand_eq, qtyOnHand_concat]
      exact add_neg_cancel _
    have hworth := hall.value_eq
    rw [hnone] at hworth
    exact hworth

theorem fifo_value_in_layers_two_receipts :
    let receipts : List LedgerRow := [⟨10, 5⟩, ⟨10, 7⟩]
    let rows := receipts ++ [⟨-12, fifoRate receipts 12⟩]
    FifoLedger rows ∧ remainingLayers rows = [⟨8, 7⟩] ∧
      (rows.map fun row => row.qtyChange * row.valuationRate).sum = 8 * 7 := by
  intro receipts rows
  have hreceipts : FifoLedger receipts :=
    (FifoLedger.nil.receipt (by decide) 5).receipt (by decide) 7
  have hissue : FifoLedger rows := @FifoLedger.issue _ hreceipts 12 (by decide) (by decide +kernel)
  have hlayers : remainingLayers rows = [⟨8, 7⟩] := by decide +kernel
  have hvalue := (fifo_value_in_layers hissue).2.1
  rw [hlayers] at hvalue
  exact ⟨hissue, hlayers, hvalue.trans (by decide +kernel)⟩

/-! ### Splitting an issue -/

/-- What issues of the given quantities cost, one after the other. -/
def issuesCost (prior : List LedgerRow) : List ℚ → ℚ
  | [] => 0
  | qty :: qtys =>
    let rate := fifoRate prior qty
    qty * rate + issuesCost (prior ++ [⟨-qty, rate⟩]) qtys

theorem issuesCost_eq {prior : List LedgerRow} {qtys : List ℚ} (hqtys : ∀ qty ∈ qtys, 0 < qty)
    (hle : qtys.sum ≤ Lots.total (lotsOf prior)) :
    issuesCost prior qtys = Lots.cost qtys.sum (lotsOf prior) := by
  induction qtys generalizing prior with
  | nil => rw [issuesCost, List.sum_nil, Lots.cost_of_nonpos le_rfl]
  | cons qty qtys ih =>
    obtain ⟨hqty, hrest⟩ := List.forall_mem_cons.1 hqtys
    have hsum : 0 ≤ qtys.sum := List.sum_nonneg fun q hq => (hrest q hq).le
    rw [List.sum_cons] at hle ⊢
    have hpositive := lotsOf_positive prior
    have htotal := hpositive.total_left hqty.le (by linarith)
    simp only [issuesCost]
    rw [mul_fifoRate hqty.le (by linarith), ih hrest, lotsOf_issue _ hqty.le,
      hpositive.cost_add hqty.le hsum]
    rw [lotsOf_issue _ hqty.le, htotal]
    linarith

section Lines
variable {inputs : CostInputs} {st : CostState}

/-- The lots of a pair as the next line of a voucher meets them. -/
def CostState.lots (st : CostState) (inputs : CostInputs) (pair : Pair) : List (ℚ × ℚ) :=
  lotsOf ((st.ledgers.priorFor inputs.view inputs.companyId pair).prior pair)

/-- The value of the rows costed so far. -/
def CostState.costedValue (st : CostState) : ℚ :=
  (st.costed.map fun entry => entry.1.qtyChange * entry.1.valuationRate).sum

theorem priorFor_push (view : StoreView) (companyId : Uuid) (ledgers : Ledgers) (pair : Pair)
    (row : LedgerRow) : (ledgers.push pair row).priorFor view companyId pair = ledgers.push pair row := by
  simp only [Ledgers.priorFor, Ledgers.push, SortedMap.lookup_put_self]

theorem prior_push (ledgers : Ledgers) (pair : Pair) (row : LedgerRow) :
    (ledgers.push pair row).prior pair = ledgers.prior pair ++ [row] := by
  simp only [Ledgers.prior, Ledgers.push, SortedMap.lookup_put_self, Option.getD_some]

/-- One line that issues a FIFO item. -/
theorem costRow_fifo {sle : StockLedgerEntry} (hissue : stockQty inputs.items sle < 0)
    (hfifo : (inputs.items.lookup sle.item).bind Item.valuationMethod = some fifo)
    (hle : -stockQty inputs.items sle ≤ Lots.total (st.lots inputs sle.pair)) :
    let cost := Lots.cost (-stockQty inputs.items sle) (st.lots inputs sle.pair)
    (costRow inputs st sle).consumedCost = st.consumedCost + cost ∧
    (costRow inputs st sle).costedValue = st.costedValue - cost ∧
    (costRow inputs st sle).lots inputs sle.pair =
      Lots.left (-stockQty inputs.items sle) (st.lots inputs sle.pair) := by
  have hqty : 0 < -stockQty inputs.items sle := neg_pos.2 hissue
  have hcost := mul_fifoRate hqty.le hle
  simp only [costRow, if_pos hissue, issueRate, if_neg hqty.not_ge, hfifo, if_true]
  refine ⟨?_, ?_, ?_⟩
  · rw [hcost]
    rfl
  · simp only [CostState.costedValue, List.map_append, List.sum_append, List.map_cons, List.map_nil,
      List.sum_singleton]
    rw [CostState.lots, ← hcost]
    ring
  · simp only [CostState.lots, priorFor_push, prior_push]
    have hleft := lotsOf_issue ((st.ledgers.priorFor inputs.view inputs.companyId sle.pair).prior sle.pair)
      hqty.le
    simp only [neg_neg] at hleft
    exact hleft _

/-- Lines that issue a FIFO item from one warehouse, one after the other. -/
theorem foldl_costRow_fifo {pair : Pair} {lines : List StockLedgerEntry}
    (hlines : ∀ sle ∈ lines, sle.pair = pair ∧ stockQty inputs.items sle < 0)
    (hfifo : (inputs.items.lookup (ofLex pair).1).bind Item.valuationMethod = some fifo)
    (hle : (lines.map fun sle => -stockQty inputs.items sle).sum ≤ Lots.total (st.lots inputs pair)) :
    let taken := (lines.map fun sle => -stockQty inputs.items sle).sum
    let st' := lines.foldl (costRow inputs) st
    st'.consumedCost = st.consumedCost + Lots.cost taken (st.lots inputs pair) ∧
    st'.costedValue = st.costedValue - Lots.cost taken (st.lots inputs pair) ∧
    st'.lots inputs pair = Lots.left taken (st.lots inputs pair) := by
  induction lines generalizing st with
  | nil =>
    simp [Lots.cost_of_nonpos le_rfl, Lots.left_of_nonpos le_rfl]
  | cons sle lines ih =>
    obtain ⟨⟨rfl, hissue⟩, hrest⟩ := List.forall_mem_cons.1 hlines
    have hnonneg : 0 ≤ (lines.map fun sle => -stockQty inputs.items sle).sum := by
      refine List.sum_nonneg fun q hq => ?_
      obtain ⟨line, hline, rfl⟩ := List.mem_map.1 hq
      exact neg_nonneg.2 (hrest line hline).2.le
    simp only [List.map_cons, List.sum_cons] at hle ⊢
    have hqty : 0 ≤ -stockQty inputs.items sle := (neg_pos.2 hissue).le
    have hpositive : Lots.Positive (st.lots inputs sle.pair) := lotsOf_positive _
    have hfirst : -stockQty inputs.items sle ≤ Lots.total (st.lots inputs sle.pair) := by linarith
    obtain ⟨hconsumed, hvalue, hlots⟩ := costRow_fifo hissue hfifo hfirst
    have hleft : (lines.map fun sle => -stockQty inputs.items sle).sum ≤
        Lots.total ((costRow inputs st sle).lots inputs sle.pair) := by
      rw [hlots, hpositive.total_left hqty hfirst]
      linarith
    obtain ⟨hconsumed', hvalue', hlots'⟩ := ih hrest hleft
    rw [hlots] at hconsumed' hvalue' hlots'
    simp only [List.foldl_cons]
    rw [hconsumed', hvalue', hlots', hconsumed, hvalue, hpositive.cost_add hqty hnonneg,
      hpositive.left_left hqty hnonneg]
    exact ⟨by ring, by ring, rfl⟩

end Lines

/-- Issuing in two goes costs what issuing at once does, and so does any way of splitting; and when a
voucher's line that issues a FIFO item is replaced by consecutive lines of the same item and warehouse that
add up to it, the cost consumed, the value of the rows and the lots that later lines meet are the
same. -/
theorem split_issue_cost (prior : List LedgerRow) :
    (∀ q₁ q₂ : ℚ, 0 < q₁ → 0 < q₂ → q₁ + q₂ ≤ ((remainingLayers prior).map Layer.qty).sum →
      let r₁ := fifoRate prior q₁
      let r₂ := fifoRate (prior ++ [⟨-q₁, r₁⟩]) q₂
      (q₁ + q₂) * fifoRate prior (q₁ + q₂) = q₁ * r₁ + q₂ * r₂) ∧
    (∀ qtys : List ℚ, (∀ qty ∈ qtys, 0 < qty) →
      qtys.sum ≤ ((remainingLayers prior).map Layer.qty).sum →
      issuesCost prior qtys = qtys.sum * fifoRate prior qtys.sum) ∧
    ∀ (inputs : CostInputs) (st : CostState) (line : StockLedgerEntry) (lines : List StockLedgerEntry),
      (st.ledgers.priorFor inputs.view inputs.companyId line.pair).prior line.pair = prior →
      (inputs.items.lookup line.item).bind Item.valuationMethod = some fifo →
      stockQty inputs.items line < 0 →
      -stockQty inputs.items line ≤ ((remainingLayers prior).map Layer.qty).sum →
      (∀ sle ∈ lines, sle.pair = line.pair ∧ stockQty inputs.items sle < 0) →
      (lines.map (stockQty inputs.items)).sum = stockQty inputs.items line →
      (lines.foldl (costRow inputs) st).consumedCost = (costRow inputs st line).consumedCost ∧
      (lines.foldl (costRow inputs) st).costedValue = (costRow inputs st line).costedValue ∧
      (lines.foldl (costRow inputs) st).lots inputs line.pair =
        (costRow inputs st line).lots inputs line.pair := by
  have htotal : Lots.total (lotsOf prior) = ((remainingLayers prior).map Layer.qty).sum := by
    rw [Lots.total, lotsOf, List.map_map]
    rfl
  rw [← htotal]
  have hsplit : ∀ qtys : List ℚ, (∀ qty ∈ qtys, 0 < qty) → qtys.sum ≤ Lots.total (lotsOf prior) →
      issuesCost prior qtys = qtys.sum * fifoRate prior qtys.sum := by
    intro qtys hqtys hle
    rw [issuesCost_eq hqtys hle, mul_fifoRate (List.sum_nonneg fun q hq => (hqtys q hq).le) hle]
  refine ⟨fun q₁ q₂ h₁ h₂ hle => ?_, hsplit, ?_⟩
  · have hsum : [q₁, q₂].sum = q₁ + q₂ := by simp
    have htwo := hsplit [q₁, q₂] (by simp [h₁, h₂]) (hsum ▸ hle)
    rw [hsum] at htwo
    rw [← htwo]
    simp only [issuesCost, add_zero]
  · rintro inputs st line lines rfl hfifo hissue hle hlines hsum
    have hone := costRow_fifo hissue hfifo hle
    have htaken : (lines.map fun sle => -stockQty inputs.items sle).sum = -stockQty inputs.items line := by
      rw [← hsum, List.sum_neg, List.map_map]
      rfl
    have hall := foldl_costRow_fifo hlines hfifo (htaken.symm ▸ hle)
    rw [htaken] at hall
    exact ⟨hall.1.trans hone.1.symm, hall.2.1.trans hone.2.1.symm, hall.2.2.trans hone.2.2.symm⟩

/-- Four and then eight of ten at 5 and ten at 7. -/
theorem split_issue_cost_four_eight :
    let receipts : List LedgerRow := [⟨10, 5⟩, ⟨10, 7⟩]
    (4 + 8) * fifoRate receipts (4 + 8) =
      4 * fifoRate receipts 4 + 8 * fifoRate (receipts ++ [⟨-4, fifoRate receipts 4⟩]) 8 ∧
    fifoRate receipts (4 + 8) = 16 / 3 :=
  ⟨(split_issue_cost [⟨10, 5⟩, ⟨10, 7⟩]).1 4 8 (by decide) (by decide) (by decide +kernel),
    by decide +kernel⟩

end AtlasTeam
