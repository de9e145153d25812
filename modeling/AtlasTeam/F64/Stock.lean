import AtlasTeam.F64.Values
import AtlasTeam.Posting.Stock

/-!
# Stock balance and cost of issue over f64 (`posting/stock.rs`)

Finite rows give finite balances and rates: the two quotients are taken only by a number that is not
zero (`computeBalance_finite`, `issueRate_finite`). A balance is finite only when its rows are.
-/

namespace AtlasTeam.F64

structure LedgerRow where
  qtyChange : Ieee
  valuationRate : Ieee
deriving DecidableEq

structure BinSnapshot where
  actualQty : Ieee
  valuationRate : Ieee
  stockValue : Ieee
deriving DecidableEq

/-- `compute_balance`. -/
def computeBalance (rows : List LedgerRow) : BinSnapshot :=
  let qty := (rows.map LedgerRow.qtyChange).sum
  let value := (rows.map fun row => row.qtyChange * row.valuationRate).sum
  let actualQty := round3 qty
  let stockValue := round2 value
  { actualQty
    valuationRate := if actualQty ≠ 0 then round2 (stockValue / actualQty) else 0
    stockValue }

structure Layer where
  qty : Ieee
  rate : Ieee
deriving DecidableEq

/-- The inner loop of `remaining_layers`. -/
def consumeOldest (consume : Ieee) : List Layer → List Layer
  | [] => []
  | layer :: layers =>
    if 0 < consume then
      if layer.qty ≤ consume then consumeOldest (consume - layer.qty) layers
      else { layer with qty := layer.qty - consume } :: layers
    else layer :: layers

/-- One row of `remaining_layers`. -/
def foldLayer (layers : List Layer) (row : LedgerRow) : List Layer :=
  if 0 < row.qtyChange then layers ++ [⟨row.qtyChange, row.valuationRate⟩]
  else if row.qtyChange < 0 then consumeOldest (-row.qtyChange) layers
  else layers

/-- `remaining_layers`. -/
def remainingLayers (prior : List LedgerRow) : List Layer := prior.foldl foldLayer []

/-- The consuming loop of `fifo_rate`: `(need, cost, taken)` after walking the layers. -/
def takeLayers : List Layer → Ieee × Ieee × Ieee → Ieee × Ieee × Ieee
  | [], acc => acc
  | layer :: layers, (need, cost, taken) =>
    if 0 < need then
      let take := if layer.qty ≤ need then layer.qty else need
      let acc := (need - take, cost + take * layer.rate, taken + take)
      -- a layer that is not used up ends the loop: it covered all that was needed
      if layer.qty ≤ take then takeLayers layers acc else acc
    else (need, cost, taken)

/-- `fifo_rate`. -/
def fifoRate (prior : List LedgerRow) (qty : Ieee) : Ieee :=
  let (need, cost, taken) := takeLayers (remainingLayers prior) (qty, 0, 0)
  let (cost, taken) :=
    if 0 < need then (cost + need * (computeBalance prior).valuationRate, taken + need)
    else (cost, taken)
  if 0 < taken then cost / taken else 0

/-- `issue_rate`. -/
def issueRate (prior : List LedgerRow) (qty : Ieee) (method : Option String) : Ieee :=
  if qty ≤ 0 then 0
  else if method = some fifo then fifoRate prior qty
  else (computeBalance prior).valuationRate

/-! ### Finite rows -/

def LedgerRow.Finite (row : LedgerRow) : Prop := row.qtyChange.IsFinite ∧ row.valuationRate.IsFinite

structure BinSnapshot.Finite (snap : BinSnapshot) : Prop where
  actualQty : snap.actualQty.IsFinite
  valuationRate : snap.valuationRate.IsFinite
  stockValue : snap.stockValue.IsFinite

theorem isFinite_stockValue {rows : List LedgerRow} :
    (computeBalance rows).stockValue.IsFinite ↔ ∀ row ∈ rows, row.Finite := by
  simp [computeBalance, LedgerRow.Finite]

/-- A balance is finite exactly when the rows it is folded from are. -/
theorem computeBalance_finite {rows : List LedgerRow} :
    (computeBalance rows).Finite ↔ ∀ row ∈ rows, row.Finite := by
  refine ⟨fun h => isFinite_stockValue.1 h.stockValue, fun h => ?_⟩
  have hqty : (computeBalance rows).actualQty.IsFinite := by
    simpa [computeBalance] using fun row hrow => (h row hrow).1
  have hvalue := isFinite_stockValue.2 h
  refine ⟨hqty, ?_, hvalue⟩
  show (if _ then _ else _ : Ieee).IsFinite
  split_ifs with hne
  · exact isFinite_round2.2 (hvalue.div hqty hne)
  · exact Ieee.isFinite_zero

def Layer.Finite (layer : Layer) : Prop := layer.qty.IsFinite ∧ layer.rate.IsFinite

theorem consumeOldest_finite {consume : Ieee} {layers : List Layer} (hconsume : consume.IsFinite)
    (h : ∀ layer ∈ layers, layer.Finite) : ∀ layer ∈ consumeOldest consume layers, layer.Finite := by
  induction layers generalizing consume with
  | nil => exact h
  | cons layer layers ih =>
    obtain ⟨hlayer, hlayers⟩ := List.forall_mem_cons.1 h
    unfold consumeOldest
    split_ifs
    · exact ih (Ieee.isFinite_sub.2 ⟨hconsume, hlayer.1⟩) hlayers
    · exact List.forall_mem_cons.2 ⟨⟨Ieee.isFinite_sub.2 ⟨hlayer.1, hconsume⟩, hlayer.2⟩, hlayers⟩
    · exact h

theorem foldLayer_finite {layers : List Layer} {row : LedgerRow} (hrow : row.Finite)
    (h : ∀ layer ∈ layers, layer.Finite) : ∀ layer ∈ foldLayer layers row, layer.Finite := by
  unfold foldLayer
  split_ifs
  · exact List.forall_mem_append.2 ⟨h, List.forall_mem_singleton.2 hrow⟩
  · exact consumeOldest_finite (Ieee.isFinite_neg.2 hrow.1) h
  · exact h

theorem remainingLayers_finite {prior : List LedgerRow} (h : ∀ row ∈ prior, row.Finite) :
    ∀ layer ∈ remainingLayers prior, layer.Finite := by
  refine List.foldlRecOn prior foldLayer (motive := fun layers => ∀ layer ∈ layers, layer.Finite) ?_ ?_
  · intro layer hlayer
    cases hlayer
  · intro layers hlayers row hrow
    exact foldLayer_finite (h row hrow) hlayers

/-- What the walk over the layers has counted is finite. -/
def Counted (acc : Ieee × Ieee × Ieee) : Prop :=
  acc.1.IsFinite ∧ acc.2.1.IsFinite ∧ acc.2.2.IsFinite

theorem Counted.take {need cost taken take rate : Ieee} (h : Counted (need, cost, taken))
    (htake : take.IsFinite) (hrate : rate.IsFinite) :
    Counted (need - take, cost + take * rate, taken + take) :=
  ⟨Ieee.isFinite_sub.2 ⟨h.1, htake⟩,
    Ieee.isFinite_add.2 ⟨h.2.1, Ieee.isFinite_mul.2 ⟨htake, hrate⟩⟩,
    Ieee.isFinite_add.2 ⟨h.2.2, htake⟩⟩

theorem takeLayers_finite {layers : List Layer} {acc : Ieee × Ieee × Ieee}
    (h : ∀ layer ∈ layers, layer.Finite) (hacc : Counted acc) : Counted (takeLayers layers acc) := by
  induction layers generalizing acc with
  | nil => exact hacc
  | cons layer layers ih =>
    obtain ⟨need, cost, taken⟩ := acc
    obtain ⟨⟨hqty, hrate⟩, hlayers⟩ := List.forall_mem_cons.1 h
    have htake : (if layer.qty ≤ need then layer.qty else need).IsFinite := by
      split_ifs
      · exact hqty
      · exact hacc.1
    unfold takeLayers
    by_cases hneed : 0 < need
    · have hnext := hacc.take htake hrate
      simp only [hneed, if_true]
      generalize (if layer.qty ≤ need then layer.qty else need) = take at hnext ⊢
      split_ifs
      · exact ih hlayers hnext
      · exact hnext
    · rw [if_neg hneed]
      exact hacc

theorem fifoRate_finite {prior : List LedgerRow} {qty : Ieee} (h : ∀ row ∈ prior, row.Finite)
    (hqty : qty.IsFinite) : (fifoRate prior qty).IsFinite := by
  have hstart : Counted (qty, 0, 0) := ⟨hqty, Ieee.isFinite_zero, Ieee.isFinite_zero⟩
  obtain ⟨hneed, hcost, htaken⟩ := takeLayers_finite (remainingLayers_finite h) hstart
  have hfallback := (computeBalance_finite.2 h).valuationRate
  simp only [fifoRate]
  split_ifs with hshort hpos hpos
  · exact (Ieee.isFinite_add.2 ⟨hcost, Ieee.isFinite_mul.2 ⟨hneed, hfallback⟩⟩).div
      (Ieee.isFinite_add.2 ⟨htaken, hneed⟩) (Ieee.ne_zero_of_pos hpos)
  · exact Ieee.isFinite_zero
  · exact hcost.div htaken (Ieee.ne_zero_of_pos hpos)
  · exact Ieee.isFinite_zero

theorem issueRate_finite {prior : List LedgerRow} {qty : Ieee} (h : ∀ row ∈ prior, row.Finite)
    (hqty : qty.IsFinite) (method : Option String) : (issueRate prior qty method).IsFinite := by
  unfold issueRate
  split_ifs
  · exact Ieee.isFinite_zero
  · exact fifoRate_finite h hqty
  · exact (computeBalance_finite.2 h).valuationRate

end AtlasTeam.F64
