import AtlasTeam.Posting.Values

/-!
# Stock balance and cost of issue (`posting/stock.rs`)

The balance of an (item, warehouse) pair is a fold of its ledger rows; the cost of an issue is the
moving average of that balance or, for FIFO items, the weighted cost of the oldest receipt layers.
-/

namespace AtlasTeam

/-- One stock-ledger movement, in chronological order. -/
structure LedgerRow where
  qtyChange : ℚ
  valuationRate : ℚ
deriving DecidableEq

structure BinSnapshot where
  actualQty : ℚ
  valuationRate : ℚ
  stockValue : ℚ
deriving DecidableEq

/-- `compute_balance`: the full fold, reversal rows included. -/
def computeBalance (rows : List LedgerRow) : BinSnapshot :=
  let qty := (rows.map LedgerRow.qtyChange).sum
  let value := (rows.map fun row => row.qtyChange * row.valuationRate).sum
  let actualQty := round3 qty
  let stockValue := round2 value
  { actualQty
    valuationRate := if actualQty ≠ 0 then round2 (stockValue / actualQty) else 0
    stockValue }

def fifo : String := "FIFO"

structure Layer where
  qty : ℚ
  rate : ℚ
deriving DecidableEq

/-- The inner loop of `remaining_layers`: take `consume` off the oldest layers. -/
def consumeOldest (consume : ℚ) : List Layer → List Layer
  | [] => []
  | layer :: layers =>
    if consume ≤ 0 then layer :: layers
    else if layer.qty ≤ consume then consumeOldest (consume - layer.qty) layers
    else { layer with qty := layer.qty - consume } :: layers

/-- One row of `remaining_layers`: a receipt pushes a layer, an issue consumes the oldest. -/
def foldLayer (layers : List Layer) (row : LedgerRow) : List Layer :=
  if 0 < row.qtyChange then layers ++ [⟨row.qtyChange, row.valuationRate⟩]
  else if row.qtyChange < 0 then consumeOldest (-row.qtyChange) layers
  else layers

/-- `remaining_layers`: the FIFO layers still on hand, oldest first. -/
def remainingLayers (prior : List LedgerRow) : List Layer := prior.foldl foldLayer []

/-- The consuming loop of `fifo_rate`: `(need, cost, taken)` after walking the layers. -/
def takeLayers : List Layer → ℚ × ℚ × ℚ → ℚ × ℚ × ℚ
  | [], acc => acc
  | layer :: layers, (need, cost, taken) =>
    if need ≤ 0 then (need, cost, taken)
    else
      let take := if layer.qty ≤ need then layer.qty else need
      let acc := (need - take, cost + take * layer.rate, taken + take)
      -- a layer that is not used up ends the loop: it covered all that was needed
      if layer.qty ≤ take then takeLayers layers acc else acc

/-- `fifo_rate`: the weighted cost of the next `qty` units; a shortfall is costed at the moving
average. -/
def fifoRate (prior : List LedgerRow) (qty : ℚ) : ℚ :=
  let (need, cost, taken) := takeLayers (remainingLayers prior) (qty, 0, 0)
  let (cost, taken) :=
    if 0 < need then (cost + need * (computeBalance prior).valuationRate, taken + need)
    else (cost, taken)
  if 0 < taken then cost / taken else 0

/-- `issue_rate`: the unit cost of issuing `qty` after `prior`. -/
def issueRate (prior : List LedgerRow) (qty : ℚ) (method : Option String) : ℚ :=
  if qty ≤ 0 then 0
  else if method = some fifo then fifoRate prior qty
  else (computeBalance prior).valuationRate

/-- The quantity on hand depends on the quantities alone. -/
theorem computeBalance_actualQty_congr {rows rows' : List LedgerRow}
    (h : rows.map LedgerRow.qtyChange = rows'.map LedgerRow.qtyChange) :
    (computeBalance rows).actualQty = (computeBalance rows').actualQty := by
  simp only [computeBalance, h]

@[simp] theorem computeBalance_nil_actualQty : (computeBalance []).actualQty = 0 := by
  decide +kernel

example : issueRate [⟨10, 5⟩, ⟨10, 7⟩] 12 (some fifo) = 64 / 12 := by decide +kernel

example : issueRate [⟨2, 4⟩] 3 (some fifo) = 4 := by decide +kernel

end AtlasTeam
