import AtlasTeam.Posting.Validate

/-!
# Costing of stock movements (`posting/engine.rs`)

`Ledgers` caches the stored rows of every (item, warehouse) pair a voucher touches and takes the
voucher's own rows as they are costed, so that later lines see earlier ones. `costStockMovements`
costs the rows in order and then spreads a Production entry's consumed cost over its output legs,
patching their simulated rows as well. The balances, bins and shortfalls are read off the cache.
-/

namespace AtlasTeam

/-- An (item, warehouse) pair, ordered as the code's `BTreeMap` key. -/
abbrev Pair := String ×ₗ String

instance lawfulBEqPair : LawfulBEq Pair := inferInstance

def StockLedgerEntry.pair (sle : StockLedgerEntry) : Pair := toLex (sle.item, sle.warehouse)

def StockLedgerEntry.row (sle : StockLedgerEntry) : LedgerRow := ⟨sle.qtyChange, sle.valuationRate⟩

structure Ledgers where
  rows : SortedMap Pair (List LedgerRow)
  priorCounts : SortedMap Pair Nat

namespace Ledgers

def empty : Ledgers := ⟨SortedMap.empty, SortedMap.empty⟩

/-- `Ledgers::prior_for`, the loading: a pair met for the first time is read from the store. -/
def priorFor (view : StoreView) (companyId : Uuid) (ledgers : Ledgers) (pair : Pair) : Ledgers :=
  match ledgers.rows.lookup pair with
  | some _ => ledgers
  | none =>
    let stored := view.slesForPair companyId (ofLex pair).1 (ofLex pair).2
    { rows := ledgers.rows.put pair (stored.map StockLedgerEntry.row)
      priorCounts := ledgers.priorCounts.put pair stored.length }

/-- The cached rows of a pair. -/
def prior (ledgers : Ledgers) (pair : Pair) : List LedgerRow := (ledgers.rows.lookup pair).getD []

/-- Append one row to a pair. -/
def push (ledgers : Ledgers) (pair : Pair) (row : LedgerRow) : Ledgers :=
  { ledgers with rows := ledgers.rows.put pair (ledgers.prior pair ++ [row]) }

/-- `Ledgers::expectations`. -/
def expectations (ledgers : Ledgers) : List (String × String × Nat) :=
  ledgers.priorCounts.entries.map fun (pair, count) => ((ofLex pair).1, (ofLex pair).2, count)

end Ledgers

/-! ### Item settings -/

/-- A row of the `uoms` child table: its fields stand in a JSON text, an object or the row itself. -/
def uomRow (codec : Codec) (row : Value) : Option UomConversion := do
  let fields ← match row.get "payload" with
    | some (.string raw) => (codec.fromText raw).toOption
    | some other => some other
    | none => some row
  let uom ← asNonEmpty (fields.get "uom")
  let raw ← fields.get "conversion_factor"
  let factor ← raw.asF64.or (raw.asStr.bind parseF64)
  if 0 < factor then some ⟨uom, factor⟩ else none

/-- `item_from_master`. -/
def itemFromMaster (codec : Codec) (id : String) (doc : CompanyDocument) : Item :=
  let fields : Map := doc.payload.asObject.getD []
  let flag := fields.get "is_stock_item"
  let rows := ((doc.children.bind fun children => children.get "uoms").bind Value.asArray).getD []
  { id
    itemType := (asNonEmpty (fields.get "item_type")).getD
      (if flag.isSome && !isTrue flag then "Service" else "Stock")
    valuationMethod := asNonEmpty (fields.get "valuation_method")
    stockUom := asNonEmpty (fields.get "stock_uom")
    uoms := rows.filterMap (uomRow codec)
    inventoryAccount := asNonEmpty (fields.get "inventory_account")
    cogsAccount := asNonEmpty (fields.get "cogs_account")
    stockAdjustmentAccount := asNonEmpty (fields.get "stock_adjustment_account") }

/-- The item settings a build works with, by item id. -/
abbrev Items := List (String × Item)

/-- `load_items`: the registry first, then the synced Item master for ids the registry lacks. -/
def loadItems (codec : Codec) (view : StoreView) (companyId : Uuid) (sles : List StockLedgerEntry)
    (payload : Map) : Items :=
  let lines := (itemsOf payload).filterMap fun line =>
    line.asObject.bind fun l => asNonEmpty (Map.get l "item")
  let ids := sortDedup (sles.map StockLedgerEntry.item ++ lines)
  let registered := SortedMap.Raw.ofList ((view.items companyId ids).map fun item => (item.id, item))
  let missing := ids.filter fun id => (registered.lookup id).isNone
  missing.foldl (fun items id =>
    match view.companyDocument companyId "Item" id with
    | some doc => SortedMap.Raw.put id (itemFromMaster codec id doc) items
    | none => items) registered

/-- The rows that move stock: movements of service items are dropped before costing. -/
def stockMovements (items : Items) (sles : List StockLedgerEntry) : List StockLedgerEntry :=
  sles.filter fun sle => isStockItemType ((items.lookup sle.item).map Item.itemType)

/-! ### Costing -/

/-- `return_cost`: the rate the original voucher moved the item at, preferring the same warehouse,
else the current moving average. -/
def returnCost (view : StoreView) (companyId : Uuid) (pair : Pair) (returnAgainst : Option String)
    (ledgers : Ledgers) : ℚ :=
  let originals : List StockLedgerEntry := match returnAgainst with
    | some voucher => (view.slesForVoucher companyId voucher).filter fun sle =>
        sle.item = (ofLex pair).1
    | none => []
  match originals.find? fun sle => sle.warehouse = (ofLex pair).2 with
  | some original => original.valuationRate
  | none =>
    match originals.head? with
    | some original => original.valuationRate
    | none => (computeBalance (ledgers.prior pair)).valuationRate

/-- What a voucher's costing reads besides its rows. -/
structure CostInputs where
  view : StoreView
  companyId : Uuid
  items : Items
  isReturn : Bool
  returnAgainst : Option String

/-- The accumulators of `cost_stock_movements`: the rows costed so far, each with whether it is an
output leg of a Production entry, and the ledger cache. -/
structure CostState where
  costed : List (StockLedgerEntry × Bool) := []
  ledgers : Ledgers := Ledgers.empty
  outCostByItem : List (String × ℚ) := []
  consumedCost : ℚ := 0
  producedQty : ℚ := 0

/-- The quantity of a row in stock units. -/
def stockQty (items : Items) (sle : StockLedgerEntry) : ℚ :=
  let factor := uomFactor (items.lookup sle.item) sle.uom
  if |factor - 1| > eps then sle.qtyChange * factor else sle.qtyChange

/-- The rate an incoming row that is no output leg enters at. -/
def receiptRate (inputs : CostInputs) (st : CostState) (ledgers : Ledgers)
    (sle : StockLedgerEntry) : ℚ :=
  let factor := uomFactor (inputs.items.lookup sle.item) sle.uom
  if inputs.isReturn then
    returnCost inputs.view inputs.companyId sle.pair inputs.returnAgainst ledgers
  else if sle.transType = .transfer then
    (st.outCostByItem.lookup sle.item).getD sle.valuationRate
  else if |factor - 1| > eps then sle.valuationRate / factor
  else sle.valuationRate

/-- The row is an output leg of a Production entry. -/
def isOutputLeg (inputs : CostInputs) (sle : StockLedgerEntry) : Bool :=
  0 < stockQty inputs.items sle && !inputs.isReturn && sle.transType = .production

/-- One row of `cost_stock_movements`. Every branch has loaded the row's pair by its end, so the
cache is loaded first. -/
def costRow (inputs : CostInputs) (st : CostState) (sle : StockLedgerEntry) : CostState :=
  let ledgers := st.ledgers.priorFor inputs.view inputs.companyId sle.pair
  let qty := stockQty inputs.items sle
  let method := (inputs.items.lookup sle.item).bind Item.valuationMethod
  if qty < 0 then
    let rate := issueRate (ledgers.prior sle.pair) (-qty) method
    { costed := st.costed ++ [({ sle with qtyChange := qty, valuationRate := rate }, false)]
      ledgers := ledgers.push sle.pair ⟨qty, rate⟩
      outCostByItem := SortedMap.Raw.put sle.item rate st.outCostByItem
      consumedCost := st.consumedCost + -qty * rate
      producedQty := st.producedQty }
  else if isOutputLeg inputs sle then
    -- its rate is settled once the whole consumed cost is known
    { st with
      costed := st.costed ++ [({ sle with qtyChange := qty }, true)]
      ledgers := ledgers.push sle.pair ⟨qty, sle.valuationRate⟩
      producedQty := st.producedQty + qty }
  else
    let rate := if 0 < qty then receiptRate inputs st ledgers sle else sle.valuationRate
    { st with
      costed := st.costed ++ [({ sle with qtyChange := qty, valuationRate := rate }, false)]
      ledgers := ledgers.push sle.pair ⟨qty, rate⟩ }

/-- Whether the simulated row `row` passes for the row `of` of a leg. -/
def LedgerRow.close (row of : LedgerRow) : Bool :=
  |row.qtyChange - of.qtyChange| < eps && |row.valuationRate - of.valuationRate| < eps

/-- Re-rate the first row that passes for `target`. -/
def patchFirst (target : LedgerRow) (rate : ℚ) : List LedgerRow → List LedgerRow
  | [] => []
  | row :: rows =>
    if row.close target then { row with valuationRate := rate } :: rows
    else row :: patchFirst target rate rows

/-- Re-rate the last row that passes for `target`: the search runs from the end. -/
def patchLast (target : LedgerRow) (rate : ℚ) (rows : List LedgerRow) : List LedgerRow :=
  (patchFirst target rate rows.reverse).reverse

/-- Patch the simulated row of an output leg. -/
def patchLeg (rate : ℚ) (ledgers : Ledgers) (leg : StockLedgerEntry) : Ledgers :=
  match ledgers.rows.lookup leg.pair with
  | some rows => { ledgers with rows := ledgers.rows.put leg.pair (patchLast leg.row rate rows) }
  | none => ledgers

/-- The output legs of a costed voucher. -/
def CostState.legs (st : CostState) : List StockLedgerEntry :=
  (st.costed.filter fun entry => entry.2).map Prod.fst

/-- The end of `cost_stock_movements`: the consumed cost is spread over the output at one per-unit
rate. -/
def spreadConsumedCost (st : CostState) : List StockLedgerEntry × Ledgers :=
  if st.legs ≠ [] ∧ 0 < st.producedQty ∧ 0 < st.consumedCost then
    let rate := st.consumedCost / st.producedQty
    (st.costed.map fun (sle, isLeg) => if isLeg then { sle with valuationRate := rate } else sle,
      st.legs.foldl (patchLeg rate) st.ledgers)
  else (st.costed.map Prod.fst, st.ledgers)

/-- What the costing of a voucher reads, off its payload and the store. -/
def costInputs (view : StoreView) (companyId : Uuid) (items : Items) (payload : Map) : CostInputs :=
  { view
    companyId
    items
    isReturn := isTrue (payload.get "is_return")
    returnAgainst := asNonEmpty (payload.get "return_against") }

/-- The loop of `cost_stock_movements`. -/
def costRows (inputs : CostInputs) (sles : List StockLedgerEntry) : CostState :=
  sles.foldl (costRow inputs) {}

/-- `cost_stock_movements`. -/
def costStockMovements (view : StoreView) (companyId : Uuid) (sles : List StockLedgerEntry)
    (items : Items) (payload : Map) : List StockLedgerEntry × Ledgers :=
  spreadConsumedCost (costRows (costInputs view companyId items payload) sles)

/-! ### Perpetual-inventory GL -/

/-- The item's own account, or the company default. -/
def resolveAccount (item : Option Item) (pick : Item → Option String) (default : String) : String :=
  (item.bind pick).getD default

/-- The GL counterpart of one costed movement, `v = qty × rate`. -/
def stockGlLeg (ctx : RowContext) (items : Items) (settings : CompanySettings)
    (sle : StockLedgerEntry) : List GlEntry :=
  let value := sle.qtyChange * sle.valuationRate
  if |value| < eps ∨ sle.transType = .transfer ∨ sle.transType = .production then []
  else
    let sale := ctx.doctype ∈ ["Sales Invoice", "Delivery Note", "POS Invoice"]
    let purchase := ctx.doctype ∈ ["Purchase Invoice", "Purchase Receipt"]
    let item := items.lookup sle.item
    let inventory := resolveAccount item Item.inventoryAccount settings.defaultInventoryAccount
    let counter :=
      if sale then resolveAccount item Item.cogsAccount settings.defaultCogsAccount
      else if purchase then settings.defaultGrniAccount
      else resolveAccount item Item.stockAdjustmentAccount settings.defaultStockAdjustmentAccount
    let amount := |value|
    let (dr, cr) := if 0 < value then (inventory, counter) else (counter, inventory)
    [{ ctx.gl s!"{sle.id}-gl-d" dr amount 0 none none with
        conversionRate := some 1, baseDebit := some amount, baseCredit := some 0 },
      { ctx.gl s!"{sle.id}-gl-c" cr 0 amount none none with
        conversionRate := some 1, baseDebit := some 0, baseCredit := some amount }]

/-- `stock_gl_legs`. -/
def stockGlLegs (ctx : RowContext) (sles : List StockLedgerEntry) (items : Items)
    (settings : CompanySettings) : List GlEntry :=
  sles.flatMap (stockGlLeg ctx items settings)

/-- A leg of costed movements is the debit or the credit of one of them. -/
theorem mem_stockGlLegs {ctx : RowContext} {sles : List StockLedgerEntry} {items : Items}
    {settings : CompanySettings} {entry : GlEntry} (h : entry ∈ stockGlLegs ctx sles items settings) :
    ∃ sle ∈ sles, ∃ account amount,
      entry = { ctx.gl s!"{sle.id}-gl-d" account amount 0 none none with
        conversionRate := some 1, baseDebit := some amount, baseCredit := some 0 } ∨
      entry = { ctx.gl s!"{sle.id}-gl-c" account 0 amount none none with
        conversionRate := some 1, baseDebit := some 0, baseCredit := some amount } := by
  obtain ⟨sle, hsle, hleg⟩ := List.mem_flatMap.1 h
  simp only [stockGlLeg] at hleg
  split at hleg
  · exact absurd hleg List.not_mem_nil
  · rcases List.mem_pair.1 hleg with hdebit | hcredit
    · exact ⟨sle, hsle, _, _, .inl hdebit⟩
    · exact ⟨sle, hsle, _, _, .inr hcredit⟩

/-- The expense leg less the stock value; a leg that comes to nothing is removed. -/
def reduceExpense (expenseId : String) (stockNet rate : ℚ) : List GlEntry → List GlEntry
  | [] => []
  | entry :: rest =>
    if entry.id = expenseId then
      let debit := entry.debit - stockNet
      let reduced := { entry with debit, baseDebit := entry.baseDebit.map fun _ => debit * rate }
      if |reduced.debit| < eps ∧ |reduced.credit| < eps then rest else reduced :: rest
    else entry :: reduceExpense expenseId stockNet rate rest

/-- `split_grni_from_expense`. -/
def splitGrniFromExpense (ctx : RowContext) (gl : List GlEntry) (payload : Map) (items : Items)
    (settings : CompanySettings) : List GlEntry :=
  let stockLines := ((itemsOf payload).filterMap Value.asObject).filter fun line =>
    match asNonEmpty (line.get "item") with
    | some id => isStockItemType ((items.lookup id).map Item.itemType)
    | none => false
  let stockNet := (stockLines.map lineAmount).sum
  if |stockNet| < eps then gl
  else
    let rate := conversionRateOf payload
    reduceExpense s!"GL-{ctx.documentId}-debit" stockNet rate gl ++
      [{ ctx.gl s!"GL-{ctx.documentId}-grni" settings.defaultGrniAccount stockNet 0 none none with
          currency := asNonEmpty (payload.get "currency")
          conversionRate := some rate
          baseDebit := some (stockNet * rate)
          baseCredit := some 0 }]

/-! ### Derived balances -/

/-- `check_negative_stock`. -/
def checkNegativeStock (settings : CompanySettings) (ledgers : Ledgers) : Except PostingError Unit :=
  if settings.allowNegativeStock then .ok ()
  else
    ledgers.rows.entries.forM fun (pair, rows) =>
      let snap := computeBalance rows
      if snap.actualQty < 0 then
        .error (.validation ("insufficient stock: " ++ (ofLex pair).1 ++ " in " ++ (ofLex pair).2 ++
          " would go to " ++ display snap.actualQty))
      else .ok ()

/-- `stock_shortfalls`. -/
def stockShortfalls (ledgers : Ledgers) : List Value :=
  ledgers.rows.entries.filterMap fun (pair, rows) =>
    let snap := computeBalance rows
    if snap.actualQty < -eps then
      some (.obj [("item", .string (ofLex pair).1), ("warehouse", .string (ofLex pair).2),
        ("actual_qty", .num snap.actualQty)])
    else none

/-- `recompute_bins`. -/
def recomputeBins (companyId : Uuid) (ledgers : Ledgers) : List Bin :=
  ledgers.rows.entries.map fun (pair, rows) =>
    let snap := computeBalance rows
    { companyId
      item := (ofLex pair).1
      warehouse := (ofLex pair).2
      actualQty := snap.actualQty
      valuationRate := snap.valuationRate
      stockValue := snap.stockValue }

end AtlasTeam
