import AtlasTeam.F64.Derive

/-!
# Costing of stock movements over f64 (`posting/engine.rs`)

The ledger cache, the costing of a voucher's rows in order, the GL legs of what they are worth and the
balances read off the cache.
-/

namespace AtlasTeam.F64

def StockLedgerEntry.pair (sle : StockLedgerEntry) : Pair := toLex (sle.item, sle.warehouse)

def StockLedgerEntry.row (sle : StockLedgerEntry) : LedgerRow := ⟨sle.qtyChange, sle.valuationRate⟩

/-- The rows of each (item, warehouse) pair met so far. -/
abbrev Ledgers := SortedMap Pair (List LedgerRow)

namespace Ledgers

/-- A stored movement as the engine reads it. -/
def storedRow (sle : AtlasTeam.StockLedgerEntry) : LedgerRow :=
  ⟨.fin sle.qtyChange, .fin sle.valuationRate⟩

/-- `Ledgers::prior_for`, the loading. -/
def priorFor (view : StoreView) (companyId : Uuid) (ledgers : Ledgers) (pair : Pair) : Ledgers :=
  match ledgers.lookup pair with
  | some _ => ledgers
  | none =>
    ledgers.put pair ((view.slesForPair companyId (ofLex pair).1 (ofLex pair).2).map storedRow)

/-- The cached rows of a pair. -/
def prior (ledgers : Ledgers) (pair : Pair) : List LedgerRow := (ledgers.lookup pair).getD []

/-- Append one row to a pair. -/
def push (ledgers : Ledgers) (pair : Pair) (row : LedgerRow) : Ledgers :=
  ledgers.put pair (ledgers.prior pair ++ [row])

end Ledgers

/-! ### Item settings -/

structure UomConversion where
  uom : String
  conversionFactor : Ieee

/-- An item with its conversion factors as f64. -/
structure Item extends AtlasTeam.Item where
  conversions : List UomConversion

/-- The registry keeps its factors as numbers. -/
def Item.ofRegistry (item : AtlasTeam.Item) : Item :=
  { toItem := item
    conversions := item.uoms.map fun row => ⟨row.uom, .fin row.conversionFactor⟩ }

/-- A row of the `uoms` child table. -/
def uomRow (codec : Codec) (row : Value) : Option UomConversion := do
  let fields ← match row.get "payload" with
    | some (.string raw) => (codec.fromText raw).toOption
    | some other => some other
    | none => some row
  let uom ← asNonEmpty (fields.get "uom")
  let raw ← fields.get "conversion_factor"
  let factor ← (raw.asF64.map Ieee.fin).or (raw.asStr.bind parseF64)
  if 0 < factor then some ⟨uom, factor⟩ else none

/-- `item_from_master`. -/
def itemFromMaster (codec : Codec) (id : String) (doc : CompanyDocument) : Item :=
  let rows := ((doc.children.bind fun children => children.get "uoms").bind Value.asArray).getD []
  { toItem := AtlasTeam.itemFromMaster codec id doc
    conversions := rows.filterMap (uomRow codec) }

/-- `uom_factor`. -/
def uomFactor (item : Option Item) (lineUom : Option String) : Ieee :=
  match item, lineUom with
  | some item, some lineUom =>
    match item.stockUom with
    | none => 1
    | some stockUom =>
      if stockUom = lineUom then 1
      else
        match item.conversions.find? fun row => row.uom = lineUom && 0 < row.conversionFactor with
        | some row => row.conversionFactor
        | none => 1
  | _, _ => 1

/-- The item settings a build works with, by item id. -/
abbrev Items := List (String × Item)

/-- `load_items`. -/
def loadItems (codec : Codec) (view : StoreView) (companyId : Uuid) (sles : List StockLedgerEntry)
    (payload : Map) : Items :=
  let lines := (itemsOf payload).filterMap fun line =>
    line.asObject.bind fun l => asNonEmpty (Map.get l "item")
  let ids := sortDedup (sles.map StockLedgerEntry.item ++ lines)
  let registered := SortedMap.Raw.ofList ((view.items companyId ids).map fun item =>
    (item.id, Item.ofRegistry item))
  let missing := ids.filter fun id => (registered.lookup id).isNone
  missing.foldl (fun items id =>
    match view.companyDocument companyId "Item" id with
    | some doc => SortedMap.Raw.put id (itemFromMaster codec id doc) items
    | none => items) registered

/-- The item participates in inventory. -/
def isStockItem (items : Items) (id : String) : Bool :=
  isStockItemType ((items.lookup id).map fun item => item.itemType)

/-- The rows that move stock. -/
def stockMovements (items : Items) (sles : List StockLedgerEntry) : List StockLedgerEntry :=
  sles.filter fun sle => isStockItem items sle.item

/-! ### Costing -/

/-- `return_cost`. -/
def returnCost (view : StoreView) (companyId : Uuid) (pair : Pair) (returnAgainst : Option String)
    (ledgers : Ledgers) : Ieee :=
  let originals : List AtlasTeam.StockLedgerEntry := match returnAgainst with
    | some voucher => (view.slesForVoucher companyId voucher).filter fun sle =>
        sle.item = (ofLex pair).1
    | none => []
  match originals.find? fun sle => sle.warehouse = (ofLex pair).2 with
  | some original => .fin original.valuationRate
  | none =>
    match originals.head? with
    | some original => .fin original.valuationRate
    | none => (computeBalance (ledgers.prior pair)).valuationRate

/-- What a voucher's costing reads besides its rows. -/
structure CostInputs where
  view : StoreView
  companyId : Uuid
  items : Items
  isReturn : Bool
  returnAgainst : Option String

/-- The accumulators of `cost_stock_movements`. -/
structure CostState where
  costed : List (StockLedgerEntry × Bool) := []
  ledgers : Ledgers := SortedMap.empty
  outCostByItem : List (String × Ieee) := []
  consumedCost : Ieee := 0
  producedQty : Ieee := 0

/-- Stock units per unit of a row. -/
def factorOf (items : Items) (sle : StockLedgerEntry) : Ieee :=
  uomFactor (items.lookup sle.item) sle.uom

/-- The quantity of a row in stock units. -/
def stockQty (items : Items) (sle : StockLedgerEntry) : Ieee :=
  if (factorOf items sle - 1).abs > eps then sle.qtyChange * factorOf items sle else sle.qtyChange

/-- The rate an incoming row that is no output leg enters at. -/
def receiptRate (inputs : CostInputs) (st : CostState) (ledgers : Ledgers)
    (sle : StockLedgerEntry) : Ieee :=
  if inputs.isReturn then
    returnCost inputs.view inputs.companyId sle.pair inputs.returnAgainst ledgers
  else if sle.transType = .transfer then
    (st.outCostByItem.lookup sle.item).getD sle.valuationRate
  else if (factorOf inputs.items sle - 1).abs > eps then
    sle.valuationRate / factorOf inputs.items sle
  else sle.valuationRate

/-- The row is an output leg of a Production entry. -/
def isOutputLeg (inputs : CostInputs) (sle : StockLedgerEntry) : Bool :=
  0 < stockQty inputs.items sle && !inputs.isReturn && sle.transType = .production

/-- One row of `cost_stock_movements`. -/
def costRow (inputs : CostInputs) (st : CostState) (sle : StockLedgerEntry) : CostState :=
  let ledgers := st.ledgers.priorFor inputs.view inputs.companyId sle.pair
  let qty := stockQty inputs.items sle
  let method := (inputs.items.lookup sle.item).bind fun item => item.valuationMethod
  if qty < 0 then
    let rate := issueRate (ledgers.prior sle.pair) (-qty) method
    { costed := st.costed ++ [({ sle with qtyChange := qty, valuationRate := rate }, false)]
      ledgers := ledgers.push sle.pair ⟨qty, rate⟩
      outCostByItem := SortedMap.Raw.put sle.item rate st.outCostByItem
      consumedCost := st.consumedCost + -qty * rate
      producedQty := st.producedQty }
  else if isOutputLeg inputs sle then
    { st with
      costed := st.costed ++ [({ sle with qtyChange := qty }, true)]
      ledgers := ledgers.push sle.pair ⟨qty, sle.valuationRate⟩
      producedQty := st.producedQty + qty }
  else
    let rate := if 0 < qty then receiptRate inputs st ledgers sle else sle.valuationRate
    { st with
      costed := st.costed ++ [({ sle with qtyChange := qty, valuationRate := rate }, false)]
      ledgers := ledgers.push sle.pair ⟨qty, rate⟩ }

/-- Whether the simulated row `row` passes for the row `of` of a leg. -/
def LedgerRow.close (row of : LedgerRow) : Bool :=
  (row.qtyChange - of.qtyChange).abs < eps && (row.valuationRate - of.valuationRate).abs < eps

/-- Re-rate the first row that passes for `target`. -/
def patchFirst (target : LedgerRow) (rate : Ieee) : List LedgerRow → List LedgerRow
  | [] => []
  | row :: rows =>
    if row.close target then { row with valuationRate := rate } :: rows
    else row :: patchFirst target rate rows

/-- Re-rate the last row that passes for `target`. -/
def patchLast (target : LedgerRow) (rate : Ieee) (rows : List LedgerRow) : List LedgerRow :=
  (patchFirst target rate rows.reverse).reverse

/-- Patch the simulated row of an output leg. -/
def patchLeg (rate : Ieee) (ledgers : Ledgers) (leg : StockLedgerEntry) : Ledgers :=
  match ledgers.lookup leg.pair with
  | some rows => ledgers.put leg.pair (patchLast leg.row rate rows)
  | none => ledgers

/-- The output legs of a costed voucher. -/
def CostState.legs (st : CostState) : List StockLedgerEntry :=
  (st.costed.filter fun entry => entry.2).map Prod.fst

/-- The end of `cost_stock_movements`. -/
def spreadConsumedCost (st : CostState) : List StockLedgerEntry × Ledgers :=
  if st.legs.length ≠ 0 ∧ 0 < st.producedQty ∧ 0 < st.consumedCost then
    let rate := st.consumedCost / st.producedQty
    (st.costed.map fun (sle, isLeg) => if isLeg then { sle with valuationRate := rate } else sle,
      st.legs.foldl (patchLeg rate) st.ledgers)
  else (st.costed.map Prod.fst, st.ledgers)

/-- What the costing of a voucher reads, off its payload and the store. -/
def costInputs (view : StoreView) (companyId : Uuid) (items : Items) (payload : Map) : CostInputs :=
  { view
    companyId
    items
    isReturn := isTrue (payload.get "is_return")
    returnAgainst := asNonEmpty (payload.get "return_against") }

/-- The loop of `cost_stock_movements`. -/
def costRows (inputs : CostInputs) (sles : List StockLedgerEntry) : CostState :=
  sles.foldl (costRow inputs) {}

/-! ### Perpetual-inventory GL -/

/-- The item's own account, or the company default. -/
def resolveAccount (items : Items) (id : String) (pick : AtlasTeam.Item → Option String)
    (default : String) : String :=
  ((items.lookup id).bind fun item => pick item.toItem).getD default

/-- The GL counterpart of one costed movement. -/
def stockGlLeg (doctype : String) (items : Items) (settings : CompanySettings)
    (sle : StockLedgerEntry) : List GlEntry :=
  let value := sle.qtyChange * sle.valuationRate
  if value.abs < eps ∨ sle.transType = .transfer ∨ sle.transType = .production then []
  else
    let sale := doctype ∈ ["Sales Invoice", "Delivery Note", "POS Invoice"]
    let purchase := doctype ∈ ["Purchase Invoice", "Purchase Receipt"]
    let inventory := resolveAccount items sle.item Item.inventoryAccount
      settings.defaultInventoryAccount
    let counter :=
      if sale then resolveAccount items sle.item Item.cogsAccount settings.defaultCogsAccount
      else if purchase then settings.defaultGrniAccount
      else
        resolveAccount items sle.item Item.stockAdjustmentAccount
          settings.defaultStockAdjustmentAccount
    let amount := value.abs
    let (dr, cr) := if 0 < value then (inventory, counter) else (counter, inventory)
    [{ gl s!"{sle.id}-gl-d" dr amount 0 with baseDebit := some amount, baseCredit := some 0 },
      { gl s!"{sle.id}-gl-c" cr 0 amount with baseDebit := some 0, baseCredit := some amount }]

/-- `stock_gl_legs`. -/
def stockGlLegs (doctype : String) (sles : List StockLedgerEntry) (items : Items)
    (settings : CompanySettings) : List GlEntry :=
  sles.flatMap (stockGlLeg doctype items settings)

/-- The expense leg less the stock value; a leg that comes to nothing is removed. -/
def reduceExpense (expenseId : String) (stockNet rate : Ieee) : List GlEntry → List GlEntry
  | [] => []
  | entry :: rest =>
    if entry.id = expenseId then
      let debit := entry.debit - stockNet
      let reduced : GlEntry := { entry with debit, baseDebit := entry.baseDebit.map fun _ => debit * rate }
      if reduced.debit.abs < eps ∧ reduced.credit.abs < eps then rest else reduced :: rest
    else entry :: reduceExpense expenseId stockNet rate rest

/-- The lines of an invoice that are for stock items. -/
def stockLines (payload : Map) (items : Items) : List Map :=
  ((itemsOf payload).filterMap Value.asObject).filter fun line =>
    match asNonEmpty (line.get "item") with
    | some id => isStockItem items id
    | none => false

/-- `split_grni_from_expense`. -/
def splitGrniFromExpense (id : String) (entries : List GlEntry) (payload : Map) (items : Items)
    (settings : CompanySettings) : List GlEntry :=
  let stockNet := ((stockLines payload items).map lineAmount).sum
  if stockNet.abs < eps then entries
  else
    let rate := conversionRateOf payload
    reduceExpense s!"GL-{id}-debit" stockNet rate entries ++
      [{ gl s!"GL-{id}-grni" settings.defaultGrniAccount stockNet 0 with
          baseDebit := some (stockNet * rate), baseCredit := some 0 }]

/-! ### Derived balances -/

structure Bin where
  item : String
  warehouse : String
  snapshot : BinSnapshot

/-- `check_negative_stock`. -/
def checkNegativeStock (settings : CompanySettings) (ledgers : Ledgers) : Except PostingError Unit :=
  if settings.allowNegativeStock then .ok ()
  else
    ledgers.entries.forM fun (pair, rows) =>
      let snap := computeBalance rows
      if snap.actualQty < 0 then
        .error (.validation ("insufficient stock: " ++ (ofLex pair).1 ++ " in " ++ (ofLex pair).2 ++
          " would go to " ++ display snap.actualQty))
      else .ok ()

/-- `recompute_bins`. -/
def recomputeBins (ledgers : Ledgers) : List Bin :=
  ledgers.entries.map fun (pair, rows) =>
    { item := (ofLex pair).1, warehouse := (ofLex pair).2, snapshot := computeBalance rows }

end AtlasTeam.F64
