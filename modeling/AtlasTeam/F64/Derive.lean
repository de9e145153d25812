import AtlasTeam.F64.Stock
import AtlasTeam.Posting.Costing

/-!
# Forward derivation over f64 (`posting/engine.rs`)

The rows a submitted payload gives before costing, each with its amounts and with the labels that
later steps look at.
-/

namespace AtlasTeam.F64

structure GlEntry where
  id : String
  account : String
  debit : Ieee
  credit : Ieee
  baseDebit : Option Ieee
  baseCredit : Option Ieee

structure StockLedgerEntry where
  id : String
  transType : StockTransType
  item : String
  warehouse : String
  qtyChange : Ieee
  valuationRate : Ieee
  uom : Option String

structure PartyTransaction where
  party : String
  amount : Ieee
  baseAmount : Ieee

structure TaxTransaction where
  baseAmount : Ieee
  taxAmount : Ieee
  rate : Ieee

structure Settlement where
  invoiceVoucherType : String
  invoiceVoucherNo : String
  allocatedAmount : Ieee

/-- `RowContext::gl`. -/
def gl (id account : String) (debit credit : Ieee) : GlEntry :=
  { id, account, debit, credit, baseDebit := none, baseCredit := none }

/-- `line_amount`. -/
def lineAmount (line : Map) : Ieee :=
  match line.get "amount" with
  | some .null | none => round2 (asNum (line.get "qty") * asNum (line.get "rate"))
  | some v => asNum (some v)

/-- The object rows of `taxes`. -/
def taxRows (payload : Map) : List Map := (arrayOf payload "taxes").filterMap Value.asObject

/-- `total_tax`. -/
def totalTax (payload : Map) : Ieee := ((taxRows payload).map fun row => asNum (row.get "tax_amount")).sum

/-! ### Monetary GL legs -/

/-- `tax_legs`. -/
def taxLegs (id : String) (payload : Map) (isOutput : Bool) : List GlEntry :=
  (objectRows (arrayOf payload "taxes")).filterMap fun (row, i) =>
    let taxAmount := asNum (row.get "tax_amount")
    match asNonEmpty (row.get "tax_account") with
    | none => none
    | some account =>
      if taxAmount.abs < eps then none
      else
        let (debit, credit) := if isOutput then (0, taxAmount) else (taxAmount, 0)
        some (gl s!"GL-{id}-tax-{i}" account debit credit)

/-- `derive_monetary_gl`. -/
def deriveMonetaryGl (doctype id : String) (payload : Map) : List GlEntry :=
  match doctype with
  | "Sales Invoice" =>
    let grand := asNum (payload.get "grand_total")
    let net := grand - totalTax payload
    [gl s!"GL-{id}-debit" (accountField payload "debit_to") grand 0,
      gl s!"GL-{id}-credit" (accountField payload "income_account") 0 net] ++ taxLegs id payload true
  | "Purchase Invoice" =>
    let grand := asNum (payload.get "grand_total")
    let net := grand - totalTax payload
    [gl s!"GL-{id}-credit" (accountField payload "credit_to") 0 grand,
      gl s!"GL-{id}-debit" (accountField payload "expense_account") net 0] ++ taxLegs id payload false
  | "POS Invoice" =>
    let grand := asNum (payload.get "grand_total")
    let net := grand - totalTax payload
    [gl s!"GL-{id}-cash" (accountField payload "cash_account") grand 0,
      gl s!"GL-{id}-income" (accountField payload "income_account") 0 net] ++ taxLegs id payload true
  | "Payment Entry" =>
    let paid := asNum (payload.get "paid_amount")
    [gl s!"GL-{id}-from" (accountField payload "paid_from") 0 paid,
      gl s!"GL-{id}-to" (accountField payload "paid_to") paid 0]
  | "Expense" =>
    let net := asNum (payload.get "net_amount")
    let tax := asNum (payload.get "tax_amount")
    let gross := asNum (payload.get "gross_amount")
    let paid := isTrue (payload.get "is_paid")
    [gl s!"GL-{id}-debit" (accountField payload "expense_account") net 0] ++
      (if tax ≠ 0 then [gl s!"GL-{id}-tax" (accountField payload "tax_account") tax 0] else []) ++
      [gl s!"GL-{id}-credit" (accountField payload (if paid then "paid_from" else "credit_to")) 0
        gross]
  | "Customer Deposit" =>
    let amount := asNum (payload.get "amount")
    [gl s!"GL-{id}-cash" (accountField payload "cash_account") amount 0,
      gl s!"GL-{id}-liability" (accountField payload "deposit_account") 0 amount]
  | "Journal Entry" =>
    (journalRows payload).map fun (row, i) =>
      gl s!"GL-{id}-{i}" (accountField row "account") (asNum (row.get "debit"))
        (asNum (row.get "credit"))
  | _ => []

/-! ### Base currency -/

/-- `conversion_rate_of`: what does not exceed zero counts as 1, NaN with it. -/
def conversionRateOf (payload : Map) : Ieee :=
  let rate := asNum (payload.get "conversion_rate")
  if 0 < rate then rate else 1

/-- `stamp_base_amounts`, the GL half. -/
def stampGl (payload : Map) (entry : GlEntry) : GlEntry :=
  let rate := conversionRateOf payload
  { entry with
    baseDebit := some (entry.debit * rate)
    baseCredit := some (entry.credit * rate) }

/-- `stamp_base_amounts`, the subledger half. -/
def stampParty (payload : Map) (txn : PartyTransaction) : PartyTransaction :=
  { txn with baseAmount := txn.amount * conversionRateOf payload }

/-- `stamp_base_amounts`. -/
def stampBaseAmounts (gl : List GlEntry) (party : List PartyTransaction) (payload : Map) :
    List GlEntry × List PartyTransaction :=
  (gl.map (stampGl payload), party.map (stampParty payload))

/-! ### Subledgers -/

/-- The closure `party_txn` of `derive_subledger_rows`. -/
def partyTxn (party : String) (amount : Ieee) : PartyTransaction :=
  { party, amount, baseAmount := amount }

/-- `tax_transactions`. -/
def taxTransactions (payload : Map) : List TaxTransaction :=
  (taxRows payload).map fun row =>
    { baseAmount := asNum (row.get "taxable_amount")
      taxAmount := asNum (row.get "tax_amount")
      rate := asNum (row.get "rate") }

/-- The VAT row of an Expense. -/
def expenseTax (payload : Map) : TaxTransaction :=
  let net := asNum (payload.get "net_amount")
  let tax := asNum (payload.get "tax_amount")
  { baseAmount := net
    taxAmount := tax
    rate := if net ≠ 0 then round2 (tax / net * .fin 100) else 0 }

/-- The subledger adjustment of one Journal Entry row. -/
def journalAdjustment (row : Map) : Option PartyTransaction := do
  let party ← asNonEmpty (row.get "party")
  let kind ← (asNonEmpty (row.get "party_type")).bind PartyKind.parse
  let net := asNum (row.get "debit") - asNum (row.get "credit")
  let amount := match kind with
    | .customer => net
    | .supplier => -net
  return partyTxn party amount

/-- `derive_subledger_rows`. -/
def deriveSubledgerRows (doctype : String) (payload : Map) :
    List PartyTransaction × List TaxTransaction :=
  match doctype with
  | "Sales Invoice" =>
    ((asNonEmpty (payload.get "customer")).toList.map fun customer =>
        partyTxn customer (asNum (payload.get "grand_total")),
      taxTransactions payload)
  | "Purchase Invoice" =>
    ((asNonEmpty (payload.get "supplier")).toList.map fun supplier =>
        partyTxn supplier (asNum (payload.get "grand_total")),
      taxTransactions payload)
  | "POS Invoice" => ([], taxTransactions payload)
  | "Payment Entry" =>
    let paid := asNum (payload.get "paid_amount")
    match asNonEmpty (payload.get "party"), asNonEmpty (payload.get "payment_type") with
    | some party, some "Receive" | some party, some "Pay" => ([partyTxn party (-paid)], [])
    | _, _ => ([], [])
  | "Expense" =>
    let owed := match isTrue (payload.get "is_paid"), asNonEmpty (payload.get "supplier") with
      | false, some supplier => [partyTxn supplier (asNum (payload.get "gross_amount"))]
      | _, _ => []
    (owed, if asNum (payload.get "tax_amount") ≠ 0 then [expenseTax payload] else [])
  | "Journal Entry" => ((journalRows payload).filterMap fun (row, _) => journalAdjustment row, [])
  | _ => ([], [])

/-! ### Stock rows -/

/-- `stock_document_rows`. -/
def stockDocumentRows (id : String) (payload : Map) (incoming : Bool) (transType : StockTransType) :
    List StockLedgerEntry :=
  let setWarehouse := asNonEmpty (payload.get "set_warehouse")
  (objectRows (itemsOf payload)).filterMap fun (line, i) => do
    let item ← asNonEmpty (line.get "item")
    let warehouse ← (asNonEmpty (line.get "warehouse")).or setWarehouse
    let qty := asNum (line.get "qty")
    let rate := match line.get "valuation_rate" with
      | some .null | none => asNum (line.get "rate")
      | some v => asNum (some v)
    return { id := s!"SLE-{id}-{i}"
             transType
             item
             warehouse
             qtyChange := if incoming then qty else -qty
             valuationRate := rate
             uom := asNonEmpty (line.get "uom") }

/-- The legs of one Stock Entry line: out of its source, into its target. -/
def stockEntryLegs (id : String) (transType : StockTransType) (line : Map) (i : Nat) :
    List StockLedgerEntry :=
  match asNonEmpty (line.get "item") with
  | none => []
  | some item =>
    let qty := asNum (line.get "qty")
    let valuationRate := asNum (line.get "valuation_rate")
    let uom := asNonEmpty (line.get "uom")
    ((asNonEmpty (line.get "source_warehouse")).toList.map fun warehouse =>
        { id := s!"SLE-{id}-{i}-out", transType, item, warehouse, qtyChange := -qty, valuationRate,
          uom }) ++
      ((asNonEmpty (line.get "target_warehouse")).toList.map fun warehouse =>
        { id := s!"SLE-{id}-{i}-in", transType, item, warehouse, qtyChange := qty, valuationRate,
          uom })

/-- `stock_entry_rows`. -/
def stockEntryRows (id : String) (payload : Map) : List StockLedgerEntry :=
  let trans := stockEntryTransType (asNonEmpty (payload.get "stock_entry_type"))
  (objectRows (itemsOf payload)).flatMap fun (line, i) => stockEntryLegs id trans line i

/-- `derive_stock_rows`. -/
def deriveStockRows (doctype id : String) (payload : Map) : List StockLedgerEntry :=
  match doctype with
  | "Sales Invoice" =>
    if isTrue (payload.get "update_stock") then stockDocumentRows id payload false .issue else []
  | "Purchase Invoice" =>
    if isTrue (payload.get "update_stock") then stockDocumentRows id payload true .receipt else []
  | "Purchase Receipt" => stockDocumentRows id payload true .receipt
  | "POS Invoice" | "Delivery Note" => stockDocumentRows id payload false .issue
  | "Stock Entry" => stockEntryRows id payload
  | _ => []

/-! ### Settlements -/

/-- `derive_settlements`. -/
def deriveSettlements (payload : Map) : List Settlement :=
  ((arrayOf payload "references").filterMap Value.asObject).filterMap fun reference => do
    let refDoctype ← asNonEmpty (reference.get "reference_doctype")
    let refName ← asNonEmpty (reference.get "reference_name")
    return { invoiceVoucherType := refDoctype
             invoiceVoucherNo := refName
             allocatedAmount := asNum (reference.get "allocated_amount") }

end AtlasTeam.F64
