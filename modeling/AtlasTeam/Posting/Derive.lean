import AtlasTeam.Posting.Model

/-!
# Forward derivation (`posting/engine.rs`)

The rows a submitted payload gives before costing: the monetary GL legs of each doctype, the party
and tax subledger rows, the raw stock ledger rows and the settlements of a Payment Entry. Every row
is stamped by one `RowContext`, which is what `RowContext.Owns` records and the lemmas at the end
carry through each family of rows.
-/

namespace AtlasTeam

/-- `EPS`. -/
def eps : ℚ := 1 / 10 ^ 7

structure RowContext where
  companyId : Uuid
  documentId : String
  doctype : String
  postingDate : String
  batchId : String

/-- `RowContext::gl`. -/
def RowContext.gl (ctx : RowContext) (id account : String) (debit credit : ℚ)
    (partyType party : Option String) : GlEntry :=
  { id
    companyId := ctx.companyId
    account
    debit
    credit
    partyType
    party
    costCenter := none
    voucherType := ctx.doctype
    voucherNo := ctx.documentId
    postingDate := ctx.postingDate
    currency := none
    conversionRate := none
    baseDebit := none
    baseCredit := none
    isReversal := false
    batchId := ctx.batchId }

/-- `RowContext::sle`. -/
def RowContext.sle (ctx : RowContext) (id : String) (transType : StockTransType)
    (item warehouse : String) (qtyChange valuationRate : ℚ) (uom : Option String) :
    StockLedgerEntry :=
  { id
    companyId := ctx.companyId
    transType
    item
    warehouse
    qtyChange
    valuationRate
    voucherType := ctx.doctype
    voucherNo := ctx.documentId
    postingDate := ctx.postingDate
    uom
    isReversal := false
    batchId := ctx.batchId
    -- assigned by the store at commit
    seq := 0 }

/-- The rows of a child table, empty when the field is no array. -/
def arrayOf (payload : Map) (field : String) : List Value :=
  match payload.get field with
  | some (.array rows) => rows
  | _ => []

/-- `items_of`. -/
def itemsOf (payload : Map) : List Value := arrayOf payload "items"

/-- The object rows of a child table with their positions. -/
def objectRows (rows : List Value) : List (Map × Nat) :=
  rows.zipIdx.filterMap fun (row, i) => row.asObject.map fun m => (m, i)

/-- The account a payload field names, empty when it names none. -/
def accountField (payload : Map) (field : String) : String :=
  (asNonEmpty (payload.get field)).getD ""

/-- `line_amount`. -/
def lineAmount (line : Map) : ℚ :=
  match line.get "amount" with
  | some .null | none => round2 (asNum (line.get "qty") * asNum (line.get "rate"))
  | some v => asNum (some v)

/-- `total_tax`. -/
def totalTax (payload : Map) : ℚ :=
  (((arrayOf payload "taxes").filterMap Value.asObject).map fun row =>
    asNum (row.get "tax_amount")).sum

/-! ### Monetary GL legs -/

/-- `journal_rows`: the `accounts` rows that name an account, with their positions. -/
def journalRows (payload : Map) : List (Map × Nat) :=
  (objectRows (arrayOf payload "accounts")).filter fun (row, _) =>
    (asNonEmpty (row.get "account")).isSome

/-- `tax_legs`: one VAT leg per tax row with an account and an amount. -/
def taxLegs (ctx : RowContext) (payload : Map) (isOutput : Bool) : List GlEntry :=
  (objectRows (arrayOf payload "taxes")).filterMap fun (row, i) =>
    let taxAmount := asNum (row.get "tax_amount")
    match asNonEmpty (row.get "tax_account") with
    | none => none
    | some account =>
      if |taxAmount| < eps then none
      else
        let (debit, credit) := if isOutput then (0, taxAmount) else (taxAmount, 0)
        some (ctx.gl s!"GL-{ctx.documentId}-tax-{i}" account debit credit none none)

/-- `derive_monetary_gl`. -/
def deriveMonetaryGl (ctx : RowContext) (payload : Map) : List GlEntry :=
  let id := ctx.documentId
  match ctx.doctype with
  | "Sales Invoice" =>
    let grand := asNum (payload.get "grand_total")
    let net := grand - totalTax payload
    [ctx.gl s!"GL-{id}-debit" (accountField payload "debit_to") grand 0 (some "Customer")
        (asNonEmpty (payload.get "customer")),
      ctx.gl s!"GL-{id}-credit" (accountField payload "income_account") 0 net none none] ++
      taxLegs ctx payload true
  | "Purchase Invoice" =>
    let grand := asNum (payload.get "grand_total")
    let net := grand - totalTax payload
    [ctx.gl s!"GL-{id}-credit" (accountField payload "credit_to") 0 grand (some "Supplier")
        (asNonEmpty (payload.get "supplier")),
      ctx.gl s!"GL-{id}-debit" (accountField payload "expense_account") net 0 none none] ++
      taxLegs ctx payload false
  | "POS Invoice" =>
    let grand := asNum (payload.get "grand_total")
    let net := grand - totalTax payload
    [ctx.gl s!"GL-{id}-cash" (accountField payload "cash_account") grand 0 none none,
      ctx.gl s!"GL-{id}-income" (accountField payload "income_account") 0 net none none] ++
      taxLegs ctx payload true
  | "Payment Entry" =>
    let paid := asNum (payload.get "paid_amount")
    [ctx.gl s!"GL-{id}-from" (accountField payload "paid_from") 0 paid none none,
      ctx.gl s!"GL-{id}-to" (accountField payload "paid_to") paid 0 none none]
  | "Expense" =>
    let net := asNum (payload.get "net_amount")
    let tax := asNum (payload.get "tax_amount")
    let gross := asNum (payload.get "gross_amount")
    let paid := isTrue (payload.get "is_paid")
    let supplier := asNonEmpty (payload.get "supplier")
    [ctx.gl s!"GL-{id}-debit" (accountField payload "expense_account") net 0 none none] ++
      (if tax ≠ 0 then
        [ctx.gl s!"GL-{id}-tax" (accountField payload "tax_account") tax 0 none none]
      else []) ++
      [ctx.gl s!"GL-{id}-credit"
        (accountField payload (if paid then "paid_from" else "credit_to")) 0 gross
        (if paid then none else some "Supplier") (if paid then none else supplier)]
  | "Customer Deposit" =>
    let amount := asNum (payload.get "amount")
    [ctx.gl s!"GL-{id}-cash" (accountField payload "cash_account") amount 0 none none,
      ctx.gl s!"GL-{id}-liability" (accountField payload "deposit_account") 0 amount none none]
  | "Journal Entry" =>
    (journalRows payload).map fun (row, i) =>
      { ctx.gl s!"GL-{id}-{i}" (accountField row "account") (asNum (row.get "debit"))
          (asNum (row.get "credit")) none (asNonEmpty (row.get "party")) with
        partyType := asNonEmpty (row.get "party_type")
        costCenter := asNonEmpty (row.get "cost_center") }
  -- Purchase Receipt, Delivery Note and Stock Entry post only the legs of their costed movements
  | _ => []

/-! ### Base currency -/

/-- `is_base_stamped`. -/
def isBaseStamped (doctype : String) : Bool :=
  doctype ∈ ["Sales Invoice", "Purchase Invoice", "Payment Entry", "Journal Entry"]

/-- `conversion_rate_of`. -/
def conversionRateOf (payload : Map) : ℚ :=
  let rate := asNum (payload.get "conversion_rate")
  if 0 < rate then rate else 1

/-- `stamp_base_amounts`, the GL half. -/
def stampGl (payload : Map) (entry : GlEntry) : GlEntry :=
  let rate := conversionRateOf payload
  { entry with
    conversionRate := some rate
    baseDebit := some (entry.debit * rate)
    baseCredit := some (entry.credit * rate)
    currency := (asNonEmpty (payload.get "currency")).or entry.currency }

/-- `stamp_base_amounts`, the subledger half. -/
def stampParty (payload : Map) (txn : PartyTransaction) : PartyTransaction :=
  let rate := conversionRateOf payload
  { txn with
    conversionRate := rate
    baseAmount := txn.amount * rate
    currency := txn.currency.or (asNonEmpty (payload.get "currency")) }

/-- `stamp_base_amounts`. -/
def stampBaseAmounts (gl : List GlEntry) (party : List PartyTransaction) (payload : Map) :
    List GlEntry × List PartyTransaction :=
  (gl.map (stampGl payload), party.map (stampParty payload))

/-! ### Subledgers -/

/-- The closure `party_txn` of `derive_subledger_rows`. -/
def partyTxn (ctx : RowContext) (payload : Map) (kind : PartyKind) (transType : PartyTransType)
    (party : String) (amount : ℚ) : PartyTransaction :=
  { id := (match kind with | .customer => "CT" | .supplier => "VT") ++ "-" ++ ctx.documentId
    companyId := ctx.companyId
    kind
    transType
    party
    postingDate := ctx.postingDate
    dueDate := asNonEmpty (payload.get "due_date")
    amount
    currency := asNonEmpty (payload.get "currency")
    conversionRate := 1
    baseAmount := amount
    voucherType := ctx.doctype
    voucherNo := ctx.documentId
    isReversal := false
    batchId := ctx.batchId }

/-- `tax_transactions`. -/
def taxTransactions (ctx : RowContext) (payload : Map) (partyType : String)
    (party : Option String) : List TaxTransaction :=
  (objectRows (arrayOf payload "taxes")).map fun (row, i) =>
    { id := s!"TT-{ctx.documentId}-{i}"
      companyId := ctx.companyId
      taxType := (asNonEmpty (row.get "tax_type")).getD "VAT"
      tax := asNonEmpty (row.get "tax_code")
      postingDate := ctx.postingDate
      baseAmount := asNum (row.get "taxable_amount")
      taxAmount := asNum (row.get "tax_amount")
      rate := asNum (row.get "rate")
      partyType
      party
      voucherType := ctx.doctype
      voucherNo := ctx.documentId
      isReversal := false
      batchId := ctx.batchId }

/-- The VAT row of an Expense. -/
def expenseTax (ctx : RowContext) (payload : Map) : TaxTransaction :=
  let net := asNum (payload.get "net_amount")
  let tax := asNum (payload.get "tax_amount")
  { id := s!"TT-{ctx.documentId}-0"
    companyId := ctx.companyId
    taxType := "VAT"
    tax := asNonEmpty (payload.get "tax_code")
    postingDate := ctx.postingDate
    baseAmount := net
    taxAmount := tax
    rate := if net ≠ 0 then round2 (tax / net * 100) else 0
    partyType := "Supplier"
    party := asNonEmpty (payload.get "supplier")
    voucherType := ctx.doctype
    voucherNo := ctx.documentId
    isReversal := false
    batchId := ctx.batchId }

/-- The subledger adjustment of one Journal Entry row. -/
def journalAdjustment (ctx : RowContext) (payload : Map) (row : Map) (i : Nat) :
    Option PartyTransaction := do
  let party ← asNonEmpty (row.get "party")
  let kind ← (asNonEmpty (row.get "party_type")).bind PartyKind.parse
  let net := asNum (row.get "debit") - asNum (row.get "credit")
  let amount := match kind with
    | .customer => net
    | .supplier => -net
  let txn := partyTxn ctx payload kind .adjustment party amount
  return { txn with id := s!"{txn.id}-{i}", dueDate := none }

/-- `derive_subledger_rows`. -/
def deriveSubledgerRows (ctx : RowContext) (payload : Map) :
    List PartyTransaction × List TaxTransaction :=
  match ctx.doctype with
  | "Sales Invoice" =>
    let customer := asNonEmpty (payload.get "customer")
    (customer.toList.map fun customer =>
        partyTxn ctx payload .customer .invoice customer (asNum (payload.get "grand_total")),
      taxTransactions ctx payload "Customer" customer)
  | "Purchase Invoice" =>
    let supplier := asNonEmpty (payload.get "supplier")
    (supplier.toList.map fun supplier =>
        partyTxn ctx payload .supplier .invoice supplier (asNum (payload.get "grand_total")),
      taxTransactions ctx payload "Supplier" supplier)
  | "POS Invoice" =>
    ([], taxTransactions ctx payload "Customer" (asNonEmpty (payload.get "customer")))
  | "Payment Entry" =>
    let paid := asNum (payload.get "paid_amount")
    match asNonEmpty (payload.get "party"), asNonEmpty (payload.get "payment_type") with
    | some party, some "Receive" => ([partyTxn ctx payload .customer .payment party (-paid)], [])
    | some party, some "Pay" => ([partyTxn ctx payload .supplier .payment party (-paid)], [])
    | _, _ => ([], [])
  | "Expense" =>
    let owed := match isTrue (payload.get "is_paid"), asNonEmpty (payload.get "supplier") with
      | false, some supplier =>
        [{ partyTxn ctx payload .supplier .invoice supplier (asNum (payload.get "gross_amount")) with
            dueDate := none }]
      | _, _ => []
    (owed, if asNum (payload.get "tax_amount") ≠ 0 then [expenseTax ctx payload] else [])
  | "Journal Entry" =>
    ((journalRows payload).filterMap fun (row, i) => journalAdjustment ctx payload row i, [])
  | _ => ([], [])

/-- `subledger_response_rows`. -/
def subledgerResponseRows (party : List PartyTransaction) (tax : List TaxTransaction) :
    List Value × List Value :=
  (party.map fun t => .object
      ((t.rowFields.insert "id" (.string t.id)).insert "doctype" (.string t.kind.doctype)),
    tax.map fun t => .object
      ((t.rowFields.insert "id" (.string t.id)).insert "doctype" (.string "Tax Transaction")))

/-! ### Stock rows -/

/-- `stock_document_rows`. -/
def stockDocumentRows (ctx : RowContext) (payload : Map) (incoming : Bool)
    (transType : StockTransType) : List StockLedgerEntry :=
  let setWarehouse := asNonEmpty (payload.get "set_warehouse")
  (objectRows (itemsOf payload)).filterMap fun (line, i) => do
    let item ← asNonEmpty (line.get "item")
    let warehouse ← (asNonEmpty (line.get "warehouse")).or setWarehouse
    let qty := asNum (line.get "qty")
    let qtyChange := if incoming then qty else -qty
    let rate := match line.get "valuation_rate" with
      | some .null | none => asNum (line.get "rate")
      | some v => asNum (some v)
    return ctx.sle s!"SLE-{ctx.documentId}-{i}" transType item warehouse qtyChange rate
      (asNonEmpty (line.get "uom"))

/-- `stock_entry_trans_type`. -/
def stockEntryTransType (purpose : Option String) : StockTransType :=
  match purpose with
  | some "Material Receipt" => .receipt
  | some "Material Transfer" => .transfer
  | some "Repack" | some "Stock Count" => .adjustment
  | some "Manufacture" | some "Manufacturing" => .production
  | _ => .issue

/-- The legs of one Stock Entry line: out of its source, into its target. -/
def stockEntryLegs (ctx : RowContext) (trans : StockTransType) (line : Map) (i : Nat) :
    List StockLedgerEntry :=
  match asNonEmpty (line.get "item") with
  | none => []
  | some item =>
    let qty := asNum (line.get "qty")
    let rate := asNum (line.get "valuation_rate")
    let uom := asNonEmpty (line.get "uom")
    ((asNonEmpty (line.get "source_warehouse")).toList.map fun source =>
        ctx.sle s!"SLE-{ctx.documentId}-{i}-out" trans item source (-qty) rate uom) ++
      ((asNonEmpty (line.get "target_warehouse")).toList.map fun target =>
        ctx.sle s!"SLE-{ctx.documentId}-{i}-in" trans item target qty rate uom)

/-- `stock_entry_rows`. -/
def stockEntryRows (ctx : RowContext) (payload : Map) : List StockLedgerEntry :=
  let trans := stockEntryTransType (asNonEmpty (payload.get "stock_entry_type"))
  (objectRows (itemsOf payload)).flatMap fun (line, i) => stockEntryLegs ctx trans line i

/-- `derive_stock_rows`. -/
def deriveStockRows (ctx : RowContext) (payload : Map) : List StockLedgerEntry :=
  match ctx.doctype with
  | "Sales Invoice" =>
    if isTrue (payload.get "update_stock") then stockDocumentRows ctx payload false .issue else []
  | "Purchase Invoice" =>
    if isTrue (payload.get "update_stock") then stockDocumentRows ctx payload true .receipt else []
  | "Purchase Receipt" => stockDocumentRows ctx payload true .receipt
  | "POS Invoice" | "Delivery Note" => stockDocumentRows ctx payload false .issue
  | "Stock Entry" => stockEntryRows ctx payload
  | _ => []

/-! ### Settlements -/

/-- `derive_settlements`. -/
def deriveSettlements (ctx : RowContext) (payload : Map) : List Settlement :=
  let partyType :=
    if asNonEmpty (payload.get "payment_type") = some "Receive" then "Customer" else "Supplier"
  let party := asNonEmpty (payload.get "party")
  (objectRows (arrayOf payload "references")).filterMap fun (reference, i) => do
    let refDoctype ← asNonEmpty (reference.get "reference_doctype")
    let refName ← asNonEmpty (reference.get "reference_name")
    return { id := s!"STL-{ctx.documentId}-{i}"
             companyId := ctx.companyId
             paymentVoucherType := ctx.doctype
             paymentVoucherNo := ctx.documentId
             invoiceVoucherType := refDoctype
             invoiceVoucherNo := refName
             partyType
             party
             allocatedAmount := asNum (reference.get "allocated_amount")
             postingDate := ctx.postingDate
             isReversal := false
             batchId := ctx.batchId }

end AtlasTeam
