import AtlasTeam.Posting.Stock

/-!
# Posting-authority domain types (`posting/model.rs`, `model.rs`)

Official documents, ledger rows, bins, batches, company settings and the `PostingCommit` a command
hands to the store, with the JSON each row is rendered as in a command's response.
-/

namespace AtlasTeam

/-- `POSTED_DOCTYPES`. -/
def postedDoctypes : List String :=
  ["Sales Invoice", "Purchase Invoice", "Purchase Receipt", "Delivery Note", "POS Invoice",
    "Payment Entry", "Stock Entry", "Journal Entry", "Expense", "Customer Deposit"]

/-- `series_key`: the official-number series of a doctype. -/
def seriesKey (doctype : String) : Option String :=
  match doctype with
  | "Sales Invoice" => some "SINV"
  | "Purchase Invoice" => some "PINV"
  | "Purchase Receipt" => some "PREC"
  | "Delivery Note" => some "DN"
  | "POS Invoice" => some "POS"
  | "Payment Entry" => some "PAY"
  | "Stock Entry" => some "STE"
  | "Journal Entry" => some "JV"
  | "Expense" => some "EXP"
  | "Customer Deposit" => some "DEP"
  | _ => none

/-- `{value:05}`: at least five places, zero-padded after the sign. -/
def pad5 (value : Int) : String :=
  let digits := Nat.toDigits 10 value.natAbs
  if value < 0 then String.ofList ('-' :: (List.replicate (4 - digits.length) '0' ++ digits))
  else String.ofList (List.replicate (5 - digits.length) '0' ++ digits)

/-- `format_number`: `SINV-00007`. -/
def formatNumber (key : String) (value : Int) : String := key ++ "-" ++ pad5 value

/-! ### Documents and ledger rows -/

/-- An official document; `docstatus` is 1 (submitted) or 2 (cancelled). -/
structure PostedDocument where
  id : String
  companyId : Uuid
  doctype : String
  payload : Value
  docstatus : Int
  officialNumber : Option String
  createdAt : DateTime

structure GlEntry where
  id : String
  companyId : Uuid
  account : String
  debit : ℚ
  credit : ℚ
  partyType : Option String
  party : Option String
  costCenter : Option String
  voucherType : String
  voucherNo : String
  postingDate : String
  currency : Option String
  conversionRate : Option ℚ
  baseDebit : Option ℚ
  baseCredit : Option ℚ
  isReversal : Bool
  batchId : String
deriving DecidableEq

/-- `trans_type` of a stock ledger row. -/
inductive StockTransType where
  | issue
  | receipt
  | transfer
  | adjustment
  | production
deriving DecidableEq

def StockTransType.asStr : StockTransType → String
  | .issue => "Issue"
  | .receipt => "Receipt"
  | .transfer => "Transfer"
  | .adjustment => "Adjustment"
  | .production => "Production"

structure StockLedgerEntry where
  id : String
  companyId : Uuid
  transType : StockTransType
  item : String
  warehouse : String
  qtyChange : ℚ
  valuationRate : ℚ
  voucherType : String
  voucherNo : String
  postingDate : String
  uom : Option String
  isReversal : Bool
  batchId : String
  seq : Int
deriving DecidableEq

structure Bin where
  companyId : Uuid
  item : String
  warehouse : String
  actualQty : ℚ
  valuationRate : ℚ
  stockValue : ℚ
deriving DecidableEq

inductive PartyKind where
  | customer
  | supplier
deriving DecidableEq

def PartyKind.asStr : PartyKind → String
  | .customer => "Customer"
  | .supplier => "Supplier"

def PartyKind.parse (raw : String) : Option PartyKind :=
  match raw with
  | "Customer" => some .customer
  | "Supplier" => some .supplier
  | _ => none

def PartyKind.doctype : PartyKind → String
  | .customer => "Customer Transaction"
  | .supplier => "Supplier Transaction"

def PartyKind.partyField : PartyKind → String
  | .customer => "customer"
  | .supplier => "supplier"

/-- `trans_type` of a party subledger row. -/
inductive PartyTransType where
  | invoice
  | creditNote
  | payment
  | adjustment
deriving DecidableEq

def PartyTransType.asStr : PartyTransType → String
  | .invoice => "Invoice"
  | .creditNote => "CreditNote"
  | .payment => "Payment"
  | .adjustment => "Adjustment"

structure PartyTransaction where
  id : String
  companyId : Uuid
  kind : PartyKind
  transType : PartyTransType
  party : String
  postingDate : String
  dueDate : Option String
  amount : ℚ
  currency : Option String
  conversionRate : ℚ
  baseAmount : ℚ
  voucherType : String
  voucherNo : String
  isReversal : Bool
  batchId : String
deriving DecidableEq

structure TaxTransaction where
  id : String
  companyId : Uuid
  taxType : String
  tax : Option String
  postingDate : String
  baseAmount : ℚ
  taxAmount : ℚ
  rate : ℚ
  partyType : String
  party : Option String
  voucherType : String
  voucherNo : String
  isReversal : Bool
  batchId : String
deriving DecidableEq

structure Settlement where
  id : String
  companyId : Uuid
  paymentVoucherType : String
  paymentVoucherNo : String
  invoiceVoucherType : String
  invoiceVoucherNo : String
  partyType : String
  party : Option String
  allocatedAmount : ℚ
  postingDate : String
  isReversal : Bool
  batchId : String
deriving DecidableEq

inductive BatchKind where
  | submit
  | cancel
deriving DecidableEq

structure PostingBatch where
  id : String
  companyId : Uuid
  documentId : String
  doctype : String
  kind : BatchKind
  reversalOf : Option String
  createdAt : DateTime
deriving DecidableEq

/-! ### Rows as JSON -/

/-- `PartyTransaction::row_fields`. -/
def PartyTransaction.rowFields (t : PartyTransaction) : Map :=
  let fields : Map := []
  let fields := fields.insert "trans_type" (.string t.transType.asStr)
  let fields := fields.insert t.kind.partyField (.string t.party)
  let fields := fields.insert "posting_date" (.string t.postingDate)
  let fields := fields.insertSome "due_date" (t.dueDate.map .string)
  let fields := fields.insert "amount" (.num t.amount)
  let fields := fields.insertSome "currency" (t.currency.map .string)
  let fields := fields.insert "conversion_rate" (.num t.conversionRate)
  let fields := fields.insert "base_amount" (.num t.baseAmount)
  let fields := fields.insert "voucher_type" (.string t.voucherType)
  let fields := fields.insert "voucher_no" (.string t.voucherNo)
  fields.insert "is_reversal" (.bool t.isReversal)

/-- `TaxTransaction::row_fields`. -/
def TaxTransaction.rowFields (t : TaxTransaction) : Map :=
  let fields : Map := []
  let fields := fields.insert "tax_type" (.string t.taxType)
  let fields := fields.insertSome "tax" (t.tax.map .string)
  let fields := fields.insert "posting_date" (.string t.postingDate)
  let fields := fields.insert "base_amount" (.num t.baseAmount)
  let fields := fields.insert "tax_amount" (.num t.taxAmount)
  let fields := fields.insert "rate" (.num t.rate)
  let fields := fields.insert "party_type" (.string t.partyType)
  let fields := fields.insertSome "party" (t.party.map .string)
  let fields := fields.insert "voucher_type" (.string t.voucherType)
  let fields := fields.insert "voucher_no" (.string t.voucherNo)
  fields.insert "is_reversal" (.bool t.isReversal)

/-- The `Serialize` rendering of a GL entry. -/
def GlEntry.toValue (e : GlEntry) : Value :=
  let fields : Map := SortedMap.Raw.ofList
    [("id", .string e.id), ("company_id", .string e.companyId.render), ("account", .string e.account),
      ("debit", .num e.debit), ("credit", .num e.credit), ("voucher_type", .string e.voucherType),
      ("voucher_no", .string e.voucherNo), ("posting_date", .string e.postingDate),
      ("is_reversal", .bool e.isReversal), ("batch_id", .string e.batchId)]
  let fields := fields.insertSome "party_type" (e.partyType.map .string)
  let fields := fields.insertSome "party" (e.party.map .string)
  let fields := fields.insertSome "cost_center" (e.costCenter.map .string)
  let fields := fields.insertSome "currency" (e.currency.map .string)
  let fields := fields.insertSome "conversion_rate" (e.conversionRate.map .num)
  let fields := fields.insertSome "base_debit" (e.baseDebit.map .num)
  .object (fields.insertSome "base_credit" (e.baseCredit.map .num))

/-- The `Serialize` rendering of a stock ledger entry. -/
def StockLedgerEntry.toValue (e : StockLedgerEntry) : Value :=
  let fields : Map := SortedMap.Raw.ofList
    [("id", .string e.id), ("company_id", .string e.companyId.render),
      ("trans_type", .string e.transType.asStr), ("item", .string e.item),
      ("warehouse", .string e.warehouse), ("qty_change", .num e.qtyChange),
      ("valuation_rate", .num e.valuationRate), ("voucher_type", .string e.voucherType),
      ("voucher_no", .string e.voucherNo), ("posting_date", .string e.postingDate),
      ("is_reversal", .bool e.isReversal), ("batch_id", .string e.batchId), ("seq", .int e.seq)]
  .object (fields.insertSome "uom" (e.uom.map .string))

/-- The `Serialize` rendering of a bin. -/
def Bin.toValue (b : Bin) : Value :=
  .obj [("company_id", .string b.companyId.render), ("item", .string b.item),
    ("warehouse", .string b.warehouse), ("actual_qty", .num b.actualQty),
    ("valuation_rate", .num b.valuationRate), ("stock_value", .num b.stockValue)]

/-- The `Serialize` rendering of a settlement. -/
def Settlement.toValue (s : Settlement) : Value :=
  let fields : Map := SortedMap.Raw.ofList
    [("id", .string s.id), ("company_id", .string s.companyId.render),
      ("payment_voucher_type", .string s.paymentVoucherType),
      ("payment_voucher_no", .string s.paymentVoucherNo),
      ("invoice_voucher_type", .string s.invoiceVoucherType),
      ("invoice_voucher_no", .string s.invoiceVoucherNo), ("party_type", .string s.partyType),
      ("allocated_amount", .num s.allocatedAmount), ("posting_date", .string s.postingDate),
      ("is_reversal", .bool s.isReversal), ("batch_id", .string s.batchId)]
  .object (fields.insertSome "party" (s.party.map .string))

/-! ### Items and settings -/

structure UomConversion where
  uom : String
  conversionFactor : ℚ

/-- The registry entry of an item. -/
structure Item where
  id : String
  itemType : String
  valuationMethod : Option String
  stockUom : Option String
  uoms : List UomConversion
  inventoryAccount : Option String
  cogsAccount : Option String
  stockAdjustmentAccount : Option String

/-- `uom_factor`: stock units per transaction unit of a line, 1 when nothing says otherwise. -/
def uomFactor (item : Option Item) (lineUom : Option String) : ℚ :=
  match item, lineUom with
  | some item, some lineUom =>
    match item.stockUom with
    | none => 1
    | some stockUom =>
      if stockUom = lineUom then 1
      else
        match item.uoms.find? fun row => row.uom = lineUom && 0 < row.conversionFactor with
        | some row => row.conversionFactor
        | none => 1
  | _, _ => 1

structure CompanySettings where
  allowNegativeStock : Bool := false
  booksLockDate : Option String := none
  defaultReceivableAccount : String := "Debtors"
  defaultPayableAccount : String := "Creditors"
  defaultIncomeAccount : String := "Sales"
  defaultExpenseAccount : String := "COGS"
  defaultCashAccount : String := "Cash"
  defaultInventoryAccount : String := "Stock"
  defaultCogsAccount : String := "COGS"
  defaultGrniAccount : String := "GRNI"
  defaultStockAdjustmentAccount : String := "Stock Adjustment"
  defaultCustomerDepositAccount : String := "Customer Deposits"
  defaultVatAccount : String := "VAT"
  stripePaymentLinkUrl : Option String := none
  paymentInstructions : Option String := none
deriving DecidableEq

/-! ### Commits -/

structure AuditEntry where
  id : Uuid
  companyId : Uuid
  userId : Option Uuid
  deviceId : Option Uuid
  action : String
  detail : Value
  at_ : DateTime

/-- Customer Deposit invariants that depend on other documents. -/
inductive DepositGuard where
  | apply (depositId customer : String) (amount : ℚ)
  | release (depositId : String)
deriving DecidableEq

def DepositGuard.depositId : DepositGuard → String
  | .apply depositId _ _ | .release depositId => depositId

structure SoloMigrationMark where
  migrationId : String
  packageSha256 : String
deriving DecidableEq

/-- Everything one command writes, applied by the store as a single atomic transaction. -/
structure PostingCommit where
  companyId : Uuid
  idempotencyKey : Option String
  batch : PostingBatch
  document : PostedDocument
  documentIsNew : Bool
  seriesKey : Option String
  preassignedNumber : Option String
  tillBinding : Option (String × String)
  glEntries : List GlEntry
  stockLedgerEntries : List StockLedgerEntry
  partyTransactions : List PartyTransaction
  taxTransactions : List TaxTransaction
  settlements : List Settlement
  bins : List Bin
  /-- (doctype, document id, outstanding amount) of the invoices a payment touches. -/
  outstandingUpdates : List (String × String × ℚ)
  /-- (item, warehouse, prior row count) the computation was based on. -/
  sleExpectations : List (String × String × Nat)
  replicationDeviceId : Option String
  audit : AuditEntry
  response : Value
  numberingFloors : List (String × Int)
  soloMigration : Option SoloMigrationMark
  lockCheckDate : Option String
  depositGuard : Option DepositGuard

structure CommitOutcome where
  response : Value
  replayed : Bool

/-- A change of the books lock: a compare-and-set on `expectedCurrent`. -/
structure BooksLockChange where
  expectedCurrent : Option String
  lockDate : Option String
  audit : AuditEntry

structure BooksLockOutcome where
  previous : Option String
  lockDate : Option String
  changed : Bool

/-- `MONEY_EPS`: half a cent. -/
def moneyEps : ℚ := 5 / 1000

/-- `deposit_guard_violation`: why a guard fails against the current documents. -/
def depositGuardViolation (guard : DepositGuard) (deposit : Option PostedDocument)
    (applications : List PostedDocument) : Option String :=
  match guard with
  | .apply depositId customer amount =>
    match deposit.filter fun d => d.docstatus = 1 with
    | none => some s!"deposit {depositId} is not submitted; submit it before applying it"
    | some deposit =>
      let owner := (asNonEmpty (deposit.payload.get "customer")).getD ""
      if owner ≠ customer then some s!"deposit {depositId} belongs to {owner}, not {customer}"
      else
        let total := asNum (deposit.payload.get "amount")
        let applied := ((applications.filter fun p => p.docstatus = 1).map fun p =>
          asNum (p.payload.get "paid_amount")).sum
        let remaining := total - applied
        if amount > remaining + moneyEps then
          some ("deposit " ++ depositId ++ " has " ++ display2 remaining ++
            " left; this application of " ++ display2 amount ++ " exceeds it")
        else none
  | .release depositId =>
    let live := (applications.filter fun p => p.docstatus = 1).map fun p => p.id
    if live.isEmpty then none
    else
      some ("deposit " ++ depositId ++ " is applied by " ++ String.intercalate ", " live ++
        "; cancel those payment entries first")

/-! ### The sync log's records -/

inductive MutationType where
  | createDocument
  | updateDocument
  | deleteDocument
  | submitDocument
  | cancelDocument
  | amendDocument
  | installApp
  | uninstallApp
  | createAttachment
  | deleteAttachment
deriving DecidableEq

/-- The wire name of a mutation type. -/
def MutationType.asStr : MutationType → String
  | .createDocument => "createDocument"
  | .updateDocument => "updateDocument"
  | .deleteDocument => "deleteDocument"
  | .submitDocument => "submitDocument"
  | .cancelDocument => "cancelDocument"
  | .amendDocument => "amendDocument"
  | .installApp => "installApp"
  | .uninstallApp => "uninstallApp"
  | .createAttachment => "createAttachment"
  | .deleteAttachment => "deleteAttachment"

inductive MutationStatus where
  | pending
  | pushing
  | pushed
  | failed
deriving DecidableEq

def MutationStatus.asStr : MutationStatus → String
  | .pending => "pending"
  | .pushing => "pushing"
  | .pushed => "pushed"
  | .failed => "failed"

structure MutationRecord where
  id : String
  mutationType : MutationType
  docType : String
  documentId : String
  payload : Map
  deviceId : String
  userId : String
  localTimestamp : Int
  syncVersion : Option String
  status : MutationStatus

/-- `serde_json::to_value` of a record. -/
def MutationRecord.toValue (r : MutationRecord) : Value :=
  .obj [("id", .string r.id), ("type", .string r.mutationType.asStr),
    ("docType", .string r.docType), ("documentId", .string r.documentId),
    ("payload", .object r.payload), ("deviceId", .string r.deviceId), ("userId", .string r.userId),
    ("localTimestamp", .int r.localTimestamp), ("syncVersion", .ofOption r.syncVersion),
    ("status", .string r.status.asStr)]

end AtlasTeam
