import AtlasTeam.F64.Derive
import AtlasTeam.Posting.Engine

/-!
# Validation of a command over f64 (`posting/engine.rs`)

The rules of a submit that look at numbers. A guard refuses when a comparison holds, so one that meets
NaN lets the number pass; `money_field` alone asks for a finite number first (`moneyField_eq`).
-/

namespace AtlasTeam.F64

/-! ### Invoice totals and tax rows -/

/-- `sent_number`. -/
def sentNumber (payload : Map) (field : String) : Option Ieee :=
  match payload.get field with
  | none | some .null => none
  | some (.string s) => if trim s = "" then none else some (asNum (some (.string s)))
  | some v => some (asNum (some v))

/-- One line of `validate_invoice_totals`: its amount joins the running sum and count. -/
def lineTotal (acc : Ieee × Nat) (entry : Map × Nat) : Except PostingError (Ieee × Nat) :=
  let (line, index) := entry
  let derived := round2 (asNum (line.get "qty") * asNum (line.get "rate"))
  match line.get "amount" with
  | none | some .null => .ok (acc.1 + derived, acc.2 + 1)
  | some v =>
    let sent := asNum (some v)
    if (sent - derived).abs > moneyEps then
      .error (.validation
        (s!"items[{index}]: amount " ++ display sent ++ " does not match qty × rate = " ++
          display derived))
    else .ok (acc.1 + sent, acc.2 + 1)

/-- A stated total against its recomputation; an absent one takes the computed value. -/
def statedTotal (payload : Map) (field : String) (computed tolerance : Ieee) (source : String) :
    Except PostingError Ieee :=
  match sentNumber payload field with
  | some sent =>
    if (sent - computed).abs > tolerance then
      .error (.validation (field ++ ": sent " ++ display sent ++ ", expected " ++
        display computed ++ " (" ++ source ++ ")"))
    else .ok sent
  | none => .ok computed

/-- The tax the line amounts contain when prices include it. -/
def extractedTax (payload : Map) : Ieee :=
  let inclusive := isTrue (payload.get "prices_include_tax")
  (((taxRows payload).filter fun row => inclusive && !isWithholding row).map fun row =>
    asNum (row.get "tax_amount")).sum

/-- What `validate_invoice_totals` writes: the grand total when none was sent, and the outstanding
amount an invoice starts with. -/
def writeTotals (payload : Map) (trackOutstanding : Bool) (grand : Ieee) : Map :=
  let payload :=
    if (sentNumber payload "grand_total").isNone then payload.insert "grand_total" (json grand)
    else payload
  let payload := payload.remove "outstanding_amount"
  if trackOutstanding then payload.insert "outstanding_amount" (json grand) else payload

/-- `validate_invoice_totals`. -/
def validateInvoiceTotals (payload : Map) (trackOutstanding : Bool) : Except PostingError Map := do
  let inclusive := isTrue (payload.get "prices_include_tax")
  let (linesSum, lineCount) ← (objectRows (itemsOf payload)).foldlM lineTotal (0, 0)
  let computedTotal := round2 (linesSum - extractedTax payload)
  let computedTax := round2 (totalTax payload)
  let computedGrand := round2 (computedTotal + computedTax)
  let lineTolerance : Ieee := .fin (moneyEps * (max lineCount 1 : Nat))
  let total ← statedTotal payload "total" computedTotal lineTolerance
    ("Σ line amounts" ++ if inclusive then " − extracted tax" else "")
  let taxTotal ← statedTotal payload "tax_total" computedTax moneyEps "Σ tax row amounts"
  let grand ← statedTotal payload "grand_total" computedGrand lineTolerance "total + tax_total"
  if (grand - (total + taxTotal)).abs > .fin (2 * moneyEps) then
    throw (.validation ("grand_total " ++ display grand ++ " does not equal total " ++
      display total ++ " + tax_total " ++ display taxTotal))
  return writeTotals payload trackOutstanding grand

/-- One row of `validate_tax_rows`. -/
def checkTaxRow (isReturn : Bool) (entry : Map × Nat) : Except PostingError Unit := do
  let (row, index) := entry
  let rate := asNum (row.get "rate")
  let taxable := asNum (row.get "taxable_amount")
  let taxAmount := asNum (row.get "tax_amount")
  if rate < 0 then
    throw (.validation (s!"taxes[{index}]: rate " ++ display rate ++ " must not be negative"))
  if !isReturn && taxable < .fin (-moneyEps) then
    throw (.validation
      (s!"taxes[{index}]: taxable_amount " ++ display taxable ++ " must not be negative"))
  if isReturn && taxable > moneyEps then
    throw (.validation
      (s!"taxes[{index}]: taxable_amount " ++ display taxable ++ " must not be positive on a return"))
  let magnitude := round2 (taxable * rate / .fin 100)
  let expected := if isWithholding row then -magnitude else magnitude
  if (taxAmount - expected).abs > taxRowEps then
    throw (.validation (s!"taxes[{index}]: tax_amount " ++ display taxAmount ++ ", expected " ++
      display expected ++ " (taxable_amount " ++ display taxable ++ " × rate " ++ display rate ++
      "%)"))

/-- `validate_tax_rows`. -/
def validateTaxRows (payload : Map) : Except PostingError Unit :=
  (objectRows (arrayOf payload "taxes")).forM (checkTaxRow (isTrue (payload.get "is_return")))

/-- The invoice checks of `build_submit`. -/
def validateTotals (doctype : String) (payload : Map) : Except PostingError Map :=
  if doctype ∈ settleableDoctypes then do
    validateTaxRows payload
    validateInvoiceTotals payload true
  else if doctype = "POS Invoice" then do
    validateTaxRows payload
    validateInvoiceTotals payload false
  else .ok payload

/-! ### Journal Entry, Expense, Customer Deposit -/

/-- `refuse_foreign_rate`. -/
def refuseForeignRate (doctype : String) (payload : Map) : Except PostingError Unit :=
  match sentNumber payload "conversion_rate" with
  | some rate =>
    if (rate - 1).abs > .fin (1 / 10 ^ 9) then
      .error (.validation (doctype ++ " posts in the company currency only (conversion_rate " ++
        display rate ++ "); record a foreign-currency amount with a Journal Entry or a " ++
        "Purchase Invoice"))
    else .ok ()
  | none => .ok ()

/-- `money_field`. -/
def moneyField (payload : Map) (field what : String) : Except PostingError Ieee :=
  let value := asNum (payload.get field)
  if ¬value.IsFinite ∨ value < 0 then
    .error (.validation (what ++ ": " ++ field ++ " must be zero or more, got " ++ display value))
  else .ok value

/-- The guard on an amount refuses the same fields in both models, with the same text. -/
theorem moneyField_eq (payload : Map) (field what : String) :
    moneyField payload field what = (AtlasTeam.moneyField payload field what).map .fin := by
  unfold moneyField AtlasTeam.moneyField
  cases hread : nonFinite (payload.get field) with
  | some text =>
    obtain ⟨hinfinite, htext⟩ := asNum_nonFinite hread
    dsimp only
    rw [if_pos (.inl hinfinite), htext]
    rfl
  | none =>
    dsimp only
    rw [asNum_finite hread]
    have hrefused : ¬(Ieee.fin (AtlasTeam.asNum (payload.get field))).IsFinite ∨
        Ieee.fin (AtlasTeam.asNum (payload.get field)) < 0 ↔
          AtlasTeam.asNum (payload.get field) < 0 := by
      rw [or_iff_right (not_not_intro (Ieee.isFinite_fin _))]
      exact Ieee.fin_lt_fin
    simp only [hrefused]
    split_ifs
    · rfl
    · rfl

/-- The running totals of a Journal Entry: debit, credit, lines with an amount. -/
structure JournalTotals where
  debit : Ieee := 0
  credit : Ieee := 0
  lines : Nat := 0

/-- One `accounts` row of a Journal Entry. -/
def journalRow (acc : JournalTotals) (entry : Value × Nat) : Except PostingError JournalTotals := do
  let (row, i) := entry
  let what := s!"accounts[{i}]"
  let some row := row.asObject | throw (.validation s!"accounts[{i}] must be an object")
  let d ← moneyField row "debit" what
  let c ← moneyField row "credit" what
  if d > 0 ∧ c > 0 then
    throw (.validation (what ++ " has both a debit and a credit; use two lines"))
  if (asNonEmpty (row.get "account")).isNone then
    if d > 0 ∨ c > 0 then throw (.validation (what ++ " has an amount but no account"))
    return acc
  match asNonEmpty (row.get "party_type") with
  | some partyType =>
    if (PartyKind.parse partyType).isSome && (asNonEmpty (row.get "party")).isNone then
      throw (.validation (what ++ " names party_type " ++ partyType ++ " but no party"))
  | none => pure ()
  return { debit := acc.debit + d
           credit := acc.credit + c
           lines := if d > 0 ∨ c > 0 then acc.lines + 1 else acc.lines }

/-- `validate_c5_document`, the Journal Entry arm. -/
def validateJournalEntry (payload : Map) : Except PostingError Map := do
  let totals ← (arrayOf payload "accounts").zipIdx.foldlM journalRow {}
  if totals.lines < 2 then
    throw (.validation "a Journal Entry needs at least two lines with an amount")
  if (totals.debit - totals.credit).abs ≥ balanceTolerance then
    throw (.validation ("Journal Entry does not balance: total debit " ++ display totals.debit ++
      " ≠ total credit " ++ display totals.credit))
  let payload := payload.insert "total_debit" (json totals.debit)
  let payload := payload.insert "total_credit" (json totals.credit)
  return payload.insert "difference" (json (totals.debit - totals.credit))

/-- An Expense that does not say so counts as paid. -/
def defaultPaid (payload : Map) : Map :=
  match payload.get "is_paid" with
  | none | some .null => payload.insert "is_paid" (.int 1)
  | some _ => payload

/-- `validate_c5_document`, the Expense arm. -/
def validateExpense (payload : Map) (settings : CompanySettings) : Except PostingError Map := do
  refuseForeignRate "Expense" payload
  let payload := defaultPaid payload
  let net ← moneyField payload "net_amount" "Expense"
  if net ≤ 0 then throw (.validation "Expense: net_amount must be more than zero")
  let tax ← moneyField payload "tax_amount" "Expense"
  let gross := round2 (net + tax)
  match sentNumber payload "gross_amount" with
  | some sent =>
    if (sent - gross).abs > moneyEps then
      throw (.validation ("Expense: gross_amount " ++ display sent ++ " does not equal net " ++
        display net ++ " + VAT " ++ display tax))
  | none => pure ()
  let payload := payload.insert "gross_amount" (json gross)
  if (asNonEmpty (payload.get "expense_account")).isNone then
    throw (.validation "Expense needs a category (expense_account)")
  return if tax ≠ 0 ∧ (asNonEmpty (payload.get "tax_account")).isNone then
    payload.insert "tax_account" (.string settings.defaultVatAccount)
  else payload

/-- `validate_c5_document`, the Customer Deposit arm. -/
def validateCustomerDeposit (payload : Map) : Except PostingError Unit := do
  refuseForeignRate "Customer Deposit" payload
  let amount ← moneyField payload "amount" "Customer Deposit"
  if amount ≤ 0 then throw (.validation "Customer Deposit: amount must be more than zero")
  if (asNonEmpty (payload.get "customer")).isNone then
    throw (.validation "Customer Deposit needs a customer")

/-- `validate_c5_document`. -/
def validateC5Document (doctype : String) (payload : Map) (settings : CompanySettings) :
    Except PostingError Map :=
  match doctype with
  | "Journal Entry" => validateJournalEntry payload
  | "Expense" => validateExpense payload settings
  | "Customer Deposit" => do
    validateCustomerDeposit payload
    return payload
  | _ => .ok payload

/-! ### Deposits and payments -/

/-- `deposit_guard_violation` of a payment that applies a deposit. -/
def depositGuardViolation (depositId customer : String) (amount : Ieee)
    (deposit : Option PostedDocument) (applications : List PostedDocument) : Option String :=
  match deposit.filter fun d => d.docstatus = 1 with
  | none => some s!"deposit {depositId} is not submitted; submit it before applying it"
  | some deposit =>
    let owner := (asNonEmpty (deposit.payload.get "customer")).getD ""
    if owner ≠ customer then some s!"deposit {depositId} belongs to {owner}, not {customer}"
    else
      let total := asNum (deposit.payload.get "amount")
      let applied := ((applications.filter fun p => p.docstatus = 1).map fun p =>
        asNum (p.payload.get "paid_amount")).sum
      let remaining := total - applied
      if amount > remaining + moneyEps then
        some ("deposit " ++ depositId ++ " has " ++ display2 remaining ++
          " left; this application of " ++ display2 amount ++ " exceeds it")
      else none

/-- The currency check of `deposit_application`. -/
def refuseForeignDeposit (depositId : String) (payload : Map) : Except PostingError Unit :=
  match sentNumber payload "conversion_rate" with
  | some rate =>
    if (rate - 1).abs > .fin (1 / 10 ^ 9) then
      .error (.validation ("a payment applying deposit " ++ depositId ++
        " must be in the company currency (conversion_rate " ++ display rate ++
        "); deposits are held in the company currency"))
    else .ok ()
  | none => .ok ()

/-- `deposit_application`: the payload with the deposit's defaults. -/
def depositApplication (view : StoreView) (companyId : Uuid) (payload : Map) :
    Except PostingError Map := do
  let some depositId := asNonEmpty (payload.get "deposit") | return payload
  let payload := payload.insert "deposit" (.string depositId)
  if asNonEmpty (payload.get "payment_type") ≠ some "Receive" then
    throw (.validation s!"deposit {depositId} can only be applied by a Receive payment")
  let deposit := view.postedDocument companyId "Customer Deposit" depositId
  let some depositDoc := deposit.filter fun d => d.docstatus = 1
    | throw (.validation s!"deposit {depositId} is not submitted; submit it before applying it")
  let liability := (asNonEmpty (depositDoc.payload.get "deposit_account")).getD ""
  let customer := (asNonEmpty (depositDoc.payload.get "customer")).getD ""
  let payload :=
    if (asNonEmpty (payload.get "paid_to")).isNone then payload.insert "paid_to" (.string liability)
    else payload
  let payload :=
    if (asNonEmpty (payload.get "party")).isNone then
      (payload.insert "party_type" (.string "Customer")).insert "party" (.string customer)
    else payload
  let paidTo := accountField payload "paid_to"
  if paidTo ≠ liability then
    throw (.validation ("a payment applying deposit " ++ depositId ++
      " must debit its liability account " ++ liability ++ ", not " ++ paidTo))
  refuseForeignDeposit depositId payload
  match depositGuardViolation depositId (accountField payload "party")
    (asNum (payload.get "paid_amount")) deposit (view.depositApplications companyId depositId) with
  | some reason => throw (.validation reason)
  | none => return payload

/-- The deposit step of `build_submit`. -/
def applyDeposit (view : StoreView) (companyId : Uuid) (doctype : String) (payload : Map) :
    Except PostingError Map :=
  if doctype = "Payment Entry" then depositApplication view companyId payload
  else .ok payload

/-- One allocation of `validate_payment_submit`: it joins the allocated total. -/
def checkAllocation (total : Ieee) (s : Settlement) : Except PostingError Ieee :=
  if s.invoiceVoucherType ∉ settleableDoctypes then
    .error (.validation ("payment references " ++ s.invoiceVoucherType ++ " " ++
      s.invoiceVoucherNo ++ " — only submitted Sales/Purchase Invoices can be settled"))
  else if s.allocatedAmount < .fin (-moneyEps) then
    .error (.validation ("allocated_amount " ++ display s.allocatedAmount ++ " against " ++
      s.invoiceVoucherType ++ " " ++ s.invoiceVoucherNo ++ " must not be negative"))
  else .ok (total + s.allocatedAmount)

/-- `validate_payment_submit`. -/
def validatePaymentSubmit (payload : Map) (settlements : List Settlement) :
    Except PostingError Unit := do
  let paid := asNum (payload.get "paid_amount")
  if paid ≤ 0 then
    throw (.validation ("paid_amount must be positive, got " ++ display paid))
  let allocatedTotal ← settlements.foldlM checkAllocation 0
  if allocatedTotal > paid + moneyEps then
    throw (.validation ("allocated total " ++ display allocatedTotal ++ " exceeds paid_amount " ++
      display paid))

/-- The invoice a settlement names. -/
def Settlement.invoiceKey (s : Settlement) : String × String :=
  (s.invoiceVoucherType, s.invoiceVoucherNo)

/-- The amounts allocated to an invoice. -/
def allocatedTo (key : String × String) (settlements : List Settlement) : Ieee :=
  ((settlements.filter fun s => s.invoiceKey = key).map Settlement.allocatedAmount).sum

/-- The amounts the store has settled on an invoice. -/
def settledOn (view : StoreView) (companyId : Uuid) (key : String × String) : Ieee :=
  .fin ((view.settlementsForInvoice companyId key.1 key.2).map
    AtlasTeam.Settlement.allocatedAmount).sum

/-- The body of `payment_outstanding_updates` for one invoice of a submit. -/
def outstandingUpdate (view : StoreView) (companyId : Uuid) (newSettlements : List Settlement)
    (key : String × String) : Except PostingError (String × String × Ieee) := do
  let some invoice := view.postedDocument companyId key.1 key.2
    | throw (.validation ("payment references unknown invoice " ++ key.1 ++ " " ++ key.2))
  if invoice.docstatus ≠ 1 then
    throw (.validation ("payment references invoice " ++ key.1 ++ " " ++ key.2 ++
      " which is not submitted"))
  let grand := asNum (invoice.payload.get "grand_total")
  let stored := settledOn view companyId key
  let new := allocatedTo key newSettlements
  let current := outstandingAmount grand [stored]
  if new > current + moneyEps then
    throw (.validation ("allocation " ++ display new ++ " against " ++ key.1 ++ " " ++ key.2 ++
      " exceeds its outstanding " ++ display current))
  return (key.1, key.2, outstandingAmount grand [stored, new])

/-- The loop of `payment_outstanding_updates`: each invoice once, in order of first mention. -/
def outstandingLoop (update : String × String → Except PostingError (String × String × Ieee)) :
    List Settlement → List (String × String) → Except PostingError (List (String × String × Ieee))
  | [], _ => .ok []
  | s :: rest, seen =>
    if s.invoiceKey ∈ seen then outstandingLoop update rest seen
    else do
      let head ← update s.invoiceKey
      let tail ← outstandingLoop update rest (s.invoiceKey :: seen)
      return head :: tail

/-- `payment_outstanding_updates` of a submit. -/
def paymentOutstandingUpdates (view : StoreView) (companyId : Uuid)
    (newSettlements : List Settlement) : Except PostingError (List (String × String × Ieee)) :=
  outstandingLoop (outstandingUpdate view companyId newSettlements) newSettlements []

/-! ### The generated GL -/

/-- `check_balanced`. -/
def checkBalanced (gl : List GlEntry) : Except PostingError Unit :=
  let debit := (gl.map GlEntry.debit).sum
  let credit := (gl.map GlEntry.credit).sum
  if (debit - credit).abs > balanceTolerance then
    .error (.validation ("generated GL does not balance: debit " ++ display debit ++
      " vs credit " ++ display credit))
  else .ok ()

end AtlasTeam.F64
