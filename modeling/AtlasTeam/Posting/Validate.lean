import AtlasTeam.Lib.Except
import AtlasTeam.Posting.Derive
import AtlasTeam.Store.View

/-!
# Validation of a command (`posting/engine.rs`)

The rules a submit is held to before anything is built from it: the posting date and the period
lock, recomputed invoice totals and tax rows, the Journal Entry, Expense and Customer Deposit rules,
deposit applications, payment allocations, balance and group accounts. Each check either refuses
with the message the client sees or hands on the payload with its derived fields written.
-/

namespace AtlasTeam

inductive PostingError where
  | validation (reason : String)
  | notFound
  | conflict (reason : String)
  | store (error : StoreError)
deriving DecidableEq

/-- `TAX_ROW_EPS`. -/
def taxRowEps : ℚ := 1 / 100

/-- `BALANCE_TOLERANCE`. -/
def balanceTolerance : ℚ := 5 / 1000

/-- `WITHHOLDING_TAX_TYPE`. -/
def withholdingTaxType : String := "Withholding"

/-- `SETTLEABLE_DOCTYPES`. -/
def settleableDoctypes : List String := ["Sales Invoice", "Purchase Invoice"]

/-- One character of a `{:?}` text. -/
def debugChar (c : Char) : String :=
  if c = '"' then "\\\""
  else if c = '\\' then "\\\\"
  else if c = '\n' then "\\n"
  else if c = '\r' then "\\r"
  else if c = '\t' then "\\t"
  else if c.toNat = 0 then "\\0"
  else if c.toNat < 0x20 ∨ c.toNat = 0x7f then
    "\\u\x7b" ++ String.ofList (Nat.toDigits 16 c.toNat) ++ "\x7d"
  else String.ofList [c]

/-- `{:?}` of a text. -/
def debugText (s : String) : String := "\"" ++ String.join (s.toList.map debugChar) ++ "\""

/-! ### Posting date and period lock -/

def minPostingYear : Nat := 1900

def maxPostingYear : Nat := 2100

def isLeapYear (year : Nat) : Bool := year % 4 = 0 && (year % 100 ≠ 0 || year % 400 = 0)

def daysInMonth (year month : Nat) : Nat :=
  if month = 2 then (if isLeapYear year then 29 else 28)
  else if month ∈ [4, 6, 9, 11] then 30
  else 31

/-- `NaiveDate::from_ymd_opt` accepts the date. -/
def isCalendarDate (year month day : Nat) : Bool :=
  1 ≤ month && month ≤ 12 && 1 ≤ day && day ≤ daysInMonth year month

/-- A strict `YYYY-MM-DD` text. -/
def isWellFormedDate (cs : List Char) : Bool :=
  cs.length = 10 && cs.zipIdx.all fun (c, i) => if i = 4 ∨ i = 7 then c = '-' else c.isDigit

/-- `validated_posting_date`; `today` is what the clock shows. -/
def validatedPostingDate (today : String) (payload : Map) : Except PostingError String :=
  match payload.get "posting_date" with
  | none | some .null => .ok today
  | some (.string s) =>
    let date := trim s
    if date = "" then .ok today
    else
      let cs := date.toList
      let year := digitsValue (cs.take 4)
      let month := digitsValue ((cs.drop 5).take 2)
      let day := digitsValue (cs.drop 8)
      if isWellFormedDate cs && minPostingYear ≤ year && year ≤ maxPostingYear &&
          isCalendarDate year month day then .ok date
      else
        .error (.validation ("posting_date " ++ debugText date ++
          s!" is not a valid date: expected YYYY-MM-DD between {minPostingYear}-01-01 " ++
          s!"and {maxPostingYear}-12-31"))
  | some other =>
    .error (.validation ("posting_date must be a YYYY-MM-DD string, got " ++ other.render))

/-- `check_period_lock`. -/
def checkPeriodLock (settings : CompanySettings) (postingDate : String) : Except PostingError Unit :=
  match settings.booksLockDate with
  | some lock =>
    if postingDate ≤ lock then
      .error (.validation
        s!"posting date {postingDate} falls in a locked period (books locked through {lock})")
    else .ok ()
  | none => .ok ()

/-! ### Account defaults -/

inductive DefaultAccount where
  | receivable
  | payable
  | income
  | expense
  | deposit
  | cash

def DefaultAccount.of (settings : CompanySettings) : DefaultAccount → String
  | .receivable => settings.defaultReceivableAccount
  | .payable => settings.defaultPayableAccount
  | .income => settings.defaultIncomeAccount
  | .expense => settings.defaultExpenseAccount
  | .deposit => settings.defaultCustomerDepositAccount
  | .cash => settings.defaultCashAccount

/-- The posting accounts of a doctype and the default each falls back to. -/
def accountFallbacks (doctype : String) (payload : Map) : List (String × DefaultAccount) :=
  match doctype with
  | "Sales Invoice" => [("debit_to", .receivable), ("income_account", .income)]
  | "Purchase Invoice" => [("credit_to", .payable), ("expense_account", .expense)]
  | "POS Invoice" => [("cash_account", .cash), ("income_account", .income)]
  | "Expense" => [("paid_from", .cash), ("credit_to", .payable)]
  | "Customer Deposit" => [("cash_account", .cash), ("deposit_account", .deposit)]
  | "Payment Entry" =>
    match asNonEmpty (payload.get "payment_type") with
    | some "Receive" => [("paid_from", .receivable), ("paid_to", .cash)]
    | some "Pay" => [("paid_from", .cash), ("paid_to", .payable)]
    | _ => []
  | _ => []

/-- `resolve_account_fallbacks`. -/
def resolveAccountFallbacks (doctype : String) (payload : Map) (settings : CompanySettings) : Map :=
  (accountFallbacks doctype payload).foldl (fun payload (field, default) =>
    if (asNonEmpty (payload.get field)).isNone then
      payload.insert field (.string (default.of settings))
    else payload) payload

/-! ### Invoice totals and tax rows -/

/-- `sent_number`: absent, null and blank read as not sent. -/
def sentNumber (payload : Map) (field : String) : Option ℚ :=
  match payload.get field with
  | none | some .null => none
  | some (.string s) => if trim s = "" then none else some (asNum (some (.string s)))
  | some v => some (asNum (some v))

/-- One line of `validate_invoice_totals`: its amount joins the running sum and count. -/
def lineTotal (acc : ℚ × Nat) (entry : Map × Nat) : Except PostingError (ℚ × Nat) :=
  let (line, index) := entry
  let derived := round2 (asNum (line.get "qty") * asNum (line.get "rate"))
  match line.get "amount" with
  | none | some .null => .ok (acc.1 + derived, acc.2 + 1)
  | some v =>
    let sent := asNum (some v)
    if |sent - derived| > moneyEps then
      .error (.validation
        (s!"items[{index}]: amount " ++ display sent ++ " does not match qty × rate = " ++
          display derived))
    else .ok (acc.1 + sent, acc.2 + 1)

def isWithholding (row : Map) : Bool := asNonEmpty (row.get "tax_type") = some withholdingTaxType

/-- A stated total against its recomputation; an absent one takes the computed value. -/
def statedTotal (payload : Map) (field : String) (computed tolerance : ℚ) (source : String) :
    Except PostingError ℚ :=
  match sentNumber payload field with
  | some sent =>
    if |sent - computed| > tolerance then
      .error (.validation (field ++ ": sent " ++ display sent ++ ", expected " ++
        display computed ++ " (" ++ source ++ ")"))
    else .ok sent
  | none => .ok computed

/-- `validate_invoice_totals`. -/
def validateInvoiceTotals (payload : Map) (trackOutstanding : Bool) : Except PostingError Map := do
  let inclusive := isTrue (payload.get "prices_include_tax")
  let (linesSum, lineCount) ← (objectRows (itemsOf payload)).foldlM lineTotal (0, 0)
  let taxRows := (arrayOf payload "taxes").filterMap Value.asObject
  let taxSum := (taxRows.map fun row => asNum (row.get "tax_amount")).sum
  let extracted :=
    ((taxRows.filter fun row => inclusive && !isWithholding row).map fun row =>
      asNum (row.get "tax_amount")).sum
  let computedTotal := round2 (linesSum - extracted)
  let computedTax := round2 taxSum
  let computedGrand := round2 (computedTotal + computedTax)
  let lineTolerance := moneyEps * (max lineCount 1 : Nat)
  let total ← statedTotal payload "total" computedTotal lineTolerance
    ("Σ line amounts" ++ if inclusive then " − extracted tax" else "")
  let taxTotal ← statedTotal payload "tax_total" computedTax moneyEps "Σ tax row amounts"
  let grand ← statedTotal payload "grand_total" computedGrand lineTolerance "total + tax_total"
  let payload :=
    if (sentNumber payload "grand_total").isNone then payload.insert "grand_total" (.num grand)
    else payload
  if |grand - (total + taxTotal)| > 2 * moneyEps then
    throw (.validation ("grand_total " ++ display grand ++ " does not equal total " ++
      display total ++ " + tax_total " ++ display taxTotal))
  -- the outstanding an invoice starts with is its validated grand total, never the client's
  let payload := payload.remove "outstanding_amount"
  return if trackOutstanding then payload.insert "outstanding_amount" (.num grand) else payload

/-- One row of `validate_tax_rows`. -/
def checkTaxRow (isReturn : Bool) (entry : Map × Nat) : Except PostingError Unit := do
  let (row, index) := entry
  let rate := asNum (row.get "rate")
  let taxable := asNum (row.get "taxable_amount")
  let taxAmount := asNum (row.get "tax_amount")
  if rate < 0 then
    throw (.validation (s!"taxes[{index}]: rate " ++ display rate ++ " must not be negative"))
  if !isReturn && taxable < -moneyEps then
    throw (.validation
      (s!"taxes[{index}]: taxable_amount " ++ display taxable ++ " must not be negative"))
  if isReturn && taxable > moneyEps then
    throw (.validation
      (s!"taxes[{index}]: taxable_amount " ++ display taxable ++ " must not be positive on a return"))
  let magnitude := round2 (taxable * rate / 100)
  let expected := if isWithholding row then -magnitude else magnitude
  if |taxAmount - expected| > taxRowEps then
    throw (.validation (s!"taxes[{index}]: tax_amount " ++ display taxAmount ++ ", expected " ++
      display expected ++ " (taxable_amount " ++ display taxable ++ " × rate " ++ display rate ++
      "%)"))

/-- `validate_tax_rows`. -/
def validateTaxRows (payload : Map) : Except PostingError Unit :=
  (objectRows (arrayOf payload "taxes")).forM (checkTaxRow (isTrue (payload.get "is_return")))

/-! ### Journal Entry, Expense, Customer Deposit -/

/-- `refuse_foreign_rate`. -/
def refuseForeignRate (doctype : String) (payload : Map) : Except PostingError Unit :=
  match sentNumber payload "conversion_rate" with
  | some rate =>
    if |rate - 1| > 1 / 10 ^ 9 then
      .error (.validation (doctype ++ " posts in the company currency only (conversion_rate " ++
        display rate ++ "); record a foreign-currency amount with a Journal Entry or a " ++
        "Purchase Invoice"))
    else .ok ()
  | none => .ok ()

/-- `money_field`. -/
def moneyField (payload : Map) (field what : String) : Except PostingError ℚ :=
  let value := asNum (payload.get field)
  match nonFinite (payload.get field) with
  | some text =>
    .error (.validation (what ++ ": " ++ field ++ " must be zero or more, got " ++ text))
  | none =>
    if value < 0 then
      .error (.validation (what ++ ": " ++ field ++ " must be zero or more, got " ++ display value))
    else .ok value

/-- The running totals of a Journal Entry: debit, credit, lines with an amount. -/
structure JournalTotals where
  debit : ℚ := 0
  credit : ℚ := 0
  lines : Nat := 0

/-- One `accounts` row of a Journal Entry. -/
def journalRow (acc : JournalTotals) (entry : Value × Nat) : Except PostingError JournalTotals := do
  let (row, i) := entry
  let what := s!"accounts[{i}]"
  let some row := row.asObject | throw (.validation s!"accounts[{i}] must be an object")
  let d ← moneyField row "debit" what
  let c ← moneyField row "credit" what
  if d > 0 ∧ c > 0 then
    throw (.validation (what ++ " has both a debit and a credit; use two lines"))
  if (asNonEmpty (row.get "account")).isNone then
    if d > 0 ∨ c > 0 then throw (.validation (what ++ " has an amount but no account"))
    return acc
  match asNonEmpty (row.get "party_type") with
  | some partyType =>
    if (PartyKind.parse partyType).isSome && (asNonEmpty (row.get "party")).isNone then
      throw (.validation (what ++ " names party_type " ++ partyType ++ " but no party"))
  | none => pure ()
  return { debit := acc.debit + d
           credit := acc.credit + c
           lines := if d > 0 ∨ c > 0 then acc.lines + 1 else acc.lines }

/-- `validate_c5_document`, the Journal Entry arm. -/
def validateJournalEntry (payload : Map) : Except PostingError Map := do
  let totals ← (arrayOf payload "accounts").zipIdx.foldlM journalRow {}
  if totals.lines < 2 then
    throw (.validation "a Journal Entry needs at least two lines with an amount")
  if |totals.debit - totals.credit| ≥ balanceTolerance then
    throw (.validation ("Journal Entry does not balance: total debit " ++ display totals.debit ++
      " ≠ total credit " ++ display totals.credit))
  let payload := payload.insert "total_debit" (.num totals.debit)
  let payload := payload.insert "total_credit" (.num totals.credit)
  return payload.insert "difference" (.num (totals.debit - totals.credit))

/-- `validate_c5_document`, the Expense arm. -/
def validateExpense (payload : Map) (settings : CompanySettings) : Except PostingError Map := do
  refuseForeignRate "Expense" payload
  let payload := match payload.get "is_paid" with
    | none | some .null => payload.insert "is_paid" (.int 1)
    | some _ => payload
  let net ← moneyField payload "net_amount" "Expense"
  if net ≤ 0 then throw (.validation "Expense: net_amount must be more than zero")
  let tax ← moneyField payload "tax_amount" "Expense"
  let gross := round2 (net + tax)
  match sentNumber payload "gross_amount" with
  | some sent =>
    if |sent - gross| > moneyEps then
      throw (.validation ("Expense: gross_amount " ++ display sent ++ " does not equal net " ++
        display net ++ " + VAT " ++ display tax))
  | none => pure ()
  let payload := payload.insert "gross_amount" (.num gross)
  if (asNonEmpty (payload.get "expense_account")).isNone then
    throw (.validation "Expense needs a category (expense_account)")
  return if tax ≠ 0 ∧ (asNonEmpty (payload.get "tax_account")).isNone then
    payload.insert "tax_account" (.string settings.defaultVatAccount)
  else payload

/-- `validate_c5_document`, the Customer Deposit arm. -/
def validateCustomerDeposit (payload : Map) : Except PostingError Unit := do
  refuseForeignRate "Customer Deposit" payload
  let amount ← moneyField payload "amount" "Customer Deposit"
  if amount ≤ 0 then throw (.validation "Customer Deposit: amount must be more than zero")
  if (asNonEmpty (payload.get "customer")).isNone then
    throw (.validation "Customer Deposit needs a customer")

/-- `validate_c5_document`. -/
def validateC5Document (doctype : String) (payload : Map) (settings : CompanySettings) :
    Except PostingError Map :=
  match doctype with
  | "Journal Entry" => validateJournalEntry payload
  | "Expense" => validateExpense payload settings
  | "Customer Deposit" => do
    validateCustomerDeposit payload
    return payload
  | _ => .ok payload

/-! ### Deposits and payments -/

/-- The currency check of `deposit_application`. -/
def refuseForeignDeposit (depositId : String) (payload : Map) : Except PostingError Unit :=
  match sentNumber payload "conversion_rate" with
  | some rate =>
    if |rate - 1| > 1 / 10 ^ 9 then
      .error (.validation ("a payment applying deposit " ++ depositId ++
        " must be in the company currency (conversion_rate " ++ display rate ++
        "); deposits are held in the company currency"))
    else .ok ()
  | none => .ok ()

/-- `deposit_application`: the payload with the deposit's defaults and the guard to re-check. -/
def depositApplication (view : StoreView) (companyId : Uuid) (payload : Map) :
    Except PostingError (Map × Option DepositGuard) := do
  let some depositId := asNonEmpty (payload.get "deposit") | return (payload, none)
  let payload := payload.insert "deposit" (.string depositId)
  if asNonEmpty (payload.get "payment_type") ≠ some "Receive" then
    throw (.validation s!"deposit {depositId} can only be applied by a Receive payment")
  let deposit := view.postedDocument companyId "Customer Deposit" depositId
  let some depositDoc := deposit.filter fun d => d.docstatus = 1
    | throw (.validation s!"deposit {depositId} is not submitted; submit it before applying it")
  let liability := (asNonEmpty (depositDoc.payload.get "deposit_account")).getD ""
  let customer := (asNonEmpty (depositDoc.payload.get "customer")).getD ""
  let payload :=
    if (asNonEmpty (payload.get "paid_to")).isNone then payload.insert "paid_to" (.string liability)
    else payload
  let payload :=
    if (asNonEmpty (payload.get "party")).isNone then
      (payload.insert "party_type" (.string "Customer")).insert "party" (.string customer)
    else payload
  let paidTo := accountField payload "paid_to"
  if paidTo ≠ liability then
    throw (.validation ("a payment applying deposit " ++ depositId ++
      " must debit its liability account " ++ liability ++ ", not " ++ paidTo))
  refuseForeignDeposit depositId payload
  let guard := DepositGuard.apply depositId (accountField payload "party")
    (asNum (payload.get "paid_amount"))
  match depositGuardViolation guard deposit (view.depositApplications companyId depositId) with
  | some reason => throw (.validation reason)
  | none => return (payload, some guard)

/-- One allocation of `validate_payment_submit`: it joins the allocated total. -/
def checkAllocation (total : ℚ) (s : Settlement) : Except PostingError ℚ :=
  if s.invoiceVoucherType ∉ settleableDoctypes then
    .error (.validation ("payment references " ++ s.invoiceVoucherType ++ " " ++
      s.invoiceVoucherNo ++ " — only submitted Sales/Purchase Invoices can be settled"))
  else if s.allocatedAmount < -moneyEps then
    .error (.validation ("allocated_amount " ++ display s.allocatedAmount ++ " against " ++
      s.invoiceVoucherType ++ " " ++ s.invoiceVoucherNo ++ " must not be negative"))
  else .ok (total + s.allocatedAmount)

/-- `validate_payment_submit`. -/
def validatePaymentSubmit (payload : Map) (settlements : List Settlement) :
    Except PostingError Unit := do
  let paid := asNum (payload.get "paid_amount")
  if paid ≤ 0 then
    throw (.validation ("paid_amount must be positive, got " ++ display paid))
  let allocatedTotal ← settlements.foldlM checkAllocation 0
  if allocatedTotal > paid + moneyEps then
    throw (.validation ("allocated total " ++ display allocatedTotal ++ " exceeds paid_amount " ++
      display paid))

/-- The invoice a settlement names. -/
def Settlement.invoiceKey (s : Settlement) : String × String :=
  (s.invoiceVoucherType, s.invoiceVoucherNo)

/-- The amounts allocated to an invoice. -/
def allocatedTo (key : String × String) (settlements : List Settlement) : ℚ :=
  ((settlements.filter fun s => s.invoiceKey = key).map Settlement.allocatedAmount).sum

/-- The body of `payment_outstanding_updates` for one invoice. -/
def outstandingUpdate (view : StoreView) (companyId : Uuid) (newSettlements : List Settlement)
    (enforceAllocationLimits : Bool) (key : String × String) :
    Except PostingError (String × String × ℚ) := do
  let some invoice := view.postedDocument companyId key.1 key.2
    | throw (.validation ("payment references unknown invoice " ++ key.1 ++ " " ++ key.2))
  if invoice.docstatus ≠ 1 then
    throw (.validation ("payment references invoice " ++ key.1 ++ " " ++ key.2 ++
      " which is not submitted"))
  let grand := asNum (invoice.payload.get "grand_total")
  let stored :=
    ((view.settlementsForInvoice companyId key.1 key.2).map Settlement.allocatedAmount).sum
  let new := allocatedTo key newSettlements
  let current := outstandingAmount grand [stored]
  if enforceAllocationLimits ∧ new > current + moneyEps then
    throw (.validation ("allocation " ++ display new ++ " against " ++ key.1 ++ " " ++ key.2 ++
      " exceeds its outstanding " ++ display current))
  return (key.1, key.2, outstandingAmount grand [stored, new])

/-- The loop of `payment_outstanding_updates`: each invoice once, in order of first mention. -/
def outstandingLoop (update : String × String → Except PostingError (String × String × ℚ)) :
    List Settlement → List (String × String) → Except PostingError (List (String × String × ℚ))
  | [], _ => .ok []
  | s :: rest, seen =>
    if s.invoiceKey ∈ seen then outstandingLoop update rest seen
    else do
      let head ← update s.invoiceKey
      let tail ← outstandingLoop update rest (s.invoiceKey :: seen)
      return head :: tail

/-- `payment_outstanding_updates`. -/
def paymentOutstandingUpdates (view : StoreView) (companyId : Uuid)
    (newSettlements : List Settlement) (enforceAllocationLimits : Bool) :
    Except PostingError (List (String × String × ℚ)) :=
  outstandingLoop (outstandingUpdate view companyId newSettlements enforceAllocationLimits)
    newSettlements []

/-! ### The generated GL -/

/-- `check_balanced`. -/
def checkBalanced (gl : List GlEntry) : Except PostingError Unit :=
  let debit := (gl.map GlEntry.debit).sum
  let credit := (gl.map GlEntry.credit).sum
  if |debit - credit| > balanceTolerance then
    .error (.validation ("generated GL does not balance: debit " ++ display debit ++
      " vs credit " ++ display credit))
  else .ok ()

/-- `sort` followed by `dedup`. -/
def sortDedup (xs : List String) : List String :=
  (xs.insertionSort (· ≤ ·)).destutter (· ≠ ·)

theorem mem_destutter' {a b : String} {xs : List String} (h : b = a ∨ b ∈ xs) :
    b ∈ xs.destutter' (· ≠ ·) a := by
  induction xs generalizing a with
  | nil => exact h.elim (fun h => h ▸ List.mem_singleton_self a) fun h => absurd h List.not_mem_nil
  | cons c xs ih =>
    by_cases hne : a ≠ c
    · rw [List.destutter'_cons_pos _ hne]
      rcases h with rfl | h
      · exact List.mem_cons_self
      · exact List.mem_cons_of_mem _ (ih (List.mem_cons.1 h))
    · rw [List.destutter'_cons_neg _ hne]
      obtain rfl := not_not.1 hne
      exact ih (h.elim .inl List.mem_cons.1)

theorem mem_sortDedup {x : String} {xs : List String} (h : x ∈ xs) : x ∈ sortDedup xs := by
  have hsorted : x ∈ xs.insertionSort (· ≤ ·) := (List.mem_insertionSort _).2 h
  rw [sortDedup]
  cases hxs : xs.insertionSort (· ≤ ·) with
  | nil => rw [hxs] at hsorted; exact absurd hsorted List.not_mem_nil
  | cons a rest =>
    rw [hxs] at hsorted
    exact mem_destutter' (List.mem_cons.1 hsorted)

/-- One account of `check_group_accounts`: a group account joins the refused ones. -/
def checkAccount (view : StoreView) (companyId : Uuid) (groups : List String) (account : String) :
    Except PostingError (List String) :=
  if account = "" then
    .error (.validation "a ledger line has no account; set the account (or the company default)")
  else
    match view.companyDocument companyId "Account" account with
    | some doc => .ok (if isTrue (doc.payload.get "is_group") then groups ++ [account] else groups)
    | none => .ok groups

/-- `check_group_accounts`. -/
def checkGroupAccounts (view : StoreView) (companyId : Uuid) (gl : List GlEntry) :
    Except PostingError Unit := do
  let groups ← (sortDedup (gl.map GlEntry.account)).foldlM (checkAccount view companyId) []
  if groups ≠ [] then
    throw (.validation ("cannot post to group account" ++ (if groups.length > 1 then "s" else "") ++
      " " ++ String.intercalate ", " groups ++ ": choose a leaf (posting) account"))

example : validatedPostingDate "2026-01-15" [("posting_date", .string " 2024-02-29 ")] =
    .ok "2024-02-29" := by decide +kernel

end AtlasTeam
