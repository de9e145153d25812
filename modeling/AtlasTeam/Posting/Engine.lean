import AtlasTeam.Posting.Costing

/-!
# Building commits (`posting/engine.rs`)

`buildSubmit` and `buildCancel` read a store and build the one `PostingCommit` an official action
makes. A submit goes through `preparePayload` (validation and defaults), `deriveRows` (derivation
and costing) and the checks over the derived rows; `submitCommit` assembles what is committed. A
cancel mirrors the stored rows of its voucher. The inversion lemmas `buildSubmit_ok` and
`buildCancel_ok` say what a successful build has passed and what it returns.
-/

namespace AtlasTeam

structure Actor where
  userId : Option Uuid
  deviceId : Option Uuid
  replicationDeviceId : Option String

structure SubmitCommand where
  doctype : String
  documentId : Option String
  payload : Map
  items : List Value
  idempotencyKey : Option String
  offlineFiscal : Bool

structure CancelCommand where
  doctype : String
  documentId : String
  idempotencyKey : Option String

/-- `OFFLINE_FISCAL_DOCTYPE`. -/
def offlineFiscalDoctype : String := "POS Invoice"

/-- `MAX_RETRIES`. -/
def maxRetries : Nat := 16

/-- `audit_row`. -/
def auditRow (env : Env) (companyId : Uuid) (actor : Actor) (action : String) (detail : Value) :
    AuditEntry :=
  { id := env.uuid
    companyId
    userId := actor.userId
    deviceId := actor.deviceId
    action
    detail
    at_ := env.now }

/-- `bound_replay`: a key replays only the command it was first used for. -/
def boundReplay (outcome : CommitOutcome) (doctype : String) (documentId : Option String) :
    Except PostingError CommitOutcome :=
  let sameDoctype := match (outcome.response.get "doctype").bind Value.asStr with
    | some stored => stored = doctype
    | none => true
  let sameDocument := match documentId with
    | some id => (outcome.response.get "document_id").bind Value.asStr = some id
    | none => true
  if sameDoctype && sameDocument then .ok outcome
  else .error (.conflict "idempotency_key was already used for a different command")

/-- `replay`. -/
def replay (view : StoreView) (companyId : Uuid) (key : Option String) : Option CommitOutcome :=
  (key.bind (view.idempotentResponse companyId)).map fun response => { response, replayed := true }

/-- `validate_offline_fiscal`. -/
def validateOfflineFiscal (cmd : SubmitCommand) (actor : Actor) : Except PostingError Unit := do
  if cmd.doctype ≠ offlineFiscalDoctype then
    throw (.validation
      s!"offline_fiscal confirmation is only available for {offlineFiscalDoctype}")
  if actor.deviceId.isNone then
    throw (.validation "offline_fiscal confirmation must come from the till's device")
  let some id := cmd.documentId.filter fun id => trim id ≠ ""
    | throw (.validation
        "offline_fiscal confirmation needs the till receipt number as document_id")
  let some series := asNonEmpty (cmd.payload.get "till_series")
    | throw (.validation ("offline_fiscal POS sales need a till receipt series (till_series); " ++
        "a shared series cannot stay unique across registers"))
  if ¬ (series.toList <:+: id.toList) ∨ id.utf8ByteSize > 120 then
    throw (.validation ("receipt number " ++ debugText id ++ " was not minted from till series " ++
      debugText series))

/-! ### Submit -/

/-- The payload a submit posts, its date and its deposit guard. -/
structure Prepared where
  payload : Map
  postingDate : String
  depositGuard : Option DepositGuard

/-- The invoice checks of `build_submit`. -/
def validateTotals (doctype : String) (payload : Map) : Except PostingError Map :=
  if doctype ∈ settleableDoctypes then do
    validateTaxRows payload
    validateInvoiceTotals payload true
  else if doctype = "POS Invoice" then do
    -- paid inline through tenders: there is no outstanding to track
    validateTaxRows payload
    validateInvoiceTotals payload false
  else .ok payload

/-- The deposit step of `build_submit`. -/
def applyDeposit (view : StoreView) (companyId : Uuid) (doctype : String) (payload : Map) :
    Except PostingError (Map × Option DepositGuard) :=
  if doctype = "Payment Entry" then depositApplication view companyId payload
  else .ok (payload, none)

/-- `build_submit` up to the derivation. -/
def preparePayload (view : StoreView) (env : Env) (companyId : Uuid) (cmd : SubmitCommand)
    (documentId : String) : Except PostingError Prepared := do
  let settings := view.companySettings companyId
  let payload := cmd.payload.insert "items" (.array cmd.items)
  let postingDate ← validatedPostingDate env.today payload
  let payload := payload.insert "posting_date" (.string postingDate)
  checkPeriodLock settings postingDate
  if (view.postedDocument companyId cmd.doctype documentId).isSome then
    throw (.conflict s!"document {cmd.doctype} {documentId} was already submitted")
  let (payload, depositGuard) ← applyDeposit view companyId cmd.doctype payload
  let payload := resolveAccountFallbacks cmd.doctype payload settings
  let payload ← validateC5Document cmd.doctype payload settings
  let payload ← validateTotals cmd.doctype payload
  return { payload, postingDate, depositGuard }

/-- The rows a submit posts and the ledger cache they were costed on. -/
structure DerivedRows where
  gl : List GlEntry
  sles : List StockLedgerEntry
  party : List PartyTransaction
  tax : List TaxTransaction
  ledgers : Ledgers

/-- The derivation and costing of `build_submit`. -/
def deriveRows (codec : Codec) (view : StoreView) (settings : CompanySettings) (ctx : RowContext)
    (payload : Map) : DerivedRows :=
  let gl := deriveMonetaryGl ctx payload
  let raw := deriveStockRows ctx payload
  let (party, tax) := deriveSubledgerRows ctx payload
  -- base amounts are stamped before the stock legs join: those are in base currency already
  let (gl, party) :=
    if isBaseStamped ctx.doctype then stampBaseAmounts gl party payload else (gl, party)
  let items := loadItems codec view ctx.companyId raw payload
  let (sles, ledgers) := costStockMovements view ctx.companyId (stockMovements items raw) items payload
  let gl := gl ++ stockGlLegs ctx sles items settings
  let gl :=
    if ctx.doctype = "Purchase Invoice" then splitGrniFromExpense ctx gl payload items settings
    else gl
  { gl, sles, party, tax, ledgers }

/-- The stock check of a submit: a till sale that already happened is reported, never refused. -/
def stockCheck (settings : CompanySettings) (offlineFiscal : Bool) (ledgers : Ledgers) :
    Except PostingError (List Value) :=
  if offlineFiscal then .ok (stockShortfalls ledgers)
  else do
    checkNegativeStock settings ledgers
    return []

/-- The settlements of a Payment Entry and the outstanding amounts they leave. -/
def paymentRows (view : StoreView) (ctx : RowContext) (payload : Map) :
    Except PostingError (List Settlement × List (String × String × ℚ)) :=
  if ctx.doctype = "Payment Entry" then do
    let settlements := deriveSettlements ctx payload
    validatePaymentSubmit payload settlements
    let updates ← paymentOutstandingUpdates view ctx.companyId settlements true
    return (settlements, updates)
  else .ok ([], [])

/-- The device text a till binding carries. -/
def tillDevice (actor : Actor) : String := (actor.deviceId.map Uuid.render).getD ""

/-- The stored payload: a till confirmation records that it was one and from which device. -/
def storedPayload (cmd : SubmitCommand) (actor : Actor) (payload : Map) : Map :=
  if cmd.offlineFiscal then
    (payload.insert "offline_fiscal" (.bool true)).insert "till_device" (.string (tillDevice actor))
  else payload

/-- The context the rows of a submit are stamped with. -/
def submitContext (companyId : Uuid) (cmd : SubmitCommand) (documentId postingDate : String) :
    RowContext :=
  { companyId
    documentId
    doctype := cmd.doctype
    postingDate
    batchId := "PB-" ++ documentId }

/-- The commit `build_submit` assembles. -/
def submitCommit (env : Env) (companyId : Uuid) (cmd : SubmitCommand) (documentId : String)
    (actor : Actor) (prepared : Prepared) (rows : DerivedRows) (shortfalls : List Value)
    (settlements : List Settlement) (updates : List (String × String × ℚ)) : PostingCommit :=
  let payload := storedPayload cmd actor prepared.payload
  let bins := recomputeBins companyId rows.ledgers
  let (partyRows, taxRows) := subledgerResponseRows rows.party rows.tax
  let response : Value := .obj
    [("doctype", .string cmd.doctype), ("document_id", .string documentId), ("number", .null),
      ("docstatus", .int 1), ("gl_entries", .array (rows.gl.map GlEntry.toValue)),
      ("stock_ledger_entries", .array (rows.sles.map StockLedgerEntry.toValue)),
      ("party_transactions", .array partyRows), ("tax_transactions", .array taxRows),
      ("bins", .array (bins.map Bin.toValue)),
      ("settlements", .array (settlements.map Settlement.toValue))]
  let detail : Value := .obj [("doctype", .string cmd.doctype), ("documentId", .string documentId)]
  let response :=
    if cmd.offlineFiscal then
      (response.setField "offline_fiscal" (.bool true)).setField "stock_shortfalls"
        (.array shortfalls)
    else response
  let detail :=
    if cmd.offlineFiscal then
      (detail.setField "offlineFiscal" (.bool true)).setField "stockShortfalls" (.array shortfalls)
    else detail
  { companyId
    idempotencyKey := cmd.idempotencyKey
    batch :=
      { id := "PB-" ++ documentId
        companyId
        documentId
        doctype := cmd.doctype
        kind := .submit
        reversalOf := none
        createdAt := env.now }
    document :=
      { id := documentId
        companyId
        doctype := cmd.doctype
        payload := .object payload
        docstatus := 1
        officialNumber := none
        createdAt := env.now }
    documentIsNew := true
    seriesKey := if cmd.offlineFiscal then none else seriesKey cmd.doctype
    preassignedNumber := if cmd.offlineFiscal then some documentId else none
    tillBinding :=
      if cmd.offlineFiscal then
        (asNonEmpty (payload.get "till_series")).map fun series => (series, tillDevice actor)
      else none
    glEntries := rows.gl
    stockLedgerEntries := rows.sles
    partyTransactions := rows.party
    taxTransactions := rows.tax
    settlements
    bins
    outstandingUpdates := updates
    sleExpectations := rows.ledgers.expectations
    replicationDeviceId := actor.replicationDeviceId
    audit := auditRow env companyId actor "command.submit-document" detail
    response
    numberingFloors := []
    soloMigration := none
    lockCheckDate := some prepared.postingDate
    depositGuard := prepared.depositGuard }

/-- `build_submit`. -/
def buildSubmit (codec : Codec) (view : StoreView) (env : Env) (companyId : Uuid)
    (cmd : SubmitCommand) (documentId : String) (actor : Actor) :
    Except PostingError PostingCommit := do
  let settings := view.companySettings companyId
  let prepared ← preparePayload view env companyId cmd documentId
  let ctx := submitContext companyId cmd documentId prepared.postingDate
  let rows := deriveRows codec view settings ctx prepared.payload
  checkBalanced rows.gl
  checkGroupAccounts view companyId rows.gl
  let shortfalls ← stockCheck settings cmd.offlineFiscal rows.ledgers
  let (settlements, updates) ← paymentRows view ctx prepared.payload
  return submitCommit env companyId cmd documentId actor prepared rows shortfalls settlements updates

/-- What a submit that builds has passed, and the commit it makes. -/
theorem buildSubmit_ok {codec : Codec} {view : StoreView} {env : Env} {companyId : Uuid}
    {cmd : SubmitCommand} {documentId : String} {actor : Actor} {commit : PostingCommit}
    (h : buildSubmit codec view env companyId cmd documentId actor = .ok commit) :
    ∃ prepared shortfalls settlements updates,
      preparePayload view env companyId cmd documentId = .ok prepared ∧
      let ctx := submitContext companyId cmd documentId prepared.postingDate
      let rows := deriveRows codec view (view.companySettings companyId) ctx prepared.payload
      stockCheck (view.companySettings companyId) cmd.offlineFiscal rows.ledgers = .ok shortfalls ∧
      paymentRows view ctx prepared.payload = .ok (settlements, updates) ∧
      commit = submitCommit env companyId cmd documentId actor prepared rows shortfalls settlements
        updates := by
  simp only [buildSubmit, Except.bind_eq_ok, Except.pure_eq_ok] at h
  obtain ⟨prepared, hprepared, -, -, -, -, shortfalls, hstock, ⟨settlements, updates⟩, hpayment, h⟩ := h
  exact ⟨prepared, shortfalls, settlements, updates, hprepared, hstock, hpayment, h.symm⟩

/-! ### Cancel -/

/-- The reversal of a stored GL row: the columns swapped. -/
def GlEntry.reversal (batchId : String) (entry : GlEntry) : GlEntry :=
  { entry with
    id := entry.id ++ reversalSuffix
    debit := entry.credit
    credit := entry.debit
    baseDebit := entry.baseCredit
    baseCredit := entry.baseDebit
    isReversal := true
    batchId }

/-- The reversal of a stored stock row: the quantity negated at the stored rate. -/
def StockLedgerEntry.reversal (batchId : String) (sle : StockLedgerEntry) : StockLedgerEntry :=
  { sle with
    id := sle.id ++ reversalSuffix
    qtyChange := -sle.qtyChange
    isReversal := true
    batchId
    seq := 0 }

/-- The reversal of a stored settlement. -/
def Settlement.reversal (batchId : String) (s : Settlement) : Settlement :=
  { s with
    id := s.id ++ reversalSuffix
    allocatedAmount := -s.allocatedAmount
    isReversal := true
    batchId }

/-- The reversal of a stored party row: an Invoice reverses as a CreditNote, anything else as an
Adjustment. -/
def PartyTransaction.reversal (batchId : String) (t : PartyTransaction) : PartyTransaction :=
  { t with
    id := t.id ++ reversalSuffix
    transType := if t.transType = .invoice then .creditNote else .adjustment
    amount := -t.amount
    baseAmount := -t.baseAmount
    isReversal := true
    batchId }

/-- The reversal of a stored tax row. -/
def TaxTransaction.reversal (batchId : String) (t : TaxTransaction) : TaxTransaction :=
  { t with
    id := t.id ++ reversalSuffix
    baseAmount := -t.baseAmount
    taxAmount := -t.taxAmount
    isReversal := true
    batchId }

/-- The settled-invoice check of `build_cancel`. -/
def checkUnsettled (view : StoreView) (companyId : Uuid) (cmd : CancelCommand) :
    Except PostingError Unit :=
  if cmd.doctype ∈ settleableDoctypes then
    let settled := ((view.settlementsForInvoice companyId cmd.doctype cmd.documentId).map
      Settlement.allocatedAmount).sum
    if |settled| > moneyEps then
      .error (.conflict ("invoice " ++ cmd.doctype ++ " " ++ cmd.documentId ++
        " has payments settled against it (" ++ display settled ++
        "); cancel the payment entries first"))
    else .ok ()
  else .ok ()

/-- The posting date a cancel is held to. -/
def cancelDate (env : Env) (document : PostedDocument) : Except PostingError String :=
  match document.payload with
  | .object payload => validatedPostingDate env.today payload
  | _ => .ok env.today

/-- The deposit check of `build_cancel`. -/
def releaseDeposit (view : StoreView) (companyId : Uuid) (cmd : CancelCommand)
    (document : PostedDocument) : Except PostingError (Option DepositGuard) :=
  if cmd.doctype = "Customer Deposit" then
    let guard := DepositGuard.release cmd.documentId
    match depositGuardViolation guard (some document)
        (view.depositApplications companyId cmd.documentId) with
    | some reason => .error (.conflict reason)
    | none => .ok (some guard)
  else .ok none

/-- The reversal rows of a cancel. -/
structure ReversalRows where
  gl : List GlEntry
  sles : List StockLedgerEntry
  settlements : List Settlement
  party : List PartyTransaction
  tax : List TaxTransaction

/-- The stored originals of a voucher, reversed. -/
def reversalRows (view : StoreView) (companyId : Uuid) (documentId : String) : ReversalRows :=
  let batchId := "PB-" ++ documentId ++ reversalSuffix
  { gl := ((view.glForVoucher companyId documentId).filter fun e => !e.isReversal).map
      (GlEntry.reversal batchId)
    sles := ((view.slesForVoucher companyId documentId).filter fun e => !e.isReversal).map
      (StockLedgerEntry.reversal batchId)
    settlements :=
      ((view.settlementsForPayment companyId documentId).filter fun s => !s.isReversal).map
        (Settlement.reversal batchId)
    party :=
      ((view.partyTransactionsForVoucher companyId documentId).filter fun t => !t.isReversal).map
        (PartyTransaction.reversal batchId)
    tax :=
      ((view.taxTransactionsForVoucher companyId documentId).filter fun t => !t.isReversal).map
        (TaxTransaction.reversal batchId) }

/-- Replay rows onto the current ledger, for the negative-stock guard and the bins. -/
def replayRow (view : StoreView) (companyId : Uuid) (ledgers : Ledgers) (sle : StockLedgerEntry) :
    Ledgers :=
  (ledgers.priorFor view companyId sle.pair).push sle.pair sle.row

def replayRows (view : StoreView) (companyId : Uuid) (sles : List StockLedgerEntry) : Ledgers :=
  sles.foldl (replayRow view companyId) Ledgers.empty

/-- The outstanding amounts a cancelled payment restores. -/
def restoredOutstanding (view : StoreView) (companyId : Uuid) (doctype : String)
    (settlements : List Settlement) : Except PostingError (List (String × String × ℚ)) :=
  if doctype = "Payment Entry" then
    paymentOutstandingUpdates view companyId settlements false
  else .ok []

/-- The commit `build_cancel` assembles. -/
def cancelCommit (env : Env) (companyId : Uuid) (cmd : CancelCommand) (actor : Actor)
    (document : PostedDocument) (postingDate : String) (guard : Option DepositGuard)
    (rows : ReversalRows) (ledgers : Ledgers) (updates : List (String × String × ℚ)) :
    PostingCommit :=
  let bins := recomputeBins companyId ledgers
  let (partyRows, taxRows) := subledgerResponseRows rows.party rows.tax
  { companyId
    idempotencyKey := cmd.idempotencyKey
    batch :=
      { id := "PB-" ++ cmd.documentId ++ reversalSuffix
        companyId
        documentId := cmd.documentId
        doctype := cmd.doctype
        kind := .cancel
        reversalOf := some ("PB-" ++ cmd.documentId)
        createdAt := env.now }
    document := { document with docstatus := 2 }
    documentIsNew := false
    seriesKey := none
    preassignedNumber := none
    tillBinding := none
    glEntries := rows.gl
    stockLedgerEntries := rows.sles
    partyTransactions := rows.party
    taxTransactions := rows.tax
    settlements := rows.settlements
    bins
    outstandingUpdates := updates
    sleExpectations := ledgers.expectations
    replicationDeviceId := actor.replicationDeviceId
    audit := auditRow env companyId actor "command.cancel-document"
      (.obj [("doctype", .string cmd.doctype), ("documentId", .string cmd.documentId)])
    response := .obj
      [("doctype", .string cmd.doctype), ("document_id", .string cmd.documentId),
        ("number", .ofOption document.officialNumber), ("docstatus", .int 2),
        ("gl_entries", .array (rows.gl.map GlEntry.toValue)),
        ("stock_ledger_entries", .array (rows.sles.map StockLedgerEntry.toValue)),
        ("party_transactions", .array partyRows), ("tax_transactions", .array taxRows),
        ("bins", .array (bins.map Bin.toValue)),
        ("settlements", .array (rows.settlements.map Settlement.toValue))]
    numberingFloors := []
    soloMigration := none
    lockCheckDate := some postingDate
    depositGuard := guard }

/-- `build_cancel`. -/
def buildCancel (view : StoreView) (env : Env) (companyId : Uuid) (cmd : CancelCommand)
    (actor : Actor) : Except PostingError PostingCommit := do
  let settings := view.companySettings companyId
  let some document := view.postedDocument companyId cmd.doctype cmd.documentId
    | throw .notFound
  if document.docstatus ≠ 1 then
    throw (.conflict
      s!"document {cmd.doctype} {cmd.documentId} is not submitted (docstatus {document.docstatus})")
  checkUnsettled view companyId cmd
  let postingDate ← cancelDate env document
  checkPeriodLock settings postingDate
  let guard ← releaseDeposit view companyId cmd document
  let rows := reversalRows view companyId cmd.documentId
  let ledgers := replayRows view companyId rows.sles
  checkNegativeStock settings ledgers
  let updates ← restoredOutstanding view companyId cmd.doctype rows.settlements
  return cancelCommit env companyId cmd actor document postingDate guard rows ledgers updates

/-- What a cancel that builds has passed, and the commit it makes. -/
theorem buildCancel_ok {view : StoreView} {env : Env} {companyId : Uuid} {cmd : CancelCommand}
    {actor : Actor} {commit : PostingCommit}
    (h : buildCancel view env companyId cmd actor = .ok commit) :
    ∃ document postingDate guard updates,
      view.postedDocument companyId cmd.doctype cmd.documentId = some document ∧
      document.docstatus = 1 ∧
      checkUnsettled view companyId cmd = .ok () ∧
      let rows := reversalRows view companyId cmd.documentId
      let ledgers := replayRows view companyId rows.sles
      checkNegativeStock (view.companySettings companyId) ledgers = .ok () ∧
      restoredOutstanding view companyId cmd.doctype rows.settlements = .ok updates ∧
      commit = cancelCommit env companyId cmd actor document postingDate guard rows ledgers
        updates := by
  unfold buildCancel at h
  cases hdoc : view.postedDocument companyId cmd.doctype cmd.documentId with
  | none =>
    rw [hdoc] at h
    cases h
  | some document =>
    rw [hdoc] at h
    by_cases hstatus : document.docstatus = 1
    · simp only [hstatus, ne_eq, not_true_eq_false, if_false, Except.bind_eq_ok,
        Except.pure_eq_ok] at h
      obtain ⟨⟨⟩, hsettled, postingDate, -, -, -, guard, -, ⟨⟩, hstock, updates, hupdates, h⟩ := h
      exact ⟨document, postingDate, guard, updates, rfl, hstatus, hsettled, hstock, hupdates, h.symm⟩
    · simp only [ne_eq, hstatus, not_false_eq_true, if_true] at h
      cases h

end AtlasTeam
