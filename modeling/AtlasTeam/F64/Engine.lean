import AtlasTeam.F64.Costing
import AtlasTeam.F64.Validate

/-!
# Building a submit over f64 (`posting/engine.rs`)

`buildSubmit` is the build of the rational model with every number as f64 has it, up to the rows and
amounts that are posted: the commit here is what the other model's carries as numbers.
-/

namespace AtlasTeam.F64

/-- The payload a submit posts and its date. -/
structure Prepared where
  payload : Map
  postingDate : String

/-- `build_submit` up to the derivation. -/
def preparePayload (view : StoreView) (env : Env) (companyId : Uuid) (cmd : SubmitCommand)
    (documentId : String) : Except PostingError Prepared := do
  let settings := view.companySettings companyId
  let payload := cmd.payload.insert "items" (.array cmd.items)
  let postingDate ← validatedPostingDate env.today payload
  let payload := payload.insert "posting_date" (.string postingDate)
  checkPeriodLock settings postingDate
  if (view.postedDocument companyId cmd.doctype documentId).isSome then
    throw (.conflict s!"document {cmd.doctype} {documentId} was already submitted")
  let payload ← applyDeposit view companyId cmd.doctype payload
  let payload := resolveAccountFallbacks cmd.doctype payload settings
  let payload ← validateC5Document cmd.doctype payload settings
  let payload ← validateTotals cmd.doctype payload
  return { payload, postingDate }

/-- The rows a submit posts and the ledger cache they were costed on. -/
structure DerivedRows where
  gl : List GlEntry
  sles : List StockLedgerEntry
  party : List PartyTransaction
  tax : List TaxTransaction
  ledgers : Ledgers

/-- The monetary rows of a submit, base amounts stamped. -/
def monetaryRows (doctype id : String) (payload : Map) : List GlEntry × List PartyTransaction :=
  let gl := deriveMonetaryGl doctype id payload
  let party := (deriveSubledgerRows doctype payload).1
  if isBaseStamped doctype then stampBaseAmounts gl party payload else (gl, party)

/-- The derivation and costing of `build_submit`. -/
def deriveRows (codec : Codec) (view : StoreView) (companyId : Uuid) (doctype id : String)
    (payload : Map) : DerivedRows :=
  let settings := view.companySettings companyId
  let raw := deriveStockRows doctype id payload
  let (gl, party) := monetaryRows doctype id payload
  let items := loadItems codec view companyId raw payload
  let (sles, ledgers) :=
    spreadConsumedCost (costRows (costInputs view companyId items payload) (stockMovements items raw))
  let gl := gl ++ stockGlLegs doctype sles items settings
  let gl :=
    if doctype = "Purchase Invoice" then splitGrniFromExpense id gl payload items settings else gl
  { gl, sles, party, tax := (deriveSubledgerRows doctype payload).2, ledgers }

/-- `check_group_accounts`. -/
def checkGroupAccounts (view : StoreView) (companyId : Uuid) (gl : List GlEntry) :
    Except PostingError Unit := do
  let groups ← (sortDedup (gl.map GlEntry.account)).foldlM (checkAccount view companyId) []
  if groups ≠ [] then
    throw (.validation ("cannot post to group account" ++ (if groups.length > 1 then "s" else "") ++
      " " ++ String.intercalate ", " groups ++ ": choose a leaf (posting) account"))

/-- The stock check of a submit: a till sale that already happened is never refused. -/
def stockCheck (settings : CompanySettings) (offlineFiscal : Bool) (ledgers : Ledgers) :
    Except PostingError Unit :=
  if offlineFiscal then .ok () else checkNegativeStock settings ledgers

/-- The settlements of a Payment Entry and the outstanding amounts they leave. -/
def paymentRows (view : StoreView) (companyId : Uuid) (doctype : String) (payload : Map) :
    Except PostingError (List Settlement × List (String × String × Ieee)) :=
  if doctype = "Payment Entry" then do
    let settlements := deriveSettlements payload
    validatePaymentSubmit payload settlements
    let updates ← paymentOutstandingUpdates view companyId settlements
    return (settlements, updates)
  else .ok ([], [])

/-- What a submit posts. -/
structure PostingCommit where
  doctype : String
  payload : Map
  glEntries : List GlEntry
  stockLedgerEntries : List StockLedgerEntry
  partyTransactions : List PartyTransaction
  taxTransactions : List TaxTransaction
  settlements : List Settlement
  bins : List Bin
  outstandingUpdates : List (String × String × Ieee)

/-- `build_submit`. -/
def buildSubmit (codec : Codec) (view : StoreView) (env : Env) (companyId : Uuid)
    (cmd : SubmitCommand) (documentId : String) (actor : Actor) :
    Except PostingError PostingCommit := do
  let prepared ← preparePayload view env companyId cmd documentId
  let rows := deriveRows codec view companyId cmd.doctype documentId prepared.payload
  checkBalanced rows.gl
  checkGroupAccounts view companyId rows.gl
  stockCheck (view.companySettings companyId) cmd.offlineFiscal rows.ledgers
  let (settlements, updates) ← paymentRows view companyId cmd.doctype prepared.payload
  return { doctype := cmd.doctype
           payload := storedPayload cmd actor prepared.payload
           glEntries := rows.gl
           stockLedgerEntries := rows.sles
           partyTransactions := rows.party
           taxTransactions := rows.tax
           settlements
           bins := recomputeBins rows.ledgers
           outstandingUpdates := updates }

end AtlasTeam.F64
