import AtlasTeam.Posting.Engine

/-!
# The Solo take-on (`posting/solo_migration.rs`)

One opening Journal Entry that moves a Solo book's position into an empty Team company: the trial
balance as GL lines, opening stock at the Solo valuation and the numbering floors that let each
series continue after the last Solo number. `buildOpening` makes the commit after every
reconciliation has passed.
-/

namespace AtlasTeam

def openingDoctype : String := "Journal Entry"

def openingIdPrefix : String := "SOLO-OPENING-"

/-- `CENT`. -/
def cent : ℚ := 5 / 1000

/-- `MAX_LINES`. -/
def maxLines : Nat := 20000

structure OpeningLine where
  account : String
  debit : ℚ
  credit : ℚ
  partyType : Option String
  party : Option String

structure OpeningStock where
  item : String
  warehouse : String
  qty : ℚ
  stockValue : ℚ
  account : String

structure NumberingContinuation where
  doctype : String
  lastIssued : String
  lastValue : Int

structure ExpectedTotals where
  trialBalance : SortedMap String ℚ
  receivables : ℚ
  payables : ℚ
  stockValue : ℚ

structure SoloOpeningCommand where
  migrationId : String
  postingDate : String
  source : Value
  lines : List OpeningLine
  stock : List OpeningStock
  numbering : List NumberingContinuation
  expected : ExpectedTotals

/-- The `Serialize` rendering of a line. -/
def OpeningLine.toValue (line : OpeningLine) : Value :=
  let optional (key : String) (v : Option String) : List (String × Value) :=
    v.toList.map fun s => (key, .string s)
  .object ([("account", .string line.account), ("debit", .num line.debit),
    ("credit", .num line.credit)] ++ optional "party_type" line.partyType ++
    optional "party" line.party)

namespace SoloOpeningCommand

/-- The entry's document id. -/
def documentId (cmd : SoloOpeningCommand) : String := openingIdPrefix ++ cmd.migrationId

/-- The package as serialized: the fields in declaration order. -/
def package (cmd : SoloOpeningCommand) : Value :=
  .object
    [("migration_id", .string cmd.migrationId), ("posting_date", .string cmd.postingDate),
      ("source", cmd.source), ("lines", .array (cmd.lines.map OpeningLine.toValue)),
      ("stock", .array (cmd.stock.map fun s => .object
        [("item", .string s.item), ("warehouse", .string s.warehouse), ("qty", .num s.qty),
          ("stock_value", .num s.stockValue), ("account", .string s.account)])),
      ("numbering", .array (cmd.numbering.map fun n => .object
        [("doctype", .string n.doctype), ("last_issued", .string n.lastIssued),
          ("last_value", .int n.lastValue)])),
      ("expected", .object
        [("trial_balance", .object (cmd.expected.trialBalance.entries.map fun e => (e.1, .num e.2))),
          ("receivables", .num cmd.expected.receivables), ("payables", .num cmd.expected.payables),
          ("stock_value", .num cmd.expected.stockValue)])]

/-- `package_sha256`, in hexadecimal. -/
def packageSha256 (codec : Codec) (cmd : SoloOpeningCommand) : String :=
  let bytes := match codec.toBytes cmd.package with
    | .ok bytes => bytes
    | .error _ => []
  String.ofList ((codec.sha256 bytes).flatMap fun b =>
    [Nat.digitChar (b.toNat / 16), Nat.digitChar (b.toNat % 16)])

def idempotencyKey (cmd : SoloOpeningCommand) : String := "solo-migration:" ++ cmd.migrationId

end SoloOpeningCommand

/-- `safe_id`. -/
def safeId (raw : String) : Bool :=
  8 ≤ raw.utf8ByteSize && raw.utf8ByteSize ≤ 64 &&
    raw.toList.all fun c => c.isAlphanum || c = '-' || c = '_'

/-- `same_package`. -/
def samePackage (response : Value) (sha : String) : Except PostingError CommitOutcome :=
  if (response.get "package_sha256").bind Value.asStr = some sha then
    .ok { response, replayed := true }
  else
    .error (.conflict ("this migration id was already used with a different package; " ++
      "the company already holds that Solo opening position"))

/-- `finite_non_negative`. -/
def finiteNonNegative (value : ℚ) (what : String) : Except PostingError Unit :=
  if value < 0 then .error (.validation (what ++ " must be a finite, non-negative amount"))
  else .ok ()

/-! ### Lines -/

/-- The shape of one line, and the party it names. -/
def checkOpeningLine (parties : List (String × String)) (entry : OpeningLine × Nat) :
    Except PostingError (List (String × String)) := do
  let (line, i) := entry
  let account := trim line.account
  if account = "" then throw (.validation s!"line {i + 1} has no account")
  finiteNonNegative line.debit s!"line {i + 1} debit"
  finiteNonNegative line.credit s!"line {i + 1} credit"
  if line.debit > 0 ∧ line.credit > 0 then
    throw (.validation s!"line {i + 1} ({account}) has both a debit and a credit")
  match line.partyType, line.party with
  | none, none => return parties
  | some kind, some party =>
    if trim party = "" then
      throw (.validation s!"line {i + 1} must carry both party_type and party, or neither")
    match PartyKind.parse kind with
    | some kind => return parties ++ [(kind.asStr, trim party)]
    | none => throw (.validation s!"line {i + 1} party_type must be Customer or Supplier")
  | _, _ => throw (.validation s!"line {i + 1} must carry both party_type and party, or neither")

/-- Every account of the package is on the server. -/
def checkOpeningAccounts (view : StoreView) (companyId : Uuid) (accounts : List String) :
    Except PostingError Unit :=
  (sortDedup accounts).forM fun account =>
    if (view.companyDocument companyId "Account" account).isNone then
      .error (.validation (s!"account {account} is not on the Team server yet: publish the " ++
        "chart of accounts before the opening position"))
    else .ok ()

/-- Every party of the package is on the server. -/
def checkOpeningParties (view : StoreView) (companyId : Uuid) (parties : List (String × String)) :
    Except PostingError Unit :=
  let keys : List Pair := (parties.map fun p => toLex p)
  ((keys.insertionSort (· ≤ ·)).destutter (· ≠ ·)).forM fun key =>
    let (kind, party) := ofLex key
    if (view.companyDocument companyId kind party).isNone then
      .error (.validation (s!"{kind} {party} is not on the Team server yet: publish customers " ++
        "and suppliers before the opening position"))
    else .ok ()

/-- The context of the opening entry's rows. -/
def openingContext (companyId : Uuid) (cmd : SoloOpeningCommand) (postingDate : String) :
    RowContext :=
  { companyId
    documentId := cmd.documentId
    doctype := openingDoctype
    postingDate
    batchId := "PB-" ++ cmd.documentId }

/-- The GL row of a line. -/
def openingGl (ctx : RowContext) (entry : OpeningLine × Nat) : GlEntry :=
  let (line, i) := entry
  ctx.gl s!"GL-{ctx.documentId}-{i}" (trim line.account) line.debit line.credit line.partyType
    (line.party.map trim)

/-- The subledger row of a line that names a party. -/
def openingParty (ctx : RowContext) (entry : OpeningLine × Nat) : Option PartyTransaction := do
  let (line, i) := entry
  let kind ← line.partyType.bind PartyKind.parse
  let party ← line.party.map trim
  let net := line.debit - line.credit
  let (amount, tag) := match kind with
    | .customer => (net, "CT")
    | .supplier => (-net, "VT")
  return { id := tag ++ s!"-{ctx.documentId}-{i}"
           companyId := ctx.companyId
           kind
           transType := .adjustment
           party
           postingDate := ctx.postingDate
           dueDate := none
           amount
           currency := none
           conversionRate := 1
           baseAmount := amount
           voucherType := ctx.doctype
           voucherNo := ctx.documentId
           isReversal := false
           batchId := ctx.batchId }

/-! ### Stock -/

/-- What the stock loop has gathered. -/
structure OpeningStockRows where
  sles : List StockLedgerEntry := []
  bins : List Bin := []
  pairs : List Pair := []
  stockByAccount : List (String × ℚ) := []

/-- One stock line: a receipt at the Solo valuation and its bin. -/
def openingStockRow (ctx : RowContext) (acc : OpeningStockRows) (entry : OpeningStock × Nat) :
    Except PostingError OpeningStockRows := do
  let (stock, i) := entry
  let item := trim stock.item
  let warehouse := trim stock.warehouse
  if item = "" ∨ warehouse = "" then
    throw (.validation s!"stock line {i + 1} needs an item and a warehouse")
  if stock.qty ≤ 0 then
    throw (.validation
      s!"stock line {i + 1} ({item} in {warehouse}): opening quantity must be above zero")
  finiteNonNegative stock.stockValue s!"stock line {i + 1} value"
  if toLex (item, warehouse) ∈ acc.pairs then
    throw (.validation s!"{item} in {warehouse} appears twice in the opening stock")
  let account := trim stock.account
  let value := (acc.stockByAccount.lookup account).getD 0 + stock.stockValue
  let rate := stock.stockValue / stock.qty
  return { sles := acc.sles ++
             [ctx.sle s!"SLE-{ctx.documentId}-{i}" .receipt item warehouse stock.qty rate none]
           bins := acc.bins ++
             [{ companyId := ctx.companyId
                item
                warehouse
                actualQty := stock.qty
                valuationRate := rate
                stockValue := stock.stockValue }]
           pairs := acc.pairs ++ [toLex (item, warehouse)]
           stockByAccount := SortedMap.Raw.put account value acc.stockByAccount }

/-- The items of the opening stock are stock items on the server. -/
def checkOpeningItems (items : Items) (sles : List StockLedgerEntry) : Except PostingError Unit :=
  sles.forM fun sle =>
    match items.lookup sle.item with
    | none => .error (.validation (s!"item {sle.item} is not on the Team server yet: publish " ++
        "items before the opening position"))
    | some item =>
      if !isStockItemType (some item.itemType) then
        .error (.validation
          s!"item {sle.item} is a service item and cannot carry opening stock")
      else .ok ()

/-! ### Reconciliation -/

/-- Net (debit − credit) per account. -/
def netByAccount (gl : List GlEntry) : List (String × ℚ) :=
  gl.foldl (fun tb entry =>
    SortedMap.Raw.put entry.account
      ((tb.lookup entry.account).getD 0 + (entry.debit - entry.credit)) tb) []

/-- Balances of more than a cent. -/
def significant (tb : List (String × ℚ)) : List (String × ℚ) := tb.filter fun e => |e.2| > cent

/-- The lines against the stated trial balance, account by account. -/
def checkTrialBalance (tb stated : List (String × ℚ)) : Except PostingError Unit :=
  (sortDedup (tb.map Prod.fst ++ stated.map Prod.fst)).forM fun account =>
    let ours := (tb.lookup account).getD 0
    let theirs := (stated.lookup account).getD 0
    if |ours - theirs| > cent then
      .error (.validation ("trial balance mismatch on " ++ account ++ ": the lines give " ++
        display2 ours ++ ", the Solo book stated " ++ display2 theirs ++ "; nothing was posted"))
    else .ok ()

/-- The opening stock of each inventory account against its balance. -/
def checkStockAccounts (tb stockByAccount : List (String × ℚ)) : Except PostingError Unit :=
  stockByAccount.forM fun (account, value) =>
    let ledger := (tb.lookup account).getD 0
    if |ledger - value| > cent then
      .error (.validation ("stock does not reconcile with the ledger: opening stock on " ++
        account ++ " is " ++ display2 value ++ " but the account's balance is " ++
        display2 ledger ++ "; nothing was posted"))
    else .ok ()

/-- A computed total against the stated one. -/
def checkStated (computed stated : ℚ) (what claim : String) : Except PostingError Unit :=
  if |computed - stated| > cent then
    .error (.validation (what ++ " total" ++ (if what = "opening stock" then "s " else " ") ++
      display2 computed ++ " but the Solo book stated " ++ claim ++ display2 stated))
  else .ok ()

def partyTotal (kind : PartyKind) (party : List PartyTransaction) : ℚ :=
  ((party.filter fun t => t.kind = kind).map PartyTransaction.amount).sum

/-! ### Numbering -/

/-- The floors and the continuation notes gathered so far, with the series seen. -/
structure Continuations where
  floors : List (String × Int) := []
  notes : List Value := []

/-- One continuation: the series goes on after the last Solo number. -/
def continueSeries (acc : Continuations) (n : NumberingContinuation) :
    Except PostingError Continuations := do
  let some key := seriesKey n.doctype
    | throw (.validation s!"{n.doctype} has no Team numbering series")
  if key ∈ acc.floors.map Prod.fst then
    throw (.validation s!"{n.doctype} appears twice in numbering")
  if ¬ (0 ≤ n.lastValue ∧ n.lastValue ≤ 999999999) then
    throw (.validation s!"{n.doctype}: last number value {n.lastValue} is out of range")
  return { floors := acc.floors ++ [(key, n.lastValue)]
           notes := acc.notes ++ [.obj [("doctype", .string n.doctype),
             ("solo_last_issued", .string n.lastIssued),
             ("team_next_number", .string (formatNumber key (n.lastValue + 1)))]] }

/-! ### The commit -/

/-- The commit the take-on makes. -/
def openingCommit (env : Env) (companyId : Uuid) (cmd : SoloOpeningCommand) (sha : String)
    (actor : Actor) (postingDate : String) (gl : List GlEntry) (party : List PartyTransaction)
    (stock : OpeningStockRows) (tb : List (String × ℚ)) (continuations : Continuations) :
    PostingCommit :=
  let documentId := cmd.documentId
  let numbering : Value := .array continuations.notes
  let totalDebit := round2 (gl.map GlEntry.debit).sum
  let payload : Value := .obj
    [("posting_date", .string postingDate), ("voucher_type", .string "Opening Entry"),
      ("is_opening", .int 1), ("title", .string "Opening balances moved from Atlas Solo"),
      ("user_remark", .string ("Atlas Solo take-on " ++ cmd.migrationId ++ " (package " ++
        String.ofList (sha.toList.take 12) ++ "). The Solo documents up to this date " ++
        "stay in the Solo archive and safety backup.")),
      ("solo_migration", .obj [("migration_id", .string cmd.migrationId),
        ("package_sha256", .string sha), ("source", cmd.source), ("numbering", numbering)]),
      ("accounts", .array (cmd.lines.map fun line => .obj (line.toValue.asObject.getD []))),
      ("total_debit", .num totalDebit), ("total_credit", .num totalDebit)]
  let reconciliation : Value := .obj
    [("trial_balance", .object (tb.map fun e => (e.1, .num (round2 e.2)))),
      ("receivables", .num (round2 (partyTotal .customer party))),
      ("payables", .num (round2 (partyTotal .supplier party))),
      ("stock_value", .num (round2 (stock.stockByAccount.map Prod.snd).sum)),
      ("gl_entries", .int gl.length), ("stock_lines", .int stock.sles.length),
      ("party_lines", .int party.length)]
  { companyId
    idempotencyKey := some cmd.idempotencyKey
    batch :=
      { id := "PB-" ++ documentId
        companyId
        documentId
        doctype := openingDoctype
        kind := .submit
        reversalOf := none
        createdAt := env.now }
    document :=
      { id := documentId
        companyId
        doctype := openingDoctype
        payload
        docstatus := 1
        officialNumber := none
        createdAt := env.now }
    documentIsNew := true
    seriesKey := none
    preassignedNumber := none
    tillBinding := none
    glEntries := gl
    stockLedgerEntries := stock.sles
    partyTransactions := party
    taxTransactions := []
    settlements := []
    bins := stock.bins
    outstandingUpdates := []
    sleExpectations := (stock.pairs.insertionSort (· ≤ ·)).map fun pair =>
      ((ofLex pair).1, (ofLex pair).2, 0)
    replicationDeviceId := actor.replicationDeviceId
    audit := auditRow env companyId actor "command.import-solo-opening"
      (.obj [("documentId", .string documentId), ("migrationId", .string cmd.migrationId),
        ("packageSha256", .string sha), ("source", cmd.source),
        ("reconciliation", reconciliation), ("numbering", numbering)])
    response := .obj
      [("doctype", .string openingDoctype), ("document_id", .string documentId), ("number", .null),
        ("docstatus", .int 1), ("migration_id", .string cmd.migrationId),
        ("package_sha256", .string sha), ("posting_date", .string postingDate),
        ("reconciliation", reconciliation), ("numbering", numbering)]
    numberingFloors := continuations.floors
    soloMigration := some { migrationId := cmd.migrationId, packageSha256 := sha }
    lockCheckDate := some postingDate
    depositGuard := none }

/-- `build` of the take-on. -/
def buildOpening (codec : Codec) (view : StoreView) (env : Env) (companyId : Uuid)
    (cmd : SoloOpeningCommand) (sha : String) (actor : Actor) :
    Except PostingError PostingCommit := do
  let settings := view.companySettings companyId
  let postingDate ← validatedPostingDate env.today [("posting_date", .string cmd.postingDate)]
  checkPeriodLock settings postingDate
  if cmd.lines = [] then throw (.validation "the opening entry has no lines")
  if cmd.lines.length > maxLines ∨ cmd.stock.length > maxLines then
    throw (.validation s!"a take-on carries at most {maxLines} lines")
  let parties ← cmd.lines.zipIdx.foldlM checkOpeningLine []
  checkOpeningAccounts view companyId
    (cmd.lines.map (fun line => trim line.account) ++ cmd.stock.map fun s => trim s.account)
  checkOpeningParties view companyId parties
  let ctx := openingContext companyId cmd postingDate
  let gl := cmd.lines.zipIdx.map (openingGl ctx)
  let party := cmd.lines.zipIdx.filterMap (openingParty ctx)
  checkBalanced gl
  let stock ← cmd.stock.zipIdx.foldlM (openingStockRow ctx) {}
  checkOpeningItems (loadItems codec view companyId stock.sles []) stock.sles
  let tb := significant (netByAccount gl)
  checkTrialBalance tb (significant cmd.expected.trialBalance.entries)
  checkStockAccounts tb stock.stockByAccount
  checkStated (stock.stockByAccount.map Prod.snd).sum cmd.expected.stockValue "opening stock" ""
  checkStated (partyTotal .customer party) cmd.expected.receivables "customer balances"
    "receivables of "
  checkStated (partyTotal .supplier party) cmd.expected.payables "supplier balances" "payables of "
  let continuations ← cmd.numbering.foldlM continueSeries {}
  return openingCommit env companyId cmd sha actor postingDate gl party stock tb continuations

/-- The commit of a take-on that builds, and the checks it passed. -/
theorem buildOpening_checked {codec : Codec} {view : StoreView} {env : Env} {companyId : Uuid}
    {cmd : SoloOpeningCommand} {sha : String} {actor : Actor} {commit : PostingCommit}
    (h : buildOpening codec view env companyId cmd sha actor = .ok commit) :
    ∃ postingDate stock continuations,
      let ctx := openingContext companyId cmd postingDate
      let gl := cmd.lines.zipIdx.map (openingGl ctx)
      let party := cmd.lines.zipIdx.filterMap (openingParty ctx)
      let tb := significant (netByAccount gl)
      validatedPostingDate env.today [("posting_date", .string cmd.postingDate)] = .ok postingDate ∧
      (∃ parties, cmd.lines.zipIdx.foldlM checkOpeningLine [] = .ok parties) ∧
      checkBalanced gl = .ok () ∧
      cmd.stock.zipIdx.foldlM (openingStockRow ctx) {} = .ok stock ∧
      checkTrialBalance tb (significant cmd.expected.trialBalance.entries) = .ok () ∧
      checkStockAccounts tb stock.stockByAccount = .ok () ∧
      checkStated (stock.stockByAccount.map Prod.snd).sum cmd.expected.stockValue "opening stock" "" =
        .ok () ∧
      checkStated (partyTotal .customer party) cmd.expected.receivables "customer balances"
        "receivables of " = .ok () ∧
      checkStated (partyTotal .supplier party) cmd.expected.payables "supplier balances"
        "payables of " = .ok () ∧
      cmd.numbering.foldlM continueSeries {} = .ok continuations ∧
      commit = openingCommit env companyId cmd sha actor postingDate gl party stock tb
        continuations := by
  simp only [buildOpening, Except.bind_eq_ok] at h
  obtain ⟨postingDate, hdate, -, -, h⟩ := h
  by_cases hempty : cmd.lines = []
  · rw [if_pos hempty] at h
    cases h
  by_cases hmany : cmd.lines.length > maxLines ∨ cmd.stock.length > maxLines
  · rw [if_neg hempty, if_pos hmany] at h
    cases h
  rw [if_neg hempty, if_neg hmany] at h
  simp only [Except.bind_eq_ok, Except.pure_eq_ok] at h
  obtain ⟨parties, hparties, -, -, -, -, _, hbalanced, stock, hstock, -, -, _, htb, _, haccounts, _,
    hvalue, _, hreceivables, _, hpayables, continuations, hcontinuations, h⟩ := h
  exact ⟨postingDate, stock, continuations, hdate, ⟨parties, hparties⟩, hbalanced, hstock, htb,
    haccounts, hvalue, hreceivables, hpayables, hcontinuations, h.symm⟩

/-- The commit of a take-on that builds, and the date it validated. -/
theorem buildOpening_dated {codec : Codec} {view : StoreView} {env : Env} {companyId : Uuid}
    {cmd : SoloOpeningCommand} {sha : String} {actor : Actor} {commit : PostingCommit}
    (h : buildOpening codec view env companyId cmd sha actor = .ok commit) :
    ∃ postingDate stock tb continuations,
      validatedPostingDate env.today [("posting_date", .string cmd.postingDate)] = .ok postingDate ∧
      let ctx := openingContext companyId cmd postingDate
      cmd.stock.zipIdx.foldlM (openingStockRow ctx) {} = .ok stock ∧
      cmd.numbering.foldlM continueSeries {} = .ok continuations ∧
      commit = openingCommit env companyId cmd sha actor postingDate
        (cmd.lines.zipIdx.map (openingGl ctx)) (cmd.lines.zipIdx.filterMap (openingParty ctx)) stock
        tb continuations := by
  obtain ⟨postingDate, stock, continuations, hdate, -, -, hstock, -, -, -, -, -, hcontinuations, h⟩ :=
    buildOpening_checked h
  exact ⟨postingDate, stock, _, continuations, hdate, hstock, hcontinuations, h⟩

/-- The commit of a take-on that builds. -/
theorem buildOpening_ok {codec : Codec} {view : StoreView} {env : Env} {companyId : Uuid}
    {cmd : SoloOpeningCommand} {sha : String} {actor : Actor} {commit : PostingCommit}
    (h : buildOpening codec view env companyId cmd sha actor = .ok commit) :
    ∃ postingDate stock tb continuations,
      let ctx := openingContext companyId cmd postingDate
      cmd.stock.zipIdx.foldlM (openingStockRow ctx) {} = .ok stock ∧
      cmd.numbering.foldlM continueSeries {} = .ok continuations ∧
      commit = openingCommit env companyId cmd sha actor postingDate
        (cmd.lines.zipIdx.map (openingGl ctx)) (cmd.lines.zipIdx.filterMap (openingParty ctx)) stock
        tb continuations := by
  obtain ⟨postingDate, stock, tb, continuations, -, h⟩ := buildOpening_dated h
  exact ⟨postingDate, stock, tb, continuations, h⟩

end AtlasTeam
