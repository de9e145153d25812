import AtlasTeam.History
import AtlasTeam.Posting.Replication
import AtlasTeam.Projection

/-!
# The in-memory store (`store/mem.rs`)

`Inner` holds the tables the posting authority, the sync log and the recovery reports work on. An
operation runs with the mutex held, so it is one step from a state to the state it leaves. A failing
step leaves what it has written so far, which is why the order of checks and writes in
`postingCommit` matters.
-/

namespace AtlasTeam

/-- `HashMap<K, V>`. -/
abbrev Table (K V : Type) [DecidableEq K] := AList fun _ : K => V

namespace Table
variable {K V : Type} [DecidableEq K]

/-- The rows under a key of a table of logs. -/
def log (t : Table K (List V)) (k : K) : List V := (AList.lookup k t).getD []

/-- `entry(k).or_default().extend(rows)`. -/
def extend (t : Table K (List V)) (k : K) (rows : List V) : Table K (List V) :=
  AList.insert k (log t k ++ rows) t

/-- `values()`. -/
def values (t : Table K V) : List V := t.entries.map Sigma.snd

/-- `retain`. -/
def retainRows (keep : K → V → Bool) (t : Table K V) : Table K V :=
  ⟨t.entries.filter fun e => keep e.1 e.2, List.NodupKeys.sublist List.filter_sublist t.nodupKeys⟩

theorem lookup_retainRows (keep : K → V → Bool) (t : Table K V) (k : K) :
    AList.lookup k (t.retainRows keep) = (AList.lookup k t).filter (keep k) := by
  refine Option.ext fun v => ?_
  have hiff := AList.mem_lookup_iff (a := k) (b := v) (s := t.retainRows keep)
  rw [← Option.mem_def, hiff, retainRows, List.mem_filter, ← AList.mem_lookup_iff,
    Option.filter_eq_some_iff]
  rfl

theorem log_extend_self (t : Table K (List V)) (k : K) (rows : List V) :
    (t.extend k rows).log k = t.log k ++ rows := by
  rw [extend, log, AList.lookup_insert, Option.getD_some]

theorem log_extend_ne (t : Table K (List V)) {k k' : K} (h : k' ≠ k) (rows : List V) :
    (t.extend k rows).log k' = t.log k' := by
  rw [extend, log, AList.lookup_insert_ne h, log]

end Table

structure StoredMutation where
  record : MutationRecord
  version : Int
  acknowledged : Bool

/-- The company logs with their versions and chains, and the read model that follows them. -/
structure SyncLog where
  mutations : Table Uuid (List StoredMutation) := ∅
  mutationVersions : Table (Uuid × String) Int := ∅
  counters : Table Uuid Int := ∅
  chain : Table Uuid (List (List UInt8)) := ∅
  companyDocuments : Table (Uuid × String × String) CompanyDocument := ∅

/-- The official documents. -/
abbrev Documents := Table (Uuid × String × String) PostedDocument

/-- The counters of the number series. -/
abbrev Series := Table (Uuid × String) Int

/-- The tables of the store the modelled operations read and write. -/
structure Inner extends SyncLog where
  historyRecoveries : Table (Uuid × String) Value := ∅
  audit : List AuditEntry := []
  settings : Table Uuid CompanySettings := ∅
  items : Table (Uuid × String) Item := ∅
  /-- (company, doctype, document id) to the official document. -/
  documents : Documents := ∅
  glEntries : Table Uuid (List GlEntry) := ∅
  stockLedger : Table Uuid (List StockLedgerEntry) := ∅
  sleSeq : Table Uuid Int := ∅
  bins : Table (Uuid × String × String) Bin := ∅
  partyTransactions : Table Uuid (List PartyTransaction) := ∅
  taxTransactions : Table Uuid (List TaxTransaction) := ∅
  settlements : Table Uuid (List Settlement) := ∅
  batches : Table (Uuid × String) PostingBatch := ∅
  /-- (company, series key) to the last allocated value. -/
  series : Series := ∅
  /-- company to the (migration id, opening document id) of its take-on. -/
  soloMigrations : Table Uuid (String × String) := ∅
  idempotency : Table (Uuid × String) Value := ∅

/-- The last value allocated or reserved in a series. -/
def Series.counter (series : Series) (company : Uuid) (key : String) : Int :=
  (AList.lookup (company, key) series).getD 0

namespace Inner

/-! ### Reads -/

def companySettings (inner : Inner) (company : Uuid) : CompanySettings :=
  (AList.lookup company inner.settings).getD {}

/-- `Inner::deposit_applications`. -/
def depositApplications (inner : Inner) (company : Uuid) (depositId : String) :
    List PostedDocument :=
  (inner.documents.entries.filter fun e =>
    e.1.1 = company && e.1.2.1 = "Payment Entry" &&
      ((e.2.payload.get "deposit").bind Value.asStr).map trim = some depositId).map Sigma.snd

/-- The store as the posting engine reads it. -/
def view (inner : Inner) : StoreView where
  companySettings := inner.companySettings
  items company ids := ids.filterMap fun id => AList.lookup (company, id) inner.items
  postedDocument company doctype id := AList.lookup (company, doctype, id) inner.documents
  slesForPair company item warehouse := (inner.stockLedger.log company).filter fun sle =>
    sle.item = item && sle.warehouse = warehouse
  slesForVoucher company no := (inner.stockLedger.log company).filter fun sle => sle.voucherNo = no
  glForVoucher company no := (inner.glEntries.log company).filter fun e => e.voucherNo = no
  partyTransactionsForVoucher company no :=
    (inner.partyTransactions.log company).filter fun t => t.voucherNo = no
  taxTransactionsForVoucher company no :=
    (inner.taxTransactions.log company).filter fun t => t.voucherNo = no
  settlementsForInvoice company doctype no := (inner.settlements.log company).filter fun s =>
    s.invoiceVoucherType = doctype && s.invoiceVoucherNo = no
  settlementsForPayment company no :=
    (inner.settlements.log company).filter fun s => s.paymentVoucherNo = no
  idempotentResponse company key := AList.lookup (company, key) inner.idempotency
  depositApplications := inner.depositApplications
  companyDocument company doctype id := AList.lookup (company, doctype, id) inner.companyDocuments

end Inner

/-! ### The sync log -/

namespace SyncLog

/-- `Inner::apply_projection`. -/
def applyProjection (codec : Codec) (env : Env) (company : Uuid) (record : MutationRecord)
    (log : SyncLog) : SyncLog :=
  let key := (company, record.docType, record.documentId)
  match foldMutation codec (AList.lookup key log.companyDocuments) record company env.now with
  | .upsert doc => { log with companyDocuments := AList.insert key doc log.companyDocuments }
  | .delete => { log with companyDocuments := AList.erase key log.companyDocuments }
  | .keep => log

/-- One record of `append_mutations`: a record already logged keeps its version. -/
def appendMutation (codec : Codec) (env : Env) (company : Uuid) (log : SyncLog)
    (record : MutationRecord) : SyncLog :=
  match AList.lookup (company, record.id) log.mutationVersions with
  | some _ => log
  | none =>
    let version := (AList.lookup company log.counters).getD 0 + 1
    let prev := (log.chain.log company).getLast?.getD genesis
    let projected := applyProjection codec env company record
      { log with
        counters := AList.insert company version log.counters
        mutationVersions := AList.insert (company, record.id) version log.mutationVersions
        chain := log.chain.extend company [link codec prev version record.id record.toValue] }
    { projected with
      mutations := projected.mutations.extend company [{ record, version, acknowledged := false }] }

/-- `Inner::append_mutations`. -/
def appendMutations (codec : Codec) (env : Env) (company : Uuid) (records : List MutationRecord)
    (log : SyncLog) : SyncLog :=
  records.foldl (appendMutation codec env company) log

end SyncLog

namespace Inner

/-! ### The checks of a commit -/

/-- The stored response of a key that already committed. -/
def replayed (inner : Inner) (commit : PostingCommit) : Option Value :=
  commit.idempotencyKey.bind fun key => AList.lookup (commit.companyId, key) inner.idempotency

def checkLock (inner : Inner) (commit : PostingCommit) : Except StoreError Unit :=
  match commit.lockCheckDate with
  | some date =>
    let lock := (AList.lookup commit.companyId inner.settings).bind CompanySettings.booksLockDate
    match lockViolation date lock with
    | some reason => .error (.stale reason)
    | none => .ok ()
  | none => .ok ()

def checkDeposit (inner : Inner) (commit : PostingCommit) : Except StoreError Unit :=
  match commit.depositGuard with
  | some guard =>
    let deposit := AList.lookup (commit.companyId, "Customer Deposit", guard.depositId)
      inner.documents
    match depositGuardViolation guard deposit
        (inner.depositApplications commit.companyId guard.depositId) with
    | some reason => .error (.stale reason)
    | none => .ok ()
  | none => .ok ()

/-- A take-on goes into a company with no official document and no earlier take-on. -/
def checkSolo (inner : Inner) (commit : PostingCommit) : Except StoreError Unit :=
  match commit.soloMigration with
  | some mark =>
    match AList.lookup commit.companyId inner.soloMigrations with
    | some (earlier, _) => .error (.conflict ("this company already received a Solo opening " ++
        s!"position (migration {earlier}); a company can be moved from Solo only once"))
    | none =>
      if inner.documents.entries.any fun e => e.1.1 = commit.companyId then
        .error (.conflict ("this company already holds official documents; migration " ++
          s!"{mark.migrationId} can only move a Solo book into a new, empty Team company"))
      else .ok ()
  | none => .ok ()

/-- The rows stored for a pair. -/
def pairCount (inner : Inner) (company : Uuid) (item warehouse : String) : Nat :=
  ((inner.stockLedger.log company).filter fun sle =>
    sle.item = item && sle.warehouse = warehouse).length

/-- The stock ledger the build was based on has not moved. -/
def checkExpectations (inner : Inner) (commit : PostingCommit) : Except StoreError Unit :=
  commit.sleExpectations.forM fun (item, warehouse, expected) =>
    let actual := inner.pairCount commit.companyId item warehouse
    if actual ≠ expected then
      .error (.stale s!"stock ledger for {item}/{warehouse} moved ({expected} -> {actual})")
    else .ok ()

/-- Where a document is stored. -/
def docKey (commit : PostingCommit) : Uuid × String × String :=
  (commit.companyId, commit.document.doctype, commit.document.id)

/-- A new document is not there yet; a cancelled one is there and submitted. -/
def checkDocument (inner : Inner) (commit : PostingCommit) : Except StoreError Unit :=
  let document := commit.document
  match AList.lookup (docKey commit) inner.documents with
  | some existing =>
    if commit.documentIsNew then
      .error (.conflict s!"document {document.doctype} {document.id} already exists")
    else if existing.docstatus ≠ 1 then
      .error (.conflict s!"document {document.doctype} {document.id} is not submitted")
    else .ok ()
  | none =>
    if commit.documentIsNew then .ok ()
    else .error (.conflict s!"document {document.doctype} {document.id} does not exist")

/-- A preassigned receipt number is not used by another document of the doctype. -/
def checkPreassigned (inner : Inner) (commit : PostingCommit) : Except StoreError Unit :=
  match commit.preassignedNumber with
  | some number =>
    if inner.documents.entries.any fun e =>
        e.1.1 = commit.companyId && e.1.2.1 = commit.document.doctype &&
          e.2.officialNumber = some number then
      .error (.conflict
        s!"official number {number} is already used by another {commit.document.doctype}")
    else .ok ()
  | none => .ok ()

/-- The till series is not bound to another device. -/
def checkTill (inner : Inner) (commit : PostingCommit) : Except StoreError Unit :=
  match commit.tillBinding with
  | some (series, device) =>
    if inner.documents.entries.any fun e =>
        e.1.1 = commit.companyId && e.1.2.1 = commit.document.doctype &&
          (e.2.payload.get "till_series").bind Value.asStr = some series &&
          (((e.2.payload.get "till_device").bind Value.asStr).any fun d => d ≠ device) then
      .error (.conflict (s!"till series {series} is bound to another device; " ++
        "give this register its own receipt series"))
    else .ok ()
  | none => .ok ()

/-- The checks of `posting_commit` after the idempotency read, in its order. -/
def checkCommit (inner : Inner) (commit : PostingCommit) : Except StoreError Unit := do
  inner.checkLock commit
  inner.checkDeposit commit
  inner.checkSolo commit
  inner.checkExpectations commit
  inner.checkDocument commit
  inner.checkPreassigned commit
  inner.checkTill commit

/-! ### The writes of a commit -/

/-- `*next = (*next).max(floor)` on a series. -/
def raiseFloor (company : Uuid) (series : Series) (floor : String × Int) : Series :=
  AList.insert (company, floor.1) (max (series.counter company floor.1) floor.2) series

def raiseFloors (company : Uuid) (floors : List (String × Int)) (series : Series) : Series :=
  floors.foldl (raiseFloor company) series

/-- The numbered document and the response that names its number. -/
def stampNumber (document : PostedDocument) (response : Value) (number : String) :
    PostedDocument × Value :=
  ({ document with officialNumber := some number }, response.setField "number" (.string number))

/-- The official number: the till's receipt number, or the next of the series. -/
def allocateNumber (commit : PostingCommit) (series : Series) : (PostedDocument × Value) × Series :=
  let (document, response) := match commit.preassignedNumber with
    | some number => stampNumber commit.document commit.response number
    | none => (commit.document, commit.response)
  match commit.seriesKey with
  | some key =>
    let next := series.counter commit.companyId key + 1
    (stampNumber document response (formatNumber key next),
      AList.insert (commit.companyId, key) next series)
  | none => ((document, response), series)

def markSolo (commit : PostingCommit) (marks : Table Uuid (String × String)) :
    Table Uuid (String × String) :=
  match commit.soloMigration with
  | some mark => AList.insert commit.companyId (mark.migrationId, commit.document.id) marks
  | none => marks

/-- Rows numbered from `seq + 1` on. -/
def sequenceFrom (seq : Int) : List StockLedgerEntry → List StockLedgerEntry
  | [] => []
  | sle :: rest => { sle with seq := seq + 1 } :: sequenceFrom (seq + 1) rest

/-- A document with its outstanding amount written. -/
def withOutstanding (doc : PostedDocument) (outstanding : ℚ) : PostedDocument :=
  { doc with payload := doc.payload.setField "outstanding_amount" (.num outstanding) }

/-- One outstanding update: the invoice, when it is there, and its copy for replication. -/
def writeOutstanding (company : Uuid) (acc : List PostedDocument × Documents)
    (update : String × String × ℚ) : List PostedDocument × Documents :=
  let (touched, documents) := acc
  let (doctype, id, outstanding) := update
  match AList.lookup (company, doctype, id) documents with
  | some doc =>
    let doc := withOutstanding doc outstanding
    (touched ++ [doc], AList.insert (company, doctype, id) doc documents)
  | none => acc

def writeOutstandings (company : Uuid) (updates : List (String × String × ℚ))
    (documents : Documents) : List PostedDocument × Documents :=
  updates.foldl (writeOutstanding company) ([], documents)

/-- What is replicated of a commit. -/
def replicationSources (commit : PostingCommit) (document : PostedDocument)
    (sequenced : List StockLedgerEntry) (outstandingDocs : List PostedDocument) :
    ReplicationSources :=
  { document
    isCancel := commit.batch.kind = .cancel
    glEntries := commit.glEntries
    stockLedgerEntries := sequenced
    partyTransactions := commit.partyTransactions
    taxTransactions := commit.taxTransactions
    settlements := commit.settlements
    bins := commit.bins
    outstandingDocuments := outstandingDocs
    userId := commit.audit.userId
    deviceId := commit.replicationDeviceId.getD systemDeviceId }

/-- The five ledgers take the commit's rows. -/
def appendRows (commit : PostingCommit) (sequenced : List StockLedgerEntry) (inner : Inner) :
    Inner :=
  let company := commit.companyId
  { inner with
    glEntries := inner.glEntries.extend company commit.glEntries
    stockLedger := inner.stockLedger.extend company sequenced
    partyTransactions := inner.partyTransactions.extend company commit.partyTransactions
    taxTransactions := inner.taxTransactions.extend company commit.taxTransactions
    settlements := inner.settlements.extend company commit.settlements }

def putBin (company : Uuid) (bins : Table (Uuid × String × String) Bin) (bin : Bin) :
    Table (Uuid × String × String) Bin :=
  AList.insert (company, bin.item, bin.warehouse) bin bins

/-- Bins, batch, audit row and idempotency key. -/
def closeCommit (commit : PostingCommit) (response : Value) (inner : Inner) : Inner :=
  let company := commit.companyId
  { inner with
    bins := commit.bins.foldl (putBin company) inner.bins
    batches := AList.insert (company, commit.batch.id) commit.batch inner.batches
    audit := inner.audit ++ [commit.audit]
    idempotency := match commit.idempotencyKey with
      | some key => AList.insert (company, key) response inner.idempotency
      | none => inner.idempotency }

/-- `MemStore::posting_commit`: the outcome and the state it leaves. -/
def postingCommit (codec : Codec) (env : Env) (commit : PostingCommit) (inner : Inner) :
    Except StoreError CommitOutcome × Inner :=
  let company := commit.companyId
  match inner.replayed commit with
  | some response => (.ok { response, replayed := true }, inner)
  | none =>
    match inner.checkCommit commit with
    | .error e => (.error e, inner)
    | .ok () =>
      let ((document, response), series) := allocateNumber commit inner.series
      let inner := { inner with series }
      let inner := { inner with series := raiseFloors company commit.numberingFloors inner.series }
      let inner := { inner with soloMigrations := markSolo commit inner.soloMigrations }
      let inner := { inner with documents := AList.insert (docKey commit) document inner.documents }
      let seq := (AList.lookup company inner.sleSeq).getD 0
      let sequenced := sequenceFrom seq commit.stockLedgerEntries
      let inner := { inner with sleSeq := AList.insert company (seq + sequenced.length) inner.sleSeq }
      let (touched, documents) := writeOutstandings company commit.outstandingUpdates inner.documents
      let inner := { inner with documents }
      match replicationMutations codec env.now
          (replicationSources commit document sequenced touched) with
      -- an early return here would leave the writes above in place
      | .error e => (.error (.json e), inner)
      | .ok records =>
        let inner :=
          { inner with toSyncLog := inner.toSyncLog.appendMutations codec env company records }
        let inner := appendRows commit sequenced inner
        (.ok { response, replayed := false }, closeCommit commit response inner)

/-! ### The other operations -/

/-- What the store finds for a reported record: the document itself, and another document that
holds its number. -/
def findLost (inner : Inner) (company : Uuid) (r : LostRecord) : Bool × Option String :=
  let present := (AList.lookup (company, r.doctype, r.documentId) inner.documents).isSome
  let holder := (r.number.filter fun n => n ≠ "").bind fun n =>
    (inner.documents.values.find? fun d =>
      d.companyId = company && d.doctype = r.doctype && d.id ≠ r.documentId &&
        d.officialNumber = some n).map PostedDocument.id
  (present, holder)

/-- `record_lost_history`: the response and whether it is a replay. -/
def recordLostHistory (company : Uuid) (report : LostHistoryReport) (audit : AuditEntry)
    (inner : Inner) : (Value × Bool) × Inner :=
  match AList.lookup (company, report.recoveryId) inner.historyRecoveries with
  | some stored => ((stored, true), inner)
  | none =>
    let (response, floors) := lostHistoryOutcome report (report.lost.map (inner.findLost company))
    ((response, false),
      { inner with
        series := raiseFloors company floors inner.series
        historyRecoveries := AList.insert (company, report.recoveryId) response
          inner.historyRecoveries
        audit := inner.audit ++ [{ audit with detail := lostHistoryAuditDetail report response }] })

/-- `put_company_settings`: the books lock is not written here. -/
def putCompanySettings (company : Uuid) (settings : CompanySettings) (inner : Inner) : Inner :=
  let lock := (AList.lookup company inner.settings).bind CompanySettings.booksLockDate
  { inner with
    settings := AList.insert company { settings with booksLockDate := lock } inner.settings }

/-- `set_books_lock`: a compare-and-set. -/
def setBooksLock (company : Uuid) (change : BooksLockChange) (inner : Inner) :
    Except StoreError BooksLockOutcome × Inner :=
  let settings := inner.companySettings company
  let previous := settings.booksLockDate
  if previous = change.lockDate then
    (.ok { previous, lockDate := previous, changed := false }, inner)
  else if previous ≠ change.expectedCurrent then
    (.error (.conflict (booksLockMoved previous)), inner)
  else
    (.ok { previous, lockDate := change.lockDate, changed := true },
      { inner with
        settings := AList.insert company { settings with booksLockDate := change.lockDate }
          inner.settings
        audit := inner.audit ++ [change.audit] })

/-- `push_mutations`. -/
def pushMutations (codec : Codec) (env : Env) (company : Uuid) (records : List MutationRecord)
    (inner : Inner) : Inner :=
  { inner with toSyncLog := inner.toSyncLog.appendMutations codec env company records }

/-- `upsert_item`. -/
def upsertItem (company : Uuid) (item : Item) (inner : Inner) : Inner :=
  { inner with items := AList.insert (company, item.id) item inner.items }

end Inner

end AtlasTeam
