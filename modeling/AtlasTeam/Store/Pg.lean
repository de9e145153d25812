import AtlasTeam.Store.Backend

/-!
# The PostgreSQL store (`store/pg.rs`)

`PgTables` holds the tables of the migrations, which are those of the in-memory store under primary
keys. A commit is one transaction under the company's advisory lock: it makes the same checks as the
in-memory store and inserts its rows one by one, and a key that is taken takes everything back.
`write_ok` says what a transaction that goes through has found and written.

The order the database sorts texts in and the text form of JSON values and doubles are its own; they are
the parameters of `Postgres`.
-/

namespace AtlasTeam

/-- What the database decides. -/
structure Postgres where
  /-- The collation, as `a ≤ b`. -/
  collate : String → String → Bool
  /-- `->>` of a value that is neither a string nor null. -/
  jsonText : Value → String
  /-- `to_jsonb` of a double, as it reads back: 60 where serde_json keeps 60.0. -/
  floatJson : ℚ → Value

namespace Postgres
variable (pg : Postgres)

/-- `payload ->> field`. -/
def text (payload : Value) (field : String) : Option String :=
  match payload.get field with
  | none | some .null => none
  | some (.string s) => some s
  | some v => some (pg.jsonText v)

/-- `order by id`. -/
def orderById {α : Type} (id : α → String) (rows : List α) : List α :=
  rows.insertionSort fun a b => pg.collate (id a) (id b) = true

end Postgres

/-- `btrim`: without the spaces at both ends. -/
def btrim (s : String) : String :=
  String.ofList ((s.toList.dropWhile (· = ' ')).reverse.dropWhile (· = ' ')).reverse

/-- The tables of the migrations. The identity column of the stock ledger counts the rows of all
companies (`sleSeq` stays empty). A rolled-back insert uses up identity values as well; only their
order is ever read, and it is the order of the rows. -/
structure PgTables extends Inner where
  stockIdentity : Int := 0

namespace PgTables
variable (pg : Postgres)

/-! ### Reads -/

/-- The Payment Entries of a company, of those whose `deposit` is as asked. -/
def paymentsWithDeposit (tables : PgTables) (company : Uuid) (holds : Option String → Bool) :
    List PostedDocument :=
  (tables.documents.entries.filter fun e =>
    e.1.1 = company && e.1.2.1 = "Payment Entry" && holds (pg.text e.2.payload "deposit")).map
      Sigma.snd

/-- The tables as the posting engine reads them. -/
def view (tables : PgTables) : StoreView :=
  { tables.toInner.view with
    items := fun company ids => (tables.items.entries.filter fun e =>
      e.1.1 = company && e.1.2 ∈ ids).map Sigma.snd
    glForVoucher := fun company no => pg.orderById GlEntry.id
      ((tables.glEntries.log company).filter fun e => e.voucherNo = no)
    partyTransactionsForVoucher := fun company no => pg.orderById PartyTransaction.id
      ((tables.partyTransactions.log company).filter fun t => t.voucherNo = no)
    taxTransactionsForVoucher := fun company no => pg.orderById TaxTransaction.id
      ((tables.taxTransactions.log company).filter fun t => t.voucherNo = no)
    depositApplications := fun company depositId => pg.orderById PostedDocument.id
      (tables.paymentsWithDeposit pg company fun deposit => deposit.map btrim = some depositId) }

/-! ### The checks of a commit -/

/-- The deposit guard, re-read without `btrim`. -/
def checkDeposit (tables : PgTables) (commit : PostingCommit) : Except StoreError Unit :=
  match commit.depositGuard with
  | some guard =>
    let deposit := AList.lookup (commit.companyId, "Customer Deposit", guard.depositId)
      tables.documents
    match depositGuardViolation guard deposit (tables.paymentsWithDeposit pg commit.companyId
        fun deposit => deposit = some guard.depositId) with
    | some reason => .error (.stale reason)
    | none => .ok ()
  | none => .ok ()

/-- The till series is not bound to another device. -/
def checkTill (tables : PgTables) (commit : PostingCommit) : Except StoreError Unit :=
  match commit.tillBinding with
  | some (series, device) =>
    if tables.documents.entries.any fun e =>
        e.1.1 = commit.companyId && e.1.2.1 = commit.document.doctype &&
          pg.text e.2.payload "till_series" = some series &&
          ((pg.text e.2.payload "till_device").any fun d => d ≠ device) then
      .error (.conflict (s!"till series {series} is bound to another device; " ++
        "give this register its own receipt series"))
    else .ok ()
  | none => .ok ()

/-- The checks of `posting_commit` after the idempotency read, in its order. -/
def checkCommit (tables : PgTables) (commit : PostingCommit) : Except StoreError Unit := do
  tables.checkLock commit
  tables.checkDeposit pg commit
  tables.checkSolo commit
  tables.checkExpectations commit
  tables.checkDocument commit
  tables.checkPreassigned commit
  tables.checkTill pg commit

/-! ### The writes of a commit -/

def duplicateKey (constraint : String) : StoreError :=
  .sqlx s!"duplicate key value violates unique constraint {constraint}"

/-- One insert into a company's rows of a table, under the primary key (company, id). -/
def insertRow {α : Type} (table : String) (id : α → String) (rows : List α) (row : α) :
    Except StoreError (List α) :=
  if id row ∈ rows.map id then .error (duplicateKey (table ++ "_pkey")) else .ok (rows ++ [row])

/-- The inserts of a commit into one table. -/
def insertRows {α : Type} (table : String) (id : α → String) (company : Uuid) (rows : List α)
    (stored : Table Uuid (List α)) : Except StoreError (Table Uuid (List α)) := do
  let log ← rows.foldlM (insertRow table id) (stored.log company)
  return AList.insert company log stored

/-- A new document goes in under the unique index of official numbers; a cancelled one gets its
payload and docstatus. -/
def writeDocument (commit : PostingCommit) (document : PostedDocument) (documents : Documents) :
    Except StoreError Documents :=
  if commit.documentIsNew then
    if documents.entries.any fun e =>
        e.1.1 = commit.companyId && e.1.2.1 = document.doctype && e.2.officialNumber.isSome &&
          e.2.officialNumber = document.officialNumber then
      .error (duplicateKey "documents_official_number_unique")
    else .ok (AList.insert (commit.companyId, document.doctype, document.id) document documents)
  else
    match AList.lookup (commit.companyId, document.doctype, document.id) documents with
    | some existing =>
      .ok (AList.insert (commit.companyId, document.doctype, document.id)
        { existing with payload := document.payload, docstatus := document.docstatus } documents)
    | none => .ok documents

/-- The batch row, under the primary key (company, id). -/
def insertBatch (commit : PostingCommit) (batches : Table (Uuid × String) PostingBatch) :
    Except StoreError (Table (Uuid × String) PostingBatch) :=
  match AList.lookup (commit.companyId, commit.batch.id) batches with
  | some _ => .error (duplicateKey "posting_batches_pkey")
  | none => .ok (AList.insert (commit.companyId, commit.batch.id) commit.batch batches)

/-- One outstanding update, by `jsonb_set`. -/
def writeOutstanding (company : Uuid) (documents : Documents) (update : String × String × ℚ) :
    Documents :=
  let (doctype, id, outstanding) := update
  match AList.lookup (company, doctype, id) documents with
  | some doc =>
    AList.insert (company, doctype, id)
      { doc with payload := doc.payload.setField "outstanding_amount" (pg.floatJson outstanding) }
      documents
  | none => documents

/-- The transaction of `posting_commit`, without the company's replay. -/
def write (codec : Codec) (env : Env) (commit : PostingCommit) (tables : PgTables) :
    Except StoreError (Value × PgTables) := do
  let company := commit.companyId
  tables.checkCommit pg commit
  let ((document, response), series) := Inner.allocateNumber commit tables.series
  let documents ← writeDocument commit document tables.documents
  let glEntries ← insertRows "gl_entries" GlEntry.id company commit.glEntries tables.glEntries
  let stockLedger ← insertRows "stock_ledger_entries" StockLedgerEntry.id company
    (Inner.sequenceFrom tables.stockIdentity commit.stockLedgerEntries) tables.stockLedger
  let partyTransactions ← insertRows "party_transactions" PartyTransaction.id company
    commit.partyTransactions tables.partyTransactions
  let taxTransactions ← insertRows "tax_transactions" TaxTransaction.id company
    commit.taxTransactions tables.taxTransactions
  let settlements ← insertRows "settlements" Settlement.id company commit.settlements
    tables.settlements
  let documents := commit.outstandingUpdates.foldl (writeOutstanding pg company) documents
  -- the invoices are read again once all are written
  let touched := commit.outstandingUpdates.filterMap fun (doctype, id, _) =>
    AList.lookup (company, doctype, id) documents
  let records ← (replicationMutations codec env.now
    (Inner.replicationSources commit document commit.stockLedgerEntries touched)).mapError .json
  let batches ← insertBatch commit tables.batches
  return (response,
    { tables with
      toSyncLog := tables.toSyncLog.appendMutations codec env company records
      series := Inner.raiseFloors company commit.numberingFloors series
      soloMigrations := Inner.markSolo commit tables.soloMigrations
      documents
      glEntries
      stockLedger
      stockIdentity := tables.stockIdentity + commit.stockLedgerEntries.length
      partyTransactions
      taxTransactions
      settlements
      bins := commit.bins.foldl (Inner.putBin company) tables.bins
      batches
      audit := tables.audit ++ [commit.audit]
      idempotency := match commit.idempotencyKey with
        | some key => AList.insert (company, key) response tables.idempotency
        | none => tables.idempotency })

/-- `PgStore::posting_commit`: an error takes the transaction back. -/
def postingCommit (codec : Codec) (env : Env) (commit : PostingCommit) (tables : PgTables) :
    Except StoreError CommitOutcome × PgTables :=
  match tables.replayed commit with
  | some response => (.ok { response, replayed := true }, tables)
  | none =>
    match tables.write pg codec env commit with
    | .ok (response, tables') => (.ok { response, replayed := false }, tables')
    | .error e => (.error e, tables)

/-! ### What a transaction writes -/

theorem foldlM_insertRow {α : Type} {table : String} {id : α → String} {rows stored log : List α}
    (h : rows.foldlM (insertRow table id) stored = .ok log) : log = stored ++ rows := by
  induction rows generalizing stored with
  | nil => rw [List.append_nil, ← Except.ok.inj h]
  | cons row rows ih =>
    rw [List.foldlM_cons, Except.bind_eq_ok] at h
    obtain ⟨inserted, hinsert, hrest⟩ := h
    rw [insertRow, Except.ite_throw_eq_ok] at hinsert
    rw [ih hrest, ← Except.ok.inj hinsert.2, List.append_assoc, List.singleton_append]

/-- Inserts that go through append the rows. -/
theorem insertRows_ok {α : Type} {table : String} {id : α → String} {company : Uuid} {rows : List α}
    {stored stored' : Table Uuid (List α)} (h : insertRows table id company rows stored = .ok stored') :
    stored' = stored.extend company rows := by
  simp only [insertRows, Except.bind_eq_ok, Except.pure_eq_ok] at h
  obtain ⟨log, hlog, rfl⟩ := h
  rw [foldlM_insertRow hlog]
  rfl

/-- A document is there after the write if it was there or is the commit's. -/
theorem writeDocument_ok {commit : PostingCommit} {document : PostedDocument}
    {documents documents' : Documents} (h : writeDocument commit document documents = .ok documents')
    {key : Uuid × String × String} (hkey : (AList.lookup key documents').isSome = true) :
    key = (commit.companyId, document.doctype, document.id) ∨
      (AList.lookup key documents).isSome = true := by
  by_cases hself : key = (commit.companyId, document.doctype, document.id)
  · exact .inl hself
  refine .inr ?_
  unfold writeDocument at h
  split_ifs at h
  · rw [← Except.ok.inj h, AList.lookup_insert_ne hself] at hkey
    exact hkey
  · split at h
    · rw [← Except.ok.inj h, AList.lookup_insert_ne hself] at hkey
      exact hkey
    · rw [← Except.ok.inj h] at hkey
      exact hkey

/-- Outstanding updates leave every document where it is. -/
theorem lookup_writeOutstandings_isSome (company : Uuid) (updates : List (String × String × ℚ))
    (documents : Documents) (key : Uuid × String × String) :
    (AList.lookup key (updates.foldl (writeOutstanding pg company) documents)).isSome =
      (AList.lookup key documents).isSome := by
  induction updates generalizing documents with
  | nil => rfl
  | cons update updates ih =>
    obtain ⟨doctype, id, outstanding⟩ := update
    rw [List.foldl_cons, ih]
    simp only [writeOutstanding]
    cases hdoc : AList.lookup (company, doctype, id) documents with
    | none => rfl
    | some doc =>
      by_cases hkey : key = (company, doctype, id)
      · subst hkey
        simp [AList.lookup_insert, hdoc]
      · simp only [AList.lookup_insert_ne hkey]

/-- `tables'` is `tables` after the writes of `commit`. -/
structure Written (commit : PostingCommit) (tables tables' : PgTables) : Prop where
  checkedDocument : tables.checkDocument commit = .ok ()
  newBatch : AList.lookup (commit.companyId, commit.batch.id) tables.batches = none
  batches : tables'.batches =
    AList.insert (commit.companyId, commit.batch.id) commit.batch tables.batches
  glEntries : tables'.glEntries = tables.glEntries.extend commit.companyId commit.glEntries
  stockLedger : tables'.stockLedger = tables.stockLedger.extend commit.companyId
    (Inner.sequenceFrom tables.stockIdentity commit.stockLedgerEntries)
  partyTransactions : tables'.partyTransactions =
    tables.partyTransactions.extend commit.companyId commit.partyTransactions
  taxTransactions : tables'.taxTransactions =
    tables.taxTransactions.extend commit.companyId commit.taxTransactions
  settlements : tables'.settlements = tables.settlements.extend commit.companyId commit.settlements
  documents : ∀ key, (AList.lookup key tables'.documents).isSome = true →
    key = Inner.docKey commit ∨ (AList.lookup key tables.documents).isSome = true

theorem write_ok {codec : Codec} {env : Env} {commit : PostingCommit} {tables tables' : PgTables}
    {response : Value} (h : tables.write pg codec env commit = .ok (response, tables')) :
    Written commit tables tables' := by
  simp only [write, checkCommit, Except.bind_eq_ok, Except.pure_eq_ok] at h
  obtain ⟨⟨⟩, ⟨⟨⟩, -, ⟨⟩, -, ⟨⟩, -, ⟨⟩, -, ⟨⟩, hdocument, -⟩, documents, hdocuments, glEntries, hgl,
    stockLedger, hstock, party, hparty, tax, htax, settlements, hsettlements, records, -, batches,
    hbatches, hpair⟩ := h
  obtain ⟨rfl, rfl⟩ := Prod.mk.inj hpair
  have hbatch : AList.lookup (commit.companyId, commit.batch.id) tables.batches = none ∧
      batches = AList.insert (commit.companyId, commit.batch.id) commit.batch tables.batches := by
    unfold insertBatch at hbatches
    split at hbatches
    · cases hbatches
    · exact ⟨‹_›, (Except.ok.inj hbatches).symm⟩
  refine ⟨hdocument, hbatch.1, hbatch.2, insertRows_ok hgl, insertRows_ok hstock,
    insertRows_ok hparty, insertRows_ok htax, insertRows_ok hsettlements, fun key hkey => ?_⟩
  have hwritten : (AList.lookup key documents).isSome = true := by
    rw [← lookup_writeOutstandings_isSome pg commit.companyId commit.outstandingUpdates]
    exact hkey
  have hkeyed : (commit.companyId, (Inner.numberedDocument commit tables.toInner).doctype,
      (Inner.numberedDocument commit tables.toInner).id) = Inner.docKey commit := by
    rw [Inner.numberedDocument_eq]
    rfl
  exact hkeyed ▸ writeDocument_ok hdocuments hwritten

/-- What running a commit can do. -/
theorem postingCommit_cases (codec : Codec) (env : Env) (commit : PostingCommit)
    (tables : PgTables) :
    (∃ result, tables.postingCommit pg codec env commit = (result, tables) ∧
      ∀ outcome, result = .ok outcome → outcome.replayed = true) ∨
    ∃ response tables', Written commit tables tables' ∧
      tables.postingCommit pg codec env commit =
        (.ok { response, replayed := false }, tables') := by
  unfold postingCommit
  cases tables.replayed commit with
  | some response =>
    refine .inl ⟨_, rfl, fun outcome h => ?_⟩
    rw [← Except.ok.inj h]
  | none =>
    cases hwrite : tables.write pg codec env commit with
    | error e => exact .inl ⟨_, rfl, fun outcome h => nomatch h⟩
    | ok pair =>
      obtain ⟨response, tables'⟩ := pair
      exact .inr ⟨response, tables', write_ok pg hwrite, rfl⟩

end PgTables

/-- The store and its other operations, which do what the in-memory ones do. -/
def pgBackend (pg : Postgres) (codec : Codec) : Backend PgTables MemOp where
  view := PgTables.view pg
  postingCommit := PgTables.postingCommit pg codec
  operate env op tables :=
    { tables with toInner := (memBackend codec).operate env op tables.toInner }

/-- The system on the PostgreSQL store after a list of events, from empty tables. -/
def pgRun (pg : Postgres) (codec : Codec) (events : List (Event MemOp)) : System PgTables :=
  (System.fresh {}).run codec (pgBackend pg codec) events

end AtlasTeam
