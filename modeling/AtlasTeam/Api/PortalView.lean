import AtlasTeam.Api.Portal
import AtlasTeam.Api.PortalPages
import AtlasTeam.Lib.TableSlice
import AtlasTeam.Store.HistoryChain

/-!
# What a customer sees (`portal.rs`)

The three routes of a customer link read the rows of the read model that name the link's customer, and
nothing else of the other rows: the summary filters the rows of two doctypes, and a document or a
quotation whose `customer` differs answers as one that is not there. So the routes answer alike on any two
stores that agree on these rows (`portal_link_scoped`), and a decision writes one row, which is one of
them.
-/

namespace AtlasTeam

/-! ### The routes -/

/-- `hash_token`. -/
def hashToken (codec : Codec) (token : String) : String := hexEncode (codec.sha256 token.toUTF8.toList)

/-- `wants_html`, on the text of the Accept header. -/
def wantsHtml (accept : Option String) : Bool :=
  accept.any fun value => "text/html".toList <:+: value.toList

inductive PortalResponse where
  | json (body : Value)
  | html (page : String)
  | redirect (location : String)

/-- `CUSTOMER_DOCTYPES`: what a customer link may read. -/
def customerDoctypes : List String := ["Quotation", "Sales Invoice"]

/-- Every row of the read model stands under its own key. -/
def SyncLog.RowsKeyed (log : SyncLog) : Prop :=
  ∀ key doc, AList.lookup key log.companyDocuments = some doc →
    key = (doc.companyId, doc.doctype, doc.documentId)

/-- The store of the portal: the names of the companies and the links stand beside the posting tables. -/
structure PortalStore where
  inner : Inner
  companyNames : Table Uuid String
  /-- A link under the hash of its token. -/
  portalLinks : Table String PortalLink
  keyed : inner.toSyncLog.RowsKeyed

/-- `company_documents`: the rows of a doctype, by id. -/
def SyncLog.documentsOf (log : SyncLog) (company : Uuid) (doctype : String) : List CompanyDocument :=
  TableSlice.sorted CompanyDocument.documentId (fun key => key.1 = company && key.2.1 = doctype)
    log.companyDocuments

/-- `posted_document_counts`. -/
def Inner.postedDocumentCounts (inner : Inner) (company : Uuid) : List (String × Nat) :=
  (inner.documents.keys.filter fun key => key.1 = company).foldl (fun counts key =>
    SortedMap.Raw.put key.2.1 ((counts.lookup key.2.1).getD 0 + 1) counts) []

/-- `open_quotations`. -/
def openQuotations (log : SyncLog) (company : Uuid) (party : String) : List CompanyDocument :=
  (log.documentsOf company "Quotation").filter fun doc =>
    doc.docstatus = 0 && doc.customer = some party

/-- `unpaid_invoices`. -/
def unpaidInvoices (log : SyncLog) (company : Uuid) (party : String) : List CompanyDocument :=
  (log.documentsOf company "Sales Invoice").filter fun doc =>
    doc.docstatus = 1 && doc.customer = some party && 0 < asNum (doc.payload.get "outstanding_amount")

/-- The fields `doc_json` shows. -/
def docFields (doc : CompanyDocument) : List (String × Value) :=
  [("id", .string doc.documentId), ("doctype", .string doc.doctype), ("docstatus", .int doc.docstatus),
    ("payload", doc.payload)]

/-- `doc_json`. -/
def docJson (doc : CompanyDocument) : Value := .obj (docFields doc)

/-- `portal_summary`. -/
def portalSummary (codec : Codec) (env : Env) (token : String) (accept : Option String)
    (store : PortalStore) : Except ApiError PortalResponse := do
  let link ← resolveLink env.now (AList.lookup (hashToken codec token) store.portalLinks)
  let company := link.companyId
  match AList.lookup company store.companyNames with
  | none => throw .notFound
  | some name =>
    match link.kind with
    | .customer =>
      let party := link.party.getD ""
      let quotations := openQuotations store.inner.toSyncLog company party
      let invoices := unpaidInvoices store.inner.toSyncLog company party
      if wantsHtml accept then return .html (customerSummaryPage token name party quotations invoices)
      return .json (.obj
        [("company", .string name), ("customer", .string party),
          ("quotations", .array (quotations.map docJson)), ("invoices", .array (invoices.map docJson))])
    | .accountant =>
      let counts := (store.inner.postedDocumentCounts company).map fun (doctype, n) =>
        (doctype, Value.int n)
      return .json (.obj
        [("company", .string name), ("documentCounts", .object counts),
          ("glEntryCount", .int (store.inner.glEntries.log company).length)])

/-- `portal_document`. -/
def portalDocument (codec : Codec) (env : Env) (token doctype documentId : String)
    (accept : Option String) (store : PortalStore) : Except ApiError PortalResponse := do
  let link ← resolveLink env.now (AList.lookup (hashToken codec token) store.portalLinks)
  if link.kind ≠ .customer ∨ doctype ∉ customerDoctypes then throw .notFound
  match AList.lookup (link.companyId, doctype, documentId) store.inner.companyDocuments with
  | none => throw .notFound
  | some doc =>
    if doc.customer ≠ some (link.party.getD "") then throw .notFound
    if wantsHtml accept then return .html (documentPage token doc)
    return .json (.obj (docFields doc ++ [("children", doc.children.getD .null)]))

/-- The answer to a decided request: back to the document's page, or the date. -/
def quoteResponse (token quotationId : String) (verb : QuoteVerb) (accept : Option String)
    (date : String) : PortalResponse :=
  if wantsHtml accept then
    .redirect ("/portal/" ++ token ++ "/documents/Quotation/" ++ encodeSegment quotationId)
  else .json (.obj [("quotation", .string quotationId), (verb.spec.1, .string date)])

theorem SyncLog.rowsKeyed_empty : SyncLog.RowsKeyed {} := fun _ _ h => by simp at h

/-- A record keeps the rows under their keys. -/
theorem SyncLog.RowsKeyed.applyProjection {log : SyncLog} (h : log.RowsKeyed) (codec : Codec) (env : Env)
    (company : Uuid) (record : MutationRecord) :
    (SyncLog.applyProjection codec env company record log).RowsKeyed := by
  intro key doc hdoc
  rw [SyncLog.lookup_applyProjection] at hdoc
  split_ifs at hdoc with hkey
  · simp only [SyncLog.foldedRow, foldMutation] at hdoc
    split at hdoc
    · rename_i row hrow
      obtain rfl := Option.some.inj hdoc
      rw [hkey]
      split at hrow <;> cases hrow <;> rfl
    · cases hdoc
    · exact h key doc hdoc
  · exact h key doc hdoc

theorem SyncLog.RowsKeyed.appendMutations {log : SyncLog} (h : log.RowsKeyed) (codec : Codec) (env : Env)
    (company : Uuid) (records : List MutationRecord) :
    (log.appendMutations codec env company records).RowsKeyed := by
  induction records generalizing log with
  | nil => exact h
  | cons record records ih =>
    refine ih ?_
    rcases SyncLog.appendMutation_cases codec env company log record with ⟨version, -, hsame⟩ | ⟨-, happ⟩
    · rw [hsame]
      exact h
    · unfold SyncLog.RowsKeyed
      rw [happ.documents]
      exact h.applyProjection codec env company record

/-- The store after a decision was pushed and audited. -/
def PortalStore.decided (codec : Codec) (env : Env) (store : PortalStore) (company : Uuid)
    (record : MutationRecord) (audit : AuditEntry) : PortalStore :=
  let pushed := store.inner.pushMutations codec env company [record]
  { store with
    inner := { pushed with audit := pushed.audit ++ [audit] }
    keyed := store.keyed.appendMutations codec env company [record] }

/-- `quote_action`: the answer and the store it leaves. -/
def quoteRequest (codec : Codec) (env : Env) (token quotationId : String) (verb : QuoteVerb)
    (accept : Option String) (store : PortalStore) : Except ApiError PortalResponse × PortalStore :=
  match AList.lookup (hashToken codec token) store.portalLinks with
  | none => (.error .notFound, store)
  | some link =>
    let doc := AList.lookup (link.companyId, "Quotation", quotationId) store.inner.companyDocuments
    match quoteAction codec env (some link) doc quotationId verb with
    | .error e => (.error e, store)
    | .ok (.standing date) => (.ok (quoteResponse token quotationId verb accept date), store)
    | .ok (.push record audit date) =>
      (.ok (quoteResponse token quotationId verb accept date),
        store.decided codec env link.companyId record audit)

theorem SyncLog.RowsKeyed.foldRecords {log : SyncLog} (h : log.RowsKeyed) (codec : Codec) (env : Env)
    (company : Uuid) (records : List MutationRecord) :
    (SyncLog.foldRecords codec env company records log).RowsKeyed := by
  induction records generalizing log with
  | nil => exact h
  | cons record records ih => exact ih (h.applyProjection codec env company record)

/-- In every run the rows of the read model stand under their keys, so its store is one of the portal. -/
theorem readModelRun_keyed (codec : Codec) (events : List (Event ReadModelOp)) :
    (readModelRun codec events).book.store.toSyncLog.RowsKeyed := by
  rintro ⟨company, doctype, id⟩ doc hdoc
  obtain ⟨-, hfolds⟩ := readModelRun_kept codec events company
  -- the rows are the fold of the log, but for their update times
  have hrow := hfolds ⟨0, "", 0⟩ doctype id
  rw [hdoc, Option.map_some] at hrow
  obtain ⟨doc', hdoc', hsame⟩ := Option.map_eq_some_iff.1 hrow.symm
  have hkey := SyncLog.rowsKeyed_empty.foldRecords codec ⟨0, "", 0⟩ company _ _ doc' hdoc'
  have hcompany := congrArg CompanyDocument.companyId hsame
  have hdoctype := congrArg CompanyDocument.doctype hsame
  have hid := congrArg CompanyDocument.documentId hsame
  simp only [CompanyDocument.timeless] at hcompany hdoctype hid
  rw [hkey, hcompany, hdoctype, hid]

/-! ### One customer's rows -/

/-- The rows of a company that name a customer. -/
def ownRow (company : Uuid) (party : String) (key : Uuid × String × String) (doc : CompanyDocument) :
    Bool :=
  key.1 = company && doc.customer = some party

/-- Two stores a link cannot tell apart: they hold it, the name of its company and the rows of its
customer alike. -/
structure SameToLink (codec : Codec) (token : String) (link : PortalLink) (party : String)
    (store store' : PortalStore) : Prop where
  found : AList.lookup (hashToken codec token) store.portalLinks = some link
  found' : AList.lookup (hashToken codec token) store'.portalLinks = some link
  company : AList.lookup link.companyId store.companyNames =
    AList.lookup link.companyId store'.companyNames
  rows : TableSlice.Agree (ownRow link.companyId party) store.inner.companyDocuments
    store'.inner.companyDocuments

section Lists
variable {company : Uuid} {party : String} {log log' : SyncLog}

/-- A list of one doctype's rows that names the customer. -/
theorem documentsOf_own (hkeyed : log.RowsKeyed) (doctype : String) (q : CompanyDocument → Bool)
    (h : TableSlice.Agree (ownRow company party) log.companyDocuments log'.companyDocuments)
    (hq : ∀ doc, q doc = true → doc.customer = some party) :
    (log.documentsOf company doctype).filter q = (log'.documentsOf company doctype).filter q := by
  refine TableSlice.Agree.sorted_eq (fun key doc hpicked => ?_) ?_
  · simp only [Bool.and_eq_true, decide_eq_true_eq] at hpicked
    refine h key doc ?_
    simp only [ownRow, Bool.and_eq_true, decide_eq_true_eq]
    exact ⟨hpicked.1.1, hq doc hpicked.2⟩
  · rintro ⟨c, dt, id⟩ doc ⟨c', dt', id'⟩ doc' hkey hkey' hdoc hdoc' hid
    simp only [Bool.and_eq_true, decide_eq_true_eq] at hkey hkey'
    have hrow := hkeyed _ _ hdoc
    have hrow' := hkeyed _ _ hdoc'
    simp only [Prod.mk.injEq] at hrow hrow' ⊢
    exact ⟨hkey.1.trans hkey'.1.symm, hkey.2.trans hkey'.2.symm,
      hrow.2.2.trans (hid.trans hrow'.2.2.symm)⟩

theorem openQuotations_own (hkeyed : log.RowsKeyed)
    (h : TableSlice.Agree (ownRow company party) log.companyDocuments log'.companyDocuments) :
    openQuotations log company party = openQuotations log' company party := by
  refine documentsOf_own hkeyed "Quotation" _ h fun doc hdoc => ?_
  simp only [Bool.and_eq_true, decide_eq_true_eq] at hdoc
  exact hdoc.2

theorem unpaidInvoices_own (hkeyed : log.RowsKeyed)
    (h : TableSlice.Agree (ownRow company party) log.companyDocuments log'.companyDocuments) :
    unpaidInvoices log company party = unpaidInvoices log' company party := by
  refine documentsOf_own hkeyed "Sales Invoice" _ h fun doc hdoc => ?_
  simp only [Bool.and_eq_true, decide_eq_true_eq] at hdoc
  exact hdoc.1.2

end Lists

section Link
variable {codec : Codec} {env : Env} {token : String} {link : PortalLink} {party : String}

/-- A link in force is the one found; any other answers as unknown. -/
theorem resolveLink_some (now : DateTime) (link : PortalLink) :
    resolveLink now (some link) = .ok link ∨ resolveLink now (some link) = .error .notFound := by
  simp only [resolveLink]
  split_ifs
  · exact .inr rfl
  · exact .inl rfl

/-- A decision without a row. -/
theorem quoteAction_none (quotationId : String) (verb : QuoteVerb) :
    quoteAction codec env (some link) none quotationId verb = .error .notFound := by
  unfold quoteAction
  rcases resolveLink_some env.now link with h | h <;> rw [h]
  · by_cases hkind : link.kind = .customer <;> simp [hkind, Except.bind, bind] <;> rfl
  · rfl

/-- Another customer's quotation answers as none. -/
theorem quoteAction_other (hparty : link.party = some party) {doc : CompanyDocument}
    (hother : doc.customer ≠ some party) (quotationId : String) (verb : QuoteVerb) :
    quoteAction codec env (some link) (some doc) quotationId verb = .error .notFound := by
  unfold quoteAction
  rcases resolveLink_some env.now link with h | h <;> rw [h]
  · by_cases hkind : link.kind = .customer <;> simp [hkind, hparty, hother, Except.bind, bind] <;> rfl
  · rfl

/-- What a decision pushes is a record of the quotation. -/
theorem quoteAction_push {doc : CompanyDocument} {quotationId : String} {verb : QuoteVerb}
    {record : MutationRecord} {audit : AuditEntry} {date : String}
    (h : quoteAction codec env (some link) (some doc) quotationId verb =
      .ok (.push record audit date)) :
    record.docType = "Quotation" ∧ record.documentId = quotationId := by
  unfold quoteAction at h
  simp only [Except.bind_eq_ok, Except.throw_bind, Except.ite_throw_eq_ok] at h
  obtain ⟨_, -, -, -, -, h⟩ := h
  split at h
  · cases h
  · cases hrecord : quoteRecord codec env doc quotationId verb with
    | error e =>
      rw [hrecord] at h
      cases h
    | ok pushed =>
      rw [hrecord] at h
      obtain rfl : pushed = record := (QuoteDecision.push.inj (Except.ok.inj h)).1
      simp only [quoteRecord, Except.bind_eq_ok, Except.pure_eq_ok] at hrecord
      obtain ⟨envelope, -, rfl⟩ := hrecord
      exact ⟨rfl, rfl⟩

variable {store store' : PortalStore}

theorem portalSummary_own (hkind : link.kind = .customer) (hparty : link.party = some party)
    (h : SameToLink codec token link party store store') (accept : Option String) :
    portalSummary codec env token accept store = portalSummary codec env token accept store' := by
  unfold portalSummary
  rw [h.found, h.found']
  rcases resolveLink_some env.now link with hlink | hlink <;> rw [hlink]
  · simp only [Except.bind, bind, h.company, hkind, hparty, Option.getD_some,
      openQuotations_own store.keyed h.rows, unpaidInvoices_own store.keyed h.rows]
  · rfl

/-- One lookup of both stores: the customer's row, the same in both, or a row of someone else or none in
each. -/
theorem SameToLink.lookup_cases (h : SameToLink codec token link party store store')
    (doctype id : String) :
    let row := AList.lookup (link.companyId, doctype, id) store.inner.companyDocuments
    let row' := AList.lookup (link.companyId, doctype, id) store'.inner.companyDocuments
    row = row' ∨ (∀ doc, row = some doc → doc.customer ≠ some party) ∧
      ∀ doc, row' = some doc → doc.customer ≠ some party := by
  intro row row'
  by_cases hown : ∃ doc, row = some doc ∧ doc.customer = some party
  · obtain ⟨doc, hrow, hcustomer⟩ := hown
    refine .inl (hrow.trans (((h.rows _ doc ?_).1 hrow).symm))
    simp [ownRow, hcustomer]
  · refine .inr ⟨fun doc hrow hcustomer => hown ⟨doc, hrow, hcustomer⟩, fun doc hrow' hcustomer => ?_⟩
    refine hown ⟨doc, (h.rows _ doc ?_).2 hrow', hcustomer⟩
    simp [ownRow, hcustomer]

/-- An id under which the customer has no document answers as unknown. -/
theorem portalDocument_other (hparty : link.party = some party)
    (hfound : AList.lookup (hashToken codec token) store.portalLinks = some link)
    {doctype documentId : String}
    (hother : ∀ doc, AList.lookup (link.companyId, doctype, documentId) store.inner.companyDocuments =
      some doc → doc.customer ≠ some party) (accept : Option String) :
    portalDocument codec env token doctype documentId accept store = .error .notFound := by
  unfold portalDocument
  rw [hfound]
  rcases resolveLink_some env.now link with hlink | hlink <;> rw [hlink]
  · simp only [Except.bind, bind]
    split
    · rfl
    · cases hrow : AList.lookup (link.companyId, doctype, documentId) store.inner.companyDocuments with
      | none => rfl
      | some doc => simp [hparty, hother doc hrow]; rfl
  · rfl

/-- The same for a decision, which then leaves the store as it is. -/
theorem quoteRequest_other (hparty : link.party = some party)
    (hfound : AList.lookup (hashToken codec token) store.portalLinks = some link) {quotationId : String}
    (hother : ∀ doc, AList.lookup (link.companyId, "Quotation", quotationId)
      store.inner.companyDocuments = some doc → doc.customer ≠ some party)
    (verb : QuoteVerb) (accept : Option String) :
    quoteRequest codec env token quotationId verb accept store = (.error .notFound, store) := by
  unfold quoteRequest
  simp only [hfound]
  cases hrow : AList.lookup (link.companyId, "Quotation", quotationId) store.inner.companyDocuments with
  | none => rw [quoteAction_none]
  | some doc => rw [quoteAction_other hparty (hother doc hrow)]

theorem portalDocument_own (hparty : link.party = some party)
    (h : SameToLink codec token link party store store') (doctype documentId : String)
    (accept : Option String) :
    portalDocument codec env token doctype documentId accept store =
      portalDocument codec env token doctype documentId accept store' := by
  rcases h.lookup_cases doctype documentId with hsame | ⟨hother, hother'⟩
  · unfold portalDocument
    rw [h.found, h.found']
    rcases resolveLink_some env.now link with hlink | hlink <;> rw [hlink]
    · simp only [Except.bind, bind, hsame]
    · rfl
  · rw [portalDocument_other hparty h.found hother, portalDocument_other hparty h.found' hother']

theorem quoteRequest_own (hparty : link.party = some party)
    (h : SameToLink codec token link party store store') (quotationId : String) (verb : QuoteVerb)
    (accept : Option String) :
    (quoteRequest codec env token quotationId verb accept store).1 =
      (quoteRequest codec env token quotationId verb accept store').1 := by
  rcases h.lookup_cases "Quotation" quotationId with hsame | ⟨hother, hother'⟩
  · unfold quoteRequest
    simp only [h.found, h.found', hsame]
    split <;> rfl
  · rw [quoteRequest_other hparty h.found hother, quoteRequest_other hparty h.found' hother']

/-- One record leaves every row but the one it names. -/
theorem SyncLog.lookup_appendMutation_ne {log : SyncLog} {company : Uuid} {record : MutationRecord}
    {key : Uuid × String × String} (hkey : key ≠ (company, record.docType, record.documentId)) :
    AList.lookup key (log.appendMutations codec env company [record]).companyDocuments =
      AList.lookup key log.companyDocuments := by
  show AList.lookup key (SyncLog.appendMutation codec env company log record).companyDocuments = _
  rcases SyncLog.appendMutation_cases codec env company log record with ⟨version, -, hsame⟩ | ⟨-, happ⟩
  · rw [hsame]
  · rw [happ.documents, SyncLog.lookup_applyProjection, if_neg hkey]

/-- A decision leaves every row but the customer's quotation. -/
theorem quoteRequest_rows (hparty : link.party = some party)
    (hfound : AList.lookup (hashToken codec token) store.portalLinks = some link)
    (quotationId : String) (verb : QuoteVerb) (accept : Option String)
    {key : Uuid × String × String}
    (hother : ∀ doc, AList.lookup key store.inner.companyDocuments = some doc →
      ownRow link.companyId party key doc = false) :
    AList.lookup key (quoteRequest codec env token quotationId verb accept store).2.inner.companyDocuments
      = AList.lookup key store.inner.companyDocuments := by
  by_cases hkey : key = (link.companyId, "Quotation", quotationId)
  · -- the row of the quotation is not the customer's, so it answers as unknown
    subst hkey
    rw [quoteRequest_other hparty hfound fun doc hdoc hcustomer => ?_]
    have hown := hother doc hdoc
    simp [ownRow, hcustomer] at hown
  · unfold quoteRequest
    simp only [hfound]
    cases hrow : AList.lookup (link.companyId, "Quotation", quotationId) store.inner.companyDocuments with
    | none => rw [quoteAction_none]
    | some doc =>
      split
      · rfl
      · rfl
      · rename_i record audit date hpush
        obtain ⟨hdocType, hdocumentId⟩ := quoteAction_push hpush
        refine SyncLog.lookup_appendMutation_ne ?_
        rw [hdocType, hdocumentId]
        exact hkey

/-- Besides the log and its read model a decision writes the audit. -/
theorem quoteRequest_frame (quotationId : String) (verb : QuoteVerb) (accept : Option String) :
    let after := (quoteRequest codec env token quotationId verb accept store).2
    after.inner =
      { store.inner with toSyncLog := after.inner.toSyncLog, audit := after.inner.audit } := by
  intro after
  simp only [after, quoteRequest]
  cases hlink : AList.lookup (hashToken codec token) store.portalLinks with
  | none => rfl
  | some link =>
    simp only
    split <;> rfl

end Link

/-- A customer link sees the rows of its customer and no others: on two stores that agree on them, on the
link and on the company's name, its three routes answer alike; an id under which the customer has no
document answers as an unknown one; and a decision changes no row but one of the customer's. -/
theorem portal_link_scoped (codec : Codec) (env : Env) (token party : String) (link : PortalLink)
    (store store' : PortalStore) (hkind : link.kind = .customer) (hparty : link.party = some party)
    (h : SameToLink codec token link party store store') :
    (∀ accept, portalSummary codec env token accept store = portalSummary codec env token accept store') ∧
    (∀ doctype documentId accept, portalDocument codec env token doctype documentId accept store =
      portalDocument codec env token doctype documentId accept store') ∧
    (∀ quotationId verb accept, (quoteRequest codec env token quotationId verb accept store).1 =
      (quoteRequest codec env token quotationId verb accept store').1) ∧
    (∀ doctype id, (∀ doc, AList.lookup (link.companyId, doctype, id) store.inner.companyDocuments =
        some doc → doc.customer ≠ some party) →
      ∀ accept, portalDocument codec env token doctype id accept store = .error .notFound ∧
        (doctype = "Quotation" → ∀ verb,
          quoteRequest codec env token id verb accept store = (.error .notFound, store))) ∧
    ∀ quotationId verb accept,
      let after := (quoteRequest codec env token quotationId verb accept store).2
      (∀ key, (∀ doc, AList.lookup key store.inner.companyDocuments = some doc →
          ownRow link.companyId party key doc = false) →
        AList.lookup key after.inner.companyDocuments = AList.lookup key store.inner.companyDocuments) ∧
      after.inner =
        { store.inner with toSyncLog := after.inner.toSyncLog, audit := after.inner.audit } := by
  refine ⟨portalSummary_own hkind hparty h, portalDocument_own hparty h, quoteRequest_own hparty h,
    fun doctype id hother accept => ⟨portalDocument_other hparty h.found hother accept, ?_⟩,
    fun quotationId verb accept => ⟨fun key hother =>
      quoteRequest_rows hparty h.found quotationId verb accept hother,
      quoteRequest_frame quotationId verb accept⟩⟩
  rintro rfl verb
  exact quoteRequest_other hparty h.found hother verb accept

/-! ### Two customers -/

/-- A quotation of company 1 for a customer. -/
def quotationFor (customer id : String) : CompanyDocument :=
  { companyId := 1, doctype := "Quotation", documentId := id
    payload := .obj [("customer", .string customer), ("grand_total", .int 10)]
    children := none, docstatus := 0, updatedAt := 0 }

/-- The read model with one more row. -/
def SyncLog.withRow (log : SyncLog) (doc : CompanyDocument) : SyncLog :=
  let key := (doc.companyId, doc.doctype, doc.documentId)
  { log with companyDocuments := AList.insert key doc log.companyDocuments }

theorem SyncLog.RowsKeyed.withRow {log : SyncLog} (h : log.RowsKeyed) (doc : CompanyDocument) :
    (log.withRow doc).RowsKeyed := by
  intro key row hrow
  by_cases hkey : key = (doc.companyId, doc.doctype, doc.documentId)
  · subst hkey
    rw [SyncLog.withRow, AList.lookup_insert] at hrow
    obtain rfl := Option.some.inj hrow
    rfl
  · rw [SyncLog.withRow, AList.lookup_insert_ne hkey] at hrow
    exact h key row hrow

/-- The link of the first customer. -/
def firstLink : PortalLink :=
  { companyId := 1, kind := .customer, party := some "C-1", expiresAt := 10, revokedAt := none }

/-- A store with the first customer's quotation alone. -/
def oneCustomer : PortalStore where
  inner := { toSyncLog := SyncLog.withRow {} (quotationFor "C-1" "Q-1") }
  companyNames := AList.insert 1 "Trading" ∅
  portalLinks := AList.insert (hashToken serdeCodec "token") firstLink ∅
  keyed := SyncLog.rowsKeyed_empty.withRow _

/-- The same with a quotation of another customer. -/
def twoCustomers : PortalStore where
  inner := { toSyncLog := oneCustomer.inner.toSyncLog.withRow (quotationFor "C-2" "Q-2") }
  companyNames := oneCustomer.companyNames
  portalLinks := oneCustomer.portalLinks
  keyed := oneCustomer.keyed.withRow _

theorem portal_link_scoped_two :
    portalDocument serdeCodec ⟨0, "2026-01-05", 0⟩ "token" "Quotation" "Q-2" none oneCustomer =
      portalDocument serdeCodec ⟨0, "2026-01-05", 0⟩ "token" "Quotation" "Q-2" none twoCustomers := by
  have hsame : SameToLink serdeCodec "token" firstLink "C-1" oneCustomer twoCustomers := by
    refine ⟨AList.lookup_insert _, AList.lookup_insert _, rfl, TableSlice.agree_insert ?_ ?_⟩
    · decide +kernel
    · have hnone : AList.lookup (1, "Quotation", "Q-2") oneCustomer.inner.companyDocuments = none := by
        have hkey : ((1, "Quotation", "Q-2") : Uuid × String × String) ≠ (1, "Quotation", "Q-1") := by
          decide
        exact (AList.lookup_insert_ne hkey).trans (AList.lookup_empty _)
      intro doc hdoc
      exact absurd (hnone.symm.trans hdoc) (by simp)
  exact (portal_link_scoped serdeCodec _ "token" "C-1" firstLink oneCustomer twoCustomers rfl rfl hsame).2.1
    "Quotation" "Q-2" none

end AtlasTeam
