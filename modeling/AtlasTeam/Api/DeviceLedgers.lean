import AtlasTeam.Api.ReadModel

/-!
# The ledgers on the devices

A commit sends one record for each ledger row and each bin it writes. Devices read the ledgers from these
records, and the server itself keeps the rows they fold to. Such a record says all of its row
(`Prints.folded`), and no push names a doctype of the ledgers, so every copy is of a row that was posted
(`device_ledgers_posted`). Where the records of all commits reach the log, every row has its copy
(`device_ledgers_complete`).
-/

namespace AtlasTeam

namespace LedgerKind

/-- The doctype of a row on the wire. -/
def doctype : (kind : LedgerKind) → kind.Row → String
  | .gl, _ => "GL Entry"
  | .stock, _ => "Stock Ledger Entry"
  | .party, txn => PartyKind.doctype (PartyTransaction.kind txn)
  | .tax, _ => "Tax Transaction"
  | .settlement, _ => "Settlement"

/-- The fields of a row on the wire. -/
def fields : (kind : LedgerKind) → kind.Row → Map
  | .gl => GlEntry.rowFields
  | .stock => StockLedgerEntry.rowFields
  | .party => PartyTransaction.rowFields
  | .tax => TaxTransaction.rowFields
  | .settlement => Settlement.rowFields

theorem doctype_derived (kind : LedgerKind) (row : kind.Row) : kind.doctype row ∈ derivedDoctypes := by
  cases kind with
  | party =>
    show PartyKind.doctype (PartyTransaction.kind row) ∈ derivedDoctypes
    cases PartyTransaction.kind row <;> decide
  | _ => show _ ∈ derivedDoctypes; simp [doctype, derivedDoctypes]

theorem doctype_ne_bin (kind : LedgerKind) (row : kind.Row) : kind.doctype row ≠ "Bin" := by
  cases kind with
  | party =>
    show PartyKind.doctype (PartyTransaction.kind row) ≠ "Bin"
    cases PartyTransaction.kind row <;> decide
  | _ => simp [doctype]

/-- The rows that a commit sends. -/
def sent (src : ReplicationSources) : (kind : LedgerKind) → List kind.Row
  | .gl => src.glEntries
  | .stock => src.stockLedgerEntries
  | .party => src.partyTransactions
  | .tax => src.taxTransactions
  | .settlement => src.settlements

/-- A commit sends the rows it adds to the ledgers. -/
theorem held_sent {commit : PostingCommit} {inner inner' : Inner} (h : Inner.Applied commit inner inner')
    (kind : LedgerKind) (company : Uuid) :
    kind.held inner' company = kind.held inner company ++
      if company = commit.companyId then kind.sent (Inner.sources commit inner) else [] := by
  have hlog : ∀ {α : Type} (table : Table Uuid (List α)) (rows : List α),
      (table.extend commit.companyId rows).log company =
        table.log company ++ if company = commit.companyId then rows else [] := by
    intro α table rows
    split_ifs with hcompany
    · subst hcompany
      exact Table.log_extend_self _ _ _
    · rw [Table.log_extend_ne _ hcompany, List.append_nil]
  cases kind with
  | gl => exact (congrArg (fun t => Table.log t company) h.glEntries).trans (hlog ..)
  | stock => exact (congrArg (fun t => Table.log t company) h.stockLedger).trans (hlog ..)
  | party => exact (congrArg (fun t => Table.log t company) h.partyTransactions).trans (hlog ..)
  | tax => exact (congrArg (fun t => Table.log t company) h.taxTransactions).trans (hlog ..)
  | settlement => exact (congrArg (fun t => Table.log t company) h.settlements).trans (hlog ..)

end LedgerKind

/-- The document id of a bin on the wire. -/
def Bin.wireId (bin : Bin) : String := "BIN-" ++ bin.item ++ "-" ++ bin.warehouse

/-! ### The records of rows -/

section Records
variable {codec : Codec} {nowMs : DateTime} {src : ReplicationSources} {records : List MutationRecord}

/-- The record of a ledger row. -/
def rowRecord (codec : Codec) (nowMs : DateTime) (src : ReplicationSources) (kind : LedgerKind)
    (row : kind.Row) : Except String MutationRecord :=
  replicationRecord codec src nowMs ("postmut-" ++ kind.rowId row) .createDocument (kind.doctype row)
    (kind.rowId row) 0 (kind.fields row)

/-- The record of a bin. -/
def binRecord (codec : Codec) (nowMs : DateTime) (src : ReplicationSources) (bin : Bin) :
    Except String MutationRecord :=
  replicationRecord codec src nowMs ("postmut-" ++ src.document.id ++ "-bin-" ++ bin.item ++ "-" ++
    bin.warehouse ++ if src.isCancel then reversalSuffix else "") .updateDocument "Bin" bin.wireId 0
    bin.rowFields

/-- What a record of a commit is made from. -/
inductive SentFor (codec : Codec) (nowMs : DateTime) (src : ReplicationSources) (r : MutationRecord) :
    Prop where
  | document (h : documentRecord codec nowMs src = .ok r)
  | row (kind : LedgerKind) (row : kind.Row) (hrow : row ∈ kind.sent src)
      (h : rowRecord codec nowMs src kind row = .ok r)
  | bin (bin : Bin) (hbin : bin ∈ src.bins) (h : binRecord codec nowMs src bin = .ok r)
  | invoice (invoice : PostedDocument) (hinvoice : invoice ∈ src.outstandingDocuments)
      (h : invoiceRecord codec nowMs src invoice = .ok r)

theorem mem_of_forall₂ {α β : Type} {R : α → β → Prop} {xs : List α} {ys : List β}
    (h : List.Forall₂ R xs ys) : (∀ y ∈ ys, ∃ x ∈ xs, R x y) ∧ ∀ x ∈ xs, ∃ y ∈ ys, R x y := by
  induction h with
  | nil => exact ⟨fun _ hy => absurd hy List.not_mem_nil, fun _ hx => absurd hx List.not_mem_nil⟩
  | cons hxy _ ih =>
    refine ⟨List.forall_mem_cons.2 ⟨⟨_, List.mem_cons_self, hxy⟩, fun y hy => ?_⟩,
      List.forall_mem_cons.2 ⟨⟨_, List.mem_cons_self, hxy⟩, fun x hx => ?_⟩⟩
    · obtain ⟨x, hx, hR⟩ := ih.1 y hy
      exact ⟨x, List.mem_cons_of_mem _ hx, hR⟩
    · obtain ⟨y, hy, hR⟩ := ih.2 x hx
      exact ⟨y, List.mem_cons_of_mem _ hy, hR⟩

/-- Every record of a commit is made from something it writes. -/
theorem sentFor_of_mem (h : replicationMutations codec nowMs src = .ok records) :
    ∀ r ∈ records, SentFor codec nowMs src r := by
  simp only [replicationMutations, Except.bind_eq_ok, Except.pure_eq_ok, Except.mapM_eq_ok] at h
  obtain ⟨docRecord, hdoc, gl, hgl, sles, hsles, party, hparty, tax, htax, settlements, hsettlements,
    bins, hbins, outstanding, houtstanding, rfl⟩ := h
  have hrows : ∀ (kind : LedgerKind) {made : List MutationRecord},
      List.Forall₂ (fun row r => rowRecord codec nowMs src kind row = .ok r) (kind.sent src) made →
        ∀ r ∈ made, SentFor codec nowMs src r := by
    intro kind made hmade r hr
    obtain ⟨row, hrow, hrecord⟩ := (mem_of_forall₂ hmade).1 r hr
    exact .row kind row hrow hrecord
  simp only [List.cons_append, List.forall_mem_cons, List.forall_mem_append]
  refine ⟨.document hdoc, ⟨⟨⟨⟨⟨hrows .gl hgl, hrows .stock hsles⟩, hrows .party hparty⟩, hrows .tax htax⟩,
    hrows .settlement hsettlements⟩, fun r hr => ?_⟩, fun r hr => ?_⟩
  · obtain ⟨bin, hbin, hrecord⟩ := (mem_of_forall₂ hbins).1 r hr
    exact .bin bin hbin hrecord
  · obtain ⟨invoice, hinvoice, hrecord⟩ := (mem_of_forall₂ houtstanding).1 r hr
    exact .invoice invoice hinvoice hrecord

/-- Every row that a commit sends has its record. -/
theorem rowRecord_mem (h : replicationMutations codec nowMs src = .ok records) (kind : LedgerKind) :
    ∀ row ∈ kind.sent src, ∃ r ∈ records, rowRecord codec nowMs src kind row = .ok r := by
  simp only [replicationMutations, Except.bind_eq_ok, Except.pure_eq_ok, Except.mapM_eq_ok] at h
  obtain ⟨docRecord, hdoc, gl, hgl, sles, hsles, party, hparty, tax, htax, settlements, hsettlements,
    bins, hbins, outstanding, houtstanding, rfl⟩ := h
  intro row hrow
  have hmade : ∃ made, List.Forall₂ (fun row r => rowRecord codec nowMs src kind row = .ok r)
      (kind.sent src) made ∧
        made ⊆ docRecord :: gl ++ sles ++ party ++ tax ++ settlements ++ bins ++ outstanding := by
    cases kind with
    | gl => exact ⟨gl, hgl, fun r hr => by simp [hr]⟩
    | stock => exact ⟨sles, hsles, fun r hr => by simp [hr]⟩
    | party => exact ⟨party, hparty, fun r hr => by simp [hr]⟩
    | tax => exact ⟨tax, htax, fun r hr => by simp [hr]⟩
    | settlement => exact ⟨settlements, hsettlements, fun r hr => by simp [hr]⟩
  obtain ⟨made, hforall, hsubset⟩ := hmade
  obtain ⟨r, hr, hrecord⟩ := (mem_of_forall₂ hforall).2 row hrow
  exact ⟨r, hsubset hr, hrecord⟩

end Records

/-! ### Copies -/

/-- The row has what the JSON text of these fields reads as and no docstatus; where the text reads as
serde_json documents it, that is the fields themselves, each number read again. The `__children` of a client's
envelope are child tables. -/
structure CompanyDocument.Copies (codec : Codec) (doc : CompanyDocument) (fields : Map) : Prop where
  docstatus : doc.docstatus = 0
  payload : doc.payload = .object ((codec.throughText fields).remove "__children")
  reads : codec.Reads fields →
    doc.payload = .object ((fields.mapNumbers codec.reread).remove "__children")

/-- The record writes a row with these fields, whatever stood there. -/
structure MutationRecord.Prints (codec : Codec) (r : MutationRecord) (fields : Map) : Prop where
  writes : r.mutationType = .createDocument ∨ r.mutationType = .updateDocument
  envelope : ∃ nowMs, rowEnvelope codec r.documentId r.docType 0 fields nowMs = .ok r.payload

theorem prints_of_record {codec : Codec} {src : ReplicationSources} {nowMs : DateTime} {id : String}
    {mutationType : MutationType} {docType documentId : String} {fields : Map} {r : MutationRecord}
    (h : replicationRecord codec src nowMs id mutationType docType documentId 0 fields = .ok r)
    (hwrites : mutationType = .createDocument ∨ mutationType = .updateDocument) :
    r.docType = docType ∧ r.documentId = documentId ∧ r.Prints codec fields := by
  obtain ⟨payload, hpayload, -, hmutationType, hdocType, hdocumentId, rfl⟩ := replicationRecord_eq h
  refine ⟨hdocType, hdocumentId, hmutationType ▸ hwrites, nowMs, ?_⟩
  rw [hdocType, hdocumentId]
  exact hpayload

/-- What such a record folds to copies the fields. -/
theorem MutationRecord.Prints.folded {codec : Codec} {r : MutationRecord} {fields : Map}
    (h : r.Prints codec fields) (env : Env) (company : Uuid) (existing : Option CompanyDocument) :
    ∃ doc, SyncLog.foldedRow codec env company r existing = some doc ∧ doc.Copies codec fields := by
  obtain ⟨hwrites, nowMs, henvelope⟩ := h
  obtain ⟨hdocstatus, text, htext, hpayload⟩ := rowEnvelope_get henvelope
  have hfields := envelopeFields_text htext hpayload
  have hcopies : ∀ doc : CompanyDocument, doc.docstatus = 0 →
      doc.payload = .object ((codec.throughText fields).remove "__children") →
        doc.Copies codec fields := by
    intro doc hstatus hpayload
    exact ⟨hstatus, hpayload, fun hreads => by rw [hpayload, hreads.throughText]⟩
  unfold SyncLog.foldedRow foldMutation
  rcases hwrites with hwrites | hwrites <;>
    simp only [hfields, hwrites, hdocstatus, Option.bind_some] <;>
    exact ⟨_, rfl, hcopies _ rfl rfl⟩

/-! ### The log and its rows -/

/-- In the company's log every record of a ledger doctype prints a published row, and every row of such a
doctype copies one. -/
structure SyncLog.Faithful (codec : Codec) (published : String → String → Map → Prop) (log : SyncLog)
    (company : Uuid) : Prop where
  records : ∀ r ∈ log.records company, r.docType ∈ derivedDoctypes →
    ∃ fields, published r.docType r.documentId fields ∧ r.Prints codec fields
  rows : ∀ doctype id doc, doctype ∈ derivedDoctypes →
    AList.lookup (company, doctype, id) log.companyDocuments = some doc →
      ∃ fields, published doctype id fields ∧ doc.Copies codec fields

namespace SyncLog.Faithful
variable {codec : Codec} {published published' : String → String → Map → Prop} {log : SyncLog}
  {company company' : Uuid} {env : Env}

theorem mono (h : log.Faithful codec published company)
    (hpublished : ∀ doctype id fields, published doctype id fields → published' doctype id fields) :
    log.Faithful codec published' company := by
  refine ⟨fun r hr hderived => ?_, fun doctype id doc hderived hlookup => ?_⟩
  · obtain ⟨fields, hfields, hprints⟩ := h.records r hr hderived
    exact ⟨fields, hpublished _ _ _ hfields, hprints⟩
  · obtain ⟨fields, hfields, hcopies⟩ := h.rows doctype id doc hderived hlookup
    exact ⟨fields, hpublished _ _ _ hfields, hcopies⟩

theorem appendMutation (h : log.Faithful codec published company) {record : MutationRecord}
    (hrecord : company = company' → record.docType ∈ derivedDoctypes → ∃ fields,
      published record.docType record.documentId fields ∧ record.Prints codec fields) :
    (SyncLog.appendMutation codec env company' log record).Faithful codec published company := by
  rcases SyncLog.appendMutation_cases codec env company' log record with ⟨version, -, hsame⟩ | ⟨-, happ⟩
  · rw [hsame]
    exact h
  refine ⟨fun r hr hderived => ?_, fun doctype id doc hderived hlookup => ?_⟩
  · rw [SyncLog.records, happ.mutations] at hr
    by_cases hcompany : company = company'
    · rw [← hcompany, Table.log_extend_self, List.map_append] at hr
      rcases List.mem_append.1 hr with hold | hnew
      · exact h.records r hold hderived
      · obtain rfl : r = record := List.mem_singleton.1 hnew
        obtain ⟨fields, hfields, hprints⟩ := hrecord hcompany hderived
        exact ⟨fields, hfields, hprints⟩
    · rw [Table.log_extend_ne _ hcompany] at hr
      exact h.records r hr hderived
  · rw [happ.documents, SyncLog.lookup_applyProjection] at hlookup
    split_ifs at hlookup with hkey
    · obtain ⟨rfl, rfl, rfl⟩ : company = company' ∧ doctype = record.docType ∧ id = record.documentId := by
        simpa using hkey
      obtain ⟨fields, hfields, hprints⟩ := hrecord rfl hderived
      obtain ⟨doc', hdoc', hcopies⟩ := hprints.folded env company _
      obtain rfl := Option.some.inj (hdoc'.symm.trans hlookup)
      exact ⟨fields, hfields, hcopies⟩
    · exact h.rows doctype id doc hderived hlookup

theorem appendMutations (h : log.Faithful codec published company) {records : List MutationRecord}
    (hrecords : ∀ r ∈ records, company = company' → r.docType ∈ derivedDoctypes → ∃ fields,
      published r.docType r.documentId fields ∧ r.Prints codec fields) :
    (log.appendMutations codec env company' records).Faithful codec published company := by
  induction records generalizing log with
  | nil => exact h
  | cons record records ih =>
    obtain ⟨hrecord, hrest⟩ := List.forall_mem_cons.1 hrecords
    exact ih (h.appendMutation hrecord) hrest

end SyncLog.Faithful

/-! ### Commits and pushes -/

/-- What the server publishes of a company: the rows of its ledgers, and the bins as its commits wrote
them. -/
inductive Book.Publishes (book : Book Inner) (company : Uuid) : String → String → Map → Prop where
  | row (kind : LedgerKind) (row : kind.Row) (h : row ∈ kind.held book.store company) :
    Publishes book company (kind.doctype row) (kind.rowId row) (kind.fields row)
  | bin (entry : Entry Inner) (hentry : entry ∈ book.journal) (hcompany : entry.companyId = company)
    (bin : Bin) (hbin : bin ∈ entry.commit.bins) : Publishes book company "Bin" bin.wireId bin.rowFields

section Runs
variable {codec : Codec}

/-- What a push appends has passed the authority rules. -/
theorem Plane.pushed_accepted {plane : Plane} (h : ∀ push ∈ plane.pushes, push.Guarded fun _ => True)
    {event : PlaneEvent} {company : Uuid} {records : List MutationRecord} {env : Env}
    (hevents : plane.systemEvents event = [.operate (.pushMutations company records) env]) :
    ∀ r ∈ records, Accepted r := by
  cases event with
  | advance position env' =>
    simp only [Plane.systemEvents] at hevents
    split at hevents
    · rename_i auth companyId batch mutations hpush
      obtain ⟨⟨rfl, rfl⟩, -⟩ : (_ ∧ _) ∧ _ := by simpa using hevents
      intro r hr
      exact ((h _ (List.mem_of_getElem? hpush)).2 r hr).1
    · cases hevents
  | operate op env' =>
    simp only [Plane.systemEvents] at hevents
    split at hevents
    · cases hevents
    · rename_i hno
      obtain ⟨rfl, -⟩ : _ ∧ _ := by simpa using hevents
      exact absurd rfl (hno company records)
  | push auth companyId mutations => cases hevents
  | setRole user companyId role => cases hevents
  | call companyId actor command => cases hevents
  | advanceCall position env' => cases hevents

/-- A record of a ledger doctype among those of a commit is that of a row or a bin it writes. -/
theorem Inner.Effects.derived_record {env : Env} {commit : PostingCommit} {inner inner' : Inner}
    (heffects : Inner.Effects codec env commit inner inner') (hofficial : inner'.Official)
    (hupdates : (commit.outstandingUpdates.map updateKey).Nodup)
    (hcompany : commit.document.companyId = commit.companyId)
    (hkeyed : ∀ key doc, AList.lookup key inner.documents = some doc →
      key = (doc.companyId, doc.doctype, doc.id)) {r : MutationRecord}
    (hsent : SentFor codec env.now (Inner.sources commit inner) r) (hderived : r.docType ∈ derivedDoctypes) :
    (∃ kind row, row ∈ LedgerKind.sent (Inner.sources commit inner) kind ∧
      rowRecord codec env.now (Inner.sources commit inner) kind row = .ok r) ∨
    ∃ bin ∈ commit.bins, binRecord codec env.now (Inner.sources commit inner) bin = .ok r := by
  have hdocuments := Inner.sentDocuments_official hupdates hcompany hkeyed heffects hofficial
  cases hsent with
  | document h =>
    rw [replicationRecord_docType h] at hderived
    exact absurd hderived (hdocuments _ List.mem_cons_self).1
  | row kind row hrow h => exact .inl ⟨kind, row, hrow, h⟩
  | bin bin hbin h => exact .inr ⟨bin, hbin, h⟩
  | invoice invoice hinvoice h =>
    rw [replicationRecord_docType h] at hderived
    exact absurd hderived (hdocuments _ (List.mem_cons_of_mem _ hinvoice)).1

/-- What is published stays published, with what a commit writes. -/
theorem Book.Publishes.applied {env : Env} {draft : Draft Inner} {book : Book Inner} {inner' : Inner}
    (heffects : Inner.Effects codec env draft.commit book.store inner') {company : Uuid}
    {doctype id : String} {fields : Map} (h : book.Publishes company doctype id fields) :
    ({ store := inner', journal := book.journal ++ [appliedEntry draft book.store] } : Book Inner).Publishes
      company doctype id fields := by
  cases h with
  | row kind row h =>
    refine .row kind row ?_
    rw [LedgerKind.held_sent heffects.applied]
    exact List.mem_append_left _ h
  | bin entry hentry hcompany bin hbin =>
    exact .bin entry (List.mem_append_left _ hentry) hcompany bin hbin

/-- A record of a ledger doctype that a commit sends prints a row or a bin it writes, and these are published
from then on. -/
theorem Inner.Effects.printed {env : Env} {draft : Draft Inner} {book : Book Inner} {inner' : Inner}
    (heffects : Inner.Effects codec env draft.commit book.store inner') (hofficial : inner'.Official)
    (hupdates : (draft.commit.outstandingUpdates.map updateKey).Nodup)
    (hcompany : draft.commit.document.companyId = draft.commit.companyId)
    (hkeyed : ∀ key doc, AList.lookup key book.store.documents = some doc →
      key = (doc.companyId, doc.doctype, doc.id))
    (hentry : draft.companyId = draft.commit.companyId) {r : MutationRecord}
    (hsent : SentFor codec env.now (Inner.sources draft.commit book.store) r)
    (hderived : r.docType ∈ derivedDoctypes) :
    ∃ fields, r.Prints codec fields ∧
      ({ store := inner', journal := book.journal ++ [appliedEntry draft book.store] } : Book Inner).Publishes
        draft.commit.companyId r.docType r.documentId fields := by
  rcases heffects.derived_record hofficial hupdates hcompany hkeyed hsent hderived with
    ⟨kind, row, hrow, hrecord⟩ | ⟨bin, hbin, hrecord⟩
  · obtain ⟨hdocType, hdocumentId, hprints⟩ := prints_of_record hrecord (.inl rfl)
    refine ⟨kind.fields row, hprints, ?_⟩
    rw [hdocType, hdocumentId]
    refine .row kind row ?_
    rw [LedgerKind.held_sent heffects.applied, if_pos rfl]
    exact List.mem_append_right _ hrow
  · obtain ⟨hdocType, hdocumentId, hprints⟩ := prints_of_record hrecord (.inr rfl)
    refine ⟨bin.rowFields, hprints, ?_⟩
    rw [hdocType, hdocumentId]
    exact .bin (appliedEntry draft book.store) (List.mem_append_right _ (List.mem_singleton_self _)) hentry
      bin hbin

/-- An operation of the store leaves what is published. -/
theorem Book.Publishes.operate (codec : Codec) (env : Env) (op : MemOp) {book : Book Inner} {company : Uuid}
    {doctype id : String} {fields : Map} (h : book.Publishes company doctype id fields) :
    ({ book with store := (memBackend codec).operate env op book.store } : Book Inner).Publishes company
      doctype id fields := by
  cases h with
  | row kind row h =>
    refine .row kind row ?_
    rw [LedgerKind.held_operate]
    exact h
  | bin entry hentry hcompany bin hbin =>
    refine .bin entry ?_ hcompany bin hbin
    exact hentry

/-- At the end of a run of the plane the log of every company and its rows are faithful to what is
published. -/
theorem planeRun_faithful (codec : Codec) (events : List PlaneEvent) (company : Uuid) :
    (planeRun codec events).system.book.store.toSyncLog.Faithful codec
      ((planeRun codec events).system.book.Publishes company) company := by
  induction events using List.reverseRecOn with
  | nil => exact ⟨fun r hr => absurd hr List.not_mem_nil, fun _ _ doc _ hlookup => by cases hlookup⟩
  | append_singleton events event ih =>
    have hofficial := planeRun_official codec (events ++ [event])
    have hguarded := @planeRun_guarded _ pinStable_true codec events fun _ _ _ _ _ _ => trivial
    obtain ⟨hkept, -, hcases⟩ := @planeRun_step codec _ extends_rule kept_fresh events event
    rcases hcases with hsame | ⟨book₀, draft, env, inner', hkept₀, -, hbuilt, heffects, hbook⟩ |
      ⟨op, env, hevents, hbook⟩
    · rw [hsame]
      exact ih
    · rw [hbook] at hofficial ⊢
      obtain ⟨records, hrecords, hlog⟩ := heffects.syncLog
      show inner'.toSyncLog.Faithful codec _ company
      rw [hlog]
      refine (ih.mono fun _ _ _ h => h.applied heffects).appendMutations ?_
      rintro r hr rfl hderived
      obtain ⟨fields, hprints, hpublished⟩ := heffects.printed hofficial
        (Command.build_updates hbuilt.build) (draft_companyId hkept₀ hbuilt) hkept.keyed
        (Command.build_new_or_cancel hbuilt.build).1.symm (sentFor_of_mem hrecords r hr) hderived
      exact ⟨fields, hpublished, hprints⟩
    · rw [hbook]
      show ((memBackend codec).operate env op (planeRun codec events).system.book.store).toSyncLog.Faithful
        codec _ company
      have ih := ih.mono fun _ _ _ h => Book.Publishes.operate codec env op h
      rw [operate_syncLog]
      cases op with
      | pushMutations company' records =>
        refine ih.appendMutations fun r hr _ hderived => ?_
        exact absurd hderived (Plane.pushed_accepted hguarded hevents r hr).notDerived
      | _ => exact ih

/-- In every run of pushes, submits, cancels and take-ons in any interleaving: every record of a ledger
doctype in a company's log prints a row that the server's ledgers hold or a bin that a commit wrote, and
every row of such a doctype in the read model copies one. Nothing else gets into the ledgers on the
devices. -/
theorem device_ledgers_posted (codec : Codec) (events : List PlaneEvent) (company : Uuid) :
    let book := (planeRun codec events).system.book
    (∀ r ∈ book.store.toSyncLog.records company, r.docType ∈ derivedDoctypes →
      ∃ fields, book.Publishes company r.docType r.documentId fields ∧ r.Prints codec fields) ∧
    ∀ doctype id doc, doctype ∈ derivedDoctypes →
      AList.lookup (company, doctype, id) book.store.companyDocuments = some doc →
        ∃ fields, book.Publishes company doctype id fields ∧ doc.Copies codec fields := by
  have hfaithful := planeRun_faithful codec events company
  exact ⟨hfaithful.records, hfaithful.rows⟩

/-! ### Every row has its copy -/

/-- The log has the record of the row, and the read model its copy. -/
structure SyncLog.Copied (codec : Codec) (log : SyncLog) (company : Uuid) (kind : LedgerKind)
    (row : kind.Row) : Prop where
  known : (AList.lookup (company, "postmut-" ++ kind.rowId row) log.mutationVersions).isSome
  record : ∃ r ∈ log.records company, r.id = "postmut-" ++ kind.rowId row ∧
    r.docType = kind.doctype row ∧ r.documentId = kind.rowId row ∧ r.Prints codec (kind.fields row)
  copy : ∃ doc, AList.lookup (company, kind.doctype row, kind.rowId row) log.companyDocuments = some doc ∧
    doc.Copies codec (kind.fields row)

/-- A row keeps its copy: another record for it has the id of its own record. -/
theorem SyncLog.Copied.appendMutations {log : SyncLog} {company company' : Uuid} {kind : LedgerKind}
    {row : kind.Row} (h : log.Copied codec company kind row) {env : Env} {records : List MutationRecord}
    (hrecords : ∀ r ∈ records, company = company' → r.docType = kind.doctype row →
      r.documentId = kind.rowId row → r.id = "postmut-" ++ kind.rowId row) :
    (log.appendMutations codec env company' records).Copied codec company kind row := by
  obtain ⟨doc, hdoc, hcopies⟩ := h.copy
  obtain ⟨own, hown, hprints⟩ := h.record
  have hlonger : log.records company <+: (log.appendMutations codec env company' records).records company :=
    (SyncLog.appendMutations_prefix codec env company' records log company).map _
  refine ⟨(SyncLog.appendMutations_knows ..).2 (.inl h.known), ⟨own, hlonger.subset hown, hprints⟩,
    doc, ?_, hcopies⟩
  rw [SyncLog.row_untouched, hdoc]
  rintro early r late rfl htakes - hkey
  obtain ⟨rfl, hdocType, hdocumentId⟩ : company = company' ∧ kind.doctype row = r.docType ∧
      kind.rowId row = r.documentId := by
    simpa [MutationRecord.rowKey] using hkey
  have hid := hrecords r (by simp) rfl hdocType.symm hdocumentId.symm
  have hnew := htakes.1
  rw [hid] at hnew
  have hknown := h.known
  rw [hnew] at hknown
  cases hknown

/-- The log takes all records of a commit on `inner`: their ids are new to it and distinct. -/
structure Inner.RecordsReach (commit : PostingCommit) (inner : Inner) : Prop where
  apart : ((recordNames commit inner).map RecordName.spell).Nodup
  unknown : ∀ name ∈ recordNames commit inner,
    AList.lookup (commit.companyId, name.spell) inner.mutationVersions = none

instance (commit : PostingCommit) (inner : Inner) : Decidable (Inner.RecordsReach commit inner) :=
  decidable_of_iff (_ ∧ _) ⟨fun ⟨apart, unknown⟩ => ⟨apart, unknown⟩, fun h => ⟨h.apart, h.unknown⟩⟩

/-- The log takes every record where all of a commit reach it. -/
theorem Inner.RecordsReach.takes {commit : PostingCommit} {inner : Inner}
    (h : Inner.RecordsReach commit inner) {nowMs : DateTime} {early late : List MutationRecord}
    {r : MutationRecord}
    (hrecords : replicationMutations codec nowMs (Inner.sources commit inner) = .ok (early ++ r :: late)) :
    inner.toSyncLog.Takes commit.companyId early r ∧ ∀ r' ∈ late, r'.id ≠ r.id := by
  have hids : (early ++ r :: late).map MutationRecord.id =
      (Inner.recordNames commit inner).map RecordName.spell := replicationMutations_ids hrecords
  have hnodup := h.apart
  rw [← hids, List.map_append, List.map_cons, List.nodup_append] at hnodup
  obtain ⟨-, hlate, hdisjoint⟩ := hnodup
  refine ⟨⟨?_, fun hearly => hdisjoint r.id hearly r.id List.mem_cons_self rfl⟩, fun r' hr' heq => ?_⟩
  · have hmem : r.id ∈ (Inner.recordNames commit inner).map RecordName.spell := by
      rw [← hids]
      simp
    obtain ⟨name, hname, hspell⟩ := List.mem_map.1 hmem
    rw [← hspell]
    exact h.unknown name hname
  · exact (List.nodup_cons.1 hlate).1 (heq ▸ List.mem_map_of_mem hr')

/-- A record of the doctype of a ledger row has the id of the row it names. -/
theorem Inner.Effects.row_record {env : Env} {commit : PostingCommit} {inner inner' : Inner}
    (heffects : Inner.Effects codec env commit inner inner') (hofficial : inner'.Official)
    (hupdates : (commit.outstandingUpdates.map updateKey).Nodup)
    (hcompany : commit.document.companyId = commit.companyId)
    (hkeyed : ∀ key doc, AList.lookup key inner.documents = some doc →
      key = (doc.companyId, doc.doctype, doc.id)) {r : MutationRecord}
    (hsent : SentFor codec env.now (Inner.sources commit inner) r) {kind : LedgerKind} {row : kind.Row}
    (hdocType : r.docType = kind.doctype row) : r.id = "postmut-" ++ r.documentId := by
  rcases heffects.derived_record hofficial hupdates hcompany hkeyed hsent
      (hdocType ▸ kind.doctype_derived row) with ⟨kind', row', -, hrecord⟩ | ⟨bin, -, hrecord⟩
  · obtain ⟨payload, -, hid, -, -, hdocumentId, -⟩ := replicationRecord_eq hrecord
    rw [hid, hdocumentId]
  · exact absurd ((hdocType.symm.trans (replicationRecord_docType hrecord))) (kind.doctype_ne_bin row)

/-- The copy of a row that a commit sends, when the log takes all its records. -/
theorem Inner.RecordsReach.copied {commit : PostingCommit} {inner : Inner}
    (h : Inner.RecordsReach commit inner) {env : Env} {records : List MutationRecord}
    (hrecords : replicationMutations codec env.now (Inner.sources commit inner) = .ok records)
    {kind : LedgerKind} {row : kind.Row} (hrow : row ∈ kind.sent (Inner.sources commit inner))
    (hids : ∀ r ∈ records, r.docType = kind.doctype row → r.id = "postmut-" ++ r.documentId) :
    (inner.toSyncLog.appendMutations codec env commit.companyId records).Copied codec commit.companyId kind
      row := by
  obtain ⟨r, hr, hrecord⟩ := rowRecord_mem hrecords kind row hrow
  have hid := replicationRecord_id hrecord
  obtain ⟨hdocType, hdocumentId, hprints⟩ := prints_of_record hrecord (.inl rfl)
  obtain ⟨early, late, rfl⟩ := List.append_of_mem hr
  obtain ⟨htakes, hlate⟩ := h.takes hrecords
  refine ⟨(SyncLog.appendMutations_knows ..).2 (.inr ⟨rfl, hid ▸ List.mem_map_of_mem hr⟩),
    ⟨r, htakes.mem_records, hid, hdocType, hdocumentId, hprints⟩, ?_⟩
  obtain ⟨doc, hdoc, hcopies⟩ := hprints.folded env commit.companyId
    (AList.lookup (r.rowKey commit.companyId)
      (inner.toSyncLog.appendMutations codec env commit.companyId early).companyDocuments)
  refine ⟨doc, ?_, hcopies⟩
  have hkey : (commit.companyId, kind.doctype row, kind.rowId row) = r.rowKey commit.companyId := by
    rw [MutationRecord.rowKey, hdocType, hdocumentId]
  rw [hkey, SyncLog.row_last htakes, hdoc]
  -- a later record for the row would have the id of this one
  intro r' hr' hsame
  obtain ⟨hdocType', hdocumentId'⟩ : r.docType = r'.docType ∧ r.documentId = r'.documentId := by
    simpa [MutationRecord.rowKey] using hsame
  refine hlate r' hr' ?_
  rw [hids r' (by simp [hr']) (hdocType'.symm.trans hdocType), hid, ← hdocumentId', hdocumentId]

/-- In every run in which the log takes all records of all commits, every row of the server's ledgers has its
copy in the read model. -/
theorem device_ledgers_complete (codec : Codec) (events : List PlaneEvent)
    (hreach : ∀ entry ∈ (planeRun codec events).system.book.journal,
      Inner.RecordsReach entry.commit entry.before) (company : Uuid) (kind : LedgerKind) :
    ∀ row ∈ kind.held (planeRun codec events).system.book.store company,
      (planeRun codec events).system.book.store.toSyncLog.Copied codec company kind row := by
  induction events using List.reverseRecOn with
  | nil =>
    intro row hrow
    cases kind <;> exact absurd hrow List.not_mem_nil
  | append_singleton events event ih =>
    have hearlier := (planeRun_journal codec (List.prefix_append events [event])).subset
    have ih := ih fun entry hentry => hreach entry (hearlier hentry)
    have hofficial := planeRun_official codec (events ++ [event])
    have hguarded := @planeRun_guarded _ pinStable_true codec events fun _ _ _ _ _ _ => trivial
    obtain ⟨hkept, -, hcases⟩ := @planeRun_step codec _ extends_rule kept_fresh events event
    rcases hcases with hsame | ⟨book₀, draft, env, inner', hkept₀, -, hbuilt, heffects, hbook⟩ |
      ⟨op, env, hevents, hbook⟩
    · rw [hsame]
      exact ih
    · have hlast : appliedEntry draft (planeRun codec events).system.book.store ∈
          (planeRun codec (events ++ [event])).system.book.journal := by
        rw [hbook]
        exact List.mem_append_right _ (List.mem_singleton_self _)
      have hreach := hreach _ hlast
      rw [hbook] at hofficial ⊢
      obtain ⟨records, hrecords, hlog⟩ := heffects.syncLog
      have hids : ∀ r ∈ records, ∀ row : kind.Row, r.docType = kind.doctype row →
          r.id = "postmut-" ++ r.documentId := fun r hr row hdocType =>
        heffects.row_record hofficial (Command.build_updates hbuilt.build)
          (draft_companyId hkept₀ hbuilt) hkept.keyed (sentFor_of_mem hrecords r hr) hdocType
      intro row hrow
      show inner'.toSyncLog.Copied codec company kind row
      rw [LedgerKind.held_sent heffects.applied] at hrow
      rw [hlog]
      rcases List.mem_append.1 hrow with hold | hnew
      · refine (ih row hold).appendMutations fun r hr _ hdocType hdocumentId => ?_
        rw [hids r hr row hdocType, hdocumentId]
      · split_ifs at hnew with hcompany
        · subst hcompany
          exact hreach.copied hrecords hnew fun r hr => hids r hr row
        · exact absurd hnew List.not_mem_nil
    · rw [hbook]
      intro row hrow
      rw [LedgerKind.held_operate] at hrow
      have ih := ih row hrow
      show ((memBackend codec).operate env op (planeRun codec events).system.book.store).toSyncLog.Copied
        codec company kind row
      rw [operate_syncLog]
      cases op with
      | pushMutations company' records =>
        refine ih.appendMutations fun r hr _ hdocType _ => ?_
        have hderived := kind.doctype_derived row
        rw [← hdocType] at hderived
        exact absurd hderived (Plane.pushed_accepted hguarded hevents r hr).notDerived
      | _ => exact ih

theorem device_ledgers_complete_rent :
    let store := (planeRun serdeCodec (draftAndSubmit 6)).system.book.store
    (LedgerKind.gl.held store 1).length = 3 ∧
      ∀ row ∈ LedgerKind.gl.held store 1, store.toSyncLog.Copied serdeCodec 1 .gl row :=
  ⟨by decide +kernel,
    device_ledgers_complete serdeCodec (draftAndSubmit 6) (by decide +kernel) 1 .gl⟩

end Runs

end AtlasTeam
