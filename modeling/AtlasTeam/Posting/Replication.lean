import AtlasTeam.Store.View

/-!
# Replication of posting results (`posting/replication.rs`)

One posting commit rendered as the mutation records appended to the company log: the document, one
record per ledger row, one per touched bin and one per invoice whose outstanding was maintained.
-/

namespace AtlasTeam

/-- `SYSTEM_DEVICE_ID`. -/
def systemDeviceId : String := "atlas-backend"

/-- `ReplicationSources`: the final state one commit produced. -/
structure ReplicationSources where
  document : PostedDocument
  isCancel : Bool
  glEntries : List GlEntry
  stockLedgerEntries : List StockLedgerEntry
  partyTransactions : List PartyTransaction
  taxTransactions : List TaxTransaction
  settlements : List Settlement
  bins : List Bin
  outstandingDocuments : List PostedDocument
  userId : Option Uuid
  deviceId : String

/-- `header_fields`: the payload without its child tables. -/
def headerFields (payload : Value) : Map :=
  ["items", "taxes", "references", "tenders", "accounts"].foldl Map.remove
    (payload.asObject.getD [])

/-- `row_envelope`: the client's row envelope; the inner payload is a JSON text. -/
def rowEnvelope (codec : Codec) (id doctype : String) (docstatus : Int) (fields : Map)
    (nowMs : DateTime) : Except String Map := do
  let text ← codec.toText fields
  return SortedMap.Raw.ofList
    [("id", .string id), ("doctype", .string doctype), ("company", .null),
      ("docstatus", .int docstatus), ("payload", .string text), ("created_at", .int nowMs),
      ("modified_at", .int nowMs), ("sync_version", .null), ("sync_state", .string "synced"),
      ("amended_from", .null)]

/-- The fields of a GL row on the wire. -/
def GlEntry.rowFields (entry : GlEntry) : Map :=
  let fields : Map := []
  let fields := fields.insert "posting_date" (.string entry.postingDate)
  let fields := fields.insert "account" (.string entry.account)
  let fields := fields.insert "debit" (.num entry.debit)
  let fields := fields.insert "credit" (.num entry.credit)
  let fields := fields.insertSome "party_type" (entry.partyType.map .string)
  let fields := fields.insertSome "party" (entry.party.map .string)
  let fields := fields.insertSome "cost_center" (entry.costCenter.map .string)
  let fields := fields.insert "voucher_type" (.string entry.voucherType)
  let fields := fields.insert "voucher_no" (.string entry.voucherNo)
  let fields := fields.insertSome "currency" (entry.currency.map .string)
  let fields := fields.insertSome "conversion_rate" (entry.conversionRate.map .num)
  let fields := fields.insertSome "base_debit" (entry.baseDebit.map .num)
  let fields := fields.insertSome "base_credit" (entry.baseCredit.map .num)
  fields.insert "is_reversal" (.bool entry.isReversal)

/-- The fields of a stock ledger row on the wire. -/
def StockLedgerEntry.rowFields (sle : StockLedgerEntry) : Map :=
  let fields : Map := []
  let fields := fields.insert "trans_type" (.string sle.transType.asStr)
  let fields := fields.insert "item" (.string sle.item)
  let fields := fields.insert "warehouse" (.string sle.warehouse)
  let fields := fields.insert "qty_change" (.num sle.qtyChange)
  let fields := fields.insert "valuation_rate" (.num sle.valuationRate)
  let fields := fields.insert "posting_date" (.string sle.postingDate)
  let fields := fields.insert "voucher_type" (.string sle.voucherType)
  let fields := fields.insert "voucher_no" (.string sle.voucherNo)
  let fields := fields.insertSome "uom" (sle.uom.map .string)
  fields.insert "is_reversal" (.bool sle.isReversal)

/-- The fields of a settlement row on the wire. -/
def Settlement.rowFields (s : Settlement) : Map :=
  let fields : Map := []
  let fields := fields.insert "payment_voucher_type" (.string s.paymentVoucherType)
  let fields := fields.insert "payment_voucher_no" (.string s.paymentVoucherNo)
  let fields := fields.insert "invoice_voucher_type" (.string s.invoiceVoucherType)
  let fields := fields.insert "invoice_voucher_no" (.string s.invoiceVoucherNo)
  let fields := fields.insert "party_type" (.string s.partyType)
  let fields := fields.insert "party" (.ofOption s.party)
  let fields := fields.insert "allocated_amount" (.num s.allocatedAmount)
  let fields := fields.insert "posting_date" (.string s.postingDate)
  fields.insert "is_reversal" (.bool s.isReversal)

/-- The fields of a bin row on the wire. -/
def Bin.rowFields (bin : Bin) : Map :=
  let fields : Map := []
  let fields := fields.insert "item" (.string bin.item)
  let fields := fields.insert "warehouse" (.string bin.warehouse)
  let fields := fields.insert "actual_qty" (.num bin.actualQty)
  let fields := fields.insert "stock_value" (.num bin.stockValue)
  fields.insert "valuation_rate" (.num bin.valuationRate)

/-- The header fields of a document with its official number. -/
def PostedDocument.headerWithNumber (doc : PostedDocument) : Map :=
  (headerFields doc.payload).insertSome "official_number" (doc.officialNumber.map .string)

/-- One system-authored record: `row` names the row (its document id, doctype and docstatus). -/
def replicationRecord (codec : Codec) (src : ReplicationSources) (nowMs : DateTime) (id : String)
    (mutationType : MutationType) (docType documentId : String) (docstatus : Int) (fields : Map) :
    Except String MutationRecord := do
  let payload ← rowEnvelope codec documentId docType docstatus fields nowMs
  return { id, mutationType, docType, documentId, payload
           deviceId := src.deviceId
           userId := (src.userId.map Uuid.render).getD ""
           localTimestamp := nowMs
           syncVersion := none
           status := .pushed }

/-- `replication_mutations`. -/
def replicationMutations (codec : Codec) (nowMs : DateTime) (src : ReplicationSources) :
    Except String (List MutationRecord) := do
  let record := replicationRecord codec src nowMs
  let sfx := if src.isCancel then reversalSuffix else ""
  let doc := src.document
  let docRecord ← record ("postmut-" ++ doc.id ++ "-doc" ++ sfx)
    (if src.isCancel then .cancelDocument else .submitDocument) doc.doctype doc.id doc.docstatus
    doc.headerWithNumber
  let gl ← src.glEntries.mapM fun entry =>
    record ("postmut-" ++ entry.id) .createDocument "GL Entry" entry.id 0 entry.rowFields
  let sles ← src.stockLedgerEntries.mapM fun sle =>
    record ("postmut-" ++ sle.id) .createDocument "Stock Ledger Entry" sle.id 0 sle.rowFields
  let party ← src.partyTransactions.mapM fun txn =>
    record ("postmut-" ++ txn.id) .createDocument txn.kind.doctype txn.id 0 txn.rowFields
  let tax ← src.taxTransactions.mapM fun txn =>
    record ("postmut-" ++ txn.id) .createDocument "Tax Transaction" txn.id 0 txn.rowFields
  let settlements ← src.settlements.mapM fun s =>
    record ("postmut-" ++ s.id) .createDocument "Settlement" s.id 0 s.rowFields
  let bins ← src.bins.mapM fun bin =>
    record ("postmut-" ++ doc.id ++ "-bin-" ++ bin.item ++ "-" ++ bin.warehouse ++ sfx)
      .updateDocument "Bin" ("BIN-" ++ bin.item ++ "-" ++ bin.warehouse) 0 bin.rowFields
  let outstanding ← src.outstandingDocuments.mapM fun invoice =>
    record ("postmut-" ++ doc.id ++ "-outstanding-" ++ invoice.id ++ sfx) .updateDocument
      invoice.doctype invoice.id invoice.docstatus invoice.headerWithNumber
  return docRecord :: gl ++ sles ++ party ++ tax ++ settlements ++ bins ++ outstanding

theorem replicationRecord_ok (codec : Codec) (src : ReplicationSources) (nowMs : DateTime)
    (id : String) (mutationType : MutationType) (docType documentId : String) (docstatus : Int)
    (fields : Map) :
    ∃ r, replicationRecord codec src nowMs id mutationType docType documentId docstatus fields =
      .ok r := by
  obtain ⟨text, htext⟩ := codec.toText_ok fields
  simp only [replicationRecord, rowEnvelope, htext]
  exact ⟨_, rfl⟩

theorem mapM_ok {α β ε : Type} (f : α → Except ε β) (h : ∀ a, ∃ b, f a = .ok b) (xs : List α) :
    ∃ ys, xs.mapM f = .ok ys := by
  induction xs with
  | nil => exact ⟨[], rfl⟩
  | cons x xs ih =>
    obtain ⟨b, hb⟩ := h x
    obtain ⟨ys, hys⟩ := ih
    exact ⟨b :: ys, by simp [List.mapM_cons, hb, hys, bind, Except.bind, pure, Except.pure]⟩

/-- Rendering a commit never fails: its rows are maps with text keys. -/
theorem replicationMutations_ok (codec : Codec) (nowMs : DateTime) (src : ReplicationSources) :
    ∃ records, replicationMutations codec nowMs src = .ok records := by
  have hrec := replicationRecord_ok codec src nowMs
  obtain ⟨docRecord, hdoc⟩ := hrec
    ("postmut-" ++ src.document.id ++ "-doc" ++ if src.isCancel then reversalSuffix else "")
    (if src.isCancel then .cancelDocument else .submitDocument) src.document.doctype
    src.document.id src.document.docstatus src.document.headerWithNumber
  obtain ⟨gl, hgl⟩ := mapM_ok _ (fun entry : GlEntry => hrec ("postmut-" ++ entry.id)
    .createDocument "GL Entry" entry.id 0 entry.rowFields) src.glEntries
  obtain ⟨sles, hsles⟩ := mapM_ok _ (fun sle : StockLedgerEntry => hrec ("postmut-" ++ sle.id)
    .createDocument "Stock Ledger Entry" sle.id 0 sle.rowFields) src.stockLedgerEntries
  obtain ⟨party, hparty⟩ := mapM_ok _ (fun txn : PartyTransaction => hrec ("postmut-" ++ txn.id)
    .createDocument txn.kind.doctype txn.id 0 txn.rowFields) src.partyTransactions
  obtain ⟨tax, htax⟩ := mapM_ok _ (fun txn : TaxTransaction => hrec ("postmut-" ++ txn.id)
    .createDocument "Tax Transaction" txn.id 0 txn.rowFields) src.taxTransactions
  obtain ⟨settlements, hsettlements⟩ := mapM_ok _ (fun s : Settlement => hrec ("postmut-" ++ s.id)
    .createDocument "Settlement" s.id 0 s.rowFields) src.settlements
  obtain ⟨bins, hbins⟩ := mapM_ok _ (fun bin : Bin => hrec
    ("postmut-" ++ src.document.id ++ "-bin-" ++ bin.item ++ "-" ++ bin.warehouse ++
      if src.isCancel then reversalSuffix else "")
    .updateDocument "Bin" ("BIN-" ++ bin.item ++ "-" ++ bin.warehouse) 0 bin.rowFields) src.bins
  obtain ⟨outstanding, houtstanding⟩ := mapM_ok _ (fun invoice : PostedDocument => hrec
    ("postmut-" ++ src.document.id ++ "-outstanding-" ++ invoice.id ++
      if src.isCancel then reversalSuffix else "")
    .updateDocument invoice.doctype invoice.id invoice.docstatus invoice.headerWithNumber)
    src.outstandingDocuments
  refine ⟨docRecord :: gl ++ sles ++ party ++ tax ++ settlements ++ bins ++ outstanding, ?_⟩
  simp only [replicationMutations, hdoc, hgl, hsles, hparty, htax, hsettlements, hbins, houtstanding]
  rfl

end AtlasTeam
