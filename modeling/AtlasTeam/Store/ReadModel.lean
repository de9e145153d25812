import AtlasTeam.Store.Ledgers
import AtlasTeam.Store.SyncLog

/-!
# The read model of the official documents

A row of `company_documents` is what the log of the company has folded into it. A batch changes a row
only through the records that the log takes and that name it (`SyncLog.row_concat`). A commit sends one
record for its document and one for each invoice it settles, and such a record leaves its row as the
document is, whatever stood there (`carries_of_record`). `Inner.Effects.readModelAgrees` puts this together
for a commit, `Inner.ReadModelAgrees.push` for a device's batch.
-/

namespace AtlasTeam

/-- The row has the docstatus of the document, its header fields and its official number; the
`__children` of a client's envelope are child tables, too. -/
structure CompanyDocument.Shows (row : CompanyDocument) (doc : PostedDocument) : Prop where
  docstatus : row.docstatus = doc.docstatus
  payload : row.payload = .object (doc.headerWithNumber.remove "__children")

/-- Every official document has its row. -/
def Inner.ReadModelAgrees (inner : Inner) : Prop :=
  ∀ key doc, AList.lookup key inner.documents = some doc →
    ∃ row, AList.lookup key inner.companyDocuments = some row ∧ row.Shows doc

/-! ### Texts that are read again -/

namespace Codec

/-- The text of `m` reads as `m'`. -/
def ReadsAs (codec : Codec) (m m' : Map) : Prop :=
  ∃ text, codec.toText m = .ok text ∧ codec.fromText text = .ok (.object m')

instance (codec : Codec) (m m' : Map) : Decidable (codec.ReadsAs m m') :=
  decidable_of_iff (((codec.toText m).toOption.bind fun text => (codec.fromText text).toOption) =
    some (.object m')) (by
      unfold ReadsAs
      cases codec.toText m with
      | error e => simp [Except.toOption]
      | ok text => cases htext : codec.fromText text <;> simp [Except.toOption, htext])

/-- The fields that the text of a map reads as. -/
def throughText (codec : Codec) (m : Map) : Map :=
  match (codec.toText m).toOption.bind fun text => (codec.fromText text).toOption with
  | some (.object m') => m'
  | _ => []

/-- What is read where a number was written: without its feature `float_roundtrip`, serde_json may read a
float with another last digit. -/
def reread (codec : Codec) (n : Number) : Number :=
  match (codec.throughText [("n", .number n)]).get "n" with
  | some (.number n') => n'
  | _ => n

/-- The text of a map reads as the map, but that each number is read again. -/
def Reads (codec : Codec) (m : Map) : Prop := codec.ReadsAs m (m.mapNumbers codec.reread)

instance (codec : Codec) (m : Map) : Decidable (codec.Reads m) :=
  inferInstanceAs (Decidable (codec.ReadsAs _ _))

/-- The texts in the fields of a map come back from its text as they are. -/
def ReadsTexts (codec : Codec) (m : Map) : Prop :=
  ∃ m', codec.ReadsAs m m' ∧
    ∀ key s, m'.get key = some (.string s) ↔ m.get key = some (.string s)

variable {codec : Codec} {m m' : Map}

theorem ReadsAs.throughText (h : codec.ReadsAs m m') : codec.throughText m = m' := by
  obtain ⟨text, htext, hread⟩ := h
  simp only [Codec.throughText, htext, hread, Except.toOption, Option.bind_some]

/-- Where every number is read as it was written, so is the map. -/
theorem Reads.back (h : codec.Reads m) (hnumbers : ∀ n ∈ Map.numbers m, codec.reread n = n) :
    codec.ReadsAs m m := by
  rw [Reads, (Map.mapNumbers_eq_self m).2 hnumbers] at h
  exact h

/-- Reading numbers again touches no text. -/
theorem Reads.texts (h : codec.Reads m) : codec.ReadsTexts m := by
  refine ⟨_, h, fun key s => ?_⟩
  rw [Map.get_mapNumbers, Option.map_eq_some_iff]
  constructor
  · rintro ⟨v, hv, htext⟩
    cases v with
    | string s' =>
      obtain rfl := Value.string.inj htext
      exact hv
    | _ => cases htext
  · exact fun hv => ⟨_, hv, rfl⟩

end Codec

/-! ### The rows after a batch -/

/-- `fold_mutation` does more than to keep the row. -/
def MutationType.foldsRow : MutationType → Bool
  | .createDocument | .updateDocument | .deleteDocument | .submitDocument | .cancelDocument => true
  | _ => false

/-- The row a record names. -/
def MutationRecord.rowKey (company : Uuid) (record : MutationRecord) : Uuid × String × String :=
  (company, record.docType, record.documentId)

namespace SyncLog

theorem foldedRow_of_keep {record : MutationRecord} (h : record.mutationType.foldsRow = false)
    (codec : Codec) (env : Env) (company : Uuid) (existing : Option CompanyDocument) :
    foldedRow codec env company record existing = existing := by
  unfold foldedRow foldMutation
  cases htype : record.mutationType <;> simp_all [MutationType.foldsRow]

/-- The log takes the record after the batch `early`: its id is new by then. -/
def Takes (log : SyncLog) (company : Uuid) (early : List MutationRecord) (record : MutationRecord) :
    Prop :=
  AList.lookup (company, record.id) log.mutationVersions = none ∧
    record.id ∉ early.map MutationRecord.id

instance (log : SyncLog) (company : Uuid) (early : List MutationRecord) (record : MutationRecord) :
    Decidable (log.Takes company early record) :=
  inferInstanceAs (Decidable (_ ∧ _))

variable {codec : Codec} {env : Env} {company : Uuid} {log : SyncLog} {records : List MutationRecord}
  {key : Uuid × String × String}

/-- The rows after one more record of a batch: the log takes it and it is folded into the row it names,
or nothing changes. -/
theorem row_concat (codec : Codec) (env : Env) (company : Uuid) (log : SyncLog)
    (early : List MutationRecord) (record : MutationRecord) (key : Uuid × String × String) :
    AList.lookup key
        (log.appendMutations codec env company (early ++ [record])).companyDocuments =
      let row := AList.lookup key (log.appendMutations codec env company early).companyDocuments
      if log.Takes company early record ∧ key = record.rowKey company then
        foldedRow codec env company record row
      else row := by
  rw [appendMutations_append]
  show AList.lookup key (appendMutation codec env company
    (log.appendMutations codec env company early) record).companyDocuments = _
  have hknows := appendMutations_knows codec env company early log company record.id
  rcases appendMutation_cases codec env company (log.appendMutations codec env company early) record with
    ⟨version, hknown, hsame⟩ | ⟨hnew, happ⟩
  · have htaken : ¬ log.Takes company early record := by
      rintro ⟨hnone, hearly⟩
      rw [hknown, hnone] at hknows
      simp [hearly] at hknows
    rw [hsame, if_neg fun h => htaken h.1]
  · have htaken : log.Takes company early record := by
      rw [hnew] at hknows
      simpa [Takes, Option.isSome_iff_ne_none] using hknows
    rw [happ.documents, lookup_applyProjection]
    simp only [htaken, true_and]
    rfl

/-- A record that the log takes is in it from then on. -/
theorem Takes.mem_records {early late : List MutationRecord} {record : MutationRecord}
    (h : log.Takes company early record) :
    record ∈ (log.appendMutations codec env company (early ++ record :: late)).records company := by
  rw [List.append_cons, appendMutations_append, appendMutations_append]
  have hunknown : AList.lookup (company, record.id)
      (log.appendMutations codec env company early).mutationVersions = none := by
    rw [← Option.not_isSome_iff_eq_none, appendMutations_knows, h.1]
    rintro (hsome | ⟨-, hearly⟩)
    · cases hsome
    · exact h.2 hearly
  have hadded : record ∈ ((log.appendMutations codec env company early).appendMutations codec env company
      [record]).records company := by
    rcases appendMutation_cases codec env company (log.appendMutations codec env company early) record with
      ⟨version, hknown, -⟩ | ⟨-, happ⟩
    · rw [hunknown] at hknown
      cases hknown
    · show record ∈ (SyncLog.appendMutation codec env company
        (log.appendMutations codec env company early) record).records company
      rw [records, happ.mutations, Table.log_extend_self, List.map_append]
      exact List.mem_append_right _ (List.mem_singleton_self record)
  have hgrown := appendMutations_prefix codec env company late
    ((log.appendMutations codec env company early).appendMutations codec env company [record]) company
  exact (hgrown.map _).subset hadded

/-- A row that no record of a batch is folded into stays. -/
theorem row_untouched
    (h : ∀ early record late, records = early ++ record :: late → log.Takes company early record →
      record.mutationType.foldsRow = true → key ≠ record.rowKey company) :
    AList.lookup key (log.appendMutations codec env company records).companyDocuments =
      AList.lookup key log.companyDocuments := by
  induction records using List.reverseRecOn with
  | nil => rfl
  | append_singleton records record ih =>
    have ih := ih fun early r late heq =>
      h early r (late ++ [record]) (by rw [heq, List.append_assoc, List.cons_append])
    rw [row_concat]
    simp only
    split_ifs with htaken
    · -- the record names the row, so it is of a kind that keeps it
      obtain ⟨htaken, hkey⟩ := htaken
      have hkeep : record.mutationType.foldsRow = false := by
        rw [← Bool.not_eq_true]
        exact fun hfolds => h records record [] rfl htaken hfolds hkey
      rw [foldedRow_of_keep hkeep, ih]
    · exact ih

/-- The row a record leaves that is the last of its batch to name it. -/
theorem row_last {early late : List MutationRecord} {record : MutationRecord}
    (htakes : log.Takes company early record)
    (hlate : ∀ r ∈ late, record.rowKey company ≠ r.rowKey company) :
    AList.lookup (record.rowKey company)
        (log.appendMutations codec env company (early ++ record :: late)).companyDocuments =
      foldedRow codec env company record (AList.lookup (record.rowKey company)
        (log.appendMutations codec env company early).companyDocuments) := by
  rw [List.append_cons, appendMutations_append, row_untouched]
  · rw [row_concat]
    simp only
    rw [if_pos ⟨htakes, trivial⟩]
  · rintro early' r late' rfl - -
    exact hlate r (by simp)

end SyncLog

/-! ### The records of documents -/

section Carries
variable {codec : Codec} {env : Env} {commit : PostingCommit} {inner : Inner}

/-- Whatever row it meets, the record leaves one that shows the document. -/
structure MutationRecord.Carries (codec : Codec) (record : MutationRecord) (doc : PostedDocument) :
    Prop where
  docType : record.docType = doc.doctype
  documentId : record.documentId = doc.id
  shows : ∀ existing env company, ∃ row,
    SyncLog.foldedRow codec env company record existing = some row ∧ row.Shows doc

/-- The docstatus and the fields on the wire. -/
theorem rowEnvelope_get {id doctype : String} {docstatus : Int} {fields payload : Map} {nowMs : DateTime}
    (h : rowEnvelope codec id doctype docstatus fields nowMs = .ok payload) :
    payload.get "docstatus" = some (.int docstatus) ∧
      ∃ text, codec.toText fields = .ok text ∧ payload.get "payload" = some (.string text) := by
  simp only [rowEnvelope, Except.bind_eq_ok, Except.pure_eq_ok] at h
  obtain ⟨text, htext, rfl⟩ := h
  refine ⟨?_, text, htext, ?_⟩
  · exact (SortedMap.Raw.lookup_ofList _ "docstatus").trans rfl
  · exact (SortedMap.Raw.lookup_ofList _ "payload").trans rfl

/-- The fields an envelope with the text of a map carries. -/
theorem envelopeFields_text {envelope m : Map} {text : String} (htext : codec.toText m = .ok text)
    (h : envelope.get "payload" = some (.string text)) :
    envelopeFields codec envelope = codec.throughText m := by
  simp only [envelopeFields, h, Codec.throughText, htext, Except.toOption, Option.bind_some]
  cases codec.fromText text with
  | error e => rfl
  | ok value => cases value <;> rfl

/-- A docstatus comes back out of an envelope. -/
theorem docstatus_back {docstatus : Int} (h : docstatus = 1 ∨ docstatus = 2) :
    (Value.int docstatus).asI64 = some docstatus ∧ asI16 docstatus = docstatus := by
  rcases h with rfl | rfl <;> decide

theorem carries_of_record {src : ReplicationSources} {nowMs : DateTime} {id : String}
    {mutationType : MutationType} {doc : PostedDocument} {record : MutationRecord}
    (h : replicationRecord codec src nowMs id mutationType doc.doctype doc.id doc.docstatus
      doc.headerWithNumber = .ok record)
    (htype : mutationType ∈ [.submitDocument, .cancelDocument, .updateDocument])
    (hstatus : doc.docstatus = 1 ∨ doc.docstatus = 2)
    (hreads : codec.ReadsAs doc.headerWithNumber doc.headerWithNumber) :
    record.Carries codec doc := by
  obtain ⟨payload, hpayload, -, hmutationType, hdocType, hdocumentId, rfl⟩ := replicationRecord_eq h
  obtain ⟨hdocstatus, text, htext, hfields⟩ := rowEnvelope_get hpayload
  obtain ⟨text', htext', hback⟩ := hreads
  obtain rfl := Except.ok.inj (htext'.symm.trans htext)
  obtain ⟨hwide, hlow⟩ := docstatus_back hstatus
  refine ⟨hdocType, hdocumentId, fun existing env company => ?_⟩
  unfold SyncLog.foldedRow foldMutation
  simp only [envelopeFields, hmutationType, hdocstatus, hfields, hback, Value.asObject, Option.bind_some,
    hwide, Option.getD_some]
  fin_cases htype <;> exact ⟨_, rfl, hlow, rfl⟩

theorem SyncLog.row_carried {log : SyncLog} {company : Uuid} {early late : List MutationRecord}
    {record : MutationRecord} {doc : PostedDocument} (htakes : log.Takes company early record)
    (hcarries : record.Carries codec doc)
    (hlate : ∀ r ∈ late, (company, doc.doctype, doc.id) ≠ r.rowKey company) :
    ∃ row, AList.lookup (company, doc.doctype, doc.id)
      (log.appendMutations codec env company (early ++ record :: late)).companyDocuments = some row ∧
        row.Shows doc := by
  have hkey : (company, doc.doctype, doc.id) = record.rowKey company := by
    rw [MutationRecord.rowKey, hcarries.docType, hcarries.documentId]
  obtain ⟨row, hrow, hshows⟩ := hcarries.shows (AList.lookup (record.rowKey company)
    (log.appendMutations codec env company early).companyDocuments) env company
  refine ⟨row, ?_, hshows⟩
  rw [hkey, row_last htakes (hkey ▸ hlate), hrow]

section Lists
variable {docs : List PostedDocument} {records : List MutationRecord}

theorem carries_keys (h : List.Forall₂ (fun doc r => MutationRecord.Carries codec r doc) docs records) :
    (records.map fun r => (r.docType, r.documentId)) = docs.map fun doc => (doc.doctype, doc.id) := by
  rw [← List.forall₂_eq_eq_eq, List.forall₂_map_left_iff, List.forall₂_map_right_iff]
  exact h.flip.imp fun r doc hr => Prod.ext hr.docType hr.documentId

/-- The record of one of the documents, between those of the others. -/
theorem carries_split {before after : List PostedDocument} {doc : PostedDocument}
    (h : List.Forall₂ (fun doc r => MutationRecord.Carries codec r doc) (before ++ doc :: after) records) :
    ∃ early r late, records = early ++ r :: late ∧ r.Carries codec doc ∧
      List.Forall₂ (fun doc r => MutationRecord.Carries codec r doc) after late := by
  obtain ⟨r, late, hr, hlate, hdrop⟩ :=
    List.forall₂_cons_right_iff.1 (List.forall₂_drop_append _ _ _ h.flip)
  refine ⟨records.take before.length, r, late, ?_, hr, hlate.flip⟩
  rw [← hdrop, List.take_append_drop]

end Lists

end Carries

/-! ### Commits -/

namespace Inner

/-- The documents are official ones of posted doctypes. -/
def Official (inner : Inner) : Prop :=
  ∀ key doc, AList.lookup key inner.documents = some doc →
    key.2.1 ∉ derivedDoctypes ∧ (doc.docstatus = 1 ∨ doc.docstatus = 2)

/-- The documents a commit on `inner` sends records of. -/
def sentDocuments (commit : PostingCommit) (inner : Inner) : List PostedDocument :=
  numberedDocument commit inner :: touchedDocuments commit inner

/-- The log takes the records of documents that a commit on `inner` sends: none of their ids is in the
log or was given to an earlier record of the commit. -/
structure HeadersReach (commit : PostingCommit) (inner : Inner) : Prop where
  apart : (recordNames commit inner).Pairwise fun earlier later =>
    later.part.isHeader = true → earlier.spell ≠ later.spell
  unknown : ∀ name ∈ recordNames commit inner, name.part.isHeader = true →
    AList.lookup (commit.companyId, name.spell) inner.mutationVersions = none

instance (commit : PostingCommit) (inner : Inner) : Decidable (HeadersReach commit inner) :=
  decidable_of_iff (_ ∧ _) ⟨fun ⟨apart, unknown⟩ => ⟨apart, unknown⟩, fun h => ⟨h.apart, h.unknown⟩⟩

variable {codec : Codec} {env : Env} {commit : PostingCommit} {inner inner' : Inner}

theorem HeadersReach.takes (h : HeadersReach commit inner) {nowMs : DateTime}
    {early late : List MutationRecord} {record : MutationRecord}
    (hrecords : replicationMutations codec nowMs (sources commit inner) = .ok (early ++ record :: late))
    (hheader : record.docType ∉ derivedDoctypes) :
    inner.toSyncLog.Takes commit.companyId early record := by
  have hnamed := (replicationMutations_named hrecords).flip
  have hearly := List.forall₂_take_append _ _ _ hnamed
  have hlate := List.forall₂_drop_append _ _ _ hnamed
  obtain ⟨name, rest, ⟨hid, hpart⟩, -, hnames⟩ := List.forall₂_cons_right_iff.1 hlate
  have hsplit : recordNames commit inner =
      (recordNames commit inner).take early.length ++ name :: rest := by
    rw [← hnames]
    exact (List.take_append_drop _ _).symm
  have hisHeader := hpart.resolve_left hheader
  have hapart := h.apart
  rw [hsplit, List.pairwise_append] at hapart
  refine ⟨?_, fun hmem => ?_⟩
  · rw [hid]
    exact h.unknown name (hsplit ▸ by simp) hisHeader
  · -- an earlier record of this id has a name spelled like this one's
    have hids : early.map MutationRecord.id =
        ((recordNames commit inner).take early.length).map RecordName.spell := by
      rw [← List.forall₂_eq_eq_eq, List.forall₂_map_left_iff, List.forall₂_map_right_iff]
      exact hearly.flip.imp fun r name hnamed => hnamed.1
    rw [hids] at hmem
    obtain ⟨name', hname', hspell⟩ := List.mem_map.1 hmem
    exact hapart.2.2 name' hname' name List.mem_cons_self hisHeader (hspell.trans hid)

/-- The record of the document of a commit, and of each invoice it settles. -/
theorem records_carry {nowMs : DateTime} {docRecord : MutationRecord} {outstanding : List MutationRecord}
    (hdocument : documentRecord codec nowMs (sources commit inner) = .ok docRecord)
    (hinvoices : List.Forall₂ (fun invoice r => invoiceRecord codec nowMs (sources commit inner) invoice =
      .ok r) (touchedDocuments commit inner) outstanding)
    (hstatus : ∀ doc ∈ sentDocuments commit inner, doc.docstatus = 1 ∨ doc.docstatus = 2)
    (hreads : ∀ doc ∈ sentDocuments commit inner,
      codec.ReadsAs doc.headerWithNumber doc.headerWithNumber) :
    docRecord.Carries codec (numberedDocument commit inner) ∧
      List.Forall₂ (fun invoice r => MutationRecord.Carries codec r invoice)
        (touchedDocuments commit inner) outstanding := by
  obtain ⟨hstatusDoc, hstatusInvoices⟩ := List.forall_mem_cons.1 hstatus
  obtain ⟨hreadsDoc, hreadsInvoices⟩ := List.forall_mem_cons.1 hreads
  refine ⟨carries_of_record hdocument ?_ hstatusDoc hreadsDoc, ?_⟩
  · show (if (sources commit inner).isCancel then MutationType.cancelDocument else .submitDocument) ∈ _
    split_ifs <;> decide
  · have hsent : List.Forall₂ (fun invoice r => invoice ∈ touchedDocuments commit inner ∧
        invoiceRecord codec nowMs (sources commit inner) invoice = .ok r)
        (touchedDocuments commit inner) outstanding :=
      (List.forall₂_and_left _ _).2 ⟨fun _ h => h, hinvoices⟩
    refine hsent.imp fun invoice r h => ?_
    exact carries_of_record h.2 (by decide) (hstatusInvoices invoice h.1) (hreadsInvoices invoice h.1)

/-- A document that is touched stands there as it was copied. -/
theorem lookup_of_mem_touched (hupdates : (commit.outstandingUpdates.map updateKey).Nodup)
    {doc : PostedDocument} (h : doc ∈ touchedDocuments commit inner) :
    ∃ update ∈ commit.outstandingUpdates,
      AList.lookup (commit.companyId, updateKey update) (writtenDocuments commit inner) = some doc := by
  have hread := @touched_read_again commit.companyId _ hupdates
    ([], AList.insert (docKey commit) (numberedDocument commit inner) inner.documents)
  rw [touchedDocuments, writeOutstandings, hread] at h
  exact List.mem_filterMap.1 h

theorem mem_touched_of_lookup (hupdates : (commit.outstandingUpdates.map updateKey).Nodup)
    {update : String × String × ℚ} (hupdate : update ∈ commit.outstandingUpdates) {doc : PostedDocument}
    (h : AList.lookup (commit.companyId, updateKey update) (writtenDocuments commit inner) = some doc) :
    doc ∈ touchedDocuments commit inner := by
  have hread := @touched_read_again commit.companyId _ hupdates
    ([], AList.insert (docKey commit) (numberedDocument commit inner) inner.documents)
  rw [touchedDocuments, writeOutstandings, hread]
  exact List.mem_filterMap.2 ⟨update, hupdate, h⟩

section Commit
variable (hupdates : (commit.outstandingUpdates.map updateKey).Nodup)
  (hcompany : commit.document.companyId = commit.companyId)
  (hkeyed : ∀ key doc, AList.lookup key inner.documents = some doc →
    key = (doc.companyId, doc.doctype, doc.id))
include hupdates hcompany hkeyed

/-- The documents a commit sends records of are official ones. -/
theorem sentDocuments_official (heffects : Effects codec env commit inner inner')
    (hofficial : inner'.Official) :
    ∀ doc ∈ sentDocuments commit inner,
      doc.doctype ∉ derivedDoctypes ∧ (doc.docstatus = 1 ∨ doc.docstatus = 2) := by
  rw [Official, heffects.applied.documents] at hofficial
  intro doc hdoc
  rcases List.mem_cons.1 hdoc with rfl | hdoc
  · obtain ⟨doc', hdoc', hfrozen⟩ := lookup_written_self commit inner
    have hlater := Later.of_frozen hfrozen.symm
    have hstatus := congrArg PostedDocument.docstatus hfrozen
    have hkey := keyed_written hkeyed hcompany _ doc' hdoc'
    obtain ⟨hdoctype, hstatus'⟩ := hofficial _ doc' hdoc'
    rw [hkey] at hdoctype
    exact ⟨hlater.doctype ▸ hdoctype, hstatus ▸ hstatus'⟩
  · obtain ⟨update, -, hlookup⟩ := lookup_of_mem_touched hupdates hdoc
    have hkey := keyed_written hkeyed hcompany _ doc hlookup
    have hboth := hofficial _ doc hlookup
    rwa [hkey] at hboth

/-- The records that a commit on `inner` sends: of its document, of the rows derived from it and of the
invoices it settles. -/
structure SentRecords (codec : Codec) (nowMs : DateTime) (commit : PostingCommit) (inner : Inner)
    (docRecord : MutationRecord) (derived outstanding : List MutationRecord) : Prop where
  records : replicationMutations codec nowMs (sources commit inner) =
    .ok (docRecord :: derived ++ outstanding)
  document : docRecord.Carries codec (numberedDocument commit inner)
  derived : ∀ r ∈ derived, r.docType ∈ derivedDoctypes
  invoices : List.Forall₂ (fun invoice r => MutationRecord.Carries codec r invoice)
    (touchedDocuments commit inner) outstanding
  official : ∀ doc ∈ sentDocuments commit inner, doc.doctype ∉ derivedDoctypes

section Rows
variable {nowMs : DateTime} {docRecord : MutationRecord} {derived outstanding : List MutationRecord}
  (h : SentRecords codec nowMs commit inner docRecord derived outstanding)
include h

/-- Only the invoices that are settled are named by records of their own. -/
theorem SentRecords.rowKey_ne {key : Uuid × String × String}
    (hothers : ∀ update ∈ commit.outstandingUpdates, key ≠ (commit.companyId, updateKey update)) :
    ∀ r ∈ outstanding, key ≠ r.rowKey commit.companyId := by
  rintro r hr rfl
  have hmem : (r.docType, r.documentId) ∈ (touchedDocuments commit inner).map fun doc =>
      (doc.doctype, doc.id) := by
    rw [← carries_keys h.invoices]
    exact List.mem_map.2 ⟨r, hr, rfl⟩
  obtain ⟨invoice, hinvoice, heq⟩ := List.mem_map.1 hmem
  obtain ⟨update, hupdate, hlookup⟩ := lookup_of_mem_touched hupdates hinvoice
  refine hothers update hupdate ?_
  have hkey := keyed_written hkeyed hcompany _ invoice hlookup
  rw [MutationRecord.rowKey, ← heq, (Prod.mk.inj hkey).2]

/-- An invoice that is settled: its own record is the last to name it. -/
theorem SentRecords.settled_row (hreach : HeadersReach commit inner) {doc : PostedDocument}
    (htouched : doc ∈ touchedDocuments commit inner) :
    ∃ row, AList.lookup (commit.companyId, doc.doctype, doc.id) (inner.toSyncLog.appendMutations codec env
      commit.companyId (docRecord :: derived ++ outstanding)).companyDocuments = some row ∧
        row.Shows doc := by
  have hrecords := h.records
  have hcarries := h.invoices
  have hnodup := touchedDocuments_nodup hupdates hcompany hkeyed
  obtain ⟨before, after, hsplit⟩ := List.append_of_mem htouched
  rw [hsplit] at hcarries hnodup
  obtain ⟨early, r, late, rfl, hr, hlate⟩ := carries_split hcarries
  rw [← List.append_assoc] at hrecords ⊢
  have htakes : inner.toSyncLog.Takes commit.companyId (docRecord :: derived ++ early) r := by
    refine hreach.takes hrecords ?_
    rw [hr.docType]
    exact h.official doc (List.mem_cons_of_mem _ htouched)
  refine SyncLog.row_carried htakes hr fun r' hr' heq => ?_
  rw [List.map_append, List.nodup_append, List.map_cons, List.nodup_cons] at hnodup
  refine hnodup.2.1.1 ?_
  rw [← carries_keys hlate]
  exact List.mem_map.2 ⟨r', hr', (Prod.mk.inj heq).2.symm⟩

omit hupdates hcompany hkeyed in
/-- The document of the commit: its record is the first, and where it is no settled invoice no other names
it. -/
theorem SentRecords.own_row (hreach : HeadersReach commit inner)
    (hunsettled : ∀ r ∈ outstanding, docKey commit ≠ r.rowKey commit.companyId) :
    ∃ row, AList.lookup (docKey commit) (inner.toSyncLog.appendMutations codec env commit.companyId
      (docRecord :: derived ++ outstanding)).companyDocuments = some row ∧
        row.Shows (numberedDocument commit inner) := by
  have hkey : docKey commit = (commit.companyId, (numberedDocument commit inner).doctype,
      (numberedDocument commit inner).id) := by
    rw [numberedDocument_eq]
    rfl
  have hofficial := h.official _ List.mem_cons_self
  have htakes : inner.toSyncLog.Takes commit.companyId [] docRecord := by
    refine hreach.takes h.records ?_
    rw [h.document.docType]
    exact hofficial
  rw [hkey] at hunsettled ⊢
  refine SyncLog.row_carried htakes h.document (List.forall_mem_append.2 ⟨?_, hunsettled⟩)
  intro r hr heq
  have hdoctype : (numberedDocument commit inner).doctype = r.docType :=
    congrArg (fun key : Uuid × String × String => key.2.1) heq
  exact hofficial (hdoctype ▸ h.derived r hr)

omit hupdates hcompany hkeyed in
/-- Another document: no record names it. -/
theorem SentRecords.other_row {key : Uuid × String × String} (hofficial : key.2.1 ∉ derivedDoctypes)
    (hself : key ≠ docKey commit) (hunsettled : ∀ r ∈ outstanding, key ≠ r.rowKey commit.companyId) :
    AList.lookup key (inner.toSyncLog.appendMutations codec env commit.companyId
      (docRecord :: derived ++ outstanding)).companyDocuments = AList.lookup key inner.companyDocuments := by
  refine SyncLog.row_untouched fun early r late heq _ _ => ?_
  have hr : r ∈ docRecord :: derived ++ outstanding := heq ▸ by simp
  rcases List.mem_append.1 hr with hr | hr
  · rcases List.mem_cons.1 hr with rfl | hr
    · rw [MutationRecord.rowKey, h.document.docType, h.document.documentId, numberedDocument_eq]
      exact hself
    · rintro rfl
      exact hofficial (h.derived r hr)
  · exact hunsettled r hr

end Rows

/-- A commit whose records of documents reach the log keeps the read model in step with the documents. -/
theorem Effects.readModelAgrees (heffects : Effects codec env commit inner inner')
    (hofficial : inner'.Official) (hreach : HeadersReach commit inner)
    (hreads : ∀ doc ∈ sentDocuments commit inner,
      codec.ReadsAs doc.headerWithNumber doc.headerWithNumber)
    (hagrees : inner.ReadModelAgrees) : inner'.ReadModelAgrees := by
  obtain ⟨records, hrecords, hlog⟩ := heffects.syncLog
  obtain ⟨docRecord, derived, outstanding, rfl, hdocument, hderived, hinvoices⟩ :=
    replicationMutations_parts hrecords
  have hsent := sentDocuments_official hupdates hcompany hkeyed heffects hofficial
  obtain ⟨hdocCarries, hcarries⟩ := records_carry hdocument hinvoices (fun doc h => (hsent doc h).2) hreads
  have hsentRecords : SentRecords codec _ commit inner docRecord derived outstanding :=
    ⟨hrecords, hdocCarries, hderived, hcarries, fun doc h => (hsent doc h).1⟩
  intro key doc hdoc
  have hofficialKey := (hofficial key doc hdoc).1
  rw [heffects.applied.documents] at hdoc
  have hkey := keyed_written hkeyed hcompany key doc hdoc
  show ∃ row, AList.lookup key inner'.toSyncLog.companyDocuments = some row ∧ row.Shows doc
  rw [hlog]
  by_cases hupdated : ∃ update ∈ commit.outstandingUpdates, key = (commit.companyId, updateKey update)
  · obtain ⟨update, hupdate, hupdateKey⟩ := hupdated
    have htouched := mem_touched_of_lookup hupdates hupdate (hupdateKey ▸ hdoc)
    rw [hkey, (Prod.mk.inj (hkey.symm.trans hupdateKey)).1]
    exact hsentRecords.settled_row hupdates hcompany hkeyed hreach htouched
  · have hothers : ∀ update ∈ commit.outstandingUpdates, key ≠ (commit.companyId, updateKey update) :=
      fun update hupdate heq => hupdated ⟨update, hupdate, heq⟩
    have hunsettled := hsentRecords.rowKey_ne hupdates hcompany hkeyed hothers
    rw [writtenDocuments, writeOutstandings, lookup_writeOutstandings_of_ne hothers] at hdoc
    by_cases hself : key = docKey commit
    · subst hself
      rw [AList.lookup_insert] at hdoc
      obtain rfl := Option.some.inj hdoc
      exact hsentRecords.own_row hreach hunsettled
    · rw [AList.lookup_insert_ne hself] at hdoc
      obtain ⟨row, hrow, hshows⟩ := hagrees key doc hdoc
      refine ⟨row, ?_, hshows⟩
      rw [hsentRecords.other_row hofficialKey hself hunsettled, hrow]

end Commit

/-! ### Pushes -/

/-- No record of the batch is folded into the row of an official document. -/
def SparesOfficial (inner : Inner) (company : Uuid) (records : List MutationRecord) : Prop :=
  ∀ i (h : i < records.length), inner.toSyncLog.Takes company (records.take i) records[i] →
    records[i].mutationType.foldsRow = true →
    AList.lookup (records[i].rowKey company) inner.documents = none

instance (inner : Inner) (company : Uuid) (records : List MutationRecord) :
    Decidable (inner.SparesOfficial company records) :=
  inferInstanceAs (Decidable (∀ i (_ : i < records.length), _ → _ → _ = none))

theorem ReadModelAgrees.operate (h : inner.ReadModelAgrees) {op : MemOp}
    (hspares : ∀ company records, op = .pushMutations company records →
      inner.SparesOfficial company records) :
    ((memBackend codec).operate env op inner).ReadModelAgrees := by
  intro key doc hdoc
  rw [(operate_frame codec env op inner).documents] at hdoc
  obtain ⟨row, hrow, hshows⟩ := h key doc hdoc
  refine ⟨row, ?_, hshows⟩
  show AList.lookup key ((memBackend codec).operate env op inner).toSyncLog.companyDocuments = some row
  rw [operate_syncLog]
  split
  · rename_i company records
    rw [SyncLog.row_untouched, hrow]
    rintro early record late rfl htakes hfolds rfl
    have hlt : early.length < (early ++ record :: late).length := by simp
    have hget : (early ++ record :: late)[early.length] = record := by simp
    have hnone := hspares company _ rfl early.length hlt
    rw [hget, List.take_left] at hnone
    cases (hnone htakes hfolds).symm.trans hdoc
  · exact hrow

/-! ### Official documents -/

theorem Official.operate (h : inner.Official) (op : MemOp) :
    ((memBackend codec).operate env op inner).Official := by
  rw [Official, (operate_frame codec env op inner).documents]
  exact h

end Inner

section Official
variable {codec : Codec} {allowed : Allowed MemOp} {book₀ book : Book Inner} {draft : Draft Inner}
  {inner' : Inner}

/-- A new document is of a posted doctype. -/
theorem Command.build_doctype {view : StoreView} {env : Env} {companyId : Uuid} {actor : Actor}
    {documentId : String} {command : Command} {commit : PostingCommit}
    (h : command.build codec view env companyId actor documentId = .ok commit)
    (hadmissible : command.Admissible actor) (hnew : commit.documentIsNew = true) :
    commit.document.doctype ∈ postedDoctypes := by
  cases command with
  | submit cmd =>
    obtain ⟨prepared, shortfalls, settlements, updates, -, -, -, rfl⟩ := buildSubmit_ok h
    exact hadmissible.1
  | cancel cmd =>
    obtain ⟨doc, postingDate, guard, updates, -, -, -, -, -, rfl⟩ := buildCancel_ok h
    cases hnew
  | takeOn cmd =>
    obtain ⟨postingDate, stock, tb, continuations, -, -, rfl⟩ := buildOpening_ok h
    show openingDoctype ∈ postedDoctypes
    decide

/-- An applied draft leaves official documents. -/
theorem Inner.Official.applied (h : book.store.Official)
    (hbuilt : Draft.Built codec (memBackend codec) allowed book₀ draft)
    (hpassed : Inner.Passed draft.commit book.store)
    (happlied : Inner.Applied draft.commit book.store inner')
    (hadmissible : draft.command.Admissible draft.actor) : inner'.Official := by
  intro key doc hdoc
  rw [happlied.documents] at hdoc
  rcases Inner.lookup_written_cases hdoc with ⟨rfl, hfrozen⟩ | ⟨-, doc₀, hdoc₀, hfrozen⟩
  · have hstatus := congrArg PostedDocument.docstatus hfrozen
    rw [Inner.numberedDocument_eq] at hstatus
    have hstatus : doc.docstatus = draft.commit.document.docstatus := hstatus
    rw [hstatus]
    obtain ⟨-, ⟨hisNew, -, hnew, -⟩ | ⟨cmd, doc₁, -, hold, -, -, hdocument, -⟩⟩ :=
      Command.build_new_or_cancel hbuilt.build
    · have hposted := Command.build_doctype hbuilt.build hadmissible hisNew
      have hapart : ∀ doctype ∈ postedDoctypes, doctype ∉ derivedDoctypes := by decide
      exact ⟨hapart _ hposted, .inl hnew⟩
    · -- the document of a cancel stands there
      obtain ⟨existing, hexisting, -⟩ := hpassed.submitted hold
      exact ⟨(h _ existing hexisting).1, .inr (by rw [hdocument])⟩
  · have hstatus := congrArg PostedDocument.docstatus hfrozen
    have hstatus : doc.docstatus = doc₀.docstatus := hstatus
    rw [hstatus]
    exact h key doc₀ hdoc₀

end Official

end AtlasTeam
