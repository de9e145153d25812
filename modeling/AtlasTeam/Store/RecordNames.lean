import AtlasTeam.Authority
import AtlasTeam.Posting.RowIds
import AtlasTeam.Store.Effects

/-!
# The names of replication records

`replication_mutations` joins the document's id, a row's id or the names of a pair or an invoice with
dashes. A `RecordName` keeps apart what a record is about; `RecordName.spell` is the id made of it. The
records of a commit are named one by one (`replicationMutations_ids`), and no name occurs twice
in one commit whose rows, pairs and invoices are distinct (`recordNames_nodup`).
-/

namespace AtlasTeam

/-- What one record of a posting is about. -/
inductive RecordPart where
  | document
  | row (kind : LedgerKind) (id : String)
  | bin (item warehouse : String)
  | invoice (doctype id : String)
deriving DecidableEq

/-- The record is of a document, not of a derived row. -/
def RecordPart.isHeader : RecordPart → Bool
  | .document | .invoice _ _ => true
  | .row _ _ | .bin _ _ => false

/-- A part of the submit or the cancel of a document. -/
structure RecordName where
  doctype : String
  documentId : String
  isCancel : Bool
  part : RecordPart
deriving DecidableEq

/-- The id `replication_mutations` gives the record. -/
def RecordName.spell (name : RecordName) : String :=
  let sfx := if name.isCancel then reversalSuffix else ""
  match name.part with
  | .document => "postmut-" ++ name.documentId ++ "-doc" ++ sfx
  | .row _ id => "postmut-" ++ id
  | .bin item warehouse =>
    "postmut-" ++ name.documentId ++ "-bin-" ++ item ++ "-" ++ warehouse ++ sfx
  | .invoice _ id => "postmut-" ++ name.documentId ++ "-outstanding-" ++ id ++ sfx

/-- Every record id of a posting starts alike. -/
theorem RecordName.startsWith_spell (name : RecordName) : startsWith name.spell "postmut-" = true := by
  rw [startsWith, List.isPrefixOf_iff_prefix]
  unfold RecordName.spell
  cases name.part <;>
    simp only [String.toList_append, List.append_assoc] <;> exact List.prefix_append _ _

namespace ReplicationSources

/-- The ids of the rows of a ledger. -/
def rowIds (src : ReplicationSources) : LedgerKind → List String
  | .gl => src.glEntries.map GlEntry.id
  | .stock => src.stockLedgerEntries.map StockLedgerEntry.id
  | .party => src.partyTransactions.map PartyTransaction.id
  | .tax => src.taxTransactions.map TaxTransaction.id
  | .settlement => src.settlements.map Settlement.id

/-- The parts the records are about, in their order. -/
def parts (src : ReplicationSources) : List RecordPart :=
  .document :: ([.gl, .stock, .party, .tax, .settlement].flatMap fun kind =>
      (src.rowIds kind).map (.row kind)) ++
    src.bins.map (fun bin => .bin bin.item bin.warehouse) ++
    src.outstandingDocuments.map fun invoice => .invoice invoice.doctype invoice.id

def names (src : ReplicationSources) : List RecordName :=
  src.parts.map fun part => ⟨src.document.doctype, src.document.id, src.isCancel, part⟩

end ReplicationSources

/-! ### One record for each name -/

theorem replicationRecord_eq {codec : Codec} {src : ReplicationSources} {nowMs : DateTime} {id : String}
    {mutationType : MutationType} {docType documentId : String} {docstatus : Int} {fields : Map}
    {r : MutationRecord}
    (h : replicationRecord codec src nowMs id mutationType docType documentId docstatus fields = .ok r) :
    ∃ payload, rowEnvelope codec documentId docType docstatus fields nowMs = .ok payload ∧
      r.id = id ∧ r.mutationType = mutationType ∧ r.docType = docType ∧ r.documentId = documentId ∧
      r.payload = payload := by
  simp only [replicationRecord, Except.bind_eq_ok, Except.pure_eq_ok] at h
  obtain ⟨payload, hpayload, rfl⟩ := h
  exact ⟨payload, hpayload, rfl, rfl, rfl, rfl, rfl⟩

theorem replicationRecord_id {codec : Codec} {src : ReplicationSources} {nowMs : DateTime} {id : String}
    {mutationType : MutationType} {docType documentId : String} {docstatus : Int} {fields : Map}
    {r : MutationRecord}
    (h : replicationRecord codec src nowMs id mutationType docType documentId docstatus fields = .ok r) :
    r.id = id := by
  obtain ⟨_, -, hid, -⟩ := replicationRecord_eq h
  exact hid

theorem replicationRecord_docType {codec : Codec} {src : ReplicationSources} {nowMs : DateTime}
    {id : String} {mutationType : MutationType} {docType documentId : String} {docstatus : Int}
    {fields : Map} {r : MutationRecord}
    (h : replicationRecord codec src nowMs id mutationType docType documentId docstatus fields = .ok r) :
    r.docType = docType := by
  obtain ⟨_, -, -, -, hdocType, -⟩ := replicationRecord_eq h
  exact hdocType

section Parts
variable {codec : Codec} {nowMs : DateTime} {src : ReplicationSources} {records : List MutationRecord}

/-- The record of the document. -/
def documentRecord (codec : Codec) (nowMs : DateTime) (src : ReplicationSources) :
    Except String MutationRecord :=
  replicationRecord codec src nowMs
    ("postmut-" ++ src.document.id ++ "-doc" ++ if src.isCancel then reversalSuffix else "")
    (if src.isCancel then .cancelDocument else .submitDocument) src.document.doctype src.document.id
    src.document.docstatus src.document.headerWithNumber

/-- The record of a settled invoice. -/
def invoiceRecord (codec : Codec) (nowMs : DateTime) (src : ReplicationSources)
    (invoice : PostedDocument) : Except String MutationRecord :=
  replicationRecord codec src nowMs
    ("postmut-" ++ src.document.id ++ "-outstanding-" ++ invoice.id ++
      if src.isCancel then reversalSuffix else "")
    .updateDocument invoice.doctype invoice.id invoice.docstatus invoice.headerWithNumber

/-- The records made from a list and the names of its entries. -/
theorem named_of_forall₂ {α : Type} {f : α → Except String MutationRecord} {name : α → RecordName}
    {R : MutationRecord → RecordName → Prop} (hname : ∀ x r, f x = .ok r → R r (name x)) {xs : List α}
    {rs : List MutationRecord} (h : List.Forall₂ (fun x r => f x = .ok r) xs rs) :
    List.Forall₂ R rs (xs.map name) := by
  rw [List.forall₂_map_right_iff]
  exact (h.imp fun x r => hname x r).flip

/-- Records of derived doctypes. -/
theorem derived_of_forall₂ {α : Type} {f : α → Except String MutationRecord} {docType : α → String}
    (hdoctype : ∀ x r, f x = .ok r → r.docType = docType x)
    (hderived : ∀ x, docType x ∈ derivedDoctypes) {xs : List α} {rs : List MutationRecord}
    (h : List.Forall₂ (fun x r => f x = .ok r) xs rs) : ∀ r ∈ rs, r.docType ∈ derivedDoctypes := by
  induction h with
  | nil => exact fun r hr => absurd hr List.not_mem_nil
  | cons hfirst _ ih =>
    refine List.forall_mem_cons.2 ⟨?_, ih⟩
    rw [hdoctype _ _ hfirst]
    exact hderived _

/-- The records of a commit: the document, the derived rows and the settled invoices. -/
theorem replicationMutations_parts (h : replicationMutations codec nowMs src = .ok records) :
    ∃ docRecord derived outstanding, records = docRecord :: derived ++ outstanding ∧
      documentRecord codec nowMs src = .ok docRecord ∧
      (∀ r ∈ derived, r.docType ∈ derivedDoctypes) ∧
      List.Forall₂ (fun invoice r => invoiceRecord codec nowMs src invoice = .ok r)
        src.outstandingDocuments outstanding := by
  simp only [replicationMutations, Except.bind_eq_ok, Except.pure_eq_ok, Except.mapM_eq_ok] at h
  obtain ⟨docRecord, hdoc, gl, hgl, sles, hsles, party, hparty, tax, htax, settlements, hsettlements,
    bins, hbins, outstanding, houtstanding, rfl⟩ := h
  refine ⟨docRecord, gl ++ sles ++ party ++ tax ++ settlements ++ bins, outstanding,
    by simp only [List.cons_append, List.append_assoc], hdoc, ?_, houtstanding⟩
  simp only [List.forall_mem_append]
  refine ⟨⟨⟨⟨⟨?_, ?_⟩, ?_⟩, ?_⟩, ?_⟩, ?_⟩
  · exact derived_of_forall₂ (fun _ _ hr => replicationRecord_docType hr) (fun _ => by decide) hgl
  · exact derived_of_forall₂ (fun _ _ hr => replicationRecord_docType hr) (fun _ => by decide) hsles
  · refine derived_of_forall₂ (fun _ _ hr => replicationRecord_docType hr) (fun txn => ?_) hparty
    cases txn.kind <;> decide
  · exact derived_of_forall₂ (fun _ _ hr => replicationRecord_docType hr) (fun _ => by decide) htax
  · exact derived_of_forall₂ (fun _ _ hr => replicationRecord_docType hr) (fun _ => by decide)
      hsettlements
  · exact derived_of_forall₂ (fun _ _ hr => replicationRecord_docType hr) (fun _ => by decide) hbins

/-- A record has the id its name is spelled with, and is of a derived doctype unless its name is of a
document or an invoice. -/
def MutationRecord.NamedBy (r : MutationRecord) (name : RecordName) : Prop :=
  r.id = name.spell ∧ (r.docType ∈ derivedDoctypes ∨ name.part.isHeader = true)

/-- The records of a commit are those of its names, one by one. -/
theorem replicationMutations_named (h : replicationMutations codec nowMs src = .ok records) :
    List.Forall₂ MutationRecord.NamedBy records src.names := by
  simp only [replicationMutations, Except.bind_eq_ok, Except.pure_eq_ok, Except.mapM_eq_ok] at h
  obtain ⟨docRecord, hdoc, gl, hgl, sles, hsles, party, hparty, tax, htax, settlements, hsettlements,
    bins, hbins, outstanding, houtstanding, rfl⟩ := h
  have hderived : ∀ {r : MutationRecord} {name : RecordName} {docType : String}, r.id = name.spell →
      r.docType = docType → docType ∈ derivedDoctypes → r.NamedBy name :=
    fun hid hdoctype hmem => ⟨hid, .inl (hdoctype ▸ hmem)⟩
  simp only [ReplicationSources.names, ReplicationSources.parts, ReplicationSources.rowIds,
    List.flatMap_cons, List.flatMap_nil, List.append_nil, List.map_cons, List.map_append, List.map_map,
    List.cons_append, List.append_assoc]
  refine .cons ⟨replicationRecord_id hdoc, .inr rfl⟩ ?_
  refine List.rel_append (named_of_forall₂ (fun entry r hr => ?_) hgl) ?_
  · exact hderived (replicationRecord_id hr) (replicationRecord_docType hr) (by decide)
  refine List.rel_append (named_of_forall₂ (fun sle r hr => ?_) hsles) ?_
  · exact hderived (replicationRecord_id hr) (replicationRecord_docType hr) (by decide)
  refine List.rel_append (named_of_forall₂ (fun txn r hr => ?_) hparty) ?_
  · exact hderived (replicationRecord_id hr) (replicationRecord_docType hr)
      (by cases txn.kind <;> decide)
  refine List.rel_append (named_of_forall₂ (fun txn r hr => ?_) htax) ?_
  · exact hderived (replicationRecord_id hr) (replicationRecord_docType hr) (by decide)
  refine List.rel_append (named_of_forall₂ (fun s r hr => ?_) hsettlements) ?_
  · exact hderived (replicationRecord_id hr) (replicationRecord_docType hr) (by decide)
  refine List.rel_append (named_of_forall₂ (fun bin r hr => ?_) hbins) ?_
  · exact hderived (replicationRecord_id hr) (replicationRecord_docType hr) (by decide)
  exact named_of_forall₂ (fun invoice r hr => ⟨replicationRecord_id hr, .inr rfl⟩) houtstanding

/-- The ids of the records are the spelled names. -/
theorem replicationMutations_ids (h : replicationMutations codec nowMs src = .ok records) :
    records.map MutationRecord.id = src.names.map RecordName.spell := by
  rw [← List.forall₂_eq_eq_eq, List.forall₂_map_left_iff, List.forall₂_map_right_iff]
  exact (replicationMutations_named h).imp fun r name hnamed => hnamed.1

end Parts

/-! ### No name occurs twice in a commit -/

theorem ReplicationSources.parts_nodup {src : ReplicationSources}
    (hrows : ∀ kind, (src.rowIds kind).Nodup) (hbins : (src.bins.map Bin.pair).Nodup)
    (hinvoices : (src.outstandingDocuments.map fun doc => (doc.doctype, doc.id)).Nodup) :
    src.parts.Nodup := by
  have hledgers : ([.gl, .stock, .party, .tax, .settlement].flatMap fun kind =>
      (src.rowIds kind).map (RecordPart.row kind)).Nodup := by
    rw [List.nodup_flatMap]
    refine ⟨fun kind _ => (hrows kind).map fun _ _ h => (RecordPart.row.inj h).2, ?_⟩
    have hkinds : [LedgerKind.gl, .stock, .party, .tax, .settlement].Nodup := by decide
    refine hkinds.imp fun {kind kind'} hne part hpart hpart' => hne ?_
    obtain ⟨id, -, rfl⟩ := List.mem_map.1 hpart
    obtain ⟨id', -, heq⟩ := List.mem_map.1 hpart'
    exact (RecordPart.row.inj heq).1.symm
  have hpairs : (src.bins.map fun bin => RecordPart.bin bin.item bin.warehouse).Nodup := by
    have hmap : (src.bins.map fun bin => RecordPart.bin bin.item bin.warehouse) =
        (src.bins.map Bin.pair).map fun pair => RecordPart.bin (ofLex pair).1 (ofLex pair).2 := by
      rw [List.map_map]
      rfl
    rw [hmap]
    refine hbins.map fun pair pair' h => ?_
    obtain ⟨hitem, hwarehouse⟩ := RecordPart.bin.inj h
    exact congrArg toLex (Prod.ext hitem hwarehouse)
  have hdocuments : (src.outstandingDocuments.map fun doc =>
      RecordPart.invoice doc.doctype doc.id).Nodup := by
    have hmap : (src.outstandingDocuments.map fun doc => RecordPart.invoice doc.doctype doc.id) =
        (src.outstandingDocuments.map fun doc => (doc.doctype, doc.id)).map fun key =>
          RecordPart.invoice key.1 key.2 := by
      rw [List.map_map]
      rfl
    rw [hmap]
    refine hinvoices.map fun key key' h => ?_
    obtain ⟨hdoctype, hid⟩ := RecordPart.invoice.inj h
    exact Prod.ext hdoctype hid
  rw [ReplicationSources.parts, List.nodup_append, List.nodup_append, List.nodup_cons]
  refine ⟨⟨⟨by simp, hledgers⟩, hpairs, ?_⟩, hdocuments, ?_⟩
  · intro part hpart part' hpart'
    obtain ⟨bin, -, rfl⟩ := List.mem_map.1 hpart'
    rintro rfl
    simp at hpart
  · intro part hpart part' hpart'
    obtain ⟨doc, -, rfl⟩ := List.mem_map.1 hpart'
    rintro rfl
    simp at hpart

theorem ReplicationSources.names_nodup {src : ReplicationSources} (h : src.parts.Nodup) :
    src.names.Nodup :=
  h.map fun _ _ heq => congrArg RecordName.part heq

/-- The invoices an update touches are those it names. -/
theorem touched_keys {company : Uuid} {updates : List (String × String × ℚ)}
    {acc : List PostedDocument × Documents}
    (hkeyed : ∀ key doc, AList.lookup key acc.2 = some doc → key = (doc.companyId, doc.doctype, doc.id)) :
    ∃ keys, keys.Sublist (updates.map updateKey) ∧
      ((updates.foldl (Inner.writeOutstanding company) acc).1.map fun doc => (doc.doctype, doc.id)) =
        (acc.1.map fun doc => (doc.doctype, doc.id)) ++ keys := by
  induction updates generalizing acc with
  | nil => exact ⟨[], List.Sublist.refl _, by simp⟩
  | cons update updates ih =>
    obtain ⟨touched, documents⟩ := acc
    obtain ⟨doctype, id, outstanding⟩ := update
    rw [List.foldl_cons]
    simp only [Inner.writeOutstanding]
    cases hdoc : AList.lookup (company, doctype, id) documents with
    | none =>
      obtain ⟨keys, hsub, heq⟩ := ih hkeyed
      exact ⟨keys, hsub.cons _, heq⟩
    | some doc =>
      have hkey := hkeyed _ _ hdoc
      have hkeyed' : ∀ key doc', AList.lookup key (AList.insert (company, doctype, id)
          (Inner.withOutstanding doc outstanding) documents) = some doc' →
          key = (doc'.companyId, doc'.doctype, doc'.id) := by
        intro key doc' hdoc'
        by_cases heq : key = (company, doctype, id)
        · subst heq
          rw [AList.lookup_insert] at hdoc'
          rw [← Option.some.inj hdoc']
          exact hkey
        · rw [AList.lookup_insert_ne heq] at hdoc'
          exact hkeyed key doc' hdoc'
      obtain ⟨keys, hsub, heq⟩ := @ih (touched ++ [Inner.withOutstanding doc outstanding], _) hkeyed'
      refine ⟨(doctype, id) :: keys, hsub.cons_cons _, heq.trans ?_⟩
      rw [List.map_append, List.append_assoc]
      refine congrArg _ (congrArg (· :: keys) ?_)
      exact (Prod.mk.inj hkey).2.symm

/-- Invoices that are updated once each are the same read again as copied on the way. -/
theorem touched_read_again {company : Uuid} {updates : List (String × String × ℚ)}
    (hnodup : (updates.map updateKey).Nodup) (acc : List PostedDocument × Documents) :
    (updates.foldl (Inner.writeOutstanding company) acc).1 =
      acc.1 ++ updates.filterMap fun update => AList.lookup (company, updateKey update)
        (updates.foldl (Inner.writeOutstanding company) acc).2 := by
  induction updates generalizing acc with
  | nil => exact (List.append_nil _).symm
  | cons update updates ih =>
    rw [List.map_cons, List.nodup_cons] at hnodup
    have hothers : ∀ other ∈ updates, (company, updateKey update) ≠ (company, updateKey other) :=
      fun other hother heq => hnodup.1 (List.mem_map.2 ⟨other, hother, (Prod.mk.inj heq).2.symm⟩)
    rw [List.foldl_cons, ih hnodup.2, List.filterMap_cons,
      Inner.lookup_writeOutstandings_of_ne hothers]
    obtain ⟨touched, documents⟩ := acc
    obtain ⟨doctype, id, outstanding⟩ := update
    simp only [Inner.writeOutstanding, updateKey]
    cases hdoc : AList.lookup (company, doctype, id) documents with
    | none => simp only [hdoc]
    | some doc => simp only [AList.lookup_insert, List.append_assoc, List.singleton_append]

namespace Inner

/-- What is replicated of a commit on `inner`. -/
def sources (commit : PostingCommit) (inner : Inner) : ReplicationSources :=
  replicationSources commit (numberedDocument commit inner) (sequencedRows commit inner)
    (touchedDocuments commit inner)

/-- The names of the records of a commit on `inner`. -/
def recordNames (commit : PostingCommit) (inner : Inner) : List RecordName :=
  (sources commit inner).names

theorem sequenceFrom_ids (seq : Int) (sles : List StockLedgerEntry) :
    (sequenceFrom seq sles).map StockLedgerEntry.id = sles.map StockLedgerEntry.id := by
  induction sles generalizing seq with
  | nil => rfl
  | cons sle sles ih => rw [sequenceFrom, List.map_cons, List.map_cons, ih]

theorem sources_rowIds (commit : PostingCommit) (inner : Inner) (kind : LedgerKind) :
    (sources commit inner).rowIds kind = (kind.rows commit).map kind.rowId := by
  cases kind with
  | stock => exact sequenceFrom_ids _ _
  | _ => rfl

/-- The documents with that of the commit still stand under their own keys. -/
theorem keyed_inserted {commit : PostingCommit} {inner : Inner}
    (hcompany : commit.document.companyId = commit.companyId)
    (hkeyed : ∀ key doc, AList.lookup key inner.documents = some doc →
      key = (doc.companyId, doc.doctype, doc.id)) (key : Uuid × String × String) (doc : PostedDocument)
    (h : AList.lookup key (AList.insert (docKey commit) (numberedDocument commit inner)
      inner.documents) = some doc) : key = (doc.companyId, doc.doctype, doc.id) := by
  by_cases heq : key = docKey commit
  · subst heq
    rw [AList.lookup_insert] at h
    rw [← Option.some.inj h, numberedDocument_eq, docKey, hcompany]
  · rw [AList.lookup_insert_ne heq] at h
    exact hkeyed key doc h

/-- The invoices a commit touches are distinct when its updates are. -/
theorem touchedDocuments_nodup {commit : PostingCommit} {inner : Inner}
    (hupdates : (commit.outstandingUpdates.map updateKey).Nodup)
    (hcompany : commit.document.companyId = commit.companyId)
    (hkeyed : ∀ key doc, AList.lookup key inner.documents = some doc →
      key = (doc.companyId, doc.doctype, doc.id)) :
    ((touchedDocuments commit inner).map fun doc => (doc.doctype, doc.id)).Nodup := by
  obtain ⟨keys, hsub, heq⟩ := @touched_keys commit.companyId commit.outstandingUpdates
    ([], AList.insert (docKey commit) (numberedDocument commit inner) inner.documents)
    (keyed_inserted hcompany hkeyed)
  have hkeys : ((touchedDocuments commit inner).map fun doc => (doc.doctype, doc.id)) = keys := heq
  rw [hkeys]
  exact hsub.nodup hupdates

/-- A commit whose rows, pairs and updated invoices are distinct has distinct records. -/
theorem recordNames_nodup {commit : PostingCommit} {inner : Inner}
    (hrows : ∀ kind : LedgerKind, ((kind.rows commit).map kind.rowId).Nodup)
    (hbins : (commit.bins.map Bin.pair).Nodup)
    (hupdates : (commit.outstandingUpdates.map updateKey).Nodup)
    (hcompany : commit.document.companyId = commit.companyId)
    (hkeyed : ∀ key doc, AList.lookup key inner.documents = some doc →
      key = (doc.companyId, doc.doctype, doc.id)) : (recordNames commit inner).Nodup := by
  refine ReplicationSources.names_nodup (ReplicationSources.parts_nodup (fun kind => ?_) hbins ?_)
  · rw [sources_rowIds]
    exact hrows kind
  · exact touchedDocuments_nodup hupdates hcompany hkeyed

end Inner

end AtlasTeam
