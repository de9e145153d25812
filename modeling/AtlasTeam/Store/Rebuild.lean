import AtlasTeam.Store.SyncLog

/-!
# Rebuilding the read model

The read model follows the log record by record, and `rebuild_projection` folds a company's log again
from nothing. Folding a record sees only the row it names, and of a row's update time nothing is read, so
two tables that agree up to update times agree after the same records (`SameRows.foldRecords`).
`FoldsLog` says that the rows of a company are the fold of its log. Appending keeps it for every company
(`FoldsLog.appendMutation`), and a rebuild finds it already true (`rebuildProjection_sameRows`).
-/

namespace AtlasTeam

namespace Table
variable {K V : Type} [DecidableEq K]

/-- `retain`, by the key. -/
def retain (keep : K → Bool) (t : Table K V) : Table K V :=
  ⟨t.entries.filter fun e => keep e.1, List.NodupKeys.sublist List.filter_sublist t.nodupKeys⟩

theorem lookup_retain (keep : K → Bool) (t : Table K V) (k : K) :
    AList.lookup k (t.retain keep) = if keep k then AList.lookup k t else none := by
  have hrows : AList.lookup k (t.retain keep) = (AList.lookup k t).filter fun _ => keep k :=
    lookup_retainRows (fun k _ => keep k) t k
  rw [hrows]
  cases AList.lookup k t with
  | none => rw [Option.filter_none, ite_self]
  | some v => exact Option.filter_some

end Table

/-- A row but for its update time. -/
def CompanyDocument.timeless (doc : CompanyDocument) : CompanyDocument := { doc with updatedAt := 0 }

/-- The rows of the read model. -/
abbrev CompanyDocuments := Table (Uuid × String × String) CompanyDocument

namespace SyncLog
variable {codec : Codec}

/-- Records folded over the read model, one after the other. -/
def foldRecords (codec : Codec) (env : Env) (company : Uuid) (records : List MutationRecord)
    (log : SyncLog) : SyncLog :=
  records.foldl (fun log record => applyProjection codec env company record log) log

/-- `MemStore::rebuild_projection`. -/
def rebuildProjection (codec : Codec) (env : Env) (company : Uuid) (log : SyncLog) : SyncLog :=
  let retained := { log with
    companyDocuments := log.companyDocuments.retain fun key => key.1 ≠ company }
  let rows := (log.mutations.log company).map fun m => (m.version, m.record)
  let rows := rows.insertionSort fun a b => a.1 ≤ b.1
  foldRecords codec env company (rows.map Prod.snd) retained

/-- The fold of a company's log from the empty table. -/
def foldedLog (codec : Codec) (env : Env) (company : Uuid) (log : SyncLog) : CompanyDocuments :=
  (foldRecords codec env company (log.records company) {}).companyDocuments

/-- The row of one document: `fold_mutation` over the records that name it, in their order, from no row. -/
def foldedAt (codec : Codec) (env : Env) (company : Uuid) (records : List MutationRecord)
    (doctype id : String) : Option CompanyDocument :=
  records.foldl (fun row record =>
    if (record.docType, record.documentId) = (doctype, id) then foldedRow codec env company record row else row) none

/-- The rows of a company are the same in two tables, up to their update times. -/
def SameRows (company : Uuid) (rows rows' : CompanyDocuments) : Prop :=
  ∀ doctype id, (AList.lookup (company, doctype, id) rows).map CompanyDocument.timeless =
    (AList.lookup (company, doctype, id) rows').map CompanyDocument.timeless

section SameRows
variable {company : Uuid} {rows rows' rows'' : CompanyDocuments}

theorem SameRows.refl (company : Uuid) (rows : CompanyDocuments) : SameRows company rows rows :=
  fun _ _ => rfl

theorem SameRows.symm (h : SameRows company rows rows') : SameRows company rows' rows :=
  fun doctype id => (h doctype id).symm

theorem SameRows.trans (h : SameRows company rows rows') (h' : SameRows company rows' rows'') :
    SameRows company rows rows'' :=
  fun doctype id => (h doctype id).trans (h' doctype id)

end SameRows

/-- The row a record leaves depends on the update time neither of the row before nor of the step. -/
theorem foldedRow_timeless (env env' : Env) (company : Uuid) (record : MutationRecord)
    {row row' : Option CompanyDocument}
    (h : row.map CompanyDocument.timeless = row'.map CompanyDocument.timeless) :
    (foldedRow codec env company record row).map CompanyDocument.timeless =
      (foldedRow codec env' company record row').map CompanyDocument.timeless := by
  -- the fold reads the children and the docstatus of the row
  have hchildren : (row.bind fun doc => doc.children) = row'.bind fun doc => doc.children := by
    have hread := congrArg (fun row : Option CompanyDocument => row.bind fun doc => doc.children) h
    simpa [Option.bind_map, Function.comp_def, CompanyDocument.timeless] using hread
  have hdocstatus : (row.map fun doc => doc.docstatus) = row'.map fun doc => doc.docstatus := by
    have hread := congrArg (fun row : Option CompanyDocument => row.map fun doc => doc.docstatus) h
    simpa [Function.comp_def, CompanyDocument.timeless] using hread
  simp only [foldedRow, foldMutation, hchildren, hdocstatus]
  cases record.mutationType <;> first | rfl | exact h

section Fold
variable {company : Uuid} {log log' : SyncLog}

theorem SameRows.applyProjection (env env' : Env) (record : MutationRecord)
    (h : SameRows company log.companyDocuments log'.companyDocuments) :
    SameRows company (SyncLog.applyProjection codec env company record log).companyDocuments
      (SyncLog.applyProjection codec env' company record log').companyDocuments := by
  intro doctype id
  rw [lookup_applyProjection, lookup_applyProjection]
  split_ifs
  · exact foldedRow_timeless env env' company record (h doctype id)
  · exact h doctype id

/-- Tables that agree on a company agree after the same records. -/
theorem SameRows.foldRecords (env env' : Env) (records : List MutationRecord)
    (h : SameRows company log.companyDocuments log'.companyDocuments) :
    SameRows company (SyncLog.foldRecords codec env company records log).companyDocuments
      (SyncLog.foldRecords codec env' company records log').companyDocuments := by
  induction records generalizing log log' with
  | nil => exact h
  | cons record records ih => exact ih (h.applyProjection env env' record)

/-- Folding records writes the read model and nothing else. -/
theorem foldRecords_eq (env : Env) (records : List MutationRecord) :
    foldRecords codec env company records log = { log with
      companyDocuments := (foldRecords codec env company records log).companyDocuments } := by
  induction records generalizing log with
  | nil => rfl
  | cons record records ih =>
    have hfirst := applyProjection_eq codec env company record log
    rw [foldRecords, List.foldl_cons, ← foldRecords, ih, hfirst]

/-- Folding a company's records leaves the rows of the others alone. -/
theorem lookup_foldRecords_ne (env : Env) (records : List MutationRecord)
    {key : Uuid × String × String} (hkey : key.1 ≠ company) :
    AList.lookup key (foldRecords codec env company records log).companyDocuments =
      AList.lookup key log.companyDocuments := by
  induction records generalizing log with
  | nil => rfl
  | cons record records ih =>
    rw [foldRecords, List.foldl_cons, ← foldRecords, ih, lookup_applyProjection, if_neg]
    rintro rfl
    exact hkey rfl

/-- The fold of a log, document by document. -/
theorem lookup_foldedLog (env : Env) (doctype id : String) :
    AList.lookup (company, doctype, id) (log.foldedLog codec env company) =
      foldedAt codec env company (log.records company) doctype id := by
  rw [foldedLog]
  induction log.records company using List.reverseRecOn with
  | nil => rfl
  | append_singleton records record ih =>
    have hrow : AList.lookup (company, doctype, id) (SyncLog.applyProjection codec env company record
        (SyncLog.foldRecords codec env company records {})).companyDocuments =
      if (record.docType, record.documentId) = (doctype, id) then
        foldedRow codec env company record (foldedAt codec env company records doctype id)
      else foldedAt codec env company records doctype id := by
      rw [lookup_applyProjection, ih]
      simp only [Prod.mk.injEq, true_and, eq_comm]
    rw [SyncLog.foldRecords, List.foldl_append, foldedAt, List.foldl_append]
    exact hrow

end Fold

/-! ### The read model is the fold of the log -/

/-- The rows of a company are the fold of its log. -/
def FoldsLog (codec : Codec) (log : SyncLog) (company : Uuid) : Prop :=
  ∀ env, SameRows company log.companyDocuments (log.foldedLog codec env company)

theorem foldsLog_empty (codec : Codec) (company : Uuid) : FoldsLog codec {} company :=
  fun _ => SameRows.refl company _

section Append
variable {log log' : SyncLog} {env : Env} {company : Uuid} {record : MutationRecord}

/-- One appended record moves the table and the fold alike. -/
theorem FoldsLog.appended (h : FoldsLog codec log company)
    (happ : Appended codec env company record log log') : FoldsLog codec log' company := by
  intro env'
  have hrecords : log'.records company = log.records company ++ [record] := by
    rw [records, happ.mutations, Table.log_extend_self, List.map_append]
    rfl
  have hfold : log'.foldedLog codec env' company = (applyProjection codec env' company record
      (foldRecords codec env' company (log.records company) {})).companyDocuments := by
    rw [foldedLog, hrecords, foldRecords, List.foldl_append]
    rfl
  rw [happ.documents, hfold]
  exact (h env').applyProjection env env' record

theorem FoldsLog.appended_ne {company' : Uuid} (h : FoldsLog codec log company')
    (hne : company' ≠ company) (happ : Appended codec env company record log log') :
    FoldsLog codec log' company' := by
  intro env'
  have hfold : log'.foldedLog codec env' company' = log.foldedLog codec env' company' := by
    rw [foldedLog, foldedLog, records, records, (happ.other hne).1]
  rw [happ.documents, hfold]
  intro doctype id
  rw [lookup_applyProjection, if_neg fun heq => hne (Prod.mk.inj heq).1]
  exact h env' doctype id

/-- A record keeps the read model of every company. -/
theorem FoldsLog.appendMutation {company' : Uuid} (h : FoldsLog codec log company') :
    FoldsLog codec (SyncLog.appendMutation codec env company log record) company' := by
  rcases appendMutation_cases codec env company log record with ⟨version, -, hsame⟩ | ⟨-, happ⟩
  · rw [hsame]
    exact h
  · by_cases hcompany : company' = company
    · subst hcompany
      exact h.appended happ
    · exact h.appended_ne hcompany happ

theorem FoldsLog.appendMutations {company' : Uuid} (h : FoldsLog codec log company')
    (records : List MutationRecord) :
    FoldsLog codec (log.appendMutations codec env company records) company' := by
  induction records generalizing log with
  | nil => exact h
  | cons record records ih => exact ih h.appendMutation

end Append

section Rebuild
variable {log : SyncLog} {company : Uuid}

/-- A rebuild writes the read model and nothing else. -/
theorem rebuildProjection_eq (env : Env) (log : SyncLog) (company : Uuid) :
    log.rebuildProjection codec env company = { log with
      companyDocuments := (log.rebuildProjection codec env company).companyDocuments } := by
  rw [rebuildProjection, foldRecords_eq]

/-- A rebuild leaves the rows of other companies alone. -/
theorem lookup_rebuildProjection_ne (env : Env) {key : Uuid × String × String}
    (hkey : key.1 ≠ company) :
    AList.lookup key (log.rebuildProjection codec env company).companyDocuments =
      AList.lookup key log.companyDocuments := by
  rw [rebuildProjection, lookup_foldRecords_ne env _ hkey, Table.lookup_retain]
  simp [hkey]

/-- A rebuild makes the rows of the company the fold of its log. -/
theorem Kept.rebuildProjection_folded (hkept : log.Kept company) (env env' : Env) :
    SameRows company (log.rebuildProjection codec env company).companyDocuments
      (log.foldedLog codec env' company) := by
  have hsorted : ((log.mutations.log company).map fun m => (m.version, m.record)).Pairwise
      fun a b => a.1 ≤ b.1 := by
    rw [List.pairwise_map]
    exact hkept.counts.sorted
  have hrecords : ((log.mutations.log company).map fun m => (m.version, m.record)).map Prod.snd =
      log.records company := by
    rw [List.map_map]
    rfl
  rw [rebuildProjection, hsorted.insertionSort_eq, hrecords]
  refine SameRows.foldRecords env env' (log.records company) fun doctype id => ?_
  -- nothing of the company was retained
  rw [Table.lookup_retain]
  simp

/-- Where the read model follows the log, a rebuild changes update times at most. -/
theorem rebuildProjection_sameRows (hkept : log.Kept company) (h : FoldsLog codec log company)
    (env : Env) :
    SameRows company (log.rebuildProjection codec env company).companyDocuments
      log.companyDocuments :=
  (hkept.rebuildProjection_folded env env).trans (h env).symm

/-- A rebuild keeps the log of every company. -/
theorem Kept.rebuildProjection {company' : Uuid} (h : log.Kept company') (env : Env) :
    (log.rebuildProjection codec env company).Kept company' := by
  rw [rebuildProjection_eq]
  exact ⟨h.versions, h.ids, h.counter, h.chain, h.known⟩

/-- A rebuild keeps the read model of every company. -/
theorem FoldsLog.rebuildProjection {company' : Uuid} (hkept : log.Kept company')
    (h : FoldsLog codec log company') (env : Env) :
    FoldsLog codec (log.rebuildProjection codec env company) company' := by
  intro env'
  have hfold : (log.rebuildProjection codec env company).foldedLog codec env' company' =
      log.foldedLog codec env' company' := by
    rw [foldedLog, foldedLog, records, records, rebuildProjection_eq]
  rw [hfold]
  by_cases hcompany : company' = company
  · subst hcompany
    exact hkept.rebuildProjection_folded env env'
  · intro doctype id
    rw [lookup_rebuildProjection_ne env hcompany]
    exact h env' doctype id

end Rebuild

end SyncLog

end AtlasTeam
