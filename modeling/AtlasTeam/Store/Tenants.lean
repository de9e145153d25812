import AtlasTeam.Lib.TableSlice
import AtlasTeam.Store.Deposits
import AtlasTeam.Store.HistoryChain
import AtlasTeam.Store.Pull
import AtlasTeam.Store.Rebuild

/-!
# Tenants do not interfere

`SameTenant company` relates two stores that hold the same rows of a company and anything else besides.
An operation on a company reads its rows only, so it answers alike on both and leaves them related; and it
writes its rows only, so every other company sees the store before and after as the same. Both are one
relation, step by step through the log, the checks and the writes of a commit, and the commands. The
documents are walked in no order of their own, and the refusal of a deposit's cancel names the payments in
the order they are met (`depositGuardViolation_perm`).
-/

namespace AtlasTeam

open TableSlice (SameUnder under)

/-- Two logs with the same entries, versions, links and rows of a company. -/
structure SyncLog.SameTenant (company : Uuid) (log log' : SyncLog) : Prop where
  mutations : log.mutations.log company = log'.mutations.log company
  mutationVersions : SameUnder company log.mutationVersions log'.mutationVersions
  counters : AList.lookup company log.counters = AList.lookup company log'.counters
  chain : log.chain.log company = log'.chain.log company
  companyDocuments : SameUnder company log.companyDocuments log'.companyDocuments

/-- Two stores with the same rows of a company. -/
structure Inner.SameTenant (company : Uuid) (inner inner' : Inner) : Prop where
  syncLog : SyncLog.SameTenant company inner.toSyncLog inner'.toSyncLog
  historyRecoveries : SameUnder company inner.historyRecoveries inner'.historyRecoveries
  audit : (inner.audit.filter fun entry => entry.companyId = company) =
    inner'.audit.filter fun entry => entry.companyId = company
  settings : AList.lookup company inner.settings = AList.lookup company inner'.settings
  items : SameUnder company inner.items inner'.items
  documents : SameUnder company inner.documents inner'.documents
  glEntries : inner.glEntries.log company = inner'.glEntries.log company
  stockLedger : inner.stockLedger.log company = inner'.stockLedger.log company
  sleSeq : AList.lookup company inner.sleSeq = AList.lookup company inner'.sleSeq
  bins : SameUnder company inner.bins inner'.bins
  partyTransactions : inner.partyTransactions.log company = inner'.partyTransactions.log company
  taxTransactions : inner.taxTransactions.log company = inner'.taxTransactions.log company
  settlements : inner.settlements.log company = inner'.settlements.log company
  batches : SameUnder company inner.batches inner'.batches
  series : SameUnder company inner.series inner'.series
  soloMigrations : AList.lookup company inner.soloMigrations = AList.lookup company inner'.soloMigrations
  idempotency : SameUnder company inner.idempotency inner'.idempotency

/-! ### The log -/

namespace SyncLog
variable {codec : Codec} {env : Env} {company other : Uuid} {log log' : SyncLog}

theorem SameTenant.refl (company : Uuid) (log : SyncLog) : SameTenant company log log :=
  ⟨rfl, .refl _ _, rfl, rfl, .refl _ _⟩

theorem SameTenant.trans {log'' : SyncLog} (h : SameTenant company log log')
    (h' : SameTenant company log' log'') : SameTenant company log log'' where
  mutations := h.mutations.trans h'.mutations
  mutationVersions := h.mutationVersions.trans h'.mutationVersions
  counters := h.counters.trans h'.counters
  chain := h.chain.trans h'.chain
  companyDocuments := h.companyDocuments.trans h'.companyDocuments

theorem SameTenant.counter (h : SameTenant company log log') :
    log.counter company = log'.counter company := by
  rw [SyncLog.counter, SyncLog.counter, h.counters]

theorem SameTenant.answeredVersion (h : SameTenant company log log') (record : MutationRecord) :
    log.answeredVersion company record = log'.answeredVersion company record := by
  rw [SyncLog.answeredVersion, SyncLog.answeredVersion, h.mutationVersions record.id, h.counter]

theorem sameUnder_applyProjection (h : SameUnder company log.companyDocuments log'.companyDocuments)
    (record : MutationRecord) :
    SameUnder company (applyProjection codec env company record log).companyDocuments
      (applyProjection codec env company record log').companyDocuments := by
  intro key
  rw [lookup_applyProjection, lookup_applyProjection, h key]

theorem sameUnder_applyProjection_ne (hother : other ≠ company) (record : MutationRecord) :
    SameUnder other (applyProjection codec env company record log).companyDocuments
      log.companyDocuments := by
  intro key
  rw [lookup_applyProjection, if_neg fun heq => hother (Prod.mk.inj heq).1]

/-- Appending a record reads the company's rows and writes them. -/
theorem SameTenant.appendMutation (h : SameTenant company log log') (record : MutationRecord) :
    SameTenant company (SyncLog.appendMutation codec env company log record)
      (SyncLog.appendMutation codec env company log' record) := by
  have hversions := h.mutationVersions record.id
  rcases appendMutation_cases codec env company log record with ⟨version, hknown, hsame⟩ | ⟨hnew, happ⟩ <;>
    rcases appendMutation_cases codec env company log' record with
      ⟨version', hknown', hsame'⟩ | ⟨hnew', happ'⟩
  · rw [hsame, hsame']
    exact h
  · exact absurd (hknown.symm.trans (hversions.trans hnew')) (by simp)
  · exact absurd (hknown'.symm.trans (hversions.symm.trans hnew)) (by simp)
  · constructor
    · rw [happ.mutations, happ'.mutations, Table.log_extend_self, Table.log_extend_self, h.mutations,
        h.counter]
    · rw [happ.versions, happ'.versions, h.counter]
      exact h.mutationVersions.insert _ _
    · rw [happ.counters, happ'.counters, AList.lookup_insert, AList.lookup_insert, h.counter]
    · rw [appendMutation_chain hnew, appendMutation_chain hnew', Table.log_extend_self,
        Table.log_extend_self, h.chain, h.counter]
    · rw [happ.documents, happ'.documents]
      exact sameUnder_applyProjection h.companyDocuments record

/-- No other company sees it. -/
theorem sameTenant_appendMutation_ne (hother : other ≠ company) (record : MutationRecord) :
    SameTenant other (SyncLog.appendMutation codec env company log record) log := by
  rcases appendMutation_cases codec env company log record with ⟨version, -, hsame⟩ | ⟨hnew, happ⟩
  · rw [hsame]
    exact SameTenant.refl _ _
  · constructor
    · rw [happ.mutations, Table.log_extend_ne _ hother]
    · rw [happ.versions]
      exact TableSlice.sameUnder_insert_ne hother _ _
    · rw [happ.counters, AList.lookup_insert_ne hother]
    · rw [appendMutation_chain hnew, Table.log_extend_ne _ hother]
    · rw [happ.documents]
      exact sameUnder_applyProjection_ne hother record

/-- A push answers the same versions and leaves the same log. -/
theorem SameTenant.appendAnswered (h : SameTenant company log log') (records : List MutationRecord) :
    (log.appendAnswered codec env company records).1 =
        (log'.appendAnswered codec env company records).1 ∧
      SameTenant company (log.appendAnswered codec env company records).2
        (log'.appendAnswered codec env company records).2 := by
  induction records generalizing log log' with
  | nil => exact ⟨rfl, h⟩
  | cons record records ih =>
    obtain ⟨hanswers, hafter⟩ := ih (h.appendMutation record)
    refine ⟨?_, hafter⟩
    simp only [SyncLog.appendAnswered, hanswers, h.answeredVersion record]

theorem SameTenant.appendMutations (h : SameTenant company log log') (records : List MutationRecord) :
    SameTenant company (log.appendMutations codec env company records)
      (log'.appendMutations codec env company records) := by
  rw [← appendAnswered_log, ← appendAnswered_log]
  exact (h.appendAnswered records).2

theorem sameTenant_appendMutations_ne (hother : other ≠ company) (records : List MutationRecord) :
    SameTenant other (log.appendMutations codec env company records) log := by
  induction records generalizing log with
  | nil => exact SameTenant.refl _ _
  | cons record records ih => exact ih.trans (sameTenant_appendMutation_ne hother record)

theorem sameUnder_foldRecords (h : SameUnder company log.companyDocuments log'.companyDocuments)
    (records : List MutationRecord) :
    SameUnder company (foldRecords codec env company records log).companyDocuments
      (foldRecords codec env company records log').companyDocuments := by
  induction records generalizing log log' with
  | nil => exact h
  | cons record records ih => exact ih (sameUnder_applyProjection h record)

theorem SameTenant.rebuildProjection (h : SameTenant company log log') :
    SameTenant company (log.rebuildProjection codec env company)
      (log'.rebuildProjection codec env company) := by
  rw [rebuildProjection_eq, rebuildProjection_eq env log']
  refine ⟨h.mutations, h.mutationVersions, h.counters, h.chain, ?_⟩
  rw [SyncLog.rebuildProjection, SyncLog.rebuildProjection, h.mutations]
  refine sameUnder_foldRecords (fun key => ?_) _
  -- none of the company's rows is retained
  rw [Table.lookup_retain, Table.lookup_retain]
  simp

theorem sameTenant_rebuildProjection_ne (hother : other ≠ company) :
    SameTenant other (log.rebuildProjection codec env company) log := by
  rw [rebuildProjection_eq]
  exact ⟨rfl, .refl _ _, rfl, rfl, fun key => lookup_rebuildProjection_ne env hother⟩

theorem SameTenant.pullMutations (h : SameTenant company log log') (after limit : Int) :
    log.pullMutations company after limit = log'.pullMutations company after limit := by
  simp only [SyncLog.pullMutations, h.mutations]

theorem SameTenant.historyCheckpoint (h : SameTenant company log log') (at_ : Int) :
    log.historyCheckpoint company at_ = log'.historyCheckpoint company at_ := by
  simp only [SyncLog.historyCheckpoint, SyncLog.hashAt, h.chain, h.counter]

end SyncLog

/-! ### What the engine reads -/

/-- A store as one company reads it. -/
def StoreView.only (view : StoreView) (company : Uuid) : StoreView where
  companySettings _ := view.companySettings company
  items _ := view.items company
  postedDocument _ := view.postedDocument company
  slesForPair _ := view.slesForPair company
  slesForVoucher _ := view.slesForVoucher company
  glForVoucher _ := view.glForVoucher company
  partyTransactionsForVoucher _ := view.partyTransactionsForVoucher company
  taxTransactionsForVoucher _ := view.taxTransactionsForVoucher company
  settlementsForInvoice _ := view.settlementsForInvoice company
  settlementsForPayment _ := view.settlementsForPayment company
  idempotentResponse _ := view.idempotentResponse company
  depositApplications _ := view.depositApplications company
  companyDocument _ := view.companyDocument company

/-- A guard sees the order of the applications in the names of a refused release alone. -/
theorem depositGuardViolation_perm {guard : DepositGuard} (deposit : Option PostedDocument)
    {applications applications' : List PostedDocument} (hperm : applications.Perm applications')
    (hnames : ∀ depositId, guard = .release depositId →
      (applications.filter fun p => p.docstatus = 1).map PostedDocument.id =
        (applications'.filter fun p => p.docstatus = 1).map PostedDocument.id) :
    depositGuardViolation guard deposit applications = depositGuardViolation guard deposit applications' := by
  cases guard with
  | apply depositId customer amount =>
    have hsum := ((hperm.filter fun p => p.docstatus = 1).map fun p =>
      asNum (p.payload.get "paid_amount")).sum_eq
    simp only [depositGuardViolation, hsum]
  | release depositId => simp only [depositGuardViolation, hnames depositId rfl]

namespace Command
variable {codec : Codec} {view : StoreView} {company : Uuid} {actor : Actor}

/-- Every read of a command is made for its company. -/
theorem start_only (command : Command) : command.start codec view company actor =
    command.start codec (view.only company) company actor := by
  cases command <;> rfl

theorem build_only (command : Command) (env : Env) (documentId : String) :
    command.build codec view env company actor documentId =
      command.build codec (view.only company) env company actor documentId := by
  cases command <;> rfl

/-- A commit is of the command's company, with its audit row and its document. -/
theorem build_company {command : Command} {env : Env} {documentId : String} {commit : PostingCommit}
    (h : command.build codec view env company actor documentId = .ok commit) :
    commit.companyId = company ∧ commit.audit.companyId = company := by
  cases command with
  | submit cmd =>
    obtain ⟨prepared, shortfalls, settlements, updates, -, -, -, rfl⟩ := buildSubmit_ok h
    exact ⟨rfl, rfl⟩
  | cancel cmd =>
    obtain ⟨doc, postingDate, guard, updates, -, -, -, -, -, rfl⟩ := buildCancel_ok h
    exact ⟨rfl, rfl⟩
  | takeOn cmd =>
    obtain ⟨postingDate, stock, tb, continuations, -, -, rfl⟩ := buildOpening_ok h
    exact ⟨rfl, rfl⟩

/-- Only the cancel of a deposit releases it. -/
theorem build_release {command : Command} {env : Env} {documentId : String} {commit : PostingCommit}
    (h : command.build codec view env company actor documentId = .ok commit) {depositId : String}
    (hguard : commit.depositGuard = some (.release depositId)) :
    ∃ cmd, command = .cancel cmd ∧ cmd.doctype = "Customer Deposit" ∧ cmd.documentId = depositId := by
  cases command with
  | submit cmd =>
    exfalso
    obtain ⟨prepared, shortfalls, settlements, updates, hprepared, -, -, rfl⟩ := buildSubmit_ok h
    replace hguard : prepared.depositGuard = some (.release depositId) := hguard
    obtain ⟨payload, -, hdeposit, -⟩ := preparePayload_ok hprepared
    rw [applyDeposit] at hdeposit
    split_ifs at hdeposit
    · rcases depositApplication_ok hdeposit with ⟨-, -, hnone⟩ | ⟨_, customer, -, -, happly, -⟩
      · cases hnone.symm.trans hguard
      · cases happly.symm.trans hguard
    · cases (Prod.mk.inj (Except.ok.inj hdeposit)).2.trans hguard
  | takeOn cmd =>
    obtain ⟨postingDate, stock, tb, continuations, -, -, rfl⟩ := buildOpening_ok h
    cases hguard
  | cancel cmd =>
    obtain ⟨doc, date, -, -, -, -, hrelease⟩ := buildCancel_date h
    rw [hguard, releaseDeposit] at hrelease
    split_ifs at hrelease with hdeposit
    · dsimp only at hrelease
      split at hrelease
      · cases hrelease
      · obtain ⟨rfl⟩ := DepositGuard.release.inj (Option.some.inj (Except.ok.inj hrelease))
        exact ⟨cmd, rfl, hdeposit, rfl⟩
    · cases hrelease

section Applications
variable {applications : Uuid → String → List PostedDocument}
  (hperm : ∀ depositId, (view.depositApplications company depositId).Perm (applications company depositId))
include hperm

/-- A submit does not see the order of a deposit's applications. -/
theorem buildSubmit_applications (env : Env) (cmd : SubmitCommand) (documentId : String) :
    buildSubmit codec { view with depositApplications := applications } env company cmd documentId actor =
      buildSubmit codec view env company cmd documentId actor := by
  have hviolation : ∀ depositId customer amount deposit,
      depositGuardViolation (.apply depositId customer amount) deposit (applications company depositId) =
        depositGuardViolation (.apply depositId customer amount) deposit
          (view.depositApplications company depositId) := by
    intro depositId customer amount deposit
    exact depositGuardViolation_perm deposit (hperm depositId).symm fun _ h => by cases h
  have happlication : ∀ payload, depositApplication { view with depositApplications := applications } company
      payload = depositApplication view company payload := by
    intro payload
    simp only [depositApplication, hviolation]
  have hprepare : preparePayload { view with depositApplications := applications } env company cmd documentId =
      preparePayload view env company cmd documentId := by
    simp only [preparePayload, applyDeposit, happlication]
  unfold buildSubmit
  rw [hprepare]
  rfl

/-- Nor does a cancel, but for the names in its refusal. -/
theorem buildCancel_applications (env : Env) (cmd : CancelCommand)
    (hnames : cmd.doctype = "Customer Deposit" →
      ((view.depositApplications company cmd.documentId).filter fun p => p.docstatus = 1).map
          PostedDocument.id =
        ((applications company cmd.documentId).filter fun p => p.docstatus = 1).map PostedDocument.id) :
    buildCancel { view with depositApplications := applications } env company cmd actor =
      buildCancel view env company cmd actor := by
  have hrelease : ∀ document, releaseDeposit { view with depositApplications := applications } company cmd
      document = releaseDeposit view company cmd document := by
    intro document
    unfold releaseDeposit
    split_ifs with hdeposit
    · simp only [depositGuardViolation_perm (some document) (hperm cmd.documentId)
        fun _ _ => hnames hdeposit]
    · rfl
  unfold buildCancel
  simp only [hrelease]
  rfl

end Applications

end Command

namespace Inner
variable {company other : Uuid} {inner inner' : Inner}

theorem SameTenant.refl (company : Uuid) (inner : Inner) : SameTenant company inner inner where
  syncLog := SyncLog.SameTenant.refl _ _
  historyRecoveries := .refl _ _
  audit := rfl
  settings := rfl
  items := .refl _ _
  documents := .refl _ _
  glEntries := rfl
  stockLedger := rfl
  sleSeq := rfl
  bins := .refl _ _
  partyTransactions := rfl
  taxTransactions := rfl
  settlements := rfl
  batches := .refl _ _
  series := .refl _ _
  soloMigrations := rfl
  idempotency := .refl _ _

theorem SameTenant.trans {inner'' : Inner} (h : SameTenant company inner inner')
    (h' : SameTenant company inner' inner'') : SameTenant company inner inner'' where
  syncLog := h.syncLog.trans h'.syncLog
  historyRecoveries := h.historyRecoveries.trans h'.historyRecoveries
  audit := h.audit.trans h'.audit
  settings := h.settings.trans h'.settings
  items := h.items.trans h'.items
  documents := h.documents.trans h'.documents
  glEntries := h.glEntries.trans h'.glEntries
  stockLedger := h.stockLedger.trans h'.stockLedger
  sleSeq := h.sleSeq.trans h'.sleSeq
  bins := h.bins.trans h'.bins
  partyTransactions := h.partyTransactions.trans h'.partyTransactions
  taxTransactions := h.taxTransactions.trans h'.taxTransactions
  settlements := h.settlements.trans h'.settlements
  batches := h.batches.trans h'.batches
  series := h.series.trans h'.series
  soloMigrations := h.soloMigrations.trans h'.soloMigrations
  idempotency := h.idempotency.trans h'.idempotency

/-- The payments that the refusal of a deposit's cancel names, as the walk over the documents meets them. -/
def liveNames (inner : Inner) (company : Uuid) (depositId : String) : List String :=
  (inner.liveApplications company depositId).map PostedDocument.id

/-- The applications of a deposit are met in the order of the company's documents. -/
theorem depositApplications_eq_under (inner : Inner) (depositId : String) :
    inner.depositApplications company depositId =
      (((under company inner.documents).filter fun e => e.1.2.1 = "Payment Entry" &&
        ((e.2.payload.get "deposit").bind Value.asStr).map trim = some depositId).map Sigma.snd) := by
  rw [Inner.depositApplications, under, List.filter_filter]
  congr 1
  refine List.filter_congr fun e _ => ?_
  rw [Bool.and_assoc, Bool.and_comm]

section Reads
variable (h : SameTenant company inner inner')
include h

theorem SameTenant.document (doctype id : String) :
    AList.lookup (company, doctype, id) inner.documents =
      AList.lookup (company, doctype, id) inner'.documents :=
  h.documents (doctype, id)

theorem SameTenant.depositApplications (depositId : String) :
    (inner.depositApplications company depositId).Perm (inner'.depositApplications company depositId) := by
  rw [inner.depositApplications_eq_under, inner'.depositApplications_eq_under]
  exact (h.documents.under_perm.filter _).map _

/-- The engine reads the same of both, but for the order of a deposit's applications. -/
theorem SameTenant.view : inner'.view.only company =
    { inner.view.only company with depositApplications := fun _ => inner'.depositApplications company } := by
  have hsettings : inner.companySettings company = inner'.companySettings company := by
    rw [Inner.companySettings, Inner.companySettings, h.settings]
  have hitems : ∀ id, AList.lookup (company, id) inner.items = AList.lookup (company, id) inner'.items :=
    h.items
  have hkeys : ∀ key, AList.lookup (company, key) inner.idempotency =
      AList.lookup (company, key) inner'.idempotency := h.idempotency
  have hrows : ∀ doctype id, AList.lookup (company, doctype, id) inner.companyDocuments =
      AList.lookup (company, doctype, id) inner'.companyDocuments :=
    fun doctype id => h.syncLog.companyDocuments (doctype, id)
  simp only [StoreView.only, Inner.view, hsettings, hitems, h.document, h.stockLedger, h.glEntries,
    h.partyTransactions, h.taxTransactions, h.settlements, hkeys, hrows]

end Reads

/-! ### The checks of a commit -/

section Checks
variable {commit : PostingCommit} (h : SameTenant commit.companyId inner inner')
  (hnames : ∀ depositId, commit.depositGuard = some (.release depositId) →
    inner.liveNames commit.companyId depositId = inner'.liveNames commit.companyId depositId)
include h

theorem SameTenant.replayed : inner.replayed commit = inner'.replayed commit := by
  have hkeys : ∀ key, AList.lookup (commit.companyId, key) inner.idempotency =
      AList.lookup (commit.companyId, key) inner'.idempotency := h.idempotency
  simp only [Inner.replayed, hkeys]

theorem SameTenant.checkSolo : inner.checkSolo commit = inner'.checkSolo commit := by
  have hany := h.documents.any_eq fun _ => true
  simp only [Bool.and_true] at hany
  simp only [Inner.checkSolo, hany, h.soloMigrations]

include hnames in
theorem SameTenant.checkDeposit : inner.checkDeposit commit = inner'.checkDeposit commit := by
  cases hguard : commit.depositGuard with
  | none => simp only [Inner.checkDeposit, hguard]
  | some guard =>
    have hviolation : ∀ deposit, depositGuardViolation guard deposit
        (inner.depositApplications commit.companyId guard.depositId) = depositGuardViolation guard deposit
          (inner'.depositApplications commit.companyId guard.depositId) := by
      intro deposit
      refine depositGuardViolation_perm deposit (h.depositApplications _) fun depositId hrelease => ?_
      subst hrelease
      exact hnames depositId hguard
    simp only [Inner.checkDeposit, hguard, h.document, hviolation]

include hnames in
theorem SameTenant.checkCommit : inner.checkCommit commit = inner'.checkCommit commit := by
  have hlock : inner.checkLock commit = inner'.checkLock commit := by
    simp only [Inner.checkLock, h.settings]
  have hcount : ∀ item warehouse, inner.pairCount commit.companyId item warehouse =
      inner'.pairCount commit.companyId item warehouse := by
    intro item warehouse
    rw [Inner.pairCount, Inner.pairCount, h.stockLedger]
  have hexpectations : inner.checkExpectations commit = inner'.checkExpectations commit := by
    simp only [Inner.checkExpectations, hcount]
  have hdocument : inner.checkDocument commit = inner'.checkDocument commit := by
    simp only [Inner.checkDocument, Inner.docKey, h.document]
  have hpreassigned : inner.checkPreassigned commit = inner'.checkPreassigned commit := by
    simp only [Inner.checkPreassigned, Bool.and_assoc, h.documents.any_eq]
  have htill : inner.checkTill commit = inner'.checkTill commit := by
    simp only [Inner.checkTill, Bool.and_assoc, h.documents.any_eq]
  simp only [Inner.checkCommit, hlock, h.checkDeposit hnames, h.checkSolo, hexpectations, hdocument,
    hpreassigned, htill]

end Checks

/-! ### The writes of a commit -/

section Writes
variable {commit : PostingCommit}

theorem counter_eq {series series' : Series} (h : SameUnder company series series') (key : String) :
    series.counter company key = series'.counter company key := by
  rw [Series.counter, Series.counter, h key]

/-- The next number is the company's own. -/
theorem allocateNumber_same {series series' : Series} (h : SameUnder commit.companyId series series') :
    (allocateNumber commit series).1 = (allocateNumber commit series').1 ∧
      SameUnder commit.companyId (allocateNumber commit series).2 (allocateNumber commit series').2 := by
  unfold allocateNumber
  cases commit.seriesKey with
  | none => exact ⟨rfl, h⟩
  | some key =>
    simp only [counter_eq h key]
    exact ⟨trivial, h.insert _ _⟩

theorem allocateNumber_ne (hother : other ≠ commit.companyId) (series : Series) :
    SameUnder other (allocateNumber commit series).2 series := by
  unfold allocateNumber
  cases commit.seriesKey with
  | none => exact .refl _ _
  | some key => exact TableSlice.sameUnder_insert_ne hother _ _

theorem raiseFloors_same {series series' : Series} (h : SameUnder company series series')
    (floors : List (String × Int)) :
    SameUnder company (raiseFloors company floors series) (raiseFloors company floors series') := by
  refine h.foldl (fun series series' floor h => ?_) floors
  rw [raiseFloor, raiseFloor, counter_eq h floor.1]
  exact h.insert _ _

theorem raiseFloors_ne (hother : other ≠ company) (floors : List (String × Int)) (series : Series) :
    SameUnder other (raiseFloors company floors series) series :=
  TableSlice.sameUnder_foldl_ne (fun _ _ => TableSlice.sameUnder_insert_ne hother _ _) floors series

theorem putBins_same {bins bins' : Table (Uuid × String × String) Bin}
    (h : SameUnder company bins bins') (rows : List Bin) :
    SameUnder company (rows.foldl (putBin company) bins) (rows.foldl (putBin company) bins') :=
  h.foldl (fun _ _ bin h => h.insert (bin.item, bin.warehouse) bin) rows

theorem putBins_ne (hother : other ≠ company) (rows : List Bin)
    (bins : Table (Uuid × String × String) Bin) :
    SameUnder other (rows.foldl (putBin company) bins) bins := by
  refine TableSlice.sameUnder_foldl_ne (fun bins bin => ?_) rows bins
  exact TableSlice.sameUnder_insert_ne hother (bin.item, bin.warehouse) bin

/-- Outstanding updates find the same invoices and write them alike. -/
theorem writeOutstandings_same {documents documents' : Documents}
    (h : SameUnder company documents documents')
    (updates : List (String × String × ℚ)) (touched : List PostedDocument) :
    (updates.foldl (writeOutstanding company) (touched, documents)).1 =
        (updates.foldl (writeOutstanding company) (touched, documents')).1 ∧
      SameUnder company (updates.foldl (writeOutstanding company) (touched, documents)).2
        (updates.foldl (writeOutstanding company) (touched, documents')).2 := by
  induction updates generalizing touched documents documents' with
  | nil => exact ⟨rfl, h⟩
  | cons update updates ih =>
    obtain ⟨doctype, id, outstanding⟩ := update
    have hlookup := h (doctype, id)
    simp only [List.foldl_cons, writeOutstanding, hlookup]
    cases hdoc : AList.lookup (company, doctype, id) documents' with
    | none => exact ih h touched
    | some doc => exact ih (h.insert (doctype, id) _) _

theorem writeOutstandings_ne (hother : other ≠ company) (updates : List (String × String × ℚ))
    (acc : List PostedDocument × Documents) :
    SameUnder other (updates.foldl (writeOutstanding company) acc).2 acc.2 := by
  induction updates generalizing acc with
  | nil => exact .refl _ _
  | cons update updates ih =>
    rw [List.foldl_cons]
    refine (ih _).trans ?_
    unfold writeOutstanding
    simp only
    split
    · exact TableSlice.sameUnder_insert_ne hother _ _
    · exact .refl _ _

section Same
variable (h : SameTenant commit.companyId inner inner')
include h

theorem SameTenant.numbered : numberedDocument commit inner = numberedDocument commit inner' ∧
    numberedResponse commit inner = numberedResponse commit inner' := by
  rw [numberedDocument, numberedDocument, numberedResponse, numberedResponse,
    (allocateNumber_same h.series).1]
  exact ⟨rfl, rfl⟩

theorem SameTenant.sequencedRows : sequencedRows commit inner = sequencedRows commit inner' := by
  rw [Inner.sequencedRows, Inner.sequencedRows, h.sleSeq]

theorem SameTenant.written :
    touchedDocuments commit inner = touchedDocuments commit inner' ∧
      SameUnder commit.companyId (writtenDocuments commit inner) (writtenDocuments commit inner') := by
  have hinsert : SameUnder commit.companyId
      (AList.insert (docKey commit) (numberedDocument commit inner) inner.documents)
      (AList.insert (docKey commit) (numberedDocument commit inner') inner'.documents) := by
    rw [h.numbered.1]
    exact h.documents.insert _ _
  exact writeOutstandings_same hinsert commit.outstandingUpdates []

theorem SameTenant.replicated (codec : Codec) (env : Env) :
    replicated codec env commit inner = replicated codec env commit inner' := by
  rw [Inner.replicated, Inner.replicated, h.numbered.1, h.sequencedRows, h.written.1]

end Same

/-- A commit applied to both leaves the company's rows the same. -/
theorem SameTenant.effects {codec : Codec} {env : Env} {after after' : Inner}
    (h : SameTenant commit.companyId inner inner') (he : Effects codec env commit inner after)
    (he' : Effects codec env commit inner' after') : SameTenant commit.companyId after after' where
  syncLog := by
    obtain ⟨records, hrecords, hlog⟩ := he.syncLog
    obtain ⟨records', hrecords', hlog'⟩ := he'.syncLog
    rw [← h.replicated] at hrecords'
    obtain rfl := Except.ok.inj (hrecords.symm.trans hrecords')
    rw [hlog, hlog']
    exact h.syncLog.appendMutations records
  historyRecoveries := by
    rw [he.applied.historyRecoveries, he'.applied.historyRecoveries]
    exact h.historyRecoveries
  audit := by
    rw [he.audit, he'.audit, List.filter_append, List.filter_append, h.audit]
  settings := by rw [he.applied.settings, he'.applied.settings, h.settings]
  items := by
    rw [he.applied.items, he'.applied.items]
    exact h.items
  documents := by
    rw [he.applied.documents, he'.applied.documents]
    exact h.written.2
  glEntries := by
    rw [he.applied.glEntries, he'.applied.glEntries, Table.log_extend_self, Table.log_extend_self,
      h.glEntries]
  stockLedger := by
    rw [he.applied.stockLedger, he'.applied.stockLedger, Table.log_extend_self, Table.log_extend_self,
      h.stockLedger, h.sequencedRows]
  sleSeq := by
    rw [he.applied.sleSeq, he'.applied.sleSeq, AList.lookup_insert, AList.lookup_insert, h.sleSeq,
      h.sequencedRows]
  bins := by
    rw [he.applied.bins, he'.applied.bins]
    exact putBins_same h.bins commit.bins
  partyTransactions := by
    rw [he.applied.partyTransactions, he'.applied.partyTransactions, Table.log_extend_self,
      Table.log_extend_self, h.partyTransactions]
  taxTransactions := by
    rw [he.applied.taxTransactions, he'.applied.taxTransactions, Table.log_extend_self,
      Table.log_extend_self, h.taxTransactions]
  settlements := by
    rw [he.applied.settlements, he'.applied.settlements, Table.log_extend_self, Table.log_extend_self,
      h.settlements]
  batches := by
    rw [he.batches, he'.batches]
    exact h.batches.insert _ _
  series := by
    rw [he.applied.series, he'.applied.series]
    exact raiseFloors_same (allocateNumber_same h.series).2 commit.numberingFloors
  soloMigrations := by
    rw [he.applied.soloMigrations, he'.applied.soloMigrations, markSolo, markSolo]
    cases commit.soloMigration with
    | none => exact h.soloMigrations
    | some mark => simp only [AList.lookup_insert]
  idempotency := by
    rw [he.idempotency, he'.idempotency, h.numbered.2]
    cases commit.idempotencyKey with
    | none => exact h.idempotency
    | some key => exact h.idempotency.insert _ _

/-- No other company sees a commit. -/
theorem sameTenant_effects_ne {codec : Codec} {env : Env} {after : Inner}
    (hother : other ≠ commit.companyId) (haudit : commit.audit.companyId = commit.companyId)
    (he : Effects codec env commit inner after) : SameTenant other after inner where
  syncLog := by
    obtain ⟨records, -, hlog⟩ := he.syncLog
    rw [hlog]
    exact SyncLog.sameTenant_appendMutations_ne hother records
  historyRecoveries := by
    rw [he.applied.historyRecoveries]
    exact .refl _ _
  audit := by
    have hne : ¬ commit.audit.companyId = other := fun h => hother (h.symm.trans haudit)
    rw [he.audit, List.filter_append, List.filter_cons_of_neg (by simp [hne]), List.filter_nil,
      List.append_nil]
  settings := by rw [he.applied.settings]
  items := by
    rw [he.applied.items]
    exact .refl _ _
  documents := by
    rw [he.applied.documents, writtenDocuments]
    exact (writeOutstandings_ne hother _ _).trans (TableSlice.sameUnder_insert_ne hother _ _)
  glEntries := by rw [he.applied.glEntries, Table.log_extend_ne _ hother]
  stockLedger := by rw [he.applied.stockLedger, Table.log_extend_ne _ hother]
  sleSeq := by rw [he.applied.sleSeq, AList.lookup_insert_ne hother]
  bins := by
    rw [he.applied.bins]
    exact putBins_ne hother commit.bins _
  partyTransactions := by rw [he.applied.partyTransactions, Table.log_extend_ne _ hother]
  taxTransactions := by rw [he.applied.taxTransactions, Table.log_extend_ne _ hother]
  settlements := by rw [he.applied.settlements, Table.log_extend_ne _ hother]
  batches := by
    rw [he.batches]
    exact TableSlice.sameUnder_insert_ne hother _ _
  series := by
    rw [he.applied.series]
    exact (raiseFloors_ne hother _ _).trans (allocateNumber_ne hother _)
  soloMigrations := by
    rw [he.applied.soloMigrations, markSolo]
    cases commit.soloMigration with
    | none => rfl
    | some mark => exact AList.lookup_insert_ne hother
  idempotency := by
    rw [he.idempotency]
    cases commit.idempotencyKey with
    | none => exact .refl _ _
    | some key => exact TableSlice.sameUnder_insert_ne hother _ _

/-- A commit that passes answers with its numbered response. -/
theorem postingCommit_answer {codec : Codec} {env : Env} (hreplay : inner.replayed commit = none)
    (hcheck : inner.checkCommit commit = .ok ()) : (postingCommit codec env commit inner).1 =
      .ok { response := numberedResponse commit inner, replayed := false } := by
  rcases postingCommit_cases codec env commit inner with
    ⟨response, hreplayed, -⟩ | ⟨e, -, hfailed, -⟩ | ⟨-, -, inner', -, hrun⟩
  · exact absurd (hreplay.symm.trans hreplayed) (by simp)
  · exact absurd (hcheck.symm.trans hfailed) (by simp)
  · rw [hrun]

/-- Running a commit on both answers the same and leaves the company's rows the same. -/
theorem SameTenant.postingCommit (codec : Codec) (env : Env)
    (h : SameTenant commit.companyId inner inner')
    (hnames : ∀ depositId, commit.depositGuard = some (.release depositId) →
      inner.liveNames commit.companyId depositId = inner'.liveNames commit.companyId depositId) :
    (postingCommit codec env commit inner).1 = (postingCommit codec env commit inner').1 ∧
      SameTenant commit.companyId (postingCommit codec env commit inner).2
        (postingCommit codec env commit inner').2 := by
  cases hreplay : inner.replayed commit with
  | some response =>
    have hreplay' := h.replayed.symm.trans hreplay
    simp only [Inner.postingCommit, hreplay, hreplay']
    exact ⟨trivial, h⟩
  | none =>
    have hreplay' := h.replayed.symm.trans hreplay
    cases hcheck : inner.checkCommit commit with
    | error e =>
      have hcheck' := (h.checkCommit hnames).symm.trans hcheck
      simp only [Inner.postingCommit, hreplay, hreplay', hcheck, hcheck']
      exact ⟨trivial, h⟩
    | ok _ =>
      have hcheck' := (h.checkCommit hnames).symm.trans hcheck
      rw [postingCommit_answer hreplay hcheck, postingCommit_answer hreplay' hcheck', h.numbered.2]
      exact ⟨rfl, h.effects (postingCommit_effects codec env commit inner hreplay hcheck)
        (postingCommit_effects codec env commit inner' hreplay' hcheck')⟩

theorem sameTenant_postingCommit_ne (codec : Codec) (env : Env) (hother : other ≠ commit.companyId)
    (haudit : commit.audit.companyId = commit.companyId) (inner : Inner) :
    SameTenant other (postingCommit codec env commit inner).2 inner := by
  rcases postingCommit_cases codec env commit inner with
    ⟨response, -, hrun⟩ | ⟨e, -, -, hrun⟩ | ⟨hreplay, hcheck, -⟩
  · rw [hrun]
    exact SameTenant.refl _ _
  · rw [hrun]
    exact SameTenant.refl _ _
  · exact sameTenant_effects_ne hother haudit
      (postingCommit_effects codec env commit inner hreplay hcheck)

end Writes

end Inner

end AtlasTeam
