import AtlasTeam.Store.Tenants
import AtlasTeam.Store.UniqueNumbers

/-!
# Company-scoped operations

A command that runs alone on the store, `Command.perform`, is the loop of the posting engine, and one run
of the system (`perform_run`). With the store operations a company's member can ask for it makes
`TenantOp`. Every one of them reads and writes the rows of its company only (`tenants_isolated`), and two of
them show the order in which the documents are walked (`TenantOp.WalkFree`).
-/

namespace AtlasTeam

open TableSlice (SameUnder under)

/-! ### A command alone -/

namespace Command
variable (codec : Codec) (env : Env) (company : Uuid) (actor : Actor)

/-- The retry loop: build, commit, and again when the commit was stale. -/
def attempt (command : Command) (documentId : String) :
    Nat → Inner → Except PostingError CommitOutcome × Inner
  | 0, inner => (.error (.conflict "posting contention: stock ledger kept moving; retry"), inner)
  | left + 1, inner =>
    match command.build codec inner.view env company actor documentId with
    | .error e => (.error e, inner)
    | .ok commit =>
      let (result, inner) := Inner.postingCommit codec env commit inner
      match command.settle codec documentId result with
      | some result => (result, inner)
      | none => attempt command documentId left inner

/-- `submit_document`, `cancel_document` and the take-on. -/
def perform (command : Command) (inner : Inner) : Except PostingError CommitOutcome × Inner :=
  match command.start codec inner.view company actor with
  | some result => (result, inner)
  | none => attempt codec env company actor command (command.documentId env) command.attempts inner

end Command

section Run
variable {codec : Codec} {env : Env} {company : Uuid} {actor : Actor} {command : Command}

/-- The only call of a system takes its next step. -/
theorem System.run_only (call : Call Inner) (book : Book Inner) (n : Nat) :
    System.run codec (memBackend codec) { book, calls := [call] }
        (List.replicate (n + 1) (.advance 0 env)) =
      System.run codec (memBackend codec)
        { book := (call.advance codec (memBackend codec) env book).2
          calls := [(call.advance codec (memBackend codec) env book).1] }
        (List.replicate n (.advance 0 env)) := rfl

/-- The loop takes steps of the call until it is finished. -/
theorem attempt_run (documentId : String) (left : Nat) (book : Book Inner) :
    ∃ n book', System.run codec (memBackend codec)
        { book, calls := [⟨company, actor, command, .building left documentId⟩] }
        (List.replicate n (.advance 0 env)) =
      { book := book'
        calls := [⟨company, actor, command,
          .finished (command.attempt codec env company actor documentId left book.store).1⟩] } ∧
      book'.store = (command.attempt codec env company actor documentId left book.store).2 := by
  induction left generalizing book with
  | zero => exact ⟨1, book, rfl, rfl⟩
  | succ left ih =>
    let call : Call Inner := ⟨company, actor, command, .building (left + 1) documentId⟩
    cases hbuild : command.build codec book.store.view env company actor documentId with
    | error e =>
      have hstep : call.advance codec (memBackend codec) env book =
          ({ call with phase := .finished (.error e) }, book) := by
        simp only [Call.advance, Call.build, call]
        rw [show (memBackend codec).view book.store = book.store.view from rfl, hbuild]
      refine ⟨1, book, ?_, by simp [Command.attempt, hbuild]⟩
      rw [System.run_only, hstep]
      simp [System.run, Command.attempt, hbuild, call]
    | ok commit =>
      let draft : Draft Inner :=
        { companyId := company, actor, command, documentId, snapshot := book.store, builtAt := env, commit }
      have hstep : call.advance codec (memBackend codec) env book =
          ({ call with phase := .committing left draft }, book) := by
        simp only [Call.advance, Call.build, call]
        rw [show (memBackend codec).view book.store = book.store.view from rfl, hbuild]
      let result := (Inner.postingCommit codec env commit book.store).1
      let book₁ := book.commit (memBackend codec) env draft
      have hstore : book₁.store = (Inner.postingCommit codec env commit book.store).2 :=
        Book.commit_store _ _ _ _
      have hcommit : { call with phase := .committing left draft }.advance codec (memBackend codec) env
          book = ({ call with phase := match command.settle codec documentId result with
            | some result => .finished result
            | none => .building left documentId }, book₁) := rfl
      cases hsettle : command.settle codec documentId result with
      | some settled =>
        refine ⟨2, book₁, ?_, by simp [Command.attempt, hbuild, hstore, hsettle, result]⟩
        rw [System.run_only, hstep, System.run_only, hcommit, hsettle]
        simp [System.run, Command.attempt, hbuild, hsettle, result, call]
      | none =>
        obtain ⟨n, book', hrun, hbook'⟩ := ih book₁
        have hattempt : command.attempt codec env company actor documentId (left + 1) book.store =
            command.attempt codec env company actor documentId left book₁.store := by
          simp [Command.attempt, hbuild, hstore, hsettle, result]
        refine ⟨n + 2, book', ?_, hattempt ▸ hbook'⟩
        rw [System.run_only, hstep, System.run_only, hcommit, hsettle, hattempt]
        exact hrun

/-- A command that runs alone is a run of the system. -/
theorem perform_run (book : Book Inner) : ∃ n book', System.run codec (memBackend codec) { book }
      (.call company actor command :: List.replicate n (.advance 0 env)) =
        { book := book'
          calls := [⟨company, actor, command,
            .finished (command.perform codec env company actor book.store).1⟩] } ∧
      book'.store = (command.perform codec env company actor book.store).2 := by
  let call : Call Inner := ⟨company, actor, command, .start⟩
  have hcall : ∀ n, System.run codec (memBackend codec) { book }
      (.call company actor command :: List.replicate (n + 1) (.advance 0 env)) =
        System.run codec (memBackend codec)
          { book := (call.advance codec (memBackend codec) env book).2
            calls := [(call.advance codec (memBackend codec) env book).1] }
          (List.replicate n (.advance 0 env)) := fun _ => rfl
  have hview : (memBackend codec).view book.store = book.store.view := rfl
  cases hstart : command.start codec book.store.view company actor with
  | some result =>
    refine ⟨1, book, ?_, by simp [Command.perform, hstart]⟩
    rw [hcall]
    simp [System.run, Call.advance, call, Command.perform, hview, hstart]
  | none =>
    have hperform : command.perform codec env company actor book.store =
        command.attempt codec env company actor (command.documentId env) command.attempts
          book.store := by
      simp only [Command.perform, hstart]
    obtain ⟨n, book', hrun, hbook'⟩ :=
      @attempt_run codec env company actor command (command.documentId env) command.attempts book
    refine ⟨n + 1, book', ?_, hperform ▸ hbook'⟩
    rw [hcall, hperform, ← hrun]
    simp only [Call.advance, call, hview, hstart]

end Run

/-! ### The operations -/

/-- What a member of a company can have done on its store. The handlers stamp the audit rows with the
company. -/
inductive TenantOp where
  | command (actor : Actor) (command : Command)
  | push (records : List MutationRecord)
  | pull (after limit : Int)
  | historyCheckpoint (at_ : Int)
  | lostHistory (report : LostHistoryReport) (audit : AuditEntry)
  | putSettings (settings : CompanySettings)
  | setBooksLock (change : BooksLockChange)
  | rebuildProjection

inductive TenantAnswer where
  | outcome (result : Except PostingError CommitOutcome)
  | versions (answers : List (String × Int))
  | page (page : MutationPage)
  | checkpoint (checkpoint : HistoryCheckpoint)
  | lostHistory (response : Value) (replayed : Bool)
  | lock (result : Except StoreError BooksLockOutcome)
  | done

def TenantOp.run (codec : Codec) (env : Env) (company : Uuid) (op : TenantOp) (inner : Inner) :
    TenantAnswer × Inner :=
  match op with
  | .command actor cmd =>
    let (result, inner) := cmd.perform codec env company actor inner
    (.outcome result, inner)
  | .push records =>
    let (answers, log) := inner.toSyncLog.appendAnswered codec env company records
    (.versions answers, { inner with toSyncLog := log })
  | .pull after limit => (.page (inner.toSyncLog.pullMutations company after limit), inner)
  | .historyCheckpoint at_ => (.checkpoint (inner.toSyncLog.historyCheckpoint company at_), inner)
  | .lostHistory report audit =>
    let ((response, replayed), inner) :=
      inner.recordLostHistory company report { audit with companyId := company }
    (.lostHistory response replayed, inner)
  | .putSettings settings => (.done, inner.putCompanySettings company settings)
  | .setBooksLock change =>
    let (result, inner) := inner.setBooksLock company
      { change with audit := { change.audit with companyId := company } }
    (.lock result, inner)
  | .rebuildProjection =>
    (.done, { inner with toSyncLog := inner.toSyncLog.rebuildProjection codec env company })

/-- What a command sees of the order in which the documents are walked is the same in both stores. -/
def Command.SameWalk (company : Uuid) (inner inner' : Inner) : Command → Prop
  | .cancel cmd => cmd.doctype = "Customer Deposit" →
    inner.liveNames company cmd.documentId = inner'.liveNames company cmd.documentId
  | _ => True

/-- So for an operation: the cancel of a deposit names the payments that apply it, and a report of lost records
names the first document that holds a lost number. -/
def TenantOp.SameWalk (company : Uuid) (inner inner' : Inner) : TenantOp → Prop
  | .command _ cmd => cmd.SameWalk company inner inner'
  | .lostHistory report _ => ∀ r ∈ report.lost, inner.findLost company r = inner'.findLost company r
  | _ => True

/-- A document that holds the number of a lost record. -/
def LostRecord.HeldBy (company : Uuid) (r : LostRecord) (doc : PostedDocument) : Prop :=
  doc.companyId = company ∧ doc.doctype = r.doctype ∧ doc.id ≠ r.documentId ∧
    ∃ number, r.number = some number ∧ doc.officialNumber = some number

/-- An operation that meets at most one document where it depends on the walk: a deposit is applied by at most one
live payment, and a lost number is held by documents of one id. -/
def TenantOp.WalkFree (company : Uuid) (inner : Inner) : TenantOp → Prop
  | .command _ (.cancel cmd) => cmd.doctype = "Customer Deposit" →
    (inner.liveApplications company cmd.documentId).length ≤ 1
  | .lostHistory report _ => ∀ r ∈ report.lost, ∀ doc ∈ inner.documents.values,
    ∀ doc' ∈ inner.documents.values, r.HeldBy company doc → r.HeldBy company doc' → doc.id = doc'.id
  | _ => True

/-- Every official document stands under its own company. -/
def Inner.Owned (inner : Inner) : Prop :=
  ∀ key doc, AList.lookup key inner.documents = some doc → doc.companyId = key.1

namespace Inner
variable {codec : Codec} {env : Env} {company other : Uuid} {inner inner' : Inner}

/-- A commit that is stale has left the store. -/
theorem postingCommit_stale {commit : PostingCommit} {reason : String}
    (h : (Inner.postingCommit codec env commit inner).1 = .error (.stale reason)) :
    (Inner.postingCommit codec env commit inner).2 = inner := by
  rcases postingCommit_cases codec env commit inner with
    ⟨response, -, hrun⟩ | ⟨e, -, -, hrun⟩ | ⟨-, -, after, -, hrun⟩
  · rw [hrun]
  · rw [hrun]
  · rw [hrun] at h
    cases h

/-- A command builds again after a stale commit only. -/
theorem settle_eq_none {command : Command} {documentId : String} {result : Except StoreError CommitOutcome}
    (h : command.settle codec documentId result = none) : ∃ reason, result = .error (.stale reason) := by
  cases result with
  | ok outcome => cases command <;> cases h
  | error e =>
    cases e with
    | stale reason => exact ⟨reason, rfl⟩
    | _ => cases command <;> cases h

/-- The documents of a company that fit are met in the order of its documents. -/
theorem filter_eq_under (howned : inner.Owned) (q : PostedDocument → Bool) :
    (inner.documents.values.filter fun d => d.companyId = company && q d) =
      ((under company inner.documents).filter fun e => q e.2).map Sigma.snd := by
  rw [Table.values, List.filter_map, under, List.filter_filter]
  congr 1
  refine List.filter_congr fun e he => ?_
  have hcompany : e.2.companyId = e.1.1 := howned e.1 e.2 (AList.mem_lookup_iff.2 he)
  simp only [Function.comp_apply, hcompany, Bool.and_comm]

section Reads
variable (h : SameTenant company inner inner')
include h

theorem SameTenant.build {command : Command} (hwalk : command.SameWalk company inner inner') (env : Env)
    (actor : Actor) (documentId : String) :
    command.build codec inner.view env company actor documentId =
      command.build codec inner'.view env company actor documentId := by
  rw [command.build_only]
  refine Eq.trans ?_ (command.build_only env documentId).symm
  rw [h.view]
  cases command with
  | submit cmd => exact (Command.buildSubmit_applications h.depositApplications env cmd documentId).symm
  | cancel cmd =>
    refine (Command.buildCancel_applications h.depositApplications env cmd ?_).symm
    exact hwalk
  | takeOn cmd => rfl

theorem SameTenant.attempt {command : Command} (hwalk : command.SameWalk company inner inner') (actor : Actor)
    (documentId : String) (left : Nat) :
    (command.attempt codec env company actor documentId left inner).1 =
        (command.attempt codec env company actor documentId left inner').1 ∧
      SameTenant company (command.attempt codec env company actor documentId left inner).2
        (command.attempt codec env company actor documentId left inner').2 := by
  induction left with
  | zero => exact ⟨rfl, h⟩
  | succ left ih =>
    simp only [Command.attempt, h.build hwalk]
    cases hbuild : command.build codec inner'.view env company actor documentId with
    | error e => exact ⟨rfl, h⟩
    | ok commit =>
      obtain ⟨hcompany, -⟩ := Command.build_company hbuild
      have hnames : ∀ depositId, commit.depositGuard = some (.release depositId) →
          inner.liveNames commit.companyId depositId = inner'.liveNames commit.companyId depositId := by
        intro depositId hguard
        obtain ⟨cmd, rfl, hdeposit, rfl⟩ := Command.build_release hbuild hguard
        rw [hcompany]
        exact hwalk hdeposit
      obtain ⟨hresult, hafter⟩ := SameTenant.postingCommit codec env (hcompany.symm ▸ h) hnames
      rw [hcompany] at hafter
      simp only [hresult]
      cases hsettle : command.settle codec documentId (Inner.postingCommit codec env commit inner').1 with
      | some result => exact ⟨rfl, hafter⟩
      | none =>
        obtain ⟨reason, hstale⟩ := settle_eq_none hsettle
        rw [postingCommit_stale hstale, postingCommit_stale (hresult.trans hstale)]
        exact ih

theorem SameTenant.perform {command : Command} (hwalk : command.SameWalk company inner inner') (actor : Actor) :
    (command.perform codec env company actor inner).1 =
        (command.perform codec env company actor inner').1 ∧
      SameTenant company (command.perform codec env company actor inner).2
        (command.perform codec env company actor inner').2 := by
  have hstart : command.start codec inner.view company actor =
      command.start codec inner'.view company actor := by
    rw [command.start_only]
    refine Eq.trans ?_ command.start_only.symm
    rw [h.view]
    cases command <;> rfl
  simp only [Command.perform, hstart]
  cases command.start codec inner'.view company actor with
  | some result => exact ⟨rfl, h⟩
  | none => exact h.attempt hwalk actor _ _

theorem SameTenant.recordLostHistory {report : LostHistoryReport}
    (hwalk : ∀ r ∈ report.lost, inner.findLost company r = inner'.findLost company r) (audit : AuditEntry) :
    (inner.recordLostHistory company report audit).1 =
        (inner'.recordLostHistory company report audit).1 ∧
      SameTenant company (inner.recordLostHistory company report audit).2
        (inner'.recordLostHistory company report audit).2 := by
  have hstored := h.historyRecoveries report.recoveryId
  have hfound : report.lost.map (inner.findLost company) = report.lost.map (inner'.findLost company) :=
    List.map_congr_left hwalk
  simp only [Inner.recordLostHistory, hstored, hfound]
  cases AList.lookup (company, report.recoveryId) inner'.historyRecoveries with
  | some stored => exact ⟨rfl, h⟩
  | none =>
    refine ⟨rfl, { h with
      historyRecoveries := h.historyRecoveries.insert _ _
      audit := ?_
      series := raiseFloors_same h.series _ }⟩
    simp only [List.filter_append, h.audit]

theorem SameTenant.setBooksLock (change : BooksLockChange) :
    (inner.setBooksLock company change).1 = (inner'.setBooksLock company change).1 ∧
      SameTenant company (inner.setBooksLock company change).2
        (inner'.setBooksLock company change).2 := by
  have hsettings : inner.companySettings company = inner'.companySettings company := by
    rw [Inner.companySettings, Inner.companySettings, h.settings]
  simp only [Inner.setBooksLock, hsettings]
  split_ifs
  · exact ⟨rfl, h⟩
  · exact ⟨rfl, h⟩
  · refine ⟨rfl, { h with
      audit := ?_
      settings := ?_ }⟩
    · simp only [List.filter_append, h.audit]
    · simp only [AList.lookup_insert]

theorem SameTenant.putCompanySettings (settings : CompanySettings) :
    SameTenant company (inner.putCompanySettings company settings)
      (inner'.putCompanySettings company settings) := by
  refine { h with settings := ?_ }
  simp only [Inner.putCompanySettings, AList.lookup_insert, h.settings]

/-! ### The order of a walk -/

theorem SameTenant.sameWalk_command {command : Command} {actor : Actor}
    (hfree : TenantOp.WalkFree company inner (.command actor command)) : command.SameWalk company inner inner' := by
  cases command with
  | cancel cmd =>
    intro hdeposit
    have hperm : (inner.liveApplications company cmd.documentId).Perm
        (inner'.liveApplications company cmd.documentId) := (h.depositApplications cmd.documentId).filter _
    have hfew := hfree hdeposit
    rw [liveNames, liveNames]
    rcases Nat.le_one_iff_eq_zero_or_eq_one.1 hfew with hnone | hone
    · rw [List.length_eq_zero_iff.1 hnone] at hperm ⊢
      rw [hperm.symm.eq_nil]
    · obtain ⟨doc, hdoc⟩ := List.length_eq_one_iff.1 hone
      rw [hdoc] at hperm ⊢
      rw [List.perm_singleton.1 hperm.symm]
  | _ => trivial

theorem SameTenant.findLost (howned : inner.Owned) (howned' : inner'.Owned) {r : LostRecord}
    (hone : ∀ doc ∈ inner.documents.values, ∀ doc' ∈ inner.documents.values,
      r.HeldBy company doc → r.HeldBy company doc' → doc.id = doc'.id) :
    inner.findLost company r = inner'.findLost company r := by
  have hholder : ∀ number, r.number = some number →
      ((inner.documents.values.find? fun d => d.companyId = company && (d.doctype = r.doctype &&
        (d.id ≠ r.documentId && d.officialNumber = some number))).map PostedDocument.id) =
      (inner'.documents.values.find? fun d => d.companyId = company && (d.doctype = r.doctype &&
        (d.id ≠ r.documentId && d.officialNumber = some number))).map PostedDocument.id := by
    intro number hnumber
    have hheld : ∀ d : PostedDocument, (d.companyId = company && (d.doctype = r.doctype &&
        (d.id ≠ r.documentId && d.officialNumber = some number))) → r.HeldBy company d := by
      intro d hd
      simp only [Bool.and_eq_true, decide_eq_true_eq] at hd
      obtain ⟨hcompany, hdoctype, hid, hofficial⟩ := hd
      exact ⟨hcompany, hdoctype, hid, number, hnumber, hofficial⟩
    refine TableSlice.find?_map_eq ?_ fun d hd d' hd' hfits hfits' =>
      hone d hd d' hd' (hheld d hfits) (hheld d' hfits')
    rw [filter_eq_under howned, filter_eq_under howned']
    exact (h.documents.under_perm.filter _).map _
  have hpresent := h.document r.doctype r.documentId
  simp only [Inner.findLost, Bool.and_assoc, hpresent]
  refine congrArg (Prod.mk _) (Option.bind_congr fun number hnumber => ?_)
  exact hholder number (Option.filter_eq_some_iff.1 hnumber).1

theorem SameTenant.sameWalk (howned : inner.Owned) (howned' : inner'.Owned) {op : TenantOp}
    (hfree : op.WalkFree company inner) : op.SameWalk company inner inner' := by
  cases op with
  | command actor cmd => exact h.sameWalk_command hfree
  | lostHistory report audit => exact fun r hr => h.findLost howned howned' (hfree r hr)
  | _ => trivial

omit h in
/-- Where the company's documents are walked in the same order, every operation sees the same of it. -/
theorem sameWalk_of_under (hsame : SameTenant company inner inner') (howned : inner.Owned)
    (howned' : inner'.Owned) (hunder : under company inner'.documents = under company inner.documents)
    (op : TenantOp) : op.SameWalk company inner inner' := by
  cases op with
  | command actor cmd =>
    cases cmd with
    | cancel cmd =>
      intro _
      rw [liveNames, liveNames, liveApplications, liveApplications, inner.depositApplications_eq_under,
        inner'.depositApplications_eq_under, hunder]
    | _ => trivial
  | lostHistory report audit =>
    intro r _
    have hfind : ∀ q : PostedDocument → Bool,
        (inner.documents.values.find? fun d => d.companyId = company && q d) =
          inner'.documents.values.find? fun d => d.companyId = company && q d := by
      intro q
      rw [← List.head?_filter, ← List.head?_filter, filter_eq_under howned, filter_eq_under howned', hunder]
    simp only [Inner.findLost, hsame.document, Bool.and_assoc, hfind]
  | _ => trivial

end Reads

section Others
variable (hother : other ≠ company)
include hother

theorem sameTenant_attempt_ne (command : Command) (actor : Actor) (documentId : String) (left : Nat)
    (inner : Inner) :
    SameTenant other (command.attempt codec env company actor documentId left inner).2 inner := by
  induction left generalizing inner with
  | zero => exact SameTenant.refl _ _
  | succ left ih =>
    simp only [Command.attempt]
    cases hbuild : command.build codec inner.view env company actor documentId with
    | error e => exact SameTenant.refl _ _
    | ok commit =>
      obtain ⟨hcompany, haudit⟩ := Command.build_company hbuild
      have hafter := sameTenant_postingCommit_ne codec env (hcompany.symm ▸ hother)
        (haudit.trans hcompany.symm) inner
      simp only
      cases command.settle codec documentId (Inner.postingCommit codec env commit inner).1 with
      | some result => exact hafter
      | none => exact (ih _).trans hafter

theorem sameTenant_perform_ne (command : Command) (actor : Actor) (inner : Inner) :
    SameTenant other (command.perform codec env company actor inner).2 inner := by
  simp only [Command.perform]
  cases command.start codec inner.view company actor with
  | some result => exact SameTenant.refl _ _
  | none => exact sameTenant_attempt_ne hother command actor _ _ inner

theorem filter_audit_ne (rows : List AuditEntry) {entry : AuditEntry} (h : entry.companyId = company) :
    ((rows ++ [entry]).filter fun entry => entry.companyId = other) =
      rows.filter fun entry => entry.companyId = other := by
  have hne : ¬ entry.companyId = other := fun heq => hother (heq.symm.trans h)
  rw [List.filter_append, List.filter_cons_of_neg (by simp [hne]), List.filter_nil, List.append_nil]

theorem sameTenant_recordLostHistory_ne (report : LostHistoryReport) {audit : AuditEntry}
    (haudit : audit.companyId = company) (inner : Inner) :
    SameTenant other (inner.recordLostHistory company report audit).2 inner := by
  simp only [Inner.recordLostHistory]
  cases AList.lookup (company, report.recoveryId) inner.historyRecoveries with
  | some stored => exact SameTenant.refl _ _
  | none =>
    exact { SameTenant.refl other inner with
      historyRecoveries := TableSlice.sameUnder_insert_ne hother _ _
      audit := filter_audit_ne hother _ haudit
      series := raiseFloors_ne hother _ _ }

theorem sameTenant_setBooksLock_ne {change : BooksLockChange} (haudit : change.audit.companyId = company)
    (inner : Inner) : SameTenant other (inner.setBooksLock company change).2 inner := by
  simp only [Inner.setBooksLock]
  split_ifs
  · exact SameTenant.refl _ _
  · exact SameTenant.refl _ _
  · exact { SameTenant.refl other inner with
      audit := filter_audit_ne hother _ haudit
      settings := AList.lookup_insert_ne hother }

end Others

/-! ### Documents stay with their company -/

/-- A commit of a company writes a document of that company. -/
theorem Owned.postingCommit (h : inner.Owned) {commit : PostingCommit}
    (hcompany : commit.document.companyId = commit.companyId) :
    (Inner.postingCommit codec env commit inner).2.Owned := by
  rcases postingCommit_cases codec env commit inner with
    ⟨response, -, hrun⟩ | ⟨e, -, -, hrun⟩ | ⟨-, -, after, happlied, hrun⟩
  · rw [hrun]
    exact h
  · rw [hrun]
    exact h
  · rw [hrun]
    intro key doc hdoc
    rw [happlied.documents] at hdoc
    rcases lookup_written_cases hdoc with ⟨rfl, hfrozen⟩ | ⟨-, doc₀, hdoc₀, hfrozen⟩
    · rw [numberedDocument_eq] at hfrozen
      exact (Later.of_frozen hfrozen).companyId.trans hcompany
    · exact (Later.of_frozen hfrozen).companyId.trans (h key doc₀ hdoc₀)

theorem Owned.perform (h : inner.Owned) (command : Command) (actor : Actor) :
    (command.perform codec env company actor inner).2.Owned := by
  have hattempt : ∀ documentId left inner, Inner.Owned inner →
      (command.attempt codec env company actor documentId left inner).2.Owned := by
    intro documentId left
    induction left with
    | zero => exact fun _ h => h
    | succ left ih =>
      intro inner h
      simp only [Command.attempt]
      cases hbuild : command.build codec inner.view env company actor documentId with
      | error e => exact h
      | ok commit =>
        have hdocument : commit.document.companyId = commit.companyId := by
          obtain ⟨hcompany, hnew | ⟨cmd, doc, -, -, hdoc, -, hdocument, -⟩⟩ :=
            Command.build_new_or_cancel hbuild
          · exact hnew.2.1.trans hcompany.symm
          · rw [hdocument, hcompany]
            exact h _ doc hdoc
        have hafter : (Inner.postingCommit codec env commit inner).2.Owned := h.postingCommit hdocument
        simp only
        cases command.settle codec documentId (Inner.postingCommit codec env commit inner).1 with
        | some result => exact hafter
        | none => exact ih _ hafter
  simp only [Command.perform]
  cases command.start codec inner.view company actor with
  | some result => exact h
  | none => exact hattempt _ _ inner h

end Inner

section Isolated
variable (codec : Codec) (env : Env) (company : Uuid)

/-- Every operation keeps the documents with their companies. -/
theorem TenantOp.run_owned (op : TenantOp) {inner : Inner} (h : inner.Owned) :
    (op.run codec env company inner).2.Owned := by
  cases op with
  | command actor cmd => exact h.perform cmd actor
  | lostHistory report audit =>
    simp only [TenantOp.run, Inner.recordLostHistory]
    split <;> exact h
  | setBooksLock change =>
    simp only [TenantOp.run, Inner.setBooksLock]
    split_ifs <;> exact h
  | _ => exact h

/-- An operation answers the same on both stores and leaves the company the same rows. -/
def TenantOp.RunsAlike (op : TenantOp) (inner inner' : Inner) : Prop :=
  (op.run codec env company inner).1 = (op.run codec env company inner').1 ∧
    Inner.SameTenant company (op.run codec env company inner).2 (op.run codec env company inner').2

/-- The same store, with the documents walked in another order. -/
def Inner.Reordered (inner inner' : Inner) : Prop :=
  ∃ documents : Documents, documents.entries.Perm inner.documents.entries ∧ inner' = { inner with documents }

theorem Inner.SameTenant.runsAlike {inner inner' : Inner} (h : Inner.SameTenant company inner inner')
    {op : TenantOp} (hwalk : op.SameWalk company inner inner') : op.RunsAlike codec env company inner inner' := by
  cases op with
  | command actor cmd =>
    obtain ⟨hresult, hafter⟩ := h.perform hwalk actor
    exact ⟨congrArg TenantAnswer.outcome hresult, hafter⟩
  | push records =>
    obtain ⟨hanswers, hafter⟩ := h.syncLog.appendAnswered records
    exact ⟨congrArg TenantAnswer.versions hanswers, { h with syncLog := hafter }⟩
  | pull after limit => exact ⟨congrArg TenantAnswer.page (h.syncLog.pullMutations after limit), h⟩
  | historyCheckpoint at_ =>
    exact ⟨congrArg TenantAnswer.checkpoint (h.syncLog.historyCheckpoint at_), h⟩
  | lostHistory report audit =>
    obtain ⟨hresult, hafter⟩ := h.recordLostHistory hwalk { audit with companyId := company }
    refine ⟨?_, hafter⟩
    simp only [TenantOp.run, hresult]
  | putSettings settings => exact ⟨rfl, h.putCompanySettings settings⟩
  | setBooksLock change =>
    obtain ⟨hresult, hafter⟩ := h.setBooksLock { change with audit :=
      { change.audit with companyId := company } }
    exact ⟨congrArg TenantAnswer.lock hresult, hafter⟩
  | rebuildProjection => exact ⟨rfl, { h with syncLog := h.syncLog.rebuildProjection }⟩

/-- An operation on a company leaves the rows of every other company in every table. What it answers and leaves of
the company's own rows depends on these alone where it does not depend on the order of a walk, and on these and
that order everywhere. -/
theorem tenants_isolated (op : TenantOp) :
    (∀ inner other, other ≠ company →
      Inner.SameTenant other (op.run codec env company inner).2 inner) ∧
    ∀ inner inner', inner.Owned → inner'.Owned → Inner.SameTenant company inner inner' →
      (op.WalkFree company inner → op.RunsAlike codec env company inner inner') ∧
      ∃ inner'', inner'.Reordered inner'' ∧ op.RunsAlike codec env company inner inner'' := by
  constructor
  · intro inner other hother
    cases op with
    | command actor cmd => exact Inner.sameTenant_perform_ne hother cmd actor inner
    | push records =>
      refine { Inner.SameTenant.refl other inner with syncLog := ?_ }
      simp only [TenantOp.run, SyncLog.appendAnswered_log]
      exact SyncLog.sameTenant_appendMutations_ne hother records
    | pull after limit => exact Inner.SameTenant.refl _ _
    | historyCheckpoint at_ => exact Inner.SameTenant.refl _ _
    | lostHistory report audit => exact Inner.sameTenant_recordLostHistory_ne hother report rfl inner
    | putSettings settings =>
      exact { Inner.SameTenant.refl other inner with settings := AList.lookup_insert_ne hother }
    | setBooksLock change => exact Inner.sameTenant_setBooksLock_ne hother rfl inner
    | rebuildProjection =>
      exact { Inner.SameTenant.refl other inner with
        syncLog := SyncLog.sameTenant_rebuildProjection_ne hother }
  · intro inner inner' howned howned' h
    refine ⟨fun hfree => h.runsAlike codec env company (h.sameWalk howned howned' hfree), ?_⟩
    obtain ⟨documents, hperm, hunder⟩ := h.documents.reorder
    have hlookup : ∀ key, AList.lookup key documents = AList.lookup key inner'.documents :=
      fun key => AList.perm_lookup hperm
    have hsame : Inner.SameTenant company inner { inner' with documents } :=
      { h with documents := fun key => (h.documents key).trans (hlookup _).symm }
    have howned'' : Inner.Owned { inner' with documents } :=
      fun key doc hdoc => howned' key doc ((hlookup key).symm.trans hdoc)
    exact ⟨_, ⟨documents, hperm, rfl⟩, hsame.runsAlike codec env company
      (Inner.sameWalk_of_under hsame howned howned'' hunder op)⟩

end Isolated

/-- A command of company 1's clerk, at one time. -/
def clerkRuns (inner : Inner) (command : Command) : TenantAnswer × Inner :=
  TenantOp.run serdeCodec ⟨0, "2026-01-05", 0⟩ 1 (.command ⟨some 7, some 5, none⟩ command) inner

/-- A deposit of a hundred and two payments of forty that apply it. -/
def depositAndPayments : List Command :=
  let submit (doctype id : String) (payload : Map) : Command := .submit
    { doctype, documentId := some id, payload, items := [], idempotencyKey := none,
      offlineFiscal := false }
  let payment (id : String) : Command := submit "Payment Entry" id
    [("deposit", .string "CD-1"), ("paid_amount", .int 40), ("payment_type", .string "Receive")]
  [submit "Customer Deposit" "CD-1" [("amount", .int 100), ("customer", .string "ACME")],
    payment "PE-1", payment "PE-2"]

def twiceApplied : Inner := depositAndPayments.foldl (fun inner command => (clerkRuns inner command).2) {}

/-- The same rows, met the other way round. -/
def twiceAppliedBackwards : Inner :=
  { twiceApplied with
    documents := ⟨twiceApplied.documents.entries.reverse,
      (List.perm_nodupKeys (List.reverse_perm _)).2 twiceApplied.documents.nodupKeys⟩ }

def TenantAnswer.refusal : TenantAnswer → Option String
  | .outcome (.error (.conflict reason)) => some reason
  | _ => none

/-- Two stores with the same rows can refuse the cancel of a deposit with different texts: the payments are named
as the walk meets them. -/
theorem deposit_refusal_follows_walk :
    let cancel : Command := .cancel ⟨"Customer Deposit", "CD-1", none⟩
    Inner.SameTenant 1 twiceApplied twiceAppliedBackwards ∧ twiceApplied.Owned ∧ twiceAppliedBackwards.Owned ∧
      (clerkRuns twiceApplied cancel).1 ≠ (clerkRuns twiceAppliedBackwards cancel).1 := by
  intro cancel
  have hperm : twiceAppliedBackwards.documents.entries.Perm twiceApplied.documents.entries :=
    List.reverse_perm _
  have howned : twiceApplied.Owned := by
    refine TenantOp.run_owned _ _ _ _ (TenantOp.run_owned _ _ _ _ (TenantOp.run_owned _ _ _ _ ?_))
    exact fun _ _ h => by simp at h
  refine ⟨{ Inner.SameTenant.refl 1 twiceApplied with
    documents := TableSlice.sameUnder_of_perm hperm.symm }, howned, fun key doc hdoc => ?_, fun hsame => ?_⟩
  · exact howned key doc ((AList.perm_lookup hperm).symm.trans hdoc)
  · have htext : (clerkRuns twiceApplied cancel).1.refusal ≠ (clerkRuns twiceAppliedBackwards cancel).1.refusal := by
      decide +kernel
    exact htext (congrArg TenantAnswer.refusal hsame)

/-- A sale of company 1 answers on an empty store as it does after the same sale of company 2. -/
theorem tenants_isolated_neighbour :
    let env : Env := ⟨0, "2026-01-05", 0⟩
    let sale : TenantOp := .command ⟨some 7, some 5, none⟩ (cashSale "sale-1" "" false)
    (sale.run serdeCodec env 1 (sale.run serdeCodec env 2 {}).2).1 = (sale.run serdeCodec env 1 {}).1 := by
  intro env sale
  have hempty : Inner.Owned {} := fun _ _ h => by simp at h
  have hbusy : Inner.Owned (sale.run serdeCodec env 2 {}).2 := TenantOp.run_owned serdeCodec env 2 sale hempty
  have hsame := (tenants_isolated serdeCodec env 2 sale).1 {} 1 (by decide)
  exact (((tenants_isolated serdeCodec env 1 sale).2 _ {} hbusy hempty hsame).1 trivial).1

end AtlasTeam
