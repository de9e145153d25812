import AtlasTeam.Store.Numbering
import AtlasTeam.System

/-!
# The system on the in-memory store

`memBackend` runs the commands and the other operations on `Inner`. `commit_cases` says what the
commit of a draft does to the book, and `operate_frame` which tables the other operations leave
alone; the invariants of the later modules are derived from these two.
-/

namespace AtlasTeam

/-- The store operations besides `posting_commit`. -/
inductive MemOp where
  | lostHistory (company : Uuid) (report : LostHistoryReport) (audit : AuditEntry)
  | putSettings (company : Uuid) (settings : CompanySettings)
  | setBooksLock (company : Uuid) (change : BooksLockChange)
  | pushMutations (company : Uuid) (records : List MutationRecord)
  | upsertItem (company : Uuid) (item : Item)

def memBackend (codec : Codec) : Backend Inner MemOp where
  view := Inner.view
  postingCommit := Inner.postingCommit codec
  operate env op inner :=
    match op with
    | .lostHistory company report audit => (inner.recordLostHistory company report audit).2
    | .putSettings company settings => inner.putCompanySettings company settings
    | .setBooksLock company change => (inner.setBooksLock company change).2
    | .pushMutations company records => inner.pushMutations codec env company records
    | .upsertItem company item => inner.upsertItem company item

/-- The system on the in-memory store after a list of events, from the empty store. -/
def memRun (codec : Codec) (events : List (Event MemOp)) : System Inner :=
  (System.fresh {}).run codec (memBackend codec) events

namespace Inner

/-! ### The checks, one by one -/

/-- What an applied commit has passed. -/
structure Passed (commit : PostingCommit) (inner : Inner) : Prop where
  lock : inner.checkLock commit = .ok ()
  deposit : inner.checkDeposit commit = .ok ()
  solo : inner.checkSolo commit = .ok ()
  expectations : inner.checkExpectations commit = .ok ()
  document : inner.checkDocument commit = .ok ()
  preassigned : inner.checkPreassigned commit = .ok ()
  till : inner.checkTill commit = .ok ()

theorem passed_of_checkCommit {commit : PostingCommit} {inner : Inner}
    (h : inner.checkCommit commit = .ok ()) : Passed commit inner := by
  simp only [checkCommit, Except.bind_eq_ok] at h
  obtain ⟨⟨⟩, h₁, ⟨⟩, h₂, ⟨⟩, h₃, ⟨⟩, h₄, ⟨⟩, h₅, ⟨⟩, h₆, h₇⟩ := h
  exact ⟨h₁, h₂, h₃, h₄, h₅, h₆, h₇⟩

/-- A new document is not there yet. -/
theorem Passed.absent {commit : PostingCommit} {inner : Inner} (h : Passed commit inner)
    (hnew : commit.documentIsNew = true) : AList.lookup (docKey commit) inner.documents = none := by
  have hdoc := h.document
  unfold checkDocument at hdoc
  cases hlookup : AList.lookup (docKey commit) inner.documents with
  | none => rfl
  | some existing => simp [hlookup, hnew] at hdoc

/-- A cancelled document is there and submitted. -/
theorem Passed.submitted {commit : PostingCommit} {inner : Inner} (h : Passed commit inner)
    (hnew : commit.documentIsNew = false) :
    ∃ doc, AList.lookup (docKey commit) inner.documents = some doc ∧ doc.docstatus = 1 := by
  have hdoc := h.document
  unfold checkDocument at hdoc
  cases hlookup : AList.lookup (docKey commit) inner.documents with
  | none => simp [hlookup, hnew] at hdoc
  | some existing =>
    by_cases hstatus : existing.docstatus = 1
    · exact ⟨existing, rfl, hstatus⟩
    · simp [hlookup, hnew, hstatus] at hdoc

/-- A preassigned number is held by no document of the doctype. -/
theorem Passed.untaken {commit : PostingCommit} {inner : Inner} (h : Passed commit inner)
    {number : String} (hnumber : commit.preassignedNumber = some number)
    {id : String} {doc : PostedDocument}
    (hdoc : AList.lookup (commit.companyId, commit.document.doctype, id) inner.documents = some doc) :
    doc.officialNumber ≠ some number := by
  intro htaken
  have hpre := h.preassigned
  unfold checkPreassigned at hpre
  have hany : inner.documents.entries.any (fun e =>
      e.1.1 = commit.companyId && e.1.2.1 = commit.document.doctype &&
        e.2.officialNumber = some number) = true :=
    List.any_eq_true.2 ⟨_, AList.mem_lookup_iff.1 hdoc, by simp [htaken]⟩
  simp only [hnumber] at hpre
  rw [if_pos hany] at hpre
  cases hpre

/-- The pairs a build was based on have not moved. -/
theorem Passed.pairCount {commit : PostingCommit} {inner : Inner} (h : Passed commit inner)
    {item warehouse : String} {count : Nat}
    (hmem : (item, warehouse, count) ∈ commit.sleExpectations) :
    inner.pairCount commit.companyId item warehouse = count := by
  have hexpectation := (Except.forM_eq_ok _).1 h.expectations _ hmem
  by_contra hne
  simp [hne] at hexpectation

end Inner

/-! ### Steps of the book -/

section Steps
variable (codec : Codec)

/-- The entry of an applied draft. -/
def appliedEntry (draft : Draft Inner) (store : Inner) : Entry Inner :=
  { draft with before := store, response := Inner.numberedResponse draft.commit store }

/-- Committing a draft leaves the book as it is, or applies the draft and records it. -/
theorem commit_cases (env : Env) (draft : Draft Inner) (book : Book Inner) :
    book.commit (memBackend codec) env draft = book ∨
    (Inner.Passed draft.commit book.store ∧ ∃ inner', Inner.Applied draft.commit book.store inner' ∧
      book.commit (memBackend codec) env draft =
        { store := inner', journal := book.journal ++ [appliedEntry draft book.store] }) := by
  rcases Inner.postingCommit_cases codec env draft.commit book.store with
    ⟨response, -, hrun⟩ | ⟨e, -, -, hrun⟩ | ⟨-, hcheck, inner', happlied, hrun⟩
  · exact .inl (by simp [Book.commit, memBackend, hrun])
  · exact .inl (by simp [Book.commit, memBackend, hrun])
  · exact .inr ⟨Inner.passed_of_checkCommit hcheck, inner', happlied,
      by simp [Book.commit, memBackend, hrun, appliedEntry]⟩

/-- The tables only a commit writes are the same in two states. -/
structure SameBooks (inner inner' : Inner) : Prop where
  documents : inner'.documents = inner.documents
  glEntries : inner'.glEntries = inner.glEntries
  stockLedger : inner'.stockLedger = inner.stockLedger
  sleSeq : inner'.sleSeq = inner.sleSeq
  bins : inner'.bins = inner.bins
  partyTransactions : inner'.partyTransactions = inner.partyTransactions
  taxTransactions : inner'.taxTransactions = inner.taxTransactions
  settlements : inner'.settlements = inner.settlements
  batches : inner'.batches = inner.batches

theorem SameBooks.refl (inner : Inner) : SameBooks inner inner := by constructor <;> rfl

/-- Only a commit writes official documents, ledgers and bins. -/
theorem operate_frame (env : Env) (op : MemOp) (inner : Inner) :
    SameBooks inner ((memBackend codec).operate env op inner) := by
  cases op with
  | lostHistory company report audit =>
    rcases Inner.recordLostHistory_cases company report audit inner with
      ⟨stored, -, hrun⟩ | ⟨-, response, recoveries, audits, hrun⟩
    · simp only [memBackend, hrun]
      exact SameBooks.refl inner
    · simp only [memBackend, hrun]
      constructor <;> rfl
  | putSettings company settings => constructor <;> rfl
  | setBooksLock company change =>
    simp only [memBackend, Inner.setBooksLock]
    split_ifs
    · exact SameBooks.refl inner
    · exact SameBooks.refl inner
    · constructor <;> rfl
  | pushMutations company records => constructor <;> rfl
  | upsertItem company item => constructor <;> rfl

/-- A new report of lost numbers raises its floors, every other operation leaves the counters. -/
theorem operate_series (env : Env) (op : MemOp) (inner : Inner) :
    (∃ company report audit, op = .lostHistory company report audit ∧
      AList.lookup (company, report.recoveryId) inner.historyRecoveries = none ∧
      ((memBackend codec).operate env op inner).series =
        Inner.raiseFloors company (inner.lostFloors company report) inner.series) ∨
    ((∀ company report audit, op = .lostHistory company report audit →
        AList.lookup (company, report.recoveryId) inner.historyRecoveries ≠ none) ∧
      ((memBackend codec).operate env op inner).series = inner.series) := by
  cases op with
  | lostHistory company report audit =>
    rcases Inner.recordLostHistory_cases company report audit inner with
      ⟨stored, hstored, hrun⟩ | ⟨hnew, response, recoveries, audits, hrun⟩
    · refine .inr ⟨?_, by simp only [memBackend, hrun]⟩
      intro company' report' audit' heq
      obtain ⟨rfl, rfl, rfl⟩ := MemOp.lostHistory.inj heq
      simp [hstored]
    · exact .inl ⟨company, report, audit, rfl, hnew, by simp only [memBackend, hrun]⟩
  | setBooksLock company change =>
    refine .inr ⟨by simp, ?_⟩
    simp only [memBackend, Inner.setBooksLock]
    split_ifs <;> rfl
  | _ => exact .inr ⟨by simp, rfl⟩

/-- No operation lowers a counter. -/
theorem operate_counter (env : Env) (op : MemOp) (inner : Inner) (company : Uuid) (key : String) :
    inner.series.counter company key ≤
      ((memBackend codec).operate env op inner).series.counter company key := by
  obtain ⟨company', report, audit, -, -, hseries⟩ | ⟨-, hseries⟩ := operate_series codec env op inner
  · rw [hseries]
    by_cases hcompany : company = company'
    · subst hcompany
      rw [Inner.raiseFloors_counter]
      exact HighWater.le_foldl_max _ _
    · exact (Inner.raiseFloors_counter_ne hcompany _ _ key).ge
  · rw [hseries]

end Steps

end AtlasTeam
