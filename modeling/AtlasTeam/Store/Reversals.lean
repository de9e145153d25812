import AtlasTeam.Lib.Journal
import AtlasTeam.Posting.Ownership
import AtlasTeam.Store.Pg

/-!
# Cancelling reverses what was posted

A cancel looks its rows up by voucher number alone, in five tables, while documents are told apart by
doctype and number. What keeps two documents of one number apart is the key of the posting batches:
`PB-{number}` is taken by the first of them. `Owned` ties every stored row to the journal entry that
wrote it and every document to the entry that posted it; it holds in every run (`owned_rule`), so that
a cancel finds the rows of the document it cancels and no others (`Owned.live`).
`cancel_reverses_posted` draws the conclusion for the whole transaction.
-/

namespace AtlasTeam

/-! ### The five tables -/

namespace LedgerKind

/-- The stored rows of a company. -/
def stored (tables : PgTables) (company : Uuid) : (kind : LedgerKind) → List kind.Row
  | .gl => tables.glEntries.log company
  | .stock => tables.stockLedger.log company
  | .party => tables.partyTransactions.log company
  | .tax => tables.taxTransactions.log company
  | .settlement => tables.settlements.log company

/-- The rows of a commit as the tables take them: stock rows get their identity value. -/
def written (commit : PostingCommit) (tables : PgTables) : (kind : LedgerKind) → List kind.Row
  | .gl => commit.glEntries
  | .stock => Inner.sequenceFrom tables.stockIdentity commit.stockLedgerEntries
  | .party => commit.partyTransactions
  | .tax => commit.taxTransactions
  | .settlement => commit.settlements

/-- A row without its identity value. -/
def unsequenced : (kind : LedgerKind) → kind.Row → kind.Row
  | .gl => id
  | .stock => StockLedgerEntry.unsequenced
  | .party => id
  | .tax => id
  | .settlement => id

@[simp] theorem stamp_unsequenced (kind : LedgerKind) (row : kind.Row) :
    kind.stamp (kind.unsequenced row) = kind.stamp row := by
  cases kind <;> rfl

@[simp] theorem unsequenced_reversal (kind : LedgerKind) (batchId : String) (row : kind.Row) :
    kind.unsequenced (kind.reversal batchId row) = kind.reversal batchId row := by
  cases kind <;> rfl

theorem written_unsequenced (kind : LedgerKind) (commit : PostingCommit) (tables : PgTables) :
    (kind.written commit tables).map kind.unsequenced = (kind.rows commit).map kind.unsequenced := by
  cases kind with
  | stock => exact sequenceFrom_unsequenced _ _
  | _ => rfl

/-- The tables stamp no other voucher on a row. -/
theorem stamp_written {kind : LedgerKind} {commit : PostingCommit} {tables : PgTables} {stamp : Stamp}
    (h : ∀ row ∈ kind.rows commit, kind.stamp row = stamp) :
    ∀ row ∈ kind.written commit tables, kind.stamp row = stamp := by
  intro row hrow
  have hmem : kind.unsequenced row ∈ (kind.rows commit).map kind.unsequenced := by
    rw [← written_unsequenced kind commit tables]
    exact List.mem_map_of_mem hrow
  obtain ⟨raw, hraw, hsame⟩ := List.mem_map.1 hmem
  rw [← stamp_unsequenced, ← hsame, stamp_unsequenced]
  exact h raw hraw

/-- The lookup by voucher number, up to the order the database returns rows in. -/
theorem found_perm (pg : Postgres) (kind : LedgerKind) (tables : PgTables) (company : Uuid)
    (no : String) : (kind.found (tables.view pg) company no).Perm
      ((kind.stored tables company).filter fun row => (kind.stamp row).voucherNo = no) := by
  cases kind with
  | gl => exact List.perm_insertionSort _ _
  | stock => exact List.Perm.refl _
  | party => exact List.perm_insertionSort _ _
  | tax => exact List.perm_insertionSort _ _
  | settlement => exact List.Perm.refl _

/-- A transaction appends its rows to the company's tables. -/
theorem stored_written {commit : PostingCommit} {tables tables' : PgTables}
    (h : PgTables.Written commit tables tables') (kind : LedgerKind) (company : Uuid) :
    kind.stored tables' company = kind.stored tables company ++
      if company = commit.companyId then kind.written commit tables else [] := by
  have hlog : ∀ {α : Type} (table : Table Uuid (List α)) (rows : List α),
      (table.extend commit.companyId rows).log company =
        table.log company ++ if company = commit.companyId then rows else [] := by
    intro α table rows
    split_ifs with hcompany
    · subst hcompany
      rw [Table.log, Table.extend, AList.lookup_insert, Option.getD_some]
    · rw [Table.log, Table.extend, AList.lookup_insert_ne hcompany, List.append_nil]
      rfl
  cases kind with
  | gl => exact (congrArg (fun table => table.log company) h.glEntries).trans (hlog _ _)
  | stock => exact (congrArg (fun table => table.log company) h.stockLedger).trans (hlog _ _)
  | party => exact (congrArg (fun table => table.log company) h.partyTransactions).trans (hlog _ _)
  | tax => exact (congrArg (fun table => table.log company) h.taxTransactions).trans (hlog _ _)
  | settlement => exact (congrArg (fun table => table.log company) h.settlements).trans (hlog _ _)

end LedgerKind

/-! ### Every row belongs to the entry that wrote it -/

namespace Entry

/-- The rows an entry wrote, as the tables hold them. -/
def writes (entry : Entry PgTables) (kind : LedgerKind) : List kind.Row :=
  kind.written entry.commit entry.before

/-- The key of an entry's posting batch. -/
def batchKey (entry : Entry PgTables) : Uuid × String := (entry.companyId, entry.commit.batch.id)

/-- The entry posted the document. -/
structure Posts (entry : Entry PgTables) (key : Uuid × String × String) : Prop where
  document : Inner.docKey entry.commit = key
  notCancel : ∀ cmd, entry.command ≠ .cancel cmd

end Entry

/-- Where the rows of an entry come from: it posted a document and they name it, or it cancelled one
and they reverse what an earlier entry wrote for it. -/
inductive Sourced (journal : List (Entry PgTables)) (entry : Entry PgTables) : Prop
  | posted (doctype id : String) (hposts : entry.Posts (entry.companyId, doctype, id))
      (hbatch : entry.commit.batch.id = "PB-" ++ id)
      (hrows : ∀ kind : LedgerKind, ∀ row ∈ entry.writes kind, kind.stamp row = ⟨doctype, id, false⟩)
  | cancelled (cmd : CancelCommand) (hcommand : entry.command = .cancel cmd)
      (hbatch : entry.commit.batch.id = "PB-" ++ cmd.documentId ++ reversalSuffix)
      (source : Entry PgTables) (hsource : source ∈ journal)
      (hposts : source.Posts (entry.companyId, cmd.doctype, cmd.documentId))
      (hstamps : ∀ kind : LedgerKind, ∀ row ∈ entry.writes kind,
        kind.stamp row = ⟨cmd.doctype, cmd.documentId, true⟩)
      (hrows : ∀ kind : LedgerKind, ((entry.writes kind).map kind.unsequenced).Perm
        ((source.writes kind).map (kind.reversal entry.commit.batch.id)))

theorem Sourced.mono {journal journal' : List (Entry PgTables)} {entry : Entry PgTables}
    (h : Sourced journal entry) (hmono : journal ⊆ journal') : Sourced journal' entry := by
  cases h with
  | posted doctype id hposts hbatch hrows => exact .posted doctype id hposts hbatch hrows
  | cancelled cmd hcommand hbatch source hsource hposts hstamps hrows =>
    exact .cancelled cmd hcommand hbatch source (hmono hsource) hposts hstamps hrows

/-- What the entries of a company wrote to a ledger, in their order. -/
def writtenFor (journal : List (Entry PgTables)) (company : Uuid) (kind : LedgerKind) :
    List kind.Row :=
  (journal.filter fun entry => entry.companyId = company).flatMap fun entry => entry.writes kind

theorem writtenFor_append (journal : List (Entry PgTables)) (entry : Entry PgTables) (company : Uuid)
    (kind : LedgerKind) : writtenFor (journal ++ [entry]) company kind =
      writtenFor journal company kind ++
        if company = entry.companyId then entry.writes kind else [] := by
  rw [writtenFor, List.filter_append, List.flatMap_append]
  congr 1
  by_cases hcompany : company = entry.companyId
  · rw [List.filter_singleton, decide_eq_true hcompany.symm, if_pos hcompany, cond_true,
      List.flatMap_singleton]
  · rw [List.filter_singleton, decide_eq_false (Ne.symm hcompany), if_neg hcompany, cond_false,
      List.flatMap_nil]

structure Owned (book : Book PgTables) : Prop where
  /-- The tables hold what the journal wrote. -/
  stored : ∀ (kind : LedgerKind) (company : Uuid),
    kind.stored book.store company = writtenFor book.journal company kind
  batches : ∀ entry ∈ book.journal, (AList.lookup entry.batchKey book.store.batches).isSome = true
  /-- No two entries share a batch key. -/
  distinct : (book.journal.map Entry.batchKey).Nodup
  sourced : ∀ entry ∈ book.journal, Sourced book.journal entry
  /-- A stored document was posted. -/
  documents : ∀ key, (AList.lookup key book.store.documents).isSome = true →
    ∃ entry ∈ book.journal, entry.Posts key

theorem owned_fresh : Owned { store := {} } where
  stored kind company := by cases kind <;> rfl
  batches _ h := absurd h List.not_mem_nil
  distinct := List.nodup_nil
  sourced _ h := absurd h List.not_mem_nil
  documents key h := by
    have hnone : AList.lookup key (∅ : Documents) = none := AList.lookup_empty key
    rw [hnone] at h
    cases h

section Owned
variable {book : Book PgTables}

/-- The rows that the entry which posted a document wrote for it. -/
theorem Owned.posted (h : Owned book) {source : Entry PgTables} (hsource : source ∈ book.journal)
    {company : Uuid} {doctype id : String} (hposts : source.Posts (company, doctype, id)) :
    source.companyId = company ∧ source.commit.batch.id = "PB-" ++ id ∧
      ∀ kind : LedgerKind, ∀ row ∈ source.writes kind, kind.stamp row = ⟨doctype, id, false⟩ := by
  cases h.sourced source hsource with
  | posted doctype' id' hposts' hbatch hrows =>
    obtain ⟨hcompany, hkey⟩ := Prod.mk.inj (hposts'.document.symm.trans hposts.document)
    obtain ⟨rfl, rfl⟩ := Prod.mk.inj hkey
    exact ⟨hcompany, hbatch, hrows⟩
  | cancelled cmd hcommand => exact absurd hcommand (hposts.notCancel cmd)

/-- The journal of one company has distinct batch keys too. -/
theorem Owned.distinct_company (h : Owned book) (company : Uuid) :
    ((book.journal.filter fun entry => entry.companyId = company).map Entry.batchKey).Nodup :=
  h.distinct.sublist (List.filter_sublist.map Entry.batchKey)

/-- A row under the number of a posted document that another entry wrote is its reversal. -/
theorem Owned.reversal_of_number (h : Owned book) {source other : Entry PgTables}
    (hsource : source ∈ book.journal) {company : Uuid} {doctype id : String}
    (hposts : source.Posts (company, doctype, id)) (hother : other ∈ book.journal)
    (hcompany : other.companyId = company) (hkey : other.batchKey ≠ source.batchKey)
    {kind : LedgerKind} {row : kind.Row} (hrow : row ∈ other.writes kind)
    (hno : (kind.stamp row).voucherNo = id) :
    (kind.stamp row).isReversal = true ∧ other.batchKey = (company, "PB-" ++ id ++ reversalSuffix) := by
  obtain ⟨hcompany', hbatch', -⟩ := h.posted hsource hposts
  cases h.sourced other hother with
  | posted doctype' id' _ hbatch hrows =>
    -- the same number would be the same batch
    rw [hrows kind row hrow] at hno
    have hid : id' = id := hno
    rw [hid] at hbatch
    exact absurd (Prod.ext (hcompany.trans hcompany'.symm) (hbatch.trans hbatch'.symm)) hkey
  | cancelled cmd _ hbatch _ _ _ hstamps _ =>
    rw [hstamps kind row hrow] at hno ⊢
    have hid : cmd.documentId = id := hno
    rw [hid] at hbatch
    exact ⟨rfl, Prod.ext hcompany hbatch⟩

/-- Of the rows of a kind those a posting wrote are the ones that are seen, when they are and no other entry's
are. -/
theorem Owned.filter_stored (h : Owned book) {source : Entry PgTables} (hsource : source ∈ book.journal)
    {company : Uuid} (hcompany : source.companyId = company) {kind : LedgerKind} {seen : kind.Row → Bool}
    (hown : ∀ row ∈ source.writes kind, seen row = true)
    (hothers : ∀ other ∈ book.journal, other.companyId = company → other.batchKey ≠ source.batchKey →
      ∀ row ∈ other.writes kind, seen row = false) :
    (kind.stored book.store company).filter seen = source.writes kind := by
  rw [h.stored, writtenFor]
  refine Journal.filter_flatMap_eq (h.distinct_company company)
    (List.mem_filter.2 ⟨hsource, decide_eq_true hcompany⟩) hown ?_
  intro other hother hkey row hrow
  obtain ⟨hmem, hsame⟩ := List.mem_filter.1 hother
  exact hothers other hmem (of_decide_eq_true hsame) hkey row hrow

/-- The live rows under a voucher number are those of the one document posted under it. -/
theorem Owned.live (h : Owned book) {source : Entry PgTables} (hsource : source ∈ book.journal)
    {company : Uuid} {doctype id : String} (hposts : source.Posts (company, doctype, id))
    (kind : LedgerKind) :
    (kind.stored book.store company).filter (fun row =>
      !(kind.stamp row).isReversal && (kind.stamp row).voucherNo = id) = source.writes kind := by
  obtain ⟨hcompany, -, hrows⟩ := h.posted hsource hposts
  refine h.filter_stored hsource hcompany (fun row hrow => ?_) fun other hother hsame hkey row hrow => ?_
  · rw [hrows kind row hrow]
    simp
  · by_cases hno : (kind.stamp row).voucherNo = id
    · have hreversal := h.reversal_of_number hsource hposts hother hsame hkey hrow hno
      simp [hreversal.1]
    · simp [hno]

/-- All rows of a document that has not been cancelled are those its posting wrote. -/
theorem Owned.uncancelled (h : Owned book) {source : Entry PgTables} (hsource : source ∈ book.journal)
    {company : Uuid} {doctype id : String} (hposts : source.Posts (company, doctype, id))
    (hfree : (company, "PB-" ++ id ++ reversalSuffix) ∉ book.journal.map Entry.batchKey)
    (kind : LedgerKind) :
    (kind.stored book.store company).filter (fun row =>
      (kind.stamp row).voucherType = doctype && (kind.stamp row).voucherNo = id) =
        source.writes kind := by
  obtain ⟨hcompany, -, hrows⟩ := h.posted hsource hposts
  refine h.filter_stored hsource hcompany (fun row hrow => ?_) fun other hother hsame hkey row hrow => ?_
  · rw [hrows kind row hrow]
    simp
  · have hno : (kind.stamp row).voucherNo ≠ id := fun hno => by
      have hreversal := h.reversal_of_number hsource hposts hother hsame hkey hrow hno
      exact hfree (List.mem_map.2 ⟨other, hother, hreversal.2⟩)
    simp [hno]

end Owned

/-! ### Every step keeps it -/

/-- The entry of a draft that is written. -/
def writtenEntry (draft : Draft PgTables) (store : PgTables) (response : Value) : Entry PgTables :=
  { draft with before := store, response }

section Rule
variable {pg : Postgres} {codec : Codec} {allowed : Allowed MemOp} {book₀ book : Book PgTables}
  {draft : Draft PgTables} {response : Value}

/-- Committing a draft leaves the book as it is, or writes the draft and records it. -/
theorem commit_written_cases (pg : Postgres) (codec : Codec) (env : Env) (draft : Draft PgTables)
    (book : Book PgTables) :
    book.commit (pgBackend pg codec) env draft = book ∨
    ∃ response tables', PgTables.Written draft.commit book.store tables' ∧
      book.commit (pgBackend pg codec) env draft =
        { store := tables', journal := book.journal ++ [writtenEntry draft book.store response] } := by
  rcases PgTables.postingCommit_cases pg codec env draft.commit book.store with
    ⟨result, hrun, hreplayed⟩ | ⟨response, tables', hwritten, hrun⟩
  · refine .inl ?_
    simp only [Book.commit, pgBackend, hrun]
    cases result with
    | error e => rfl
    | ok outcome => simp only [hreplayed outcome rfl, if_true]
  · refine .inr ⟨response, tables', hwritten, ?_⟩
    simp [Book.commit, pgBackend, hrun, writtenEntry]

/-- The live rows a cancel found are those of the document it cancels. -/
theorem Owned.found (h : Owned book₀) {source : Entry PgTables} (hsource : source ∈ book₀.journal)
    {company : Uuid} {doctype id : String} (hposts : source.Posts (company, doctype, id))
    (kind : LedgerKind) :
    ((kind.found (book₀.store.view pg) company id).filter fun row =>
      !(kind.stamp row).isReversal).Perm (source.writes kind) := by
  have hperm := (kind.found_perm pg book₀.store company id).filter fun row =>
    !(kind.stamp row).isReversal
  rw [List.filter_filter, h.live hsource hposts kind] at hperm
  exact hperm

/-- What a draft writes comes from its document, or from the document it cancels. -/
theorem built_sourced (h₀ : Owned book₀)
    (hbuilt : Draft.Built codec (pgBackend pg codec) allowed book₀ draft) (store : PgTables)
    (response : Value) : Sourced book₀.journal (writtenEntry draft store response) := by
  have hbuild := hbuilt.build
  rw [hbuilt.snapshot] at hbuild
  cases hcommand : draft.command with
  | submit cmd =>
    rw [hcommand] at hbuild
    have hstamped := buildSubmit_stamped hbuild
    obtain ⟨prepared, shortfalls, settlements, updates, -, -, -, hcommit⟩ := buildSubmit_ok hbuild
    refine .posted cmd.doctype draft.documentId ⟨?_, ?_⟩ ?_ fun kind =>
      LedgerKind.stamp_written (hstamped kind)
    · rw [writtenEntry, hcommit]
      rfl
    · intro cancel hcancel
      have hsame := hcommand.symm.trans hcancel
      cases hsame
    · rw [writtenEntry, hcommit]
      rfl
  | takeOn cmd =>
    rw [hcommand] at hbuild
    have hstamped := buildOpening_stamped hbuild
    obtain ⟨postingDate, stock, tb, continuations, -, -, hcommit⟩ := buildOpening_ok hbuild
    refine .posted openingDoctype cmd.documentId ⟨?_, ?_⟩ ?_ fun kind =>
      LedgerKind.stamp_written (hstamped kind)
    · rw [writtenEntry, hcommit]
      rfl
    · intro cancel hcancel
      have hsame := hcommand.symm.trans hcancel
      cases hsame
    · rw [writtenEntry, hcommit]
      rfl
  | cancel cmd =>
    rw [hcommand] at hbuild
    obtain ⟨doc, postingDate, guard, updates, hdoc, -, -, -, -, hcommit⟩ := buildCancel_ok hbuild
    have hsome : (AList.lookup (draft.companyId, cmd.doctype, cmd.documentId)
        book₀.store.documents).isSome = true := by
      have hlookup : AList.lookup (draft.companyId, cmd.doctype, cmd.documentId)
          book₀.store.documents = some doc := hdoc
      rw [hlookup]
      rfl
    obtain ⟨source, hsource, hposts⟩ := h₀.documents _ hsome
    have hbatch : draft.commit.batch.id = "PB-" ++ cmd.documentId ++ reversalSuffix := by
      rw [hcommit]
      rfl
    have hrows : ∀ kind : LedgerKind, (kind.rows draft.commit).Perm
        ((source.writes kind).map (kind.reversal draft.commit.batch.id)) := by
      intro kind
      rw [hbatch, hcommit, LedgerKind.rows_cancelCommit]
      exact (h₀.found hsource hposts kind).map _
    have hstamps : ∀ kind : LedgerKind, ∀ row ∈ kind.rows draft.commit,
        kind.stamp row = ⟨cmd.doctype, cmd.documentId, true⟩ := by
      intro kind row hrow
      obtain ⟨raw, hraw, rfl⟩ := List.mem_map.1 ((hrows kind).mem_iff.1 hrow)
      rw [LedgerKind.stamp_reversal, (h₀.posted hsource hposts).2.2 kind raw hraw]
    refine .cancelled cmd hcommand hbatch source hsource hposts
      (fun kind => LedgerKind.stamp_written (hstamps kind)) fun kind => ?_
    have hperm := (hrows kind).map kind.unsequenced
    rw [List.map_map] at hperm
    have hsame : kind.unsequenced ∘ kind.reversal draft.commit.batch.id =
        kind.reversal draft.commit.batch.id := funext fun row => kind.unsequenced_reversal _ row
    rw [hsame] at hperm
    have hwrites : ((writtenEntry draft store response).writes kind).map kind.unsequenced =
        (kind.rows draft.commit).map kind.unsequenced := kind.written_unsequenced _ _
    rw [hwrites]
    exact hperm

/-- A document is there after the transaction because it was posted, by this entry or before. -/
theorem documents_written (h : Owned book) {store' : PgTables}
    (hwritten : PgTables.Written draft.commit book.store store')
    (hbuilt : Draft.Built codec (pgBackend pg codec) allowed book₀ draft)
    {key : Uuid × String × String} (hkey : (AList.lookup key store'.documents).isSome = true) :
    ∃ entry ∈ book.journal ++ [writtenEntry draft book.store response], entry.Posts key := by
  have hbefore : (AList.lookup key book.store.documents).isSome = true →
      ∃ entry ∈ book.journal ++ [writtenEntry draft book.store response], entry.Posts key := by
    intro hsome
    obtain ⟨entry, hentry, hposts⟩ := h.documents key hsome
    exact ⟨entry, List.mem_append_left _ hentry, hposts⟩
  rcases hwritten.documents key hkey with rfl | hsome
  · obtain ⟨-, ⟨-, -, -, hnotCancel⟩ | ⟨cmd, doc, -, hold, -⟩⟩ :=
      Command.build_new_or_cancel hbuilt.build
    · exact ⟨_, List.mem_append_right _ (List.mem_singleton_self _), ⟨rfl, hnotCancel⟩⟩
    · -- a cancelled document was there
      refine hbefore ?_
      have hchecked := hwritten.checkedDocument
      unfold Inner.checkDocument at hchecked
      cases hlookup : AList.lookup (Inner.docKey draft.commit) book.store.documents with
      | some existing => rfl
      | none =>
        rw [hlookup, hold] at hchecked
        cases hchecked
  · exact hbefore hsome

/-- A transaction keeps every row with its entry. -/
theorem owned_written (h₀ : Owned book₀) (hgrow : book₀.journal <+: book.journal) (h : Owned book)
    (hbuilt : Draft.Built codec (pgBackend pg codec) allowed book₀ draft) {store' : PgTables}
    (hwritten : PgTables.Written draft.commit book.store store') :
    Owned { store := store', journal := book.journal ++ [writtenEntry draft book.store response] } := by
  have hcompany : draft.commit.companyId = draft.companyId :=
    (Command.build_new_or_cancel hbuilt.build).1
  have hkey : (writtenEntry draft book.store response).batchKey =
      (draft.commit.companyId, draft.commit.batch.id) := Prod.ext hcompany.symm rfl
  constructor
  · intro kind company
    rw [LedgerKind.stored_written hwritten, h.stored, writtenFor_append, hcompany]
    rfl
  · intro entry hentry
    rw [hwritten.batches]
    rcases List.mem_append.1 hentry with hentry | hentry
    · by_cases heq : entry.batchKey = (draft.commit.companyId, draft.commit.batch.id)
      · rw [heq, AList.lookup_insert]
        rfl
      · rw [AList.lookup_insert_ne heq]
        exact h.batches entry hentry
    · rw [List.mem_singleton.1 hentry, hkey, AList.lookup_insert]
      rfl
  · rw [List.map_append, List.nodup_append]
    refine ⟨h.distinct, List.nodup_singleton _, fun a ha b hb => ?_⟩
    obtain ⟨entry, hentry, rfl⟩ := List.mem_map.1 ha
    rw [List.map_singleton, List.mem_singleton, hkey] at hb
    -- the batch key was free
    rintro rfl
    have htaken := h.batches entry hentry
    rw [hb, hwritten.newBatch] at htaken
    cases htaken
  · intro entry hentry
    rcases List.mem_append.1 hentry with hentry | hentry
    · exact (h.sourced entry hentry).mono (List.subset_append_left _ _)
    · rw [List.mem_singleton.1 hentry]
      exact (built_sourced h₀ hbuilt _ _).mono
        (List.Subset.trans hgrow.subset (List.subset_append_left _ _))
  · exact fun key hsome => documents_written h hwritten hbuilt hsome

theorem owned_rule : Snapshot.Rule (protocol codec (pgBackend pg codec) allowed) Owned
    fun book book' => book.journal <+: book'.journal where
  refl _ := List.prefix_rfl
  trans := List.IsPrefix.trans
  commit := by
    rintro book₀ book _ draft h₀ hgrow h hbuilt ⟨env, rfl⟩
    rcases commit_written_cases pg codec env draft book with hsame | ⟨response, store', hwritten, hbook⟩
    · rw [hsame]
      exact ⟨h, List.prefix_rfl⟩
    · rw [hbook]
      exact ⟨owned_written h₀ hgrow h hbuilt hwritten, List.prefix_append _ _⟩
  other := by
    rintro book _ h ⟨op, env, -, rfl⟩
    have hframe := operate_frame codec env op book.store.toInner
    refine ⟨⟨fun kind company => ?_, ?_, h.distinct, h.sourced, ?_⟩, List.prefix_rfl⟩
    · rw [← h.stored]
      cases kind with
      | gl => exact congrArg (fun table => table.log company) hframe.glEntries
      | stock => exact congrArg (fun table => table.log company) hframe.stockLedger
      | party => exact congrArg (fun table => table.log company) hframe.partyTransactions
      | tax => exact congrArg (fun table => table.log company) hframe.taxTransactions
      | settlement => exact congrArg (fun table => table.log company) hframe.settlements
    · intro entry hentry
      have hbatches := h.batches entry hentry
      rw [← hframe.batches] at hbatches
      exact hbatches
    · intro key hsome
      refine h.documents key ?_
      rw [← hframe.documents]
      exact hsome

end Rule

/-! ### What a document comes to -/

namespace LedgerKind

/-- Where a row of a ledger counts: an account, a pair, a party, a tax type or an invoice. -/
def Place : LedgerKind → Type
  | .gl => String
  | .stock => Pair
  | .party => PartyKind × String
  | .tax => String
  | .settlement => String × String

instance : (kind : LedgerKind) → DecidableEq kind.Place
  | .gl => inferInstanceAs (DecidableEq String)
  | .stock => inferInstanceAs (DecidableEq Pair)
  | .party => inferInstanceAs (DecidableEq (PartyKind × String))
  | .tax => inferInstanceAs (DecidableEq String)
  | .settlement => inferInstanceAs (DecidableEq (String × String))

def place : (kind : LedgerKind) → kind.Row → kind.Place
  | .gl => GlEntry.account
  | .stock => StockLedgerEntry.pair
  | .party => fun t => (t.kind, t.party)
  | .tax => TaxTransaction.taxType
  | .settlement => Settlement.invoiceKey

/-- What a row adds: the amount of the transaction and the base amount; of stock, the quantity and its
value; of tax, the tax and what it is on. -/
def amounts : (kind : LedgerKind) → kind.Row → ℚ × ℚ
  | .gl => fun e => (e.debit - e.credit, e.baseDebit.getD 0 - e.baseCredit.getD 0)
  | .stock => fun sle => (sle.qtyChange, sle.qtyChange * sle.valuationRate)
  | .party => fun t => (t.amount, t.baseAmount)
  | .tax => fun t => (t.taxAmount, t.baseAmount)
  | .settlement => fun s => (s.allocatedAmount, s.allocatedAmount)

/-- The stored rows of a document. -/
def ofDocument (tables : PgTables) (key : Uuid × String × String) (kind : LedgerKind) :
    List kind.Row :=
  (kind.stored tables key.1).filter fun row =>
    (kind.stamp row).voucherType = key.2.1 && (kind.stamp row).voucherNo = key.2.2

/-- What the stored rows of a document come to at a place. -/
def net (tables : PgTables) (key : Uuid × String × String) (kind : LedgerKind) (place : kind.Place) :
    ℚ × ℚ :=
  (((kind.ofDocument tables key).filter fun row => kind.place row = place).map kind.amounts).sum

theorem place_reversal (kind : LedgerKind) (batchId : String) (row : kind.Row) :
    kind.place (kind.reversal batchId row) = kind.place row := by
  cases kind <;> rfl

theorem place_unsequenced (kind : LedgerKind) (row : kind.Row) :
    kind.place (kind.unsequenced row) = kind.place row := by
  cases kind <;> rfl

theorem amounts_unsequenced (kind : LedgerKind) (row : kind.Row) :
    kind.amounts (kind.unsequenced row) = kind.amounts row := by
  cases kind <;> rfl

/-- A reversal takes back what the row added. -/
theorem amounts_reversal (kind : LedgerKind) (batchId : String) (row : kind.Row) :
    kind.amounts (kind.reversal batchId row) = -kind.amounts row := by
  cases kind with
  | gl => exact Prod.ext (neg_sub _ _).symm (neg_sub _ _).symm
  | stock => exact Prod.ext rfl (neg_mul _ _)
  | party => rfl
  | tax => rfl
  | settlement => rfl

end LedgerKind

theorem owned_run (pg : Postgres) (codec : Codec) (events : List (Event MemOp)) :
    Owned (pgRun pg codec events).book :=
  System.invariant_of_rule owned_rule owned_fresh fun event _ => event.allowed_all

/-- What a cancel does to one ledger: it appends one reversal for each row its document wrote there,
so that the document comes to nothing at every place and no other document changes. -/
structure Reverses (entry posted : Entry PgTables) (key : Uuid × String × String)
    (before after : PgTables) (kind : LedgerKind) : Prop where
  appended : ∀ company, kind.stored after company =
    kind.stored before company ++ if company = key.1 then entry.writes kind else []
  reversals : ((entry.writes kind).map kind.unsequenced).Perm
    ((posted.writes kind).map (kind.reversal ("PB-" ++ key.2.2 ++ reversalSuffix)))
  ofDocument : kind.ofDocument before key = posted.writes kind
  net : ∀ place, kind.net after key place = 0
  others : ∀ other, other ≠ key → kind.ofDocument after other = kind.ofDocument before other

/-- What the entry of a cancel does to each ledger. -/
theorem Owned.reverses {before after : Book PgTables} (hbefore : Owned before) (hafter : Owned after)
    {entry posted : Entry PgTables} (happlied : after.journal = before.journal ++ [entry])
    {doctype id : String} (hposted : posted ∈ before.journal)
    (hposts : posted.Posts (entry.companyId, doctype, id))
    (hbatch : entry.commit.batch.id = "PB-" ++ id ++ reversalSuffix)
    (hstamps : ∀ kind : LedgerKind, ∀ row ∈ entry.writes kind, kind.stamp row = ⟨doctype, id, true⟩)
    (hrows : ∀ kind : LedgerKind, ((entry.writes kind).map kind.unsequenced).Perm
      ((posted.writes kind).map (kind.reversal entry.commit.batch.id))) (kind : LedgerKind) :
    Reverses entry posted (entry.companyId, doctype, id) before.store after.store kind := by
  have happended : ∀ company, kind.stored after.store company = kind.stored before.store company ++
      if company = entry.companyId then entry.writes kind else [] := by
    intro company
    rw [hafter.stored, happlied, writtenFor_append, ← hbefore.stored]
  -- the batch of the cancel is new, so nothing was reversed before
  have hfree : (entry.companyId, "PB-" ++ id ++ reversalSuffix) ∉
      before.journal.map Entry.batchKey := by
    have hdistinct := hafter.distinct
    rw [happlied, List.map_append, List.nodup_append] at hdistinct
    have hkey : entry.batchKey = (entry.companyId, "PB-" ++ id ++ reversalSuffix) :=
      Prod.ext rfl hbatch
    exact fun hmem => hdistinct.2.2 _ hmem _ (List.mem_singleton_self _) hkey.symm
  have hof := hbefore.uncancelled hposted hposts hfree kind
  rw [hbatch] at hrows
  refine ⟨happended, hrows kind, hof, fun place => ?_, fun other hne => ?_⟩
  · have hall : kind.ofDocument after.store (entry.companyId, doctype, id) =
        posted.writes kind ++ entry.writes kind := by
      rw [LedgerKind.ofDocument, happended, if_pos rfl, List.filter_append]
      refine congrArg₂ (· ++ ·) hof (List.filter_eq_self.2 fun row hrow => ?_)
      rw [hstamps kind row hrow]
      simp
    rw [LedgerKind.net, hall]
    exact Journal.sum_filter_reversed (kind.amounts_reversal _)
      (fun row => by rw [kind.place_reversal]) kind.amounts_unsequenced
      (fun row => by rw [kind.place_unsequenced]) (hrows kind)
  · have hnone : (if other.1 = entry.companyId then entry.writes kind else []).filter (fun row =>
        (kind.stamp row).voucherType = other.2.1 && (kind.stamp row).voucherNo = other.2.2) = [] := by
      split_ifs with hcompany
      · refine List.filter_eq_nil_iff.2 fun row hrow hmatch => hne ?_
        rw [hstamps kind row hrow] at hmatch
        simp only [Bool.and_eq_true, decide_eq_true_eq] at hmatch
        exact Prod.ext hcompany (Prod.ext hmatch.1.symm hmatch.2.symm)
      · rfl
    rw [LedgerKind.ofDocument, happended, List.filter_append, hnone, List.append_nil]
    rfl

/-- In every run, whenever a step applies the cancel of a document, one earlier entry posted the
document, and in each of the five ledgers the step reverses exactly the rows that entry wrote. -/
theorem cancel_reverses_posted (pg : Postgres) (codec : Codec) (events : List (Event MemOp))
    (event : Event MemOp) (entry : Entry PgTables) (cmd : CancelCommand)
    (happlied : (pgRun pg codec (events ++ [event])).book.journal =
      (pgRun pg codec events).book.journal ++ [entry])
    (hcancel : entry.command = .cancel cmd) :
    let key := (entry.companyId, cmd.doctype, cmd.documentId)
    ∃ posted ∈ (pgRun pg codec events).book.journal, posted.Posts key ∧
      (∀ other ∈ (pgRun pg codec events).book.journal, other.Posts key → other = posted) ∧
      ∀ kind, Reverses entry posted key (pgRun pg codec events).book.store
        (pgRun pg codec (events ++ [event])).book.store kind := by
  intro key
  have hbefore := owned_run pg codec events
  have hafter := owned_run pg codec (events ++ [event])
  have hentry : entry ∈ (pgRun pg codec (events ++ [event])).book.journal := by
    rw [happlied]
    exact List.mem_append_right _ (List.mem_singleton_self entry)
  cases hafter.sourced entry hentry with
  | posted doctype id hposts => exact absurd hcancel (hposts.notCancel cmd)
  | cancelled cmd' hcommand hbatch posted hposted hposts hstamps hrows =>
    obtain rfl : cmd' = cmd := Command.cancel.inj (hcommand.symm.trans hcancel)
    have hearlier : posted ∈ (pgRun pg codec events).book.journal := by
      rw [happlied] at hposted
      rcases List.mem_append.1 hposted with hposted | hposted
      · exact hposted
      · rw [List.mem_singleton.1 hposted] at hposts
        exact absurd hcancel (hposts.notCancel cmd')
    refine ⟨posted, hearlier, hposts, fun other hother hothers => ?_,
      hbefore.reverses hafter happlied hearlier hposts hbatch hstamps hrows⟩
    -- both stand under the batch key of the document
    obtain ⟨hcompany, hid, -⟩ := hbefore.posted hother hothers
    obtain ⟨hcompany', hid', -⟩ := hbefore.posted hearlier hposts
    have hsame : other.batchKey = posted.batchKey :=
      Prod.ext (hcompany.trans hcompany'.symm) (hid.trans hid'.symm)
    exact List.inj_on_of_nodup_map hbefore.distinct hother hearlier hsame

/-! ### An expense and its cancel -/

/-- Rent with tax. -/
def rentExpense : Command :=
  .submit
    { doctype := "Expense"
      documentId := some "EX-1"
      payload := [("expense_account", .string "Rent"), ("gross_amount", .int 118),
        ("net_amount", .int 100), ("posting_date", .string "2026-01-05"), ("tax_amount", .int 18)]
      items := []
      idempotencyKey := none
      offlineFiscal := false }

/-- A database that orders texts by their characters and writes whole doubles as integers. -/
def plainPostgres : Postgres where
  collate a b := a ≤ b
  jsonText _ := ""
  floatJson q := if q.den = 1 then .int q.num else .num q

/-- The expense is posted and its cancel is built. -/
def cancelBuilt : List (Event MemOp) :=
  let env : Env := ⟨0, "2026-01-05", 0⟩
  let clerk : Actor := ⟨some 7, some 5, none⟩
  Event.whole 1 clerk rentExpense 0 env ++
    [.call 1 clerk (.cancel ⟨"Expense", "EX-1", none⟩), .advance 1 env, .advance 1 env]

theorem cancel_reverses_posted_rent :
    ∃ entry posted, ∀ kind, Reverses entry posted (1, "Expense", "EX-1")
      (pgRun plainPostgres serdeCodec cancelBuilt).book.store
      (pgRun plainPostgres serdeCodec (cancelBuilt ++ [.advance 1 ⟨0, "2026-01-05", 0⟩])).book.store
      kind := by
  have hall : ∀ events : List (Event MemOp), ∀ event ∈ events, event.Allowed (.all MemOp) :=
    fun _ event _ => event.allowed_all
  obtain ⟨added, hadded⟩ : (pgRun plainPostgres serdeCodec cancelBuilt).book.journal <+:
      (pgRun plainPostgres serdeCodec (cancelBuilt ++ [Event.advance 1 ⟨0, "2026-01-05", 0⟩])).book.journal :=
    System.growth_of_rule owned_rule owned_fresh (hall _) (hall _)
  have hlengths : (pgRun plainPostgres serdeCodec cancelBuilt).book.journal.length = 1 ∧
      (pgRun plainPostgres serdeCodec
        (cancelBuilt ++ [Event.advance 1 ⟨0, "2026-01-05", 0⟩])).book.journal.length = 2 := by
    decide +kernel
  have hcancelled : (pgRun plainPostgres serdeCodec
      (cancelBuilt ++ [Event.advance 1 ⟨0, "2026-01-05", 0⟩])).book.journal.getLast?.bind
        Entry.cancelledKey = some (1, "Expense", "EX-1") := by decide +kernel
  obtain ⟨entry, rfl⟩ : ∃ entry, added = [entry] := by
    refine List.length_eq_one_iff.1 ?_
    have hlength := congrArg List.length hadded
    rw [List.length_append, hlengths.1, hlengths.2] at hlength
    omega
  rw [← hadded, List.getLast?_concat, Option.bind_some, Entry.cancelledKey] at hcancelled
  cases hcommand : entry.command with
  | cancel cmd =>
    rw [hcommand] at hcancelled
    obtain ⟨posted, -, -, -, hreverses⟩ := cancel_reverses_posted plainPostgres serdeCodec cancelBuilt
      (.advance 1 ⟨0, "2026-01-05", 0⟩) entry cmd hadded.symm hcommand
    have hkey : (entry.companyId, cmd.doctype, cmd.documentId) = (1, "Expense", "EX-1") :=
      Option.some.inj hcancelled
    rw [hkey] at hreverses
    exact ⟨entry, posted, hreverses⟩
  | _ =>
    rw [hcommand] at hcancelled
    cases hcancelled

end AtlasTeam
