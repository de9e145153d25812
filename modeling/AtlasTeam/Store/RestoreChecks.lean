import AtlasTeam.Posting.OpeningStock
import AtlasTeam.Posting.RowIds
import AtlasTeam.Store.LiveBooks

/-!
# Checks after a restore that always pass (`scripts/verify_restore.sql`)

A restored database is held to checks that a consistent one passes. `stock_ledger_pairs_have_bins`,
`official_numbers_unique` and `documents_have_posting_batches` pass in every state that commits and the other
operations of the PostgreSQL store can reach (`stock_pairs_have_bins`, `numbers_never_shared`,
`documents_have_batches`): a commit brings a bin for every pair it moves, the unique index holds every number to one
document of its doctype, and the batch of a posting is not written over.
-/

namespace AtlasTeam

/-! ### A commit brings its bins and its batch -/

section Build
variable {codec : Codec} {view : StoreView} {env : Env} {companyId : Uuid} {actor : Actor}
  {documentId : String} {command : Command} {commit : PostingCommit}

theorem mem_recomputeBins {α : Type} {f : List LedgerRow → α} {posted : List StockLedgerEntry} {ledgers : Ledgers}
    (h : ledgers.Reflects view companyId f posted) :
    ∀ sle ∈ posted, sle.pair ∈ (recomputeBins companyId ledgers).map Bin.pair := by
  intro sle hsle
  have hrows := h.rows sle.pair
  rw [if_pos (List.mem_map_of_mem hsle)] at hrows
  obtain ⟨rows, hlookup, -⟩ := Option.map_eq_some_iff.1 hrows
  rw [recomputeBins, List.map_map]
  exact List.mem_map.2 ⟨(sle.pair, rows), (SortedMap.mem_entries_iff _).2 hlookup, rfl⟩

/-- A commit brings a bin for every pair its stock rows are on. -/
theorem Command.build_stockPairs
    (h : command.build codec view env companyId actor documentId = .ok commit) :
    ∀ sle ∈ commit.stockLedgerEntries, sle.pair ∈ commit.bins.map Bin.pair := by
  cases command with
  | submit cmd =>
    obtain ⟨prepared, shortfalls, settlements, updates, -, -, -, rfl⟩ := buildSubmit_ok h
    exact mem_recomputeBins (costStockMovements_quantities view companyId _ _ _)
  | cancel cmd =>
    obtain ⟨doc, postingDate, guard, updates, -, -, -, -, -, rfl⟩ := buildCancel_ok h
    exact mem_recomputeBins ((replayRows_simulates view companyId _).reflects id)
  | takeOn cmd =>
    obtain ⟨postingDate, stock, tb, continuations, hstock, -, rfl⟩ := buildOpening_ok h
    have hrows := openingStock_rows hstock
    intro sle hsle
    rw [show (openingCommit env companyId cmd _ actor postingDate _ _ stock tb continuations).stockLedgerEntries =
      stock.sles from rfl, hrows.sles] at hsle
    obtain ⟨entry, hentry, rfl⟩ := List.mem_map.1 hsle
    show _ ∈ stock.bins.map Bin.pair
    rw [hrows.bins, List.map_map]
    exact List.mem_map.2 ⟨entry, hentry, rfl⟩

/-- The batch of a posting names its document. -/
theorem Command.build_batch
    (h : command.build codec view env companyId actor documentId = .ok commit)
    (hcancel : ∀ cmd, command ≠ .cancel cmd) :
    commit.batch.documentId = commit.document.id ∧ commit.batch.kind = .submit := by
  cases command with
  | submit cmd =>
    obtain ⟨prepared, shortfalls, settlements, updates, -, -, -, rfl⟩ := buildSubmit_ok h
    exact ⟨rfl, rfl⟩
  | cancel cmd => exact absurd rfl (hcancel cmd)
  | takeOn cmd =>
    obtain ⟨postingDate, stock, tb, continuations, -, -, rfl⟩ := buildOpening_ok h
    exact ⟨rfl, rfl⟩

end Build

/-! ### What a transaction does to the numbers -/

namespace PgTables
variable {pg : Postgres} {codec : Codec} {env : Env} {commit : PostingCommit} {tables tables' : PgTables}

/-- The number the document under a key carries. -/
def numberOf (documents : Documents) (key : Uuid × String × String) : Option String :=
  (AList.lookup key documents).bind PostedDocument.officialNumber

/-- `official_numbers_unique`: no two documents of a company and doctype carry one number. -/
def OfficialNumbersUnique (tables : PgTables) : Prop :=
  ∀ key key' number, numberOf tables.documents key = some number → numberOf tables.documents key' = some number →
    key.1 = key'.1 → key.2.1 = key'.2.1 → key = key'

/-- A transaction brings at most one number, and no document of the doctype has it. -/
theorem writeDocument_numbers {document : PostedDocument} {documents documents' : Documents}
    (h : writeDocument commit document documents = .ok documents') :
    (∀ key, numberOf documents' key = numberOf documents key) ∨
    (∀ key, key.1 = commit.companyId → key.2.1 = document.doctype → numberOf documents key ≠ none →
        numberOf documents key ≠ document.officialNumber) ∧
      ∀ key, numberOf documents' key = if key = (commit.companyId, document.doctype, document.id) then
        document.officialNumber else numberOf documents key := by
  unfold writeDocument at h
  split_ifs at h with hnew hfree
  · refine .inr ⟨fun key hcompany hdoctype hsome heq => hfree ?_, fun key => ?_⟩
    · obtain ⟨number, hnumber⟩ := Option.ne_none_iff_exists'.1 hsome
      obtain ⟨doc, hdoc, hdocNumber⟩ := Option.bind_eq_some_iff.1 hnumber
      rw [hnumber] at heq
      refine List.any_eq_true.2 ⟨⟨key, doc⟩, AList.mem_lookup_iff.1 hdoc, ?_⟩
      simp [hcompany, hdoctype, hdocNumber, ← heq]
    · rw [← Except.ok.inj h, numberOf]
      by_cases hkey : key = (commit.companyId, document.doctype, document.id)
      · rw [if_pos hkey, hkey, AList.lookup_insert]
        rfl
      · rw [if_neg hkey, AList.lookup_insert_ne hkey]
        rfl
  · refine .inl fun key => ?_
    split at h
    · rename_i existing hexisting
      rw [← Except.ok.inj h, numberOf, numberOf]
      by_cases hkey : key = (commit.companyId, document.doctype, document.id)
      · rw [hkey, AList.lookup_insert, hexisting]
        rfl
      · rw [AList.lookup_insert_ne hkey]
    · rw [← Except.ok.inj h]

theorem Filled.numbers (h : Filled pg codec env commit tables tables') (hunique : OfficialNumbersUnique tables) :
    OfficialNumbersUnique tables' := by
  obtain ⟨documents, hwrite, hdocuments⟩ := h.documents
  have hupdated : ∀ key, numberOf tables'.documents key = numberOf documents key := by
    have hjoin : ∀ found : Option PostedDocument, found.bind PostedDocument.officialNumber =
        (found.map PostedDocument.officialNumber).join := by
      intro found
      cases found <;> rfl
    intro key
    rw [numberOf, numberOf, hjoin, hjoin, hdocuments, map_writeOutstandings fun _ _ => rfl]
  intro key key' number hnumber hnumber' hcompany hdoctype
  rw [hupdated] at hnumber hnumber'
  rcases writeDocument_numbers hwrite with hsame | ⟨hfresh, hnew⟩
  · rw [hsame] at hnumber hnumber'
    exact hunique key key' number hnumber hnumber' hcompany hdoctype
  · rw [hnew] at hnumber hnumber'
    split_ifs at hnumber hnumber' with hkey hkey' hkey'
    · exact hkey.trans hkey'.symm
    · subst hkey
      exact absurd (hnumber'.trans hnumber.symm)
        (hfresh key' hcompany.symm hdoctype.symm (by rw [hnumber']; exact Option.some_ne_none _))
    · subst hkey'
      exact absurd (hnumber.trans hnumber'.symm)
        (hfresh key hcompany hdoctype (by rw [hnumber]; exact Option.some_ne_none _))
    · exact hunique key key' number hnumber hnumber' hcompany hdoctype

/-- `stock_ledger_pairs_have_bins`. -/
def StockLedgerPairsHaveBins (tables : PgTables) : Prop :=
  ∀ company, ∀ sle ∈ tables.stockLedger.log company,
    (AList.lookup (company, sle.item, sle.warehouse) tables.bins).isSome = true

theorem lookup_putBins (company : Uuid) (bins : List Bin) (t : Table (Uuid × String × String) Bin)
    (key : Uuid × String × String) :
    (AList.lookup key (bins.foldl (Inner.putBin company) t)).isSome = true ↔
      (AList.lookup key t).isSome = true ∨ ∃ bin ∈ bins, key = (company, bin.item, bin.warehouse) := by
  induction bins generalizing t with
  | nil => simp
  | cons bin bins ih =>
    rw [List.foldl_cons, ih, Inner.putBin]
    by_cases hkey : key = (company, bin.item, bin.warehouse)
    · rw [hkey, AList.lookup_insert]
      exact iff_of_true (.inl rfl) (.inr ⟨bin, List.mem_cons_self, rfl⟩)
    · rw [AList.lookup_insert_ne hkey]
      simp [hkey]

theorem Filled.pairs (h : Filled pg codec env commit tables tables') (hwritten : Written commit tables tables')
    (hbins : ∀ sle ∈ commit.stockLedgerEntries, sle.pair ∈ commit.bins.map Bin.pair)
    (hpairs : StockLedgerPairsHaveBins tables) : StockLedgerPairsHaveBins tables' := by
  intro company sle hsle
  rw [h.bins, lookup_putBins]
  have hstored := LedgerKind.stored_written hwritten .stock company
  rw [show tables'.stockLedger.log company = LedgerKind.stock.stored tables' company from rfl, hstored] at hsle
  rcases List.mem_append.1 hsle with hsle | hsle
  · exact .inl (hpairs company sle hsle)
  · split_ifs at hsle with hcompany
    · -- the identity value does not move a row to another pair
      obtain ⟨raw, hraw, hsame⟩ : ∃ raw ∈ commit.stockLedgerEntries, raw.pair = sle.pair := by
        have hmem : LedgerKind.stock.unsequenced sle ∈
            (LedgerKind.stock.rows commit).map LedgerKind.stock.unsequenced := by
          rw [← LedgerKind.written_unsequenced .stock commit tables]
          exact List.mem_map_of_mem hsle
        obtain ⟨raw, hraw, heq⟩ := List.mem_map.1 hmem
        have hpair : (LedgerKind.stock.unsequenced raw).pair = (LedgerKind.stock.unsequenced sle).pair :=
          congrArg StockLedgerEntry.pair heq
        exact ⟨raw, hraw, hpair⟩
      obtain ⟨bin, hbin, hpair⟩ := List.mem_map.1 (hbins raw hraw)
      have hfields : (bin.item, bin.warehouse) = (sle.item, sle.warehouse) :=
        congrArg ofLex (hpair.trans hsame)
      obtain ⟨hitem, hwarehouse⟩ := Prod.mk.inj hfields
      exact .inr ⟨bin, hbin, by rw [hcompany, hitem, hwarehouse]⟩
    · exact absurd hsle List.not_mem_nil

/-- `documents_have_posting_batches`. -/
def DocumentsHavePostingBatches (tables : PgTables) : Prop :=
  ∀ key, (AList.lookup key tables.documents).isSome = true → ∃ id batch,
    AList.lookup (key.1, id) tables.batches = some batch ∧ batch.documentId = key.2.2 ∧ batch.kind = .submit

end PgTables

/-! ### Every run -/

/-- The checks of the tables, and the batches of the journal. -/
structure Checked (book : Book PgTables) : Prop where
  numbers : book.store.OfficialNumbersUnique
  pairs : book.store.StockLedgerPairsHaveBins
  batches : ∀ entry ∈ book.journal, AList.lookup entry.batchKey book.store.batches = some entry.commit.batch

theorem checked_fresh : Checked { store := {} } where
  numbers key _ _ h := by
    rw [PgTables.numberOf, show AList.lookup key (∅ : Documents) = none from AList.lookup_empty key] at h
    cases h
  pairs _ _ h := absurd h List.not_mem_nil
  batches _ h := absurd h List.not_mem_nil

section Rule
variable {pg : Postgres} {codec : Codec} {allowed : Allowed MemOp} {book₀ book : Book PgTables}
  {draft : Draft PgTables} {env : Env} {response : Value} {tables' : PgTables}

theorem Checked.written (h : Checked book) (hbuilt : Draft.Built codec (pgBackend pg codec) allowed book₀ draft)
    (hwrite : book.store.write pg codec env draft.commit = .ok (response, tables')) :
    Checked { store := tables', journal := book.journal ++ [writtenEntry draft book.store response] } := by
  have hfilled := PgTables.write_filled hwrite
  have hwritten := PgTables.write_ok pg hwrite
  have hcompany : draft.commit.companyId = draft.companyId :=
    (Command.build_new_or_cancel hbuilt.build).1
  refine ⟨hfilled.numbers h.numbers, hfilled.pairs hwritten ?_ h.pairs, fun entry hentry => ?_⟩
  · exact Command.build_stockPairs hbuilt.build
  · rw [hwritten.batches]
    rcases List.mem_append.1 hentry with hentry | hentry
    · -- the key of the new batch was free
      have hne : entry.batchKey ≠ (draft.commit.companyId, draft.commit.batch.id) := by
        intro heq
        have htaken := h.batches entry hentry
        rw [heq, hwritten.newBatch] at htaken
        cases htaken
      rw [AList.lookup_insert_ne hne]
      exact h.batches entry hentry
    · obtain rfl := List.mem_singleton.1 hentry
      have hkey : (writtenEntry draft book.store response).batchKey =
          (draft.commit.companyId, draft.commit.batch.id) := Prod.ext hcompany.symm rfl
      rw [hkey, AList.lookup_insert]
      rfl

theorem checked_rule : Snapshot.Rule (protocol codec (pgBackend pg codec) allowed)
    (fun book => Owned book ∧ Checked book) fun book book' => book.journal <+: book'.journal := by
  refine written_rule_and ?_ ?_
  · intro book₀ book draft env response tables' _ _ _ _ h hbuilt hwrite
    exact h.written hbuilt hwrite
  · intro book op env h
    have hframe := operate_frame codec env op book.store.toInner
    refine ⟨?_, ?_, ?_⟩
    · show ∀ key key' number,
        PgTables.numberOf ((memBackend codec).operate env op book.store.toInner).documents key = some number →
        PgTables.numberOf ((memBackend codec).operate env op book.store.toInner).documents key' = some number → _
      rw [hframe.documents]
      exact h.numbers
    · show ∀ company, ∀ sle ∈ ((memBackend codec).operate env op book.store.toInner).stockLedger.log company,
        (AList.lookup _ ((memBackend codec).operate env op book.store.toInner).bins).isSome = true
      rw [hframe.stockLedger, hframe.bins]
      exact h.pairs
    · show ∀ entry ∈ book.journal,
        AList.lookup _ ((memBackend codec).operate env op book.store.toInner).batches = _
      rw [hframe.batches]
      exact h.batches

end Rule

theorem pgRun_checked (pg : Postgres) (codec : Codec) (events : List (Event MemOp)) :
    Checked (pgRun pg codec events).book := by
  have h : Owned (pgRun pg codec events).book ∧ Checked (pgRun pg codec events).book :=
    System.invariant_of_rule checked_rule ⟨owned_fresh, checked_fresh⟩ fun event _ => event.allowed_all
  exact h.2

/-- Every pair of the stock ledger has a bin, in every state of every run. -/
theorem stock_pairs_have_bins (pg : Postgres) (codec : Codec) (events : List (Event MemOp)) :
    (pgRun pg codec events).book.store.StockLedgerPairsHaveBins :=
  (pgRun_checked pg codec events).pairs

/-- No official number is shared, in every state of every run, whatever receipt numbers the tills bring. -/
theorem numbers_never_shared (pg : Postgres) (codec : Codec) (events : List (Event MemOp)) :
    (pgRun pg codec events).book.store.OfficialNumbersUnique :=
  (pgRun_checked pg codec events).numbers

/-- Every official document has the batch of its posting, in every state of every run. -/
theorem documents_have_batches (pg : Postgres) (codec : Codec) (events : List (Event MemOp)) :
    (pgRun pg codec events).book.store.DocumentsHavePostingBatches := by
  intro key hkey
  have howned := owned_run pg codec events
  obtain ⟨source, hsource, hposts⟩ := howned.documents key hkey
  have hbatch := (pgRun_checked pg codec events).batches source hsource
  obtain ⟨hcompany, -, -⟩ := howned.posted hsource hposts
  obtain ⟨-, -, hbuild⟩ := System.journal_faithful codec (pgBackend pg codec) events source hsource
  obtain ⟨hdocument, hkind⟩ := Command.build_batch hbuild hposts.notCancel
  have hid : source.commit.document.id = key.2.2 :=
    congrArg (fun key : Uuid × String × String => key.2.2) hposts.document
  rw [Entry.batchKey, hcompany] at hbatch
  exact ⟨_, _, hbatch, hdocument.trans hid, hkind⟩

end AtlasTeam
