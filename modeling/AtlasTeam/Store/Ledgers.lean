import AtlasTeam.Store.RecordNames

/-!
# What a commit brings to the ledgers

A commit names its pairs and its invoices once each (`Command.build_bins`, `Command.build_updates`), and no
two of its rows in one ledger share an id when no two that it reads do (`Command.build_rowIds`). The store
holds the rows of all commits, ledger by ledger (`LedgerKind.held`).
-/

namespace AtlasTeam

/-! ### What a build brings -/

section Build
variable {codec : Codec} {view : StoreView} {env : Env} {companyId : Uuid} {actor : Actor}
  {documentId : String} {command : Command} {commit : PostingCommit}

/-- A batch is of a cancel exactly when the document is not new. -/
theorem Command.build_kind (h : command.build codec view env companyId actor documentId = .ok commit) :
    commit.batch.kind = .cancel ↔ commit.documentIsNew = false := by
  cases command with
  | submit cmd =>
    obtain ⟨prepared, shortfalls, settlements, updates, -, -, -, rfl⟩ := buildSubmit_ok h
    exact iff_of_false (fun h => nomatch h) (fun h => nomatch h)
  | cancel cmd =>
    obtain ⟨doc, postingDate, guard, updates, -, -, -, -, -, rfl⟩ := buildCancel_ok h
    exact iff_of_true rfl rfl
  | takeOn cmd =>
    obtain ⟨postingDate, stock, tb, continuations, -, -, rfl⟩ := buildOpening_ok h
    exact iff_of_false (fun h => nomatch h) (fun h => nomatch h)

/-- A commit brings one bin per pair. -/
theorem Command.build_bins (h : command.build codec view env companyId actor documentId = .ok commit) :
    (commit.bins.map Bin.pair).Nodup := by
  cases command with
  | submit cmd =>
    obtain ⟨prepared, shortfalls, settlements, updates, -, -, -, rfl⟩ := buildSubmit_ok h
    exact recomputeBins_pairs _ _
  | cancel cmd =>
    obtain ⟨doc, postingDate, guard, updates, -, -, -, -, -, rfl⟩ := buildCancel_ok h
    exact recomputeBins_pairs _ _
  | takeOn cmd =>
    obtain ⟨postingDate, stock, tb, continuations, hstock, -, rfl⟩ := buildOpening_ok h
    exact (openingStock_rows hstock).binPairs

/-- A commit updates every invoice once. -/
theorem Command.build_updates
    (h : command.build codec view env companyId actor documentId = .ok commit) :
    (commit.outstandingUpdates.map updateKey).Nodup := by
  cases command with
  | submit cmd =>
    obtain ⟨prepared, shortfalls, settlements, updates, -, -, hpayment, rfl⟩ := buildSubmit_ok h
    exact (paymentRows_ok hpayment).2.nodup
  | cancel cmd =>
    obtain ⟨doc, postingDate, guard, updates, -, -, -, -, hrestored, rfl⟩ := buildCancel_ok h
    unfold restoredOutstanding at hrestored
    split_ifs at hrestored
    · exact (paymentOutstandingUpdates_ok hrestored).nodup
    · obtain rfl := Except.ok.inj hrestored
      exact List.nodup_nil
  | takeOn cmd =>
    obtain ⟨postingDate, stock, tb, continuations, -, -, rfl⟩ := buildOpening_ok h
    exact List.nodup_nil

theorem LedgerKind.rowId_reversal (kind : LedgerKind) (batchId : String) (row : kind.Row) :
    kind.rowId (kind.reversal batchId row) = kind.rowId row ++ reversalSuffix := by
  cases kind <;> rfl

/-- No two rows of one ledger of a commit share an id, when no two that it reads do. -/
theorem Command.build_rowIds (h : command.build codec view env companyId actor documentId = .ok commit)
    {kind : LedgerKind}
    (hfound : ∀ no, ((kind.found view companyId no).map kind.rowId).Nodup) :
    ((kind.rows commit).map kind.rowId).Nodup := by
  cases command with
  | submit cmd => exact buildSubmit_rowIds h kind
  | cancel cmd =>
    obtain ⟨doc, postingDate, guard, updates, -, -, -, -, -, rfl⟩ := buildCancel_ok h
    rw [LedgerKind.rows_cancelCommit, List.map_map]
    have hids : (kind.rowId ∘ kind.reversal ("PB-" ++ cmd.documentId ++ reversalSuffix)) =
        (· ++ reversalSuffix) ∘ kind.rowId := funext fun row => kind.rowId_reversal _ row
    rw [hids, ← List.map_map]
    refine List.Nodup.map (fun _ _ h => (String.append_left_inj reversalSuffix).1 h) ?_
    exact (hfound cmd.documentId).sublist (List.filter_sublist.map _)
  | takeOn cmd => exact buildOpening_rowIds h kind

end Build

/-- A draft writes a document of its own company. -/
theorem draft_companyId {codec : Codec} {allowed : Allowed MemOp} {book₀ : Book Inner}
    {draft : Draft Inner} (hkept₀ : Kept book₀)
    (hbuilt : Draft.Built codec (memBackend codec) allowed book₀ draft) :
    draft.commit.document.companyId = draft.commit.companyId := by
  have hbuild := hbuilt.build
  rw [hbuilt.snapshot] at hbuild
  obtain ⟨hcompany, hnew | ⟨cmd, doc, -, -, hdoc, -, hdocument, -⟩⟩ := Command.build_new_or_cancel hbuild
  · exact hnew.2.1.trans hcompany.symm
  · rw [hdocument, hcompany]
    exact (Prod.mk.inj (hkept₀.keyed _ _ hdoc)).1.symm

/-! ### The ledgers of the in-memory store -/

namespace LedgerKind

/-- The rows the store holds for a company. -/
def held (inner : Inner) (company : Uuid) : (kind : LedgerKind) → List kind.Row
  | .gl => inner.glEntries.log company
  | .stock => inner.stockLedger.log company
  | .party => inner.partyTransactions.log company
  | .tax => inner.taxTransactions.log company
  | .settlement => inner.settlements.log company

theorem found_sublist (kind : LedgerKind) (inner : Inner) (company : Uuid) (no : String) :
    (kind.found inner.view company no).Sublist (kind.held inner company) := by
  cases kind <;> exact List.filter_sublist

theorem held_prefix {inner inner' : Inner} (h : Extends inner inner') (kind : LedgerKind)
    (company : Uuid) : kind.held inner company <+: kind.held inner' company := by
  cases kind with
  | gl => exact h.glEntries company
  | stock => exact h.stockLedger company
  | party => exact h.partyTransactions company
  | tax => exact h.taxTransactions company
  | settlement => exact h.settlements company

/-- An applied commit adds its rows. -/
theorem held_applied {commit : PostingCommit} {inner inner' : Inner}
    (h : Inner.Applied commit inner inner') (kind : LedgerKind) (company : Uuid) :
    (kind.held inner' company).map kind.rowId = (kind.held inner company).map kind.rowId ++
      if company = commit.companyId then (kind.rows commit).map kind.rowId else [] := by
  have hlog : ∀ {α : Type} (name : α → String) (table : Table Uuid (List α)) (rows : List α),
      ((table.extend commit.companyId rows).log company).map name =
        (table.log company).map name ++ if company = commit.companyId then rows.map name else [] := by
    intro α name table rows
    split_ifs with hcompany
    · subst hcompany
      rw [Table.log_extend_self, List.map_append]
    · rw [Table.log_extend_ne _ hcompany, List.append_nil]
  cases kind with
  | gl => exact (congrArg (fun t => (Table.log t company).map GlEntry.id) h.glEntries).trans (hlog ..)
  | stock =>
    refine (congrArg (fun t => (Table.log t company).map StockLedgerEntry.id) h.stockLedger).trans
      ((hlog ..).trans ?_)
    rw [Inner.sequencedRows, Inner.sequenceFrom_ids]
    rfl
  | party =>
    exact (congrArg (fun t => (Table.log t company).map PartyTransaction.id)
      h.partyTransactions).trans (hlog ..)
  | tax =>
    exact (congrArg (fun t => (Table.log t company).map TaxTransaction.id) h.taxTransactions).trans
      (hlog ..)
  | settlement =>
    exact (congrArg (fun t => (Table.log t company).map Settlement.id) h.settlements).trans (hlog ..)

theorem held_operate {codec : Codec} {env : Env} {op : MemOp} {inner : Inner} (kind : LedgerKind)
    (company : Uuid) :
    kind.held ((memBackend codec).operate env op inner) company = kind.held inner company := by
  have hframe := operate_frame codec env op inner
  cases kind with
  | gl => exact congrArg (fun t => Table.log t company) hframe.glEntries
  | stock => exact congrArg (fun t => Table.log t company) hframe.stockLedger
  | party => exact congrArg (fun t => Table.log t company) hframe.partyTransactions
  | tax => exact congrArg (fun t => Table.log t company) hframe.taxTransactions
  | settlement => exact congrArg (fun t => Table.log t company) hframe.settlements

end LedgerKind

end AtlasTeam
