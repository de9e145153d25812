import AtlasTeam.Lib.SortedMap
import AtlasTeam.Posting.SoloMigration

/-!
# The stock of a take-on

The stock loop gathers a receipt row, a bin and a pair for each line, and adds the line's value to its
inventory account. `OpeningStockRows.Of` says which lines it has behind it; `openingStock_rows` that an
accepted loop has all of them.
-/

namespace AtlasTeam

/-- The pair a line of opening stock is for. -/
def OpeningStock.pair (stock : OpeningStock) : Pair := toLex (trim stock.item, trim stock.warehouse)

/-- The value per unit. -/
def OpeningStock.rate (stock : OpeningStock) : ℚ := stock.stockValue / stock.qty

/-- The receipt row of a line. -/
def openingSle (ctx : RowContext) (entry : OpeningStock × Nat) : StockLedgerEntry :=
  let (stock, i) := entry
  ctx.sle s!"SLE-{ctx.documentId}-{i}" .receipt (trim stock.item) (trim stock.warehouse) stock.qty
    stock.rate none

/-- The bin of a line. -/
def openingBin (ctx : RowContext) (stock : OpeningStock) : Bin :=
  { companyId := ctx.companyId
    item := trim stock.item
    warehouse := trim stock.warehouse
    actualQty := stock.qty
    valuationRate := stock.rate
    stockValue := stock.stockValue }

/-- The lines of opening stock on an inventory account. -/
def linesOn (account : String) (stock : List OpeningStock) : List OpeningStock :=
  stock.filter fun line => trim line.account = account

/-- What the stock loop has gathered from the lines behind it. -/
structure OpeningStockRows.Of (ctx : RowContext) (done : List (OpeningStock × Nat))
    (acc : OpeningStockRows) : Prop where
  sles : acc.sles = done.map (openingSle ctx)
  bins : acc.bins = done.map fun entry => openingBin ctx entry.1
  pairs : acc.pairs = done.map fun entry => entry.1.pair
  distinct : acc.pairs.Nodup
  positive : ∀ entry ∈ done, 0 < entry.1.qty
  ordered : SortedMap.Raw.Ordered acc.stockByAccount
  onAccount : ∀ account, (acc.stockByAccount.lookup account).getD 0 =
    ((linesOn account (done.map Prod.fst)).map OpeningStock.stockValue).sum
  total : (acc.stockByAccount.map Prod.snd).sum =
    ((done.map Prod.fst).map OpeningStock.stockValue).sum
  accounts : ∀ entry ∈ done, (acc.stockByAccount.lookup (trim entry.1.account)).isSome

/-- An accepted line joins the lines behind. -/
theorem OpeningStockRows.Of.line {ctx : RowContext} {done : List (OpeningStock × Nat)}
    {acc acc' : OpeningStockRows} {entry : OpeningStock × Nat} (h : acc.Of ctx done)
    (hline : openingStockRow ctx acc entry = .ok acc') : acc'.Of ctx (done ++ [entry]) := by
  obtain ⟨stock, i⟩ := entry
  simp only [openingStockRow, Except.throw_bind, Except.ite_throw_eq_ok, Except.bind_eq_ok,
    Except.pure_eq_ok] at hline
  obtain ⟨-, hqty, -, -, hpair, rfl⟩ := hline
  have hnew : (stock, i).1.pair ∉ acc.pairs := hpair
  exact
    { sles := by
        rw [List.map_append, ← h.sles]
        rfl
      bins := by
        rw [List.map_append, ← h.bins]
        rfl
      pairs := by
        rw [List.map_append, ← h.pairs]
        rfl
      distinct := List.nodup_append_comm.1 (List.nodup_cons.2 ⟨hnew, h.distinct⟩)
      positive := by
        intro entry hentry
        rcases List.mem_append.1 hentry with hentry | hentry
        · exact h.positive entry hentry
        · exact List.mem_singleton.1 hentry ▸ not_le.1 hqty
      ordered := h.ordered.put _ _
      onAccount := by
        intro account
        rw [SortedMap.Raw.lookup_put_add, h.onAccount, linesOn, linesOn, List.map_append,
          List.filter_append, List.map_append, List.sum_append]
        by_cases haccount : trim stock.account = account <;> simp [haccount]
      total := by
        rw [h.ordered.sum_put, h.total, add_sub_cancel_left, List.map_append, List.map_append,
          List.sum_append]
        simp
      accounts := by
        intro entry hentry
        by_cases hsame : trim entry.1.account = trim stock.account
        · rw [hsame, SortedMap.Raw.lookup_put_self]
          rfl
        · rw [SortedMap.Raw.lookup_put_ne hsame]
          rcases List.mem_append.1 hentry with hentry | hentry
          · exact h.accounts entry hentry
          · exact absurd (by rw [List.mem_singleton.1 hentry]) hsame }

/-- An accepted loop has all lines behind it. -/
theorem openingStock_rows {ctx : RowContext} {entries : List (OpeningStock × Nat)}
    {stock : OpeningStockRows} (h : entries.foldlM (openingStockRow ctx) {} = .ok stock) :
    stock.Of ctx entries := by
  have hnone : ({} : OpeningStockRows).Of ctx [] :=
    { sles := rfl
      bins := rfl
      pairs := rfl
      distinct := List.nodup_nil
      positive := fun _ hentry => absurd hentry List.not_mem_nil
      ordered := List.Pairwise.nil
      onAccount := fun _ => rfl
      total := rfl
      accounts := fun _ hentry => absurd hentry List.not_mem_nil }
  exact Except.foldlM_ok_walk (fun done acc => acc.Of ctx done)
    (fun done acc entry acc' hline hacc => hacc.line hline) h hnone

end AtlasTeam
