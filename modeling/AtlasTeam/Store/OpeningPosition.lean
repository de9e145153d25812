import AtlasTeam.Posting.Rounding
import AtlasTeam.Posting.StockLegs
import AtlasTeam.Store.Bins

/-!
# The position a take-on opens with

A take-on is accepted when its lines and its stock reconcile with the position the Solo book stated. Each
comparison is to half a cent, but balances of at most half a cent are dropped from both sides first
(`ShownAs`), so an account may be off by twice that: `take_on_reconciles` is what is left of the comparisons
for the rows that are committed.

The bins carry the line's own figures where every other posting writes `compute_balance` of the ledger.
`opening_bins_iff`: the two are the same exactly when the fold has decimals enough for the line.
-/

namespace AtlasTeam

/-! ### Net per account -/

/-- Debit less credit of an account's entries. -/
def accountNet (account : String) (gl : List GlEntry) : ℚ :=
  glDifference (gl.filter fun entry => entry.account = account)

theorem accountNet_concat (account : String) (gl : List GlEntry) (entry : GlEntry) :
    accountNet account (gl ++ [entry]) =
      accountNet account gl + if entry.account = account then entry.difference else 0 := by
  rw [accountNet, accountNet, List.filter_append, glDifference_append]
  by_cases h : entry.account = account <;> simp [h]

theorem netByAccount_concat (gl : List GlEntry) (entry : GlEntry) :
    netByAccount (gl ++ [entry]) = SortedMap.Raw.put entry.account
      (((netByAccount gl).lookup entry.account).getD 0 + entry.difference) (netByAccount gl) := by
  rw [netByAccount, List.foldl_append]
  rfl

theorem netByAccount_ordered (gl : List GlEntry) : SortedMap.Raw.Ordered (netByAccount gl) := by
  induction gl using List.reverseRecOn with
  | nil => exact List.Pairwise.nil
  | append_singleton gl entry ih =>
    rw [netByAccount_concat]
    exact ih.put _ _

theorem netByAccount_lookup (gl : List GlEntry) (account : String) :
    ((netByAccount gl).lookup account).getD 0 = accountNet account gl := by
  induction gl using List.reverseRecOn with
  | nil => rfl
  | append_singleton gl entry ih =>
    rw [netByAccount_concat, SortedMap.Raw.lookup_put_add, accountNet_concat, ih]

/-! ### What the comparisons leave -/

/-- What is left of a balance: itself, or nothing when it is small. -/
def ShownAs (net shown : ℚ) : Prop := shown = net ∨ shown = 0 ∧ |net| ≤ cent

theorem significant_shown {tb : List (String × ℚ)} (h : SortedMap.Raw.Ordered tb) (account : String) :
    ShownAs ((tb.lookup account).getD 0) (((significant tb).lookup account).getD 0) := by
  rw [significant, h.lookup_filter]
  cases hentry : tb.lookup account with
  | none => exact .inl rfl
  | some net =>
    by_cases hkept : |net| > cent
    · exact .inl (by simp [Option.filter, hkept])
    · exact .inr ⟨by simp [Option.filter, hkept], not_lt.1 hkept⟩

/-- Amounts that are shown within `cent` of each other are within twice that. -/
theorem ShownAs.near {net net' shown shown' : ℚ} (h : ShownAs net shown) (h' : ShownAs net' shown')
    (hnear : |shown - shown'| ≤ cent) : |net - net'| ≤ 1 / 100 := by
  have hcent : cent + cent = 1 / 100 := by norm_num [cent]
  have hsmall : cent ≤ 1 / 100 := by norm_num [cent]
  rcases h with rfl | ⟨rfl, hnet⟩
  · rcases h' with rfl | ⟨rfl, hnet'⟩
    · exact hnear.trans hsmall
    · rw [sub_zero] at hnear
      exact ((abs_sub _ _).trans (add_le_add hnear hnet')).trans hcent.le
  · rcases h' with rfl | ⟨rfl, hnet'⟩
    · rw [zero_sub, abs_neg] at hnear
      exact ((abs_sub _ _).trans (add_le_add hnet hnear)).trans hcent.le
    · exact ((abs_sub _ _).trans (add_le_add hnet hnet')).trans hcent.le

/-- The trial balance agrees on every account, named on either side or not. -/
theorem checkTrialBalance_ok {tb stated : List (String × ℚ)} (h : checkTrialBalance tb stated = .ok ())
    (account : String) : |(tb.lookup account).getD 0 - (stated.lookup account).getD 0| ≤ cent := by
  by_cases hnamed : account ∈ tb.map Prod.fst ++ stated.map Prod.fst
  · have haccount := (Except.forM_eq_ok _).1 h account (mem_sortDedup hnamed)
    simp only at haccount
    split_ifs at haccount with hoff
    exact not_lt.1 hoff
  · have habsent : ∀ {m : List (String × ℚ)}, account ∉ m.map Prod.fst → m.lookup account = none := by
      intro m hm
      refine List.lookup_eq_none_iff.2 fun entry hentry => bne_iff_ne.2 ?_
      rintro rfl
      exact hm (List.mem_map_of_mem hentry)
    rw [List.mem_append, not_or] at hnamed
    rw [habsent hnamed.1, habsent hnamed.2]
    norm_num [cent]

theorem checkStated_ok {computed stated : ℚ} {what claim : String}
    (h : checkStated computed stated what claim = .ok ()) : |computed - stated| ≤ cent := by
  simp only [checkStated] at h
  split_ifs at h with hoff
  exact not_lt.1 hoff

theorem checkStockAccounts_ok {tb stockByAccount : List (String × ℚ)}
    (hordered : SortedMap.Raw.Ordered stockByAccount)
    (h : checkStockAccounts tb stockByAccount = .ok ()) {account : String}
    (haccount : (stockByAccount.lookup account).isSome) :
    |(tb.lookup account).getD 0 - (stockByAccount.lookup account).getD 0| ≤ cent := by
  obtain ⟨value, hvalue⟩ := Option.isSome_iff_exists.1 haccount
  have hentry := (Except.forM_eq_ok _).1 h (account, value) (hordered.mem_iff.2 hvalue)
  simp only at hentry
  split_ifs at hentry with hoff
  rw [hvalue]
  exact not_lt.1 hoff

/-! ### The position -/

/-- The rows of the lines on an inventory account. -/
def SoloOpeningCommand.rowsOn (cmd : SoloOpeningCommand) (account : String)
    (rows : List StockLedgerEntry) : List StockLedgerEntry :=
  rows.filter fun sle => sle.pair ∈ (linesOn account cmd.stock).map OpeningStock.pair

/-- The worth of some rows. -/
def totalWorth (rows : List StockLedgerEntry) : ℚ := (rows.map StockLedgerEntry.worth).sum

/-- The committed rows reconcile with the position the package states. -/
structure SoloOpeningCommand.Reconciled (cmd : SoloOpeningCommand) (commit : PostingCommit) : Prop where
  trialBalance : ∀ account,
    |accountNet account commit.glEntries - (cmd.expected.trialBalance.lookup account).getD 0| ≤ 1 / 100
  stockAccounts : ∀ line ∈ cmd.stock,
    |totalWorth (cmd.rowsOn (trim line.account) commit.stockLedgerEntries) -
      accountNet (trim line.account) commit.glEntries| ≤ 1 / 100
  receivables : |partyTotal .customer commit.partyTransactions - cmd.expected.receivables| ≤ 5 / 1000
  payables : |partyTotal .supplier commit.partyTransactions - cmd.expected.payables| ≤ 5 / 1000
  stockValue : |totalWorth commit.stockLedgerEntries - cmd.expected.stockValue| ≤ 5 / 1000
  balanced :
    |(commit.glEntries.map GlEntry.debit).sum - (commit.glEntries.map GlEntry.credit).sum| ≤ 5 / 1000

/-- The row of a line is worth the stated value: the quotient times the quantity. -/
theorem openingSle_worth {ctx : RowContext} {entry : OpeningStock × Nat} (h : 0 < entry.1.qty) :
    (openingSle ctx entry).worth = entry.1.stockValue :=
  mul_div_cancel₀ _ h.ne'

section Lines
variable {ctx : RowContext} {done : List (OpeningStock × Nat)} {acc : OpeningStockRows}

theorem OpeningStockRows.Of.worth (h : acc.Of ctx done) :
    totalWorth acc.sles = ((done.map Prod.fst).map OpeningStock.stockValue).sum := by
  rw [totalWorth, h.sles, List.map_map, List.map_map]
  refine congrArg List.sum (List.map_congr_left fun entry hentry => ?_)
  exact openingSle_worth (h.positive entry hentry)

/-- The rows found by the pairs of an account's lines are the rows of these lines. -/
theorem OpeningStockRows.Of.worthOn {cmd : SoloOpeningCommand} (h : acc.Of ctx cmd.stock.zipIdx)
    (account : String) : totalWorth (cmd.rowsOn account acc.sles) =
      (acc.stockByAccount.lookup account).getD 0 := by
  have hfst : cmd.stock.zipIdx.map Prod.fst = cmd.stock := List.zipIdx_map_fst _ _
  have hpairs : (cmd.stock.map OpeningStock.pair).Nodup := by
    have hdistinct := h.distinct
    rw [h.pairs] at hdistinct
    rw [← hfst, List.map_map]
    exact hdistinct
  have hrows : cmd.rowsOn account acc.sles =
      (cmd.stock.zipIdx.filter fun entry => trim entry.1.account = account).map (openingSle ctx) := by
    rw [SoloOpeningCommand.rowsOn, h.sles, List.filter_map]
    refine congrArg _ (List.filter_congr fun entry hentry => ?_)
    have hline : entry.1 ∈ cmd.stock := hfst ▸ List.mem_map_of_mem hentry
    refine decide_eq_decide.2 ⟨fun hmem => ?_, fun haccount => ?_⟩
    · obtain ⟨line, hon, hpair⟩ := List.mem_map.1 hmem
      obtain ⟨hmem, haccount⟩ := List.mem_filter.1 hon
      obtain rfl : line = entry.1 := List.inj_on_of_nodup_map hpairs hmem hline hpair
      exact of_decide_eq_true haccount
    · exact List.mem_map_of_mem (List.mem_filter.2 ⟨hline, decide_eq_true haccount⟩)
  rw [h.onAccount, hrows, totalWorth, linesOn, List.filter_map, List.map_map, List.map_map]
  refine congrArg List.sum (List.map_congr_left fun entry hentry => ?_)
  exact openingSle_worth (h.positive entry (List.mem_of_mem_filter hentry))

end Lines

/-- An accepted take-on reconciles with the position it states. -/
theorem take_on_reconciles {codec : Codec} {view : StoreView} {env : Env} {companyId : Uuid}
    {cmd : SoloOpeningCommand} {sha : String} {actor : Actor} {commit : PostingCommit}
    (h : buildOpening codec view env companyId cmd sha actor = .ok commit) : cmd.Reconciled commit := by
  obtain ⟨postingDate, stock, continuations, -, -, hbalanced, hstock, htb, haccounts, hvalue,
    hreceivables, hpayables, -, rfl⟩ := buildOpening_checked h
  have hrows := openingStock_rows hstock
  generalize hgl : cmd.lines.zipIdx.map (openingGl (openingContext companyId cmd postingDate)) = gl at *
  have hnet : ∀ account, ShownAs (accountNet account gl)
      (((significant (netByAccount gl)).lookup account).getD 0) := by
    intro account
    rw [← netByAccount_lookup]
    exact significant_shown (netByAccount_ordered gl) account
  exact
    { trialBalance := by
        intro account
        have hstated := significant_shown cmd.expected.trialBalance.ordered account
        exact (hnet account).near hstated (checkTrialBalance_ok htb account)
      stockAccounts := by
        intro line hline
        have hentry : line ∈ cmd.stock.zipIdx.map Prod.fst := by
          rw [List.zipIdx_map_fst]
          exact hline
        obtain ⟨entry, hmem, rfl⟩ := List.mem_map.1 hentry
        have haccount := checkStockAccounts_ok hrows.ordered haccounts (hrows.accounts entry hmem)
        rw [abs_sub_comm]
        exact (hnet _).near (.inl (hrows.worthOn _).symm) haccount
      receivables := checkStated_ok hreceivables
      payables := checkStated_ok hpayables
      stockValue := by
        have hworth : totalWorth stock.sles = (stock.stockByAccount.map Prod.snd).sum :=
          hrows.worth.trans hrows.total.symm
        exact hworth ▸ checkStated_ok hvalue
      balanced := by
        rw [← glDifference_eq]
        exact checkBalanced_ok hbalanced }

/-! ### The bins -/

/-- The fold keeps the line's figures: three decimals of quantity, two of value and of value per unit. -/
def OpeningStock.Kept (stock : OpeningStock) : Prop :=
  (∃ n : ℤ, stock.qty = n / 1000) ∧ (∃ n : ℤ, stock.stockValue = n / 100) ∧
    ∃ n : ℤ, stock.rate = n / 100

/-- The balance of one receipt is the line's own figures exactly when the fold keeps them. -/
theorem computeBalance_line {stock : OpeningStock} (hqty : 0 < stock.qty) :
    computeBalance [⟨stock.qty, stock.rate⟩] = ⟨stock.qty, stock.rate, stock.stockValue⟩ ↔ stock.Kept := by
  have hworth : stock.qty * stock.rate = stock.stockValue := mul_div_cancel₀ _ hqty.ne'
  simp only [computeBalance, List.map_cons, List.map_nil, List.sum_cons, List.sum_nil, add_zero, hworth,
    BinSnapshot.mk.injEq]
  constructor
  · rintro ⟨hround3, hrate, hround2⟩
    refine ⟨hround3 ▸ round3_thousandths _, hround2 ▸ round2_cents _, ?_⟩
    rw [if_pos (by rw [hround3]; exact hqty.ne')] at hrate
    exact hrate ▸ round2_cents _
  · rintro ⟨⟨q, hq⟩, ⟨v, hv⟩, ⟨r, hr⟩⟩
    have hround3 : round3 stock.qty = stock.qty := by rw [hq, round3_of_thousandths]
    have hround2 : round2 stock.stockValue = stock.stockValue := by rw [hv, round2_of_cents]
    have hquotient : round2 stock.rate = stock.rate := by rw [hr, round2_of_cents]
    rw [hround3, hround2, if_pos hqty.ne']
    exact ⟨rfl, hquotient, rfl⟩

/-- A commit that is no replay passed its checks and was applied. -/
theorem Inner.applied_of_postingCommit {codec : Codec} {env : Env} {commit : PostingCommit}
    {inner inner' : Inner} {outcome : CommitOutcome}
    (h : Inner.postingCommit codec env commit inner = (.ok outcome, inner'))
    (hnew : outcome.replayed = false) : Inner.Passed commit inner ∧ Inner.Applied commit inner inner' := by
  rcases Inner.postingCommit_cases codec env commit inner with
    ⟨response, -, hrun⟩ | ⟨e, -, -, hrun⟩ | ⟨-, hcheck, inner₁, happlied, hrun⟩
  · rw [hrun] at h
    obtain ⟨hanswer, -⟩ := Prod.mk.inj h
    rw [← Except.ok.inj hanswer] at hnew
    cases hnew
  · rw [hrun] at h
    cases (Prod.mk.inj h).1
  · rw [hrun] at h
    obtain ⟨-, rfl⟩ := Prod.mk.inj h
    exact ⟨Inner.passed_of_checkCommit hcheck, happlied⟩

/-- A pair of the take-on has the one row of its line. -/
theorem OpeningStockRows.Of.onLine {ctx : RowContext} {done : List (OpeningStock × Nat)}
    {acc : OpeningStockRows} (h : acc.Of ctx done) {entry : OpeningStock × Nat} (hentry : entry ∈ done) :
    onPair entry.1.pair acc.sles = [openingSle ctx entry] := by
  have hdistinct := h.distinct
  obtain ⟨before, after, rfl⟩ := List.append_of_mem hentry
  rw [h.pairs, List.map_append, List.map_cons, List.nodup_append, List.nodup_cons] at hdistinct
  obtain ⟨-, ⟨hafter, -⟩, hbefore⟩ := hdistinct
  have hother : ∀ {entries : List (OpeningStock × Nat)}, (∀ e ∈ entries, e.1.pair ≠ entry.1.pair) →
      onPair entry.1.pair (entries.map (openingSle ctx)) = [] := by
    intro entries hne
    refine List.filter_eq_nil_iff.2 fun sle hsle => ?_
    obtain ⟨e, he, rfl⟩ := List.mem_map.1 hsle
    exact fun heq => hne e he (of_decide_eq_true heq)
  have hself : (openingSle ctx entry).pair = entry.1.pair := rfl
  rw [h.sles, List.map_append, List.map_cons, onPair_append, onPair_cons, if_pos hself,
    hother fun e he => hbefore _ (List.mem_map_of_mem he) _ List.mem_cons_self,
    hother fun e he heq => hafter (heq ▸ List.mem_map_of_mem he)]
  rfl

/-- After the commit the ledger of a line's pair is that one row. -/
theorem opening_stored {codec : Codec} {view : StoreView} {env : Env} {companyId : Uuid}
    {cmd : SoloOpeningCommand} {sha : String} {actor : Actor} {commit : PostingCommit}
    (h : buildOpening codec view env companyId cmd sha actor = .ok commit) {inner inner' : Inner}
    (hpassed : Inner.Passed commit inner) (happlied : Inner.Applied commit inner inner')
    {line : OpeningStock} (hline : line ∈ cmd.stock) :
    (inner'.view.stored companyId line.pair).map StockLedgerEntry.row = [⟨line.qty, line.rate⟩] := by
  obtain ⟨postingDate, stock, tb, continuations, hstock, -, rfl⟩ := buildOpening_ok h
  have hrows := openingStock_rows hstock
  have hentry : line ∈ cmd.stock.zipIdx.map Prod.fst := by
    rw [List.zipIdx_map_fst]
    exact hline
  obtain ⟨entry, hmem, rfl⟩ := List.mem_map.1 hentry
  have hpair : entry.1.pair ∈ stock.pairs.insertionSort (· ≤ ·) := by
    rw [List.mem_insertionSort, hrows.pairs]
    exact List.mem_map_of_mem hmem
  -- the commit expects no rows on the pair
  have hbefore : inner.view.stored companyId entry.1.pair = [] :=
    List.eq_nil_of_length_eq_zero (hpassed.pairCount (List.mem_map.2 ⟨_, hpair, rfl⟩))
  have hone : onPair entry.1.pair stock.sles =
      [openingSle (openingContext companyId cmd postingDate) entry] := hrows.onLine hmem
  refine (stored_applied happlied entry.1.pair).trans ?_
  calc simulated inner.view companyId stock.sles entry.1.pair
      = ([] ++ [openingSle (openingContext companyId cmd postingDate) entry]).map
          StockLedgerEntry.row := by rw [simulated, hbefore, hone]
    _ = [⟨entry.1.qty, entry.1.rate⟩] := rfl

theorem pairBin_inj {company : Uuid} {pair : Pair} {snap snap' : BinSnapshot} :
    pairBin company pair snap = pairBin company pair snap' ↔ snap = snap' := by
  cases snap
  cases snap'
  simp [pairBin]

/-- The bin of a line is the ledger's when the balance of its receipt is the line's own figures. -/
theorem opening_bin_iff {ctx : RowContext} {inner : Inner} {line : OpeningStock} (hqty : 0 < line.qty)
    (hstored : (inner.view.stored ctx.companyId line.pair).map StockLedgerEntry.row =
      [⟨line.qty, line.rate⟩]) :
    ledgerBin inner ctx.companyId line.pair = some (openingBin ctx line) ↔ line.Kept := by
  have hne : inner.view.stored ctx.companyId line.pair ≠ [] := by
    intro hnil
    rw [hnil] at hstored
    cases hstored
  have hbin : openingBin ctx line =
      pairBin ctx.companyId line.pair ⟨line.qty, line.rate, line.stockValue⟩ := rfl
  rw [ledgerBin, if_neg hne, hstored, hbin, Option.some.injEq, pairBin_inj, computeBalance_line hqty]

/-- A committed take-on stores its bins as they are, and they are the balances of the stock ledger exactly
when every line keeps its figures under the fold. -/
theorem opening_bins_iff {codec : Codec} {view : StoreView} {env : Env} {companyId : Uuid}
    {cmd : SoloOpeningCommand} {sha : String} {actor : Actor} {commit : PostingCommit}
    (h : buildOpening codec view env companyId cmd sha actor = .ok commit) {env' : Env}
    {inner inner' : Inner} {outcome : CommitOutcome}
    (hcommit : Inner.postingCommit codec env' commit inner = (.ok outcome, inner'))
    (hnew : outcome.replayed = false) :
    (∀ bin ∈ commit.bins, AList.lookup (bin.key companyId) inner'.bins = some bin) ∧
    ((∀ bin ∈ commit.bins, ledgerBin inner' companyId bin.pair = some bin) ↔
      ∀ line ∈ cmd.stock, line.Kept) := by
  obtain ⟨hpassed, happlied⟩ := Inner.applied_of_postingCommit hcommit hnew
  have hstored : ∀ line ∈ cmd.stock, (inner'.view.stored companyId line.pair).map StockLedgerEntry.row =
      [⟨line.qty, line.rate⟩] := fun line hline => opening_stored h hpassed happlied hline
  obtain ⟨postingDate, stock, tb, continuations, hstock, -, rfl⟩ := buildOpening_ok h
  have hrows := openingStock_rows hstock
  have hlines : cmd.stock.zipIdx.map Prod.fst = cmd.stock := List.zipIdx_map_fst _ _
  have hbins : stock.bins = cmd.stock.map (openingBin (openingContext companyId cmd postingDate)) := by
    rw [hrows.bins, ← hlines, List.map_map, hlines]
    rfl
  constructor
  · intro bin hbin
    rw [happlied.bins]
    refine lookup_putBins_of_mem hbin ?_ _
    refine (List.pairwise_map.1 hrows.binPairs).imp fun {b b'} hne hkey => hne ?_
    exact pairKey_inj hkey.symm
  · refine Iff.trans (b := ∀ bin ∈ stock.bins, ledgerBin inner' companyId bin.pair = some bin) Iff.rfl ?_
    rw [hbins, List.forall_mem_map]
    refine forall₂_congr fun line hline => ?_
    have hqty : 0 < line.qty := by
      rw [← hlines] at hline
      obtain ⟨entry, hentry, rfl⟩ := List.mem_map.1 hline
      exact hrows.positive entry hentry
    exact @opening_bin_iff (openingContext companyId cmd postingDate) inner' line hqty
      (hstored line hline)

/-! ### Tins of tea -/

/-- Some tins worth ten. Cash is stated a little off, and a balance of less than half a cent is not stated
at all. -/
def tins (qty : ℚ) : SoloOpeningCommand where
  migrationId := "solo-tins"
  postingDate := "2026-01-01"
  source := .obj [("book", .string "Tea shop")]
  lines :=
    [⟨" Cash ", 100, 0, none, none⟩, ⟨"Debtors", 40, 0, some "Customer", some "Ann"⟩,
      ⟨"Stock", 10, 0, none, none⟩, ⟨"Petty", 4 / 1000, 0, none, none⟩, ⟨"Equity", 0, 150, none, none⟩]
  stock := [⟨"Oolong", "Main", qty, 10, "Stock"⟩]
  numbering := []
  expected :=
    { trialBalance := SortedMap.empty |>.put "Cash" (100 + 3 / 1000) |>.put "Debtors" 40
        |>.put "Stock" 10 |>.put "Equity" (-150)
      receivables := 40
      payables := 0
      stockValue := 10 }

/-- The company publishes its masters. -/
def tinMasters : Inner :=
  let env : Env := ⟨0, "2026-01-05", 0⟩
  let publish (docType name : String) : MutationRecord :=
    { id := docType ++ "-" ++ name
      mutationType := .createDocument
      docType
      documentId := name
      payload := [("name", .string name)]
      deviceId := "device-5"
      userId := "user-7"
      localTimestamp := 0
      syncVersion := none
      status := .pending }
  (memRun serdeCodec [.operate (.pushMutations 1
    [publish "Account" "Cash", publish "Account" "Debtors", publish "Account" "Stock",
      publish "Account" "Petty", publish "Account" "Equity", publish "Customer" "Ann",
      publish "Item" "Oolong"]) env]).book.store

/-- The build of their take-on. -/
def tinBuild (qty : ℚ) : Except PostingError PostingCommit :=
  buildOpening serdeCodec tinMasters.view ⟨1, "2026-01-05", 0⟩ 1 (tins qty) "sha" ⟨some 7, some 5, none⟩

/-- The commit that is built, run on the store it was built from. -/
def tinCommit (commit : PostingCommit) : Except StoreError CommitOutcome × Inner :=
  Inner.postingCommit serdeCodec ⟨1, "2026-01-05", 0⟩ commit tinMasters

/-- The position of three tins is taken on, the small balance and the cash included. -/
theorem take_on_reconciles_tins : ∃ commit, tinBuild 3 = .ok commit ∧ (tins 3).Reconciled commit := by
  have hbuilds : (tinBuild 3).toOption.any fun _ => true := by decide +kernel
  obtain ⟨commit, hbuild, -⟩ := Except.any_toOption.1 hbuilds
  exact ⟨commit, hbuild, take_on_reconciles hbuild⟩

/-- Three tins: the bin has a third of ten as its rate, the ledger 3.33. -/
theorem opening_bins_off : ∃ commit outcome inner, tinBuild 3 = .ok commit ∧
    tinCommit commit = (.ok outcome, inner) ∧ outcome.replayed = false ∧
    ¬ ∀ bin ∈ commit.bins, ledgerBin inner 1 bin.pair = some bin := by
  have hruns : (tinBuild 3).toOption.any fun commit =>
      (tinCommit commit).1.toOption.any fun outcome => outcome.replayed = false ∧
        ¬ ∀ bin ∈ commit.bins, ledgerBin (tinCommit commit).2 1 bin.pair = some bin := by decide +kernel
  obtain ⟨commit, hbuild, hcommit⟩ := Except.any_toOption.1 hruns
  obtain ⟨outcome, hanswer, hoff⟩ := Except.any_toOption.1 hcommit
  obtain ⟨hnew, hbins⟩ := of_decide_eq_true hoff
  exact ⟨commit, outcome, _, hbuild, Prod.ext hanswer rfl, hnew, hbins⟩

/-- Four tins are worth two and a half each, which the fold keeps. -/
theorem opening_bins_iff_tins : ∃ commit outcome inner, tinBuild 4 = .ok commit ∧
    tinCommit commit = (.ok outcome, inner) ∧ outcome.replayed = false ∧
    ∀ bin ∈ commit.bins, ledgerBin inner 1 bin.pair = some bin := by
  have hruns : (tinBuild 4).toOption.any fun commit =>
      (tinCommit commit).1.toOption.any fun outcome => outcome.replayed = false := by decide +kernel
  obtain ⟨commit, hbuild, hcommit⟩ := Except.any_toOption.1 hruns
  obtain ⟨outcome, hanswer, hfresh⟩ := Except.any_toOption.1 hcommit
  have hnew : outcome.replayed = false := of_decide_eq_true hfresh
  refine ⟨commit, outcome, (tinCommit commit).2, hbuild, Prod.ext hanswer rfl, hnew, ?_⟩
  refine (opening_bins_iff hbuild (Prod.ext hanswer rfl) hnew).2.2 ?_
  rintro line hline
  obtain rfl := List.mem_singleton.1 hline
  exact ⟨⟨4000, by norm_num⟩, ⟨1000, by norm_num⟩, ⟨250, by norm_num [OpeningStock.rate]⟩⟩

end AtlasTeam
