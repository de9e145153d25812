import AtlasTeam.Posting.Ownership
import AtlasTeam.Store.Immutable

/-!
# The stock ledger under concurrent vouchers

A voucher is costed and checked on the ledger its build read, and committed later. The commit is
refused unless every pair of the voucher has as many rows as the build read; since rows are only
appended, these are the same rows (`stored_eq_of_passed`), and the ledger the build simulated is the
ledger the commit leaves (`stored_applied`). Hence issues are costed as if vouchers ran one at a time
(`issues_costed_in_order`), and stock that may not go negative does not (`no_oversell`).
-/

namespace AtlasTeam

/-! ### Rows of a pair -/

theorem stored_eq_onPair (inner : Inner) (company : Uuid) (pair : Pair) :
    inner.view.stored company pair = onPair pair (inner.stockLedger.log company) := by
  refine List.filter_congr fun sle _ => ?_
  rw [Bool.eq_iff_iff, Bool.and_eq_true, decide_eq_true_eq, decide_eq_true_eq, decide_eq_true_eq]
  constructor
  · rintro ⟨hitem, hwarehouse⟩
    exact congrArg toLex (Prod.ext hitem hwarehouse)
  · intro hpair
    have hproduct := congrArg ofLex hpair
    exact Prod.mk.inj hproduct

/-- Numbering rows moves neither their pairs nor their quantities and rates. -/
theorem onPair_sequenceFrom (pair : Pair) (seq : Int) (rows : List StockLedgerEntry) :
    (onPair pair (Inner.sequenceFrom seq rows)).map StockLedgerEntry.row =
      (onPair pair rows).map StockLedgerEntry.row := by
  induction rows generalizing seq with
  | nil => rfl
  | cons sle rows ih =>
    have hsame : ({ sle with seq := seq + 1 } : StockLedgerEntry).pair = sle.pair := rfl
    rw [Inner.sequenceFrom, onPair_cons, onPair_cons, hsame]
    split_ifs
    · rw [List.map_cons, List.map_cons, ih]
      rfl
    · exact ih (seq + 1)

section Applied
variable {commit : PostingCommit} {inner inner' : Inner}

/-- The log of the commit's company grows by the commit's rows. -/
theorem Inner.Applied.stockLog (h : Inner.Applied commit inner inner') :
    inner'.stockLedger.log commit.companyId =
      inner.stockLedger.log commit.companyId ++ Inner.sequencedRows commit inner := by
  rw [h.stockLedger, Table.log_extend_self]

theorem Inner.Applied.stockLog_ne (h : Inner.Applied commit inner inner') {company : Uuid}
    (hne : company ≠ commit.companyId) :
    inner'.stockLedger.log company = inner.stockLedger.log company := by
  rw [h.stockLedger, Table.log_extend_ne _ hne]

/-- The rows of a pair after a commit. -/
theorem stored_applied (h : Inner.Applied commit inner inner') (pair : Pair) :
    (inner'.view.stored commit.companyId pair).map StockLedgerEntry.row =
      simulated inner.view commit.companyId commit.stockLedgerEntries pair := by
  rw [stored_eq_onPair, h.stockLog, onPair_append, List.map_append, Inner.sequencedRows,
    onPair_sequenceFrom, simulated, List.map_append, stored_eq_onPair]

theorem stored_applied_ne (h : Inner.Applied commit inner inner') {company : Uuid}
    (hne : company ≠ commit.companyId) (pair : Pair) :
    inner'.view.stored company pair = inner.view.stored company pair := by
  rw [stored_eq_onPair, stored_eq_onPair, h.stockLog_ne hne]

end Applied

/-! ### What the build read is still there -/

/-- A pair a build loaded has the rows the build read, if the commit's expectations hold. -/
theorem stored_eq_of_passed {commit : PostingCommit} {snapshot inner : Inner} {ledgers : Ledgers}
    (hgrow : Extends snapshot inner) (hpassed : Inner.Passed commit inner)
    (hexpectations : commit.sleExpectations = ledgers.expectations) {pair : Pair}
    (hcount : ledgers.priorCounts.lookup pair =
      some (snapshot.view.stored commit.companyId pair).length) :
    inner.view.stored commit.companyId pair = snapshot.view.stored commit.companyId pair := by
  have hmem : ((ofLex pair).1, (ofLex pair).2, (snapshot.view.stored commit.companyId pair).length) ∈
      commit.sleExpectations := by
    rw [hexpectations]
    exact List.mem_map.2 ⟨_, (SortedMap.mem_entries_iff _).2 hcount, rfl⟩
  have hlength : (inner.view.stored commit.companyId pair).length =
      (snapshot.view.stored commit.companyId pair).length := hpassed.pairCount hmem
  have hgrown : snapshot.view.stored commit.companyId pair <+:
      inner.view.stored commit.companyId pair := by
    rw [stored_eq_onPair, stored_eq_onPair]
    exact (hgrow.stockLedger commit.companyId).filter _
  exact (hgrown.eq_of_length hlength.symm).symm

/-- What the build of a submit costs. -/
structure Voucher where
  items : Items
  payload : Map
  sles : List StockLedgerEntry

/-- The voucher derived from a prepared payload. -/
def readVoucher (codec : Codec) (view : StoreView) (ctx : RowContext) (payload : Map) : Voucher :=
  let raw := deriveStockRows ctx payload
  let items := loadItems codec view ctx.companyId raw payload
  { items, payload, sles := stockMovements items raw }

/-- The voucher a draft was costed from; a cancel and a take-on cost nothing. -/
def Draft.voucher (codec : Codec) (draft : Draft Inner) : Option Voucher :=
  match draft.command with
  | .submit cmd =>
    match preparePayload draft.snapshot.view draft.builtAt draft.companyId cmd draft.documentId with
    | .ok prepared => some (readVoucher codec draft.snapshot.view
        (submitContext draft.companyId cmd draft.documentId prepared.postingDate) prepared.payload)
    | .error _ => none
  | _ => none

/-- A command that posts or cancels a voucher. -/
def Command.IsVoucher : Command → Prop
  | .takeOn _ => False
  | _ => True

/-- What a voucher's build makes of the ledger it read. -/
structure LedgerBuild (codec : Codec) (draft : Draft Inner) (ledgers : Ledgers) : Prop where
  company : draft.commit.companyId = draft.companyId
  expectations : draft.commit.sleExpectations = ledgers.expectations
  bins : draft.commit.bins = recomputeBins draft.commit.companyId ledgers
  rows : (∃ cmd voucher, draft.command = .submit cmd ∧ draft.voucher codec = some voucher ∧
      draft.commit.stockLedgerEntries = (costStockMovements draft.snapshot.view
        draft.companyId voucher.sles voucher.items voucher.payload).1 ∧
      ledgers = (costStockMovements draft.snapshot.view
        draft.companyId voucher.sles voucher.items voucher.payload).2 ∧
      (cmd.offlineFiscal = false →
        checkNegativeStock (draft.snapshot.companySettings draft.companyId) ledgers = .ok ())) ∨
    ((∃ cmd, draft.command = .cancel cmd) ∧
      (∀ sle ∈ draft.commit.stockLedgerEntries, sle.isReversal = true) ∧
      ledgers = replayRows draft.snapshot.view draft.companyId draft.commit.stockLedgerEntries ∧
      checkNegativeStock (draft.snapshot.companySettings draft.companyId) ledgers = .ok ())

section Build
variable {codec : Codec} {allowed : Allowed MemOp}

theorem built_ledgers {book₀ : Book Inner} {draft : Draft Inner}
    (hbuilt : Draft.Built codec (memBackend codec) allowed book₀ draft)
    (hvoucher : draft.command.IsVoucher) : ∃ ledgers, LedgerBuild codec draft ledgers := by
  have hbuild := hbuilt.build
  cases hcommand : draft.command with
  | submit cmd =>
    rw [hcommand] at hbuild
    obtain ⟨prepared, shortfalls, settlements, updates, hprepared, hstock, -, hcommit⟩ :=
      buildSubmit_ok hbuild
    have hprepared' : preparePayload draft.snapshot.view draft.builtAt draft.companyId cmd
        draft.documentId = .ok prepared := hprepared
    have hread : draft.voucher codec = some (readVoucher codec draft.snapshot.view
        (submitContext draft.companyId cmd draft.documentId prepared.postingDate)
        prepared.payload) := by
      simp only [Draft.voucher, hcommand, hprepared']
    refine ⟨_, by rw [hcommit]; rfl, by rw [hcommit]; rfl, by rw [hcommit]; rfl,
      .inl ⟨cmd, _, hcommand, hread, by rw [hcommit]; rfl, rfl, fun honline => ?_⟩⟩
    rw [honline] at hstock
    simp only [stockCheck, Bool.false_eq_true, if_false, Except.bind_eq_ok] at hstock
    obtain ⟨⟨⟩, hcheck, -⟩ := hstock
    exact hcheck
  | cancel cmd =>
    rw [hcommand] at hbuild
    obtain ⟨doc, postingDate, guard, updates, -, -, -, hstock, -, hcommit⟩ := buildCancel_ok hbuild
    refine ⟨_, by rw [hcommit]; rfl, by rw [hcommit]; rfl, by rw [hcommit]; rfl,
      .inr ⟨⟨cmd, hcommand⟩, ?_, by rw [hcommit]; rfl, hstock⟩⟩
    rw [hcommit]
    intro sle hsle
    obtain ⟨original, -, rfl⟩ := List.mem_map.1 hsle
    rfl
  | takeOn cmd =>
    rw [hcommand] at hvoucher
    exact hvoucher.elim

/-- The ledger of the build agrees in quantities with the ledger the commit makes of what was
read. -/
theorem LedgerBuild.quantities {draft : Draft Inner} {ledgers : Ledgers}
    (h : LedgerBuild codec draft ledgers) :
    ledgers.Reflects draft.snapshot.view draft.commit.companyId (List.map LedgerRow.qtyChange)
      draft.commit.stockLedgerEntries := by
  rw [h.company]
  rcases h.rows with ⟨cmd, voucher, -, -, hposted, hledgers, -⟩ | ⟨-, -, hledgers, -⟩
  · rw [hposted, hledgers]
    exact costStockMovements_quantities _ _ _ _ _
  · rw [hledgers]
    exact (replayRows_simulates _ _ _).reflects _

/-- A pair the voucher touches has at the commit the rows the build read. -/
theorem LedgerBuild.stored_eq {draft : Draft Inner} {ledgers : Ledgers} {inner : Inner}
    (h : LedgerBuild codec draft ledgers) (hgrow : Extends draft.snapshot inner)
    (hpassed : Inner.Passed draft.commit inner) {pair : Pair}
    (hpair : pair ∈ draft.commit.stockLedgerEntries.map StockLedgerEntry.pair) :
    inner.view.stored draft.commit.companyId pair =
      draft.snapshot.view.stored draft.commit.companyId pair := by
  have hcount := h.quantities.priorCounts pair
  rw [if_pos hpair] at hcount
  exact stored_eq_of_passed hgrow hpassed h.expectations hcount

/-- The ledger after the commit, on a pair the voucher touches: what the build simulated. -/
theorem LedgerBuild.stored_applied {draft : Draft Inner} {ledgers : Ledgers} {inner inner' : Inner}
    (h : LedgerBuild codec draft ledgers) (hgrow : Extends draft.snapshot inner)
    (hpassed : Inner.Passed draft.commit inner) (happlied : Inner.Applied draft.commit inner inner')
    {pair : Pair} (hpair : pair ∈ draft.commit.stockLedgerEntries.map StockLedgerEntry.pair) :
    (inner'.view.stored draft.commit.companyId pair).map StockLedgerEntry.row =
      simulated draft.snapshot.view draft.commit.companyId draft.commit.stockLedgerEntries pair := by
  rw [AtlasTeam.stored_applied happlied, simulated, simulated, h.stored_eq hgrow hpassed hpair]

end Build

/-- A pair no row of the commit is on keeps its rows. -/
theorem stored_applied_of_notMem {commit : PostingCommit} {inner inner' : Inner}
    (h : Inner.Applied commit inner inner') {pair : Pair}
    (hpair : pair ∉ commit.stockLedgerEntries.map StockLedgerEntry.pair) :
    (inner'.view.stored commit.companyId pair).map StockLedgerEntry.row =
      (inner.view.stored commit.companyId pair).map StockLedgerEntry.row := by
  rw [stored_applied h, simulated, onPair_eq_nil hpair, List.append_nil]

/-! ### Sequence numbers -/

/-- The rows of a commit are numbered on from `seq`. -/
theorem seq_sequenceFrom {seq : Int} {rows before after : List StockLedgerEntry}
    {sle : StockLedgerEntry} (h : Inner.sequenceFrom seq rows = before ++ sle :: after) :
    sle.seq = seq + before.length + 1 := by
  induction rows generalizing seq before with
  | nil => simp [Inner.sequenceFrom] at h
  | cons row rows ih =>
    rw [Inner.sequenceFrom] at h
    cases before with
    | nil =>
      obtain ⟨rfl, -⟩ := List.cons.inj h
      simp
    | cons row' before =>
      have htail := ih (List.cons.inj h).2
      rw [htail, List.length_cons]
      push_cast
      ring

/-- Every company's rows are numbered by their position, and its counter stands at the last one. -/
structure Sequenced (inner : Inner) : Prop where
  counter : ∀ company,
    (AList.lookup company inner.sleSeq).getD 0 = (inner.stockLedger.log company).length
  position : ∀ company before sle after,
    inner.stockLedger.log company = before ++ sle :: after → sle.seq = (before.length : Int) + 1

theorem sequenced_fresh : Sequenced {} where
  counter _ := rfl
  position _ _ _ _ h := by simp [Table.log] at h

/-- A commit's rows are numbered on. -/
theorem Sequenced.applied {commit : PostingCommit} {inner inner' : Inner} (h : Sequenced inner)
    (happlied : Inner.Applied commit inner inner') : Sequenced inner' := by
  constructor
  · intro company
    rw [happlied.sleSeq]
    by_cases hcompany : company = commit.companyId
    · subst hcompany
      rw [AList.lookup_insert, Option.getD_some, happlied.stockLog, h.counter, List.length_append]
      push_cast
      rfl
    · rw [AList.lookup_insert_ne hcompany, happlied.stockLog_ne hcompany]
      exact h.counter company
  · intro company before sle after hlog
    by_cases hcompany : company = commit.companyId
    · subst hcompany
      rw [happlied.stockLog] at hlog
      rcases List.append_eq_append_iff.1 hlog with ⟨tail, rfl, hrows⟩ | ⟨tail, hold, hrows⟩
      · rw [Inner.sequencedRows] at hrows
        rw [seq_sequenceFrom hrows, h.counter, List.length_append]
        push_cast
        ring
      · cases tail with
        | nil =>
          have hstart : Inner.sequenceFrom _ commit.stockLedgerEntries = [] ++ sle :: after := hrows.symm
          rw [seq_sequenceFrom hstart, h.counter, hold]
          simp
        | cons sle' tail =>
          obtain ⟨rfl, -⟩ := List.cons.inj hrows
          exact h.position _ _ _ _ hold
    · rw [happlied.stockLog_ne hcompany] at hlog
      exact h.position _ _ _ _ hlog

/-- Numbering by position is kept in every run. -/
theorem sequenced_run (codec : Codec) (events : List (Event MemOp)) :
    Sequenced (memRun codec events).book.store := by
  have rule : Snapshot.Rule (protocol codec (memBackend codec) (.all MemOp))
      (fun book => Kept book ∧ Sequenced book.store)
      fun book book' => Extends book.store book'.store := by
    refine extends_rule_and ?_ ?_
    · intro book₀ book draft inner' _ _ _ _ h _ _ happlied
      exact h.applied happlied
    · intro book op env h _
      have hframe := operate_frame codec env op book.store
      refine ⟨?_, ?_⟩
      · rw [hframe.sleSeq, hframe.stockLedger]
        exact h.counter
      · rw [hframe.stockLedger]
        exact h.position
  have hrun : Kept (memRun codec events).book ∧ Sequenced (memRun codec events).book.store :=
    System.invariant_of_rule rule ⟨kept_fresh, sequenced_fresh⟩ fun event _ => event.allowed_all
  exact hrun.2

theorem Sequenced.pairwise {inner : Inner} (h : Sequenced inner) (company : Uuid) :
    (inner.stockLedger.log company).Pairwise fun row row' => row.seq < row'.seq := by
  refine List.pairwise_iff_getElem.2 fun i j hi hj hij => ?_
  have hposition : ∀ k (hk : k < (inner.stockLedger.log company).length),
      (inner.stockLedger.log company)[k].seq = (k : Int) + 1 := by
    intro k hk
    have hlog : inner.stockLedger.log company = (inner.stockLedger.log company).take k ++
        (inner.stockLedger.log company)[k] :: (inner.stockLedger.log company).drop (k + 1) := by
      simp
    have hseq := h.position company _ _ _ hlog
    rw [hseq, List.length_take, min_eq_left hk.le]
  rw [hposition i hi, hposition j hj]
  omega

/-- The rows with a smaller number are the rows before. -/
theorem Sequenced.filter_seq_lt {inner : Inner} (h : Sequenced inner) {company : Uuid}
    {before after : List StockLedgerEntry} {sle : StockLedgerEntry}
    (hlog : inner.stockLedger.log company = before ++ sle :: after) :
    (inner.stockLedger.log company).filter (fun row => row.seq < sle.seq) = before := by
  have hpairwise := h.pairwise company
  rw [hlog] at hpairwise ⊢
  obtain ⟨-, htail, hbefore⟩ := List.pairwise_append.1 hpairwise
  obtain ⟨hafter, -⟩ := List.pairwise_cons.1 htail
  have hkeep : before.filter (fun row => row.seq < sle.seq) = before :=
    List.filter_eq_self.2 fun row hrow => decide_eq_true (hbefore row hrow sle List.mem_cons_self)
  have hdrop : (sle :: after).filter (fun row => row.seq < sle.seq) = [] := by
    refine List.filter_eq_nil_iff.2 fun row hrow => ?_
    rw [decide_eq_true_eq, not_lt]
    rcases List.mem_cons.1 hrow with rfl | hrow
    · exact le_refl _
    · exact (hafter row hrow).le
  rw [List.filter_append, hkeep, hdrop, List.append_nil]

/-! ### Issues are costed in order -/

/-- A numbered row is a row of the commit. -/
theorem sequenceFrom_split {seq : Int} {rows before after : List StockLedgerEntry}
    {row : StockLedgerEntry} (h : Inner.sequenceFrom seq rows = before ++ row :: after) :
    ∃ before₀ sle after₀, rows = before₀ ++ sle :: after₀ ∧
      before = Inner.sequenceFrom seq before₀ ∧ row = { sle with seq := row.seq } := by
  induction rows generalizing seq before with
  | nil => simp [Inner.sequenceFrom] at h
  | cons sle rows ih =>
    rw [Inner.sequenceFrom] at h
    cases before with
    | nil =>
      obtain ⟨rfl, -⟩ := List.cons.inj h
      exact ⟨[], sle, rows, rfl, rfl, rfl⟩
    | cons first before =>
      obtain ⟨rfl, htail⟩ := List.cons.inj h
      obtain ⟨before₀, sle', after₀, rfl, rfl, hrow⟩ := ih htail
      exact ⟨sle :: before₀, sle', after₀, rfl, rfl, hrow⟩

/-- The rows of a voucher are all of one transaction type. -/
theorem voucher_transType {codec : Codec} {draft : Draft Inner} {voucher : Voucher}
    (h : draft.voucher codec = some voucher) :
    ∃ trans, ∀ sle ∈ voucher.sles, sle.transType = trans := by
  unfold Draft.voucher at h
  split at h
  · split at h
    · obtain rfl := Option.some.inj h
      obtain ⟨trans, hstamped⟩ := deriveStockRows_stamped _ _
      refine ⟨trans, fun sle hsle => ?_⟩
      obtain ⟨id, item, warehouse, qty, rate, uom, rfl⟩ := hstamped sle (List.mem_of_mem_filter hsle)
      rfl
    · cases h
  · cases h

/-- The valuation method of an item as the build of a draft read it. -/
def Draft.methodRead (codec : Codec) (draft : Draft Inner) (item : String) : Option String :=
  (draft.voucher codec).bind fun voucher => valuationMethodOf voucher.items item

/-- A row of an applied draft that issues stock outside of Production is costed on all rows of its
pair before it. -/
theorem LedgerBuild.issue_rate {codec : Codec} {draft : Draft Inner} {ledgers : Ledgers}
    {inner : Inner} (h : LedgerBuild codec draft ledgers) (hgrow : Extends draft.snapshot inner)
    (hpassed : Inner.Passed draft.commit inner) {before after : List StockLedgerEntry}
    {row : StockLedgerEntry}
    (hrows : Inner.sequencedRows draft.commit inner = before ++ row :: after)
    (hposted : row.isReversal = false) (hissue : row.qtyChange < 0)
    (hplain : row.transType ≠ .production) :
    row.valuationRate = issueRate
      ((onPair row.pair (inner.stockLedger.log draft.commit.companyId ++ before)).map
        StockLedgerEntry.row)
      (-row.qtyChange) (draft.methodRead codec row.item) := by
  obtain ⟨before₀, sle, after₀, hentries, rfl, hrow⟩ := sequenceFrom_split hrows
  rcases h.rows with ⟨cmd, voucher, -, hvoucher, hresult, -, -⟩ | ⟨-, hreversal, -, -⟩
  · obtain ⟨trans, htrans⟩ := voucher_transType hvoucher
    -- the voucher's rows share the row's type, so it has no output legs
    have hshape := costStockMovements_unvalued draft.snapshot.view draft.companyId voucher.sles
      voucher.items voucher.payload
    rw [← hresult, hentries] at hshape
    have hmem : sle.unvalued ∈ voucher.sles.map StockLedgerEntry.unvalued := by
      rw [← hshape]
      exact List.mem_map_of_mem (List.mem_append_right _ List.mem_cons_self)
    obtain ⟨sle₀, hsle₀, hunvalued⟩ := List.mem_map.1 hmem
    have hsame : sle₀.transType = sle.transType := by
      have hfield := congrArg StockLedgerEntry.transType hunvalued
      exact hfield
    have hplain₀ : ∀ sle' ∈ voucher.sles, sle'.transType ≠ .production := by
      intro sle' hsle'
      rw [htrans sle' hsle', ← htrans sle₀ hsle₀, hsame]
      rw [hrow] at hplain
      exact hplain
    rw [hrow] at hissue
    have hrate := costStockMovements_issue draft.snapshot.view draft.companyId voucher.sles
      voucher.items voucher.payload hplain₀ (hresult.symm.trans hentries) hissue
    have hpair : sle.pair ∈ draft.commit.stockLedgerEntries.map StockLedgerEntry.pair := by
      rw [hentries]
      exact List.mem_map_of_mem (List.mem_append_right _ List.mem_cons_self)
    have hstored := h.stored_eq hgrow hpassed hpair
    have hprior : (onPair sle.pair (inner.stockLedger.log draft.commit.companyId ++
        Inner.sequenceFrom ((AList.lookup draft.commit.companyId inner.sleSeq).getD 0)
          before₀)).map StockLedgerEntry.row =
        simulated draft.snapshot.view draft.companyId before₀ sle.pair := by
      rw [onPair_append, List.map_append, onPair_sequenceFrom, ← stored_eq_onPair, hstored, h.company,
        simulated, List.map_append]
    have hmethod : draft.methodRead codec sle.item = valuationMethodOf voucher.items sle.item := by
      rw [Draft.methodRead, hvoucher, Option.bind_some]
    rw [← hprior, ← hmethod] at hrate
    rw [hrow]
    exact hrate
  · have hmem : sle ∈ draft.commit.stockLedgerEntries := by
      rw [hentries]
      exact List.mem_append_right _ List.mem_cons_self
    rw [hrow] at hposted
    exact absurd ((hreversal sle hmem).symm.trans hposted) (by decide)

/-- Every issue outside of Production was costed by the build of an entry on all rows of its pair
before it. -/
def CostedInOrder (codec : Codec) (book : Book Inner) : Prop :=
  ∀ company before row after,
    book.store.stockLedger.log company = before ++ row :: after →
    row.isReversal = false → row.qtyChange < 0 → row.transType ≠ .production →
    ∃ entry ∈ book.journal, entry.companyId = company ∧
      row ∈ Inner.sequencedRows entry.commit entry.before ∧
      row.valuationRate = issueRate ((onPair row.pair before).map StockLedgerEntry.row)
        (-row.qtyChange) (entry.methodRead codec row.item)

/-- No take-ons. -/
def vouchers : Allowed MemOp := ⟨Command.IsVoucher, fun _ => True⟩

theorem costedInOrder_rule {codec : Codec} :
    Snapshot.Rule (protocol codec (memBackend codec) vouchers)
      (fun book => Kept book ∧ CostedInOrder codec book)
      fun book book' => Extends book.store book'.store := by
  refine extends_rule_and ?_ ?_
  · intro book₀ book draft inner' _ _ hgrow _ hcosted hbuilt hpassed happlied
    obtain ⟨ledgers, hledgers⟩ := built_ledgers hbuilt hbuilt.allowed
    rw [← hbuilt.snapshot] at hgrow
    -- a row that was there keeps its entry
    have hold : ∀ company before row after,
        book.store.stockLedger.log company = before ++ row :: after →
        row.isReversal = false → row.qtyChange < 0 → row.transType ≠ .production →
        ∃ entry ∈ book.journal ++ [appliedEntry draft book.store], entry.companyId = company ∧
          row ∈ Inner.sequencedRows entry.commit entry.before ∧
          row.valuationRate = issueRate ((onPair row.pair before).map StockLedgerEntry.row)
            (-row.qtyChange) (entry.methodRead codec row.item) := by
      intro company before row after hlog hposted hissue hplain
      obtain ⟨entry, hentry, h⟩ := hcosted company before row after hlog hposted hissue hplain
      exact ⟨entry, List.mem_append_left _ hentry, h⟩
    have hnew : ∀ before row after, Inner.sequencedRows draft.commit book.store = before ++ row :: after →
        row.isReversal = false → row.qtyChange < 0 → row.transType ≠ .production →
        ∃ entry ∈ book.journal ++ [appliedEntry draft book.store],
          entry.companyId = draft.commit.companyId ∧
          row ∈ Inner.sequencedRows entry.commit entry.before ∧
          row.valuationRate = issueRate ((onPair row.pair
              (book.store.stockLedger.log draft.commit.companyId ++ before)).map StockLedgerEntry.row)
            (-row.qtyChange) (entry.methodRead codec row.item) := by
      intro before row after hrows hposted hissue hplain
      refine ⟨_, List.mem_append_right _ List.mem_cons_self, hledgers.company.symm, ?_,
        hledgers.issue_rate hgrow hpassed hrows hposted hissue hplain⟩
      exact hrows.symm ▸ List.mem_append_right _ List.mem_cons_self
    intro company before row after hlog hposted hissue hplain
    by_cases hcompany : company = draft.commit.companyId
    · subst hcompany
      have happend := happlied.stockLog.symm.trans hlog
      rcases List.append_eq_append_iff.1 happend with ⟨tail, rfl, hrows⟩ | ⟨tail, hlog₀, hrows⟩
      · exact hnew tail row after hrows hposted hissue hplain
      · cases tail with
        | nil =>
          have hfirst := hnew [] row after hrows.symm hposted hissue hplain
          rw [List.append_nil] at hlog₀
          rwa [List.append_nil, hlog₀] at hfirst
        | cons row' tail =>
          obtain ⟨rfl, -⟩ := List.cons.inj hrows
          exact hold _ before row tail hlog₀ hposted hissue hplain
    · rw [happlied.stockLog_ne hcompany] at hlog
      exact hold company before row after hlog hposted hissue hplain
  · intro book op env hcosted _
    unfold CostedInOrder
    rw [(operate_frame codec env op book.store).stockLedger]
    exact hcosted

/-- In every run of vouchers, an issue outside of Production is costed at the issue rate of all stored
rows of its company and pair with a smaller sequence number, by the valuation method its build read;
and sequence numbers increase along the ledger, so of two issues of a pair one is costed on the
other. -/
theorem issues_costed_in_order (codec : Codec) (events : List (Event MemOp))
    (hevents : ∀ event ∈ events, event.Allowed vouchers) (company : Uuid) :
    ((memRun codec events).book.store.stockLedger.log company).Pairwise (fun row row' =>
      row.seq < row'.seq) ∧
    ∀ row ∈ (memRun codec events).book.store.stockLedger.log company,
      row.isReversal = false → row.qtyChange < 0 → row.transType ≠ .production →
      ∃ entry ∈ (memRun codec events).book.journal, entry.companyId = company ∧
        row ∈ Inner.sequencedRows entry.commit entry.before ∧
        row.valuationRate = issueRate
          ((onPair row.pair (((memRun codec events).book.store.stockLedger.log company).filter
            fun row' => row'.seq < row.seq)).map StockLedgerEntry.row)
          (-row.qtyChange) (entry.methodRead codec row.item) := by
  have hfresh : CostedInOrder codec { store := {} } := by
    intro company before row after hlog
    simp [Table.log] at hlog
  have hrun : Kept (memRun codec events).book ∧ CostedInOrder codec (memRun codec events).book :=
    System.invariant_of_rule costedInOrder_rule ⟨kept_fresh, hfresh⟩ hevents
  have hcosted := hrun.2
  have hsequenced := sequenced_run codec events
  refine ⟨hsequenced.pairwise company, fun row hrow hposted hissue hplain => ?_⟩
  obtain ⟨before, after, hlog⟩ := List.append_of_mem hrow
  rw [hsequenced.filter_seq_lt hlog]
  exact hcosted company before row after hlog hposted hissue hplain

/-- A stock voucher of one line. -/
def teaVoucher (doctype id : String) (qty rate : Int) : Command :=
  .submit
    { doctype
      documentId := some id
      payload := [("posting_date", .string "2026-01-05")]
      items := [.obj [("item", .string "TEA"), ("warehouse", .string "Main"), ("qty", .int qty),
        ("rate", .int rate)]]
      idempotencyKey := none
      offlineFiscal := false }

/-- Ten come in; two deliveries of six are built on these ten, and the second to commit has to build
again. -/
def raceForStock : List (Event MemOp) :=
  let env : Env := ⟨0, "2026-01-05", 0⟩
  let clerk : Actor := ⟨some 7, some 5, none⟩
  Event.whole 1 clerk (teaVoucher "Purchase Receipt" "PR-1" 10 5) 0 env ++
    [.call 1 clerk (teaVoucher "Delivery Note" "DN-1" 6 0),
      .call 1 clerk (teaVoucher "Delivery Note" "DN-2" 6 0), .advance 1 env, .advance 2 env,
      .advance 1 env, .advance 2 env, .advance 1 env, .advance 2 env, .advance 2 env]

theorem issues_costed_in_order_race :
    ∃ row ∈ (memRun serdeCodec raceForStock).book.store.stockLedger.log 1, row.qtyChange = -6 ∧
      ∃ entry ∈ (memRun serdeCodec raceForStock).book.journal, entry.companyId = 1 ∧
        row ∈ Inner.sequencedRows entry.commit entry.before ∧
        row.valuationRate = issueRate
          ((onPair row.pair (((memRun serdeCodec raceForStock).book.store.stockLedger.log 1).filter
            fun row' => row'.seq < row.seq)).map StockLedgerEntry.row)
          (-row.qtyChange) (entry.methodRead serdeCodec row.item) := by
  have hevents : ∀ event ∈ raceForStock, event.Allowed vouchers := by
    simp [raceForStock, Event.whole, Event.Allowed, vouchers, Command.IsVoucher, teaVoucher]
  have hsecond : (((memRun serdeCodec raceForStock).book.store.stockLedger.log 1)[1]?).map
      (fun row => (row.isReversal, row.qtyChange, row.transType)) =
        some (false, (-6 : ℚ), StockTransType.issue) := by
    decide +kernel
  obtain ⟨row, hrow, hfields⟩ := Option.map_eq_some_iff.1 hsecond
  obtain ⟨hposted, hqty, htrans⟩ : row.isReversal = false ∧ row.qtyChange = -6 ∧
      row.transType = .issue := by simpa using hfields
  have hmem := List.mem_of_getElem? hrow
  exact ⟨row, hmem, hqty, (issues_costed_in_order serdeCodec raceForStock hevents 1).2 row hmem
    hposted (by rw [hqty]; decide +kernel) (by rw [htrans]; decide)⟩

/-! ### No oversell -/

/-- What a company has on hand of a pair. -/
def onHand (inner : Inner) (company : Uuid) (pair : Pair) : ℚ :=
  (computeBalance ((inner.view.stored company pair).map StockLedgerEntry.row)).actualQty

/-- The company may not and does not hold negative stock. -/
structure Covered (company : Uuid) (inner : Inner) : Prop where
  settings : (inner.companySettings company).allowNegativeStock = false
  nonneg : ∀ pair, 0 ≤ onHand inner company pair

/-- No till confirmations and no take-ons, and the company's setting is left off. -/
def strictStock (company : Uuid) : Allowed MemOp where
  command
    | .submit cmd => cmd.offlineFiscal = false
    | .cancel _ => True
    | .takeOn _ => False
  operate
    | .putSettings company' settings => company' = company → settings.allowNegativeStock = false
    | _ => True

/-- What `check_negative_stock` lets through has no negative balance. -/
theorem checkNegativeStock_ok {settings : CompanySettings} {ledgers : Ledgers}
    (hsettings : settings.allowNegativeStock = false)
    (h : checkNegativeStock settings ledgers = .ok ()) {pair : Pair} {rows : List LedgerRow}
    (hrows : ledgers.rows.lookup pair = some rows) : 0 ≤ (computeBalance rows).actualQty := by
  rw [checkNegativeStock, hsettings, if_neg Bool.false_ne_true, Except.forM_eq_ok] at h
  have hpair := h _ ((SortedMap.mem_entries_iff _).2 hrows)
  by_contra hneg
  simp [not_le.1 hneg] at hpair

/-- A settings operation the run may hold leaves the setting off. -/
theorem operate_allowNegativeStock {codec : Codec} {company : Uuid} {inner : Inner} {op : MemOp}
    (env : Env) (hop : (strictStock company).operate op)
    (h : (inner.companySettings company).allowNegativeStock = false) :
    (((memBackend codec).operate env op inner).companySettings company).allowNegativeStock = false := by
  cases op with
  | lostHistory company' report audit =>
    rcases Inner.recordLostHistory_cases company' report audit inner with
      ⟨stored, -, hrun⟩ | ⟨-, response, recoveries, audits, hrun⟩
    · simp only [memBackend, hrun]
      exact h
    · simp only [memBackend, hrun]
      exact h
  | putSettings company' settings =>
    by_cases hcompany : company = company'
    · subst hcompany
      simpa [memBackend, Inner.putCompanySettings, Inner.companySettings] using hop rfl
    · simpa [memBackend, Inner.putCompanySettings, Inner.companySettings,
        AList.lookup_insert_ne hcompany] using h
  | setBooksLock company' change =>
    simp only [memBackend, Inner.setBooksLock]
    split_ifs
    · exact h
    · exact h
    · by_cases hcompany : company = company'
      · subst hcompany
        simpa [Inner.companySettings] using h
      · simpa [Inner.companySettings, AList.lookup_insert_ne hcompany] using h
  | pushMutations company' records => exact h
  | upsertItem company' item => exact h

section Rule
variable {codec : Codec} {company : Uuid}

/-- A voucher that passed its stock check keeps the company covered. -/
theorem Covered.applied {book₀ book : Book Inner} {draft : Draft Inner} {inner' : Inner}
    (h₀ : Covered company book₀.store) (hgrow : Extends book₀.store book.store)
    (h : Covered company book.store)
    (hbuilt : Draft.Built codec (memBackend codec) (strictStock company) book₀ draft)
    (hpassed : Inner.Passed draft.commit book.store)
    (happlied : Inner.Applied draft.commit book.store inner') : Covered company inner' := by
  have hallowed := hbuilt.allowed
  have hvoucher : draft.command.IsVoucher := by
    cases hcommand : draft.command with
    | takeOn cmd =>
      rw [hcommand] at hallowed
      exact hallowed
    | _ => trivial
  obtain ⟨ledgers, hledgers⟩ := built_ledgers hbuilt hvoucher
  rw [← hbuilt.snapshot] at h₀ hgrow
  constructor
  · rw [Inner.companySettings, happlied.settings]
    exact h.settings
  intro pair
  by_cases hcompany : company = draft.commit.companyId
  · subst hcompany
    by_cases hpair : pair ∈ draft.commit.stockLedgerEntries.map StockLedgerEntry.pair
    · -- the balance is the one the build checked
      have hquantities := hledgers.quantities.rows pair
      rw [if_pos hpair] at hquantities
      obtain ⟨rows, hrows, hsame⟩ := Option.map_eq_some_iff.1 hquantities
      have hchecked : checkNegativeStock (draft.snapshot.companySettings draft.companyId) ledgers
          = .ok () := by
        rcases hledgers.rows with ⟨cmd, voucher, hcommand, -, -, -, hcheck⟩ | ⟨-, -, -, hcheck⟩
        · rw [hcommand] at hallowed
          exact hcheck hallowed
        · exact hcheck
      rw [onHand, hledgers.stored_applied hgrow hpassed happlied hpair,
        ← computeBalance_actualQty_congr hsame]
      rw [hledgers.company] at h₀
      exact checkNegativeStock_ok h₀.settings hchecked hrows
    · rw [onHand, stored_applied_of_notMem happlied hpair]
      exact h.nonneg pair
  · rw [onHand, stored_applied_ne happlied hcompany]
    exact h.nonneg pair

theorem covered_rule : Snapshot.Rule (protocol codec (memBackend codec) (strictStock company))
    (fun book => Kept book ∧ Covered company book.store)
    fun book book' => Extends book.store book'.store := by
  refine extends_rule_and ?_ ?_
  · intro book₀ book draft inner' _ h₀ hgrow _ h hbuilt hpassed happlied
    exact h₀.applied hgrow h hbuilt hpassed happlied
  · intro book op env h hop
    refine ⟨operate_allowNegativeStock env hop h.settings, fun pair => ?_⟩
    have hlog := (operate_frame codec env op book.store).stockLedger
    have hsame := h.nonneg pair
    rw [onHand, stored_eq_onPair] at hsame ⊢
    rwa [hlog]

end Rule

/-- In every run of vouchers without till confirmations in which a company's negative-stock setting
is off, the company never holds less than nothing of an item in a warehouse. -/
theorem no_oversell (codec : Codec) (company : Uuid) (events : List (Event MemOp))
    (hevents : ∀ event ∈ events, event.Allowed (strictStock company)) (pair : Pair) :
    0 ≤ onHand (memRun codec events).book.store company pair := by
  have hfresh : Covered company {} := by
    refine ⟨rfl, fun pair => ?_⟩
    have hempty : onHand {} company pair = (computeBalance []).actualQty := rfl
    rw [hempty, computeBalance_nil_actualQty]
  have hrun : Kept (memRun codec events).book ∧ Covered company (memRun codec events).book.store :=
    System.invariant_of_rule covered_rule ⟨kept_fresh, hfresh⟩ hevents
  exact hrun.2.nonneg pair

theorem no_oversell_race : 0 ≤ onHand (memRun serdeCodec raceForStock).book.store 1 (toLex ("TEA", "Main")) :=
  no_oversell serdeCodec 1 raceForStock
    (by simp [raceForStock, Event.whole, Event.Allowed, strictStock, teaVoucher]) _

end AtlasTeam
