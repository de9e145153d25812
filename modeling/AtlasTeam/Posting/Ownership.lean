import AtlasTeam.Posting.OpeningStock
import AtlasTeam.Posting.Simulation

/-!
# Whose rows are these

Every row a document posts names its voucher and is no reversal: it carries the `Stamp` of the context
it was derived in, and its posting date (`Origin`). The lemmas follow the derivation family by family;
costing, base stamping and the GRNI split change amounts and leave origins alone.
`buildSubmit_origin` and `buildOpening_origin` say it of the whole commit.
-/

namespace AtlasTeam

/-- What a row says about where it comes from. -/
structure Stamp where
  voucherType : String
  voucherNo : String
  isReversal : Bool
deriving DecidableEq

def GlEntry.stamp (entry : GlEntry) : Stamp := ⟨entry.voucherType, entry.voucherNo, entry.isReversal⟩

def StockLedgerEntry.stamp (sle : StockLedgerEntry) : Stamp :=
  ⟨sle.voucherType, sle.voucherNo, sle.isReversal⟩

def PartyTransaction.stamp (t : PartyTransaction) : Stamp :=
  ⟨t.voucherType, t.voucherNo, t.isReversal⟩

def TaxTransaction.stamp (t : TaxTransaction) : Stamp := ⟨t.voucherType, t.voucherNo, t.isReversal⟩

/-- A settlement belongs to its payment. -/
def Settlement.stamp (s : Settlement) : Stamp :=
  ⟨s.paymentVoucherType, s.paymentVoucherNo, s.isReversal⟩

/-- The stamp of the rows a context derives. -/
def RowContext.stamp (ctx : RowContext) : Stamp := ⟨ctx.doctype, ctx.documentId, false⟩

/-- A stamp and the date a row is posted on. -/
structure Origin where
  stamp : Stamp
  postingDate : String
deriving DecidableEq

def GlEntry.origin (entry : GlEntry) : Origin := ⟨entry.stamp, entry.postingDate⟩

def StockLedgerEntry.origin (sle : StockLedgerEntry) : Origin := ⟨sle.stamp, sle.postingDate⟩

def PartyTransaction.origin (t : PartyTransaction) : Origin := ⟨t.stamp, t.postingDate⟩

def TaxTransaction.origin (t : TaxTransaction) : Origin := ⟨t.stamp, t.postingDate⟩

def Settlement.origin (s : Settlement) : Origin := ⟨s.stamp, s.postingDate⟩

def RowContext.origin (ctx : RowContext) : Origin := ⟨ctx.stamp, ctx.postingDate⟩

/-! ### Stock rows -/

theorem mem_stockDocumentRows {ctx : RowContext} {payload : Map} {incoming : Bool}
    {transType : StockTransType} {sle : StockLedgerEntry}
    (h : sle ∈ stockDocumentRows ctx payload incoming transType) :
    ∃ id item warehouse qty rate uom, sle = ctx.sle id transType item warehouse qty rate uom := by
  obtain ⟨⟨line, i⟩, -, hrow⟩ := List.mem_filterMap.1 h
  simp only [Option.bind_eq_bind, Option.bind_eq_some_iff, Option.pure_def, Option.some.injEq] at hrow
  obtain ⟨item, -, warehouse, -, rfl⟩ := hrow
  exact ⟨_, _, _, _, _, _, rfl⟩

theorem mem_stockEntryLegs {ctx : RowContext} {trans : StockTransType} {line : Map} {i : Nat}
    {sle : StockLedgerEntry} (h : sle ∈ stockEntryLegs ctx trans line i) :
    ∃ id item warehouse qty rate uom, sle = ctx.sle id trans item warehouse qty rate uom := by
  unfold stockEntryLegs at h
  cases hitem : asNonEmpty (line.get "item") with
  | none => simp [hitem] at h
  | some item =>
    simp only [hitem, List.mem_append, List.mem_map] at h
    rcases h with ⟨source, -, rfl⟩ | ⟨target, -, rfl⟩
    · exact ⟨_, _, _, _, _, _, rfl⟩
    · exact ⟨_, _, _, _, _, _, rfl⟩

/-- The raw stock rows of a voucher are stamped by its context and all of one transaction type. -/
theorem deriveStockRows_stamped (ctx : RowContext) (payload : Map) :
    ∃ trans, ∀ sle ∈ deriveStockRows ctx payload,
      ∃ id item warehouse qty rate uom, sle = ctx.sle id trans item warehouse qty rate uom := by
  unfold deriveStockRows
  split
  · split_ifs
    · exact ⟨_, fun sle h => mem_stockDocumentRows h⟩
    · exact ⟨.issue, fun sle h => absurd h List.not_mem_nil⟩
  · split_ifs
    · exact ⟨_, fun sle h => mem_stockDocumentRows h⟩
    · exact ⟨.issue, fun sle h => absurd h List.not_mem_nil⟩
  · exact ⟨_, fun sle h => mem_stockDocumentRows h⟩
  · exact ⟨_, fun sle h => mem_stockDocumentRows h⟩
  · exact ⟨_, fun sle h => mem_stockDocumentRows h⟩
  · refine ⟨stockEntryTransType (asNonEmpty (payload.get "stock_entry_type")), fun sle h => ?_⟩
    obtain ⟨⟨line, i⟩, -, hrow⟩ := List.mem_flatMap.1 h
    exact mem_stockEntryLegs hrow
  · exact ⟨.issue, fun sle h => absurd h List.not_mem_nil⟩

/-- Costing keeps the origins. -/
theorem costStockMovements_origin {view : StoreView} {companyId : Uuid} {sles : List StockLedgerEntry}
    {items : Items} {payload : Map} {origin : Origin} (h : ∀ sle ∈ sles, sle.origin = origin)
    {sle : StockLedgerEntry} (hsle : sle ∈ (costStockMovements view companyId sles items payload).1) :
    sle.origin = origin := by
  have hmem : sle.unvalued ∈ sles.map StockLedgerEntry.unvalued := by
    rw [← costStockMovements_unvalued view companyId sles items payload]
    exact List.mem_map_of_mem hsle
  obtain ⟨raw, hraw, hsame⟩ := List.mem_map.1 hmem
  have horigin : raw.unvalued.origin = sle.unvalued.origin := congrArg StockLedgerEntry.origin hsame
  exact horigin.symm.trans (h raw hraw)

/-! ### GL rows -/

section Gl
variable {ctx : RowContext} {payload : Map} {entry : GlEntry}

theorem taxLegs_origin {isOutput : Bool} (h : entry ∈ taxLegs ctx payload isOutput) :
    entry.origin = ctx.origin := by
  obtain ⟨⟨row, i⟩, -, hrow⟩ := List.mem_filterMap.1 h
  simp only at hrow
  split at hrow
  · cases hrow
  · split_ifs at hrow <;> exact (Option.some.inj hrow) ▸ rfl

theorem deriveMonetaryGl_origin (h : entry ∈ deriveMonetaryGl ctx payload) :
    entry.origin = ctx.origin := by
  unfold deriveMonetaryGl at h
  split at h
  all_goals
    simp only [List.mem_append, List.mem_cons, List.not_mem_nil, or_false] at h
  · obtain (rfl | rfl) | h := h
    · rfl
    · rfl
    · exact taxLegs_origin h
  · obtain (rfl | rfl) | h := h
    · rfl
    · rfl
    · exact taxLegs_origin h
  · obtain (rfl | rfl) | h := h
    · rfl
    · rfl
    · exact taxLegs_origin h
  · obtain rfl | rfl := h
    · rfl
    · rfl
  · obtain (rfl | h) | rfl := h
    · rfl
    · split_ifs at h
      · exact List.mem_singleton.1 h ▸ rfl
      · exact absurd h List.not_mem_nil
    · rfl
  · obtain rfl | rfl := h
    · rfl
    · rfl
  · obtain ⟨⟨row, i⟩, -, rfl⟩ := List.mem_map.1 h
    rfl

theorem stockGlLegs_origin {sles : List StockLedgerEntry} {items : Items} {settings : CompanySettings}
    (h : entry ∈ stockGlLegs ctx sles items settings) : entry.origin = ctx.origin := by
  obtain ⟨sle, -, account, amount, rfl | rfl⟩ := mem_stockGlLegs h
  · rfl
  · rfl

/-- The row the stock value is taken out of keeps its origin. -/
theorem reduceExpense_origin {expenseId : String} {stockNet rate : ℚ} {gl : List GlEntry}
    {origin : Origin} (hgl : ∀ e ∈ gl, e.origin = origin)
    (h : entry ∈ reduceExpense expenseId stockNet rate gl) : entry.origin = origin := by
  induction gl with
  | nil => exact absurd h List.not_mem_nil
  | cons first rest ih =>
    obtain ⟨hfirst, hrest⟩ := List.forall_mem_cons.1 hgl
    simp only [reduceExpense] at h
    split_ifs at h
    · exact hrest entry h
    · rcases List.mem_cons.1 h with rfl | h
      · exact hfirst
      · exact hrest entry h
    · rcases List.mem_cons.1 h with rfl | h
      · exact hfirst
      · exact ih hrest h

theorem splitGrniFromExpense_origin {gl : List GlEntry} {items : Items} {settings : CompanySettings}
    (hgl : ∀ e ∈ gl, e.origin = ctx.origin)
    (h : entry ∈ splitGrniFromExpense ctx gl payload items settings) : entry.origin = ctx.origin := by
  simp only [splitGrniFromExpense] at h
  split at h
  · exact hgl entry h
  · rcases List.mem_append.1 h with h | h
    · exact reduceExpense_origin hgl h
    · exact List.mem_singleton.1 h ▸ rfl

end Gl

/-! ### Subledger rows and settlements -/

section Subledgers
variable {ctx : RowContext} {payload : Map}

theorem journalAdjustment_origin {row : Map} {i : Nat} {t : PartyTransaction}
    (h : journalAdjustment ctx payload row i = some t) : t.origin = ctx.origin := by
  simp only [journalAdjustment, Option.bind_eq_bind, Option.bind_eq_some_iff, Option.pure_def,
    Option.some.injEq] at h
  obtain ⟨party, -, kind, -, rfl⟩ := h
  rfl

theorem taxTransactions_origin {partyType : String} {party : Option String} {t : TaxTransaction}
    (h : t ∈ taxTransactions ctx payload partyType party) : t.origin = ctx.origin := by
  obtain ⟨⟨row, i⟩, -, rfl⟩ := List.mem_map.1 h
  rfl

theorem deriveSubledgerRows_party_origin {t : PartyTransaction}
    (h : t ∈ (deriveSubledgerRows ctx payload).1) : t.origin = ctx.origin := by
  unfold deriveSubledgerRows at h
  split at h
  · obtain ⟨customer, -, rfl⟩ := List.mem_map.1 h
    rfl
  · obtain ⟨supplier, -, rfl⟩ := List.mem_map.1 h
    rfl
  · exact absurd h List.not_mem_nil
  · simp only at h
    split at h
    · exact List.mem_singleton.1 h ▸ rfl
    · exact List.mem_singleton.1 h ▸ rfl
    · exact absurd h List.not_mem_nil
  · simp only at h
    split at h
    · exact List.mem_singleton.1 h ▸ rfl
    · exact absurd h List.not_mem_nil
  · obtain ⟨⟨row, i⟩, -, hrow⟩ := List.mem_filterMap.1 h
    exact journalAdjustment_origin hrow
  · exact absurd h List.not_mem_nil

theorem deriveSubledgerRows_tax_origin {t : TaxTransaction}
    (h : t ∈ (deriveSubledgerRows ctx payload).2) : t.origin = ctx.origin := by
  unfold deriveSubledgerRows at h
  split at h
  · exact taxTransactions_origin h
  · exact taxTransactions_origin h
  · exact taxTransactions_origin h
  · simp only at h
    split at h <;> exact absurd h List.not_mem_nil
  · simp only at h
    split_ifs at h
    · exact List.mem_singleton.1 h ▸ rfl
    · exact absurd h List.not_mem_nil
  · exact absurd h List.not_mem_nil
  · exact absurd h List.not_mem_nil

theorem deriveSettlements_origin {s : Settlement} (h : s ∈ deriveSettlements ctx payload) :
    s.origin = ctx.origin := by
  obtain ⟨⟨reference, i⟩, -, hrow⟩ := List.mem_filterMap.1 h
  simp only [Option.bind_eq_bind, Option.bind_eq_some_iff, Option.pure_def, Option.some.injEq] at hrow
  obtain ⟨doctype, -, name, -, rfl⟩ := hrow
  rfl

end Subledgers

/-! ### The five ledgers of a commit -/

inductive LedgerKind where
  | gl
  | stock
  | party
  | tax
  | settlement
deriving DecidableEq

namespace LedgerKind

def Row : LedgerKind → Type
  | .gl => GlEntry
  | .stock => StockLedgerEntry
  | .party => PartyTransaction
  | .tax => TaxTransaction
  | .settlement => Settlement

/-- The rows a commit brings. -/
def rows (commit : PostingCommit) : (kind : LedgerKind) → List kind.Row
  | .gl => commit.glEntries
  | .stock => commit.stockLedgerEntries
  | .party => commit.partyTransactions
  | .tax => commit.taxTransactions
  | .settlement => commit.settlements

def stamp : (kind : LedgerKind) → kind.Row → Stamp
  | .gl => GlEntry.stamp
  | .stock => StockLedgerEntry.stamp
  | .party => PartyTransaction.stamp
  | .tax => TaxTransaction.stamp
  | .settlement => Settlement.stamp

def origin : (kind : LedgerKind) → kind.Row → Origin
  | .gl => GlEntry.origin
  | .stock => StockLedgerEntry.origin
  | .party => PartyTransaction.origin
  | .tax => TaxTransaction.origin
  | .settlement => Settlement.origin

theorem origin_stamp (kind : LedgerKind) (row : kind.Row) : (kind.origin row).stamp = kind.stamp row := by
  cases kind <;> rfl

/-- The row a cancel mirrors a stored row with. -/
def reversal (batchId : String) : (kind : LedgerKind) → kind.Row → kind.Row
  | .gl => GlEntry.reversal batchId
  | .stock => StockLedgerEntry.reversal batchId
  | .party => PartyTransaction.reversal batchId
  | .tax => TaxTransaction.reversal batchId
  | .settlement => Settlement.reversal batchId

/-- A reversal names the voucher of the row it reverses. -/
@[simp] theorem stamp_reversal (kind : LedgerKind) (batchId : String) (row : kind.Row) :
    kind.stamp (kind.reversal batchId row) = { kind.stamp row with isReversal := true } := by
  cases kind <;> rfl

/-- The rows the engine finds by voucher number. -/
def found (view : StoreView) (company : Uuid) (no : String) : (kind : LedgerKind) → List kind.Row
  | .gl => view.glForVoucher company no
  | .stock => view.slesForVoucher company no
  | .party => view.partyTransactionsForVoucher company no
  | .tax => view.taxTransactionsForVoucher company no
  | .settlement => view.settlementsForPayment company no

/-- The rows of a cancel are the live rows it found, reversed. -/
theorem rows_cancelCommit (kind : LedgerKind) (view : StoreView) (env : Env) (company : Uuid)
    (cmd : CancelCommand) (actor : Actor) (document : PostedDocument) (postingDate : String)
    (guard : Option DepositGuard) (ledgers : Ledgers) (updates : List (String × String × ℚ)) :
    kind.rows (cancelCommit env company cmd actor document postingDate guard
        (reversalRows view company cmd.documentId) ledgers updates) =
      ((kind.found view company cmd.documentId).filter fun row => !(kind.stamp row).isReversal).map
        (kind.reversal ("PB-" ++ cmd.documentId ++ reversalSuffix)) := by
  cases kind <;> rfl

end LedgerKind

section DeriveRows
variable {codec : Codec} {view : StoreView} {settings : CompanySettings} {ctx : RowContext}
  {payload : Map}

variable (ctx payload) in
/-- Base stamping keeps the origins. -/
theorem stampBaseAmounts_origin {pair : List GlEntry × List PartyTransaction}
    (hpair : pair = (if isBaseStamped ctx.doctype then stampBaseAmounts (deriveMonetaryGl ctx payload)
        (deriveSubledgerRows ctx payload).1 payload
      else (deriveMonetaryGl ctx payload, (deriveSubledgerRows ctx payload).1))) :
    (∀ e ∈ pair.1, e.origin = ctx.origin) ∧ ∀ t ∈ pair.2, t.origin = ctx.origin := by
  split_ifs at hpair
  · subst hpair
    constructor
    · intro e he
      obtain ⟨raw, hraw, rfl⟩ := List.mem_map.1 he
      have horigin : (stampGl payload raw).origin = raw.origin := rfl
      rw [horigin, deriveMonetaryGl_origin hraw]
    · intro t ht
      obtain ⟨raw, hraw, rfl⟩ := List.mem_map.1 ht
      have horigin : (stampParty payload raw).origin = raw.origin := rfl
      rw [horigin, deriveSubledgerRows_party_origin hraw]
  · subst hpair
    exact ⟨fun e he => deriveMonetaryGl_origin he, fun t ht => deriveSubledgerRows_party_origin ht⟩

variable (settings) in
theorem deriveRows_sles_origin {sle : StockLedgerEntry}
    (h : sle ∈ (deriveRows codec view settings ctx payload).sles) : sle.origin = ctx.origin := by
  refine costStockMovements_origin (fun raw hraw => ?_) h
  obtain ⟨trans, hstamped⟩ := deriveStockRows_stamped ctx payload
  obtain ⟨id, item, warehouse, qty, rate, uom, rfl⟩ := hstamped raw (List.mem_of_mem_filter hraw)
  rfl

theorem deriveRows_gl_origin {entry : GlEntry}
    (h : entry ∈ (deriveRows codec view settings ctx payload).gl) : entry.origin = ctx.origin := by
  have hmonetary := (stampBaseAmounts_origin ctx payload rfl).1
  simp only [deriveRows] at h
  have hjoined : ∀ {sles : List StockLedgerEntry} {items : Items} {e : GlEntry},
      e ∈ (if isBaseStamped ctx.doctype then stampBaseAmounts (deriveMonetaryGl ctx payload)
          (deriveSubledgerRows ctx payload).1 payload
        else (deriveMonetaryGl ctx payload, (deriveSubledgerRows ctx payload).1)).1 ++
        stockGlLegs ctx sles items settings → e.origin = ctx.origin := by
    intro sles items e he
    rcases List.mem_append.1 he with he | he
    · exact hmonetary e he
    · exact stockGlLegs_origin he
  by_cases hpurchase : ctx.doctype = "Purchase Invoice"
  · rw [if_pos hpurchase] at h
    exact splitGrniFromExpense_origin (fun e he => hjoined he) h
  · rw [if_neg hpurchase] at h
    exact hjoined h

end DeriveRows

/-- Every row of a submit comes from the submitted document and carries its date. -/
theorem buildSubmit_origin {codec : Codec} {view : StoreView} {env : Env} {companyId : Uuid}
    {cmd : SubmitCommand} {documentId : String} {actor : Actor} {commit : PostingCommit}
    (h : buildSubmit codec view env companyId cmd documentId actor = .ok commit) :
    ∃ date, commit.lockCheckDate = some date ∧ ∀ kind : LedgerKind, ∀ row ∈ kind.rows commit,
      kind.origin row = ⟨⟨cmd.doctype, documentId, false⟩, date⟩ := by
  obtain ⟨prepared, shortfalls, settlements, updates, -, -, hpayment, rfl⟩ := buildSubmit_ok h
  refine ⟨prepared.postingDate, rfl, fun kind => ?_⟩
  cases kind with
  | gl => exact fun row hrow => deriveRows_gl_origin hrow
  | stock => exact fun row hrow => deriveRows_sles_origin (view.companySettings companyId) hrow
  | party => exact fun row hrow => (stampBaseAmounts_origin _ _ rfl).2 row hrow
  | tax => exact fun row hrow => deriveSubledgerRows_tax_origin hrow
  | settlement =>
    intro s hs
    unfold paymentRows at hpayment
    split_ifs at hpayment
    · simp only [Except.bind_eq_ok, Except.pure_eq_ok] at hpayment
      obtain ⟨⟨⟩, -, updates', -, hpair⟩ := hpayment
      obtain ⟨rfl, rfl⟩ := Prod.mk.inj hpair
      exact deriveSettlements_origin hs
    · obtain ⟨rfl, rfl⟩ := Prod.mk.inj (Except.ok.inj hpayment)
      exact absurd hs List.not_mem_nil

/-- Every row of a submit names the submitted document. -/
theorem buildSubmit_stamped {codec : Codec} {view : StoreView} {env : Env} {companyId : Uuid}
    {cmd : SubmitCommand} {documentId : String} {actor : Actor} {commit : PostingCommit}
    (h : buildSubmit codec view env companyId cmd documentId actor = .ok commit) (kind : LedgerKind) :
    ∀ row ∈ kind.rows commit, kind.stamp row = ⟨cmd.doctype, documentId, false⟩ := by
  obtain ⟨date, -, horigin⟩ := buildSubmit_origin h
  intro row hrow
  rw [← kind.origin_stamp, horigin kind row hrow]

/-! ### The take-on -/

theorem openingParty_origin {ctx : RowContext} {entry : OpeningLine × Nat} {t : PartyTransaction}
    (h : openingParty ctx entry = some t) : t.origin = ctx.origin := by
  obtain ⟨line, i⟩ := entry
  simp only [openingParty, Option.bind_eq_bind, Option.bind_eq_some_iff, Option.pure_def,
    Option.some.injEq] at h
  obtain ⟨kind, -, party, -, rfl⟩ := h
  rfl

/-- Every row of a take-on comes from the opening entry and carries its date. -/
theorem buildOpening_origin {codec : Codec} {view : StoreView} {env : Env} {companyId : Uuid}
    {cmd : SoloOpeningCommand} {sha : String} {actor : Actor} {commit : PostingCommit}
    (h : buildOpening codec view env companyId cmd sha actor = .ok commit) :
    ∃ date, commit.lockCheckDate = some date ∧ ∀ kind : LedgerKind, ∀ row ∈ kind.rows commit,
      kind.origin row = ⟨⟨openingDoctype, cmd.documentId, false⟩, date⟩ := by
  obtain ⟨postingDate, stock, tb, continuations, hstock, -, rfl⟩ := buildOpening_ok h
  refine ⟨postingDate, rfl, fun kind row hrow => ?_⟩
  cases kind with
  | gl =>
    obtain ⟨⟨line, i⟩, -, rfl⟩ := List.mem_map.1 hrow
    rfl
  | stock =>
    have hsles : row ∈ stock.sles := hrow
    rw [(openingStock_rows hstock).sles] at hsles
    obtain ⟨entry, -, rfl⟩ := List.mem_map.1 hsles
    rfl
  | party =>
    obtain ⟨entry, -, hentry⟩ := List.mem_filterMap.1 hrow
    exact openingParty_origin hentry
  | tax => exact absurd hrow List.not_mem_nil
  | settlement => exact absurd hrow List.not_mem_nil

/-- Every row of a take-on names the opening entry. -/
theorem buildOpening_stamped {codec : Codec} {view : StoreView} {env : Env} {companyId : Uuid}
    {cmd : SoloOpeningCommand} {sha : String} {actor : Actor} {commit : PostingCommit}
    (h : buildOpening codec view env companyId cmd sha actor = .ok commit) (kind : LedgerKind) :
    ∀ row ∈ kind.rows commit, kind.stamp row = ⟨openingDoctype, cmd.documentId, false⟩ := by
  obtain ⟨date, -, horigin⟩ := buildOpening_origin h
  intro row hrow
  rw [← kind.origin_stamp, horigin kind row hrow]

end AtlasTeam
