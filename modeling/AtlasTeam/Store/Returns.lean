import AtlasTeam.Store.Inventory
import AtlasTeam.Store.StockValues

/-!
# Returned goods

A return re-enters goods at the rate of the first row that the ledger holds under the sale's number for
their item and warehouse. Whether a full return brings back what the sale took out thus depends on the rates
of the sale's rows (`return_undoes_cost_iff`).
-/

namespace AtlasTeam

/-! ### The first row of a number -/

/-- The rate of the first row a store holds under a voucher's number for a pair. -/
def firstRate (view : StoreView) (companyId : Uuid) (voucher : String) (pair : Pair) : ℚ :=
  (((view.slesForVoucher companyId voucher).find? fun sle => sle.pair = pair).map
    StockLedgerEntry.valuationRate).getD 0

theorem pair_eq_iff {sle : StockLedgerEntry} {pair : Pair} :
    sle.pair = pair ↔ sle.item = (ofLex pair).1 ∧ sle.warehouse = (ofLex pair).2 :=
  ⟨fun h => h ▸ ⟨rfl, rfl⟩, fun h => congrArg toLex (Prod.ext h.1 h.2)⟩

/-- Goods of a pair that the voucher moved come back at the rate of its first row. -/
theorem returnCost_found {view : StoreView} {companyId : Uuid} {voucher : String} {pair : Pair}
    (h : ∃ sle ∈ view.slesForVoucher companyId voucher, sle.pair = pair) (ledgers : Ledgers) :
    returnCost view companyId pair (some voucher) ledgers = firstRate view companyId voucher pair := by
  obtain ⟨sle, hsle, hpair⟩ := h
  have hfinds : ((view.slesForVoucher companyId voucher).filter fun sle =>
      sle.item = (ofLex pair).1).find? (fun sle => sle.warehouse = (ofLex pair).2) =
      (view.slesForVoucher companyId voucher).find? fun sle => sle.pair = pair := by
    rw [List.find?_filter]
    congr 1
    funext sle
    simp [pair_eq_iff]
  obtain ⟨first, hfirst⟩ : ∃ first, (view.slesForVoucher companyId voucher).find?
      (fun sle => sle.pair = pair) = some first := by
    rw [← Option.isSome_iff_exists, List.find?_isSome]
    exact ⟨sle, hsle, decide_eq_true hpair⟩
  unfold returnCost firstRate
  dsimp only
  rw [hfinds, hfirst]
  rfl

/-! ### Sums by item -/

/-- In matched lists every element of the second has its match in the first. -/
theorem exists_matched {α β : Type} {R : α → β → Prop} {l : List α} {l' : List β}
    (h : List.Forall₂ R l l') {b : β} (hb : b ∈ l') : ∃ a ∈ l, R a b := by
  induction h with
  | nil => exact absurd hb List.not_mem_nil
  | @cons a b' l l' hab _ ih =>
    rcases List.mem_cons.1 hb with rfl | hb
    · exact ⟨a, List.mem_cons_self, hab⟩
    · obtain ⟨a', ha', hmatch⟩ := ih hb
      exact ⟨a', List.mem_cons_of_mem _ ha', hmatch⟩

/-- What the rows of an item add up to. -/
def itemSum (f : StockLedgerEntry → ℚ) (item : String) (rows : List StockLedgerEntry) : ℚ :=
  ((rows.filter fun sle => sle.item = item).map f).sum

section Sums
variable {f g : StockLedgerEntry → ℚ} {item : String} {rows rows' : List StockLedgerEntry}

theorem itemSum_cons (sle : StockLedgerEntry) :
    itemSum f item (sle :: rows) = (if sle.item = item then f sle else 0) + itemSum f item rows := by
  unfold itemSum
  rw [List.filter_cons]
  split_ifs <;> simp_all

theorem itemSum_forall₂ {R : StockLedgerEntry → StockLedgerEntry → Prop} (h : List.Forall₂ R rows rows')
    (hR : ∀ sle sle', R sle sle' → sle.item = sle'.item ∧ f sle = g sle') :
    itemSum f item rows = itemSum g item rows' := by
  induction h with
  | nil => rfl
  | cons hrow _ ih =>
    obtain ⟨hitem, hsame⟩ := hR _ _ hrow
    rw [itemSum_cons, itemSum_cons, ih, hitem, hsame]

theorem itemSum_eq_zero (h : ∀ sle ∈ rows, f sle = 0) : itemSum f item rows = 0 := by
  refine List.sum_eq_zero fun x hx => ?_
  obtain ⟨sle, hsle, rfl⟩ := List.mem_map.1 hx
  exact h sle (List.mem_of_mem_filter hsle)

theorem itemSum_sub : itemSum (fun sle => f sle - g sle) item rows =
    itemSum f item rows - itemSum g item rows := by
  induction rows with
  | nil => exact (sub_zero _).symm
  | cons sle rows ih =>
    rw [itemSum_cons, itemSum_cons, itemSum_cons, ih]
    split_ifs <;> ring

theorem itemSum_neg : itemSum (fun sle => -f sle) item rows = -itemSum f item rows := by
  induction rows with
  | nil => exact neg_zero.symm
  | cons sle rows ih =>
    rw [itemSum_cons, itemSum_cons, ih]
    split_ifs <;> ring

end Sums

/-! ### Sales and their returns -/

/-- The warehouse a line is about. -/
def lineWarehouse (cmd : SubmitCommand) (line : Map) : Option String :=
  (asNonEmpty (line.get "warehouse")).or (asNonEmpty (cmd.payload.get "set_warehouse"))

/-- Submitting the command moves stock: a Sales Invoice does only with `update_stock`. -/
def MovesStock (cmd : SubmitCommand) : Prop :=
  cmd.doctype = "Sales Invoice" → isTrue (cmd.payload.get "update_stock") = true

instance (cmd : SubmitCommand) : Decidable (MovesStock cmd) := inferInstanceAs (Decidable (_ → _))

/-- A sale of goods. -/
structure IsSale (cmd : SubmitCommand) : Prop where
  doctype : cmd.doctype ∈ ["Sales Invoice", "POS Invoice", "Delivery Note"]
  movesStock : MovesStock cmd
  quantities : ∀ entry ∈ objectRows cmd.items, 0 < asNum (entry.1.get "qty")

/-- The line of a return that takes a sold line back. -/
structure TakesBack (sold returned : SubmitCommand) (line line' : Map) : Prop where
  item : asNonEmpty (line'.get "item") = asNonEmpty (line.get "item")
  warehouse : lineWarehouse returned line' = lineWarehouse sold line
  uom : asNonEmpty (line'.get "uom") = asNonEmpty (line.get "uom")
  qty : asNum (line'.get "qty") = -asNum (line.get "qty")

/-- A return of everything that was sold. -/
structure FullReturn (saleId : String) (sold returned : SubmitCommand) : Prop where
  doctype : returned.doctype = sold.doctype
  isReturn : isTrue (returned.payload.get "is_return") = true
  against : asNonEmpty (returned.payload.get "return_against") = some saleId
  lines : List.Forall₂ (fun entry entry' => TakesBack sold returned entry.1 entry'.1)
    (objectRows sold.items) (objectRows returned.items)

section Rows
variable {view : StoreView} {env : Env} {companyId : Uuid} {cmd : SubmitCommand} {documentId : String}
  {prepared : Prepared}

/-- The raw rows of a sale or of its return. -/
theorem sale_rows (hdoctype : cmd.doctype ∈ ["Sales Invoice", "POS Invoice", "Delivery Note"])
    (hprepared : preparePayload view env companyId cmd documentId = .ok prepared) :
    deriveStockRows (submitContext companyId cmd documentId prepared.postingDate) prepared.payload =
      if MovesStock cmd then
        stockDocumentRows (submitContext companyId cmd documentId prepared.postingDate) prepared.payload
          false .issue
      else [] := by
  have hpayment : cmd.doctype ≠ "Payment Entry" := by
    intro heq
    rw [heq] at hdoctype
    exact absurd hdoctype (by decide)
  have hupdate := preparePayload_field hpayment hprepared
    (show "update_stock" ∉ "items" :: "posting_date" :: preparedFields by decide)
  have hdoc : (submitContext companyId cmd documentId prepared.postingDate).doctype = cmd.doctype := rfl
  unfold deriveStockRows MovesStock
  rw [hdoc, hupdate]
  simp only [List.mem_cons, List.not_mem_nil, or_false] at hdoctype
  rcases hdoctype with heq | heq | heq
  · simp [heq]
  · simp [heq]
  · simp [heq]

end Rows

/-- A row of a return and the sold row it takes back, before either is costed. -/
structure Mirrors (raw raw' : StockLedgerEntry) : Prop where
  pair : raw'.pair = raw.pair
  uom : raw'.uom = raw.uom
  qty : raw'.qtyChange = -raw.qtyChange

/-- Lines that take back give rows that mirror. -/
theorem stockDocumentRows_mirrors {ctx ctx' : RowContext} {sold returned : SubmitCommand}
    {payload payload' : Map} (hwarehouse : payload.get "set_warehouse" = sold.payload.get "set_warehouse")
    (hwarehouse' : payload'.get "set_warehouse" = returned.payload.get "set_warehouse")
    (h : List.Forall₂ (fun entry entry' => TakesBack sold returned entry.1 entry'.1)
      (objectRows (itemsOf payload)) (objectRows (itemsOf payload'))) :
    List.Forall₂ Mirrors (stockDocumentRows ctx payload false .issue)
      (stockDocumentRows ctx' payload' false .issue) := by
  unfold stockDocumentRows
  dsimp only
  rw [hwarehouse, hwarehouse']
  generalize objectRows (itemsOf payload) = lines at h
  generalize objectRows (itemsOf payload') = lines' at h
  induction h with
  | nil => exact .nil
  | @cons entry entry' lines lines' hback _ ih =>
    have hitem := hback.item
    have hplace : (asNonEmpty (entry'.1.get "warehouse")).or
        (asNonEmpty (returned.payload.get "set_warehouse")) =
      (asNonEmpty (entry.1.get "warehouse")).or (asNonEmpty (sold.payload.get "set_warehouse")) :=
      hback.warehouse
    rw [List.filterMap_cons, List.filterMap_cons, hitem, hplace]
    cases asNonEmpty (entry.1.get "item") with
    | none => exact ih
    | some item =>
      cases (asNonEmpty (entry.1.get "warehouse")).or (asNonEmpty (sold.payload.get "set_warehouse")) with
      | none => exact ih
      | some warehouse => exact .cons ⟨rfl, hback.uom, congrArg Neg.neg hback.qty⟩ ih

/-- Where the masters of the items are the same, so do the movements. -/
theorem stockMovements_mirrors {items items' : Items} {rows rows' : List StockLedgerEntry}
    (h : List.Forall₂ Mirrors rows rows')
    (hitems : ∀ raw ∈ rows, items'.lookup raw.item = items.lookup raw.item) :
    List.Forall₂ Mirrors (stockMovements items rows) (stockMovements items' rows') := by
  induction h with
  | nil => exact .nil
  | @cons raw raw' rows rows' hmirrors _ ih =>
    obtain ⟨hraw, hrest⟩ := List.forall_mem_cons.1 hitems
    have hitem : raw'.item = raw.item := (pair_eq_iff.1 hmirrors.pair).1
    unfold stockMovements at ih ⊢
    rw [List.filter_cons, List.filter_cons, hitem, hraw]
    split_ifs
    · exact .cons hmirrors (ih hrest)
    · exact ih hrest

theorem Mirrors.stockQty {items items' : Items} {raw raw' : StockLedgerEntry} (h : Mirrors raw raw')
    (hitem : items'.lookup raw.item = items.lookup raw.item) :
    stockQty items' raw' = -stockQty items raw := by
  have hsame : raw'.item = raw.item := (pair_eq_iff.1 h.pair).1
  have hfactor : stockFactor items' raw' = stockFactor items raw := by
    unfold stockFactor
    rw [hsame, h.uom, hitem]
  rw [stockQty_eq, stockQty_eq, hfactor, h.qty, neg_mul]

/-- Where an issue row of a document comes from. -/
theorem mem_issueRows {ctx : RowContext} {payload : Map} {raw : StockLedgerEntry}
    (h : raw ∈ stockDocumentRows ctx payload false .issue) :
    raw.transType = .issue ∧ ∃ entry ∈ objectRows (itemsOf payload),
      asNonEmpty (entry.1.get "item") = some raw.item ∧ raw.qtyChange = -asNum (entry.1.get "qty") := by
  obtain ⟨entry, hentry, hrow⟩ := List.mem_filterMap.1 h
  simp only [Option.bind_eq_bind, Option.bind_eq_some_iff, Option.pure_def, Option.some.injEq] at hrow
  obtain ⟨item, hitem, warehouse, -, rfl⟩ := hrow
  exact ⟨rfl, entry, hentry, hitem, rfl⟩

/-- Goods that come back by a voucher flagged as a return enter at the cost it looks up. -/
theorem rateOf_returned {inputs : CostInputs} {st : CostState} {raw : StockLedgerEntry}
    (hreturn : inputs.isReturn = true) (hqty : 0 < stockQty inputs.items raw) :
    ∃ ledgers, st.rateOf inputs raw =
      returnCost inputs.view inputs.companyId raw.pair inputs.returnAgainst ledgers := by
  have hplain : isOutputLeg inputs raw = false := by simp [isOutputLeg, hreturn]
  refine ⟨st.ledgers.priorFor inputs.view inputs.companyId raw.pair, ?_⟩
  rw [CostState.rateOf]
  simp [hqty.not_gt, hqty, hplain, receiptRate, hreturn]

/-! ### What the journal wrote is in the ledger -/

/-- Every entry is what its command built, and its stock rows are in the ledger. -/
structure RowsStored (codec : Codec) (book : Book Inner) : Prop where
  built : ∀ entry ∈ book.journal, entry.command.build codec entry.snapshot.view entry.builtAt
    entry.companyId entry.actor entry.documentId = .ok entry.commit
  stock : ∀ entry ∈ book.journal, ∀ sle ∈ entry.commit.stockLedgerEntries,
    sle.unsequenced ∈ (book.store.stockLedger.log entry.companyId).map StockLedgerEntry.unsequenced

theorem rowsStored_rule {codec : Codec} {allowed : Allowed MemOp} :
    Snapshot.Rule (protocol codec (memBackend codec) allowed)
      (fun book => Kept book ∧ RowsStored codec book)
      fun book book' => Extends book.store book'.store := by
  refine extends_rule_and ?_ ?_
  · intro book₀ book draft inner' _ _ _ _ h hbuilt _ happlied
    have hcompany := (Command.build_new_or_cancel hbuilt.build).1
    constructor
    · intro entry hentry
      rcases List.mem_append.1 hentry with hentry | hentry
      · exact h.built entry hentry
      · obtain rfl := List.mem_singleton.1 hentry
        exact hbuilt.build
    · intro entry hentry sle hsle
      rcases List.mem_append.1 hentry with hentry | hentry
      · have hgrow := Table.log_prefix_extend book.store.stockLedger draft.commit.companyId
          entry.companyId (Inner.sequencedRows draft.commit book.store)
        rw [← happlied.stockLedger] at hgrow
        exact (hgrow.map StockLedgerEntry.unsequenced).subset (h.stock entry hentry sle hsle)
      · obtain rfl := List.mem_singleton.1 hentry
        have hsame : (appliedEntry draft book.store).companyId = draft.commit.companyId := hcompany.symm
        rw [hsame, happlied.stockLog, List.map_append, Inner.sequencedRows, sequenceFrom_unsequenced]
        exact List.mem_append_right _ (List.mem_map_of_mem hsle)
  · intro book op env h _
    refine ⟨h.built, ?_⟩
    rw [(operate_frame codec env op book.store).stockLedger]
    exact h.stock

theorem rowsStored_run (codec : Codec) (events : List (Event MemOp)) :
    RowsStored codec (memRun codec events).book := by
  have hrun : Kept (memRun codec events).book ∧ RowsStored codec (memRun codec events).book :=
    System.invariant_of_rule rowsStored_rule
      ⟨kept_fresh, fun entry h => absurd h List.not_mem_nil, fun entry h => absurd h List.not_mem_nil⟩
      fun event _ => event.allowed_all
  exact hrun.2

/-- A submitted stock row is found under its document's number. -/
theorem RowsStored.found {codec : Codec} {book : Book Inner} (h : RowsStored codec book) {entry : Entry Inner}
    (hentry : entry ∈ book.journal) {cmd : SubmitCommand} (hcommand : entry.command = .submit cmd)
    {sle : StockLedgerEntry} (hsle : sle ∈ entry.commit.stockLedgerEntries) :
    ∃ stored ∈ book.store.view.slesForVoucher entry.companyId entry.documentId,
      stored.pair = sle.pair := by
  have hbuild := h.built entry hentry
  rw [hcommand] at hbuild
  have hstamp := buildSubmit_stamped hbuild .stock sle hsle
  obtain ⟨stored, hstored, hsame⟩ := List.mem_map.1 (h.stock entry hentry sle hsle)
  have hno : stored.unsequenced.voucherNo = sle.unsequenced.voucherNo := by rw [hsame]
  have hpair : stored.unsequenced.pair = sle.unsequenced.pair := by rw [hsame]
  refine ⟨stored, List.mem_filter.2 ⟨hstored, decide_eq_true ?_⟩, hpair⟩
  exact hno.trans (congrArg Stamp.voucherNo hstamp)

/-! ### What a full return brings back -/

/-- The rate at which a return brings back what a row of its sale took out; a return that moves no stock
brings nothing back. -/
def reentryRate (view : StoreView) (companyId : Uuid) (saleId : String) (returned : SubmitCommand)
    (sle : StockLedgerEntry) : ℚ :=
  if MovesStock returned then firstRate view companyId saleId sle.pair else 0

section Costed
variable {codec : Codec} {view : StoreView} {env : Env} {companyId : Uuid} {cmd : SubmitCommand}
  {documentId : String} {actor : Actor} {commit : PostingCommit} {prepared : Prepared}

/-- The rows of a sale, or of a return, are its movements as they are costed. -/
theorem sale_costed (hdoctype : cmd.doctype ∈ ["Sales Invoice", "POS Invoice", "Delivery Note"])
    (hprepared : preparePayload view env companyId cmd documentId = .ok prepared)
    (h : buildSubmit codec view env companyId cmd documentId actor = .ok commit) :
    List.Forall₂ (fun raw sle => ∃ before, sle = raw.valued
        (stockQty (submitItems codec view companyId cmd documentId prepared) raw)
        ((costRows (submitInputs codec view companyId cmd documentId prepared) before).rateOf
          (submitInputs codec view companyId cmd documentId prepared) raw))
      (submitMovements codec view companyId cmd documentId prepared) commit.stockLedgerEntries := by
  rw [buildSubmit_costed hprepared h]
  refine @posted_forall₂ (submitInputs codec view companyId cmd documentId prepared) _ fun raw hraw => ?_
  have hrow := List.mem_of_mem_filter hraw
  rw [sale_rows hdoctype hprepared] at hrow
  split_ifs at hrow
  · rw [(mem_issueRows hrow).1]
    exact StockTransType.noConfusion
  · exact absurd hrow List.not_mem_nil

/-- The quantities of a sale's rows, at rates that depend on the pair alone. -/
theorem itemSum_quantities (hdoctype : cmd.doctype ∈ ["Sales Invoice", "POS Invoice", "Delivery Note"])
    (hprepared : preparePayload view env companyId cmd documentId = .ok prepared)
    (h : buildSubmit codec view env companyId cmd documentId actor = .ok commit) (rate : Pair → ℚ)
    (item : String) :
    itemSum (fun sle => sle.qtyChange * rate sle.pair) item commit.stockLedgerEntries =
      itemSum (fun raw => stockQty (submitItems codec view companyId cmd documentId prepared) raw *
        rate raw.pair) item (submitMovements codec view companyId cmd documentId prepared) := by
  symm
  refine itemSum_forall₂ (sale_costed hdoctype hprepared h) ?_
  rintro raw sle ⟨before, rfl⟩
  exact ⟨rfl, rfl⟩

/-- What a return brings back of an item, where the ledger holds rows of the sale for everything. -/
theorem itemSum_returned {saleId : String}
    (hdoctype : cmd.doctype ∈ ["Sales Invoice", "POS Invoice", "Delivery Note"])
    (hprepared : preparePayload view env companyId cmd documentId = .ok prepared)
    (h : buildSubmit codec view env companyId cmd documentId actor = .ok commit)
    (hreturn : isTrue (cmd.payload.get "is_return") = true)
    (hagainst : asNonEmpty (cmd.payload.get "return_against") = some saleId)
    (hentering : ∀ raw ∈ submitMovements codec view companyId cmd documentId prepared,
      0 < stockQty (submitItems codec view companyId cmd documentId prepared) raw ∧
      ∃ stored ∈ view.slesForVoucher companyId saleId, stored.pair = raw.pair) (item : String) :
    itemSum StockLedgerEntry.worth item commit.stockLedgerEntries =
      itemSum (fun raw => stockQty (submitItems codec view companyId cmd documentId prepared) raw *
        firstRate view companyId saleId raw.pair) item
        (submitMovements codec view companyId cmd documentId prepared) := by
  have hpayment : cmd.doctype ≠ "Payment Entry" := by
    intro heq
    rw [heq] at hdoctype
    exact absurd hdoctype (by decide)
  have hflag : (submitInputs codec view companyId cmd documentId prepared).isReturn = true :=
    (congrArg isTrue (preparePayload_field hpayment hprepared (by decide))).trans hreturn
  have hsale : (submitInputs codec view companyId cmd documentId prepared).returnAgainst = some saleId :=
    (congrArg asNonEmpty (preparePayload_field hpayment hprepared (by decide))).trans hagainst
  have hcosted := List.forall₂_and_left _ _ |>.2 ⟨hentering, sale_costed hdoctype hprepared h⟩
  symm
  refine itemSum_forall₂ hcosted ?_
  rintro raw sle ⟨⟨hqty, hstored⟩, before, rfl⟩
  refine ⟨rfl, ?_⟩
  obtain ⟨ledgers, hrate⟩ := @rateOf_returned _
    (costRows (submitInputs codec view companyId cmd documentId prepared) before) raw hflag hqty
  rw [hsale] at hrate
  rw [hrate.trans (returnCost_found hstored ledgers)]
  rfl

end Costed

section Return
variable {codec : Codec} {view view' : StoreView} {env env' : Env} {companyId : Uuid}
  {sold returned : SubmitCommand} {saleId returnId : String} {prepared prepared' : Prepared}

/-- The masters of the sold items are the same in both vouchers. -/
def SameMasters (items items' : Items) (sold : SubmitCommand) : Prop :=
  ∀ entry ∈ objectRows sold.items, ∀ item, asNonEmpty (entry.1.get "item") = some item →
    items'.lookup item = items.lookup item

/-- The movements of a full return that moves stock mirror those of its sale. -/
theorem return_mirrors (hsale : IsSale sold) (hreturn : FullReturn saleId sold returned)
    (hmoves : MovesStock returned)
    (hsold : preparePayload view env companyId sold saleId = .ok prepared)
    (hprepared : preparePayload view' env' companyId returned returnId = .ok prepared')
    (hmasters : SameMasters (submitItems codec view companyId sold saleId prepared)
      (submitItems codec view' companyId returned returnId prepared') sold) :
    List.Forall₂ (fun raw raw' => Mirrors raw raw' ∧
        0 < stockQty (submitItems codec view' companyId returned returnId prepared') raw' ∧
        stockQty (submitItems codec view' companyId returned returnId prepared') raw' =
          -stockQty (submitItems codec view companyId sold saleId prepared) raw)
      (submitMovements codec view companyId sold saleId prepared)
      (submitMovements codec view' companyId returned returnId prepared') := by
  have hdoctype' : returned.doctype ∈ ["Sales Invoice", "POS Invoice", "Delivery Note"] := by
    rw [hreturn.doctype]
    exact hsale.doctype
  have hpayment : sold.doctype ≠ "Payment Entry" := by
    intro heq
    have hmem := hsale.doctype
    rw [heq] at hmem
    exact absurd hmem (by decide)
  have hpayment' : returned.doctype ≠ "Payment Entry" := by
    rw [hreturn.doctype]
    exact hpayment
  have hraw : ∀ raw ∈ deriveStockRows (submitContext companyId sold saleId prepared.postingDate)
      prepared.payload, ∃ entry ∈ objectRows sold.items,
        asNonEmpty (entry.1.get "item") = some raw.item ∧ raw.qtyChange = -asNum (entry.1.get "qty") := by
    intro raw hraw
    rw [sale_rows hsale.doctype hsold, if_pos hsale.movesStock] at hraw
    obtain ⟨-, entry, hentry, hfields⟩ := mem_issueRows hraw
    rw [preparePayload_items hpayment hsold] at hentry
    exact ⟨entry, hentry, hfields⟩
  have hsame : ∀ raw ∈ deriveStockRows (submitContext companyId sold saleId prepared.postingDate)
      prepared.payload,
      (submitItems codec view' companyId returned returnId prepared').lookup raw.item =
        (submitItems codec view companyId sold saleId prepared).lookup raw.item := by
    intro raw hmem
    obtain ⟨entry, hentry, hitem, -⟩ := hraw raw hmem
    exact hmasters entry hentry raw.item hitem
  have hrows : List.Forall₂ Mirrors
      (deriveStockRows (submitContext companyId sold saleId prepared.postingDate) prepared.payload)
      (deriveStockRows (submitContext companyId returned returnId prepared'.postingDate)
        prepared'.payload) := by
    rw [sale_rows hsale.doctype hsold, sale_rows hdoctype' hprepared, if_pos hsale.movesStock,
      if_pos hmoves]
    refine stockDocumentRows_mirrors (preparePayload_field hpayment hsold (by decide))
      (preparePayload_field hpayment' hprepared (by decide)) ?_
    rw [preparePayload_items hpayment hsold, preparePayload_items hpayment' hprepared]
    exact hreturn.lines
  have hkept : ∀ raw ∈ submitMovements codec view companyId sold saleId prepared,
      raw ∈ deriveStockRows (submitContext companyId sold saleId prepared.postingDate) prepared.payload :=
    fun raw hmem => List.mem_of_mem_filter hmem
  have hmirrors := (List.forall₂_and_left _ _).2 ⟨hkept, stockMovements_mirrors hrows hsame⟩
  refine hmirrors.imp ?_
  rintro raw raw' ⟨hmem, hmirror⟩
  have hqty := hmirror.stockQty (hsame raw hmem)
  refine ⟨hmirror, ?_, hqty⟩
  -- what is sold leaves the stock
  obtain ⟨entry, hentry, -, hchange⟩ := hraw raw hmem
  rw [stockQty_pos_iff, hmirror.qty, hchange, neg_neg]
  exact hsale.quantities entry hentry

end Return

/-- In every reachable state, a full return of a sale brings back of every item what the sale took out, if
and only if the sale's rows are worth as much at the rates of the first rows under the sale's number, each
for its item and warehouse, as at their own rates. A return that moves no stock brings nothing back. -/
theorem return_undoes_cost_iff (codec : Codec) (events : List (Event MemOp)) {sale : Entry Inner}
    (hsale : sale ∈ (memRun codec events).book.journal) {sold : SubmitCommand}
    (hcommand : sale.command = .submit sold) (hissue : IsSale sold) {returned : SubmitCommand}
    (hreturn : FullReturn sale.documentId sold returned) {env : Env} {returnId : String} {actor : Actor}
    {commit : PostingCommit} {preparedSale prepared : Prepared}
    (hsold : preparePayload sale.snapshot.view sale.builtAt sale.companyId sold sale.documentId =
      .ok preparedSale)
    (hprepared : preparePayload (memRun codec events).book.store.view env sale.companyId returned returnId =
      .ok prepared)
    (hmasters : SameMasters
      (submitItems codec sale.snapshot.view sale.companyId sold sale.documentId preparedSale)
      (submitItems codec (memRun codec events).book.store.view sale.companyId returned returnId prepared)
      sold)
    (h : buildSubmit codec (memRun codec events).book.store.view env sale.companyId returned returnId actor =
      .ok commit) :
    (∀ item, itemSum StockLedgerEntry.worth item sale.commit.stockLedgerEntries +
      itemSum StockLedgerEntry.worth item commit.stockLedgerEntries = 0) ↔
    ∀ item, itemSum (fun sle => sle.qtyChange * (sle.valuationRate -
        reentryRate (memRun codec events).book.store.view sale.companyId sale.documentId returned sle)) item
      sale.commit.stockLedgerEntries = 0 := by
  have hheld := rowsStored_run codec events
  have hbuild := hheld.built sale hsale
  rw [hcommand] at hbuild
  have hdoctype' : returned.doctype ∈ ["Sales Invoice", "POS Invoice", "Delivery Note"] := by
    rw [hreturn.doctype]
    exact hissue.doctype
  have hback : ∀ item, itemSum StockLedgerEntry.worth item commit.stockLedgerEntries =
      -itemSum (fun sle => sle.qtyChange * reentryRate (memRun codec events).book.store.view
        sale.companyId sale.documentId returned sle) item sale.commit.stockLedgerEntries := by
    intro item
    by_cases hmoves : MovesStock returned
    · simp only [reentryRate, if_pos hmoves]
      have hmirrors := return_mirrors hissue hreturn hmoves hsold hprepared hmasters
      rw [itemSum_quantities hissue.doctype hsold hbuild, ← itemSum_neg]
      rw [itemSum_returned hdoctype' hprepared h hreturn.isReturn hreturn.against]
      · symm
        refine itemSum_forall₂ hmirrors ?_
        rintro raw raw' ⟨hmirror, -, hqty⟩
        refine ⟨(pair_eq_iff.1 hmirror.pair).1.symm, ?_⟩
        rw [hqty, hmirror.pair, neg_mul]
      · intro raw' hraw'
        obtain ⟨raw, hraw, hmirror, hqty, -⟩ := exists_matched hmirrors hraw'
        -- the sale posted a row for what it took out
        obtain ⟨sle, hsle, before, hposted⟩ :=
          exists_matched (sale_costed hissue.doctype hsold hbuild).flip hraw
        obtain ⟨stored, hstored, hpair⟩ := hheld.found hsale hcommand hsle
        refine ⟨hqty, stored, hstored, ?_⟩
        rw [hpair, hposted, hmirror.pair]
        rfl
    · -- nothing comes back
      have hnone := sale_costed hdoctype' hprepared h
      rw [submitMovements, sale_rows hdoctype' hprepared, if_neg hmoves] at hnone
      rw [List.forall₂_nil_left_iff.1 hnone]
      simp only [reentryRate, if_neg hmoves, mul_zero]
      simp [itemSum]
  constructor
  · intro hundone item
    have hitem := hundone item
    rw [hback] at hitem
    simp only [mul_sub]
    rw [itemSum_sub]
    exact (sub_eq_add_neg _ _).trans hitem
  · intro hworth item
    have hitem := hworth item
    simp only [mul_sub] at hitem
    rw [itemSum_sub] at hitem
    rw [hback]
    exact (sub_eq_add_neg _ _).symm.trans hitem

/-- A Delivery Note of TEA from Main in two lines. -/
def deliverTwice (id : String) (first second : Int) (flags : Map) : SubmitCommand where
  doctype := "Delivery Note"
  documentId := some id
  payload := ("posting_date", .string "2026-01-05") :: flags
  items := [first, second].map fun qty =>
    .obj [("item", .string "TEA"), ("warehouse", .string "Main"), ("qty", .int qty)]
  idempotencyKey := none
  offlineFiscal := false

/-- The return of such a note. -/
def takeBack (first second : Int) : SubmitCommand :=
  deliverTwice "DN-2" (-first) (-second) [("is_return", .bool true), ("return_against", .string "DN-1")]

theorem fullReturn_takeBack : FullReturn "DN-1" (deliverTwice "DN-1" 4 3 []) (takeBack 4 3) where
  doctype := rfl
  isReturn := rfl
  against := rfl
  lines := by
    refine .cons ?_ (.cons ?_ .nil)
    · constructor <;> decide +kernel
    · constructor <;> decide +kernel

/-- Ten TEA come in at 5, seven are delivered. -/
def deliveredTea : List (Event MemOp) :=
  Event.whole 1 stockClerk (teaVoucher "Purchase Receipt" "PR-1" 10 5) 0 stockDay ++
    Event.whole 1 stockClerk (.submit (deliverTwice "DN-1" 4 3 [])) 1 stockDay

deriving instance DecidableEq for SubmitCommand

/-- What an entry submitted. -/
def Entry.submitted {S : Type} (entry : Entry S) : Option SubmitCommand :=
  match entry.command with
  | .submit cmd => some cmd
  | _ => none

theorem Entry.submitted_eq_some {S : Type} {entry : Entry S} {cmd : SubmitCommand}
    (h : entry.submitted = some cmd) : entry.command = .submit cmd := by
  unfold Entry.submitted at h
  cases hcommand : entry.command with
  | submit cmd' =>
    rw [hcommand] at h
    rw [Option.some.inj h]
  | _ =>
    rw [hcommand] at h
    cases h

theorem return_undoes_cost_iff_tea :
    ∃ sale ∈ (memRun serdeCodec deliveredTea).book.journal, sale.documentId = "DN-1" ∧
    ∃ commit, buildSubmit serdeCodec (memRun serdeCodec deliveredTea).book.store.view stockDay
        sale.companyId (takeBack 4 3) "DN-2" stockClerk = .ok commit ∧
      ∀ item, itemSum StockLedgerEntry.worth item sale.commit.stockLedgerEntries +
        itemSum StockLedgerEntry.worth item commit.stockLedgerEntries = 0 := by
  have hsale : ((memRun serdeCodec deliveredTea).book.journal[1]?).map (fun entry =>
      (entry.submitted, entry.companyId, entry.documentId)) =
        some (some (deliverTwice "DN-1" 4 3 []), 1, "DN-1") := by decide +kernel
  have hrates : ((memRun serdeCodec deliveredTea).book.journal[1]?).map (fun entry =>
      entry.commit.stockLedgerEntries.all fun sle => sle.valuationRate -
        reentryRate (memRun serdeCodec deliveredTea).book.store.view 1 "DN-1" (takeBack 4 3) sle = 0) =
          some true := by decide +kernel
  have hsold : ((memRun serdeCodec deliveredTea).book.journal[1]?).bind (fun entry =>
      (preparePayload entry.snapshot.view entry.builtAt 1 (deliverTwice "DN-1" 4 3 [])
        "DN-1").toOption.map fun prepared => ((submitItems serdeCodec entry.snapshot.view 1
          (deliverTwice "DN-1" 4 3 []) "DN-1" prepared).lookup "TEA").isNone) = some true := by
    decide +kernel
  have hback : (preparePayload (memRun serdeCodec deliveredTea).book.store.view stockDay 1 (takeBack 4 3)
      "DN-2").toOption.map (fun prepared =>
        ((submitItems serdeCodec (memRun serdeCodec deliveredTea).book.store.view 1 (takeBack 4 3) "DN-2"
          prepared).lookup "TEA").isNone) = some true := by decide +kernel
  have hbuilt : (buildSubmit serdeCodec (memRun serdeCodec deliveredTea).book.store.view stockDay 1
      (takeBack 4 3) "DN-2" stockClerk).toOption.isSome = true := by decide +kernel
  obtain ⟨sale, hentry, hfields⟩ := Option.map_eq_some_iff.1 hsale
  obtain ⟨hsubmitted, hcompany, hid⟩ : sale.submitted = some (deliverTwice "DN-1" 4 3 []) ∧
      sale.companyId = 1 ∧ sale.documentId = "DN-1" := by simpa using hfields
  have hmem := List.mem_of_getElem? hentry
  rw [hentry] at hrates hsold
  obtain ⟨preparedSale, hpreparedSale, hnone⟩ := Except.map_toOption.1 hsold
  obtain ⟨prepared, hprepared, hnone'⟩ := Except.map_toOption.1 hback
  obtain ⟨commit, hcommit⟩ := Except.isSome_toOption.1 hbuilt
  rw [← hcompany, ← hid] at hpreparedSale
  rw [← hcompany] at hprepared hcommit hrates hnone hnone'
  rw [← hid] at hrates hnone
  refine ⟨sale, hmem, hid, commit, hcommit, ?_⟩
  refine (return_undoes_cost_iff serdeCodec deliveredTea hmem (Entry.submitted_eq_some hsubmitted) ?_
    (hid.symm ▸ fullReturn_takeBack) hpreparedSale hprepared ?_ hcommit).2 ?_
  · exact ⟨by decide, fun h => absurd h (by decide), by decide⟩
  · intro entry hline item hitem
    -- both lines are of TEA
    obtain rfl : item = "TEA" := by
      rcases List.mem_cons.1 hline with rfl | hline
      · exact (Option.some.inj hitem).symm
      · obtain rfl := List.mem_singleton.1 hline
        exact (Option.some.inj hitem).symm
    exact (Option.isNone_iff_eq_none.1 hnone').trans (Option.isNone_iff_eq_none.1 hnone).symm
  · intro item
    refine itemSum_eq_zero fun sle hsle => ?_
    have hrate := of_decide_eq_true (List.all_eq_true.1 (Option.some.inj hrates) sle hsle)
    rw [hrate, mul_zero]

/-- TEA is valued first in, first out: ten come in at 5 and ten at 7, both are delivered in two lines and then
taken back. -/
def takenBackAtFirstRate : List (Event MemOp) :=
  Event.operate (MemOp.upsertItem 1
    { id := "TEA"
      itemType := "Stock"
      valuationMethod := some "FIFO"
      stockUom := none
      uoms := []
      inventoryAccount := none
      cogsAccount := none
      stockAdjustmentAccount := none }) stockDay ::
    Event.whole 1 stockClerk (teaVoucher "Purchase Receipt" "PR-1" 10 5) 0 stockDay ++
    Event.whole 1 stockClerk (teaVoucher "Purchase Receipt" "PR-2" 10 7) 1 stockDay ++
    Event.whole 1 stockClerk (.submit (deliverTwice "DN-1" 10 10 [])) 2 stockDay ++
    Event.whole 1 stockClerk (.submit (takeBack 10 10)) 3 stockDay

/-- The delivery took out 120, its return brings back 100. -/
theorem return_loses_cost :
    (memRun serdeCodec takenBackAtFirstRate).book.journal.map (fun entry =>
      (entry.submitted.map SubmitCommand.documentId, entry.commit.stockLedgerEntries.map StockLedgerEntry.row,
        itemSum StockLedgerEntry.worth "TEA" entry.commit.stockLedgerEntries)) =
      [(some (some "PR-1"), [⟨10, 5⟩], 50), (some (some "PR-2"), [⟨10, 7⟩], 70),
        (some (some "DN-1"), [⟨-10, 5⟩, ⟨-10, 7⟩], -120),
        (some (some "DN-2"), [⟨10, 5⟩, ⟨10, 5⟩], 100)] := by
  decide +kernel

end AtlasTeam
