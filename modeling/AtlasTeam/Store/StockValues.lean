import AtlasTeam.Posting.StockEntries
import AtlasTeam.Store.StockLedger

/-!
# The value of the stock across a submit

What the rows of an accepted submit are worth together, on any store: the output of a Production entry is
worth what it consumed, a Material Transfer moves value as long as its lines go from source to target, and
a row that keeps the client's rate keeps the line's value where rate and quantity are converted alike.
-/

namespace AtlasTeam

section Submit
variable {codec : Codec} {view : StoreView} {env : Env} {companyId : Uuid} {cmd : SubmitCommand}
  {documentId : String} {actor : Actor} {commit : PostingCommit} {prepared : Prepared}

/-- What a prepared payload keeps of the one that was sent. -/
theorem preparePayload_sent (hpayment : cmd.doctype ≠ "Payment Entry")
    (h : preparePayload view env companyId cmd documentId = .ok prepared) {field : String}
    (hfield : field ∉ "posting_date" :: preparedFields) :
    prepared.payload.get field = (cmd.payload.insert "items" (.array cmd.items)).get field := by
  obtain ⟨payload, -, hdeposit, hkept⟩ := preparePayload_ok h
  rw [applyDeposit, if_neg hpayment] at hdeposit
  obtain ⟨rfl, -⟩ := Prod.mk.inj (Except.ok.inj hdeposit)
  simp only [List.mem_cons, not_or] at hfield
  rw [hkept field hfield.2, Map.get_insert_ne _ hfield.1]

theorem preparePayload_field (hpayment : cmd.doctype ≠ "Payment Entry")
    (h : preparePayload view env companyId cmd documentId = .ok prepared) {field : String}
    (hfield : field ∉ "items" :: "posting_date" :: preparedFields) :
    prepared.payload.get field = cmd.payload.get field := by
  simp only [List.mem_cons, not_or] at hfield
  rw [preparePayload_sent hpayment h (by simpa using hfield.2), Map.get_insert_ne _ hfield.1]

theorem preparePayload_items (hpayment : cmd.doctype ≠ "Payment Entry")
    (h : preparePayload view env companyId cmd documentId = .ok prepared) :
    itemsOf prepared.payload = cmd.items := by
  rw [itemsOf, arrayOf, preparePayload_sent hpayment h (by decide), Map.get_insert_self]

section Costed
variable (codec : Codec) (view : StoreView) (companyId : Uuid) (cmd : SubmitCommand)
  (documentId : String) (prepared : Prepared)

/-- The items a submit is costed with. -/
def submitItems : Items :=
  loadItems codec view companyId
    (deriveStockRows (submitContext companyId cmd documentId prepared.postingDate) prepared.payload)
    prepared.payload

/-- The rows a submit is costed from. -/
def submitMovements : List StockLedgerEntry :=
  stockMovements (submitItems codec view companyId cmd documentId prepared)
    (deriveStockRows (submitContext companyId cmd documentId prepared.postingDate) prepared.payload)

def submitInputs : CostInputs :=
  costInputs view companyId (submitItems codec view companyId cmd documentId prepared) prepared.payload

end Costed

/-- The stock rows of a submit are its movements as they are costed. -/
theorem buildSubmit_costed (hprepared : preparePayload view env companyId cmd documentId = .ok prepared)
    (h : buildSubmit codec view env companyId cmd documentId actor = .ok commit) :
    commit.stockLedgerEntries =
      (spreadConsumedCost (costRows (submitInputs codec view companyId cmd documentId prepared)
        (submitMovements codec view companyId cmd documentId prepared))).1 := by
  obtain ⟨prepared', shortfalls, settlements, updates, hprepared', -, -, rfl⟩ := buildSubmit_ok h
  obtain rfl := Except.ok.inj (hprepared.symm.trans hprepared')
  rfl

/-- The movements of a submit are all of one transaction type. -/
theorem submitMovements_type {sle sle' : StockLedgerEntry}
    (h : sle ∈ submitMovements codec view companyId cmd documentId prepared)
    (h' : sle' ∈ submitMovements codec view companyId cmd documentId prepared) :
    sle.transType = sle'.transType := by
  obtain ⟨trans, hstamped⟩ := deriveStockRows_stamped
    (submitContext companyId cmd documentId prepared.postingDate) prepared.payload
  obtain ⟨_, _, _, _, _, _, rfl⟩ := hstamped sle (List.mem_of_mem_filter h)
  obtain ⟨_, _, _, _, _, _, rfl⟩ := hstamped sle' (List.mem_of_mem_filter h')
  rfl

/-- The movements of a Stock Entry have its transaction type. -/
theorem stockEntry_transType (hdoctype : cmd.doctype = "Stock Entry")
    (h : preparePayload view env companyId cmd documentId = .ok prepared) {trans : StockTransType}
    (htrans : stockEntryTransType (asNonEmpty (cmd.payload.get "stock_entry_type")) = trans) :
    deriveStockRows (submitContext companyId cmd documentId prepared.postingDate) prepared.payload =
      (objectRows cmd.items).flatMap fun entry =>
        stockEntryLegs (submitContext companyId cmd documentId prepared.postingDate) trans entry.1
          entry.2 := by
  have hpayment : cmd.doctype ≠ "Payment Entry" := by
    rw [hdoctype]
    decide
  have hdoc : (submitContext companyId cmd documentId prepared.postingDate).doctype = "Stock Entry" :=
    hdoctype
  rw [deriveStockRows, hdoc, ← htrans, ← preparePayload_field hpayment h (by decide),
    ← preparePayload_items hpayment h]
  rfl

/-! ### Production -/

/-- The output of an accepted Production entry that is no return, and that consumed and produced something,
enters at one rate and is worth what was consumed. -/
theorem production_conserves_value (hdoctype : cmd.doctype = "Stock Entry")
    (hpurpose : asNonEmpty (cmd.payload.get "stock_entry_type") ∈
      [some "Manufacture", some "Manufacturing"])
    (hreturn : isTrue (cmd.payload.get "is_return") = false)
    (h : buildSubmit codec view env companyId cmd documentId actor = .ok commit)
    (hconsumed : 0 < consumedWorth commit.stockLedgerEntries)
    (hproduced : 0 < producedQuantity commit.stockLedgerEntries) :
    (∀ sle ∈ commit.stockLedgerEntries, 0 < sle.qtyChange →
      sle.valuationRate = consumedWorth commit.stockLedgerEntries /
        producedQuantity commit.stockLedgerEntries) ∧
    (commit.stockLedgerEntries.map StockLedgerEntry.worth).sum = 0 := by
  obtain ⟨prepared, -, -, -, hprepared, -, -, -⟩ := buildSubmit_ok h
  have hpayment : cmd.doctype ≠ "Payment Entry" := by
    rw [hdoctype]
    decide
  have htrans : stockEntryTransType (asNonEmpty (cmd.payload.get "stock_entry_type")) = .production := by
    simp only [List.mem_cons, List.not_mem_nil, or_false] at hpurpose
    rcases hpurpose with hpurpose | hpurpose
    · rw [hpurpose]
      rfl
    · rw [hpurpose]
      rfl
  have hmovements : ∀ sle ∈ submitMovements codec view companyId cmd documentId prepared,
      sle.transType = .production := by
    intro sle hsle
    have hraw := List.mem_of_mem_filter hsle
    rw [stockEntry_transType hdoctype hprepared htrans] at hraw
    obtain ⟨entry, -, hleg⟩ := List.mem_flatMap.1 hraw
    obtain ⟨_, _, _, _, _, _, rfl⟩ := mem_stockEntryLegs hleg
    rfl
  have hplain : (submitInputs codec view companyId cmd documentId prepared).isReturn = false :=
    (congrArg isTrue (preparePayload_field hpayment hprepared (by decide))).trans hreturn
  exact (foldl_costRow_produces produces_fresh hplain hmovements).conserves
    (buildSubmit_costed hprepared h) hconsumed hproduced

end Submit

/-- A clerk at work on the first company. -/
def stockClerk : Actor := ⟨some 7, some 5, none⟩

def stockDay : Env := ⟨0, "2026-01-05", 0⟩

/-- The store after a receipt of ten TEA at 5 into Main. -/
def tenTea : StoreView :=
  (memRun serdeCodec
    (Event.whole 1 stockClerk (teaVoucher "Purchase Receipt" "PR-1" 10 5) 0 stockDay)).book.store.view

/-- A Stock Entry with its lines. -/
def stockEntry (purpose : String) (items : List Value) : SubmitCommand where
  doctype := "Stock Entry"
  documentId := some "STE-1"
  payload := [("posting_date", .string "2026-01-05"), ("stock_entry_type", .string purpose)]
  items
  idempotencyKey := none
  offlineFiscal := false

/-- Four TEA at 5 make eight BLEND at 2.5, whatever rate the client names. -/
def blendEntry : SubmitCommand :=
  stockEntry "Manufacture"
    [.obj [("item", .string "BLEND"), ("qty", .int 8), ("valuation_rate", .int 99),
        ("target_warehouse", .string "Main")],
      .obj [("item", .string "TEA"), ("qty", .int 4), ("source_warehouse", .string "Main")]]

theorem production_conserves_value_blend :
    ∃ commit, buildSubmit serdeCodec tenTea stockDay 1 blendEntry "STE-1" stockClerk = .ok commit ∧
      commit.stockLedgerEntries.map StockLedgerEntry.row = [⟨8, 5 / 2⟩, ⟨-4, 5⟩] ∧
      (commit.stockLedgerEntries.map StockLedgerEntry.worth).sum = 0 := by
  have hrows : (buildSubmit serdeCodec tenTea stockDay 1 blendEntry "STE-1" stockClerk).toOption.map
      (fun commit => commit.stockLedgerEntries.map StockLedgerEntry.row) =
        some [⟨8, 5 / 2⟩, ⟨-4, 5⟩] := by decide +kernel
  have hsums : (buildSubmit serdeCodec tenTea stockDay 1 blendEntry "STE-1" stockClerk).toOption.map
      (fun commit => (consumedWorth commit.stockLedgerEntries,
        producedQuantity commit.stockLedgerEntries)) = some (20, 8) := by decide +kernel
  obtain ⟨commit, hbuild, hposted⟩ := Except.map_toOption.1 hrows
  rw [hbuild] at hsums
  obtain ⟨hconsumed, hproduced⟩ := Prod.mk.inj (Option.some.inj hsums)
  exact ⟨commit, hbuild, hposted,
    (production_conserves_value rfl (by decide) (by decide) hbuild (by rw [hconsumed]; norm_num)
      (by rw [hproduced]; norm_num)).2⟩

/-! ### Transfers -/

section Submit
variable {codec : Codec} {view : StoreView} {env : Env} {companyId : Uuid} {cmd : SubmitCommand}
  {documentId : String} {actor : Actor} {commit : PostingCommit} {prepared : Prepared}

/-- Every line of a stock item names a source and a target warehouse. -/
def NamesBothWarehouses (items : Items) (lines : List Value) : Prop :=
  ∀ entry ∈ objectRows lines, ∀ item, asNonEmpty (entry.1.get "item") = some item →
    isStockItemType ((items.lookup item).map Item.itemType) = true →
      (asNonEmpty (entry.1.get "source_warehouse")).isSome ∧
        (asNonEmpty (entry.1.get "target_warehouse")).isSome

/-- The movements of a Material Transfer are its lines, and its rows are worth what stray lines make. -/
theorem transfer_worth (hdoctype : cmd.doctype = "Stock Entry")
    (hpurpose : asNonEmpty (cmd.payload.get "stock_entry_type") = some "Material Transfer")
    (hprepared : preparePayload view env companyId cmd documentId = .ok prepared)
    (h : buildSubmit codec view env companyId cmd documentId actor = .ok commit)
    (hlines : NamesBothWarehouses (submitItems codec view companyId cmd documentId prepared) cmd.items) :
    Transfers (submitMovements codec view companyId cmd documentId prepared) ∧
    ((∀ entry ∈ objectRows cmd.items, 0 ≤ asNum (entry.1.get "qty")) →
      Forward (submitItems codec view companyId cmd documentId prepared)
        (submitMovements codec view companyId cmd documentId prepared)) ∧
    (commit.stockLedgerEntries.map StockLedgerEntry.worth).sum =
      strayValue (submitInputs codec view companyId cmd documentId prepared) {}
        (submitMovements codec view companyId cmd documentId prepared) := by
  have htrans : stockEntryTransType (asNonEmpty (cmd.payload.get "stock_entry_type")) = .transfer := by
    rw [hpurpose]
    rfl
  obtain ⟨htransfers, hforward⟩ : Transfers (submitMovements codec view companyId cmd documentId prepared) ∧
      ((∀ entry ∈ objectRows cmd.items, 0 ≤ asNum (entry.1.get "qty")) →
        Forward (submitItems codec view companyId cmd documentId prepared)
          (submitMovements codec view companyId cmd documentId prepared)) := by
    rw [submitMovements, stockEntry_transType hdoctype hprepared htrans]
    exact transfers_of_lines hlines
  refine ⟨htransfers, hforward, ?_⟩
  have hnone : (costRows (submitInputs codec view companyId cmd documentId prepared)
      (submitMovements codec view companyId cmd documentId prepared)).legs = [] := by
    refine costRows_legs_eq_nil fun sle hsle => ?_
    have hraw := List.mem_of_mem_filter hsle
    rw [stockEntry_transType hdoctype hprepared htrans] at hraw
    obtain ⟨entry, -, hleg⟩ := List.mem_flatMap.1 hraw
    obtain ⟨_, _, _, _, _, _, rfl⟩ := mem_stockEntryLegs hleg
    exact StockTransType.noConfusion
  rw [buildSubmit_costed hprepared h, spreadConsumedCost_neg fun hspreads => hspreads.1 hnone]
  have hworth := @Transfers.worth (submitInputs codec view companyId cmd documentId prepared) {} _ htransfers
  rw [show CostState.costedValue {} = 0 from rfl, zero_add] at hworth
  rw [← hworth, CostState.costedValue, List.map_map]
  rfl

/-- An accepted Material Transfer makes no value if and only if its stray lines, those of a negative quantity
or of a return, make none together. It has no stray line where it is no return and no quantity is
negative. -/
theorem transfer_neutral_iff (hdoctype : cmd.doctype = "Stock Entry")
    (hpurpose : asNonEmpty (cmd.payload.get "stock_entry_type") = some "Material Transfer")
    (hprepared : preparePayload view env companyId cmd documentId = .ok prepared)
    (h : buildSubmit codec view env companyId cmd documentId actor = .ok commit)
    (hlines : NamesBothWarehouses (submitItems codec view companyId cmd documentId prepared) cmd.items) :
    ((commit.stockLedgerEntries.map StockLedgerEntry.worth).sum = 0 ↔
      strayValue (submitInputs codec view companyId cmd documentId prepared) {}
        (submitMovements codec view companyId cmd documentId prepared) = 0) ∧
    (isTrue (cmd.payload.get "is_return") = false →
      (∀ entry ∈ objectRows cmd.items, 0 ≤ asNum (entry.1.get "qty")) →
        (commit.stockLedgerEntries.map StockLedgerEntry.worth).sum = 0) := by
  obtain ⟨htransfers, hforward, hworth⟩ := transfer_worth hdoctype hpurpose hprepared h hlines
  refine ⟨by rw [hworth], fun hreturn hquantities => ?_⟩
  have hpayment : cmd.doctype ≠ "Payment Entry" := by
    rw [hdoctype]
    decide
  have hplain : (submitInputs codec view companyId cmd documentId prepared).isReturn = false :=
    (congrArg isTrue (preparePayload_field hpayment hprepared (by decide))).trans hreturn
  rw [hworth]
  exact htransfers.strayValue_eq_zero hplain (hforward hquantities)

end Submit

/-- A transfer of TEA from one warehouse to another, at the rate the client names. -/
def teaTransfer (qty : Int) (source target : String) : SubmitCommand :=
  stockEntry "Material Transfer"
    [.obj [("item", .string "TEA"), ("qty", .int qty), ("valuation_rate", .int 9),
      ("source_warehouse", .string source), ("target_warehouse", .string target)]]

/-- Four TEA leave Main at 5 and enter Shop at 5. -/
theorem transfer_neutral_iff_tea :
    ∃ commit, buildSubmit serdeCodec tenTea stockDay 1 (teaTransfer 4 "Main" "Shop") "STE-1" stockClerk =
        .ok commit ∧
      (commit.stockLedgerEntries.map StockLedgerEntry.worth).sum = 0 := by
  have hbuilt : (buildSubmit serdeCodec tenTea stockDay 1 (teaTransfer 4 "Main" "Shop") "STE-1"
      stockClerk).toOption.isSome = true := by decide +kernel
  obtain ⟨commit, hbuild⟩ := Except.isSome_toOption.1 hbuilt
  obtain ⟨prepared, -, -, -, hprepared, -, -, -⟩ := buildSubmit_ok hbuild
  refine ⟨commit, hbuild, (transfer_neutral_iff rfl rfl hprepared hbuild ?_).2 rfl (by decide)⟩
  intro entry hentry item hitem hstock
  obtain rfl := List.mem_singleton.1 hentry
  exact ⟨rfl, rfl⟩

/-- Two TEA that Shop takes back to Main under a negative quantity leave Main at 5 and enter Shop at 9. -/
theorem transfer_backwards_not_neutral :
    (buildSubmit serdeCodec tenTea stockDay 1 (teaTransfer (-2) "Shop" "Main") "STE-1"
      stockClerk).toOption.map (fun commit => (commit.stockLedgerEntries.map StockLedgerEntry.row,
        (commit.stockLedgerEntries.map StockLedgerEntry.worth).sum)) =
      some ([⟨2, 9⟩, ⟨-2, 5⟩], 8) := by
  decide +kernel

/-! ### Supplied rates -/

section Submit
variable {codec : Codec} {view : StoreView} {env : Env} {companyId : Uuid} {cmd : SubmitCommand}
  {documentId : String} {actor : Actor} {commit : PostingCommit} {prepared : Prepared}

/-- The entry is a transfer or a production: its lines' rates are left as they are when the quantities are
converted to stock units. -/
def LeavesRates (cmd : SubmitCommand) : Prop :=
  cmd.doctype = "Stock Entry" ∧
    stockEntryTransType (asNonEmpty (cmd.payload.get "stock_entry_type")) ∈
      [StockTransType.transfer, StockTransType.production]

/-- A row that an accepted submit brings in by a line, and that keeps the line's rate rather than a cost from
the ledger, keeps the line's value if and only if the voucher converts rates with quantities, or the line has
nothing to convert: its unit counts for one stock unit, or its rate is zero. -/
theorem supplied_value_kept_iff (hreturn : isTrue (cmd.payload.get "is_return") = false)
    (hprepared : preparePayload view env companyId cmd documentId = .ok prepared)
    (h : buildSubmit codec view env companyId cmd documentId actor = .ok commit)
    {line : Map} {i : Nat} (hline : (line, i) ∈ objectRows cmd.items)
    (hqty : 0 < asNum (line.get "qty")) {earlier later : List StockLedgerEntry} {row : StockLedgerEntry}
    (hrows : commit.stockLedgerEntries = earlier ++ row :: later)
    (hid : row.id = incomingRowId cmd.doctype documentId i) (hin : 0 < row.qtyChange)
    (htransfer : row.transType = .transfer →
      ∀ sle ∈ earlier, sle.item = row.item → 0 ≤ sle.qtyChange)
    (hproduction : row.transType = .production → ¬ 0 < consumedWorth commit.stockLedgerEntries) :
    row.qtyChange * row.valuationRate = asNum (line.get "qty") * suppliedRate cmd.doctype line ↔
      ¬ LeavesRates cmd ∨
      |uomFactor ((submitItems codec view companyId cmd documentId prepared).lookup row.item)
        (asNonEmpty (line.get "uom")) - 1| ≤ eps ∨
      suppliedRate cmd.doctype line = 0 := by
  have hpayment : cmd.doctype ≠ "Payment Entry" := by
    intro hdoctype
    have hnone : deriveStockRows (submitContext companyId cmd documentId prepared.postingDate)
        prepared.payload = [] := by
      have hdoc : (submitContext companyId cmd documentId prepared.postingDate).doctype = "Payment Entry" :=
        hdoctype
      rw [deriveStockRows, hdoc]
      rfl
    have hcosted := buildSubmit_costed hprepared h
    rw [submitMovements, hnone, hrows] at hcosted
    exact absurd hcosted (by simp [stockMovements, costRows, spreadConsumedCost])
  have hplain : (submitInputs codec view companyId cmd documentId prepared).isReturn = false :=
    (congrArg isTrue (preparePayload_field hpayment hprepared (by decide))).trans hreturn
  have hitems := preparePayload_items hpayment hprepared
  have hpurpose := preparePayload_field hpayment hprepared
    (show "stock_entry_type" ∉ "items" :: "posting_date" :: preparedFields by decide)
  have hcosted := hrows.symm.trans (buildSubmit_costed hprepared h)
  obtain ⟨before, raw, hposted⟩ := posted_split hcosted.symm
  have hunvalued := hposted.unvalued
  have hitem : row.unvalued.item = raw.unvalued.item := by rw [hunvalued]
  have htype : row.unvalued.transType = raw.unvalued.transType := by rw [hunvalued]
  have hrowId : row.unvalued.id = raw.unvalued.id := by rw [hunvalued]
  have hrawIn : 0 < raw.qtyChange := (stockQty_pos_iff _ _).1 (hposted.qty ▸ hin)
  have hbrings : BringsIn (submitContext companyId cmd documentId prepared.postingDate) prepared.payload
      line raw := by
    refine deriveStockRows_incoming ?_ hqty (List.mem_of_mem_filter hposted.mem)
      (hrowId.symm.trans hid) hrawIn
    rw [hitems]
    exact hline
  have hkept : LeavesRates cmd ↔ raw.transType = .transfer ∨ raw.transType = .production := by
    rw [hbrings.transType, hpurpose, LeavesRates]
    split_ifs with hdoctype
    · have hdoc : cmd.doctype = "Stock Entry" := hdoctype
      simp [hdoc]
    · have hdoc : cmd.doctype ≠ "Stock Entry" := hdoctype
      simp [hdoc]
  have hrate := hposted.supplied hplain hrawIn htransfer (by
    by_cases hproduced : raw.transType = .production
    · -- a production entry that consumed nothing spreads nothing
      refine .inr fun hspreads => hproduction (htype.trans hproduced) ?_
      rw [buildSubmit_costed hprepared h]
      refine (foldl_costRow_produces produces_fresh hplain fun sle hsle => ?_).consumed_pos hspreads
      exact (submitMovements_type hsle hposted.mem).trans hproduced
    · exact .inl hproduced)
  have hsupplied : suppliedRate cmd.doctype line = raw.valuationRate := hbrings.rate.symm
  have hworth := supplied_worth_iff hrawIn hrate
  rw [← hposted.qty, hbrings.qty, hbrings.uom, ← hsupplied, ← not_or, ← hkept] at hworth
  have hsameItem : row.item = raw.item := hitem
  rw [hsameItem]
  exact hworth

end Submit

/-- The store of a company whose TEA is counted in pieces and also moved in boxes of twelve. -/
def boxedTea : StoreView :=
  (memRun serdeCodec [.operate (.upsertItem 1
    { id := "TEA"
      itemType := "Stock"
      valuationMethod := none
      stockUom := some "Nos"
      uoms := [⟨"Box", 12⟩]
      inventoryAccount := none
      cogsAccount := none
      stockAdjustmentAccount := none }) stockDay]).book.store.view

/-- Two boxes of TEA at 120 a box that a Stock Entry brings into Main. -/
def twoBoxes (purpose : String) : SubmitCommand :=
  stockEntry purpose
    [.obj [("item", .string "TEA"), ("qty", .int 2), ("uom", .string "Box"), ("valuation_rate", .int 120),
      ("target_warehouse", .string "Main")]]

/-- A receipt of two boxes enters as 24 pieces at 10. -/
theorem supplied_value_kept_iff_boxes :
    ∃ commit row, buildSubmit serdeCodec boxedTea stockDay 1 (twoBoxes "Material Receipt") "STE-1"
        stockClerk = .ok commit ∧
      commit.stockLedgerEntries = [row] ∧ row.row = ⟨24, 10⟩ ∧
      row.qtyChange * row.valuationRate = 2 * 120 := by
  have hbuilt : (buildSubmit serdeCodec boxedTea stockDay 1 (twoBoxes "Material Receipt") "STE-1"
      stockClerk).toOption.map (fun commit => commit.stockLedgerEntries.map fun sle =>
        (sle.id, sle.row)) = some [("SLE-STE-1-0-in", ⟨24, 10⟩)] := by decide +kernel
  obtain ⟨commit, hbuild, hposted⟩ := Except.map_toOption.1 hbuilt
  obtain ⟨row, hrows, hrow⟩ := List.map_eq_singleton_iff.1 hposted
  obtain ⟨hid, hvalues⟩ := Prod.mk.inj hrow
  have hqty : row.qtyChange = 24 := congrArg LedgerRow.qtyChange hvalues
  obtain ⟨prepared, -, -, -, hprepared, -, -, -⟩ := buildSubmit_ok hbuild
  refine ⟨commit, row, hbuild, hrows, hvalues, ?_⟩
  refine (supplied_value_kept_iff rfl hprepared hbuild (List.mem_singleton_self _) (by decide)
    (show commit.stockLedgerEntries = [] ++ row :: [] from hrows) hid (by rw [hqty]; decide)
    (fun _ sle hsle => absurd hsle List.not_mem_nil) ?_).2 (.inl ?_)
  · intro _ hconsumed
    rw [hrows, consumedWorth, List.filter_cons_of_neg (by rw [hqty]; decide)] at hconsumed
    exact lt_irrefl _ hconsumed
  · rintro ⟨-, hpurpose⟩
    exact absurd hpurpose (by decide)

/-- The same two boxes as a transfer that names no source enter as 24 pieces at 120 each. -/
theorem transferred_boxes_inflated :
    (buildSubmit serdeCodec boxedTea stockDay 1 (twoBoxes "Material Transfer") "STE-1"
      stockClerk).toOption.map (fun commit => commit.stockLedgerEntries.map fun sle =>
        (sle.id, sle.row)) = some [("SLE-STE-1-0-in", ⟨24, 120⟩)] ∧
      (24 : ℚ) * 120 ≠ 2 * suppliedRate "Stock Entry" [("valuation_rate", .int 120)] := by
  decide +kernel

end AtlasTeam
