import AtlasTeam.Store.BaseLedger
import AtlasTeam.Store.TaxLedger

/-!
# Buying stock

A Purchase Invoice moves the amounts of its stock lines from the expense to GRNI, where a receipt has left
the other side or the invoice's own stock rows do. What stays in the expense of an invoice of stock lines alone
is within the slack of its totals, unless the prices include tax: then the lines' amounts are more than the net
amount by this tax. What stays in GRNI of a one-document purchase is within the slack of its lines at a rate of
one: the rows' side is not converted.
-/

namespace AtlasTeam

/-- Every object line names a stock item. -/
def BuysStock (items : Items) (lines : List Value) : Prop :=
  ∀ line ∈ lines.filterMap Value.asObject, ∃ item, asNonEmpty (line.get "item") = some item ∧
    isStockItemType ((items.lookup item).map Item.itemType) = true

/-- The net debit of a document's expense leg. -/
def expenseNet (documentId : String) (gl : List GlEntry) : ℚ :=
  glDifference (gl.filter fun entry => entry.id = "GL-" ++ documentId ++ "-debit")

/-- The net base debit of a document's GRNI leg and of the counter side of its stock legs. -/
def grniNet (documentId : String) (sles : List StockLedgerEntry) (gl : List GlEntry) : ℚ :=
  baseDifference (gl.filter fun entry => entry.id = "GL-" ++ documentId ++ "-grni") +
    baseDifference (stockLegs .counter sles gl)

/-! ### The legs by their ids -/

section Rows
variable {codec : Codec} {view : StoreView} {settings : CompanySettings} {ctx : RowContext}
  {payload : Map}

/-- The legs of one id, of those that stock lines take part in. -/
theorem filter_purchaseLegs (hdoctype : ctx.doctype = "Purchase Invoice") {tail : String}
    (htax : tail.toList[1]? ≠ some 't') (hcredit : tail ≠ "-credit") :
    let items := loadItems codec view ctx.companyId (deriveStockRows ctx payload) payload
    ((deriveRows codec view settings ctx payload).gl.filter fun entry => entry.id = ctx.glStart ++ tail) =
      ((expenseLegs ctx items payload).filter fun entry => entry.id = ctx.glStart ++ tail) ++
        (grniLegs ctx items settings payload).filter fun entry => entry.id = ctx.glStart ++ tail := by
  intro items
  have howed : ¬ (owedLeg ctx payload).id = ctx.glStart ++ tail :=
    fun hid => hcredit ((String.append_right_inj ctx.glStart).1 hid).symm
  have htaxes : (((taxLegs ctx payload false).map (stampGl payload)).filter
      fun entry => entry.id = ctx.glStart ++ tail) = [] := by
    obtain ⟨numbers, -, hids⟩ := taxLegs_ids ctx payload false
    refine List.filter_eq_nil_iff.2 fun entry hentry => ?_
    obtain ⟨leg, hleg, rfl⟩ := List.mem_map.1 hentry
    have hmem : leg.id ∈ (taxLegs ctx payload false).map GlEntry.id := List.mem_map_of_mem hleg
    rw [hids] at hmem
    obtain ⟨i, -, hid⟩ := List.mem_map.1 hmem
    rw [decide_eq_true_eq]
    intro heq
    exact taxLabel_ne htax i ((String.append_right_inj ctx.glStart).1 (hid.trans heq)).symm
  have hstock : ((stockGlLegs ctx (deriveRows codec view settings ctx payload).sles items settings).filter
      fun entry => entry.id = ctx.glStart ++ tail) = [] := by
    refine List.filter_eq_nil_iff.2 fun entry hentry => ?_
    obtain ⟨id, hid, leg, hentryId⟩ := stockGlLegs_start ctx hentry
    obtain ⟨sle, hsle, rfl⟩ := List.mem_map.1 hid
    obtain ⟨rest, hrest⟩ := deriveRows_sles_start hsle
    rw [decide_eq_true_eq, hentryId, hrest]
    exact (glStart_ne_sleStart ctx tail rest leg).symm
  rw [purchaseInvoice_legs hdoctype, List.filter_cons_of_neg (by simpa using howed), List.filter_append,
    List.filter_append, List.filter_append, htaxes, hstock, List.nil_append, List.nil_append]

/-- What the expense leg posts. -/
theorem expenseNet_deriveRows (hdoctype : ctx.doctype = "Purchase Invoice") :
    expenseNet ctx.documentId (deriveRows codec view settings ctx payload).gl =
      glDifference (expenseLegs ctx
        (loadItems codec view ctx.companyId (deriveStockRows ctx payload) payload) payload) := by
  have hlegs := @filter_purchaseLegs codec view settings ctx payload hdoctype "-debit" (by decide)
    (by decide)
  refine (congrArg glDifference hlegs).trans (congrArg glDifference ?_)
  rw [List.filter_eq_self.2 fun entry hentry => decide_eq_true (expenseLegs_id hentry),
    List.filter_eq_nil_iff.2, List.append_nil]
  intro entry hentry
  rw [decide_eq_true_eq, grniLegs_id hentry]
  exact legId_ne (by decide)

end Rows

/-! ### The expense of an invoice of stock lines -/

/-- What the stock lines of an invoice of stock lines take off its expense. -/
def movedValue (payload : Map) : ℚ := if |statedLines payload| < eps then 0 else statedLines payload

/-- What is left of the expense of an invoice of stock lines, as far as it is worth a leg. -/
def expenseLeft (payload : Map) : ℚ := statedGrand payload - totalTax payload - movedValue payload

theorem stockNet_of_buysStock {items : Items} {payload : Map} (h : BuysStock items (itemsOf payload)) :
    stockNet items payload = statedLines payload := by
  rw [stockNet, statedLines]
  congr 2
  refine List.filter_eq_self.2 fun line hline => ?_
  obtain ⟨item, hitem, hstock⟩ := h line hline
  simp only [hitem, hstock]

/-- The slack of an expense over `n` lines. -/
def expenseSlack (n : Nat) : ℚ := 1 / 100 + 5 / 1000 * n

/-- Where the prices include no tax, what is left of the expense is within the slack. -/
theorem abs_expenseLeft_le {payload payload' : Map} {track : Bool} (hlines : 1 ≤ lineCount payload)
    (hprices : isTrue (payload.get "prices_include_tax") = false)
    (h : validateInvoiceTotals payload track = .ok payload') :
    |expenseLeft payload| ≤ expenseSlack (lineCount payload) := by
  obtain ⟨-, hgrand, -⟩ := validateInvoiceTotals_grand h
  have htop : taxOnTop payload = totalTax payload := by
    simp [taxOnTop, totalTax, hprices]
  rw [htop, sub_self, sub_zero, max_eq_left hlines] at hgrand
  have htax := abs_sub_round2_le (totalTax payload)
  have htotal : |round2 (statedLines payload) - movedValue payload| ≤ 1 / 200 := by
    rw [movedValue]
    split_ifs with hsmall
    · rw [round2_eq_zero (hsmall.trans (by norm_num [eps])), sub_zero, abs_zero]
      norm_num
    · rw [abs_sub_comm]
      exact abs_sub_round2_le _
  rw [abs_le] at hgrand htax htotal ⊢
  unfold expenseLeft expenseSlack moneyEps at *
  constructor <;> linarith

section Submit
variable {codec : Codec} {view : StoreView} {env : Env} {companyId : Uuid} {cmd : SubmitCommand}
  {documentId : String} {actor : Actor} {commit : PostingCommit} {prepared : Prepared}

/-- What the expense leg of an accepted invoice of stock lines posts, up to a rest too small for a leg. -/
theorem buildSubmit_expenseNet (hdoctype : cmd.doctype = "Purchase Invoice")
    (hprepared : preparePayload view env companyId cmd documentId = .ok prepared)
    (h : buildSubmit codec view env companyId cmd documentId actor = .ok commit)
    (hstock : BuysStock (submitItems codec view companyId cmd documentId prepared) cmd.items) :
    let left := expenseLeft (cmd.payload.insert "items" (.array cmd.items))
    expenseNet documentId commit.glEntries = left ∨
      expenseNet documentId commit.glEntries = 0 ∧ |left| < eps := by
  intro left
  have hpayment : cmd.doctype ≠ "Payment Entry" := by
    rw [hdoctype]
    decide
  have hsent : ∀ field ∉ "posting_date" :: preparedFields, prepared.payload.get field =
      (cmd.payload.insert "items" (.array cmd.items)).get field :=
    fun field hfield => preparePayload_sent hpayment hprepared hfield
  have hnet : netAmount prepared.payload =
      statedGrand (cmd.payload.insert "items" (.array cmd.items)) -
        totalTax (cmd.payload.insert "items" (.array cmd.items)) := by
    rw [netAmount, totalTax_congr (hsent "taxes" (by decide)),
      preparePayload_grand (by rw [hdoctype]; decide) hprepared]
  have hmoved : stockNet (submitItems codec view companyId cmd documentId prepared) prepared.payload =
      statedLines (cmd.payload.insert "items" (.array cmd.items)) := by
    rw [← statedLines_congr (hsent "items" (by decide))]
    exact stockNet_of_buysStock ((preparePayload_items hpayment hprepared).symm ▸ hstock)
  obtain ⟨prepared', shortfalls, settlements, updates, hprepared', -, -, rfl⟩ := buildSubmit_ok h
  obtain rfl := Except.ok.inj (hprepared.symm.trans hprepared')
  let ctx := submitContext companyId cmd documentId prepared.postingDate
  have hleg : expenseNet documentId (deriveRows codec view (view.companySettings companyId) ctx
      prepared.payload).gl = glDifference (expenseLegs ctx
        (submitItems codec view companyId cmd documentId prepared) prepared.payload) :=
    @expenseNet_deriveRows codec view (view.companySettings companyId) ctx prepared.payload hdoctype
  rw [expenseLegs_difference, hnet, hmoved] at hleg
  refine (iff_of_eq (congrArg (fun net => net = left ∨ net = 0 ∧ |left| < eps) hleg)).2 ?_
  simp only [left, expenseLeft, movedValue]
  split_ifs with hsmall hrest
  · exact .inl (sub_zero _).symm
  · exact .inr ⟨rfl, hrest⟩
  · exact .inl rfl

/-- The expense leg of an accepted Purchase Invoice of stock lines alone is within the slack of its totals if
and only if the prices include no tax, or what is left of its expense is within it all the same. -/
theorem stock_purchase_expense_iff (hdoctype : cmd.doctype = "Purchase Invoice")
    (hprepared : preparePayload view env companyId cmd documentId = .ok prepared)
    (h : buildSubmit codec view env companyId cmd documentId actor = .ok commit)
    (hlines : 1 ≤ (objectRows cmd.items).length)
    (hstock : BuysStock (submitItems codec view companyId cmd documentId prepared) cmd.items) :
    |expenseNet documentId commit.glEntries| ≤ 1 / 100 + 5 / 1000 * (objectRows cmd.items).length ↔
      isTrue (cmd.payload.get "prices_include_tax") = false ∨
        |expenseLeft (cmd.payload.insert "items" (.array cmd.items))| ≤
          1 / 100 + 5 / 1000 * (objectRows cmd.items).length := by
  have hnet := buildSubmit_expenseNet hdoctype hprepared h hstock
  have hleft : |expenseNet documentId commit.glEntries| ≤ 1 / 100 + 5 / 1000 * (objectRows cmd.items).length ↔
      |expenseLeft (cmd.payload.insert "items" (.array cmd.items))| ≤
        1 / 100 + 5 / 1000 * (objectRows cmd.items).length := by
    have hslack : (0 : ℚ) ≤ 5 / 1000 * (objectRows cmd.items).length := by positivity
    rcases hnet with hnet | ⟨hnet, hsmall⟩
    · rw [hnet]
    · rw [hnet, abs_zero]
      unfold eps at hsmall
      exact ⟨fun _ => by linarith, fun _ => by linarith⟩
  rw [hleft, or_iff_right_of_imp]
  intro hprices
  obtain ⟨checked, htotals, hkept⟩ := preparePayload_checked (by rw [hdoctype]; decide) hprepared
  have hcount : lineCount checked = (objectRows cmd.items).length := by
    rw [lineCount, itemsOf, arrayOf, hkept "items" (by decide), Map.get_insert_self]
  have hcheckedLeft : expenseLeft checked =
      expenseLeft (cmd.payload.insert "items" (.array cmd.items)) := by
    rw [expenseLeft, expenseLeft, movedValue, movedValue, statedLines_congr (hkept _ (by decide)),
      totalTax_congr (hkept _ (by decide)), statedGrand_congr (hkept _ (by decide)) (hkept _ (by decide))
        (hkept _ (by decide)) (hkept _ (by decide))]
  have hcheckedPrices : isTrue (checked.get "prices_include_tax") = false := by
    rw [hkept "prices_include_tax" (by decide), Map.get_insert_ne _ (by decide)]
    exact hprices
  have hbound := abs_expenseLeft_le (hcount.symm ▸ hlines) hcheckedPrices
    (validateTotals_ok (by rw [hdoctype]; decide) htotals)
  rwa [hcheckedLeft, hcount] at hbound

end Submit

/-- Ten TEA from a supplier at a rate, with a tax of 20 on 100. -/
def teaBill (pricesIncludeTax : Bool) (rate : Int) : SubmitCommand where
  doctype := "Purchase Invoice"
  documentId := some "PINV-1"
  payload := [("posting_date", .string "2026-01-05"), ("supplier", .string "S-1"),
    ("prices_include_tax", .bool pricesIncludeTax),
    ("taxes", .array [.obj [("tax_account", .string "VAT"), ("taxable_amount", .int 100), ("rate", .int 20),
      ("tax_amount", .int 20)]])]
  items := [.obj [("item", .string "TEA"), ("qty", .int 10), ("rate", .int rate)]]
  idempotencyKey := none
  offlineFiscal := false

theorem teaBill_buysStock {bill : SubmitCommand} {prepared : Prepared}
    (hline : bill.items.filterMap Value.asObject ⊆ [[("item", .string "TEA"), ("qty", .int 10),
      ("rate", .int 10)], [("item", .string "TEA"), ("qty", .int 10), ("rate", .int 12)]])
    (hprepared : preparePayload tenTea stockDay 1 bill "PINV-1" = .ok prepared)
    (hkind : (preparePayload tenTea stockDay 1 bill "PINV-1").toOption.map (fun prepared =>
      isStockItemType (((submitItems serdeCodec tenTea 1 bill "PINV-1" prepared).lookup "TEA").map
        Item.itemType)) = some true) :
    BuysStock (submitItems serdeCodec tenTea 1 bill "PINV-1" prepared) bill.items := by
  rw [hprepared] at hkind
  intro line hmem
  have hitem : asNonEmpty (line.get "item") = some "TEA" := by
    have hcases := hline hmem
    simp only [List.mem_cons, List.not_mem_nil, or_false] at hcases
    rcases hcases with rfl | rfl
    · decide +kernel
    · decide +kernel
  exact ⟨"TEA", hitem, Option.some.inj hkind⟩

/-- Prices without tax leave nothing in the expense. -/
theorem stock_purchase_expense_iff_tea :
    ∃ commit, buildSubmit serdeCodec tenTea stockDay 1 (teaBill false 10) "PINV-1" stockClerk = .ok commit ∧
      |expenseNet "PINV-1" commit.glEntries| ≤ 1 / 100 + 5 / 1000 * 1 := by
  have hbuilt : (buildSubmit serdeCodec tenTea stockDay 1 (teaBill false 10) "PINV-1"
      stockClerk).toOption.isSome = true := by decide +kernel
  obtain ⟨commit, hbuild⟩ := Except.isSome_toOption.1 hbuilt
  obtain ⟨prepared, -, -, -, hprepared, -, -, -⟩ := buildSubmit_ok hbuild
  have hstock := teaBill_buysStock (by decide +kernel) hprepared (by decide +kernel)
  exact ⟨commit, hbuild, (stock_purchase_expense_iff rfl hprepared hbuild (by decide) hstock).2
    (.inl (by decide))⟩

/-- Prices of 12 that include the tax leave a credit of 20 in the expense. -/
theorem stock_purchase_expense_off :
    ∃ prepared commit, preparePayload tenTea stockDay 1 (teaBill true 12) "PINV-1" = .ok prepared ∧
      buildSubmit serdeCodec tenTea stockDay 1 (teaBill true 12) "PINV-1" stockClerk = .ok commit ∧
      BuysStock (submitItems serdeCodec tenTea 1 (teaBill true 12) "PINV-1" prepared)
        (teaBill true 12).items ∧
      expenseNet "PINV-1" commit.glEntries = -20 ∧
      ¬ |expenseNet "PINV-1" commit.glEntries| ≤
        1 / 100 + 5 / 1000 * (objectRows (teaBill true 12).items).length := by
  have hbuilt : (buildSubmit serdeCodec tenTea stockDay 1 (teaBill true 12) "PINV-1"
      stockClerk).toOption.map (fun commit => expenseNet "PINV-1" commit.glEntries) = some (-20) := by
    decide +kernel
  obtain ⟨commit, hbuild, hnet⟩ := Except.map_toOption.1 hbuilt
  obtain ⟨prepared, -, -, -, hprepared, -, -, -⟩ := buildSubmit_ok hbuild
  have hstock := teaBill_buysStock (by decide +kernel) hprepared (by decide +kernel)
  refine ⟨prepared, commit, hprepared, hbuild, hstock, hnet, ?_⟩
  rw [hnet]
  decide +kernel

/-! ### What a one-document purchase leaves in GRNI -/

/-- Every object line buys a positive quantity of a stock item into a warehouse, at no rate of its own. -/
structure StocksLine (items : Items) (setWarehouse : Option String) (line : Map) : Prop where
  item : ∃ item, asNonEmpty (line.get "item") = some item ∧
    isStockItemType ((items.lookup item).map Item.itemType) = true
  qty : 0 < asNum (line.get "qty")
  warehouse : ∃ warehouse, (asNonEmpty (line.get "warehouse")).or setWarehouse = some warehouse
  rate : line.get "valuation_rate" = none ∨ line.get "valuation_rate" = some .null

/-- A worth as far as it is worth a leg. -/
def postedWorth (worth : ℚ) : ℚ := if |worth| < eps then 0 else worth

/-- What a line's stock row posts. -/
def lineWorth (line : Map) : ℚ := postedWorth (asNum (line.get "qty") * asNum (line.get "rate"))

section Movements
variable {ctx : RowContext} {payload : Map} {items : Items}

/-- A receipt has a row for each line, of its quantity at its rate. -/
theorem stockDocumentRows_lines (h : ∀ line ∈ (itemsOf payload).filterMap Value.asObject,
      StocksLine items (asNonEmpty (payload.get "set_warehouse")) line) :
    ((stockDocumentRows ctx payload true .receipt).map StockLedgerEntry.worth =
      ((itemsOf payload).filterMap Value.asObject).map fun line =>
        asNum (Map.get line "qty") * asNum (Map.get line "rate")) ∧
    ∀ raw ∈ stockDocumentRows ctx payload true .receipt, raw.transType = .receipt ∧ 0 < raw.qtyChange ∧
      isStockItemType ((items.lookup raw.item).map Item.itemType) = true := by
  rw [← objectRows_fst] at h ⊢
  rw [stockDocumentRows]
  generalize objectRows (itemsOf payload) = entries at h ⊢
  induction entries with
  | nil => exact ⟨rfl, fun _ hraw => absurd hraw List.not_mem_nil⟩
  | cons entry entries ih =>
    obtain ⟨line, i⟩ := entry
    rw [List.map_cons] at h
    obtain ⟨hline, hlines⟩ := List.forall_mem_cons.1 h
    obtain ⟨hworth, hrows⟩ := ih hlines
    obtain ⟨item, hitem, hstock⟩ := hline.item
    obtain ⟨warehouse, hwarehouse⟩ := hline.warehouse
    rw [List.filterMap_cons, List.map_cons, List.map_cons, ← hworth]
    simp only [hitem, hwarehouse, Option.bind_eq_bind, Option.bind_some, Option.pure_def, if_true]
    refine ⟨?_, List.forall_mem_cons.2 ⟨⟨rfl, hline.qty, hstock⟩, hrows⟩⟩
    rcases hline.rate with hrate | hrate
    · rw [List.map_cons, hrate]
      rfl
    · rw [List.map_cons, hrate]
      rfl

/-- A receipt that is no return posts each line's worth. -/
theorem posted_lines {inputs : CostInputs} (hreturn : inputs.isReturn = false)
    (h : ∀ line ∈ (itemsOf payload).filterMap Value.asObject,
      StocksLine inputs.items (asNonEmpty (payload.get "set_warehouse")) line) :
    (spreadConsumedCost (costRows inputs (stockMovements inputs.items
        (stockDocumentRows ctx payload true .receipt)))).1.map StockLedgerEntry.shown =
      ((itemsOf payload).filterMap Value.asObject).map lineWorth := by
  obtain ⟨hworth, hrows⟩ := @stockDocumentRows_lines ctx payload inputs.items h
  have hall : stockMovements inputs.items (stockDocumentRows ctx payload true .receipt) =
      stockDocumentRows ctx payload true .receipt :=
    List.filter_eq_self.2 fun raw hraw => (hrows raw hraw).2.2
  have hplain : ∀ raw ∈ stockDocumentRows ctx payload true .receipt, raw.transType ≠ .production := by
    intro raw hraw
    rw [(hrows raw hraw).1]
    exact StockTransType.noConfusion
  have hshown : List.Forall₂ (fun raw sle => postedWorth raw.worth = StockLedgerEntry.shown sle)
      (stockDocumentRows ctx payload true .receipt) (spreadConsumedCost (costRows inputs
        (stockDocumentRows ctx payload true .receipt))).1 := by
    refine ((List.forall₂_and_left _ _).2 ⟨hrows, @posted_forall₂ inputs _ hplain⟩).imp ?_
    rintro raw sle ⟨⟨htype, hqty, -⟩, before, rfl⟩
    have hkept : ¬ (raw.transType = .transfer ∨ raw.transType = .production) := by simp [htype]
    have hrate := @rateOf_supplied inputs before raw hreturn hqty fun hmoved =>
      absurd (.inl hmoved) hkept
    rw [if_neg hkept] at hrate
    have hcrosses : (raw.valued (stockQty inputs.items raw)
        ((costRows inputs before).rateOf inputs raw)).crosses = true := by
      simp [StockLedgerEntry.crosses, StockLedgerEntry.valued, htype]
    have hworth : (raw.valued (stockQty inputs.items raw)
        ((costRows inputs before).rateOf inputs raw)).worth = raw.worth := by
      change stockQty inputs.items raw * (costRows inputs before).rateOf inputs raw = raw.worth
      rw [hrate, stockQty_eq, mul_assoc, mul_div_cancel₀ _ (stockFactor_pos inputs.items raw).ne']
      rfl
    rw [StockLedgerEntry.shown, hcrosses, hworth, postedWorth]
    simp only [Bool.true_eq_false, or_false]
  have hsame : List.Forall₂ (· = ·)
      ((stockDocumentRows ctx payload true .receipt).map fun raw => postedWorth raw.worth)
      ((spreadConsumedCost (costRows inputs (stockDocumentRows ctx payload true .receipt))).1.map
        StockLedgerEntry.shown) :=
    List.forall₂_map_left_iff.2 (List.forall₂_map_right_iff.2 hshown)
  rw [List.forall₂_eq_eq_eq] at hsame
  have hlines := congrArg (List.map postedWorth) hworth
  rw [List.map_map, List.map_map] at hlines
  rw [hall, ← hsame]
  exact hlines

end Movements

/-- What the stock rows of the lines post. -/
def rowsWorth (lines : List Value) : ℚ := ((lines.filterMap Value.asObject).map lineWorth).sum

section Rows
variable {codec : Codec} {view : StoreView} {settings : CompanySettings} {ctx : RowContext}
  {payload : Map}

/-- The clearing side of an invoice of stock lines. -/
theorem grniLegs_base {items : Items} (hstock : BuysStock items (itemsOf payload)) :
    baseDifference (grniLegs ctx items settings payload) =
      conversionRateOf payload * movedValue payload := by
  rw [baseDifference_atRate fun _ h => grniLegs_atRate h, grniLegs, movedValue, stockNet_of_buysStock hstock]
  split_ifs
  · rw [glDifference_nil]
  · rw [glDifference_cons, glDifference_nil, add_zero]
    exact congrArg (conversionRateOf payload * ·) (sub_zero _)

/-- What stays in GRNI of a one-document purchase. -/
theorem grniNet_deriveRows (hdoctype : ctx.doctype = "Purchase Invoice")
    (hupdate : isTrue (payload.get "update_stock") = true)
    (hreturn : isTrue (payload.get "is_return") = false)
    (hlines : ∀ line ∈ (itemsOf payload).filterMap Value.asObject,
      StocksLine (loadItems codec view ctx.companyId (deriveStockRows ctx payload) payload)
        (asNonEmpty (payload.get "set_warehouse")) line) :
    let rows := deriveRows codec view settings ctx payload
    grniNet ctx.documentId rows.sles rows.gl =
      conversionRateOf payload * movedValue payload - rowsWorth (itemsOf payload) := by
  intro rows
  have hraw : deriveStockRows ctx payload = stockDocumentRows ctx payload true .receipt := by
    simp only [deriveStockRows, hdoctype, hupdate, if_true]
  have hgrni : baseDifference (rows.gl.filter fun entry => entry.id = ctx.glStart ++ "-grni") =
      conversionRateOf payload * movedValue payload := by
    rw [filter_purchaseLegs hdoctype (by decide) (by decide), List.filter_eq_nil_iff.2, List.nil_append,
      List.filter_eq_self.2 fun entry hentry => decide_eq_true (grniLegs_id hentry)]
    · exact grniLegs_base fun line hline => (hlines line hline).item
    · intro entry hentry
      rw [decide_eq_true_eq, expenseLegs_id hentry]
      exact legId_ne (by decide)
  have hcounter : baseDifference (stockLegs .counter rows.sles rows.gl) = -rowsWorth (itemsOf payload) := by
    have hposted := @posted_lines ctx payload (costInputs view ctx.companyId
      (loadItems codec view ctx.companyId (deriveStockRows ctx payload) payload) payload) hreturn hlines
    rw [← hraw] at hposted
    refine (congrArg baseDifference (filter_deriveRows codec view settings payload .counter)).trans ?_
    rw [baseDifference_atRate fun _ h => stockGlLegs_atRate (List.mem_of_mem_filter h), one_mul,
      stockGlLegs_counter _ settings (deriveRows_sles_nodup codec view settings payload)
        fun _ => deriveRows_sles_stamp codec view settings payload]
    exact congrArg (fun worths : List ℚ => -worths.sum) hposted
  exact (congrArg₂ (· + ·) hgrni hcounter).trans (sub_eq_add_neg _ _).symm

end Rows

/-- Two sums over one list are no further apart than their terms. -/
theorem abs_sum_sub_sum_le {α : Type} {f g : α → ℚ} {slack : ℚ} {xs : List α}
    (h : ∀ x ∈ xs, |f x - g x| ≤ slack) :
    |(xs.map f).sum - (xs.map g).sum| ≤ slack * xs.length := by
  induction xs with
  | nil => simp
  | cons x xs ih =>
    obtain ⟨hx, hxs⟩ := List.forall_mem_cons.1 h
    have hrest := ih hxs
    rw [List.map_cons, List.map_cons, List.sum_cons, List.sum_cons, List.length_cons]
    push_cast
    calc |f x + (xs.map f).sum - (g x + (xs.map g).sum)|
        = |f x - g x + ((xs.map f).sum - (xs.map g).sum)| := by
          congr 1
          ring
      _ ≤ slack + slack * xs.length := (abs_add_le _ _).trans (add_le_add hx hrest)
      _ = slack * (xs.length + 1) := by ring

theorem abs_sub_postedWorth_le (worth : ℚ) : |worth - postedWorth worth| ≤ eps := by
  rw [postedWorth]
  split_ifs with hsmall
  · rw [sub_zero]
    exact hsmall.le
  · rw [sub_self, abs_zero]
    norm_num [eps]

/-- The lines' stated amounts and what their rows post are within the slack of the lines. -/
theorem abs_movedValue_sub_le {payload payload' : Map} {track : Bool} (hlines : 1 ≤ lineCount payload)
    (h : validateInvoiceTotals payload track = .ok payload') :
    |movedValue payload - rowsWorth (itemsOf payload)| ≤ 11 / 1000 * lineCount payload := by
  obtain ⟨-, -, hstated⟩ := validateInvoiceTotals_grand h
  have hcount : (1 : ℚ) ≤ lineCount payload := by exact_mod_cast hlines
  have hmoved : |movedValue payload - statedLines payload| ≤ eps := by
    rw [abs_sub_comm]
    exact abs_sub_postedWorth_le (statedLines payload)
  have hrounded : |linesTotal payload - ((objectRows (itemsOf payload)).map fun entry =>
      asNum (entry.1.get "qty") * asNum (entry.1.get "rate")).sum| ≤ 1 / 200 * lineCount payload := by
    refine abs_sum_sub_sum_le fun entry _ => ?_
    rw [abs_sub_comm]
    exact abs_sub_round2_le _
  have hposted : |((objectRows (itemsOf payload)).map fun entry =>
      asNum (entry.1.get "qty") * asNum (entry.1.get "rate")).sum - rowsWorth (itemsOf payload)| ≤
        eps * lineCount payload := by
    rw [rowsWorth, ← objectRows_fst, List.map_map]
    exact abs_sum_sub_sum_le fun entry _ => abs_sub_postedWorth_le _
  rw [abs_le] at hstated hmoved hrounded hposted ⊢
  unfold moneyEps eps at *
  constructor <;> linarith

section Submit
variable {codec : Codec} {view : StoreView} {env : Env} {companyId : Uuid} {cmd : SubmitCommand}
  {documentId : String} {actor : Actor} {commit : PostingCommit} {prepared : Prepared}

/-- What an accepted one-document purchase leaves in GRNI. -/
theorem buildSubmit_grniNet (hdoctype : cmd.doctype = "Purchase Invoice")
    (hupdate : isTrue (cmd.payload.get "update_stock") = true)
    (hreturn : isTrue (cmd.payload.get "is_return") = false)
    (hprepared : preparePayload view env companyId cmd documentId = .ok prepared)
    (h : buildSubmit codec view env companyId cmd documentId actor = .ok commit)
    (hlines : ∀ line ∈ cmd.items.filterMap Value.asObject,
      StocksLine (submitItems codec view companyId cmd documentId prepared)
        (asNonEmpty (cmd.payload.get "set_warehouse")) line) :
    grniNet documentId commit.stockLedgerEntries commit.glEntries =
      conversionRateOf cmd.payload * movedValue (cmd.payload.insert "items" (.array cmd.items)) -
        rowsWorth cmd.items := by
  have hpayment : cmd.doctype ≠ "Payment Entry" := by
    rw [hdoctype]
    decide
  have hfield : ∀ field ∉ "items" :: "posting_date" :: preparedFields,
      prepared.payload.get field = cmd.payload.get field :=
    fun field hfield => preparePayload_field hpayment hprepared hfield
  have hitems := preparePayload_items hpayment hprepared
  have hrate : conversionRateOf prepared.payload = conversionRateOf cmd.payload := by
    rw [conversionRateOf, conversionRateOf, hfield "conversion_rate" (by decide)]
  have hmoved : movedValue prepared.payload =
      movedValue (cmd.payload.insert "items" (.array cmd.items)) := by
    rw [movedValue, movedValue, statedLines_congr (preparePayload_sent hpayment hprepared (by decide))]
  obtain ⟨prepared', shortfalls, settlements, updates, hprepared', -, -, rfl⟩ := buildSubmit_ok h
  obtain rfl := Except.ok.inj (hprepared.symm.trans hprepared')
  have hnet := @grniNet_deriveRows codec view (view.companySettings companyId)
    (submitContext companyId cmd documentId prepared.postingDate) prepared.payload hdoctype
    (by rw [hfield "update_stock" (by decide)]; exact hupdate)
    (by rw [hfield "is_return" (by decide)]; exact hreturn)
    (by rw [hitems, hfield "set_warehouse" (by decide)]; exact hlines)
  rw [hrate, hmoved, hitems] at hnet
  exact hnet

/-- An accepted one-document purchase clears GRNI within the slack of its lines if and only if its rate is one,
or the amounts at the rate and the rows' worth are within it all the same. What it leaves there is, within this
slack, the rows' worth times what the rate exceeds one by. -/
theorem one_document_clears_iff (hdoctype : cmd.doctype = "Purchase Invoice")
    (hupdate : isTrue (cmd.payload.get "update_stock") = true)
    (hreturn : isTrue (cmd.payload.get "is_return") = false)
    (hprepared : preparePayload view env companyId cmd documentId = .ok prepared)
    (h : buildSubmit codec view env companyId cmd documentId actor = .ok commit)
    (hcount : 1 ≤ (objectRows cmd.items).length)
    (hlines : ∀ line ∈ cmd.items.filterMap Value.asObject,
      StocksLine (submitItems codec view companyId cmd documentId prepared)
        (asNonEmpty (cmd.payload.get "set_warehouse")) line) :
    let sent := cmd.payload.insert "items" (.array cmd.items)
    let rate := conversionRateOf cmd.payload
    let net := grniNet documentId commit.stockLedgerEntries commit.glEntries
    let slack : ℚ := 11 / 1000 * (objectRows cmd.items).length * max 1 rate
    (|net| ≤ slack ↔ rate = 1 ∨ |rate * movedValue sent - rowsWorth cmd.items| ≤ slack) ∧
      |net - (rate - 1) * rowsWorth cmd.items| ≤ slack := by
  intro sent rate net slack
  have hnet : net = rate * movedValue sent - rowsWorth cmd.items :=
    buildSubmit_grniNet hdoctype hupdate hreturn hprepared h hlines
  obtain ⟨checked, htotals, hkept⟩ := preparePayload_checked (by rw [hdoctype]; decide) hprepared
  have hitems : itemsOf checked = cmd.items := by
    rw [itemsOf, arrayOf, hkept "items" (by decide), Map.get_insert_self]
  have hmoved : movedValue checked = movedValue sent := by
    rw [movedValue, movedValue, statedLines_congr (hkept _ (by decide))]
  have hbound := abs_movedValue_sub_le (by rw [lineCount, hitems]; exact hcount)
    (validateTotals_ok (by rw [hdoctype]; decide) htotals)
  rw [hmoved, lineCount, hitems] at hbound
  have hrate : 0 < rate := conversionRateOf_pos cmd.payload
  have hnear : |net - (rate - 1) * rowsWorth cmd.items| ≤ slack := by
    calc |net - (rate - 1) * rowsWorth cmd.items|
        = rate * |movedValue sent - rowsWorth cmd.items| := by
          rw [hnet, ← abs_of_pos hrate, ← abs_mul, abs_of_pos hrate]
          congr 1
          ring
      _ ≤ rate * (11 / 1000 * (objectRows cmd.items).length) :=
          mul_le_mul_of_nonneg_left hbound hrate.le
      _ ≤ slack := by
          rw [mul_comm]
          exact mul_le_mul_of_nonneg_left (le_max_right 1 rate) (by positivity)
  refine ⟨?_, hnear⟩
  rw [← hnet]
  constructor
  · exact .inr
  · rintro (hone | hsmall)
    · rwa [hone, sub_self, zero_mul, sub_zero] at hnear
    · exact hsmall

end Submit

/-- Ten TEA at 5 that come into Main with their bill, in a currency of some rate. -/
def fxBill (rate : Int) : SubmitCommand where
  doctype := "Purchase Invoice"
  documentId := some "PINV-1"
  payload := [("posting_date", .string "2026-01-05"), ("supplier", .string "S-1"),
    ("update_stock", .int 1), ("conversion_rate", .int rate), ("set_warehouse", .string "Main")]
  items := [.obj [("item", .string "TEA"), ("qty", .int 10), ("rate", .int 5)]]
  idempotencyKey := none
  offlineFiscal := false

theorem fxBill_stocksLine {rate : Int} {prepared : Prepared}
    (hprepared : preparePayload tenTea stockDay 1 (fxBill rate) "PINV-1" = .ok prepared)
    (hkind : (preparePayload tenTea stockDay 1 (fxBill rate) "PINV-1").toOption.map (fun prepared =>
      isStockItemType (((submitItems serdeCodec tenTea 1 (fxBill rate) "PINV-1" prepared).lookup
        "TEA").map Item.itemType)) = some true) :
    ∀ line ∈ (fxBill rate).items.filterMap Value.asObject,
      StocksLine (submitItems serdeCodec tenTea 1 (fxBill rate) "PINV-1" prepared) (some "Main") line := by
  rw [hprepared] at hkind
  intro line hline
  obtain rfl := List.mem_singleton.1 hline
  exact ⟨⟨"TEA", by decide +kernel, Option.some.inj hkind⟩, by decide +kernel, ⟨"Main", by decide +kernel⟩,
    .inl (by decide +kernel)⟩

/-- At a rate of one GRNI is cleared. -/
theorem one_document_clears_iff_tea :
    ∃ commit, buildSubmit serdeCodec tenTea stockDay 1 (fxBill 1) "PINV-1" stockClerk = .ok commit ∧
      |grniNet "PINV-1" commit.stockLedgerEntries commit.glEntries| ≤ 11 / 1000 * 1 * max 1 1 := by
  have hbuilt : (buildSubmit serdeCodec tenTea stockDay 1 (fxBill 1) "PINV-1"
      stockClerk).toOption.isSome = true := by decide +kernel
  have hrate : conversionRateOf (fxBill 1).payload = 1 := by decide +kernel
  obtain ⟨commit, hbuild⟩ := Except.isSome_toOption.1 hbuilt
  obtain ⟨prepared, -, -, -, hprepared, -, -, -⟩ := buildSubmit_ok hbuild
  have hclears := (one_document_clears_iff rfl (by decide) (by decide) hprepared hbuild (by decide)
    (fxBill_stocksLine hprepared (by decide +kernel))).1.2 (.inl hrate)
  rw [hrate] at hclears
  exact ⟨commit, hbuild, hclears⟩

/-- At a rate of two the invoice clears 100 where its stock rows posted 50. -/
theorem one_document_leaves_grni :
    ∃ prepared commit, preparePayload tenTea stockDay 1 (fxBill 2) "PINV-1" = .ok prepared ∧
      buildSubmit serdeCodec tenTea stockDay 1 (fxBill 2) "PINV-1" stockClerk = .ok commit ∧
      (∀ line ∈ (fxBill 2).items.filterMap Value.asObject,
        StocksLine (submitItems serdeCodec tenTea 1 (fxBill 2) "PINV-1" prepared) (some "Main") line) ∧
      grniNet "PINV-1" commit.stockLedgerEntries commit.glEntries = 50 ∧
      ¬ |grniNet "PINV-1" commit.stockLedgerEntries commit.glEntries| ≤
        11 / 1000 * (objectRows (fxBill 2).items).length * max 1 (conversionRateOf (fxBill 2).payload) := by
  have hbuilt : (buildSubmit serdeCodec tenTea stockDay 1 (fxBill 2) "PINV-1" stockClerk).toOption.map
      (fun commit => grniNet "PINV-1" commit.stockLedgerEntries commit.glEntries) = some 50 := by
    decide +kernel
  obtain ⟨commit, hbuild, hnet⟩ := Except.map_toOption.1 hbuilt
  obtain ⟨prepared, -, -, -, hprepared, -, -, -⟩ := buildSubmit_ok hbuild
  refine ⟨prepared, commit, hprepared, hbuild, fxBill_stocksLine hprepared (by decide +kernel), hnet, ?_⟩
  rw [hnet]
  decide +kernel

end AtlasTeam
