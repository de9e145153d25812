import AtlasTeam.Posting.Engine

/-!
# How far a voucher is off balance

`check_balanced` lets a voucher through within a tolerance. `offBy` reads off the payload by how much
the legs of a submit differ, doctype by doctype: an invoice by the tax rows that give no leg, a Purchase
Invoice also by an expense leg that is dropped once it comes to nothing, an Expense by the rounding of
its gross amount, a Journal Entry by what its lines say. Payments, deposits and the legs of stock
movements always balance.
-/

namespace AtlasTeam

def GlEntry.difference (entry : GlEntry) : ℚ := entry.debit - entry.credit

/-- Debits less credits. -/
def glDifference (rows : List GlEntry) : ℚ := (rows.map GlEntry.difference).sum

@[simp] theorem glDifference_nil : glDifference [] = 0 := rfl

@[simp] theorem glDifference_cons (entry : GlEntry) (rows : List GlEntry) :
    glDifference (entry :: rows) = entry.difference + glDifference rows :=
  List.sum_cons

@[simp] theorem glDifference_append (rows rows' : List GlEntry) :
    glDifference (rows ++ rows') = glDifference rows + glDifference rows' := by
  rw [glDifference, List.map_append, List.sum_append]
  rfl

@[simp] theorem RowContext.gl_difference (ctx : RowContext) (id account : String) (debit credit : ℚ)
    (partyType party : Option String) :
    (ctx.gl id account debit credit partyType party).difference = debit - credit := rfl

theorem glDifference_map {α : Type} {f : α → GlEntry} {g : α → ℚ}
    (h : ∀ a, (f a).difference = g a) (xs : List α) : glDifference (xs.map f) = (xs.map g).sum := by
  rw [glDifference, List.map_map]
  exact congrArg List.sum (List.map_congr_left fun a _ => h a)

theorem reversal_difference (batchId : String) (rows : List GlEntry) :
    glDifference (rows.map (GlEntry.reversal batchId)) = -glDifference rows := by
  induction rows with
  | nil => simp
  | cons entry rows ih =>
    rw [List.map_cons, glDifference_cons, glDifference_cons, ih]
    simp only [GlEntry.difference, GlEntry.reversal]
    ring

/-! ### Tax legs -/

/-- The object rows of a child table, without their positions. -/
theorem objectRows_fst (rows : List Value) :
    (objectRows rows).map Prod.fst = rows.filterMap Value.asObject := by
  have hzip : ∀ start : Nat, ((rows.zipIdx start).filterMap fun entry =>
      entry.1.asObject.map fun m => (m, entry.2)).map Prod.fst = rows.filterMap Value.asObject := by
    induction rows with
    | nil => intro _; rfl
    | cons row rows ih =>
      intro start
      rw [List.zipIdx_cons]
      cases hrow : row.asObject with
      | none => simp [hrow, ih]
      | some m => simp [hrow, ih]
  exact hzip 0

/-- The tax row gives no leg. -/
def isUnposted (row : Map) : Bool :=
  (asNonEmpty (row.get "tax_account")).isNone || |asNum (row.get "tax_amount")| < eps

/-- The tax that is part of the total and of no leg. -/
def unpostedTax (payload : Map) : ℚ :=
  ((((arrayOf payload "taxes").filterMap Value.asObject).filter isUnposted).map fun row =>
    asNum (row.get "tax_amount")).sum

theorem taxLegs_difference (ctx : RowContext) (payload : Map) (isOutput : Bool) :
    glDifference (taxLegs ctx payload isOutput) =
      if isOutput then unpostedTax payload - totalTax payload
      else totalTax payload - unpostedTax payload := by
  rw [unpostedTax, totalTax, taxLegs, ← objectRows_fst]
  induction objectRows (arrayOf payload "taxes") with
  | nil => cases isOutput <;> simp
  | cons entry entries ih =>
    obtain ⟨row, i⟩ := entry
    rw [List.filterMap_cons, List.map_cons, List.map_cons, List.sum_cons, List.filter_cons]
    cases haccount : asNonEmpty (row.get "tax_account") with
    | none =>
      simp only [isUnposted, haccount, Option.isNone_none, Bool.true_or, if_true, ih]
      cases isOutput <;> simp
    | some account =>
      by_cases hsmall : |asNum (row.get "tax_amount")| < eps
      · simp only [isUnposted, haccount, hsmall, decide_true, Bool.or_true, if_true, ih]
        cases isOutput <;> simp
      · simp only [isUnposted, haccount, hsmall, Option.isNone_some, decide_false, Bool.or_false,
          Bool.false_eq_true, if_false, glDifference_cons, ih]
        cases isOutput
        · simp only [Bool.false_eq_true, if_false, RowContext.gl_difference]
          ring
        · simp only [if_true, RowContext.gl_difference]
          ring

/-! ### The legs of a voucher -/

/-- The movement posts nothing: its value is too small, or stays within the stock. -/
def StockLedgerEntry.Silent (sle : StockLedgerEntry) : Prop :=
  |sle.qtyChange * sle.valuationRate| < eps ∨ sle.transType = .transfer ∨ sle.transType = .production

/-- A costed movement posts nothing, or its value to two legs. -/
theorem stockGlLeg_cases (ctx : RowContext) (items : Items) (settings : CompanySettings)
    (sle : StockLedgerEntry) :
    sle.Silent ∧ stockGlLeg ctx items settings sle = [] ∨
    ¬ sle.Silent ∧ ∃ d c, stockGlLeg ctx items settings sle = [d, c] ∧
      d.id = sle.id ++ "-gl-d" ∧ d.debit = |sle.qtyChange * sle.valuationRate| ∧ d.credit = 0 ∧
      c.id = sle.id ++ "-gl-c" ∧ c.debit = 0 ∧ c.credit = |sle.qtyChange * sle.valuationRate| := by
  by_cases hsilent : sle.Silent
  · exact .inl ⟨hsilent, if_pos hsilent⟩
  · exact .inr ⟨hsilent, _, _, if_neg hsilent, rfl, rfl, rfl, rfl, rfl, rfl⟩

theorem stockGlLeg_difference (ctx : RowContext) (items : Items) (settings : CompanySettings)
    (sle : StockLedgerEntry) : glDifference (stockGlLeg ctx items settings sle) = 0 := by
  rcases stockGlLeg_cases ctx items settings sle with
    ⟨-, hnone⟩ | ⟨-, d, c, hlegs, -, hdebit, hdebit', -, hcredit, hcredit'⟩
  · rw [hnone, glDifference_nil]
  · rw [hlegs, glDifference_cons, glDifference_cons, glDifference_nil, GlEntry.difference,
      GlEntry.difference, hdebit, hdebit', hcredit, hcredit']
    ring

theorem stockGlLegs_difference (ctx : RowContext) (sles : List StockLedgerEntry) (items : Items)
    (settings : CompanySettings) : glDifference (stockGlLegs ctx sles items settings) = 0 := by
  induction sles with
  | nil => rfl
  | cons sle sles ih =>
    rw [stockGlLegs, List.flatMap_cons, glDifference_append, stockGlLeg_difference, zero_add]
    exact ih

/-- The value of the stock lines of a Purchase Invoice. -/
def stockNet (items : Items) (payload : Map) : ℚ :=
  ((((itemsOf payload).filterMap Value.asObject).filter fun line =>
    match asNonEmpty (line.get "item") with
    | some id => isStockItemType ((items.lookup id).map Item.itemType)
    | none => false).map lineAmount).sum

/-- The net amount of an invoice. -/
def netAmount (payload : Map) : ℚ := asNum (payload.get "grand_total") - totalTax payload

/-- What is lost of the expense of a Purchase Invoice: a rest too small for a leg of its own. -/
def droppedExpense (items : Items) (payload : Map) : ℚ :=
  let rest := netAmount payload - stockNet items payload
  if |stockNet items payload| < eps then 0 else if |rest| < eps then rest else 0

/-- By how much the legs of a submit differ. -/
def offBy (doctype : String) (items : Items) (payload : Map) : ℚ :=
  match doctype with
  | "Sales Invoice" => unpostedTax payload
  | "POS Invoice" => unpostedTax payload
  | "Purchase Invoice" => -unpostedTax payload - droppedExpense items payload
  | "Expense" => asNum (payload.get "net_amount") + asNum (payload.get "tax_amount") -
      asNum (payload.get "gross_amount")
  | "Journal Entry" => ((journalRows payload).map fun (row, _) =>
      asNum (row.get "debit") - asNum (row.get "credit")).sum
  | _ => 0

/-- The legs of the document's own amounts. -/
theorem deriveMonetaryGl_difference (ctx : RowContext) (items : Items) (payload : Map) :
    glDifference (deriveMonetaryGl ctx payload) = offBy ctx.doctype items payload +
      (if ctx.doctype = "Purchase Invoice" then droppedExpense items payload else 0) := by
  unfold deriveMonetaryGl
  split
  case h_1 h => simp [h, offBy, taxLegs_difference]
  case h_2 h =>
    simp only [h, offBy, glDifference_append, glDifference_cons, glDifference_nil,
      taxLegs_difference, RowContext.gl_difference, Bool.false_eq_true, if_false, if_true]
    ring
  case h_3 h => simp [h, offBy, taxLegs_difference]
  case h_4 h => simp [h, offBy]
  case h_5 h =>
    have htax : glDifference (if asNum (payload.get "tax_amount") ≠ 0 then
        [ctx.gl ("GL-" ++ ctx.documentId ++ "-tax") (accountField payload "tax_account")
          (asNum (payload.get "tax_amount")) 0 none none] else []) =
        asNum (payload.get "tax_amount") := by
      split_ifs with hzero
      · simp
      · rw [glDifference_nil, not_not.1 hzero]
    have hdoctype : ("Expense" = "Purchase Invoice") = False := by simp
    simp only [h, hdoctype, if_false, offBy, glDifference_append, glDifference_cons, glDifference_nil,
      RowContext.gl_difference]
    erw [htax]
    ring
  case h_6 h => simp [h, offBy]
  case h_7 h =>
    have hdoctype : ("Journal Entry" = "Purchase Invoice") = False := by simp
    simp only [h, hdoctype, if_false, offBy, add_zero]
    exact glDifference_map (fun _ => rfl) _
  case h_8 h₁ h₂ h₃ h₄ h₅ h₆ h₇ =>
    rw [if_neg h₂, add_zero]
    simp [offBy, *]

/-! ### Base currency and goods received -/

theorem stampGl_difference (payload : Map) (rows : List GlEntry) :
    glDifference (rows.map (stampGl payload)) = glDifference rows :=
  glDifference_map (fun _ => rfl) rows

/-- Reducing the expense leg takes the stock value off it, and the rest as well if the leg goes. -/
theorem reduceExpense_difference {expenseId : String} {net rate : ℚ} {rows before after : List GlEntry}
    {entry : GlEntry} (hrows : rows = before ++ entry :: after) (hid : entry.id = expenseId)
    (hbefore : ∀ e ∈ before, e.id ≠ expenseId) (hcredit : entry.credit = 0) :
    glDifference (reduceExpense expenseId net rate rows) = glDifference rows - net -
      (if |entry.debit - net| < eps then entry.debit - net else 0) := by
  subst hrows
  induction before with
  | nil =>
    have hzero : |entry.credit| < eps := by
      rw [hcredit]
      norm_num [eps]
    simp only [List.nil_append, reduceExpense, hid, if_true, hzero, and_true]
    split_ifs with hdrop
    · simp only [glDifference_cons, GlEntry.difference, hcredit]
      ring
    · simp only [glDifference_cons, GlEntry.difference]
      ring
  | cons first before ih =>
    obtain ⟨hfirst, hrest⟩ := List.forall_mem_cons.1 hbefore
    simp only [List.cons_append, reduceExpense, hfirst, if_false, glDifference_cons, ih hrest]
    ring

theorem splitGrniFromExpense_difference (ctx : RowContext) (payload : Map) (items : Items)
    (settings : CompanySettings) {rows before after : List GlEntry} {entry : GlEntry}
    (hrows : rows = before ++ entry :: after) (hid : entry.id = s!"GL-{ctx.documentId}-debit")
    (hbefore : ∀ e ∈ before, e.id ≠ s!"GL-{ctx.documentId}-debit") (hcredit : entry.credit = 0)
    (hdebit : entry.debit = netAmount payload) :
    glDifference (splitGrniFromExpense ctx rows payload items settings) =
      glDifference rows - droppedExpense items payload := by
  have hreduced := @reduceExpense_difference _ (stockNet items payload) (conversionRateOf payload) _ _ _ _
    hrows hid hbefore hcredit
  by_cases hsmall : |stockNet items payload| < eps
  · rw [droppedExpense, if_pos hsmall, sub_zero]
    exact congrArg glDifference (if_pos hsmall)
  · have hsplit : glDifference (splitGrniFromExpense ctx rows payload items settings) =
        glDifference (reduceExpense s!"GL-{ctx.documentId}-debit" (stockNet items payload)
          (conversionRateOf payload) rows) + stockNet items payload := by
      refine (congrArg glDifference (if_neg hsmall)).trans ?_
      rw [glDifference_append]
      simp only [glDifference_cons, glDifference_nil, GlEntry.difference, RowContext.gl, sub_zero,
        add_zero]
      rfl
    rw [hsplit, hreduced, hdebit, droppedExpense, if_neg hsmall]
    ring

/-! ### The rows of a submit -/

/-- The expense leg of a Purchase Invoice comes second, and is the first of its id. -/
theorem purchaseInvoice_gl {ctx : RowContext} (h : ctx.doctype = "Purchase Invoice") (payload : Map) :
    ∃ owed expense legs, deriveMonetaryGl ctx payload = owed :: expense :: legs ∧
      owed.id ≠ s!"GL-{ctx.documentId}-debit" ∧ expense.id = s!"GL-{ctx.documentId}-debit" ∧
      expense.debit = netAmount payload ∧ expense.credit = 0 := by
  have hlegs : deriveMonetaryGl ctx payload =
      ctx.gl s!"GL-{ctx.documentId}-credit" (accountField payload "credit_to") 0
          (asNum (payload.get "grand_total")) (some "Supplier") (asNonEmpty (payload.get "supplier")) ::
        ctx.gl s!"GL-{ctx.documentId}-debit" (accountField payload "expense_account")
          (netAmount payload) 0 none none :: taxLegs ctx payload false := by
    simp only [deriveMonetaryGl, h]
    rfl
  refine ⟨_, _, _, hlegs, fun heq => ?_, rfl, rfl, rfl⟩
  have hlist := congrArg String.toList heq
  simp only [RowContext.gl, String.toList_append, List.append_cancel_left_eq] at hlist
  exact absurd hlist (by decide)

/-- The GL rows of a submit differ by what `offBy` reads off its payload. -/
theorem deriveRows_difference (codec : Codec) (view : StoreView) (settings : CompanySettings)
    (ctx : RowContext) (payload : Map) :
    glDifference (deriveRows codec view settings ctx payload).gl = offBy ctx.doctype
      (loadItems codec view ctx.companyId (deriveStockRows ctx payload) payload) payload := by
  have hmonetary := deriveMonetaryGl_difference ctx
    (loadItems codec view ctx.companyId (deriveStockRows ctx payload) payload) payload
  by_cases hpurchase : ctx.doctype = "Purchase Invoice"
  · rw [if_pos hpurchase] at hmonetary
    rw [← sub_eq_iff_eq_add.2 hmonetary]
    obtain ⟨owed, expense, legs, hgl, howed, hexpense, hdebit, hcredit⟩ :=
      purchaseInvoice_gl hpurchase payload
    have hstamped : isBaseStamped "Purchase Invoice" = true := by decide
    have hrows : ∀ stock : List GlEntry, (deriveMonetaryGl ctx payload).map (stampGl payload) ++ stock =
        [stampGl payload owed] ++ stampGl payload expense :: (legs.map (stampGl payload) ++ stock) := by
      intro stock
      rw [hgl]
      rfl
    simp only [deriveRows, hpurchase, hstamped, if_true, stampBaseAmounts]
    rw [splitGrniFromExpense_difference ctx payload _ settings (hrows _) hexpense
      (by simpa [stampGl] using howed) hcredit hdebit, glDifference_append, stockGlLegs_difference,
      stampGl_difference, add_zero]
  · rw [if_neg hpurchase, add_zero] at hmonetary
    rw [← hmonetary]
    simp only [deriveRows, hpurchase, if_false, glDifference_append, stockGlLegs_difference, add_zero]
    split_ifs
    · exact stampGl_difference _ _
    · rfl

theorem glDifference_eq (gl : List GlEntry) :
    glDifference gl = (gl.map GlEntry.debit).sum - (gl.map GlEntry.credit).sum := by
  induction gl with
  | nil => simp
  | cons entry gl ih =>
    rw [glDifference_cons, ih, List.map_cons, List.map_cons, List.sum_cons, List.sum_cons,
      GlEntry.difference]
    ring

theorem checkBalanced_ok {gl : List GlEntry} (h : checkBalanced gl = .ok ()) :
    |glDifference gl| ≤ balanceTolerance := by
  simp only [checkBalanced] at h
  split_ifs at h with hoff
  rw [glDifference_eq]
  exact not_lt.1 hoff

/-- An accepted submit is within the tolerance. -/
theorem buildSubmit_balanced {codec : Codec} {view : StoreView} {env : Env} {companyId : Uuid}
    {cmd : SubmitCommand} {documentId : String} {actor : Actor} {commit : PostingCommit}
    (h : buildSubmit codec view env companyId cmd documentId actor = .ok commit) :
    |glDifference commit.glEntries| ≤ balanceTolerance := by
  simp only [buildSubmit, Except.bind_eq_ok, Except.pure_eq_ok] at h
  obtain ⟨prepared, -, _, hbalanced, -, -, shortfalls, -, ⟨settlements, updates⟩, -, rfl⟩ := h
  exact checkBalanced_ok hbalanced

end AtlasTeam
