import AtlasTeam.Posting.Purchases
import AtlasTeam.Store.StockValues

/-!
# The tax subledger and the VAT accounts

Tax legs and tax subledger rows come of two walks over the same rows: every row gives a subledger row, and
a row without an account or an amount gives no leg. What the second walk leaves out is the unposted tax,
which the balance check holds to its tolerance.
-/

namespace AtlasTeam

/-- Doctypes whose VAT is output VAT. -/
def salesDoctypes : List String := ["Sales Invoice", "POS Invoice"]

/-- Doctypes that post to the tax subledger. -/
def taxedDoctypes : List String := ["Sales Invoice", "Purchase Invoice", "POS Invoice", "Expense"]

/-- The entry is a tax leg of the document, by its id. -/
def GlEntry.isTaxLeg (documentId : String) (entry : GlEntry) : Bool :=
  ("GL-" ++ documentId ++ "-tax").toList.isPrefixOf entry.id.toList

/-- The net amount of a document's tax legs: credits less debits on sales, debits less credits
elsewhere. -/
def taxNet (doctype documentId : String) (gl : List GlEntry) : ℚ :=
  let net := glDifference (gl.filter (GlEntry.isTaxLeg documentId))
  if doctype ∈ salesDoctypes then -net else net

/-! ### The legs -/

section Legs
variable {ctx : RowContext} {payload : Map}

/-- A leg of the document's own amounts is a tax leg by what follows the document. -/
theorem isTaxLeg_tail {entry : GlEntry} {tail : String} (hid : entry.id = ctx.glStart ++ tail) :
    entry.isTaxLeg ctx.documentId = "-tax".toList.isPrefixOf tail.toList := by
  have hstart : "GL-" ++ ctx.documentId ++ "-tax" = ctx.glStart ++ "-tax" := rfl
  rw [GlEntry.isTaxLeg, hid, hstart, String.toList_append, String.toList_append, Bool.eq_iff_iff,
    List.isPrefixOf_iff_prefix, List.isPrefixOf_iff_prefix, List.prefix_append_right_inj]

theorem filter_stampGl (gl : List GlEntry) :
    glDifference ((gl.map (stampGl payload)).filter (GlEntry.isTaxLeg ctx.documentId)) =
      glDifference (gl.filter (GlEntry.isTaxLeg ctx.documentId)) := by
  rw [List.filter_map, stampGl_difference]
  rfl

theorem filter_taxLegs (isOutput : Bool) :
    (taxLegs ctx payload isOutput).filter (GlEntry.isTaxLeg ctx.documentId) =
      taxLegs ctx payload isOutput := by
  obtain ⟨numbers, -, hids⟩ := taxLegs_ids ctx payload isOutput
  refine List.filter_eq_self.2 fun entry hentry => ?_
  have hid : entry.id ∈ (taxLegs ctx payload isOutput).map GlEntry.id := List.mem_map_of_mem hentry
  rw [hids] at hid
  obtain ⟨i, -, hid⟩ := List.mem_map.1 hid
  rw [isTaxLeg_tail hid.symm, String.toList_append, List.isPrefixOf_iff_prefix]
  exact List.prefix_append _ _

/-- The legs of stock rows are no tax legs. -/
theorem filter_stockGlLegs {sles : List StockLedgerEntry} (items : Items) (settings : CompanySettings)
    (hsles : ∀ sle ∈ sles, ∃ rest, sle.id = ctx.sleStart ++ rest) :
    (stockGlLegs ctx sles items settings).filter (GlEntry.isTaxLeg ctx.documentId) = [] := by
  refine List.filter_eq_nil_iff.2 fun entry hentry => ?_
  obtain ⟨id, hid, tail, hentryId⟩ := stockGlLegs_start ctx hentry
  obtain ⟨sle, hsle, rfl⟩ := List.mem_map.1 hid
  obtain ⟨rest, hrest⟩ := hsles sle hsle
  rw [GlEntry.isTaxLeg, hentryId, hrest]
  simp [RowContext.sleStart, String.toList_append]

end Legs

section Rows
variable {codec : Codec} {view : StoreView} {settings : CompanySettings} {ctx : RowContext}
  {payload : Map}

theorem deriveRows_sles_start {sle : StockLedgerEntry}
    (h : sle ∈ (deriveRows codec view settings ctx payload).sles) :
    ∃ rest, sle.id = ctx.sleStart ++ rest := by
  obtain ⟨raw, hraw, hid⟩ := List.mem_map.1
    (deriveRows_sles_sublist.subset (List.mem_map_of_mem (f := StockLedgerEntry.id) h))
  rw [← hid]
  exact deriveStockRows_start ctx payload hraw

/-- An invoice's tax legs among those of its own amounts. -/
theorem filter_deriveMonetaryGl (hdoctype : ctx.doctype ∈ totalledDoctypes) :
    (deriveMonetaryGl ctx payload).filter (GlEntry.isTaxLeg ctx.documentId) =
      taxLegs ctx payload (ctx.doctype ∈ salesDoctypes) := by
  have hpair : ∀ (first second : GlEntry) (tail tail' : String) (isOutput : Bool),
      first.id = ctx.glStart ++ tail → second.id = ctx.glStart ++ tail' →
      "-tax".toList.isPrefixOf tail.toList = false → "-tax".toList.isPrefixOf tail'.toList = false →
      ([first, second] ++ taxLegs ctx payload isOutput).filter (GlEntry.isTaxLeg ctx.documentId) =
        taxLegs ctx payload isOutput := by
    intro first second tail tail' isOutput hfirst hsecond htail htail'
    rw [List.filter_append, filter_taxLegs, List.filter_cons, isTaxLeg_tail hfirst, htail,
      List.filter_cons, isTaxLeg_tail hsecond, htail']
    rfl
  unfold deriveMonetaryGl
  simp only [totalledDoctypes, settleableDoctypes, List.cons_append, List.nil_append, List.mem_cons,
    List.not_mem_nil, or_false] at hdoctype
  rcases hdoctype with hsales | hpurchase | hpos
  · rw [hsales]
    exact hpair _ _ "-debit" "-credit" true rfl rfl (by decide) (by decide)
  · rw [hpurchase]
    exact hpair _ _ "-credit" "-debit" false rfl rfl (by decide) (by decide)
  · rw [hpos]
    exact hpair _ _ "-cash" "-income" true rfl rfl (by decide) (by decide)

/-- A Purchase Invoice keeps its tax legs when stock moves to GRNI. -/
theorem filter_purchaseInvoice (hdoctype : ctx.doctype = "Purchase Invoice") :
    (deriveRows codec view settings ctx payload).gl.filter (GlEntry.isTaxLeg ctx.documentId) =
      (taxLegs ctx payload false).map (stampGl payload) := by
  have hother : ∀ {entry : GlEntry} (tail : String), entry.id = ctx.glStart ++ tail →
      "-tax".toList.isPrefixOf tail.toList = false → ¬ entry.isTaxLeg ctx.documentId = true := by
    intro entry tail hid htail
    rw [isTaxLeg_tail hid, htail]
    exact Bool.false_ne_true
  have hexpense : ∀ items, (expenseLegs ctx items payload).filter (GlEntry.isTaxLeg ctx.documentId) = [] :=
    fun items => List.filter_eq_nil_iff.2 fun _ h => hother "-debit" (expenseLegs_id h) (by decide)
  have hgrni : ∀ items, (grniLegs ctx items settings payload).filter
      (GlEntry.isTaxLeg ctx.documentId) = [] :=
    fun items => List.filter_eq_nil_iff.2 fun _ h => hother "-grni" (grniLegs_id h) (by decide)
  rw [purchaseInvoice_legs hdoctype, List.filter_cons_of_neg (hother "-credit" rfl (by decide)),
    List.filter_append, List.filter_append, List.filter_append, hexpense, hgrni, List.nil_append,
    List.append_nil, filter_stockGlLegs _ _ fun _ => deriveRows_sles_start, List.append_nil,
    List.filter_map]
  exact congrArg (List.map (stampGl payload)) (filter_taxLegs false)

theorem taxLegs_deriveRows (hpurchase : ctx.doctype ≠ "Purchase Invoice") :
    glDifference ((deriveRows codec view settings ctx payload).gl.filter
        (GlEntry.isTaxLeg ctx.documentId)) =
      glDifference ((deriveMonetaryGl ctx payload).filter (GlEntry.isTaxLeg ctx.documentId)) := by
  have hstock : ∀ items, (stockGlLegs ctx (deriveRows codec view settings ctx payload).sles items
      settings).filter (GlEntry.isTaxLeg ctx.documentId) = [] :=
    fun items => filter_stockGlLegs items settings fun _ => deriveRows_sles_start
  simp only [deriveRows, if_neg hpurchase, List.filter_append] at hstock ⊢
  rw [hstock, List.append_nil]
  split_ifs
  · exact filter_stampGl _
  · rfl

/-- What the tax legs of an invoice come to. -/
theorem taxNet_invoice (hdoctype : ctx.doctype ∈ totalledDoctypes) :
    taxNet ctx.doctype ctx.documentId (deriveRows codec view settings ctx payload).gl =
      totalTax payload - unpostedTax payload := by
  have hnet : glDifference ((deriveRows codec view settings ctx payload).gl.filter
      (GlEntry.isTaxLeg ctx.documentId)) =
        glDifference (taxLegs ctx payload (ctx.doctype ∈ salesDoctypes)) := by
    by_cases hpurchase : ctx.doctype = "Purchase Invoice"
    · rw [filter_purchaseInvoice hpurchase, stampGl_difference, hpurchase]
      rfl
    · rw [taxLegs_deriveRows hpurchase, filter_deriveMonetaryGl hdoctype]
  rw [taxNet, hnet, taxLegs_difference]
  by_cases hsales : ctx.doctype ∈ salesDoctypes
  · simp only [hsales, decide_true, if_true, neg_sub]
  · simp only [hsales, decide_false, Bool.false_eq_true, if_false]

/-- What the tax leg of an Expense comes to. -/
theorem taxNet_expense (hdoctype : ctx.doctype = "Expense") :
    taxNet ctx.doctype ctx.documentId (deriveRows codec view settings ctx payload).gl =
      asNum (payload.get "tax_amount") := by
  have hsales : ctx.doctype ∉ salesDoctypes := by
    rw [hdoctype]
    decide
  have hdebit : ∀ entry : GlEntry, entry.id = ctx.glStart ++ "-debit" →
      entry.isTaxLeg ctx.documentId = false := fun _ hid => (isTaxLeg_tail hid).trans (by decide)
  have hcredit : ∀ entry : GlEntry, entry.id = ctx.glStart ++ "-credit" →
      entry.isTaxLeg ctx.documentId = false := fun _ hid => (isTaxLeg_tail hid).trans (by decide)
  have htax : ∀ entry : GlEntry, entry.id = ctx.glStart ++ "-tax" →
      entry.isTaxLeg ctx.documentId = true := fun _ hid => (isTaxLeg_tail hid).trans (by decide)
  rw [taxNet, if_neg hsales, taxLegs_deriveRows (by rw [hdoctype]; decide)]
  simp only [deriveMonetaryGl, hdoctype, List.filter_append, List.filter_cons, List.filter_nil]
  rw [hdebit _ rfl, hcredit _ rfl]
  by_cases hzero : asNum (payload.get "tax_amount") = 0
  · simp [hzero]
  · rw [if_pos hzero, List.filter_cons, htax _ rfl]
    simp

/-! ### The subledger -/

theorem sum_taxTransactions (partyType : String) (party : Option String) :
    ((taxTransactions ctx payload partyType party).map TaxTransaction.taxAmount).sum =
      totalTax payload := by
  rw [totalTax, ← objectRows_fst, taxTransactions, List.map_map, List.map_map]
  rfl

/-- The tax rows of a submit carry the whole tax. -/
theorem sum_deriveRows_tax (hdoctype : ctx.doctype ∈ taxedDoctypes) :
    ((deriveRows codec view settings ctx payload).tax.map TaxTransaction.taxAmount).sum =
      if ctx.doctype = "Expense" then asNum (payload.get "tax_amount") else totalTax payload := by
  have htax : (deriveRows codec view settings ctx payload).tax = (deriveSubledgerRows ctx payload).2 := rfl
  rw [htax, deriveSubledgerRows]
  simp only [taxedDoctypes, List.mem_cons, List.not_mem_nil, or_false] at hdoctype
  rcases hdoctype with hdoctype | hdoctype | hdoctype | hdoctype
  · simp only [hdoctype]
    exact sum_taxTransactions _ _
  · simp only [hdoctype]
    exact sum_taxTransactions _ _
  · simp only [hdoctype]
    exact sum_taxTransactions _ _
  · simp only [hdoctype, if_true]
    by_cases hzero : asNum (payload.get "tax_amount") = 0
    · simp [hzero]
    · rw [if_pos hzero]
      exact add_zero _

end Rows

/-! ### Accepted submits -/

theorem abs_droppedExpense_le (items : Items) (payload : Map) : |droppedExpense items payload| ≤ eps := by
  have hzero : |(0 : ℚ)| ≤ eps := by
    rw [abs_zero]
    norm_num [eps]
  simp only [droppedExpense]
  split_ifs with _ hrest
  · exact hzero
  · exact hrest.le
  · exact hzero

/-- A voucher within the tolerance leaves no more tax unposted. -/
theorem abs_unpostedTax_le {doctype : String} {items : Items} {payload : Map}
    (hdoctype : doctype ∈ totalledDoctypes) (h : |offBy doctype items payload| ≤ balanceTolerance) :
    |unpostedTax payload| ≤ balanceTolerance + eps := by
  have heps : 0 ≤ eps := by norm_num [eps]
  simp only [totalledDoctypes, settleableDoctypes, List.cons_append, List.nil_append, List.mem_cons,
    List.not_mem_nil, or_false] at hdoctype
  rcases hdoctype with rfl | rfl | rfl
  · exact h.trans (le_add_of_nonneg_right heps)
  · have hunposted : unpostedTax payload =
        -offBy "Purchase Invoice" items payload - droppedExpense items payload := by
      simp only [offBy]
      ring
    rw [hunposted]
    refine (abs_sub _ _).trans (add_le_add ?_ (abs_droppedExpense_le items payload))
    rwa [abs_neg]
  · exact h.trans (le_add_of_nonneg_right heps)

/-- The tax subledger rows of an accepted submit show what its tax legs post, within the tolerance of the
balance check and what may be dropped of an expense. -/
theorem tax_subledger_reconciles {codec : Codec} {view : StoreView} {env : Env} {companyId : Uuid}
    {cmd : SubmitCommand} {documentId : String} {actor : Actor} {commit : PostingCommit}
    (hdoctype : cmd.doctype ∈ ["Sales Invoice", "Purchase Invoice", "POS Invoice", "Expense"])
    (h : buildSubmit codec view env companyId cmd documentId actor = .ok commit) :
    |(commit.taxTransactions.map TaxTransaction.taxAmount).sum -
        taxNet cmd.doctype documentId commit.glEntries| ≤ 5 / 1000 + 1 / 10 ^ 7 := by
  have hbalanced := buildSubmit_balanced h
  obtain ⟨prepared, shortfalls, settlements, updates, -, -, -, rfl⟩ := buildSubmit_ok h
  let ctx := submitContext companyId cmd documentId prepared.postingDate
  have hrows : ((deriveRows codec view (view.companySettings companyId) ctx prepared.payload).tax.map
      TaxTransaction.taxAmount).sum = _ := sum_deriveRows_tax hdoctype
  refine (congrArg (fun taxes => |taxes - taxNet ctx.doctype ctx.documentId
    (deriveRows codec view (view.companySettings companyId) ctx prepared.payload).gl|) hrows).trans_le ?_
  by_cases hexpense : ctx.doctype = "Expense"
  · rw [if_pos hexpense, taxNet_expense hexpense, sub_self, abs_zero]
    norm_num
  · have hinvoice : ctx.doctype ∈ totalledDoctypes := by
      simp only [List.mem_cons, List.not_mem_nil, or_false] at hdoctype
      rcases hdoctype with hdoctype | hdoctype | hdoctype | hdoctype
      · exact List.mem_of_elem_eq_true (by rw [show ctx.doctype = _ from hdoctype]; decide)
      · exact List.mem_of_elem_eq_true (by rw [show ctx.doctype = _ from hdoctype]; decide)
      · exact List.mem_of_elem_eq_true (by rw [show ctx.doctype = _ from hdoctype]; decide)
      · exact absurd hdoctype hexpense
    have hoff : |glDifference (deriveRows codec view (view.companySettings companyId) ctx
        prepared.payload).gl| ≤ balanceTolerance := hbalanced
    rw [deriveRows_difference] at hoff
    rw [if_neg hexpense, taxNet_invoice hinvoice, sub_sub_cancel]
    exact abs_unpostedTax_le hinvoice hoff

/-- An invoice of 100 with a tax of 20 and half a cent that names no account. -/
def looseTaxInvoice : SubmitCommand where
  doctype := "Sales Invoice"
  documentId := some "INV-1"
  payload := [("posting_date", .string "2026-01-05"), ("customer", .string "C-1"),
    ("grand_total", .num (120005 / 1000)),
    ("taxes", .array
      [.obj [("tax_account", .string "VAT"), ("taxable_amount", .int 100), ("rate", .int 20),
          ("tax_amount", .int 20)],
        .obj [("tax_amount", .num (5 / 1000))]])]
  items := [.obj [("qty", .int 1), ("rate", .int 100)]]
  idempotencyKey := none
  offlineFiscal := false

/-- The tolerance is used up. -/
theorem tax_subledger_reconciles_loose :
    ∃ commit, buildSubmit serdeCodec tenTea stockDay 1 looseTaxInvoice "INV-1" stockClerk = .ok commit ∧
      (commit.taxTransactions.map TaxTransaction.taxAmount).sum -
        taxNet looseTaxInvoice.doctype "INV-1" commit.glEntries = 5 / 1000 ∧
      |(commit.taxTransactions.map TaxTransaction.taxAmount).sum -
        taxNet looseTaxInvoice.doctype "INV-1" commit.glEntries| ≤ 5 / 1000 + 1 / 10 ^ 7 := by
  have hsums : (buildSubmit serdeCodec tenTea stockDay 1 looseTaxInvoice "INV-1" stockClerk).toOption.map
      (fun commit => (commit.taxTransactions.map TaxTransaction.taxAmount).sum -
        taxNet looseTaxInvoice.doctype "INV-1" commit.glEntries) = some (5 / 1000) := by decide +kernel
  have hdoctype : looseTaxInvoice.doctype ∈
      ["Sales Invoice", "Purchase Invoice", "POS Invoice", "Expense"] := List.mem_cons_self
  obtain ⟨commit, hbuild, hloose⟩ := Except.map_toOption.1 hsums
  exact ⟨commit, hbuild, hloose, tax_subledger_reconciles hdoctype hbuild⟩

end AtlasTeam
