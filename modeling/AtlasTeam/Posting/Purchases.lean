import AtlasTeam.Posting.InvoiceTotals
import AtlasTeam.Posting.StockLegs

/-!
# The legs of a Purchase Invoice

`purchaseInvoice_legs` writes out the GL rows of a Purchase Invoice: what is owed, what is left of the
expense once the stock lines have moved to GRNI, the taxes, the legs of the stock rows and the GRNI leg.
-/

namespace AtlasTeam

section Legs
variable (ctx : RowContext) (items : Items) (settings : CompanySettings) (payload : Map)

def owedLeg : GlEntry :=
  stampGl payload (ctx.gl s!"GL-{ctx.documentId}-credit" (accountField payload "credit_to") 0
    (asNum (payload.get "grand_total")) (some "Supplier") (asNonEmpty (payload.get "supplier")))

def expenseLeg (amount : ℚ) : GlEntry :=
  stampGl payload (ctx.gl s!"GL-{ctx.documentId}-debit" (accountField payload "expense_account") amount
    0 none none)

/-- What is left of the expense leg. -/
def expenseLegs : List GlEntry :=
  let rest := netAmount payload - stockNet items payload
  if |stockNet items payload| < eps then [expenseLeg ctx payload (netAmount payload)]
  else if |rest| < eps then [] else [expenseLeg ctx payload rest]

/-- The clearing side of the stock lines. -/
def grniLegs : List GlEntry :=
  if |stockNet items payload| < eps then []
  else [{ ctx.gl s!"GL-{ctx.documentId}-grni" settings.defaultGrniAccount (stockNet items payload) 0
      none none with
    currency := asNonEmpty (payload.get "currency")
    conversionRate := some (conversionRateOf payload)
    baseDebit := some (stockNet items payload * conversionRateOf payload)
    baseCredit := some 0 }]

end Legs

section Purchase
variable {codec : Codec} {view : StoreView} {settings : CompanySettings} {ctx : RowContext}
  {payload : Map}

theorem legId_ne {document first second : String} (h : first ≠ second) :
    "GL-" ++ document ++ first ≠ "GL-" ++ document ++ second :=
  fun heq => h ((String.append_right_inj _).1 heq)

theorem expenseLegs_id {items : Items} {entry : GlEntry} (h : entry ∈ expenseLegs ctx items payload) :
    entry.id = ctx.glStart ++ "-debit" := by
  simp only [expenseLegs] at h
  split_ifs at h
  · obtain rfl := List.mem_singleton.1 h
    rfl
  · exact absurd h List.not_mem_nil
  · obtain rfl := List.mem_singleton.1 h
    rfl

theorem grniLegs_id {items : Items} {entry : GlEntry} (h : entry ∈ grniLegs ctx items settings payload) :
    entry.id = ctx.glStart ++ "-grni" := by
  simp only [grniLegs] at h
  split_ifs at h
  · exact absurd h List.not_mem_nil
  · obtain rfl := List.mem_singleton.1 h
    rfl

/-- What the expense leg posts. -/
theorem expenseLegs_difference (items : Items) : glDifference (expenseLegs ctx items payload) =
    if |stockNet items payload| < eps then netAmount payload
    else if |netAmount payload - stockNet items payload| < eps then 0
    else netAmount payload - stockNet items payload := by
  have hleg : ∀ amount, glDifference [expenseLeg ctx payload amount] = amount := fun amount => by
    rw [glDifference_cons, glDifference_nil, add_zero]
    exact sub_zero amount
  simp only [expenseLegs]
  split_ifs
  · exact hleg _
  · exact glDifference_nil
  · exact hleg _

/-- The stock value comes off the expense leg, which goes with the last of its amount. -/
theorem reduceExpense_legs (amount net : ℚ) (legs : List GlEntry) :
    reduceExpense s!"GL-{ctx.documentId}-debit" net (conversionRateOf payload)
        (owedLeg ctx payload :: expenseLeg ctx payload amount :: legs) =
      owedLeg ctx payload :: ((if |amount - net| < eps then [] else
        [expenseLeg ctx payload (amount - net)]) ++ legs) := by
  have howed : (owedLeg ctx payload).id ≠ s!"GL-{ctx.documentId}-debit" := legId_ne (by decide)
  have hexpense : (expenseLeg ctx payload amount).id = s!"GL-{ctx.documentId}-debit" := rfl
  have hzero : |(expenseLeg ctx payload amount).credit| < eps := by
    simp [expenseLeg, stampGl, RowContext.gl, eps]
  have hdebit : (expenseLeg ctx payload amount).debit = amount := rfl
  simp only [reduceExpense, if_neg howed, hexpense, if_true, hzero, and_true, hdebit]
  split_ifs
  · rfl
  · rfl

theorem purchaseInvoice_legs (hdoctype : ctx.doctype = "Purchase Invoice") :
    let raw := deriveStockRows ctx payload
    let items := loadItems codec view ctx.companyId raw payload
    let rows := deriveRows codec view settings ctx payload
    rows.gl = owedLeg ctx payload :: (expenseLegs ctx items payload ++
      ((taxLegs ctx payload false).map (stampGl payload) ++
        (stockGlLegs ctx rows.sles items settings ++ grniLegs ctx items settings payload))) := by
  intro raw items rows
  have hmonetary : (deriveMonetaryGl ctx payload).map (stampGl payload) =
      owedLeg ctx payload :: expenseLeg ctx payload (netAmount payload) ::
        (taxLegs ctx payload false).map (stampGl payload) := by
    simp only [deriveMonetaryGl, hdoctype]
    rfl
  have hstamped : isBaseStamped "Purchase Invoice" = true := by decide
  have hgl : rows.gl = splitGrniFromExpense ctx (owedLeg ctx payload ::
      expenseLeg ctx payload (netAmount payload) :: ((taxLegs ctx payload false).map (stampGl payload) ++
        stockGlLegs ctx rows.sles items settings)) payload items settings := by
    simp only [rows, deriveRows, hdoctype, hstamped, if_true, stampBaseAmounts, hmonetary]
    rfl
  rw [hgl, expenseLegs, grniLegs]
  by_cases hsmall : |stockNet items payload| < eps
  · rw [if_pos hsmall, if_pos hsmall, List.append_nil]
    exact if_pos hsmall
  · rw [if_neg hsmall, if_neg hsmall]
    refine (if_neg hsmall).trans ((congrArg (· ++ _) (reduceExpense_legs (netAmount payload)
      (stockNet items payload) _)).trans ?_)
    rw [List.cons_append, List.append_assoc, List.append_assoc]
    rfl

end Purchase

end AtlasTeam
