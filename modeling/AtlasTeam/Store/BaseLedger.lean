import AtlasTeam.Posting.Purchases
import AtlasTeam.Store.StockValues

/-!
# The ledger in base currency

The legs of a base-stamped voucher carry their amounts in base currency: those of its own amounts at the
voucher's rate, those of its stock rows at one. A voucher's base columns are off by its rate times what its
transaction columns are off, and only the transaction columns are checked.
-/

namespace AtlasTeam

/-- The leg carries its amounts in base currency. -/
def GlEntry.carriesBase (entry : GlEntry) : Bool := entry.baseDebit.isSome && entry.baseCredit.isSome

def GlEntry.baseDifference (entry : GlEntry) : ℚ := entry.baseDebit.getD 0 - entry.baseCredit.getD 0

/-- Base debits less base credits. -/
def baseDifference (rows : List GlEntry) : ℚ := (rows.map GlEntry.baseDifference).sum

@[simp] theorem baseDifference_nil : baseDifference [] = 0 := rfl

@[simp] theorem baseDifference_cons (entry : GlEntry) (rows : List GlEntry) :
    baseDifference (entry :: rows) = entry.baseDifference + baseDifference rows :=
  List.sum_cons

@[simp] theorem baseDifference_append (rows rows' : List GlEntry) :
    baseDifference (rows ++ rows') = baseDifference rows + baseDifference rows' := by
  rw [baseDifference, List.map_append, List.sum_append]
  rfl

/-- The base amounts of a leg are its amounts at a rate. -/
structure GlEntry.AtRate (rate : ℚ) (entry : GlEntry) : Prop where
  debit : entry.baseDebit = some (entry.debit * rate)
  credit : entry.baseCredit = some (entry.credit * rate)

namespace GlEntry.AtRate
variable {rate : ℚ} {entry : GlEntry}

theorem carriesBase (h : entry.AtRate rate) : entry.carriesBase = true := by
  rw [GlEntry.carriesBase, h.debit, h.credit]
  rfl

theorem baseDifference (h : entry.AtRate rate) : entry.baseDifference = rate * entry.difference := by
  rw [GlEntry.baseDifference, h.debit, h.credit, Option.getD_some, Option.getD_some, GlEntry.difference]
  ring

end GlEntry.AtRate

/-- Legs at one rate are off by this rate times what their amounts are off. -/
theorem baseDifference_atRate {rate : ℚ} {rows : List GlEntry} (h : ∀ entry ∈ rows, entry.AtRate rate) :
    baseDifference rows = rate * glDifference rows := by
  induction rows with
  | nil => simp
  | cons entry rows ih =>
    obtain ⟨hentry, hrows⟩ := List.forall_mem_cons.1 h
    rw [baseDifference_cons, glDifference_cons, hentry.baseDifference, ih hrows, mul_add]

/-! ### The legs of a submit -/

section Legs
variable {ctx : RowContext} {payload : Map}

theorem stampGl_atRate (entry : GlEntry) : (stampGl payload entry).AtRate (conversionRateOf payload) :=
  ⟨rfl, rfl⟩

theorem stockGlLegs_atRate {sles : List StockLedgerEntry} {items : Items} {settings : CompanySettings}
    {entry : GlEntry} (h : entry ∈ stockGlLegs ctx sles items settings) : entry.AtRate 1 := by
  obtain ⟨sle, -, account, amount, rfl | rfl⟩ := mem_stockGlLegs h
  · exact ⟨congrArg some (mul_one _).symm, congrArg some (mul_one _).symm⟩
  · exact ⟨congrArg some (mul_one _).symm, congrArg some (mul_one _).symm⟩

theorem grniLegs_atRate {items : Items} {settings : CompanySettings} {entry : GlEntry}
    (h : entry ∈ grniLegs ctx items settings payload) : entry.AtRate (conversionRateOf payload) := by
  simp only [grniLegs] at h
  split_ifs at h
  · exact absurd h List.not_mem_nil
  · obtain rfl := List.mem_singleton.1 h
    exact ⟨rfl, congrArg some (zero_mul _).symm⟩

theorem expenseLegs_atRate {items : Items} {entry : GlEntry} (h : entry ∈ expenseLegs ctx items payload) :
    entry.AtRate (conversionRateOf payload) := by
  simp only [expenseLegs] at h
  split_ifs at h
  · obtain rfl := List.mem_singleton.1 h
    exact stampGl_atRate _
  · exact absurd h List.not_mem_nil
  · obtain rfl := List.mem_singleton.1 h
    exact stampGl_atRate _

end Legs

section Rows
variable {codec : Codec} {view : StoreView} {settings : CompanySettings} {ctx : RowContext}
  {payload : Map}

/-- The rows of a base-stamped voucher: the legs of its stock movements stand among legs at its rate. -/
theorem deriveRows_atRate (hstamped : isBaseStamped ctx.doctype = true) :
    ∃ before items after, (deriveRows codec view settings ctx payload).gl = before ++
        (stockGlLegs ctx (deriveRows codec view settings ctx payload).sles items settings ++ after) ∧
      ∀ entry ∈ before ++ after, entry.AtRate (conversionRateOf payload) := by
  let items := loadItems codec view ctx.companyId (deriveStockRows ctx payload) payload
  by_cases hpurchase : ctx.doctype = "Purchase Invoice"
  · refine ⟨owedLeg ctx payload :: (expenseLegs ctx items payload ++
      (taxLegs ctx payload false).map (stampGl payload)), items, grniLegs ctx items settings payload,
      ?_, fun entry hentry => ?_⟩
    · rw [purchaseInvoice_legs hpurchase, List.cons_append, List.append_assoc]
    · simp only [List.mem_append, List.mem_cons] at hentry
      rcases hentry with (rfl | hexpense | htax) | hgrni
      · exact stampGl_atRate _
      · exact expenseLegs_atRate hexpense
      · obtain ⟨leg, -, rfl⟩ := List.mem_map.1 htax
        exact stampGl_atRate leg
      · exact grniLegs_atRate hgrni
  · refine ⟨(deriveMonetaryGl ctx payload).map (stampGl payload), items, [], ?_, fun entry hentry => ?_⟩
    · simp only [deriveRows, if_neg hpurchase, hstamped, if_true, stampBaseAmounts, List.append_nil]
      rfl
    · rw [List.append_nil] at hentry
      obtain ⟨leg, -, rfl⟩ := List.mem_map.1 hentry
      exact stampGl_atRate leg

/-- Every leg carries base amounts, and the base columns are off by the rate times what the others are. -/
theorem deriveRows_base (hstamped : isBaseStamped ctx.doctype = true) :
    (∀ entry ∈ (deriveRows codec view settings ctx payload).gl, entry.carriesBase = true) ∧
      baseDifference (deriveRows codec view settings ctx payload).gl =
        conversionRateOf payload * glDifference (deriveRows codec view settings ctx payload).gl := by
  obtain ⟨before, items, after, hgl, hrate⟩ := @deriveRows_atRate codec view settings ctx payload hstamped
  constructor
  · intro entry hentry
    rw [hgl, List.mem_append, List.mem_append] at hentry
    rcases hentry with hbefore | hstock | hafter
    · exact (hrate entry (List.mem_append_left _ hbefore)).carriesBase
    · exact (stockGlLegs_atRate hstock).carriesBase
    · exact (hrate entry (List.mem_append_right _ hafter)).carriesBase
  · rw [hgl, baseDifference_append, baseDifference_append, glDifference_append, glDifference_append,
      baseDifference_atRate fun _ h => hrate _ (List.mem_append_left _ h),
      baseDifference_atRate fun _ h => stockGlLegs_atRate h,
      baseDifference_atRate fun _ h => hrate _ (List.mem_append_right _ h), stockGlLegs_difference]
    ring

end Rows

/-! ### Accepted submits -/

/-- Doctypes whose legs carry base amounts. -/
def stampedDoctypes : List String := ["Sales Invoice", "Purchase Invoice", "Payment Entry", "Journal Entry"]

/-- A payload with the grand total it posts. -/
def totalled (payload : Map) : Map := payload.insert "grand_total" (.num (statedGrand payload))

section Submit
variable {codec : Codec} {view : StoreView} {env : Env} {companyId : Uuid} {cmd : SubmitCommand}
  {documentId : String} {actor : Actor} {commit : PostingCommit} {prepared : Prepared}

/-- What the legs of a submit are off by can be read off what was sent. -/
theorem offBy_sent (hdoctype : cmd.doctype ∈ stampedDoctypes)
    (hprepared : preparePayload view env companyId cmd documentId = .ok prepared) (items : Items) :
    offBy cmd.doctype items prepared.payload =
      offBy cmd.doctype items (totalled (cmd.payload.insert "items" (.array cmd.items))) := by
  have hsent : cmd.doctype ≠ "Payment Entry" → ∀ field ∉ "posting_date" :: preparedFields,
      prepared.payload.get field =
        (totalled (cmd.payload.insert "items" (.array cmd.items))).get field := by
    intro hpayment field hfield
    have hgrand : field ≠ "grand_total" := by
      rintro rfl
      exact hfield (by decide)
    rw [preparePayload_sent hpayment hprepared hfield, totalled, Map.get_insert_ne _ hgrand]
  have hunposted : cmd.doctype ≠ "Payment Entry" → unpostedTax prepared.payload =
      unpostedTax (totalled (cmd.payload.insert "items" (.array cmd.items))) := by
    intro hpayment
    rw [unpostedTax, unpostedTax, arrayOf, arrayOf, hsent hpayment "taxes" (by decide)]
  simp only [stampedDoctypes, List.mem_cons, List.not_mem_nil, or_false] at hdoctype
  rcases hdoctype with hsales | hpurchase | hpayment | hjournal
  · rw [hsales]
    exact hunposted (by rw [hsales]; decide)
  · have hother : cmd.doctype ≠ "Payment Entry" := by
      rw [hpurchase]
      decide
    have hgrand := preparePayload_grand (by rw [hpurchase]; decide) hprepared
    have hstock : stockNet items prepared.payload =
        stockNet items (totalled (cmd.payload.insert "items" (.array cmd.items))) := by
      rw [stockNet, stockNet, itemsOf, itemsOf, arrayOf, arrayOf, hsent hother "items" (by decide)]
    have hnet : netAmount prepared.payload =
        netAmount (totalled (cmd.payload.insert "items" (.array cmd.items))) := by
      rw [netAmount, netAmount, totalTax, totalTax, arrayOf, arrayOf, hsent hother "taxes" (by decide),
        hgrand, totalled, Map.get_insert_self, asNum_num]
    rw [hpurchase]
    simp only [offBy, droppedExpense, hunposted hother, hstock, hnet]
  · rw [hpayment]
    rfl
  · rw [hjournal]
    simp only [offBy, journalRows, arrayOf, hsent (by rw [hjournal]; decide) "accounts" (by decide)]

theorem buildSubmit_offBy (hdoctype : cmd.doctype ∈ stampedDoctypes)
    (hprepared : preparePayload view env companyId cmd documentId = .ok prepared)
    (h : buildSubmit codec view env companyId cmd documentId actor = .ok commit) :
    |offBy cmd.doctype (submitItems codec view companyId cmd documentId prepared)
      (totalled (cmd.payload.insert "items" (.array cmd.items)))| ≤ balanceTolerance := by
  have hbalanced := buildSubmit_balanced h
  obtain ⟨prepared', shortfalls, settlements, updates, hprepared', -, -, rfl⟩ := buildSubmit_ok h
  obtain rfl := Except.ok.inj (hprepared.symm.trans hprepared')
  have hoff : |glDifference (deriveRows codec view (view.companySettings companyId)
      (submitContext companyId cmd documentId prepared.postingDate) prepared.payload).gl| ≤
        balanceTolerance := hbalanced
  rw [deriveRows_difference] at hoff
  rw [← offBy_sent hdoctype hprepared]
  exact hoff

/-- The base columns of an accepted submit are off by the rate times what its payload is off. -/
theorem buildSubmit_base (hdoctype : cmd.doctype ∈ stampedDoctypes)
    (hprepared : preparePayload view env companyId cmd documentId = .ok prepared)
    (h : buildSubmit codec view env companyId cmd documentId actor = .ok commit) :
    (∀ entry ∈ commit.glEntries, entry.carriesBase = true) ∧
      baseDifference commit.glEntries = conversionRateOf cmd.payload *
        offBy cmd.doctype (submitItems codec view companyId cmd documentId prepared)
          (totalled (cmd.payload.insert "items" (.array cmd.items))) := by
  obtain ⟨prepared', shortfalls, settlements, updates, hprepared', -, -, rfl⟩ := buildSubmit_ok h
  obtain rfl := Except.ok.inj (hprepared.symm.trans hprepared')
  have hstamped : isBaseStamped cmd.doctype = true := by
    rw [isBaseStamped, decide_eq_true_iff]
    exact hdoctype
  obtain ⟨hcarries, hbase⟩ := @deriveRows_base codec view (view.companySettings companyId)
    (submitContext companyId cmd documentId prepared.postingDate) prepared.payload hstamped
  refine ⟨hcarries, hbase.trans ?_⟩
  rw [deriveRows_difference]
  refine (congrArg (conversionRateOf prepared.payload * ·) (offBy_sent hdoctype hprepared _)).trans ?_
  by_cases hpayment : cmd.doctype = "Payment Entry"
  · rw [hpayment]
    exact (mul_zero _).trans (mul_zero _).symm
  · have hrate : conversionRateOf prepared.payload = conversionRateOf cmd.payload := by
      rw [conversionRateOf, conversionRateOf, preparePayload_field hpayment hprepared (by decide)]
    rw [hrate]
    rfl

theorem conversionRateOf_pos (payload : Map) : 0 < conversionRateOf payload := by
  simp only [conversionRateOf]
  split_ifs with hrate
  · exact hrate
  · exact one_pos

/-- The base ledger of an accepted submit balances if and only if the rate times what the payload is off is
within the tolerance, as it always is at a rate of at most one: the balance check does not see the rate. -/
theorem base_ledger_balances_iff
    (hdoctype : cmd.doctype ∈ ["Sales Invoice", "Purchase Invoice", "Payment Entry", "Journal Entry"])
    (hprepared : preparePayload view env companyId cmd documentId = .ok prepared)
    (h : buildSubmit codec view env companyId cmd documentId actor = .ok commit) :
    (((∀ entry ∈ commit.glEntries, entry.carriesBase = true) ∧
        |baseDifference commit.glEntries| ≤ 5 / 1000) ↔
      conversionRateOf cmd.payload *
        |offBy cmd.doctype (submitItems codec view companyId cmd documentId prepared)
          (totalled (cmd.payload.insert "items" (.array cmd.items)))| ≤ 5 / 1000) ∧
    (conversionRateOf cmd.payload ≤ 1 → |baseDifference commit.glEntries| ≤ 5 / 1000) := by
  obtain ⟨hcarries, hbase⟩ := buildSubmit_base hdoctype hprepared h
  have hpos := conversionRateOf_pos cmd.payload
  have habs : |baseDifference commit.glEntries| = conversionRateOf cmd.payload *
      |offBy cmd.doctype (submitItems codec view companyId cmd documentId prepared)
        (totalled (cmd.payload.insert "items" (.array cmd.items)))| := by
    rw [hbase, abs_mul, abs_of_pos hpos]
  rw [habs]
  refine ⟨⟨fun hbalances => hbalances.2, fun hsmall => ⟨hcarries, hsmall⟩⟩, fun hrate => ?_⟩
  have hoff := buildSubmit_offBy hdoctype hprepared h
  calc _ ≤ 1 * |offBy cmd.doctype (submitItems codec view companyId cmd documentId prepared)
        (totalled (cmd.payload.insert "items" (.array cmd.items)))| :=
        mul_le_mul_of_nonneg_right hrate (abs_nonneg _)
    _ ≤ 5 / 1000 := by rwa [one_mul]

end Submit

/-- A Journal Entry at a foreign rate whose debits are 0.004 above its credits. -/
def fxJournal (rate : ℚ) : SubmitCommand where
  doctype := "Journal Entry"
  documentId := some "JE-1"
  payload := [("posting_date", .string "2026-01-05"), ("conversion_rate", .num rate),
    ("accounts", .array
      [.obj [("account", .string "Cash"), ("debit", .num (100004 / 1000))],
        .obj [("account", .string "Sales"), ("credit", .int 100)]])]
  items := []
  idempotencyKey := none
  offlineFiscal := false

/-- At a rate of 1.25 the base ledger is within the tolerance. -/
theorem base_ledger_balances_iff_journal :
    ∃ commit, buildSubmit serdeCodec tenTea stockDay 1 (fxJournal (5 / 4)) "JE-1" stockClerk = .ok commit ∧
      (∀ entry ∈ commit.glEntries, entry.carriesBase = true) ∧
      |baseDifference commit.glEntries| ≤ 5 / 1000 := by
  have hbuilt : (buildSubmit serdeCodec tenTea stockDay 1 (fxJournal (5 / 4)) "JE-1"
      stockClerk).toOption.isSome = true := by decide +kernel
  obtain ⟨commit, hbuild⟩ := Except.isSome_toOption.1 hbuilt
  obtain ⟨prepared, -, -, -, hprepared, -⟩ := buildSubmit_ok hbuild
  have hdoctype : (fxJournal (5 / 4)).doctype ∈
      ["Sales Invoice", "Purchase Invoice", "Payment Entry", "Journal Entry"] := by decide
  have hoff : ∀ items, conversionRateOf (fxJournal (5 / 4)).payload * |offBy (fxJournal (5 / 4)).doctype
      items (totalled ((fxJournal (5 / 4)).payload.insert "items" (.array [])))| ≤ 5 / 1000 := by
    intro items
    simp only [offBy, fxJournal]
    decide +kernel
  exact ⟨commit, hbuild, (base_ledger_balances_iff hdoctype hprepared hbuild).1.2 (hoff _)⟩

/-- At a rate of 100 it is 0.4 off. -/
theorem base_ledger_off :
    ∃ commit, buildSubmit serdeCodec tenTea stockDay 1 (fxJournal 100) "JE-1" stockClerk = .ok commit ∧
      baseDifference commit.glEntries = 4 / 10 ∧
      ¬ ((∀ entry ∈ commit.glEntries, entry.carriesBase = true) ∧
        |baseDifference commit.glEntries| ≤ 5 / 1000) := by
  have hoff : (buildSubmit serdeCodec tenTea stockDay 1 (fxJournal 100) "JE-1" stockClerk).toOption.map
      (fun commit => baseDifference commit.glEntries) = some (4 / 10) := by decide +kernel
  obtain ⟨commit, hbuild, hbase⟩ := Except.map_toOption.1 hoff
  refine ⟨commit, hbuild, hbase, fun hbalances => ?_⟩
  have hsmall := hbalances.2
  rw [hbase] at hsmall
  norm_num at hsmall

end AtlasTeam
