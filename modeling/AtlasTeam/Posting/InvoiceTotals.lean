import AtlasTeam.Posting.Balance
import AtlasTeam.Posting.Prepared
import AtlasTeam.Posting.Rounding
import AtlasTeam.Posting.Settlements

/-!
# How far an invoice's totals can be off (`posting/engine.rs`)

The totals of an invoice are recomputed from its lines and tax rows. A client may state line amounts and a
grand total of its own within a tolerance: each line amount within half a cent of its quantity times its rate,
the grand total within half a cent a line of the recomputation, which rounds the lines' sum and the tax's.
Added up, what posts is within a cent a line and one more cent of what lines and taxes come to
(`invoice_totals_bounded`).
-/

namespace AtlasTeam

/-- What the lines come to, each rounded to cents. -/
def linesTotal (payload : Map) : ℚ :=
  ((objectRows (itemsOf payload)).map fun entry =>
    round2 (asNum (entry.1.get "qty") * asNum (entry.1.get "rate"))).sum

def lineCount (payload : Map) : Nat := (objectRows (itemsOf payload)).length

/-- The tax that is not in the prices: all of it or, where the prices include tax, what is withheld. -/
def taxOnTop (payload : Map) : ℚ :=
  ((((arrayOf payload "taxes").filterMap Value.asObject).filter fun row =>
    !isTrue (payload.get "prices_include_tax") || isWithholding row).map fun row =>
      asNum (row.get "tax_amount")).sum

/-! ### The checks -/

theorem lineTotal_ok {acc acc' : ℚ × Nat} {entry : Map × Nat} (h : lineTotal acc entry = .ok acc') :
    acc'.2 = acc.2 + 1 ∧
      |acc'.1 - acc.1 - round2 (asNum (entry.1.get "qty") * asNum (entry.1.get "rate"))| ≤ moneyEps := by
  have hderived : ∀ amount : ℚ, acc.1 + amount - acc.1 - amount = 0 := fun amount => by ring
  have heps : (0 : ℚ) ≤ moneyEps := by norm_num [moneyEps]
  unfold lineTotal at h
  dsimp only at h
  split at h
  · obtain rfl := Except.ok.inj h
    exact ⟨rfl, by rwa [hderived, abs_zero]⟩
  · obtain rfl := Except.ok.inj h
    exact ⟨rfl, by rwa [hderived, abs_zero]⟩
  · split_ifs at h with hfar
    obtain rfl := Except.ok.inj h
    refine ⟨rfl, ?_⟩
    rw [add_sub_cancel_left]
    exact not_lt.1 hfar

/-- The amounts of the lines are each half a cent off at most. -/
theorem foldlM_lineTotal {lines : List (Map × Nat)} {acc acc' : ℚ × Nat}
    (h : lines.foldlM lineTotal acc = .ok acc') :
    acc'.2 = acc.2 + lines.length ∧
      |acc'.1 - acc.1 - (lines.map fun entry =>
        round2 (asNum (entry.1.get "qty") * asNum (entry.1.get "rate"))).sum| ≤
          moneyEps * lines.length := by
  induction lines generalizing acc with
  | nil =>
    obtain rfl := Except.ok.inj h
    simp
  | cons entry lines ih =>
    rw [List.foldlM_cons, Except.bind_eq_ok] at h
    obtain ⟨mid, hline, hrest⟩ := h
    obtain ⟨hcount, hnear⟩ := lineTotal_ok hline
    obtain ⟨hcounts, hnears⟩ := ih hrest
    refine ⟨by rw [hcounts, hcount, List.length_cons]; omega, ?_⟩
    rw [List.map_cons, List.sum_cons, List.length_cons]
    push_cast
    rw [mul_add, mul_one]
    have hsum := abs_add_le (acc'.1 - mid.1 - (lines.map fun entry =>
        round2 (asNum (entry.1.get "qty") * asNum (entry.1.get "rate"))).sum)
      (mid.1 - acc.1 - round2 (asNum (entry.1.get "qty") * asNum (entry.1.get "rate")))
    refine (le_of_eq ?_).trans (hsum.trans (add_le_add hnears hnear))
    congr 1
    ring

/-- A stated total is within its tolerance. -/
theorem statedTotal_near {payload : Map} {field source : String} {computed tolerance total : ℚ}
    (htolerance : 0 ≤ tolerance)
    (h : statedTotal payload field computed tolerance source = .ok total) :
    |total - computed| ≤ tolerance := by
  unfold statedTotal at h
  split at h
  · split_ifs at h with hfar
    obtain rfl := Except.ok.inj h
    exact not_lt.1 hfar
  · obtain rfl := Except.ok.inj h
    rwa [sub_self, abs_zero]

/-- The tax in the prices and the tax on top are the whole tax. -/
theorem extracted_add_taxOnTop (payload : Map) :
    ((((arrayOf payload "taxes").filterMap Value.asObject).filter fun row =>
        isTrue (payload.get "prices_include_tax") && !isWithholding row).map fun row =>
          asNum (row.get "tax_amount")).sum + taxOnTop payload = totalTax payload := by
  rw [taxOnTop, totalTax]
  induction (arrayOf payload "taxes").filterMap Value.asObject with
  | nil => simp
  | cons row rows ih =>
    rw [List.map_cons, List.sum_cons, ← ih]
    cases hinclusive : isTrue (payload.get "prices_include_tax") <;>
      cases hwithheld : isWithholding row <;> simp [hwithheld] <;> ring

/-- The payload carries the total that was held against the tolerance, whether it was sent or derived. -/
theorem grand_carried {payload : Map} {grand computed tolerance : ℚ} {source : String} (track : Bool)
    (h : statedTotal payload "grand_total" computed tolerance source = .ok grand) :
    let stated :=
      if (sentNumber payload "grand_total").isNone then payload.insert "grand_total" (.num grand)
      else payload
    let kept := stated.remove "outstanding_amount"
    asNum ((if track then kept.insert "outstanding_amount" (.num grand) else kept).get "grand_total") =
      grand := by
  intro stated kept
  have hne : ("grand_total" : String) ≠ "outstanding_amount" := by decide
  have hget : (if track then kept.insert "outstanding_amount" (.num grand) else kept).get "grand_total" =
      stated.get "grand_total" := by
    split_ifs
    · rw [Map.get_insert_ne _ hne, Map.get_remove_ne _ hne]
    · exact Map.get_remove_ne _ hne
  rw [hget]
  rcases statedTotal_ok h with hsent | ⟨hsent, -⟩
  · simp only [stated, hsent, Option.isNone_some, Bool.false_eq_true, if_false]
    exact sentNumber_eq_some hsent
  · simp only [stated, hsent, Option.isNone_none, if_true, Map.get_insert_self, asNum_num]

/-! ### The grand total that posts -/

/-- The lines' amounts as they are stated. -/
def statedLines (payload : Map) : ℚ :=
  (((itemsOf payload).filterMap Value.asObject).map lineAmount).sum

/-- The grand total as it is stated, or what lines and taxes come to. -/
def statedGrand (payload : Map) : ℚ :=
  (sentNumber payload "grand_total").getD (round2 (round2 (statedLines payload -
    (totalTax payload - taxOnTop payload)) + round2 (totalTax payload)))

section Congr
variable {payload payload' : Map}

theorem statedLines_congr (hitems : payload.get "items" = payload'.get "items") :
    statedLines payload = statedLines payload' := by
  rw [statedLines, statedLines, itemsOf, itemsOf, arrayOf, arrayOf, hitems]

theorem totalTax_congr (htaxes : payload.get "taxes" = payload'.get "taxes") :
    totalTax payload = totalTax payload' := by
  rw [totalTax, totalTax, arrayOf, arrayOf, htaxes]

theorem taxOnTop_congr (htaxes : payload.get "taxes" = payload'.get "taxes")
    (hprices : payload.get "prices_include_tax" = payload'.get "prices_include_tax") :
    taxOnTop payload = taxOnTop payload' := by
  rw [taxOnTop, taxOnTop, arrayOf, arrayOf, htaxes, hprices]

theorem statedGrand_congr (hgrand : payload.get "grand_total" = payload'.get "grand_total")
    (hitems : payload.get "items" = payload'.get "items")
    (htaxes : payload.get "taxes" = payload'.get "taxes")
    (hprices : payload.get "prices_include_tax" = payload'.get "prices_include_tax") :
    statedGrand payload = statedGrand payload' := by
  rw [statedGrand, statedGrand, sentNumber, sentNumber, hgrand, statedLines_congr hitems,
    totalTax_congr htaxes, taxOnTop_congr htaxes hprices]

end Congr

theorem lineTotal_sum {acc acc' : ℚ × Nat} {entry : Map × Nat} (h : lineTotal acc entry = .ok acc') :
    acc'.1 = acc.1 + lineAmount entry.1 := by
  unfold lineTotal at h
  dsimp only at h
  split at h
  case h_1 hamount =>
    obtain rfl := Except.ok.inj h
    simp only [lineAmount, hamount]
  case h_2 hamount =>
    obtain rfl := Except.ok.inj h
    simp only [lineAmount, hamount]
  case h_3 v hnull hamount =>
    split_ifs at h
    obtain rfl := Except.ok.inj h
    cases v <;> simp_all [lineAmount]

theorem foldlM_lineTotal_sum {lines : List (Map × Nat)} {acc acc' : ℚ × Nat}
    (h : lines.foldlM lineTotal acc = .ok acc') :
    acc'.1 = acc.1 + (lines.map fun entry => lineAmount entry.1).sum := by
  induction lines generalizing acc with
  | nil =>
    obtain rfl := Except.ok.inj h
    simp
  | cons entry lines ih =>
    rw [List.foldlM_cons, Except.bind_eq_ok] at h
    obtain ⟨mid, hline, hrest⟩ := h
    rw [ih hrest, lineTotal_sum hline, List.map_cons, List.sum_cons, add_assoc]

/-- The grand total of a checked payload is the stated one, near the recomputation of lines and taxes. -/
theorem validateInvoiceTotals_grand {payload payload' : Map} {track : Bool}
    (h : validateInvoiceTotals payload track = .ok payload') :
    asNum (payload'.get "grand_total") = statedGrand payload ∧
      |statedGrand payload - (round2 (statedLines payload - (totalTax payload - taxOnTop payload)) +
        round2 (totalTax payload))| ≤ moneyEps * (max (lineCount payload) 1 : Nat) ∧
      |statedLines payload - linesTotal payload| ≤ moneyEps * lineCount payload := by
  simp only [validateInvoiceTotals, Except.bind_eq_ok, Except.throw_bind, Except.ite_throw_eq_ok,
    Except.pure_eq_ok] at h
  obtain ⟨⟨linesSum, count⟩, hlines, total, -, taxTotal, -, grand, hgrand, -, rfl⟩ := h
  obtain ⟨hcount, hnear⟩ := foldlM_lineTotal hlines
  have hsum : linesSum = statedLines payload := by
    rw [statedLines, ← objectRows_fst, List.map_map]
    exact (foldlM_lineTotal_sum hlines).trans (zero_add _)
  simp only [sub_zero, zero_add] at hcount hnear
  subst hcount hsum
  have hextracted := extracted_add_taxOnTop payload
  have hstated : grand = statedGrand payload := by
    rw [statedGrand]
    rcases statedTotal_ok hgrand with hsent | ⟨hsent, hcomputed⟩
    · rw [hsent, Option.getD_some]
    · rw [hsent, Option.getD_none, hcomputed, eq_sub_of_add_eq hextracted]
      rfl
  have hheld := statedTotal_near (by unfold moneyEps; positivity) hgrand
  rw [round2_add_round2, ← totalTax, eq_sub_of_add_eq hextracted] at hheld
  refine ⟨(grand_carried track hgrand).trans hstated, ?_, hnear⟩
  rw [← hstated]
  exact hheld

/-! ### The bound -/

/-- The slack of a grand total over `n` lines: a cent a line and one more. -/
def totalsSlack (n : Nat) : ℚ := 1 / 100 * (max n 1 : Nat) + 1 / 100

/-- The grand total of a checked payload is what lines and taxes come to, within the slack. -/
theorem grand_total_bounded {payload payload' : Map} {track : Bool}
    (h : validateInvoiceTotals payload track = .ok payload') :
    |asNum (payload'.get "grand_total") - (linesTotal payload + taxOnTop payload)| ≤
      totalsSlack (lineCount payload) := by
  obtain ⟨hcarried, hgrand, hlines⟩ := validateInvoiceTotals_grand h
  rw [hcarried]
  have htotal := abs_sub_round2_le (statedLines payload - (totalTax payload - taxOnTop payload))
  have htax := abs_sub_round2_le (totalTax payload)
  have hcount : (lineCount payload : ℚ) ≤ (max (lineCount payload) 1 : Nat) := by
    exact_mod_cast le_max_left _ _
  have hsent : moneyEps * lineCount payload ≤ moneyEps * (max (lineCount payload) 1 : Nat) :=
    mul_le_mul_of_nonneg_left hcount (by norm_num [moneyEps])
  -- the four ways to be off: the tolerance, the two rounded sums and the stated lines
  rw [abs_le] at hlines hgrand htotal htax ⊢
  unfold totalsSlack moneyEps at *
  constructor <;> linarith

/-- Invoices whose totals are checked. -/
def totalledDoctypes : List String := settleableDoctypes ++ ["POS Invoice"]

theorem validateTotals_ok {doctype : String} {payload payload' : Map}
    (hdoctype : doctype ∈ totalledDoctypes) (h : validateTotals doctype payload = .ok payload') :
    validateInvoiceTotals payload (doctype ∈ settleableDoctypes) = .ok payload' := by
  unfold validateTotals at h
  by_cases hsettleable : doctype ∈ settleableDoctypes
  · rw [if_pos hsettleable] at h
    obtain ⟨-, -, h⟩ := Except.bind_eq_ok.1 h
    simpa [hsettleable] using h
  · obtain rfl : doctype = "POS Invoice" :=
      List.mem_singleton.1 ((List.mem_append.1 hdoctype).resolve_left hsettleable)
    rw [if_neg hsettleable, if_pos rfl] at h
    obtain ⟨-, -, h⟩ := Except.bind_eq_ok.1 h
    simpa [hsettleable] using h

section Submit
variable {codec : Codec} {view : StoreView} {env : Env} {companyId : Uuid} {cmd : SubmitCommand}
  {documentId : String} {actor : Actor}

/-- An invoice's checks see what was sent, but for its date and the accounts filled in. -/
theorem preparePayload_checked {prepared : Prepared} (hdoctype : cmd.doctype ∈ totalledDoctypes)
    (h : preparePayload view env companyId cmd documentId = .ok prepared) :
    ∃ checked, validateTotals cmd.doctype checked = .ok prepared.payload ∧
      ∀ field ∉ "posting_date" :: (accountFields ++ c5Fields),
        checked.get field = (cmd.payload.insert "items" (.array cmd.items)).get field := by
  simp only [preparePayload, Except.bind_eq_ok, Except.throw_bind, Except.ite_throw_eq_ok,
    Except.pure_eq_ok] at h
  obtain ⟨postingDate, -, -, -, -, ⟨deposited, guard⟩, hdeposit, checked, hchecked, totals, htotals, rfl⟩ := h
  have hpayment : cmd.doctype ≠ "Payment Entry" := by
    intro heq
    rw [heq] at hdoctype
    exact absurd hdoctype (by decide)
  rw [applyDeposit, if_neg hpayment] at hdeposit
  obtain ⟨rfl, -⟩ := Prod.mk.inj (Except.ok.inj hdeposit)
  refine ⟨checked, htotals, fun field hfield => ?_⟩
  simp only [List.mem_cons, List.mem_append, not_or] at hfield
  rw [validateC5Document_get hfield.2.2 hchecked, resolveAccountFallbacks_get hfield.2.1,
    Map.get_insert_ne _ hfield.1]

/-- What an invoice is prepared from: its checks see the lines, taxes and pricing that were sent. -/
theorem preparePayload_totals {prepared : Prepared} (hdoctype : cmd.doctype ∈ totalledDoctypes)
    (h : preparePayload view env companyId cmd documentId = .ok prepared) :
    let sent := cmd.payload.insert "items" (.array cmd.items)
    |asNum (prepared.payload.get "grand_total") - (linesTotal sent + taxOnTop sent)| ≤
      totalsSlack (lineCount sent) := by
  intro sent
  obtain ⟨checked, htotals, hkept⟩ := preparePayload_checked hdoctype h
  have hitems : itemsOf checked = itemsOf sent := by
    rw [itemsOf, arrayOf, hkept "items" (by decide)]
    rfl
  have htaxes : taxOnTop checked = taxOnTop sent :=
    taxOnTop_congr (hkept _ (by decide)) (hkept _ (by decide))
  have hbound := grand_total_bounded (validateTotals_ok hdoctype htotals)
  rwa [htaxes, linesTotal, lineCount, hitems] at hbound

/-- An invoice posts the grand total that was stated. -/
theorem preparePayload_grand {prepared : Prepared} (hdoctype : cmd.doctype ∈ totalledDoctypes)
    (h : preparePayload view env companyId cmd documentId = .ok prepared) :
    asNum (prepared.payload.get "grand_total") =
      statedGrand (cmd.payload.insert "items" (.array cmd.items)) := by
  obtain ⟨checked, htotals, hkept⟩ := preparePayload_checked hdoctype h
  rw [(validateInvoiceTotals_grand (validateTotals_ok hdoctype htotals)).1]
  exact statedGrand_congr (hkept _ (by decide)) (hkept _ (by decide)) (hkept _ (by decide))
    (hkept _ (by decide))

/-- The leg that posts an invoice's grand total: what is owed, or the cash of a sale at the till. -/
def grandLegId (doctype documentId : String) : String :=
  if doctype = "Sales Invoice" then s!"GL-{documentId}-debit"
  else if doctype = "Purchase Invoice" then s!"GL-{documentId}-credit"
  else s!"GL-{documentId}-cash"

theorem mem_reduceExpense {expenseId : String} {net rate : ℚ} {gl : List GlEntry} {entry : GlEntry}
    (hentry : entry ∈ gl) (hid : entry.id ≠ expenseId) : entry ∈ reduceExpense expenseId net rate gl := by
  induction gl with
  | nil => exact absurd hentry List.not_mem_nil
  | cons first rest ih =>
    simp only [reduceExpense]
    rcases List.mem_cons.1 hentry with rfl | hrest
    · rw [if_neg hid]
      exact List.mem_cons_self
    · split_ifs
      · exact hrest
      · exact List.mem_cons_of_mem _ hrest
      · exact List.mem_cons_of_mem _ (ih hrest)

theorem mem_splitGrniFromExpense {ctx : RowContext} {payload : Map} (items : Items)
    (settings : CompanySettings) {gl : List GlEntry} {entry : GlEntry} (hentry : entry ∈ gl)
    (hid : entry.id ≠ s!"GL-{ctx.documentId}-debit") :
    entry ∈ splitGrniFromExpense ctx gl payload items settings := by
  simp only [splitGrniFromExpense]
  split_ifs
  · exact hentry
  · exact List.mem_append_left _ (mem_reduceExpense hentry hid)

/-- The grand total is what one leg posts. -/
theorem deriveRows_grandLeg (settings : CompanySettings) {ctx : RowContext} {payload : Map}
    (hdoctype : ctx.doctype ∈ totalledDoctypes) :
    ∃ entry ∈ (deriveRows codec view settings ctx payload).gl,
      entry.id = grandLegId ctx.doctype ctx.documentId ∧
        entry.debit + entry.credit = asNum (payload.get "grand_total") := by
  obtain ⟨leg, hleg, hid, hamount⟩ : ∃ leg ∈ deriveMonetaryGl ctx payload,
      leg.id = grandLegId ctx.doctype ctx.documentId ∧
        leg.debit + leg.credit = asNum (payload.get "grand_total") := by
    unfold deriveMonetaryGl grandLegId
    simp only [totalledDoctypes, settleableDoctypes, List.cons_append, List.nil_append, List.mem_cons,
      List.not_mem_nil, or_false] at hdoctype
    rcases hdoctype with hsales | hpurchase | hpos
    · exact ⟨_, by rw [hsales]; exact List.mem_cons_self, by rw [if_pos hsales]; rfl, add_zero _⟩
    · refine ⟨_, by rw [hpurchase]; exact List.mem_cons_self, ?_, zero_add _⟩
      rw [hpurchase, if_neg (by decide), if_pos rfl]
      rfl
    · refine ⟨_, by rw [hpos]; exact List.mem_cons_self, ?_, add_zero _⟩
      rw [hpos, if_neg (by decide), if_neg (by decide)]
      rfl
  -- stamping keeps id and amount
  obtain ⟨stamped, hstamped, hid', hamount'⟩ : ∃ stamped ∈ (if isBaseStamped ctx.doctype then
        stampBaseAmounts (deriveMonetaryGl ctx payload) (deriveSubledgerRows ctx payload).1 payload
      else (deriveMonetaryGl ctx payload, (deriveSubledgerRows ctx payload).1)).1,
      stamped.id = leg.id ∧ stamped.debit + stamped.credit = leg.debit + leg.credit := by
    split_ifs
    · exact ⟨stampGl payload leg, List.mem_map_of_mem hleg, rfl, rfl⟩
    · exact ⟨leg, hleg, rfl, rfl⟩
  refine ⟨stamped, ?_, hid'.trans hid, hamount'.trans hamount⟩
  simp only [deriveRows]
  by_cases hpurchase : ctx.doctype = "Purchase Invoice"
  · rw [if_pos hpurchase]
    refine mem_splitGrniFromExpense _ settings (List.mem_append_left _ hstamped) ?_
    rw [hid', hid, grandLegId, if_neg (by rw [hpurchase]; decide), if_pos hpurchase]
    intro heq
    have hlist := congrArg String.toList heq
    simp only [String.toList_append, List.append_cancel_left_eq] at hlist
    exact absurd hlist (by decide)
  · rw [if_neg hpurchase]
    exact List.mem_append_left _ hstamped

/-- Whatever a client sends, the grand total of an invoice that passes the checks is what its lines and
taxes come to, within a cent a line and one more; the outstanding amount starts at this grand total; and so it
is with what an accepted submit stores and posts. -/
theorem invoice_totals_bounded :
    (∀ payload payload' track, validateTaxRows payload = .ok () →
      validateInvoiceTotals payload track = .ok payload' →
      |asNum (payload'.get "grand_total") - (linesTotal payload + taxOnTop payload)| ≤
        1 / 100 * (max (lineCount payload) 1 : Nat) + 1 / 100 ∧
      (track = true →
        payload'.get "outstanding_amount" = some (.num (asNum (payload'.get "grand_total"))))) ∧
    ∀ codec view env companyId cmd documentId actor commit,
      cmd.doctype ∈ ["Sales Invoice", "Purchase Invoice", "POS Invoice"] →
      buildSubmit codec view env companyId cmd documentId actor = .ok commit →
      let sent := cmd.payload.insert "items" (.array cmd.items)
      let grand := asNum (commit.document.payload.get "grand_total")
      |grand - (linesTotal sent + taxOnTop sent)| ≤ 1 / 100 * (max (lineCount sent) 1 : Nat) + 1 / 100 ∧
      (cmd.doctype ≠ "POS Invoice" →
        commit.document.payload.get "outstanding_amount" = some (.num grand)) ∧
      ∃ entry ∈ commit.glEntries, entry.id = grandLegId cmd.doctype documentId ∧
        entry.debit + entry.credit = grand := by
  refine ⟨fun payload payload' track _ h => ⟨grand_total_bounded h, ?_⟩, ?_⟩
  · rintro rfl
    exact validateInvoiceTotals_outstanding h
  intro codec view env companyId cmd documentId actor commit hdoctype h sent grand
  obtain ⟨prepared, shortfalls, settlements, updates, hprepared, -, -, rfl⟩ := buildSubmit_ok h
  have hstored : ∀ field, field ≠ "offline_fiscal" → field ≠ "till_device" →
      (storedPayload cmd actor prepared.payload).get field = prepared.payload.get field :=
    fun field => storedPayload_get
  have hgrand : grand = asNum (prepared.payload.get "grand_total") :=
    congrArg asNum (hstored "grand_total" (by decide) (by decide))
  refine ⟨hgrand ▸ preparePayload_totals hdoctype hprepared, fun hpos => ?_, ?_⟩
  · have hsettleable : cmd.doctype ∈ settleableDoctypes := by
      simp only [List.mem_cons, List.not_mem_nil, or_false] at hdoctype
      rcases hdoctype with hsales | hpurchase | htill
      · simp [settleableDoctypes, hsales]
      · simp [settleableDoctypes, hpurchase]
      · exact absurd htill hpos
    rw [hgrand]
    exact (hstored "outstanding_amount" (by decide) (by decide)).trans
      (preparePayload_outstanding hprepared hsettleable)
  · rw [hgrand]
    exact deriveRows_grandLeg (view.companySettings companyId) hdoctype

end Submit

/-- The slack is used up: a line of ten stated at 10.005, half a cent of tax and a grand total of 10.025. -/
theorem invoice_totals_bounded_tight :
    let sent : Map := [("items", .array [.obj [("qty", .num 1), ("rate", .num 10),
        ("amount", .num (10005 / 1000))]]),
      ("taxes", .array [.obj [("tax_amount", .num (5 / 1000))]]), ("grand_total", .num (10025 / 1000))]
    let checked := sent.insert "outstanding_amount" (.num (10025 / 1000))
    |asNum (checked.get "grand_total") - (linesTotal sent + taxOnTop sent)| ≤ 2 / 100 ∧
      asNum (checked.get "grand_total") - (linesTotal sent + taxOnTop sent) = 2 / 100 := by
  intro sent checked
  have hchecked : validateInvoiceTotals sent true = .ok checked := by decide +kernel
  have hbound := (invoice_totals_bounded.1 sent checked true (by decide +kernel) hchecked).1
  exact ⟨hbound.trans (by decide +kernel), by decide +kernel⟩

end AtlasTeam
