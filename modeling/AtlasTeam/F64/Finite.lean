import AtlasTeam.F64.Movements
import AtlasTeam.F64.Payload
import AtlasTeam.Store.Mem
import AtlasTeam.Store.Serde

/-!
# When every posted amount is finite

`as_num` reads `NaN` and `inf` out of a text, and but for `money_field`, which asks for a finite number, the
guards of a submit compare with `>`, `<` and `>=`, which NaN never satisfies. So what is posted is finite
exactly when what the posting carries over from the command is: `PostsFinite` names it, part by part, and
`posted_amounts_finite_iff` is the equivalence for every submit that builds.
-/

namespace AtlasTeam.F64

/-! ### Finite rows -/

structure GlEntry.Finite (entry : GlEntry) : Prop where
  debit : entry.debit.IsFinite
  credit : entry.credit.IsFinite
  baseDebit : ∀ x ∈ entry.baseDebit, x.IsFinite
  baseCredit : ∀ x ∈ entry.baseCredit, x.IsFinite

structure PartyTransaction.Finite (txn : PartyTransaction) : Prop where
  amount : txn.amount.IsFinite
  baseAmount : txn.baseAmount.IsFinite

structure TaxTransaction.Finite (txn : TaxTransaction) : Prop where
  baseAmount : txn.baseAmount.IsFinite
  taxAmount : txn.taxAmount.IsFinite

/-- Every amount a commit posts is finite. The outstanding amount of an invoice stands in its payload,
as JSON, where what is not finite would be null. -/
structure PostingCommit.Finite (commit : PostingCommit) : Prop where
  gl : ∀ entry ∈ commit.glEntries, entry.Finite
  stock : ∀ sle ∈ commit.stockLedgerEntries, sle.qtyChange.IsFinite ∧ sle.valuationRate.IsFinite
  party : ∀ txn ∈ commit.partyTransactions, txn.Finite
  tax : ∀ txn ∈ commit.taxTransactions, txn.Finite
  settlements : ∀ s ∈ commit.settlements, s.allocatedAmount.IsFinite
  bins : ∀ bin ∈ commit.bins, bin.snapshot.Finite
  outstanding : ∀ update ∈ commit.outstandingUpdates, update.2.2.IsFinite
  invoiced : commit.doctype ∈ settleableDoctypes →
    ∃ q, commit.payload.get "outstanding_amount" = some (.num q)

/-! ### What a submit carries over -/

/-- The amounts a submit posts as they are read. -/
def AmountsFinite (doctype : String) (payload : Map) : Prop :=
  let grand := (asNum (payload.get "grand_total")).IsFinite
  let rate := (conversionRateOf payload).IsFinite
  let taxes := ∀ row ∈ taxRows payload,
    (asNum (row.get "taxable_amount")).IsFinite ∧ (asNum (row.get "tax_amount")).IsFinite
  match doctype with
  | "Sales Invoice" | "Purchase Invoice" => grand ∧ taxes ∧ rate
  | "POS Invoice" => grand ∧ taxes
  | "Payment Entry" =>
    (asNum (payload.get "paid_amount")).IsFinite ∧ rate ∧
      ∀ s ∈ deriveSettlements payload, s.allocatedAmount.IsFinite
  | "Expense" =>
    (asNum (payload.get "net_amount")).IsFinite ∧ (asNum (payload.get "tax_amount")).IsFinite
  | "Customer Deposit" => (asNum (payload.get "amount")).IsFinite
  | "Journal Entry" =>
    ∀ row ∈ journalRows payload,
      (asNum (row.1.get "debit")).IsFinite ∧ (asNum (row.1.get "credit")).IsFinite ∧ rate
  | _ => True

/-- Those of them that no check of a submit rules out: a guard that compares lets NaN pass, and an
infinity where it bounds from one side only. -/
def UncheckedFinite (doctype : String) (payload : Map) : Prop :=
  let grand := (asNum (payload.get "grand_total")).IsFinite
  let rate := (conversionRateOf payload).IsFinite
  let taxes := ∀ row ∈ taxRows payload,
    (asNum (row.get "taxable_amount")).IsFinite ∧ (asNum (row.get "tax_amount")).IsFinite
  match doctype with
  | "Sales Invoice" | "Purchase Invoice" => grand ∧ taxes ∧ rate
  | "POS Invoice" => grand ∧ taxes
  | "Payment Entry" =>
    (asNum (payload.get "paid_amount")).IsFinite ∧ rate ∧
      ∀ s ∈ deriveSettlements payload, s.allocatedAmount.IsFinite
  | "Journal Entry" => rate
  | _ => True

/-- What `money_field` checked is finite already. -/
theorem amountsFinite_iff {doctype : String} {payload : Map} (h : CheckedFinite doctype payload) :
    AmountsFinite doctype payload ↔ UncheckedFinite doctype payload := by
  unfold AmountsFinite UncheckedFinite
  unfold CheckedFinite at h
  dsimp only
  split
  case h_5 => exact iff_true_intro h
  case h_6 => exact iff_true_intro h
  case h_7 =>
    obtain ⟨hsome, hamounts⟩ := h
    obtain ⟨row, hrow⟩ := List.exists_mem_of_ne_nil _ hsome
    constructor
    · exact fun hrows => (hrows row hrow).2.2
    · exact fun hrate row hrow => ⟨(hamounts row hrow).1, (hamounts row hrow).2, hrate⟩
  case h_8 =>
    split
    case h_6 => rfl
    all_goals contradiction
  all_goals rfl

/-- The item settings a submit is costed with. -/
def itemsOfSubmit (codec : Codec) (view : StoreView) (companyId : Uuid) (doctype id : String)
    (payload : Map) : Items :=
  loadItems codec view companyId (deriveStockRows doctype id payload) payload

/-- The stock movements of a submit. -/
def movementsOf (items : Items) (doctype id : String) (payload : Map) : List StockLedgerEntry :=
  stockMovements items (deriveStockRows doctype id payload)

/-- What a submit carries over from its command is finite: the amounts no check rules out, the
lines a missing grand total is computed from, the movements, and the stock lines of a Purchase Invoice. -/
structure PostsFinite (codec : Codec) (view : StoreView) (companyId : Uuid) (doctype id : String)
    (payload : Map) : Prop where
  amounts : UncheckedFinite doctype payload
  lines : doctype ∈ settleableDoctypes → sentNumber payload "grand_total" = none →
    ∀ line ∈ lines payload, (lineAmount line).IsFinite
  movements : MovementsFinite
    (costInputs view companyId (itemsOfSubmit codec view companyId doctype id payload) payload) []
    (movementsOf (itemsOfSubmit codec view companyId doctype id payload) doctype id payload)
  split : doctype = "Purchase Invoice" →
    ∀ line ∈ stockLines payload (itemsOfSubmit codec view companyId doctype id payload),
      (lineAmount line).IsFinite

/-! ### Monetary rows -/

section Monetary
variable {payload : Map} {doctype id : String}

@[simp] theorem gl_finite {id account : String} {debit credit : Ieee} :
    (gl id account debit credit).Finite ↔ debit.IsFinite ∧ credit.IsFinite := by
  refine ⟨fun h => ⟨h.debit, h.credit⟩, fun h => ⟨h.1, h.2, fun x hx => ?_, fun x hx => ?_⟩⟩
  · cases hx
  · cases hx

theorem stampGl_finite {entry : GlEntry} : (stampGl payload entry).Finite ↔
    entry.debit.IsFinite ∧ entry.credit.IsFinite ∧ (conversionRateOf payload).IsFinite := by
  constructor
  · intro h
    have hbase : (entry.debit * conversionRateOf payload).IsFinite := h.baseDebit _ rfl
    exact ⟨h.debit, h.credit, (Ieee.isFinite_mul.1 hbase).2⟩
  · rintro ⟨hdebit, hcredit, hrate⟩
    refine ⟨hdebit, hcredit, fun x hx => ?_, fun x hx => ?_⟩
    · exact Option.some.inj hx ▸ Ieee.isFinite_mul.2 ⟨hdebit, hrate⟩
    · exact Option.some.inj hx ▸ Ieee.isFinite_mul.2 ⟨hcredit, hrate⟩

theorem taxLegs_finite (h : (totalTax payload).IsFinite) (isOutput : Bool) :
    ∀ entry ∈ taxLegs id payload isOutput, entry.Finite := by
  intro entry hentry
  simp only [taxLegs, List.mem_filterMap, Prod.exists] at hentry
  obtain ⟨row, i, hrow, hleg⟩ := hentry
  have htax : (asNum (row.get "tax_amount")).IsFinite := by
    refine totalTax_finite.1 h row ?_
    rw [taxRows, ← objectRows_fst]
    exact List.mem_map_of_mem hrow
  split at hleg
  · cases hleg
  · split_ifs at hleg
    all_goals
      obtain rfl := Option.some.inj hleg
      simp [htax]

/-- The two legs an invoice starts with and its tax legs. -/
theorem invoice_finite {first second : GlEntry} (hfirst : first.Finite) (hsecond : second.Finite)
    (htax : (totalTax payload).IsFinite) (isOutput : Bool) :
    ∀ entry ∈ [first, second] ++ taxLegs id payload isOutput, entry.Finite := by
  refine List.forall_mem_append.2 ⟨?_, taxLegs_finite htax isOutput⟩
  exact List.forall_mem_cons.2 ⟨hfirst, List.forall_mem_singleton.2 hsecond⟩

theorem totalTax_of_rows (h : ∀ row ∈ taxRows payload,
    (asNum (row.get "taxable_amount")).IsFinite ∧ (asNum (row.get "tax_amount")).IsFinite) :
    (totalTax payload).IsFinite :=
  totalTax_finite.2 fun row hrow => (h row hrow).2

/-- The legs of finite amounts are finite, and so is the rate where they are stamped with one. -/
theorem deriveMonetaryGl_finite (h : AmountsFinite doctype payload)
    (hgross : doctype = "Expense" → (asNum (payload.get "gross_amount")).IsFinite) :
    ∀ entry ∈ deriveMonetaryGl doctype id payload, entry.Finite ∧
      (isBaseStamped doctype = true → (conversionRateOf payload).IsFinite) := by
  unfold AmountsFinite at h
  dsimp only at h
  split at h
  case h_1 =>
    simp only [deriveMonetaryGl]
    obtain ⟨hgrand, htaxes, hrate⟩ := h
    have htax := totalTax_of_rows htaxes
    intro entry hentry
    exact ⟨invoice_finite (gl_finite.2 ⟨hgrand, Ieee.isFinite_zero⟩)
      (gl_finite.2 ⟨Ieee.isFinite_zero, Ieee.isFinite_sub.2 ⟨hgrand, htax⟩⟩) htax true entry hentry,
      fun _ => hrate⟩
  case h_2 =>
    simp only [deriveMonetaryGl]
    obtain ⟨hgrand, htaxes, hrate⟩ := h
    have htax := totalTax_of_rows htaxes
    intro entry hentry
    exact ⟨invoice_finite (gl_finite.2 ⟨Ieee.isFinite_zero, hgrand⟩)
      (gl_finite.2 ⟨Ieee.isFinite_sub.2 ⟨hgrand, htax⟩, Ieee.isFinite_zero⟩) htax false entry hentry,
      fun _ => hrate⟩
  case h_3 =>
    simp only [deriveMonetaryGl]
    obtain ⟨hgrand, htaxes⟩ := h
    have htax := totalTax_of_rows htaxes
    intro entry hentry
    exact ⟨invoice_finite (gl_finite.2 ⟨hgrand, Ieee.isFinite_zero⟩)
      (gl_finite.2 ⟨Ieee.isFinite_zero, Ieee.isFinite_sub.2 ⟨hgrand, htax⟩⟩) htax true entry hentry,
      fun hstamped => absurd hstamped (by decide)⟩
  case h_4 =>
    simp only [deriveMonetaryGl]
    obtain ⟨hpaid, hrate, -⟩ := h
    intro entry hentry
    refine ⟨?_, fun _ => hrate⟩
    revert entry
    simp [hpaid]
  case h_5 =>
    simp only [deriveMonetaryGl]
    obtain ⟨hnet, htax⟩ := h
    intro entry hentry
    refine ⟨?_, fun hstamped => absurd hstamped (by decide)⟩
    revert entry
    split_ifs
    all_goals
      simp [hnet, htax, hgross rfl]
  case h_6 =>
    simp only [deriveMonetaryGl]
    intro entry hentry
    refine ⟨?_, fun hstamped => absurd hstamped (by decide)⟩
    revert entry
    simp [h]
  case h_7 =>
    simp only [deriveMonetaryGl]
    intro entry hentry
    obtain ⟨row, hrow, rfl⟩ := List.mem_map.1 hentry
    obtain ⟨hdebit, hcredit, hrate⟩ := h row hrow
    exact ⟨gl_finite.2 ⟨hdebit, hcredit⟩, fun _ => hrate⟩
  case h_8 =>
    unfold deriveMonetaryGl
    intro entry hentry
    split at hentry
    case h_8 => cases hentry
    all_goals contradiction

@[simp] theorem partyTxn_finite {party : String} {amount : Ieee} :
    (partyTxn party amount).Finite ↔ amount.IsFinite :=
  ⟨fun h => h.amount, fun h => ⟨h, h⟩⟩

theorem journalAdjustment_finite {row : Map} {txn : PartyTransaction}
    (h : journalAdjustment row = some txn) (hdebit : (asNum (row.get "debit")).IsFinite)
    (hcredit : (asNum (row.get "credit")).IsFinite) : txn.Finite := by
  simp only [journalAdjustment, Option.bind_eq_bind, Option.bind_eq_some_iff, Option.pure_def,
    Option.some.injEq] at h
  obtain ⟨party, -, kind, -, rfl⟩ := h
  cases kind <;> simp [hdebit, hcredit]

/-- The party rows of finite amounts are finite. -/
theorem deriveSubledgerRows_party_finite (h : AmountsFinite doctype payload)
    (hgross : doctype = "Expense" → (asNum (payload.get "gross_amount")).IsFinite) :
    ∀ txn ∈ (deriveSubledgerRows doctype payload).1, txn.Finite ∧
      (isBaseStamped doctype = true → (conversionRateOf payload).IsFinite) := by
  intro txn htxn
  unfold deriveSubledgerRows at htxn
  dsimp only at htxn
  split at htxn
  case h_1 =>
    obtain ⟨party, -, rfl⟩ := List.mem_map.1 htxn
    exact ⟨partyTxn_finite.2 h.1, fun _ => h.2.2⟩
  case h_2 =>
    obtain ⟨party, -, rfl⟩ := List.mem_map.1 htxn
    exact ⟨partyTxn_finite.2 h.1, fun _ => h.2.2⟩
  case h_3 => cases htxn
  case h_4 =>
    refine ⟨?_, fun _ => h.2.1⟩
    split at htxn
    · rw [List.mem_singleton.1 htxn, partyTxn_finite, Ieee.isFinite_neg]
      exact h.1
    · rw [List.mem_singleton.1 htxn, partyTxn_finite, Ieee.isFinite_neg]
      exact h.1
    · cases htxn
  case h_5 =>
    refine ⟨?_, fun hstamped => absurd hstamped (by decide)⟩
    split at htxn
    · rw [List.mem_singleton.1 htxn, partyTxn_finite]
      exact hgross rfl
    · cases htxn
  case h_6 =>
    obtain ⟨row, hrow, hadjustment⟩ := List.mem_filterMap.1 htxn
    obtain ⟨hdebit, hcredit, hrate⟩ := h row hrow
    exact ⟨journalAdjustment_finite hadjustment hdebit hcredit, fun _ => hrate⟩
  case h_7 => cases htxn

/-- The tax rows of finite amounts are finite. -/
theorem deriveSubledgerRows_tax_finite (h : AmountsFinite doctype payload) :
    ∀ txn ∈ (deriveSubledgerRows doctype payload).2, txn.Finite := by
  have hrows : (∀ row ∈ taxRows payload,
      (asNum (row.get "taxable_amount")).IsFinite ∧ (asNum (row.get "tax_amount")).IsFinite) →
      ∀ txn ∈ taxTransactions payload, txn.Finite := by
    intro htaxes txn htxn
    obtain ⟨row, hrow, rfl⟩ := List.mem_map.1 htxn
    exact ⟨(htaxes row hrow).1, (htaxes row hrow).2⟩
  intro txn htxn
  unfold deriveSubledgerRows at htxn
  dsimp only at htxn
  split at htxn
  case h_1 => exact hrows h.2.1 txn htxn
  case h_2 => exact hrows h.2.1 txn htxn
  case h_3 => exact hrows h.2 txn htxn
  case h_4 =>
    split at htxn
    all_goals cases htxn
  case h_5 =>
    split_ifs at htxn
    · rw [List.mem_singleton.1 htxn]
      exact ⟨h.1, h.2⟩
    · cases htxn
  case h_6 => cases htxn
  case h_7 => cases htxn

/-- The monetary rows of finite amounts are finite once stamped. -/
theorem monetaryRows_finite (h : AmountsFinite doctype payload)
    (hgross : doctype = "Expense" → (asNum (payload.get "gross_amount")).IsFinite) :
    (∀ entry ∈ (monetaryRows doctype id payload).1, entry.Finite) ∧
      ∀ txn ∈ (monetaryRows doctype id payload).2, txn.Finite := by
  have hgl : ∀ entry ∈ deriveMonetaryGl doctype id payload, entry.Finite ∧
      (isBaseStamped doctype = true → (conversionRateOf payload).IsFinite) :=
    deriveMonetaryGl_finite h hgross
  have hparty := deriveSubledgerRows_party_finite h hgross
  unfold monetaryRows
  dsimp only
  split_ifs with hstamped
  · constructor
    · intro entry hentry
      obtain ⟨raw, hraw, rfl⟩ := List.mem_map.1 hentry
      obtain ⟨hfinite, hrate⟩ := hgl raw hraw
      exact stampGl_finite.2 ⟨hfinite.debit, hfinite.credit, hrate hstamped⟩
    · intro txn htxn
      obtain ⟨raw, hraw, rfl⟩ := List.mem_map.1 htxn
      obtain ⟨hfinite, hrate⟩ := hparty raw hraw
      exact ⟨hfinite.amount, Ieee.isFinite_mul.2 ⟨hfinite.amount, hrate hstamped⟩⟩
  · exact ⟨fun entry hentry => (hgl entry hentry).1, fun txn htxn => (hparty txn htxn).1⟩

/-- The two legs a Purchase Invoice starts with have different ids. -/
theorem creditId_ne (id : String) : s!"GL-{id}-credit" ≠ s!"GL-{id}-debit" := by
  intro h
  have hlength : ("GL-" ++ id ++ "-credit").length = ("GL-" ++ id ++ "-debit").length :=
    congrArg String.length h
  have hcredit : ("-credit" : String).length = 7 := by decide
  have hdebit : ("-debit" : String).length = 6 := by decide
  simp only [String.length_append, hcredit, hdebit] at hlength
  omega

/-- The amounts a submit posts as they are read can be read off its rows. Of a Purchase Invoice the leg
that is reduced later is not needed for it. -/
theorem amountsFinite_of_rows
    (hgl : ∀ entry ∈ (monetaryRows doctype id payload).1,
      (doctype = "Purchase Invoice" → entry.id ≠ s!"GL-{id}-debit") → entry.Finite)
    (htax : ∀ txn ∈ (deriveSubledgerRows doctype payload).2, txn.Finite)
    (hsettled : doctype = "Payment Entry" →
      ∀ s ∈ deriveSettlements payload, s.allocatedAmount.IsFinite) :
    AmountsFinite doctype payload := by
  have htaxes : (∀ txn ∈ taxTransactions payload, txn.Finite) → ∀ row ∈ taxRows payload,
      (asNum (row.get "taxable_amount")).IsFinite ∧ (asNum (row.get "tax_amount")).IsFinite := by
    intro h row hrow
    have hfinite := h _ (List.mem_map_of_mem hrow)
    exact ⟨hfinite.baseAmount, hfinite.taxAmount⟩
  unfold AmountsFinite
  dsimp only
  split
  case h_1 =>
    have hfirst := stampGl_finite.1 (hgl _ (List.mem_map_of_mem List.mem_cons_self) fun h => absurd h (by decide))
    exact ⟨hfirst.1, htaxes htax, hfirst.2.2⟩
  case h_2 =>
    have hfirst := stampGl_finite.1 (hgl _ (List.mem_map_of_mem List.mem_cons_self) fun _ =>
      creditId_ne id)
    exact ⟨hfirst.2.1, htaxes htax, hfirst.2.2⟩
  case h_3 =>
    have hfirst := gl_finite.1 (hgl _ List.mem_cons_self fun h => absurd h (by decide))
    exact ⟨hfirst.1, htaxes htax⟩
  case h_4 =>
    have hfirst := stampGl_finite.1 (hgl _ (List.mem_map_of_mem List.mem_cons_self) fun h => absurd h (by decide))
    exact ⟨hfirst.2.1, hfirst.2.2, hsettled rfl⟩
  case h_5 =>
    have hnet := gl_finite.1 (hgl _ List.mem_cons_self fun h => absurd h (by decide))
    refine ⟨hnet.1, ?_⟩
    by_cases hzero : asNum (payload.get "tax_amount") = 0
    · rw [hzero]
      exact Ieee.isFinite_zero
    · have hrow := htax (expenseTax payload)
      rw [deriveSubledgerRows, if_pos hzero] at hrow
      exact (hrow List.mem_cons_self).taxAmount
  case h_6 => exact (gl_finite.1 (hgl _ List.mem_cons_self fun h => absurd h (by decide))).1
  case h_7 =>
    intro row hrow
    exact stampGl_finite.1 (hgl _ (List.mem_map_of_mem (List.mem_map_of_mem hrow)) fun h => absurd h (by decide))
  case h_8 => trivial

end Monetary

/-! ### The legs of the stock side -/

section Legs
variable {doctype id : String} {payload : Map} {items : Items} {settings : CompanySettings}
  {entries : List GlEntry} {stockNet rate : Ieee} {expenseId : String}

theorem stockGlLegs_finite {sles : List StockLedgerEntry} (h : ∀ sle ∈ sles, sle.row.Finite) :
    ∀ entry ∈ stockGlLegs doctype sles items settings, entry.Finite := by
  intro entry hentry
  obtain ⟨sle, hsle, hleg⟩ := List.mem_flatMap.1 hentry
  have hvalue : (sle.qtyChange * sle.valuationRate).abs.IsFinite :=
    Ieee.isFinite_abs.2 (Ieee.isFinite_mul.2 (h sle hsle))
  have hsome : ∀ {x : Ieee}, x.IsFinite → ∀ y ∈ some x, y.IsFinite := by
    intro x hx y hy
    exact Option.some.inj hy ▸ hx
  unfold stockGlLeg at hleg
  dsimp only at hleg
  split_ifs at hleg
  case pos => cases hleg
  all_goals
    rcases List.mem_cons.1 hleg with rfl | hleg
    · exact ⟨hvalue, Ieee.isFinite_zero, hsome hvalue, hsome Ieee.isFinite_zero⟩
    · obtain rfl := List.mem_singleton.1 hleg
      exact ⟨Ieee.isFinite_zero, hvalue, hsome Ieee.isFinite_zero, hsome hvalue⟩

theorem reduceExpense_finite (h : ∀ entry ∈ entries, entry.Finite) (hnet : stockNet.IsFinite)
    (hrate : rate.IsFinite) : ∀ entry ∈ reduceExpense expenseId stockNet rate entries, entry.Finite := by
  induction entries with
  | nil => exact h
  | cons entry entries ih =>
    obtain ⟨hentry, hentries⟩ := List.forall_mem_cons.1 h
    have hdebit : (entry.debit - stockNet).IsFinite := Ieee.isFinite_sub.2 ⟨hentry.debit, hnet⟩
    unfold reduceExpense
    dsimp only
    split_ifs
    · exact hentries
    · refine List.forall_mem_cons.2 ⟨⟨hdebit, hentry.credit, fun x hx => ?_, hentry.baseCredit⟩, hentries⟩
      obtain ⟨base, -, rfl⟩ := Option.map_eq_some_iff.1 hx
      exact Ieee.isFinite_mul.2 ⟨hdebit, hrate⟩
    · exact List.forall_mem_cons.2 ⟨hentry, ih hentries⟩

theorem mem_reduceExpense {entry : GlEntry} (hentry : entry ∈ entries) (hid : entry.id ≠ expenseId) :
    entry ∈ reduceExpense expenseId stockNet rate entries := by
  induction entries with
  | nil => exact hentry
  | cons head entries ih =>
    unfold reduceExpense
    dsimp only
    rcases List.mem_cons.1 hentry with rfl | hentry
    · rw [if_neg hid]
      exact List.mem_cons_self
    · split_ifs
      · exact hentry
      · exact List.mem_cons_of_mem _ hentry
      · exact List.mem_cons_of_mem _ (ih hentry)

theorem stockNet_finite : ((stockLines payload items).map lineAmount).sum.IsFinite ↔
    ∀ line ∈ stockLines payload items, (lineAmount line).IsFinite := by
  rw [Ieee.isFinite_sum, List.forall_mem_map]

theorem splitGrni_finite (h : ∀ entry ∈ entries, entry.Finite)
    (hlines : ∀ line ∈ stockLines payload items, (lineAmount line).IsFinite)
    (hrate : (conversionRateOf payload).IsFinite) :
    ∀ entry ∈ splitGrniFromExpense id entries payload items settings, entry.Finite := by
  have hnet := stockNet_finite.2 hlines
  unfold splitGrniFromExpense
  dsimp only
  split_ifs
  · exact h
  · refine List.forall_mem_append.2 ⟨reduceExpense_finite h hnet hrate, ?_⟩
    refine List.forall_mem_singleton.2 ⟨hnet, Ieee.isFinite_zero, fun x hx => ?_, fun x hx => ?_⟩
    · exact Option.some.inj hx ▸ Ieee.isFinite_mul.2 ⟨hnet, hrate⟩
    · exact Option.some.inj hx ▸ Ieee.isFinite_zero

/-- After the split only the expense leg has changed, and the stock value stands on its own. -/
theorem splitGrni_finite_only
    (h : ∀ entry ∈ splitGrniFromExpense id entries payload items settings, entry.Finite) :
    (∀ line ∈ stockLines payload items, (lineAmount line).IsFinite) ∧
      ∀ entry ∈ entries, entry.id ≠ s!"GL-{id}-debit" → entry.Finite := by
  rw [← stockNet_finite]
  unfold splitGrniFromExpense at h
  dsimp only at h
  split_ifs at h with hsmall
  · refine ⟨?_, fun entry hentry _ => h entry hentry⟩
    by_contra hnet
    exact Ieee.not_abs_lt hnet _ hsmall
  · obtain ⟨hreduced, hgrni⟩ := List.forall_mem_append.1 h
    exact ⟨(List.forall_mem_singleton.1 hgrni).debit,
      fun entry hentry hid => hreduced entry (mem_reduceExpense hentry hid)⟩

end Legs

/-! ### What was submitted is what is read -/

/-- The fields the derivation of a submit reads numbers and movements from. -/
def readFields : List String :=
  ["items", "taxes", "accounts", "references", "conversion_rate", "paid_amount", "net_amount",
    "tax_amount", "amount", "update_stock", "set_warehouse", "stock_entry_type", "is_return",
    "return_against"]

section Reads
variable {payload payload' : Map} {doctype id : String}

theorem arrayOf_congr {field : String} (h : payload.get field = payload'.get field) :
    arrayOf payload field = arrayOf payload' field := by
  rw [arrayOf, arrayOf, h]

theorem sentNumber_congr {field : String} (h : payload.get field = payload'.get field) :
    sentNumber payload field = sentNumber payload' field := by
  rw [sentNumber, sentNumber, h]

variable (h : ∀ field ∈ readFields, payload.get field = payload'.get field)
include h

theorem deriveStockRows_congr : deriveStockRows doctype id payload = deriveStockRows doctype id payload' := by
  simp only [deriveStockRows, stockDocumentRows, stockEntryRows, itemsOf,
    arrayOf_congr (h "items" (by decide)), h "update_stock" (by decide),
    h "set_warehouse" (by decide), h "stock_entry_type" (by decide)]

theorem itemsOfSubmit_congr (codec : Codec) (view : StoreView) (companyId : Uuid) :
    itemsOfSubmit codec view companyId doctype id payload =
      itemsOfSubmit codec view companyId doctype id payload' := by
  simp only [itemsOfSubmit, loadItems, itemsOf, deriveStockRows_congr h,
    arrayOf_congr (h "items" (by decide))]

theorem costInputs_congr (view : StoreView) (companyId : Uuid) (items : Items) :
    costInputs view companyId items payload = costInputs view companyId items payload' := by
  simp only [costInputs, h "is_return" (by decide), h "return_against" (by decide)]

theorem lines_congr : lines payload = lines payload' := by
  simp only [lines, itemsOf, arrayOf_congr (h "items" (by decide))]

theorem stockLines_congr (items : Items) : stockLines payload items = stockLines payload' items := by
  simp only [stockLines, itemsOf, arrayOf_congr (h "items" (by decide))]

theorem taxRows_congr : taxRows payload = taxRows payload' := by
  simp only [taxRows, arrayOf_congr (h "taxes" (by decide))]

theorem deriveSettlements_congr : deriveSettlements payload = deriveSettlements payload' := by
  simp only [deriveSettlements, arrayOf_congr (h "references" (by decide))]

/-- The amounts read of two payloads that agree on the fields are alike, grand totals given. -/
theorem amountsFinite_congr (hgrand : (asNum (payload.get "grand_total")).IsFinite ↔
      (asNum (payload'.get "grand_total")).IsFinite) :
    AmountsFinite doctype payload ↔ AmountsFinite doctype payload' := by
  simp only [AmountsFinite, hgrand, conversionRateOf, taxRows_congr h, deriveSettlements_congr h,
    journalRows, arrayOf_congr (h "accounts" (by decide)), h "conversion_rate" (by decide),
    h "paid_amount" (by decide), h "net_amount" (by decide), h "tax_amount" (by decide),
    h "amount" (by decide)]

end Reads

/-- A grand total reads as a finite number exactly when what was sent is one. -/
theorem grand_finite_iff (payload : Map) : (asNum (payload.get "grand_total")).IsFinite ↔
    ∀ sent, sentNumber payload "grand_total" = some sent → sent.IsFinite := by
  cases hsent : sentNumber payload "grand_total" with
  | some sent =>
    rw [sentNumber_eq_some hsent]
    simp
  | none =>
    refine iff_of_true ?_ fun sent h => nomatch h
    unfold sentNumber at hsent
    split at hsent
    · rename_i hget
      rw [hget]
      exact Ieee.isFinite_zero
    · rename_i hget
      rw [hget]
      exact Ieee.isFinite_zero
    · rename_i s hget
      split_ifs at hsent with hblank
      rw [hget, asNum, hblank]
      exact ⟨0, by decide⟩
    · cases hsent

theorem readFields_unwritten : ∀ field ∈ readFields, field ∉ writtenFields := by
  decide

theorem readFields_no_total :
    ∀ field ∈ readFields, field ≠ "grand_total" ∧ field ≠ "outstanding_amount" := by
  decide

/-- What the posted payload says of what was submitted. -/
structure CarriedOver (cmd : SubmitCommand) (payload : Map) : Prop where
  reads : ∀ field ∈ readFields, payload.get field = (submitted cmd).get field
  grand : (asNum (payload.get "grand_total")).IsFinite ↔
    (asNum ((submitted cmd).get "grand_total")).IsFinite
  checked : CheckedFinite cmd.doctype (submitted cmd)
  gross : cmd.doctype = "Expense" → (asNum (payload.get "gross_amount")).IsFinite
  invoiced : cmd.doctype ∈ settleableDoctypes →
    ∃ computed : Ieee, (computed.IsFinite ↔
        (∀ line ∈ lines (submitted cmd), (lineAmount line).IsFinite) ∧
          ∀ row ∈ taxRows (submitted cmd), (asNum (row.get "tax_amount")).IsFinite) ∧
      payload.get "outstanding_amount" =
        some (json ((sentNumber (submitted cmd) "grand_total").getD computed))

/-- An invoice's totals touch nothing but the grand total and the outstanding amount. -/
theorem CarriedOver.of_totals {cmd : SubmitCommand} {checked payload : Map} {track : Bool}
    (hkept : ∀ field ∉ writtenFields, checked.get field = (submitted cmd).get field)
    (hchecked : CheckedFinite cmd.doctype (submitted cmd)) (hexpense : cmd.doctype ≠ "Expense")
    (htrack : cmd.doctype ∈ settleableDoctypes → track = true)
    (hok : validateInvoiceTotals checked track = .ok payload) : CarriedOver cmd payload := by
  have hreads : ∀ field ∈ readFields, checked.get field = (submitted cmd).get field :=
    fun field hfield => hkept field (readFields_unwritten field hfield)
  have hsent := sentNumber_congr (hkept "grand_total" (by decide))
  obtain ⟨computed, hcomputed, rfl⟩ := validateInvoiceTotals_ok hok
  constructor
  case reads =>
    intro field hfield
    obtain ⟨hgrand, houtstanding⟩ := readFields_no_total field hfield
    rw [writeTotals_get hgrand houtstanding, hreads field hfield]
  case grand => rw [writeTotals_grand, grand_finite_iff, hsent]
  case checked => exact hchecked
  case gross => exact fun h => absurd h hexpense
  case invoiced =>
    intro hinvoice
    refine ⟨computed, ?_, ?_⟩
    · rw [hcomputed, lines_congr hreads, taxRows_congr hreads]
    · rw [htrack hinvoice, writeTotals_outstanding, hsent]

theorem preparePayload_carriedOver {view : StoreView} {env : Env} {companyId : Uuid}
    {cmd : SubmitCommand} {documentId : String} {prepared : Prepared}
    (h : preparePayload view env companyId cmd documentId = .ok prepared) :
    CarriedOver cmd prepared.payload := by
  obtain ⟨checked, hkept, hgross, hchecked, htotals⟩ := preparePayload_ok h
  unfold validateTotals at htotals
  split_ifs at htotals with hinvoice hpos
  · obtain ⟨-, -, hok⟩ := Except.bind_eq_ok.1 htotals
    refine .of_totals hkept hchecked (fun heq => ?_) (fun _ => rfl) hok
    rw [heq] at hinvoice
    exact absurd hinvoice (by decide)
  · obtain ⟨-, -, hok⟩ := Except.bind_eq_ok.1 htotals
    refine .of_totals hkept hchecked (fun heq => ?_) (fun hin => absurd hin hinvoice) hok
    exact absurd (heq.symm.trans hpos) (by decide)
  · obtain rfl := Except.ok.inj htotals
    exact
      { reads := fun field hfield => hkept field (readFields_unwritten field hfield)
        grand := by rw [hkept "grand_total" (by decide)]
        checked := hchecked
        gross := hgross
        invoiced := fun hin => absurd hin hinvoice }

theorem AmountsFinite.invoice {doctype : String} {payload : Map} (h : AmountsFinite doctype payload)
    (hinvoice : doctype ∈ settleableDoctypes) : (asNum (payload.get "grand_total")).IsFinite ∧
      ∀ row ∈ taxRows payload, (asNum (row.get "tax_amount")).IsFinite := by
  simp only [settleableDoctypes, List.mem_cons, List.not_mem_nil, or_false] at hinvoice
  rcases hinvoice with rfl | rfl
  · exact ⟨h.1, fun row hrow => (h.2.1 row hrow).2⟩
  · exact ⟨h.1, fun row hrow => (h.2.1 row hrow).2⟩

/-- An invoice of finite amounts starts with a number as its outstanding amount. -/
theorem CarriedOver.outstanding {cmd : SubmitCommand} {payload : Map} (hcarried : CarriedOver cmd payload)
    (hinvoice : cmd.doctype ∈ settleableDoctypes)
    (hamounts : AmountsFinite cmd.doctype (submitted cmd))
    (hlines : sentNumber (submitted cmd) "grand_total" = none →
      ∀ line ∈ lines (submitted cmd), (lineAmount line).IsFinite) :
    ∃ q, payload.get "outstanding_amount" = some (.num q) := by
  obtain ⟨computed, hcomputed, houtstanding⟩ := hcarried.invoiced hinvoice
  obtain ⟨hread, htaxes⟩ := hamounts.invoice hinvoice
  have hgrand : ((sentNumber (submitted cmd) "grand_total").getD computed).IsFinite := by
    cases hsent : sentNumber (submitted cmd) "grand_total" with
    | some sent => exact (grand_finite_iff _).1 hread sent hsent
    | none => exact hcomputed.2 ⟨hlines hsent, htaxes⟩
  obtain ⟨q, hq⟩ := json_eq_num.2 hgrand
  exact ⟨q, by rw [houtstanding, hq]⟩

/-! ### Payments -/

/-- The stored amounts a submit computes with are finite: what the rows of the store hold is by their
type, and the grand total of a posted invoice, which stands in its payload, is by this. -/
def StoredFinite (view : StoreView) (companyId : Uuid) : Prop :=
  ∀ doctype documentId invoice, view.postedDocument companyId doctype documentId = some invoice →
    (asNum (invoice.payload.get "grand_total")).IsFinite

section Payments
variable {view : StoreView} {companyId : Uuid} {settlements : List Settlement}

theorem outstandingUpdate_finite (hstored : StoredFinite view companyId)
    (hsettled : ∀ s ∈ settlements, s.allocatedAmount.IsFinite) {key : String × String}
    {update : String × String × Ieee}
    (hok : outstandingUpdate view companyId settlements key = .ok update) : update.2.2.IsFinite := by
  unfold outstandingUpdate at hok
  cases hinvoice : view.postedDocument companyId key.1 key.2 with
  | none =>
    rw [hinvoice] at hok
    cases hok
  | some invoice =>
    rw [hinvoice] at hok
    simp only [Except.throw_bind, Except.ite_throw_eq_ok, Except.pure_eq_ok] at hok
    obtain ⟨-, -, rfl⟩ := hok
    have hgrand := hstored _ _ _ hinvoice
    have hnew : (allocatedTo key settlements).IsFinite := by
      rw [allocatedTo, Ieee.isFinite_sum, List.forall_mem_map]
      exact fun s hs => hsettled s (List.mem_filter.1 hs).1
    show (outstandingAmount _ _).IsFinite
    rw [outstandingAmount, Ieee.isFinite_sub, Ieee.isFinite_sum]
    simp [hgrand, hnew, settledOn]

theorem outstandingLoop_finite
    {update : String × String → Except PostingError (String × String × Ieee)}
    (hupdate : ∀ key out, update key = .ok out → out.2.2.IsFinite) {news : List Settlement}
    {seen : List (String × String)} {updates : List (String × String × Ieee)}
    (hok : outstandingLoop update news seen = .ok updates) : ∀ out ∈ updates, out.2.2.IsFinite := by
  induction news generalizing seen updates with
  | nil =>
    obtain rfl := Except.ok.inj hok
    simp
  | cons s rest ih =>
    unfold outstandingLoop at hok
    split_ifs at hok
    · exact ih hok
    · simp only [Except.bind_eq_ok, Except.pure_eq_ok] at hok
      obtain ⟨head, hhead, tail, htail, rfl⟩ := hok
      exact List.forall_mem_cons.2 ⟨hupdate _ _ hhead, ih htail⟩

/-- A payment posts its settlements as they are read; nothing else settles anything. -/
theorem paymentRows_ok {doctype : String} {payload : Map} {updates : List (String × String × Ieee)}
    (hok : paymentRows view companyId doctype payload = .ok (settlements, updates)) :
    (∀ s ∈ settlements, doctype = "Payment Entry") ∧
      (doctype = "Payment Entry" → settlements = deriveSettlements payload) ∧
      (StoredFinite view companyId → (∀ s ∈ settlements, s.allocatedAmount.IsFinite) →
        ∀ update ∈ updates, update.2.2.IsFinite) := by
  unfold paymentRows at hok
  split_ifs at hok with hpayment
  · simp only [Except.bind_eq_ok, Except.pure_eq_ok, Prod.mk.injEq] at hok
    obtain ⟨-, -, updates', hupdates, rfl, rfl⟩ := hok
    refine ⟨fun _ _ => hpayment, fun _ => rfl, fun hstored hsettled => ?_⟩
    exact outstandingLoop_finite (fun key out => outstandingUpdate_finite hstored hsettled) hupdates
  · obtain ⟨rfl, rfl⟩ := Prod.mk.inj (Except.ok.inj hok)
    simp [hpayment]

end Payments

/-! ### The whole submit -/

section Submit
variable {codec : Codec} {view : StoreView} {env : Env} {companyId : Uuid} {cmd : SubmitCommand}
  {documentId : String} {actor : Actor} {commit : PostingCommit}

theorem buildSubmit_ok
    (h : buildSubmit codec view env companyId cmd documentId actor = .ok commit) :
    ∃ prepared settlements updates,
      preparePayload view env companyId cmd documentId = .ok prepared ∧
      paymentRows view companyId cmd.doctype prepared.payload = .ok (settlements, updates) ∧
      let rows := deriveRows codec view companyId cmd.doctype documentId prepared.payload
      commit =
        { doctype := cmd.doctype
          payload := storedPayload cmd actor prepared.payload
          glEntries := rows.gl
          stockLedgerEntries := rows.sles
          partyTransactions := rows.party
          taxTransactions := rows.tax
          settlements
          bins := recomputeBins rows.ledgers
          outstandingUpdates := updates } := by
  simp only [buildSubmit, Except.bind_eq_ok, Except.pure_eq_ok] at h
  obtain ⟨prepared, hprepared, -, -, -, -, -, -, ⟨settlements, updates⟩, hpayment, h⟩ := h
  exact ⟨prepared, settlements, updates, hprepared, hpayment, h.symm⟩

/-- The rows and the cache of a submit are finite when what it carries over is. -/
theorem deriveRows_finite {doctype id : String} {payload : Map}
    (hamounts : AmountsFinite doctype payload)
    (hgross : doctype = "Expense" → (asNum (payload.get "gross_amount")).IsFinite)
    (hmovements : MovementsFinite
      (costInputs view companyId (itemsOfSubmit codec view companyId doctype id payload) payload) []
      (movementsOf (itemsOfSubmit codec view companyId doctype id payload) doctype id payload))
    (hsplit : doctype = "Purchase Invoice" →
      ∀ line ∈ stockLines payload (itemsOfSubmit codec view companyId doctype id payload),
        (lineAmount line).IsFinite) :
    ∀ entry ∈ (deriveRows codec view companyId doctype id payload).gl, entry.Finite := by
  have hgl : ∀ entry ∈ (monetaryRows doctype id payload).1, entry.Finite :=
    (monetaryRows_finite hamounts hgross).1
  have hlegs : ∀ entry ∈ stockGlLegs doctype _
      (itemsOfSubmit codec view companyId doctype id payload) (view.companySettings companyId),
      entry.Finite :=
    stockGlLegs_finite (costing_rows_finite hmovements)
  have hall := List.forall_mem_append.2 ⟨hgl, hlegs⟩
  unfold deriveRows
  dsimp only
  split_ifs with hpurchase
  · refine splitGrni_finite hall (hsplit hpurchase) ?_
    subst hpurchase
    exact hamounts.2.2
  · exact hall

/-- The other way round: the amounts, and the stock lines of a Purchase Invoice, can be read off the
rows. -/
theorem amountsFinite_of_deriveRows {doctype id : String} {payload : Map}
    (hgl : ∀ entry ∈ (deriveRows codec view companyId doctype id payload).gl, entry.Finite)
    (htax : ∀ txn ∈ (deriveRows codec view companyId doctype id payload).tax, txn.Finite)
    (hsettled : doctype = "Payment Entry" →
      ∀ s ∈ deriveSettlements payload, s.allocatedAmount.IsFinite) :
    AmountsFinite doctype payload ∧ (doctype = "Purchase Invoice" →
      ∀ line ∈ stockLines payload (itemsOfSubmit codec view companyId doctype id payload),
        (lineAmount line).IsFinite) := by
  unfold deriveRows at hgl
  dsimp only at hgl
  split_ifs at hgl with hpurchase
  · obtain ⟨hlines, hkept⟩ := splitGrni_finite_only hgl
    have hrows : ∀ entry ∈ (monetaryRows doctype id payload).1,
        (doctype = "Purchase Invoice" → entry.id ≠ s!"GL-{id}-debit") → entry.Finite :=
      fun entry hentry hid => hkept entry (List.mem_append_left _ hentry) (hid hpurchase)
    exact ⟨amountsFinite_of_rows hrows htax hsettled, fun _ => hlines⟩
  · have hrows : ∀ entry ∈ (monetaryRows doctype id payload).1,
        (doctype = "Purchase Invoice" → entry.id ≠ s!"GL-{id}-debit") → entry.Finite :=
      fun entry hentry _ => hgl entry (List.mem_append_left _ hentry)
    exact ⟨amountsFinite_of_rows hrows htax hsettled, fun h => absurd h hpurchase⟩

/-- Every amount a submit posts is finite if and only if what it carries over from its command is. -/
theorem posted_amounts_finite_iff (hstored : StoredFinite view companyId)
    (h : buildSubmit codec view env companyId cmd documentId actor = .ok commit) :
    commit.Finite ↔ PostsFinite codec view companyId cmd.doctype documentId (submitted cmd) := by
  obtain ⟨prepared, settlements, updates, hprepared, hpayment, rfl⟩ := buildSubmit_ok h
  have hcarried := preparePayload_carriedOver hprepared
  obtain ⟨hpays, hderived, hupdates⟩ := paymentRows_ok hpayment
  have hitems : itemsOfSubmit codec view companyId cmd.doctype documentId prepared.payload =
      itemsOfSubmit codec view companyId cmd.doctype documentId (submitted cmd) :=
    itemsOfSubmit_congr hcarried.reads codec view companyId
  have hrows : deriveStockRows cmd.doctype documentId prepared.payload =
      deriveStockRows cmd.doctype documentId (submitted cmd) :=
    deriveStockRows_congr hcarried.reads
  have hamounts : AmountsFinite cmd.doctype prepared.payload ↔
      UncheckedFinite cmd.doctype (submitted cmd) :=
    (amountsFinite_congr hcarried.reads hcarried.grand).trans (amountsFinite_iff hcarried.checked)
  constructor
  · intro hfinite
    obtain ⟨hposted, hsplit⟩ := amountsFinite_of_deriveRows hfinite.gl hfinite.tax fun hpe => by
      rw [← hderived hpe]
      exact hfinite.settlements
    have hledgers := (Ledgers.recomputeBins_finite _).1 hfinite.bins
    have hmovements := (costing_finite_iff _ _).1 hledgers
    constructor
    case amounts => exact hamounts.1 hposted
    case lines =>
      intro hinvoice hunsent
      obtain ⟨computed, hcomputed, houtstanding⟩ := hcarried.invoiced hinvoice
      obtain ⟨q, hq⟩ := hfinite.invoiced hinvoice
      dsimp only at hq
      rw [storedPayload_get (by decide) (by decide), houtstanding, hunsent] at hq
      exact (hcomputed.1 (json_eq_num.1 ⟨q, Option.some.inj hq⟩)).1
    case movements =>
      rw [← hitems, movementsOf, ← hrows, ← costInputs_congr hcarried.reads]
      exact hmovements
    case split =>
      intro hpurchase
      rw [← hitems, ← stockLines_congr hcarried.reads]
      exact hsplit hpurchase
  · intro hposts
    have hposted := hamounts.2 hposts.amounts
    have hmovements := hposts.movements
    rw [← hitems, movementsOf, ← hrows, ← costInputs_congr hcarried.reads] at hmovements
    have hsplit : cmd.doctype = "Purchase Invoice" → ∀ line ∈ stockLines prepared.payload
        (itemsOfSubmit codec view companyId cmd.doctype documentId prepared.payload),
          (lineAmount line).IsFinite := by
      rw [hitems, stockLines_congr hcarried.reads]
      exact hposts.split
    have hsettled : ∀ s ∈ settlements, s.allocatedAmount.IsFinite := by
      intro s hs
      have hpe := hpays s hs
      rw [hderived hpe] at hs
      rw [hpe] at hposted
      exact hposted.2.2 s hs
    constructor
    case gl => exact deriveRows_finite hposted hcarried.gross hmovements hsplit
    case stock => exact costing_rows_finite hmovements
    case party =>
      have hrows : (∀ entry ∈ (monetaryRows cmd.doctype documentId prepared.payload).1, entry.Finite) ∧
          ∀ txn ∈ (monetaryRows cmd.doctype documentId prepared.payload).2, txn.Finite :=
        monetaryRows_finite hposted hcarried.gross
      exact hrows.2
    case tax => exact deriveSubledgerRows_tax_finite hposted
    case settlements => exact hsettled
    case bins => exact (Ledgers.recomputeBins_finite _).2 ((costing_finite_iff _ _).2 hmovements)
    case outstanding => exact hupdates hstored hsettled
    case invoiced =>
      intro hinvoice
      rw [storedPayload_get (by decide) (by decide)]
      exact hcarried.outstanding hinvoice ((amountsFinite_iff hcarried.checked).2 hposts.amounts) (hposts.lines hinvoice)

end Submit

/-- Cash against sales, at a rate. -/
def journalOf (rate : Value) : SubmitCommand :=
  let line (account : String) (debit credit : Int) : Value :=
    .obj [("account", .string account), ("debit", .int debit), ("credit", .int credit)]
  { doctype := "Journal Entry"
    documentId := some "JE-1"
    payload := [("accounts", .array [line "Cash" 5 0, line "Sales" 0 5]), ("conversion_rate", rate),
      ("posting_date", .string "2026-01-05")]
    items := []
    idempotencyKey := none
    offlineFiscal := false }

/-- What a new store builds of it. -/
def builtJournal (rate : Value) : Except PostingError PostingCommit :=
  buildSubmit serdeCodec (Inner.view {}) ⟨0, "2026-01-05", 0⟩ 1 (journalOf rate) "JE-1"
    ⟨some 7, some 5, none⟩

theorem storedFinite_new : StoredFinite (Inner.view {}) 1 := by
  intro doctype documentId invoice hinvoice
  cases hinvoice

/-- A rate that reads as NaN counts as 1, and the entry posts what it says. -/
theorem posted_amounts_finite_rate :
    ∃ commit, builtJournal (.string "NaN") = .ok commit ∧ commit.Finite := by
  have hok : (builtJournal (.string "NaN")).toOption.isSome = true := by decide +kernel
  obtain ⟨commit, hbuilt⟩ := Except.isSome_toOption.1 hok
  refine ⟨commit, hbuilt, (posted_amounts_finite_iff storedFinite_new hbuilt).2 ?_⟩
  have hrate : (conversionRateOf (submitted (journalOf (.string "NaN")))).IsFinite := by
    decide +kernel
  exact
    { amounts := hrate
      lines := fun h => absurd h (by decide)
      movements := trivial
      split := fun h => absurd h (by decide) }

/-- A rate that reads as infinity passes every check, and the base amounts are posted with it: infinite
where the leg has an amount, NaN where it has none. -/
theorem infinite_rate_posted : StoredFinite (Inner.view {}) 1 ∧
    ∃ commit, builtJournal (.string "inf") = .ok commit ∧ ¬ commit.Finite := by
  refine ⟨storedFinite_new, ?_⟩
  have hdebits : ((builtJournal (.string "inf")).toOption.map fun commit =>
      commit.glEntries.map GlEntry.baseDebit) = some [some (.inf false), some .nan] := by
    decide +kernel
  obtain ⟨commit, hbuilt, hlegs⟩ := Except.map_toOption.1 hdebits
  refine ⟨commit, hbuilt, fun hfinite => ?_⟩
  have hnan : some Ieee.nan ∈ commit.glEntries.map GlEntry.baseDebit := by
    rw [hlegs]
    simp
  obtain ⟨entry, hentry, hdebit⟩ := List.mem_map.1 hnan
  exact Ieee.not_isFinite_nan ((hfinite.gl entry hentry).baseDebit _ hdebit)

end AtlasTeam.F64
