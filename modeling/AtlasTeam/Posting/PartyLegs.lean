import AtlasTeam.Posting.Purchases

/-!
# The party subledgers and the legs that name a party

An invoice, an unpaid Expense and a Journal Entry line put one amount on a party twice: as a row of its subledger
and as a general ledger leg that names it. A Payment Entry has the row only, since its legs name no party. So what
a voucher's rows put on a party is what its legs do, less what it pays (`Command.build_party`), in the currency of
the transaction and in base.
-/

namespace AtlasTeam

/-- What a debit does to what a subledger shows: it raises what a customer owes and lowers what a supplier is
owed. -/
def PartyKind.side : PartyKind → ℚ
  | .customer => 1
  | .supplier => -1

/-- The `payment_type` that settles with a kind of party. -/
def PartyKind.paymentType : PartyKind → String
  | .customer => "Receive"
  | .supplier => "Pay"

section Amounts
variable (kind : PartyKind) (party : String)

/-- The leg names the party, as one of a subledger. -/
def GlEntry.names (entry : GlEntry) : Bool :=
  entry.partyType.bind PartyKind.parse = some kind && entry.party = some party

def PartyTransaction.isOf (txn : PartyTransaction) : Bool := txn.kind = kind && txn.party = party

/-- What the legs that name a party put on it. -/
def legAmount (gl : List GlEntry) : ℚ :=
  ((gl.filter (GlEntry.names kind party)).map fun entry => kind.side * entry.difference).sum

/-- What subledger rows put on a party. -/
def rowAmount (rows : List PartyTransaction) : ℚ :=
  ((rows.filter (PartyTransaction.isOf kind party)).map PartyTransaction.amount).sum

/-- What a payment to or from the party pays. -/
def paidAmount (payload : Map) : ℚ :=
  if asNonEmpty (payload.get "party") = some party ∧
      asNonEmpty (payload.get "payment_type") = some kind.paymentType then
    asNum (payload.get "paid_amount")
  else 0

end Amounts

section Sums
variable {kind : PartyKind} {party : String}

@[simp] theorem legAmount_nil : legAmount kind party [] = 0 := rfl

@[simp] theorem legAmount_cons (entry : GlEntry) (gl : List GlEntry) : legAmount kind party (entry :: gl) =
    (if entry.names kind party then kind.side * entry.difference else 0) + legAmount kind party gl := by
  rw [legAmount, List.filter_cons]
  split_ifs
  · rfl
  · exact (zero_add _).symm

@[simp] theorem legAmount_append (gl gl' : List GlEntry) :
    legAmount kind party (gl ++ gl') = legAmount kind party gl + legAmount kind party gl' := by
  rw [legAmount, List.filter_append, List.map_append, List.sum_append]
  rfl

/-- Legs without a party put nothing on one. -/
theorem legAmount_eq_zero {gl : List GlEntry} (h : ∀ entry ∈ gl, entry.party = none) :
    legAmount kind party gl = 0 := by
  have hnone : gl.filter (GlEntry.names kind party) = [] :=
    List.filter_eq_nil_iff.2 fun entry hentry hnames => by simp [GlEntry.names, h entry hentry] at hnames
  rw [legAmount, hnone]
  rfl

@[simp] theorem RowContext.gl_names (ctx : RowContext) (id account : String) (debit credit : ℚ)
    (partyType name : Option String) : (ctx.gl id account debit credit partyType name).names kind party =
      (partyType.bind PartyKind.parse = some kind && name = some party) := rfl

@[simp] theorem rowAmount_nil : rowAmount kind party [] = 0 := rfl

@[simp] theorem rowAmount_cons (txn : PartyTransaction) (rows : List PartyTransaction) :
    rowAmount kind party (txn :: rows) =
      (if txn.isOf kind party then txn.amount else 0) + rowAmount kind party rows := by
  rw [rowAmount, List.filter_cons]
  split_ifs
  · rfl
  · exact (zero_add _).symm

/-- The due date of a row is not looked at. -/
theorem rowAmount_undated (txn : PartyTransaction) :
    rowAmount kind party [{ txn with dueDate := none }] = rowAmount kind party [txn] := by
  rw [rowAmount_cons, rowAmount_cons]
  rfl

/-- Lines that each put one amount on a party twice. -/
theorem amounts_of_lines {α : Type} {leg : α → GlEntry} {row : α → Option PartyTransaction}
    (h : ∀ line, (if (leg line).names kind party then kind.side * (leg line).difference else 0) =
      (row line).elim 0 fun txn => if txn.isOf kind party then txn.amount else 0) (lines : List α) :
    rowAmount kind party (lines.filterMap row) = legAmount kind party (lines.map leg) := by
  induction lines with
  | nil => rfl
  | cons line lines ih =>
    rw [List.map_cons, legAmount_cons, h line, ← ih, List.filterMap_cons]
    cases row line with
    | none => exact (zero_add _).symm
    | some txn => exact rowAmount_cons txn _

end Sums

/-! ### The vouchers -/

section Derive
variable {kind : PartyKind} {party : String} (ctx : RowContext) (payload : Map)

theorem taxLegs_party {isOutput : Bool} {entry : GlEntry} (h : entry ∈ taxLegs ctx payload isOutput) :
    entry.party = none := by
  obtain ⟨⟨row, i⟩, -, hrow⟩ := List.mem_filterMap.1 h
  simp only at hrow
  split at hrow
  · cases hrow
  · split_ifs at hrow <;> exact (Option.some.inj hrow) ▸ rfl

/-- One amount on a party that may be named: the leg and the row. -/
theorem amounts_of_invoice {kind' : PartyKind} {transType : PartyTransType} (id account : String) (amount : ℚ)
    (name : Option String) :
    rowAmount kind party (name.toList.map fun name => partyTxn ctx payload kind' transType name amount) =
      legAmount kind party [match kind' with
        | .customer => ctx.gl id account amount 0 (some "Customer") name
        | .supplier => ctx.gl id account 0 amount (some "Supplier") name] := by
  cases name with
  | none => cases kind' <;> simp
  | some name =>
    cases kind' <;> cases kind <;>
      simp [partyTxn, PartyTransaction.isOf, PartyKind.parse, PartyKind.side]

/-- A Journal Entry line that names a party. -/
theorem amounts_of_journal (entry : Map × Nat) :
    let leg := { ctx.gl s!"GL-{ctx.documentId}-{entry.2}" (accountField entry.1 "account")
        (asNum (entry.1.get "debit")) (asNum (entry.1.get "credit")) none (asNonEmpty (entry.1.get "party")) with
      partyType := asNonEmpty (entry.1.get "party_type")
      costCenter := asNonEmpty (entry.1.get "cost_center") }
    (if leg.names kind party then kind.side * leg.difference else 0) =
      (journalAdjustment ctx payload entry.1 entry.2).elim 0 fun txn =>
        if txn.isOf kind party then txn.amount else 0 := by
  obtain ⟨row, i⟩ := entry
  intro leg
  have hnames : leg.names kind party = ((asNonEmpty (row.get "party_type")).bind PartyKind.parse = some kind &&
      asNonEmpty (row.get "party") = some party) := rfl
  have hdifference : leg.difference = asNum (row.get "debit") - asNum (row.get "credit") := rfl
  rw [hnames, hdifference, journalAdjustment]
  cases asNonEmpty (row.get "party") with
  | none => simp
  | some name =>
    cases (asNonEmpty (row.get "party_type")).bind PartyKind.parse with
    | none => simp
    | some kind' => cases kind' <;> cases kind <;> simp [partyTxn, PartyTransaction.isOf, PartyKind.side]

/-- The row of a payment. -/
theorem amounts_of_payment : rowAmount kind party
      (match asNonEmpty (payload.get "party"), asNonEmpty (payload.get "payment_type") with
        | some party, some "Receive" =>
          ([partyTxn ctx payload .customer .payment party (-asNum (payload.get "paid_amount"))],
            ([] : List TaxTransaction))
        | some party, some "Pay" =>
          ([partyTxn ctx payload .supplier .payment party (-asNum (payload.get "paid_amount"))], [])
        | _, _ => ([], [])).1 = -paidAmount kind party payload := by
  unfold paidAmount
  cases asNonEmpty (payload.get "party") with
  | none => simp
  | some name =>
    split
    case h_1 name' hname htype =>
      obtain rfl := Option.some.inj hname
      rw [htype]
      cases kind with
      | customer =>
        by_cases hparty : name = party <;> simp [partyTxn, PartyTransaction.isOf, PartyKind.paymentType, hparty]
      | supplier => simp [partyTxn, PartyTransaction.isOf, PartyKind.paymentType]
    case h_2 name' hname htype =>
      obtain rfl := Option.some.inj hname
      rw [htype]
      cases kind with
      | customer => simp [partyTxn, PartyTransaction.isOf, PartyKind.paymentType]
      | supplier =>
        by_cases hparty : name = party <;> simp [partyTxn, PartyTransaction.isOf, PartyKind.paymentType, hparty]
    case h_3 hreceive hpay =>
      have hother : asNonEmpty (payload.get "payment_type") ≠ some kind.paymentType := by
        intro htype
        cases kind with
        | customer => exact hreceive name rfl htype
        | supplier => exact hpay name rfl htype
      simp [hother]

/-- The rows of a voucher put on a party what its legs do, less what it pays. -/
theorem deriveSubledgerRows_amount : rowAmount kind party (deriveSubledgerRows ctx payload).1 =
    legAmount kind party (deriveMonetaryGl ctx payload) -
      if ctx.doctype = "Payment Entry" then paidAmount kind party payload else 0 := by
  have htax : ∀ isOutput, legAmount kind party (taxLegs ctx payload isOutput) = 0 :=
    fun _ => legAmount_eq_zero fun _ => taxLegs_party ctx payload
  unfold deriveMonetaryGl
  split
  case h_1 h =>
    simp only [deriveSubledgerRows, h, amounts_of_invoice ctx payload s!"GL-{ctx.documentId}-debit"
      (accountField payload "debit_to")]
    simp [htax]
  case h_2 h =>
    simp only [deriveSubledgerRows, h, amounts_of_invoice ctx payload s!"GL-{ctx.documentId}-credit"
      (accountField payload "credit_to")]
    simp [htax]
  case h_3 h => simp [deriveSubledgerRows, h, htax]
  case h_4 h =>
    have hlegs : ∀ (id id' account account' : String) (paid : ℚ), legAmount kind party
        [ctx.gl id account 0 paid none none, ctx.gl id' account' paid 0 none none] = 0 := by
      intro id id' account account' paid
      simp
    simp only [deriveSubledgerRows, h, hlegs, if_true, zero_sub]
    exact amounts_of_payment ctx payload
  case h_5 h =>
    have hexpense : ∀ account amount, legAmount kind party
        [ctx.gl s!"GL-{ctx.documentId}-debit" account amount 0 none none] = 0 := by simp
    have hvat : legAmount kind party (if asNum (payload.get "tax_amount") ≠ 0 then
        [ctx.gl s!"GL-{ctx.documentId}-tax" (accountField payload "tax_account")
          (asNum (payload.get "tax_amount")) 0 none none] else []) = 0 := by
      split_ifs <;> simp
    have hdoctype : ("Expense" = "Payment Entry") = False := by simp
    simp only [deriveSubledgerRows, h, hdoctype, if_false, sub_zero, legAmount_append, hexpense, zero_add]
    erw [hvat]
    rw [zero_add]
    cases isTrue (payload.get "is_paid") with
    | true => simp
    | false =>
      have howed : rowAmount kind party ((asNonEmpty (payload.get "supplier")).toList.map fun supplier =>
          partyTxn ctx payload .supplier .invoice supplier (asNum (payload.get "gross_amount"))) =
          legAmount kind party [ctx.gl s!"GL-{ctx.documentId}-credit" (accountField payload "credit_to") 0
            (asNum (payload.get "gross_amount")) (some "Supplier") (asNonEmpty (payload.get "supplier"))] :=
        amounts_of_invoice ctx payload _ _ _ _
      cases hsupplier : asNonEmpty (payload.get "supplier") with
      | none => simp
      | some supplier =>
        rw [hsupplier] at howed
        exact (rowAmount_undated _).trans howed
  case h_6 h => simp [deriveSubledgerRows, h]
  case h_7 h =>
    have hdoctype : ("Journal Entry" = "Payment Entry") = False := by simp
    simp only [deriveSubledgerRows, h, hdoctype, if_false, sub_zero]
    exact amounts_of_lines (amounts_of_journal ctx payload) (journalRows payload)
  case h_8 h₁ h₂ h₃ h₄ h₅ h₆ h₇ =>
    rw [if_neg h₄]
    simp [deriveSubledgerRows, *]

theorem deriveMonetaryGl_unstamped {entry : GlEntry} (h : entry ∈ deriveMonetaryGl ctx payload) :
    entry.baseDebit = none ∧ entry.baseCredit = none := by
  have htax : ∀ {isOutput}, entry ∈ taxLegs ctx payload isOutput →
      entry.baseDebit = none ∧ entry.baseCredit = none := by
    intro isOutput htax
    obtain ⟨⟨row, i⟩, -, hrow⟩ := List.mem_filterMap.1 htax
    simp only at hrow
    split at hrow
    · cases hrow
    · split_ifs at hrow <;> exact (Option.some.inj hrow) ▸ ⟨rfl, rfl⟩
  unfold deriveMonetaryGl at h
  split at h
  all_goals
    simp only [List.mem_append, List.mem_cons, List.not_mem_nil, or_false] at h
  · obtain (rfl | rfl) | h := h
    · exact ⟨rfl, rfl⟩
    · exact ⟨rfl, rfl⟩
    · exact htax h
  · obtain (rfl | rfl) | h := h
    · exact ⟨rfl, rfl⟩
    · exact ⟨rfl, rfl⟩
    · exact htax h
  · obtain (rfl | rfl) | h := h
    · exact ⟨rfl, rfl⟩
    · exact ⟨rfl, rfl⟩
    · exact htax h
  · obtain rfl | rfl := h
    · exact ⟨rfl, rfl⟩
    · exact ⟨rfl, rfl⟩
  · obtain (rfl | h) | rfl := h
    · exact ⟨rfl, rfl⟩
    · split_ifs at h
      · exact List.mem_singleton.1 h ▸ ⟨rfl, rfl⟩
      · exact absurd h List.not_mem_nil
    · exact ⟨rfl, rfl⟩
  · obtain rfl | rfl := h
    · exact ⟨rfl, rfl⟩
    · exact ⟨rfl, rfl⟩
  · obtain ⟨⟨row, i⟩, -, rfl⟩ := List.mem_map.1 h
    exact ⟨rfl, rfl⟩

theorem deriveSubledgerRows_unstamped {txn : PartyTransaction} (h : txn ∈ (deriveSubledgerRows ctx payload).1) :
    txn.baseAmount = txn.amount := by
  unfold deriveSubledgerRows at h
  split at h
  · obtain ⟨customer, -, rfl⟩ := List.mem_map.1 h
    rfl
  · obtain ⟨supplier, -, rfl⟩ := List.mem_map.1 h
    rfl
  · exact absurd h List.not_mem_nil
  · simp only at h
    split at h
    · exact List.mem_singleton.1 h ▸ rfl
    · exact List.mem_singleton.1 h ▸ rfl
    · exact absurd h List.not_mem_nil
  · simp only at h
    split at h
    · exact List.mem_singleton.1 h ▸ rfl
    · exact absurd h List.not_mem_nil
  · obtain ⟨⟨row, i⟩, -, hrow⟩ := List.mem_filterMap.1 h
    simp only [journalAdjustment, Option.bind_eq_bind, Option.bind_eq_some_iff, Option.pure_def,
      Option.some.injEq] at hrow
    obtain ⟨party, -, kind, -, rfl⟩ := hrow
    rfl
  · exact absurd h List.not_mem_nil

end Derive

/-! ### In base currency -/

section Owed
variable (kind : PartyKind) (party : String)

/-- What a leg puts on its party, in the currency of the transaction and in base. A leg without base amounts is in
base already. -/
def GlEntry.owed (entry : GlEntry) : ℚ × ℚ :=
  (kind.side * entry.difference,
    kind.side * (entry.baseDebit.getD entry.debit - entry.baseCredit.getD entry.credit))

/-- What the legs that name a party put on it. -/
def legsOwed (gl : List GlEntry) : ℚ × ℚ := ((gl.filter (GlEntry.names kind party)).map (GlEntry.owed kind)).sum

/-- What subledger rows put on a party. -/
def rowsOwed (rows : List PartyTransaction) : ℚ × ℚ :=
  ((rows.filter (PartyTransaction.isOf kind party)).map fun txn => (txn.amount, txn.baseAmount)).sum

/-- What a payment pays, in its currency and in base. -/
def paidBy (payload : Map) : ℚ × ℚ :=
  (paidAmount kind party payload, paidAmount kind party payload * conversionRateOf payload)

/-- What a document pays to or from a party. -/
def PostedDocument.partyPaid (doc : PostedDocument) : ℚ × ℚ :=
  if doc.doctype = "Payment Entry" then doc.payload.asObject.elim 0 (paidBy kind party) else 0

end Owed

/-- The fields a payment is read from. -/
def paymentFields : List String := ["party", "payment_type", "paid_amount", "conversion_rate"]

section Base
variable {kind : PartyKind} {party : String} {rate : ℚ}

theorem paidBy_congr {payload payload' : Map}
    (h : ∀ field ∈ paymentFields, payload'.get field = payload.get field) :
    paidBy kind party payload' = paidBy kind party payload := by
  simp only [paidBy, paidAmount, conversionRateOf, h "party" (by decide), h "payment_type" (by decide),
    h "paid_amount" (by decide), h "conversion_rate" (by decide)]

theorem legsOwed_atRate {gl : List GlEntry} (h : ∀ entry ∈ gl,
      entry.baseDebit.getD entry.debit = entry.debit * rate ∧
      entry.baseCredit.getD entry.credit = entry.credit * rate) :
    legsOwed kind party gl = (legAmount kind party gl, legAmount kind party gl * rate) := by
  induction gl with
  | nil => exact Prod.ext rfl (zero_mul rate).symm
  | cons entry gl ih =>
    obtain ⟨⟨hdebit, hcredit⟩, hgl⟩ := List.forall_mem_cons.1 h
    have hrest := ih hgl
    rw [legAmount_cons]
    rw [legsOwed] at hrest ⊢
    rw [List.filter_cons]
    split_ifs
    · rw [List.map_cons, List.sum_cons, hrest, GlEntry.owed, hdebit, hcredit, GlEntry.difference]
      refine Prod.ext rfl ?_
      simp only [Prod.snd_add]
      ring
    · rw [hrest, zero_add]

theorem rowsOwed_atRate {rows : List PartyTransaction} (h : ∀ txn ∈ rows, txn.baseAmount = txn.amount * rate) :
    rowsOwed kind party rows = (rowAmount kind party rows, rowAmount kind party rows * rate) := by
  induction rows with
  | nil => exact Prod.ext rfl (zero_mul rate).symm
  | cons txn rows ih =>
    obtain ⟨htxn, hrows⟩ := List.forall_mem_cons.1 h
    have hrest := ih hrows
    rw [rowAmount_cons]
    rw [rowsOwed] at hrest ⊢
    rw [List.filter_cons]
    split_ifs
    · rw [List.map_cons, List.sum_cons, hrest, htxn]
      refine Prod.ext rfl ?_
      simp only [Prod.snd_add]
      ring
    · rw [hrest, zero_add]

theorem rowAmount_stamped (payload : Map) (rows : List PartyTransaction) :
    rowAmount kind party (rows.map (stampParty payload)) = rowAmount kind party rows := by
  induction rows with
  | nil => rfl
  | cons txn rows ih =>
    rw [List.map_cons, rowAmount_cons, rowAmount_cons, ih]
    rfl

theorem legAmount_stamped (payload : Map) (gl : List GlEntry) :
    legAmount kind party (gl.map (stampGl payload)) = legAmount kind party gl := by
  induction gl with
  | nil => rfl
  | cons entry gl ih =>
    rw [List.map_cons, legAmount_cons, legAmount_cons, ih]
    rfl

end Base

section Commit
variable {codec : Codec} {view : StoreView} {kind : PartyKind} {party : String}

/-- The legs of stock rows and what they move out of an expense name no party. -/
theorem deriveRows_names (settings : CompanySettings) (ctx : RowContext) (payload : Map) :
    (deriveRows codec view settings ctx payload).gl.filter (GlEntry.names kind party) =
      (if isBaseStamped ctx.doctype then (deriveMonetaryGl ctx payload).map (stampGl payload)
        else deriveMonetaryGl ctx payload).filter (GlEntry.names kind party) := by
  have hnone : ∀ {gl : List GlEntry}, (∀ entry ∈ gl, entry.party = none) →
      gl.filter (GlEntry.names kind party) = [] := by
    intro gl h
    exact List.filter_eq_nil_iff.2 fun entry hentry hnames => by simp [GlEntry.names, h entry hentry] at hnames
  have hstock : ∀ {sles items}, (stockGlLegs ctx sles items settings).filter (GlEntry.names kind party) = [] := by
    intro sles items
    refine hnone fun entry hentry => ?_
    obtain ⟨sle, -, account, amount, rfl | rfl⟩ := mem_stockGlLegs hentry
    · rfl
    · rfl
  by_cases hpurchase : ctx.doctype = "Purchase Invoice"
  · have htax : ((taxLegs ctx payload false).map (stampGl payload)).filter (GlEntry.names kind party) = [] := by
      refine hnone fun entry hentry => ?_
      obtain ⟨leg, hleg, rfl⟩ := List.mem_map.1 hentry
      show leg.party = none
      exact taxLegs_party ctx payload hleg
    have hexpense : ∀ items, (expenseLegs ctx items payload).filter (GlEntry.names kind party) = [] := by
      intro items
      refine hnone fun entry hentry => ?_
      simp only [expenseLegs] at hentry
      split_ifs at hentry
      · exact List.mem_singleton.1 hentry ▸ rfl
      · exact absurd hentry List.not_mem_nil
      · exact List.mem_singleton.1 hentry ▸ rfl
    have hgrni : ∀ items, (grniLegs ctx items settings payload).filter (GlEntry.names kind party) = [] := by
      intro items
      refine hnone fun entry hentry => ?_
      simp only [grniLegs] at hentry
      split_ifs at hentry
      · exact absurd hentry List.not_mem_nil
      · exact List.mem_singleton.1 hentry ▸ rfl
    have hmonetary : (deriveMonetaryGl ctx payload).map (stampGl payload) =
        [owedLeg ctx payload] ++ ([expenseLeg ctx payload (netAmount payload)] ++
          (taxLegs ctx payload false).map (stampGl payload)) := by
      simp only [deriveMonetaryGl, hpurchase]
      rfl
    have hleft : [expenseLeg ctx payload (netAmount payload)].filter (GlEntry.names kind party) = [] := rfl
    rw [purchaseInvoice_legs hpurchase, hpurchase, if_pos (by decide), hmonetary, ← List.singleton_append]
    simp only [List.filter_append, htax, hexpense, hgrni, hstock, hleft, List.append_nil]
  · simp only [deriveRows, if_neg hpurchase, List.filter_append]
    rw [hstock, List.append_nil]
    split_ifs
    · rfl
    · rfl

/-- What the rows of a submit put on a party. -/
theorem deriveRows_owed (codec : Codec) (view : StoreView) (settings : CompanySettings) (ctx : RowContext)
    (payload : Map) :
    let rows := deriveRows codec view settings ctx payload
    rowsOwed kind party rows.party = legsOwed kind party rows.gl -
      if ctx.doctype = "Payment Entry" then paidBy kind party payload else 0 := by
  intro rows
  have hamount : rowAmount kind party (deriveSubledgerRows ctx payload).1 = _ :=
    deriveSubledgerRows_amount ctx payload
  have hlegs : legsOwed kind party rows.gl = _ :=
    congrArg (fun gl => (gl.map (GlEntry.owed kind)).sum) (deriveRows_names settings ctx payload)
  have hparty : rows.party = if isBaseStamped ctx.doctype then
      (deriveSubledgerRows ctx payload).1.map (stampParty payload) else (deriveSubledgerRows ctx payload).1 := by
    simp only [rows, deriveRows]
    split_ifs <;> rfl
  rw [hlegs, hparty]
  let gl := deriveMonetaryGl ctx payload
  let txns := (deriveSubledgerRows ctx payload).1
  by_cases hstamped : isBaseStamped ctx.doctype = true
  · have hgl : legsOwed kind party (gl.map (stampGl payload)) =
        (legAmount kind party (gl.map (stampGl payload)),
          legAmount kind party (gl.map (stampGl payload)) * conversionRateOf payload) :=
      legsOwed_atRate fun entry hentry => by
        obtain ⟨leg, -, rfl⟩ := List.mem_map.1 hentry
        exact ⟨rfl, rfl⟩
    have hrows : rowsOwed kind party (txns.map (stampParty payload)) =
        (rowAmount kind party (txns.map (stampParty payload)),
          rowAmount kind party (txns.map (stampParty payload)) * conversionRateOf payload) :=
      rowsOwed_atRate fun txn htxn => by
        obtain ⟨row, -, rfl⟩ := List.mem_map.1 htxn
        rfl
    rw [if_pos hstamped, if_pos hstamped, hrows, rowAmount_stamped, hamount]
    refine Eq.trans ?_ (congrArg (fun owed => owed - _) hgl.symm)
    rw [legAmount_stamped]
    split_ifs
    · exact Prod.ext rfl (sub_mul _ _ _)
    · rw [sub_zero, sub_zero]
  · have hgl : legsOwed kind party gl = (legAmount kind party gl, legAmount kind party gl * 1) :=
      legsOwed_atRate fun entry hentry => by
        obtain ⟨hdebit, hcredit⟩ := deriveMonetaryGl_unstamped ctx payload hentry
        rw [hdebit, hcredit, mul_one, mul_one]
        exact ⟨rfl, rfl⟩
    have hrows : rowsOwed kind party txns = (rowAmount kind party txns, rowAmount kind party txns * 1) :=
      rowsOwed_atRate fun txn htxn => by
        rw [deriveSubledgerRows_unstamped ctx payload htxn, mul_one]
    have hpayment : ctx.doctype ≠ "Payment Entry" := by
      intro hdoctype
      rw [hdoctype] at hstamped
      exact hstamped (by decide)
    rw [if_neg hstamped, if_neg hstamped, hrows, hamount, if_neg hpayment, if_neg hpayment, sub_zero, sub_zero]
    exact hgl.symm

theorem paidBy_storedPayload (cmd : SubmitCommand) (actor : Actor) (payload : Map) :
    paidBy kind party (storedPayload cmd actor payload) = paidBy kind party payload := by
  refine paidBy_congr fun field hfield => ?_
  have hfiscal : field ≠ "offline_fiscal" := by
    rintro rfl
    exact absurd hfield (by decide)
  have hdevice : field ≠ "till_device" := by
    rintro rfl
    exact absurd hfield (by decide)
  rw [storedPayload]
  split_ifs
  · rw [Map.get_insert_ne _ hdevice, Map.get_insert_ne _ hfiscal]
  · rfl

/-- What an accepted submit puts on a party. -/
theorem buildSubmit_party {codec : Codec} {view : StoreView} {env : Env} {companyId : Uuid} {actor : Actor}
    {cmd : SubmitCommand} {documentId : String} {commit : PostingCommit}
    (h : buildSubmit codec view env companyId cmd documentId actor = .ok commit) :
    rowsOwed kind party commit.partyTransactions =
      legsOwed kind party commit.glEntries - commit.document.partyPaid kind party := by
  obtain ⟨prepared, shortfalls, settlements, updates, -, -, -, rfl⟩ := buildSubmit_ok h
  have howed : rowsOwed kind party _ = _ := deriveRows_owed codec view (view.companySettings companyId)
    (submitContext companyId cmd documentId prepared.postingDate) prepared.payload
  refine howed.trans (congrArg (fun paid => _ - paid) ?_)
  rw [← paidBy_storedPayload cmd actor]
  rfl

/-- What an accepted take-on puts on a party. -/
theorem buildOpening_party {codec : Codec} {view : StoreView} {env : Env} {companyId : Uuid} {actor : Actor}
    {cmd : SoloOpeningCommand} {sha : String} {commit : PostingCommit}
    (h : buildOpening codec view env companyId cmd sha actor = .ok commit) :
    rowsOwed kind party commit.partyTransactions =
      legsOwed kind party commit.glEntries - commit.document.partyPaid kind party := by
  obtain ⟨postingDate, stock, tb, continuations, -, -, rfl⟩ := buildOpening_ok h
  let ctx := openingContext companyId cmd postingDate
  have hlines : rowAmount kind party (cmd.lines.zipIdx.filterMap (openingParty ctx)) =
      legAmount kind party (cmd.lines.zipIdx.map (openingGl ctx)) := by
    refine amounts_of_lines (fun entry => ?_) _
    obtain ⟨line, i⟩ := entry
    have hnames : (openingGl ctx (line, i)).names kind party =
        (line.partyType.bind PartyKind.parse = some kind && line.party.map trim = some party) := rfl
    have hdifference : (openingGl ctx (line, i)).difference = line.debit - line.credit := rfl
    rw [hnames, hdifference, openingParty]
    cases line.partyType.bind PartyKind.parse with
    | none => simp
    | some kind' =>
      cases line.party.map trim with
      | none => simp
      | some name => cases kind' <;> cases kind <;> simp [PartyTransaction.isOf, PartyKind.side]
  have hlegs : legsOwed kind party (cmd.lines.zipIdx.map (openingGl ctx)) =
      (legAmount kind party (cmd.lines.zipIdx.map (openingGl ctx)),
        legAmount kind party (cmd.lines.zipIdx.map (openingGl ctx)) * 1) :=
    legsOwed_atRate fun entry hentry => by
      obtain ⟨line, -, rfl⟩ := List.mem_map.1 hentry
      exact ⟨(mul_one _).symm, (mul_one _).symm⟩
  have hrows : rowsOwed kind party (cmd.lines.zipIdx.filterMap (openingParty ctx)) =
      (rowAmount kind party (cmd.lines.zipIdx.filterMap (openingParty ctx)),
        rowAmount kind party (cmd.lines.zipIdx.filterMap (openingParty ctx)) * 1) :=
    rowsOwed_atRate fun txn htxn => by
      obtain ⟨line, -, hline⟩ := List.mem_filterMap.1 htxn
      simp only [openingParty, Option.bind_eq_bind, Option.bind_eq_some_iff, Option.pure_def,
        Option.some.injEq] at hline
      obtain ⟨kind', -, name, -, rfl⟩ := hline
      exact (mul_one _).symm
  have hpaid : PostedDocument.partyPaid kind party (openingCommit env companyId cmd sha actor postingDate
      (cmd.lines.zipIdx.map (openingGl ctx)) (cmd.lines.zipIdx.filterMap (openingParty ctx)) stock tb
      continuations).document = 0 := if_neg (show openingDoctype ≠ "Payment Entry" by decide)
  rw [hpaid, sub_zero]
  refine hrows.trans (Eq.trans ?_ hlegs.symm)
  rw [hlines]

end Commit

end AtlasTeam
