import AtlasTeam.Lib.Refusals
import AtlasTeam.Posting.Settlements

/-!
# Which check refuses with what

Refusals are told apart by their texts. The checks that every cancel makes are described by how their
texts start (`checkPeriodLock_refuses` and its like). Of all checks of a submit and a cancel only
`check_negative_stock` refuses for lack of stock, and of the checks of a cancel only the outstanding
amounts refuse for an invoice that is not submitted (`buildCancel_lost`, `restoredOutstanding_lost_iff`).
-/

namespace AtlasTeam

open Except (RefusesWith)

/-! ### The checks of a cancel -/

section Cancel
variable {P : PostingError → Prop} {payload : Map} {settings : CompanySettings} {view : StoreView}
  {companyId : Uuid}

theorem validatedPostingDate_refuses (h : ∀ rest, P (.validation ("posting_date " ++ rest)))
    (today : String) : RefusesWith P (validatedPostingDate today payload) := by
  unfold validatedPostingDate
  split
  · exact .ok _
  · exact .ok _
  · dsimp only
    refine .ite (fun _ => .ok _) fun _ => .ite (fun _ => .ok _) fun _ => .error ?_
    rw [String.append_assoc, String.append_assoc]
    exact h _
  · exact .error (h ("must be a YYYY-MM-DD string, got " ++ _))

theorem checkPeriodLock_refuses (h : ∀ rest, P (.validation ("posting date " ++ rest)))
    (postingDate : String) : RefusesWith P (checkPeriodLock settings postingDate) := by
  unfold checkPeriodLock
  split
  · refine .ite (fun _ => .error ?_) fun _ => .ok _
    simp only [toString, String.append_assoc]
    exact h _
  · exact .ok _

theorem checkUnsettled_refuses (h : ∀ reason, P (.conflict reason)) (cmd : CancelCommand) :
    RefusesWith P (checkUnsettled view companyId cmd) := by
  unfold checkUnsettled
  exact .ite (fun _ => .ite (fun _ => .error (h _)) fun _ => .ok _) fun _ => .ok _

theorem cancelDate_refuses (h : ∀ rest, P (.validation ("posting_date " ++ rest))) (env : Env)
    (document : PostedDocument) : RefusesWith P (cancelDate env document) := by
  unfold cancelDate
  split
  · exact validatedPostingDate_refuses h _
  · exact .ok _

theorem releaseDeposit_refuses (h : ∀ reason, P (.conflict reason)) (cmd : CancelCommand)
    (document : PostedDocument) : RefusesWith P (releaseDeposit view companyId cmd document) := by
  unfold releaseDeposit
  refine .ite (fun _ => ?_) fun _ => .ok _
  dsimp only
  split
  · exact .error (h _)
  · exact .ok _

theorem checkNegativeStock_refuses (h : ∀ rest, P (.validation ("insufficient stock: " ++ rest)))
    (ledgers : Ledgers) : RefusesWith P (checkNegativeStock settings ledgers) := by
  unfold checkNegativeStock
  refine .ite (fun _ => .ok _) fun _ => .forM fun entry _ => .ite (fun _ => .error ?_) fun _ => .ok _
  simp only [String.append_assoc]
  exact h _

/-- The loop refuses with what the updates of its invoices refuse with. -/
theorem outstandingLoop_refuses {update : String × String → Except PostingError (String × String × ℚ)}
    {settlements : List Settlement} (h : ∀ s ∈ settlements, RefusesWith P (update s.invoiceKey))
    (seen : List (String × String)) : RefusesWith P (outstandingLoop update settlements seen) := by
  induction settlements generalizing seen with
  | nil => exact .ok _
  | cons s rest ih =>
    obtain ⟨hhead, hrest⟩ := List.forall_mem_cons.1 h
    unfold outstandingLoop
    refine .ite (fun _ => ih hrest seen) fun _ => ?_
    exact hhead.bind fun head _ => (ih hrest _).bind fun tail _ => .ok _

end Cancel

/-! ### Refusals for lack of stock -/

/-- The error says that stock is lacking. -/
def PostingError.isShortage : PostingError → Bool
  | .validation reason => "insufficient stock: ".toList.isPrefixOf reason.toList
  | _ => false

/-- The computation is not refused for lack of stock. -/
abbrev SparesStock {α : Type} (x : Except PostingError α) : Prop :=
  x.RefusesWith fun e => e.isShortage = false

section Checks
variable {payload : Map} {settings : CompanySettings} {view : StoreView} {companyId : Uuid}

theorem validatedPostingDate_spares (today : String) : SparesStock (validatedPostingDate today payload) :=
  validatedPostingDate_refuses (fun rest => by simp [PostingError.isShortage, List.isPrefixOf]) today

theorem checkPeriodLock_spares (postingDate : String) : SparesStock (checkPeriodLock settings postingDate) :=
  checkPeriodLock_refuses (fun rest => by simp [PostingError.isShortage, List.isPrefixOf]) postingDate

/-! ### Deposits -/

theorem refuseForeignDeposit_spares (depositId : String) :
    SparesStock (refuseForeignDeposit depositId payload) := by
  unfold refuseForeignDeposit
  split
  · refine .ite (fun _ => .error ?_) fun _ => .ok _
    simp [PostingError.isShortage, List.isPrefixOf]
  · exact .ok _

/-- What stands against a deposit's use is no lack of stock. -/
theorem depositGuardViolation_text {guard : DepositGuard} {deposit : Option PostedDocument}
    {applications : List PostedDocument} {reason : String}
    (h : depositGuardViolation guard deposit applications = some reason) :
    (PostingError.validation reason).isShortage = false := by
  unfold depositGuardViolation at h
  split at h
  · split at h
    · rw [← Option.some.inj h]
      simp [PostingError.isShortage, toString, List.isPrefixOf]
    · dsimp only at h
      split_ifs at h
      · rw [← Option.some.inj h]
        simp [PostingError.isShortage, toString, List.isPrefixOf]
      · rw [← Option.some.inj h]
        simp [PostingError.isShortage, List.isPrefixOf]
  · dsimp only at h
    split_ifs at h
    rw [← Option.some.inj h]
    simp [PostingError.isShortage, List.isPrefixOf]

theorem depositApplication_spares : SparesStock (depositApplication view companyId payload) := by
  unfold depositApplication
  split
  · dsimp only
    refine .refusal (fun _ => ?_) fun _ => ?_
    · simp [PostingError.isShortage, toString, List.isPrefixOf]
    · split
      · refine .refusal (fun _ => ?_) fun _ => ?_
        · simp [PostingError.isShortage, List.isPrefixOf]
        · refine (refuseForeignDeposit_spares _).bind fun _ _ => ?_
          split
          · rename_i reason hreason
            exact .throw (depositGuardViolation_text hreason)
          · exact .ok _
      · refine .throw ?_
        simp [PostingError.isShortage, toString, List.isPrefixOf]
  · exact .ok _

/-! ### Journal Entry, Expense, Customer Deposit -/

theorem refuseForeignRate_spares {doctype : String} (hdoctype : doctype ∈ ["Expense", "Customer Deposit"]) :
    SparesStock (refuseForeignRate doctype payload) := by
  unfold refuseForeignRate
  split
  · refine .ite (fun _ => .error ?_) fun _ => .ok _
    simp only [List.mem_cons, List.not_mem_nil, or_false] at hdoctype
    rcases hdoctype with rfl | rfl <;> simp [PostingError.isShortage, List.isPrefixOf]
  · exact .ok _

/-- A refused amount is named by its row or its document. -/
theorem moneyField_spares {field what : String}
    (hwhat : ∀ rest, (PostingError.validation (what ++ rest)).isShortage = false) :
    SparesStock (moneyField payload field what) := by
  have hrefused : ∀ text, (PostingError.validation
      (what ++ ": " ++ field ++ " must be zero or more, got " ++ text)).isShortage = false := by
    intro text
    rw [String.append_assoc, String.append_assoc, String.append_assoc]
    exact hwhat _
  unfold moneyField
  dsimp only
  split
  · exact .error (hrefused _)
  · exact .ite (fun _ => .error (hrefused _)) fun _ => .ok _

theorem journalRow_spares (acc : JournalTotals) (entry : Value × Nat) : SparesStock (journalRow acc entry) := by
  obtain ⟨row, i⟩ := entry
  have hwhat : ∀ rest, (PostingError.validation (s!"accounts[{i}]" ++ rest)).isShortage = false := by
    simp [PostingError.isShortage, toString, List.isPrefixOf]
  unfold journalRow
  dsimp only
  split
  · refine (moneyField_spares hwhat).bind fun d _ => (moneyField_spares hwhat).bind fun c _ => ?_
    refine .refusal (fun _ => hwhat _) fun _ => ?_
    split
    · refine .refusal (fun _ => hwhat _) fun _ => .ok _
    · split
      · refine .refusal (fun _ => ?_) fun _ => .ok _
        rw [String.append_assoc, String.append_assoc]
        exact hwhat _
      · exact .ok _
  · exact .throw (by simp [PostingError.isShortage, toString, List.isPrefixOf])

theorem validateJournalEntry_spares : SparesStock (validateJournalEntry payload) := by
  unfold validateJournalEntry
  refine (RefusesWith.foldlM (fun acc entry _ => journalRow_spares acc entry) _).bind fun totals _ => ?_
  refine .refusal (fun _ => ?_) fun _ => .refusal (fun _ => ?_) fun _ => .ok _
  · simp [PostingError.isShortage, List.isPrefixOf]
  · simp [PostingError.isShortage, List.isPrefixOf]

theorem validateExpense_spares : SparesStock (validateExpense payload settings) := by
  have hwhat : ∀ rest, (PostingError.validation ("Expense" ++ rest)).isShortage = false := by
    simp [PostingError.isShortage, List.isPrefixOf]
  unfold validateExpense
  refine (refuseForeignRate_spares (by simp)).bind fun _ _ => ?_
  dsimp only
  refine (moneyField_spares hwhat).bind fun net _ => ?_
  refine .refusal (fun _ => by simp [PostingError.isShortage, List.isPrefixOf]) fun _ => ?_
  refine (moneyField_spares hwhat).bind fun tax _ => ?_
  split
  · refine .refusal (fun _ => by simp [PostingError.isShortage, List.isPrefixOf]) fun _ => ?_
    exact .refusal (fun _ => by simp [PostingError.isShortage, List.isPrefixOf]) fun _ => .ok _
  · exact .refusal (fun _ => by simp [PostingError.isShortage, List.isPrefixOf]) fun _ => .ok _

theorem validateCustomerDeposit_spares : SparesStock (validateCustomerDeposit payload) := by
  have hwhat : ∀ rest, (PostingError.validation ("Customer Deposit" ++ rest)).isShortage = false := by
    simp [PostingError.isShortage, List.isPrefixOf]
  unfold validateCustomerDeposit
  refine (refuseForeignRate_spares (by simp)).bind fun _ _ => (moneyField_spares hwhat).bind fun amount _ => ?_
  refine .refusal (fun _ => by simp [PostingError.isShortage, List.isPrefixOf]) fun _ => ?_
  refine .ite (fun _ => .throw ?_) fun _ => .ok _
  simp [PostingError.isShortage, List.isPrefixOf]

theorem validateC5Document_spares (doctype : String) :
    SparesStock (validateC5Document doctype payload settings) := by
  unfold validateC5Document
  split
  · exact validateJournalEntry_spares
  · exact validateExpense_spares
  · exact validateCustomerDeposit_spares.bind fun _ _ => .ok _
  · exact .ok _

/-! ### Tax rows and totals -/

theorem checkTaxRow_spares (isReturn : Bool) (entry : Map × Nat) : SparesStock (checkTaxRow isReturn entry) := by
  obtain ⟨row, index⟩ := entry
  have hrow : ∀ rest, (PostingError.validation (s!"taxes[{index}]: " ++ rest)).isShortage = false := by
    simp [PostingError.isShortage, toString, List.isPrefixOf]
  unfold checkTaxRow
  dsimp only
  refine .refusal (fun _ => by simp [PostingError.isShortage, toString, List.isPrefixOf]) fun _ => ?_
  refine .refusal (fun _ => by simp [PostingError.isShortage, toString, List.isPrefixOf]) fun _ => ?_
  refine .refusal (fun _ => by simp [PostingError.isShortage, toString, List.isPrefixOf]) fun _ => ?_
  refine .ite (fun _ => .throw ?_) fun _ => .ok _
  simp [PostingError.isShortage, toString, List.isPrefixOf]

theorem validateTaxRows_spares : SparesStock (validateTaxRows payload) :=
  .forM fun entry _ => checkTaxRow_spares _ entry

theorem lineTotal_spares (acc : ℚ × Nat) (entry : Map × Nat) : SparesStock (lineTotal acc entry) := by
  obtain ⟨line, index⟩ := entry
  unfold lineTotal
  dsimp only
  split
  · exact .ok _
  · exact .ok _
  · refine .ite (fun _ => .error ?_) fun _ => .ok _
    simp [PostingError.isShortage, toString, List.isPrefixOf]

theorem statedTotal_spares {field : String} (hfield : field ∈ ["total", "tax_total", "grand_total"])
    (computed tolerance : ℚ) (source : String) :
    SparesStock (statedTotal payload field computed tolerance source) := by
  unfold statedTotal
  split
  · refine .ite (fun _ => .error ?_) fun _ => .ok _
    simp only [List.mem_cons, List.not_mem_nil, or_false] at hfield
    rcases hfield with rfl | rfl | rfl <;> simp [PostingError.isShortage, List.isPrefixOf]
  · exact .ok _

theorem validateInvoiceTotals_spares (trackOutstanding : Bool) :
    SparesStock (validateInvoiceTotals payload trackOutstanding) := by
  unfold validateInvoiceTotals
  refine (RefusesWith.foldlM (fun acc entry _ => lineTotal_spares acc entry) _).bind fun lines _ => ?_
  dsimp only
  refine (statedTotal_spares (by simp) _ _ _).bind fun total _ => ?_
  refine (statedTotal_spares (by simp) _ _ _).bind fun taxTotal _ => ?_
  refine (statedTotal_spares (by simp) _ _ _).bind fun grand _ => ?_
  refine .refusal (fun _ => by simp [PostingError.isShortage, List.isPrefixOf]) fun _ => .ok _

theorem validateTotals_spares (doctype : String) : SparesStock (validateTotals doctype payload) := by
  unfold validateTotals
  refine .ite (fun _ => ?_) fun _ => .ite (fun _ => ?_) fun _ => .ok _
  · exact validateTaxRows_spares.bind fun _ _ => validateInvoiceTotals_spares _
  · exact validateTaxRows_spares.bind fun _ _ => validateInvoiceTotals_spares _

/-! ### The generated GL -/

theorem checkBalanced_spares (gl : List GlEntry) : SparesStock (checkBalanced gl) := by
  unfold checkBalanced
  dsimp only
  refine .ite (fun _ => .error ?_) fun _ => .ok _
  simp [PostingError.isShortage, List.isPrefixOf]

theorem checkAccount_spares (groups : List String) (account : String) :
    SparesStock (checkAccount view companyId groups account) := by
  unfold checkAccount
  refine .ite (fun _ => .error ?_) fun _ => ?_
  · simp [PostingError.isShortage, List.isPrefixOf]
  · split
    · exact .ok _
    · exact .ok _

theorem checkGroupAccounts_spares (gl : List GlEntry) : SparesStock (checkGroupAccounts view companyId gl) := by
  unfold checkGroupAccounts
  refine (RefusesWith.foldlM (fun groups account _ => checkAccount_spares groups account) _).bind
    fun groups _ => ?_
  refine .ite (fun _ => .throw ?_) fun _ => .ok _
  simp [PostingError.isShortage, List.isPrefixOf]

/-! ### Payments -/

theorem checkAllocation_spares (total : ℚ) (s : Settlement) : SparesStock (checkAllocation total s) := by
  unfold checkAllocation
  refine .ite (fun _ => .error ?_) fun _ => .ite (fun _ => .error ?_) fun _ => .ok _
  · simp [PostingError.isShortage, List.isPrefixOf]
  · simp [PostingError.isShortage, List.isPrefixOf]

theorem validatePaymentSubmit_spares (settlements : List Settlement) :
    SparesStock (validatePaymentSubmit payload settlements) := by
  unfold validatePaymentSubmit
  dsimp only
  refine .refusal (fun _ => by simp [PostingError.isShortage, List.isPrefixOf]) fun _ => ?_
  refine (RefusesWith.foldlM (fun total s _ => checkAllocation_spares total s) _).bind fun total _ => ?_
  refine .ite (fun _ => .throw ?_) fun _ => .ok _
  simp [PostingError.isShortage, List.isPrefixOf]

theorem outstandingUpdate_spares (settlements : List Settlement) (enforce : Bool) (key : String × String) :
    SparesStock (outstandingUpdate view companyId settlements enforce key) := by
  unfold outstandingUpdate
  split
  · refine .refusal (fun _ => by simp [PostingError.isShortage, List.isPrefixOf]) fun _ => ?_
    dsimp only
    exact .refusal (fun _ => by simp [PostingError.isShortage, List.isPrefixOf]) fun _ => .ok _
  · refine .throw ?_
    simp [PostingError.isShortage, List.isPrefixOf]

theorem outstandingLoop_spares (enforce : Bool) (all settlements : List Settlement)
    (seen : List (String × String)) :
    SparesStock (outstandingLoop (outstandingUpdate view companyId all enforce) settlements seen) :=
  outstandingLoop_refuses (fun s _ => outstandingUpdate_spares all enforce s.invoiceKey) seen

theorem paymentRows_spares (ctx : RowContext) : SparesStock (paymentRows view ctx payload) := by
  unfold paymentRows
  refine .ite (fun _ => ?_) fun _ => .ok _
  dsimp only
  exact (validatePaymentSubmit_spares _).bind fun _ _ =>
    (outstandingLoop_spares true _ _ _).bind fun updates _ => .ok _

theorem restoredOutstanding_spares (doctype : String) (settlements : List Settlement) :
    SparesStock (restoredOutstanding view companyId doctype settlements) := by
  unfold restoredOutstanding
  exact .ite (fun _ => outstandingLoop_spares false _ _ _) fun _ => .ok _

/-! ### Before the stock check -/

theorem preparePayload_spares (env : Env) (cmd : SubmitCommand) (documentId : String) :
    SparesStock (preparePayload view env companyId cmd documentId) := by
  unfold preparePayload
  dsimp only
  refine (validatedPostingDate_spares _).bind fun postingDate _ => ?_
  refine (checkPeriodLock_spares _).bind fun _ _ => ?_
  refine .refusal (fun _ => rfl) fun _ => ?_
  have hdeposit : ∀ payload : Map, SparesStock (applyDeposit view companyId cmd.doctype payload) := by
    intro payload
    unfold applyDeposit
    exact .ite (fun _ => depositApplication_spares) fun _ => .ok _
  refine (hdeposit _).bind fun applied _ => ?_
  exact (validateC5Document_spares _).bind fun _ _ => (validateTotals_spares _).bind fun _ _ => .ok _

theorem checkUnsettled_spares (cmd : CancelCommand) : SparesStock (checkUnsettled view companyId cmd) :=
  checkUnsettled_refuses (fun _ => rfl) cmd

theorem cancelDate_spares (env : Env) (document : PostedDocument) : SparesStock (cancelDate env document) :=
  cancelDate_refuses (fun rest => by simp [PostingError.isShortage, List.isPrefixOf]) env document

theorem releaseDeposit_spares (cmd : CancelCommand) (document : PostedDocument) :
    SparesStock (releaseDeposit view companyId cmd document) :=
  releaseDeposit_refuses (fun _ => rfl) cmd document

end Checks

/-! ### The stock check -/

/-- The computation is refused for lack of stock. -/
abbrev ShortOfStock {α : Type} (x : Except PostingError α) : Prop := x.Refused fun e => e.isShortage = true

theorem SparesStock.not_short {α : Type} {x : Except PostingError α} (h : SparesStock x) :
    x.RefusesWith fun e => ¬ e.isShortage = true := by
  intro e he
  rw [h e he]
  exact Bool.false_ne_true

section Guard
variable {settings : CompanySettings} {ledgers : Ledgers}

/-- The guard refuses exactly where it is on and some loaded pair's balance is negative. -/
theorem checkNegativeStock_short_iff : ShortOfStock (checkNegativeStock settings ledgers) ↔
    settings.allowNegativeStock = false ∧
      ∃ pair rows, ledgers.rows.lookup pair = some rows ∧ (computeBalance rows).actualQty < 0 := by
  unfold checkNegativeStock
  by_cases hallowed : settings.allowNegativeStock = true
  · rw [if_pos hallowed, hallowed]
    refine ⟨?_, fun h => absurd h.1 Bool.true_eq_false.mp⟩
    rintro ⟨e, he, -⟩
    cases he
  · rw [Bool.not_eq_true] at hallowed
    rw [hallowed, if_neg Bool.false_ne_true]
    refine (RefusesWith.refused_iff (.forM fun entry _ => .ite (fun _ => .error ?_) fun _ => .ok _)).trans ?_
    · simp [PostingError.isShortage, List.isPrefixOf]
    constructor
    · intro hrefused
      refine ⟨rfl, ?_⟩
      by_contra hnone
      refine hrefused () ((Except.forM_eq_ok _).2 fun entry hentry => ?_)
      obtain ⟨pair, rows⟩ := entry
      refine if_neg fun hneg => hnone ⟨pair, rows, (SortedMap.mem_entries_iff _).1 hentry, hneg⟩
    · rintro ⟨-, pair, rows, hrows, hneg⟩ ⟨⟩ hpassed
      have hpair := (Except.forM_eq_ok _).1 hpassed _ ((SortedMap.mem_entries_iff _).2 hrows)
      dsimp only at hpair
      rw [if_pos hneg] at hpair
      cases hpair

/-- A till sale that already happened is not refused. -/
theorem stockCheck_short_iff {offlineFiscal : Bool} : ShortOfStock (stockCheck settings offlineFiscal ledgers) ↔
    offlineFiscal = false ∧ ShortOfStock (checkNegativeStock settings ledgers) := by
  unfold stockCheck
  cases offlineFiscal with
  | true =>
    rw [if_pos rfl]
    refine ⟨?_, fun h => absurd h.1.symm Bool.false_ne_true⟩
    rintro ⟨e, he, -⟩
    cases he
  | false =>
    rw [if_neg Bool.false_ne_true, ShortOfStock, Except.refused_bind_right]
    · exact ⟨fun h => ⟨rfl, h⟩, fun h => h.2⟩
    · exact fun _ _ => RefusesWith.ok _

end Guard

/-! ### Refusals for an invoice -/

/-- The error says that a payment references an invoice that is missing or not submitted. -/
def PostingError.isLostInvoice : PostingError → Bool
  | .validation reason => "payment references unknown invoice ".toList.isPrefixOf reason.toList ||
      "payment references invoice ".toList.isPrefixOf reason.toList
  | _ => false

/-- The computation is refused for an invoice that is missing or not submitted. -/
abbrev LostInvoice {α : Type} (x : Except PostingError α) : Prop := x.Refused fun e => e.isLostInvoice = true

section Lost
variable {view : StoreView} {companyId : Uuid}

/-- Without the allocation limits an update is refused for its invoice or not at all. -/
theorem outstandingUpdate_lost (all : List Settlement) (key : String × String) :
    RefusesWith (fun e => e.isLostInvoice = true ∧ ¬ view.Submitted companyId key)
      (outstandingUpdate view companyId all false key) := by
  unfold outstandingUpdate
  split
  · rename_i invoice hinvoice
    refine .refusal (fun hstatus => ⟨by simp [PostingError.isLostInvoice, List.isPrefixOf], ?_⟩) fun _ => ?_
    · rintro ⟨found, hfound, hsubmitted⟩
      obtain rfl := Option.some.inj (hinvoice.symm.trans hfound)
      exact hstatus hsubmitted
    · dsimp only
      exact .refusal (fun hlimit => absurd hlimit.1 Bool.false_ne_true) fun _ => .ok _
  · rename_i hnone
    refine .throw ⟨by simp [PostingError.isLostInvoice, List.isPrefixOf], ?_⟩
    rintro ⟨found, hfound, -⟩
    rw [hfound] at hnone
    exact hnone found rfl

/-- What a cancelled payment restores is refused exactly for the invoices it settles. -/
theorem restoredOutstanding_lost_iff {settlements : List Settlement} :
    LostInvoice (restoredOutstanding view companyId "Payment Entry" settlements) ↔
      ∃ s ∈ settlements, ¬ view.Submitted companyId s.invoiceKey := by
  rw [restoredOutstanding, if_pos rfl]
  constructor
  · intro hrefused
    by_contra hall
    refine Except.refusesWith_not_iff.1 (outstandingLoop_refuses (fun s hs => ?_) _) hrefused
    intro e he
    exact absurd ⟨s, hs, (outstandingUpdate_lost settlements s.invoiceKey e he).2⟩ hall
  · rintro ⟨s, hs, hlost⟩
    refine (RefusesWith.refused_iff (outstandingLoop_refuses (fun s _ => ?_) _)).2 fun updates hok => hlost ?_
    · intro e he
      exact (outstandingUpdate_lost settlements s.invoiceKey e he).1
    · exact (paymentOutstandingUpdates_ok hok).submitted s hs

/-- A cancel that is refused for an invoice is refused by what it restores. -/
theorem buildCancel_lost {env : Env} {cmd : CancelCommand} {actor : Actor}
    (h : LostInvoice (buildCancel view env companyId cmd actor)) :
    LostInvoice (restoredOutstanding view companyId cmd.doctype
      (reversalRows view companyId cmd.documentId).settlements) := by
  by_contra hrestored
  have hdate : ∀ rest, ¬ (PostingError.validation ("posting_date " ++ rest)).isLostInvoice = true := by
    simp [PostingError.isLostInvoice, List.isPrefixOf]
  have hlock : ∀ rest, ¬ (PostingError.validation ("posting date " ++ rest)).isLostInvoice = true := by
    simp [PostingError.isLostInvoice, List.isPrefixOf]
  have hstock : ∀ rest, ¬ (PostingError.validation ("insufficient stock: " ++ rest)).isLostInvoice = true := by
    simp [PostingError.isLostInvoice, List.isPrefixOf]
  have hconflict : ∀ reason, ¬ (PostingError.conflict reason).isLostInvoice = true :=
    fun _ => Bool.false_ne_true
  refine Except.refusesWith_not_iff.1 ?_ h
  unfold buildCancel
  dsimp only
  split
  · refine .refusal (fun _ => hconflict _) fun _ => ?_
    refine (checkUnsettled_refuses hconflict cmd).bind fun _ _ => ?_
    refine (cancelDate_refuses hdate env _).bind fun postingDate _ => ?_
    refine (checkPeriodLock_refuses hlock postingDate).bind fun _ _ => ?_
    refine (releaseDeposit_refuses hconflict cmd _).bind fun guard _ => ?_
    refine (checkNegativeStock_refuses hstock _).bind fun _ _ => ?_
    exact (Except.refusesWith_not_iff.2 hrestored).bind fun updates _ => .ok _
  · exact .throw Bool.false_ne_true

end Lost

end AtlasTeam
