import AtlasTeam.Posting.Dates
import AtlasTeam.Posting.SoloMigration

/-!
# The fields a prepared payload keeps

Between the client's payload and the stored one stand the deposit step, the account defaults, the
checks of a doctype and the totals. Each writes a few fields of its own and leaves the others
alone; so the stored payload carries the validated posting date (`preparePayload_postingDate`) and,
of a payment, the deposit it applies and the amount the guard was made for
(`preparePayload_deposit`). `buildSubmit_date`, `buildCancel_date` and `buildOpening_date` say which
date a commit is held to.
-/

namespace AtlasTeam

/-- The account fields that fall back to a default. -/
def accountFields : List String :=
  ["debit_to", "income_account", "credit_to", "expense_account", "cash_account", "paid_from",
    "deposit_account", "paid_to"]

theorem accountFallbacks_subset (doctype : String) (payload : Map) :
    ∀ entry ∈ accountFallbacks doctype payload, entry.1 ∈ accountFields := by
  unfold accountFallbacks
  split
  case h_6 =>
    split
    all_goals decide
  all_goals decide

section Fields
variable {field : String}

theorem resolveAccountFallbacks_get (h : field ∉ accountFields) (doctype : String) (payload : Map)
    (settings : CompanySettings) :
    (resolveAccountFallbacks doctype payload settings).get field = payload.get field := by
  have hfold : ∀ fallbacks : List (String × DefaultAccount), (∀ entry ∈ fallbacks, entry.1 ∈ accountFields) →
      ∀ payload : Map, (fallbacks.foldl (fun payload entry =>
        if (asNonEmpty (payload.get entry.1)).isNone then
          payload.insert entry.1 (.string (entry.2.of settings))
        else payload) payload).get field = payload.get field := by
    intro fallbacks hsubset
    induction fallbacks with
    | nil => exact fun payload => rfl
    | cons entry fallbacks ih =>
      intro payload
      obtain ⟨hentry, hrest⟩ := List.forall_mem_cons.1 hsubset
      have hne : field ≠ entry.1 := fun heq => h (heq ▸ hentry)
      rw [List.foldl_cons, ih hrest]
      split_ifs
      · exact Map.get_insert_ne _ hne _
      · rfl
  exact hfold _ (accountFallbacks_subset doctype payload) payload

/-- The fields the checks of a doctype write. -/
def c5Fields : List String :=
  ["total_debit", "total_credit", "difference", "is_paid", "gross_amount", "tax_account"]

theorem validateExpense_get {payload payload' : Map} {settings : CompanySettings}
    (hok : validateExpense payload settings = .ok payload') (hpaid : field ≠ "is_paid")
    (hgross : field ≠ "gross_amount") (htax : field ≠ "tax_account") :
    payload'.get field = payload.get field := by
  simp only [validateExpense, Except.bind_eq_ok, Except.throw_bind, Except.ite_throw_eq_ok] at hok
  obtain ⟨-, -, net, -, -, tax, -, hok⟩ := hok
  -- what is written after the defaulted flag
  have hrest : ∀ {paid : Map}, paid.get field = payload.get field → ∀ v : Value,
      (if tax ≠ 0 ∧ (asNonEmpty ((paid.insert "gross_amount" v).get "tax_account")).isNone = true then
        (paid.insert "gross_amount" v).insert "tax_account" (.string settings.defaultVatAccount)
      else paid.insert "gross_amount" v).get field = payload.get field := by
    intro paid hget v
    split_ifs
    · rw [Map.get_insert_ne _ htax, Map.get_insert_ne _ hgross, hget]
    · rw [Map.get_insert_ne _ hgross, hget]
  split at hok
  · simp only [Except.ite_throw_eq_ok, Except.pure_eq_ok] at hok
    obtain ⟨-, -, rfl⟩ := hok
    refine hrest ?_ _
    split
    · exact Map.get_insert_ne _ hpaid _
    · exact Map.get_insert_ne _ hpaid _
    · rfl
  · simp only [Except.ite_throw_eq_ok, Except.pure_eq_ok] at hok
    obtain ⟨-, rfl⟩ := hok
    refine hrest ?_ _
    split
    · exact Map.get_insert_ne _ hpaid _
    · exact Map.get_insert_ne _ hpaid _
    · rfl

theorem validateC5Document_get (h : field ∉ c5Fields) {doctype : String} {payload payload' : Map}
    {settings : CompanySettings} (hok : validateC5Document doctype payload settings = .ok payload') :
    payload'.get field = payload.get field := by
  simp only [c5Fields, List.mem_cons, List.not_mem_nil, or_false, not_or] at h
  obtain ⟨h₁, h₂, h₃, h₄, h₅, h₆⟩ := h
  unfold validateC5Document at hok
  split at hok
  · simp only [validateJournalEntry, Except.bind_eq_ok, Except.throw_bind, Except.ite_throw_eq_ok,
      Except.pure_eq_ok] at hok
    obtain ⟨totals, -, -, -, rfl⟩ := hok
    rw [Map.get_insert_ne _ h₃, Map.get_insert_ne _ h₂, Map.get_insert_ne _ h₁]
  · exact validateExpense_get hok h₄ h₅ h₆
  · simp only [Except.bind_eq_ok, Except.pure_eq_ok] at hok
    obtain ⟨-, -, rfl⟩ := hok
    rfl
  · exact Except.ok.inj hok ▸ rfl

theorem validateInvoiceTotals_get (hgrand : field ≠ "grand_total")
    (houtstanding : field ≠ "outstanding_amount") {payload payload' : Map} {trackOutstanding : Bool}
    (hok : validateInvoiceTotals payload trackOutstanding = .ok payload') :
    payload'.get field = payload.get field := by
  simp only [validateInvoiceTotals, Except.bind_eq_ok, Except.throw_bind, Except.ite_throw_eq_ok,
    Except.pure_eq_ok] at hok
  obtain ⟨⟨linesSum, lineCount⟩, -, total, -, taxTotal, -, grand, -, -, rfl⟩ := hok
  have hkept : ∀ payload : Map, (if trackOutstanding then
      (payload.remove "outstanding_amount").insert "outstanding_amount" (.num grand)
      else payload.remove "outstanding_amount").get field = payload.get field := by
    intro payload
    split_ifs
    · rw [Map.get_insert_ne _ houtstanding, Map.get_remove_ne _ houtstanding]
    · exact Map.get_remove_ne _ houtstanding
  rw [hkept]
  split_ifs
  · exact Map.get_insert_ne _ hgrand _
  · rfl

theorem validateTotals_get (hgrand : field ≠ "grand_total")
    (houtstanding : field ≠ "outstanding_amount") {doctype : String} {payload payload' : Map}
    (hok : validateTotals doctype payload = .ok payload') : payload'.get field = payload.get field := by
  unfold validateTotals at hok
  split_ifs at hok
  · obtain ⟨-, -, hok⟩ := Except.bind_eq_ok.1 hok
    exact validateInvoiceTotals_get hgrand houtstanding hok
  · obtain ⟨-, -, hok⟩ := Except.bind_eq_ok.1 hok
    exact validateInvoiceTotals_get hgrand houtstanding hok
  · exact Except.ok.inj hok ▸ rfl

/-- A till confirmation writes two fields of its own. -/
theorem storedPayload_get {cmd : SubmitCommand} {actor : Actor} {payload : Map}
    (hoffline : field ≠ "offline_fiscal") (hdevice : field ≠ "till_device") :
    (storedPayload cmd actor payload).get field = payload.get field := by
  unfold storedPayload
  split_ifs
  · rw [Map.get_insert_ne _ hdevice, Map.get_insert_ne _ hoffline]
  · rfl

end Fields

/-! ### Deposits -/

theorem trim_trim (s : String) : trim (trim s) = trim s := by
  have hfront : (s.toList.dropWhile isWhitespace).dropWhile isWhitespace =
      s.toList.dropWhile isWhitespace := List.dropWhile_idempotent isWhitespace _
  simp only [trim, String.toList_ofList]
  generalize s.toList.dropWhile isWhitespace = front at hfront
  -- the trimmed text starts as the text without its leading blanks does
  have hboth : (front.reverse.dropWhile isWhitespace).reverse.dropWhile isWhitespace =
      (front.reverse.dropWhile isWhitespace).reverse := by
    have hprefix : (front.reverse.dropWhile isWhitespace).reverse <+: front :=
      List.rdropWhile_prefix isWhitespace front
    cases hback : (front.reverse.dropWhile isWhitespace).reverse with
    | nil => rfl
    | cons c rest =>
      rw [hback] at hprefix
      obtain ⟨tail, rfl⟩ := hprefix
      have hhead := List.dropWhile_eq_self_iff.1 hfront (by simp)
      exact List.dropWhile_cons_of_neg hhead
  rw [hboth, List.reverse_reverse, List.dropWhile_idempotent]

/-- A non-empty text field reads as its trimmed text. -/
theorem asNonEmpty_eq_some {v : Option Value} {s : String} (h : asNonEmpty v = some s) :
    trim s = s ∧ s ≠ "" := by
  unfold asNonEmpty at h
  split at h
  · split_ifs at h with hempty
    obtain rfl := Option.some.inj h
    exact ⟨trim_trim _, hempty⟩
  · cases h

/-- The fields the deposit step writes. -/
def depositFields : List String := ["deposit", "paid_to", "party_type", "party"]

/-- A payment that applies no deposit goes on as it is; one that does names the deposit by its trimmed
id and is guarded for its own amount. -/
theorem depositApplication_ok {view : StoreView} {companyId : Uuid} {payload payload' : Map}
    {guard : Option DepositGuard}
    (h : depositApplication view companyId payload = .ok (payload', guard)) :
    (asNonEmpty (payload.get "deposit") = none ∧ payload' = payload ∧ guard = none) ∨
    ∃ depositId customer, asNonEmpty (payload.get "deposit") = some depositId ∧
      payload'.get "deposit" = some (.string depositId) ∧
      guard = some (.apply depositId customer (asNum (payload'.get "paid_amount"))) ∧
      ∀ field ∉ depositFields, payload'.get field = payload.get field := by
  unfold depositApplication at h
  cases hdeposit : asNonEmpty (payload.get "deposit") with
  | none =>
    simp only [hdeposit, Except.pure_eq_ok, Prod.mk.injEq] at h
    exact .inl ⟨rfl, h.1.symm, h.2.symm⟩
  | some depositId =>
    refine .inr ?_
    simp only [hdeposit, Except.throw_bind, Except.ite_throw_eq_ok] at h
    obtain ⟨-, h⟩ := h
    split at h
    · simp only [Except.bind_eq_ok, Except.ite_throw_eq_ok] at h
      obtain ⟨-, -, -, h⟩ := h
      split at h
      · cases h
      · simp only [Except.pure_eq_ok, Prod.mk.injEq] at h
        obtain ⟨rfl, rfl⟩ := h
        refine ⟨depositId, _, rfl, ?_, rfl, fun field hfield => ?_⟩
        · have hpaidTo : ("deposit" : String) ≠ "paid_to" := by decide
          have hparty : ("deposit" : String) ≠ "party" := by decide
          have hpartyType : ("deposit" : String) ≠ "party_type" := by decide
          split_ifs <;>
            simp only [Map.get_insert_ne _ hpaidTo, Map.get_insert_ne _ hparty,
              Map.get_insert_ne _ hpartyType, Map.get_insert_self]
        · simp only [depositFields, List.mem_cons, List.not_mem_nil, or_false, not_or] at hfield
          obtain ⟨h₁, h₂, h₃, h₄⟩ := hfield
          split_ifs <;>
            simp only [Map.get_insert_ne _ h₁, Map.get_insert_ne _ h₂, Map.get_insert_ne _ h₃,
              Map.get_insert_ne _ h₄]
    · cases h

/-! ### The whole preparation -/

/-- What the steps after the deposit write. -/
def preparedFields : List String := accountFields ++ c5Fields ++ ["grand_total", "outstanding_amount"]

/-- The payload after the deposit step, and what the rest of the preparation keeps of it. -/
theorem preparePayload_ok {view : StoreView} {env : Env} {companyId : Uuid} {cmd : SubmitCommand}
    {documentId : String} {prepared : Prepared}
    (h : preparePayload view env companyId cmd documentId = .ok prepared) :
    ∃ payload, validatedPostingDate env.today (cmd.payload.insert "items" (.array cmd.items)) =
        .ok prepared.postingDate ∧
      applyDeposit view companyId cmd.doctype ((cmd.payload.insert "items" (.array cmd.items)).insert
        "posting_date" (.string prepared.postingDate)) = .ok (payload, prepared.depositGuard) ∧
      ∀ field ∉ preparedFields, prepared.payload.get field = payload.get field := by
  simp only [preparePayload, Except.bind_eq_ok, Except.throw_bind, Except.ite_throw_eq_ok,
    Except.pure_eq_ok] at h
  obtain ⟨postingDate, hdate, -, -, -, ⟨payload, guard⟩, hdeposit, c5, hc5, totals, htotals, rfl⟩ := h
  refine ⟨payload, hdate, hdeposit, fun field hfield => ?_⟩
  simp only [preparedFields, List.mem_append, List.mem_cons, List.not_mem_nil, or_false,
    not_or] at hfield
  obtain ⟨⟨haccount, hc5Field⟩, hgrand, houtstanding⟩ := hfield
  rw [validateTotals_get hgrand houtstanding htotals, validateC5Document_get hc5Field hc5,
    resolveAccountFallbacks_get haccount]

/-- The prepared payload carries the validated date. -/
theorem preparePayload_postingDate {view : StoreView} {env : Env} {companyId : Uuid}
    {cmd : SubmitCommand} {documentId : String} {prepared : Prepared}
    (h : preparePayload view env companyId cmd documentId = .ok prepared) :
    prepared.payload.get "posting_date" = some (.string prepared.postingDate) := by
  obtain ⟨payload, -, hdeposit, hkept⟩ := preparePayload_ok h
  rw [hkept "posting_date" (by decide)]
  unfold applyDeposit at hdeposit
  split_ifs at hdeposit
  · rcases depositApplication_ok hdeposit with ⟨-, rfl, -⟩ | ⟨depositId, customer, -, -, -, hrest⟩
    · exact Map.get_insert_self _ _ _
    · rw [hrest "posting_date" (by decide)]
      exact Map.get_insert_self _ _ _
  · obtain ⟨rfl, -⟩ := Prod.mk.inj (Except.ok.inj hdeposit)
    exact Map.get_insert_self _ _ _

/-- The prepared payload of a payment names the deposit it is guarded for, and the amount. -/
theorem preparePayload_deposit {view : StoreView} {env : Env} {companyId : Uuid}
    {cmd : SubmitCommand} {documentId : String} {prepared : Prepared}
    (hpayment : cmd.doctype = "Payment Entry")
    (h : preparePayload view env companyId cmd documentId = .ok prepared) :
    (asNonEmpty (prepared.payload.get "deposit") = none ∧ prepared.depositGuard = none) ∨
    ∃ depositId customer, prepared.payload.get "deposit" = some (.string depositId) ∧
      trim depositId = depositId ∧ depositId ≠ "" ∧
      prepared.depositGuard =
        some (.apply depositId customer (asNum (prepared.payload.get "paid_amount"))) := by
  obtain ⟨payload, -, hdeposit, hkept⟩ := preparePayload_ok h
  rw [hkept "deposit" (by decide), hkept "paid_amount" (by decide)]
  rw [applyDeposit, if_pos hpayment] at hdeposit
  rcases depositApplication_ok hdeposit with
    ⟨hnone, rfl, hguard⟩ | ⟨depositId, customer, hid, hget, hguard, -⟩
  · exact .inl ⟨hnone, hguard⟩
  · obtain ⟨htrim, hne⟩ := asNonEmpty_eq_some hid
    exact .inr ⟨depositId, customer, hget, htrim, hne, hguard⟩

/-- An amount that passes is what its field reads as. -/
theorem moneyField_ok {payload : Map} {field what : String} {value : ℚ}
    (hok : moneyField payload field what = .ok value) : value = asNum (payload.get field) := by
  unfold moneyField at hok
  dsimp only at hok
  split at hok
  · cases hok
  · split_ifs at hok
    exact (Except.ok.inj hok).symm

/-- A Customer Deposit is over a positive amount. -/
theorem preparePayload_amount {view : StoreView} {env : Env} {companyId : Uuid} {cmd : SubmitCommand}
    {documentId : String} {prepared : Prepared} (hdeposit : cmd.doctype = "Customer Deposit")
    (h : preparePayload view env companyId cmd documentId = .ok prepared) :
    0 < asNum (prepared.payload.get "amount") := by
  simp only [preparePayload, Except.bind_eq_ok, Except.throw_bind, Except.ite_throw_eq_ok,
    Except.pure_eq_ok] at h
  obtain ⟨postingDate, -, -, -, -, ⟨payload, guard⟩, -, c5, hc5, totals, htotals, rfl⟩ := h
  rw [validateTotals_get (by decide) (by decide) htotals]
  rw [hdeposit] at hc5
  simp only [validateC5Document, validateCustomerDeposit, Except.bind_eq_ok, Except.throw_bind,
    Except.ite_throw_eq_ok, Except.pure_eq_ok] at hc5
  obtain ⟨-, ⟨-, -, amount, hamount, hpositive, -⟩, rfl⟩ := hc5
  obtain rfl := moneyField_ok hamount
  exact not_le.1 hpositive

section Submits
variable {codec : Codec} {view : StoreView} {env : Env} {companyId : Uuid} {cmd : SubmitCommand}
  {documentId : String} {actor : Actor} {commit : PostingCommit}

/-- The amount a deposit was submitted for is positive. -/
theorem buildSubmit_amount (hdeposit : cmd.doctype = "Customer Deposit")
    (h : buildSubmit codec view env companyId cmd documentId actor = .ok commit) :
    0 < asNum (commit.document.payload.get "amount") := by
  obtain ⟨prepared, shortfalls, settlements, updates, hprepared, -, -, rfl⟩ := buildSubmit_ok h
  show 0 < asNum ((storedPayload cmd actor prepared.payload).get "amount")
  rw [storedPayload_get (by decide) (by decide)]
  exact preparePayload_amount hdeposit hprepared

/-- A payment is over a positive amount, and names no deposit or the one it is guarded for. -/
theorem buildSubmit_payment (hpayment : cmd.doctype = "Payment Entry")
    (h : buildSubmit codec view env companyId cmd documentId actor = .ok commit) :
    0 < asNum (commit.document.payload.get "paid_amount") ∧
    (asNonEmpty (commit.document.payload.get "deposit") = none ∨
      ∃ depositId customer, commit.document.payload.get "deposit" = some (.string depositId) ∧
        trim depositId = depositId ∧
        commit.depositGuard = some (.apply depositId customer
          (asNum (commit.document.payload.get "paid_amount")))) := by
  obtain ⟨prepared, shortfalls, settlements, updates, hprepared, -, hrows, rfl⟩ := buildSubmit_ok h
  have hget : ∀ field, field ≠ "offline_fiscal" → field ≠ "till_device" →
      (Value.object (storedPayload cmd actor prepared.payload)).get field =
        prepared.payload.get field :=
    fun _ hoffline hdevice => storedPayload_get hoffline hdevice
  simp only [submitCommit]
  rw [hget "paid_amount" (by decide) (by decide), hget "deposit" (by decide) (by decide)]
  constructor
  · simp only [paymentRows, submitContext, hpayment, if_true, validatePaymentSubmit,
      Except.bind_eq_ok, Except.throw_bind, Except.ite_throw_eq_ok] at hrows
    obtain ⟨-, ⟨hpositive, -⟩, -⟩ := hrows
    exact not_le.1 hpositive
  · rcases preparePayload_deposit hpayment hprepared with
      ⟨hnone, -⟩ | ⟨depositId, customer, hnamed, htrim, -, hguard⟩
    · exact .inl hnone
    · exact .inr ⟨depositId, customer, hnamed, htrim, hguard⟩

end Submits

/-! ### The date a commit is held to -/

section Dates
variable {codec : Codec} {view : StoreView} {env : Env} {companyId : Uuid} {actor : Actor}
  {commit : PostingCommit}

/-- A submit is held to the date of its payload, which is a date. -/
theorem buildSubmit_date {cmd : SubmitCommand} {documentId : String} (htoday : IsoDate env.today)
    (h : buildSubmit codec view env companyId cmd documentId actor = .ok commit) :
    ∃ date, commit.lockCheckDate = some date ∧ IsoDate date ∧
      commit.document.payload.get "posting_date" = some (.string date) := by
  obtain ⟨prepared, shortfalls, settlements, updates, hprepared, -, -, rfl⟩ := buildSubmit_ok h
  obtain ⟨payload, hdate, -⟩ := preparePayload_ok hprepared
  refine ⟨prepared.postingDate, rfl, validatedPostingDate_iso htoday hdate, ?_⟩
  show (storedPayload cmd actor prepared.payload).get "posting_date" = _
  rw [storedPayload_get (by decide) (by decide), preparePayload_postingDate hprepared]

/-- A take-on is held to the date of its opening entry. -/
theorem buildOpening_date {cmd : SoloOpeningCommand} {sha : String} (htoday : IsoDate env.today)
    (h : buildOpening codec view env companyId cmd sha actor = .ok commit) :
    ∃ date, commit.lockCheckDate = some date ∧ IsoDate date ∧
      commit.document.payload.get "posting_date" = some (.string date) := by
  obtain ⟨postingDate, stock, tb, continuations, hdate, -, -, rfl⟩ := buildOpening_dated h
  refine ⟨postingDate, rfl, validatedPostingDate_iso htoday hdate, ?_⟩
  simp only [openingCommit]
  rw [Value.get_obj]
  rfl

/-- A cancel writes back what it read and is held to the date of its payload and, of a deposit, to
its applications. -/
theorem buildCancel_date {cmd : CancelCommand}
    (h : buildCancel view env companyId cmd actor = .ok commit) :
    ∃ doc date, view.postedDocument companyId cmd.doctype cmd.documentId = some doc ∧
      commit.document = { doc with docstatus := 2 } ∧ cancelDate env doc = .ok date ∧
      commit.lockCheckDate = some date ∧
      releaseDeposit view companyId cmd doc = .ok commit.depositGuard := by
  unfold buildCancel at h
  cases hdoc : view.postedDocument companyId cmd.doctype cmd.documentId with
  | none =>
    rw [hdoc] at h
    cases h
  | some doc =>
    rw [hdoc] at h
    by_cases hstatus : doc.docstatus = 1
    · simp only [hstatus, ne_eq, not_true_eq_false, if_false, Except.bind_eq_ok,
        Except.pure_eq_ok] at h
      obtain ⟨⟨⟩, -, date, hdate, ⟨⟩, -, guard, hguard, ⟨⟩, -, updates, -, rfl⟩ := h
      exact ⟨doc, date, rfl, rfl, hdate, rfl, hguard⟩
    · simp only [ne_eq, hstatus, not_false_eq_true, if_true] at h
      cases h

end Dates

end AtlasTeam
