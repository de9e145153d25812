import AtlasTeam.F64.Engine
import AtlasTeam.Posting.Balance
import AtlasTeam.Posting.Prepared

/-!
# The payload a submit over f64 posts

Which fields the preparation writes, so that what is read of the others is what was submitted, and what
it makes of an invoice's grand total (`validateTotals_invoice`).
-/

namespace AtlasTeam.F64

/-- The payload of a submit with its items. -/
def submitted (cmd : SubmitCommand) : Map := cmd.payload.insert "items" (.array cmd.items)

/-- The fields the preparation of a submit may write before the totals. -/
def writtenFields : List String := ["posting_date"] ++ depositFields ++ accountFields ++ c5Fields

section Fields
variable {field : String}

theorem depositApplication_get (h : field ∉ depositFields) {view : StoreView} {companyId : Uuid}
    {payload payload' : Map} (hok : depositApplication view companyId payload = .ok payload') :
    payload'.get field = payload.get field := by
  simp only [depositFields, List.mem_cons, List.not_mem_nil, or_false, not_or] at h
  obtain ⟨h₁, h₂, h₃, h₄⟩ := h
  unfold depositApplication at hok
  cases hdeposit : asNonEmpty (payload.get "deposit") with
  | none =>
    simp only [hdeposit, Except.pure_eq_ok] at hok
    rw [hok]
  | some depositId =>
    simp only [hdeposit, Except.throw_bind, Except.ite_throw_eq_ok] at hok
    obtain ⟨-, hok⟩ := hok
    split at hok
    · simp only [Except.bind_eq_ok, Except.ite_throw_eq_ok] at hok
      obtain ⟨-, -, -, hok⟩ := hok
      split at hok
      · cases hok
      · simp only [Except.pure_eq_ok] at hok
        subst hok
        split_ifs <;>
          simp only [Map.get_insert_ne _ h₁, Map.get_insert_ne _ h₂, Map.get_insert_ne _ h₃,
            Map.get_insert_ne _ h₄]
    · cases hok

theorem defaultPaid_get (h : field ≠ "is_paid") (payload : Map) :
    (defaultPaid payload).get field = payload.get field := by
  unfold defaultPaid
  split
  · exact Map.get_insert_ne _ h _
  · exact Map.get_insert_ne _ h _
  · rfl

/-- An Expense is posted with its paid flag, the gross amount the server computed and, where there is
VAT, an account for it. -/
theorem validateExpense_ok {payload payload' : Map} {settings : CompanySettings}
    (hok : validateExpense payload settings = .ok payload') :
    ∃ gross : Ieee, payload' = (defaultPaid payload).insert "gross_amount" (json gross) ∨
      payload' = ((defaultPaid payload).insert "gross_amount" (json gross)).insert "tax_account"
        (.string settings.defaultVatAccount) := by
  simp only [validateExpense, Except.bind_eq_ok, Except.throw_bind, Except.ite_throw_eq_ok] at hok
  obtain ⟨-, -, net, -, -, tax, -, hok⟩ := hok
  refine ⟨round2 (net + tax), ?_⟩
  split at hok
  all_goals
    simp only [Except.ite_throw_eq_ok, Except.pure_eq_ok] at hok
  · obtain ⟨-, -, rfl⟩ := hok
    split_ifs
    · exact .inr rfl
    · exact .inl rfl
  · obtain ⟨-, rfl⟩ := hok
    split_ifs
    · exact .inr rfl
    · exact .inl rfl

theorem validateC5Document_get (h : field ∉ c5Fields) {doctype : String} {payload payload' : Map}
    {settings : CompanySettings} (hok : validateC5Document doctype payload settings = .ok payload') :
    payload'.get field = payload.get field := by
  simp only [c5Fields, List.mem_cons, List.not_mem_nil, or_false, not_or] at h
  obtain ⟨h₁, h₂, h₃, h₄, h₅, h₆⟩ := h
  unfold validateC5Document at hok
  split at hok
  · simp only [validateJournalEntry, Except.bind_eq_ok, Except.throw_bind, Except.ite_throw_eq_ok,
      Except.pure_eq_ok] at hok
    obtain ⟨totals, -, -, -, rfl⟩ := hok
    rw [Map.get_insert_ne _ h₃, Map.get_insert_ne _ h₂, Map.get_insert_ne _ h₁]
  · obtain ⟨gross, rfl | rfl⟩ := validateExpense_ok hok
    · rw [Map.get_insert_ne _ h₅, defaultPaid_get h₄]
    · rw [Map.get_insert_ne _ h₆, Map.get_insert_ne _ h₅, defaultPaid_get h₄]
  · simp only [Except.bind_eq_ok, Except.pure_eq_ok] at hok
    obtain ⟨-, -, rfl⟩ := hok
    rfl
  · exact Except.ok.inj hok ▸ rfl

/-- The gross amount of an Expense is the server's, so it reads as a finite number. -/
theorem validateC5Document_gross {payload payload' : Map} {settings : CompanySettings}
    (hok : validateC5Document "Expense" payload settings = .ok payload') :
    (asNum (payload'.get "gross_amount")).IsFinite := by
  have hne : ("gross_amount" : String) ≠ "tax_account" := by decide
  obtain ⟨gross, rfl | rfl⟩ := validateExpense_ok hok
  · rw [Map.get_insert_self]
    exact isFinite_asNum_json gross
  · rw [Map.get_insert_ne _ hne, Map.get_insert_self]
    exact isFinite_asNum_json gross

end Fields

/-! ### Invoice totals -/

theorem lineTotal_ok {acc acc' : Ieee × Nat} {entry : Map × Nat}
    (hok : lineTotal acc entry = .ok acc') : acc'.1 = acc.1 + lineAmount entry.1 := by
  obtain ⟨line, index⟩ := entry
  unfold lineTotal at hok
  unfold lineAmount
  dsimp only at hok ⊢
  cases hamount : line.get "amount" with
  | none =>
    rw [hamount] at hok
    exact Except.ok.inj hok ▸ rfl
  | some v =>
    rw [hamount] at hok
    cases v with
    | null => exact Except.ok.inj hok ▸ rfl
    | _ =>
      dsimp only at hok ⊢
      split_ifs at hok
      exact Except.ok.inj hok ▸ rfl

/-- The lines of an invoice sum to a finite number exactly when each of them is one. -/
theorem foldlM_lineTotal {entries : List (Map × Nat)} {acc acc' : Ieee × Nat}
    (hok : entries.foldlM lineTotal acc = .ok acc') :
    acc'.1.IsFinite ↔ acc.1.IsFinite ∧ ∀ entry ∈ entries, (lineAmount entry.1).IsFinite := by
  induction entries generalizing acc with
  | nil =>
    rw [List.foldlM_nil, Except.pure_eq_ok] at hok
    simp [hok]
  | cons entry entries ih =>
    rw [List.foldlM_cons, Except.bind_eq_ok] at hok
    obtain ⟨next, hnext, hrest⟩ := hok
    rw [ih hrest, lineTotal_ok hnext, Ieee.isFinite_add, and_assoc, List.forall_mem_cons]

theorem statedTotal_ok {payload : Map} {field source : String} {computed tolerance total : Ieee}
    (hok : statedTotal payload field computed tolerance source = .ok total) :
    total = (sentNumber payload field).getD computed := by
  unfold statedTotal at hok
  cases hsent : sentNumber payload field with
  | none =>
    rw [hsent] at hok
    exact (Except.ok.inj hok).symm
  | some sent =>
    rw [hsent] at hok
    dsimp only at hok
    split_ifs at hok
    exact (Except.ok.inj hok).symm

/-- The object rows of the items. -/
def lines (payload : Map) : List Map := (itemsOf payload).filterMap Value.asObject

/-- A number that was sent is what the field reads as. -/
theorem sentNumber_eq_some {payload : Map} {field : String} {sent : Ieee}
    (h : sentNumber payload field = some sent) : asNum (payload.get field) = sent := by
  unfold sentNumber at h
  split at h
  · cases h
  · cases h
  · rename_i s hs
    split_ifs at h
    rw [hs]
    exact Option.some.inj h
  · rename_i v _ _ hv
    rw [hv]
    exact Option.some.inj h

theorem totalTax_finite {payload : Map} : (totalTax payload).IsFinite ↔
    ∀ row ∈ taxRows payload, (asNum (row.get "tax_amount")).IsFinite := by
  rw [totalTax, Ieee.isFinite_sum, List.forall_mem_map]

theorem extractedTax_finite {payload : Map} (h : (totalTax payload).IsFinite) :
    (extractedTax payload).IsFinite := by
  rw [extractedTax, Ieee.isFinite_sum, List.forall_mem_map]
  exact fun row hrow => totalTax_finite.1 h row (List.mem_filter.1 hrow).1

/-- The total an invoice comes to is finite when its line and tax amounts are. -/
theorem validateInvoiceTotals_ok {payload payload' : Map} {trackOutstanding : Bool}
    (hok : validateInvoiceTotals payload trackOutstanding = .ok payload') :
    ∃ computed : Ieee,
      (computed.IsFinite ↔ (∀ line ∈ lines payload, (lineAmount line).IsFinite) ∧
        ∀ row ∈ taxRows payload, (asNum (row.get "tax_amount")).IsFinite) ∧
      payload' = writeTotals payload trackOutstanding
        ((sentNumber payload "grand_total").getD computed) := by
  simp only [validateInvoiceTotals, Except.bind_eq_ok, Except.throw_bind, Except.ite_throw_eq_ok,
    Except.pure_eq_ok] at hok
  obtain ⟨⟨linesSum, lineCount⟩, hlines, total, -, taxTotal, -, grand, hgrand, -, rfl⟩ := hok
  refine ⟨_, ?_, by rw [statedTotal_ok hgrand]⟩
  have hsum : linesSum.IsFinite ↔ ∀ line ∈ lines payload, (lineAmount line).IsFinite := by
    rw [lines, ← objectRows_fst, List.forall_mem_map]
    exact (foldlM_lineTotal hlines).trans (and_iff_right Ieee.isFinite_zero)
  rw [isFinite_round2, Ieee.isFinite_add, isFinite_round2, isFinite_round2, Ieee.isFinite_sub, hsum,
    ← totalTax_finite]
  constructor
  · rintro ⟨⟨hlines, -⟩, htax⟩
    exact ⟨hlines, htax⟩
  · rintro ⟨hlines, htax⟩
    exact ⟨⟨hlines, extractedTax_finite htax⟩, htax⟩

section Totals
variable {payload : Map} {trackOutstanding : Bool} {grand : Ieee}

theorem writeTotals_get {field : String} (hgrand : field ≠ "grand_total")
    (houtstanding : field ≠ "outstanding_amount") :
    (writeTotals payload trackOutstanding grand).get field = payload.get field := by
  have hbase : ((if (sentNumber payload "grand_total").isNone then
      payload.insert "grand_total" (json grand) else payload).remove "outstanding_amount").get field =
        payload.get field := by
    rw [Map.get_remove_ne _ houtstanding]
    split_ifs
    · exact Map.get_insert_ne _ hgrand _
    · rfl
  unfold writeTotals
  dsimp only
  split
  · rw [Map.get_insert_ne _ houtstanding, hbase]
  · exact hbase

theorem writeTotals_outstanding (payload : Map) (grand : Ieee) :
    (writeTotals payload true grand).get "outstanding_amount" = some (json grand) :=
  Map.get_insert_self _ _ _

/-- A grand total that was not sent is written, and reads back as 0 when it is not finite. -/
theorem writeTotals_grand : (asNum ((writeTotals payload trackOutstanding grand).get "grand_total")).IsFinite ↔
    ∀ sent, sentNumber payload "grand_total" = some sent → sent.IsFinite := by
  have hne : ("grand_total" : String) ≠ "outstanding_amount" := by decide
  have hread : (writeTotals payload trackOutstanding grand).get "grand_total" =
      (if (sentNumber payload "grand_total").isNone then
        payload.insert "grand_total" (json grand) else payload).get "grand_total" := by
    unfold writeTotals
    dsimp only
    split
    · rw [Map.get_insert_ne _ hne, Map.get_remove_ne _ hne]
    · rw [Map.get_remove_ne _ hne]
  rw [hread]
  cases hsent : sentNumber payload "grand_total" with
  | none =>
    rw [Option.isNone_none, if_pos rfl, Map.get_insert_self]
    exact iff_of_true (isFinite_asNum_json grand) fun sent h => nomatch h
  | some sent =>
    rw [Option.isNone_some, if_neg Bool.false_ne_true, sentNumber_eq_some hsent]
    simp

end Totals

/-- A number that is written as JSON is one exactly when it is finite. -/
theorem json_eq_num {x : Ieee} : (∃ q, json x = .num q) ↔ x.IsFinite := by
  cases x with
  | fin q => exact iff_of_true ⟨q, rfl⟩ (Ieee.isFinite_fin q)
  | inf negative => exact iff_of_false (fun ⟨q, h⟩ => nomatch h) (Ieee.not_isFinite_inf negative)
  | nan => exact iff_of_false (fun ⟨q, h⟩ => nomatch h) Ieee.not_isFinite_nan

/-! ### The amounts that are checked -/

/-- What `money_field` lets through of a doctype's amounts. -/
def CheckedFinite (doctype : String) (payload : Map) : Prop :=
  match doctype with
  | "Expense" =>
    (asNum (payload.get "net_amount")).IsFinite ∧ (asNum (payload.get "tax_amount")).IsFinite
  | "Customer Deposit" => (asNum (payload.get "amount")).IsFinite
  | "Journal Entry" => journalRows payload ≠ [] ∧ ∀ row ∈ journalRows payload,
      (asNum (row.1.get "debit")).IsFinite ∧ (asNum (row.1.get "credit")).IsFinite
  | _ => True

theorem checkedFinite_congr {doctype : String} {payload payload' : Map}
    (h : ∀ field ∈ ["net_amount", "tax_amount", "amount", "accounts"],
      payload.get field = payload'.get field) :
    CheckedFinite doctype payload ↔ CheckedFinite doctype payload' := by
  simp only [CheckedFinite, journalRows, arrayOf, h "net_amount" (by decide),
    h "tax_amount" (by decide), h "amount" (by decide), h "accounts" (by decide)]

theorem moneyField_finite {payload : Map} {field what : String} {value : Ieee}
    (hok : moneyField payload field what = .ok value) : (asNum (payload.get field)).IsFinite := by
  unfold moneyField at hok
  dsimp only at hok
  split_ifs at hok with hrefused
  exact not_not.1 (not_or.1 hrefused).1

/-- A row of a Journal Entry counts a line only where it names an account. -/
theorem journalRow_ok {acc acc' : JournalTotals} {entry : Value × Nat}
    (hok : journalRow acc entry = .ok acc') : ∃ row, entry.1.asObject = some row ∧
      ((asNum (row.get "debit")).IsFinite ∧ (asNum (row.get "credit")).IsFinite) ∧
      (acc'.lines = acc.lines ∨ (asNonEmpty (row.get "account")).isSome = true) := by
  obtain ⟨value, i⟩ := entry
  unfold journalRow at hok
  dsimp only at hok
  cases hrow : value.asObject with
  | none =>
    rw [hrow] at hok
    cases hok
  | some row =>
    rw [hrow] at hok
    simp only [Except.bind_eq_ok, Except.throw_bind, Except.ite_throw_eq_ok] at hok
    obtain ⟨d, hd, c, hc, -, hok⟩ := hok
    refine ⟨row, rfl, ⟨moneyField_finite hd, moneyField_finite hc⟩, ?_⟩
    cases haccount : asNonEmpty (row.get "account") with
    | some account => exact .inr rfl
    | none =>
      left
      simp only [haccount, Option.isNone_none, if_true, Except.ite_throw_eq_ok,
        Except.pure_eq_ok] at hok
      rw [hok.2]

/-- Every row that passed has finite amounts, and a counted line is behind a row with an account. -/
theorem journalRow_walk {rows : List Value} {totals : JournalTotals}
    (hok : rows.zipIdx.foldlM journalRow {} = .ok totals) :
    (∀ entry ∈ rows.zipIdx, ∀ row, entry.1.asObject = some row →
        (asNum (row.get "debit")).IsFinite ∧ (asNum (row.get "credit")).IsFinite) ∧
      (totals.lines = 0 ∨ ∃ entry ∈ rows.zipIdx, ∃ row, entry.1.asObject = some row ∧
        (asNonEmpty (row.get "account")).isSome = true) := by
  have hstart : (∀ entry ∈ ([] : List (Value × Nat)), ∀ row, entry.1.asObject = some row →
        (asNum (row.get "debit")).IsFinite ∧ (asNum (row.get "credit")).IsFinite) ∧
      (({} : JournalTotals).lines = 0 ∨ ∃ entry ∈ ([] : List (Value × Nat)), ∃ row,
        entry.1.asObject = some row ∧ (asNonEmpty (row.get "account")).isSome = true) :=
    ⟨fun entry hentry => absurd hentry List.not_mem_nil, .inl rfl⟩
  refine Except.foldlM_ok_walk (fun done acc =>
    (∀ entry ∈ done, ∀ row, entry.1.asObject = some row →
        (asNum (row.get "debit")).IsFinite ∧ (asNum (row.get "credit")).IsFinite) ∧
      (acc.lines = 0 ∨ ∃ entry ∈ done, ∃ row, entry.1.asObject = some row ∧
        (asNonEmpty (row.get "account")).isSome = true)) ?_ hok hstart
  rintro done acc entry acc' hstep ⟨hfinite, hlines⟩
  obtain ⟨row, hrow, hamounts, haccount⟩ := journalRow_ok hstep
  constructor
  · refine List.forall_mem_append.2 ⟨hfinite, List.forall_mem_singleton.2 fun row' hrow' => ?_⟩
    obtain rfl := Option.some.inj (hrow.symm.trans hrow')
    exact hamounts
  · rcases haccount with hsame | haccount
    · refine hlines.imp (fun h => hsame.trans h) ?_
      rintro ⟨earlier, hearlier, hrest⟩
      exact ⟨earlier, List.mem_append_left _ hearlier, hrest⟩
    · exact .inr ⟨entry, List.mem_append_right _ (List.mem_singleton_self _), row, hrow, haccount⟩

/-- The rows of an accepted Journal Entry that name an account: there are some, of finite amounts. -/
theorem validateJournalEntry_checked {payload payload' : Map}
    (hok : validateJournalEntry payload = .ok payload') : CheckedFinite "Journal Entry" payload := by
  simp only [validateJournalEntry, Except.bind_eq_ok, Except.throw_bind, Except.ite_throw_eq_ok] at hok
  obtain ⟨totals, htotals, hlines, -⟩ := hok
  obtain ⟨hfinite, hnamed⟩ := journalRow_walk htotals
  constructor
  · rcases hnamed with hzero | ⟨⟨value, i⟩, hentry, row, hrow, haccount⟩
    · omega
    · have hmem : (row, i) ∈ journalRows payload := by
        refine List.mem_filter.2 ⟨List.mem_filterMap.2 ⟨(value, i), hentry, ?_⟩, haccount⟩
        dsimp only at hrow ⊢
        rw [hrow]
        rfl
      exact List.ne_nil_of_mem hmem
  · rintro ⟨row, i⟩ hrow
    obtain ⟨⟨value, j⟩, hentry, hread⟩ := List.mem_filterMap.1 (List.mem_filter.1 hrow).1
    obtain ⟨row', hrow', heq⟩ := Option.map_eq_some_iff.1 hread
    obtain ⟨rfl, rfl⟩ := Prod.mk.inj heq
    exact hfinite _ hentry _ hrow'

theorem validateC5Document_checked {doctype : String} {payload payload' : Map}
    {settings : CompanySettings} (hok : validateC5Document doctype payload settings = .ok payload') :
    CheckedFinite doctype payload := by
  unfold validateC5Document at hok
  split at hok
  · exact validateJournalEntry_checked hok
  · simp only [validateExpense, Except.bind_eq_ok, Except.throw_bind, Except.ite_throw_eq_ok] at hok
    obtain ⟨-, -, net, hnet, -, tax, htax, -⟩ := hok
    have hnet := moneyField_finite hnet
    have htax := moneyField_finite htax
    rw [defaultPaid_get (by decide)] at hnet htax
    exact ⟨hnet, htax⟩
  · simp only [validateCustomerDeposit, Except.bind_eq_ok, Except.throw_bind, Except.ite_throw_eq_ok] at hok
    obtain ⟨-, ⟨-, -, amount, hamount, -⟩, -⟩ := hok
    exact moneyField_finite hamount
  · rename_i hjournal hexpense hdeposit
    unfold CheckedFinite
    split
    · exact absurd rfl hexpense
    · exact absurd rfl hdeposit
    · exact absurd rfl hjournal
    · trivial

/-! ### The whole preparation -/

/-- The payload before the totals keeps what was submitted but for the fields that are written. -/
theorem preparePayload_ok {view : StoreView} {env : Env} {companyId : Uuid} {cmd : SubmitCommand}
    {documentId : String} {prepared : Prepared}
    (h : preparePayload view env companyId cmd documentId = .ok prepared) :
    ∃ checked, (∀ field ∉ writtenFields, checked.get field = (submitted cmd).get field) ∧
      (cmd.doctype = "Expense" → (asNum (checked.get "gross_amount")).IsFinite) ∧
      CheckedFinite cmd.doctype (submitted cmd) ∧
      validateTotals cmd.doctype checked = .ok prepared.payload := by
  simp only [preparePayload, Except.bind_eq_ok, Except.throw_bind, Except.ite_throw_eq_ok,
    Except.pure_eq_ok] at h
  obtain ⟨postingDate, -, -, -, -, deposited, hdeposit, checked, hchecked, totals, htotals, rfl⟩ := h
  have hkept : ∀ field, field ≠ "posting_date" → field ∉ depositFields → field ∉ accountFields →
      (resolveAccountFallbacks cmd.doctype deposited (view.companySettings companyId)).get field =
        (submitted cmd).get field := by
    intro field hdate hdepositField haccount
    have hdeposited : deposited.get field =
        ((submitted cmd).insert "posting_date" (.string postingDate)).get field := by
      unfold applyDeposit at hdeposit
      split_ifs at hdeposit
      · exact depositApplication_get hdepositField hdeposit
      · exact Except.ok.inj hdeposit ▸ rfl
    rw [resolveAccountFallbacks_get haccount, hdeposited, Map.get_insert_ne _ hdate]
  refine ⟨checked, fun field hfield => ?_, fun hexpense => ?_, ?_, htotals⟩
  · simp only [writtenFields, List.mem_append, List.mem_singleton, not_or] at hfield
    obtain ⟨⟨⟨hdate, hdepositField⟩, haccount⟩, hc5⟩ := hfield
    rw [validateC5Document_get hc5 hchecked, hkept field hdate hdepositField haccount]
  · rw [hexpense] at hchecked
    exact validateC5Document_gross hchecked
  · refine (checkedFinite_congr fun field hfield => ?_).1 (validateC5Document_checked hchecked)
    have hunwritten : ∀ field ∈ ["net_amount", "tax_amount", "amount", "accounts"],
        field ≠ "posting_date" ∧ field ∉ depositFields ∧ field ∉ accountFields := by
      decide
    obtain ⟨hdate, hdepositField, haccount⟩ := hunwritten field hfield
    exact hkept field hdate hdepositField haccount

end AtlasTeam.F64
