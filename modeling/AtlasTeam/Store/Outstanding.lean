import AtlasTeam.Posting.Prepared
import AtlasTeam.Store.StockLedger

/-!
# Outstanding amounts under concurrent payments

A payment computes the new outstanding amount of an invoice from the settlements it read, and its
commit writes the amount without looking again: two payments that read the same settlements both pass
their ceiling, and the later one overwrites the amount of the earlier (`outstanding_lost`). `Steady`
says what the commit would have to check: what was settled on the invoices is what was read, and they
are still submitted. `outstanding_kept` shows that runs of such commits keep every outstanding amount
right.
-/

namespace AtlasTeam

/-! ### What the books say about an invoice -/

def grandTotal (doc : PostedDocument) : ℚ := asNum (doc.payload.get "grand_total")

/-- What the stored settlements allocate to an invoice. -/
def settledOn (inner : Inner) (company : Uuid) (key : String × String) : ℚ :=
  allocatedTo key (inner.settlements.log company)

/-- Submitted invoices carry what is left of their grand total, which is not overdrawn, and nothing is
left settled on cancelled ones. -/
structure OutstandingRight (inner : Inner) : Prop where
  outstanding : ∀ company doctype id doc, doctype ∈ settleableDoctypes →
    AList.lookup (company, doctype, id) inner.documents = some doc → doc.docstatus = 1 →
    doc.payload.get "outstanding_amount" =
      some (.num (grandTotal doc - settledOn inner company (doctype, id)))
  notNegative : ∀ company doctype id doc, doctype ∈ settleableDoctypes →
    AList.lookup (company, doctype, id) inner.documents = some doc → doc.docstatus = 1 →
    0 ≤ grandTotal doc → -moneyEps ≤ grandTotal doc - settledOn inner company (doctype, id)
  cancelled : ∀ company doctype id doc, doctype ∈ settleableDoctypes →
    AList.lookup (company, doctype, id) inner.documents = some doc → doc.docstatus = 2 →
    |settledOn inner company (doctype, id)| ≤ moneyEps

/-- The outstanding amounts are right, and settlements name documents. -/
structure Settled (inner : Inner) : Prop extends OutstandingRight inner where
  named : ∀ company, ∀ s ∈ inner.settlements.log company,
    (AList.lookup (company, s.invoiceKey) inner.documents).isSome = true

theorem settled_fresh : Settled {} where
  outstanding _ _ _ _ _ h := by simp at h
  notNegative _ _ _ _ _ h := by simp at h
  cancelled _ _ _ _ _ h := by simp at h
  named _ s h := by simp [Table.log] at h

/-! ### Sums of settlements -/

theorem allocatedTo_append (key : String × String) (xs ys : List Settlement) :
    allocatedTo key (xs ++ ys) = allocatedTo key xs + allocatedTo key ys := by
  simp [allocatedTo]

theorem allocatedTo_eq_zero {key : String × String} {settlements : List Settlement}
    (h : key ∉ settlements.map Settlement.invoiceKey) : allocatedTo key settlements = 0 := by
  have hnil : settlements.filter (fun s => s.invoiceKey = key) = [] := by
    refine List.filter_eq_nil_iff.2 fun s hs heq => h ?_
    exact List.mem_map.2 ⟨s, hs, of_decide_eq_true heq⟩
  rw [allocatedTo, hnil, List.map_nil, List.sum_nil]

/-- Reversing settlements negates what they allocate. -/
theorem allocatedTo_reversal (key : String × String) (batchId : String)
    (settlements : List Settlement) :
    allocatedTo key (settlements.map (Settlement.reversal batchId)) = -allocatedTo key settlements := by
  induction settlements with
  | nil => simp [allocatedTo]
  | cons s settlements ih =>
    have hsame : (s.reversal batchId).invoiceKey = s.invoiceKey := rfl
    have hamount : (s.reversal batchId).allocatedAmount = -s.allocatedAmount := rfl
    unfold allocatedTo at ih ⊢
    by_cases hkey : s.invoiceKey = key
    · simp only [List.map_cons, List.filter_cons, hsame, hkey, decide_true, if_true, List.sum_cons,
        hamount, ih]
      ring
    · simp only [List.map_cons, List.filter_cons, hsame, hkey, decide_false, Bool.false_eq_true,
        if_false, ih]

/-- What a build reads as settled. -/
theorem settledOn_eq (inner : Inner) (company : Uuid) (key : String × String) :
    ((inner.view.settlementsForInvoice company key.1 key.2).map Settlement.allocatedAmount).sum =
      settledOn inner company key := by
  unfold settledOn allocatedTo
  congr 2
  refine List.filter_congr fun s _ => ?_
  rw [Bool.eq_iff_iff, Bool.and_eq_true, decide_eq_true_eq, decide_eq_true_eq, decide_eq_true_eq]
  exact Prod.mk_inj.symm

section Applied
variable {commit : PostingCommit} {inner inner' : Inner}

theorem settledOn_applied (h : Inner.Applied commit inner inner') (key : String × String) :
    settledOn inner' commit.companyId key =
      settledOn inner commit.companyId key + allocatedTo key commit.settlements := by
  rw [settledOn, h.settlements, Table.log, Table.extend, AList.lookup_insert, Option.getD_some,
    allocatedTo_append]
  rfl

theorem settledOn_applied_ne (h : Inner.Applied commit inner inner') {company : Uuid}
    (hne : company ≠ commit.companyId) (key : String × String) :
    settledOn inner' company key = settledOn inner company key := by
  rw [settledOn, h.settlements, Table.log, Table.extend, AList.lookup_insert_ne hne]
  rfl

/-- A commit appends its settlements to those of its company. -/
theorem mem_settlements_applied (h : Inner.Applied commit inner inner') {company : Uuid} {s : Settlement} :
    s ∈ inner'.settlements.log company ↔
      s ∈ inner.settlements.log company ∨ company = commit.companyId ∧ s ∈ commit.settlements := by
  rw [h.settlements, Table.log, Table.extend]
  by_cases hcompany : company = commit.companyId
  · subst hcompany
    rw [AList.lookup_insert, Option.getD_some, List.mem_append]
    simp [Table.log]
  · rw [AList.lookup_insert_ne hcompany]
    simp [hcompany, Table.log]

/-- A document the commit neither writes nor updates stays as it is. -/
theorem document_applied_of_ne (h : Inner.Applied commit inner inner') {key : Uuid × String × String}
    (hkey : key ≠ Inner.docKey commit)
    (hupdates : ∀ update ∈ commit.outstandingUpdates, key ≠ (commit.companyId, updateKey update)) :
    AList.lookup key inner'.documents = AList.lookup key inner.documents := by
  rw [h.documents, Inner.writtenDocuments, Inner.writeOutstandings,
    Inner.lookup_writeOutstandings_of_ne hupdates, AList.lookup_insert_ne hkey]

/-- A document the commit updates. -/
theorem document_applied_update (h : Inner.Applied commit inner inner')
    (hnodup : (commit.outstandingUpdates.map updateKey).Nodup) {update : String × String × ℚ}
    (hupdate : update ∈ commit.outstandingUpdates)
    (hkey : (commit.companyId, updateKey update) ≠ Inner.docKey commit) {doc : PostedDocument}
    (hdoc : AList.lookup (commit.companyId, updateKey update) inner.documents = some doc) :
    AList.lookup (commit.companyId, updateKey update) inner'.documents =
      some (Inner.withOutstanding doc update.2.2) := by
  rw [h.documents, Inner.writtenDocuments, Inner.writeOutstandings]
  refine Inner.lookup_writeOutstandings_of_mem hnodup hupdate ?_
  rw [AList.lookup_insert_ne hkey]
  exact hdoc

/-- The document the commit writes, when no update is for it. -/
theorem document_applied_self (h : Inner.Applied commit inner inner')
    (hupdates : commit.outstandingUpdates = []) :
    AList.lookup (Inner.docKey commit) inner'.documents =
      some (Inner.numberedDocument commit inner) := by
  rw [h.documents, Inner.writtenDocuments, hupdates]
  exact AList.lookup_insert _

/-- A document stays. -/
theorem document_applied_isSome (h : Inner.Applied commit inner inner')
    {key : Uuid × String × String} (hdoc : (AList.lookup key inner.documents).isSome = true) :
    (AList.lookup key inner'.documents).isSome = true := by
  have hwritten := Inner.lookup_written commit inner key
  rw [← h.documents] at hwritten
  rw [← Option.isSome_map, hwritten]
  split_ifs
  · rfl
  · rwa [Option.isSome_map]

end Applied

/-! ### What holds a payment to what it read -/

/-- What was settled on the invoice is what the build read, and the invoice is submitted. -/
structure InvoiceSteady (draft : Draft Inner) (before : Inner) (key : String × String) : Prop where
  settled : settledOn before draft.companyId key = settledOn draft.snapshot draft.companyId key
  submitted : ∃ doc, AList.lookup (draft.companyId, key) before.documents = some doc ∧
    doc.docstatus = 1

instance (draft : Draft Inner) (before : Inner) (key : String × String) :
    Decidable (InvoiceSteady draft before key) :=
  decidable_of_iff
    (settledOn before draft.companyId key = settledOn draft.snapshot draft.companyId key ∧
      ∃ doc ∈ AList.lookup (draft.companyId, key) before.documents, doc.docstatus = 1)
    ⟨fun h => ⟨h.1, h.2⟩, fun h => ⟨h.settled, h.submitted⟩⟩

/-- The settlements of a payment that its cancel reverses. -/
def liveSettlements (inner : Inner) (company : Uuid) (paymentNo : String) : List Settlement :=
  (inner.view.settlementsForPayment company paymentNo).filter fun s => !s.isReversal

/-- A draft meets the store `before` steadily: a payment finds its invoices as it read them; a
cancelled payment had taken nothing back; a cancelled invoice has nothing settled on it; and what is
cancelled under a payment's number is the payment. -/
def Steady (draft : Draft Inner) (before : Inner) : Prop :=
  match draft.command with
  | .submit _ => ∀ s ∈ draft.commit.settlements, InvoiceSteady draft before s.invoiceKey
  | .cancel cmd =>
    let live := liveSettlements draft.snapshot draft.companyId cmd.documentId
    (cmd.doctype ∈ settleableDoctypes →
      |settledOn before draft.companyId (cmd.doctype, cmd.documentId)| ≤ moneyEps) ∧
    if cmd.doctype = "Payment Entry" then
      ∀ s ∈ live, InvoiceSteady draft before s.invoiceKey ∧ 0 ≤ allocatedTo s.invoiceKey live
    else live = []
  | .takeOn _ => True

instance (draft : Draft Inner) (before : Inner) : Decidable (Steady draft before) := by
  unfold Steady
  cases draft.command <;> infer_instance

/-- What a steady draft does to settlements and invoices. -/
structure SettlementStep (draft : Draft Inner) (before : Inner) : Prop where
  company : draft.commit.companyId = draft.companyId
  steady : ∀ s ∈ draft.commit.settlements, InvoiceSteady draft before s.invoiceKey
  updates : ∃ enforce, OutstandingUpdates draft.snapshot.view draft.companyId
    draft.commit.settlements enforce draft.commit.outstandingUpdates ∧
    (enforce = true ∨
      ∀ s ∈ draft.commit.settlements, allocatedTo s.invoiceKey draft.commit.settlements ≤ 0)
  /-- The document it writes: an invoice starts with its grand total, or ends with nothing settled. -/
  document : draft.commit.document.doctype ∈ settleableDoctypes →
    draft.commit.settlements = [] ∧
    (draft.commit.document.docstatus = 1 ∧
        AList.lookup (Inner.docKey draft.commit) before.documents = none ∧
        draft.commit.document.payload.get "outstanding_amount" =
          some (.num (grandTotal draft.commit.document)) ∨
      draft.commit.document.docstatus = 2 ∧
        |settledOn before draft.companyId
          (draft.commit.document.doctype, draft.commit.document.id)| ≤ moneyEps)

section Build
variable {codec : Codec} {allowed : Allowed MemOp}

theorem submit_settlementStep {draft : Draft Inner} {inner : Inner} {cmd : SubmitCommand}
    (hcommand : draft.command = .submit cmd)
    (hbuild : buildSubmit codec draft.snapshot.view draft.builtAt draft.companyId cmd draft.documentId
      draft.actor = .ok draft.commit)
    (hpassed : Inner.Passed draft.commit inner) (hsteady : Steady draft inner) :
    SettlementStep draft inner := by
  obtain ⟨prepared, shortfalls, settlements, updates, hprepared, -, hpayment, hcommit⟩ :=
    buildSubmit_ok hbuild
  obtain ⟨hrows, hupdates⟩ := paymentRows_ok hpayment
  have hsettlements : draft.commit.settlements = settlements := by rw [hcommit]; rfl
  have hwritten : draft.commit.outstandingUpdates = updates := by rw [hcommit]; rfl
  have hdoctype : draft.commit.document.doctype = cmd.doctype := by rw [hcommit]; rfl
  have hpayload : draft.commit.document.payload =
      .object (storedPayload cmd draft.actor prepared.payload) := by rw [hcommit]; rfl
  rw [Steady, hcommand] at hsteady
  constructor
  · rw [hcommit]
    rfl
  · exact hsteady
  · rw [hsettlements, hwritten]
    exact ⟨true, hupdates, .inl rfl⟩
  · intro hsettleable
    rw [hdoctype] at hsettleable
    have hnotPayment : cmd.doctype ≠ "Payment Entry" := by
      intro heq
      rw [heq] at hsettleable
      exact absurd hsettleable (by decide)
    refine ⟨hsettlements.trans (hrows.resolve_left hnotPayment), .inl ⟨?_, ?_, ?_⟩⟩
    · rw [hcommit]
      rfl
    · exact hpassed.absent (by rw [hcommit]; rfl)
    · rw [grandTotal, hpayload, Value.get, Value.get, storedPayload_get (by decide) (by decide),
        storedPayload_get (by decide) (by decide)]
      exact preparePayload_outstanding hprepared hsettleable

theorem cancel_settlementStep {book₀ : Book Inner} {draft : Draft Inner} {inner : Inner}
    {cmd : CancelCommand} (hkept₀ : Kept book₀) (hsnapshot : draft.snapshot = book₀.store)
    (hcommand : draft.command = .cancel cmd)
    (hbuild : buildCancel draft.snapshot.view draft.builtAt draft.companyId cmd draft.actor =
      .ok draft.commit)
    (hsteady : Steady draft inner) : SettlementStep draft inner := by
  obtain ⟨doc, postingDate, guard, updates, hdoc, -, -, -, hrestored, hcommit⟩ := buildCancel_ok hbuild
  have hcompany : draft.commit.companyId = draft.companyId := by rw [hcommit]; rfl
  have hwritten : draft.commit.outstandingUpdates = updates := by rw [hcommit]; rfl
  have hreversed : draft.commit.settlements =
      (liveSettlements draft.snapshot draft.companyId cmd.documentId).map
        (Settlement.reversal ("PB-" ++ cmd.documentId ++ reversalSuffix)) := by rw [hcommit]; rfl
  -- the document is the one the command names
  have hkey : (draft.companyId, cmd.doctype, cmd.documentId) = (doc.companyId, doc.doctype, doc.id) := by
    rw [hsnapshot] at hdoc
    exact hkept₀.keyed _ _ hdoc
  obtain ⟨-, hkey'⟩ := Prod.mk.inj hkey
  obtain ⟨hdoctype, hid⟩ := Prod.mk.inj hkey'
  have hdocument : draft.commit.document.doctype = cmd.doctype ∧
      draft.commit.document.id = cmd.documentId ∧ draft.commit.document.docstatus = 2 := by
    rw [hcommit]
    exact ⟨hdoctype.symm, hid.symm, rfl⟩
  rw [Steady, hcommand] at hsteady
  obtain ⟨hinvoice, hpayment⟩ := hsteady
  by_cases hisPayment : cmd.doctype = "Payment Entry"
  · rw [if_pos hisPayment] at hpayment
    rw [restoredOutstanding, if_pos hisPayment] at hrestored
    have hlive : ∀ s ∈ draft.commit.settlements,
        ∃ s' ∈ liveSettlements draft.snapshot draft.companyId cmd.documentId,
          s'.invoiceKey = s.invoiceKey := by
      intro s hs
      rw [hreversed] at hs
      obtain ⟨s', hs', rfl⟩ := List.mem_map.1 hs
      exact ⟨s', hs', rfl⟩
    refine ⟨hcompany, fun s hs => ?_, ⟨false, ?_, .inr fun s hs => ?_⟩, fun hsettleable => ?_⟩
    · obtain ⟨s', hs', hsame⟩ := hlive s hs
      exact hsame ▸ (hpayment s' hs').1
    · rw [hwritten, hreversed]
      exact paymentOutstandingUpdates_ok hrestored
    · obtain ⟨s', hs', hsame⟩ := hlive s hs
      rw [hreversed, allocatedTo_reversal, ← hsame]
      exact neg_nonpos.2 (hpayment s' hs').2
    · rw [hdocument.1, hisPayment] at hsettleable
      exact absurd hsettleable (by decide)
  · rw [if_neg hisPayment] at hpayment
    rw [restoredOutstanding, if_neg hisPayment] at hrestored
    have hnone : draft.commit.settlements = [] := by rw [hreversed, hpayment, List.map_nil]
    refine ⟨hcompany, fun s hs => ?_, ⟨true, ?_, .inl rfl⟩, fun hsettleable => ⟨hnone, .inr ⟨?_, ?_⟩⟩⟩
    · rw [hnone] at hs
      exact absurd hs List.not_mem_nil
    · rw [hnone, hwritten, ← Except.ok.inj hrestored]
      exact .none _ _ _
    · exact hdocument.2.2
    · rw [hdocument.1] at hsettleable ⊢
      rw [hdocument.2.1]
      exact hinvoice hsettleable

/-- What an applied steady draft does. -/
theorem built_settlementStep {book₀ : Book Inner} {draft : Draft Inner} {inner : Inner}
    (hkept₀ : Kept book₀) (hbuilt : Draft.Built codec (memBackend codec) allowed book₀ draft)
    (hvoucher : draft.command.IsVoucher) (hpassed : Inner.Passed draft.commit inner)
    (hsteady : Steady draft inner) : SettlementStep draft inner := by
  have hbuild := hbuilt.build
  cases hcommand : draft.command with
  | submit cmd =>
    rw [hcommand] at hbuild
    exact submit_settlementStep hcommand hbuild hpassed hsteady
  | cancel cmd =>
    rw [hcommand] at hbuild
    exact cancel_settlementStep hkept₀ hbuilt.snapshot hcommand hbuild hsteady
  | takeOn cmd =>
    rw [hcommand] at hvoucher
    exact hvoucher.elim

end Build

/-! ### One commit, one invoice -/

/-- The grand total of an official document does not move. -/
theorem Later.grandTotal_eq {doc doc' : PostedDocument} (h : Later doc doc') :
    grandTotal doc' = grandTotal doc := by
  rw [grandTotal, grandTotal, h.get (by decide)]

theorem grandTotal_withOutstanding (doc : PostedDocument) (outstanding : ℚ) :
    grandTotal (Inner.withOutstanding doc outstanding) = grandTotal doc :=
  (Later.of_frozen (Inner.frozen_withOutstanding doc outstanding)).grandTotal_eq

/-- A payload with an outstanding amount takes a new one. -/
theorem outstanding_withOutstanding {doc : PostedDocument} {v : Value}
    (h : doc.payload.get "outstanding_amount" = some v) (outstanding : ℚ) :
    (Inner.withOutstanding doc outstanding).payload.get "outstanding_amount" =
      some (.num outstanding) := by
  unfold Inner.withOutstanding
  cases hpayload : doc.payload with
  | object m => exact Map.get_insert_self m _ _
  | _ =>
    rw [hpayload] at h
    cases h

/-- What a commit can do to an invoice, seen from the invoice it leaves. -/
inductive InvoiceStep (inner inner' : Inner) (company : Uuid) (key : String × String)
    (doc' : PostedDocument) : Prop
  | kept (hdoc : AList.lookup (company, key) inner.documents = some doc')
      (hsettled : settledOn inner' company key = settledOn inner company key)
  | paid (doc : PostedDocument) (amount : ℚ)
      (hdoc : AList.lookup (company, key) inner.documents = some doc) (hstatus : doc.docstatus = 1)
      (hsettled : settledOn inner' company key = settledOn inner company key + amount)
      (hlimit : amount ≤ grandTotal doc - settledOn inner company key + moneyEps ∨ amount ≤ 0)
      (hdoc' : doc' = Inner.withOutstanding doc (grandTotal doc - settledOn inner' company key))
  | opened (hstatus : doc'.docstatus = 1)
      (houtstanding : doc'.payload.get "outstanding_amount" = some (.num (grandTotal doc')))
      (hsettled : settledOn inner' company key = 0)
  | cancelled (hstatus : doc'.docstatus = 2) (hsettled : |settledOn inner' company key| ≤ moneyEps)

section Step
variable {draft : Draft Inner} {inner inner' : Inner}

/-- An invoice the commit settles. -/
theorem SettlementStep.paid (hstep : SettlementStep draft inner)
    (hgrow : Extends draft.snapshot inner) (happlied : Inner.Applied draft.commit inner inner')
    {key : String × String} (hkey : (draft.commit.companyId, key) ≠ Inner.docKey draft.commit)
    (hmem : key ∈ draft.commit.outstandingUpdates.map updateKey) {doc' : PostedDocument}
    (hdoc' : AList.lookup (draft.commit.companyId, key) inner'.documents = some doc') :
    InvoiceStep inner inner' draft.commit.companyId key doc' := by
  obtain ⟨enforce, hupdates, hlimit⟩ := hstep.updates
  obtain ⟨s, hs, hsame⟩ := List.mem_map.1 ((hupdates.settled key).1 hmem)
  obtain ⟨hsteady, doc, hdoc, hstatus⟩ := hsame ▸ hstep.steady s hs
  obtain ⟨update, hupdate, rfl⟩ := List.mem_map.1 hmem
  obtain ⟨invoice, hinvoice, -, hceiling, hvalue⟩ := outstandingUpdate_ok (hupdates.computed update hupdate)
  have hcompany := hstep.company
  -- the invoice the build read is the one the commit meets, earlier
  have hgrand : grandTotal doc = asNum (invoice.payload.get "grand_total") := by
    obtain ⟨later, hlater, hlaterThan⟩ := hgrow.documents _ _ hinvoice
    obtain rfl : later = doc := Option.some.inj (hlater.symm.trans hdoc)
    exact hlaterThan.grandTotal_eq
  rw [settledOn_eq, ← hsteady, ← hgrand] at hceiling hvalue
  rw [← hcompany] at hdoc hceiling hvalue
  have hwritten := document_applied_update happlied hupdates.nodup hupdate hkey hdoc
  have hsettled := settledOn_applied happlied (updateKey update)
  refine .paid doc (allocatedTo (updateKey update) draft.commit.settlements) hdoc hstatus hsettled ?_ ?_
  · rcases hlimit with henforce | hnegative
    · exact .inl (hceiling henforce)
    · exact .inr (hsame ▸ hnegative s hs)
  · have hamount : update.2.2 = grandTotal doc - settledOn inner' draft.commit.companyId (updateKey update) := by
      rw [hsettled]
      exact congrArg (fun u => u.2.2) hvalue
    rw [← hamount]
    exact Option.some.inj (hdoc'.symm.trans hwritten)

/-- The invoice the commit writes. -/
theorem SettlementStep.written (hstep : SettlementStep draft inner) (h : Settled inner)
    (happlied : Inner.Applied draft.commit inner inner')
    (hsettleable : draft.commit.document.doctype ∈ settleableDoctypes) {doc' : PostedDocument}
    (hdoc' : AList.lookup (Inner.docKey draft.commit) inner'.documents = some doc') :
    InvoiceStep inner inner' draft.commit.companyId
      (draft.commit.document.doctype, draft.commit.document.id) doc' := by
  obtain ⟨hnone, hdocument⟩ := hstep.document hsettleable
  obtain ⟨enforce, hupdates, -⟩ := hstep.updates
  have hnoUpdates : draft.commit.outstandingUpdates = [] := by
    refine List.eq_nil_iff_forall_not_mem.2 fun update hupdate => ?_
    have hmem := (hupdates.settled _).1 (List.mem_map_of_mem hupdate)
    rw [hnone] at hmem
    exact absurd hmem List.not_mem_nil
  have hself := document_applied_self happlied hnoUpdates
  obtain rfl : doc' = Inner.numberedDocument draft.commit inner :=
    Option.some.inj (hdoc'.symm.trans hself)
  have hsettled := settledOn_applied happlied
    (draft.commit.document.doctype, draft.commit.document.id)
  rw [hnone] at hsettled
  have hzero : allocatedTo (draft.commit.document.doctype, draft.commit.document.id) [] = 0 := rfl
  rw [hzero, add_zero] at hsettled
  rw [Inner.numberedDocument_eq]
  rcases hdocument with ⟨hstatus, habsent, houtstanding⟩ | ⟨hstatus, hleft⟩
  · refine .opened hstatus houtstanding ?_
    -- settlements name documents that are there
    rw [hsettled]
    refine allocatedTo_eq_zero fun hmem => ?_
    obtain ⟨s, hs, hsame⟩ := List.mem_map.1 hmem
    have hnamed := h.named _ s hs
    rw [hsame] at hnamed
    have habsent' : AList.lookup (draft.commit.companyId, draft.commit.document.doctype,
        draft.commit.document.id) inner.documents = none := habsent
    rw [habsent'] at hnamed
    cases hnamed
  · refine .cancelled hstatus ?_
    rw [hsettled, hstep.company]
    exact hleft

/-- What a steady commit does to any invoice. -/
theorem SettlementStep.invoice (hstep : SettlementStep draft inner) (h : Settled inner)
    (hgrow : Extends draft.snapshot inner) (happlied : Inner.Applied draft.commit inner inner')
    {company : Uuid} {doctype id : String} (hsettleable : doctype ∈ settleableDoctypes)
    {doc' : PostedDocument}
    (hdoc' : AList.lookup (company, doctype, id) inner'.documents = some doc') :
    InvoiceStep inner inner' company (doctype, id) doc' := by
  obtain ⟨enforce, hupdates, -⟩ := hstep.updates
  by_cases hcompany : company = draft.commit.companyId
  · subst hcompany
    by_cases hkey : (draft.commit.companyId, doctype, id) = Inner.docKey draft.commit
    · obtain ⟨rfl, rfl⟩ := Prod.mk.inj (Prod.mk.inj hkey).2
      exact hstep.written h happlied hsettleable hdoc'
    · by_cases hmem : (doctype, id) ∈ draft.commit.outstandingUpdates.map updateKey
      · exact hstep.paid hgrow happlied hkey hmem hdoc'
      · have hsame := document_applied_of_ne happlied hkey fun update hupdate heq =>
          hmem (List.mem_map.2 ⟨update, hupdate, (Prod.mk.inj heq).2.symm⟩)
        have hzero : allocatedTo (doctype, id) draft.commit.settlements = 0 :=
          allocatedTo_eq_zero fun hsettled => hmem ((hupdates.settled _).2 hsettled)
        refine .kept (hsame.symm.trans hdoc') ?_
        rw [settledOn_applied happlied, hzero, add_zero]
  · have hkey : (company, doctype, id) ≠ Inner.docKey draft.commit :=
      fun heq => hcompany (Prod.mk.inj heq).1
    have hsame := document_applied_of_ne happlied hkey fun update _ heq => hcompany (Prod.mk.inj heq).1
    exact .kept (hsame.symm.trans hdoc') (settledOn_applied_ne happlied hcompany _)

/-- Settlements of a steady commit name documents that are there. -/
theorem SettlementStep.named (hstep : SettlementStep draft inner) (h : Settled inner)
    (happlied : Inner.Applied draft.commit inner inner') (company : Uuid) :
    ∀ s ∈ inner'.settlements.log company,
      (AList.lookup (company, s.invoiceKey) inner'.documents).isSome = true := by
  intro s hs
  refine document_applied_isSome happlied ?_
  rcases (mem_settlements_applied happlied).1 hs with hold | ⟨rfl, hnew⟩
  · exact h.named company s hold
  · obtain ⟨doc, hdoc, -⟩ := (hstep.steady s hnew).submitted
    rw [hstep.company, hdoc]
    rfl

/-- A steady commit keeps the outstanding amounts right. -/
theorem Settled.applied (h : Settled inner) (hstep : SettlementStep draft inner)
    (hgrow : Extends draft.snapshot inner) (happlied : Inner.Applied draft.commit inner inner') :
    Settled inner' where
  outstanding company doctype id doc hsettleable hdoc hstatus := by
    cases hstep.invoice h hgrow happlied hsettleable hdoc with
    | kept hdoc₀ hsettled =>
      rw [hsettled]
      exact h.outstanding company doctype id doc hsettleable hdoc₀ hstatus
    | paid doc₀ amount hdoc₀ hstatus₀ hsettled hlimit hdoc' =>
      subst hdoc'
      rw [grandTotal_withOutstanding]
      exact outstanding_withOutstanding (h.outstanding company doctype id doc₀ hsettleable hdoc₀ hstatus₀) _
    | opened _ houtstanding hsettled => rw [hsettled, sub_zero, houtstanding]
    | cancelled hstatus' _ => omega
  notNegative company doctype id doc hsettleable hdoc hstatus hgrand := by
    have heps : (0 : ℚ) ≤ moneyEps := by decide +kernel
    cases hstep.invoice h hgrow happlied hsettleable hdoc with
    | kept hdoc₀ hsettled =>
      rw [hsettled]
      exact h.notNegative company doctype id doc hsettleable hdoc₀ hstatus hgrand
    | paid doc₀ amount hdoc₀ hstatus₀ hsettled hlimit hdoc' =>
      subst hdoc'
      rw [grandTotal_withOutstanding] at hgrand ⊢
      have hbefore := h.notNegative company doctype id doc₀ hsettleable hdoc₀ hstatus₀ hgrand
      rw [hsettled]
      rcases hlimit with hceiling | hback
      · linarith
      · linarith
    | opened _ _ hsettled =>
      rw [hsettled]
      linarith
    | cancelled hstatus' _ => omega
  cancelled company doctype id doc hsettleable hdoc hstatus := by
    cases hstep.invoice h hgrow happlied hsettleable hdoc with
    | kept hdoc₀ hsettled =>
      rw [hsettled]
      exact h.cancelled company doctype id doc hsettleable hdoc₀ hstatus
    | paid doc₀ amount hdoc₀ hstatus₀ hsettled hlimit hdoc' =>
      subst hdoc'
      have hsame : (Inner.withOutstanding doc₀ (grandTotal doc₀ -
        settledOn inner' company (doctype, id))).docstatus = doc₀.docstatus := rfl
      omega
    | opened hstatus' _ _ => omega
    | cancelled _ hsettled => exact hsettled
  named := hstep.named h happlied

end Step

theorem settled_rule {codec : Codec} :
    Snapshot.Rule (protocol codec (memBackend codec) vouchers)
      (fun book => Kept book ∧
        ((∀ entry ∈ book.journal, Steady entry.toDraft entry.before) → Settled book.store))
      fun book book' => Extends book.store book'.store := by
  refine extends_rule_and ?_ ?_
  · intro book₀ book draft inner' hkept₀ _ hgrow _ h hbuilt hpassed happlied hsteady
    rw [← hbuilt.snapshot] at hgrow
    have hsettled := h fun entry hentry => hsteady entry (List.mem_append_left _ hentry)
    have hdraft : Steady draft book.store :=
      hsteady _ (List.mem_append_right _ List.mem_cons_self)
    exact hsettled.applied (built_settlementStep hkept₀ hbuilt hbuilt.allowed hpassed hdraft) hgrow
      happlied
  · intro book op env h _ hsteady
    have hframe := operate_frame codec env op book.store
    have hsettled := h hsteady
    have hsame : ∀ company key, settledOn ((memBackend codec).operate env op book.store) company key =
        settledOn book.store company key := by
      intro company key
      rw [settledOn, hframe.settlements]
      rfl
    constructor
    · constructor
      · simp only [hframe.documents, hsame]
        exact hsettled.outstanding
      · simp only [hframe.documents, hsame]
        exact hsettled.notNegative
      · simp only [hframe.documents, hsame]
        exact hsettled.cancelled
    · simp only [hframe.documents, hframe.settlements]
      exact hsettled.named

/-- In every run of vouchers whose commits meet the invoices they settle as they read them, every
submitted invoice carries its grand total less what is settled on it, is not overdrawn by more than
half a cent, and cancelled invoices have nothing settled on them. -/
theorem outstanding_kept (codec : Codec) (events : List (Event MemOp))
    (hevents : ∀ event ∈ events, event.Allowed vouchers)
    (hsteady : ∀ entry ∈ (memRun codec events).book.journal, Steady entry.toDraft entry.before) :
    OutstandingRight (memRun codec events).book.store := by
  have hrun : Kept (memRun codec events).book ∧
      ((∀ entry ∈ (memRun codec events).book.journal, Steady entry.toDraft entry.before) →
        Settled (memRun codec events).book.store) :=
    System.invariant_of_rule settled_rule ⟨kept_fresh, fun _ => settled_fresh⟩ hevents
  exact (hrun.2 hsteady).toOutstandingRight

/-! ### Two payments of one invoice -/

/-- An invoice over a hundred. -/
def salesInvoice : Command :=
  .submit
    { doctype := "Sales Invoice"
      documentId := some "SI-1"
      payload := [("customer", .string "ACME"), ("posting_date", .string "2026-01-05")]
      items := [.obj [("item", .string "TEA"), ("qty", .int 1), ("rate", .int 100)]]
      idempotencyKey := none
      offlineFiscal := false }

/-- A payment of part of it. -/
def invoicePayment (id : String) (amount : Int) : Command :=
  .submit
    { doctype := "Payment Entry"
      documentId := some id
      payload := [("paid_amount", .int amount), ("party", .string "ACME"),
        ("payment_type", .string "Receive"), ("posting_date", .string "2026-01-05"),
        ("references", .array [.obj [("allocated_amount", .int amount),
          ("reference_doctype", .string "Sales Invoice"), ("reference_name", .string "SI-1")]])]
      items := []
      idempotencyKey := none
      offlineFiscal := false }

/-- An invoice and two payments of sixty, both built before one is committed. -/
def twoPayments : List (Event MemOp) :=
  let env : Env := ⟨0, "2026-01-05", 0⟩
  let clerk : Actor := ⟨some 7, some 5, none⟩
  Event.whole 1 clerk salesInvoice 0 env ++
    [.call 1 clerk (invoicePayment "PE-1" 60), .call 1 clerk (invoicePayment "PE-2" 60),
      .advance 1 env, .advance 2 env, .advance 1 env, .advance 2 env, .advance 1 env, .advance 2 env]

/-- Both payments are taken, 120 in all, and the invoice is left with an outstanding of 40. -/
theorem outstanding_lost :
    (∀ event ∈ twoPayments, event.Allowed vouchers) ∧
    ¬ OutstandingRight (memRun serdeCodec twoPayments).book.store := by
  refine ⟨by simp [twoPayments, Event.whole, Event.Allowed, vouchers, Command.IsVoucher, salesInvoice,
    invoicePayment], fun h => ?_⟩
  have hinvoice : (AList.lookup (1, "Sales Invoice", "SI-1")
      (memRun serdeCodec twoPayments).book.store.documents).map
        (fun doc => (doc.docstatus, asNum (doc.payload.get "outstanding_amount"), grandTotal doc)) =
      some (1, 40, 100) := by decide +kernel
  have hsettled : settledOn (memRun serdeCodec twoPayments).book.store 1 ("Sales Invoice", "SI-1") =
      120 := by decide +kernel
  obtain ⟨doc, hdoc, hread⟩ := Option.map_eq_some_iff.1 hinvoice
  obtain ⟨hstatus, hleft, hgrand⟩ : doc.docstatus = 1 ∧
      asNum (doc.payload.get "outstanding_amount") = 40 ∧ grandTotal doc = 100 := by
    simpa only [Prod.mk.injEq] using hread
  have hright := h.outstanding 1 "Sales Invoice" "SI-1" doc (by decide) hdoc hstatus
  rw [hright, hsettled, hgrand] at hleft
  have hamount : asNum (some (.num (100 - 120))) = 100 - 120 := rfl
  rw [hamount] at hleft
  norm_num at hleft

/-- Payments of sixty and forty, one after the other. -/
def paymentsInTurn : List (Event MemOp) :=
  let env : Env := ⟨0, "2026-01-05", 0⟩
  let clerk : Actor := ⟨some 7, some 5, none⟩
  Event.whole 1 clerk salesInvoice 0 env ++ Event.whole 1 clerk (invoicePayment "PE-1" 60) 1 env ++
    Event.whole 1 clerk (invoicePayment "PE-2" 40) 2 env

theorem outstanding_kept_in_turn :
    settledOn (memRun serdeCodec paymentsInTurn).book.store 1 ("Sales Invoice", "SI-1") = 100 ∧
    OutstandingRight (memRun serdeCodec paymentsInTurn).book.store :=
  ⟨by decide +kernel, outstanding_kept serdeCodec paymentsInTurn
    (by simp [paymentsInTurn, Event.whole, Event.Allowed, vouchers, Command.IsVoucher, salesInvoice,
      invoicePayment])
    (by decide +kernel)⟩

end AtlasTeam
