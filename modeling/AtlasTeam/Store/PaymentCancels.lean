import AtlasTeam.Posting.Refusals
import AtlasTeam.Store.Outstanding
import AtlasTeam.Turns

/-!
# Cancelling a payment

An invoice with live settlements is meant to stay until its payments are cancelled, but the check looks at
the sum of what is settled: allocations that sum to nothing let the invoice go, and its payment can then
not be cancelled any more (`payment_cannot_cancel`). `payment_cancellable` shows that this is the only way:
where invoices are cancelled only once no submitted payment settles them, every submitted payment finds its
invoices submitted.
-/

namespace AtlasTeam

/-! ### Payments and their invoices -/

/-- The docstatus of the document under a key. -/
def statusOf (inner : Inner) (key : Uuid × String × String) : Option Int :=
  (AList.lookup key inner.documents).map PostedDocument.docstatus

/-- A settlement of a submitted payment, and not one that takes another back. -/
def Settlement.Live (inner : Inner) (company : Uuid) (s : Settlement) : Prop :=
  s.isReversal = false ∧ statusOf inner (company, "Payment Entry", s.paymentVoucherNo) = some 1

instance (inner : Inner) (company : Uuid) (s : Settlement) : Decidable (s.Live inner company) :=
  inferInstanceAs (Decidable (_ ∧ _))

/-- No submitted payment settles the invoice. -/
def Unsettled (inner : Inner) (company : Uuid) (key : String × String) : Prop :=
  ∀ s ∈ inner.settlements.log company, s.invoiceKey = key → ¬ s.Live inner company

instance (inner : Inner) (company : Uuid) (key : String × String) : Decidable (Unsettled inner company key) :=
  inferInstanceAs (Decidable (∀ s ∈ _, _ → ¬ _))

/-- A cancelled invoice was settled by no submitted payment. -/
def Entry.CancelsUnsettled (entry : Entry Inner) : Prop :=
  match entry.command with
  | .cancel cmd => cmd.doctype ∈ settleableDoctypes →
      Unsettled entry.before entry.companyId (cmd.doctype, cmd.documentId)
  | _ => True

instance (entry : Entry Inner) : Decidable entry.CancelsUnsettled := by
  unfold Entry.CancelsUnsettled
  cases entry.command <;> infer_instance

/-- Settlements name the payments they come from, and submitted payments settle submitted invoices. -/
structure PaymentsStand (inner : Inner) : Prop where
  paid : ∀ company, ∀ s ∈ inner.settlements.log company, s.isReversal = false →
    (AList.lookup (company, "Payment Entry", s.paymentVoucherNo) inner.documents).isSome = true
  settleable : ∀ company, ∀ s ∈ inner.settlements.log company, s.isReversal = false →
    s.invoiceVoucherType ∈ settleableDoctypes
  submitted : ∀ company, ∀ s ∈ inner.settlements.log company, s.Live inner company →
    statusOf inner (company, s.invoiceKey) = some 1

theorem paymentsStand_fresh : PaymentsStand {} where
  paid _ s h := by simp [Table.log] at h
  settleable _ s h := by simp [Table.log] at h
  submitted _ s h := by simp [Table.log] at h

/-- The build reads the status that is stored. -/
theorem submitted_of_status {inner : Inner} {company : Uuid} {key : String × String} :
    inner.view.Submitted company key ↔ statusOf inner (company, key) = some 1 := by
  rw [statusOf, Option.map_eq_some_iff]
  exact Iff.rfl

/-! ### What a commit settles -/

/-- A settlement that is no reversal comes with its payment, on an invoice that was submitted. -/
structure Settles (view : StoreView) (commit : PostingCommit) (s : Settlement) : Prop where
  payment : Inner.docKey commit = (commit.companyId, "Payment Entry", s.paymentVoucherNo)
  settleable : s.invoiceVoucherType ∈ settleableDoctypes
  submitted : view.Submitted commit.companyId s.invoiceKey

/-- The document of its commit is the payment, not the invoice. -/
theorem Settles.invoice_ne {view : StoreView} {commit : PostingCommit} {s : Settlement}
    (h : Settles view commit s) : (commit.companyId, s.invoiceKey) ≠ Inner.docKey commit := by
  intro hkey
  rw [h.payment] at hkey
  obtain ⟨hdoctype, -⟩ := Prod.mk.inj (Prod.mk.inj hkey).2
  have hsettleable := h.settleable
  rw [hdoctype] at hsettleable
  exact absurd hsettleable (by decide)

theorem Command.build_settles {codec : Codec} {view : StoreView} {env : Env} {company : Uuid} {actor : Actor}
    {documentId : String} {command : Command} {commit : PostingCommit}
    (h : command.build codec view env company actor documentId = .ok commit) :
    ∀ s ∈ commit.settlements, s.isReversal = false → Settles view commit s := by
  intro s hs hreversal
  cases command with
  | submit cmd =>
    have hstamp := buildSubmit_stamped h .settlement s hs
    obtain ⟨prepared, shortfalls, settlements, updates, -, -, hpayment, hcommit⟩ := buildSubmit_ok h
    have hsettlements : commit.settlements = settlements := by rw [hcommit]; rfl
    rw [hsettlements] at hs
    obtain ⟨hrows, hupdates⟩ := paymentRows_ok hpayment
    have hdoctype : cmd.doctype = "Payment Entry" := by
      refine hrows.resolve_right fun hnone => ?_
      rw [hnone] at hs
      exact List.not_mem_nil hs
    subst hcommit
    refine ⟨?_, paymentRows_settleable hpayment s hs, hupdates.submitted s hs⟩
    have hno : s.paymentVoucherNo = documentId := congrArg Stamp.voucherNo hstamp
    rw [hno, ← hdoctype]
    rfl
  | cancel cmd =>
    obtain ⟨doc, postingDate, guard, updates, -, -, -, -, -, rfl⟩ := buildCancel_ok h
    obtain ⟨reversed, -, rfl⟩ := List.mem_map.1 hs
    cases hreversal
  | takeOn cmd =>
    obtain ⟨postingDate, stock, tb, continuations, -, -, rfl⟩ := buildOpening_ok h
    exact absurd hs List.not_mem_nil

/-! ### One commit -/

section Applied
variable {commit : PostingCommit} {inner inner' : Inner}

/-- A commit gives its document a status and leaves those of all others. -/
theorem statusOf_applied (h : Inner.Applied commit inner inner') (key : Uuid × String × String) :
    statusOf inner' key =
      if key = Inner.docKey commit then some commit.document.docstatus else statusOf inner key := by
  have hfrozen : ∀ docs : Documents, (AList.lookup key docs).map PostedDocument.docstatus =
      ((AList.lookup key docs).map Inner.frozen).map PostedDocument.docstatus := by
    intro docs
    rw [Option.map_map]
    rfl
  rw [statusOf, hfrozen, h.documents, Inner.lookup_written, statusOf, hfrozen]
  split_ifs
  · rw [Inner.numberedDocument_eq]
    rfl
  · rfl

end Applied

section Step
variable {codec : Codec} {allowed : Allowed MemOp} {book : Book Inner} {draft : Draft Inner} {inner' : Inner}

/-- A settlement that is live after a commit was live before it, or the commit brought it. -/
theorem Settlement.Live.before (hstand : PaymentsStand book.store)
    (hpassed : Inner.Passed draft.commit book.store) (happlied : Inner.Applied draft.commit book.store inner')
    (hbuild : draft.commit.documentIsNew = true ∨ draft.commit.document.docstatus = 2) {company : Uuid}
    {s : Settlement} (hs : s ∈ book.store.settlements.log company) (hlive : s.Live inner' company) :
    s.Live book.store company := by
  obtain ⟨hreversal, hstatus⟩ := hlive
  refine ⟨hreversal, ?_⟩
  rw [statusOf_applied happlied] at hstatus
  split_ifs at hstatus with hkey
  · rcases hbuild with hnew | hcancelled
    · -- a new payment has no settlements yet
      have hpaid := hstand.paid company s hs hreversal
      rw [hkey, hpassed.absent hnew] at hpaid
      cases hpaid
    · rw [hcancelled] at hstatus
      exact absurd (Option.some.inj hstatus) (by decide)
  · exact hstatus

/-- A commit that cancels no invoice under a submitted payment does not write an invoice that one
settles. -/
theorem PaymentsStand.invoice_ne (hkept : Kept book) (hstand : PaymentsStand book.store)
    (hbuild : draft.command.build codec book.store.view draft.builtAt draft.companyId draft.actor
      draft.documentId = .ok draft.commit)
    (hpassed : Inner.Passed draft.commit book.store)
    (hsettled : (appliedEntry draft book.store).CancelsUnsettled) {company : Uuid} {s : Settlement}
    (hs : s ∈ book.store.settlements.log company) (hlive : s.Live book.store company) :
    (company, s.invoiceKey) ≠ Inner.docKey draft.commit := by
  intro hkey
  obtain ⟨hcompany, ⟨hnew, -⟩ | ⟨cmd, doc, hcommand, -, hdoc, -, hdocument, -⟩⟩ :=
    Command.build_new_or_cancel hbuild
  · -- the invoice is there, so it is not new
    have hinvoice := hstand.submitted company s hs hlive
    rw [statusOf, hkey, hpassed.absent hnew] at hinvoice
    cases hinvoice
  · have hcancelled := docKey_of_read hkept hdoc hdocument hcompany
    rw [← hkey] at hcancelled
    obtain ⟨rfl, hinvoiceKey⟩ := Prod.mk.inj hcancelled
    have hdoctype : s.invoiceVoucherType = cmd.doctype := congrArg Prod.fst hinvoiceKey
    have hsettleable : cmd.doctype ∈ settleableDoctypes := hdoctype ▸ hstand.settleable _ s hs hlive.1
    have hentry : (appliedEntry draft book.store).command = .cancel cmd := hcommand
    rw [Entry.CancelsUnsettled, hentry] at hsettled
    exact hsettled hsettleable s hs hinvoiceKey hlive

/-- A commit built from the store it meets keeps the payments standing, as long as it cancels no invoice
that a submitted payment settles. -/
theorem PaymentsStand.applied (hkept : Kept book) (hstand : PaymentsStand book.store)
    (hbuilt : Draft.Built codec (memBackend codec) allowed book draft)
    (hpassed : Inner.Passed draft.commit book.store) (happlied : Inner.Applied draft.commit book.store inner')
    (hsettled : (appliedEntry draft book.store).CancelsUnsettled) : PaymentsStand inner' := by
  have hbuild := hbuilt.build
  rw [hbuilt.snapshot] at hbuild
  have hsettles := Command.build_settles hbuild
  have hnewOrCancelled : draft.commit.documentIsNew = true ∨ draft.commit.document.docstatus = 2 := by
    rcases (Command.build_new_or_cancel hbuild).2 with ⟨hnew, -⟩ | ⟨cmd, doc, -, -, -, -, hdocument, -⟩
    · exact .inl hnew
    · right
      rw [hdocument]
  constructor
  · intro company s hs hreversal
    rcases (mem_settlements_applied happlied).1 hs with hold | ⟨rfl, hbrought⟩
    · exact document_applied_isSome happlied (hstand.paid company s hold hreversal)
    · rw [← (hsettles s hbrought hreversal).payment]
      obtain ⟨doc, hdoc, -⟩ := Inner.lookup_written_self draft.commit book.store
      rw [happlied.documents, hdoc]
      rfl
  · intro company s hs hreversal
    rcases (mem_settlements_applied happlied).1 hs with hold | ⟨-, hbrought⟩
    · exact hstand.settleable company s hold hreversal
    · exact (hsettles s hbrought hreversal).settleable
  · intro company s hs hlive
    rw [statusOf_applied happlied]
    rcases (mem_settlements_applied happlied).1 hs with hold | ⟨rfl, hbrought⟩
    · have hbefore := hlive.before hstand hpassed happlied hnewOrCancelled hold
      rw [if_neg (hstand.invoice_ne hkept hbuild hpassed hsettled hold hbefore)]
      exact hstand.submitted company s hold hbefore
    · have hnew := hsettles s hbrought hlive.1
      rw [if_neg hnew.invoice_ne]
      exact submitted_of_status.1 hnew.submitted

/-- An invoice that is cancelled under a submitted payment leaves the payment without it. -/
theorem payment_lost (hkept : Kept book)
    (hbuilt : Draft.Built codec (memBackend codec) allowed book draft)
    (happlied : Inner.Applied draft.commit book.store inner')
    (hsettled : ¬ (appliedEntry draft book.store).CancelsUnsettled) :
    ∃ company id, statusOf inner' (company, "Payment Entry", id) = some 1 ∧
      LostInvoice (restoredOutstanding inner'.view company "Payment Entry"
        (reversalRows inner'.view company id).settlements) := by
  have hbuild := hbuilt.build
  rw [hbuilt.snapshot] at hbuild
  obtain ⟨hcompany, hcases⟩ := Command.build_new_or_cancel hbuild
  unfold Entry.CancelsUnsettled at hsettled
  rcases hcases with ⟨-, -, -, hnotCancel⟩ | ⟨cmd, doc, hcommand, -, hdoc, -, hdocument, -⟩
  · refine absurd ?_ hsettled
    split
    · rename_i cmd hcancel
      exact absurd hcancel (hnotCancel cmd)
    · trivial
  · have hentry : (appliedEntry draft book.store).command = .cancel cmd := hcommand
    simp only [hentry, Unsettled, not_forall, not_not] at hsettled
    obtain ⟨hsettleable, s, hs, hinvoice, hreversal, hpayment⟩ := hsettled
    have hkey := docKey_of_read hkept hdoc hdocument hcompany
    have hstatus : draft.commit.document.docstatus = 2 := by rw [hdocument]
    have hcompanies : (appliedEntry draft book.store).companyId = draft.commit.companyId := hcompany.symm
    rw [hcompanies] at hs hpayment
    refine ⟨draft.commit.companyId, s.paymentVoucherNo, ?_, ?_⟩
    · rw [statusOf_applied happlied, if_neg]
      · exact hpayment
      · -- a payment is no invoice
        intro heq
        rw [hkey] at heq
        obtain ⟨hdoctype, -⟩ := Prod.mk.inj (Prod.mk.inj heq).2
        rw [← hdoctype] at hsettleable
        exact absurd hsettleable (by decide)
    · refine restoredOutstanding_lost_iff.2 ⟨s.reversal _, List.mem_map_of_mem ?_, ?_⟩
      · refine List.mem_filter.2 ⟨List.mem_filter.2 ⟨?_, decide_eq_true rfl⟩, by simp [hreversal]⟩
        exact (mem_settlements_applied happlied).2 (.inl hs)
      · have hsame : (s.reversal ("PB-" ++ s.paymentVoucherNo ++ reversalSuffix)).invoiceKey =
            (cmd.doctype, cmd.documentId) := hinvoice
        rw [submitted_of_status, hsame, statusOf_applied happlied, hkey, hcompany, if_pos rfl, hstatus]
        decide

end Step

theorem paymentsStand_rule {codec : Codec} :
    Snapshot.Rule (protocol codec (memBackend codec) (.all MemOp))
      (fun book => Kept book ∧
        (book.Serial → (∀ entry ∈ book.journal, entry.CancelsUnsettled) → PaymentsStand book.store))
      fun book book' => Extends book.store book'.store := by
  refine extends_rule_and ?_ ?_
  · intro book₀ book draft inner' _ _ _ hkept h hbuilt hpassed happlied hserial hsettled
    -- in a serial book the draft was built from the store its commit meets
    have hsnapshot : draft.snapshot = book.store :=
      hserial (appliedEntry draft book.store) (List.mem_append_right _ List.mem_cons_self)
    have hstand := h (fun entry hentry => hserial entry (List.mem_append_left _ hentry))
      fun entry hentry => hsettled entry (List.mem_append_left _ hentry)
    exact hstand.applied hkept ⟨hbuilt.allowed, hsnapshot, hbuilt.build⟩ hpassed happlied
      (hsettled _ (List.mem_append_right _ List.mem_cons_self))
  · intro book op env h _ hserial hsettled
    have hframe := operate_frame codec env op book.store
    obtain ⟨hpaid, hsettleable, hsubmitted⟩ := h hserial hsettled
    constructor
    · simp only [hframe.documents, hframe.settlements]
      exact hpaid
    · simp only [hframe.settlements]
      exact hsettleable
    · simp only [Settlement.Live, statusOf, hframe.documents, hframe.settlements]
      exact hsubmitted

/-- A submitted payment whose invoices are submitted is not refused for one of them. -/
theorem PaymentsStand.not_lost {inner : Inner} (h : PaymentsStand inner) {company : Uuid} {id : String}
    {payment : PostedDocument}
    (hpayment : AList.lookup (company, "Payment Entry", id) inner.documents = some payment)
    (hstatus : payment.docstatus = 1) (env : Env) (key : Option String) (actor : Actor) :
    ¬ LostInvoice (buildCancel inner.view env company ⟨"Payment Entry", id, key⟩ actor) := by
  intro hlost
  obtain ⟨s, hs, hinvoice⟩ := restoredOutstanding_lost_iff.1 (buildCancel_lost hlost)
  obtain ⟨original, horiginal, rfl⟩ := List.mem_map.1 hs
  obtain ⟨hfound, hreversal⟩ := List.mem_filter.1 horiginal
  obtain ⟨hlog, hno⟩ := List.mem_filter.1 hfound
  have hlive : original.Live inner company := by
    refine ⟨by simpa using hreversal, ?_⟩
    rw [of_decide_eq_true hno, statusOf, hpayment, Option.map_some, hstatus]
  exact hinvoice (submitted_of_status.2 (h.submitted company original hlog hlive))

/-- In every sequential run that cancels invoices only once no submitted payment settles them, the cancel
of a submitted payment is never refused for an invoice that is missing or not submitted. -/
theorem payment_cancellable (codec : Codec) (turns : List (Turn MemOp))
    (hsettled : ∀ entry ∈ (memRun codec (inTurn 0 turns)).book.journal, entry.CancelsUnsettled)
    {company : Uuid} {id : String} {payment : PostedDocument}
    (hpayment : AList.lookup (company, "Payment Entry", id)
      (memRun codec (inTurn 0 turns)).book.store.documents = some payment)
    (hstatus : payment.docstatus = 1) (env : Env) (key : Option String) (actor : Actor) :
    ¬ LostInvoice (buildCancel (memRun codec (inTurn 0 turns)).book.store.view env company
      ⟨"Payment Entry", id, key⟩ actor) := by
  have hrun : Kept (memRun codec (inTurn 0 turns)).book ∧
      ((memRun codec (inTurn 0 turns)).book.Serial →
        (∀ entry ∈ (memRun codec (inTurn 0 turns)).book.journal, entry.CancelsUnsettled) →
        PaymentsStand (memRun codec (inTurn 0 turns)).book.store) :=
    System.invariant_of_rule paymentsStand_rule ⟨kept_fresh, fun _ _ => paymentsStand_fresh⟩
      fun event _ => event.allowed_all
  have hstand := hrun.2 (inTurn_serial codec (memBackend codec) {} turns) hsettled
  exact hstand.not_lost hpayment hstatus env key actor

/-! ### An allocation of nothing -/

/-- An invoice over a hundred. -/
def tradeInvoice (id : String) : Command :=
  .submit
    { doctype := "Sales Invoice"
      documentId := some id
      payload := [("customer", .string "ACME"), ("posting_date", .string "2026-01-05")]
      items := [.obj [("item", .string "TEA"), ("qty", .int 1), ("rate", .int 100)]]
      idempotencyKey := none
      offlineFiscal := false }

/-- A payment of sixty, some of it allocated to an invoice. -/
def tradePayment (id invoice : String) (allocated : Int) : Command :=
  .submit
    { doctype := "Payment Entry"
      documentId := some id
      payload := [("paid_amount", .int 60), ("party", .string "ACME"),
        ("payment_type", .string "Receive"), ("posting_date", .string "2026-01-05"),
        ("references", .array [.obj [("allocated_amount", .int allocated),
          ("reference_doctype", .string "Sales Invoice"), ("reference_name", .string invoice)]])]
      items := []
      idempotencyKey := none
      offlineFiscal := false }

def tradeDay : Env := ⟨0, "2026-01-05", 0⟩

def cashier : Actor := ⟨some 7, some 5, none⟩

/-- A sequential run of these. -/
def trade (commands : List Command) : List (Turn MemOp) :=
  commands.map fun command => .call 1 cashier command tradeDay tradeDay tradeDay

/-- An invoice is paid, both are cancelled, and the next one is paid. -/
def paidAgain : List (Turn MemOp) :=
  trade [tradeInvoice "SI-1", tradePayment "PE-1" "SI-1" 60, .cancel ⟨"Payment Entry", "PE-1", none⟩,
    .cancel ⟨"Sales Invoice", "SI-1", none⟩, tradeInvoice "SI-2", tradePayment "PE-2" "SI-2" 60]

theorem payment_cancellable_again :
    ¬ LostInvoice (buildCancel (memRun serdeCodec (inTurn 0 paidAgain)).book.store.view tradeDay 1
      ⟨"Payment Entry", "PE-2", none⟩ cashier) := by
  have hstatus : statusOf (memRun serdeCodec (inTurn 0 paidAgain)).book.store
      (1, "Payment Entry", "PE-2") = some 1 := by decide +kernel
  obtain ⟨payment, hpayment, hsubmitted⟩ := Option.map_eq_some_iff.1 hstatus
  exact payment_cancellable serdeCodec paidAgain (by decide +kernel) hpayment hsubmitted tradeDay none cashier

/-- A payment that allocates nothing to its invoice, which is then cancelled. -/
def paidNothing : List (Turn MemOp) :=
  trade [tradeInvoice "SI-1", tradePayment "PE-1" "SI-1" 0, .cancel ⟨"Sales Invoice", "SI-1", none⟩]

/-- The invoice goes, and the payment can no longer be cancelled. -/
theorem payment_cannot_cancel :
    ((memRun serdeCodec (inTurn 0 paidNothing)).book.store.companySettings 1).booksLockDate = none ∧
    statusOf (memRun serdeCodec (inTurn 0 paidNothing)).book.store (1, "Payment Entry", "PE-1") = some 1 ∧
    LostInvoice (buildCancel (memRun serdeCodec (inTurn 0 paidNothing)).book.store.view tradeDay 1
      ⟨"Payment Entry", "PE-1", none⟩ cashier) := by
  refine ⟨Option.isNone_iff_eq_none.1 (by decide +kernel), by decide +kernel, ?_⟩
  have hrefused : (buildCancel (memRun serdeCodec (inTurn 0 paidNothing)).book.store.view tradeDay 1
      ⟨"Payment Entry", "PE-1", none⟩ cashier).errorOf = some (.validation
        "payment references invoice Sales Invoice SI-1 which is not submitted") := by
    decide +kernel
  exact Except.refused_of_errorOf hrefused (by decide)

end AtlasTeam
