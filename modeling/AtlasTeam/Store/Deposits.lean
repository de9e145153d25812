import AtlasTeam.Lib.TableSum
import AtlasTeam.Posting.Prepared
import AtlasTeam.Store.Immutable

/-!
# Customer deposits are never over-applied

A payment that applies a deposit names it by its trimmed id and carries a guard for its own amount;
the cancel of a deposit carries one that no live payment applies it. The commit checks the guard on
the documents it meets, whatever the build had read. So `DepositsKept` holds in every run: a live
application stands against a submitted deposit, and the live applications of a deposit stay within
its amount and one tolerance, which the guard grants to the whole sum and not to each payment.
-/

namespace AtlasTeam

/-- The deposit a payment names. -/
def PostedDocument.deposit (doc : PostedDocument) : Option String :=
  ((doc.payload.get "deposit").bind Value.asStr).map trim

/-- The amount of a payment. -/
def PostedDocument.paid (doc : PostedDocument) : ℚ := asNum (doc.payload.get "paid_amount")

/-- The amount of a deposit. -/
def PostedDocument.amount (doc : PostedDocument) : ℚ := asNum (doc.payload.get "amount")

namespace Inner

/-- The submitted payments that apply a deposit. -/
def liveApplications (inner : Inner) (company : Uuid) (depositId : String) : List PostedDocument :=
  (inner.depositApplications company depositId).filter fun p => p.docstatus = 1

/-- What they apply of it. -/
def appliedAmount (inner : Inner) (company : Uuid) (depositId : String) : ℚ :=
  ((inner.liveApplications company depositId).map PostedDocument.paid).sum

end Inner

theorem deposit_ne_payment : ("Customer Deposit" : String) ≠ "Payment Entry" := by decide

section Weights
variable (company : Uuid) (depositId : String)

/-- The document under a key is a live application of the deposit. -/
def applies (key : Uuid × String × String) (doc : PostedDocument) : Bool :=
  key.1 = company && key.2.1 = "Payment Entry" && doc.deposit = some depositId && doc.docstatus = 1

/-- What the document under a key applies of the deposit. -/
def appliedBy (key : Uuid × String × String) (doc : PostedDocument) : ℚ :=
  if applies company depositId key doc then doc.paid else 0

variable {company depositId}

theorem applies_iff {key : Uuid × String × String} {doc : PostedDocument} :
    applies company depositId key doc = true ↔
      (key.1 = company ∧ key.2.1 = "Payment Entry" ∧ doc.deposit = some depositId) ∧
        doc.docstatus = 1 := by
  simp [applies, and_assoc]

theorem Inner.liveApplications_eq (inner : Inner) :
    inner.liveApplications company depositId =
      (inner.documents.entries.filter fun e => applies company depositId e.1 e.2).map Sigma.snd := by
  rw [Inner.liveApplications, Inner.depositApplications, List.filter_map, List.filter_filter]
  congr 1
  exact List.filter_congr fun e _ => Bool.and_comm _ _

theorem Inner.mem_liveApplications {inner : Inner} {doc : PostedDocument} :
    doc ∈ inner.liveApplications company depositId ↔ ∃ key,
      AList.lookup key inner.documents = some doc ∧ applies company depositId key doc = true := by
  simp only [Inner.liveApplications_eq, List.mem_map, List.mem_filter]
  constructor
  · rintro ⟨⟨key, doc'⟩, ⟨hentry, happlies⟩, rfl⟩
    exact ⟨key, AList.mem_lookup_iff.2 hentry, happlies⟩
  · rintro ⟨key, hdoc, happlies⟩
    exact ⟨⟨key, doc⟩, ⟨AList.mem_lookup_iff.1 hdoc, happlies⟩, rfl⟩

/-- The applied amount as a sum over the table of documents. -/
theorem Inner.appliedAmount_eq (inner : Inner) : inner.appliedAmount company depositId =
    TableSum.total (appliedBy company depositId) inner.documents := by
  rw [Inner.appliedAmount, Inner.liveApplications_eq, List.map_map]
  exact TableSum.sum_filter_eq_total inner.documents
    (fun e => applies company depositId e.1 e.2) PostedDocument.paid

/-! ### What a document says of a deposit, up to its outstanding amount -/

section Frozen
variable {doc doc' : PostedDocument} (h : Inner.frozen doc = Inner.frozen doc')
include h

theorem frozen_deposit : doc.deposit = doc'.deposit := by
  rw [PostedDocument.deposit, PostedDocument.deposit, (Later.of_frozen h).get (by decide)]

theorem frozen_paid : doc.paid = doc'.paid := by
  rw [PostedDocument.paid, PostedDocument.paid, (Later.of_frozen h).get (by decide)]

theorem frozen_amount : doc.amount = doc'.amount := by
  rw [PostedDocument.amount, PostedDocument.amount, (Later.of_frozen h).get (by decide)]

theorem frozen_docstatus : doc.docstatus = doc'.docstatus := by
  have hfield := congrArg PostedDocument.docstatus h
  exact hfield

theorem frozen_applies (key : Uuid × String × String) :
    applies company depositId key doc = applies company depositId key doc' := by
  simp only [applies, frozen_deposit h, frozen_docstatus h]

theorem frozen_appliedBy (key : Uuid × String × String) :
    appliedBy company depositId key doc = appliedBy company depositId key doc' := by
  simp only [appliedBy, frozen_applies h, frozen_paid h]

end Frozen

/-- A number changes nothing of it. -/
theorem numberedDocument_deposit (commit : PostingCommit) (inner : Inner) :
    (Inner.numberedDocument commit inner).deposit = commit.document.deposit ∧
      (Inner.numberedDocument commit inner).paid = commit.document.paid ∧
      (Inner.numberedDocument commit inner).amount = commit.document.amount ∧
      (Inner.numberedDocument commit inner).docstatus = commit.document.docstatus := by
  rw [Inner.numberedDocument_eq]
  exact ⟨rfl, rfl, rfl, rfl⟩

theorem numberedDocument_applies (commit : PostingCommit) (inner : Inner)
    (key : Uuid × String × String) :
    applies company depositId key (Inner.numberedDocument commit inner) =
      applies company depositId key commit.document := by
  obtain ⟨hdeposit, -, -, hstatus⟩ := numberedDocument_deposit commit inner
  simp only [applies, hdeposit, hstatus]

/-- A commit moves the applied amount by what its own document applies. -/
theorem appliedAmount_applied {commit : PostingCommit} {inner inner' : Inner}
    (h : Inner.Applied commit inner inner') :
    inner'.appliedAmount company depositId = inner.appliedAmount company depositId -
      TableSum.weight (appliedBy company depositId) inner.documents (Inner.docKey commit) +
      appliedBy company depositId (Inner.docKey commit) commit.document := by
  have hself : appliedBy company depositId (Inner.docKey commit) (Inner.numberedDocument commit inner) =
      appliedBy company depositId (Inner.docKey commit) commit.document := by
    obtain ⟨-, hpaid, -, -⟩ := numberedDocument_deposit commit inner
    rw [appliedBy, appliedBy, numberedDocument_applies, hpaid]
  have htotal := Inner.total_written (appliedBy company depositId)
    (fun key doc doc' hsame => frozen_appliedBy hsame key) commit inner
  rw [Inner.appliedAmount_eq, Inner.appliedAmount_eq, h.documents, ← hself]
  exact (eq_sub_of_add_eq htotal).trans (sub_add_eq_add_sub _ _ _).symm

end Weights

/-! ### The guards of a commit -/

/-- The guard of an application holds when the deposit is submitted and has the amount left. -/
theorem depositGuardViolation_apply {depositId customer : String} {amount : ℚ}
    {deposit : Option PostedDocument} {applications : List PostedDocument}
    (h : depositGuardViolation (.apply depositId customer amount) deposit applications = none) :
    ∃ d, deposit = some d ∧ d.docstatus = 1 ∧
      ((applications.filter fun p => p.docstatus = 1).map PostedDocument.paid).sum + amount ≤
        d.amount + moneyEps := by
  simp only [depositGuardViolation] at h
  split at h
  · cases h
  · rename_i d hd
    obtain ⟨hsome, hstatus⟩ := Option.filter_eq_some_iff.1 hd
    refine ⟨d, hsome, of_decide_eq_true hstatus, ?_⟩
    split_ifs at h with howner hover
    have hleft := not_lt.1 hover
    rw [PostedDocument.amount]
    have hsum : ((applications.filter fun p => p.docstatus = 1).map PostedDocument.paid).sum =
        ((applications.filter fun p => p.docstatus = 1).map fun p =>
          asNum (p.payload.get "paid_amount")).sum := rfl
    linarith

/-- The guard of a release holds when no submitted payment applies the deposit. -/
theorem depositGuardViolation_release {depositId : String} {deposit : Option PostedDocument}
    {applications : List PostedDocument}
    (h : depositGuardViolation (.release depositId) deposit applications = none) :
    applications.filter (fun p => p.docstatus = 1) = [] := by
  simp only [depositGuardViolation] at h
  split_ifs at h with hempty
  rw [List.isEmpty_iff, List.map_eq_nil_iff] at hempty
  exact hempty

namespace Inner

/-- The guard of a commit holds on the documents it meets. -/
theorem Passed.guard {commit : PostingCommit} {inner : Inner} (h : Passed commit inner)
    {guard : DepositGuard} (hguard : commit.depositGuard = some guard) :
    depositGuardViolation guard
      (AList.lookup (commit.companyId, "Customer Deposit", guard.depositId) inner.documents)
      (inner.depositApplications commit.companyId guard.depositId) = none := by
  have hcheck := h.deposit
  simp only [checkDeposit, hguard] at hcheck
  split at hcheck
  · cases hcheck
  · assumption

end Inner

/-! ### What a command says of deposits -/

/-- What a built commit can be for deposits. -/
inductive DepositStep (inner : Inner) (commit : PostingCommit) : Prop
  /-- A payment that names no deposit, or the one it is guarded for. -/
  | payment (hnew : commit.documentIsNew = true) (htype : commit.document.doctype = "Payment Entry")
      (hpaid : 0 < commit.document.paid)
      (hdeposit : ∀ depositId, depositId ≠ "" → commit.document.deposit = some depositId →
        ∃ customer, commit.depositGuard = some (.apply depositId customer commit.document.paid))
  /-- A deposit. -/
  | deposit (hnew : commit.documentIsNew = true) (htype : commit.document.doctype = "Customer Deposit")
      (hamount : 0 < commit.document.amount)
  /-- Another document. -/
  | other (htype : commit.document.doctype ≠ "Payment Entry")
      (htype' : commit.document.doctype ≠ "Customer Deposit")
  /-- The cancel of a document that was read; of a deposit, when nothing applies it. -/
  | cancel (doc : PostedDocument) (hold : commit.documentIsNew = false)
      (hdoc : AList.lookup (Inner.docKey commit) inner.documents = some doc)
      (hdocument : commit.document = { doc with docstatus := 2 })
      (hguard : commit.document.doctype = "Customer Deposit" →
        commit.depositGuard = some (.release commit.document.id))

section Rule
variable {codec : Codec} {allowed : Allowed MemOp}

theorem build_depositStep {book : Book Inner} {draft : Draft Inner} (hkept : Kept book)
    (hbuilt : Draft.Built codec (memBackend codec) allowed book draft) :
    DepositStep book.store draft.commit := by
  have hbuild := hbuilt.build
  rw [hbuilt.snapshot] at hbuild
  cases hcommand : draft.command with
  | submit cmd =>
    rw [hcommand] at hbuild
    have htype : draft.commit.document.doctype = cmd.doctype := by
      obtain ⟨prepared, shortfalls, settlements, updates, -, -, -, heq⟩ := buildSubmit_ok hbuild
      rw [heq]
      rfl
    have hnew : draft.commit.documentIsNew = true := by
      obtain ⟨prepared, shortfalls, settlements, updates, -, -, -, heq⟩ := buildSubmit_ok hbuild
      rw [heq]
      rfl
    by_cases hpayment : cmd.doctype = "Payment Entry"
    · obtain ⟨hpaid, hnamed⟩ := buildSubmit_payment hpayment hbuild
      refine .payment hnew (htype.trans hpayment) hpaid fun depositId hne hdeposit => ?_
      rcases hnamed with hnone | ⟨depositId', customer, hnamed, htrim, hguard⟩
      · -- a text that trims to something is a non-empty text
        exfalso
        rw [PostedDocument.deposit] at hdeposit
        cases hfield : draft.commit.document.payload.get "deposit" with
        | none =>
          rw [hfield] at hdeposit
          cases hdeposit
        | some v =>
          rw [hfield] at hdeposit hnone
          cases v with
          | string s =>
            have hs : trim s = depositId := Option.some.inj hdeposit
            simp only [asNonEmpty, hs, if_neg hne] at hnone
            cases hnone
          | _ => cases hdeposit
      · rw [PostedDocument.deposit, hnamed] at hdeposit
        have hs : trim depositId' = depositId := Option.some.inj hdeposit
        rw [htrim] at hs
        subst hs
        exact ⟨customer, hguard⟩
    · by_cases hdeposit : cmd.doctype = "Customer Deposit"
      · exact .deposit hnew (htype.trans hdeposit) (buildSubmit_amount hdeposit hbuild)
      · exact .other (htype ▸ hpayment) (htype ▸ hdeposit)
  | takeOn cmd =>
    rw [hcommand] at hbuild
    obtain ⟨postingDate, stock, tb, continuations, -, -, heq⟩ := buildOpening_ok hbuild
    have htype : draft.commit.document.doctype = "Journal Entry" := by
      rw [heq]
      rfl
    exact .other (htype ▸ by decide) (htype ▸ by decide)
  | cancel cmd =>
    rw [hcommand] at hbuild
    obtain ⟨hcompany, hnew | ⟨cmd', doc', hcmd, hold, -⟩⟩ := Command.build_new_or_cancel hbuild
    · exact absurd rfl (hnew.2.2.2 cmd)
    obtain ⟨doc, date, hdoc, hdocument, -, -, hrelease⟩ := buildCancel_date hbuild
    have hkey : Inner.docKey draft.commit = (draft.companyId, cmd.doctype, cmd.documentId) :=
      docKey_of_read hkept hdoc hdocument hcompany
    obtain ⟨-, hrest⟩ := Prod.mk.inj hkey
    obtain ⟨htype, hid⟩ := Prod.mk.inj hrest
    refine .cancel doc hold (hkey ▸ hdoc) hdocument fun hdeposit => ?_
    rw [htype] at hdeposit
    simp only [releaseDeposit, if_pos hdeposit] at hrelease
    split at hrelease
    · cases hrelease
    · rw [← Except.ok.inj hrelease, hid]

/-! ### The invariant -/

/-- Payments have positive amounts, live applications stand against submitted deposits, and they stay
within the amount of the deposit. -/
structure DepositsKept (inner : Inner) : Prop where
  paid : ∀ key doc, AList.lookup key inner.documents = some doc → key.2.1 = "Payment Entry" →
    0 < doc.paid
  backed : ∀ company depositId key doc, depositId ≠ "" → AList.lookup key inner.documents = some doc →
    applies company depositId key doc = true →
    ∃ deposit, AList.lookup (company, "Customer Deposit", depositId) inner.documents = some deposit ∧
      deposit.docstatus = 1
  bounded : ∀ company depositId deposit, depositId ≠ "" →
    AList.lookup (company, "Customer Deposit", depositId) inner.documents = some deposit →
    inner.appliedAmount company depositId ≤ deposit.amount + moneyEps

theorem depositsKept_fresh : DepositsKept {} where
  paid _ _ h := by simp at h
  backed _ _ _ _ _ h := by simp at h
  bounded _ _ _ _ h := by simp at h

theorem DepositsKept.weight_nonneg {inner : Inner} (h : DepositsKept inner) (company : Uuid)
    (depositId : String) (key : Uuid × String × String) :
    0 ≤ TableSum.weight (appliedBy company depositId) inner.documents key := by
  rw [TableSum.weight]
  cases hdoc : AList.lookup key inner.documents with
  | none => exact le_refl _
  | some doc =>
    rw [Option.elim_some, appliedBy]
    split_ifs with happlies
    · exact (h.paid key doc hdoc (applies_iff.1 happlies).1.2.1).le
    · exact le_refl _

/-- A deposit the store does not hold is applied by no payment. -/
theorem DepositsKept.unknown {inner : Inner} (h : DepositsKept inner) {company : Uuid}
    {depositId : String} (hid : depositId ≠ "")
    (hnone : AList.lookup (company, "Customer Deposit", depositId) inner.documents = none) :
    inner.appliedAmount company depositId = 0 := by
  rw [Inner.appliedAmount_eq]
  refine TableSum.total_eq_zero fun key doc hdoc => if_neg fun happlies => ?_
  obtain ⟨deposit, hdeposit, -⟩ := h.backed company depositId key doc hid hdoc happlies
  rw [hnone] at hdeposit
  cases hdeposit

section Step
variable {book₀ book : Book Inner} {draft : Draft Inner} {inner' : Inner}
  (hstep : DepositStep book₀.store draft.commit) (hgrow : Extends book₀.store book.store)
  (hpassed : Inner.Passed draft.commit book.store)
  (happlied : Inner.Applied draft.commit book.store inner')
include hstep happlied

theorem DepositStep.paid (h₀ : DepositsKept book₀.store) (h : DepositsKept book.store)
    (key : Uuid × String × String) (doc : PostedDocument)
    (hdoc : AList.lookup key inner'.documents = some doc) (htype : key.2.1 = "Payment Entry") :
    0 < doc.paid := by
  rw [happlied.documents] at hdoc
  rcases Inner.lookup_written_cases hdoc with ⟨rfl, hfrozen⟩ | ⟨-, doc₀, hdoc₀, hfrozen⟩
  · rw [frozen_paid hfrozen, (numberedDocument_deposit _ _).2.1]
    replace htype : draft.commit.document.doctype = "Payment Entry" := htype
    cases hstep with
    | payment _ _ hpaid => exact hpaid
    | deposit _ htype' => exact absurd (htype'.symm.trans htype) deposit_ne_payment
    | other htype' => exact absurd htype htype'
    | cancel read _ hread hdocument =>
      rw [hdocument]
      exact h₀.paid _ read hread htype
  · rw [frozen_paid hfrozen]
    exact h.paid key doc₀ hdoc₀ htype

omit happlied
include hpassed

/-- A commit that is an application is a payment with the guard for it, which holds. -/
theorem DepositStep.guarded {company : Uuid} {depositId : String} (hid : depositId ≠ "")
    (h : applies company depositId (Inner.docKey draft.commit) draft.commit.document = true) :
    ∃ deposit, AList.lookup (company, "Customer Deposit", depositId) book.store.documents =
        some deposit ∧ deposit.docstatus = 1 ∧
      book.store.appliedAmount company depositId + draft.commit.document.paid ≤
        deposit.amount + moneyEps := by
  obtain ⟨⟨hcompany, htype, hnamed⟩, hstatus⟩ := applies_iff.1 h
  obtain rfl : draft.commit.companyId = company := hcompany
  replace htype : draft.commit.document.doctype = "Payment Entry" := htype
  cases hstep with
  | payment _ _ _ hdeposit =>
    obtain ⟨customer, hguard⟩ := hdeposit depositId hid hnamed
    exact depositGuardViolation_apply (hpassed.guard hguard)
  | deposit _ htype' => exact absurd (htype'.symm.trans htype) deposit_ne_payment
  | other htype' => exact absurd htype htype'
  | cancel doc _ _ hdocument =>
    rw [hdocument] at hstatus
    cases hstatus

include happlied

theorem DepositStep.backed (h : DepositsKept book.store) (company : Uuid) (depositId : String)
    (key : Uuid × String × String) (doc : PostedDocument) (hid : depositId ≠ "")
    (hdoc : AList.lookup key inner'.documents = some doc)
    (happlies : applies company depositId key doc = true) :
    ∃ deposit, AList.lookup (company, "Customer Deposit", depositId) inner'.documents = some deposit ∧
      deposit.docstatus = 1 := by
  rw [happlied.documents] at hdoc ⊢
  -- the deposit is submitted in the store the commit meets, and the commit is no cancel of it
  obtain ⟨⟨deposit, hdeposit, hstatus⟩, hkey⟩ : (∃ deposit,
      AList.lookup (company, "Customer Deposit", depositId) book.store.documents = some deposit ∧
        deposit.docstatus = 1) ∧ (company, "Customer Deposit", depositId) ≠ Inner.docKey draft.commit := by
    rcases Inner.lookup_written_cases hdoc with ⟨rfl, hfrozen⟩ | ⟨-, doc₀, hdoc₀, hfrozen⟩
    · rw [frozen_applies hfrozen, numberedDocument_applies] at happlies
      obtain ⟨deposit, hdeposit, hstatus, -⟩ := hstep.guarded hpassed hid happlies
      refine ⟨⟨deposit, hdeposit, hstatus⟩, fun hkey => ?_⟩
      obtain ⟨⟨-, htype, -⟩, -⟩ := applies_iff.1 happlies
      rw [← hkey] at htype
      exact deposit_ne_payment htype
    · rw [frozen_applies hfrozen] at happlies
      obtain ⟨deposit, hdeposit, hstatus⟩ := h.backed company depositId key doc₀ hid hdoc₀ happlies
      refine ⟨⟨deposit, hdeposit, hstatus⟩, fun hkey => ?_⟩
      obtain ⟨hcompany, hrest⟩ := Prod.mk.inj hkey
      obtain ⟨htype, hdocId⟩ := Prod.mk.inj hrest
      cases hstep with
      | payment _ htype' => exact deposit_ne_payment (htype.trans htype')
      | deposit hnew =>
        rw [hkey, hpassed.absent hnew] at hdeposit
        cases hdeposit
      | other _ htype' => exact htype' htype.symm
      | cancel read _ _ _ hguard =>
        have hlive : book.store.liveApplications draft.commit.companyId draft.commit.document.id = [] :=
          depositGuardViolation_release (hpassed.guard (hguard htype.symm))
        have hmem : doc₀ ∈ book.store.liveApplications company depositId :=
          Inner.mem_liveApplications.2 ⟨key, hdoc₀, happlies⟩
        rw [hcompany, hdocId, hlive] at hmem
        exact absurd hmem List.not_mem_nil
  have hmap := Inner.lookup_written draft.commit book.store (company, "Customer Deposit", depositId)
  rw [if_neg hkey, hdeposit, Option.map_some] at hmap
  obtain ⟨deposit', hdeposit', hfrozen⟩ := Option.map_eq_some_iff.1 hmap
  exact ⟨deposit', hdeposit', (frozen_docstatus hfrozen).trans hstatus⟩

include hgrow

theorem DepositStep.bounded (h : DepositsKept book.store) (hextends : Extends book.store inner')
    (company : Uuid) (depositId : String) (deposit : PostedDocument) (hid : depositId ≠ "")
    (hdeposit : AList.lookup (company, "Customer Deposit", depositId) inner'.documents = some deposit) :
    inner'.appliedAmount company depositId ≤ deposit.amount + moneyEps := by
  have hmoves : inner'.appliedAmount company depositId ≤ book.store.appliedAmount company depositId +
      appliedBy company depositId (Inner.docKey draft.commit) draft.commit.document := by
    rw [appliedAmount_applied happlied]
    have hweight := h.weight_nonneg company depositId (Inner.docKey draft.commit)
    linarith
  cases hold : AList.lookup (company, "Customer Deposit", depositId) book.store.documents with
  | some deposit₀ =>
    obtain ⟨deposit', hdeposit', hlater⟩ := hextends.documents _ deposit₀ hold
    obtain rfl := Option.some.inj (hdeposit'.symm.trans hdeposit)
    have hamount : deposit'.amount = deposit₀.amount := by
      rw [PostedDocument.amount, PostedDocument.amount, hlater.get (by decide)]
    rw [hamount]
    refine hmoves.trans ?_
    by_cases happlies : applies company depositId (Inner.docKey draft.commit) draft.commit.document = true
    · obtain ⟨deposit₁, hdeposit₁, -, hleft⟩ := hstep.guarded hpassed hid happlies
      obtain rfl := Option.some.inj (hdeposit₁.symm.trans hold)
      rw [appliedBy, if_pos happlies]
      exact hleft
    · rw [appliedBy, if_neg happlies, add_zero]
      exact h.bounded company depositId deposit₀ hid hold
  | none =>
    -- the commit brings the deposit itself
    rw [h.unknown hid hold, zero_add] at hmoves
    rw [happlied.documents] at hdeposit
    rcases Inner.lookup_written_cases hdeposit with ⟨hkey, hfrozen⟩ | ⟨-, deposit₀, hdeposit₀, -⟩
    · have htype : "Customer Deposit" = draft.commit.document.doctype :=
        (Prod.mk.inj (Prod.mk.inj hkey).2).1
      have hnothing : appliedBy company depositId (Inner.docKey draft.commit) draft.commit.document = 0 := by
        refine if_neg fun happlies => ?_
        obtain ⟨⟨-, hpayment, -⟩, -⟩ := applies_iff.1 happlies
        rw [← hkey] at hpayment
        exact deposit_ne_payment hpayment
      have hpositive : 0 < deposit.amount := by
        rw [frozen_amount hfrozen, (numberedDocument_deposit _ _).2.2.1]
        cases hstep with
        | payment _ htype' => exact absurd (htype.trans htype') deposit_ne_payment
        | deposit _ _ hamount => exact hamount
        | other _ htype' => exact absurd htype.symm htype'
        | cancel read _ hread =>
          obtain ⟨doc', hdoc', -⟩ := hgrow.documents _ read hread
          rw [← hkey, hold] at hdoc'
          cases hdoc'
      have heps : (0 : ℚ) ≤ moneyEps := by norm_num [moneyEps]
      rw [hnothing] at hmoves
      linarith
    · rw [hold] at hdeposit₀
      cases hdeposit₀

end Step

/-- Every step keeps the deposits. -/
theorem depositsKept_rule : Snapshot.Rule (protocol codec (memBackend codec) allowed)
    (fun book => Kept book ∧ DepositsKept book.store)
    fun book book' => Extends book.store book'.store := by
  refine extends_rule_and ?_ ?_
  · intro book₀ book draft inner' hkept₀ h₀ hgrow hkept h hbuilt hpassed happlied
    have hstep := build_depositStep hkept₀ hbuilt
    have hextends := (kept_applied hkept₀ hgrow hkept hbuilt hpassed happlied).2
    exact ⟨hstep.paid happlied h₀ h, hstep.backed hpassed happlied h,
      hstep.bounded hgrow hpassed happlied h hextends⟩
  · intro book op env h _
    have hdocuments := (operate_frame codec env op book.store).documents
    have hamounts : ∀ company depositId,
        ((memBackend codec).operate env op book.store).appliedAmount company depositId =
          book.store.appliedAmount company depositId := by
      intro company depositId
      rw [Inner.appliedAmount_eq, Inner.appliedAmount_eq, hdocuments]
    refine ⟨?_, ?_, ?_⟩
    · rw [hdocuments]
      exact h.paid
    · rw [hdocuments]
      exact h.backed
    · intro company depositId deposit hid hdeposit
      rw [hdocuments] at hdeposit
      rw [hamounts]
      exact h.bounded company depositId deposit hid hdeposit

end Rule

/-- In every run the submitted payments that name a deposit stay within its amount and the tolerance
together, and no submitted payment names a cancelled deposit. -/
theorem deposit_never_overapplied (codec : Codec) (events : List (Event MemOp)) (company : Uuid)
    (depositId : String) (deposit : PostedDocument) (hid : trim depositId ≠ "")
    (hdeposit : AList.lookup (company, "Customer Deposit", depositId)
      (memRun codec events).book.store.documents = some deposit) :
    (memRun codec events).book.store.appliedAmount company depositId ≤ deposit.amount + 5 / 1000 ∧
    (deposit.docstatus = 2 →
      (memRun codec events).book.store.liveApplications company depositId = []) := by
  have hne : depositId ≠ "" := by
    rintro rfl
    exact hid (by decide)
  obtain ⟨-, h⟩ : Kept (memRun codec events).book ∧ DepositsKept (memRun codec events).book.store :=
    System.invariant_of_rule depositsKept_rule ⟨kept_fresh, depositsKept_fresh⟩
      fun event _ => event.allowed_all
  refine ⟨h.bounded company depositId deposit hne hdeposit, fun hcancelled => ?_⟩
  refine List.eq_nil_iff_forall_not_mem.2 fun payment hpayment => ?_
  obtain ⟨key, hkey, happlies⟩ := Inner.mem_liveApplications.1 hpayment
  obtain ⟨deposit', hdeposit', hstatus⟩ := h.backed company depositId key payment hne hkey happlies
  obtain rfl := Option.some.inj (hdeposit'.symm.trans hdeposit)
  omega

/-- A deposit of a hundred, then two payments of sixty that apply it, the second naming it with blanks
around; both are built before one is committed. -/
def depositRace : List (Event MemOp) :=
  let env : Env := ⟨0, "2026-01-05", 0⟩
  let clerk : Actor := ⟨some 7, some 5, none⟩
  let submit (doctype id : String) (payload : Map) : Command := .submit
    { doctype, documentId := some id, payload, items := [], idempotencyKey := none,
      offlineFiscal := false }
  let payment (id deposit : String) : Command := submit "Payment Entry" id
    [("deposit", .string deposit), ("paid_amount", .int 60), ("payment_type", .string "Receive")]
  Event.whole 1 clerk (submit "Customer Deposit" "CD-1"
      [("amount", .int 100), ("customer", .string "ACME")]) 0 env ++
    [.call 1 clerk (payment "PE-1" "CD-1"), .call 1 clerk (payment "PE-2" " CD-1 "),
      .advance 1 env, .advance 2 env, .advance 1 env, .advance 2 env, .advance 1 env, .advance 2 env]

theorem deposit_never_overapplied_race : ∃ deposit,
    AList.lookup (1, "Customer Deposit", "CD-1")
      (memRun serdeCodec depositRace).book.store.documents = some deposit ∧
    (memRun serdeCodec depositRace).book.store.appliedAmount 1 "CD-1" = 60 ∧
    (memRun serdeCodec depositRace).book.store.appliedAmount 1 "CD-1" ≤ deposit.amount + 5 / 1000 := by
  have hstored : (AList.lookup (1, "Customer Deposit", "CD-1")
      (memRun serdeCodec depositRace).book.store.documents).isSome = true := by decide +kernel
  obtain ⟨deposit, hdeposit⟩ := Option.isSome_iff_exists.1 hstored
  exact ⟨deposit, hdeposit, by decide +kernel,
    (deposit_never_overapplied serdeCodec depositRace 1 "CD-1" deposit (by decide) hdeposit).1⟩

end AtlasTeam
