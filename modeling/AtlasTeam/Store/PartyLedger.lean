import AtlasTeam.Posting.PartyLegs
import AtlasTeam.Store.LiveBooks

/-!
# A party's balance

What a party owes is in its subledger, and the legs that name it in the general ledger say the same but for the
payments, which reach the ledger without their party. Both are figures that reversals take back, so both are those
of the submitted documents, and the payments are those of the submitted Payment Entries (`party_balance`).
-/

namespace AtlasTeam

/-! ### The figures -/

section Figures
variable (kind : PartyKind) (party : String)

/-- What the legs that name a party put on it. -/
def partyLegs : LedgerKind.gl.Figure (ℚ × ℚ) where
  counts := GlEntry.names kind party
  adds := GlEntry.owed kind
  counts_reversal _ _ := rfl
  adds_reversal _ entry := by
    refine Prod.ext ?_ ?_
    · show kind.side * (entry.credit - entry.debit) = -(kind.side * (entry.debit - entry.credit))
      ring
    · show kind.side * (entry.baseCredit.getD entry.credit - entry.baseDebit.getD entry.debit) =
        -(kind.side * (entry.baseDebit.getD entry.debit - entry.baseCredit.getD entry.credit))
      ring
  counts_unsequenced _ := rfl
  adds_unsequenced _ := rfl

/-- What the rows of its subledger put on a party. -/
def partyRows : LedgerKind.party.Figure (ℚ × ℚ) where
  counts := PartyTransaction.isOf kind party
  adds txn := (txn.amount, txn.baseAmount)
  counts_reversal _ _ := rfl
  adds_reversal _ _ := rfl
  counts_unsequenced _ := rfl
  adds_unsequenced _ := rfl

end Figures

/-! ### What live documents pay -/

namespace PgTables
variable {pg : Postgres} {codec : Codec} {env : Env} {commit : PostingCommit} {tables tables' : PgTables}
  {kind : PartyKind} {party : String}

theorem paid_outstanding (doc : PostedDocument) (amount : Value) :
    PostedDocument.partyPaid kind party { doc with payload := doc.payload.setField "outstanding_amount" amount } =
      doc.partyPaid kind party := by
  cases hpayload : doc.payload with
  | object payload =>
    have hpaid : paidBy kind party (Map.insert payload "outstanding_amount" amount) =
        paidBy kind party payload := by
      refine paidBy_congr fun field hfield => Map.get_insert_ne payload ?_ amount
      rintro rfl
      exact absurd hfield (by decide)
    simp only [PostedDocument.partyPaid, hpayload, Value.setField, Value.asObject, Option.elim_some, hpaid]
  | _ => simp only [PostedDocument.partyPaid, hpayload, Value.setField]

/-- What the documents pay after a transaction. -/
theorem Filled.paid (h : Filled pg codec env commit tables tables') (kind : PartyKind) (party : String)
    (key : Uuid × String × String) :
    (key ≠ Inner.docKey commit →
      (AList.lookup key tables'.documents).map (PostedDocument.partyPaid kind party) =
        (AList.lookup key tables.documents).map (PostedDocument.partyPaid kind party)) ∧
    (commit.documentIsNew = true →
      (AList.lookup (Inner.docKey commit) tables'.documents).map (PostedDocument.partyPaid kind party) =
        some (commit.document.partyPaid kind party)) := by
  obtain ⟨documents, hwrite, hdocuments⟩ := h.documents
  have hdocument := Inner.numberedDocument_eq commit tables.toInner
  generalize Inner.numberedDocument commit tables.toInner = document at hwrite hdocument
  have hkey : (commit.companyId, document.doctype, document.id) = Inner.docKey commit := by
    rw [hdocument]
    rfl
  rw [hdocuments, map_writeOutstandings paid_outstanding, map_writeOutstandings paid_outstanding]
  have hpaid : document.partyPaid kind party = commit.document.partyPaid kind party := by
    rw [hdocument]
    rfl
  unfold writeDocument at hwrite
  rw [hkey] at hwrite
  cases hnew : commit.documentIsNew with
  | true =>
    rw [if_pos hnew, Except.ite_throw_eq_ok] at hwrite
    rw [← Except.ok.inj hwrite.2]
    refine ⟨fun hother => by rw [AList.lookup_insert_ne hother], fun _ => ?_⟩
    rw [AList.lookup_insert, Option.map_some, hpaid]
  | false =>
    refine ⟨fun hother => ?_, fun hnew => absurd hnew Bool.false_ne_true⟩
    rw [hnew, if_neg Bool.false_ne_true] at hwrite
    cases hlookup : AList.lookup (Inner.docKey commit) tables.documents with
    | some existing =>
      rw [hlookup] at hwrite
      rw [← Except.ok.inj hwrite, AList.lookup_insert_ne hother]
    | none =>
      rw [hlookup] at hwrite
      rw [← Except.ok.inj hwrite]

end PgTables

/-- Submitted documents pay what they were posted with. -/
def PaidAsPosted (book : Book PgTables) : Prop :=
  ∀ key doc, AList.lookup key book.store.documents = some doc → doc.docstatus = 1 →
    ∀ entry ∈ book.journal, entry.Posts key →
      ∀ kind party, doc.partyPaid kind party = entry.commit.document.partyPaid kind party

section Rule
variable {pg : Postgres} {codec : Codec} {allowed : Allowed MemOp} {book₀ book : Book PgTables}
  {draft : Draft PgTables} {env : Env} {response : Value} {tables' : PgTables}

theorem PaidAsPosted.written (h₀ : Statuses book₀) (hstatuses : Statuses book) (h : PaidAsPosted book)
    (hbuilt : Draft.Built codec (pgBackend pg codec) allowed book₀ draft)
    (hwrite : book.store.write pg codec env draft.commit = .ok (response, tables')) :
    PaidAsPosted { store := tables', journal := book.journal ++ [writtenEntry draft book.store response] } := by
  have hfilled := PgTables.write_filled hwrite
  have hchecked := (PgTables.write_ok pg hwrite).checkedDocument
  intro key doc hdoc hlive entry hentry hposts kind party
  have hstanding := hfilled.standing hstatuses.keyed hchecked key
  have hpaid := hfilled.paid kind party key
  rw [hdoc, Option.map_some] at hstanding
  by_cases hkey : key = Inner.docKey draft.commit
  · obtain rfl := hkey
    rw [if_pos rfl] at hstanding
    have hstatus : doc.docstatus = draft.commit.document.docstatus :=
      congrArg (fun s : String × String × Int => s.2.2) (Option.some.inj hstanding)
    rcases h₀.cancelledKey book response hbuilt with ⟨-, hnew, -⟩ | ⟨htwo, -, -⟩
    · rcases List.mem_append.1 hentry with hentry | hentry
      · -- the document is new, so none has been posted under its key
        have hthere := hstatuses.posted entry hentry _ hposts
        rw [PgTables.checkedDocument_isSome hchecked, hnew] at hthere
        cases hthere
      · obtain rfl := List.mem_singleton.1 hentry
        have hnow := hpaid.2 hnew
        rw [hdoc, Option.map_some] at hnow
        exact Option.some.inj hnow
    · rw [hstatus, htwo] at hlive
      cases hlive
  · have hnow := hpaid.1 hkey
    rw [if_neg hkey] at hstanding
    obtain ⟨old, hold, hsame⟩ := Option.map_eq_some_iff.1 hstanding.symm
    rw [hdoc, hold, Option.map_some, Option.map_some] at hnow
    have hstatus : doc.docstatus = old.docstatus :=
      congrArg (fun s : String × String × Int => s.2.2) hsame.symm
    rcases List.mem_append.1 hentry with hentry | hentry
    · rw [Option.some.inj hnow]
      exact h key old hold (hstatus ▸ hlive) entry hentry hposts kind party
    · obtain rfl := List.mem_singleton.1 hentry
      exact absurd hposts.document.symm hkey

theorem paid_rule : Snapshot.Rule (protocol codec (pgBackend pg codec) allowed)
    (fun book => Owned book ∧ Statuses book ∧ PaidAsPosted book)
    fun book book' => book.journal <+: book'.journal := by
  refine written_rule_and ?_ ?_
  · rintro book₀ book draft env response tables' - ⟨h₀, -⟩ - howned ⟨hstatuses, h⟩ hbuilt hwrite
    exact ⟨h₀.written howned hstatuses hbuilt hwrite, h.written h₀ hstatuses hbuilt hwrite⟩
  · rintro book op env ⟨hstatuses, h⟩
    refine ⟨hstatuses.operated op env, fun key doc hdoc => h key doc ?_⟩
    rw [← (operate_frame codec env op book.store.toInner).documents]
    exact hdoc

end Rule

theorem pgRun_paid (pg : Postgres) (codec : Codec) (events : List (Event MemOp)) :
    PaidAsPosted (pgRun pg codec events).book := by
  have h : Owned (pgRun pg codec events).book ∧ Statuses (pgRun pg codec events).book ∧
      PaidAsPosted (pgRun pg codec events).book := by
    refine System.invariant_of_rule paid_rule ⟨owned_fresh, statuses_fresh, ?_⟩ fun event _ => event.allowed_all
    intro _ _ _ _ entry hentry
    exact absurd hentry List.not_mem_nil
  exact h.2.2

/-! ### What a party owes -/

/-- What a command that posts a document puts on a party. -/
theorem Command.build_party {codec : Codec} {view : StoreView} {env : Env} {companyId : Uuid} {actor : Actor}
    {documentId : String} {command : Command} {commit : PostingCommit} {kind : PartyKind} {party : String}
    (h : command.build codec view env companyId actor documentId = .ok commit)
    (hcancel : ∀ cmd, command ≠ .cancel cmd) : rowsOwed kind party commit.partyTransactions =
      legsOwed kind party commit.glEntries - commit.document.partyPaid kind party := by
  cases command with
  | submit cmd => exact buildSubmit_party h
  | cancel cmd => exact absurd rfl (hcancel cmd)
  | takeOn cmd => exact buildOpening_party h

/-- In every run, what stands in a party's subledger is what the general ledger's legs that name the party come to,
less what the submitted Payment Entries pay: in the currency of the transactions and in base. -/
theorem party_balance (pg : Postgres) (codec : Codec) (events : List (Event MemOp)) (company : Uuid)
    (kind : PartyKind) (party : String) :
    let tables := (pgRun pg codec events).book.store
    LedgerKind.balance tables company .party (kind, party) =
      legsOwed kind party (tables.glEntries.log company) - TableSum.total
        (fun key doc => if key.1 = company ∧ doc.docstatus = 1 then doc.partyPaid kind party else 0)
        tables.documents := by
  intro tables
  have howned := owned_run pg codec events
  have hstatuses := pgRun_statuses pg codec events
  have hrows : LedgerKind.balance tables company .party (kind, party) =
      (partyRows kind party).of (LedgerKind.party.stored tables company) := by
    refine congrArg (fun rows : List PartyTransaction => (rows.map fun txn => (txn.amount, txn.baseAmount)).sum)
      (List.filter_congr fun (txn : PartyTransaction) _ => ?_)
    show decide ((txn.kind, txn.party) = (kind, party)) = txn.isOf kind party
    simp [PartyTransaction.isOf]
  have hlegs : legsOwed kind party (tables.glEntries.log company) =
      (partyLegs kind party).of (LedgerKind.gl.stored tables company) := rfl
  rw [hrows, hlegs, howned.figure_live hstatuses, howned.figure_live hstatuses, eq_sub_iff_add_eq,
    ← TableSum.total_add]
  refine TableSum.total_congr fun key doc hdoc => ?_
  split_ifs with hlive
  · obtain ⟨source, hsource, hposts⟩ := howned.documents key (by rw [hdoc]; rfl)
    have huncancelled : key ∉ (pgRun pg codec events).book.journal.filterMap Entry.cancelledKey := by
      intro hcancelled
      have hstatus := hstatuses.status key doc hdoc
      rw [if_pos hcancelled, hlive.2] at hstatus
      cases hstatus
    obtain ⟨-, -, hbuild⟩ := System.journal_faithful codec (pgBackend pg codec) events source hsource
    have hparty := howned.submitted_rows hsource hposts huncancelled .party
    have hgl := howned.submitted_rows hsource hposts huncancelled .gl
    rw [LedgerKind.Figure.net, LedgerKind.Figure.net, hparty, hgl,
      pgRun_paid pg codec events key doc hdoc hlive.2 source hsource hposts, ← eq_sub_iff_add_eq]
    exact Command.build_party hbuild hposts.notCancel
  · exact add_zero 0

end AtlasTeam
