import AtlasTeam.Posting.Balance
import AtlasTeam.Store.Effects
import AtlasTeam.Store.StockLedger

/-!
# The balance check after a restore (`scripts/verify_restore.sql`)

`gl_balanced_per_company` holds a company's whole ledger to the tolerance `check_balanced` gives each
voucher. What a voucher adds to the difference is `Draft.offBy`, and the check passes all along a run
exactly if these never add up to more than the tolerance (`ledger_balanced_iff`).
-/

namespace AtlasTeam

/-- What a company's debits exceed its credits by. -/
def Inner.offBalance (inner : Inner) (company : Uuid) : ℚ := glDifference (inner.glEntries.log company)

/-- `gl_balanced_per_company`: no company is off by more than 0.005. -/
def LedgerBalanced (inner : Inner) : Prop := ∀ company, |inner.offBalance company| ≤ 5 / 1000

/-- By how much a command's legs differ: a submit's as its payload says, a cancel's as those of the rows it
takes back, a take-on's as its lines say. -/
def Draft.offBy (codec : Codec) (draft : Draft Inner) : ℚ :=
  match draft.command with
  | .submit cmd =>
    match draft.voucher codec with
    | some voucher => AtlasTeam.offBy cmd.doctype voucher.items voucher.payload
    | none => 0
  | .cancel cmd => -glDifference
      ((draft.snapshot.view.glForVoucher draft.companyId cmd.documentId).filter fun e => !e.isReversal)
  | .takeOn cmd => (cmd.lines.map fun line => line.debit - line.credit).sum

theorem openingGl_difference (ctx : RowContext) (lines : List OpeningLine) :
    glDifference (lines.zipIdx.map (openingGl ctx)) =
      (lines.map fun line => line.debit - line.credit).sum := by
  have hlines : ∀ entry : OpeningLine × Nat,
      (openingGl ctx entry).difference = entry.1.debit - entry.1.credit := fun _ => rfl
  rw [glDifference_map hlines]
  conv_rhs => rw [← List.zipIdx_map_fst 0 lines, List.map_map]
  rfl

/-- The rows of a commit differ by what its command says. -/
theorem built_offBy {codec : Codec} {allowed : Allowed MemOp} {book₀ : Book Inner}
    {draft : Draft Inner} (hbuilt : Draft.Built codec (memBackend codec) allowed book₀ draft) :
    glDifference draft.commit.glEntries = draft.offBy codec := by
  have hbuild := hbuilt.build
  cases hcommand : draft.command with
  | submit cmd =>
    rw [hcommand] at hbuild
    obtain ⟨prepared, shortfalls, settlements, updates, hprepared, -, -, hcommit⟩ :=
      buildSubmit_ok hbuild
    have hprepared' : preparePayload draft.snapshot.view draft.builtAt draft.companyId cmd
        draft.documentId = .ok prepared := hprepared
    simp only [Draft.offBy, Draft.voucher, hcommand, hprepared']
    rw [hcommit]
    exact deriveRows_difference codec _ _ _ _
  | cancel cmd =>
    rw [hcommand] at hbuild
    obtain ⟨doc, postingDate, guard, updates, -, -, -, -, -, hcommit⟩ := buildCancel_ok hbuild
    simp only [Draft.offBy, hcommand]
    rw [hcommit]
    exact reversal_difference _ _
  | takeOn cmd =>
    rw [hcommand] at hbuild
    obtain ⟨postingDate, stock, tb, continuations, -, -, hcommit⟩ := buildOpening_ok hbuild
    simp only [Draft.offBy, hcommand]
    rw [hcommit]
    exact openingGl_difference _ _

/-- The entry leaves its company within 0.005. -/
def Entry.StaysBalanced (codec : Codec) (entry : Entry Inner) : Prop :=
  |entry.before.offBalance entry.companyId + entry.offBy codec| ≤ 5 / 1000

instance (codec : Codec) (entry : Entry Inner) : Decidable (entry.StaysBalanced codec) :=
  inferInstanceAs (Decidable (_ ≤ _))

theorem ledgerBalanced_fresh : LedgerBalanced {} := by
  intro company
  show |(0 : ℚ)| ≤ 5 / 1000
  norm_num

/-- An applied commit keeps the ledger balanced exactly if its entry stays balanced. -/
theorem ledgerBalanced_applied_iff {codec : Codec} {allowed : Allowed MemOp} {book₀ : Book Inner}
    {draft : Draft Inner} {inner inner' : Inner} (h : LedgerBalanced inner)
    (hbuilt : Draft.Built codec (memBackend codec) allowed book₀ draft)
    (happlied : Inner.Applied draft.commit inner inner') :
    LedgerBalanced inner' ↔ (appliedEntry draft inner).StaysBalanced codec := by
  have hcompany := (Command.build_new_or_cancel hbuilt.build).1
  have hsame : inner'.offBalance draft.companyId =
      inner.offBalance draft.companyId + draft.offBy codec := by
    rw [Inner.offBalance, happlied.glEntries, hcompany, Table.log_extend_self, glDifference_append,
      built_offBy hbuilt]
    rfl
  constructor
  · intro hafter
    show |inner.offBalance draft.companyId + draft.offBy codec| ≤ 5 / 1000
    rw [← hsame]
    exact hafter draft.companyId
  · intro hstays company
    by_cases hother : company = draft.companyId
    · rw [hother, hsame]
      exact hstays
    · rw [Inner.offBalance, happlied.glEntries, hcompany, Table.log_extend_ne _ hother]
      exact h company

/-- The balance check passes all along a run exactly if no applied commit takes its company more than
0.005 off balance. -/
theorem ledger_balanced_iff (codec : Codec) (events : List (Event MemOp)) :
    (∀ run, run <+: events → LedgerBalanced (memRun codec run).book.store) ↔
      ∀ entry ∈ (memRun codec events).book.journal, entry.StaysBalanced codec := by
  refine memRun_always_iff_journal extends_rule kept_fresh ledgerBalanced_fresh ?_ ?_
    fun event _ => event.allowed_all
  · intro book₀ book draft env inner' _ _ _ _ _ hpass hbuilt heffects
    exact ledgerBalanced_applied_iff hpass hbuilt heffects.applied
  · intro inner op env hpass company
    rw [Inner.offBalance, (operate_frame codec env op inner).glEntries]
    exact hpass company

/-! ### Two journal entries -/

/-- Two Journal Entries of 100, each with a debit that is `off` more. -/
def unevenEntries (off : ℚ) : List (Event MemOp) :=
  let env : Env := ⟨0, "2026-01-05", 0⟩
  let clerk : Actor := ⟨some 7, some 5, none⟩
  let line (account : String) (debit credit : ℚ) : Value :=
    .obj [("account", .string account), ("debit", .num debit), ("credit", .num credit)]
  let entry (id : String) : Command := .submit
    { doctype := "Journal Entry"
      documentId := some id
      payload := [("posting_date", .string "2026-01-05"),
        ("accounts", .array [line "Rent" (100 + off) 0, line "Bank" 0 100])]
      items := []
      idempotencyKey := none
      offlineFiscal := false }
  Event.whole 1 clerk (entry "JE-1") 0 env ++ Event.whole 1 clerk (entry "JE-2") 1 env

/-- Each is within the tolerance, both together are not. -/
theorem ledger_unbalanced :
    ¬ LedgerBalanced (memRun serdeCodec (unevenEntries (4 / 1000))).book.store := by
  intro h
  have hoff : (memRun serdeCodec (unevenEntries (4 / 1000))).book.store.offBalance 1 = 8 / 1000 := by
    decide +kernel
  have hclose := h 1
  rw [hoff] at hclose
  norm_num at hclose

/-- Two halves of the tolerance are. -/
example : ∀ entry ∈ (memRun serdeCodec (unevenEntries (2 / 1000))).book.journal,
    entry.StaysBalanced serdeCodec := by decide +kernel

end AtlasTeam
