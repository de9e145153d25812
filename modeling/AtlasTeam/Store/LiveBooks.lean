import AtlasTeam.Calls
import AtlasTeam.Lib.TableSum
import AtlasTeam.Posting.Balance
import AtlasTeam.Store.Reversals

/-!
# The books are those of the live documents

`Statuses` goes with `Owned` through every run on the PostgreSQL store: a document is submitted until an entry of
the journal cancels it. The rows of a cancelled document come to nothing in every figure that reversals take back
(`Owned.net_cancelled`), and every row belongs to a document, so a figure of a ledger is the sum over the documents
that are submitted (`Owned.figure_live`), a balance among them (`balances_of_live_documents`). Of the checks after
a restore, `gl_balanced_per_voucher` passes in every state for the same reason (`vouchers_balanced`).
-/

namespace AtlasTeam

/-! ### What a transaction writes beside the ledgers -/

namespace PgTables
variable {pg : Postgres} {codec : Codec} {env : Env} {commit : PostingCommit} {tables tables' : PgTables}
  {response : Value}

/-- The documents, the bins and the log of `tables'` are those of `tables` after the writes of `commit`. -/
structure Filled (pg : Postgres) (codec : Codec) (env : Env) (commit : PostingCommit) (tables tables' : PgTables) :
    Prop where
  documents : ∃ documents,
    writeDocument commit (Inner.numberedDocument commit tables.toInner) tables.documents = .ok documents ∧
    tables'.documents = commit.outstandingUpdates.foldl (writeOutstanding pg commit.companyId) documents
  bins : tables'.bins = commit.bins.foldl (Inner.putBin commit.companyId) tables.bins
  syncLog : ∃ records,
    tables'.toSyncLog = tables.toSyncLog.appendMutations codec env commit.companyId records

theorem write_filled (h : tables.write pg codec env commit = .ok (response, tables')) :
    Filled pg codec env commit tables tables' := by
  simp only [write, Except.bind_eq_ok, Except.pure_eq_ok] at h
  obtain ⟨⟨⟩, -, documents, hdocuments, glEntries, -, stockLedger, -, party, -, tax, -, settlements, -, records, -,
    batches, -, hpair⟩ := h
  obtain ⟨-, rfl⟩ := Prod.mk.inj hpair
  exact ⟨⟨documents, hdocuments, rfl⟩, rfl, records, rfl⟩

/-- What a document says of itself besides its payload. -/
def standing (doc : PostedDocument) : String × String × Int := (doc.doctype, doc.id, doc.docstatus)

/-- Outstanding updates write one field of payloads. -/
theorem map_writeOutstandings {A : Type} {f : PostedDocument → A}
    (hf : ∀ (doc : PostedDocument) (amount : Value),
      f { doc with payload := doc.payload.setField "outstanding_amount" amount } = f doc) (company : Uuid)
    (updates : List (String × String × ℚ)) (documents : Documents) (key : Uuid × String × String) :
    (AList.lookup key (updates.foldl (writeOutstanding pg company) documents)).map f =
      (AList.lookup key documents).map f := by
  induction updates generalizing documents with
  | nil => rfl
  | cons update updates ih =>
    obtain ⟨doctype, id, outstanding⟩ := update
    rw [List.foldl_cons, ih]
    simp only [writeOutstanding]
    cases hdoc : AList.lookup (company, doctype, id) documents with
    | none => rfl
    | some doc =>
      by_cases hkey : key = (company, doctype, id)
      · rw [hkey, AList.lookup_insert, hdoc, Option.map_some, Option.map_some, hf]
      · rw [AList.lookup_insert_ne hkey]

/-- Documents stand under their own doctype and id. -/
def OwnKeys (documents : Documents) : Prop :=
  ∀ key doc, AList.lookup key documents = some doc → key.2 = (doc.doctype, doc.id)

/-- A document goes in, or one that is there gets the docstatus. -/
theorem standing_writeDocument {document : PostedDocument} {documents documents' : Documents}
    (hkeyed : OwnKeys documents) (h : writeDocument commit document documents = .ok documents')
    (hthere : commit.documentIsNew = false →
      (AList.lookup (commit.companyId, document.doctype, document.id) documents).isSome = true)
    (key : Uuid × String × String) :
    (AList.lookup key documents').map standing =
      if key = (commit.companyId, document.doctype, document.id) then some (standing document)
      else (AList.lookup key documents).map standing := by
  unfold writeDocument at h
  cases hnew : commit.documentIsNew with
  | true =>
    rw [if_pos hnew, Except.ite_throw_eq_ok] at h
    rw [← Except.ok.inj h.2]
    by_cases hkey : key = (commit.companyId, document.doctype, document.id)
    · rw [if_pos hkey, hkey, AList.lookup_insert]
      rfl
    · rw [if_neg hkey, AList.lookup_insert_ne hkey]
  | false =>
    obtain ⟨existing, hexisting⟩ := Option.isSome_iff_exists.1 (hthere hnew)
    rw [hnew, if_neg Bool.false_ne_true, hexisting] at h
    rw [← Except.ok.inj h]
    by_cases hkey : key = (commit.companyId, document.doctype, document.id)
    · obtain ⟨hdoctype, hid⟩ : document.doctype = existing.doctype ∧ document.id = existing.id :=
        Prod.mk.inj (hkeyed _ _ hexisting)
      rw [if_pos hkey, hkey, AList.lookup_insert, Option.map_some, standing, standing, hdoctype, hid]
    · rw [if_neg hkey, AList.lookup_insert_ne hkey]

/-- A new document was not there, and any other was. -/
theorem checkedDocument_isSome (h : tables.checkDocument commit = .ok ()) :
    (AList.lookup (Inner.docKey commit) tables.documents).isSome = !commit.documentIsNew := by
  unfold Inner.checkDocument at h
  cases hlookup : AList.lookup (Inner.docKey commit) tables.documents with
  | some existing =>
    cases hnew : commit.documentIsNew with
    | true =>
      rw [hlookup, hnew] at h
      cases h
    | false => rfl
  | none =>
    cases hnew : commit.documentIsNew with
    | true => rfl
    | false =>
      rw [hlookup, hnew] at h
      cases h

/-- The documents after a transaction: its own has the docstatus of the commit. -/
theorem Filled.standing (h : Filled pg codec env commit tables tables') (hkeyed : OwnKeys tables.documents)
    (hchecked : tables.checkDocument commit = .ok ()) (key : Uuid × String × String) :
    (AList.lookup key tables'.documents).map PgTables.standing =
      if key = Inner.docKey commit then some (PgTables.standing commit.document)
      else (AList.lookup key tables.documents).map PgTables.standing := by
  obtain ⟨documents, hwrite, hdocuments⟩ := h.documents
  have hdocument := Inner.numberedDocument_eq commit tables.toInner
  generalize Inner.numberedDocument commit tables.toInner = document at hwrite hdocument
  have hkey : (commit.companyId, document.doctype, document.id) = Inner.docKey commit := by
    rw [hdocument]
    rfl
  have hsame : PgTables.standing document = PgTables.standing commit.document := by
    rw [hdocument]
    rfl
  rw [hdocuments, map_writeOutstandings fun _ _ => rfl, standing_writeDocument hkeyed hwrite, hkey, hsame]
  intro hold
  rw [hkey, checkedDocument_isSome hchecked, hold]
  rfl

/-- Documents stand under their own doctype and id after a transaction. -/
theorem Filled.keyed (h : Filled pg codec env commit tables tables') (hkeyed : OwnKeys tables.documents)
    (hchecked : tables.checkDocument commit = .ok ()) : OwnKeys tables'.documents := by
  intro key doc hdoc
  have hstanding := h.standing hkeyed hchecked key
  rw [hdoc, Option.map_some] at hstanding
  split_ifs at hstanding with hkey
  · obtain ⟨hdoctype, hrest⟩ := Prod.mk.inj (Option.some.inj hstanding)
    rw [hkey, hdoctype, (Prod.mk.inj hrest).1]
    rfl
  · obtain ⟨old, hold, hsame⟩ := Option.map_eq_some_iff.1 hstanding.symm
    obtain ⟨hdoctype, hrest⟩ := Prod.mk.inj hsame
    rw [← hdoctype, ← (Prod.mk.inj hrest).1]
    exact hkeyed key old hold

end PgTables

section Rule
variable {pg : Postgres} {codec : Codec} {allowed : Allowed MemOp}

/-- Committing a draft leaves the book as it is, or is a transaction that goes through. -/
theorem commit_write_cases (pg : Postgres) (codec : Codec) (env : Env) (draft : Draft PgTables)
    (book : Book PgTables) :
    book.commit (pgBackend pg codec) env draft = book ∨
    ∃ response tables', book.store.write pg codec env draft.commit = .ok (response, tables') ∧
      book.commit (pgBackend pg codec) env draft =
        { store := tables', journal := book.journal ++ [writtenEntry draft book.store response] } := by
  simp only [Book.commit, pgBackend, PgTables.postingCommit]
  cases book.store.replayed draft.commit with
  | some response => exact .inl rfl
  | none =>
    cases hwrite : book.store.write pg codec env draft.commit with
    | error e => exact .inl rfl
    | ok pair => exact .inr ⟨pair.1, pair.2, rfl, rfl⟩

/-- An invariant on top of the ownership of the rows: what a transaction and another operation do to it. -/
theorem written_rule_and {J : Book PgTables → Prop}
    (hcommit : ∀ {book₀ book : Book PgTables} {draft : Draft PgTables} {env : Env} {response : Value}
      {tables' : PgTables}, Owned book₀ → J book₀ → book₀.journal <+: book.journal → Owned book → J book →
      Draft.Built codec (pgBackend pg codec) allowed book₀ draft →
      book.store.write pg codec env draft.commit = .ok (response, tables') →
      J { store := tables', journal := book.journal ++ [writtenEntry draft book.store response] })
    (hoperate : ∀ {book : Book PgTables} {op : MemOp} {env : Env}, J book →
      J { book with store := (pgBackend pg codec).operate env op book.store }) :
    Snapshot.Rule (protocol codec (pgBackend pg codec) allowed) (fun book => Owned book ∧ J book)
      fun book book' => book.journal <+: book'.journal := by
  refine owned_rule.and ?_ ?_
  · rintro book₀ book _ draft h₀ hJ₀ hgrow h hJ hbuilt ⟨env, rfl⟩
    rcases commit_write_cases pg codec env draft book with hsame | ⟨response, tables', hwrite, hbook⟩
    · rw [hsame]
      exact hJ
    · exact hbook ▸ hcommit h₀ hJ₀ hgrow h hJ hbuilt hwrite
  · rintro book _ - hJ ⟨op, env, -, rfl⟩
    exact hoperate hJ

end Rule

/-! ### Submitted until cancelled -/

/-- The documents of a journal are there, submitted until an entry cancels them. -/
structure Statuses (book : Book PgTables) : Prop where
  keyed : PgTables.OwnKeys book.store.documents
  posted : ∀ entry ∈ book.journal, ∀ key, entry.Posts key → (AList.lookup key book.store.documents).isSome = true
  status : ∀ key doc, AList.lookup key book.store.documents = some doc →
    doc.docstatus = if key ∈ book.journal.filterMap Entry.cancelledKey then 2 else 1

/-- An entry that cancels a document reverses one that posted it. -/
theorem Owned.cancelled {book : Book PgTables} (h : Owned book) {key : Uuid × String × String}
    (hkey : key ∈ book.journal.filterMap Entry.cancelledKey) :
    ∃ entry ∈ book.journal, ∃ source ∈ book.journal, source.Posts key ∧
      entry.batchKey = (key.1, "PB-" ++ key.2.2 ++ reversalSuffix) ∧
      ∀ kind : LedgerKind, (∀ row ∈ entry.writes kind, kind.stamp row = ⟨key.2.1, key.2.2, true⟩) ∧
        ((entry.writes kind).map kind.unsequenced).Perm
          ((source.writes kind).map (kind.reversal entry.commit.batch.id)) := by
  obtain ⟨entry, hentry, hcancel⟩ := List.mem_filterMap.1 hkey
  unfold Entry.cancelledKey at hcancel
  split at hcancel
  · rename_i cmd hcommand
    obtain rfl := Option.some.inj hcancel
    cases h.sourced entry hentry with
    | posted doctype id hposts => exact absurd hcommand (hposts.notCancel cmd)
    | cancelled cmd' hcommand' hbatch source hsource hposts hstamps hrows =>
      obtain rfl := Command.cancel.inj (hcommand.symm.trans hcommand')
      exact ⟨entry, hentry, source, hsource, hposts, Prod.ext rfl hbatch,
        fun kind => ⟨hstamps kind, hrows kind⟩⟩
  · cases hcancel

section Statuses
variable {pg : Postgres} {codec : Codec} {allowed : Allowed MemOp} {book₀ book : Book PgTables}
  {draft : Draft PgTables} {env : Env} {response : Value} {tables' : PgTables}

/-- The document an entry cancels is the one its commit writes. -/
theorem Statuses.cancelledKey (h₀ : Statuses book₀) (book : Book PgTables) (response : Value)
    (hbuilt : Draft.Built codec (pgBackend pg codec) allowed book₀ draft) :
    (draft.commit.document.docstatus = 1 ∧ draft.commit.documentIsNew = true ∧
      (writtenEntry draft book.store response).cancelledKey = none) ∨
    draft.commit.document.docstatus = 2 ∧ draft.commit.documentIsNew = false ∧
      (writtenEntry draft book.store response).cancelledKey = some (Inner.docKey draft.commit) := by
  have hbuild := hbuilt.build
  rw [hbuilt.snapshot] at hbuild
  obtain ⟨hcompany, ⟨hnew, -, hstatus, hnotCancel⟩ | ⟨cmd, doc, hcommand, hold, hdoc, -, hdocument, -⟩⟩ :=
    Command.build_new_or_cancel hbuild
  · refine .inl ⟨hstatus, hnew, ?_⟩
    unfold Entry.cancelledKey
    split
    · exact absurd ‹_› (hnotCancel _)
    · rfl
  · refine .inr ⟨by rw [hdocument], hold, ?_⟩
    have hlookup : AList.lookup (draft.companyId, cmd.doctype, cmd.documentId) book₀.store.documents = some doc :=
      hdoc
    obtain ⟨hdoctype, hid⟩ : cmd.doctype = doc.doctype ∧ cmd.documentId = doc.id :=
      Prod.mk.inj (h₀.keyed _ _ hlookup)
    have hkey : Inner.docKey draft.commit = (draft.companyId, cmd.doctype, cmd.documentId) := by
      rw [Inner.docKey, hcompany, hdocument, hdoctype, hid]
    unfold Entry.cancelledKey
    rw [show (writtenEntry draft book.store response).command = .cancel cmd from hcommand, hkey]
    rfl

theorem Statuses.written (h₀ : Statuses book₀) (howned : Owned book) (h : Statuses book)
    (hbuilt : Draft.Built codec (pgBackend pg codec) allowed book₀ draft)
    (hwrite : book.store.write pg codec env draft.commit = .ok (response, tables')) :
    Statuses { store := tables', journal := book.journal ++ [writtenEntry draft book.store response] } := by
  have hfilled := PgTables.write_filled hwrite
  have hchecked := (PgTables.write_ok pg hwrite).checkedDocument
  have hstanding := hfilled.standing h.keyed hchecked
  have hcases := h₀.cancelledKey book response hbuilt
  have hthere : ∀ key, (AList.lookup key book.store.documents).isSome = true →
      (AList.lookup key tables'.documents).isSome = true := by
    intro key hsome
    rw [← Option.isSome_map (f := PgTables.standing), hstanding]
    split_ifs
    · rfl
    · rwa [Option.isSome_map]
  refine ⟨hfilled.keyed h.keyed hchecked, fun entry hentry key hposts => ?_, fun key doc hdoc => ?_⟩
  · rcases List.mem_append.1 hentry with hentry | hentry
    · exact hthere key (h.posted entry hentry key hposts)
    · obtain rfl := List.mem_singleton.1 hentry
      have hkey : Inner.docKey draft.commit = key := hposts.document
      rw [← Option.isSome_map (f := PgTables.standing), hstanding, if_pos hkey.symm]
      rfl
  · have hdocStanding := hstanding key
    rw [hdoc, Option.map_some] at hdocStanding
    rw [List.filterMap_append, List.filterMap_cons, List.filterMap_nil]
    split_ifs at hdocStanding with hkey
    · have hstatus : doc.docstatus = draft.commit.document.docstatus :=
        congrArg (fun s : String × String × Int => s.2.2) (Option.some.inj hdocStanding)
      rcases hcases with ⟨hone, hnew, hnone⟩ | ⟨htwo, -, hcancel⟩
      · -- a document that was cancelled is there
        have hfresh : key ∉ book.journal.filterMap Entry.cancelledKey := by
          intro hmem
          obtain ⟨-, -, source, hsource, hposts, -⟩ := howned.cancelled hmem
          have hthere := h.posted source hsource key hposts
          rw [hkey, PgTables.checkedDocument_isSome hchecked, hnew] at hthere
          cases hthere
        rw [hnone, hstatus, hone]
        simp [hfresh]
      · rw [hcancel, hstatus, htwo, hkey]
        simp
    · obtain ⟨old, hold, hsame⟩ := Option.map_eq_some_iff.1 hdocStanding.symm
      have hstatus : doc.docstatus = old.docstatus :=
        congrArg (fun s : String × String × Int => s.2.2) hsame.symm
      rw [hstatus, h.status key old hold]
      rcases hcases with ⟨-, -, hnone⟩ | ⟨-, -, hcancel⟩
      · rw [hnone]
        simp
      · rw [hcancel]
        simp [hkey]

/-- No other operation writes documents. -/
theorem Statuses.operated (h : Statuses book) (op : MemOp) (env : Env) :
    Statuses { book with store := (pgBackend pg codec).operate env op book.store } := by
  have hframe := (operate_frame codec env op book.store.toInner).documents
  refine ⟨?_, fun entry hentry key hposts => ?_, fun key doc hdoc => ?_⟩
  · show PgTables.OwnKeys ((memBackend codec).operate env op book.store.toInner).documents
    rw [hframe]
    exact h.keyed
  · show (AList.lookup key ((memBackend codec).operate env op book.store.toInner).documents).isSome = true
    rw [hframe]
    exact h.posted entry hentry key hposts
  · refine h.status key doc ?_
    rw [← hframe]
    exact hdoc

theorem statuses_rule : Snapshot.Rule (protocol codec (pgBackend pg codec) allowed)
    (fun book => Owned book ∧ Statuses book) fun book book' => book.journal <+: book'.journal := by
  refine written_rule_and ?_ fun h => h.operated _ _
  intro book₀ book draft env response tables' _ h₀ _ howned h hbuilt hwrite
  exact h₀.written howned h hbuilt hwrite

end Statuses

theorem statuses_fresh : Statuses { store := {} } where
  keyed key doc h := by
    have hnone : AList.lookup key (∅ : Documents) = none := AList.lookup_empty key
    cases hnone.symm.trans h
  posted _ h := absurd h List.not_mem_nil
  status key doc h := by
    have hnone : AList.lookup key (∅ : Documents) = none := AList.lookup_empty key
    cases hnone.symm.trans h

theorem pgRun_statuses (pg : Postgres) (codec : Codec) (events : List (Event MemOp)) :
    Statuses (pgRun pg codec events).book := by
  have h : Owned (pgRun pg codec events).book ∧ Statuses (pgRun pg codec events).book :=
    System.invariant_of_rule statuses_rule ⟨owned_fresh, statuses_fresh⟩ fun event _ => event.allowed_all
  exact h.2

/-! ### What documents come to -/

/-- A figure of a ledger: the rows it counts and what each of them adds. A reversal counts where its row does and
takes back what that added; the identity value of a row is not looked at. -/
structure LedgerKind.Figure (kind : LedgerKind) (A : Type) [AddCommGroup A] where
  counts : kind.Row → Bool
  adds : kind.Row → A
  counts_reversal : ∀ batchId row, counts (kind.reversal batchId row) = counts row
  adds_reversal : ∀ batchId row, adds (kind.reversal batchId row) = -adds row
  counts_unsequenced : ∀ row, counts (kind.unsequenced row) = counts row
  adds_unsequenced : ∀ row, adds (kind.unsequenced row) = adds row

section Figure
variable {kind : LedgerKind} {A : Type} [AddCommGroup A] (figure : kind.Figure A)

/-- What rows come to. -/
def LedgerKind.Figure.of (rows : List kind.Row) : A := ((rows.filter figure.counts).map figure.adds).sum

/-- What the stored rows of a document come to. -/
def LedgerKind.Figure.net (tables : PgTables) (key : Uuid × String × String) : A :=
  figure.of (kind.ofDocument tables key)

end Figure

/-- The figure of a place. -/
def LedgerKind.atPlace (kind : LedgerKind) (place : kind.Place) : kind.Figure (ℚ × ℚ) where
  counts row := kind.place row = place
  adds := kind.amounts
  counts_reversal batchId row := by rw [kind.place_reversal]
  adds_reversal := kind.amounts_reversal
  counts_unsequenced row := by rw [kind.place_unsequenced]
  adds_unsequenced := kind.amounts_unsequenced

section Rows
variable {book : Book PgTables}

/-- The rows of a cancelled document are what its posting and its cancel wrote. -/
theorem Owned.cancelled_rows (h : Owned book) {source entry : Entry PgTables} (hsource : source ∈ book.journal)
    {key : Uuid × String × String} (hposts : source.Posts key) (hentry : entry ∈ book.journal)
    (hbatch : entry.batchKey = (key.1, "PB-" ++ key.2.2 ++ reversalSuffix)) {kind : LedgerKind}
    (hstamps : ∀ row ∈ entry.writes kind, kind.stamp row = ⟨key.2.1, key.2.2, true⟩) :
    (kind.ofDocument book.store key).Perm (source.writes kind ++ entry.writes kind) := by
  obtain ⟨company, doctype, id⟩ := key
  obtain ⟨hcompany, -, hrows⟩ := h.posted hsource hposts
  have hcompany' : entry.companyId = company := congrArg Prod.fst hbatch
  have hposted : (kind.ofDocument book.store (company, doctype, id)).filter (fun row =>
      !(kind.stamp row).isReversal) = source.writes kind := by
    rw [LedgerKind.ofDocument, List.filter_filter]
    refine h.filter_stored hsource hcompany (fun row hrow => ?_) fun other hother hsame hne row hrow => ?_
    · rw [hrows kind row hrow]
      simp
    · by_cases hno : (kind.stamp row).voucherNo = id
      · rw [(h.reversal_of_number hsource hposts hother hsame hne hrow hno).1]
        simp
      · simp [hno]
  have hreversed : (kind.ofDocument book.store (company, doctype, id)).filter (fun row =>
      (kind.stamp row).isReversal) = entry.writes kind := by
    rw [LedgerKind.ofDocument, List.filter_filter]
    refine h.filter_stored hentry hcompany' (fun row hrow => ?_) fun other hother hsame hne row hrow => ?_
    · rw [hstamps row hrow]
      simp
    · cases h.sourced other hother with
      | posted doctype' id' _ _ hrows' =>
        rw [hrows' kind row hrow]
        simp
      | cancelled cmd _ hbatch' _ _ _ hstamps' _ =>
        -- the same number would be the same batch
        have hno : cmd.documentId ≠ id := by
          intro hid
          refine hne ((Prod.ext hsame ?_).trans hbatch.symm)
          exact hbatch'.trans (by rw [hid])
        rw [hstamps' kind row hrow]
        simp [hno]
  have hsplit := List.filter_append_perm (fun row => (kind.stamp row).isReversal)
    (kind.ofDocument book.store (company, doctype, id))
  rw [hreversed, hposted] at hsplit
  exact hsplit.symm.trans List.perm_append_comm

/-- The rows of a document that no entry cancels are what its posting wrote. -/
theorem Owned.submitted_rows (h : Owned book) {source : Entry PgTables} (hsource : source ∈ book.journal)
    {key : Uuid × String × String} (hposts : source.Posts key)
    (hkey : key ∉ book.journal.filterMap Entry.cancelledKey) (kind : LedgerKind) :
    kind.ofDocument book.store key = source.writes kind := by
  obtain ⟨company, doctype, id⟩ := key
  obtain ⟨hcompany, hbatch, hrows⟩ := h.posted hsource hposts
  refine h.filter_stored hsource hcompany (fun row hrow => ?_) fun other hother hsame hne row hrow => ?_
  · rw [hrows kind row hrow]
    simp
  · cases h.sourced other hother with
    | posted doctype' id' _ hbatch' hrows' =>
      have hno : id' ≠ id := by
        rintro rfl
        exact hne (Prod.ext (hsame.trans hcompany.symm) (hbatch'.trans hbatch.symm))
      rw [hrows' kind row hrow]
      simp [hno]
    | cancelled cmd hcommand _ _ _ _ hstamps' _ =>
      rw [hstamps' kind row hrow]
      by_contra hnamed
      simp only [Bool.not_eq_false, Bool.and_eq_true, decide_eq_true_eq] at hnamed
      refine hkey (List.mem_filterMap.2 ⟨other, hother, ?_⟩)
      rw [Entry.cancelledKey, hcommand, ← hsame, ← hnamed.1, ← hnamed.2]

/-- A cancelled document comes to nothing in every figure. -/
theorem Owned.net_cancelled (h : Owned book) {key : Uuid × String × String}
    (hkey : key ∈ book.journal.filterMap Entry.cancelledKey) {kind : LedgerKind} {A : Type} [AddCommGroup A]
    (figure : kind.Figure A) : figure.net book.store key = 0 := by
  obtain ⟨entry, hentry, source, hsource, hposts, hbatch, hreverses⟩ := h.cancelled hkey
  obtain ⟨hstamps, hrows⟩ := hreverses kind
  have hperm := h.cancelled_rows hsource hposts hentry hbatch hstamps
  rw [LedgerKind.Figure.net, LedgerKind.Figure.of, ((hperm.filter _).map _).sum_eq]
  exact Journal.sum_filter_reversed (figure.adds_reversal _) (figure.counts_reversal _)
    figure.adds_unsequenced figure.counts_unsequenced hrows

/-- The document a stored row names has been posted. -/
theorem Owned.stamped (h : Owned book) {company : Uuid} {kind : LedgerKind} {row : kind.Row}
    (hrow : row ∈ kind.stored book.store company) :
    ∃ source ∈ book.journal,
      source.Posts (company, (kind.stamp row).voucherType, (kind.stamp row).voucherNo) := by
  rw [h.stored, writtenFor] at hrow
  obtain ⟨entry, hmem, hwritten⟩ := List.mem_flatMap.1 hrow
  obtain ⟨hentry, hcompany⟩ := List.mem_filter.1 hmem
  obtain rfl : entry.companyId = company := of_decide_eq_true hcompany
  cases h.sourced entry hentry with
  | posted doctype id hposts _ hrows =>
    rw [hrows kind row hwritten]
    exact ⟨entry, hentry, hposts⟩
  | cancelled cmd _ _ source hsource hposts hstamps _ =>
    rw [hstamps kind row hwritten]
    exact ⟨source, hsource, hposts⟩

/-- A figure of a company's ledger is what it is of the submitted documents. -/
theorem Owned.figure_live (howned : Owned book) (hstatuses : Statuses book) {kind : LedgerKind} {A : Type}
    [AddCommGroup A] (figure : kind.Figure A) (company : Uuid) :
    figure.of (kind.stored book.store company) = TableSum.total
      (fun key doc => if key.1 = company ∧ doc.docstatus = 1 then figure.net book.store key else 0)
      book.store.documents := by
  let document := fun row : kind.Row => (company, (kind.stamp row).voucherType, (kind.stamp row).voucherNo)
  have hkeys : ∀ row ∈ (kind.stored book.store company).filter figure.counts,
      document row ∈ book.store.documents.keys.toFinset := by
    intro row hrow
    obtain ⟨source, hsource, hposts⟩ := howned.stamped (List.mem_filter.1 hrow).1
    rw [List.mem_toFinset, ← AList.mem_keys, ← AList.lookup_isSome]
    exact hstatuses.posted source hsource _ hposts
  rw [LedgerKind.Figure.of, TableSum.sum_by_key document _ hkeys,
    TableSum.total_eq_sum _ _ (Finset.Subset.refl _)]
  refine Finset.sum_congr rfl fun key hkey => ?_
  rw [List.mem_toFinset, ← AList.mem_keys, ← AList.lookup_isSome] at hkey
  obtain ⟨doc, hdoc⟩ := Option.isSome_iff_exists.1 hkey
  rw [TableSum.weight, hdoc, Option.elim_some]
  by_cases hcompany : key.1 = company
  · obtain rfl := hcompany
    have hsame : ((kind.stored book.store key.1).filter figure.counts).filter (fun row => document row = key) =
        (kind.ofDocument book.store key).filter figure.counts := by
      rw [LedgerKind.ofDocument, List.filter_filter, List.filter_filter]
      refine List.filter_congr fun row _ => ?_
      simp only [document, Prod.ext_iff, true_and, Bool.decide_and, Bool.and_comm]
    rw [hsame]
    split_ifs with hlive
    · rfl
    · -- a document that is not submitted has been cancelled
      have hstatus := hstatuses.status key doc hdoc
      split_ifs at hstatus with hcancelled
      · exact howned.net_cancelled hcancelled figure
      · exact absurd ⟨rfl, hstatus⟩ hlive
  · rw [if_neg fun h => hcompany h.1]
    have hnone : ((kind.stored book.store company).filter figure.counts).filter (fun row => document row = key) =
        [] :=
      List.filter_eq_nil_iff.2 fun row _ hrow => hcompany (congrArg Prod.fst (of_decide_eq_true hrow)).symm
    rw [hnone]
    rfl

end Rows

/-- What a company's ledger holds at a place. -/
def LedgerKind.balance (tables : PgTables) (company : Uuid) (kind : LedgerKind) (place : kind.Place) : ℚ × ℚ :=
  (((kind.stored tables company).filter fun row => kind.place row = place).map kind.amounts).sum

/-- In every run, what a ledger of a company holds at an account, a pair, a party, a tax type or an invoice is what
the company's submitted documents come to there. -/
theorem balances_of_live_documents (pg : Postgres) (codec : Codec) (events : List (Event MemOp)) (company : Uuid)
    (kind : LedgerKind) (place : kind.Place) :
    let tables := (pgRun pg codec events).book.store
    kind.balance tables company place = TableSum.total
      (fun key doc => if key.1 = company ∧ doc.docstatus = 1 then kind.net tables key place else 0)
      tables.documents :=
  (owned_run pg codec events).figure_live (pgRun_statuses pg codec events) (kind.atPlace place) company

/-! ### Every voucher balances on its own -/

/-- What the debits of a voucher exceed its credits by. -/
def PgTables.voucherDifference (tables : PgTables) (company : Uuid) (no : String) : ℚ :=
  glDifference ((tables.glEntries.log company).filter fun e => e.voucherNo = no)

/-- What a command that posts a document writes is balanced. -/
theorem Command.build_balanced {codec : Codec} {view : StoreView} {env : Env} {companyId : Uuid} {actor : Actor}
    {documentId : String} {command : Command} {commit : PostingCommit}
    (h : command.build codec view env companyId actor documentId = .ok commit)
    (hcancel : ∀ cmd, command ≠ .cancel cmd) : |glDifference commit.glEntries| ≤ balanceTolerance := by
  cases command with
  | submit cmd => exact buildSubmit_balanced h
  | cancel cmd => exact absurd rfl (hcancel cmd)
  | takeOn cmd =>
    obtain ⟨postingDate, stock, continuations, -, -, hbalanced, -, -, -, -, -, -, -, rfl⟩ := buildOpening_checked h
    exact checkBalanced_ok hbalanced

/-- The rows under a voucher number are those of the one document posted under it. -/
theorem Owned.voucher_rows {book : Book PgTables} (h : Owned book) {source : Entry PgTables}
    (hsource : source ∈ book.journal) {company : Uuid} {doctype id : String}
    (hposts : source.Posts (company, doctype, id)) (kind : LedgerKind) :
    (kind.stored book.store company).filter (fun row => (kind.stamp row).voucherNo = id) =
      kind.ofDocument book.store (company, doctype, id) := by
  obtain ⟨hcompany, hbatch, -⟩ := h.posted hsource hposts
  refine List.filter_congr fun row hrow => ?_
  obtain ⟨other, hother, hothers⟩ := h.stamped hrow
  by_cases hno : (kind.stamp row).voucherNo = id
  · rw [hno] at hothers
    obtain ⟨hcompany', hbatch', -⟩ := h.posted hother hothers
    have hsame : other = source := List.inj_on_of_nodup_map h.distinct hother hsource
      (Prod.ext (hcompany'.trans hcompany.symm) (hbatch'.trans hbatch.symm))
    have hdoctype : (kind.stamp row).voucherType = doctype := by
      have hkeys := hothers.document.symm.trans (hsame ▸ hposts.document)
      exact congrArg (fun key : Uuid × String × String => key.2.1) hkeys
    simp [hno, hdoctype]
  · simp [hno]

theorem GlEntry.difference_reversals {posted reversed : List GlEntry} {batchId : String}
    (h : reversed.Perm (posted.map (GlEntry.reversal batchId))) : glDifference (posted ++ reversed) = 0 := by
  have hreversed : glDifference reversed = glDifference (posted.map (GlEntry.reversal batchId)) :=
    (h.map GlEntry.difference).sum_eq
  rw [glDifference_append, hreversed, reversal_difference, add_neg_cancel]

/-- `gl_balanced_per_voucher` passes in every state of every run. -/
theorem vouchers_balanced (pg : Postgres) (codec : Codec) (events : List (Event MemOp)) (company : Uuid)
    (no : String) : |(pgRun pg codec events).book.store.voucherDifference company no| ≤ balanceTolerance := by
  have howned := owned_run pg codec events
  set book := (pgRun pg codec events).book with hbook
  have htolerance : (0 : ℚ) ≤ balanceTolerance := by
    norm_num [balanceTolerance]
  cases hrows : (LedgerKind.gl.stored book.store company).filter fun row =>
      (LedgerKind.gl.stamp row).voucherNo = no with
  | nil =>
    have hzero : book.store.voucherDifference company no = 0 := congrArg glDifference hrows
    rw [hzero, abs_zero]
    exact htolerance
  | cons row rows =>
    have hrow : row ∈ (LedgerKind.gl.stored book.store company).filter fun row =>
        (LedgerKind.gl.stamp row).voucherNo = no := hrows ▸ List.mem_cons_self
    obtain ⟨hstored, hno⟩ := List.mem_filter.1 hrow
    obtain ⟨source, hsource, hposts⟩ := howned.stamped hstored
    rw [of_decide_eq_true hno] at hposts
    have hall := howned.voucher_rows hsource hposts .gl
    have hdifference : book.store.voucherDifference company no = glDifference
        (LedgerKind.gl.ofDocument book.store (company, (LedgerKind.gl.stamp row).voucherType, no)) :=
      congrArg glDifference hall
    rw [hdifference]
    by_cases hcancelled : (company, (LedgerKind.gl.stamp row).voucherType, no) ∈
        book.journal.filterMap Entry.cancelledKey
    · -- the cancel takes back what the posting wrote
      obtain ⟨entry, hentry, posted, hposted, hposts', hbatch, hreverses⟩ := howned.cancelled hcancelled
      obtain ⟨hstamps, hreversals⟩ := hreverses .gl
      have hperm := howned.cancelled_rows hposted hposts' hentry hbatch hstamps
      have hplain : (entry.writes .gl).Perm
          ((posted.writes .gl).map (GlEntry.reversal entry.commit.batch.id)) := by
        rwa [show LedgerKind.gl.unsequenced = id from rfl, List.map_id] at hreversals
      have hzero : glDifference (LedgerKind.gl.ofDocument book.store
          (company, (LedgerKind.gl.stamp row).voucherType, no)) = 0 :=
        (hperm.map GlEntry.difference).sum_eq.trans (GlEntry.difference_reversals hplain)
      rw [hzero, abs_zero]
      exact htolerance
    · have hown : LedgerKind.gl.ofDocument book.store (company, (LedgerKind.gl.stamp row).voucherType, no) =
          source.commit.glEntries := howned.submitted_rows hsource hposts hcancelled .gl
      rw [hown]
      obtain ⟨-, -, hbuild⟩ := System.journal_faithful codec (pgBackend pg codec) events source hsource
      exact Command.build_balanced hbuild hposts.notCancel

end AtlasTeam
