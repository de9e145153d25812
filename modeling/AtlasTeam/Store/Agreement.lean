import AtlasTeam.Store.Ledgers
import AtlasTeam.Store.Pg

/-!
# One commit on both stores

The in-memory store and the tables are related (`SameStores`) when they hold the same, but for the
numbers of the stock rows: the one counts them by company, the other over all companies. A commit does
the same to both as long as the two read the stored payloads alike (`ReadsAlike`) and the tables take
what it inserts under their keys (`WritesAlike`); of a build both are asked, and no more than that it
fits the state it meets (`Fits`).
-/

namespace AtlasTeam

/-! ### Related states -/

/-- The numbers of the rows rise and end at `last`. -/
structure Rising (last : Int) (rows : List StockLedgerEntry) : Prop where
  rises : (rows.map StockLedgerEntry.seq).Pairwise (· < ·)
  bounded : ∀ row ∈ rows, row.seq ≤ last

theorem Rising.mono {last last' : Int} {rows : List StockLedgerEntry} (h : Rising last rows)
    (hle : last ≤ last') : Rising last' rows :=
  ⟨h.rises, fun row hrow => (h.bounded row hrow).trans hle⟩

/-- Rows that are numbered on. -/
theorem Rising.sequenceFrom {last : Int} {rows : List StockLedgerEntry} (h : Rising last rows)
    (sles : List StockLedgerEntry) :
    Rising (last + sles.length) (rows ++ Inner.sequenceFrom last sles) := by
  induction sles generalizing last rows with
  | nil => simpa [Inner.sequenceFrom] using h
  | cons sle sles ih =>
    have hnext : Rising (last + 1) (rows ++ [{ sle with seq := last + 1 }]) := by
      constructor
      · rw [List.map_append, List.pairwise_append]
        refine ⟨h.rises, List.pairwise_singleton _ _, fun a ha b hb => ?_⟩
        obtain ⟨row, hrow, rfl⟩ := List.mem_map.1 ha
        have hle := h.bounded row hrow
        obtain rfl : b = last + 1 := by simpa using hb
        omega
      · intro row hrow
        rcases List.mem_append.1 hrow with hrow | hrow
        · exact (h.bounded row hrow).trans (by omega)
        · rw [List.mem_singleton.1 hrow]
    have hall := ih hnext
    rw [List.append_assoc, List.singleton_append] at hall
    refine hall.mono ?_
    rw [List.length_cons]
    push_cast
    omega

structure SameStores (mem : Inner) (tables : PgTables) : Prop where
  /-- All but the stock rows is the same. -/
  others : tables.toInner =
    { mem with stockLedger := tables.stockLedger, sleSeq := tables.sleSeq }
  /-- So are the stock rows, in their order, -/
  stock : ∀ company, (tables.stockLedger.log company).map StockLedgerEntry.unsequenced =
    (mem.stockLedger.log company).map StockLedgerEntry.unsequenced
  /-- which is that of their numbers in both. -/
  memRising : ∀ company,
    Rising ((AList.lookup company mem.sleSeq).getD 0) (mem.stockLedger.log company)
  pgRising : ∀ company, Rising tables.stockIdentity (tables.stockLedger.log company)

theorem sameStores_fresh : SameStores {} {} where
  others := rfl
  stock _ := rfl
  memRising _ := ⟨List.Pairwise.nil, fun _ h => absurd h List.not_mem_nil⟩
  pgRising _ := ⟨List.Pairwise.nil, fun _ h => absurd h List.not_mem_nil⟩

theorem SameStores.documents {mem : Inner} {tables : PgTables} (h : SameStores mem tables) :
    tables.documents = mem.documents := by
  rw [h.others]

/-- The rows of a ledger have the same ids in both. -/
theorem SameStores.rowIds {mem : Inner} {tables : PgTables} (h : SameStores mem tables)
    (kind : LedgerKind) (company : Uuid) :
    (kind.held tables.toInner company).map kind.rowId =
      (kind.held mem company).map kind.rowId := by
  cases kind with
  | stock =>
    have hids : ∀ sles : List StockLedgerEntry, sles.map StockLedgerEntry.id =
        (sles.map StockLedgerEntry.unsequenced).map StockLedgerEntry.id := by
      intro sles
      rw [List.map_map]
      rfl
    show (tables.stockLedger.log company).map StockLedgerEntry.id =
      (mem.stockLedger.log company).map StockLedgerEntry.id
    rw [hids, h.stock, ← hids]
  | _ => rw [h.others]; rfl

/-! ### What is asked of a commit -/

/-- The two stores read the payloads of the stored documents alike. -/
structure ReadsAlike (pg : Postgres) (commit : PostingCommit) (inner : Inner) : Prop where
  /-- A Payment Entry applies the guarded deposit to both. -/
  deposit : ∀ guard ∈ commit.depositGuard, ∀ e ∈ inner.documents.entries,
    e.1.1 = commit.companyId → e.1.2.1 = "Payment Entry" →
      (pg.text e.2.payload "deposit" = some guard.depositId ↔
        ((e.2.payload.get "deposit").bind Value.asStr).map trim = some guard.depositId)
  /-- A document binds the till series to another device for both. -/
  till : ∀ binding ∈ commit.tillBinding, ∀ e ∈ inner.documents.entries,
    e.1.1 = commit.companyId → e.1.2.1 = commit.document.doctype →
      ((pg.text e.2.payload "till_series" = some binding.1 ∧
          ∃ device ∈ pg.text e.2.payload "till_device", device ≠ binding.2) ↔
        (e.2.payload.get "till_series").bind Value.asStr = some binding.1 ∧
          ∃ device ∈ (e.2.payload.get "till_device").bind Value.asStr, device ≠ binding.2)

/-- The tables take what the commit writes, and as it is. -/
structure WritesAlike (pg : Postgres) (commit : PostingCommit) (inner : Inner) : Prop where
  batch : AList.lookup (commit.companyId, commit.batch.id) inner.batches = none
  rows : ∀ kind : LedgerKind, ∀ row ∈ kind.rows commit,
    kind.rowId row ∉ (kind.held inner commit.companyId).map kind.rowId
  /-- The next number of the series is not held by a document of the doctype. -/
  number : ∀ key ∈ commit.seriesKey, ∀ e ∈ inner.documents.entries,
    e.1.1 = commit.companyId → e.1.2.1 = commit.document.doctype →
      e.2.officialNumber ≠
        some (formatNumber key (inner.series.counter commit.companyId key + 1))
  /-- The outstanding amounts read back as they were written. -/
  doubles : ∀ update ∈ commit.outstandingUpdates,
    pg.floatJson update.2.2 = .num update.2.2

/-- A commit that is no replay is read alike, and written alike if it passes the checks. -/
structure Clear (pg : Postgres) (commit : PostingCommit) (inner : Inner) : Prop where
  reads : inner.replayed commit = none → ReadsAlike pg commit inner
  writes : inner.replayed commit = none → inner.checkCommit commit = .ok () →
    WritesAlike pg commit inner

instance {P : LedgerKind → Prop} [DecidablePred P] : Decidable (∀ kind, P kind) :=
  decidable_of_iff (∀ kind ∈ [LedgerKind.gl, .stock, .party, .tax, .settlement], P kind)
    ⟨fun h kind => h kind (by cases kind <;> decide), fun h kind _ => h kind⟩

theorem Value.null_ne_number (n : Number) : Value.null ≠ .number n := by
  intro h
  cases h

instance (v : Value) (n : Number) : Decidable (v = .number n) :=
  match v with
  | .number m => decidable_of_iff (m = n) ⟨congrArg Value.number, Value.number.inj⟩
  | .null => .isFalse (Value.null_ne_number n)
  | .bool _ | .string _ | .array _ | .object _ => .isFalse (fun h => nomatch h)

instance (v : Value) (q : ℚ) : Decidable (v = .num q) := inferInstanceAs (Decidable (v = .number _))

instance (pg : Postgres) (commit : PostingCommit) (inner : Inner) :
    Decidable (ReadsAlike pg commit inner) :=
  decidable_of_iff (_ ∧ _) ⟨fun ⟨deposit, till⟩ => ⟨deposit, till⟩, fun h => ⟨h.deposit, h.till⟩⟩

instance (pg : Postgres) (commit : PostingCommit) (inner : Inner) :
    Decidable (WritesAlike pg commit inner) :=
  decidable_of_iff (_ ∧ _ ∧ _ ∧ _)
    ⟨fun ⟨batch, rows, number, doubles⟩ => ⟨batch, rows, number, doubles⟩,
      fun h => ⟨h.batch, h.rows, h.number, h.doubles⟩⟩

instance (pg : Postgres) (commit : PostingCommit) (inner : Inner) :
    Decidable (Clear pg commit inner) :=
  decidable_of_iff (_ ∧ _) ⟨fun ⟨reads, writes⟩ => ⟨reads, writes⟩, fun h => ⟨h.reads, h.writes⟩⟩

/-- What a build ensures of the state its commit meets. -/
structure Fits (commit : PostingCommit) (inner : Inner) : Prop where
  rowIds : ∀ kind : LedgerKind, ((kind.rows commit).map kind.rowId).Nodup
  storedIds : ∀ kind : LedgerKind, ((kind.held inner commit.companyId).map kind.rowId).Nodup
  updates : (commit.outstandingUpdates.map updateKey).Nodup
  /-- A new document gets its number from the commit. -/
  unnumbered : commit.documentIsNew = true → commit.document.officialNumber = none
  /-- A cancelled document is the stored one up to its payload and docstatus. -/
  kept : commit.documentIsNew = false → ∀ existing,
    AList.lookup (Inner.docKey commit) inner.documents = some existing →
      Inner.numberedDocument commit inner = { existing with
        payload := commit.document.payload
        docstatus := commit.document.docstatus }

/-! ### The checks -/

section Checks
variable {pg : Postgres} {commit : PostingCommit} {mem : Inner} {tables : PgTables}

theorem SameStores.pairCount (h : SameStores mem tables) (company : Uuid) (item warehouse : String) :
    tables.pairCount company item warehouse = mem.pairCount company item warehouse := by
  have hcount : ∀ sles : List StockLedgerEntry,
      (sles.filter fun sle => sle.item = item && sle.warehouse = warehouse).length =
        ((sles.map StockLedgerEntry.unsequenced).filter fun sle =>
          sle.item = item && sle.warehouse = warehouse).length := by
    intro sles
    rw [List.filter_map, List.length_map]
    rfl
  rw [Inner.pairCount, Inner.pairCount, hcount, h.stock, ← hcount]

/-- A stored document by its entry. -/
theorem lookup_of_mem_entries {documents : Documents}
    {e : Sigma fun _ : Uuid × String × String => PostedDocument} (he : e ∈ documents.entries)
    {company : Uuid} {doctype : String} (hcompany : e.1.1 = company) (hdoctype : e.1.2.1 = doctype) :
    AList.lookup (company, doctype, e.1.2.2) documents = some e.2 := by
  subst hcompany hdoctype
  exact AList.mem_lookup_iff.2 he

/-- The guard finds the same payments. -/
theorem SameStores.checkDeposit (h : SameStores mem tables) (hreads : ReadsAlike pg commit mem) :
    tables.checkDeposit pg commit = mem.checkDeposit commit := by
  unfold PgTables.checkDeposit Inner.checkDeposit
  cases hguard : commit.depositGuard with
  | none => rfl
  | some guard =>
    have hfound : tables.paymentsWithDeposit pg commit.companyId
          (fun deposit => deposit = some guard.depositId) =
        mem.depositApplications commit.companyId guard.depositId := by
      rw [PgTables.paymentsWithDeposit, Inner.depositApplications, h.documents]
      congr 1
      refine List.filter_congr fun e he => ?_
      by_cases hkey : e.1.1 = commit.companyId ∧ e.1.2.1 = "Payment Entry"
      · have hread := hreads.deposit guard hguard e he hkey.1 hkey.2
        simp only [hread]
      · rw [not_and_or] at hkey
        rcases hkey with hkey | hkey <;> simp [hkey]
    have hviolation := congrArg₂ (depositGuardViolation guard)
      (congrArg (AList.lookup (commit.companyId, "Customer Deposit", guard.depositId)) h.documents)
      hfound
    cases hmem : depositGuardViolation guard
        (AList.lookup (commit.companyId, "Customer Deposit", guard.depositId) mem.documents)
        (mem.depositApplications commit.companyId guard.depositId) with
    | none => simp only [hviolation, hmem]
    | some reason => simp only [hviolation, hmem]

/-- The till check finds the same documents. -/
theorem SameStores.checkTill (h : SameStores mem tables) (hreads : ReadsAlike pg commit mem) :
    tables.checkTill pg commit = mem.checkTill commit := by
  unfold PgTables.checkTill Inner.checkTill
  cases hbinding : commit.tillBinding with
  | none => rfl
  | some binding =>
    obtain ⟨series, device⟩ := binding
    have hany : (mem.documents.entries.any fun e =>
          e.1.1 = commit.companyId && e.1.2.1 = commit.document.doctype &&
            pg.text e.2.payload "till_series" = some series &&
            ((pg.text e.2.payload "till_device").any fun d => d ≠ device)) =
        mem.documents.entries.any fun e =>
          e.1.1 = commit.companyId && e.1.2.1 = commit.document.doctype &&
            (e.2.payload.get "till_series").bind Value.asStr = some series &&
            (((e.2.payload.get "till_device").bind Value.asStr).any fun d => d ≠ device) := by
      rw [Bool.eq_iff_iff, List.any_eq_true, List.any_eq_true]
      refine exists_congr fun e => and_congr_right fun he => ?_
      by_cases hkey : e.1.1 = commit.companyId ∧ e.1.2.1 = commit.document.doctype
      · have hread := hreads.till (series, device) hbinding e he hkey.1 hkey.2
        simpa [hkey.1, hkey.2, Option.any_eq_true] using hread
      · rw [not_and_or] at hkey
        rcases hkey with hkey | hkey <;> simp [hkey]
    simp only [h.documents, hany]

/-- The checks come out the same. -/
theorem SameStores.checkCommit (h : SameStores mem tables) (hreads : ReadsAlike pg commit mem) :
    tables.checkCommit pg commit = mem.checkCommit commit := by
  have hexpectations : tables.checkExpectations commit = mem.checkExpectations commit := by
    simp only [Inner.checkExpectations, h.pairCount]
  have hlock : tables.checkLock commit = mem.checkLock commit := by rw [h.others]; rfl
  have hsolo : tables.checkSolo commit = mem.checkSolo commit := by rw [h.others]; rfl
  have hdocument : tables.checkDocument commit = mem.checkDocument commit := by rw [h.others]; rfl
  have hpre : tables.checkPreassigned commit = mem.checkPreassigned commit := by rw [h.others]; rfl
  rw [PgTables.checkCommit, Inner.checkCommit, hlock, h.checkDeposit hreads, hsolo, hexpectations,
    hdocument, hpre, h.checkTill hreads]

end Checks

/-! ### The writes -/

section Writes

theorem foldlM_insertRow_of_free {α : Type} {table : String} {id : α → String} {rows stored : List α}
    (hfree : ((stored ++ rows).map id).Nodup) :
    rows.foldlM (PgTables.insertRow table id) stored = .ok (stored ++ rows) := by
  induction rows generalizing stored with
  | nil =>
    rw [List.append_nil]
    rfl
  | cons row rows ih =>
    have hnew : id row ∉ stored.map id := by
      rw [List.map_append, List.nodup_append] at hfree
      exact fun hmem => hfree.2.2 _ hmem _ List.mem_cons_self rfl
    have hrest : ((stored ++ [row] ++ rows).map id).Nodup := by
      rw [List.append_assoc, List.singleton_append]
      exact hfree
    have hinsert : PgTables.insertRow table id stored row = .ok (stored ++ [row]) := by
      rw [PgTables.insertRow, if_neg hnew]
    rw [List.foldlM_cons, hinsert]
    exact (ih hrest).trans (by rw [List.append_assoc, List.singleton_append])

/-- Inserts under free keys go through. -/
theorem insertRows_of_free {α : Type} {table : String} {id : α → String} {company : Uuid}
    {rows : List α} {stored : Table Uuid (List α)}
    (hfree : (((stored.log company) ++ rows).map id).Nodup) :
    PgTables.insertRows table id company rows stored = .ok (stored.extend company rows) := by
  rw [PgTables.insertRows, foldlM_insertRow_of_free hfree]
  rfl

theorem nodup_append_of_free {α : Type} {id : α → String} {stored rows : List α}
    (hstored : (stored.map id).Nodup) (hrows : (rows.map id).Nodup)
    (hfree : ∀ row ∈ rows, id row ∉ stored.map id) : ((stored ++ rows).map id).Nodup := by
  rw [List.map_append, List.nodup_append]
  refine ⟨hstored, hrows, fun a ha b hb heq => ?_⟩
  obtain ⟨row, hrow, rfl⟩ := List.mem_map.1 hb
  exact hfree row hrow (heq ▸ ha)

/-- Replication does not look at the numbers of stock rows. -/
theorem replicationMutations_sequenceFrom (codec : Codec) (nowMs : DateTime)
    (src : ReplicationSources) (seq : Int) :
    replicationMutations codec nowMs
        { src with stockLedgerEntries := Inner.sequenceFrom seq src.stockLedgerEntries } =
      replicationMutations codec nowMs src := by
  have hmap : ∀ (f : StockLedgerEntry → Except String MutationRecord),
      (∀ sle n, f { sle with seq := n } = f sle) → ∀ (sles : List StockLedgerEntry) (seq : Int),
        (Inner.sequenceFrom seq sles).mapM f = sles.mapM f := by
    intro f hf sles
    induction sles with
    | nil => exact fun _ => rfl
    | cons sle sles ih =>
      intro seq
      rw [Inner.sequenceFrom, List.mapM_cons, List.mapM_cons, hf, ih]
  have hrows := hmap (fun sle => replicationRecord codec src nowMs ("postmut-" ++ sle.id)
    .createDocument "Stock Ledger Entry" sle.id 0 sle.rowFields) (fun _ _ => rfl)
    src.stockLedgerEntries seq
  simp only [replicationMutations]
  rw [show ∀ sles : List StockLedgerEntry, (sles.mapM fun sle => replicationRecord codec
      { src with stockLedgerEntries := Inner.sequenceFrom seq src.stockLedgerEntries } nowMs
      ("postmut-" ++ sle.id) .createDocument "Stock Ledger Entry" sle.id 0 sle.rowFields) =
    sles.mapM fun sle => replicationRecord codec src nowMs ("postmut-" ++ sle.id) .createDocument
      "Stock Ledger Entry" sle.id 0 sle.rowFields from fun _ => rfl, hrows]
  rfl

/-- A new document's number is held by no other. -/
theorem numberedDocument_free {pg : Postgres} {commit : PostingCommit} {mem : Inner}
    (hfits : Fits commit mem) (hwrites : WritesAlike pg commit mem)
    (hpassed : Inner.Passed commit mem) (hnew : commit.documentIsNew = true)
    {e : Sigma fun _ : Uuid × String × String => PostedDocument} (he : e ∈ mem.documents.entries)
    (hcompany : e.1.1 = commit.companyId) (hdoctype : e.1.2.1 = commit.document.doctype)
    (hsome : e.2.officialNumber.isSome = true) :
    e.2.officialNumber ≠ (Inner.numberedDocument commit mem).officialNumber := by
  intro heq
  cases hkey : commit.seriesKey with
  | some key =>
    refine hwrites.number key hkey e he hcompany hdoctype (heq.trans ?_)
    cases hpre : commit.preassignedNumber <;>
      simp [Inner.numberedDocument, Inner.allocateNumber, Inner.stampNumber, hkey, hpre]
  | none =>
    cases hpre : commit.preassignedNumber with
    | some number =>
      refine hpassed.untaken hpre (lookup_of_mem_entries he hcompany hdoctype) (heq.trans ?_)
      simp [Inner.numberedDocument, Inner.allocateNumber, Inner.stampNumber, hkey, hpre]
    | none =>
      have hnone : (Inner.numberedDocument commit mem).officialNumber = none := by
        simp [Inner.numberedDocument, Inner.allocateNumber, hkey, hpre, hfits.unnumbered hnew]
      rw [heq, hnone] at hsome
      cases hsome

/-- The tables take the document, and what stands under its key is what the in-memory store has. -/
theorem writeDocument_alike {pg : Postgres} {commit : PostingCommit} {mem : Inner}
    (hfits : Fits commit mem) (hwrites : WritesAlike pg commit mem)
    (hpassed : Inner.Passed commit mem) :
    PgTables.writeDocument commit (Inner.numberedDocument commit mem) mem.documents =
      .ok (AList.insert (Inner.docKey commit) (Inner.numberedDocument commit mem) mem.documents) := by
  have hdoctype : (Inner.numberedDocument commit mem).doctype = commit.document.doctype := by
    rw [Inner.numberedDocument_eq]
  have hkey : (commit.companyId, (Inner.numberedDocument commit mem).doctype,
      (Inner.numberedDocument commit mem).id) = Inner.docKey commit := by
    rw [Inner.numberedDocument_eq]
    rfl
  rw [PgTables.writeDocument, hkey]
  cases hnew : commit.documentIsNew with
  | true =>
    rw [if_pos rfl, if_neg]
    simp only [List.any_eq_true, Bool.and_eq_true, decide_eq_true_eq, not_exists, not_and]
    rintro e he ⟨⟨hcompany, hsameType⟩, hsome⟩ heq
    exact numberedDocument_free hfits hwrites hpassed hnew he hcompany (hsameType.trans hdoctype)
      hsome heq
  | false =>
    obtain ⟨existing, hexisting, -⟩ := hpassed.submitted hnew
    have hkept := hfits.kept hnew existing hexisting
    have hpayload : (Inner.numberedDocument commit mem).payload = commit.document.payload :=
      Inner.numberedDocument_payload commit mem
    have hstatus : (Inner.numberedDocument commit mem).docstatus = commit.document.docstatus := by
      rw [Inner.numberedDocument_eq]
    simp only [hexisting, hpayload, hstatus, Bool.false_eq_true, if_false]
    rw [← hkept]

/-- The outstanding amounts are written alike. -/
theorem writeOutstandings_alike {pg : Postgres} {company : Uuid}
    {updates : List (String × String × ℚ)}
    (hdoubles : ∀ update ∈ updates, pg.floatJson update.2.2 = .num update.2.2)
    (acc : List PostedDocument × Documents) :
    updates.foldl (PgTables.writeOutstanding pg company) acc.2 =
      (updates.foldl (Inner.writeOutstanding company) acc).2 := by
  induction updates generalizing acc with
  | nil => rfl
  | cons update updates ih =>
    obtain ⟨hfirst, hrest⟩ := List.forall_mem_cons.1 hdoubles
    rw [List.foldl_cons, List.foldl_cons, ← ih hrest]
    congr 1
    obtain ⟨touched, documents⟩ := acc
    obtain ⟨doctype, id, outstanding⟩ := update
    have hdouble : pg.floatJson outstanding = .num outstanding := hfirst
    simp only [PgTables.writeOutstanding, Inner.writeOutstanding, hdouble]
    cases AList.lookup (company, doctype, id) documents <;> rfl

end Writes

/-! ### The commit -/

section Commit
variable {pg : Postgres} {codec : Codec} {env : Env} {commit : PostingCommit} {mem : Inner}
  {tables : PgTables}

theorem SameStores.replayed (h : SameStores mem tables) :
    tables.replayed commit = mem.replayed commit := by
  rw [h.others]
  rfl

/-- The rows of a ledger go in. -/
theorem SameStores.rows_free (h : SameStores mem tables) (hfits : Fits commit mem)
    (hwrites : WritesAlike pg commit mem) (kind : LedgerKind) {rows : List kind.Row}
    (hrows : rows.map kind.rowId = (kind.rows commit).map kind.rowId) :
    ((kind.held tables.toInner commit.companyId ++ rows).map kind.rowId).Nodup := by
  have hfree := nodup_append_of_free (hfits.storedIds kind) (hfits.rowIds kind) (hwrites.rows kind)
  rwa [List.map_append, ← hrows, ← h.rowIds, ← List.map_append] at hfree

/-- Stock rows that are numbered on in both stores. -/
theorem stock_extended {company : Uuid} {commit : PostingCommit} {memLog pgLog : Table Uuid (List StockLedgerEntry)}
    (h : (pgLog.log company).map StockLedgerEntry.unsequenced =
      (memLog.log company).map StockLedgerEntry.unsequenced) (seq seq' : Int) :
    ((pgLog.extend commit.companyId (Inner.sequenceFrom seq' commit.stockLedgerEntries)).log
        company).map StockLedgerEntry.unsequenced =
      ((memLog.extend commit.companyId (Inner.sequenceFrom seq commit.stockLedgerEntries)).log
        company).map StockLedgerEntry.unsequenced := by
  by_cases hcompany : company = commit.companyId
  · subst hcompany
    rw [Table.log_extend_self, Table.log_extend_self, List.map_append, List.map_append, h,
      sequenceFrom_unsequenced, sequenceFrom_unsequenced]
  · rw [Table.log_extend_ne _ hcompany, Table.log_extend_ne _ hcompany, h]

/-- The in-memory store numbers on from the company's last number. -/
theorem memRising_extended {company : Uuid} {last : Table Uuid Int}
    {log : Table Uuid (List StockLedgerEntry)}
    (h : Rising ((AList.lookup company last).getD 0) (log.log company)) :
    let rows := Inner.sequenceFrom ((AList.lookup commit.companyId last).getD 0)
      commit.stockLedgerEntries
    Rising ((AList.lookup company (AList.insert commit.companyId
        ((AList.lookup commit.companyId last).getD 0 + rows.length) last)).getD 0)
      ((log.extend commit.companyId rows).log company) := by
  intro rows
  by_cases hcompany : company = commit.companyId
  · subst hcompany
    have hlength : rows.length = commit.stockLedgerEntries.length := by
      simpa using congrArg List.length (Inner.sequenceFrom_ids _ commit.stockLedgerEntries)
    rw [AList.lookup_insert, Option.getD_some, Table.log_extend_self, hlength]
    exact h.sequenceFrom _
  · rw [AList.lookup_insert_ne hcompany, Table.log_extend_ne _ hcompany]
    exact h

/-- The tables number on from the last number of all companies. -/
theorem pgRising_extended {company : Uuid} {identity : Int}
    {log : Table Uuid (List StockLedgerEntry)} (h : Rising identity (log.log company)) :
    Rising (identity + commit.stockLedgerEntries.length)
      ((log.extend commit.companyId
        (Inner.sequenceFrom identity commit.stockLedgerEntries)).log company) := by
  by_cases hcompany : company = commit.companyId
  · subst hcompany
    rw [Table.log_extend_self]
    exact h.sequenceFrom _
  · rw [Table.log_extend_ne _ hcompany]
    exact h.mono (by omega)

/-- The same is replicated of a commit from both. -/
theorem replicated_alike (hfits : Fits commit mem) (hwrites : WritesAlike pg commit mem)
    (nowMs : DateTime) (document : PostedDocument) (seq : Int) (documents : Documents) :
    replicationMutations codec nowMs
        (Inner.replicationSources commit document commit.stockLedgerEntries
          (commit.outstandingUpdates.filterMap fun (doctype, id, _) =>
            AList.lookup (commit.companyId, doctype, id)
              (commit.outstandingUpdates.foldl (PgTables.writeOutstanding pg commit.companyId)
                documents))) =
      replicationMutations codec nowMs
        (Inner.replicationSources commit document
          (Inner.sequenceFrom seq commit.stockLedgerEntries)
          (Inner.writeOutstandings commit.companyId commit.outstandingUpdates documents).1) := by
  have htouched := @touched_read_again commit.companyId _ hfits.updates ([], documents)
  rw [List.nil_append, ← writeOutstandings_alike hwrites.doubles ([], documents)] at htouched
  rw [Inner.writeOutstandings, htouched]
  exact (replicationMutations_sequenceFrom codec nowMs _ seq).symm

variable (codec env) in
/-- A commit that passes the checks is written to both. -/
theorem SameStores.write (h : SameStores mem tables) (hfits : Fits commit mem)
    (hreplay : mem.replayed commit = none) (hcheck : mem.checkCommit commit = .ok ())
    (hreads : ReadsAlike pg commit mem) (hwrites : WritesAlike pg commit mem) :
    ∃ tables', tables.write pg codec env commit =
        .ok (Inner.numberedResponse commit mem, tables') ∧
      SameStores (mem.postingCommit codec env commit).2 tables' := by
  have hpassed := Inner.passed_of_checkCommit hcheck
  have hchecked := h.checkCommit hreads
  rw [hcheck] at hchecked
  have hdocument := writeDocument_alike hfits hwrites hpassed
  have hgl : PgTables.insertRows "gl_entries" GlEntry.id commit.companyId commit.glEntries
      tables.glEntries = .ok (tables.glEntries.extend commit.companyId commit.glEntries) :=
    insertRows_of_free (h.rows_free hfits hwrites .gl rfl)
  have hstock : PgTables.insertRows "stock_ledger_entries" StockLedgerEntry.id commit.companyId
      (Inner.sequenceFrom tables.stockIdentity commit.stockLedgerEntries) tables.stockLedger =
        .ok (tables.stockLedger.extend commit.companyId
          (Inner.sequenceFrom tables.stockIdentity commit.stockLedgerEntries)) :=
    insertRows_of_free (h.rows_free hfits hwrites .stock (Inner.sequenceFrom_ids _ _))
  have hparty : PgTables.insertRows "party_transactions" PartyTransaction.id commit.companyId
      commit.partyTransactions tables.partyTransactions =
        .ok (tables.partyTransactions.extend commit.companyId commit.partyTransactions) :=
    insertRows_of_free (h.rows_free hfits hwrites .party rfl)
  have htax : PgTables.insertRows "tax_transactions" TaxTransaction.id commit.companyId
      commit.taxTransactions tables.taxTransactions =
        .ok (tables.taxTransactions.extend commit.companyId commit.taxTransactions) :=
    insertRows_of_free (h.rows_free hfits hwrites .tax rfl)
  have hsettlements : PgTables.insertRows "settlements" Settlement.id commit.companyId
      commit.settlements tables.settlements =
        .ok (tables.settlements.extend commit.companyId commit.settlements) :=
    insertRows_of_free (h.rows_free hfits hwrites .settlement rfl)
  have hbatch : PgTables.insertBatch commit mem.batches =
      .ok (AList.insert (commit.companyId, commit.batch.id) commit.batch mem.batches) := by
    simp only [PgTables.insertBatch, hwrites.batch]
  obtain ⟨stockLedger, sleSeq, identity, rfl⟩ : ∃ stockLedger sleSeq identity,
      tables = { toInner := { mem with stockLedger, sleSeq }, stockIdentity := identity } :=
    ⟨tables.stockLedger, tables.sleSeq, tables.stockIdentity, by rw [← h.others]⟩
  rcases halloc : Inner.allocateNumber commit mem.series with ⟨⟨document, response⟩, series⟩
  have hdoc : Inner.numberedDocument commit mem = document := by
    rw [Inner.numberedDocument, halloc]
  have hresponse : Inner.numberedResponse commit mem = response := by
    rw [Inner.numberedResponse, halloc]
  rw [hdoc] at hdocument
  obtain ⟨records, hrecords⟩ := replicationMutations_ok codec env.now
    (Inner.replicationSources commit document
      (Inner.sequenceFrom ((AList.lookup commit.companyId mem.sleSeq).getD 0)
        commit.stockLedgerEntries)
      (Inner.writeOutstandings commit.companyId commit.outstandingUpdates
        (AList.insert (Inner.docKey commit) document mem.documents)).1)
  have hpgRecords := (replicated_alike hfits hwrites env.now document _ _).trans hrecords
  simp only [PgTables.write, hchecked, halloc, hdocument, hgl, hstock, hparty, htax, hsettlements,
    hpgRecords, hbatch, bind, Except.bind, Except.mapError, pure, Except.pure, hresponse]
  refine ⟨_, rfl, ?_⟩
  simp only [Inner.postingCommit, hreplay, hcheck, halloc, hrecords]
  refine ⟨?_, fun company => ?_, fun company => ?_, fun company => ?_⟩
  · have hwritten : commit.outstandingUpdates.foldl (PgTables.writeOutstanding pg commit.companyId)
          (AList.insert (Inner.docKey commit) document mem.documents) =
        (Inner.writeOutstandings commit.companyId commit.outstandingUpdates
          (AList.insert (Inner.docKey commit) document mem.documents)).2 :=
      writeOutstandings_alike hwrites.doubles ([], _)
    rw [hwritten]
    rfl
  · exact stock_extended (h.stock company) _ _
  · exact memRising_extended (h.memRising company)
  · exact pgRising_extended (h.pgRising company)

variable (codec env) in
/-- Both stores answer a commit alike, and are left alike. -/
theorem SameStores.postingCommit (h : SameStores mem tables)
    (hfits : mem.checkCommit commit = .ok () → Fits commit mem) (hclear : Clear pg commit mem) :
    (tables.postingCommit pg codec env commit).1 = (mem.postingCommit codec env commit).1 ∧
      SameStores (mem.postingCommit codec env commit).2
        (tables.postingCommit pg codec env commit).2 := by
  rcases Inner.postingCommit_cases codec env commit mem with
    ⟨response, hreplay, hrun⟩ | ⟨e, hreplay, hcheck, hrun⟩ | ⟨hreplay, hcheck, inner', -, hrun⟩
  · rw [hrun, PgTables.postingCommit, h.replayed, hreplay]
    exact ⟨rfl, h⟩
  · have hchecked := h.checkCommit (hclear.reads hreplay)
    have hwrite : tables.write pg codec env commit = .error e := by
      rw [PgTables.write, hchecked, hcheck]
      rfl
    rw [hrun]
    simp only [PgTables.postingCommit, h.replayed, hreplay, hwrite]
    exact ⟨trivial, h⟩
  · obtain ⟨tables', hwrite, hsame⟩ := h.write codec env (hfits hcheck) hreplay hcheck
      (hclear.reads hreplay) (hclear.writes hreplay hcheck)
    simp only [PgTables.postingCommit, h.replayed, hreplay, hwrite]
    exact ⟨(congrArg Prod.fst hrun).symm, hsame⟩

end Commit

/-! ### The other operations -/

/-- No other operation reads or writes the stock rows. -/
theorem operate_withStock (codec : Codec) (env : Env) (op : MemOp) (inner : Inner)
    (stockLedger : Table Uuid (List StockLedgerEntry)) (sleSeq : Table Uuid Int) :
    (memBackend codec).operate env op { inner with stockLedger, sleSeq } =
      { (memBackend codec).operate env op inner with stockLedger, sleSeq } := by
  cases op with
  | lostHistory company report audit =>
    simp only [memBackend, Inner.recordLostHistory]
    cases AList.lookup (company, report.recoveryId) inner.historyRecoveries <;> rfl
  | setBooksLock company change =>
    have hsettings : Inner.companySettings { inner with stockLedger, sleSeq } company =
        inner.companySettings company := rfl
    simp only [memBackend, Inner.setBooksLock, hsettings]
    by_cases hsame : (inner.companySettings company).booksLockDate = change.lockDate
    · simp only [if_pos hsame]
    · by_cases hmoved : (inner.companySettings company).booksLockDate ≠ change.expectedCurrent
      · simp only [if_neg hsame, if_pos hmoved]
      · simp only [if_neg hsame, if_neg hmoved]
  | _ => rfl

/-- The other operations do the same to both. -/
theorem SameStores.operate {mem : Inner} {tables : PgTables} (h : SameStores mem tables)
    (pg : Postgres) (codec : Codec) (env : Env) (op : MemOp) :
    SameStores ((memBackend codec).operate env op mem)
      ((pgBackend pg codec).operate env op tables) := by
  have hframe := operate_frame codec env op mem
  have htables : (memBackend codec).operate env op tables.toInner =
      { (memBackend codec).operate env op mem with
        stockLedger := tables.stockLedger, sleSeq := tables.sleSeq } := by
    rw [h.others]
    exact operate_withStock codec env op mem tables.stockLedger tables.sleSeq
  refine ⟨?_, ?_, ?_, ?_⟩
  · show (memBackend codec).operate env op tables.toInner = _
    simp only [pgBackend, htables]
  · simp only [pgBackend, htables, hframe.stockLedger]
    exact h.stock
  · simp only [hframe.stockLedger, hframe.sleSeq]
    exact h.memRising
  · simp only [pgBackend, htables]
    exact h.pgRising

end AtlasTeam
