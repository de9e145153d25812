import AtlasTeam.Posting.Engine
import AtlasTeam.Store.Mem
import AtlasTeam.Store.Serde

/-!
# What a commit does to the in-memory store

`postingCommit_cases` says once what running a commit can do: it replays and changes nothing, it is
refused by a check and changes nothing, or it is applied and the tables become what `Applied` says.
Everything later is derived from it.
-/

namespace AtlasTeam

/-- A stock row without its identity value. -/
def StockLedgerEntry.unsequenced (sle : StockLedgerEntry) : StockLedgerEntry := { sle with seq := 0 }

theorem sequenceFrom_unsequenced (seq : Int) (sles : List StockLedgerEntry) :
    (Inner.sequenceFrom seq sles).map StockLedgerEntry.unsequenced =
      sles.map StockLedgerEntry.unsequenced := by
  induction sles generalizing seq with
  | nil => rfl
  | cons sle sles ih =>
    rw [Inner.sequenceFrom, List.map_cons, List.map_cons, ih]
    rfl

namespace Inner

/-- The numbered document of a commit on `inner`. -/
def numberedDocument (commit : PostingCommit) (inner : Inner) : PostedDocument :=
  (allocateNumber commit inner.series).1.1

/-- The response of a commit on `inner`. -/
def numberedResponse (commit : PostingCommit) (inner : Inner) : Value :=
  (allocateNumber commit inner.series).1.2

/-- The stock rows of a commit on `inner`, sequenced. -/
def sequencedRows (commit : PostingCommit) (inner : Inner) : List StockLedgerEntry :=
  sequenceFrom ((AList.lookup commit.companyId inner.sleSeq).getD 0) commit.stockLedgerEntries

/-- The documents after a commit on `inner`. -/
def writtenDocuments (commit : PostingCommit) (inner : Inner) : Documents :=
  (writeOutstandings commit.companyId commit.outstandingUpdates
    (AList.insert (docKey commit) (numberedDocument commit inner) inner.documents)).2

/-- `inner'` is `inner` after the writes of `commit`; the sync log is not constrained. -/
structure Applied (commit : PostingCommit) (inner inner' : Inner) : Prop where
  historyRecoveries : inner'.historyRecoveries = inner.historyRecoveries
  settings : inner'.settings = inner.settings
  items : inner'.items = inner.items
  series : inner'.series =
    raiseFloors commit.companyId commit.numberingFloors (allocateNumber commit inner.series).2
  soloMigrations : inner'.soloMigrations = markSolo commit inner.soloMigrations
  documents : inner'.documents = writtenDocuments commit inner
  sleSeq : inner'.sleSeq = AList.insert commit.companyId
    ((AList.lookup commit.companyId inner.sleSeq).getD 0 + (sequencedRows commit inner).length)
    inner.sleSeq
  glEntries : inner'.glEntries = inner.glEntries.extend commit.companyId commit.glEntries
  stockLedger : inner'.stockLedger =
    inner.stockLedger.extend commit.companyId (sequencedRows commit inner)
  partyTransactions : inner'.partyTransactions =
    inner.partyTransactions.extend commit.companyId commit.partyTransactions
  taxTransactions : inner'.taxTransactions =
    inner.taxTransactions.extend commit.companyId commit.taxTransactions
  settlements : inner'.settlements = inner.settlements.extend commit.companyId commit.settlements
  bins : inner'.bins = commit.bins.foldl (putBin commit.companyId) inner.bins

/-- What running a commit can do. -/
theorem postingCommit_cases (codec : Codec) (env : Env) (commit : PostingCommit) (inner : Inner) :
    (∃ response, inner.replayed commit = some response ∧
      postingCommit codec env commit inner = (.ok { response, replayed := true }, inner)) ∨
    (∃ e, inner.replayed commit = none ∧ inner.checkCommit commit = .error e ∧
      postingCommit codec env commit inner = (.error e, inner)) ∨
    (inner.replayed commit = none ∧ inner.checkCommit commit = .ok () ∧
      ∃ inner', Applied commit inner inner' ∧ postingCommit codec env commit inner =
        (.ok { response := numberedResponse commit inner, replayed := false }, inner')) := by
  cases hreplay : inner.replayed commit with
  | some response => exact .inl ⟨response, rfl, by simp only [postingCommit, hreplay]⟩
  | none =>
    cases hcheck : inner.checkCommit commit with
    | error e => exact .inr (.inl ⟨e, rfl, rfl, by simp only [postingCommit, hreplay, hcheck]⟩)
    | ok u =>
      -- the replication step cannot fail, so nothing is left half-written
      obtain ⟨records, hrecords⟩ := replicationMutations_ok codec env.now
        (replicationSources commit (numberedDocument commit inner) (sequencedRows commit inner)
          (writeOutstandings commit.companyId commit.outstandingUpdates
            (AList.insert (docKey commit) (numberedDocument commit inner) inner.documents)).1)
      refine .inr (.inr ⟨rfl, rfl, ?_⟩)
      simp only [numberedDocument, sequencedRows] at hrecords
      simp only [postingCommit, hreplay, hcheck, hrecords]
      exact ⟨_, by constructor <;> rfl, rfl⟩

/-- A commit that fails, at whichever check, or that replays leaves every table as it was. -/
theorem postingCommit_unchanged (codec : Codec) (env : Env) (commit : PostingCommit) (inner : Inner)
    (h : ∀ outcome, (postingCommit codec env commit inner).1 = .ok outcome →
      outcome.replayed = true) :
    (postingCommit codec env commit inner).2 = inner := by
  rcases postingCommit_cases codec env commit inner with
    ⟨response, -, hrun⟩ | ⟨e, -, -, hrun⟩ | ⟨-, -, inner', -, hrun⟩
  · rw [hrun]
  · rw [hrun]
  · -- an applied commit is no replay
    have hreplayed := h _ (by rw [hrun])
    exact absurd hreplayed Bool.false_ne_true

/-- A till's sale under the receipt series TILL1, built on a store. -/
def tillSale (device : Uuid) (receipt : String) (inner : Inner) : Except PostingError PostingCommit :=
  buildSubmit serdeCodec inner.view ⟨0, "2026-01-05", 0⟩ 1
    { doctype := "POS Invoice"
      documentId := some receipt
      payload := [("till_series", .string "TILL1")]
      items := [.obj [("item", .string "TEA"), ("qty", .int 1), ("rate", .int 10)]]
      idempotencyKey := none
      offlineFiscal := true } receipt ⟨some 7, some device, none⟩

/-- Device 5 has sold under the series. -/
def soldOnce : Inner :=
  (tillSale 5 "TILL1-1" {}).toOption.elim {} fun sale => (postingCommit serdeCodec ⟨0, "2026-01-05", 0⟩ sale {}).2

def conflictText : Except StoreError CommitOutcome → Option String
  | .error (.conflict reason) => some reason
  | _ => none

/-- A sale of device 6 under the same series fails the last check, and the rows of the first sale stay as they
are. -/
theorem postingCommit_unchanged_tills : ∃ late, tillSale 6 "TILL1-2" soldOnce = .ok late ∧
    soldOnce.glEntries.log 1 ≠ [] ∧
    conflictText (postingCommit serdeCodec ⟨0, "2026-01-05", 0⟩ late soldOnce).1 = some
      "till series TILL1 is bound to another device; give this register its own receipt series" ∧
    (postingCommit serdeCodec ⟨0, "2026-01-05", 0⟩ late soldOnce).2 = soldOnce := by
  have hlate : ((tillSale 6 "TILL1-2" soldOnce).toOption.bind fun late =>
      conflictText (postingCommit serdeCodec ⟨0, "2026-01-05", 0⟩ late soldOnce).1) = some
        "till series TILL1 is bound to another device; give this register its own receipt series" := by
    decide +kernel
  have hrows : (soldOnce.glEntries.log 1).length ≠ 0 := by decide +kernel
  obtain ⟨late, hbuilt, hrefused⟩ := Option.bind_eq_some_iff.1 hlate
  refine ⟨late, ?_, fun h => hrows (congrArg List.length h), hrefused,
    postingCommit_unchanged _ _ _ _ fun outcome h => ?_⟩
  · cases hsale : tillSale 6 "TILL1-2" soldOnce with
    | error e =>
      rw [hsale] at hbuilt
      cases hbuilt
    | ok commit =>
      rw [hsale] at hbuilt
      exact congrArg Except.ok (Option.some.inj hbuilt)
  · rw [h] at hrefused
    cases hrefused

end Inner

end AtlasTeam
