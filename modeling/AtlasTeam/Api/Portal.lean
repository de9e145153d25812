import AtlasTeam.Api.Settings
import AtlasTeam.Authority
import AtlasTeam.Store.Rebuild

/-!
# Quotation decisions and rebuilds (`portal.rs`)

A customer accepts or rejects a quotation of the read model through a portal link. `quote_action` decides
on the row it has read and pushes the decision to the log in a later step. With `ReadModelOp` these
pushes and the rebuilds run between the steps of the commands and of the devices' pushes, and
`rebuild_equals_incremental` says that the read model is the fold of the log throughout.
-/

namespace AtlasTeam

inductive PortalLinkKind where
  | customer
  | accountant
deriving DecidableEq

structure PortalLink where
  companyId : Uuid
  kind : PortalLinkKind
  /-- The customer id the link is scoped to. -/
  party : Option String
  expiresAt : DateTime
  revokedAt : Option DateTime

/-- `resolve_link`, on the link under the token's hash. -/
def resolveLink (now : DateTime) (link : Option PortalLink) : Except ApiError PortalLink :=
  match link with
  | some link =>
    if link.revokedAt.isSome ∨ link.expiresAt < now then .error .notFound else .ok link
  | none => .error .notFound

def CompanyDocument.customer (doc : CompanyDocument) : Option String :=
  (doc.payload.get "customer").bind Value.asStr

inductive QuoteVerb where
  | accept
  | reject

/-- The field a verb sets, the opposing field, the audit action and the suffix of the record's id. -/
def QuoteVerb.spec : QuoteVerb → String × String × String × String
  | .accept => ("accepted_on", "rejected_on", "portal.quote.accept", "accept")
  | .reject => ("rejected_on", "accepted_on", "portal.quote.reject", "reject")

/-- What a request makes of the row it read. -/
inductive QuoteDecision where
  /-- The quotation was already decided the same way. -/
  | standing (date : String)
  | push (record : MutationRecord) (audit : AuditEntry) (date : String)

/-- The record that stamps a decision onto a quotation. -/
def quoteRecord (codec : Codec) (env : Env) (doc : CompanyDocument) (quotationId : String)
    (verb : QuoteVerb) : Except String MutationRecord := do
  let (setField, _, _, suffix) := verb.spec
  let fields := (doc.payload.asObject.getD []).remove "items"
  let fields := fields.insert setField (.string env.today)
  let envelope ← rowEnvelope codec quotationId "Quotation" doc.docstatus fields env.now
  return { id := "portal-" ++ quotationId ++ "-" ++ suffix
           mutationType := .updateDocument
           docType := "Quotation"
           documentId := quotationId
           payload := envelope
           deviceId := portalDeviceId
           userId := ""
           localTimestamp := env.now
           syncVersion := none
           status := .pushed }

/-- `quote_action` up to its push, on the link of its token and the row it read. -/
def quoteAction (codec : Codec) (env : Env) (link : Option PortalLink) (doc : Option CompanyDocument)
    (quotationId : String) (verb : QuoteVerb) : Except ApiError QuoteDecision := do
  let link ← resolveLink env.now link
  if link.kind ≠ .customer then throw .notFound
  let party := link.party.getD ""
  match doc with
  | none => throw .notFound
  | some doc =>
    if doc.customer ≠ some party then throw .notFound
    let (setField, conflictField, action, _) := verb.spec
    if (asNonEmpty (doc.payload.get conflictField)).isSome then
      throw (.conflict s!"quotation {quotationId} already has {conflictField} set")
    match asNonEmpty (doc.payload.get setField) with
    | some existing => return .standing existing
    | none =>
      match quoteRecord codec env doc quotationId verb with
      | .error e => throw (.internal e)
      | .ok record =>
        let audit : AuditEntry :=
          { id := env.uuid
            companyId := link.companyId
            userId := none
            deviceId := none
            action
            detail := .obj [("quotation", .string quotationId), ("customer", .string party)]
            at_ := env.now }
        return .push record audit env.today

/-! ### The read model in every run -/

/-- What moves the store besides the commands: its other operations, portal decisions and rebuilds. -/
inductive ReadModelOp where
  | store (op : MemOp)
  /-- A portal request pushes its decision on the row it has read, whenever that was. -/
  | quote (decided : Env) (link : Option PortalLink) (doc : Option CompanyDocument)
      (quotationId : String) (verb : QuoteVerb)
  | appendAudit (entry : AuditEntry)
  | rebuildProjection (company : Uuid)

def readModelBackend (codec : Codec) : Backend Inner ReadModelOp where
  view := Inner.view
  postingCommit := Inner.postingCommit codec
  operate env op inner :=
    match op with
    | .store op => (memBackend codec).operate env op inner
    | .quote decided link doc quotationId verb =>
      match link, quoteAction codec decided link doc quotationId verb with
      | some link, .ok (.push record _ _) => inner.pushMutations codec env link.companyId [record]
      | _, _ => inner
    | .appendAudit entry => { inner with audit := inner.audit ++ [entry] }
    | .rebuildProjection company =>
      { inner with toSyncLog := inner.toSyncLog.rebuildProjection codec env company }

/-- The system with portal decisions and rebuilds after a list of events, from the empty store. -/
def readModelRun (codec : Codec) (events : List (Event ReadModelOp)) : System Inner :=
  (System.fresh {}).run codec (readModelBackend codec) events

/-- Every company's log is kept and its rows are the fold of it. -/
def ReadModelKept (codec : Codec) (inner : Inner) : Prop :=
  ∀ company, inner.toSyncLog.Kept company ∧ inner.toSyncLog.FoldsLog codec company

section Steps
variable {codec : Codec} {inner : Inner}

theorem ReadModelKept.pushMutations (h : ReadModelKept codec inner) (env : Env) (company : Uuid)
    (records : List MutationRecord) :
    ReadModelKept codec (inner.pushMutations codec env company records) := by
  intro company'
  obtain ⟨hkept, hfolds⟩ := h company'
  exact ⟨hkept.appendMutations records, hfolds.appendMutations records⟩

theorem ReadModelKept.rebuildProjection (h : ReadModelKept codec inner) (env : Env)
    (company : Uuid) : ReadModelKept codec
      { inner with toSyncLog := inner.toSyncLog.rebuildProjection codec env company } := by
  intro company'
  obtain ⟨hkept, hfolds⟩ := h company'
  exact ⟨hkept.rebuildProjection env, hfolds.rebuildProjection hkept env⟩

theorem ReadModelKept.operate (h : ReadModelKept codec inner) (env : Env) (op : ReadModelOp) :
    ReadModelKept codec ((readModelBackend codec).operate env op inner) := by
  cases op with
  | store op =>
    intro company
    obtain ⟨hkept, hfolds⟩ := h company
    simp only [readModelBackend, operate_syncLog]
    cases op with
    | pushMutations company' records => exact h.pushMutations env company' records company
    | _ => exact ⟨hkept, hfolds⟩
  | quote decided link doc quotationId verb =>
    simp only [readModelBackend]
    split
    · exact h.pushMutations env _ _
    · exact h
  | appendAudit entry => exact h
  | rebuildProjection company => exact h.rebuildProjection env company

theorem ReadModelKept.postingCommit (h : ReadModelKept codec inner) (env : Env)
    (commit : PostingCommit) :
    ReadModelKept codec (Inner.postingCommit codec env commit inner).2 := by
  rcases Inner.postingCommit_cases codec env commit inner with
    ⟨response, -, hrun⟩ | ⟨e, -, -, hrun⟩ | ⟨hreplay, hcheck, inner', -, hrun⟩
  · rw [hrun]
    exact h
  · rw [hrun]
    exact h
  · obtain ⟨records, -, hlog⟩ :=
      (Inner.postingCommit_effects codec env commit inner hreplay hcheck).syncLog
    intro company
    rw [hlog]
    exact h.pushMutations env commit.companyId records company

end Steps

theorem readModelRun_kept (codec : Codec) (events : List (Event ReadModelOp)) :
    ReadModelKept codec (readModelRun codec events).book.store := by
  have hrule : Snapshot.Rule (protocol codec (readModelBackend codec) (.all ReadModelOp))
      (fun book => ReadModelKept codec book.store) fun _ _ => True := by
    refine ⟨fun _ => trivial, fun _ _ => trivial, ?_, ?_⟩
    · rintro book₀ book _ draft - - h - ⟨env, rfl⟩
      rw [Book.commit_store]
      exact ⟨h.postingCommit env draft.commit, trivial⟩
    · rintro book _ h ⟨op, env, -, rfl⟩
      exact ⟨h.operate env op, trivial⟩
  exact System.invariant_of_rule hrule
    (fun company => ⟨SyncLog.kept_empty company, SyncLog.foldsLog_empty codec company⟩)
    fun event _ => event.allowed_all

/-- In every run of commands, pushes, portal decisions and rebuilds the read model of a company holds for each
document the fold of the company's log from no row, up to update times. So one more rebuild changes nothing but
update times of the company's rows: not the log, no other table and no row of another company. -/
theorem rebuild_equals_incremental (codec : Codec) (events : List (Event ReadModelOp))
    (company : Uuid) (env : Env) :
    let inner := (readModelRun codec events).book.store
    let rebuilt := (readModelBackend codec).operate env (.rebuildProjection company) inner
    (∀ doctype id, (AList.lookup (company, doctype, id) inner.companyDocuments).map CompanyDocument.timeless =
      (SyncLog.foldedAt codec env company (inner.toSyncLog.records company) doctype id).map
        CompanyDocument.timeless) ∧
    SyncLog.SameRows company rebuilt.companyDocuments inner.companyDocuments ∧
    (∀ key, key.1 ≠ company → AList.lookup key rebuilt.companyDocuments =
      AList.lookup key inner.companyDocuments) ∧
    rebuilt = { inner with companyDocuments := rebuilt.companyDocuments } := by
  intro inner rebuilt
  obtain ⟨hkept, hfolds⟩ := readModelRun_kept codec events company
  refine ⟨fun doctype id => ?_, SyncLog.rebuildProjection_sameRows hkept hfolds env,
    fun key hkey => SyncLog.lookup_rebuildProjection_ne env hkey, ?_⟩
  · rw [← SyncLog.lookup_foldedLog]
    exact hfolds env doctype id
  · have hlog := @SyncLog.rebuildProjection_eq codec env inner.toSyncLog company
    show { inner with toSyncLog := inner.toSyncLog.rebuildProjection codec env company } = _
    rw [hlog]
    rfl

/-- A device pushes two notes and takes the second back; a rebuild runs in between. -/
def notesRebuilt : List (Event ReadModelOp) :=
  let note (id documentId : String) (mutationType : MutationType) : MutationRecord :=
    ⟨id, mutationType, "Note", documentId, [("title", .string documentId)], "till", "anna", 0, none, .pending⟩
  [.operate (.store (.pushMutations 1 [note "m-1" "n-1" .createDocument, note "m-2" "n-2" .createDocument]))
      ⟨1, "2026-01-05", 0⟩,
    .operate (.rebuildProjection 1) ⟨2, "2026-01-05", 0⟩,
    .operate (.store (.pushMutations 1 [note "m-3" "n-2" .deleteDocument])) ⟨3, "2026-01-05", 0⟩]

/-- The first note is left, with what the fold makes of its record. -/
theorem rebuild_equals_incremental_notes :
    let inner := (readModelRun serdeCodec notesRebuilt).book.store
    let folded := SyncLog.foldedAt serdeCodec ⟨4, "2026-01-05", 0⟩ 1 (inner.toSyncLog.records 1) "Note"
    (folded "n-1").isSome ∧ folded "n-2" = none ∧
      (AList.lookup (1, "Note", "n-1") inner.companyDocuments).map CompanyDocument.timeless =
        (folded "n-1").map CompanyDocument.timeless := by
  intro inner folded
  have hsecond : (folded "n-2").isNone := by decide +kernel
  exact ⟨by decide +kernel, Option.isNone_iff_eq_none.1 hsecond,
    (rebuild_equals_incremental serdeCodec notesRebuilt 1 ⟨4, "2026-01-05", 0⟩).1 "Note" "n-1"⟩

end AtlasTeam
