import AtlasTeam.Api.PortalView
import AtlasTeam.Api.Sync
import AtlasTeam.Posting.Dates
import AtlasTeam.Store.ReadModel

/-!
# Quotation decisions in a run

A decision goes through the log under an id made of the quotation and the verb, and the log ignores an id it
knows. A device may have overwritten the quotation's row in the meantime: then the request finds no decision,
answers with today's date, and the row stays as it is. Only the portal uses these ids (`decisionKnown_iff`), so
`quote_decisions` can say by the run alone which confirmed decisions are recorded.
-/

namespace AtlasTeam

/-! ### Requests and pushes, one after the other -/

/-- `sync_push`, run through: the checks, then the pinned batch. -/
def syncPush (codec : Codec) (env : Env) (memberships : Memberships) (auth : AuthContext)
    (companyId : Uuid) (mutations : List MutationRecord) (store : PortalStore) :
    Except ApiError (List (String × Int)) × PortalStore :=
  let push : Push := { auth, companyId, mutations, phase := .start }
  let known := store.inner.toSyncLog.knownMutationIds companyId (mutations.map MutationRecord.id)
  match (do
    push.checkAuthority memberships
    mutations.forM fun mutation => push.checkImmutable known mutation store.inner) with
  | .error e => (.error e, store)
  | .ok () =>
    let batch := push.pin codec store.inner
    (.ok (store.inner.toSyncLog.appendAnswered codec env companyId batch).1,
      { store with
        inner := store.inner.pushMutations codec env companyId batch
        keyed := store.keyed.appendMutations codec env companyId batch })

inductive QuoteEvent where
  | request (env : Env) (token quotationId : String) (verb : QuoteVerb) (accept : Option String)
  | push (env : Env) (auth : AuthContext) (companyId : Uuid) (mutations : List MutationRecord)

def PortalStore.step (codec : Codec) (memberships : Memberships) (store : PortalStore) :
    QuoteEvent → PortalStore
  | .request env token quotationId verb accept =>
    (quoteRequest codec env token quotationId verb accept store).2
  | .push env auth companyId mutations =>
    (syncPush codec env memberships auth companyId mutations store).2

/-- The portal's store before anything has happened. -/
def PortalStore.fresh (companyNames : Table Uuid String) (portalLinks : Table String PortalLink) :
    PortalStore :=
  { inner := {}, companyNames, portalLinks, keyed := SyncLog.rowsKeyed_empty }

/-- The store after a sequence of requests and pushes. -/
def PortalStore.run (codec : Codec) (memberships : Memberships) (store : PortalStore)
    (events : List QuoteEvent) : PortalStore :=
  events.foldl (PortalStore.step codec memberships) store

theorem PortalStore.run_concat (codec : Codec) (memberships : Memberships) (store : PortalStore)
    (events : List QuoteEvent) (event : QuoteEvent) :
    store.run codec memberships (events ++ [event]) =
      (store.run codec memberships events).step codec memberships event := by
  rw [PortalStore.run, List.foldl_append]
  rfl

/-! ### Decisions -/

/-- The row of a quotation. -/
def PortalStore.quotation (store : PortalStore) (company : Uuid) (quotationId : String) :
    Option CompanyDocument :=
  AList.lookup (company, "Quotation", quotationId) store.inner.companyDocuments

/-- `payload_str` of the field a verb sets. -/
def CompanyDocument.decidedOn (doc : CompanyDocument) (verb : QuoteVerb) : Option String :=
  asNonEmpty (doc.payload.get verb.spec.1)

def PortalStore.decidedOn (store : PortalStore) (company : Uuid) (quotationId : String)
    (verb : QuoteVerb) : Option String :=
  (store.quotation company quotationId).bind fun doc => doc.decidedOn verb

def QuoteVerb.opposite : QuoteVerb → QuoteVerb
  | .accept => .reject
  | .reject => .accept

/-- The id a decision has in the log. -/
def decisionId (quotationId : String) (verb : QuoteVerb) : String :=
  "portal-" ++ quotationId ++ "-" ++ verb.spec.2.2.2

/-- The quotation has the decision of this date and not the opposing one. -/
def PortalStore.Records (store : PortalStore) (company : Uuid) (quotationId : String) (verb : QuoteVerb)
    (date : String) : Prop :=
  store.decidedOn company quotationId verb = some date ∧
    store.decidedOn company quotationId verb.opposite = none

instance (store : PortalStore) (company : Uuid) (quotationId : String) (verb : QuoteVerb)
    (date : String) : Decidable (store.Records company quotationId verb date) :=
  inferInstanceAs (Decidable (_ ∧ _))

/-- The request pushes a decision of the company's quotation. -/
def PortalStore.Pushes (codec : Codec) (store : PortalStore) (company : Uuid) (quotationId : String)
    (verb : QuoteVerb) (env : Env) (token : String) : Prop :=
  ∃ link record audit date, AList.lookup (hashToken codec token) store.portalLinks = some link ∧
    link.companyId = company ∧
    quoteAction codec env (some link) (store.quotation company quotationId) quotationId verb =
      .ok (.push record audit date)

/-- No two decisions share an id. -/
theorem decisionId_inj {quotationId quotationId' : String} {verb verb' : QuoteVerb}
    (h : decisionId quotationId verb = decisionId quotationId' verb') :
    quotationId = quotationId' ∧ verb = verb' := by
  have hchars := congrArg String.toList h
  simp only [decisionId, String.toList_append, List.append_assoc, List.append_cancel_left_eq] at hchars
  have hsuffix : ("-".toList ++ verb.spec.2.2.2.toList).length =
      ("-".toList ++ verb'.spec.2.2.2.toList).length := by cases verb <;> cases verb' <;> rfl
  obtain ⟨hid, hverb⟩ := List.append_inj' hchars hsuffix
  refine ⟨String.toList_inj.1 hid, ?_⟩
  cases verb <;> cases verb' <;> first | rfl | exact absurd hverb (by decide)

theorem conflictField_eq (verb : QuoteVerb) : verb.spec.2.1 = verb.opposite.spec.1 := by
  cases verb <;> rfl

/-! ### One request -/

section Request
variable {codec : Codec} {env : Env} {link : PortalLink} {quotationId : String} {verb : QuoteVerb}

/-- The fields of a quotation with the decision of today. -/
def decidedFields (env : Env) (doc : CompanyDocument) (verb : QuoteVerb) : Map :=
  ((doc.payload.asObject.getD []).remove "items").insert verb.spec.1 (.string env.today)

/-- The record of a decision. -/
structure IsDecision (codec : Codec) (env : Env) (doc : CompanyDocument) (quotationId : String)
    (verb : QuoteVerb) (record : MutationRecord) : Prop where
  id : record.id = decisionId quotationId verb
  mutationType : record.mutationType = .updateDocument
  docType : record.docType = "Quotation"
  documentId : record.documentId = quotationId
  text : ∃ text, codec.toText (decidedFields env doc verb) = .ok text ∧
    record.payload.get "payload" = some (.string text)

theorem quoteRecord_decides {doc : CompanyDocument} {record : MutationRecord}
    (h : quoteRecord codec env doc quotationId verb = .ok record) :
    IsDecision codec env doc quotationId verb record := by
  simp only [quoteRecord, Except.bind_eq_ok, Except.pure_eq_ok] at h
  obtain ⟨envelope, henvelope, rfl⟩ := h
  exact
    { id := rfl
      mutationType := rfl
      docType := rfl
      documentId := rfl
      text := (rowEnvelope_get henvelope).2 }

/-- What a request that is not refused has found, and what it answers. -/
theorem quoteAction_cases {row : Option CompanyDocument} {decision : QuoteDecision}
    (h : quoteAction codec env (some link) row quotationId verb = .ok decision) :
    ∃ doc, row = some doc ∧ doc.decidedOn verb.opposite = none ∧
      ((∃ date, decision = .standing date ∧ doc.decidedOn verb = some date) ∨
        ∃ record audit, decision = .push record audit env.today ∧ doc.decidedOn verb = none ∧
          IsDecision codec env doc quotationId verb record) := by
  simp only [quoteAction, Except.bind_eq_ok, Except.throw_bind, Except.ite_throw_eq_ok] at h
  obtain ⟨_, -, -, h⟩ := h
  cases row with
  | none => cases h
  | some doc =>
    simp only [Except.ite_throw_eq_ok] at h
    obtain ⟨-, hconflict, h⟩ := h
    rw [conflictField_eq, Option.not_isSome_iff_eq_none] at hconflict
    refine ⟨doc, rfl, hconflict, ?_⟩
    split at h
    · next date hdate => exact .inl ⟨date, (Except.ok.inj h).symm, hdate⟩
    · next hnone =>
      cases hrecord : quoteRecord codec env doc quotationId verb with
      | error e =>
        rw [hrecord] at h
        cases h
      | ok record =>
        rw [hrecord] at h
        exact .inr ⟨record, _, (Except.ok.inj h).symm, hnone, quoteRecord_decides hrecord⟩

/-- Maps with the same texts in their fields read alike. -/
theorem asNonEmpty_congr {m m' : Map} {key : String}
    (h : ∀ s, m'.get key = some (.string s) ↔ m.get key = some (.string s)) :
    asNonEmpty (m'.get key) = asNonEmpty (m.get key) := by
  unfold asNonEmpty
  split
  · rename_i s hs
    rw [(h s).1 hs]
  · rename_i hnone
    split
    · rename_i s hs
      exact absurd ((h s).2 hs) (hnone s)
    · rfl

/-- The fields that are decided on: the verb's is today's date, the opposing one as it was. -/
theorem decidedFields_get (htoday : IsoDate env.today) (doc : CompanyDocument) (verb : QuoteVerb)
    {fields : Map} (htexts : ∀ key s, fields.get key = some (.string s) ↔
      (decidedFields env doc verb).get key = some (.string s)) :
    asNonEmpty ((fields.remove "__children").get verb.spec.1) = some env.today ∧
      asNonEmpty ((fields.remove "__children").get verb.opposite.spec.1) =
        asNonEmpty (doc.payload.get verb.opposite.spec.1) := by
  have hchildren : verb.spec.1 ≠ "__children" ∧ verb.opposite.spec.1 ≠ "__children" := by
    cases verb <;> decide
  have hitems : verb.opposite.spec.1 ≠ "items" := by cases verb <;> decide
  have hopposite : verb.opposite.spec.1 ≠ verb.spec.1 := by cases verb <;> decide
  refine ⟨?_, ?_⟩
  · rw [Map.get_remove_ne _ hchildren.1, asNonEmpty_congr (htexts _), decidedFields,
      Map.get_insert_self, asNonEmpty, htoday.trim, if_neg htoday.ne_empty]
  · rw [Map.get_remove_ne _ hchildren.2, asNonEmpty_congr (htexts _), decidedFields,
      Map.get_insert_ne _ hopposite, Map.get_remove_ne _ hitems]
    cases doc.payload <;> rfl

/-- A record of a decision that the log takes leaves the quotation with it. -/
theorem IsDecision.folded {doc : CompanyDocument} {record : MutationRecord}
    (h : IsDecision codec env doc quotationId verb record) (htoday : IsoDate env.today)
    (hreads : codec.ReadsTexts (decidedFields env doc verb)) {company : Uuid} {log : SyncLog}
    (hnew : AList.lookup (company, decisionId quotationId verb) log.mutationVersions = none) :
    ∃ row, AList.lookup (company, "Quotation", quotationId)
        (log.appendMutations codec env company [record]).companyDocuments = some row ∧
      row.decidedOn verb = some env.today ∧ row.decidedOn verb.opposite = doc.decidedOn verb.opposite := by
  have htakes : log.Takes company [] record := ⟨h.id ▸ hnew, List.not_mem_nil⟩
  have hrow := @SyncLog.row_last codec env company log [] [] record htakes
    fun r hr => absurd hr List.not_mem_nil
  rw [MutationRecord.rowKey, h.docType, h.documentId] at hrow
  obtain ⟨text, hrender, htext⟩ := h.text
  obtain ⟨fields, ⟨text', hrender', hback⟩, htexts⟩ := hreads
  obtain rfl := Except.ok.inj (hrender.symm.trans hrender')
  have hfields : envelopeFields codec record.payload = fields := by
    simp only [envelopeFields, htext, hback, Value.asObject, Option.getD_some]
  obtain ⟨row, hfold⟩ : ∃ row, foldMutation codec
      (AList.lookup (company, "Quotation", quotationId) log.companyDocuments) record company env.now =
        .upsert row := by
    unfold foldMutation
    simp only [h.mutationType]
    exact ⟨_, rfl⟩
  have hpayload := foldMutation_payload hfold
  rw [rowPayload, hfields] at hpayload
  obtain ⟨hdecided, hopposite⟩ := decidedFields_get htoday doc verb htexts
  refine ⟨row, ?_, ?_, ?_⟩
  · refine hrow.trans ?_
    show SyncLog.foldedRow codec env company record
      (AList.lookup (company, "Quotation", quotationId) log.companyDocuments) = some row
    rw [SyncLog.foldedRow, hfold]
  · rw [CompanyDocument.decidedOn, hpayload]
    exact hdecided
  · rw [CompanyDocument.decidedOn, hpayload]
    exact hopposite

end Request

/-- A request through a link that is found. -/
theorem quoteRequest_linked {codec : Codec} {token : String} {store : PortalStore} {link : PortalLink}
    (hlink : AList.lookup (hashToken codec token) store.portalLinks = some link) (env : Env)
    (quotationId : String) (verb : QuoteVerb) (accept : Option String) :
    quoteRequest codec env token quotationId verb accept store =
      match quoteAction codec env (some link) (store.quotation link.companyId quotationId) quotationId
        verb with
      | .error e => (.error e, store)
      | .ok (.standing date) => (.ok (quoteResponse token quotationId verb accept date), store)
      | .ok (.push record audit date) =>
        (.ok (quoteResponse token quotationId verb accept date),
          store.decided codec env link.companyId record audit) := by
  simp only [quoteRequest, hlink]
  rfl

/-- What a request does to the store. -/
theorem quoteRequest_cases (codec : Codec) (env : Env) (token quotationId : String) (verb : QuoteVerb)
    (accept : Option String) (store : PortalStore) :
    ((quoteRequest codec env token quotationId verb accept store).2 = store ∧
      ∀ company, ¬ store.Pushes codec company quotationId verb env token) ∨
    ∃ link doc record audit, AList.lookup (hashToken codec token) store.portalLinks = some link ∧
      store.quotation link.companyId quotationId = some doc ∧
      quoteAction codec env (some link) (some doc) quotationId verb =
        .ok (.push record audit env.today) ∧
      IsDecision codec env doc quotationId verb record ∧
      (quoteRequest codec env token quotationId verb accept store).2 =
        store.decided codec env link.companyId record audit := by
  cases hlink : AList.lookup (hashToken codec token) store.portalLinks with
  | none =>
    refine .inl ⟨by simp only [quoteRequest, hlink], ?_⟩
    rintro company ⟨link, record, audit, date, hfound, -⟩
    rw [hlink] at hfound
    cases hfound
  | some link =>
    -- a request that pushes goes through this link
    have hthis : ∀ {company}, store.Pushes codec company quotationId verb env token →
        ∃ record audit date, quoteAction codec env (some link)
          (store.quotation link.companyId quotationId) quotationId verb =
            .ok (.push record audit date) := by
      rintro company ⟨link', record, audit, date, hfound, rfl, hpush⟩
      obtain rfl := Option.some.inj (hlink.symm.trans hfound)
      exact ⟨record, audit, date, hpush⟩
    cases haction : quoteAction codec env (some link) (store.quotation link.companyId quotationId)
        quotationId verb with
    | error e =>
      refine .inl ⟨by rw [quoteRequest_linked hlink, haction], fun company hpushes => ?_⟩
      obtain ⟨record, audit, date, hpush⟩ := hthis hpushes
      rw [haction] at hpush
      cases hpush
    | ok decision =>
      obtain ⟨doc, hdoc, -, hcases⟩ := quoteAction_cases haction
      rcases hcases with ⟨date, rfl, -⟩ | ⟨record, audit, rfl, -, hrecord⟩
      · refine .inl ⟨by rw [quoteRequest_linked hlink, haction], fun company hpushes => ?_⟩
        obtain ⟨record, audit, date, hpush⟩ := hthis hpushes
        rw [haction] at hpush
        cases hpush
      · refine .inr ⟨link, doc, record, audit, rfl, hdoc, hdoc ▸ haction, hrecord, ?_⟩
        rw [quoteRequest_linked hlink, haction]

/-! ### Which decisions the log knows -/

/-- The log of the company has the decision. -/
def PortalStore.Knows (store : PortalStore) (company : Uuid) (quotationId : String) (verb : QuoteVerb) :
    Prop :=
  (AList.lookup (company, decisionId quotationId verb) store.inner.mutationVersions).isSome

instance (store : PortalStore) (company : Uuid) (quotationId : String) (verb : QuoteVerb) :
    Decidable (store.Knows company quotationId verb) :=
  inferInstanceAs (Decidable (_ = true))

/-- The event is a request that pushes the decision. -/
def QuoteEvent.Decides (codec : Codec) (store : PortalStore) (company : Uuid) (quotationId : String)
    (verb : QuoteVerb) : QuoteEvent → Prop
  | .request env token quotationId' verb' _ =>
    quotationId' = quotationId ∧ verb' = verb ∧ store.Pushes codec company quotationId verb env token
  | .push _ _ _ _ => False

/-- Some request of the run pushed the decision. -/
def WasPushed (codec : Codec) (memberships : Memberships) (store : PortalStore) (events : List QuoteEvent)
    (company : Uuid) (quotationId : String) (verb : QuoteVerb) : Prop :=
  ∃ before event after, events = before ++ event :: after ∧
    event.Decides codec (store.run codec memberships before) company quotationId verb

theorem wasPushed_concat {codec : Codec} {memberships : Memberships} {store : PortalStore}
    {events : List QuoteEvent} {event : QuoteEvent} {company : Uuid} {quotationId : String}
    {verb : QuoteVerb} :
    WasPushed codec memberships store (events ++ [event]) company quotationId verb ↔
      WasPushed codec memberships store events company quotationId verb ∨
        event.Decides codec (store.run codec memberships events) company quotationId verb := by
  constructor
  · rintro ⟨before, decides, after, heq, h⟩
    rcases List.eq_nil_or_concat after with rfl | ⟨rest, last, rfl⟩
    · obtain ⟨rfl, hlast⟩ := List.append_inj' heq rfl
      obtain rfl := List.singleton_inj.1 hlast
      exact .inr h
    · refine .inl ⟨before, decides, rest, ?_, h⟩
      rw [List.concat_eq_append, ← List.cons_append, ← List.append_assoc] at heq
      exact (List.append_inj' heq rfl).1
  · rintro (⟨before, decides, after, rfl, h⟩ | h)
    · exact ⟨before, decides, after ++ [event], by simp, h⟩
    · exact ⟨events, event, [], rfl, h⟩

/-- A device cannot use the id of a decision. -/
theorem Accepted.ne_decisionId {mutation : MutationRecord} (h : Accepted mutation) (quotationId : String)
    (verb : QuoteVerb) : mutation.id ≠ decisionId quotationId verb := by
  intro heq
  have hstart := h.id "portal-" (by decide)
  rw [heq, decisionId, startsWith, String.toList_append, String.toList_append, String.toList_append,
    List.append_assoc, List.append_assoc] at hstart
  exact Bool.false_ne_true (hstart.symm.trans (List.isPrefixOf_iff_prefix.2 (List.prefix_append _ _)))

section Steps
variable {codec : Codec} {memberships : Memberships}

theorem syncPush_cases (codec : Codec) (env : Env) (memberships : Memberships) (auth : AuthContext)
    (companyId : Uuid) (mutations : List MutationRecord) (store : PortalStore) :
    (syncPush codec env memberships auth companyId mutations store).2 = store ∨
    ∃ batch, (∀ m ∈ batch, Accepted m) ∧
      (syncPush codec env memberships auth companyId mutations store).2.inner =
        store.inner.pushMutations codec env companyId batch := by
  unfold syncPush
  simp only
  split
  · exact .inl rfl
  · next hchecked =>
    simp only [Except.bind_eq_ok] at hchecked
    obtain ⟨⟨⟩, hauthority, -⟩ := hchecked
    have haccepted := Push.checkAuthority_ok hauthority
    refine .inr ⟨_, fun m hm => ?_, rfl⟩
    exact (Push.pin_guarded pinStable_true (fun m hm => ⟨haccepted m hm, trivial⟩) codec store.inner
      m hm).1

/-- The log learns of a decision from the request that pushes it, and from nothing else. -/
theorem PortalStore.step_knows (store : PortalStore) (event : QuoteEvent) (company : Uuid)
    (quotationId : String) (verb : QuoteVerb) :
    (store.step codec memberships event).Knows company quotationId verb ↔
      store.Knows company quotationId verb ∨ event.Decides codec store company quotationId verb := by
  cases event with
  | push env auth companyId mutations =>
    simp only [QuoteEvent.Decides, or_false, PortalStore.step, PortalStore.Knows]
    rcases syncPush_cases codec env memberships auth companyId mutations store with
      hsame | ⟨batch, hbatch, hpushed⟩
    · rw [hsame]
    · rw [hpushed]
      refine (SyncLog.appendMutations_knows codec env companyId batch store.inner.toSyncLog company
        (decisionId quotationId verb)).trans (or_iff_left ?_)
      rintro ⟨-, hmem⟩
      obtain ⟨m, hm, hid⟩ := List.mem_map.1 hmem
      exact (hbatch m hm).ne_decisionId quotationId verb hid
  | request env token quotationId' verb' accept =>
    simp only [PortalStore.step, PortalStore.Knows, QuoteEvent.Decides]
    rcases quoteRequest_cases codec env token quotationId' verb' accept store with
      ⟨hsame, hnone⟩ | ⟨link, doc, record, audit, hlink, hdoc, haction, hrecord, hstore⟩
    · rw [hsame]
      refine (or_iff_left ?_).symm
      rintro ⟨rfl, rfl, hpushes⟩
      exact hnone company hpushes
    · rw [hstore]
      refine (SyncLog.appendMutations_knows codec env link.companyId [record] store.inner.toSyncLog
        company (decisionId quotationId verb)).trans (or_congr_right ?_)
      rw [List.map_singleton, List.mem_singleton, hrecord.id]
      constructor
      · rintro ⟨rfl, hid⟩
        obtain ⟨rfl, rfl⟩ := decisionId_inj hid
        exact ⟨rfl, rfl, link, record, audit, env.today, hlink, rfl, hdoc ▸ haction⟩
      · rintro ⟨rfl, rfl, link', -, -, -, hlink', hcompany, -⟩
        obtain rfl := Option.some.inj (hlink.symm.trans hlink')
        exact ⟨hcompany.symm, rfl⟩

/-- The links stay. -/
theorem PortalStore.run_portalLinks (codec : Codec) (memberships : Memberships) (store : PortalStore)
    (events : List QuoteEvent) : (store.run codec memberships events).portalLinks = store.portalLinks := by
  induction events using List.reverseRecOn with
  | nil => rfl
  | append_singleton events event ih =>
    rw [PortalStore.run_concat, ← ih]
    generalize store.run codec memberships events = store
    cases event with
    | push env auth companyId mutations =>
      simp only [PortalStore.step, syncPush]
      split <;> rfl
    | request env token quotationId verb accept =>
      simp only [PortalStore.step]
      rcases quoteRequest_cases codec env token quotationId verb accept store with
        ⟨hsame, -⟩ | ⟨link, doc, record, audit, -, -, -, -, hstore⟩
      · rw [hsame]
      · rw [hstore]
        rfl

/-- The log knows the decisions the run has pushed. -/
theorem decisionKnown_iff (companyNames : Table Uuid String) (portalLinks : Table String PortalLink)
    (events : List QuoteEvent) (company : Uuid) (quotationId : String) (verb : QuoteVerb) :
    ((PortalStore.fresh companyNames portalLinks).run codec memberships events).Knows company quotationId
        verb ↔
      WasPushed codec memberships (PortalStore.fresh companyNames portalLinks) events company quotationId
        verb := by
  induction events using List.reverseRecOn with
  | nil =>
    refine iff_of_false (fun h => ?_) fun ⟨before, event, after, heq, _⟩ => ?_
    · cases h
    · simp at heq
  | append_singleton events event ih =>
    rw [PortalStore.run_concat, PortalStore.step_knows, ih, wasPushed_concat]

end Steps

/-! ### Confirmed decisions -/

/-- serde_json reads the texts in the fields of a decision as the request renders them. -/
def PortalStore.ReadsDecision (codec : Codec) (store : PortalStore) (env : Env)
    (token quotationId : String) (verb : QuoteVerb) : Prop :=
  ∀ link doc, AList.lookup (hashToken codec token) store.portalLinks = some link →
    store.quotation link.companyId quotationId = some doc →
      codec.ReadsTexts (decidedFields env doc verb)

/-- The decision date of an answer: a 200 with the field of the verb. -/
def confirmedDate (verb : QuoteVerb) : Except ApiError PortalResponse → Option String
  | .ok (.json body) => (body.get verb.spec.1).bind Value.asStr
  | _ => none

/-- Both decisions are set. -/
def PortalStore.BothSet (store : PortalStore) (company : Uuid) (quotationId : String) : Prop :=
  (store.decidedOn company quotationId .accept).isSome ∧
    (store.decidedOn company quotationId .reject).isSome

section Confirmed
variable {codec : Codec} {env : Env} {token quotationId : String} {verb : QuoteVerb}
  {accept : Option String} {store : PortalStore}

theorem quoteResponse_date {date date' : String}
    (h : confirmedDate verb (.ok (quoteResponse token quotationId verb accept date)) = some date') :
    date' = date := by
  have hbody : (Value.obj [("quotation", .string quotationId), (verb.spec.1, .string date)]).get
      verb.spec.1 = some (.string date) := by
    cases verb <;> exact (SortedMap.Raw.lookup_ofList _ _).trans rfl
  unfold quoteResponse at h
  split_ifs at h
  · cases h
  · rw [confirmedDate, hbody] at h
    exact (Option.some.inj h).symm

/-- A record the log knows changes no row. -/
theorem decided_known (codec : Codec) (env : Env) (audit : AuditEntry) {link : PortalLink}
    {record : MutationRecord}
    (hid : record.id = decisionId quotationId verb)
    (hknown : store.Knows link.companyId quotationId verb) :
    (store.decided codec env link.companyId record audit).inner.companyDocuments =
      store.inner.companyDocuments := by
  show (SyncLog.appendMutation codec env link.companyId store.inner.toSyncLog record).companyDocuments = _
  rcases SyncLog.appendMutation_cases codec env link.companyId store.inner.toSyncLog record with
    ⟨version, -, hsame⟩ | ⟨hnew, -⟩
  · rw [hsame]
  · rw [PortalStore.Knows, ← hid, hnew] at hknown
    cases hknown

/-- The quotation after a decision the log did not know. -/
theorem decided_new {link : PortalLink} {doc : CompanyDocument} {record : MutationRecord}
    (audit : AuditEntry) (hrecord : IsDecision codec env doc quotationId verb record)
    (htoday : IsoDate env.today) (hreads : codec.ReadsTexts (decidedFields env doc verb))
    (hnew : ¬ store.Knows link.companyId quotationId verb) :
    let after := store.decided codec env link.companyId record audit
    after.decidedOn link.companyId quotationId verb = some env.today ∧
      after.decidedOn link.companyId quotationId verb.opposite = doc.decidedOn verb.opposite := by
  obtain ⟨row, hrow, hdecided, hopposite⟩ :=
    hrecord.folded htoday hreads (Option.not_isSome_iff_eq_none.1 hnew)
  have hquotation : (store.decided codec env link.companyId record audit).quotation link.companyId
      quotationId = some row := hrow
  constructor
  · rw [PortalStore.decidedOn, hquotation]
    exact hdecided
  · rw [PortalStore.decidedOn, hquotation]
    exact hopposite

/-- A confirmed decision is recorded when the quotation has it or the log does not. -/
theorem quoteRequest_confirms (htoday : IsoDate env.today)
    (hreads : store.ReadsDecision codec env token quotationId verb) {date : String}
    (h : confirmedDate verb (quoteRequest codec env token quotationId verb accept store).1 = some date) :
    ∃ link, AList.lookup (hashToken codec token) store.portalLinks = some link ∧
      ((quoteRequest codec env token quotationId verb accept store).2.Records link.companyId quotationId
          verb date ↔
        (store.decidedOn link.companyId quotationId verb).isSome ∨
          ¬ store.Knows link.companyId quotationId verb) := by
  cases hlink : AList.lookup (hashToken codec token) store.portalLinks with
  | none =>
    simp only [quoteRequest, hlink] at h
    cases h
  | some link =>
    refine ⟨link, rfl, ?_⟩
    rw [quoteRequest_linked hlink] at h ⊢
    cases haction : quoteAction codec env (some link) (store.quotation link.companyId quotationId)
        quotationId verb with
    | error e =>
      rw [haction] at h
      cases h
    | ok decision =>
      obtain ⟨doc, hdoc, hopposite, hcases⟩ := quoteAction_cases haction
      rw [haction] at h
      have hdecided : ∀ verb, store.decidedOn link.companyId quotationId verb = doc.decidedOn verb := by
        intro verb
        rw [PortalStore.decidedOn, hdoc, Option.bind_some]
      rcases hcases with ⟨date', rfl, hstands⟩ | ⟨record, audit, rfl, hnone, hrecord⟩
      · -- the decision stands, and nothing is written
        obtain rfl := quoteResponse_date h
        refine iff_of_true ⟨?_, ?_⟩ (.inl ?_)
        · exact (hdecided verb).trans hstands
        · exact (hdecided verb.opposite).trans hopposite
        · rw [hdecided, hstands]
          rfl
      · obtain rfl := quoteResponse_date h
        have hunset : ¬ (store.decidedOn link.companyId quotationId verb).isSome := by
          rw [hdecided, hnone]
          exact Bool.false_ne_true
        rw [or_iff_right hunset]
        by_cases hknown : store.Knows link.companyId quotationId verb
        · -- the log ignores the record, and the quotation stays undecided
          refine iff_of_false (fun hrecords => ?_) (not_not_intro hknown)
          have hrows := decided_known codec env audit hrecord.id hknown
          have hset := hrecords.1
          simp only [PortalStore.decidedOn, PortalStore.quotation, hrows] at hset
          rw [PortalStore.decidedOn, PortalStore.quotation, hset] at hunset
          exact hunset rfl
        · have hnew := decided_new audit hrecord htoday (hreads link doc hlink hdoc) hknown
          exact iff_of_true ⟨hnew.1, hnew.2.trans hopposite⟩ hknown

/-- No request sets a second decision. -/
theorem quoteRequest_bothSet (htoday : IsoDate env.today)
    (hreads : store.ReadsDecision codec env token quotationId verb) {company : Uuid} {id : String}
    (h : (quoteRequest codec env token quotationId verb accept store).2.BothSet company id) :
    store.BothSet company id := by
  rcases quoteRequest_cases codec env token quotationId verb accept store with
    ⟨hsame, -⟩ | ⟨link, doc, record, audit, hlink, hdoc, haction, hrecord, hstore⟩
  · rwa [hsame] at h
  rw [hstore] at h
  by_cases hkey : (company, id) = (link.companyId, quotationId)
  · obtain ⟨rfl, rfl⟩ := Prod.mk.inj hkey
    by_cases hknown : store.Knows link.companyId id verb
    · have hrows := decided_known codec env audit hrecord.id hknown
      simpa only [PortalStore.BothSet, PortalStore.decidedOn, PortalStore.quotation, hrows] using h
    · -- the opposing decision was not set, and it is not now
      obtain ⟨_, hsome, hopposite, -⟩ := quoteAction_cases haction
      obtain rfl := Option.some.inj hsome
      have hnew := decided_new audit hrecord htoday (hreads link doc hlink hdoc) hknown
      have hboth : ((store.decided codec env link.companyId record audit).decidedOn link.companyId id
          verb.opposite).isSome := by
        cases verb
        · exact h.2
        · exact h.1
      rw [hnew.2, hopposite] at hboth
      cases hboth
  · have hother : (company, "Quotation", id) ≠ (link.companyId, record.docType, record.documentId) := by
      rw [hrecord.docType, hrecord.documentId]
      intro heq
      obtain ⟨hcompany, hid⟩ := Prod.mk.inj heq
      exact hkey (Prod.ext hcompany (Prod.mk.inj hid).2)
    have hrow : (store.decided codec env link.companyId record audit).quotation company id =
        store.quotation company id :=
      SyncLog.lookup_appendMutation_ne hother
    simpa only [PortalStore.BothSet, PortalStore.decidedOn, hrow] using h

end Confirmed

/-- In every run of requests and pushes, a request that is answered 200 with a date leaves the quotation with
its decision exactly when the quotation has it already, or no request of the run has pushed it before; and
no request leaves both decisions set where they were not. -/
theorem quote_decisions {codec : Codec} {memberships : Memberships} {companyNames : Table Uuid String}
    {portalLinks : Table String PortalLink} {events : List QuoteEvent} {env : Env}
    {token quotationId : String} {verb : QuoteVerb} {accept : Option String}
    (htoday : IsoDate env.today) :
    let start := PortalStore.fresh companyNames portalLinks
    let store := start.run codec memberships events
    let request := QuoteEvent.request env token quotationId verb accept
    let after := start.run codec memberships (events ++ [request])
    store.ReadsDecision codec env token quotationId verb →
    (∀ date,
      confirmedDate verb (quoteRequest codec env token quotationId verb accept store).1 = some date →
      ∃ link, AList.lookup (hashToken codec token) portalLinks = some link ∧
        (after.Records link.companyId quotationId verb date ↔
          (store.decidedOn link.companyId quotationId verb).isSome ∨
            ¬ WasPushed codec memberships start events link.companyId quotationId verb)) ∧
    ∀ company id, after.BothSet company id → store.BothSet company id := by
  intro start store request after hreads
  have hafter : after = (quoteRequest codec env token quotationId verb accept store).2 :=
    PortalStore.run_concat codec memberships start events request
  rw [hafter]
  refine ⟨fun date hconfirms => ?_, fun company id => quoteRequest_bothSet htoday hreads⟩
  obtain ⟨link, hlink, hiff⟩ := quoteRequest_confirms htoday hreads hconfirms
  refine ⟨link, ?_, ?_⟩
  · rw [← hlink]
    exact congrArg _ (PortalStore.run_portalLinks codec memberships start events).symm
  · rw [hiff, decisionKnown_iff]

/-! ### A quotation accepted twice -/

/-- Ann has a link to her documents of company 1. -/
def annsLinks : Table String PortalLink :=
  AList.insert (hashToken serdeCodec "ann")
    { companyId := 1, kind := .customer, party := some "Ann", expiresAt := 1000, revokedAt := none } ∅

def salesDesk : Memberships := AList.insert (7, 1) .sales ∅

/-- A device sends the quotation without a decision. -/
def sendsQuotation (id : String) (mutationType : MutationType) : QuoteEvent :=
  .push ⟨0, "2026-02-01", 0⟩ ⟨7, 1, some 5⟩ 1
    [{ id
       mutationType
       docType := "Quotation"
       documentId := "QTN-1"
       payload := [("payload", .string "\x7b\"customer\":\"Ann\"\x7d")]
       deviceId := "device-5"
       userId := "user-7"
       localTimestamp := 0
       syncVersion := none
       status := .pending }]

/-- Ann accepts it. -/
def annAccepts (day : String) : QuoteEvent := .request ⟨1, day, 0⟩ "ann" "QTN-1" .accept none

/-- The store after some events. -/
def annsRun (events : List QuoteEvent) : PortalStore :=
  (PortalStore.fresh ∅ annsLinks).run serdeCodec salesDesk events

/-- The first time, her acceptance is recorded. -/
theorem quote_decisions_ann :
    (annsRun [sendsQuotation "m-1" .createDocument, annAccepts "2026-02-01"]).Records 1 "QTN-1" .accept
      "2026-02-01" := by
  have hreads : ∀ link ∈ AList.lookup (hashToken serdeCodec "ann") annsLinks,
      ∀ doc ∈ (annsRun [sendsQuotation "m-1" .createDocument]).quotation link.companyId "QTN-1",
        serdeCodec.Reads (decidedFields ⟨1, "2026-02-01", 0⟩ doc .accept) := by decide +kernel
  have hdecisions := @quote_decisions serdeCodec salesDesk ∅ annsLinks
    [sendsQuotation "m-1" .createDocument] ⟨1, "2026-02-01", 0⟩ "ann" "QTN-1" .accept none (by decide)
    fun link doc hlink hdoc => (hreads link hlink doc hdoc).texts
  obtain ⟨link, hlink, hiff⟩ := hdecisions.1 "2026-02-01" (by decide +kernel)
  obtain rfl : link = ⟨1, .customer, some "Ann", 1000, none⟩ := by
    rw [annsLinks, AList.lookup_insert] at hlink
    exact (Option.some.inj hlink).symm
  refine hiff.2 (.inr fun hpushed => ?_)
  have hknown := (decisionKnown_iff _ _ _ _ _ _).2 hpushed
  revert hknown
  decide +kernel

/-- A device that had not pulled it sends the quotation again; the second time, her acceptance is confirmed
and not recorded. -/
theorem quote_decision_lost :
    let events := [sendsQuotation "m-1" .createDocument, annAccepts "2026-02-01",
      sendsQuotation "m-2" .updateDocument]
    confirmedDate .accept (quoteRequest serdeCodec ⟨1, "2026-02-02", 0⟩ "ann" "QTN-1" .accept none
      (annsRun events)).1 = some "2026-02-02" ∧
    ¬ (annsRun (events ++ [annAccepts "2026-02-02"])).Records 1 "QTN-1" .accept "2026-02-02" := by
  decide +kernel

end AtlasTeam
