import AtlasTeam.Store.Idempotency

/-!
# Retries and the binding of keys

What a command finds under its key it replays only when the stored response names its doctype and its
document (`boundReplay`), and every response names the doctype and the document of the command that
made it (`System.entries_name`). So a command that meets its key again, at its start or in its commit,
is answered from the table (`Call.advance_bound`).

Two things are left open. Between the two lookups stands the build, which refuses a document that is
there already: a retry that has passed the first lookup when its twin commits is told that its
document was already submitted (`retry_refused`), and `retry_replays_iff` says that this is the only
way a retry goes wrong. And a response does not name the kind of its command: a cancel replays the
submit of its own document when it comes with the same key (`cancel_replays_submit`);
`replays_own_command_iff` says that a key is bound to its command as long as that does not happen.
-/

namespace AtlasTeam

/-! ### Responses name their documents -/

/-- The response names the doctype and the document. -/
def NamesDocument (response : Value) (doctype documentId : String) : Prop :=
  (response.get "doctype").bind Value.asStr = some doctype ∧
    (response.get "document_id").bind Value.asStr = some documentId

theorem names_obj {fields : List (String × Value)} {doctype documentId : String}
    (hdoctype : fields.reverse.lookup "doctype" = some (.string doctype))
    (hdocument : fields.reverse.lookup "document_id" = some (.string documentId)) :
    NamesDocument (.obj fields) doctype documentId := by
  constructor
  · rw [Value.get_obj, hdoctype]
    rfl
  · rw [Value.get_obj, hdocument]
    rfl

/-- Other fields leave the names alone. -/
theorem NamesDocument.setField {response : Value} {doctype documentId key : String} (x : Value)
    (h : NamesDocument response doctype documentId) (hdoctype : "doctype" ≠ key)
    (hdocument : "document_id" ≠ key) : NamesDocument (response.setField key x) doctype documentId := by
  unfold NamesDocument
  rw [Value.get_setField_ne _ _ hdoctype, Value.get_setField_ne _ _ hdocument]
  exact h

theorem Command.build_names {codec : Codec} {view : StoreView} {env : Env} {companyId : Uuid}
    {actor : Actor} {documentId : String} {command : Command} {commit : PostingCommit}
    (hnames : ∀ id, command.givenId = some id → documentId = id)
    (h : command.build codec view env companyId actor documentId = .ok commit) :
    NamesDocument commit.response command.doctype documentId := by
  cases command with
  | submit cmd =>
    obtain ⟨prepared, shortfalls, settlements, updates, -, -, -, rfl⟩ := buildSubmit_ok h
    simp only [submitCommit]
    split_ifs
    · refine NamesDocument.setField _ (NamesDocument.setField _ ?_ (by decide) (by decide)) (by decide) (by decide)
      exact names_obj rfl rfl
    · exact names_obj rfl rfl
  | cancel cmd =>
    obtain ⟨doc, postingDate, guard, updates, -, -, -, -, -, rfl⟩ := buildCancel_ok h
    rw [hnames cmd.documentId rfl]
    exact names_obj rfl rfl
  | takeOn cmd =>
    obtain ⟨postingDate, stock, tb, continuations, -, -, rfl⟩ := buildOpening_ok h
    rw [hnames cmd.documentId rfl]
    exact names_obj rfl rfl

/-- Numbering writes no other field. -/
theorem Inner.numberedResponse_get {commit : PostingCommit} {inner : Inner} {field : String}
    (hfield : field ≠ "number") :
    (Inner.numberedResponse commit inner).get field = commit.response.get field := by
  have hstamp : ∀ document response number,
      (Inner.stampNumber document response number).2.get field = response.get field :=
    fun document response number => Value.get_setField_ne _ _ hfield
  simp only [Inner.numberedResponse, Inner.allocateNumber]
  cases commit.preassignedNumber with
  | none =>
    cases commit.seriesKey with
    | none => rfl
    | some key => exact hstamp _ _ _
  | some number =>
    cases commit.seriesKey with
    | none => exact hstamp _ _ _
    | some key => exact (hstamp _ _ _).trans (hstamp commit.document _ number)

/-- Numbering leaves the names alone. -/
theorem NamesDocument.numbered {commit : PostingCommit} {doctype documentId : String}
    (h : NamesDocument commit.response doctype documentId) (inner : Inner) :
    NamesDocument (Inner.numberedResponse commit inner) doctype documentId := by
  unfold NamesDocument
  rw [Inner.numberedResponse_get (by decide), Inner.numberedResponse_get (by decide)]
  exact h

/-- A named response replays for its own document. -/
theorem boundReplay_of_names {response : Value} {doctype documentId : String} {id : Option String}
    (h : NamesDocument response doctype documentId) (hid : ∀ i, id = some i → documentId = i) :
    boundReplay ⟨response, true⟩ doctype id = .ok ⟨response, true⟩ := by
  cases id with
  | none => simp [boundReplay, h.1]
  | some i => simp [boundReplay, h.1, h.2, hid i rfl]

/-! ### What an entry leaves behind -/

structure Standing (book : Book Inner) : Prop where
  /-- An entry was answered with the numbered response of its commit. -/
  answered : ∀ entry ∈ book.journal,
    entry.response = Inner.numberedResponse entry.commit entry.before
  /-- A submitted document is there. -/
  posted : ∀ entry ∈ book.journal, ∀ cmd, entry.command = .submit cmd → ∃ doc,
    AList.lookup (entry.companyId, cmd.doctype, entry.documentId) book.store.documents = some doc

theorem standing_rule {codec : Codec} {allowed : Allowed MemOp} :
    Snapshot.Rule (protocol codec (memBackend codec) allowed)
      (fun book => Kept book ∧ Standing book) fun book book' => Extends book.store book'.store := by
  refine extends_rule_and ?_ ?_
  · intro book₀ book draft inner' hkept₀ _ hgrow hkept h hbuilt hpassed happlied
    have hextends := (kept_applied hkept₀ hgrow hkept hbuilt hpassed happlied).2
    refine ⟨fun entry hentry => ?_, fun entry hentry cmd hcommand => ?_⟩
    · rcases List.mem_append.1 hentry with hentry | hentry
      · exact h.answered entry hentry
      · obtain rfl := List.mem_singleton.1 hentry
        rfl
    · rcases List.mem_append.1 hentry with hentry | hentry
      · obtain ⟨doc, hdoc⟩ := h.posted entry hentry cmd hcommand
        obtain ⟨doc', hdoc', -⟩ := hextends.documents _ doc hdoc
        exact ⟨doc', hdoc'⟩
      · obtain rfl := List.mem_singleton.1 hentry
        have hbuild := hbuilt.build
        have hsubmit : draft.command = .submit cmd := hcommand
        rw [hsubmit] at hbuild
        obtain ⟨prepared, shortfalls, settlements, updates, -, -, -, hcommit⟩ := buildSubmit_ok hbuild
        obtain ⟨doc, hdoc, -⟩ := Inner.lookup_written_self draft.commit book.store
        have hkey : Inner.docKey draft.commit = (draft.companyId, cmd.doctype, draft.documentId) := by
          rw [hcommit]
          rfl
        exact ⟨doc, hkey ▸ happlied.documents ▸ hdoc⟩
  · intro book op env h _
    refine ⟨h.answered, ?_⟩
    rw [(operate_frame codec env op book.store).documents]
    exact h.posted

theorem memRun_standing (codec : Codec) (events : List (Event MemOp)) :
    Kept (memRun codec events).book ∧ Standing (memRun codec events).book := by
  have hstart : Kept { store := {} } ∧ Standing { store := {} } :=
    ⟨kept_fresh, ⟨fun _ h => absurd h List.not_mem_nil, fun _ h => absurd h List.not_mem_nil⟩⟩
  exact System.invariant_of_rule standing_rule hstart fun event _ => event.allowed_all

/-- The response of an entry names its document. -/
theorem memRun_entry_names (codec : Codec) (events : List (Event MemOp)) :
    ∀ entry ∈ (memRun codec events).book.journal,
      NamesDocument entry.response entry.command.doctype entry.documentId := by
  intro entry hentry
  obtain ⟨-, hnames, hbuild⟩ := System.journal_faithful codec (memBackend codec) events entry hentry
  rw [(memRun_standing codec events).2.answered entry hentry]
  exact (Command.build_names hnames hbuild).numbered entry.before

/-! ### A command that meets its key -/

/-- A submit or a cancel that meets a stored response is answered with it, if the response is its
own. -/
theorem Call.advance_bound {codec : Codec} {book : Book Inner} {call : Call Inner} {key : String}
    {response : Value} {id : Option String} (hfaithful : call.Faithful codec (memBackend codec))
    (hkind : call.command.kind ≠ .takeOn) (hkey : call.command.idempotencyKey = some key)
    (hstored : AList.lookup (call.companyId, key) book.store.idempotency = some response)
    (hadmissible : call.command.Admissible call.actor) (hid : call.replayId = some id) (env : Env) :
    (call.advance codec (memBackend codec) env book).1.phase =
      .finished (boundReplay ⟨response, true⟩ call.command.doctype id) := by
  obtain ⟨companyId, actor, command, phase⟩ := call
  cases phase with
  | start =>
    obtain rfl : command.givenId = id := Option.some.inj hid
    have hview : ((memBackend codec).view book.store).idempotentResponse companyId key =
      some response := hstored
    have hstart : command.start codec ((memBackend codec).view book.store) companyId actor =
        some (boundReplay ⟨response, true⟩ command.doctype command.givenId) := by
      cases command with
      | submit cmd =>
        have hcmd : cmd.idempotencyKey = some key := hkey
        obtain ⟨hdoctype, hoffline⟩ := hadmissible
        have hchecks : (if cmd.offlineFiscal then validateOfflineFiscal cmd actor else .ok ()) =
            .ok () := by
          split_ifs with hflag
          · exact hoffline hflag
          · rfl
        simp only [Command.start, hdoctype, not_true_eq_false, if_false, hchecks, replay, hcmd,
          Option.bind_some, hview]
        rfl
      | cancel cmd =>
        have hcmd : cmd.idempotencyKey = some key := hkey
        simp only [Command.start, replay, hcmd, Option.bind_some, hview]
        rfl
      | takeOn cmd => exact absurd rfl hkind
    simp only [Call.advance, hstart]
  | committing left draft =>
    obtain rfl : some draft.documentId = id := Option.some.inj hid
    obtain ⟨-, hdraft⟩ := hfaithful
    have hreplayed : book.store.replayed draft.commit = some response := by
      rw [Inner.replayed, Command.build_idempotencyKey hdraft.build, hdraft.command,
        (Command.build_new_or_cancel hdraft.build).1, hdraft.companyId]
      simpa [hkey] using hstored
    have hanswer : ((memBackend codec).postingCommit env draft.commit book.store).1 =
        .ok ⟨response, true⟩ := by
      simp only [memBackend, Inner.postingCommit, hreplayed]
    have hsettle : command.settle codec draft.documentId
        ((memBackend codec).postingCommit env draft.commit book.store).1 =
        some (boundReplay ⟨response, true⟩ command.doctype (some draft.documentId)) := by
      rw [hanswer]
      cases command with
      | submit cmd => rfl
      | cancel cmd =>
        rw [hdraft.names cmd.documentId rfl]
        rfl
      | takeOn cmd => exact absurd rfl hkind
    simp only [Call.advance, hsettle]
  | building left documentId => cases hid
  | finished result => cases hid

/-! ### Retries -/

/-- Two submits, two cancels or two take-ons of one document under one key. -/
structure Command.Alike (command other : Command) : Prop where
  kind : command.kind = other.kind
  doctype : command.doctype = other.doctype
  givenId : command.givenId = other.givenId
  idempotencyKey : command.idempotencyKey = other.idempotencyKey

/-- Between the first lookup of the key and the commit, with nothing built. -/
def Phase.isBuilding {S : Type} : Phase S → Bool
  | .building _ _ => true
  | _ => false

/-- How a call ended. -/
def Phase.result {S : Type} : Phase S → Option (Except PostingError CommitOutcome)
  | .finished result => some result
  | _ => none

theorem Phase.result_eq_some {S : Type} {phase : Phase S}
    {result : Except PostingError CommitOutcome} :
    phase.result = some result ↔ phase = .finished result := by
  cases phase <;> simp [Phase.result]

/-- A submit builds for a document that is not there. -/
theorem preparePayload_absent {view : StoreView} {env : Env} {companyId : Uuid} {cmd : SubmitCommand}
    {documentId : String} {prepared : Prepared}
    (h : preparePayload view env companyId cmd documentId = .ok prepared) :
    view.postedDocument companyId cmd.doctype documentId = none := by
  simp only [preparePayload, Except.bind_eq_ok] at h
  obtain ⟨postingDate, -, -, -, h⟩ := h
  split_ifs at h with hthere
  · cases h
  · simpa using hthere

section Retry
variable {codec : Codec}

/-- The store refuses to build what the entry of an alike command has done. -/
theorem build_refused {book : Book Inner} (hkept : Kept book) (hstanding : Standing book)
    {entry : Entry Inner} (hentry : entry ∈ book.journal)
    (hnames : ∀ id, entry.command.givenId = some id → entry.documentId = id) {command : Command}
    {id : String} (halike : command.Alike entry.command) (hid : command.givenId = some id)
    (hkind : command.kind ≠ .takeOn) (env : Env) (actor : Actor) (commit : PostingCommit) :
    command.build codec book.store.view env entry.companyId actor id ≠ .ok commit := by
  intro hbuild
  have hdocument : entry.documentId = id := hnames id (halike.givenId ▸ hid)
  have hsame := halike.kind
  have hdoctype := halike.doctype
  cases hentryCommand : entry.command with
  | submit posted =>
    rw [hentryCommand] at hsame hdoctype
    cases command with
    | submit cmd =>
      obtain ⟨prepared, shortfalls, settlements, updates, hprepared, -⟩ := buildSubmit_ok hbuild
      obtain ⟨doc, hdoc⟩ := hstanding.posted entry hentry posted hentryCommand
      have habsent := preparePayload_absent hprepared
      have hthere : book.store.view.postedDocument entry.companyId cmd.doctype id = some doc := by
        have heq : cmd.doctype = posted.doctype := hdoctype
        rw [heq, ← hdocument]
        exact hdoc
      cases habsent.symm.trans hthere
    | cancel cmd => cases hsame
    | takeOn cmd => cases hsame
  | cancel posted =>
    rw [hentryCommand] at hsame hdoctype hnames
    cases command with
    | submit cmd => cases hsame
    | cancel cmd =>
      obtain ⟨doc, postingDate, guard, updates, hdoc, hstatus, -⟩ := buildCancel_ok hbuild
      have hkey : (entry.companyId, posted.doctype, posted.documentId) ∈
          book.journal.filterMap Entry.cancelledKey :=
        List.mem_filterMap.2 ⟨entry, hentry, by simp [Entry.cancelledKey, hentryCommand]⟩
      obtain ⟨doc', hdoc', hcancelled⟩ := hkept.cancelled _ hkey
      have hsameDoc : (entry.companyId, cmd.doctype, cmd.documentId) =
          (entry.companyId, posted.doctype, posted.documentId) := by
        have heq : cmd.doctype = posted.doctype := hdoctype
        have hid' : cmd.documentId = id := Option.some.inj hid
        rw [heq, hid', ← hdocument, hnames posted.documentId rfl]
      have hread : AList.lookup (entry.companyId, cmd.doctype, cmd.documentId)
        book.store.documents = some doc := hdoc
      rw [hsameDoc] at hread
      obtain rfl := Option.some.inj (hread.symm.trans hdoc')
      omega
    | takeOn cmd => cases hsame
  | takeOn posted =>
    rw [hentryCommand] at hsame
    exact hkind hsame

/-- Once an alike command has its entry, the next step of a call ends it: with the stored response,
unless it is about to build. -/
theorem Call.advance_retry {book : Book Inner} (hkept : Kept book) (hstanding : Standing book)
    (hkeyed : Keyed book) {entry : Entry Inner} (hentry : entry ∈ book.journal)
    (hnames : ∀ id, entry.command.givenId = some id → entry.documentId = id)
    (hresponse : NamesDocument entry.response entry.command.doctype entry.documentId)
    {call : Call Inner} (hfaithful : call.Faithful codec (memBackend codec)) {key id : String}
    (hkey : entry.command.idempotencyKey = some key) (hid : entry.command.givenId = some id)
    (hkind : entry.command.kind ≠ .takeOn) (hcompany : call.companyId = entry.companyId)
    (halike : call.command.Alike entry.command) (hopen : ∀ result, call.phase ≠ .finished result)
    (env : Env) :
    ∃ result, (call.advance codec (memBackend codec) env book).1.phase = .finished result ∧
      (result = .ok ⟨entry.response, true⟩ ↔
        call.command.Admissible call.actor ∧ call.phase.isBuilding = false) := by
  have hcallKind : call.command.kind ≠ .takeOn := halike.kind ▸ hkind
  have hcallKey : call.command.idempotencyKey = some key := halike.idempotencyKey.trans hkey
  have hcallId : call.command.givenId = some id := halike.givenId.trans hid
  have hstored : AList.lookup (call.companyId, key) book.store.idempotency = some entry.response :=
    hkeyed.stored entry hentry _ (by simp [Entry.key, hkey, hcompany])
  -- a call that looks its key up is answered with the response of the entry
  have hanswer : call.command.Admissible call.actor → ∀ i, call.replayId = some (some i) → i = id →
      (call.advance codec (memBackend codec) env book).1.phase =
        .finished (.ok ⟨entry.response, true⟩) := by
    rintro hadmissible i hi rfl
    rw [Call.advance_bound hfaithful hcallKind hcallKey hstored hadmissible hi env, halike.doctype,
      boundReplay_of_names hresponse fun i' hi' => ?_]
    rw [hnames i hid, Option.some.inj hi']
  cases hphase : call.phase with
  | start =>
    by_cases hadmissible : call.command.Admissible call.actor
    · exact ⟨_, hanswer hadmissible id (by simp [Call.replayId, hphase, hcallId]) rfl, by
        simp [hadmissible, Phase.isBuilding]⟩
    · -- the checks that read no store refuse it
      cases hstart : call.command.start codec ((memBackend codec).view book.store) call.companyId
          call.actor with
      | none => exact absurd (Command.start_eq_none hstart).1 hadmissible
      | some result =>
        refine ⟨result, by simp [Call.advance, hphase, hstart], ?_⟩
        refine ⟨?_, fun h => absurd h.1 hadmissible⟩
        rintro rfl
        exact absurd (Command.start_eq_ok hstart).1 hadmissible
  | building left documentId =>
    simp only [Call.Faithful, hphase] at hfaithful
    obtain ⟨-, hdocument⟩ := hfaithful
    obtain rfl : documentId = id := hdocument id hcallId
    have hrefused : ∀ commit, call.command.build codec book.store.view env entry.companyId call.actor
        documentId ≠ .ok commit :=
      build_refused hkept hstanding hentry hnames halike hcallId hcallKind env call.actor
    cases left with
    | zero => exact ⟨_, by simp [Call.advance, hphase, Call.build]; rfl, by simp [Phase.isBuilding]⟩
    | succ left =>
      cases hbuild : call.command.build codec ((memBackend codec).view book.store) env call.companyId
          call.actor documentId with
      | error e =>
        exact ⟨.error e, by simp [Call.advance, hphase, Call.build, hbuild], by simp [Phase.isBuilding]⟩
      | ok commit =>
        rw [hcompany] at hbuild
        exact absurd hbuild (hrefused commit)
  | committing left draft =>
    have hdraft := hfaithful
    simp only [Call.Faithful, hphase] at hdraft
    exact ⟨_, hanswer hdraft.1 draft.documentId (by simp [Call.replayId, hphase])
      (hdraft.2.names id hcallId), by simp [hdraft.1, Phase.isBuilding]⟩
  | finished result => exact absurd hphase (hopen result)

/-- A submit or cancel that is under way when an alike command commits ends with the committed
response exactly when it is admissible and is not, just then, between the first lookup of its key and
its build. -/
theorem retry_replays_iff (codec : Codec) (early late : List (Event MemOp)) (entry : Entry Inner)
    (hentry : entry ∈ (memRun codec early).book.journal) (key id : String)
    (hkey : entry.command.idempotencyKey = some key) (hid : entry.command.givenId = some id)
    (hkind : entry.command.kind ≠ .takeOn) (position : Nat) (call done : Call Inner)
    (hcall : (memRun codec early).calls[position]? = some call)
    (hcompany : call.companyId = entry.companyId) (halike : call.command.Alike entry.command)
    (hopen : ∀ result, call.phase ≠ .finished result)
    (hdone : (memRun codec (early ++ late)).calls[position]? = some done)
    (result : Except PostingError CommitOutcome) (hresult : done.phase = .finished result) :
    result = .ok ⟨entry.response, true⟩ ↔
      call.command.Admissible call.actor ∧ call.phase.isBuilding = false := by
  induction late generalizing early with
  | nil =>
    rw [List.append_nil] at hdone
    obtain rfl := Option.some.inj (hcall.symm.trans hdone)
    exact absurd hresult (hopen result)
  | cons event late ih =>
    have hsplit : early ++ event :: late = (early ++ [event]) ++ late := by simp
    rw [hsplit] at hdone
    have hstep : (memRun codec (early ++ [event])).calls[position]? = some call ∨
        ∃ env, event = .advance position env ∧ (memRun codec (early ++ [event])).calls[position]? =
          some (call.advance codec (memBackend codec) env (memRun codec early).book).1 := by
      rw [memRun_concat]
      exact System.step_call hcall event
    rcases hstep with hsame | ⟨env, -, hmoved⟩
    · have hkept := (memRun_journal_grows codec early [event]).subset hentry
      exact ih (early ++ [event]) hkept hsame hdone
    · have hfaithful := System.calls_faithful codec (memBackend codec) call (List.mem_of_getElem? hcall)
      obtain ⟨-, hnames, -⟩ := System.journal_faithful codec (memBackend codec) early entry hentry
      obtain ⟨hkept, hstanding⟩ := memRun_standing codec early
      obtain ⟨answer, hanswer, hiff⟩ := Call.advance_retry hkept hstanding (memRun_keyed codec early)
        hentry hnames (memRun_entry_names codec early entry hentry) hfaithful hkey hid hkind hcompany
        halike hopen env
      have hlater : (memRun codec ((early ++ [event]) ++ late)).calls[position]? =
          some (call.advance codec (memBackend codec) env (memRun codec early).book).1 := by
        rw [memRun, System.run_append]
        exact System.run_finished hmoved hanswer late
      obtain rfl := Option.some.inj (hlater.symm.trans hdone)
      obtain rfl : answer = result := by simpa [hanswer] using hresult
      exact hiff

end Retry

/-- Every submit or cancel that is under way when an identical one has committed ends with the
committed response. -/
def RetriesReplay (codec : Codec) (events : List (Event MemOp)) : Prop :=
  ∀ early late, early ++ late = events → ∀ entry ∈ (memRun codec early).book.journal,
    ∀ key id, entry.command.idempotencyKey = some key → entry.command.givenId = some id →
    entry.command.kind ≠ .takeOn → ∀ (position : Nat) (call done : Call Inner),
    (memRun codec early).calls[position]? = some call → call.companyId = entry.companyId →
    call.command = entry.command → (∀ result, call.phase ≠ .finished result) →
    (memRun codec (early ++ late)).calls[position]? = some done →
    ∀ result, done.phase = .finished result → result = .ok ⟨entry.response, true⟩

/-- Rent, sent under a key. -/
def keyedRent : Command :=
  .submit
    { doctype := "Expense"
      documentId := some "EX-1"
      payload := [("expense_account", .string "Rent"), ("gross_amount", .int 118),
        ("net_amount", .int 100), ("posting_date", .string "2026-01-05"), ("tax_amount", .int 18)]
      items := []
      idempotencyKey := some "rent-1"
      offlineFiscal := false }

/-- Only the expense is sent. -/
def rentOnly : Allowed MemOp := ⟨fun command => command = keyedRent, fun _ => True⟩

/-- A run of the one expense, of one company: its only entry and a call that is under way. -/
theorem rent_under_way {events : List (Event MemOp)} {position : Nat} {building : Bool}
    (hevents : ∀ event ∈ events, event.Allowed rentOnly)
    (hjournal : (memRun serdeCodec events).book.journal.map (fun entry => entry.companyId) = [1])
    (hcalls : (memRun serdeCodec events).calls[position]?.map
      (fun call => (call.companyId, call.phase.isBuilding, call.phase.result.isNone)) =
        some (1, building, true)) :
    ∃ entry call, (memRun serdeCodec events).book.journal = [entry] ∧
      (memRun serdeCodec events).calls[position]? = some call ∧ entry.command = keyedRent ∧
      call.command = keyedRent ∧ call.companyId = entry.companyId ∧
      call.phase.isBuilding = building ∧ ∀ result, call.phase ≠ .finished result := by
  obtain ⟨entry, hentry⟩ : ∃ entry, (memRun serdeCodec events).book.journal = [entry] := by
    refine List.length_eq_one_iff.1 ?_
    have hlength := congrArg List.length hjournal
    simpa using hlength
  obtain ⟨call, hcall, hfacts⟩ := Option.map_eq_some_iff.1 hcalls
  simp only [Prod.mk.injEq] at hfacts
  obtain ⟨hcompany, hbuilding, hopen⟩ := hfacts
  refine ⟨entry, call, hentry, hcall, ?_, ?_, ?_, hbuilding, ?_⟩
  · exact System.journal_allowed serdeCodec (memBackend serdeCodec) hevents entry
      (hentry ▸ List.mem_singleton_self entry)
  · exact System.calls_allowed serdeCodec (memBackend serdeCodec) hevents call
      (List.mem_of_getElem? hcall)
  · rw [hentry, List.map_singleton, List.cons.injEq] at hjournal
    exact hcompany.trans hjournal.1.symm
  · intro result hphase
    simp [hphase, Phase.result] at hopen

/-- The expense is sent twice; the first is posted while the second has not started, or while it
stands before its build. -/
def rentTwice (retryStarted : Bool) : List (Event MemOp) :=
  let env : Env := ⟨0, "2026-01-05", 0⟩
  let clerk : Actor := ⟨some 7, some 5, none⟩
  [.call 1 clerk keyedRent, .call 1 clerk keyedRent, .advance 0 env] ++
    (if retryStarted then [.advance 1 env] else []) ++ [.advance 0 env, .advance 0 env]

theorem rentTwice_allowed (retryStarted : Bool) :
    ∀ event ∈ rentTwice retryStarted, event.Allowed rentOnly := by
  cases retryStarted <;> simp [rentTwice, Event.Allowed, rentOnly]

theorem retry_replays_rent : ∃ entry done,
    (memRun serdeCodec (rentTwice false)).book.journal = [entry] ∧
    (memRun serdeCodec (rentTwice false ++ [.advance 1 ⟨0, "2026-01-05", 0⟩])).calls[1]? = some done ∧
    done.phase = .finished (.ok ⟨entry.response, true⟩) := by
  obtain ⟨entry, call, hjournal, hcall, hentry, hcommand, hcompany, hbuilding, hopen⟩ :
      ∃ entry call, _ ∧ (memRun serdeCodec (rentTwice false)).calls[1]? = some call ∧ _ ∧ _ ∧ _ ∧
        call.phase.isBuilding = false ∧ _ :=
    rent_under_way (rentTwice_allowed false) (by decide +kernel) (by decide +kernel)
  have hends : ((memRun serdeCodec
      (rentTwice false ++ [Event.advance 1 ⟨0, "2026-01-05", 0⟩])).calls[1]?.bind
        fun call => call.phase.result).isSome = true := by decide +kernel
  obtain ⟨result, hends⟩ := Option.isSome_iff_exists.1 hends
  obtain ⟨done, hdone, hresult⟩ := Option.bind_eq_some_iff.1 hends
  have hfinished := Phase.result_eq_some.1 hresult
  have halike : call.command.Alike entry.command := by
    rw [hcommand, hentry]
    exact ⟨rfl, rfl, rfl, rfl⟩
  have hadmissible : call.command.Admissible call.actor := by
    rw [hcommand]
    exact ⟨by decide, fun h => Bool.noConfusion h⟩
  have hmem : entry ∈ (memRun serdeCodec (rentTwice false)).book.journal :=
    hjournal ▸ List.mem_singleton_self entry
  have hiff := retry_replays_iff serdeCodec (rentTwice false) [.advance 1 ⟨0, "2026-01-05", 0⟩] entry
    hmem "rent-1" "EX-1" (by rw [hentry]; rfl) (by rw [hentry]; rfl)
    (by rw [hentry]; exact CommandKind.noConfusion) 1 call done hcall hcompany halike hopen hdone result
    hfinished
  exact ⟨entry, done, hjournal, hdone, hiff.2 ⟨hadmissible, hbuilding⟩ ▸ hfinished⟩

/-- The retry that stands before its build is told that its own document was already submitted. -/
theorem retry_refused :
    ¬ RetriesReplay serdeCodec (rentTwice true ++ [.advance 1 ⟨0, "2026-01-05", 0⟩]) := by
  intro h
  obtain ⟨entry, call, hjournal, hcall, hentry, hcommand, hcompany, -, hopen⟩ :
      ∃ entry call, _ ∧ (memRun serdeCodec (rentTwice true)).calls[1]? = some call ∧ _ ∧ _ ∧ _ ∧
        call.phase.isBuilding = true ∧ _ :=
    rent_under_way (rentTwice_allowed true) (by decide +kernel) (by decide +kernel)
  have hends : ((memRun serdeCodec
      (rentTwice true ++ [Event.advance 1 ⟨0, "2026-01-05", 0⟩])).calls[1]?.bind
        fun call => call.phase.result).map Except.toBool = some false := by decide +kernel
  obtain ⟨result, hends, herror⟩ := Option.map_eq_some_iff.1 hends
  obtain ⟨done, hdone, hresult⟩ := Option.bind_eq_some_iff.1 hends
  have hmem : entry ∈ (memRun serdeCodec (rentTwice true)).book.journal :=
    hjournal ▸ List.mem_singleton_self entry
  have hreplays := h (rentTwice true) _ rfl entry hmem "rent-1" "EX-1" (by rw [hentry]; rfl)
    (by rw [hentry]; rfl) (by rw [hentry]; exact CommandKind.noConfusion) 1 call done hcall hcompany
    (hcommand.trans hentry.symm) hopen hdone result (Phase.result_eq_some.1 hresult)
  rw [hreplays] at herror
  cases herror

/-! ### One command per key -/

/-- What a submit or a cancel has replayed under a key was stored by a command of its kind, for its
doctype and for the document it named. -/
def OwnReplays (system : System Inner) : Prop :=
  ∀ call ∈ system.calls, call.command.kind ≠ .takeOn → ∀ outcome key,
    call.phase = .finished (.ok outcome) → outcome.replayed = true →
    call.command.idempotencyKey = some key →
    ∃ entry, postedUnder system.book.journal call.companyId key = [entry] ∧
      entry.response = outcome.response ∧ entry.command.kind = call.command.kind ∧
      entry.command.doctype = call.command.doctype ∧
      ∀ id, call.command.givenId = some id → entry.documentId = id

/-- The event lets a submit or a cancel look up a key under which a command of another kind has
posted the same document. -/
def CrossesKinds (system : System Inner) (event : Event MemOp) : Prop :=
  ∃ position env call id key, ∃ entry ∈ postedUnder system.book.journal call.companyId key,
    event = .advance position env ∧ system.calls[position]? = some call ∧
    call.command.kind ≠ .takeOn ∧ call.command.Admissible call.actor ∧ call.replayId = some id ∧
    call.command.idempotencyKey = some key ∧ entry.command.doctype = call.command.doctype ∧
    (∀ i, id = some i → entry.documentId = i) ∧ entry.command.kind ≠ call.command.kind

theorem mem_postedUnder {journal : List (Entry Inner)} {company : Uuid} {key : String}
    {entry : Entry Inner} :
    entry ∈ postedUnder journal company key ↔ entry ∈ journal ∧ entry.key = some (company, key) := by
  simp [postedUnder, List.mem_filter]

/-- The entry of a key stays the only one. -/
theorem postedUnder_eq_singleton {codec : Codec} {events : List (Event MemOp)} {company : Uuid}
    {key : String} {entry : Entry Inner}
    (h : entry ∈ postedUnder (memRun codec events).book.journal company key) :
    postedUnder (memRun codec events).book.journal company key = [entry] := by
  have hlength := (memRun_keyed codec events).postedUnder_length company key
  obtain ⟨only, honly⟩ := List.length_eq_one_iff.1 (le_antisymm hlength (List.length_pos_of_mem h))
  rw [honly] at h ⊢
  rw [List.mem_singleton.1 h]

theorem postedUnder_mono {codec : Codec} {events : List (Event MemOp)} {event : Event MemOp}
    {company : Uuid} {key : String} {entry : Entry Inner}
    (h : entry ∈ postedUnder (memRun codec events).book.journal company key) :
    entry ∈ postedUnder (memRun codec (events ++ [event])).book.journal company key := by
  rw [mem_postedUnder] at h ⊢
  exact ⟨(memRun_journal_grows codec events [event]).subset h.1, h.2⟩

/-- A call that takes a step which does not cross kinds replays its own command. -/
theorem advance_ownReplay {codec : Codec} {events : List (Event MemOp)} {position : Nat} {env : Env}
    {call : Call Inner} (hcall : (memRun codec events).calls[position]? = some call)
    (hopen : ∀ result, call.phase ≠ .finished result)
    (hcross : ¬ CrossesKinds (memRun codec events) (.advance position env))
    (hkind : call.command.kind ≠ .takeOn) {outcome : CommitOutcome} {key : String}
    (hphase : (call.advance codec (memBackend codec) env (memRun codec events).book).1.phase =
      .finished (.ok outcome))
    (hreplayed : outcome.replayed = true) (hkey : call.command.idempotencyKey = some key) :
    ∃ entry ∈ postedUnder (memRun codec events).book.journal call.companyId key,
      entry.response = outcome.response ∧ entry.command.kind = call.command.kind ∧
      entry.command.doctype = call.command.doctype ∧
      ∀ id, call.command.givenId = some id → entry.documentId = id := by
  have hfaithful := System.calls_faithful codec (memBackend codec) call (List.mem_of_getElem? hcall)
  obtain ⟨hadmissible, ⟨id, hid⟩, -, key', hkey', hstored⟩ :=
    Call.advance_eq_replay hfaithful hopen hphase hreplayed
  obtain rfl := Option.some.inj (hkey'.symm.trans hkey)
  obtain ⟨entry, hentry, hentryKey, hresponse⟩ := (memRun_keyed codec events).source _ _ hstored
  have hnames := memRun_entry_names codec events entry hentry
  -- the response was accepted as that of this doctype and document
  have hbound := Call.advance_bound hfaithful hkind hkey' hstored hadmissible hid env
  rw [hphase, Phase.finished.injEq] at hbound
  obtain ⟨-, hdoctype, hdocument⟩ := boundReplay_eq_ok hbound.symm
  have hsameDoctype : entry.command.doctype = call.command.doctype :=
    hdoctype _ (hresponse ▸ hnames.1)
  have hsameId : ∀ i, id = some i → entry.documentId = i := by
    intro i hi
    have hstoredId := hdocument i hi
    rw [← hresponse, hnames.2] at hstoredId
    exact Option.some.inj hstoredId
  have hposted : entry ∈ postedUnder (memRun codec events).book.journal call.companyId key' :=
    mem_postedUnder.2 ⟨hentry, hentryKey⟩
  have hsameKind : entry.command.kind = call.command.kind := by
    by_contra hne
    exact hcross ⟨position, env, call, id, key', entry, hposted, rfl, hcall, hkind, hadmissible, hid,
      hkey', hsameDoctype, hsameId, hne⟩
  refine ⟨entry, hposted, hresponse, hsameKind, hsameDoctype, fun given hgiven => ?_⟩
  cases hphase' : call.phase with
  | start =>
    simp only [Call.replayId, hphase', Option.some.injEq] at hid
    exact hsameId given (hid ▸ hgiven)
  | committing left draft =>
    simp only [Call.replayId, hphase', Option.some.injEq] at hid
    simp only [Call.Faithful, hphase'] at hfaithful
    rw [hsameId draft.documentId hid.symm]
    exact hfaithful.2.names given hgiven
  | _ => simp [Call.replayId, hphase'] at hid

/-- In a run every submit and cancel replays only its own command exactly when no step of the run
lets one look up a key under which a command of another kind has posted the same document. -/
theorem replays_own_command_iff (codec : Codec) (events : List (Event MemOp)) :
    (∀ early, early <+: events → OwnReplays (memRun codec early)) ↔
      ∀ early event, early ++ [event] <+: events → ¬ CrossesKinds (memRun codec early) event := by
  constructor
  · rintro hown early event hprefix
      ⟨position, env, call, id, key, entry, hposted, rfl, hcall, hkind, hadmissible, hid, hkey,
        hdoctype, hdocument, hne⟩
    have hfaithful := System.calls_faithful codec (memBackend codec) call (List.mem_of_getElem? hcall)
    obtain ⟨hentry, hentryKey⟩ := mem_postedUnder.1 hposted
    have hstored := (memRun_keyed codec early).stored entry hentry _ hentryKey
    have hanswer := Call.advance_bound hfaithful hkind hkey hstored hadmissible hid env
    rw [← hdoctype, boundReplay_of_names (memRun_entry_names codec early entry hentry) hdocument]
      at hanswer
    have hmoved : (call.advance codec (memBackend codec) env (memRun codec early).book).1 ∈
        (memRun codec (early ++ [Event.advance position env])).calls := by
      rw [memRun_concat]
      simp only [System.step, hcall]
      exact List.mem_set (List.getElem?_eq_some_iff.1 hcall).1 _
    obtain ⟨hcompany, hcommand⟩ := Call.advance_command codec call env (memRun codec early).book
    obtain ⟨other, hother, -, hsame, -⟩ := hown _ hprefix _ hmoved (hcommand ▸ hkind) _ key hanswer rfl
      (hcommand ▸ hkey)
    rw [hcompany, postedUnder_eq_singleton (postedUnder_mono hposted)] at hother
    obtain rfl : entry = other := by simpa using hother
    exact hne (hsame.trans (congrArg Command.kind hcommand))
  · intro hsteps early
    induction early using List.reverseRecOn with
    | nil => exact fun _ call hcall => absurd hcall List.not_mem_nil
    | append_singleton early event ih =>
      intro hprefix call hmem hkind outcome key hphase hreplayed hkey
      have hown := ih ((List.prefix_append _ _).trans hprefix)
      obtain ⟨position, hposition⟩ := List.getElem?_of_mem hmem
      -- what was replayed before stays so
      have hkept : ∀ old, (memRun codec early).calls[position]? = some old → old = call →
          ∃ entry, postedUnder (memRun codec (early ++ [event])).book.journal call.companyId key =
            [entry] ∧ entry.response = outcome.response ∧ entry.command.kind = call.command.kind ∧
            entry.command.doctype = call.command.doctype ∧
            ∀ id, call.command.givenId = some id → entry.documentId = id := by
        rintro old hold rfl
        obtain ⟨entry, hentry, hrest⟩ := hown old (List.mem_of_getElem? hold) hkind outcome key hphase
          hreplayed hkey
        exact ⟨entry, postedUnder_eq_singleton (postedUnder_mono (hentry ▸ List.mem_singleton_self _)),
          hrest⟩
      have hposition' := hposition
      rw [memRun_concat] at hposition'
      rcases System.step_call_cases hposition' with
        ⟨hold, -⟩ | ⟨-, hstart⟩ | ⟨env, old, rfl, hold, hadvance⟩
      · exact hkept call hold rfl
      · cases hstart.symm.trans hphase
      · obtain rfl : call = (old.advance codec (memBackend codec) env (memRun codec early).book).1 :=
          congrArg Prod.fst hadvance
        obtain ⟨hcompany, hcommand⟩ := Call.advance_command codec old env (memRun codec early).book
        by_cases hopen : ∀ result, old.phase ≠ .finished result
        · rw [hcommand] at hkind hkey
          obtain ⟨entry, hentry, hrest⟩ := advance_ownReplay hold hopen (hsteps early _ hprefix) hkind
            hphase hreplayed hkey
          rw [hcompany, hcommand]
          exact ⟨entry, postedUnder_eq_singleton (postedUnder_mono hentry), hrest⟩
        · simp only [not_forall, not_not] at hopen
          obtain ⟨result, hfinished⟩ := hopen
          exact hkept old hold (by simp [Call.advance, hfinished])

/-- The expense is posted, then its cancel is sent under the same key. -/
def rentCancelled : List (Event MemOp) :=
  let env : Env := ⟨0, "2026-01-05", 0⟩
  let clerk : Actor := ⟨some 7, some 5, none⟩
  Event.whole 1 clerk keyedRent 0 env ++
    [.call 1 clerk (.cancel ⟨"Expense", "EX-1", some "rent-1"⟩), .advance 1 env]

/-- The cancel is answered with the response of the submit, and nothing is cancelled. -/
theorem cancel_replays_submit : ¬ OwnReplays (memRun serdeCodec rentCancelled) := by
  intro hown
  have hjournal : (memRun serdeCodec rentCancelled).book.journal.map (fun entry =>
      entry.command.kind) = [.submit] := by decide +kernel
  have hcalls : (memRun serdeCodec rentCancelled).calls[1]?.bind (fun call =>
      if call.command.kind = .cancel ∧ call.command.idempotencyKey = some "rent-1" then
        call.phase.result.bind fun result => result.toOption.map CommitOutcome.replayed
      else none) = some true := by decide +kernel
  obtain ⟨call, hcall, hanswer⟩ := Option.bind_eq_some_iff.1 hcalls
  split_ifs at hanswer with hcancel
  obtain ⟨result, hresult, hok⟩ := Option.bind_eq_some_iff.1 hanswer
  obtain ⟨outcome, hok, hreplayed⟩ := Option.map_eq_some_iff.1 hok
  have hphase : call.phase = .finished (.ok outcome) := by
    rw [Phase.result_eq_some.1 hresult]
    cases result with
    | error e => cases hok
    | ok answer => rw [Option.some.inj hok]
  obtain ⟨entry, hentry, -, hkind, -⟩ := hown call (List.mem_of_getElem? hcall)
    (by rw [hcancel.1]; exact CommandKind.noConfusion) outcome "rent-1" hphase hreplayed hcancel.2
  have hmem : entry ∈ (memRun serdeCodec rentCancelled).book.journal :=
    (mem_postedUnder.1 (hentry ▸ List.mem_singleton_self entry)).1
  have hsubmit : entry.command.kind ∈ [CommandKind.submit] := hjournal ▸ List.mem_map_of_mem hmem
  rw [hkind, hcancel.1] at hsubmit
  exact absurd hsubmit (by decide)

end AtlasTeam
