import AtlasTeam.Api.Delivery
import AtlasTeam.ServerRuns
import AtlasTeam.Store.HistoryChain
import AtlasTeam.Store.Retries

/-!
# What an answer vouches for

The answer to a submit or a cancel carries the version and the chain value of the company's history. They are read
after the command has settled, so the records of its posting are below that version: a server that gives the same
value for the version has these records, and every later state of the same server does give it
(`receipt_covers_posting`).
-/

namespace AtlasTeam

/-! ### The posting system in a run of the server -/

/-- A step of the server is at most one step of the posting system. -/
theorem Server.step_system (config : ServerConfig) (server : Server) (event : ServerEvent) :
    ∃ engine, (server.step config event).system =
      server.system.run config.codec (memBackend config.codec) engine := by
  have happly : ∀ effect : ServerEffect, ∃ engine, (server.apply config.codec effect).system =
      server.system.run config.codec (memBackend config.codec) engine := by
    intro effect
    cases effect with
    | engine event => exact ⟨[event], rfl⟩
    | _ => exact ⟨[], rfl⟩
  cases event with
  | operate op env => exact ⟨[.operate op env], rfl⟩
  | advance position env =>
    simp only [step]
    split
    · exact happly _
    · exact ⟨[], rfl⟩
  | advanceWebhook position env =>
    simp only [step]
    split
    · exact happly _
    · exact ⟨[], rfl⟩
  | _ => exact ⟨[], rfl⟩

/-- The posting system of a run goes on from the one of an earlier run. -/
theorem serverRun_system (config : ServerConfig) {early late : List ServerEvent} (h : early <+: late) :
    ∃ first later, (serverRun config early).system = memRun config.codec first ∧
      (serverRun config late).system = memRun config.codec (first ++ later) := by
  have hrun : ∀ events later, ∃ engine, (serverRun config (events ++ later)).system =
      (serverRun config events).system.run config.codec (memBackend config.codec) engine := by
    intro events later
    induction later using List.reverseRecOn with
    | nil =>
      rw [List.append_nil]
      exact ⟨[], rfl⟩
    | append_singleton later event ih =>
      obtain ⟨engine, hengine⟩ := ih
      obtain ⟨step, hstep⟩ := (serverRun config (events ++ later)).step_system config event
      refine ⟨engine ++ step, ?_⟩
      rw [← List.append_assoc, serverRun_concat, hstep, hengine, System.run_append]
  obtain ⟨later, rfl⟩ := h
  obtain ⟨first, hfirst⟩ := hrun [] early
  obtain ⟨engine, hengine⟩ := hrun early later
  refine ⟨first, engine, hfirst, ?_⟩
  rw [hengine, memRun, System.run_append]
  exact congrArg (System.run _ _ · engine) hfirst

/-! ### The log only grows -/

section Log
variable {codec : Codec} {allowed : Allowed MemOp}

theorem logGrows_rule : Snapshot.Rule (protocol codec (memBackend codec) allowed) (fun _ => True)
    fun book book' => ∀ company, book.store.mutations.log company <+: book'.store.mutations.log company where
  refl _ _ := List.prefix_rfl
  trans h h' company := (h company).trans (h' company)
  commit := by
    rintro book₀ book _ draft - - - - ⟨env, rfl⟩
    refine ⟨trivial, fun company => ?_⟩
    rcases commit_effects codec env draft book with
      ⟨response, -, -, hsame⟩ | ⟨e, -, -, hsame⟩ | ⟨inner', heffects, -, hbook⟩
    · rw [hsame]
    · rw [hsame]
    · obtain ⟨records, -, hlog⟩ := heffects.syncLog
      rw [hbook, show inner'.mutations = inner'.toSyncLog.mutations from rfl, hlog]
      exact SyncLog.appendMutations_prefix ..
  other := by
    rintro book _ - ⟨op, env, -, rfl⟩
    refine ⟨trivial, fun company => ?_⟩
    show _ <+: ((memBackend codec).operate env op book.store).toSyncLog.mutations.log company
    rw [operate_syncLog]
    split
    · exact SyncLog.appendMutations_prefix ..
    · exact List.prefix_rfl

theorem memRun_records_grow (codec : Codec) (early late : List (Event MemOp)) (company : Uuid) :
    (memRun codec early).book.store.toSyncLog.records company <+:
      (memRun codec (early ++ late)).book.store.toSyncLog.records company :=
  (System.growth_of_rule logGrows_rule trivial (fun event _ => event.allowed_all)
    (fun event _ => event.allowed_all) company).map _

/-- These records of a log have one under every name of the entry, and where its names reach the log, they have
the records that its commit sent, but for a sync version. -/
structure Entry.CoveredBy (codec : Codec) (entry : Entry Inner) (log : List MutationRecord) : Prop where
  named : ∀ name ∈ entry.recordNames, ∃ r ∈ log, r.id = name.spell
  sent : entry.Reaches → ∃ env records,
    Inner.replicated codec env entry.commit entry.before = .ok records ∧
      ∀ r ∈ records, ∃ r' ∈ log, r'.unversioned = r.unversioned

theorem Entry.CoveredBy.mono {entry : Entry Inner} {log log' : List MutationRecord}
    (h : entry.CoveredBy codec log)
    (hlog : ∀ r ∈ log, ∃ r' ∈ log', r'.unversioned = r.unversioned) : entry.CoveredBy codec log' := by
  constructor
  case named =>
    intro name hname
    obtain ⟨r, hr, hid⟩ := h.named name hname
    obtain ⟨r', hr', hsame⟩ := hlog r hr
    have hid' : r'.unversioned.id = r.unversioned.id := congrArg MutationRecord.id hsame
    exact ⟨r', hr', hid'.trans hid⟩
  case sent =>
    intro hreaches
    obtain ⟨env, records, hrecords, hsent⟩ := h.sent hreaches
    refine ⟨env, records, hrecords, fun r hr => ?_⟩
    obtain ⟨r', hr', hsame⟩ := hsent r hr
    obtain ⟨r'', hr'', hsame'⟩ := hlog r' hr'
    exact ⟨r'', hr'', hsame'.trans hsame⟩

/-- The log covers every entry of the journal. -/
structure InLog (codec : Codec) (book : Book Inner) : Prop where
  company : ∀ entry ∈ book.journal, entry.commit.companyId = entry.companyId
  kept : ∀ company, book.store.toSyncLog.Kept company
  covered : ∀ entry ∈ book.journal, entry.CoveredBy codec (book.store.toSyncLog.records entry.companyId)

theorem inLog_fresh : InLog codec { store := {} } where
  company _ h := absurd h List.not_mem_nil
  kept := SyncLog.kept_empty
  covered _ h := absurd h List.not_mem_nil

/-- Entries stay covered by a log that goes on. -/
theorem InLog.covered_prefix {book : Book Inner} (h : InLog codec book) {log : SyncLog}
    (hgrow : ∀ company, book.store.mutations.log company <+: log.mutations.log company) :
    ∀ entry ∈ book.journal, entry.CoveredBy codec (log.records entry.companyId) := by
  intro entry hentry
  refine (h.covered entry hentry).mono fun r hr => ⟨r, ?_, rfl⟩
  exact ((hgrow entry.companyId).map StoredMutation.record).subset hr

/-- The records of a commit are in the log it leaves. -/
theorem Inner.Effects.covered {commit : PostingCommit} {inner inner' : Inner} {env : Env}
    (heffects : Inner.Effects codec env commit inner inner') {entry : Entry Inner}
    (hcommit : entry.commit = commit) (hbefore : entry.before = inner)
    (hcompany : commit.companyId = entry.companyId)
    (hkept : inner.toSyncLog.Kept entry.companyId) :
    entry.CoveredBy codec (inner'.toSyncLog.records entry.companyId) := by
  subst hcommit hbefore
  obtain ⟨records, hrecords, hlog⟩ := heffects.syncLog
  have hids : records.map MutationRecord.id = entry.recordNames.map RecordName.spell :=
    replicationMutations_ids hrecords
  rw [hcompany] at hlog
  rw [hlog]
  constructor
  case named =>
    intro name hname
    have hknown : (AList.lookup (entry.companyId, name.spell) (entry.before.toSyncLog.appendMutations codec
        env entry.companyId records).mutationVersions).isSome := by
      rw [SyncLog.appendMutations_knows, hids]
      exact .inr ⟨rfl, List.mem_map_of_mem hname⟩
    obtain ⟨version, hversion⟩ := Option.isSome_iff_exists.1 hknown
    obtain ⟨m, hm, hid, -⟩ := ((hkept.appendMutations records).known _ _).1 hversion
    exact ⟨m.record, List.mem_map_of_mem hm, hid⟩
  case sent =>
    intro hreaches
    obtain ⟨-, -, hadded⟩ := (delivered_iff_reaches hkept).2 hreaches env records hrecords
    refine ⟨env, records, hrecords, fun r hr => ⟨r, ?_, rfl⟩⟩
    obtain ⟨i, hi, rfl⟩ := List.getElem_of_mem hr
    rw [SyncLog.records, hadded]
    exact List.mem_map.2 ⟨_, List.mem_append_right _ (List.mem_mapIdx.2 ⟨i, hi, rfl⟩), rfl⟩

theorem inLog_rule : Snapshot.Rule (protocol codec (memBackend codec) allowed)
    (fun book => Kept book ∧ InLog codec book) fun book book' => Extends book.store book'.store := by
  refine effects_rule_and ?_ ?_
  · intro book₀ book draft env inner' _ _ _ _ h hbuilt heffects
    have hcompany : draft.commit.companyId = draft.companyId :=
      (Command.build_new_or_cancel hbuilt.build).1
    obtain ⟨records, -, hlog⟩ := heffects.syncLog
    constructor
    case company =>
      exact List.forall_mem_append.2 ⟨h.company, List.forall_mem_singleton.2 hcompany⟩
    case kept =>
      intro company
      rw [hlog]
      exact (h.kept company).appendMutations records
    case covered =>
      refine List.forall_mem_append.2 ⟨h.covered_prefix fun company => ?_, ?_⟩
      · rw [hlog]
        exact SyncLog.appendMutations_prefix ..
      · exact List.forall_mem_singleton.2 (heffects.covered rfl rfl hcompany (h.kept _))
  · intro book op env h _
    constructor
    case company => exact h.company
    case kept =>
      intro company
      rw [operate_syncLog]
      split
      · exact (h.kept company).appendMutations _
      · exact h.kept company
    case covered =>
      refine h.covered_prefix fun company => ?_
      rw [operate_syncLog]
      split
      · exact SyncLog.appendMutations_prefix ..
      · exact List.prefix_rfl

/-- The log of a run covers its postings. -/
theorem memRun_inLog (codec : Codec) (events : List (Event MemOp)) :
    ∀ entry ∈ (memRun codec events).book.journal,
      entry.CoveredBy codec ((memRun codec events).book.store.toSyncLog.records entry.companyId) := by
  have hstart : Kept { store := {} } ∧ InLog codec { store := {} } := ⟨kept_fresh, inLog_fresh⟩
  have hinLog : Kept (memRun codec events).book ∧ InLog codec (memRun codec events).book :=
    System.invariant_of_rule inLog_rule hstart fun event _ => event.allowed_all
  exact hinLog.2.covered

end Log

/-! ### Answered commands -/

/-- An entry is the posting of a command of a company, or the one of its key. -/
def Entry.Answers (entry : Entry Inner) (companyId : Uuid) (command : Command) : Prop :=
  entry.companyId = companyId ∧
    (entry.command = command ∨ ∃ key, command.idempotencyKey = some key ∧ entry.key = some (companyId, key))

/-- What a call has answered is the response of an entry. -/
def Call.Settled (book : Book Inner) (call : Call Inner) : Prop :=
  ∀ outcome, call.phase = .finished (.ok outcome) →
    ∃ entry ∈ book.journal, entry.Answers call.companyId call.command ∧ entry.response = outcome.response

section Answers
variable {codec : Codec} {book : Book Inner} {call : Call Inner}

/-- A stored response is the one of an entry. -/
theorem Keyed.answers (hkeyed : Keyed book) {companyId : Uuid} {command : Command} {key : String} {response : Value}
    (hkey : command.idempotencyKey = some key)
    (hstored : AList.lookup (companyId, key) book.store.idempotency = some response) :
    ∃ entry ∈ book.journal, entry.Answers companyId command ∧ entry.response = response := by
  obtain ⟨entry, hentry, hentryKey, hresponse⟩ := hkeyed.source _ _ hstored
  obtain ⟨key', -, hpair⟩ := Option.map_eq_some_iff.1 hentryKey
  exact ⟨entry, hentry, ⟨(Prod.mk.inj hpair).1, .inr ⟨key, hkey, hentryKey⟩⟩, hresponse⟩

theorem Call.advance_settled (hkeyed : Keyed book) (hfaithful : call.Faithful codec (memBackend codec))
    (h : call.Settled book) (env : Env) :
    (call.advance codec (memBackend codec) env book).1.Settled
      (call.advance codec (memBackend codec) env book).2 := by
  intro outcome hdone
  obtain ⟨hcompany, hcommand⟩ := Call.advance_command codec call env book
  rw [hcompany, hcommand]
  cases hphase : call.phase with
  | start =>
    simp only [Call.advance, hphase] at hdone ⊢
    split at hdone
    · rename_i result hstart
      obtain rfl : result = .ok outcome := by simpa using hdone
      obtain ⟨-, key, hkey, hstored⟩ := Command.start_eq_ok hstart
      exact hkeyed.answers hkey hstored
    · cases hdone
  | building left documentId =>
    exfalso
    simp only [Call.advance, hphase, Call.build] at hdone
    split at hdone
    · cases hdone
    · split at hdone <;> cases hdone
  | committing left draft =>
    simp only [Call.Faithful, hphase] at hfaithful
    obtain ⟨-, hdraft⟩ := hfaithful
    simp only [Call.advance, hphase] at hdone ⊢
    split at hdone
    · rename_i result hsettle
      obtain rfl : result = .ok outcome := by simpa using hdone
      have hanswer := Command.settle_eq_ok hsettle
      rcases commit_effects codec env draft book with
        ⟨response, hstored, hrun, hsame⟩ | ⟨e, -, hrun, -⟩ | ⟨inner', -, hrun, hbook⟩
      · obtain rfl := Except.ok.inj (hanswer.symm.trans hrun)
        obtain ⟨key, hkey, hstored⟩ := Option.bind_eq_some_iff.1 hstored
        rw [Command.build_idempotencyKey hdraft.build, hdraft.command] at hkey
        rw [(Command.build_new_or_cancel hdraft.build).1, hdraft.companyId] at hstored
        rw [hsame]
        exact hkeyed.answers hkey hstored
      · cases hanswer.symm.trans hrun
      · obtain rfl := Except.ok.inj (hanswer.symm.trans hrun)
        rw [hbook]
        exact ⟨appliedEntry draft book.store, List.mem_append_right _ (List.mem_singleton_self _),
          ⟨hdraft.companyId, .inl hdraft.command⟩, rfl⟩
    · cases hdone
  | finished result =>
    simp only [Call.advance, hphase] at hdone ⊢
    exact h outcome (hphase.trans hdone)

theorem memRun_settled (codec : Codec) (events : List (Event MemOp)) :
    ∀ call ∈ (memRun codec events).calls, call.Settled (memRun codec events).book := by
  have hcalls : ∀ call ∈ (memRun codec events).calls, call.Faithful codec (memBackend codec) ∧
      call.Settled (memRun codec events).book := by
    refine System.calls_of_rule
      (P := fun book call => call.Faithful codec (memBackend codec) ∧ call.Settled book)
      keyed_rule ?_ ?_ ?_ keyed_fresh fun event _ => event.allowed_all
    · intro book companyId actor command _
      exact ⟨trivial, fun outcome h => Phase.noConfusion rfl (heq_of_eq h)⟩
    · intro book call env hkeyed h
      exact ⟨Call.advance_faithful codec _ h.1 env book, Call.advance_settled hkeyed h.1 h.2 env⟩
    · intro book book' call _ _ hgrow h
      refine ⟨h.1, fun outcome hdone => ?_⟩
      obtain ⟨entry, hentry, hanswers⟩ := h.2 outcome hdone
      exact ⟨entry, hgrow.subset hentry, hanswers⟩
  exact fun call hcall => (hcalls call hcall).2

end Answers

/-! ### The answer of a request -/

/-- A call stays the one of its command. -/
theorem System.run_command (codec : Codec) {system : System Inner} {position : Nat} {call : Call Inner}
    (h : system.calls[position]? = some call) (events : List (Event MemOp)) :
    ∃ call', (system.run codec (memBackend codec) events).calls[position]? = some call' ∧
      call'.companyId = call.companyId ∧ call'.command = call.command := by
  induction events using List.reverseRecOn with
  | nil => exact ⟨call, h, rfl, rfl⟩
  | append_singleton events event ih =>
    obtain ⟨call', hcall', hcompany, hcommand⟩ := ih
    rw [System.run_concat]
    rcases @System.step_call _ _ codec (memBackend codec) _ _ _ hcall' event with hsame | ⟨env, -, hmoved⟩
    · exact ⟨call', hsame, hcompany, hcommand⟩
    · obtain ⟨hcompany', hcommand'⟩ := Call.advance_command codec call' env _
      exact ⟨_, hmoved, hcompany'.trans hcompany, hcommand'.trans hcommand⟩

/-- The engine runs the command of the request. -/
def CommandRequest.Running (system : System Inner) (request : CommandRequest) : Prop :=
  ∀ caller role position, request.phase = .running caller role position →
    ∃ call, system.calls[position]? = some call ∧ call.companyId = request.companyId ∧
      call.command = request.command

theorem CommandRequest.Running.run {codec : Codec} {system : System Inner} {request : CommandRequest}
    (h : request.Running system) (engine : List (Event MemOp)) :
    request.Running (system.run codec (memBackend codec) engine) := by
  intro caller role position hphase
  obtain ⟨call, hcall, hcompany, hcommand⟩ := h caller role position hphase
  obtain ⟨call', hcall', hcompany', hcommand'⟩ := System.run_command codec hcall engine
  exact ⟨call', hcall', hcompany'.trans hcompany, hcommand'.trans hcommand⟩

section Requests
variable {config : ServerConfig} {env : Env} {server : Server} {request : CommandRequest}

/-- A request whose command the engine runs had it there, or the engine has just got it. -/
theorem CommandRequest.next_running {caller : Caller} {role : Role} {position : Nat}
    (h : (request.next config env server).1 = .running caller role position) :
    request.phase = .running caller role position ∨
      position = server.system.calls.length ∧ ∃ actor, (request.next config env server).2 =
        .engine (.call request.companyId actor request.command) := by
  obtain ⟨companyId, command, phase⟩ := request
  cases phase with
  | entering caller' =>
    refine .inr ?_
    simp only [next] at h ⊢
    split at h
    · cases h
    · injection h with hcaller hrole hposition
      exact ⟨hposition.symm, _, rfl⟩
  | arrived header =>
    simp only [next] at h
    split at h
    · cases h
    · split at h
      · cases h
      · split at h <;> cases h
  | running caller' role' position' =>
    refine .inl ?_
    simp only [next] at h
    split at h
    · cases h
    · cases h
    · exact h
  | touching caller' deviceId => cases h
  | finished result => cases h

/-- A request that is answered had its answer, or its call has settled. -/
theorem CommandRequest.next_answer {answer : Value}
    (h : (request.next config env server).1 = .finished (.ok answer)) :
    request.phase = .finished (.ok answer) ∨
      ∃ caller role position call outcome, request.phase = .running caller role position ∧
        server.system.calls[position]? = some call ∧ call.phase = .finished (.ok outcome) ∧
        answer = request.command.answer
          (server.system.book.store.toSyncLog.historyCheckpoint request.companyId 0) outcome := by
  obtain ⟨companyId, command, phase⟩ := request
  cases phase with
  | running caller role position =>
    refine .inr ?_
    simp only [next] at h
    split at h
    · rename_i outcome hphase
      obtain ⟨call, hcall, hdone⟩ := Option.map_eq_some_iff.1 hphase
      injection h with h
      exact ⟨caller, role, position, call, outcome, rfl, hcall, hdone, (Except.ok.inj h).symm⟩
    · injection h with h
      cases h
    · cases h
  | arrived header =>
    simp only [next] at h
    split at h
    · cases h
    · split at h
      · cases h
      · split at h <;> cases h
  | entering caller =>
    simp only [next] at h
    split at h <;> cases h
  | touching caller deviceId => cases h
  | finished result => exact .inl h

end Requests

theorem serverRun_running (config : ServerConfig) (events : List ServerEvent) :
    ∀ request ∈ (serverRun config events).requests, request.Running (serverRun config events).system := by
  induction events using List.reverseRecOn with
  | nil => exact fun _ hmem => absurd hmem List.not_mem_nil
  | append_singleton early event ih =>
    intro request hmem
    rw [serverRun_concat] at hmem ⊢
    obtain ⟨engine, hengine⟩ := (serverRun config early).step_system config event
    obtain hold | ⟨header, harrived⟩ | ⟨position, env, old, rfl, hold, rfl⟩ := Server.step_requests hmem
    · rw [hengine]
      exact (ih request hold).run engine
    · intro caller role position hphase
      cases harrived.symm.trans hphase
    · intro caller role at_ hphase
      rcases CommandRequest.next_running hphase with hphase | ⟨rfl, actor, heffect⟩
      · rw [hengine]
        exact (ih old (List.mem_of_getElem? hold)).run engine caller role at_ hphase
      · refine ⟨⟨old.companyId, actor, old.command, .start⟩, ?_, rfl, rfl⟩
        simp only [Server.step, hold, heffect]
        exact List.getElem?_concat_length

/-- An answer was read in some earlier state, where the call of its command had settled. -/
theorem serverRun_answered (config : ServerConfig) (events : List ServerEvent) :
    ∀ request ∈ (serverRun config events).requests, ∀ answer, request.phase = .finished (.ok answer) →
      ∃ early, early <+: events ∧ ∃ call ∈ (serverRun config early).system.calls, ∃ outcome,
        call.phase = .finished (.ok outcome) ∧ call.companyId = request.companyId ∧
        call.command = request.command ∧ answer = request.command.answer
          ((serverRun config early).system.book.store.toSyncLog.historyCheckpoint request.companyId 0) outcome := by
  induction events using List.reverseRecOn with
  | nil => exact fun _ hmem => absurd hmem List.not_mem_nil
  | append_singleton early event ih =>
    have hlater : early <+: early ++ [event] := List.prefix_append _ _
    intro request hmem answer hanswer
    rw [serverRun_concat] at hmem
    obtain hold | ⟨header, harrived⟩ | ⟨position, env, old, rfl, hold, rfl⟩ := Server.step_requests hmem
    · obtain ⟨run, hrun, hsettled⟩ := ih request hold answer hanswer
      exact ⟨run, hrun.trans hlater, hsettled⟩
    · cases harrived.symm.trans hanswer
    · have holdMem := List.mem_of_getElem? hold
      rcases CommandRequest.next_answer hanswer with hanswer | ⟨caller, role, at_, call, outcome, hphase, hcall,
        hdone, hvalue⟩
      · obtain ⟨run, hrun, hsettled⟩ := ih old holdMem answer hanswer
        exact ⟨run, hrun.trans hlater, hsettled⟩
      · obtain ⟨call', hcall', hcompany, hcommand⟩ :=
          serverRun_running config early old holdMem caller role at_ hphase
        obtain rfl := Option.some.inj (hcall.symm.trans hcall')
        exact ⟨early, hlater, call, List.mem_of_getElem? hcall, outcome, hdone, hcompany, hcommand, hvalue⟩

/-! ### What a receipt covers -/

/-- The records of a company on a server. -/
def Server.records (server : Server) (company : Uuid) : List MutationRecord :=
  server.system.book.store.toSyncLog.records company

/-- What a server says of its history to a device that is at a version. -/
def Server.history (server : Server) (company : Uuid) (at_ : Int) : HistoryCheckpoint :=
  server.system.book.store.toSyncLog.historyCheckpoint company at_

theorem serverRun_log (config : ServerConfig) (events : List ServerEvent) (company : Uuid) :
    let log := (serverRun config events).system.book.store.toSyncLog
    log.Kept company ∧ SyncLog.Linked config.codec log company := by
  obtain ⟨engine, -, hsystem, -⟩ := serverRun_system config (List.prefix_refl events)
  obtain ⟨batches, hlog⟩ := memRun_appended config.codec engine
  simp only [hsystem]
  rw [hlog]
  exact ⟨SyncLog.appendAll_kept config.codec batches company, SyncLog.appendAll_linked config.codec batches company⟩

/-- The head of a log is the value of all its records. -/
theorem SyncLog.head_eq {codec : Codec} {log : SyncLog} {company : Uuid} (hkept : log.Kept company)
    (hlinked : SyncLog.Linked codec log company) (at_ : Int) :
    (log.historyCheckpoint company at_).head = ((log.records company).length : Int) ∧
      (log.historyCheckpoint company at_).headHash = hexEncode (chainValue codec (log.records company)) := by
  have hhead : log.counter company = ((log.records company).length : Int) := by
    rw [hkept.counter, SyncLog.records, List.length_map]
  refine ⟨hhead, ?_⟩
  simp only [historyCheckpoint]
  rw [hhead, hlinked.hashAt_eq le_rfl, List.take_length, Option.getD_some]

/-- A checkpoint of a log whose records begin with `records` gives the value of these. -/
theorem SyncLog.gives_prefix {codec : Codec} {log : SyncLog} {company : Uuid} (hkept : log.Kept company)
    (hlinked : SyncLog.Linked codec log company) {records : List MutationRecord}
    (hbegins : records <+: log.records company) :
    (log.historyCheckpoint company records.length).Gives records.length (hexEncode (chainValue codec records)) := by
  have hhead := (SyncLog.head_eq hkept hlinked records.length).1
  have hle := hbegins.length_le
  have hhash := hlinked.hashAt_eq hle
  rw [← List.prefix_iff_eq_take.1 hbegins] at hhash
  refine .inr ⟨max_eq_left (Int.natCast_nonneg _), ?_⟩
  simp only [historyCheckpoint] at hhead ⊢
  rw [if_neg (by omega), hhash]
  rfl

/-- An answered submit or cancel carries the version and the value of a log that covers its posting. The server
keeps giving this value for the version, and what a server that gives it has below the version covers the posting,
too, as long as SHA-256 and the texts of the records do not fail the two logs. -/
theorem receipt_covers_posting (config : ServerConfig) {events : List ServerEvent} {request : CommandRequest}
    {answer : Value} (hrequest : request ∈ (serverRun config events).requests)
    (hanswer : request.phase = .finished (.ok answer)) (hkind : request.command.kind ≠ .takeOn) :
    ∃ early entry version hash, early <+: events ∧
      entry ∈ (serverRun config early).system.book.journal ∧
      entry.Answers request.companyId request.command ∧
      answer = entry.response.setField "history" (.obj [("version", .int version), ("hash", .string hash)]) ∧
      entry.CoveredBy config.codec ((serverRun config early).records request.companyId) ∧
      ((serverRun config early).history request.companyId 0).head = version ∧
      ((serverRun config early).history request.companyId 0).headHash = hash ∧
      (∀ later, early <+: later →
        ((serverRun config later).history request.companyId version).Gives version hash) ∧
      ∀ other at_, ((serverRun config other).history request.companyId at_).Gives version hash →
        config.codec.Unambiguous ((serverRun config early).records request.companyId)
          ((serverRun config other).records request.companyId) →
        entry.CoveredBy config.codec
          (((serverRun config other).records request.companyId).take version.toNat) := by
  obtain ⟨early, hearly, call, hcall, outcome, hdone, hcompany, hcommand, rfl⟩ :=
    serverRun_answered config events request hrequest answer hanswer
  obtain ⟨engine, -, hsystem, -⟩ := serverRun_system config (List.prefix_refl early)
  have hsettled := memRun_settled config.codec engine
  rw [← hsystem] at hsettled
  obtain ⟨entry, hentry, hanswers, hresponse⟩ := hsettled call hcall outcome hdone
  rw [hcompany, hcommand] at hanswers
  have hcovered := memRun_inLog config.codec engine
  rw [← hsystem] at hcovered
  replace hcovered := hcovered entry hentry
  rw [hanswers.1] at hcovered
  -- the head is the whole log
  obtain ⟨hkept, hlinked⟩ := serverRun_log config early request.companyId
  obtain ⟨hhead, hvalue⟩ := SyncLog.head_eq hkept hlinked 0
  set records := (serverRun config early).records request.companyId
  refine ⟨early, entry, records.length, hexEncode (chainValue config.codec records), hearly, hentry, hanswers, ?_,
    hcovered, hhead, hvalue, fun later hlater => ?_, fun other at_ hgives hunambiguous => ?_⟩
  · rw [hresponse]
    show _ = outcome.response.setField "history" (.obj [("version", .int (SyncLog.records _ _).length),
      ("hash", .string (hexEncode (chainValue config.codec (SyncLog.records _ _))))])
    rw [← hvalue, ← hhead]
    cases hcase : request.command with
    | takeOn cmd => exact absurd (congrArg Command.kind hcase) hkind
    | _ => rfl
  · obtain ⟨first, more, hfirst, hmore⟩ := serverRun_system config hlater
    have hgrows := memRun_records_grow config.codec first more request.companyId
    rw [← hfirst, ← hmore] at hgrows
    obtain ⟨hkept, hlinked⟩ := serverRun_log config later request.companyId
    exact SyncLog.gives_prefix hkept hlinked hgrows
  · obtain ⟨hkept, hlinked⟩ := serverRun_log config other request.companyId
    obtain ⟨n, hcast, hn, hhash⟩ := hlinked.of_gives hkept hgives
    obtain rfl : records.length = n := by exact_mod_cast hcast
    have hsame := (hunambiguous.chainValue_eq_iff le_rfl hn).1 (by
      rw [List.take_length]
      exact hexEncode_injective hhash)
    rw [List.take_length] at hsame
    refine hcovered.mono fun r hr => ?_
    have hmem : r.unversioned ∈ records.map MutationRecord.unversioned := List.mem_map_of_mem hr
    rw [hsame] at hmem
    obtain ⟨r', hr', heq⟩ := List.mem_map.1 hmem
    exact ⟨r', by rwa [Int.toNat_natCast], heq⟩

/-- A request as its client sees it: the company, the kind of its command and whether it was answered. -/
def CommandRequest.outcome (request : CommandRequest) : Uuid × CommandKind × Bool :=
  (request.companyId, request.command.kind, match request.phase with
    | .finished (.ok _) => true
    | _ => false)

/-- The answer to the rent carries a value that the server gives, of a log that covers the rent. -/
theorem receipt_covers_posting_rent : ∃ early entry version hash answer, early <+: tillBooksRent ∧
    answer = Value.setField (Entry.response (S := Inner) entry) "history"
      (.obj [("version", .int version), ("hash", .string hash)]) ∧
    entry.CoveredBy shopConfig.codec ((serverRun shopConfig early).records 1) ∧
    ((serverRun shopConfig tillBooksRent).history 1 version).Gives version hash := by
  have houtcomes : (serverRun shopConfig tillBooksRent).requests.map CommandRequest.outcome =
      [(1, .submit, true)] := by
    decide +kernel
  obtain ⟨request, hrequest, houtcome⟩ := List.mem_map.1 (houtcomes ▸ List.mem_singleton_self _)
  obtain ⟨hcompany, hkind, hdone⟩ : request.companyId = 1 ∧ request.command.kind = .submit ∧
      (CommandRequest.outcome request).2.2 = true := by
    rw [houtcome]
    exact ⟨congrArg Prod.fst houtcome, congrArg (·.2.1) houtcome, rfl⟩
  obtain ⟨answer, hanswer⟩ : ∃ answer, request.phase = .finished (.ok answer) := by
    simp only [CommandRequest.outcome] at hdone
    split at hdone
    · exact ⟨_, ‹_›⟩
    · cases hdone
  obtain ⟨early, entry, version, hash, hearly, -, -, hvalue, hcovered, -, -, hgives, -⟩ :=
    receipt_covers_posting shopConfig hrequest hanswer (by rw [hkind]; decide)
  exact ⟨early, entry, version, hash, answer, hearly, hvalue, hcompany ▸ hcovered,
    hcompany ▸ hgives tillBooksRent hearly⟩

end AtlasTeam
