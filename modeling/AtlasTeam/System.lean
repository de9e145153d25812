import AtlasTeam.Lib.Snapshot
import AtlasTeam.Posting.SoloMigration

/-!
# Commands in flight

Any number of commands work on one store. A command reads the store when it starts (the replay
lookup) and when it builds its commit, and writes it when the commit is applied; between these
steps any other command or store operation may run. `System.step` moves one command, or the store,
by one step; a stale commit goes back to building, at most `maxRetries` times.

The journal is a history variable: one `Entry` per applied commit, with what it was built from. It
is never read by a step. `System.run_simulates` connects the system to the snapshot-and-commit
protocol of `Snapshot`, whose rule then gives what holds in every run.
-/

namespace AtlasTeam

/-- The write half of the `Store` trait: the commit and the other operations `O` of a store `S`. -/
structure Backend (S O : Type) where
  view : S → StoreView
  postingCommit : Env → PostingCommit → S → Except StoreError CommitOutcome × S
  operate : Env → O → S → S

inductive Command where
  | submit (cmd : SubmitCommand)
  | cancel (cmd : CancelCommand)
  | takeOn (cmd : SoloOpeningCommand)

namespace Command

/-- The document a command is about; a submit without an id is given one when it starts. -/
def documentId (env : Env) : Command → String
  | .submit cmd => cmd.documentId.getD env.uuid.render
  | .cancel cmd => cmd.documentId
  | .takeOn cmd => cmd.documentId

/-- What a command does before its first build: the checks that read no store and the replay of its
idempotency key. `none` goes on to build. -/
def start (codec : Codec) (view : StoreView) (companyId : Uuid) (actor : Actor) :
    Command → Option (Except PostingError CommitOutcome)
  | .submit cmd =>
    if cmd.doctype ∉ postedDoctypes then
      some (.error (.validation s!"unsupported doctype {cmd.doctype}"))
    else
      match if cmd.offlineFiscal then validateOfflineFiscal cmd actor else .ok () with
      | .error e => some (.error e)
      | .ok () => (replay view companyId cmd.idempotencyKey).map fun outcome =>
          boundReplay outcome cmd.doctype cmd.documentId
  | .cancel cmd => (replay view companyId cmd.idempotencyKey).map fun outcome =>
      boundReplay outcome cmd.doctype (some cmd.documentId)
  | .takeOn cmd =>
    if !safeId cmd.migrationId then
      some (.error (.validation "migration_id must be 8–64 letters, digits, '-' or '_'"))
    else
      (view.idempotentResponse companyId cmd.idempotencyKey).map fun response =>
        samePackage response (cmd.packageSha256 codec)

/-- The commit a command builds from what it reads. -/
def build (codec : Codec) (view : StoreView) (env : Env) (companyId : Uuid) (actor : Actor)
    (documentId : String) : Command → Except PostingError PostingCommit
  | .submit cmd => buildSubmit codec view env companyId cmd documentId actor
  | .cancel cmd => buildCancel view env companyId cmd actor
  | .takeOn cmd => buildOpening codec view env companyId cmd (cmd.packageSha256 codec) actor

/-- How many times a command builds: the take-on has no retry loop. -/
def attempts : Command → Nat
  | .takeOn _ => 1
  | _ => maxRetries

/-- What a command makes of the outcome of its commit; `none` builds again. -/
def settle (codec : Codec) (documentId : String) (result : Except StoreError CommitOutcome) :
    Command → Option (Except PostingError CommitOutcome)
  | .submit cmd =>
    match result with
    | .ok outcome => some
        (if outcome.replayed then boundReplay outcome cmd.doctype (some documentId) else .ok outcome)
    | .error (.stale _) => none
    | .error e => some (.error (.store e))
  | .cancel cmd =>
    match result with
    | .ok outcome => some
        (if outcome.replayed then boundReplay outcome cmd.doctype (some cmd.documentId)
        else .ok outcome)
    | .error (.stale _) => none
    | .error e => some (.error (.store e))
  | .takeOn cmd =>
    match result with
    | .ok outcome => some
        (if outcome.replayed then samePackage outcome.response (cmd.packageSha256 codec)
        else .ok outcome)
    | .error (.conflict reason) => some (.error (.conflict reason))
    | .error e => some (.error (.store e))

/-- A command posts a new document, or it cancels the one it read. -/
theorem build_new_or_cancel {codec : Codec} {view : StoreView} {env : Env} {companyId : Uuid}
    {actor : Actor} {documentId : String} {command : Command} {commit : PostingCommit}
    (h : command.build codec view env companyId actor documentId = .ok commit) :
    commit.companyId = companyId ∧
    ((commit.documentIsNew = true ∧ commit.document.companyId = companyId ∧
        commit.document.docstatus = 1 ∧ ∀ cmd, command ≠ .cancel cmd) ∨
      ∃ cmd doc, command = .cancel cmd ∧ commit.documentIsNew = false ∧
        view.postedDocument companyId cmd.doctype cmd.documentId = some doc ∧ doc.docstatus = 1 ∧
        commit.document = { doc with docstatus := 2 } ∧ commit.seriesKey = none ∧
        commit.preassignedNumber = none ∧ commit.numberingFloors = []) := by
  cases command with
  | submit cmd =>
    obtain ⟨prepared, shortfalls, settlements, updates, -, -, -, rfl⟩ := buildSubmit_ok h
    exact ⟨rfl, .inl ⟨rfl, rfl, rfl, fun _ => Command.noConfusion⟩⟩
  | cancel cmd =>
    obtain ⟨doc, postingDate, guard, updates, hdoc, hstatus, -, -, -, rfl⟩ := buildCancel_ok h
    exact ⟨rfl, .inr ⟨cmd, doc, rfl, rfl, hdoc, hstatus, rfl, rfl, rfl, rfl⟩⟩
  | takeOn cmd =>
    obtain ⟨postingDate, stock, tb, continuations, -, -, rfl⟩ := buildOpening_ok h
    exact ⟨rfl, .inl ⟨rfl, rfl, rfl, fun _ => Command.noConfusion⟩⟩

end Command

/-- A built commit that has not been applied yet, with what it was built from. -/
structure Draft (S : Type) where
  companyId : Uuid
  actor : Actor
  command : Command
  documentId : String
  /-- The store the build read. -/
  snapshot : S
  builtAt : Env
  commit : PostingCommit

/-- An applied commit: the draft, the store it met and the response it got. -/
structure Entry (S : Type) extends Draft S where
  before : S
  response : Value

/-- The document an entry cancelled. -/
def Entry.cancelledKey {S : Type} (entry : Entry S) : Option (Uuid × String × String) :=
  match entry.command with
  | .cancel cmd => some (entry.companyId, cmd.doctype, cmd.documentId)
  | _ => none

/-- Where a command stands. -/
inductive Phase (S : Type) where
  | start
  | building (left : Nat) (documentId : String)
  | committing (left : Nat) (draft : Draft S)
  | finished (result : Except PostingError CommitOutcome)

structure Call (S : Type) where
  companyId : Uuid
  actor : Actor
  command : Command
  phase : Phase S

/-- A store and the commits applied to it so far. -/
structure Book (S : Type) where
  store : S
  journal : List (Entry S) := []

structure System (S : Type) where
  book : Book S
  calls : List (Call S) := []

inductive Event (O : Type) where
  /-- A command arrives. -/
  | call (companyId : Uuid) (actor : Actor) (command : Command)
  /-- The command at a position takes its next step. -/
  | advance (position : Nat) (env : Env)
  /-- The store runs another operation. -/
  | operate (op : O) (env : Env)

/-- A command that nothing interferes with: it starts, builds and commits. -/
def Event.whole {O : Type} (companyId : Uuid) (actor : Actor) (command : Command) (position : Nat)
    (env : Env) : List (Event O) :=
  [.call companyId actor command, .advance position env, .advance position env,
    .advance position env]

section Steps
variable {S O : Type} (codec : Codec) (backend : Backend S O)

/-- The book after a commit ran: an applied one is recorded. -/
def Book.commit (env : Env) (draft : Draft S) (book : Book S) : Book S :=
  let (result, store) := backend.postingCommit env draft.commit book.store
  match result with
  | .ok outcome =>
    if outcome.replayed then { book with store }
    else
      { store
        journal := book.journal ++
          [{ draft with before := book.store, response := outcome.response }] }
  | .error _ => { book with store }

/-- The store after a commit ran is the one the backend leaves. -/
theorem Book.commit_store (env : Env) (draft : Draft S) (book : Book S) :
    (book.commit backend env draft).store = (backend.postingCommit env draft.commit book.store).2 := by
  simp only [Book.commit]
  split
  · split
    · rfl
    · rfl
  · rfl

/-- Building with attempts left, on the store as it is. -/
def Call.build (call : Call S) (env : Env) (left : Nat) (documentId : String) (store : S) :
    Phase S :=
  match left with
  | 0 => .finished (.error (.conflict "posting contention: stock ledger kept moving; retry"))
  | left + 1 =>
    match call.command.build codec (backend.view store) env call.companyId call.actor documentId with
    | .error e => .finished (.error e)
    | .ok commit => .committing left
        { companyId := call.companyId
          actor := call.actor
          command := call.command
          documentId
          snapshot := store
          builtAt := env
          commit }

/-- One step of a command. -/
def Call.advance (call : Call S) (env : Env) (book : Book S) : Call S × Book S :=
  match call.phase with
  | .start =>
    let phase := match call.command.start codec (backend.view book.store) call.companyId call.actor with
      | some result => .finished result
      | none => .building call.command.attempts (call.command.documentId env)
    ({ call with phase }, book)
  | .building left documentId =>
    ({ call with phase := call.build codec backend env left documentId book.store }, book)
  | .committing left draft =>
    let result := (backend.postingCommit env draft.commit book.store).1
    let phase := match call.command.settle codec draft.documentId result with
      | some result => .finished result
      | none => .building left draft.documentId
    ({ call with phase }, book.commit backend env draft)
  | .finished _ => (call, book)

/-- One step of the system. -/
def System.step (system : System S) (event : Event O) : System S :=
  match event with
  | .call companyId actor command =>
    { system with calls := system.calls ++ [{ companyId, actor, command, phase := .start }] }
  | .advance position env =>
    match system.calls[position]? with
    | some call =>
      let (call, book) := call.advance codec backend env system.book
      { book, calls := system.calls.set position call }
    | none => system
  | .operate op env =>
    { system with
      book := { system.book with store := backend.operate env op system.book.store } }

/-- The system after a list of events. -/
def System.run (system : System S) (events : List (Event O)) : System S :=
  events.foldl (System.step codec backend) system

theorem System.run_append (system : System S) (early late : List (Event O)) :
    system.run codec backend (early ++ late) =
      (system.run codec backend early).run codec backend late :=
  List.foldl_append

/-- The system with no command yet. -/
def System.fresh (store : S) : System S := { book := { store } }

end Steps

/-! ### The system runs the snapshot-and-commit protocol -/

section Protocol
variable {S O : Type} (codec : Codec) (backend : Backend S O)

/-- Which commands and operations a run may hold. -/
structure Allowed (O : Type) where
  command : Command → Prop
  operate : O → Prop

/-- Everything may run. -/
def Allowed.all (O : Type) : Allowed O := ⟨fun _ => True, fun _ => True⟩

def Event.Allowed (allowed : Allowed O) : Event O → Prop
  | .call _ _ command => allowed.command command
  | .advance _ _ => True
  | .operate op _ => allowed.operate op

theorem Event.allowed_all (event : Event O) : event.Allowed (.all O) := by
  cases event <;> trivial

/-- The draft is what its command builds from a book. -/
structure Draft.Built (allowed : Allowed O) (book : Book S) (draft : Draft S) : Prop where
  allowed : allowed.command draft.command
  snapshot : draft.snapshot = book.store
  build : draft.command.build codec (backend.view draft.snapshot) draft.builtAt draft.companyId
    draft.actor draft.documentId = .ok draft.commit

/-- The protocol of the drafts of allowed commands. -/
def protocol (allowed : Allowed O) : Snapshot.Protocol (Book S) (Draft S) where
  Build := Draft.Built codec backend allowed
  Commit draft book book' := ∃ env, book' = book.commit backend env draft
  Other book book' := ∃ op env, allowed.operate op ∧
    book' = { book with store := backend.operate env op book.store }

/-- A configuration of the protocol that covers the system. -/
structure Covers (allowed : Allowed O) (c : Snapshot.Config (Book S) (Draft S))
    (system : System S) : Prop where
  state : c.state = system.book
  commands : ∀ call ∈ system.calls, allowed.command call.command
  drafts : ∀ call ∈ system.calls, ∀ left draft, call.phase = .committing left draft →
    ∃ book, (book, draft) ∈ c.drafts

variable {allowed : Allowed O}

/-- Replacing one call keeps what holds of all of them. -/
theorem forall_mem_set {calls : List (Call S)} {position : Nat} {call : Call S} {P : Call S → Prop}
    (h : ∀ call ∈ calls, P call) (hcall : P call) : ∀ c ∈ calls.set position call, P c := by
  intro c hc
  rcases List.mem_or_eq_of_mem_set hc with hc | rfl
  · exact h c hc
  · exact hcall

/-- One step of a call is at most one step of the protocol. -/
theorem Call.advance_simulates {c : Snapshot.Config (Book S) (Draft S)} {system : System S}
    (hcovers : Covers allowed c system) {call : Call S} (hcall : call ∈ system.calls) (env : Env) :
    ∃ c', Snapshot.Run (protocol codec backend allowed) c c' ∧ c.drafts ⊆ c'.drafts ∧
      c'.state = (call.advance codec backend env system.book).2 ∧
      (call.advance codec backend env system.book).1.command = call.command ∧
      ∀ left draft, (call.advance codec backend env system.book).1.phase = .committing left draft →
        ∃ book, (book, draft) ∈ c'.drafts := by
  obtain ⟨state, drafts⟩ := c
  obtain rfl : state = system.book := hcovers.state
  cases hphase : call.phase with
  | start =>
    refine ⟨_, .refl, subset_rfl, by simp [Call.advance, hphase], by simp [Call.advance, hphase], ?_⟩
    intro left draft h
    simp only [Call.advance, hphase] at h
    split at h <;> cases h
  | building left documentId =>
    cases left with
    | zero =>
      refine ⟨_, .refl, subset_rfl, by simp [Call.advance, hphase], by simp [Call.advance, hphase], ?_⟩
      intro left draft h
      simp [Call.advance, hphase, Call.build] at h
    | succ left =>
      cases hbuild : call.command.build codec (backend.view system.book.store) env call.companyId
          call.actor documentId with
      | error e =>
        refine ⟨_, .refl, subset_rfl, by simp [Call.advance, hphase],
          by simp [Call.advance, hphase], ?_⟩
        intro left draft h
        simp [Call.advance, hphase, Call.build, hbuild] at h
      | ok commit =>
        let draft : Draft S :=
          { companyId := call.companyId, actor := call.actor, command := call.command, documentId,
            snapshot := system.book.store, builtAt := env, commit }
        have hbuilt : Draft.Built codec backend allowed system.book draft :=
          ⟨hcovers.commands call hcall, rfl, hbuild⟩
        refine ⟨_, .single (.build hbuilt), Set.subset_insert _ _, by simp [Call.advance, hphase],
          by simp [Call.advance, hphase], ?_⟩
        intro left' draft' h
        simp only [Call.advance, hphase, Call.build, hbuild, Phase.committing.injEq] at h
        exact ⟨system.book, .inl (by rw [← h.2])⟩
  | committing left draft =>
    obtain ⟨book, hdraft⟩ := hcovers.drafts call hcall left draft hphase
    refine ⟨_, .single (.commit hdraft ⟨env, rfl⟩), subset_rfl, by simp [Call.advance, hphase],
      by simp [Call.advance, hphase], ?_⟩
    intro left' draft' h
    simp only [Call.advance, hphase] at h
    split at h <;> cases h
  | finished result =>
    refine ⟨_, .refl, subset_rfl, by simp [Call.advance, hphase], by simp [Call.advance, hphase], ?_⟩
    intro left draft h
    simp [Call.advance, hphase] at h

theorem System.step_simulates {c : Snapshot.Config (Book S) (Draft S)} {system : System S}
    (hcovers : Covers allowed c system) {event : Event O} (hevent : event.Allowed allowed) :
    ∃ c', Snapshot.Run (protocol codec backend allowed) c c' ∧
      Covers allowed c' (system.step codec backend event) := by
  cases event with
  | call companyId actor command =>
    refine ⟨c, .refl, hcovers.state, ?_, ?_⟩
    · intro call hcall
      rcases List.mem_append.1 hcall with hcall | hcall
      · exact hcovers.commands call hcall
      · obtain rfl := List.mem_singleton.1 hcall
        exact hevent
    · intro call hcall left draft hphase
      rcases List.mem_append.1 hcall with hcall | hcall
      · exact hcovers.drafts call hcall left draft hphase
      · obtain rfl := List.mem_singleton.1 hcall
        cases hphase
  | advance position env =>
    cases hcall : system.calls[position]? with
    | none =>
      refine ⟨c, .refl, ?_⟩
      simpa [System.step, hcall] using hcovers
    | some call =>
      have hmem : call ∈ system.calls := List.mem_of_getElem? hcall
      obtain ⟨c', hrun, hsub, hstate, hcommand, hdrafts⟩ :=
        Call.advance_simulates codec backend hcovers hmem env
      refine ⟨c', hrun, ?_⟩
      simp only [System.step, hcall]
      refine ⟨hstate, forall_mem_set hcovers.commands (hcommand ▸ hcovers.commands call hmem),
        forall_mem_set (fun call hcall left draft hphase => ?_) hdrafts⟩
      obtain ⟨book, hbook⟩ := hcovers.drafts call hcall left draft hphase
      exact ⟨book, hsub hbook⟩
  | operate op env =>
    obtain ⟨state, drafts⟩ := c
    obtain rfl : state = system.book := hcovers.state
    exact ⟨_, .single (.other ⟨op, env, hevent, rfl⟩), rfl, hcovers.commands, hcovers.drafts⟩

/-- Every run of the system is a run of the protocol. -/
theorem System.run_simulates {c : Snapshot.Config (Book S) (Draft S)} {system : System S}
    (hcovers : Covers allowed c system) {events : List (Event O)}
    (hevents : ∀ event ∈ events, event.Allowed allowed) :
    ∃ c', Snapshot.Run (protocol codec backend allowed) c c' ∧
      Covers allowed c' (system.run codec backend events) := by
  induction events generalizing c system with
  | nil => exact ⟨c, .refl, hcovers⟩
  | cons event events ih =>
    obtain ⟨hevent, hrest⟩ := List.forall_mem_cons.1 hevents
    obtain ⟨c₁, hrun₁, hcovers₁⟩ := System.step_simulates codec backend hcovers hevent
    obtain ⟨c₂, hrun₂, hcovers₂⟩ := ih hcovers₁ hrest
    exact ⟨c₂, hrun₁.trans hrun₂, hcovers₂⟩

theorem covers_fresh (store : S) :
    Covers allowed ⟨{ store }, ∅⟩ (System.fresh store) where
  state := rfl
  commands _ h := absurd h List.not_mem_nil
  drafts _ h := absurd h List.not_mem_nil

section Rule
variable {codec backend} {I : Book S → Prop} {R : Book S → Book S → Prop}

/-- The rule of the protocol, for the runs of the system from a fresh store. -/
theorem System.invariant_of_rule (rule : Snapshot.Rule (protocol codec backend allowed) I R)
    {store : S} (hstore : I { store }) {events : List (Event O)}
    (hevents : ∀ event ∈ events, event.Allowed allowed) :
    I ((System.fresh store).run codec backend events).book := by
  obtain ⟨c, hrun, hcovers⟩ := System.run_simulates codec backend (covers_fresh store) hevents
  exact hcovers.state ▸ (rule.reachable hstore hrun).state

/-- The rule between two states of a run. -/
theorem System.growth_of_rule (rule : Snapshot.Rule (protocol codec backend allowed) I R)
    {store : S} (hstore : I { store }) {early late : List (Event O)}
    (hearly : ∀ event ∈ early, event.Allowed allowed)
    (hlate : ∀ event ∈ late, event.Allowed allowed) :
    R ((System.fresh store).run codec backend early).book
      ((System.fresh store).run codec backend (early ++ late)).book := by
  obtain ⟨c₁, hrun₁, hcovers₁⟩ := System.run_simulates codec backend (covers_fresh store) hearly
  obtain ⟨c₂, hrun₂, hcovers₂⟩ := System.run_simulates codec backend hcovers₁ hlate
  have hgrow := (rule.run (rule.reachable hstore hrun₁) hrun₂).2
  rw [System.run_append]
  exact hcovers₁.state ▸ hcovers₂.state ▸ hgrow

end Rule

end Protocol

end AtlasTeam
