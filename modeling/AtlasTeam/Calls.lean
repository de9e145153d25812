import AtlasTeam.System

/-!
# The calls of a run

The rules of `Snapshot` speak about the book. What a caller is told depends on where its command
stands as well, so a statement about answers is about a call together with the book it stands
beside. `System.calls_of_rule` carries such a statement to every call of every run: it holds of a
command that has just arrived, a step of the command keeps it, and so does the growth of the book
while the others move. `Call.Faithful` is what every call satisfies: the draft it holds is one its own
command built, after the checks its start makes without the store.
-/

namespace AtlasTeam

/-! ### What a command names -/

inductive CommandKind where
  | submit
  | cancel
  | takeOn
deriving DecidableEq

namespace Command

def kind : Command → CommandKind
  | .submit _ => .submit
  | .cancel _ => .cancel
  | .takeOn _ => .takeOn

def doctype : Command → String
  | .submit cmd => cmd.doctype
  | .cancel cmd => cmd.doctype
  | .takeOn _ => openingDoctype

/-- The document id the caller gave. -/
def givenId : Command → Option String
  | .submit cmd => cmd.documentId
  | .cancel cmd => some cmd.documentId
  | .takeOn cmd => some cmd.documentId

def idempotencyKey : Command → Option String
  | .submit cmd => cmd.idempotencyKey
  | .cancel cmd => cmd.idempotencyKey
  | .takeOn cmd => some cmd.idempotencyKey

/-- The checks a command makes before it reads the store. -/
def Admissible (actor : Actor) : Command → Prop
  | .submit cmd => cmd.doctype ∈ postedDoctypes ∧
      (cmd.offlineFiscal = true → validateOfflineFiscal cmd actor = .ok ())
  | .cancel _ => True
  | .takeOn cmd => safeId cmd.migrationId = true

/-- The commit of a command carries its key. -/
theorem build_idempotencyKey {codec : Codec} {view : StoreView} {env : Env} {companyId : Uuid}
    {actor : Actor} {documentId : String} {command : Command} {commit : PostingCommit}
    (h : command.build codec view env companyId actor documentId = .ok commit) :
    commit.idempotencyKey = command.idempotencyKey := by
  cases command with
  | submit cmd =>
    obtain ⟨prepared, shortfalls, settlements, updates, -, -, -, rfl⟩ := buildSubmit_ok h
    rfl
  | cancel cmd =>
    obtain ⟨doc, postingDate, guard, updates, -, -, -, -, -, rfl⟩ := buildCancel_ok h
    rfl
  | takeOn cmd =>
    obtain ⟨postingDate, stock, tb, continuations, -, -, rfl⟩ := buildOpening_ok h
    rfl

/-- A command that goes on to build has passed the checks of its start, and its key is unknown. -/
theorem start_eq_none {codec : Codec} {view : StoreView} {companyId : Uuid} {actor : Actor}
    {command : Command} (h : command.start codec view companyId actor = none) :
    command.Admissible actor ∧
      ∀ key, command.idempotencyKey = some key → view.idempotentResponse companyId key = none := by
  cases command with
  | submit cmd =>
    simp only [start] at h
    split at h
    · cases h
    · rename_i hdoctype
      split at h
      · cases h
      · rename_i hoffline
        refine ⟨⟨not_not.1 hdoctype, fun hflag => ?_⟩, fun key hkey => ?_⟩
        · rwa [if_pos hflag] at hoffline
        · have hcmd : cmd.idempotencyKey = some key := hkey
          simpa [replay, hcmd] using h
  | cancel cmd =>
    refine ⟨trivial, fun key hkey => ?_⟩
    have hcmd : cmd.idempotencyKey = some key := hkey
    simpa [start, replay, hcmd] using h
  | takeOn cmd =>
    simp only [start] at h
    split at h
    · cases h
    · rename_i hsafe
      refine ⟨by simpa [Admissible] using hsafe, fun key hkey => ?_⟩
      obtain rfl : cmd.idempotencyKey = key := Option.some.inj hkey
      simpa using h

end Command

/-! ### Induction over the calls -/

section Induction
variable {S O : Type} {codec : Codec} {backend : Backend S O}

theorem System.run_concat (system : System S) (events : List (Event O)) (event : Event O) :
    system.run codec backend (events ++ [event]) =
      (system.run codec backend events).step codec backend event := by
  rw [System.run_append]
  rfl

/-- A step of the system leaves a call where it stands, or is a step of that call. -/
theorem System.step_call {system : System S} {position : Nat} {call : Call S}
    (h : system.calls[position]? = some call) (event : Event O) :
    (system.step codec backend event).calls[position]? = some call ∨
      ∃ env, event = .advance position env ∧
        (system.step codec backend event).calls[position]? =
          some (call.advance codec backend env system.book).1 := by
  have hlt : position < system.calls.length := (List.getElem?_eq_some_iff.1 h).1
  cases event with
  | call companyId actor command =>
    refine .inl ?_
    simp only [System.step]
    rw [List.getElem?_append_left hlt]
    exact h
  | operate op env => exact .inl h
  | advance moved env =>
    by_cases hmoved : moved = position
    · subst hmoved
      refine .inr ⟨env, rfl, ?_⟩
      simp only [System.step, h]
      exact List.getElem?_set_self hlt
    · refine .inl ?_
      cases hcall : system.calls[moved]? with
      | none => simpa [System.step, hcall] using h
      | some other => simpa [System.step, hcall, List.getElem?_set_ne hmoved] using h

/-- Where a call comes from: it was there and took no step, it has just arrived, or it took the step. -/
theorem System.step_call_cases {system : System S} {event : Event O} {position : Nat} {call : Call S}
    (h : (system.step codec backend event).calls[position]? = some call) :
    system.calls[position]? = some call ∧ (∀ env, event ≠ .advance position env) ∨
      system.calls[position]? = none ∧ call.phase = .start ∨
      ∃ env old, event = .advance position env ∧ system.calls[position]? = some old ∧
        (call, (system.step codec backend event).book) = old.advance codec backend env system.book := by
  cases hold : system.calls[position]? with
  | some old =>
    by_cases hmoves : ∃ env, event = .advance position env
    · obtain ⟨env, rfl⟩ := hmoves
      refine .inr (.inr ⟨env, old, rfl, rfl, ?_⟩)
      have hlt : position < system.calls.length := (List.getElem?_eq_some_iff.1 hold).1
      simp only [System.step, hold] at h ⊢
      rw [List.getElem?_set_self hlt, Option.some.injEq] at h
      rw [← h]
    · rcases @System.step_call S O codec backend system position old hold event with
        hsame | ⟨env, hevent, -⟩
      · exact .inl ⟨hsame.symm.trans h, fun env hevent => hmoves ⟨env, hevent⟩⟩
      · exact absurd ⟨env, hevent⟩ hmoves
  | none =>
    have hlength : system.calls.length ≤ position := List.getElem?_eq_none_iff.1 hold
    refine .inr (.inl ⟨rfl, ?_⟩)
    cases event with
    | call companyId actor command =>
      simp only [System.step] at h
      rw [List.getElem?_append_right hlength] at h
      obtain rfl := List.mem_singleton.1 (List.mem_of_getElem? h)
      rfl
    | operate op env => cases hold.symm.trans h
    | advance moved env =>
      cases hmoved : system.calls[moved]? with
      | none =>
        simp only [System.step, hmoved] at h
        cases hold.symm.trans h
      | some other =>
        simp only [System.step, hmoved] at h
        rw [List.getElem?_eq_none (by simpa using hlength)] at h
        cases h

/-- A finished call stays as it is. -/
theorem System.run_finished {system : System S} {position : Nat} {call : Call S}
    {result : Except PostingError CommitOutcome} (h : system.calls[position]? = some call)
    (hfinished : call.phase = .finished result) (events : List (Event O)) :
    (system.run codec backend events).calls[position]? = some call := by
  induction events using List.reverseRecOn with
  | nil => exact h
  | append_singleton events event ih =>
    rw [System.run_concat]
    rcases System.step_call ih event with hsame | ⟨env, -, hmoved⟩
    · exact hsame
    · rw [hmoved]
      simp [Call.advance, hfinished]

variable {allowed : Allowed O} {I : Book S → Prop} {R : Book S → Book S → Prop}

/-- A statement about a call and the book beside it holds of every call of every run when it holds
on arrival, a step of the call keeps it and the growth of the book keeps it. -/
theorem System.calls_of_rule (rule : Snapshot.Rule (protocol codec backend allowed) I R)
    {P : Book S → Call S → Prop}
    (harrive : ∀ book companyId actor command, I book → P book ⟨companyId, actor, command, .start⟩)
    (hadvance : ∀ book call env, I book → P book call →
      P (call.advance codec backend env book).2 (call.advance codec backend env book).1)
    (hgrow : ∀ book book' call, I book → I book' → R book book' → P book call → P book' call)
    {store : S} (hstore : I { store }) {events : List (Event O)}
    (hevents : ∀ event ∈ events, event.Allowed allowed) :
    ∀ call ∈ ((System.fresh store).run codec backend events).calls,
      P ((System.fresh store).run codec backend events).book call := by
  induction events using List.reverseRecOn with
  | nil => exact fun call hcall => absurd hcall List.not_mem_nil
  | append_singleton events event ih =>
    obtain ⟨hearly, hevent⟩ := List.forall_mem_append.1 hevents
    have hI := System.invariant_of_rule rule hstore hearly
    have hI' := System.invariant_of_rule rule hstore hevents
    have hR := System.growth_of_rule rule hstore hearly hevent
    have hcalls := ih hearly
    rw [System.run_concat] at hI' hR ⊢
    generalize (System.fresh store).run codec backend events = system at hI hI' hR hcalls
    cases event with
    | call companyId actor command =>
      intro call hcall
      rcases List.mem_append.1 hcall with hcall | hcall
      · exact hcalls call hcall
      · obtain rfl := List.mem_singleton.1 hcall
        exact harrive _ companyId actor command hI
    | advance position env =>
      cases hposition : system.calls[position]? with
      | none => simpa [System.step, hposition] using hcalls
      | some moved =>
        have hmoved := hadvance _ moved env hI (hcalls moved (List.mem_of_getElem? hposition))
        simp only [System.step, hposition] at hI' hR ⊢
        exact forall_mem_set (fun call hcall => hgrow _ _ call hI hI' hR (hcalls call hcall)) hmoved
    | operate op env => exact fun call hcall => hgrow _ _ call hI hI' hR (hcalls call hcall)

/-- One more event on the book, seen from a rule: nothing, the commit of a draft built from an earlier
book, or another operation of the store. -/
theorem System.step_of_rule (rule : Snapshot.Rule (protocol codec backend allowed) I R)
    {store : S} (hstore : I { store }) {events : List (Event O)}
    (hevents : ∀ event ∈ events, event.Allowed allowed) (event : Event O) :
    let system := (System.fresh store).run codec backend events
    (∀ op env, event ≠ .operate op env) ∧ (system.step codec backend event).book = system.book ∨
      (∀ op env, event ≠ .operate op env) ∧
      (∃ book₀ draft env, I book₀ ∧ R book₀ system.book ∧
        Draft.Built codec backend allowed book₀ draft ∧
        (system.step codec backend event).book = system.book.commit backend env draft) ∨
      ∃ op env, event = .operate op env ∧ (system.step codec backend event).book =
        { system.book with store := backend.operate env op system.book.store } := by
  intro system
  obtain ⟨c, hrun, hcovers⟩ := System.run_simulates codec backend (covers_fresh store) hevents
  have hgood := rule.reachable hstore hrun
  have hcovers : Covers allowed c system := hcovers
  cases event with
  | call companyId actor command => exact .inl ⟨by simp, rfl⟩
  | operate op env => exact .inr (.inr ⟨op, env, rfl, rfl⟩)
  | advance position env =>
    have hevent : ∀ (op : O) (env' : Env), Event.advance position env ≠ .operate op env' := by
      simp
    cases hcall : system.calls[position]? with
    | none => exact .inl ⟨hevent, by simp [System.step, hcall]⟩
    | some call =>
      simp only [System.step, hcall]
      cases hphase : call.phase with
      | committing left draft =>
        obtain ⟨book₀, hdraft⟩ := hcovers.drafts call (List.mem_of_getElem? hcall) left draft hphase
        obtain ⟨hI₀, hR, hbuilt⟩ := hgood.drafts hdraft
        refine .inr (.inl ⟨hevent, book₀, draft, env, hI₀, hcovers.state ▸ hR, hbuilt, ?_⟩)
        simp [Call.advance, hphase]
      | _ => exact .inl ⟨hevent, by simp [Call.advance, hphase]⟩

/-- Nothing is asked of the book. -/
theorem trivial_rule : Snapshot.Rule (protocol codec backend allowed) (fun _ => True)
    fun _ _ => True where
  refl _ := trivial
  trans _ _ := trivial
  commit _ _ _ _ _ := ⟨trivial, trivial⟩
  other _ _ := ⟨trivial, trivial⟩

end Induction

/-! ### Drafts belong to their calls -/

section Faithful
variable {S O : Type} (codec : Codec) (backend : Backend S O)

/-- The document of a call is the one its caller named, if it named one. -/
def Call.Names (call : Call S) (documentId : String) : Prop :=
  ∀ id, call.command.givenId = some id → documentId = id

/-- The draft is one the call built. -/
structure Draft.OfCall (call : Call S) (draft : Draft S) : Prop where
  companyId : draft.companyId = call.companyId
  actor : draft.actor = call.actor
  command : draft.command = call.command
  names : call.Names draft.documentId
  build : draft.command.build codec (backend.view draft.snapshot) draft.builtAt draft.companyId
    draft.actor draft.documentId = .ok draft.commit

/-- Where a call stands is where its own command has taken it. -/
def Call.Faithful (call : Call S) : Prop :=
  match call.phase with
  | .start => True
  | .building _ documentId => call.command.Admissible call.actor ∧ call.Names documentId
  | .committing _ draft => call.command.Admissible call.actor ∧ draft.OfCall codec backend call
  | .finished _ => True

theorem Command.documentId_of_given {command : Command} {id : String}
    (h : command.givenId = some id) (env : Env) : command.documentId env = id := by
  cases command with
  | submit cmd =>
    have hid : cmd.documentId = some id := h
    simp [Command.documentId, hid]
  | cancel cmd => exact Option.some.inj h
  | takeOn cmd => exact Option.some.inj h

theorem Call.advance_faithful {call : Call S} (h : call.Faithful codec backend) (env : Env)
    (book : Book S) : (call.advance codec backend env book).1.Faithful codec backend := by
  obtain ⟨companyId, actor, command, phase⟩ := call
  cases phase with
  | start =>
    cases hstart : command.start codec (backend.view book.store) companyId actor with
    | some result => simp [Call.advance, Call.Faithful, hstart]
    | none =>
      simp only [Call.advance, Call.Faithful, hstart]
      exact ⟨(Command.start_eq_none hstart).1, fun id hid => Command.documentId_of_given hid env⟩
  | building left documentId =>
    obtain ⟨hadmissible, hnames⟩ := h
    cases left with
    | zero => simp [Call.advance, Call.build, Call.Faithful]
    | succ left =>
      cases hbuild : command.build codec (backend.view book.store) env companyId actor documentId with
      | error e => simp [Call.advance, Call.build, Call.Faithful, hbuild]
      | ok commit =>
        simp only [Call.advance, Call.build, Call.Faithful, hbuild]
        exact ⟨hadmissible, rfl, rfl, rfl, hnames, hbuild⟩
  | committing left draft =>
    obtain ⟨hadmissible, hdraft⟩ := h
    cases hsettle : command.settle codec draft.documentId
        (backend.postingCommit env draft.commit book.store).1 with
    | some result => simp [Call.advance, Call.Faithful, hsettle]
    | none =>
      simp only [Call.advance, Call.Faithful, hsettle]
      exact ⟨hadmissible, hdraft.names⟩
  | finished result => exact trivial

/-- Every call of every run is faithful. -/
theorem System.calls_faithful {store : S} {events : List (Event O)} :
    ∀ call ∈ ((System.fresh store).run codec backend events).calls, call.Faithful codec backend :=
  have rule : Snapshot.Rule (protocol codec backend (.all O)) (fun _ => True) fun _ _ => True :=
    trivial_rule
  System.calls_of_rule (P := fun _ call => call.Faithful codec backend) rule
    (fun _ _ _ _ _ => trivial) (fun book _ env _ h => Call.advance_faithful codec backend h env book)
    (fun _ _ _ _ _ _ h => h) trivial fun event _ => event.allowed_all

/-- What holds of every draft that is about to be committed holds of every entry of the journal. -/
theorem System.journal_of_calls {store : S} {Q : Draft S → Prop} {events : List (Event O)}
    (hdrafts : ∀ early, early <+: events →
      ∀ call ∈ ((System.fresh store).run codec backend early).calls,
      ∀ left draft, call.phase = .committing left draft → Q draft) :
    ∀ entry ∈ ((System.fresh store).run codec backend events).book.journal, Q entry.toDraft := by
  induction events using List.reverseRecOn with
  | nil => exact fun entry hentry => absurd hentry List.not_mem_nil
  | append_singleton events event ih =>
    have hcalls := hdrafts events (List.prefix_append _ _)
    have ih := ih fun early hearly => hdrafts early (hearly.trans (List.prefix_append _ _))
    rw [System.run_concat]
    generalize (System.fresh store).run codec backend events = system at ih hcalls
    cases event with
    | call companyId actor command => exact ih
    | operate op env => exact ih
    | advance position env =>
      cases hposition : system.calls[position]? with
      | none => simpa [System.step, hposition] using ih
      | some moved =>
        simp only [System.step, hposition]
        cases hphase : moved.phase with
        | committing left draft =>
          simp only [Call.advance, hphase, Book.commit]
          split
          · split_ifs
            · exact ih
            · intro entry hentry
              rcases List.mem_append.1 hentry with hentry | hentry
              · exact ih entry hentry
              · obtain rfl := List.mem_singleton.1 hentry
                exact hcalls moved (List.mem_of_getElem? hposition) left draft hphase
          · exact ih
        | _ => simpa [Call.advance, hphase] using ih

/-- What holds of every instant a call of the run moved at holds of the instants drafts were built
at. -/
theorem System.journal_builtAt {store : S} {E : Env → Prop} {events : List (Event O)}
    (hevents : ∀ position env, .advance position env ∈ events → E env) :
    ∀ entry ∈ ((System.fresh store).run codec backend events).book.journal, E entry.builtAt := by
  refine System.journal_of_calls (Q := fun draft => E draft.builtAt) codec backend ?_
  intro early hearly
  induction early using List.reverseRecOn with
  | nil => exact fun call hcall => absurd hcall List.not_mem_nil
  | append_singleton early event ih =>
    have ih := ih ((List.prefix_append _ _).trans hearly)
    intro call hcall left draft hphase
    obtain ⟨position, hposition⟩ := List.getElem?_of_mem hcall
    rw [System.run_concat] at hposition
    rcases System.step_call_cases hposition with
      ⟨hold, -⟩ | ⟨-, hstart⟩ | ⟨env, old, rfl, hold, hadvance⟩
    · exact ih call (List.mem_of_getElem? hold) left draft hphase
    · cases hstart.symm.trans hphase
    · have henv : E env := hevents position env (hearly.subset (by simp))
      obtain rfl := congrArg Prod.fst hadvance
      -- only a build makes a draft
      cases hbefore : old.phase with
      | building left' documentId =>
        cases left' with
        | zero => simp [Call.advance, hbefore, Call.build] at hphase
        | succ left' =>
          simp only [Call.advance, hbefore, Call.build] at hphase
          split at hphase
          · cases hphase
          · obtain ⟨-, rfl⟩ := Phase.committing.inj hphase
            exact henv
      | start =>
        simp only [Call.advance, hbefore] at hphase
        split at hphase <;> cases hphase
      | committing left' draft' =>
        simp only [Call.advance, hbefore] at hphase
        split at hphase <;> cases hphase
      | finished result => simp [Call.advance, hbefore] at hphase

/-- The calls of a run carry commands that arrived. -/
theorem System.calls_allowed {store : S} {allowed : Allowed O} {events : List (Event O)}
    (hevents : ∀ event ∈ events, event.Allowed allowed) :
    ∀ call ∈ ((System.fresh store).run codec backend events).calls, allowed.command call.command := by
  obtain ⟨c, -, hcovers⟩ := System.run_simulates codec backend (covers_fresh store) hevents
  exact hcovers.commands

/-- The entries of a run carry commands that arrived. -/
theorem System.journal_allowed {store : S} {allowed : Allowed O} {events : List (Event O)}
    (hevents : ∀ event ∈ events, event.Allowed allowed) :
    ∀ entry ∈ ((System.fresh store).run codec backend events).book.journal,
      allowed.command entry.command := by
  refine System.journal_of_calls (Q := fun draft => allowed.command draft.command) codec backend ?_
  intro early hearly call hcall left draft hphase
  have hfaithful := System.calls_faithful codec backend call hcall
  simp only [Call.Faithful, hphase] at hfaithful
  rw [hfaithful.2.command]
  exact System.calls_allowed codec backend (fun event h => hevents event (hearly.subset h)) call hcall

/-- A call keeps its company, its actor and its command while it moves. -/
theorem Call.advance_keeps (call : Call S) (env : Env) (book : Book S) :
    let moved := (call.advance codec backend env book).1
    moved.companyId = call.companyId ∧ moved.actor = call.actor ∧ moved.command = call.command := by
  cases hphase : call.phase <;> simp [Call.advance, hphase]

/-- Every call of a run was made in it. -/
theorem System.calls_made {store : S} {events : List (Event O)} :
    ∀ call ∈ ((System.fresh store).run codec backend events).calls,
      Event.call call.companyId call.actor call.command ∈ events := by
  induction events using List.reverseRecOn with
  | nil => exact fun call hcall => absurd hcall List.not_mem_nil
  | append_singleton events event ih =>
    replace ih : ∀ call ∈ ((System.fresh store).run codec backend events).calls,
        Event.call call.companyId call.actor call.command ∈ events ++ [event] :=
      fun call hcall => List.mem_append_left _ (ih call hcall)
    rw [System.run_concat]
    generalize (System.fresh store).run codec backend events = system at ih
    cases event with
    | call companyId actor command =>
      intro call hcall
      rcases List.mem_append.1 hcall with hcall | hcall
      · exact ih call hcall
      · rw [List.mem_singleton.1 hcall]
        exact List.mem_append_right _ (List.mem_singleton_self _)
    | operate op env => exact ih
    | advance position env =>
      cases hposition : system.calls[position]? with
      | none => simpa [System.step, hposition] using ih
      | some old =>
        simp only [System.step, hposition]
        intro call hcall
        rcases List.mem_or_eq_of_mem_set hcall with hcall | rfl
        · exact ih call hcall
        · obtain ⟨hcompany, hactor, hcommand⟩ := Call.advance_keeps codec backend old env system.book
          rw [hcompany, hactor, hcommand]
          exact ih old (List.mem_of_getElem? hposition)

/-- Every entry of a journal was called for in the run. -/
theorem System.journal_made {store : S} (events : List (Event O)) :
    ∀ entry ∈ ((System.fresh store).run codec backend events).book.journal,
      Event.call entry.companyId entry.actor entry.command ∈ events := by
  refine System.journal_of_calls (Q := fun draft => Event.call draft.companyId draft.actor draft.command ∈ events)
    codec backend ?_
  intro early hearly call hcall left draft hphase
  have hfaithful := System.calls_faithful codec backend call hcall
  simp only [Call.Faithful, hphase] at hfaithful
  rw [hfaithful.2.companyId, hfaithful.2.actor, hfaithful.2.command]
  exact hearly.subset (System.calls_made codec backend call hcall)

/-- The entries of a journal: what was posted passed the checks of its command's start and was built
by it for the document the caller named. -/
theorem System.journal_faithful {store : S} (events : List (Event O)) :
    ∀ entry ∈ ((System.fresh store).run codec backend events).book.journal,
      entry.command.Admissible entry.actor ∧
        (∀ id, entry.command.givenId = some id → entry.documentId = id) ∧
        entry.command.build codec (backend.view entry.snapshot) entry.builtAt entry.companyId
          entry.actor entry.documentId = .ok entry.commit := by
  refine System.journal_of_calls (Q := fun draft => draft.command.Admissible draft.actor ∧
    (∀ id, draft.command.givenId = some id → draft.documentId = id) ∧
    draft.command.build codec (backend.view draft.snapshot) draft.builtAt draft.companyId draft.actor
      draft.documentId = .ok draft.commit) codec backend ?_
  intro early _ call hcall left draft hphase
  have hfaithful := System.calls_faithful codec backend call hcall
  simp only [Call.Faithful, hphase] at hfaithful
  obtain ⟨hadmissible, hdraft⟩ := hfaithful
  refine ⟨?_, ?_, hdraft.build⟩
  · rw [hdraft.command, hdraft.actor]
    exact hadmissible
  · rw [hdraft.command]
    exact hdraft.names

end Faithful

end AtlasTeam
