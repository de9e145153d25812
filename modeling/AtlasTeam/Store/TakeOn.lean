import AtlasTeam.Store.NumberCheck
import AtlasTeam.Store.Retries
import AtlasTeam.Store.UniqueNumbers

/-!
# A Solo book is taken on once

The replay lookup, the mark of an earlier migration and the emptiness of the company are checked at
different moments, but the last two inside the commit: whatever has been posted for a company has left a
document there, so after it no take-on of the company is applied (`TakenOver`). What an import call is
told beyond that comes from its idempotency key, and there the digest of the package decides
(`Call.advance_import`). `solo_opening_once` puts the two together over whole runs.
-/

namespace AtlasTeam

/-! ### The package and its digest -/

theorem OpeningLine.toValue_injective : Function.Injective OpeningLine.toValue := by
  rintro ⟨account, debit, credit, partyType, party⟩ ⟨account', debit', credit', partyType', party'⟩ h
  cases partyType <;> cases partyType' <;> cases party <;> cases party' <;>
    simp_all [OpeningLine.toValue, Value.num]

/-- The package says everything a command does. -/
theorem SoloOpeningCommand.package_injective : Function.Injective SoloOpeningCommand.package := by
  rintro ⟨id, date, source, lines, stock, numbering, expected⟩
    ⟨id', date', source', lines', stock', numbering', expected'⟩ h
  obtain ⟨⟨balance, hbalance⟩, receivables, payables, stockValue⟩ := expected
  obtain ⟨⟨balance', hbalance'⟩, receivables', payables', stockValue'⟩ := expected'
  have hstock : Function.Injective fun s : OpeningStock => Value.object
      [("item", .string s.item), ("warehouse", .string s.warehouse), ("qty", .num s.qty),
        ("stock_value", .num s.stockValue), ("account", .string s.account)] := by
    rintro ⟨⟩ ⟨⟩ heq
    simpa [Value.num] using heq
  have hnumbering : Function.Injective fun n : NumberingContinuation => Value.object
      [("doctype", .string n.doctype), ("last_issued", .string n.lastIssued),
        ("last_value", .int n.lastValue)] := by
    rintro ⟨⟩ ⟨⟩ heq
    simpa [Value.int] using heq
  have hbalances : Function.Injective fun e : String × ℚ => (e.1, Value.num e.2) := by
    rintro ⟨⟩ ⟨⟩ heq
    simpa [Value.num] using heq
  simp only [package, Value.object.injEq, List.cons.injEq, Prod.mk.injEq, Value.string.injEq,
    Value.array.injEq, true_and, and_true, Value.num, Value.number.injEq, Number.float.injEq] at h
  obtain ⟨hid, hdate, hsource, hlines, hstocks, hnumberings, hbalance, hreceivables, hpayables, hvalue⟩ := h
  obtain rfl := OpeningLine.toValue_injective.list_map hlines
  obtain rfl := hstock.list_map hstocks
  obtain rfl := hnumbering.list_map hnumberings
  obtain rfl := hbalances.list_map hbalance
  subst hid hdate hsource hreceivables hpayables hvalue
  rfl

/-- The take-ons that arrive in a run. -/
def importsOf (events : List (Event MemOp)) : Set SoloOpeningCommand :=
  {cmd | ∃ companyId actor, Event.call companyId actor (.takeOn cmd) ∈ events}

theorem importsOf_concat {events : List (Event MemOp)} {event : Event MemOp} {cmd : SoloOpeningCommand}
    (h : cmd ∈ importsOf events) : cmd ∈ importsOf (events ++ [event]) := by
  obtain ⟨companyId, actor, hmem⟩ := h
  exact ⟨companyId, actor, List.mem_append_left _ hmem⟩

theorem importsOf_allowed (events : List (Event MemOp)) : ∀ event ∈ events, event.Allowed
    ⟨fun command => ∀ cmd, command = .takeOn cmd → cmd ∈ importsOf events, fun _ => True⟩ := by
  rintro (⟨companyId, actor, command⟩ | _ | _) hevent
  · rintro cmd rfl
    exact ⟨companyId, actor, hevent⟩
  · trivial
  · trivial

/-- Only the response of a take-on names a digest, and it is that of its package. -/
theorem Command.build_sha {codec : Codec} {view : StoreView} {env : Env} {companyId : Uuid}
    {actor : Actor} {documentId : String} {command : Command} {commit : PostingCommit} {sha : String}
    (h : command.build codec view env companyId actor documentId = .ok commit)
    (hsha : (commit.response.get "package_sha256").bind Value.asStr = some sha) :
    ∃ cmd, command = .takeOn cmd ∧ cmd.packageSha256 codec = sha := by
  cases command with
  | submit cmd =>
    obtain ⟨prepared, shortfalls, settlements, updates, -, -, -, rfl⟩ := buildSubmit_ok h
    have hnone : (submitCommit env companyId cmd documentId actor prepared
        (deriveRows codec view (view.companySettings companyId)
          (submitContext companyId cmd documentId prepared.postingDate) prepared.payload)
        shortfalls settlements updates).response.get "package_sha256" = none := by
      simp only [submitCommit]
      split_ifs
      · rw [Value.get_setField_ne _ _ (by decide), Value.get_setField_ne _ _ (by decide), Value.get_obj]
        rfl
      · rw [Value.get_obj]
        rfl
    rw [hnone] at hsha
    cases hsha
  | cancel cmd =>
    obtain ⟨doc, postingDate, guard, updates, -, -, -, -, -, rfl⟩ := buildCancel_ok h
    simp only [cancelCommit, Value.get_obj] at hsha
    cases hsha
  | takeOn cmd =>
    obtain ⟨postingDate, stock, tb, continuations, -, -, rfl⟩ := buildOpening_ok h
    simp only [openingCommit, Value.get_obj] at hsha
    exact ⟨cmd, rfl, Option.some.inj hsha⟩

theorem samePackage_sha {response : Value} {sha : String} {outcome : CommitOutcome}
    (h : samePackage response sha = .ok outcome) :
    (response.get "package_sha256").bind Value.asStr = some sha := by
  by_contra hne
  simp [samePackage, hne] at h

/-! ### Into an empty company, once -/

/-- The company an entry took on. -/
def Entry.takenOn {S : Type} (entry : Entry S) : Option Uuid :=
  match entry.command with
  | .takeOn _ => some entry.companyId
  | _ => none

theorem Entry.takenOn_eq_some {S : Type} {entry : Entry S} {company : Uuid} :
    entry.takenOn = some company ↔
      entry.companyId = company ∧ ∃ cmd, entry.command = .takeOn cmd := by
  unfold Entry.takenOn
  cases entry.command <;> simp

/-- A commit with a mark meets no document of its company. -/
theorem Inner.Passed.empty {commit : PostingCommit} {inner : Inner} (h : Inner.Passed commit inner)
    {mark : SoloMigrationMark} (hmark : commit.soloMigration = some mark) :
    ∀ key ∈ inner.documents, key.1 ≠ commit.companyId := by
  intro key hkey hcompany
  obtain ⟨doc, hdoc⟩ := Option.isSome_iff_exists.1 (AList.lookup_isSome.2 hkey)
  have hany : inner.documents.entries.any (fun e => e.1.1 = commit.companyId) = true :=
    List.any_eq_true.2 ⟨_, AList.mem_lookup_iff.1 hdoc, by simpa using hcompany⟩
  have hsolo := h.solo
  simp only [Inner.checkSolo, hmark, hany, if_true] at hsolo
  split at hsolo <;> cases hsolo

/-- The number of an entry is one its series gave out past a value. -/
def Entry.IssuedPast (entry : Entry Inner) (key : String) (last : Int) : Prop :=
  ∃ v, last < v ∧
    (Inner.numberedDocument entry.commit entry.before).officialNumber = some (formatNumber key v)

/-- What the take-ons of the journal have found and left. -/
structure TakenOver (book : Book Inner) : Prop where
  /-- Where something was posted there is a document. -/
  held : ∀ entry ∈ book.journal, ∃ key ∈ book.store.documents, key.1 = entry.companyId
  /-- No company was taken on twice. -/
  once : (book.journal.filterMap Entry.takenOn).Nodup
  /-- A company that was taken on was empty. -/
  empty : ∀ entry ∈ book.journal, ∀ company, entry.takenOn = some company →
    ∀ key ∈ entry.before.documents, key.1 ≠ company
  /-- The series stand at the values they go on after. -/
  floors : ∀ entry ∈ book.journal, ∀ floor ∈ entry.command.continues,
    floor.2 ≤ book.store.series.counter entry.companyId floor.1
  /-- What the series gave out since is past these values. -/
  above : book.journal.Pairwise fun entry later => later.companyId = entry.companyId →
    ∀ floor ∈ entry.command.continues, later.commit.seriesKey = some floor.1 →
      later.IssuedPast floor.1 floor.2

theorem takenOver_fresh : TakenOver { store := {} } where
  held _ h := absurd h List.not_mem_nil
  once := List.nodup_nil
  empty _ h := absurd h List.not_mem_nil
  floors _ h := absurd h List.not_mem_nil
  above := .nil

section Rule
variable {codec : Codec} {allowed : Allowed MemOp}

/-- A take-on that builds makes a commit with a mark. -/
theorem built_mark {book : Book Inner} {draft : Draft Inner}
    (h : Draft.Built codec (memBackend codec) allowed book draft) {cmd : SoloOpeningCommand}
    (hcommand : draft.command = .takeOn cmd) : ∃ mark, draft.commit.soloMigration = some mark := by
  have hbuild := h.build
  rw [hcommand] at hbuild
  obtain ⟨postingDate, stock, tb, continuations, -, -, hcommit⟩ := buildOpening_ok hbuild
  exact ⟨_, by rw [hcommit]; rfl⟩

/-- After an applied commit the series stand at the floors it raised. -/
theorem Inner.Applied.le_counter {commit : PostingCommit} {inner inner' : Inner}
    (h : Inner.Applied commit inner inner') {floor : String × Int}
    (hfloor : floor ∈ commit.numberingFloors) :
    floor.2 ≤ inner'.series.counter commit.companyId floor.1 := by
  rw [h.counter]
  apply HighWater.le_foldl_max_of_mem
  exact List.mem_map.2 ⟨floor, List.mem_filter.2 ⟨hfloor, by simp⟩, rfl⟩

/-- An applied draft, on books whose take-ons have done so. -/
theorem TakenOver.applied {book₀ book : Book Inner} {draft : Draft Inner} {inner' : Inner}
    (h : TakenOver book) (hbuilt : Draft.Built codec (memBackend codec) allowed book₀ draft)
    (hextends : Extends book.store inner') (hpassed : Inner.Passed draft.commit book.store)
    (happlied : Inner.Applied draft.commit book.store inner') :
    TakenOver { store := inner', journal := book.journal ++ [appliedEntry draft book.store] } := by
  have hcompany : draft.commit.companyId = draft.companyId :=
    (Command.build_new_or_cancel hbuilt.build).1
  obtain ⟨-, -, hcontinues⟩ := built_numbering hbuilt
  -- a take-on meets nothing of its company, so nothing was posted for it
  have hempty : ∀ company, (appliedEntry draft book.store).takenOn = some company →
      ∀ key ∈ book.store.documents, key.1 ≠ company := by
    intro company htaken
    obtain ⟨rfl, cmd, hcommand⟩ := Entry.takenOn_eq_some.1 htaken
    obtain ⟨mark, hmark⟩ := built_mark hbuilt hcommand
    rw [show (appliedEntry draft book.store).companyId = draft.companyId from rfl, ← hcompany]
    exact hpassed.empty hmark
  constructor
  · intro entry hentry
    rcases List.mem_append.1 hentry with hentry | hentry
    · obtain ⟨key, hkey, hsame⟩ := h.held entry hentry
      obtain ⟨doc, hdoc⟩ := Option.isSome_iff_exists.1 (AList.lookup_isSome.2 hkey)
      obtain ⟨doc', hdoc', -⟩ := hextends.documents key doc hdoc
      exact ⟨key, AList.lookup_isSome.1 (hdoc' ▸ rfl), hsame⟩
    · obtain rfl := List.mem_singleton.1 hentry
      obtain ⟨doc, hdoc, -⟩ := Inner.lookup_written_self draft.commit book.store
      rw [← happlied.documents] at hdoc
      exact ⟨Inner.docKey draft.commit, AList.lookup_isSome.1 (hdoc ▸ rfl), hcompany⟩
  · rw [List.filterMap_append, List.nodup_append]
    refine ⟨h.once, ?_, ?_⟩
    · cases htaken : (appliedEntry draft book.store).takenOn with
      | none => simp [htaken]
      | some company => simp [htaken]
    · intro company htaken company' htaken'
      obtain ⟨entry, hentry, hentryTaken⟩ := List.mem_filterMap.1 htaken
      obtain ⟨key, hkey, hsame⟩ := h.held entry hentry
      obtain rfl := (Entry.takenOn_eq_some.1 hentryTaken).1
      have hnew : (appliedEntry draft book.store).takenOn = some company' := by simpa using htaken'
      rw [← hsame]
      exact hempty company' hnew key hkey
  · intro entry hentry
    rcases List.mem_append.1 hentry with hentry | hentry
    · exact h.empty entry hentry
    · obtain rfl := List.mem_singleton.1 hentry
      exact hempty
  · intro entry hentry floor hfloor
    rcases List.mem_append.1 hentry with hentry | hentry
    · exact (h.floors entry hentry floor hfloor).trans (happlied.counter_mono _ _)
    · obtain rfl := List.mem_singleton.1 hentry
      rw [show (appliedEntry draft book.store).companyId = draft.companyId from rfl, ← hcompany]
      apply happlied.le_counter
      rw [hcontinues]
      exact hfloor
  · rw [List.pairwise_append]
    refine ⟨h.above, List.pairwise_singleton _ _, fun entry hentry later hlater hsame floor hfloor hkey => ?_⟩
    obtain rfl := List.mem_singleton.1 hlater
    have hcounter := h.floors entry hentry floor hfloor
    refine ⟨_, ?_, Inner.allocateNumber_number hkey book.store⟩
    rw [show (appliedEntry draft book.store).commit.companyId = draft.companyId from hcompany]
    have hsame : draft.companyId = entry.companyId := hsame
    rw [hsame]
    omega

theorem takenOver_rule : Snapshot.Rule (protocol codec (memBackend codec) allowed)
    (fun book => Kept book ∧ TakenOver book) fun book book' => Extends book.store book'.store := by
  refine extends_rule_and ?_ ?_
  · intro book₀ book draft inner' hkept₀ _ hgrow hkept h hbuilt hpassed happlied
    exact h.applied hbuilt (kept_applied hkept₀ hgrow hkept hbuilt hpassed happlied).2 hpassed happlied
  · intro book op env h _
    refine ⟨?_, h.once, h.empty, ?_, h.above⟩
    · rw [(operate_frame codec env op book.store).documents]
      exact h.held
    · intro entry hentry floor hfloor
      exact (h.floors entry hentry floor hfloor).trans (operate_counter codec env op book.store _ _)

end Rule

theorem memRun_takenOver (codec : Codec) (events : List (Event MemOp)) :
    TakenOver (memRun codec events).book :=
  (System.invariant_of_rule takenOver_rule ⟨kept_fresh, takenOver_fresh⟩
    fun event _ => event.allowed_all).2

/-! ### What an import call is told -/

section Calls
variable {codec : Codec}

/-- A step of an import call leaves the book alone and answers at most with an error or a stored response
that names its digest, or it posts the take-on and answers with its response. -/
theorem Call.advance_import {book : Book Inner} {call : Call Inner} {cmd : SoloOpeningCommand}
    (hfaithful : call.Faithful codec (memBackend codec)) (hcommand : call.command = .takeOn cmd)
    (hopen : ∀ result, call.phase ≠ .finished result) (env : Env) :
    let next := (call.advance codec (memBackend codec) env book).1
    let book' := (call.advance codec (memBackend codec) env book).2
    (book' = book ∧ ∀ outcome, next.phase = .finished (.ok outcome) → outcome.replayed = true ∧
      AList.lookup (call.companyId, cmd.idempotencyKey) book.store.idempotency =
        some outcome.response ∧
      (outcome.response.get "package_sha256").bind Value.asStr = some (cmd.packageSha256 codec)) ∨
    ∃ entry, book'.journal = book.journal ++ [entry] ∧ entry.companyId = call.companyId ∧
      entry.command = .takeOn cmd ∧ next.phase = .finished (.ok ⟨entry.response, false⟩) := by
  intro next book'
  cases hphase : call.phase with
  | start =>
    refine .inl ⟨by simp [book', Call.advance, hphase], fun outcome hdone => ?_⟩
    simp only [next, Call.advance, hphase, hcommand, Command.start] at hdone
    by_cases hsafe : safeId cmd.migrationId = true
    · simp only [hsafe, Bool.not_true, Bool.false_eq_true, if_false] at hdone
      cases hstored : ((memBackend codec).view book.store).idempotentResponse call.companyId
          cmd.idempotencyKey with
      | none => simp [hstored] at hdone
      | some response =>
        simp only [hstored, Option.map_some, Phase.finished.injEq] at hdone
        have hsha := samePackage_sha hdone
        rw [samePackage_eq_ok hdone]
        exact ⟨rfl, hstored, hsha⟩
    · simp [hsafe] at hdone
  | building left documentId =>
    refine .inl ⟨by simp [book', Call.advance, hphase], fun outcome hdone => ?_⟩
    simp only [next, Call.advance, hphase, Call.build] at hdone
    split at hdone
    · cases hdone
    · split at hdone <;> cases hdone
  | committing left draft =>
    simp only [Call.Faithful, hphase] at hfaithful
    obtain ⟨-, hdraft⟩ := hfaithful
    have hkey : draft.commit.idempotencyKey = some cmd.idempotencyKey := by
      rw [Command.build_idempotencyKey hdraft.build, hdraft.command, hcommand]
      rfl
    have hcompany : draft.commit.companyId = call.companyId :=
      (Command.build_new_or_cancel hdraft.build).1.trans hdraft.companyId
    rcases commit_effects codec env draft book with
      ⟨response, hstored, hrun, hsame⟩ | ⟨e, -, hrun, hsame⟩ | ⟨inner', -, hrun, hbook⟩
    · refine .inl ⟨by simpa [book', Call.advance, hphase] using hsame, fun outcome hdone => ?_⟩
      simp only [next, Call.advance, hphase, hcommand, hrun, Command.settle, if_true,
        Phase.finished.injEq] at hdone
      have hsha := samePackage_sha hdone
      rw [samePackage_eq_ok hdone]
      rw [Inner.replayed, hkey, hcompany] at hstored
      exact ⟨rfl, hstored, hsha⟩
    · refine .inl ⟨by simpa [book', Call.advance, hphase] using hsame, fun outcome hdone => ?_⟩
      simp only [next, Call.advance, hphase, hcommand, hrun] at hdone
      cases e <;> simp [Command.settle] at hdone
    · refine .inr ⟨appliedEntry draft book.store, ?_, hdraft.companyId,
        hdraft.command.trans hcommand, ?_⟩
      · simp only [book', Call.advance, hphase]
        rw [hbook]
      · simp [next, Call.advance, hphase, hcommand, hrun, Command.settle, appliedEntry]
  | finished result => exact absurd hphase (hopen result)

end Calls

/-- No step the call at the position took in the run changed the book. -/
def Idle (codec : Codec) (events : List (Event MemOp)) (position : Nat) : Prop :=
  ∀ early env, early ++ [.advance position env] <+: events →
    (memRun codec (early ++ [.advance position env])).book = (memRun codec early).book

/-- A step of the call at the position appended the entry. -/
def PostedBy (codec : Codec) (events : List (Event MemOp)) (position : Nat) (entry : Entry Inner) :
    Prop :=
  ∃ early env, early ++ [.advance position env] <+: events ∧
    (memRun codec (early ++ [.advance position env])).book.journal =
      (memRun codec early).book.journal ++ [entry]

/-- The call took its company on: its step appended the entry of its command, and it was told so. -/
def Call.TookOn (codec : Codec) (events : List (Event MemOp)) (position : Nat) (call : Call Inner) :
    Prop :=
  ∃ entry, PostedBy codec events position entry ∧ entry.companyId = call.companyId ∧
    entry.command = call.command ∧ call.phase = .finished (.ok ⟨entry.response, false⟩)

/-- The call has changed nothing, and the only success it is told of is the stored response of a take-on
that was applied to its company by the same command. -/
def Call.OnlyReplayed (codec : Codec) (events : List (Event MemOp)) (position : Nat)
    (call : Call Inner) : Prop :=
  Idle codec events position ∧ ∀ outcome, call.phase = .finished (.ok outcome) →
    ∃ entry ∈ (memRun codec events).book.journal, entry.companyId = call.companyId ∧
      entry.command = call.command ∧ outcome = ⟨entry.response, true⟩

section Run
variable {codec : Codec}

theorem Idle.concat {events : List (Event MemOp)} {position : Nat} (h : Idle codec events position)
    {event : Event MemOp} (hsame : ∀ env, event = .advance position env →
      (memRun codec (events ++ [event])).book = (memRun codec events).book) :
    Idle codec (events ++ [event]) position := by
  intro early env hprefix
  rcases List.prefix_concat_iff.1 hprefix with heq | hprefix
  · obtain ⟨rfl, hevent⟩ := List.append_inj' heq rfl
    rw [heq]
    exact hsame env (List.cons.inj hevent).1.symm
  · exact h early env hprefix

theorem PostedBy.mono {events : List (Event MemOp)} {position : Nat} {entry : Entry Inner}
    (h : PostedBy codec events position entry) (event : Event MemOp) :
    PostedBy codec (events ++ [event]) position entry := by
  obtain ⟨early, env, hprefix, hjournal⟩ := h
  exact ⟨early, env, hprefix.trans (List.prefix_append _ _), hjournal⟩

/-- What was appended is in the journal. -/
theorem PostedBy.mem {events : List (Event MemOp)} {position : Nat} {entry : Entry Inner}
    (h : PostedBy codec events position entry) : entry ∈ (memRun codec events).book.journal := by
  obtain ⟨early, env, ⟨late, rfl⟩, hjournal⟩ := h
  have hgrows := memRun_journal_grows codec (early ++ [Event.advance position env]) late
  rw [hjournal] at hgrows
  exact hgrows.subset (List.mem_append_right _ (List.mem_singleton_self entry))

/-- The take-ons of a run's calls are those that arrived. -/
theorem memRun_imports {events : List (Event MemOp)} {call : Call Inner}
    (hcall : call ∈ (memRun codec events).calls) {cmd : SoloOpeningCommand}
    (hcommand : call.command = .takeOn cmd) : cmd ∈ importsOf events :=
  System.calls_allowed codec (memBackend codec) (importsOf_allowed events) call hcall cmd hcommand

/-- A replayed response with a digest is that of the take-on with this digest. -/
theorem memRun_replayed_sha {events : List (Event MemOp)} {company : Uuid} {key sha : String}
    {response : Value}
    (hstored : AList.lookup (company, key) (memRun codec events).book.store.idempotency =
      some response)
    (hsha : (response.get "package_sha256").bind Value.asStr = some sha) :
    ∃ entry ∈ (memRun codec events).book.journal, entry.companyId = company ∧
      entry.response = response ∧
      ∃ cmd ∈ importsOf events, entry.command = .takeOn cmd ∧ cmd.packageSha256 codec = sha := by
  obtain ⟨entry, hentry, hkey, rfl⟩ := (memRun_keyed codec events).source _ _ hstored
  obtain ⟨key', -, hcompany⟩ := Option.map_eq_some_iff.1 hkey
  obtain ⟨-, -, hbuild⟩ := System.journal_faithful codec (memBackend codec) events entry hentry
  rw [(memRun_standing codec events).2.answered entry hentry,
    Inner.numberedResponse_get (by decide)] at hsha
  obtain ⟨cmd, hcommand, hdigest⟩ := Command.build_sha hbuild hsha
  have harrived := System.journal_allowed codec (memBackend codec) (importsOf_allowed events) entry
    hentry cmd hcommand
  exact ⟨entry, hentry, (Prod.mk.inj hcompany).1, rfl, cmd, harrived, hcommand, hdigest⟩

/-- A call that has not arrived has changed nothing. -/
theorem idle_of_absent {events : List (Event MemOp)} {position : Nat}
    (h : (memRun codec events).calls[position]? = none) : Idle codec events position := by
  induction events using List.reverseRecOn with
  | nil => exact fun early env hbegins => absurd (List.prefix_nil.1 hbegins) (by simp)
  | append_singleton events event ih =>
    have hbefore : (memRun codec events).calls[position]? = none := by
      by_contra hsome
      obtain ⟨old, hold⟩ := Option.ne_none_iff_exists'.1 hsome
      rw [memRun_concat] at h
      rcases System.step_call hold event with hkept | ⟨env, -, hmoved⟩
      · cases h.symm.trans hkept
      · cases h.symm.trans hmoved
    refine (ih hbefore).concat ?_
    rintro env rfl
    rw [memRun_concat]
    simp [System.step, hbefore]

/-- An event that is no step of the call, or one that leaves the book alone, leaves it where it is. -/
theorem Call.import_concat {events : List (Event MemOp)} {event : Event MemOp} {position : Nat}
    {call : Call Inner}
    (h : call.TookOn codec events position ∨ call.OnlyReplayed codec events position)
    (hsame : ∀ env, event = .advance position env →
      (memRun codec (events ++ [event])).book = (memRun codec events).book) :
    call.TookOn codec (events ++ [event]) position ∨
      call.OnlyReplayed codec (events ++ [event]) position := by
  rcases h with ⟨entry, hposted, hentry⟩ | ⟨hidle, htold⟩
  · exact .inl ⟨entry, hposted.mono event, hentry⟩
  · refine .inr ⟨hidle.concat hsame, fun outcome hdone => ?_⟩
    obtain ⟨entry, hentry, hrest⟩ := htold outcome hdone
    exact ⟨entry, (memRun_journal_grows codec events [event]).subset hentry, hrest⟩

/-- A step of an import call that is still open takes the book on, or the call goes on having only
replayed. -/
theorem Call.import_step {events : List (Event MemOp)} {position : Nat} {env : Env}
    {old call : Call Inner} {cmd : SoloOpeningCommand}
    (hsha : ∀ cmd ∈ importsOf events, ∀ cmd' ∈ importsOf events,
      cmd.packageSha256 codec = cmd'.packageSha256 codec → cmd.package = cmd'.package)
    (hold : (memRun codec events).calls[position]? = some old)
    (hadvance : (call, (memRun codec (events ++ [Event.advance position env])).book) =
      old.advance codec (memBackend codec) env (memRun codec events).book)
    (hcommand : old.command = .takeOn cmd) (harrived : cmd ∈ importsOf events)
    (hopen : ∀ result, old.phase ≠ .finished result) (hidle : Idle codec events position) :
    call.TookOn codec (events ++ [Event.advance position env]) position ∨
      call.OnlyReplayed codec (events ++ [Event.advance position env]) position := by
  have hfaithful := System.calls_faithful codec (memBackend codec) old (List.mem_of_getElem? hold)
  obtain ⟨hcompany, hsameCommand⟩ := Call.advance_command codec old env (memRun codec events).book
  obtain rfl : call = (old.advance codec (memBackend codec) env (memRun codec events).book).1 :=
    congrArg Prod.fst hadvance
  have hbook := congrArg Prod.snd hadvance
  rcases Call.advance_import hfaithful hcommand hopen env with
    ⟨hsame, htold⟩ | ⟨entry, hjournal, hentryCompany, hentry, hdone⟩
  · have hidle' : Idle codec (events ++ [Event.advance position env]) position := by
      refine hidle.concat ?_
      rintro env' heq
      cases heq
      exact hbook.trans hsame
    refine .inr ⟨hidle', fun outcome hdone => ?_⟩
    obtain ⟨hreplayed, hstored, hdigest⟩ := htold outcome hdone
    obtain ⟨entry, hentry, hentryCompany, hresponse, cmd', harrived', hentryCommand, hsame'⟩ :=
      memRun_replayed_sha hstored hdigest
    -- the same digest is the same package
    have hcmd : cmd' = cmd := SoloOpeningCommand.package_injective (hsha _ harrived' _ harrived hsame')
    refine ⟨entry, (memRun_journal_grows codec events _).subset hentry, hentryCompany.trans hcompany.symm,
      ?_, ?_⟩
    · rw [hentryCommand, hsameCommand, hcommand, hcmd]
    · rw [hresponse, ← hreplayed]
  · refine .inl ⟨entry, ⟨events, env, List.prefix_rfl, ?_⟩, hentryCompany.trans hcompany.symm, ?_, hdone⟩
    · exact (congrArg Book.journal hbook).trans hjournal
    · rw [hentry, hsameCommand, hcommand]

/-- An import call of a run took the book on, or it has only replayed. -/
theorem memRun_import {events : List (Event MemOp)}
    (hsha : ∀ cmd ∈ importsOf events, ∀ cmd' ∈ importsOf events,
      cmd.packageSha256 codec = cmd'.packageSha256 codec → cmd.package = cmd'.package)
    {position : Nat} {call : Call Inner} (hcall : (memRun codec events).calls[position]? = some call)
    {cmd : SoloOpeningCommand} (hcommand : call.command = .takeOn cmd) :
    call.TookOn codec events position ∨ call.OnlyReplayed codec events position := by
  induction events using List.reverseRecOn generalizing call with
  | nil => cases hcall
  | append_singleton events event ih =>
    have hsha' : ∀ cmd ∈ importsOf events, ∀ cmd' ∈ importsOf events,
        cmd.packageSha256 codec = cmd'.packageSha256 codec → cmd.package = cmd'.package :=
      fun cmd hcmd cmd' hcmd' => hsha cmd (importsOf_concat hcmd) cmd' (importsOf_concat hcmd')
    rw [memRun_concat] at hcall
    rcases System.step_call_cases hcall with
      ⟨hold, hmoves⟩ | ⟨hnew, hstart⟩ | ⟨env, old, rfl, hold, hadvance⟩
    · exact Call.import_concat (ih hsha' hold hcommand) fun env heq => absurd heq (hmoves env)
    · refine .inr ⟨(idle_of_absent hnew).concat ?_, fun outcome hdone => ?_⟩
      · rintro env rfl
        rw [memRun_concat]
        simp [System.step, hnew]
      · cases hstart.symm.trans hdone
    · rw [← memRun_concat] at hadvance
      have holdCommand : old.command = .takeOn cmd := by
        have hsame := (Call.advance_command codec old env (memRun codec events).book).2
        rw [← congrArg Prod.fst hadvance] at hsame
        exact hsame.symm.trans hcommand
      have hbefore := ih hsha' hold holdCommand
      by_cases hopen : ∀ result, old.phase ≠ .finished result
      · rcases hbefore with ⟨entry, -, -, -, hfinished⟩ | ⟨hidle, -⟩
        · exact absurd hfinished (hopen _)
        · exact Call.import_step hsha' hold hadvance holdCommand
            (memRun_imports (List.mem_of_getElem? hold) holdCommand) hopen hidle
      · -- nothing is left to do
        simp only [not_forall, not_not] at hopen
        obtain ⟨result, hfinished⟩ := hopen
        have hstill : old.advance codec (memBackend codec) env (memRun codec events).book =
            (old, (memRun codec events).book) := by
          simp [Call.advance, hfinished]
        rw [hstill] at hadvance
        obtain ⟨rfl, hbook⟩ := Prod.mk.inj hadvance
        refine Call.import_concat hbefore ?_
        rintro env' heq
        cases heq
        exact hbook

/-- Two calls cannot both have taken a company on. -/
theorem Call.TookOn.unique {events : List (Event MemOp)} {position position' : Nat}
    {call call' : Call Inner} (h : call.TookOn codec events position)
    (h' : call'.TookOn codec events position') {cmd cmd' : SoloOpeningCommand}
    (hcommand : call.command = .takeOn cmd) (hcommand' : call'.command = .takeOn cmd')
    (hcompany : call.companyId = call'.companyId) : position = position' := by
  obtain ⟨entry, ⟨early, env, hbegins, hjournal⟩, hentryCompany, hentry, -⟩ := h
  obtain ⟨entry', ⟨early', env', hbegins', hjournal'⟩, hentryCompany', hentry', -⟩ := h'
  have htaken : entry.takenOn = some call.companyId :=
    Entry.takenOn_eq_some.2 ⟨hentryCompany, cmd, hentry.trans hcommand⟩
  have htaken' : entry'.takenOn = some call.companyId :=
    Entry.takenOn_eq_some.2 ⟨hentryCompany'.trans hcompany.symm, cmd', hentry'.trans hcommand'⟩
  -- the later of two steps would take the company on once more
  have hlater : ∀ {early early' : List (Event MemOp)} {event event' : Event MemOp}
      {entry entry' : Entry Inner}, early ++ [event] <+: early' →
      (memRun codec (early ++ [event])).book.journal = (memRun codec early).book.journal ++ [entry] →
      (memRun codec (early' ++ [event'])).book.journal =
        (memRun codec early').book.journal ++ [entry'] →
      entry.takenOn = some call.companyId → entry'.takenOn = some call.companyId → False := by
    intro early early' event event' entry entry' hbegins hjournal hjournal' htaken htaken'
    obtain ⟨late, rfl⟩ := hbegins
    have hmem : entry ∈ (memRun codec (early ++ [event] ++ late)).book.journal := by
      have hgrows := memRun_journal_grows codec (early ++ [event]) late
      rw [hjournal] at hgrows
      exact hgrows.subset (List.mem_append_right _ (List.mem_singleton_self entry))
    have honce := (memRun_takenOver codec (early ++ [event] ++ late ++ [event'])).once
    rw [hjournal', List.filterMap_append, List.nodup_append] at honce
    exact honce.2.2 _ (List.mem_filterMap.2 ⟨entry, hmem, htaken⟩) _
      (List.mem_filterMap.2 ⟨entry', List.mem_singleton_self entry', htaken'⟩) rfl
  rcases List.prefix_or_prefix_of_prefix hbegins hbegins' with hprior | hprior
  · rcases List.prefix_concat_iff.1 hprior with heq | hprior
    · have hlast := (List.append_inj' heq rfl).2
      exact (Event.advance.inj (List.cons.inj hlast).1).1
    · exact absurd (hlater hprior hjournal hjournal' htaken htaken') id
  · rcases List.prefix_concat_iff.1 hprior with heq | hprior
    · have hlast := (List.append_inj' heq rfl).2
      exact (Event.advance.inj (List.cons.inj hlast).1).1.symm
    · exact absurd (hlater hprior hjournal' hjournal htaken' htaken) id

end Run

/-- Over every run of take-ons, submits, cancels and the store's other operations, with packages that
their digests tell apart: a company is taken on at most once, and only while it holds no document; at
most one import call has taken it on, and every other one has changed nothing and is told of no success
but the stored response of the take-on of its own package; and the series its numbering names have given
out only values past the last ones stated. -/
theorem solo_opening_once (codec : Codec) (events : List (Event MemOp))
    (hsha : ∀ cmd ∈ importsOf events, ∀ cmd' ∈ importsOf events,
      cmd.packageSha256 codec = cmd'.packageSha256 codec → cmd.package = cmd'.package) :
    let system := memRun codec events
    (system.book.journal.filterMap Entry.takenOn).Nodup ∧
    (∀ entry ∈ system.book.journal, ∀ company, entry.takenOn = some company →
      ∀ key ∈ entry.before.documents, key.1 ≠ company) ∧
    (∀ (position : Nat) call cmd, system.calls[position]? = some call → call.command = .takeOn cmd →
      (call.TookOn codec events position ∨ call.OnlyReplayed codec events position) ∧
      ∀ outcome, call.phase = .finished (.ok outcome) →
        AList.lookup (call.companyId, cmd.idempotencyKey) system.book.store.idempotency =
          some outcome.response) ∧
    (∀ (position position' : Nat) call call' cmd cmd', system.calls[position]? = some call →
      system.calls[position']? = some call' → call.command = .takeOn cmd →
      call'.command = .takeOn cmd' → call.companyId = call'.companyId →
      call.TookOn codec events position → call'.TookOn codec events position' →
      position = position') ∧
    system.book.journal.Pairwise fun entry later => later.companyId = entry.companyId →
      ∀ cmd, entry.command = .takeOn cmd → ∀ n ∈ cmd.numbering, ∀ key, seriesKey n.doctype = some key →
        later.commit.seriesKey = some key → later.IssuedPast key n.lastValue := by
  intro system
  have htaken := memRun_takenOver codec events
  refine ⟨htaken.once, htaken.empty, ?_, ?_, ?_⟩
  · intro position call cmd hcall hcommand
    have himport := memRun_import hsha hcall hcommand
    refine ⟨himport, fun outcome hdone => ?_⟩
    have hentry : ∃ entry ∈ system.book.journal, entry.companyId = call.companyId ∧
        entry.command = call.command ∧ outcome.response = entry.response := by
      rcases himport with ⟨entry, hposted, hcompany, hsame, hphase⟩ | ⟨-, htold⟩
      · obtain rfl := Except.ok.inj (Phase.finished.inj (hphase.symm.trans hdone))
        exact ⟨entry, hposted.mem, hcompany, hsame, rfl⟩
      · obtain ⟨entry, hmem, hcompany, hsame, rfl⟩ := htold outcome hdone
        exact ⟨entry, hmem, hcompany, hsame, rfl⟩
    obtain ⟨entry, hmem, hcompany, hsame, hresponse⟩ := hentry
    rw [hresponse]
    refine (memRun_keyed codec events).stored entry hmem _ ?_
    rw [Entry.key, hsame, hcommand, hcompany]
    rfl
  · intro position position' call call' cmd cmd' _ _ hcommand hcommand' hcompany h h'
    exact h.unique h' hcommand hcommand' hcompany
  · refine htaken.above.imp fun {entry later} habove hcompany cmd hcommand n hn key hkey hseries => ?_
    refine habove hcompany (key, n.lastValue) ?_ hseries
    rw [hcommand]
    exact List.mem_filterMap.2 ⟨n, hn, by rw [hkey]; rfl⟩

/-! ### One book, sent twice -/

def teaShop : SoloOpeningCommand where
  migrationId := "solo-2026"
  postingDate := "2026-01-01"
  source := .obj [("book", .string "Tea shop")]
  lines := [⟨"Cash", 100, 0, none, none⟩, ⟨"Equity", 0, 100, none, none⟩]
  stock := []
  numbering := [⟨"POS Invoice", "POS-41", 41⟩]
  expected := ⟨SortedMap.empty |>.put "Cash" 100 |>.put "Equity" (-100), 0, 0, 0⟩

/-- The chart of accounts is published and the book is imported twice, step by step; then a sale is
posted. -/
def teaShopTwice : List (Event MemOp) :=
  let env : Env := ⟨0, "2026-01-05", 0⟩
  let owner : Actor := ⟨some 7, some 5, none⟩
  let account (name : String) : MutationRecord :=
    { id := "account-" ++ name
      mutationType := .createDocument
      docType := "Account"
      documentId := name
      payload := [("name", .string name)]
      deviceId := "device-5"
      userId := "user-7"
      localTimestamp := 0
      syncVersion := none
      status := .pending }
  [.operate (.pushMutations 1 [account "Cash", account "Equity"]) env,
    .call 1 owner (.takeOn teaShop), .call 1 owner (.takeOn teaShop), .advance 0 env, .advance 1 env,
    .advance 0 env, .advance 1 env, .advance 0 env, .advance 1 env] ++
  Event.whole 1 owner (cashSale "sale-1" "" false) 2 env

/-- The first import takes the company on, the second is told of it, and the sale gets a number past the
last one of the book. -/
theorem solo_opening_once_teaShop :
    (memRun serdeCodec teaShopTwice).book.journal.map Entry.takenOn = [some 1, none] ∧
    (∀ (position : Nat) call, (memRun serdeCodec teaShopTwice).calls[position]? = some call →
      call.command = .takeOn teaShop →
        call.TookOn serdeCodec teaShopTwice position ∨
          call.OnlyReplayed serdeCodec teaShopTwice position) ∧
    (memRun serdeCodec teaShopTwice).book.journal.Pairwise fun entry later =>
      later.companyId = entry.companyId → ∀ cmd, entry.command = .takeOn cmd →
        ∀ n ∈ cmd.numbering, ∀ key, seriesKey n.doctype = some key →
          later.commit.seriesKey = some key → later.IssuedPast key n.lastValue := by
  have honly : ∀ cmd ∈ importsOf teaShopTwice, cmd = teaShop := by
    rintro cmd ⟨companyId, actor, hmem⟩
    simp only [teaShopTwice, Event.whole, List.cons_append, List.nil_append, List.mem_cons,
      Event.call.injEq, Command.takeOn.injEq, reduceCtorEq, List.not_mem_nil, false_or, or_false,
      cashSale, and_false, or_self] at hmem
    exact hmem.2.2
  have honce := solo_opening_once serdeCodec teaShopTwice fun cmd hcmd cmd' hcmd' _ => by
    rw [honly cmd hcmd, honly cmd' hcmd']
  refine ⟨by decide +kernel, fun position call hcall hcommand => ?_, honce.2.2.2.2⟩
  exact (honce.2.2.1 position call teaShop hcall hcommand).1

end AtlasTeam
