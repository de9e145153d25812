import AtlasTeam.Calls
import AtlasTeam.Lib.Runs
import AtlasTeam.Store.Immutable

/-!
# All of what a commit writes

`Inner.Applied` follows the books. `Inner.Effects` adds the rest of an applied commit: the key it
was stored under, the batch, the audit row and the records it appended to the sync log. Its rule,
`effects_rule_and`, is `extends_rule_and` for invariants that need them. `memRun_step` takes a run apart
at its last event, and `memRun_always_iff` says when a property holds all along a run.
-/

namespace AtlasTeam

namespace Inner

/-- The copies of the invoices whose outstanding amounts a commit on `inner` writes. -/
def touchedDocuments (commit : PostingCommit) (inner : Inner) : List PostedDocument :=
  (writeOutstandings commit.companyId commit.outstandingUpdates
    (AList.insert (docKey commit) (numberedDocument commit inner) inner.documents)).1

/-- The records a commit on `inner` replicates. -/
def replicated (codec : Codec) (env : Env) (commit : PostingCommit) (inner : Inner) :
    Except String (List MutationRecord) :=
  replicationMutations codec env.now
    (replicationSources commit (numberedDocument commit inner) (sequencedRows commit inner)
      (touchedDocuments commit inner))

/-- `inner'` is what `commit` makes of `inner`. -/
structure Effects (codec : Codec) (env : Env) (commit : PostingCommit) (inner inner' : Inner) :
    Prop where
  unreplayed : inner.replayed commit = none
  passed : Passed commit inner
  applied : Applied commit inner inner'
  idempotency : inner'.idempotency = match commit.idempotencyKey with
    | some key => AList.insert (commit.companyId, key) (numberedResponse commit inner)
        inner.idempotency
    | none => inner.idempotency
  batches : inner'.batches =
    AList.insert (commit.companyId, commit.batch.id) commit.batch inner.batches
  audit : inner'.audit = inner.audit ++ [commit.audit]
  syncLog : ∃ records, replicated codec env commit inner = .ok records ∧
    inner'.toSyncLog = inner.toSyncLog.appendMutations codec env commit.companyId records

/-- An applied commit has all its effects. -/
theorem postingCommit_effects (codec : Codec) (env : Env) (commit : PostingCommit) (inner : Inner)
    (hreplay : inner.replayed commit = none) (hcheck : inner.checkCommit commit = .ok ()) :
    Effects codec env commit inner (postingCommit codec env commit inner).2 := by
  obtain ⟨records, hrecords⟩ : ∃ records, replicated codec env commit inner = .ok records :=
    replicationMutations_ok codec env.now _
  have hpassed := passed_of_checkCommit hcheck
  have hrun := hrecords
  simp only [replicated, touchedDocuments, numberedDocument, sequencedRows] at hrun
  simp only [postingCommit, hreplay, hcheck, hrun]
  refine ⟨hreplay, hpassed, by constructor <;> rfl, ?_, rfl, rfl, records, hrecords, rfl⟩
  simp only [closeCommit, appendRows]
  cases commit.idempotencyKey <;> rfl

end Inner

section Steps
variable (codec : Codec)

/-- What committing a draft does to the book, with the answer of the store: a replay, a refusal, or an
entry with all its effects. -/
theorem commit_effects (env : Env) (draft : Draft Inner) (book : Book Inner) :
    (∃ response, book.store.replayed draft.commit = some response ∧
      ((memBackend codec).postingCommit env draft.commit book.store).1 =
        .ok { response, replayed := true } ∧
      book.commit (memBackend codec) env draft = book) ∨
    (∃ e, book.store.replayed draft.commit = none ∧
      ((memBackend codec).postingCommit env draft.commit book.store).1 = .error e ∧
      book.commit (memBackend codec) env draft = book) ∨
    ∃ inner', Inner.Effects codec env draft.commit book.store inner' ∧
      ((memBackend codec).postingCommit env draft.commit book.store).1 =
        .ok { response := Inner.numberedResponse draft.commit book.store, replayed := false } ∧
      book.commit (memBackend codec) env draft =
        { store := inner', journal := book.journal ++ [appliedEntry draft book.store] } := by
  rcases Inner.postingCommit_cases codec env draft.commit book.store with
    ⟨response, hreplay, hrun⟩ | ⟨e, hreplay, -, hrun⟩ | ⟨hreplay, hcheck, inner', -, hrun⟩
  · exact .inl ⟨response, hreplay, by simp [memBackend, hrun],
      by simp [Book.commit, memBackend, hrun]⟩
  · exact .inr (.inl ⟨e, hreplay, by simp [memBackend, hrun],
      by simp [Book.commit, memBackend, hrun]⟩)
  · have heffects := Inner.postingCommit_effects codec env draft.commit book.store hreplay hcheck
    rw [hrun] at heffects
    exact .inr (.inr ⟨inner', heffects, by simp [memBackend, hrun],
      by simp [Book.commit, memBackend, hrun, appliedEntry]⟩)

variable {codec} {allowed : Allowed MemOp}

/-- An invariant on top of the growth of the books: what a commit with all its effects and another
operation do to it. -/
theorem effects_rule_and {J : Book Inner → Prop}
    (hcommit : ∀ {book₀ book : Book Inner} {draft : Draft Inner} {env : Env} {inner' : Inner},
      Kept book₀ → J book₀ → Extends book₀.store book.store → Kept book → J book →
      Draft.Built codec (memBackend codec) allowed book₀ draft →
      Inner.Effects codec env draft.commit book.store inner' →
      J { store := inner', journal := book.journal ++ [appliedEntry draft book.store] })
    (hoperate : ∀ {book : Book Inner} {op : MemOp} {env : Env}, J book → allowed.operate op →
      J { book with store := (memBackend codec).operate env op book.store }) :
    Snapshot.Rule (protocol codec (memBackend codec) allowed) (fun book => Kept book ∧ J book)
      fun book book' => Extends book.store book'.store := by
  refine extends_rule.and ?_ ?_
  · rintro book₀ book _ draft hkept₀ hJ₀ hgrow hkept hJ hbuilt ⟨env, rfl⟩
    rcases commit_effects codec env draft book with
      ⟨response, -, -, hsame⟩ | ⟨e, -, -, hsame⟩ | ⟨inner', heffects, -, hbook⟩
    · rw [hsame]
      exact hJ
    · rw [hsame]
      exact hJ
    · exact hbook ▸ hcommit hkept₀ hJ₀ hgrow hkept hJ hbuilt heffects
  · rintro book _ - hJ ⟨op, env, hop, rfl⟩
    exact hoperate hJ hop

end Steps

/-- A run and its last event. -/
theorem memRun_concat (codec : Codec) (events : List (Event MemOp)) (event : Event MemOp) :
    memRun codec (events ++ [event]) =
      (memRun codec events).step codec (memBackend codec) event :=
  System.run_concat _ _ _

/-- One more event on the in-memory store, seen from a rule on top of the growth of the books. -/
theorem memRun_step {codec : Codec} {allowed : Allowed MemOp} {I : Book Inner → Prop}
    (rule : Snapshot.Rule (protocol codec (memBackend codec) allowed) I
      fun book book' => Extends book.store book'.store)
    (hfresh : I { store := {} }) {events : List (Event MemOp)}
    (hevents : ∀ event ∈ events, event.Allowed allowed) (event : Event MemOp) :
    let book := (memRun codec events).book
    let book' := (memRun codec (events ++ [event])).book
    (∀ op env, event ≠ .operate op env) ∧ book' = book ∨
      (∀ op env, event ≠ .operate op env) ∧
      (∃ book₀ draft env inner', I book₀ ∧ Extends book₀.store book.store ∧
        Draft.Built codec (memBackend codec) allowed book₀ draft ∧
        Inner.Effects codec env draft.commit book.store inner' ∧
        book' = { store := inner', journal := book.journal ++ [appliedEntry draft book.store] }) ∨
      ∃ op env, event = .operate op env ∧
        book' = { book with store := (memBackend codec).operate env op book.store } := by
  intro book book'
  have hstep : book' = ((memRun codec events).step codec (memBackend codec) event).book :=
    congrArg System.book (memRun_concat codec events event)
  rcases System.step_of_rule rule hfresh hevents event with
    ⟨hevent, hsame⟩ | ⟨hevent, book₀, draft, env, hI, hgrow, hbuilt, hcommit⟩ |
      ⟨op, env, hevent, hoperate⟩
  · exact .inl ⟨hevent, hstep.trans hsame⟩
  · have hcommit : book' = book.commit (memBackend codec) env draft := hstep.trans hcommit
    rcases commit_effects codec env draft book with
      ⟨response, -, -, hsame⟩ | ⟨e, -, -, hsame⟩ | ⟨inner', heffects, -, hbook⟩
    · exact .inl ⟨hevent, hcommit.trans hsame⟩
    · exact .inl ⟨hevent, hcommit.trans hsame⟩
    · exact .inr (.inl ⟨hevent, book₀, draft, env, inner', hI, hgrow, hbuilt, heffects,
        hcommit.trans hbook⟩)
  · exact .inr (.inr ⟨op, env, hevent, hstep.trans hoperate⟩)

/-- The commits and the other operations of a run meet their conditions. A condition may speak of the commits
before. -/
def RunMeets (codec : Codec) (Q : List (Entry Inner) → Entry Inner → Prop) (R : Book Inner → MemOp → Prop)
    (events : List (Event MemOp)) : Prop :=
  Runs.Each Q (memRun codec events).book.journal ∧
    ∀ run op env, run ++ [Event.operate op env] <+: events → R (memRun codec run).book op

/-- What one more event adds to the conditions. -/
theorem runMeets_concat {codec : Codec} {Q : List (Entry Inner) → Entry Inner → Prop}
    {R : Book Inner → MemOp → Prop} (early : List (Event MemOp)) (event : Event MemOp) :
    RunMeets codec Q R (early ++ [event]) ↔
      Runs.Each Q (memRun codec (early ++ [event])).book.journal ∧
      (∀ run op env, run ++ [Event.operate op env] <+: early → R (memRun codec run).book op) ∧
      ∀ op env, event = .operate op env → R (memRun codec early).book op := by
  refine and_congr_right fun _ => ⟨fun h => ⟨fun run op env hrun => ?_, ?_⟩, ?_⟩
  · exact h run op env (hrun.trans (List.prefix_append _ _))
  · rintro op env rfl
    exact h early op env List.prefix_rfl
  · rintro ⟨hearly, hlast⟩ run op env hrun
    rcases List.prefix_concat_iff.1 hrun with heq | hrun
    · obtain ⟨rfl, hevent⟩ := List.append_inj' heq rfl
      exact hlast op env (List.cons.inj hevent).1.symm
    · exact hearly run op env hrun

/-- A property of the store holds all along a run exactly if every commit and every other operation of the
run meets its condition, when it holds at the start and these are the conditions under which they keep
it. -/
theorem memRun_always_iff {codec : Codec} {allowed : Allowed MemOp} {I : Book Inner → Prop}
    (rule : Snapshot.Rule (protocol codec (memBackend codec) allowed) I
      fun book book' => Extends book.store book'.store)
    (hfresh : I { store := {} }) {P : Inner → Prop} {Q : List (Entry Inner) → Entry Inner → Prop}
    {R : Book Inner → MemOp → Prop} (hstart : P {})
    (hcommit : ∀ {book₀ book : Book Inner} {draft : Draft Inner} {env : Env} {inner' : Inner},
      let book' : Book Inner :=
        { store := inner', journal := book.journal ++ [appliedEntry draft book.store] }
      I book₀ → Extends book₀.store book.store → I book → I book' → P book.store →
      Draft.Built codec (memBackend codec) allowed book₀ draft →
      Inner.Effects codec env draft.commit book.store inner' →
      (P inner' ↔ Q book.journal (appliedEntry draft book.store)))
    (hoperate : ∀ {book : Book Inner} (op : MemOp) (env : Env), I book → P book.store →
      (P ((memBackend codec).operate env op book.store) ↔ R book op))
    {events : List (Event MemOp)} (hevents : ∀ event ∈ events, event.Allowed allowed) :
    (∀ run, run <+: events → P (memRun codec run).book.store) ↔
      Runs.Each Q (memRun codec events).book.journal ∧
      ∀ run op env, run ++ [Event.operate op env] <+: events → R (memRun codec run).book op := by
  have hstep : ∀ early event, early ++ [event] <+: events → P (memRun codec early).book.store →
      (P (memRun codec (early ++ [event])).book.store ∧ RunMeets codec Q R early ↔
        RunMeets codec Q R (early ++ [event])) := by
    intro early event hbegins hP
    have hrun := fun e he => hevents e (hbegins.subset he)
    have hearly := fun e he => hrun e (List.mem_append_left _ he)
    have hI : I (memRun codec early).book := System.invariant_of_rule rule hfresh hearly
    have hI' : I (memRun codec (early ++ [event])).book := System.invariant_of_rule rule hfresh hrun
    rw [runMeets_concat]
    rcases memRun_step rule hfresh hearly event with
      ⟨hevent, hsame⟩ | ⟨hevent, book₀, draft, env, inner', hI₀, hgrow, hbuilt, heffects, hbook⟩ |
        ⟨op, env, rfl, hbook⟩
    · rw [hsame]
      refine ⟨fun ⟨_, hQ, hR⟩ => ⟨hQ, hR, fun op env heq => absurd heq (hevent op env)⟩,
        fun ⟨hQ, hR, _⟩ => ⟨hP, hQ, hR⟩⟩
    · rw [hbook] at hI' ⊢
      rw [hcommit hI₀ hgrow hI hI' hP hbuilt heffects, Runs.each_concat]
      exact ⟨fun ⟨hentry, hQ, hR⟩ => ⟨⟨hQ, hentry⟩, hR, fun op env heq => absurd heq (hevent op env)⟩,
        fun ⟨⟨hQ, hentry⟩, hR, _⟩ => ⟨hentry, hQ, hR⟩⟩
    · rw [hbook, hoperate op env hI hP]
      refine ⟨fun ⟨hop, hQ, hR⟩ => ⟨hQ, hR, ?_⟩, fun ⟨hQ, hR, hop⟩ => ⟨hop op env rfl, hQ, hR⟩⟩
      rintro op' env' heq
      cases heq
      exact hop
  have hearlier : ∀ early event, early ++ [event] <+: events →
      RunMeets codec Q R (early ++ [event]) → RunMeets codec Q R early := by
    intro early event hbegins hQ
    have hearly := fun e he => hevents e (hbegins.subset (List.mem_append_left _ he))
    obtain ⟨hjournal, hR, -⟩ := (runMeets_concat early event).1 hQ
    refine ⟨hjournal.begins ?_, hR⟩
    rcases memRun_step rule hfresh hearly event with
      ⟨-, hsame⟩ | ⟨-, book₀, draft, env, inner', -, -, -, -, hbook⟩ | ⟨op, env, -, hbook⟩
    · rw [hsame]
    · rw [hbook]
      exact List.prefix_append _ _
    · rw [hbook]
  refine Runs.always_iff (P := fun run => P (memRun codec run).book.store) (Q := RunMeets codec Q R)
    ⟨hstart, Runs.each_nil, fun run op env hrun => ?_⟩ hearlier
    fun early event hbegins hP hQ => ?_
  · exact absurd (List.prefix_nil.1 hrun) (by simp)
  · rw [← hstep early event hbegins hP]
    exact (and_iff_left hQ).symm

/-- The same for a property that only commits can break, by what they are themselves. -/
theorem memRun_always_iff_journal {codec : Codec} {allowed : Allowed MemOp} {I : Book Inner → Prop}
    (rule : Snapshot.Rule (protocol codec (memBackend codec) allowed) I
      fun book book' => Extends book.store book'.store)
    (hfresh : I { store := {} }) {P : Inner → Prop} {Q : Entry Inner → Prop} (hstart : P {})
    (hcommit : ∀ {book₀ book : Book Inner} {draft : Draft Inner} {env : Env} {inner' : Inner},
      let book' : Book Inner :=
        { store := inner', journal := book.journal ++ [appliedEntry draft book.store] }
      I book₀ → Extends book₀.store book.store → I book → I book' → P book.store →
      Draft.Built codec (memBackend codec) allowed book₀ draft →
      Inner.Effects codec env draft.commit book.store inner' →
      (P inner' ↔ Q (appliedEntry draft book.store)))
    (hoperate : ∀ {inner : Inner} (op : MemOp) (env : Env), P inner →
      P ((memBackend codec).operate env op inner))
    {events : List (Event MemOp)} (hevents : ∀ event ∈ events, event.Allowed allowed) :
    (∀ run, run <+: events → P (memRun codec run).book.store) ↔
      ∀ entry ∈ (memRun codec events).book.journal, Q entry := by
  rw [memRun_always_iff (Q := fun _ => Q) (R := fun _ _ => True) rule hfresh hstart hcommit
    (fun op env _ hP => iff_of_true (hoperate op env hP) trivial) hevents, Runs.each_const]
  exact and_iff_left fun _ _ _ _ => trivial

end AtlasTeam
