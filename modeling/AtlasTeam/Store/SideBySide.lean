import AtlasTeam.Api.Delivery
import AtlasTeam.Store.Agreement
import AtlasTeam.Store.Reversals

/-!
# The two stores side by side

`twinBackend` gives every commit to both stores and keeps a record of it (`Attempt`); the builds read one
of them. The in-memory store takes everything the checks let through, the tables refuse what is under a
key they hold. `Sound` is what both have in common as long as no commit was of that kind; it holds in
every run of clear commits (`sound_rule`), and `stores_agree` says what it means for the answers and the
states. `stores_disagree` is a run that is not clear: two documents of one number.
-/

namespace AtlasTeam

/-- The store the builds read. -/
inductive Side where
  | mem
  | pg

/-- A commit, the in-memory store it met and what the two stores made of it. -/
structure Attempt where
  commit : PostingCommit
  before : Inner
  memResult : Except StoreError CommitOutcome
  pgResult : Except StoreError CommitOutcome

/-- Both stores and the commits they were given. -/
structure Twin where
  mem : Inner := {}
  tables : PgTables := {}
  attempts : List Attempt := []

namespace Twin
variable (pg : Postgres) (codec : Codec) (side : Side)

def view (twin : Twin) : StoreView :=
  match side with
  | .mem => twin.mem.view
  | .pg => twin.tables.view pg

/-- One commit on both. -/
def postingCommit (env : Env) (commit : PostingCommit) (twin : Twin) :
    Except StoreError CommitOutcome × Twin :=
  let (memResult, mem) := twin.mem.postingCommit codec env commit
  let (pgResult, tables) := twin.tables.postingCommit pg codec env commit
  let attempt : Attempt := { commit, before := twin.mem, memResult, pgResult }
  (match side with
    | .mem => memResult
    | .pg => pgResult,
    { mem, tables, attempts := twin.attempts ++ [attempt] })

end Twin

def twinBackend (pg : Postgres) (codec : Codec) (side : Side) : Backend Twin MemOp where
  view := Twin.view pg side
  postingCommit := Twin.postingCommit pg codec side
  operate env op twin :=
    { twin with
      mem := (memBackend codec).operate env op twin.mem
      tables := (pgBackend pg codec).operate env op twin.tables }

/-- The system on both stores after a list of events, from empty ones. -/
def twinRun (pg : Postgres) (codec : Codec) (side : Side) (events : List (Event MemOp)) :
    System Twin :=
  (System.fresh {}).run codec (twinBackend pg codec side) events

/-! ### A build fits the state its commit meets -/

theorem Later.eq_rebuilt {doc doc' : PostedDocument} (h : Later doc doc') :
    doc' = { doc with payload := doc'.payload, docstatus := doc'.docstatus } := by
  cases doc'
  simp only [← h.id, ← h.companyId, ← h.doctype, ← h.officialNumber, ← h.createdAt]

section Build
variable {codec : Codec} {view : StoreView} {env : Env} {companyId : Uuid} {actor : Actor}
  {documentId : String} {command : Command} {commit : PostingCommit}

/-- A new document comes without a number. -/
theorem Command.build_unnumbered
    (h : command.build codec view env companyId actor documentId = .ok commit)
    (hnew : commit.documentIsNew = true) : commit.document.officialNumber = none := by
  cases command with
  | submit cmd =>
    obtain ⟨prepared, shortfalls, settlements, updates, -, -, -, rfl⟩ := buildSubmit_ok h
    rfl
  | cancel cmd =>
    obtain ⟨doc, postingDate, guard, updates, -, -, -, -, -, rfl⟩ := buildCancel_ok h
    cases hnew
  | takeOn cmd =>
    obtain ⟨postingDate, stock, tb, continuations, -, -, rfl⟩ := buildOpening_ok h
    rfl

/-- What a commit writes under its key is what stands there, later. -/
theorem Command.build_later {inner₀ inner : Inner}
    (hread : ∀ doctype id, view.postedDocument companyId doctype id =
      AList.lookup (companyId, doctype, id) inner₀.documents)
    (hkeyed₀ : ∀ key doc, AList.lookup key inner₀.documents = some doc →
      key = (doc.companyId, doc.doctype, doc.id))
    (hgrow : Extends inner₀ inner)
    (h : command.build codec view env companyId actor documentId = .ok commit)
    (hpassed : Inner.Passed commit inner) :
    commit.document.companyId = commit.companyId ∧
      ∀ existing, AList.lookup (Inner.docKey commit) inner.documents = some existing →
        Later existing (Inner.numberedDocument commit inner) := by
  obtain ⟨hcompany, hnew | ⟨cmd, doc₀, -, hold, hdoc₀, hstatus₀, hdocument, hseries, hpre, -⟩⟩ :=
    Command.build_new_or_cancel h
  · obtain ⟨hisNew, hdocCompany, -, -⟩ := hnew
    have habsent := hpassed.absent hisNew
    exact ⟨hdocCompany.trans hcompany.symm, fun existing hexisting =>
      absurd (habsent.symm.trans hexisting) (by simp)⟩
  · rw [hread] at hdoc₀
    have hkey₀ := hkeyed₀ _ _ hdoc₀
    have hkey : Inner.docKey commit = (companyId, cmd.doctype, cmd.documentId) := by
      rw [Inner.docKey, hdocument, hcompany, hkey₀, ← (Prod.mk.inj hkey₀).1]
    obtain ⟨doc, hdoc, hstatus⟩ := hpassed.submitted hold
    obtain ⟨doc₁, hdoc₁, hlater⟩ := hgrow.documents _ _ hdoc₀
    obtain rfl : doc₁ = doc := Option.some.inj (hdoc₁.symm.trans (hkey ▸ hdoc))
    have hnumbered : Inner.numberedDocument commit inner = { doc₀ with docstatus := 2 } := by
      simp [Inner.numberedDocument, Inner.allocateNumber, hseries, hpre, hdocument]
    refine ⟨?_, fun existing hexisting => ?_⟩
    · rw [hdocument, hcompany]
      exact (Prod.mk.inj hkey₀).1.symm
    · obtain rfl : existing = doc₁ := Option.some.inj (hexisting.symm.trans hdoc)
      rw [hnumbered]
      exact later_cancelled hlater hstatus₀ hstatus

end Build

/-! ### What every clear run keeps -/

/-- Both stores answered every commit alike and hold the same. -/
structure Sound (twin : Twin) : Prop where
  alike : ∀ attempt ∈ twin.attempts, attempt.pgResult = attempt.memResult
  same : SameStores twin.mem twin.tables
  /-- A document stands under its own key. -/
  keyed : ∀ key doc, AList.lookup key twin.mem.documents = some doc →
    key = (doc.companyId, doc.doctype, doc.id)
  /-- No two rows of a ledger share an id. -/
  ids : ∀ (kind : LedgerKind) company, ((kind.held twin.mem company).map kind.rowId).Nodup

theorem sound_fresh : Sound {} where
  alike _ h := absurd h List.not_mem_nil
  same := sameStores_fresh
  keyed _ _ h := by simp at h
  ids kind company := by cases kind <;> exact List.nodup_nil

/-- Every commit given to the stores was clear. -/
def Twin.AllClear (pg : Postgres) (twin : Twin) : Prop :=
  ∀ attempt ∈ twin.attempts, Clear pg attempt.commit attempt.before

section Rule
variable {pg : Postgres} {codec : Codec} {side : Side} {allowed : Allowed MemOp}

theorem LedgerKind.stored_eq_held (kind : LedgerKind) (tables : PgTables) (company : Uuid) :
    kind.stored tables company = kind.held tables.toInner company := by
  cases kind <;> rfl

/-- Whichever store a build reads, no two rows it finds share an id. -/
theorem Sound.found_ids {twin : Twin} (h : Sound twin) (kind : LedgerKind) (company : Uuid)
    (no : String) : ((kind.found (twin.view pg side) company no).map kind.rowId).Nodup := by
  cases side with
  | mem => exact (h.ids kind company).sublist ((kind.found_sublist twin.mem company no).map _)
  | pg =>
    have hstored : ((kind.stored twin.tables company).map kind.rowId).Nodup := by
      rw [kind.stored_eq_held, h.same.rowIds]
      exact h.ids kind company
    have hperm := (kind.found_perm pg twin.tables company no).map kind.rowId
    exact hperm.nodup_iff.2 (hstored.sublist (List.filter_sublist.map _))

theorem Sound.postedDocument {twin : Twin} (h : Sound twin) (company : Uuid) (doctype id : String) :
    (twin.view pg side).postedDocument company doctype id =
      AList.lookup (company, doctype, id) twin.mem.documents := by
  cases side with
  | mem => rfl
  | pg => exact congrArg (AList.lookup (company, doctype, id)) h.same.documents

variable {twin₀ twin : Twin} {draft : Draft Twin}

/-- A commit that passes the checks fits the state it meets. -/
theorem Sound.fits (h₀ : Sound twin₀) (h : Sound twin) (hgrow : Extends twin₀.mem twin.mem)
    {env : Env} {companyId : Uuid} {actor : Actor} {documentId : String} {command : Command}
    {commit : PostingCommit}
    (hbuild : command.build codec (twin₀.view pg side) env companyId actor documentId = .ok commit)
    (hcheck : twin.mem.checkCommit commit = .ok ()) : Fits commit twin.mem where
  rowIds kind := Command.build_rowIds hbuild fun no => h₀.found_ids kind companyId no
  storedIds kind := h.ids kind commit.companyId
  updates := Command.build_updates hbuild
  unnumbered := Command.build_unnumbered hbuild
  kept _ existing hexisting := by
    have hlater := (Command.build_later (h₀.postedDocument companyId) h₀.keyed hgrow hbuild
      (Inner.passed_of_checkCommit hcheck)).2 existing hexisting
    have hrebuilt := hlater.eq_rebuilt
    have hstatus : (Inner.numberedDocument commit twin.mem).docstatus = commit.document.docstatus := by
      rw [Inner.numberedDocument_eq]
    rwa [Inner.numberedDocument_payload, hstatus] at hrebuilt

/-- A clear commit keeps what both stores have in common. -/
theorem Sound.postingCommit (h₀ : Sound twin₀) (h : Sound twin) (hgrow : Extends twin₀.mem twin.mem)
    {builtAt env : Env} {companyId : Uuid} {actor : Actor} {documentId : String} {command : Command}
    {commit : PostingCommit}
    (hbuild : command.build codec (twin₀.view pg side) builtAt companyId actor documentId = .ok commit)
    (hclear : Clear pg commit twin.mem) :
    Sound (twin.postingCommit pg codec side env commit).2 ∧
      Extends twin.mem (twin.postingCommit pg codec side env commit).2.mem := by
  have hfits := fun hcheck => h₀.fits h hgrow hbuild hcheck
  obtain ⟨hanswers, hsame⟩ := h.same.postingCommit codec env hfits hclear
  have halike : ∀ attempt ∈ (twin.postingCommit pg codec side env commit).2.attempts,
      attempt.pgResult = attempt.memResult := by
    intro attempt hattempt
    rcases List.mem_append.1 hattempt with hattempt | hattempt
    · exact h.alike attempt hattempt
    · obtain rfl := List.mem_singleton.1 hattempt
      exact hanswers
  have hunchanged : (twin.postingCommit pg codec side env commit).2.mem = twin.mem →
      Sound (twin.postingCommit pg codec side env commit).2 ∧
        Extends twin.mem (twin.postingCommit pg codec side env commit).2.mem := by
    intro hmem
    refine ⟨⟨halike, hsame, ?_, ?_⟩, ?_⟩ <;> rw [hmem]
    · exact h.keyed
    · exact h.ids
    · exact Extends.refl _
  rcases Inner.postingCommit_cases codec env commit twin.mem with
    ⟨response, -, hrun⟩ | ⟨e, -, -, hrun⟩ | ⟨hreplay, hcheck, inner', happlied, hrun⟩
  · exact hunchanged (congrArg Prod.snd hrun)
  · exact hunchanged (congrArg Prod.snd hrun)
  · have hmem : (twin.postingCommit pg codec side env commit).2.mem = inner' :=
      congrArg Prod.snd hrun
    obtain ⟨hcompany, hlater⟩ := Command.build_later (h₀.postedDocument companyId) h₀.keyed hgrow
      hbuild (Inner.passed_of_checkCommit hcheck)
    refine ⟨⟨halike, hsame, ?_, ?_⟩, ?_⟩
    · rw [hmem, happlied.documents]
      exact keyed_written h.keyed hcompany
    · intro kind company
      rw [hmem, kind.held_applied happlied]
      split_ifs with hown
      · subst hown
        have hfree := nodup_append_of_free (h.ids kind _) ((hfits hcheck).rowIds kind)
          ((hclear.writes hreplay hcheck).rows kind)
        rwa [List.map_append] at hfree
      · rw [List.append_nil]
        exact h.ids kind company
    · rw [hmem]
      exact happlied.extends hlater

variable (side) in
/-- Another operation keeps it too. -/
theorem Sound.operate (h : Sound twin) (env : Env) (op : MemOp) :
    Sound ((twinBackend pg codec side).operate env op twin) where
  alike := h.alike
  same := h.same.operate pg codec env op
  keyed := by
    show ∀ key doc, AList.lookup key ((memBackend codec).operate env op twin.mem).documents = some doc →
      key = (doc.companyId, doc.doctype, doc.id)
    rw [(operate_frame codec env op twin.mem).documents]
    exact h.keyed
  ids kind company := by
    show ((kind.held ((memBackend codec).operate env op twin.mem) company).map kind.rowId).Nodup
    rw [kind.held_operate]
    exact h.ids kind company

theorem sound_rule : Snapshot.Rule (protocol codec (twinBackend pg codec side) allowed)
    (fun book => book.store.AllClear pg → Sound book.store)
    fun book book' => book.store.attempts <+: book'.store.attempts ∧
      (book'.store.AllClear pg → Extends book.store.mem book'.store.mem) where
  refl book := ⟨List.prefix_rfl, fun _ => Extends.refl _⟩
  trans := by
    rintro a b c ⟨hearly, hgrow⟩ ⟨hearly', hgrow'⟩
    refine ⟨hearly.trans hearly', fun hclear => ?_⟩
    exact (hgrow fun attempt hattempt => hclear attempt (hearly'.subset hattempt)).trans
      (hgrow' hclear)
  commit := by
    rintro book₀ book _ draft h₀ ⟨hearly, hgrow⟩ h hbuilt ⟨env, rfl⟩
    rw [Book.commit_store]
    have hattempts : book.store.attempts <+: (book.store.postingCommit pg codec side env
        draft.commit).2.attempts := List.prefix_append _ _
    have hkeep : (book.store.postingCommit pg codec side env draft.commit).2.AllClear pg →
        Sound (book.store.postingCommit pg codec side env draft.commit).2 ∧
          Extends book.store.mem (book.store.postingCommit pg codec side env draft.commit).2.mem := by
      intro hclear
      -- the commits before this one were clear, those before the build among them
      have hbefore : book.store.AllClear pg := fun attempt hattempt =>
        hclear attempt (hattempts.subset hattempt)
      have hbuild := hbuilt.build
      rw [hbuilt.snapshot] at hbuild
      exact (h₀ fun attempt hattempt => hbefore attempt (hearly.subset hattempt)).postingCommit
        (h hbefore) (hgrow hbefore) hbuild
        (hclear _ (List.mem_append_right _ (List.mem_singleton_self _)))
    exact ⟨fun hclear => (hkeep hclear).1, hattempts, fun hclear => (hkeep hclear).2⟩
  other := by
    rintro book _ h ⟨op, env, -, rfl⟩
    exact ⟨fun hclear => (h hclear).operate side env op, List.prefix_rfl, fun _ =>
      (operate_frame codec env op book.store.mem).extends⟩

end Rule

/-! ### Clear runs -/

/-- In every run in which the commits are clear, both stores make the same of every one of them, and they
hold the same when it ends, whichever of them the commits were built on. -/
theorem stores_agree (pg : Postgres) (codec : Codec) (side : Side) (events : List (Event MemOp))
    (hclear : (twinRun pg codec side events).book.store.AllClear pg) :
    (∀ attempt ∈ (twinRun pg codec side events).book.store.attempts,
      attempt.pgResult = attempt.memResult) ∧
    SameStores (twinRun pg codec side events).book.store.mem
      (twinRun pg codec side events).book.store.tables := by
  have h : (twinRun pg codec side events).book.store.AllClear pg →
      Sound (twinRun pg codec side events).book.store :=
    System.invariant_of_rule (@sound_rule pg codec side (.all MemOp)) (fun _ => sound_fresh)
      fun event _ => event.allowed_all
  exact ⟨(h hclear).alike, (h hclear).same⟩

/-- A sales and a purchase invoice of their own numbers, then a cancel: both stores take all three. -/
theorem stores_agree_invoices :
    let twin := (twinRun plainPostgres serdeCodec .pg (invoicesPosted "SI-1" "PI-1")).book.store
    (twin.attempts.map fun attempt => attempt.memResult.isOk) = [true, true, true] ∧
      (∀ attempt ∈ twin.attempts, attempt.pgResult = attempt.memResult) ∧
      SameStores twin.mem twin.tables :=
  ⟨by decide +kernel, stores_agree plainPostgres serdeCodec .pg (invoicesPosted "SI-1" "PI-1")
    (show ∀ attempt ∈ _, _ by decide +kernel)⟩

/-- A purchase invoice that has the number of a sales invoice is official in memory and refused by the
tables. -/
theorem stores_disagree :
    let twin := (twinRun plainPostgres serdeCodec .pg (invoicesPosted "1001" "1001")).book.store
    (∃ attempt ∈ twin.attempts, attempt.memResult.isOk = true ∧ attempt.pgResult.isOk = false) ∧
      (AList.lookup (1, "Purchase Invoice", "1001") twin.mem.documents).isSome = true ∧
      (AList.lookup (1, "Purchase Invoice", "1001") twin.tables.documents).isSome = false := by
  decide +kernel

end AtlasTeam
