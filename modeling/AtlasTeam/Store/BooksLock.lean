import AtlasTeam.Api.Settings
import AtlasTeam.Posting.Calendar
import AtlasTeam.Posting.Ownership
import AtlasTeam.Store.Effects

/-!
# The books lock at commit time

A command checks the lock when it builds, and the lock may move before it commits; the commit checks
the date again, on the lock that is stored then. The date is the one its document carries: a submit
and a take-on write it into the payload, and a cancel reads it back from there (`Dated`). With every
stored lock a date (`LocksDated`), the comparison of texts is one of days, and
`committed_after_lock` holds of every commit of every run. Both checks of the lock are comparisons of
days of the calendar (`posting_dates_exact`).
-/

namespace AtlasTeam

/-- Every stored lock is a date. -/
def LocksDated (inner : Inner) : Prop :=
  ∀ company lock, inner.booksLock company = some lock → IsoDate lock

/-- The lock changes of a run are those the handler asks for. -/
def handlerLocks : Allowed MemOp where
  command _ := True
  operate op := match op with
    | .setBooksLock company change => ∃ env latest auth role request,
        lockChange env latest auth company role request = .ok change
    | _ => True

/-- The clock shows a date whenever a command moves. -/
def ClockShowsDates (events : List (Event MemOp)) : Prop :=
  ∀ position env, .advance position env ∈ events → IsoDate env.today

theorem LocksDated.setBooksLock {inner : Inner} (h : LocksDated inner) {company : Uuid}
    {change : BooksLockChange} (hchange : ∀ lock, change.lockDate = some lock → IsoDate lock) :
    LocksDated (inner.setBooksLock company change).2 := by
  intro company' lock hlock
  by_cases hmoved : (inner.setBooksLock company change).2.booksLock company' = inner.booksLock company'
  · exact h company' lock (hmoved ▸ hlock)
  · obtain ⟨rfl, -, hnew, -⟩ := Inner.setBooksLock_moves hmoved
    exact hchange lock (hnew.symm.trans hlock)

/-- The operations keep every stored lock a date. -/
theorem LocksDated.operate {codec : Codec} {inner : Inner} (h : LocksDated inner) {op : MemOp}
    (hop : handlerLocks.operate op) (env : Env) :
    LocksDated ((memBackend codec).operate env op inner) := by
  cases op with
  | lostHistory company report audit =>
    rcases Inner.recordLostHistory_cases company report audit inner with
      ⟨stored, -, hrun⟩ | ⟨-, response, recoveries, audits, hrun⟩
    · simpa only [memBackend, hrun] using h
    · simp only [memBackend, hrun]
      exact h
  | putSettings company settings =>
    intro company' lock hlock
    refine h company' lock ?_
    rw [← inner.booksLock_putCompanySettings company company' settings]
    exact hlock
  | setBooksLock company change =>
    obtain ⟨env', latest, auth, role, request, hchange⟩ := hop
    obtain ⟨-, hnormal, -⟩ := lockChange_ok hchange
    exact h.setBooksLock fun lock hlock => normalizeLock_iso (hlock ▸ hnormal)
  | pushMutations company records => exact h
  | upsertItem company item => exact h

/-! ### Dates of documents -/

/-- The document carries a posting date, and it is a date. -/
def PostedDocument.Dated (doc : PostedDocument) (date : String) : Prop :=
  doc.payload.get "posting_date" = some (.string date) ∧ IsoDate date

/-- A document keeps its date. -/
theorem Later.dated_iff {doc doc' : PostedDocument} (h : Later doc doc') (date : String) :
    doc'.Dated date ↔ doc.Dated date := by
  rw [PostedDocument.Dated, PostedDocument.Dated, h.get (by decide)]

/-- What an entry was held to: the date of its document, after the lock it met. -/
def HeldToDate (entry : Entry Inner) : Prop :=
  ∃ date, entry.commit.lockCheckDate = some date ∧ entry.commit.document.Dated date ∧
    entry.before.checkLock entry.commit = .ok () ∧ LocksDated entry.before

/-- Documents and entries are dated, and so are the locks. -/
structure BooksDated (book : Book Inner) : Prop where
  locks : LocksDated book.store
  documents : ∀ key doc, AList.lookup key book.store.documents = some doc → ∃ date, doc.Dated date
  entries : ∀ entry ∈ book.journal, HeldToDate entry

section Rule
variable {codec : Codec}

/-- A build on dated books is held to the date of its document. -/
theorem build_dated {book₀ book : Book Inner} {draft : Draft Inner}
    (hgrow : Extends book₀.store book.store) (h : BooksDated book)
    (hbuilt : Draft.Built codec (memBackend codec) handlerLocks book₀ draft)
    (hclock : IsoDate draft.builtAt.today) :
    ∃ date, draft.commit.lockCheckDate = some date ∧ draft.commit.document.Dated date := by
  have hbuild := hbuilt.build
  rw [hbuilt.snapshot] at hbuild
  cases hcommand : draft.command with
  | submit cmd =>
    rw [hcommand] at hbuild
    obtain ⟨date, hlock, hiso, hpayload⟩ := buildSubmit_date hclock hbuild
    exact ⟨date, hlock, hpayload, hiso⟩
  | takeOn cmd =>
    rw [hcommand] at hbuild
    obtain ⟨date, hlock, hiso, hpayload⟩ := buildOpening_date hclock hbuild
    exact ⟨date, hlock, hpayload, hiso⟩
  | cancel cmd =>
    rw [hcommand] at hbuild
    obtain ⟨doc, date, hdoc, hdocument, hdate, hlock, -⟩ := buildCancel_date hbuild
    obtain ⟨doc', hdoc', hlater⟩ := hgrow.documents _ doc hdoc
    obtain ⟨stored, hstored⟩ := h.documents _ doc' hdoc'
    -- the document it read carries the date it carries now
    obtain ⟨hpayload, hiso⟩ := (hlater.dated_iff stored).1 hstored
    have hsame : date = stored := by
      unfold cancelDate at hdate
      cases hvalue : doc.payload with
      | object fields =>
        rw [hvalue] at hdate hpayload
        exact validatedPostingDate_stored hpayload hiso hdate
      | _ =>
        rw [hvalue] at hpayload
        cases hpayload
    subst hsame
    refine ⟨date, hlock, ?_, hiso⟩
    rw [hdocument]
    exact hpayload

/-- The books stay dated as long as the clock shows dates. -/
theorem booksDated_rule : Snapshot.Rule (protocol codec (memBackend codec) handlerLocks)
    (fun book => Kept book ∧ ((∀ entry ∈ book.journal, IsoDate entry.builtAt.today) → BooksDated book))
    fun book book' => Extends book.store book'.store := by
  refine extends_rule_and ?_ ?_
  · intro book₀ book draft inner' hkept₀ _ hgrow _ hdated hbuilt hpassed happlied hclock
    have h := hdated fun entry hentry => hclock entry (List.mem_append_left _ hentry)
    have htoday : IsoDate draft.builtAt.today := hclock _ (List.mem_append_right _ List.mem_cons_self)
    obtain ⟨date, hlockDate, hdocument⟩ := build_dated hgrow h hbuilt htoday
    refine ⟨?_, ?_, ?_⟩
    · intro company lock hlock
      refine h.locks company lock ?_
      simpa only [Inner.booksLock, Inner.companySettings, happlied.settings] using hlock
    · intro key doc hdoc
      rw [happlied.documents] at hdoc
      by_cases hkey : key = Inner.docKey draft.commit
      · subst hkey
        obtain ⟨doc', hdoc', hfrozen⟩ := Inner.lookup_written_self draft.commit book.store
        obtain rfl := Option.some.inj (hdoc'.symm.trans hdoc)
        refine ⟨date, ((Later.of_frozen hfrozen).dated_iff date).2 ?_⟩
        rw [PostedDocument.Dated, Inner.numberedDocument_payload]
        exact hdocument
      · obtain ⟨doc₀, hdoc₀, hfrozen⟩ := Inner.lookup_written_ne hkey hdoc
        obtain ⟨date₀, hdate₀⟩ := h.documents key doc₀ hdoc₀
        exact ⟨date₀, ((Later.of_frozen hfrozen.symm).dated_iff date₀).2 hdate₀⟩
    · intro entry hentry
      rcases List.mem_append.1 hentry with hentry | hentry
      · exact h.entries entry hentry
      · obtain rfl := List.mem_singleton.1 hentry
        exact ⟨date, hlockDate, hdocument, hpassed.lock, h.locks⟩
  · intro book op env hdated hop hclock
    have h := hdated hclock
    refine ⟨h.locks.operate hop env, ?_, h.entries⟩
    rw [(operate_frame codec env op book.store).documents]
    exact h.documents

end Rule

/-- In every run every applied commit has its document dated after the lock stored at that instant, as
days, or no lock is stored; and every row a submit or a take-on appends carries that date. -/
theorem committed_after_lock (codec : Codec) (events : List (Event MemOp))
    (hlocks : ∀ event ∈ events, event.Allowed handlerLocks) (hclock : ClockShowsDates events)
    (entry : Entry Inner) (hentry : entry ∈ (memRun codec events).book.journal) :
    ∃ date, entry.commit.document.payload.get "posting_date" = some (.string date) ∧ IsoDate date ∧
      (∀ lock, entry.before.booksLock entry.companyId = some lock →
        IsoDate lock ∧ calendarDate lock < calendarDate date) ∧
      (entry.command.kind ≠ .cancel → ∀ kind : LedgerKind, ∀ row ∈ kind.rows entry.commit,
        (kind.origin row).postingDate = date) := by
  have hstart : Kept { store := {} } ∧ ((∀ entry ∈ ([] : List (Entry Inner)),
      IsoDate entry.builtAt.today) → BooksDated { store := {} }) := by
    refine ⟨kept_fresh, fun _ => ⟨?_, ?_, fun _ h => absurd h List.not_mem_nil⟩⟩
    · intro company lock h
      cases h
    · intro key doc h
      simp at h
  have hrun : Kept (memRun codec events).book ∧
      ((∀ entry ∈ (memRun codec events).book.journal, IsoDate entry.builtAt.today) →
        BooksDated (memRun codec events).book) :=
    System.invariant_of_rule booksDated_rule hstart hlocks
  have hbuiltAt : ∀ entry ∈ (memRun codec events).book.journal, IsoDate entry.builtAt.today :=
    System.journal_builtAt (E := fun env => IsoDate env.today) codec (memBackend codec) hclock
  obtain ⟨date, hdate, ⟨hpayload, hiso⟩, hcheck, hdated⟩ := (hrun.2 hbuiltAt).entries entry hentry
  obtain ⟨-, -, hbuild⟩ := System.journal_faithful codec (memBackend codec) events entry hentry
  refine ⟨date, hpayload, hiso, fun lock hlock => ?_, fun hkind kind row hrow => ?_⟩
  · refine ⟨hdated _ lock hlock, (calendarDate_lt_iff (hdated _ lock hlock) hiso).2 ?_⟩
    have hcompany := (Command.build_new_or_cancel hbuild).1
    have hstored : (AList.lookup entry.commit.companyId entry.before.settings).bind
        CompanySettings.booksLockDate = some lock := by
      rw [hcompany]
      rw [Inner.booksLock, Inner.companySettings] at hlock
      cases hsettings : AList.lookup entry.companyId entry.before.settings with
      | none =>
        rw [hsettings] at hlock
        cases hlock
      | some settings =>
        rw [hsettings] at hlock
        exact hlock
    by_contra hnot
    have hle : decide (date ≤ lock) = true := decide_eq_true hnot
    simp only [Inner.checkLock, hdate, hstored, lockViolation, Option.filter_some, hle, if_true,
      Option.map_some] at hcheck
    cases hcheck
  · have horigin : ∃ d stamp, entry.commit.lockCheckDate = some d ∧ ∀ kind : LedgerKind,
        ∀ row ∈ kind.rows entry.commit, kind.origin row = ⟨stamp, d⟩ := by
      cases hcommand : entry.command with
      | submit cmd =>
        rw [hcommand] at hbuild
        obtain ⟨d, hd, horigin⟩ := buildSubmit_origin hbuild
        exact ⟨d, _, hd, horigin⟩
      | takeOn cmd =>
        rw [hcommand] at hbuild
        obtain ⟨d, hd, horigin⟩ := buildOpening_origin hbuild
        exact ⟨d, _, hd, horigin⟩
      | cancel cmd => exact absurd (by rw [hcommand]; rfl) hkind
    obtain ⟨d, stamp, hd, horigin⟩ := horigin
    obtain rfl := Option.some.inj (hd.symm.trans hdate)
    rw [horigin kind row hrow]

/-- The books are locked through January, then an expense of February is posted. -/
def februaryExpense : List (Event MemOp) :=
  let env : Env := ⟨0, "2026-02-03", 0⟩
  let expense : Command := .submit
    { doctype := "Expense"
      documentId := some "EX-1"
      payload := [("expense_account", .string "Rent"), ("net_amount", .int 100),
        ("posting_date", .string "2026-02-01")]
      items := []
      idempotencyKey := none
      offlineFiscal := false }
  (match lockChange env "2026-02-04" ⟨7, 1, none⟩ 1 .owner ⟨some "2026-01-31", none, none⟩ with
    | .ok change => [.operate (.setBooksLock 1 change) env]
    | .error _ => []) ++ Event.whole 1 ⟨some 7, some 5, none⟩ expense 0 env

theorem committed_after_lock_february : ∃ entry date,
    (memRun serdeCodec februaryExpense).book.journal = [entry] ∧
    entry.before.booksLock 1 = some "2026-01-31" ∧
    entry.commit.document.payload.get "posting_date" = some (.string date) ∧
    calendarDate "2026-01-31" < calendarDate date := by
  have hlocks : ∀ event ∈ februaryExpense, event.Allowed handlerLocks := by
    intro event hevent
    rcases List.mem_append.1 hevent with hevent | hevent
    · split at hevent
      · rename_i change hchange
        obtain rfl := List.mem_singleton.1 hevent
        exact ⟨_, _, _, _, _, hchange⟩
      · exact absurd hevent List.not_mem_nil
    · simp only [Event.whole, List.mem_cons, List.not_mem_nil, or_false] at hevent
      obtain rfl | rfl | rfl | rfl := hevent <;> trivial
  have hclock : ClockShowsDates februaryExpense := by
    intro position env hevent
    have henv : env = ⟨0, "2026-02-03", 0⟩ := by
      rcases List.mem_append.1 hevent with hevent | hevent
      · split at hevent
        · cases List.mem_singleton.1 hevent
        · exact absurd hevent List.not_mem_nil
      · simp only [Event.whole, List.mem_cons, List.not_mem_nil, or_false] at hevent
        obtain h | h | h | h := hevent <;> cases h <;> rfl
    rw [henv]
    decide
  obtain ⟨entry, hjournal⟩ : ∃ entry, (memRun serdeCodec februaryExpense).book.journal = [entry] :=
    List.length_eq_one_iff.1 (by decide +kernel)
  have hfacts : (memRun serdeCodec februaryExpense).book.journal.map (fun entry =>
      (entry.companyId, entry.before.booksLock 1)) = [(1, some "2026-01-31")] := by decide +kernel
  rw [hjournal, List.map_singleton, List.cons.injEq, Prod.mk.injEq] at hfacts
  obtain ⟨⟨hcompany, hlock⟩, -⟩ := hfacts
  obtain ⟨date, hdate, -, hafter, -⟩ := committed_after_lock serdeCodec februaryExpense hlocks hclock
    entry (hjournal ▸ List.mem_singleton_self entry)
  rw [hcompany] at hafter
  exact ⟨entry, date, hjournal, hlock, hdate, (hafter _ hlock).2⟩

/-! ### Exactly the days of the calendar -/

/-- What `validated_posting_date` makes of a text. -/
theorem validatedPostingDate_text {today : String} {payload : Map} {s : String}
    (h : payload.get "posting_date" = some (.string s)) (htext : trim s ≠ "") :
    (∃ day, NamesPostingDay (trim s) day) ∧ validatedPostingDate today payload = .ok (trim s) ∨
      (¬∃ day, NamesPostingDay (trim s) day) ∧
        ∃ reason, validatedPostingDate today payload = .error (.validation reason) := by
  simp only [← namesPostingDay_iff, validatedPostingDate, h, if_neg htext]
  split
  · rename_i hvalid
    exact .inl ⟨hvalid, rfl⟩
  · rename_i hvalid
    exact .inr ⟨hvalid, _, rfl⟩

/-- `lock_violation` refuses the days up to the lock's. -/
theorem lockViolation_iff (date lock : String) :
    (lockViolation date (some lock)).isSome = true ↔ date ≤ lock := by
  rw [lockViolation, Option.isSome_map, Option.isSome_filter, Option.any_some, decide_eq_true_eq]

/-- `check_period_lock` refuses the days up to the lock's. -/
theorem checkPeriodLock_iff {settings : CompanySettings} {lock : String}
    (h : settings.booksLockDate = some lock) (date : String) :
    (∃ e, checkPeriodLock settings date = .error e) ↔ date ≤ lock := by
  simp only [checkPeriodLock, h]
  by_cases hlocked : date ≤ lock
  · simp only [hlocked, if_true, iff_true]
    exact ⟨_, rfl⟩
  · simp only [hlocked, if_false, iff_false]
    rintro ⟨e, he⟩
    cases he

/-- A normalized lock is the text of a day. -/
theorem normalizeLock_names {today lock : String} {raw : Option String}
    (h : normalizeLock today raw = .ok (some lock)) : ∃ day, NamesPostingDay lock day := by
  obtain ⟨hraw, -⟩ := normalizeLock_ok h
  obtain ⟨hlock, hne⟩ := Option.filter_eq_some_iff.1 hraw.symm
  obtain ⟨given, rfl, rfl⟩ := Option.map_eq_some_iff.1 hlock
  have htext : trim given ≠ "" := by simpa using hne
  have hprobe : (Map.insert [] "posting_date" (.string (trim given)) : Map).get "posting_date" =
    some (.string (trim given)) := Map.get_insert_self _ _ _
  have hvalidated := @validatedPostingDate_text today _ _ hprobe (by rwa [trim_trim])
  rcases hvalidated with ⟨hnames, -⟩ | ⟨-, reason, herror⟩
  · rwa [trim_trim] at hnames
  · simp only [normalizeLock, Option.map_some, if_neg htext, herror] at h
    cases h

/-- A text is accepted just when it is that of a day from 1900 to 2100, whatever it is tested on, its bytes
or its characters; no other value than none, null and a text is; and both checks of the lock compare the
days of the two texts. -/
theorem posting_dates_exact :
    (∀ today payload s, payload.get "posting_date" = some (.string s) → trim s ≠ "" →
      (∀ date, validatedPostingDate today payload = .ok date ↔
        date = trim s ∧ ∃! day, NamesPostingDay (trim s) day) ∧
      ((¬∃ day, NamesPostingDay (trim s) day) →
        ∃ reason, validatedPostingDate today payload = .error (.validation reason))) ∧
    (∀ today payload v, payload.get "posting_date" = some v → v ≠ .null → (∀ s, v ≠ .string s) →
      ∃ reason, validatedPostingDate today payload = .error (.validation reason)) ∧
    (∀ s, isWellFormedUtf8 (utf8Bytes s) = isWellFormedDate s.toList ∧
      (isWellFormedUtf8 (utf8Bytes s) = true → ∀ n,
        utf8Bytes (String.ofList (s.toList.take n)) = (utf8Bytes s).take n ∧
          utf8Bytes (String.ofList (s.toList.drop n)) = (utf8Bytes s).drop n)) ∧
    (∀ today raw lock, normalizeLock today raw = .ok (some lock) → ∃ day, NamesPostingDay lock day) ∧
    ∀ date lock day lockDay, NamesPostingDay date day → NamesPostingDay lock lockDay →
      (date ≤ lock ↔ day.NotAfter lockDay) ∧
      ((lockViolation date (some lock)).isSome = true ↔ day.NotAfter lockDay) ∧
      ∀ settings : CompanySettings, settings.booksLockDate = some lock →
        ((∃ e, checkPeriodLock settings date = .error e) ↔ day.NotAfter lockDay) := by
  refine ⟨fun today payload s hs htext => ⟨fun date => ?_, fun hnone => ?_⟩,
    fun today payload v hv hnull htext => ?_, fun s => ⟨wellFormedUtf8_eq s, wellFormedUtf8_cut⟩,
    fun today raw lock h => normalizeLock_names h, fun date lock day lockDay hdate hlock => ?_⟩
  · rcases @validatedPostingDate_text today payload s hs htext with
      ⟨⟨day, hday⟩, hok⟩ | ⟨hnone, reason, herror⟩
    · rw [hok, Except.ok.injEq]
      exact ⟨fun h => ⟨h.symm, day, hday, fun other hother => hother.unique hday⟩, fun h => h.1.symm⟩
    · rw [herror]
      constructor
      · intro h
        cases h
      · rintro ⟨-, hday⟩
        exact absurd hday.exists hnone
  · rcases @validatedPostingDate_text today payload s hs htext with ⟨hsome, -⟩ | ⟨-, herror⟩
    · exact absurd hsome hnone
    · exact herror
  · cases v with
    | null => exact absurd rfl hnull
    | string s => exact absurd rfl (htext s)
    | _ =>
      unfold validatedPostingDate
      rw [hv]
      exact ⟨_, rfl⟩
  · have hle := isoText_le_iff hdate hlock
    refine ⟨hle, (lockViolation_iff date lock).trans hle, fun settings hsettings => ?_⟩
    exact (checkPeriodLock_iff hsettings date).trans hle

/-- The leap day of 2024 and the day after it. -/
def leapDay : Gregorian.Date := ⟨2024, 2, 29, by decide, by decide, by decide, by decide⟩

def leapDayAfter : Gregorian.Date := ⟨2024, 3, 1, by decide, by decide, by decide, by decide⟩

theorem posting_dates_exact_leap :
    validatedPostingDate "2026-07-06" (Map.insert [] "posting_date" (.string " 2024-02-29 ")) =
      .ok "2024-02-29" ∧
    (lockViolation "2024-02-29" (some "2024-03-01")).isSome = true := by
  obtain ⟨htext, -, -, -, hlock⟩ := posting_dates_exact
  have hleap : NamesPostingDay "2024-02-29" leapDay := ⟨by decide +kernel, by decide, by decide⟩
  have hafter : NamesPostingDay "2024-03-01" leapDayAfter := ⟨by decide +kernel, by decide, by decide⟩
  have htrim : trim " 2024-02-29 " = "2024-02-29" := by decide +kernel
  refine ⟨?_, (hlock _ _ _ _ hleap hafter).2.1.2 ⟨1, rfl⟩⟩
  refine ((htext _ _ " 2024-02-29 " (Map.get_insert_self _ _ _) (by decide +kernel)).1 _).2 ⟨htrim.symm, ?_⟩
  rw [htrim]
  exact ⟨leapDay, hleap, fun day hday => hday.unique hleap⟩

end AtlasTeam
