import AtlasTeam.Api.Sync
import AtlasTeam.Store.Ledgers

/-!
# Posting results reach the devices

The log drops a record whose id it knows, and record ids are joined texts. `Recorded` follows a run: the
log's ids of postings are spelled names of the journal, and every stored row is named there. A new entry
brings names that no earlier entry has (`Recorded.fresh`). So an entry whose names are spelled apart from
all others reaches the devices whole, and `posting_delivered_iff` says that nothing else does.
-/

namespace AtlasTeam

/-! ### The names of a run -/

/-- The names of the records of an entry. -/
def Entry.recordNames (entry : Entry Inner) : List RecordName :=
  Inner.recordNames entry.commit entry.before

/-- Different names of a company's entries are spelled differently. -/
def SpelledApart (journal : List (Entry Inner)) : Prop :=
  ∀ entry ∈ journal, ∀ entry' ∈ journal, entry.companyId = entry'.companyId →
    ∀ name ∈ entry.recordNames, ∀ name' ∈ entry'.recordNames, name.spell = name'.spell → name = name'

theorem SpelledApart.mono {journal journal' : List (Entry Inner)} (h : SpelledApart journal')
    (hsub : journal ⊆ journal') : SpelledApart journal :=
  fun entry hentry entry' hentry' => h entry (hsub hentry) entry' (hsub hentry')

/-- A name tells the document and whether it was cancelled. -/
theorem Inner.mem_recordNames {commit : PostingCommit} {inner : Inner} {name : RecordName}
    (h : name ∈ recordNames commit inner) : name.doctype = commit.document.doctype ∧
      name.documentId = commit.document.id ∧ name.isCancel = decide (commit.batch.kind = .cancel) := by
  obtain ⟨part, -, rfl⟩ := List.mem_map.1 h
  have hdocument : (sources commit inner).document = numberedDocument commit inner := rfl
  refine ⟨?_, ?_, rfl⟩
  · rw [hdocument, numberedDocument_eq]
  · rw [hdocument, numberedDocument_eq]

theorem Inner.row_mem_recordNames {commit : PostingCommit} (inner : Inner) {kind : LedgerKind}
    {id : String} (h : id ∈ (kind.rows commit).map kind.rowId) :
    ∃ name ∈ recordNames commit inner, name.part = .row kind id := by
  rw [← sources_rowIds commit inner] at h
  refine ⟨_, List.mem_map_of_mem ?_, rfl⟩
  have hkind : kind ∈ [LedgerKind.gl, .stock, .party, .tax, .settlement] := by cases kind <;> decide
  rw [ReplicationSources.parts, List.mem_append, List.mem_append, List.mem_cons]
  exact .inl (.inl (.inr (List.mem_flatMap.2 ⟨kind, hkind, List.mem_map_of_mem h⟩)))

/-- What the journal has recorded: its documents stand, what it cancelled is cancelled, the log's ids of
postings are its names and the rows of the ledgers are named by it. -/
structure Recorded (book : Book Inner) : Prop where
  company : ∀ entry ∈ book.journal, entry.commit.companyId = entry.companyId
  posted : ∀ entry ∈ book.journal, ∃ doc,
    AList.lookup (Inner.docKey entry.commit) book.store.documents = some doc ∧
      (entry.commit.batch.kind = .cancel → doc.docstatus = 2)
  logged : ∀ company id, (AList.lookup (company, id) book.store.mutationVersions).isSome →
    startsWith id "postmut-" = true → ∃ entry ∈ book.journal, entry.companyId = company ∧
      ∃ name ∈ entry.recordNames, name.spell = id
  known : ∀ entry ∈ book.journal, ∀ name ∈ entry.recordNames,
    (AList.lookup (entry.companyId, name.spell) book.store.mutationVersions).isSome
  rows : ∀ company (kind : LedgerKind), ∀ id ∈ (kind.held book.store company).map kind.rowId,
    ∃ entry ∈ book.journal, entry.companyId = company ∧
      ∃ name ∈ entry.recordNames, name.part = .row kind id

theorem recorded_fresh : Recorded { store := {} } where
  company _ h := absurd h List.not_mem_nil
  posted _ h := absurd h List.not_mem_nil
  logged company id h := by simp at h
  known _ h := absurd h List.not_mem_nil
  rows company kind id h := by cases kind <;> exact absurd h List.not_mem_nil

section Rule
variable {codec : Codec} {book₀ book : Book Inner} {draft : Draft Inner} {env : Env} {inner' : Inner}

/-- A new entry has names that no earlier entry of the company has. -/
theorem Recorded.fresh (h : Recorded book) {allowed : Allowed MemOp}
    (hbuilt : Draft.Built codec (memBackend codec) allowed book₀ draft)
    (hpassed : Inner.Passed draft.commit book.store) {entry : Entry Inner} (hentry : entry ∈ book.journal)
    (hcompany : entry.companyId = draft.companyId) {name : RecordName} (hname : name ∈ entry.recordNames) :
    name ∉ Inner.recordNames draft.commit book.store := by
  intro hnew
  obtain ⟨hdoctype, hid, hcancel⟩ := Inner.mem_recordNames hname
  obtain ⟨hdoctype', hid', hcancel'⟩ := Inner.mem_recordNames hnew
  obtain ⟨doc, hdoc, hstatus⟩ := h.posted entry hentry
  have hcompany' : draft.commit.companyId = draft.companyId :=
    (Command.build_new_or_cancel hbuilt.build).1
  have hkey : Inner.docKey entry.commit = Inner.docKey draft.commit := by
    rw [Inner.docKey, Inner.docKey, h.company entry hentry, hcompany, hcompany', ← hdoctype, ← hid,
      ← hdoctype', ← hid']
  rw [hkey] at hdoc
  have hkind := Command.build_kind hbuilt.build
  by_cases hisNew : draft.commit.documentIsNew = true
  · -- the document of a submit is not there yet
    rw [hpassed.absent hisNew] at hdoc
    cases hdoc
  · -- the document of a cancel is not cancelled yet
    rw [Bool.not_eq_true] at hisNew
    obtain ⟨doc', hdoc', hsubmitted⟩ := hpassed.submitted hisNew
    obtain rfl := Option.some.inj (hdoc.symm.trans hdoc')
    have hcancelled : entry.commit.batch.kind = .cancel := by
      rw [hcancel', decide_eq_true (hkind.2 hisNew), eq_comm, decide_eq_true_iff] at hcancel
      exact hcancel
    have := hstatus hcancelled
    omega

/-- A pushed record never takes the id of a posting. -/
theorem guarded_startsWith {records : List MutationRecord} {company : Uuid}
    (h : guardedPushes.operate (.pushMutations company records)) {id : String}
    (hid : id ∈ records.map MutationRecord.id) : startsWith id "postmut-" = false := by
  obtain ⟨r, hr, rfl⟩ := List.mem_map.1 hid
  rcases h r hr with haccepted | hportal
  · exact haccepted.id _ (by decide)
  · refine Bool.eq_false_iff.2 fun hpost => ?_
    rw [startsWith, List.isPrefixOf_iff_prefix] at hpost hportal
    obtain ⟨rest, hrest⟩ := hpost
    obtain ⟨rest', hrest'⟩ := hportal
    have hsecond := congrArg (fun l : List Char => l[4]?) (hrest.trans hrest'.symm)
    simp at hsecond

theorem Recorded.operate (h : Recorded book) {op : MemOp} (hop : guardedPushes.operate op) (env : Env) :
    Recorded { book with store := (memBackend codec).operate env op book.store } := by
  have hframe := operate_frame codec env op book.store
  refine ⟨h.company, ?_, ?_, ?_, ?_⟩
  · intro entry hentry
    rw [hframe.documents]
    exact h.posted entry hentry
  · intro company id hknown hstart
    have hlog := operate_syncLog codec env op book.store
    refine h.logged company id ?_ hstart
    rw [show ((memBackend codec).operate env op book.store).mutationVersions =
      ((memBackend codec).operate env op book.store).toSyncLog.mutationVersions from rfl, hlog] at hknown
    split at hknown
    · rename_i company' records
      rcases (SyncLog.appendMutations_knows codec env company' records _ company id).1 hknown with
        hknown | ⟨-, hid⟩
      · exact hknown
      · rw [guarded_startsWith hop hid] at hstart
        cases hstart
    · exact hknown
  · intro entry hentry name hname
    rw [show ((memBackend codec).operate env op book.store).mutationVersions =
      ((memBackend codec).operate env op book.store).toSyncLog.mutationVersions from rfl,
      operate_syncLog codec env op book.store]
    split
    · exact (SyncLog.appendMutations_knows ..).2 (.inl (h.known entry hentry name hname))
    · exact h.known entry hentry name hname
  · intro company kind id hid
    rw [LedgerKind.held_operate] at hid
    exact h.rows company kind id hid

/-- An applied draft is recorded. -/
theorem Recorded.applied (h : Recorded book) {allowed : Allowed MemOp} (hgrow : Extends book.store inner')
    (hbuilt : Draft.Built codec (memBackend codec) allowed book₀ draft)
    (heffects : Inner.Effects codec env draft.commit book.store inner') :
    Recorded { store := inner', journal := book.journal ++ [appliedEntry draft book.store] } := by
  have hcompany : draft.commit.companyId = draft.companyId :=
    (Command.build_new_or_cancel hbuilt.build).1
  obtain ⟨records, hrecords, hlog⟩ := heffects.syncLog
  have hids : records.map MutationRecord.id =
      (appliedEntry draft book.store).recordNames.map RecordName.spell :=
    replicationMutations_ids hrecords
  have hknows : ∀ company id, (AList.lookup (company, id) inner'.mutationVersions).isSome ↔
      (AList.lookup (company, id) book.store.mutationVersions).isSome ∨ company = draft.companyId ∧
        id ∈ (appliedEntry draft book.store).recordNames.map RecordName.spell := by
    intro company id
    rw [show inner'.mutationVersions = inner'.toSyncLog.mutationVersions from rfl, hlog,
      SyncLog.appendMutations_knows, hids, hcompany]
  have hlast : appliedEntry draft book.store ∈ book.journal ++ [appliedEntry draft book.store] :=
    List.mem_append_right _ (List.mem_singleton_self _)
  refine ⟨?_, ?_, ?_, ?_, ?_⟩
  · intro entry hentry
    rcases List.mem_append.1 hentry with hentry | hentry
    · exact h.company entry hentry
    · rw [List.mem_singleton.1 hentry]
      exact hcompany
  · intro entry hentry
    rcases List.mem_append.1 hentry with hentry | hentry
    · obtain ⟨doc, hdoc, hstatus⟩ := h.posted entry hentry
      obtain ⟨doc', hdoc', hlater⟩ := hgrow.documents _ _ hdoc
      refine ⟨doc', hdoc', fun hcancel => ?_⟩
      have := hstatus hcancel
      rcases hlater.docstatus with h' | ⟨h', -⟩
      · exact h'.trans this
      · omega
    · rw [List.mem_singleton.1 hentry, heffects.applied.documents]
      obtain ⟨doc, hdoc, hfrozen⟩ := Inner.lookup_written_self draft.commit book.store
      refine ⟨doc, hdoc, fun hcancel => ?_⟩
      obtain ⟨-, hnew | ⟨cmd, doc₀, -, -, -, -, hdocument, -⟩⟩ :=
        Command.build_new_or_cancel hbuilt.build
      · have hold := (Command.build_kind hbuilt.build).1 hcancel
        rw [hnew.1] at hold
        cases hold
      · have hfield := congrArg PostedDocument.docstatus hfrozen
        rw [Inner.numberedDocument_eq, hdocument] at hfield
        exact hfield
  · intro company id hknown hstart
    rcases (hknows company id).1 hknown with hknown | ⟨rfl, hid⟩
    · obtain ⟨entry, hentry, hfound⟩ := h.logged company id hknown hstart
      exact ⟨entry, List.mem_append_left _ hentry, hfound⟩
    · obtain ⟨name, hname, rfl⟩ := List.mem_map.1 hid
      exact ⟨_, hlast, rfl, name, hname, rfl⟩
  · intro entry hentry name hname
    refine (hknows _ _).2 ?_
    rcases List.mem_append.1 hentry with hentry | hentry
    · exact .inl (h.known entry hentry name hname)
    · obtain rfl := List.mem_singleton.1 hentry
      exact .inr ⟨rfl, List.mem_map_of_mem hname⟩
  · intro company kind id hid
    rw [LedgerKind.held_applied heffects.applied, List.mem_append] at hid
    rcases hid with hid | hid
    · obtain ⟨entry, hentry, hfound⟩ := h.rows company kind id hid
      exact ⟨entry, List.mem_append_left _ hentry, hfound⟩
    · split_ifs at hid with heq
      · obtain ⟨name, hname, hpart⟩ := Inner.row_mem_recordNames book.store hid
        exact ⟨_, hlast, hcompany.symm.trans heq.symm, name, hname, hpart⟩
      · exact absurd hid List.not_mem_nil

end Rule

/-! ### Delivery -/

/-- The records of an entry have distinct ids, none of which the log had, and appending them adds all of
them in their order, each under the next version. -/
def Delivered (codec : Codec) (entry : Entry Inner) : Prop :=
  ∀ env records, Inner.replicated codec env entry.commit entry.before = .ok records →
    let log := entry.before.mutations.log entry.companyId
    (records.map MutationRecord.id).Nodup ∧
    (∀ r ∈ records, ∀ m ∈ log, m.record.id ≠ r.id) ∧
    (entry.before.toSyncLog.appendMutations codec env entry.companyId records).mutations.log
        entry.companyId =
      log ++ records.mapIdx fun i record =>
        { record, version := log.length + 1 + i, acknowledged := false }

/-- The names of an entry are spelled apart from each other and from what the log had. -/
def Entry.Reaches (entry : Entry Inner) : Prop :=
  (entry.recordNames.map RecordName.spell).Nodup ∧
    ∀ name ∈ entry.recordNames,
      AList.lookup (entry.companyId, name.spell) entry.before.mutationVersions = none

theorem delivered_iff_reaches {codec : Codec} {entry : Entry Inner}
    (hkept : SyncLog.Kept entry.before.toSyncLog entry.companyId) :
    Delivered codec entry ↔ entry.Reaches := by
  -- an id is in the log when it has a version
  have hlogged : ∀ id, AList.lookup (entry.companyId, id) entry.before.mutationVersions = none ↔
      ∀ m ∈ entry.before.mutations.log entry.companyId, m.record.id ≠ id := by
    intro id
    rw [Option.eq_none_iff_forall_ne_some]
    constructor
    · exact fun h m hm hid => h m.version ((hkept.known id m.version).2 ⟨m, hm, hid, rfl⟩)
    · intro h version hversion
      obtain ⟨m, hm, hid, -⟩ := (hkept.known id version).1 hversion
      exact h m hm hid
  constructor
  · intro h
    obtain ⟨records, hrecords⟩ := replicationMutations_ok codec 0
      (Inner.sources entry.commit entry.before)
    have hids := replicationMutations_ids hrecords
    obtain ⟨hnodup, hnew, -⟩ := h ⟨0, "", 0⟩ records hrecords
    refine ⟨hids ▸ hnodup, fun name hname => (hlogged _).2 ?_⟩
    have hspelled : name.spell ∈ records.map MutationRecord.id := hids ▸ List.mem_map_of_mem hname
    obtain ⟨r, hr, hid⟩ := List.mem_map.1 hspelled
    exact hid ▸ hnew r hr
  · intro h env records hrecords
    have hids : records.map MutationRecord.id = entry.recordNames.map RecordName.spell :=
      replicationMutations_ids hrecords
    have hnew : ∀ r ∈ records,
        AList.lookup (entry.companyId, r.id) entry.before.mutationVersions = none := by
      intro r hr
      have hspelled : r.id ∈ entry.recordNames.map RecordName.spell := hids ▸ List.mem_map_of_mem hr
      obtain ⟨name, hname, hid⟩ := List.mem_map.1 hspelled
      exact hid ▸ h.2 name hname
    have hnodup : (records.map MutationRecord.id).Nodup := hids ▸ h.1
    exact ⟨hnodup, fun r hr => (hlogged _).1 (hnew r hr), hkept.appendMutations_new hnodup hnew⟩

/-- The invariant: the entries reach the devices exactly when their names are spelled apart, and then no
two rows of a ledger share an id. -/
structure Spelled (book : Book Inner) : Prop where
  log : ∀ company, SyncLog.Kept book.store.toSyncLog company
  entries : ∀ entry ∈ book.journal, SyncLog.Kept entry.before.toSyncLog entry.companyId
  recorded : Recorded book
  rows : SpelledApart book.journal → ∀ company (kind : LedgerKind),
    ((kind.held book.store company).map kind.rowId).Nodup
  reaches : (∀ entry ∈ book.journal, entry.Reaches) ↔ SpelledApart book.journal

theorem spelled_fresh : Spelled { store := {} } where
  log := SyncLog.kept_empty
  entries _ h := absurd h List.not_mem_nil
  recorded := recorded_fresh
  rows _ company kind := by cases kind <;> exact List.nodup_nil
  reaches := iff_of_true (fun _ h => absurd h List.not_mem_nil) fun _ h => absurd h List.not_mem_nil

section Spelling
variable {codec : Codec} {book₀ book : Book Inner} {draft : Draft Inner} {env : Env} {inner' : Inner}
  {allowed : Allowed MemOp}

/-- The rows of a draft have distinct ids when those of the store do. -/
theorem draft_rowIds (hgrow : Extends book₀.store book.store)
    (hbuilt : Draft.Built codec (memBackend codec) allowed book₀ draft)
    (hrows : ∀ company (kind : LedgerKind), ((kind.held book.store company).map kind.rowId).Nodup)
    (kind : LedgerKind) : ((kind.rows draft.commit).map kind.rowId).Nodup := by
  refine Command.build_rowIds hbuilt.build fun no => ?_
  rw [hbuilt.snapshot]
  have hsub := (kind.found_sublist book₀.store draft.companyId no).trans
    (kind.held_prefix hgrow draft.companyId).sublist
  exact (hsub.map _).nodup (hrows draft.companyId kind)

/-- The ledgers after an applied draft whose names are spelled apart. -/
theorem Spelled.applied_rows (h : Spelled book) (hgrow : Extends book₀.store book.store)
    (hbuilt : Draft.Built codec (memBackend codec) allowed book₀ draft)
    (heffects : Inner.Effects codec env draft.commit book.store inner')
    (hapart : SpelledApart (book.journal ++ [appliedEntry draft book.store])) (company : Uuid)
    (kind : LedgerKind) : ((kind.held inner' company).map kind.rowId).Nodup := by
  have hrows := h.rows (hapart.mono (List.subset_append_left _ _))
  have hcompany : draft.commit.companyId = draft.companyId :=
    (Command.build_new_or_cancel hbuilt.build).1
  rw [LedgerKind.held_applied heffects.applied, List.nodup_append]
  refine ⟨hrows company kind, ?_, fun id hid id' hid' => ?_⟩
  · split_ifs
    · exact draft_rowIds hgrow hbuilt hrows kind
    · exact List.nodup_nil
  · split_ifs at hid' with heq
    · rintro rfl
      -- both rows are named, and spelled alike
      obtain ⟨entry, hentry, hsame, name, hname, hpart⟩ := h.recorded.rows company kind id hid
      obtain ⟨name', hname', hpart'⟩ := Inner.row_mem_recordNames book.store hid'
      have hentryCompany : entry.companyId = draft.companyId := hsame.trans (heq.trans hcompany)
      have hspell : name.spell = name'.spell := by
        simp only [RecordName.spell, hpart, hpart']
      have hnames := hapart entry (List.mem_append_left _ hentry) (appliedEntry draft book.store)
        (List.mem_append_right _ (List.mem_singleton_self _)) hentryCompany name hname name' hname' hspell
      subst hnames
      exact h.recorded.fresh hbuilt heffects.passed hentry hentryCompany hname hname'
    · exact absurd hid' List.not_mem_nil

/-- An applied draft whose names are spelled apart reaches the devices. -/
theorem Spelled.applied_reaches (h : Spelled book) (hkept₀ : Kept book₀)
    (hgrow : Extends book₀.store book.store) (hkept : Kept book)
    (hbuilt : Draft.Built codec (memBackend codec) allowed book₀ draft)
    (hpassed : Inner.Passed draft.commit book.store)
    (hapart : SpelledApart (book.journal ++ [appliedEntry draft book.store])) :
    (appliedEntry draft book.store).Reaches := by
  have hrows := h.rows (hapart.mono (List.subset_append_left _ _))
  have hlast : appliedEntry draft book.store ∈ book.journal ++ [appliedEntry draft book.store] :=
    List.mem_append_right _ (List.mem_singleton_self _)
  have hnodup : (appliedEntry draft book.store).recordNames.Nodup :=
    Inner.recordNames_nodup (draft_rowIds hgrow hbuilt hrows) (Command.build_bins hbuilt.build)
      (Command.build_updates hbuilt.build) (draft_companyId hkept₀ hbuilt) hkept.keyed
  refine ⟨hnodup.map_on fun name hname name' hname' => hapart _ hlast _ hlast rfl name hname name' hname',
    fun name hname => ?_⟩
  rw [← Option.not_isSome_iff_eq_none]
  intro hknown
  -- the log knows the id from an earlier entry of the company
  obtain ⟨entry, hentry, hcompany, name', hname', hspell⟩ :=
    h.recorded.logged _ _ hknown name.startsWith_spell
  have hsame := hapart entry (List.mem_append_left _ hentry) _ hlast hcompany name' hname' name hname hspell
  subst hsame
  exact h.recorded.fresh hbuilt hpassed hentry hcompany hname' hname

/-- When all entries reach the devices, a new entry's names are spelled apart from the others. -/
theorem Spelled.applied_apart (h : Spelled book)
    (hreaches : ∀ entry ∈ book.journal ++ [appliedEntry draft book.store], entry.Reaches) :
    SpelledApart (book.journal ++ [appliedEntry draft book.store]) := by
  obtain ⟨hearlier, hlast⟩ := List.forall_mem_append.1 hreaches
  obtain ⟨hnodup, hnew⟩ := hlast _ (List.mem_singleton_self _)
  have hapart := h.reaches.1 hearlier
  -- an earlier name is known to the log the new entry met
  have hdifferent : ∀ entry ∈ book.journal, entry.companyId = (appliedEntry draft book.store).companyId →
      ∀ name ∈ entry.recordNames, ∀ name' ∈ (appliedEntry draft book.store).recordNames,
        name.spell ≠ name'.spell := by
    intro entry hentry hcompany name hname name' hname' hspell
    have hknown := h.recorded.known entry hentry name hname
    have hnone := hnew name' hname'
    rw [← hcompany, ← hspell] at hnone
    have hlookup : AList.lookup (entry.companyId, name.spell) book.store.mutationVersions = none := hnone
    rw [hlookup] at hknown
    cases hknown
  intro entry hentry entry' hentry' hcompany name hname name' hname' hspell
  rcases List.mem_append.1 hentry with hentry | hentry <;>
    rcases List.mem_append.1 hentry' with hentry' | hentry'
  · exact hapart entry hentry entry' hentry' hcompany name hname name' hname' hspell
  · obtain rfl := List.mem_singleton.1 hentry'
    exact absurd hspell (hdifferent entry hentry hcompany name hname name' hname')
  · obtain rfl := List.mem_singleton.1 hentry
    exact absurd hspell.symm (hdifferent entry' hentry' hcompany.symm name' hname' name hname)
  · obtain rfl := List.mem_singleton.1 hentry
    obtain rfl := List.mem_singleton.1 hentry'
    exact List.inj_on_of_nodup_map hnodup hname hname' hspell

/-- Every step of a run with guarded pushes keeps the invariant. -/
theorem spelled_rule : Snapshot.Rule (protocol codec (memBackend codec) guardedPushes)
    (fun book => Kept book ∧ Spelled book) fun book book' => Extends book.store book'.store := by
  refine effects_rule_and ?_ ?_
  · intro book₀ book draft env inner' hkept₀ _ hgrow hkept h hbuilt heffects
    have hgrow' := (kept_applied hkept₀ hgrow hkept hbuilt heffects.passed heffects.applied).2
    refine ⟨fun company => ?_, ?_, h.recorded.applied hgrow' hbuilt heffects,
      fun hapart => h.applied_rows hgrow hbuilt heffects hapart, h.applied_apart, fun hapart => ?_⟩
    · obtain ⟨records, -, hlog⟩ := heffects.syncLog
      rw [hlog]
      exact (h.log company).appendMutations records
    · refine List.forall_mem_append.2 ⟨h.entries, ?_⟩
      intro entry hentry
      rw [List.mem_singleton.1 hentry]
      exact h.log _
    · refine List.forall_mem_append.2 ⟨h.reaches.2 (hapart.mono (List.subset_append_left _ _)), ?_⟩
      intro entry hentry
      rw [List.mem_singleton.1 hentry]
      exact h.applied_reaches hkept₀ hgrow hkept hbuilt heffects.passed hapart
  · intro book op env h hop
    refine ⟨fun company => ?_, h.entries, h.recorded.operate hop env, fun hapart company kind => ?_,
      h.reaches⟩
    · rw [operate_syncLog]
      split
      · exact (h.log company).appendMutations _
      · exact h.log company
    · rw [LedgerKind.held_operate]
      exact h.rows hapart company kind

end Spelling

theorem memRun_spelled (codec : Codec) {events : List (Event MemOp)}
    (hevents : ∀ event ∈ events, event.Allowed guardedPushes) :
    Spelled (memRun codec events).book := by
  have h : Kept (memRun codec events).book ∧ Spelled (memRun codec events).book :=
    System.invariant_of_rule spelled_rule ⟨kept_fresh, spelled_fresh⟩ hevents
  exact h.2

/-- In every run, all posting commits reach the devices whole if and only if no two different things
the company's postings record are spelled alike. -/
theorem posting_delivered_iff (codec : Codec) (events : List (Event MemOp))
    (hevents : ∀ event ∈ events, event.Allowed guardedPushes) :
    (∀ entry ∈ (memRun codec events).book.journal, Delivered codec entry) ↔
      SpelledApart (memRun codec events).book.journal := by
  have h := memRun_spelled codec hevents
  rw [← h.reaches]
  exact forall₂_congr fun entry hentry => delivered_iff_reaches (h.entries entry hentry)

/-! ### Two invoices of one number -/

instance (entry : Entry Inner) : Decidable entry.Reaches :=
  inferInstanceAs (Decidable (_ ∧ _))

instance (journal : List (Entry Inner)) : Decidable (SpelledApart journal) :=
  inferInstanceAs (Decidable (∀ entry ∈ journal, ∀ entry' ∈ journal, _))

/-- An invoice over a hundred, to a customer or from a supplier. -/
def teaInvoice (doctype party id : String) : Command :=
  .submit
    { doctype
      documentId := some id
      payload := SortedMap.Raw.ofList [(party, .string "ACME"), ("posting_date", .string "2026-01-05")]
      items := [.obj [("item", .string "TEA"), ("qty", .int 1), ("rate", .int 100)]]
      idempotencyKey := none
      offlineFiscal := false }

/-- A sales and a purchase invoice, then the cancel of the sales invoice. -/
def invoicesPosted (sold bought : String) : List (Event MemOp) :=
  let env : Env := ⟨0, "2026-01-05", 0⟩
  let clerk : Actor := ⟨some 7, some 5, none⟩
  Event.whole 1 clerk (teaInvoice "Sales Invoice" "customer" sold) 0 env ++
    Event.whole 1 clerk (teaInvoice "Purchase Invoice" "supplier" bought) 1 env ++
    Event.whole 1 clerk (.cancel ⟨"Sales Invoice", sold, none⟩) 2 env

theorem invoicesPosted_guarded (sold bought : String) :
    ∀ event ∈ invoicesPosted sold bought, event.Allowed guardedPushes := by
  simp [invoicesPosted, Event.whole, Event.Allowed, guardedPushes]

theorem posting_delivered_iff_numbers :
    (memRun serdeCodec (invoicesPosted "SI-1" "PI-1")).book.journal.length = 3 ∧
    ∀ entry ∈ (memRun serdeCodec (invoicesPosted "SI-1" "PI-1")).book.journal,
      Delivered serdeCodec entry :=
  ⟨by decide +kernel, (posting_delivered_iff serdeCodec _ (invoicesPosted_guarded _ _)).2
    (by decide +kernel)⟩

/-- A purchase invoice that has the number of a sales invoice is posted, and its record is swallowed: the
devices never see the document. -/
theorem invoice_record_swallowed :
    (∀ event ∈ invoicesPosted "1001" "1001", event.Allowed guardedPushes) ∧
    (∃ entry ∈ (memRun serdeCodec (invoicesPosted "1001" "1001")).book.journal,
      ¬ Delivered serdeCodec entry) ∧
    (AList.lookup (1, "Purchase Invoice", "1001")
      (memRun serdeCodec (invoicesPosted "1001" "1001")).book.store.documents).isSome ∧
    AList.lookup (1, "Purchase Invoice", "1001")
      (memRun serdeCodec (invoicesPosted "1001" "1001")).book.store.companyDocuments = none := by
  have h := memRun_spelled serdeCodec (invoicesPosted_guarded "1001" "1001")
  refine ⟨invoicesPosted_guarded _ _, ?_, by decide +kernel, ?_⟩
  · have hlost : ∃ entry ∈ (memRun serdeCodec (invoicesPosted "1001" "1001")).book.journal,
        ¬ entry.Reaches := by decide +kernel
    obtain ⟨entry, hentry, hreaches⟩ := hlost
    exact ⟨entry, hentry, fun hdelivered =>
      hreaches ((delivered_iff_reaches (h.entries entry hentry)).1 hdelivered)⟩
  · rw [← Option.not_isSome_iff_eq_none]
    decide +kernel

end AtlasTeam
