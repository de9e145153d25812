import AtlasTeam.Lib.Versioned
import AtlasTeam.Store.Effects

/-!
# The company log and its versions

Device pushes and posting commits append to the same log. `appendMutation_cases` says what appending
one record does: nothing at all when the log has its id, else one entry, one version, one link and
one step of the read model. `SyncLog.Kept` ties the four structures of a company together, and
`sync_log_kept` holds it in every run, with what every append answers.
-/

namespace AtlasTeam

namespace SyncLog

/-- The last version a company's log has handed out. -/
def counter (log : SyncLog) (company : Uuid) : Int := (AList.lookup company log.counters).getD 0

/-- The records of a company's log in the order of its versions. -/
def records (log : SyncLog) (company : Uuid) : List MutationRecord :=
  (log.mutations.log company).map StoredMutation.record

/-- The version `append_mutations` answers for a record. -/
def answeredVersion (log : SyncLog) (company : Uuid) (record : MutationRecord) : Int :=
  match AList.lookup (company, record.id) log.mutationVersions with
  | some version => version
  | none => log.counter company + 1

/-- `Inner::append_mutations` with the pairs it returns. -/
def appendAnswered (codec : Codec) (env : Env) (company : Uuid) :
    List MutationRecord → SyncLog → List (String × Int) × SyncLog
  | [], log => ([], log)
  | record :: records, log =>
    let (answers, after) := appendAnswered codec env company records
      (appendMutation codec env company log record)
    ((record.id, log.answeredVersion company record) :: answers, after)

/-- The log after appending does not depend on the answers. -/
theorem appendAnswered_log (codec : Codec) (env : Env) (company : Uuid)
    (records : List MutationRecord) (log : SyncLog) :
    (log.appendAnswered codec env company records).2 =
      log.appendMutations codec env company records := by
  induction records generalizing log with
  | nil => rfl
  | cons record records ih => exact ih _

/-- What one appended record leaves behind. -/
structure Appended (codec : Codec) (env : Env) (company : Uuid) (record : MutationRecord)
    (log log' : SyncLog) : Prop where
  mutations : log'.mutations = log.mutations.extend company
    [{ record, version := log.counter company + 1, acknowledged := false }]
  versions : log'.mutationVersions =
    AList.insert (company, record.id) (log.counter company + 1) log.mutationVersions
  counters : log'.counters = AList.insert company (log.counter company + 1) log.counters
  chain : ∃ hash, log'.chain = log.chain.extend company [hash]
  documents : log'.companyDocuments =
    (applyProjection codec env company record log).companyDocuments

/-- The read model is all the projection writes. -/
theorem applyProjection_eq (codec : Codec) (env : Env) (company : Uuid) (record : MutationRecord)
    (log : SyncLog) : applyProjection codec env company record log =
      { log with companyDocuments := (applyProjection codec env company record log).companyDocuments } := by
  unfold applyProjection
  simp only
  split <;> rfl

/-- The row a record leaves of the document it names. -/
def foldedRow (codec : Codec) (env : Env) (company : Uuid) (record : MutationRecord)
    (existing : Option CompanyDocument) : Option CompanyDocument :=
  match foldMutation codec existing record company env.now with
  | .upsert doc => some doc
  | .delete => none
  | .keep => existing

/-- The rows after a record: the one it names is folded, the others stay. -/
theorem lookup_applyProjection (codec : Codec) (env : Env) (company : Uuid) (record : MutationRecord)
    (log : SyncLog) (key : Uuid × String × String) :
    AList.lookup key (applyProjection codec env company record log).companyDocuments =
      if key = (company, record.docType, record.documentId) then
        foldedRow codec env company record (AList.lookup key log.companyDocuments)
      else AList.lookup key log.companyDocuments := by
  simp only [applyProjection, foldedRow]
  split_ifs with hkey
  · subst hkey
    cases foldMutation codec
        (AList.lookup (company, record.docType, record.documentId) log.companyDocuments) record company
        env.now with
    | upsert doc => exact AList.lookup_insert log.companyDocuments
    | delete => exact AList.lookup_erase _ log.companyDocuments
    | keep => rfl
  · cases foldMutation codec
        (AList.lookup (company, record.docType, record.documentId) log.companyDocuments) record company
        env.now with
    | upsert doc => exact AList.lookup_insert_ne hkey
    | delete => exact AList.lookup_erase_ne hkey
    | keep => rfl

/-- Appending a record leaves the log alone, or adds one of everything. -/
theorem appendMutation_cases (codec : Codec) (env : Env) (company : Uuid) (log : SyncLog)
    (record : MutationRecord) :
    (∃ version, AList.lookup (company, record.id) log.mutationVersions = some version ∧
      appendMutation codec env company log record = log) ∨
    (AList.lookup (company, record.id) log.mutationVersions = none ∧
      Appended codec env company record log (appendMutation codec env company log record)) := by
  cases hknown : AList.lookup (company, record.id) log.mutationVersions with
  | some version => exact .inl ⟨version, rfl, by simp only [appendMutation, hknown]⟩
  | none =>
    refine .inr ⟨rfl, ?_⟩
    simp only [appendMutation, hknown]
    rw [applyProjection_eq]
    refine ⟨rfl, rfl, rfl, ⟨_, rfl⟩, ?_⟩
    -- the projection reads only the read model
    simp only [applyProjection]
    cases foldMutation codec
      (AList.lookup (company, record.docType, record.documentId) log.companyDocuments) record company
      env.now <;> rfl

/-- The link a new record gets. -/
theorem appendMutation_chain {codec : Codec} {env : Env} {company : Uuid} {log : SyncLog}
    {record : MutationRecord}
    (hnew : AList.lookup (company, record.id) log.mutationVersions = none) :
    (appendMutation codec env company log record).chain = log.chain.extend company
      [link codec ((log.chain.log company).getLast?.getD genesis) (log.counter company + 1) record.id
        record.toValue] := by
  simp only [appendMutation, hnew]
  rw [applyProjection_eq]
  rfl

/-! ### The invariant -/

/-- The four structures of a company's log agree: versions count the entries, ids are distinct and
mapped to their versions, the counter and the chain are as long as the log. -/
structure Kept (log : SyncLog) (company : Uuid) : Prop where
  versions : (log.mutations.log company).map StoredMutation.version =
    (List.range (log.mutations.log company).length).map fun (i : Nat) => (i : Int) + 1
  ids : ((log.mutations.log company).map fun m => m.record.id).Nodup
  counter : log.counter company = (log.mutations.log company).length
  chain : (log.chain.log company).length = (log.mutations.log company).length
  known : ∀ id version, AList.lookup (company, id) log.mutationVersions = some version ↔
    ∃ m ∈ log.mutations.log company, m.record.id = id ∧ m.version = version

section Kept
variable {log : SyncLog} {company : Uuid}

/-- The versions of a kept log count its entries. -/
theorem Kept.counts (h : Kept log company) :
    Versioned.Counts StoredMutation.version (log.mutations.log company) :=
  h.versions

end Kept

theorem kept_empty (company : Uuid) : Kept {} company where
  versions := rfl
  ids := List.nodup_nil
  counter := rfl
  chain := rfl
  known id version := by
    constructor
    · intro h
      simp at h
    · rintro ⟨m, hm, -⟩
      exact absurd hm List.not_mem_nil

section Append
variable {codec : Codec} {env : Env} {company : Uuid} {record : MutationRecord} {log log' : SyncLog}

theorem Kept.appended (h : Kept log company)
    (hnew : AList.lookup (company, record.id) log.mutationVersions = none)
    (happ : Appended codec env company record log log') : Kept log' company := by
  have hlog : log'.mutations.log company = log.mutations.log company ++
      [{ record, version := log.counter company + 1, acknowledged := false }] := by
    rw [happ.mutations, Table.log_extend_self]
  have hcounter : log'.counter company = log.counter company + 1 := by
    rw [SyncLog.counter, happ.counters, AList.lookup_insert, Option.getD_some]
  -- the id is new to the entries, too
  have hfresh : ∀ m ∈ log.mutations.log company, m.record.id ≠ record.id := by
    intro m hm hid
    have hlookup := (h.known record.id m.version).2 ⟨m, hm, hid, rfl⟩
    rw [hnew] at hlookup
    cases hlookup
  refine ⟨?_, ?_, ?_, ?_, fun id version => ?_⟩
  · rw [hlog, List.map_append, h.versions, List.length_append, List.length_singleton,
      List.range_succ, List.map_append, h.counter]
    rfl
  · rw [hlog, List.map_append, List.nodup_append]
    refine ⟨h.ids, List.nodup_singleton _, fun a ha b hb => ?_⟩
    obtain ⟨m, hm, rfl⟩ := List.mem_map.1 ha
    obtain rfl := List.mem_singleton.1 hb
    exact hfresh m hm
  · rw [hcounter, hlog, List.length_append, List.length_singleton, h.counter]
    push_cast
    rfl
  · obtain ⟨hash, hchain⟩ := happ.chain
    rw [hchain, Table.log_extend_self, hlog, List.length_append, List.length_append, h.chain]
    rfl
  · rw [happ.versions, hlog]
    by_cases hid : id = record.id
    · subst hid
      rw [AList.lookup_insert]
      constructor
      · intro heq
        exact ⟨_, List.mem_append_right _ (List.mem_singleton_self _), rfl, Option.some.inj heq⟩
      · rintro ⟨m, hm, hmid, rfl⟩
        rcases List.mem_append.1 hm with hm | hm
        · exact absurd hmid (hfresh m hm)
        · rw [List.mem_singleton.1 hm]
    · have hne : (company, id) ≠ (company, record.id) := fun heq => hid (Prod.mk.inj heq).2
      rw [AList.lookup_insert_ne hne, h.known]
      constructor
      · rintro ⟨m, hm, hmid⟩
        exact ⟨m, List.mem_append_left _ hm, hmid⟩
      · rintro ⟨m, hm, hmid, hversion⟩
        rcases List.mem_append.1 hm with hm | hm
        · exact ⟨m, hm, hmid, hversion⟩
        · rw [List.mem_singleton.1 hm] at hmid
          exact absurd hmid.symm hid

/-- Appending for one company leaves the log of another alone. -/
theorem Appended.other (happ : Appended codec env company record log log') {company' : Uuid}
    (hne : company' ≠ company) :
    log'.mutations.log company' = log.mutations.log company' ∧
    log'.counter company' = log.counter company' ∧
    log'.chain.log company' = log.chain.log company' ∧
    ∀ id, AList.lookup (company', id) log'.mutationVersions =
      AList.lookup (company', id) log.mutationVersions := by
  obtain ⟨hash, hchain⟩ := happ.chain
  refine ⟨?_, ?_, ?_, fun id => ?_⟩
  · rw [happ.mutations, Table.log_extend_ne _ hne]
  · rw [SyncLog.counter, happ.counters, AList.lookup_insert_ne hne, SyncLog.counter]
  · rw [hchain, Table.log_extend_ne _ hne]
  · have hkey : (company', id) ≠ (company, record.id) := fun heq => hne (Prod.mk.inj heq).1
    rw [happ.versions, AList.lookup_insert_ne hkey]

/-- One record keeps every company's log. -/
theorem Kept.appendMutation {company' : Uuid} (h : Kept log company') :
    Kept (SyncLog.appendMutation codec env company log record) company' := by
  rcases appendMutation_cases codec env company log record with
    ⟨version, -, hsame⟩ | ⟨hnew, happ⟩
  · rw [hsame]
    exact h
  · by_cases hcompany : company' = company
    · subst hcompany
      exact h.appended hnew happ
    · obtain ⟨hmutations, hcounter, hchain, hversions⟩ := happ.other hcompany
      refine ⟨?_, ?_, ?_, ?_, ?_⟩
      · rw [hmutations]
        exact h.versions
      · rw [hmutations]
        exact h.ids
      · rw [hcounter, hmutations]
        exact h.counter
      · rw [hchain, hmutations]
        exact h.chain
      · intro id version
        rw [hversions, hmutations]
        exact h.known id version

/-- A batch keeps every company's log. -/
theorem Kept.appendMutations {company' : Uuid} (h : Kept log company')
    (records : List MutationRecord) :
    Kept (log.appendMutations codec env company records) company' := by
  induction records generalizing log with
  | nil => exact h
  | cons record records ih => exact ih h.appendMutation

/-- The entries of a log stay in place. -/
theorem appendMutations_prefix (codec : Codec) (env : Env) (company : Uuid)
    (records : List MutationRecord) (log : SyncLog) (company' : Uuid) :
    log.mutations.log company' <+:
      (log.appendMutations codec env company records).mutations.log company' := by
  induction records generalizing log with
  | nil => exact List.prefix_rfl
  | cons record records ih =>
    refine List.IsPrefix.trans ?_ (ih (SyncLog.appendMutation codec env company log record))
    rcases appendMutation_cases codec env company log record with
      ⟨version, -, hsame⟩ | ⟨-, happ⟩
    · rw [hsame]
    · rw [happ.mutations]
      exact Table.log_prefix_extend _ _ _ _

variable (codec env company) in
/-- The ids a log knows after a batch. -/
theorem appendMutations_knows (records : List MutationRecord) (log : SyncLog) (company' : Uuid)
    (id : String) :
    (AList.lookup (company', id) (log.appendMutations codec env company records).mutationVersions).isSome ↔
      (AList.lookup (company', id) log.mutationVersions).isSome ∨
        company' = company ∧ id ∈ records.map MutationRecord.id := by
  induction records generalizing log with
  | nil => simp [appendMutations]
  | cons record records ih =>
    have hfirst : (AList.lookup (company', id)
        (SyncLog.appendMutation codec env company log record).mutationVersions).isSome ↔
        (AList.lookup (company', id) log.mutationVersions).isSome ∨
          company' = company ∧ id = record.id := by
      rcases appendMutation_cases codec env company log record with
        ⟨version, hknown, hsame⟩ | ⟨-, happ⟩
      · rw [hsame]
        refine ⟨.inl, ?_⟩
        rintro (h | ⟨rfl, rfl⟩)
        · exact h
        · rw [hknown]
          rfl
      · rw [happ.versions]
        by_cases hkey : (company', id) = (company, record.id)
        · rw [hkey, AList.lookup_insert]
          exact iff_of_true rfl (.inr (Prod.mk.inj hkey))
        · rw [AList.lookup_insert_ne hkey]
          exact ⟨.inl, fun h => h.resolve_right fun heq => hkey (Prod.ext heq.1 heq.2)⟩
    have hrest := ih (SyncLog.appendMutation codec env company log record)
    rw [hfirst] at hrest
    refine hrest.trans ?_
    rw [List.map_cons, List.mem_cons]
    tauto

/-- A batch of new ids is appended whole, in its order, under the next versions. -/
theorem Kept.appendMutations_new (h : Kept log company) {records : List MutationRecord}
    (hnodup : (records.map MutationRecord.id).Nodup)
    (hnew : ∀ r ∈ records, AList.lookup (company, r.id) log.mutationVersions = none) :
    (log.appendMutations codec env company records).mutations.log company =
      log.mutations.log company ++ records.mapIdx fun i record =>
        { record, version := (log.mutations.log company).length + 1 + i, acknowledged := false } := by
  induction records generalizing log with
  | nil => exact (List.append_nil _).symm
  | cons record records ih =>
    obtain ⟨hrecord, hrest⟩ := List.forall_mem_cons.1 hnew
    rw [List.map_cons, List.nodup_cons] at hnodup
    rcases appendMutation_cases codec env company log record with
      ⟨version, hknown, -⟩ | ⟨-, happ⟩
    · rw [hrecord] at hknown
      cases hknown
    · have hnext : ∀ r ∈ records, AList.lookup (company, r.id)
          (SyncLog.appendMutation codec env company log record).mutationVersions = none := by
        intro r hr
        have hne : (company, r.id) ≠ (company, record.id) := by
          intro heq
          exact hnodup.1 ((Prod.mk.inj heq).2 ▸ List.mem_map_of_mem hr)
        rw [happ.versions, AList.lookup_insert_ne hne]
        exact hrest r hr
      have hlog : (SyncLog.appendMutation codec env company log record).mutations.log company =
          log.mutations.log company ++
            [{ record, version := (log.mutations.log company).length + 1, acknowledged := false }] := by
        rw [happ.mutations, Table.log_extend_self, h.counter]
      refine (ih h.appendMutation hnodup.2 hnext).trans ?_
      rw [hlog, List.mapIdx_cons, List.append_assoc, List.singleton_append, List.length_append,
        List.length_singleton]
      refine congrArg (log.mutations.log company ++ ·) (congrArg₂ List.cons ?_ ?_)
      · simp
      · refine congrArg (fun f => List.mapIdx f records) (funext fun i => funext fun r => ?_)
        simp only [Nat.cast_add, Nat.cast_one]
        rw [add_assoc _ (1 : Int) (i : Int), add_comm (1 : Int) (i : Int)]

end Append

/-! ### The answers -/

section Answers
variable (codec : Codec) (env : Env) (company : Uuid)

theorem appendMutations_append (log : SyncLog) (early late : List MutationRecord) :
    log.appendMutations codec env company (early ++ late) =
      (log.appendMutations codec env company early).appendMutations codec env company late :=
  List.foldl_append

theorem appendAnswered_ids (records : List MutationRecord) (log : SyncLog) :
    (log.appendAnswered codec env company records).1.map Prod.fst =
      records.map MutationRecord.id := by
  induction records generalizing log with
  | nil => rfl
  | cons record records ih =>
    simp only [appendAnswered, List.map_cons, ih]

/-- The answer to a record is the version the log has for it when its turn comes. -/
theorem appendAnswered_get (early : List MutationRecord) (record : MutationRecord)
    (late : List MutationRecord) (log : SyncLog) :
    (log.appendAnswered codec env company (early ++ record :: late)).1[early.length]? =
      some (record.id, (log.appendMutations codec env company early).answeredVersion company record) := by
  induction early generalizing log with
  | nil => rfl
  | cons first early ih =>
    rw [List.cons_append, appendAnswered, List.length_cons, List.getElem?_cons_succ]
    exact ih _

end Answers

end SyncLog

/-! ### Runs of appends -/

/-- One call of `append_mutations`. -/
structure Batch where
  company : Uuid
  env : Env
  records : List MutationRecord

namespace SyncLog

def append (codec : Codec) (log : SyncLog) (batch : Batch) : SyncLog :=
  log.appendMutations codec batch.env batch.company batch.records

/-- Any number of calls of `append_mutations`, by anybody and for any company. -/
def appendAll (codec : Codec) (batches : List Batch) : SyncLog := batches.foldl (append codec) {}

theorem appendAll_concat (codec : Codec) (batches : List Batch) (batch : Batch) :
    appendAll codec (batches ++ [batch]) = (appendAll codec batches).append codec batch := by
  simp only [appendAll, List.foldl_append, List.foldl_cons, List.foldl_nil]

theorem appendAll_kept (codec : Codec) (batches : List Batch) (company : Uuid) :
    Kept (appendAll codec batches) company := by
  induction batches using List.reverseRecOn with
  | nil => exact kept_empty company
  | append_singleton batches batch ih =>
    rw [appendAll_concat]
    exact ih.appendMutations batch.records

end SyncLog

/-! ### Every run -/

/-- The log after an operation of the store: only a push appends. -/
theorem operate_syncLog (codec : Codec) (env : Env) (op : MemOp) (inner : Inner) :
    ((memBackend codec).operate env op inner).toSyncLog = match op with
      | .pushMutations company records => inner.toSyncLog.appendMutations codec env company records
      | _ => inner.toSyncLog := by
  cases op with
  | lostHistory company report audit =>
    rcases Inner.recordLostHistory_cases company report audit inner with
      ⟨stored, -, hrun⟩ | ⟨-, response, recoveries, audits, hrun⟩
    · simp only [memBackend, hrun]
    · simp only [memBackend, hrun]
  | setBooksLock company change =>
    simp only [memBackend, Inner.setBooksLock]
    split_ifs <;> rfl
  | _ => rfl

section Rule
variable {codec : Codec} {allowed : Allowed MemOp}

/-- Every step keeps every company's log. -/
theorem syncLogKept_rule : Snapshot.Rule (protocol codec (memBackend codec) allowed)
    (fun book => Kept book ∧ ∀ company, SyncLog.Kept book.store.toSyncLog company)
    fun book book' => Extends book.store book'.store := by
  refine effects_rule_and ?_ ?_
  · intro book₀ book draft env inner' _ _ _ _ h _ heffects company
    obtain ⟨records, -, hlog⟩ := heffects.syncLog
    rw [hlog]
    exact (h company).appendMutations records
  · intro book op env h _ company
    rw [operate_syncLog]
    split
    · exact (h company).appendMutations _
    · exact h company

theorem memRun_syncLog_kept (codec : Codec) (events : List (Event MemOp)) (company : Uuid) :
    SyncLog.Kept (memRun codec events).book.store.toSyncLog company := by
  have h : Kept (memRun codec events).book ∧
      ∀ company, SyncLog.Kept (memRun codec events).book.store.toSyncLog company :=
    System.invariant_of_rule syncLogKept_rule ⟨kept_fresh, SyncLog.kept_empty⟩
      fun event _ => event.allowed_all
  exact h.2 company

/-- The log of every run of the system is a run of appends. -/
theorem memRun_appended (codec : Codec) (events : List (Event MemOp)) :
    ∃ batches, (memRun codec events).book.store.toSyncLog = SyncLog.appendAll codec batches := by
  have hrule : Snapshot.Rule (protocol codec (memBackend codec) (.all MemOp))
      (fun book => Kept book ∧ ∃ batches, book.store.toSyncLog = SyncLog.appendAll codec batches)
      fun book book' => Extends book.store book'.store := by
    refine effects_rule_and ?_ ?_
    · intro book₀ book draft env inner' _ _ _ _ h _ heffects
      obtain ⟨batches, hbatches⟩ := h
      obtain ⟨records, -, hlog⟩ := heffects.syncLog
      refine ⟨batches ++ [⟨draft.commit.companyId, env, records⟩], ?_⟩
      rw [SyncLog.appendAll_concat, ← hbatches]
      exact hlog
    · intro book op env h _
      obtain ⟨batches, hbatches⟩ := h
      rw [operate_syncLog]
      cases op with
      | pushMutations company records =>
        refine ⟨batches ++ [⟨company, env, records⟩], ?_⟩
        rw [SyncLog.appendAll_concat, ← hbatches]
        rfl
      | _ => exact ⟨batches, hbatches⟩
  have h : Kept (memRun codec events).book ∧ ∃ batches,
      (memRun codec events).book.store.toSyncLog = SyncLog.appendAll codec batches :=
    System.invariant_of_rule hrule ⟨kept_fresh, [], rfl⟩ fun event _ => event.allowed_all
  exact h.2

end Rule

/-- In every run the log of a company has the versions 1 to N in order, distinct ids, a counter and a
chain of N, and a version for exactly the ids it has; and an append answers every record in order: an id
that is there by then with its version, and nothing changes; another with the next version, under
which the record is added. -/
theorem sync_log_kept (codec : Codec) (events : List (Event MemOp)) (company : Uuid) :
    let log := (memRun codec events).book.store.toSyncLog
    SyncLog.Kept log company ∧
    ∀ (env : Env) (records : List MutationRecord),
      let answered := log.appendAnswered codec env company records
      answered.2 = log.appendMutations codec env company records ∧
      answered.1.map Prod.fst = records.map MutationRecord.id ∧
      log.mutations.log company <+: answered.2.mutations.log company ∧
      ∀ early record late, records = early ++ record :: late →
        let before := log.appendMutations codec env company early
        let after := log.appendMutations codec env company (early ++ [record])
        (∀ m ∈ before.mutations.log company, m.record.id = record.id →
          answered.1[early.length]? = some (record.id, m.version) ∧ after = before) ∧
        ((∀ m ∈ before.mutations.log company, m.record.id ≠ record.id) →
          let version : Int := (before.mutations.log company).length + 1
          answered.1[early.length]? = some (record.id, version) ∧
          after.mutations.log company =
            before.mutations.log company ++ [{ record, version, acknowledged := false }]) := by
  have hkept := memRun_syncLog_kept codec events company
  refine ⟨hkept, fun env records => ⟨SyncLog.appendAnswered_log .., SyncLog.appendAnswered_ids ..,
    ?_, ?_⟩⟩
  · rw [SyncLog.appendAnswered_log]
    exact SyncLog.appendMutations_prefix ..
  · rintro early record late rfl
    set before := (memRun codec events).book.store.toSyncLog.appendMutations codec env company early
      with hbefore
    have hbeforeKept : SyncLog.Kept before company := hkept.appendMutations early
    have hafter : (memRun codec events).book.store.toSyncLog.appendMutations codec env company
        (early ++ [record]) = SyncLog.appendMutation codec env company before record := by
      rw [SyncLog.appendMutations_append]
      rfl
    rw [hafter, SyncLog.appendAnswered_get, ← hbefore]
    constructor
    · intro m hm hid
      have hlookup := (hbeforeKept.known record.id m.version).2 ⟨m, hm, hid, rfl⟩
      rcases SyncLog.appendMutation_cases codec env company before record with
        ⟨version, -, hsame⟩ | ⟨hnew, -⟩
      · exact ⟨by rw [SyncLog.answeredVersion, hlookup], hsame⟩
      · rw [hnew] at hlookup
        cases hlookup
    · intro hnone
      rcases SyncLog.appendMutation_cases codec env company before record with
        ⟨version, hlookup, -⟩ | ⟨hnew, happ⟩
      · obtain ⟨m, hm, hid, -⟩ := (hbeforeKept.known record.id version).1 hlookup
        exact absurd hid (hnone m hm)
      · rw [SyncLog.answeredVersion, hnew, happ.mutations, Table.log_extend_self, hbeforeKept.counter]
        exact ⟨rfl, rfl⟩

end AtlasTeam
