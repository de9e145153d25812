import AtlasTeam.Pay
import AtlasTeam.Store.Effects

/-!
# Idempotency keys

A key is looked up twice, before a command builds and again inside the commit. The second lookup makes
the table of stored responses and the journal two sides of one thing (`Keyed`): a key has at most one
entry, and what is stored under it is the response of that entry. So whatever a command replays is
the answer of the one posting its key has made (`postings_at_most_once`).
-/

namespace AtlasTeam

/-! ### The table and the journal -/

/-- The company and key an entry was posted under. -/
def Entry.key {S : Type} (entry : Entry S) : Option (Uuid × String) :=
  entry.command.idempotencyKey.map fun key => (entry.companyId, key)

structure Keyed (book : Book Inner) : Prop where
  /-- The key of an entry replays its response. -/
  stored : ∀ entry ∈ book.journal, ∀ key, entry.key = some key →
    AList.lookup key book.store.idempotency = some entry.response
  /-- What a key replays is the response of an entry. -/
  source : ∀ key response, AList.lookup key book.store.idempotency = some response →
    ∃ entry ∈ book.journal, entry.key = some key ∧ entry.response = response
  /-- No key has two entries. -/
  once : (book.journal.filterMap Entry.key).Nodup

theorem keyed_fresh : Keyed { store := {} } where
  stored _ h := absurd h List.not_mem_nil
  source _ _ h := by simp at h
  once := List.nodup_nil

/-- Only a commit writes the replay table. -/
theorem operate_idempotency (codec : Codec) (env : Env) (op : MemOp) (inner : Inner) :
    ((memBackend codec).operate env op inner).idempotency = inner.idempotency := by
  cases op with
  | lostHistory company report audit =>
    rcases Inner.recordLostHistory_cases company report audit inner with
      ⟨stored, -, hrun⟩ | ⟨-, response, recoveries, audits, hrun⟩
    · simp only [memBackend, hrun]
    · simp only [memBackend, hrun]
  | setBooksLock company change =>
    simp only [memBackend, Inner.setBooksLock]
    split_ifs <;> rfl
  | _ => rfl

section Rule
variable {codec : Codec} {allowed : Allowed MemOp}

/-- The key of an applied entry is the one its commit was stored under. -/
theorem appliedEntry_key {book₀ : Book Inner} {draft : Draft Inner}
    (hbuilt : Draft.Built codec (memBackend codec) allowed book₀ draft) (store : Inner) :
    (appliedEntry draft store).key =
      draft.commit.idempotencyKey.map fun key => (draft.commit.companyId, key) := by
  rw [Command.build_idempotencyKey hbuilt.build, (Command.build_new_or_cancel hbuilt.build).1]
  rfl

/-- An applied commit takes a key that was free. -/
theorem Keyed.applied {book₀ book : Book Inner} {draft : Draft Inner} {env : Env} {inner' : Inner}
    (h : Keyed book) (hbuilt : Draft.Built codec (memBackend codec) allowed book₀ draft)
    (heffects : Inner.Effects codec env draft.commit book.store inner') :
    Keyed { store := inner', journal := book.journal ++ [appliedEntry draft book.store] } := by
  have hkey := appliedEntry_key hbuilt book.store
  cases hcommit : draft.commit.idempotencyKey with
  | none =>
    rw [hcommit, Option.map_none] at hkey
    have htable : inner'.idempotency = book.store.idempotency := by
      rw [heffects.idempotency, hcommit]
    refine ⟨?_, ?_, ?_⟩
    · intro entry hentry key hentryKey
      rcases List.mem_append.1 hentry with hentry | hentry
      · exact htable ▸ h.stored entry hentry key hentryKey
      · obtain rfl := List.mem_singleton.1 hentry
        cases hkey.symm.trans hentryKey
    · intro key response hlookup
      obtain ⟨entry, hentry, hfound⟩ := h.source key response (htable ▸ hlookup)
      exact ⟨entry, List.mem_append_left _ hentry, hfound⟩
    · simpa [hkey] using h.once
  | some raw =>
    have hnew : (appliedEntry draft book.store).key = some (draft.commit.companyId, raw) := by
      rw [hkey, hcommit, Option.map_some]
    have hfree : AList.lookup (draft.commit.companyId, raw) book.store.idempotency = none := by
      simpa [Inner.replayed, hcommit] using heffects.unreplayed
    have htable : inner'.idempotency = AList.insert (draft.commit.companyId, raw)
        (appliedEntry draft book.store).response book.store.idempotency := by
      rw [heffects.idempotency, hcommit]
      rfl
    -- the free key is not one of an earlier entry
    have hfresh : ∀ entry ∈ book.journal, ∀ key, entry.key = some key →
        key ≠ (draft.commit.companyId, raw) := by
      rintro entry hentry key hentryKey rfl
      cases hfree.symm.trans (h.stored entry hentry _ hentryKey)
    refine ⟨?_, ?_, ?_⟩
    · intro entry hentry key hentryKey
      rw [htable]
      rcases List.mem_append.1 hentry with hentry | hentry
      · rw [AList.lookup_insert_ne (hfresh entry hentry key hentryKey)]
        exact h.stored entry hentry key hentryKey
      · obtain rfl := List.mem_singleton.1 hentry
        obtain rfl := Option.some.inj (hnew.symm.trans hentryKey)
        exact AList.lookup_insert _
    · intro key response hlookup
      rw [htable] at hlookup
      by_cases hsame : key = (draft.commit.companyId, raw)
      · subst hsame
        rw [AList.lookup_insert, Option.some.injEq] at hlookup
        exact ⟨_, List.mem_append_right _ List.mem_cons_self, hnew, hlookup⟩
      · rw [AList.lookup_insert_ne hsame] at hlookup
        obtain ⟨entry, hentry, hfound⟩ := h.source key response hlookup
        exact ⟨entry, List.mem_append_left _ hentry, hfound⟩
    · rw [List.filterMap_append, List.nodup_append]
      refine ⟨h.once, by simp [hnew], fun key hmem key' hmem' => ?_⟩
      obtain rfl : key' = (draft.commit.companyId, raw) := by simpa [hnew] using hmem'
      obtain ⟨entry, hentry, hentryKey⟩ := List.mem_filterMap.1 hmem
      exact hfresh entry hentry key hentryKey

/-- Every step keeps the two sides together, and the journal only grows. -/
theorem keyed_rule : Snapshot.Rule (protocol codec (memBackend codec) allowed) Keyed
    fun book book' => book.journal <+: book'.journal where
  refl _ := List.prefix_rfl
  trans := List.IsPrefix.trans
  commit := by
    rintro book₀ book _ draft - - hkeyed hbuilt ⟨env, rfl⟩
    rcases commit_effects codec env draft book with
      ⟨response, -, -, hsame⟩ | ⟨e, -, -, hsame⟩ | ⟨inner', heffects, -, hbook⟩
    · rw [hsame]
      exact ⟨hkeyed, List.prefix_rfl⟩
    · rw [hsame]
      exact ⟨hkeyed, List.prefix_rfl⟩
    · rw [hbook]
      exact ⟨hkeyed.applied hbuilt heffects, List.prefix_append _ _⟩
  other := by
    rintro book _ hkeyed ⟨op, env, -, rfl⟩
    have hframe := operate_idempotency codec env op book.store
    refine ⟨⟨?_, ?_, hkeyed.once⟩, List.prefix_rfl⟩
    · rw [hframe]
      exact hkeyed.stored
    · rw [hframe]
      exact hkeyed.source

end Rule

/-- The table and the journal of a run. -/
theorem memRun_keyed (codec : Codec) (events : List (Event MemOp)) :
    Keyed (memRun codec events).book :=
  System.invariant_of_rule keyed_rule keyed_fresh fun event _ => event.allowed_all

/-- The journal of a run is the beginning of every later one. -/
theorem memRun_journal_grows (codec : Codec) (early late : List (Event MemOp)) :
    (memRun codec early).book.journal <+: (memRun codec (early ++ late)).book.journal :=
  System.growth_of_rule keyed_rule keyed_fresh (fun event _ => event.allowed_all)
    fun event _ => event.allowed_all

/-- A stored response stays stored as the journal grows. -/
theorem Keyed.lookup_mono {book book' : Book Inner} (h : Keyed book) (h' : Keyed book')
    (hgrow : book.journal <+: book'.journal) {key : Uuid × String} {response : Value}
    (hlookup : AList.lookup key book.store.idempotency = some response) :
    AList.lookup key book'.store.idempotency = some response := by
  obtain ⟨entry, hentry, hkey, hresponse⟩ := h.source key response hlookup
  rw [← hresponse]
  exact h'.stored entry (hgrow.subset hentry) key hkey

/-! ### What commands replay -/

theorem boundReplay_eq_ok {outcome outcome' : CommitOutcome} {doctype : String}
    {documentId : Option String} (h : boundReplay outcome doctype documentId = .ok outcome') :
    outcome' = outcome ∧
      (∀ stored, (outcome.response.get "doctype").bind Value.asStr = some stored →
        stored = doctype) ∧
      ∀ id, documentId = some id →
        (outcome.response.get "document_id").bind Value.asStr = some id := by
  simp only [boundReplay] at h
  split_ifs at h with hmatch
  · rw [Bool.and_eq_true] at hmatch
    refine ⟨(Except.ok.inj h).symm, fun stored hstored => ?_, fun id hid => ?_⟩
    · simpa [hstored] using hmatch.1
    · simpa [hid] using hmatch.2

theorem samePackage_eq_ok {response : Value} {sha : String} {outcome : CommitOutcome}
    (h : samePackage response sha = .ok outcome) : outcome = { response, replayed := true } := by
  simp only [samePackage] at h
  split at h
  · exact (Except.ok.inj h).symm
  · cases h

namespace Command

/-- A replay before the build answers with what is stored under the key. -/
theorem start_eq_ok {codec : Codec} {view : StoreView} {companyId : Uuid} {actor : Actor}
    {command : Command} {outcome : CommitOutcome}
    (h : command.start codec view companyId actor = some (.ok outcome)) :
    command.Admissible actor ∧ ∃ key, command.idempotencyKey = some key ∧
      view.idempotentResponse companyId key = some outcome.response := by
  cases command with
  | submit cmd =>
    simp only [start] at h
    split at h
    · cases h
    · rename_i hdoctype
      split at h
      · cases h
      · rename_i hoffline
        refine ⟨⟨not_not.1 hdoctype, fun hflag => by rwa [if_pos hflag] at hoffline⟩, ?_⟩
        obtain ⟨found, hreplay, hbound⟩ := Option.map_eq_some_iff.1 h
        obtain ⟨response, hresponse, rfl⟩ := Option.map_eq_some_iff.1 hreplay
        obtain ⟨key, hkey, hstored⟩ := Option.bind_eq_some_iff.1 hresponse
        obtain ⟨rfl, -⟩ := boundReplay_eq_ok hbound
        exact ⟨key, hkey, hstored⟩
  | cancel cmd =>
    refine ⟨trivial, ?_⟩
    obtain ⟨found, hreplay, hbound⟩ := Option.map_eq_some_iff.1 h
    obtain ⟨response, hresponse, rfl⟩ := Option.map_eq_some_iff.1 hreplay
    obtain ⟨key, hkey, hstored⟩ := Option.bind_eq_some_iff.1 hresponse
    obtain ⟨rfl, -⟩ := boundReplay_eq_ok hbound
    exact ⟨key, hkey, hstored⟩
  | takeOn cmd =>
    simp only [start] at h
    split at h
    · cases h
    · rename_i hsafe
      obtain ⟨response, hstored, hsame⟩ := Option.map_eq_some_iff.1 h
      rw [samePackage_eq_ok hsame]
      exact ⟨by simpa [Admissible] using hsafe, cmd.idempotencyKey, rfl, hstored⟩

/-- A command that ends with `Ok` passes on what its commit answered. -/
theorem settle_eq_ok {codec : Codec} {documentId : String}
    {result : Except StoreError CommitOutcome} {command : Command} {outcome : CommitOutcome}
    (h : command.settle codec documentId result = some (.ok outcome)) : result = .ok outcome := by
  cases result with
  | error e => cases command <;> cases e <;> simp [settle] at h
  | ok answer =>
    obtain ⟨response, replayed⟩ := answer
    cases replayed with
    | false =>
      cases command <;> simpa [settle] using h
    | true =>
      refine congrArg Except.ok (Eq.symm ?_)
      cases command with
      | submit cmd =>
        have hbound : boundReplay ⟨response, true⟩ cmd.doctype (some documentId) = .ok outcome :=
          Option.some.inj h
        exact (boundReplay_eq_ok hbound).1
      | cancel cmd =>
        have hbound : boundReplay ⟨response, true⟩ cmd.doctype (some cmd.documentId) = .ok outcome :=
          Option.some.inj h
        exact (boundReplay_eq_ok hbound).1
      | takeOn cmd => exact samePackage_eq_ok (Option.some.inj h)

end Command

/-- The document a call replays for if its next step finds its key; `none` when the step looks up no
key. -/
def Call.replayId {S : Type} (call : Call S) : Option (Option String) :=
  match call.phase with
  | .start => some call.command.givenId
  | .committing _ draft => some (some draft.documentId)
  | _ => none

/-- What a call has replayed is what is stored under its key. -/
def Call.Replayed (book : Book Inner) (call : Call Inner) : Prop :=
  ∀ outcome, call.phase = .finished (.ok outcome) → outcome.replayed = true →
    ∀ key, call.command.idempotencyKey = some key →
      AList.lookup (call.companyId, key) book.store.idempotency = some outcome.response

section Calls
variable {codec : Codec}

theorem Call.advance_command (codec : Codec) (call : Call Inner) (env : Env) (book : Book Inner) :
    (call.advance codec (memBackend codec) env book).1.companyId = call.companyId ∧
      (call.advance codec (memBackend codec) env book).1.command = call.command := by
  obtain ⟨hcompany, -, hcommand⟩ := Call.advance_keeps codec (memBackend codec) call env book
  exact ⟨hcompany, hcommand⟩

/-- A call steps to a replay from one of the two lookups of its key, and leaves the book alone. -/
theorem Call.advance_eq_replay {book : Book Inner} {call : Call Inner} {env : Env}
    {outcome : CommitOutcome} (hfaithful : call.Faithful codec (memBackend codec))
    (hopen : ∀ result, call.phase ≠ .finished result)
    (h : (call.advance codec (memBackend codec) env book).1.phase = .finished (.ok outcome))
    (hreplayed : outcome.replayed = true) :
    call.command.Admissible call.actor ∧ (∃ id, call.replayId = some id) ∧
      (call.advance codec (memBackend codec) env book).2 = book ∧
      ∃ key, call.command.idempotencyKey = some key ∧
        AList.lookup (call.companyId, key) book.store.idempotency = some outcome.response := by
  cases hphase : call.phase with
  | start =>
    simp only [Call.advance, hphase] at h ⊢
    split at h
    · rename_i result hstart
      obtain rfl : result = .ok outcome := by simpa using h
      obtain ⟨hadmissible, key, hkey, hstored⟩ := Command.start_eq_ok hstart
      exact ⟨hadmissible, ⟨call.command.givenId, by simp [Call.replayId, hphase]⟩, trivial, key, hkey,
        hstored⟩
    · cases h
  | building left documentId =>
    exfalso
    simp only [Call.advance, hphase, Call.build] at h
    split at h
    · cases h
    · split at h <;> cases h
  | committing left draft =>
    simp only [Call.Faithful, hphase] at hfaithful
    obtain ⟨hadmissible, hdraft⟩ := hfaithful
    simp only [Call.advance, hphase] at h ⊢
    split at h
    · rename_i result hsettle
      obtain rfl : result = .ok outcome := by simpa using h
      have hanswer := Command.settle_eq_ok hsettle
      rcases commit_effects codec env draft book with
        ⟨response, hstored, hrun, hsame⟩ | ⟨e, -, hrun, -⟩ | ⟨inner', -, hrun, -⟩
      · obtain rfl := Except.ok.inj (hanswer.symm.trans hrun)
        refine ⟨hadmissible, ⟨some draft.documentId, by simp [Call.replayId, hphase]⟩, hsame, ?_⟩
        obtain ⟨key, hkey, hstored⟩ := Option.bind_eq_some_iff.1 hstored
        rw [Command.build_idempotencyKey hdraft.build, hdraft.command] at hkey
        rw [(Command.build_new_or_cancel hdraft.build).1, hdraft.companyId] at hstored
        exact ⟨key, hkey, hstored⟩
      · cases hanswer.symm.trans hrun
      · obtain rfl := Except.ok.inj (hanswer.symm.trans hrun)
        cases hreplayed
    · cases h
  | finished result => exact absurd hphase (hopen result)

/-- A call that steps to a replay finds the response under its key. -/
theorem Call.advance_replayed {book : Book Inner} {call : Call Inner} {env : Env}
    (hfaithful : call.Faithful codec (memBackend codec)) (h : call.Replayed book) :
    (call.advance codec (memBackend codec) env book).1.Replayed
      (call.advance codec (memBackend codec) env book).2 := by
  intro outcome hphase hreplayed key hkey
  obtain ⟨hcompany, hcommand⟩ := Call.advance_command codec call env book
  rw [hcommand] at hkey
  rw [hcompany]
  by_cases hopen : ∀ result, call.phase ≠ .finished result
  · obtain ⟨-, -, hbook, key', hkey', hstored⟩ :=
      Call.advance_eq_replay hfaithful hopen hphase hreplayed
    obtain rfl := Option.some.inj (hkey'.symm.trans hkey)
    rw [hbook]
    exact hstored
  · simp only [not_forall, not_not] at hopen
    obtain ⟨result, hfinished⟩ := hopen
    have hsame : call.advance codec (memBackend codec) env book = (call, book) := by
      simp [Call.advance, hfinished]
    rw [hsame] at hphase ⊢
    exact h outcome hphase hreplayed key hkey

/-- Every call of every run has replayed what is stored under its key. -/
theorem memRun_replayed (codec : Codec) (events : List (Event MemOp)) :
    ∀ call ∈ (memRun codec events).calls, call.Replayed (memRun codec events).book := by
  have hcalls : ∀ call ∈ (memRun codec events).calls, call.Faithful codec (memBackend codec) ∧
      call.Replayed (memRun codec events).book := by
    refine System.calls_of_rule
      (P := fun book call => call.Faithful codec (memBackend codec) ∧ call.Replayed book)
      keyed_rule ?_ ?_ ?_ keyed_fresh fun event _ => event.allowed_all
    · intro book companyId actor command _
      exact ⟨trivial, fun outcome h => Phase.noConfusion rfl (heq_of_eq h)⟩
    · intro book call env _ h
      exact ⟨Call.advance_faithful codec _ h.1 env book, Call.advance_replayed h.1 h.2⟩
    · intro book book' call hkeyed hkeyed' hgrow h
      refine ⟨h.1, fun outcome hphase hreplayed key hkey => ?_⟩
      exact hkeyed.lookup_mono hkeyed' hgrow (h.2 outcome hphase hreplayed key hkey)
  exact fun call hcall => (hcalls call hcall).2

end Calls

/-- The entries posted under a key. -/
def postedUnder (journal : List (Entry Inner)) (company : Uuid) (key : String) :
    List (Entry Inner) :=
  journal.filter fun entry => entry.key = some (company, key)

theorem Keyed.postedUnder_length {book : Book Inner} (h : Keyed book) (company : Uuid)
    (key : String) : (postedUnder book.journal company key).length ≤ 1 := by
  have hcount : (book.journal.filterMap Entry.key).count (company, key) ≤ 1 :=
    List.nodup_iff_count_le_one.1 h.once _
  have hlength : ∀ journal : List (Entry Inner),
      (postedUnder journal company key).length = (journal.filterMap Entry.key).count (company, key) := by
    intro journal
    induction journal with
    | nil => rfl
    | cons entry journal ih =>
      unfold postedUnder at ih ⊢
      cases hkey : entry.key with
      | none => simpa [List.filter_cons, hkey] using ih
      | some key' =>
        by_cases hsame : key' = (company, key)
        · simp [hkey, hsame, ih]
        · simp [hkey, hsame, ih]
  rw [hlength]
  exact hcount

/-- In every run of submits, cancels, take-ons and webhooks at most one posting is committed under a
key, and every `Ok` that a command with the key replays carries the response that posting stored. -/
theorem postings_at_most_once (codec : Codec) (requests : List Request) (company : Uuid)
    (key : String) :
    (postedUnder (requestRun codec requests).book.journal company key).length ≤ 1 ∧
    ∀ call ∈ (requestRun codec requests).calls, call.companyId = company →
      call.command.idempotencyKey = some key → ∀ outcome, call.phase = .finished (.ok outcome) →
      outcome.replayed = true →
        ∃ entry, postedUnder (requestRun codec requests).book.journal company key = [entry] ∧
          outcome.response = entry.response ∧
          AList.lookup (company, key) (requestRun codec requests).book.store.idempotency =
            some entry.response := by
  have hkeyed := memRun_keyed codec (requests.flatMap Request.events)
  have hlength := hkeyed.postedUnder_length company key
  refine ⟨hlength, ?_⟩
  rintro call hcall rfl hkey outcome hphase hreplayed
  have hstored := memRun_replayed codec _ call hcall outcome hphase hreplayed key hkey
  obtain ⟨entry, hentry, hentryKey, hresponse⟩ := hkeyed.source _ _ hstored
  have hmem : entry ∈ postedUnder (requestRun codec requests).book.journal call.companyId key :=
    List.mem_filter.2 ⟨hentry, by simpa using hentryKey⟩
  obtain ⟨posted, hposted⟩ := List.length_eq_one_iff.1
    (le_antisymm hlength (List.length_pos_of_mem hmem))
  have hsame : entry = posted := by
    have hmem' := hmem
    rw [requestRun, hposted] at hmem'
    exact List.mem_singleton.1 hmem'
  subst hsame
  exact ⟨entry, hposted, hresponse.symm, hresponse ▸ hstored⟩

end AtlasTeam
