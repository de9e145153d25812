import AtlasTeam.Api.Sync
import AtlasTeam.Store.ReadModel
import AtlasTeam.Store.Reversals

/-!
# The read model under pushes and postings

A push looks its documents up in one step and appends in a later one, so a document can become official
in between. `read_model_agrees` says that nothing sets the row of an official document apart from the
document but this, a record of a document that the log takes for one it has, and a number in a header that
serde_json does not read as it wrote it.
-/

namespace AtlasTeam

/-- The batch a push is about to append. -/
def PushPhase.batch : PushPhase → Option (List MutationRecord)
  | .pinned mutations => some mutations
  | _ => none

/-- The step appends no mutation to an official document. -/
def Plane.SparesOfficial (plane : Plane) : PlaneEvent → Prop
  | .advance position _ => ∀ push ∈ plane.pushes[position]?, ∀ mutations ∈ push.phase.batch,
      plane.system.book.store.SparesOfficial push.companyId mutations
  | _ => True

instance (plane : Plane) : DecidablePred plane.SparesOfficial
  | .advance position _ => inferInstanceAs (Decidable (∀ push ∈ plane.pushes[position]?, _))
  | .push _ _ _ | .setRole _ _ _ | .call _ _ _ | .advanceCall _ _ | .operate _ _ => .isTrue trivial

section Runs
variable {codec : Codec}

theorem Plane.systemEvents_cases (plane : Plane) (event : PlaneEvent) :
    plane.systemEvents event = [] ∨ ∃ e, plane.systemEvents event = [e] := by
  cases event with
  | advance position env =>
    simp only [Plane.systemEvents]
    split
    · exact .inr ⟨_, rfl⟩
    · exact .inl rfl
  | operate op env =>
    simp only [Plane.systemEvents]
    split
    · exact .inl rfl
    · exact .inr ⟨_, rfl⟩
  | push auth company mutations => exact .inl rfl
  | setRole user company role => exact .inl rfl
  | call company actor command => exact .inr ⟨_, rfl⟩
  | advanceCall position env => exact .inr ⟨_, rfl⟩

/-- What a step that spares the official documents appends spares them. -/
theorem Plane.SparesOfficial.appended {plane : Plane} {event : PlaneEvent}
    (h : plane.SparesOfficial event) {op : MemOp} {env : Env}
    (hevents : plane.systemEvents event = [.operate op env]) (company : Uuid)
    (records : List MutationRecord) (hop : op = .pushMutations company records) :
    plane.system.book.store.SparesOfficial company records := by
  subst hop
  cases event with
  | advance position env' =>
    simp only [Plane.systemEvents] at hevents
    split at hevents
    · rename_i hpush
      obtain ⟨⟨rfl, rfl⟩, -⟩ : (_ ∧ _) ∧ _ := by simpa using hevents
      exact h _ hpush _ rfl
    · cases hevents
  | operate op env' =>
    simp only [Plane.systemEvents] at hevents
    split at hevents
    · cases hevents
    · rename_i hno
      obtain ⟨rfl, -⟩ : _ ∧ _ := by simpa using hevents
      exact absurd rfl (hno company records)
  | push auth company mutations => cases hevents
  | setRole user company role => cases hevents
  | call company actor command => cases hevents
  | advanceCall position env => cases hevents

/-- One more event of the plane, seen from a rule on top of the growth of the books: nothing, a commit with
all its effects, or an operation of the store. -/
theorem planeRun_step {I : Book Inner → Prop}
    (rule : Snapshot.Rule (protocol codec (memBackend codec) guardedPushes) I
      fun book book' => Extends book.store book'.store)
    (hfresh : I { store := {} }) (events : List PlaneEvent) (event : PlaneEvent) :
    let plane := planeRun codec events
    let book := plane.system.book
    let book' := (planeRun codec (events ++ [event])).system.book
    I book ∧ I book' ∧
      (book' = book ∨
        (∃ book₀ draft env inner', I book₀ ∧ Extends book₀.store book.store ∧
          Draft.Built codec (memBackend codec) guardedPushes book₀ draft ∧
          Inner.Effects codec env draft.commit book.store inner' ∧
          book' = { store := inner', journal := book.journal ++ [appliedEntry draft book.store] }) ∨
        ∃ op env, plane.systemEvents event = [.operate op env] ∧
          book' = { book with store := (memBackend codec).operate env op book.store }) := by
  intro plane book book'
  obtain ⟨early, hsystem, hallowed⟩ := planeRun_system codec events
  obtain ⟨all, hsystem', hallowed'⟩ := planeRun_system codec (events ++ [event])
  have hbook : (memRun codec early).book = book := (congrArg System.book hsystem).symm
  have hI : I book := hbook ▸ System.invariant_of_rule rule hfresh hallowed
  have hI' : I book' := by
    rw [show book' = (memRun codec all).book from congrArg System.book hsystem']
    exact System.invariant_of_rule rule hfresh hallowed'
  refine ⟨hI, hI', ?_⟩
  have hstep : (planeRun codec (events ++ [event])).system =
      (memRun codec early).run codec (memBackend codec) (plane.systemEvents event) := by
    rw [planeRun_concat, Plane.step_system, hsystem]
  rcases plane.systemEvents_cases event with hnone | ⟨e, hone⟩
  · refine .inl ?_
    rw [hnone] at hstep
    exact (congrArg System.book hstep).trans hbook
  · have hconcat : book' = (memRun codec (early ++ [e])).book := by
      rw [memRun_concat]
      rw [hone] at hstep
      exact congrArg System.book hstep
    have hcases := memRun_step rule hfresh hallowed e
    simp only [hbook, ← hconcat] at hcases
    rcases hcases with ⟨-, hsame⟩ | ⟨-, hcommit⟩ | ⟨op, env, rfl, hoperate⟩
    · exact .inl hsame
    · exact .inr (.inl hcommit)
    · exact .inr (.inr ⟨op, env, hone, hoperate⟩)

/-- The documents of a run are official ones. -/
theorem official_rule {allowed : Allowed MemOp} :
    Snapshot.Rule (protocol codec (memBackend codec) allowed)
      (fun book => Kept book ∧
        ((∀ entry ∈ book.journal, entry.command.Admissible entry.actor) → book.store.Official))
      fun book book' => Extends book.store book'.store := by
  refine extends_rule_and ?_ ?_
  · intro book₀ book draft inner' _ _ _ _ h hbuilt hpassed happlied hadmissible
    obtain ⟨hearlier, hlast⟩ := List.forall_mem_append.1 hadmissible
    exact (h hearlier).applied hbuilt hpassed happlied (hlast _ (List.mem_singleton_self _))
  · intro book op env h _ hadmissible
    exact (h hadmissible).operate op

theorem official_fresh : Kept { store := {} } ∧
    ((∀ entry ∈ ({ store := {} } : Book Inner).journal, entry.command.Admissible entry.actor) →
      ({} : Inner).Official) :=
  ⟨kept_fresh, fun _ key doc hdoc => by simp at hdoc⟩

theorem planeRun_official (codec : Codec) (events : List PlaneEvent) :
    (planeRun codec events).system.book.store.Official := by
  obtain ⟨early, hsystem, hallowed⟩ := planeRun_system codec events
  rw [hsystem]
  have hrun : Kept (memRun codec early).book ∧ _ :=
    System.invariant_of_rule (@official_rule codec _) official_fresh hallowed
  exact hrun.2 fun entry hentry => (System.journal_faithful codec (memBackend codec) early entry hentry).1

/-- The journal of a run goes on from that of its beginning. -/
theorem planeRun_journal (codec : Codec) {run events : List PlaneEvent} (h : run <+: events) :
    (planeRun codec run).system.book.journal <+: (planeRun codec events).system.book.journal := by
  induction events using List.reverseRecOn with
  | nil => rw [List.prefix_nil.1 h]
  | append_singleton events event ih =>
    rcases List.prefix_concat_iff.1 h with rfl | h
    · exact List.prefix_rfl
    · refine (ih h).trans ?_
      obtain ⟨-, -, hsame | ⟨book₀, draft, env, inner', -, -, -, -, hbook⟩ | ⟨op, env, -, hbook⟩⟩ :=
        @planeRun_step codec _ extends_rule kept_fresh events event
      · rw [hsame]
      · rw [hbook]
        exact List.prefix_append _ _
      · rw [hbook]

/-- In the run every commit's records of documents reach the log, the numbers in their headers are read as
they were written, and no push appends to an official document. -/
structure Undisturbed (codec : Codec) (events : List PlaneEvent) : Prop where
  reach : ∀ entry ∈ (planeRun codec events).system.book.journal,
    Inner.HeadersReach entry.commit entry.before
  numbers : ∀ entry ∈ (planeRun codec events).system.book.journal,
    ∀ doc ∈ Inner.sentDocuments entry.commit entry.before,
      ∀ n ∈ Map.numbers doc.headerWithNumber, codec.reread n = n
  spares : ∀ i (h : i < events.length), (planeRun codec (events.take i)).SparesOfficial events[i]

theorem Undisturbed.begins {run events : List PlaneEvent} (h : Undisturbed codec events)
    (hrun : run <+: events) : Undisturbed codec run := by
  have hearlier := (planeRun_journal codec hrun).subset
  refine ⟨fun entry hentry => h.reach entry (hearlier hentry),
    fun entry hentry => h.numbers entry (hearlier hentry), fun i hi => ?_⟩
  have hspares := h.spares i (hi.trans_le hrun.length_le)
  have htake : events.take i = run.take i := by
    rw [List.prefix_iff_eq_take.1 hrun, List.take_take, min_eq_left hi.le]
  rwa [← hrun.getElem hi, htake] at hspares

/-- In every run of pushes, submits, cancels and take-ons whose commits' records of documents reach the log
with numbers that are read as written, and whose pushes append to no official document, the read model
agrees with the official documents in every state reached. -/
theorem read_model_agrees (codec : Codec) (events : List PlaneEvent)
    (hreads : ∀ entry ∈ (planeRun codec events).system.book.journal,
      ∀ doc ∈ Inner.sentDocuments entry.commit entry.before, codec.Reads doc.headerWithNumber)
    (h : Undisturbed codec events) :
    ∀ run, run <+: events → (planeRun codec run).system.book.store.ReadModelAgrees := by
  intro run hrun
  replace hreads := fun entry hentry => hreads entry ((planeRun_journal codec hrun).subset hentry)
  replace h := h.begins hrun
  induction run using List.reverseRecOn with
  | nil =>
    intro key doc hdoc
    simp [planeRun, System.fresh] at hdoc
  | append_singleton run event ih =>
    have hearly : run <+: run ++ [event] := List.prefix_append _ _
    have hagrees := ih (hearly.trans hrun)
      (fun entry hentry => hreads entry ((planeRun_journal codec hearly).subset hentry)) (h.begins hearly)
    have hofficial := planeRun_official codec (run ++ [event])
    obtain ⟨hkept, -, hcases⟩ := @planeRun_step codec _ extends_rule kept_fresh run event
    rcases hcases with hsame | ⟨book₀, draft, env, inner', hkept₀, hgrow, hbuilt, heffects, hbook⟩ |
      ⟨op, env, hevents, hbook⟩
    · rw [hsame]
      exact hagrees
    · have hlast : appliedEntry draft (planeRun codec run).system.book.store ∈
          (planeRun codec (run ++ [event])).system.book.journal := by
        rw [hbook]
        exact List.mem_append_right _ (List.mem_singleton_self _)
      rw [hbook] at hofficial ⊢
      exact heffects.readModelAgrees (Command.build_updates hbuilt.build) (draft_companyId hkept₀ hbuilt)
        hkept.keyed hofficial (h.reach _ hlast)
        (fun doc hdoc => (hreads _ hlast doc hdoc).back (h.numbers _ hlast doc hdoc)) hagrees
    · have hspares := h.spares run.length (by simp)
      simp only [List.take_left, List.getElem_concat_length] at hspares
      rw [hbook]
      exact hagrees.operate (hspares.appended hevents)

end Runs

/-! ### A draft that is overtaken -/

/-- A device's draft of an expense. -/
def rentDraft : MutationRecord :=
  { id := "m-1"
    mutationType := .createDocument
    docType := "Expense"
    documentId := "EX-1"
    payload := [("docstatus", .int 0), ("payload", .object [("expense_account", .string "Rent")])]
    deviceId := "dev-a"
    userId := "u"
    localTimestamp := 0
    syncVersion := none
    status := .pending }

/-- The steps of a command on the plane. -/
def PlaneEvent.whole (command : Command) (position : Nat) (env : Env) : List PlaneEvent :=
  [.call 1 ⟨some 7, some 5, none⟩ command, .advanceCall position env, .advanceCall position env,
    .advanceCall position env]

/-- A member's device pushes the draft, and the expense is submitted once the push has taken `steps` of
its six steps. -/
def draftAndSubmit (steps : Nat) : List PlaneEvent :=
  let env : Env := ⟨0, "2026-01-05", 0⟩
  [.setRole 7 1 (some .sales), .push ⟨7, 1, some 5⟩ 1 [rentDraft]] ++
    List.replicate steps (.advance 0 env) ++ PlaneEvent.whole rentExpense 0 env ++
    List.replicate (6 - steps) (.advance 0 env)

/-- The draft, the submit and a cancel, one after the other. -/
theorem read_model_agrees_rent :
    (planeRun serdeCodec (draftAndSubmit 6 ++ PlaneEvent.whole (.cancel ⟨"Expense", "EX-1", none⟩) 1
      ⟨0, "2026-01-05", 0⟩)).system.book.journal.length = 2 ∧
    ∀ run, run <+: draftAndSubmit 6 ++ PlaneEvent.whole (.cancel ⟨"Expense", "EX-1", none⟩) 1
      ⟨0, "2026-01-05", 0⟩ → (planeRun serdeCodec run).system.book.store.ReadModelAgrees :=
  ⟨by decide +kernel, read_model_agrees serdeCodec _ (by decide +kernel)
    ⟨by decide +kernel, by decide +kernel, by decide +kernel⟩⟩

/-- The push has made its checks when the expense is submitted: it puts the draft over the official
row. -/
theorem draft_overwrites_official :
    ¬ (planeRun serdeCodec (draftAndSubmit 5)).system.book.store.ReadModelAgrees := by
  intro h
  have hstatus : (AList.lookup (1, "Expense", "EX-1")
      (planeRun serdeCodec (draftAndSubmit 5)).system.book.store.documents).map
        (fun doc => doc.docstatus) = some 1 := by decide +kernel
  have hrow : (AList.lookup (1, "Expense", "EX-1")
      (planeRun serdeCodec (draftAndSubmit 5)).system.book.store.companyDocuments).map
        (fun row => row.docstatus) = some 0 := by decide +kernel
  obtain ⟨doc, hdoc, hsubmitted⟩ := Option.map_eq_some_iff.1 hstatus
  obtain ⟨row, hlookup, hshows⟩ := h _ doc hdoc
  rw [hlookup, Option.map_some, hshows.docstatus, hsubmitted] at hrow
  cases hrow

end AtlasTeam
