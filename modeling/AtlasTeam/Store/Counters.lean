import AtlasTeam.Store.LostNumbers
import AtlasTeam.Store.NumberCheck

/-!
# Counters that stay in range

A series counter is an `i64` that commits increment and that take-ons and reports of lost numbers raise.
A take-on's number is at most 999999999, a report's is any positive `i64`. `counters_below_max` is the
exact condition for every counter of a run to stay below `i64::MAX`; `counter_at_max` raises one to it
with a single report.
-/

namespace AtlasTeam

/-- How many numbers a series gave out. -/
def Book.allocated (book : Book Inner) (company : Uuid) (key : String) : Nat :=
  book.journal.countP fun entry => entry.companyId = company ∧ entry.command.allocates = some key

/-- The numbers a series gives out in a run after its beginning `run`. -/
def allocatedAfter (codec : Codec) (run events : List (Event MemOp)) (company : Uuid) (key : String) :
    Int :=
  (memRun codec events).book.allocated company key - (memRun codec run).book.allocated company key

/-- A record of a report whose document the server does not have names `v` in the series. -/
def LostRecord.Raises (inner : Inner) (company : Uuid) (key : String) (v : Int) (record : LostRecord) :
    Prop :=
  AList.lookup (company, record.doctype, record.documentId) inner.documents = none ∧
    record.number.bind (floorFor record.doctype) = some (key, v)

/-- An event after the run `run` raises a series to `v`: it applies a take-on whose series goes on after
`v`, or it is a new report of `v`. -/
inductive RaisedTo (codec : Codec) (run : List (Event MemOp)) (event : Event MemOp) (company : Uuid)
    (key : String) (v : Int) : Prop where
  | takeOn (entry : Entry Inner)
      (applied : (memRun codec (run ++ [event])).book.journal = (memRun codec run).book.journal ++ [entry])
      (here : entry.companyId = company) (continues : (key, v) ∈ entry.command.continues)
  | report (report : LostHistoryReport) (audit : AuditEntry) (env : Env)
      (reported : event = .operate (.lostHistory company report audit) env)
      (new : AList.lookup (company, report.recoveryId)
        (memRun codec run).book.store.historyRecoveries = none)
      (record : LostRecord) (lost : record ∈ report.lost)
      (raises : record.Raises (memRun codec run).book.store company key v)

/-- The numbers a series gives out from 1 on, and those it gives out after it was raised, end below
`i64::MAX`. -/
structure RoomLeft (codec : Codec) (events : List (Event MemOp)) (company : Uuid) (key : String) :
    Prop where
  start : allocatedAfter codec [] events company key < maxI64
  raised : ∀ run event, run ++ [event] <+: events → ∀ v, RaisedTo codec run event company key v →
    v + allocatedAfter codec (run ++ [event]) events company key < maxI64

/-! ### What a report raises -/

/-- A gathered floor is the number of some record whose document is gone. -/
theorem LostOutcome.mem_floors_foldl {acc : LostOutcome}
    {entries : List (LostRecord × Bool × Option String)} {key : String} {v : Int}
    (h : (key, v) ∈ (entries.foldl lostStep acc).floors) :
    (key, v) ∈ acc.floors ∨ ∃ record holder, (record, false, holder) ∈ entries ∧
      record.number.bind (floorFor record.doctype) = some (key, v) := by
  induction entries generalizing acc with
  | nil => exact .inl h
  | cons entry entries ih =>
    rcases ih h with h | ⟨record, holder, hmem, hfloor⟩
    swap
    · exact .inr ⟨record, holder, List.mem_cons_of_mem _ hmem, hfloor⟩
    obtain ⟨record, present, holder⟩ := entry
    cases present with
    | true => exact .inl h
    | false =>
      simp only [lostStep, Bool.false_eq_true, if_false] at h
      cases hraised : record.number.bind (floorFor record.doctype) with
      | none =>
        rw [hraised] at h
        exact .inl h
      | some raised =>
        obtain ⟨key', value⟩ := raised
        rw [hraised] at h
        rcases SortedMap.Raw.mem_put h with heq | h
        · obtain ⟨rfl, rfl⟩ := Prod.mk.inj heq
          obtain ⟨number, -, hnumber⟩ := Option.bind_eq_some_iff.1 hraised
          have hpos : 0 < value := (floorFor_eq_some hnumber).2.1
          rcases le_total value ((acc.floors.lookup key).getD 0) with hle | hle
          · -- an earlier record set a floor at least as high
            rw [max_eq_left hle]
            exact .inl (acc.floor_mem (hpos.trans_le hle))
          · rw [max_eq_right hle]
            exact .inr ⟨record, holder, List.mem_cons_self, hraised⟩
        · exact .inl h

theorem Inner.mem_lostFloors {inner : Inner} {company : Uuid} {report : LostHistoryReport} {key : String}
    {v : Int} (h : (key, v) ∈ inner.lostFloors company report) :
    ∃ record ∈ report.lost, record.Raises inner company key v := by
  rcases LostOutcome.mem_floors_foldl h with h | ⟨record, holder, hmem, hfloor⟩
  · cases h
  · rw [List.zip_eq_zipWith, List.zipWith_map_right, List.zipWith_self, List.mem_map] at hmem
    obtain ⟨record', hrecord, heq⟩ := hmem
    obtain ⟨rfl, hfound⟩ := Prod.mk.inj heq
    refine ⟨record', hrecord, ?_, hfloor⟩
    rw [← Option.not_isSome_iff_eq_none, Bool.not_eq_true]
    exact congrArg Prod.fst hfound

/-! ### One event -/

section Steps
variable {codec : Codec} {events : List (Event MemOp)} {company : Uuid} {key : String}

@[simp] theorem allocatedAfter_self (events : List (Event MemOp)) :
    allocatedAfter codec events events company key = 0 := sub_self _

theorem Inner.mem_floorsOn {floors : List (String × Int)} {v : Int} :
    v ∈ Inner.floorsOn key floors ↔ (key, v) ∈ floors := by
  simp only [Inner.floorsOn, List.mem_map, List.mem_filter, decide_eq_true_eq]
  constructor
  · rintro ⟨⟨key', v'⟩, ⟨hmem, rfl⟩, rfl⟩
    exact hmem
  · intro hmem
    exact ⟨(key, v), ⟨hmem, rfl⟩, rfl⟩

/-- An applied commit gives out its number and then raises its floors. -/
theorem counter_applied {book₀ book : Book Inner} {draft : Draft Inner} {env : Env} {inner' : Inner}
    (hbuilt : Draft.Built codec (memBackend codec) (.all MemOp) book₀ draft)
    (heffects : Inner.Effects codec env draft.commit book.store inner') (company : Uuid) (key : String) :
    inner'.series.counter company key =
      (if draft.companyId = company then Inner.floorsOn key draft.command.continues else []).foldl max
        (book.store.series.counter company key +
          if draft.companyId = company ∧ draft.command.allocates = some key then 1 else 0) := by
  obtain ⟨hseries, -, hfloors⟩ := built_numbering hbuilt
  have hcompany : draft.commit.companyId = draft.companyId :=
    (Command.build_new_or_cancel hbuilt.build).1
  have happlied := heffects.applied
  by_cases hsame : draft.companyId = company
  · rw [← hsame, ← hcompany, happlied.counter key, hfloors, hseries, if_pos rfl]
    simp only [true_and]
    split_ifs
    · rfl
    · rw [add_zero]
  · rw [if_neg hsame, if_neg fun h => hsame h.1, List.foldl_nil, add_zero]
    exact happlied.counter_ne (fun h => hsame (hcompany.symm.trans h.symm)) key

/-- Another operation raises a series to the numbers of a new report, or leaves it. -/
theorem counter_operate (op : MemOp) (env : Env) (inner : Inner) (company : Uuid) (key : String) :
    ((memBackend codec).operate env op inner).series.counter company key =
        inner.series.counter company key ∧
      (∀ report audit, op = .lostHistory company report audit →
        AList.lookup (company, report.recoveryId) inner.historyRecoveries ≠ none) ∨
    ∃ report audit, op = .lostHistory company report audit ∧
      AList.lookup (company, report.recoveryId) inner.historyRecoveries = none ∧
      ((memBackend codec).operate env op inner).series.counter company key =
        (Inner.floorsOn key (inner.lostFloors company report)).foldl max
          (inner.series.counter company key) := by
  obtain ⟨company', report, audit, rfl, hnew, hseries⟩ | ⟨hreplay, hseries⟩ := operate_series codec env op inner
  · rw [hseries]
    by_cases hcompany : company = company'
    · subst hcompany
      exact .inr ⟨report, audit, rfl, hnew, Inner.raiseFloors_counter company _ _ key⟩
    · refine .inl ⟨Inner.raiseFloors_counter_ne hcompany _ _ key, fun report' audit' heq => ?_⟩
      exact absurd (MemOp.lostHistory.inj heq).1.symm hcompany
  · rw [hseries]
    exact .inl ⟨rfl, fun report audit heq => hreplay company report audit heq⟩

/-- What an event does to a counter: it gives out the next number or none, and then raises the counter
to some values. -/
theorem counter_step (codec : Codec) (run : List (Event MemOp)) (event : Event MemOp) (company : Uuid)
    (key : String) :
    ∃ raised : List Int,
      (memRun codec (run ++ [event])).book.store.series.counter company key =
        raised.foldl max ((memRun codec run).book.store.series.counter company key +
          allocatedAfter codec run (run ++ [event]) company key) ∧
      0 ≤ allocatedAfter codec run (run ++ [event]) company key ∧
      (∀ v ∈ raised, RaisedTo codec run event company key v) ∧
      ∀ v, RaisedTo codec run event company key v →
        v ≤ (memRun codec (run ++ [event])).book.store.series.counter company key := by
  have hnone : ∀ {journal : List (Entry Inner)} {entry : Entry Inner}, journal ≠ journal ++ [entry] := by
    intro journal entry h
    simpa using congrArg List.length h
  rcases @memRun_step codec _ _ extends_rule kept_fresh run (fun event _ => event.allowed_all) event with
    ⟨hevent, hbook⟩ | ⟨hevent, book₀, draft, env, inner', -, -, hbuilt, heffects, hbook⟩ |
      ⟨op, env, rfl, hbook⟩
  · have hzero : allocatedAfter codec run (run ++ [event]) company key = 0 := by
      rw [allocatedAfter, hbook, sub_self]
    rw [hzero, hbook, add_zero]
    refine ⟨[], rfl, le_refl _, fun v hv => absurd hv List.not_mem_nil, fun v hv => ?_⟩
    cases hv with
    | takeOn entry applied here continues => exact absurd (hbook ▸ applied) hnone
    | report report audit env reported new record lost raises => exact absurd reported (hevent _ _)
  · have hallocated : allocatedAfter codec run (run ++ [event]) company key =
        if draft.companyId = company ∧ draft.command.allocates = some key then 1 else 0 := by
      rw [allocatedAfter, hbook]
      simp only [Book.allocated, List.countP_append, List.countP_singleton, decide_eq_true_eq,
        appliedEntry]
      split_ifs <;> simp
    have hcounter := @counter_applied codec _ (memRun codec run).book _ _ _ hbuilt heffects company key
    rw [hallocated, hbook]
    refine ⟨_, hcounter, ?_, fun v hv => ?_, fun v hv => ?_⟩
    · split_ifs <;> decide
    · split_ifs at hv with hcompany
      · exact .takeOn _ (by rw [hbook]) hcompany (Inner.mem_floorsOn.1 hv)
      · cases hv
    · cases hv with
      | takeOn entry applied here continues =>
        rw [hbook] at applied
        obtain rfl := (List.cons.inj (List.append_cancel_left applied)).1
        refine hcounter ▸ HighWater.le_foldl_max_of_mem ?_ _
        rw [if_pos (show draft.companyId = company from here)]
        exact Inner.mem_floorsOn.2 continues
      | report report audit env reported new record lost raises => exact absurd reported (hevent _ _)
  · have hzero : allocatedAfter codec run (run ++ [Event.operate op env]) company key = 0 := by
      rw [allocatedAfter, hbook]
      exact sub_self _
    rw [hzero, hbook, add_zero]
    rcases @counter_operate codec op env (memRun codec run).book.store company key with
      ⟨hsame, hold⟩ | ⟨report, audit, rfl, hnew, hcounter⟩
    · refine ⟨[], hsame, le_refl _, fun v hv => absurd hv List.not_mem_nil, fun v hv => ?_⟩
      cases hv with
      | takeOn entry applied here continues => exact absurd (hbook ▸ applied) hnone
      | report report audit env' reported new record lost raises =>
        obtain ⟨rfl, -⟩ := Event.operate.inj reported
        exact absurd new (hold report audit rfl)
    · refine ⟨_, hcounter, le_refl _, fun v hv => ?_, fun v hv => ?_⟩
      · obtain ⟨record, hrecord, hraises⟩ := Inner.mem_lostFloors (Inner.mem_floorsOn.1 hv)
        exact .report report audit env rfl hnew record hrecord hraises
      · cases hv with
        | takeOn entry applied here continues => exact absurd (hbook ▸ applied) hnone
        | report report' audit' env' reported new record lost raises =>
          obtain ⟨hop, -⟩ := Event.operate.inj reported
          obtain ⟨-, rfl, -⟩ := MemOp.lostHistory.inj hop
          rw [hcounter, ← Inner.raiseFloors_counter]
          exact le_counter_of_reached (.inr ⟨record, lost, raises.1, v, raises.2, le_refl v⟩)

/-! ### Counters of a run -/

theorem allocatedAfter_trans (run run' events : List (Event MemOp)) :
    allocatedAfter codec run events company key =
      allocatedAfter codec run run' company key + allocatedAfter codec run' events company key := by
  simp only [allocatedAfter]
  omega

theorem allocatedAfter_nonneg (codec : Codec) (run later : List (Event MemOp)) (company : Uuid)
    (key : String) : 0 ≤ allocatedAfter codec run (run ++ later) company key := by
  induction later using List.reverseRecOn with
  | nil => simp
  | append_singleton later event ih =>
    obtain ⟨-, -, hstep, -⟩ := counter_step codec (run ++ later) event company key
    rw [← List.append_assoc, allocatedAfter_trans run (run ++ later)]
    omega

/-- A counter rises at least by the numbers it gives out. -/
theorem counter_rises (codec : Codec) (run later : List (Event MemOp)) (company : Uuid) (key : String) :
    (memRun codec run).book.store.series.counter company key +
        allocatedAfter codec run (run ++ later) company key ≤
      (memRun codec (run ++ later)).book.store.series.counter company key := by
  induction later using List.reverseRecOn with
  | nil => simp
  | append_singleton later event ih =>
    obtain ⟨raised, hcounter, -, -, -⟩ := counter_step codec (run ++ later) event company key
    have hbase := HighWater.le_foldl_max raised
      ((memRun codec (run ++ later)).book.store.series.counter company key +
        allocatedAfter codec (run ++ later) (run ++ later ++ [event]) company key)
    rw [← hcounter] at hbase
    rw [← List.append_assoc, allocatedAfter_trans run (run ++ later)]
    omega

theorem counter_nonneg (codec : Codec) (run : List (Event MemOp)) (company : Uuid) (key : String) :
    0 ≤ (memRun codec run).book.store.series.counter company key := by
  have hrises := counter_rises codec [] run company key
  have hallocated := allocatedAfter_nonneg codec [] run company key
  have hfresh : (memRun codec []).book.store.series.counter company key = 0 := rfl
  rw [List.nil_append] at hrises hallocated
  omega

/-- In every run, all series counters stay below `i64::MAX` in every state reached, so that the next
number is a positive `i64`, exactly if the numbers each series gives out from 1 on, and those it gives out
after a take-on or a new report raised it, end below `i64::MAX`. -/
theorem counters_below_max (codec : Codec) (events : List (Event MemOp)) :
    (∀ run, run <+: events → ∀ company key,
      (memRun codec run).book.store.series.counter company key < maxI64 ∧
        0 < (memRun codec run).book.store.series.counter company key + 1) ↔
      ∀ company key, RoomLeft codec events company key := by
  constructor
  · intro h company key
    obtain ⟨hbelow, -⟩ := h events List.prefix_rfl company key
    refine ⟨?_, ?_⟩
    · have hrises := counter_rises codec [] events company key
      have hfresh : (memRun codec []).book.store.series.counter company key = 0 := rfl
      rw [List.nil_append] at hrises
      omega
    · rintro run event ⟨later, rfl⟩ v hraised
      obtain ⟨-, -, -, -, hreached⟩ := counter_step codec run event company key
      have hv := hreached v hraised
      have hrises := counter_rises codec (run ++ [event]) later company key
      omega
  · intro h run hrun company key
    refine ⟨?_, by have := counter_nonneg codec run company key; omega⟩
    have hroom := h company key
    -- the numbers still to come fit on top of the counter
    suffices hfits : (memRun codec run).book.store.series.counter company key +
        allocatedAfter codec run events company key < maxI64 by
      obtain ⟨later, rfl⟩ := hrun
      have hallocated := allocatedAfter_nonneg codec run later company key
      omega
    induction run using List.reverseRecOn with
    | nil =>
      have hfresh : (memRun codec []).book.store.series.counter company key = 0 := rfl
      rw [hfresh, zero_add]
      exact hroom.start
    | append_singleton run event ih =>
      have hfits := ih ((List.prefix_append _ _).trans hrun)
      obtain ⟨raised, hcounter, -, hsource, -⟩ := counter_step codec run event company key
      rw [allocatedAfter_trans run (run ++ [event])] at hfits
      have hle : raised.foldl max ((memRun codec run).book.store.series.counter company key +
          allocatedAfter codec run (run ++ [event]) company key) ≤
            maxI64 - 1 - allocatedAfter codec (run ++ [event]) events company key := by
        refine HighWater.foldl_max_le (by omega) fun v hv => ?_
        have := hroom.raised run event hrun v (hsource v hv)
        omega
      rw [← hcounter] at hle
      omega

end Steps

/-- A device reports an invoice under the largest number an `i64` holds. -/
def reportMaxNumber : List (Event MemOp) :=
  [.operate (.lostHistory 1
    { recoveryId := "recovery-1"
      lost := [{ doctype := "Sales Invoice", documentId := "inv-1", number := some "SINV-9223372036854775807",
                 postingDate := none, total := none }] } lostSaleAudit) ⟨0, "2026-01-05", 0⟩]

theorem counter_at_max : ¬ ∀ run, run <+: reportMaxNumber → ∀ company key,
    (memRun serdeCodec run).book.store.series.counter company key < maxI64 ∧
      0 < (memRun serdeCodec run).book.store.series.counter company key + 1 := by
  intro h
  have hmax : (memRun serdeCodec reportMaxNumber).book.store.series.counter 1 "SINV" = maxI64 := by
    decide +kernel
  have hbelow := (h reportMaxNumber List.prefix_rfl 1 "SINV").1
  rw [hmax] at hbelow
  exact lt_irrefl _ hbelow

end AtlasTeam
