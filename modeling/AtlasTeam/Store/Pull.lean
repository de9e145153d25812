import AtlasTeam.Store.SyncLog

/-!
# Paged pulls

A device reads the log of its company page by page, and other devices and postings append to it between
the calls. In a log that is kept, the records past a cursor are the log without its first `after` entries
(`Counts.filter_lt`), so a page is a piece of the log and the cursor counts what the device has
(`Holds`). One call keeps that (`Holds.pull`), an append does (`Holds.append`), and `pull_exactly_once`
holds it in every run.
-/

namespace AtlasTeam

structure MutationPage where
  mutations : List MutationRecord
  hasMore : Bool
  head : Int

/-- A logged record as it is sent: with the version the log gave it. -/
def StoredMutation.pulled (m : StoredMutation) : MutationRecord :=
  { m.record with syncVersion := some (toString m.version) }

namespace SyncLog

/-- `MemStore::pull_mutations`. -/
def pullMutations (company : Uuid) (after limit : Int) (log : SyncLog) : MutationPage :=
  let rows := log.mutations.log company
  let head := ((rows.map StoredMutation.version).max?).getD 0
  let out := ((rows.filter fun m => after < m.version).map fun m => (m.version, m.pulled))
  let out := out.insertionSort fun a b => a.1 ≤ b.1
  let limit := limit.toNat
  { mutations := (out.take limit).map Prod.snd
    hasMore := limit < out.length
    head }

end SyncLog

/-- `sync_pull`'s page size: at most the server's, which is also the default. -/
def pullLimit (maxPageSize : {size : Int // 0 < size}) (limit : Option Int) : Int :=
  match limit with
  | some limit => if 0 < limit then min limit maxPageSize else maxPageSize
  | none => maxPageSize

/-- `sync_pull` past its authorization. -/
def syncPull (maxPageSize : {size : Int // 0 < size}) (company : Uuid) (after limit : Option Int)
    (log : SyncLog) : MutationPage :=
  log.pullMutations company (after.getD 0) (pullLimit maxPageSize limit)

/-- Whatever a request asks for, its page has room for a record. -/
theorem pullLimit_pos (maxPageSize : {size : Int // 0 < size}) (limit : Option Int) :
    1 ≤ pullLimit maxPageSize limit := by
  have hmax := maxPageSize.2
  unfold pullLimit
  split
  · split_ifs <;> omega
  · omega

/-! ### The device -/

/-- What a pulling device keeps: its cursor and the records it has got. -/
structure PullDevice where
  after : Int := 0
  received : List MutationRecord := []

/-- The device takes a page and moves its cursor to the last `syncVersion` on it. -/
def PullDevice.receive (device : PullDevice) (page : MutationPage) : PullDevice where
  after := ((page.mutations.getLast?.bind MutationRecord.syncVersion).bind String.toInt?).getD
    device.after
  received := device.received ++ page.mutations

inductive PullEvent where
  /-- Somebody appends to the log of some company. -/
  | append (batch : Batch)
  /-- The device asks for the next page. -/
  | pull (limit : Int)

structure Pulling where
  log : SyncLog := {}
  device : PullDevice := {}

def Pulling.step (codec : Codec) (company : Uuid) (state : Pulling) : PullEvent → Pulling
  | .append batch => { state with log := state.log.append codec batch }
  | .pull limit =>
    let page := state.log.pullMutations company state.device.after limit
    { state with device := state.device.receive page }

/-- A device of a company pulls from an empty cursor while anybody appends. -/
def pullRun (codec : Codec) (company : Uuid) (events : List PullEvent) : Pulling :=
  events.foldl (Pulling.step codec company) {}

/-! ### One call -/

section Page
variable {log : SyncLog} {company : Uuid}

/-- The newest version of a kept log is its length. -/
theorem SyncLog.Kept.head_eq (h : Kept log company) :
    (((log.mutations.log company).map StoredMutation.version).max?).getD 0 =
      (log.mutations.log company).length := by
  by_cases hempty : log.mutations.log company = []
  · simp [hempty]
  · have hpos := List.length_pos_iff.2 hempty
    have hmax : ((log.mutations.log company).map StoredMutation.version).max? =
        some ((log.mutations.log company).length : Int) := by
      refine List.max?_eq_some_iff.2 ⟨?_, fun version hversion => ?_⟩
      · have hindex : (log.mutations.log company).length - 1 < (log.mutations.log company).length := by
          omega
        refine List.mem_map.2 ⟨_, List.getElem_mem hindex, ?_⟩
        rw [h.counts.get hindex]
        omega
      · obtain ⟨m, hm, rfl⟩ := List.mem_map.1 hversion
        obtain ⟨i, hi, rfl⟩ := List.mem_iff_getElem.1 hm
        rw [h.counts.get hi]
        omega
    rw [hmax, Option.getD_some]

/-- A page of a kept log is the next piece of it. -/
theorem SyncLog.Kept.pullMutations_eq (h : Kept log company) (n : Nat) (limit : Int) :
    log.pullMutations company n limit =
      { mutations := (((log.mutations.log company).drop n).take limit.toNat).map StoredMutation.pulled
        hasMore := limit.toNat < ((log.mutations.log company).drop n).length
        head := (log.mutations.log company).length } := by
  have hsorted : (((log.mutations.log company).drop n).map fun m => (m.version, m.pulled)).Pairwise
      fun a b => a.1 ≤ b.1 := by
    rw [List.pairwise_map]
    exact h.counts.sorted.sublist (List.drop_sublist _ _)
  simp only [pullMutations, h.counts.filter_lt, hsorted.insertionSort_eq, h.head_eq, List.map_take,
    List.map_map, List.length_map]
  rfl

/-- The device has the first records of its company's log, and its cursor counts them. -/
structure PullDevice.Holds (device : PullDevice) (company : Uuid) (log : SyncLog) : Prop where
  after : device.after = device.received.length
  received : device.received =
    ((log.mutations.log company).take device.received.length).map StoredMutation.pulled

variable {device : PullDevice}

/-- What the device has is a prefix of the log. -/
theorem PullDevice.Holds.begins (h : device.Holds company log) :
    device.received <+: (log.mutations.log company).map StoredMutation.pulled := by
  rw [h.received]
  exact (List.take_prefix _ _).map _

/-- Appending takes nothing from the device. -/
theorem PullDevice.Holds.append (h : device.Holds company log) (codec : Codec) (batch : Batch) :
    device.Holds company (log.append codec batch) := by
  refine ⟨h.after, ?_⟩
  obtain ⟨rows, hrows⟩ := SyncLog.appendMutations_prefix codec batch.env batch.company batch.records
    log company
  have hlength : device.received.length ≤ (log.mutations.log company).length := by
    have hreceived := congrArg List.length h.received
    simp only [List.length_map, List.length_take] at hreceived
    omega
  rw [SyncLog.append, ← hrows, List.take_append_of_le_length hlength]
  exact h.received

/-- The cursor after a page is the version of the last record on it. -/
theorem PullDevice.Holds.receive_after (h : device.Holds company log) (hkept : log.Kept company)
    {page : MutationPage} {limit : Nat} (hpage : page.mutations =
      (((log.mutations.log company).drop device.received.length).take limit).map
        StoredMutation.pulled) :
    (device.receive page).after = device.received.length + page.mutations.length := by
  rcases Nat.eq_zero_or_pos page.mutations.length with hzero | hpos
  · have hnil := List.eq_nil_of_length_eq_zero hzero
    simp [PullDevice.receive, hnil, h.after]
  · have hlength := congrArg List.length hpage
    simp only [List.length_map, List.length_take, List.length_drop] at hlength
    have hindex : device.received.length + page.mutations.length - 1 <
        (log.mutations.log company).length := by
      omega
    have hget : ∀ i < page.mutations.length, page.mutations[i]? =
        ((log.mutations.log company)[device.received.length + i]?).map StoredMutation.pulled := by
      intro i hi
      rw [hpage, List.getElem?_map, List.getElem?_take, if_pos (by omega), List.getElem?_drop]
    have hlast : page.mutations.getLast? = some
        ((log.mutations.log company)[device.received.length + page.mutations.length - 1]).pulled := by
      rw [List.getLast?_eq_getElem?, hget _ (by omega), ← Nat.add_sub_assoc hpos,
        List.getElem?_eq_getElem hindex, Option.map_some]
    have hversion : ((page.mutations.getLast?.bind MutationRecord.syncVersion).bind
        String.toInt?) = some ((device.received.length + page.mutations.length : Nat) : Int) := by
      rw [hlast, Option.bind_some, StoredMutation.pulled, Option.bind_some, hkept.counts.get hindex]
      have hcast : ((device.received.length + page.mutations.length - 1 : Nat) : Int) + 1 =
          ((device.received.length + page.mutations.length : Nat) : Int) := by
        omega
      rw [hcast]
      exact Int.toInt?_repr _
    rw [PullDevice.receive, hversion, Option.getD_some]
    push_cast
    rfl

/-- A call: the device gets as much of the log as the page has room for, and `has_more` says whether any is
left. -/
theorem PullDevice.Holds.pull (h : device.Holds company log) (hkept : log.Kept company)
    {limit : Int} (hlimit : 1 ≤ limit) :
    let page := log.pullMutations company device.after limit
    let device' := device.receive page
    device'.Holds company log ∧
    page.mutations.length =
      min limit.toNat ((log.mutations.log company).length - device.received.length) ∧
    (page.hasMore = true ↔ ∃ m ∈ log.mutations.log company, device'.after < m.version) ∧
    (page.hasMore = false →
      device'.received = (log.mutations.log company).map StoredMutation.pulled) := by
  intro page device'
  have heq := hkept.pullMutations_eq device.received.length limit
  rw [← h.after] at heq
  have hmutations : page.mutations =
      (((log.mutations.log company).drop device.received.length).take limit.toNat).map
        StoredMutation.pulled := by
    rw [show page = _ from heq]
  have hmore : page.hasMore = true ↔
      limit.toNat < (log.mutations.log company).length - device.received.length := by
    rw [show page = _ from heq]
    simp
  have hafter : device'.after = device.received.length + page.mutations.length :=
    h.receive_after hkept hmutations
  have hcount := congrArg List.length hmutations
  simp only [List.length_map, List.length_take, List.length_drop] at hcount
  have hlength : device'.received.length = device.received.length + page.mutations.length :=
    List.length_append
  have hreceived : device'.received =
      ((log.mutations.log company).take device'.received.length).map StoredMutation.pulled := by
    have htake : ((log.mutations.log company).drop device.received.length).take limit.toNat =
        ((log.mutations.log company).drop device.received.length).take page.mutations.length := by
      rw [hcount, List.take_eq_take_iff]
      simp
    rw [hlength, List.take_add, List.map_append, ← h.received, ← htake, ← hmutations]
    rfl
  refine ⟨⟨?_, hreceived⟩, hcount, ?_, ?_⟩
  · rw [hafter, hlength]
    push_cast
    rfl
  · rw [hmore, hafter]
    constructor
    · intro hlt
      have hindex : device.received.length + page.mutations.length <
          (log.mutations.log company).length := by
        omega
      refine ⟨_, List.getElem_mem hindex, ?_⟩
      rw [hkept.counts.get hindex]
      push_cast
      omega
    · rintro ⟨m, hm, hlt⟩
      obtain ⟨i, hi, rfl⟩ := List.mem_iff_getElem.1 hm
      rw [hkept.counts.get hi] at hlt
      omega
  · intro hdone
    have hall : (log.mutations.log company).length ≤ device'.received.length := by
      have hnot := hmore.not.1 (by rw [hdone]; exact Bool.false_ne_true)
      omega
    rw [hreceived, List.take_of_length_le hall]

end Page

/-! ### Every run -/

/-- In every run the device has the first records of its company's log. -/
theorem pullRun_holds (codec : Codec) (company : Uuid) (events : List PullEvent)
    (hlimits : ∀ limit, .pull limit ∈ events → 1 ≤ limit) :
    (pullRun codec company events).log.Kept company ∧
    (pullRun codec company events).device.Holds company (pullRun codec company events).log := by
  induction events using List.reverseRecOn with
  | nil => exact ⟨SyncLog.kept_empty company, rfl, by simp [pullRun]⟩
  | append_singleton events event ih =>
    obtain ⟨hkept, hholds⟩ := ih fun limit hmem => hlimits limit (List.mem_append_left _ hmem)
    rw [pullRun, List.foldl_append, ← pullRun]
    cases event with
    | append batch => exact ⟨hkept.appendMutations batch.records, hholds.append codec batch⟩
    | pull limit =>
      have hlimit := hlimits limit (List.mem_append_right _ (List.mem_singleton_self _))
      exact ⟨hkept, (hholds.pull hkept hlimit).1⟩

/-- A device that pulls from 0 on, with a limit of its choice at every call and appends in between, has at
any time the first records of its company's log, whose versions run from 1, each with its version and
none twice. Its next call brings it as many further records as the limit allows and the log has, so that
nothing is held back; `has_more` says exactly whether the log holds a version beyond the page, and when it
does not, the device has the whole log. -/
theorem pull_exactly_once (codec : Codec) (company : Uuid) (events : List PullEvent)
    (hlimits : ∀ limit, .pull limit ∈ events → 1 ≤ limit) :
    let state := pullRun codec company events
    let rows := state.log.mutations.log company
    state.device.received <+: rows.map StoredMutation.pulled ∧
    rows.map StoredMutation.version = (List.range rows.length).map (fun (i : Nat) => (i : Int) + 1) ∧
    (rows.map fun m => m.record.id).Nodup ∧
    ∀ limit, 1 ≤ limit →
      let page := state.log.pullMutations company state.device.after limit
      let device' := state.device.receive page
      page.mutations.length = min limit.toNat (rows.length - state.device.received.length) ∧
      device'.received <+: rows.map StoredMutation.pulled ∧
      (page.hasMore = true ↔ ∃ m ∈ rows, device'.after < m.version) ∧
      (page.hasMore = false → device'.received = rows.map StoredMutation.pulled) := by
  intro state rows
  obtain ⟨hkept, hholds⟩ := pullRun_holds codec company events hlimits
  refine ⟨hholds.begins, hkept.versions, hkept.ids, fun limit hlimit => ?_⟩
  obtain ⟨hafter, hpage⟩ := hholds.pull hkept hlimit
  exact ⟨hpage.1, hafter.begins, hpage.2⟩

/-- Two records, a page of one, a third record and a page that has room for the rest. -/
def interleavedPulls : List PullEvent :=
  let env : Env := ⟨0, "2026-01-01T00:00:00Z", 0⟩
  let record id : MutationRecord :=
    ⟨id, .createDocument, "Note", id, [], "till", "anna", 0, none, .pending⟩
  [.append ⟨1, env, [record "a", record "b"]⟩, .pull 1, .append ⟨1, env, [record "c"]⟩, .pull 5]

/-- The second page of `interleavedPulls` brings the two records that were left. -/
theorem pull_exactly_once_interleaved :
    let before := pullRun serdeCodec 1 (interleavedPulls.take 3)
    let page := before.log.pullMutations 1 before.device.after 5
    page.mutations.length = 2 ∧ (before.device.receive page).received =
      (before.log.mutations.log 1).map StoredMutation.pulled := by
  intro before page
  have hlimits : ∀ limit, .pull limit ∈ interleavedPulls.take 3 → 1 ≤ limit := by
    intro limit hmem
    simp only [interleavedPulls, List.take_succ_cons, List.take_zero, List.mem_cons, List.not_mem_nil,
      or_false, reduceCtorEq, false_or, PullEvent.pull.injEq] at hmem
    omega
  obtain ⟨-, -, -, hcall⟩ := pull_exactly_once serdeCodec 1 (interleavedPulls.take 3) hlimits
  obtain ⟨hlength, hbegins, -⟩ := hcall 5 (by decide)
  have hlogged : (before.log.mutations.log 1).length = 3 := by decide +kernel
  have hreceived : before.device.received.length = 1 := by decide +kernel
  rw [hlogged, hreceived] at hlength
  refine ⟨hlength, hbegins.eq_of_length ?_⟩
  rw [PullDevice.receive, List.length_append, hlength, hreceived, List.length_map, hlogged]
  decide

end AtlasTeam
