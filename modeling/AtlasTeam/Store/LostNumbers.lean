import AtlasTeam.Store.UniqueNumbers

/-!
# Lost numbers

A report of lost records raises each series past the numbers it names, so that they are not issued
again. The floor is skipped for a record whose document the server still has, whatever number the
document has there: `lostNumber_reissued` runs into it. `lostNumber_not_reissued` shows that a lost
number stays out of every later run as soon as the series stands at it, or some record that is gone
raises the series to it.
-/

namespace AtlasTeam

/-! ### The floors of a report -/

/-- The floor gathered so far for a series. -/
def LostOutcome.floor (acc : LostOutcome) (key : String) : Int := (acc.floors.lookup key).getD 0

/-- A record lowers no floor. -/
theorem LostOutcome.floor_lostStep (acc : LostOutcome) (entry : LostRecord × Bool × Option String)
    (key : String) : acc.floor key ≤ (lostStep acc entry).floor key := by
  obtain ⟨record, present, holder⟩ := entry
  cases present with
  | true => simp [lostStep, floor]
  | false =>
    simp only [lostStep, floor, Bool.false_eq_true, if_false]
    cases record.number.bind (floorFor record.doctype) with
    | none => exact le_refl _
    | some raised =>
      obtain ⟨key', value⟩ := raised
      by_cases hkey : key = key'
      · subst hkey
        simp [SortedMap.Raw.lookup_put_self]
      · simp [SortedMap.Raw.lookup_put_ne hkey]

theorem LostOutcome.floor_foldl (acc : LostOutcome)
    (entries : List (LostRecord × Bool × Option String)) (key : String) :
    acc.floor key ≤ (entries.foldl lostStep acc).floor key := by
  induction entries generalizing acc with
  | nil => exact le_refl _
  | cons entry entries ih => exact (acc.floor_lostStep entry key).trans (ih _)

/-- A record whose document is gone raises its series to its number. -/
theorem LostOutcome.le_floor_foldl (acc : LostOutcome)
    {entries : List (LostRecord × Bool × Option String)} {record : LostRecord}
    {holder : Option String} (hmem : (record, false, holder) ∈ entries) {key : String} {v : Int}
    (hfloor : record.number.bind (floorFor record.doctype) = some (key, v)) :
    v ≤ (entries.foldl lostStep acc).floor key := by
  induction entries generalizing acc with
  | nil => exact absurd hmem List.not_mem_nil
  | cons entry entries ih =>
    rcases List.mem_cons.1 hmem with rfl | hmem
    · refine le_trans ?_ (floor_foldl _ entries key)
      simp [lostStep, floor, hfloor, SortedMap.Raw.lookup_put_self]
    · exact ih _ hmem

/-- The report leaves the series at or past `v`: it stands there already, or a record that is gone
raises it. -/
def FloorReached (inner : Inner) (company : Uuid) (report : LostHistoryReport) (key : String)
    (v : Int) : Prop :=
  v ≤ inner.series.counter company key ∨
  ∃ record ∈ report.lost, AList.lookup (company, record.doctype, record.documentId)
      inner.documents = none ∧
    ∃ w, record.number.bind (floorFor record.doctype) = some (key, w) ∧ v ≤ w

/-- A gathered floor is one the report raises. -/
theorem LostOutcome.floor_mem {acc : LostOutcome} {key : String} (hpos : 0 < acc.floor key) :
    (key, acc.floor key) ∈ acc.floors := by
  unfold floor at hpos ⊢
  cases hlookup : acc.floors.lookup key with
  | none => simp [hlookup] at hpos
  | some raised =>
    obtain ⟨before, after, hfloors, -⟩ := List.lookup_eq_some_iff.1 hlookup
    simp [hfloors]

/-- After a report the counter stands at every number the report reaches. -/
theorem le_counter_of_reached {inner : Inner} {company : Uuid} {report : LostHistoryReport}
    {key : String} {v : Int} (h : FloorReached inner company report key v) :
    v ≤ (Inner.raiseFloors company (inner.lostFloors company report) inner.series).counter company
      key := by
  rw [Inner.raiseFloors_counter]
  rcases h with hcounter | ⟨record, hrecord, habsent, w, hfloor, hle⟩
  · exact hcounter.trans (HighWater.le_foldl_max _ _)
  · -- the record is among those the loop walks, found absent
    have hmem : (record, inner.findLost company record) ∈
        report.lost.zip (report.lost.map (inner.findLost company)) := by
      rw [List.zip_map_right, List.mem_map]
      exact ⟨(record, record), by simpa [List.zip_eq_zipWith] using hrecord, rfl⟩
    have hfound : inner.findLost company record = (false, (inner.findLost company record).2) := by
      simp [Inner.findLost, habsent]
    rw [hfound] at hmem
    have hgathered := LostOutcome.le_floor_foldl {} hmem hfloor
    obtain ⟨number, -, hnumber⟩ := Option.bind_eq_some_iff.1 hfloor
    have hpos : 0 < w := (floorFor_eq_some hnumber).2.1
    have hraised := LostOutcome.floor_mem (hpos.trans_le hgathered)
    refine (hle.trans hgathered).trans (HighWater.le_foldl_max_of_mem ?_ _)
    exact List.mem_map.2 ⟨_, List.mem_filter.2 ⟨hraised, by simp⟩, rfl⟩

/-! ### Counters along a run -/

/-- The counters do not fall, and what is committed later meets counters at least as high and takes
its series from its doctype. -/
structure Advances (book book' : Book Inner) : Prop where
  counter : ∀ company key,
    book.store.series.counter company key ≤ book'.store.series.counter company key
  journal : ∃ later, book'.journal = book.journal ++ later ∧ ∀ entry ∈ later,
    (∀ company key,
      book.store.series.counter company key ≤ entry.before.series.counter company key) ∧
    ∀ key, entry.commit.seriesKey = some key → ∃ doctype, seriesKey doctype = some key

theorem Advances.of_counter {book book' : Book Inner} (hjournal : book'.journal = book.journal)
    (hcounter : ∀ company key,
      book.store.series.counter company key ≤ book'.store.series.counter company key) :
    Advances book book' :=
  ⟨hcounter, [], by simpa using hjournal, fun _ h => absurd h List.not_mem_nil⟩

theorem Advances.trans {book₁ book₂ book₃ : Book Inner} (h₁ : Advances book₁ book₂)
    (h₂ : Advances book₂ book₃) : Advances book₁ book₃ := by
  obtain ⟨later₁, hjournal₁, hlater₁⟩ := h₁.journal
  obtain ⟨later₂, hjournal₂, hlater₂⟩ := h₂.journal
  refine ⟨fun company key => (h₁.counter company key).trans (h₂.counter company key),
    later₁ ++ later₂, by rw [hjournal₂, hjournal₁, List.append_assoc], fun entry hentry => ?_⟩
  rcases List.mem_append.1 hentry with hentry | hentry
  · exact hlater₁ entry hentry
  · obtain ⟨hcounter, hkey⟩ := hlater₂ entry hentry
    exact ⟨fun company key => (h₁.counter company key).trans (hcounter company key), hkey⟩

section Rule
variable {codec : Codec} {allowed : Allowed MemOp}

/-- A built commit takes its series from its doctype. -/
theorem built_seriesKey {book : Book Inner} {draft : Draft Inner}
    (h : Draft.Built codec (memBackend codec) allowed book draft) {key : String}
    (hkey : draft.commit.seriesKey = some key) : ∃ doctype, seriesKey doctype = some key := by
  have hbuild := h.build
  cases hcommand : draft.command with
  | submit cmd =>
    rw [hcommand] at hbuild
    obtain ⟨prepared, shortfalls, settlements, updates, -, -, -, hcommit⟩ := buildSubmit_ok hbuild
    rw [hcommit] at hkey
    cases hoffline : cmd.offlineFiscal with
    | true => simp [submitCommit, hoffline] at hkey
    | false => exact ⟨cmd.doctype, by simpa [submitCommit, hoffline] using hkey⟩
  | cancel cmd =>
    rw [hcommand] at hbuild
    obtain ⟨doc, postingDate, guard, updates, -, -, -, -, -, hcommit⟩ := buildCancel_ok hbuild
    rw [hcommit] at hkey
    cases hkey
  | takeOn cmd =>
    rw [hcommand] at hbuild
    obtain ⟨postingDate, stock, tb, continuations, -, -, hcommit⟩ := buildOpening_ok hbuild
    rw [hcommit] at hkey
    cases hkey

theorem advances_rule :
    Snapshot.Rule (protocol codec (memBackend codec) allowed) (fun _ => True) Advances where
  refl book := .of_counter rfl fun _ _ => le_refl _
  trans := Advances.trans
  commit := by
    rintro book₀ book _ draft - - - hbuilt ⟨env, rfl⟩
    refine ⟨trivial, ?_⟩
    rcases commit_cases codec env draft book with hsame | ⟨-, inner', happlied, hbook⟩
    · rw [hsame]
      exact .of_counter rfl fun _ _ => le_refl _
    · rw [hbook]
      refine ⟨happlied.counter_mono, [appliedEntry draft book.store], rfl, fun entry hentry => ?_⟩
      obtain rfl := List.mem_singleton.1 hentry
      exact ⟨fun _ _ => le_refl _, fun key hkey => built_seriesKey hbuilt hkey⟩
  other := by
    rintro book _ - ⟨op, env, -, rfl⟩
    exact ⟨trivial, .of_counter rfl (operate_counter codec env op book.store)⟩

end Rule

/-- A series past a number does not issue it. -/
theorem formatNumber_ne_of_lt {doctype doctype' number key key' : String} {v c : Int}
    (hfloor : floorFor doctype number = some (key, v)) (hkey' : seriesKey doctype' = some key')
    (hpast : key' = key → v < c) : formatNumber key' c ≠ number := by
  intro hnumber
  obtain ⟨hkey, hpos, digits, hlist, hvalue⟩ := floorFor_eq_some hfloor
  rw [← hnumber, formatNumber_toList] at hlist
  obtain ⟨hkeys, hdigits⟩ := append_dash_inj (seriesKey_noDash hkey') (seriesKey_noDash hkey) hlist
  have hlt : v < c := hpast (String.toList_inj.1 hkeys)
  rw [← hdigits, digitsValue_pad5 (hpos.trans hlt).le] at hvalue
  omega

/-- The numbers the company's series gave out after the first `n` commits. -/
def seriesNumbersAfter (company : Uuid) (n : Nat) (book : Book Inner) : List String :=
  (book.journal.drop n).filterMap fun entry =>
    if entry.commit.companyId = company ∧ entry.commit.seriesKey.isSome then
      (Inner.numberedDocument entry.commit entry.before).officialNumber
    else none

/-- Books that only advance from a series past a lost number do not give that number out. -/
theorem Advances.number_notMem {book book' : Book Inner} (h : Advances book book') {company : Uuid}
    {doctype number key : String} {v : Int} (hfloor : floorFor doctype number = some (key, v))
    (hpast : v ≤ book.store.series.counter company key) :
    number ∉ seriesNumbersAfter company book.journal.length book' := by
  obtain ⟨later, hjournal, hlater⟩ := h.journal
  intro hmem
  simp only [seriesNumbersAfter, hjournal, List.drop_left, List.mem_filterMap] at hmem
  obtain ⟨entry, hentry, hissued⟩ := hmem
  obtain ⟨hcounter, hseries⟩ := hlater entry hentry
  split_ifs at hissued with hcompany
  obtain ⟨rfl, hsome⟩ := hcompany
  obtain ⟨key', hkey'⟩ := Option.isSome_iff_exists.1 hsome
  obtain ⟨doctype', hdoctype'⟩ := hseries key' hkey'
  rw [Inner.allocateNumber_number hkey', Option.some.injEq] at hissued
  refine formatNumber_ne_of_lt hfloor hdoctype' (fun hkey => ?_) hissued
  subst hkey
  have hbefore := hcounter entry.commit.companyId key'
  omega

/-- A report with a new recovery id that leaves the series at or past a lost number keeps that number
out of every later run. -/
theorem lostNumber_not_reissued (codec : Codec) (early late : List (Event MemOp)) (company : Uuid)
    (report : LostHistoryReport) (audit : AuditEntry) (env : Env)
    (hfresh : AList.lookup (company, report.recoveryId)
      (memRun codec early).book.store.historyRecoveries = none) :
    ∀ record ∈ report.lost, ∀ number key v, record.number = some number →
      floorFor record.doctype number = some (key, v) →
      FloorReached (memRun codec early).book.store company report key v →
      number ∉ seriesNumbersAfter company (memRun codec early).book.journal.length
        (memRun codec (early ++ .operate (.lostHistory company report audit) env :: late)).book := by
  intro record _ number key v _ hfloor hreached
  let reported := early ++ [Event.operate (.lostHistory company report audit) env]
  have hstep : memRun codec reported = (memRun codec early).step codec (memBackend codec)
      (.operate (.lostHistory company report audit) env) := by
    rw [memRun, System.run_append]
    rfl
  have hcounter : v ≤ (memRun codec reported).book.store.series.counter company key := by
    have hstore : (memRun codec reported).book.store =
        ((memRun codec early).book.store.recordLostHistory company report audit).2 := by
      rw [hstep]
      rfl
    rcases Inner.recordLostHistory_cases company report audit (memRun codec early).book.store with
      ⟨stored, hstored, -⟩ | ⟨-, response, recoveries, audits, hrun⟩
    · rw [hfresh] at hstored
      cases hstored
    · rw [hstore, hrun]
      exact le_counter_of_reached hreached
  have hjournal : (memRun codec reported).book.journal = (memRun codec early).book.journal := by
    rw [hstep]
    rfl
  have hadvances : Advances (memRun codec reported).book (memRun codec (reported ++ late)).book :=
    System.growth_of_rule advances_rule trivial (fun event _ => event.allowed_all)
      fun event _ => event.allowed_all
  rw [← hjournal, List.append_cons]
  exact hadvances.number_notMem hfloor hcounter

/-! ### A number lost under a document that is still there -/

/-- A sale of one company, posted on its own. -/
def saleEvents (id : String) (position : Nat) : List (Event MemOp) :=
  Event.whole 1 ⟨some 7, some 5, none⟩ (cashSale id "" false) position ⟨0, "2026-01-05", 0⟩

/-- A device had the sale `id` under the second number of the series. -/
def lostSale (id : String) : LostHistoryReport where
  recoveryId := "recovery-1"
  lost := [{ doctype := "POS Invoice", documentId := id, number := some "POS-00002",
             postingDate := none, total := none }]

def lostSaleAudit : AuditEntry := ⟨0, 1, some 7, some 5, "sync.lost_history", .null, 0⟩

/-- The sale was posted again on the restored server, under the first number: the report skips it,
and the lost number goes to the next sale. -/
theorem lostNumber_reissued :
    AList.lookup (1, "recovery-1") (memRun serdeCodec (saleEvents "sale-1" 0)).book.store.historyRecoveries
      = none ∧
    floorFor "POS Invoice" "POS-00002" = some ("POS", 2) ∧
    (∀ id doc, AList.lookup (1, "POS Invoice", id)
        (memRun serdeCodec (saleEvents "sale-1" 0)).book.store.documents = some doc →
      doc.officialNumber ≠ some "POS-00002") ∧
    "POS-00002" ∈ seriesNumbersAfter 1 (memRun serdeCodec (saleEvents "sale-1" 0)).book.journal.length
      (memRun serdeCodec (saleEvents "sale-1" 0 ++
        .operate (.lostHistory 1 (lostSale "sale-1") lostSaleAudit) ⟨0, "2026-01-05", 0⟩ ::
        saleEvents "sale-2" 1)).book := by
  refine ⟨by decide +kernel, by decide +kernel, fun id doc hdoc hnumber => ?_, by decide +kernel⟩
  have hall : ∀ e ∈ (memRun serdeCodec (saleEvents "sale-1" 0)).book.store.documents.entries,
      e.2.officialNumber ≠ some "POS-00002" := by decide +kernel
  exact hall _ (AList.mem_lookup_iff.1 hdoc) hnumber

/-- A sale that is gone is not forgotten: its number stays out. -/
theorem lostNumber_not_reissued_gone :
    "POS-00002" ∉ seriesNumbersAfter 1 (memRun serdeCodec (saleEvents "sale-1" 0)).book.journal.length
      (memRun serdeCodec (saleEvents "sale-1" 0 ++
        .operate (.lostHistory 1 (lostSale "sale-9") lostSaleAudit) ⟨0, "2026-01-05", 0⟩ ::
        saleEvents "sale-2" 1)).book :=
  lostNumber_not_reissued serdeCodec _ _ 1 (lostSale "sale-9") lostSaleAudit _ (by decide +kernel)
    _ List.mem_cons_self "POS-00002" "POS" 2 rfl (by decide +kernel)
    (.inr ⟨_, List.mem_cons_self, by decide +kernel, 2, by decide +kernel, le_refl _⟩)

end AtlasTeam
