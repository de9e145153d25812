import AtlasTeam.Lib.HighWater
import AtlasTeam.Store.Documents

/-!
# Number series

The counters of the number series under commits and reports of lost numbers. The first half is about
the texts: `floorFor` reads back what `formatNumber` writes, and a number names its series and value.
The second half follows one series of one company through a run of store operations: `observed`
lists the numbers it allocates and the floors raised on it, and `series_gap_free` says which values
these numbers carry.
-/

namespace AtlasTeam

/-! ### Number texts -/

theorem digitsValue_pad (k n : Nat) :
    digitsValue (List.replicate k '0' ++ Nat.toDigits 10 n) = n := by
  simp [digitsValue, Nat.ofDigitChars_append, Nat.ofDigitChars_replicate_zero]

theorem pad5_toList {v : Int} (hv : 0 ≤ v) :
    ∃ k, (pad5 v).toList = List.replicate k '0' ++ Nat.toDigits 10 v.natAbs := by
  refine ⟨5 - (Nat.toDigits 10 v.natAbs).length, ?_⟩
  simp [pad5, not_lt.2 hv]

theorem digitsValue_pad5 {v : Int} (hv : 0 ≤ v) : (digitsValue (pad5 v).toList : Int) = v := by
  obtain ⟨k, hpad⟩ := pad5_toList hv
  rw [hpad, digitsValue_pad]
  exact Int.natAbs_of_nonneg hv

theorem pad5_isDigit {v : Int} (hv : 0 ≤ v) : ∀ c ∈ (pad5 v).toList, c.isDigit = true := by
  obtain ⟨k, hpad⟩ := pad5_toList hv
  intro c hc
  rw [hpad] at hc
  rcases List.mem_append.1 hc with hc | hc
  · obtain ⟨-, rfl⟩ := List.mem_replicate.1 hc
    decide
  · exact Nat.isDigit_of_mem_toDigits (b := 10) (by decide) (by decide) hc

theorem formatNumber_toList (key : String) (v : Int) :
    (formatNumber key v).toList = key.toList ++ '-' :: (pad5 v).toList := by
  simp [formatNumber, String.toList_append]

/-- A floor derived from an issued number is that number. -/
theorem floorFor_formatNumber {doctype key : String} {v : Int} (hkey : seriesKey doctype = some key)
    (hpos : 0 < v) (hmax : v < 2 ^ 63) : floorFor doctype (formatNumber key v) = some (key, v) := by
  have hprefix : (formatNumber key v).toList.dropPrefix? key.toList =
      some ('-' :: (pad5 v).toList) := by
    rw [formatNumber_toList]
    exact List.dropPrefix?_append_of_beq _ (by simp)
  have hdash : ('-' :: (pad5 v).toList).dropPrefix? ['-'] = some (pad5 v).toList := by
    simp [List.dropPrefix?]
  have hne : (pad5 v).toList ≠ [] := by
    obtain ⟨k, hpad⟩ := pad5_toList hpos.le
    simp [hpad]
  have hvalue := digitsValue_pad5 hpos.le
  have hrange : digitsValue (pad5 v).toList < 2 ^ 63 ∧ 0 < digitsValue (pad5 v).toList := by omega
  have hdigits : (pad5 v).toList.all Char.isDigit = true := List.all_eq_true.2 (pad5_isDigit hpos.le)
  simp only [floorFor, hkey, hprefix, hdash, Option.bind_eq_bind, Option.bind_some]
  rw [if_neg (by simp [hne, hdigits]), if_pos hrange, hvalue]

/-- The number a floor was derived from. -/
theorem floorFor_eq_some {doctype number key : String} {v : Int}
    (h : floorFor doctype number = some (key, v)) :
    seriesKey doctype = some key ∧ 0 < v ∧
      ∃ digits, number.toList = key.toList ++ '-' :: digits ∧ (digitsValue digits : Int) = v := by
  simp only [floorFor, Option.bind_eq_bind, Option.bind_eq_some_iff] at h
  obtain ⟨key', hkey', rest, hrest, digits, hdigits, h⟩ := h
  split_ifs at h with hshape hrange
  obtain ⟨rfl, rfl⟩ := Prod.mk.inj (Option.some.inj h)
  obtain ⟨p, hnumber, hp⟩ := List.dropPrefix?_eq_some_iff.1 hrest
  obtain ⟨q, hq, hdash⟩ := List.dropPrefix?_eq_some_iff.1 hdigits
  rw [eq_of_beq hp, hq, eq_of_beq hdash] at hnumber
  exact ⟨hkey', by omega, digits, hnumber, rfl⟩

theorem seriesKey_noDash {doctype key : String} (h : seriesKey doctype = some key) :
    '-' ∉ key.toList := by
  unfold seriesKey at h
  split at h <;> cases h <;> decide

theorem append_dash_inj {xs ys us vs : List Char} (hx : '-' ∉ xs) (hy : '-' ∉ ys)
    (h : xs ++ '-' :: us = ys ++ '-' :: vs) : xs = ys ∧ us = vs := by
  induction xs generalizing ys with
  | nil =>
    cases ys with
    | nil => exact ⟨rfl, (List.cons.inj h).2⟩
    | cons y ys => exact absurd ((List.cons.inj h).1 ▸ List.mem_cons_self) hy
  | cons x xs ih =>
    cases ys with
    | nil => exact absurd ((List.cons.inj h).1 ▸ List.mem_cons_self) hx
    | cons y ys =>
      obtain ⟨rfl, htail⟩ := List.cons.inj h
      obtain ⟨rfl, rfl⟩ := ih (fun hm => hx (List.mem_cons_of_mem _ hm))
        (fun hm => hy (List.mem_cons_of_mem _ hm)) htail
      exact ⟨rfl, rfl⟩

/-- A number names its series and its value. -/
theorem formatNumber_inj {doctype doctype' key key' : String} {v v' : Int}
    (hkey : seriesKey doctype = some key) (hkey' : seriesKey doctype' = some key') (hv : 0 ≤ v)
    (hv' : 0 ≤ v') (h : formatNumber key v = formatNumber key' v') : key = key' ∧ v = v' := by
  have hlists := congrArg String.toList h
  rw [formatNumber_toList, formatNumber_toList] at hlists
  obtain ⟨hkeys, hpads⟩ := append_dash_inj (seriesKey_noDash hkey) (seriesKey_noDash hkey') hlists
  refine ⟨String.toList_inj.1 hkeys, ?_⟩
  rw [← digitsValue_pad5 hv, hpads, digitsValue_pad5 hv']

/-! ### Counters -/

namespace Inner

theorem counter_insert (series : Series) (company company' : Uuid) (key key' : String) (v : Int) :
    Series.counter (AList.insert (company, key) v series) company' key' =
      if company' = company ∧ key' = key then v else series.counter company' key' := by
  unfold Series.counter
  split_ifs with h
  · obtain ⟨rfl, rfl⟩ := h
    rw [AList.lookup_insert, Option.getD_some]
  · rw [AList.lookup_insert_ne fun heq => h (Prod.mk.inj heq)]

/-- The floors a list raises on one series. -/
def floorsOn (key : String) (floors : List (String × Int)) : List Int :=
  (floors.filter fun floor => floor.1 = key).map Prod.snd

theorem raiseFloors_counter (company : Uuid) (floors : List (String × Int)) (series : Series)
    (key : String) :
    (raiseFloors company floors series).counter company key =
      (floorsOn key floors).foldl max (series.counter company key) := by
  induction floors generalizing series with
  | nil => rfl
  | cons floor floors ih =>
    rw [raiseFloors, List.foldl_cons, ← raiseFloors, ih, raiseFloor, counter_insert]
    by_cases hkey : floor.1 = key
    · simp [floorsOn, hkey]
    · have hkey' : ¬ key = floor.1 := fun h => hkey h.symm
      simp [floorsOn, hkey, hkey']

theorem raiseFloors_counter_ne {company company' : Uuid} (h : company' ≠ company)
    (floors : List (String × Int)) (series : Series) (key : String) :
    (raiseFloors company floors series).counter company' key = series.counter company' key := by
  induction floors generalizing series with
  | nil => rfl
  | cons floor floors ih =>
    rw [raiseFloors, List.foldl_cons, ← raiseFloors, ih, raiseFloor, counter_insert,
      if_neg fun hc => h hc.1]

theorem allocateNumber_counter (commit : PostingCommit) (series : Series) (company : Uuid)
    (key : String) :
    (allocateNumber commit series).2.counter company key =
      if company = commit.companyId ∧ commit.seriesKey = some key then
        series.counter company key + 1
      else series.counter company key := by
  cases hkey : commit.seriesKey with
  | none => simp [allocateNumber, hkey]
  | some key' =>
    simp only [allocateNumber, hkey, counter_insert, Option.some.injEq]
    by_cases h : company = commit.companyId ∧ key = key'
    · obtain ⟨rfl, rfl⟩ := h
      simp
    · rw [if_neg h, if_neg fun hc => h ⟨hc.1, hc.2.symm⟩]

theorem allocateNumber_number {commit : PostingCommit} {key : String}
    (hkey : commit.seriesKey = some key) (inner : Inner) :
    (numberedDocument commit inner).officialNumber =
      some (formatNumber key (inner.series.counter commit.companyId key + 1)) := by
  simp [numberedDocument, allocateNumber, stampNumber, hkey]

/-- The counter of a series after a commit was applied. -/
theorem Applied.counter {commit : PostingCommit} {inner inner' : Inner}
    (h : Applied commit inner inner') (key : String) :
    inner'.series.counter commit.companyId key =
      (floorsOn key commit.numberingFloors).foldl max
        (if commit.seriesKey = some key then inner.series.counter commit.companyId key + 1
        else inner.series.counter commit.companyId key) := by
  rw [h.series, raiseFloors_counter, allocateNumber_counter]
  simp

theorem Applied.counter_ne {commit : PostingCommit} {inner inner' : Inner}
    (h : Applied commit inner inner') {company : Uuid} (hc : company ≠ commit.companyId)
    (key : String) : inner'.series.counter company key = inner.series.counter company key := by
  rw [h.series, raiseFloors_counter_ne hc, allocateNumber_counter, if_neg fun h => hc h.1]

/-- A failed or replayed commit leaves every counter. -/
theorem postingCommit_counter_of_failed {codec : Codec} {env : Env} {commit : PostingCommit}
    {inner : Inner} (h : ∀ outcome, (postingCommit codec env commit inner).1 = .ok outcome →
      outcome.replayed = true) (company : Uuid) (key : String) :
    (postingCommit codec env commit inner).2.series.counter company key =
      inner.series.counter company key := by
  rcases postingCommit_cases codec env commit inner with
    ⟨response, -, hrun⟩ | ⟨e, -, -, hrun⟩ | ⟨-, -, inner', -, hrun⟩
  · rw [hrun]
  · rw [hrun]
  · exact absurd (h _ (by rw [hrun])) Bool.false_ne_true

/-- A commit without a series and without floors leaves every counter. -/
theorem postingCommit_counter_of_unnumbered {codec : Codec} {env : Env} {commit : PostingCommit}
    {inner : Inner} (hkey : commit.seriesKey = none) (hfloors : commit.numberingFloors = [])
    (company : Uuid) (key : String) :
    (postingCommit codec env commit inner).2.series.counter company key =
      inner.series.counter company key := by
  rcases postingCommit_cases codec env commit inner with
    ⟨response, -, hrun⟩ | ⟨e, -, -, hrun⟩ | ⟨-, -, inner', happlied, hrun⟩
  · rw [hrun]
  · rw [hrun]
  · rw [hrun, happlied.series, hfloors]
    simp only [raiseFloors, List.foldl_nil, allocateNumber_counter, hkey, reduceCtorEq, and_false,
      if_false]

/-! ### One series through a run -/

/-- An operation that may move a series. -/
inductive SeriesOp where
  | commit (env : Env) (posting : PostingCommit)
  | lost (company : Uuid) (report : LostHistoryReport) (audit : AuditEntry)

/-- The floors a report raises. -/
def lostFloors (inner : Inner) (company : Uuid) (report : LostHistoryReport) : List (String × Int) :=
  (lostHistoryOutcome report (report.lost.map (inner.findLost company))).2

/-- A report is replayed, or it raises its floors and is recorded. -/
theorem recordLostHistory_cases (company : Uuid) (report : LostHistoryReport) (audit : AuditEntry)
    (inner : Inner) :
    (∃ stored, AList.lookup (company, report.recoveryId) inner.historyRecoveries = some stored ∧
      recordLostHistory company report audit inner = ((stored, true), inner)) ∨
    (AList.lookup (company, report.recoveryId) inner.historyRecoveries = none ∧
      ∃ response recoveries audits, recordLostHistory company report audit inner =
        ((response, false), { inner with
          series := raiseFloors company (inner.lostFloors company report) inner.series
          historyRecoveries := recoveries
          audit := audits })) := by
  cases hstored : AList.lookup (company, report.recoveryId) inner.historyRecoveries with
  | some stored => exact .inl ⟨stored, rfl, by simp only [recordLostHistory, hstored]⟩
  | none =>
    refine .inr ⟨rfl, ?_⟩
    simp only [recordLostHistory, hstored, lostFloors]
    exact ⟨_, _, _, rfl⟩

open HighWater (Move)

namespace SeriesOp
variable (codec : Codec) (company : Uuid) (key : String)

def run (inner : Inner) : SeriesOp → Inner
  | .commit env posting => (postingCommit codec env posting inner).2
  | .lost company report audit => (recordLostHistory company report audit inner).2

/-- What an operation does to the series `key` of `company`: the number on the document an applied
commit stores, and the floors raised. -/
def observe (inner : Inner) : SeriesOp → List (Move (Option String))
  | .commit env posting =>
    match postingCommit codec env posting inner with
    | (.ok outcome, inner') =>
      if outcome.replayed ∨ posting.companyId ≠ company then []
      else
        (if posting.seriesKey = some key then
          [.allocated ((AList.lookup (docKey posting) inner'.documents).bind
            PostedDocument.officialNumber)]
        else []) ++ (floorsOn key posting.numberingFloors).map .floor
    | (.error _, _) => []
  | .lost company' report audit =>
    if (recordLostHistory company' report audit inner).1.2 ∨ company' ≠ company then []
    else (floorsOn key (inner.lostFloors company' report)).map .floor

/-- The state and the history after one more operation. -/
def step (state : Inner × List (Move (Option String))) (op : SeriesOp) :
    Inner × List (Move (Option String)) :=
  (op.run codec state.1, state.2 ++ op.observe codec company key state.1)

/-- The history of a series over a run from the empty store. -/
def observed (ops : List SeriesOp) : List (Move (Option String)) :=
  (ops.foldl (step codec company key) ({}, [])).2

end SeriesOp

section Run
variable {codec : Codec} {company : Uuid} {key : String}

/-- The history is one of a counter with floors, and the counter stands at its mark. -/
def Follows (company : Uuid) (key : String) (state : Inner × List (Move (Option String))) : Prop :=
  ∃ moves, HighWater.Lawful moves ∧
    state.2 = moves.map (Move.map fun v => some (formatNumber key v)) ∧
    state.1.series.counter company key = HighWater.height moves

/-- A step that raises floors on the series and does nothing else to it. -/
theorem Follows.raise {state : Inner × List (Move (Option String))}
    (h : Follows company key state) {inner' : Inner} {values : List Int}
    (hcounter : inner'.series.counter company key =
      values.foldl max (state.1.series.counter company key)) :
    Follows company key (inner', state.2 ++ values.map .floor) := by
  obtain ⟨moves, hlawful, hhistory, hheight⟩ := h
  obtain ⟨hlawful', hheight'⟩ := hlawful.raises values
  refine ⟨moves ++ values.map .floor, hlawful', ?_, by rw [hcounter, hheight', hheight]⟩
  rw [hhistory, List.map_append, List.map_map]
  rfl

/-- A step that leaves the series alone. -/
theorem Follows.keep {state : Inner × List (Move (Option String))} (h : Follows company key state)
    {inner' : Inner}
    (hcounter : inner'.series.counter company key = state.1.series.counter company key) :
    Follows company key (inner', state.2) := by
  obtain ⟨moves, hlawful, hhistory, hheight⟩ := h
  exact ⟨moves, hlawful, hhistory, hcounter.trans hheight⟩

/-- A step that allocates the next number of the series. -/
theorem Follows.allocate {state : Inner × List (Move (Option String))}
    (h : Follows company key state) {inner' : Inner}
    (hcounter : inner'.series.counter company key = state.1.series.counter company key + 1) :
    Follows company key (inner', state.2 ++
      [.allocated (some (formatNumber key (state.1.series.counter company key + 1)))]) := by
  obtain ⟨moves, hlawful, hhistory, hheight⟩ := h
  refine ⟨moves ++ [.allocated (HighWater.height moves + 1)], hlawful.allocate, ?_, ?_⟩
  · rw [hhistory, hheight, List.map_append]
    rfl
  · rw [hcounter, hheight, HighWater.height_append_allocated]

theorem SeriesOp.step_follows (codec : Codec) {state : Inner × List (Move (Option String))}
    (h : Follows company key state) (op : SeriesOp) :
    Follows company key (SeriesOp.step codec company key state op) := by
  obtain ⟨inner, history⟩ := state
  cases op with
  | commit env commit =>
    simp only [SeriesOp.step, SeriesOp.run, SeriesOp.observe]
    rcases postingCommit_cases codec env commit inner with
      ⟨response, -, hrun⟩ | ⟨e, -, -, hrun⟩ | ⟨-, -, inner', happlied, hrun⟩
    · simpa [hrun] using h
    · simpa [hrun] using h
    · rw [hrun]
      by_cases hcompany : commit.companyId = company
      · subst hcompany
        have hcounter := happlied.counter key
        obtain ⟨doc, hdoc, hfrozen⟩ := lookup_written_self commit inner
        rw [← happlied.documents] at hdoc
        have hnumber := frozen_officialNumber_eq hfrozen
        by_cases hkey : commit.seriesKey = some key
        · rw [if_pos hkey] at hcounter
          have hmid : Follows commit.companyId key
              ({ inner with series := (allocateNumber commit inner.series).2 }, _) :=
            h.allocate (by rw [allocateNumber_counter, if_pos ⟨rfl, hkey⟩])
          have hraised : inner'.series.counter commit.companyId key =
              (floorsOn key commit.numberingFloors).foldl max
                ((allocateNumber commit inner.series).2.counter commit.companyId key) := by
            rw [hcounter, allocateNumber_counter, if_pos ⟨rfl, hkey⟩]
          have hdone := hmid.raise hraised
          simpa [hkey, hdoc, hnumber, allocateNumber_number hkey] using hdone
        · rw [if_neg hkey] at hcounter
          simpa [hkey] using h.raise hcounter
      · simpa [hcompany] using h.keep (happlied.counter_ne (Ne.symm hcompany) key)
  | lost company' report audit =>
    simp only [SeriesOp.step, SeriesOp.run, SeriesOp.observe]
    rcases recordLostHistory_cases company' report audit inner with
      ⟨stored, -, hrun⟩ | ⟨-, response, recoveries, audits, hrun⟩
    · simpa [hrun] using h
    · rw [hrun]
      by_cases hcompany : company' = company
      · subst hcompany
        simpa using h.raise (raiseFloors_counter company' _ inner.series key)
      · simpa [hcompany] using h.keep (raiseFloors_counter_ne (Ne.symm hcompany) _ inner.series key)

theorem SeriesOp.run_follows (codec : Codec) (ops : List SeriesOp)
    {state : Inner × List (Move (Option String))} (h : Follows company key state) :
    Follows company key (ops.foldl (SeriesOp.step codec company key) state) := by
  induction ops generalizing state with
  | nil => exact h
  | cons op ops ih => exact ih (SeriesOp.step_follows codec h op)

/-- Over every run of commits, take-ons and reports, the numbers a series allocates carry the next
value above the last one and every floor, in increasing order and without a gap where no floor came
in between; what is refused or replayed, and every cancel, leaves the counter; and the floor read off
an issued number is that number. -/
theorem series_gap_free (codec : Codec) (company : Uuid) (key : String) (ops : List SeriesOp) :
    (∃ moves : List (Move Int),
      SeriesOp.observed codec company key ops =
        moves.map (Move.map fun v => some (formatNumber key v)) ∧
      (∀ pre v post, moves = pre ++ .allocated v :: post →
        v = max (HighWater.lastAllocated pre) (HighWater.highestFloor pre) + 1) ∧
      (HighWater.allocations moves).Pairwise (· < ·) ∧
      (∀ pre v between w post, moves = pre ++ .allocated v :: (between ++ .allocated w :: post) →
        (∀ m ∈ between, ∃ f, f ≤ v ∧ m = .floor f) → w = v + 1)) ∧
    (∀ env commit inner,
      (∀ outcome, (postingCommit codec env commit inner).1 = .ok outcome → outcome.replayed = true) →
      (postingCommit codec env commit inner).2.series.counter company key =
        inner.series.counter company key) ∧
    (∀ view builtAt cmd actor commit env inner,
      buildCancel view builtAt company cmd actor = .ok commit →
      (postingCommit codec env commit inner).2.series.counter company key =
        inner.series.counter company key) ∧
    (∀ report audit inner, (recordLostHistory company report audit inner).1.2 = true →
      (recordLostHistory company report audit inner).2.series.counter company key =
        inner.series.counter company key) ∧
    (∀ doctype v, seriesKey doctype = some key → 0 < v → v < 2 ^ 63 →
      floorFor doctype (formatNumber key v) = some (key, v)) := by
  refine ⟨?_, ?_, ?_, ?_, fun doctype v hkey hpos hmax => floorFor_formatNumber hkey hpos hmax⟩
  · have hfresh : Follows company key (({} : Inner), []) := ⟨[], .nil, rfl, rfl⟩
    obtain ⟨moves, hlawful, hhistory, -⟩ := SeriesOp.run_follows codec ops hfresh
    exact ⟨moves, hhistory, fun _ _ _ hmoves => hlawful.next hmoves, hlawful.increasing,
      fun _ _ _ _ _ hmoves hbetween => hlawful.consecutive hmoves hbetween⟩
  · intro env commit inner h
    exact postingCommit_counter_of_failed h company key
  · intro view builtAt cmd actor commit env inner hbuild
    obtain ⟨document, postingDate, guard, updates, -, -, -, -, -, rfl⟩ := buildCancel_ok hbuild
    exact postingCommit_counter_of_unnumbered rfl rfl company key
  · intro report audit inner hreplayed
    rcases recordLostHistory_cases company report audit inner with
      ⟨stored, -, hrun⟩ | ⟨-, response, recoveries, audits, hrun⟩
    · rw [hrun]
    · rw [hrun] at hreplayed
      exact absurd hreplayed Bool.false_ne_true

end Run

end Inner

end AtlasTeam
