import AtlasTeam.Store.Effects
import AtlasTeam.Store.UniqueNumbers

/-!
# The numbering check after a restore (`scripts/verify_restore.sql`)

`numbering_gap_free` compares every series counter with the official numbers of the company that read
`key-digits`, whatever their doctype: there are as many as the counter says, and the highest is the
counter. A number a series allocates keeps that. What does not is what moves a counter without a
number, the floors of a take-on and of a report of lost numbers, and a number without a counter, the
receipt number of a till. `numbering_gap_free_iff` says when these do no harm: no receipt reads like a
series that is stored, no floor lies above the counter of one, and a series that is not stored yet gets
what the receipts that read like it leave of it (`Receipted`).
-/

namespace AtlasTeam

/-! ### Numbers of a series -/

/-- The value of a number that reads `key-digits`. -/
def seriesValue (key number : String) : Option Nat := do
  let digits ← number.toList.dropPrefix? (key.toList ++ ['-'])
  if digits.isEmpty || !digits.all Char.isDigit then none else some (digitsValue digits)

theorem seriesValue_eq_some {key number : String} {v : Nat} (h : seriesValue key number = some v) :
    ∃ digits, number.toList = key.toList ++ '-' :: digits ∧ ∀ c ∈ digits, c.isDigit = true := by
  simp only [seriesValue, Option.bind_eq_bind, Option.bind_eq_some_iff] at h
  obtain ⟨digits, hdigits, h⟩ := h
  split_ifs at h with hshape
  obtain ⟨p, hnumber, hp⟩ := List.dropPrefix?_eq_some_iff.1 hdigits
  rw [eq_of_beq hp, List.append_assoc] at hnumber
  refine ⟨digits, hnumber, List.all_eq_true.1 ?_⟩
  simpa using (Bool.or_eq_false_iff.1 (eq_false_of_ne_true hshape)).2

theorem seriesValue_formatNumber (key : String) {v : Int} (hv : 0 ≤ v) :
    seriesValue key (formatNumber key v) = some v.toNat := by
  have hdrop : (formatNumber key v).toList.dropPrefix? (key.toList ++ ['-']) =
      some (pad5 v).toList := by
    rw [formatNumber_toList, List.append_cons]
    exact List.dropPrefix?_append_of_beq _ (by simp)
  have hne : (pad5 v).toList ≠ [] := by
    obtain ⟨k, hpad⟩ := pad5_toList hv
    simp [hpad]
  have hdigits : (pad5 v).toList.all Char.isDigit = true := List.all_eq_true.2 (pad5_isDigit hv)
  have hvalue := digitsValue_pad5 hv
  simp only [seriesValue, hdrop, Option.bind_eq_bind, Option.bind_some]
  rw [if_neg (by simp [hne, hdigits])]
  congr 1
  omega

/-- A number of one series is none of another: the digits hold no dash. -/
theorem seriesValue_formatNumber_ne {key key' : String} (hne : key' ≠ key) {v : Int} (hv : 0 ≤ v) :
    seriesValue key' (formatNumber key v) = none := by
  by_contra hsome
  obtain ⟨w, hw⟩ := Option.ne_none_iff_exists'.1 hsome
  obtain ⟨digits, hnumber, hdigits⟩ := seriesValue_eq_some hw
  have hnoDash : ∀ cs : List Char, (∀ c ∈ cs, c.isDigit = true) → '-' ∉ cs.reverse := by
    intro cs hcs hdash
    exact absurd (hcs '-' (List.mem_reverse.1 hdash)) (by decide)
  have hreversed := congrArg List.reverse ((formatNumber_toList key v).symm.trans hnumber)
  simp only [List.reverse_append, List.reverse_cons, List.append_assoc, List.singleton_append]
    at hreversed
  have hkeys := (append_dash_inj (hnoDash _ (pad5_isDigit hv)) (hnoDash _ hdigits) hreversed).2
  exact hne (String.toList_inj.1 (List.reverse_injective hkeys).symm)

/-- What a document's number adds to the numbers of a series. -/
def valuesIn (key : String) (number : Option String) : Multiset ℕ :=
  (number.bind (seriesValue key)).elim 0 fun v => {v}

/-- The values of a company's official numbers that read `key-digits`. -/
def Inner.numbersIn (inner : Inner) (company : Uuid) (key : String) : Multiset ℕ :=
  TableSum.total (fun docKey doc => if docKey.1 = company then valuesIn key doc.officialNumber else 0)
    inner.documents

/-- The counter of a series is the count and the highest of the numbers that read like its own. -/
def Inner.InStep (inner : Inner) (company : Uuid) (key : String) : Prop :=
  (Multiset.card (inner.numbersIn company key) : Int) = inner.series.counter company key ∧
    ((inner.numbersIn company key).sup : Int) = inner.series.counter company key

/-- `numbering_gap_free`: every stored counter is in step with the numbers. -/
def NumberingGapFree (inner : Inner) : Prop :=
  ∀ company key, (company, key) ∈ inner.series → inner.InStep company key

/-! ### What moves counters and numbers -/

/-- The numbers after a new document. -/
theorem numbersIn_new {commit : PostingCommit} {inner inner' : Inner}
    (happlied : Inner.Applied commit inner inner') (hnew : commit.documentIsNew = true)
    (hpassed : Inner.Passed commit inner) (company : Uuid) (key : String) :
    inner'.numbersIn company key = inner.numbersIn company key +
      if commit.companyId = company then
        valuesIn key (Inner.numberedDocument commit inner).officialNumber
      else 0 := by
  have htotal := Inner.total_written
    (fun docKey doc => if docKey.1 = company then valuesIn key doc.officialNumber else 0)
    (fun docKey doc doc' hsame => by
      simp only [Inner.frozen_officialNumber_eq hsame]) commit inner
  rw [TableSum.weight, hpassed.absent hnew, Option.elim_none, add_zero] at htotal
  rw [Inner.numbersIn, happlied.documents]
  exact htotal

/-- The numbers after a document was written again under the number it has. -/
theorem numbersIn_kept {commit : PostingCommit} {inner inner' : Inner} {doc : PostedDocument}
    (happlied : Inner.Applied commit inner inner')
    (hdoc : AList.lookup (Inner.docKey commit) inner.documents = some doc)
    (hsame : (Inner.numberedDocument commit inner).officialNumber = doc.officialNumber)
    (company : Uuid) (key : String) : inner'.numbersIn company key = inner.numbersIn company key := by
  have htotal := Inner.total_written
    (fun docKey doc => if docKey.1 = company then valuesIn key doc.officialNumber else 0)
    (fun docKey doc doc' hsame => by
      simp only [Inner.frozen_officialNumber_eq hsame]) commit inner
  rw [TableSum.weight, hdoc, Option.elim_some, hsame] at htotal
  rw [Inner.numbersIn, happlied.documents]
  exact add_right_cancel htotal

/-- The floors leave every series they name in step. -/
def FloorsInStep (inner : Inner) (company : Uuid) (floors : List (String × Int)) : Prop :=
  ∀ floor ∈ floors,
    let top := (Inner.floorsOn floor.1 floors).foldl max (inner.series.counter company floor.1)
    (Multiset.card (inner.numbersIn company floor.1) : Int) = top ∧
      ((inner.numbersIn company floor.1).sup : Int) = top

/-- A series that is not stored stands at zero. -/
theorem counter_of_notMem {series : Series} {company : Uuid} {key : String} (h : (company, key) ∉ series) :
    series.counter company key = 0 := by
  rw [Series.counter, AList.lookup_eq_none.2 h, Option.getD_none]

theorem mem_raiseFloors (company company' : Uuid) (floors : List (String × Int)) (series : Series)
    (key : String) : (company', key) ∈ Inner.raiseFloors company floors series ↔
      (company', key) ∈ series ∨ company' = company ∧ key ∈ floors.map Prod.fst := by
  induction floors generalizing series with
  | nil => simp [Inner.raiseFloors]
  | cons floor floors ih =>
    rw [Inner.raiseFloors, List.foldl_cons, ← Inner.raiseFloors, ih, Inner.raiseFloor,
      AList.mem_insert]
    simp only [Prod.mk.injEq, List.map_cons, List.mem_cons]
    tauto

/-- Floors keep the check passing exactly if they leave their series in step. -/
theorem gapFree_raised_iff {inner inner' : Inner} {company : Uuid} {floors : List (String × Int)}
    (h : NumberingGapFree inner)
    (hseries : inner'.series = Inner.raiseFloors company floors inner.series)
    (hnumbers : ∀ company key, inner'.numbersIn company key = inner.numbersIn company key) :
    NumberingGapFree inner' ↔ FloorsInStep inner company floors := by
  constructor
  · intro hafter floor hfloor
    have hmem : (company, floor.1) ∈ inner'.series := by
      rw [hseries, mem_raiseFloors]
      exact .inr ⟨rfl, List.mem_map_of_mem hfloor⟩
    have hstep := hafter company floor.1 hmem
    rwa [Inner.InStep, hnumbers, hseries, Inner.raiseFloors_counter] at hstep
  · intro hfit company' key hmem
    rw [Inner.InStep, hnumbers, hseries]
    by_cases hraised : company' = company ∧ key ∈ floors.map Prod.fst
    · obtain ⟨rfl, hkey⟩ := hraised
      obtain ⟨floor, hfloor, rfl⟩ := List.mem_map.1 hkey
      rw [Inner.raiseFloors_counter]
      exact hfit floor hfloor
    · rw [hseries, mem_raiseFloors, or_iff_left hraised] at hmem
      have hsame : (Inner.raiseFloors company floors inner.series).counter company' key =
          inner.series.counter company' key := by
        by_cases hcompany : company' = company
        · subst hcompany
          have hnone : Inner.floorsOn key floors = [] := by
            rw [Inner.floorsOn, List.map_eq_nil_iff, List.filter_eq_nil_iff]
            intro floor hfloor
            have hne : floor.1 ≠ key := fun heq => hraised ⟨rfl, List.mem_map.2 ⟨floor, hfloor, heq⟩⟩
            simpa using hne
          rw [Inner.raiseFloors_counter, hnone, List.foldl_nil]
        · exact Inner.raiseFloors_counter_ne hcompany _ _ key
      rw [hsame]
      exact h company' key hmem

theorem valuesIn_eq_zero_iff {key : String} {number : Option String} :
    valuesIn key number = 0 ↔ ∀ n, number = some n → seriesValue key n = none := by
  cases number with
  | none => simp [valuesIn]
  | some number => cases hvalue : seriesValue key number <;> simp [valuesIn, hvalue]

/-- A number its series allocates keeps the check passing exactly if the series was in step. -/
theorem gapFree_allocated_iff {inner inner' : Inner} {company : Uuid} {key : String}
    (h : NumberingGapFree inner) (hcounter : 0 ≤ inner.series.counter company key)
    (hseries : inner'.series =
      AList.insert (company, key) (inner.series.counter company key + 1) inner.series)
    (hnumbers : ∀ company' key', inner'.numbersIn company' key' = inner.numbersIn company' key' +
      if company = company' then valuesIn key' (some (formatNumber key (inner.series.counter company key + 1)))
      else 0) :
    NumberingGapFree inner' ↔ inner.InStep company key := by
  have hself : inner'.numbersIn company key = inner.numbersIn company key +
      {(inner.series.counter company key + 1).toNat} := by
    rw [hnumbers, if_pos rfl, valuesIn, Option.bind_some, seriesValue_formatNumber key (by omega)]
    rfl
  constructor
  · intro hpass
    have hstep := hpass company key (hseries ▸ (AList.mem_insert _).2 (.inl rfl))
    rw [Inner.InStep, hself, hseries, Inner.counter_insert, if_pos ⟨rfl, rfl⟩, Multiset.card_add,
      Multiset.card_singleton] at hstep
    by_cases hmem : (company, key) ∈ inner.series
    · exact h _ _ hmem
    · have hzero := counter_of_notMem hmem
      have hnone : inner.numbersIn company key = 0 := Multiset.card_eq_zero.1 (by omega)
      rw [Inner.InStep, hnone, hzero]
      exact ⟨rfl, rfl⟩
  · intro hstep company' key' hmem
    by_cases hkey : (company', key') = (company, key)
    · obtain ⟨rfl, rfl⟩ := Prod.mk.inj hkey
      obtain ⟨hcard, hsup⟩ := hstep
      rw [Inner.InStep, hself, hseries, Inner.counter_insert, if_pos ⟨rfl, rfl⟩, Multiset.card_add,
        Multiset.card_singleton, Multiset.sup_add, Multiset.sup_singleton]
      refine ⟨by omega, ?_⟩
      rw [sup_eq_right.2 (by omega)]
      omega
    · have hold : (company', key') ∈ inner.series :=
        ((AList.mem_insert _).1 (hseries ▸ hmem)).resolve_left hkey
      have hsame : inner'.numbersIn company' key' = inner.numbersIn company' key' := by
        rw [hnumbers]
        split_ifs with hcompany
        · have hne : key' ≠ key := fun heq => hkey (by rw [heq, hcompany])
          rw [valuesIn, Option.bind_some, seriesValue_formatNumber_ne hne (by omega)]
          exact add_zero _
        · exact add_zero _
      rw [Inner.InStep, hsame, hseries, Inner.counter_insert,
        if_neg fun hc => hkey (Prod.ext hc.1 hc.2)]
      exact h company' key' hold

/-- A receipt number keeps the check passing exactly if it reads like no stored series. -/
theorem gapFree_receipt_iff {inner inner' : Inner} {company : Uuid} {number : String}
    (h : NumberingGapFree inner) (hseries : inner'.series = inner.series)
    (hnumbers : ∀ company' key, inner'.numbersIn company' key = inner.numbersIn company' key +
      if company = company' then valuesIn key (some number) else 0) :
    NumberingGapFree inner' ↔
      ∀ key, (company, key) ∈ inner.series → seriesValue key number = none := by
  constructor
  · intro hpass key hmem
    have hbefore := (h company key hmem).1
    have hafter := (hpass company key (hseries ▸ hmem)).1
    rw [hnumbers, if_pos rfl, hseries, Multiset.card_add] at hafter
    have hnone : valuesIn key (some number) = 0 := Multiset.card_eq_zero.1 (by omega)
    exact valuesIn_eq_zero_iff.1 hnone number rfl
  · intro hnone company' key hmem
    rw [hseries] at hmem
    have hsame : inner'.numbersIn company' key = inner.numbersIn company' key := by
      rw [hnumbers]
      split_ifs with hcompany
      · subst hcompany
        rw [valuesIn_eq_zero_iff.2 fun n hn => Option.some.inj hn ▸ hnone key hmem, add_zero]
      · exact add_zero _
    rw [Inner.InStep, hsame, hseries]
    exact h company' key hmem

/-! ### The commands -/

/-- The series a command takes its number from. -/
def Command.allocates : Command → Option String
  | .submit cmd => if cmd.offlineFiscal then none else seriesKey cmd.doctype
  | _ => none

/-- The number a till confirmation brings along. -/
def Draft.receiptNumber {S : Type} (draft : Draft S) : Option String :=
  match draft.command with
  | .submit cmd => if cmd.offlineFiscal then some draft.documentId else none
  | _ => none

/-- The floors a take-on raises: its series go on after the last Solo number. -/
def Command.continues : Command → List (String × Int)
  | .takeOn cmd => cmd.numbering.filterMap fun n => (seriesKey n.doctype).map fun key => (key, n.lastValue)
  | _ => []

theorem continueSeries_floors {numbering : List NumberingContinuation} {acc acc' : Continuations}
    (h : numbering.foldlM continueSeries acc = .ok acc') :
    acc'.floors = acc.floors ++
      numbering.filterMap fun n => (seriesKey n.doctype).map fun key => (key, n.lastValue) := by
  induction numbering generalizing acc with
  | nil =>
    cases h
    simp
  | cons n numbering ih =>
    rw [List.foldlM_cons, Except.bind_eq_ok] at h
    obtain ⟨acc₁, hfirst, hrest⟩ := h
    have hfloors : ∃ key, seriesKey n.doctype = some key ∧
        acc₁.floors = acc.floors ++ [(key, n.lastValue)] := by
      unfold continueSeries at hfirst
      cases hkey : seriesKey n.doctype with
      | none =>
        rw [hkey] at hfirst
        cases hfirst
      | some key =>
        rw [hkey] at hfirst
        by_cases htwice : key ∈ acc.floors.map Prod.fst
        · simp only [htwice, if_true] at hfirst
          cases hfirst
        · by_cases hrange : ¬ (0 ≤ n.lastValue ∧ n.lastValue ≤ 999999999)
          · simp only [htwice, hrange, if_true, if_false, not_false_eq_true] at hfirst
            cases hfirst
          · simp only [htwice, hrange, if_false] at hfirst
            cases hfirst
            exact ⟨key, rfl, rfl⟩
    obtain ⟨key, hkey, hfloors⟩ := hfloors
    rw [ih hrest, hfloors, List.filterMap_cons, hkey]
    simp

/-- What the numbering of a commit reads is what its command says. -/
theorem built_numbering {codec : Codec} {allowed : Allowed MemOp} {book₀ : Book Inner}
    {draft : Draft Inner} (hbuilt : Draft.Built codec (memBackend codec) allowed book₀ draft) :
    draft.commit.seriesKey = draft.command.allocates ∧
      draft.commit.preassignedNumber = draft.receiptNumber ∧
      draft.commit.numberingFloors = draft.command.continues := by
  have hbuild := hbuilt.build
  cases hcommand : draft.command with
  | submit cmd =>
    rw [hcommand] at hbuild
    obtain ⟨prepared, shortfalls, settlements, updates, -, -, -, hcommit⟩ := buildSubmit_ok hbuild
    rw [hcommit]
    exact ⟨rfl, by rw [Draft.receiptNumber, hcommand]; rfl, rfl⟩
  | cancel cmd =>
    rw [hcommand] at hbuild
    obtain ⟨doc, postingDate, guard, updates, -, -, -, -, -, hcommit⟩ := buildCancel_ok hbuild
    rw [hcommit]
    exact ⟨rfl, by rw [Draft.receiptNumber, hcommand]; rfl, rfl⟩
  | takeOn cmd =>
    rw [hcommand] at hbuild
    obtain ⟨postingDate, stock, tb, continuations, -, hfloors, hcommit⟩ := buildOpening_ok hbuild
    rw [hcommit]
    refine ⟨rfl, by rw [Draft.receiptNumber, hcommand]; rfl, ?_⟩
    exact (continueSeries_floors hfloors).trans (List.nil_append _)

/-- What an applied draft does to the counters and the numbers: it takes a number from a series, it brings a
receipt number, or it raises floors. -/
inductive NumberMove (draft : Draft Inner) (inner inner' : Inner) : Prop
  | allocated (key : String) (hallocates : draft.command.allocates = some key)
      (hreceipt : draft.receiptNumber = none) (hcontinues : draft.command.continues = [])
      (hseries : inner'.series = AList.insert (draft.companyId, key)
        (inner.series.counter draft.companyId key + 1) inner.series)
      (hnumbers : ∀ company key', inner'.numbersIn company key' = inner.numbersIn company key' +
        if draft.companyId = company then
          valuesIn key' (some (formatNumber key (inner.series.counter draft.companyId key + 1)))
        else 0)
  | receipt (number : String) (hallocates : draft.command.allocates = none)
      (hreceipt : draft.receiptNumber = some number) (hcontinues : draft.command.continues = [])
      (hseries : inner'.series = inner.series)
      (hnumbers : ∀ company key, inner'.numbersIn company key = inner.numbersIn company key +
        if draft.companyId = company then valuesIn key (some number) else 0)
  | raised (hallocates : draft.command.allocates = none) (hreceipt : draft.receiptNumber = none)
      (hseries : inner'.series = Inner.raiseFloors draft.companyId draft.command.continues inner.series)
      (hnumbers : ∀ company key, inner'.numbersIn company key = inner.numbersIn company key)

section Moves
variable {codec : Codec} {allowed : Allowed MemOp} {book₀ book : Book Inner} {draft : Draft Inner} {inner' : Inner}
  (hbuilt : Draft.Built codec (memBackend codec) allowed book₀ draft)
  (hpassed : Inner.Passed draft.commit book.store)
  (happlied : Inner.Applied draft.commit book.store inner')
include hbuilt happlied

/-- A command that takes no number from a series moves the counters by its floors alone. -/
theorem built_series_raised (hnone : draft.command.allocates = none) :
    inner'.series = Inner.raiseFloors draft.companyId draft.command.continues book.store.series := by
  obtain ⟨hseries, -, hfloors⟩ := built_numbering hbuilt
  rw [happlied.series, ← hfloors, ← (Command.build_new_or_cancel hbuilt.build).1]
  simp [Inner.allocateNumber, hseries.trans hnone]

include hpassed

/-- A new document that gets no number leaves the numbers. -/
theorem built_unnumbered (hnew : draft.commit.documentIsNew = true)
    (hnone : draft.commit.document.officialNumber = none) (hallocates : draft.command.allocates = none)
    (hreceipt : draft.receiptNumber = none) (company : Uuid) (key : String) :
    inner'.numbersIn company key = book.store.numbersIn company key := by
  obtain ⟨hseries, hpre, -⟩ := built_numbering hbuilt
  have hnumber : (Inner.numberedDocument draft.commit book.store).officialNumber = none := by
    simp [Inner.numberedDocument, Inner.allocateNumber, hseries.trans hallocates, hpre.trans hreceipt, hnone]
  rw [numbersIn_new happlied hnew hpassed, hnumber]
  split_ifs <;> exact add_zero _

theorem submit_numberMove {cmd : SubmitCommand} (hcommand : draft.command = .submit cmd) :
    NumberMove draft book.store inner' := by
  obtain ⟨hseries, hpre, hfloors⟩ := built_numbering hbuilt
  have hbuild := hbuilt.build
  have hcompany := (Command.build_new_or_cancel hbuild).1
  rw [hcommand] at hbuild
  obtain ⟨prepared, shortfalls, settlements, updates, -, -, -, hcommit⟩ := buildSubmit_ok hbuild
  have hnew : draft.commit.documentIsNew = true := by rw [hcommit]; rfl
  have hnone : draft.commit.document.officialNumber = none := by rw [hcommit]; rfl
  have hcontinues : draft.command.continues = [] := by rw [hcommand]; rfl
  have hadded := numbersIn_new happlied hnew hpassed
  rw [hcompany] at hadded
  cases hoffline : cmd.offlineFiscal with
  | true =>
    have hallocates : draft.command.allocates = none := by simp [hcommand, Command.allocates, hoffline]
    have hreceipt : draft.receiptNumber = some draft.documentId := by
      simp [Draft.receiptNumber, hcommand, hoffline]
    have hnumber : (Inner.numberedDocument draft.commit book.store).officialNumber =
        some draft.documentId := by
      simp [Inner.numberedDocument, Inner.allocateNumber, Inner.stampNumber, hseries.trans hallocates,
        hpre.trans hreceipt]
    rw [hnumber] at hadded
    refine .receipt draft.documentId hallocates hreceipt hcontinues ?_ hadded
    rw [built_series_raised hbuilt happlied hallocates, hcontinues]
    rfl
  | false =>
    have hreceipt : draft.receiptNumber = none := by simp [Draft.receiptNumber, hcommand, hoffline]
    cases hallocates : draft.command.allocates with
    | none =>
      exact .raised hallocates hreceipt (built_series_raised hbuilt happlied hallocates)
        (built_unnumbered hbuilt hpassed happlied hnew hnone hallocates hreceipt)
    | some key =>
      have hkey := hseries.trans hallocates
      rw [Inner.allocateNumber_number hkey book.store, hcompany] at hadded
      refine .allocated key hallocates hreceipt hcontinues ?_ hadded
      rw [happlied.series, hfloors, hcontinues, ← hcompany]
      simp [Inner.raiseFloors, Inner.allocateNumber, hkey]

theorem built_numberMove (hkept₀ : Kept book₀) (hgrow : Extends book₀.store book.store) :
    NumberMove draft book.store inner' := by
  have hbuild := hbuilt.build
  rw [hbuilt.snapshot] at hbuild
  cases hcommand : draft.command with
  | submit cmd => exact submit_numberMove hbuilt hpassed happlied hcommand
  | cancel cmd =>
    obtain ⟨hseries, hpre, -⟩ := built_numbering hbuilt
    have hcompany := (Command.build_new_or_cancel hbuild).1
    have hallocates : draft.command.allocates = none := by rw [hcommand]; rfl
    have hreceipt : draft.receiptNumber = none := by rw [Draft.receiptNumber, hcommand]
    rw [hcommand] at hbuild
    obtain ⟨doc₀, postingDate, guard, updates, hdoc₀, -, -, -, -, hcommit⟩ := buildCancel_ok hbuild
    have hdocument : draft.commit.document = { doc₀ with docstatus := 2 } := by rw [hcommit]; rfl
    have hkey : Inner.docKey draft.commit = (draft.companyId, cmd.doctype, cmd.documentId) :=
      docKey_of_read hkept₀ hdoc₀ hdocument hcompany
    obtain ⟨doc, hdoc, hlater⟩ := hgrow.documents _ _ hdoc₀
    have hsame : (Inner.numberedDocument draft.commit book.store).officialNumber = doc.officialNumber := by
      rw [hlater.officialNumber]
      simp [Inner.numberedDocument, Inner.allocateNumber, hseries.trans hallocates, hpre.trans hreceipt, hdocument]
    exact .raised hallocates hreceipt (built_series_raised hbuilt happlied hallocates)
      (numbersIn_kept happlied (hkey ▸ hdoc) hsame)
  | takeOn cmd =>
    have hallocates : draft.command.allocates = none := by rw [hcommand]; rfl
    have hreceipt : draft.receiptNumber = none := by rw [Draft.receiptNumber, hcommand]
    rw [hcommand] at hbuild
    obtain ⟨postingDate, stock, tb, continuations, -, -, hcommit⟩ := buildOpening_ok hbuild
    have hnew : draft.commit.documentIsNew = true := by rw [hcommit]; rfl
    have hnone : draft.commit.document.officialNumber = none := by rw [hcommit]; rfl
    exact .raised hallocates hreceipt (built_series_raised hbuilt happlied hallocates)
      (built_unnumbered hbuilt hpassed happlied hnew hnone hallocates hreceipt)

end Moves

/-! ### Receipts and series -/

/-- The values of the till receipts of a company that read `key-digits`. -/
def receiptsIn (journal : List (Entry Inner)) (company : Uuid) (key : String) : Multiset ℕ :=
  (journal.map fun entry => if entry.companyId = company then valuesIn key entry.receiptNumber else 0).sum

theorem receiptsIn_concat (journal : List (Entry Inner)) (entry : Entry Inner) (company : Uuid) (key : String) :
    receiptsIn (journal ++ [entry]) company key = receiptsIn journal company key +
      if entry.companyId = company then valuesIn key entry.receiptNumber else 0 := by
  rw [receiptsIn, List.map_append, List.sum_append, List.map_singleton, List.sum_singleton]
  rfl

/-- The numbers that read like a series which is not stored are receipts of tills. -/
structure Receipted (book : Book Inner) : Prop where
  nonneg : ∀ company key, 0 ≤ book.store.series.counter company key
  unused : ∀ company key, (company, key) ∉ book.store.series →
    book.store.numbersIn company key = receiptsIn book.journal company key

theorem receipted_fresh : Receipted { store := {} } := ⟨fun _ _ => le_refl _, fun _ _ _ => rfl⟩

theorem Receipted.applied {book : Book Inner} (h : Receipted book) {draft : Draft Inner} {inner' : Inner}
    (happlied : Inner.Applied draft.commit book.store inner') (hmove : NumberMove draft book.store inner') :
    Receipted { store := inner', journal := book.journal ++ [appliedEntry draft book.store] } := by
  refine ⟨fun company key => (h.nonneg company key).trans (happlied.counter_mono company key),
    fun company key hnew => ?_⟩
  rw [receiptsIn_concat]
  show inner'.numbersIn company key = receiptsIn book.journal company key +
    if draft.companyId = company then valuesIn key draft.receiptNumber else 0
  replace hnew : (company, key) ∉ inner'.series := hnew
  cases hmove with
  | allocated key' hallocates hreceipt hcontinues hseries hnumbers =>
    rw [hseries, AList.mem_insert, not_or] at hnew
    rw [hnumbers, h.unused company key hnew.2, hreceipt]
    split_ifs with hcompany
    · have hne : key ≠ key' := fun heq => hnew.1 (by rw [heq, hcompany])
      have hpositive := h.nonneg draft.companyId key'
      rw [valuesIn, Option.bind_some, seriesValue_formatNumber_ne hne (by omega)]
      rfl
    · rfl
  | receipt number hallocates hreceipt hcontinues hseries hnumbers =>
    rw [hseries] at hnew
    rw [hnumbers, h.unused company key hnew, hreceipt]
  | raised hallocates hreceipt hseries hnumbers =>
    rw [hseries, mem_raiseFloors, not_or] at hnew
    rw [hnumbers, h.unused company key hnew.1, hreceipt]
    split_ifs <;> exact (add_zero _).symm

theorem mem_series_operate (codec : Codec) (env : Env) (op : MemOp) {inner : Inner} {company : Uuid} {key : String}
    (h : (company, key) ∈ inner.series) :
    (company, key) ∈ ((memBackend codec).operate env op inner).series := by
  obtain ⟨company', report, audit, -, -, hseries⟩ | ⟨-, hseries⟩ := operate_series codec env op inner
  · rw [hseries, mem_raiseFloors]
    exact .inl h
  · rwa [hseries]

theorem Receipted.operate {book : Book Inner} (h : Receipted book) (codec : Codec) (op : MemOp) (env : Env) :
    Receipted { book with store := (memBackend codec).operate env op book.store } := by
  have hframe := operate_frame codec env op book.store
  refine ⟨fun company key => (h.nonneg company key).trans (operate_counter codec env op book.store company key),
    fun company key hnew => ?_⟩
  have hold : (company, key) ∉ book.store.series := fun hmem => hnew (mem_series_operate codec env op hmem)
  rw [← h.unused company key hold, Inner.numbersIn, Inner.numbersIn, hframe.documents]

theorem receipted_rule {codec : Codec} {allowed : Allowed MemOp} :
    Snapshot.Rule (protocol codec (memBackend codec) allowed) (fun book => Kept book ∧ Receipted book)
      fun book book' => Extends book.store book'.store := by
  refine extends_rule_and ?_ fun h _ => h.operate codec _ _
  intro book₀ book draft inner' hkept₀ _ hgrow _ h hbuilt hpassed happlied
  exact h.applied happlied (built_numberMove hbuilt hpassed happlied hkept₀ hgrow)

/-- Floors do no harm: on a stored series none lies above the counter, and on another the receipts that read like
it are as many as the highest floor, which is the highest of them. -/
def FloorsFit (book : Book Inner) (company : Uuid) (floors : List (String × Int)) : Prop :=
  ∀ floor ∈ floors,
    if (company, floor.1) ∈ book.store.series then floor.2 ≤ book.store.series.counter company floor.1
    else
      let top := (Inner.floorsOn floor.1 floors).foldl max 0
      (Multiset.card (receiptsIn book.journal company floor.1) : Int) = top ∧
        ((receiptsIn book.journal company floor.1).sup : Int) = top

theorem Receipted.floorsInStep_iff {book : Book Inner} (h : Receipted book) (hpass : NumberingGapFree book.store)
    (company : Uuid) (floors : List (String × Int)) :
    FloorsInStep book.store company floors ↔ FloorsFit book company floors := by
  constructor
  · intro hstep floor hfloor
    obtain ⟨hcard, hsup⟩ := hstep floor hfloor
    split_ifs with hstored
    · have hcounter := (hpass company floor.1 hstored).1
      rw [← hcounter, hcard]
      refine HighWater.le_foldl_max_of_mem ?_ _
      exact List.mem_map.2 ⟨floor, List.mem_filter.2 ⟨hfloor, by simp⟩, rfl⟩
    · rw [h.unused company floor.1 hstored, counter_of_notMem hstored] at hcard hsup
      exact ⟨hcard, hsup⟩
  · intro hfit floor hfloor
    by_cases hstored : (company, floor.1) ∈ book.store.series
    · have htop : (Inner.floorsOn floor.1 floors).foldl max (book.store.series.counter company floor.1) =
          book.store.series.counter company floor.1 := by
        refine le_antisymm (HighWater.foldl_max_le le_rfl fun v hv => ?_) (HighWater.le_foldl_max _ _)
        obtain ⟨other, hother, rfl⟩ := List.mem_map.1 hv
        obtain ⟨hother, hkey⟩ := List.mem_filter.1 hother
        have hkey : other.1 = floor.1 := of_decide_eq_true hkey
        have hbelow := hfit other hother
        rw [hkey, if_pos hstored] at hbelow
        exact hbelow
      simp only [htop]
      exact hpass company floor.1 hstored
    · have hreceipts := hfit floor hfloor
      rw [if_neg hstored] at hreceipts
      simp only [h.unused company floor.1 hstored, counter_of_notMem hstored]
      exact hreceipts

/-- The entry does no harm to the numbering check: a series that it takes the first number from has met no receipt
that reads like it, its own receipt number reads like no stored series, and its floors fit. -/
@[mk_iff]
structure Entry.FitsSeries (earlier : List (Entry Inner)) (entry : Entry Inner) : Prop where
  allocated : ∀ key, entry.command.allocates = some key → (entry.companyId, key) ∉ entry.before.series →
    receiptsIn earlier entry.companyId key = 0
  receipt : ∀ number, entry.receiptNumber = some number →
    ∀ key, (entry.companyId, key) ∈ entry.before.series → seriesValue key number = none
  floors : FloorsFit { store := entry.before, journal := earlier } entry.companyId entry.command.continues

/-- A series is in step exactly if it is stored or has met no receipt. -/
theorem Receipted.inStep_iff {book : Book Inner} (h : Receipted book) (hpass : NumberingGapFree book.store)
    (company : Uuid) (key : String) : book.store.InStep company key ↔
      ((company, key) ∉ book.store.series → receiptsIn book.journal company key = 0) := by
  by_cases hstored : (company, key) ∈ book.store.series
  · exact iff_of_true (hpass company key hstored) fun hnew => absurd hstored hnew
  · rw [Inner.InStep, h.unused company key hstored, counter_of_notMem hstored]
    constructor
    · rintro ⟨hcard, -⟩ -
      exact Multiset.card_eq_zero.1 (by exact_mod_cast hcard)
    · intro hnone
      rw [hnone hstored]
      exact ⟨rfl, rfl⟩

/-- An applied commit keeps the check passing exactly if its entry fits. -/
theorem Receipted.gapFree_applied_iff {book : Book Inner} (h : Receipted book)
    (hpass : NumberingGapFree book.store) {draft : Draft Inner} {inner' : Inner}
    (hmove : NumberMove draft book.store inner') :
    NumberingGapFree inner' ↔ (appliedEntry draft book.store).FitsSeries book.journal := by
  have hfits : (appliedEntry draft book.store).FitsSeries book.journal ↔
      (∀ key, draft.command.allocates = some key → (draft.companyId, key) ∉ book.store.series →
        receiptsIn book.journal draft.companyId key = 0) ∧
      (∀ number, draft.receiptNumber = some number → ∀ key, (draft.companyId, key) ∈ book.store.series →
        seriesValue key number = none) ∧
      FloorsFit book draft.companyId draft.command.continues :=
    Entry.fitsSeries_iff _ _
  have hnofloors : FloorsFit book draft.companyId [] := fun _ hfloor => absurd hfloor List.not_mem_nil
  rw [hfits]
  cases hmove with
  | allocated key hallocates hreceipt hcontinues hseries hnumbers =>
    rw [gapFree_allocated_iff hpass (h.nonneg _ _) hseries hnumbers, h.inStep_iff hpass, hcontinues, hallocates,
      hreceipt]
    simp [hnofloors]
  | receipt number hallocates hreceipt hcontinues hseries hnumbers =>
    rw [gapFree_receipt_iff hpass hseries hnumbers, hcontinues, hallocates, hreceipt]
    simp [hnofloors]
  | raised hallocates hreceipt hseries hnumbers =>
    rw [gapFree_raised_iff hpass hseries hnumbers, h.floorsInStep_iff hpass, hallocates, hreceipt]
    simp

/-! ### Runs -/

/-- What a store operation must meet: a new report of lost numbers raises floors that fit. -/
def MemOp.FitsSeries (book : Book Inner) : MemOp → Prop
  | .lostHistory company report _ =>
    AList.lookup (company, report.recoveryId) book.store.historyRecoveries = none →
      FloorsFit book company (book.store.lostFloors company report)
  | _ => True

/-- A commit that moves neither counters nor numbers keeps the check passing. -/
theorem gapFree_congr {inner inner' : Inner} (hseries : inner'.series = inner.series)
    (hnumbers : ∀ company key, inner'.numbersIn company key = inner.numbersIn company key) :
    NumberingGapFree inner' ↔ NumberingGapFree inner := by
  simp only [NumberingGapFree, Inner.InStep, hseries, hnumbers]

/-- Another operation keeps the check passing exactly if it fits. -/
theorem Receipted.gapFree_operate_iff (codec : Codec) {book : Book Inner} (h : Receipted book) (op : MemOp)
    (env : Env) (hpass : NumberingGapFree book.store) :
    NumberingGapFree ((memBackend codec).operate env op book.store) ↔ op.FitsSeries book := by
  have hnumbers : ∀ company key, ((memBackend codec).operate env op book.store).numbersIn company key =
      book.store.numbersIn company key := fun company key => by
    rw [Inner.numbersIn, (operate_frame codec env op book.store).documents, Inner.numbersIn]
  obtain ⟨company, report, audit, rfl, hnew, hseries⟩ | ⟨hreplay, hseries⟩ :=
    operate_series codec env op book.store
  · rw [gapFree_raised_iff hpass hseries hnumbers, h.floorsInStep_iff hpass]
    exact ⟨fun hfit _ => hfit, fun hfit => hfit hnew⟩
  · refine iff_of_true ((gapFree_congr hseries hnumbers).2 hpass) ?_
    cases op with
    | lostHistory company report audit => exact fun hnew => absurd hnew (hreplay company report audit rfl)
    | _ => trivial

theorem numberingGapFree_fresh : NumberingGapFree {} := by
  intro company key hmem
  exact absurd hmem (AList.notMem_empty _)

/-- The numbering check passes all along a run exactly if no series that a number is taken from for the first time
has met a till receipt that reads like it, every receipt number reads like no stored series, and all floors fit. -/
theorem numbering_gap_free_iff (codec : Codec) (events : List (Event MemOp)) :
    (∀ run, run <+: events → NumberingGapFree (memRun codec run).book.store) ↔
      Runs.Each Entry.FitsSeries (memRun codec events).book.journal ∧
      ∀ run op env, run ++ [.operate op env] <+: events → op.FitsSeries (memRun codec run).book := by
  refine memRun_always_iff receipted_rule ⟨kept_fresh, receipted_fresh⟩ numberingGapFree_fresh ?_ ?_
    fun event _ => event.allowed_all
  · intro book₀ book draft env inner' _ h₀ hgrow h _ hpass hbuilt heffects
    exact h.2.gapFree_applied_iff hpass (built_numberMove hbuilt heffects.passed heffects.applied h₀.1 hgrow)
  · intro book op env h hpass
    exact h.2.gapFree_operate_iff codec op env hpass

/-! ### A lost number -/

/-- A restored server posts an invoice, and a device reports that it had seen a number before. -/
def invoiceAndReport (number : String) : List (Event MemOp) :=
  let env : Env := ⟨0, "2026-01-05", 0⟩
  let clerk : Actor := ⟨some 7, some 5, none⟩
  let invoice : Command := .submit
    { doctype := "Sales Invoice"
      documentId := some "SI-1"
      payload := [("posting_date", .string "2026-01-05")]
      items := [.obj [("item", .string "TEA"), ("qty", .int 1), ("rate", .int 10)]]
      idempotencyKey := none
      offlineFiscal := false }
  Event.whole 1 clerk invoice 0 env ++
    [.operate (.lostHistory 1
      { recoveryId := "r-1", lost := [⟨"Sales Invoice", "SI-9", some number, none, none⟩] }
      (auditRow env 1 clerk "recovery.lost-history" .null)) env]

/-- The counter stands at the lost number, the only invoice has number one. -/
theorem numbering_gap_after_report :
    ¬ NumberingGapFree (memRun serdeCodec (invoiceAndReport "SINV-00042")).book.store := by
  intro h
  have hcounter : (memRun serdeCodec (invoiceAndReport "SINV-00042")).book.store.series.counter 1
      "SINV" = 42 := by decide +kernel
  have hcard : Multiset.card ((memRun serdeCodec (invoiceAndReport "SINV-00042")).book.store.numbersIn 1
      "SINV") = 1 := by decide +kernel
  have hstep := (h 1 "SINV" (by decide +kernel)).1
  rw [hcounter, hcard] at hstep
  norm_num at hstep

/-- A report of the number the invoice has changes nothing. -/
example : Multiset.card ((memRun serdeCodec (invoiceAndReport "SINV-00001")).book.store.numbersIn 1
    "SINV") = 1 ∧ (memRun serdeCodec (invoiceAndReport "SINV-00001")).book.store.series.counter 1
    "SINV" = 1 := by decide +kernel

end AtlasTeam
