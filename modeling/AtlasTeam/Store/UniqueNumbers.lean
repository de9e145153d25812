import AtlasTeam.Store.Immutable

/-!
# Official numbers

Numbers come from two sources: a series counter, and the receipt numbers a till brings along. A
series never issues a number twice, because what it has issued stays at or below its counter
(`Numbered.below`); a receipt number is checked against the numbers already given. What neither side
checks is a receipt number that the series has yet to issue: `officialNumbers_clash` runs into it. Nor is
the counter checked for its range: from `i64::MAX` on `*next += 1` wraps in a release build, where the
counters here go on. `officialNumbers_unique` shows that nothing else can go wrong.
-/

namespace AtlasTeam

/-- No two official documents of one company and doctype carry the same number. -/
def UniqueNumbers (inner : Inner) : Prop :=
  ∀ company doctype id id' doc doc' number,
    AList.lookup (company, doctype, id) inner.documents = some doc →
    AList.lookup (company, doctype, id') inner.documents = some doc' →
    doc.officialNumber = some number → doc'.officialNumber = some number → id = id'

/-- A till confirmation does not bring a number its doctype's series has yet to issue. -/
def ReceiptBehind (entry : Entry Inner) : Prop :=
  ∀ number key v, entry.commit.preassignedNumber = some number →
    seriesKey entry.commit.document.doctype = some key → number = formatNumber key v →
    v ≤ entry.before.series.counter entry.commit.companyId key

/-- `i64::MAX`. -/
def maxI64 : Int := 2 ^ 63 - 1

/-- `v + 1` on an `i64` of a release build. -/
def i64Succ (v : Int) : Int := Int.bmod (v + 1) (2 ^ 64)

/-- The series a commit takes its number from has one left: `*next += 1` does not wrap. -/
def SeriesHasRoom (entry : Entry Inner) : Prop :=
  ∀ key, entry.commit.seriesKey = some key →
    entry.before.series.counter entry.commit.companyId key < maxI64

structure Numbered (inner : Inner) : Prop where
  nonneg : ∀ company key, 0 ≤ inner.series.counter company key
  /-- A number in the form of its series is at or below the counter. -/
  below : ∀ company doctype id doc key v,
    AList.lookup (company, doctype, id) inner.documents = some doc →
    seriesKey doctype = some key → doc.officialNumber = some (formatNumber key v) →
    v ≤ inner.series.counter company key
  unique : UniqueNumbers inner

theorem i64Succ_of_lt {v : Int} (hnonneg : 0 ≤ v) (h : v < maxI64) : i64Succ v = v + 1 := by
  rw [maxI64] at h
  exact Int.bmod_eq_of_le (by omega) (by omega)

theorem numbered_fresh : Numbered {} where
  nonneg _ _ := le_refl _
  below _ _ _ _ _ _ h := by simp at h
  unique _ _ _ _ _ _ _ h := by simp at h

/-- The counters do not fall and the documents stay: the numbers stay in order. -/
theorem Numbered.mono {inner inner' : Inner} (h : Numbered inner)
    (hdocuments : inner'.documents = inner.documents)
    (hcounter : ∀ company key,
      inner.series.counter company key ≤ inner'.series.counter company key) : Numbered inner' where
  nonneg company key := (h.nonneg company key).trans (hcounter company key)
  below company doctype id doc key v hdoc hkey hnumber :=
    (h.below company doctype id doc key v (hdocuments ▸ hdoc) hkey hnumber).trans
      (hcounter company key)
  unique := by
    unfold UniqueNumbers
    rw [hdocuments]
    exact h.unique

/-- An applied commit lowers no counter. -/
theorem Inner.Applied.counter_mono {commit : PostingCommit} {inner inner' : Inner}
    (h : Inner.Applied commit inner inner') (company : Uuid) (key : String) :
    inner.series.counter company key ≤ inner'.series.counter company key := by
  by_cases hcompany : company = commit.companyId
  · subst hcompany
    rw [h.counter]
    refine le_trans ?_ (HighWater.le_foldl_max _ _)
    split_ifs <;> omega
  · exact (h.counter_ne hcompany key).ge

/-- The number of the document a commit writes is new to its doctype, or the document is there
already under that number. -/
structure NumberFits (commit : PostingCommit) (inner inner' : Inner) : Prop where
  below : ∀ key v, seriesKey commit.document.doctype = some key →
    (Inner.numberedDocument commit inner).officialNumber = some (formatNumber key v) →
    v ≤ inner'.series.counter commit.companyId key
  fresh : ∀ id doc number,
    AList.lookup (commit.companyId, commit.document.doctype, id) inner.documents = some doc →
    doc.officialNumber = some number →
    (Inner.numberedDocument commit inner).officialNumber = some number → id = commit.document.id

/-- A commit whose number fits keeps the numbers in order. -/
theorem Numbered.applied {commit : PostingCommit} {inner inner' : Inner} (h : Numbered inner)
    (happlied : Inner.Applied commit inner inner') (hfits : NumberFits commit inner inner') :
    Numbered inner' := by
  have hcounter := happlied.counter_mono
  -- what stands under a key now: the commit's document, or what stood there
  have hold : ∀ key doc, AList.lookup key inner'.documents = some doc →
      key = Inner.docKey commit ∧
        doc.officialNumber = (Inner.numberedDocument commit inner).officialNumber ∨
      ∃ doc₀, AList.lookup key inner.documents = some doc₀ ∧
        doc₀.officialNumber = doc.officialNumber := by
    intro key doc hdoc
    rw [happlied.documents] at hdoc
    by_cases hkey : key = Inner.docKey commit
    · subst hkey
      obtain ⟨doc', hdoc', hfrozen⟩ := Inner.lookup_written_self commit inner
      obtain rfl : doc' = doc := Option.some.inj (hdoc'.symm.trans hdoc)
      exact .inl ⟨rfl, Inner.frozen_officialNumber_eq hfrozen⟩
    · obtain ⟨doc₀, hdoc₀, hfrozen⟩ := Inner.lookup_written_ne hkey hdoc
      exact .inr ⟨doc₀, hdoc₀, Inner.frozen_officialNumber_eq hfrozen⟩
  constructor
  · intro company key
    exact (h.nonneg company key).trans (hcounter company key)
  · intro company doctype id doc key v hdoc hkey hnumber
    rcases hold _ doc hdoc with ⟨hdocKey, hwritten⟩ | ⟨doc₀, hdoc₀, hsame⟩
    · simp only [Inner.docKey, Prod.mk.injEq] at hdocKey
      obtain ⟨rfl, rfl, rfl⟩ := hdocKey
      exact hfits.below key v hkey (hwritten ▸ hnumber)
    · exact (h.below company doctype id doc₀ key v hdoc₀ hkey (hsame.trans hnumber)).trans
        (hcounter company key)
  · intro company doctype id id' doc doc' number hdoc hdoc' hnumber hnumber'
    rcases hold _ doc hdoc with ⟨hkey, hwritten⟩ | ⟨doc₀, hdoc₀, hsame⟩ <;>
      rcases hold _ doc' hdoc' with ⟨hkey', hwritten'⟩ | ⟨doc₀', hdoc₀', hsame'⟩
    · exact (Prod.mk.inj (Prod.mk.inj (hkey.trans hkey'.symm)).2).2
    · simp only [Inner.docKey, Prod.mk.injEq] at hkey
      obtain ⟨rfl, rfl, rfl⟩ := hkey
      exact (hfits.fresh id' doc₀' number hdoc₀' (hsame'.trans hnumber')
        (hwritten ▸ hnumber)).symm
    · simp only [Inner.docKey, Prod.mk.injEq] at hkey'
      obtain ⟨rfl, rfl, rfl⟩ := hkey'
      exact hfits.fresh id doc₀ number hdoc₀ (hsame.trans hnumber) (hwritten' ▸ hnumber')
    · exact h.unique company doctype id id' doc₀ doc₀' number hdoc₀ hdoc₀' (hsame.trans hnumber)
        (hsame'.trans hnumber')

/-! ### The numbers of commits -/

/-- The next number of a series fits. -/
theorem numberFits_series {commit : PostingCommit} {inner inner' : Inner} {key : String}
    (h : Numbered inner) (happlied : Inner.Applied commit inner inner')
    (hseries : commit.seriesKey = some key) (hkey : seriesKey commit.document.doctype = some key) :
    NumberFits commit inner inner' := by
  have hnumber := Inner.allocateNumber_number hseries inner
  have hnonneg := h.nonneg commit.companyId key
  constructor
  · intro key' v hkey' hv
    obtain rfl : key' = key := Option.some.inj (hkey'.symm.trans hkey)
    rw [hnumber, Option.some.injEq] at hv
    have hmove : inner.series.counter commit.companyId key' + 1 ≤
        inner'.series.counter commit.companyId key' := by
      rw [happlied.counter, if_pos hseries]
      exact HighWater.le_foldl_max _ _
    by_cases hneg : v < 0
    · omega
    · have heq := (formatNumber_inj hkey hkey (by omega) (not_lt.1 hneg) hv).2
      omega
  · intro id doc number hdoc hdocNumber hwritten
    rw [hnumber] at hwritten
    rw [← hwritten] at hdocNumber
    have hbelow := h.below _ _ id doc key _ hdoc hkey hdocNumber
    omega

/-- A receipt number behind its series fits. -/
theorem numberFits_receipt {commit : PostingCommit} {inner inner' : Inner} {number : String}
    (happlied : Inner.Applied commit inner inner') (hpassed : Inner.Passed commit inner)
    (hseries : commit.seriesKey = none) (hpre : commit.preassignedNumber = some number)
    (hbehind : ∀ key v, seriesKey commit.document.doctype = some key →
      number = formatNumber key v → v ≤ inner.series.counter commit.companyId key) :
    NumberFits commit inner inner' := by
  have hnumber : (Inner.numberedDocument commit inner).officialNumber = some number := by
    simp [Inner.numberedDocument, Inner.allocateNumber, Inner.stampNumber, hseries, hpre]
  constructor
  · intro key v hkey hv
    have heq := Option.some.inj (hnumber.symm.trans hv)
    exact (hbehind key v hkey heq).trans (happlied.counter_mono _ _)
  · intro id doc n hdoc hdocNumber hwritten
    obtain rfl : n = number := Option.some.inj (hwritten.symm.trans hnumber)
    exact absurd hdocNumber (hpassed.untaken hpre hdoc)

/-- A document without a number fits. -/
theorem numberFits_none {commit : PostingCommit} {inner inner' : Inner}
    (h : (Inner.numberedDocument commit inner).officialNumber = none) :
    NumberFits commit inner inner' where
  below key v _ hv := by simp [h] at hv
  fresh id doc number _ _ hv := by simp [h] at hv

/-- A document that keeps the number it has fits. -/
theorem numberFits_kept {commit : PostingCommit} {inner inner' : Inner} {doc : PostedDocument}
    (h : Numbered inner) (happlied : Inner.Applied commit inner inner')
    (hdoc : AList.lookup (Inner.docKey commit) inner.documents = some doc)
    (hsame : (Inner.numberedDocument commit inner).officialNumber = doc.officialNumber) :
    NumberFits commit inner inner' where
  below key v hkey hv :=
    (h.below _ _ _ doc key v hdoc hkey (hsame ▸ hv)).trans (happlied.counter_mono _ _)
  fresh id doc' number hdoc' hnumber' hv :=
    h.unique _ _ id _ doc' doc number hdoc' hdoc hnumber' (hsame ▸ hv)

section Rule
variable {codec : Codec} {allowed : Allowed MemOp}

/-- Every commit's number fits, given that a receipt number is behind its series. -/
theorem numberFits_built {book₀ book : Book Inner} {draft : Draft Inner} {inner' : Inner}
    (hkept₀ : Kept book₀) (hgrow : Extends book₀.store book.store) (h : Numbered book.store)
    (hbuilt : Draft.Built codec (memBackend codec) allowed book₀ draft)
    (hpassed : Inner.Passed draft.commit book.store)
    (happlied : Inner.Applied draft.commit book.store inner')
    (hbehind : ReceiptBehind (appliedEntry draft book.store)) :
    NumberFits draft.commit book.store inner' := by
  have hbuild := hbuilt.build
  rw [hbuilt.snapshot] at hbuild
  cases hcommand : draft.command with
  | submit cmd =>
    rw [hcommand] at hbuild
    obtain ⟨prepared, shortfalls, settlements, updates, -, -, -, hcommit⟩ := buildSubmit_ok hbuild
    have hdoctype : draft.commit.document.doctype = cmd.doctype := by rw [hcommit]; rfl
    cases hoffline : cmd.offlineFiscal with
    | true =>
      have hseries : draft.commit.seriesKey = none := by
        rw [hcommit]
        simp [submitCommit, hoffline]
      have hpre : draft.commit.preassignedNumber = some draft.documentId := by
        rw [hcommit]
        simp [submitCommit, hoffline]
      exact numberFits_receipt happlied hpassed hseries hpre fun key v hkey hv =>
        hbehind _ key v hpre hkey hv
    | false =>
      have hseries : draft.commit.seriesKey = seriesKey cmd.doctype := by
        rw [hcommit]
        simp [submitCommit, hoffline]
      cases hkey : seriesKey cmd.doctype with
      | some key =>
        exact numberFits_series h happlied (hseries.trans hkey) (by rw [hdoctype, hkey])
      | none =>
        refine numberFits_none ?_
        have hpre : draft.commit.preassignedNumber = none := by
          rw [hcommit]
          simp [submitCommit, hoffline]
        have hnone : draft.commit.document.officialNumber = none := by rw [hcommit]; rfl
        simp [Inner.numberedDocument, Inner.allocateNumber, hseries.trans hkey, hpre, hnone]
  | cancel cmd =>
    obtain ⟨hcompany, hnew | ⟨cmd', doc₀, hcommand', hold, hdoc₀, -, hdocument, hseries, hpre, -⟩⟩ :=
      Command.build_new_or_cancel hbuild
    · exact absurd hcommand (hnew.2.2.2 cmd)
    · have hkey : Inner.docKey draft.commit = (draft.companyId, cmd'.doctype, cmd'.documentId) :=
        docKey_of_read hkept₀ hdoc₀ hdocument hcompany
      obtain ⟨doc, hdoc, hlater⟩ := hgrow.documents _ _ hdoc₀
      refine numberFits_kept h happlied (hkey ▸ hdoc) ?_
      rw [hlater.officialNumber]
      simp [Inner.numberedDocument, Inner.allocateNumber, hseries, hpre, hdocument]
  | takeOn cmd =>
    rw [hcommand] at hbuild
    obtain ⟨postingDate, stock, tb, continuations, -, -, hcommit⟩ := buildOpening_ok hbuild
    refine numberFits_none ?_
    rw [hcommit]
    rfl

/-- The numbers are in order, and no commit met a counter below zero. -/
structure NumberedBook (book : Book Inner) : Prop where
  store : Numbered book.store
  before : ∀ entry ∈ book.journal, ∀ company key, 0 ≤ entry.before.series.counter company key

/-- Numbers are in order as long as every receipt number was behind its series. -/
theorem numbered_rule : Snapshot.Rule (protocol codec (memBackend codec) allowed)
    (fun book => Kept book ∧ ((∀ entry ∈ book.journal, ReceiptBehind entry) → NumberedBook book))
    fun book book' => Extends book.store book'.store := by
  refine extends_rule_and ?_ ?_
  · intro book₀ book draft inner' hkept₀ _ hgrow _ hnumbered hbuilt hpassed happlied hreceipts
    obtain ⟨h, hbefore⟩ := hnumbered fun entry hentry => hreceipts entry (List.mem_append_left _ hentry)
    have hbehind := hreceipts _ (List.mem_append_right _ List.mem_cons_self)
    refine ⟨h.applied happlied (numberFits_built hkept₀ hgrow h hbuilt hpassed happlied hbehind), ?_⟩
    exact List.forall_mem_append.2 ⟨hbefore, List.forall_mem_singleton.2 h.nonneg⟩
  · intro book op env hnumbered _ hreceipts
    obtain ⟨h, hbefore⟩ := hnumbered hreceipts
    exact ⟨h.mono (operate_frame codec env op book.store).documents
      (operate_counter codec env op book.store), hbefore⟩

end Rule

/-- In every run in which no till confirmation brings a number its series has yet to issue, and no submit
takes a number from a series that has none left, official numbers are unique, and every number was taken
without an overflow. -/
theorem officialNumbers_unique (codec : Codec) (events : List (Event MemOp))
    (h : ∀ entry ∈ (memRun codec events).book.journal, ReceiptBehind entry ∧ SeriesHasRoom entry) :
    UniqueNumbers (memRun codec events).book.store ∧
      ∀ entry ∈ (memRun codec events).book.journal, ∀ key, entry.commit.seriesKey = some key →
        i64Succ (entry.before.series.counter entry.commit.companyId key) =
          entry.before.series.counter entry.commit.companyId key + 1 := by
  have hstart : Kept { store := {} } ∧ ((∀ entry ∈ ([] : List (Entry Inner)), ReceiptBehind entry) →
      NumberedBook { store := {} }) :=
    ⟨kept_fresh, fun _ => ⟨numbered_fresh, fun _ hentry => absurd hentry List.not_mem_nil⟩⟩
  have hrun : Kept (memRun codec events).book ∧
      ((∀ entry ∈ (memRun codec events).book.journal, ReceiptBehind entry) →
        NumberedBook (memRun codec events).book) :=
    System.invariant_of_rule numbered_rule hstart fun event _ => event.allowed_all
  have hnumbered := hrun.2 fun entry hentry => (h entry hentry).1
  exact ⟨hnumbered.store.unique, fun entry hentry key hkey =>
    i64Succ_of_lt (hnumbered.before entry hentry _ key) ((h entry hentry).2 key hkey)⟩

/-! ### Two tills -/

/-- A cash sale of one item, confirmed from a till or posted online. -/
def cashSale (id tillSeries : String) (offlineFiscal : Bool) : Command :=
  .submit
    { doctype := "POS Invoice"
      documentId := some id
      payload := [("posting_date", .string "2026-01-05"), ("till_series", .string tillSeries)]
      items := [.obj [("item", .string "TEA"), ("qty", .int 1), ("rate", .int 10)]]
      idempotencyKey := none
      offlineFiscal }

/-- A till confirms a sale made offline under its receipt number, then a sale is posted online. -/
def tillThenOnline (receipt tillSeries : String) : List (Event MemOp) :=
  let env : Env := ⟨0, "2026-01-05", 0⟩
  let till : Actor := ⟨some 7, some 5, none⟩
  Event.whole 1 till (cashSale receipt tillSeries true) 0 env ++
    Event.whole 1 till (cashSale "sale-2" "" false) 1 env

/-- A till whose series is called `POS`: its receipt `POS-00001` is the number the company's own
series issues next. -/
theorem officialNumbers_clash :
    ¬ UniqueNumbers (memRun serdeCodec (tillThenOnline "POS-00001" "POS")).book.store := by
  intro h
  have hreceipt : ((AList.lookup (1, "POS Invoice", "POS-00001")
      (memRun serdeCodec (tillThenOnline "POS-00001" "POS")).book.store.documents).bind
      PostedDocument.officialNumber) = some "POS-00001" := by decide +kernel
  have honline : ((AList.lookup (1, "POS Invoice", "sale-2")
      (memRun serdeCodec (tillThenOnline "POS-00001" "POS")).book.store.documents).bind
      PostedDocument.officialNumber) = some "POS-00001" := by decide +kernel
  obtain ⟨doc, hdoc, hnumber⟩ := Option.bind_eq_some_iff.1 hreceipt
  obtain ⟨doc', hdoc', hnumber'⟩ := Option.bind_eq_some_iff.1 honline
  exact absurd (h 1 "POS Invoice" _ _ doc doc' _ hdoc hdoc' hnumber hnumber') (by decide)

/-- With a series of its own the same till is fine. -/
theorem officialNumbers_unique_till :
    UniqueNumbers (memRun serdeCodec (tillThenOnline "T1-0001" "T1")).book.store := by
  refine (officialNumbers_unique _ _ fun entry hentry => ⟨fun number key v hpre hkey hv => ?_, ?_⟩).1
  swap
  · have hroom : ∀ entry ∈ (memRun serdeCodec (tillThenOnline "T1-0001" "T1")).book.journal,
        ∀ key ∈ entry.commit.seriesKey,
          entry.before.series.counter entry.commit.companyId key < maxI64 := by decide +kernel
    exact hroom entry hentry
  have hjournal : (memRun serdeCodec (tillThenOnline "T1-0001" "T1")).book.journal.map
      (fun entry => entry.commit.preassignedNumber) = [some "T1-0001", none] := by decide +kernel
  have hmem : entry.commit.preassignedNumber ∈ [some "T1-0001", none] :=
    hjournal ▸ List.mem_map_of_mem hentry
  obtain rfl : number = "T1-0001" := by simpa [hpre] using hmem
  -- no Team series is called T1
  have hlists := congrArg String.toList hv
  rw [formatNumber_toList] at hlists
  have hsplit : "T1-0001".toList = ['T', '1'] ++ '-' :: ['0', '0', '0', '1'] := by decide
  obtain ⟨hkeyList, -⟩ := append_dash_inj (by decide) (seriesKey_noDash hkey) (hsplit ▸ hlists)
  obtain rfl : key = "T1" := String.toList_inj.1 (hkeyList.symm.trans (by decide))
  unfold seriesKey at hkey
  split at hkey <;> simp at hkey

end AtlasTeam
