import AtlasTeam.Posting.Prepared
import AtlasTeam.Store.Idempotency
import AtlasTeam.Store.UniqueNumbers

/-!
# One device per till series

A till confirmation binds its receipt series to the device it came from: the commit refuses the series
when a stored document already carries it under another device. The series it looks for is trimmed, the
ones it looks at are the texts the clients wrote. So a series that was once confirmed with blanks around it
stays open to every other device (`till_series_shared`). Where a series that some sale is sent under with
blanks is used by one device, no two devices come to share one (`one_device_per_series`).
-/

namespace AtlasTeam

/-- The till series a document carries, as it was written. -/
def PostedDocument.tillSeries (doc : PostedDocument) : Option String :=
  (doc.payload.get "till_series").bind Value.asStr

/-- The device that confirmed a document. -/
def PostedDocument.tillDevice (doc : PostedDocument) : Option String :=
  (doc.payload.get "till_device").bind Value.asStr

/-- What a command confirms from a till. -/
def Command.offlineFiscal : Command → Bool
  | .submit cmd => cmd.offlineFiscal
  | _ => false

/-- The till series a command brings, as it was written. -/
def Command.tillSeries : Command → Option String
  | .submit cmd => (cmd.payload.get "till_series").bind Value.asStr
  | _ => none

/-- A till's sale as it is sent: the series as the client wrote it, and the device. -/
structure TillSubmit where
  companyId : Uuid
  series : String
  device : String
deriving DecidableEq

/-- The till sale that a call sends, if it passes `validate_offline_fiscal`. -/
def Event.tillSubmit {O : Type} : Event O → Option TillSubmit
  | .call companyId actor (.submit cmd) =>
    if cmd.offlineFiscal && (validateOfflineFiscal cmd actor).isOk then
      (Command.submit cmd).tillSeries.map fun series => { companyId, series, device := tillDevice actor }
    else none
  | _ => none

/-- The till sales sent in a run. -/
def tillSubmits (events : List (Event MemOp)) : List TillSubmit := events.filterMap Event.tillSubmit

/-- A series that one of the sales was sent under with blanks around it is sent by that sale's device only. -/
def PaddedByOneDevice (submits : List TillSubmit) : Prop :=
  ∀ padded ∈ submits, ∀ other ∈ submits, padded.companyId = other.companyId →
    trim padded.series ≠ padded.series → trim padded.series = trim other.series → padded.device = other.device

instance (submits : List TillSubmit) : Decidable (PaddedByOneDevice submits) :=
  inferInstanceAs (Decidable (∀ padded ∈ submits, _))

/-- A sale confirmed from a till. -/
structure TillSale where
  companyId : Uuid
  documentId : String
  series : String
  device : String

def Entry.tillSale {S : Type} (entry : Entry S) : Option TillSale :=
  if entry.command.offlineFiscal then
    entry.command.tillSeries.map fun series =>
      { companyId := entry.companyId
        documentId := entry.documentId
        series
        device := tillDevice entry.actor }
  else none

/-- The sales confirmed from tills so far. -/
def Book.tillSales {S : Type} (book : Book S) : List TillSale := book.journal.filterMap Entry.tillSale

/-- The document was confirmed as `offline_fiscal`. -/
def Book.Confirmed {S : Type} (book : Book S) (company : Uuid) (id : String) : Prop :=
  ∃ entry ∈ book.journal, entry.command.offlineFiscal = true ∧ entry.companyId = company ∧
    entry.documentId = id

instance {S : Type} (book : Book S) (company : Uuid) (id : String) : Decidable (book.Confirmed company id) :=
  inferInstanceAs (Decidable (∃ entry ∈ book.journal, entry.command.offlineFiscal = true ∧
    entry.companyId = company ∧ entry.documentId = id))

/-- POS invoices confirmed under one till series were confirmed from one device. -/
def OneDevice (book : Book Inner) : Prop :=
  ∀ company id id' doc doc', book.Confirmed company id → book.Confirmed company id' →
    AList.lookup (company, offlineFiscalDoctype, id) book.store.documents = some doc →
    AList.lookup (company, offlineFiscalDoctype, id') book.store.documents = some doc' →
    doc.tillSeries.map trim = doc'.tillSeries.map trim → doc.tillDevice = doc'.tillDevice

/-! ### What a confirmation stores -/

section Confirmations
variable {codec : Codec} {view : StoreView} {env : Env} {companyId : Uuid} {cmd : SubmitCommand}
  {documentId : String} {actor : Actor} {commit : PostingCommit}

/-- A confirmed sale is a POS invoice and brings a till series. -/
theorem validateOfflineFiscal_ok (h : validateOfflineFiscal cmd actor = .ok ()) :
    cmd.doctype = offlineFiscalDoctype ∧ ∃ series, cmd.payload.get "till_series" = some (.string series) ∧
      trim series ≠ "" := by
  unfold validateOfflineFiscal at h
  simp only [Except.throw_bind, Except.ite_throw_eq_ok] at h
  obtain ⟨hdoctype, -, h⟩ := h
  split at h
  · split at h
    · rename_i series hseries
      refine ⟨not_not.1 hdoctype, ?_⟩
      unfold asNonEmpty at hseries
      split at hseries
      · rename_i text htext
        split_ifs at hseries with hempty
        exact ⟨text, htext, hempty⟩
      · cases hseries
    · cases h
  · cases h

/-- The series of a POS invoice is posted as it was written. -/
theorem preparePayload_tillSeries {prepared : Prepared} (hdoctype : cmd.doctype = offlineFiscalDoctype)
    (h : preparePayload view env companyId cmd documentId = .ok prepared) :
    prepared.payload.get "till_series" = cmd.payload.get "till_series" := by
  obtain ⟨payload, -, hdeposit, hkept⟩ := preparePayload_ok h
  have hpayment : cmd.doctype ≠ "Payment Entry" := by
    rw [hdoctype]
    decide
  rw [applyDeposit, if_neg hpayment] at hdeposit
  obtain ⟨rfl, -⟩ := Prod.mk.inj (Except.ok.inj hdeposit)
  rw [hkept "till_series" (by decide), Map.get_insert_ne _ (by decide),
    Map.get_insert_ne _ (by decide)]

/-- The document of a confirmation carries the series as written and the device, and its commit binds the
trimmed series to the device. -/
theorem buildSubmit_till (hoffline : cmd.offlineFiscal = true)
    (hvalid : validateOfflineFiscal cmd actor = .ok ())
    (h : buildSubmit codec view env companyId cmd documentId actor = .ok commit) :
    commit.document.doctype = offlineFiscalDoctype ∧ commit.document.id = documentId ∧
    ∃ series, cmd.payload.get "till_series" = some (.string series) ∧
      commit.document.tillSeries = some series ∧
      commit.document.tillDevice = some (tillDevice actor) ∧
      commit.tillBinding = some (trim series, tillDevice actor) := by
  obtain ⟨hdoctype, series, hseries, hblank⟩ := validateOfflineFiscal_ok hvalid
  obtain ⟨prepared, shortfalls, settlements, updates, hprepared, -, -, rfl⟩ := buildSubmit_ok h
  have hstored : (storedPayload cmd actor prepared.payload).get "till_series" = some (.string series) := by
    rw [storedPayload_get (by decide) (by decide), preparePayload_tillSeries hdoctype hprepared, hseries]
  have hdevice : (storedPayload cmd actor prepared.payload).get "till_device" =
      some (.string (tillDevice actor)) := by
    rw [storedPayload, if_pos hoffline]
    exact Map.get_insert_self _ _ _
  refine ⟨hdoctype, rfl, series, hseries, ?_, ?_, ?_⟩
  · show ((storedPayload cmd actor prepared.payload).get "till_series").bind Value.asStr = some series
    rw [hstored]
    rfl
  · show ((storedPayload cmd actor prepared.payload).get "till_device").bind Value.asStr = _
    rw [hdevice]
    rfl
  · simp [submitCommit, hoffline, hstored, asNonEmpty, hblank]

end Confirmations

/-- No stored document carries the series of a commit under another device. -/
theorem Inner.Passed.oneDevice {commit : PostingCommit} {inner : Inner} (h : Passed commit inner)
    {series device device' : String} (hbinding : commit.tillBinding = some (series, device))
    {id : String} {doc : PostedDocument}
    (hdoc : AList.lookup (commit.companyId, commit.document.doctype, id) inner.documents = some doc)
    (hseries : doc.tillSeries = some series) (hdevice : doc.tillDevice = some device') :
    device' = device := by
  by_contra hne
  have htill := h.till
  unfold checkTill at htill
  have hany : inner.documents.entries.any (fun e =>
      e.1.1 = commit.companyId && e.1.2.1 = commit.document.doctype &&
        (e.2.payload.get "till_series").bind Value.asStr = some series &&
        (((e.2.payload.get "till_device").bind Value.asStr).any fun d => d ≠ device)) = true := by
    rw [PostedDocument.tillSeries] at hseries
    rw [PostedDocument.tillDevice] at hdevice
    exact List.any_eq_true.2 ⟨_, AList.mem_lookup_iff.1 hdoc, by simp [hseries, hdevice, hne]⟩
  simp only [hbinding] at htill
  rw [if_pos hany] at htill
  cases htill

/-! ### The sales of a run -/

structure Tilled (book : Book Inner) : Prop where
  confirmed : ∀ entry ∈ book.journal, entry.command.offlineFiscal = true → ∃ sale, entry.tillSale = some sale
  /-- The sale's document carries its series and its device. -/
  stored : ∀ sale ∈ book.tillSales, ∃ doc,
    AList.lookup (sale.companyId, offlineFiscalDoctype, sale.documentId) book.store.documents = some doc ∧
      doc.tillSeries = some sale.series ∧ doc.tillDevice = some sale.device
  /-- A series that is found is found under the device of the later sale. -/
  bound : book.tillSales.Pairwise fun earlier later => earlier.companyId = later.companyId →
    earlier.series = trim later.series → earlier.device = later.device

theorem tilled_fresh : Tilled { store := {} } where
  confirmed _ h := absurd h List.not_mem_nil
  stored _ h := absurd h List.not_mem_nil
  bound := List.Pairwise.nil

/-- What a document carries of its till stays as the books grow. -/
theorem Later.till {doc doc' : PostedDocument} (h : Later doc doc') :
    doc'.tillSeries = doc.tillSeries ∧ doc'.tillDevice = doc.tillDevice := by
  simp only [PostedDocument.tillSeries, PostedDocument.tillDevice, h.get (show "till_series" ≠ _ by decide),
    h.get (show "till_device" ≠ _ by decide), and_self]

theorem Tilled.stored_mono {book : Book Inner} (h : Tilled book) {inner' : Inner}
    (hgrow : Extends book.store inner') : ∀ sale ∈ book.tillSales, ∃ doc,
      AList.lookup (sale.companyId, offlineFiscalDoctype, sale.documentId) inner'.documents = some doc ∧
        doc.tillSeries = some sale.series ∧ doc.tillDevice = some sale.device := by
  intro sale hsale
  obtain ⟨doc, hdoc, hseries, hdevice⟩ := h.stored sale hsale
  obtain ⟨doc', hdoc', hlater⟩ := hgrow.documents _ doc hdoc
  exact ⟨doc', hdoc', hlater.till.1.trans hseries, hlater.till.2.trans hdevice⟩

section Rule
variable {codec : Codec} {allowed : Allowed MemOp}

/-- An entry that confirms nothing adds no sale. -/
theorem Tilled.unconfirmed {book : Book Inner} (h : Tilled book) {entry : Entry Inner} {inner' : Inner}
    (hgrow : Extends book.store inner') (hentry : entry.command.offlineFiscal = false) :
    Tilled { store := inner', journal := book.journal ++ [entry] } := by
  have hnone : entry.tillSale = none := by simp [Entry.tillSale, hentry]
  have hsales : (Book.tillSales { store := inner', journal := book.journal ++ [entry] }) =
      book.tillSales := by
    simp [Book.tillSales, List.filterMap_append, hnone]
  refine ⟨fun e he hoffline => ?_, ?_, ?_⟩
  · rcases List.mem_append.1 he with he | he
    · exact h.confirmed e he hoffline
    · obtain rfl := List.mem_singleton.1 he
      exact absurd (hentry.symm.trans hoffline) Bool.false_ne_true
  · rw [hsales]
    exact h.stored_mono hgrow
  · rw [hsales]
    exact h.bound

/-- A confirmation adds its sale, with its document, under a series that no stored document carries under
another device. -/
theorem Tilled.confirmation {book : Book Inner} (h : Tilled book) {entry : Entry Inner} {sale : TillSale}
    {inner' : Inner} (hgrow : Extends book.store inner') (hsale : entry.tillSale = some sale)
    (hstored : ∃ doc,
      AList.lookup (sale.companyId, offlineFiscalDoctype, sale.documentId) inner'.documents = some doc ∧
        doc.tillSeries = some sale.series ∧ doc.tillDevice = some sale.device)
    (hbound : ∀ id doc device,
      AList.lookup (sale.companyId, offlineFiscalDoctype, id) book.store.documents = some doc →
      doc.tillSeries = some (trim sale.series) → doc.tillDevice = some device → device = sale.device) :
    Tilled { store := inner', journal := book.journal ++ [entry] } := by
  have hsales : (Book.tillSales { store := inner', journal := book.journal ++ [entry] }) =
      book.tillSales ++ [sale] := by
    simp [Book.tillSales, List.filterMap_append, hsale]
  refine ⟨fun e he hoffline => ?_, fun s hs => ?_, ?_⟩
  · rcases List.mem_append.1 he with he | he
    · exact h.confirmed e he hoffline
    · obtain rfl := List.mem_singleton.1 he
      exact ⟨sale, hsale⟩
  · rw [hsales] at hs
    rcases List.mem_append.1 hs with hs | hs
    · exact h.stored_mono hgrow s hs
    · obtain rfl := List.mem_singleton.1 hs
      exact hstored
  · rw [hsales, List.pairwise_append]
    refine ⟨h.bound, List.pairwise_singleton _ _, fun s hs s' hs' hcompany hseries => ?_⟩
    obtain rfl := List.mem_singleton.1 hs'
    obtain ⟨doc, hdoc, hdocSeries, hdocDevice⟩ := h.stored s hs
    rw [hcompany] at hdoc
    rw [hseries] at hdocSeries
    exact hbound _ doc _ hdoc hdocSeries hdocDevice

/-- Applying an admissible draft keeps the sales with their documents. -/
theorem Tilled.applied {book₀ book : Book Inner} {draft : Draft Inner} {inner' : Inner} (h : Tilled book)
    (hbuilt : Draft.Built codec (memBackend codec) allowed book₀ draft)
    (hpassed : Inner.Passed draft.commit book.store)
    (happlied : Inner.Applied draft.commit book.store inner') (hgrow : Extends book.store inner')
    (hadmissible : draft.command.Admissible draft.actor) :
    Tilled { store := inner', journal := book.journal ++ [appliedEntry draft book.store] } := by
  cases hoffline : draft.command.offlineFiscal with
  | false => exact h.unconfirmed hgrow hoffline
  | true =>
    have hbuild := hbuilt.build
    cases hcommand : draft.command with
    | cancel cmd => rw [hcommand] at hoffline; cases hoffline
    | takeOn cmd => rw [hcommand] at hoffline; cases hoffline
    | submit cmd =>
      rw [hcommand] at hbuild hoffline hadmissible
      have hcompany := (Command.build_new_or_cancel hbuild).1
      obtain ⟨hdoctype, hid, series, hseries, hdocSeries, hdocDevice, hbinding⟩ :=
        buildSubmit_till hoffline (hadmissible.2 hoffline) hbuild
      have hsale : (appliedEntry draft book.store).tillSale =
          some ⟨draft.companyId, draft.documentId, series, tillDevice draft.actor⟩ := by
        have hcmd : (appliedEntry draft book.store).command = .submit cmd := hcommand
        have hflag : cmd.offlineFiscal = true := hoffline
        simp only [Entry.tillSale, hcmd, Command.offlineFiscal, hflag, if_true, Command.tillSeries, hseries]
        rfl
      refine h.confirmation hgrow hsale ?_ fun id doc device hdoc hfound hdevice => ?_
      · obtain ⟨doc, hdoc, hfrozen⟩ := Inner.lookup_written_self draft.commit book.store
        rw [Inner.docKey, hcompany, hdoctype, hid, ← happlied.documents] at hdoc
        have hlater := (Later.of_frozen hfrozen).till
        rw [Inner.numberedDocument_eq] at hlater
        exact ⟨doc, hdoc, hlater.1.trans hdocSeries, hlater.2.trans hdocDevice⟩
      · rw [← hcompany, ← hdoctype] at hdoc
        exact hpassed.oneDevice hbinding hdoc hfound hdevice

/-- In every run of admissible commands the sales stand with their documents. -/
theorem tilled_rule : Snapshot.Rule (protocol codec (memBackend codec) allowed)
    (fun book => Kept book ∧
      ((∀ entry ∈ book.journal, entry.command.Admissible entry.actor) → Tilled book))
    fun book book' => Extends book.store book'.store := by
  refine extends_rule_and ?_ ?_
  · intro book₀ book draft inner' hkept₀ _ hgrow hkept h hbuilt hpassed happlied hadmissible
    obtain ⟨hearlier, hlast⟩ := List.forall_mem_append.1 hadmissible
    have hextends := (kept_applied hkept₀ hgrow hkept hbuilt hpassed happlied).2
    exact (h hearlier).applied hbuilt hpassed happlied hextends (hlast _ (List.mem_singleton_self _))
  · intro book op env h _ hadmissible
    have htilled := h hadmissible
    exact ⟨htilled.confirmed, htilled.stored_mono (operate_frame codec env op book.store).extends,
      htilled.bound⟩

theorem memRun_tilled (codec : Codec) (events : List (Event MemOp)) :
    Tilled (memRun codec events).book := by
  have hstart : Kept { store := {} } ∧
      ((∀ entry ∈ ([] : List (Entry Inner)), entry.command.Admissible entry.actor) →
        Tilled { store := {} }) := ⟨kept_fresh, fun _ => tilled_fresh⟩
  have hrun : Kept (memRun codec events).book ∧ _ :=
    System.invariant_of_rule (@tilled_rule codec _) hstart fun event _ => event.allowed_all
  exact hrun.2 fun entry hentry =>
    (System.journal_faithful codec (memBackend codec) events entry hentry).1

end Rule

/-! ### One device -/

/-- The sale of a confirmed document. -/
theorem Tilled.sale_of_confirmed {book : Book Inner} (h : Tilled book) {company : Uuid} {id : String}
    (hconfirmed : book.Confirmed company id) :
    ∃ sale ∈ book.tillSales, sale.companyId = company ∧ sale.documentId = id := by
  obtain ⟨entry, hentry, hoffline, rfl, rfl⟩ := hconfirmed
  obtain ⟨sale, hsale⟩ := h.confirmed entry hentry hoffline
  refine ⟨sale, List.mem_filterMap.2 ⟨entry, hentry, hsale⟩, ?_⟩
  simp only [Entry.tillSale, hoffline, if_true, Option.map_eq_some_iff] at hsale
  obtain ⟨series, -, rfl⟩ := hsale
  exact ⟨rfl, rfl⟩

theorem Book.confirmed_of_sale {book : Book Inner} {sale : TillSale} (h : sale ∈ book.tillSales) :
    book.Confirmed sale.companyId sale.documentId := by
  obtain ⟨entry, hentry, hsale⟩ := List.mem_filterMap.1 h
  unfold Entry.tillSale at hsale
  split_ifs at hsale with hoffline
  obtain ⟨series, -, rfl⟩ := Option.map_eq_some_iff.1 hsale
  exact ⟨entry, hentry, hoffline, rfl, rfl⟩

/-- Sales of one company under one series come from one device. -/
def SameTill (sale sale' : TillSale) : Prop :=
  sale.companyId = sale'.companyId → trim sale.series = trim sale'.series → sale.device = sale'.device

/-- The documents show what the sales do. -/
theorem Tilled.oneDevice_iff {book : Book Inner} (h : Tilled book) :
    OneDevice book ↔ ∀ sale ∈ book.tillSales, ∀ sale' ∈ book.tillSales, SameTill sale sale' := by
  constructor
  · intro hone sale hsale sale' hsale' hcompany htrim
    obtain ⟨doc, hdoc, hseries, hdevice⟩ := h.stored sale hsale
    obtain ⟨doc', hdoc', hseries', hdevice'⟩ := h.stored sale' hsale'
    rw [← hcompany] at hdoc'
    have hsame : doc.tillDevice = doc'.tillDevice := by
      refine hone _ _ _ doc doc' (Book.confirmed_of_sale hsale) ?_ hdoc hdoc' ?_
      · rw [hcompany]
        exact Book.confirmed_of_sale hsale'
      · rw [hseries, hseries', Option.map_some, Option.map_some, htrim]
    rw [hdevice, hdevice'] at hsame
    exact Option.some.inj hsame
  · intro hsales company id id' doc doc' hconfirmed hconfirmed' hdoc hdoc' htrim
    obtain ⟨sale, hsale, rfl, rfl⟩ := h.sale_of_confirmed hconfirmed
    obtain ⟨sale', hsale', hcompany, rfl⟩ := h.sale_of_confirmed hconfirmed'
    obtain ⟨_, hstored, hseries, hdevice⟩ := h.stored sale hsale
    obtain ⟨_, hstored', hseries', hdevice'⟩ := h.stored sale' hsale'
    obtain rfl := Option.some.inj (hstored.symm.trans hdoc)
    obtain rfl := Option.some.inj (hstored'.symm.trans (hcompany ▸ hdoc'))
    rw [hseries, hseries', Option.map_some, Option.map_some, Option.some.injEq] at htrim
    rw [hdevice, hdevice', hsales sale hsale sale' hsale' hcompany.symm htrim]

/-- The check catches every series that was written without blanks. -/
theorem Tilled.sameTill {book : Book Inner} (h : Tilled book)
    (hpadded : ∀ earlier ∈ book.tillSales, ∀ later ∈ book.tillSales, trim earlier.series ≠ earlier.series →
      SameTill earlier later) :
    ∀ sale ∈ book.tillSales, ∀ sale' ∈ book.tillSales, SameTill sale sale' := by
  have hpairs : book.tillSales.Pairwise SameTill := by
    refine h.bound.imp_of_mem fun {earlier later} hearlier hlater hbound => ?_
    by_cases hplain : trim earlier.series = earlier.series
    · exact fun hcompany htrim => hbound hcompany (hplain.symm.trans htrim)
    · exact hpadded earlier hearlier later hlater hplain
  have : Std.Symm SameTill :=
    ⟨fun _ _ hsame hcompany htrim => (hsame hcompany.symm htrim.symm).symm⟩
  exact fun sale hsale sale' hsale' =>
    hpairs.forall_of_forall (fun _ _ _ _ => rfl) hsale hsale'

/-- A confirmed sale was sent in the run. -/
theorem tillSubmit_of_sale (codec : Codec) (events : List (Event MemOp)) {sale : TillSale}
    (hsale : sale ∈ (memRun codec events).book.tillSales) :
    ⟨sale.companyId, sale.series, sale.device⟩ ∈ tillSubmits events := by
  obtain ⟨entry, hentry, hsale⟩ := List.mem_filterMap.1 hsale
  have hmade := System.journal_made codec (memBackend codec) events entry hentry
  have hadmissible := (System.journal_faithful codec (memBackend codec) events entry hentry).1
  refine List.mem_filterMap.2 ⟨_, hmade, ?_⟩
  unfold Entry.tillSale at hsale
  split_ifs at hsale with hoffline
  obtain ⟨series, hseries, rfl⟩ := Option.map_eq_some_iff.1 hsale
  cases hcommand : entry.command with
  | cancel cmd => rw [hcommand] at hoffline; cases hoffline
  | takeOn cmd => rw [hcommand] at hoffline; cases hoffline
  | submit cmd =>
    rw [hcommand] at hoffline hseries hadmissible
    have hflag : cmd.offlineFiscal = true := hoffline
    have hvalid : (validateOfflineFiscal cmd entry.actor).isOk = true := by
      rw [hadmissible.2 hoffline]
      rfl
    simp only [Event.tillSubmit, hflag, hvalid, Bool.and_self, if_true, hseries, Option.map_some]

/-- In every run in which each series that a sale is sent under with blanks around it is sent by one device of the
company, the POS invoices confirmed under one till series come from one device, in every state. -/
theorem one_device_per_series (codec : Codec) (events : List (Event MemOp))
    (hpadded : PaddedByOneDevice (tillSubmits events)) :
    ∀ run, run <+: events → OneDevice (memRun codec run).book := by
  intro run hrun
  have htilled := memRun_tilled codec run
  refine htilled.oneDevice_iff.2 (htilled.sameTill fun earlier hearlier later hlater hblanks hcompany htrim => ?_)
  have hsent : ∀ {sale}, sale ∈ (memRun codec run).book.tillSales →
      ⟨sale.companyId, sale.series, sale.device⟩ ∈ tillSubmits events :=
    fun hsale => (hrun.filterMap Event.tillSubmit).subset (tillSubmit_of_sale codec run hsale)
  exact hpadded _ (hsent hearlier) _ (hsent hlater) hcompany hblanks htrim

/-- Device 5 writes its series with a blank once, and device 6 keeps to a series of its own. -/
def tillsApart : List (Event MemOp) :=
  let env : Env := ⟨0, "2026-01-05", 0⟩
  Event.whole 1 ⟨some 7, some 5, none⟩ (cashSale "POS-TILL1-0001" "TILL1 " true) 0 env ++
    Event.whole 1 ⟨some 7, some 6, none⟩ (cashSale "POS-TILL2-0001" "TILL2" true) 1 env ++
    Event.whole 1 ⟨some 7, some 5, none⟩ (cashSale "POS-TILL1-0002" "TILL1" true) 2 env

theorem one_device_per_series_apart :
    (memRun serdeCodec tillsApart).book.tillSales.map TillSale.series = ["TILL1 ", "TILL2", "TILL1"] ∧
      ∀ run, run <+: tillsApart → OneDevice (memRun serdeCodec run).book :=
  ⟨by decide +kernel, one_device_per_series serdeCodec tillsApart (by decide +kernel)⟩

/-! ### Two tills under one series -/

/-- Two tills confirm a sale each, the second under the series `TILL1`. -/
def twoTills (series : String) : List (Event MemOp) :=
  let env : Env := ⟨0, "2026-01-05", 0⟩
  Event.whole 1 ⟨some 7, some 5, none⟩ (cashSale "POS-TILL1-0001" series true) 0 env ++
    Event.whole 1 ⟨some 7, some 6, none⟩ (cashSale "POS-TILL1-0002" "TILL1" true) 1 env

/-- The first till writes a blank after its series, and the second is let in. -/
theorem till_series_shared :
    ¬ ∀ run, run <+: twoTills "TILL1 " → OneDevice (memRun serdeCodec run).book := by
  intro h
  have hconfirmed : ∀ id ∈ ["POS-TILL1-0001", "POS-TILL1-0002"],
      (memRun serdeCodec (twoTills "TILL1 ")).book.Confirmed 1 id := by
    decide +kernel
  have hfirst : ((AList.lookup (1, offlineFiscalDoctype, "POS-TILL1-0001")
      (memRun serdeCodec (twoTills "TILL1 ")).book.store.documents).map fun doc =>
        (doc.tillSeries, doc.tillDevice)) = some (some "TILL1 ", some (Uuid.render 5)) := by
    decide +kernel
  have hsecond : ((AList.lookup (1, offlineFiscalDoctype, "POS-TILL1-0002")
      (memRun serdeCodec (twoTills "TILL1 ")).book.store.documents).map fun doc =>
        (doc.tillSeries, doc.tillDevice)) = some (some "TILL1", some (Uuid.render 6)) := by
    decide +kernel
  obtain ⟨doc, hdoc, htill⟩ := Option.map_eq_some_iff.1 hfirst
  obtain ⟨doc', hdoc', htill'⟩ := Option.map_eq_some_iff.1 hsecond
  obtain ⟨hseries, hdevice⟩ := Prod.mk.inj htill
  obtain ⟨hseries', hdevice'⟩ := Prod.mk.inj htill'
  have hsame := h _ List.prefix_rfl 1 _ _ doc doc' (hconfirmed _ (by simp)) (hconfirmed _ (by simp)) hdoc
    hdoc' (by rw [hseries, hseries']; decide)
  rw [hdevice, hdevice'] at hsame
  revert hsame
  decide

end AtlasTeam
