import AtlasTeam.Store.Backend

/-!
# Official history is immutable

`Extends` orders the states of the books: ledger rows are only appended, and a document keeps its
identity, its number, its creation time and its payload up to the outstanding amount while its
docstatus moves at most from 1 to 2. Together with the invariant `Kept` (documents stand under their
own key, and a cancelled document is cancelled by one entry of the journal) it is kept by every
commit, also by a cancel that writes back a document it read earlier (`extends_rule`).
-/

namespace AtlasTeam

/-- `doc'` is `doc` at the same time or later. -/
structure Later (doc doc' : PostedDocument) : Prop where
  frozen : { Inner.frozen doc' with docstatus := doc.docstatus } = Inner.frozen doc
  docstatus : doc'.docstatus = doc.docstatus ∨ doc.docstatus = 1 ∧ doc'.docstatus = 2

theorem Later.refl (doc : PostedDocument) : Later doc doc := ⟨rfl, .inl rfl⟩

theorem Later.of_frozen {doc doc' : PostedDocument}
    (h : Inner.frozen doc' = Inner.frozen doc) : Later doc doc' := by
  have hstatus : doc'.docstatus = doc.docstatus := by
    have hfield := congrArg PostedDocument.docstatus h
    exact hfield
  refine ⟨?_, .inl hstatus⟩
  rw [h]
  rfl

theorem Later.trans {a b c : PostedDocument} (hab : Later a b) (hbc : Later b c) : Later a c := by
  constructor
  · have h := congrArg (fun d : PostedDocument => { d with docstatus := a.docstatus }) hbc.frozen
    exact h.trans hab.frozen
  · rcases hab.docstatus with h₁ | ⟨h₁, h₂⟩ <;> rcases hbc.docstatus with h₃ | ⟨h₃, h₄⟩
    · exact .inl (h₃.trans h₁)
    · exact .inr ⟨h₁ ▸ h₃, h₄⟩
    · exact .inr ⟨h₁, h₃.trans h₂⟩
    · exact .inr ⟨h₁, h₄⟩

section Fields
variable {doc doc' : PostedDocument} (h : Later doc doc')
include h

theorem Later.id : doc'.id = doc.id := by
  have hfield := congrArg PostedDocument.id h.frozen
  exact hfield

theorem Later.companyId : doc'.companyId = doc.companyId := by
  have hfield := congrArg PostedDocument.companyId h.frozen
  exact hfield

theorem Later.doctype : doc'.doctype = doc.doctype := by
  have hfield := congrArg PostedDocument.doctype h.frozen
  exact hfield

theorem Later.officialNumber : doc'.officialNumber = doc.officialNumber := by
  have hfield := congrArg PostedDocument.officialNumber h.frozen
  exact hfield

theorem Later.createdAt : doc'.createdAt = doc.createdAt := by
  have hfield := congrArg PostedDocument.createdAt h.frozen
  exact hfield

theorem Later.payload : doc'.payload.withoutField "outstanding_amount" =
    doc.payload.withoutField "outstanding_amount" := by
  have hfield := congrArg PostedDocument.payload h.frozen
  exact hfield

/-- Every field but the outstanding amount stays as it is. -/
theorem Later.get {field : String} (hfield : field ≠ "outstanding_amount") :
    doc'.payload.get field = doc.payload.get field := by
  rw [← Value.get_withoutField_ne doc'.payload hfield, h.payload,
    Value.get_withoutField_ne _ hfield]

end Fields

/-- The books of `inner'` are those of `inner`, later. -/
structure Extends (inner inner' : Inner) : Prop where
  glEntries : ∀ company, inner.glEntries.log company <+: inner'.glEntries.log company
  stockLedger : ∀ company, inner.stockLedger.log company <+: inner'.stockLedger.log company
  partyTransactions : ∀ company,
    inner.partyTransactions.log company <+: inner'.partyTransactions.log company
  taxTransactions : ∀ company,
    inner.taxTransactions.log company <+: inner'.taxTransactions.log company
  settlements : ∀ company, inner.settlements.log company <+: inner'.settlements.log company
  documents : ∀ key doc, AList.lookup key inner.documents = some doc →
    ∃ doc', AList.lookup key inner'.documents = some doc' ∧ Later doc doc'

theorem Extends.refl (inner : Inner) : Extends inner inner where
  glEntries _ := List.prefix_rfl
  stockLedger _ := List.prefix_rfl
  partyTransactions _ := List.prefix_rfl
  taxTransactions _ := List.prefix_rfl
  settlements _ := List.prefix_rfl
  documents _ doc h := ⟨doc, h, Later.refl doc⟩

theorem Extends.trans {a b c : Inner} (hab : Extends a b) (hbc : Extends b c) : Extends a c where
  glEntries company := (hab.glEntries company).trans (hbc.glEntries company)
  stockLedger company := (hab.stockLedger company).trans (hbc.stockLedger company)
  partyTransactions company := (hab.partyTransactions company).trans (hbc.partyTransactions company)
  taxTransactions company := (hab.taxTransactions company).trans (hbc.taxTransactions company)
  settlements company := (hab.settlements company).trans (hbc.settlements company)
  documents key doc h := by
    obtain ⟨doc₁, h₁, hlater₁⟩ := hab.documents key doc h
    obtain ⟨doc₂, h₂, hlater₂⟩ := hbc.documents key doc₁ h₁
    exact ⟨doc₂, h₂, hlater₁.trans hlater₂⟩

theorem SameBooks.extends {inner inner' : Inner} (h : SameBooks inner inner') :
    Extends inner inner' where
  glEntries company := by rw [h.glEntries]
  stockLedger company := by rw [h.stockLedger]
  partyTransactions company := by rw [h.partyTransactions]
  taxTransactions company := by rw [h.taxTransactions]
  settlements company := by rw [h.settlements]
  documents key doc hdoc := ⟨doc, by rw [h.documents, hdoc], Later.refl doc⟩

theorem Table.log_prefix_extend {V : Type} (t : Table Uuid (List V)) (company company' : Uuid)
    (rows : List V) : t.log company' <+: (t.extend company rows).log company' := by
  by_cases h : company' = company
  · rw [h, Table.log_extend_self]
    exact List.prefix_append _ _
  · rw [Table.log_extend_ne _ h]

/-- An applied commit extends the books when the document it writes does. -/
theorem Inner.Applied.extends {commit : PostingCommit} {inner inner' : Inner}
    (h : Inner.Applied commit inner inner')
    (hdoc : ∀ doc, AList.lookup (Inner.docKey commit) inner.documents = some doc →
      Later doc (Inner.numberedDocument commit inner)) : Extends inner inner' where
  glEntries company := h.glEntries ▸ Table.log_prefix_extend _ _ _ _
  stockLedger company := h.stockLedger ▸ Table.log_prefix_extend _ _ _ _
  partyTransactions company := h.partyTransactions ▸ Table.log_prefix_extend _ _ _ _
  taxTransactions company := h.taxTransactions ▸ Table.log_prefix_extend _ _ _ _
  settlements company := h.settlements ▸ Table.log_prefix_extend _ _ _ _
  documents key doc hlookup := by
    rw [h.documents]
    by_cases hkey : key = Inner.docKey commit
    · subst hkey
      obtain ⟨doc', hdoc', hfrozen⟩ := Inner.lookup_written_self commit inner
      exact ⟨doc', hdoc', (hdoc doc hlookup).trans (Later.of_frozen hfrozen)⟩
    · have hmap := Inner.lookup_written commit inner key
      rw [if_neg hkey, hlookup, Option.map_some] at hmap
      obtain ⟨doc', hdoc', hfrozen⟩ := Option.map_eq_some_iff.1 hmap
      exact ⟨doc', hdoc', Later.of_frozen hfrozen⟩

/-! ### The invariant of the books -/

structure Kept (book : Book Inner) : Prop where
  /-- A document stands under its own key. -/
  keyed : ∀ key doc, AList.lookup key book.store.documents = some doc →
    key = (doc.companyId, doc.doctype, doc.id)
  /-- What the journal cancelled is cancelled. -/
  cancelled : ∀ key ∈ book.journal.filterMap Entry.cancelledKey,
    ∃ doc, AList.lookup key book.store.documents = some doc ∧ doc.docstatus = 2
  /-- No document is cancelled twice. -/
  once : (book.journal.filterMap Entry.cancelledKey).Nodup

theorem kept_fresh : Kept { store := {} } where
  keyed _ _ h := by simp at h
  cancelled _ h := absurd h List.not_mem_nil
  once := List.nodup_nil

/-- Growth of the books keeps what the journal says. -/
theorem Kept.cancelled_mono {book : Book Inner} (h : Kept book) {inner' : Inner}
    (hgrow : Extends book.store inner') : ∀ key ∈ book.journal.filterMap Entry.cancelledKey,
      ∃ doc, AList.lookup key inner'.documents = some doc ∧ doc.docstatus = 2 := by
  intro key hkey
  obtain ⟨doc, hdoc, hstatus⟩ := h.cancelled key hkey
  obtain ⟨doc', hdoc', hlater⟩ := hgrow.documents key doc hdoc
  refine ⟨doc', hdoc', ?_⟩
  rcases hlater.docstatus with h' | ⟨h', -⟩
  · exact h'.trans hstatus
  · omega

/-- After an applied commit every document stands under its own key. -/
theorem keyed_written {commit : PostingCommit} {inner : Inner}
    (hkeyed : ∀ key doc, AList.lookup key inner.documents = some doc →
      key = (doc.companyId, doc.doctype, doc.id))
    (hcompany : commit.document.companyId = commit.companyId) (key : Uuid × String × String)
    (doc : PostedDocument)
    (h : AList.lookup key (Inner.writtenDocuments commit inner) = some doc) :
    key = (doc.companyId, doc.doctype, doc.id) := by
  by_cases hkey : key = Inner.docKey commit
  · subst hkey
    obtain ⟨doc', hdoc', hfrozen⟩ := Inner.lookup_written_self commit inner
    obtain rfl : doc' = doc := Option.some.inj (hdoc'.symm.trans h)
    rw [Inner.numberedDocument_eq] at hfrozen
    have hlater := Later.of_frozen hfrozen
    rw [hlater.companyId, hlater.doctype, hlater.id, hcompany]
    rfl
  · obtain ⟨doc₀, hdoc₀, hfrozen⟩ := Inner.lookup_written_ne hkey h
    have hlater := Later.of_frozen hfrozen
    rw [hkeyed key doc₀ hdoc₀, hlater.companyId, hlater.doctype, hlater.id]

section Rule
variable {codec : Codec} {allowed : Allowed MemOp}

/-- A cancelled document is the one that was read, later: what it writes back is what stands there
but for the outstanding amount. -/
theorem later_cancelled {doc₀ doc : PostedDocument} (h : Later doc₀ doc) (hstatus₀ : doc₀.docstatus = 1)
    (hstatus : doc.docstatus = 1) : Later doc { doc₀ with docstatus := 2 } := by
  refine ⟨?_, .inr ⟨hstatus, rfl⟩⟩
  have hfrozen := h.frozen
  rw [hstatus₀, ← hstatus] at hfrozen
  exact congrArg (fun d : PostedDocument => { d with docstatus := doc.docstatus }) hfrozen.symm

/-- The document a cancel read stands under its own key, so it is the one that is written. -/
theorem docKey_of_read {book : Book Inner} (h : Kept book) {company : Uuid} {doctype id : String}
    {doc : PostedDocument} {commit : PostingCommit}
    (hdoc : book.store.view.postedDocument company doctype id = some doc)
    (hdocument : commit.document = { doc with docstatus := 2 })
    (hcompany : commit.companyId = company) : Inner.docKey commit = (company, doctype, id) := by
  obtain ⟨-, h₂⟩ := Prod.mk.inj (h.keyed _ _ hdoc)
  obtain ⟨rfl, rfl⟩ := Prod.mk.inj h₂
  rw [Inner.docKey, hdocument, hcompany]

/-- Applying a draft keeps the invariant and extends the books. -/
theorem kept_applied {book₀ book : Book Inner} {draft : Draft Inner} {inner' : Inner}
    (hkept₀ : Kept book₀) (hgrow : Extends book₀.store book.store) (hkept : Kept book)
    (hbuilt : Draft.Built codec (memBackend codec) allowed book₀ draft)
    (hpassed : Inner.Passed draft.commit book.store)
    (happlied : Inner.Applied draft.commit book.store inner') :
    Kept { store := inner', journal := book.journal ++ [appliedEntry draft book.store] } ∧
      Extends book.store inner' := by
  have hbuild := hbuilt.build
  rw [hbuilt.snapshot] at hbuild
  obtain ⟨hcompany, hnew | ⟨cmd, doc₀, hcommand, hold, hdoc₀, hstatus₀, hdocument, hseries, hpre, -⟩⟩ :=
    Command.build_new_or_cancel hbuild
  · obtain ⟨hisNew, hdocCompany, -, hnotCancel⟩ := hnew
    have habsent := hpassed.absent hisNew
    have hextends : Extends book.store inner' :=
      happlied.extends fun doc hdoc => absurd (habsent.symm.trans hdoc) (by simp)
    have hentry : (appliedEntry draft book.store).cancelledKey = none := by
      unfold Entry.cancelledKey
      cases hcommand : (appliedEntry draft book.store).command with
      | cancel cmd => exact absurd hcommand (hnotCancel cmd)
      | _ => rfl
    refine ⟨⟨?_, ?_, ?_⟩, hextends⟩
    · rw [happlied.documents]
      exact keyed_written hkept.keyed (hdocCompany.trans hcompany.symm)
    · simpa [hentry] using hkept.cancelled_mono hextends
    · simpa [hentry] using hkept.once
  · have hkey₀ := hkept₀.keyed _ _ hdoc₀
    have hkey : Inner.docKey draft.commit = (draft.companyId, cmd.doctype, cmd.documentId) :=
      docKey_of_read hkept₀ hdoc₀ hdocument hcompany
    obtain ⟨doc, hdoc, hstatus⟩ := hpassed.submitted hold
    obtain ⟨doc₁, hdoc₁, hlater⟩ := hgrow.documents _ _ hdoc₀
    obtain rfl : doc₁ = doc := Option.some.inj (hdoc₁.symm.trans (hkey ▸ hdoc))
    have hnumbered : Inner.numberedDocument draft.commit book.store = { doc₀ with docstatus := 2 } := by
      simp [Inner.numberedDocument, Inner.allocateNumber, hseries, hpre, hdocument]
    have hextends : Extends book.store inner' := happlied.extends fun doc' hdoc' => by
      obtain rfl : doc' = doc₁ := Option.some.inj (hdoc'.symm.trans hdoc)
      rw [hnumbered]
      exact later_cancelled hlater hstatus₀ hstatus
    have hentry : (appliedEntry draft book.store).cancelledKey =
        some (Inner.docKey draft.commit) := by
      have hcmd : (appliedEntry draft book.store).command = .cancel cmd := hcommand
      rw [hkey, Entry.cancelledKey, hcmd]
      rfl
    have hwritten : ∃ doc', AList.lookup (Inner.docKey draft.commit) inner'.documents = some doc' ∧
        doc'.docstatus = 2 := by
      obtain ⟨doc', hdoc', hfrozen⟩ := Inner.lookup_written_self draft.commit book.store
      refine ⟨doc', happlied.documents ▸ hdoc', ?_⟩
      have hfield := congrArg PostedDocument.docstatus hfrozen
      rw [hnumbered] at hfield
      exact hfield
    refine ⟨⟨?_, ?_, ?_⟩, hextends⟩
    · rw [happlied.documents]
      refine keyed_written hkept.keyed ?_
      rw [hdocument, hcompany]
      exact (Prod.mk.inj hkey₀).1.symm
    · intro key hmem
      rcases List.mem_append.1 (List.filterMap_append .. ▸ hmem) with hmem | hmem
      · exact hkept.cancelled_mono hextends key hmem
      · obtain rfl : key = Inner.docKey draft.commit := by simpa [hentry] using hmem
        exact hwritten
    · rw [List.filterMap_append, List.nodup_append]
      refine ⟨hkept.once, by simp [hentry], fun a ha b hb => ?_⟩
      obtain rfl : b = Inner.docKey draft.commit := by simpa [hentry] using hb
      -- it was submitted until now, so no earlier entry cancelled it
      rintro rfl
      obtain ⟨doc', hdoc', hstatus'⟩ := hkept.cancelled _ ha
      obtain rfl : doc' = doc₁ := Option.some.inj (hdoc'.symm.trans hdoc)
      omega

/-- Every step keeps the invariant and extends the books. -/
theorem extends_rule : Snapshot.Rule (protocol codec (memBackend codec) allowed) Kept
    fun book book' => Extends book.store book'.store where
  refl book := Extends.refl book.store
  trans := Extends.trans
  commit := by
    rintro book₀ book _ draft hkept₀ hgrow hkept hbuilt ⟨env, rfl⟩
    rcases commit_cases codec env draft book with hsame | ⟨hpassed, inner', happlied, hbook⟩
    · rw [hsame]
      exact ⟨hkept, Extends.refl book.store⟩
    · rw [hbook]
      exact kept_applied hkept₀ hgrow hkept hbuilt hpassed happlied
  other := by
    rintro book _ hkept ⟨op, env, -, rfl⟩
    have hframe := operate_frame codec env op book.store
    refine ⟨⟨?_, ?_, hkept.once⟩, hframe.extends⟩
    · rw [hframe.documents]
      exact hkept.keyed
    · exact hkept.cancelled_mono hframe.extends

/-- An invariant on top of the growth of the books: what an applied draft and another operation do to
it. -/
theorem extends_rule_and {J : Book Inner → Prop}
    (hcommit : ∀ {book₀ book : Book Inner} {draft : Draft Inner} {inner' : Inner},
      Kept book₀ → J book₀ → Extends book₀.store book.store → Kept book → J book →
      Draft.Built codec (memBackend codec) allowed book₀ draft →
      Inner.Passed draft.commit book.store → Inner.Applied draft.commit book.store inner' →
      J { store := inner', journal := book.journal ++ [appliedEntry draft book.store] })
    (hoperate : ∀ {book : Book Inner} {op : MemOp} {env : Env}, J book → allowed.operate op →
      J { book with store := (memBackend codec).operate env op book.store }) :
    Snapshot.Rule (protocol codec (memBackend codec) allowed) (fun book => Kept book ∧ J book)
      fun book book' => Extends book.store book'.store := by
  refine extends_rule.and ?_ ?_
  · rintro book₀ book _ draft hkept₀ hJ₀ hgrow hkept hJ hbuilt ⟨env, rfl⟩
    rcases commit_cases codec env draft book with hsame | ⟨hpassed, inner', happlied, hbook⟩
    · rw [hsame]
      exact hJ
    · rw [hbook]
      exact hcommit hkept₀ hJ₀ hgrow hkept hJ hbuilt hpassed happlied
  · rintro book _ - hJ ⟨op, env, hop, rfl⟩
    exact hoperate hJ hop

/-- Between any two states of any run, ledger rows are only appended and official documents keep
what they are, up to the outstanding amount and a cancellation; and every document is cancelled at
most once. -/
theorem official_history_immutable (codec : Codec) (early late : List (Event MemOp)) :
    let s := (memRun codec early).book.store
    let t := (memRun codec (early ++ late)).book.store
    (∀ company, s.glEntries.log company <+: t.glEntries.log company ∧
      s.stockLedger.log company <+: t.stockLedger.log company ∧
      s.partyTransactions.log company <+: t.partyTransactions.log company ∧
      s.taxTransactions.log company <+: t.taxTransactions.log company ∧
      s.settlements.log company <+: t.settlements.log company) ∧
    (∀ key doc, AList.lookup key s.documents = some doc →
      ∃ doc', AList.lookup key t.documents = some doc' ∧ doc'.id = doc.id ∧
        doc'.doctype = doc.doctype ∧ doc'.officialNumber = doc.officialNumber ∧
        doc'.createdAt = doc.createdAt ∧
        doc'.payload.withoutField "outstanding_amount" =
          doc.payload.withoutField "outstanding_amount" ∧
        (doc'.docstatus = doc.docstatus ∨ doc.docstatus = 1 ∧ doc'.docstatus = 2)) ∧
    ((memRun codec (early ++ late)).book.journal.filterMap Entry.cancelledKey).Nodup := by
  have hall : ∀ events : List (Event MemOp), ∀ event ∈ events, event.Allowed (.all MemOp) :=
    fun _ event _ => event.allowed_all
  have hgrow : Extends (memRun codec early).book.store (memRun codec (early ++ late)).book.store :=
    System.growth_of_rule extends_rule kept_fresh (hall early) (hall late)
  have hkept : Kept (memRun codec (early ++ late)).book :=
    System.invariant_of_rule extends_rule kept_fresh (hall _)
  refine ⟨fun company => ⟨hgrow.glEntries company, hgrow.stockLedger company,
    hgrow.partyTransactions company, hgrow.taxTransactions company, hgrow.settlements company⟩,
    fun key doc hdoc => ?_, hkept.once⟩
  obtain ⟨doc', hdoc', hlater⟩ := hgrow.documents key doc hdoc
  exact ⟨doc', hdoc', hlater.id, hlater.doctype, hlater.officialNumber, hlater.createdAt,
    hlater.payload, hlater.docstatus⟩

end Rule

end AtlasTeam
