import AtlasTeam.Posting.StockLegs
import AtlasTeam.Store.BinCheck
import AtlasTeam.Store.StockLedger

/-!
# Perpetual inventory

A cancel looks up stock rows and GL entries separately and by voucher number alone, so it may well take
back more than its document, but it takes back the same submits in both. `Filed` says where the rows of
an entry come from, a submit or the live rows of an earlier journal, and with `Tallied` it follows that
the stock ledger and its legs agree entry by entry (`Booked.tallied`) and so at all times
(`stock_ledger_matches_gl`).
-/

namespace AtlasTeam

/-! ### The ledgers and the journal -/

/-- What the entries of a company wrote, in their order. -/
def postedRows {α : Type} (rows : PostingCommit → List α) (company : Uuid)
    (journal : List (Entry Inner)) : List α :=
  (journal.filter fun entry => entry.companyId = company).flatMap fun entry => rows entry.commit

/-- The document an entry submitted. -/
def Entry.submittedKey {S : Type} (entry : Entry S) : Option (Uuid × String × String) :=
  match entry.command with
  | .submit cmd => some (entry.companyId, cmd.doctype, entry.documentId)
  | _ => none

theorem Entry.submittedKey_eq_some {S : Type} {entry : Entry S} {key : Uuid × String × String} :
    entry.submittedKey = some key ↔ ∃ cmd, entry.command = .submit cmd ∧
      key = (entry.companyId, cmd.doctype, entry.documentId) := by
  unfold Entry.submittedKey
  cases entry.command <;> simp [eq_comm]

/-- Where the rows of an entry come from: its document, or the live rows an earlier journal has written
under a voucher number. -/
inductive Filed (journal : List (Entry Inner)) (entry : Entry Inner) : Prop
  | submitted (cmd : SubmitCommand) (hcommand : entry.command = .submit cmd)
      (hstock : ∀ sle ∈ entry.commit.stockLedgerEntries, sle.stamp =
        ⟨cmd.doctype, entry.documentId, false⟩)
      (hgl : ∀ e ∈ entry.commit.glEntries, e.stamp = ⟨cmd.doctype, entry.documentId, false⟩)
      (htallied : Tallied (ownLeg entry.commit.stockLedgerEntries) entry.commit.stockLedgerEntries
        entry.commit.glEntries)
  | cancelled (cmd : CancelCommand) (hcommand : entry.command = .cancel cmd) (batchId : String)
      (earlier : List (Entry Inner)) (hearlier : earlier <+: journal)
      (hstock : entry.commit.stockLedgerEntries =
        ((postedRows PostingCommit.stockLedgerEntries entry.companyId earlier).filter fun sle =>
          !sle.isReversal && sle.voucherNo = cmd.documentId).map (StockLedgerEntry.reversal batchId))
      (hgl : entry.commit.glEntries =
        ((postedRows PostingCommit.glEntries entry.companyId earlier).filter fun e =>
          !e.isReversal && e.voucherNo = cmd.documentId).map (GlEntry.reversal batchId))

theorem Filed.mono {journal journal' : List (Entry Inner)} {entry : Entry Inner}
    (h : Filed journal entry) (hmono : journal <+: journal') : Filed journal' entry := by
  cases h with
  | submitted cmd hcommand hstock hgl htallied => exact .submitted cmd hcommand hstock hgl htallied
  | cancelled cmd hcommand batchId earlier hearlier hstock hgl =>
    exact .cancelled cmd hcommand batchId earlier (hearlier.trans hmono) hstock hgl

structure Booked (book : Book Inner) : Prop where
  /-- The stock ledger holds what the journal wrote, under identity values. -/
  stock : ∀ company, (book.store.stockLedger.log company).map StockLedgerEntry.unsequenced =
    (postedRows PostingCommit.stockLedgerEntries company book.journal).map
      StockLedgerEntry.unsequenced
  /-- So does the general ledger. -/
  gl : ∀ company, book.store.glEntries.log company =
    postedRows PostingCommit.glEntries company book.journal
  /-- A document that was submitted is there. -/
  present : ∀ key ∈ book.journal.filterMap Entry.submittedKey, key ∈ book.store.documents
  /-- No document is submitted twice. -/
  distinct : (book.journal.filterMap Entry.submittedKey).Nodup
  filed : ∀ entry ∈ book.journal, Filed book.journal entry

theorem booked_fresh : Booked { store := {} } where
  stock _ := rfl
  gl _ := rfl
  present _ h := absurd h List.not_mem_nil
  distinct := List.nodup_nil
  filed _ h := absurd h List.not_mem_nil

section Rule
variable {codec : Codec} {book₀ book : Book Inner} {draft : Draft Inner}

theorem postedRows_concat {α : Type} (rows : PostingCommit → List α) (company : Uuid)
    (journal : List (Entry Inner)) (entry : Entry Inner) :
    postedRows rows company (journal ++ [entry]) = postedRows rows company journal ++
      if entry.companyId = company then rows entry.commit else [] := by
  rw [postedRows, List.filter_append, List.flatMap_append]
  congr 1
  by_cases hcompany : entry.companyId = company <;> simp [hcompany]

/-- What a draft writes comes from its document, or from the journal it was built on. -/
theorem built_filed (h₀ : Booked book₀)
    (hbuilt : Draft.Built codec (memBackend codec) vouchers book₀ draft) (store : Inner) :
    Filed book₀.journal (appliedEntry draft store) := by
  have hbuild := hbuilt.build
  rw [hbuilt.snapshot] at hbuild
  cases hcommand : draft.command with
  | submit cmd =>
    rw [hcommand] at hbuild
    have hstamped := buildSubmit_stamped hbuild
    obtain ⟨prepared, shortfalls, settlements, updates, -, -, -, hcommit⟩ := buildSubmit_ok hbuild
    refine .submitted cmd hcommand (hstamped .stock) (hstamped .gl) ?_
    show Tallied (ownLeg draft.commit.stockLedgerEntries) draft.commit.stockLedgerEntries
      draft.commit.glEntries
    rw [hcommit]
    exact deriveRows_tallied codec _ _ _
  | cancel cmd =>
    rw [hcommand] at hbuild
    obtain ⟨doc, postingDate, guard, updates, -, -, -, -, -, hcommit⟩ := buildCancel_ok hbuild
    refine .cancelled cmd hcommand ("PB-" ++ cmd.documentId ++ reversalSuffix) book₀.journal
      List.prefix_rfl ?_ ?_
    · -- a reversal does not see the identity value of what it reverses
      have hplain : ∀ sles : List StockLedgerEntry, (sles.filter fun sle =>
          !sle.isReversal && sle.voucherNo = cmd.documentId).map (StockLedgerEntry.reversal
            ("PB-" ++ cmd.documentId ++ reversalSuffix)) =
          ((sles.map StockLedgerEntry.unsequenced).filter fun sle =>
            !sle.isReversal && sle.voucherNo = cmd.documentId).map (StockLedgerEntry.reversal
              ("PB-" ++ cmd.documentId ++ reversalSuffix)) := by
        intro sles
        rw [List.filter_map, List.map_map]
        rfl
      show draft.commit.stockLedgerEntries = _
      rw [hcommit, hplain, ← h₀.stock, ← hplain]
      show (((book₀.store.stockLedger.log draft.companyId).filter _).filter _).map _ = _
      rw [List.filter_filter]
      rfl
    · show draft.commit.glEntries = _
      rw [hcommit]
      show (((book₀.store.glEntries.log draft.companyId).filter _).filter _).map _ = _
      rw [List.filter_filter, h₀.gl]
      rfl
  | takeOn cmd =>
    have hallowed := hbuilt.allowed
    rw [hcommand] at hallowed
    exact hallowed.elim

theorem Booked.applied {inner' : Inner} (h : Booked book) (h₀ : Booked book₀)
    (hgrow : book₀.journal <+: book.journal)
    (hbuilt : Draft.Built codec (memBackend codec) vouchers book₀ draft)
    (hpassed : Inner.Passed draft.commit book.store)
    (happlied : Inner.Applied draft.commit book.store inner') :
    Booked { store := inner', journal := book.journal ++ [appliedEntry draft book.store] } := by
  have hcompany := (Command.build_new_or_cancel hbuilt.build).1
  have hkept : ∀ key, key ∈ book.store.documents → key ∈ inner'.documents := by
    intro key hkey
    rw [happlied.documents, ← AList.lookup_isSome, ← Option.isSome_map, Inner.lookup_written]
    split_ifs
    · rfl
    · rwa [Option.isSome_map, AList.lookup_isSome]
  have hentry : (appliedEntry draft book.store).companyId = draft.companyId := rfl
  -- a document that is submitted was not there
  have hnew : ∀ key, (appliedEntry draft book.store).submittedKey = some key →
      key = Inner.docKey draft.commit ∧ Inner.docKey draft.commit ∉ book.store.documents := by
    intro key hkey
    obtain ⟨cmd, hcommand, rfl⟩ := Entry.submittedKey_eq_some.1 hkey
    have hsubmit : draft.command = .submit cmd := hcommand
    have hbuild := hbuilt.build
    rw [hsubmit] at hbuild
    obtain ⟨prepared, shortfalls, settlements, updates, -, -, -, hcommit⟩ := buildSubmit_ok hbuild
    have habsent := hpassed.absent (by rw [hcommit]; rfl)
    refine ⟨?_, AList.lookup_eq_none.1 habsent⟩
    rw [hcommit]
    rfl
  have hjournal : book.journal <+: book.journal ++ [appliedEntry draft book.store] :=
    List.prefix_append _ _
  constructor
  · intro company
    rw [happlied.stockLedger, hcompany, postedRows_concat, List.map_append, ← h.stock]
    by_cases hsame : draft.companyId = company
    · subst hsame
      rw [Table.log_extend_self, List.map_append, Inner.sequencedRows, sequenceFrom_unsequenced,
        if_pos hentry]
      rfl
    · rw [Table.log_extend_ne _ (Ne.symm hsame), if_neg fun heq => hsame (hentry.symm.trans heq)]
      simp
  · intro company
    rw [happlied.glEntries, hcompany, postedRows_concat, ← h.gl]
    by_cases hsame : draft.companyId = company
    · subst hsame
      rw [Table.log_extend_self, if_pos hentry]
      rfl
    · rw [Table.log_extend_ne _ (Ne.symm hsame), if_neg fun heq => hsame (hentry.symm.trans heq),
        List.append_nil]
  · intro key hkey
    rcases List.mem_append.1 (List.filterMap_append .. ▸ hkey) with hkey | hkey
    · exact hkept key (h.present key hkey)
    · obtain ⟨rfl, -⟩ := hnew key (by simpa using hkey)
      obtain ⟨doc, hdoc, -⟩ := Inner.lookup_written_self draft.commit book.store
      rw [happlied.documents, ← AList.lookup_isSome, hdoc]
      rfl
  · rw [List.filterMap_append, List.nodup_append]
    refine ⟨h.distinct, ?_, fun key hkey key' hkey' => ?_⟩
    · cases hlast : (appliedEntry draft book.store).submittedKey with
      | none => simp [hlast]
      | some key => simp [hlast]
    · obtain ⟨rfl, habsent⟩ := hnew key' (by simpa using hkey')
      rintro rfl
      exact habsent (h.present _ hkey)
  · intro entry hentry
    rcases List.mem_append.1 hentry with hentry | hentry
    · exact (h.filed entry hentry).mono hjournal
    · obtain rfl := List.mem_singleton.1 hentry
      exact (built_filed h₀ hbuilt book.store).mono (hgrow.trans hjournal)

/-- Every step keeps the ledgers booked, and the journal only grows. -/
theorem booked_rule : Snapshot.Rule (protocol codec (memBackend codec) vouchers) Booked
    fun book book' => book.journal <+: book'.journal where
  refl _ := List.prefix_rfl
  trans := List.IsPrefix.trans
  commit := by
    rintro book₀ book _ draft h₀ hgrow h hbuilt ⟨env, rfl⟩
    rcases commit_cases codec env draft book with hsame | ⟨hpassed, inner', happlied, hbook⟩
    · rw [hsame]
      exact ⟨h, List.prefix_rfl⟩
    · rw [hbook]
      exact ⟨h.applied h₀ hgrow hbuilt hpassed happlied, List.prefix_append _ _⟩
  other := by
    rintro book _ h ⟨op, env, -, rfl⟩
    have hframe := operate_frame codec env op book.store
    refine ⟨⟨fun company => ?_, fun company => ?_, ?_, h.distinct, h.filed⟩, List.prefix_rfl⟩
    · rw [hframe.stockLedger]
      exact h.stock company
    · rw [hframe.glEntries]
      exact h.gl company
    · rw [hframe.documents]
      exact h.present

end Rule

/-! ### Rows and legs agree -/

section Agree
variable {book : Book Inner} {company : Uuid}

/-- A leg of a voucher's rows is none of another document's. -/
theorem Booked.ownLeg_eq (h : Booked book) {entry : Entry Inner} (hentry : entry ∈ book.journal)
    (hcompany : entry.companyId = company) {cmd : SubmitCommand} (hcommand : entry.command = .submit cmd)
    {e : GlEntry} (htype : e.voucherType = cmd.doctype) (hno : e.voucherNo = entry.documentId)
    (side : LegSide) :
    ownLeg (postedRows PostingCommit.stockLedgerEntries company book.journal) side e =
      ownLeg entry.commit.stockLedgerEntries side e := by
  rw [Bool.eq_iff_iff, ownLeg, ownLeg, List.any_eq_true, List.any_eq_true]
  constructor
  · rintro ⟨sle, hsle, hleg⟩
    obtain ⟨other, hother, hrow⟩ := List.mem_flatMap.1 hsle
    obtain ⟨hmem, hsame⟩ := List.mem_filter.1 hother
    obtain ⟨hlive, -, htype', hno', -⟩ := GlEntry.isLegOf_iff.1 hleg
    cases h.filed other hmem with
    | submitted cmd' hcommand' hstock =>
      obtain ⟨hrowType, hrowNo, -⟩ := Stamp.mk.inj (hstock sle hrow)
      -- the same voucher is the same submit
      have hkey : other.submittedKey = some (company, cmd.doctype, entry.documentId) := by
        rw [Entry.submittedKey_eq_some]
        refine ⟨cmd', hcommand', ?_⟩
        rw [of_decide_eq_true hsame, ← htype, htype', hrowType, ← hno, hno', hrowNo]
      have hkey' : entry.submittedKey = some (company, cmd.doctype, entry.documentId) :=
        Entry.submittedKey_eq_some.2 ⟨cmd, hcommand, by rw [hcompany]⟩
      obtain rfl := Distinct.eq_of_filterMap h.distinct hmem hentry hkey hkey'
      exact ⟨sle, hrow, hleg⟩
    | cancelled cmd' hcommand' batchId earlier hearlier hstock hgl =>
      rw [hstock] at hrow
      obtain ⟨raw, -, rfl⟩ := List.mem_map.1 hrow
      cases hlive
  · rintro ⟨sle, hsle, hleg⟩
    exact ⟨sle, List.mem_flatMap.2 ⟨entry, List.mem_filter.2 ⟨hentry, by simpa using hcompany⟩, hsle⟩,
      hleg⟩

/-- The live rows of an entry under a voucher number agree: they are all or none of a submit's. -/
theorem Booked.live_tallied (h : Booked book) {entry : Entry Inner} (hentry : entry ∈ book.journal)
    (hcompany : entry.companyId = company) (no : String) :
    Tallied (ownLeg (postedRows PostingCommit.stockLedgerEntries company book.journal))
      (entry.commit.stockLedgerEntries.filter fun sle => !sle.isReversal && sle.voucherNo = no)
      (entry.commit.glEntries.filter fun e => !e.isReversal && e.voucherNo = no) := by
  cases h.filed entry hentry with
  | submitted cmd hcommand hstock hgl htallied =>
    by_cases hno : entry.documentId = no
    · rw [List.filter_eq_self.2, List.filter_eq_self.2]
      · refine htallied.congr fun side => List.filter_congr fun e he => ?_
        obtain ⟨htype, heNo, -⟩ := Stamp.mk.inj (hgl e he)
        exact h.ownLeg_eq hentry hcompany hcommand htype heNo side
      · intro e he
        obtain ⟨-, heNo, hlive⟩ := Stamp.mk.inj (hgl e he)
        simp [heNo, hlive, hno]
      · intro sle hsle
        obtain ⟨-, hsleNo, hlive⟩ := Stamp.mk.inj (hstock sle hsle)
        simp [hsleNo, hlive, hno]
    · rw [List.filter_eq_nil_iff.2, List.filter_eq_nil_iff.2]
      · exact .nil
      · intro e he
        obtain ⟨-, heNo, -⟩ := Stamp.mk.inj (hgl e he)
        simp [heNo, hno]
      · intro sle hsle
        obtain ⟨-, hsleNo, -⟩ := Stamp.mk.inj (hstock sle hsle)
        simp [hsleNo, hno]
  | cancelled cmd hcommand batchId earlier hearlier hstock hgl =>
    rw [List.filter_eq_nil_iff.2, List.filter_eq_nil_iff.2]
    · exact .nil
    · intro e he
      rw [hgl] at he
      obtain ⟨raw, -, rfl⟩ := List.mem_map.1 he
      simp [GlEntry.reversal]
    · intro sle hsle
      rw [hstock] at hsle
      obtain ⟨raw, -, rfl⟩ := List.mem_map.1 hsle
      simp [StockLedgerEntry.reversal]

/-- The rows of every entry agree with its legs. -/
theorem Booked.tallied (h : Booked book) {entry : Entry Inner} (hentry : entry ∈ book.journal)
    (hcompany : entry.companyId = company) :
    Tallied (ownLeg (postedRows PostingCommit.stockLedgerEntries company book.journal))
      entry.commit.stockLedgerEntries entry.commit.glEntries := by
  cases h.filed entry hentry with
  | submitted cmd hcommand hstock hgl htallied =>
    refine htallied.congr fun side => List.filter_congr fun e he => ?_
    obtain ⟨htype, hno, -⟩ := Stamp.mk.inj (hgl e he)
    exact h.ownLeg_eq hentry hcompany hcommand htype hno side
  | cancelled cmd hcommand batchId earlier hearlier hstock hgl =>
    -- the cancel reverses rows of earlier entries that agree
    rw [hstock, hgl, hcompany]
    refine Tallied.reversed ?_ batchId fun side e he => ?_
    · have hpieces : ∀ {α : Type} (rows : PostingCommit → List α) (q : α → Bool),
          (postedRows rows company earlier).filter q =
            (earlier.filter fun entry => entry.companyId = company).flatMap fun entry =>
              (rows entry.commit).filter q := fun rows q => List.filter_flatMap
      rw [hpieces, hpieces]
      refine Tallied.flatMap fun other hother => ?_
      obtain ⟨hmem, hsame⟩ := List.mem_filter.1 hother
      exact h.live_tallied (hearlier.subset hmem) (of_decide_eq_true hsame) cmd.documentId
    · have hlive : e.isReversal = false := by
        have hfound := (List.mem_filter.1 he).2
        simpa using (Bool.and_eq_true_iff.1 hfound).1
      exact List.any_congr rfl fun sle => GlEntry.isLegOf_reversal batchId hlive

end Agree

/-- Agreement does not see identity values. -/
theorem Tallied.of_unsequenced {sles sles' : List StockLedgerEntry} {gl : List GlEntry}
    (h : Tallied (ownLeg sles) sles gl)
    (hsame : sles'.map StockLedgerEntry.unsequenced = sles.map StockLedgerEntry.unsequenced) :
    Tallied (ownLeg sles') sles' gl := by
  have hleg : ∀ sles : List StockLedgerEntry,
      ownLeg sles = ownLeg (sles.map StockLedgerEntry.unsequenced) := by
    intro sles
    funext side entry
    rw [ownLeg, ownLeg, List.any_map]
    rfl
  have hcrossing : ∀ sles : List StockLedgerEntry,
      (sles.map StockLedgerEntry.unsequenced).filter StockLedgerEntry.crosses =
        (sles.filter StockLedgerEntry.crosses).map StockLedgerEntry.unsequenced := fun sles =>
    List.filter_map
  have hworth : ∀ sles : List StockLedgerEntry,
      crossingWorth sles = crossingWorth (sles.map StockLedgerEntry.unsequenced) := by
    intro sles
    rw [crossingWorth, crossingWorth, hcrossing, List.map_map]
    rfl
  have hlength : ∀ sles : List StockLedgerEntry, (sles.filter StockLedgerEntry.crosses).length =
      ((sles.map StockLedgerEntry.unsequenced).filter StockLedgerEntry.crosses).length := by
    intro sles
    rw [hcrossing, List.length_map]
  obtain ⟨hinventory, hcounter⟩ := h
  rw [hleg, hworth, hlength, ← hsame, ← hleg, ← hworth, ← hlength] at hinventory
  rw [hleg, ← hsame, ← hleg] at hcounter
  exact ⟨hinventory, hcounter⟩

/-- In every run of vouchers, whatever else the store does and at every moment: what a company's stock
rows that cross the border of the stock are worth, and what their legs on the inventory's side show, differ
by at most 1e-7 for each of these rows; and the legs on the other side balance those on the inventory's. -/
theorem stock_ledger_matches_gl (codec : Codec) (events : List (Event MemOp))
    (hevents : ∀ event ∈ events, event.Allowed vouchers) (company : Uuid) :
    let inner := (memRun codec events).book.store
    let stock := inner.stockLedger.log company
    let gl := inner.glEntries.log company
    |((stock.filter StockLedgerEntry.crosses).map StockLedgerEntry.worth).sum -
        glDifference (stockLegs .inventory stock gl)| ≤
      1 / 10 ^ 7 * (stock.filter StockLedgerEntry.crosses).length ∧
    glDifference (stockLegs .inventory stock gl) + glDifference (stockLegs .counter stock gl) = 0 := by
  intro inner stock gl
  have h : Booked (memRun codec events).book := System.invariant_of_rule booked_rule booked_fresh hevents
  have hposted : Tallied
      (ownLeg (postedRows PostingCommit.stockLedgerEntries company (memRun codec events).book.journal))
      (postedRows PostingCommit.stockLedgerEntries company (memRun codec events).book.journal)
      (postedRows PostingCommit.glEntries company (memRun codec events).book.journal) := by
    refine Tallied.flatMap fun entry hentry => ?_
    obtain ⟨hmem, hcompany⟩ := List.mem_filter.1 hentry
    exact h.tallied hmem (of_decide_eq_true hcompany)
  rw [← h.gl] at hposted
  have hstored := hposted.of_unsequenced (h.stock company)
  exact ⟨hstored.inventory, hstored.counter⟩

/-- Two received and one issued, at 5 each: the stock is worth 5, and so it is on the inventory's side. -/
theorem stock_ledger_matches_gl_tea :
    let inner := (memRun serdeCodec (receiptAndIssue (.int 2) (.int 1))).book.store
    let stock := inner.stockLedger.log 1
    let gl := inner.glEntries.log 1
    ((stock.filter StockLedgerEntry.crosses).map StockLedgerEntry.worth).sum = 5 ∧
      |5 - glDifference (stockLegs .inventory stock gl)| ≤ 1 / 10 ^ 7 * 2 ∧
      glDifference (stockLegs .inventory stock gl) + glDifference (stockLegs .counter stock gl) = 0 := by
  have hworth : (((memRun serdeCodec (receiptAndIssue (.int 2) (.int 1))).book.store.stockLedger.log
      1).filter StockLedgerEntry.crosses).map StockLedgerEntry.worth = [10, -5] := by decide +kernel
  have hlength := congrArg List.length hworth
  obtain ⟨hinventory, hcounter⟩ := stock_ledger_matches_gl serdeCodec
    (receiptAndIssue (.int 2) (.int 1)) (receiptAndIssue_allowed _ _) 1
  rw [List.length_map] at hlength
  rw [hlength, hworth] at hinventory
  refine ⟨by rw [hworth]; norm_num, ?_, hcounter⟩
  norm_num at hinventory ⊢
  exact hinventory

end AtlasTeam
