import AtlasTeam.Lib.Distinct
import AtlasTeam.Posting.Ownership

/-!
# The ids of a document's rows

A row is named by the tag of its ledger, its document and its place in the payload. Within one commit
and one ledger no two rows share an id: `buildSubmit_rowIds` and `buildOpening_rowIds`. The lemmas follow
the derivation as those of `Posting.Ownership` do.
-/

namespace AtlasTeam

/-- The id of a row. -/
def LedgerKind.rowId : (kind : LedgerKind) → kind.Row → String
  | .gl => GlEntry.id
  | .stock => StockLedgerEntry.id
  | .party => PartyTransaction.id
  | .tax => TaxTransaction.id
  | .settlement => Settlement.id

theorem objectRows_positions (rows : List Value) : ((objectRows rows).map Prod.snd).Nodup := by
  have hsub : ((objectRows rows).map Prod.snd).Sublist (rows.zipIdx.map Prod.snd) := by
    rw [objectRows, List.map_filterMap]
    induction rows.zipIdx with
    | nil => exact List.Sublist.refl _
    | cons entry entries ih =>
      obtain ⟨row, i⟩ := entry
      cases hrow : row.asObject with
      | none => simpa [List.filterMap_cons, hrow] using ih.cons i
      | some m => simpa [List.filterMap_cons, hrow] using ih.cons_cons i
  refine hsub.nodup ?_
  rw [List.zipIdx_map_snd]
  exact List.nodup_range' ..

section Derived
variable (ctx : RowContext) (payload : Map)

/-! ### Monetary GL rows -/

/-- What every GL row of a document's own amounts is named after. -/
def RowContext.glStart (ctx : RowContext) : String := "GL-" ++ ctx.documentId

/-- A VAT leg is named by the place of its tax row. -/
theorem taxLegs_ids (isOutput : Bool) : ∃ numbers : List Nat, numbers.Nodup ∧
    (taxLegs ctx payload isOutput).map GlEntry.id =
      numbers.map fun i => ctx.glStart ++ ("-tax-" ++ toString i) := by
  refine Distinct.filterMap_labels (objectRows_positions _) fun row i entry h => ?_
  simp only at h
  split at h
  · cases h
  · split_ifs at h
    all_goals
      rw [← Option.some.inj h, ← String.append_assoc]
      rfl

theorem taxLabel_injective : Function.Injective fun i : Nat => "-tax-" ++ toString i :=
  fun _ _ h => Distinct.numbered_inj h

/-- A VAT leg is no other leg. -/
theorem taxLabel_ne {leg : String} (h : leg.toList[1]? ≠ some 't') (i : Nat) :
    leg ≠ "-tax-" ++ toString i := by
  rintro rfl
  simp [String.toList_append] at h

/-- The legs of an invoice: two of its own and those of its taxes. -/
theorem invoice_legs {first second : String} (hne : first ≠ second)
    (hfirst : first.toList[1]? ≠ some 't') (hsecond : second.toList[1]? ≠ some 't')
    {numbers : List Nat} (hnumbers : numbers.Nodup) :
    ([first, second] ++ numbers.map fun i => "-tax-" ++ toString i).Nodup := by
  rw [List.nodup_append]
  refine ⟨by simpa using hne, hnumbers.map taxLabel_injective, fun leg hleg other hother => ?_⟩
  obtain ⟨i, -, rfl⟩ := List.mem_map.1 hother
  simp only [List.mem_cons, List.not_mem_nil, or_false] at hleg
  rcases hleg with rfl | rfl
  · exact taxLabel_ne hfirst i
  · exact taxLabel_ne hsecond i

/-- The rows of a document's own amounts are named by distinct legs. -/
theorem deriveMonetaryGl_ids : ∃ legs : List String,
    (deriveMonetaryGl ctx payload).map GlEntry.id = legs.map (ctx.glStart ++ ·) ∧ legs.Nodup ∧
      (ctx.doctype = "Purchase Invoice" → "-grni" ∉ legs) := by
  obtain ⟨output, houtput, houtputIds⟩ := taxLegs_ids ctx payload true
  obtain ⟨input, hinput, hinputIds⟩ := taxLegs_ids ctx payload false
  unfold deriveMonetaryGl
  split
  · refine ⟨["-debit", "-credit"] ++ output.map fun i => "-tax-" ++ toString i, ?_,
      invoice_legs (by decide) (by decide) (by decide) houtput, fun h => absurd h (by simp [*])⟩
    rw [List.map_append, List.map_append, houtputIds, List.map_map]
    rfl
  · refine ⟨["-credit", "-debit"] ++ input.map fun i => "-tax-" ++ toString i, ?_,
      invoice_legs (by decide) (by decide) (by decide) hinput, fun _ hmem => ?_⟩
    · rw [List.map_append, List.map_append, hinputIds, List.map_map]
      rfl
    · rcases List.mem_append.1 hmem with hmem | hmem
      · exact absurd hmem (by decide)
      · obtain ⟨i, -, heq⟩ := List.mem_map.1 hmem
        exact taxLabel_ne (by decide) i heq.symm
  · refine ⟨["-cash", "-income"] ++ output.map fun i => "-tax-" ++ toString i, ?_,
      invoice_legs (by decide) (by decide) (by decide) houtput, fun h => absurd h (by simp [*])⟩
    rw [List.map_append, List.map_append, houtputIds, List.map_map]
    rfl
  · exact ⟨["-from", "-to"], rfl, by decide, fun h => absurd h (by simp [*])⟩
  · refine ⟨["-debit"] ++ (if asNum (payload.get "tax_amount") ≠ 0 then ["-tax"] else []) ++
      ["-credit"], ?_, ?_, fun h => absurd h (by simp [*])⟩
    · simp only [List.map_append]
      split_ifs <;> rfl
    · split_ifs <;> decide
  · exact ⟨["-cash", "-liability"], rfl, by decide, fun h => absurd h (by simp [*])⟩
  · refine ⟨(journalRows payload).map fun entry => "-" ++ toString entry.2, ?_, ?_,
      fun h => absurd h (by simp [*])⟩
    · rw [List.map_map, List.map_map]
      refine List.map_congr_left fun entry _ => ?_
      exact String.append_assoc
    · have hpositions : ((journalRows payload).map Prod.snd).Nodup :=
        (objectRows_positions _).sublist (List.filter_sublist.map _)
      have hmap : ((journalRows payload).map fun entry => "-" ++ toString entry.2) =
          ((journalRows payload).map Prod.snd).map fun i => "-" ++ toString i := by
        rw [List.map_map]
        rfl
      rw [hmap]
      exact hpositions.map fun _ _ h => Distinct.numbered_inj h
  · exact ⟨[], rfl, List.nodup_nil, fun _ => List.not_mem_nil⟩

/-! ### Stock rows and their GL legs -/

/-- What every stock row of a document is named after. -/
def RowContext.sleStart (ctx : RowContext) : String := "SLE-" ++ ctx.documentId ++ "-"

/-- The stock rows of a document are named by their lines. -/
theorem stockDocumentRows_ids (incoming : Bool) (transType : StockTransType) :
    ∃ numbers : List Nat, numbers.Nodup ∧
      (stockDocumentRows ctx payload incoming transType).map StockLedgerEntry.id =
        numbers.map fun i => ctx.sleStart ++ toString i := by
  refine Distinct.filterMap_labels (objectRows_positions _) fun line i sle h => ?_
  simp only [Option.bind_eq_bind, Option.bind_eq_some_iff, Option.pure_def, Option.some.injEq] at h
  obtain ⟨item, -, warehouse, -, rfl⟩ := h
  rfl

/-- The legs of a stock entry are named by their lines and directions. -/
theorem stockEntryRows_ids : ((stockEntryRows ctx payload).map StockLedgerEntry.id).Nodup := by
  have hsub : ((stockEntryRows ctx payload).map StockLedgerEntry.id).Sublist
      (((objectRows (itemsOf payload)).map Prod.snd).flatMap fun i =>
        [ctx.sleStart ++ toString i ++ "-out", ctx.sleStart ++ toString i ++ "-in"]) := by
    rw [stockEntryRows, List.map_flatMap, List.flatMap_map]
    refine Distinct.flatMap_sublist fun entry _ => ?_
    obtain ⟨line, i⟩ := entry
    simp only [stockEntryLegs]
    cases asNonEmpty (line.get "item") with
    | none => exact List.nil_sublist _
    | some item =>
      cases asNonEmpty (line.get "source_warehouse") <;>
        cases asNonEmpty (line.get "target_warehouse")
      · exact List.nil_sublist _
      · exact (List.Sublist.refl _).cons _
      · exact (List.nil_sublist _).cons_cons _
      · exact List.Sublist.refl _
  refine hsub.nodup (Distinct.nodup_flatMap_pair (objectRows_positions _) ?_ ?_ ?_)
  · exact fun i j h => Distinct.numbered_inj ((String.append_left_inj "-out").1 h)
  · exact fun i j h => Distinct.numbered_inj ((String.append_left_inj "-in").1 h)
  · exact fun i j => Distinct.ne_of_getLast (by simp [String.toList_append])

theorem deriveStockRows_ids : ((deriveStockRows ctx payload).map StockLedgerEntry.id).Nodup := by
  have hdocument : ∀ incoming transType,
      ((stockDocumentRows ctx payload incoming transType).map StockLedgerEntry.id).Nodup := by
    intro incoming transType
    obtain ⟨numbers, hnumbers, hids⟩ := stockDocumentRows_ids ctx payload incoming transType
    rw [hids]
    exact hnumbers.map fun _ _ h => Distinct.numbered_inj h
  unfold deriveStockRows
  split
  · split_ifs
    · exact hdocument _ _
    · exact List.nodup_nil
  · split_ifs
    · exact hdocument _ _
    · exact List.nodup_nil
  · exact hdocument _ _
  · exact hdocument _ _
  · exact hdocument _ _
  · exact stockEntryRows_ids ctx payload
  · exact List.nodup_nil

/-- Every stock row of a document is named after it. -/
theorem deriveStockRows_start {sle : StockLedgerEntry} (h : sle ∈ deriveStockRows ctx payload) :
    ∃ rest, sle.id = ctx.sleStart ++ rest := by
  have hdocument : ∀ {incoming transType}, sle ∈ stockDocumentRows ctx payload incoming transType →
      ∃ rest, sle.id = ctx.sleStart ++ rest := by
    intro incoming transType h
    obtain ⟨numbers, -, hids⟩ := stockDocumentRows_ids ctx payload incoming transType
    have hid : sle.id ∈ numbers.map fun i => ctx.sleStart ++ toString i :=
      hids ▸ List.mem_map_of_mem h
    obtain ⟨i, -, heq⟩ := List.mem_map.1 hid
    exact ⟨toString i, heq.symm⟩
  unfold deriveStockRows at h
  split at h
  · split_ifs at h
    · exact hdocument h
    · exact absurd h List.not_mem_nil
  · split_ifs at h
    · exact hdocument h
    · exact absurd h List.not_mem_nil
  · exact hdocument h
  · exact hdocument h
  · exact hdocument h
  · obtain ⟨⟨line, i⟩, -, hleg⟩ := List.mem_flatMap.1 h
    simp only [stockEntryLegs] at hleg
    split at hleg
    · exact absurd hleg List.not_mem_nil
    · simp only [List.mem_append, List.mem_map] at hleg
      rcases hleg with ⟨source, -, rfl⟩ | ⟨target, -, rfl⟩
      · exact ⟨toString i ++ "-out", String.append_assoc.symm ▸ rfl⟩
      · exact ⟨toString i ++ "-in", String.append_assoc.symm ▸ rfl⟩
  · exact absurd h List.not_mem_nil

/-- Costing keeps the ids. -/
theorem costStockMovements_ids (view : StoreView) (companyId : Uuid) (sles : List StockLedgerEntry)
    (items : Items) : (costStockMovements view companyId sles items payload).1.map StockLedgerEntry.id =
      sles.map StockLedgerEntry.id := by
  have h := congrArg (List.map StockLedgerEntry.id)
    (costStockMovements_unvalued view companyId sles items payload)
  rw [List.map_map, List.map_map] at h
  exact h

/-- The GL legs of costed movements are named by their movements. -/
theorem stockGlLegs_ids {sles : List StockLedgerEntry} (items : Items) (settings : CompanySettings)
    (hsles : (sles.map StockLedgerEntry.id).Nodup) :
    ((stockGlLegs ctx sles items settings).map GlEntry.id).Nodup := by
  have hsub : ((stockGlLegs ctx sles items settings).map GlEntry.id).Sublist
      ((sles.map StockLedgerEntry.id).flatMap fun id => [id ++ "-gl-d", id ++ "-gl-c"]) := by
    rw [stockGlLegs, List.map_flatMap, List.flatMap_map]
    refine Distinct.flatMap_sublist fun sle _ => ?_
    simp only [stockGlLeg]
    split
    · exact List.nil_sublist _
    · exact List.Sublist.refl _
  refine hsub.nodup (Distinct.nodup_flatMap_pair hsles ?_ ?_ ?_)
  · exact fun _ _ h => (String.append_left_inj "-gl-d").1 h
  · exact fun _ _ h => (String.append_left_inj "-gl-c").1 h
  · exact fun _ _ => Distinct.ne_of_getLast (by simp [String.toList_append])

theorem stockGlLegs_start {sles : List StockLedgerEntry} {items : Items} {settings : CompanySettings}
    {entry : GlEntry} (h : entry ∈ stockGlLegs ctx sles items settings) :
    ∃ id ∈ sles.map StockLedgerEntry.id, ∃ rest, entry.id = id ++ rest := by
  obtain ⟨sle, hsle, account, amount, rfl | rfl⟩ := mem_stockGlLegs h
  · exact ⟨sle.id, List.mem_map_of_mem hsle, "-gl-d", rfl⟩
  · exact ⟨sle.id, List.mem_map_of_mem hsle, "-gl-c", rfl⟩

/-- A row of a document's own amounts and a leg of its movements have different ids. -/
theorem glStart_ne_sleStart (leg rest tail : String) :
    ctx.glStart ++ leg ≠ ctx.sleStart ++ rest ++ tail := by
  intro h
  have hhead := congrArg (fun s : String => s.toList.head?) h
  simp [RowContext.glStart, RowContext.sleStart, String.toList_append] at hhead

/-- Taking the stock value out of the expense renames no row. -/
theorem reduceExpense_ids (expenseId : String) (stockNet rate : ℚ) (gl : List GlEntry) :
    ((reduceExpense expenseId stockNet rate gl).map GlEntry.id).Sublist (gl.map GlEntry.id) := by
  induction gl with
  | nil => exact List.Sublist.refl _
  | cons entry rest ih =>
    simp only [reduceExpense]
    split_ifs
    · exact (List.Sublist.refl _).cons _
    · exact List.Sublist.refl _
    · exact ih.cons_cons _

theorem splitGrniFromExpense_ids {gl : List GlEntry} (items : Items) (settings : CompanySettings)
    (hgl : (gl.map GlEntry.id).Nodup) (hgrni : ctx.glStart ++ "-grni" ∉ gl.map GlEntry.id) :
    ((splitGrniFromExpense ctx gl payload items settings).map GlEntry.id).Nodup := by
  simp only [splitGrniFromExpense]
  split_ifs
  · exact hgl
  · rw [List.map_append, List.nodup_append]
    refine ⟨(reduceExpense_ids _ _ _ _).nodup hgl, List.nodup_singleton _, fun a ha b hb => ?_⟩
    obtain rfl := List.mem_singleton.1 hb
    rintro rfl
    exact hgrni ((reduceExpense_ids _ _ _ _).subset ha)

/-! ### Subledger rows and settlements -/

theorem journalAdjustment_id {row : Map} {i : Nat} {t : PartyTransaction}
    (h : journalAdjustment ctx payload row i = some t) :
    t.id = "CT-" ++ ctx.documentId ++ "-" ++ toString i ∨
      t.id = "VT-" ++ ctx.documentId ++ "-" ++ toString i := by
  simp only [journalAdjustment, Option.bind_eq_bind, Option.bind_eq_some_iff, Option.pure_def,
    Option.some.injEq] at h
  obtain ⟨party, -, kind, -, rfl⟩ := h
  cases kind with
  | customer => exact .inl rfl
  | supplier => exact .inr rfl

/-- A customer's row and a supplier's have different ids. -/
theorem customer_ne_supplier (rest rest' : String) : "CT-" ++ rest ≠ "VT-" ++ rest' := by
  intro h
  have hhead := congrArg (fun s : String => s.toList.head?) h
  simp [String.toList_append] at hhead

/-- The place of a row is read off its id, whichever subledger it is in. -/
theorem party_position {document : String} {i j : Nat} {a b : String}
    (ha : a = "CT-" ++ document ++ "-" ++ toString i ∨ a = "VT-" ++ document ++ "-" ++ toString i)
    (hb : b = "CT-" ++ document ++ "-" ++ toString j ∨ b = "VT-" ++ document ++ "-" ++ toString j)
    (h : a = b) : i = j := by
  rcases ha with rfl | rfl <;> rcases hb with rfl | rfl
  · exact Distinct.numbered_inj h
  · simp only [String.append_assoc] at h
    exact absurd h (customer_ne_supplier _ _)
  · simp only [String.append_assoc] at h
    exact absurd h.symm (customer_ne_supplier _ _)
  · exact Distinct.numbered_inj h

theorem deriveSubledgerRows_party_ids :
    ((deriveSubledgerRows ctx payload).1.map PartyTransaction.id).Nodup := by
  unfold deriveSubledgerRows
  split
  · cases asNonEmpty (payload.get "customer") <;> simp
  · cases asNonEmpty (payload.get "supplier") <;> simp
  · exact List.nodup_nil
  · simp only
    split <;> simp
  · simp only
    split <;> simp
  · refine Distinct.nodup_filterMap ?_ ?_
    · exact (objectRows_positions _).sublist (List.filter_sublist.map _)
    · intro row i row' j t t' ht ht' hid
      exact party_position (journalAdjustment_id ctx payload ht) (journalAdjustment_id ctx payload ht')
        hid
  · exact List.nodup_nil

theorem taxTransactions_ids (partyType : String) (party : Option String) :
    ((taxTransactions ctx payload partyType party).map TaxTransaction.id).Nodup := by
  have hids : (taxTransactions ctx payload partyType party).map TaxTransaction.id =
      ((objectRows (arrayOf payload "taxes")).map Prod.snd).map fun i =>
        "TT-" ++ ctx.documentId ++ "-" ++ toString i := by
    rw [taxTransactions, List.map_map, List.map_map]
    rfl
  rw [hids]
  exact (objectRows_positions _).map fun _ _ h => Distinct.numbered_inj h

theorem deriveSubledgerRows_tax_ids :
    ((deriveSubledgerRows ctx payload).2.map TaxTransaction.id).Nodup := by
  unfold deriveSubledgerRows
  split
  · exact taxTransactions_ids ..
  · exact taxTransactions_ids ..
  · exact taxTransactions_ids ..
  · simp only
    split <;> exact List.nodup_nil
  · simp only
    split_ifs <;> simp
  · exact List.nodup_nil
  · exact List.nodup_nil

theorem deriveSettlements_ids : ((deriveSettlements ctx payload).map Settlement.id).Nodup := by
  obtain ⟨numbers, hnumbers, hids⟩ : ∃ numbers : List Nat, numbers.Nodup ∧
      (deriveSettlements ctx payload).map Settlement.id =
        numbers.map fun i => "STL-" ++ ctx.documentId ++ "-" ++ toString i := by
    refine Distinct.filterMap_labels (objectRows_positions _) fun reference i s h => ?_
    simp only [Option.bind_eq_bind, Option.bind_eq_some_iff, Option.pure_def, Option.some.injEq] at h
    obtain ⟨doctype, -, name, -, rfl⟩ := h
    rfl
  rw [hids]
  exact hnumbers.map fun _ _ h => Distinct.numbered_inj h

end Derived

/-! ### The rows of a submit -/

section DeriveRows
variable {codec : Codec} {view : StoreView} {settings : CompanySettings} {ctx : RowContext}
  {payload : Map}

/-- The movements that are costed are among the derived ones. -/
theorem deriveRows_sles_sublist :
    ((deriveRows codec view settings ctx payload).sles.map StockLedgerEntry.id).Sublist
      ((deriveStockRows ctx payload).map StockLedgerEntry.id) := by
  simp only [deriveRows, costStockMovements_ids]
  exact List.filter_sublist.map _

/-- Base stamping keeps the ids. -/
theorem stampBaseAmounts_ids (pair : List GlEntry × List PartyTransaction)
    (hpair : pair = (if isBaseStamped ctx.doctype then stampBaseAmounts (deriveMonetaryGl ctx payload)
        (deriveSubledgerRows ctx payload).1 payload
      else (deriveMonetaryGl ctx payload, (deriveSubledgerRows ctx payload).1))) :
    pair.1.map GlEntry.id = (deriveMonetaryGl ctx payload).map GlEntry.id ∧
      pair.2.map PartyTransaction.id =
        (deriveSubledgerRows ctx payload).1.map PartyTransaction.id := by
  subst hpair
  split_ifs
  · simp only [stampBaseAmounts, List.map_map]
    exact ⟨rfl, rfl⟩
  · exact ⟨rfl, rfl⟩

theorem deriveRows_gl_ids :
    ((deriveRows codec view settings ctx payload).gl.map GlEntry.id).Nodup := by
  obtain ⟨legs, hids, hlegs, hgrni⟩ := deriveMonetaryGl_ids ctx payload
  have hstock := @deriveRows_sles_sublist codec view settings ctx payload
  have hmonetary := (@stampBaseAmounts_ids ctx payload _ rfl).1
  simp only [deriveRows] at hstock ⊢
  -- the document's own legs, then those of its movements
  have hlegsOf : ∀ {sles : List StockLedgerEntry} {items : Items},
      (sles.map StockLedgerEntry.id).Sublist ((deriveStockRows ctx payload).map StockLedgerEntry.id) →
      ∀ leg, ctx.glStart ++ leg ∉ (stockGlLegs ctx sles items settings).map GlEntry.id := by
    intro sles items hsub leg hmem
    obtain ⟨entry, hentry, heq⟩ := List.mem_map.1 hmem
    obtain ⟨id, hid, tail, htail⟩ := stockGlLegs_start ctx hentry
    obtain ⟨sle, hsle, rfl⟩ := List.mem_map.1 (hsub.subset hid)
    obtain ⟨rest, hrest⟩ := deriveStockRows_start ctx payload hsle
    rw [htail, hrest] at heq
    exact glStart_ne_sleStart ctx leg rest tail heq.symm
  have hjoined : ∀ {sles : List StockLedgerEntry} {items : Items} {gl : List GlEntry},
      gl.map GlEntry.id = legs.map (ctx.glStart ++ ·) →
      (sles.map StockLedgerEntry.id).Sublist ((deriveStockRows ctx payload).map StockLedgerEntry.id) →
      ((gl ++ stockGlLegs ctx sles items settings).map GlEntry.id).Nodup := by
    intro sles items gl hgl hsub
    rw [List.map_append, hgl, List.nodup_append]
    refine ⟨hlegs.map fun _ _ h => (String.append_right_inj _).1 h,
      stockGlLegs_ids ctx items settings (hsub.nodup (deriveStockRows_ids ctx payload)), ?_⟩
    intro a ha b hb
    obtain ⟨leg, -, rfl⟩ := List.mem_map.1 ha
    rintro rfl
    exact hlegsOf hsub leg hb
  by_cases hpurchase : ctx.doctype = "Purchase Invoice"
  · rw [if_pos hpurchase]
    refine splitGrniFromExpense_ids ctx payload _ settings (hjoined (hmonetary.trans hids) hstock) ?_
    rw [List.map_append, hmonetary, hids, List.mem_append, not_or]
    refine ⟨fun hmem => ?_, hlegsOf hstock "-grni"⟩
    obtain ⟨leg, hleg, heq⟩ := List.mem_map.1 hmem
    exact hgrni hpurchase ((String.append_right_inj _).1 heq ▸ hleg)
  · rw [if_neg hpurchase]
    exact hjoined (hmonetary.trans hids) hstock

end DeriveRows

/-- No two rows of one ledger of a submit share an id. -/
theorem buildSubmit_rowIds {codec : Codec} {view : StoreView} {env : Env} {companyId : Uuid}
    {cmd : SubmitCommand} {documentId : String} {actor : Actor} {commit : PostingCommit}
    (h : buildSubmit codec view env companyId cmd documentId actor = .ok commit) (kind : LedgerKind) :
    ((kind.rows commit).map kind.rowId).Nodup := by
  obtain ⟨prepared, shortfalls, settlements, updates, -, -, hpayment, rfl⟩ := buildSubmit_ok h
  cases kind with
  | gl => exact deriveRows_gl_ids
  | stock =>
    have hsub := @deriveRows_sles_sublist codec view (view.companySettings companyId)
      (submitContext companyId cmd documentId prepared.postingDate) prepared.payload
    exact hsub.nodup (deriveStockRows_ids _ _)
  | party =>
    have hids := (@stampBaseAmounts_ids (submitContext companyId cmd documentId prepared.postingDate)
      prepared.payload _ rfl).2
    exact hids ▸ deriveSubledgerRows_party_ids _ _
  | tax => exact deriveSubledgerRows_tax_ids _ _
  | settlement =>
    unfold paymentRows at hpayment
    split_ifs at hpayment
    · simp only [Except.bind_eq_ok, Except.pure_eq_ok] at hpayment
      obtain ⟨⟨⟩, -, updates', -, hpair⟩ := hpayment
      obtain ⟨rfl, rfl⟩ := Prod.mk.inj hpair
      exact deriveSettlements_ids _ _
    · obtain ⟨rfl, rfl⟩ := Prod.mk.inj (Except.ok.inj hpayment)
      exact List.nodup_nil

/-! ### The rows of a take-on -/

theorem openingParty_id {ctx : RowContext} {line : OpeningLine} {i : Nat} {t : PartyTransaction}
    (h : openingParty ctx (line, i) = some t) :
    t.id = "CT-" ++ ctx.documentId ++ "-" ++ toString i ∨
      t.id = "VT-" ++ ctx.documentId ++ "-" ++ toString i := by
  simp only [openingParty, Option.bind_eq_bind, Option.bind_eq_some_iff, Option.pure_def,
    Option.some.injEq] at h
  obtain ⟨kind, -, party, -, rfl⟩ := h
  cases kind with
  | customer => exact .inl rfl
  | supplier => exact .inr rfl

/-- No two rows of one ledger of a take-on share an id. -/
theorem buildOpening_rowIds {codec : Codec} {view : StoreView} {env : Env} {companyId : Uuid}
    {cmd : SoloOpeningCommand} {sha : String} {actor : Actor} {commit : PostingCommit}
    (h : buildOpening codec view env companyId cmd sha actor = .ok commit) (kind : LedgerKind) :
    ((kind.rows commit).map kind.rowId).Nodup := by
  obtain ⟨postingDate, stock, tb, continuations, hstock, -, rfl⟩ := buildOpening_ok h
  have hpositions : ∀ {α : Type} (l : List α), (l.zipIdx.map Prod.snd).Nodup := by
    intro α l
    rw [List.zipIdx_map_snd]
    exact List.nodup_range' ..
  cases kind with
  | gl =>
    have hids : ((cmd.lines.zipIdx.map (openingGl (openingContext companyId cmd postingDate))).map
        GlEntry.id) = (cmd.lines.zipIdx.map Prod.snd).map fun i =>
          "GL-" ++ cmd.documentId ++ "-" ++ toString i := by
      rw [List.map_map, List.map_map]
      rfl
    exact hids ▸ (hpositions cmd.lines).map fun _ _ h => Distinct.numbered_inj h
  | stock =>
    have hids : stock.sles.map StockLedgerEntry.id = (cmd.stock.zipIdx.map Prod.snd).map fun i =>
        (openingContext companyId cmd postingDate).sleStart ++ toString i := by
      rw [(openingStock_rows hstock).sles, List.map_map, List.map_map]
      rfl
    exact hids ▸ (hpositions cmd.stock).map fun _ _ h => Distinct.numbered_inj h
  | party =>
    refine Distinct.nodup_filterMap (hpositions cmd.lines) ?_
    intro line i line' j t t' ht ht' hid
    exact party_position (openingParty_id ht) (openingParty_id ht') hid
  | tax => exact List.nodup_nil
  | settlement => exact List.nodup_nil

/-! ### Bins -/

/-- The pair a bin is for. -/
def Bin.pair (bin : Bin) : Pair := toLex (bin.item, bin.warehouse)

/-- The pairs of the opening bins are those of the lines, one each. -/
theorem OpeningStockRows.Of.binPairs {ctx : RowContext} {done : List (OpeningStock × Nat)}
    {acc : OpeningStockRows} (h : acc.Of ctx done) : (acc.bins.map Bin.pair).Nodup := by
  have hpairs : acc.bins.map Bin.pair = acc.pairs := by
    rw [h.bins, h.pairs, List.map_map]
    rfl
  exact hpairs ▸ h.distinct

theorem recomputeBins_pairs (companyId : Uuid) (ledgers : Ledgers) :
    ((recomputeBins companyId ledgers).map Bin.pair).Nodup := by
  rw [recomputeBins, List.map_map]
  refine List.pairwise_map.2 (ledgers.rows.ordered.imp fun {e e'} hlt heq => ?_)
  exact absurd heq hlt.ne

end AtlasTeam
