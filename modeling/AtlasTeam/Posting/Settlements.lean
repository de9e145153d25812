import AtlasTeam.Posting.Engine

/-!
# Settlements and outstanding amounts

What the builds say about outstanding amounts: an invoice starts with its grand total
(`preparePayload_outstanding`), and a payment or its cancellation brings one update per invoice it
settles, computed from the invoice and the settlements it read (`OutstandingUpdates`).
-/

namespace AtlasTeam

/-! ### The outstanding an invoice starts with -/

/-- A number that was sent is what the field reads as. -/
theorem sentNumber_eq_some {payload : Map} {field : String} {sent : ℚ}
    (h : sentNumber payload field = some sent) : asNum (payload.get field) = sent := by
  unfold sentNumber at h
  split at h
  · cases h
  · cases h
  · rename_i s hs
    split_ifs at h
    rw [hs]
    exact Option.some.inj h
  · rename_i v _ _ hv
    rw [hv]
    exact Option.some.inj h

/-- A stated total is the sent number, or the computed one when none was sent. -/
theorem statedTotal_ok {payload : Map} {field source : String} {computed tolerance total : ℚ}
    (h : statedTotal payload field computed tolerance source = .ok total) :
    sentNumber payload field = some total ∨ sentNumber payload field = none ∧ total = computed := by
  unfold statedTotal at h
  cases hsent : sentNumber payload field with
  | none =>
    simp only [hsent, Except.ok.injEq] at h
    exact .inr ⟨rfl, h.symm⟩
  | some sent =>
    simp only [hsent] at h
    split_ifs at h
    rw [Except.ok.inj h]
    exact .inl rfl

/-- An invoice whose outstanding is tracked starts with its grand total. -/
theorem validateInvoiceTotals_outstanding {payload payload' : Map}
    (h : validateInvoiceTotals payload true = .ok payload') :
    payload'.get "outstanding_amount" = some (.num (asNum (payload'.get "grand_total"))) := by
  simp only [validateInvoiceTotals, Except.bind_eq_ok, Except.throw_bind, Except.ite_throw_eq_ok,
    Except.pure_eq_ok] at h
  obtain ⟨⟨linesSum, lineCount⟩, -, total, -, taxTotal, -, grand, hgrand, -, rfl⟩ := h
  have hne : ("grand_total" : String) ≠ "outstanding_amount" := by decide
  simp only [if_true, Map.get_insert_self, Map.get_insert_ne _ hne, Map.get_remove_ne _ hne]
  rcases statedTotal_ok hgrand with hsent | ⟨hsent, -⟩
  · simp only [hsent, Option.isNone_some, Bool.false_eq_true, if_false]
    rw [sentNumber_eq_some hsent]
  · simp only [hsent, Option.isNone_none, if_true, Map.get_insert_self, asNum_num]

/-- The payload of an invoice carries its grand total as its outstanding amount. -/
theorem preparePayload_outstanding {view : StoreView} {env : Env} {companyId : Uuid}
    {cmd : SubmitCommand} {documentId : String} {prepared : Prepared}
    (h : preparePayload view env companyId cmd documentId = .ok prepared)
    (hdoctype : cmd.doctype ∈ settleableDoctypes) :
    prepared.payload.get "outstanding_amount" =
      some (.num (asNum (prepared.payload.get "grand_total"))) := by
  simp only [preparePayload, Except.bind_eq_ok, Except.throw_bind, Except.ite_throw_eq_ok,
    Except.pure_eq_ok] at h
  obtain ⟨postingDate, -, ⟨⟩, -, -, ⟨deposited, depositGuard⟩, -, checked, -, totals, htotals, rfl⟩ := h
  simp only [validateTotals, hdoctype, if_true, Except.bind_eq_ok] at htotals
  obtain ⟨⟨⟩, -, htotals⟩ := htotals
  exact validateInvoiceTotals_outstanding htotals

/-! ### The updates of a payment -/

/-- The invoice an update is for. -/
def updateKey (update : String × String × ℚ) : String × String := (update.1, update.2.1)

/-- What an update was computed from: a submitted invoice, what was settled on it and what the new
settlements allocate. -/
theorem outstandingUpdate_ok {view : StoreView} {companyId : Uuid} {new : List Settlement}
    {enforce : Bool} {key : String × String} {update : String × String × ℚ}
    (h : outstandingUpdate view companyId new enforce key = .ok update) :
    ∃ invoice, view.postedDocument companyId key.1 key.2 = some invoice ∧ invoice.docstatus = 1 ∧
      let grand := asNum (invoice.payload.get "grand_total")
      let stored :=
        ((view.settlementsForInvoice companyId key.1 key.2).map Settlement.allocatedAmount).sum
      (enforce = true → allocatedTo key new ≤ grand - stored + moneyEps) ∧
      update = (key.1, key.2, grand - (stored + allocatedTo key new)) := by
  unfold outstandingUpdate at h
  cases hinvoice : view.postedDocument companyId key.1 key.2 with
  | none =>
    rw [hinvoice] at h
    cases h
  | some invoice =>
    simp only [hinvoice, Except.throw_bind, Except.ite_throw_eq_ok, Except.pure_eq_ok, not_not] at h
    obtain ⟨hstatus, hlimit, rfl⟩ := h
    refine ⟨invoice, rfl, hstatus, fun henforce => ?_, ?_⟩
    · by_contra hover
      refine hlimit ⟨henforce, ?_⟩
      simpa [outstandingAmount] using hover
    · simp [outstandingAmount]

/-- The invoice is there and submitted. -/
def StoreView.Submitted (view : StoreView) (companyId : Uuid) (key : String × String) : Prop :=
  ∃ invoice, view.postedDocument companyId key.1 key.2 = some invoice ∧ invoice.docstatus = 1

/-- The updates name each settled invoice once. -/
structure OutstandingUpdates (view : StoreView) (companyId : Uuid) (new : List Settlement)
    (enforce : Bool) (updates : List (String × String × ℚ)) : Prop where
  nodup : (updates.map updateKey).Nodup
  computed : ∀ update ∈ updates,
    outstandingUpdate view companyId new enforce (updateKey update) = .ok update
  settled : ∀ key, key ∈ updates.map updateKey ↔ key ∈ new.map Settlement.invoiceKey

/-- An update that was computed found its invoice submitted. -/
theorem OutstandingUpdates.submitted {view : StoreView} {companyId : Uuid} {new : List Settlement}
    {enforce : Bool} {updates : List (String × String × ℚ)}
    (h : OutstandingUpdates view companyId new enforce updates) :
    ∀ s ∈ new, view.Submitted companyId s.invoiceKey := by
  intro s hs
  obtain ⟨update, hupdate, hkey⟩ := List.mem_map.1 ((h.settled s.invoiceKey).2 (List.mem_map_of_mem hs))
  obtain ⟨invoice, hinvoice, hstatus, -⟩ := outstandingUpdate_ok (h.computed update hupdate)
  rw [hkey] at hinvoice
  exact ⟨invoice, hinvoice, hstatus⟩

theorem outstandingLoop_ok {update : String × String → Except PostingError (String × String × ℚ)}
    (hkey : ∀ key u, update key = .ok u → updateKey u = key) {settlements : List Settlement}
    {seen : List (String × String)} {updates : List (String × String × ℚ)}
    (h : outstandingLoop update settlements seen = .ok updates) :
    (updates.map updateKey).Nodup ∧ (∀ u ∈ updates, update (updateKey u) = .ok u) ∧
      ∀ key, key ∈ updates.map updateKey ↔ key ∈ settlements.map Settlement.invoiceKey ∧ key ∉ seen := by
  induction settlements generalizing seen updates with
  | nil =>
    obtain rfl := Except.ok.inj h
    simp
  | cons s rest ih =>
    unfold outstandingLoop at h
    by_cases hseen : s.invoiceKey ∈ seen
    · rw [if_pos hseen] at h
      obtain ⟨hnodup, hcomputed, hkeys⟩ := ih h
      refine ⟨hnodup, hcomputed, fun key => (hkeys key).trans ?_⟩
      constructor
      · rintro ⟨hmem, hnot⟩
        exact ⟨List.mem_cons_of_mem _ hmem, hnot⟩
      · rintro ⟨hmem, hnot⟩
        rcases List.mem_cons.1 hmem with rfl | hmem
        · exact absurd hseen hnot
        · exact ⟨hmem, hnot⟩
    · rw [if_neg hseen] at h
      simp only [Except.bind_eq_ok, Except.pure_eq_ok] at h
      obtain ⟨head, hhead, tail, htail, rfl⟩ := h
      obtain ⟨hnodup, hcomputed, hkeys⟩ := ih htail
      have hheadKey := hkey _ _ hhead
      refine ⟨?_, ?_, fun key => ?_⟩
      · rw [List.map_cons, List.nodup_cons]
        refine ⟨fun hmem => ?_, hnodup⟩
        have hnot := ((hkeys _).1 hmem).2
        rw [hheadKey] at hnot
        exact hnot List.mem_cons_self
      · intro u hu
        rcases List.mem_cons.1 hu with rfl | hu
        · rw [hheadKey]
          exact hhead
        · exact hcomputed u hu
      · rw [List.map_cons, List.mem_cons, hkeys key, hheadKey, List.map_cons, List.mem_cons,
          List.mem_cons]
        by_cases hfirst : key = s.invoiceKey
        · subst hfirst
          simp [hseen]
        · simp [hfirst]

theorem paymentOutstandingUpdates_ok {view : StoreView} {companyId : Uuid} {new : List Settlement}
    {enforce : Bool} {updates : List (String × String × ℚ)}
    (h : paymentOutstandingUpdates view companyId new enforce = .ok updates) :
    OutstandingUpdates view companyId new enforce updates := by
  have hkey : ∀ key u, outstandingUpdate view companyId new enforce key = .ok u → updateKey u = key := by
    intro key u hu
    obtain ⟨invoice, -, -, -, rfl⟩ := outstandingUpdate_ok hu
    rfl
  obtain ⟨hnodup, hcomputed, hkeys⟩ := outstandingLoop_ok hkey h
  exact ⟨hnodup, hcomputed, fun key => (hkeys key).trans (and_iff_left List.not_mem_nil)⟩

/-- A commit that settles nothing updates nothing. -/
theorem OutstandingUpdates.none (view : StoreView) (companyId : Uuid) (enforce : Bool) :
    OutstandingUpdates view companyId [] enforce [] :=
  ⟨List.nodup_nil, fun _ h => absurd h List.not_mem_nil, fun _ => Iff.rfl⟩

/-- The settlements of a submit, and their updates. -/
theorem paymentRows_ok {view : StoreView} {ctx : RowContext} {payload : Map}
    {settlements : List Settlement} {updates : List (String × String × ℚ)}
    (h : paymentRows view ctx payload = .ok (settlements, updates)) :
    (ctx.doctype = "Payment Entry" ∨ settlements = []) ∧
      OutstandingUpdates view ctx.companyId settlements true updates := by
  unfold paymentRows at h
  split_ifs at h with hdoctype
  · simp only [Except.bind_eq_ok, Except.pure_eq_ok] at h
    obtain ⟨⟨⟩, -, updates', hupdates, hpair⟩ := h
    obtain ⟨rfl, rfl⟩ := Prod.mk.inj hpair
    exact ⟨.inl hdoctype, paymentOutstandingUpdates_ok hupdates⟩
  · obtain ⟨rfl, rfl⟩ := Prod.mk.inj (Except.ok.inj h)
    exact ⟨.inr rfl, .none _ _ _⟩

theorem checkAllocations_settleable {settlements : List Settlement} {total allocated : ℚ}
    (h : settlements.foldlM checkAllocation total = .ok allocated) :
    ∀ s ∈ settlements, s.invoiceVoucherType ∈ settleableDoctypes := by
  induction settlements generalizing total with
  | nil => simp
  | cons s rest ih =>
    rw [List.foldlM_cons, Except.bind_eq_ok] at h
    obtain ⟨total', hfirst, hrest⟩ := h
    refine List.forall_mem_cons.2 ⟨?_, ih hrest⟩
    unfold checkAllocation at hfirst
    by_contra hforeign
    rw [if_pos hforeign] at hfirst
    cases hfirst

/-- A submit settles only invoices. -/
theorem paymentRows_settleable {view : StoreView} {ctx : RowContext} {payload : Map}
    {settlements : List Settlement} {updates : List (String × String × ℚ)}
    (h : paymentRows view ctx payload = .ok (settlements, updates)) :
    ∀ s ∈ settlements, s.invoiceVoucherType ∈ settleableDoctypes := by
  unfold paymentRows at h
  split_ifs at h with hdoctype
  · simp only [Except.bind_eq_ok, Except.pure_eq_ok] at h
    obtain ⟨⟨⟩, hvalid, updates', -, hpair⟩ := h
    obtain ⟨rfl, rfl⟩ := Prod.mk.inj hpair
    simp only [validatePaymentSubmit, Except.bind_eq_ok, Except.throw_bind, Except.ite_throw_eq_ok] at hvalid
    obtain ⟨-, allocated, hallocated, -⟩ := hvalid
    exact checkAllocations_settleable hallocated
  · obtain ⟨rfl, rfl⟩ := Prod.mk.inj (Except.ok.inj h)
    simp

end AtlasTeam
