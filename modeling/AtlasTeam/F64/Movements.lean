import AtlasTeam.F64.Engine

/-!
# Finite stock movements

When the rows and bins a voucher's movements come to are finite. Quantities are posted as they came, in
stock units; a rate only where the costing does not set one (`KeepsRate`). With these finite every figure
the costing makes is (`CostState.Finite.foldl`), and a figure that is not stays in the cache, where the
patching of output legs passes it by (`mem_patchFirst`) and the bin shows it, so finite bins say as
much (`movementsFinite_of_ledgers`).
-/

namespace AtlasTeam.F64

/-! ### The ledger cache -/

/-- Every cached row is finite. -/
def Ledgers.Finite (ledgers : Ledgers) : Prop :=
  ∀ pair rows, ledgers.lookup pair = some rows → ∀ row ∈ rows, row.Finite

namespace Ledgers
variable {ledgers : Ledgers} {pair : Pair}

theorem Finite.prior (h : ledgers.Finite) (pair : Pair) : ∀ row ∈ ledgers.prior pair, row.Finite := by
  unfold Ledgers.prior
  cases hrows : ledgers.lookup pair with
  | none => simp
  | some rows => exact h pair rows hrows

theorem Finite.put (h : ledgers.Finite) {rows : List LedgerRow} (hrows : ∀ row ∈ rows, row.Finite) :
    Finite (SortedMap.put ledgers pair rows) := by
  intro pair' rows' hlookup
  rw [SortedMap.lookup_put] at hlookup
  split_ifs at hlookup
  · exact Option.some.inj hlookup ▸ hrows
  · exact h pair' rows' hlookup

theorem Finite.priorFor (h : ledgers.Finite) (view : StoreView) (companyId : Uuid) :
    (ledgers.priorFor view companyId pair).Finite := by
  unfold Ledgers.priorFor
  split
  · exact h
  · refine h.put fun row hrow => ?_
    obtain ⟨sle, -, rfl⟩ := List.mem_map.1 hrow
    exact ⟨Ieee.isFinite_fin _, Ieee.isFinite_fin _⟩

theorem Finite.push (h : ledgers.Finite) {row : LedgerRow} (hrow : row.Finite) :
    (ledgers.push pair row).Finite :=
  h.put (List.forall_mem_append.2 ⟨h.prior pair, List.forall_mem_singleton.2 hrow⟩)

/-- The bins are finite exactly when the cache is. -/
theorem recomputeBins_finite (ledgers : Ledgers) :
    (∀ bin ∈ recomputeBins ledgers, bin.snapshot.Finite) ↔ ledgers.Finite := by
  simp only [recomputeBins, List.forall_mem_map, computeBalance_finite, Prod.forall]
  exact forall₂_congr fun pair rows => imp_congr_left (SortedMap.mem_entries_iff ledgers)

/-- A row that was held is held after more is cached. -/
theorem mem_prior_put {row : LedgerRow} {pair' : Pair} {rows : List LedgerRow}
    (h : row ∈ ledgers.prior pair) (hrows : ledgers.prior pair' ⊆ rows) :
    row ∈ Ledgers.prior (SortedMap.put ledgers pair' rows) pair := by
  unfold Ledgers.prior at h hrows ⊢
  rw [SortedMap.lookup_put]
  split_ifs with heq
  · exact hrows (heq ▸ h)
  · exact h

theorem mem_prior_priorFor {row : LedgerRow} {pair' : Pair} {view : StoreView} {companyId : Uuid}
    (h : row ∈ ledgers.prior pair) : row ∈ (ledgers.priorFor view companyId pair').prior pair := by
  unfold Ledgers.priorFor
  split
  · exact h
  · rename_i hnone
    refine mem_prior_put h ?_
    simp [Ledgers.prior, hnone]

theorem mem_prior_push {row row' : LedgerRow} {pair' : Pair} (h : row ∈ ledgers.prior pair) :
    row ∈ (ledgers.push pair' row').prior pair :=
  mem_prior_put h (List.subset_append_left _ _)

theorem self_mem_push (row : LedgerRow) : row ∈ (ledgers.push pair row).prior pair := by
  simp [Ledgers.push, Ledgers.prior]

end Ledgers

/-! ### What one movement posts -/

/-- The costing leaves the rate of a movement as it came: the row brings nothing in or out, it is an
output leg, or it comes in at its own rate. `issued` are the items taken out before it. -/
def KeepsRate (inputs : CostInputs) (issued : List String) (sle : StockLedgerEntry) : Prop :=
  ¬ stockQty inputs.items sle < 0 ∧
    (0 < stockQty inputs.items sle → inputs.isReturn = false ∧
      (sle.transType = .transfer → sle.item ∉ issued))

/-- The items taken out up to and with a movement. -/
def issuedWith (inputs : CostInputs) (issued : List String) (sle : StockLedgerEntry) : List String :=
  if stockQty inputs.items sle < 0 then sle.item :: issued else issued

/-- Every movement has a finite quantity in stock units, and a finite rate where it keeps it. -/
def MovementsFinite (inputs : CostInputs) : List String → List StockLedgerEntry → Prop
  | _, [] => True
  | issued, sle :: rest =>
    (stockQty inputs.items sle).IsFinite ∧ (KeepsRate inputs issued sle → sle.valuationRate.IsFinite) ∧
      MovementsFinite inputs (issuedWith inputs issued sle) rest

/-- A factor other than 1 is finite where the converted quantity is, and zero only where that is. -/
theorem factorOf_finite {items : Items} {sle : StockLedgerEntry} (h : (stockQty items sle).IsFinite)
    (hpos : 0 < stockQty items sle) (hfactor : (factorOf items sle - 1).abs > eps) :
    (factorOf items sle).IsFinite ∧ factorOf items sle ≠ 0 := by
  simp only [stockQty, hfactor, if_true] at h hpos
  refine ⟨(Ieee.isFinite_mul.1 h).2, fun hzero => ?_⟩
  obtain ⟨q, hq⟩ := (Ieee.isFinite_mul.1 h).1
  rw [hzero, hq] at hpos
  have hnone : q * 0 = 0 := mul_zero q
  exact absurd (Ieee.fin_lt_fin.1 hpos) (by rw [hnone]; exact lt_irrefl _)

/-! ### What one row leaves behind -/

/-- The rate a movement is cached and first costed at. -/
def movementRate (inputs : CostInputs) (st : CostState) (sle : StockLedgerEntry) : Ieee :=
  let ledgers := st.ledgers.priorFor inputs.view inputs.companyId sle.pair
  let qty := stockQty inputs.items sle
  if qty < 0 then
    issueRate (ledgers.prior sle.pair) (-qty)
      ((inputs.items.lookup sle.item).bind fun item => item.valuationMethod)
  else if 0 < qty ∧ isOutputLeg inputs sle = false then receiptRate inputs st ledgers sle
  else sle.valuationRate

section Rows
variable (inputs : CostInputs) (st : CostState) (sle : StockLedgerEntry)

/-- The row as it is costed. -/
def costedRow : StockLedgerEntry :=
  { sle with qtyChange := stockQty inputs.items sle, valuationRate := movementRate inputs st sle }

theorem costRow_costed :
    ∃ isLeg, (costRow inputs st sle).costed = st.costed ++ [(costedRow inputs st sle, isLeg)] := by
  unfold costRow costedRow movementRate
  dsimp only
  split_ifs with hneg hleg hpos
  all_goals simp_all

theorem costRow_ledgers : (costRow inputs st sle).ledgers =
    (st.ledgers.priorFor inputs.view inputs.companyId sle.pair).push sle.pair
      (costedRow inputs st sle).row := by
  unfold costRow costedRow movementRate StockLedgerEntry.row
  dsimp only
  split_ifs with hneg hleg hpos
  all_goals simp_all

theorem costRow_outCostByItem : (costRow inputs st sle).outCostByItem =
    if stockQty inputs.items sle < 0 then
      SortedMap.Raw.put sle.item (movementRate inputs st sle) st.outCostByItem
    else st.outCostByItem := by
  unfold costRow movementRate
  dsimp only
  split_ifs <;> rfl

theorem costRow_consumedCost : (costRow inputs st sle).consumedCost =
    if stockQty inputs.items sle < 0 then
      st.consumedCost + -stockQty inputs.items sle * movementRate inputs st sle
    else st.consumedCost := by
  unfold costRow movementRate
  dsimp only
  split_ifs <;> rfl

theorem costRow_producedQty : (costRow inputs st sle).producedQty = st.producedQty ∨
    (costRow inputs st sle).producedQty = st.producedQty + stockQty inputs.items sle := by
  unfold costRow
  dsimp only
  split_ifs
  · exact .inl rfl
  · exact .inr rfl
  · exact .inl rfl
  · exact .inl rfl

end Rows

/-! ### Finite movements give finite figures -/

/-- Everything the costing has gathered is finite, and it knows the cost of every item issued. -/
structure CostState.Finite (st : CostState) (issued : List String) : Prop where
  costed : ∀ entry ∈ st.costed, entry.1.row.Finite
  ledgers : st.ledgers.Finite
  outCost : ∀ item rate, st.outCostByItem.lookup item = some rate → rate.IsFinite
  issued : ∀ item ∈ issued, (st.outCostByItem.lookup item).isSome
  consumed : st.consumedCost.IsFinite
  produced : st.producedQty.IsFinite

theorem CostState.finite_start : CostState.Finite {} [] where
  costed _ h := absurd h List.not_mem_nil
  ledgers _ _ h := by cases h
  outCost _ _ h := by cases h
  issued _ h := absurd h List.not_mem_nil
  consumed := Ieee.isFinite_zero
  produced := Ieee.isFinite_zero

section Costing
variable {inputs : CostInputs} {st : CostState} {issued : List String} {sle : StockLedgerEntry}

theorem returnCost_finite {ledgers : Ledgers} (h : ledgers.Finite) (view : StoreView)
    (companyId : Uuid) (pair : Pair) (returnAgainst : Option String) :
    (returnCost view companyId pair returnAgainst ledgers).IsFinite := by
  unfold returnCost
  dsimp only
  split
  · exact Ieee.isFinite_fin _
  · split
    · exact Ieee.isFinite_fin _
    · exact (computeBalance_finite.2 (h.prior pair)).valuationRate

theorem CostState.Finite.movementRate (h : st.Finite issued)
    (hqty : (stockQty inputs.items sle).IsFinite)
    (hrate : KeepsRate inputs issued sle → sle.valuationRate.IsFinite) :
    (movementRate inputs st sle).IsFinite := by
  have hledgers : (st.ledgers.priorFor inputs.view inputs.companyId sle.pair).Finite :=
    h.ledgers.priorFor inputs.view inputs.companyId
  unfold F64.movementRate
  dsimp only
  split_ifs with hneg hpos
  · exact issueRate_finite (hledgers.prior _) (Ieee.isFinite_neg.2 hqty) _
  · unfold receiptRate
    split_ifs with hreturn htransfer hfactor
    · exact returnCost_finite hledgers _ _ _ _
    · cases hcost : st.outCostByItem.lookup sle.item with
      | some rate => exact h.outCost _ _ hcost
      | none =>
        refine hrate ⟨hneg, fun _ => ⟨Bool.eq_false_iff.2 hreturn, fun _ hissued => ?_⟩⟩
        have hsome := h.issued _ hissued
        rw [hcost] at hsome
        cases hsome
    all_goals
      have hown := hrate ⟨hneg, fun _ => ⟨Bool.eq_false_iff.2 hreturn, fun h => absurd h htransfer⟩⟩
    · obtain ⟨hfinite, hne⟩ := factorOf_finite hqty hpos.1 hfactor
      exact hown.div hfinite hne
    · exact hown
  · refine hrate ⟨hneg, fun hqty => ?_⟩
    have hleg : isOutputLeg inputs sle = true := by
      by_contra hleg
      exact hpos ⟨hqty, Bool.eq_false_iff.2 hleg⟩
    simp only [isOutputLeg, Bool.and_eq_true, Bool.not_eq_true', decide_eq_true_eq] at hleg
    exact ⟨hleg.1.2, fun htransfer => absurd (htransfer.symm.trans hleg.2) (by decide)⟩

theorem CostState.Finite.costRow (h : st.Finite issued) (hqty : (stockQty inputs.items sle).IsFinite)
    (hrate : KeepsRate inputs issued sle → sle.valuationRate.IsFinite) :
    (costRow inputs st sle).Finite (issuedWith inputs issued sle) := by
  have hmovement := h.movementRate hqty hrate
  have hrow : (costedRow inputs st sle).row.Finite := ⟨hqty, hmovement⟩
  obtain ⟨isLeg, hcosted⟩ := costRow_costed inputs st sle
  constructor
  case costed =>
    rw [hcosted]
    exact List.forall_mem_append.2 ⟨h.costed, List.forall_mem_singleton.2 hrow⟩
  case ledgers =>
    rw [costRow_ledgers]
    exact (h.ledgers.priorFor _ _).push hrow
  case outCost =>
    intro item rate hlookup
    rw [costRow_outCostByItem] at hlookup
    split_ifs at hlookup
    · by_cases hitem : item = sle.item
      · rw [hitem, SortedMap.Raw.lookup_put_self] at hlookup
        exact Option.some.inj hlookup ▸ hmovement
      · rw [SortedMap.Raw.lookup_put_ne hitem] at hlookup
        exact h.outCost item rate hlookup
    · exact h.outCost item rate hlookup
  case issued =>
    intro item hitem
    rw [costRow_outCostByItem]
    unfold issuedWith at hitem
    split_ifs at hitem ⊢
    · by_cases heq : item = sle.item
      · rw [heq, SortedMap.Raw.lookup_put_self]
        rfl
      · rw [SortedMap.Raw.lookup_put_ne heq]
        exact h.issued item ((List.mem_cons.1 hitem).resolve_left heq)
    · exact h.issued item hitem
  case consumed =>
    rw [costRow_consumedCost]
    split_ifs
    · exact Ieee.isFinite_add.2
        ⟨h.consumed, Ieee.isFinite_mul.2 ⟨Ieee.isFinite_neg.2 hqty, hmovement⟩⟩
    · exact h.consumed
  case produced =>
    rcases costRow_producedQty inputs st sle with heq | heq
    · exact heq ▸ h.produced
    · exact heq ▸ Ieee.isFinite_add.2 ⟨h.produced, hqty⟩

/-- The run of it: every row costed is finite when the movements are. -/
theorem CostState.Finite.foldl {sles : List StockLedgerEntry} (h : st.Finite issued)
    (hsles : MovementsFinite inputs issued sles) :
    ∃ issued', (sles.foldl (F64.costRow inputs) st).Finite issued' := by
  induction sles generalizing st issued with
  | nil => exact ⟨issued, h⟩
  | cons sle rest ih =>
    obtain ⟨hqty, hrate, hrest⟩ := hsles
    exact ih (h.costRow hqty hrate) hrest

end Costing

/-! ### The consumed cost spread over the output -/

section Patch
variable {target row : LedgerRow} {rate : Ieee} {rows : List LedgerRow}

theorem patchFirst_finite (h : ∀ row ∈ rows, row.Finite) (hrate : rate.IsFinite) :
    ∀ row ∈ patchFirst target rate rows, row.Finite := by
  induction rows with
  | nil => exact h
  | cons head rows ih =>
    obtain ⟨hhead, hrows⟩ := List.forall_mem_cons.1 h
    unfold patchFirst
    split_ifs
    · exact List.forall_mem_cons.2 ⟨⟨hhead.1, hrate⟩, hrows⟩
    · exact List.forall_mem_cons.2 ⟨hhead, ih hrows⟩

/-- A row that is not finite passes for no other. -/
theorem LedgerRow.not_close (h : ¬row.Finite) : row.close target = false := by
  by_contra hclose
  rw [Bool.not_eq_false, LedgerRow.close, Bool.and_eq_true, decide_eq_true_eq,
    decide_eq_true_eq] at hclose
  by_cases hqty : row.qtyChange.IsFinite
  · have hrate : ¬row.valuationRate.IsFinite := fun hrate => h ⟨hqty, hrate⟩
    exact Ieee.not_abs_lt (fun hsub => hrate (Ieee.isFinite_sub.1 hsub).1) _ hclose.2
  · exact Ieee.not_abs_lt (fun hsub => hqty (Ieee.isFinite_sub.1 hsub).1) _ hclose.1

theorem mem_patchFirst (hrow : row ∈ rows) (h : ¬row.Finite) : row ∈ patchFirst target rate rows := by
  induction rows with
  | nil => exact hrow
  | cons head rows ih =>
    unfold patchFirst
    split_ifs with hclose
    · rcases List.mem_cons.1 hrow with rfl | hrow
      · rw [LedgerRow.not_close h] at hclose
        cases hclose
      · exact List.mem_cons_of_mem _ hrow
    · rcases List.mem_cons.1 hrow with rfl | hrow
      · exact List.mem_cons_self
      · exact List.mem_cons_of_mem _ (ih hrow)

variable {ledgers : Ledgers}

theorem patchLeg_finite (h : ledgers.Finite) (hrate : rate.IsFinite) (leg : StockLedgerEntry) :
    (patchLeg rate ledgers leg).Finite := by
  unfold patchLeg
  split
  · rename_i rows hrows
    refine h.put fun row hrow => ?_
    refine patchFirst_finite (fun row hrow => ?_) hrate row (List.mem_reverse.1 hrow)
    exact h _ _ hrows row (List.mem_reverse.1 hrow)
  · exact h

theorem mem_patchLeg {pair : Pair} {leg : StockLedgerEntry} (hrow : row ∈ ledgers.prior pair)
    (h : ¬row.Finite) : row ∈ Ledgers.prior (patchLeg rate ledgers leg) pair := by
  unfold patchLeg
  split
  · rename_i rows hrows
    by_cases hpair : pair = leg.pair
    · subst hpair
      have hcached : ledgers.prior leg.pair = rows := by rw [Ledgers.prior, hrows, Option.getD_some]
      rw [Ledgers.prior, SortedMap.lookup_put, if_pos rfl, Option.getD_some]
      rw [hcached] at hrow
      exact List.mem_reverse.2 (mem_patchFirst (List.mem_reverse.2 hrow) h)
    · rw [Ledgers.prior, SortedMap.lookup_put, if_neg hpair]
      exact hrow
  · exact hrow

theorem foldl_patchLeg_finite (h : ledgers.Finite) (hrate : rate.IsFinite)
    (legs : List StockLedgerEntry) : Ledgers.Finite (legs.foldl (patchLeg rate) ledgers) := by
  induction legs generalizing ledgers with
  | nil => exact h
  | cons leg legs ih => exact ih (patchLeg_finite h hrate leg)

theorem mem_foldl_patchLeg {pair : Pair} (legs : List StockLedgerEntry)
    (hrow : row ∈ ledgers.prior pair) (h : ¬row.Finite) :
    row ∈ Ledgers.prior (legs.foldl (patchLeg rate) ledgers) pair := by
  induction legs generalizing ledgers with
  | nil => exact hrow
  | cons leg legs ih => exact ih (mem_patchLeg hrow h)

end Patch

/-- The costing of finite movements ends in finite rows and a finite cache. -/
theorem CostState.Finite.spread {st : CostState} {issued : List String} (h : st.Finite issued) :
    (∀ sle ∈ (spreadConsumedCost st).1, sle.row.Finite) ∧ (spreadConsumedCost st).2.Finite := by
  unfold spreadConsumedCost
  split_ifs with hspread
  · have hrate : (st.consumedCost / st.producedQty).IsFinite :=
      h.consumed.div h.produced (Ieee.ne_zero_of_pos hspread.2.1)
    refine ⟨fun sle hsle => ?_, foldl_patchLeg_finite h.ledgers hrate _⟩
    obtain ⟨⟨costed, isLeg⟩, hentry, rfl⟩ := List.mem_map.1 hsle
    dsimp only
    split_ifs
    · exact ⟨(h.costed _ hentry).1, hrate⟩
    · exact h.costed _ hentry
  · refine ⟨fun sle hsle => ?_, h.ledgers⟩
    obtain ⟨entry, hentry, rfl⟩ := List.mem_map.1 hsle
    exact h.costed _ hentry

/-! ### Finite bins need finite movements -/

/-- What was costed stands in the cache as it was first costed. -/
def CostState.Held (st : CostState) : Prop :=
  ∀ entry ∈ st.costed, entry.1.row ∈ st.ledgers.prior entry.1.pair

/-- The items issued so far are those an issue rate is known for. -/
def CostState.Tracks (st : CostState) (issued : List String) : Prop :=
  ∀ item, (st.outCostByItem.lookup item).isSome → item ∈ issued

/-- A finite cache at the end was finite, row by row, before the output was re-rated. -/
theorem finite_of_spread {st : CostState} (h : (spreadConsumedCost st).2.Finite) {pair : Pair}
    {row : LedgerRow} (hrow : row ∈ st.ledgers.prior pair) : row.Finite := by
  unfold spreadConsumedCost at h
  split_ifs at h
  · by_contra hnot
    exact hnot (h.prior pair row (mem_foldl_patchLeg _ hrow hnot))
  · exact h.prior pair row hrow

section Costing
variable {inputs : CostInputs} {st : CostState} {issued : List String} {sle : StockLedgerEntry}

theorem CostState.Held.costRow (h : st.Held) : (costRow inputs st sle).Held := by
  obtain ⟨isLeg, hcosted⟩ := costRow_costed inputs st sle
  intro entry hentry
  rw [costRow_ledgers]
  rw [hcosted] at hentry
  rcases List.mem_append.1 hentry with hold | hnew
  · exact Ledgers.mem_prior_push (Ledgers.mem_prior_priorFor (h entry hold))
  · rw [List.mem_singleton.1 hnew]
    exact Ledgers.self_mem_push _

theorem CostState.Tracks.costRow (h : st.Tracks issued) :
    (costRow inputs st sle).Tracks (issuedWith inputs issued sle) := by
  intro item hitem
  rw [costRow_outCostByItem] at hitem
  unfold issuedWith
  split_ifs at hitem ⊢
  · by_cases heq : item = sle.item
    · exact heq ▸ List.mem_cons_self
    · rw [SortedMap.Raw.lookup_put_ne heq] at hitem
      exact List.mem_cons_of_mem _ (h item hitem)
  · exact h item hitem

/-- A rate that is kept is finite when what the movement was costed at is. -/
theorem CostState.Tracks.rate_finite (h : st.Tracks issued)
    (hqty : (stockQty inputs.items sle).IsFinite) (hkeeps : KeepsRate inputs issued sle)
    (hrate : (movementRate inputs st sle).IsFinite) : sle.valuationRate.IsFinite := by
  unfold movementRate at hrate
  dsimp only at hrate
  rw [if_neg hkeeps.1] at hrate
  split_ifs at hrate with hpos
  · obtain ⟨hreturn, htransfer⟩ := hkeeps.2 hpos.1
    unfold receiptRate at hrate
    rw [hreturn, if_neg Bool.false_ne_true] at hrate
    split_ifs at hrate with htrans hfactor
    · have hnone : st.outCostByItem.lookup sle.item = none :=
        Option.not_isSome_iff_eq_none.1 fun hsome => htransfer htrans (h _ hsome)
      rwa [hnone, Option.getD_none] at hrate
    · obtain ⟨hfinite, hne⟩ := factorOf_finite hqty hpos.1 hfactor
      exact (Ieee.isFinite_div hfinite hne).1 hrate
    · exact hrate
  · exact hrate

theorem costed_subset_foldl (sles : List StockLedgerEntry) :
    st.costed ⊆ (sles.foldl (costRow inputs) st).costed := by
  induction sles generalizing st with
  | nil => exact List.Subset.refl _
  | cons sle rest ih =>
    obtain ⟨isLeg, hcosted⟩ := costRow_costed inputs st sle
    exact fun entry hentry => ih (hcosted ▸ List.mem_append_left _ hentry)

theorem movementsFinite_of_costed {sles : List StockLedgerEntry} (htracks : st.Tracks issued)
    (h : ∀ entry ∈ (sles.foldl (costRow inputs) st).costed, entry.1.row.Finite) :
    MovementsFinite inputs issued sles := by
  induction sles generalizing st issued with
  | nil => trivial
  | cons sle rest ih =>
    obtain ⟨isLeg, hcosted⟩ := costRow_costed inputs st sle
    have hrow : (costedRow inputs st sle).row.Finite :=
      h (costedRow inputs st sle, isLeg) (costed_subset_foldl rest (hcosted ▸ by simp))
    exact ⟨hrow.1, fun hkeeps => htracks.rate_finite hrow.1 hkeeps hrow.2, ih htracks.costRow h⟩

theorem CostState.Held.foldl {sles : List StockLedgerEntry} (h : st.Held) :
    (sles.foldl (F64.costRow inputs) st).Held := by
  induction sles generalizing st with
  | nil => exact h
  | cons sle rest ih => exact ih h.costRow

end Costing

/-- The stock side of a submit is finite exactly when its movements are. -/
theorem costing_finite_iff (inputs : CostInputs) (sles : List StockLedgerEntry) :
    (spreadConsumedCost (costRows inputs sles)).2.Finite ↔ MovementsFinite inputs [] sles := by
  constructor
  · intro h
    have hstart : CostState.Held {} := fun entry hentry => absurd hentry List.not_mem_nil
    have htracks : CostState.Tracks {} [] := by
      intro item hitem
      cases hitem
    have hheld : (costRows inputs sles).Held := hstart.foldl
    exact movementsFinite_of_costed htracks fun entry hentry => finite_of_spread h (hheld entry hentry)
  · intro h
    obtain ⟨issued, hfinite⟩ := CostState.finite_start.foldl h
    exact hfinite.spread.2

/-- Finite movements are posted as finite rows. -/
theorem costing_rows_finite {inputs : CostInputs} {sles : List StockLedgerEntry}
    (h : MovementsFinite inputs [] sles) :
    ∀ sle ∈ (spreadConsumedCost (costRows inputs sles)).1, sle.row.Finite := by
  obtain ⟨issued, hfinite⟩ := CostState.finite_start.foldl h
  exact hfinite.spread.1

end AtlasTeam.F64
