import AtlasTeam.Posting.Engine

/-!
# The ledger cache simulates the stock ledger

While a voucher is built, `Ledgers` stands for the stock ledger as it will be: for every pair the
voucher touches, the stored rows followed by the voucher's own (`Ledgers.Simulates`). Costing keeps
this row by row (`costRow_costing`), so an issue is costed on everything that stands before it; so does
the replay of a cancel's reversal rows (`replayRows_simulates`). Spreading the consumed cost of a
Production entry moves rates only, and the quantities still agree (`costStockMovements_quantities`).
-/

namespace AtlasTeam

/-- The stored rows of a pair. -/
def StoreView.stored (view : StoreView) (companyId : Uuid) (pair : Pair) : List StockLedgerEntry :=
  view.slesForPair companyId (ofLex pair).1 (ofLex pair).2

/-- The rows on a pair. -/
def onPair (pair : Pair) (rows : List StockLedgerEntry) : List StockLedgerEntry :=
  rows.filter fun sle => sle.pair = pair

@[simp] theorem onPair_append (pair : Pair) (rows rows' : List StockLedgerEntry) :
    onPair pair (rows ++ rows') = onPair pair rows ++ onPair pair rows' :=
  List.filter_append _ _

theorem onPair_cons (pair : Pair) (sle : StockLedgerEntry) (rows : List StockLedgerEntry) :
    onPair pair (sle :: rows) = if sle.pair = pair then sle :: onPair pair rows else onPair pair rows := by
  simp [onPair, List.filter_cons]

theorem onPair_eq_nil {pair : Pair} {rows : List StockLedgerEntry}
    (h : pair ∉ rows.map StockLedgerEntry.pair) : onPair pair rows = [] := by
  refine List.filter_eq_nil_iff.2 fun sle hsle => ?_
  have hne : sle.pair ≠ pair := fun heq => h (List.mem_map.2 ⟨sle, hsle, heq⟩)
  simpa using hne

section Simulates
variable (view : StoreView) (companyId : Uuid)

/-- What the cache holds for a pair once `posted` has gone through it. -/
def simulated (posted : List StockLedgerEntry) (pair : Pair) : List LedgerRow :=
  (view.stored companyId pair ++ onPair pair posted).map StockLedgerEntry.row

/-- The cache holds the pairs of `posted`, each with its stored rows and those of `posted`. -/
structure Ledgers.Simulates (posted : List StockLedgerEntry) (ledgers : Ledgers) : Prop where
  rows : ∀ pair, ledgers.rows.lookup pair =
    if pair ∈ posted.map StockLedgerEntry.pair then some (simulated view companyId posted pair)
    else none
  priorCounts : ∀ pair, ledgers.priorCounts.lookup pair =
    if pair ∈ posted.map StockLedgerEntry.pair then some (view.stored companyId pair).length
    else none

namespace Ledgers.Simulates
variable {view companyId} {posted : List StockLedgerEntry} {ledgers : Ledgers}

theorem empty : Ledgers.empty.Simulates view companyId [] where
  rows _ := rfl
  priorCounts _ := rfl

/-- Loading a pair gives its stored rows and what the voucher has posted on it. -/
theorem priorFor_rows (h : ledgers.Simulates view companyId posted) (pair pair' : Pair) :
    (ledgers.priorFor view companyId pair).rows.lookup pair' =
      if pair' = pair ∨ pair' ∈ posted.map StockLedgerEntry.pair then
        some (simulated view companyId posted pair')
      else none := by
  unfold priorFor
  by_cases hloaded : pair ∈ posted.map StockLedgerEntry.pair
  · have hrows := h.rows pair
    rw [if_pos hloaded] at hrows
    rw [hrows, h.rows pair']
    by_cases hpair : pair' = pair
    · subst hpair
      rw [if_pos hloaded, if_pos (.inl rfl)]
    · simp [hpair]
  · have hrows := h.rows pair
    rw [if_neg hloaded] at hrows
    rw [hrows, SortedMap.lookup_put]
    by_cases hpair : pair' = pair
    · subst hpair
      rw [if_pos rfl, if_pos (.inl rfl), simulated, onPair_eq_nil hloaded, List.append_nil]
      rfl
    · rw [if_neg hpair, h.rows pair']
      simp [hpair]

theorem priorFor_priorCounts (h : ledgers.Simulates view companyId posted) (pair pair' : Pair) :
    (ledgers.priorFor view companyId pair).priorCounts.lookup pair' =
      if pair' = pair ∨ pair' ∈ posted.map StockLedgerEntry.pair then
        some (view.stored companyId pair').length
      else none := by
  unfold priorFor
  have hrows := h.rows pair
  by_cases hloaded : pair ∈ posted.map StockLedgerEntry.pair
  · rw [if_pos hloaded] at hrows
    rw [hrows, h.priorCounts pair']
    by_cases hpair : pair' = pair
    · subst hpair
      rw [if_pos hloaded, if_pos (.inl rfl)]
    · simp [hpair]
  · rw [if_neg hloaded] at hrows
    rw [hrows, SortedMap.lookup_put]
    by_cases hpair : pair' = pair
    · subst hpair
      rw [if_pos rfl, if_pos (.inl rfl)]
      rfl
    · rw [if_neg hpair, h.priorCounts pair']
      simp [hpair]

/-- What an issue on the pair is costed on. -/
theorem prior_priorFor (h : ledgers.Simulates view companyId posted) (pair : Pair) :
    (ledgers.priorFor view companyId pair).prior pair = simulated view companyId posted pair := by
  rw [prior, h.priorFor_rows, if_pos (.inl rfl), Option.getD_some]

/-- One more row. -/
theorem push (h : ledgers.Simulates view companyId posted) (sle : StockLedgerEntry) :
    ((ledgers.priorFor view companyId sle.pair).push sle.pair sle.row).Simulates view companyId
      (posted ++ [sle]) := by
  have hmem : ∀ pair, pair ∈ (posted ++ [sle]).map StockLedgerEntry.pair ↔
      pair = sle.pair ∨ pair ∈ posted.map StockLedgerEntry.pair := by
    intro pair
    simp only [List.map_append, List.map_cons, List.map_nil, List.mem_append, List.mem_singleton]
    exact or_comm
  constructor
  · intro pair
    rw [if_congr (hmem pair) rfl rfl, Ledgers.push, SortedMap.lookup_put]
    by_cases hpair : pair = sle.pair
    · subst hpair
      rw [if_pos rfl, if_pos (.inl rfl), h.prior_priorFor]
      simp [simulated, onPair]
    · rw [if_neg hpair, h.priorFor_rows]
      have hne : ¬ sle.pair = pair := fun heq => hpair heq.symm
      simp [simulated, onPair, hne, hpair]
  · intro pair
    rw [if_congr (hmem pair) rfl rfl]
    exact h.priorFor_priorCounts sle.pair pair

end Ledgers.Simulates

/-- The replay of a cancel simulates the ledger with the reversal rows. -/
theorem replayRows_simulates (sles : List StockLedgerEntry) :
    (replayRows view companyId sles).Simulates view companyId sles := by
  have hrun : ∀ (sles posted : List StockLedgerEntry) (ledgers : Ledgers),
      ledgers.Simulates view companyId posted →
      (sles.foldl (replayRow view companyId) ledgers).Simulates view companyId (posted ++ sles) := by
    intro sles
    induction sles with
    | nil =>
      intro posted ledgers h
      simpa using h
    | cons sle sles ih =>
      intro posted ledgers h
      have hrest := ih (posted ++ [sle]) _ (h.push sle)
      rwa [List.append_assoc] at hrest
  exact hrun sles [] Ledgers.empty .empty

/-- The cache agrees with the simulated ledger in what `f` reads off the rows of a pair. -/
structure Ledgers.Reflects {α : Type} (f : List LedgerRow → α) (posted : List StockLedgerEntry)
    (ledgers : Ledgers) : Prop where
  rows : ∀ pair, (ledgers.rows.lookup pair).map f =
    if pair ∈ posted.map StockLedgerEntry.pair then some (f (simulated view companyId posted pair))
    else none
  priorCounts : ∀ pair, ledgers.priorCounts.lookup pair =
    if pair ∈ posted.map StockLedgerEntry.pair then some (view.stored companyId pair).length
    else none

theorem Ledgers.Simulates.reflects {view : StoreView} {companyId : Uuid}
    {posted : List StockLedgerEntry} {ledgers : Ledgers}
    (h : ledgers.Simulates view companyId posted) {α : Type} (f : List LedgerRow → α) :
    ledgers.Reflects view companyId f posted where
  rows pair := by
    rw [h.rows]
    split_ifs <;> rfl
  priorCounts := h.priorCounts

end Simulates

/-! ### The costing loop -/

/-- The valuation method of an item. -/
def valuationMethodOf (items : Items) (item : String) : Option String :=
  (items.lookup item).bind Item.valuationMethod

/-- A row with its quantity and rate settled. -/
def StockLedgerEntry.valued (sle : StockLedgerEntry) (qty rate : ℚ) : StockLedgerEntry :=
  { sle with qtyChange := qty, valuationRate := rate }

/-- What costing one row does: the row joins the costed rows and the cache with its quantity and rate
settled, an issue at the cost of what the cache holds. -/
theorem costRow_cases (inputs : CostInputs) (st : CostState) (sle : StockLedgerEntry) :
    ∃ qty rate isLeg,
      (costRow inputs st sle).costed = st.costed ++ [(sle.valued qty rate, isLeg)] ∧
      (costRow inputs st sle).ledgers =
        (st.ledgers.priorFor inputs.view inputs.companyId sle.pair).push sle.pair ⟨qty, rate⟩ ∧
      (qty < 0 → rate =
        issueRate ((st.ledgers.priorFor inputs.view inputs.companyId sle.pair).prior sle.pair)
          (-qty) (valuationMethodOf inputs.items sle.item)) ∧
      (isLeg = true → sle.transType = .production) := by
  by_cases hneg : stockQty inputs.items sle < 0
  · simp only [costRow, hneg, if_true]
    exact ⟨_, _, _, rfl, rfl, fun _ => rfl, fun hfalse => absurd hfalse Bool.false_ne_true⟩
  · by_cases hleg : isOutputLeg inputs sle = true
    · simp only [costRow, hneg, hleg, if_true, if_false]
      refine ⟨_, _, _, rfl, rfl, fun hlt => absurd hlt hneg, fun _ => ?_⟩
      simp only [isOutputLeg, Bool.and_eq_true, decide_eq_true_eq] at hleg
      exact hleg.2
    · simp only [costRow, hneg, hleg, if_false]
      exact ⟨_, _, _, rfl, rfl, fun hlt => absurd hlt hneg,
        fun hfalse => absurd hfalse Bool.false_ne_true⟩

/-- What holds after every row of the costing loop. -/
structure Costing (inputs : CostInputs) (st : CostState) : Prop where
  simulates : st.ledgers.Simulates inputs.view inputs.companyId (st.costed.map Prod.fst)
  /-- An issue is costed on all that stands before it. -/
  issues : ∀ before sle isLeg after, st.costed = before ++ (sle, isLeg) :: after →
    sle.qtyChange < 0 → sle.valuationRate =
      issueRate (simulated inputs.view inputs.companyId (before.map Prod.fst) sle.pair)
        (-sle.qtyChange) (valuationMethodOf inputs.items sle.item)
  legs : ∀ sle, (sle, true) ∈ st.costed → sle.transType = .production

theorem costing_fresh (inputs : CostInputs) : Costing inputs {} where
  simulates := .empty
  issues before sle isLeg after h := by simp at h
  legs sle h := absurd h List.not_mem_nil

/-- Costing a row keeps the invariant. -/
theorem costRow_costing {inputs : CostInputs} {st : CostState} (h : Costing inputs st)
    (sle : StockLedgerEntry) : Costing inputs (costRow inputs st sle) := by
  obtain ⟨qty, rate, isLeg, hcosted, hledgers, hissue, hleg⟩ := costRow_cases inputs st sle
  rw [h.simulates.prior_priorFor] at hissue
  constructor
  · rw [hcosted, hledgers, List.map_append]
    exact h.simulates.push (sle.valued qty rate)
  · intro before sle' isLeg' after hsplit hneg
    rw [hcosted] at hsplit
    rcases List.eq_nil_or_concat after with rfl | ⟨after', last, rfl⟩
    · obtain ⟨rfl, hlast⟩ := List.append_inj' hsplit rfl
      cases hlast
      exact hissue hneg
    · rw [List.concat_eq_append, ← List.cons_append, ← List.append_assoc] at hsplit
      exact h.issues before sle' isLeg' after' (List.append_inj' hsplit rfl).1 hneg
  · intro sle' hmem
    rw [hcosted] at hmem
    rcases List.mem_append.1 hmem with hmem | hmem
    · exact h.legs sle' hmem
    · cases List.mem_singleton.1 hmem
      exact hleg rfl

theorem foldl_costRow_costing {inputs : CostInputs} {st : CostState} (h : Costing inputs st)
    (sles : List StockLedgerEntry) : Costing inputs (sles.foldl (costRow inputs) st) := by
  induction sles generalizing st with
  | nil => exact h
  | cons sle sles ih => exact ih (costRow_costing h sle)

/-- A row without its quantity and rate. -/
def StockLedgerEntry.unvalued (sle : StockLedgerEntry) : StockLedgerEntry := sle.valued 0 0

/-- Costing settles quantities and rates and nothing else. -/
theorem foldl_costRow_unvalued (inputs : CostInputs) (st : CostState)
    (sles : List StockLedgerEntry) :
    (sles.foldl (costRow inputs) st).costed.map (fun e => e.1.unvalued) =
      st.costed.map (fun e => e.1.unvalued) ++ sles.map StockLedgerEntry.unvalued := by
  induction sles generalizing st with
  | nil => simp
  | cons sle sles ih =>
    obtain ⟨qty, rate, isLeg, hcosted, -, -, -⟩ := costRow_cases inputs st sle
    have hrow : (sle.valued qty rate).unvalued = sle.unvalued := rfl
    rw [List.foldl_cons, ih, hcosted, List.map_append, List.map_singleton, hrow]
    simp

/-! ### Spreading the consumed cost -/

theorem patchFirst_quantities (target : LedgerRow) (rate : ℚ) (rows : List LedgerRow) :
    (patchFirst target rate rows).map LedgerRow.qtyChange = rows.map LedgerRow.qtyChange := by
  induction rows with
  | nil => rfl
  | cons row rows ih =>
    unfold patchFirst
    split_ifs
    · rfl
    · simp [ih]

theorem patchLast_quantities (target : LedgerRow) (rate : ℚ) (rows : List LedgerRow) :
    (patchLast target rate rows).map LedgerRow.qtyChange = rows.map LedgerRow.qtyChange := by
  simp [patchLast, patchFirst_quantities]

/-- Patching a leg moves no quantity and loads no pair. -/
theorem patchLeg_quantities (rate : ℚ) (ledgers : Ledgers) (leg : StockLedgerEntry) (pair : Pair) :
    ((patchLeg rate ledgers leg).rows.lookup pair).map (List.map LedgerRow.qtyChange) =
      (ledgers.rows.lookup pair).map (List.map LedgerRow.qtyChange) := by
  unfold patchLeg
  cases hrows : ledgers.rows.lookup leg.pair with
  | none => rfl
  | some rows =>
    rw [SortedMap.lookup_put]
    by_cases hpair : pair = leg.pair
    · subst hpair
      simp [hrows, patchLast_quantities]
    · rw [if_neg hpair]

theorem foldl_patchLeg_quantities (rate : ℚ) (ledgers : Ledgers) (legs : List StockLedgerEntry)
    (pair : Pair) :
    ((legs.foldl (patchLeg rate) ledgers).rows.lookup pair).map (List.map LedgerRow.qtyChange) =
      (ledgers.rows.lookup pair).map (List.map LedgerRow.qtyChange) := by
  induction legs generalizing ledgers with
  | nil => rfl
  | cons leg legs ih => rw [List.foldl_cons, ih, patchLeg_quantities]

theorem foldl_patchLeg_priorCounts (rate : ℚ) (ledgers : Ledgers) (legs : List StockLedgerEntry) :
    (legs.foldl (patchLeg rate) ledgers).priorCounts = ledgers.priorCounts := by
  induction legs generalizing ledgers with
  | nil => rfl
  | cons leg legs ih =>
    rw [List.foldl_cons, ih]
    unfold patchLeg
    split <;> rfl

/-- The rate the consumed cost is spread at. -/
def CostState.unitCost (st : CostState) : ℚ := st.consumedCost / st.producedQty

/-- The consumed cost is spread over the output. -/
def CostState.Spreads (st : CostState) : Prop :=
  st.legs ≠ [] ∧ 0 < st.producedQty ∧ 0 < st.consumedCost

instance (st : CostState) : Decidable st.Spreads := inferInstanceAs (Decidable (_ ∧ _ ∧ _))

/-- A costed row as it is posted once the consumed cost is spread. -/
def CostState.settled (st : CostState) (e : StockLedgerEntry × Bool) : StockLedgerEntry :=
  if e.2 then e.1.valued e.1.qtyChange st.unitCost else e.1

theorem spreadConsumedCost_pos {st : CostState} (h : st.Spreads) :
    spreadConsumedCost st =
      (st.costed.map st.settled, st.legs.foldl (patchLeg st.unitCost) st.ledgers) :=
  if_pos h

theorem spreadConsumedCost_neg {st : CostState} (h : ¬ st.Spreads) :
    spreadConsumedCost st = (st.costed.map Prod.fst, st.ledgers) :=
  if_neg h

theorem CostState.settled_pair (st : CostState) (e : StockLedgerEntry × Bool) :
    (st.settled e).pair = e.1.pair := by
  unfold settled
  split_ifs <;> rfl

theorem CostState.settled_qtyChange (st : CostState) (e : StockLedgerEntry × Bool) :
    (st.settled e).qtyChange = e.1.qtyChange := by
  unfold settled
  split_ifs <;> rfl

theorem CostState.settled_unvalued (st : CostState) (e : StockLedgerEntry × Bool) :
    (st.settled e).unvalued = e.1.unvalued := by
  unfold settled
  split_ifs <;> rfl

theorem CostState.map_settled_pair (st : CostState) :
    (st.costed.map st.settled).map StockLedgerEntry.pair =
      (st.costed.map Prod.fst).map StockLedgerEntry.pair := by
  simp only [List.map_map]
  exact List.map_congr_left fun e _ => st.settled_pair e

/-- The rows posted on a pair. -/
theorem CostState.onPair_settled (st : CostState) (pair : Pair) :
    onPair pair (st.costed.map st.settled) =
      (st.costed.filter fun e => e.1.pair = pair).map st.settled := by
  rw [onPair, List.filter_map]
  congr 2
  funext e
  simp only [Function.comp_apply, st.settled_pair]

theorem CostState.onPair_costed (st : CostState) (pair : Pair) :
    onPair pair (st.costed.map Prod.fst) =
      (st.costed.filter fun e => e.1.pair = pair).map Prod.fst := by
  rw [onPair, List.filter_map]
  rfl

section Voucher
variable (view : StoreView) (companyId : Uuid) (sles : List StockLedgerEntry) (items : Items)
  (payload : Map)

/-- The rows of a voucher are posted with their quantities and rates settled, and nothing else. -/
theorem costStockMovements_unvalued :
    (costStockMovements view companyId sles items payload).1.map StockLedgerEntry.unvalued =
      sles.map StockLedgerEntry.unvalued := by
  have hshape := foldl_costRow_unvalued (costInputs view companyId items payload) {} sles
  rw [List.map_nil, List.nil_append] at hshape
  rw [← hshape]
  unfold costStockMovements
  by_cases hspreads : (costRows (costInputs view companyId items payload) sles).Spreads
  · rw [spreadConsumedCost_pos hspreads, List.map_map]
    exact List.map_congr_left fun e _ => CostState.settled_unvalued _ e
  · rw [spreadConsumedCost_neg hspreads, List.map_map]
    rfl

/-- The cache agrees in quantities with the ledger as it will be. -/
theorem costStockMovements_quantities :
    (costStockMovements view companyId sles items payload).2.Reflects view companyId
      (List.map LedgerRow.qtyChange) (costStockMovements view companyId sles items payload).1 := by
  have hcosting := foldl_costRow_costing (costing_fresh (costInputs view companyId items payload)) sles
  have hreflects := hcosting.simulates.reflects (List.map LedgerRow.qtyChange)
  unfold costStockMovements
  by_cases hspreads : (costRows (costInputs view companyId items payload) sles).Spreads
  · rw [spreadConsumedCost_pos hspreads]
    constructor
    · intro pair
      rw [foldl_patchLeg_quantities, CostState.map_settled_pair]
      refine (hreflects.rows pair).trans ?_
      congr 2
      simp only [simulated, List.map_append, CostState.onPair_settled]
      rw [CostState.onPair_costed]
      simp only [List.map_map]
      congr 1
      exact List.map_congr_left fun e _ => (CostState.settled_qtyChange _ e).symm
    · intro pair
      rw [foldl_patchLeg_priorCounts, CostState.map_settled_pair]
      exact hreflects.priorCounts pair
  · rw [spreadConsumedCost_neg hspreads]
    exact hreflects

/-- Only a Production voucher has output legs. -/
theorem costRows_legs_eq_nil {inputs : CostInputs} {sles : List StockLedgerEntry}
    (hplain : ∀ sle ∈ sles, sle.transType ≠ .production) : (costRows inputs sles).legs = [] := by
  have hcosting := foldl_costRow_costing (costing_fresh inputs) sles
  have hshape := foldl_costRow_unvalued inputs {} sles
  refine List.map_eq_nil_iff.2 (List.filter_eq_nil_iff.2 fun e he hleg => ?_)
  obtain ⟨sle, isLeg⟩ := e
  obtain rfl : isLeg = true := hleg
  have hmem : sle.unvalued ∈ sles.map StockLedgerEntry.unvalued := by
    rw [List.map_nil, List.nil_append] at hshape
    rw [← hshape]
    exact List.mem_map.2 ⟨_, he, rfl⟩
  obtain ⟨sle', hsle', hunvalued⟩ := List.mem_map.1 hmem
  have htrans : sle'.transType = sle.transType := by
    have hfield := congrArg StockLedgerEntry.transType hunvalued
    exact hfield
  exact hplain sle' hsle' (htrans.trans (hcosting.legs sle he))

/-- In a voucher that is no Production entry, an issue is costed on the stored rows of its pair and
the voucher's rows before it. -/
theorem costStockMovements_issue (hplain : ∀ sle ∈ sles, sle.transType ≠ .production)
    {before after : List StockLedgerEntry} {sle : StockLedgerEntry}
    (hrows : (costStockMovements view companyId sles items payload).1 = before ++ sle :: after)
    (hissue : sle.qtyChange < 0) :
    sle.valuationRate = issueRate (simulated view companyId before sle.pair) (-sle.qtyChange)
      (valuationMethodOf items sle.item) := by
  have hcosting := foldl_costRow_costing (costing_fresh (costInputs view companyId items payload)) sles
  have hspreads : ¬ (costRows (costInputs view companyId items payload) sles).Spreads :=
    fun h => h.1 (costRows_legs_eq_nil hplain)
  rw [costStockMovements, spreadConsumedCost_neg hspreads] at hrows
  obtain ⟨before', rest, hcosted, rfl, hrest⟩ := List.map_eq_append_iff.1 hrows
  obtain ⟨⟨sle', isLeg⟩, after', rfl, rfl, -⟩ := List.map_eq_cons_iff.1 hrest
  exact hcosting.issues before' sle' isLeg after' hcosted hissue

end Voucher

end AtlasTeam
