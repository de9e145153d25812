import AtlasTeam.Posting.Fifo
import AtlasTeam.Posting.Prepared
import AtlasTeam.Posting.Production
import AtlasTeam.Posting.RowIds
import AtlasTeam.Posting.StockLegs

/-!
# The value a stock voucher moves (`posting/engine.rs`)

`CostState.rateOf` says at which rate the costing of a voucher puts a row on the stock ledger, and
`costRow_spec` what a row does to the costing. From it follows what the rows of a voucher are worth
together: the output of a Production entry what it consumed, the legs of a Material Transfer nothing as long
as its goods go from source to target and are no return, and a receipt in another unit what it was supplied
at. `Store/StockValues` reads this off the ledger.
-/

namespace AtlasTeam

/-! ### One row of the costing -/

section Row
variable (inputs : CostInputs) (st : CostState) (sle : StockLedgerEntry)

/-- The rate a row is put on the ledger at, before the consumed cost is spread: an issue at its cost, an
incoming row that is no output leg at what it enters at, any other as it came. -/
def CostState.rateOf : ℚ :=
  let ledgers := st.ledgers.priorFor inputs.view inputs.companyId sle.pair
  let qty := stockQty inputs.items sle
  if qty < 0 then
    issueRate (ledgers.prior sle.pair) (-qty) (valuationMethodOf inputs.items sle.item)
  else if 0 < qty ∧ isOutputLeg inputs sle = false then receiptRate inputs st ledgers sle
  else sle.valuationRate

/-- What one row does to the costing. -/
structure CostState.Costs (st' : CostState) : Prop where
  costed : st'.costed = st.costed ++
    [(sle.valued (stockQty inputs.items sle) (st.rateOf inputs sle), isOutputLeg inputs sle)]
  outCost : st'.outCostByItem =
    if stockQty inputs.items sle < 0 then
      SortedMap.Raw.put sle.item (st.rateOf inputs sle) st.outCostByItem
    else st.outCostByItem
  consumed : st'.consumedCost = st.consumedCost +
    if stockQty inputs.items sle < 0 then -(stockQty inputs.items sle * st.rateOf inputs sle) else 0
  produced : st'.producedQty = st.producedQty +
    if isOutputLeg inputs sle then stockQty inputs.items sle else 0

theorem costRow_spec : st.Costs inputs sle (costRow inputs st sle) := by
  have hlegPos : isOutputLeg inputs sle = true → 0 < stockQty inputs.items sle := by
    intro h
    simp only [isOutputLeg, Bool.and_eq_true, decide_eq_true_eq] at h
    exact h.1.1
  by_cases hneg : stockQty inputs.items sle < 0
  · have hplain : isOutputLeg inputs sle = false := by
      rw [← Bool.not_eq_true]
      exact fun hleg => absurd (hlegPos hleg) hneg.not_gt
    constructor <;> simp [costRow, CostState.rateOf, hneg, hplain, StockLedgerEntry.valued,
      valuationMethodOf]
  · by_cases hleg : isOutputLeg inputs sle = true
    · constructor <;> simp [costRow, CostState.rateOf, hneg, hleg, StockLedgerEntry.valued]
    · rw [Bool.not_eq_true] at hleg
      constructor <;> simp [costRow, CostState.rateOf, hneg, hleg, StockLedgerEntry.valued]

end Row

/-! ### Production -/

/-- What the rows that leave the stock are worth. -/
def consumedWorth (rows : List StockLedgerEntry) : ℚ :=
  ((rows.filter fun sle => sle.qtyChange < 0).map fun sle => -sle.worth).sum

/-- How much the rows bring into the stock. -/
def producedQuantity (rows : List StockLedgerEntry) : ℚ :=
  ((rows.filter fun sle => 0 < sle.qtyChange).map StockLedgerEntry.qtyChange).sum

section Sums
variable (sle : StockLedgerEntry) (rows : List StockLedgerEntry)

theorem consumedWorth_cons : consumedWorth (sle :: rows) =
    (if sle.qtyChange < 0 then -sle.worth else 0) + consumedWorth rows := by
  unfold consumedWorth
  rw [List.filter_cons]
  split_ifs <;> simp_all

theorem producedQuantity_cons : producedQuantity (sle :: rows) =
    (if 0 < sle.qtyChange then sle.qtyChange else 0) + producedQuantity rows := by
  unfold producedQuantity
  rw [List.filter_cons]
  split_ifs <;> simp_all

theorem consumedWorth_concat : consumedWorth (rows ++ [sle]) =
    consumedWorth rows + if sle.qtyChange < 0 then -sle.worth else 0 := by
  have hlast := consumedWorth_cons sle []
  rw [show consumedWorth [] = 0 from rfl, add_zero] at hlast
  rw [← hlast, consumedWorth, List.filter_append, List.map_append, List.sum_append]
  rfl

theorem producedQuantity_concat : producedQuantity (rows ++ [sle]) =
    producedQuantity rows + if 0 < sle.qtyChange then sle.qtyChange else 0 := by
  have hlast := producedQuantity_cons sle []
  rw [show producedQuantity [] = 0 from rfl, add_zero] at hlast
  rw [← hlast, producedQuantity, List.filter_append, List.map_append, List.sum_append]
  rfl

/-- Rows of which all that come in have one rate are worth what comes in at this rate less what leaves. -/
theorem sum_worth {rows : List StockLedgerEntry} {rate : ℚ}
    (h : ∀ sle ∈ rows, 0 < sle.qtyChange → sle.valuationRate = rate) :
    (rows.map StockLedgerEntry.worth).sum = producedQuantity rows * rate - consumedWorth rows := by
  induction rows with
  | nil => simp [producedQuantity, consumedWorth]
  | cons sle rows ih =>
    obtain ⟨hsle, hrows⟩ := List.forall_mem_cons.1 h
    rw [List.map_cons, List.sum_cons, ih hrows, producedQuantity_cons, consumedWorth_cons]
    rcases lt_trichotomy sle.qtyChange 0 with hneg | hzero | hpos
    · rw [if_neg hneg.not_gt, if_pos hneg]
      ring
    · rw [if_neg hzero.not_gt, if_neg hzero.not_lt, StockLedgerEntry.worth, hzero]
      ring
    · rw [if_pos hpos, if_neg hpos.not_gt, StockLedgerEntry.worth, hsle hpos]
      ring

end Sums

/-- What the costing of a Production entry has added up so far. -/
structure CostState.Produces (st : CostState) : Prop where
  legs : ∀ e ∈ st.costed, e.2 = true ↔ 0 < e.1.qtyChange
  consumed : st.consumedCost = consumedWorth (st.costed.map Prod.fst)
  produced : st.producedQty = producedQuantity (st.costed.map Prod.fst)

theorem produces_fresh : CostState.Produces {} where
  legs _ h := absurd h List.not_mem_nil
  consumed := rfl
  produced := rfl

theorem costRow_produces {inputs : CostInputs} {st : CostState} (h : st.Produces)
    (hreturn : inputs.isReturn = false) {sle : StockLedgerEntry} (hsle : sle.transType = .production) :
    (costRow inputs st sle).Produces := by
  have hspec := costRow_spec inputs st sle
  have hleg : isOutputLeg inputs sle = true ↔ 0 < stockQty inputs.items sle := by
    simp [isOutputLeg, hreturn, hsle]
  constructor
  · rw [hspec.costed]
    intro e he
    rcases List.mem_append.1 he with he | he
    · exact h.legs e he
    · obtain rfl := List.mem_singleton.1 he
      exact hleg
  · rw [hspec.consumed, hspec.costed, List.map_append, List.map_singleton, consumedWorth_concat, h.consumed]
    rfl
  · rw [hspec.produced, hspec.costed, List.map_append, List.map_singleton, producedQuantity_concat,
      h.produced]
    congr 1
    exact if_congr hleg rfl rfl

theorem foldl_costRow_produces {inputs : CostInputs} {st : CostState} (h : st.Produces)
    (hreturn : inputs.isReturn = false) {sles : List StockLedgerEntry}
    (hsles : ∀ sle ∈ sles, sle.transType = .production) : (sles.foldl (costRow inputs) st).Produces := by
  induction sles generalizing st with
  | nil => exact h
  | cons sle sles ih =>
    obtain ⟨hsle, hrest⟩ := List.forall_mem_cons.1 hsles
    exact ih (costRow_produces h hreturn hsle) hrest

namespace CostState.Produces
variable {st : CostState}

/-- Spreading the consumed cost changes neither what was consumed nor how much was produced. -/
theorem settled_sums (h : st.Produces) :
    consumedWorth (st.costed.map st.settled) = st.consumedCost ∧
      producedQuantity (st.costed.map st.settled) = st.producedQty := by
  have hlegs := h.legs
  rw [h.consumed, h.produced]
  generalize st.costed = costed at hlegs
  induction costed with
  | nil => exact ⟨rfl, rfl⟩
  | cons e costed ih =>
    obtain ⟨hleg, hrest⟩ := List.forall_mem_cons.1 hlegs
    obtain ⟨hconsumed, hproduced⟩ := ih hrest
    simp only [List.map_cons]
    rw [consumedWorth_cons, consumedWorth_cons, producedQuantity_cons, producedQuantity_cons, hconsumed,
      hproduced, st.settled_qtyChange]
    refine ⟨?_, rfl⟩
    congr 1
    by_cases hneg : e.1.qtyChange < 0
    · -- a row that leaves the stock is no leg
      have hplain : e.2 = false := by
        rw [← Bool.not_eq_true]
        exact fun he => hneg.not_gt (hleg.1 he)
      rw [CostState.settled, hplain]
      rfl
    · rw [if_neg hneg, if_neg hneg]

/-- Where something was consumed and something produced, what is produced is worth what was consumed. -/
theorem conserves (h : st.Produces) {rows : List StockLedgerEntry}
    (hrows : rows = (spreadConsumedCost st).1) (hconsumed : 0 < consumedWorth rows)
    (hproduced : 0 < producedQuantity rows) :
    (∀ sle ∈ rows, 0 < sle.qtyChange →
      sle.valuationRate = consumedWorth rows / producedQuantity rows) ∧
    (rows.map StockLedgerEntry.worth).sum = 0 := by
  have hspreads : st.Spreads := by
    by_contra hnot
    rw [spreadConsumedCost_neg hnot] at hrows
    subst hrows
    rw [← h.consumed] at hconsumed
    rw [← h.produced] at hproduced
    refine hnot ⟨fun hnone => ?_, hproduced, hconsumed⟩
    -- without a leg nothing came in
    have hnothing : producedQuantity (st.costed.map Prod.fst) = 0 := by
      unfold producedQuantity
      rw [List.filter_eq_nil_iff.2, List.map_nil, List.sum_nil]
      intro sle hsle hpos
      obtain ⟨e, he, rfl⟩ := List.mem_map.1 hsle
      have hleg := (h.legs e he).2 (of_decide_eq_true hpos)
      have hmem : e.1 ∈ st.legs := CostState.mem_legs.2 (by rw [← hleg]; exact he)
      rw [hnone] at hmem
      exact absurd hmem List.not_mem_nil
    rw [h.produced, hnothing] at hproduced
    exact lt_irrefl _ hproduced
  rw [spreadConsumedCost_pos hspreads] at hrows
  subst hrows
  obtain ⟨hconsumedSum, hproducedSum⟩ := h.settled_sums
  have hrates : ∀ sle ∈ st.costed.map st.settled, 0 < sle.qtyChange →
      sle.valuationRate = consumedWorth (st.costed.map st.settled) /
        producedQuantity (st.costed.map st.settled) := by
    intro sle hsle hpos
    obtain ⟨e, he, rfl⟩ := List.mem_map.1 hsle
    rw [st.settled_qtyChange] at hpos
    have hleg := (h.legs e he).2 hpos
    rw [CostState.settled, if_pos hleg, hconsumedSum, hproducedSum]
    rfl
  refine ⟨hrates, ?_⟩
  rw [sum_worth hrates, mul_div_cancel₀ _ hproduced.ne', sub_self]

end CostState.Produces

/-! ### Units -/

theorem uomFactor_pos (item : Option Item) (lineUom : Option String) : 0 < uomFactor item lineUom := by
  unfold uomFactor
  split
  · split
    · exact one_pos
    · split_ifs
      · exact one_pos
      · split
        · rename_i row hrow
          have hfound := List.find?_some hrow
          simp only [Bool.and_eq_true, decide_eq_true_eq] at hfound
          exact hfound.2
        · exact one_pos
  · exact one_pos

/-- How many stock units a unit of a row's quantity counts for. -/
def stockFactor (items : Items) (sle : StockLedgerEntry) : ℚ :=
  if |uomFactor (items.lookup sle.item) sle.uom - 1| > eps then uomFactor (items.lookup sle.item) sle.uom
  else 1

section Units
variable (items : Items) (sle : StockLedgerEntry)

theorem stockFactor_pos : 0 < stockFactor items sle := by
  unfold stockFactor
  split_ifs
  · exact uomFactor_pos _ _
  · exact one_pos

theorem stockQty_eq : stockQty items sle = sle.qtyChange * stockFactor items sle := by
  unfold stockQty stockFactor
  dsimp only
  split_ifs
  · rfl
  · exact (mul_one _).symm

theorem stockQty_pos_iff : 0 < stockQty items sle ↔ 0 < sle.qtyChange := by
  rw [stockQty_eq, mul_pos_iff_of_pos_right (stockFactor_pos items sle)]

theorem stockQty_nonneg_iff : 0 ≤ stockQty items sle ↔ 0 ≤ sle.qtyChange := by
  rw [stockQty_eq, mul_nonneg_iff_of_pos_right (stockFactor_pos items sle)]

/-- Nothing is converted exactly where the factor is one, as the code compares it. -/
theorem stockFactor_eq_one_iff :
    stockFactor items sle = 1 ↔ |uomFactor (items.lookup sle.item) sle.uom - 1| ≤ eps := by
  unfold stockFactor
  split_ifs with hfar
  · refine ⟨fun hone => ?_, fun hnear => absurd hnear (not_le.2 hfar)⟩
    rw [hone, sub_self, abs_zero]
    norm_num [eps]
  · exact ⟨fun _ => not_lt.1 hfar, fun _ => rfl⟩

end Units

/-! ### Transfers -/

theorem costRow_costedValue (inputs : CostInputs) (st : CostState) (sle : StockLedgerEntry) :
    (costRow inputs st sle).costedValue = st.costedValue + stockQty inputs.items sle * st.rateOf inputs sle := by
  rw [CostState.costedValue, (costRow_spec inputs st sle).costed, List.map_append, List.sum_append,
    List.map_singleton, List.sum_singleton]
  rfl

/-- The two legs of a transfer line. -/
structure TransferLegs (out into : StockLedgerEntry) : Prop where
  item : into.item = out.item
  uom : into.uom = out.uom
  qty : out.qtyChange = -into.qtyChange
  transfer : into.transType = .transfer

/-- Rows that are transfer lines, each out of its source and into its target. -/
inductive Transfers : List StockLedgerEntry → Prop
  | nil : Transfers []
  | line {out into : StockLedgerEntry} {rest : List StockLedgerEntry} (h : TransferLegs out into)
      (hrest : Transfers rest) : Transfers (out :: into :: rest)

/-- The value the lines of a transfer make that go against their direction, or come back as a return: the
goods of such a line do not enter one warehouse at what they leave the other at. -/
def strayValue (inputs : CostInputs) : CostState → List StockLedgerEntry → ℚ
  | st, out :: into :: rest =>
    let qty := stockQty inputs.items into
    let left := costRow inputs st out
    (if inputs.isReturn ∨ qty < 0 then qty * (left.rateOf inputs into - st.rateOf inputs out) else 0) +
      strayValue inputs (costRow inputs left into) rest
  | _, _ => 0

/-- No line goes against its direction. -/
def Forward (items : Items) : List StockLedgerEntry → Prop
  | _ :: into :: rest => 0 ≤ stockQty items into ∧ Forward items rest
  | _ => True

theorem TransferLegs.stockQty {items : Items} {out into : StockLedgerEntry} (h : TransferLegs out into) :
    stockQty items out = -stockQty items into := by
  unfold AtlasTeam.stockQty
  rw [h.item, h.uom, h.qty]
  dsimp only
  split_ifs
  · exact neg_mul _ _
  · rfl

/-- The legs of a line that names both warehouses, or nothing where its item is not kept in stock. -/
theorem transferLine_legs {ctx : RowContext} {items : Items} {line : Map} {i : Nat}
    (h : ∀ item, asNonEmpty (line.get "item") = some item →
      isStockItemType ((items.lookup item).map Item.itemType) = true →
        (asNonEmpty (line.get "source_warehouse")).isSome ∧
          (asNonEmpty (line.get "target_warehouse")).isSome) :
    stockMovements items (stockEntryLegs ctx .transfer line i) = [] ∨
      ∃ out into, stockMovements items (stockEntryLegs ctx .transfer line i) = [out, into] ∧
        TransferLegs out into ∧ into.qtyChange = asNum (line.get "qty") := by
  unfold stockEntryLegs
  cases hitem : asNonEmpty (line.get "item") with
  | none => exact .inl rfl
  | some item =>
    by_cases hstock : isStockItemType ((items.lookup item).map Item.itemType) = true
    · obtain ⟨hsource, htarget⟩ := h item hitem hstock
      obtain ⟨source, hsource⟩ := Option.isSome_iff_exists.1 hsource
      obtain ⟨target, htarget⟩ := Option.isSome_iff_exists.1 htarget
      rw [hsource, htarget]
      refine .inr ⟨_, _, List.filter_eq_self.2 ?_, ⟨rfl, rfl, rfl, rfl⟩, rfl⟩
      intro sle hsle
      rcases List.mem_cons.1 hsle with rfl | hsle
      · exact hstock
      · obtain rfl := List.mem_singleton.1 hsle
        exact hstock
    · -- the rows of a service are dropped
      refine .inl (List.filter_eq_nil_iff.2 fun sle hsle hkept => ?_)
      rcases List.mem_append.1 hsle with hsle | hsle
      · obtain ⟨source, -, rfl⟩ := List.mem_map.1 hsle
        exact hstock hkept
      · obtain ⟨target, -, rfl⟩ := List.mem_map.1 hsle
        exact hstock hkept

/-- Lines that name both warehouses are transfer lines. -/
theorem transfers_of_lines {ctx : RowContext} {items : Items} {lines : List (Map × Nat)}
    (h : ∀ entry ∈ lines, ∀ item, asNonEmpty (entry.1.get "item") = some item →
      isStockItemType ((items.lookup item).map Item.itemType) = true →
        (asNonEmpty (entry.1.get "source_warehouse")).isSome ∧
          (asNonEmpty (entry.1.get "target_warehouse")).isSome) :
    Transfers (stockMovements items
      (lines.flatMap fun entry => stockEntryLegs ctx .transfer entry.1 entry.2)) ∧
    ((∀ entry ∈ lines, 0 ≤ asNum (entry.1.get "qty")) → Forward items (stockMovements items
      (lines.flatMap fun entry => stockEntryLegs ctx .transfer entry.1 entry.2))) := by
  induction lines with
  | nil => exact ⟨.nil, fun _ => trivial⟩
  | cons entry lines ih =>
    obtain ⟨hentry, hlines⟩ := List.forall_mem_cons.1 h
    obtain ⟨htransfers, hforward⟩ := ih hlines
    rw [List.flatMap_cons, stockMovements, List.filter_append, ← stockMovements, ← stockMovements]
    rcases @transferLine_legs ctx _ _ entry.2 hentry with hnone | ⟨out, into, hlegs, hline, hqty⟩
    · rw [hnone]
      exact ⟨htransfers, fun hquantities => hforward (List.forall_mem_cons.1 hquantities).2⟩
    · rw [hlegs]
      refine ⟨.line hline htransfers, fun hquantities => ?_⟩
      obtain ⟨hfirst, hothers⟩ := List.forall_mem_cons.1 hquantities
      exact ⟨(stockQty_nonneg_iff items into).2 (hqty ▸ hfirst), hforward hothers⟩

section Transfer
variable {inputs : CostInputs} {st : CostState} {out into : StockLedgerEntry}

/-- Goods that leave their source enter their target at the cost they left at. -/
theorem TransferLegs.sameRate (h : TransferLegs out into) (hreturn : inputs.isReturn = false)
    (hqty : 0 < AtlasTeam.stockQty inputs.items into) :
    (costRow inputs st out).rateOf inputs into = st.rateOf inputs out := by
  have hout : AtlasTeam.stockQty inputs.items out < 0 := by
    rw [h.stockQty]
    exact neg_neg_of_pos hqty
  have hplain : isOutputLeg inputs into = false := by simp [isOutputLeg, h.transfer]
  have hcost := (costRow_spec inputs st out).outCost
  rw [if_pos hout] at hcost
  have hlookup : (costRow inputs st out).outCostByItem.lookup into.item = some (st.rateOf inputs out) := by
    rw [hcost, h.item]
    exact SortedMap.Raw.lookup_put_self _ _ _
  rw [CostState.rateOf]
  simp [hqty.not_gt, hqty, hplain, receiptRate, hreturn, h.transfer, hlookup]

/-- What one line does to the value. -/
theorem TransferLegs.worth (h : TransferLegs out into) :
    (costRow inputs (costRow inputs st out) into).costedValue = st.costedValue +
      if inputs.isReturn ∨ AtlasTeam.stockQty inputs.items into < 0 then
        AtlasTeam.stockQty inputs.items into *
          ((costRow inputs st out).rateOf inputs into - st.rateOf inputs out)
      else 0 := by
  rw [costRow_costedValue, costRow_costedValue, h.stockQty]
  split_ifs with hstray
  · ring
  · simp only [not_or, Bool.not_eq_true, not_lt] at hstray
    rcases hstray.2.eq_or_lt with hzero | hpos
    · rw [← hzero]
      ring
    · rw [h.sameRate hstray.1 hpos]
      ring

/-- What all lines do. -/
theorem Transfers.worth {sles : List StockLedgerEntry} (h : Transfers sles) :
    (sles.foldl (costRow inputs) st).costedValue = st.costedValue + strayValue inputs st sles := by
  induction h generalizing st with
  | nil => exact (add_zero _).symm
  | line hline hrest ih =>
    rw [List.foldl_cons, List.foldl_cons, ih, hline.worth, strayValue, add_assoc]

/-- Lines that go from source to target and are no return make no value. -/
theorem Transfers.strayValue_eq_zero {sles : List StockLedgerEntry} (h : Transfers sles)
    (hreturn : inputs.isReturn = false) (hforward : Forward inputs.items sles) :
    strayValue inputs st sles = 0 := by
  induction h generalizing st with
  | nil => rfl
  | line hline hrest ih =>
    obtain ⟨hqty, hrestForward⟩ := hforward
    rw [strayValue, ih hrestForward, hreturn]
    simp [hqty]

end Transfer

/-! ### Rows that keep the supplied rate -/

/-- Each costed row is one of the voucher's, costed on the rows before it. -/
theorem costRows_split {inputs : CostInputs} {sles : List StockLedgerEntry}
    {earlier later : List (StockLedgerEntry × Bool)} {e : StockLedgerEntry × Bool}
    (h : (costRows inputs sles).costed = earlier ++ e :: later) :
    ∃ before raw after, sles = before ++ raw :: after ∧ (costRows inputs before).costed = earlier ∧
      e = (raw.valued (stockQty inputs.items raw) ((costRows inputs before).rateOf inputs raw),
        isOutputLeg inputs raw) := by
  induction sles using List.reverseRecOn generalizing later with
  | nil => simp [costRows] at h
  | append_singleton sles last ih =>
    have hlast := (costRow_spec inputs (costRows inputs sles) last).costed
    rw [costRows, List.foldl_append, List.foldl_cons, List.foldl_nil, ← costRows, hlast] at h
    rcases List.eq_nil_or_concat later with rfl | ⟨later', e', rfl⟩
    · obtain ⟨hearlier, he⟩ := List.append_inj' h rfl
      exact ⟨sles, last, [], rfl, hearlier, (List.cons.inj he).1.symm⟩
    · rw [List.concat_eq_append, ← List.cons_append, ← List.append_assoc] at h
      obtain ⟨before, raw, after, rfl, hearlier, he⟩ := ih (List.append_inj' h rfl).1
      exact ⟨before, raw, after ++ [last], by rw [List.append_assoc, List.cons_append], hearlier, he⟩

/-- An item has an outgoing cost only once a row took it out. -/
theorem outCost_issued {inputs : CostInputs} {sles : List StockLedgerEntry} {item : String}
    (h : (costRows inputs sles).outCostByItem.lookup item ≠ none) :
    ∃ e ∈ (costRows inputs sles).costed, e.1.item = item ∧ e.1.qtyChange < 0 := by
  induction sles using List.reverseRecOn with
  | nil => exact absurd rfl h
  | append_singleton sles last ih =>
    have hspec := costRow_spec inputs (costRows inputs sles) last
    rw [costRows, List.foldl_append, List.foldl_cons, List.foldl_nil, ← costRows] at h ⊢
    rw [hspec.costed]
    have hearlier : (costRows inputs sles).outCostByItem.lookup item ≠ none →
        ∃ e ∈ (costRows inputs sles).costed ++ [(last.valued (stockQty inputs.items last)
          ((costRows inputs sles).rateOf inputs last), isOutputLeg inputs last)],
          e.1.item = item ∧ e.1.qtyChange < 0 := by
      intro hcost
      obtain ⟨e, he, hissued⟩ := ih hcost
      exact ⟨e, List.mem_append_left _ he, hissued⟩
    rw [hspec.outCost] at h
    split_ifs at h with hout
    · by_cases hitem : item = last.item
      · exact ⟨_, List.mem_append_right _ (List.mem_singleton_self _), hitem.symm, hout⟩
      · rw [SortedMap.Raw.lookup_put_ne hitem] at h
        exact hearlier h
    · exact hearlier h

/-! ### Lines and the rows they bring in -/

/-- The id of the row a line brings goods in by. -/
def incomingRowId (doctype documentId : String) (i : Nat) : String :=
  if doctype = "Stock Entry" then s!"SLE-{documentId}-{i}-in" else s!"SLE-{documentId}-{i}"

/-- The rate a line supplies. -/
def suppliedRate (doctype : String) (line : Map) : ℚ :=
  if doctype = "Stock Entry" then asNum (line.get "valuation_rate")
  else
    match line.get "valuation_rate" with
    | some .null | none => asNum (line.get "rate")
    | some v => asNum (some v)

/-- The row is what a line brings in, before it is costed. -/
structure BringsIn (ctx : RowContext) (payload : Map) (line : Map) (raw : StockLedgerEntry) : Prop where
  item : asNonEmpty (line.get "item") = some raw.item
  uom : raw.uom = asNonEmpty (line.get "uom")
  qty : raw.qtyChange = asNum (line.get "qty")
  rate : raw.valuationRate = suppliedRate ctx.doctype line
  transType : raw.transType =
    if ctx.doctype = "Stock Entry" then
      stockEntryTransType (asNonEmpty (payload.get "stock_entry_type"))
    else .receipt

/-- Numbered entries of distinct numbers are told by them. -/
theorem objectRows_inj {rows : List Value} {line line' : Map} {i : Nat} (h : (line, i) ∈ objectRows rows)
    (h' : (line', i) ∈ objectRows rows) : line = line' := by
  have hsame := List.inj_on_of_nodup_map (objectRows_positions rows) h h' rfl
  exact (Prod.mk.inj hsame).1

section Lines
variable {ctx : RowContext} {payload line : Map} {i : Nat} {raw : StockLedgerEntry}

/-- The row of a receipt that has a line's id is the line's. -/
theorem stockDocumentRows_line {incoming : Bool} {transType : StockTransType}
    (hline : (line, i) ∈ objectRows (itemsOf payload))
    (hraw : raw ∈ stockDocumentRows ctx payload incoming transType)
    (hid : raw.id = s!"SLE-{ctx.documentId}-{i}") :
    asNonEmpty (line.get "item") = some raw.item ∧ raw.uom = asNonEmpty (line.get "uom") ∧
      raw.qtyChange = (if incoming then asNum (line.get "qty") else -asNum (line.get "qty")) ∧
      (ctx.doctype ≠ "Stock Entry" → raw.valuationRate = suppliedRate ctx.doctype line) ∧
      raw.transType = transType := by
  obtain ⟨⟨line', j⟩, hline', hrow⟩ := List.mem_filterMap.1 hraw
  simp only [Option.bind_eq_bind, Option.bind_eq_some_iff, Option.pure_def, Option.some.injEq] at hrow
  obtain ⟨item, hitem, warehouse, -, rfl⟩ := hrow
  have hids : ctx.sleStart ++ toString j = ctx.sleStart ++ toString i := hid
  obtain rfl := Distinct.numbered_inj hids
  obtain rfl := objectRows_inj hline hline'
  refine ⟨hitem, rfl, rfl, fun hdoctype => ?_, rfl⟩
  rw [suppliedRate, if_neg hdoctype]
  rfl

/-- The row of a Stock Entry that has the id of what a line brings in is the line's. -/
theorem stockEntryRows_line (hline : (line, i) ∈ objectRows (itemsOf payload))
    (hraw : raw ∈ stockEntryRows ctx payload) (hid : raw.id = s!"SLE-{ctx.documentId}-{i}-in") :
    asNonEmpty (line.get "item") = some raw.item ∧ raw.uom = asNonEmpty (line.get "uom") ∧
      raw.qtyChange = asNum (line.get "qty") ∧ raw.valuationRate = asNum (line.get "valuation_rate") ∧
      raw.transType = stockEntryTransType (asNonEmpty (payload.get "stock_entry_type")) := by
  obtain ⟨⟨line', j⟩, hline', hleg⟩ := List.mem_flatMap.1 hraw
  simp only [stockEntryLegs] at hleg
  split at hleg
  · exact absurd hleg List.not_mem_nil
  · rename_i item hitem
    simp only [List.mem_append, List.mem_map] at hleg
    rcases hleg with ⟨source, -, rfl⟩ | ⟨target, -, rfl⟩
    · have hids : ctx.sleStart ++ toString j ++ "-out" = ctx.sleStart ++ toString i ++ "-in" := hid
      exact absurd hids (Distinct.ne_of_getLast (by simp [String.toList_append]))
    · have hids : ctx.sleStart ++ toString j ++ "-in" = ctx.sleStart ++ toString i ++ "-in" := hid
      obtain rfl := Distinct.numbered_inj ((String.append_left_inj "-in").1 hids)
      obtain rfl := objectRows_inj hline hline'
      exact ⟨hitem, rfl, rfl, rfl, rfl⟩

/-- A row that brings a line's quantity in is the line's row. -/
theorem deriveStockRows_incoming (hline : (line, i) ∈ objectRows (itemsOf payload))
    (hqty : 0 < asNum (line.get "qty")) (hraw : raw ∈ deriveStockRows ctx payload)
    (hid : raw.id = incomingRowId ctx.doctype ctx.documentId i) (hin : 0 < raw.qtyChange) :
    BringsIn ctx payload line raw := by
  have hreceipt : ctx.doctype ≠ "Stock Entry" → raw ∈ stockDocumentRows ctx payload true .receipt →
      BringsIn ctx payload line raw := by
    intro hdoctype hrow
    rw [incomingRowId, if_neg hdoctype] at hid
    obtain ⟨hitem, huom, hchange, hrate, htrans⟩ := stockDocumentRows_line hline hrow hid
    exact ⟨hitem, huom, hchange, hrate hdoctype, by rw [htrans, if_neg hdoctype]⟩
  -- an issue takes its line's quantity out
  have hissue : ctx.doctype ≠ "Stock Entry" → raw ∉ stockDocumentRows ctx payload false .issue := by
    intro hdoctype hrow
    rw [incomingRowId, if_neg hdoctype] at hid
    obtain ⟨-, -, hchange, -, -⟩ := stockDocumentRows_line hline hrow hid
    rw [hchange] at hin
    exact absurd hin (neg_neg_of_pos hqty).not_gt
  unfold deriveStockRows at hraw
  split at hraw
  · rename_i hdoctype
    split_ifs at hraw
    · exact absurd hraw (hissue (by rw [hdoctype]; decide))
    · exact absurd hraw List.not_mem_nil
  · rename_i hdoctype
    split_ifs at hraw
    · exact hreceipt (by rw [hdoctype]; decide) hraw
    · exact absurd hraw List.not_mem_nil
  · rename_i hdoctype
    exact hreceipt (by rw [hdoctype]; decide) hraw
  · rename_i hdoctype
    exact absurd hraw (hissue (by rw [hdoctype]; decide))
  · rename_i hdoctype
    exact absurd hraw (hissue (by rw [hdoctype]; decide))
  · rename_i hdoctype
    rw [incomingRowId, if_pos hdoctype] at hid
    obtain ⟨hitem, huom, hchange, hrate, htrans⟩ := stockEntryRows_line hline hraw hid
    exact ⟨hitem, huom, hchange, by rw [hrate, suppliedRate, if_pos hdoctype],
      by rw [htrans, if_pos hdoctype]⟩
  · exact absurd hraw List.not_mem_nil

end Lines

section Supplied
variable {inputs : CostInputs} {before : List StockLedgerEntry} {raw : StockLedgerEntry}

/-- What an incoming row that takes no cost from the ledger enters at. -/
theorem rateOf_supplied (hreturn : inputs.isReturn = false) (hqty : 0 < raw.qtyChange)
    (htransfer : raw.transType = .transfer → ∀ e ∈ (costRows inputs before).costed,
      e.1.item = raw.item → 0 ≤ e.1.qtyChange) :
    (costRows inputs before).rateOf inputs raw =
      if raw.transType = .transfer ∨ raw.transType = .production then raw.valuationRate
      else raw.valuationRate / stockFactor inputs.items raw := by
  have hpos := (stockQty_pos_iff inputs.items raw).2 hqty
  rw [CostState.rateOf]
  by_cases hproduction : raw.transType = .production
  · have hleg : isOutputLeg inputs raw = true := by simp [isOutputLeg, hpos, hreturn, hproduction]
    simp [hpos.not_gt, hleg, hproduction]
  have hplain : isOutputLeg inputs raw = false := by simp [isOutputLeg, hproduction]
  by_cases hmoved : raw.transType = .transfer
  · have hnone : (costRows inputs before).outCostByItem.lookup raw.item = none := by
      by_contra hcost
      obtain ⟨e, he, hitem, hissued⟩ := outCost_issued hcost
      exact absurd (htransfer hmoved e he hitem) hissued.not_ge
    simp [hpos.not_gt, hpos, hplain, receiptRate, hreturn, hmoved, hnone]
  · have hkept : stockFactor inputs.items raw =
        if |uomFactor (inputs.items.lookup raw.item) raw.uom - 1| > eps then
          uomFactor (inputs.items.lookup raw.item) raw.uom
        else 1 := rfl
    simp only [hpos.not_gt, hpos, hplain, receiptRate, hreturn, hmoved, hproduction, hkept, if_false,
      and_self, if_true, or_self, Bool.false_eq_true]
    split_ifs
    · rfl
    · exact (div_one _).symm

/-- A row that keeps the supplied rate keeps the supplied value exactly where the rate is converted with the
quantity, or there is nothing to convert. -/
theorem supplied_worth_iff {rate : ℚ} (hqty : 0 < raw.qtyChange)
    (hrate : rate = if raw.transType = .transfer ∨ raw.transType = .production then raw.valuationRate
      else raw.valuationRate / stockFactor inputs.items raw) :
    stockQty inputs.items raw * rate = raw.qtyChange * raw.valuationRate ↔
      raw.transType ≠ .transfer ∧ raw.transType ≠ .production ∨
      |uomFactor (inputs.items.lookup raw.item) raw.uom - 1| ≤ eps ∨ raw.valuationRate = 0 := by
  have hfactor := stockFactor_pos inputs.items raw
  rw [hrate, stockQty_eq, ← stockFactor_eq_one_iff]
  split_ifs with hkept
  · have hnot : ¬ (raw.transType ≠ .transfer ∧ raw.transType ≠ .production) := by
      rintro ⟨htransfer, hproduction⟩
      exact hkept.elim htransfer hproduction
    simp only [hnot, false_or]
    constructor
    · intro hworth
      by_cases hzero : raw.valuationRate = 0
      · exact .inr hzero
      · left
        have hscaled := mul_right_cancel₀ hzero hworth
        exact mul_left_cancel₀ hqty.ne' (hscaled.trans (mul_one _).symm)
    · rintro (hone | hzero)
      · rw [hone, mul_one]
      · rw [hzero, mul_zero, mul_zero]
  · rw [mul_assoc, mul_div_cancel₀ _ hfactor.ne']
    rw [not_or] at hkept
    exact ⟨fun _ => .inl hkept, fun _ => rfl⟩

end Supplied

/-! ### Rows as they are posted -/

section Posted
variable (st : CostState) (e : StockLedgerEntry × Bool)

/-- A costed row as it is posted. -/
def CostState.posted : StockLedgerEntry := if st.Spreads then st.settled e else e.1

theorem CostState.posted_qtyChange : (st.posted e).qtyChange = e.1.qtyChange := by
  unfold posted
  split_ifs
  · exact st.settled_qtyChange e
  · rfl

theorem CostState.posted_unvalued : (st.posted e).unvalued = e.1.unvalued := by
  unfold posted
  split_ifs
  · exact st.settled_unvalued e
  · rfl

/-- A row that is no leg, or of a voucher that spreads nothing, is posted as it is costed. -/
theorem CostState.posted_plain {st : CostState} {e : StockLedgerEntry × Bool}
    (h : e.2 = false ∨ ¬ st.Spreads) : st.posted e = e.1 := by
  unfold posted settled
  rcases h with hplain | hnone
  · rw [hplain]
    simp
  · exact if_neg hnone

theorem spreadConsumedCost_posted : (spreadConsumedCost st).1 = st.costed.map st.posted := by
  by_cases hspreads : st.Spreads
  · rw [spreadConsumedCost_pos hspreads]
    exact List.map_congr_left fun e _ => (if_pos hspreads).symm
  · rw [spreadConsumedCost_neg hspreads]
    exact List.map_congr_left fun e _ => (if_neg hspreads).symm

end Posted

/-- A voucher of production rows spreads its consumed cost only where its rows consume something. -/
theorem CostState.Produces.consumed_pos {st : CostState} (h : st.Produces) (hspreads : st.Spreads) :
    0 < consumedWorth (spreadConsumedCost st).1 := by
  rw [spreadConsumedCost_pos hspreads, h.settled_sums.1]
  exact hspreads.2.2

/-- What is known of a posted row: the movement it comes from, costed on the rows before it. -/
structure PostedFrom (inputs : CostInputs) (sles earlier : List StockLedgerEntry)
    (row : StockLedgerEntry) (before : List StockLedgerEntry) (raw : StockLedgerEntry) : Prop where
  mem : raw ∈ sles
  unvalued : row.unvalued = raw.unvalued
  qty : row.qtyChange = stockQty inputs.items raw
  earlier : ∀ e ∈ (costRows inputs before).costed, ∃ sle ∈ earlier,
    sle.unvalued = e.1.unvalued ∧ sle.qtyChange = e.1.qtyChange
  rate : raw.transType ≠ .production ∨ ¬ (costRows inputs sles).Spreads →
    row.valuationRate = (costRows inputs before).rateOf inputs raw

/-- Each posted row comes from a movement. -/
theorem posted_split {inputs : CostInputs} {sles earlier later : List StockLedgerEntry}
    {row : StockLedgerEntry}
    (h : (spreadConsumedCost (costRows inputs sles)).1 = earlier ++ row :: later) :
    ∃ before raw, PostedFrom inputs sles earlier row before raw := by
  rw [spreadConsumedCost_posted] at h
  obtain ⟨costed, rest, hsplit, hearlier, hrest⟩ := List.map_eq_append_iff.1 h
  obtain ⟨e, after, rfl, hrow, -⟩ := List.map_eq_cons_iff.1 hrest
  obtain ⟨before, raw, others, hsles, hcosted, he⟩ := costRows_split hsplit
  refine ⟨before, raw, ?_, ?_, ?_, fun f hf => ?_, fun hplain => ?_⟩
  · rw [hsles]
    simp
  · rw [← hrow, CostState.posted_unvalued, he]
    rfl
  · rw [← hrow, CostState.posted_qtyChange, he]
    rfl
  · refine ⟨_, hearlier ▸ List.mem_map_of_mem (hcosted ▸ hf), ?_, ?_⟩
    · exact CostState.posted_unvalued _ f
    · exact CostState.posted_qtyChange _ f
  · rw [← hrow, CostState.posted_plain (hplain.imp_left fun hproduction => ?_), he]
    · rfl
    · rw [he]
      simp [isOutputLeg, hproduction]

/-- What the row of a movement that takes no cost from the ledger is posted at. -/
theorem PostedFrom.supplied {inputs : CostInputs} {sles earlier before : List StockLedgerEntry}
    {row raw : StockLedgerEntry} (h : PostedFrom inputs sles earlier row before raw)
    (hreturn : inputs.isReturn = false) (hqty : 0 < raw.qtyChange)
    (htransfer : row.transType = .transfer →
      ∀ sle ∈ earlier, sle.item = row.item → 0 ≤ sle.qtyChange)
    (hproduction : raw.transType ≠ .production ∨ ¬ (costRows inputs sles).Spreads) :
    row.valuationRate = if raw.transType = .transfer ∨ raw.transType = .production then raw.valuationRate
      else raw.valuationRate / stockFactor inputs.items raw := by
  have hunvalued := h.unvalued
  have htype : row.unvalued.transType = raw.unvalued.transType := by rw [hunvalued]
  have hitem : row.unvalued.item = raw.unvalued.item := by rw [hunvalued]
  rw [h.rate hproduction]
  refine rateOf_supplied hreturn hqty fun hmoved e he hsame => ?_
  obtain ⟨sle, hsle, hunvaluedSle, hqtySle⟩ := h.earlier e he
  have hitemSle : sle.unvalued.item = e.1.unvalued.item := by rw [hunvaluedSle]
  rw [← hqtySle]
  exact htransfer (htype.trans hmoved) sle hsle (hitemSle.trans (hsame.trans hitem.symm))

/-- Every movement is costed in its place. -/
theorem costRows_forall₂ (inputs : CostInputs) (sles : List StockLedgerEntry) :
    List.Forall₂ (fun raw e => ∃ before, e = (raw.valued (stockQty inputs.items raw)
      ((costRows inputs before).rateOf inputs raw), isOutputLeg inputs raw))
      sles (costRows inputs sles).costed := by
  induction sles using List.reverseRecOn with
  | nil => exact .nil
  | append_singleton sles last ih =>
    have hlast := (costRow_spec inputs (costRows inputs sles) last).costed
    rw [costRows, List.foldl_append, List.foldl_cons, List.foldl_nil, ← costRows, hlast]
    exact List.rel_append ih (.cons ⟨sles, rfl⟩ .nil)

/-- The movements of a voucher that is no production are posted as they are costed. -/
theorem posted_forall₂ {inputs : CostInputs} {sles : List StockLedgerEntry}
    (hplain : ∀ sle ∈ sles, sle.transType ≠ .production) :
    List.Forall₂ (fun raw sle => ∃ before, sle = raw.valued (stockQty inputs.items raw)
      ((costRows inputs before).rateOf inputs raw)) sles (spreadConsumedCost (costRows inputs sles)).1 := by
  rw [spreadConsumedCost_neg fun hspreads => hspreads.1 (costRows_legs_eq_nil hplain),
    List.forall₂_map_right_iff]
  refine (costRows_forall₂ inputs sles).imp ?_
  rintro raw e ⟨before, rfl⟩
  exact ⟨before, rfl⟩

end AtlasTeam
