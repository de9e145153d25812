import AtlasTeam.Posting.Simulation

/-!
# Output legs of a Production entry

Once the cost a Production entry consumed is known, its output legs are re-rated, and so are their
rows in the cache: the search for a leg's row goes backwards and takes the first row that is close to
the leg in quantity and rate. `LegsApart` says when this row passes for the leg and no other one is
taken for it; then the cache has the balances the ledger will have (`costStockMovements_balances`). The
argument follows the rows of a pair up to their order: a patch turns a pending leg into a settled one,
and a balance does not depend on the order.
-/

namespace AtlasTeam

/-- A balance does not depend on the order of the rows. -/
theorem computeBalance_perm {rows rows' : List LedgerRow} (h : rows.Perm rows') :
    computeBalance rows = computeBalance rows' := by
  have hqty : (rows.map LedgerRow.qtyChange).sum = (rows'.map LedgerRow.qtyChange).sum :=
    (h.map _).sum_eq
  have hvalue : (rows.map fun row => row.qtyChange * row.valuationRate).sum =
      (rows'.map fun row => row.qtyChange * row.valuationRate).sum := (h.map _).sum_eq
  simp only [computeBalance, hqty, hvalue]

/-! ### One patch -/

/-- A row at another rate. -/
def LedgerRow.rated (rate : ℚ) (row : LedgerRow) : LedgerRow := { row with valuationRate := rate }

@[simp] theorem LedgerRow.close_self (row : LedgerRow) : row.close row = true := by
  have heps : 0 < eps := by unfold eps; norm_num
  simp [close, heps]

/-- Rows behind the first match are left alone. -/
theorem patchFirst_append {target : LedgerRow} (rate : ℚ) {rows : List LedgerRow}
    (h : ∃ row ∈ rows, row.close target = true) (rest : List LedgerRow) :
    patchFirst target rate (rows ++ rest) = patchFirst target rate rows ++ rest := by
  induction rows with
  | nil => simp at h
  | cons row rows ih =>
    by_cases hclose : row.close target = true
    · simp [patchFirst, hclose]
    · have htail : ∃ row ∈ rows, row.close target = true := by
        obtain ⟨row', hmem, hrow'⟩ := h
        rcases List.mem_cons.1 hmem with rfl | hmem
        · exact absurd hrow' hclose
        · exact ⟨row', hmem, hrow'⟩
      simp [patchFirst, hclose, ih htail]

/-- A patch re-rates one row that passes for the target. -/
theorem patchFirst_perm {target : LedgerRow} (rate : ℚ) {rows : List LedgerRow}
    (h : ∃ row ∈ rows, row.close target = true) :
    ∃ row ∈ rows, row.close target = true ∧
      (row :: patchFirst target rate rows).Perm (row.rated rate :: rows) := by
  induction rows with
  | nil => simp at h
  | cons row rows ih =>
    by_cases hclose : row.close target = true
    · refine ⟨row, List.mem_cons_self, hclose, ?_⟩
      simp only [patchFirst, hclose, if_true]
      exact List.Perm.swap _ _ _
    · have htail : ∃ row ∈ rows, row.close target = true := by
        obtain ⟨row', hmem, hrow'⟩ := h
        rcases List.mem_cons.1 hmem with rfl | hmem
        · exact absurd hrow' hclose
        · exact ⟨row', hmem, hrow'⟩
      obtain ⟨hit, hmem, hhit, hperm⟩ := ih htail
      refine ⟨hit, List.mem_cons_of_mem _ hmem, hhit, ?_⟩
      simp only [patchFirst, hclose]
      have hrest := hperm.cons row
      exact (List.Perm.swap _ _ _).trans (hrest.trans (List.Perm.swap _ _ _))

theorem patchLast_append {target : LedgerRow} (rate : ℚ) (prior : List LedgerRow)
    {rows : List LedgerRow} (h : ∃ row ∈ rows, row.close target = true) :
    patchLast target rate (prior ++ rows) = prior ++ patchLast target rate rows := by
  have hreverse : ∃ row ∈ rows.reverse, row.close target = true := by simpa using h
  rw [patchLast, List.reverse_append, patchFirst_append rate hreverse, List.reverse_append,
    List.reverse_reverse, patchLast]

theorem patchLast_perm {target : LedgerRow} (rate : ℚ) {rows : List LedgerRow}
    (h : ∃ row ∈ rows, row.close target = true) :
    ∃ row ∈ rows, row.close target = true ∧
      (row :: patchLast target rate rows).Perm (row.rated rate :: rows) := by
  have hreverse : ∃ row ∈ rows.reverse, row.close target = true := by simpa using h
  obtain ⟨row, hmem, hclose, hperm⟩ := patchFirst_perm rate hreverse
  refine ⟨row, List.mem_reverse.1 hmem, hclose, ?_⟩
  have hback := ((List.reverse_perm (patchFirst target rate rows.reverse)).cons row).trans hperm
  exact hback.trans ((List.reverse_perm rows).cons _)

/-! ### All patches -/

/-- No row of the voucher but an equal leg passes for a leg, and where an earlier leg of the pair has a
leg's quantity, the unit cost does not pass for the rate the leg came with unless it is that rate. -/
structure CostState.LegsApart (st : CostState) : Prop where
  rows : ∀ leg ∈ st.legs, ∀ e ∈ st.costed, e.1.pair = leg.pair → e.1.row.close leg.row = true →
    e.2 = true ∧ e.1.row = leg.row
  settled : st.legs.Pairwise fun earlier leg => earlier.pair = leg.pair →
    (earlier.row.rated st.unitCost).close leg.row = true → leg.valuationRate = st.unitCost

instance (st : CostState) : Decidable st.LegsApart :=
  decidable_of_iff
    ((∀ leg ∈ st.legs, ∀ e ∈ st.costed, e.1.pair = leg.pair → e.1.row.close leg.row = true →
        e.2 = true ∧ e.1.row = leg.row) ∧
      st.legs.Pairwise fun earlier leg => earlier.pair = leg.pair →
        (earlier.row.rated st.unitCost).close leg.row = true → leg.valuationRate = st.unitCost)
    ⟨fun h => ⟨h.1, h.2⟩, fun h => ⟨h.rows, h.settled⟩⟩

/-- The rows of a voucher on a pair that are no output legs. -/
def CostState.plainOn (st : CostState) (pair : Pair) : List LedgerRow :=
  (onPair pair ((st.costed.filter fun e => !e.2).map Prod.fst)).map StockLedgerEntry.row

/-- The rows of the voucher in the cache of a pair when the legs `done` have been patched and the
legs `todo` have not, in any order. -/
def CostState.midway (st : CostState) (pair : Pair) (done todo : List StockLedgerEntry) :
    List LedgerRow :=
  st.plainOn pair ++ (onPair pair done).map (fun leg => leg.row.rated st.unitCost) ++
    (onPair pair todo).map StockLedgerEntry.row

theorem mem_onPair {pair : Pair} {rows : List StockLedgerEntry} {sle : StockLedgerEntry} :
    sle ∈ onPair pair rows ↔ sle ∈ rows ∧ sle.pair = pair := by
  simp [onPair, List.mem_filter]

theorem CostState.mem_legs {st : CostState} {leg : StockLedgerEntry} :
    leg ∈ st.legs ↔ (leg, true) ∈ st.costed := by
  simp [legs, List.mem_filter]

/-- What the search for a leg hits is the leg's row, or a row that re-rating leaves as it is, like the
leg's own. -/
theorem CostState.LegsApart.hit {st : CostState} (h : st.LegsApart)
    {done todo : List StockLedgerEntry} {leg : StockLedgerEntry} (hlegs : st.legs = done ++ leg :: todo)
    {row : LedgerRow} (hmem : row ∈ st.midway leg.pair done (leg :: todo))
    (hclose : row.close leg.row = true) :
    row = leg.row ∨ row.rated st.unitCost = row ∧ leg.row.rated st.unitCost = leg.row := by
  have hleg : leg ∈ st.legs := by
    rw [hlegs]
    exact List.mem_append_right _ List.mem_cons_self
  rcases List.mem_append.1 hmem with hmem | hmem
  · rcases List.mem_append.1 hmem with hplain | hdone
    · obtain ⟨sle, hsle, rfl⟩ := List.mem_map.1 hplain
      obtain ⟨hsle, hpair⟩ := mem_onPair.1 hsle
      obtain ⟨e, he, rfl⟩ := List.mem_map.1 hsle
      obtain ⟨he, hnotLeg⟩ := List.mem_filter.1 he
      have hisLeg := (h.rows leg hleg e he hpair hclose).1
      simp [hisLeg] at hnotLeg
    · obtain ⟨earlier, hearlier, rfl⟩ := List.mem_map.1 hdone
      obtain ⟨hearlier, hpair⟩ := mem_onPair.1 hearlier
      have hpairwise := h.settled
      rw [hlegs] at hpairwise
      have hrate := (List.pairwise_append.1 hpairwise).2.2 earlier hearlier leg List.mem_cons_self hpair
        hclose
      exact .inr ⟨rfl, congrArg (LedgerRow.mk leg.qtyChange) hrate.symm⟩
  · obtain ⟨later, hlater, rfl⟩ := List.mem_map.1 hmem
    obtain ⟨hlater, hpair⟩ := mem_onPair.1 hlater
    have hlaterLeg : later ∈ st.legs := by
      rw [hlegs]
      exact List.mem_append_right _ hlater
    exact .inl (h.rows leg hleg (later, true) (CostState.mem_legs.1 hlaterLeg) hpair hclose).2

/-- A patch in the middle of the legs settles its leg. -/
theorem CostState.LegsApart.patch {st : CostState} (h : st.LegsApart)
    {done todo : List StockLedgerEntry} {leg : StockLedgerEntry} (hlegs : st.legs = done ++ leg :: todo)
    {own : List LedgerRow} (hown : own.Perm (st.midway leg.pair done (leg :: todo))) :
    (∃ row ∈ own, row.close leg.row = true) ∧
    (patchLast leg.row st.unitCost own).Perm (st.midway leg.pair (done ++ [leg]) todo) := by
  -- the rows of the pair without the leg
  obtain ⟨others, hbefore, hafter⟩ : ∃ others,
      (st.midway leg.pair done (leg :: todo)).Perm (leg.row :: others) ∧
      (st.midway leg.pair (done ++ [leg]) todo).Perm (leg.row.rated st.unitCost :: others) := by
    refine ⟨st.midway leg.pair done todo, ?_, ?_⟩
    · rw [midway, onPair_cons, if_pos rfl, List.map_cons, midway]
      exact List.perm_middle
    · rw [midway, onPair_append, onPair_cons, if_pos rfl, List.map_append, ← List.append_assoc,
        List.append_assoc _ _ (List.map _ (onPair leg.pair todo)), midway]
      exact List.perm_middle
  have hpending : ∃ row ∈ own, row.close leg.row = true :=
    ⟨leg.row, (hown.trans hbefore).mem_iff.2 List.mem_cons_self, leg.row.close_self⟩
  refine ⟨hpending, ?_⟩
  obtain ⟨hit, hmem, hclose, hperm⟩ := patchLast_perm st.unitCost hpending
  have hperm' := hperm.trans ((hown.trans hbefore).cons _)
  refine List.Perm.trans ?_ hafter.symm
  rcases h.hit hlegs (hown.mem_iff.1 hmem) hclose with rfl | ⟨hhit, hleg⟩
  · exact (hperm'.trans (List.Perm.swap _ _ _)).cons_inv
  · rw [hhit] at hperm'
    rw [hleg]
    exact hperm'.cons_inv

/-- The cache in the middle of the patches: behind the stored rows stand those of the voucher. -/
def CostState.Midway (st : CostState) (prior : Pair → List LedgerRow)
    (done todo : List StockLedgerEntry) (ledgers : Ledgers) : Prop :=
  ∀ pair rows, ledgers.rows.lookup pair = some rows →
    ∃ own, rows = prior pair ++ own ∧ own.Perm (st.midway pair done todo)

theorem CostState.LegsApart.patchLeg {st : CostState} (h : st.LegsApart)
    {prior : Pair → List LedgerRow} {done todo : List StockLedgerEntry} {leg : StockLedgerEntry}
    (hlegs : st.legs = done ++ leg :: todo) {ledgers : Ledgers}
    (hmidway : st.Midway prior done (leg :: todo) ledgers) :
    st.Midway prior (done ++ [leg]) todo (patchLeg st.unitCost ledgers leg) := by
  intro pair rows hrows
  by_cases hpair : pair = leg.pair
  · subst hpair
    unfold AtlasTeam.patchLeg at hrows
    cases hlookup : ledgers.rows.lookup leg.pair with
    | none =>
      simp only [hlookup] at hrows
      cases hrows
    | some before =>
      simp only [hlookup, SortedMap.lookup_put_self, Option.some.injEq] at hrows
      subst hrows
      obtain ⟨own, rfl, hown⟩ := hmidway leg.pair before hlookup
      obtain ⟨hpending, hpatched⟩ := h.patch hlegs hown
      exact ⟨_, patchLast_append st.unitCost (prior leg.pair) hpending, hpatched⟩
  · have hsame : (AtlasTeam.patchLeg st.unitCost ledgers leg).rows.lookup pair =
        ledgers.rows.lookup pair := by
      unfold AtlasTeam.patchLeg
      split
      · exact SortedMap.lookup_put_ne _ hpair _
      · rfl
    have hne : ¬ leg.pair = pair := fun heq => hpair heq.symm
    obtain ⟨own, hown, hperm⟩ := hmidway pair rows (hsame.symm.trans hrows)
    refine ⟨own, hown, ?_⟩
    simpa [midway, onPair_cons, hne, onPair] using hperm

/-- All patches of a voucher whose legs are apart. -/
theorem CostState.LegsApart.patches {st : CostState} (h : st.LegsApart)
    {prior : Pair → List LedgerRow} {done todo : List StockLedgerEntry}
    (hlegs : st.legs = done ++ todo) {ledgers : Ledgers} (hmidway : st.Midway prior done todo ledgers) :
    st.Midway prior st.legs [] (todo.foldl (AtlasTeam.patchLeg st.unitCost) ledgers) := by
  induction todo generalizing done ledgers with
  | nil =>
    rw [List.append_nil] at hlegs
    rwa [hlegs]
  | cons leg todo ih =>
    have hnext : st.legs = (done ++ [leg]) ++ todo := by
      rw [hlegs, List.append_assoc]
      rfl
    exact ih hnext (h.patchLeg hlegs hmidway)

/-- The costed rows are the plain ones and the legs. -/
theorem CostState.costed_perm (st : CostState) :
    (st.costed.filter (fun e => !e.2) ++ st.costed.filter (fun e => e.2)).Perm st.costed := by
  simpa using List.filter_append_perm (fun e : StockLedgerEntry × Bool => !e.2) st.costed

/-- Before the first patch. -/
theorem CostState.midway_fresh (st : CostState) (pair : Pair) :
    ((onPair pair (st.costed.map Prod.fst)).map StockLedgerEntry.row).Perm
      (st.midway pair [] st.legs) := by
  have hrows := ((st.costed_perm.map Prod.fst).filter fun sle => sle.pair = pair).map
    StockLedgerEntry.row
  rw [List.map_append, List.filter_append, List.map_append] at hrows
  simpa [midway, plainOn, onPair, legs] using hrows.symm

/-- After the last patch. -/
theorem CostState.midway_settled (st : CostState) (pair : Pair) :
    (st.midway pair st.legs []).Perm
      ((onPair pair (st.costed.map st.settled)).map StockLedgerEntry.row) := by
  have hrows := ((st.costed_perm.map st.settled).filter fun sle => sle.pair = pair).map
    StockLedgerEntry.row
  rw [List.map_append, List.filter_append, List.map_append] at hrows
  have hplain : (st.costed.filter fun e => !e.2).map st.settled =
      (st.costed.filter fun e => !e.2).map Prod.fst := by
    refine List.map_congr_left fun e he => ?_
    have hnotLeg : e.2 = false := by simpa using (List.mem_filter.1 he).2
    simp [settled, hnotLeg]
  have hlegs : (st.costed.filter fun e => e.2).map st.settled =
      st.legs.map fun leg => leg.valued leg.qtyChange st.unitCost := by
    rw [legs, List.map_map]
    refine List.map_congr_left fun e he => ?_
    have hisLeg : e.2 = true := (List.mem_filter.1 he).2
    simp [settled, hisLeg]
  have hlegRows : ((st.legs.map fun leg => leg.valued leg.qtyChange st.unitCost).filter
        fun sle => sle.pair = pair).map StockLedgerEntry.row =
      (onPair pair st.legs).map fun leg => leg.row.rated st.unitCost := by
    rw [List.filter_map, List.map_map]
    rfl
  rw [hplain, hlegs, hlegRows] at hrows
  simpa [midway, plainOn, onPair] using hrows

section Voucher
variable (view : StoreView) (companyId : Uuid) (sles : List StockLedgerEntry) (items : Items)
  (payload : Map)

/-- A voucher whose output legs are apart: the cache has the balances the ledger will have. -/
theorem costStockMovements_balances
    (h : (costRows (costInputs view companyId items payload) sles).Spreads →
      (costRows (costInputs view companyId items payload) sles).LegsApart) :
    (costStockMovements view companyId sles items payload).2.Reflects view companyId computeBalance
      (costStockMovements view companyId sles items payload).1 := by
  have hcosting := foldl_costRow_costing (costing_fresh (costInputs view companyId items payload)) sles
  have hquantities := costStockMovements_quantities view companyId sles items payload
  refine ⟨fun pair => ?_, hquantities.priorCounts⟩
  unfold costStockMovements at hquantities ⊢
  by_cases hspreads : (costRows (costInputs view companyId items payload) sles).Spreads
  · have hquantity := hquantities.rows pair
    rw [spreadConsumedCost_pos hspreads] at hquantity ⊢
    split_ifs at hquantity ⊢ with htouched
    · obtain ⟨rows, hrows, -⟩ := Option.map_eq_some_iff.1 hquantity
      have hfresh : CostState.Midway (costRows (costInputs view companyId items payload) sles)
          (fun pair => (view.stored companyId pair).map StockLedgerEntry.row) []
          (costRows (costInputs view companyId items payload) sles).legs
          (costRows (costInputs view companyId items payload) sles).ledgers := by
        intro pair rows hrows
        have hsimulated := (hcosting.simulates.rows pair).symm.trans hrows
        split_ifs at hsimulated
        obtain rfl := Option.some.inj hsimulated
        exact ⟨_, List.map_append, CostState.midway_fresh _ pair⟩
      obtain ⟨own, rfl, hown⟩ := (h hspreads).patches rfl hfresh pair rows hrows
      rw [hrows, Option.map_some, simulated, List.map_append]
      exact congrArg some (computeBalance_perm
        ((hown.trans (CostState.midway_settled _ pair)).append_left _))
    · rw [Option.map_eq_none_iff] at hquantity ⊢
      exact hquantity
  · rw [spreadConsumedCost_neg hspreads]
    exact (hcosting.simulates.reflects computeBalance).rows pair

end Voucher

end AtlasTeam
