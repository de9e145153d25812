import AtlasTeam.Posting.Refusals
import AtlasTeam.Posting.Rounding
import AtlasTeam.Store.StockValues

/-!
# Goods coming in and the negative-stock guard

The guard judges what every touched pair holds after the command, not what the command does to it. So a
command that only brings goods in is refused too, where a pair it touches was below zero and stays there
(`intake_refused_iff`).
-/

namespace AtlasTeam

/-- What a store holds of a pair. -/
def heldQty (view : StoreView) (companyId : Uuid) (pair : Pair) : ℚ :=
  ((view.stored companyId pair).map StockLedgerEntry.qtyChange).sum

/-- What rows do to a pair. -/
def movedQty (rows : List StockLedgerEntry) (pair : Pair) : ℚ :=
  ((onPair pair rows).map StockLedgerEntry.qtyChange).sum

/-- After the rows some pair they touch is below zero by half a thousandth or more. -/
def LeavesShort (view : StoreView) (companyId : Uuid) (rows : List StockLedgerEntry) : Prop :=
  ∃ sle ∈ rows, heldQty view companyId sle.pair + movedQty rows sle.pair ≤ -(1 / 2000)

/-- The guard refuses what leaves a pair short. -/
theorem checkNegativeStock_rows {view : StoreView} {companyId : Uuid} {rows : List StockLedgerEntry}
    {ledgers : Ledgers} (h : ledgers.Reflects view companyId (List.map LedgerRow.qtyChange) rows)
    (settings : CompanySettings) : ShortOfStock (checkNegativeStock settings ledgers) ↔
      settings.allowNegativeStock = false ∧ LeavesShort view companyId rows := by
  rw [checkNegativeStock_short_iff]
  refine and_congr_right fun _ => ?_
  -- a loaded pair's balance is what is stored and what is moved
  have hbalance : ∀ pair loaded, ledgers.rows.lookup pair = some loaded →
      pair ∈ rows.map StockLedgerEntry.pair ∧
        (computeBalance loaded).actualQty = round3 (heldQty view companyId pair + movedQty rows pair) := by
    intro pair loaded hloaded
    have hquantities := h.rows pair
    rw [hloaded, Option.map_some] at hquantities
    split_ifs at hquantities with hpair
    refine ⟨hpair, ?_⟩
    have hsum := congrArg List.sum (Option.some.inj hquantities)
    rw [simulated, List.map_append, List.map_append, List.sum_append, List.map_map, List.map_map] at hsum
    exact congrArg round3 hsum
  constructor
  · rintro ⟨pair, loaded, hloaded, hneg⟩
    obtain ⟨hpair, hqty⟩ := hbalance pair loaded hloaded
    obtain ⟨sle, hsle, rfl⟩ := List.mem_map.1 hpair
    rw [hqty, round3_neg_iff] at hneg
    exact ⟨sle, hsle, hneg⟩
  · rintro ⟨sle, hsle, hshort⟩
    have hquantities := h.rows sle.pair
    rw [if_pos (List.mem_map_of_mem hsle)] at hquantities
    obtain ⟨loaded, hloaded, -⟩ := Option.map_eq_some_iff.1 hquantities
    refine ⟨sle.pair, loaded, hloaded, ?_⟩
    rw [(hbalance _ _ hloaded).2, round3_neg_iff]
    exact hshort

/-! ### What the guard judges -/

/-- The command passes all checks before the negative-stock guard, which judges these rows. -/
inductive Command.Guarded (codec : Codec) (view : StoreView) (env : Env) (companyId : Uuid)
    (documentId : String) : Command → List StockLedgerEntry → Prop
  | submit {cmd : SubmitCommand} {prepared : Prepared} {rows : DerivedRows}
      (honline : cmd.offlineFiscal = false)
      (hprepared : preparePayload view env companyId cmd documentId = .ok prepared)
      (hrows : rows = deriveRows codec view (view.companySettings companyId)
        (submitContext companyId cmd documentId prepared.postingDate) prepared.payload)
      (hbalanced : checkBalanced rows.gl = .ok ())
      (hgroups : checkGroupAccounts view companyId rows.gl = .ok ()) :
      Guarded codec view env companyId documentId (.submit cmd) rows.sles
  | cancel {cmd : CancelCommand} {document : PostedDocument} {postingDate : String}
      {guard : Option DepositGuard}
      (hdocument : view.postedDocument companyId cmd.doctype cmd.documentId = some document)
      (hstatus : document.docstatus = 1) (hunsettled : checkUnsettled view companyId cmd = .ok ())
      (hdate : cancelDate env document = .ok postingDate)
      (hlock : checkPeriodLock (view.companySettings companyId) postingDate = .ok ())
      (hdeposit : releaseDeposit view companyId cmd document = .ok guard) :
      Guarded codec view env companyId documentId (.cancel cmd)
        (reversalRows view companyId cmd.documentId).sles

section Builds
variable {codec : Codec} {view : StoreView} {env : Env} {companyId : Uuid} {actor : Actor}
  {documentId : String}

theorem buildSubmit_short_iff {cmd : SubmitCommand} :
    ShortOfStock (buildSubmit codec view env companyId cmd documentId actor) ↔
      (view.companySettings companyId).allowNegativeStock = false ∧
        ∃ rows, Command.Guarded codec view env companyId documentId (.submit cmd) rows ∧
          LeavesShort view companyId rows := by
  unfold buildSubmit
  dsimp only
  rw [ShortOfStock, Except.refused_bind_left (preparePayload_spares _ _ _).not_short]
  have hguard : ∀ (prepared : Prepared) (shortfallRows : DerivedRows),
      shortfallRows = deriveRows codec view (view.companySettings companyId)
        (submitContext companyId cmd documentId prepared.postingDate) prepared.payload →
      (ShortOfStock (stockCheck (view.companySettings companyId) cmd.offlineFiscal shortfallRows.ledgers) ↔
        cmd.offlineFiscal = false ∧ (view.companySettings companyId).allowNegativeStock = false ∧
          LeavesShort view companyId shortfallRows.sles) := by
    rintro prepared rows rfl
    rw [stockCheck_short_iff]
    exact and_congr_right fun _ => checkNegativeStock_rows (costStockMovements_quantities _ _ _ _ _) _
  constructor
  · rintro ⟨prepared, hprepared, hrest⟩
    rw [Except.refused_bind_left (checkBalanced_spares _).not_short] at hrest
    obtain ⟨⟨⟩, hbalanced, hrest⟩ := hrest
    rw [Except.refused_bind_left (checkGroupAccounts_spares _).not_short] at hrest
    obtain ⟨⟨⟩, hgroups, hrest⟩ := hrest
    rw [Except.refused_bind_right] at hrest
    · obtain ⟨honline, hallowed, hshort⟩ := (hguard prepared _ rfl).1 hrest
      exact ⟨hallowed, _, .submit honline hprepared rfl hbalanced hgroups, hshort⟩
    · intro shortfalls _
      exact SparesStock.not_short ((paymentRows_spares _).bind fun _ _ => .ok _)
  · rintro ⟨hallowed, rows, hguarded, hshort⟩
    cases hguarded with
    | @submit _ prepared rows honline hprepared hrows hbalanced hgroups =>
      subst hrows
      refine ⟨prepared, hprepared, ?_⟩
      refine (Except.refused_bind_left (checkBalanced_spares _).not_short).2 ⟨(), hbalanced, ?_⟩
      refine (Except.refused_bind_left (checkGroupAccounts_spares _).not_short).2 ⟨(), hgroups, ?_⟩
      have hrefused := (hguard prepared _ rfl).2 ⟨honline, hallowed, hshort⟩
      refine (Except.refused_bind_right fun shortfalls _ => ?_).2 hrefused
      exact SparesStock.not_short ((paymentRows_spares _).bind fun _ _ => .ok _)

theorem buildCancel_short_iff {cmd : CancelCommand} :
    ShortOfStock (buildCancel view env companyId cmd actor) ↔
      (view.companySettings companyId).allowNegativeStock = false ∧
        ∃ rows, Command.Guarded codec view env companyId documentId (.cancel cmd) rows ∧
          LeavesShort view companyId rows := by
  have hguard := checkNegativeStock_rows ((replayRows_simulates view companyId
    (reversalRows view companyId cmd.documentId).sles).reflects (List.map LedgerRow.qtyChange))
      (view.companySettings companyId)
  unfold buildCancel
  dsimp only
  constructor
  · intro hrefused
    cases hdocument : view.postedDocument companyId cmd.doctype cmd.documentId with
    | none =>
      rw [hdocument] at hrefused
      obtain ⟨e, he, hshort⟩ := hrefused
      cases he
      cases hshort
    | some document =>
      rw [hdocument] at hrefused
      by_cases hstatus : document.docstatus = 1
      · dsimp only at hrefused
        rw [if_neg (not_not.2 hstatus), ShortOfStock,
          Except.refused_bind_left (checkUnsettled_spares _).not_short] at hrefused
        obtain ⟨⟨⟩, hunsettled, hrefused⟩ := hrefused
        rw [Except.refused_bind_left (cancelDate_spares _ _).not_short] at hrefused
        obtain ⟨postingDate, hdate, hrefused⟩ := hrefused
        rw [Except.refused_bind_left (checkPeriodLock_spares _).not_short] at hrefused
        obtain ⟨⟨⟩, hlock, hrefused⟩ := hrefused
        rw [Except.refused_bind_left (releaseDeposit_spares _ _).not_short] at hrefused
        obtain ⟨guard, hdeposit, hrefused⟩ := hrefused
        rw [Except.refused_bind_right] at hrefused
        · obtain ⟨hallowed, hshort⟩ := hguard.1 hrefused
          exact ⟨hallowed, _, .cancel hdocument hstatus hunsettled hdate hlock hdeposit, hshort⟩
        · intro _ _
          exact SparesStock.not_short ((restoredOutstanding_spares _ _).bind fun _ _ => .ok _)
      · dsimp only at hrefused
        rw [if_pos hstatus] at hrefused
        obtain ⟨e, he, hshort⟩ := hrefused
        cases he
        cases hshort
  · rintro ⟨hallowed, rows, hguarded, hshort⟩
    cases hguarded with
    | cancel hdocument hstatus hunsettled hdate hlock hdeposit =>
      rw [hdocument]
      dsimp only
      rw [if_neg (not_not.2 hstatus)]
      refine (Except.refused_bind_left (checkUnsettled_spares _).not_short).2 ⟨(), hunsettled, ?_⟩
      refine (Except.refused_bind_left (cancelDate_spares _ _).not_short).2 ⟨_, hdate, ?_⟩
      refine (Except.refused_bind_left (checkPeriodLock_spares _).not_short).2 ⟨(), hlock, ?_⟩
      refine (Except.refused_bind_left (releaseDeposit_spares _ _).not_short).2 ⟨_, hdeposit, ?_⟩
      refine (Except.refused_bind_right fun _ _ => ?_).2 (hguard.2 ⟨hallowed, hshort⟩)
      exact SparesStock.not_short ((restoredOutstanding_spares _ _).bind fun _ _ => .ok _)

/-- Rows that take nothing out leave short only a pair that was short before. -/
theorem LeavesShort.before {rows : List StockLedgerEntry} (h : LeavesShort view companyId rows)
    (hin : ∀ sle ∈ rows, 0 ≤ sle.qtyChange) : ∃ sle ∈ rows, heldQty view companyId sle.pair ≤ -(1 / 2000) := by
  obtain ⟨sle, hsle, hshort⟩ := h
  refine ⟨sle, hsle, (le_add_of_nonneg_right (List.sum_nonneg fun qty hqty => ?_)).trans hshort⟩
  obtain ⟨moved, hmoved, rfl⟩ := List.mem_map.1 hqty
  exact hin moved (List.mem_of_mem_filter hmoved)

/-- On any store, a submit or cancel is never refused for lack of stock if and only if negative stock is
allowed or no pair is below zero after the rows the guard judges. A command none of whose rows takes stock
out is thus not refused where no pair it touches was below zero before. -/
theorem intake_refused_iff {command : Command} (hvoucher : command.IsVoucher)
    (hin : ∀ rows, command.Guarded codec view env companyId documentId rows →
      ∀ sle ∈ rows, 0 ≤ sle.qtyChange) :
    (¬ ShortOfStock (command.build codec view env companyId actor documentId) ↔
      (view.companySettings companyId).allowNegativeStock = true ∨
        ∀ rows, command.Guarded codec view env companyId documentId rows →
          ¬ LeavesShort view companyId rows) ∧
    ((∀ rows, command.Guarded codec view env companyId documentId rows →
        ∀ sle ∈ rows, -(1 / 2000) < heldQty view companyId sle.pair) →
      ¬ ShortOfStock (command.build codec view env companyId actor documentId)) := by
  have hshort : ShortOfStock (command.build codec view env companyId actor documentId) ↔
      (view.companySettings companyId).allowNegativeStock = false ∧
        ∃ rows, command.Guarded codec view env companyId documentId rows ∧
          LeavesShort view companyId rows := by
    cases command with
    | submit cmd => exact buildSubmit_short_iff
    | cancel cmd => exact buildCancel_short_iff
    | takeOn cmd => exact hvoucher.elim
  rw [hshort]
  constructor
  · rw [not_and_or, Bool.not_eq_false]
    simp only [not_exists, not_and]
  · rintro hcovered ⟨-, rows, hguarded, hleaves⟩
    obtain ⟨sle, hsle, hbelow⟩ := hleaves.before (hin rows hguarded)
    exact absurd (hcovered rows hguarded sle hsle) hbelow.not_gt

end Builds

/-- While negative stock is allowed five TEA are delivered that Main does not have. -/
def owedTea : List (Event MemOp) :=
  Event.operate (MemOp.putSettings 1 { allowNegativeStock := true }) stockDay ::
    Event.whole 1 stockClerk (teaVoucher "Delivery Note" "DN-1" 5 0) 0 stockDay ++
    [Event.operate (MemOp.putSettings 1 {}) stockDay]

/-- TEA that a receipt brings into Main. -/
def teaReceipt (qty : Int) : SubmitCommand :=
  stockEntry "Material Receipt"
    [.obj [("item", .string "TEA"), ("qty", .int qty), ("valuation_rate", .int 5),
      ("target_warehouse", .string "Main")]]

/-- What the guard judges of such a receipt after the delivery. -/
theorem guarded_teaReceipt {qty : Int} {moved : ℚ} {rows : List StockLedgerEntry}
    (hrows : (preparePayload (memRun serdeCodec owedTea).book.store.view stockDay 1 (teaReceipt qty)
      "STE-1").toOption.map (fun prepared => (deriveRows serdeCodec (memRun serdeCodec owedTea).book.store.view
        ((memRun serdeCodec owedTea).book.store.view.companySettings 1)
        (submitContext 1 (teaReceipt qty) "STE-1" prepared.postingDate) prepared.payload).sles.map
          fun sle => (sle.pair, sle.qtyChange)) = some [(toLex ("TEA", "Main"), moved)])
    (h : (Command.submit (teaReceipt qty)).Guarded serdeCodec (memRun serdeCodec owedTea).book.store.view
      stockDay 1 "STE-1" rows) :
    ∃ row, rows = [row] ∧ row.pair = toLex ("TEA", "Main") ∧ row.qtyChange = moved := by
  cases h with
  | submit honline hprepared hderived hbalanced hgroups =>
    subst hderived
    rw [hprepared] at hrows
    obtain ⟨row, hsingle, hfields⟩ := List.map_eq_singleton_iff.1 (Option.some.inj hrows)
    obtain ⟨hpair, hqty⟩ := Prod.mk.inj hfields
    exact ⟨row, hsingle, hpair, hqty⟩

/-- A receipt of six brings the pair above zero. -/
theorem intake_refused_iff_six :
    ¬ ShortOfStock ((Command.submit (teaReceipt 6)).build serdeCodec
      (memRun serdeCodec owedTea).book.store.view stockDay 1 stockClerk "STE-1") := by
  have hheld : heldQty (memRun serdeCodec owedTea).book.store.view 1 (toLex ("TEA", "Main")) = -5 := by
    decide +kernel
  have hguarded : ∀ rows, (Command.submit (teaReceipt 6)).Guarded serdeCodec
      (memRun serdeCodec owedTea).book.store.view stockDay 1 "STE-1" rows →
        ∃ row, rows = [row] ∧ row.pair = toLex ("TEA", "Main") ∧ row.qtyChange = 6 :=
    fun rows => guarded_teaReceipt (by decide +kernel)
  have hvoucher : (Command.submit (teaReceipt 6)).IsVoucher := trivial
  refine (intake_refused_iff hvoucher ?_).1.2 (.inr ?_)
  · intro rows hrows sle hsle
    obtain ⟨row, rfl, -, hqty⟩ := hguarded rows hrows
    obtain rfl := List.mem_singleton.1 hsle
    rw [hqty]
    norm_num
  · rintro rows hrows ⟨sle, hsle, hshort⟩
    obtain ⟨row, rfl, hpair, hqty⟩ := hguarded rows hrows
    obtain rfl := List.mem_singleton.1 hsle
    have hmoved : movedQty [sle] sle.pair = 6 := by simp [movedQty, onPair, hqty]
    rw [hmoved, hpair, hheld] at hshort
    norm_num at hshort

/-- A receipt of two is refused: Main would still go to -3. -/
theorem receipt_refused_for_stock :
    (preparePayload (memRun serdeCodec owedTea).book.store.view stockDay 1 (teaReceipt 2)
      "STE-1").toOption.map (fun prepared => (deriveRows serdeCodec (memRun serdeCodec owedTea).book.store.view
        ((memRun serdeCodec owedTea).book.store.view.companySettings 1)
        (submitContext 1 (teaReceipt 2) "STE-1" prepared.postingDate) prepared.payload).sles.map
          fun sle => (sle.pair, sle.qtyChange)) = some [(toLex ("TEA", "Main"), 2)] ∧
    ShortOfStock ((Command.submit (teaReceipt 2)).build serdeCodec
      (memRun serdeCodec owedTea).book.store.view stockDay 1 stockClerk "STE-1") := by
  refine ⟨by decide +kernel, ?_⟩
  have hrefused : ((Command.submit (teaReceipt 2)).build serdeCodec
      (memRun serdeCodec owedTea).book.store.view stockDay 1 stockClerk "STE-1").errorOf =
        some (.validation "insufficient stock: TEA in Main would go to -3") := by
    decide +kernel
  exact Except.refused_of_errorOf hrefused (by decide)

end AtlasTeam
