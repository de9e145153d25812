import AtlasTeam.Store.Bins
import AtlasTeam.Store.Effects

/-!
# The stock check after a restore (`scripts/verify_restore.sql`)

`bins_match_stock_ledger` compares every bin with the exact sum of its rows, to 0.0001. A bin is that
sum rounded to three places (`BinsAgree Bin.actualQty`, which unlike the stock value needs nothing of
the legs), so the check passes as long as the sums stay that close to a multiple of 0.001. Since rows
are stored unrounded and in stock units, what a voucher adds to a pair is what its lines say times
their conversion factors (`movements`).
-/

namespace AtlasTeam

/-! ### Quantities near three places -/

/-- `q` is within 0.0001 of a multiple of 0.001. -/
def NearThousandth (q : ℚ) : Prop := ∃ n : ℤ, |q - n / 1000| ≤ 1 / 10000

theorem nearThousandth_zero : NearThousandth 0 := ⟨0, by norm_num⟩

/-- Rounding to three places moves just these by no more than 0.0001. -/
theorem abs_round3_sub_le_iff (q : ℚ) : |round3 q - q| ≤ 1 / 10000 ↔ NearThousandth q := by
  have hscale : ∀ x : ℚ, |q - x / 1000| = |q * 1000 - x| / 1000 := by
    intro x
    have heq : q - x / 1000 = (q * 1000 - x) / 1000 := by ring
    rw [heq, abs_div, abs_of_pos (by norm_num : (0 : ℚ) < 1000)]
  rw [abs_sub_comm, round3, hscale]
  constructor
  · intro h
    obtain ⟨n, hn⟩ := roundHalfAway_int (q * 1000)
    refine ⟨n, ?_⟩
    rwa [hscale, ← hn]
  · rintro ⟨n, hn⟩
    rw [hscale] at hn
    have hnearest := roundHalfAway_nearest (q * 1000) n
    linarith

instance (q : ℚ) : Decidable (NearThousandth q) :=
  decidable_of_iff _ (abs_round3_sub_le_iff q)

/-! ### What a voucher moves -/

/-- The exact quantity of a pair. -/
def Inner.storedQty (inner : Inner) (company : Uuid) (pair : Pair) : ℚ :=
  ((inner.view.stored company pair).map StockLedgerEntry.qtyChange).sum

/-- What a command moves, pair by pair: a submit the quantities of its lines, in stock units; a cancel
those of the voucher's rows, taken back. -/
def Draft.movements (codec : Codec) (draft : Draft Inner) : List (Pair × ℚ) :=
  match draft.command with
  | .submit _ =>
    match draft.voucher codec with
    | some voucher => voucher.sles.map fun sle => (sle.pair, stockQty voucher.items sle)
    | none => []
  | .cancel cmd =>
    ((draft.snapshot.view.slesForVoucher draft.companyId cmd.documentId).filter
      fun sle => !sle.isReversal).map fun sle => (sle.pair, -sle.qtyChange)
  | .takeOn _ => []

/-- The quantity moved on a pair. -/
def movedOn (pair : Pair) (movements : List (Pair × ℚ)) : ℚ :=
  ((movements.filter fun m => m.1 = pair).map Prod.snd).sum

/-- A row's pair and quantity. -/
def StockLedgerEntry.moved (sle : StockLedgerEntry) : Pair × ℚ := (sle.pair, sle.qtyChange)

theorem sum_qtys_onPair (pair : Pair) (rows : List StockLedgerEntry) :
    ((onPair pair rows).map StockLedgerEntry.qtyChange).sum =
      movedOn pair (rows.map StockLedgerEntry.moved) := by
  rw [movedOn, List.filter_map, List.map_map]
  rfl

theorem costRow_moved (inputs : CostInputs) (st : CostState) (sle : StockLedgerEntry) :
    (costRow inputs st sle).costed.map (fun e => e.1.moved) =
      st.costed.map (fun e => e.1.moved) ++ [(sle.pair, stockQty inputs.items sle)] := by
  by_cases hneg : stockQty inputs.items sle < 0
  · simp only [costRow, hneg, if_true, List.map_append]
    rfl
  · by_cases hleg : isOutputLeg inputs sle = true
    · simp only [costRow, hneg, hleg, if_true, if_false, List.map_append]
      rfl
    · simp only [costRow, hneg, hleg, Bool.false_eq_true, if_false, List.map_append]
      rfl

theorem foldl_costRow_moved (inputs : CostInputs) (st : CostState) (sles : List StockLedgerEntry) :
    (sles.foldl (costRow inputs) st).costed.map (fun e => e.1.moved) =
      st.costed.map (fun e => e.1.moved) ++
        sles.map fun sle => (sle.pair, stockQty inputs.items sle) := by
  induction sles generalizing st with
  | nil => simp
  | cons sle sles ih =>
    rw [List.foldl_cons, ih, costRow_moved, List.append_assoc]
    rfl

/-- The rows of a voucher are posted in stock units. -/
theorem costStockMovements_moved (view : StoreView) (companyId : Uuid)
    (sles : List StockLedgerEntry) (items : Items) (payload : Map) :
    (costStockMovements view companyId sles items payload).1.map StockLedgerEntry.moved =
      sles.map fun sle => (sle.pair, stockQty items sle) := by
  have hmoved := foldl_costRow_moved (costInputs view companyId items payload) {} sles
  rw [List.map_nil, List.nil_append] at hmoved
  refine Eq.trans ?_ hmoved
  unfold costStockMovements
  by_cases hspreads : (costRows (costInputs view companyId items payload) sles).Spreads
  · rw [spreadConsumedCost_pos hspreads, List.map_map]
    refine List.map_congr_left fun e _ => ?_
    exact Prod.ext (CostState.settled_pair _ e) (CostState.settled_qtyChange _ e)
  · rw [spreadConsumedCost_neg hspreads, List.map_map]
    rfl

/-- The rows a voucher posts move what its command says. -/
theorem built_movements {codec : Codec} {book₀ : Book Inner} {draft : Draft Inner}
    (hbuilt : Draft.Built codec (memBackend codec) vouchers book₀ draft) :
    draft.commit.stockLedgerEntries.map StockLedgerEntry.moved = draft.movements codec := by
  obtain ⟨ledgers, hledgers⟩ := built_ledgers hbuilt hbuilt.allowed
  have hbuild := hbuilt.build
  cases hcommand : draft.command with
  | submit cmd =>
    rcases hledgers.rows with ⟨-, voucher, -, hvoucher, hposted, -, -⟩ | ⟨⟨cmd', hcancel⟩, -⟩
    · simp only [Draft.movements, hcommand, hvoucher]
      rw [hposted, costStockMovements_moved]
    · rw [hcommand] at hcancel
      cases hcancel
  | cancel cmd =>
    rw [hcommand] at hbuild
    obtain ⟨doc, postingDate, guard, updates, -, -, -, -, -, hcommit⟩ := buildCancel_ok hbuild
    simp only [Draft.movements, hcommand]
    rw [hcommit]
    exact List.map_map
  | takeOn cmd => exact absurd hbuilt.allowed (by rw [hcommand]; exact id)

theorem storedQty_eq_sum_rows (inner : Inner) (company : Uuid) (pair : Pair) :
    inner.storedQty company pair =
      (((inner.view.stored company pair).map StockLedgerEntry.row).map LedgerRow.qtyChange).sum := by
  rw [List.map_map]
  rfl

/-- A pair after a voucher: what stood there and what the voucher moved. -/
theorem storedQty_applied {codec : Codec} {book₀ : Book Inner} {draft : Draft Inner}
    {inner inner' : Inner} (hbuilt : Draft.Built codec (memBackend codec) vouchers book₀ draft)
    (happlied : Inner.Applied draft.commit inner inner') (pair : Pair) :
    inner'.storedQty draft.commit.companyId pair =
      inner.storedQty draft.commit.companyId pair + movedOn pair (draft.movements codec) := by
  rw [storedQty_eq_sum_rows, stored_applied happlied, simulated, List.map_map, List.map_append,
    List.sum_append, ← built_movements hbuilt, ← sum_qtys_onPair]
  rfl

theorem storedQty_applied_ne {commit : PostingCommit} {inner inner' : Inner}
    (happlied : Inner.Applied commit inner inner') {company : Uuid}
    (hne : company ≠ commit.companyId) (pair : Pair) :
    inner'.storedQty company pair = inner.storedQty company pair := by
  rw [Inner.storedQty, stored_applied_ne happlied hne, Inner.storedQty]

/-! ### The check -/

/-- `bins_match_stock_ledger`: no bin is off by more than 0.0001. -/
def BinsPass (inner : Inner) : Prop :=
  ∀ company pair bin, AList.lookup (company, (ofLex pair).1, (ofLex pair).2) inner.bins = some bin →
    |bin.actualQty - inner.storedQty company pair| ≤ 1 / 10000

theorem binsPass_fresh : BinsPass {} := by
  intro company pair bin hbin
  cases hbin

/-- With bins that are the rounded sums, the check is about the sums. -/
theorem BinsAgree.pass_iff {inner : Inner} (h : BinsAgree Bin.actualQty inner) :
    BinsPass inner ↔ ∀ company pair, NearThousandth (inner.storedQty company pair) := by
  have hbin : ∀ company pair bin,
      AList.lookup (company, (ofLex pair).1, (ofLex pair).2) inner.bins = some bin →
      bin.actualQty = round3 (inner.storedQty company pair) := by
    intro company pair bin hlookup
    have hsame := h company pair
    rw [hlookup, ledgerBin] at hsame
    split_ifs at hsame
    · cases hsame
    · rw [Option.some.inj hsame, storedQty_eq_sum_rows]
      rfl
  constructor
  · intro hpass company pair
    by_cases hnil : inner.view.stored company pair = []
    · rw [Inner.storedQty, hnil]
      exact nearThousandth_zero
    · have hsame := h company pair
      rw [ledgerBin, if_neg hnil] at hsame
      obtain ⟨bin, hlookup, -⟩ := Option.map_eq_some_iff.1 hsame
      rw [← abs_round3_sub_le_iff, ← hbin company pair bin hlookup]
      exact hpass company pair bin hlookup
  · intro hnear company pair bin hlookup
    rw [hbin company pair bin hlookup]
    exact (abs_round3_sub_le_iff _).2 (hnear company pair)

/-- Every pair the entry moves comes near three places. -/
def Entry.StaysNear (codec : Codec) (entry : Entry Inner) : Prop :=
  ∀ move ∈ entry.movements codec,
    NearThousandth (entry.before.storedQty entry.companyId move.1 +
      movedOn move.1 (entry.movements codec))

instance (codec : Codec) (entry : Entry Inner) : Decidable (entry.StaysNear codec) :=
  inferInstanceAs (Decidable (∀ move ∈ entry.movements codec, _))

theorem binsAgree_rule {codec : Codec} :
    Snapshot.Rule (protocol codec (memBackend codec) vouchers)
      (fun book => Kept book ∧ BinsAgree Bin.actualQty book.store)
      fun book book' => Extends book.store book'.store := by
  refine extends_rule_and ?_ ?_
  · intro book₀ book draft inner' _ _ hgrow _ h hbuilt hpassed happlied
    obtain ⟨ledgers, hledgers⟩ := built_ledgers hbuilt hbuilt.allowed
    rw [← hbuilt.snapshot] at hgrow
    exact h.applied (fun _ _ _ _ hsame => computeBalance_actualQty_congr hsame) hledgers
      hledgers.quantities hgrow hpassed happlied
  · intro book op env h _
    exact h.operate (operate_frame codec env op book.store)

theorem binsAgree_fresh : BinsAgree Bin.actualQty {} := fun _ _ => rfl

/-- A voucher keeps the check passing exactly if it stays near. -/
theorem binsPass_applied_iff {codec : Codec} {book₀ : Book Inner} {draft : Draft Inner}
    {inner inner' : Inner} (h : BinsAgree Bin.actualQty inner) (h' : BinsAgree Bin.actualQty inner')
    (hpass : BinsPass inner) (hbuilt : Draft.Built codec (memBackend codec) vouchers book₀ draft)
    (happlied : Inner.Applied draft.commit inner inner') :
    BinsPass inner' ↔ (appliedEntry draft inner).StaysNear codec := by
  have hcompany := (Command.build_new_or_cancel hbuilt.build).1
  rw [h.pass_iff] at hpass
  rw [h'.pass_iff]
  constructor
  · intro hnear move _
    have hafter := hnear draft.commit.companyId move.1
    rwa [storedQty_applied hbuilt happlied, hcompany] at hafter
  · intro hstays company pair
    by_cases hsame : company = draft.commit.companyId
    · rw [hsame, storedQty_applied hbuilt happlied]
      by_cases hmoves : ∃ move ∈ draft.movements codec, move.1 = pair
      · obtain ⟨move, hmove, rfl⟩ := hmoves
        have hentry := hstays move hmove
        rwa [hcompany]
      · -- a pair without a movement stays where it was
        have hnone : (draft.movements codec).filter (fun m => m.1 = pair) = [] :=
          List.filter_eq_nil_iff.2 fun move hmove => by
            simpa using fun heq => hmoves ⟨move, hmove, heq⟩
        rw [movedOn, hnone, List.map_nil, List.sum_nil, add_zero]
        exact hpass _ pair
    · rw [storedQty_applied_ne happlied hsame]
      exact hpass company pair

/-- The stock check passes all along a run of vouchers exactly if every applied voucher leaves each
pair it moves within 0.0001 of a multiple of 0.001. -/
theorem bins_pass_iff_near (codec : Codec) (events : List (Event MemOp))
    (hevents : ∀ event ∈ events, event.Allowed vouchers) :
    (∀ run, run <+: events → BinsPass (memRun codec run).book.store) ↔
      ∀ entry ∈ (memRun codec events).book.journal, entry.StaysNear codec := by
  refine memRun_always_iff_journal binsAgree_rule ⟨kept_fresh, binsAgree_fresh⟩ binsPass_fresh ?_ ?_ hevents
  · intro book₀ book draft env inner' _ _ _ h h' hpass hbuilt heffects
    exact binsPass_applied_iff h.2 h'.2 hpass hbuilt heffects.applied
  · intro inner op env hpass company pair bin hbin
    have hframe := operate_frame codec env op inner
    rw [hframe.bins] at hbin
    rw [Inner.storedQty, stored_eq_onPair, hframe.stockLedger, ← stored_eq_onPair]
    exact hpass company pair bin hbin

/-! ### A fourth place -/

/-- A quantity comes in and some of it goes out. -/
def receiptAndIssue (received issued : Value) : List (Event MemOp) :=
  let env : Env := ⟨0, "2026-01-05", 0⟩
  let clerk : Actor := ⟨some 7, some 5, none⟩
  let voucher (doctype id : String) (qty : Value) : Command := .submit
    { doctype
      documentId := some id
      payload := [("posting_date", .string "2026-01-05")]
      items := [.obj [("item", .string "TEA"), ("warehouse", .string "Main"), ("qty", qty),
        ("rate", .int 5)]]
      idempotencyKey := none
      offlineFiscal := false }
  Event.whole 1 clerk (voucher "Purchase Receipt" "PR-1" received) 0 env ++
    Event.whole 1 clerk (voucher "Delivery Note" "DN-1" issued) 1 env

theorem receiptAndIssue_allowed (received issued : Value) :
    ∀ event ∈ receiptAndIssue received issued, event.Allowed vouchers := by
  simp [receiptAndIssue, Event.whole, Event.Allowed, vouchers, Command.IsVoucher]

/-- 1.0004 received and 1 issued: the bin says that nothing is left. -/
theorem bins_fail_fourth_place :
    (∀ event ∈ receiptAndIssue (.num (10004 / 10000)) (.int 1), event.Allowed vouchers) ∧
    ¬ BinsPass (memRun serdeCodec (receiptAndIssue (.num (10004 / 10000)) (.int 1))).book.store := by
  refine ⟨receiptAndIssue_allowed _ _, fun h => ?_⟩
  have hbin : (AList.lookup (1, "TEA", "Main") (memRun serdeCodec
      (receiptAndIssue (.num (10004 / 10000)) (.int 1))).book.store.bins).map Bin.actualQty =
        some 0 := by decide +kernel
  have hqty : (memRun serdeCodec (receiptAndIssue (.num (10004 / 10000)) (.int 1))).book.store.storedQty
      1 (toLex ("TEA", "Main")) = 4 / 10000 := by decide +kernel
  obtain ⟨bin, hlookup, hzero⟩ := Option.map_eq_some_iff.1 hbin
  have hclose := h 1 (toLex ("TEA", "Main")) bin hlookup
  rw [hzero, hqty] at hclose
  norm_num at hclose

/-- With three places the check passes after the receipt and after the issue. -/
theorem bins_pass_third_place :
    (∀ event ∈ receiptAndIssue (.num (1004 / 1000)) (.int 1), event.Allowed vouchers) ∧
    ∀ run, run <+: receiptAndIssue (.num (1004 / 1000)) (.int 1) →
      BinsPass (memRun serdeCodec run).book.store :=
  ⟨receiptAndIssue_allowed _ _,
    (bins_pass_iff_near serdeCodec _ (receiptAndIssue_allowed _ _)).2 (by decide +kernel)⟩

end AtlasTeam
