import AtlasTeam.Posting.Balance
import AtlasTeam.Posting.RowIds

/-!
# Stock rows and their GL legs

A costed movement that crosses the border of the stock posts its value to two legs, on the inventory's
side and on the counter side. `stockLegs` finds the legs of stored rows by voucher and id, and `Tallied`
says that rows and entries agree: the rows' worth is what the inventory side shows, up to the values that
are too small for a leg, and the other side balances it. A submit's rows do (`deriveRows_tallied`),
rows that do can be put together (`Tallied.flatMap`), and so do the reversals of rows that do
(`Tallied.reversed`).
-/

namespace AtlasTeam

/-! ### The legs of a row -/

/-- `qty_change × valuation_rate`. -/
def StockLedgerEntry.worth (sle : StockLedgerEntry) : ℚ := sle.qtyChange * sle.valuationRate

/-- The movement crosses the border of the stock. -/
def StockLedgerEntry.crosses (sle : StockLedgerEntry) : Bool :=
  sle.transType ≠ .transfer && sle.transType ≠ .production

@[simp] theorem StockLedgerEntry.reversal_worth (batchId : String) (sle : StockLedgerEntry) :
    (sle.reversal batchId).worth = -sle.worth :=
  neg_mul _ _

@[simp] theorem StockLedgerEntry.reversal_crosses (batchId : String) (sle : StockLedgerEntry) :
    (sle.reversal batchId).crosses = sle.crosses := rfl

inductive LegSide where
  | inventory
  | counter
deriving DecidableEq

/-- The id of the row's leg on a side: value that comes in is debited to the inventory. -/
def StockLedgerEntry.legId (side : LegSide) (sle : StockLedgerEntry) : Option String :=
  if 0 < sle.worth then
    match side with
    | .inventory => some (sle.id ++ "-gl-d")
    | .counter => some (sle.id ++ "-gl-c")
  else if sle.worth < 0 then
    match side with
    | .inventory => some (sle.id ++ "-gl-c")
    | .counter => some (sle.id ++ "-gl-d")
  else none

/-- The entry is the row's leg on a side, or the leg's reversal. -/
def GlEntry.isLegOf (side : LegSide) (entry : GlEntry) (sle : StockLedgerEntry) : Bool :=
  !sle.isReversal && sle.crosses && entry.voucherType = sle.voucherType &&
    entry.voucherNo = sle.voucherNo &&
    (sle.legId side).any fun id => entry.id = if entry.isReversal then id ++ reversalSuffix else id

/-- The legs of the rows on a side, with their reversals. -/
def stockLegs (side : LegSide) (sles : List StockLedgerEntry) (gl : List GlEntry) : List GlEntry :=
  gl.filter fun entry => sles.any (entry.isLegOf side)

theorem GlEntry.isLegOf_iff {side : LegSide} {entry : GlEntry} {sle : StockLedgerEntry} :
    entry.isLegOf side sle = true ↔ sle.isReversal = false ∧ sle.crosses = true ∧
      entry.voucherType = sle.voucherType ∧ entry.voucherNo = sle.voucherNo ∧
      ∃ id, sle.legId side = some id ∧
        entry.id = if entry.isReversal then id ++ reversalSuffix else id := by
  simp [GlEntry.isLegOf, Option.any_eq_true, and_assoc]

/-- A leg's id starts with the row's. -/
theorem StockLedgerEntry.legId_start {side : LegSide} {sle : StockLedgerEntry} {id : String}
    (h : sle.legId side = some id) : id = sle.id ++ "-gl-d" ∨ id = sle.id ++ "-gl-c" := by
  unfold legId at h
  cases side <;> split_ifs at h <;> simp_all

/-- Reversing an entry keeps whose leg it is. -/
theorem GlEntry.isLegOf_reversal {side : LegSide} {entry : GlEntry} {sle : StockLedgerEntry}
    (batchId : String) (h : entry.isReversal = false) :
    (entry.reversal batchId).isLegOf side sle = entry.isLegOf side sle := by
  rw [Bool.eq_iff_iff, GlEntry.isLegOf_iff, GlEntry.isLegOf_iff]
  simp [GlEntry.reversal, h, String.append_left_inj]

/-! ### Rows and entries that agree -/

section Tally
variable {leg : LegSide → GlEntry → Bool}

/-- What the rows that cross are worth. -/
def crossingWorth (sles : List StockLedgerEntry) : ℚ :=
  ((sles.filter StockLedgerEntry.crosses).map StockLedgerEntry.worth).sum

/-- The legs on the inventory's side show the rows' worth, but for what is too small, and those on the
counter side balance them. -/
structure Tallied (leg : LegSide → GlEntry → Bool) (sles : List StockLedgerEntry) (gl : List GlEntry) :
    Prop where
  inventory : |crossingWorth sles - glDifference (gl.filter (leg .inventory))| ≤
    eps * (sles.filter StockLedgerEntry.crosses).length
  counter : glDifference (gl.filter (leg .inventory)) + glDifference (gl.filter (leg .counter)) = 0

theorem crossingWorth_append (sles sles' : List StockLedgerEntry) :
    crossingWorth (sles ++ sles') = crossingWorth sles + crossingWorth sles' := by
  rw [crossingWorth, List.filter_append, List.map_append, List.sum_append]
  rfl

theorem crossingWorth_reversed (batchId : String) (sles : List StockLedgerEntry) :
    crossingWorth (sles.map (StockLedgerEntry.reversal batchId)) = -crossingWorth sles := by
  induction sles with
  | nil => simp [crossingWorth]
  | cons sle sles ih =>
    have hsplit : ∀ (sle : StockLedgerEntry) sles, crossingWorth (sle :: sles) =
        crossingWorth [sle] + crossingWorth sles := fun sle sles => crossingWorth_append [sle] sles
    have hone : crossingWorth [sle.reversal batchId] = -crossingWorth [sle] := by
      cases hcrosses : sle.crosses with
      | false => simp [crossingWorth, hcrosses]
      | true => simp [crossingWorth, hcrosses]
    rw [List.map_cons, hsplit, hsplit sle, ih, hone, neg_add]

theorem Tallied.nil : Tallied leg [] [] := ⟨by simp [crossingWorth], by simp⟩

theorem Tallied.append {sles sles' : List StockLedgerEntry} {gl gl' : List GlEntry}
    (h : Tallied leg sles gl) (h' : Tallied leg sles' gl') :
    Tallied leg (sles ++ sles') (gl ++ gl') := by
  constructor
  · rw [crossingWorth_append, List.filter_append, glDifference_append, List.filter_append,
      List.length_append, Nat.cast_add, mul_add]
    have hsum := abs_add_le (crossingWorth sles - glDifference (gl.filter (leg .inventory)))
      (crossingWorth sles' - glDifference (gl'.filter (leg .inventory)))
    rw [sub_add_sub_comm] at hsum
    exact hsum.trans (add_le_add h.inventory h'.inventory)
  · have hcounter := h.counter
    have hcounter' := h'.counter
    rw [List.filter_append, List.filter_append, glDifference_append, glDifference_append]
    linarith

/-- What agrees piece by piece agrees together. -/
theorem Tallied.flatMap {α : Type} {sles : α → List StockLedgerEntry} {gl : α → List GlEntry}
    {pieces : List α} (h : ∀ piece ∈ pieces, Tallied leg (sles piece) (gl piece)) :
    Tallied leg (pieces.flatMap sles) (pieces.flatMap gl) := by
  induction pieces with
  | nil => exact .nil
  | cons piece pieces ih =>
    obtain ⟨hpiece, hpieces⟩ := List.forall_mem_cons.1 h
    exact hpiece.append (ih hpieces)

/-- Only the legs matter. -/
theorem Tallied.congr {leg' : LegSide → GlEntry → Bool} {sles : List StockLedgerEntry}
    {gl gl' : List GlEntry} (h : Tallied leg sles gl)
    (hlegs : ∀ side, gl'.filter (leg' side) = gl.filter (leg side)) : Tallied leg' sles gl' := by
  constructor
  · rw [hlegs]
    exact h.inventory
  · rw [hlegs, hlegs]
    exact h.counter

/-- Reversals agree when what they reverse does. -/
theorem Tallied.reversed {sles : List StockLedgerEntry} {gl : List GlEntry} (h : Tallied leg sles gl)
    (batchId : String)
    (hleg : ∀ side, ∀ entry ∈ gl, leg side (entry.reversal batchId) = leg side entry) :
    Tallied leg (sles.map (StockLedgerEntry.reversal batchId)) (gl.map (GlEntry.reversal batchId)) := by
  have hlegs : ∀ side, glDifference ((gl.map (GlEntry.reversal batchId)).filter (leg side)) =
      -glDifference (gl.filter (leg side)) := by
    intro side
    have hsame : gl.filter (leg side ∘ GlEntry.reversal batchId) = gl.filter (leg side) :=
      List.filter_congr (hleg side)
    rw [List.filter_map, hsame]
    exact reversal_difference batchId _
  have hlength : ((sles.map (StockLedgerEntry.reversal batchId)).filter
      StockLedgerEntry.crosses).length = (sles.filter StockLedgerEntry.crosses).length := by
    rw [List.filter_map, List.length_map]
    rfl
  constructor
  · rw [crossingWorth_reversed, hlegs, hlength, ← abs_neg]
    convert h.inventory using 2
    ring
  · rw [hlegs, hlegs]
    linarith [h.counter]

end Tally

/-! ### The rows of a submit -/

section Submit
variable {ctx : RowContext}

/-- Whose leg an entry is among the rows of one document. -/
def ownLeg (sles : List StockLedgerEntry) (side : LegSide) (entry : GlEntry) : Bool :=
  sles.any (entry.isLegOf side)

/-- The id of a leg tells its row and its side. -/
theorem legId_inj {side : LegSide} {sle sle' : StockLedgerEntry} {tail : String}
    (h : sle'.legId side = some (sle.id ++ tail)) (htail : tail = "-gl-d" ∨ tail = "-gl-c") :
    sle'.id = sle.id ∧ sle'.legId side = some (sle'.id ++ tail) := by
  have hne : ∀ a b : String, a ++ "-gl-d" ≠ b ++ "-gl-c" := fun a b =>
    Distinct.ne_of_getLast (by simp [String.toList_append])
  have hid : sle'.id = sle.id := by
    rcases StockLedgerEntry.legId_start h with hstart | hstart <;> rcases htail with rfl | rfl
    · exact ((String.append_left_inj _).1 hstart).symm
    · exact absurd hstart.symm (hne _ _)
    · exact absurd hstart (hne _ _)
    · exact ((String.append_left_inj _).1 hstart).symm
  rw [hid]
  exact ⟨rfl, h⟩

theorem stockGlLeg_stamp {items : Items} {settings : CompanySettings} {sle : StockLedgerEntry}
    {entry : GlEntry} (h : entry ∈ stockGlLeg ctx items settings sle) : entry.stamp = ctx.stamp := by
  have hlegs : entry ∈ stockGlLegs ctx [sle] items settings :=
    List.mem_flatMap.2 ⟨sle, List.mem_singleton_self sle, h⟩
  exact congrArg Origin.stamp (stockGlLegs_origin hlegs)

/-- An entry named like a leg of a row is the row's leg on the side that takes the name. -/
theorem ownLeg_iff {sles : List StockLedgerEntry} (hids : (sles.map StockLedgerEntry.id).Nodup)
    (hstamps : ∀ sle ∈ sles, sle.stamp = ctx.stamp) {sle : StockLedgerEntry} (hsle : sle ∈ sles)
    (hcrosses : sle.crosses = true) {entry : GlEntry} (hentry : entry.stamp = ctx.stamp)
    {tail : String} (htail : tail = "-gl-d" ∨ tail = "-gl-c") (hid : entry.id = sle.id ++ tail)
    (side : LegSide) :
    ownLeg sles side entry = true ↔ sle.legId side = some (sle.id ++ tail) := by
  obtain ⟨htype, hno, hlive⟩ := Stamp.mk.inj hentry
  rw [ownLeg, List.any_eq_true]
  constructor
  · rintro ⟨row, hrow, hleg⟩
    obtain ⟨-, -, -, -, id, hlegId, hsame⟩ := GlEntry.isLegOf_iff.1 hleg
    rw [hlive, if_neg Bool.false_ne_true, hid] at hsame
    subst hsame
    -- the ids of the rows are distinct
    obtain rfl := List.inj_on_of_nodup_map hids hrow hsle (legId_inj hlegId htail).1
    exact hlegId
  · intro hlegId
    obtain ⟨htype', hno', hlive'⟩ := Stamp.mk.inj (hstamps sle hsle)
    refine ⟨sle, hsle, GlEntry.isLegOf_iff.2 ⟨hlive', hcrosses, htype.trans htype'.symm,
      hno.trans hno'.symm, _, hlegId, ?_⟩⟩
    rw [hlive, if_neg Bool.false_ne_true, hid]

/-- Of the two legs of a row each side takes one. -/
theorem filter_ownLeg {sles : List StockLedgerEntry} {sle : StockLedgerEntry} {d c : GlEntry}
    (hne : sle.worth ≠ 0)
    (hd : ∀ side, ownLeg sles side d = true ↔ sle.legId side = some (sle.id ++ "-gl-d"))
    (hc : ∀ side, ownLeg sles side c = true ↔ sle.legId side = some (sle.id ++ "-gl-c")) :
    [d, c].filter (ownLeg sles .inventory) = [if 0 < sle.worth then d else c] ∧
      [d, c].filter (ownLeg sles .counter) = [if 0 < sle.worth then c else d] := by
  have htails : "-gl-d" ≠ "-gl-c" := by decide
  have hd' : ∀ side, ownLeg sles side d = decide (sle.legId side = some (sle.id ++ "-gl-d")) :=
    fun side => by rw [Bool.eq_iff_iff, hd, decide_eq_true_iff]
  have hc' : ∀ side, ownLeg sles side c = decide (sle.legId side = some (sle.id ++ "-gl-c")) :=
    fun side => by rw [Bool.eq_iff_iff, hc, decide_eq_true_iff]
  rcases lt_or_gt_of_ne hne with hout | hin
  · simp [hd', hc', StockLedgerEntry.legId, hout.not_gt, hout, htails, htails.symm]
  · simp [hd', hc', StockLedgerEntry.legId, hin, htails, htails.symm]

/-- What the legs of a row show of its worth: nothing where it is too small or stays within the stock. -/
def StockLedgerEntry.shown (sle : StockLedgerEntry) : ℚ :=
  if |sle.worth| < eps ∨ sle.crosses = false then 0 else sle.worth

theorem StockLedgerEntry.silent_iff {sle : StockLedgerEntry} :
    sle.Silent ↔ |sle.worth| < eps ∨ sle.crosses = false := by
  rw [Silent, crosses, worth]
  simp only [Bool.and_eq_false_iff, decide_eq_false_iff_not, not_not]

/-- The legs of one row show it on the inventory's side, and its opposite on the counter side. -/
theorem stockGlLeg_shown {sles : List StockLedgerEntry} (items : Items) (settings : CompanySettings)
    (hids : (sles.map StockLedgerEntry.id).Nodup)
    (hstamps : ∀ sle ∈ sles, sle.stamp = ctx.stamp) {sle : StockLedgerEntry} (hsle : sle ∈ sles) :
    glDifference ((stockGlLeg ctx items settings sle).filter (ownLeg sles .inventory)) = sle.shown ∧
      glDifference ((stockGlLeg ctx items settings sle).filter (ownLeg sles .counter)) = -sle.shown := by
  rcases stockGlLeg_cases ctx items settings sle with
    ⟨hsilent, hnone⟩ | ⟨hloud, d, c, hlegs, hd, hdebit, hdebit', hc, hcredit, hcredit'⟩
  · rw [hnone, StockLedgerEntry.shown, if_pos (StockLedgerEntry.silent_iff.1 hsilent)]
    simp
  · rw [StockLedgerEntry.silent_iff] at hloud
    obtain ⟨hlarge, hcrosses⟩ := not_or.1 hloud
    rw [Bool.not_eq_false] at hcrosses
    have hne : sle.worth ≠ 0 := by
      intro hzero
      refine hlarge ?_
      rw [hzero, abs_zero]
      norm_num [eps]
    have hdStamp : d.stamp = ctx.stamp :=
      stockGlLeg_stamp (hlegs ▸ by simp : d ∈ stockGlLeg ctx items settings sle)
    have hcStamp : c.stamp = ctx.stamp :=
      stockGlLeg_stamp (hlegs ▸ by simp : c ∈ stockGlLeg ctx items settings sle)
    obtain ⟨hinventory, hcounter⟩ := filter_ownLeg hne
      (ownLeg_iff hids hstamps hsle hcrosses hdStamp (.inl rfl) hd)
      (ownLeg_iff hids hstamps hsle hcrosses hcStamp (.inr rfl) hc)
    have hd' : d.difference = |sle.worth| := by
      rw [GlEntry.difference, hdebit, hdebit', sub_zero]
      rfl
    have hc' : c.difference = -|sle.worth| := by
      rw [GlEntry.difference, hcredit, hcredit', zero_sub]
      rfl
    rw [hlegs, hinventory, hcounter, StockLedgerEntry.shown, if_neg hloud]
    -- value that comes in is on the debit leg, value that goes out on the credit leg
    constructor
    · rw [glDifference_cons, glDifference_nil, add_zero]
      split_ifs with hin
      · rw [hd', abs_of_pos hin]
      · rw [hc', abs_of_nonpos (not_lt.1 hin), neg_neg]
    · rw [glDifference_cons, glDifference_nil, add_zero]
      split_ifs with hin
      · rw [hc', abs_of_pos hin]
      · rw [hd', abs_of_nonpos (not_lt.1 hin)]

/-- What the counter side of a document's stock legs comes to. -/
theorem stockGlLegs_counter {sles : List StockLedgerEntry} (items : Items) (settings : CompanySettings)
    (hids : (sles.map StockLedgerEntry.id).Nodup) (hstamps : ∀ sle ∈ sles, sle.stamp = ctx.stamp) :
    glDifference ((stockGlLegs ctx sles items settings).filter (ownLeg sles .counter)) =
      -(sles.map StockLedgerEntry.shown).sum := by
  have hpieces : ∀ pieces ⊆ sles, glDifference ((stockGlLegs ctx pieces items settings).filter
      (ownLeg sles .counter)) = -(pieces.map StockLedgerEntry.shown).sum := by
    intro pieces hsub
    induction pieces with
    | nil => simp [stockGlLegs]
    | cons sle pieces ih =>
      obtain ⟨hsle, hrest⟩ := List.cons_subset.1 hsub
      rw [stockGlLegs, List.flatMap_cons, List.filter_append, glDifference_append,
        (stockGlLeg_shown items settings hids hstamps hsle).2, ← stockGlLegs, ih hrest, List.map_cons,
        List.sum_cons, neg_add]
  exact hpieces sles (List.Subset.refl sles)

/-- The legs of one row agree with it. -/
theorem stockGlLeg_tallied {sles : List StockLedgerEntry} (items : Items) (settings : CompanySettings)
    (hids : (sles.map StockLedgerEntry.id).Nodup)
    (hstamps : ∀ sle ∈ sles, sle.stamp = ctx.stamp) {sle : StockLedgerEntry} (hsle : sle ∈ sles) :
    Tallied (ownLeg sles) [sle] (stockGlLeg ctx items settings sle) := by
  obtain ⟨hinventory, hcounter⟩ := stockGlLeg_shown items settings hids hstamps hsle
  refine ⟨?_, by rw [hinventory, hcounter, add_neg_cancel]⟩
  rw [hinventory, StockLedgerEntry.shown]
  have heps : 0 ≤ eps := by norm_num [eps]
  cases hcrosses : sle.crosses with
  | false => simp [crossingWorth, hcrosses]
  | true =>
    by_cases hsmall : |sle.worth| < eps
    · simpa [crossingWorth, hcrosses, hsmall] using hsmall.le
    · simpa [crossingWorth, hcrosses, hsmall] using heps

/-- The legs of the rows of a document agree with them. -/
theorem stockGlLegs_tallied {sles : List StockLedgerEntry} (items : Items) (settings : CompanySettings)
    (hids : (sles.map StockLedgerEntry.id).Nodup)
    (hstamps : ∀ sle ∈ sles, sle.stamp = ctx.stamp) :
    Tallied (ownLeg sles) sles (stockGlLegs ctx sles items settings) := by
  have hpieces : Tallied (ownLeg sles) (sles.flatMap fun sle => [sle])
      (stockGlLegs ctx sles items settings) :=
    Tallied.flatMap fun sle hsle => stockGlLeg_tallied items settings hids hstamps hsle
  rwa [List.flatMap_singleton'] at hpieces

/-- What asks nothing of a document's own legs finds the same with the stock's share of an expense taken
out. -/
theorem filter_splitGrniFromExpense {leg : GlEntry → Bool} (payload : Map) (items : Items)
    (settings : CompanySettings) (gl : List GlEntry)
    (hown : ∀ entry tail, entry.id = ctx.glStart ++ tail → leg entry = false) :
    (splitGrniFromExpense ctx gl payload items settings).filter leg = gl.filter leg := by
  have hreduced : ∀ (net rate : ℚ), (reduceExpense s!"GL-{ctx.documentId}-debit" net rate gl).filter leg =
      gl.filter leg := by
    intro net rate
    have hid : ∀ entry : GlEntry, entry.id = s!"GL-{ctx.documentId}-debit" → leg entry = false :=
      fun entry h => hown entry "-debit" h
    induction gl with
    | nil => rfl
    | cons entry rest ih =>
      simp only [reduceExpense]
      split_ifs with hexpense
      · rw [List.filter_cons, hid entry hexpense]
        rfl
      · rw [List.filter_cons_of_neg, List.filter_cons_of_neg]
        · rw [Bool.not_eq_true]
          exact hid entry hexpense
        · rw [Bool.not_eq_true]
          exact hid _ hexpense
      · rw [List.filter_cons, List.filter_cons, ih]
  simp only [splitGrniFromExpense]
  split_ifs
  · rfl
  · rw [List.filter_append, hreduced, List.filter_singleton, hown _ "-grni" rfl]
    exact List.append_nil _

/-- The stock legs of a submit are those of its stock rows. -/
theorem filter_deriveRows (codec : Codec) (view : StoreView) (settings : CompanySettings) (payload : Map)
    (side : LegSide) :
    let rows := deriveRows codec view settings ctx payload
    let items := loadItems codec view ctx.companyId (deriveStockRows ctx payload) payload
    rows.gl.filter (ownLeg rows.sles side) =
      (stockGlLegs ctx rows.sles items settings).filter (ownLeg rows.sles side) := by
  intro rows items
  -- the document's own entries are no legs of its movements
  have hown : ∀ entry tail, entry.id = ctx.glStart ++ tail → ownLeg rows.sles side entry = false := by
    intro entry tail hid
    rw [← Bool.not_eq_true, ownLeg, List.any_eq_true]
    rintro ⟨sle, hsle, hleg⟩
    obtain ⟨-, -, -, -, id, hlegId, hsame⟩ := GlEntry.isLegOf_iff.1 hleg
    obtain ⟨raw, hraw, hrawId⟩ := List.mem_map.1
      (deriveRows_sles_sublist.subset (List.mem_map_of_mem (f := StockLedgerEntry.id) hsle))
    obtain ⟨rest, hrest⟩ := deriveStockRows_start ctx payload hraw
    obtain ⟨leg, hleg⟩ : ∃ leg, id = ctx.sleStart ++ rest ++ leg := by
      rw [← hrest, hrawId]
      rcases StockLedgerEntry.legId_start hlegId with hstart | hstart
      · exact ⟨_, hstart⟩
      · exact ⟨_, hstart⟩
    rw [hid, hleg] at hsame
    split_ifs at hsame
    · rw [String.append_assoc] at hsame
      exact glStart_ne_sleStart ctx tail rest _ hsame
    · exact glStart_ne_sleStart ctx tail rest leg hsame
  obtain ⟨legs, hlegs, -, -⟩ := deriveMonetaryGl_ids ctx payload
  obtain ⟨own, hids', hgl⟩ : ∃ own : List GlEntry, own.map GlEntry.id = legs.map (ctx.glStart ++ ·) ∧
      (rows.gl = own ++ stockGlLegs ctx rows.sles items settings ∨ rows.gl = splitGrniFromExpense ctx
        (own ++ stockGlLegs ctx rows.sles items settings) payload items settings) := by
    refine ⟨_, (@stampBaseAmounts_ids ctx payload _ rfl).1.trans hlegs, ?_⟩
    by_cases hpurchase : ctx.doctype = "Purchase Invoice"
    · exact .inr (if_pos hpurchase)
    · exact .inl (if_neg hpurchase)
  have hjoined : (own ++ stockGlLegs ctx rows.sles items settings).filter (ownLeg rows.sles side) =
      (stockGlLegs ctx rows.sles items settings).filter (ownLeg rows.sles side) := by
    rw [List.filter_append, List.filter_eq_nil_iff.2, List.nil_append]
    intro entry hentry
    have hid : entry.id ∈ legs.map (ctx.glStart ++ ·) := hids' ▸ List.mem_map_of_mem hentry
    obtain ⟨tail, -, htail⟩ := List.mem_map.1 hid
    rw [hown entry tail htail.symm]
    exact Bool.false_ne_true
  rcases hgl with hgl | hgl
  · rw [hgl, hjoined]
  · rw [hgl, filter_splitGrniFromExpense payload items settings _ hown, hjoined]

section Rows
variable (codec : Codec) (view : StoreView) (settings : CompanySettings) (payload : Map)

theorem deriveRows_sles_nodup :
    ((deriveRows codec view settings ctx payload).sles.map StockLedgerEntry.id).Nodup :=
  deriveRows_sles_sublist.nodup (deriveStockRows_ids ctx payload)

theorem deriveRows_sles_stamp {sle : StockLedgerEntry}
    (h : sle ∈ (deriveRows codec view settings ctx payload).sles) : sle.stamp = ctx.stamp :=
  congrArg Origin.stamp (deriveRows_sles_origin settings h)

/-- The legs of a submit's movements agree with its stock rows. -/
theorem deriveRows_tallied :
    let rows := deriveRows codec view settings ctx payload
    Tallied (ownLeg rows.sles) rows.sles rows.gl :=
  (stockGlLegs_tallied _ settings (deriveRows_sles_nodup codec view settings payload)
    fun _ => deriveRows_sles_stamp codec view settings payload).congr
      (filter_deriveRows codec view settings payload)

end Rows

end Submit

end AtlasTeam
