import AtlasTeam.Posting.Production
import AtlasTeam.Store.StockLedger

/-!
# Bins are the fold of the stock ledger

A commit writes the bins of the pairs it touches from the balances its build computed on the ledger it
simulated. `bins_match_ledger` shows that these are the balances of the ledger the commit leaves, in
every run whose Production entries keep their output legs apart; `bins_miss_ledger` is a Production
entry that does not.
-/

namespace AtlasTeam

/-! ### Writing bins -/

/-- Where a bin is stored. -/
def Bin.key (company : Uuid) (bin : Bin) : Uuid × String × String := (company, bin.item, bin.warehouse)

theorem lookup_putBins_of_notMem {company : Uuid} {bins : List Bin} {key : Uuid × String × String}
    (h : ∀ bin ∈ bins, bin.key company ≠ key) (t : Table (Uuid × String × String) Bin) :
    AList.lookup key (bins.foldl (Inner.putBin company) t) = AList.lookup key t := by
  induction bins generalizing t with
  | nil => rfl
  | cons bin bins ih =>
    obtain ⟨hbin, hbins⟩ := List.forall_mem_cons.1 h
    rw [List.foldl_cons, ih hbins, Inner.putBin]
    exact AList.lookup_insert_ne (Ne.symm hbin)

theorem lookup_putBins_of_mem {company : Uuid} {bins : List Bin} {bin : Bin} (hbin : bin ∈ bins)
    (hdistinct : bins.Pairwise fun b b' => b'.key company ≠ b.key company)
    (t : Table (Uuid × String × String) Bin) :
    AList.lookup (bin.key company) (bins.foldl (Inner.putBin company) t) = some bin := by
  induction bins generalizing t with
  | nil => exact absurd hbin List.not_mem_nil
  | cons first bins ih =>
    obtain ⟨hfirst, hrest⟩ := List.pairwise_cons.1 hdistinct
    rcases List.mem_cons.1 hbin with rfl | hbin
    · rw [List.foldl_cons, lookup_putBins_of_notMem hfirst, Inner.putBin]
      exact AList.lookup_insert _
    · exact ih hbin hrest _

/-- The bin of a pair with a given balance. -/
def pairBin (company : Uuid) (pair : Pair) (snap : BinSnapshot) : Bin :=
  { companyId := company
    item := (ofLex pair).1
    warehouse := (ofLex pair).2
    actualQty := snap.actualQty
    valuationRate := snap.valuationRate
    stockValue := snap.stockValue }

theorem pairKey_inj {company : Uuid} {pair pair' : Pair}
    (h : (company, (ofLex pair).1, (ofLex pair).2) = (company, (ofLex pair').1, (ofLex pair').2)) :
    pair = pair' := by
  obtain ⟨hitem, hwarehouse⟩ := Prod.mk.inj (Prod.mk.inj h).2
  exact congrArg toLex (Prod.ext hitem hwarehouse)

/-- The bins of a commit, pair by pair: those of the cache, and what stood there for the rest. -/
theorem lookup_recomputedBins (company : Uuid) (ledgers : Ledgers) (pair : Pair)
    (t : Table (Uuid × String × String) Bin) :
    AList.lookup (company, (ofLex pair).1, (ofLex pair).2)
        ((recomputeBins company ledgers).foldl (Inner.putBin company) t) =
      match ledgers.rows.lookup pair with
      | some rows => some (pairBin company pair (computeBalance rows))
      | none => AList.lookup (company, (ofLex pair).1, (ofLex pair).2) t := by
  cases hrows : ledgers.rows.lookup pair with
  | some rows =>
    have hmem : pairBin company pair (computeBalance rows) ∈ recomputeBins company ledgers :=
      List.mem_map.2 ⟨(pair, rows), (SortedMap.mem_entries_iff _).2 hrows, rfl⟩
    have hdistinct : (recomputeBins company ledgers).Pairwise
        fun b b' => b'.key company ≠ b.key company := by
      refine List.pairwise_map.2 (ledgers.rows.ordered.imp fun {e e'} hlt heq => ?_)
      exact absurd (pairKey_inj heq) hlt.ne'
    exact lookup_putBins_of_mem hmem hdistinct t
  | none =>
    refine lookup_putBins_of_notMem (fun bin hbin heq => ?_) t
    obtain ⟨⟨pair', rows⟩, hentry, rfl⟩ := List.mem_map.1 hbin
    obtain rfl : pair' = pair := pairKey_inj heq
    rw [(SortedMap.mem_entries_iff _).1 hentry] at hrows
    cases hrows

/-! ### The invariant -/

/-- The bin a pair should have: none without rows, else the balance of its rows. -/
def ledgerBin (inner : Inner) (company : Uuid) (pair : Pair) : Option Bin :=
  if inner.view.stored company pair = [] then none
  else some (pairBin company pair
    (computeBalance ((inner.view.stored company pair).map StockLedgerEntry.row)))

def BinsMatch (inner : Inner) : Prop :=
  ∀ company pair, AList.lookup (company, (ofLex pair).1, (ofLex pair).2) inner.bins =
    ledgerBin inner company pair

/-- The costing of a draft's voucher, before the consumed cost is spread. -/
def Draft.costState (codec : Codec) (draft : Draft Inner) : Option CostState :=
  (draft.voucher codec).map fun voucher =>
    costRows (costInputs draft.snapshot.view draft.companyId voucher.items voucher.payload)
      voucher.sles

/-- If the draft spreads consumed cost, its output legs are apart. -/
def Draft.LegsApart (codec : Codec) (draft : Draft Inner) : Prop :=
  ∀ st ∈ draft.costState codec, st.Spreads → st.LegsApart

instance (codec : Codec) (draft : Draft Inner) : Decidable (draft.LegsApart codec) :=
  inferInstanceAs (Decidable (∀ st ∈ draft.costState codec, st.Spreads → st.LegsApart))

theorem LedgerBuild.balances {codec : Codec} {draft : Draft Inner} {ledgers : Ledgers}
    (h : LedgerBuild codec draft ledgers) (hapart : draft.LegsApart codec) :
    ledgers.Reflects draft.snapshot.view draft.commit.companyId computeBalance
      draft.commit.stockLedgerEntries := by
  rw [h.company]
  rcases h.rows with ⟨cmd, voucher, -, hvoucher, hposted, hledgers, -⟩ | ⟨-, -, hledgers, -⟩
  · rw [hposted, hledgers]
    refine costStockMovements_balances _ _ _ _ _ (hapart _ ?_)
    rw [Draft.costState, hvoucher]
    rfl
  · rw [hledgers]
    exact (replayRows_simulates _ _ _).reflects _

/-- The bins are those of the ledger in what `read` takes of them. -/
def BinsAgree {β : Type} (read : Bin → β) (inner : Inner) : Prop :=
  ∀ company pair, (AList.lookup (company, (ofLex pair).1, (ofLex pair).2) inner.bins).map read =
    (ledgerBin inner company pair).map read

theorem binsMatch_iff_agree {inner : Inner} : BinsMatch inner ↔ BinsAgree id inner := by
  simp only [BinsMatch, BinsAgree, Option.map_id, id_eq]

/-- Bins and ledger keep agreeing in what is read off them when the cache of the build agrees with the
ledger it leaves in what `read` depends on. -/
theorem BinsAgree.applied {α β : Type} {f : List LedgerRow → α} {read : Bin → β} {codec : Codec}
    {draft : Draft Inner} {ledgers : Ledgers} {inner inner' : Inner} (h : BinsAgree read inner)
    (hread : ∀ company pair rows rows', f rows = f rows' →
      read (pairBin company pair (computeBalance rows)) =
        read (pairBin company pair (computeBalance rows')))
    (hledgers : LedgerBuild codec draft ledgers)
    (hreflects : ledgers.Reflects draft.snapshot.view draft.commit.companyId f
      draft.commit.stockLedgerEntries)
    (hgrow : Extends draft.snapshot inner) (hpassed : Inner.Passed draft.commit inner)
    (happlied : Inner.Applied draft.commit inner inner') : BinsAgree read inner' := by
  intro company pair
  rw [happlied.bins, hledgers.bins]
  by_cases hcompany : company = draft.commit.companyId
  · subst hcompany
    rw [lookup_recomputedBins]
    have hbalance := hreflects.rows pair
    by_cases hpair : pair ∈ draft.commit.stockLedgerEntries.map StockLedgerEntry.pair
    · rw [if_pos hpair] at hbalance
      obtain ⟨rows, hrows, hsame⟩ := Option.map_eq_some_iff.1 hbalance
      have hstored := hledgers.stored_applied hgrow hpassed happlied hpair
      have hne : inner'.view.stored draft.commit.companyId pair ≠ [] := by
        intro hnil
        rw [hnil, List.map_nil] at hstored
        obtain ⟨sle, hsle, rfl⟩ := List.mem_map.1 hpair
        have hmem : sle.row ∈ simulated draft.snapshot.view draft.commit.companyId
            draft.commit.stockLedgerEntries sle.pair :=
          List.mem_map_of_mem (List.mem_append_right _ (mem_onPair.2 ⟨hsle, rfl⟩))
        rw [← hstored] at hmem
        exact absurd hmem List.not_mem_nil
      rw [hrows, ledgerBin, if_neg hne, hstored]
      exact congrArg some (hread _ _ _ _ hsame)
    · rw [if_neg hpair, Option.map_eq_none_iff] at hbalance
      have hstored := stored_applied_of_notMem happlied hpair
      have hnil : inner'.view.stored draft.commit.companyId pair = [] ↔
          inner.view.stored draft.commit.companyId pair = [] := by
        rw [← List.map_eq_nil_iff (f := StockLedgerEntry.row), hstored, List.map_eq_nil_iff]
      rw [hbalance]
      refine (h _ pair).trans ?_
      simp only [ledgerBin, hnil, hstored]
  · have hother : ∀ bin ∈ recomputeBins draft.commit.companyId ledgers,
        bin.key draft.commit.companyId ≠ (company, (ofLex pair).1, (ofLex pair).2) :=
      fun bin _ heq => hcompany (Prod.mk.inj heq).1.symm
    rw [lookup_putBins_of_notMem hother, h company pair, ledgerBin, ledgerBin,
      stored_applied_ne happlied hcompany]

/-- No other operation writes bins or the stock ledger. -/
theorem BinsAgree.operate {β : Type} {read : Bin → β} {inner inner' : Inner}
    (h : BinsAgree read inner) (hframe : SameBooks inner inner') : BinsAgree read inner' := by
  intro company pair
  have hsame := h company pair
  rw [ledgerBin, stored_eq_onPair] at hsame ⊢
  rwa [hframe.bins, hframe.stockLedger]

theorem binsMatch_rule {codec : Codec} :
    Snapshot.Rule (protocol codec (memBackend codec) vouchers)
      (fun book => Kept book ∧
        ((∀ entry ∈ book.journal, entry.LegsApart codec) → BinsMatch book.store))
      fun book book' => Extends book.store book'.store := by
  refine extends_rule_and ?_ ?_
  · intro book₀ book draft inner' _ _ hgrow _ h hbuilt hpassed happlied hapart
    obtain ⟨ledgers, hledgers⟩ := built_ledgers hbuilt hbuilt.allowed
    rw [← hbuilt.snapshot] at hgrow
    have hmatch := h fun entry hentry => hapart entry (List.mem_append_left _ hentry)
    have hdraft := hapart _ (List.mem_append_right _ List.mem_cons_self)
    exact binsMatch_iff_agree.2 ((binsMatch_iff_agree.1 hmatch).applied
      (fun _ _ _ _ hsame => by rw [hsame]) hledgers (hledgers.balances hdraft) hgrow hpassed happlied)
  · intro book op env h _ hapart
    exact binsMatch_iff_agree.2
      ((binsMatch_iff_agree.1 (h hapart)).operate (operate_frame codec env op book.store))

/-- In every run of vouchers whose Production entries keep their output legs apart, every pair with
rows has the bin its rows fold to, in sequence order, and no other pair has one. -/
theorem bins_match_ledger (codec : Codec) (events : List (Event MemOp))
    (hevents : ∀ event ∈ events, event.Allowed vouchers)
    (hapart : ∀ entry ∈ (memRun codec events).book.journal, entry.LegsApart codec) :
    BinsMatch (memRun codec events).book.store ∧
    ∀ company, ((memRun codec events).book.store.stockLedger.log company).Pairwise
      fun row row' => row.seq < row'.seq := by
  have hfresh : BinsMatch {} := fun _ _ => rfl
  have hrun : Kept (memRun codec events).book ∧
      ((∀ entry ∈ (memRun codec events).book.journal, entry.LegsApart codec) →
        BinsMatch (memRun codec events).book.store) :=
    System.invariant_of_rule binsMatch_rule ⟨kept_fresh, fun _ => hfresh⟩ hevents
  exact ⟨hrun.2 hapart, fun company => (sequenced_run codec events).pairwise company⟩

/-! ### Two output lines -/

/-- Raw material comes in for two million and ten cents, and all of it becomes two lines of a million
units each, of one product in one warehouse. -/
def splitOutput (rates : Int × Int) : List (Event MemOp) :=
  let env : Env := ⟨0, "2026-01-05", 0⟩
  let clerk : Actor := ⟨some 7, some 5, none⟩
  let receipt : Command := .submit
    { doctype := "Purchase Receipt"
      documentId := some "PR-1"
      payload := [("posting_date", .string "2026-01-05")]
      items := [.obj [("item", .string "RAW"), ("warehouse", .string "Main"), ("qty", .int 1),
        ("rate", .num (20000001 / 10))]]
      idempotencyKey := none
      offlineFiscal := false }
  let output (rate : Int) : Value := .obj [("item", .string "TEA"),
    ("target_warehouse", .string "Main"), ("qty", .int 1000000), ("valuation_rate", .int rate)]
  let manufacture : Command := .submit
    { doctype := "Stock Entry"
      documentId := some "SE-1"
      payload := [("posting_date", .string "2026-01-05"), ("stock_entry_type", .string "Manufacture")]
      items := [.obj [("item", .string "RAW"), ("source_warehouse", .string "Main"), ("qty", .int 1)],
        output rates.1, output rates.2]
      idempotencyKey := none
      offlineFiscal := false }
  Event.whole 1 clerk receipt 0 env ++ Event.whole 1 clerk manufacture 1 env

theorem splitOutput_allowed (rates : Int × Int) :
    ∀ event ∈ splitOutput rates, event.Allowed vouchers := by
  simp [splitOutput, Event.whole, Event.Allowed, vouchers, Command.IsVoucher]

/-- The unit cost is so close to the rate both lines came with that the second search ends at the row
the first one patched: the bin is five cents short of the ledger. -/
theorem bins_miss_ledger :
    (∀ event ∈ splitOutput (1, 1), event.Allowed vouchers) ∧
    ¬ BinsMatch (memRun serdeCodec (splitOutput (1, 1))).book.store := by
  refine ⟨splitOutput_allowed (1, 1), fun h => ?_⟩
  have hbin := h 1 (toLex ("TEA", "Main"))
  have hvalue : (AList.lookup (1, "TEA", "Main")
      (memRun serdeCodec (splitOutput (1, 1))).book.store.bins).map Bin.stockValue =
        some (40000001 / 20) := by decide +kernel
  have hledger : (ledgerBin (memRun serdeCodec (splitOutput (1, 1))).book.store 1
      (toLex ("TEA", "Main"))).map Bin.stockValue = some (20000001 / 10) := by decide +kernel
  rw [← hbin] at hledger
  have hsame := Option.some.inj (hvalue.symm.trans hledger)
  norm_num at hsame

/-- With another rate on the lines the same entry is fine. -/
theorem bins_match_ledger_split :
    BinsMatch (memRun serdeCodec (splitOutput (2, 2))).book.store :=
  (bins_match_ledger serdeCodec (splitOutput (2, 2)) (splitOutput_allowed (2, 2))
    (by decide +kernel)).1

end AtlasTeam
