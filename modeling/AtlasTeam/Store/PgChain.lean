import AtlasTeam.Store.HistoryChain

/-!
# Linking the chain lazily (`store/pg.rs`)

In PostgreSQL a row of the log carries its chain value, when it has one, and the counter row caches the
value at the head. Rows written before the chain existed, or by an older server binary, carry none, and
the older binary moves `last_version` without the cache. `chain_tip` links them from the newest linked
row on. `Chained` is the invariant: the rows linked so far are the first ones, each with the fold of
`link` up to it; of the cache nothing is asked. `chainTip_chained` says what linking makes of such a log,
and `chain_linked_lazily` follows for every sequence of appends by either binary and checkpoints.
-/

namespace AtlasTeam

/-- A row of `mutations`. -/
structure LogRow where
  syncVersion : Int
  mutationId : String
  record : Value
  chainHash : Option (List UInt8)

/-- A row of `sync_counters`. -/
structure CounterRow where
  lastVersion : Int
  lastHash : Option (List UInt8)

/-- The rows of one company in the two tables. -/
structure PgLog where
  mutations : List LogRow := []
  counter : Option CounterRow := none

/-- What a link takes of a row. -/
def LogRow.entry (r : LogRow) : Int × String × Value := (r.syncVersion, r.mutationId, r.record)

/-- The fold of `history::link` from `GENESIS` over rows. -/
def rowsValue (codec : Codec) (rows : List LogRow) : List UInt8 :=
  HashChain.value (fun _ prev (e : Int × String × Value) => link codec prev e.1 e.2.1 e.2.2) genesis
    (rows.map LogRow.entry)

namespace PgLog

/-- `insert into sync_counters … on conflict do nothing`. -/
def insertCounter (log : PgLog) : PgLog :=
  { log with counter := some (log.counter.getD { lastVersion := 0, lastHash := none }) }

def lastVersion (log : PgLog) : Int := (log.counter.map CounterRow.lastVersion).getD 0

def lastHash (log : PgLog) : Option (List UInt8) := log.counter.bind CounterRow.lastHash

/-- `select … where chain_hash is not null order by sync_version desc limit 1`. -/
def newestLinked (rows : List LogRow) : Option (Int × List UInt8) :=
  ((rows.filterMap fun r => r.chainHash.map fun hash => (r.syncVersion, hash)).insertionSort
    fun a b => b.1 ≤ a.1).head?

/-- `update mutations set chain_hash = … where sync_version = …`. -/
def setChainHash (version : Int) (hash : List UInt8) (rows : List LogRow) : List LogRow :=
  rows.map fun r => if r.syncVersion = version then { r with chainHash := some hash } else r

/-- One row of `chain_tip`'s loop. -/
def linkRow (codec : Codec) (acc : List UInt8 × List LogRow) (r : LogRow) :
    List UInt8 × List LogRow :=
  let chain := link codec acc.1 r.syncVersion r.mutationId r.record
  (chain, setChainHash r.syncVersion chain acc.2)

/-- `chain_tip`: the value at the head, and the log with its rows linked. -/
def chainTip (codec : Codec) (last : Int) (log : PgLog) : List UInt8 × PgLog :=
  if last = 0 then (genesis, log)
  else
    let (newest, chain) := (newestLinked log.mutations).getD (0, genesis)
    -- the cache is trusted only when the newest linked row is the head and has the same value
    if newest = last ∧ log.lastHash = some chain then (chain, log)
    else
      let rows := (log.mutations.filter fun r => newest < r.syncVersion).insertionSort fun a b =>
        a.syncVersion ≤ b.syncVersion
      let (chain, mutations) := rows.foldl (linkRow codec) (chain, log.mutations)
      (chain, { mutations, counter := log.counter.map fun c => { c with lastHash := some chain } })

/-- What the loop of `append_mutations` carries. -/
structure Appending where
  last : Int
  chain : List UInt8
  mutations : List LogRow
  versions : List (String × Int) := []

/-- One record of `append_mutations`. -/
def appendRow (codec : Codec) (acc : Appending) (record : MutationRecord) : Appending :=
  match acc.mutations.find? fun r => r.mutationId = record.id with
  | some row => { acc with versions := acc.versions ++ [(record.id, row.syncVersion)] }
  | none =>
    let last := acc.last + 1
    let chain := link codec acc.chain last record.id record.toValue
    { last
      chain
      mutations := acc.mutations ++ [⟨last, record.id, record.toValue, some chain⟩]
      versions := acc.versions ++ [(record.id, last)] }

/-- `append_mutations`, the log and the versions it answers. -/
def append (codec : Codec) (records : List MutationRecord) (log : PgLog) :
    List (String × Int) × PgLog :=
  let log := log.insertCounter
  let last := log.lastVersion
  let (chain, log) := log.chainTip codec last
  let acc := records.foldl (appendRow codec) { last, chain, mutations := log.mutations }
  (acc.versions, { mutations := acc.mutations
                   counter := log.counter.map fun _ => ⟨acc.last, some acc.chain⟩ })

/-- One record appended by a binary that knows no chain. -/
def appendOlderRow (acc : Int × List LogRow) (record : MutationRecord) : Int × List LogRow :=
  match acc.2.find? fun r => r.mutationId = record.id with
  | some _ => acc
  | none => (acc.1 + 1, acc.2 ++ [⟨acc.1 + 1, record.id, record.toValue, none⟩])

/-- An older binary's append: null chain values, and `last_hash` is not touched. -/
def appendOlder (records : List MutationRecord) (log : PgLog) : PgLog :=
  let log := log.insertCounter
  let (last, mutations) := records.foldl appendOlderRow (log.lastVersion, log.mutations)
  { mutations, counter := log.counter.map fun c => { c with lastVersion := last } }

/-- `PgStore::history_checkpoint`. -/
def historyCheckpoint (codec : Codec) (at_ : Int) (log : PgLog) : HistoryCheckpoint × PgLog :=
  let log := log.insertCounter
  let head := log.lastVersion
  let (headHash, log) := log.chainTip codec head
  let atHash := if at_ ≤ 0 then some genesis
    else if head < at_ then none
    else (log.mutations.find? fun r => r.syncVersion = at_).bind LogRow.chainHash
  ({ protocol := historyProtocol
     head
     headHash := hexEncode headHash
     at_ := max at_ 0
     atHash := atHash.map hexEncode }, log)

end PgLog

inductive PgLogOp where
  | append (records : List MutationRecord)
  | appendOlder (records : List MutationRecord)
  | historyCheckpoint (at_ : Int)

def PgLogOp.run (codec : Codec) (log : PgLog) : PgLogOp → PgLog
  | .append records => (log.append codec records).2
  | .appendOlder records => log.appendOlder records
  | .historyCheckpoint at_ => (log.historyCheckpoint codec at_).2

/-- The operations one after the other, each in its transaction. -/
def pgLogRun (codec : Codec) (start : PgLog) (ops : List PgLogOp) : PgLog :=
  ops.foldl (PgLogOp.run codec) start

/-! ### The invariant -/

/-- The first `k` rows have the fold up to them, the others have no value. -/
def LinkedTo (codec : Codec) (k : Nat) (rows : List LogRow) : Prop :=
  ∀ i r, rows[i]? = some r →
    r.chainHash = if i < k then some (rowsValue codec (rows.take (i + 1))) else none

/-- The rows count from 1, the counter counts them and the linked rows come first. -/
structure PgLog.Chained (codec : Codec) (log : PgLog) : Prop where
  counts : Versioned.Counts LogRow.syncVersion log.mutations
  counter : log.lastVersion = log.mutations.length
  linked : ∃ k ≤ log.mutations.length, LinkedTo codec k log.mutations

section Rows
variable {codec : Codec} {rows rows' : List LogRow} {k : Nat}

theorem rowsValue_concat (rows : List LogRow) (r : LogRow) :
    rowsValue codec (rows ++ [r]) =
      link codec (rowsValue codec rows) r.syncVersion r.mutationId r.record := by
  rw [rowsValue, List.map_append, List.map_singleton, HashChain.value_concat]
  rfl

/-- The value does not depend on what is linked. -/
theorem rowsValue_congr (h : rows.map LogRow.entry = rows'.map LogRow.entry) :
    rowsValue codec rows = rowsValue codec rows' := by
  rw [rowsValue, rowsValue, h]

theorem rowsValue_take_congr (h : rows.map LogRow.entry = rows'.map LogRow.entry) (n : Nat) :
    rowsValue codec (rows.take n) = rowsValue codec (rows'.take n) :=
  rowsValue_congr (by rw [List.map_take, List.map_take, h])

theorem rowsValue_succ {n : Nat} {r : LogRow} (hr : rows[n]? = some r) :
    rowsValue codec (rows.take (n + 1)) =
      link codec (rowsValue codec (rows.take n)) r.syncVersion r.mutationId r.record := by
  obtain ⟨hn, rfl⟩ := List.getElem?_eq_some_iff.1 hr
  rw [← List.take_concat_get' rows n hn, rowsValue_concat]

/-- The newest linked row is the last of the linked ones. -/
theorem newestLinked_eq (hcounts : Versioned.Counts LogRow.syncVersion rows)
    (hlinked : LinkedTo codec k rows) (hk : k ≤ rows.length) :
    (PgLog.newestLinked rows).getD (0, genesis) = ((k : Int), rowsValue codec (rows.take k)) := by
  have hmem : ∀ (v : Int) (hash : List UInt8),
      (v, hash) ∈ (rows.filterMap fun r => r.chainHash.map fun hash => (r.syncVersion, hash)).insertionSort
        (fun a b => b.1 ≤ a.1) ↔
        ∃ i < k, v = i + 1 ∧ hash = rowsValue codec (rows.take (i + 1)) := by
    intro v hash
    simp only [List.mem_insertionSort, List.mem_filterMap, Option.map_eq_some_iff, Prod.mk.injEq]
    constructor
    · rintro ⟨r, hr, hash', hhash, rfl, rfl⟩
      obtain ⟨i, hi, rfl⟩ := List.mem_iff_getElem.1 hr
      rw [hlinked i _ (List.getElem?_eq_getElem hi)] at hhash
      split_ifs at hhash with hik
      exact ⟨i, hik, hcounts.get hi, (Option.some.inj hhash).symm⟩
    · rintro ⟨i, hik, rfl, rfl⟩
      have hi : i < rows.length := by omega
      have hhash := hlinked i _ (List.getElem?_eq_getElem hi)
      rw [if_pos hik] at hhash
      exact ⟨rows[i], List.getElem_mem hi, _, hhash, hcounts.get hi, rfl⟩
  have hsorted := List.pairwise_insertionSort (fun a b : Int × List UInt8 => b.1 ≤ a.1)
    (rows.filterMap fun r => r.chainHash.map fun hash => (r.syncVersion, hash))
  rw [PgLog.newestLinked]
  cases hrows : (rows.filterMap fun r => r.chainHash.map fun hash => (r.syncVersion, hash)).insertionSort
      fun a b => b.1 ≤ a.1 with
  | nil =>
    rw [hrows] at hmem
    have hzero : k = 0 := by
      by_contra hpos
      exact List.not_mem_nil ((hmem 1 _).2 ⟨0, by omega, rfl, rfl⟩)
    subst hzero
    rfl
  | cons newest older =>
    obtain ⟨v, hash⟩ := newest
    rw [hrows] at hmem hsorted
    obtain ⟨i, hik, rfl, rfl⟩ := (hmem v hash).1 List.mem_cons_self
    have hle : ((k - 1 : Nat) : Int) + 1 ≤ (i : Int) + 1 := by
      rcases List.mem_cons.1 ((hmem _ _).2 ⟨k - 1, by omega, rfl, rfl⟩) with heq | hold
      · exact (Prod.mk.inj heq).1.le
      · exact (List.pairwise_cons.1 hsorted).1 _ hold
    obtain rfl : k = i + 1 := by omega
    simp

theorem setChainHash_entries (version : Int) (hash : List UInt8) (rows : List LogRow) :
    (PgLog.setChainHash version hash rows).map LogRow.entry = rows.map LogRow.entry := by
  rw [PgLog.setChainHash, List.map_map]
  refine List.map_congr_left fun r _ => ?_
  simp only [Function.comp_apply]
  split_ifs <;> rfl

/-- Versions are part of the entries. -/
theorem counts_congr (h : rows.map LogRow.entry = rows'.map LogRow.entry)
    (hcounts : Versioned.Counts LogRow.syncVersion rows) :
    Versioned.Counts LogRow.syncVersion rows' := by
  have hversions := congrArg (List.map Prod.fst) h
  have hlength := congrArg List.length h
  rw [List.map_map, List.map_map] at hversions
  rw [List.length_map, List.length_map] at hlength
  rw [Versioned.Counts, ← hlength]
  exact hversions.symm.trans hcounts

/-- Linking one more row. -/
theorem LinkedTo.setChainHash (hcounts : Versioned.Counts LogRow.syncVersion rows)
    (hlinked : LinkedTo codec k rows) (hk : k < rows.length) :
    LinkedTo codec (k + 1) (PgLog.setChainHash rows[k].syncVersion
      (rowsValue codec (rows.take (k + 1))) rows) := by
  intro i r' hr'
  rw [rowsValue_take_congr (setChainHash_entries _ _ _)]
  rw [PgLog.setChainHash, List.getElem?_map, Option.map_eq_some_iff] at hr'
  obtain ⟨old, hold, rfl⟩ := hr'
  have hversion : old.syncVersion = i + 1 := by
    obtain ⟨hi, rfl⟩ := List.getElem?_eq_some_iff.1 hold
    exact hcounts.get hi
  rw [hcounts.get hk, hversion]
  by_cases hik : i = k
  · subst hik
    simp
  · have hne : ¬((i : Int) + 1 = k + 1) := by omega
    have hplace : i < k + 1 ↔ i < k := by omega
    rw [if_neg hne, hlinked i old hold]
    simp only [hplace]

/-- The loop links the rows it was given, which are those behind the linked ones. -/
theorem foldl_linkRow {todo : List LogRow} (hcounts : Versioned.Counts LogRow.syncVersion rows)
    (hlinked : LinkedTo codec k rows) (hk : k ≤ rows.length)
    (htodo : todo.map LogRow.entry = (rows.map LogRow.entry).drop k)
    {chain : List UInt8} {linked : List LogRow}
    (hrun : todo.foldl (PgLog.linkRow codec) (rowsValue codec (rows.take k), rows) = (chain, linked)) :
    chain = rowsValue codec rows ∧ linked.map LogRow.entry = rows.map LogRow.entry ∧
      LinkedTo codec rows.length linked := by
  induction todo generalizing rows k with
  | nil =>
    have hlength := congrArg List.length htodo
    simp only [List.map_nil, List.length_nil, List.length_drop, List.length_map] at hlength
    obtain rfl : k = rows.length := by omega
    obtain ⟨rfl, rfl⟩ := Prod.mk.inj hrun
    exact ⟨by rw [List.take_length], rfl, hlinked⟩
  | cons first todo ih =>
    have hlt : k < rows.length := by
      have hlength := congrArg List.length htodo
      simp only [List.length_map, List.length_cons, List.length_drop] at hlength
      omega
    rw [List.drop_eq_getElem_cons (by rw [List.length_map]; exact hlt), List.map_cons,
      List.getElem_map, List.cons.injEq] at htodo
    obtain ⟨hfirst, hrest⟩ := htodo
    obtain ⟨hversion, hid, hrecord⟩ : first.syncVersion = rows[k].syncVersion ∧
        first.mutationId = rows[k].mutationId ∧ first.record = rows[k].record := by
      simpa [LogRow.entry] using hfirst
    have hentries := setChainHash_entries rows[k].syncVersion (rowsValue codec (rows.take (k + 1))) rows
    have hnextLinked := hlinked.setChainHash hcounts hlt
    -- the row is linked, and the loop goes on with the table it leaves
    have hstep : PgLog.linkRow codec (rowsValue codec (rows.take k), rows) first =
        (rowsValue codec (rows.take (k + 1)), PgLog.setChainHash rows[k].syncVersion
          (rowsValue codec (rows.take (k + 1))) rows) := by
      simp only [PgLog.linkRow]
      rw [hversion, hid, hrecord, ← rowsValue_succ (List.getElem?_eq_getElem hlt)]
    rw [List.foldl_cons, hstep] at hrun
    generalize PgLog.setChainHash rows[k].syncVersion (rowsValue codec (rows.take (k + 1))) rows = next
      at hentries hnextLinked hrun
    have hlength : next.length = rows.length := by
      simpa using congrArg List.length hentries
    rw [← rowsValue_take_congr hentries] at hrun
    obtain ⟨hchain, hlinkedEntries, hall⟩ := ih (counts_congr hentries.symm hcounts) hnextLinked
      (by omega) (hentries ▸ hrest) hrun
    exact ⟨hchain.trans (rowsValue_congr hentries), hlinkedEntries.trans hentries, hlength ▸ hall⟩

/-- A new row behind the others, linked or not. -/
theorem LinkedTo.concat {k' : Nat} {r : LogRow} (h : LinkedTo codec k rows)
    (hr : r.chainHash = if rows.length < k' then some (rowsValue codec (rows ++ [r])) else none)
    (hk' : k' = k ∨ k = rows.length ∧ k' = rows.length + 1) : LinkedTo codec k' (rows ++ [r]) := by
  intro i r' hr'
  rcases lt_trichotomy i rows.length with hlt | rfl | hgt
  · rw [List.getElem?_append_left hlt] at hr'
    have hplace : i < k ↔ i < k' := by omega
    rw [h i r' hr', List.take_append_of_le_length (by omega)]
    simp only [hplace]
  · rw [List.getElem?_concat_length, Option.some_inj] at hr'
    subst hr'
    rw [hr, List.take_of_length_le (by simp)]
  · rw [List.getElem?_eq_none (by simp; omega)] at hr'
    cases hr'

end Rows

namespace PgLog
variable {codec : Codec} {log : PgLog}

theorem lastVersion_insertCounter (log : PgLog) : log.insertCounter.lastVersion = log.lastVersion := by
  cases hcounter : log.counter <;> simp [insertCounter, lastVersion, hcounter]

theorem lastHash_insertCounter (log : PgLog) : log.insertCounter.lastHash = log.lastHash := by
  cases hcounter : log.counter <;> simp [insertCounter, lastHash, hcounter]

theorem Chained.insertCounter (h : log.Chained codec) : log.insertCounter.Chained codec :=
  ⟨h.counts, log.lastVersion_insertCounter.trans h.counter, h.linked⟩

/-- Every row is linked to the fold up to it, and nothing else of the log has moved. -/
structure Complete (codec : Codec) (before after : PgLog) : Prop where
  entries : after.mutations.map LogRow.entry = before.mutations.map LogRow.entry
  lastVersion : after.lastVersion = before.lastVersion
  counterRow : before.counter.isSome → after.counter.isSome
  linked : LinkedTo codec before.mutations.length after.mutations

theorem Complete.length {before after : PgLog} (h : Complete codec before after) :
    after.mutations.length = before.mutations.length := by
  simpa using congrArg List.length h.entries

theorem Complete.chained {before after : PgLog} (h : Complete codec before after)
    (hbefore : before.Chained codec) : after.Chained codec where
  counts := counts_congr h.entries.symm hbefore.counts
  counter := by rw [h.lastVersion, hbefore.counter, h.length]
  linked := ⟨before.mutations.length, h.length.ge, h.linked⟩

/-- `chain_tip` answers the value at the head and links every row; unless the log is empty, the cache
has that value afterwards. -/
theorem chainTip_complete (h : log.Chained codec) {chain : List UInt8} {after : PgLog}
    (hrun : log.chainTip codec log.lastVersion = (chain, after)) :
    chain = rowsValue codec log.mutations ∧ Complete codec log after ∧
    (log.mutations = [] → after = log) ∧
    (log.mutations ≠ [] → after.lastHash = some (rowsValue codec log.mutations)) := by
  have hcounter := h.counter
  rw [chainTip] at hrun
  split_ifs at hrun with hzero
  · obtain ⟨rfl, rfl⟩ := Prod.mk.inj hrun
    have hnil : log.mutations = [] := List.eq_nil_of_length_eq_zero (by omega)
    refine ⟨by rw [hnil]; rfl, ⟨rfl, rfl, id, ?_⟩, fun _ => rfl, fun hne => absurd hnil hne⟩
    intro i r hr
    rw [hnil] at hr
    cases hr
  · obtain ⟨k, hk, hlinked⟩ := h.linked
    have hne : log.mutations ≠ [] := by
      intro hnil
      rw [hnil] at hcounter
      exact hzero hcounter
    simp only [newestLinked_eq h.counts hlinked hk, h.counts.filter_lt] at hrun
    split_ifs at hrun with htrusted
    · obtain ⟨rfl, rfl⟩ := Prod.mk.inj hrun
      obtain ⟨hhead, hcached⟩ := htrusted
      obtain rfl : k = log.mutations.length := by omega
      rw [List.take_length] at hcached ⊢
      exact ⟨rfl, ⟨rfl, rfl, id, hlinked⟩, fun hnil => absurd hnil hne, fun _ => hcached⟩
    · have hsorted : (log.mutations.drop k).Pairwise fun a b => a.syncVersion ≤ b.syncVersion :=
        h.counts.sorted.sublist (List.drop_sublist _ _)
      rw [hsorted.insertionSort_eq] at hrun
      obtain ⟨rfl, rfl⟩ := Prod.mk.inj hrun
      obtain ⟨hchain, hentries, hall⟩ := foldl_linkRow h.counts hlinked hk
        (List.map_drop (f := LogRow.entry)) rfl
      obtain ⟨row, hrow⟩ : ∃ row, log.counter = some row := by
        cases hrow : log.counter with
        | some row => exact ⟨row, rfl⟩
        | none =>
          rw [lastVersion, hrow] at hzero
          exact absurd rfl hzero
      refine ⟨hchain, ⟨hentries, ?_, ?_, hall⟩, fun hnil => absurd hnil hne, fun _ => ?_⟩
      · simp [lastVersion, hrow]
      · simp [hrow]
      · simp [lastHash, hrow, hchain]

/-- The loop of an append is where the log is complete. -/
structure Appending.Complete (codec : Codec) (acc : Appending) : Prop where
  counts : Versioned.Counts LogRow.syncVersion acc.mutations
  last : acc.last = acc.mutations.length
  chain : acc.chain = rowsValue codec acc.mutations
  linked : LinkedTo codec acc.mutations.length acc.mutations

theorem Appending.Complete.appendRow {acc : Appending} (h : acc.Complete codec)
    (record : MutationRecord) : (appendRow codec acc record).Complete codec := by
  rw [PgLog.appendRow]
  split
  · exact ⟨h.counts, h.last, h.chain, h.linked⟩
  · have hvalue : link codec acc.chain (acc.last + 1) record.id record.toValue =
        rowsValue codec (acc.mutations ++ [⟨acc.last + 1, record.id, record.toValue,
          some (link codec acc.chain (acc.last + 1) record.id record.toValue)⟩]) := by
      rw [rowsValue_concat, ← h.chain]
    refine ⟨h.counts.concat (by rw [h.last]), ?_, hvalue, ?_⟩
    · rw [h.last, List.length_append, List.length_singleton]
      push_cast
      rfl
    · rw [List.length_append, List.length_singleton]
      refine h.linked.concat ?_ (.inr ⟨rfl, rfl⟩)
      rw [if_pos (Nat.lt_succ_self _)]
      exact congrArg some hvalue

theorem Appending.Complete.foldl {acc : Appending} (h : acc.Complete codec)
    (records : List MutationRecord) : (records.foldl (PgLog.appendRow codec) acc).Complete codec := by
  induction records generalizing acc with
  | nil => exact h
  | cons record records ih => exact ih (h.appendRow record)

theorem append_complete (h : log.Chained codec) (records : List MutationRecord) :
    let after := (log.append codec records).2
    after.Chained codec ∧ LinkedTo codec after.mutations.length after.mutations ∧
      after.lastHash = some (rowsValue codec after.mutations) := by
  have hinserted := h.insertCounter
  obtain ⟨chain, tip, hrun⟩ : ∃ chain tip,
      log.insertCounter.chainTip codec log.insertCounter.lastVersion = (chain, tip) := ⟨_, _, rfl⟩
  obtain ⟨hchain, hcomplete, -, -⟩ := chainTip_complete hinserted hrun
  have htip := hcomplete.chained hinserted
  have hstart : Appending.Complete codec
      { last := log.insertCounter.lastVersion, chain, mutations := tip.mutations } := by
    refine ⟨htip.counts, ?_, ?_, hcomplete.length ▸ hcomplete.linked⟩
    · exact hcomplete.lastVersion.symm.trans htip.counter
    · exact hchain.trans (rowsValue_congr hcomplete.entries.symm)
  have hend := hstart.foldl records
  obtain ⟨row, hrow⟩ := Option.isSome_iff_exists.1 (hcomplete.counterRow rfl)
  simp only [append, hrun]
  refine ⟨⟨hend.counts, ?_, _, le_rfl, hend.linked⟩, hend.linked, ?_⟩
  · rw [lastVersion, hrow, Option.map_some, Option.map_some, Option.getD_some]
    exact hend.last
  · rw [lastHash, hrow, Option.map_some, Option.bind_some]
    exact congrArg some hend.chain

/-- An older binary leaves the linked rows where they are. -/
theorem appendOlder_chained (h : log.Chained codec) (records : List MutationRecord) :
    (log.appendOlder records).Chained codec := by
  have hinserted := h.insertCounter
  obtain ⟨k, hk, hlinked⟩ := hinserted.linked
  have hloop : ∀ (records : List MutationRecord) (acc : Int × List LogRow),
      Versioned.Counts LogRow.syncVersion acc.2 → acc.1 = acc.2.length → k ≤ acc.2.length →
      LinkedTo codec k acc.2 →
      let acc' := records.foldl appendOlderRow acc
      Versioned.Counts LogRow.syncVersion acc'.2 ∧ acc'.1 = acc'.2.length ∧ k ≤ acc'.2.length ∧
        LinkedTo codec k acc'.2 := by
    intro records
    induction records with
    | nil => exact fun acc hcounts hlast hk hlinked => ⟨hcounts, hlast, hk, hlinked⟩
    | cons record records ih =>
      intro acc hcounts hlast hk hlinked
      rw [List.foldl_cons, appendOlderRow]
      split
      · exact ih acc hcounts hlast hk hlinked
      · refine ih _ (hcounts.concat (by rw [hlast])) ?_ ?_ (hlinked.concat ?_ (.inl rfl))
        · simp only [List.length_append, List.length_singleton, hlast]
          push_cast
          rfl
        · simp only [List.length_append, List.length_singleton]
          omega
        · rw [if_neg (by omega)]
  obtain ⟨hcounts, hlast, hk, hlinked⟩ := hloop records
    (log.insertCounter.lastVersion, log.insertCounter.mutations) hinserted.counts hinserted.counter hk
    hlinked
  refine ⟨hcounts, ?_, k, hk, hlinked⟩
  have hrow : log.insertCounter.counter = some (log.counter.getD ⟨0, none⟩) := rfl
  simp only [appendOlder, lastVersion, hrow, Option.map_some, Option.getD_some]
  exact hlast

/-- A checkpoint links every row and answers the folds. The cache has the value at the head afterwards,
unless the log is empty. -/
theorem historyCheckpoint_complete (h : log.Chained codec) (at_ : Int) :
    (log.historyCheckpoint codec at_).2.Chained codec ∧
    Complete codec log (log.historyCheckpoint codec at_).2 ∧
    (log.mutations = [] → (log.historyCheckpoint codec at_).2.lastHash = log.lastHash) ∧
    (log.mutations ≠ [] →
      (log.historyCheckpoint codec at_).2.lastHash = some (rowsValue codec log.mutations)) ∧
    (log.historyCheckpoint codec at_).1.head = log.mutations.length ∧
    (log.historyCheckpoint codec at_).1.headHash = hexEncode (rowsValue codec log.mutations) ∧
    (log.historyCheckpoint codec at_).1.at_ = max at_ 0 ∧
    (log.historyCheckpoint codec at_).1.atHash = if (log.mutations.length : Int) < at_ then none
      else some (hexEncode (rowsValue codec (log.mutations.take at_.toNat))) := by
  have hinserted := h.insertCounter
  obtain ⟨chain, tip, htip⟩ : ∃ chain tip,
      log.insertCounter.chainTip codec log.insertCounter.lastVersion = (chain, tip) := ⟨_, _, rfl⟩
  obtain ⟨hchain, hcomplete, hempty, hcache⟩ := chainTip_complete hinserted htip
  have hchained := hcomplete.chained hinserted
  have hhead : log.insertCounter.lastVersion = log.mutations.length := hinserted.counter
  simp only [historyCheckpoint, htip]
  refine ⟨hchained, ⟨hcomplete.entries, ?_, fun _ => hcomplete.counterRow rfl, hcomplete.linked⟩,
    fun hnil => ?_, hcache, hhead, congrArg hexEncode hchain, trivial, ?_⟩
  · exact hcomplete.lastVersion.trans log.lastVersion_insertCounter
  · rw [hempty hnil, log.lastHash_insertCounter]
  · rw [hhead]
    rcases le_or_gt at_ 0 with hneg | hpos
    · have hzero : at_.toNat = 0 := by omega
      rw [if_pos hneg, if_neg (by omega), hzero]
      rfl
    · rw [if_neg (by omega)]
      split_ifs with hpast
      · rfl
      · -- the row of the version is linked, and its value is the fold up to it
        obtain ⟨n, rfl⟩ : ∃ n : Nat, at_ = (n : Int) + 1 := ⟨(at_ - 1).toNat, by omega⟩
        have hn : n < tip.mutations.length := by
          have hlength := hcomplete.length
          simp only [insertCounter] at hlength
          omega
        have hfold := @rowsValue_take_congr codec _ _ hcomplete.entries (n + 1)
        have hindex : ((n : Int) + 1).toNat = n + 1 := by omega
        rw [hchained.counts.find?, List.getElem?_eq_getElem hn, Option.bind_some,
          hcomplete.linked n _ (List.getElem?_eq_getElem hn), if_pos (hcomplete.length ▸ hn), hfold,
          hindex]
        rfl

end PgLog

theorem PgLog.Chained.run {codec : Codec} {log : PgLog} (h : log.Chained codec) (op : PgLogOp) :
    (op.run codec log).Chained codec := by
  cases op with
  | append records => exact (PgLog.append_complete h records).1
  | appendOlder records => exact PgLog.appendOlder_chained h records
  | historyCheckpoint at_ => exact (PgLog.historyCheckpoint_complete h at_).1

theorem PgLog.Chained.runs {codec : Codec} {start : PgLog} (h : start.Chained codec)
    (ops : List PgLogOp) : (pgLogRun codec start ops).Chained codec := by
  induction ops generalizing start with
  | nil => exact h
  | cons op ops ih => exact ih (h.run op)

/-- A log from before the chain: no row has a value. -/
structure PgLog.Unlinked (log : PgLog) : Prop where
  counts : Versioned.Counts LogRow.syncVersion log.mutations
  counter : log.lastVersion = log.mutations.length
  rows : ∀ r ∈ log.mutations, r.chainHash = none

theorem PgLog.Unlinked.chained {log : PgLog} (h : log.Unlinked) (codec : Codec) :
    log.Chained codec :=
  ⟨h.counts, h.counter, 0, Nat.zero_le _, fun _ r hr => h.rows r (List.mem_of_getElem? hr)⟩

/-- The fold of `history::link` from `GENESIS` over the rows up to a version. -/
def PgLog.valueAt (codec : Codec) (log : PgLog) (version : Int) : List UInt8 :=
  rowsValue codec (log.mutations.take version.toNat)

/-- The server binary that keeps the chain. -/
def PgLogOp.Current : PgLogOp → Prop
  | .appendOlder _ => False
  | _ => True

/-- From a log without chain values, appends of the current and of an older binary and checkpoints in any
order: the linked rows are the first versions, each with the fold up to it. After an operation of the
current binary every row is linked and the cache has the value at the head, except that a checkpoint of an
empty log leaves the cache as it was. Every value a checkpoint answers is the fold at its version. -/
theorem chain_linked_lazily (codec : Codec) (start : PgLog) (hstart : start.Unlinked)
    (ops : List PgLogOp) :
    let log := pgLogRun codec start ops
    (∃ k : Nat, ∀ r ∈ log.mutations, r.chainHash.isSome ↔ r.syncVersion ≤ k) ∧
    (∀ r ∈ log.mutations, ∀ hash, r.chainHash = some hash →
      hash = log.valueAt codec r.syncVersion) ∧
    (∀ op : PgLogOp, op.Current →
      let after := op.run codec log
      (∀ r ∈ after.mutations, r.chainHash.isSome) ∧
      (after.lastHash = some (after.valueAt codec after.lastVersion) ∨
        log.mutations = [] ∧ (∃ at_, op = .historyCheckpoint at_) ∧ after.lastHash = log.lastHash)) ∧
    ∀ at_ : Int,
      let checkpoint := (log.historyCheckpoint codec at_).1
      checkpoint.headHash = hexEncode (log.valueAt codec checkpoint.head) ∧
      ∀ hash, checkpoint.atHash = some hash → hash = hexEncode (log.valueAt codec checkpoint.at_) := by
  intro log
  have hlog : log.Chained codec := (hstart.chained codec).runs ops
  have hall : ∀ {log : PgLog}, log.Chained codec → LinkedTo codec log.mutations.length log.mutations →
      ∀ r ∈ log.mutations, r.chainHash.isSome := by
    intro log _ hlinked r hr
    obtain ⟨i, hi, rfl⟩ := List.mem_iff_getElem.1 hr
    rw [hlinked i _ (List.getElem?_eq_getElem hi), if_pos hi]
    rfl
  have hhead : ∀ {log : PgLog}, log.Chained codec →
      log.valueAt codec log.lastVersion = rowsValue codec log.mutations := by
    intro log h
    rw [PgLog.valueAt, h.counter, Int.toNat_natCast, List.take_length]
  refine ⟨?_, fun r hr hash hhash => ?_, fun op hcurrent => ?_, fun at_ => ?_⟩
  · obtain ⟨k, -, hlinked⟩ := hlog.linked
    refine ⟨k, fun r hr => ?_⟩
    obtain ⟨i, hi, rfl⟩ := List.mem_iff_getElem.1 hr
    rw [hlinked i _ (List.getElem?_eq_getElem hi), hlog.counts.get hi]
    split_ifs with hik
    · exact iff_of_true rfl (by omega)
    · exact iff_of_false Bool.false_ne_true (by omega)
  · obtain ⟨k, -, hlinked⟩ := hlog.linked
    obtain ⟨i, hi, rfl⟩ := List.mem_iff_getElem.1 hr
    rw [hlinked i _ (List.getElem?_eq_getElem hi)] at hhash
    split_ifs at hhash
    rw [PgLog.valueAt, hlog.counts.get hi]
    exact (Option.some.inj hhash).symm
  · cases op with
    | appendOlder records => exact hcurrent.elim
    | append records =>
      obtain ⟨hchained, hlinked, hcache⟩ := PgLog.append_complete hlog records
      exact ⟨hall hchained hlinked, .inl (hcache.trans (congrArg some (hhead hchained).symm))⟩
    | historyCheckpoint at_ =>
      obtain ⟨hchained, hcomplete, hempty, hcache, -⟩ :=
        PgLog.historyCheckpoint_complete hlog at_
      refine ⟨hall hchained (hcomplete.length ▸ hcomplete.linked), ?_⟩
      by_cases hnil : log.mutations = []
      · exact .inr ⟨hnil, ⟨at_, rfl⟩, hempty hnil⟩
      · refine .inl ((hcache hnil).trans (congrArg some ?_))
        exact (rowsValue_congr hcomplete.entries.symm).trans (hhead hchained).symm
  · obtain ⟨-, -, -, -, hcount, hheadHash, hat, hatHash⟩ :=
      PgLog.historyCheckpoint_complete hlog at_
    refine ⟨?_, fun hash hhash => ?_⟩
    · rw [hheadHash, hcount, ← hlog.counter, hhead hlog]
    · rw [hatHash] at hhash
      split_ifs at hhash
      rw [hat, PgLog.valueAt, ← Option.some.inj hhash]
      have hindex : (max at_ 0).toNat = at_.toNat := by omega
      rw [hindex]

/-- Two rows from before the chain. -/
def olderLog : PgLog where
  mutations := [⟨1, "a", .null, none⟩, ⟨2, "b", .null, none⟩]
  counter := some ⟨2, none⟩

/-- Old rows, an append of either binary and a checkpoint: all rows are linked. -/
theorem chain_linked_lazily_older :
    (((PgLogOp.historyCheckpoint 0).run serdeCodec (pgLogRun serdeCodec olderLog
      [.append [note "c"], .appendOlder [note "d"]])).mutations.all fun r => r.chainHash.isSome) = true :=
  List.all_eq_true.2 ((chain_linked_lazily serdeCodec olderLog ⟨rfl, rfl, by simp [olderLog]⟩ _).2.2.1
    (.historyCheckpoint 0) trivial).1

/-- A checkpoint of an empty log answers `GENESIS` and caches nothing. -/
theorem empty_checkpoint_uncached :
    let log := pgLogRun serdeCodec {} [.historyCheckpoint 0]
    PgLog.Unlinked {} ∧ log.lastHash ≠ some (log.valueAt serdeCodec log.lastVersion) :=
  ⟨⟨rfl, rfl, fun _ hr => absurd hr List.not_mem_nil⟩, fun h => nomatch h⟩

end AtlasTeam
