import AtlasTeam.Lib.HashChain
import AtlasTeam.Store.SyncLog

/-!
# The history chain

The chain over a company's log is a hash chain (`chainValue`), and in every run of appends it has the
value of every version (`Linked`). The text a link hashes can be taken apart again: its first 40 bytes and
its last 33 have fixed places, so what is left is the mutation id (`linkText_inj`). SHA-256 has collisions
somewhere, so it is assumed only that the two chains in question meet none (`Codec.Unambiguous`). Then a
checkpoint names its log up to its version (`chain_identifies_prefix`).
-/

namespace AtlasTeam

/-! ### Bytes -/

/-- Bytes read by position are the bytes. -/
theorem byteArray_toList_eq (bytes : ByteArray) : bytes.toList = bytes.data.toList := by
  have hloop : ∀ n i r, bytes.size - i = n →
      ByteArray.toList.loop bytes i r = r.reverse ++ bytes.data.toList.drop i := by
    intro n
    induction n with
    | zero =>
      intro i r hi
      have hdrop : bytes.data.toList.drop i = [] := by
        refine List.drop_of_length_le ?_
        simp only [Array.length_toList, ByteArray.size_data]
        omega
      rw [ByteArray.toList.loop, if_neg (by omega), hdrop, List.append_nil]
    | succ n ih =>
      intro i r hi
      have hlt : i < bytes.data.toList.length := by
        simp only [Array.length_toList, ByteArray.size_data]
        omega
      have hget : bytes.get! i = bytes.data.toList[i] := by
        show bytes.data[i]! = _
        rw [getElem!_pos bytes.data i hlt, Array.getElem_toList]
      rw [ByteArray.toList.loop, if_pos (by omega), ih (i + 1) _ (by omega), hget,
        List.drop_eq_getElem_cons hlt, List.reverse_cons, List.append_assoc, List.singleton_append]
  exact hloop _ 0 [] rfl

theorem utf8_injective {s s' : String} (h : s.toUTF8.toList = s'.toUTF8.toList) : s = s' := by
  rw [byteArray_toList_eq, byteArray_toList_eq] at h
  exact String.toByteArray_inj.1 (ByteArray.ext (Array.toList_inj.1 h))

/-- `hex::encode`. -/
def hexEncode (bytes : List UInt8) : String :=
  String.ofList (bytes.flatMap fun b => [Nat.digitChar (b.toNat / 16), Nat.digitChar (b.toNat % 16)])

theorem digitChar_injective : ∀ a < 16, ∀ b < 16, Nat.digitChar a = Nat.digitChar b → a = b := by
  decide

theorem hexEncode_injective {bytes bytes' : List UInt8} (h : hexEncode bytes = hexEncode bytes') :
    bytes = bytes' := by
  have hchars := String.ofList_injective h
  clear h
  induction bytes generalizing bytes' with
  | nil =>
    cases bytes' with
    | nil => rfl
    | cons b' bytes' => simp at hchars
  | cons b bytes ih =>
    cases bytes' with
    | nil => simp at hchars
    | cons b' bytes' =>
      simp only [List.flatMap_cons, List.cons_append, List.nil_append, List.cons.injEq] at hchars
      obtain ⟨hhigh, hlow, hrest⟩ := hchars
      have hb := b.toNat_lt
      have hb' := b'.toNat_lt
      have hhigh := digitChar_injective _ (by omega) _ (by omega) hhigh
      have hlow := digitChar_injective _ (by omega) _ (by omega) hlow
      have hbyte : b = b' := UInt8.toNat.inj (by omega)
      rw [hbyte, ih hrest]

/-! ### What a link hashes -/

/-- The text `link` hashes. -/
def linkText (prev : List UInt8) (version : Int) (mutationId : String) (digest : List UInt8) :
    List UInt8 :=
  prev ++ toBeBytes version ++ mutationId.toUTF8.toList ++ [0] ++ digest

/-- The text of a link can be taken apart: its value before, its id and its digest. -/
theorem linkText_inj {prev prev' digest digest' : List UInt8} {version : Int} {id id' : String}
    (hprev : prev.length = prev'.length) (hdigest : digest.length = digest'.length)
    (h : linkText prev version id digest = linkText prev' version id' digest') :
    prev = prev' ∧ id = id' ∧ digest = digest' := by
  obtain ⟨hfront, hdigest⟩ := List.append_inj' h hdigest
  obtain ⟨hfront, -⟩ := List.append_inj' hfront rfl
  have hplace : (prev ++ toBeBytes version).length = (prev' ++ toBeBytes version).length := by
    rw [List.length_append, List.length_append, hprev]
  obtain ⟨hfront, hid⟩ := List.append_inj hfront hplace
  exact ⟨(List.append_inj hfront hprev).1, utf8_injective hid, hdigest⟩

/-- The record without the version the log gave it. -/
def MutationRecord.unversioned (r : MutationRecord) : MutationRecord := { r with syncVersion := none }

/-- The value of a record that is hashed. -/
def MutationRecord.hashed (r : MutationRecord) : Value :=
  match r.toValue with
  | .object m => .object (Map.remove m "syncVersion")
  | other => other

theorem MutationRecord.canonical_eq (codec : Codec) (r : MutationRecord) :
    canonical codec r.toValue = match codec.toBytes r.hashed with
      | .ok bytes => bytes
      | .error _ => [] :=
  rfl

/-- A field of the hashed value. -/
theorem MutationRecord.get_hashed (r : MutationRecord) {key : String} (hkey : key ≠ "syncVersion") :
    r.hashed.get key = r.toValue.get key :=
  Map.get_remove_ne _ hkey

theorem mutationType_asStr_injective {a b : MutationType} (h : a.asStr = b.asStr) : a = b := by
  cases a <;> cases b <;> first | rfl | exact absurd h (by decide)

theorem mutationStatus_asStr_injective {a b : MutationStatus} (h : a.asStr = b.asStr) : a = b := by
  cases a <;> cases b <;> first | rfl | exact absurd h (by decide)

theorem MutationRecord.hashed_unversioned (r : MutationRecord) : r.unversioned.hashed = r.hashed := by
  refine congrArg Value.object (SortedMap.Raw.Ordered.ext
    ((SortedMap.Raw.ordered_ofList _).drop _) ((SortedMap.Raw.ordered_ofList _).drop _) fun key => ?_)
  simp only [Map.remove]
  by_cases hkey : key = "syncVersion"
  · rw [hkey, SortedMap.Raw.lookup_drop_self, SortedMap.Raw.lookup_drop_self]
  · have hb : (key == "syncVersion") = false := beq_false_of_ne hkey
    rw [SortedMap.Raw.lookup_drop_ne hkey, SortedMap.Raw.lookup_drop_ne hkey,
      SortedMap.Raw.lookup_ofList, SortedMap.Raw.lookup_ofList]
    simp [List.lookup_cons, MutationRecord.unversioned, hb]

/-- The hashed value has everything of the record but its version. -/
theorem MutationRecord.hashed_eq_iff (r r' : MutationRecord) :
    r.hashed = r'.hashed ↔ r.unversioned = r'.unversioned := by
  constructor
  · intro h
    have hfield : ∀ key, key ≠ "syncVersion" → r.toValue.get key = r'.toValue.get key := by
      intro key hkey
      rw [← r.get_hashed hkey, ← r'.get_hashed hkey, h]
    simp only [MutationRecord.toValue, Value.get_obj, List.reverse_cons, List.reverse_nil,
      List.nil_append, List.cons_append, List.lookup_cons] at hfield
    have hid : r.id = r'.id := by simpa using hfield "id" (by decide)
    have htype : r.mutationType.asStr = r'.mutationType.asStr := by
      simpa using hfield "type" (by decide)
    have hdocType : r.docType = r'.docType := by simpa using hfield "docType" (by decide)
    have hdocumentId : r.documentId = r'.documentId := by
      simpa using hfield "documentId" (by decide)
    have hpayload : r.payload = r'.payload := by simpa using hfield "payload" (by decide)
    have hdevice : r.deviceId = r'.deviceId := by simpa using hfield "deviceId" (by decide)
    have huser : r.userId = r'.userId := by simpa using hfield "userId" (by decide)
    have htime : r.localTimestamp = r'.localTimestamp := by
      simpa [Value.int] using hfield "localTimestamp" (by decide)
    have hstatus : r.status.asStr = r'.status.asStr := by simpa using hfield "status" (by decide)
    simp only [MutationRecord.unversioned, MutationRecord.mk.injEq]
    exact ⟨hid, mutationType_asStr_injective htype, hdocType, hdocumentId, hpayload, hdevice, huser,
      htime, trivial, mutationStatus_asStr_injective hstatus⟩
  · intro h
    rw [← r.hashed_unversioned, h, r'.hashed_unversioned]

/-! ### The chain of a log -/

/-- One link of the chain: the entry at a position has the version after it. -/
def chainStep (codec : Codec) (position : Nat) (prev : List UInt8) (r : MutationRecord) : List UInt8 :=
  link codec prev (position + 1) r.id r.toValue

/-- The fold of `history::link` from `GENESIS` over the records of a log. -/
def chainValue (codec : Codec) (records : List MutationRecord) : List UInt8 :=
  HashChain.value (chainStep codec) genesis records

theorem chainStep_eq (codec : Codec) (position : Nat) (prev : List UInt8) (r : MutationRecord) :
    chainStep codec position prev r = codec.sha256 (linkText prev (position + 1) r.id
      (codec.sha256 (canonical codec r.toValue))) :=
  rfl

/-- The chain does not see the versions written into records. -/
theorem chainValue_unversioned (codec : Codec) (records : List MutationRecord) :
    chainValue codec records = chainValue codec (records.map MutationRecord.unversioned) := by
  refine HashChain.value_map MutationRecord.unversioned (fun n v r => ?_) records
  rw [chainStep_eq, chainStep_eq, r.canonical_eq, r.unversioned.canonical_eq, r.hashed_unversioned]
  rfl

/-- Every text the chain of a log hashes. -/
def hashedTexts (codec : Codec) (records : List MutationRecord) : List (List UInt8) :=
  records.map (fun r => canonical codec r.toValue) ++
    records.mapIdx fun i r => linkText (chainValue codec (records.take i)) (i + 1) r.id
      (codec.sha256 (canonical codec r.toValue))

/-- serde_json renders no two different records of the logs alike, and SHA-256 gives 32 bytes and
meets no collision among the texts the two chains hash. -/
structure Codec.Unambiguous (codec : Codec) (records records' : List MutationRecord) : Prop where
  renders : ∀ r ∈ records ++ records', ∃ bytes, codec.toBytes r.hashed = .ok bytes
  injective : ∀ r ∈ records, ∀ r' ∈ records', codec.toBytes r.hashed = codec.toBytes r'.hashed →
    r.hashed = r'.hashed
  length : ∀ text ∈ hashedTexts codec records ++ hashedTexts codec records',
    (codec.sha256 text).length = 32
  collision : ∀ text ∈ hashedTexts codec records, ∀ text' ∈ hashedTexts codec records',
    codec.sha256 text = codec.sha256 text' → text = text'

section Chain
variable {codec : Codec} {records records' : List MutationRecord}

theorem canonical_mem_hashedTexts {r : MutationRecord} (hr : r ∈ records) :
    canonical codec r.toValue ∈ hashedTexts codec records :=
  List.mem_append_left _ (List.mem_map_of_mem hr)

theorem linkText_mem_hashedTexts {n : Nat} {r : MutationRecord} (hr : records[n]? = some r) :
    linkText (chainValue codec (records.take n)) (n + 1) r.id
      (codec.sha256 (canonical codec r.toValue)) ∈ hashedTexts codec records := by
  refine List.mem_append_right _ (List.mem_iff_getElem?.2 ⟨n, ?_⟩)
  rw [List.getElem?_mapIdx, hr, Option.map_some]

theorem chainValue_succ {n : Nat} {r : MutationRecord} (hr : records[n]? = some r) :
    chainValue codec (records.take (n + 1)) = chainStep codec n (chainValue codec (records.take n)) r := by
  obtain ⟨hn, rfl⟩ := List.getElem?_eq_some_iff.1 hr
  rw [← List.take_concat_get' records n hn, chainValue, HashChain.value_concat, List.length_take,
    Nat.min_eq_left (Nat.le_of_lt hn), chainValue]

/-- A value of the chain has 32 bytes. -/
theorem length_chainValue (hlength : ∀ text ∈ hashedTexts codec records,
    (codec.sha256 text).length = 32) {n : Nat} (hn : n ≤ records.length) :
    (chainValue codec (records.take n)).length = 32 := by
  cases n with
  | zero => rfl
  | succ n =>
    have hr : records[n]? = some records[n] := List.getElem?_eq_getElem hn
    rw [chainValue_succ hr, chainStep_eq]
    exact hlength _ (linkText_mem_hashedTexts hr)

/-- Two chains without ambiguity nowhere link different entries to one value. -/
theorem Codec.Unambiguous.apart (h : codec.Unambiguous records records') :
    HashChain.Apart (chainStep codec) genesis (records.map MutationRecord.unversioned)
      (records'.map MutationRecord.unversioned) := by
  intro n e e' he he' hstep
  rw [List.getElem?_map, Option.map_eq_some_iff] at he he'
  obtain ⟨r, hr, rfl⟩ := he
  obtain ⟨r', hr', rfl⟩ := he'
  have hn := (List.getElem?_eq_some_iff.1 hr).1
  have hn' := (List.getElem?_eq_some_iff.1 hr').1
  have hmem := List.mem_of_getElem? hr
  have hmem' := List.mem_of_getElem? hr'
  have htake : ∀ records : List MutationRecord, HashChain.value (chainStep codec) genesis
      ((records.map MutationRecord.unversioned).take n) = chainValue codec (records.take n) := by
    intro records
    rw [← List.map_take]
    exact (chainValue_unversioned codec _).symm
  have hcanonical : ∀ r : MutationRecord, canonical codec r.unversioned.toValue =
      canonical codec r.toValue := fun r => by
    rw [r.canonical_eq, r.unversioned.canonical_eq, r.hashed_unversioned]
  rw [htake, htake] at hstep ⊢
  rw [chainStep_eq, chainStep_eq, hcanonical, hcanonical] at hstep
  -- the two texts are the same, and so are their parts
  have htext := h.collision _ (linkText_mem_hashedTexts hr) _ (linkText_mem_hashedTexts hr') hstep
  have hlengths := List.forall_mem_append.1 h.length
  have hprev : (chainValue codec (records.take n)).length =
      (chainValue codec (records'.take n)).length := by
    rw [length_chainValue hlengths.1 (Nat.le_of_lt hn),
      length_chainValue hlengths.2 (Nat.le_of_lt hn')]
  have hdigest : (codec.sha256 (canonical codec r.toValue)).length =
      (codec.sha256 (canonical codec r'.toValue)).length := by
    rw [hlengths.1 _ (canonical_mem_hashedTexts hmem), hlengths.2 _ (canonical_mem_hashedTexts hmem')]
  obtain ⟨hvalue, -, hbody⟩ := linkText_inj hprev hdigest htext
  have hbytes := h.collision _ (canonical_mem_hashedTexts hmem) _ (canonical_mem_hashedTexts hmem')
    hbody
  obtain ⟨bytes, hrendered⟩ := h.renders r (List.mem_append_left _ hmem)
  obtain ⟨bytes', hrendered'⟩ := h.renders r' (List.mem_append_right _ hmem')
  rw [r.canonical_eq, r'.canonical_eq, hrendered, hrendered'] at hbytes
  simp only at hbytes
  have hhashed := h.injective r hmem r' hmem' (by rw [hrendered, hrendered', hbytes])
  exact ⟨hvalue, (r.hashed_eq_iff r').1 hhashed⟩

/-- The chain values at a version agree exactly when the logs do up to it. -/
theorem Codec.Unambiguous.chainValue_eq_iff (h : codec.Unambiguous records records') {n : Nat}
    (hn : n ≤ records.length) (hn' : n ≤ records'.length) :
    chainValue codec (records.take n) = chainValue codec (records'.take n) ↔
      (records.take n).map MutationRecord.unversioned =
        (records'.take n).map MutationRecord.unversioned := by
  rw [chainValue_unversioned codec (records.take n), chainValue_unversioned codec (records'.take n)]
  refine HashChain.value_eq_iff ?_ ?_
  · rw [List.map_take, List.map_take]
    exact h.apart.take n
  · simp only [List.length_map, List.length_take]
    omega

end Chain

/-! ### The chain in every run -/

/-- `HISTORY_PROTOCOL`. -/
def historyProtocol : Int := 1

structure HistoryCheckpoint where
  protocol : Int
  head : Int
  headHash : String
  at_ : Int
  atHash : Option String

/-- A device that asked got this value for this version. -/
def HistoryCheckpoint.Gives (checkpoint : HistoryCheckpoint) (version : Int) (hash : String) : Prop :=
  checkpoint.head = version ∧ checkpoint.headHash = hash ∨
    checkpoint.at_ = version ∧ checkpoint.atHash = some hash

namespace SyncLog

/-- The chain value at a version. -/
def hashAt (log : SyncLog) (company : Uuid) (version : Int) : Option (List UInt8) :=
  if version ≤ 0 then some genesis else (log.chain.log company)[(version - 1).toNat]?

/-- `MemStore::history_checkpoint`. -/
def historyCheckpoint (log : SyncLog) (company : Uuid) (at_ : Int) : HistoryCheckpoint :=
  let head := log.counter company
  { protocol := historyProtocol
    head
    headHash := hexEncode ((log.hashAt company head).getD [])
    at_ := max at_ 0
    atHash := if head < at_ then none else (log.hashAt company at_).map hexEncode }

/-- The chain of a company holds the value of every entry of its log. -/
def Linked (codec : Codec) (log : SyncLog) (company : Uuid) : Prop :=
  log.chain.log company = HashChain.values (chainStep codec) genesis (log.records company)

section Append
variable {codec : Codec} {env : Env} {company : Uuid} {log : SyncLog} {record : MutationRecord}

/-- A new record gets the next value. -/
theorem Linked.appendMutation {company' : Uuid} (hkept : log.Kept company')
    (h : Linked codec log company') :
    Linked codec (SyncLog.appendMutation codec env company log record) company' := by
  rcases appendMutation_cases codec env company log record with ⟨version, -, hsame⟩ | ⟨hnew, happ⟩
  · rw [hsame]
    exact h
  · by_cases hcompany : company' = company
    · subst hcompany
      have hrecords : (SyncLog.appendMutation codec env company' log record).records company' =
          log.records company' ++ [record] := by
        rw [records, happ.mutations, Table.log_extend_self, List.map_append]
        rfl
      have hversion : log.counter company' + 1 = (log.records company').length + 1 := by
        rw [hkept.counter, records, List.length_map]
      rw [Linked, hrecords, HashChain.values_concat, HashChain.value_concat, appendMutation_chain hnew,
        Table.log_extend_self, h, HashChain.values_getLast, hversion]
      rfl
    · obtain ⟨hmutations, -, hchain, -⟩ := happ.other hcompany
      rw [Linked, hchain, records, hmutations]
      exact h

theorem Linked.appendMutations {company' : Uuid} (hkept : log.Kept company')
    (h : Linked codec log company') (records : List MutationRecord) :
    Linked codec (log.appendMutations codec env company records) company' := by
  induction records generalizing log with
  | nil => exact h
  | cons record records ih => exact ih hkept.appendMutation (h.appendMutation hkept)

end Append

theorem appendAll_linked (codec : Codec) (batches : List Batch) (company : Uuid) :
    Linked codec (appendAll codec batches) company := by
  induction batches using List.reverseRecOn with
  | nil => rfl
  | append_singleton batches batch ih =>
    rw [appendAll_concat]
    exact ih.appendMutations (appendAll_kept codec batches company) batch.records

section Checkpoint
variable {codec : Codec} {company : Uuid} {log : SyncLog}

/-- What the store knows of a version up to the head. -/
theorem Linked.hashAt_eq (h : Linked codec log company) {n : Nat}
    (hn : n ≤ (log.records company).length) :
    log.hashAt company n = some (chainValue codec ((log.records company).take n)) := by
  cases n with
  | zero => rfl
  | succ n =>
    have hindex : (((n + 1 : Nat) : Int) - 1).toNat = n := by omega
    rw [hashAt, if_neg (by omega), h, hindex, HashChain.values_getElem? _ hn]
    rfl

/-- A checkpoint gives chain values of versions that are in the log. -/
theorem Linked.of_gives (h : Linked codec log company) (hkept : log.Kept company) {at_ version : Int}
    {hash : String} (hgives : (log.historyCheckpoint company at_).Gives version hash) :
    ∃ n : Nat, version = n ∧ n ≤ (log.records company).length ∧
      hash = hexEncode (chainValue codec ((log.records company).take n)) := by
  have hhead : log.counter company = ((log.records company).length : Int) := by
    rw [hkept.counter, records, List.length_map]
  rcases hgives with ⟨rfl, rfl⟩ | ⟨rfl, hhash⟩
  · refine ⟨(log.records company).length, hhead, le_rfl, ?_⟩
    simp only [historyCheckpoint]
    rw [hhead, h.hashAt_eq le_rfl, Option.getD_some]
  · simp only [historyCheckpoint] at hhash ⊢
    split_ifs at hhash with hpast
    refine ⟨(max at_ 0).toNat, by omega, by omega, ?_⟩
    have hat : log.hashAt company at_ = log.hashAt company ((max at_ 0).toNat : Nat) := by
      rcases le_or_gt at_ 0 with hneg | hpos
      · rw [hashAt, if_pos hneg, hashAt, if_pos (by omega)]
      · rw [show (((max at_ 0).toNat : Nat) : Int) = at_ by omega]
    rw [hat, h.hashAt_eq (by omega)] at hhash
    exact (Option.some.inj hhash).symm

end Checkpoint

end SyncLog

/-- The chain values of two logs at a version are equal exactly when the logs have the same records,
without their `syncVersion`, at every version up to it. So whatever a device was told of one log, a
server with another log, such as the same one restored to an earlier point and grown again, does not
know that version, has a different value there, or has the very same records up to it. -/
theorem chain_identifies_prefix (codec : Codec) (batches batches' : List Batch)
    (company company' : Uuid)
    (h : codec.Unambiguous ((SyncLog.appendAll codec batches).records company)
      ((SyncLog.appendAll codec batches').records company')) :
    let log := SyncLog.appendAll codec batches
    let log' := SyncLog.appendAll codec batches'
    let SameUpTo := fun n : Nat =>
      ((log.records company).take n).map MutationRecord.unversioned =
        ((log'.records company').take n).map MutationRecord.unversioned
    (∀ v : Nat, 1 ≤ v → v ≤ (log.records company).length → v ≤ (log'.records company').length →
      (log.hashAt company v = log'.hashAt company' v ↔ SameUpTo v)) ∧
    ∀ (at_ : Int) (v : Int) (hash : String), (log.historyCheckpoint company at_).Gives v hash →
      (log'.historyCheckpoint company' v).atHash = none ∨
      (log'.historyCheckpoint company' v).atHash ≠ some hash ∨
      (v ≤ (log'.records company').length ∧ SameUpTo v.toNat) := by
  intro log log' SameUpTo
  have hlinked : SyncLog.Linked codec log company := SyncLog.appendAll_linked codec batches company
  have hlinked' : SyncLog.Linked codec log' company' := SyncLog.appendAll_linked codec batches' company'
  refine ⟨fun v _ hv hv' => ?_, fun at_ v hash hgives => ?_⟩
  · rw [hlinked.hashAt_eq hv, hlinked'.hashAt_eq hv', Option.some_inj]
    exact h.chainValue_eq_iff hv hv'
  · obtain ⟨n, rfl, hn, rfl⟩ := hlinked.of_gives (SyncLog.appendAll_kept codec batches company) hgives
    by_cases hn' : n ≤ (log'.records company').length
    · refine .inr (or_iff_not_imp_left.2 fun heq => ⟨by exact_mod_cast hn', ?_⟩)
      have heq := not_not.1 heq
      obtain ⟨n', hcast, -, hhash⟩ := hlinked'.of_gives
        (SyncLog.appendAll_kept codec batches' company') (.inr ⟨rfl, heq⟩)
      obtain rfl : n = n' := by
        simp only [SyncLog.historyCheckpoint] at hcast
        omega
      rw [Int.toNat_natCast]
      exact (h.chainValue_eq_iff hn hn').1 (hexEncode_injective hhash)
    · refine .inl ?_
      have hhead : log'.counter company' = ((log'.records company').length : Int) := by
        rw [(SyncLog.appendAll_kept codec batches' company').counter, SyncLog.records, List.length_map]
      simp only [SyncLog.historyCheckpoint]
      rw [if_pos (by omega)]

def note (id : String) : MutationRecord :=
  ⟨id, .createDocument, "Note", id, [], "till", "anna", 0, none, .pending⟩

/-- A log of two notes, and the log of the server that was restored to the first of them and went on another
way. -/
def notedLogs : List Batch × List Batch :=
  let env : Env := ⟨0, "2026-01-01", 0⟩
  ([⟨1, env, [note "a", note "b"]⟩], [⟨1, env, [note "a"]⟩, ⟨1, env, [note "c"]⟩])

theorem notedLogs_unambiguous : serdeCodec.Unambiguous
    ((SyncLog.appendAll serdeCodec notedLogs.1).records 1)
    ((SyncLog.appendAll serdeCodec notedLogs.2).records 1) where
  renders _ _ := ⟨_, rfl⟩
  injective r hr r' hr' hbytes := by
    have htexts : (note "a").hashed.render.toUTF8.toList ≠ (note "c").hashed.render.toUTF8.toList ∧
        (note "b").hashed.render.toUTF8.toList ≠ (note "a").hashed.render.toUTF8.toList ∧
        (note "b").hashed.render.toUTF8.toList ≠ (note "c").hashed.render.toUTF8.toList := by decide +kernel
    replace hr : r ∈ [note "a", note "b"] := hr
    replace hr' : r' ∈ [note "a", note "c"] := hr'
    simp only [List.mem_cons, List.not_mem_nil, or_false] at hr hr'
    replace hbytes := Except.ok.inj hbytes
    rcases hr with rfl | rfl <;> rcases hr' with rfl | rfl
    · rfl
    · exact absurd hbytes htexts.1
    · exact absurd hbytes htexts.2.1
    · exact absurd hbytes htexts.2.2
  length := by decide +kernel
  collision := by decide +kernel

/-- The chain agrees on the note both logs have, and shows that another took the version of the lost one. -/
theorem chain_identifies_prefix_noted :
    (SyncLog.appendAll serdeCodec notedLogs.1).hashAt 1 1 =
      (SyncLog.appendAll serdeCodec notedLogs.2).hashAt 1 1 ∧
    (SyncLog.appendAll serdeCodec notedLogs.1).hashAt 1 2 ≠
      (SyncLog.appendAll serdeCodec notedLogs.2).hashAt 1 2 := by
  obtain ⟨hidentifies, -⟩ :=
    chain_identifies_prefix serdeCodec notedLogs.1 notedLogs.2 1 1 notedLogs_unambiguous
  refine ⟨(hidentifies 1 (by decide) (by decide) (by decide)).2 rfl, fun heq => ?_⟩
  have hsame := (hidentifies 2 (by decide) (by decide) (by decide)).1 heq
  have hids := congrArg (List.map MutationRecord.id) hsame
  exact absurd hids (by decide +kernel)

end AtlasTeam
