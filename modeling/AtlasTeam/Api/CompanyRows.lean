import AtlasTeam.Authority
import AtlasTeam.Posting.Prepared
import AtlasTeam.Store.ReadModel
import AtlasTeam.Store.Serde

/-!
# The books lock of a pushed Company row

`pinBooksLock` puts the server's lock back before a mutation is logged, and `foldMutation` writes the row
every device pulls. Both decode the envelope on their own, and they decode it alike (`envelopeFields_pin`);
but a submit or a cancel of a Company is folded into the row and not pinned. `company_lock_iff` says that this
is the only way another lock gets into the row, and that pinning changes nothing else but numbers that
serde_json does not read as it wrote them, where it writes a JSON text anew.
-/

namespace AtlasTeam

/-- A value that says what the server's lock says: both are blank, or they are the same but for blanks. -/
def SaysLock (lock : Option String) (v : Value) : Prop :=
  (isBlank v = true ∧ isBlank (Value.ofOption lock) = true) ∨
    ∃ s t, v = .string s ∧ lock = some t ∧ trim s = trim t

/-- The fields of a row with the server's lock. -/
def pinnedFields (lock : Option String) (fields : Map) : Map :=
  (pinField (Value.ofOption lock) fields).getD fields

theorem pinField_eq_some {server : Value} {fields pinned : Map} (h : pinField server fields = some pinned) :
    pinned = fields.insert "books_lock_date" server := by
  unfold pinField at h
  cases hcurrent : fields.get "books_lock_date" with
  | none => simp [hcurrent] at h
  | some current =>
    simp only [hcurrent, Option.ite_none_left_eq_some] at h
    exact (Option.some.inj h.2).symm

theorem pinnedFields_get_ne {key : String} (h : key ≠ "books_lock_date") (lock : Option String)
    (fields : Map) : (pinnedFields lock fields).get key = fields.get key := by
  unfold pinnedFields
  cases hpin : pinField (Value.ofOption lock) fields with
  | none => rfl
  | some pinned => rw [pinField_eq_some hpin, Option.getD_some, Map.get_insert_ne _ h]

theorem saysLock_self (lock : Option String) : SaysLock lock (Value.ofOption lock) := by
  cases lock with
  | none => exact .inl ⟨rfl, rfl⟩
  | some t => exact .inr ⟨t, t, rfl, rfl, rfl⟩

/-- A lock that is left alone says what the server's does. -/
theorem saysLock_of_same {lock : Option String} {fields : Map} {v : Value}
    (hpin : pinField (Value.ofOption lock) fields = none) (h : fields.get "books_lock_date" = some v) :
    SaysLock lock v := by
  simp only [pinField, h, ite_eq_left_iff, reduceCtorEq, imp_false, not_not] at hpin
  by_cases hblank : (isBlank v || isBlank (Value.ofOption lock)) = true
  · rw [if_pos hblank, Bool.and_eq_true] at hpin
    exact .inl hpin
  · rw [if_neg hblank, decide_eq_true_iff] at hpin
    cases lock with
    | none => exact absurd (Bool.or_true _) hblank
    | some t =>
      obtain ⟨s, hs, rfl⟩ := Option.map_eq_some_iff.1 hpin
      cases v with
      | string s' =>
        obtain rfl := Option.some.inj hs
        exact .inr ⟨s', trim s', rfl, rfl, (trim_trim s').symm⟩
      | _ => cases hs

theorem SaysLock.mapNumbers {lock : Option String} {v : Value} (h : SaysLock lock v)
    (f : Number → Number) : SaysLock lock (v.mapNumbers f) := by
  obtain ⟨hblank, hserver⟩ | ⟨s, t, rfl, ht, htrim⟩ := h
  · refine .inl ⟨?_, hserver⟩
    cases v with
    | null => rfl
    | string s => exact hblank
    | _ => cases hblank
  · exact .inr ⟨s, t, rfl, ht, htrim⟩

theorem pinnedFields_lock {lock : Option String} {fields : Map} {v : Value}
    (h : (pinnedFields lock fields).get "books_lock_date" = some v) : SaysLock lock v := by
  unfold pinnedFields at h
  cases hpin : pinField (Value.ofOption lock) fields with
  | none =>
    rw [hpin, Option.getD_none] at h
    exact saysLock_of_same hpin h
  | some pinned =>
    rw [hpin, Option.getD_some, pinField_eq_some hpin, Map.get_insert_self] at h
    exact Option.some.inj h ▸ saysLock_self lock

/-! ### The envelope -/

/-- The JSON text that pinning writes reads as serde_json documents it. -/
def ReadsPinned (codec : Codec) (lock : Option String) (payload : Map) : Prop :=
  ∀ inner (fields : Map), payload.get "payload" = some (.string inner) →
    codec.fromText inner = .ok (.object fields) →
      codec.Reads (fields.insert "books_lock_date" (Value.ofOption lock))

/-- Pinning writes the envelope's JSON text anew. -/
def RewritesText (codec : Codec) (lock : Option String) (payload : Map) : Prop :=
  ∃ (inner : String) (fields : Map), payload.get "payload" = some (.string inner) ∧
    codec.fromText inner = .ok (.object fields) ∧
      (pinField (Value.ofOption lock) fields).isSome = true

/-- The fields are the envelope's own: it has no text and no object under `payload`. -/
structure IsPlain (envelope : Map) : Prop where
  noText : ∀ inner, envelope.get "payload" ≠ some (.string inner)
  noObject : ∀ fields, envelope.get "payload" ≠ some (.object fields)

theorem IsPlain.insert {envelope : Map} (h : IsPlain envelope) {key : String} (hkey : key ≠ "payload")
    (v : Value) : IsPlain (envelope.insert key v) where
  noText inner := by
    rw [Map.get_insert_ne _ hkey.symm]
    exact h.noText inner
  noObject fields := by
    rw [Map.get_insert_ne _ hkey.symm]
    exact h.noObject fields

theorem envelopeFields_plain {envelope : Map} (h : IsPlain envelope) (codec : Codec) :
    envelopeFields codec envelope = envelope := by
  unfold envelopeFields
  split
  · next inner hpayload => exact absurd hpayload (h.noText inner)
  · next fields hpayload => exact absurd hpayload (h.noObject fields)
  · rfl

/-- The payload of a Company's create or update with its lock pinned, when that changes it. -/
def pinnedPayload (codec : Codec) (lock : Option String) (payload : Map) : Option Map :=
  match payload.get "payload" with
  | some (.string inner) =>
    match codec.fromText inner with
    | .ok (.object fields) => (pinField (Value.ofOption lock) fields).bind fun fields =>
        match codec.toText fields with
        | .ok text => some (payload.insert "payload" (.string text))
        | .error _ => none
    | _ => none
  | some (.object fields) => (pinField (Value.ofOption lock) fields).map fun fields =>
      payload.insert "payload" (.object fields)
  | _ => pinField (Value.ofOption lock) payload

theorem pinBooksLock_company {mutation : MutationRecord} (hcompany : mutation.docType = "Company")
    (hwrite : mutation.isWrite = true) (codec : Codec) (lock : Option String) :
    (pinBooksLock codec lock mutation).1 = { mutation with
      payload := (pinnedPayload codec lock mutation.payload).getD mutation.payload } := by
  have hguard : ¬ (mutation.docType ≠ "Company" || !mutation.isWrite) = true := by
    simp [hcompany, hwrite]
  rw [pinBooksLock, if_neg hguard]
  simp only
  split
  · next payload hpayload =>
    have hpinned : pinnedPayload codec lock mutation.payload = some payload := hpayload
    rw [hpinned]
    rfl
  · next hnone =>
    have hpinned : pinnedPayload codec lock mutation.payload = none := hnone
    rw [hpinned]
    rfl

/-- The envelope `pinned` carries the pinned fields of `payload`, their numbers through `f`, and what else is
read off it stayed. -/
structure PinnedAs (codec : Codec) (lock : Option String) (payload pinned : Map) (f : Number → Number) :
    Prop where
  fields : envelopeFields codec pinned =
    Map.mapNumbers f (pinnedFields lock (envelopeFields codec payload))
  rest : ∀ key, key ≠ "payload" → key ≠ "books_lock_date" → pinned.get key = payload.get key

section Shapes
variable {codec : Codec} {lock : Option String} {payload : Map}

theorem pinnedPayload_plain (h : IsPlain payload) :
    PinnedAs codec lock payload ((pinnedPayload codec lock payload).getD payload) id := by
  have hpinned : pinnedPayload codec lock payload = pinField (Value.ofOption lock) payload := by
    unfold pinnedPayload
    split
    · next inner hpayload => exact absurd hpayload (h.noText inner)
    · next fields hpayload => exact absurd hpayload (h.noObject fields)
    · rfl
  have hkey : "books_lock_date" ≠ "payload" := by decide
  have hplain : IsPlain (pinnedFields lock payload) := by
    unfold pinnedFields
    cases hpin : pinField (Value.ofOption lock) payload with
    | none => exact h
    | some pinned =>
      rw [pinField_eq_some hpin]
      exact h.insert hkey _
  have hsame : (pinnedPayload codec lock payload).getD payload = pinnedFields lock payload := by
    rw [hpinned, pinnedFields]
  rw [hsame]
  exact
    { fields := by rw [envelopeFields_plain h, envelopeFields_plain hplain, Map.mapNumbers_id]
      rest := fun key _ hlock => pinnedFields_get_ne hlock lock payload }

theorem pinnedPayload_object {fields : Map} (h : payload.get "payload" = some (.object fields)) :
    PinnedAs codec lock payload ((pinnedPayload codec lock payload).getD payload) id := by
  have hfields : envelopeFields codec payload = fields := by simp only [envelopeFields, h]
  have hpinned : pinnedPayload codec lock payload = (pinField (Value.ofOption lock) fields).map
    fun fields => payload.insert "payload" (.object fields) := by simp only [pinnedPayload, h]
  rw [hpinned]
  cases hpin : pinField (Value.ofOption lock) fields with
  | none =>
    exact
      { fields := by
          rw [Option.map_none, Option.getD_none, hfields, pinnedFields, hpin, Option.getD_none,
            Map.mapNumbers_id]
        rest := fun _ _ _ => rfl }
  | some pinned =>
    have hcarried : envelopeFields codec (payload.insert "payload" (.object pinned)) = pinned := by
      simp only [envelopeFields, Map.get_insert_self]
    exact
      { fields := by
          rw [Option.map_some, Option.getD_some, hcarried, hfields, pinnedFields, hpin, Option.getD_some,
            Map.mapNumbers_id]
        rest := fun key hkey _ => Map.get_insert_ne _ hkey _ }

/-- The text that is written reads as the pinned fields, their numbers read again. -/
theorem pinnedPayload_rewritten (h : RewritesText codec lock payload)
    (hreads : ReadsPinned codec lock payload) :
    PinnedAs codec lock payload ((pinnedPayload codec lock payload).getD payload) codec.reread := by
  obtain ⟨inner, fields, hinner, htext, hsome⟩ := h
  obtain ⟨pinned, hpin⟩ := Option.isSome_iff_exists.1 hsome
  obtain ⟨text, hrender, hread⟩ := hreads inner fields hinner htext
  rw [← pinField_eq_some hpin] at hrender hread
  have hfields : envelopeFields codec payload = fields := by
    simp only [envelopeFields, hinner, htext, Value.asObject, Option.getD_some]
  have hpinned : pinnedPayload codec lock payload = some (payload.insert "payload" (.string text)) := by
    simp only [pinnedPayload, hinner, htext, hpin, Option.bind_some, hrender]
  have hcarried : envelopeFields codec (payload.insert "payload" (.string text)) =
      Map.mapNumbers codec.reread pinned := by
    simp only [envelopeFields, Map.get_insert_self, hread, Value.asObject, Option.getD_some]
  rw [hpinned]
  exact
    { fields := by
        rw [Option.getD_some, hcarried, hfields, pinnedFields, hpin, Option.getD_some]
      rest := fun key hkey _ => Map.get_insert_ne _ hkey _ }

/-- A text that is not written anew is left alone: it has no fields to pin. -/
theorem pinnedPayload_text {inner : String} (h : payload.get "payload" = some (.string inner))
    (hkept : ¬RewritesText codec lock payload) :
    PinnedAs codec lock payload ((pinnedPayload codec lock payload).getD payload) id := by
  have hnone : pinnedPayload codec lock payload = none ∧
      pinField (Value.ofOption lock) (envelopeFields codec payload) = none := by
    simp only [pinnedPayload, envelopeFields, h]
    cases hvalue : codec.fromText inner with
    | error e => exact ⟨rfl, rfl⟩
    | ok value =>
      cases value with
      | object fields =>
        have hpin : pinField (Value.ofOption lock) fields = none := by
          by_contra hne
          exact hkept ⟨inner, fields, h, hvalue, Option.isSome_iff_ne_none.2 hne⟩
        simp only [hpin, Value.asObject, Option.getD_some, Option.bind_none, and_self]
      | _ => exact ⟨rfl, rfl⟩
  rw [hnone.1]
  exact
    { fields := by
        rw [Option.getD_none, pinnedFields, hnone.2, Option.getD_none, Map.mapNumbers_id]
      rest := fun _ _ _ => rfl }

/-- The fold reads the pinned fields, whatever shape the envelope has, and their numbers as they were unless
a text was written anew. -/
theorem pinnedPayload_pinned (hreads : ReadsPinned codec lock payload) :
    ∃ f, PinnedAs codec lock payload ((pinnedPayload codec lock payload).getD payload) f ∧
      (RewritesText codec lock payload ∧ f = codec.reread ∨ ¬RewritesText codec lock payload ∧ f = id) := by
  by_cases hrewrites : RewritesText codec lock payload
  · exact ⟨codec.reread, pinnedPayload_rewritten hrewrites hreads, .inl ⟨hrewrites, rfl⟩⟩
  refine ⟨id, ?_, .inr ⟨hrewrites, rfl⟩⟩
  by_cases hplain : IsPlain payload
  · exact pinnedPayload_plain hplain
  · by_cases htext : ∃ inner, payload.get "payload" = some (.string inner)
    · obtain ⟨inner, hinner⟩ := htext
      exact pinnedPayload_text hinner hrewrites
    · have hobject : ∃ fields : Map, payload.get "payload" = some (.object fields) := by
        by_contra hnone
        exact hplain ⟨not_exists.1 htext, not_exists.1 hnone⟩
      obtain ⟨fields, hfields⟩ := hobject
      exact pinnedPayload_object hfields

end Shapes

/-! ### Pinned and folded -/

/-- The fold of the pinned mutation: no other lock, and the rest as without pinning. -/
def LockPinned (codec : Codec) (lock : Option String) (mutation : MutationRecord)
    (existing : Option CompanyDocument) (company : Uuid) (now : DateTime) : Prop :=
  ∀ row, foldMutation codec existing (pinBooksLock codec lock mutation).1 company now = .upsert row →
    (∀ v, row.payload.get "books_lock_date" = some v → SaysLock lock v) ∧
    ∃ bare, foldMutation codec existing mutation company now = .upsert bare ∧
      row = { bare with payload := row.payload } ∧
      ∀ key, key ≠ "books_lock_date" → row.payload.get key = bare.payload.get key

/-- The child tables a fold puts into the row. -/
def rowChildren (codec : Codec) (envelope : Map) (existing : Option CompanyDocument) : Option Value :=
  ((((envelopeFields codec envelope).get "__children").or (envelope.get "__children")).filter
    fun v => !v.isNull).or (existing.bind fun doc => doc.children)

/-- An action with another payload and other child tables in its row. -/
def ProjectionAction.withRow (payload : Value) (children : Option Value) :
    ProjectionAction → ProjectionAction
  | .upsert doc => .upsert { doc with payload, children }
  | action => action

section Folds
variable {codec : Codec} {existing : Option CompanyDocument} {record : MutationRecord} {company : Uuid}
  {now : DateTime} {payload : Map}

/-- Two envelopes with the same docstatus make rows that differ in their payload and child tables. -/
theorem foldMutation_envelope (hstatus : payload.get "docstatus" = record.payload.get "docstatus") :
    foldMutation codec existing { record with payload } company now =
      (foldMutation codec existing record company now).withRow (rowPayload codec payload)
        (rowChildren codec payload existing) := by
  unfold foldMutation
  cases htype : record.mutationType <;>
    simp only [hstatus, ProjectionAction.withRow, rowPayload, rowChildren]

theorem foldMutation_children {row : CompanyDocument}
    (h : foldMutation codec existing record company now = .upsert row) :
    row.children = rowChildren codec record.payload existing := by
  unfold foldMutation at h
  cases htype : record.mutationType <;> simp only [htype, reduceCtorEq] at h
  all_goals
    rw [← ProjectionAction.upsert.inj h]
    rfl

theorem foldMutation_write (hwrite : record.isWrite = true) :
    ∃ row, foldMutation codec existing record company now = .upsert row := by
  simp only [MutationRecord.isWrite, Bool.or_eq_true, decide_eq_true_iff] at hwrite
  unfold foldMutation
  rcases hwrite with htype | htype <;> simp only [htype] <;> exact ⟨_, rfl⟩

end Folds

theorem rowPayload_get {key : String} (h : key ≠ "__children") (codec : Codec) (envelope : Map) :
    (rowPayload codec envelope).get key = (envelopeFields codec envelope).get key :=
  Map.get_remove_ne _ h

theorem rowPayload_lock (codec : Codec) (envelope : Map) :
    (rowPayload codec envelope).get "books_lock_date" =
      (envelopeFields codec envelope).get "books_lock_date" :=
  rowPayload_get (by decide) codec envelope

/-- Child tables that two envelopes carry into their rows are the same there only if they are on the wire. -/
theorem children_back {envelope envelope' : Map} {codec : Codec} {f : Number → Number} {v : Value}
    (hfields : (envelopeFields codec envelope).get "__children" = some v)
    (hfields' : (envelopeFields codec envelope').get "__children" = some (v.mapNumbers f))
    (existing : Option CompanyDocument)
    (h : rowChildren codec envelope' existing = rowChildren codec envelope existing) :
    v.mapNumbers f = v := by
  simp only [rowChildren, hfields, hfields', Option.some_or] at h
  cases v with
  | null => rfl
  | _ => exact Option.some.inj h

/-- A create or an update is folded with the server's lock, and all else as without pinning exactly when the
numbers of the other fields come through unchanged. -/
theorem lockPinned_write {codec : Codec} {lock : Option String} {mutation : MutationRecord}
    {f : Number → Number} (hcompany : mutation.docType = "Company") (hwrite : mutation.isWrite = true)
    (hpinned : PinnedAs codec lock mutation.payload
      ((pinnedPayload codec lock mutation.payload).getD mutation.payload) f)
    (existing : Option CompanyDocument) (company : Uuid) (now : DateTime) :
    LockPinned codec lock mutation existing company now ↔
      ∀ key v, key ≠ "books_lock_date" → (envelopeFields codec mutation.payload).get key = some v →
        v.mapNumbers f = v := by
  obtain ⟨bare, hbare⟩ := @foldMutation_write codec existing mutation company now hwrite
  have hget : ∀ key, key ≠ "books_lock_date" →
      (envelopeFields codec ((pinnedPayload codec lock mutation.payload).getD mutation.payload)).get key =
        ((envelopeFields codec mutation.payload).get key).map (Value.mapNumbers f) := by
    intro key hkey
    rw [hpinned.fields, Map.get_mapNumbers, pinnedFields_get_ne hkey]
  rw [LockPinned, pinBooksLock_company hcompany hwrite,
    foldMutation_envelope (hpinned.rest _ (by decide) (by decide)), hbare]
  constructor
  · intro h key v hkey hv
    obtain ⟨-, bare', hbare', hrow, hkeys⟩ := h _ rfl
    obtain rfl := ProjectionAction.upsert.inj hbare'
    have hmapped := hget key hkey
    rw [hv, Option.map_some] at hmapped
    by_cases hchildren : key = "__children"
    · subst hchildren
      refine children_back hv hmapped existing ?_
      rw [← foldMutation_children hbare]
      exact congrArg CompanyDocument.children hrow
    · have hsame := hkeys key hkey
      rw [foldMutation_payload hbare, rowPayload_get hchildren, rowPayload_get hchildren, hv,
        hmapped] at hsame
      exact Option.some.inj hsame
  · intro h row hrow
    have hsame : ∀ key, key ≠ "books_lock_date" →
        (envelopeFields codec ((pinnedPayload codec lock mutation.payload).getD
          mutation.payload)).get key = (envelopeFields codec mutation.payload).get key := by
      intro key hkey
      rw [hget key hkey]
      cases hv : (envelopeFields codec mutation.payload).get key with
      | none => rfl
      | some v => rw [Option.map_some, h key v hkey hv]
    obtain rfl := ProjectionAction.upsert.inj hrow
    refine ⟨fun v hv => ?_, bare, rfl, ?_, fun key hkey => ?_⟩
    · rw [rowPayload_lock, hpinned.fields, Map.get_mapNumbers] at hv
      obtain ⟨v, hlock, rfl⟩ := Option.map_eq_some_iff.1 hv
      exact (pinnedFields_lock hlock).mapNumbers f
    · have hchildren := foldMutation_children hbare
      rw [rowChildren, ← hsame "__children" (by decide),
        ← hpinned.rest "__children" (by decide) (by decide)] at hchildren
      rw [rowChildren, ← hchildren]
    · rw [foldMutation_payload hbare]
      by_cases hchildren : key = "__children"
      · subst hchildren
        exact (Map.get_remove_self _ _).trans (Map.get_remove_self _ _).symm
      · rw [rowPayload_get hchildren, rowPayload_get hchildren, hsame key hkey]

/-- A Company row carries the server's lock and is otherwise as without pinning exactly when the mutation is
no submit or cancel with another lock, and pinning writes no JSON text anew with a number that is not read as
it is written. -/
theorem company_lock_iff {codec : Codec} {lock : Option String} {mutation : MutationRecord}
    (hcompany : mutation.docType = "Company") (hreads : ReadsPinned codec lock mutation.payload)
    (existing : Option CompanyDocument) (company : Uuid) (now : DateTime) :
    LockPinned codec lock mutation existing company now ↔
      (mutation.isLifecycle = true →
        ∀ v, (envelopeFields codec mutation.payload).get "books_lock_date" = some v → SaysLock lock v) ∧
      (mutation.isWrite = true → RewritesText codec lock mutation.payload →
        ∀ key v, key ≠ "books_lock_date" → (envelopeFields codec mutation.payload).get key = some v →
          ∀ n ∈ v.numbers, codec.reread n = n) := by
  by_cases hwrite : mutation.isWrite = true
  · have hlifecycle : ¬mutation.isLifecycle = true := by
      simp only [MutationRecord.isWrite, MutationRecord.isLifecycle, Bool.or_eq_true,
        decide_eq_true_iff] at hwrite ⊢
      rcases hwrite with hwrite | hwrite <;> simp [hwrite]
    obtain ⟨f, hpinned, hf⟩ := pinnedPayload_pinned hreads
    rw [lockPinned_write hcompany hwrite hpinned existing company now,
      and_iff_right fun h => absurd h hlifecycle, forall_prop_of_true hwrite]
    simp only [← Value.mapNumbers_eq_self]
    rcases hf with ⟨hrewrites, rfl⟩ | ⟨hkept, rfl⟩
    · rw [forall_prop_of_true hrewrites]
    · exact iff_of_true (fun _ v _ _ => (Value.mapNumbers_eq_self v).2 fun _ _ => rfl)
        fun h => absurd h hkept
  -- the others are left as they are
  have hpin : (pinBooksLock codec lock mutation).1 = mutation := by
    rw [pinBooksLock, if_pos (by simp [hwrite])]
  rw [LockPinned, hpin, and_iff_left fun h => absurd h hwrite]
  constructor
  · intro h hlifecycle v hv
    obtain ⟨row, hrow⟩ : ∃ row, foldMutation codec existing mutation company now = .upsert row := by
      simp only [MutationRecord.isLifecycle, Bool.or_eq_true, decide_eq_true_iff] at hlifecycle
      unfold foldMutation
      rcases hlifecycle with htype | htype <;> simp only [htype] <;> exact ⟨_, rfl⟩
    refine (h row hrow).1 v ?_
    rw [foldMutation_payload hrow, rowPayload_lock, hv]
  · intro h row hrow
    refine ⟨fun v hv => ?_, row, hrow, rfl, fun _ _ => rfl⟩
    have hlifecycle : mutation.isLifecycle = true := by
      simp only [MutationRecord.isWrite, Bool.or_eq_true, decide_eq_true_iff, not_or] at hwrite
      unfold foldMutation at hrow
      cases htype : mutation.mutationType <;> simp_all [MutationRecord.isLifecycle]
    rw [foldMutation_payload hrow, rowPayload_lock] at hv
    exact h hlifecycle v hv

/-! ### A stale row -/

/-- A device that still holds the lock of January sends its company. -/
def staleCompany (mutationType : MutationType) : MutationRecord :=
  { id := "m-1"
    mutationType
    docType := "Company"
    documentId := "CO"
    payload := [("payload", .string "\x7b\"books_lock_date\":\"2026-01-31\",\"credit_limit\":250.5\x7d")]
    deviceId := "device-5"
    userId := "user-7"
    localTimestamp := 0
    syncVersion := none
    status := .pending }

/-- As an update, the row every device pulls has the lock of March. -/
theorem company_lock_iff_update :
    LockPinned serdeCodec (some "2026-03-31") (staleCompany .updateDocument) none 1 0 := by
  have hnumbers : ∀ n ∈ Map.numbers (envelopeFields serdeCodec (staleCompany .updateDocument).payload),
      serdeCodec.reread n = n := by decide +kernel
  refine (company_lock_iff rfl ?_ none 1 0).2 ⟨fun h => absurd h (by decide),
    fun _ _ key v _ hv n hn => hnumbers n (Map.mem_numbers hv hn)⟩
  intro inner fields hinner htext
  obtain rfl := Value.string.inj (Option.some.inj hinner)
  have hread : serdeCodec.fromText "\x7b\"books_lock_date\":\"2026-01-31\",\"credit_limit\":250.5\x7d" =
      .ok (.object [("books_lock_date", .string "2026-01-31"), ("credit_limit", .num 250.5)]) := by
    decide +kernel
  obtain rfl := Value.object.inj (Except.ok.inj (hread.symm.trans htext))
  decide +kernel

/-- As a submit, which the guard accepts, it has the lock of January. -/
theorem company_lock_stale :
    checkClientMutation (staleCompany .submitDocument) = .ok () ∧
    ¬ LockPinned serdeCodec (some "2026-03-31") (staleCompany .submitDocument) none 1 0 := by
  refine ⟨by decide +kernel, fun h => ?_⟩
  have hlock : (rowPayload serdeCodec (staleCompany .submitDocument).payload).get "books_lock_date" =
      some (.string "2026-01-31") := by decide +kernel
  obtain ⟨hblank, -⟩ | ⟨s, t, hs, ht, htrim⟩ := (h _ rfl).1 _ hlock
  · revert hblank
    decide
  · obtain rfl := Value.string.inj hs
    obtain rfl := Option.some.inj ht
    revert htrim
    decide

end AtlasTeam
