import AtlasTeam.Pay
import AtlasTeam.Posting.Validate
import AtlasTeam.Projection

/-!
# Posting authority on the sync plane (`authority.rs`)

`checkClientMutation` is what a mutation pushed by a device has to pass, and `pinBooksLock` puts the
server's books lock back into a Company row. The guard reads a docstatus as a 64-bit integer and the
projection keeps its low sixteen bits. `foldMutation_draft_iff` says for which accepted
mutations the two disagree on what a draft is.
-/

namespace AtlasTeam

/-- `DERIVED_DOCTYPES`. -/
def derivedDoctypes : List String :=
  ["GL Entry", "Stock Ledger Entry", "Bin", "Settlement", "Customer Transaction",
    "Supplier Transaction", "Tax Transaction", "Posting Batch"]

/-- `SERVER_AUTHORITY_DOCTYPES`. -/
def serverAuthorityDoctypes : List String :=
  ["Sales Invoice", "Purchase Invoice", "Purchase Receipt", "Delivery Note", "Payment Entry",
    "Stock Entry", "Journal Entry", "Expense", "Customer Deposit"]

/-- `PORTAL_DEVICE_ID`. -/
def portalDeviceId : String := "atlas-portal"

/-- `RESERVED_DEVICE_IDS`. -/
def reservedDeviceIds : List String := [systemDeviceId, paymentsDeviceId, portalDeviceId]

/-- `RESERVED_ID_PREFIXES`. -/
def reservedIdPrefixes : List String := ["postmut-", "portal-"]

/-- `str::starts_with`. -/
def startsWith (s start : String) : Bool := start.toList.isPrefixOf s.toList

/-- `str::parse::<i64>`: a sign and digits, in range. -/
def parseI64 (s : String) : Option Int :=
  let (negative, digits) := splitSign s.toList
  if digits.isEmpty || !digits.all Char.isDigit then none
  else
    let i : Int := if negative then -(digitsValue digits) else digitsValue digits
    if -2 ^ 63 ≤ i ∧ i < 2 ^ 63 then some i else none

/-- The docstatus of the row envelope: absent or malformed reads as a draft. -/
def MutationRecord.docstatus (mutation : MutationRecord) : Int :=
  match mutation.payload.get "docstatus" with
  | some (.number n) => n.asI64.getD 0
  | some (.string s) => (parseI64 (trim s)).getD 0
  | _ => 0

/-- A submit or a cancel. -/
def MutationRecord.isLifecycle (mutation : MutationRecord) : Bool :=
  mutation.mutationType = .submitDocument || mutation.mutationType = .cancelDocument

/-- A create or an update. -/
def MutationRecord.isWrite (mutation : MutationRecord) : Bool :=
  mutation.mutationType = .createDocument || mutation.mutationType = .updateDocument

/-- `check_client_mutation`: why a client mutation is refused. -/
def checkClientMutation (mutation : MutationRecord) : Except String Unit :=
  let doctype := mutation.docType
  if mutation.deviceId ∈ reservedDeviceIds then
    .error (s!"mutation {mutation.id} claims the reserved system device id " ++
      debugText mutation.deviceId)
  else if reservedIdPrefixes.any fun start => startsWith mutation.id start then
    .error ("mutation id " ++ debugText mutation.id ++
      " uses a prefix reserved for backend-authored mutations")
  else if doctype ∈ derivedDoctypes then
    .error (s!"{doctype} {mutation.documentId} is a ledger row: in Atlas Team only the server " ++
      "posts ledger rows")
  else if doctype ∈ serverAuthorityDoctypes ∧
      (mutation.isLifecycle || (mutation.isWrite && 1 ≤ mutation.docstatus)) then
    .error (s!"{doctype} {mutation.documentId} can only be submitted or cancelled through the " ++
      "Atlas Team server (commands/submit-document); a device cannot publish it as official")
  else .ok ()

/-- What an accepted mutation has passed. -/
structure Accepted (mutation : MutationRecord) : Prop where
  device : mutation.deviceId ∉ reservedDeviceIds
  id : ∀ start ∈ reservedIdPrefixes, startsWith mutation.id start = false
  notDerived : mutation.docType ∉ derivedDoctypes
  draft : mutation.docType ∈ serverAuthorityDoctypes →
    mutation.isLifecycle = false ∧ (mutation.isWrite = true → mutation.docstatus < 1)

theorem checkClientMutation_ok {mutation : MutationRecord}
    (h : checkClientMutation mutation = .ok ()) : Accepted mutation := by
  simp only [checkClientMutation] at h
  split_ifs at h with hdevice hid hderived hofficial
  refine ⟨hdevice, ?_, hderived, fun hdoctype => ?_⟩
  · simpa only [List.any_eq_true, not_exists, not_and, Bool.not_eq_true] using hid
  · have hdraft : ¬ (mutation.isLifecycle || (mutation.isWrite && 1 ≤ mutation.docstatus)) = true :=
      fun h => hofficial ⟨hdoctype, h⟩
    rw [Bool.or_eq_true, not_or, Bool.and_eq_true, not_and] at hdraft
    refine ⟨Bool.eq_false_iff.2 hdraft.1, fun hwrite => ?_⟩
    simpa using hdraft.2 hwrite

/-! ### The books lock of a Company row -/

/-- The closure `blank` of `pin_books_lock`. -/
def isBlank : Value → Bool
  | .null => true
  | .string s => trim s = ""
  | _ => false

/-- The closure `pin`: the fields with the server's lock, when theirs differs. -/
def pinField (server : Value) (fields : Map) : Option Map :=
  match fields.get "books_lock_date" with
  | none => none
  | some current =>
    let same :=
      if isBlank current || isBlank server then isBlank current && isBlank server
      else current.asStr.map trim = server.asStr
    if same then none else some (fields.insert "books_lock_date" server)

/-- `pin_books_lock`: the mutation it leaves, and whether it was changed. -/
def pinBooksLock (codec : Codec) (lock : Option String) (mutation : MutationRecord) :
    MutationRecord × Bool :=
  if mutation.docType ≠ "Company" || !mutation.isWrite then (mutation, false)
  else
    let server := Value.ofOption lock
    let pinned : Option Map :=
      match mutation.payload.get "payload" with
      | some (.string inner) =>
        match codec.fromText inner with
        | .ok (.object fields) => (pinField server fields).bind fun fields =>
            match codec.toText fields with
            | .ok text => some (mutation.payload.insert "payload" (.string text))
            | .error _ => none
        | _ => none
      | some (.object fields) => (pinField server fields).map fun fields =>
          mutation.payload.insert "payload" (.object fields)
      | _ => pinField server mutation.payload
    match pinned with
    | some payload => ({ mutation with payload }, true)
    | none => (mutation, false)

/-- Only Company rows are pinned, and only in their payload. -/
theorem pinBooksLock_eq (codec : Codec) (lock : Option String) (mutation : MutationRecord) :
    ∃ payload, (pinBooksLock codec lock mutation).1 = { mutation with payload } ∧
      (mutation.docType ≠ "Company" → payload = mutation.payload) := by
  unfold pinBooksLock
  split_ifs with hother
  · exact ⟨mutation.payload, rfl, fun _ => rfl⟩
  · have hcompany : mutation.docType = "Company" := by
      by_contra hne
      exact hother (by simp [hne])
    simp only
    split
    · exact ⟨_, rfl, fun hne => absurd hcompany hne⟩
    · exact ⟨mutation.payload, rfl, fun _ => rfl⟩

/-! ### The guard and the projection -/

/-- The low sixteen bits of an integer are positive as a signed number. -/
def NarrowsToOfficial (n : Int) : Prop := 1 ≤ n % 65536 ∧ n % 65536 < 32768

/-- A create or update whose docstatus is an integer that narrows to a submitted one. -/
def MutationRecord.Narrows (mutation : MutationRecord) : Prop :=
  mutation.isWrite = true ∧
    ∃ n, (mutation.payload.get "docstatus").bind Value.asI64 = some n ∧ NarrowsToOfficial n

theorem one_le_asI16_iff (n : Int) : 1 ≤ asI16 n ↔ NarrowsToOfficial n := by
  rw [asI16, NarrowsToOfficial, Int.bmod_def]
  split_ifs <;> omega

/-- The docstatus of the row an accepted mutation leaves, over a row that is no more than a draft: an
official one exactly when the narrowing makes it so. -/
theorem foldMutation_draft_iff {codec : Codec} {mutation : MutationRecord}
    (haccepted : Accepted mutation) (hdoctype : mutation.docType ∈ serverAuthorityDoctypes)
    {existing : Option CompanyDocument} (hexisting : ∀ doc, existing = some doc → doc.docstatus < 1)
    (company : Uuid) (now : DateTime) :
    (∀ doc, foldMutation codec existing mutation company now = .upsert doc → doc.docstatus < 1) ↔
      ¬ mutation.Narrows := by
  obtain ⟨hlifecycle, -⟩ := haccepted.draft hdoctype
  rw [MutationRecord.isLifecycle, Bool.or_eq_false_iff, decide_eq_false_iff_not,
    decide_eq_false_iff_not] at hlifecycle
  have hold : (existing.map fun doc => doc.docstatus).getD 0 < 1 := by
    cases existing with
    | none => exact Int.zero_lt_one
    | some doc => exact hexisting doc rfl
  cases hstatus : (mutation.payload.get "docstatus").bind Value.asI64 with
  | none =>
    -- the row keeps its docstatus, or starts as a draft
    refine iff_of_true (fun doc hdoc => ?_) fun ⟨_, n, hn, _⟩ => by rw [hstatus] at hn; cases hn
    unfold foldMutation at hdoc
    cases htype : mutation.mutationType with
    | createDocument =>
      simp only [htype, hstatus, ProjectionAction.upsert.injEq] at hdoc
      rw [← hdoc]
      exact Int.zero_lt_one
    | updateDocument =>
      simp only [htype, hstatus, ProjectionAction.upsert.injEq] at hdoc
      rw [← hdoc]
      exact hold
    | submitDocument => exact absurd htype hlifecycle.1
    | cancelDocument => exact absurd htype hlifecycle.2
    | _ =>
      simp only [htype] at hdoc
      cases hdoc
  | some n =>
    by_cases hwrite : mutation.isWrite = true
    · have hrow : ∃ doc, foldMutation codec existing mutation company now = .upsert doc ∧
          doc.docstatus = asI16 n := by
        rw [MutationRecord.isWrite, Bool.or_eq_true, decide_eq_true_iff, decide_eq_true_iff] at hwrite
        unfold foldMutation
        rcases hwrite with htype | htype
        · simp only [htype, hstatus]
          exact ⟨_, rfl, rfl⟩
        · simp only [htype, hstatus]
          exact ⟨_, rfl, rfl⟩
      obtain ⟨doc, hdoc, hdocstatus⟩ := hrow
      have hnarrows : mutation.Narrows ↔ 1 ≤ asI16 n := by
        rw [one_le_asI16_iff]
        constructor
        · rintro ⟨-, n', hn', hofficial⟩
          obtain rfl := Option.some.inj (hn'.symm.trans hstatus)
          exact hofficial
        · exact fun hofficial => ⟨hwrite, n, hstatus, hofficial⟩
      rw [hnarrows, not_le, ← hdocstatus]
      constructor
      · exact fun h => h doc hdoc
      · intro h doc' hdoc'
        obtain rfl := ProjectionAction.upsert.inj (hdoc.symm.trans hdoc')
        exact h
    · -- neither a write nor a lifecycle step: no row is written
      refine iff_of_true (fun doc hdoc => ?_) fun ⟨h, _⟩ => hwrite h
      rw [MutationRecord.isWrite, Bool.or_eq_true, decide_eq_true_iff, decide_eq_true_iff,
        not_or] at hwrite
      unfold foldMutation at hdoc
      cases htype : mutation.mutationType with
      | createDocument => exact absurd htype hwrite.1
      | updateDocument => exact absurd htype hwrite.2
      | submitDocument => exact absurd htype hlifecycle.1
      | cancelDocument => exact absurd htype hlifecycle.2
      | _ =>
        simp only [htype] at hdoc
        cases hdoc

end AtlasTeam
