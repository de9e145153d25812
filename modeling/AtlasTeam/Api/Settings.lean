import AtlasTeam.Posting.Prepared
import AtlasTeam.Store.Mem

/-!
# Company settings and the books lock (`api.rs`, `auth.rs`)

`putSettings` and `setBooksLock` are handlers that read the caller's role, and the settings, in steps
of their own before they write. A `Desk` holds the store, the memberships and the requests under way;
`Desk.step` moves one request by one step or changes a membership. The lock is decided on the value
the caller says it saw, and compared with the stored one only when it is written:
`booksLock_moves` connects the two over every run.
-/

namespace AtlasTeam

inductive Role where
  | owner
  | admin
  | sales
  | purchasing
  | stock
  | pos
  | accountant
  | advisor
deriving DecidableEq

def Role.asStr : Role → String
  | .owner => "owner"
  | .admin => "admin"
  | .sales => "sales"
  | .purchasing => "purchasing"
  | .stock => "stock"
  | .pos => "pos"
  | .accountant => "accountant"
  | .advisor => "advisor"

inductive ApiError where
  | unauthorized
  | forbidden
  | notFound
  | badRequest (reason : String)
  | conflict (reason : String)
  | gone (reason : String)
  | unprocessable (reason : String)
  | unavailable (reason : String)
  | store (error : StoreError)
  | internal (reason : String)
deriving DecidableEq

/-- The authenticated caller. -/
structure AuthContext where
  userId : Uuid
  companyId : Uuid
  deviceId : Option Uuid

/-- (user, company) to the role of the membership. -/
abbrev Memberships := Table (Uuid × Uuid) Role

/-- `require_membership`. -/
def requireMembership (memberships : Memberships) (auth : AuthContext) (companyId : Uuid) :
    Except ApiError Role :=
  if auth.deviceId.isSome ∧ auth.companyId ≠ companyId then .error .forbidden
  else
    match AList.lookup (auth.userId, companyId) memberships with
    | some role => .ok role
    | none => .error .forbidden

/-- `require_role`. -/
def requireRole (role : Role) (allowed : List Role) : Except ApiError Unit :=
  if role ∈ allowed then .ok () else .error .forbidden

/-! ### Settings as JSON -/

namespace CompanySettings

/-- `serde_json::to_value`. -/
def toMap (s : CompanySettings) : Map := SortedMap.Raw.ofList
  [("allow_negative_stock", .bool s.allowNegativeStock),
    ("books_lock_date", .ofOption s.booksLockDate),
    ("default_receivable_account", .string s.defaultReceivableAccount),
    ("default_payable_account", .string s.defaultPayableAccount),
    ("default_income_account", .string s.defaultIncomeAccount),
    ("default_expense_account", .string s.defaultExpenseAccount),
    ("default_cash_account", .string s.defaultCashAccount),
    ("default_inventory_account", .string s.defaultInventoryAccount),
    ("default_cogs_account", .string s.defaultCogsAccount),
    ("default_grni_account", .string s.defaultGrniAccount),
    ("default_stock_adjustment_account", .string s.defaultStockAdjustmentAccount),
    ("default_customer_deposit_account", .string s.defaultCustomerDepositAccount),
    ("default_vat_account", .string s.defaultVatAccount),
    ("stripe_payment_link_url", .ofOption s.stripePaymentLinkUrl),
    ("payment_instructions", .ofOption s.paymentInstructions)]

/-- A text field; one that is not sent keeps its default. -/
def readText (fields : Map) (key default : String) : Option String :=
  match fields.get key with
  | none => some default
  | some v => v.asStr

/-- An optional text field. -/
def readOptional (fields : Map) (key : String) : Option (Option String) :=
  match fields.get key with
  | none | some .null => some none
  | some v => v.asStr.map some

def readBool (fields : Map) (key : String) (default : Bool) : Option Bool :=
  match fields.get key with
  | none => some default
  | some (.bool b) => some b
  | some _ => none

/-- `serde_json::from_value`; `none` when a field has the wrong type. -/
def ofMap (fields : Map) : Option CompanySettings := do
  let d : CompanySettings := {}
  return { allowNegativeStock := ← readBool fields "allow_negative_stock" d.allowNegativeStock
           booksLockDate := ← readOptional fields "books_lock_date"
           defaultReceivableAccount :=
             ← readText fields "default_receivable_account" d.defaultReceivableAccount
           defaultPayableAccount :=
             ← readText fields "default_payable_account" d.defaultPayableAccount
           defaultIncomeAccount := ← readText fields "default_income_account" d.defaultIncomeAccount
           defaultExpenseAccount :=
             ← readText fields "default_expense_account" d.defaultExpenseAccount
           defaultCashAccount := ← readText fields "default_cash_account" d.defaultCashAccount
           defaultInventoryAccount :=
             ← readText fields "default_inventory_account" d.defaultInventoryAccount
           defaultCogsAccount := ← readText fields "default_cogs_account" d.defaultCogsAccount
           defaultGrniAccount := ← readText fields "default_grni_account" d.defaultGrniAccount
           defaultStockAdjustmentAccount :=
             ← readText fields "default_stock_adjustment_account" d.defaultStockAdjustmentAccount
           defaultCustomerDepositAccount :=
             ← readText fields "default_customer_deposit_account" d.defaultCustomerDepositAccount
           defaultVatAccount := ← readText fields "default_vat_account" d.defaultVatAccount
           stripePaymentLinkUrl := ← readOptional fields "stripe_payment_link_url"
           paymentInstructions := ← readOptional fields "payment_instructions" }

end CompanySettings

/-- Whether a sent value repeats an optional text. -/
def repeats (current : Option String) : Value → Bool
  | .null => current.isNone
  | .string s => current = some s
  | _ => false

/-- One field of the patch over the settings read. -/
def mergeField (current : CompanySettings) (target : Map) (entry : String × Value) :
    Except ApiError Map :=
  let (key, value) := entry
  if (target.get key).isNone then .error (.badRequest s!"unknown setting {key}")
  else if key = "books_lock_date" && !repeats current.booksLockDate value then
    .error (.conflict "the books lock is changed with commands/set-books-lock, not settings")
  else .ok (target.insert key value)

/-- `put_settings` between its read and its write; `serde`'s own words for a field of the wrong type
are left out. -/
def mergeSettings (current : CompanySettings) (patch : Value) : Except ApiError CompanySettings := do
  let some fields := patch.asObject | throw (.badRequest "settings body must be an object")
  let merged ← fields.foldlM (mergeField current) current.toMap
  let some settings := CompanySettings.ofMap merged | throw (.badRequest "invalid settings")
  return settings

/-! ### The books lock -/

structure SetBooksLockRequest where
  lockDate : Option String
  expectedCurrent : Option String
  reason : Option String

/-- `normalize`: a blank date is none, any other is validated. -/
def normalizeLock (today : String) (date : Option String) : Except ApiError (Option String) :=
  match date.map trim with
  | none => .ok none
  | some raw =>
    if raw = "" then .ok none
    else
      match validatedPostingDate today (Map.insert [] "posting_date" (.string raw)) with
      | .ok date => .ok (some date)
      | .error _ => .error (.unprocessable (debugText raw ++ " is not a YYYY-MM-DD date"))

/-- Whether a change clears the lock or moves it earlier. -/
def reopens (expected lockDate : Option String) : Bool :=
  match expected, lockDate with
  | some _, none => true
  | some old, some new => new < old
  | none, _ => false

/-- The change `set_books_lock` asks the store for; `latest` is tomorrow's date. -/
def lockChange (env : Env) (latest : String) (auth : AuthContext) (companyId : Uuid) (role : Role)
    (request : SetBooksLockRequest) : Except ApiError BooksLockChange := do
  requireRole role [.owner, .admin, .accountant]
  let lockDate ← normalizeLock env.today request.lockDate
  let expected ← normalizeLock env.today request.expectedCurrent
  if lockDate.any fun lock => latest < lock then
    throw (.unprocessable "the books can be locked through today at the latest")
  if reopens expected lockDate then requireRole role [.owner, .admin]
  let reason := (request.reason.map fun r => String.ofList ((trim r).toList.take 500)).filter
    fun r => r ≠ ""
  return { expectedCurrent := expected
           lockDate
           audit :=
             { id := env.uuid
               companyId
               userId := some auth.userId
               deviceId := auth.deviceId
               action := if lockDate.isNone then "settings.books_unlock" else "settings.books_lock"
               detail := .obj [("from", .ofOption expected), ("to", .ofOption lockDate),
                 ("role", .string role.asStr), ("reason", .ofOption reason)]
               at_ := env.now } }

/-! ### Requests under way -/

inductive DeskCommand where
  | putSettings (patch : Value)
  | setBooksLock (request : SetBooksLockRequest)

inductive DeskAnswer where
  | settings (settings : CompanySettings)
  | lock (outcome : BooksLockOutcome)

/-- Where a request stands, with what it has read. -/
inductive DeskPhase where
  | start
  /-- A settings request that has read its role. -/
  | reading
  | writing (settings : CompanySettings)
  /-- The settings are written, their audit row is not. -/
  | auditing (settings : CompanySettings)
  /-- A lock request with the role it has read and the change it asks for. -/
  | locking (role : Role) (change : BooksLockChange)
  | finished (result : Except ApiError DeskAnswer)

structure DeskRequest where
  auth : AuthContext
  companyId : Uuid
  command : DeskCommand
  phase : DeskPhase

structure Desk where
  inner : Inner := {}
  memberships : Memberships := ∅
  requests : List DeskRequest := []

/-- What reaches the desk; `latest` is tomorrow's date. -/
inductive DeskEvent where
  | arrive (auth : AuthContext) (companyId : Uuid) (command : DeskCommand)
  | advance (position : Nat) (env : Env) (latest : String)
  /-- A membership is granted, changed or withdrawn. -/
  | setRole (user company : Uuid) (role : Option Role)

/-- The audit row of a settings write. -/
def settingsAudit (env : Env) (auth : AuthContext) (companyId : Uuid) (patch : Value) : AuditEntry :=
  { id := env.uuid
    companyId
    userId := some auth.userId
    deviceId := auth.deviceId
    action := "settings.update"
    detail := patch
    at_ := env.now }

/-- The first step of a request: its role, and for a lock everything up to the store. -/
def DeskRequest.authorize (request : DeskRequest) (env : Env) (latest : String)
    (memberships : Memberships) : DeskPhase :=
  match requireMembership memberships request.auth request.companyId with
  | .error e => .finished (.error e)
  | .ok role =>
    match request.command with
    | .putSettings _ =>
      match requireRole role [.owner, .admin, .accountant] with
      | .error e => .finished (.error e)
      | .ok () => .reading
    | .setBooksLock lock =>
      match lockChange env latest request.auth request.companyId role lock with
      | .error e => .finished (.error e)
      | .ok change => .locking role change

/-- One step of a request: the phase it is in then, and the store. -/
def DeskRequest.advance (request : DeskRequest) (env : Env) (latest : String)
    (memberships : Memberships) (inner : Inner) : DeskPhase × Inner :=
  match request.phase, request.command with
  | .start, _ => (request.authorize env latest memberships, inner)
  | .reading, .putSettings patch =>
    match mergeSettings (inner.companySettings request.companyId) patch with
    | .error e => (.finished (.error e), inner)
    | .ok settings => (.writing settings, inner)
  | .writing settings, _ =>
    (.auditing settings, inner.putCompanySettings request.companyId settings)
  | .auditing settings, .putSettings patch =>
    (.finished (.ok (.settings settings)),
      { inner with
        audit := inner.audit ++ [settingsAudit env request.auth request.companyId patch] })
  | .locking _ change, _ =>
    match inner.setBooksLock request.companyId change with
    | (.error e, inner) => (.finished (.error (.store e)), inner)
    | (.ok outcome, inner) => (.finished (.ok (.lock outcome)), inner)
  | phase, _ => (phase, inner)

/-- One step of the desk. -/
def Desk.step (desk : Desk) (event : DeskEvent) : Desk :=
  match event with
  | .arrive auth companyId command =>
    { desk with requests := desk.requests ++ [{ auth, companyId, command, phase := .start }] }
  | .advance position env latest =>
    match desk.requests[position]? with
    | some request =>
      let (phase, inner) := request.advance env latest desk.memberships desk.inner
      { desk with inner, requests := desk.requests.set position { request with phase } }
    | none => desk
  | .setRole user company role =>
    { desk with
      memberships := match role with
        | some role => AList.insert (user, company) role desk.memberships
        | none => AList.erase (user, company) desk.memberships }

/-- The desk after a list of events, from an empty store. -/
def deskRun (events : List DeskEvent) : Desk := events.foldl Desk.step {}

/-- The lock stored for a company. -/
def Inner.booksLock (inner : Inner) (company : Uuid) : Option String :=
  (inner.companySettings company).booksLockDate

/-! ### What moves the lock -/

theorem deskRun_concat (events : List DeskEvent) (event : DeskEvent) :
    deskRun (events ++ [event]) = (deskRun events).step event := by
  rw [deskRun, List.foldl_append]
  rfl

/-- Writing settings keeps every lock. -/
theorem Inner.booksLock_putCompanySettings (inner : Inner) (company company' : Uuid)
    (settings : CompanySettings) :
    (inner.putCompanySettings company settings).booksLock company' = inner.booksLock company' := by
  simp only [Inner.booksLock, Inner.companySettings, Inner.putCompanySettings]
  by_cases h : company' = company
  · subst h
    rw [AList.lookup_insert, Option.getD_some]
    cases AList.lookup company' inner.settings <;> rfl
  · rw [AList.lookup_insert_ne h]

/-- A compare-and-set that moves a lock: it is the company's, it was what the change expected, and one
row joins the audit. -/
theorem Inner.setBooksLock_moves {inner : Inner} {company company' : Uuid} {change : BooksLockChange}
    (h : (inner.setBooksLock company change).2.booksLock company' ≠ inner.booksLock company') :
    company' = company ∧ inner.booksLock company = change.expectedCurrent ∧
      (inner.setBooksLock company change).2.booksLock company = change.lockDate ∧
      (inner.setBooksLock company change).2.audit = inner.audit ++ [change.audit] := by
  simp only [Inner.setBooksLock] at h ⊢
  split_ifs at h ⊢ with hsame hmoved
  · exact absurd rfl h
  · exact absurd rfl h
  · have hcompany : company' = company := by
      by_contra hne
      refine h ?_
      simp only [Inner.booksLock, Inner.companySettings]
      rw [AList.lookup_insert_ne hne]
    refine ⟨hcompany, not_not.1 hmoved, ?_, rfl⟩
    simp only [Inner.booksLock, Inner.companySettings]
    rw [AList.lookup_insert, Option.getD_some]

/-- A normalized lock is the date that was sent. -/
theorem normalizeLock_ok {today : String} {raw lock : Option String}
    (h : normalizeLock today raw = .ok lock) :
    lock = (raw.map trim).filter (· ≠ "") ∧ ∀ date, lock = some date → IsoDate date := by
  unfold normalizeLock at h
  split at h
  · rename_i hraw
    rw [hraw, ← Except.ok.inj h]
    exact ⟨rfl, fun _ h => nomatch h⟩
  · rename_i raw' hraw
    rw [hraw]
    obtain ⟨given, -, rfl⟩ := Option.map_eq_some_iff.1 hraw
    by_cases hempty : trim given = ""
    · rw [if_pos hempty] at h
      rw [← Except.ok.inj h, hempty]
      exact ⟨rfl, fun _ h => nomatch h⟩
    rw [if_neg hempty] at h
    have hprobe : (Map.insert [] "posting_date" (.string (trim given)) : Map).get "posting_date" =
      some (.string (trim given)) := Map.get_insert_self _ _ _
    simp only [validatedPostingDate, hprobe, trim_trim, if_neg hempty] at h
    split at h
    · rename_i found hfound
      split_ifs at hfound with hvalid
      obtain rfl := Except.ok.inj h
      obtain rfl := Except.ok.inj hfound
      simp only [Bool.and_eq_true] at hvalid
      refine ⟨?_, fun date hdate => ?_⟩
      · rw [Option.filter_some, if_pos (by simpa using hempty)]
      · obtain rfl := Option.some.inj hdate
        exact ⟨hvalid.1.1.1, hvalid.2⟩
    · cases h

/-- A normalized lock is a date. -/
theorem normalizeLock_iso {today date : String} {raw : Option String}
    (h : normalizeLock today raw = .ok (some date)) : IsoDate date :=
  (normalizeLock_ok h).2 date rfl

/-- What a lock request that goes on to the store has passed. -/
theorem lockChange_ok {env : Env} {latest : String} {auth : AuthContext} {companyId : Uuid}
    {role : Role} {request : SetBooksLockRequest} {change : BooksLockChange}
    (h : lockChange env latest auth companyId role request = .ok change) :
    role ∈ [Role.owner, .admin, .accountant] ∧
      normalizeLock env.today request.lockDate = .ok change.lockDate ∧
      normalizeLock env.today request.expectedCurrent = .ok change.expectedCurrent ∧
      (reopens change.expectedCurrent change.lockDate = true → role ∈ [Role.owner, .admin]) ∧
      change.audit.companyId = companyId ∧
      change.audit.detail.get "from" = some (.ofOption change.expectedCurrent) ∧
      change.audit.detail.get "to" = some (.ofOption change.lockDate) := by
  have hrole : ∀ allowed, requireRole role allowed = .ok () ↔ role ∈ allowed := by
    intro allowed
    unfold requireRole
    split_ifs with hmem <;> simp [hmem]
  simp only [lockChange, Except.bind_eq_ok, Except.throw_bind, Except.ite_throw_eq_ok] at h
  obtain ⟨⟨⟩, hallowed, lockDate, hlock, expected, hexpected, -, h⟩ := h
  have hdetail : ∀ reason : Option String,
      (Value.obj [("from", .ofOption expected), ("to", .ofOption lockDate),
        ("role", .string role.asStr), ("reason", .ofOption reason)]).get "from" =
          some (.ofOption expected) ∧
      (Value.obj [("from", .ofOption expected), ("to", .ofOption lockDate),
        ("role", .string role.asStr), ("reason", .ofOption reason)]).get "to" =
          some (.ofOption lockDate) := by
    intro reason
    rw [Value.get_obj, Value.get_obj]
    exact ⟨rfl, rfl⟩
  by_cases hreopens : reopens expected lockDate = true
  · simp only [hreopens, if_true, Except.bind_eq_ok, Except.pure_eq_ok] at h
    obtain ⟨⟨⟩, hadmin, rfl⟩ := h
    exact ⟨(hrole _).1 hallowed, hlock, hexpected, fun _ => (hrole _).1 hadmin, rfl, hdetail _⟩
  · rw [if_neg hreopens, Except.pure_eq_ok] at h
    obtain rfl := h
    exact ⟨(hrole _).1 hallowed, hlock, hexpected, fun h => absurd h hreopens, rfl, hdetail _⟩

/-- A lock request in front of the store: its change was made for it, by the role its caller had at
some moment of the run. -/
def DeskRequest.Entitled (events : List DeskEvent) (request : DeskRequest) : Prop :=
  ∀ role change, request.phase = .locking role change → ∃ lock env latest earlier,
    request.command = .setBooksLock lock ∧
    lockChange env latest request.auth request.companyId role lock = .ok change ∧
    earlier <+: events ∧
    AList.lookup (request.auth.userId, request.companyId) (deskRun earlier).memberships = some role

theorem DeskRequest.Entitled.mono {events : List DeskEvent} {request : DeskRequest}
    (h : request.Entitled events) (event : DeskEvent) : request.Entitled (events ++ [event]) := by
  intro role change hphase
  obtain ⟨lock, env, latest, earlier, hcommand, hchange, hearlier, hrole⟩ := h role change hphase
  exact ⟨lock, env, latest, earlier, hcommand, hchange, hearlier.trans (List.prefix_append _ _), hrole⟩

/-- A request reaches the store only through its first step. -/
theorem DeskRequest.advance_locking {request : DeskRequest} {env : Env} {latest : String}
    {memberships : Memberships} {inner : Inner} {role : Role} {change : BooksLockChange}
    (hphase : ∀ role change, request.phase ≠ .locking role change)
    (h : (request.advance env latest memberships inner).1 = .locking role change) :
    ∃ lock, request.command = .setBooksLock lock ∧
      lockChange env latest request.auth request.companyId role lock = .ok change ∧
      AList.lookup (request.auth.userId, request.companyId) memberships = some role := by
  obtain ⟨auth, companyId, command, phase⟩ := request
  cases phase with
  | start =>
    simp only [DeskRequest.advance, DeskRequest.authorize, requireMembership] at h
    split at h
    · cases h
    · rename_i found hfound
      split_ifs at hfound
      split at hfound
      · rename_i stored hstored
        obtain rfl := Except.ok.inj hfound
        cases command with
        | putSettings patch =>
          simp only at h
          split at h <;> cases h
        | setBooksLock lock =>
          simp only at h
          split at h
          · cases h
          · rename_i made hmade
            obtain ⟨rfl, rfl⟩ := DeskPhase.locking.inj h
            exact ⟨lock, rfl, hmade, hstored⟩
      · cases hfound
  | reading =>
    cases command with
    | putSettings patch =>
      simp only [DeskRequest.advance] at h
      split at h <;> cases h
    | setBooksLock lock => cases h
  | writing settings => cases h
  | auditing settings => cases command <;> cases h
  | locking role' change' => exact absurd rfl (hphase role' change')
  | finished result => cases h

/-- A step moves a lock only in the store's compare-and-set. -/
theorem DeskRequest.advance_moves {request : DeskRequest} {env : Env} {latest : String}
    {memberships : Memberships} {inner : Inner} {company : Uuid}
    (h : (request.advance env latest memberships inner).2.booksLock company ≠
      inner.booksLock company) :
    ∃ role change, request.phase = .locking role change ∧
      (request.advance env latest memberships inner).2 =
        (inner.setBooksLock request.companyId change).2 := by
  obtain ⟨auth, companyId, command, phase⟩ := request
  cases phase with
  | locking role change =>
    refine ⟨role, change, rfl, ?_⟩
    simp only [DeskRequest.advance]
    split <;> rename_i hrun <;> rw [hrun]
  | writing settings => exact absurd (inner.booksLock_putCompanySettings _ _ _) h
  | start => exact absurd rfl h
  | reading =>
    refine absurd ?_ h
    cases command with
    | putSettings patch =>
      simp only [DeskRequest.advance]
      split <;> rfl
    | setBooksLock lock => rfl
  | auditing settings => cases command <;> exact absurd rfl h
  | finished result => exact absurd rfl h

/-- Every request in front of the store is entitled. -/
theorem deskRun_entitled (events : List DeskEvent) :
    ∀ request ∈ (deskRun events).requests, request.Entitled events := by
  induction events using List.reverseRecOn with
  | nil => exact fun request h => absurd h List.not_mem_nil
  | append_singleton events event ih =>
    rw [deskRun_concat]
    have hold : ∀ request ∈ (deskRun events).requests, request.Entitled (events ++ [event]) :=
      fun request h => (ih request h).mono event
    cases event with
    | arrive auth companyId command =>
      intro request hrequest
      rcases List.mem_append.1 hrequest with hrequest | hrequest
      · exact hold request hrequest
      · obtain rfl := List.mem_singleton.1 hrequest
        exact fun role change hphase => DeskPhase.noConfusion hphase
    | setRole user company role => exact hold
    | advance position env latest =>
      cases hposition : (deskRun events).requests[position]? with
      | none => simpa [Desk.step, hposition] using hold
      | some moved =>
        simp only [Desk.step, hposition]
        intro request hrequest
        rcases List.mem_or_eq_of_mem_set hrequest with hrequest | rfl
        · exact hold request hrequest
        intro role change hphase
        by_cases hlocking : ∀ role change, moved.phase ≠ .locking role change
        · obtain ⟨lock, hcommand, hchange, hrole⟩ := DeskRequest.advance_locking hlocking hphase
          exact ⟨lock, env, latest, events, hcommand, hchange, List.prefix_append _ _, hrole⟩
        · -- a compare-and-set ends its request
          simp only [not_forall, not_not] at hlocking
          obtain ⟨role', change', hmoved⟩ := hlocking
          simp only [DeskRequest.advance, hmoved] at hphase
          split at hphase <;> cases hphase

/-- In every run the lock of a company moves only in a compare-and-set whose expected value is the
stored one; clearing it or moving it to an earlier day takes a caller who was read as Owner or Admin,
any other move one who was read as Owner, Admin or Accountant; and each move appends one audit row with
the values before and after. -/
theorem booksLock_moves (events : List DeskEvent) (event : DeskEvent) (company : Uuid)
    (h : (deskRun (events ++ [event])).inner.booksLock company ≠
      (deskRun events).inner.booksLock company) :
    let before := (deskRun events).inner
    let after := (deskRun (events ++ [event])).inner
    ∃ position env latest request role change lock,
      event = .advance position env latest ∧ (deskRun events).requests[position]? = some request ∧
      request.companyId = company ∧ request.command = .setBooksLock lock ∧
      request.phase = .locking role change ∧ after = (before.setBooksLock company change).2 ∧
      (∃ today, normalizeLock today lock.expectedCurrent = .ok (before.booksLock company)) ∧
      (∃ earlier, earlier <+: events ∧
        AList.lookup (request.auth.userId, company) (deskRun earlier).memberships = some role) ∧
      role ∈ [Role.owner, .admin, .accountant] ∧
      (after.booksLock company = none ∨ (∃ old new, before.booksLock company = some old ∧
        after.booksLock company = some new ∧ calendarDate new < calendarDate old) →
        role ∈ [Role.owner, .admin]) ∧
      ∃ row, after.audit = before.audit ++ [row] ∧ row.companyId = company ∧
        row.detail.get "from" = some (.ofOption (before.booksLock company)) ∧
        row.detail.get "to" = some (.ofOption (after.booksLock company)) := by
  intro before after
  have hstep : deskRun (events ++ [event]) = (deskRun events).step event := deskRun_concat events event
  cases event with
  | arrive auth companyId command => exact absurd (by rw [hstep]; rfl) h
  | setRole user company role => exact absurd (by rw [hstep]; rfl) h
  | advance position env latest =>
    cases hposition : (deskRun events).requests[position]? with
    | none => exact absurd (by rw [hstep]; simp [Desk.step, hposition]) h
    | some request =>
      have hafter : after = (request.advance env latest (deskRun events).memberships before).2 := by
        show (deskRun (events ++ [DeskEvent.advance position env latest])).inner = _
        rw [hstep]
        simp only [Desk.step, hposition]
        rfl
      have hmoved : (request.advance env latest (deskRun events).memberships before).2.booksLock company ≠
          before.booksLock company := hafter ▸ h
      obtain ⟨role, change, hphase, hset⟩ := DeskRequest.advance_moves hmoved
      rw [hset] at hmoved
      obtain ⟨rfl, hexpected, hlock, haudit⟩ := Inner.setBooksLock_moves hmoved
      obtain ⟨lock, env', latest', earlier, hcommand, hchange, hearlier, hrole⟩ :=
        deskRun_entitled events request (List.mem_of_getElem? hposition) role change hphase
      obtain ⟨hallowed, hnormalLock, hnormalExpected, hadmin, hcompany, hfrom, hto⟩ :=
        lockChange_ok hchange
      rw [← hset, ← hafter] at hlock haudit
      rw [← hexpected] at hnormalExpected hfrom hadmin
      rw [← hlock] at hnormalLock hto hadmin
      refine ⟨position, env, latest, request, role, change, lock, rfl, hposition, rfl, hcommand, hphase,
        hafter.trans hset, ⟨env'.today, hnormalExpected⟩, ⟨earlier, hearlier, hrole⟩, hallowed, ?_,
        change.audit, haudit, hcompany, hfrom, hto⟩
      intro hreopening
      refine hadmin ?_
      rcases hreopening with hcleared | ⟨old, new, hold, hnew, hearlierDay⟩
      · cases hbefore : before.booksLock request.companyId with
        | none => exact absurd (hcleared.trans hbefore.symm) h
        | some old =>
          rw [hcleared]
          rfl
      · rw [hold] at hnormalExpected ⊢
        rw [hnew] at hnormalLock ⊢
        have hless := (calendarDate_lt_iff (normalizeLock_iso hnormalLock)
          (normalizeLock_iso hnormalExpected)).1 hearlierDay
        simpa [reopens] using hless

/-- An owner asks for the books to be locked through January. -/
def lockJanuary : List DeskEvent :=
  [.setRole 7 1 (some .owner),
    .arrive ⟨7, 1, none⟩ 1 (.setBooksLock ⟨some "2026-01-31", none, some "month end"⟩),
    .advance 0 ⟨0, "2026-02-03", 0⟩ "2026-02-04"]

theorem booksLock_moves_january :
    let step : DeskEvent := .advance 0 ⟨0, "2026-02-03", 0⟩ "2026-02-04"
    (deskRun (lockJanuary ++ [step])).inner.booksLock 1 = some "2026-01-31" ∧
    ∃ row, (deskRun (lockJanuary ++ [step])).inner.audit = (deskRun lockJanuary).inner.audit ++ [row] ∧
      row.detail.get "from" = some .null ∧ row.detail.get "to" = some (.string "2026-01-31") := by
  intro step
  have hbefore : (deskRun lockJanuary).inner.booksLock 1 = none := by decide +kernel
  have hafter : (deskRun (lockJanuary ++ [step])).inner.booksLock 1 = some "2026-01-31" := by
    decide +kernel
  obtain ⟨_, _, _, _, _, _, _, -, -, -, -, -, -, -, -, -, -, row, haudit, -, hfrom, hto⟩ :=
    booksLock_moves lockJanuary step 1 (by rw [hbefore, hafter]; exact Option.some_ne_none _)
  rw [hbefore] at hfrom
  rw [hafter] at hto
  exact ⟨hafter, row, haudit, hfrom, hto⟩

end AtlasTeam
