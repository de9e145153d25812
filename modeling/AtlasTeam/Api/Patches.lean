import AtlasTeam.Api.Settings
import AtlasTeam.Lib.Runs

/-!
# Settings patches that overlap (`api.rs`)

`put_settings` writes a whole row: its patch over the settings it read in an earlier call. `putSettings`
of another request in between is lost with every key the patch does not name; only the books lock is
kept by the store. `patches_kept` says that the settings hold every accepted patch in each run whose
writes meet, outside their patch, what they had read.
-/

namespace AtlasTeam

/-- The value under a setting's key. -/
def CompanySettings.setting (s : CompanySettings) (key : String) : Option Value := s.toMap.get key

namespace CompanySettings
variable {s : CompanySettings}

/-- Every field under its key, the last one first. -/
def fields (s : CompanySettings) : List (String × Value) :=
  [("payment_instructions", .ofOption s.paymentInstructions),
    ("stripe_payment_link_url", .ofOption s.stripePaymentLinkUrl),
    ("default_vat_account", .string s.defaultVatAccount),
    ("default_customer_deposit_account", .string s.defaultCustomerDepositAccount),
    ("default_stock_adjustment_account", .string s.defaultStockAdjustmentAccount),
    ("default_grni_account", .string s.defaultGrniAccount),
    ("default_cogs_account", .string s.defaultCogsAccount),
    ("default_inventory_account", .string s.defaultInventoryAccount),
    ("default_cash_account", .string s.defaultCashAccount),
    ("default_expense_account", .string s.defaultExpenseAccount),
    ("default_income_account", .string s.defaultIncomeAccount),
    ("default_payable_account", .string s.defaultPayableAccount),
    ("default_receivable_account", .string s.defaultReceivableAccount),
    ("books_lock_date", .ofOption s.booksLockDate),
    ("allow_negative_stock", .bool s.allowNegativeStock)]

theorem setting_eq (s : CompanySettings) (key : String) : s.setting key = s.fields.lookup key :=
  SortedMap.Raw.lookup_ofList _ key

def settingKeys : List String := ({} : CompanySettings).fields.map Prod.fst

theorem mem_settingKeys {key : String} : (s.setting key).isSome ↔ key ∈ settingKeys := by
  have hkeys : settingKeys = s.fields.map Prod.fst := rfl
  rw [hkeys, setting_eq]
  generalize s.fields = fields
  induction fields with
  | nil => simp
  | cons e fields ih =>
    rw [List.lookup_cons]
    by_cases h : key = e.1
    · simp [h]
    · have hb : (key == e.1) = false := by simpa using h
      simp [h, hb, ih]

theorem isSome_setting_congr (s s' : CompanySettings) (key : String) :
    (s.setting key).isSome = (s'.setting key).isSome := by
  rw [Bool.eq_iff_iff, mem_settingKeys, mem_settingKeys]

theorem setting_lock (s : CompanySettings) :
    s.setting "books_lock_date" = some (.ofOption s.booksLockDate) := by
  rw [setting_eq]
  rfl

theorem setting_withLock {key : String} (h : key ≠ "books_lock_date") (lock : Option String) :
    { s with booksLockDate := lock }.setting key = s.setting key := by
  have hb : (key == "books_lock_date") = false := by simpa using h
  simp only [setting_eq, fields, List.lookup_cons, hb]

theorem readText_some {m : Map} {key d t : String} {v : Value} (hv : m.get key = some v)
    (h : readText m key d = some t) : v = .string t := by
  rw [readText, hv] at h
  cases v <;> cases h
  rfl

theorem readOptional_some {m : Map} {key : String} {t : Option String} {v : Value}
    (hv : m.get key = some v) (h : readOptional m key = some t) : v = .ofOption t := by
  rw [readOptional, hv] at h
  cases v <;> cases h <;> rfl

theorem readBool_some {m : Map} {key : String} {d b : Bool} {v : Value} (hv : m.get key = some v)
    (h : readBool m key d = some b) : v = .bool b := by
  rw [readBool, hv] at h
  cases v <;> cases h
  rfl

/-- Settings read from a map that has every key hold what is under it. -/
theorem setting_ofMap {m : Map} (h : ofMap m = some s) (current : CompanySettings)
    (hkeys : ∀ key, (m.get key).isSome = (current.setting key).isSome) (key : String) :
    s.setting key = m.get key := by
  have hkey := hkeys key
  rw [isSome_setting_congr current s] at hkey
  cases hv : m.get key with
  | none =>
    rw [hv, Option.isSome_none] at hkey
    exact Option.not_isSome_iff_eq_none.1 (by rw [← hkey]; exact Bool.false_ne_true)
  | some v =>
    rw [hv, Option.isSome_some] at hkey
    have hmem := mem_settingKeys.1 hkey.symm
    unfold ofMap at h
    obtain ⟨allow, hallow, h⟩ := Option.bind_eq_some_iff.1 h
    obtain ⟨lock, hlock, h⟩ := Option.bind_eq_some_iff.1 h
    obtain ⟨receivable, hreceivable, h⟩ := Option.bind_eq_some_iff.1 h
    obtain ⟨payable, hpayable, h⟩ := Option.bind_eq_some_iff.1 h
    obtain ⟨income, hincome, h⟩ := Option.bind_eq_some_iff.1 h
    obtain ⟨expense, hexpense, h⟩ := Option.bind_eq_some_iff.1 h
    obtain ⟨cash, hcash, h⟩ := Option.bind_eq_some_iff.1 h
    obtain ⟨inventory, hinventory, h⟩ := Option.bind_eq_some_iff.1 h
    obtain ⟨cogs, hcogs, h⟩ := Option.bind_eq_some_iff.1 h
    obtain ⟨grni, hgrni, h⟩ := Option.bind_eq_some_iff.1 h
    obtain ⟨adjustment, hadjustment, h⟩ := Option.bind_eq_some_iff.1 h
    obtain ⟨deposit, hdeposit, h⟩ := Option.bind_eq_some_iff.1 h
    obtain ⟨vat, hvat, h⟩ := Option.bind_eq_some_iff.1 h
    obtain ⟨stripe, hstripe, h⟩ := Option.bind_eq_some_iff.1 h
    obtain ⟨instructions, hinstructions, h⟩ := Option.bind_eq_some_iff.1 h
    obtain rfl := Option.some.inj h
    simp only [settingKeys, fields, List.map_cons, List.map_nil, List.mem_cons, List.not_mem_nil,
      or_false] at hmem
    rcases hmem with rfl | rfl | rfl | rfl | rfl | rfl | rfl | rfl | rfl | rfl | rfl | rfl | rfl | rfl | rfl
    · rw [readOptional_some hv hinstructions, setting_eq]
      rfl
    · rw [readOptional_some hv hstripe, setting_eq]
      rfl
    · rw [readText_some hv hvat, setting_eq]
      rfl
    · rw [readText_some hv hdeposit, setting_eq]
      rfl
    · rw [readText_some hv hadjustment, setting_eq]
      rfl
    · rw [readText_some hv hgrni, setting_eq]
      rfl
    · rw [readText_some hv hcogs, setting_eq]
      rfl
    · rw [readText_some hv hinventory, setting_eq]
      rfl
    · rw [readText_some hv hcash, setting_eq]
      rfl
    · rw [readText_some hv hexpense, setting_eq]
      rfl
    · rw [readText_some hv hincome, setting_eq]
      rfl
    · rw [readText_some hv hpayable, setting_eq]
      rfl
    · rw [readText_some hv hreceivable, setting_eq]
      rfl
    · rw [readOptional_some hv hlock, setting_eq]
      rfl
    · rw [readBool_some hv hallow, setting_eq]
      rfl

end CompanySettings

/-! ### One request -/

/-- What a `put_settings` body asks for under a key. -/
def patchValue (patch : Value) (key : String) : Option Value :=
  (SortedMap.Raw.ofList (patch.asObject.getD [])).lookup key

/-- What a request asks for under a setting's key. -/
def DeskCommand.patch (key : String) : DeskCommand → Option Value
  | .putSettings patch => patchValue patch key
  | .setBooksLock lock =>
    if key = "books_lock_date" then some (.ofOption ((lock.lockDate.map trim).filter (· ≠ ""))) else none

theorem repeats_eq {current : Option String} {v : Value} (h : repeats current v = true) :
    v = .ofOption current := by
  cases v with
  | null =>
    obtain rfl := Option.isNone_iff_eq_none.1 h
    rfl
  | string s =>
    obtain rfl := of_decide_eq_true h
    rfl
  | _ => cases h

theorem mergeField_ok {current : CompanySettings} {target merged : Map} {entry : String × Value}
    (h : mergeField current target entry = .ok merged) :
    (target.get entry.1).isSome ∧ merged = target.insert entry.1 entry.2 ∧
      (entry.1 = "books_lock_date" → entry.2 = .ofOption current.booksLockDate) := by
  obtain ⟨key, value⟩ := entry
  simp only [mergeField] at h
  split_ifs at h with hunknown hlock
  have hknown : (target.get key).isSome := by
    rw [← Option.not_isNone, Bool.not_eq_true', Bool.eq_false_iff]
    exact hunknown
  refine ⟨hknown, (Except.ok.inj h).symm, fun hkey => ?_⟩
  simp only [Bool.and_eq_true, decide_eq_true_eq, Bool.not_eq_true', not_and, Bool.not_eq_false] at hlock
  exact repeats_eq (hlock hkey)

theorem foldlM_mergeField {current : CompanySettings} {target : Map} (fields : Map) {merged : Map}
    (h : fields.foldlM (mergeField current) target = .ok merged) :
    (∀ key, merged.get key = (fields.reverse.lookup key).or (target.get key)) ∧
      (∀ key, (merged.get key).isSome = (target.get key).isSome) ∧
      (∀ v, fields.reverse.lookup "books_lock_date" = some v → v = .ofOption current.booksLockDate) := by
  induction fields using List.reverseRecOn generalizing merged with
  | nil =>
    obtain rfl := Except.ok.inj h
    exact ⟨fun _ => rfl, fun _ => rfl, fun _ h => nomatch h⟩
  | append_singleton fields entry ih =>
    rw [List.foldlM_append, Except.bind_eq_ok] at h
    obtain ⟨earlier, hearlier, h⟩ := h
    rw [List.foldlM_cons, Except.bind_eq_ok] at h
    obtain ⟨last, hlast, h⟩ := h
    obtain rfl := Except.ok.inj h
    obtain ⟨hget, hsome, hlock⟩ := ih hearlier
    obtain ⟨hknown, rfl, hrepeats⟩ := mergeField_ok hlast
    rw [List.reverse_concat]
    refine ⟨fun key => ?_, fun key => ?_, fun v hv => ?_⟩
    · by_cases hkey : key = entry.1
      · subst hkey
        rw [Map.get_insert_self, List.lookup_cons, beq_self_eq_true]
        rfl
      · have hb : (key == entry.1) = false := by simpa using hkey
        rw [Map.get_insert_ne _ hkey, List.lookup_cons, hb, hget]
    · by_cases hkey : key = entry.1
      · subst hkey
        rw [Map.get_insert_self, ← hsome, hknown, Option.isSome_some]
      · rw [Map.get_insert_ne _ hkey, hsome]
    · by_cases hkey : "books_lock_date" = entry.1
      · rw [← hrepeats hkey.symm]
        rw [List.lookup_cons, ← hkey, beq_self_eq_true] at hv
        exact (Option.some.inj hv).symm
      · have hb : ("books_lock_date" == entry.1) = false := by simpa using hkey
        rw [List.lookup_cons, hb] at hv
        exact hlock v hv

/-- A merged patch holds what it asks for, and what was read everywhere else; the lock is as it was
read. -/
theorem mergeSettings_ok {current settings : CompanySettings} {patch : Value}
    (h : mergeSettings current patch = .ok settings) :
    (∀ key, settings.setting key = (patchValue patch key).or (current.setting key)) ∧
      (∀ v, patchValue patch "books_lock_date" = some v → v = .ofOption current.booksLockDate) := by
  unfold mergeSettings at h
  cases hfields : patch.asObject with
  | none =>
    rw [hfields] at h
    cases h
  | some fields =>
    rw [hfields] at h
    simp only [Except.bind_eq_ok] at h
    obtain ⟨merged, hmerged, h⟩ := h
    obtain ⟨hget, hsome, hlock⟩ := foldlM_mergeField fields hmerged
    have hvalue : ∀ key, patchValue patch key = fields.reverse.lookup key := by
      intro key
      rw [patchValue, hfields, Option.getD_some, SortedMap.Raw.lookup_ofList]
    cases hread : CompanySettings.ofMap merged with
    | none =>
      rw [hread] at h
      cases h
    | some read =>
      rw [hread] at h
      obtain rfl := Except.ok.inj h
      refine ⟨fun key => ?_, fun v hv => hlock v (hvalue _ ▸ hv)⟩
      rw [CompanySettings.setting_ofMap hread current hsome, hget, hvalue]
      rfl

/-! ### What a step does to the settings -/

/-- The settings, or the lock, of a request are written. -/
def DeskPhase.accepted : DeskPhase → Bool
  | .auditing _ | .finished (.ok _) => true
  | _ => false

/-- The settings a request is about to write. -/
def DeskPhase.pendingSettings : DeskPhase → Option CompanySettings
  | .writing settings => some settings
  | _ => none

theorem Inner.setting_putCompanySettings (inner : Inner) (company company' : Uuid)
    (settings : CompanySettings) (key : String) :
    ((inner.putCompanySettings company settings).companySettings company').setting key =
      if company' = company ∧ key ≠ "books_lock_date" then settings.setting key
      else (inner.companySettings company').setting key := by
  simp only [Inner.companySettings, Inner.putCompanySettings]
  by_cases hcompany : company' = company
  · subst hcompany
    rw [AList.lookup_insert, Option.getD_some]
    by_cases hkey : key = "books_lock_date"
    · subst hkey
      rw [if_neg fun h => h.2 rfl, CompanySettings.setting_lock, CompanySettings.setting_lock]
      cases AList.lookup company' inner.settings <;> rfl
    · rw [if_pos ⟨rfl, hkey⟩, CompanySettings.setting_withLock hkey]
  · rw [if_neg fun h => hcompany h.1, AList.lookup_insert_ne hcompany]

theorem Inner.setting_setBooksLock {inner inner' : Inner} {company : Uuid} {change : BooksLockChange}
    {outcome : BooksLockOutcome} (h : inner.setBooksLock company change = (.ok outcome, inner'))
    (company' : Uuid) (key : String) :
    (inner'.companySettings company').setting key =
      if company' = company ∧ key = "books_lock_date" then some (.ofOption change.lockDate)
      else (inner.companySettings company').setting key := by
  simp only [Inner.setBooksLock] at h
  split_ifs at h with hsame hmoved
  · obtain rfl := (Prod.mk.inj h).2
    split_ifs with heq
    · rw [heq.1, heq.2, CompanySettings.setting_lock, hsame]
    · rfl
  · cases (Prod.mk.inj h).1
  · obtain rfl := (Prod.mk.inj h).2
    simp only [Inner.companySettings]
    by_cases hcompany : company' = company
    · subst hcompany
      rw [AList.lookup_insert, Option.getD_some]
      by_cases hkey : key = "books_lock_date"
      · subst hkey
        rw [if_pos ⟨rfl, rfl⟩, CompanySettings.setting_lock]
      · rw [if_neg fun h => hkey h.2, CompanySettings.setting_withLock hkey]
    · rw [if_neg fun h => hcompany h.1, AList.lookup_insert_ne hcompany]

/-- A step keeps the settings and what is accepted, or it writes settings, or it moves the lock. -/
theorem DeskRequest.advance_settings (request : DeskRequest) (env : Env) (latest : String)
    (memberships : Memberships) (inner : Inner) :
    let moved := request.advance env latest memberships inner
    (moved.2.settings = inner.settings ∧ moved.1.accepted = request.phase.accepted) ∨
      (∃ settings, request.phase = .writing settings ∧
        moved = (.auditing settings, inner.putCompanySettings request.companyId settings)) ∨
      ∃ role change outcome, request.phase = .locking role change ∧
        moved.1 = .finished (.ok (.lock outcome)) ∧
        inner.setBooksLock request.companyId change = (.ok outcome, moved.2) := by
  obtain ⟨auth, companyId, command, phase⟩ := request
  cases phase with
  | start =>
    refine .inl ⟨rfl, ?_⟩
    simp only [DeskRequest.advance, DeskRequest.authorize]
    split
    · rfl
    · split <;> split <;> rfl
  | reading =>
    refine .inl ?_
    cases command with
    | putSettings patch =>
      simp only [DeskRequest.advance]
      split <;> exact ⟨rfl, rfl⟩
    | setBooksLock lock => exact ⟨rfl, rfl⟩
  | writing settings => exact .inr (.inl ⟨settings, rfl, rfl⟩)
  | auditing settings => cases command <;> exact .inl ⟨rfl, rfl⟩
  | locking role change =>
    simp only [DeskRequest.advance]
    split
    · rename_i e inner' hrun
      refine .inl ⟨?_, rfl⟩
      simp only [Inner.setBooksLock] at hrun
      split_ifs at hrun
      · cases (Prod.mk.inj hrun).1
      · rw [← (Prod.mk.inj hrun).2]
      · cases (Prod.mk.inj hrun).1
    · rename_i outcome inner' hrun
      exact .inr (.inr ⟨role, change, outcome, rfl, rfl, hrun⟩)
  | finished result => exact .inl ⟨rfl, rfl⟩

/-- A compare-and-set ends its request. -/
theorem DeskRequest.advance_locking_fresh {request : DeskRequest} {env : Env} {latest : String}
    {memberships : Memberships} {inner : Inner} {role : Role} {change : BooksLockChange}
    (h : (request.advance env latest memberships inner).1 = .locking role change) :
    ∀ role change, request.phase ≠ .locking role change := by
  rintro role' change' hphase
  simp only [DeskRequest.advance, hphase] at h
  split at h <;> cases h

/-- A settings request comes in front of its write from its read. -/
theorem DeskRequest.advance_writing {request : DeskRequest} {env : Env} {latest : String}
    {memberships : Memberships} {inner : Inner} {settings : CompanySettings}
    (h : (request.advance env latest memberships inner).1 = .writing settings) :
    ∃ patch, request.command = .putSettings patch ∧
      mergeSettings (inner.companySettings request.companyId) patch = .ok settings := by
  obtain ⟨auth, companyId, command, phase⟩ := request
  cases phase with
  | start =>
    exfalso
    simp only [DeskRequest.advance, DeskRequest.authorize] at h
    split at h
    · cases h
    · split at h <;> split at h <;> cases h
  | reading =>
    cases command with
    | putSettings patch =>
      simp only [DeskRequest.advance] at h
      split at h
      · cases h
      · rename_i merged hmerged
        obtain rfl := DeskPhase.writing.inj h
        exact ⟨patch, rfl, hmerged⟩
    | setBooksLock lock => cases h
  | writing settings' => cases h
  | auditing settings' => cases command <;> cases h
  | locking role change =>
    simp only [DeskRequest.advance] at h
    split at h <;> cases h
  | finished result => cases h

/-- What is accepted stays accepted. -/
theorem DeskRequest.advance_accepted (request : DeskRequest) (env : Env) (latest : String)
    (memberships : Memberships) (inner : Inner) (h : request.phase.accepted = true) :
    (request.advance env latest memberships inner).1.accepted = true := by
  rcases request.advance_settings env latest memberships inner with
    ⟨-, hsame⟩ | ⟨settings, hphase, -⟩ | ⟨role, change, outcome, hphase, -⟩
  · rw [hsame, h]
  · rw [hphase] at h
    cases h
  · rw [hphase] at h
    cases h

/-! ### Every accepted patch is kept -/

namespace Desk

def setting (desk : Desk) (company : Uuid) (key : String) : Option Value :=
  (desk.inner.companySettings company).setting key

/-- What the accepted requests of a company ask for under a key. -/
def acceptedPatches (desk : Desk) (company : Uuid) (key : String) : List Value :=
  (desk.requests.filter fun request => request.companyId = company ∧ request.phase.accepted).filterMap
    fun request => request.command.patch key

/-- A key that accepted requests patched has the value of one of them; one that none patched has its
value from the start. -/
structure PatchesKept (start desk : Desk) (company : Uuid) : Prop where
  patched : ∀ key, desk.acceptedPatches company key ≠ [] →
    ∃ v ∈ desk.acceptedPatches company key, desk.setting company key = some v
  once : ∀ key v, desk.acceptedPatches company key = [v] → desk.setting company key = some v
  untouched : ∀ key, desk.acceptedPatches company key = [] →
    desk.setting company key = start.setting company key

/-- The request that an event moves. -/
def moved (desk : Desk) : DeskEvent → Option DeskRequest
  | .advance position _ _ => desk.requests[position]?
  | _ => none

/-- Settings of the company are written over a row that, outside the patch and the lock, still is the one
that was read. -/
def WritesWhatItRead (desk : Desk) (company : Uuid) (event : DeskEvent) : Prop :=
  ∀ request ∈ desk.moved event, request.companyId = company →
    ∀ settings ∈ request.phase.pendingSettings, ∀ key ∈ CompanySettings.settingKeys,
      key ≠ "books_lock_date" → request.command.patch key = none →
        settings.setting key = desk.setting company key

instance (desk : Desk) (company : Uuid) (event : DeskEvent) :
    Decidable (desk.WritesWhatItRead company event) :=
  inferInstanceAs (Decidable (∀ request ∈ desk.moved event, _))

theorem mem_acceptedPatches {desk : Desk} {company : Uuid} {key : String} {v : Value} :
    v ∈ desk.acceptedPatches company key ↔ ∃ (i : Nat) (request : DeskRequest),
      desk.requests[i]? = some request ∧ request.companyId = company ∧ request.phase.accepted = true ∧
        request.command.patch key = some v := by
  simp only [acceptedPatches, List.mem_filterMap, List.mem_filter, decide_eq_true_eq]
  constructor
  · rintro ⟨request, ⟨hmem, hcompany, haccepted⟩, hv⟩
    obtain ⟨i, hi⟩ := List.mem_iff_getElem?.1 hmem
    exact ⟨i, request, hi, hcompany, haccepted, hv⟩
  · rintro ⟨i, request, hi, hcompany, haccepted, hv⟩
    exact ⟨request, ⟨List.mem_of_getElem? hi, hcompany, haccepted⟩, hv⟩

/-- The desk after a request has moved. -/
def moveTo (desk : Desk) (position : Nat) (request : DeskRequest) (moved : DeskPhase × Inner) : Desk :=
  { desk with
    inner := moved.2
    requests := desk.requests.set position { request with phase := moved.1 } }

/-- A key holds an accepted patch. -/
def Current (desk : Desk) (company : Uuid) (key : String) : Prop :=
  ∃ v ∈ desk.acceptedPatches company key, desk.setting company key = some v

/-- What every step keeps. A request in front of its write holds its patch; a lock that it repeats still
is the stored one unless a lock command was accepted since. -/
structure Settled (start desk : Desk) (company : Uuid) : Prop where
  kept : ∀ key, desk.Current company key ∨ (∀ v, v ∉ desk.acceptedPatches company key) ∧
    desk.setting company key = start.setting company key
  writing : ∀ request ∈ desk.requests, request.companyId = company →
    ∀ settings, request.phase = .writing settings → ∀ key v, request.command.patch key = some v →
      (key ≠ "books_lock_date" → settings.setting key = some v) ∧
      (key = "books_lock_date" → desk.setting company key = some v ∨ desk.Current company key)
  locking : ∀ request ∈ desk.requests, ∀ role change, request.phase = .locking role change →
    request.command.patch = fun key =>
      if key = "books_lock_date" then some (.ofOption change.lockDate) else none

theorem Settled.patchesKept {start desk : Desk} {company : Uuid} (h : Settled start desk company) :
    PatchesKept start desk company := by
  have hpatched : ∀ key, desk.acceptedPatches company key ≠ [] → desk.Current company key := by
    intro key hne
    rcases h.kept key with hcurrent | ⟨hnone, -⟩
    · exact hcurrent
    · exact absurd (List.eq_nil_iff_forall_not_mem.2 hnone) hne
  refine ⟨hpatched, fun key v honly => ?_, fun key hnone => ?_⟩
  · obtain ⟨w, hw, hsetting⟩ := hpatched key (by rw [honly]; exact List.cons_ne_nil _ _)
    rw [honly, List.mem_singleton] at hw
    rw [hsetting, hw]
  · rcases h.kept key with ⟨v, hv, -⟩ | ⟨-, hsame⟩
    · rw [hnone] at hv
      cases hv
    · exact hsame

section Advance
variable {start desk : Desk} {company : Uuid} {position : Nat} {request : DeskRequest}

/-- A request that moves adds its patch to the accepted ones when it comes to be accepted. -/
theorem mem_acceptedPatches_moveTo (hrequest : desk.requests[position]? = some request) (env : Env)
    (latest : String) (key : String) (v : Value) :
    let moved := request.advance env latest desk.memberships desk.inner
    v ∈ (desk.moveTo position request moved).acceptedPatches company key ↔
      v ∈ desk.acceptedPatches company key ∨
        request.companyId = company ∧ moved.1.accepted = true ∧ request.command.patch key = some v := by
  intro moved
  have hlength : position < desk.requests.length := (List.getElem?_eq_some_iff.1 hrequest).1
  have hplace : ∀ i, (desk.moveTo position request moved).requests[i]? =
      if position = i then some { request with phase := moved.1 } else desk.requests[i]? := by
    intro i
    simp only [moveTo, List.getElem?_set, if_pos hlength]
  simp only [mem_acceptedPatches, hplace]
  constructor
  · rintro ⟨i, other, hi, hother⟩
    split_ifs at hi with heq
    · obtain rfl := Option.some.inj hi
      exact .inr hother
    · exact .inl ⟨i, other, hi, hother⟩
  · rintro (⟨i, other, hi, hcompany, haccepted, hv⟩ | hnew)
    · by_cases heq : position = i
      · subst heq
        obtain rfl := Option.some.inj (hrequest.symm.trans hi)
        exact ⟨position, _, if_pos rfl, hcompany, request.advance_accepted env latest _ _ haccepted, hv⟩
      · exact ⟨i, other, (if_neg heq).trans hi, hcompany, haccepted, hv⟩
    · exact ⟨position, _, if_pos rfl, hnew⟩

/-- A step leaves a key with an accepted patch, or it leaves it alone and accepts no patch of it. -/
theorem Settled.advance_key (h : Settled start desk company)
    (hrequest : desk.requests[position]? = some request) (env : Env) (latest : String)
    (hread : request.companyId = company → ∀ settings ∈ request.phase.pendingSettings,
      ∀ key ∈ CompanySettings.settingKeys, key ≠ "books_lock_date" → request.command.patch key = none →
        settings.setting key = desk.setting company key) (key : String) :
    let desk' := desk.moveTo position request (request.advance env latest desk.memberships desk.inner)
    desk'.Current company key ∨ desk'.setting company key = desk.setting company key ∧
      ∀ v, v ∈ desk'.acceptedPatches company key → v ∈ desk.acceptedPatches company key := by
  intro desk'
  have hmem := List.mem_of_getElem? hrequest
  have haccepted := fun v => @mem_acceptedPatches_moveTo desk company position request hrequest env latest key v
  rcases request.advance_settings env latest desk.memberships desk.inner with
    ⟨hsettings, hphase⟩ | ⟨settings, hphase, hmoved⟩ | ⟨role, change, outcome, hphase, hfinished, hset⟩
  · refine .inr ⟨?_, fun v hv => ?_⟩
    · show ((request.advance env latest desk.memberships desk.inner).2.companySettings company).setting key = _
      simp only [Desk.setting, Inner.companySettings, hsettings]
    · rcases (haccepted v).1 hv with hv | ⟨hcompany, hmoved, hv⟩
      · exact hv
      · exact mem_acceptedPatches.2 ⟨position, request, hrequest, hcompany, hphase ▸ hmoved, hv⟩
  · have hsetting : desk'.setting company key = _ := (congrArg (fun moved : DeskPhase × Inner =>
      (moved.2.companySettings company).setting key) hmoved).trans
        (desk.inner.setting_putCompanySettings request.companyId company settings key)
    have hnow : (request.advance env latest desk.memberships desk.inner).1.accepted = true := by
      rw [hmoved]
      rfl
    by_cases hcompany : request.companyId = company
    swap
    · refine .inr ⟨hsetting.trans (if_neg fun h => hcompany h.1.symm), fun v hv => ?_⟩
      exact ((haccepted v).1 hv).resolve_right fun h => hcompany h.1
    have hwriting := h.writing request hmem hcompany settings hphase key
    cases hpatch : request.command.patch key with
    | some v =>
      have hv : v ∈ desk'.acceptedPatches company key := (haccepted v).2 (.inr ⟨hcompany, hnow, hpatch⟩)
      obtain ⟨hother, hlock⟩ := hwriting v hpatch
      by_cases hkey : key = "books_lock_date"
      · rw [if_neg fun h => h.2 hkey] at hsetting
        rcases hlock hkey with hstored | ⟨w, hw, hcurrent⟩
        · exact .inl ⟨v, hv, hsetting.trans hstored⟩
        · exact .inl ⟨w, (haccepted w).2 (.inl hw), hsetting.trans hcurrent⟩
      · rw [if_pos ⟨hcompany.symm, hkey⟩] at hsetting
        exact .inl ⟨v, hv, hsetting.trans (hother hkey)⟩
    | none =>
      refine .inr ⟨?_, fun v hv => ?_⟩
      · split_ifs at hsetting with hwritten
        · rw [hsetting]
          by_cases hkey : key ∈ CompanySettings.settingKeys
          · exact hread hcompany settings (by rw [hphase]; rfl) key hkey hwritten.2 hpatch
          · -- no settings have a value under another key
            have hunknown : ∀ s : CompanySettings, s.setting key = none := fun s =>
              Option.not_isSome_iff_eq_none.1 fun h => hkey (CompanySettings.mem_settingKeys.1 h)
            rw [hunknown, Desk.setting, hunknown]
        · exact hsetting
      · refine ((haccepted v).1 hv).resolve_right fun hnew => ?_
        rw [hpatch] at hnew
        cases hnew.2.2
  · have hsetting : desk'.setting company key = _ := Inner.setting_setBooksLock hset company key
    have hpatch := congrFun (h.locking request hmem role change hphase) key
    have hnow : (request.advance env latest desk.memberships desk.inner).1.accepted = true := by
      rw [hfinished]
      rfl
    split_ifs at hsetting with hlock
    · rw [if_pos hlock.2] at hpatch
      exact .inl ⟨_, (haccepted _).2 (.inr ⟨hlock.1.symm, hnow, hpatch⟩), hsetting⟩
    · refine .inr ⟨hsetting, fun v hv => ((haccepted v).1 hv).resolve_right fun hnew => ?_⟩
      rw [hpatch, if_neg fun hkey => hlock ⟨hnew.1.symm, hkey⟩] at hnew
      cases hnew.2.2

/-- One step of a request keeps what is settled. -/
theorem Settled.advance (h : Settled start desk company)
    (hrequest : desk.requests[position]? = some request) (env : Env) (latest : String)
    (hread : request.companyId = company → ∀ settings ∈ request.phase.pendingSettings,
      ∀ key ∈ CompanySettings.settingKeys, key ≠ "books_lock_date" → request.command.patch key = none →
        settings.setting key = desk.setting company key) :
    Settled start
      (desk.moveTo position request (request.advance env latest desk.memberships desk.inner)) company := by
  set desk' := desk.moveTo position request (request.advance env latest desk.memberships desk.inner)
  have hkey : ∀ key, desk'.Current company key ∨ desk'.setting company key = desk.setting company key ∧
      ∀ v, v ∈ desk'.acceptedPatches company key → v ∈ desk.acceptedPatches company key :=
    h.advance_key hrequest env latest hread
  have hgrows : ∀ key, desk.Current company key → desk'.Current company key := by
    rintro key ⟨v, hv, hcurrent⟩
    rcases hkey key with hnew | ⟨hsetting, -⟩
    · exact hnew
    · exact ⟨v, (mem_acceptedPatches_moveTo hrequest env latest key v).2 (.inl hv), hsetting.trans hcurrent⟩
  have hstays : ∀ key v, desk.setting company key = some v →
      desk'.setting company key = some v ∨ desk'.Current company key := by
    intro key v hv
    rcases hkey key with hnew | ⟨hsetting, -⟩
    · exact .inr hnew
    · exact .inl (hsetting.trans hv)
  refine ⟨fun key => ?_, ?_, ?_⟩
  · rcases h.kept key with hcurrent | ⟨hnone, hinitial⟩
    · exact .inl (hgrows key hcurrent)
    · rcases hkey key with hnew | ⟨hsetting, hback⟩
      · exact .inl hnew
      · exact .inr ⟨fun v hv => hnone v (hback v hv), hsetting.trans hinitial⟩
  · intro other hother hcompany settings hphase key v hv
    rcases List.mem_or_eq_of_mem_set hother with hother | rfl
    · obtain ⟨hpatch, hlock⟩ := h.writing other hother hcompany settings hphase key v hv
      refine ⟨hpatch, fun hlockKey => ?_⟩
      rcases hlock hlockKey with hstored | hcurrent
      · exact hstays key v hstored
      · exact .inr (hgrows key hcurrent)
    · obtain ⟨patch, hcommand, hmerged⟩ := DeskRequest.advance_writing hphase
      obtain ⟨hmerge, hrepeats⟩ := mergeSettings_ok hmerged
      have hvalue : patchValue patch key = some v := by
        rw [← hv, hcommand]
        rfl
      refine ⟨fun _ => ?_, fun hlockKey => hstays key v ?_⟩
      · rw [hmerge, hvalue]
        rfl
      · subst hlockKey
        obtain rfl := hrepeats v hvalue
        rw [Desk.setting, CompanySettings.setting_lock]
        exact congrArg (fun c => some (Value.ofOption (desk.inner.companySettings c).booksLockDate))
          hcompany.symm
  · intro other hother role change hphase
    rcases List.mem_or_eq_of_mem_set hother with hother | rfl
    · exact h.locking other hother role change hphase
    · obtain ⟨lock, hcommand, hchange, -⟩ :=
        DeskRequest.advance_locking (DeskRequest.advance_locking_fresh hphase) hphase
      obtain ⟨-, hnormal, -⟩ := lockChange_ok hchange
      funext key
      rw [(normalizeLock_ok hnormal).1, hcommand]
      rfl

end Advance

/-- The desk after a list of events. -/
def run (desk : Desk) (events : List DeskEvent) : Desk := events.foldl Desk.step desk

theorem run_concat (desk : Desk) (events : List DeskEvent) (event : DeskEvent) :
    desk.run (events ++ [event]) = (desk.run events).step event := by
  rw [run, List.foldl_append]
  rfl

theorem Settled.step {start desk : Desk} {company : Uuid} (h : Settled start desk company)
    {event : DeskEvent} (hread : desk.WritesWhatItRead company event) :
    Settled start (desk.step event) company := by
  cases event with
  | arrive auth companyId command =>
    have haccepted : ∀ key, (desk.step (.arrive auth companyId command)).acceptedPatches company key =
        desk.acceptedPatches company key := by
      intro key
      simp [acceptedPatches, Desk.step, List.filter_append, DeskPhase.accepted]
    refine ⟨fun key => ?_, fun request hrequest => ?_, fun request hrequest => ?_⟩
    · simp only [Current, haccepted]
      exact h.kept key
    · simp only [Current, haccepted]
      rcases List.mem_append.1 hrequest with hrequest | hrequest
      · exact h.writing request hrequest
      · obtain rfl := List.mem_singleton.1 hrequest
        intro _ settings hphase
        cases hphase
    · rcases List.mem_append.1 hrequest with hrequest | hrequest
      · exact h.locking request hrequest
      · obtain rfl := List.mem_singleton.1 hrequest
        intro role change hphase
        cases hphase
  | setRole user company role => exact ⟨h.kept, h.writing, h.locking⟩
  | advance position env latest =>
    simp only [Desk.step]
    cases hrequest : desk.requests[position]? with
    | none => exact h
    | some request => exact h.advance hrequest env latest (hread request hrequest)

end Desk

/-- In every run that starts with no request under way and whose settings writes meet, outside their patch
and the lock, the row that they read, every state reached holds the accepted patches: a key that some
accepted request patched has the value of one of them, a key that one alone patched has its value, and
a key that none patched its value from the start. -/
theorem patches_kept (start : Desk) (hstart : start.requests = []) (company : Uuid)
    (events : List DeskEvent)
    (hread : Runs.Each (fun run event => (start.run run).WritesWhatItRead company event) events) :
    ∀ run, run <+: events → Desk.PatchesKept start (start.run run) company := by
  intro run hrun
  refine Desk.Settled.patchesKept ?_
  have hread := hread.begins hrun
  clear hrun
  induction run using List.reverseRecOn with
  | nil =>
    refine ⟨fun key => .inr ⟨fun v hv => ?_, rfl⟩, fun request hrequest => ?_, fun request hrequest => ?_⟩
    · obtain ⟨i, request, hi, -⟩ := Desk.mem_acceptedPatches.1 hv
      rw [Desk.run, List.foldl_nil, hstart] at hi
      cases hi
    · rw [Desk.run, List.foldl_nil, hstart] at hrequest
      cases hrequest
    · rw [Desk.run, List.foldl_nil, hstart] at hrequest
      cases hrequest
  | append_singleton run event ih =>
    obtain ⟨hearly, hevent⟩ := Runs.each_concat.1 hread
    rw [Desk.run_concat]
    exact (ih hearly).step hevent

/-- An Owner sends two patches of one key each. -/
def sendTwoPatches : List DeskEvent :=
  [.setRole 7 1 (some .owner),
    .arrive ⟨7, 1, none⟩ 1 (.putSettings (.obj [("stripe_payment_link_url", .string "https://pay")])),
    .arrive ⟨7, 1, none⟩ 1 (.putSettings (.obj [("payment_instructions", .string "IBAN")]))]

/-- Calls of the two requests, four to a request; `order` says whose call is next. -/
def deskCalls (order : List Nat) : List DeskEvent :=
  order.map fun position => .advance position ⟨0, "2026-02-03", 0⟩ "2026-02-04"

theorem patches_kept_alone :
    let events := sendTwoPatches ++ deskCalls [0, 0, 0]
    (Desk.run {} events).acceptedPatches 1 "stripe_payment_link_url" = [.string "https://pay"] ∧
      (Desk.run {} events).setting 1 "stripe_payment_link_url" = some (.string "https://pay") := by
  intro events
  have hkept := patches_kept {} rfl 1 events (by decide +kernel) events List.prefix_rfl
  have haccepted : (Desk.run {} events).acceptedPatches 1 "stripe_payment_link_url" =
      [.string "https://pay"] := by decide +kernel
  exact ⟨haccepted, hkept.once _ _ haccepted⟩

/-- Both read before either writes: the second write puts the first one's key back. -/
theorem patches_overlap :
    let desk := Desk.run {} (sendTwoPatches ++ deskCalls [0, 0, 1, 1, 0, 1, 0, 1])
    (∀ request ∈ desk.requests, request.phase.accepted = true) ∧
      ¬ Desk.PatchesKept {} desk 1 := by
  intro desk
  have hdesk : (∀ request ∈ desk.requests, request.phase.accepted = true) ∧
      desk.acceptedPatches 1 "stripe_payment_link_url" = [.string "https://pay"] ∧
      desk.setting 1 "stripe_payment_link_url" = some .null := by decide +kernel
  obtain ⟨hall, haccepted, hlost⟩ := hdesk
  refine ⟨hall, fun h => ?_⟩
  have hkept := h.once _ _ haccepted
  rw [hlost] at hkept
  cases hkept

end AtlasTeam
