import AtlasTeam.Api.Settings
import AtlasTeam.Authority
import AtlasTeam.Store.SyncLog

/-!
# Device pushes (`api.rs`)

`sync_push` checks a batch against the authority rules, reads which ids the log knows, looks every
remaining mutation of a posted doctype up among the official documents, pins the books lock of Company
rows and then appends the batch. Each of these reads the store in a step of its own. A `Plane` holds
the system, the memberships and the pushes under way; `Plane.step` moves one push by one step, or the
system. A run of the plane is a run of the system with guarded pushes (`planeRun_system`), and
`device_drafts_iff` says when devices alone can bring an official row about.
-/

namespace AtlasTeam

/-- `require_device`. -/
def requireDevice (auth : AuthContext) : Except ApiError Uuid :=
  match auth.deviceId with
  | some device => .ok device
  | none => .error .forbidden

/-- `known_mutation_ids`. -/
def SyncLog.knownMutationIds (log : SyncLog) (company : Uuid) (ids : List String) : List String :=
  ids.filter fun id => (AList.lookup (company, id) log.mutationVersions).isSome

/-- Where a push stands, with what it has read. -/
inductive PushPhase where
  | start
  /-- The batch has passed the authority rules. -/
  | admitted
  /-- The mutations that are still to be looked up, and the ids the log knew. -/
  | checking (known : List String) (left : List MutationRecord)
  /-- No mutation was found to name an official document. -/
  | checked
  /-- The batch as it will be appended. -/
  | pinned (mutations : List MutationRecord)
  | finished (result : Except ApiError (List (String × Int)))

structure Push where
  auth : AuthContext
  companyId : Uuid
  mutations : List MutationRecord
  phase : PushPhase

namespace Push

/-- The membership, the device and the authority rules. -/
def checkAuthority (push : Push) (memberships : Memberships) : Except ApiError Unit := do
  let _ ← requireMembership memberships push.auth push.companyId
  let _ ← requireDevice push.auth
  push.mutations.forM fun mutation =>
    match checkClientMutation mutation with
    | .ok () => .ok ()
    | .error reason => .error (.unprocessable reason)

/-- The immutability check of one mutation. -/
def checkImmutable (push : Push) (known : List String) (mutation : MutationRecord) (inner : Inner) :
    Except ApiError Unit :=
  if mutation.docType ∉ postedDoctypes ∨ mutation.id ∈ known then .ok ()
  else
    match AList.lookup (push.companyId, mutation.docType, mutation.documentId) inner.documents with
    | some doc =>
      if 1 ≤ doc.docstatus then
        .error (.conflict (s!"{mutation.docType} {mutation.documentId} is officially posted " ++
          s!"(docstatus {doc.docstatus}) and immutable; use the command API"))
      else .ok ()
    | none => .ok ()

/-- The batch with the books lock of its Company rows pinned. -/
def pin (push : Push) (codec : Codec) (inner : Inner) : List MutationRecord :=
  if push.mutations.any fun m => m.docType = "Company" then
    push.mutations.map fun m =>
      (pinBooksLock codec (inner.companySettings push.companyId).booksLockDate m).1
  else push.mutations

/-- One step of a push that only reads. -/
def read (push : Push) (codec : Codec) (memberships : Memberships) (inner : Inner) : PushPhase :=
  match push.phase with
  | .start =>
    match push.checkAuthority memberships with
    | .ok () => .admitted
    | .error e => .finished (.error e)
  | .admitted => .checking
      (inner.toSyncLog.knownMutationIds push.companyId (push.mutations.map MutationRecord.id))
      push.mutations
  | .checking known (mutation :: left) =>
    match push.checkImmutable known mutation inner with
    | .ok () => .checking known left
    | .error e => .finished (.error e)
  | .checking _ [] => .checked
  | .checked => .pinned (push.pin codec inner)
  | phase => phase

end Push

/-- The system, the memberships and the pushes under way. -/
structure Plane where
  system : System Inner := System.fresh {}
  memberships : Memberships := ∅
  pushes : List Push := []

inductive PlaneEvent where
  /-- A device pushes a batch. -/
  | push (auth : AuthContext) (companyId : Uuid) (mutations : List MutationRecord)
  /-- The push at a position takes its next step. -/
  | advance (position : Nat) (env : Env)
  /-- A membership is granted, changed or withdrawn. -/
  | setRole (user company : Uuid) (role : Option Role)
  /-- A command arrives. -/
  | call (companyId : Uuid) (actor : Actor) (command : Command)
  /-- The command at a position takes its next step. -/
  | advanceCall (position : Nat) (env : Env)
  /-- The store runs an operation that is no push. -/
  | operate (op : MemOp) (env : Env)

/-- The events of the system a step of the plane amounts to. -/
def Plane.systemEvents (plane : Plane) : PlaneEvent → List (Event MemOp)
  | .advance position env =>
    match plane.pushes[position]? with
    | some ⟨_, companyId, _, .pinned mutations⟩ => [.operate (.pushMutations companyId mutations) env]
    | _ => []
  | .call companyId actor command => [.call companyId actor command]
  | .advanceCall position env => [.advance position env]
  | .operate op env =>
    match op with
    | .pushMutations _ _ => []
    | _ => [.operate op env]
  | _ => []

/-- The phase a push is in after its next step. -/
def Push.next (push : Push) (codec : Codec) (env : Env) (memberships : Memberships) (inner : Inner) :
    PushPhase :=
  match push.phase with
  | .pinned mutations => .finished
      (.ok (inner.toSyncLog.appendAnswered codec env push.companyId mutations).1)
  | _ => push.read codec memberships inner

/-- One step of the plane. -/
def Plane.step (codec : Codec) (plane : Plane) (event : PlaneEvent) : Plane :=
  let system := plane.system.run codec (memBackend codec) (plane.systemEvents event)
  match event with
  | .push auth companyId mutations =>
    { plane with
      system
      pushes := plane.pushes ++ [{ auth, companyId, mutations, phase := .start }] }
  | .advance position env =>
    match plane.pushes[position]? with
    | some push =>
      let phase := push.next codec env plane.memberships plane.system.book.store
      { plane with system, pushes := plane.pushes.set position { push with phase } }
    | none => { plane with system }
  | .setRole user company role =>
    { plane with
      system
      memberships := match role with
        | some role => AList.insert (user, company) role plane.memberships
        | none => AList.erase (user, company) plane.memberships }
  | .call _ _ _ | .advanceCall _ _ | .operate _ _ => { plane with system }

/-- The plane after a list of events, from an empty store. -/
def planeRun (codec : Codec) (events : List PlaneEvent) : Plane :=
  events.foldl (Plane.step codec) {}

theorem planeRun_concat (codec : Codec) (events : List PlaneEvent) (event : PlaneEvent) :
    planeRun codec (events ++ [event]) = (planeRun codec events).step codec event := by
  rw [planeRun, List.foldl_append]
  rfl

/-! ### Pushes are guarded -/

/-- What reaches the log besides the replication of commits: mutations that passed the authority
rules, and the portal's own. -/
def guardedPushes : Allowed MemOp where
  command _ := True
  operate op := match op with
    | .pushMutations _ records => ∀ r ∈ records, Accepted r ∨ startsWith r.id "portal-" = true
    | _ => True

theorem Accepted.pinned {mutation : MutationRecord} (h : Accepted mutation) (codec : Codec)
    (lock : Option String) : Accepted (pinBooksLock codec lock mutation).1 := by
  obtain ⟨payload, heq, hother⟩ := pinBooksLock_eq codec lock mutation
  by_cases hcompany : mutation.docType = "Company"
  · rw [heq]
    refine ⟨h.device, h.id, h.notDerived, fun hauthority => ?_⟩
    rw [show ({ mutation with payload } : MutationRecord).docType = mutation.docType from rfl,
      hcompany] at hauthority
    exact absurd hauthority (by decide)
  · rw [heq, hother hcompany]
    exact h

/-- A property of mutations that pinning a Company row keeps. -/
structure PinStable (Q : MutationRecord → Prop) : Prop where
  pinned : ∀ {mutation}, Q mutation → ∀ codec lock, Q (pinBooksLock codec lock mutation).1

/-- The batch of a push that is past its authority rules satisfies them, and `Q`. -/
def Push.Guarded (Q : MutationRecord → Prop) (push : Push) : Prop :=
  (∀ m ∈ push.mutations, Q m) ∧
    match push.phase with
    | .start | .finished _ => True
    | .pinned mutations => ∀ m ∈ mutations, Accepted m ∧ Q m
    | _ => ∀ m ∈ push.mutations, Accepted m

section Guarded
variable {Q : MutationRecord → Prop}

theorem Push.checkAuthority_ok {push : Push} {memberships : Memberships}
    (h : push.checkAuthority memberships = .ok ()) : ∀ m ∈ push.mutations, Accepted m := by
  simp only [Push.checkAuthority, Except.bind_eq_ok] at h
  obtain ⟨-, -, -, -, h⟩ := h
  intro m hm
  have hcheck := (Except.forM_eq_ok _).1 h m hm
  cases haccepted : checkClientMutation m with
  | ok u => exact checkClientMutation_ok haccepted
  | error reason =>
    rw [haccepted] at hcheck
    cases hcheck

theorem Push.pin_guarded (hQ : PinStable Q) {push : Push}
    (h : ∀ m ∈ push.mutations, Accepted m ∧ Q m) (codec : Codec) (inner : Inner) :
    ∀ m ∈ push.pin codec inner, Accepted m ∧ Q m := by
  unfold Push.pin
  split_ifs
  · intro m hm
    obtain ⟨m', hm', rfl⟩ := List.mem_map.1 hm
    exact ⟨(h m' hm').1.pinned codec _, hQ.pinned (h m' hm').2 codec _⟩
  · exact h

/-- A step of a push keeps it guarded. -/
theorem Push.next_guarded (hQ : PinStable Q) {push : Push} (h : push.Guarded Q) (codec : Codec)
    (env : Env) (memberships : Memberships) (inner : Inner) :
    ({ push with phase := push.next codec env memberships inner } : Push).Guarded Q := by
  obtain ⟨hbatch, hphase⟩ := h
  refine ⟨hbatch, ?_⟩
  unfold Push.next Push.read
  cases hcase : push.phase with
  | start =>
    simp only
    cases hauthority : push.checkAuthority memberships with
    | ok u => exact Push.checkAuthority_ok hauthority
    | error e => trivial
  | admitted => simpa only [hcase] using hphase
  | checking known left =>
    simp only [hcase] at hphase
    cases left with
    | nil => exact hphase
    | cons mutation left =>
      simp only
      cases push.checkImmutable known mutation inner with
      | ok u => exact hphase
      | error e => trivial
  | checked =>
    simp only [hcase] at hphase
    exact Push.pin_guarded hQ (fun m hm => ⟨hphase m hm, hbatch m hm⟩) codec inner
  | pinned mutations => trivial
  | finished result => trivial

/-- The pushes of a run are guarded. -/
theorem planeRun_guarded (hQ : PinStable Q) (codec : Codec) {events : List PlaneEvent}
    (hevents : ∀ auth company mutations, .push auth company mutations ∈ events →
      ∀ m ∈ mutations, Q m) :
    ∀ push ∈ (planeRun codec events).pushes, push.Guarded Q := by
  induction events using List.reverseRecOn with
  | nil => exact fun push hpush => absurd hpush List.not_mem_nil
  | append_singleton events event ih =>
    have ih := ih fun auth company mutations h =>
      hevents auth company mutations (List.mem_append_left _ h)
    rw [planeRun_concat]
    generalize planeRun codec events = plane at ih
    cases event with
    | push auth company mutations =>
      intro push hpush
      rcases List.mem_append.1 hpush with hpush | hpush
      · exact ih push hpush
      · obtain rfl := List.mem_singleton.1 hpush
        exact ⟨hevents auth company mutations (by simp), trivial⟩
    | advance position env =>
      simp only [Plane.step]
      cases hposition : plane.pushes[position]? with
      | none => exact ih
      | some moved =>
        intro push hpush
        rcases List.mem_or_eq_of_mem_set hpush with hpush | rfl
        · exact ih push hpush
        · exact Push.next_guarded hQ (ih moved (List.mem_of_getElem? hposition)) codec env _ _
    | setRole user company role => exact ih
    | call company actor command => exact ih
    | advanceCall position env => exact ih
    | operate op env => exact ih

end Guarded

theorem pinStable_true : PinStable fun _ => True where
  pinned _ _ _ := trivial

/-- The events of the system a step of the plane amounts to are guarded. -/
theorem Plane.systemEvents_allowed {plane : Plane}
    (h : ∀ push ∈ plane.pushes, push.Guarded fun _ => True) (event : PlaneEvent) :
    ∀ e ∈ plane.systemEvents event, e.Allowed guardedPushes := by
  intro e he
  cases event with
  | advance position env =>
    simp only [Plane.systemEvents] at he
    split at he
    · rename_i auth company batch mutations hpush
      obtain rfl := List.mem_singleton.1 he
      intro m hm
      exact .inl ((h _ (List.mem_of_getElem? hpush)).2 m hm).1
    · exact absurd he List.not_mem_nil
  | operate op env =>
    simp only [Plane.systemEvents] at he
    split at he
    · exact absurd he List.not_mem_nil
    · rename_i hop
      obtain rfl := List.mem_singleton.1 he
      cases op with
      | pushMutations company records => exact absurd rfl (hop company records)
      | _ => trivial
  | call company actor command =>
    obtain rfl := List.mem_singleton.1 he
    trivial
  | advanceCall position env =>
    obtain rfl := List.mem_singleton.1 he
    trivial
  | push auth company mutations => exact absurd he List.not_mem_nil
  | setRole user company role => exact absurd he List.not_mem_nil

/-- The system of a step of the plane. -/
theorem Plane.step_system (codec : Codec) (plane : Plane) (event : PlaneEvent) :
    (plane.step codec event).system =
      plane.system.run codec (memBackend codec) (plane.systemEvents event) := by
  cases event with
  | advance position env =>
    simp only [Plane.step]
    split <;> rfl
  | _ => rfl

/-- A run of the plane is a run of the system with guarded pushes. -/
theorem planeRun_system (codec : Codec) (events : List PlaneEvent) :
    ∃ systemEvents, (planeRun codec events).system = memRun codec systemEvents ∧
      ∀ e ∈ systemEvents, e.Allowed guardedPushes := by
  induction events using List.reverseRecOn with
  | nil => exact ⟨[], rfl, fun e h => absurd h List.not_mem_nil⟩
  | append_singleton events event ih =>
    obtain ⟨early, hsystem, hallowed⟩ := ih
    have hguarded := @planeRun_guarded _ pinStable_true codec events
      fun _ _ _ _ _ _ => trivial
    refine ⟨early ++ (planeRun codec events).systemEvents event, ?_, ?_⟩
    · rw [planeRun_concat, Plane.step_system, hsystem, memRun, memRun, System.run_append]
    · intro e he
      rcases List.mem_append.1 he with he | he
      · exact hallowed e he
      · exact Plane.systemEvents_allowed hguarded event e he

/-! ### Devices alone -/

/-- The event comes from a device, or only touches memberships. -/
def PlaneEvent.FromDevice : PlaneEvent → Prop
  | .push _ _ _ | .advance _ _ | .setRole _ _ _ => True
  | .call _ _ _ | .advanceCall _ _ | .operate _ _ => False

/-- The mutation brings no official row about. -/
def MutationRecord.Harmless (mutation : MutationRecord) : Prop :=
  mutation.docType ∈ serverAuthorityDoctypes → ¬ mutation.Narrows

theorem pinStable_harmless : PinStable MutationRecord.Harmless where
  pinned {mutation} h codec lock := by
    obtain ⟨payload, heq, hother⟩ := pinBooksLock_eq codec lock mutation
    by_cases hcompany : mutation.docType = "Company"
    · rw [heq]
      intro hauthority
      rw [show ({ mutation with payload } : MutationRecord).docType = mutation.docType from rfl,
        hcompany] at hauthority
      exact absurd hauthority (by decide)
    · rw [heq, hother hcompany]
      exact h

/-- No row of a doctype under the server's authority is official. -/
def SyncLog.DraftsOnly (log : SyncLog) : Prop :=
  ∀ key doc, AList.lookup key log.companyDocuments = some doc →
    key.2.1 ∈ serverAuthorityDoctypes → doc.docstatus < 1

theorem SyncLog.DraftsOnly.appendMutation {log : SyncLog} (h : log.DraftsOnly) {codec : Codec}
    {env : Env} {company : Uuid} {record : MutationRecord} (haccepted : Accepted record)
    (hharmless : record.Harmless) :
    (SyncLog.appendMutation codec env company log record).DraftsOnly := by
  rcases SyncLog.appendMutation_cases codec env company log record with
    ⟨version, -, hsame⟩ | ⟨-, happ⟩
  · rw [hsame]
    exact h
  · intro key doc hdoc hauthority
    rw [happ.documents, SyncLog.lookup_applyProjection] at hdoc
    split_ifs at hdoc with hkey
    · subst hkey
      have hold : ∀ doc, AList.lookup (company, record.docType, record.documentId)
          log.companyDocuments = some doc → doc.docstatus < 1 :=
        fun doc hdoc => h _ doc hdoc hauthority
      have hdraft := (@foldMutation_draft_iff codec _ haccepted hauthority _ hold company
        env.now).2 (hharmless hauthority)
      rw [SyncLog.foldedRow] at hdoc
      split at hdoc
      · rename_i row hrow
        obtain rfl := Option.some.inj hdoc
        exact hdraft row hrow
      · cases hdoc
      · exact hold doc hdoc
    · exact h key doc hdoc hauthority

theorem SyncLog.DraftsOnly.appendMutations {log : SyncLog} (h : log.DraftsOnly) {codec : Codec}
    {env : Env} {company : Uuid} {records : List MutationRecord}
    (hrecords : ∀ r ∈ records, Accepted r ∧ r.Harmless) :
    (log.appendMutations codec env company records).DraftsOnly := by
  induction records generalizing log with
  | nil => exact h
  | cons record records ih =>
    obtain ⟨hrecord, hrest⟩ := List.forall_mem_cons.1 hrecords
    exact ih (h.appendMutation hrecord.1 hrecord.2) hrest

/-- Harmless pushes leave drafts only. -/
theorem planeRun_draftsOnly (codec : Codec) {events : List PlaneEvent}
    (hdevices : ∀ event ∈ events, event.FromDevice)
    (hharmless : ∀ auth company mutations, .push auth company mutations ∈ events →
      ∀ m ∈ mutations, m.Harmless) :
    (planeRun codec events).system.book.store.DraftsOnly := by
  induction events using List.reverseRecOn with
  | nil =>
    intro key doc hdoc
    simp [planeRun, System.fresh] at hdoc
  | append_singleton events event ih =>
    obtain ⟨hearly, hevent⟩ := List.forall_mem_append.1 hdevices
    have hpushed : ∀ auth company mutations, .push auth company mutations ∈ events →
        ∀ m ∈ mutations, m.Harmless :=
      fun auth company mutations h => hharmless auth company mutations (List.mem_append_left _ h)
    have ih := ih hearly hpushed
    have hguarded := planeRun_guarded pinStable_harmless codec hpushed
    rw [planeRun_concat, Plane.step_system]
    generalize planeRun codec events = plane at ih hguarded
    cases event with
    | advance position env =>
      simp only [Plane.systemEvents]
      split
      · rename_i auth company batch mutations hpush
        exact ih.appendMutations (hguarded _ (List.mem_of_getElem? hpush)).2
      · exact ih
    | push auth company mutations => exact ih
    | setRole user company role => exact ih
    | call company actor command => exact absurd (hevent _ (List.mem_singleton_self _)) id
    | advanceCall position env => exact absurd (hevent _ (List.mem_singleton_self _)) id
    | operate op env => exact absurd (hevent _ (List.mem_singleton_self _)) id

/-- An accepted mutation of a doctype under the server's authority leaves a draft row a draft unless it
is a create or an update whose integer docstatus narrows to an official one; and in every run of device
pushes without such mutations, no row of these doctypes is ever official. -/
theorem device_drafts_iff (codec : Codec) :
    (∀ (mutation : MutationRecord) (existing : Option CompanyDocument) (company : Uuid)
      (now : DateTime), checkClientMutation mutation = .ok () →
      mutation.docType ∈ serverAuthorityDoctypes →
      (∀ doc, existing = some doc → doc.docstatus < 1) →
      ((∀ doc, foldMutation codec existing mutation company now = .upsert doc → doc.docstatus < 1) ↔
        ¬ mutation.Narrows)) ∧
    ∀ events : List PlaneEvent, (∀ event ∈ events, event.FromDevice) →
      (∀ auth company mutations, .push auth company mutations ∈ events →
        ∀ m ∈ mutations, m.docType ∈ serverAuthorityDoctypes → ¬ m.Narrows) →
      ∀ key doc, AList.lookup key (planeRun codec events).system.book.store.companyDocuments =
        some doc → key.2.1 ∈ serverAuthorityDoctypes → doc.docstatus < 1 := by
  refine ⟨fun mutation existing company now haccepted hdoctype hexisting => ?_,
    fun events hdevices hharmless => planeRun_draftsOnly codec hdevices hharmless⟩
  exact foldMutation_draft_iff (checkClientMutation_ok haccepted) hdoctype hexisting company now

/-- An invoice of docstatus -65535, pushed by a device. -/
def negativeInvoice : MutationRecord :=
  { id := "m-1"
    mutationType := .createDocument
    docType := "Sales Invoice"
    documentId := "SI-1"
    payload := [("docstatus", .int (-65535)), ("id", .string "SI-1")]
    deviceId := "dev-a"
    userId := "u"
    localTimestamp := 0
    syncVersion := none
    status := .pending }

/-- A member's device pushes it, and nothing else happens. -/
def negativePush : List PlaneEvent :=
  let env : Env := ⟨0, "2026-01-05", 0⟩
  [.setRole 7 1 (some .sales), .push ⟨7, 1, some 5⟩ 1 [negativeInvoice]] ++
    List.replicate 6 (.advance 0 env)

/-- The guard lets it pass, and its row is a submitted one. -/
theorem device_makes_official :
    checkClientMutation negativeInvoice = .ok () ∧
    negativeInvoice.docType ∈ serverAuthorityDoctypes ∧
    (∃ doc, foldMutation serdeCodec none negativeInvoice 1 0 = .upsert doc ∧ doc.docstatus = 1) ∧
    (∀ event ∈ negativePush, event.FromDevice) ∧
    ∃ doc, AList.lookup (1, "Sales Invoice", "SI-1")
      (planeRun serdeCodec negativePush).system.book.store.companyDocuments = some doc ∧
      1 ≤ doc.docstatus := by
  refine ⟨by decide +kernel, by decide, ⟨_, rfl, by decide +kernel⟩, ?_, ?_⟩
  · simp [negativePush, PlaneEvent.FromDevice]
  · have hrow : (AList.lookup (1, "Sales Invoice", "SI-1")
        (planeRun serdeCodec negativePush).system.book.store.companyDocuments).map
          (fun doc => doc.docstatus) = some 1 := by decide +kernel
    obtain ⟨doc, hdoc, hstatus⟩ := Option.map_eq_some_iff.1 hrow
    exact ⟨doc, hdoc, hstatus.ge⟩

end AtlasTeam
