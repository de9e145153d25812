import AtlasTeam.Api.CredentialTables
import AtlasTeam.Store.Serde

/-!
# What a credential is good for (`auth.rs`)

Generated tokens and ids are assumed new (`FreshRun`: 256 random bits and random UUIDs). A step of the desk
writes through store calls, beside a change of the directory (`CredentialDesk.step_writes`), so every state of
such a run is `CredentialDesk.Sound`. Then a token is accepted for exactly what it was handed out for
(`bearer_exact`, `links_exact`), on one plane only (`planes_apart`); what was revoked or rotated away stays so
(`revocation_is_final`), and a removed member's devices are cut off for good (`removal_cuts_devices`). A step
that changes a device or a link is the write of a request that took its caller's token and then read the caller's
role, or the removal of a member (`credential_changes_authorised`).
-/

namespace AtlasTeam

/-- What an event generates. -/
def CredentialEvent.input : CredentialEvent → Option CredentialInput
  | .advance _ input | .createCompany input .. | .signIn _ input => some input
  | _ => none

/-- The generated token and id are not those of an earlier event. -/
def CredentialEvent.Fresh (codec : Codec) (desk : CredentialDesk) (event : CredentialEvent) : Prop :=
  ∀ input ∈ event.input, hashToken codec input.token ∉ desk.history.hashes ∧ input.env.uuid ∉ desk.history.ids

instance (codec : Codec) (desk : CredentialDesk) (event : CredentialEvent) : Decidable (event.Fresh codec desk) :=
  inferInstanceAs (Decidable (∀ input ∈ event.input, _))

/-- A run in which all generated values are new. -/
def FreshRun (codec : Codec) (events : List CredentialEvent) : Prop :=
  Runs.Each (fun early event => event.Fresh codec (credentialRun codec early)) events

instance (codec : Codec) (events : List CredentialEvent) : Decidable (FreshRun codec events) :=
  inferInstanceAs (Decidable (Runs.Each _ events))

/-! ### Several calls -/

/-- Each call brings new values. -/
def FreshCalls (h : CredentialHistory) : List StoreCall → Prop
  | [] => True
  | call :: calls => call.Fresh h ∧ FreshCalls (call.record h) calls

theorem Accounted.foldl {s : CredentialStore} {h : CredentialHistory} (ha : Accounted s h)
    (calls : List StoreCall) (hfresh : FreshCalls h calls) :
    Accounted (calls.foldl StoreCall.run s) (calls.foldl StoreCall.record h) ∧
      Grows s (calls.foldl StoreCall.run s) h (calls.foldl StoreCall.record h) := by
  induction calls generalizing s h with
  | nil => exact ⟨ha, .refl s h⟩
  | cons call calls ih =>
    obtain ⟨hrest, hgrows⟩ := ih (ha.run call hfresh.1) hfresh.2
    exact ⟨hrest, (ha.grows call hfresh.1).trans hgrows⟩

/-- A change of the directory that only revokes devices. -/
theorem Accounted.directory {s : CredentialStore} {h : CredentialHistory} (ha : Accounted s h) {d : Directory}
    (hd : DevicesKept s.toDirectory d) :
    Accounted { s with toDirectory := d } h ∧ Grows s { s with toDirectory := d } h h :=
  ⟨⟨ha.hashes, ha.userTokens, ha.deviceTokens, ha.devices.congr hd.1, ha.portalLinks, ha.payLinks, ha.retired,
    ha.linkHash⟩, List.prefix_rfl, List.prefix_rfl, hd.2, .refl, .refl⟩

/-! ### One step -/

/-- The caller of a request that has authenticated. -/
def CredentialRequest.caller : CredentialRequest → Option Caller
  | .touching caller .. | .entering caller _ | .targeting caller .. | .billing caller .. | .retiring caller .. =>
    some caller
  | .writing change => some change.caller
  | .arrived .. | .auditing .. | .finished _ => none

/-- The token of a caller was handed out for its identity. -/
def Caller.Vouched (codec : Codec) (h : CredentialHistory) (caller : Caller) : Prop :=
  ∃ grant, (hashToken codec caller.token, grant) ∈ h.issued ∧ grant.auth = some caller.auth

theorem Caller.Vouched.mono {codec : Codec} {h h' : CredentialHistory} {caller : Caller}
    (hv : caller.Vouched codec h) (hlater : h.issued <+: h'.issued) : caller.Vouched codec h' := by
  obtain ⟨grant, hmem, hauth⟩ := hv
  exact ⟨grant, hlater.subset hmem, hauth⟩

/-- A request presents a token that resolves to the caller's identity. -/
def CredentialRequest.Authenticates (codec : Codec) (s : CredentialStore) (now : DateTime) (caller : Caller) :
    CredentialRequest → Prop
  | .arrived header _ =>
    bearerToken header = some caller.token ∧ s.resolveToken now (hashToken codec caller.token) = some caller.auth
  | _ => False

theorem CredentialCommand.enter_caller {command : CredentialCommand} {caller caller' : Caller} {role : Role}
    (h : (command.enter caller role).caller = some caller') : caller = caller' := by
  cases command with
  | revokeDevice companyId deviceId => exact Option.some.inj h
  | registerDevice companyId name =>
    simp only [enter] at h
    split_ifs at h
    · cases h
    · exact Option.some.inj h
  | createPortalLink companyId kind party label expiresDays =>
    simp only [enter] at h
    split_ifs at h
    any_goals cases h
    rfl
  | createPayLink companyId invoiceId expiresDays =>
    simp only [enter] at h
    split_ifs at h
    any_goals cases h
    rfl
  | _ =>
    simp only [enter] at h
    split_ifs at h
    · exact Option.some.inj h
    · cases h

theorem CredentialChange.perform_caller {codec : Codec} {input : CredentialInput} {s : CredentialStore}
    {change : CredentialChange} {caller : Caller} (h : (change.perform codec input s).1.caller = some caller) :
    change.caller = caller := by
  obtain ⟨caller', companyId, role, write, entitled⟩ := change
  cases write with
  | rotateUserToken => exact Option.some.inj h
  | revokeDevice deviceId deviceUser =>
    simp only [perform] at h
    split at h <;> cases h
  | revokePortalLink linkId =>
    simp only [perform] at h
    split at h <;> cases h
  | revokePayLink linkId =>
    simp only [perform] at h
    split at h <;> cases h
  | _ => cases h

section Advance
variable {codec : Codec} {input : CredentialInput} {s : CredentialStore} {request : CredentialRequest}

/-- A caller is the one a request had, or has just authenticated. -/
theorem CredentialRequest.advance_caller {caller : Caller}
    (h : (request.advance codec input s).1.caller = some caller) :
    request.caller = some caller ∨ request.Authenticates codec s input.env.now caller := by
  cases request with
  | arrived header command =>
    refine .inr ?_
    simp only [advance] at h
    split at h
    · cases h
    · rename_i token htoken
      split at h
      · cases h
      · rename_i auth hauth
        split at h <;> cases h <;> exact ⟨htoken, hauth⟩
  | touching caller' deviceId command => exact .inl h
  | entering caller' command =>
    refine .inl ?_
    simp only [advance] at h
    split at h
    · cases h
    · exact congrArg some (CredentialCommand.enter_caller h)
  | targeting caller' role companyId deviceId =>
    refine .inl ?_
    simp only [advance] at h
    split at h
    · cases h
    · split_ifs at h <;> cases h
      rfl
  | billing caller' role companyId invoiceId expiresDays entitled =>
    refine .inl ?_
    simp only [advance] at h
    split_ifs at h <;> cases h
    rfl
  | writing change => exact .inl (congrArg some (CredentialChange.perform_caller h))
  | retiring caller' companyId token expiresAt => cases h
  | auditing entry answer => cases h
  | finished result => cases h

/-- What a change writes. -/
def CredentialChange.Makes (change : CredentialChange) : StoreCall → Prop
  | .insertUserToken _ token =>
    change.write = .rotateUserToken ∧ token.userId = change.caller.auth.userId ∧
      token.companyId = change.companyId
  | .createDevice _ device info =>
    change.write = .registerDevice info.name ∧ device.companyId = change.companyId ∧
      device.userId = change.caller.auth.userId ∧ device.revokedAt = none
  | .revokeDevice _ company id =>
    company = change.companyId ∧ ∃ deviceUser, change.write = .revokeDevice id deviceUser
  | .createPortalLink link =>
    link.companyId = change.companyId ∧
      ∃ expiresDays, change.write = .createPortalLink link.kind link.party link.label expiresDays
  | .revokePortalLink _ company id => company = change.companyId ∧ change.write = .revokePortalLink id
  | .createPayLink link =>
    link.companyId = change.companyId ∧ ∃ expiresDays, change.write = .createPayLink link.invoiceId expiresDays
  | .revokePayLink _ company id => company = change.companyId ∧ change.write = .revokePayLink id
  | .deleteUserToken _ | .touchDeviceSeen .. | .appendAudit _ => False

/-- What a call hands out is the generated token, under the generated id. -/
def StoreCall.Brings (codec : Codec) (input : CredentialInput) : StoreCall → Prop
  | .insertUserToken hash _ => hash = hashToken codec input.token
  | .createDevice id _ info => info.tokenHash = hashToken codec input.token ∧ id = input.env.uuid
  | .createPortalLink link => link.tokenHash = hashToken codec input.token ∧ link.id = input.env.uuid
  | .createPayLink link => link.tokenHash = hashToken codec input.token ∧ link.id = input.env.uuid
  | .deleteUserToken _ => False
  | _ => True

theorem StoreCall.Brings.fresh {call : StoreCall} (h : call.Brings codec input) {history : CredentialHistory}
    (htoken : hashToken codec input.token ∉ history.hashes) (hid : input.env.uuid ∉ history.ids) :
    call.Fresh history := by
  cases call with
  | insertUserToken hash token => exact h ▸ htoken
  | createDevice id device info => exact ⟨h.1 ▸ htoken, h.2 ▸ hid⟩
  | createPortalLink link => exact ⟨h.1 ▸ htoken, h.2 ▸ hid⟩
  | createPayLink link => exact ⟨h.1 ▸ htoken, h.2 ▸ hid⟩
  | deleteUserToken hash => exact h.elim
  | _ => trivial

/-- The one call of a change. -/
theorem CredentialChange.perform_calls (codec : Codec) (input : CredentialInput) (s : CredentialStore)
    (change : CredentialChange) :
    (change.perform codec input s).2 = [] ∨
      ∃ call, (change.perform codec input s).2 = [call] ∧ change.Makes call ∧ call.Brings codec input := by
  obtain ⟨caller, companyId, role, write, entitled⟩ := change
  cases write with
  | registerDevice name => exact .inr ⟨_, rfl, ⟨rfl, rfl, rfl, rfl⟩, rfl, rfl⟩
  | revokeDevice deviceId deviceUser =>
    simp only [perform]
    split
    · exact .inr ⟨_, rfl, ⟨rfl, deviceUser, rfl⟩, trivial⟩
    · exact .inl rfl
  | rotateUserToken => exact .inr ⟨_, rfl, ⟨rfl, rfl, rfl⟩, rfl⟩
  | createPortalLink kind party label expiresDays =>
    exact .inr ⟨_, rfl, ⟨rfl, expiresDays, rfl⟩, rfl, rfl⟩
  | revokePortalLink linkId =>
    simp only [perform]
    split
    · exact .inr ⟨_, rfl, ⟨rfl, rfl⟩, trivial⟩
    · exact .inl rfl
  | createPayLink invoiceId expiresDays => exact .inr ⟨_, rfl, ⟨rfl, expiresDays, rfl⟩, rfl, rfl⟩
  | revokePayLink linkId =>
    simp only [perform]
    split
    · exact .inr ⟨_, rfl, ⟨rfl, rfl⟩, trivial⟩
    · exact .inl rfl

/-- A call of a request: that of its change, or the deletion of its caller's own token, or one that hands
nothing out. -/
theorem CredentialRequest.advance_calls (codec : Codec) (input : CredentialInput) (s : CredentialStore)
    (request : CredentialRequest) :
    (request.advance codec input s).2 = [] ∨ ∃ call, (request.advance codec input s).2 = [call] ∧
      ((∃ change, request = .writing change ∧ change.Makes call ∧ call.Brings codec input) ∨
        (∃ caller companyId token expiresAt, request = .retiring caller companyId token expiresAt ∧
          call = .deleteUserToken (hashToken codec caller.token)) ∨
        (∃ id seenAt staleBefore, call = .touchDeviceSeen id seenAt staleBefore) ∨
        ∃ entry, call = .appendAudit entry) := by
  cases request with
  | writing change =>
    obtain hnone | ⟨call, hcall, hmakes, hbrings⟩ := change.perform_calls codec input s
    · exact .inl hnone
    · exact .inr ⟨call, hcall, .inl ⟨change, rfl, hmakes, hbrings⟩⟩
  | retiring caller companyId token expiresAt =>
    exact .inr ⟨_, rfl, .inr (.inl ⟨caller, companyId, token, expiresAt, rfl, rfl⟩)⟩
  | touching caller deviceId command => exact .inr ⟨_, rfl, .inr (.inr (.inl ⟨_, _, _, rfl⟩))⟩
  | auditing entry answer => exact .inr ⟨_, rfl, .inr (.inr (.inr ⟨entry, rfl⟩))⟩
  | arrived header command =>
    refine .inl ?_
    simp only [advance]
    split
    · rfl
    · split
      · rfl
      · split <;> rfl
  | entering caller command =>
    refine .inl ?_
    simp only [advance]
    split <;> rfl
  | targeting caller role companyId deviceId =>
    refine .inl ?_
    simp only [advance]
    split
    · rfl
    · split_ifs <;> rfl
  | billing caller role companyId invoiceId expiresDays entitled =>
    refine .inl ?_
    simp only [advance]
    split_ifs <;> rfl
  | finished result => exact .inl rfl

/-- A rotation whose new token is stored was asked for with a user token. -/
theorem CredentialRequest.advance_retiring {caller : Caller} {companyId : Uuid} {token : String}
    {expiresAt : DateTime}
    (h : (request.advance codec input s).1 = .retiring caller companyId token expiresAt) :
    caller.auth.deviceId = none := by
  cases request with
  | writing change =>
    obtain ⟨caller', companyId', role, write, entitled⟩ := change
    cases write with
    | rotateUserToken =>
      injection h with hcaller
      exact hcaller ▸ entitled
    | revokeDevice deviceId deviceUser =>
      simp only [advance, CredentialChange.perform] at h
      split at h <;> cases h
    | revokePortalLink linkId =>
      simp only [advance, CredentialChange.perform] at h
      split at h <;> cases h
    | revokePayLink linkId =>
      simp only [advance, CredentialChange.perform] at h
      split at h <;> cases h
    | _ => cases h
  | arrived header command =>
    simp only [advance] at h
    split at h
    · cases h
    · split at h
      · cases h
      · split at h <;> cases h
  | entering caller' command =>
    simp only [advance] at h
    split at h
    · cases h
    · cases command with
      | revokeDevice => cases h
      | _ =>
        simp only [CredentialCommand.enter] at h
        split_ifs at h
  | targeting caller' role companyId' deviceId =>
    simp only [advance] at h
    split at h
    · cases h
    · split_ifs at h
  | billing caller' role companyId' invoiceId expiresDays entitled =>
    simp only [advance] at h
    split_ifs at h
  | _ => cases h

end Advance

/-! ### The desk -/

/-- The tables are those of the history, and every caller under way was let in by a token handed out. -/
structure CredentialDesk.Sound (codec : Codec) (desk : CredentialDesk) : Prop where
  accounted : Accounted desk.store desk.history
  vouched : ∀ request ∈ desk.requests, ∀ caller, request.caller = some caller →
    caller.Vouched codec desk.history
  /-- Only users rotate their tokens. -/
  retiring : ∀ caller companyId token expiresAt, .retiring caller companyId token expiresAt ∈ desk.requests →
    caller.auth.deviceId = none

/-- What a step writes: a directory and then store calls. They are those of the request it moves, or the token of
a user who signs in. -/
inductive CredentialDesk.Writes (codec : Codec) (desk : CredentialDesk) :
    CredentialEvent → Directory → List StoreCall → Prop
  | nothing (event : CredentialEvent) : Writes codec desk event desk.store.toDirectory []
  | request {position : Nat} {input : CredentialInput} {request : CredentialRequest}
      (hrequest : desk.requests[position]? = some request) :
      Writes codec desk (.advance position input) desk.store.toDirectory
        (request.advance codec input desk.store).2
  | member {position : Nat} {env : Env} {tokenHash : String} {request : MembersRequest}
      (hrequest : desk.memberRequests[position]? = some request) :
      Writes codec desk (.membersAdvance position env tokenHash)
        (request.advance env tokenHash desk.store.toDirectory).2 []
  | signIn {event : CredentialEvent} {input : CredentialInput} {user company : Uuid} {directory : Directory}
      {tail : List StoreCall} (hinput : event.input = some input)
      (hdevices : directory.devices = desk.store.devices)
      (htail : ∀ call ∈ tail, ∃ entry, call = .appendAudit entry) :
      Writes codec desk event directory (signInCall codec input user company :: tail)

theorem CredentialDesk.step_writes (codec : Codec) (desk : CredentialDesk) (event : CredentialEvent) :
    ∃ directory calls, desk.Writes codec event directory calls ∧
      (desk.step codec event).store = calls.foldl StoreCall.run { desk.store with toDirectory := directory } ∧
      (desk.step codec event).history = calls.foldl StoreCall.record desk.history := by
  cases event with
  | arrive header command => exact ⟨_, _, .nothing _, rfl, rfl⟩
  | membersArrive command => exact ⟨_, _, .nothing _, rfl, rfl⟩
  | advance position input =>
    cases hrequest : desk.requests[position]? with
    | none =>
      refine ⟨_, _, .nothing _, ?_, ?_⟩ <;> simp only [step, hrequest] <;> rfl
    | some request =>
      refine ⟨_, _, .request hrequest, ?_, ?_⟩ <;> simp only [step, hrequest] <;> rfl
  | membersAdvance position env tokenHash =>
    cases hrequest : desk.memberRequests[position]? with
    | none =>
      refine ⟨_, _, .nothing _, ?_, rfl⟩
      simp only [step, members, MembersDesk.step, hrequest]
      rfl
    | some request =>
      refine ⟨_, _, .member hrequest, ?_, rfl⟩
      simp only [step, members, MembersDesk.step, hrequest]
      rfl
  | createCompany input ownerId name ownerEmail ownerName =>
    cases hcreate : desk.store.createCompany input.env ownerId name ownerEmail ownerName with
    | error e => refine ⟨_, _, .nothing _, ?_, ?_⟩ <;> simp only [step, hcreate] <;> rfl
    | ok directory =>
      set owner := (desk.store.upsertUser ownerId (trim ownerEmail) (trim ownerName)).1
      refine ⟨directory, createCompanyCalls codec input owner name,
        .signIn rfl (Directory.createCompany_devices hcreate) ?_, ?_, ?_⟩
      · intro call hcall
        exact ⟨_, List.mem_singleton.1 hcall⟩
      · simp only [step, hcreate]
        rfl
      · simp only [step, hcreate]
        rfl
  | signIn position input =>
    simp only [step]
    split
    · refine ⟨desk.store.toDirectory, [_], .signIn rfl rfl ?_, rfl, rfl⟩
      exact fun call hcall => absurd hcall List.not_mem_nil
    · exact ⟨_, _, .nothing _, rfl, rfl⟩

/-- The request at a position after a step: the one there, one that arrived, or that one moved. -/
theorem CredentialDesk.step_request {codec : Codec} {desk : CredentialDesk} {event : CredentialEvent}
    {position : Nat} {request : CredentialRequest}
    (h : (desk.step codec event).requests[position]? = some request) :
    desk.requests[position]? = some request ∨ (∃ header command, request = .arrived header command) ∨
      ∃ input old, event = .advance position input ∧ desk.requests[position]? = some old ∧
        request = (old.advance codec input desk.store).1 := by
  cases event with
  | arrive header command =>
    rcases lt_or_ge position desk.requests.length with hlt | hge
    · exact .inl ((List.getElem?_append_left hlt).symm.trans h)
    · have hnew := List.mem_of_getElem? ((List.getElem?_append_right hge).symm.trans h)
      exact .inr (.inl ⟨header, command, List.mem_singleton.1 hnew⟩)
  | membersArrive command => exact .inl h
  | membersAdvance position' env tokenHash => exact .inl h
  | advance position' input =>
    cases hold : desk.requests[position']? with
    | none =>
      simp only [step, hold] at h
      exact .inl h
    | some old =>
      simp only [step, hold, List.getElem?_set] at h
      split_ifs at h with hsame hlt
      · subst hsame
        exact .inr (.inr ⟨input, old, rfl, hold, (Option.some.inj h).symm⟩)
      · exact .inl h
  | createCompany input ownerId name ownerEmail ownerName =>
    simp only [step] at h
    split at h <;> exact .inl h
  | signIn position' input =>
    simp only [step] at h
    split at h <;> exact .inl h

theorem CredentialDesk.step_requests {codec : Codec} {desk : CredentialDesk} {event : CredentialEvent}
    {request : CredentialRequest} (h : request ∈ (desk.step codec event).requests) :
    request ∈ desk.requests ∨ (∃ header command, request = .arrived header command) ∨
      ∃ position input old, event = .advance position input ∧ desk.requests[position]? = some old ∧
        request = (old.advance codec input desk.store).1 := by
  obtain ⟨position, hposition⟩ := List.mem_iff_getElem?.1 h
  obtain hold | harrived | ⟨input, old, hmoved⟩ := CredentialDesk.step_request hposition
  · exact .inl (List.mem_of_getElem? hold)
  · exact .inr (.inl harrived)
  · exact .inr (.inr ⟨position, input, old, hmoved⟩)

section Step
variable {codec : Codec} {desk : CredentialDesk} {event : CredentialEvent} {directory : Directory}
  {calls : List StoreCall}

theorem CredentialDesk.Writes.devicesKept (h : desk.Writes codec event directory calls) :
    DevicesKept desk.store.toDirectory directory := by
  cases h with
  | nothing event => exact devicesKept_of_eq rfl
  | request hrequest => exact devicesKept_of_eq rfl
  | member hrequest => exact MembersRequest.advance_devicesKept _ _ _ _
  | signIn hinput hdevices htail => exact devicesKept_of_eq hdevices

theorem freshCalls_audits {history : CredentialHistory} {tail : List StoreCall}
    (htail : ∀ call ∈ tail, ∃ entry, call = .appendAudit entry) : FreshCalls history tail := by
  induction tail generalizing history with
  | nil => trivial
  | cons call tail ih =>
    obtain ⟨entry, rfl⟩ := htail call List.mem_cons_self
    exact ⟨trivial, ih fun call hcall => htail call (List.mem_cons_of_mem _ hcall)⟩

theorem CredentialDesk.Writes.fresh (h : desk.Writes codec event directory calls) (hs : desk.Sound codec)
    (hfresh : event.Fresh codec desk) : FreshCalls desk.history calls := by
  cases h with
  | nothing event => trivial
  | member hrequest => trivial
  | signIn hinput hdevices htail =>
    exact ⟨(hfresh _ hinput).1, freshCalls_audits htail⟩
  | @request position input request hrequest =>
    obtain ⟨htoken, hid⟩ := hfresh input rfl
    obtain hnone | ⟨call, hcall, hkind⟩ :=
      request.advance_calls codec input desk.store
    · rw [hnone]
      trivial
    rw [hcall]
    refine ⟨?_, trivial⟩
    obtain ⟨change, rfl, -, hbrings⟩ | ⟨caller, companyId, token, expiresAt, rfl, rfl⟩ |
      ⟨id, seenAt, staleBefore, rfl⟩ | ⟨entry, rfl⟩ := hkind
    · exact hbrings.fresh htoken hid
    · obtain ⟨grant, hmem, -⟩ := hs.vouched _ (List.mem_of_getElem? hrequest) caller rfl
      exact mem_hashes hmem
    · trivial
    · trivial

theorem CredentialDesk.Sound.step (hs : desk.Sound codec) (hfresh : event.Fresh codec desk) :
    (desk.step codec event).Sound codec ∧
      Grows desk.store (desk.step codec event).store desk.history (desk.step codec event).history := by
  obtain ⟨directory, calls, hwrites, hstore, hhistory⟩ := desk.step_writes codec event
  obtain ⟨hdirectory, hrevoked⟩ := hs.accounted.directory hwrites.devicesKept
  obtain ⟨haccounted, hcalls⟩ := hdirectory.foldl calls (hwrites.fresh hs hfresh)
  have hgrows := hrevoked.trans hcalls
  rw [← hstore, ← hhistory] at haccounted hgrows
  refine ⟨⟨haccounted, fun request hmem caller hcaller => ?_, fun caller companyId token expiresAt hmem => ?_⟩,
    hgrows⟩
  swap
  · obtain hold | ⟨header, command, hnew⟩ | ⟨position, input, old, rfl, hold, hnew⟩ :=
      CredentialDesk.step_requests hmem
    · exact hs.retiring caller companyId token expiresAt hold
    · cases hnew
    · exact CredentialRequest.advance_retiring hnew.symm
  suffices hvouched : caller.Vouched codec desk.history from hvouched.mono hgrows.issued
  obtain hold | ⟨header, command, rfl⟩ | ⟨position, input, old, rfl, hold, rfl⟩ := CredentialDesk.step_requests hmem
  · exact hs.vouched request hold caller hcaller
  · cases hcaller
  · rcases CredentialRequest.advance_caller hcaller with hcaller | hauth
    · exact hs.vouched old (List.mem_of_getElem? hold) caller hcaller
    · cases old with
      | arrived header command =>
        obtain ⟨grant, hmem, hgrant, -⟩ := hs.accounted.resolveToken_iff.1 hauth.2
        exact ⟨grant, hmem, hgrant⟩
      | _ => exact hauth.elim

end Step

/-! ### Runs -/

theorem FreshRun.begins {codec : Codec} {early late : List CredentialEvent} (h : FreshRun codec late)
    (hearly : early <+: late) : FreshRun codec early :=
  Runs.Each.begins h hearly

theorem FreshRun.concat {codec : Codec} {early : List CredentialEvent} {event : CredentialEvent} :
    FreshRun codec (early ++ [event]) ↔ FreshRun codec early ∧ event.Fresh codec (credentialRun codec early) :=
  Runs.each_concat

theorem FreshRun.sound {codec : Codec} {events : List CredentialEvent} (h : FreshRun codec events) :
    (credentialRun codec events).Sound codec := by
  induction events using List.reverseRecOn with
  | nil =>
    refine ⟨⟨List.nodup_nil, .empty, .empty, .empty, .empty, .empty, ?_, ?_⟩, ?_, ?_⟩
    · exact fun _ hmem => absurd hmem List.not_mem_nil
    · exact fun _ _ hmem => absurd hmem List.not_mem_nil
    · exact fun _ hmem => absurd hmem List.not_mem_nil
    · exact fun _ _ _ _ hmem => absurd hmem List.not_mem_nil
  | append_singleton early event ih =>
    obtain ⟨hearly, hevent⟩ := FreshRun.concat.1 h
    rw [credentialRun_concat]
    exact ((ih hearly).step hevent).1

theorem FreshRun.grows {codec : Codec} {early late : List CredentialEvent} (h : FreshRun codec late)
    (hearly : early <+: late) :
    Grows (credentialRun codec early).store (credentialRun codec late).store
      (credentialRun codec early).history (credentialRun codec late).history := by
  obtain ⟨later, rfl⟩ := hearly
  induction later using List.reverseRecOn with
  | nil =>
    rw [List.append_nil]
    exact .refl _ _
  | append_singleton later event ih =>
    rw [← List.append_assoc] at h ⊢
    obtain ⟨hrun, hevent⟩ := FreshRun.concat.1 h
    rw [credentialRun_concat]
    exact (ih hrun).trans (hrun.sound.step hevent).2

/-! ### What a token is accepted for -/

theorem bearerToken_eq_some {header : Option String} {token : String} :
    bearerToken header = some token ↔ header = some ("Bearer " ++ token) := by
  cases header with
  | none => exact iff_of_false (fun h => by cases h) (fun h => by cases h)
  | some value =>
    simp only [bearerToken, Option.bind_some, Option.map_eq_some_iff, List.dropPrefix?_eq_some_iff, beq_iff_eq,
      Option.some.injEq]
    constructor
    · rintro ⟨rest, ⟨start, hvalue, rfl⟩, rfl⟩
      rw [← String.toList_inj, hvalue, String.toList_append]
      exact congrArg ("Bearer ".toList ++ ·) String.toList_ofList.symm
    · rintro rfl
      exact ⟨token.toList, ⟨_, String.toList_append, rfl⟩, String.ofList_toList⟩

/-- A header is accepted exactly if it carries a token that was handed out for the identity and is in force. -/
theorem bearer_exact (codec : Codec) {events : List CredentialEvent} (hfresh : FreshRun codec events)
    (now : DateTime) (header : Option String) (auth : AuthContext) :
    ((bearerToken header).bind fun token =>
        (credentialRun codec events).store.resolveToken now (hashToken codec token)) = some auth ↔
      ∃ token grant, header = some ("Bearer " ++ token) ∧
        (hashToken codec token, grant) ∈ (credentialRun codec events).history.issued ∧ grant.auth = some auth ∧
        grant.InForce (credentialRun codec events).store (credentialRun codec events).history now
          (hashToken codec token) := by
  simp only [Option.bind_eq_some_iff, hfresh.sound.accounted.resolveToken_iff, bearerToken_eq_some]
  exact exists_congr fun token => exists_and_left.symm

/-- What is generated at `now`. -/
def generated (now : DateTime) (uuid : Uuid) (token : String) : CredentialInput :=
  { env := ⟨now, "2026-03-01", uuid⟩, token, ttlDays := none, invoiceFound := true }

/-- Olga founds company 1 and registers device 2. -/
def olgaRegisters : List CredentialEvent :=
  [.createCompany (generated 0 1 "olga") 7 "Acme" "o@acme" "Olga",
    .arrive (some "Bearer olga") (.registerDevice 1 "till"), .advance 0 (generated 1 0 "-"),
    .advance 0 (generated 1 0 "-"), .advance 0 (generated 1 2 "till")]

/-- She asks for its revocation, gets it, and then rotates her token. -/
def olgaAsks : List CredentialEvent :=
  olgaRegisters ++ [.arrive (some "Bearer olga") (.revokeDevice 1 2), .advance 1 (generated 2 0 "-"),
    .advance 1 (generated 2 0 "-"), .advance 1 (generated 2 0 "-")]

def olgaRevokes : List CredentialEvent := olgaAsks ++ [.advance 1 (generated 2 0 "-")]

def olgaRotates : List CredentialEvent :=
  olgaRevokes ++ [.arrive (some "Bearer olga") (.rotateUserToken 1), .advance 2 (generated 3 0 "-"),
    .advance 2 (generated 3 0 "-"), .advance 2 (generated 3 0 "olga-2")]

theorem olgaRotates_fresh : FreshRun serdeCodec (olgaRotates ++ [.advance 2 (generated 3 0 "-")]) := by
  decide +kernel

theorem olgaRevokes_begins : olgaRevokes <+: olgaRotates ++ [.advance 2 (generated 3 0 "-")] :=
  (List.prefix_append _ _).trans (List.prefix_append _ _)

theorem olgaRegisters_begins : olgaRegisters <+: olgaRotates ++ [.advance 2 (generated 3 0 "-")] :=
  (List.prefix_append _ _).trans ((List.prefix_append _ _).trans olgaRevokes_begins)

/-- The token of her device is accepted for her on it. -/
theorem bearer_exact_till : ∃ token grant, some "Bearer till" = some ("Bearer " ++ token) ∧
    (hashToken serdeCodec token, grant) ∈ (credentialRun serdeCodec olgaRegisters).history.issued ∧
    grant.auth = some ⟨7, 1, some 2⟩ ∧
    grant.InForce (credentialRun serdeCodec olgaRegisters).store (credentialRun serdeCodec olgaRegisters).history 5
      (hashToken serdeCodec token) :=
  (bearer_exact serdeCodec (olgaRotates_fresh.begins olgaRegisters_begins) 5 (some "Bearer till")
    ⟨7, 1, some 2⟩).1 (by decide +kernel)

/-- The token planes. -/
inductive TokenPlane where
  | user
  | device
  | portal
  | pay

def Grant.plane : Grant → TokenPlane
  | .user _ => .user
  | .device .. => .device
  | .portal _ => .portal
  | .pay _ => .pay

/-- A token is accepted on a plane. -/
def CredentialStore.Accepts (codec : Codec) (s : CredentialStore) (now : DateTime) (token : String) :
    TokenPlane → Prop
  | .user => ∃ auth, s.resolveToken now (hashToken codec token) = some auth ∧ auth.deviceId = none
  | .device => ∃ auth, s.resolveToken now (hashToken codec token) = some auth ∧ auth.deviceId ≠ none
  | .portal => ∃ link, s.portalLink now (hashToken codec token) = .ok link
  | .pay => ∃ link, s.payLink now (hashToken codec token) = .ok link

theorem Accounted.grant_of_accepts {codec : Codec} {s : CredentialStore} {h : CredentialHistory}
    (ha : Accounted s h) {now : DateTime} {token : String} {plane : TokenPlane}
    (haccepts : s.Accepts codec now token plane) :
    ∃ grant, (hashToken codec token, grant) ∈ h.issued ∧ grant.plane = plane := by
  cases plane with
  | user =>
    obtain ⟨auth, hresolve, huser⟩ := haccepts
    obtain ⟨grant, hmem, hauth, -⟩ := ha.resolveToken_iff.1 hresolve
    refine ⟨grant, hmem, ?_⟩
    cases grant <;> cases hauth
    · rfl
    · cases huser
  | device =>
    obtain ⟨auth, hresolve, hdevice⟩ := haccepts
    obtain ⟨grant, hmem, hauth, -⟩ := ha.resolveToken_iff.1 hresolve
    refine ⟨grant, hmem, ?_⟩
    cases grant <;> cases hauth
    · exact absurd rfl hdevice
    · rfl
  | portal =>
    obtain ⟨view, hview⟩ := haccepts
    obtain ⟨link, hmem, -⟩ := ha.portalLink_iff.1 hview
    exact ⟨.portal link, hmem, rfl⟩
  | pay =>
    obtain ⟨view, hview⟩ := haccepts
    obtain ⟨link, hmem, -⟩ := ha.payLink_iff.1 hview
    exact ⟨.pay link, hmem, rfl⟩

/-- A token that is accepted on one plane is not accepted on another, then or at any other time. -/
theorem planes_apart (codec : Codec) {early late : List CredentialEvent} (hfresh : FreshRun codec late)
    (hearly : early <+: late) {now now' : DateTime} {token : String} {plane plane' : TokenPlane}
    (haccepts : (credentialRun codec early).store.Accepts codec now token plane)
    (haccepts' : (credentialRun codec late).store.Accepts codec now' token plane') : plane = plane' := by
  obtain ⟨grant, hmem, rfl⟩ := (hfresh.begins hearly).sound.accounted.grant_of_accepts haccepts
  obtain ⟨grant', hmem', rfl⟩ := hfresh.sound.accounted.grant_of_accepts haccepts'
  rw [hfresh.sound.accounted.grant_eq ((hfresh.grows hearly).issued.subset hmem) hmem']

/-- The token of her device opens no link. -/
theorem planes_apart_till :
    ¬ (credentialRun serdeCodec olgaRevokes).store.Accepts serdeCodec 9 "till" .portal := by
  intro hportal
  have hdevice : (credentialRun serdeCodec olgaRegisters).store.Accepts serdeCodec 5 "till" .device :=
    ⟨⟨7, 1, some 2⟩, by decide +kernel, by decide⟩
  cases planes_apart serdeCodec (olgaRotates_fresh.begins olgaRevokes_begins)
    ((List.prefix_append _ _).trans (List.prefix_append _ _)) hdevice hportal

/-- A portal or pay token opens exactly the link it was handed out with, as that was created, until the link is
revoked or expires. -/
theorem links_exact (codec : Codec) {events : List CredentialEvent} (hfresh : FreshRun codec events)
    (now : DateTime) (token : String) :
    (∀ view, (credentialRun codec events).store.portalLink now (hashToken codec token) = .ok view ↔
      ∃ link, (hashToken codec token, .portal link) ∈ (credentialRun codec events).history.issued ∧
        link.unrevoked.toPortalLink = view ∧
        (∃ row, AList.lookup link.id (credentialRun codec events).store.portalLinks = some row ∧
          row.revokedAt = none) ∧ now ≤ link.expiresAt) ∧
    ∀ view, (credentialRun codec events).store.payLink now (hashToken codec token) = .ok view ↔
      ∃ link, (hashToken codec token, .pay link) ∈ (credentialRun codec events).history.issued ∧
        link.unrevoked.toPayLink = view ∧
        (∃ row, AList.lookup link.id (credentialRun codec events).store.payLinks = some row ∧
          row.revokedAt = none) ∧ now ≤ link.expiresAt :=
  ⟨fun _ => hfresh.sound.accounted.portalLink_iff, fun _ => hfresh.sound.accounted.payLink_iff⟩

/-- Olga hands a customer link 4 to the portal. -/
def olgaShares : List CredentialEvent :=
  [.createCompany (generated 0 1 "olga") 7 "Acme" "o@acme" "Olga",
    .arrive (some "Bearer olga") (.createPortalLink 1 .customer (some "cust-1") none (some 30)),
    .advance 0 (generated 1 0 "-"), .advance 0 (generated 1 0 "-"), .advance 0 (generated 1 4 "link")]

/-- She withdraws the link. -/
def olgaWithdraws : List CredentialEvent :=
  olgaShares ++ [.arrive (some "Bearer olga") (.revokePortalLink 1 4), .advance 1 (generated 2 0 "-"),
    .advance 1 (generated 2 0 "-"), .advance 1 (generated 2 0 "-")]

/-- The link opens for the customer, and no more once it is withdrawn. -/
theorem links_exact_olga :
    (∃ link, (hashToken serdeCodec "link", .portal link) ∈ (credentialRun serdeCodec olgaShares).history.issued ∧
      (credentialRun serdeCodec olgaShares).store.portalLink 1 (hashToken serdeCodec "link") =
        .ok link.unrevoked.toPortalLink) ∧
    ∀ view, (credentialRun serdeCodec olgaWithdraws).store.portalLink 3 (hashToken serdeCodec "link") ≠
      .ok view := by
  have hfresh : FreshRun serdeCodec olgaWithdraws := by decide +kernel
  constructor
  · have hopens : ((credentialRun serdeCodec olgaShares).store.portalLink 1
        (hashToken serdeCodec "link")).toOption.isSome := by decide +kernel
    obtain ⟨view, hview⟩ := Option.isSome_iff_exists.1 hopens
    cases hlink : (credentialRun serdeCodec olgaShares).store.portalLink 1 (hashToken serdeCodec "link") with
    | error e =>
      rw [hlink] at hview
      cases hview
    | ok view' =>
      obtain ⟨link, hissued, rfl, -⟩ :=
        ((links_exact serdeCodec (hfresh.begins (List.prefix_append _ _)) 1 "link").1 view').1 hlink
      exact ⟨link, hissued, rfl⟩
  · intro view hview
    obtain ⟨link, hissued, -, ⟨row, hrow, hlive⟩, -⟩ := ((links_exact serdeCodec hfresh 3 "link").1 view).1 hview
    have hids : (credentialRun serdeCodec olgaWithdraws).history.ids = [4] := by decide +kernel
    have hmem : link.id ∈ (credentialRun serdeCodec olgaWithdraws).history.ids :=
      List.mem_filterMap.2 ⟨_, hissued, rfl⟩
    rw [hids, List.mem_singleton] at hmem
    have hrevoked : ((AList.lookup 4 (credentialRun serdeCodec olgaWithdraws).store.portalLinks).bind
        fun row => row.revokedAt) = some 2 := by decide +kernel
    rw [← hmem, hrow] at hrevoked
    exact absurd hlive (Option.ne_none_iff_exists'.2 ⟨2, hrevoked⟩)

/-! ### Revocations are final -/

/-- A device is cut off: revoked, and no token resolves to it. -/
def CredentialStore.CutOff (s : CredentialStore) (id : Uuid) (t : DateTime) : Prop :=
  (∃ device, AList.lookup id s.devices = some device ∧ device.revokedAt = some t) ∧
    ∀ now hash auth, s.resolveToken now hash = some auth → auth.deviceId ≠ some id

theorem Accounted.cutOff {s : CredentialStore} {h : CredentialHistory} (ha : Accounted s h) {id : Uuid}
    {t : DateTime} {device : Device} (hdevice : AList.lookup id s.devices = some device)
    (hrevoked : device.revokedAt = some t) : s.CutOff id t := by
  refine ⟨⟨device, hdevice, hrevoked⟩, fun now hash auth hresolve hid => ?_⟩
  obtain ⟨grant, -, hauth, hforce⟩ := ha.resolveToken_iff.1 hresolve
  cases grant with
  | device id' user company =>
    obtain rfl := Option.some.inj hauth
    obtain rfl := Option.some.inj hid
    obtain ⟨device', hlookup, hlive⟩ := hforce
    obtain rfl := Option.some.inj (hdevice.symm.trans hlookup)
    rw [hlive] at hrevoked
    cases hrevoked
  | user token =>
    obtain rfl := Option.some.inj hauth
    cases hid
  | _ => cases hauth

theorem Accounted.portalLink_shut {s : CredentialStore} {h : CredentialHistory} (ha : Accounted s h) {id : Uuid}
    {row : PortalLinkRow} (hrow : AList.lookup id s.portalLinks = some row) (hrevoked : row.revokedAt ≠ none)
    (now : DateTime) : s.portalLink now row.tokenHash = .error .notFound := by
  rw [CredentialStore.portalLink, ha.portalLinkByHash_of_lookup hrow]
  exact if_pos (.inl (Option.isSome_iff_ne_none.2 hrevoked))

theorem Accounted.payLink_shut {s : CredentialStore} {h : CredentialHistory} (ha : Accounted s h) {id : Uuid}
    {row : PayLinkRow} (hrow : AList.lookup id s.payLinks = some row) (hrevoked : row.revokedAt ≠ none)
    (now : DateTime) : s.payLink now row.tokenHash = .error .notFound := by
  rw [CredentialStore.payLink, ha.payLinkByHash_of_lookup hrow]
  exact if_pos (.inl (Option.isSome_iff_ne_none.2 hrevoked))

/-- What is revoked stays revoked, with the time of its first revocation: a device is cut off, and a link's token
opens nothing. -/
theorem revocation_is_final (codec : Codec) {early late : List CredentialEvent} (hfresh : FreshRun codec late)
    (hearly : early <+: late) :
    (∀ id device t, AList.lookup id (credentialRun codec early).store.devices = some device →
      device.revokedAt = some t → (credentialRun codec late).store.CutOff id t) ∧
    (∀ id link, AList.lookup id (credentialRun codec early).store.portalLinks = some link →
      link.revokedAt ≠ none → ∀ now, (credentialRun codec late).store.portalLink now link.tokenHash =
        .error .notFound) ∧
    ∀ id link, AList.lookup id (credentialRun codec early).store.payLinks = some link →
      link.revokedAt ≠ none → ∀ now, (credentialRun codec late).store.payLink now link.tokenHash =
        .error .notFound := by
  have hgrows := hfresh.grows hearly
  have hlate := hfresh.sound.accounted
  refine ⟨?_, ?_, ?_⟩
  · intro id device t hdevice hrevoked
    obtain ⟨device', hdevice', -, hkept⟩ := hgrows.devices id device hdevice
    exact hlate.cutOff hdevice' (hkept t hrevoked)
  · intro id link hlink hrevoked now
    obtain ⟨t, ht⟩ := Option.ne_none_iff_exists'.1 hrevoked
    obtain ⟨link', hlink', hsame, hkept⟩ := hgrows.portalLinks id link hlink
    have htag : link'.unrevoked.tokenHash = link.unrevoked.tokenHash := congrArg PortalLinkRow.tokenHash hsame
    rw [show link.tokenHash = link'.tokenHash from htag.symm]
    exact hlate.portalLink_shut hlink' (Option.ne_none_iff_exists'.2 ⟨t, hkept t ht⟩) now
  · intro id link hlink hrevoked now
    obtain ⟨t, ht⟩ := Option.ne_none_iff_exists'.1 hrevoked
    obtain ⟨link', hlink', hsame, hkept⟩ := hgrows.payLinks id link hlink
    have htag : link'.unrevoked.tokenHash = link.unrevoked.tokenHash := congrArg PayLinkRow.tokenHash hsame
    rw [show link.tokenHash = link'.tokenHash from htag.symm]
    exact hlate.payLink_shut hlink' (Option.ne_none_iff_exists'.2 ⟨t, hkept t ht⟩) now

/-- Olga's device is cut off for good. -/
theorem revocation_is_final_till :
    (credentialRun serdeCodec (olgaRotates ++ [.advance 2 (generated 3 0 "-")])).store.CutOff 2 2 := by
  have hrow : (AList.lookup 2 (credentialRun serdeCodec olgaRevokes).store.devices).map Device.revokedAt =
      some (some 2) := by decide +kernel
  obtain ⟨device, hdevice, hrevoked⟩ := Option.map_eq_some_iff.1 hrow
  exact (revocation_is_final serdeCodec olgaRotates_fresh olgaRevokes_begins).1 2 device 2 hdevice hrevoked

/-- A user token that was rotated is never accepted again. -/
theorem rotation_is_final (codec : Codec) {early late : List CredentialEvent} (hfresh : FreshRun codec late)
    {position : Nat} {input : CredentialInput} (hearly : early ++ [.advance position input] <+: late)
    {caller : Caller} {companyId : Uuid} {token : String} {expiresAt : DateTime}
    (hrequest : (credentialRun codec early).requests[position]? =
      some (.retiring caller companyId token expiresAt)) (now : DateTime) :
    (credentialRun codec late).store.resolveToken now (hashToken codec caller.token) = none := by
  have hstep : FreshRun codec (early ++ [.advance position input]) := hfresh.begins hearly
  have hsound := (FreshRun.concat.1 hstep).1.sound
  have hmem := List.mem_of_getElem? hrequest
  -- the token was a user's, and its hash is retired from this step on
  obtain ⟨grant, hissued, hgrant⟩ := hsound.vouched _ hmem caller rfl
  have huser := hsound.retiring _ _ _ _ hmem
  have hretired : hashToken codec caller.token ∈ (credentialRun codec late).history.retired := by
    refine (hfresh.grows hearly).retired.subset ?_
    rw [credentialRun_concat]
    simp only [CredentialDesk.step, hrequest]
    exact List.mem_append_right _ (List.mem_singleton_self _)
  have hissued' := (hfresh.grows ((List.prefix_append early _).trans hearly)).issued.subset hissued
  rw [Option.eq_none_iff_forall_ne_some]
  intro auth hresolve
  obtain ⟨grant', hmem', -, hforce⟩ := hfresh.sound.accounted.resolveToken_iff.1 hresolve
  obtain rfl := hfresh.sound.accounted.grant_eq hissued' hmem'
  cases grant with
  | user token => exact hforce.1 hretired
  | device id user company =>
    rw [← Option.some.inj hgrant] at huser
    cases huser
  | _ => cases hgrant

/-- The token a request is about to retire. -/
def CredentialRequest.retires : CredentialRequest → Option String
  | .retiring caller .. => some caller.token
  | _ => none

/-- Olga's first token is dead after its rotation. -/
theorem rotation_is_final_olga :
    (credentialRun serdeCodec (olgaRotates ++ [.advance 2 (generated 3 0 "-")])).store.resolveToken 4
      (hashToken serdeCodec "olga") = none := by
  have hretires : ((credentialRun serdeCodec olgaRotates).requests[2]?.bind CredentialRequest.retires) =
      some "olga" := by decide +kernel
  obtain ⟨request, hrequest, htoken⟩ := Option.bind_eq_some_iff.1 hretires
  cases request with
  | retiring caller companyId token expiresAt =>
    have hcaller : caller.token = "olga" := Option.some.inj htoken
    rw [← hcaller]
    exact rotation_is_final serdeCodec olgaRotates_fresh List.prefix_rfl hrequest 4
  | _ => cases htoken

/-- The removal of a member cuts off all their devices in the company, those revoked before with their old
time. -/
theorem removal_cuts_devices (codec : Codec) {early late : List CredentialEvent} (hfresh : FreshRun codec late)
    {position : Nat} {env : Env} {tokenHash : String}
    (hearly : early ++ [.membersAdvance position env tokenHash] <+: late) {change : MemberChange} {role : Role}
    (hrequest : (credentialRun codec early).memberRequests[position]? = some (.revoking change role))
    {id : Uuid} {device : Device}
    (hdevice : AList.lookup id (credentialRun codec early).store.devices = some device)
    (huser : device.userId = change.userId) (hcompany : device.companyId = change.companyId) :
    (credentialRun codec late).store.CutOff id (device.revokedAt.getD env.now) := by
  have hstep : AList.lookup id
      (credentialRun codec (early ++ [.membersAdvance position env tokenHash])).store.devices =
        some (device.cutOff env.now change.companyId change.userId) := by
    rw [credentialRun_concat]
    simp only [CredentialDesk.step, CredentialDesk.members, MembersDesk.step, hrequest]
    rw [MembersRequest.advance_device, hdevice]
    rfl
  refine (revocation_is_final codec hfresh hearly).1 id _ _ hstep ?_
  unfold Device.cutOff
  cases hold : device.revokedAt with
  | none => rw [if_pos ⟨hcompany, huser, rfl⟩, Option.getD_none]
  | some t =>
    rw [if_neg, hold, Option.getD_some]
    rintro ⟨-, -, hnone⟩
    cases hnone

/-- Olga leaves the company to Bob, and her device goes with her. -/
def olgaLeaves : List CredentialEvent :=
  olgaRegisters ++ [.membersArrive (.createInvitation ⟨7, 1, none⟩ 1 "b@acme" .owner),
    .membersAdvance 0 ⟨6, "2026-03-01", 2⟩ "bob", .membersAdvance 0 ⟨6, "2026-03-01", 2⟩ "bob",
    .membersArrive (.acceptInvitation "bob" "Bob"), .membersAdvance 1 ⟨7, "2026-03-01", 3⟩ "",
    .membersAdvance 1 ⟨7, "2026-03-01", 8⟩ "", .membersAdvance 1 ⟨7, "2026-03-01", 4⟩ "",
    .membersArrive (.removeMember ⟨7, 1, none⟩ 1 7), .membersAdvance 2 ⟨8, "2026-03-01", 0⟩ "",
    .membersAdvance 2 ⟨8, "2026-03-01", 0⟩ "", .membersAdvance 2 ⟨8, "2026-03-01", 0⟩ "",
    .membersAdvance 2 ⟨8, "2026-03-01", 0⟩ ""]

theorem removal_cuts_devices_olga :
    (credentialRun serdeCodec (olgaLeaves ++ [.membersAdvance 2 ⟨9, "2026-03-01", 0⟩ ""])).store.CutOff 2 9 := by
  have hcutting : ((credentialRun serdeCodec olgaLeaves).memberRequests[2]?.bind MembersRequest.cutting).map
      (fun change => (change.userId, change.companyId)) = some (7, 1) := by decide +kernel
  obtain ⟨change, hchange, htarget⟩ := Option.map_eq_some_iff.1 hcutting
  obtain ⟨request, hrequest, hcut⟩ := Option.bind_eq_some_iff.1 hchange
  have hrow : (AList.lookup 2 (credentialRun serdeCodec olgaLeaves).store.devices).map
      (fun device => (device.userId, device.companyId, device.revokedAt)) = some (7, 1, none) := by
    decide +kernel
  obtain ⟨device, hdevice, hfields⟩ := Option.map_eq_some_iff.1 hrow
  obtain ⟨huser, hcompany, hlive⟩ : device.userId = 7 ∧ device.companyId = 1 ∧ device.revokedAt = none := by
    simpa using hfields
  cases request with
  | revoking change' role =>
    obtain rfl : change' = change := Option.some.inj hcut
    have hfresh : FreshRun serdeCodec (olgaLeaves ++ [.membersAdvance 2 ⟨9, "2026-03-01", 0⟩ ""]) := by
      decide +kernel
    have hcut := removal_cuts_devices serdeCodec hfresh List.prefix_rfl hrequest hdevice
      (huser.trans (Prod.mk.inj htarget).1.symm) (hcompany.trans (Prod.mk.inj htarget).2.symm)
    rwa [hlive] at hcut
  | _ => cases hcut

/-! ### Who changes credentials -/

/-- The request at the position presented a token during the run that resolved to the caller's identity. -/
def Authenticated (codec : Codec) (events : List CredentialEvent) (position : Nat) (caller : Caller) : Prop :=
  ∃ early input request, early ++ [.advance position input] <+: events ∧
    (credentialRun codec early).requests[position]? = some request ∧
    request.Authenticates codec (credentialRun codec early).store input.env.now caller

/-- After that it read the caller's role in the company of its command. -/
def RoleRead (codec : Codec) (events : List CredentialEvent) (position : Nat) (caller : Caller)
    (company : Uuid) (role : Role) : Prop :=
  ∃ early input command, early ++ [.advance position input] <+: events ∧
    (credentialRun codec early).requests[position]? = some (.entering caller command) ∧
    command.companyId = company ∧
    requireMembership (credentialRun codec early).store.memberships caller.auth company = .ok role ∧
    Authenticated codec early position caller

/-- A device of the company was read with its user during the run. -/
def DeviceRead (codec : Codec) (events : List CredentialEvent) (company id user : Uuid) : Prop :=
  ∃ early device, early <+: events ∧ (credentialRun codec early).store.device company id = some device ∧
    device.userId = user

/-- What the request at a position has read of its caller and the caller's rights. -/
def CredentialRequest.Judged (codec : Codec) (events : List CredentialEvent) (position : Nat) :
    CredentialRequest → Prop
  | .touching caller _ _ | .entering caller _ => Authenticated codec events position caller
  | .targeting caller role companyId _ | .billing caller role companyId .. =>
    RoleRead codec events position caller companyId role
  | .writing change => RoleRead codec events position change.caller change.companyId change.role ∧
    ∀ id user, change.write = .revokeDevice id user → DeviceRead codec events change.companyId id user
  | _ => True

section Judged
variable {codec : Codec} {events events' : List CredentialEvent} {position : Nat}

theorem Authenticated.mono {caller : Caller} (h : Authenticated codec events position caller)
    (hlater : events <+: events') : Authenticated codec events' position caller := by
  obtain ⟨early, input, request, hearly, hrequest⟩ := h
  exact ⟨early, input, request, hearly.trans hlater, hrequest⟩

theorem RoleRead.mono {caller : Caller} {company : Uuid} {role : Role}
    (h : RoleRead codec events position caller company role) (hlater : events <+: events') :
    RoleRead codec events' position caller company role := by
  obtain ⟨early, input, command, hearly, hread⟩ := h
  exact ⟨early, input, command, hearly.trans hlater, hread⟩

theorem DeviceRead.mono {company id user : Uuid} (h : DeviceRead codec events company id user)
    (hlater : events <+: events') : DeviceRead codec events' company id user := by
  obtain ⟨early, device, hearly, hdevice⟩ := h
  exact ⟨early, device, hearly.trans hlater, hdevice⟩

theorem CredentialRequest.Judged.mono {request : CredentialRequest}
    (h : request.Judged codec events position) (hlater : events <+: events') :
    request.Judged codec events' position := by
  cases request with
  | touching caller deviceId command => exact Authenticated.mono h hlater
  | entering caller command => exact Authenticated.mono h hlater
  | targeting caller role companyId deviceId => exact RoleRead.mono h hlater
  | billing caller role companyId invoiceId expiresDays entitled => exact RoleRead.mono h hlater
  | writing change => exact ⟨h.1.mono hlater, fun id user hwrite => (h.2 id user hwrite).mono hlater⟩
  | _ => trivial

/-- What a request reads in a call, it has read during the run. -/
theorem CredentialRequest.Judged.advance {request : CredentialRequest}
    (h : request.Judged codec events position) (input : CredentialInput)
    (hrequest : (credentialRun codec events).requests[position]? = some request) :
    (request.advance codec input (credentialRun codec events).store).1.Judged codec
      (events ++ [.advance position input]) position := by
  have hlater : events <+: events ++ [.advance position input] := List.prefix_append _ _
  cases request with
  | arrived header command =>
    simp only [CredentialRequest.advance]
    split
    · trivial
    · rename_i token htoken
      split
      · trivial
      · rename_i auth hauth
        have hauthenticated : Authenticated codec (events ++ [.advance position input]) position
            ⟨auth, token⟩ := ⟨events, input, _, List.prefix_rfl, hrequest, htoken, hauth⟩
        split <;> exact hauthenticated
  | touching caller deviceId command => exact Authenticated.mono h hlater
  | entering caller command =>
    simp only [CredentialRequest.advance]
    split
    · trivial
    · rename_i role hrole
      have hread : RoleRead codec (events ++ [.advance position input]) position caller command.companyId
          role := ⟨events, input, command, List.prefix_rfl, hrequest, rfl, hrole, h⟩
      cases command with
      | revokeDevice companyId deviceId => exact hread
      | _ =>
        simp only [CredentialCommand.enter]
        split_ifs
        all_goals first | trivial | exact hread | exact ⟨hread, fun _ _ hwrite => by cases hwrite⟩
  | targeting caller role companyId deviceId =>
    simp only [CredentialRequest.advance]
    split
    · trivial
    · rename_i device hdevice
      split_ifs
      · refine ⟨RoleRead.mono h hlater, fun id user hwrite => ?_⟩
        obtain ⟨rfl, rfl⟩ := CredentialWrite.revokeDevice.inj hwrite
        exact ⟨events, device, hlater, hdevice, rfl⟩
      · trivial
  | billing caller role companyId invoiceId expiresDays entitled =>
    simp only [CredentialRequest.advance]
    split_ifs
    · trivial
    · trivial
    · exact ⟨RoleRead.mono h hlater, fun _ _ hwrite => by cases hwrite⟩
  | writing change =>
    obtain ⟨caller, companyId, role, write, entitled⟩ := change
    cases write with
    | revokeDevice => simp only [CredentialRequest.advance, CredentialChange.perform]; split <;> trivial
    | revokePortalLink => simp only [CredentialRequest.advance, CredentialChange.perform]; split <;> trivial
    | revokePayLink => simp only [CredentialRequest.advance, CredentialChange.perform]; split <;> trivial
    | _ => trivial
  | _ => trivial

/-- Every request under way has judged its caller itself. -/
theorem credentialRun_judged (codec : Codec) (events : List CredentialEvent) (position : Nat) :
    ∀ request, (credentialRun codec events).requests[position]? = some request →
      request.Judged codec events position := by
  induction events using List.reverseRecOn with
  | nil => exact fun _ hrequest => by cases hrequest
  | append_singleton early event ih =>
    intro request hrequest
    rw [credentialRun_concat] at hrequest
    obtain hold | ⟨header, command, rfl⟩ | ⟨input, old, rfl, hold, rfl⟩ :=
      CredentialDesk.step_request hrequest
    · exact (ih request hold).mono (List.prefix_append _ _)
    · trivial
    · exact (ih old hold).advance input hold

end Judged

/-- The devices and the links of two states are the same, but for the time a device was last seen. -/
structure CredentialStore.SameCredentials (s s' : CredentialStore) : Prop where
  devices : ∀ id, AList.lookup id s'.devices = AList.lookup id s.devices
  deviceTokens : s'.deviceTokens = s.deviceTokens
  deviceInfo : ∀ id, (AList.lookup id s'.deviceInfo).map (fun info => { info with lastSeenAt := none }) =
    (AList.lookup id s.deviceInfo).map fun info => { info with lastSeenAt := none }
  portalLinks : s'.portalLinks = s.portalLinks
  payLinks : s'.payLinks = s.payLinks

theorem CredentialStore.SameCredentials.refl (s : CredentialStore) : s.SameCredentials s :=
  ⟨fun _ => rfl, rfl, fun _ => rfl, rfl, rfl⟩

theorem CredentialStore.SameCredentials.trans {s s' s'' : CredentialStore} (h : s.SameCredentials s')
    (h' : s'.SameCredentials s'') : s.SameCredentials s'' where
  devices id := (h'.devices id).trans (h.devices id)
  deviceTokens := h'.deviceTokens.trans h.deviceTokens
  deviceInfo id := (h'.deviceInfo id).trans (h.deviceInfo id)
  portalLinks := h'.portalLinks.trans h.portalLinks
  payLinks := h'.payLinks.trans h.payLinks

/-- A store call that touches no device and no link. -/
def StoreCall.Quiet : StoreCall → Prop
  | .insertUserToken .. | .deleteUserToken _ | .touchDeviceSeen .. | .appendAudit _ => True
  | _ => False

theorem touchDeviceSeen_same (s : CredentialStore) (id : Uuid) (seenAt staleBefore : DateTime) :
    s.SameCredentials (s.touchDeviceSeen id seenAt staleBefore) := by
  unfold CredentialStore.touchDeviceSeen
  split
  · rename_i info hinfo
    split_ifs
    · refine ⟨fun _ => rfl, rfl, fun id' => ?_, rfl, rfl⟩
      by_cases hsame : id' = id
      · subst hsame
        rw [hinfo, AList.lookup_insert]
        rfl
      · rw [AList.lookup_insert_ne hsame]
    · exact .refl s
  · exact .refl s

theorem StoreCall.Quiet.run {call : StoreCall} (h : call.Quiet) (s : CredentialStore) :
    s.SameCredentials (call.run s) := by
  cases call with
  | touchDeviceSeen id seenAt staleBefore => exact touchDeviceSeen_same s id seenAt staleBefore
  | insertUserToken | deleteUserToken | appendAudit => exact ⟨fun _ => rfl, rfl, fun _ => rfl, rfl, rfl⟩
  | _ => exact h.elim

theorem StoreCall.Quiet.same {call : StoreCall} {s s' : CredentialStore} (hrun : s' = call.run s)
    (h : call.Quiet) : s.SameCredentials s' :=
  hrun ▸ h.run s

theorem StoreCall.Quiet.foldl {calls : List StoreCall} (h : ∀ call ∈ calls, call.Quiet) (s : CredentialStore) :
    s.SameCredentials (calls.foldl StoreCall.run s) := by
  induction calls generalizing s with
  | nil => exact .refl s
  | cons call calls ih =>
    exact ((h call List.mem_cons_self).run s).trans
      (ih (fun call hcall => h call (List.mem_cons_of_mem _ hcall)) (call.run s))

/-- The request at the position is about to make a change whose caller it has let in: it took the caller's token
and then read the caller's role in the company, which suffices for the change (`change.entitled`). The device of
a revocation has the user that the role was weighed against. -/
structure CredentialChange.LetIn (codec : Codec) (events : List CredentialEvent) (position : Nat)
    (change : CredentialChange) : Prop where
  request : (credentialRun codec events).requests[position]? = some (.writing change)
  role : RoleRead codec events position change.caller change.companyId change.role
  user : ∀ id user, change.write = .revokeDevice id user →
    ∀ device, (credentialRun codec events).store.device change.companyId id = some device → device.userId = user

theorem CredentialChange.letIn {codec : Codec} {events : List CredentialEvent} (hfresh : FreshRun codec events)
    {position : Nat} {change : CredentialChange}
    (hrequest : (credentialRun codec events).requests[position]? = some (.writing change)) :
    change.LetIn codec events position := by
  obtain ⟨hrole, hread⟩ := credentialRun_judged codec events position _ hrequest
  refine ⟨hrequest, hrole, fun id user hwrite device hdevice => ?_⟩
  -- the device was read before, and its user has not changed since
  obtain ⟨early, device₀, hearly, hdevice₀, huser⟩ := hread id user hwrite
  obtain ⟨kept, hkept, hholder, -⟩ :=
    (hfresh.grows hearly).devices id device₀ (Option.filter_eq_some_iff.1 hdevice₀).1
  obtain rfl := Option.some.inj ((Option.filter_eq_some_iff.1 hdevice).1.symm.trans hkept)
  exact (congrArg Prod.fst hholder).trans huser

/-- The devices of a member are revoked with the member, and nothing else. -/
structure CredentialStore.CutsMember (s s' : CredentialStore) (now : DateTime) (change : MemberChange) : Prop where
  devices : ∀ id, AList.lookup id s'.devices =
    (AList.lookup id s.devices).map (Device.cutOff now change.companyId change.userId)
  deviceTokens : s'.deviceTokens = s.deviceTokens
  deviceInfo : s'.deviceInfo = s.deviceInfo
  portalLinks : s'.portalLinks = s.portalLinks
  payLinks : s'.payLinks = s.payLinks

/-- A step of a run leaves the devices and the links but for the time a device was last seen, or it is the write
of a request that has let its caller in for it, or the removal of a member, which revokes the member's devices. -/
theorem credential_changes_authorised (codec : Codec) {events : List CredentialEvent} {event : CredentialEvent}
    (hfresh : FreshRun codec (events ++ [event])) :
    let s := (credentialRun codec events).store
    let s' := (credentialRun codec (events ++ [event])).store
    s.SameCredentials s' ∨
    (∃ (position : Nat) (input : CredentialInput) (change : CredentialChange) (call : StoreCall),
      event = .advance position input ∧ change.LetIn codec events position ∧ change.Makes call ∧
      s' = call.run s) ∨
    ∃ (position : Nat) (env : Env) (tokenHash : String) (change : MemberChange) (role : Role),
      event = .membersAdvance position env tokenHash ∧
      (credentialRun codec events).memberRequests[position]? = some (.revoking change role) ∧
      s.CutsMember s' env.now change := by
  intro s s'
  obtain ⟨hevents, -⟩ := FreshRun.concat.1 hfresh
  obtain ⟨directory, calls, hwrites, hstore, -⟩ := (credentialRun codec events).step_writes codec event
  have hs' : s' = calls.foldl StoreCall.run { s with toDirectory := directory } := by
    rw [← hstore, ← credentialRun_concat]
  cases hwrites with
  | nothing event =>
    rw [hs']
    exact .inl (.refl s)
  | @member position env tokenHash request hrequest =>
    cases hcutting : request.cutting with
    | none =>
      have hdevices : ∀ id, AList.lookup id (request.advance env tokenHash s.toDirectory).2.devices =
          AList.lookup id s.devices := by
        intro id
        rw [request.advance_device, hcutting]
        exact Option.map_id'
      rw [hs']
      exact .inl ⟨hdevices, rfl, fun _ => rfl, rfl, rfl⟩
    | some change =>
      cases request with
      | revoking change' role =>
        obtain rfl : change' = change := Option.some.inj hcutting
        have hdevices := (MembersRequest.revoking change' role).advance_device env tokenHash s.toDirectory
        refine .inr (.inr ⟨position, env, tokenHash, change', role, rfl, hrequest, ?_⟩)
        rw [hs']
        exact ⟨hdevices, rfl, rfl, rfl, rfl⟩
      | _ => cases hcutting
  | signIn hinput hdevices htail =>
    have hdirectory : s.SameCredentials { s with toDirectory := directory } :=
      ⟨fun id => congrArg (AList.lookup id) hdevices, rfl, fun _ => rfl, rfl, rfl⟩
    rw [hs']
    refine .inl (hdirectory.trans (StoreCall.Quiet.foldl (fun call hcall => ?_) _))
    rcases List.mem_cons.1 hcall with rfl | hcall
    · trivial
    · obtain ⟨entry, rfl⟩ := htail call hcall
      trivial
  | @request position input request hrequest =>
    obtain hnone | ⟨call, hcall, hkind⟩ := request.advance_calls codec input s
    · rw [hs', hnone]
      exact .inl (.refl s)
    replace hs' : s' = call.run s := by
      rw [hs', hcall]
      rfl
    obtain ⟨change, rfl, hmakes, -⟩ | ⟨caller, companyId, token, expiresAt, rfl, rfl⟩ |
      ⟨id, seenAt, staleBefore, rfl⟩ | ⟨entry, rfl⟩ := hkind
    · exact .inr (.inl ⟨position, input, change, call, rfl, CredentialChange.letIn hevents hrequest,
        hmakes, hs'⟩)
    all_goals exact .inl (StoreCall.Quiet.same hs' trivial)

/-- The revocation of Olga's device is the write of her second request, which took her token and read her role. -/
theorem credential_changes_authorised_olga :
    ∃ (change : CredentialChange) (call : StoreCall), change.LetIn serdeCodec olgaAsks 1 ∧ change.Makes call ∧
      (credentialRun serdeCodec olgaRevokes).store = call.run (credentialRun serdeCodec olgaAsks).store := by
  have hbefore : (AList.lookup 2 (credentialRun serdeCodec olgaAsks).store.devices).map Device.revokedAt =
      some none := by decide +kernel
  have hafter : (AList.lookup 2 (credentialRun serdeCodec olgaRevokes).store.devices).map Device.revokedAt =
      some (some 2) := by decide +kernel
  obtain hsame | ⟨position, input, change, call, hevent, hletIn, hmakes, hrun⟩ |
      ⟨position, env, tokenHash, change, role, hevent, -⟩ :=
    credential_changes_authorised serdeCodec (olgaRotates_fresh.begins olgaRevokes_begins)
  · have hlookup := (congrArg (Option.map Device.revokedAt) (hsame.devices 2)).symm.trans hafter
    cases hbefore.symm.trans hlookup
  · obtain ⟨rfl, -⟩ := CredentialEvent.advance.inj hevent
    exact ⟨change, call, hletIn, hmakes, hrun⟩
  · cases hevent

end AtlasTeam
