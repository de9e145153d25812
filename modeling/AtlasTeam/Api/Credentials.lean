import AtlasTeam.Api.Members
import AtlasTeam.Api.PortalView
import AtlasTeam.Lib.Registry

/-!
# Bearer tokens, devices and links (`auth.rs`, `api.rs`, `portal.rs`, `pay.rs`)

A token is handed out once and only its hash is stored: a user token when somebody signs in or rotates the one
in use, a device token on registration, a portal or a pay token with its link. `CredentialRequest` stands for
where a request of these planes is and what it has read; `CredentialDesk.step` moves one request by one store
call, with the membership requests of `MembersDesk` in between. A request writes through a `StoreCall`, so what
a step does to the tables is said once, by `StoreCall.run`.

`issued` and `retired` are history variables: what every token was handed out for, and the user tokens that were
rotated away. No step reads them.
-/

namespace AtlasTeam

/-- A day in milliseconds. -/
def dayMillis : Int := 24 * 60 * 60 * 1000

/-- `DEFAULT_USER_TOKEN_TTL_DAYS`. -/
def defaultUserTokenTtlDays : Int := 30

/-- `DEVICE_SEEN_THROTTLE_MINUTES` in milliseconds. -/
def deviceSeenThrottle : Int := 5 * 60 * 1000

/-- `DEFAULT_EXPIRES_DAYS` of a portal link. -/
def Portal.defaultExpiresDays : Int := 90

/-- `DEFAULT_EXPIRES_DAYS` of a pay link. -/
def Pay.defaultExpiresDays : Int := 60

/-- `LINK_ROLES`. -/
def Pay.linkRoles : List Role := [.owner, .admin, .sales, .accountant]

def PortalLinkKind.asStr : PortalLinkKind → String
  | .customer => "customer"
  | .accountant => "accountant"

/-! ### The tables -/

deriving instance DecidableEq for AuthContext

/-- A row of `user_tokens`. -/
structure UserToken where
  userId : Uuid
  companyId : Uuid
  /-- None never expires. -/
  expiresAt : Option DateTime
deriving DecidableEq

/-- What a device row holds besides the part the membership calls work on. -/
structure DeviceInfo where
  name : String
  tokenHash : String
  createdAt : DateTime
  lastSeenAt : Option DateTime

structure PortalLinkRow extends PortalLink where
  id : Uuid
  label : Option String
  tokenHash : String
  createdBy : Uuid
  createdAt : DateTime

structure PayLinkRow extends PayLink where
  id : Uuid
  tokenHash : String
  createdBy : Uuid
  createdAt : DateTime

/-- The identity tables with those of the tokens; a device stands in `devices` and in `deviceInfo`. -/
structure CredentialStore extends Directory where
  userTokens : Table String UserToken := ∅
  deviceInfo : Table Uuid DeviceInfo := ∅
  deviceTokens : Table String Uuid := ∅
  portalLinks : Table Uuid PortalLinkRow := ∅
  payLinks : Table Uuid PayLinkRow := ∅

/-- A row of a company is revoked; none when the company has no such row. -/
def revokeRow {V : Type} (companyOf : V → Uuid) (revoke : V → V) (company id : Uuid)
    (table : Table Uuid V) : Option (V × Table Uuid V) :=
  match AList.lookup id table with
  | some row => if companyOf row = company then some (revoke row, AList.insert id (revoke row) table) else none
  | none => none

/-- The time of the first revocation stays. -/
def revokedSince (now : DateTime) (revokedAt : Option DateTime) : Option DateTime :=
  some (revokedAt.getD now)

namespace CredentialStore

/-- `resolve_token`, by the token's hash. -/
def resolveToken (s : CredentialStore) (now : DateTime) (hash : String) : Option AuthContext :=
  match AList.lookup hash s.deviceTokens with
  | some deviceId =>
    match AList.lookup deviceId s.devices with
    | some device =>
      if device.revokedAt.isNone then
        some { userId := device.userId, companyId := device.companyId, deviceId := some deviceId }
      else none
    | none => none
  | none =>
    ((AList.lookup hash s.userTokens).filter fun t => t.expiresAt.all fun expiry => now < expiry).map
      fun t => { userId := t.userId, companyId := t.companyId, deviceId := none }

/-- `device`. -/
def device (s : CredentialStore) (company id : Uuid) : Option Device :=
  (AList.lookup id s.devices).filter fun device => device.companyId = company

/-- `revoke_device`. -/
def revokeDevice (s : CredentialStore) (now : DateTime) (company id : Uuid) :
    Option (Device × CredentialStore) :=
  (revokeRow Device.companyId (fun d => { d with revokedAt := revokedSince now d.revokedAt }) company id
    s.devices).map fun (device, devices) => (device, { s with devices })

/-- `revoke_portal_link`. -/
def revokePortalLink (s : CredentialStore) (now : DateTime) (company id : Uuid) : Option CredentialStore :=
  (revokeRow (fun l : PortalLinkRow => l.companyId)
    (fun l => { l with revokedAt := revokedSince now l.revokedAt }) company id s.portalLinks).map
    fun (_, portalLinks) => { s with portalLinks }

/-- `revoke_pay_link`. -/
def revokePayLink (s : CredentialStore) (now : DateTime) (company id : Uuid) : Option CredentialStore :=
  (revokeRow (fun l : PayLinkRow => l.companyId)
    (fun l => { l with revokedAt := revokedSince now l.revokedAt }) company id s.payLinks).map
    fun (_, payLinks) => { s with payLinks }

/-- `touch_device_seen`: a stamp that is fresh enough stays. -/
def touchDeviceSeen (s : CredentialStore) (id : Uuid) (seenAt staleBefore : DateTime) : CredentialStore :=
  match AList.lookup id s.deviceInfo with
  | some info =>
    if info.lastSeenAt.all fun seen => seen < staleBefore then
      { s with deviceInfo := AList.insert id { info with lastSeenAt := some seenAt } s.deviceInfo }
    else s
  | none => s

/-- `portal_link_by_hash`. -/
def portalLinkByHash (s : CredentialStore) (hash : String) : Option PortalLinkRow :=
  s.portalLinks.values.find? fun link => link.tokenHash = hash

/-- `pay_link_by_hash`. -/
def payLinkByHash (s : CredentialStore) (hash : String) : Option PayLinkRow :=
  s.payLinks.values.find? fun link => link.tokenHash = hash

/-- `resolve_link` of the portal. -/
def portalLink (s : CredentialStore) (now : DateTime) (hash : String) : Except ApiError PortalLink :=
  resolveLink now ((s.portalLinkByHash hash).map PortalLinkRow.toPortalLink)

/-- `resolve_link` of the pay page. -/
def payLink (s : CredentialStore) (now : DateTime) (hash : String) : Except ApiError PayLink :=
  match s.payLinkByHash hash with
  | some link => if link.revokedAt.isSome ∨ link.expiresAt < now then .error .notFound else .ok link.toPayLink
  | none => .error .notFound

end CredentialStore

/-! ### Store calls that write -/

inductive StoreCall where
  | insertUserToken (hash : String) (token : UserToken)
  | deleteUserToken (hash : String)
  | createDevice (id : Uuid) (device : Device) (info : DeviceInfo)
  | revokeDevice (now : DateTime) (company id : Uuid)
  | touchDeviceSeen (id : Uuid) (seenAt staleBefore : DateTime)
  | createPortalLink (link : PortalLinkRow)
  | revokePortalLink (now : DateTime) (company id : Uuid)
  | createPayLink (link : PayLinkRow)
  | revokePayLink (now : DateTime) (company id : Uuid)
  | appendAudit (entry : AuditEntry)

/-- What a call makes of the tables. -/
def StoreCall.run (s : CredentialStore) : StoreCall → CredentialStore
  | .insertUserToken hash token => { s with userTokens := AList.insert hash token s.userTokens }
  | .deleteUserToken hash => { s with userTokens := AList.erase hash s.userTokens }
  | .createDevice id device info =>
    { s with
      deviceTokens := AList.insert info.tokenHash id s.deviceTokens
      devices := AList.insert id device s.devices
      deviceInfo := AList.insert id info s.deviceInfo }
  | .revokeDevice now company id => ((s.revokeDevice now company id).map Prod.snd).getD s
  | .touchDeviceSeen id seenAt staleBefore => s.touchDeviceSeen id seenAt staleBefore
  | .createPortalLink link => { s with portalLinks := AList.insert link.id link s.portalLinks }
  | .revokePortalLink now company id => (s.revokePortalLink now company id).getD s
  | .createPayLink link => { s with payLinks := AList.insert link.id link s.payLinks }
  | .revokePayLink now company id => (s.revokePayLink now company id).getD s
  | .appendAudit entry => { s with toDirectory := s.toDirectory.appendAudit entry }

/-! ### Requests under way -/

inductive CredentialCommand where
  | registerDevice (companyId : Uuid) (name : String)
  | revokeDevice (companyId deviceId : Uuid)
  | rotateUserToken (companyId : Uuid)
  | createPortalLink (companyId : Uuid) (kind : PortalLinkKind) (party label : Option String)
      (expiresDays : Option Int)
  | revokePortalLink (companyId linkId : Uuid)
  | createPayLink (companyId : Uuid) (invoiceId : String) (expiresDays : Option Int)
  | revokePayLink (companyId linkId : Uuid)

def CredentialCommand.companyId : CredentialCommand → Uuid
  | .registerDevice companyId _ | .revokeDevice companyId _ | .rotateUserToken companyId
  | .createPortalLink companyId .. | .revokePortalLink companyId _ | .createPayLink companyId ..
  | .revokePayLink companyId _ => companyId

/-- Who makes a request: the identity and the token it was resolved from. -/
structure Caller where
  auth : AuthContext
  token : String

/-- What is written in the end. -/
inductive CredentialWrite where
  | registerDevice (name : String)
  /-- With the user of the device as it was read. -/
  | revokeDevice (deviceId deviceUser : Uuid)
  | rotateUserToken
  | createPortalLink (kind : PortalLinkKind) (party label : Option String) (expiresDays : Int)
  | revokePortalLink (linkId : Uuid)
  | createPayLink (invoiceId : String) (expiresDays : Int)
  | revokePayLink (linkId : Uuid)

/-- Whom a write asks for. -/
def CredentialWrite.Entitled (auth : AuthContext) (role : Role) : CredentialWrite → Prop
  | .registerDevice name => name ≠ ""
  | .revokeDevice _ deviceUser => deviceUser = auth.userId ∨ role ∈ [Role.owner, .admin]
  | .rotateUserToken => auth.deviceId = none
  | .createPortalLink kind party _ expiresDays =>
    role ∈ [Role.owner, .admin] ∧ (kind = .customer → party.isSome) ∧ 1 ≤ expiresDays
  | .revokePortalLink _ => role ∈ [Role.owner, .admin]
  | .createPayLink invoiceId expiresDays => role ∈ Pay.linkRoles ∧ invoiceId ≠ "" ∧ 1 ≤ expiresDays
  | .revokePayLink _ => role ∈ Pay.linkRoles

/-- A request that has passed its checks. -/
structure CredentialChange where
  caller : Caller
  companyId : Uuid
  /-- The caller's role as it was read. -/
  role : Role
  write : CredentialWrite
  entitled : write.Entitled caller.auth role

inductive CredentialAnswer where
  | registered (deviceId : Uuid) (deviceToken : String)
  | revoked (deviceId : Uuid) (revokedAt : Option DateTime)
  | rotated (token : String) (expiresAt : DateTime)
  | linked (id : Uuid) (token urlPath : String) (expiresAt : DateTime)
  | linkRevoked

/-- A request: the call it makes next, with what it has read. -/
inductive CredentialRequest where
  | arrived (header : Option String) (command : CredentialCommand)
  /-- A device's request in front of `touch_device_seen`. -/
  | touching (caller : Caller) (deviceId : Uuid) (command : CredentialCommand)
  /-- In front of `require_membership`. -/
  | entering (caller : Caller) (command : CredentialCommand)
  /-- A revocation in front of its device, a pay link in front of its invoice. -/
  | targeting (caller : Caller) (role : Role) (companyId deviceId : Uuid)
  | billing (caller : Caller) (role : Role) (companyId : Uuid) (invoiceId : String)
      (expiresDays : Option Int) (entitled : role ∈ Pay.linkRoles ∧ invoiceId ≠ "")
  | writing (change : CredentialChange)
  /-- A rotation whose new token is stored. -/
  | retiring (caller : Caller) (companyId : Uuid) (token : String) (expiresAt : DateTime)
  | auditing (entry : AuditEntry) (answer : CredentialAnswer)
  | finished (result : Except ApiError CredentialAnswer)

/-- What a step takes from outside these tables. -/
structure CredentialInput where
  env : Env
  /-- The token generated in the step. -/
  token : String
  /-- `ATLAS_USER_TOKEN_TTL_DAYS`, where it is a number. -/
  ttlDays : Option Int
  /-- Whether `resolve_invoice` found the invoice of a pay link. -/
  invoiceFound : Bool

/-- `user_token_expires_at`. -/
def CredentialInput.userTokenExpiresAt (input : CredentialInput) : DateTime :=
  input.env.now + (input.ttlDays.filter fun days => 0 < days).getD defaultUserTokenTtlDays * dayMillis

/-- The token of an `Authorization` header. -/
def bearerToken (header : Option String) : Option String :=
  header.bind fun value => (value.toList.dropPrefix? "Bearer ".toList).map String.ofList

/-- A text field that is there and not blank, trimmed. -/
def trimmedSome (text : Option String) : Option String := (text.map trim).filter fun t => t ≠ ""

/-- The checks of a command once its caller's role is read, up to its next call. -/
def CredentialCommand.enter (caller : Caller) (role : Role) : CredentialCommand → CredentialRequest
  | .registerDevice companyId name =>
    if h : trim name = "" then .finished (.error (.badRequest "name is required"))
    else .writing ⟨caller, companyId, role, .registerDevice (trim name), h⟩
  | .revokeDevice companyId deviceId => .targeting caller role companyId deviceId
  | .rotateUserToken companyId =>
    if h : caller.auth.deviceId = none then .writing ⟨caller, companyId, role, .rotateUserToken, h⟩
    else .finished (.error (.badRequest
      "only a user token can rotate itself; devices re-register or are revoked"))
  | .createPortalLink companyId kind party label expiresDays =>
    if hrole : role ∈ [Role.owner, .admin] then
      if hparty : kind = .customer ∧ (trimmedSome party).isNone then .finished (.error (.badRequest
        "party (the customer id) is required for customer links"))
      else
        let days := expiresDays.getD Portal.defaultExpiresDays
        if hdays : days < 1 then .finished (.error (.badRequest "expires_days must be at least 1"))
        else .writing ⟨caller, companyId, role,
          .createPortalLink kind (trimmedSome party) (trimmedSome label) days, hrole, by
            intro hkind
            by_contra hnone
            exact hparty ⟨hkind, Option.not_isSome_iff_eq_none.1 hnone ▸ rfl⟩, not_lt.1 hdays⟩
    else .finished (.error .forbidden)
  | .revokePortalLink companyId linkId =>
    if h : role ∈ [Role.owner, .admin] then .writing ⟨caller, companyId, role, .revokePortalLink linkId, h⟩
    else .finished (.error .forbidden)
  | .createPayLink companyId invoiceId expiresDays =>
    if hrole : role ∈ Pay.linkRoles then
      if h : trim invoiceId = "" then .finished (.error (.badRequest "invoice_id is required"))
      else .billing caller role companyId (trim invoiceId) expiresDays ⟨hrole, h⟩
    else .finished (.error .forbidden)
  | .revokePayLink companyId linkId =>
    if h : role ∈ Pay.linkRoles then .writing ⟨caller, companyId, role, .revokePayLink linkId, h⟩
    else .finished (.error .forbidden)

/-- The audit row of a caller. -/
def Caller.audit (caller : Caller) (env : Env) (companyId : Uuid) (deviceId : Option Uuid) (action : String)
    (detail : List (String × Value)) : AuditEntry :=
  { id := env.uuid
    companyId
    userId := some caller.auth.userId
    deviceId
    action
    detail := .obj detail
    at_ := env.now }

/-- The write of a request, and where it stands then. -/
def CredentialChange.perform (codec : Codec) (input : CredentialInput) (s : CredentialStore)
    (change : CredentialChange) : CredentialRequest × List StoreCall :=
  let { caller, companyId, role := _, write, entitled := _ } := change
  let env := input.env
  let hash := hashToken codec input.token
  let audit := caller.audit env companyId
  match write with
  | .registerDevice name =>
    (.auditing (audit (some env.uuid) "device.register" [("name", .string name)])
        (.registered env.uuid input.token),
      [.createDevice env.uuid { companyId, userId := caller.auth.userId, revokedAt := none }
        { name, tokenHash := hash, createdAt := env.now, lastSeenAt := none }])
  | .revokeDevice deviceId _ =>
    match s.revokeDevice env.now companyId deviceId with
    | some (device, _) =>
      (.auditing (audit caller.auth.deviceId "device.revoke"
          [("deviceId", .string deviceId.render), ("deviceUserId", .string device.userId.render)])
          (.revoked deviceId device.revokedAt),
        [.revokeDevice env.now companyId deviceId])
    | none => (.finished (.error .notFound), [])
  | .rotateUserToken =>
    (.retiring caller companyId input.token input.userTokenExpiresAt,
      [.insertUserToken hash
        { userId := caller.auth.userId, companyId, expiresAt := some input.userTokenExpiresAt }])
  | .createPortalLink kind party label expiresDays =>
    let link : PortalLinkRow :=
      { id := env.uuid
        companyId
        kind
        party
        label
        tokenHash := hash
        createdBy := caller.auth.userId
        createdAt := env.now
        expiresAt := env.now + expiresDays * dayMillis
        revokedAt := none }
    (.auditing (audit caller.auth.deviceId "portal.link.create"
        [("linkId", .string link.id.render), ("kind", .string kind.asStr), ("party", .ofOption party)])
        (.linked link.id input.token ("/portal/" ++ input.token) link.expiresAt),
      [.createPortalLink link])
  | .revokePortalLink linkId =>
    match s.revokePortalLink env.now companyId linkId with
    | some _ =>
      (.auditing (audit caller.auth.deviceId "portal.link.revoke" [("linkId", .string linkId.render)])
        .linkRevoked, [.revokePortalLink env.now companyId linkId])
    | none => (.finished (.error .notFound), [])
  | .createPayLink invoiceId expiresDays =>
    let link : PayLinkRow :=
      { id := env.uuid
        companyId
        invoiceId
        tokenHash := hash
        createdBy := caller.auth.userId
        createdAt := env.now
        expiresAt := env.now + expiresDays * dayMillis
        revokedAt := none }
    (.auditing (audit caller.auth.deviceId "pay.link.create"
        [("linkId", .string link.id.render), ("invoiceId", .string invoiceId)])
        (.linked link.id input.token ("/pay/" ++ input.token) link.expiresAt),
      [.createPayLink link])
  | .revokePayLink linkId =>
    match s.revokePayLink env.now companyId linkId with
    | some _ =>
      (.auditing (audit caller.auth.deviceId "pay.link.revoke" [("linkId", .string linkId.render)])
        .linkRevoked, [.revokePayLink env.now companyId linkId])
    | none => (.finished (.error .notFound), [])

theorem requireMembership_ok {memberships : Memberships} {auth : AuthContext} {companyId : Uuid} {role : Role}
    (h : requireMembership memberships auth companyId = .ok role) :
    AList.lookup (auth.userId, companyId) memberships = some role ∧
      (auth.deviceId.isSome → auth.companyId = companyId) := by
  unfold requireMembership at h
  split_ifs at h with hother
  split at h
  · rename_i found hfound
    obtain rfl := Except.ok.inj h
    exact ⟨hfound, fun hdevice => by_contra fun hne => hother ⟨hdevice, hne⟩⟩
  · cases h

/-- One call of a request: where it stands then, and what it writes. -/
def CredentialRequest.advance (codec : Codec) (input : CredentialInput) (s : CredentialStore) :
    CredentialRequest → CredentialRequest × List StoreCall
  | .arrived header command =>
    match bearerToken header with
    | none => (.finished (.error .unauthorized), [])
    | some token =>
      match s.resolveToken input.env.now (hashToken codec token) with
      | none => (.finished (.error .unauthorized), [])
      | some auth =>
        match auth.deviceId with
        | some deviceId => (.touching ⟨auth, token⟩ deviceId command, [])
        | none => (.entering ⟨auth, token⟩ command, [])
  | .touching caller deviceId command =>
    let now := input.env.now
    (.entering caller command, [.touchDeviceSeen deviceId now (now - deviceSeenThrottle)])
  | .entering caller command =>
    match requireMembership s.memberships caller.auth command.companyId with
    | .error e => (.finished (.error e), [])
    | .ok role => (command.enter caller role, [])
  | .targeting caller role companyId deviceId =>
    match s.device companyId deviceId with
    | none => (.finished (.error .notFound), [])
    | some device =>
      if h : device.userId = caller.auth.userId ∨ role ∈ [Role.owner, .admin] then
        (.writing ⟨caller, companyId, role, .revokeDevice deviceId device.userId, h⟩, [])
      else (.finished (.error .forbidden), [])
  | .billing caller role companyId invoiceId expiresDays entitled =>
    let days := expiresDays.getD Pay.defaultExpiresDays
    if !input.invoiceFound then (.finished (.error .notFound), [])
    else if h : days < 1 then
      (.finished (.error (.badRequest "expires_days must be at least 1")), [])
    else (.writing ⟨caller, companyId, role, .createPayLink invoiceId days, entitled.1, entitled.2,
      not_lt.1 h⟩, [])
  | .writing change => change.perform codec input s
  | .retiring caller companyId token expiresAt =>
    (.auditing (caller.audit input.env companyId caller.auth.deviceId "token.rotate"
        [("userId", .string caller.auth.userId.render)]) (.rotated token expiresAt),
      [.deleteUserToken (hashToken codec caller.token)])
  | .auditing entry answer => (.finished (.ok answer), [.appendAudit entry])
  | .finished result => (.finished result, [])

/-! ### The desk -/

/-- What a token was handed out for. -/
inductive Grant where
  | user (token : UserToken)
  | device (deviceId userId companyId : Uuid)
  | portal (link : PortalLinkRow)
  | pay (link : PayLinkRow)

/-- The tokens handed out, by hash, and the user tokens rotated away. -/
structure CredentialHistory where
  issued : List (String × Grant) := []
  retired : List String := []

def CredentialHistory.issue (h : CredentialHistory) (hash : String) (grant : Grant) : CredentialHistory :=
  { h with issued := h.issued ++ [(hash, grant)] }

/-- What a call adds to the history. -/
def StoreCall.record (h : CredentialHistory) : StoreCall → CredentialHistory
  | .insertUserToken hash token => h.issue hash (.user token)
  | .deleteUserToken hash => { h with retired := h.retired ++ [hash] }
  | .createDevice id device info => h.issue info.tokenHash (.device id device.userId device.companyId)
  | .createPortalLink link => h.issue link.tokenHash (.portal link)
  | .createPayLink link => h.issue link.tokenHash (.pay link)
  | _ => h

structure CredentialDesk where
  store : CredentialStore := {}
  requests : List CredentialRequest := []
  memberRequests : List MembersRequest := []
  history : CredentialHistory := {}

/-- What reaches the desk. -/
inductive CredentialEvent where
  | arrive (header : Option String) (command : CredentialCommand)
  | advance (position : Nat) (input : CredentialInput)
  | membersArrive (command : MembersCommand)
  | membersAdvance (position : Nat) (env : Env) (tokenHash : String)
  /-- `create_company`: a company under the generated id, with the first token of its first user. -/
  | createCompany (input : CredentialInput) (ownerId : Uuid) (name ownerEmail ownerName : String)
  /-- The token of an accepted invitation, in front of its last read. -/
  | signIn (position : Nat) (input : CredentialInput)

/-- Store calls one after the other. -/
def CredentialDesk.write (desk : CredentialDesk) (calls : List StoreCall) : CredentialDesk :=
  { desk with
    store := calls.foldl StoreCall.run desk.store
    history := calls.foldl StoreCall.record desk.history }

/-- `insert_user_token` of a user who signs in. -/
def signInCall (codec : Codec) (input : CredentialInput) (userId companyId : Uuid) : StoreCall :=
  .insertUserToken (hashToken codec input.token)
    { userId, companyId, expiresAt := some input.userTokenExpiresAt }

/-- What follows the rows of a new company: its first user's token and the audit row. -/
def createCompanyCalls (codec : Codec) (input : CredentialInput) (owner : User) (name : String) : List StoreCall :=
  [signInCall codec input owner.id input.env.uuid, .appendAudit
    { id := input.env.uuid
      companyId := input.env.uuid
      userId := some owner.id
      deviceId := none
      action := "company.create"
      detail := .obj [("name", .string (trim name)), ("ownerEmail", .string owner.email)]
      at_ := input.env.now }]

/-- The membership requests take a step. -/
def CredentialDesk.members (desk : CredentialDesk) (event : MembersEvent) : CredentialDesk :=
  let members := MembersDesk.step ⟨desk.store.toDirectory, desk.memberRequests⟩ event
  { desk with
    store := { desk.store with toDirectory := members.directory }
    memberRequests := members.requests }

/-- One step of the desk. -/
def CredentialDesk.step (codec : Codec) (desk : CredentialDesk) (event : CredentialEvent) : CredentialDesk :=
  match event with
  | .arrive header command => { desk with requests := desk.requests ++ [.arrived header command] }
  | .advance position input =>
    match desk.requests[position]? with
    | some request =>
      let (request, calls) := request.advance codec input desk.store
      { desk.write calls with requests := desk.requests.set position request }
    | none => desk
  | .membersArrive command => desk.members (.arrive command)
  | .membersAdvance position env tokenHash => desk.members (.advance position env tokenHash)
  | .createCompany input ownerId name ownerEmail ownerName =>
    match desk.store.createCompany input.env ownerId name ownerEmail ownerName with
    | .ok directory =>
      let owner := (desk.store.upsertUser ownerId (trim ownerEmail) (trim ownerName)).1
      { desk with store := { desk.store with toDirectory := directory } }.write
        (createCompanyCalls codec input owner name)
    | .error _ => desk
  | .signIn position input =>
    match desk.memberRequests[position]? with
    | some (.naming invitation user) => desk.write [signInCall codec input user.id invitation.companyId]
    | _ => desk

/-- The desk after a list of events, from an empty store. -/
def credentialRun (codec : Codec) (events : List CredentialEvent) : CredentialDesk :=
  events.foldl (CredentialDesk.step codec) {}

theorem credentialRun_concat (codec : Codec) (events : List CredentialEvent) (event : CredentialEvent) :
    credentialRun codec (events ++ [event]) = (credentialRun codec events).step codec event :=
  List.foldl_concat _ _ _ _

end AtlasTeam
