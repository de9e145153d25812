import AtlasTeam.Api.Settings
import AtlasTeam.Lib.Runs

/-!
# Members and invitations (`api.rs`)

`create_invitation`, `accept_invitation`, `remove_member` and `change_member_role` make one store call
after another, and other requests run in between. A `MembersRequest` stands for where one of them is and
what it has read; `MembersDesk.step` moves one request by one call. The last-owner guard counts in one
call and writes in a later one: `owner_kept` says at which writes a company loses its last Owner, and
`owners_never_gained` how somebody becomes an Owner without one.

Session tokens and the plaintext of an invitation's token, which no call here reads, are left out.
-/

namespace AtlasTeam

/-- `Role::parse`. -/
def Role.parse : String → Option Role
  | "owner" => some .owner
  | "admin" => some .admin
  | "sales" => some .sales
  | "purchasing" => some .purchasing
  | "stock" => some .stock
  | "pos" => some .pos
  | "accountant" => some .accountant
  | "advisor" => some .advisor
  | _ => none

theorem Role.parse_asStr (role : Role) : Role.parse role.asStr = some role := by
  cases role <;> rfl

structure User where
  id : Uuid
  email : String
  displayName : String

/-- A membership joined with its user. -/
structure Member where
  userId : Uuid
  email : String
  displayName : String
  role : Role

structure Invitation where
  id : Uuid
  tokenHash : String
  companyId : Uuid
  email : String
  role : Role
  createdBy : Uuid
  acceptedBy : Option Uuid
  expiresAt : DateTime
  /-- The role that was read of the member who issued it; the code does not store it. -/
  issuer : Role

structure Device where
  companyId : Uuid
  userId : Uuid
  revokedAt : Option DateTime

/-- The identity tables of the store. -/
structure Directory where
  companies : Table Uuid String := ∅
  users : Table Uuid User := ∅
  usersByEmail : Table String Uuid := ∅
  memberships : Memberships := ∅
  invitations : Table Uuid Invitation := ∅
  devices : Table Uuid Device := ∅
  audit : List AuditEntry := []

/-- `INVITATION_TTL_DAYS` in milliseconds. -/
def invitationTtl : Int := 7 * 24 * 60 * 60 * 1000

/-! ### Store calls -/

namespace Directory

/-- `upsert_user`; `id` is the one generated for a new user. -/
def upsertUser (d : Directory) (id : Uuid) (email displayName : String) : User × Directory :=
  match (AList.lookup email d.usersByEmail).bind fun known => AList.lookup known d.users with
  | some user => (user, d)
  | none =>
    let user : User := { id, email, displayName }
    (user, { d with usersByEmail := AList.insert email id d.usersByEmail
                    users := AList.insert id user d.users })

/-- `upsert_membership`: a membership that is there keeps its role. -/
def upsertMembership (d : Directory) (user company : Uuid) (role : Role) : Directory :=
  match AList.lookup (user, company) d.memberships with
  | some _ => d
  | none => { d with memberships := AList.insert (user, company) role d.memberships }

def membershipRole (d : Directory) (user company : Uuid) : Option Role :=
  AList.lookup (user, company) d.memberships

/-- `company_members`, without the order by date of joining. -/
def companyMembers (d : Directory) (company : Uuid) : List Member :=
  (d.memberships.entries.filter fun e => e.1.2 = company).filterMap fun e =>
    (AList.lookup e.1.1 d.users).map fun user =>
      { userId := e.1.1, email := user.email, displayName := user.displayName, role := e.2 }

/-- `owner_count`. -/
def ownerCount (d : Directory) (company : Uuid) : Nat :=
  ((d.companyMembers company).filter fun member => member.role = .owner).length

/-- `remove_membership`. -/
def removeMembership (d : Directory) (user company : Uuid) : Bool × Directory :=
  ((d.membershipRole user company).isSome,
    { d with memberships := AList.erase (user, company) d.memberships })

/-- `set_membership_role`. -/
def setMembershipRole (d : Directory) (user company : Uuid) (role : Role) : Bool × Directory :=
  match d.membershipRole user company with
  | some _ => (true, { d with memberships := AList.insert (user, company) role d.memberships })
  | none => (false, d)

/-- `revoke_user_devices`. -/
def revokeUserDevices (d : Directory) (now : DateTime) (company user : Uuid) : Nat × Directory :=
  let live := d.devices.entries.filter fun e =>
    e.2.companyId = company ∧ e.2.userId = user ∧ e.2.revokedAt.isNone
  let revoke (devices : Table Uuid Device) (e : Σ _ : Uuid, Device) : Table Uuid Device :=
    AList.insert e.1 { e.2 with revokedAt := some now } devices
  (live.length, { d with devices := live.foldl revoke d.devices })

/-- `create_invitation` of the store. -/
def createInvitation (d : Directory) (invitation : Invitation) : Except StoreError Directory :=
  if d.invitations.entries.any fun e => e.2.tokenHash = invitation.tokenHash then
    .error (.conflict "invitation token exists")
  else .ok { d with invitations := AList.insert invitation.id invitation d.invitations }

def invitationByHash (d : Directory) (tokenHash : String) : Option Invitation :=
  (d.invitations.entries.find? fun e => e.2.tokenHash = tokenHash).map fun e => e.2

/-- `mark_invitation_accepted`. -/
def markInvitationAccepted (d : Directory) (id user : Uuid) : Except StoreError Directory :=
  match AList.lookup id d.invitations with
  | some invitation =>
    .ok { d with invitations := AList.insert id { invitation with acceptedBy := some user } d.invitations }
  | none => .error (.internal "invitation not found")

def appendAudit (d : Directory) (entry : AuditEntry) : Directory :=
  { d with audit := d.audit ++ [entry] }

/-- What `create_company` writes: the company, its first user and the Owner membership. -/
def createCompany (d : Directory) (env : Env) (ownerId : Uuid) (name ownerEmail ownerName : String) :
    Except ApiError Directory :=
  if trim name = "" ∨ trim ownerEmail = "" then
    .error (.badRequest "name and owner_email are required")
  else
    let d := { d with companies := AList.insert env.uuid (trim name) d.companies }
    let (owner, d) := d.upsertUser ownerId (trim ownerEmail) (trim ownerName)
    .ok (d.upsertMembership owner.id env.uuid .owner)

end Directory

/-! ### Requests under way -/

inductive MembersCommand where
  | createInvitation (auth : AuthContext) (companyId : Uuid) (email : String) (role : Role)
  | acceptInvitation (tokenHash displayName : String)
  | removeMember (auth : AuthContext) (companyId userId : Uuid)
  | changeMemberRole (auth : AuthContext) (companyId userId : Uuid) (role : String)

/-- What is done to a membership in the end. -/
inductive MembershipWrite where
  | remove
  | setRole (role : Role)
deriving DecidableEq

/-- A removal or a change of role whose caller was let in. -/
structure MemberChange where
  auth : AuthContext
  companyId : Uuid
  userId : Uuid
  /-- The caller's role as it was read. -/
  role : Role
  write : MembershipWrite
  /-- Only Owners change roles. -/
  entitled : write ≠ .remove → role = .owner

inductive MembersAnswer where
  | invited (expiresAt : DateTime)
  | accepted (userId companyId : Uuid) (companyName : String) (role : Role)
  | removed (userId : Uuid) (revokedDevices : Nat)
  | changed (userId : Uuid) (role : Role)

/-- A request: the call it makes next, with what it has read. -/
inductive MembersRequest where
  | start (command : MembersCommand)
  | inviting (auth : AuthContext) (companyId : Uuid) (email : String) (role issuer : Role)
  /-- An acceptance in front of `upsert_user`, `upsert_membership` and `mark_invitation_accepted`. -/
  | joining (invitation : Invitation) (displayName : String)
  | enrolling (invitation : Invitation) (user : User)
  | marking (invitation : Invitation) (user : User)
  /-- A change in front of its target's role, the owner count and the write. -/
  | targeting (change : MemberChange)
  | counting (change : MemberChange) (targetRole : Role)
  | writing (change : MemberChange) (targetRole : Role)
  | revoking (change : MemberChange) (targetRole : Role)
  | auditing (entry : AuditEntry) (answer : MembersAnswer)
  /-- An accepted invitation whose answer names the company. -/
  | naming (invitation : Invitation) (user : User)
  | finished (result : Except ApiError MembersAnswer)

/-- `remove_member` on its target's role: whether the owners are counted next. -/
def removeMemberTarget (auth : AuthContext) (userId : Uuid) (role targetRole : Role) :
    Except ApiError Bool :=
  match targetRole with
  | .owner => if userId ≠ auth.userId then .error .forbidden else .ok true
  | .admin => if role = .admin ∧ userId ≠ auth.userId then .error .forbidden else .ok false
  | _ => .ok false

/-- What is checked of a target's role: whether the owners are counted next. -/
def MemberChange.checkTarget (change : MemberChange) (targetRole : Role) : Except ApiError Bool :=
  match change.write with
  | .remove => removeMemberTarget change.auth change.userId change.role targetRole
  | .setRole role => .ok (targetRole = .owner ∧ role ≠ .owner)

/-- The answer to a change that would leave no Owner. -/
def MembershipWrite.lastOwner : MembershipWrite → ApiError
  | .remove => .conflict "cannot remove the last owner of the company"
  | .setRole _ => .conflict "cannot demote the last owner of the company"

theorem requireRole_ok {role : Role} {allowed : List Role} :
    requireRole role allowed = .ok () ↔ role ∈ allowed := by
  unfold requireRole
  split_ifs with hmem <;> simp [hmem]

/-- The first call of a request, and what is decided on its result. -/
def MembersCommand.begin (env : Env) (d : Directory) : MembersCommand → MembersRequest
  | .createInvitation auth companyId email role =>
    match requireMembership d.memberships auth companyId with
    | .error e => .finished (.error e)
    | .ok issuer =>
      match requireRole issuer [.owner, .admin] with
      | .error e => .finished (.error e)
      | .ok () =>
        if trim email = "" then .finished (.error (.badRequest "email is required"))
        else .inviting auth companyId (trim email) role issuer
  | .acceptInvitation tokenHash displayName =>
    match d.invitationByHash tokenHash with
    | none => .finished (.error .unauthorized)
    | some invitation =>
      if invitation.acceptedBy.isSome then
        .finished (.error (.conflict "invitation already accepted"))
      else if invitation.expiresAt < env.now then .finished (.error (.gone "invitation expired"))
      else .joining invitation (trim displayName)
  | .removeMember auth companyId userId =>
    match requireMembership d.memberships auth companyId with
    | .error e => .finished (.error e)
    | .ok role =>
      match requireRole role [.owner, .admin] with
      | .error e => .finished (.error e)
      | .ok () => .targeting ⟨auth, companyId, userId, role, .remove, fun h => absurd rfl h⟩
  | .changeMemberRole auth companyId userId role =>
    match requireMembership d.memberships auth companyId with
    | .error e => .finished (.error e)
    | .ok callerRole =>
      match h : requireRole callerRole [.owner] with
      | .error e => .finished (.error e)
      | .ok () =>
        match Role.parse role with
        | none => .finished (.error (.badRequest s!"unknown role {role}"))
        | some newRole =>
          .targeting ⟨auth, companyId, userId, callerRole, .setRole newRole,
            fun _ => List.mem_singleton.1 (requireRole_ok.1 h)⟩

/-- The audit row of a request. -/
def membersAudit (env : Env) (companyId : Uuid) (userId deviceId : Option Uuid) (action : String)
    (detail : List (String × Value)) : AuditEntry :=
  { id := env.uuid, companyId, userId, deviceId, action, detail := .obj detail, at_ := env.now }

/-- The write of a change and what follows it. -/
def MemberChange.perform (change : MemberChange) (env : Env) (targetRole : Role) (d : Directory) :
    MembersRequest × Directory :=
  match change.write with
  | .remove =>
    match d.removeMembership change.userId change.companyId with
    | (true, d) => (.revoking change targetRole, d)
    | (false, d) => (.finished (.error .notFound), d)
  | .setRole role =>
    match d.setMembershipRole change.userId change.companyId role with
    | (true, d) =>
      (.auditing (membersAudit env change.companyId (some change.auth.userId) change.auth.deviceId
        "member.role" [("userId", .string change.userId.render), ("from", .string targetRole.asStr),
          ("to", .string role.asStr)]) (.changed change.userId role), d)
    | (false, d) => (.finished (.error .notFound), d)

/-- One call of a request: where it stands then, and the store. `tokenHash` is the hash of the token
generated for an invitation. -/
def MembersRequest.advance (env : Env) (tokenHash : String) (d : Directory) :
    MembersRequest → MembersRequest × Directory
  | .start command => (command.begin env d, d)
  | .inviting auth companyId email role issuer =>
    let invitation : Invitation :=
      { id := env.uuid
        tokenHash
        companyId
        email
        role
        createdBy := auth.userId
        acceptedBy := none
        expiresAt := env.now + invitationTtl
        issuer }
    match d.createInvitation invitation with
    | .error e => (.finished (.error (.store e)), d)
    | .ok d =>
      (.auditing (membersAudit env companyId (some auth.userId) auth.deviceId "invitation.create"
        [("email", .string email), ("role", .string role.asStr)]) (.invited invitation.expiresAt), d)
  | .joining invitation displayName =>
    let (user, d) := d.upsertUser env.uuid invitation.email displayName
    (.enrolling invitation user, d)
  | .enrolling invitation user =>
    (.marking invitation user, d.upsertMembership user.id invitation.companyId invitation.role)
  | .marking invitation user =>
    match d.markInvitationAccepted invitation.id user.id with
    | .error e => (.finished (.error (.store e)), d)
    | .ok d => (.naming invitation user, d.appendAudit (membersAudit env invitation.companyId
        (some user.id) none "invitation.accept"
        [("email", .string invitation.email), ("role", .string invitation.role.asStr)]))
  | .targeting change =>
    match d.membershipRole change.userId change.companyId with
    | none => (.finished (.error .notFound), d)
    | some targetRole =>
      match change.checkTarget targetRole with
      | .error e => (.finished (.error e), d)
      | .ok true => (.counting change targetRole, d)
      | .ok false => (.writing change targetRole, d)
  | .counting change targetRole =>
    if d.ownerCount change.companyId ≤ 1 then (.finished (.error change.write.lastOwner), d)
    else (.writing change targetRole, d)
  | .writing change targetRole => change.perform env targetRole d
  | .revoking change targetRole =>
    let (revoked, d) := d.revokeUserDevices env.now change.companyId change.userId
    (.auditing (membersAudit env change.companyId (some change.auth.userId) change.auth.deviceId
      "member.remove" [("userId", .string change.userId.render), ("role", .string targetRole.asStr),
        ("revokedDevices", .number (.int revoked))]) (.removed change.userId revoked), d)
  | .auditing entry answer => (.finished (.ok answer), d.appendAudit entry)
  | .naming invitation user =>
    (.finished (.ok (.accepted user.id invitation.companyId
      ((AList.lookup invitation.companyId d.companies).getD "") invitation.role)), d)
  | .finished result => (.finished result, d)

structure MembersDesk where
  directory : Directory := {}
  requests : List MembersRequest := []

/-- What reaches the desk. -/
inductive MembersEvent where
  /-- A company is created under the generated id, with its first user. -/
  | createCompany (env : Env) (ownerId : Uuid) (name ownerEmail ownerName : String)
  | registerDevice (id : Uuid) (device : Device)
  | arrive (command : MembersCommand)
  | advance (position : Nat) (env : Env) (tokenHash : String)

/-- No company is created. -/
def MembersEvent.isRequest : MembersEvent → Bool
  | .createCompany .. => false
  | _ => true

/-- One step of the desk. -/
def MembersDesk.step (desk : MembersDesk) (event : MembersEvent) : MembersDesk :=
  match event with
  | .createCompany env ownerId name ownerEmail ownerName =>
    match desk.directory.createCompany env ownerId name ownerEmail ownerName with
    | .ok directory => { desk with directory }
    | .error _ => desk
  | .registerDevice id device =>
    { desk with directory :=
        { desk.directory with devices := AList.insert id device desk.directory.devices } }
  | .arrive command => { desk with requests := desk.requests ++ [.start command] }
  | .advance position env tokenHash =>
    match desk.requests[position]? with
    | some request =>
      let (request, directory) := request.advance env tokenHash desk.directory
      { directory, requests := desk.requests.set position request }
    | none => desk

/-- The desk after a list of events, from an empty store. -/
def membersRun (events : List MembersEvent) : MembersDesk := events.foldl MembersDesk.step {}

/-! ### What one call does to the memberships -/

/-- What a write leaves of a membership. -/
def MembershipWrite.result : MembershipWrite → Option Role → Option Role
  | .remove, _ => none
  | .setRole role, old => old.map fun _ => role

/-- The role of a membership after the next call of a request. -/
def MembersRequest.newRole (user company : Uuid) (old : Option Role) : MembersRequest → Option Role
  | .enrolling invitation member =>
    if (user, company) = (member.id, invitation.companyId) then some (old.getD invitation.role) else old
  | .writing change _ =>
    if (user, company) = (change.userId, change.companyId) then change.write.result old else old
  | _ => old

namespace Directory
variable (d : Directory)

/-- Users are stored under their ids, and every membership is a stored user's. -/
structure Known : Prop where
  keyed : ∀ id user, AList.lookup id d.users = some user → user.id = id
  members : ∀ user company role, d.membershipRole user company = some role →
    (AList.lookup user d.users).isSome

@[simp] theorem upsertUser_memberships (id : Uuid) (email displayName : String) :
    (d.upsertUser id email displayName).2.memberships = d.memberships := by
  unfold upsertUser
  split <;> rfl

theorem upsertUser_users (id : Uuid) (email displayName : String) (user : Uuid)
    (h : (AList.lookup user d.users).isSome) :
    (AList.lookup user (d.upsertUser id email displayName).2.users).isSome := by
  unfold upsertUser
  split
  · exact h
  · simp only
    by_cases heq : user = id
    · rw [heq, AList.lookup_insert]
      rfl
    · rwa [AList.lookup_insert_ne heq]

variable {d}

theorem Known.upsertUser (h : d.Known) (id : Uuid) (email displayName : String) :
    (d.upsertUser id email displayName).2.Known ∧
      (AList.lookup (d.upsertUser id email displayName).1.id
        (d.upsertUser id email displayName).2.users).isSome := by
  have hmembers : ∀ user company role,
      (d.upsertUser id email displayName).2.membershipRole user company = some role →
      (AList.lookup user (d.upsertUser id email displayName).2.users).isSome := by
    intro user company role hrole
    rw [membershipRole, upsertUser_memberships] at hrole
    exact d.upsertUser_users id email displayName user (h.members user company role hrole)
  refine ⟨⟨?_, hmembers⟩, ?_⟩
  · unfold Directory.upsertUser
    split
    · exact h.keyed
    · intro id' user huser
      by_cases heq : id' = id
      · rw [heq, AList.lookup_insert] at huser
        rw [heq, ← Option.some.inj huser]
      · rw [AList.lookup_insert_ne heq] at huser
        exact h.keyed id' user huser
  · unfold Directory.upsertUser
    split
    · rename_i user huser
      obtain ⟨known, -, hknown⟩ := Option.bind_eq_some_iff.1 huser
      simp only
      rw [h.keyed known user hknown, hknown]
      rfl
    · simp only
      rw [AList.lookup_insert]
      rfl

variable (d)

theorem upsertMembership_users (user company : Uuid) (role : Role) :
    (d.upsertMembership user company role).users = d.users := by
  unfold upsertMembership
  split <;> rfl

theorem upsertMembership_role (user company : Uuid) (role : Role) (user' company' : Uuid) :
    (d.upsertMembership user company role).membershipRole user' company' =
      if (user', company') = (user, company) then
        some ((d.membershipRole user' company').getD role)
      else d.membershipRole user' company' := by
  unfold upsertMembership membershipRole
  split <;> rename_i hold <;> split_ifs with heq
  · rw [heq, hold, Option.getD_some]
  · rfl
  · rw [heq, hold, AList.lookup_insert, Option.getD_none]
  · rw [AList.lookup_insert_ne heq]

theorem removeMembership_role (user company user' company' : Uuid) :
    (d.removeMembership user company).2.membershipRole user' company' =
      if (user', company') = (user, company) then none else d.membershipRole user' company' := by
  unfold removeMembership membershipRole
  split_ifs with heq
  · rw [heq, AList.lookup_erase]
  · rw [AList.lookup_erase_ne heq]

theorem setMembershipRole_role (user company : Uuid) (role : Role) (user' company' : Uuid) :
    (d.setMembershipRole user company role).2.membershipRole user' company' =
      if (user', company') = (user, company) then
        (d.membershipRole user' company').map fun _ => role
      else d.membershipRole user' company' := by
  unfold setMembershipRole
  split <;> rename_i hold <;> simp only [membershipRole] at hold ⊢ <;> split_ifs with heq
  · rw [heq, hold, AList.lookup_insert, Option.map_some]
  · rw [AList.lookup_insert_ne heq]
  · rw [heq, hold, Option.map_none]
  · rfl

theorem createInvitation_keeps {invitation : Invitation} {d' : Directory}
    (h : d.createInvitation invitation = .ok d') :
    d'.memberships = d.memberships ∧ d'.users = d.users := by
  unfold createInvitation at h
  split_ifs at h
  obtain rfl := Except.ok.inj h
  exact ⟨rfl, rfl⟩

theorem markInvitationAccepted_keeps {id user : Uuid} {d' : Directory}
    (h : d.markInvitationAccepted id user = .ok d') :
    d'.memberships = d.memberships ∧ d'.users = d.users := by
  unfold markInvitationAccepted at h
  split at h
  · obtain rfl := Except.ok.inj h
    exact ⟨rfl, rfl⟩
  · cases h

end Directory

theorem MemberChange.perform_role (change : MemberChange) (env : Env) (targetRole : Role) (d : Directory)
    (user company : Uuid) :
    (change.perform env targetRole d).2.membershipRole user company =
      if (user, company) = (change.userId, change.companyId) then
        change.write.result (d.membershipRole user company)
      else d.membershipRole user company := by
  unfold MemberChange.perform
  split
  · rename_i hwrite
    rw [hwrite]
    have hrole := d.removeMembership_role change.userId change.companyId user company
    split <;> rename_i hrun <;> rw [hrun] at hrole <;> exact hrole
  · rename_i role hwrite
    rw [hwrite]
    have hrole := d.setMembershipRole_role change.userId change.companyId role user company
    split <;> rename_i hrun <;> rw [hrun] at hrole <;> exact hrole

theorem MemberChange.perform_users (change : MemberChange) (env : Env) (targetRole : Role)
    (d : Directory) : (change.perform env targetRole d).2.users = d.users := by
  unfold MemberChange.perform
  split
  · split <;> rename_i hrun <;> rw [← congrArg Prod.snd hrun] <;> rfl
  · rename_i role hwrite
    have husers : (d.setMembershipRole change.userId change.companyId role).2.users = d.users := by
      unfold Directory.setMembershipRole
      split <;> rfl
    split <;> rename_i hrun <;> rw [← husers, hrun]

/-- All a call does to a membership. -/
theorem MembersRequest.advance_role (request : MembersRequest) (env : Env) (tokenHash : String)
    (d : Directory) (user company : Uuid) :
    (request.advance env tokenHash d).2.membershipRole user company =
      request.newRole user company (d.membershipRole user company) := by
  cases request with
  | enrolling invitation member => exact d.upsertMembership_role _ _ _ _ _
  | writing change targetRole => exact change.perform_role env targetRole d user company
  | inviting auth companyId email role issuer =>
    simp only [advance, newRole]
    split
    · rfl
    · rename_i hrun
      rw [Directory.membershipRole, (d.createInvitation_keeps hrun).1, Directory.membershipRole]
  | marking invitation member =>
    simp only [advance, newRole]
    split
    · rfl
    · rename_i d' hrun
      show AList.lookup (user, company) d'.memberships = _
      rw [(d.markInvitationAccepted_keeps hrun).1, Directory.membershipRole]
  | joining invitation displayName =>
    show AList.lookup (user, company) (d.upsertUser env.uuid invitation.email displayName).2.memberships = _
    rw [Directory.upsertUser_memberships]
    rfl
  | targeting change =>
    simp only [advance, newRole]
    split
    · rfl
    · split <;> rfl
  | counting change targetRole =>
    simp only [advance, newRole]
    split_ifs <;> rfl
  | start command => rfl
  | revoking change targetRole => rfl
  | auditing entry answer => rfl
  | naming invitation member => rfl
  | finished result => rfl

/-- No call removes a user. -/
theorem MembersRequest.advance_users (request : MembersRequest) (env : Env) (tokenHash : String)
    (d : Directory) :
    (request.advance env tokenHash d).2.users = d.users ∨
      ∃ invitation displayName, request = .joining invitation displayName := by
  cases request with
  | joining invitation displayName => exact .inr ⟨invitation, displayName, rfl⟩
  | enrolling invitation member => exact .inl (d.upsertMembership_users _ _ _)
  | writing change targetRole => exact .inl (change.perform_users env targetRole d)
  | inviting auth companyId email role issuer =>
    refine .inl ?_
    simp only [advance]
    split
    · rfl
    · rename_i hrun
      exact (d.createInvitation_keeps hrun).2
  | marking invitation member =>
    refine .inl ?_
    simp only [advance]
    split
    · rfl
    · rename_i hrun
      exact (d.markInvitationAccepted_keeps hrun).2
  | targeting change =>
    refine .inl ?_
    simp only [advance]
    split
    · rfl
    · split <;> rfl
  | counting change targetRole =>
    refine .inl ?_
    simp only [advance]
    split_ifs <;> rfl
  | start command => exact .inl rfl
  | revoking change targetRole => exact .inl rfl
  | auditing entry answer => exact .inl rfl
  | naming invitation member => exact .inl rfl
  | finished result => exact .inl rfl

/-! ### Owners -/

namespace Directory
variable {d : Directory} {company : Uuid}

/-- `user` holds the Owner role in the company. -/
def IsOwner (d : Directory) (company user : Uuid) : Prop := d.membershipRole user company = some .owner

instance (d : Directory) (company user : Uuid) : Decidable (d.IsOwner company user) :=
  inferInstanceAs (Decidable (_ = _))

/-- The users `owner_count` counts. -/
def ownerIds (d : Directory) (company : Uuid) : List Uuid :=
  ((d.companyMembers company).filter fun member => member.role = .owner).map fun member => member.userId

theorem length_ownerIds (d : Directory) (company : Uuid) :
    (d.ownerIds company).length = d.ownerCount company :=
  List.length_map _

theorem Known.mem_ownerIds (h : d.Known) {user : Uuid} :
    user ∈ d.ownerIds company ↔ d.IsOwner company user := by
  simp only [ownerIds, companyMembers, List.mem_map, List.mem_filter, List.mem_filterMap,
    Option.map_eq_some_iff, decide_eq_true_eq]
  constructor
  · rintro ⟨member, ⟨⟨⟨⟨user', company'⟩, role⟩, ⟨hentry, rfl⟩, record, -, rfl⟩, rfl⟩, rfl⟩
    exact List.mem_dlookup d.memberships.nodupKeys hentry
  · intro hrole
    obtain ⟨record, hrecord⟩ := Option.isSome_iff_exists.1 (h.members user company .owner hrole)
    exact ⟨_, ⟨⟨⟨(user, company), .owner⟩, ⟨List.of_mem_dlookup hrole, rfl⟩, record, hrecord, rfl⟩, rfl⟩, rfl⟩

theorem nodup_ownerIds (d : Directory) (company : Uuid) : (d.ownerIds company).Nodup := by
  have hkeys : d.memberships.entries.Pairwise fun e e' => e.1 ≠ e'.1 :=
    List.pairwise_map.1 d.memberships.nodupKeys
  have hcompany : (d.memberships.entries.filter fun e => e.1.2 = company).Pairwise
      fun e e' => e.1.1 ≠ e'.1.1 := by
    refine List.Pairwise.imp_of_mem ?_ (hkeys.filter _)
    intro e e' he he' hne heq
    have hof := of_decide_eq_true (List.mem_filter.1 he).2
    have hof' := of_decide_eq_true (List.mem_filter.1 he').2
    exact hne (Prod.ext heq (hof.trans hof'.symm))
  have hmembers : (d.companyMembers company).Pairwise fun m m' => m.userId ≠ m'.userId := by
    refine hcompany.filterMap _ fun e e' hne m hm m' hm' => ?_
    obtain ⟨_, -, rfl⟩ := Option.map_eq_some_iff.1 hm
    obtain ⟨_, -, rfl⟩ := Option.map_eq_some_iff.1 hm'
    exact hne
  exact List.pairwise_map.2 (hmembers.filter _)

/-- More than one Owner is counted when somebody besides a given Owner is one. -/
theorem Known.one_lt_ownerCount (h : d.Known) {user : Uuid} (huser : d.IsOwner company user) :
    1 < d.ownerCount company ↔ ∃ other, other ≠ user ∧ d.IsOwner company other := by
  rw [← length_ownerIds]
  have hnodup := d.nodup_ownerIds company
  have hmem := h.mem_ownerIds.2 huser
  constructor
  · intro hcount
    obtain ⟨other, hother⟩ : ∃ other, other ∈ (d.ownerIds company).erase user := by
      refine List.exists_mem_of_length_pos ?_
      rw [List.length_erase_of_mem hmem]
      omega
    rw [hnodup.mem_erase_iff] at hother
    exact ⟨other, hother.1, h.mem_ownerIds.1 hother.2⟩
  · rintro ⟨other, hne, hother⟩
    have herase : other ∈ (d.ownerIds company).erase user :=
      hnodup.mem_erase_iff.2 ⟨hne, h.mem_ownerIds.2 hother⟩
    have hlen := List.length_erase_of_mem hmem
    have hpos := List.length_pos_of_mem herase
    omega

end Directory

/-- The change a request is about to write. -/
def MembersRequest.pendingWrite : MembersRequest → Option MemberChange
  | .writing change _ => some change
  | _ => none

/-- The last-owner guard in the state a write meets: a present Owner who is removed or demoted is not
the only one counted. -/
def MembersRequest.GuardHolds (request : MembersRequest) (d : Directory) (company : Uuid) : Prop :=
  ∀ change ∈ request.pendingWrite, change.companyId = company → change.write ≠ .setRole .owner →
    d.IsOwner company change.userId → 1 < d.ownerCount company

instance (request : MembersRequest) (d : Directory) (company : Uuid) :
    Decidable (request.GuardHolds d company) :=
  inferInstanceAs (Decidable (∀ change ∈ request.pendingWrite, _))

theorem MembersRequest.guardHolds_of_none {request : MembersRequest} (h : request.pendingWrite = none)
    (d : Directory) (company : Uuid) : request.GuardHolds d company := by
  intro change hchange
  rw [h] at hchange
  cases hchange

theorem MembersRequest.guardHolds_writing {change : MemberChange} {targetRole : Role} {d : Directory}
    {company : Uuid} : (MembersRequest.writing change targetRole).GuardHolds d company ↔
      (change.companyId = company → change.write ≠ .setRole .owner →
        d.IsOwner company change.userId → 1 < d.ownerCount company) := by
  simp only [GuardHolds, pendingWrite, Option.mem_some_iff, forall_eq']

/-- A call leaves the company an Owner exactly if the guard holds in front of it. -/
theorem MembersRequest.advance_hasOwner (request : MembersRequest) (env : Env) (tokenHash : String)
    {d : Directory} {company : Uuid} (hknown : d.Known) (howner : ∃ user, d.IsOwner company user) :
    (∃ user, (request.advance env tokenHash d).2.IsOwner company user) ↔
      request.GuardHolds d company := by
  simp only [Directory.IsOwner, request.advance_role]
  obtain ⟨owner, howner⟩ := howner
  cases request with
  | writing change targetRole =>
    simp only [newRole, guardHolds_writing]
    by_cases hcompany : company = change.companyId
    swap
    · refine iff_of_true ⟨owner, ?_⟩ fun h => absurd h.symm hcompany
      rwa [if_neg fun h => hcompany (Prod.ext_iff.1 h).2]
    subst hcompany
    have hcond : ∀ user, (user, change.companyId) = (change.userId, change.companyId) ↔
        user = change.userId := fun user => by simp
    simp only [hcond]
    by_cases htarget : d.IsOwner change.companyId change.userId
    · by_cases hwrite : change.write = .setRole .owner
      · refine iff_of_true ⟨change.userId, ?_⟩ fun _ h => absurd hwrite h
        rw [if_pos rfl, hwrite, htarget, MembershipWrite.result, Option.map_some]
      · have hresult : change.write.result (some .owner) ≠ some .owner := by
          cases hw : change.write with
          | remove => exact fun h => by cases h
          | setRole role =>
            intro h
            exact hwrite (hw.trans (congrArg _ (Option.some.inj h)))
        refine Iff.trans ?_ ⟨fun h _ _ _ => h, fun h => h trivial hwrite htarget⟩
        rw [hknown.one_lt_ownerCount htarget]
        refine exists_congr fun user => ?_
        split_ifs with heq
        · subst heq
          rw [htarget]
          exact iff_of_false hresult fun h => h.1 rfl
        · exact ⟨fun h => ⟨heq, h⟩, fun h => h.2⟩
    · refine iff_of_true ⟨owner, ?_⟩ fun _ _ h => absurd h htarget
      rwa [if_neg fun heq : owner = change.userId => htarget (heq ▸ howner)]
  | enrolling invitation member =>
    refine iff_of_true ⟨owner, ?_⟩ (guardHolds_of_none rfl _ _)
    rw [howner, newRole, Option.getD_some, ite_self]
  | _ => exact iff_of_true ⟨owner, howner⟩ (guardHolds_of_none rfl _ _)

/-- What a command begins with. -/
theorem MembersCommand.begin_cases (command : MembersCommand) (env : Env) (d : Directory) :
    (∃ result, command.begin env d = .finished result) ∨
    (∃ auth companyId email role issuer, command.begin env d = .inviting auth companyId email role issuer) ∨
    (∃ invitation displayName, command.begin env d = .joining invitation displayName) ∨
    ∃ change, command.begin env d = .targeting change := by
  cases command with
  | createInvitation auth companyId email role =>
    simp only [MembersCommand.begin]
    split
    · exact .inl ⟨_, rfl⟩
    · split
      · exact .inl ⟨_, rfl⟩
      · split_ifs
        · exact .inl ⟨_, rfl⟩
        · exact .inr (.inl ⟨_, _, _, _, _, rfl⟩)
  | acceptInvitation tokenHash displayName =>
    simp only [MembersCommand.begin]
    split
    · exact .inl ⟨_, rfl⟩
    · split_ifs
      · exact .inl ⟨_, rfl⟩
      · exact .inl ⟨_, rfl⟩
      · exact .inr (.inr (.inl ⟨_, _, rfl⟩))
  | removeMember auth companyId userId =>
    simp only [MembersCommand.begin]
    split
    · exact .inl ⟨_, rfl⟩
    · split
      · exact .inl ⟨_, rfl⟩
      · exact .inr (.inr (.inr ⟨_, rfl⟩))
  | changeMemberRole auth companyId userId role =>
    simp only [MembersCommand.begin]
    split
    · exact .inl ⟨_, rfl⟩
    · split
      · exact .inl ⟨_, rfl⟩
      · split
        · exact .inl ⟨_, rfl⟩
        · exact .inr (.inr (.inr ⟨_, rfl⟩))

/-- Where a change stands after its write. -/
theorem MemberChange.perform_cases (change : MemberChange) (env : Env) (targetRole : Role) (d : Directory) :
    (∃ result, (change.perform env targetRole d).1 = .finished result) ∨
    (change.perform env targetRole d).1 = .revoking change targetRole ∨
    ∃ entry answer, (change.perform env targetRole d).1 = .auditing entry answer := by
  unfold MemberChange.perform
  split
  · split
    · exact .inr (.inl rfl)
    · exact .inl ⟨_, rfl⟩
  · split
    · exact .inr (.inr ⟨_, _, rfl⟩)
    · exact .inl ⟨_, rfl⟩

/-- A request comes in front of its write from the owner count, or from its target's role where no
Owner is removed or demoted. -/
theorem MembersRequest.advance_pendingWrite {request : MembersRequest} {env : Env} {tokenHash : String}
    {d : Directory} {change : MemberChange}
    (h : (request.advance env tokenHash d).1.pendingWrite = some change) :
    1 < d.ownerCount change.companyId ∨ change.write = .setRole .owner ∨
      ¬ d.IsOwner change.companyId change.userId := by
  cases request with
  | counting change' targetRole =>
    simp only [advance] at h
    split_ifs at h with hcount
    · cases h
    · obtain rfl := Option.some.inj h
      exact .inl (not_le.1 hcount)
  | targeting change' =>
    simp only [advance] at h
    split at h
    · cases h
    · rename_i targetRole hrole
      split at h
      · cases h
      · cases h
      · rename_i hcheck
        obtain rfl := Option.some.inj h
        refine .inr (or_iff_not_imp_right.2 fun howner => ?_)
        obtain rfl := Option.some.inj (hrole.symm.trans (not_not.1 howner))
        unfold MemberChange.checkTarget at hcheck
        split at hcheck
        · rw [removeMemberTarget] at hcheck
          split_ifs at hcheck
          simp at hcheck
        · rename_i role hset
          simp only [true_and, Except.ok.injEq, decide_eq_false_iff_not, not_not] at hcheck
          rw [hset, hcheck]
  | start command =>
    exfalso
    simp only [advance] at h
    rcases command.begin_cases env d with
        ⟨_, hbegin⟩ | ⟨_, _, _, _, _, hbegin⟩ | ⟨_, _, hbegin⟩ | ⟨_, hbegin⟩ <;>
      rw [hbegin] at h <;> cases h
  | writing change' targetRole =>
    simp only [advance] at h
    rcases change'.perform_cases env targetRole d with ⟨_, hnext⟩ | hnext | ⟨_, _, hnext⟩ <;>
      rw [hnext] at h <;> cases h
  | inviting auth companyId email role issuer =>
    simp only [advance] at h
    split at h <;> cases h
  | marking invitation member =>
    simp only [advance] at h
    split at h <;> cases h
  | joining invitation displayName => cases h
  | enrolling invitation member => cases h
  | revoking change' targetRole => cases h
  | auditing entry answer => cases h
  | naming invitation member => cases h
  | finished result => cases h

/-- The guard can fail only at a write before which the company's Owners have changed since the call that
let it through. -/
theorem MembersRequest.guardHolds_advance (request : MembersRequest) (env : Env) (tokenHash : String)
    {d d' : Directory} {company : Uuid} (hknown : d.Known) (hknown' : d'.Known)
    (hsame : ∀ user, d'.IsOwner company user ↔ d.IsOwner company user) :
    (request.advance env tokenHash d).1.GuardHolds d' company := by
  rintro change hchange rfl hwrite htarget
  have howner := (hsame _).1 htarget
  rcases MembersRequest.advance_pendingWrite hchange with hcount | hset | hnot
  · rw [hknown'.one_lt_ownerCount htarget]
    obtain ⟨other, hne, hother⟩ := (hknown.one_lt_ownerCount howner).1 hcount
    exact ⟨other, hne, (hsame _).2 hother⟩
  · exact absurd hset hwrite
  · exact absurd howner hnot

/-! ### A company keeps an Owner -/

namespace Directory.Known
variable {d : Directory}

theorem upsertMembership (h : d.Known) {user : Uuid} (huser : (AList.lookup user d.users).isSome)
    (company : Uuid) (role : Role) : (d.upsertMembership user company role).Known := by
  refine ⟨?_, ?_⟩
  · rw [d.upsertMembership_users]
    exact h.keyed
  · intro user' company' role' hrole
    rw [d.upsertMembership_users]
    rw [d.upsertMembership_role] at hrole
    split_ifs at hrole with heq
    · rwa [(Prod.mk.inj heq).1]
    · exact h.members user' company' role' hrole

theorem advance (h : d.Known) (request : MembersRequest) (env : Env) (tokenHash : String)
    (henrolling : ∀ invitation user, request = .enrolling invitation user →
      (AList.lookup user.id d.users).isSome) : (request.advance env tokenHash d).2.Known := by
  rcases request.advance_users env tokenHash d with husers | ⟨invitation, displayName, rfl⟩
  · refine ⟨fun id user => husers ▸ h.keyed id user, fun user company role hrole => ?_⟩
    rw [husers]
    rw [request.advance_role] at hrole
    cases request with
    | enrolling invitation member =>
      simp only [MembersRequest.newRole] at hrole
      split_ifs at hrole with heq
      · rw [(Prod.mk.inj heq).1]
        exact henrolling invitation member rfl
      · exact h.members user company role hrole
    | writing change targetRole =>
      simp only [MembersRequest.newRole] at hrole
      split_ifs at hrole
      · cases hold : d.membershipRole user company with
        | some old => exact h.members user company old hold
        | none =>
          rw [hold] at hrole
          cases hwrite : change.write <;> rw [hwrite] at hrole <;> cases hrole
      · exact h.members user company role hrole
    | _ => exact h.members user company role hrole
  · exact (h.upsertUser _ _ _).1

end Directory.Known

/-- What a created company writes. -/
theorem Directory.createCompany_ok {d d' : Directory} {env : Env} {ownerId : Uuid}
    {name ownerEmail ownerName : String} (h : d.createCompany env ownerId name ownerEmail ownerName = .ok d') :
    (d.Known → d'.Known) ∧
      (∀ user, (AList.lookup user d.users).isSome → (AList.lookup user d'.users).isSome) ∧
      ∃ owner, ∀ user company, d'.membershipRole user company =
        if (user, company) = (owner, env.uuid) then some ((d.membershipRole user company).getD .owner)
        else d.membershipRole user company := by
  unfold createCompany at h
  split_ifs at h
  set named : Directory := { d with companies := AList.insert env.uuid (trim name) d.companies }
  set owner := (named.upsertUser ownerId (trim ownerEmail) (trim ownerName)).1
  have hd' : (named.upsertUser ownerId (trim ownerEmail) (trim ownerName)).2.upsertMembership owner.id
      env.uuid .owner = d' := Except.ok.inj h
  rw [← hd']
  refine ⟨?_, ?_, owner.id, fun user company => ?_⟩
  · intro hknown
    have hnamed : named.Known := ⟨hknown.keyed, hknown.members⟩
    obtain ⟨hupsert, howner⟩ := hnamed.upsertUser ownerId (trim ownerEmail) (trim ownerName)
    exact hupsert.upsertMembership howner _ _
  · intro user huser
    rw [upsertMembership_users]
    exact named.upsertUser_users _ _ _ user huser
  · rw [upsertMembership_role]
    simp only [membershipRole, upsertUser_memberships]
    rfl

/-- The directory is well kept, and an acceptance in front of its membership has stored its user. -/
structure MembersDesk.Known (desk : MembersDesk) : Prop where
  directory : desk.directory.Known
  enrolling : ∀ invitation user, .enrolling invitation user ∈ desk.requests →
    (AList.lookup user.id desk.directory.users).isSome

/-- An acceptance comes in front of its membership only from `upsert_user`. -/
theorem MembersRequest.advance_enrolling {request : MembersRequest} {env : Env} {tokenHash : String}
    {d : Directory} {invitation : Invitation} {user : User}
    (h : (request.advance env tokenHash d).1 = .enrolling invitation user) :
    ∃ displayName, request = .joining invitation displayName ∧
      user = (d.upsertUser env.uuid invitation.email displayName).1 := by
  cases request with
  | joining invitation' displayName =>
    obtain ⟨rfl, rfl⟩ := MembersRequest.enrolling.inj h
    exact ⟨displayName, rfl, rfl⟩
  | start command =>
    exfalso
    simp only [advance] at h
    rcases command.begin_cases env d with
        ⟨_, hbegin⟩ | ⟨_, _, _, _, _, hbegin⟩ | ⟨_, _, hbegin⟩ | ⟨_, hbegin⟩ <;>
      rw [hbegin] at h <;> cases h
  | targeting change =>
    simp only [advance] at h
    split at h
    · cases h
    · split at h
      · cases h
      · cases h
      · cases h
  | counting change targetRole =>
    simp only [advance] at h
    split at h <;> cases h
  | writing change targetRole =>
    simp only [advance] at h
    rcases change.perform_cases env targetRole d with ⟨_, hnext⟩ | hnext | ⟨_, _, hnext⟩ <;>
      rw [hnext] at h <;> cases h
  | inviting auth companyId email role issuer =>
    simp only [advance] at h
    split at h <;> cases h
  | marking invitation' member =>
    simp only [advance] at h
    split at h <;> cases h
  | enrolling invitation' member => cases h
  | revoking change targetRole => cases h
  | auditing entry answer => cases h
  | naming invitation' member => cases h
  | finished result => cases h

theorem MembersDesk.Known.step {desk : MembersDesk} (h : desk.Known) (event : MembersEvent) :
    (desk.step event).Known := by
  cases event with
  | createCompany env ownerId name ownerEmail ownerName =>
    simp only [MembersDesk.step]
    split
    · rename_i directory hcreated
      obtain ⟨hknown, husers, -⟩ := Directory.createCompany_ok hcreated
      exact ⟨hknown h.directory, fun invitation user hmem => husers _ (h.enrolling invitation user hmem)⟩
    · exact h
  | registerDevice id device => exact ⟨⟨h.directory.keyed, h.directory.members⟩, h.enrolling⟩
  | arrive command =>
    refine ⟨h.directory, fun invitation user hmem => ?_⟩
    rcases List.mem_append.1 hmem with hmem | hmem
    · exact h.enrolling invitation user hmem
    · cases List.mem_singleton.1 hmem
  | advance position env tokenHash =>
    simp only [MembersDesk.step]
    split
    · rename_i request hrequest
      have hmem := List.mem_of_getElem? hrequest
      have hmoved : ∀ invitation user, request = .enrolling invitation user →
          (AList.lookup user.id desk.directory.users).isSome :=
        fun invitation user heq => h.enrolling invitation user (heq ▸ hmem)
      refine ⟨h.directory.advance request env tokenHash hmoved, fun invitation user henrolling => ?_⟩
      rcases List.mem_or_eq_of_mem_set henrolling with henrolling | henrolling
      · have hold := h.enrolling invitation user henrolling
        rcases request.advance_users env tokenHash desk.directory with husers | ⟨_, _, rfl⟩
        · show (AList.lookup user.id (request.advance env tokenHash desk.directory).2.users).isSome
          rwa [husers]
        · exact Directory.upsertUser_users _ _ _ _ _ hold
      · obtain ⟨displayName, rfl, rfl⟩ := MembersRequest.advance_enrolling henrolling.symm
        exact (h.directory.upsertUser _ _ _).2
    · exact h

theorem membersRun_concat (events : List MembersEvent) (event : MembersEvent) :
    membersRun (events ++ [event]) = (membersRun events).step event := by
  rw [membersRun, List.foldl_append]
  rfl

theorem membersRun_known (events : List MembersEvent) : (membersRun events).Known := by
  induction events using List.reverseRecOn with
  | nil =>
    refine ⟨⟨fun id user h => ?_, fun user company role h => ?_⟩, fun invitation user h => ?_⟩
    · cases h
    · cases h
    · cases h
  | append_singleton events event ih =>
    rw [membersRun_concat]
    exact ih.step event

/-- The request that an event moves. -/
def MembersDesk.moved (desk : MembersDesk) : MembersEvent → Option MembersRequest
  | .advance position _ _ => desk.requests[position]?
  | _ => none

/-- The guard of the request that the event moves. -/
def MembersDesk.GuardHolds (desk : MembersDesk) (company : Uuid) (event : MembersEvent) : Prop :=
  ∀ request ∈ desk.moved event, request.GuardHolds desk.directory company

instance (desk : MembersDesk) (company : Uuid) (event : MembersEvent) :
    Decidable (desk.GuardHolds company event) :=
  inferInstanceAs (Decidable (∀ request ∈ desk.moved event, _))

/-- A step leaves the company an Owner exactly if the guard holds in front of it. -/
theorem MembersDesk.step_hasOwner {desk : MembersDesk} {company : Uuid} (hknown : desk.Known)
    (howner : ∃ user, desk.directory.IsOwner company user) (event : MembersEvent) :
    (∃ user, (desk.step event).directory.IsOwner company user) ↔ desk.GuardHolds company event := by
  cases event with
  | advance position env tokenHash =>
    simp only [MembersDesk.step, MembersDesk.GuardHolds, MembersDesk.moved]
    cases desk.requests[position]? with
    | none => exact iff_of_true howner fun request h => nomatch h
    | some request =>
      simp only [Option.mem_some_iff, forall_eq']
      exact request.advance_hasOwner env tokenHash hknown.directory howner
  | createCompany env ownerId name ownerEmail ownerName =>
    refine iff_of_true ?_ fun request h => nomatch h
    simp only [MembersDesk.step]
    split
    · rename_i directory hcreated
      obtain ⟨-, -, owner, hrole⟩ := Directory.createCompany_ok hcreated
      obtain ⟨user, huser⟩ := howner
      refine ⟨user, ?_⟩
      show directory.membershipRole user company = _
      rw [hrole, huser, Option.getD_some, ite_self]
    · exact howner
  | registerDevice id device => exact iff_of_true howner fun request h => nomatch h
  | arrive command => exact iff_of_true howner fun request h => nomatch h

/-- From its creation under a fresh id on, a company has an Owner in every state reached exactly if every
write that removes or demotes a present Owner meets the last-owner guard once more: somebody else is
counted as an Owner in the state the write is made in, not only in the one the request counted in. -/
theorem owner_kept (before after : List MembersEvent) (env : Env) (ownerId : Uuid)
    (name ownerEmail ownerName : String) (hname : trim name ≠ "") (hemail : trim ownerEmail ≠ "")
    (hfresh : ∀ user, (membersRun before).directory.membershipRole user env.uuid = none) :
    let founded := before ++ [.createCompany env ownerId name ownerEmail ownerName]
    (∀ run, run <+: after → ∃ user, (membersRun (founded ++ run)).directory.IsOwner env.uuid user) ↔
      Runs.Each (fun run event => (membersRun (founded ++ run)).GuardHolds env.uuid event) after := by
  intro founded
  refine Runs.always_iff_each ?_ fun run event _ howner => ?_
  · obtain ⟨directory, hcreated⟩ : ∃ directory, (membersRun before).directory.createCompany env ownerId
        name ownerEmail ownerName = .ok directory := by
      rw [Directory.createCompany, if_neg (not_or.2 ⟨hname, hemail⟩)]
      exact ⟨_, rfl⟩
    obtain ⟨-, -, owner, hrole⟩ := Directory.createCompany_ok hcreated
    refine ⟨owner, ?_⟩
    rw [List.append_nil, membersRun_concat]
    simp only [MembersDesk.step, hcreated]
    rw [Directory.IsOwner, hrole, if_pos rfl, hfresh, Option.getD_none]
  · rw [← List.append_assoc, membersRun_concat]
    exact (membersRun (founded ++ run)).step_hasOwner (membersRun_known _) howner event

/-- One call of the request at a position; `id` is generated. -/
def membersCall (position : Nat) (id : Uuid) (tokenHash : String) : MembersEvent :=
  .advance position ⟨0, "2026-03-01", id⟩ tokenHash

/-- User 7 founds company 1. -/
def olgaFounds : MembersEvent := .createCompany ⟨0, "2026-03-01", 1⟩ 7 "Acme" "o@acme" "Olga"

/-- She invites user 8 in a role, who joins. -/
def bobJoins (role : Role) : List MembersEvent :=
  [.arrive (.createInvitation ⟨7, 1, none⟩ 1 "b@acme" role), membersCall 0 2 "bob", membersCall 0 2 "bob",
    .arrive (.acceptInvitation "bob" "Bob"), membersCall 1 3 "", membersCall 1 8 "", membersCall 1 4 ""]

/-- One of two Owners leaves; the other then asks to leave as well. -/
def ownersLeaveInTurn : List MembersEvent :=
  bobJoins .owner ++ [.arrive (.removeMember ⟨7, 1, none⟩ 1 7), membersCall 2 0 "", membersCall 2 0 "",
    membersCall 2 0 "", membersCall 2 0 "", .arrive (.removeMember ⟨8, 1, none⟩ 1 8), membersCall 3 0 "",
    membersCall 3 0 "", membersCall 3 0 ""]

theorem owner_kept_in_turn :
    Runs.Each (fun run event => (membersRun ([olgaFounds] ++ run)).GuardHolds 1 event) ownersLeaveInTurn ∧
    ∀ run, run <+: ownersLeaveInTurn →
      ∃ user, (membersRun ([olgaFounds] ++ run)).directory.IsOwner 1 user := by
  have hguard : Runs.Each (fun run event => (membersRun ([olgaFounds] ++ run)).GuardHolds 1 event)
      ownersLeaveInTurn := by
    decide +kernel
  exact ⟨hguard, (owner_kept [] ownersLeaveInTurn ⟨0, "2026-03-01", 1⟩ 7 "Acme" "o@acme" "Olga"
    (by decide) (by decide) fun _ => rfl).2 hguard⟩

/-- Two Owners leave at once: both are counted by both before either is removed. -/
def ownersLeaveAtOnce : List MembersEvent :=
  bobJoins .owner ++ [.arrive (.removeMember ⟨7, 1, none⟩ 1 7), .arrive (.removeMember ⟨8, 1, none⟩ 1 8),
    membersCall 2 0 "", membersCall 2 0 "", membersCall 2 0 "", membersCall 3 0 "", membersCall 3 0 "",
    membersCall 3 0 "", membersCall 2 0 "", membersCall 3 0 ""]

theorem owners_leave_at_once : (membersRun [olgaFounds]).directory.ownerCount 1 = 1 ∧
    ¬ ∃ user, (membersRun ([olgaFounds] ++ ownersLeaveAtOnce)).directory.IsOwner 1 user := by
  refine ⟨by decide +kernel, ?_⟩
  have hnone : (membersRun ([olgaFounds] ++ ownersLeaveAtOnce)).directory.memberships.entries = [] := by
    decide +kernel
  rintro ⟨user, howner⟩
  have hmem : (⟨(user, 1), .owner⟩ : Σ _ : Uuid × Uuid, Role) ∈
      (membersRun ([olgaFounds] ++ ownersLeaveAtOnce)).directory.memberships.entries :=
    List.of_mem_dlookup howner
  rw [hnone] at hmem
  cases hmem

/-! ### Who becomes an Owner -/

/-- The role the caller of a request was read in, or is in its first call. -/
def MembersRequest.callerRole (d : Directory) : MembersRequest → Option Role
  | .start (.createInvitation auth companyId _ _) | .start (.removeMember auth companyId _)
  | .start (.changeMemberRole auth companyId _ _) =>
    (requireMembership d.memberships auth companyId).toOption
  | .inviting _ _ _ _ issuer => some issuer
  | .targeting change | .counting change _ | .writing change _ | .revoking change _ => some change.role
  | _ => none

/-- The invitation and the user a request is about to make a member. -/
def MembersRequest.pendingMember : MembersRequest → Option (Invitation × User)
  | .enrolling invitation user => some (invitation, user)
  | _ => none

/-- The request makes an Owner of somebody who is no member, on an invitation whose issuer, an Owner or
not (`byOwner`), named that role. -/
def MembersRequest.MakesOwner (request : MembersRequest) (byOwner : Bool) (d : Directory) : Prop :=
  ∃ joining ∈ request.pendingMember, joining.1.role = .owner ∧
    decide (joining.1.issuer = .owner) = byOwner ∧
    d.membershipRole joining.2.id joining.1.companyId = none

instance (request : MembersRequest) (byOwner : Bool) (d : Directory) :
    Decidable (request.MakesOwner byOwner d) :=
  inferInstanceAs (Decidable (∃ joining ∈ request.pendingMember, _))

/-- The event is a request's, its caller was not read as an Owner, and it redeems no Owner's invitation
to be one. -/
def MembersDesk.WithoutOwners (desk : MembersDesk) (event : MembersEvent) : Prop :=
  event.isRequest ∧ ∀ request ∈ desk.moved event,
    request.callerRole desk.directory ≠ some .owner ∧ ¬ request.MakesOwner true desk.directory

instance (desk : MembersDesk) (event : MembersEvent) : Decidable (desk.WithoutOwners event) :=
  inferInstanceAs (Decidable (_ ∧ ∀ request ∈ desk.moved event, _))

/-- The event makes nobody an Owner on the invitation of a member who was read in another role. -/
def MembersDesk.SparesOwnership (desk : MembersDesk) (event : MembersEvent) : Prop :=
  ∀ request ∈ desk.moved event, ¬ request.MakesOwner false desk.directory

instance (desk : MembersDesk) (event : MembersEvent) : Decidable (desk.SparesOwnership event) :=
  inferInstanceAs (Decidable (∀ request ∈ desk.moved event, _))

/-- A call that no Owner is behind makes nobody an Owner exactly if no other member's invitation does. -/
theorem MembersRequest.advance_gains (request : MembersRequest) (env : Env) (tokenHash : String)
    {d : Directory} (hcaller : request.callerRole d ≠ some .owner)
    (hinvitation : ¬ request.MakesOwner true d) :
    (∀ company user, (request.advance env tokenHash d).2.IsOwner company user → d.IsOwner company user) ↔
      ¬ request.MakesOwner false d := by
  have hnone (h : request.pendingMember = none) : ¬ request.MakesOwner false d := by
    rintro ⟨joining, hjoining, -⟩
    rw [h] at hjoining
    cases hjoining
  simp only [Directory.IsOwner, request.advance_role]
  cases request with
  | enrolling invitation member =>
    simp only [newRole, MakesOwner, pendingMember, Option.mem_some_iff, exists_eq_left', not_and,
      decide_eq_true_eq, decide_eq_false_iff_not] at hinvitation ⊢
    constructor
    · rintro hgains hrole - hmember
      have h := hgains invitation.companyId member.id
      rw [if_pos rfl, hmember, Option.getD_none, hrole] at h
      cases h rfl
    · intro hspares company user howner
      split_ifs at howner with heq
      · obtain ⟨rfl, rfl⟩ := Prod.mk.inj heq
        cases hold : d.membershipRole member.id invitation.companyId with
        | some old => rwa [hold, Option.getD_some] at howner
        | none =>
          rw [hold, Option.getD_none] at howner
          have hrole := Option.some.inj howner
          by_cases hissuer : invitation.issuer = .owner
          · exact absurd hold (hinvitation hrole hissuer)
          · exact absurd hold (hspares hrole hissuer)
      · exact howner
  | writing change targetRole =>
    refine iff_of_true (fun company user howner => ?_) (hnone rfl)
    simp only [newRole] at howner
    split_ifs at howner with heq
    · -- only an Owner's change sets a role
      exfalso
      by_cases hremove : change.write = .remove
      · rw [hremove] at howner
        cases howner
      · exact hcaller (congrArg some (change.entitled hremove))
    · exact howner
  | _ => exact iff_of_true (fun _ _ h => h) (hnone rfl)

theorem MembersDesk.step_gains {desk : MembersDesk} {event : MembersEvent} (h : desk.WithoutOwners event) :
    (∀ company user, (desk.step event).directory.IsOwner company user →
      desk.directory.IsOwner company user) ↔ desk.SparesOwnership event := by
  obtain ⟨hrequest, hmoved⟩ := h
  cases event with
  | createCompany env ownerId name ownerEmail ownerName => cases hrequest
  | registerDevice id device => exact iff_of_true (fun _ _ h => h) fun request h => nomatch h
  | arrive command => exact iff_of_true (fun _ _ h => h) fun request h => nomatch h
  | advance position env tokenHash =>
    simp only [MembersDesk.moved, MembersDesk.step, MembersDesk.SparesOwnership] at hmoved ⊢
    cases hposition : desk.requests[position]? with
    | none => exact iff_of_true (fun _ _ h => h) fun request h => nomatch h
    | some request =>
      rw [hposition] at hmoved
      obtain ⟨hcaller, hinvitation⟩ := hmoved request rfl
      simp only [Option.mem_some_iff, forall_eq']
      exact request.advance_gains env tokenHash hcaller hinvitation

/-- From any reachable state on, as long as no request moves for a caller read as an Owner and nobody
joins as an Owner on an Owner's invitation: the users holding an Owner membership never gain a member
exactly if nobody joins as an Owner on the invitation of another member, an Admin. -/
theorem owners_never_gained (before after : List MembersEvent)
    (howners : Runs.Each (fun run event => (membersRun (before ++ run)).WithoutOwners event) after) :
    (∀ later, later <+: after → ∀ earlier, earlier <+: later → ∀ company user,
      (membersRun (before ++ later)).directory.IsOwner company user →
        (membersRun (before ++ earlier)).directory.IsOwner company user) ↔
      Runs.Each (fun run event => (membersRun (before ++ run)).SparesOwnership event) after := by
  refine Runs.always_iff_each (fun earlier h => ?_) fun run event hrun hkept => ?_
  · rw [List.prefix_nil.1 h]
    exact fun _ _ h => h
  have hstep := MembersDesk.step_gains (howners run event hrun)
  rw [← membersRun_concat, List.append_assoc] at hstep
  rw [← hstep]
  constructor
  · intro h
    exact h run (List.prefix_append _ _)
  · intro h earlier hearlier company user howner
    rcases List.prefix_concat_iff.1 hearlier with rfl | hearlier
    · exact howner
    · exact hkept earlier hearlier company user (h company user howner)

/-- Bob invites user 9 in a role, who joins. -/
def eveJoins (role : Role) : List MembersEvent :=
  [.arrive (.createInvitation ⟨8, 1, none⟩ 1 "e@acme" role), membersCall 2 5 "eve", membersCall 2 5 "eve",
    .arrive (.acceptInvitation "eve" "Eve"), membersCall 3 6 "", membersCall 3 9 "", membersCall 3 6 ""]

theorem owners_never_gained_sales :
    let before := olgaFounds :: bobJoins .admin
    Runs.Each (fun run event => (membersRun (before ++ run)).SparesOwnership event) (eveJoins .sales) ∧
    ∀ later, later <+: eveJoins .sales → ∀ earlier, earlier <+: later → ∀ company user,
      (membersRun (before ++ later)).directory.IsOwner company user →
        (membersRun (before ++ earlier)).directory.IsOwner company user := by
  intro before
  have hspares : Runs.Each (fun run event => (membersRun (before ++ run)).SparesOwnership event)
      (eveJoins .sales) := by
    decide +kernel
  exact ⟨hspares, (owners_never_gained before (eveJoins .sales) (by decide +kernel)).2 hspares⟩

/-- An Admin makes an Owner. -/
theorem admin_makes_owner :
    let before := olgaFounds :: bobJoins .admin
    Runs.Each (fun run event => (membersRun (before ++ run)).WithoutOwners event) (eveJoins .owner) ∧
      ¬ (membersRun before).directory.IsOwner 1 9 ∧
      (membersRun (before ++ eveJoins .owner)).directory.IsOwner 1 9 := by
  decide +kernel

end AtlasTeam
