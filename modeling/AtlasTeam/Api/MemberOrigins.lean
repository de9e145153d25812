import AtlasTeam.Api.Credentials

/-!
# Where a role comes from

A membership is written by `create_company`, by the acceptance of an invitation and by a change of role,
and the last two act on what earlier calls have read. `Entitled` is a role that goes back, over requests of
members who were entitled to make them when they were read, to the foundation of the company.
`role_goes_back` says that there are no others: every request under way and every invitation on file
keeps the entitlement it was let in on (`Sourced`, `Invitation.Issued`), whatever happens to its member
in between.
-/

namespace AtlasTeam

/-! ### Users and their addresses -/

namespace Directory

/-- The user's row. -/
def Stored (d : Directory) (user : User) : Prop := AList.lookup user.id d.users = some user

/-- Every user is stored under its id and found by its address, and by no other. -/
structure Mailed (d : Directory) : Prop where
  users : ∀ id user, AList.lookup id d.users = some user →
    user.id = id ∧ AList.lookup user.email d.usersByEmail = some id
  emails : ∀ email id, AList.lookup email d.usersByEmail = some id →
    ∃ user, AList.lookup id d.users = some user ∧ user.email = email

theorem mailed_empty : ({} : Directory).Mailed :=
  ⟨fun _ _ h => (nomatch h), fun _ _ h => (nomatch h)⟩

variable {d d' : Directory}

/-- Two users with one address are one user. -/
theorem Mailed.unique (h : d.Mailed) {user user' : User} (hstored : d.Stored user)
    (hstored' : d.Stored user') (hemail : user.email = user'.email) : user = user' := by
  have hid := (h.users _ _ hstored).2
  rw [hemail, (h.users _ _ hstored').2] at hid
  have hsame : AList.lookup user'.id d.users = some user := by
    rw [Option.some.inj hid]
    exact hstored
  exact Option.some.inj (hsame.symm.trans hstored')

/-- The accounts of `d'` are those of `d` and no fewer. -/
structure Keeps (d d' : Directory) : Prop where
  mailed : d'.Mailed
  stored : ∀ user, d.Stored user → d'.Stored user

theorem Mailed.keeps (h : d.Mailed) (hsame : d'.users = d.users ∧ d'.usersByEmail = d.usersByEmail) :
    d.Keeps d' := by
  obtain ⟨husers, hemails⟩ := hsame
  refine ⟨⟨?_, ?_⟩, fun user hstored => ?_⟩
  · rw [husers, hemails]
    exact h.users
  · rw [husers, hemails]
    exact h.emails
  · rwa [Stored, husers]

/-- The user of an address, there before or new under an id that no user has. -/
theorem Mailed.upsertUser (h : d.Mailed) {id : Uuid} (hfresh : AList.lookup id d.users = none)
    (email displayName : String) :
    d.Keeps (d.upsertUser id email displayName).2 ∧
      (d.upsertUser id email displayName).2.Stored (d.upsertUser id email displayName).1 ∧
      (d.upsertUser id email displayName).1.email = email := by
  unfold Directory.upsertUser
  split
  · rename_i user huser
    obtain ⟨known, hknown, hlookup⟩ := Option.bind_eq_some_iff.1 huser
    obtain ⟨found, hfound, hemail⟩ := h.emails email known hknown
    obtain rfl := Option.some.inj (hlookup.symm.trans hfound)
    refine ⟨h.keeps ⟨rfl, rfl⟩, ?_, hemail⟩
    rw [Stored, (h.users known user hlookup).1]
    exact hlookup
  · rename_i hnone
    have hnew : AList.lookup email d.usersByEmail = none := by
      cases hlookup : AList.lookup email d.usersByEmail with
      | none => rfl
      | some known =>
        obtain ⟨found, hfound, -⟩ := h.emails email known hlookup
        rw [hlookup, Option.bind_some, hfound] at hnone
        cases hnone
    refine ⟨⟨⟨?_, ?_⟩, ?_⟩, AList.lookup_insert _, rfl⟩
    · intro id' user huser
      by_cases heq : id' = id
      · subst heq
        rw [AList.lookup_insert] at huser
        obtain rfl := Option.some.inj huser
        exact ⟨rfl, AList.lookup_insert _⟩
      · rw [AList.lookup_insert_ne heq] at huser
        obtain ⟨hid, hemail⟩ := h.users id' user huser
        refine ⟨hid, ?_⟩
        rwa [AList.lookup_insert_ne]
        rintro hsame
        rw [hsame, hnew] at hemail
        cases hemail
    · intro email' id' hemail
      by_cases heq : email' = email
      · subst heq
        rw [AList.lookup_insert] at hemail
        obtain rfl := Option.some.inj hemail
        exact ⟨_, AList.lookup_insert _, rfl⟩
      · rw [AList.lookup_insert_ne heq] at hemail
        obtain ⟨user, huser, hof⟩ := h.emails email' id' hemail
        refine ⟨user, ?_, hof⟩
        rwa [AList.lookup_insert_ne]
        rintro rfl
        rw [hfresh] at huser
        cases huser
    · intro user hstored
      show AList.lookup user.id (AList.insert id _ d.users) = some user
      rwa [AList.lookup_insert_ne]
      rintro rfl
      rw [Stored, hfresh] at hstored
      cases hstored

end Directory

/-- The id generated for a user is that of no user. -/
def MembersDesk.FreshUser (desk : MembersDesk) : MembersEvent → Prop
  | .createCompany _ ownerId _ _ _ => AList.lookup ownerId desk.directory.users = none
  | .advance _ env _ => AList.lookup env.uuid desk.directory.users = none
  | _ => True

instance (desk : MembersDesk) : DecidablePred desk.FreshUser
  | .createCompany _ ownerId _ _ _ => inferInstanceAs (Decidable (AList.lookup ownerId _ = none))
  | .advance _ env _ => inferInstanceAs (Decidable (AList.lookup env.uuid _ = none))
  | .registerDevice _ _ | .arrive _ => .isTrue trivial

/-! ### Roles that go back to the foundation -/

/-- The invitation was on file. -/
def Invitation.OnFile (events : List MembersEvent) (invitation : Invitation) : Prop :=
  ∃ run id, run <+: events ∧ AList.lookup id (membersRun run).directory.invitations = some invitation

/-- The invitation was asked for by its issuer, read in a role that may invite. -/
structure Invitation.Asked (events : List MembersEvent) (invitation : Invitation) : Prop where
  may : invitation.issuer = .owner ∨ invitation.issuer = .admin
  request : ∃ auth address, auth.userId = invitation.createdBy ∧ invitation.email = trim address ∧
    .arrive (.createInvitation auth invitation.companyId address invitation.role) ∈ events

/-- A role in the company at the end of a run: the founder's, or one that a member gave who was entitled to
do so when it was read. -/
inductive Entitled (company : Uuid) : List MembersEvent → Uuid → Role → Prop where
  /-- Whoever creates the company is an Owner. -/
  | founder {events : List MembersEvent} {env : Env} {ownerId : Uuid} {name ownerEmail ownerName : String}
      {user : User} (hcreated : .createCompany env ownerId name ownerEmail ownerName ∈ events)
      (hcompany : env.uuid = company) (huser : (membersRun events).directory.Stored user)
      (hemail : user.email = trim ownerEmail) : Entitled company events user.id .owner
  /-- An Owner or Admin invites an address, and the user of the address redeems the invitation. -/
  | invited {events early : List MembersEvent} {invitation : Invitation} {displayName : String} {user : User}
      (hearly : early <+: events)
      (hread : (membersRun early).directory.membershipRole invitation.createdBy company =
        some invitation.issuer)
      (hissuer : Entitled company early invitation.createdBy invitation.issuer)
      (hcompany : invitation.companyId = company) (hasked : invitation.Asked events)
      (hfile : invitation.OnFile events)
      (haccepted : .arrive (.acceptInvitation invitation.tokenHash displayName) ∈ events)
      (huser : (membersRun events).directory.Stored user) (hemail : user.email = invitation.email) :
      Entitled company events user.id invitation.role
  /-- An Owner changes the role of a member. -/
  | changed {events early : List MembersEvent} {auth : AuthContext} {user : Uuid} {old role : Role}
      {text : String} (hearly : early <+: events)
      (hread : (membersRun early).directory.membershipRole auth.userId company = some .owner)
      (hcaller : Entitled company early auth.userId .owner)
      (hasked : .arrive (.changeMemberRole auth company user text) ∈ events)
      (hrole : Role.parse text = some role) (htarget : Entitled company events user old) :
      Entitled company events user role

/-- The member was read in the role, and entitled to it. -/
def ReadAs (events : List MembersEvent) (user company : Uuid) (role : Role) : Prop :=
  ∃ early, early <+: events ∧ (membersRun early).directory.membershipRole user company = some role ∧
    Entitled company early user role

/-- An invitation that a request has found under its token. -/
structure Invitation.Redeemed (events : List MembersEvent) (invitation : Invitation) : Prop where
  issuer : ReadAs events invitation.createdBy invitation.companyId invitation.issuer
  asked : invitation.Asked events
  file : invitation.OnFile events
  accepted : ∃ displayName, .arrive (.acceptInvitation invitation.tokenHash displayName) ∈ events

/-- A change whose caller was let in. -/
structure MemberChange.Backed (events : List MembersEvent) (change : MemberChange) : Prop where
  caller : ReadAs events change.auth.userId change.companyId change.role
  asked : ∀ role, change.write = .setRole role → ∃ text, Role.parse text = some role ∧
    .arrive (.changeMemberRole change.auth change.companyId change.userId text) ∈ events

/-- What a request under way was let in on. -/
def MembersRequest.Sourced (events : List MembersEvent) : MembersRequest → Prop
  | .start command => .arrive command ∈ events
  | .inviting auth companyId email role issuer =>
    ReadAs events auth.userId companyId issuer ∧ (issuer = .owner ∨ issuer = .admin) ∧
      ∃ address, email = trim address ∧ .arrive (.createInvitation auth companyId address role) ∈ events
  | .joining invitation _ => invitation.Redeemed events
  | .enrolling invitation user =>
    invitation.Redeemed events ∧ (membersRun events).directory.Stored user ∧ user.email = invitation.email
  | .targeting change | .counting change _ | .writing change _ => change.Backed events
  | _ => True

section Growth
variable {events events' : List MembersEvent}

theorem ReadAs.mono {user company : Uuid} {role : Role} (h : ReadAs events user company role)
    (hgrows : events <+: events') : ReadAs events' user company role := by
  obtain ⟨early, hearly, hread, hentitled⟩ := h
  exact ⟨early, hearly.trans hgrows, hread, hentitled⟩

theorem Invitation.OnFile.mono {invitation : Invitation} (h : invitation.OnFile events)
    (hgrows : events <+: events') : invitation.OnFile events' := by
  obtain ⟨run, id, hrun, hlookup⟩ := h
  exact ⟨run, id, hrun.trans hgrows, hlookup⟩

theorem Invitation.Asked.mono {invitation : Invitation} (h : invitation.Asked events)
    (hgrows : events <+: events') : invitation.Asked events' := by
  obtain ⟨auth, address, hby, hemail, hasked⟩ := h.request
  exact ⟨h.may, auth, address, hby, hemail, hgrows.subset hasked⟩

theorem Invitation.Redeemed.mono {invitation : Invitation} (h : invitation.Redeemed events)
    (hgrows : events <+: events') : invitation.Redeemed events' := by
  obtain ⟨displayName, haccepted⟩ := h.accepted
  exact ⟨h.issuer.mono hgrows, h.asked.mono hgrows, h.file.mono hgrows, displayName, hgrows.subset haccepted⟩

theorem MemberChange.Backed.mono {change : MemberChange} (h : change.Backed events)
    (hgrows : events <+: events') : change.Backed events' := by
  refine ⟨h.caller.mono hgrows, fun role hwrite => ?_⟩
  obtain ⟨text, hparse, hasked⟩ := h.asked role hwrite
  exact ⟨text, hparse, hgrows.subset hasked⟩

/-- A role stays entitled while its user's row stays. -/
theorem Entitled.mono {company user : Uuid} {role : Role} (h : Entitled company events user role)
    (hgrows : events <+: events')
    (hstored : ∀ user, (membersRun events).directory.Stored user →
      (membersRun events').directory.Stored user) : Entitled company events' user role := by
  induction h with
  | founder hcreated hcompany huser hemail =>
    exact .founder (hgrows.subset hcreated) hcompany (hstored _ huser) hemail
  | invited hearly hread hissuer hcompany hasked hfile haccepted huser hemail =>
    exact .invited (hearly.trans hgrows) hread hissuer hcompany (hasked.mono hgrows) (hfile.mono hgrows)
      (hgrows.subset haccepted) (hstored _ huser) hemail
  | changed hearly hread hcaller hasked hrole htarget _ ih =>
    exact .changed (hearly.trans hgrows) hread hcaller (hgrows.subset hasked) hrole (ih hgrows hstored)

theorem MembersRequest.Sourced.mono {request : MembersRequest} (h : request.Sourced events)
    (hgrows : events <+: events')
    (hstored : ∀ user, (membersRun events).directory.Stored user →
      (membersRun events').directory.Stored user) : request.Sourced events' := by
  cases request with
  | start command => exact hgrows.subset h
  | inviting auth companyId email role issuer =>
    obtain ⟨hread, hmay, address, hemail, hasked⟩ := h
    exact ⟨hread.mono hgrows, hmay, address, hemail, hgrows.subset hasked⟩
  | joining invitation displayName => exact Invitation.Redeemed.mono h hgrows
  | enrolling invitation user =>
    obtain ⟨hredeemed, huser, hemail⟩ := h
    exact ⟨hredeemed.mono hgrows, hstored _ huser, hemail⟩
  | targeting change | counting change _ | writing change _ => exact MemberChange.Backed.mono h hgrows
  | _ => trivial

end Growth

/-! ### What a call does -/

/-- Only the first call of an acceptance writes accounts. -/
theorem MembersRequest.advance_accounts (request : MembersRequest) (env : Env) (tokenHash : String)
    (d : Directory) :
    ((request.advance env tokenHash d).2.users = d.users ∧
        (request.advance env tokenHash d).2.usersByEmail = d.usersByEmail) ∨
      ∃ invitation displayName, request = .joining invitation displayName := by
  cases request with
  | joining invitation displayName => exact .inr ⟨invitation, displayName, rfl⟩
  | enrolling invitation user =>
    refine .inl ?_
    simp only [advance, Directory.upsertMembership]
    split <;> exact ⟨rfl, rfl⟩
  | inviting auth companyId email role issuer =>
    refine .inl ?_
    simp only [advance, Directory.createInvitation]
    split_ifs <;> exact ⟨rfl, rfl⟩
  | marking invitation user =>
    refine .inl ?_
    simp only [advance, Directory.markInvitationAccepted]
    split
    · exact ⟨rfl, rfl⟩
    · rename_i hmarked
      split at hmarked
      · obtain rfl := Except.ok.inj hmarked
        exact ⟨rfl, rfl⟩
      · cases hmarked
  | targeting change =>
    refine .inl ?_
    simp only [advance]
    split
    · exact ⟨rfl, rfl⟩
    · split <;> exact ⟨rfl, rfl⟩
  | counting change targetRole =>
    refine .inl ?_
    simp only [advance]
    split_ifs <;> exact ⟨rfl, rfl⟩
  | writing change targetRole =>
    refine .inl ?_
    simp only [advance, MemberChange.perform, Directory.removeMembership, Directory.setMembershipRole]
    split
    · split <;> rename_i hrun <;> rw [← (Prod.mk.inj hrun).2] <;> exact ⟨rfl, rfl⟩
    · split <;> rename_i hrun <;> split at hrun <;> rw [← (Prod.mk.inj hrun).2] <;> exact ⟨rfl, rfl⟩
  | start command => exact .inl ⟨rfl, rfl⟩
  | revoking change targetRole => exact .inl ⟨rfl, rfl⟩
  | auditing entry answer => exact .inl ⟨rfl, rfl⟩
  | naming invitation user => exact .inl ⟨rfl, rfl⟩
  | finished result => exact .inl ⟨rfl, rfl⟩

/-- The terms of an invitation: all of it but who has accepted it. -/
def Invitation.SameTerms (invitation other : Invitation) : Prop :=
  invitation = { other with acceptedBy := invitation.acceptedBy }

/-- An invitation on file after a call was there before, or the call has put it there. -/
theorem MembersRequest.advance_invitations {request : MembersRequest} {env : Env} {tokenHash : String}
    {d : Directory} {id : Uuid} {invitation : Invitation}
    (h : AList.lookup id (request.advance env tokenHash d).2.invitations = some invitation) :
    (∃ id' old, AList.lookup id' d.invitations = some old ∧ invitation.SameTerms old) ∨
      ∃ auth, invitation.createdBy = auth.userId ∧
        request = .inviting auth invitation.companyId invitation.email invitation.role invitation.issuer := by
  have hsame (hkept : (request.advance env tokenHash d).2.invitations = d.invitations) :
      ∃ id' old, AList.lookup id' d.invitations = some old ∧ invitation.SameTerms old :=
    ⟨id, invitation, hkept ▸ h, rfl⟩
  cases request with
  | inviting auth companyId email role issuer =>
    simp only [advance, Directory.createInvitation] at h
    split_ifs at h
    · exact .inl ⟨id, invitation, h, rfl⟩
    · by_cases heq : id = env.uuid
      · subst heq
        rw [AList.lookup_insert] at h
        obtain rfl := Option.some.inj h
        exact .inr ⟨auth, rfl, rfl⟩
      · rw [AList.lookup_insert_ne heq] at h
        exact .inl ⟨id, invitation, h, rfl⟩
  | marking accepted user =>
    refine .inl ?_
    simp only [advance, Directory.markInvitationAccepted] at h
    split at h
    · exact ⟨id, invitation, h, rfl⟩
    · rename_i hmarked
      split at hmarked
      · rename_i old hold
        obtain rfl := Except.ok.inj hmarked
        by_cases heq : id = accepted.id
        · subst heq
          rw [Directory.appendAudit, AList.lookup_insert] at h
          obtain rfl := Option.some.inj h
          exact ⟨accepted.id, old, hold, rfl⟩
        · rw [Directory.appendAudit, AList.lookup_insert_ne heq] at h
          exact ⟨id, invitation, h, rfl⟩
      · cases hmarked
  | joining accepted displayName =>
    refine .inl (hsame ?_)
    simp only [advance, Directory.upsertUser]
    split <;> rfl
  | enrolling accepted user =>
    refine .inl (hsame ?_)
    simp only [advance, Directory.upsertMembership]
    split <;> rfl
  | targeting change =>
    refine .inl (hsame ?_)
    simp only [advance]
    split
    · rfl
    · split <;> rfl
  | counting change targetRole =>
    refine .inl (hsame ?_)
    simp only [advance]
    split_ifs <;> rfl
  | writing change targetRole =>
    refine .inl (hsame ?_)
    simp only [advance, MemberChange.perform, Directory.removeMembership, Directory.setMembershipRole]
    split
    · split <;> rename_i hrun <;> rw [← (Prod.mk.inj hrun).2]
    · split <;> rename_i hrun <;> split at hrun <;> rw [← (Prod.mk.inj hrun).2]
  | start command => exact .inl (hsame rfl)
  | revoking change targetRole => exact .inl (hsame rfl)
  | auditing entry answer => exact .inl (hsame rfl)
  | naming accepted user => exact .inl (hsame rfl)
  | finished result => exact .inl (hsame rfl)

/-- What a created company writes: its founder, of the address given, is an Owner unless a member already. -/
theorem Directory.Mailed.createCompany {d d' : Directory} (h : d.Mailed) {env : Env} {ownerId : Uuid}
    {name ownerEmail ownerName : String} (hfresh : AList.lookup ownerId d.users = none)
    (hcreated : d.createCompany env ownerId name ownerEmail ownerName = .ok d') :
    d.Keeps d' ∧ d'.invitations = d.invitations ∧
      ∃ founder, d'.Stored founder ∧ founder.email = trim ownerEmail ∧ ∀ user company,
        d'.membershipRole user company =
          if (user, company) = (founder.id, env.uuid) then
            some ((d.membershipRole user company).getD .owner)
          else d.membershipRole user company := by
  unfold Directory.createCompany at hcreated
  split_ifs at hcreated
  set named : Directory := { d with companies := AList.insert env.uuid (trim name) d.companies }
  have hnamed : named.Mailed := ⟨h.users, h.emails⟩
  have hnone : AList.lookup ownerId named.users = none := hfresh
  obtain ⟨hkeeps, hstored, hemail⟩ := hnamed.upsertUser hnone (trim ownerEmail) (trim ownerName)
  set founder := (named.upsertUser ownerId (trim ownerEmail) (trim ownerName)).1
  have hd' : (named.upsertUser ownerId (trim ownerEmail) (trim ownerName)).2.upsertMembership founder.id
      env.uuid .owner = d' := Except.ok.inj hcreated
  have hmember : (named.upsertUser ownerId (trim ownerEmail) (trim ownerName)).2.Keeps d' := by
    apply hkeeps.mailed.keeps
    rw [← hd', Directory.upsertMembership]
    split <;> exact ⟨rfl, rfl⟩
  refine ⟨⟨hmember.mailed, fun user huser => hmember.stored _ (hkeeps.stored user huser)⟩, ?_,
    founder, hmember.stored _ hstored, hemail, fun user company => ?_⟩
  · rw [← hd', Directory.upsertMembership, Directory.upsertUser]
    split <;> split <;> rfl
  · rw [← hd', Directory.upsertMembership_role]
    simp only [Directory.membershipRole, Directory.upsertUser_memberships]
    rfl

/-! ### The run -/

/-- At the end of the run every role is entitled, every invitation on file was asked for by a member who
could, and every request under way was let in on what it says. -/
structure Origins (events : List MembersEvent) : Prop where
  mailed : (membersRun events).directory.Mailed
  roles : ∀ user company role, (membersRun events).directory.membershipRole user company = some role →
    Entitled company events user role
  invitations : ∀ id invitation, AList.lookup id (membersRun events).directory.invitations = some invitation →
    ReadAs events invitation.createdBy invitation.companyId invitation.issuer ∧ invitation.Asked events
  requests : ∀ request ∈ (membersRun events).requests, request.Sourced events

namespace Origins
variable {events : List MembersEvent}

theorem fresh : Origins [] :=
  ⟨Directory.mailed_empty, fun _ _ _ h => (nomatch h), fun _ _ h => (nomatch h), fun _ h => (nomatch h)⟩

/-- A member read now is read in a role the member is entitled to. -/
theorem readAs (h : Origins events) {auth : AuthContext} {company : Uuid} {role : Role}
    (hread : requireMembership (membersRun events).directory.memberships auth company = .ok role) :
    ReadAs events auth.userId company role := by
  have hrole := (requireMembership_ok hread).1
  exact ⟨events, List.prefix_rfl, hrole, h.roles _ _ _ hrole⟩

/-- What a command begins with rests on what its first call reads. -/
theorem begin (h : Origins events) {command : MembersCommand} (harrived : .arrive command ∈ events)
    (env : Env) : (command.begin env (membersRun events).directory).Sourced events := by
  cases command with
  | createInvitation auth companyId email role =>
    simp only [MembersCommand.begin]
    split
    · trivial
    · rename_i issuer hmember
      split
      · trivial
      · rename_i hrole
        split_ifs
        · trivial
        · have hmay := requireRole_ok.1 hrole
          simp only [List.mem_cons, List.not_mem_nil, or_false] at hmay
          exact ⟨h.readAs hmember, hmay, email, rfl, harrived⟩
  | acceptInvitation tokenHash displayName =>
    simp only [MembersCommand.begin]
    split
    · trivial
    · rename_i invitation hfound
      split_ifs
      · trivial
      · trivial
      · obtain ⟨⟨id, row⟩, hrow, rfl⟩ := Option.map_eq_some_iff.1 hfound
        have hlookup : AList.lookup id (membersRun events).directory.invitations = some row :=
          List.mem_dlookup (membersRun events).directory.invitations.nodupKeys (List.mem_of_find?_eq_some hrow)
        have htoken : row.tokenHash = tokenHash := by simpa using List.find?_some hrow
        obtain ⟨hissuer, hasked⟩ := h.invitations id row hlookup
        exact ⟨hissuer, hasked, ⟨events, id, List.prefix_rfl, hlookup⟩, displayName, htoken ▸ harrived⟩
  | removeMember auth companyId userId =>
    simp only [MembersCommand.begin]
    split
    · trivial
    · rename_i role hmember
      split
      · trivial
      · exact ⟨h.readAs hmember, fun role hwrite => by cases hwrite⟩
  | changeMemberRole auth companyId userId text =>
    simp only [MembersCommand.begin]
    split
    · trivial
    · rename_i callerRole hmember
      split
      · trivial
      · split
        · trivial
        · rename_i newRole hparse
          refine ⟨h.readAs hmember, fun role hwrite => ⟨text, ?_, harrived⟩⟩
          rw [hparse, MembershipWrite.setRole.inj hwrite]

/-- One more event: what it writes is accounted for, and the rest stays. -/
theorem grow (h : Origins events) {event : MembersEvent}
    (hkeeps : (membersRun events).directory.Keeps (membersRun (events ++ [event])).directory)
    (hroles : ∀ user company role,
      (membersRun (events ++ [event])).directory.membershipRole user company = some role →
        (membersRun events).directory.membershipRole user company = some role ∨
          Entitled company (events ++ [event]) user role)
    (hinvitations : ∀ id invitation,
      AList.lookup id (membersRun (events ++ [event])).directory.invitations = some invitation →
        (∃ id' old, AList.lookup id' (membersRun events).directory.invitations = some old ∧
          invitation.SameTerms old) ∨
        ReadAs events invitation.createdBy invitation.companyId invitation.issuer ∧ invitation.Asked events)
    (hrequests : ∀ request ∈ (membersRun (events ++ [event])).requests,
      request ∈ (membersRun events).requests ∨ request.Sourced (events ++ [event])) :
    Origins (events ++ [event]) := by
  have hgrows : events <+: events ++ [event] := List.prefix_append _ _
  refine ⟨hkeeps.mailed, ?_, ?_, ?_⟩
  · intro user company role hrole
    rcases hroles user company role hrole with hold | hnew
    · exact (h.roles user company role hold).mono hgrows hkeeps.stored
    · exact hnew
  · intro id invitation hlookup
    rcases hinvitations id invitation hlookup with ⟨id', old, hold, hterms⟩ | ⟨hissuer, hasked⟩
    · obtain ⟨hissuer, hasked⟩ := h.invitations id' old hold
      rw [hterms]
      exact ⟨hissuer.mono hgrows, (hasked.mono hgrows).may, (hasked.mono hgrows).request⟩
    · exact ⟨hissuer.mono hgrows, hasked.mono hgrows⟩
  · intro request hrequest
    rcases hrequests request hrequest with hold | hnew
    · exact (h.requests request hold).mono hgrows hkeeps.stored
    · exact hnew

/-- An event that writes none of these tables. -/
theorem idle (h : Origins events) {event : MembersEvent}
    (husers : (membersRun (events ++ [event])).directory.users = (membersRun events).directory.users)
    (hemails : (membersRun (events ++ [event])).directory.usersByEmail =
      (membersRun events).directory.usersByEmail)
    (hmemberships : (membersRun (events ++ [event])).directory.memberships =
      (membersRun events).directory.memberships)
    (hinvitations : (membersRun (events ++ [event])).directory.invitations =
      (membersRun events).directory.invitations)
    (hrequests : ∀ request ∈ (membersRun (events ++ [event])).requests,
      request ∈ (membersRun events).requests ∨ request.Sourced (events ++ [event])) :
    Origins (events ++ [event]) := by
  refine h.grow (h.mailed.keeps ⟨husers, hemails⟩) ?_ ?_ hrequests
  · intro user company role hrole
    rw [Directory.membershipRole, hmemberships] at hrole
    exact .inl hrole
  · intro id invitation hlookup
    rw [hinvitations] at hlookup
    exact .inl ⟨id, invitation, hlookup, rfl⟩

/-- A call leaves a request with what it was let in on; an acceptance also has its user then. -/
theorem next (h : Origins events) {request : MembersRequest} (hsourced : request.Sourced events) (env : Env)
    (tokenHash : String) (hnot : ∀ invitation displayName, request ≠ .joining invitation displayName) :
    (request.advance env tokenHash (membersRun events).directory).1.Sourced events := by
  cases request with
  | start command => exact h.begin hsourced env
  | joining invitation displayName => exact absurd rfl (hnot invitation displayName)
  | targeting change =>
    simp only [MembersRequest.advance]
    split
    · trivial
    · split
      · trivial
      · exact hsourced
      · exact hsourced
  | counting change targetRole =>
    simp only [MembersRequest.advance]
    split_ifs
    · trivial
    · exact hsourced
  | writing change targetRole =>
    simp only [MembersRequest.advance]
    rcases change.perform_cases env targetRole (membersRun events).directory with
        ⟨_, hnext⟩ | hnext | ⟨_, _, hnext⟩ <;>
      rw [hnext] <;> trivial
  | inviting auth companyId email role issuer =>
    simp only [MembersRequest.advance]
    split <;> trivial
  | marking invitation user =>
    simp only [MembersRequest.advance]
    split <;> trivial
  | enrolling invitation user => trivial
  | revoking change targetRole => trivial
  | auditing entry answer => trivial
  | naming invitation user => trivial
  | finished result => trivial

/-- The role that the next call of a request leaves a user is an entitled one. -/
theorem newRole (h : Origins events) {request : MembersRequest} (hsourced : request.Sourced events)
    {user company : Uuid} {role : Role}
    (hrole : request.newRole user company ((membersRun events).directory.membershipRole user company) =
      some role) : Entitled company events user role := by
  cases request with
  | enrolling invitation member =>
    simp only [MembersRequest.newRole] at hrole
    split_ifs at hrole with heq
    · obtain ⟨rfl, rfl⟩ := Prod.mk.inj heq
      cases hold : (membersRun events).directory.membershipRole member.id invitation.companyId with
      | some old =>
        -- a member keeps the role
        rw [hold, Option.getD_some] at hrole
        exact h.roles _ _ _ (hold.trans hrole)
      | none =>
        rw [hold, Option.getD_none] at hrole
        obtain rfl := Option.some.inj hrole
        obtain ⟨hredeemed, hstored, hemail⟩ := hsourced
        obtain ⟨early, hearly, hread, hissuer⟩ := hredeemed.issuer
        obtain ⟨displayName, haccepted⟩ := hredeemed.accepted
        exact .invited hearly hread hissuer rfl hredeemed.asked hredeemed.file haccepted hstored hemail
    · exact h.roles _ _ _ hrole
  | writing change targetRole =>
    simp only [MembersRequest.newRole] at hrole
    split_ifs at hrole with heq
    · obtain ⟨rfl, rfl⟩ := Prod.mk.inj heq
      cases hwrite : change.write with
      | remove =>
        rw [hwrite] at hrole
        cases hrole
      | setRole given =>
        rw [hwrite] at hrole
        obtain ⟨old, hold, rfl⟩ := Option.map_eq_some_iff.1 hrole
        have hbacked : change.Backed events := hsourced
        obtain ⟨early, hearly, hread, hcaller⟩ := hbacked.caller
        obtain ⟨text, hparse, hasked⟩ := hbacked.asked given hwrite
        have hset : change.write ≠ .remove := by
          rw [hwrite]
          intro h
          cases h
        have howner : change.role = .owner := change.entitled hset
        rw [howner] at hread hcaller
        exact .changed hearly hread hcaller hasked hparse (h.roles _ _ _ hold)
    · exact h.roles _ _ _ hrole
  | _ => exact h.roles _ _ _ hrole

/-- The accounts after the next call of a request. -/
theorem keeps (h : Origins events) (request : MembersRequest) {env : Env} (tokenHash : String)
    (hfresh : AList.lookup env.uuid (membersRun events).directory.users = none) :
    (membersRun events).directory.Keeps
      (request.advance env tokenHash (membersRun events).directory).2 := by
  rcases request.advance_accounts env tokenHash (membersRun events).directory with hsame | ⟨_, _, rfl⟩
  · exact h.mailed.keeps hsame
  · exact (h.mailed.upsertUser hfresh _ _).1

theorem step (h : Origins events) {event : MembersEvent} (hfresh : (membersRun events).FreshUser event) :
    Origins (events ++ [event]) := by
  have hgrows : events <+: events ++ [event] := List.prefix_append _ _
  have hrun := membersRun_concat events event
  cases event with
  | createCompany env ownerId name ownerEmail ownerName =>
    simp only [MembersDesk.step] at hrun
    split at hrun
    · rename_i d' hcreated
      obtain ⟨hkeeps, hinvitations, founder, hstored, hemail, hrole⟩ := h.mailed.createCompany hfresh hcreated
      refine h.grow (hrun ▸ hkeeps) ?_ ?_ ?_
      · intro user company role hnew
        rw [hrun, hrole] at hnew
        split_ifs at hnew with heq
        · obtain ⟨rfl, rfl⟩ := Prod.mk.inj heq
          cases hold : (membersRun events).directory.membershipRole founder.id env.uuid with
          | some old =>
            rw [hold] at hnew
            exact .inl hnew
          | none =>
            rw [hold] at hnew
            obtain rfl := Option.some.inj hnew
            exact .inr (.founder (List.mem_append_right _ (List.mem_singleton_self _)) rfl
              (by rw [hrun]; exact hstored) hemail)
        · exact .inl hnew
      · intro id invitation hlookup
        rw [hrun, hinvitations] at hlookup
        exact .inl ⟨id, invitation, hlookup, rfl⟩
      · intro request hrequest
        rw [hrun] at hrequest
        exact .inl hrequest
    · apply h.idle <;> rw [hrun]
      exact fun request hrequest => .inl hrequest
  | registerDevice id device =>
    apply h.idle <;> rw [hrun] <;> try rfl
    exact fun request hrequest => .inl hrequest
  | arrive command =>
    apply h.idle <;> rw [hrun] <;> try rfl
    intro request hrequest
    rcases List.mem_append.1 hrequest with hold | hnew
    · exact .inl hold
    · rw [List.mem_singleton.1 hnew]
      exact .inr (List.mem_append_right _ (List.mem_singleton_self _))
  | advance position env tokenHash =>
    simp only [MembersDesk.step] at hrun
    split at hrun
    · rename_i request hposition
      have hsourced := h.requests request (List.mem_of_getElem? hposition)
      have hkeeps := h.keeps request tokenHash hfresh
      refine h.grow (by rw [hrun]; exact hkeeps) ?_ ?_ ?_
      · intro user company role hnew
        rw [hrun] at hnew
        rw [request.advance_role] at hnew
        refine .inr ((h.newRole hsourced hnew).mono hgrows ?_)
        rw [hrun]
        exact hkeeps.stored
      · intro id invitation hlookup
        rw [hrun] at hlookup
        rcases MembersRequest.advance_invitations hlookup with hold | ⟨auth, hby, rfl⟩
        · exact .inl hold
        · obtain ⟨hissuer, hmay, address, hemail, hasked⟩ := hsourced
          refine .inr ⟨?_, hmay, auth, address, hby.symm, hemail, hasked⟩
          rwa [hby]
      · intro later hlater
        rw [hrun] at hlater
        rcases List.mem_or_eq_of_mem_set hlater with hold | rfl
        · exact .inl hold
        refine .inr ?_
        by_cases hjoining : ∃ invitation displayName, request = .joining invitation displayName
        · -- the user is on file only now
          obtain ⟨invitation, displayName, rfl⟩ := hjoining
          have hredeemed : invitation.Redeemed events := hsourced
          obtain ⟨-, hstored, hemail⟩ := h.mailed.upsertUser hfresh invitation.email displayName
          refine ⟨hredeemed.mono hgrows, ?_, hemail⟩
          rw [hrun]
          exact hstored
        · have hnext := h.next hsourced env tokenHash fun invitation displayName heq =>
            hjoining ⟨invitation, displayName, heq⟩
          refine hnext.mono hgrows ?_
          rw [hrun]
          exact hkeeps.stored
    · apply h.idle <;> rw [hrun]
      exact fun request hrequest => .inl hrequest

end Origins

theorem membersRun_origins {events : List MembersEvent}
    (hfresh : Runs.Each (fun run event => (membersRun run).FreshUser event) events) : Origins events := by
  induction events using List.reverseRecOn with
  | nil => exact .fresh
  | append_singleton events event ih =>
    obtain ⟨hearly, hevent⟩ := Runs.each_concat.1 hfresh
    exact (ih hearly).step hevent

/-- In every run whose users get ids that no user has, every role that a user holds in a company goes back
to the company's foundation: its holder founded the company, or redeemed an invitation to the holder's own
address that a member asked for who was read as an Owner or Admin and entitled to that role, or was given
the role by one who was read as an Owner and entitled to it. -/
theorem role_goes_back (events : List MembersEvent)
    (hfresh : Runs.Each (fun run event => (membersRun run).FreshUser event) events) (user company : Uuid)
    (role : Role) (hrole : (membersRun events).directory.membershipRole user company = some role) :
    Entitled company events user role :=
  (membersRun_origins hfresh).roles user company role hrole

/-- Olga founds the company, Bob joins as an Admin and Eve joins on his invitation. -/
theorem role_goes_back_eve :
    (membersRun (olgaFounds :: bobJoins .admin ++ eveJoins .sales)).directory.membershipRole 9 1 =
        some .sales ∧
      Entitled 1 (olgaFounds :: bobJoins .admin ++ eveJoins .sales) 9 .sales := by
  have hrole : (membersRun (olgaFounds :: bobJoins .admin ++ eveJoins .sales)).directory.membershipRole 9 1 =
      some .sales := by
    decide +kernel
  exact ⟨hrole, role_goes_back _ (by decide +kernel) 9 1 .sales hrole⟩

/-- An entitled role is held under an address that the company was founded with or that was invited. -/
theorem Entitled.addressed {company user : Uuid} {events : List MembersEvent} {role : Role}
    (h : Entitled company events user role) :
    ∃ row, (membersRun events).directory.Stored row ∧ row.id = user ∧
      ((∃ env ownerId name ownerEmail ownerName, env.uuid = company ∧ row.email = trim ownerEmail ∧
          .createCompany env ownerId name ownerEmail ownerName ∈ events) ∨
        ∃ auth address invited, row.email = trim address ∧
          .arrive (.createInvitation auth company address invited) ∈ events) := by
  induction h with
  | founder hcreated hcompany huser hemail =>
    exact ⟨_, huser, rfl, .inl ⟨_, _, _, _, _, hcompany, hemail, hcreated⟩⟩
  | invited hearly hread hissuer hcompany hasked hfile haccepted huser hemail _ =>
    obtain ⟨auth, address, -, haddress, hinvited⟩ := hasked.request
    rw [hcompany] at hinvited
    exact ⟨_, huser, rfl, .inr ⟨auth, address, _, hemail.trans haddress, hinvited⟩⟩
  | changed hearly hread hcaller hasked hrole htarget _ ih => exact ih

/-- Whose address the company was not founded with and nobody invited is never a member of it. -/
theorem stranger_stays_out {events : List MembersEvent}
    (hfresh : Runs.Each (fun run event => (membersRun run).FreshUser event) events) {company : Uuid}
    {user : User} (hstored : (membersRun events).directory.Stored user)
    (hfounder : ∀ env ownerId name ownerEmail ownerName,
      .createCompany env ownerId name ownerEmail ownerName ∈ events → env.uuid = company →
        user.email ≠ trim ownerEmail)
    (hinvited : ∀ auth address role, .arrive (.createInvitation auth company address role) ∈ events →
      user.email ≠ trim address) :
    (membersRun events).directory.membershipRole user.id company = none := by
  cases hrole : (membersRun events).directory.membershipRole user.id company with
  | none => rfl
  | some role =>
    exfalso
    obtain ⟨row, hrow, hid, haddressed⟩ := (role_goes_back events hfresh user.id company role hrole).addressed
    rw [Directory.Stored, hid] at hrow
    obtain rfl := Option.some.inj (hrow.symm.trans hstored)
    rcases haddressed with ⟨env, ownerId, name, ownerEmail, ownerName, hcompany, hemail, hcreated⟩ |
      ⟨auth, address, role, hemail, hasked⟩
    · exact hfounder env ownerId name ownerEmail ownerName hcreated hcompany hemail
    · exact hinvited auth address role hasked hemail

end AtlasTeam
