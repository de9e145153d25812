import AtlasTeam.Api.Credentials

/-!
# The credential tables beside their history

`Accounted` says that the tables of a `CredentialStore` hold exactly what its history says was handed out, and
`Grows` compares two states: what was handed out stays so, and what was revoked stays revoked. Every store call
with new values keeps both (`Accounted.run`, `Accounted.grows`), and so does a membership request, which touches
the devices only to revoke them (`MembersRequest.advance_devicesKept`). From `Accounted` alone follows what a
token resolves to: an identity (`resolveToken_iff`), a portal link (`portalLink_iff`) or a pay link
(`payLink_iff`).
-/

namespace AtlasTeam

/-! ### Generated values are new -/

/-- The hash a link is stored with. -/
def Grant.linkHash : Grant → Option String
  | .portal link => some link.tokenHash
  | .pay link => some link.tokenHash
  | _ => none

/-- The hashes of the tokens handed out. -/
def CredentialHistory.hashes (h : CredentialHistory) : List String := h.issued.map Prod.fst

/-- The id a link or a device was created under. -/
def Grant.id : Grant → Option Uuid
  | .user _ => none
  | .device id _ _ => some id
  | .portal link => some link.id
  | .pay link => some link.id

/-- The ids of the devices and links created. -/
def CredentialHistory.ids (h : CredentialHistory) : List Uuid :=
  h.issued.filterMap fun grant => grant.2.id

/-- The values a call brings are new. -/
def StoreCall.Fresh (h : CredentialHistory) : StoreCall → Prop
  | .insertUserToken hash _ => hash ∉ h.hashes
  | .createDevice id _ info => info.tokenHash ∉ h.hashes ∧ id ∉ h.ids
  | .createPortalLink link => link.tokenHash ∉ h.hashes ∧ link.id ∉ h.ids
  | .createPayLink link => link.tokenHash ∉ h.hashes ∧ link.id ∉ h.ids
  | .deleteUserToken hash => hash ∈ h.hashes
  | _ => True

/-! ### The tables hold what was handed out -/

/-- What of a device never changes. -/
def Device.holder (device : Device) : Uuid × Uuid := (device.userId, device.companyId)

/-- What of a link never changes. -/
def PortalLinkRow.unrevoked (link : PortalLinkRow) : PortalLinkRow := { link with revokedAt := none }

def PayLinkRow.unrevoked (link : PayLinkRow) : PayLinkRow := { link with revokedAt := none }

namespace Grant

/-- The row of `user_tokens` a grant stands for. -/
def userToken : String × Grant → Option (String × UserToken)
  | (hash, .user token) => some (hash, token)
  | _ => none

def deviceToken : String × Grant → Option (String × Uuid)
  | (hash, .device id _ _) => some (hash, id)
  | _ => none

/-- The device of a grant with its user and company. -/
def device? : String × Grant → Option (Uuid × Uuid × Uuid)
  | (_, .device id userId companyId) => some (id, userId, companyId)
  | _ => none

def portalLink : String × Grant → Option (Uuid × PortalLinkRow)
  | (_, .portal link) => some (link.id, link.unrevoked)
  | _ => none

def payLink : String × Grant → Option (Uuid × PayLinkRow)
  | (_, .pay link) => some (link.id, link.unrevoked)
  | _ => none

end Grant

/-- The rows that the grants of a history stand for in one table. -/
def CredentialHistory.rows {α : Type} (h : CredentialHistory) (kind : String × Grant → Option α) : List α :=
  h.issued.filterMap kind

open Registry (Registers Persists)

/-- The tables are those of the history. -/
structure Accounted (s : CredentialStore) (h : CredentialHistory) : Prop where
  hashes : h.hashes.Nodup
  userTokens : Registers (fun token => token) s.userTokens (h.rows Grant.userToken) h.retired
  deviceTokens : Registers (fun id => id) s.deviceTokens (h.rows Grant.deviceToken) []
  devices : Registers Device.holder s.devices (h.rows Grant.device?) []
  portalLinks : Registers PortalLinkRow.unrevoked s.portalLinks (h.rows Grant.portalLink) []
  payLinks : Registers PayLinkRow.unrevoked s.payLinks (h.rows Grant.payLink) []
  retired : ∀ hash ∈ h.retired, hash ∈ h.hashes
  linkHash : ∀ hash grant, (hash, grant) ∈ h.issued → ∀ stored ∈ grant.linkHash, stored = hash

/-- What was handed out stays handed out, and what was revoked stays revoked. -/
structure Grows (s s' : CredentialStore) (h h' : CredentialHistory) : Prop where
  issued : h.issued <+: h'.issued
  retired : h.retired <+: h'.retired
  devices : Persists Device.holder Device.revokedAt s.devices s'.devices
  portalLinks : Persists PortalLinkRow.unrevoked (fun link => link.revokedAt) s.portalLinks s'.portalLinks
  payLinks : Persists PayLinkRow.unrevoked (fun link => link.revokedAt) s.payLinks s'.payLinks

theorem Grows.refl (s : CredentialStore) (h : CredentialHistory) : Grows s s h h :=
  ⟨List.prefix_rfl, List.prefix_rfl, .refl, .refl, .refl⟩

theorem Grows.trans {s s' s'' : CredentialStore} {h h' h'' : CredentialHistory} (hg : Grows s s' h h')
    (hg' : Grows s' s'' h' h'') : Grows s s'' h h'' :=
  ⟨hg.issued.trans hg'.issued, hg.retired.trans hg'.retired, hg.devices.trans hg'.devices,
    hg.portalLinks.trans hg'.portalLinks, hg.payLinks.trans hg'.payLinks⟩

/-! ### One call -/

section History
variable {h : CredentialHistory} {hash : String} {grant : Grant} {α β : Type}

theorem mem_hashes (hmem : (hash, grant) ∈ h.issued) : hash ∈ h.hashes := List.mem_map_of_mem hmem

theorem hashes_issue : (h.issue hash grant).hashes = h.hashes ++ [hash] := by
  simp [CredentialHistory.issue, CredentialHistory.hashes]

theorem rows_issue (kind : String × Grant → Option α) :
    (h.issue hash grant).rows kind = h.rows kind ++ (kind (hash, grant)).toList := by
  cases hkind : kind (hash, grant) <;> simp [CredentialHistory.issue, CredentialHistory.rows, hkind]

/-- A row under a new hash. -/
theorem notMem_rows_hash {kind : String × Grant → Option (String × β)}
    (hkind : ∀ grant row, kind grant = some row → row.1 = grant.1) (hnew : hash ∉ h.hashes) :
    hash ∉ (h.rows kind).map Prod.fst := by
  intro hmem
  obtain ⟨row, hrow, heq⟩ := List.mem_map.1 hmem
  obtain ⟨grant, hgrant, hsome⟩ := List.mem_filterMap.1 hrow
  rw [← heq, hkind grant row hsome] at hnew
  exact hnew (List.mem_map_of_mem hgrant)

/-- A row under a new id. -/
theorem notMem_rows_id {kind : String × Grant → Option (Uuid × β)}
    (hkind : ∀ grant row, kind grant = some row → grant.2.id = some row.1) {id : Uuid} (hnew : id ∉ h.ids) :
    id ∉ (h.rows kind).map Prod.fst := by
  intro hmem
  obtain ⟨row, hrow, heq⟩ := List.mem_map.1 hmem
  obtain ⟨grant, hgrant, hsome⟩ := List.mem_filterMap.1 hrow
  exact hnew (List.mem_filterMap.2 ⟨grant, hgrant, heq ▸ hkind grant row hsome⟩)

theorem userToken_hash (grant : String × Grant) (row : String × UserToken)
    (h : Grant.userToken grant = some row) : row.1 = grant.1 := by
  obtain ⟨hash, grant⟩ := grant
  cases grant <;> cases h
  rfl

theorem deviceToken_hash (grant : String × Grant) (row : String × Uuid)
    (h : Grant.deviceToken grant = some row) : row.1 = grant.1 := by
  obtain ⟨hash, grant⟩ := grant
  cases grant <;> cases h
  rfl

theorem device?_id (grant : String × Grant) (row : Uuid × Uuid × Uuid)
    (h : Grant.device? grant = some row) : grant.2.id = some row.1 := by
  obtain ⟨hash, grant⟩ := grant
  cases grant <;> cases h
  rfl

theorem portalLink_id (grant : String × Grant) (row : Uuid × PortalLinkRow)
    (h : Grant.portalLink grant = some row) : grant.2.id = some row.1 := by
  obtain ⟨hash, grant⟩ := grant
  cases grant <;> cases h
  rfl

theorem payLink_id (grant : String × Grant) (row : Uuid × PayLinkRow)
    (h : Grant.payLink grant = some row) : grant.2.id = some row.1 := by
  obtain ⟨hash, grant⟩ := grant
  cases grant <;> cases h
  rfl

end History

section Revoke
variable {V : Type} {companyOf : V → Uuid} {revoke : V → V} {company id : Uuid} {table : Table Uuid V}

theorem revokeRow_eq_some {row : V} {table' : Table Uuid V}
    (h : revokeRow companyOf revoke company id table = some (row, table')) :
    ∃ old, AList.lookup id table = some old ∧ companyOf old = company ∧ row = revoke old ∧
      table' = AList.insert id (revoke old) table := by
  unfold revokeRow at h
  cases hold : AList.lookup id table with
  | none =>
    rw [hold] at h
    cases h
  | some old =>
    rw [hold] at h
    simp only at h
    split_ifs at h with hcompany
    obtain ⟨rfl, rfl⟩ := Prod.mk.inj (Option.some.inj h)
    exact ⟨old, rfl, hcompany, rfl, rfl⟩

end Revoke

theorem revokedSince_keeps {now t : DateTime} {revokedAt : Option DateTime} (h : revokedAt = some t) :
    revokedSince now revokedAt = some t := by
  rw [h, revokedSince, Option.getD_some]

section Revoke
variable {s s' : CredentialStore} {now : DateTime} {company id : Uuid}

theorem revokeDevice_eq_some {device : Device} (h : s.revokeDevice now company id = some (device, s')) :
    ∃ old, AList.lookup id s.devices = some old ∧ old.companyId = company ∧
      device = { old with revokedAt := revokedSince now old.revokedAt } ∧
      s' = { s with devices := AList.insert id device s.devices } := by
  obtain ⟨⟨_, _⟩, hrow, heq⟩ := Option.map_eq_some_iff.1 h
  obtain ⟨old, hold, hcompany, rfl, rfl⟩ := revokeRow_eq_some hrow
  obtain ⟨rfl, rfl⟩ := Prod.mk.inj heq
  exact ⟨old, hold, hcompany, rfl, rfl⟩

theorem revokePortalLink_eq_some (h : s.revokePortalLink now company id = some s') :
    ∃ old, AList.lookup id s.portalLinks = some old ∧ old.companyId = company ∧
      s' = { s with portalLinks :=
        AList.insert id { old with revokedAt := revokedSince now old.revokedAt } s.portalLinks } := by
  obtain ⟨⟨_, _⟩, hrow, rfl⟩ := Option.map_eq_some_iff.1 h
  obtain ⟨old, hold, hcompany, rfl, rfl⟩ := revokeRow_eq_some hrow
  exact ⟨old, hold, hcompany, rfl⟩

theorem revokePayLink_eq_some (h : s.revokePayLink now company id = some s') :
    ∃ old, AList.lookup id s.payLinks = some old ∧ old.companyId = company ∧
      s' = { s with payLinks :=
        AList.insert id { old with revokedAt := revokedSince now old.revokedAt } s.payLinks } := by
  obtain ⟨⟨_, _⟩, hrow, rfl⟩ := Option.map_eq_some_iff.1 h
  obtain ⟨old, hold, hcompany, rfl, rfl⟩ := revokeRow_eq_some hrow
  exact ⟨old, hold, hcompany, rfl⟩

theorem touchDeviceSeen_eq (seenAt staleBefore : DateTime) :
    s.touchDeviceSeen id seenAt staleBefore =
      { s with deviceInfo := (s.touchDeviceSeen id seenAt staleBefore).deviceInfo } := by
  unfold CredentialStore.touchDeviceSeen
  split
  · split <;> rfl
  · rfl

end Revoke

/-- A hash is handed out once. -/
theorem Accounted.issue {s : CredentialStore} {h : CredentialHistory} (ha : Accounted s h) {hash : String}
    (grant : Grant) (hfresh : hash ∉ h.hashes) (hlink : ∀ stored ∈ grant.linkHash, stored = hash) :
    (h.issue hash grant).hashes.Nodup ∧ (∀ r ∈ h.retired, r ∈ (h.issue hash grant).hashes) ∧
      ∀ hash' grant', (hash', grant') ∈ (h.issue hash grant).issued →
        ∀ stored ∈ grant'.linkHash, stored = hash' := by
  refine ⟨?_, ?_, ?_⟩
  · rw [hashes_issue]
    refine List.nodup_append.2 ⟨ha.hashes, List.nodup_singleton _, ?_⟩
    rintro a hmem _ hlast rfl
    exact hfresh (List.mem_singleton.1 hlast ▸ hmem)
  · rw [hashes_issue]
    exact fun r hr => List.mem_append_left _ (ha.retired r hr)
  · intro hash' grant' hmem
    rcases List.mem_append.1 hmem with hmem | hmem
    · exact ha.linkHash hash' grant' hmem
    · obtain ⟨rfl, rfl⟩ := Prod.mk.inj (List.mem_singleton.1 hmem)
      exact hlink

section Call
variable {s : CredentialStore} {h : CredentialHistory}

/-- A row of a grant of another kind is no row here. -/
theorem rows_other {hash : String} {grant : Grant} {α : Type} {kind : String × Grant → Option α}
    (hkind : kind (hash, grant) = none) : (h.issue hash grant).rows kind = h.rows kind := by
  rw [rows_issue, hkind, Option.toList_none, List.append_nil]

/-- Every call with new values keeps the account. -/
theorem Accounted.run (ha : Accounted s h) (call : StoreCall) (hfresh : call.Fresh h) :
    Accounted (call.run s) (call.record h) := by
  cases call with
  | insertUserToken hash token =>
    obtain ⟨hhashes, hretired, hlink⟩ := ha.issue (.user token) hfresh nofun
    have htokens := ha.userTokens.issue token (notMem_rows_hash userToken_hash hfresh) fun hr =>
      hfresh (ha.retired hash hr)
    refine ⟨hhashes, ?_, ?_, ?_, ?_, ?_, hretired, hlink⟩
    · rwa [StoreCall.record, rows_issue]
    · rw [StoreCall.record, rows_other rfl]
      exact ha.deviceTokens
    · rw [StoreCall.record, rows_other rfl]
      exact ha.devices
    · rw [StoreCall.record, rows_other rfl]
      exact ha.portalLinks
    · rw [StoreCall.record, rows_other rfl]
      exact ha.payLinks
  | deleteUserToken hash =>
    refine ⟨ha.hashes, ha.userTokens.retire hash, ha.deviceTokens, ha.devices, ha.portalLinks, ha.payLinks,
      fun r hr => ?_, ha.linkHash⟩
    rcases List.mem_append.1 hr with hr | hr
    · exact ha.retired r hr
    · exact List.mem_singleton.1 hr ▸ hfresh
  | createDevice id device info =>
    obtain ⟨hhash, hid⟩ := hfresh
    obtain ⟨hhashes, hretired, hlink⟩ := ha.issue (.device id device.userId device.companyId) hhash nofun
    have htokens := ha.deviceTokens.issue id (notMem_rows_hash deviceToken_hash hhash) List.not_mem_nil
    have hdevices := ha.devices.issue device (notMem_rows_id device?_id hid) List.not_mem_nil
    refine ⟨hhashes, ?_, ?_, ?_, ?_, ?_, hretired, hlink⟩
    · rw [StoreCall.record, rows_other rfl]
      exact ha.userTokens
    · rwa [StoreCall.record, rows_issue]
    · rwa [StoreCall.record, rows_issue]
    · rw [StoreCall.record, rows_other rfl]
      exact ha.portalLinks
    · rw [StoreCall.record, rows_other rfl]
      exact ha.payLinks
  | createPortalLink link =>
    obtain ⟨hhash, hid⟩ := hfresh
    obtain ⟨hhashes, hretired, hlink⟩ := ha.issue (.portal link) hhash fun _ heq => (Option.some.inj heq).symm
    have hlinks := ha.portalLinks.issue link (notMem_rows_id portalLink_id hid) List.not_mem_nil
    refine ⟨hhashes, ?_, ?_, ?_, ?_, ?_, hretired, hlink⟩
    · rw [StoreCall.record, rows_other rfl]
      exact ha.userTokens
    · rw [StoreCall.record, rows_other rfl]
      exact ha.deviceTokens
    · rw [StoreCall.record, rows_other rfl]
      exact ha.devices
    · rwa [StoreCall.record, rows_issue]
    · rw [StoreCall.record, rows_other rfl]
      exact ha.payLinks
  | createPayLink link =>
    obtain ⟨hhash, hid⟩ := hfresh
    obtain ⟨hhashes, hretired, hlink⟩ := ha.issue (.pay link) hhash fun _ heq => (Option.some.inj heq).symm
    have hlinks := ha.payLinks.issue link (notMem_rows_id payLink_id hid) List.not_mem_nil
    refine ⟨hhashes, ?_, ?_, ?_, ?_, ?_, hretired, hlink⟩
    · rw [StoreCall.record, rows_other rfl]
      exact ha.userTokens
    · rw [StoreCall.record, rows_other rfl]
      exact ha.deviceTokens
    · rw [StoreCall.record, rows_other rfl]
      exact ha.devices
    · rw [StoreCall.record, rows_other rfl]
      exact ha.portalLinks
    · rwa [StoreCall.record, rows_issue]
  | revokeDevice now company id =>
    show Accounted (((s.revokeDevice now company id).map Prod.snd).getD s) h
    cases hrevoke : s.revokeDevice now company id with
    | none => exact ha
    | some revoked =>
      obtain ⟨old, hold, -, hdevice, heq⟩ := revokeDevice_eq_some hrevoke
      rw [Option.map_some, Option.getD_some, heq]
      exact ⟨ha.hashes, ha.userTokens, ha.deviceTokens, ha.devices.update hold (hdevice ▸ rfl), ha.portalLinks,
        ha.payLinks, ha.retired, ha.linkHash⟩
  | revokePortalLink now company id =>
    show Accounted ((s.revokePortalLink now company id).getD s) h
    cases hrevoke : s.revokePortalLink now company id with
    | none => exact ha
    | some revoked =>
      obtain ⟨old, hold, -, rfl⟩ := revokePortalLink_eq_some hrevoke
      exact ⟨ha.hashes, ha.userTokens, ha.deviceTokens, ha.devices, ha.portalLinks.update hold rfl, ha.payLinks,
        ha.retired, ha.linkHash⟩
  | revokePayLink now company id =>
    show Accounted ((s.revokePayLink now company id).getD s) h
    cases hrevoke : s.revokePayLink now company id with
    | none => exact ha
    | some revoked =>
      obtain ⟨old, hold, -, rfl⟩ := revokePayLink_eq_some hrevoke
      exact ⟨ha.hashes, ha.userTokens, ha.deviceTokens, ha.devices, ha.portalLinks, ha.payLinks.update hold rfl,
        ha.retired, ha.linkHash⟩
  | touchDeviceSeen id seenAt staleBefore =>
    show Accounted (s.touchDeviceSeen id seenAt staleBefore) h
    rw [touchDeviceSeen_eq]
    exact ⟨ha.hashes, ha.userTokens, ha.deviceTokens, ha.devices, ha.portalLinks, ha.payLinks, ha.retired,
      ha.linkHash⟩
  | appendAudit entry =>
    exact ⟨ha.hashes, ha.userTokens, ha.deviceTokens, ha.devices, ha.portalLinks, ha.payLinks, ha.retired,
      ha.linkHash⟩

/-- Every call with new values only adds, and keeps what is revoked. -/
theorem Accounted.grows (ha : Accounted s h) (call : StoreCall) (hfresh : call.Fresh h) :
    Grows s (call.run s) h (call.record h) := by
  have hall := Grows.refl s h
  cases call with
  | insertUserToken hash token =>
    exact ⟨List.prefix_append _ _, hall.retired, hall.devices, hall.portalLinks, hall.payLinks⟩
  | deleteUserToken hash =>
    exact ⟨hall.issued, List.prefix_append _ _, hall.devices, hall.portalLinks, hall.payLinks⟩
  | createDevice id device info =>
    have hnew := ha.devices.absent (notMem_rows_id device?_id hfresh.2)
    exact ⟨List.prefix_append _ _, hall.retired, .insert_new hnew _, hall.portalLinks, hall.payLinks⟩
  | createPortalLink link =>
    have hnew := ha.portalLinks.absent (notMem_rows_id portalLink_id hfresh.2)
    exact ⟨List.prefix_append _ _, hall.retired, hall.devices, .insert_new hnew _, hall.payLinks⟩
  | createPayLink link =>
    have hnew := ha.payLinks.absent (notMem_rows_id payLink_id hfresh.2)
    exact ⟨List.prefix_append _ _, hall.retired, hall.devices, hall.portalLinks, .insert_new hnew _⟩
  | revokeDevice now company id =>
    show Grows s (((s.revokeDevice now company id).map Prod.snd).getD s) h h
    cases hrevoke : s.revokeDevice now company id with
    | none => exact hall
    | some revoked =>
      obtain ⟨old, hold, -, hdevice, heq⟩ := revokeDevice_eq_some hrevoke
      rw [Option.map_some, Option.getD_some, heq]
      refine ⟨hall.issued, hall.retired, .update hold (hdevice ▸ rfl) ?_, hall.portalLinks, hall.payLinks⟩
      exact fun t ht => hdevice ▸ revokedSince_keeps ht
  | revokePortalLink now company id =>
    show Grows s ((s.revokePortalLink now company id).getD s) h h
    cases hrevoke : s.revokePortalLink now company id with
    | none => exact hall
    | some revoked =>
      obtain ⟨old, hold, -, rfl⟩ := revokePortalLink_eq_some hrevoke
      exact ⟨hall.issued, hall.retired, hall.devices, .update hold rfl fun _ => revokedSince_keeps,
        hall.payLinks⟩
  | revokePayLink now company id =>
    show Grows s ((s.revokePayLink now company id).getD s) h h
    cases hrevoke : s.revokePayLink now company id with
    | none => exact hall
    | some revoked =>
      obtain ⟨old, hold, -, rfl⟩ := revokePayLink_eq_some hrevoke
      exact ⟨hall.issued, hall.retired, hall.devices, hall.portalLinks,
        .update hold rfl fun _ => revokedSince_keeps⟩
  | touchDeviceSeen id seenAt staleBefore =>
    show Grows s (s.touchDeviceSeen id seenAt staleBefore) h h
    rw [touchDeviceSeen_eq]
    exact ⟨hall.issued, hall.retired, hall.devices, hall.portalLinks, hall.payLinks⟩
  | appendAudit entry => exact ⟨hall.issued, hall.retired, hall.devices, hall.portalLinks, hall.payLinks⟩

end Call

/-! ### The membership calls -/

/-- A device with the removal of its user from the company. -/
def Device.cutOff (now : DateTime) (company user : Uuid) (device : Device) : Device :=
  if device.companyId = company ∧ device.userId = user ∧ device.revokedAt.isNone then
    { device with revokedAt := some now }
  else device

theorem Directory.revokeUserDevices_lookup (d : Directory) (now : DateTime) (company user id : Uuid) :
    AList.lookup id (d.revokeUserDevices now company user).2.devices =
      (AList.lookup id d.devices).map (Device.cutOff now company user) := by
  refine (Registry.lookup_foldl_update (fun device : Device =>
    device.companyId = company ∧ device.userId = user ∧ device.revokedAt.isNone)
    (fun device => { device with revokedAt := some now }) d.devices id).trans ?_
  simp only [decide_eq_true_eq]
  rfl

/-- The removal a request has in front of it. -/
def MembersRequest.cutting : MembersRequest → Option MemberChange
  | .revoking change _ => some change
  | _ => none

theorem Directory.upsertUser_devices (d : Directory) (id : Uuid) (email displayName : String) :
    (d.upsertUser id email displayName).2.devices = d.devices := by
  unfold upsertUser
  split <;> rfl

theorem Directory.upsertMembership_devices (d : Directory) (user company : Uuid) (role : Role) :
    (d.upsertMembership user company role).devices = d.devices := by
  unfold upsertMembership
  split <;> rfl

theorem Directory.createCompany_devices {d d' : Directory} {env : Env} {ownerId : Uuid}
    {name ownerEmail ownerName : String} (h : d.createCompany env ownerId name ownerEmail ownerName = .ok d') :
    d'.devices = d.devices := by
  unfold createCompany at h
  split_ifs at h
  set named : Directory := { d with companies := AList.insert env.uuid (trim name) d.companies }
  have hd' : (named.upsertUser ownerId (trim ownerEmail) (trim ownerName)).2.upsertMembership
      (named.upsertUser ownerId (trim ownerEmail) (trim ownerName)).1.id env.uuid .owner = d' :=
    Except.ok.inj h
  rw [← hd', upsertMembership_devices, upsertUser_devices]

theorem MemberChange.perform_devices (change : MemberChange) (env : Env) (targetRole : Role) (d : Directory) :
    (change.perform env targetRole d).2.devices = d.devices := by
  unfold MemberChange.perform
  split
  · split <;> rename_i hrun <;> rw [← congrArg Prod.snd hrun] <;> rfl
  · rename_i role hwrite
    have hdevices : (d.setMembershipRole change.userId change.companyId role).2.devices = d.devices := by
      unfold Directory.setMembershipRole
      split <;> rfl
    split <;> rename_i hrun <;> rw [← hdevices, hrun]

/-- All a membership call does to a device. -/
theorem MembersRequest.advance_device (request : MembersRequest) (env : Env) (tokenHash : String)
    (d : Directory) (id : Uuid) :
    AList.lookup id (request.advance env tokenHash d).2.devices =
      (AList.lookup id d.devices).map fun device =>
        request.cutting.elim device fun change => device.cutOff env.now change.companyId change.userId := by
  cases request with
  | revoking change targetRole => exact d.revokeUserDevices_lookup env.now change.companyId change.userId id
  | writing change targetRole =>
    rw [advance, change.perform_devices]
    exact Option.map_id'.symm
  | joining invitation displayName =>
    show AList.lookup id (d.upsertUser env.uuid invitation.email displayName).2.devices = _
    rw [d.upsertUser_devices]
    exact Option.map_id'.symm
  | enrolling invitation user =>
    rw [advance, d.upsertMembership_devices]
    exact Option.map_id'.symm
  | inviting auth companyId email role issuer =>
    refine Eq.trans ?_ Option.map_id'.symm
    simp only [advance, Directory.createInvitation]
    split
    · rfl
    · rename_i hrun
      split_ifs at hrun
      obtain rfl := Except.ok.inj hrun
      rfl
  | marking invitation user =>
    refine Eq.trans ?_ Option.map_id'.symm
    simp only [advance, Directory.markInvitationAccepted]
    split
    · rfl
    · rename_i hrun
      split at hrun <;> cases hrun
      rfl
  | targeting change =>
    refine Eq.trans ?_ Option.map_id'.symm
    simp only [advance]
    split
    · rfl
    · split <;> rfl
  | counting change targetRole =>
    refine Eq.trans ?_ Option.map_id'.symm
    simp only [advance]
    split_ifs <;> rfl
  | _ => exact Option.map_id'.symm

theorem Device.cutOff_holder (now : DateTime) (company user : Uuid) (device : Device) :
    (device.cutOff now company user).holder = device.holder := by
  unfold Device.cutOff
  split_ifs <;> rfl

theorem Device.cutOff_keeps {now t : DateTime} {company user : Uuid} {device : Device}
    (h : device.revokedAt = some t) : (device.cutOff now company user).revokedAt = some t := by
  unfold Device.cutOff
  split_ifs with hlive
  · rw [h] at hlive
    cases hlive.2.2
  · exact h

/-- The devices of another directory are those of this one, up to revocations. -/
def DevicesKept (d d' : Directory) : Prop :=
  (∀ id, (AList.lookup id d'.devices).map Device.holder = (AList.lookup id d.devices).map Device.holder) ∧
    Persists Device.holder Device.revokedAt d.devices d'.devices

theorem devicesKept_of_eq {d d' : Directory} (h : d'.devices = d.devices) : DevicesKept d d' := by
  rw [DevicesKept, h]
  exact ⟨fun _ => rfl, .refl⟩

theorem MembersRequest.advance_devicesKept (request : MembersRequest) (env : Env) (tokenHash : String)
    (d : Directory) : DevicesKept d (request.advance env tokenHash d).2 := by
  have hholder : ∀ device : Device, (request.cutting.elim device fun change =>
      device.cutOff env.now change.companyId change.userId).holder = device.holder := by
    intro device
    cases request.cutting with
    | none => rfl
    | some change => exact device.cutOff_holder env.now change.companyId change.userId
  refine ⟨fun id => ?_, fun id device hdevice => ?_⟩
  · rw [request.advance_device, Option.map_map]
    exact congrArg (fun f => Option.map f (AList.lookup id d.devices)) (funext hholder)
  · refine ⟨_, (request.advance_device env tokenHash d id).trans (congrArg _ hdevice), hholder device, ?_⟩
    intro t ht
    cases request.cutting with
    | none => exact ht
    | some change => exact Device.cutOff_keeps ht

/-! ### What a token resolves to -/

/-- The identity a token stands for. -/
def Grant.auth : Grant → Option AuthContext
  | .user token => some { userId := token.userId, companyId := token.companyId, deviceId := none }
  | .device deviceId userId companyId => some { userId, companyId, deviceId := some deviceId }
  | _ => none

/-- Whether a token is in force: not rotated away and not expired, a device's or a link's that is not revoked. -/
def Grant.InForce (s : CredentialStore) (h : CredentialHistory) (now : DateTime) (hash : String) : Grant → Prop
  | .user token => hash ∉ h.retired ∧ token.expiresAt.all fun expiry => now < expiry
  | .device deviceId _ _ => ∃ device, AList.lookup deviceId s.devices = some device ∧ device.revokedAt = none
  | .portal link =>
    (∃ row, AList.lookup link.id s.portalLinks = some row ∧ row.revokedAt = none) ∧ now ≤ link.expiresAt
  | .pay link => (∃ row, AList.lookup link.id s.payLinks = some row ∧ row.revokedAt = none) ∧ now ≤ link.expiresAt

namespace Accounted
variable {s : CredentialStore} {h : CredentialHistory}

theorem grant_eq (ha : Accounted s h) {hash : String} {grant grant' : Grant}
    (hmem : (hash, grant) ∈ h.issued) (hmem' : (hash, grant') ∈ h.issued) : grant = grant' :=
  congrArg Prod.snd (List.inj_on_of_nodup_map ha.hashes hmem hmem' rfl)

theorem userToken_iff (ha : Accounted s h) {hash : String} {token : UserToken} :
    AList.lookup hash s.userTokens = some token ↔ (hash, .user token) ∈ h.issued ∧ hash ∉ h.retired := by
  have hiff := ha.userTokens.lookup_iff hash token
  rw [Option.map_id'] at hiff
  rw [hiff, CredentialHistory.rows, List.mem_filterMap]
  refine and_congr_left fun _ => ⟨?_, fun hmem => ⟨_, hmem, rfl⟩⟩
  rintro ⟨⟨hash', grant⟩, hmem, hrow⟩
  cases grant <;> cases hrow
  exact hmem

theorem deviceToken_iff (ha : Accounted s h) {hash : String} {id : Uuid} :
    AList.lookup hash s.deviceTokens = some id ↔ ∃ user company, (hash, .device id user company) ∈ h.issued := by
  have hiff := ha.deviceTokens.lookup_iff hash id
  rw [Option.map_id'] at hiff
  rw [hiff, CredentialHistory.rows, List.mem_filterMap]
  constructor
  · rintro ⟨⟨⟨hash', grant⟩, hmem, hrow⟩, -⟩
    cases grant <;> cases hrow
    exact ⟨_, _, hmem⟩
  · rintro ⟨user, company, hmem⟩
    exact ⟨⟨_, hmem, rfl⟩, List.not_mem_nil⟩

/-- A device is stored with the user and the company its token was handed out for. -/
theorem holder_eq (ha : Accounted s h) {hash : String} {id user company : Uuid}
    (hmem : (hash, .device id user company) ∈ h.issued) :
    ∃ device, AList.lookup id s.devices = some device ∧ device.holder = (user, company) :=
  ha.devices.lookup_of_issued (List.mem_filterMap.2 ⟨_, hmem, rfl⟩) List.not_mem_nil

/-- A token resolves to an identity exactly if it was handed out for it and is in force. -/
theorem resolveToken_iff (ha : Accounted s h) {now : DateTime} {hash : String} {auth : AuthContext} :
    s.resolveToken now hash = some auth ↔
      ∃ grant, (hash, grant) ∈ h.issued ∧ grant.auth = some auth ∧ grant.InForce s h now hash := by
  unfold CredentialStore.resolveToken
  cases hdevice : AList.lookup hash s.deviceTokens with
  | some id =>
    obtain ⟨user, company, hmem⟩ := ha.deviceToken_iff.1 hdevice
    obtain ⟨device, hlookup, hholder⟩ := ha.holder_eq hmem
    obtain ⟨rfl, rfl⟩ := Prod.mk.inj hholder
    simp only [hlookup]
    constructor
    · intro hauth
      split_ifs at hauth with hlive
      exact ⟨_, hmem, hauth, device, hlookup, Option.isNone_iff_eq_none.1 hlive⟩
    · rintro ⟨grant, hgrant, hauth, hforce⟩
      obtain rfl := ha.grant_eq hmem hgrant
      obtain ⟨device', hlookup', hlive⟩ := hforce
      obtain rfl := Option.some.inj (hlookup.symm.trans hlookup')
      rw [if_pos (Option.isNone_iff_eq_none.2 hlive)]
      exact hauth
  | none =>
    simp only [Option.map_eq_some_iff, Option.filter_eq_some_iff]
    constructor
    · rintro ⟨token, ⟨hlookup, hexpiry⟩, rfl⟩
      obtain ⟨hmem, hlive⟩ := ha.userToken_iff.1 hlookup
      exact ⟨_, hmem, rfl, hlive, hexpiry⟩
    · rintro ⟨grant, hgrant, hauth, hforce⟩
      cases grant with
      | user token => exact ⟨token, ⟨ha.userToken_iff.2 ⟨hgrant, hforce.1⟩, hforce.2⟩, Option.some.inj hauth⟩
      | device id user company =>
        rw [ha.deviceToken_iff.2 ⟨user, company, hgrant⟩] at hdevice
        cases hdevice
      | _ => cases hauth

/-- The rows of a kind under the hashes of their grants. -/
theorem nodup_tags (ha : Accounted s h) {G : Type} {kind : String × Grant → Option (Uuid × G)}
    (tag : G → String) (htag : ∀ e ∈ h.issued, ∀ row, kind e = some row → tag row.2 = e.1) :
    ((h.rows kind).map fun row => tag row.2).Nodup := by
  refine List.pairwise_map.2 (List.pairwise_filterMap.2 ?_)
  refine (List.pairwise_map.1 ha.hashes).imp_of_mem ?_
  intro e e' he he' hne row hrow row' hrow' heq
  exact hne ((htag e he row hrow).symm.trans (heq.trans (htag e' he' row' hrow')))

theorem portalLinks_same (ha : Accounted s h) {hash : String} {link row : PortalLinkRow}
    (hlink : (hash, .portal link) ∈ h.issued) (hrow : AList.lookup link.id s.portalLinks = some row) :
    row.unrevoked = link.unrevoked :=
  ha.portalLinks.subject_eq (ha.portalLinks.issued_of_lookup hrow).1 (List.mem_filterMap.2 ⟨_, hlink, rfl⟩)

theorem portalTags (ha : Accounted s h) : ((h.rows Grant.portalLink).map fun row => row.2.tokenHash).Nodup := by
  refine ha.nodup_tags PortalLinkRow.tokenHash ?_
  rintro ⟨hash, grant⟩ he row hrow
  cases grant <;> cases hrow
  exact ha.linkHash hash _ he _ rfl

theorem portalLinkByHash_of_lookup (ha : Accounted s h) {id : Uuid} {row : PortalLinkRow}
    (hrow : AList.lookup id s.portalLinks = some row) : s.portalLinkByHash row.tokenHash = some row :=
  (ha.portalLinks.find?_iff ha.portalTags).2
    ⟨id, row.unrevoked, (ha.portalLinks.issued_of_lookup hrow).1, rfl, hrow⟩

theorem portalLinkByHash_iff (ha : Accounted s h) {hash : String} {row : PortalLinkRow} :
    s.portalLinkByHash hash = some row ↔
      ∃ link, (hash, .portal link) ∈ h.issued ∧ AList.lookup link.id s.portalLinks = some row := by
  refine (ha.portalLinks.find?_iff ha.portalTags).trans ⟨?_, ?_⟩
  · rintro ⟨id, subject, hissued, htag, hrow⟩
    obtain ⟨⟨hash', grant⟩, hmem, hkind⟩ := List.mem_filterMap.1 hissued
    cases grant <;> cases hkind
    rename_i link
    obtain rfl : hash' = hash := (ha.linkHash hash' _ hmem _ rfl).symm.trans htag
    exact ⟨link, hmem, hrow⟩
  · rintro ⟨link, hmem, hrow⟩
    exact ⟨link.id, link.unrevoked, List.mem_filterMap.2 ⟨_, hmem, rfl⟩, ha.linkHash hash _ hmem _ rfl, hrow⟩

theorem payLinks_same (ha : Accounted s h) {hash : String} {link row : PayLinkRow}
    (hlink : (hash, .pay link) ∈ h.issued) (hrow : AList.lookup link.id s.payLinks = some row) :
    row.unrevoked = link.unrevoked :=
  ha.payLinks.subject_eq (ha.payLinks.issued_of_lookup hrow).1 (List.mem_filterMap.2 ⟨_, hlink, rfl⟩)

theorem payTags (ha : Accounted s h) : ((h.rows Grant.payLink).map fun row => row.2.tokenHash).Nodup := by
  refine ha.nodup_tags PayLinkRow.tokenHash ?_
  rintro ⟨hash, grant⟩ he row hrow
  cases grant <;> cases hrow
  exact ha.linkHash hash _ he _ rfl

theorem payLinkByHash_of_lookup (ha : Accounted s h) {id : Uuid} {row : PayLinkRow}
    (hrow : AList.lookup id s.payLinks = some row) : s.payLinkByHash row.tokenHash = some row :=
  (ha.payLinks.find?_iff ha.payTags).2
    ⟨id, row.unrevoked, (ha.payLinks.issued_of_lookup hrow).1, rfl, hrow⟩

theorem payLinkByHash_iff (ha : Accounted s h) {hash : String} {row : PayLinkRow} :
    s.payLinkByHash hash = some row ↔
      ∃ link, (hash, .pay link) ∈ h.issued ∧ AList.lookup link.id s.payLinks = some row := by
  refine (ha.payLinks.find?_iff ha.payTags).trans ⟨?_, ?_⟩
  · rintro ⟨id, subject, hissued, htag, hrow⟩
    obtain ⟨⟨hash', grant⟩, hmem, hkind⟩ := List.mem_filterMap.1 hissued
    cases grant <;> cases hkind
    rename_i link
    obtain rfl : hash' = hash := (ha.linkHash hash' _ hmem _ rfl).symm.trans htag
    exact ⟨link, hmem, hrow⟩
  · rintro ⟨link, hmem, hrow⟩
    exact ⟨link.id, link.unrevoked, List.mem_filterMap.2 ⟨_, hmem, rfl⟩, ha.linkHash hash _ hmem _ rfl, hrow⟩

/-- A portal token opens exactly the link it was handed out with, while that is in force. -/
theorem portalLink_iff (ha : Accounted s h) {now : DateTime} {hash : String} {view : PortalLink} :
    s.portalLink now hash = .ok view ↔ ∃ link, (hash, .portal link) ∈ h.issued ∧
      link.unrevoked.toPortalLink = view ∧ (Grant.portal link).InForce s h now hash := by
  have hopened : s.portalLink now hash = .ok view ↔ ∃ row, s.portalLinkByHash hash = some row ∧
      row.revokedAt = none ∧ now ≤ row.expiresAt ∧ row.toPortalLink = view := by
    unfold CredentialStore.portalLink resolveLink
    cases s.portalLinkByHash hash with
    | none => simp
    | some row =>
      simp only [Option.map_some, Option.some.injEq, exists_eq_left']
      split_ifs with hshut <;> rw [← Option.not_isSome_iff_eq_none, ← not_lt]
      · refine iff_of_false nofun fun hopen => ?_
        exact hshut.elim hopen.1 hopen.2.1
      · rw [Except.ok.injEq]
        exact ⟨fun heq => ⟨(not_or.1 hshut).1, (not_or.1 hshut).2, heq⟩, fun hopen => hopen.2.2⟩
  rw [hopened]
  constructor
  · rintro ⟨row, hfind, hlive, hnow, rfl⟩
    obtain ⟨link, hlink, hrow⟩ := ha.portalLinkByHash_iff.1 hfind
    have hrow' : row.unrevoked = row := by
      unfold PortalLinkRow.unrevoked
      rw [← hlive]
    have hsame := hrow'.symm.trans (ha.portalLinks_same hlink hrow)
    have hexpiry : row.expiresAt = link.unrevoked.expiresAt :=
      congrArg (fun row : PortalLinkRow => row.expiresAt) hsame
    refine ⟨link, hlink, ?_, ⟨row, hrow, hlive⟩, ?_⟩
    · rw [← hsame]
    · exact hnow.trans_eq hexpiry
  · rintro ⟨link, hlink, rfl, ⟨row, hrow, hlive⟩, hnow⟩
    have hrow' : row.unrevoked = row := by
      unfold PortalLinkRow.unrevoked
      rw [← hlive]
    have hsame := hrow'.symm.trans (ha.portalLinks_same hlink hrow)
    have hexpiry : row.expiresAt = link.unrevoked.expiresAt :=
      congrArg (fun row : PortalLinkRow => row.expiresAt) hsame
    refine ⟨row, ha.portalLinkByHash_iff.2 ⟨link, hlink, hrow⟩, hlive, ?_, ?_⟩
    · exact hnow.trans_eq hexpiry.symm
    · rw [← hsame]

/-- So does a pay token. -/
theorem payLink_iff (ha : Accounted s h) {now : DateTime} {hash : String} {view : PayLink} :
    s.payLink now hash = .ok view ↔ ∃ link, (hash, .pay link) ∈ h.issued ∧
      link.unrevoked.toPayLink = view ∧ (Grant.pay link).InForce s h now hash := by
  have hopened : s.payLink now hash = .ok view ↔ ∃ row, s.payLinkByHash hash = some row ∧
      row.revokedAt = none ∧ now ≤ row.expiresAt ∧ row.toPayLink = view := by
    unfold CredentialStore.payLink
    cases s.payLinkByHash hash with
    | none => simp
    | some row =>
      simp only [Option.some.injEq, exists_eq_left']
      split_ifs with hshut <;> rw [← Option.not_isSome_iff_eq_none, ← not_lt]
      · refine iff_of_false nofun fun hopen => ?_
        exact hshut.elim hopen.1 hopen.2.1
      · rw [Except.ok.injEq]
        exact ⟨fun heq => ⟨(not_or.1 hshut).1, (not_or.1 hshut).2, heq⟩, fun hopen => hopen.2.2⟩
  rw [hopened]
  constructor
  · rintro ⟨row, hfind, hlive, hnow, rfl⟩
    obtain ⟨link, hlink, hrow⟩ := ha.payLinkByHash_iff.1 hfind
    have hrow' : row.unrevoked = row := by
      unfold PayLinkRow.unrevoked
      rw [← hlive]
    have hsame := hrow'.symm.trans (ha.payLinks_same hlink hrow)
    have hexpiry : row.expiresAt = link.unrevoked.expiresAt :=
      congrArg (fun row : PayLinkRow => row.expiresAt) hsame
    refine ⟨link, hlink, ?_, ⟨row, hrow, hlive⟩, ?_⟩
    · rw [← hsame]
    · exact hnow.trans_eq hexpiry
  · rintro ⟨link, hlink, rfl, ⟨row, hrow, hlive⟩, hnow⟩
    have hrow' : row.unrevoked = row := by
      unfold PayLinkRow.unrevoked
      rw [← hlive]
    have hsame := hrow'.symm.trans (ha.payLinks_same hlink hrow)
    have hexpiry : row.expiresAt = link.unrevoked.expiresAt :=
      congrArg (fun row : PayLinkRow => row.expiresAt) hsame
    refine ⟨row, ha.payLinkByHash_iff.2 ⟨link, hlink, hrow⟩, hlive, ?_, ?_⟩
    · exact hnow.trans_eq hexpiry.symm
    · rw [← hsame]

end Accounted

end AtlasTeam
