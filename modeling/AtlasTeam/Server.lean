import AtlasTeam.Api.Credentials
import AtlasTeam.Api.Signatures
import AtlasTeam.Api.Sync
import AtlasTeam.Store.HistoryChain

/-!
# The server (`api.rs`, `pay.rs`)

`submit_document`, `cancel_document`, `import_solo_opening` and the webhook routes from the header to the answer,
over the tables of the tokens and memberships (`CredentialDesk`) and the posting system (`System`). Each makes one
store call after another: `CommandRequest.next` and `WebhookRequest.next` say where a request stands after its
next call and what that does, and `Server.step` moves one request, or lets another request of the identity plane
or of the store run.

The rate limits, the protocol version and the request log, which stand in front of the handlers and read no table,
are left out.
-/

namespace AtlasTeam

/-- `allowed_roles`. -/
def allowedRoles : String → Option (List Role)
  | "Sales Invoice" => some [.owner, .admin, .sales]
  | "Purchase Invoice" => some [.owner, .admin, .purchasing]
  | "Purchase Receipt" => some [.owner, .admin, .purchasing]
  | "Delivery Note" => some [.owner, .admin, .stock, .sales]
  | "POS Invoice" => some [.owner, .admin, .pos]
  | "Stock Entry" => some [.owner, .admin, .stock]
  | "Payment Entry" => some [.owner, .admin, .accountant]
  | "Journal Entry" => some [.owner, .admin, .accountant]
  | "Expense" => some [.owner, .admin, .accountant, .purchasing]
  | "Customer Deposit" => some [.owner, .admin, .accountant, .sales]
  | _ => none

/-- `Actor::user`. -/
def Actor.user (userId : Uuid) (deviceId : Option Uuid) : Actor :=
  { userId := some userId
    deviceId
    replicationDeviceId := none }

namespace Command

/-- Who may give a command. -/
def roles : Command → Option (List Role)
  | .submit cmd => allowedRoles cmd.doctype
  | .cancel cmd => allowedRoles cmd.doctype
  | .takeOn _ => some [.owner]

/-- The checks of the command routes in front of the engine: the role of the caller. -/
def authorise (memberships : Memberships) (auth : AuthContext) (companyId : Uuid) (command : Command) :
    Except ApiError Role := do
  let role ← requireMembership memberships auth companyId
  let _ ← requireDevice auth
  match command.roles with
  | none => throw (.badRequest s!"unsupported doctype {command.doctype}")
  | some allowed =>
    requireRole role allowed
    return role

/-- The answer of a command route: `with_history`, or the replay flag of the take-on. -/
def answer (checkpoint : HistoryCheckpoint) (outcome : CommitOutcome) : Command → Value
  | .takeOn _ => outcome.response.setField "replayed" (.bool outcome.replayed)
  | _ => outcome.response.setField "history"
      (.obj [("version", .int checkpoint.head), ("hash", .string checkpoint.headHash)])

end Command

/-- `From<StoreError> for ApiError`; the rest is an internal error. -/
def StoreError.toApi : StoreError → ApiError
  | .conflict reason => .conflict reason
  | .stale reason => .conflict reason
  | e => .store e

/-- `From<PostingError> for ApiError`. -/
def PostingError.toApi : PostingError → ApiError
  | .validation reason => .unprocessable reason
  | .notFound => .notFound
  | .conflict reason => .conflict reason
  | .store e => e.toApi

/-! ### Requests under way -/

/-- Where a command request stands: the call it makes next. -/
inductive CommandPhase where
  | arrived (header : Option String)
  | touching (caller : Caller) (deviceId : Uuid)
  | entering (caller : Caller)
  /-- The engine runs the command, as the call at a position. -/
  | running (caller : Caller) (role : Role) (position : Nat)
  | finished (result : Except ApiError Value)

structure CommandRequest where
  companyId : Uuid
  command : Command
  phase : CommandPhase

inductive WebhookKind where
  | payment
  | channel
deriving DecidableEq

structure WebhookEvent where
  id : Uuid
  kind : WebhookKind
  provider : String
  headers : Value
  body : List UInt8
  receivedAt : DateTime

/-- The webhook routes; the one of Stripe goes before the generic ones. -/
inductive WebhookRoute where
  | payment (provider : String)
  | channel (connector : String)
  | stripe

def WebhookRoute.kind : WebhookRoute → WebhookKind
  | .channel _ => .channel
  | _ => .payment

def WebhookRoute.provider : WebhookRoute → String
  | .payment provider => provider
  | .channel connector => connector
  | .stripe => "stripe"

inductive WebhookError where
  | tooManyRequests (message : String) (retryAfterSecs : Nat)
  | api (error : ApiError)

/-- Where a delivery stands: the call it makes next, with what it has read. -/
inductive WebhookPhase where
  | received
  /-- The backlog has room. -/
  | admitted
  /-- A Stripe event that is logged, in front of its pay link, the invoice and the lookup of its key. -/
  | logged
  | linked (event : Value) (now : DateTime) (link : Option PayLink)
  | invoiced (event : Value) (now : DateTime) (link : Option PayLink) (invoice : Option PostedDocument)
  /-- The engine posts the payment, as the call at a position. -/
  | paying (event : Value) (link : PayLink) (position : Nat)
  | auditing (entry : AuditEntry) (answer : Value)
  | finished (result : Except WebhookError Value)

structure WebhookRequest where
  route : WebhookRoute
  headers : Value
  /-- The Stripe-Signature header as a text. -/
  signature : Option String
  body : List UInt8
  phase : WebhookPhase

/-- The configuration and what stands for code of other packages. -/
structure ServerConfig where
  codec : Codec
  signatures : SignatureCodec
  /-- `DateTime::from_timestamp` as a date text. -/
  dateOf : Int → Option String
  /-- `ATLAS_WEBHOOK_BACKLOG_MAX`. -/
  webhookBacklogMax : Int
  /-- `STRIPE_WEBHOOK_SECRET`. -/
  stripeWebhookSecret : Option String

structure Server where
  credentials : CredentialDesk := {}
  system : System Inner := System.fresh {}
  webhooks : List WebhookEvent := []
  requests : List CommandRequest := []
  deliveries : List WebhookRequest := []

/-- What a request does in a step besides reading. -/
inductive ServerEffect where
  | nothing
  | write (call : StoreCall)
  | engine (event : Event MemOp)
  | log (event : WebhookEvent)

/-! ### The command routes -/

section
variable (config : ServerConfig) (env : Env) (server : Server)

/-- The next call of a command request. -/
def CommandRequest.next (request : CommandRequest) : CommandPhase × ServerEffect :=
  match request.phase with
  | .arrived header =>
    match bearerToken header with
    | none => (.finished (.error .unauthorized), .nothing)
    | some token =>
      match server.credentials.store.resolveToken env.now (hashToken config.codec token) with
      | none => (.finished (.error .unauthorized), .nothing)
      | some auth =>
        match auth.deviceId with
        | some deviceId => (.touching ⟨auth, token⟩ deviceId, .nothing)
        | none => (.entering ⟨auth, token⟩, .nothing)
  | .touching caller deviceId =>
    (.entering caller, .write (.touchDeviceSeen deviceId env.now (env.now - deviceSeenThrottle)))
  | .entering caller =>
    match request.command.authorise server.credentials.store.memberships caller.auth request.companyId with
    | .error e => (.finished (.error e), .nothing)
    | .ok role => (.running caller role server.system.calls.length,
        .engine (.call request.companyId (.user caller.auth.userId caller.auth.deviceId) request.command))
  | .running caller role position =>
    match (server.system.calls[position]?).map Call.phase with
    | some (.finished (.ok outcome)) =>
      let checkpoint := server.system.book.store.toSyncLog.historyCheckpoint request.companyId 0
      (.finished (.ok (request.command.answer checkpoint outcome)), .nothing)
    | some (.finished (.error e)) => (.finished (.error e.toApi), .nothing)
    | _ => (.running caller role position, .engine (.advance position env))
  | .finished result => (.finished result, .nothing)

/-! ### The webhook routes -/

/-- How many events of a kind and a provider are stored. -/
def Server.countWebhookEvents (kind : WebhookKind) (provider : String) : Nat :=
  server.webhooks.countP fun event => event.kind = kind ∧ event.provider = provider

/-- `check_webhook_backlog`. -/
def checkWebhookBacklog (route : WebhookRoute) : Except WebhookError Unit :=
  if config.webhookBacklogMax ≤ 0 then .ok ()
  else if config.webhookBacklogMax ≤ server.countWebhookEvents route.kind route.provider then
    .error (.tooManyRequests s!"webhook backlog for {route.provider} is full; retry later" 60)
  else .ok ()

/-- `unhandled`. -/
def unhandled (reason : String) : Value := .obj [("handled", .bool false), ("reason", .string reason)]

/-- The rejections that are audited: those of a known pay link. -/
def auditedRejections : List String :=
  ["expired or revoked payment link", "invoice is not an officially posted Sales Invoice",
    "invoice has no outstanding amount"]

/-- The payment object of an event. -/
def checkoutObject (event : Value) : Value := (((event.get "data").getD .null).get "object").getD .null

/-- What the audit rows of a payment say of its event. -/
def webhookAuditFields (event : Value) (link : PayLink) : List (String × Value) :=
  let object := checkoutObject event
  [("eventId", .string ((eventText event "id").getD "")), ("invoiceId", .string link.invoiceId),
    ("amount", .num ((((object.get "amount_total").bind Value.asI64).getD 0 : Int) / 100)),
    ("currency", .string (((object.get "currency").bind Value.asStr).getD ""))]

def webhookAudit (companyId : Uuid) (action : String) (detail : List (String × Value)) : AuditEntry :=
  { id := env.uuid
    companyId
    userId := none
    deviceId := none
    action
    detail := .obj detail
    at_ := env.now }

/-- `serde_json::from_slice`. -/
def jsonBody (codec : Codec) (body : List UInt8) : Option Value :=
  (String.fromUTF8? ⟨body.toArray⟩).bind fun text => (codec.fromText text).toOption

/-- The next call of a delivery. -/
def WebhookRequest.next (request : WebhookRequest) : WebhookPhase × ServerEffect :=
  match request.phase with
  | .received =>
    match checkWebhookBacklog config server request.route with
    | .error e => (.finished (.error e), .nothing)
    | .ok () => (.admitted, .nothing)
  | .admitted =>
    let event : WebhookEvent :=
      { id := env.uuid
        kind := request.route.kind
        provider := request.route.provider
        headers := request.headers
        body := request.body
        receivedAt := env.now }
    match request.route with
    | .stripe => (.logged, .log event)
    | _ => (.finished (.ok (.obj [("logged", .bool true)])), .log event)
  | .logged =>
    match verifyWebhook config.signatures config.stripeWebhookSecret request.signature request.body
        (Int64.ofInt (env.now / 1000)) with
    | .error e => (.finished (.error (.api e)), .nothing)
    | .ok () =>
      match jsonBody config.codec request.body with
      | none => (.finished (.error (.api (.badRequest "webhook body is not valid JSON"))), .nothing)
      | some event =>
        let token := eventText (checkoutObject event) "client_reference_id"
        (.linked event env.now (token.bind fun token =>
          (server.credentials.store.payLinkByHash (hashToken config.codec token)).map PayLinkRow.toPayLink),
          .nothing)
  | .linked event now link =>
    let invoice := link.bind fun link =>
      server.system.book.store.view.postedDocument link.companyId Pay.salesInvoice link.invoiceId
    (.invoiced event now link invoice, .nothing)
  | .invoiced event now link invoice =>
    let delivery : Delivery :=
      { event
        now
        payLink := fun _ => link
        invoice := fun _ _ => invoice
        isReplay := fun company key => (server.system.book.store.view.idempotentResponse company key).isSome
        dateOf := config.dateOf }
    match stripeWebhook delivery with
    | .ok (companyId, cmd) =>
      match link with
      | some link => (.paying event link server.system.calls.length,
          .engine (.call companyId (.system paymentsDeviceId) (.submit cmd)))
      | none => (.finished (.ok (unhandled "unknown payment link")), .nothing)
    | .error reason =>
      match link with
      | some link =>
        if reason ∈ auditedRejections then
          (.auditing (webhookAudit env link.companyId "pay.webhook.rejected"
            (webhookAuditFields event link ++ [("reason", .string reason)])) (unhandled reason), .nothing)
        else (.finished (.ok (unhandled reason)), .nothing)
      | none => (.finished (.ok (unhandled reason)), .nothing)
  | .paying event link position =>
    match (server.system.calls[position]?).map Call.phase with
    | some (.finished (.ok outcome)) =>
      let result := [("documentId", (outcome.response.get "document_id").getD .null),
        ("number", (outcome.response.get "number").getD .null)]
      (.auditing (webhookAudit env link.companyId "pay.webhook.payment"
          (webhookAuditFields event link ++ result ++ [("replayed", .bool outcome.replayed)]))
        (.obj [("handled", .bool true), ("document_id", (outcome.response.get "document_id").getD .null),
          ("number", (outcome.response.get "number").getD .null), ("replayed", .bool outcome.replayed)]), .nothing)
    | some (.finished (.error e)) => (.finished (.error (.api e.toApi)), .nothing)
    | _ => (.paying event link position, .engine (.advance position env))
  | .auditing entry answer => (.finished (.ok answer), .write (.appendAudit entry))
  | .finished result => (.finished result, .nothing)

end

/-! ### The steps of the server -/

/-- What reaches the server. -/
inductive ServerEvent where
  /-- Another request of the identity plane. -/
  | credential (event : CredentialEvent)
  | command (header : Option String) (companyId : Uuid) (command : Command)
  | advance (position : Nat) (env : Env)
  | webhook (route : WebhookRoute) (headers : Value) (signature : Option String) (body : List UInt8)
  | advanceWebhook (position : Nat) (env : Env)
  /-- The store runs an operation that is no posting. -/
  | operate (op : MemOp) (env : Env)

/-- The effect of a step. -/
def Server.apply (codec : Codec) (server : Server) : ServerEffect → Server
  | .nothing => server
  | .write call => { server with credentials := server.credentials.write [call] }
  | .engine event => { server with system := server.system.step codec (memBackend codec) event }
  | .log event => { server with webhooks := server.webhooks ++ [event] }

def Server.step (config : ServerConfig) (server : Server) (event : ServerEvent) : Server :=
  match event with
  | .credential event => { server with credentials := server.credentials.step config.codec event }
  | .command header companyId command =>
    { server with requests := server.requests ++ [{ companyId, command, phase := .arrived header }] }
  | .advance position env =>
    match server.requests[position]? with
    | some request =>
      let (phase, effect) := request.next config env server
      { server.apply config.codec effect with requests := server.requests.set position { request with phase } }
    | none => server
  | .webhook route headers signature body =>
    let request : WebhookRequest := ⟨route, headers, signature, body, .received⟩
    { server with deliveries := server.deliveries ++ [request] }
  | .advanceWebhook position env =>
    match server.deliveries[position]? with
    | some request =>
      let (phase, effect) := request.next config env server
      { server.apply config.codec effect with deliveries := server.deliveries.set position { request with phase } }
    | none => server
  | .operate op env =>
    { server with system := server.system.step config.codec (memBackend config.codec) (.operate op env) }

/-- The server after a list of events, from empty tables. -/
def serverRun (config : ServerConfig) (events : List ServerEvent) : Server :=
  events.foldl (Server.step config) {}

theorem serverRun_concat (config : ServerConfig) (events : List ServerEvent) (event : ServerEvent) :
    serverRun config (events ++ [event]) = (serverRun config events).step config event :=
  List.foldl_concat _ _ _ _

end AtlasTeam
