import AtlasTeam.Store.Backend

/-!
# Online payments (`pay.rs`)

`stripeWebhook` turns a verified checkout event into the submit of an official Payment Entry, under
a key made of the event's id. A webhook reads the pay link, the invoice and the replay table in steps of
its own before the submit starts; a `Delivery` carries what these reads returned, whatever the
store holds by then. A `Request` is an event of the system or such a delivery.
-/

namespace AtlasTeam

/-- `PAID_EPSILON`. -/
def paidEpsilon : ℚ := 5 / 1000

/-- `SALES_INVOICE`. -/
def Pay.salesInvoice : String := "Sales Invoice"

/-- `PAYMENTS_DEVICE_ID`. -/
def paymentsDeviceId : String := "atlas-payments"

/-- `CHECKOUT_EVENT_TYPES`. -/
def checkoutEventTypes : List String := ["checkout.session.completed", "payment_link.completed"]

/-- `Actor::system`. -/
def Actor.system (replicationDeviceId : String) : Actor :=
  { userId := none
    deviceId := none
    replicationDeviceId := some replicationDeviceId }

/-- The fields of a pay link the webhook reads. -/
structure PayLink where
  companyId : Uuid
  invoiceId : String
  expiresAt : DateTime
  revokedAt : Option DateTime

/-- A verified event with what the webhook read for it. -/
structure Delivery where
  event : Value
  now : DateTime
  /-- `pay_link_by_hash`, by token. -/
  payLink : String → Option PayLink
  /-- `posted_document` of a Sales Invoice. -/
  invoice : Uuid → String → Option PostedDocument
  /-- Whether `idempotent_response` found the key. -/
  isReplay : Uuid → String → Bool
  /-- `DateTime::from_timestamp` as a date text. -/
  dateOf : Int → Option String

/-- A trimmed, non-empty text field. -/
def eventText (v : Value) (field : String) : Option String :=
  (((v.get field).bind Value.asStr).map trim).filter fun s => s ≠ ""

/-- The payload of the Payment Entry. -/
def paymentPayload (delivery : Delivery) (link : PayLink) (invoice : PostedDocument)
    (paidAmount outstanding : ℚ) (currency : String) : Map :=
  let payload : Map := Map.insert [] "payment_type" (.string "Receive")
  let payload := payload.insertSome "party"
    (((invoice.payload.get "customer").bind Value.asStr).map .string)
  let payload := payload.insert "paid_amount" (.num paidAmount)
  let payload := if currency = "" then payload else payload.insert "currency" (.string currency)
  let payload := payload.insertSome "posting_date"
    ((((delivery.event.get "created").bind Value.asI64).bind delivery.dateOf).map .string)
  payload.insert "references" (.array [.obj [("reference_doctype", .string Pay.salesInvoice),
    ("reference_name", .string link.invoiceId),
    ("allocated_amount", .num (min paidAmount outstanding))]])

/-- `stripe_webhook` after the signature: the company and the submit, or why it is not handled. -/
def stripeWebhook (delivery : Delivery) : Except String (Uuid × SubmitCommand) := do
  let event := delivery.event
  if ((event.get "type").bind Value.asStr).getD "" ∉ checkoutEventTypes then
    throw "ignored event type"
  let some eventId := eventText event "id" | throw "missing event id"
  let object := (((event.get "data").getD .null).get "object").getD .null
  let some token := eventText object "client_reference_id" | throw "missing client_reference_id"
  let some amountCents := ((object.get "amount_total").bind Value.asI64).filter fun c => 0 < c
    | throw "missing or non-positive amount_total"
  let currency := ((object.get "currency").bind Value.asStr).getD ""
  let paidAmount : ℚ := amountCents / 100
  let some link := delivery.payLink token | throw "unknown payment link"
  if link.revokedAt.isSome ∨ link.expiresAt < delivery.now then
    throw "expired or revoked payment link"
  let some invoice := (delivery.invoice link.companyId link.invoiceId).filter fun d => d.docstatus = 1
    | throw "invoice is not an officially posted Sales Invoice"
  let outstanding := asNum (invoice.payload.get "outstanding_amount")
  let idempotencyKey := "stripe-" ++ eventId
  if delivery.isReplay link.companyId idempotencyKey = false ∧ outstanding < paidEpsilon then
    throw "invoice has no outstanding amount"
  return (link.companyId,
    { doctype := "Payment Entry"
      documentId := some ("PAY-STRIPE-" ++ eventId)
      payload := paymentPayload delivery link invoice paidAmount outstanding currency
      items := []
      idempotencyKey := some idempotencyKey
      offlineFiscal := false })

/-- What reaches the backend: an event of the system, or a delivery of the payment provider. -/
inductive Request where
  | plain (event : Event MemOp)
  | webhook (delivery : Delivery)

/-- The events a request amounts to: a handled delivery is a submit by the payments plane. -/
def Request.events : Request → List (Event MemOp)
  | .plain event => [event]
  | .webhook delivery =>
    match stripeWebhook delivery with
    | .ok (companyId, cmd) => [.call companyId (.system paymentsDeviceId) (.submit cmd)]
    | .error _ => []

/-- The system after a list of requests. -/
def requestRun (codec : Codec) (requests : List Request) : System Inner :=
  memRun codec (requests.flatMap Request.events)

end AtlasTeam
