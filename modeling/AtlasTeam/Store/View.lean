import AtlasTeam.Posting.Model

/-!
# The store interface (`store/mod.rs`)

`StoreView` is what the posting engine reads of a store (the read half of the `Store` trait): the
engine is written against it, so one model of the engine serves both stores. `Codec` stands for the
code outside the repository the stores rely on: serde_json's text form and SHA-256.
-/

namespace AtlasTeam

inductive StoreError where
  | conflict (reason : String)
  | stale (reason : String)
  | sqlx (reason : String)
  | json (reason : String)
  | internal (reason : String)
deriving DecidableEq

/-- serde_json's text form and SHA-256. `toText` renders a map with text keys, which never fails. -/
structure Codec where
  /-- `serde_json::to_string` of a map. -/
  toText : Map → Except String String
  /-- `serde_json::to_vec`. -/
  toBytes : Value → Except String (List UInt8)
  /-- `serde_json::from_str`. -/
  fromText : String → Except String Value
  sha256 : List UInt8 → List UInt8
  toText_ok : ∀ m, ∃ text, toText m = .ok text

/-- `lock_violation`: why a posting dated `date` may not commit under `lock`. -/
def lockViolation (date : String) (lock : Option String) : Option String :=
  (lock.filter fun lock => date ≤ lock).map fun lock =>
    s!"posting date {date} falls in a locked period (books locked through {lock})"

/-- `books_lock_moved`. -/
def booksLockMoved (current : Option String) : String :=
  let now := match current with
    | none => "cleared"
    | some lock => s!"through {lock}"
  s!"the books lock changed on another device: it is now {now}. Reload and try again"

/-- One row of the materialized read model. -/
structure CompanyDocument where
  companyId : Uuid
  doctype : String
  documentId : String
  payload : Value
  children : Option Value
  docstatus : Int
  updatedAt : DateTime

/-- The reads of the `Store` trait that the posting engine makes. -/
structure StoreView where
  companySettings : Uuid → CompanySettings
  items : Uuid → List String → List Item
  postedDocument : Uuid → String → String → Option PostedDocument
  slesForPair : Uuid → String → String → List StockLedgerEntry
  slesForVoucher : Uuid → String → List StockLedgerEntry
  glForVoucher : Uuid → String → List GlEntry
  partyTransactionsForVoucher : Uuid → String → List PartyTransaction
  taxTransactionsForVoucher : Uuid → String → List TaxTransaction
  settlementsForInvoice : Uuid → String → String → List Settlement
  settlementsForPayment : Uuid → String → List Settlement
  idempotentResponse : Uuid → String → Option Value
  depositApplications : Uuid → String → List PostedDocument
  companyDocument : Uuid → String → String → Option CompanyDocument

end AtlasTeam
