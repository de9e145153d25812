import AtlasTeam.Store.View

/-!
# The document read model (`projection.rs`)

Folding one mutation of the company log over the current row of the document it names.
-/

namespace AtlasTeam

/-- What folding one mutation does to the projection. -/
inductive ProjectionAction where
  | upsert (doc : CompanyDocument)
  | delete
  | keep

/-- `value as i16`. -/
def asI16 (v : Int) : Int := Int.bmod v (2 ^ 16)

/-- The header fields a mutation carries: the envelope's inner payload, a JSON text or an object,
or the payload itself when there is no envelope. -/
def envelopeFields (codec : Codec) (envelope : Map) : Map :=
  match envelope.get "payload" with
  | some (.string inner) =>
    match codec.fromText inner with
    | .ok value => value.asObject.getD []
    | .error _ => []
  | some (.object fields) => fields
  | _ => envelope

/-- `fold_mutation`. -/
def foldMutation (codec : Codec) (existing : Option CompanyDocument) (record : MutationRecord)
    (companyId : Uuid) (now : DateTime) : ProjectionAction :=
  match record.mutationType with
  | .deleteDocument => .delete
  | .createDocument | .updateDocument | .submitDocument | .cancelDocument =>
    let envelope := record.payload
    let fields := envelopeFields codec envelope
    let sent := ((fields.get "__children").or (envelope.get "__children")).filter fun v => !v.isNull
    let children := sent.or (existing.bind fun doc => doc.children)
    let docstatus :=
      match (envelope.get "docstatus").bind Value.asI64 with
      | some value => asI16 value
      | none =>
        match record.mutationType with
        | .submitDocument => 1
        | .cancelDocument => 2
        | .updateDocument => (existing.map fun doc => doc.docstatus).getD 0
        | _ => 0
    .upsert
      { companyId
        doctype := record.docType
        documentId := record.documentId
        payload := .object (fields.remove "__children")
        children
        docstatus
        updatedAt := now }
  -- app installs and attachments never touch the read model
  | _ => .keep

/-- The header fields a fold puts into the row. -/
def rowPayload (codec : Codec) (envelope : Map) : Value :=
  .object ((envelopeFields codec envelope).remove "__children")

/-- The payload of the row that a fold makes. -/
theorem foldMutation_payload {codec : Codec} {existing : Option CompanyDocument}
    {record : MutationRecord} {company : Uuid} {now : DateTime} {row : CompanyDocument}
    (h : foldMutation codec existing record company now = .upsert row) :
    row.payload = rowPayload codec record.payload := by
  unfold foldMutation at h
  cases htype : record.mutationType <;> simp only [htype, reduceCtorEq] at h
  all_goals
    rw [← ProjectionAction.upsert.inj h]
    rfl

end AtlasTeam
