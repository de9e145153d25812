import AtlasTeam.Store.View

/-!
# Log history and lost numbers (`history.rs`)

The hash chain over the company log, and what the server makes of a report of official records a
restored server no longer has: the numbering floors that keep lost numbers from being issued again.
-/

namespace AtlasTeam

/-- `GENESIS`. -/
def genesis : List UInt8 := List.replicate 32 0

/-- `canonical`: the record as hashed, without the version the log assigns. -/
def canonical (codec : Codec) (record : Value) : List UInt8 :=
  let v := match record with
    | .object m => .object (Map.remove m "syncVersion")
    | other => other
  match codec.toBytes v with
  | .ok bytes => bytes
  | .error _ => []

/-- `i64::to_be_bytes`. -/
def toBeBytes (version : Int) : List UInt8 :=
  (List.range 8).map fun i => UInt8.ofNat ((version % 2 ^ 64).toNat / 256 ^ (7 - i) % 256)

/-- `link`: the next chain value. -/
def link (codec : Codec) (prev : List UInt8) (version : Int) (mutationId : String)
    (record : Value) : List UInt8 :=
  codec.sha256 (prev ++ toBeBytes version ++ mutationId.toUTF8.toList ++ [0] ++
    codec.sha256 (canonical codec record))

/-- One official record a recovering device had and the restored server no longer has. -/
structure LostRecord where
  doctype : String
  documentId : String
  number : Option String
  postingDate : Option String
  total : Option ℚ

structure LostHistoryReport where
  recoveryId : String
  lost : List LostRecord

/-- `floor_for`: the numbering floor a lost Team number implies. -/
def floorFor (doctype number : String) : Option (String × Int) := do
  let key ← seriesKey doctype
  let rest ← number.toList.dropPrefix? key.toList
  let digits ← rest.dropPrefix? ['-']
  if digits.isEmpty || !digits.all Char.isDigit then none
  else if digitsValue digits < 2 ^ 63 ∧ 0 < digitsValue digits then
    some (key, (digitsValue digits : Int))
  else none

/-- What the report's loop has gathered. -/
structure LostOutcome where
  stillPresent : List Value := []
  numberReused : List Value := []
  floors : List (String × Int) := []

/-- One record of the loop in `lost_history_outcome`. -/
def lostStep (acc : LostOutcome) (entry : LostRecord × Bool × Option String) : LostOutcome :=
  let (record, present, holder) := entry
  if present then
    { acc with
      stillPresent := acc.stillPresent ++
        [.obj [("doctype", .string record.doctype), ("document_id", .string record.documentId)]] }
  else
    let numberReused := match holder with
      | some holder => acc.numberReused ++
          [.obj [("doctype", .string record.doctype), ("number", .ofOption record.number),
            ("lost_document_id", .string record.documentId), ("server_document_id", .string holder)]]
      | none => acc.numberReused
    let floors := match record.number.bind (floorFor record.doctype) with
      | some (key, value) =>
        SortedMap.Raw.put key (max ((acc.floors.lookup key).getD 0) value) acc.floors
      | none => acc.floors
    { acc with numberReused, floors }

/-- `lost_history_outcome`: the response and the floors to raise, from what the server found for
each reported record. -/
def lostHistoryOutcome (report : LostHistoryReport) (found : List (Bool × Option String)) :
    Value × List (String × Int) :=
  let acc := (report.lost.zip found).foldl lostStep {}
  let response := .obj
    [("recovery_id", .string report.recoveryId), ("reported", .int report.lost.length),
      ("still_present", .array acc.stillPresent), ("number_reused", .array acc.numberReused),
      ("numbering_floors", .array (acc.floors.map fun floor =>
        .obj [("series", .string floor.1), ("floor", .int floor.2)]))]
  (response, acc.floors)

/-- `lost_history_audit_detail`. -/
def lostHistoryAuditDetail (report : LostHistoryReport) (response : Value) : Value :=
  let reused := (((response.get "number_reused").bind Value.asArray).map List.length).getD 0
  .obj [("recovery_id", .string report.recoveryId), ("reported", .int report.lost.length),
    ("number_reused", .int reused)]

example : floorFor "Sales Invoice" "SINV-00042" = some ("SINV", 42) := by decide +kernel

example : floorFor "Sales Invoice" "SINV-.2026.-0042" = none := by decide +kernel

end AtlasTeam
