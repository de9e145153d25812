import AtlasTeam.Posting.Values
import AtlasTeam.Store.View

/-!
# The pages of the customer portal (`portal.rs`)

Plain string templates. Document payloads are user data, so every interpolated value goes through
`htmlEscape` and every id in a link through `encodeSegment`: neither leaves a character that would end
the text or the attribute it stands in.
-/

namespace AtlasTeam

/-- One character of `html_escape`. -/
def htmlChar : Char → List Char
  | '&' => "&amp;".toList
  | '<' => "&lt;".toList
  | '>' => "&gt;".toList
  | '"' => "&quot;".toList
  | '\x27' => "&#39;".toList
  | c => [c]

/-- `html_escape`. -/
def htmlEscape (value : String) : String := String.ofList (value.toList.flatMap htmlChar)

/-- A byte that `encode_segment` leaves as it is. -/
def isUnreserved (c : Char) : Bool :=
  ('A' ≤ c && c ≤ 'Z') || ('a' ≤ c && c ≤ 'z') || ('0' ≤ c && c ≤ '9') || c ∈ ['-', '_', '.', '~']

/-- One byte of `encode_segment`. -/
def encodeByte (byte : UInt8) : List Char :=
  let c := Char.ofNat byte.toNat
  let digit (n : Nat) : Char := (Nat.digitChar n).toUpper
  if byte < 128 && isUnreserved c then [c]
  else ['%', digit (byte.toNat / 16), digit (byte.toNat % 16)]

/-- `encode_segment`. -/
def encodeSegment (value : String) : String := String.ofList (value.toUTF8.toList.flatMap encodeByte)

/-- `display_value`: a scalar as text; objects and arrays are not rendered. -/
def displayValue : Value → Option String
  | .string s => some s
  | .number n => some (Value.number n).render
  | .bool b => some (Value.bool b).render
  | _ => none

def page (title body : String) : String :=
  "<!doctype html><html lang=\"en\"><head><meta charset=\"utf-8\">" ++
  "<meta name=\"viewport\" content=\"width=device-width, initial-scale=1\"><title>" ++
  htmlEscape title ++ "</title></head><body style=\"font-family:system-ui,sans-serif;" ++
  "max-width:720px;margin:2rem auto;padding:0 1rem;color:#1a1a1a;line-height:1.5\">" ++ body ++
  "</body></html>"

def docHref (token doctype documentId : String) : String :=
  "/portal/" ++ encodeSegment token ++ "/documents/" ++ encodeSegment doctype ++ "/" ++
    encodeSegment documentId

def docListItems (token : String) (docs : List CompanyDocument) (amountField : String) : String :=
  if docs.isEmpty then "<p style=\"color:#666\">None.</p>"
  else
    let item (doc : CompanyDocument) : String :=
      let amount := match (doc.payload.get amountField).bind displayValue with
        | some v => " &mdash; " ++ htmlEscape amountField ++ ": " ++ htmlEscape v
        | none => ""
      "<li><a href=\"" ++ docHref token doc.doctype doc.documentId ++ "\">" ++
        htmlEscape doc.documentId ++ "</a>" ++ amount ++ "</li>"
    "<ul>" ++ String.join (docs.map item) ++ "</ul>"

def customerSummaryPage (token companyName party : String)
    (quotations invoices : List CompanyDocument) : String :=
  let body := "<h1>" ++ htmlEscape companyName ++ "</h1><p>Customer: <strong>" ++ htmlEscape party ++
    "</strong></p><h2>Open quotations</h2>" ++ docListItems token quotations "grand_total" ++
    "<h2>Unpaid invoices</h2>" ++ docListItems token invoices "outstanding_amount"
  page (companyName ++ " — customer portal") body

def statusLine (doc : CompanyDocument) : String :=
  match (doc.payload.get "accepted_on").bind Value.asStr with
  | some date => "<p><strong style=\"color:#166534\">Accepted on " ++ htmlEscape date ++ "</strong></p>"
  | none =>
    match (doc.payload.get "rejected_on").bind Value.asStr with
    | some date => "<p><strong style=\"color:#991b1b\">Rejected on " ++ htmlEscape date ++ "</strong></p>"
    | none =>
      let status := if doc.docstatus = 1 then "Submitted" else if doc.docstatus = 2 then "Cancelled" else "Open"
      "<p>Status: " ++ status ++ "</p>"

def headerTable (doc : CompanyDocument) : String :=
  match doc.payload.asObject with
  | none => ""
  | some fields =>
    let row (field : String × Value) : String :=
      if field.1 = "items" then ""
      else match displayValue field.2 with
        | some text => "<tr><td style=\"padding:.25rem .75rem .25rem 0;color:#555\">" ++
            htmlEscape field.1 ++ "</td><td style=\"padding:.25rem 0\">" ++ htmlEscape text ++ "</td></tr>"
        | none => ""
    "<table style=\"border-collapse:collapse\">" ++ String.join (fields.map row) ++ "</table>"

/-- The columns of the item rows, by first appearance; only scalars are shown. -/
def itemColumns (items : List Value) : List String :=
  items.foldl (fun columns item =>
    (item.asObject.getD []).foldl (fun columns (key, value) =>
      if (displayValue value).isSome && key ∉ columns then columns ++ [key] else columns) columns) []

def itemsTable (doc : CompanyDocument) : String :=
  let items := ((doc.children.bind Value.asArray).or
    ((doc.payload.get "items").bind Value.asArray)).getD []
  if items.isEmpty then ""
  else
    let columns := itemColumns items
    let cell := "padding:.35rem .75rem;border:1px solid #ddd;text-align:left"
    let head (column : String) : String :=
      "<th style=\"" ++ cell ++ ";background:#f5f5f5\">" ++ htmlEscape column ++ "</th>"
    let row (item : Value) : String :=
      "<tr>" ++ String.join (columns.map fun column =>
        "<td style=\"" ++ cell ++ "\">" ++
          htmlEscape (((item.get column).bind displayValue).getD "") ++ "</td>") ++ "</tr>"
    "<h2>Line items</h2><table style=\"border-collapse:collapse;width:100%\"><tr>" ++
      String.join (columns.map head) ++ "</tr>" ++ String.join (items.map row) ++ "</table>"

def totalsBlock (doc : CompanyDocument) : String :=
  String.join (["grand_total", "outstanding_amount"].map fun field =>
    match (doc.payload.get field).bind displayValue with
    | some text => "<p><strong>" ++ htmlEscape field ++ ":</strong> " ++ htmlEscape text ++ "</p>"
    | none => "")

def decisionForms (token : String) (doc : CompanyDocument) : String :=
  let undecided := ((doc.payload.get "accepted_on").bind Value.asStr).isNone &&
    ((doc.payload.get "rejected_on").bind Value.asStr).isNone
  if doc.doctype ≠ "Quotation" ∨ doc.docstatus ≠ 0 ∨ !undecided then ""
  else
    let base := "/portal/" ++ encodeSegment token ++ "/quotations/" ++ encodeSegment doc.documentId
    let button := "padding:.5rem 1.25rem;border:none;border-radius:4px;color:#fff;cursor:pointer"
    "<div style=\"margin-top:1.5rem\"><form method=\"post\" action=\"" ++ base ++
      "/accept\" style=\"display:inline\"><button style=\"" ++ button ++
      ";background:#166534\">Accept quotation</button></form> <form method=\"post\" action=\"" ++ base ++
      "/reject\" style=\"display:inline\"><button style=\"" ++ button ++
      ";background:#991b1b\">Reject quotation</button></form></div>"

def documentPage (token : String) (doc : CompanyDocument) : String :=
  let title := doc.doctype ++ " " ++ doc.documentId
  let body := "<p><a href=\"/portal/" ++ encodeSegment token ++ "\">&larr; Back to summary</a></p><h1>" ++
    htmlEscape doc.doctype ++ " " ++ htmlEscape doc.documentId ++ "</h1>" ++ statusLine doc ++
    headerTable doc ++ itemsTable doc ++ totalsBlock doc ++ decisionForms token doc
  page title body

/-! ### What user data leaves in a page -/

/-- A character that ends the text or the quoted attribute it stands in. -/
def isMarkup (c : Char) : Bool := c ∈ ['<', '>', '"', '\x27']

theorem htmlChar_plain (c : Char) : ∀ d ∈ htmlChar c, isMarkup d = false := by
  unfold htmlChar
  split
  case h_6 h₁ h₂ h₃ h₄ h₅ =>
    intro d hd
    obtain rfl := List.mem_singleton.1 hd
    simpa [isMarkup] using ⟨h₂, h₃, h₄, h₅⟩
  all_goals simp [isMarkup]

/-- No escaped value holds markup. -/
theorem htmlEscape_plain (value : String) : ∀ c ∈ (htmlEscape value).toList, isMarkup c = false := by
  intro c hc
  rw [htmlEscape, String.toList_ofList, List.mem_flatMap] at hc
  obtain ⟨d, -, hd⟩ := hc
  exact htmlChar_plain d c hd

theorem isMarkup_of_unreserved {c : Char} (h : isUnreserved c = true) : isMarkup c = false := by
  by_contra hmarkup
  have hmem : c ∈ ['<', '>', '"', '\x27'] := of_decide_eq_true (Bool.eq_true_of_not_eq_false hmarkup)
  have hnone : ∀ d ∈ ['<', '>', '"', '\x27'], isUnreserved d = false := by
    simp [isUnreserved]
  exact Bool.false_ne_true ((hnone c hmem).symm.trans h)

/-- Nor does an encoded id. -/
theorem encodeSegment_plain (value : String) :
    ∀ c ∈ (encodeSegment value).toList, isMarkup c = false := by
  intro c hc
  rw [encodeSegment, String.toList_ofList, List.mem_flatMap] at hc
  obtain ⟨byte, -, hc⟩ := hc
  have hdigit : ∀ n < 16, isMarkup (Nat.digitChar n).toUpper = false := by decide
  have hbyte : byte.toNat < 256 := byte.toNat_lt
  simp only [encodeByte] at hc
  split_ifs at hc with hplain
  · obtain rfl := List.mem_singleton.1 hc
    exact isMarkup_of_unreserved (Bool.and_eq_true_iff.1 hplain).2
  · simp only [List.mem_cons, List.not_mem_nil, or_false] at hc
    rcases hc with rfl | rfl | rfl
    · decide
    · exact hdigit _ (by omega)
    · exact hdigit _ (by omega)

end AtlasTeam
