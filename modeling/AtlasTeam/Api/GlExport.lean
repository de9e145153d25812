import AtlasTeam.Api.PortalView
import AtlasTeam.Lib.Csv

/-!
# The ledger as CSV (`portal.rs`)

`glCsv` is the body an accountant link downloads: a header and a line for each entry, with the texts of the
entry in quotes where they need them. Its only reading is the header and the entries, field by field
(`gl_csv_reads`).
-/

namespace AtlasTeam

/-- `str::replace` of one character. -/
def replaceChar (c : Char) (text s : String) : String :=
  String.ofList (s.toList.flatMap fun d => if d = c then text.toList else [d])

/-- `csv_field`. -/
def csvField (value : String) : String :=
  if ',' ∈ value.toList ∨ '"' ∈ value.toList ∨ '\n' ∈ value.toList ∨ '\r' ∈ value.toList then
    "\"" ++ replaceChar '"' "\"\"" value ++ "\""
  else value

/-- The first line of the export. -/
def glCsvHeader : String :=
  "posting_date,voucher_type,voucher_no,account,debit,credit,party_type,party,is_reversal\n"

/-- The line of an entry; `decimal` renders an amount. -/
def glCsvLine (decimal : ℚ → String) (entry : GlEntry) : String :=
  let row :=
    [csvField entry.postingDate, csvField entry.voucherType, csvField entry.voucherNo,
      csvField entry.account, decimal entry.debit, decimal entry.credit,
      csvField (entry.partyType.getD ""), csvField (entry.party.getD ""), toString entry.isReversal]
  String.intercalate "," row ++ "\n"

/-- The body of `portal_gl_csv`. -/
def glCsv (decimal : ℚ → String) (entries : List GlEntry) : String :=
  entries.foldl (fun csv entry => csv ++ glCsvLine decimal entry) glCsvHeader

/-- `gl_entries_ordered`: by date, voucher and id. -/
def Inner.glEntriesOrdered (inner : Inner) (company : Uuid) : List GlEntry :=
  (inner.glEntries.log company).insertionSort fun a b =>
    toLex (a.postingDate, toLex (a.voucherNo, a.id)) ≤
      toLex (b.postingDate, toLex (b.voucherNo, b.id))

/-- `portal_gl_csv`. -/
def portalGlCsv (codec : Codec) (decimal : ℚ → String) (env : Env) (token : String) (store : PortalStore) :
    Except ApiError String := do
  let link ← resolveLink env.now (AList.lookup (hashToken codec token) store.portalLinks)
  if link.kind ≠ .accountant then throw .notFound
  return glCsv decimal (store.inner.glEntriesOrdered link.companyId)

/-! ### What it reads as -/

/-- The names of the columns. -/
def glColumns : List String :=
  ["posting_date", "voucher_type", "voucher_no", "account", "debit", "credit", "party_type", "party",
    "is_reversal"]

/-- The texts of an entry, column by column. -/
def glFields (decimal : ℚ → String) (entry : GlEntry) : List String :=
  [entry.postingDate, entry.voucherType, entry.voucherNo, entry.account, decimal entry.debit,
    decimal entry.credit, entry.partyType.getD "", entry.party.getD "", toString entry.isReversal]

/-- The amounts of an entry render without commas, quotes and line breaks. -/
def RendersPlain (decimal : ℚ → String) (entry : GlEntry) : Prop :=
  Csv.Plain (decimal entry.debit).toList ∧ Csv.Plain (decimal entry.credit).toList

instance (decimal : ℚ → String) (entry : GlEntry) : Decidable (RendersPlain decimal entry) :=
  inferInstanceAs (Decidable (_ ∧ _))

/-- A text is a field as it is, or in quotes. -/
theorem csvField_isField (value : String) : Csv.IsField (csvField value).toList value := by
  rw [csvField]
  split_ifs with hspecial
  · have htext : ("\"" ++ replaceChar '"' "\"\"" value ++ "\"").toList =
        '"' :: (Csv.doubled value.toList ++ ['"']) := by
      simp only [String.toList_append, replaceChar, String.toList_ofList]
      rfl
    rw [htext]
    exact Csv.isField_quoted value
  · simp only [not_or] at hspecial
    obtain ⟨hcomma, hquote, hlf, hcr⟩ := hspecial
    refine Csv.isField_toList fun c hc => ?_
    exact ⟨fun h => hcomma (h ▸ hc), fun h => hquote (h ▸ hc), fun h => hlf (h ▸ hc),
      fun h => hcr (h ▸ hc)⟩

theorem toString_isField (b : Bool) : Csv.IsField (toString b).toList (toString b) := by
  apply Csv.isField_toList
  cases b with
  | false => decide
  | true => decide

/-- The header is a line of the nine names. -/
theorem glCsvHeader_isRecord :
    ∃ line, glCsvHeader.toList = line ++ ['\n'] ∧ Csv.IsRecord line glColumns := by
  have hplain : ∀ name ∈ glColumns, Csv.Plain name.toList := by decide
  refine ⟨[','].intercalate (glColumns.map String.toList), by decide, ?_⟩
  apply Csv.isRecord_intercalate
  · rw [List.forall₂_map_left_iff, List.forall₂_same]
    intro name hname
    exact Csv.isField_toList (hplain name hname)
  · exact List.cons_ne_nil _ _

/-- The line of an entry has its texts as its fields. -/
theorem glCsvLine_isRecord {decimal : ℚ → String} {entry : GlEntry} (h : RendersPlain decimal entry) :
    ∃ line, (glCsvLine decimal entry).toList = line ++ ['\n'] ∧
      Csv.IsRecord line (glFields decimal entry) := by
  obtain ⟨hdebit, hcredit⟩ := h
  refine ⟨_, by rw [glCsvLine, String.toList_append, String.toList_intercalate]; rfl, ?_⟩
  apply Csv.isRecord_intercalate
  · exact .cons (csvField_isField _) <| .cons (csvField_isField _) <| .cons (csvField_isField _) <|
      .cons (csvField_isField _) <| .cons (Csv.isField_toList hdebit) <|
      .cons (Csv.isField_toList hcredit) <| .cons (csvField_isField _) <| .cons (csvField_isField _) <|
      .cons (toString_isField _) .nil
  · exact List.cons_ne_nil _ _

/-- The body ends every line with a line feed: the header's, then one for each entry. -/
theorem glCsv_isFile {decimal : ℚ → String} {entries : List GlEntry}
    (h : ∀ entry ∈ entries, RendersPlain decimal entry) :
    Csv.IsFile (glCsv decimal entries).toList (glColumns :: entries.map (glFields decimal)) := by
  have hlines : ∀ (csv : String) (text : List Char), csv.toList = text →
      ∃ lines, (entries.foldl (fun csv entry => csv ++ glCsvLine decimal entry) csv).toList =
        text ++ lines.flatMap (fun line => line ++ ['\n']) ∧
        List.Forall₂ Csv.IsRecord lines (entries.map (glFields decimal)) := by
    induction entries with
    | nil =>
      intro csv text htext
      exact ⟨[], by rw [List.foldl_nil, htext, List.flatMap_nil, List.append_nil], .nil⟩
    | cons entry entries ih =>
      intro csv text htext
      obtain ⟨hentry, hentries⟩ := List.forall_mem_cons.1 h
      obtain ⟨line, hline, hrecord⟩ := glCsvLine_isRecord hentry
      obtain ⟨lines, hfold, hrecords⟩ := ih hentries (csv ++ glCsvLine decimal entry) _ rfl
      refine ⟨line :: lines, ?_, .cons hrecord hrecords⟩
      rw [List.foldl_cons, hfold, String.toList_append, htext, hline, List.flatMap_cons, List.append_assoc]
  obtain ⟨header, hheader, hcolumns⟩ := glCsvHeader_isRecord
  obtain ⟨lines, htext, hrecords⟩ := hlines glCsvHeader _ hheader
  rw [glCsv, htext]
  exact Csv.isFile_lines (.cons hcolumns hrecords)

/-- What an accountant link downloads reads as the company's ledger, by date, voucher and id. -/
theorem portalGlCsv_reads {codec : Codec} {decimal : ℚ → String} {env : Env} {token : String}
    {store : PortalStore} {csv : String} (h : portalGlCsv codec decimal env token store = .ok csv)
    (hplain : ∀ company, ∀ entry ∈ store.inner.glEntries.log company, RendersPlain decimal entry) :
    ∃ link, resolveLink env.now (AList.lookup (hashToken codec token) store.portalLinks) = .ok link ∧
      link.kind = .accountant ∧
      (store.inner.glEntriesOrdered link.companyId).Perm (store.inner.glEntries.log link.companyId) ∧
      Csv.read csv =
        some (glColumns :: (store.inner.glEntriesOrdered link.companyId).map (glFields decimal)) := by
  rw [portalGlCsv] at h
  obtain ⟨link, hlink, h⟩ := Except.bind_eq_ok.1 h
  split_ifs at h with hkind
  · exact nomatch h
  have hcsv : glCsv decimal (store.inner.glEntriesOrdered link.companyId) = csv := Except.ok.inj h
  have hperm : (store.inner.glEntriesOrdered link.companyId).Perm
      (store.inner.glEntries.log link.companyId) := List.perm_insertionSort _ _
  refine ⟨link, hlink, not_not.1 hkind, hperm, ?_⟩
  rw [← hcsv]
  apply Csv.read_of_isFile
  exact glCsv_isFile fun entry hentry => hplain link.companyId entry (hperm.mem_iff.1 hentry)

/-- An RFC 4180 reader finds the header and one record for each entry, of nine fields, each the entry's text;
and no other reading of the body exists. -/
theorem gl_csv_reads (decimal : ℚ → String) (entries : List GlEntry)
    (h : ∀ entry ∈ entries, RendersPlain decimal entry) :
    Csv.read (glCsv decimal entries) = some (glColumns :: entries.map (glFields decimal)) ∧
      (∀ record ∈ glColumns :: entries.map (glFields decimal), record.length = 9) ∧
      ∀ records, Csv.IsFile (glCsv decimal entries).toList records ↔
        records = glColumns :: entries.map (glFields decimal) := by
  have hfile := glCsv_isFile h
  refine ⟨Csv.read_of_isFile hfile, ?_, fun records => ?_⟩
  · refine List.forall_mem_cons.2 ⟨rfl, fun record hrecord => ?_⟩
    obtain ⟨entry, -, rfl⟩ := List.mem_map.1 hrecord
    rfl
  · exact ⟨fun hrecords => Csv.isFile_unique hrecords hfile, fun hrecords => hrecords ▸ hfile⟩

def exportEntry (voucherNo account : String) (debit : ℚ) (party : Option String) : GlEntry :=
  { id := voucherNo, companyId := 1, account, debit, credit := 0, partyType := party.map fun _ => "Customer",
    party, costCenter := none, voucherType := "Sales Invoice", voucherNo, postingDate := "2026-01-31",
    currency := none, conversionRate := none, baseDebit := none, baseCredit := none, isReversal := false,
    batchId := "b-1" }

def exportEntries : List GlEntry :=
  [exportEntry "SI-1" "Debtors, trade" 118 (some "\"Akt\"\r\nLtd"), exportEntry "" "\"" 0 none,
    exportEntry "SI-2\r" "Sales\n" 20 (some "")]

/-- A whole amount as Rust prints it. -/
def wholeText (amount : ℚ) : String := toString amount.num

theorem gl_csv_reads_quoted :
    Csv.read (glCsv wholeText exportEntries) = some
      [glColumns,
        ["2026-01-31", "Sales Invoice", "SI-1", "Debtors, trade", "118", "0", "Customer",
          "\"Akt\"\r\nLtd", "false"],
        ["2026-01-31", "Sales Invoice", "", "\"", "0", "0", "", "", "false"],
        ["2026-01-31", "Sales Invoice", "SI-2\r", "Sales\n", "20", "0", "Customer", "", "false"]] :=
  (gl_csv_reads wholeText exportEntries (by decide +kernel)).1.trans (by decide +kernel)

end AtlasTeam
