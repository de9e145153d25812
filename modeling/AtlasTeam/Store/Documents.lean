import AtlasTeam.Lib.TableSum
import AtlasTeam.Posting.Settlements
import AtlasTeam.Store.Commit

/-!
# Official documents under a commit

A commit writes its own document and the outstanding amounts of the invoices it touches.
`PostedDocument.frozen` is what an outstanding update leaves alone, and `lookup_written` says what
stands under every key after a commit, up to the outstanding amount.
-/

namespace AtlasTeam

/-- A JSON value without one of its fields. -/
def Value.withoutField (v : Value) (key : String) : Value :=
  match v with
  | .object m => .object (Map.remove m key)
  | other => other

theorem Map.remove_insert_self (m : Map) (key : String) (v : Value) :
    (m.insert key v).remove key = m.remove key := by
  induction m with
  | nil => simp [Map.insert, Map.remove, SortedMap.Raw.put, SortedMap.Raw.drop]
  | cons e m ih =>
    obtain ⟨k, w⟩ := e
    simp only [Map.insert, Map.remove, SortedMap.Raw.drop, SortedMap.Raw.put] at ih ⊢
    split_ifs with heq hlt
    · simp [heq]
    · simp
    · simp only [List.filter_cons, ih]

@[simp] theorem Value.withoutField_setField (v x : Value) (key : String) :
    (v.setField key x).withoutField key = v.withoutField key := by
  cases v with
  | object m => simp only [Value.setField, Value.withoutField, Map.remove_insert_self]
  | _ => rfl

theorem Value.get_withoutField_ne (v : Value) {key key' : String} (h : key' ≠ key) :
    (v.withoutField key).get key' = v.get key' := by
  cases v with
  | object m => exact Map.get_remove_ne m h
  | _ => rfl

namespace Inner

/-- A document up to its outstanding amount. -/
def frozen (doc : PostedDocument) : PostedDocument :=
  { doc with payload := doc.payload.withoutField "outstanding_amount" }

theorem frozen_officialNumber_eq {doc doc' : PostedDocument} (h : frozen doc = frozen doc') :
    doc.officialNumber = doc'.officialNumber := by
  have hfield := congrArg PostedDocument.officialNumber h
  exact hfield

@[simp] theorem frozen_withOutstanding (doc : PostedDocument) (outstanding : ℚ) :
    frozen (withOutstanding doc outstanding) = frozen doc := by
  simp [frozen, withOutstanding]

/-- Outstanding updates leave every document as it is, up to its outstanding amount. -/
theorem lookup_writeOutstandings (company : Uuid) (updates : List (String × String × ℚ))
    (acc : List PostedDocument × Documents) (key : Uuid × String × String) :
    (AList.lookup key (updates.foldl (writeOutstanding company) acc).2).map frozen =
      (AList.lookup key acc.2).map frozen := by
  induction updates generalizing acc with
  | nil => rfl
  | cons update updates ih =>
    rw [List.foldl_cons, ih]
    obtain ⟨touched, documents⟩ := acc
    obtain ⟨doctype, id, outstanding⟩ := update
    simp only [writeOutstanding]
    cases hdoc : AList.lookup (company, doctype, id) documents with
    | none => rfl
    | some doc =>
      by_cases hkey : key = (company, doctype, id)
      · subst hkey
        simp [AList.lookup_insert, hdoc]
      · simp only [AList.lookup_insert_ne hkey]

/-- A document no update is for stays as it is. -/
theorem lookup_writeOutstandings_of_ne {company : Uuid} {updates : List (String × String × ℚ)}
    {key : Uuid × String × String} (h : ∀ update ∈ updates, key ≠ (company, updateKey update))
    (acc : List PostedDocument × Documents) :
    AList.lookup key (updates.foldl (writeOutstanding company) acc).2 = AList.lookup key acc.2 := by
  induction updates generalizing acc with
  | nil => rfl
  | cons update updates ih =>
    obtain ⟨hfirst, hrest⟩ := List.forall_mem_cons.1 h
    rw [List.foldl_cons, ih hrest]
    obtain ⟨touched, documents⟩ := acc
    simp only [writeOutstanding]
    split
    · exact AList.lookup_insert_ne hfirst
    · rfl

/-- A document one update is for has the outstanding amount of the update. -/
theorem lookup_writeOutstandings_of_mem {company : Uuid} {updates : List (String × String × ℚ)}
    (hnodup : (updates.map updateKey).Nodup) {update : String × String × ℚ}
    (hupdate : update ∈ updates) {acc : List PostedDocument × Documents} {doc : PostedDocument}
    (hdoc : AList.lookup (company, updateKey update) acc.2 = some doc) :
    AList.lookup (company, updateKey update) (updates.foldl (writeOutstanding company) acc).2 =
      some (withOutstanding doc update.2.2) := by
  induction updates generalizing acc with
  | nil => exact absurd hupdate List.not_mem_nil
  | cons first updates ih =>
    rw [List.map_cons, List.nodup_cons] at hnodup
    obtain ⟨touched, documents⟩ := acc
    obtain ⟨doctype, id, outstanding⟩ := first
    rw [List.foldl_cons]
    rcases List.mem_cons.1 hupdate with rfl | hupdate
    · have hlookup : AList.lookup (company, doctype, id) documents = some doc := hdoc
      have hothers : ∀ other ∈ updates,
          (company, updateKey (doctype, id, outstanding)) ≠ (company, updateKey other) :=
        fun other hother heq => hnodup.1 (List.mem_map.2 ⟨other, hother, (Prod.mk.inj heq).2.symm⟩)
      rw [lookup_writeOutstandings_of_ne hothers]
      simp only [writeOutstanding, hlookup]
      exact AList.lookup_insert _
    · refine ih hnodup.2 hupdate ?_
      have hne : (company, updateKey update) ≠ (company, doctype, id) := by
        intro heq
        refine hnodup.1 (List.mem_map.2 ⟨update, hupdate, ?_⟩)
        exact (Prod.mk.inj heq).2
      simp only [writeOutstanding]
      split
      · rw [AList.lookup_insert_ne hne]
        exact hdoc
      · exact hdoc

/-- What stands under a key after a commit. -/
theorem lookup_written (commit : PostingCommit) (inner : Inner) (key : Uuid × String × String) :
    (AList.lookup key (writtenDocuments commit inner)).map frozen =
      if key = docKey commit then some (frozen (numberedDocument commit inner))
      else (AList.lookup key inner.documents).map frozen := by
  rw [writtenDocuments, writeOutstandings, lookup_writeOutstandings]
  split_ifs with hkey
  · subst hkey
    rw [AList.lookup_insert, Option.map_some]
  · rw [AList.lookup_insert_ne hkey]

theorem lookup_written_self (commit : PostingCommit) (inner : Inner) :
    ∃ doc, AList.lookup (docKey commit) (writtenDocuments commit inner) = some doc ∧
      frozen doc = frozen (numberedDocument commit inner) := by
  have h := lookup_written commit inner (docKey commit)
  rw [if_pos rfl] at h
  exact Option.map_eq_some_iff.1 h

theorem lookup_written_ne {commit : PostingCommit} {inner : Inner} {key : Uuid × String × String}
    (hkey : key ≠ docKey commit) {doc : PostedDocument}
    (h : AList.lookup key (writtenDocuments commit inner) = some doc) :
    ∃ doc₀, AList.lookup key inner.documents = some doc₀ ∧ frozen doc₀ = frozen doc := by
  have hmap := lookup_written commit inner key
  rw [if_neg hkey, h, Option.map_some] at hmap
  exact Option.map_eq_some_iff.1 hmap.symm

/-- A document that stands there after a commit is the one it wrote, or it stood there before. -/
theorem lookup_written_cases {commit : PostingCommit} {inner : Inner} {key : Uuid × String × String}
    {doc : PostedDocument} (h : AList.lookup key (writtenDocuments commit inner) = some doc) :
    (key = docKey commit ∧ frozen doc = frozen (numberedDocument commit inner)) ∨
    (key ≠ docKey commit ∧
      ∃ doc₀, AList.lookup key inner.documents = some doc₀ ∧ frozen doc = frozen doc₀) := by
  by_cases hkey : key = docKey commit
  · subst hkey
    obtain ⟨doc', hdoc', hfrozen⟩ := lookup_written_self commit inner
    obtain rfl := Option.some.inj (hdoc'.symm.trans h)
    exact .inl ⟨rfl, hfrozen⟩
  · obtain ⟨doc₀, hdoc₀, hfrozen⟩ := lookup_written_ne hkey h
    exact .inr ⟨hkey, doc₀, hdoc₀, hfrozen.symm⟩

/-- A sum over the documents that does not look at outstanding amounts, before and after a commit. -/
theorem total_written {M : Type} [AddCommMonoid M] (weigh : Uuid × String × String → PostedDocument → M)
    (hfrozen : ∀ key doc doc', frozen doc = frozen doc' → weigh key doc = weigh key doc')
    (commit : PostingCommit) (inner : Inner) :
    TableSum.total weigh (writtenDocuments commit inner) +
        TableSum.weight weigh inner.documents (docKey commit) =
      TableSum.total weigh inner.documents + weigh (docKey commit) (numberedDocument commit inner) := by
  have hweight : ∀ documents documents' : Documents, ∀ key,
      (AList.lookup key documents').map frozen = (AList.lookup key documents).map frozen →
      TableSum.weight weigh documents' key = TableSum.weight weigh documents key := by
    intro documents documents' key hmap
    rw [TableSum.weight, TableSum.weight]
    cases hnew : AList.lookup key documents' with
    | none =>
      cases hold : AList.lookup key documents with
      | none => rfl
      | some doc => simp [hnew, hold] at hmap
    | some doc' =>
      cases hold : AList.lookup key documents with
      | none => simp [hnew, hold] at hmap
      | some doc =>
        rw [hnew, hold, Option.map_some, Option.map_some] at hmap
        exact hfrozen key doc' doc (Option.some.inj hmap)
  have hself : TableSum.weight weigh (writtenDocuments commit inner) (docKey commit) =
      weigh (docKey commit) (numberedDocument commit inner) := by
    obtain ⟨doc, hdoc, hsame⟩ := lookup_written_self commit inner
    rw [TableSum.weight, hdoc, Option.elim_some, hfrozen _ _ _ hsame]
  rw [← hself]
  refine TableSum.total_add_weight fun key hkey => hweight _ _ key ?_
  rw [lookup_written, if_neg hkey]

/-- Numbering changes only the number of a document. -/
theorem numberedDocument_eq (commit : PostingCommit) (inner : Inner) :
    numberedDocument commit inner =
      { commit.document with officialNumber := (numberedDocument commit inner).officialNumber } := by
  cases hpre : commit.preassignedNumber <;> cases hkey : commit.seriesKey <;>
    simp [numberedDocument, allocateNumber, stampNumber, hpre, hkey]

theorem numberedDocument_payload (commit : PostingCommit) (inner : Inner) :
    (numberedDocument commit inner).payload = commit.document.payload := by
  rw [numberedDocument_eq]

end Inner

end AtlasTeam
