import AtlasTeam.F64.Engine
import AtlasTeam.Store.OpeningPosition

/-!
# Group accounts

A submit checks the account of every leg once the last one is there, so none of its legs is on a group account.
A take-on only asks that the accounts of its lines are on the server: its legs are on the accounts of the
lines, and these are as they are (`group_accounts_iff`).
-/

namespace AtlasTeam

/-- The account's master says that it is a group. -/
def IsGroupAccount (view : StoreView) (companyId : Uuid) (account : String) : Prop :=
  ∃ doc, view.companyDocument companyId "Account" account = some doc ∧
    isTrue (doc.payload.get "is_group") = true

/-- A leg may be on the account: it has a name and is no group. -/
def MayPostTo (view : StoreView) (companyId : Uuid) (account : String) : Prop :=
  account ≠ "" ∧ ¬ IsGroupAccount view companyId account

section Check
variable {view : StoreView} {companyId : Uuid}

/-- An account the check goes on from without a group may be posted to. -/
theorem checkAccount_nil {groups : List String} {account : String}
    (h : checkAccount view companyId groups account = .ok []) :
    groups = [] ∧ MayPostTo view companyId account := by
  unfold checkAccount at h
  split_ifs at h with hempty
  cases hdoc : view.companyDocument companyId "Account" account with
  | none =>
    rw [hdoc] at h
    refine ⟨Except.ok.inj h, hempty, ?_⟩
    rintro ⟨doc, hfound, -⟩
    rw [hdoc] at hfound
    cases hfound
  | some doc =>
    rw [hdoc] at h
    have hgroups := Except.ok.inj h
    split_ifs at hgroups with hgroup
    · exact absurd hgroups (List.append_ne_nil_of_right_ne_nil _ (List.cons_ne_nil _ _))
    · refine ⟨hgroups, hempty, ?_⟩
      rintro ⟨doc', hfound, htrue⟩
      obtain rfl := Option.some.inj (hdoc.symm.trans hfound)
      exact hgroup htrue

/-- A check that ends without a group has seen only accounts that may be posted to. -/
theorem checkAccounts_ok {accounts : List String}
    (h : accounts.foldlM (checkAccount view companyId) [] = .ok []) :
    ∀ account ∈ accounts, MayPostTo view companyId account := by
  refine @Except.foldlM_ok_walk _ _ _ (checkAccount view companyId)
    (fun done groups => groups = [] → ∀ account ∈ done, MayPostTo view companyId account) ?_
    accounts [] [] h [] (fun _ account hmem => absurd hmem List.not_mem_nil) rfl
  rintro done groups account groups' hcheck hdone rfl seen hseen
  obtain ⟨rfl, hpost⟩ := checkAccount_nil hcheck
  rcases List.mem_append.1 hseen with hseen | hseen
  · exact hdone rfl seen hseen
  · obtain rfl := List.mem_singleton.1 hseen
    exact hpost

/-- The check that a list of legs goes through, by their accounts. -/
theorem groupCheck_ok {accounts : List String} {reason : List String → PostingError}
    (h : (do
      let groups ← (sortDedup accounts).foldlM (checkAccount view companyId) []
      if groups ≠ [] then throw (reason groups) : Except PostingError Unit) = .ok ()) :
    ∀ account ∈ accounts, MayPostTo view companyId account := by
  obtain ⟨groups, hgroups, hnone⟩ := Except.bind_eq_ok.1 h
  intro account hmem
  by_cases hempty : groups = []
  · subst hempty
    exact checkAccounts_ok hgroups account (mem_sortDedup hmem)
  · rw [if_pos hempty] at hnone
    cases hnone

theorem checkGroupAccounts_ok {gl : List GlEntry} (h : checkGroupAccounts view companyId gl = .ok ()) :
    ∀ leg ∈ gl, MayPostTo view companyId leg.account :=
  fun leg hleg => groupCheck_ok h leg.account (List.mem_map_of_mem hleg)

theorem F64.checkGroupAccounts_ok {gl : List F64.GlEntry}
    (h : F64.checkGroupAccounts view companyId gl = .ok ()) :
    ∀ leg ∈ gl, MayPostTo view companyId leg.account :=
  fun leg hleg => groupCheck_ok h leg.account (List.mem_map_of_mem hleg)

end Check

/-! ### The legs of a submit -/

section Submit
variable {codec : Codec} {view : StoreView} {env : Env} {companyId : Uuid} {cmd : SubmitCommand}
  {documentId : String} {actor : Actor}

/-- No leg of an accepted submit is on a group account. -/
theorem buildSubmit_mayPost {commit : PostingCommit}
    (h : buildSubmit codec view env companyId cmd documentId actor = .ok commit) :
    ∀ leg ∈ commit.glEntries, MayPostTo view companyId leg.account := by
  simp only [buildSubmit, Except.bind_eq_ok, Except.pure_eq_ok] at h
  obtain ⟨prepared, -, -, -, ⟨⟩, hgroups, shortfalls, -, ⟨settlements, updates⟩, -, rfl⟩ := h
  exact checkGroupAccounts_ok hgroups

/-- The same with every number as an f64. -/
theorem F64.buildSubmit_mayPost {commit : F64.PostingCommit}
    (h : F64.buildSubmit codec view env companyId cmd documentId actor = .ok commit) :
    ∀ leg ∈ commit.glEntries, MayPostTo view companyId leg.account := by
  simp only [F64.buildSubmit, Except.bind_eq_ok, Except.pure_eq_ok] at h
  obtain ⟨prepared, -, -, -, ⟨⟩, hgroups, -, -, ⟨settlements, updates⟩, -, rfl⟩ := h
  exact F64.checkGroupAccounts_ok hgroups

end Submit

/-! ### The legs of a take-on -/

section Opening
variable {codec : Codec} {view : StoreView} {env : Env} {companyId : Uuid} {cmd : SoloOpeningCommand}
  {sha : String} {actor : Actor} {commit : PostingCommit}

/-- A line that passes names an account. -/
theorem checkOpeningLine_account {parties parties' : List (String × String)} {entry : OpeningLine × Nat}
    (h : checkOpeningLine parties entry = .ok parties') : trim entry.1.account ≠ "" := by
  intro hempty
  simp only [checkOpeningLine, hempty] at h
  cases h

/-- The legs of a take-on are on the accounts of its lines, each of which has a name. -/
theorem buildOpening_accounts (h : buildOpening codec view env companyId cmd sha actor = .ok commit) :
    commit.glEntries.map GlEntry.account = cmd.lines.map (fun line => trim line.account) ∧
      ∀ line ∈ cmd.lines, trim line.account ≠ "" := by
  obtain ⟨postingDate, stock, continuations, -, ⟨parties, hparties⟩, -, -, -, -, -, -, -, -, rfl⟩ :=
    buildOpening_checked h
  constructor
  · calc (cmd.lines.zipIdx.map (openingGl (openingContext companyId cmd postingDate))).map GlEntry.account
        = (cmd.lines.zipIdx.map Prod.fst).map fun line => trim line.account := by
          rw [List.map_map, List.map_map]
          rfl
      _ = cmd.lines.map fun line => trim line.account := by rw [List.zipIdx_map_fst]
  · have hlines := @Except.foldlM_ok_walk _ _ _ checkOpeningLine
      (fun done _ => ∀ entry ∈ done, trim (Prod.fst entry).account ≠ "") ?_ _ _ _ hparties []
      fun _ hmem => absurd hmem List.not_mem_nil
    · intro line hline
      rw [← List.zipIdx_map_fst 0 cmd.lines] at hline
      obtain ⟨entry, hentry, rfl⟩ := List.mem_map.1 hline
      exact hlines entry hentry
    · rintro done parties entry parties' hcheck hdone seen hseen
      rcases List.mem_append.1 hseen with hseen | hseen
      · exact hdone seen hseen
      · obtain rfl := List.mem_singleton.1 hseen
        exact checkOpeningLine_account hcheck

end Opening

/-- No leg of an accepted submit is on a group account, nor on one without a name; and a take-on's legs have
accounts with names, none of them a group if and only if no line's account is one. -/
theorem group_accounts_iff (codec : Codec) (view : StoreView) (env : Env) (companyId : Uuid) (actor : Actor) :
    (∀ cmd documentId commit, buildSubmit codec view env companyId cmd documentId actor = .ok commit →
      ∀ leg ∈ commit.glEntries, MayPostTo view companyId leg.account) ∧
    (∀ cmd documentId commit, F64.buildSubmit codec view env companyId cmd documentId actor = .ok commit →
      ∀ leg ∈ commit.glEntries, MayPostTo view companyId leg.account) ∧
    ∀ cmd sha commit, buildOpening codec view env companyId cmd sha actor = .ok commit →
      (∀ leg ∈ commit.glEntries, leg.account ≠ "") ∧
      ((∀ leg ∈ commit.glEntries, MayPostTo view companyId leg.account) ↔
        ∀ line ∈ cmd.lines, ¬ IsGroupAccount view companyId (trim line.account)) := by
  refine ⟨fun _ _ _ => buildSubmit_mayPost, fun _ _ _ => F64.buildSubmit_mayPost, ?_⟩
  intro cmd sha commit h
  obtain ⟨haccounts, hnamed⟩ := buildOpening_accounts h
  have hlegs : ∀ P : String → Prop, (∀ leg ∈ commit.glEntries, P leg.account) ↔
      ∀ line ∈ cmd.lines, P (trim line.account) := by
    intro P
    rw [← List.forall_mem_map (P := P), haccounts, List.forall_mem_map]
  refine ⟨(hlegs (· ≠ "")).2 hnamed, (hlegs _).trans (forall₂_congr fun line hline => ?_)⟩
  exact and_iff_right (hnamed line hline)

/-! ### A chart with a group -/

/-- The masters of a company whose account for assets is a group. -/
def assetMasters : Inner :=
  let env : Env := ⟨0, "2026-01-05", 0⟩
  let publish (name : String) (group : Int) : MutationRecord :=
    { id := "Account-" ++ name
      mutationType := .createDocument
      docType := "Account"
      documentId := name
      payload := [("is_group", .int group)]
      deviceId := "device-5"
      userId := "user-7"
      localTimestamp := 0
      syncVersion := none
      status := .pending }
  (memRun serdeCodec [.operate (.pushMutations 1 [publish "Assets" 1, publish "Cash" 0,
    publish "Equity" 0]) env]).book.store

/-- A take-on of a hundred on an account. -/
def openingOn (account : String) : SoloOpeningCommand where
  migrationId := "solo-assets"
  postingDate := "2026-01-01"
  source := .obj []
  lines := [⟨account, 100, 0, none, none⟩, ⟨"Equity", 0, 100, none, none⟩]
  stock := []
  numbering := []
  expected :=
    { trialBalance := SortedMap.empty |>.put account 100 |>.put "Equity" (-100)
      receivables := 0
      payables := 0
      stockValue := 0 }

/-- The build of it. -/
def assetBuild (account : String) : Except PostingError PostingCommit :=
  buildOpening serdeCodec assetMasters.view ⟨1, "2026-01-05", 0⟩ 1 (openingOn account) "sha"
    ⟨some 7, some 5, none⟩

/-- Onto cash it goes. -/
theorem group_accounts_iff_cash : ∃ commit, assetBuild "Cash" = .ok commit ∧
    ∀ leg ∈ commit.glEntries, MayPostTo assetMasters.view 1 leg.account := by
  have hbuilds : (assetBuild "Cash").toOption.isSome = true := by decide +kernel
  obtain ⟨commit, hbuild⟩ := Except.isSome_toOption.1 hbuilds
  refine ⟨commit, hbuild, ((group_accounts_iff serdeCodec assetMasters.view ⟨1, "2026-01-05", 0⟩ 1
    ⟨some 7, some 5, none⟩).2.2 (openingOn "Cash") "sha" commit hbuild).2.2 ?_⟩
  have hgroups : ∀ line ∈ (openingOn "Cash").lines, ∀ doc ∈ assetMasters.view.companyDocument 1 "Account"
      (trim line.account), isTrue (doc.payload.get "is_group") = false := by decide +kernel
  rintro line hline ⟨doc, hdoc, hgroup⟩
  rw [hgroups line hline doc hdoc] at hgroup
  cases hgroup

/-- Onto the group it goes as well. -/
theorem opening_on_group : ∃ commit, assetBuild "Assets" = .ok commit ∧
    ∃ leg ∈ commit.glEntries, IsGroupAccount assetMasters.view 1 leg.account := by
  have hbuilds : (assetBuild "Assets").toOption.map (fun commit => commit.glEntries.map GlEntry.account) =
      some ["Assets", "Equity"] := by decide +kernel
  have hgroup : (assetMasters.view.companyDocument 1 "Account" "Assets").map (fun doc =>
      isTrue (doc.payload.get "is_group")) = some true := by decide +kernel
  obtain ⟨commit, hbuild, haccounts⟩ := Except.map_toOption.1 hbuilds
  obtain ⟨doc, hdoc, htrue⟩ := Option.map_eq_some_iff.1 hgroup
  have hmem : "Assets" ∈ commit.glEntries.map GlEntry.account := by
    rw [haccounts]
    exact List.mem_cons_self
  obtain ⟨leg, hleg, haccount⟩ := List.mem_map.1 hmem
  exact ⟨commit, hbuild, leg, hleg, doc, haccount ▸ hdoc, htrue⟩

end AtlasTeam
