import Mathlib

/-!
# Snapshot and commit

Commands that read a shared state in one step and write it in a later one, with any other steps in
between. A `Protocol` says what can be built from a state, what committing a draft does to the state
it meets and what else moves the state; a `Config` holds the state and the drafts in flight, each
with the state it was built from.

The rule (`Rule`) for an invariant `I` of the state and a preorder `R` of its growth asks one
question about a commit: a draft built from an earlier state that satisfied `I` meets a later state
that satisfies `I`. `Rule.run` and `Rule.reachable` carry it to every run, and `Rule.and`
adds a second invariant to a rule.
-/

namespace Snapshot

structure Protocol (B D : Type) where
  /-- The draft can be built from the state. -/
  Build : B → D → Prop
  /-- Committing the draft takes the first state to the second. -/
  Commit : D → B → B → Prop
  /-- A step that commits no draft. -/
  Other : B → B → Prop

structure Config (B D : Type) where
  state : B
  /-- The drafts in flight, with the states they were built from. -/
  drafts : Set (B × D)

variable {B D : Type} {p : Protocol B D}

inductive Step (p : Protocol B D) : Config B D → Config B D → Prop
  | build {b : B} {d : D} {ds : Set (B × D)} : p.Build b d → Step p ⟨b, ds⟩ ⟨b, insert (b, d) ds⟩
  | commit {b b' b₀ : B} {d : D} {ds : Set (B × D)} :
      (b₀, d) ∈ ds → p.Commit d b b' → Step p ⟨b, ds⟩ ⟨b', ds⟩
  | other {b b' : B} {ds : Set (B × D)} : p.Other b b' → Step p ⟨b, ds⟩ ⟨b', ds⟩

/-- Any number of steps. -/
def Run (p : Protocol B D) : Config B D → Config B D → Prop := Relation.ReflTransGen (Step p)

/-- An invariant and a growth order that every step keeps. -/
structure Rule (p : Protocol B D) (I : B → Prop) (R : B → B → Prop) : Prop where
  refl : ∀ b, R b b
  trans : ∀ {a b c}, R a b → R b c → R a c
  commit : ∀ {b₀ b b' d}, I b₀ → R b₀ b → I b → p.Build b₀ d → p.Commit d b b' → I b' ∧ R b b'
  other : ∀ {b b'}, I b → p.Other b b' → I b' ∧ R b b'

/-- The state satisfies the invariant and every draft in flight was built from an earlier state
that did. -/
structure Good (p : Protocol B D) (I : B → Prop) (R : B → B → Prop) (c : Config B D) : Prop where
  state : I c.state
  drafts : ∀ {b₀ d}, (b₀, d) ∈ c.drafts → I b₀ ∧ R b₀ c.state ∧ p.Build b₀ d

variable {I : B → Prop} {R : B → B → Prop}

/-- Drafts in flight stay good when the state grows. -/
theorem Good.grow (rule : Rule p I R) {b b' : B} {ds : Set (B × D)} (h : Good p I R ⟨b, ds⟩)
    (hI : I b') (hR : R b b') : Good p I R ⟨b', ds⟩ where
  state := hI
  drafts hd :=
    let ⟨hI₀, hR₀, hbuild⟩ := h.drafts hd
    ⟨hI₀, rule.trans hR₀ hR, hbuild⟩

namespace Rule

theorem step (rule : Rule p I R) {c c' : Config B D} (h : Good p I R c) (hstep : Step p c c') :
    Good p I R c' ∧ R c.state c'.state := by
  cases hstep with
  | build hbuild =>
    refine ⟨⟨h.state, fun hd => ?_⟩, rule.refl _⟩
    rcases Set.mem_insert_iff.1 hd with heq | hd
    · obtain ⟨rfl, rfl⟩ := Prod.mk.inj heq
      exact ⟨h.state, rule.refl _, hbuild⟩
    · exact h.drafts hd
  | commit hd hcommit =>
    obtain ⟨hI₀, hR₀, hbuild⟩ := h.drafts hd
    obtain ⟨hI, hR⟩ := rule.commit hI₀ hR₀ h.state hbuild hcommit
    exact ⟨h.grow rule hI hR, hR⟩
  | other hother =>
    obtain ⟨hI, hR⟩ := rule.other h.state hother
    exact ⟨h.grow rule hI hR, hR⟩

/-- What every step keeps, every run keeps. -/
theorem run (rule : Rule p I R) {c c' : Config B D} (h : Good p I R c) (hrun : Run p c c') :
    Good p I R c' ∧ R c.state c'.state := by
  induction hrun with
  | refl => exact ⟨h, rule.refl _⟩
  | tail _ hstep ih =>
    obtain ⟨hgood, hR⟩ := ih
    obtain ⟨hgood', hR'⟩ := rule.step hgood hstep
    exact ⟨hgood', rule.trans hR hR'⟩

/-- A second invariant on top of a rule. -/
theorem and (rule : Rule p I R) {J : B → Prop}
    (hcommit : ∀ {b₀ b b' d}, I b₀ → J b₀ → R b₀ b → I b → J b → p.Build b₀ d → p.Commit d b b' → J b')
    (hother : ∀ {b b'}, I b → J b → p.Other b b' → J b') : Rule p (fun b => I b ∧ J b) R where
  refl := rule.refl
  trans := rule.trans
  commit h₀ hR h hbuild hstep :=
    let ⟨hI, hR'⟩ := rule.commit h₀.1 hR h.1 hbuild hstep
    ⟨⟨hI, hcommit h₀.1 h₀.2 hR h.1 h.2 hbuild hstep⟩, hR'⟩
  other h hstep :=
    let ⟨hI, hR'⟩ := rule.other h.1 hstep
    ⟨⟨hI, hother h.1 h.2 hstep⟩, hR'⟩

theorem reachable (rule : Rule p I R) {b : B} {c : Config B D} (hI : I b)
    (hrun : Run p ⟨b, ∅⟩ c) : Good p I R c :=
  (rule.run ⟨hI, fun hd => absurd hd (Set.notMem_empty _)⟩ hrun).1

end Rule

end Snapshot
