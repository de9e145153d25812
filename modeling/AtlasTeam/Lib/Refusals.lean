import Mathlib

/-!
# What a fallible computation refuses with

`Except.RefusesWith P x` says that whatever error `x` ends in satisfies `P`; a computation that succeeds
refuses with nothing. The rules follow the constructs of a `do` block: `ok` and `throw`, `bind`, a branch,
and the loops `foldlM` and `forM`. `Refused Q x` says that `x` does end in such an error; a step that never
does can be taken off a block on either side (`refused_bind_left`, `refused_bind_right`).
-/

namespace Except
variable {ε α β : Type} {P : ε → Prop}

/-- Every error of `x` satisfies `P`. -/
def RefusesWith (P : ε → Prop) (x : Except ε α) : Prop := ∀ e, x = .error e → P e

namespace RefusesWith

theorem ok (a : α) : RefusesWith P (.ok a) := fun _ h => Except.noConfusion rfl rfl (heq_of_eq h)

theorem error {e : ε} (h : P e) : RefusesWith P (.error e : Except ε α) := by
  intro e' he'
  cases he'
  exact h

theorem bind {x : Except ε α} {f : α → Except ε β} (hx : RefusesWith P x)
    (hf : ∀ a, x = .ok a → RefusesWith P (f a)) : RefusesWith P (x >>= f) := by
  intro e he
  cases h : x with
  | error e' =>
    rw [h] at he
    cases he
    exact hx e h
  | ok a =>
    rw [h] at he
    exact hf a h e he

theorem ite {c : Prop} [Decidable c] {x y : Except ε α} (hx : c → RefusesWith P x)
    (hy : ¬ c → RefusesWith P y) : RefusesWith P (if c then x else y) := by
  split_ifs with h
  · exact hx h
  · exact hy h

theorem throw {e : ε} (h : P e) : RefusesWith P (throw e : Except ε α) := error h

/-- A refusal in the middle of a block, and the rest of the block. -/
theorem refusal {c : Prop} [Decidable c] {e : ε} {f : β → Except ε α} {y : Except ε α} (he : c → P e)
    (hy : ¬ c → RefusesWith P y) : RefusesWith P (if c then (MonadExcept.throw e >>= f) else y) :=
  ite (fun hc => (throw (he hc)).bind fun _ h => Except.noConfusion rfl rfl (heq_of_eq h)) hy

theorem foldlM {f : β → α → Except ε β} {xs : List α} (h : ∀ b, ∀ x ∈ xs, RefusesWith P (f b x)) (b : β) :
    RefusesWith P (xs.foldlM f b) := by
  induction xs generalizing b with
  | nil => exact ok b
  | cons x xs ih =>
    rw [List.foldlM_cons]
    exact (h b x List.mem_cons_self).bind fun b' _ =>
      ih (fun b x hx => h b x (List.mem_cons_of_mem _ hx)) b'

theorem forM {f : α → Except ε Unit} {xs : List α} (h : ∀ x ∈ xs, RefusesWith P (f x)) :
    RefusesWith P (xs.forM f) := by
  induction xs with
  | nil => exact ok ()
  | cons x xs ih =>
    have hcons : (x :: xs).forM f = f x >>= fun _ => xs.forM f := rfl
    rw [hcons]
    exact (h x List.mem_cons_self).bind fun _ _ => ih fun x hx => h x (List.mem_cons_of_mem _ hx)

end RefusesWith

/-- The computation ends in an error that satisfies `Q`. -/
def Refused (Q : ε → Prop) (x : Except ε α) : Prop := ∃ e, x = .error e ∧ Q e

section Refused
variable {Q : ε → Prop} {x : Except ε α} {f : α → Except ε β}

/-- The error of a computation that fails. -/
def errorOf : Except ε α → Option ε
  | .ok _ => none
  | .error e => some e

theorem refused_of_errorOf {e : ε} (h : x.errorOf = some e) (hq : Q e) : Refused Q x := by
  cases x with
  | ok a => cases h
  | error e' =>
    obtain rfl := Option.some.inj h
    exact ⟨e', rfl, hq⟩

theorem refusesWith_not_iff : RefusesWith (fun e => ¬ Q e) x ↔ ¬ Refused Q x :=
  ⟨fun h ⟨e, he, hq⟩ => h e he hq, fun h e he hq => h ⟨e, he, hq⟩⟩

/-- A computation all of whose errors satisfy `Q` is refused so unless it succeeds. -/
theorem RefusesWith.refused_iff {x : Except ε α} (h : RefusesWith Q x) : Refused Q x ↔ ∀ a, x ≠ .ok a := by
  cases x with
  | error e =>
    refine ⟨?_, fun _ => ⟨e, rfl, h e rfl⟩⟩
    rintro - a ha
    cases ha
  | ok a =>
    refine ⟨?_, fun hne => absurd rfl (hne a)⟩
    rintro ⟨e, he, -⟩
    cases he

/-- A first step that is not refused so leaves it to the rest. -/
theorem refused_bind_left (hx : RefusesWith (fun e => ¬ Q e) x) :
    Refused Q (x >>= f) ↔ ∃ a, x = .ok a ∧ Refused Q (f a) := by
  cases x with
  | error e =>
    constructor
    · rintro ⟨e', he', hq⟩
      cases he'
      exact absurd hq (hx e rfl)
    · rintro ⟨a, ha, -⟩
      cases ha
  | ok a =>
    refine ⟨fun h => ⟨a, rfl, h⟩, ?_⟩
    rintro ⟨b, hb, h⟩
    cases hb
    exact h

/-- A rest that is not refused so leaves it to the first step. -/
theorem refused_bind_right (hf : ∀ a, x = .ok a → RefusesWith (fun e => ¬ Q e) (f a)) :
    Refused Q (x >>= f) ↔ Refused Q x := by
  cases x with
  | error e =>
    constructor
    · rintro ⟨e', he', hq⟩
      cases he'
      exact ⟨e, rfl, hq⟩
    · rintro ⟨e', he', hq⟩
      cases he'
      exact ⟨e, rfl, hq⟩
  | ok a =>
    refine ⟨fun h => absurd h (refusesWith_not_iff.1 (hf a rfl)), ?_⟩
    rintro ⟨e, he, -⟩
    cases he

end Refused

end Except
