import Mathlib

/-!
# Fallible computations

Taking a successful `Except` computation apart: `Except.bind_eq_ok` peels one step, `ite_throw_eq_ok`
a refusal, and `forM_eq_ok`, `mapM_eq_ok` and `foldlM_ok_walk` walk a loop. `isSome_toOption`, `map_toOption` and `any_toOption`
take a result out of what was computed of it.
-/

namespace Except
variable {ε α β : Type}

theorem bind_eq_ok {x : Except ε α} {f : α → Except ε β} {b : β} :
    x >>= f = .ok b ↔ ∃ a, x = .ok a ∧ f a = .ok b := by
  cases x with
  | error e => simp [bind, Except.bind]
  | ok a => simp [bind, Except.bind]

@[simp] theorem throw_bind (e : ε) (f : α → Except ε β) :
    (throw e : Except ε α) >>= f = .error e := rfl

@[simp] theorem throw_ne_ok (e : ε) (b : β) : (throw e : Except ε β) = .ok b ↔ False :=
  ⟨fun h => Except.noConfusion rfl rfl (heq_of_eq h), False.elim⟩

@[simp] theorem pure_eq_ok (a b : α) : (pure a : Except ε α) = .ok b ↔ a = b :=
  ⟨fun h => Except.ok.inj h, fun h => congrArg _ h⟩

/-- A refusal followed by the rest: the condition did not hold and the rest succeeded. -/
theorem ite_throw_eq_ok {c : Prop} [Decidable c] {e : ε} {x : Except ε β} {b : β} :
    (if c then .error e else x) = .ok b ↔ ¬ c ∧ x = .ok b := by
  by_cases h : c <;> simp [h]

theorem toOption_eq_some {x : Except ε α} {a : α} : x.toOption = some a ↔ x = .ok a := by
  cases x <;> simp [Except.toOption]

/-- A computation whose result is known to be there. -/
theorem isSome_toOption {x : Except ε α} : x.toOption.isSome = true ↔ ∃ a, x = .ok a := by
  simp only [Option.isSome_iff_exists, toOption_eq_some]

/-- A computation of whose result something is known. -/
theorem map_toOption {x : Except ε α} {f : α → β} {b : β} :
    x.toOption.map f = some b ↔ ∃ a, x = .ok a ∧ f a = b := by
  simp only [Option.map_eq_some_iff, toOption_eq_some]

/-- A result that passes a test. -/
theorem any_toOption {x : Except ε α} {p : α → Bool} :
    x.toOption.any p = true ↔ ∃ a, x = .ok a ∧ p a = true := by
  cases x <;> simp [Except.toOption]

theorem forM_eq_ok {f : α → Except ε Unit} (xs : List α) :
    xs.forM f = .ok () ↔ ∀ x ∈ xs, f x = .ok () := by
  induction xs with
  | nil => exact ⟨fun _ x hx => absurd hx List.not_mem_nil, fun _ => rfl⟩
  | cons x xs ih =>
    have hcons : (x :: xs).forM f = f x >>= fun _ => xs.forM f := rfl
    rw [hcons, bind_eq_ok, List.forall_mem_cons, ← ih]
    exact ⟨fun ⟨_, hx, hxs⟩ => ⟨hx, hxs⟩, fun ⟨hx, hxs⟩ => ⟨_, hx, hxs⟩⟩

theorem mapM_eq_ok {f : α → Except ε β} {xs : List α} {ys : List β} :
    xs.mapM f = .ok ys ↔ List.Forall₂ (fun x y => f x = .ok y) xs ys := by
  induction xs generalizing ys with
  | nil => exact (pure_eq_ok [] ys).trans (by rw [List.forall₂_nil_left_iff, eq_comm])
  | cons x xs ih =>
    simp only [List.mapM_cons, bind_eq_ok, pure_eq_ok, List.forall₂_cons_left_iff, ih]
    constructor
    · rintro ⟨y, hy, rest, hrest, rfl⟩
      exact ⟨y, rest, hy, hrest, rfl⟩
    · rintro ⟨y, rest, hy, hrest, rfl⟩
      exact ⟨y, hy, rest, hrest, rfl⟩

/-- What a loop has gathered from the elements behind it, when every successful turn adds its own. -/
theorem foldlM_ok_walk {f : β → α → Except ε β} (P : List α → β → Prop)
    (hstep : ∀ done b a b', f b a = .ok b' → P done b → P (done ++ [a]) b') {xs : List α} {b b' : β}
    (h : xs.foldlM f b = .ok b') {done : List α} (hb : P done b) : P (done ++ xs) b' := by
  induction xs generalizing done b with
  | nil =>
    rw [List.append_nil]
    exact Except.ok.inj h ▸ hb
  | cons a xs ih =>
    rw [List.foldlM_cons, bind_eq_ok] at h
    obtain ⟨b₁, hb₁, hrest⟩ := h
    rw [List.append_cons]
    exact ih hrest (hstep done b a b₁ hb₁ hb)

end Except
