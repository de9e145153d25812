import AtlasTeam.Posting.Validate

/-!
# Dates as texts

Posting dates and the books lock are compared as texts. On validated `YYYY-MM-DD` texts (`IsoDate`) the
order of the texts is the order of the days they name (`calendarDate_lt_of_lt`), and the validation
lets nothing else through but what the clock shows (`validatedPostingDate_iso`).
-/

namespace AtlasTeam

def dateYear (date : String) : Nat := digitsValue (date.toList.take 4)

def dateMonth (date : String) : Nat := digitsValue ((date.toList.drop 5).take 2)

def dateDay (date : String) : Nat := digitsValue (date.toList.drop 8)

/-- A `YYYY-MM-DD` text that names a day of the calendar. -/
structure IsoDate (date : String) : Prop where
  wellFormed : isWellFormedDate date.toList = true
  real : isCalendarDate (dateYear date) (dateMonth date) (dateDay date) = true

/-- The day a text names, ordered by year, month and day. -/
def calendarDate (date : String) : ℕ ×ₗ ℕ ×ₗ ℕ :=
  toLex (dateYear date, toLex (dateMonth date, dateDay date))

instance (date : String) : Decidable (IsoDate date) :=
  decidable_of_iff (isWellFormedDate date.toList = true ∧
    isCalendarDate (dateYear date) (dateMonth date) (dateDay date) = true)
    ⟨fun ⟨h₁, h₂⟩ => ⟨h₁, h₂⟩, fun h => ⟨h.wellFormed, h.real⟩⟩

/-- The ten characters of a date. -/
theorem isWellFormedDate_eq {cs : List Char} (h : isWellFormedDate cs = true) :
    ∃ y₁ y₂ y₃ y₄ m₁ m₂ d₁ d₂, cs = [y₁, y₂, y₃, y₄, '-', m₁, m₂, '-', d₁, d₂] ∧
      ∀ c ∈ [y₁, y₂, y₃, y₄, m₁, m₂, d₁, d₂], c.isDigit = true := by
  simp only [isWellFormedDate, Bool.and_eq_true, decide_eq_true_eq] at h
  obtain ⟨hlength, hall⟩ := h
  match cs, hlength with
  | [y₁, y₂, y₃, y₄, x, m₁, m₂, y, d₁, d₂], _ =>
    simp only [List.zipIdx_cons, List.zipIdx_nil, List.all_cons, List.all_nil, Bool.and_eq_true] at hall
    norm_num at hall
    obtain ⟨h₁, h₂, h₃, h₄, rfl, h₅, h₆, rfl, h₇, h₈⟩ := hall
    exact ⟨y₁, y₂, y₃, y₄, m₁, m₂, d₁, d₂, rfl, by simp [*]⟩

/-- A digit is between `'0'` and `'9'`. -/
theorem isDigit_bounds {c : Char} (h : c.isDigit = true) : 48 ≤ c.toNat ∧ c.toNat ≤ 57 := by
  simp only [Char.isDigit, Bool.and_eq_true, decide_eq_true_eq] at h
  exact ⟨h.1, h.2⟩

/-- On dates the order of the texts is the order of the days. -/
theorem calendarDate_lt_iff {a b : String} (ha : IsoDate a) (hb : IsoDate b) :
    calendarDate a < calendarDate b ↔ a < b := by
  obtain ⟨y₁, y₂, y₃, y₄, m₁, m₂, d₁, d₂, hcs, hdigits⟩ := isWellFormedDate_eq ha.wellFormed
  obtain ⟨y₁', y₂', y₃', y₄', m₁', m₂', d₁', d₂', hcs', hdigits'⟩ := isWellFormedDate_eq hb.wellFormed
  have hbounds := fun c hc => isDigit_bounds (hdigits c hc)
  have hbounds' := fun c hc => isDigit_bounds (hdigits' c hc)
  simp only [List.forall_mem_cons] at hbounds hbounds'
  have hchar : ∀ c c' : Char, c < c' ↔ c.toNat < c'.toNat := fun c c' => Iff.rfl
  have heq : ∀ c c' : Char, c = c' ↔ c.toNat = c'.toNat := fun c c' => Char.toNat_inj.symm
  have hzero : '0'.toNat = 48 := rfl
  rw [String.lt_iff_toList_lt, hcs, hcs']
  simp only [calendarDate, dateYear, dateMonth, dateDay, hcs, hcs', List.take, List.drop, digitsValue,
    Nat.ofDigitChars_cons, Nat.ofDigitChars_nil, Prod.Lex.toLex_lt_toLex, List.cons_lt_cons_iff, hchar,
    heq, hzero, lt_irrefl, false_or, true_and, and_false, or_false]
  -- both sides compare digit by digit
  omega

/-! ### What the validation lets through -/

theorem trim_of_not_whitespace {s : String} (h : ∀ c ∈ s.toList, isWhitespace c = false) :
    trim s = s := by
  have hdrop : ∀ cs : List Char, (∀ c ∈ cs, isWhitespace c = false) →
      cs.dropWhile isWhitespace = cs := by
    intro cs hcs
    cases cs with
    | nil => rfl
    | cons c cs => rw [List.dropWhile_cons, hcs c List.mem_cons_self, if_neg Bool.false_ne_true]
  rw [trim, hdrop _ h, hdrop _ fun c hc => h c (List.mem_reverse.1 hc), List.reverse_reverse,
    String.ofList_toList]

theorem isWhitespace_digit {c : Char} (h : c.isDigit = true) : isWhitespace c = false := by
  have hbounds := isDigit_bounds h
  simp only [isWhitespace, Bool.or_eq_false_iff, Bool.and_eq_false_iff, decide_eq_false_iff_not]
  omega

theorem IsoDate.trim {date : String} (h : IsoDate date) : AtlasTeam.trim date = date := by
  obtain ⟨y₁, y₂, y₃, y₄, m₁, m₂, d₁, d₂, hcs, hdigits⟩ := isWellFormedDate_eq h.wellFormed
  have hspace := fun c hc => isWhitespace_digit (hdigits c hc)
  have hdash : isWhitespace '-' = false := by decide
  refine trim_of_not_whitespace ?_
  rw [hcs]
  simp only [List.forall_mem_cons] at hspace ⊢
  obtain ⟨h₁, h₂, h₃, h₄, h₅, h₆, h₇, h₈, hnil⟩ := hspace
  exact ⟨h₁, h₂, h₃, h₄, hdash, h₅, h₆, hdash, h₇, h₈, hnil⟩

theorem IsoDate.ne_empty {date : String} (h : IsoDate date) : date ≠ "" := by
  rintro rfl
  exact absurd h.wellFormed (by decide)

/-- A validated date is a date, or what the clock shows. -/
theorem validatedPostingDate_iso {today : String} {payload : Map} {date : String}
    (htoday : IsoDate today) (h : validatedPostingDate today payload = .ok date) : IsoDate date := by
  unfold validatedPostingDate at h
  split at h
  · exact Except.ok.inj h ▸ htoday
  · exact Except.ok.inj h ▸ htoday
  · simp only at h
    split_ifs at h with hempty hvalid
    · exact Except.ok.inj h ▸ htoday
    · simp only [Bool.and_eq_true] at hvalid
      exact Except.ok.inj h ▸ ⟨hvalid.1.1.1, hvalid.2⟩
  · cases h

/-- A date that has been validated is validated as it is. -/
theorem validatedPostingDate_stored {today : String} {payload : Map} {stored date : String}
    (hstored : payload.get "posting_date" = some (.string stored)) (hiso : IsoDate stored)
    (h : validatedPostingDate today payload = .ok date) : date = stored := by
  simp only [validatedPostingDate, hstored, hiso.trim, if_neg hiso.ne_empty] at h
  split_ifs at h
  exact (Except.ok.inj h).symm

end AtlasTeam
