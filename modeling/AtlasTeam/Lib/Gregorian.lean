import Mathlib

/-!
# Days of the Gregorian calendar

A `Date` is a day that exists, and `next` is the day after it. A day is not after another when some number of
days leads from it to the other; `notAfter_iff` says that this is the order by year, month and day.
-/

namespace Gregorian

def IsLeap (year : ℕ) : Prop := 4 ∣ year ∧ (¬ 100 ∣ year ∨ 400 ∣ year)

instance (year : ℕ) : Decidable (IsLeap year) := inferInstanceAs (Decidable (_ ∧ _))

def monthLength (year month : ℕ) : ℕ :=
  if month = 2 then (if IsLeap year then 29 else 28)
  else if month = 4 ∨ month = 6 ∨ month = 9 ∨ month = 11 then 30
  else 31

theorem monthLength_bounds (year month : ℕ) : 28 ≤ monthLength year month ∧ monthLength year month ≤ 31 := by
  unfold monthLength
  split_ifs <;> omega

/-- A day of the calendar. -/
@[ext] structure Date where
  year : ℕ
  month : ℕ
  day : ℕ
  month_pos : 1 ≤ month
  month_le : month ≤ 12
  day_pos : 1 ≤ day
  day_le : day ≤ monthLength year month

namespace Date

/-- The place of a day if all months had 31 days. -/
def index (date : Date) : ℕ := 372 * date.year + 31 * (date.month - 1) + (date.day - 1)

theorem day_le_31 (date : Date) : date.day ≤ 31 :=
  date.day_le.trans (monthLength_bounds date.year date.month).2

theorem index_injective : Function.Injective index := by
  intro date date' h
  have hday := date.day_le_31
  have hday' := date'.day_le_31
  have hmonth := date.month_le
  have hmonth' := date'.month_le
  have hpos := date.month_pos
  have hpos' := date'.month_pos
  have hfirst := date.day_pos
  have hfirst' := date'.day_pos
  simp only [index] at h
  have hyear : date.year = date'.year := by omega
  have hmonths : date.month = date'.month := by omega
  exact Date.ext hyear hmonths (by omega)

/-- The day after. -/
def next (date : Date) : Date :=
  if hday : date.day < monthLength date.year date.month then
    { date with
      day := date.day + 1
      day_pos := Nat.le_add_left 1 _
      day_le := hday }
  else if hmonth : date.month < 12 then
    { year := date.year
      month := date.month + 1
      day := 1
      month_pos := Nat.le_add_left 1 _
      month_le := hmonth
      day_pos := le_rfl
      day_le := le_trans (by decide) (monthLength_bounds _ _).1 }
  else
    { year := date.year + 1
      month := 1
      day := 1
      month_pos := le_rfl
      month_le := by decide
      day_pos := le_rfl
      day_le := le_trans (by decide) (monthLength_bounds _ _).1 }

/-- The day after is the next one in the order of the index. -/
theorem index_next (date : Date) :
    date.index < date.next.index ∧
      ∀ later : Date, date.index < later.index → date.next.index ≤ later.index := by
  have hday := date.day_le_31
  have hlast := date.day_le
  have hmonth := date.month_le
  have hpos := date.month_pos
  have hfirst := date.day_pos
  -- a day of the same month is not past its last day
  have hsame : ∀ later : Date, later.year = date.year → later.month = date.month →
      later.day ≤ monthLength date.year date.month := by
    intro later hyear hmonth
    rw [← hyear, ← hmonth]
    exact later.day_le
  unfold next
  split_ifs with hinside hyear
  all_goals
    refine ⟨by simp only [index]; omega, fun later hlater => ?_⟩
    have hlaterDay := later.day_pos
    have hlaterPos := later.month_pos
    have hlaterLe := later.month_le
    have hlater31 := later.day_le_31
    have hlaterSame := hsame later
    simp only [index] at hlater ⊢
    omega

/-- Some number of days leads from the one to the other. -/
def NotAfter (date later : Date) : Prop := ∃ n, next^[n] date = later

theorem index_le_of_notAfter {date later : Date} (h : date.NotAfter later) : date.index ≤ later.index := by
  obtain ⟨n, rfl⟩ := h
  induction n with
  | zero => exact le_rfl
  | succ n ih =>
    rw [Function.iterate_succ_apply']
    exact ih.trans (index_next _).1.le

theorem notAfter_of_index_le {date later : Date} (h : date.index ≤ later.index) : date.NotAfter later := by
  -- on the distance, which every day makes smaller
  induction hdistance : later.index - date.index using Nat.strong_induction_on generalizing date with
  | _ distance ih =>
    rcases Nat.eq_or_lt_of_le h with heq | hlt
    · exact ⟨0, index_injective heq⟩
    · obtain ⟨hstep, hnext⟩ := date.index_next
      obtain ⟨n, hn⟩ := ih (later.index - date.next.index) (by omega) (hnext later hlt) rfl
      exact ⟨n + 1, by rw [Function.iterate_succ_apply, hn]⟩

/-- The order of the days is the order by year, month and day. -/
theorem notAfter_iff (date later : Date) : date.NotAfter later ↔
    toLex (date.year, toLex (date.month, date.day)) ≤ toLex (later.year, toLex (later.month, later.day)) := by
  have hday := date.day_le_31
  have hday' := later.day_le_31
  have hmonth := date.month_le
  have hmonth' := later.month_le
  have hpos := date.month_pos
  have hpos' := later.month_pos
  have hfirst := date.day_pos
  have hfirst' := later.day_pos
  have hindex : date.NotAfter later ↔ date.index ≤ later.index :=
    ⟨index_le_of_notAfter, notAfter_of_index_le⟩
  rw [hindex]
  simp only [index, Prod.Lex.toLex_le_toLex]
  omega

end Date

end Gregorian
