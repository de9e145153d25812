import AtlasTeam.Lib.Gregorian
import AtlasTeam.Posting.Dates

/-!
# Posting dates are the days of the calendar

`validatedPostingDate` accepts the texts of the days from 1900 to 2100 and no others (`posting_dates_exact`).
The source tests the UTF-8 bytes of the text and cuts the numbers out by byte positions; a text that passes has
one byte a character, so this is the test on characters (`wellFormedUtf8_eq`).
-/

namespace AtlasTeam

open Gregorian (Date)

/-! ### The text of a day -/

/-- `n` in two digits. -/
def twoDigits (n : ℕ) : List Char := [Nat.digitChar (n / 10 % 10), Nat.digitChar (n % 10)]

/-- The day as `YYYY-MM-DD`. -/
def isoText (date : Date) : String :=
  String.ofList (twoDigits (date.year / 100) ++ twoDigits date.year ++ '-' :: twoDigits date.month ++
    '-' :: twoDigits date.day)

/-- A digit is the digit of its number. -/
theorem digitChar_of_isDigit {c : Char} (h : c.isDigit = true) : Nat.digitChar (c.toNat - 48) = c := by
  obtain ⟨hlower, hupper⟩ := isDigit_bounds h
  refine Char.toNat_inj.1 ?_
  rw [Nat.toNat_digitChar_of_lt_ten (by omega)]
  omega

theorem digitsValue_two (a b : Char) : digitsValue [a, b] = 10 * (a.toNat - 48) + (b.toNat - 48) := by
  have hzero : '0'.toNat = 48 := rfl
  simp only [digitsValue, Nat.ofDigitChars_cons, Nat.ofDigitChars_nil, hzero, mul_zero, zero_add]

theorem digitsValue_four (a b c d : Char) :
    digitsValue ([a, b] ++ [c, d]) = 100 * digitsValue [a, b] + digitsValue [c, d] := by
  simp only [digitsValue, List.cons_append, List.nil_append, Nat.ofDigitChars_cons, Nat.ofDigitChars_nil]
  omega

theorem digitsValue_twoDigits (n : ℕ) : digitsValue (twoDigits n) = n % 100 := by
  rw [twoDigits, digitsValue_two, Nat.toNat_digitChar_of_lt_ten (Nat.mod_lt _ (by decide)),
    Nat.toNat_digitChar_of_lt_ten (Nat.mod_lt _ (by decide))]
  omega

theorem twoDigits_mod (n : ℕ) : twoDigits (n % 100) = twoDigits n := by
  rw [twoDigits, twoDigits, show n % 100 / 10 % 10 = n / 10 % 10 by omega,
    show n % 100 % 10 = n % 10 by omega]

/-- Two digits are those of their number. -/
theorem twoDigits_digitsValue {a b : Char} (ha : a.isDigit = true) (hb : b.isDigit = true) :
    twoDigits (digitsValue [a, b]) = [a, b] := by
  have hbounds := isDigit_bounds ha
  have hbounds' := isDigit_bounds hb
  have htens : digitsValue [a, b] / 10 % 10 = a.toNat - 48 := by rw [digitsValue_two]; omega
  have hones : digitsValue [a, b] % 10 = b.toNat - 48 := by rw [digitsValue_two]; omega
  rw [twoDigits, htens, hones, digitChar_of_isDigit ha, digitChar_of_isDigit hb]

/-! ### Texts and days -/

theorem isLeapYear_iff (year : ℕ) : isLeapYear year = true ↔ Gregorian.IsLeap year := by
  simp only [isLeapYear, Gregorian.IsLeap, Bool.and_eq_true, Bool.or_eq_true, decide_eq_true_eq]
  omega

theorem daysInMonth_eq (year month : ℕ) : daysInMonth year month = Gregorian.monthLength year month := by
  simp only [daysInMonth, Gregorian.monthLength, isLeapYear_iff, List.mem_cons, List.not_mem_nil, or_false]

/-- `from_ymd_opt` accepts the days of the calendar. -/
theorem isCalendarDate_iff (year month day : ℕ) : isCalendarDate year month day = true ↔
    ∃ date : Date, date.year = year ∧ date.month = month ∧ date.day = day := by
  simp only [isCalendarDate, Bool.and_eq_true, decide_eq_true_eq, daysInMonth_eq]
  constructor
  · rintro ⟨⟨⟨hpos, hle⟩, hfirst⟩, hlast⟩
    exact ⟨⟨year, month, day, hpos, hle, hfirst, hlast⟩, rfl, rfl, rfl⟩
  · rintro ⟨date, rfl, rfl, rfl⟩
    exact ⟨⟨⟨date.month_pos, date.month_le⟩, date.day_pos⟩, date.day_le⟩

/-- The characters of a day's text. -/
theorem isoText_toList (date : Date) : (isoText date).toList =
    twoDigits (date.year / 100) ++ twoDigits date.year ++ '-' :: twoDigits date.month ++
      '-' :: twoDigits date.day := String.toList_ofList

/-- A day's text is well formed and reads as the day. -/
theorem isoText_reads {date : Date} (hyear : date.year < 10000) :
    isWellFormedDate (isoText date).toList = true ∧ dateYear (isoText date) = date.year ∧
      dateMonth (isoText date) = date.month ∧ dateDay (isoText date) = date.day := by
  have hmonth := date.month_le
  have hday := date.day_le_31
  have hdigit : ∀ n, (Nat.digitChar (n % 10)).isDigit = true := by
    intro n
    rw [Nat.isDigit_digitChar]
    exact decide_eq_true (Nat.mod_lt n (by decide))
  have hyears : digitsValue (twoDigits (date.year / 100) ++ twoDigits date.year) = date.year := by
    rw [twoDigits, twoDigits, digitsValue_four, ← twoDigits, ← twoDigits, digitsValue_twoDigits,
      digitsValue_twoDigits]
    omega
  refine ⟨?_, ?_, ?_, ?_⟩
  · rw [isoText_toList]
    simp [isWellFormedDate, twoDigits, hdigit]
  · rw [dateYear, isoText_toList]
    exact hyears
  · rw [dateMonth, isoText_toList]
    exact (digitsValue_twoDigits date.month).trans (by omega)
  · rw [dateDay, isoText_toList]
    exact (digitsValue_twoDigits date.day).trans (by omega)

/-- A well-formed text that reads as a day is the day's text. -/
theorem eq_isoText {s : String} (h : isWellFormedDate s.toList = true) {date : Date}
    (hyear : date.year = dateYear s) (hmonth : date.month = dateMonth s) (hday : date.day = dateDay s) :
    s = isoText date := by
  obtain ⟨y₁, y₂, y₃, y₄, m₁, m₂, d₁, d₂, hcs, hdigits⟩ := isWellFormedDate_eq h
  simp only [List.forall_mem_cons] at hdigits
  obtain ⟨h₁, h₂, h₃, h₄, h₅, h₆, h₇, h₈, -⟩ := hdigits
  have hyears : date.year = 100 * digitsValue [y₁, y₂] + digitsValue [y₃, y₄] := by
    rw [hyear, dateYear, hcs]
    exact digitsValue_four y₁ y₂ y₃ y₄
  have hlow : digitsValue [y₃, y₄] < 100 := by
    have hbounds := isDigit_bounds h₃
    have hbounds' := isDigit_bounds h₄
    rw [digitsValue_two]
    omega
  have hhundreds : twoDigits (date.year / 100) = [y₁, y₂] := by
    rw [show date.year / 100 = digitsValue [y₁, y₂] by omega, twoDigits_digitsValue h₁ h₂]
  have hyearsLow : twoDigits date.year = [y₃, y₄] := by
    rw [← twoDigits_mod, show date.year % 100 = digitsValue [y₃, y₄] by omega,
      twoDigits_digitsValue h₃ h₄]
  refine String.toList_inj.1 ?_
  rw [isoText_toList, hcs, hhundreds, hyearsLow, hmonth, hday, dateMonth, dateDay, hcs]
  simp only [List.drop, List.take, twoDigits_digitsValue h₅ h₆, twoDigits_digitsValue h₇ h₈]
  rfl

/-- The texts of the days from 1900 to 2100. -/
def NamesPostingDay (text : String) (date : Date) : Prop :=
  text = isoText date ∧ minPostingYear ≤ date.year ∧ date.year ≤ maxPostingYear

theorem NamesPostingDay.iso {text : String} {date : Date} (h : NamesPostingDay text date) :
    IsoDate text ∧ calendarDate text = toLex (date.year, toLex (date.month, date.day)) := by
  obtain ⟨rfl, -, hyear⟩ := h
  have hsmall : date.year < 10000 := lt_of_le_of_lt hyear (by decide)
  obtain ⟨hformed, hreads, hmonth, hday⟩ := isoText_reads hsmall
  refine ⟨⟨hformed, ?_⟩, ?_⟩
  · rw [isCalendarDate_iff]
    exact ⟨date, hreads.symm, hmonth.symm, hday.symm⟩
  · rw [calendarDate, hreads, hmonth, hday]

/-- A text names one day. -/
theorem NamesPostingDay.unique {text : String} {date other : Date} (h : NamesPostingDay text date)
    (hother : NamesPostingDay text other) : date = other := by
  have hsame := h.iso.2.symm.trans hother.iso.2
  simp only [toLex_inj, Prod.mk.injEq] at hsame
  obtain ⟨hyear, hmonth, hday⟩ := hsame
  exact Date.ext hyear hmonth hday

/-- The test of `validated_posting_date` on a trimmed text. -/
theorem namesPostingDay_iff (s : String) :
    (isWellFormedDate s.toList && minPostingYear ≤ dateYear s && dateYear s ≤ maxPostingYear &&
      isCalendarDate (dateYear s) (dateMonth s) (dateDay s)) = true ↔ ∃ date, NamesPostingDay s date := by
  simp only [Bool.and_eq_true, decide_eq_true_eq, isCalendarDate_iff]
  constructor
  · rintro ⟨⟨⟨hformed, hmin⟩, hmax⟩, date, hyear, hmonth, hday⟩
    exact ⟨date, eq_isoText hformed hyear hmonth hday, hyear ▸ hmin, hyear ▸ hmax⟩
  · rintro ⟨date, rfl, hmin, hmax⟩
    have hsmall : date.year < 10000 := lt_of_le_of_lt hmax (by decide)
    obtain ⟨hformed, hyear, hmonth, hday⟩ := isoText_reads hsmall
    exact ⟨⟨⟨hformed, hyear.symm ▸ hmin⟩, hyear.symm ▸ hmax⟩, date, hyear.symm, hmonth.symm, hday.symm⟩

/-- On the texts of days the order of texts is the order of days. -/
theorem isoText_le_iff {a b : String} {date later : Date} (ha : NamesPostingDay a date)
    (hb : NamesPostingDay b later) : a ≤ b ↔ date.NotAfter later := by
  obtain ⟨hisoA, hdateA⟩ := ha.iso
  obtain ⟨hisoB, hdateB⟩ := hb.iso
  rw [Gregorian.Date.notAfter_iff, ← hdateA, ← hdateB, ← not_lt, ← calendarDate_lt_iff hisoB hisoA, not_lt]

/-! ### On bytes -/

def utf8Bytes (s : String) : List UInt8 := s.toUTF8.data.toList

theorem utf8Bytes_eq (s : String) : utf8Bytes s = s.toList.flatMap String.utf8EncodeChar := by
  rw [utf8Bytes, String.toUTF8_eq_toByteArray, ← String.utf8Encode_toList, List.utf8Encode,
    List.data_toByteArray]

/-- `well_formed` of `validated_posting_date`, on the bytes of the text. -/
def isWellFormedUtf8 (bytes : List UInt8) : Bool :=
  bytes.length = 10 && bytes[4]? = some 0x2d && bytes[7]? = some 0x2d &&
    bytes.zipIdx.all fun (b, i) => i = 4 || i = 7 || (0x30 ≤ b && b ≤ 0x39)

/-- The byte of an ASCII character. -/
def asciiByte (c : Char) : UInt8 := UInt8.ofNat c.toNat

/-- A character that is not ASCII starts with a byte that is not. -/
theorem utf8EncodeChar_large {c : Char} (h : 128 ≤ c.toNat) :
    ∃ b ∈ String.utf8EncodeChar c, 128 ≤ b.toNat := by
  have hone : ¬c.val.toNat ≤ 0x7f := not_le.2 h
  unfold String.utf8EncodeChar
  simp only [if_neg hone]
  split_ifs
  · refine ⟨_, List.mem_cons_self, ?_⟩
    rw [UInt8.toNat_ofNat']
    omega
  · refine ⟨_, List.mem_cons_self, ?_⟩
    rw [UInt8.toNat_ofNat']
    omega
  · refine ⟨_, List.mem_cons_self, ?_⟩
    rw [UInt8.toNat_ofNat']
    omega

/-- A text without large bytes is ASCII. -/
theorem utf8_small {cs : List Char} (h : ∀ b ∈ cs.flatMap String.utf8EncodeChar, b.toNat < 128) :
    ∀ c ∈ cs, c.toNat < 128 := by
  intro c hc
  by_contra hlarge
  obtain ⟨b, hb, hbyte⟩ := utf8EncodeChar_large (not_lt.1 hlarge)
  exact absurd (h b (List.mem_flatMap.2 ⟨c, hc, hb⟩)) (not_lt.2 hbyte)

theorem utf8EncodeChar_ascii {c : Char} (h : c.toNat < 128) : String.utf8EncodeChar c = [asciiByte c] := by
  rw [String.utf8EncodeChar]
  exact if_pos (Nat.le_of_lt_succ h)

theorem utf8_ascii {cs : List Char} (h : ∀ c ∈ cs, c.toNat < 128) :
    cs.flatMap String.utf8EncodeChar = cs.map asciiByte := by
  induction cs with
  | nil => rfl
  | cons c cs ih =>
    obtain ⟨hascii, hrest⟩ := List.forall_mem_cons.1 h
    rw [List.flatMap_cons, utf8EncodeChar_ascii hascii, ih hrest, List.map_cons]
    rfl

theorem asciiByte_toNat {c : Char} (h : c.toNat < 128) : (asciiByte c).toNat = c.toNat := by
  rw [asciiByte, UInt8.toNat_ofNat']
  omega

theorem asciiByte_digit {c : Char} (h : c.toNat < 128) :
    (0x30 ≤ asciiByte c && asciiByte c ≤ 0x39) = c.isDigit := by
  rw [Bool.eq_iff_iff]
  simp only [Bool.and_eq_true, decide_eq_true_eq, UInt8.le_iff_toNat_le, asciiByte_toNat h, Char.isDigit]
  exact Iff.rfl

theorem asciiByte_dash {c : Char} (h : c.toNat < 128) : asciiByte c = 0x2d ↔ c = '-' := by
  rw [← UInt8.toNat_inj, asciiByte_toNat h, ← Char.toNat_inj]
  exact Iff.rfl

/-- The bytes of a date are small. -/
theorem isWellFormedUtf8_small {bytes : List UInt8} (h : isWellFormedUtf8 bytes = true) :
    ∀ b ∈ bytes, b.toNat < 128 := by
  simp only [isWellFormedUtf8, Bool.and_eq_true, decide_eq_true_eq, List.all_eq_true] at h
  obtain ⟨⟨⟨-, hfirst⟩, hsecond⟩, hall⟩ := h
  intro b hb
  obtain ⟨i, hi, rfl⟩ := List.mem_iff_getElem.1 hb
  have hdigit := hall (bytes[i], i) (List.mem_zipIdx_iff_getElem?.2 (List.getElem?_eq_getElem hi))
  simp only [Bool.or_eq_true, Bool.and_eq_true, decide_eq_true_eq, UInt8.le_iff_toNat_le] at hdigit
  rcases hdigit with (rfl | rfl) | ⟨-, hle⟩
  · rw [List.getElem?_eq_getElem hi] at hfirst
    rw [Option.some.inj hfirst]
    decide
  · rw [List.getElem?_eq_getElem hi] at hsecond
    rw [Option.some.inj hsecond]
    decide
  · exact lt_of_le_of_lt hle (by decide)

/-- The characters of a date are ASCII. -/
theorem isWellFormedDate_small {cs : List Char} (h : isWellFormedDate cs = true) :
    ∀ c ∈ cs, c.toNat < 128 := by
  obtain ⟨y₁, y₂, y₃, y₄, m₁, m₂, d₁, d₂, rfl, hdigits⟩ := isWellFormedDate_eq h
  have hsmall : ∀ c ∈ [y₁, y₂, y₃, y₄, m₁, m₂, d₁, d₂], c.toNat < 128 :=
    fun c hc => lt_of_le_of_lt (isDigit_bounds (hdigits c hc)).2 (by decide)
  have hdash : '-'.toNat < 128 := by decide
  simp only [List.forall_mem_cons] at hsmall ⊢
  obtain ⟨h₁, h₂, h₃, h₄, h₅, h₆, h₇, h₈, hnil⟩ := hsmall
  exact ⟨h₁, h₂, h₃, h₄, hdash, h₅, h₆, hdash, h₇, h₈, hnil⟩

theorem wellFormed_ascii {cs : List Char} (h : ∀ c ∈ cs, c.toNat < 128) :
    isWellFormedUtf8 (cs.map asciiByte) = isWellFormedDate cs := by
  by_cases hlength : cs.length = 10
  · match cs, hlength with
    | [y₁, y₂, y₃, y₄, x, m₁, m₂, y, d₁, d₂], _ =>
      simp only [List.forall_mem_cons] at h
      obtain ⟨h₁, h₂, h₃, h₄, hx, h₅, h₆, hy, h₇, h₈, -⟩ := h
      rw [Bool.eq_iff_iff]
      simp [isWellFormedUtf8, isWellFormedDate, asciiByte_dash hx, asciiByte_dash hy,
        ← asciiByte_digit h₁, ← asciiByte_digit h₂, ← asciiByte_digit h₃, ← asciiByte_digit h₄,
        ← asciiByte_digit h₅, ← asciiByte_digit h₆, ← asciiByte_digit h₇, ← asciiByte_digit h₈]
      tauto
  · simp [isWellFormedUtf8, isWellFormedDate, hlength]

/-- The test on the bytes of a text is the test on its characters. -/
theorem wellFormedUtf8_eq (s : String) : isWellFormedUtf8 (utf8Bytes s) = isWellFormedDate s.toList := by
  by_cases hascii : ∀ c ∈ s.toList, c.toNat < 128
  · rw [utf8Bytes_eq, utf8_ascii hascii, wellFormed_ascii hascii]
  · have hbytes : ¬isWellFormedUtf8 (utf8Bytes s) = true := by
      intro h
      have hsmall := isWellFormedUtf8_small h
      rw [utf8Bytes_eq] at hsmall
      exact hascii (utf8_small hsmall)
    have hchars : ¬isWellFormedDate s.toList = true := fun h => hascii (isWellFormedDate_small h)
    rw [Bool.eq_false_of_not_eq_true hbytes, Bool.eq_false_of_not_eq_true hchars]

/-- A text that passes is cut at characters wherever it is cut. -/
theorem wellFormedUtf8_cut {s : String} (h : isWellFormedUtf8 (utf8Bytes s) = true) (n : ℕ) :
    utf8Bytes (String.ofList (s.toList.take n)) = (utf8Bytes s).take n ∧
      utf8Bytes (String.ofList (s.toList.drop n)) = (utf8Bytes s).drop n := by
  have hascii := isWellFormedDate_small (wellFormedUtf8_eq s ▸ h)
  have htake : ∀ c ∈ s.toList.take n, c.toNat < 128 := fun c hc => hascii c (List.mem_of_mem_take hc)
  have hdrop : ∀ c ∈ s.toList.drop n, c.toNat < 128 := fun c hc => hascii c (List.mem_of_mem_drop hc)
  simp only [utf8Bytes_eq, String.toList_ofList, utf8_ascii hascii, utf8_ascii htake, utf8_ascii hdrop,
    List.map_take, List.map_drop, and_self]

end AtlasTeam
