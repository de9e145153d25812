import AtlasTeam.Json

/-!
# Value coercion (`posting/values.rs`)

How loosely typed payload fields are read: numbers may arrive as numbers or texts, flags as a
boolean, an integer or `"1"`.
-/

namespace AtlasTeam

/-! ### Texts as Rust reads them -/

/-- `char::is_whitespace`. -/
def isWhitespace (c : Char) : Bool :=
  let n := c.toNat
  (9 ≤ n && n ≤ 13) || n = 0x20 || n = 0x85 || n = 0xA0 || n = 0x1680 ||
    (0x2000 ≤ n && n ≤ 0x200A) || n = 0x2028 || n = 0x2029 || n = 0x202F || n = 0x205F || n = 0x3000

/-- `str::trim`. -/
def trim (s : String) : String :=
  String.ofList ((s.toList.dropWhile isWhitespace).reverse.dropWhile isWhitespace).reverse

/-- The number a run of decimal digits denotes. -/
def digitsValue (cs : List Char) : Nat := Nat.ofDigitChars 10 cs 0

/-- A leading sign and the rest. -/
def splitSign : List Char → Bool × List Char
  | '+' :: cs => (false, cs)
  | '-' :: cs => (true, cs)
  | cs => (false, cs)

/-- The exponent after `e` or `E`. -/
def parseExponent (cs : List Char) : Option Int :=
  let (negative, digits) := splitSign cs
  if digits.isEmpty || !digits.all Char.isDigit then none
  else some (if negative then -(digitsValue digits) else digitsValue digits)

/-- `str::parse::<f64>` over exact rationals: a decimal with an optional point and exponent. The
texts for infinities and NaN denote no rational and are not numbers here. -/
def parseF64 (s : String) : Option ℚ :=
  let (negative, body) := splitSign s.toList
  let whole := body.takeWhile Char.isDigit
  let rest := body.dropWhile Char.isDigit
  let (fraction, rest) :=
    match rest with
    | '.' :: cs => (cs.takeWhile Char.isDigit, cs.dropWhile Char.isDigit)
    | cs => ([], cs)
  let mantissa : ℚ := digitsValue (whole ++ fraction) / 10 ^ fraction.length
  let signed := if negative then -mantissa else mantissa
  if whole.isEmpty && fraction.isEmpty then none
  else
    match rest with
    | [] => some signed
    | 'e' :: cs | 'E' :: cs => (parseExponent cs).map fun e => signed * (10 : ℚ) ^ e
    | _ => none

/-- Where the rounding of a decimal reaches infinity: half a place above the largest f64. -/
def f64Overflow : ℚ := 2 ^ 1024 - 2 ^ 970

/-- What `{}` prints of a text that `str::parse::<f64>` reads as an infinity or as NaN: a word for one
in any letter case, or a decimal too large for the format. -/
def nonFiniteText (s : String) : Option String :=
  let (negative, body) := splitSign s.toList
  let word := body.map Char.toLower
  if word = "inf".toList ∨ word = "infinity".toList then some (if negative then "-inf" else "inf")
  else if word = "nan".toList then some "NaN"
  else
    match parseF64 s with
    | some q => if |q| < f64Overflow then none else some (if q < 0 then "-inf" else "inf")
    | none => none

/-! ### Fields -/

/-- `as_num`: a number or a numeric text, else 0. -/
def asNum : Option Value → ℚ
  | some (.number n) => n.asF64
  | some (.string s) => (parseF64 (trim s)).getD 0
  | _ => 0

/-- `!as_num(value).is_finite()`, as the text of the float. A JSON number is always finite. -/
def nonFinite : Option Value → Option String
  | some (.string s) => nonFiniteText (trim s)
  | _ => none

/-- `as_non_empty`: a trimmed non-empty text. -/
def asNonEmpty : Option Value → Option String
  | some (.string s) => if trim s = "" then none else some (trim s)
  | _ => none

/-- `is_true`. -/
def isTrue : Option Value → Bool
  | some (.bool b) => b
  | some (.number n) => n.asF64 = 1
  | some (.string s) => s = "1"
  | _ => false

@[simp] theorem asNum_num (q : ℚ) : asNum (some (.num q)) = q := rfl

/-! ### Rounding -/

/-- `f64::round`: to the nearest integer, halves away from zero. -/
def roundHalfAway (v : ℚ) : ℚ :=
  if 0 ≤ v then (⌊v + 1 / 2⌋ : ℤ) else -(⌊-v + 1 / 2⌋ : ℤ)

def round2 (v : ℚ) : ℚ := roundHalfAway (v * 100) / 100

def round3 (v : ℚ) : ℚ := roundHalfAway (v * 1000) / 1000

theorem roundHalfAway_of_nonneg {v : ℚ} (h : 0 ≤ v) : roundHalfAway v = round v := by
  rw [roundHalfAway, if_pos h, round_eq]

theorem roundHalfAway_of_neg {v : ℚ} (h : v < 0) : roundHalfAway v = -round (-v) := by
  rw [roundHalfAway, if_neg (not_le.2 h), round_eq]

theorem roundHalfAway_int (v : ℚ) : ∃ n : ℤ, roundHalfAway v = n := by
  rcases le_or_gt 0 v with h | h
  · exact ⟨round v, roundHalfAway_of_nonneg h⟩
  · exact ⟨-round (-v), by rw [roundHalfAway_of_neg h, Int.cast_neg]⟩

/-- No integer is closer. -/
theorem roundHalfAway_nearest (v : ℚ) (n : ℤ) : |v - roundHalfAway v| ≤ |v - n| := by
  rcases le_or_gt 0 v with h | h
  · rw [roundHalfAway_of_nonneg h]
    exact round_le v n
  · have hnearest := round_le (-v) (-n)
    rw [Int.cast_neg, ← neg_add', ← neg_add', abs_neg, abs_neg] at hnearest
    rw [roundHalfAway_of_neg h, sub_neg_eq_add]
    simpa [sub_eq_add_neg] using hnearest

/-- `REVERSAL_SUFFIX`. -/
def reversalSuffix : String := "-reversal"

/-- `is_stock_item_type`: everything but a service (in any letter case) moves stock. -/
def isStockItemType : Option String → Bool
  | some t => (trim t).toList.map Char.toLower ≠ "service".toList
  | none => true

/-- `outstanding_amount`. -/
def outstandingAmount (grandTotal : ℚ) (settled : List ℚ) : ℚ := grandTotal - settled.sum

/-! ### Numbers and values in texts -/

/-- The decimal digits of `n / 10 ^ k`. -/
def renderDecimal (n k : Nat) : String :=
  if k = 0 then toString n
  else
    let digits := Nat.toDigits 10 (n % 10 ^ k)
    toString (n / 10 ^ k) ++ "." ++ String.ofList (List.replicate (k - digits.length) '0' ++ digits)

/-- The least `k ≤ fuel` for which `q * 10 ^ k` is an integer. -/
def decimalPlaces (q : ℚ) (fuel : Nat) : Option Nat :=
  (List.range (fuel + 1)).find? fun k => (q * 10 ^ k).den = 1

/-- `{}` of a float: its decimal expansion. -/
def display (q : ℚ) : String :=
  let sign := if q < 0 then "-" else ""
  match decimalPlaces q 64 with
  | some k => sign ++ renderDecimal (q * 10 ^ k).num.natAbs k
  | none => sign ++ toString q.num.natAbs ++ "/" ++ toString q.den

/-- `{:.2}` of a float. -/
def display2 (q : ℚ) : String :=
  let scaled := |q| * 100
  let low := ⌊scaled⌋.natAbs
  let up := scaled - low > 1 / 2 || (scaled - low = 1 / 2 && low % 2 = 1)
  (if q < 0 then "-" else "") ++ renderDecimal (if up then low + 1 else low) 2

/-- One character of a JSON text. -/
def escapeChar (c : Char) : String :=
  if c = '"' then "\\\""
  else if c = '\\' then "\\\\"
  else if c = '\n' then "\\n"
  else if c = '\r' then "\\r"
  else if c = '\t' then "\\t"
  else if c.toNat < 0x20 then
    "\\u00" ++ String.ofList [Nat.digitChar (c.toNat / 16), Nat.digitChar (c.toNat % 16)]
  else String.ofList [c]

/-- A text in quotes. -/
def quoted (s : String) : String := "\"" ++ String.join (s.toList.map escapeChar) ++ "\""

mutual

/-- The compact JSON text of a value. -/
def Value.render : Value → String
  | .null => "null"
  | .bool true => "true"
  | .bool false => "false"
  | .number (.int i) => toString i
  | .number (.float q) => if q.den = 1 then display q ++ ".0" else display q
  | .string s => quoted s
  | .array xs => "[" ++ String.intercalate "," (Value.renderItems xs) ++ "]"
  | .object m => "\x7b" ++ String.intercalate "," (Value.renderFields m) ++ "\x7d"

def Value.renderItems : List Value → List String
  | [] => []
  | x :: xs => x.render :: Value.renderItems xs

def Value.renderFields : List (String × Value) → List String
  | [] => []
  | (key, x) :: m => (quoted key ++ ":" ++ x.render) :: Value.renderFields m

end

end AtlasTeam
