import AtlasTeam.Lib.Ieee
import AtlasTeam.Posting.Values

/-!
# Value coercion over f64 (`posting/values.rs`)

The development reads a float as the rational it denotes. The modules under `F64` read it as f64 has
it: a payload text may also say `NaN` or `inf`, a decimal may be too large for the format, and what
follows is computed and compared under the IEEE rules. Names are the source's, in a namespace of
their own; what touches no number is taken from the rational model.
-/

namespace AtlasTeam.F64

/-- The f64 of a decimal, the rounding of its digits aside. -/
def ofDecimal (q : ℚ) : Ieee := if |q| < f64Overflow then .fin q else .inf (q < 0)

/-- `str::parse::<f64>`: a decimal, or one of the words for an infinity or NaN in any letter case. -/
def parseF64 (s : String) : Option Ieee :=
  let (negative, body) := splitSign s.toList
  let word := body.map Char.toLower
  if word = "inf".toList ∨ word = "infinity".toList then some (.inf negative)
  else if word = "nan".toList then some .nan
  else (AtlasTeam.parseF64 s).map ofDecimal

/-- `as_num`. A JSON number is always finite. -/
def asNum : Option Value → Ieee
  | some (.number n) => .fin n.asF64
  | some (.string s) => (parseF64 (trim s)).getD 0
  | _ => 0

/-- `json!(x)` of a float: what is not finite is written as null. -/
def json : Ieee → Value
  | .fin q => .num q
  | _ => .null

/-- `{}` of a float. -/
def display : Ieee → String
  | .fin q => AtlasTeam.display q
  | .inf negative => if negative then "-inf" else "inf"
  | .nan => "NaN"

/-- `{:.2}` of a float. -/
def display2 : Ieee → String
  | .fin q => AtlasTeam.display2 q
  | x => display x

def round2 (v : Ieee) : Ieee := v.map AtlasTeam.round2

def round3 (v : Ieee) : Ieee := v.map AtlasTeam.round3

/-- `outstanding_amount`. -/
def outstandingAmount (grandTotal : Ieee) (settled : List Ieee) : Ieee := grandTotal - settled.sum

theorem parseF64_nonFinite {s text : String} (h : nonFiniteText s = some text) :
    ∃ x : Ieee, parseF64 s = some x ∧ ¬x.IsFinite ∧ display x = text := by
  unfold nonFiniteText at h
  unfold parseF64
  dsimp only at h ⊢
  split
  · rename_i hinf
    rw [if_pos hinf] at h
    exact ⟨_, rfl, Ieee.not_isFinite_inf _, Option.some.inj h⟩
  · rename_i hinf
    rw [if_neg hinf] at h
    split
    · rename_i hnan
      rw [if_pos hnan] at h
      exact ⟨_, rfl, Ieee.not_isFinite_nan, Option.some.inj h⟩
    · rename_i hnan
      rw [if_neg hnan] at h
      split at h
      · rename_i q hq
        split at h
        · cases h
        · rename_i hlarge
          rw [hq, Option.map_some, ofDecimal, if_neg hlarge]
          refine ⟨_, rfl, Ieee.not_isFinite_inf _, ?_⟩
          simpa [display] using h
      · cases h

theorem parseF64_finite {s : String} (h : nonFiniteText s = none) :
    parseF64 s = (AtlasTeam.parseF64 s).map Ieee.fin := by
  unfold nonFiniteText at h
  dsimp only at h
  split_ifs at h with hinf hnan
  unfold parseF64
  dsimp only
  rw [if_neg hinf, if_neg hnan]
  cases hq : AtlasTeam.parseF64 s with
  | none => rfl
  | some q =>
    rw [hq] at h
    dsimp only at h
    split_ifs at h with hsmall
    exact congrArg some (if_pos hsmall)

/-- What the rational model names as no finite number is none here, and prints the same. -/
theorem asNum_nonFinite {v : Option Value} {text : String} (h : nonFinite v = some text) :
    ¬(asNum v).IsFinite ∧ display (asNum v) = text := by
  unfold nonFinite at h
  split at h
  · obtain ⟨x, hparsed, hx⟩ := parseF64_nonFinite h
    simpa only [asNum, hparsed, Option.getD_some] using hx
  · cases h

/-- Every other field reads the same in both models. -/
theorem asNum_finite {v : Option Value} (h : nonFinite v = none) :
    asNum v = .fin (AtlasTeam.asNum v) := by
  cases v with
  | none => rfl
  | some v =>
    cases v with
    | string s =>
      have hparsed : parseF64 (trim s) = (AtlasTeam.parseF64 (trim s)).map Ieee.fin :=
        parseF64_finite (by rw [← h, nonFinite])
      rw [asNum, AtlasTeam.asNum, hparsed]
      exact Option.getD_map Ieee.fin 0 _
    | _ => rfl

/-- A number that was written as JSON reads back, as 0 when it was not finite. -/
theorem isFinite_asNum_json (x : Ieee) : (asNum (some (json x))).IsFinite := by
  cases x with
  | fin q => exact Ieee.isFinite_fin q
  | inf negative => exact Ieee.isFinite_zero
  | nan => exact Ieee.isFinite_zero

@[simp] theorem isFinite_round2 {v : Ieee} : (round2 v).IsFinite ↔ v.IsFinite :=
  Ieee.isFinite_map _

@[simp] theorem isFinite_round3 {v : Ieee} : (round3 v).IsFinite ↔ v.IsFinite :=
  Ieee.isFinite_map _

example : asNum (some (.string " -Infinity ")) = .inf true := by decide +kernel

example : asNum (some (.string "1e400")) = .inf false := by decide +kernel

end AtlasTeam.F64
