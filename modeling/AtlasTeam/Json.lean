import AtlasTeam.Lib.SortedMap

/-!
# JSON values

`serde_json::Value` with its default (key-ordered) map. A number is an integer or a float; floats
are read as exact rationals throughout the development. `Uuid` and `DateTime` stand here as well:
they are what rows and documents are built from besides JSON.
-/

namespace AtlasTeam

inductive Number where
  | int (i : Int)
  | float (q : ℚ)
deriving DecidableEq

/-- `Number::as_f64`. -/
def Number.asF64 : Number → ℚ
  | .int i => i
  | .float q => q

/-- `Number::as_i64`: integers that fit; a float never reads as an integer. -/
def Number.asI64 : Number → Option Int
  | .int i => if -2 ^ 63 ≤ i ∧ i < 2 ^ 63 then some i else none
  | .float _ => none

inductive Value where
  | null
  | bool (b : Bool)
  | number (n : Number)
  | string (s : String)
  | array (xs : List Value)
  | object (m : List (String × Value))

/-- Keys are pairs of texts in many tables, and their tests of membership all refer to this. -/
instance lawfulBEqKey : LawfulBEq (String × String) := inferInstance

/-- `serde_json::Map<String, Value>`, walked in key order. -/
abbrev Map := List (String × Value)

namespace Map

def get (m : Map) (key : String) : Option Value := m.lookup key

def insert (m : Map) (key : String) (v : Value) : Map := SortedMap.Raw.put key v m

def remove (m : Map) (key : String) : Map := SortedMap.Raw.drop key m

@[simp] theorem get_insert_self (m : Map) (key : String) (v : Value) :
    (m.insert key v).get key = some v :=
  SortedMap.Raw.lookup_put_self key v m

theorem get_insert_ne (m : Map) {key key' : String} (h : key' ≠ key) (v : Value) :
    (m.insert key v).get key' = m.get key' :=
  SortedMap.Raw.lookup_put_ne h v m

@[simp] theorem get_remove_self (m : Map) (key : String) : (m.remove key).get key = none :=
  SortedMap.Raw.lookup_drop_self key m

theorem get_remove_ne (m : Map) {key key' : String} (h : key' ≠ key) :
    (m.remove key).get key' = m.get key' :=
  SortedMap.Raw.lookup_drop_ne h m

/-- A field that is written only when it is present (`skip_serializing_if = "Option::is_none"`). -/
def insertSome (m : Map) (key : String) (v : Option Value) : Map :=
  match v with
  | some v => m.insert key v
  | none => m

end Map

namespace Value

/-- `Value::get` with a string key. -/
def get (v : Value) (key : String) : Option Value :=
  match v with
  | .object m => Map.get m key
  | _ => none

def asObject : Value → Option Map
  | .object m => some m
  | _ => none

def asArray : Value → Option (List Value)
  | .array xs => some xs
  | _ => none

def asStr : Value → Option String
  | .string s => some s
  | _ => none

def asI64 : Value → Option Int
  | .number n => n.asI64
  | _ => none

def asF64 : Value → Option ℚ
  | .number n => some n.asF64
  | _ => none

def isNull : Value → Bool
  | .null => true
  | _ => false

/-- `json!(x)` of a float. -/
def num (q : ℚ) : Value := .number (.float q)

/-- `json!(x)` of an integer. -/
def int (i : Int) : Value := .number (.int i)

/-- `json!({ ... })`. -/
def obj (fields : List (String × Value)) : Value := .object (SortedMap.Raw.ofList fields)

theorem get_obj (fields : List (String × Value)) (key : String) :
    (obj fields).get key = fields.reverse.lookup key :=
  SortedMap.Raw.lookup_ofList fields key

/-- `json!(x)` of an optional text. -/
def ofOption : Option String → Value
  | some s => .string s
  | none => .null

/-- `value[key] = v` on a JSON value. -/
def setField (v : Value) (key : String) (x : Value) : Value :=
  match v with
  | .object m => .object (Map.insert m key x)
  | other => other

theorem get_setField_ne (v x : Value) {key key' : String} (h : key' ≠ key) :
    (v.setField key x).get key' = v.get key' := by
  cases v with
  | object m => exact Map.get_insert_ne m h x
  | _ => rfl

end Value

mutual

/-- JSON values are told apart by their structure. -/
def Value.decEq : (v w : Value) → Decidable (v = w)
  | .null, .null => .isTrue rfl
  | .bool a, .bool b => decidable_of_iff (a = b) ⟨congrArg _, Value.bool.inj⟩
  | .number a, .number b => decidable_of_iff (a = b) ⟨congrArg _, Value.number.inj⟩
  | .string a, .string b => decidable_of_iff (a = b) ⟨congrArg _, Value.string.inj⟩
  | .array xs, .array ys =>
    have := Value.decEqItems xs ys
    decidable_of_iff (xs = ys) ⟨congrArg _, Value.array.inj⟩
  | .object xs, .object ys =>
    have := Value.decEqFields xs ys
    decidable_of_iff (xs = ys) ⟨congrArg _, Value.object.inj⟩
  | .null, .bool _ | .null, .number _ | .null, .string _ | .null, .array _ | .null, .object _
  | .bool _, .null | .bool _, .number _ | .bool _, .string _ | .bool _, .array _ | .bool _, .object _
  | .number _, .null | .number _, .bool _ | .number _, .string _ | .number _, .array _
  | .number _, .object _ | .string _, .null | .string _, .bool _ | .string _, .number _
  | .string _, .array _ | .string _, .object _
  | .array _, .null | .array _, .bool _ | .array _, .number _ | .array _, .string _ | .array _, .object _
  | .object _, .null | .object _, .bool _ | .object _, .number _ | .object _, .string _
  | .object _, .array _ => .isFalse (fun h => nomatch h)

def Value.decEqItems : (xs ys : List Value) → Decidable (xs = ys)
  | [], [] => .isTrue rfl
  | [], _ :: _ | _ :: _, [] => .isFalse (fun h => nomatch h)
  | x :: xs, y :: ys =>
    have := Value.decEq x y
    have := Value.decEqItems xs ys
    decidable_of_iff (x = y ∧ xs = ys) (List.cons_eq_cons).symm

def Value.decEqFields : (xs ys : List (String × Value)) → Decidable (xs = ys)
  | [], [] => .isTrue rfl
  | [], _ :: _ | _ :: _, [] => .isFalse (fun h => nomatch h)
  | (k, x) :: xs, (l, y) :: ys =>
    have := Value.decEq x y
    have := Value.decEqFields xs ys
    decidable_of_iff (k = l ∧ x = y ∧ xs = ys) (by simp [and_assoc])

end
instance : DecidableEq Value := Value.decEq

/-! ### The numbers of a value -/

mutual

/-- The value with every number in it replaced. -/
def Value.mapNumbers (f : Number → Number) : Value → Value
  | .null => .null
  | .bool b => .bool b
  | .number n => .number (f n)
  | .string s => .string s
  | .array xs => .array (Value.mapNumbersItems f xs)
  | .object m => .object (Map.mapNumbers f m)

def Value.mapNumbersItems (f : Number → Number) : List Value → List Value
  | [] => []
  | x :: xs => x.mapNumbers f :: Value.mapNumbersItems f xs

def Map.mapNumbers (f : Number → Number) : Map → Map
  | [] => []
  | (key, x) :: m => (key, x.mapNumbers f) :: Map.mapNumbers f m

end

mutual

/-- The numbers in a value, at any depth. -/
def Value.numbers : Value → List Number
  | .number n => [n]
  | .array xs => Value.numbersItems xs
  | .object m => Map.numbers m
  | .null | .bool _ | .string _ => []

def Value.numbersItems : List Value → List Number
  | [] => []
  | x :: xs => x.numbers ++ Value.numbersItems xs

def Map.numbers : Map → List Number
  | [] => []
  | (_, x) :: m => x.numbers ++ Map.numbers m

end

mutual

/-- A value stays as it is exactly when each of its numbers does. -/
theorem Value.mapNumbers_eq_self {f : Number → Number} :
    (v : Value) → (v.mapNumbers f = v ↔ ∀ n ∈ v.numbers, f n = n)
  | .null | .bool _ | .string _ => iff_of_true rfl fun _ h => absurd h List.not_mem_nil
  | .number n => by
    rw [Value.mapNumbers, Value.number.injEq, Value.numbers, List.forall_mem_singleton]
  | .array xs => by
    rw [Value.mapNumbers, Value.array.injEq, Value.numbers]
    exact Value.mapNumbersItems_eq_self xs
  | .object m => by
    rw [Value.mapNumbers, Value.object.injEq, Value.numbers]
    exact Map.mapNumbers_eq_self m

theorem Value.mapNumbersItems_eq_self {f : Number → Number} :
    (xs : List Value) → (Value.mapNumbersItems f xs = xs ↔ ∀ n ∈ Value.numbersItems xs, f n = n)
  | [] => iff_of_true rfl fun _ h => absurd h List.not_mem_nil
  | x :: xs => by
    rw [Value.mapNumbersItems, List.cons_eq_cons, Value.numbersItems, List.forall_mem_append]
    exact and_congr (Value.mapNumbers_eq_self x) (Value.mapNumbersItems_eq_self xs)

theorem Map.mapNumbers_eq_self {f : Number → Number} :
    (m : Map) → (Map.mapNumbers f m = m ↔ ∀ n ∈ Map.numbers m, f n = n)
  | [] => iff_of_true rfl fun _ h => absurd h List.not_mem_nil
  | (key, x) :: m => by
    rw [Map.mapNumbers, List.cons_eq_cons, Prod.mk.injEq, Map.numbers, List.forall_mem_append]
    exact and_congr ((and_iff_right rfl).trans (Value.mapNumbers_eq_self x)) (Map.mapNumbers_eq_self m)

end

namespace Map

theorem get_mapNumbers (f : Number → Number) (m : Map) (key : String) :
    (m.mapNumbers f).get key = (m.get key).map (Value.mapNumbers f) := by
  induction m with
  | nil => rfl
  | cons field m ih =>
    obtain ⟨key', x⟩ := field
    unfold get at ih ⊢
    rw [mapNumbers, List.lookup_cons, List.lookup_cons]
    split
    · rfl
    · exact ih

/-- The numbers of a field are among those of the map. -/
theorem mem_numbers {m : Map} {key : String} {v : Value} {n : Number} (h : m.get key = some v)
    (hn : n ∈ v.numbers) : n ∈ m.numbers := by
  induction m with
  | nil => cases h
  | cons field m ih =>
    obtain ⟨key', x⟩ := field
    unfold get at h ih
    rw [List.lookup_cons] at h
    rw [numbers, List.mem_append]
    split at h
    · exact .inl (Option.some.inj h ▸ hn)
    · exact .inr (ih h)

theorem mapNumbers_id (m : Map) : mapNumbers id m = m :=
  (mapNumbers_eq_self m).2 fun _ _ => rfl

end Map

/-! ### Identifiers and instants -/

/-- A UUID as its 128 bits. -/
abbrev Uuid := BitVec 128

/-- The hyphenated lower-case rendering of a UUID. -/
def Uuid.render (u : Uuid) : String :=
  let nibble (i : Nat) : Char := Nat.digitChar (u.toNat / 16 ^ (31 - i) % 16)
  let part (start len : Nat) : List Char := (List.range len).map fun i => nibble (start + i)
  String.ofList (part 0 8 ++ '-' :: part 8 4 ++ '-' :: part 12 4 ++ '-' :: part 16 4 ++
    '-' :: part 20 12)

/-- `DateTime<Utc>` in milliseconds since the epoch. -/
abbrev DateTime := Int

/-- What a step takes from outside the store: the clock, the date it shows and a generated id. -/
structure Env where
  now : DateTime
  today : String
  uuid : Uuid

end AtlasTeam
