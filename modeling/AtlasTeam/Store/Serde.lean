import AtlasTeam.Store.View

/-!
# A concrete codec

serde_json's compact text form with a reader for JSON texts, and SHA-256, as functions that run.
The development is written over an arbitrary `Codec`; runs on concrete inputs use `serdeCodec`.
-/

namespace AtlasTeam

/-! ### Reading JSON -/

namespace JsonReader

def isJsonSpace (c : Char) : Bool := c = ' ' || c = '\n' || c = '\r' || c = '\t'

def skipSpace (cs : List Char) : List Char := cs.dropWhile isJsonSpace

def hexDigit (c : Char) : Option Nat :=
  if c.isDigit then some (c.toNat - 48)
  else if 'a' ≤ c ∧ c ≤ 'f' then some (c.toNat - 87)
  else if 'A' ≤ c ∧ c ≤ 'F' then some (c.toNat - 55)
  else none

/-- Four hexadecimal digits. -/
def hexUnit : List Char → Option (Nat × List Char)
  | a :: b :: c :: d :: rest => do
    let (a, b, c, d) := (← hexDigit a, ← hexDigit b, ← hexDigit c, ← hexDigit d)
    return (a * 4096 + b * 256 + c * 16 + d, rest)
  | _ => none

/-- A text up to its closing quote. -/
def readText : Nat → List Char → Option (List Char × List Char)
  | 0, _ => none
  | fuel + 1, '\\' :: 'u' :: rest => do
    let (high, rest) ← hexUnit rest
    if 0xD800 ≤ high ∧ high < 0xDC00 then
      match rest with
      | '\\' :: 'u' :: rest =>
        let (low, rest) ← hexUnit rest
        if low < 0xDC00 ∨ 0xE000 ≤ low then none
        else
          let (text, rest) ← readText fuel rest
          return (Char.ofNat (0x10000 + (high - 0xD800) * 1024 + (low - 0xDC00)) :: text, rest)
      | _ => none
    else if 0xDC00 ≤ high ∧ high < 0xE000 then none
    else
      let (text, rest) ← readText fuel rest
      return (Char.ofNat high :: text, rest)
  | fuel + 1, '\\' :: c :: rest => do
    let decoded ← match c with
      | '"' => some '"'
      | '\\' => some '\\'
      | '/' => some '/'
      | 'b' => some (Char.ofNat 8)
      | 'f' => some (Char.ofNat 12)
      | 'n' => some '\n'
      | 'r' => some '\r'
      | 't' => some '\t'
      | _ => none
    let (text, rest) ← readText fuel rest
    return (decoded :: text, rest)
  | _ + 1, '"' :: rest => some ([], rest)
  | fuel + 1, c :: rest =>
    if c.toNat < 0x20 then none
    else do
      let (text, rest) ← readText fuel rest
      return (c :: text, rest)
  | _ + 1, [] => none

def isNumberChar (c : Char) : Bool := c.isDigit || c = '-' || c = '+' || c = '.' || c = 'e' || c = 'E'

/-- A number: an integer when it is written as one and fits, else a float. -/
def readNumber (cs : List Char) : Option (Value × List Char) := do
  let token := cs.takeWhile isNumberChar
  let rest := cs.dropWhile isNumberChar
  let (negative, digits) := splitSign token
  if token.head? = some '+' ∨ digits.head?.any (fun c => !c.isDigit) then none
  let i : Int := if negative then -(digitsValue digits) else digitsValue digits
  if !digits.isEmpty && digits.all Char.isDigit && -2 ^ 63 ≤ i && i < 2 ^ 64 then
    return (.int i, rest)
  let q ← parseF64 (String.ofList token)
  return (.num q, rest)

mutual

def readValue : Nat → List Char → Option (Value × List Char)
  | 0, _ => none
  | fuel + 1, cs =>
    match skipSpace cs with
    | 'n' :: 'u' :: 'l' :: 'l' :: rest => some (.null, rest)
    | 't' :: 'r' :: 'u' :: 'e' :: rest => some (.bool true, rest)
    | 'f' :: 'a' :: 'l' :: 's' :: 'e' :: rest => some (.bool false, rest)
    | '"' :: rest => do
      let (text, rest) ← readText (rest.length + 1) rest
      return (.string (String.ofList text), rest)
    | '[' :: rest =>
      match skipSpace rest with
      | ']' :: rest => some (.array [], rest)
      | rest => do
        let (items, rest) ← readItems fuel rest
        return (.array items, rest)
    | '\x7b' :: rest =>
      match skipSpace rest with
      | '\x7d' :: rest => some (.object [], rest)
      | rest => do
        let (fields, rest) ← readFields fuel rest
        return (.obj fields, rest)
    | rest => readNumber rest

def readItems : Nat → List Char → Option (List Value × List Char)
  | 0, _ => none
  | fuel + 1, cs => do
    let (item, rest) ← readValue fuel cs
    match skipSpace rest with
    | ',' :: rest => do
      let (items, rest) ← readItems fuel rest
      return (item :: items, rest)
    | ']' :: rest => return ([item], rest)
    | _ => none

def readFields : Nat → List Char → Option (List (String × Value) × List Char)
  | 0, _ => none
  | fuel + 1, cs =>
    match skipSpace cs with
    | '"' :: rest => do
      let (key, rest) ← readText (rest.length + 1) rest
      match skipSpace rest with
      | ':' :: rest => do
        let (value, rest) ← readValue fuel rest
        match skipSpace rest with
        | ',' :: rest => do
          let (fields, rest) ← readFields fuel rest
          return ((String.ofList key, value) :: fields, rest)
        | '\x7d' :: rest => return ([(String.ofList key, value)], rest)
        | _ => none
      | _ => none
    | _ => none

end

/-- The value of a JSON text. -/
def read (text : String) : Except String Value :=
  match readValue (text.length + 1) text.toList with
  | some (value, rest) => if skipSpace rest = [] then .ok value else .error "trailing characters"
  | none => .error "invalid JSON"

end JsonReader

/-! ### SHA-256 -/

namespace Sha256

/-- The round constants. -/
def roundConstants : List Nat :=
  [0x428a2f98, 0x71374491, 0xb5c0fbcf, 0xe9b5dba5, 0x3956c25b, 0x59f111f1, 0x923f82a4, 0xab1c5ed5,
    0xd807aa98, 0x12835b01, 0x243185be, 0x550c7dc3, 0x72be5d74, 0x80deb1fe, 0x9bdc06a7, 0xc19bf174,
    0xe49b69c1, 0xefbe4786, 0x0fc19dc6, 0x240ca1cc, 0x2de92c6f, 0x4a7484aa, 0x5cb0a9dc, 0x76f988da,
    0x983e5152, 0xa831c66d, 0xb00327c8, 0xbf597fc7, 0xc6e00bf3, 0xd5a79147, 0x06ca6351, 0x14292967,
    0x27b70a85, 0x2e1b2138, 0x4d2c6dfc, 0x53380d13, 0x650a7354, 0x766a0abb, 0x81c2c92e, 0x92722c85,
    0xa2bfe8a1, 0xa81a664b, 0xc24b8b70, 0xc76c51a3, 0xd192e819, 0xd6990624, 0xf40e3585, 0x106aa070,
    0x19a4c116, 0x1e376c08, 0x2748774c, 0x34b0bcb5, 0x391c0cb3, 0x4ed8aa4a, 0x5b9cca4f, 0x682e6ff3,
    0x748f82ee, 0x78a5636f, 0x84c87814, 0x8cc70208, 0x90befffa, 0xa4506ceb, 0xbef9a3f7, 0xc67178f2]

/-- The eight words of the state. -/
def initial : List Nat :=
  [0x6a09e667, 0xbb67ae85, 0x3c6ef372, 0xa54ff53a, 0x510e527f, 0x9b05688c, 0x1f83d9ab, 0x5be0cd19]

/-- A 32-bit word turned right. -/
def rotr (w n : Nat) : Nat := (w >>> n) ||| ((w <<< (32 - n)) % 2 ^ 32)

def small (w a b s : Nat) : Nat := rotr w a ^^^ rotr w b ^^^ (w >>> s)

def big (w a b c : Nat) : Nat := rotr w a ^^^ rotr w b ^^^ rotr w c

/-- The message schedule, newest word first. -/
def schedule : Nat → List Nat → List Nat
  | 0, ws => ws
  | n + 1, ws =>
    let at_ (i : Nat) := (ws[i]?).getD 0
    let w := (small (at_ 1) 17 19 10 + at_ 6 + small (at_ 14) 7 18 3 + at_ 15) % 2 ^ 32
    schedule n (w :: ws)

/-- One round. -/
def round (state : List Nat) (kw : Nat × Nat) : List Nat :=
  match state with
  | [a, b, c, d, e, f, g, h] =>
    let choose := (e &&& f) ^^^ ((2 ^ 32 - 1 - e) &&& g)
    let majority := (a &&& b) ^^^ (a &&& c) ^^^ (b &&& c)
    let t₁ := h + big e 6 11 25 + choose + kw.1 + kw.2
    let t₂ := big a 2 13 22 + majority
    [(t₁ + t₂) % 2 ^ 32, a, b, c, (d + t₁) % 2 ^ 32, e, f, g]
  | other => other

/-- A block of sixteen words. -/
def compress (state block : List Nat) : List Nat :=
  let words := (schedule 48 block.reverse).reverse
  let mixed := (roundConstants.zip words).foldl round state
  (state.zip mixed).map fun (x, y) => (x + y) % 2 ^ 32

/-- Big-endian words of four bytes. -/
def words : List UInt8 → List Nat
  | a :: b :: c :: d :: rest =>
    (a.toNat * 2 ^ 24 + b.toNat * 2 ^ 16 + c.toNat * 2 ^ 8 + d.toNat) :: words rest
  | _ => []

/-- The blocks of a padded message, `n` of them. -/
def blocks : Nat → List Nat → List (List Nat)
  | 0, _ => []
  | n + 1, ws => ws.take 16 :: blocks n (ws.drop 16)

def bytesBE (n : Nat) (w : Nat) : List UInt8 :=
  (List.range n).map fun i => UInt8.ofNat (w / 256 ^ (n - 1 - i) % 256)

/-- The digest of a byte string. -/
def digest (message : List UInt8) : List UInt8 :=
  let len := message.length
  let zeros := (119 - len % 64) % 64
  let padded := message ++ 0x80 :: List.replicate zeros 0 ++ bytesBE 8 (len * 8)
  let ws := words padded
  ((blocks (ws.length / 16) ws).foldl compress initial).flatMap (bytesBE 4)

end Sha256

/-- serde_json and SHA-256 as functions. -/
def serdeCodec : Codec where
  toText m := .ok (Value.object m).render
  toBytes v := .ok v.render.toUTF8.toList
  fromText := JsonReader.read
  sha256 := Sha256.digest
  toText_ok _ := ⟨_, rfl⟩

example : (Sha256.digest [97, 98, 99]).take 4 = [0xba, 0x78, 0x16, 0xbf] := by decide +kernel

end AtlasTeam
