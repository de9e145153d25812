import AtlasTeam.Api.Settings
import AtlasTeam.Authority
import AtlasTeam.Store.Serde

/-!
# Webhook signatures (`pay.rs`)

`verifyStripeSignature` reads a header of `key=value` parts, holds its timestamp against the clock, and only
then compares the signatures. The timestamp can be any `i64`: from `2 ^ 63` seconds before now on, `now - t`
leaves the range, and at `2 ^ 63` the difference comes back as the one number that is its own absolute value,
which is not more than any skew (`stripe_signature_iff`).
-/

namespace AtlasTeam

/-! ### Differences of `i64` -/

/-- The range of an `i64`. -/
def InI64 (i : ℤ) : Prop := -2 ^ 63 ≤ i ∧ i < 2 ^ 63

theorem toInt_sub_of_in {x y : Int64} (h : InI64 (x.toInt - y.toInt)) :
    (x - y).toInt = x.toInt - y.toInt := by
  rw [Int64.toInt_sub]
  obtain ⟨hlower, hupper⟩ := h
  refine Int.bmod_eq_of_le ?_ ?_
  · omega
  · omega

/-- A difference that is too large comes back `2 ^ 64` lower. -/
theorem toInt_sub_of_ge {x y : Int64} (h : 2 ^ 63 ≤ x.toInt - y.toInt) :
    (x - y).toInt = x.toInt - y.toInt - 2 ^ 64 := by
  have hx := x.toInt_lt
  have hy := y.le_toInt
  rw [Int64.toInt_sub, ← Int.sub_bmod_right]
  refine Int.bmod_eq_of_le ?_ ?_
  · omega
  · omega

/-- The least `i64` is its own absolute value. -/
theorem toInt_abs (x : Int64) : x.abs.toInt = if x.toInt = -2 ^ 63 then -2 ^ 63 else |x.toInt| := by
  have hmin : x.toBitVec = BitVec.intMin 64 ↔ x.toInt = -2 ^ 63 := by
    rw [← BitVec.toInt_inj]
    exact Iff.rfl
  change x.toBitVec.abs.toInt = _
  rw [BitVec.toInt_abs_eq_natAbs, Int.natCast_natAbs]
  simp only [hmin]
  rfl

/-! ### Reading the header -/

/-- `MAX_SIGNATURE_SKEW_SECONDS`. -/
def maxSignatureSkewSeconds : Int64 := 300

/-- HMAC-SHA256 of a message under a key (`hmac`) and `hex::decode`. -/
structure SignatureCodec where
  hmac : List UInt8 → List UInt8 → List UInt8
  fromHex : String → Option (List UInt8)

/-- `str::split_once`. -/
def splitOnce (c : Char) (s : String) : Option (String × String) :=
  if c ∈ s.toList then
    some (String.ofList (s.toList.takeWhile (· ≠ c)), String.ofList ((s.toList.dropWhile (· ≠ c)).drop 1))
  else none

/-- `header.split(',')`. -/
def headerParts (header : String) : List String := (header.toList.splitOn ',').map String.ofList

/-- What the loop over the parts gathers. -/
structure SignatureHeader where
  timestamp : Option Int64 := none
  candidates : List (List UInt8) := []

/-- One part of the header. -/
def SignatureHeader.read (codec : SignatureCodec) (header : SignatureHeader) (part : String) :
    SignatureHeader :=
  match splitOnce '=' (trim part) with
  | some (key, value) =>
    if key = "t" then { header with timestamp := (parseI64 (trim value)).map Int64.ofInt }
    else if key = "v1" then
      match codec.fromHex (trim value) with
      | some signature => { header with candidates := header.candidates ++ [signature] }
      | none => header
    else header
  | none => header

def readSignatureHeader (codec : SignatureCodec) (header : String) : SignatureHeader :=
  (headerParts header).foldl (SignatureHeader.read codec) {}

/-- What is signed: the timestamp, a point and the body. -/
def signedBytes (t : ℤ) (body : List UInt8) : List UInt8 := (toString t).toUTF8.toList ++ 0x2e :: body

/-- `verify_stripe_signature`. -/
def verifyStripeSignature (codec : SignatureCodec) (secret header : String) (body : List UInt8)
    (now : Int64) : Except ApiError Unit :=
  let read := readSignatureHeader codec header
  match read.timestamp with
  | none => .error (.badRequest "malformed Stripe-Signature header: missing timestamp")
  | some t =>
    if maxSignatureSkewSeconds < (now - t).abs then
      .error (.badRequest "stale Stripe-Signature timestamp")
    else if read.candidates.any fun candidate =>
        codec.hmac secret.toUTF8.toList (signedBytes t.toInt body) = candidate then .ok ()
    else .error (.badRequest "invalid webhook signature")

/-- The checks of `stripe_webhook` before it reads the event: `secret` is the configured one, `signature` the
header as a text. -/
def verifyWebhook (codec : SignatureCodec) (secret signature : Option String) (body : List UInt8)
    (now : Int64) : Except ApiError Unit :=
  match secret with
  | none => .error (.unavailable "webhook secret not configured")
  | some secret =>
    match signature with
    | none => .error (.badRequest "missing Stripe-Signature header")
    | some signature => verifyStripeSignature codec secret signature body now

/-- The exact results of the operations on the clock and the header's timestamp: the difference, and the
absolute value of what the subtraction returned. -/
def skewResults (codec : SignatureCodec) (header : String) (now : Int64) : List ℤ :=
  match (readSignatureHeader codec header).timestamp with
  | none => []
  | some t => [now.toInt - t.toInt, |(now - t).toInt|]

/-! ### What the header says -/

/-- The value of a part with the given key. -/
def partValue (key part : String) : Option String :=
  match splitOnce '=' (trim part) with
  | some (found, value) => if found = key then some (trim value) else none
  | none => none

/-- The values of a key, in the order of the parts. -/
def headerValues (key header : String) : List String := (headerParts header).filterMap (partValue key)

/-- The number in the last `t=` part. -/
def lastTimestamp (header : String) : Option ℤ := (headerValues "t" header).getLast?.bind parseI64

/-- Some `v1=` part is the signature of the body at `t`. -/
def HasSignature (codec : SignatureCodec) (secret header : String) (body : List UInt8) (t : ℤ) : Prop :=
  ∃ value ∈ headerValues "v1" header,
    codec.fromHex value = some (codec.hmac secret.toUTF8.toList (signedBytes t body))

/-- What one part does: a `t=` part replaces the timestamp, a `v1=` part that decodes adds a candidate. -/
theorem SignatureHeader.read_eq (codec : SignatureCodec) (header : SignatureHeader) (part : String) :
    header.read codec part =
      { timestamp := match partValue "t" part with
          | some value => (parseI64 value).map Int64.ofInt
          | none => header.timestamp
        candidates := header.candidates ++ ((partValue "v1" part).bind codec.fromHex).toList } := by
  unfold SignatureHeader.read partValue
  cases splitOnce '=' (trim part) with
  | none => simp
  | some found =>
    obtain ⟨key, value⟩ := found
    by_cases htime : key = "t"
    · subst htime
      simp
    by_cases hsignature : key = "v1"
    · subst hsignature
      cases hdecoded : codec.fromHex (trim value) <;> simp [hdecoded]
    · simp [htime, hsignature]

/-- What the loop gathers from the parts. -/
theorem foldl_read (codec : SignatureCodec) (parts : List String) (header : SignatureHeader) :
    parts.foldl (SignatureHeader.read codec) header =
      { timestamp := match (parts.filterMap (partValue "t")).getLast? with
          | some value => (parseI64 value).map Int64.ofInt
          | none => header.timestamp
        candidates := header.candidates ++ (parts.filterMap (partValue "v1")).filterMap codec.fromHex } := by
  induction parts using List.reverseRecOn with
  | nil => simp
  | append_singleton parts part ih =>
    rw [List.foldl_append, List.foldl_cons, List.foldl_nil, ih, SignatureHeader.read_eq]
    rw [SignatureHeader.mk.injEq]
    constructor
    · cases htime : partValue "t" part with
      | none => simp [htime]
      | some value => simp [htime]
    · cases hvalue : partValue "v1" part with
      | none => simp [hvalue]
      | some value => cases hdecoded : codec.fromHex value <;> simp [hvalue, hdecoded]

theorem readSignatureHeader_timestamp (codec : SignatureCodec) (header : String) :
    (readSignatureHeader codec header).timestamp = (lastTimestamp header).map Int64.ofInt := by
  rw [readSignatureHeader, foldl_read, lastTimestamp, headerValues]
  cases ((headerParts header).filterMap (partValue "t")).getLast? <;> rfl

theorem mem_candidates {codec : SignatureCodec} {header : String} {signature : List UInt8} :
    signature ∈ (readSignatureHeader codec header).candidates ↔
      ∃ value ∈ headerValues "v1" header, codec.fromHex value = some signature := by
  rw [readSignatureHeader, foldl_read, List.nil_append, List.mem_filterMap]
  exact Iff.rfl

theorem parseI64_in {s : String} {i : ℤ} (h : parseI64 s = some i) : InI64 i := by
  rcases hsplit : splitSign s.toList with ⟨negative, digits⟩
  simp only [parseI64, hsplit] at h
  split_ifs at h with _ hsign hrange hrange
  · exact Option.some.inj h ▸ hrange
  · exact Option.some.inj h ▸ hrange

theorem lastTimestamp_in {header : String} {t : ℤ} (h : lastTimestamp header = some t) : InI64 t := by
  obtain ⟨value, -, hvalue⟩ := Option.bind_eq_some_iff.1 h
  exact parseI64_in hvalue

/-! ### The check -/

/-- The timestamps the check takes for fresh: those that are, and the one `2 ^ 63` seconds before now. -/
theorem skew_iff {now t : Int64} (hnow : 0 ≤ now.toInt) (hsmall : now.toInt < 2 ^ 53) :
    ¬maxSignatureSkewSeconds < (now - t).abs ↔
      |now.toInt - t.toInt| ≤ 300 ∨ t.toInt = now.toInt - 2 ^ 63 := by
  have hskew : maxSignatureSkewSeconds.toInt = 300 := by decide
  have hlower := t.le_toInt
  have hupper := t.toInt_lt
  rw [Int64.lt_iff_toInt_lt, hskew, toInt_abs, not_lt]
  by_cases hin : now.toInt - t.toInt < 2 ^ 63
  · rw [toInt_sub_of_in ⟨by omega, hin⟩, if_neg (by omega)]
    constructor
    · intro h
      exact .inl h
    · rintro (h | h)
      · exact h
      · omega
  · -- the difference wraps, to less than any skew below zero
    rw [toInt_sub_of_ge (not_lt.1 hin)]
    split_ifs with hmin
    · exact ⟨fun _ => .inr (by omega), fun _ => by decide⟩
    · rw [abs_of_nonpos (by omega), abs_of_nonneg (by omega)]
      constructor
      · intro h
        omega
      · rintro (h | h)
        · omega
        · omega

/-- What `verify_stripe_signature` accepts. -/
theorem verifyStripeSignature_ok_iff {codec : SignatureCodec} {secret header : String} {body : List UInt8}
    {now : Int64} (hnow : 0 ≤ now.toInt) (hsmall : now.toInt < 2 ^ 53) :
    verifyStripeSignature codec secret header body now = .ok () ↔
      ∃ t, lastTimestamp header = some t ∧ (|now.toInt - t| ≤ 300 ∨ t = now.toInt - 2 ^ 63) ∧
        HasSignature codec secret header body t := by
  rw [verifyStripeSignature]
  simp only [readSignatureHeader_timestamp]
  cases hlast : lastTimestamp header with
  | none => simp
  | some t =>
    have hround : (Int64.ofInt t).toInt = t :=
      Int64.toInt_ofInt_of_le (lastTimestamp_in hlast).1 (lastTimestamp_in hlast).2
    have hskew := skew_iff (t := Int64.ofInt t) hnow hsmall
    rw [hround] at hskew
    have hsigned : (readSignatureHeader codec header).candidates.any (fun candidate =>
        codec.hmac secret.toUTF8.toList (signedBytes t body) = candidate) = true ↔
          HasSignature codec secret header body t := by
      rw [List.any_eq_true]
      simp only [decide_eq_true_eq, exists_eq_right', mem_candidates, HasSignature]
    simp only [Option.map_some, hround]
    by_cases hstale : maxSignatureSkewSeconds < (now - Int64.ofInt t).abs
    · rw [if_pos hstale]
      constructor
      · intro h
        cases h
      · rintro ⟨t', ht, hfresh, -⟩
        obtain rfl := Option.some.inj ht
        exact absurd hstale (hskew.2 hfresh)
    · rw [if_neg hstale]
      have hfresh := hskew.1 hstale
      split
      · rename_i hany
        exact ⟨fun _ => ⟨t, rfl, hfresh, hsigned.1 hany⟩, fun _ => rfl⟩
      · rename_i hany
        constructor
        · intro h
          cases h
        · rintro ⟨t', ht, -, hsignature⟩
          obtain rfl := Option.some.inj ht
          exact absurd (hsigned.2 hsignature) hany

/-- A webhook is read only when a secret is configured and the header is accepted under it. -/
theorem verifyWebhook_ok_iff {codec : SignatureCodec} {secret signature : Option String} {body : List UInt8}
    {now : Int64} : verifyWebhook codec secret signature body now = .ok () ↔
      ∃ key header, secret = some key ∧ signature = some header ∧
        verifyStripeSignature codec key header body now = .ok () := by
  cases secret with
  | none => simp [verifyWebhook]
  | some key =>
    cases signature with
    | none => simp [verifyWebhook]
    | some header => simp [verifyWebhook]

/-- The results stay in the range of `i64` just when the timestamp is less than `2 ^ 63` seconds before now. -/
theorem skewResults_in_iff {codec : SignatureCodec} {header : String} {now : Int64} (hnow : 0 ≤ now.toInt) :
    (∀ i ∈ skewResults codec header now, InI64 i) ↔
      ∀ t, lastTimestamp header = some t → now.toInt - t < 2 ^ 63 := by
  rw [skewResults, readSignatureHeader_timestamp]
  cases hlast : lastTimestamp header with
  | none => simp
  | some t =>
    obtain ⟨hlower, hupper⟩ := lastTimestamp_in hlast
    have hround : (Int64.ofInt t).toInt = t := Int64.toInt_ofInt_of_le hlower hupper
    simp only [Option.map_some, Option.some.injEq, forall_eq', hround, List.forall_mem_cons]
    constructor
    · rintro ⟨hin, -⟩
      exact hin.2
    · intro hin
      have hdiff : InI64 (now.toInt - t) := ⟨by omega, hin⟩
      refine ⟨hdiff, ?_, fun i hi => absurd hi List.not_mem_nil⟩
      rw [toInt_sub_of_in (by rwa [hround]), hround]
      refine ⟨le_trans (by decide) (abs_nonneg _), abs_lt.2 ⟨by omega, hin⟩⟩

/-- The check accepts just what is fresh and authentic, with every result in range, if and only if the last
timestamp is less than `2 ^ 63` seconds before now; and what it accepts is wrong just for an authentic
timestamp `2 ^ 63` seconds before now. -/
theorem stripe_signature_iff (codec : SignatureCodec) (secret header : String) (body : List UInt8)
    (now : Int64) (hnow : 0 ≤ now.toInt) (hsmall : now.toInt < 2 ^ 53) :
    (((verifyStripeSignature codec secret header body now = .ok () ↔
        ∃ t, lastTimestamp header = some t ∧ |now.toInt - t| ≤ 300 ∧
          HasSignature codec secret header body t) ∧
      ∀ i ∈ skewResults codec header now, InI64 i) ↔
        ∀ t, lastTimestamp header = some t → now.toInt - t < 2 ^ 63) ∧
    ((verifyStripeSignature codec secret header body now = .ok () ↔
        ∃ t, lastTimestamp header = some t ∧ |now.toInt - t| ≤ 300 ∧
          HasSignature codec secret header body t) ↔
      ¬(lastTimestamp header = some (now.toInt - 2 ^ 63) ∧
        HasSignature codec secret header body (now.toInt - 2 ^ 63))) := by
  have hok := @verifyStripeSignature_ok_iff codec secret header body now hnow hsmall
  have hexact : (verifyStripeSignature codec secret header body now = .ok () ↔
      ∃ t, lastTimestamp header = some t ∧ |now.toInt - t| ≤ 300 ∧
        HasSignature codec secret header body t) ↔
      ¬(lastTimestamp header = some (now.toInt - 2 ^ 63) ∧
        HasSignature codec secret header body (now.toInt - 2 ^ 63)) := by
    rw [hok]
    constructor
    · rintro hiff ⟨hlast, hsignature⟩
      obtain ⟨t, ht, hfresh, -⟩ := hiff.1 ⟨_, hlast, .inr rfl, hsignature⟩
      obtain rfl := Option.some.inj (hlast.symm.trans ht)
      exact absurd hfresh (by rw [sub_sub_cancel]; decide)
    · intro hnone
      constructor
      · rintro ⟨t, ht, hfresh | rfl, hsignature⟩
        · exact ⟨t, ht, hfresh, hsignature⟩
        · exact absurd ⟨ht, hsignature⟩ hnone
      · rintro ⟨t, ht, hfresh, hsignature⟩
        exact ⟨t, ht, .inl hfresh, hsignature⟩
  refine ⟨?_, hexact⟩
  rw [skewResults_in_iff hnow, hexact]
  constructor
  · rintro ⟨-, hin⟩
    exact hin
  · intro hin
    refine ⟨?_, hin⟩
    rintro ⟨hlast, -⟩
    have hless := hin _ hlast
    omega

/-! ### Concrete signatures -/

/-- HMAC over `Sha256.digest`, whose blocks have 64 bytes. -/
def hmacSha256 (key message : List UInt8) : List UInt8 :=
  let key := if 64 < key.length then Sha256.digest key else key
  let block := key ++ List.replicate (64 - key.length) 0
  Sha256.digest (block.map (· ^^^ 0x5c) ++ Sha256.digest (block.map (· ^^^ 0x36) ++ message))

def hexDigit (c : Char) : Option UInt8 :=
  if '0' ≤ c ∧ c ≤ '9' then some (UInt8.ofNat (c.toNat - 48))
  else if 'a' ≤ c ∧ c ≤ 'f' then some (UInt8.ofNat (c.toNat - 87))
  else if 'A' ≤ c ∧ c ≤ 'F' then some (UInt8.ofNat (c.toNat - 55))
  else none

def hexBytes : List Char → Option (List UInt8)
  | [] => some []
  | [_] => none
  | high :: low :: rest => do
    let high ← hexDigit high
    let low ← hexDigit low
    return (16 * high + low) :: (← hexBytes rest)

/-- The functions of the crates. -/
def sha256Codec : SignatureCodec where
  hmac := hmacSha256
  fromHex s := hexBytes s.toList

/-- A header with parts that do not read, a repeated timestamp and a signature of `{}` at the last one. -/
def freshHeader : String :=
  "t=zero, v1=00,x,t=1767225500,v1=61fafed723a6f50ea6b4e40c16db46cecbf55036f2733a36beb0f0527b268974"

theorem stripe_signature_iff_fresh :
    verifyStripeSignature sha256Codec "whsec_test" freshHeader "{}".toUTF8.toList 1767225600 = .ok () ∧
      ∀ i ∈ skewResults sha256Codec freshHeader 1767225600, InI64 i := by
  have hlast : lastTimestamp freshHeader = some 1767225500 := by decide +kernel
  have hsignature : HasSignature sha256Codec "whsec_test" freshHeader "{}".toUTF8.toList 1767225500 :=
    ⟨"61fafed723a6f50ea6b4e40c16db46cecbf55036f2733a36beb0f0527b268974", by decide +kernel,
      by decide +kernel⟩
  obtain ⟨haccepts, hrange⟩ := (stripe_signature_iff sha256Codec "whsec_test" freshHeader
    "{}".toUTF8.toList 1767225600 (by decide) (by decide)).1.2 fun t ht => by
      obtain rfl := Option.some.inj (hlast.symm.trans ht)
      decide
  exact ⟨haccepts.2 ⟨_, hlast, by decide, hsignature⟩, hrange⟩

/-- A signature of `{}` at `2 ^ 63` seconds before the same instant. -/
def ancientHeader : String :=
  "t=-9223372035087550208,v1=f10b80c2c8a5647b9c90d3774f2dc7d068c5009c2d6761b72234899b2e70a84a"

/-- A timestamp 292 billion years old is accepted as fresh. -/
theorem stripe_signature_ancient :
    verifyStripeSignature sha256Codec "whsec_test" ancientHeader "{}".toUTF8.toList 1767225600 = .ok () ∧
    (¬∃ t, lastTimestamp ancientHeader = some t ∧ |(1767225600 : Int64).toInt - t| ≤ 300 ∧
      HasSignature sha256Codec "whsec_test" ancientHeader "{}".toUTF8.toList t) ∧
    ∃ i ∈ skewResults sha256Codec ancientHeader 1767225600, ¬InI64 i := by
  have hnow : (1767225600 : Int64).toInt = 1767225600 := by decide
  have hlast : lastTimestamp ancientHeader = some (-9223372035087550208) := by decide +kernel
  have hsignature : HasSignature sha256Codec "whsec_test" ancientHeader "{}".toUTF8.toList
      (-9223372035087550208) :=
    ⟨"f10b80c2c8a5647b9c90d3774f2dc7d068c5009c2d6761b72234899b2e70a84a", by decide +kernel,
      by decide +kernel⟩
  refine ⟨(verifyStripeSignature_ok_iff (by decide) (by decide)).2
    ⟨_, hlast, .inr (by decide), hsignature⟩, ?_, ?_⟩
  · rintro ⟨t, ht, hfresh, -⟩
    obtain rfl := Option.some.inj (hlast.symm.trans ht)
    exact absurd hfresh (by decide)
  · by_contra hall
    simp only [not_exists, not_and, not_not] at hall
    have hless := (skewResults_in_iff (by decide)).1 hall _ hlast
    rw [hnow] at hless
    omega

end AtlasTeam
