import AtlasTeam.Lib.TokenBucket
import AtlasTeam.Store.Mem

/-!
# Rate limits (`limit.rs`)

A bucket for each class and key, refilled at the class's budget per minute; now and then the buckets that
were idle for two minutes are dropped. Times are seconds. `Tracks` says that a bucket is the level of its own
calls, or that it was dropped and this level is full; every call keeps it (`tracks_after`). What a call is
answered is up to the earlier calls of its class and key alone (`answerWith_eq`): it is the same whether
buckets are dropped or not (`eviction_neutral`), and what a token bucket allows (`budget_enforced`).
-/

namespace AtlasTeam

open TokenBucket (Meter Level)

/-- Seconds. -/
abbrev Instant := ℚ

inductive RlClass where
  | auth
  | webhook
  | «public»
deriving DecidableEq

/-- `PRUNE_INTERVAL`. -/
def pruneInterval : ℚ := 120

/-- `IDLE_EVICT`. -/
def idleEvict : ℚ := 120

/-- `Instant::duration_since`: none when the other one is later. -/
def Instant.durationSince (now earlier : Instant) : ℚ := max (now - earlier) 0

structure Bucket where
  tokens : ℚ
  updated : Instant

structure Buckets where
  map : Table (RlClass × String) Bucket
  lastPrune : Instant

/-- `AppConfig`, as far as it limits rates. -/
structure RateConfig where
  rlAuthPerMin : ℕ
  rlWebhookPerMin : ℕ
  rlPublicPerMin : ℕ

/-- `RateLimiter` but for its buckets, which are the state. -/
structure RateLimiter where
  authPerMin : ℕ
  webhookPerMin : ℕ
  publicPerMin : ℕ

/-- `RateLimiter::new`. -/
def RateLimiter.new (config : RateConfig) (now : Instant) : RateLimiter × Buckets :=
  ({ authPerMin := config.rlAuthPerMin
     webhookPerMin := config.rlWebhookPerMin
     publicPerMin := config.rlPublicPerMin },
    { map := ∅, lastPrune := now })

/-- The pruning step of `check`. -/
def Buckets.prune (now : Instant) (buckets : Buckets) : Buckets :=
  if pruneInterval ≤ now.durationSince buckets.lastPrune then
    { map := buckets.map.retainRows fun _ bucket => now.durationSince bucket.updated < idleEvict
      lastPrune := now }
  else buckets

namespace RateLimiter

/-- `per_min`. -/
def perMin (limiter : RateLimiter) : RlClass → ℕ
  | .auth => limiter.authPerMin
  | .webhook => limiter.webhookPerMin
  | .«public» => limiter.publicPerMin

/-- `check`; its pruning step is a parameter. -/
def check (prune : Instant → Buckets → Buckets) (limiter : RateLimiter) (rlClass : RlClass)
    (key : String) (now : Instant) (buckets : Buckets) : Except ℕ Unit × Buckets :=
  let perMin := limiter.perMin rlClass
  if perMin = 0 then (.ok (), buckets)
  else
    let capacity : ℚ := perMin
    let rate := capacity / 60
    let buckets := prune now buckets
    let bucket := (AList.lookup (rlClass, key) buckets.map).getD { tokens := capacity, updated := now }
    let elapsed := now.durationSince bucket.updated
    let tokens := min (bucket.tokens + elapsed * rate) capacity
    let put (tokens : ℚ) : Buckets :=
      { buckets with map := AList.insert (rlClass, key) { tokens, updated := now } buckets.map }
    if 1 ≤ tokens then (.ok (), put (tokens - 1))
    else (.error (max ⌈(1 - tokens) / rate⌉ 1).toNat, put tokens)

end RateLimiter

/-! ### Runs -/

structure RlCall where
  rlClass : RlClass
  key : String
  now : Instant
deriving DecidableEq

/-- A call is on a class and key. -/
def RlCall.On (rlClass : RlClass) (key : String) (call : RlCall) : Prop :=
  (call.rlClass, call.key) = (rlClass, key)

instance (rlClass : RlClass) (key : String) (call : RlCall) : Decidable (call.On rlClass key) :=
  inferInstanceAs (Decidable (_ = _))

/-- Calls at nondecreasing times. -/
def InOrder (calls : List RlCall) : Prop := calls.Pairwise fun a b => a.now ≤ b.now

instance (calls : List RlCall) : Decidable (InOrder calls) :=
  inferInstanceAs (Decidable (List.Pairwise _ _))

namespace RateLimiter

/-- The buckets after calls. -/
def afterWith (prune : Instant → Buckets → Buckets) (limiter : RateLimiter) (calls : List RlCall)
    (buckets : Buckets) : Buckets :=
  calls.foldl (fun buckets call => (limiter.check prune call.rlClass call.key call.now buckets).2) buckets

/-- Calls one after the other, each with its answer. -/
def runWith (prune : Instant → Buckets → Buckets) (limiter : RateLimiter) :
    List RlCall → Buckets → List (RlCall × Except ℕ Unit)
  | [], _ => []
  | call :: calls, buckets =>
    let (answer, buckets) := limiter.check prune call.rlClass call.key call.now buckets
    (call, answer) :: runWith prune limiter calls buckets

theorem runWith_append (prune : Instant → Buckets → Buckets) (limiter : RateLimiter)
    (calls calls' : List RlCall) (buckets : Buckets) :
    limiter.runWith prune (calls ++ calls') buckets =
      limiter.runWith prune calls buckets ++
        limiter.runWith prune calls' (limiter.afterWith prune calls buckets) := by
  induction calls generalizing buckets with
  | nil => rfl
  | cons call calls ih => exact congrArg (List.cons _) (ih _)

end RateLimiter

/-- The calls of a new limiter, each with its answer. -/
def limitedWith (prune : Instant → Buckets → Buckets) (config : RateConfig) (created : Instant)
    (calls : List RlCall) : List (RlCall × Except ℕ Unit) :=
  let (limiter, buckets) := RateLimiter.new config created
  limiter.runWith prune calls buckets

/-- What a new limiter answers to a call after earlier calls. -/
def answerWith (prune : Instant → Buckets → Buckets) (config : RateConfig) (created : Instant)
    (calls : List RlCall) (call : RlCall) : Except ℕ Unit :=
  let (limiter, buckets) := RateLimiter.new config created
  (limiter.check prune call.rlClass call.key call.now (limiter.afterWith prune calls buckets)).1

theorem limitedWith_concat (prune : Instant → Buckets → Buckets) (config : RateConfig) (created : Instant)
    (calls : List RlCall) (call : RlCall) :
    limitedWith prune config created (calls ++ [call]) =
      limitedWith prune config created calls ++ [(call, answerWith prune config created calls call)] :=
  RateLimiter.runWith_append prune _ calls [call] _

theorem limitedWith_calls (prune : Instant → Buckets → Buckets) (config : RateConfig) (created : Instant)
    (calls : List RlCall) : (limitedWith prune config created calls).map Prod.fst = calls := by
  induction calls using List.reverseRecOn with
  | nil => rfl
  | append_singleton calls call ih =>
    rw [limitedWith_concat, List.map_append, ih]
    rfl

/-- An answer of a run is the answer after the calls before it. -/
theorem limitedWith_split {prune : Instant → Buckets → Buckets} {config : RateConfig} {created : Instant}
    {calls : List RlCall} {before rest : List (RlCall × Except ℕ Unit)} {call : RlCall}
    {answer : Except ℕ Unit}
    (h : limitedWith prune config created calls = before ++ (call, answer) :: rest) :
    calls = before.map Prod.fst ++ call :: rest.map Prod.fst ∧
      answer = answerWith prune config created (before.map Prod.fst) call := by
  have hcalls : calls = before.map Prod.fst ++ call :: rest.map Prod.fst := by
    have hmap := congrArg (List.map Prod.fst) h
    rwa [limitedWith_calls, List.map_append] at hmap
  refine ⟨hcalls, ?_⟩
  have hrun : limitedWith prune config created (before.map Prod.fst ++ call :: rest.map Prod.fst) =
      limitedWith prune config created (before.map Prod.fst) ++ _ :=
    RateLimiter.runWith_append prune _ (before.map Prod.fst) (call :: rest.map Prod.fst) _
  have hlength : before.length = (limitedWith prune config created (before.map Prod.fst)).length := by
    have hlength := congrArg List.length (limitedWith_calls prune config created (before.map Prod.fst))
    rwa [List.length_map, List.length_map, eq_comm] at hlength
  rw [← hcalls, h] at hrun
  exact congrArg Prod.snd (List.cons.inj (List.append_inj_right hrun hlength)).1

/-- `check`, call after call, with its pruning step. -/
def limited : RateConfig → Instant → List RlCall → List (RlCall × Except ℕ Unit) :=
  limitedWith Buckets.prune

/-- The same without the pruning step. -/
def limitedUnpruned : RateConfig → Instant → List RlCall → List (RlCall × Except ℕ Unit) :=
  limitedWith fun _ buckets => buckets

/-! ### Dropped buckets -/

/-- A step that drops buckets, but only idle ones. -/
def DropsIdle (prune : Instant → Buckets → Buckets) : Prop :=
  ∀ now buckets place, AList.lookup place (prune now buckets).map = AList.lookup place buckets.map ∨
    AList.lookup place (prune now buckets).map = none ∧
      ∀ bucket ∈ AList.lookup place buckets.map, idleEvict ≤ now - bucket.updated

theorem dropsIdle_id : DropsIdle fun _ buckets => buckets := fun _ _ _ => .inl rfl

theorem dropsIdle_prune : DropsIdle Buckets.prune := by
  intro now buckets place
  rw [Buckets.prune]
  split_ifs with hdue
  · rw [Table.lookup_retainRows]
    cases hbucket : AList.lookup place buckets.map with
    | none => exact .inl rfl
    | some bucket =>
      by_cases hfresh : now.durationSince bucket.updated < idleEvict
      · exact .inl (by rw [Option.filter_some, if_pos (decide_eq_true hfresh)])
      · refine .inr ⟨by rw [Option.filter_some, if_neg (by simpa using hfresh)], ?_⟩
        rintro bucket' ⟨⟩
        rcases le_max_iff.1 (not_lt.1 hfresh) with hidle | hidle
        · exact hidle
        · exact absurd hidle (by decide)
  · exact .inl rfl

/-- The bucket that is there for a level, if one is: its tokens, or none while it is full. -/
inductive Tracks {m : Meter ℚ} (level : Level m) (now : Instant) : Option Bucket → Prop
  | held : Tracks level now (some { tokens := level.tokens, updated := level.since })
  | dropped (h : ∀ later, now ≤ later → level.refill later = m.capacity) : Tracks level now none

section
variable {m : Meter ℚ} {level : Level m} {now : Instant}

theorem Tracks.mono {bucket : Option Bucket} (h : Tracks level now bucket) {later : Instant}
    (hle : now ≤ later) : Tracks level later bucket := by
  cases h with
  | held => exact .held
  | dropped h => exact .dropped fun last hlast => h last (hle.trans hlast)

/-- A bucket that is dropped for being idle would be full from then on. -/
theorem Tracks.prune {prune : Instant → Buckets → Buckets} (hprune : DropsIdle prune)
    (hidle : m.capacity ≤ idleEvict * m.rate) {buckets : Buckets} {place : RlClass × String}
    (h : Tracks level now (AList.lookup place buckets.map)) :
    Tracks level now (AList.lookup place (prune now buckets).map) := by
  rcases hprune now buckets place with hsame | ⟨hnone, hbucket⟩
  · rwa [hsame]
  rw [hnone]
  generalize AList.lookup place buckets.map = bucket at h hbucket
  cases h with
  | held =>
    refine .dropped fun later hlater => Level.refill_of_idle (hidle.trans ?_)
    apply mul_le_mul_of_nonneg_right _ m.rate_pos.le
    exact (hbucket _ rfl).trans (sub_le_sub_right hlater _)
  | dropped h => exact .dropped h

end

/-! ### What a call is answered -/

/-- The bucket of a class that is limited. -/
def RateLimiter.meter (limiter : RateLimiter) (rlClass : RlClass) (h : 1 ≤ limiter.perMin rlClass) :
    Meter ℚ where
  capacity := limiter.perMin rlClass
  rate := limiter.perMin rlClass / 60
  one_le_capacity := Nat.one_le_cast.2 h
  rate_pos := div_pos (Nat.cast_pos.2 h) (by norm_num)

/-- Idle for as long as it takes to be dropped, it fills up. -/
theorem RateLimiter.meter_idle (limiter : RateLimiter) (rlClass : RlClass) (h : 1 ≤ limiter.perMin rlClass) :
    (limiter.meter rlClass h).capacity ≤ idleEvict * (limiter.meter rlClass h).rate := by
  have hpos := zero_le_one.trans (limiter.meter rlClass h).one_le_capacity
  simp only [meter, idleEvict] at hpos ⊢
  linarith

/-- What is answered at a level. -/
def levelAnswer {m : Meter ℚ} (level : Level m) (now : Instant) : Except ℕ Unit :=
  if 1 ≤ level.refill now then .ok () else .error (max ⌈(1 - level.refill now) / m.rate⌉ 1).toNat

section
variable {prune : Instant → Buckets → Buckets} {limiter : RateLimiter} {rlClass : RlClass} {key : String}
  {now : Instant} {buckets : Buckets}

/-- A call on a tracked bucket is answered by its level and takes from it. -/
theorem check_level (hprune : DropsIdle prune) (h : 1 ≤ limiter.perMin rlClass)
    {level : Level (limiter.meter rlClass h)}
    (htracks : Tracks level now (AList.lookup (rlClass, key) buckets.map)) :
    (limiter.check prune rlClass key now buckets).1 = levelAnswer level now ∧
      Tracks (level.take now) now
        (AList.lookup (rlClass, key) (limiter.check prune rlClass key now buckets).2.map) := by
  have hpruned := htracks.prune hprune (limiter.meter_idle rlClass h)
  obtain ⟨bucket, hbucket⟩ : ∃ bucket, (AList.lookup (rlClass, key) (prune now buckets).map).getD
    { tokens := limiter.perMin rlClass, updated := now } = bucket := ⟨_, rfl⟩
  have htokens : min (bucket.tokens + now.durationSince bucket.updated * (limiter.perMin rlClass / 60))
      (limiter.perMin rlClass) = level.refill now := by
    generalize AList.lookup (rlClass, key) (prune now buckets).map = found at hpruned hbucket
    cases hpruned with
    | held =>
      rw [← hbucket]
      rfl
    | dropped hfull =>
      rw [← hbucket, hfull now le_rfl]
      simp only [Option.getD_none, Instant.durationSince, sub_self, max_self, zero_mul, add_zero, min_self]
      rfl
  have hlevel : (level.take now).tokens = if 1 ≤ level.refill now then level.refill now - 1
    else level.refill now := level.take_tokens now
  have hheld : Tracks (level.take now) now (some { tokens := (level.take now).tokens, updated := now }) := by
    have hheld := @Tracks.held _ (level.take now) now
    rwa [Level.take_since] at hheld
  simp only [RateLimiter.check, hbucket, htokens, if_neg (Nat.one_le_iff_ne_zero.1 h)]
  rw [levelAnswer]
  split_ifs at hlevel ⊢ with htake
  · refine ⟨rfl, ?_⟩
    rwa [AList.lookup_insert, ← hlevel]
  · refine ⟨rfl, ?_⟩
    rwa [AList.lookup_insert, ← hlevel]

/-- A call on another class or key changes nothing for it. -/
theorem check_frame (hprune : DropsIdle prune) {m : Meter ℚ} (hidle : m.capacity ≤ idleEvict * m.rate)
    {level : Level m} {place : RlClass × String} (hne : place ≠ (rlClass, key))
    (htracks : Tracks level now (AList.lookup place buckets.map)) :
    Tracks level now (AList.lookup place (limiter.check prune rlClass key now buckets).2.map) := by
  have hpruned := htracks.prune hprune hidle
  simp only [RateLimiter.check]
  split_ifs
  · exact htracks
  · rwa [AList.lookup_insert_ne hne]
  · rwa [AList.lookup_insert_ne hne]

end

/-! ### Runs -/

/-- The times of the calls on a class and key. -/
def timesOf (rlClass : RlClass) (key : String) (calls : List RlCall) : List ℚ :=
  (calls.filter (·.On rlClass key)).map RlCall.now

theorem timesOf_append (rlClass : RlClass) (key : String) (calls calls' : List RlCall) :
    timesOf rlClass key (calls ++ calls') = timesOf rlClass key calls ++ timesOf rlClass key calls' := by
  rw [timesOf, List.filter_append, List.map_append]
  rfl

theorem timesOf_singleton (rlClass : RlClass) (key : String) (call : RlCall) :
    timesOf rlClass key [call] = if call.On rlClass key then [call.now] else [] := by
  rw [timesOf, List.filter_singleton]
  split_ifs with hon <;> simp [hon]

theorem InOrder.timesOf {calls : List RlCall} (h : InOrder calls) (rlClass : RlClass) (key : String) :
    (timesOf rlClass key calls).Pairwise (· ≤ ·) :=
  List.pairwise_map.2 (List.Pairwise.filter _ h)

theorem InOrder.concat {calls : List RlCall} {call : RlCall} (h : InOrder (calls ++ [call])) :
    InOrder calls ∧ ∀ earlier ∈ calls, earlier.now ≤ call.now := by
  obtain ⟨hcalls, -, hlast⟩ := List.pairwise_append.1 h
  exact ⟨hcalls, fun earlier hearlier => hlast earlier hearlier call List.mem_cons_self⟩

theorem InOrder.upTo {calls : List RlCall} {call : RlCall} {rest : List RlCall}
    (h : InOrder (calls ++ call :: rest)) : InOrder (calls ++ [call]) := by
  rw [List.append_cons] at h
  exact (List.pairwise_append.1 h).1

/-- The level of a class and key after calls. -/
def levelAfter (limiter : RateLimiter) {rlClass : RlClass} (h : 1 ≤ limiter.perMin rlClass) (key : String)
    (calls : List RlCall) : Level (limiter.meter rlClass h) :=
  (Level.full _ 0).after (timesOf rlClass key calls)

theorem levelAfter_concat (limiter : RateLimiter) {rlClass : RlClass} (h : 1 ≤ limiter.perMin rlClass)
    (key : String) (calls : List RlCall) (call : RlCall) :
    levelAfter limiter h key (calls ++ [call]) =
      if call.On rlClass key then (levelAfter limiter h key calls).take call.now
      else levelAfter limiter h key calls := by
  rw [levelAfter, timesOf_append, Level.after_append, timesOf_singleton]
  split_ifs with hon
  · rfl
  · rfl

/-- Calls on other classes and keys leave the level alone. -/
theorem levelAfter_between (limiter : RateLimiter) {rlClass : RlClass} (h : 1 ≤ limiter.perMin rlClass)
    {key : String} (calls : List RlCall) {call : RlCall} (hon : call.On rlClass key) {between : List RlCall}
    (hbetween : ∀ other ∈ between, ¬ other.On rlClass key) :
    levelAfter limiter h key (calls ++ call :: between) = (levelAfter limiter h key calls).take call.now := by
  have hnone : timesOf rlClass key between = [] := by
    rw [timesOf, List.filter_eq_nil_iff.2 fun other hother => by simpa using hbetween other hother]
    rfl
  rw [List.append_cons, levelAfter, timesOf_append, hnone, List.append_nil]
  exact (levelAfter_concat limiter h key calls call).trans (if_pos hon)

section
variable {prune : Instant → Buckets → Buckets} {config : RateConfig} {created : Instant} {rlClass : RlClass}
  {key : String}

/-- After any calls the bucket of a class and key is the level of its own calls. -/
theorem tracks_after (hprune : DropsIdle prune) (h : 1 ≤ (RateLimiter.new config created).1.perMin rlClass)
    {calls : List RlCall} (hsorted : InOrder calls) {now : Instant} (hnow : ∀ call ∈ calls, call.now ≤ now) :
    Tracks (levelAfter _ h key calls) now (AList.lookup (rlClass, key)
      ((RateLimiter.new config created).1.afterWith prune calls (RateLimiter.new config created).2).map) := by
  induction calls using List.reverseRecOn generalizing now with
  | nil => exact .dropped fun later _ => Level.refill_of_full rfl later
  | append_singleton calls call ih =>
    obtain ⟨hcalls, hlast⟩ := hsorted.concat
    have hbefore := ih hcalls hlast
    refine Tracks.mono ?_ (hnow call (List.mem_append_right _ List.mem_cons_self))
    rw [levelAfter_concat, RateLimiter.afterWith, List.foldl_append]
    split_ifs with hon
    · obtain ⟨rfl, rfl⟩ := Prod.mk.inj hon
      exact (check_level hprune h hbefore).2
    · exact check_frame hprune (RateLimiter.meter_idle _ _ h) (Ne.symm hon) hbefore

/-- The answer to a call depends on the earlier calls of its class and key only. -/
theorem answerWith_eq (hprune : DropsIdle prune) (h : 1 ≤ (RateLimiter.new config created).1.perMin rlClass)
    {calls : List RlCall} {call : RlCall} (hsorted : InOrder (calls ++ [call])) (hon : call.On rlClass key) :
    answerWith prune config created calls call = levelAnswer (levelAfter _ h key calls) call.now := by
  obtain ⟨rfl, rfl⟩ := Prod.mk.inj hon
  obtain ⟨hcalls, hlast⟩ := hsorted.concat
  exact (check_level hprune h (tracks_after hprune h hcalls hlast)).1

theorem answerWith_disabled (h : (RateLimiter.new config created).1.perMin rlClass = 0) {calls : List RlCall}
    {call : RlCall} (hon : call.On rlClass key) : answerWith prune config created calls call = .ok () := by
  obtain ⟨rfl, rfl⟩ := Prod.mk.inj hon
  simp only [answerWith, RateLimiter.check, if_pos h]

/-- The calls that are admitted in a window are those that the level of their class and key admits. -/
theorem countP_limitedWith (hprune : DropsIdle prune)
    (h : 1 ≤ (RateLimiter.new config created).1.perMin rlClass) {calls : List RlCall}
    (hsorted : InOrder calls) (start last : ℚ) :
    (limitedWith prune config created calls).countP (fun (call, answer) =>
        call.On rlClass key ∧ start ≤ call.now ∧ call.now ≤ last ∧ answer.isOk) =
      ((Level.full ((RateLimiter.new config created).1.meter rlClass h) 0).admitted
        (timesOf rlClass key calls)).countP (fun time => start ≤ time ∧ time ≤ last) := by
  induction calls using List.reverseRecOn with
  | nil => rfl
  | append_singleton calls call ih =>
    rw [limitedWith_concat, List.countP_append, ih hsorted.concat.1, timesOf_append, timesOf_singleton,
      Level.admitted_append, List.countP_append, Nat.add_left_cancel_iff, List.countP_singleton]
    by_cases hon : call.On rlClass key
    · have hanswer := answerWith_eq hprune h hsorted hon
      rw [levelAnswer, levelAfter] at hanswer
      rw [if_pos hon, Level.admitted, Level.admitted, hanswer]
      by_cases htake : 1 ≤ ((Level.full ((RateLimiter.new config created).1.meter rlClass h) 0).after
          (timesOf rlClass key calls)).refill call.now
      · simp only [if_pos htake, List.countP_singleton, hon, Except.isOk, Except.toBool, true_and, and_true]
      · simp only [if_neg htake, List.countP_nil, Except.isOk, Except.toBool, Bool.false_eq_true, and_false,
          decide_false, if_false]
    · rw [if_neg hon, Level.admitted, List.countP_nil, if_neg (by simp [hon])]

end

/-- A refusal says when to come back: the missing part of a token is there by then. -/
theorem levelAnswer_error {m : Meter ℚ} {level : Level m} {now : Instant} {n : ℕ}
    (h : levelAnswer level now = .error n) :
    ¬ 1 ≤ level.refill now ∧ 1 ≤ n ∧ (1 - level.refill now) / m.rate ≤ n := by
  rw [levelAnswer] at h
  split_ifs at h with hshort
  obtain rfl := Except.error.inj h
  have hpos : 1 ≤ max ⌈(1 - level.refill now) / m.rate⌉ 1 := le_max_right _ _
  have hcast : ((max ⌈(1 - level.refill now) / m.rate⌉ 1).toNat : ℤ) =
      max ⌈(1 - level.refill now) / m.rate⌉ 1 := Int.toNat_of_nonneg (zero_le_one.trans hpos)
  refine ⟨hshort, by omega, (Int.le_ceil _).trans ?_⟩
  rw [← Int.cast_natCast, hcast]
  exact Int.cast_le.2 (le_max_left _ _)

/-- Whether idle buckets are dropped or kept, every call is answered alike. -/
theorem eviction_neutral (config : RateConfig) (created : Instant) {calls : List RlCall}
    (hsorted : InOrder calls) : limited config created calls = limitedUnpruned config created calls := by
  induction calls using List.reverseRecOn with
  | nil => rfl
  | append_singleton calls call ih =>
    rw [limited, limitedUnpruned, limitedWith_concat, limitedWith_concat]
    have hanswer : answerWith Buckets.prune config created calls call =
        answerWith (fun _ buckets => buckets) config created calls call := by
      rcases Nat.eq_zero_or_pos ((RateLimiter.new config created).1.perMin call.rlClass) with hzero | hpos
      · rw [answerWith_disabled hzero rfl, answerWith_disabled hzero rfl]
      · rw [answerWith_eq dropsIdle_prune hpos hsorted rfl, answerWith_eq dropsIdle_id hpos hsorted rfl]
    rw [hanswer]
    exact congrArg (· ++ _) (ih hsorted.concat.1)

/-- Of three clients one comes back after its bucket was dropped, at the sweep of another one's call. -/
def sweptCalls : List RlCall :=
  [⟨.auth, "10.0.0.1", 0⟩, ⟨.auth, "10.0.0.1", 1⟩, ⟨.public, "10.0.0.2", 125⟩, ⟨.auth, "10.0.0.1", 126⟩,
    ⟨.webhook, "/webhooks/payments/stripe", 127⟩]

theorem eviction_neutral_swept :
    limited ⟨1, 120, 60⟩ 0 sweptCalls = limitedUnpruned ⟨1, 120, 60⟩ 0 sweptCalls ∧
      (limited ⟨1, 120, 60⟩ 0 sweptCalls).map (fun e => e.2.toOption.isSome) =
        [true, false, true, true, true] :=
  ⟨eviction_neutral ⟨1, 120, 60⟩ 0 (by decide +kernel), by decide +kernel⟩

/-- In every window the calls admitted on a class and key keep to its budget; and a refused one is admitted
when it comes again after the seconds it was told, if none came on it in between. -/
theorem budget_enforced (config : RateConfig) (created : Instant) (rlClass : RlClass) (key : String)
    (hbudget : 1 ≤ (RateLimiter.new config created).1.perMin rlClass) {calls : List RlCall}
    (hsorted : InOrder calls) :
    (∀ start length : ℚ, 0 ≤ length →
      ((limited config created calls).countP (fun (call, answer) =>
        call.On rlClass key ∧ start ≤ call.now ∧ call.now ≤ start + length ∧ answer.isOk) : ℚ) ≤
        (RateLimiter.new config created).1.perMin rlClass +
          (RateLimiter.new config created).1.perMin rlClass * length / 60) ∧
    ∀ before call (n : ℕ) rest, limited config created calls = before ++ (call, .error n) :: rest →
      call.On rlClass key → 1 ≤ n ∧
        ∀ between later answer rest', rest = between ++ (later, answer) :: rest' →
          (∀ e ∈ between, ¬ e.1.On rlClass key) → later.On rlClass key → call.now + (n : ℚ) ≤ later.now →
          answer = .ok () := by
  refine ⟨fun start length hlength => ?_, ?_⟩
  · rw [limited, countP_limitedWith dropsIdle_prune hbudget hsorted]
    have hwindow := le_add_of_nonneg_right (a := start) hlength
    refine (Level.admitted_window _ (hsorted.timesOf rlClass key) hwindow).trans_eq ?_
    rw [add_sub_cancel_left, RateLimiter.meter, div_mul_eq_mul_div]
  · intro before call n rest hrefused hon
    obtain ⟨hcalls, hanswer⟩ := limitedWith_split hrefused
    rw [answerWith_eq dropsIdle_prune hbudget (hcalls ▸ hsorted).upTo hon, eq_comm] at hanswer
    obtain ⟨hshort, hpos, hwait⟩ := levelAnswer_error hanswer
    refine ⟨hpos, ?_⟩
    rintro between later answer rest' rfl hbetween hlater hafter
    have hrun : limited config created calls =
        (before ++ (call, .error n) :: between) ++ (later, answer) :: rest' := by
      rw [hrefused, List.append_assoc, List.cons_append]
    obtain ⟨hcalls', hanswer'⟩ := limitedWith_split hrun
    have hothers : ∀ other ∈ between.map Prod.fst, ¬ other.On rlClass key := by
      intro other hother
      obtain ⟨e, he, rfl⟩ := List.mem_map.1 hother
      exact hbetween e he
    have hlevel : levelAfter _ hbudget key ((before ++ (call, .error n) :: between).map Prod.fst) =
        (levelAfter _ hbudget key (before.map Prod.fst)).take call.now := by
      rw [List.map_append]
      exact levelAfter_between _ hbudget (before.map Prod.fst) hon hothers
    -- the missing part of a token has been refilled since the refusal
    have htoken := Level.one_le_refill_later hshort (hwait.trans (le_sub_iff_add_le'.2 hafter))
    rw [hanswer', answerWith_eq dropsIdle_prune hbudget (hcalls' ▸ hsorted).upTo hlater, hlevel, levelAnswer,
      if_pos htoken]

/-- The third call of a client with two in a minute is told to wait half a minute, and does. -/
def hastyCalls : List RlCall :=
  [⟨.auth, "10.0.0.1", 0⟩, ⟨.auth, "10.0.0.1", 0⟩, ⟨.auth, "10.0.0.1", 0⟩, ⟨.auth, "10.0.0.2", 10⟩,
    ⟨.auth, "10.0.0.1", 30⟩]

def hastyAnswers (last : Except ℕ Unit) : List (RlCall × Except ℕ Unit) :=
  hastyCalls.zip [.ok (), .ok (), .error 30, .ok (), last]

theorem budget_enforced_hasty :
    ((limited ⟨2, 120, 60⟩ 0 hastyCalls).countP (fun (call, answer) =>
        call.On .auth "10.0.0.1" ∧ 0 ≤ call.now ∧ call.now ≤ 0 + 30 ∧ answer.isOk) : ℚ) ≤ 2 + 2 * 30 / 60 ∧
      ∃ last, limited ⟨2, 120, 60⟩ 0 hastyCalls = hastyAnswers last ∧ last = .ok () := by
  have hbudget := @budget_enforced ⟨2, 120, 60⟩ 0 .auth "10.0.0.1" (by decide) hastyCalls (by decide +kernel)
  refine ⟨hbudget.1 0 30 (by norm_num), ?_⟩
  obtain ⟨last, hanswers⟩ : ∃ last, limited ⟨2, 120, 60⟩ 0 hastyCalls = hastyAnswers last :=
    ⟨.ok (), by decide +kernel⟩
  have hrefused := hbudget.2 ((hastyAnswers last).take 2) ⟨.auth, "10.0.0.1", 0⟩ 30
    ((hastyAnswers last).drop 3) hanswers rfl
  exact ⟨last, hanswers, hrefused.2 [(⟨.auth, "10.0.0.2", 10⟩, .ok ())] ⟨.auth, "10.0.0.1", 30⟩ last [] rfl
    (by decide) rfl (by norm_num)⟩

end AtlasTeam
