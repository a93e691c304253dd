import WiseWay.ClientTransport
import WiseWay.Doubles

/-! # Automatic retries

`createRetryFetch` repeats a request while its policy permits and attempts are left. Attempts
are counted in doubles, so that the counter stands still at 2 ^ 53. -/
namespace RetryFetch

open ClientTransport Doubles
open Records (Text)

/-! ## The policy -/

/-- A number of JavaScript; the numbers that are not finite are treated alike. -/
inductive Number where
  | finite (q : ℚ)
  | notFinite

/-- The part of the configuration that decides about attempts; `none` is left out. -/
structure RetryConfig where
  maxAttempts : Option Number

def defaultMaxAttempts : Number := .finite 3

/-- The bound of attempts that a configuration gives. -/
def maxAttempts (config : RetryConfig) : ℕ :=
  match config.maxAttempts.getD defaultMaxAttempts with
  | .finite q => max 1 ⌊q⌋.toNat
  | .notFinite => 3

structure RetryOperationMeta extends OperationMeta where
  method : Text
  deriving DecidableEq

/-- What a base call may throw. -/
inductive Thrown where
  | transportError (error : TransportError)
  | response (response : Response)
  /-- An object with a response and its parsed error. -/
  | result (response : Response) (error : Option ErrorDetails)
  | other (value : Text)
  deriving DecidableEq

def Thrown.toTransportError : Thrown → TransportError
  | .transportError error => error
  | .response answer => ClientTransport.toTransportError { answer with error := none }
  | .result answer error => ClientTransport.toTransportError { answer with error := error }
  | .other _ => networkError

def shouldRetry (error : TransportError) (operation : Option RetryOperationMeta) : Bool :=
  if error.retryable = false then false
  else
    match operation with
    | none => false
    | some operation =>
      if operation.idempotencyKey then true
      else if operation.csrf then false
      else if operation.method = "GET".toList then true
      else operation.operationId ≠ "login".toList

/-! ## The loop -/

inductive Outcome where
  | response (response : Response)
  | failure (rawError : Thrown)
  deriving DecidableEq

inductive Ending where
  | returned (response : Response)
  | thrown (rawError : Thrown)
  deriving DecidableEq

def retryableResponse (response : Response) : Bool :=
  !response.ok && (response.status = 429 || response.status = 503)

/-- One turn of the loop; `none` is another turn. -/
def turn (bound attempt : ℚ) (operation : Option RetryOperationMeta) : Outcome → Option Ending
  | .failure rawError =>
    if double (bound - 1) ≤ attempt ∨ shouldRetry rawError.toTransportError operation = false then
      some (.thrown rawError)
    else none
  | .response answer =>
    if retryableResponse answer = false ∨ double (bound - 1) ≤ attempt then
      some (.returned answer)
    else if shouldRetry (ClientTransport.toTransportError answer) operation = false then
      some (.returned answer)
    else none

structure Finished where
  calls : ℕ
  ending : Ending

/-- The loop on the outcomes of the base calls, as far as the fuel goes. -/
def retryLoop (bound : ℚ) (operation : Option RetryOperationMeta) (outcomes : ℕ → Outcome) :
    ℕ → ℚ → ℕ → Option Finished
  | 0, _, _ => none
  | fuel + 1, attempt, calls =>
    match turn bound attempt operation (outcomes calls) with
    | some ending => some ⟨calls + 1, ending⟩
    | none => retryLoop bound operation outcomes fuel (double (attempt + 1)) (calls + 1)

def retryFetch (config : RetryConfig) (operation : Option RetryOperationMeta)
    (outcomes : ℕ → Outcome) (fuel : ℕ) : Option Finished :=
  retryLoop (maxAttempts config) operation outcomes fuel 0 0

/-! ## Bounded and safe runs -/

def Outcome.ending : Outcome → Ending
  | .response answer => .returned answer
  | .failure rawError => .thrown rawError

/-- A failure of the network, or a 429 or 503, that is judged retryable. -/
def Outcome.Judged : Outcome → Prop
  | .failure rawError => rawError.toTransportError.retryable = true
  | .response answer => (answer.status = 429 ∨ answer.status = 503) ∧
      (ClientTransport.toTransportError answer).retryable = true

/-- Requests without metadata, and operations without a key that require CSRF or log in. -/
def NeverRepeated (operation : Option RetryOperationMeta) : Prop :=
  ∀ op, operation = some op → op.idempotencyKey = false ∧
    (op.csrf = true ∨ (op.operationId = "login".toList ∧ op.method = "POST".toList))

structure BoundedAndSafe (config : RetryConfig) (operation : Option RetryOperationMeta)
    (outcomes : ℕ → Outcome) (finished : Finished) : Prop where
  made : 1 ≤ finished.calls
  bounded : finished.calls ≤ maxAttempts config
  once : NeverRepeated operation → finished.calls = 1
  retries : ∀ i, i + 1 < finished.calls → (outcomes i).Judged
  last : finished.ending = (outcomes (finished.calls - 1)).ending

/-- The policy asks for a repetition after an outcome, whatever attempts are left. -/
def Repeats (operation : Option RetryOperationMeta) : Outcome → Prop
  | .failure rawError => shouldRetry rawError.toTransportError operation = true
  | .response answer => retryableResponse answer = true ∧
      shouldRetry (ClientTransport.toTransportError answer) operation = true

instance (operation : Option RetryOperationMeta) : DecidablePred (Repeats operation) :=
  fun outcome => by cases outcome <;> unfold Repeats <;> infer_instance

variable {bound attempt : ℚ} {operation : Option RetryOperationMeta} {outcome : Outcome}
  {outcomes : ℕ → Outcome} {config : RetryConfig}

theorem shouldRetry_retryable {error : TransportError} (h : shouldRetry error operation = true) :
    error.retryable = true := by
  by_contra hnot
  rw [Bool.not_eq_true] at hnot
  simp [shouldRetry, hnot] at h

theorem shouldRetry_neverRepeated (h : NeverRepeated operation) (error : TransportError) :
    shouldRetry error operation = false := by
  unfold shouldRetry
  split_ifs with herror
  · rfl
  · cases operation with
    | none => rfl
    | some op =>
      obtain ⟨hkey, hcsrf | ⟨hlogin, hpost⟩⟩ := h op rfl
      · simp [hkey, hcsrf]
      · have hget : ("POST".toList : Text) ≠ "GET".toList := by decide
        by_cases hc : op.csrf = true
        · simp [hkey, hc]
        · simp [hkey, hc, hlogin, hpost]

theorem repeats_judged (h : Repeats operation outcome) : outcome.Judged := by
  cases outcome with
  | failure rawError => exact shouldRetry_retryable h
  | response answer =>
    obtain ⟨hstatus, hretry⟩ := h
    refine ⟨?_, shouldRetry_retryable hretry⟩
    rw [retryableResponse, Bool.and_eq_true, Bool.or_eq_true, decide_eq_true_eq,
      decide_eq_true_eq] at hstatus
    exact hstatus.2

theorem not_repeats (h : NeverRepeated operation) : ¬ Repeats operation outcome := by
  intro hrepeats
  cases outcome with
  | failure rawError =>
    have hnot := shouldRetry_neverRepeated h rawError.toTransportError
    rw [show shouldRetry rawError.toTransportError operation = true from hrepeats] at hnot
    cases hnot
  | response answer =>
    have hnot := shouldRetry_neverRepeated h (ClientTransport.toTransportError answer)
    rw [hrepeats.2] at hnot
    cases hnot

/-- A turn goes on just when attempts are left and the policy asks for it, and otherwise ends
with what its call gave. -/
theorem turn_eq : turn bound attempt operation outcome =
    if attempt < double (bound - 1) ∧ Repeats operation outcome then none
    else some outcome.ending := by
  cases outcome with
  | failure rawError =>
    by_cases hleft : double (bound - 1) ≤ attempt
    · rw [turn, if_pos (Or.inl hleft), if_neg fun h => absurd h.1 (not_lt.mpr hleft)]
      rfl
    · by_cases hretry : shouldRetry rawError.toTransportError operation = true
      · rw [turn, if_neg, if_pos ⟨not_le.mp hleft, hretry⟩]
        rintro (h | h)
        · exact hleft h
        · rw [hretry] at h
          cases h
      · rw [turn, if_pos (Or.inr (Bool.not_eq_true _ ▸ hretry)), if_neg fun h => hretry h.2]
        rfl
  | response answer =>
    by_cases hleft : double (bound - 1) ≤ attempt
    · rw [turn, if_pos (Or.inr hleft), if_neg fun h => absurd h.1 (not_lt.mpr hleft)]
      rfl
    · by_cases hstatus : retryableResponse answer = true
      · have hfirst : ¬ (retryableResponse answer = false ∨ double (bound - 1) ≤ attempt) := by
          rintro (h | h)
          · rw [hstatus] at h
            cases h
          · exact hleft h
        by_cases hretry :
            shouldRetry (ClientTransport.toTransportError answer) operation = true
        · rw [turn, if_neg hfirst, if_neg (by rw [hretry]; simp),
            if_pos ⟨not_le.mp hleft, hstatus, hretry⟩]
        · rw [turn, if_neg hfirst, if_pos (Bool.not_eq_true _ ▸ hretry),
            if_neg fun h => hretry h.2.2]
          rfl
      · rw [turn, if_pos (Or.inl (Bool.not_eq_true _ ▸ hstatus)), if_neg fun h => hstatus h.2.1]
        rfl

/-! ## The counter -/

/-- The largest attempt that the counter can show. -/
def standstill : ℕ := 2 ^ 53

theorem double_attempt (n : ℕ) :
    double (((min n standstill : ℕ) : ℚ) + 1) = ((min (n + 1) standstill : ℕ) : ℚ) := by
  rw [← Nat.cast_succ]
  by_cases hn : n < standstill
  · rw [min_eq_left hn.le, min_eq_left (Nat.succ_le_of_lt hn)]
    by_cases hlast : n + 1 = standstill
    · rw [Nat.succ_eq_add_one, hlast]
      exact double_two_pow_53
    · apply double_natCast
      have : standstill = 2 ^ 53 := rfl
      omega
  · rw [min_eq_right (not_lt.mp hn), min_eq_right (by omega)]
    exact double_two_pow_53_succ

/-- Attempts are left at a call just when it is not the last of the bound; beyond the standstill
of the counter they are left for ever. -/
theorem attempt_left {m : ℕ} (hm : 1 ≤ m) (n : ℕ) :
    ((min n standstill : ℕ) : ℚ) < double ((m : ℚ) - 1) ↔
      standstill + 2 < m ∨ n + 1 < m ∧ n < standstill := by
  have hstand : standstill = 2 ^ 53 := rfl
  obtain ⟨k, rfl⟩ := Nat.exists_eq_add_of_le' hm
  rw [Nat.cast_add, Nat.cast_one, add_sub_cancel_right]
  by_cases hk : k ≤ standstill
  · have hdouble : double (k : ℚ) = k := by
      rcases Nat.lt_or_eq_of_le hk with hlt | rfl
      · exact double_natCast hlt
      · exact double_two_pow_53
    rw [hdouble, Nat.cast_lt]
    omega
  · by_cases htie : k = standstill + 1
    · have hdouble : double (k : ℚ) = (standstill : ℕ) := by
        rw [htie]
        exact double_two_pow_53_succ
      rw [hdouble, Nat.cast_lt]
      omega
    · have hlarge : standstill + 2 ≤ k := by omega
      have hbeyond := lt_double_natCast hlarge
      constructor
      · intro _
        omega
      · intro _
        have hmin : ((min n standstill : ℕ) : ℚ) ≤ (2 ^ 53 : ℕ) := by
          exact_mod_cast min_le_right n standstill
        exact lt_of_le_of_lt hmin hbeyond

def GoesOn (bound : ℕ) (operation : Option RetryOperationMeta) (outcomes : ℕ → Outcome)
    (n : ℕ) : Prop :=
  (standstill + 2 < bound ∨ n + 1 < bound ∧ n < standstill) ∧ Repeats operation (outcomes n)

instance (bound : ℕ) : DecidablePred (GoesOn bound operation outcomes) :=
  fun _ => inferInstanceAs (Decidable (_ ∧ _))

/-! ## Runs -/

theorem loop_step {m : ℕ} (hm : 1 ≤ m) (fuel n : ℕ) :
    retryLoop m operation outcomes (fuel + 1) ((min n standstill : ℕ) : ℚ) n =
      if GoesOn m operation outcomes n then
        retryLoop m operation outcomes fuel ((min (n + 1) standstill : ℕ) : ℚ) (n + 1)
      else some ⟨n + 1, (outcomes n).ending⟩ := by
  have hiff : ((min n standstill : ℕ) : ℚ) < double ((m : ℚ) - 1) ∧
      Repeats operation (outcomes n) ↔ GoesOn m operation outcomes n :=
    and_congr_left fun _ => attempt_left hm n
  rw [retryLoop, turn_eq]
  by_cases h : GoesOn m operation outcomes n
  · simp only [if_pos h, if_pos (hiff.mpr h), double_attempt]
  · have hstop : ¬ (((min n standstill : ℕ) : ℚ) < double ((m : ℚ) - 1) ∧
        Repeats operation (outcomes n)) := fun hon => h (hiff.mp hon)
    simp only [if_neg h, if_neg hstop]

theorem loop_finishes {m : ℕ} (hm : 1 ≤ m) {last : ℕ}
    (hlast : ¬ GoesOn m operation outcomes last)
    (hbefore : ∀ i < last, GoesOn m operation outcomes i) {n fuel : ℕ} (hn : n ≤ last)
    (hfuel : last < n + fuel) :
    retryLoop m operation outcomes fuel ((min n standstill : ℕ) : ℚ) n =
      some ⟨last + 1, (outcomes last).ending⟩ := by
  induction fuel generalizing n with
  | zero => omega
  | succ fuel ih =>
    rw [loop_step hm]
    by_cases heq : n = last
    · rw [heq, if_neg hlast]
    · rw [if_pos (hbefore n (by omega))]
      exact ih (by omega) (by omega)

theorem loop_finished {m : ℕ} (hm : 1 ≤ m) {n fuel : ℕ} {finished : Finished}
    (h : retryLoop m operation outcomes fuel ((min n standstill : ℕ) : ℚ) n = some finished) :
    n < finished.calls ∧ ¬ GoesOn m operation outcomes (finished.calls - 1) ∧
      (∀ i, n ≤ i → i + 1 < finished.calls → GoesOn m operation outcomes i) ∧
      finished.ending = (outcomes (finished.calls - 1)).ending := by
  induction fuel generalizing n with
  | zero => cases h
  | succ fuel ih =>
    rw [loop_step hm] at h
    split_ifs at h with hon
    · obtain ⟨hcalls, hstop, hbefore, hending⟩ := ih h
      refine ⟨by omega, hstop, ?_, hending⟩
      intro i hi hlt
      rcases Nat.lt_or_eq_of_le hi with hlt' | rfl
      · exact hbefore i hlt' hlt
      · exact hon
    · cases h
      refine ⟨Nat.lt_succ_self n, hon, ?_, rfl⟩
      intro i hi hlt
      simp only at hlt
      omega

theorem one_le_maxAttempts (config : RetryConfig) : 1 ≤ maxAttempts config := by
  unfold maxAttempts
  split
  · exact le_max_left _ _
  · decide

theorem fetch_eq (config : RetryConfig) (fuel : ℕ) :
    retryFetch config operation outcomes fuel =
      retryLoop (maxAttempts config : ℕ) operation outcomes fuel
        ((min 0 standstill : ℕ) : ℚ) 0 := by
  rw [retryFetch, Nat.zero_min, Nat.cast_zero]

/-- The bound is within reach of the counter, or some call of the bound is not repeated. -/
def Stops (config : RetryConfig) (operation : Option RetryOperationMeta)
    (outcomes : ℕ → Outcome) : Prop :=
  maxAttempts config ≤ 2 ^ 53 + 2 ∨
    ∃ i < maxAttempts config, ¬ Repeats operation (outcomes i)

theorem stops (h : Stops config operation outcomes) :
    ∃ last < maxAttempts config, ¬ GoesOn (maxAttempts config) operation outcomes last ∧
      ∀ i < last, GoesOn (maxAttempts config) operation outcomes i := by
  have hone := one_le_maxAttempts config
  have hexists : ∃ n, n < maxAttempts config ∧
      ¬ GoesOn (maxAttempts config) operation outcomes n := by
    rcases h with hsmall | ⟨i, hi, hnot⟩
    · refine ⟨maxAttempts config - 1, by omega, ?_⟩
      rintro ⟨hleft | ⟨hleft, -⟩, -⟩
      · have hstand : standstill = 2 ^ 53 := rfl
        omega
      · omega
    · exact ⟨i, hi, fun hon => hnot hon.2⟩
  refine ⟨Nat.find hexists, (Nat.find_spec hexists).1, (Nat.find_spec hexists).2, ?_⟩
  intro i hi
  by_contra hnot
  have hlt := (Nat.find_spec hexists).1
  exact Nat.find_min hexists hi ⟨by omega, hnot⟩

theorem finished_safe {fuel : ℕ} {finished : Finished}
    (h : retryFetch config operation outcomes fuel = some finished)
    (hbound : finished.calls ≤ maxAttempts config) :
    BoundedAndSafe config operation outcomes finished := by
  rw [fetch_eq] at h
  obtain ⟨hcalls, hstop, hbefore, hending⟩ := loop_finished (one_le_maxAttempts config) h
  refine ⟨hcalls, hbound, ?_, ?_, hending⟩
  · intro hnever
    by_contra hmore
    have hfirst := hbefore 0 le_rfl (by omega)
    exact not_repeats hnever hfirst.2
  · intro i hi
    exact repeats_judged (hbefore i (Nat.zero_le i) hi).2

theorem safe_of_stops (h : Stops config operation outcomes) :
    ∃ fuel finished, retryFetch config operation outcomes fuel = some finished ∧
      BoundedAndSafe config operation outcomes finished := by
  obtain ⟨last, hlast, hstop, hbefore⟩ := stops h
  have hrun : retryFetch config operation outcomes (last + 1) =
      some ⟨last + 1, (outcomes last).ending⟩ := by
    rw [fetch_eq]
    exact loop_finishes (one_le_maxAttempts config) hstop hbefore (Nat.zero_le _) (by omega)
  exact ⟨last + 1, _, hrun, finished_safe hrun hlast⟩

theorem stops_of_bounded {fuel : ℕ} {finished : Finished}
    (h : retryFetch config operation outcomes fuel = some finished)
    (hbound : finished.calls ≤ maxAttempts config) : Stops config operation outcomes := by
  rw [fetch_eq] at h
  obtain ⟨hcalls, hstop, -, -⟩ := loop_finished (one_le_maxAttempts config) h
  by_cases hrepeats : Repeats operation (outcomes (finished.calls - 1))
  · left
    by_contra hlarge
    have hstand : standstill = 2 ^ 53 := rfl
    exact hstop ⟨Or.inl (by omega), hrepeats⟩
  · right
    exact ⟨finished.calls - 1, by omega, hrepeats⟩

/-- The retries of a request end as they should just when the bound is within reach of the
counter or a call within the bound is not to be repeated. -/
theorem bounded_retries (config : RetryConfig) (operation : Option RetryOperationMeta)
    (outcomes : ℕ → Outcome) :
    (∃ fuel finished, retryFetch config operation outcomes fuel = some finished ∧
        BoundedAndSafe config operation outcomes finished) ↔
      maxAttempts config ≤ 2 ^ 53 + 2 ∨
        ∃ i < maxAttempts config, ¬ Repeats operation (outcomes i) := by
  constructor
  · rintro ⟨fuel, finished, hrun, hsafe⟩
    exact stops_of_bounded hrun hsafe.bounded
  · intro h
    exact safe_of_stops h

/-! ## A bound beyond the counter -/

def endlessConfig : RetryConfig := ⟨some (.finite (10 ^ 16))⟩

def listRoots : RetryOperationMeta := ⟨⟨"listRoots".toList, false, false⟩, "GET".toList⟩

/-- With ten to the sixteenth attempts and a network that stays down the loop never ends. -/
theorem bounded_retries_endless :
    ¬ ∃ fuel finished,
      retryFetch endlessConfig (some listRoots) (fun _ => .failure (.other [])) fuel =
          some finished ∧
        BoundedAndSafe endlessConfig (some listRoots) (fun _ => .failure (.other []))
          finished := by
  rintro ⟨fuel, finished, hrun, hsafe⟩
  have hmax : maxAttempts endlessConfig = 10 ^ 16 := by
    have hfloor : ⌊(10 ^ 16 : ℚ)⌋ = 10 ^ 16 := by
      rw [Int.floor_eq_iff]
      constructor <;> norm_num
    show max 1 ⌊(10 ^ 16 : ℚ)⌋.toNat = 10 ^ 16
    rw [hfloor]
    rfl
  rcases stops_of_bounded hrun hsafe.bounded with hsmall | ⟨i, -, hnot⟩
  · rw [hmax] at hsmall
    norm_num at hsmall
  · exact hnot (show shouldRetry networkError (some listRoots) = true by decide)

end RetryFetch
