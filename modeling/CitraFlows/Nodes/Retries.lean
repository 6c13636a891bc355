-- SUMMARY: The retries of a node over every setting and every sequence of outcomes: what run() returns, and when its books are right.
import CitraFlows.Nodes.Logic
import CitraFlows.Nodes.Floats
import Mathlib.Tactic.Linarith

/-!
# Retries

`BaseNode.run` reads how often and how long to wait from the node's settings, which are whatever
the author has written. `Logic.lean` has the attempts of a node; here are the settings of every
type, the delays between the attempts, and what may be raised besides.

Not modelled: how floats are rounded, where that is not to zero or to infinity.
-/

namespace CitraFlows

open Python
open Doubles (FloatValue)
open Floats (OverflowError intText)

namespace Retries

/-! ## Settings -/

/-- A value of the settings: a JSON value, or a float that JSON has no number for. -/
inductive Setting where
  | json (v : Value)
  | infinite (negative : Bool)
  | nan

/-- The settings that `run` reads, `None` where there is none. -/
structure Settings where
  maxRetries : Setting := .json .none
  retryDelaySeconds : Setting := .json .none
  retryBackoff : Setting := .json .none

/-- `value in (None, "")` -/
def Setting.isBlank : Setting → Bool
  | .json .none => true
  | .json (.str s) => s = ""
  | _ => false

/-- `int(value)`; `none` stands for `TypeError` and `ValueError`. -/
def Setting.int : Setting → Except OverflowError (Option Int)
  | .json (.str s) => .ok (intText s.toList)
  | .json v => .ok v.toInt
  | .infinite _ => .error ⟨"cannot convert float infinity to integer"⟩
  | .nan => .ok none

/-- `float(value)` -/
def Setting.float : Setting → Except OverflowError (Option FloatValue)
  | .json v => v.toFloat
  | .infinite negative => .ok (some (.infinite negative))
  | .nan => .ok (some .nan)

/-- `_number_or_default` -/
def numberOrDefault {α : Type} (value : Setting) (default : α)
    (cast : Setting → Except OverflowError (Option α)) : Except OverflowError α :=
  if value.isBlank then .ok default else (cast value).map (Option.getD · default)

/-- `max_retries` as it is set -/
def Settings.configured (s : Settings) : Except OverflowError Int :=
  numberOrDefault s.maxRetries 0 Setting.int

/-- `max_retries`, with auto-retry disabled for what has side effects -/
def limited (cls : NodeClass) (maxRetries : Int) : Int :=
  if (cls.output || cls.sideEffecting) && !cls.retryable && maxRetries > 0 then 0 else maxRetries

/-- A delay that is not negative -/
inductive Delay where
  | seconds (x : Rat)
  | infinite
  deriving DecidableEq

/-- `max(0, value)`; what does not compare is not taken. -/
def atLeastZero : FloatValue → Delay
  | .number x => .seconds (max 0 x)
  | .infinite negative => if negative then .seconds 0 else .infinite
  | .nan => .seconds 0

/-- `retry_delay` -/
def Settings.retryDelay (s : Settings) : Except OverflowError Delay :=
  (numberOrDefault s.retryDelaySeconds (.number 5) Setting.float).map atLeastZero

/-- `mode == "exponential"` -/
def Settings.exponential (s : Settings) : Bool :=
  match s.retryBackoff with
  | .json v => v.eqStr "exponential"
  | _ => false

/-! ## Waiting -/

/-- The constants of the module, and the random numbers: `uniform(-1, 1)` at each retry. -/
structure Backoff where
  maxDelaySeconds : Rat := 60
  jitterFraction : Rat := 1 / 5
  uniform : Nat → Rat := fun _ => 0

/-- The delay before it is clamped. Zero is an integer, and its multiples are; anything else is
multiplied by the power of two as a float. -/
def rawDelay (attempt : Nat) (base : Delay) (exponential : Bool) : Except OverflowError Delay :=
  if !exponential then .ok base
  else if base = .seconds 0 then .ok base
  else if 1024 ≤ attempt then .error ⟨"int too large to convert to float"⟩
  else
    match base with
    | .seconds x => .ok (.seconds (x * 2 ^ attempt))
    | .infinite => .ok .infinite

/-- `_compute_backoff_delay` -/
def computeBackoffDelay (w : Backoff) (attempt : Nat) (base : Delay) (exponential : Bool) :
    Except OverflowError Rat := do
  let raw := match ← rawDelay attempt base exponential with
    | .seconds x => min x w.maxDelaySeconds
    | .infinite => w.maxDelaySeconds
  return if 0 < w.jitterFraction ∧ 0 < raw then
      max 0 (raw + raw * w.jitterFraction * w.uniform attempt)
    else raw

/-! ## `run` -/

/-- How often `execute` was called, how long was slept between, and how `run` ends. -/
structure Report where
  attempts : Nat
  slept : List Rat
  result : Except OverflowError NodeRun

section

variable (w : Backoff) (outcomes : Nat → Except NodeError Value) (maxRetries : Int)
  (delay : Delay) (exponential : Bool)

/-- `for attempt in range(1 + max_retries)`, with the number of attempts that are left -/
def attemptLoop : Nat → Nat → Option String → List String → List Rat → Report
  | 0, attempt, lastError, errors, slept =>
      ⟨attempt, slept, .ok (.failed lastError maxRetries errors)⟩
  | left + 1, attempt, _, errors, slept =>
      match outcomes attempt with
      | .ok output => ⟨attempt + 1, slept, .ok (.completed output attempt errors)⟩
      | .error e =>
          let errors := errors ++ [e.message]
          if e.nonRetryable then
            ⟨attempt + 1, slept, .ok (.failed (some e.message) maxRetries errors)⟩
          else if attempt < maxRetries then
            match computeBackoffDelay w attempt delay exponential with
            | .error o => ⟨attempt + 1, slept, .error o⟩
            | .ok d => attemptLoop left (attempt + 1) (some e.message) errors (slept ++ [d])
          else attemptLoop left (attempt + 1) (some e.message) errors slept

end

/-- `BaseNode.run`, where `outcomes` tells what each call of `execute` does. -/
def run (w : Backoff) (cls : NodeClass) (s : Settings) (outcomes : Nat → Except NodeError Value) :
    Report :=
  match s.configured, s.retryDelay with
  | .error o, _ => ⟨0, [], .error o⟩
  | .ok _, .error o => ⟨0, [], .error o⟩
  | .ok n, .ok delay =>
      let maxRetries := limited cls n
      attemptLoop w outcomes maxRetries delay s.exponential (1 + maxRetries).toNat 0 none [] []

/-- Unless a delay overflows, the attempts amount to those of `Logic.lean`. -/
theorem attemptLoop_result (w : Backoff) (outcomes : Nat → Except NodeError Value) (maxRetries : Int)
    (delay : Delay) (exponential : Bool) (left attempt : Nat) (lastError : Option String)
    (errors : List String) (slept : List Rat) {r : NodeRun}
    (h : (attemptLoop w outcomes maxRetries delay exponential left attempt lastError errors
      slept).result = .ok r) :
    r = BaseNode.attemptLoop outcomes maxRetries left attempt lastError errors := by
  induction left generalizing attempt lastError errors slept with
  | zero => exact (Except.ok.inj h).symm
  | succ left ih =>
      rw [attemptLoop] at h
      rw [BaseNode.attemptLoop]
      cases ho : outcomes attempt with
      | ok output =>
        rw [ho] at h
        exact (Except.ok.inj h).symm
      | error e =>
        rw [ho] at h
        dsimp only at h ⊢
        split at h
        next hfinal =>
          rw [if_pos hfinal]
          exact (Except.ok.inj h).symm
        next hretry =>
          rw [if_neg hretry]
          split at h
          next =>
            split at h
            next => cases h
            next => exact ih _ _ _ _ h
          next => exact ih _ _ _ _ h

/-- Where the settings are those of a configuration, what `run` returns is what the executor is
taken to get. -/
theorem run_result {w : Backoff} {cls : NodeClass} {s : Settings} {config : Entries}
    {outcomes : Nat → Except NodeError Value} {r : NodeRun}
    (hn : s.configured = .ok (BaseNode.configuredRetries config))
    (h : (run w cls s outcomes).result = .ok r) : r = BaseNode.run cls config outcomes := by
  unfold run at h
  rw [hn] at h
  cases hd : s.retryDelay with
  | error o =>
      rw [hd] at h
      cases h
  | ok delay =>
      rw [hd] at h
      exact attemptLoop_result w outcomes _ delay _ _ _ _ _ _ h

/-! ## Delays -/

section

variable {w : Backoff} {outcomes : Nat → Except NodeError Value} {maxRetries : Int}
  {delay : Delay} {exponential : Bool}

/-- A delay that is not zero is too large to be doubled more than 1023 times. -/
theorem computeBackoffDelay_eq_error_iff {attempt : Nat} :
    (∃ o, computeBackoffDelay w attempt delay exponential = .error o) ↔
      exponential = true ∧ delay ≠ .seconds 0 ∧ 1024 ≤ attempt := by
  have hraw : (∃ o, computeBackoffDelay w attempt delay exponential = .error o) ↔
      ∃ o, rawDelay attempt delay exponential = .error o := by
    unfold computeBackoffDelay
    cases rawDelay attempt delay exponential with
    | error o => exact iff_of_true ⟨o, rfl⟩ ⟨o, rfl⟩
    | ok raw => exact iff_of_false (fun ⟨_, h⟩ => nomatch h) (fun ⟨_, h⟩ => nomatch h)
  rw [hraw]
  unfold rawDelay
  cases exponential with
  | false => simp
  | true =>
      by_cases hzero : delay = .seconds 0
      · simp [hzero]
      · by_cases hlarge : 1024 ≤ attempt
        · simp [hzero, hlarge]
        · rw [Bool.not_true, if_neg Bool.false_ne_true, if_neg hzero, if_neg hlarge]
          cases delay <;> simp [hlarge]

/-- No delay is longer than the longest one with its jitter. -/
theorem computeBackoffDelay_le (hmax : 0 ≤ w.maxDelaySeconds) (hfraction : 0 ≤ w.jitterFraction)
    {attempt : Nat} (huniform : w.uniform attempt ≤ 1) {d : Rat}
    (h : computeBackoffDelay w attempt delay exponential = .ok d) :
    d ≤ w.maxDelaySeconds * (1 + w.jitterFraction) := by
  have hlimit : w.maxDelaySeconds ≤ w.maxDelaySeconds * (1 + w.jitterFraction) := by nlinarith
  unfold computeBackoffDelay at h
  cases hraw : rawDelay attempt delay exponential with
  | error o =>
      rw [hraw] at h
      cases h
  | ok raw =>
      rw [hraw] at h
      obtain ⟨x, hx, hd⟩ : ∃ x, x ≤ w.maxDelaySeconds ∧
          d = if 0 < w.jitterFraction ∧ 0 < x then
            max 0 (x + x * w.jitterFraction * w.uniform attempt) else x := by
        cases raw with
        | seconds y => exact ⟨min y w.maxDelaySeconds, min_le_right _ _, (Except.ok.inj h).symm⟩
        | infinite => exact ⟨w.maxDelaySeconds, le_rfl, (Except.ok.inj h).symm⟩
      rw [hd]
      split
      next hpos =>
        refine max_le (hmax.trans hlimit) ?_
        have hspread : x * w.jitterFraction * w.uniform attempt ≤ x * w.jitterFraction :=
          mul_le_of_le_one_right (mul_nonneg hpos.2.le hfraction) huniform
        nlinarith
      next => exact hx.trans hlimit

/-! ## The course of the attempts -/

/-- The attempt has failed, and may be made again. -/
def Retryable : Except NodeError Value → Prop
  | .ok _ => False
  | .error e => e.nonRetryable = false

/-- The attempt has failed, and must not be made again. -/
def Final : Except NodeError Value → Prop
  | .ok _ => False
  | .error e => e.nonRetryable = true

theorem Retryable.not_final {r : Except NodeError Value} (h : Retryable r) : ¬ Final r := by
  cases r with
  | ok output => exact id
  | error e =>
      rw [Retryable] at h
      simp [Final, h]

/-- The messages of the failures among the first attempts -/
def messages (outcomes : Nat → Except NodeError Value) (n : Nat) : List String :=
  (List.range n).filterMap fun k =>
    match outcomes k with
    | .ok _ => none
    | .error e => some e.message

theorem messages_succ {n : Nat} {e : NodeError} (h : outcomes n = .error e) :
    messages outcomes (n + 1) = messages outcomes n ++ [e.message] := by
  simp [messages, List.range_succ, List.filterMap_append, h]

theorem messages_succ_ok {n : Nat} {output : Value} (h : outcomes n = .ok output) :
    messages outcomes (n + 1) = messages outcomes n := by
  simp [messages, List.range_succ, List.filterMap_append, h]

/-- The first attempts have failed, and each has been followed by a delay. -/
def Tried (w : Backoff) (outcomes : Nat → Except NodeError Value) (delay : Delay)
    (exponential : Bool) (n : Nat) : Prop :=
  ∀ k < n, Retryable (outcomes k) ∧ ¬ ∃ o, computeBackoffDelay w k delay exponential = .error o

/-- The ways in which at most `m` retries end. -/
inductive Course (w : Backoff) (outcomes : Nat → Except NodeError Value) (delay : Delay)
    (exponential : Bool) (m : Nat) : Report → Prop where
  | succeeded {k : Nat} {output : Value} {slept : List Rat} (hk : k ≤ m)
      (h : Tried w outcomes delay exponential k) (ho : outcomes k = .ok output) :
      Course w outcomes delay exponential m
        ⟨k + 1, slept, .ok (.completed output k (messages outcomes k))⟩
  | failed {k : Nat} {e : NodeError} {slept : List Rat} (hk : k ≤ m)
      (h : Tried w outcomes delay exponential k) (ho : outcomes k = .error e)
      (hlast : e.nonRetryable = true ∨ k = m) :
      Course w outcomes delay exponential m
        ⟨k + 1, slept, .ok (.failed (some e.message) m (messages outcomes (k + 1)))⟩
  | overflowed {k : Nat} {e : NodeError} {o : OverflowError} {slept : List Rat} (hk : k < m)
      (h : Tried w outcomes delay exponential k) (ho : outcomes k = .error e)
      (hretry : e.nonRetryable = false)
      (hdelay : computeBackoffDelay w k delay exponential = .error o) :
      Course w outcomes delay exponential m ⟨k + 1, slept, .error o⟩

theorem attemptLoop_course {m left attempt : Nat} (hleft : left + attempt = m + 1)
    (hattempt : attempt ≤ m) (h : Tried w outcomes delay exponential attempt)
    (lastError : Option String) (slept : List Rat) :
    Course w outcomes delay exponential m (attemptLoop w outcomes m delay exponential left attempt
      lastError (messages outcomes attempt) slept) := by
  induction left generalizing attempt lastError slept with
  | zero => omega
  | succ left ih =>
      rw [attemptLoop]
      split
      next output ho => exact .succeeded hattempt h ho
      next e ho =>
        rw [← messages_succ ho]
        dsimp only
        split
        next hfinal => exact .failed hattempt h ho (.inl hfinal)
        next hfinal =>
          have hretry : e.nonRetryable = false := by simpa using hfinal
          split
          next hlt =>
            have hlt : attempt < m := by exact_mod_cast hlt
            split
            next o ho' => exact .overflowed hlt h ho hretry ho'
            next d hd =>
              refine ih (by omega) hlt (fun k hk => ?_) _ _
              rcases Nat.lt_succ_iff_lt_or_eq.mp hk with hk | rfl
              · exact h k hk
              · refine ⟨by rw [ho]; exact hretry, fun ⟨o, ho'⟩ => ?_⟩
                rw [hd] at ho'
                cases ho'
          next hle =>
            -- it was the last attempt
            obtain rfl : attempt = m := by
              have : ¬ attempt < m := by exact_mod_cast hle
              omega
            obtain rfl : left = 0 := by omega
            exact .failed le_rfl h ho (.inr rfl)

/-! ## The law -/

def retryCount : NodeRun → Option Int
  | .completed _ n _ => some n
  | .failed _ n _ => some n
  | .timeout => none

def retryErrors : NodeRun → Option (List String)
  | .completed _ _ errors => some errors
  | .failed _ _ errors => some errors
  | .timeout => none

def isCompleted : NodeRun → Bool
  | .completed .. => true
  | _ => false

/-- The law of the retries -/
structure Lawful (w : Backoff) (cls : NodeClass) (s : Settings)
    (outcomes : Nat → Except NodeError Value) : Prop where
  attempted : 1 ≤ (run w cls s outcomes).attempts
  bounded : ∀ n, s.configured = .ok n → ((run w cls s outcomes).attempts : Int) ≤ 1 + max 0 n
  single : (cls.output || cls.sideEffecting) = true → cls.retryable = false →
    (run w cls s outcomes).attempts = 1
  /-- Nothing is tried again after a success or a failure that must not be made again. -/
  retried : ∀ k, k + 1 < (run w cls s outcomes).attempts → Retryable (outcomes k)
  neverRaises : ∃ result, (run w cls s outcomes).result = .ok result
  completed : ∀ result, (run w cls s outcomes).result = .ok result →
    (isCompleted result = true ↔
      ∃ output, outcomes ((run w cls s outcomes).attempts - 1) = .ok output)
  errors : ∀ result, (run w cls s outcomes).result = .ok result →
    retryErrors result = some (messages outcomes (run w cls s outcomes).attempts)
  count : ∀ result, (run w cls s outcomes).result = .ok result →
    retryCount result = some ((run w cls s outcomes).attempts - 1)

/-- The attempts, of which at most `m` are retries, end with a failure that must not be made again
only where none is left. -/
def FinalLast (m : Int) (outcomes : Nat → Except NodeError Value) : Prop :=
  ∀ k : Nat, k < m → (∀ j < k, Retryable (outcomes j)) → ¬ Final (outcomes k)

/-- No delay overflows: none is doubled, or each is zero, or there is an end to the failures, or to
the retries, before the delays are too large. -/
def DelaysFit (m : Int) (delay : Delay) (exponential : Bool)
    (outcomes : Nat → Except NodeError Value) : Prop :=
  exponential = true → delay ≠ .seconds 0 → 1024 < m → ∃ k ≤ 1024, ¬ Retryable (outcomes k)

/-- The settings can be read and ask for an attempt, and the attempts suit them. -/
def Regular (cls : NodeClass) (s : Settings) (outcomes : Nat → Except NodeError Value) : Prop :=
  ∃ n delay, s.configured = .ok n ∧ s.retryDelay = .ok delay ∧ 0 ≤ n ∧
    FinalLast (limited cls n) outcomes ∧ DelaysFit (limited cls n) delay s.exponential outcomes

theorem limited_nonneg_iff {cls : NodeClass} {n : Int} : 0 ≤ limited cls n ↔ 0 ≤ n := by
  unfold limited
  split
  next h =>
    simp only [Bool.and_eq_true, decide_eq_true_eq] at h
    omega
  next => rfl

theorem limited_le {cls : NodeClass} {n : Int} : limited cls n ≤ max 0 n := by
  unfold limited
  split
  · exact le_max_left 0 n
  · exact le_max_right 0 n

theorem limited_of_sideEffecting {cls : NodeClass} {n : Int} (hn : 0 ≤ n)
    (heffect : (cls.output || cls.sideEffecting) = true) (hretry : cls.retryable = false) :
    limited cls n = 0 := by
  unfold limited
  split
  next => rfl
  next h =>
    simp only [heffect, hretry, Bool.not_false, Bool.and_self, Bool.true_and, decide_eq_true_eq] at h
    omega

variable {cls : NodeClass} {s : Settings}

/-- The settings that a run without an exception has read -/
theorem settings_of_result {result : NodeRun} (h : (run w cls s outcomes).result = .ok result) :
    ∃ n delay, s.configured = .ok n ∧ s.retryDelay = .ok delay := by
  unfold run at h
  cases hn : s.configured with
  | error o =>
      rw [hn] at h
      cases h
  | ok n =>
      cases hd : s.retryDelay with
      | error o =>
          rw [hn, hd] at h
          cases h
      | ok delay => exact ⟨n, delay, rfl, rfl⟩

theorem run_of_settings {n : Int} (hn : s.configured = .ok n) (hd : s.retryDelay = .ok delay) :
    run w cls s outcomes = attemptLoop w outcomes (limited cls n) delay s.exponential
      (1 + limited cls n).toNat 0 none [] [] := by
  rw [run, hn, hd]

/-- A negative number of retries leaves no attempt. -/
theorem attempts_of_neg {n : Int} (hn : s.configured = .ok n) (hd : s.retryDelay = .ok delay)
    (hneg : n < 0) : (run w cls s outcomes).attempts = 0 := by
  have hlimited : ¬ 0 ≤ limited cls n := by
    rw [limited_nonneg_iff]
    omega
  have hzero : (1 + limited cls n).toNat = 0 := by omega
  rw [run_of_settings hn hd, hzero]
  rfl

variable (w cls outcomes) in
theorem run_course {n : Int} (hn : s.configured = .ok n) (hd : s.retryDelay = .ok delay)
    (hpos : 0 ≤ n) : ∃ m : Nat, limited cls n = m ∧
      Course w outcomes delay s.exponential m (run w cls s outcomes) := by
  have hlimited : 0 ≤ limited cls n := limited_nonneg_iff.mpr hpos
  obtain ⟨m, hm⟩ := Int.eq_ofNat_of_zero_le hlimited
  refine ⟨m, hm, ?_⟩
  rw [run_of_settings hn hd, hm]
  exact attemptLoop_course (by omega) (Nat.zero_le m) (fun k hk => absurd hk (Nat.not_lt_zero k)) _ _

/-- With doubled delays that are not zero, nothing is tried after attempt 1024. -/
theorem Tried.le {k : Nat} (h : Tried w outcomes delay exponential k) (hexp : exponential = true)
    (hdelay : delay ≠ .seconds 0) : k ≤ 1024 := by
  by_contra hlt
  exact (h 1024 (by omega)).2 (computeBackoffDelay_eq_error_iff.mpr ⟨hexp, hdelay, le_rfl⟩)

theorem not_retryable_of_ok {k : Nat} {output : Value} (h : outcomes k = .ok output) :
    ¬ Retryable (outcomes k) := by
  rw [h]
  exact id

/-- A run that keeps the law has been regular. -/
theorem regular_of_lawful (h : Lawful w cls s outcomes) : Regular cls s outcomes := by
  obtain ⟨result, hresult⟩ := h.neverRaises
  obtain ⟨n, delay, hn, hd⟩ := settings_of_result hresult
  have hpos : 0 ≤ n := by
    by_contra hneg
    have := h.attempted
    rw [attempts_of_neg hn hd (by omega)] at this
    omega
  obtain ⟨m, hm, hcourse⟩ := run_course w outcomes cls hn hd hpos
  have hcount := h.count result hresult
  generalize run w cls s outcomes = r at hcourse hcount hresult
  refine ⟨n, delay, hn, hd, hpos, ?_, ?_⟩
  · rw [hm]
    intro k hk hbefore hfinal
    have hk : k < m := by exact_mod_cast hk
    cases hcourse with
    | @succeeded j output slept hj htried ho =>
        rcases Nat.lt_trichotomy k j with hlt | rfl | hlt
        · exact (htried k hlt).1.not_final hfinal
        · rw [ho] at hfinal
          exact hfinal
        · exact not_retryable_of_ok ho (hbefore j hlt)
    | @failed j e slept hj htried ho hlast =>
        -- the count is the number of retries that were allowed
        cases hresult
        obtain rfl : m = j := by simpa [retryCount] using hcount
        exact (htried k hk).1.not_final hfinal
    | overflowed => cases hresult
  · rw [hm]
    intro hexp hdelay hlarge
    have hlarge : 1024 < m := by exact_mod_cast hlarge
    cases hcourse with
    | @succeeded j output slept hj htried ho =>
        exact ⟨j, htried.le hexp hdelay, not_retryable_of_ok ho⟩
    | @failed j e slept hj htried ho hlast =>
        cases hresult
        obtain rfl : m = j := by simpa [retryCount] using hcount
        have := htried.le hexp hdelay
        omega
    | overflowed => cases hresult

theorem lawful_of_regular (h : Regular cls s outcomes) : Lawful w cls s outcomes := by
  obtain ⟨n, delay, hn, hd, hpos, hfinal, hfit⟩ := h
  obtain ⟨m, hm, hcourse⟩ := run_course w outcomes cls hn hd hpos
  rw [hm] at hfinal hfit
  have hmax : (m : Int) ≤ max 0 n := hm ▸ limited_le
  have hsingle : (cls.output || cls.sideEffecting) = true → cls.retryable = false → m = 0 := by
    intro heffect hretry
    exact_mod_cast hm.symm.trans (limited_of_sideEffecting hpos heffect hretry)
  have hsame : ∀ n', s.configured = .ok n' → n' = n := fun n' hn' =>
    Except.ok.inj (hn'.symm.trans hn)
  generalize hr : run w cls s outcomes = r at hcourse
  cases hcourse with
  | @succeeded k output slept hk htried ho =>
      refine ⟨?_, fun n' hn' => ?_, fun heffect hretry => ?_, fun j hj => ?_, ?_, ?_, ?_, ?_⟩
      all_goals rw [hr] at *
      · exact Nat.succ_pos k
      · rw [hsame n' hn']
        have hbound : (k : Int) ≤ max 0 n := (Int.ofNat_le.mpr hk).trans hmax
        push_cast
        linarith
      · obtain rfl : k = 0 := by
          have := hsingle heffect hretry
          omega
        rfl
      · exact (htried j (by simpa using hj)).1
      · exact ⟨_, rfl⟩
      · intro result hresult
        cases hresult
        exact iff_of_true rfl ⟨output, ho⟩
      · intro result hresult
        cases hresult
        simp [retryErrors, messages_succ_ok ho]
      · intro result hresult
        cases hresult
        simp [retryCount]
  | @failed k e slept hk htried ho hlast =>
      -- a failure that ends the attempts early would be final
      obtain rfl : k = m := by
        by_contra hne
        have hlt : k < m := by omega
        refine hfinal k (by exact_mod_cast hlt) (fun j hj => (htried j hj).1) ?_
        rw [ho]
        exact hlast.resolve_right hne
      refine ⟨?_, fun n' hn' => ?_, fun heffect hretry => ?_, fun j hj => ?_, ?_, ?_, ?_, ?_⟩
      all_goals rw [hr] at *
      · exact Nat.succ_pos k
      · rw [hsame n' hn']
        have hbound : (k : Int) ≤ max 0 n := (Int.ofNat_le.mpr hk).trans hmax
        push_cast
        linarith
      · rw [hsingle heffect hretry]
      · exact (htried j (by simpa using hj)).1
      · exact ⟨_, rfl⟩
      · intro result hresult
        cases hresult
        refine iff_of_false (by simp [isCompleted]) ?_
        rintro ⟨output, ho'⟩
        simp [ho] at ho'
      · intro result hresult
        cases hresult
        rfl
      · intro result hresult
        cases hresult
        simp [retryCount]
  | @overflowed k e o slept hk htried ho hretry hdelay =>
      obtain ⟨hexp, hzero, hlarge⟩ := computeBackoffDelay_eq_error_iff.mp ⟨o, hdelay⟩
      obtain ⟨j, hj, hnot⟩ := hfit hexp hzero (by exact_mod_cast by omega)
      rcases Nat.lt_or_ge j k with hlt | hge
      · exact absurd (htried j hlt).1 hnot
      · obtain rfl : j = k := by omega
        rw [ho] at hnot
        exact absurd hretry hnot

end

/-! ## Main results -/

/-- A run keeps the law of the retries if and only if it is regular. -/
theorem lawful_iff (w : Backoff) (cls : NodeClass) (s : Settings)
    (outcomes : Nat → Except NodeError Value) : Lawful w cls s outcomes ↔ Regular cls s outcomes :=
  ⟨regular_of_lawful, lawful_of_regular⟩

/-- A negative number of retries leaves not even the first attempt. -/
theorem negative_retries_unattempted :
    ¬ ∀ w cls s outcomes, Lawful w cls s outcomes := by
  intro h
  have hattempted := (h {} {} { maxRetries := .json (.int (-1)) } fun _ => .ok .none).attempted
  rw [attempts_of_neg (n := -1) rfl rfl (by decide)] at hattempted
  omega

end Retries

end CitraFlows
