-- SUMMARY: The attempts of a node over a state that they share: what ends them, and the rule to reason about them.
import CitraFlows.Nodes.Logic

/-!
# Running a node with a state

`BaseNode.run` calls `execute` until it returns, raises an exception that is not to be retried,
or has been called `1 + max_retries` times. Here an attempt is a function on a state that the
attempts share, such as what they have done or spent so far; `BaseNode.run` is the case in which
the state is the number of the attempt.
-/

namespace CitraFlows

/-- How a call of `execute` ends. A cancellation passes every `except Exception`; the sleep
before a retry belongs to the retry. -/
inductive NodeAttempt where
  | returned (output : Value)
  | raised (exc : NodeError)
  | cancelled

/-- How `run` ends: it returns, or its task is cancelled. -/
inductive NodeEnd where
  | ended (run : NodeRun)
  | cancelled

/-- The run has ended with `FAILED`. -/
def NodeEnd.failed : NodeEnd → Bool
  | .ended (.failed ..) => true
  | _ => false

namespace BaseNode

variable {σ : Type}

/-- `for attempt in range(1 + max_retries)`, with the number of attempts that are left. -/
def attemptsFrom (execute : σ → NodeAttempt × σ) (maxRetries : Int) :
    Nat → Nat → Option String → List String → σ → NodeEnd × σ
  | 0, _, lastError, errors, s => (.ended (.failed lastError maxRetries errors), s)
  | left + 1, attempt, _, errors, s =>
      match execute s with
      | (.returned output, s) => (.ended (.completed output attempt errors), s)
      | (.raised e, s) =>
          if e.nonRetryable then
            (.ended (.failed (some e.message) maxRetries (errors ++ [e.message])), s)
          else
            attemptsFrom execute maxRetries left (attempt + 1) (some e.message)
              (errors ++ [e.message]) s
      | (.cancelled, s) => (.cancelled, s)

/-- `BaseNode.run` from a state of the attempts. -/
def runFrom (cls : NodeClass) (config : List (String × Value)) (execute : σ → NodeAttempt × σ)
    (s : σ) : NodeEnd × σ :=
  attemptsFrom execute (maxRetries cls config) (1 + maxRetries cls config).toNat 0 none [] s

variable {execute : σ → NodeAttempt × σ} {maxRetries : Int}

/-- A relation between the state before and how the node ends holds of the attempts if it holds
when none is left, of an attempt that ends them, and of one that is retried before a rest of
which it holds. -/
theorem attemptsFrom_rule {R : σ → NodeEnd → σ → Prop}
    (exhausted : ∀ s error errors, R s (.ended (.failed error maxRetries errors)) s)
    (returned : ∀ s s' output attempt errors, execute s = (.returned output, s') →
      R s (.ended (.completed output attempt errors)) s')
    (blocked : ∀ s s' e errors, execute s = (.raised e, s') → e.nonRetryable = true →
      R s (.ended (.failed (some e.message) maxRetries errors)) s')
    (retried : ∀ s s' e o s'', execute s = (.raised e, s') → e.nonRetryable = false →
      R s' o s'' → R s o s'')
    (cancelled : ∀ s s', execute s = (.cancelled, s') → R s .cancelled s')
    (left attempt : Nat) (lastError : Option String) (errors : List String) (s : σ) :
    R s (attemptsFrom execute maxRetries left attempt lastError errors s).1
      (attemptsFrom execute maxRetries left attempt lastError errors s).2 := by
  induction left generalizing attempt lastError errors s with
  | zero => exact exhausted s lastError errors
  | succ left ih =>
      rw [attemptsFrom]
      split
      next output s' hexec => exact returned s s' output attempt errors hexec
      next e s' hexec =>
        split
        next hblocked => exact blocked s s' e _ hexec hblocked
        next hretry => exact retried s s' e _ _ hexec (by simpa using hretry) (ih ..)
      next s' hexec => exact cancelled s s' hexec

/-- The rule for a whole `run`. -/
theorem runFrom_rule {cls : NodeClass} {config : List (String × Value)}
    {R : σ → NodeEnd → σ → Prop}
    (exhausted : ∀ s error retries errors, R s (.ended (.failed error retries errors)) s)
    (returned : ∀ s s' output attempt errors, execute s = (.returned output, s') →
      R s (.ended (.completed output attempt errors)) s')
    (blocked : ∀ s s' e retries errors, execute s = (.raised e, s') → e.nonRetryable = true →
      R s (.ended (.failed (some e.message) retries errors)) s')
    (retried : ∀ s s' e o s'', execute s = (.raised e, s') → e.nonRetryable = false →
      R s' o s'' → R s o s'')
    (cancelled : ∀ s s', execute s = (.cancelled, s') → R s .cancelled s') (s : σ) :
    R s (runFrom cls config execute s).1 (runFrom cls config execute s).2 :=
  attemptsFrom_rule (fun s error errors => exhausted s error _ errors) returned
    (fun s s' e errors => blocked s s' e _ errors) retried cancelled _ _ _ _ s

/-! ## Attempts without a state -/

private theorem attemptsFrom_numbered (attempts : Nat → Except NodeError Value) (left k : Nat)
    (lastError : Option String) (errors : List String) :
    (attemptsFrom (fun n => (match attempts n with
        | .ok output => .returned output
        | .error e => .raised e, n + 1)) maxRetries left k lastError errors k).1 =
      .ended (attemptLoop attempts maxRetries left k lastError errors) := by
  induction left generalizing k lastError errors with
  | zero => rfl
  | succ left ih =>
      rw [attemptsFrom, attemptLoop]
      cases attempts k with
      | ok output => rfl
      | error e =>
          simp only
          split
          · rfl
          · exact ih ..

/-- `BaseNode.run` is the run over the number of the attempt. -/
theorem runFrom_numbered (cls : NodeClass) (config : List (String × Value))
    (attempts : Nat → Except NodeError Value) :
    (runFrom cls config (fun n => (match attempts n with
        | .ok output => .returned output
        | .error e => .raised e, n + 1)) 0).1 = .ended (run cls config attempts) :=
  attemptsFrom_numbered ..

end BaseNode

end CitraFlows
