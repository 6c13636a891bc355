-- SUMMARY: The LLM-call budget of a run: its charges, who makes them, and what an attempt of a node can do to it.
import CitraFlows.Llm.Runs
import CitraFlows.Nodes.Base

/-!
# The LLM-call budget

The nodes of a run share one `_RunLlmBudget`. A call of a model is charged right before it is
made; a charge over the limit raises `RunLlmBudgetExceeded`, an exception like any other. Under
one charge a node either sends one request or goes through `llm_call`, which sends a request for
each of its attempts and tool rounds. Nodes that process their items one by one or in batches do
so in tasks of their own: the first exception ends the attempt, and the other tasks stay behind
and go on.

A request is one call of the client's `create`; what the client repeats inside it is not seen.
-/

namespace CitraFlows

namespace LlmBudget

/-! ## The limit -/

structure Limits where
  maxRunLlmCalls : Int := 200
  maxRunLlmCallsHard : Int := 1000

/-- `_resolve_run_llm_limit`; `raw` is the workflow's `max_run_llm_calls`. -/
def resolveRunLlmLimit (limits : Limits) (raw : Option Int) : Nat :=
  let limit := match raw with
    | some n => if 0 < n then n else limits.maxRunLlmCalls
    | none => limits.maxRunLlmCalls
  (max 1 (min limit limits.maxRunLlmCallsHard)).toNat

theorem resolveRunLlmLimit_pos (limits : Limits) (raw : Option Int) :
    0 < resolveRunLlmLimit limits raw := by
  simp only [resolveRunLlmLimit]
  omega

/-! ## Calls -/

/-- What is done under one charge: a request to the model, or `_get_llm_response` with what the
service answers to it. -/
inductive ModelCall where
  | create
  | response (prompt : String) (tier : LlmCall.Tier) (system : String) (env : LlmCall.LlmEnv)

/-- The arguments with which `_get_llm_response` calls `llm_call`. -/
def responseArgs (prompt : String) (tier : LlmCall.Tier) (system : String) : LlmCall.LlmArgs where
  systemPrompt := system
  userPrompt := prompt
  maxTokens := if tier = .small then 4096 else 16000
  tier := tier

namespace ModelCall

variable {cfg : LlmCall.LlmConfig}

/-- How many requests the call sends. -/
def requests (cfg : LlmCall.LlmConfig) : ModelCall → Nat
  | .create => 1
  | .response prompt tier system env =>
      (LlmCall.requests (LlmCall.llmCall cfg env (responseArgs prompt tier system)).2).length

/-- The service answers the first request in such a way that no other one is needed. -/
def Settled (cfg : LlmCall.LlmConfig) : ModelCall → Prop
  | .create => True
  | .response prompt tier system env =>
      let args := responseArgs prompt tier system
      (args.task cfg).settledBy (env.create [.requested (LlmCall.firstRequest cfg args)]) = true

theorem requests_le (cfg : LlmCall.LlmConfig) (call : ModelCall) : call.requests cfg ≤ 18 := by
  cases call with
  | create => simp [requests]
  | response prompt tier system env => exact (LlmCall.llmCall_finished cfg env _).2.1

theorem Settled.requests {call : ModelCall} (h : call.Settled cfg) : call.requests cfg = 1 := by
  cases call with
  | create => rfl
  | response prompt tier system env => exact LlmCall.llmCall_settled cfg env _ h

end ModelCall

/-- How a node asks a model under a charge: with the `create` of its client, or with
`_get_llm_response`. -/
inductive Via where
  | client
  | helper
  deriving DecidableEq

/-- The calls that can be made in this way. -/
def Via.makes : Via → ModelCall → Bool
  | .client, .create => true
  | .helper, .response .. => true
  | _, _ => false

/-! ## Callers -/

/-- The part of a node that asks a model, one call after the other: how many it may still make. It
has made none before, or some. -/
inductive Caller where
  | idle (calls : Nat)
  | asked (left : Nat)
  | returned
  deriving DecidableEq

namespace Caller

/-- The caller after one more call. -/
def next : Caller → Option Caller
  | .idle (n + 1) => some (.asked n)
  | .asked (n + 1) => some (.asked n)
  | _ => none

/-- A caller returns after its calls; one that has some to make does not return without. -/
def mayReturn : Caller → Bool
  | .idle 0 => true
  | .idle (_ + 1) => false
  | .asked _ => true
  | .returned => false

end Caller

/-! ## The budget -/

/-- The budget of a run, the calls that were made, and the tasks that were left behind by the
attempts so far, each with the way in which it asks; `strayBreached` says that one of them went
past the limit. -/
structure Account where
  limit : Nat
  count : Nat := 0
  calls : List ModelCall := []
  strays : List (Via × Caller) := []
  strayBreached : Bool := false

namespace Account

/-- The next charge goes over the limit. -/
def raises (a : Account) : Bool := a.limit ≠ 0 && a.limit < a.count + 1

/-- The text of `RunLlmBudgetExceeded` -/
def breachText (a : Account) : String :=
  "Workflow exceeded its per-run LLM-call limit of " ++ toString a.limit ++ " (attempted call #" ++
    toString (a.count + 1) ++ "). Reduce per-item fan-out, agent tool iterations, or the number " ++
      "of LLM nodes — or raise the workflow's max_run_llm_calls (subject to the admin hard-max)."

/-- `charge_llm_call()` -/
def charge (a : Account) : Account := { a with count := a.count + 1 }

/-- A call is made. -/
def make (a : Account) (call : ModelCall) : Account := { a with calls := a.calls ++ [call] }

/-- The requests that were sent. -/
def requests (a : Account) (cfg : LlmCall.LlmConfig) : Nat :=
  (a.calls.map (ModelCall.requests cfg)).sum

/-- Tasks stay behind. -/
def leave (a : Account) (via : Via) (callers : List Caller) : Account :=
  { a with strays := a.strays ++ (callers.filter (· ≠ .returned)).map (via, ·) }

end Account

/-- A task that was left behind goes on: what it raises is lost. -/
inductive StrayStep (a : Account) : Account → Prop where
  | ask {j : Nat} {via : Via} {c c' : Caller} {call : ModelCall}
      (task : a.strays[j]? = some (via, c)) (next : c.next = some c') (sent : a.raises = false)
      (made : via.makes call = true) :
      StrayStep a { a.charge.make call with strays := a.strays.set j (via, c') }
  | breach {j : Nat} {via : Via} {c c' : Caller} (task : a.strays[j]? = some (via, c))
      (next : c.next = some c') (exceeds : a.raises = true) :
      StrayStep a { a.charge with strays := a.strays.eraseIdx j, strayBreached := true }
  | finish {j : Nat} : StrayStep a { a with strays := a.strays.eraseIdx j }

/-! ## Attempts -/

/-- What an attempt of a node can do to the budget: its callers in any order, with the tasks left
behind in between; `wrap` is what the node makes of the text of an exception of a charge. With
`uncharged` the node also makes calls that it does not charge. -/
inductive AttemptRun (via : Via) (wrap : String → String) (uncharged : Bool) :
    List Caller → Account → NodeAttempt → Account → Prop where
  | stray {cs : List Caller} {a a' a'' : Account} {o : NodeAttempt} (step : StrayStep a a')
      (rest : AttemptRun via wrap uncharged cs a' o a'') : AttemptRun via wrap uncharged cs a o a''
  | ask {cs : List Caller} {a a' : Account} {o : NodeAttempt} {i : Nat} {c c' : Caller}
      {call : ModelCall} (caller : cs[i]? = some c) (next : c.next = some c')
      (sent : a.raises = false) (made : via.makes call = true)
      (rest : AttemptRun via wrap uncharged (cs.set i c') (a.charge.make call) o a') :
      AttemptRun via wrap uncharged cs a o a'
  | breach {cs : List Caller} {a : Account} {i : Nat} {c c' : Caller}
      (caller : cs[i]? = some c) (next : c.next = some c') (exceeds : a.raises = true) :
      AttemptRun via wrap uncharged cs a (.raised { message := wrap a.breachText })
        (a.charge.leave via (cs.eraseIdx i))
  | fail {cs : List Caller} {a : Account} {i : Nat} {c : Caller} {e : NodeError}
      (caller : cs[i]? = some c) (live : c ≠ .returned) :
      AttemptRun via wrap uncharged cs a (.raised e) (a.leave via (cs.eraseIdx i))
  | finish {cs : List Caller} {a a' : Account} {o : NodeAttempt} {i : Nat} {c : Caller}
      (caller : cs[i]? = some c) (returns : c.mayReturn = true)
      (rest : AttemptRun via wrap uncharged (cs.set i .returned) a o a') :
      AttemptRun via wrap uncharged cs a o a'
  | uncharged {cs : List Caller} {a a' : Account} {o : NodeAttempt} (free : uncharged = true)
      (rest : AttemptRun via wrap uncharged cs (a.make .create) o a') :
      AttemptRun via wrap uncharged cs a o a'
  /-- An exception before the callers start. -/
  | unstarted {cs : List Caller} {a : Account} {e : NodeError}
      (idle : ∀ c ∈ cs, ∃ n, c = .idle n) : AttemptRun via wrap uncharged cs a (.raised e) a
  /-- An exception after the callers have returned. -/
  | late {cs : List Caller} {a : Account} {e : NodeError} (all : ∀ c ∈ cs, c = .returned) :
      AttemptRun via wrap uncharged cs a (.raised e) a
  | returned {cs : List Caller} {a : Account} {output : Value}
      (all : ∀ c ∈ cs, c = .returned) : AttemptRun via wrap uncharged cs a (.returned output) a
  /-- The tasks of the attempt are cancelled with it. -/
  | cancelled {cs : List Caller} {a : Account} : AttemptRun via wrap uncharged cs a .cancelled a

/-! ## What a charge keeps -/

/-- The calls stay within the limit, and each is charged. -/
structure Account.Sound (a : Account) : Prop where
  bounded : a.calls.length ≤ a.limit
  charged : a.calls.length ≤ a.count
  positive : 0 < a.limit

theorem Account.raises_iff {a : Account} (h : a.Sound) : a.raises = true ↔ a.limit ≤ a.count := by
  have hpos := h.positive
  simp only [raises, ne_eq, Bool.and_eq_true, decide_eq_true_eq]
  omega

theorem Account.Sound.charge {a : Account} (h : a.Sound) : a.charge.Sound :=
  ⟨h.bounded, h.charged.trans (Nat.le_succ _), h.positive⟩

/-- A call under a charge that did not raise. -/
theorem Account.Sound.make {a : Account} (h : a.Sound) (hsent : a.raises = false)
    (call : ModelCall) : (a.charge.make call).Sound := by
  have hlt : a.count < a.limit := by
    by_contra hle
    rw [(a.raises_iff h).mpr (by omega)] at hsent
    cases hsent
  obtain ⟨_, hcharged, hpos⟩ := h
  have hlength : (a.charge.make call).calls.length = a.calls.length + 1 := by
    simp [Account.make, Account.charge]
  refine ⟨?_, ?_, hpos⟩
  · rw [hlength]
    show a.calls.length + 1 ≤ a.limit
    omega
  · rw [hlength]
    show a.calls.length + 1 ≤ a.count + 1
    omega

/-- How the account moves while nodes run. -/
structure Account.Grows (a a' : Account) : Prop where
  sound : a.Sound → a'.Sound
  limit : a'.limit = a.limit
  count : a.count ≤ a'.count
  stray : a.strayBreached = true → a'.strayBreached = true

theorem Account.Grows.refl {a : Account} : a.Grows a := ⟨id, rfl, Nat.le_refl _, id⟩

theorem Account.Grows.trans {a a' a'' : Account} (h : a.Grows a') (h' : a'.Grows a'') :
    a.Grows a'' :=
  ⟨h'.sound ∘ h.sound, h'.limit.trans h.limit, h.count.trans h'.count, h'.stray ∘ h.stray⟩

theorem Account.grows_charge (a : Account) : a.Grows a.charge :=
  ⟨Account.Sound.charge, rfl, Nat.le_succ _, id⟩

theorem Account.grows_make {a : Account} (hsent : a.raises = false) (call : ModelCall) :
    a.Grows (a.charge.make call) :=
  ⟨fun h => h.make hsent call, rfl, Nat.le_succ _, id⟩

theorem Account.grows_leave (a : Account) (via : Via) (callers : List Caller) :
    a.Grows (a.leave via callers) :=
  ⟨fun ⟨hb, hc, hp⟩ => ⟨hb, hc, hp⟩, rfl, Nat.le_refl _, id⟩

theorem StrayStep.grows {a a' : Account} (h : StrayStep a a') : a.Grows a' := by
  cases h with
  | ask _ _ sent =>
      exact (Account.grows_make sent _).trans
        ⟨fun ⟨hb, hc, hp⟩ => ⟨hb, hc, hp⟩, rfl, Nat.le_refl _, id⟩
  | breach =>
      exact a.grows_charge.trans
        ⟨fun ⟨hb, hc, hp⟩ => ⟨hb, hc, hp⟩, rfl, Nat.le_refl _, fun _ => rfl⟩
  | finish => exact ⟨fun ⟨hb, hc, hp⟩ => ⟨hb, hc, hp⟩, rfl, Nat.le_refl _, id⟩

/-- A task that was left behind goes over the limit only with `strayBreached`. -/
theorem StrayStep.within {a a' : Account} (h : StrayStep a a') (ha : a.Sound)
    (hbreached : a'.strayBreached = false) (hle : a.count ≤ a.limit) : a'.count ≤ a'.limit := by
  cases h with
  | ask _ _ sent =>
      have hlt : ¬ a.limit ≤ a.count := fun hge => by
        rw [(a.raises_iff ha).mpr hge] at sent
        cases sent
      show a.count + 1 ≤ a.limit
      omega
  | breach => cases hbreached
  | finish => exact hle

/-! ## Attempts and the limit -/

/-- The caller has calls to make, or has made some. -/
def Caller.asks : Caller → Bool
  | .idle n => 0 < n
  | .asked _ => true
  | .returned => false

theorem Caller.asks_of_next {c c' : Caller} (h : c.next = some c') : c.asks = true := by
  cases c with
  | idle n =>
      cases n with
      | zero => cases h
      | succ n => simp [asks]
  | asked n => rfl
  | returned => cases h

variable {via : Via} {wrap : String → String} {cs : List Caller} {a a' : Account} {o : NodeAttempt}

theorem AttemptRun.grows (h : AttemptRun via wrap false cs a o a') : a.Grows a' := by
  induction h with
  | stray step _ ih => exact step.grows.trans ih
  | ask _ _ sent _ _ ih => exact (Account.grows_make sent _).trans ih
  | breach => exact (Account.grows_charge _).trans (Account.grows_leave _ _ _)
  | fail => exact Account.grows_leave _ _ _
  | finish _ _ _ ih => exact ih
  | uncharged free => cases free
  | unstarted => exact .refl
  | late => exact .refl
  | returned => exact .refl
  | cancelled => exact .refl

/-- Once the budget is used up, no attempt returns that has a call to make. -/
theorem AttemptRun.not_returned (h : AttemptRun via wrap false cs a o a') (ha : a.Sound)
    (hfull : a.limit ≤ a.count) {n : Nat} (hcaller : .idle (n + 1) ∈ cs) (output : Value) :
    o ≠ .returned output := by
  induction h with
  | stray step _ ih =>
      have hgrows := step.grows
      have hcount := hgrows.count
      exact ih (hgrows.sound ha) (by rw [hgrows.limit]; omega) hcaller
  | ask _ _ sent =>
      rw [(Account.raises_iff ha).mpr hfull] at sent
      cases sent
  | breach => simp
  | fail => simp
  | @finish cs a a' o i c caller returns rest ih =>
      refine ih ha hfull ?_
      -- the caller that returns is another one
      obtain ⟨j, hj⟩ := List.mem_iff_getElem?.mp hcaller
      have hne : i ≠ j := by
        rintro rfl
        rw [hj] at caller
        cases caller
        cases returns
      exact List.mem_iff_getElem?.mpr ⟨j, by rw [List.getElem?_set_ne hne, hj]⟩
  | uncharged free => cases free
  | unstarted => simp
  | late => simp
  | returned all => exact absurd (all _ hcaller) (by simp)
  | cancelled => simp

/-- An attempt whose own charge goes over the limit raises, and may be retried. -/
theorem AttemptRun.breached (h : AttemptRun via wrap false cs a o a') (ha : a.Sound)
    (hle : a.count ≤ a.limit) (hover : a'.limit < a'.count)
    (hstray : a'.strayBreached = false) :
    (∃ e, o = .raised e ∧ e.nonRetryable = false) ∧ ∃ c ∈ cs, c.asks = true := by
  induction h with
  | @stray cs a a' a'' o step rest ih =>
      have hbreached : a'.strayBreached = false := by
        cases hb : a'.strayBreached with
        | false => rfl
        | true => rw [rest.grows.stray hb] at hstray; cases hstray
      exact ih (step.grows.sound ha) (step.within ha hbreached hle) hover hstray
  | @ask cs a a' o i c c' call caller next sent made rest ih =>
      have hlt : ¬ a.limit ≤ a.count := fun hge => by
        rw [(Account.raises_iff ha).mpr hge] at sent
        cases sent
      have hcount : (a.charge.make call).count ≤ (a.charge.make call).limit := by
        show a.count + 1 ≤ a.limit
        omega
      exact ⟨(ih (ha.make sent call) hcount hover hstray).1, c, List.mem_of_getElem? caller,
        Caller.asks_of_next next⟩
  | breach caller next =>
      exact ⟨⟨_, rfl, rfl⟩, _, List.mem_of_getElem? caller, Caller.asks_of_next next⟩
  | fail => exact absurd hover (by simp [Account.leave]; omega)
  | @finish cs a a' o i c caller returns rest ih =>
      obtain ⟨hraised, c', hmem, hasks⟩ := ih ha hle hover hstray
      refine ⟨hraised, c', ?_, hasks⟩
      rcases List.mem_or_eq_of_mem_set hmem with hmem | rfl
      · exact hmem
      · cases hasks
  | uncharged free => cases free
  | unstarted => omega
  | late => omega
  | returned => omega
  | cancelled => omega

end LlmBudget

end CitraFlows
